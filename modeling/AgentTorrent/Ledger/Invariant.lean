import AgentTorrent.Framework.Machine
import AgentTorrent.Ledger.Ledger
import AgentTorrent.Ledger.Wallet

open Framework Framework.Bookkeeping

namespace AgentTorrent

def kindCount (k : RecordKind) (rs : List Record) : Nat := rs.countP fun r => r.kind=k

def jobCount (k : RecordKind) (j : PyStr) (rs : List Record) : Nat :=
  rs.countP fun r => r.kind=k ∧ r.jobId=some j

/-- The job ids with an escrow record and no closing record. -/
def openJobs (rs : List Record) : Finset PyStr :=
  (rs.filterMap Record.jobId).toFinset.filter fun j =>
    jobCount .escrow j rs≠0 ∧ jobCount .settle j rs=0 ∧ jobCount .refund j rs=0

/-- Every closing record stands after an escrow record of its job. -/
def ClosedInOrder (rs : List Record) : Prop :=
  ∀pre r post,rs=pre++r::post → r.kind=.settle ∨ r.kind=.refund →
    ∃e∈pre,e.kind=.escrow ∧ e.jobId=r.jobId

@[simp] theorem kindCount_snoc (k : RecordKind) (rs : List Record) (r : Record) :
    kindCount k (rs++[r])=kindCount k rs+if r.kind=k then 1 else 0 := by
  by_cases h : r.kind=k <;> simp [kindCount,h]

@[simp] theorem jobCount_snoc (k : RecordKind) (j : PyStr) (rs : List Record) (r : Record) :
    jobCount k j (rs++[r])=jobCount k j rs+if r.kind=k ∧ r.jobId=some j then 1 else 0 := by
  by_cases h : r.kind=k ∧ r.jobId=some j <;> simp [jobCount,h]

theorem closedInOrder_snoc {rs : List Record} {r : Record} (h : ClosedInOrder rs)
    (hr : r.kind=.settle ∨ r.kind=.refund → ∃e∈rs,e.kind=.escrow ∧ e.jobId=r.jobId) :
    ClosedInOrder (rs++[r]) := by
  intro pre c post he hc
  rcases List.eq_nil_or_concat post with hp | ⟨post,d,rfl⟩
  · subst hp
    obtain ⟨hrs,hd⟩ := List.append_inj' he rfl
    have hd : r=c := by simpa using hd
    subst hrs hd
    exact hr hc
  · have he : rs++[r]=(pre++c::post)++[d] := by simpa using he
    exact h pre c post (List.append_inj' he rfl).1 hc

namespace Ledger

/-- The ledger that a successful _append leaves. -/
def extend (L : Ledger) (r : Record) : Ledger := ⟨L.records++[r],⟨some (L.records++[r]),none⟩⟩

theorem append_ok (L : Ledger) (r : Record) : L.append none r=(L.extend r,.ok ()) := rfl

@[simp] theorem extend_records (L : Ledger) (r : Record) :
    (L.extend r).records=L.records++[r] := rfl

@[simp] theorem extend_file (L : Ledger) (r : Record) :
    (L.extend r).disk.ledgerFile=some (L.extend r).records := rfl

@[simp] theorem extend_jobRecords (L : Ledger) (r : Record) (j : PyStr) :
    (L.extend r).jobRecords j=L.jobRecords j++if r.jobId=some j then [r] else [] := by
  by_cases h : r.jobId=some j <;> simp [jobRecords,h]

theorem balance_extend (L : Ledger) (r : Record) (a : PyStr) :
    (L.extend r).balance a=L.balance a+Framework.Bookkeeping.balance r.entries a := by
  simp [balance]

theorem hasKind_iff (L : Ledger) (j : PyStr) (k : RecordKind) :
    L.hasKind j k=true ↔ 0 < jobCount k j L.records := by
  simp [hasKind,jobRecords,jobCount,List.countP_pos_iff,and_comm]

theorem jobCount_eq (L : Ledger) (k : RecordKind) (j : PyStr) :
    jobCount k j L.records=(L.jobRecords j).countP fun r => r.kind=k := by
  simp [jobCount,jobRecords,List.countP_filter]

theorem jobCount_of_no_records {L : Ledger} {j : PyStr} (h : L.jobRecords j=[])
    (k : RecordKind) : jobCount k j L.records=0 := by
  rw [L.jobCount_eq,h]
  rfl

/-- The job has an escrow record and no closing record. -/
def IsOpen (L : Ledger) (j : PyStr) : Prop :=
  0 < jobCount .escrow j L.records ∧ jobCount .settle j L.records=0 ∧
    jobCount .refund j L.records=0

theorem mem_openJobs_iff {L : Ledger} {j : PyStr} : j∈openJobs L.records ↔ L.IsOpen j := by
  rw [openJobs,Finset.mem_filter,IsOpen,Nat.pos_iff_ne_zero]
  constructor
  · exact fun hj => hj.2
  · intro hj
    refine ⟨?_,hj⟩
    obtain ⟨r,hr,hp⟩ := List.countP_pos_iff.mp (Nat.pos_of_ne_zero hj.1)
    rw [List.mem_toFinset,List.mem_filterMap]
    exact ⟨r,hr,(of_decide_eq_true hp).2⟩

/-- An open escrow stays open where no closing record of its job is booked. -/
theorem IsOpen.extend {L : Ledger} {j : PyStr} (h : L.IsOpen j) {r : Record}
    (hr : r.jobId=some j → r.kind=.escrow ∨ r.kind=.work) : (L.extend r).IsOpen j := by
  obtain ⟨he,hs,hf⟩ := h
  have other (k : RecordKind) (hk : k=.settle ∨ k=.refund) : ¬(r.kind=k ∧ r.jobId=some j) := by
    intro hh
    rcases hr hh.2 with h | h
    all_goals
      rw [hh.1] at h
      rcases hk with rfl | rfl <;> cases h
  simp only [IsOpen,extend_records,jobCount_snoc,hs,hf,if_neg (other _ (.inl rfl)),
    if_neg (other _ (.inr rfl)),Nat.add_zero,and_true]
  omega

/-- What escrow does: it refuses, or it books the one escrow of a new job. -/
theorem escrow_cases (L : Ledger) (j w : PyStr) :
    (∃msg,L.escrow none j w=(L,.error (.ledgerError msg))) ∨
    (jobPrice ≤ L.balance selfAccount ∧ L.jobRecords j=[] ∧
      L.escrow none j w=(L.extend (escrowRecord j w),.ok ())) := by
  unfold escrow
  split_ifs with hb hr
  · exact .inl ⟨_,rfl⟩
  · exact .inl ⟨_,rfl⟩
  · exact .inr ⟨by omega,not_not.mp hr,append_ok ..⟩

theorem requireOpenEscrow_cases (L : Ledger) (j : PyStr) :
    (∃msg,L.requireOpenEscrow j=.error (.ledgerError msg)) ∨
    (L.requireOpenEscrow j=.ok () ∧ L.IsOpen j) := by
  have he := L.hasKind_iff j .escrow
  have hs := L.hasKind_iff j .settle
  have hr := L.hasKind_iff j .refund
  unfold requireOpenEscrow
  by_cases h1 : L.hasKind j .escrow=true
  · by_cases h2 : L.hasKind j .settle=true ∨ L.hasKind j .refund=true
    · exact .inl ⟨_,by rw [if_neg (not_not.mpr h1),if_pos h2]⟩
    · rw [if_neg (not_not.mpr h1),if_neg h2]
      rw [not_or] at h2
      refine .inr ⟨rfl,he.mp h1,?_,?_⟩
      · exact Nat.eq_zero_of_not_pos fun h => h2.1 (hs.mpr h)
      · exact Nat.eq_zero_of_not_pos fun h => h2.2 (hr.mpr h)
  · exact .inl ⟨_,if_pos h1⟩

theorem requireOpenEscrow_of_open {L : Ledger} {j : PyStr} (h : L.IsOpen j) :
    L.requireOpenEscrow j=.ok () := by
  obtain ⟨he,hs,hr⟩ := h
  have h1 := (L.hasKind_iff j .escrow).mpr he
  have h2 : ¬(L.hasKind j .settle=true ∨ L.hasKind j .refund=true) := by
    rw [hasKind_iff,hasKind_iff]
    omega
  rw [requireOpenEscrow,if_neg (not_not.mpr h1),if_neg h2]

theorem creditForWork_cases (L : Ledger) (j r : PyStr) :
    (∃msg,L.creditForWork none j r=(L,.error (.ledgerError msg))) ∨
    (jobCount .work j L.records=0 ∧
      L.creditForWork none j r=(L.extend (workRecord j r),.ok ())) := by
  have hw := L.hasKind_iff j .work
  unfold creditForWork
  split_ifs with h
  · exact .inl ⟨_,rfl⟩
  · exact .inr ⟨Nat.eq_zero_of_not_pos fun hp => h (hw.mpr hp),append_ok ..⟩

theorem settle_cases (L : Ledger) (j w : PyStr) :
    (∃msg,L.settle none j w=(L,.error (.ledgerError msg))) ∨
    (L.IsOpen j ∧ L.settle none j w=(L.extend (settleRecord j w),.ok ())) := by
  unfold settle
  rcases L.requireOpenEscrow_cases j with ⟨msg,h⟩ | ⟨h,ho⟩
  · exact .inl ⟨msg,by rw [h]⟩
  · exact .inr ⟨ho,by rw [h,append_ok]⟩

theorem refund_cases (L : Ledger) (j : PyStr) :
    (∃msg,L.refund none j=(L,.error (.ledgerError msg))) ∨
    (L.IsOpen j ∧ L.refund none j=(L.extend (refundRecord j),.ok ())) := by
  unfold refund
  rcases L.requireOpenEscrow_cases j with ⟨msg,h⟩ | ⟨h,ho⟩
  · exact .inl ⟨msg,by rw [h]⟩
  · exact .inr ⟨ho,by rw [h,append_ok]⟩

end Ledger

/-- A peer id that is none of the ledger's own accounts. -/
def IsRemote (id : PyStr) : Prop :=
  id≠selfAccount ∧ id≠escrowAccount ∧ id≠genesisAccount

instance (id : PyStr) : Decidable (IsRemote id) := by unfold IsRemote; infer_instance

/-- A peer id is 40 characters long, so it names no account of the ledger itself. -/
theorem peerId_isRemote (id : PeerId) : IsRemote id.val := by
  have hl := id.property
  refine ⟨?_,?_,?_⟩
  all_goals
    intro h
    rw [h] at hl
    exact absurd hl (by decide)

theorem balance_transfer (amount : Int) (source target a : PyStr) :
    balance (transfer amount source target) a=
      (if source=a then -amount else 0)+(if target=a then amount else 0) := by
  simp [transfer]

@[simp] theorem self_ne_escrow : selfAccount≠escrowAccount := by decide

@[simp] theorem self_ne_genesis : selfAccount≠genesisAccount := by decide

@[simp] theorem escrow_ne_self : escrowAccount≠selfAccount := by decide

@[simp] theorem escrow_ne_genesis : escrowAccount≠genesisAccount := by decide

@[simp] theorem genesis_ne_self : genesisAccount≠selfAccount := by decide

@[simp] theorem genesis_ne_escrow : genesisAccount≠escrowAccount := by decide

/-- The ledger's records say what the wallet says. -/
structure Represents (L : Ledger) (w : Wallet PyStr) : Prop where
  self : L.balance selfAccount=w.spendable
  genesis : L.balance genesisAccount=-openingBalance
  escrow : L.balance escrowAccount=w.opened.card
  escrowOnce : ∀j,jobCount .escrow j L.records≤1
  closeOnce : ∀j,jobCount .settle j L.records+jobCount .refund j L.records≤1
  workOnce : ∀j,jobCount .work j L.records≤1
  escrowed : ∀j,0 < jobCount .escrow j L.records ↔ j∈w.opened ∨ j∈w.closed
  closing : ∀j,0 < jobCount .settle j L.records+jobCount .refund j L.records ↔ j∈w.closed
  worked : ∀j,0 < jobCount .work j L.records ↔ j∈w.worked
  ordered : ClosedInOrder L.records
  flow : w.spendable+kindCount .escrow L.records=
    10+kindCount .refund L.records+kindCount .work L.records
  file : L.disk.ledgerFile=some L.records

namespace Represents

variable {L : Ledger} {w : Wallet PyStr}

theorem fresh_jobCount (k : RecordKind) (j : PyStr) : jobCount k j Ledger.fresh.records=0 := by
  simp [Ledger.fresh,Ledger.load,Disk.empty,Ledger.append,jobCount,openingRecord]

theorem fresh : Represents Ledger.fresh (Wallet.start 10) where
  self := by decide
  genesis := by decide
  escrow := by decide
  escrowOnce j := by simp [fresh_jobCount]
  closeOnce j := by simp [fresh_jobCount]
  workOnce j := by simp [fresh_jobCount]
  escrowed j := by simp [fresh_jobCount,Wallet.start]
  closing j := by simp [fresh_jobCount,Wallet.start]
  worked j := by simp [fresh_jobCount,Wallet.start]
  ordered := by
    apply @closedInOrder_snoc []
    · intro pre r post h
      simp at h
    · intro h
      simp [openingRecord] at h
  flow := by decide
  file := rfl

theorem mem_opened (h : Represents L w) (j : PyStr) : j∈w.opened ↔ L.IsOpen j := by
  have he := h.escrowed j
  have hc := h.closing j
  constructor
  · intro ho
    have hn : j∉w.closed := Finset.disjoint_left.mp w.apart ho
    exact ⟨he.mpr (.inl ho),by have := mt hc.mp hn; omega⟩
  · intro hh
    obtain ⟨hp,hs,hr⟩ := hh
    have hn : j∉w.closed := fun hm => by have := hc.mpr hm; omega
    exact (he.mp hp).resolve_right hn

theorem openJobs_eq (h : Represents L w) : openJobs L.records=w.opened := by
  ext j
  rw [h.mem_opened]
  exact Ledger.mem_openJobs_iff

theorem canEscrow (h : Represents L w) {j : PyStr} (hb : jobPrice ≤ L.balance selfAccount)
    (hj : L.jobRecords j=[]) : w.CanEscrow j := by
  have hz := Ledger.jobCount_of_no_records hj
  have hs := h.self
  have he := h.escrowed j
  have hw := h.worked j
  rw [hz] at he hw
  refine ⟨by unfold jobPrice at hb; omega,?_,?_,?_⟩
  · exact fun hm => by simpa using he.mpr (.inl hm)
  · exact fun hm => by simpa using he.mpr (.inr hm)
  · exact fun hm => by simpa using hw.mpr hm

theorem escrow_step (h : Represents L w) (j worker : PyStr) (hj : w.CanEscrow j) :
    Represents (L.extend (escrowRecord j worker)) (w.escrow j hj) := by
  obtain ⟨hpos,hno,hnc,hnw⟩ := id hj
  have hz : jobCount .escrow j L.records=0 := by
    have := h.escrowed j
    simp only [hno,hnc,or_self,iff_false] at this
    omega
  constructor
  · have := h.self
    simp only [Ledger.balance_extend,escrowRecord,balance_transfer,jobPrice]
    simp
    omega
  · have := h.genesis
    simpa [Ledger.balance_extend,escrowRecord,balance_transfer] using this
  · have := h.escrow
    simp only [Ledger.balance_extend,escrowRecord,balance_transfer,jobPrice,
      Wallet.escrow_opened,Finset.card_insert_of_notMem hno]
    simp [this]
  · intro i
    have := h.escrowOnce i
    by_cases hi : j=i <;> simp [escrowRecord,hi]
    all_goals grind
  · exact fun i => by simpa [escrowRecord] using h.closeOnce i
  · exact fun i => by simpa [escrowRecord] using h.workOnce i
  · intro i
    have := h.escrowed i
    by_cases hi : j=i <;> simp [escrowRecord,hi]
    all_goals grind
  · exact fun i => by simpa [escrowRecord] using h.closing i
  · exact fun i => by simpa [escrowRecord] using h.worked i
  · exact closedInOrder_snoc h.ordered (by simp [escrowRecord])
  · have := h.flow
    simp [escrowRecord]
    omega
  · rfl

/-- Closing an open escrow by either record: it takes the unit out of escrow,
and back says whether the unit returns to self. -/
theorem close_step (h : Represents L w) {j : PyStr} {r : Record} (back : Bool)
    (hj : j∈w.opened) (hk : r.kind=if back then .refund else .settle) (hi : r.jobId=some j)
    (hs : balance r.entries selfAccount=back.toNat)
    (hg : balance r.entries genesisAccount=0)
    (he : balance r.entries escrowAccount=-1) :
    Represents (L.extend r) (w.close j back) := by
  obtain ⟨hp,hzs,hzr⟩ := (h.mem_opened j).mp hj
  have hne : r.kind≠.escrow ∧ r.kind≠.work := by rw [hk]; cases back <;> simp
  constructor
  · rw [Ledger.balance_extend,h.self,hs]
    simp
  · rw [Ledger.balance_extend,h.genesis,hg]
    simp
  · have hc : 0 < w.opened.card := Finset.card_pos.mpr ⟨j,hj⟩
    rw [Ledger.balance_extend,h.escrow,he,Wallet.close_opened,Finset.card_erase_of_mem hj]
    omega
  · exact fun i => by simpa [hne.1] using h.escrowOnce i
  · intro i
    have := h.closeOnce i
    by_cases hij : j=i
    · subst hij
      cases back <;> simp [hk,hi,hzs,hzr]
    · simpa [hi,hij] using this
  · exact fun i => by simpa [hne.2] using h.workOnce i
  · intro i
    have := h.escrowed i
    by_cases hij : j=i
    · subst hij
      simp [hne.1,hp]
    · have hji : i≠j := fun e => hij e.symm
      simpa [hne.1,hij,hji] using this
  · intro i
    have := h.closing i
    by_cases hij : j=i
    · subst hij
      cases back <;> simp [hk,hi,hzs,hzr]
    · have hji : i≠j := fun e => hij e.symm
      simpa [hi,hij,hji] using this
  · exact fun i => by simpa [hne.2] using h.worked i
  · apply closedInOrder_snoc h.ordered
    intro _
    obtain ⟨e,he,hp⟩ := List.countP_pos_iff.mp hp
    exact ⟨e,he,(of_decide_eq_true hp).1,(of_decide_eq_true hp).2.trans hi.symm⟩
  · have := h.flow
    cases back <;> simp [hk]
    all_goals omega
  · rfl

theorem settle_step (h : Represents L w) {j worker : PyStr} (hj : j∈w.opened)
    (hw : IsRemote worker) : Represents (L.extend (settleRecord j worker)) (w.close j false) := by
  obtain ⟨h1,h2,h3⟩ := hw
  apply h.close_step false hj rfl rfl
  all_goals simp [settleRecord,balance_transfer,jobPrice,h1,h2,h3]

theorem refund_step (h : Represents L w) {j : PyStr} (hj : j∈w.opened) :
    Represents (L.extend (refundRecord j)) (w.close j true) := by
  apply h.close_step true hj rfl rfl
  all_goals simp [refundRecord,balance_transfer,jobPrice]

theorem work_step (h : Represents L w) {j requester : PyStr} (hj : j∉w.worked)
    (hr : IsRemote requester) : Represents (L.extend (workRecord j requester)) (w.credit j) := by
  obtain ⟨h1,h2,h3⟩ := hr
  have hz : jobCount .work j L.records=0 := Nat.eq_zero_of_not_pos (mt (h.worked j).mp hj)
  constructor
  · have := h.self
    simp [Ledger.balance_extend,workRecord,balance_transfer,jobPrice,h1,this]
  · have := h.genesis
    simpa [Ledger.balance_extend,workRecord,balance_transfer,h3] using this
  · have := h.escrow
    simpa [Ledger.balance_extend,workRecord,balance_transfer,h2] using this
  · exact fun i => by simpa [workRecord] using h.escrowOnce i
  · exact fun i => by simpa [workRecord] using h.closeOnce i
  · intro i
    have := h.workOnce i
    by_cases hij : j=i
    · subst hij
      simp [workRecord,hz]
    · simpa [workRecord,hij] using this
  · exact fun i => by simpa [workRecord] using h.escrowed i
  · exact fun i => by simpa [workRecord] using h.closing i
  · intro i
    have := h.worked i
    by_cases hij : j=i
    · subst hij
      simp [workRecord]
    · have hji : i≠j := fun e => hij e.symm
      simpa [workRecord,hij,hji] using this
  · exact closedInOrder_snoc h.ordered (by simp [workRecord])
  · have := h.flow
    simp [workRecord]
    omega
  · rfl

/-- A reload from the ledger file gives the ledger back. -/
theorem load_eq (h : Represents L w) : Ledger.load L.disk=L := by
  simp [Ledger.load,h.file]

end Represents

/-- One call on a Ledger, or a restart that constructs it anew from its file. -/
inductive LedgerOp
  | escrow (job worker : PyStr)
  | settle (job worker : PyStr)
  | refund (job : PyStr)
  | creditForWork (job requester : PyStr)
  | reload

namespace LedgerOp

/-- The remote id that the call books to is no account of the ledger's own. -/
def RemoteOk : LedgerOp → Prop
  | .escrow _ id | .settle _ id | .creditForWork _ id => IsRemote id
  | _ => True

instance (op : LedgerOp) : Decidable op.RemoteOk := by
  cases op <;> unfold RemoteOk <;> infer_instance

def apply (op : LedgerOp) (L : Ledger) : Ledger×Except PyExc Unit :=
  match op with
  | .escrow job worker => L.escrow none job worker
  | .settle job worker => L.settle none job worker
  | .refund job => L.refund none job
  | .creditForWork job requester => L.creditForWork none job requester
  | .reload => (Ledger.load L.disk,.ok ())

end LedgerOp

def ledgerMachine : Machine Ledger LedgerOp where
  init L := L=Ledger.fresh
  step L op := if op.RemoteOk then some (op.apply L).1 else none

/-- A call refuses and changes nothing, or it is one move of the wallet. -/
theorem apply_refines (op : LedgerOp) {L : Ledger} {w : Wallet PyStr} (h : Represents L w)
    (hr : op.RemoteOk) :
    ((op.apply L).1=L) ∨
    ((op.apply L).2=.ok () ∧ ∃v,Wallet.Step w v ∧ Represents (op.apply L).1 v) := by
  cases op with
  | escrow job worker =>
    rcases L.escrow_cases job worker with ⟨msg,he⟩ | ⟨hb,hj,he⟩
    · exact .inl (by rw [LedgerOp.apply,he])
    · have hc := h.canEscrow hb hj
      refine .inr ⟨by rw [LedgerOp.apply,he],_,.escrow w job hc,?_⟩
      rw [LedgerOp.apply,he]
      exact h.escrow_step job worker hc
  | settle job worker =>
    rcases L.settle_cases job worker with ⟨msg,he⟩ | ⟨ho,he⟩
    · exact .inl (by rw [LedgerOp.apply,he])
    · have ho := (h.mem_opened job).mpr ho
      refine .inr ⟨by rw [LedgerOp.apply,he],_,.close w job false ho,?_⟩
      rw [LedgerOp.apply,he]
      exact h.settle_step ho hr
  | refund job =>
    rcases L.refund_cases job with ⟨msg,he⟩ | ⟨ho,he⟩
    · exact .inl (by rw [LedgerOp.apply,he])
    · have ho := (h.mem_opened job).mpr ho
      refine .inr ⟨by rw [LedgerOp.apply,he],_,.close w job true ho,?_⟩
      rw [LedgerOp.apply,he]
      exact h.refund_step ho
  | creditForWork job requester =>
    rcases L.creditForWork_cases job requester with ⟨msg,he⟩ | ⟨hz,he⟩
    · exact .inl (by rw [LedgerOp.apply,he])
    · have hn : job∉w.worked := fun hm => by have := (h.worked job).mpr hm; omega
      refine .inr ⟨by rw [LedgerOp.apply,he],_,.credit w job hn,?_⟩
      rw [LedgerOp.apply,he]
      exact h.work_step hn hr
  | reload => exact .inl h.load_eq

theorem reachable_represents {L : Ledger} (h : ledgerMachine.Reachable L) :
    ∃w,Represents L w := by
  refine @Machine.Reachable.invariant _ _ ledgerMachine (fun L => ∃w,Represents L w) ?_ ?_ L h
  · intro L hL
    subst hL
    exact ⟨_,Represents.fresh⟩
  · intro L op L' hL hs
    obtain ⟨w,hw⟩ := hL
    simp only [ledgerMachine,Option.ite_none_right_eq_some,Option.some.injEq] at hs
    obtain ⟨hr,rfl⟩ := hs
    rcases apply_refines op hw hr with he | ⟨-,v,-,hv⟩
    · exact ⟨w,by rwa [he]⟩
    · exact ⟨v,hv⟩

/-- The promises of the ledger module about one state. -/
structure LedgerSound (L : Ledger) : Prop where
  sumsToZero : ∀s : Finset PyStr,(∀e∈L.records.flatMap Record.entries,e.account∈s) →
    ∑ a ∈ s,L.balance a=0
  genesis : L.balance genesisAccount=-10
  selfNonneg : 0 ≤ L.balance selfAccount
  escrowOnce : ∀j,jobCount .escrow j L.records≤1
  closeOnce : ∀j,jobCount .settle j L.records+jobCount .refund j L.records≤1
  closedInOrder : ClosedInOrder L.records
  workOnce : ∀j,jobCount .work j L.records≤1
  escrowAccount : L.balance escrowAccount=(openJobs L.records).card
  selfFlow : L.balance selfAccount=
    10-kindCount .escrow L.records+kindCount .refund L.records+kindCount .work L.records

theorem Represents.sound {L : Ledger} {w : Wallet PyStr} (h : Represents L w) :
    LedgerSound L where
  sumsToZero s hs := journal_sum_zero Record.entries L.records (fun r _ => r.balanced) s hs
  genesis := h.genesis
  selfNonneg := by rw [h.self]; omega
  escrowOnce := h.escrowOnce
  closeOnce := h.closeOnce
  closedInOrder := h.ordered
  workOnce := h.workOnce
  escrowAccount := by rw [h.openJobs_eq,h.escrow]
  selfFlow := by
    have := h.flow
    rw [h.self]
    omega

theorem apply_error_unchanged (op : LedgerOp) (L : Ledger) {e : PyExc}
    (h : (op.apply L).2=.error e) : (op.apply L).1=L := by
  cases op with
  | escrow job worker =>
    rcases L.escrow_cases job worker with ⟨msg,he⟩ | ⟨-,-,he⟩ <;>
      simp [LedgerOp.apply,he] at h ⊢
  | settle job worker =>
    rcases L.settle_cases job worker with ⟨msg,he⟩ | ⟨-,he⟩ <;>
      simp [LedgerOp.apply,he] at h ⊢
  | refund job =>
    rcases L.refund_cases job with ⟨msg,he⟩ | ⟨-,he⟩ <;> simp [LedgerOp.apply,he] at h ⊢
  | creditForWork job requester =>
    rcases L.creditForWork_cases job requester with ⟨msg,he⟩ | ⟨-,he⟩ <;>
      simp [LedgerOp.apply,he] at h ⊢
  | reload => cases h

end AgentTorrent
