import AgentTorrent.Ledger.Invariant

open Framework.Bookkeeping

namespace AgentTorrent

/-- What one operation does to the ledger: nothing, or one record that its checks let pass. -/
inductive BookMove (L : Ledger) : Ledger → Prop
  | none : BookMove L L
  | escrow (j worker : PyStr) (hj : L.jobRecords j=[]) : BookMove L (L.extend (escrowRecord j worker))
  | settle (j worker : PyStr) (hw : IsRemote worker) (ho : L.IsOpen j) :
      BookMove L (L.extend (settleRecord j worker))
  | refund (j : PyStr) (ho : L.IsOpen j) : BookMove L (L.extend (refundRecord j))
  | work (j requester : PyStr) (hr : IsRemote requester) (hz : jobCount .work j L.records=0) :
      BookMove L (L.extend (workRecord j requester))

/-- The jobs that stand in the ledger with the given record. -/
def jobsWith (f : PyStr → Record) (L : Ledger) : Finset PyStr :=
  (L.records.filterMap Record.jobId).toFinset.filter fun j => f j∈L.records

/-- The jobs for which the ledger pays an account, and those for which it debits it. -/
def settledFor (L : Ledger) (account : PyStr) : Finset PyStr :=
  jobsWith (fun j => settleRecord j account) L

def workedFor (L : Ledger) (account : PyStr) : Finset PyStr :=
  jobsWith (fun j => workRecord j account) L

section Jobs

variable {L : Ledger} {f : PyStr → Record} (hf : ∀j,(f j).jobId=some j)
include hf

theorem mem_jobsWith {j : PyStr} : j∈jobsWith f L ↔ f j∈L.records := by
  rw [jobsWith,Finset.mem_filter,List.mem_toFinset,List.mem_filterMap]
  constructor
  · exact fun h => h.2
  · exact fun h => ⟨⟨f j,h,hf j⟩,h⟩

/-- A new record adds its job, if it is of the given form. -/
theorem jobsWith_extend_self {j : PyStr} (h : f j∉L.records) :
    (jobsWith f (L.extend (f j))).card=(jobsWith f L).card+1 := by
  have he : jobsWith f (L.extend (f j))=insert j (jobsWith f L) := by
    ext i
    rw [Finset.mem_insert,mem_jobsWith hf,mem_jobsWith hf,Ledger.extend_records,List.mem_append,
      List.mem_singleton]
    constructor
    · intro hi
      rcases hi with hi | hi
      · exact .inr hi
      · refine .inl (Option.some.inj ?_)
        rw [← hf i,hi,hf j]
    · intro hi
      rcases hi with rfl | hi
      · exact .inr rfl
      · exact .inl hi
  rw [he,Finset.card_insert_of_notMem (mt (mem_jobsWith hf).mp h)]

theorem jobsWith_extend_other {r : Record} (h : ∀j,f j≠r) :
    jobsWith f (L.extend r)=jobsWith f L := by
  ext i
  rw [mem_jobsWith hf,mem_jobsWith hf,Ledger.extend_records,List.mem_append,List.mem_singleton]
  exact ⟨fun hi => hi.resolve_right (h i),.inl⟩

end Jobs

theorem settleRecord_pays {j i w a : PyStr} (h : settleRecord j w=settleRecord i a) : w=a := by
  have he := congrArg Record.entries h
  simpa [settleRecord,transfer] using he

theorem workRecord_debits {j i r a : PyStr} (h : workRecord j r=workRecord i a) : r=a := by
  have he := congrArg Record.entries h
  simpa [workRecord,transfer] using he

/-- What the accounts of a ledger add up to. -/
structure Accounts (L : Ledger) : Prop where
  remote : ∀a,IsRemote a → L.balance a=((settledFor L a).card : Int)-(workedFor L a).card
  escrow : L.balance escrowAccount=(kindCount .escrow L.records : Int)-kindCount .settle L.records-
    kindCount .refund L.records

theorem accounts_fresh : Accounts Ledger.fresh where
  remote a ha := by
    obtain ⟨h1,-,h3⟩ := ha
    have hb : Ledger.fresh.balance a=0 := by
      have he : Ledger.fresh.balance a=balance openingRecord.entries a := by
        simp [Ledger.fresh,Ledger.load,Disk.empty,Ledger.append,Ledger.balance]
      rw [he,openingRecord,balance_transfer,if_neg h3.symm,if_neg h1.symm]
      rfl
    have hn (f : PyStr → Record) (hf : ∀j,(f j).jobId=some j) : jobsWith f Ledger.fresh=∅ := by
      rfl
    rw [hb,settledFor,workedFor,hn _ fun _ => rfl,hn _ fun _ => rfl]
    rfl
  escrow := by decide

/-- Every move keeps the sums: a settlement adds a job to those of its worker, a credit one
to those of its requester. -/
theorem BookMove.accounts {L L' : Ledger} (h : BookMove L L') (hL : Accounts L) : Accounts L' := by
  have others {r : Record} (a : PyStr) (hs : r.kind≠.settle) (hw : r.kind≠.work) :
      settledFor (L.extend r) a=settledFor L a ∧ workedFor (L.extend r) a=workedFor L a := by
    constructor
    · exact jobsWith_extend_other (fun _ => rfl) fun j he => hs (he ▸ rfl)
    · exact jobsWith_extend_other (fun _ => rfl) fun j he => hw (he ▸ rfl)
  cases h with
  | none => exact hL
  | escrow j worker hj =>
    constructor
    · intro a ha
      obtain ⟨hs,hw⟩ := others (r := escrowRecord j worker) a (by simp [escrowRecord])
        (by simp [escrowRecord])
      rw [hs,hw,Ledger.balance_extend,hL.remote a ha,escrowRecord,balance_transfer,
        if_neg ha.1.symm,if_neg ha.2.1.symm]
      simp
    · rw [Ledger.balance_extend,hL.escrow,escrowRecord,balance_transfer]
      simp [jobPrice]
      omega
  | settle j worker hr ho =>
    constructor
    · intro a ha
      have hw : workedFor (L.extend (settleRecord j worker)) a=workedFor L a :=
        jobsWith_extend_other (fun _ => rfl) fun i he => by cases congrArg Record.kind he
      rw [hw,Ledger.balance_extend,hL.remote a ha]
      by_cases he : worker=a
      · subst he
        have hn : settleRecord j worker∉L.records := by
          intro hm
          have := List.countP_eq_zero.mp ho.2.1 _ hm
          simp [settleRecord] at this
        have hc := jobsWith_extend_self (L := L) (f := fun j => settleRecord j worker)
          (fun _ => rfl) hn
        have hb : balance (settleRecord j worker).entries worker=1 := by
          simp [settleRecord,balance_transfer,jobPrice,ha.2.1.symm]
        rw [hb]
        unfold settledFor
        rw [hc]
        push_cast
        omega
      · have hs : settledFor (L.extend (settleRecord j worker)) a=settledFor L a :=
          jobsWith_extend_other (fun _ => rfl) fun i hi => he (settleRecord_pays hi).symm
        have hb : balance (settleRecord j worker).entries a=0 := by
          simp [settleRecord,balance_transfer,jobPrice,ha.2.1.symm,he]
        rw [hs,hb]
        omega
    · rw [Ledger.balance_extend,hL.escrow,settleRecord,balance_transfer]
      simp [jobPrice,hr.2.1]
      omega
  | refund j ho =>
    constructor
    · intro a ha
      obtain ⟨hs,hw⟩ := others (r := refundRecord j) a (by simp [refundRecord])
        (by simp [refundRecord])
      rw [hs,hw,Ledger.balance_extend,hL.remote a ha,refundRecord,balance_transfer,
        if_neg ha.1.symm,if_neg ha.2.1.symm]
      simp
    · rw [Ledger.balance_extend,hL.escrow,refundRecord,balance_transfer]
      simp [jobPrice]
      omega
  | work j requester hr hz =>
    constructor
    · intro a ha
      have hs : settledFor (L.extend (workRecord j requester)) a=settledFor L a :=
        jobsWith_extend_other (fun _ => rfl) fun i he => by cases congrArg Record.kind he
      rw [hs,Ledger.balance_extend,hL.remote a ha]
      by_cases he : requester=a
      · subst he
        have hn : workRecord j requester∉L.records := by
          intro hm
          have := List.countP_eq_zero.mp hz _ hm
          simp [workRecord] at this
        have hc := jobsWith_extend_self (L := L) (f := fun j => workRecord j requester)
          (fun _ => rfl) hn
        have hb : balance (workRecord j requester).entries requester=-1 := by
          simp [workRecord,balance_transfer,jobPrice,ha.1.symm]
        rw [hb]
        unfold workedFor
        rw [hc]
        push_cast
        omega
      · have hw : workedFor (L.extend (workRecord j requester)) a=workedFor L a :=
          jobsWith_extend_other (fun _ => rfl) fun i hi => he (workRecord_debits hi).symm
        have hb : balance (workRecord j requester).entries a=0 := by
          simp [workRecord,balance_transfer,jobPrice,ha.1.symm,he]
        rw [hw,hb]
        omega
    · rw [Ledger.balance_extend,hL.escrow,workRecord,balance_transfer]
      simp [jobPrice,hr.2.1]

end AgentTorrent
