import AgentTorrent.Peer.DelegateEscrow
import AgentTorrent.Peer.Process

open Framework

namespace AgentTorrent

variable (P : Platform) (peer : Peer)

section Rule

variable {P peer}

/-- No step of a thread leaves the moves of the wallet. -/
theorem threadMove_books {a : Answers} {L L' : Ledger} {t t' : Thread} {event : Option Event}
    (h : ThreadMove P peer a L t L' t' event) (hL : ∃w,Represents L w) : ∃w,Represents L' w := by
  obtain ⟨w,hw⟩ := hL
  cases h with
  | call _ _ pc pc' _ _ ht ht' hm hs =>
    cases hm with
    | escrow job worker hb hj => exact ⟨_,hw.escrow_step job.id _ (hw.canEscrow hb hj)⟩
    | settle job worker result ho =>
      exact ⟨_,hw.settle_step ((hw.mem_opened _).mpr ho) (peerId_isRemote _)⟩
    | refund job worker o ho => exact ⟨_,hw.refund_step ((hw.mem_opened _).mpr ho)⟩
    | _ => exact ⟨w,hw⟩
  | serve loopback pc pc' _ _ hm =>
    cases hm with
    | credit requester job hz =>
      have hn : job.id∉w.worked := fun hj => by have := (hw.worked _).mpr hj; omega
      exact ⟨_,hw.work_step hn (peerId_isRemote _)⟩
    | _ => exact ⟨w,hw⟩
  | gone => exact ⟨w,hw⟩

/-- The books of a process are sound in every state it reaches. -/
theorem reachable_books {p : Process} (h : (processMachine P peer).Reachable p) :
    ∃w,Represents p.shared.ledger w := by
  refine @Machine.Reachable.invariant _ _ (processMachine P peer)
    (fun p => ∃w,Represents p.shared.ledger w) ?_ ?_ p h
  · intro p hp
    cases hp
    exact ⟨_,.fresh⟩
  · intro p act q hp hs
    cases act with
    | turn i a =>
      simp only [processMachine] at hs
      split at hs
      · cases hs
      · rename_i t ht
        cases hs
        exact threadMove_books (threadStep_move P peer a p.shared.ledger t) hp
    | restart =>
      cases hs
      obtain ⟨w,hw⟩ := hp
      exact ⟨w,by rw [hw.load_eq]; exact hw⟩
    | _ =>
      cases hs
      exact hp

/-- What a guard asks of the turns of a process. -/
def onTurns (G : Answers → Shared → Thread → Prop) (p : Process) (act : Action) (_ : Process) :
    Prop := ∀i a t,act=.turn i a → p.threads[i]?=some t → G a p.shared t

def Thread.Born (t : Thread) : Prop :=
  (∃args,t=.delegate args .start) ∨ ∃loopback,t=.serve loopback .start

variable (P peer) in
/-- The obligations that make S an invariant of the shared state and J one of each
thread. -/
structure Keeps (G : Answers → Shared → Thread → Prop) (S : Shared → Nat → Prop)
    (J : Shared → Nat → Thread → Prop) : Prop where
  start : S ⟨Ledger.fresh,[]⟩ 0
  own : ∀{n i : Nat} {a : Answers} {s : Shared} {t t' : Thread} {L' : Ledger}
    {event : Option Event},i < n → S s n → J s i t → G a s t → (∃w,Represents s.ledger w) →
    ThreadMove P peer a s.ledger t L' t' event →
    S (s.book i t.call.isSome L' event) n ∧ J (s.book i t.call.isSome L' event) i t'
  others : ∀{n i k : Nat} {a : Answers} {s : Shared} {t t' u : Thread} {L' : Ledger}
    {event : Option Event},k≠i → S s n → J s i t → J s k u →
    ThreadMove P peer a s.ledger t L' t' event → J (s.book i t.call.isSome L' event) k u
  born : ∀{n : Nat} {s : Shared} {t : Thread},S s n → t.Born → S s (n+1) ∧ J s n t
  signed : ∀{n : Nat} {s : Shared} (pubkey msg : Bytes),S s n →
    S (s.hear pubkey msg) n ∧ ∀i t,J s i t → J (s.hear pubkey msg) i t
  gone : ∀(s : Shared) (i : Nat),J s i .gone

/-- One step of the process is a move of the pool. What is known of the shared state is
handed on to it. -/
theorem process_move {G : Answers → Shared → Thread → Prop} {H : Shared → Prop} {p q : Process}
    {act : Action} (hs : (processMachine P peer).step p act=some q) (hg : onTurns G p act q)
    (hH : H p.shared) :
    Pool.Step (fun i s t s' t' => H s ∧ ∃a,G a s t ∧ takeTurn P peer i a s t=(s',t')) Thread.Born
      (fun s s' => ∃pubkey msg,act=.sign pubkey msg ∧ s'=s.hear pubkey msg)
      (fun s s' t => H s ∧ s'={s with ledger := .load s.ledger.disk} ∧ t=.gone) p q := by
  cases act with
  | call args =>
    cases hs
    exact .spawn p _ (.inl ⟨args,rfl⟩)
  | accept loopback =>
    cases hs
    exact .spawn p _ (.inr ⟨loopback,rfl⟩)
  | turn i a =>
    simp only [processMachine] at hs
    split at hs
    · cases hs
    · rename_i t ht
      cases hs
      exact .turn p i t _ _ ht ⟨hH,a,hg i a t rfl ht,rfl⟩
  | sign pubkey msg =>
    cases hs
    exact .around p _ ⟨pubkey,msg,rfl,rfl⟩
  | restart =>
    cases hs
    exact .reset p _ _ ⟨hH,rfl,rfl⟩

/-- The rule for invariants of a process, whatever its threads do in between. -/
theorem Keeps.good {G : Answers → Shared → Thread → Prop} {S : Shared → Nat → Prop}
    {J : Shared → Nat → Thread → Prop} (hk : Keeps P peer G S J) {p : Process}
    (h : (processMachine P peer).ReachableBy (onTurns G) p) : Pool.Good S J p := by
  refine @Machine.ReachableBy.invariant _ _ (processMachine P peer) _ (Pool.Good S J) ?_ ?_ p h
  · intro p hp
    cases hp
    exact Pool.good_empty hk.start
  · intro p act q hr hp hs hg
    have move := process_move (H := fun s => ∃w,Represents s.ledger w) hs hg (reachable_books hr)
    refine move.good hp ?_ ?_ (fun _ _ _ => hk.born) ?_ ?_
    · intro n i s t s' t' hi hS hJ hm
      obtain ⟨hw,a,ha,he⟩ := hm
      cases he
      exact hk.own hi hS hJ ha hw (threadStep_move P peer a s.ledger t)
    · intro n i s t s' t' k u hi hki hS hJ hu hm
      obtain ⟨-,a,-,he⟩ := hm
      cases he
      exact hk.others hki hS hJ hu (threadStep_move P peer a s.ledger t)
    · intro n s s' hS hm
      obtain ⟨pubkey,msg,-,rfl⟩ := hm
      exact hk.signed pubkey msg hS
    · intro n s s' u hS hm
      obtain ⟨⟨w,hw⟩,rfl,rfl⟩ := hm
      have e : ({s with ledger := .load s.ledger.disk} : Shared)=s := by rw [hw.load_eq]
      rw [e]
      exact ⟨hS,hk.gone _⟩

end Rule

/-- The job id that a TASK_OFFER names. -/
def offeredId (payload : Json) : Option PyStr :=
  if payload.strField (lit "type")=msgTaskOffer then
    (((payload.get? (lit "body")).bind (Json.get? (lit "job"))).bind
      (Json.get? (lit "job_id"))).bind Json.asStr
  else none

def Event.offer : Event → Option PyStr
  | .sealed payload => offeredId payload
  | _ => none

def Entry.offers (j : PyStr) : Entry → Bool
  | .own _ _ event => event.offer=some j
  | .foreign _ _ => false

def offerCount (j : PyStr) (history : List Entry) : Nat := history.countP (Entry.offers j)

/-- Thread i recorded the escrow of job j. -/
def EscrowedBy (s : Shared) (i : Nat) (j : PyStr) : Prop :=
  ∃w,Entry.own i true (.recorded (escrowRecord j w))∈s.history

/-- Thread i has done nothing inside a delegate call that others can see. -/
def Silent (s : Shared) (i : Nat) : Prop := ∀event,Entry.own i true event∉s.history

/-- What a thread relies on while its call is between escrow and close. -/
structure InCharge (s : Shared) (i : Nat) (j : PyStr) : Prop where
  mine : EscrowedBy s i j
  isOpen : s.ledger.IsOpen j

def CallInv (s : Shared) (i : Nat) : DelegatePc → Prop
  | .start | .choose | .escrow _ _ => Silent s i
  | .active ph job _ => InCharge s i job.id ∧ (ph.rank≤3 → offerCount job.id s.history=0)
  | .settle job _ _ | .refund job _ _ => InCharge s i job.id
  | .finished _ => True

def ThreadInv (s : Shared) (i : Nat) : Thread → Prop
  | .delegate _ pc | .serve _ (.control _ pc) => CallInv s i pc
  | .serve _ pc => pc.stage≤5 → Silent s i
  | .gone => True

/-- What the history says about the ledger and the threads. -/
structure Account (s : Shared) (n : Nat) : Prop where
  booked : ∀i c r,Entry.own i c (.recorded r)∈s.history → r∈s.ledger.records
  owner : ∀i k j,EscrowedBy s i j → EscrowedBy s k j → i=k
  single : ∀i j k,EscrowedBy s i j → EscrowedBy s i k → j=k
  offerOnce : ∀j,offerCount j s.history≤1
  offered : ∀j,0 < offerCount j s.history → ∃r∈s.ledger.records,r.jobId=some j
  born : ∀i c event,Entry.own i c event∈s.history → i < n
  silent : ∀i,(∀j,¬EscrowedBy s i j) → Silent s i

section Book

variable {s : Shared} {i : Nat} {c : Bool} {L' : Ledger} {event : Option Event}

theorem mem_book {e : Entry} : e∈(s.book i c L' event).history ↔
    e∈s.history ∨ ∃ev,event=some ev ∧ e=.own i c ev := by
  cases event <;> simp [Shared.book]

@[simp] theorem book_ledger : (s.book i c L' event).ledger=L' := rfl

theorem offerCount_book (j : PyStr) : offerCount j (s.book i c L' event).history=
    offerCount j s.history+if event.bind Event.offer=some j then 1 else 0 := by
  cases event with
  | none => simp [Shared.book,offerCount]
  | some ev =>
    by_cases h : ev.offer=some j <;> simp [Shared.book,offerCount,Entry.offers,h]

theorem escrowedBy_book_iff {k : Nat} {j : PyStr} : EscrowedBy (s.book i c L' event) k j ↔
    EscrowedBy s k j ∨ k=i ∧ c=true ∧ ∃w,event=some (.recorded (escrowRecord j w)) := by
  constructor
  · intro h
    obtain ⟨w,h⟩ := h
    rcases mem_book.mp h with h | ⟨ev,he,h⟩
    · exact .inl ⟨w,h⟩
    · cases h
      exact .inr ⟨rfl,rfl,w,he⟩
  · intro h
    rcases h with ⟨w,h⟩ | ⟨rfl,rfl,w,he⟩
    · exact ⟨w,mem_book.mpr (.inl h)⟩
    · exact ⟨w,mem_book.mpr (.inr ⟨_,he,rfl⟩)⟩

theorem Silent.book {k : Nat} (h : Silent s k) (hk : k≠i ∨ c=false ∨ event=none) :
    Silent (s.book i c L' event) k := by
  intro ev hm
  rcases mem_book.mp hm with hm | ⟨ev',he,hm⟩
  · exact h ev hm
  · cases hm
    rcases hk with h | h | h
    · exact h rfl
    · cases h
    · rw [h] at he
      cases he

end Book

section Moves

variable {P peer}

theorem offeredId_offer {me : Identity} {ts : PyFloat} {job : Job} {p : Json}
    (h : sealMessage P me ts msgTaskOffer (offerBody job)=.ok p) : offeredId p=some job.id := by
  obtain ⟨rfl,-⟩ := sealMessage_ok P h
  rfl

theorem sealMessage_type {me : Identity} {ts : PyFloat} {msgType : PyStr} {body p : Json}
    (h : sealMessage P me ts msgType body=.ok p) : p.strField (lit "type")=msgType := by
  obtain ⟨rfl,-⟩ := sealMessage_ok P h
  rfl

variable {a : Answers} {L L' : Ledger} {t t' : Thread} {event : Option Event}

/-- A ledger changes by the record that the step shows, or not at all. -/
theorem threadMove_ledger (h : ThreadMove P peer a L t L' t' event) :
    (L'=L ∧ ∀r,event≠some (.recorded r)) ∨ ∃r,event=some (.recorded r) ∧ L'=L.extend r := by
  cases h with
  | call _ _ pc pc' _ _ ht ht' hm hs =>
    cases hm with
    | escrow | settle | refund => exact .inr ⟨_,rfl,rfl⟩
    | _ => exact .inl ⟨rfl,by simp⟩
  | serve loopback pc pc' _ _ hm =>
    cases hm with
    | credit => exact .inr ⟨_,rfl,rfl⟩
    | _ => exact .inl ⟨rfl,by simp⟩
  | gone => exact .inl ⟨rfl,by simp⟩

/-- Only a call that reached its offer sends one, and for its own job. -/
theorem threadMove_sealed (h : ThreadMove P peer a L t L' t' event) {payload : Json}
    (he : event=some (.sealed payload)) (ht : payload.strField (lit "type")=msgTaskOffer) :
    ∃job worker,t.call=some (.active .offerSend job worker) ∧ offeredId payload=some job.id := by
  have other {ts : PyFloat} {msgType : PyStr} {body p : Json} {Q : Prop} (hn : msgType≠msgTaskOffer)
      (hp : sealMessage P peer.identity ts msgType body=.ok p)
      (he : some (Event.sealed p)=some (.sealed payload)) : Q := by
    cases he
    exact absurd ((sealMessage_type hp).symm.trans ht) hn
  cases h with
  | call _ _ pc pc' _ _ hc hc' hm hs =>
    cases hm with
    | offer job worker pc' payload hn hp =>
      cases he
      exact ⟨job,worker,hc,offeredId_offer hp⟩
    | greet job worker pc' payload hn hp => exact other (by decide) hp he
    | _ => cases he
  | serve loopback pc pc' _ _ hm =>
    cases hm with
    | say pc pc' msgType body payload hs hn ht hr hp hb hc => exact other ht hp he
    | greet remote payload hp hsent => exact other (by decide) hp he
    | report requester job result payload hp hr => exact other (by decide) hp he
    | accept requester job payload hp hsent => exact other (by decide) hp he
    | deliver requester job result payload hp hr hsent => exact other (by decide) hp he
    | _ => cases he
  | gone => cases he

theorem threadMove_offer (h : ThreadMove P peer a L t L' t' event) {j : PyStr}
    (he : event.bind Event.offer=some j) :
    ∃job worker,t.call=some (.active .offerSend job worker) ∧ job.id=j := by
  obtain ⟨ev,hev,hj⟩ := Option.bind_eq_some_iff.mp he
  cases ev with
  | sealed payload =>
    have ht : payload.strField (lit "type")=msgTaskOffer := by
      by_contra hn
      cases hj.symm.trans (if_neg hn)
    obtain ⟨job,worker,hc,ho⟩ := threadMove_sealed h hev ht
    exact ⟨job,worker,hc,Option.some.inj (ho.symm.trans hj)⟩
  | _ => cases hj

/-- An escrow is recorded for a job without records, by a call that comes to it. -/
theorem threadMove_escrow (h : ThreadMove P peer a L t L' t' event) {j w : PyStr}
    (he : event=some (.recorded (escrowRecord j w))) :
    L.jobRecords j=[] ∧ ∃job worker,t.call=some (.escrow job worker) := by
  have kind {r : Record} (hr : some (Event.recorded r)=some (.recorded (escrowRecord j w))) :
      r.kind=.escrow ∧ r.jobId=some j := by
    cases hr
    exact ⟨rfl,rfl⟩
  cases h with
  | call _ _ pc pc' _ _ ht ht' hm hs =>
    cases hm with
    | escrow job worker hb hj =>
      have : job.id=j := Option.some.inj (kind he).2
      exact ⟨this ▸ hj,job,worker,ht⟩
    | settle | refund => cases (kind he).1
    | _ => cases he
  | serve loopback pc pc' _ _ hm =>
    cases hm with
    | credit => cases (kind he).1
    | _ => cases he
  | gone => cases he

/-- A record that closes an escrow comes from the call that is in charge of it. -/
theorem threadMove_closes (h : ThreadMove P peer a L t L' t' event) {r : Record} {j : PyStr}
    (he : event=some (.recorded r)) (hj : r.jobId=some j) :
    (r.kind=.escrow ∨ r.kind=.work) ∨ ∃pc,t.call=some pc ∧ pc.owns=some j := by
  cases h with
  | call _ _ pc pc' _ _ ht ht' hm hs =>
    cases hm with
    | escrow job worker =>
      cases he
      exact .inl (.inl rfl)
    | settle | refund =>
      cases he
      exact .inr ⟨_,ht,hj⟩
    | _ => cases he
  | serve loopback pc pc' _ _ hm =>
    cases hm with
    | credit =>
      cases he
      exact .inl (.inr rfl)
    | _ => cases he
  | gone => cases he

theorem threadInv_call {s : Shared} {i : Nat} {pc : DelegatePc} (h : t.call=some pc) :
    ThreadInv s i t ↔ CallInv s i pc := by
  cases t with
  | delegate args d =>
    cases h
    exact Iff.rfl
  | serve loopback d => cases d with
    | control args d =>
      cases h
      exact Iff.rfl
    | _ => cases h
  | gone => cases h

/-- A call that owns a job is in charge of it. -/
theorem inCharge_of_owns {s : Shared} {i : Nat} {pc : DelegatePc} {j : PyStr}
    (h : CallInv s i pc) (ho : pc.owns=some j) : InCharge s i j := by
  cases pc with
  | active ph job worker =>
    cases ho
    exact h.1
  | settle | refund =>
    cases ho
    exact h
  | _ => cases ho

/-- Inside a call nothing is seen before the escrow. -/
theorem threadMove_inCall (h : ThreadMove P peer a L t L' t' event) {pc : DelegatePc} {ev : Event}
    (hc : t.call=some pc) (he : event=some ev) :
    (∃j,pc.owns=some j) ∨ ∃j w,ev=.recorded (escrowRecord j w) := by
  cases h with
  | call _ _ d d' _ _ ht ht' hm hs =>
    cases ht.symm.trans hc
    cases hm with
    | escrow job worker hb hj =>
      cases he
      exact .inr ⟨_,_,rfl⟩
    | greet | offer | settle | refund => exact .inl ⟨_,rfl⟩
    | _ => cases he
  | serve loopback d d' _ _ hm =>
    cases hm with
    | reply | wait => cases he
    | say _ _ msgType body payload hs hn =>
      cases d with
      | control => cases hn
      | _ => cases hc
    | _ => cases hc
  | gone => cases he

theorem no_record {j : PyStr} (h : L.jobRecords j=[]) : ∀r∈L.records,r.jobId≠some j := by
  intro r hr hj
  have hm : r∈L.jobRecords j := List.mem_filter.mpr ⟨hr,by simpa using hj⟩
  rw [h] at hm
  cases hm

theorem record_of_isOpen {j : PyStr} (h : L.IsOpen j) : ∃r∈L.records,r.jobId=some j := by
  obtain ⟨r,hr,hp⟩ := List.countP_pos_iff.mp h.1
  exact ⟨r,hr,(of_decide_eq_true hp).2⟩

theorem threadMove_records (h : ThreadMove P peer a L t L' t' event) :
    ∀r∈L.records,r∈L'.records := by
  intro r hr
  rcases threadMove_ledger h with ⟨rfl,-⟩ | ⟨q,-,rfl⟩
  · exact hr
  · exact List.mem_append_left _ hr

variable {s : Shared} {i n : Nat}

/-- Nobody has escrowed the job that is escrowed now. -/
theorem escrow_fresh (hS : Account s n) (h : ThreadMove P peer a s.ledger t L' t' event)
    {j w : PyStr} (he : event=some (.recorded (escrowRecord j w))) (k : Nat) :
    ¬EscrowedBy s k j := by
  intro hk
  obtain ⟨v,hk⟩ := hk
  exact no_record (threadMove_escrow h he).1 _ (hS.booked _ _ _ hk) rfl

/-- A thread that escrows has escrowed nothing before. -/
theorem escrow_first (hJ : ThreadInv s i t) (h : ThreadMove P peer a s.ledger t L' t' event)
    {j w : PyStr} (he : event=some (.recorded (escrowRecord j w))) (k : PyStr) :
    ¬EscrowedBy s i k := by
  intro hk
  obtain ⟨job,worker,hc⟩ := (threadMove_escrow h he).2
  obtain ⟨v,hk⟩ := hk
  exact (threadInv_call hc).mp hJ _ hk

/-- A step keeps the account. -/
theorem account_book (hi : i < n) (hS : Account s n) (hJ : ThreadInv s i t)
    (h : ThreadMove P peer a s.ledger t L' t' event) :
    Account (s.book i t.call.isSome L' event) n := by
  have inCharge {pc : DelegatePc} {j : PyStr} (hc : t.call=some pc) (ho : pc.owns=some j) :
      InCharge s i j := inCharge_of_owns ((threadInv_call hc).mp hJ) ho
  have fresh {j w : PyStr} (he : event=some (.recorded (escrowRecord j w))) (k : Nat) :
      ¬EscrowedBy s k j := escrow_fresh hS h he k
  have early {j w : PyStr} (he : event=some (.recorded (escrowRecord j w))) (k : PyStr) :
      ¬EscrowedBy s i k := escrow_first hJ h he k
  constructor
  · intro k c r hm
    rcases mem_book.mp hm with hm | ⟨ev,he,hm⟩
    · exact threadMove_records h r (hS.booked k c r hm)
    · cases hm
      rcases threadMove_ledger h with ⟨-,hn⟩ | ⟨q,hq,hL⟩
      · exact absurd he (hn r)
      · cases he.symm.trans hq
        rw [book_ledger,hL]
        simp
  · intro k l j hk hl
    rcases escrowedBy_book_iff.mp hk with hk' | ⟨rfl,-,w,hk'⟩
    · rcases escrowedBy_book_iff.mp hl with hl' | ⟨rfl,-,w,hl'⟩
      · exact hS.owner k l j hk' hl'
      · exact absurd hk' (fresh hl' k)
    · rcases escrowedBy_book_iff.mp hl with hl' | ⟨rfl,-,v,hl'⟩
      · exact absurd hl' (fresh hk' l)
      · rfl
  · intro k j l hj hl
    rcases escrowedBy_book_iff.mp hj with hj' | ⟨rfl,-,w,hj'⟩
    · rcases escrowedBy_book_iff.mp hl with hl' | ⟨rfl,-,w,hl'⟩
      · exact hS.single k j l hj' hl'
      · exact absurd hj' (early hl' j)
    · rcases escrowedBy_book_iff.mp hl with hl' | ⟨-,-,v,hl'⟩
      · exact absurd hl' (early hj' l)
      · have he := Event.recorded.inj (Option.some.inj (hj'.symm.trans hl'))
        exact Option.some.inj (congrArg Record.jobId he)
  · intro j
    have := hS.offerOnce j
    rw [offerCount_book]
    split_ifs with he
    · obtain ⟨job,worker,hc,rfl⟩ := threadMove_offer h he
      have hz := ((threadInv_call hc).mp hJ).2 le_rfl
      omega
    · exact this
  · intro j hj
    rw [offerCount_book] at hj
    have hold : ∃r∈s.ledger.records,r.jobId=some j := by
      split_ifs at hj with he
      · obtain ⟨job,worker,hc,rfl⟩ := threadMove_offer h he
        exact record_of_isOpen (inCharge hc rfl).isOpen
      · exact hS.offered j hj
    obtain ⟨r,hr,hj⟩ := hold
    exact ⟨r,threadMove_records h r hr,hj⟩
  · intro k c ev hm
    rcases mem_book.mp hm with hm | ⟨ev',-,hm⟩
    · exact hS.born k c ev hm
    · cases hm
      exact hi
  · intro k hk ev hm
    rcases mem_book.mp hm with hm | ⟨ev',he,hm⟩
    · exact hS.silent k (fun j hj => hk j (escrowedBy_book_iff.mpr (.inl hj))) ev hm
    · simp only [Entry.own.injEq] at hm
      obtain ⟨rfl,ht,rfl⟩ := hm
      obtain ⟨pc,hc⟩ := Option.isSome_iff_exists.mp ht.symm
      rcases threadMove_inCall h hc he with ⟨j,ho⟩ | ⟨j,w,rfl⟩
      · exact hk j (escrowedBy_book_iff.mpr (.inl (inCharge hc ho).mine))
      · exact hk j (escrowedBy_book_iff.mpr (.inr ⟨rfl,ht.symm,w,he⟩))

/-- A thread stays in charge of its job whatever another thread does. -/
theorem inCharge_others {k : Nat} {j : PyStr} (hki : k≠i) (hS : Account s n)
    (hJ : ThreadInv s i t) (h : ThreadMove P peer a s.ledger t L' t' event)
    (hc : InCharge s k j) : InCharge (s.book i t.call.isSome L' event) k j ∧
      event.bind Event.offer≠some j := by
  have apart {pc : DelegatePc} (hpc : t.call=some pc) : pc.owns≠some j := fun ho =>
    hki (hS.owner k i j hc.mine (inCharge_of_owns ((threadInv_call hpc).mp hJ) ho).mine)
  refine ⟨⟨escrowedBy_book_iff.mpr (.inl hc.mine),?_⟩,?_⟩
  · rw [book_ledger]
    rcases threadMove_ledger h with ⟨rfl,-⟩ | ⟨r,he,rfl⟩
    · exact hc.isOpen
    · apply hc.isOpen.extend
      intro hr
      rcases threadMove_closes h he hr with hk | ⟨pc,hpc,ho⟩
      · exact hk
      · exact absurd ho (apart hpc)
  · intro he
    obtain ⟨job,worker,hpc,rfl⟩ := threadMove_offer h he
    exact apart hpc rfl

theorem threadInv_others {k : Nat} {u : Thread} (hki : k≠i) (hS : Account s n)
    (hJ : ThreadInv s i t) (hu : ThreadInv s k u)
    (h : ThreadMove P peer a s.ledger t L' t' event) :
    ThreadInv (s.book i t.call.isSome L' event) k u := by
  have silent (hs : Silent s k) : Silent (s.book i t.call.isSome L' event) k :=
    hs.book (.inl hki)
  have call (pc : DelegatePc) (hu : CallInv s k pc) :
      CallInv (s.book i t.call.isSome L' event) k pc := by
    cases pc with
    | start | choose | escrow => exact silent hu
    | active ph job worker =>
      obtain ⟨hc,he⟩ := inCharge_others hki hS hJ h hu.1
      refine ⟨hc,?_⟩
      intro hp
      rw [offerCount_book,if_neg he,hu.2 hp]
    | settle | refund => exact (inCharge_others hki hS hJ h hu).1
    | finished o => trivial
  cases u with
  | delegate args pc => exact call pc hu
  | serve loopback pc => cases pc with
    | control args pc => exact call pc hu
    | _ => exact fun hp => silent (hu hp)
  | gone => trivial

/-- A move of a call keeps what the call relies on. -/
theorem callInv_own {pc pc' : DelegatePc} (hS : Account s n) (hJ : CallInv s i pc)
    (h : DelegateMove P peer a s.ledger pc L' pc' event) :
    CallInv (s.book i true L' event) i pc' := by
  -- Between escrow and close the ledger is left alone, so the escrow stays open.
  have onward {job : Job} {worker : PeerInfo} {ph : Phase} {pc' : DelegatePc}
      {event : Option Event} (hJ : CallInv s i (.active ph job worker))
      (hn : ActiveNext P a job worker ph pc')
      (he : ph.rank < 3 → event.bind Event.offer≠some job.id) :
      CallInv (s.book i true s.ledger event) i pc' := by
    have hc : InCharge (s.book i true s.ledger event) i job.id :=
      ⟨escrowedBy_book_iff.mpr (.inl hJ.1.mine),hJ.1.isOpen⟩
    cases hn with
    | forward ph' h hm =>
      refine ⟨hc,?_⟩
      intro hp
      rw [offerCount_book,if_neg (he (by omega)),hJ.2 (by omega)]
    | refund | settle => exact hc
    | escape => trivial
  cases h with
  | begin | chosen => exact Silent.book hJ (.inr (.inr rfl))
  | escrow job worker hb hj =>
    have hz (k : RecordKind) := Ledger.jobCount_of_no_records hj k
    refine ⟨⟨escrowedBy_book_iff.mpr (.inr ⟨rfl,rfl,_,rfl⟩),?_⟩,?_⟩
    · refine ⟨?_,?_,?_⟩
      all_goals simp [hz,escrowRecord]
    · intro _
      have ho : offerCount job.id s.history=0 := Nat.eq_zero_of_not_pos fun hp => by
        obtain ⟨r,hr,hj'⟩ := hS.offered _ hp
        exact no_record hj r hr hj'
      rw [offerCount_book,ho]
      simp [Event.offer]
  | go job worker ph pc' hn => exact onward hJ hn (by simp)
  | greet job worker pc' payload hn hp =>
    apply onward hJ hn
    intro _ he
    have hn : offeredId payload=none := if_neg (by rw [sealMessage_type hp]; decide)
    cases hn.symm.trans he
  | offer job worker pc' payload hn hp => exact onward hJ hn fun h => absurd h (by decide)
  | refuse | settle | refund | unclosed | stay => trivial

theorem threadInv_own (hS : Account s n) (hJ : ThreadInv s i t)
    (h : ThreadMove P peer a s.ledger t L' t' event) :
    ThreadInv (s.book i t.call.isSome L' event) i t' := by
  cases h with
  | call _ _ pc pc' _ _ ht ht' hm hs =>
    rw [threadInv_call ht',ht]
    exact callInv_own hS ((threadInv_call ht).mp hJ) hm
  | serve loopback pc pc' _ _ hm =>
    -- Before a call begins, the thread does nothing under the flag of a call.
    have before (hp : pc.stage≤5) (L' : Ledger) (event : Option Event) :
        Silent (s.book i (Thread.serve loopback pc).call.isSome L' event) i := by
      have hj : Silent s i := by
        cases pc with
        | control => simp [ServePc.stage] at hp
        | _ => exact hJ hp
      refine hj.book (.inr (.inl ?_))
      cases pc with
      | control => simp [ServePc.stage] at hp
      | _ => rfl
    have idle {L' : Ledger} {event : Option Event} (hb : pc'.busy=false)
        (hs : pc.stage ≤ pc'.stage) :
        ThreadInv (s.book i (Thread.serve loopback pc).call.isSome L' event) i
          (.serve loopback pc') := by
      cases pc' with
      | control => cases hb
      | _ => exact fun hp => before (hs.trans hp) _ _
    cases hm with
    | wait pc pc' hs hb hc => exact idle hb hs
    | say pc pc' msgType body payload hs hn ht hr hp hb hc =>
      exact idle hb (pc.stage_le.trans hs.ge)
    | met | greet => exact fun _ => before (by simp [ServePc.stage]) _ _
    | offered => exact fun _ => before (by simp [ServePc.stage]) _ _
    | commanded => exact before (by simp [ServePc.stage]) _ _
    | accept => exact fun _ => before (by simp [ServePc.stage]) _ _
    | failed requester job e pc' hr hs hb => exact idle hb (hs ▸ ServePc.stage_le _)
    | reply args outcome pc' hs hb => exact idle hb hs
    | executed | deliver | report | credit | credited =>
      exact fun hp => absurd hp (by simp [ServePc.stage])
  | gone => trivial

end Moves

section Hear

variable {s : Shared} (pubkey msg : Bytes)

theorem own_mem_hear {i : Nat} {c : Bool} {event : Event} :
    Entry.own i c event∈(s.hear pubkey msg).history ↔ Entry.own i c event∈s.history := by
  simp [Shared.hear]

theorem offerCount_hear (j : PyStr) :
    offerCount j (s.hear pubkey msg).history=offerCount j s.history := by
  simp [offerCount,Shared.hear,Entry.offers]

theorem escrowedBy_hear {i : Nat} {j : PyStr} :
    EscrowedBy (s.hear pubkey msg) i j ↔ EscrowedBy s i j := by
  simp only [EscrowedBy,own_mem_hear]

theorem silent_hear {i : Nat} : Silent (s.hear pubkey msg) i ↔ Silent s i := by
  simp only [Silent,own_mem_hear]

theorem callInv_hear {i : Nat} {pc : DelegatePc} (h : CallInv s i pc) :
    CallInv (s.hear pubkey msg) i pc := by
  have charge {j : PyStr} (h : InCharge s i j) : InCharge (s.hear pubkey msg) i j :=
    ⟨(escrowedBy_hear pubkey msg).mpr h.mine,h.isOpen⟩
  cases pc with
  | start | choose | escrow => exact (silent_hear pubkey msg).mpr h
  | active ph job worker =>
    exact ⟨charge h.1,fun hp => (offerCount_hear pubkey msg _).trans (h.2 hp)⟩
  | settle | refund => exact charge h
  | finished o => trivial

theorem threadInv_hear {i : Nat} {t : Thread} (h : ThreadInv s i t) :
    ThreadInv (s.hear pubkey msg) i t := by
  cases t with
  | delegate args pc => exact callInv_hear pubkey msg h
  | serve loopback pc => cases pc with
    | control args pc => exact callInv_hear pubkey msg h
    | _ => exact fun hp => (silent_hear pubkey msg).mpr (h hp)
  | gone => trivial

theorem account_hear {n : Nat} (h : Account s n) : Account (s.hear pubkey msg) n where
  booked i c r hm := h.booked i c r ((own_mem_hear pubkey msg).mp hm)
  owner i k j hi hk := h.owner i k j ((escrowedBy_hear pubkey msg).mp hi)
    ((escrowedBy_hear pubkey msg).mp hk)
  single i j k hj hk := h.single i j k ((escrowedBy_hear pubkey msg).mp hj)
    ((escrowedBy_hear pubkey msg).mp hk)
  offerOnce j := (offerCount_hear pubkey msg j).trans_le (h.offerOnce j)
  offered j hj := h.offered j (offerCount_hear pubkey msg j ▸ hj)
  born i c event hm := h.born i c event ((own_mem_hear pubkey msg).mp hm)
  silent i hi := (silent_hear pubkey msg).mpr
    (h.silent i fun j hj => hi j ((escrowedBy_hear pubkey msg).mpr hj))

end Hear

theorem account_keeps : Keeps P peer (fun _ _ _ => True) Account ThreadInv where
  start := by constructor <;> simp [EscrowedBy,offerCount,Silent]
  own hi hS hJ _ _ h := ⟨account_book hi hS hJ h,threadInv_own hS hJ h⟩
  others hki hS hJ hu h := threadInv_others hki hS hJ hu h
  born {n s t} hS ht := by
    have hn : Silent s n := fun event hm => absurd (hS.born _ _ _ hm) (Nat.lt_irrefl n)
    refine ⟨{hS with born := fun i c event hm => Nat.lt_succ_of_lt (hS.born i c event hm)},?_⟩
    rcases ht with ⟨args,rfl⟩ | ⟨loopback,rfl⟩
    · exact hn
    · exact fun _ => hn
  signed pubkey msg hS := ⟨account_hear pubkey msg hS,fun _ _ => threadInv_hear pubkey msg⟩
  gone _ _ := trivial

theorem reachable_account {p : Process} (h : (processMachine P peer).Reachable p) :
    Pool.Good Account ThreadInv p := by
  have hg := h.guarded (processMachine P peer)
  exact (account_keeps P peer).good (hg.mono _ fun _ _ _ _ _ _ _ _ _ => trivial)

/-- The promises about concurrent calls in one state of a process. -/
structure NoOverdraft (p : Process) : Prop where
  selfNonneg : 0 ≤ p.shared.ledger.balance selfAccount
  offered : ∀act q i c payload,(processMachine P peer).step p act=some q →
    q.shared.history=p.shared.history++[.own i c (.sealed payload)] →
    payload.strField (lit "type")=msgTaskOffer →
    ∃j,offeredId payload=some j ∧ j∈openJobs p.shared.ledger.records
  offeredOnce : ∀j,offerCount j p.shared.history≤1
  unescrowed : ∀i,(∀j,¬EscrowedBy p.shared i j) → Silent p.shared i
  lostRace : ∀i t job worker,p.threads[i]?=some t → t.call=some (.escrow job worker) →
    p.shared.ledger.balance selfAccount < jobPrice → Silent p.shared i ∧
    ∀a q,(processMachine P peer).step p (.turn i a)=some q → q.shared=p.shared ∧
      ∃t',q.threads[i]?=some t' ∧ t'.call=some (.finished (.error (.ledgerError
        (lit "balance is zero: cannot offer a task"))))

section Promises

variable {P peer}

theorem step_turn {p q : Process} {i : Nat} {a : Answers}
    (h : (processMachine P peer).step p (.turn i a)=some q) :
    ∃t,p.threads[i]?=some t ∧ q.shared=(takeTurn P peer i a p.shared t).1 ∧
      q.threads[i]?=some (takeTurn P peer i a p.shared t).2 := by
  simp only [processMachine] at h
  split at h
  · cases h
  · rename_i t ht
    cases h
    have hi := (List.getElem?_eq_some_iff.mp ht).1
    exact ⟨t,ht,rfl,List.getElem?_set_self hi⟩

/-- What a call sends as an offer is an offer of its job, whose escrow is open. -/
theorem offered_open {p q : Process} (hp : Pool.Good Account ThreadInv p) {act : Action}
    {i : Nat} {c : Bool} {payload : Json} (h : (processMachine P peer).step p act=some q)
    (hh : q.shared.history=p.shared.history++[.own i c (.sealed payload)])
    (ht : payload.strField (lit "type")=msgTaskOffer) :
    ∃j,offeredId payload=some j ∧ j∈openJobs p.shared.ledger.records := by
  cases act with
  | turn k a =>
    obtain ⟨t,hk,hs,-⟩ := step_turn h
    rw [hs] at hh
    have hm := threadStep_move P peer a p.shared.ledger t
    have he : (threadStep P peer a p.shared.ledger t).2.2=some (.sealed payload) := by
      have hh := List.append_cancel_left hh
      cases he : (threadStep P peer a p.shared.ledger t).2.2 with
      | none => simp [he] at hh
      | some ev =>
        simp only [he,Option.toList_some,List.map_cons,List.map_nil,List.cons.injEq,
          Entry.own.injEq,and_true] at hh
        rw [hh.2.2]
    obtain ⟨job,worker,hc,ho⟩ := threadMove_sealed hm he ht
    have hJ := (threadInv_call hc).mp (hp.each k t hk)
    exact ⟨job.id,ho,Ledger.mem_openJobs_iff.mpr hJ.1.isOpen⟩
  | call | accept | restart =>
    cases h
    simp at hh
  | sign pubkey msg =>
    cases h
    have := List.append_cancel_left hh
    cases this

/-- A call that finds the balance spent ends there, and nothing is seen of it. -/
theorem lostRace_ends {p q : Process} {i : Nat} {a : Answers} {t : Thread} {job : Job}
    {worker : PeerInfo} (hi : p.threads[i]?=some t) (hc : t.call=some (.escrow job worker))
    (hb : p.shared.ledger.balance selfAccount < jobPrice)
    (h : (processMachine P peer).step p (.turn i a)=some q) : q.shared=p.shared ∧
      ∃t',q.threads[i]?=some t' ∧ t'.call=some (.finished (.error (.ledgerError
        (lit "balance is zero: cannot offer a task")))) := by
  obtain ⟨u,hu,hs,ht⟩ := step_turn h
  cases hi.symm.trans hu
  let spent : DelegatePc := .finished (.error (.ledgerError
    (lit "balance is zero: cannot offer a task")))
  have he (args : DelegateArgs) : delegateStep P peer args a p.shared.ledger (.escrow job worker)=
      (p.shared.ledger,spent,none) := by
    simp only [delegateStep,Ledger.escrow,if_pos hb,ledgerCall,spent]
  have hstep : ∃t',t'.call=some spent ∧
      threadStep P peer a p.shared.ledger t=(p.shared.ledger,t',none) := by
    cases t with
    | delegate args pc =>
      cases hc
      exact ⟨.delegate args spent,rfl,by simp only [threadStep,he]⟩
    | serve loopback pc => cases pc with
      | control args pc =>
        cases hc
        exact ⟨.serve loopback (.control args spent),rfl,by simp only [threadStep,serveStep,he]⟩
      | _ => cases hc
    | gone => cases hc
  obtain ⟨t',ht',hstep⟩ := hstep
  simp only [takeTurn,hstep] at hs ht
  exact ⟨by simpa [Shared.book] using hs,t',ht,ht'⟩

end Promises

/-- In every state that any interleaving reaches: no overdraft, an offer only under
an open escrow and once for each job, and nothing seen of a call without escrow. -/
theorem no_overdraft {p : Process} (h : (processMachine P peer).Reachable p) :
    NoOverdraft P peer p := by
  have hp := reachable_account P peer h
  obtain ⟨w,hw⟩ := reachable_books h
  constructor
  · exact hw.sound.selfNonneg
  · exact fun act q i c payload hs hh ht => offered_open hp hs hh ht
  · exact hp.shared.offerOnce
  · exact hp.shared.silent
  · intro i t job worker hi hc hb
    refine ⟨(threadInv_call hc).mp (hp.each i t hi),fun a q hs => lostRace_ends hi hc hb hs⟩

/-- Two calls that draw the same job id, up to their escrows. -/
def sampleRace : List Action :=
  [.call sampleArgs,.call sampleArgs,.turn 0 sampleAnswers,.turn 1 sampleAnswers,
    .turn 1 sampleAnswers,.turn 0 sampleAnswers,.turn 0 sampleAnswers,.turn 1 sampleAnswers]

theorem no_overdraft_race : NoOverdraft samplePlatform samplePeer
    (((processMachine samplePlatform samplePeer).run .start sampleRace).getD .start) :=
  no_overdraft _ _ ⟨.start,sampleRace,rfl,Machine.run_getD _ (by decide)⟩

end AgentTorrent
