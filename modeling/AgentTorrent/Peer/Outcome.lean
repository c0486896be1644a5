import AgentTorrent.Peer.Settlement

open Framework

namespace AgentTorrent

/-- The records that thread i booked inside delegate calls, oldest first. -/
def bookings (i : Nat) (history : List Entry) : List Record :=
  history.filterMap fun e => match e with
    | .own k true (.recorded r) => if k=i then some r else none
    | _ => none

def Event.booked : Option Event → List Record
  | some (.recorded r) => [r]
  | _ => []

@[simp] theorem booked_none : Event.booked none=[] := rfl

@[simp] theorem booked_recorded (r : Record) : Event.booked (some (.recorded r))=[r] := rfl

@[simp] theorem booked_sealed (payload : Json) : Event.booked (some (.sealed payload))=[] := rfl

/-- What a call has booked when it ends with the given outcome: an escrow and the record
that closes it, as the dict says, or nothing. Only an exception that delegate does not
handle leaves the escrow open. -/
inductive Outcome : Except PyExc DelegateResult → List Record → Prop
  | refused (error : PyStr) : Outcome (.ok (.refused error)) []
  | raised (e : PyExc) : Outcome (.error e) []
  | paid (j : PyStr) (w : PeerId) (harness simulated runtimeSeconds output : Json) :
      Outcome (.ok (.ok j w harness simulated runtimeSeconds output))
        [escrowRecord j w.val,settleRecord j w.val]
  | rejected (j : PyStr) (w : PeerId) (error : Json) :
      Outcome (.ok (.rejected j w error)) [escrowRecord j w.val,refundRecord j]
  | failed (j : PyStr) (w : PeerId) (error : PyStr) :
      Outcome (.ok (.failed j w error)) [escrowRecord j w.val,refundRecord j]
  | raisedClosed (e : PyExc) (j : PyStr) (w : PeerId) :
      Outcome (.error e) [escrowRecord j w.val,refundRecord j]
  | raisedOpen (e : PyExc) (he : e.isProtocolError=false) (j : PyStr) (w : PeerId) :
      Outcome (.error e) [escrowRecord j w.val]

/-- The call ends with a failure of this job, or it raises. -/
inductive FailureOf (job : Job) (worker : PeerInfo) : Except PyExc DelegateResult → Prop
  | rejected (error : Json) : FailureOf job worker (.ok (.rejected job.id worker.peerId error))
  | failed (error : PyStr) : FailureOf job worker (.ok (.failed job.id worker.peerId error))
  | raised (e : PyExc) : FailureOf job worker (.error e)

/-- A refund is made for the job in hand. -/
def DelegatePc.Refunds (job : Job) (worker : PeerInfo) : DelegatePc → Prop
  | .refund own far o => own=job ∧ far=worker ∧ FailureOf job worker o
  | _ => True

/-- What the call has booked at this point. -/
def CallBooked (rs : List Record) : DelegatePc → Prop
  | .start | .choose | .escrow _ _ => rs=[]
  | .active _ job worker | .settle job worker _ => rs=[escrowRecord job.id worker.peerId.val]
  | .refund job worker o => rs=[escrowRecord job.id worker.peerId.val] ∧ FailureOf job worker o
  | .finished o => Outcome o rs

variable (P : Platform) (peer : Peer)

section Steps

variable {P peer} {args : DelegateArgs} {a : Answers} {job : Job} {worker : PeerInfo} {L : Ledger}

theorem giveUp_refunds (e : PyExc) : (giveUp P job worker e).Refunds job worker := by
  cases e with
  | protocolError why => exact ⟨rfl,rfl,.failed _⟩
  | _ => trivial

theorem rejection_failure (reply : Json) : FailureOf job worker (rejection job worker reply) := by
  unfold rejection
  split
  · exact .raised _
  · split
    · exact .raised _
    · exact .rejected _

theorem reportedFailure_failure (result : Json) :
    FailureOf job worker (reportedFailure P job worker result) := by
  unfold reportedFailure
  dsimp only
  split
  · exact .raised _
  · exact .failed _

theorem judge_refunds (payload : Json) : (judge P job worker payload).Refunds job worker := by
  unfold judge
  split
  · exact giveUp_refunds _
  · split
    · exact giveUp_refunds _
    · split
      · exact giveUp_refunds _
      · split_ifs
        · trivial
        · exact ⟨rfl,rfl,reportedFailure_failure _⟩
        · exact giveUp_refunds _

theorem delegateSend_refunds (msgType : PyStr) (body : Json) (next : Phase) :
    (delegateSend P peer a job worker msgType body next).1.Refunds job worker := by
  unfold delegateSend
  split
  · exact giveUp_refunds _
  · dsimp only
    split_ifs
    · trivial
    · exact giveUp_refunds _

/-- Whatever the far side answers, a refund is for the job and the worker of the call. -/
theorem activeStep_refunds (ph : Phase) :
    (activeStep P peer a job worker ph).1.Refunds job worker := by
  have quit (e : PyExc) : (giveUp P job worker e,(none : Option Event)).1.Refunds job worker :=
    giveUp_refunds e
  cases ph with
  | connect =>
    simp only [activeStep]
    split
    · exact quit _
    · exact quit _
    · trivial
  | handshakeSend | offerSend => exact delegateSend_refunds ..
  | handshakeRecv =>
    simp only [activeStep]
    split
    · exact quit _
    · split
      · exact quit _
      · trivial
  | offerRecv =>
    simp only [activeStep]
    split
    · exact quit _
    · split
      · exact ⟨rfl,rfl,rejection_failure _⟩
      · trivial
  | resultRecv =>
    simp only [activeStep]
    split
    · exact quit _
    · split
      · exact quit _
      · exact judge_refunds _

theorem chooseWorker_ends (args : DelegateArgs) (a : Answers) :
    (∃job worker,chooseWorker args a=.escrow job worker) ∨
    ∃o,chooseWorker args a=.finished o ∧ Outcome o [] := by
  unfold chooseWorker
  split
  · exact .inr ⟨_,rfl,.refused _⟩
  · exact .inr ⟨_,rfl,.raised _⟩
  · split
    · exact .inr ⟨_,rfl,.raised _⟩
    · split
      · exact .inr ⟨_,rfl,.refused _⟩
      · exact .inl ⟨_,_,rfl⟩

/-- A step of a call that is in charge of its escrow keeps the account of what it booked. -/
theorem delegateStep_booked {rs : List Record} {pc : DelegatePc} (hb : CallBooked rs pc)
    (ho : ∀j,pc.owns=some j → L.IsOpen j) :
    CallBooked (rs++Event.booked (delegateStep P peer args a L pc).2.2)
      (delegateStep P peer args a L pc).2.1 := by
  cases pc with
  | start =>
    simp only [delegateStep]
    obtain rfl : rs=[] := hb
    split_ifs
    · rfl
    · exact .refused _
  | choose =>
    obtain rfl : rs=[] := hb
    simp only [delegateStep]
    rcases chooseWorker_ends args a with ⟨job,worker,h⟩ | ⟨o,h,hn⟩
    · rw [h]
      rfl
    · rw [h]
      exact hn
  | escrow job worker =>
    obtain rfl : rs=[] := hb
    simp only [delegateStep]
    rcases L.escrow_cases job.id worker.peerId.val with ⟨msg,he⟩ | ⟨-,-,he⟩
    · rw [he]
      exact .raised _
    · rw [he]
      rfl
  | active ph job worker =>
    obtain rfl : rs=[escrowRecord job.id worker.peerId.val] := hb
    have hr : (activeStep P peer a job worker ph).1.Refunds job worker := activeStep_refunds ph
    obtain ⟨hn,he⟩ := activeStep_cases P peer a job worker ph
    have hnone : Event.booked (activeStep P peer a job worker ph).2=[] := by
      rcases he with he | ⟨payload,-,-,he⟩ | ⟨payload,-,-,he⟩
      all_goals
        rw [he]
        rfl
    change CallBooked (_++Event.booked (activeStep P peer a job worker ph).2)
      (activeStep P peer a job worker ph).1
    rw [hnone,List.append_nil]
    generalize (activeStep P peer a job worker ph).1=pc' at hn hr
    cases hn with
    | forward | settle => rfl
    | refund o hf => exact ⟨rfl,hr.2.2⟩
    | escape e h => exact .raisedOpen e h _ _
  | settle job worker result =>
    obtain rfl : rs=[escrowRecord job.id worker.peerId.val] := hb
    have hopen := Ledger.requireOpenEscrow_of_open (ho job.id rfl)
    simp only [delegateStep,Ledger.settle,hopen]
    exact .paid ..
  | refund job worker o =>
    obtain ⟨rfl,hf⟩ := hb
    have hopen := Ledger.requireOpenEscrow_of_open (ho job.id rfl)
    simp only [delegateStep,Ledger.refund,hopen]
    cases hf with
    | rejected error => exact .rejected ..
    | failed error => exact .failed ..
    | raised e => exact .raisedClosed ..
  | finished o => simpa [delegateStep,Event.booked] using hb

/-- A thread that stays inside its call did a step of the call. -/
theorem threadStep_call {t : Thread} {pc pc' : DelegatePc} (h : t.call=some pc)
    (h' : (threadStep P peer a L t).2.1.call=some pc') : ∃args,
      pc'=(delegateStep P peer args a L pc).2.1 ∧
      (threadStep P peer a L t).1=(delegateStep P peer args a L pc).1 ∧
      (threadStep P peer a L t).2.2=(delegateStep P peer args a L pc).2.2 := by
  cases t with
  | delegate args d =>
    cases h
    exact ⟨args,(Option.some.inj h').symm,rfl,rfl⟩
  | serve loopback d =>
    cases d with
    | control args d =>
      cases h
      cases pc with
      | finished o =>
        have hn : (threadStep P peer a L (.serve loopback (.control args (.finished o)))).2.1.call=
            none := by
          cases o with
          | ok r => rfl
          | error e => cases e <;> rfl
        cases hn.symm.trans h'
      | _ => exact ⟨args,(Option.some.inj h').symm,rfl,rfl⟩
    | _ => cases h
  | gone => cases h

end Steps

section Bookings

variable {i k : Nat} {s : Shared} {c : Bool} {L : Ledger} {event : Option Event}

theorem bookings_book_self : bookings i (s.book i true L event).history=
    bookings i s.history++Event.booked event := by
  cases event with
  | none => simp [Shared.book,bookings,Event.booked]
  | some ev => cases ev <;> simp [Shared.book,bookings,Event.booked]

theorem bookings_book_other (h : k≠i ∨ c=false) :
    bookings k (s.book i c L event).history=bookings k s.history := by
  cases event with
  | none => simp [Shared.book,bookings]
  | some ev =>
    rcases h with h | rfl
    · have hn : i≠k := fun e => h e.symm
      cases ev <;> cases c <;> simp [Shared.book,bookings,hn]
    · cases ev <;> simp [Shared.book,bookings]

theorem bookings_hear (pubkey msg : Bytes) :
    bookings k (s.hear pubkey msg).history=bookings k s.history := by
  simp [Shared.hear,bookings]

theorem bookings_silent (h : Silent s k) : bookings k s.history=[] := by
  rw [bookings,List.filterMap_eq_nil_iff]
  intro e he
  cases e with
  | foreign => rfl
  | own n b ev =>
    cases b with
    | false => rfl
    | true => cases ev with
      | recorded r =>
        by_cases hn : n=k
        · subst hn
          exact absurd he (h _)
        · simp [hn]
      | _ => rfl

/-- What a thread booked is in the ledger. -/
theorem bookings_held {n : Nat} (hS : Account s n) (i : Nat) :
    ∀r∈bookings i s.history,r∈s.ledger.records := by
  intro r hr
  obtain ⟨e,he,hb⟩ := List.mem_filterMap.mp hr
  cases e with
  | foreign => cases hb
  | own k c ev =>
    cases c with
    | false => cases hb
    | true => cases ev with
      | recorded q =>
        dsimp only at hb
        split_ifs at hb with hk
        cases hb
        exact hS.booked k true _ he
      | _ => cases hb

end Bookings

/-- What a call has booked so far, and that an escrow which it left open is open still. -/
structure CallTold (s : Shared) (i : Nat) (pc : DelegatePc) : Prop where
  booked : CallBooked (bookings i s.history) pc
  left : ∀o j w,pc=.finished o → bookings i s.history=[escrowRecord j w] → InCharge s i j

section Calls

variable {P peer} {args : DelegateArgs} {a : Answers} {s : Shared} {i : Nat} {pc : DelegatePc}

/-- The step of a call, whose own account is kept by it. -/
theorem callTold_own (hJ : CallInv s i pc) (ht : CallTold s i pc) :
    let next := delegateStep P peer args a s.ledger pc
    CallTold (s.book i true next.1 next.2.2) i next.2.1 := by
  intro next
  have hb : CallBooked (bookings i s.history++
      Event.booked (delegateStep P peer args a s.ledger pc).2.2)
      (delegateStep P peer args a s.ledger pc).2.1 :=
    delegateStep_booked ht.booked fun j hj => (inCharge_of_owns hJ hj).isOpen
  have hm : DelegateMove P peer a s.ledger pc next.1 next.2.1 next.2.2 :=
    delegateStep_move P peer args a s.ledger pc
  refine ⟨by rw [bookings_book_self]; exact hb,?_⟩
  intro o j w hf he
  rw [bookings_book_self] at he
  have charge (hc : InCharge s i j) (hL : next.1=s.ledger) :
      InCharge (s.book i true next.1 next.2.2) i j :=
    ⟨escrowedBy_book_iff.mpr (.inl hc.mine),hL ▸ hc.isOpen⟩
  have mine {job : Job} {worker : PeerInfo}
      (hr : bookings i s.history=[escrowRecord job.id worker.peerId.val])
      (hc : InCharge s i job.id) (he : bookings i s.history=[escrowRecord j w]) :
      InCharge s i j := by
    rw [hr] at he
    have hj : job.id=j := Option.some.inj (congrArg Record.jobId (List.cons.inj he).1)
    exact hj ▸ hc
  have hbooked := ht.booked
  generalize hs : next.1=L' at hm charge ⊢
  generalize hn : next.2.2=event at hm he charge ⊢
  rw [hf] at hm
  cases hm with
  | refuse _ _ hearly _ =>
    cases pc with
    | start | choose | escrow =>
      rw [show bookings i s.history=[] from hbooked] at he
      cases he
    | _ => cases hearly
  | go job worker ph _ hn =>
    rw [booked_none,List.append_nil] at he
    exact charge (mine hbooked hJ.1 he) rfl
  | greet job worker _ payload hn hp | offer job worker _ payload hn hp =>
    rw [booked_sealed,List.append_nil] at he
    exact charge (mine hbooked hJ.1 he) rfl
  | settle job worker result ho =>
    rw [show bookings i s.history=[escrowRecord job.id worker.peerId.val] from hbooked] at he
    cases (List.cons.inj he).2
  | refund job worker o ho =>
    rw [show bookings i s.history=[escrowRecord job.id worker.peerId.val] from hbooked.1] at he
    cases (List.cons.inj he).2
  | unclosed _ job e ho hx => exact absurd (inCharge_of_owns hJ ho).isOpen hx
  | stay o =>
    rw [booked_none,List.append_nil] at he
    exact charge (ht.left _ j w rfl he) rfl

/-- The step of another thread leaves the account alone. -/
theorem callTold_others {k : Nat} {t t' : Thread} {L' : Ledger} {event : Option Event} {n : Nat}
    (hki : k≠i) (hS : Account s n) (hJ : ThreadInv s i t) (ht : CallTold s k pc)
    (h : ThreadMove P peer a s.ledger t L' t' event) :
    CallTold (s.book i t.call.isSome L' event) k pc := by
  have hb : bookings k (s.book i t.call.isSome L' event).history=bookings k s.history :=
    bookings_book_other (.inl hki)
  refine ⟨hb ▸ ht.booked,?_⟩
  intro o j w hf he
  rw [hb] at he
  exact (inCharge_others hki hS hJ h (ht.left o j w hf he)).1

theorem callTold_start (h : Silent s i) : CallTold s i .start :=
  ⟨bookings_silent h,fun _ _ _ h => by cases h⟩

end Calls

/-- Every call of the process keeps its account, whatever else goes on. -/
theorem reachable_told {p : Process} (h : (processMachine P peer).Reachable p) :
    ∀i t pc,p.threads[i]?=some t → t.call=some pc → CallTold p.shared i pc := by
  refine Machine.ReachableBy.invariant (processMachine P peer)
    (P := fun p => ∀i t pc,p.threads[i]?=some t → t.call=some pc → CallTold p.shared i pc)
    ?_ ?_ (h.guarded (processMachine P peer))
  · intro p hp i t pc ht
    cases hp
    cases ht
  · intro p act q hr hp hs _ i t pc ht hc
    have hq : (processMachine P peer).Reachable q :=
      @Machine.Reachable.extend _ _ (processMachine P peer) _ _ [act] hr (by simp [hs])
    obtain ⟨hS,hJ⟩ := reachable_account P peer hr
    have fresh (hpc : pc=.start) : CallTold q.shared i pc := by
      subst hpc
      have hJ' := (threadInv_call hc).mp ((reachable_account P peer hq).each i t ht)
      exact callTold_start hJ'
    have born (u : Thread) (hu : u.Born) (he : q=⟨p.shared,p.threads++[u]⟩) :
        CallTold q.shared i pc := by
      subst he
      rcases Nat.lt_or_ge i p.threads.length with hl | hl
      · rw [List.getElem?_append_left hl] at ht
        exact hp i t pc ht hc
      · rw [List.getElem?_append_right hl,List.getElem?_singleton] at ht
        split_ifs at ht
        cases ht
        rcases hu with ⟨args,rfl⟩ | ⟨loopback,rfl⟩
        · exact fresh (Option.some.inj hc).symm
        · cases hc
    cases act with
    | call args =>
      cases hs
      exact born _ (.inl ⟨args,rfl⟩) rfl
    | accept loopback =>
      cases hs
      exact born _ (.inr ⟨loopback,rfl⟩) rfl
    | sign pubkey msg =>
      cases hs
      have hb := bookings_hear (k := i) (s := p.shared) pubkey msg
      have told := hp i t pc ht hc
      refine ⟨hb ▸ told.booked,?_⟩
      intro o j w hf he
      rw [hb] at he
      obtain ⟨hm,ho⟩ := told.left o j w hf he
      exact ⟨(escrowedBy_hear pubkey msg).mpr hm,ho⟩
    | restart =>
      cases hs
      rw [List.getElem?_map,Option.map_eq_some_iff] at ht
      obtain ⟨u,-,rfl⟩ := ht
      cases hc
    | turn k a =>
      simp only [processMachine] at hs
      split at hs
      · cases hs
      · rename_i u hu
        have hm := threadStep_move P peer a p.shared.ledger u
        cases hs
        by_cases hik : i=k
        · subst hik
          rw [List.getElem?_set_self (List.getElem?_eq_some_iff.mp hu).1] at ht
          cases ht
          cases hcall : u.call with
          | none =>
            refine fresh ?_
            cases hm with
            | call _ _ d d' _ _ hd => cases hcall.symm.trans hd
            | serve loopback d d' _ _ hm => exact serveMove_calls hm hc
            | gone => cases hc
          | some d =>
            obtain ⟨args,rfl,hL,he⟩ := threadStep_call hcall hc
            have told := @callTold_own P peer args a _ _ _
              ((threadInv_call hcall).mp (hJ i u hu)) (hp i u d hu hcall)
            simp only [takeTurn,hcall,Option.isSome_some,hL,he]
            exact told
        · rw [List.getElem?_set_ne fun e => hik e.symm] at ht
          exact callTold_others hik hS (hJ k u hu) (hp i t pc ht hc) hm

/-- Whatever runs beside it and however often the process is restarted: a call that has
ended has booked what its outcome says, and an escrow that an exception left open is
still open. -/
theorem outcome_booked {p : Process} (h : (processMachine P peer).Reachable p) {i : Nat}
    {t : Thread} {o : Except PyExc DelegateResult} (hi : p.threads[i]?=some t)
    (hc : t.call=some (.finished o)) : Outcome o (bookings i p.shared.history) ∧
      (∀r∈bookings i p.shared.history,r∈p.shared.ledger.records) ∧
      ∀j w,bookings i p.shared.history=[escrowRecord j w] → p.shared.ledger.IsOpen j := by
  have told := reachable_told P peer h i t _ hi hc
  exact ⟨told.booked,bookings_held (reachable_account P peer h).shared i,
    fun j w he => (told.left o j w rfl he).isOpen⟩

section Stranded

variable {P peer}

/-- No call of the process is in charge of the escrow of job j. -/
def Abandoned (p : Process) (j : PyStr) : Prop :=
  p.shared.ledger.IsOpen j ∧ ∀t∈p.threads,∀pc,t.call=some pc → pc.owns≠some j

/-- A call comes into charge of a job by its escrow only. -/
theorem delegateMove_owns {a : Answers} {L L' : Ledger} {pc pc' : DelegatePc}
    {event : Option Event} {j : PyStr} (h : DelegateMove P peer a L pc L' pc' event)
    (ho : pc'.owns=some j) : pc.owns=some j ∨ L.jobRecords j=[] := by
  have active {job : Job} {worker : PeerInfo} {ph : Phase} {pc' : DelegatePc}
      (hn : ActiveNext P a job worker ph pc') (ho : pc'.owns=some j) : some job.id=some j := by
    cases hn with
    | escape => cases ho
    | _ => exact ho
  cases h with
  | escrow job worker hb hj =>
    cases ho
    exact .inr hj
  | go job worker ph _ hn | greet job worker _ payload hn | offer job worker _ payload hn =>
    exact .inl (active hn ho)
  | _ => cases ho

theorem threadMove_owns {a : Answers} {L L' : Ledger} {t t' : Thread} {event : Option Event}
    {pc' : DelegatePc} {j : PyStr} (h : ThreadMove P peer a L t L' t' event)
    (hc : t'.call=some pc') (ho : pc'.owns=some j) :
    (∃pc,t.call=some pc ∧ pc.owns=some j) ∨ L.jobRecords j=[] := by
  cases h with
  | call _ _ pc d _ _ ht ht' hm hs =>
    cases ht'.symm.trans hc
    exact (delegateMove_owns hm ho).imp (fun ho => ⟨pc,ht,ho⟩) id
  | serve loopback pc d _ _ hm =>
    rw [serveMove_calls hm hc] at ho
    cases ho
  | gone => cases hc

/-- One step leaves an abandoned escrow as it is. -/
theorem abandoned_step {p q : Process} {act : Action} {j : PyStr}
    (hr : (processMachine P peer).Reachable p) (hp : Abandoned p j)
    (hs : (processMachine P peer).step p act=some q) : Abandoned q j := by
  obtain ⟨ho,hn⟩ := hp
  have born (u : Thread) (hu : u.Born) : Abandoned ⟨p.shared,p.threads++[u]⟩ j := by
    refine ⟨ho,?_⟩
    intro t ht pc hc hpc
    rcases List.mem_append.mp ht with ht | ht
    · exact hn t ht pc hc hpc
    · obtain rfl := List.mem_singleton.mp ht
      rcases hu with ⟨args,rfl⟩ | ⟨loopback,rfl⟩
      · cases hc
        cases hpc
      · cases hc
  cases act with
  | call args =>
    cases hs
    exact born _ (.inl ⟨args,rfl⟩)
  | accept loopback =>
    cases hs
    exact born _ (.inr ⟨loopback,rfl⟩)
  | sign pubkey msg =>
    cases hs
    exact ⟨ho,hn⟩
  | restart =>
    cases hs
    obtain ⟨w,hw⟩ := reachable_books hr
    refine ⟨?_,?_⟩
    · change (Ledger.load p.shared.ledger.disk).IsOpen j
      rw [hw.load_eq]
      exact ho
    · intro t ht pc hc
      obtain ⟨u,-,rfl⟩ := List.mem_map.mp ht
      cases hc
  | turn k a =>
    simp only [processMachine] at hs
    split at hs
    · cases hs
    · rename_i u hu
      have hm := threadStep_move P peer a p.shared.ledger u
      have hmem := List.mem_of_getElem? hu
      cases hs
      refine ⟨?_,?_⟩
      · change (threadStep P peer a p.shared.ledger u).1.IsOpen j
        rcases threadMove_ledger hm with ⟨hL,-⟩ | ⟨r,he,hL⟩
        · rw [hL]
          exact ho
        · rw [hL]
          apply ho.extend
          intro hj
          rcases threadMove_closes hm he hj with hk | ⟨pc,hc,hown⟩
          · exact hk
          · exact absurd hown (hn u hmem pc hc)
      · intro t ht pc hc hown
        rcases List.mem_or_eq_of_mem_set ht with ht | rfl
        · exact hn t ht pc hc hown
        · rcases threadMove_owns hm hc hown with ⟨d,hd,hown⟩ | hj
          · exact hn u hmem d hd hown
          · obtain ⟨r,hr,hrj⟩ := record_of_isOpen ho
            exact no_record hj r hr hrj

theorem abandoned_run {p q : Process} {acts : List Action} {j : PyStr}
    (hr : (processMachine P peer).Reachable p) (hp : Abandoned p j)
    (hq : (processMachine P peer).run p acts=some q) : Abandoned q j := by
  refine (Machine.run_preserves (processMachine P peer)
    (P := fun p => (processMachine P peer).Reachable p ∧ Abandoned p j) ?_ ⟨hr,hp⟩ hq).2
  intro s a t hs ht
  exact ⟨@Machine.Reachable.extend _ _ (processMachine P peer) _ _ [a] hs.1 (by simp [ht]),
    abandoned_step hs.1 hs.2 ht⟩

/-- A restart abandons every escrow. -/
theorem restart_abandons {p q : Process} {j : PyStr} (hr : (processMachine P peer).Reachable p)
    (ho : p.shared.ledger.IsOpen j) (hs : (processMachine P peer).step p .restart=some q) :
    Abandoned q j := by
  obtain ⟨w,hw⟩ := reachable_books hr
  cases hs
  refine ⟨?_,?_⟩
  · change (Ledger.load p.shared.ledger.disk).IsOpen j
    rw [hw.load_eq]
    exact ho
  · intro t ht pc hc
    obtain ⟨u,-,rfl⟩ := List.mem_map.mp ht
    cases hc

end Stranded

/-- A credit in escrow that no running call is in charge of, as every one is after a
restart, is neither paid nor taken back in any later run. -/
theorem stranded_stays_open {p q : Process} {acts : List Action} {j : PyStr}
    (hr : (processMachine P peer).Reachable p) (ho : p.shared.ledger.IsOpen j)
    (ha : Abandoned p j ∨ acts.head?=some .restart)
    (hq : (processMachine P peer).run p acts=some q) :
    q.shared.ledger.IsOpen j ∧ j∈openJobs q.shared.ledger.records ∧
      jobCount .settle j q.shared.ledger.records=0 ∧
      jobCount .refund j q.shared.ledger.records=0 := by
  have hopen : q.shared.ledger.IsOpen j := by
    rcases ha with ha | ha
    · exact (abandoned_run hr ha hq).1
    · cases acts with
      | nil => cases ha
      | cons a acts =>
        cases ha
        rw [Machine.run_cons,Option.bind_eq_some_iff] at hq
        obtain ⟨s,hs,hq⟩ := hq
        have hs' := @Machine.Reachable.extend _ _ (processMachine P peer) _ s [.restart] hr
          (by simp [hs])
        exact (abandoned_run hs' (restart_abandons hr ho hs) hq).1
  exact ⟨hopen,Ledger.mem_openJobs_iff.mpr hopen,hopen.2⟩

section Sample

/-- What a call that is over gave back. -/
def DelegatePc.gaveBack : DelegatePc → Option (Except PyExc DelegateResult)
  | .finished o => some o
  | _ => none

/-- The call of the settled delegation, when it has returned. -/
theorem outcome_booked_sample : ∃t o,settledOnce.threads[0]?=some t ∧
    t.call=some (.finished o) ∧ Outcome o (bookings 0 settledOnce.shared.history) ∧
    (bookings 0 settledOnce.shared.history).length=2 := by
  have hf : ((settledOnce.threads[0]?.bind Thread.call).bind DelegatePc.gaveBack).isSome=true := by
    decide +kernel
  obtain ⟨o,ho⟩ := Option.isSome_iff_exists.mp hf
  obtain ⟨pc,hpc,ho⟩ := Option.bind_eq_some_iff.mp ho
  obtain ⟨t,ht,hc⟩ := Option.bind_eq_some_iff.mp hpc
  have hpc : pc=.finished o := by cases pc <;> simp_all [DelegatePc.gaveBack]
  subst hpc
  exact ⟨t,o,ht,hc,(outcome_booked samplePlatform samplePeer
    (settledOnce_reachable.reachable _) ht hc).1,by decide +kernel⟩

/-- A process that is stopped while it waits for its worker. -/
theorem stranded_stays_open_sample :
    (((processMachine samplePlatform samplePeer).run escrowedOnce [.restart]).getD
      escrowedOnce).shared.ledger.IsOpen sampleJob.id := by
  have hr : (processMachine samplePlatform samplePeer).Reachable escrowedOnce :=
    ⟨.start,sampleEscrow,rfl,Machine.run_getD _ (by decide)⟩
  have ho : escrowedOnce.shared.ledger.IsOpen sampleJob.id :=
    ⟨by decide,by decide,by decide⟩
  exact (stranded_stays_open samplePlatform samplePeer hr ho (.inr rfl)
    (Machine.run_getD _ (by decide))).1

end Sample

end AgentTorrent
