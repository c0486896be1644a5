import AgentTorrent.Peer.Concurrency

open Framework

namespace AgentTorrent

/-- How many steps a call has left at most. -/
def DelegatePc.left : DelegatePc → Nat
  | .start => 10
  | .choose => 9
  | .escrow _ _ => 8
  | .active ph _ _ => 7-ph.rank
  | .settle _ _ _ | .refund _ _ _ => 1
  | .finished _ => 0

/-- How many messages a call may still seal. -/
def DelegatePc.toSay : DelegatePc → Nat
  | .active ph _ _ => if ph.rank ≤ 1 then 2 else if ph.rank ≤ 3 then 1 else 0
  | .settle _ _ _ | .refund _ _ _ | .finished _ => 0
  | _ => 2

/-- How many steps a connection has left at most, of which a delegation may be a part. -/
def ServePc.left : ServePc → Nat
  | .start => 16
  | .handshakeRecv => 15
  | .handshakeSend _ => 14
  | .requestRecv _ => 13
  | .acceptSend _ _ => 4
  | .execute _ _ => 3
  | .resultSend _ _ _ | .listPeers | .listLedger => 2
  | .credit _ _ | .rejectSend _ | .controlSend _ => 1
  | .control _ pc => pc.left+2
  | .finished _ => 0

def ServePc.toSay : ServePc → Nat
  | .start | .handshakeRecv | .handshakeSend _ => 4
  | .requestRecv _ => 3
  | .acceptSend _ _ => 2
  | .credit _ _ | .finished _ => 0
  | .control _ pc => pc.toSay+1
  | _ => 1

/-- How many jobs a connection may still execute, or calls begin. -/
def ServePc.toRun : ServePc → Nat
  | .start | .handshakeRecv | .handshakeSend _ | .requestRecv _ | .acceptSend _ _
  | .execute _ _ => 1
  | _ => 0

def Thread.left : Thread → Nat
  | .delegate _ pc => pc.left
  | .serve _ pc => pc.left
  | .gone => 0

def Thread.toSay : Thread → Nat
  | .delegate _ pc => pc.toSay
  | .serve _ pc => pc.toSay
  | .gone => 0

def Thread.toRun : Thread → Nat
  | .delegate _ _ => 0
  | .serve _ pc => pc.toRun
  | .gone => 0

/-- The thread has returned. -/
def Thread.done : Thread → Bool
  | .delegate _ (.finished _) | .serve _ (.finished _) | .gone => true
  | _ => false

def Event.sealing : Event → Nat
  | .sealed _ => 1
  | _ => 0

def Event.serving : Event → Nat
  | .executed _ _ | .delegated _ => 1
  | _ => 0

/-- What an entry costs, where it is one of thread i. -/
def Entry.spent (cost : Event → Nat) (i : Nat) : Entry → Nat
  | .own k _ event => if k=i then cost event else 0
  | .foreign _ _ => 0

/-- What the steps of thread i cost. -/
def spentBy (cost : Event → Nat) (i : Nat) : List Entry → Nat
  | [] => 0
  | e::es => e.spent cost i+spentBy cost i es

theorem spentBy_append (cost : Event → Nat) (i : Nat) (es fs : List Entry) :
    spentBy cost i (es++fs)=spentBy cost i es+spentBy cost i fs := by
  induction es with
  | nil => simp [spentBy]
  | cons e es ih =>
    rw [List.cons_append,spentBy,spentBy,ih]
    omega

def Action.isTurn (i : Nat) : Action → Bool
  | .turn k _ => k=i
  | _ => false

variable (P : Platform) (peer : Peer)

/-- No step of a thread costs more than it takes from what is left. -/
def Spends (cost : Event → Nat) (left : Thread → Nat) : Prop :=
  ∀a L t,((threadStep P peer a L t).2.2.map cost).getD 0+left (threadStep P peer a L t).2.1 ≤ left t

section Rule

variable {P peer} {cost : Event → Nat} {left : Thread → Nat} {n : Nat} {p q : Process} {act : Action}

/-- Only its own turns and a restart change what a thread has left. -/
theorem measure_move (hb : ∀t : Thread,t.Born → left t ≤ n) (hg : left .gone=0)
    (hs : (processMachine P peer).step p act=some q) (i : Nat) :
    q.measure left n i ≤ p.measure left n i ∧ act.isTurn i=false ∨
    ∃a t,act=.turn i a ∧ p.threads[i]?=some t ∧
      q.shared=p.shared.book i t.call.isSome (threadStep P peer a p.shared.ledger t).1
        (threadStep P peer a p.shared.ledger t).2.2 ∧
      q.measure left n i=left (threadStep P peer a p.shared.ledger t).2.1 := by
  cases act with
  | call args =>
    cases hs
    exact .inl ⟨Pool.measure_spawn (hb _ (.inl ⟨args,rfl⟩)) _ i,rfl⟩
  | accept loopback =>
    cases hs
    exact .inl ⟨Pool.measure_spawn (hb _ (.inr ⟨loopback,rfl⟩)) _ i,rfl⟩
  | sign pubkey msg =>
    cases hs
    exact .inl ⟨le_rfl,rfl⟩
  | restart =>
    cases hs
    exact .inl ⟨Pool.measure_reset hg _ i,rfl⟩
  | turn k a =>
    simp only [processMachine] at hs
    split at hs
    · cases hs
    · rename_i t ht
      cases hs
      by_cases hk : k=i
      · subst hk
        exact .inr ⟨a,t,rfl,ht,rfl,Pool.measure_set_self ht _ _⟩
      · exact .inl ⟨(Pool.measure_set_ne hk _ _).le,by simp [Action.isTurn,hk]⟩

theorem spentBy_book (s : Shared) (i : Nat) (c : Bool) (L : Ledger) (event : Option Event) :
    spentBy cost i (s.book i c L event).history=
      spentBy cost i s.history+(event.map cost).getD 0 := by
  cases event <;> simp [spentBy_append,spentBy,Entry.spent,Shared.book]

theorem spentBy_other {i : Nat} (hs : (processMachine P peer).step p act=some q)
    (ht : act.isTurn i=false) : spentBy cost i q.shared.history=spentBy cost i p.shared.history := by
  cases act with
  | turn k a =>
    simp only [processMachine] at hs
    split at hs
    · cases hs
    · cases hs
      have hk : k≠i := by simpa [Action.isTurn] using ht
      simp only [takeTurn,Shared.book,spentBy_append]
      cases (threadStep P peer a p.shared.ledger _).2.2 <;> simp [spentBy,Entry.spent,hk]
  | sign pubkey msg =>
    cases hs
    simp [spentBy_append,spentBy,Entry.spent,Shared.hear]
  | call | accept | restart =>
    cases hs
    rfl

/-- No thread spends more than what it was born with, in any state of the process. -/
theorem Spends.reachable (h : Spends P peer cost left) (hb : ∀t : Thread,t.Born → left t ≤ n)
    (hg : left .gone=0) (hr : (processMachine P peer).Reachable p) (i : Nat) :
    spentBy cost i p.shared.history+p.measure left n i ≤ n := by
  refine @Machine.Reachable.invariant _ _ (processMachine P peer)
    (fun p => spentBy cost i p.shared.history+p.measure left n i ≤ n) ?_ ?_ p hr
  · intro p hp
    cases hp
    simp [spentBy,Pool.measure,Process.start]
  · intro p act q hp hs
    rcases measure_move hb hg hs i with ⟨hle,hturn⟩ | ⟨a,t,rfl,ht,hshared,hrem⟩
    · rw [spentBy_other hs hturn]
      omega
    · have hleft : p.measure left n i=left t := Pool.measure_thread ht
      have hstep := h a p.shared.ledger t
      rw [hshared,hrem,spentBy_book]
      omega

end Rule

section Steps

variable {P peer} {a : Answers} {L : Ledger}

/-- A step of a call takes one from what is left, while there is something left. -/
theorem delegateMove_left {L' : Ledger} {pc pc' : DelegatePc} {event : Option Event}
    (h : DelegateMove P peer a L pc L' pc' event) : pc'.left ≤ pc.left-1 := by
  have active {job : Job} {worker : PeerInfo} {ph : Phase} {next : DelegatePc}
      (hn : ActiveNext P a job worker ph next) :
      next.left ≤ (DelegatePc.active ph job worker).left-1 := by
    have hrank : ph.rank ≤ 5 := by cases ph <;> decide
    cases hn with
    | forward ph' hr hm =>
      simp only [DelegatePc.left]
      omega
    | refund | escape | settle =>
      simp only [DelegatePc.left]
      omega
  cases h with
  | go job worker ph pc' hn => exact active hn
  | greet job worker pc' payload hn hp => exact active hn
  | offer job worker pc' payload hn hp => exact active hn
  | begin | chosen | refuse | escrow | settle | refund | unclosed | stay =>
    simp [DelegatePc.left,Phase.rank]

/-- A call that seals takes it from what it may still say. -/
theorem delegateMove_toSay {L' : Ledger} {pc pc' : DelegatePc} {event : Option Event}
    (h : DelegateMove P peer a L pc L' pc' event) :
    (event.map Event.sealing).getD 0+pc'.toSay ≤ pc.toSay := by
  have active {job : Job} {worker : PeerInfo} {ph : Phase} {next : DelegatePc}
      (hn : ActiveNext P a job worker ph next) :
      next.toSay ≤ (DelegatePc.active ph job worker).toSay := by
    cases hn with
    | forward ph' hr hm =>
      simp only [DelegatePc.toSay,hr]
      split_ifs <;> omega
    | refund | escape | settle => exact Nat.zero_le _
  cases h with
  | go job worker ph pc' hn => simpa using active hn
  | greet job worker pc' payload hn hp =>
    change 1+pc'.toSay ≤ 2
    cases hn with
    | forward ph' hr hm =>
      have hr : ph'.rank=2 := hr
      simp [DelegatePc.toSay,hr]
    | refund | escape | settle => simp [DelegatePc.toSay]
  | offer job worker pc' payload hn hp =>
    change 1+pc'.toSay ≤ 1
    cases hn with
    | forward ph' hr hm =>
      have hr : ph'.rank=4 := hr
      simp [DelegatePc.toSay,hr]
    | refund | escape | settle => simp [DelegatePc.toSay]
  | begin | chosen | refuse | escrow | settle | refund | unclosed | stay =>
    simp [DelegatePc.toSay,Phase.rank,Event.sealing]

theorem delegateMove_quiet {L' : Ledger} {pc pc' : DelegatePc} {event : Option Event}
    (h : DelegateMove P peer a L pc L' pc' event) : (event.map Event.serving).getD 0=0 := by
  cases h <;> rfl

/-- Bounds on what follows a request, or a send. -/
structure ServePc.Within (left toSay toRun : Nat) (pc : ServePc) : Prop where
  left : pc.left ≤ left
  toSay : pc.toSay ≤ toSay
  toRun : pc.toRun ≤ toRun

theorem ServePc.within_of {pc : ServePc} {l m n : Nat}
    (h : (pc.left.ble l && pc.toSay.ble m && pc.toRun.ble n)=true) : pc.Within l m n := by
  rw [Bool.and_eq_true,Bool.and_eq_true] at h
  exact ⟨Nat.le_of_ble_eq_true h.1.1,Nat.le_of_ble_eq_true h.1.2,Nat.le_of_ble_eq_true h.2⟩

theorem finished_within (escaped : Option PyExc) (l m n : Nat) :
    (ServePc.finished escaped).Within l m n := ⟨Nat.zero_le l,Nat.zero_le m,Nat.zero_le n⟩

theorem hangUp_within (e : PyExc) (l m n : Nat) : (hangUp e).Within l m n := by
  cases e <;> exact finished_within ..

theorem controlFault_within (e : PyExc) {l m : Nat} (hl : 1 ≤ l) (hm : 1 ≤ m) (n : Nat) :
    (controlFault P e).Within l m n := by
  cases e with
  | keyError | ledgerError => exact ⟨hl,hm,Nat.zero_le n⟩
  | _ =>
    simp only [controlFault]
    exact hangUp_within ..

theorem considerOffer_within (remote : PeerId) (o : Opened) :
    (considerOffer P peer remote o).Within 12 3 1 := by
  have said (body : Json) : (ServePc.rejectSend body).Within 12 3 1 :=
    ServePc.within_of rfl
  unfold considerOffer
  split
  · exact hangUp_within ..
  · split_ifs
    · exact said _
    · split
      · exact said _
      · exact hangUp_within ..
      · split_ifs
        · exact ServePc.within_of rfl
        · unfold refuseJob
          dsimp only
          split_ifs
          all_goals first | exact said _ | exact hangUp_within ..

theorem handleControl_within (loopback : Bool) (sender : PeerId) (o : Opened) :
    (handleControl P peer loopback sender o).Within 12 3 1 := by
  have said (body : Json) : (ServePc.controlSend body).Within 12 3 1 := ServePc.within_of rfl
  unfold handleControl
  split_ifs
  · exact said _
  · dsimp only
    split
    · exact hangUp_within ..
    · split
      · exact hangUp_within ..
      · split_ifs
        · exact ServePc.within_of rfl
        · exact ServePc.within_of rfl
        · split
          · exact controlFault_within _ (by decide) (by decide) _
          · exact ServePc.within_of rfl
        · split
          · exact hangUp_within ..
          · exact said _

/-- A step of a connection takes one from the steps that it has left, what it seals from
what it may say, and a job or a call from what it may run. -/
structure ServePc.Pays (pc : ServePc) (next : ServePc×Option Event) : Prop where
  left : next.1.left ≤ pc.left-1
  toSay : (next.2.map Event.sealing).getD 0+next.1.toSay ≤ pc.toSay
  toRun : (next.2.map Event.serving).getD 0+next.1.toRun ≤ pc.toRun

theorem ServePc.Within.pays {pc next : ServePc} (h : next.Within (pc.left-1) pc.toSay pc.toRun) :
    pc.Pays (next,none) :=
  ⟨h.left,(Nat.zero_add _).trans_le h.toSay,(Nat.zero_add _).trans_le h.toRun⟩

theorem serveSend_pays {msgType : PyStr} {body : Json} {pc next : ServePc} (hs : 0 < pc.toSay)
    (h : next.Within (pc.left-1) (pc.toSay-1) pc.toRun) :
    pc.Pays (serveSend P peer a msgType body next) := by
  unfold serveSend
  split
  · exact (hangUp_within ..).pays
  · have hw : (if a.sent=true then next else .finished none).Within (pc.left-1) (pc.toSay-1)
        pc.toRun := by
      split_ifs
      · exact h
      · exact finished_within ..
    have hsay : 1+(if a.sent=true then next else .finished none).toSay ≤ pc.toSay := by
      have := hw.toSay
      omega
    exact ⟨hw.left,hsay,(Nat.zero_add _).trans_le hw.toRun⟩

/-- A connection in a call pays for what the call does. -/
theorem control_pays (args : DelegateArgs) {pc : DelegatePc} (hpos : 0 < pc.left) :
    (ServePc.control args pc).Pays (.control args (delegateStep P peer args a L pc).2.1,
      (delegateStep P peer args a L pc).2.2) := by
  have hm := delegateStep_move P peer args a L pc
  have hleft := delegateMove_left hm
  have hsay := delegateMove_toSay hm
  have hrun := delegateMove_quiet hm
  refine ⟨?_,?_,hrun.le⟩
  · simp only [ServePc.left]
    omega
  · simp only [ServePc.toSay]
    omega

/-- Every step of a connection pays, whatever the far side sends. -/
theorem serveStep_pays (loopback : Bool) (pc : ServePc) :
    pc.Pays (serveStep P peer loopback a L pc).2 := by
  cases pc with
  | start =>
    simp only [serveStep]
    split_ifs
    · exact (ServePc.within_of rfl).pays
    · exact (hangUp_within ..).pays
  | handshakeRecv =>
    simp only [serveStep]
    split
    · exact (hangUp_within ..).pays
    · exact (ServePc.within_of rfl).pays
  | handshakeSend remote => exact serveSend_pays (Nat.succ_pos _) (ServePc.within_of rfl)
  | requestRecv remote =>
    simp only [serveStep]
    split
    · exact (hangUp_within ..).pays
    · rename_i o hr
      have hw : (dispatch P peer loopback remote o).Within ((ServePc.requestRecv remote).left-1)
          (ServePc.requestRecv remote).toSay (ServePc.requestRecv remote).toRun := by
        unfold dispatch
        split_ifs
        · exact handleControl_within ..
        · exact considerOffer_within ..
      generalize dispatch P peer loopback remote o=next at hw
      cases next with
      | control args pc => exact ⟨hw.left,(Nat.zero_add _).trans_le hw.toSay,le_rfl⟩
      | _ => exact hw.pays
  | rejectSend body => exact serveSend_pays Nat.one_pos (finished_within ..)
  | controlSend body => exact serveSend_pays Nat.one_pos (finished_within ..)
  | acceptSend requester job => exact serveSend_pays (Nat.succ_pos _) (ServePc.within_of rfl)
  | execute requester job =>
    simp only [serveStep]
    split
    · rename_i e he
      have hw := hangUp_within e 2 1 0
      exact ⟨hw.left,(Nat.zero_add _).trans_le hw.toSay,Nat.add_le_add_left hw.toRun 1⟩
    · exact ⟨le_rfl,le_rfl,le_rfl⟩
  | resultSend requester job result =>
    refine serveSend_pays Nat.one_pos ?_
    split_ifs
    · exact ServePc.within_of rfl
    · exact finished_within ..
  | credit requester job =>
    simp only [serveStep]
    split
    · exact ⟨le_rfl,le_rfl,le_rfl⟩
    · exact (finished_within ..).pays
    · exact (hangUp_within ..).pays
  | listPeers =>
    simp only [serveStep]
    split
    · exact (hangUp_within ..).pays
    · exact (ServePc.within_of rfl).pays
  | listLedger => exact (ServePc.within_of rfl).pays
  | control args pc =>
    cases pc with
    | finished outcome =>
      have hw : (controlReply P outcome).Within 1 1 0 := by
        cases outcome with
        | error e => exact controlFault_within e le_rfl le_rfl 0
        | ok r => exact ServePc.within_of rfl
      exact ServePc.Within.pays hw
    | active ph job worker =>
      have hpos : 0 < (DelegatePc.active ph job worker).left := by
        cases ph <;> exact Nat.succ_pos _
      exact control_pays args hpos
    | start | choose | escrow | settle | refund => exact control_pays args (Nat.succ_pos _)
  | finished escaped => exact (finished_within ..).pays

end Steps

section Threads

variable {P peer}

theorem threadStep_left (a : Answers) (L : Ledger) (t : Thread) :
    (threadStep P peer a L t).2.1.left ≤ t.left-1 := by
  cases t with
  | delegate args pc => exact delegateMove_left (delegateStep_move P peer args a L pc)
  | serve loopback pc => exact (serveStep_pays loopback pc).left
  | gone => exact le_rfl

theorem spends_messages : Spends P peer Event.sealing Thread.toSay := by
  intro a L t
  cases t with
  | delegate args pc => exact delegateMove_toSay (delegateStep_move P peer args a L pc)
  | serve loopback pc => exact (serveStep_pays loopback pc).toSay
  | gone => exact le_rfl

theorem spends_jobs : Spends P peer Event.serving Thread.toRun := by
  intro a L t
  cases t with
  | delegate args pc => exact (delegateMove_quiet (delegateStep_move P peer args a L pc)).le
  | serve loopback pc => exact (serveStep_pays loopback pc).toRun
  | gone => exact le_rfl

theorem done_of_left {t : Thread} (h : t.left=0) : t.done=true := by
  cases t with
  | gone => rfl
  | delegate args pc => cases pc with
    | finished outcome => rfl
    | active ph job worker => cases ph <;> cases h
    | _ => cases h
  | serve loopback pc => cases pc with
    | finished escaped => rfl
    | _ => cases h

theorem born_left (t : Thread) (ht : t.Born) : t.left ≤ 16 := by
  obtain ⟨args,rfl⟩ | ⟨loopback,rfl⟩ := ht
  · exact Nat.le_of_ble_eq_true rfl
  · exact le_rfl

theorem born_toSay (t : Thread) (ht : t.Born) : t.toSay ≤ 4 := by
  obtain ⟨args,rfl⟩ | ⟨loopback,rfl⟩ := ht
  · exact Nat.le_of_ble_eq_true rfl
  · exact le_rfl

theorem born_toRun (t : Thread) (ht : t.Born) : t.toRun ≤ 1 := by
  obtain ⟨args,rfl⟩ | ⟨loopback,rfl⟩ := ht
  · exact Nat.zero_le 1
  · exact le_rfl

end Threads

/-- Whatever the far sides send and however the threads take turns: a call or a connection
has ended after sixteen turns of its own, it has sealed no more than four messages, and
executed no more than one job or begun no more than one call. -/
theorem thread_budget {acts : List Action} {p : Process}
    (h : (processMachine P peer).run .start acts=some p) (i : Nat) :
    (16 ≤ acts.countP (Action.isTurn i) → ∀t,p.threads[i]?=some t → t.done=true) ∧
    spentBy Event.sealing i p.shared.history ≤ 4 ∧
    spentBy Event.serving i p.shared.history ≤ 1 := by
  have hr : (processMachine P peer).Reachable p := ⟨.start,acts,rfl,h⟩
  refine ⟨?_,?_,?_⟩
  · intro hc t ht
    have hle := @Machine.run_exhausts _ _ (processMachine P peer)
      (fun p => p.measure Thread.left 16 i) (Action.isTurn i) ?_ _ _ _ h
    · have hrem : p.measure Thread.left 16 i=t.left := Pool.measure_thread ht
      have hstart : Process.start.measure Thread.left 16 i=16 := rfl
      exact done_of_left (by omega)
    · intro p act q hs
      rcases @measure_move P peer Thread.left 16 p q act born_left rfl hs i with
        ⟨hle,hturn⟩ | ⟨a,t,rfl,ht,-,hrem⟩
      · simpa [hturn] using hle
      · have hleft : p.measure Thread.left 16 i=t.left := Pool.measure_thread ht
        have hstep := @threadStep_left P peer a p.shared.ledger t
        simp only [Action.isTurn,decide_true,if_true]
        omega
  · have hb := spends_messages.reachable born_toSay rfl hr i
    omega
  · have hb := spends_jobs.reachable born_toRun rfl hr i
    omega

section Sample

/-- A connection that a stranger opens and leaves without a word. -/
def silentTurns : List Action := .accept false::List.replicate 16 (.turn 0 sampleAnswers)

def silentProcess : Process :=
  ((processMachine samplePlatform samplePeer).run .start silentTurns).getD .start

theorem thread_budget_sample : ∃t,silentProcess.threads[0]?=some t ∧ t.done=true := by
  have hr : ((processMachine samplePlatform samplePeer).run .start silentTurns).isSome=true := by
    decide
  have hone : (silentProcess.threads[0]?).isSome=true := by decide
  obtain ⟨t,ht⟩ := Option.isSome_iff_exists.mp hone
  have hdone := (thread_budget samplePlatform samplePeer (Machine.run_getD _ hr) 0).1 (by decide)
  exact ⟨t,ht,hdone t ht⟩

end Sample

end AgentTorrent
