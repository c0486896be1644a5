import AgentTorrent.Peer.Budget
import AgentTorrent.Swarm.TcpRuns

open Framework

namespace AgentTorrent

def TcpAction.asks {ι : Type} (k : Nat) : TcpAction ι → Bool
  | .requester i _ => i=k
  | _ => false

def TcpAction.serves {ι : Type} (k : Nat) : TcpAction ι → Bool
  | .handler i _ => i=k
  | _ => false

/-- The call has a connection wherever it needs one. -/
def TcpSession.Joined {ι : Type} (t : TcpSession ι) : Prop :=
  t.link=none → t.pc.unconnected=true ∨ t.pc.talks=false

/-- How many steps the handler has left at most, also before there is one. -/
def TcpSession.handlerLeft {ι : Type} (t : TcpSession ι) : Nat :=
  (t.link.map fun l => l.handler.left).getD 16

def TcpSession.callLeft {ι : Type} (t : TcpSession ι) : Nat := t.pc.left

section Calls

variable {P : Platform} {peer : Peer} {a : Answers} {L L' : Ledger} {pc pc' : DelegatePc}

theorem DelegatePc.left_le (pc : DelegatePc) : pc.left ≤ 10 := by
  cases pc with
  | active ph job worker =>
    simp only [DelegatePc.left]
    omega
  | _ => exact Nat.le_of_ble_eq_true rfl

theorem ServePc.left_le (pc : ServePc) : pc.left ≤ 16 := by
  cases pc with
  | control args pc =>
    have := pc.left_le
    simp only [ServePc.left]
    omega
  | _ => exact Nat.le_of_ble_eq_true rfl

theorem returned_of_left (h : pc.left=0) : pc.returned=true := by
  cases pc with
  | finished outcome => rfl
  | active ph job worker => cases ph <;> cases h
  | _ => cases h

theorem closed_of_left {pc : ServePc} (h : pc.left=0) : pc.closed=true := by
  cases pc with
  | finished escaped => rfl
  | _ => cases h

/-- A call that is refused a connection asks for nothing more. -/
theorem refused_quiet {args : DelegateArgs} {job : Job} {worker : PeerInfo}
    (h : a.connecting=.refused) :
    (delegateStep P peer args a L (.active .connect job worker)).2.1.talks=false := by
  simp only [delegateStep,activeStep,h]
  exact giveUp_quiet ..

theorem delegateMove_early {event : Option Event} (h : DelegateMove P peer a L pc L' pc' event)
    (he : pc.early=true) : pc'.unconnected=true ∨ pc'.talks=false := by
  cases h with
  | begin | chosen | escrow => exact .inl rfl
  | refuse => exact .inr rfl
  | stay => cases he
  | unclosed => exact .inr rfl
  | go | greet | offer | settle | refund => cases he

end Calls

variable {P : Platform} {ι : Type} {M : Members P ι}

theorem TcpSession.handlerLeft_le (t : TcpSession ι) : t.handlerLeft ≤ 16 := by
  unfold TcpSession.handlerLeft
  cases t.link with
  | none => exact le_rfl
  | some l => exact l.handler.left_le

section Steps

variable {s s' : Exchange ι} {t t' : TcpSession ι} {c : TcpChoice ι}

theorem listens_joined (h : t.Joined) (hl : t.link=none) : t.pc.listens P=false := by
  cases hpc : t.pc with
  | active ph job worker => cases ph with
    | connect => rfl
    | _ =>
      rw [TcpSession.Joined,hpc] at h
      rcases h hl with he | he <;> cases he
  | _ => rfl

/-- Whatever the read meets, the call goes on. -/
theorem TcpSession.hear_some (h : t.Joined) (c : TcpChoice ι) : ∃heard,t.hear P c=some heard := by
  unfold TcpSession.hear
  cases hl : t.link with
  | none => exact ⟨(c.answers,tcpDial c t.pc),by simp [listens_joined h hl]⟩
  | some l => exact ⟨_,rfl⟩

theorem TcpSession.hear_link {a : Answers} {link : Option (TcpLink ι)}
    (h : t.hear P c=some (a,link)) :
    t.link=none ∧ a=c.answers ∧ link=tcpDial c t.pc ∨
    ∃l p,t.link=some l ∧ link=some {l with toRequester := p} := by
  unfold TcpSession.hear at h
  split at h
  · rename_i hl
    split_ifs at h
    cases h
    exact .inl ⟨hl,rfl,rfl⟩
  · rename_i l hl
    cases h
    exact .inr ⟨l,_,hl,rfl⟩

variable [DecidableEq ι]

/-- A step of the call takes one from what it has left, and nothing else. -/
theorem asked_left (k : Nat) (h : tcpRequesterStep M k c s t=some (s',t')) :
    t'.callLeft ≤ t.callLeft-1 ∧ t'.handlerLeft ≤ t.handlerLeft := by
  obtain ⟨next,hask,he⟩ := Option.map_eq_some_iff.mp h
  obtain ⟨⟨a,link⟩,hh,rfl⟩ := Option.map_eq_some_iff.mp hask
  have hm := delegateStep_move P (M.peer t.requester) t.args a (s.ledgers t.requester) t.pc
  cases he
  refine ⟨delegateMove_left hm,?_⟩
  simp only [TcpSession.handlerLeft,Option.map_map]
  rcases TcpSession.hear_link hh with ⟨hl,-,rfl⟩ | ⟨l,p,hl,rfl⟩
  · rw [hl]
    unfold tcpDial
    split
    · split_ifs <;> exact le_rfl
    · exact le_rfl
  · rw [hl]
    exact le_rfl

omit [DecidableEq ι] in
/-- A call that is left without a connection has not asked for one, or gives up. -/
theorem unlinked_joined {args : DelegateArgs} {L : Ledger} {peer : Peer}
    (hj : t.pc.unconnected=true ∨ t.pc.talks=false) (hd : tcpDial c t.pc=none) :
    let next := (delegateStep P peer args c.answers L t.pc).2.1
    next.unconnected=true ∨ next.talks=false := by
  intro next
  have hm := delegateStep_move P peer args c.answers L t.pc
  rcases hj with hu | hq
  · cases hpc : t.pc with
    | start | choose | escrow => exact delegateMove_early hm (by rw [hpc]; rfl)
    | active ph job worker => cases ph with
      | connect =>
        have hr : c.answers.connecting=.refused := by
          by_contra hr
          rw [hpc] at hd
          simp [tcpDial,hr] at hd
        simp only [next,hpc]
        exact .inr (refused_quiet hr)
      | _ =>
        rw [hpc] at hu
        cases hu
    | settle | refund | finished =>
      rw [hpc] at hu
      cases hu
  · refine .inr (Bool.eq_false_iff.mpr ?_)
    intro htalk
    cases hq.symm.trans (delegateMove_talks hm htalk).1

theorem asked_joined (k : Nat) (h : tcpRequesterStep M k c s t=some (s',t')) (hj : t.Joined) :
    t'.Joined := by
  obtain ⟨next,hask,he⟩ := Option.map_eq_some_iff.mp h
  obtain ⟨⟨a,link⟩,hh,rfl⟩ := Option.map_eq_some_iff.mp hask
  cases he
  intro hlink
  have hnone : link=none := Option.map_eq_none_iff.mp hlink
  rcases TcpSession.hear_link hh with ⟨hl,rfl,hd⟩ | ⟨l,p,-,hd⟩
  · exact unlinked_joined (hj hl) (hd.symm.trans hnone)
  · cases hnone.symm.trans hd

theorem served_left (h : tcpHandlerStep M c s t=some (s',t')) :
    t'.callLeft=t.callLeft ∧ t'.handlerLeft ≤ t.handlerLeft-1 ∧ t'.Joined := by
  obtain ⟨l,hl,he⟩ := Option.map_eq_some_iff.mp h
  cases he
  refine ⟨rfl,?_,fun hn => by cases hn⟩
  simp only [TcpSession.handlerLeft,hl,Option.map_some,Option.getD_some]
  exact (serveStep_pays l.loopback l.handler).left

end Steps

section Runs

variable [DecidableEq ι] {p q : TcpSwarm ι} {act : TcpAction ι}

theorem tcp_joined (h : (tcpMachine M).Reachable p) : ∀t∈p.threads,t.Joined := by
  refine @Machine.Reachable.invariant _ _ (tcpMachine M) (fun p => ∀t∈p.threads,t.Joined) ?_ ?_ p h
  · intro p hp
    cases hp
    simp
  · intro p act q hp hs
    cases act with
    | delegate b args =>
      cases hs
      intro t ht
      rcases List.mem_append.mp ht with ht | ht
      · exact hp t ht
      · rw [List.mem_singleton.mp ht]
        exact fun _ => .inl rfl
    | requester k c =>
      obtain ⟨t,ht,hs⟩ := Option.bind_eq_some_iff.mp hs
      obtain ⟨⟨s',t'⟩,hstep,rfl⟩ := Option.map_eq_some_iff.mp hs
      intro u hu
      rcases List.mem_or_eq_of_mem_set hu with hu | rfl
      · exact hp u hu
      · exact asked_joined k hstep (hp t (List.mem_of_getElem? ht))
    | handler k c =>
      obtain ⟨t,ht,hs⟩ := Option.bind_eq_some_iff.mp hs
      obtain ⟨⟨s',t'⟩,hstep,rfl⟩ := Option.map_eq_some_iff.mp hs
      intro u hu
      rcases List.mem_or_eq_of_mem_set hu with hu | rfl
      · exact hp u hu
      · exact (served_left hstep).2.2

/-- A step takes from what its own thread has left, and no step gives any thread more. -/
theorem tcp_left (hs : (tcpMachine M).step p act=some q) (k : Nat) :
    q.measure TcpSession.callLeft 10 k ≤
      p.measure TcpSession.callLeft 10 k-(if act.asks k then 1 else 0) ∧
    q.measure TcpSession.handlerLeft 16 k ≤
      p.measure TcpSession.handlerLeft 16 k-(if act.serves k then 1 else 0) := by
  cases act with
  | delegate b args =>
    cases hs
    exact ⟨Pool.measure_spawn le_rfl _ k,Pool.measure_spawn le_rfl _ k⟩
  | requester i c =>
    obtain ⟨t,ht,hs⟩ := Option.bind_eq_some_iff.mp hs
    obtain ⟨⟨s',t'⟩,hstep,rfl⟩ := Option.map_eq_some_iff.mp hs
    obtain ⟨hcall,hhandler⟩ := asked_left i hstep
    refine ⟨?_,Pool.measure_set_le ht hhandler s' k⟩
    by_cases hk : i=k
    · subst hk
      rw [Pool.measure_set_self ht,Pool.measure_thread ht]
      simpa [TcpAction.asks] using hcall
    · rw [Pool.measure_set_ne hk]
      simp [TcpAction.asks,hk]
  | handler i c =>
    obtain ⟨t,ht,hs⟩ := Option.bind_eq_some_iff.mp hs
    obtain ⟨⟨s',t'⟩,hstep,rfl⟩ := Option.map_eq_some_iff.mp hs
    obtain ⟨hcall,hhandler,-⟩ := served_left hstep
    refine ⟨Pool.measure_set_le ht hcall.le s' k,?_⟩
    by_cases hk : i=k
    · subst hk
      rw [Pool.measure_set_self ht,Pool.measure_thread ht]
      simpa [TcpAction.serves] using hhandler
    · rw [Pool.measure_set_ne hk]
      simp [TcpAction.serves,hk]

/-- Nothing hangs: whatever the streams do, every call and every handler can always take
its next step, and once each call has had ten turns and each handler sixteen, nothing is
in progress any more. -/
theorem tcp_never_hangs (h : (tcpMachine M).Reachable p) :
    (∀k t c,p.threads[k]?=some t → ((tcpMachine M).step p (.requester k c)).isSome=true ∧
      (t.link.isSome=true → ((tcpMachine M).step p (.handler k c)).isSome=true)) ∧
    ∀acts q,(tcpMachine M).run p acts=some q →
      (∀k t,q.threads[k]?=some t → 10 ≤ acts.countP (TcpAction.asks k) ∧
        (t.link.isSome=true → 16 ≤ acts.countP (TcpAction.serves k))) → TcpQuiescent q := by
  refine ⟨?_,?_⟩
  · intro k t c ht
    obtain ⟨heard,hh⟩ := TcpSession.hear_some (P := P) (tcp_joined h t (List.mem_of_getElem? ht)) c
    refine ⟨?_,fun hl => ?_⟩
    · simp [tcpMachine,ht,tcpRequesterStep,TcpSession.ask,hh]
    · obtain ⟨l,hl⟩ := Option.isSome_iff_exists.mp hl
      simp [tcpMachine,ht,tcpHandlerStep,hl]
  · intro acts q hr hc t ht
    obtain ⟨k,hk⟩ := List.getElem?_of_mem ht
    obtain ⟨hasks,hserves⟩ := hc k t hk
    have hcall := (tcpMachine M).run_exhausts (fun p act q hs => (tcp_left hs k).1) hr
    have hhandler := (tcpMachine M).run_exhausts (fun p act q hs => (tcp_left hs k).2) hr
    rw [Pool.measure_thread hk] at hcall hhandler
    have hcalls := p.measure_le (fun t : TcpSession ι => t.pc.left_le) k
    have hhandlers := p.measure_le TcpSession.handlerLeft_le k
    refine ⟨returned_of_left ?_,fun l hl => closed_of_left ?_⟩
    · change t.pc.left ≤ _ at hcall
      change p.measure TcpSession.callLeft 10 k ≤ 10 at hcalls
      omega
    · have hlink : t.handlerLeft=l.handler.left := by
        rw [TcpSession.handlerLeft,show t.link=some l from hl]
        rfl
      have := hserves (Option.isSome_of_mem hl)
      omega

end Runs

section Sample

/-- A worker that says nothing: every read of the call that waits for it times out. -/
def stalledTurns : List (TcpAction Bool) :=
  let c := {streamChoice requesterHandshake 0 with read := .timedOut}
  .delegate false sampleArgs::List.replicate 10 (.requester 0 c)++List.replicate 16 (.handler 0 c)

def stalledSwarm : TcpSwarm Bool :=
  ((tcpMachine streamMembers).run streamStart stalledTurns).getD streamStart

theorem tcp_never_hangs_sample : TcpQuiescent stalledSwarm := by
  have hstart : (tcpMachine streamMembers).Reachable streamStart := ⟨streamStart,[],rfl,rfl⟩
  have hr : ((tcpMachine streamMembers).run streamStart stalledTurns).isSome=true := by
    decide
  have hone : stalledSwarm.threads.length=1 := by decide
  refine (tcp_never_hangs hstart).2 stalledTurns _ (Machine.run_getD _ hr) ?_
  intro k t ht
  have hk : k=0 := by
    have := (List.getElem?_eq_some_iff.mp ht).1
    change k < stalledSwarm.threads.length at this
    omega
  subst hk
  exact ⟨by decide,fun _ => by decide⟩

end Sample

end AgentTorrent
