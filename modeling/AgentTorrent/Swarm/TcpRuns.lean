import AgentTorrent.Sandbox
import AgentTorrent.Swarm.Reconcile
import AgentTorrent.Swarm.Tcp

open Framework

namespace AgentTorrent

/-- The call may still send or read. -/
def DelegatePc.talks : DelegatePc → Bool
  | .settle _ _ _ | .refund _ _ _ | .finished _ => false
  | _ => true

section Talk

variable {P : Platform} {peer : Peer} {a : Answers} {L : Ledger}

theorem talks_of_next {job : Job} {worker : PeerInfo} {ph : Phase} {pc' : DelegatePc}
    (h : ActiveNext P a job worker ph pc') (ht : pc'.talks=true) :
    ph.listens=true → ∃o,a.received=.ok o := by
  intro hl
  cases h with
  | forward ph' hr hm =>
    obtain ⟨o,ho,-⟩ := hm hl
    exact ⟨o,ho⟩
  | refund | escape | settle => cases ht

theorem listens_phase {job : Job} {worker : PeerInfo} {ph : Phase}
    (h : (DelegatePc.active ph job worker).listens P=true) : ph.listens=true := by
  cases ph with
  | resultRecv => rfl
  | _ => exact h

/-- A call that talks on was talking, and its read did not fail. -/
theorem delegateMove_talks {L' : Ledger} {pc pc' : DelegatePc} {event : Option Event}
    (h : DelegateMove P peer a L pc L' pc' event) (ht : pc'.talks=true) :
    pc.talks=true ∧ (pc.listens P=true → ∃o,a.received=.ok o) := by
  cases h with
  | begin | chosen | escrow => exact ⟨rfl,fun h => by cases h⟩
  | go job worker ph pc' h => exact ⟨rfl,fun hl => talks_of_next h ht (listens_phase hl)⟩
  | greet job worker pc' payload h hp => exact ⟨rfl,fun hl => talks_of_next h ht (listens_phase hl)⟩
  | offer job worker pc' payload h hp => exact ⟨rfl,fun hl => talks_of_next h ht (listens_phase hl)⟩
  | refuse | settle | refund | unclosed | stay => cases ht

/-- What a call sends, it sealed in one of its two sending phases. -/
theorem delegateMove_sealed {L' : Ledger} {pc pc' : DelegatePc} {payload : Json}
    (h : DelegateMove P peer a L pc L' pc' (some (.sealed payload))) :
    (∃ts msgType body,sealMessage P peer.identity ts msgType body=.ok payload) ∧
      ∃job worker,pc=.active .handshakeSend job worker ∨ pc=.active .offerSend job worker := by
  cases h with
  | greet job worker pc' payload h hp => exact ⟨⟨_,_,_,hp⟩,job,worker,.inl rfl⟩
  | offer job worker pc' payload h hp => exact ⟨⟨_,_,_,hp⟩,job,worker,.inr rfl⟩

theorem giveUp_quiet (job : Job) (worker : PeerInfo) (e : PyExc) :
    (giveUp P job worker e).talks=false := by
  cases e <;> rfl

theorem delegateSend_sent {job : Job} {worker : PeerInfo} {msgType : PyStr} {body : Json}
    {next : Phase} (ht : (delegateSend P peer a job worker msgType body next).1.talks=true) :
    a.sent=true := by
  unfold delegateSend at ht
  split at ht
  · rw [giveUp_quiet] at ht
    cases ht
  · dsimp only at ht
    split_ifs at ht with hsent
    · exact hsent
    · rw [giveUp_quiet] at ht
      cases ht

/-- A call that sends and talks on has sent the whole message. -/
theorem delegateStep_sent {args : DelegateArgs} {pc : DelegatePc} {payload : Json}
    (ht : (delegateStep P peer args a L pc).2.1.talks=true)
    (hs : (delegateStep P peer args a L pc).2.2=some (.sealed payload)) : a.sent=true := by
  have hm := delegateStep_move P peer args a L pc
  rw [hs] at hm
  obtain ⟨-,job,worker,rfl | rfl⟩ := delegateMove_sealed hm
  · exact delegateSend_sent ht
  · exact delegateSend_sent ht

theorem hangUp_closed (e : PyExc) : (hangUp e).closed=true := by
  cases e <;> rfl

theorem serveSend_open {msgType : PyStr} {body : Json} {next : ServePc}
    (h : (serveSend P peer a msgType body next).1.closed=false) : a.sent=true := by
  unfold serveSend at h
  split at h
  · rw [hangUp_closed] at h
    cases h
  · dsimp only at h
    split_ifs at h with hsent
    · exact hsent
    · cases h

/-- A handler that stays open read its message and sent its own. -/
theorem serveStep_open {loopback : Bool} {pc : ServePc} (hc : ∀args d,pc≠.control args d)
    (h : (serveStep P peer loopback a L pc).2.1.closed=false) :
    pc.closed=false ∧ (pc.listens=true → ∃o,a.received=.ok o) ∧
      ∀payload,(serveStep P peer loopback a L pc).2.2=some (.sealed payload) → a.sent=true := by
  cases pc with
  | start | execute | credit | listPeers =>
    refine ⟨rfl,fun h => (by cases h),fun payload hs => ?_⟩
    simp only [serveStep] at hs
    split at hs <;> cases hs
  | handshakeRecv =>
    simp only [serveStep] at h ⊢
    split at h
    · rw [hangUp_closed] at h
      cases h
    · rename_i o hr
      exact ⟨rfl,fun _ => ⟨o,(recv_ok P hr).1⟩,fun payload hs => by cases hs⟩
  | requestRecv remote =>
    simp only [serveStep] at h ⊢
    split at h
    · rw [hangUp_closed] at h
      cases h
    · rename_i o hr
      refine ⟨rfl,fun _ => ⟨o,(recv_ok P hr).1⟩,fun payload hs => ?_⟩
      unfold ServePc.begins at hs
      split at hs <;> cases hs
  | handshakeSend | acceptSend | resultSend | rejectSend | controlSend =>
    exact ⟨rfl,fun h => (by cases h),fun payload _ => serveSend_open h⟩
  | listLedger => exact ⟨rfl,fun h => (by cases h),fun payload hs => by cases hs⟩
  | control args d => exact absurd rfl (hc args d)
  | finished => cases h

theorem serveMove_sealed {loopback : Bool} {L' : Ledger} {pc pc' : ServePc} {payload : Json}
    (h : ServeMove P peer loopback a L pc L' pc' (some (.sealed payload))) :
    ∃ts msgType body,sealMessage P peer.identity ts msgType body=.ok payload := by
  cases h with
  | say pc pc' msgType body payload hs hn ht hr hp hb hc => exact ⟨_,_,_,hp⟩
  | greet remote payload hp hsent => exact ⟨_,_,_,hp⟩
  | accept requester job payload hp hsent => exact ⟨_,_,_,hp⟩
  | deliver requester job result payload hp hr hsent => exact ⟨_,_,_,hp⟩
  | report requester job result payload hp hr => exact ⟨_,_,_,hp⟩

/-- What a handler sends, it sealed while its connection was open. -/
theorem serveStep_sealed {loopback : Bool} {pc : ServePc} {payload : Json}
    (hc : ∀args d,pc≠.control args d)
    (h : (serveStep P peer loopback a L pc).2.2=some (.sealed payload)) :
    pc.closed=false ∧ ∃ts msgType body,sealMessage P peer.identity ts msgType body=.ok payload := by
  have hm := serveStep_move P peer loopback a L pc fun args d he => absurd he (hc args d)
  rw [h] at hm
  refine ⟨?_,serveMove_sealed hm⟩
  cases pc with
  | finished => cases h
  | _ => rfl

end Talk

/-- Where a call and the handler of its connection are. -/
structure Points (ι : Type) where
  requester : ι
  args : DelegateArgs
  pc : DelegatePc
  jobId : Option PyStr
  far : Option (ι×Bool×ServePc)

def Session.points {ι : Type} (t : Session ι) : Points ι :=
  ⟨t.requester,t.args,t.pc,t.jobId,t.link.map fun l => (l.acceptor,l.loopback,l.handler)⟩

def TcpSession.points {ι : Type} (t : TcpSession ι) : Points ι :=
  ⟨t.requester,t.args,t.pc,t.jobId,t.link.map fun l => (l.acceptor,l.loopback,l.handler)⟩

variable {P : Platform} {ι : Type} (M : Members P ι)

/-- A connection of bytes and one of messages, whose handlers are at the same point and
whose streams stand for each other, where the call may still talk and still hears. -/
structure LinkMatch (A : ι) (talks hears : Bool) (l : TcpLink ι) (m : Link ι) : Prop where
  acceptor : m.acceptor=l.acceptor
  loopback : m.loopback=l.loopback
  handler : m.handler=l.handler
  toAcceptor : Flows P (M.peer A).identity talks (!l.handler.closed) l.toAcceptor m.toAcceptor
  toRequester : Flows P (M.peer l.acceptor).identity (!l.handler.closed) hears l.toRequester
    m.toRequester

structure SessionMatch (t : TcpSession ι) (u : Session ι) : Prop where
  requester : u.requester=t.requester
  args : u.args=t.args
  pc : u.pc=t.pc
  jobId : u.jobId=t.jobId
  link : Option.Rel (LinkMatch M t.requester t.pc.talks t.pc.talks) t.link u.link

theorem SessionMatch.points {M : Members P ι} {t : TcpSession ι} {u : Session ι}
    (h : SessionMatch M t u) : u.points=t.points := by
  obtain ⟨requester,args,pc,jobId,link⟩ := t
  obtain ⟨requester',args',pc',jobId',link'⟩ := u
  obtain ⟨rfl,rfl,rfl,rfl,hlink⟩ := h
  cases hlink with
  | none => rfl
  | some h =>
    simp only [Session.points,TcpSession.points,Option.map_some,h.acceptor,h.loopback,h.handler]

/-- A swarm over byte streams, and the swarm over messages that it stands for. -/
abbrev SwarmMatch (p : TcpSwarm ι) (q : Swarm ι) : Prop := Pool.Matched (SessionMatch M) p q

section Steps

variable {M} {float : PyStr → PyFloat} {s s' : Exchange ι} {t t' : TcpSession ι} {u : Session ι}
  {c : TcpChoice ι} {a : Answers} {link : Option (TcpLink ι)}

theorem tcpDial_matched (A : ι) (received : Except PyExc Opened) (leak talks hears : Bool)
    (pc : DelegatePc) :
    Option.Rel (LinkMatch M A talks hears) (tcpDial c pc) (dial (c.choice received leak) pc) := by
  unfold tcpDial
  split
  · rename_i job worker
    split_ifs with hr
    · have hd : dial (c.choice received leak) (.active .connect job worker)=none := if_pos hr
      rw [hd]
      exact .none
    · have hd : dial (c.choice received leak) (.active .connect job worker)=
          some ⟨c.acceptor,c.loopback,.start,.empty,.empty⟩ := if_neg hr
      rw [hd]
      exact .some ⟨rfl,rfl,rfl,flows_empty,flows_empty⟩
  · rename_i hpc
    have hd : dial (c.choice received leak) pc=none := by
      unfold dial
      split
      · exact (hpc _ _ rfl).elim
      · rfl
    rw [hd]
    exact .none

theorem SessionMatch.unlinked (hm : SessionMatch M t u) (h : t.link=none) : u.link=none := by
  have hlink := hm.link
  rw [h] at hlink
  cases hu : u.link with
  | none => rfl
  | some m =>
    rw [hu] at hlink
    cases hlink

theorem SessionMatch.linked (hm : SessionMatch M t u) {l : TcpLink ι} (h : t.link=some l) :
    ∃m,u.link=some m ∧ LinkMatch M t.requester t.pc.talks t.pc.talks l m := by
  have hlink := hm.link
  rw [h] at hlink
  cases hu : u.link with
  | none =>
    rw [hu] at hlink
    cases hlink
  | some m =>
    rw [hu] at hlink
    cases hlink with
    | some h => exact ⟨m,rfl,h⟩

theorem SessionMatch.back (hm : SessionMatch M t u) {m : Link ι} (h : u.link=some m) :
    ∃l,t.link=some l ∧ LinkMatch M t.requester t.pc.talks t.pc.talks l m := by
  cases hl : t.link with
  | none => cases h.symm.trans (hm.unlinked hl)
  | some l =>
    obtain ⟨m',hu,hlm⟩ := hm.linked hl
    cases h.symm.trans hu
    exact ⟨l,rfl,hlm⟩

/-- The call reads bytes as it reads messages. -/
theorem SessionMatch.hear (hP : P.ReadsLines float) (hm : SessionMatch M t u) (leak hears : Bool)
    (hh : t.hear P c=some (a,link))
    (ht : hears=true → t.pc.talks=true ∧ (t.pc.listens P=true → ∃o,a.received=.ok o)) :
    ∃link',u.hear P (c.choice a.received leak)=some (a,link') ∧
      Option.Rel (LinkMatch M t.requester t.pc.talks hears) link link' := by
  unfold TcpSession.hear at hh
  unfold Session.hear
  rw [hm.pc]
  cases hl : t.link with
  | none =>
    rw [hl] at hh
    rw [hm.unlinked hl]
    dsimp only at hh ⊢
    split_ifs at hh ⊢ with hlis
    cases hh
    exact ⟨_,rfl,tcpDial_matched ..⟩
  | some l =>
    rw [hl] at hh
    obtain ⟨m,hu,hacc,hloop,hhand,htoA,htoR⟩ := hm.linked hl
    rw [hu]
    cases hh
    have hlis : t.pc.listens P=true → t.pc.talks=true := by
      intro h
      cases hpc : t.pc with
      | settle | refund | finished =>
        rw [hpc] at h
        cases h
      | _ => rfl
    obtain ⟨ch,hch,hflow⟩ := htoR.listen hP hlis leak ht
    refine ⟨some {m with toRequester := ch},by simp [hch],.some ?_⟩
    exact ⟨hacc,hloop,hhand,htoA,hflow⟩

theorem TcpSession.hear_sent (hh : t.hear P c=some (a,link)) : a.sent=c.answers.sent := by
  unfold TcpSession.hear at hh
  split at hh
  · split_ifs at hh
    cases hh
    rfl
  · cases hh
    exact tcpListen_sent ..

variable [DecidableEq ι]

/-- A step of the call over bytes is one over messages. -/
theorem SessionMatch.ask (hP : P.ReadsLines float) (hl : P.Lawful float) (hm : SessionMatch M t u)
    {k : Nat} (hs : ∀payload next,t.ask M s c=some next → next.2.2.2=some (.sealed payload) →
      payload.plain=true ∧ ∀msg,canonicalJson P payload=.ok msg →
        (M.peer t.requester).identity.Signs P msg)
    (h : tcpRequesterStep M k c s t=some (s',t')) : ∃received event u',
      requesterStep M k (c.choice received (leaks P (M.peer t.requester).identity c event)) s u=
        some (s',u') ∧ SessionMatch M t' u' ∧
      ∃next,t.ask M s c=some next ∧ next.2.2.2=event := by
  obtain ⟨next,hask,he⟩ := Option.map_eq_some_iff.mp h
  obtain ⟨⟨a,link⟩,hh,hnext⟩ := Option.map_eq_some_iff.mp hask
  subst hnext
  dsimp only at he hask
  have hmove := delegateStep_move P (M.peer t.requester) t.args a (s.ledgers t.requester) t.pc
  have hsent (payload : Json) := @delegateStep_sent P (M.peer t.requester) a
    (s.ledgers t.requester) t.args t.pc payload
  have hs (payload : Json) := hs payload _ hask
  obtain ⟨L',pc',event,hstep⟩ : ∃L' pc' event,delegateStep P (M.peer t.requester) t.args a
      (s.ledgers t.requester) t.pc=(L',pc',event) := ⟨_,_,_,rfl⟩
  rw [hstep] at he hask hmove hsent hs
  dsimp only at he hmove hsent hs
  let d := c.choice a.received (leaks P (M.peer t.requester).identity c event)
  obtain ⟨link',hhear,hrel⟩ := hm.hear hP (leaks P (M.peer t.requester).identity c event)
    pc'.talks hh (delegateMove_talks hmove)
  cases he
  obtain ⟨requester,args,pc,jobId,ulink⟩ := u
  obtain ⟨rfl,rfl,rfl,rfl,-⟩ := hm
  refine ⟨a.received,event,⟨t.requester,t.args,pc',(t.pc.draws pc').or t.jobId,link'.map fun m =>
    {m with toAcceptor := speak (M.id t.requester) d event m.toAcceptor}⟩,?_,?_,_,hask,rfl⟩
  · simp only [requesterStep,hhear,Option.map_some,hstep]
    rfl
  · refine ⟨rfl,rfl,rfl,rfl,?_⟩
    cases hrel with
    | none => exact .none
    | some hlink =>
      refine .some ⟨hlink.acceptor,hlink.loopback,hlink.handler,?_,hlink.toRequester⟩
      apply hlink.toAcceptor.speak hP hl a.received
      · intro payload hp
        subst hp
        obtain ⟨hsealed,job,worker,hpc⟩ := delegateMove_sealed hmove
        have htalk : t.pc.talks=true := by
          rcases hpc with hpc | hpc <;> rw [hpc] <;> rfl
        obtain ⟨hplain,hsigned⟩ := hs payload rfl
        exact ⟨htalk,rfl,hsealed,hplain,hsigned⟩
      · intro ht
        refine ⟨(delegateMove_talks hmove ht).1,fun payload hp => ?_⟩
        rw [← TcpSession.hear_sent hh]
        exact hsent payload ht hp

/-- A step of the handler over bytes is one over messages. -/
theorem SessionMatch.serve (hP : P.ReadsLines float) (hl : P.Lawful float) (hm : SessionMatch M t u)
    {l : TcpLink ι} (hlink : t.link=some l) (hc : ∀args d,l.handler≠.control args d)
    (hs : ∀payload,(l.serve M s c).2.2.2=some (.sealed payload) → payload.plain=true ∧
      ∀msg,canonicalJson P payload=.ok msg → (M.peer l.acceptor).identity.Signs P msg)
    (h : tcpHandlerStep M c s t=some (s',t')) : ∃received u',
      handlerStep M (c.choice received
        (leaks P (M.peer l.acceptor).identity c (l.serve M s c).2.2.2)) s u=some (s',u') ∧
      SessionMatch M t' u' := by
  rw [tcpHandlerStep,hlink,Option.map_some] at h
  obtain ⟨m,hu,hacc,hloop,hhand,htoA,htoR⟩ := hm.linked hlink
  obtain ⟨heard,hheard⟩ : ∃heard,heard=tcpListen P l.handler.listens c l.toAcceptor := ⟨_,rfl⟩
  obtain ⟨L',pc',event,hstep⟩ : ∃L' pc' event,serveStep P (M.peer l.acceptor) l.loopback heard.1
      (s.ledgers l.acceptor) l.handler=(L',pc',event) := ⟨_,_,_,rfl⟩
  have hserve : l.serve M s c=({l with toAcceptor := heard.2},L',pc',event) := by
    rw [TcpLink.serve,← hheard,hstep]
  have hopen := @serveStep_open P (M.peer l.acceptor) heard.1 (s.ledgers l.acceptor) l.loopback
    l.handler hc
  have hsealed (payload : Json) := @serveStep_sealed P (M.peer l.acceptor) heard.1
    (s.ledgers l.acceptor) l.loopback l.handler payload hc
  rw [hstep] at hopen hsealed
  rw [hserve] at h hs ⊢
  dsimp only at h hs hopen hsealed ⊢
  have stays (ho : (!pc'.closed)=true) := hopen (Bool.not_eq_true' _ ▸ ho)
  have hlis : l.handler.listens=true → (!l.handler.closed)=true := by
    intro h
    cases hpc : l.handler with
    | finished =>
      rw [hpc] at h
      cases h
    | _ => rfl
  let leak := leaks P (M.peer l.acceptor).identity c event
  obtain ⟨ch,hch,hflow⟩ := @Flows.listen P ι float (M.peer t.requester).identity t.pc.talks
    (!l.handler.closed) (!pc'.closed) l.toAcceptor m.toAcceptor c hP htoA l.handler.listens hlis leak
    fun ho => by
      obtain ⟨h1,h2,-⟩ := stays ho
      rw [← hheard]
      exact ⟨by simp [h1],h2⟩
  rw [← hheard] at hch hflow
  cases h
  let d := c.choice heard.1.received leak
  refine ⟨heard.1.received,{u with link := some {m with
    handler := pc'
    toAcceptor := ch
    toRequester := speak (M.id m.acceptor) d event m.toRequester}},?_,?_⟩
  · rw [handlerStep,hu,Option.bind_some,hhand,hch,Option.map_some]
    dsimp only
    rw [hacc,hloop,hstep]
  · refine ⟨hm.requester,hm.args,hm.pc,hm.jobId,.some ⟨hacc,hloop,rfl,hflow,?_⟩⟩
    rw [hacc]
    apply htoR.speak hP hl heard.1.received
    · intro payload hp
      obtain ⟨h1,h2⟩ := hsealed payload hp
      obtain ⟨hplain,hsigned⟩ := hs payload hp
      exact ⟨by simp [h1],rfl,h2,hplain,hsigned⟩
    · intro ho
      obtain ⟨h1,-,h3⟩ := stays ho
      refine ⟨by simp [h1],fun payload hp => ?_⟩
      rw [← tcpListen_sent l.handler.listens c l.toAcceptor,← hheard]
      exact h3 payload hp

end Steps

section Runs

variable {M} {float : PyStr → PyFloat} {leaky : Prop} {p p' : TcpSwarm ι} {q : Swarm ι}

theorem leaks_sealed {me : Identity} {c : TcpChoice ι} {event : Option Event}
    (h : leaks P me c event=true) : ∃payload,event=some (.sealed payload) ∧
      c.answers.sent=false ∧ (wireLine P me ⟨me.peerId P,payload⟩).length ≤ c.wrote+1 := by
  unfold leaks at h
  split at h
  · exact ⟨_,rfl,by simpa using h⟩
  · cases h

/-- The handlers of a swarm never run a call of their own peer. -/
theorem uncontrolled (hq : Pool.Good Books (SessionInv M leaky) q) {k : Nat} {u : Session ι}
    {m : Link ι} (hu : q.threads[k]?=some u) (hm : u.link=some m) (args : DelegateArgs)
    (d : DelegatePc) : m.handler≠.control args d := by
  intro hc
  have hJ := hq.each k u hu
  cases hj : u.jobId with
  | none =>
    rw [(hJ.idle hj).1] at hm
    cases hm
  | some j =>
    have hw := ((hJ.deal j hj).linked m hm).serving.works
    rw [hc] at hw
    exact hw

/-- No delegation and no inbound task is in progress. -/
def TcpQuiescent (p : TcpSwarm ι) : Prop :=
  ∀t∈p.threads,t.pc.returned=true ∧ ∀l∈t.link,l.handler.closed=true

instance (p : TcpSwarm ι) : Decidable (TcpQuiescent p) := by
  unfold TcpQuiescent
  infer_instance

variable [DecidableEq ι]

/-- What one step does over bytes, a step over messages does too. -/
theorem tcp_step (hP : P.ReadsLines float) (hl : P.Lawful float)
    (hq : Pool.Good Books (SessionInv M leaky) q) (hm : SwarmMatch M p q) {act : TcpAction ι}
    (hs : (tcpMachine M).step p act=some p') (hg : TcpLawful M leaky p act p') :
    ∃act' q',(swarmMachine M).step q act'=some q' ∧ Lawful leaky q act' q' ∧ SwarmMatch M p' q' := by
  cases act with
  | delegate b args =>
    cases hs
    refine ⟨.delegate b args,_,rfl,⟨fun k c t h => (by cases h),fun k c h => (by simp at h)⟩,?_⟩
    exact hm.spawn ⟨rfl,rfl,rfl,rfl,.none⟩
  | requester k c =>
    obtain ⟨t,ht,hs⟩ := Option.bind_eq_some_iff.mp hs
    obtain ⟨⟨s',t'⟩,hstep,rfl⟩ := Option.map_eq_some_iff.mp hs
    obtain ⟨u,hu,htu⟩ := hm.thread ht
    obtain ⟨received,event,u',hstep',hmatch,next,hask,hevent⟩ := htu.ask hP hl
      (fun payload next hask he => by
        have hspeaks : Speaks M p (.requester k c) t.requester c payload :=
          ⟨k,t,ht,.inl ⟨rfl,rfl,next,hask,he⟩⟩
        exact ⟨hg.plain _ _ _ hspeaks,hg.signed _ _ _ hspeaks⟩) hstep
    refine ⟨.requester k (c.choice received (leaks P (M.peer t.requester).identity c event)),
      ⟨s',q.threads.set k u'⟩,?_,⟨?_,?_⟩,hm.set k s' hmatch⟩
    · change (q.threads[k]?).bind _=_
      rw [hu,Option.bind_some,hm.shared,hstep']
      rfl
    · intro k' c' v he hv hpc
      cases he
      cases hu.symm.trans hv
      rw [hm.shared]
      exact hg.fresh k c t rfl ht (htu.pc.symm.trans hpc)
    · intro k' c' he hleak
      rcases he with he | he
      · cases he
        obtain ⟨payload,hp,hsent,hlen⟩ := leaks_sealed hleak
        exact hg.unleaked t.requester c payload
          ⟨k,t,ht,.inl ⟨rfl,rfl,next,hask,hevent.trans hp⟩⟩ hsent hlen
      · cases he
  | handler k c =>
    obtain ⟨t,ht,hs⟩ := Option.bind_eq_some_iff.mp hs
    obtain ⟨⟨s',t'⟩,hstep,rfl⟩ := Option.map_eq_some_iff.mp hs
    obtain ⟨u,hu,htu⟩ := hm.thread ht
    obtain ⟨l,hlink,-⟩ := Option.map_eq_some_iff.mp hstep
    obtain ⟨m,hum,hlm⟩ := htu.linked hlink
    have speaks (payload : Json) (he : (l.serve M p.shared c).2.2.2=some (.sealed payload)) :
        Speaks M p (.handler k c) l.acceptor c payload := ⟨k,t,ht,.inr ⟨rfl,l,hlink,rfl,he⟩⟩
    obtain ⟨received,u',hstep',hmatch⟩ := htu.serve hP hl hlink
      (fun args d hc => uncontrolled hq hu hum args d (hlm.handler.trans hc))
      (fun payload he => ⟨hg.plain _ _ _ (speaks payload he),hg.signed _ _ _ (speaks payload he)⟩)
      hstep
    refine ⟨.handler k (c.choice received (leaks P (M.peer l.acceptor).identity c
      (l.serve M p.shared c).2.2.2)),⟨s',q.threads.set k u'⟩,?_,⟨?_,?_⟩,hm.set k s' hmatch⟩
    · change (q.threads[k]?).bind _=_
      rw [hu,Option.bind_some,hm.shared,hstep']
      rfl
    · intro k' c' v he
      cases he
    · intro k' c' he hleak
      rcases he with he | he
      · cases he
      · cases he
        obtain ⟨payload,hp,hsent,hlen⟩ := leaks_sealed hleak
        exact hg.unleaked l.acceptor c payload (speaks payload hp) hsent hlen

theorem tcp_matched (hP : P.ReadsLines float) (hl : P.Lawful float)
    (h : (tcpMachine M).ReachableBy (TcpLawful M leaky) p) :
    ∃q,(swarmMachine M).ReachableBy (Lawful leaky) q ∧ SwarmMatch M p q := by
  refine Machine.ReachableBy.simulated ?_ ?_ h
  · intro p hp
    cases hp
    exact ⟨.start,rfl,Pool.matched_empty _⟩
  · intro p act p' q hq hm hs hg
    exact .inr (tcp_step hP hl (swarm_good M hq) hm hs hg)

/-- Over connections that carry bytes, which time out, break, end inside a line or lose
part of one, a swarm does what it does with whole messages: for every state that it
reaches, one that the message passing swarm reaches has the same books, and all calls and
handlers at the same points. -/
theorem tcp_refines (hP : P.ReadsLines float) (hl : P.Lawful float)
    (h : (tcpMachine M).ReachableBy (TcpLawful M leaky) p) :
    ∃q,(swarmMachine M).ReachableBy (Lawful leaky) q ∧ q.shared=p.shared ∧
      q.threads.map Session.points=p.threads.map TcpSession.points := by
  obtain ⟨q,hq,hm⟩ := tcp_matched hP hl h
  refine ⟨q,hq,hm.shared,?_⟩
  have hpoints : List.Forall₂ (fun x y => x=y) (q.threads.map Session.points)
      (p.threads.map TcpSession.points) := by
    rw [List.forall₂_map_left_iff,List.forall₂_map_right_iff]
    exact (hm.threads.imp fun _ _ h => h.points).flip
  exact List.forall₂_eq_eq_eq ▸ hpoints

omit [DecidableEq ι] in
theorem SwarmMatch.quiescent (hm : SwarmMatch M p q) (hp : TcpQuiescent p) : Quiescent q := by
  intro u hu
  obtain ⟨k,hk⟩ := List.getElem?_of_mem hu
  obtain ⟨t,ht,hmatch⟩ := hm.back hk
  obtain ⟨hdone,hclosed⟩ := hp t (List.mem_of_getElem? ht)
  refine ⟨by rw [hmatch.pc]; exact hdone,?_⟩
  intro m hum
  obtain ⟨l,hl,hlm⟩ := hmatch.back hum
  rw [hlm.handler]
  exact hclosed l hl

/-- The jobs that B did for A and that A has not paid. -/
def Exchange.owed (M : Members P ι) (s : Exchange ι) (A B : ι) : Finset PyStr :=
  workedFor (s.ledgers B) (M.id A).val \ settledFor (s.ledgers A) (M.id B).val

/-- The books of two peers agree over connections of bytes too, as long as no sendall
that raises has sent the whole text: once nothing is in progress, B has booked all that A
has paid it, and the two accounts differ by the work that was done and not paid. -/
theorem tcp_ledgers_reconcile (hP : P.ReadsLines float) (hl : P.Lawful float)
    (h : (tcpMachine M).ReachableBy (TcpLawful M False) p) (hq : TcpQuiescent p) (A B : ι) :
    settledFor (p.shared.ledgers A) (M.id B).val ⊆ workedFor (p.shared.ledgers B) (M.id A).val ∧
    (p.shared.ledgers A).balance (M.id B).val+(p.shared.ledgers B).balance (M.id A).val=
      -(((p.shared.owed M A B).card : Int)+(p.shared.owed M B A).card) := by
  obtain ⟨q,hreach,hm⟩ := tcp_matched hP hl h
  have hbooks := reconciled (swarm_good M hreach) (swarm_accounts hreach) (hm.quiescent hq) A B
  simp only [unpaidTo,hm.shared] at hbooks
  exact hbooks

end Runs

section Sample

/-- A requester, and a worker that has an agent CLI. -/
def streamMembers : Members parsingPlatform Bool where
  peer b := if b then claudePeer else samplePeer
  distinct := by
    have h : claudePeer.identity.peerId parsingPlatform≠
        samplePeer.identity.peerId parsingPlatform := by
      decide
    intro a b hab
    cases a <;> cases b
    · rfl
    · exact absurd hab.symm h
    · exact absurd hab h
    · rfl

/-- A step at the time of a message, where the stream that is read has the first n bytes. -/
def streamChoice (m : Signed) (n : Nat) : TcpChoice Bool where
  answers := {sampleAnswers with
    ts := m.ts
    host := {claudeHost with launch := fun _ => .exited 0 (lit "s[::-1]") []}}
  acceptor := true
  loopback := false
  read := .upTo n
  wrote := 0

/-- One delegation. The stream to the requester ends before its last newline. -/
def streamSession : List (TcpAction Bool) :=
  let asks := fun m => TcpAction.requester 0 (streamChoice m 1294)
  let serves := fun m => TcpAction.handler 0 (streamChoice m 885)
  [.delegate false sampleArgs]++List.replicate 5 (asks requesterHandshake)++
  List.replicate 3 (serves workerHandshake)++List.replicate 2 (asks requesterOffer)++
  List.replicate 2 (serves workerAccept)++List.replicate 3 (serves workerResult)++
  List.replicate 3 (asks requesterOffer)

def streamStart : TcpSwarm Bool := ⟨⟨fun _ => Ledger.fresh,fun _ => none⟩,[]⟩

def streamSwarm : TcpSwarm Bool :=
  ((tcpMachine streamMembers).run streamStart streamSession).getD streamStart

/-- What a peer says is plain JSON under a good signature, and it is sent. -/
def wellSaid (me : Identity) (sent : Bool) : Option Event → Bool
  | some (.sealed payload) => sent && payload.plain && me.pubkey.length=32 &&
    (canonicalJson parsingPlatform payload).toOption.all fun msg => (me.sign msg).length=64 &&
      parsingPlatform.verify me.pubkey msg (me.sign msg)
  | _ => true

def tcpOrderly (p : TcpSwarm Bool) : TcpAction Bool → Bool
  | .delegate _ _ => true
  | .requester k c => (p.threads[k]?).all fun t =>
    ((t.pc.draws (.escrow sampleJob (workerRow 5))).isNone ||
      (p.shared.drawnBy c.answers.uuid).isNone) &&
    (t.ask streamMembers p.shared c).all fun next =>
      wellSaid (streamMembers.peer t.requester).identity c.answers.sent next.2.2.2
  | .handler k c => (p.threads[k]?).all fun t => t.link.all fun l =>
    wellSaid (streamMembers.peer l.acceptor).identity c.answers.sent
      (l.serve streamMembers p.shared c).2.2.2

theorem wellSaid_sealed {me : Identity} {sent : Bool} {payload : Json}
    (h : wellSaid me sent (some (.sealed payload))=true) : sent=true ∧ payload.plain=true ∧
      ∀msg,canonicalJson parsingPlatform payload=.ok msg → me.Signs parsingPlatform msg := by
  simp only [wellSaid,Bool.and_eq_true,decide_eq_true_eq] at h
  obtain ⟨⟨⟨hsent,hplain⟩,hkey⟩,hmsg⟩ := h
  refine ⟨hsent,hplain,fun msg hm => ?_⟩
  rw [hm] at hmsg
  simp only [Except.toOption,Option.all_some,Bool.and_eq_true,decide_eq_true_eq] at hmsg
  exact ⟨hkey,hmsg.1,hmsg.2⟩

theorem tcpLawful_of_orderly (p : TcpSwarm Bool) (act : TcpAction Bool) (q : TcpSwarm Bool)
    (h : tcpOrderly p act=true) : TcpLawful streamMembers False p act q := by
  have said {b : Bool} {c : TcpChoice Bool} {payload : Json}
      (hs : Speaks streamMembers p act b c payload) : c.answers.sent=true ∧ payload.plain=true ∧
        ∀msg,canonicalJson parsingPlatform payload=.ok msg →
          (streamMembers.peer b).identity.Signs parsingPlatform msg := by
    obtain ⟨k,t,ht,⟨rfl,rfl,next,hask,he⟩ | ⟨rfl,l,hl,rfl,he⟩⟩ := hs
    · have h := (Bool.and_eq_true_iff.mp ((Option.all_eq_true ..).mp h t ht)).2
      rw [hask,Option.all_some,he] at h
      exact wellSaid_sealed h
    · rw [tcpOrderly,ht,Option.all_some,hl,Option.all_some,he] at h
      exact wellSaid_sealed h
  refine ⟨?_,fun b c payload hs => (said hs).2.1,fun b c payload hs => (said hs).2.2,?_⟩
  · intro k c t hact ht hpc
    subst hact
    rw [tcpOrderly,ht,Option.all_some,hpc] at h
    exact Option.isNone_iff_eq_none.mp (Bool.and_eq_true_iff.mp h).1
  · intro b c payload hs hsent
    cases hsent.symm.trans (said hs).1

theorem stream_checked : ((tcpMachine streamMembers).run streamStart streamSession).isSome=true ∧
    (tcpMachine streamMembers).checks tcpOrderly streamStart streamSession=true ∧
    TcpQuiescent streamSwarm := by
  decide +kernel

theorem stream_reachable :
    (tcpMachine streamMembers).ReachableBy (TcpLawful streamMembers False) streamSwarm :=
  Machine.ReachableBy.of_checks _ tcpLawful_of_orderly rfl stream_checked.1 stream_checked.2.1

theorem tcp_refines_sample : ∃q,(swarmMachine streamMembers).ReachableBy (Lawful False) q ∧
    q.shared=streamSwarm.shared ∧
      q.threads.map Session.points=streamSwarm.threads.map TcpSession.points :=
  tcp_refines parsing_readsLines parsing_lawful stream_reachable

theorem tcp_ledgers_reconcile_sample :
    settledFor (streamSwarm.shared.ledgers false) (streamMembers.id true).val ⊆
      workedFor (streamSwarm.shared.ledgers true) (streamMembers.id false).val ∧
    (streamSwarm.shared.ledgers false).balance (streamMembers.id true).val+
        (streamSwarm.shared.ledgers true).balance (streamMembers.id false).val=
      -(((streamSwarm.shared.owed streamMembers false true).card : Int)+
        (streamSwarm.shared.owed streamMembers true false).card) :=
  tcp_ledgers_reconcile parsing_readsLines parsing_lawful stream_reachable stream_checked.2.2
    false true

end Sample

end AgentTorrent
