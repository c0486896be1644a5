import AgentTorrent.Swarm.Runs

open Framework

namespace AgentTorrent

/-- The dict of a call that was not paid for. -/
def Unpaid (job : Job) (outcome : Except PyExc DelegateResult) : Prop :=
  ∃worker,(∃error,outcome=.ok (.rejected job.id worker error)) ∨
    ∃error,outcome=.ok (.failed job.id worker error)

/-- What a finished call returned, beside the requester's records of its job. -/
def Over (job : Job) (Q : JobResult → Prop) (rs : List Record)
    (outcome : Except PyExc DelegateResult) : Prop :=
  (∃worker r,Q r ∧ r.status=.ok ∧ outcome=.ok (delivered job worker r.toJson) ∧
    rs=[escrowRecord job.id worker.peerId.val,settleRecord job.id worker.peerId.val]) ∨
  (Unpaid job outcome ∧ ∃w,rs=[escrowRecord job.id w,refundRecord job.id]) ∨ rs=[]

/-- From its draw on the call is about one job, and settles for its results only. -/
def DelegatePc.Keeps (job : Job) (Q : JobResult → Prop) (rs : List Record) : DelegatePc → Prop
  | .escrow own _ | .active _ own _ => own=job
  | .settle own _ result => own=job ∧ ∃r,Q r ∧ r.status=.ok ∧ result=r.toJson
  | .refund own _ outcome => own=job ∧ Unpaid job outcome
  | .finished outcome => Over job Q rs outcome
  | _ => False

/-- The handler works on one job, and reports its results only. -/
def ServePc.Keeps (job : Job) (Q : JobResult → Prop) : ServePc → Prop
  | .rejectSend body => ∃reason,body=reasonBody reason ∨ body=jobReasonBody job reason
  | .acceptSend _ own | .execute _ own | .credit _ own => own=job
  | .resultSend _ own r => own=job ∧ Q r
  | .control _ _ | .controlSend _ | .listPeers | .listLedger => False
  | _ => True

/-- A message of the requester: no command, and no offer but that of the job. -/
structure Asks (job : Job) (o : Opened) : Prop where
  request : o.msgType≠msgControl
  offer : o.msgType=msgTaskOffer → o.body=some (offerBody job)

/-- A message of the worker: its body can be logged, and a result is one of the job. -/
structure Replies (P : Platform) (job : Job) (Q : JobResult → Prop) (o : Opened) : Prop where
  body : ∃b,o.body=some b ∧ summarize P b=.ok ()
  result : o.msgType=msgTaskResult → ∃r,Q r ∧ o.body=some (resultBody job r)

/-- What a read comes to: a failure that has a handler, or a reply. -/
def FairRead (P : Platform) (job : Job) (Q : JobResult → Prop)
    (received : Except PyExc Opened) : Prop :=
  (∃e,received=.error e ∧ e.isProtocolError=true) ∨ ∃o,received=.ok o ∧ Replies P job Q o

/-- Nothing that a step of the call meets raises what delegate does not handle. -/
structure Gentle (P : Platform) (peer : Peer) (job : Job) (a : Answers) : Prop where
  named : a.connecting≠.noPeername
  greets : ∃payload,sealMessage P peer.identity a.ts msgHandshake (.obj [])=.ok payload
  offers : ∃payload,sealMessage P peer.identity a.ts msgTaskOffer (offerBody job)=.ok payload
  waits : P.timeoutFits job.maxRuntimeSeconds.val=true

section Requester

variable {P : Platform} {job : Job} {Q : JobResult → Prop} {peer : Peer} {a : Answers}
  {worker : PeerInfo} {rs : List Record}

theorem giveUp_keeps {e : PyExc} (h : e.isProtocolError=true) :
    (giveUp P job worker e).Keeps job Q rs := by
  cases e with
  | protocolError why => exact ⟨rfl,worker.peerId,.inr ⟨_,rfl⟩⟩
  | _ => cases h

/-- Of a fair read recv makes a reply, or it raises what has a handler. -/
theorem recv_fair {remote : Option PeerId} {expected : List PyStr}
    (h : FairRead P job Q a.received) :
    (∃e,recv P remote expected a.received=.error e ∧ e.isProtocolError=true) ∨
      ∃o,recv P remote expected a.received=.ok o ∧ Replies P job Q o := by
  rcases h with ⟨e,he,hp⟩ | ⟨o,ho,hr⟩
  · exact .inl ⟨e,by rw [he]; rfl,hp⟩
  · obtain ⟨b,hb,hs⟩ := hr.body
    rw [ho]
    simp only [recv,recvChecked,hb,Option.getD_some,hs]
    split_ifs
    · exact .inl ⟨_,rfl,rfl⟩
    · exact .inr ⟨o,rfl,hr⟩
    · exact .inl ⟨_,rfl,rfl⟩

theorem delegateSend_keeps {msgType : PyStr} {body : Json} {next : Phase}
    (h : ∃payload,sealMessage P peer.identity a.ts msgType body=.ok payload) :
    (delegateSend P peer a job worker msgType body next).1.Keeps job Q rs := by
  obtain ⟨payload,hp⟩ := h
  simp only [delegateSend,hp]
  split_ifs
  · rfl
  · exact giveUp_keeps rfl

/-- A result of the job is settled or reported as a failure. -/
theorem judge_keeps {o : Opened} {r : JobResult} (hb : o.body=some (resultBody job r)) (hr : Q r) :
    (judge P job worker o.payload).Keeps job Q rs := by
  have hi : o.payload.item (lit "body")=.ok (resultBody job r) := (Json.item_ok_iff _ _ _).mpr hb
  have h1 : (resultBody job r).getD (lit "result") (.obj [])=.ok r.toJson := rfl
  have h2 : r.toJson.getD (lit "job_id") .null=.ok (.str r.jobId) := rfl
  have h3 : r.toJson.get? (lit "status")=some (.str r.status.text) := rfl
  simp only [judge,hi,h1,h2,h3]
  split_ifs with hj hs
  · refine ⟨rfl,r,hr,?_,rfl⟩
    have ht := (Json.isStr_iff _ _).mp hs
    cases hst : r.status with
    | ok => rfl
    | error =>
      rw [hst] at ht
      exact absurd (Json.str.inj ht) (by decide)
  · refine ⟨rfl,worker.peerId,
      .inr ⟨lit "worker reported failure: "++(P.str (.str r.output)).take 500,?_⟩⟩
    have ho : r.toJson.get? (lit "output")=some (.str r.output) := rfl
    have hp : P.pyStr (.str r.output)=.ok () := by simp [Platform.pyStr,Json.depth]
    simp only [reportedFailure,ho,Option.getD_some,hp]
  · exact giveUp_keeps rfl

/-- Between escrow and close a call that meets nothing worse than what it handles goes on,
gives the escrow back, or settles for a result of its job. -/
theorem activeStep_keeps {ph : Phase} (hg : Gentle P peer job a)
    (hr : ph.listens=true → FairRead P job Q a.received) :
    (activeStep P peer a job worker ph).1.Keeps job Q rs := by
  cases ph with
  | connect =>
    simp only [activeStep]
    cases hc : a.connecting with
    | refused =>
      have hp : (PyExc.protocolError .cannotConnect).isProtocolError=true := rfl
      exact giveUp_keeps hp
    | noPeername => exact absurd hc hg.named
    | connected => rfl
  | handshakeSend => exact delegateSend_keeps hg.greets
  | handshakeRecv =>
    simp only [activeStep]
    rcases recv_fair (hr rfl) with ⟨e,he,hp⟩ | ⟨o,ho,-⟩
    · rw [he]
      exact giveUp_keeps hp
    · rw [ho]
      dsimp only
      split_ifs
      · have hp : (PyExc.protocolError (.wrongPeer o.sender worker.peerId)).isProtocolError=true := rfl
        exact giveUp_keeps hp
      · rfl
  | offerSend => exact delegateSend_keeps hg.offers
  | offerRecv =>
    simp only [activeStep]
    rcases recv_fair (hr rfl) with ⟨e,he,hp⟩ | ⟨o,ho,hreply⟩
    · rw [he]
      exact giveUp_keeps hp
    · rw [ho]
      dsimp only
      split_ifs
      · obtain ⟨b,hb,-⟩ := hreply.body
        have hi : o.payload.item (lit "body")=.ok b := (Json.item_ok_iff _ _ _).mpr hb
        have hobj := (recv_ok P ho).2.2.2 b hb
        cases b with
        | obj ms =>
          refine ⟨rfl,worker.peerId,
            .inl ⟨(ms.lookup (lit "reason")).getD (.str (lit "rejected without reason")),?_⟩⟩
          simp only [rejection,hi,Json.getD]
        | _ => cases hobj
      · rfl
  | resultRecv =>
    simp only [activeStep,hg.waits,not_true_eq_false,if_false]
    rcases recv_fair (hr rfl) with ⟨e,he,hp⟩ | ⟨o,ho,hreply⟩
    · rw [he]
      exact giveUp_keeps hp
    · rw [ho]
      have ht : o.msgType=msgTaskResult := by simpa using (recv_ok P ho).2.2.1
      obtain ⟨r,hq,hb⟩ := hreply.result ht
      exact judge_keeps hb hq

/-- A step of the call keeps its terms. -/
theorem delegateMove_keeps {args : DelegateArgs} {L L' : Ledger} {pc pc' : DelegatePc}
    {event : Option Event} (hm : DelegateMove P peer a L pc L' pc' event)
    (hx : pc'=(delegateStep P peer args a L pc).2.1) (hk : pc.Keeps job Q (L.jobRecords job.id))
    (hb : pc.Booked job.id (L.jobRecords job.id))
    (hg : ∀ph own worker,pc=.active ph own worker → Gentle P peer job a ∧
      (ph.listens=true → FairRead P job Q a.received)) :
    pc'.Keeps job Q (L'.jobRecords job.id) := by
  have active {ph : Phase} {own : Job} {worker : PeerInfo} (hpc : pc=.active ph own worker)
      (rs : List Record) : pc'.Keeps job Q rs := by
    subst hpc
    have hown : own=job := hk
    subst hown
    obtain ⟨hgentle,hfair⟩ := hg ph own worker rfl
    rw [hx]
    exact activeStep_keeps hgentle hfair
  cases hm with
  | begin => exact hk.elim
  | chosen => exact hk.elim
  | refuse pc o he ho =>
    refine .inr (.inr ?_)
    cases pc with
    | start | choose | escrow => exact hb
    | _ => cases he
  | escrow own worker hbal hj => exact hk
  | go own worker ph pc' hn => exact active rfl _
  | greet own worker pc' payload hn hp => exact active rfl _
  | offer own worker pc' payload hn hp => exact active rfl _
  | settle own worker result ho =>
    obtain ⟨rfl,r,hq,hst,rfl⟩ := hk
    have hb : L.jobRecords own.id=[escrowRecord own.id worker.peerId.val] := hb
    exact .inl ⟨worker,r,hq,hst,rfl,by simp [hb,settleRecord]⟩
  | refund own worker o ho =>
    obtain ⟨rfl,hu⟩ := hk
    have hb : L.jobRecords own.id=[escrowRecord own.id worker.peerId.val] := hb
    exact .inr (.inl ⟨hu,worker.peerId.val,by simp [hb,refundRecord]⟩)
  | unclosed pc own e ho hn =>
    -- A call that owns an escrow finds it open.
    have owned {j : Job} {w : PyStr} {Q : Prop} (ho : some j.id=some own.id) (he : j=job)
        (hb : L.jobRecords job.id=[escrowRecord job.id w]) : Q := by
      have hid : own.id=job.id := (Option.some.inj ho).symm.trans (congrArg Job.id he)
      exact absurd (hid ▸ isOpen_of_booked hb) hn
    cases pc with
    | active => exact owned ho hk hb
    | settle | refund => exact owned ho hk.1 hb
    | _ => cases ho
  | stay o => exact hk

/-- What the call sends is its greeting or the offer of its job. -/
theorem delegateMove_asks {L L' : Ledger} {pc pc' : DelegatePc} {event : Option Event}
    (hm : DelegateMove P peer a L pc L' pc' event) (hk : pc.Keeps job Q rs) {payload : Json}
    (he : event=some (.sealed payload)) (me : PeerId) : Asks job ⟨me,payload⟩ := by
  cases hm with
  | greet own worker pc' payload hn hp =>
    cases he
    have ht : Opened.msgType ⟨me,payload⟩=msgHandshake := sealMessage_type hp
    exact ⟨by rw [ht]; decide,fun h => absurd (ht.symm.trans h) (by decide)⟩
  | offer own worker pc' payload hn hp =>
    cases he
    have hown : own=job := hk
    subst hown
    have ht : Opened.msgType ⟨me,payload⟩=msgTaskOffer := sealMessage_type hp
    obtain ⟨rfl,-⟩ := sealMessage_ok P hp
    exact ⟨by rw [ht]; decide,fun _ => rfl⟩
  | _ => cases he

end Requester

section Handler

variable {P : Platform} {job : Job} {Q : JobResult → Prop} {peer : Peer} {a : Answers}

theorem hangUp_keeps (e : PyExc) : (hangUp e).Keeps job Q := by
  cases e <;> trivial

theorem pyStrs_texts (P : Platform) (texts : List PyStr) : pyStrs P (texts.map .str)=.ok () := by
  induction texts with
  | nil => rfl
  | cons t texts ih =>
    have ht : P.pyStr (.str t)=.ok () := by simp [Platform.pyStr,Json.depth]
    simp only [List.map_cons,pyStrs,ht,ih]

/-- What a step of the handler makes of its connection. -/
def Reported (P : Platform) (job : Job) (Q : JobResult → Prop) (next : ServePc×Option Event) : Prop :=
  next.1.Keeps job Q ∧ ∀payload,next.2=some (.sealed payload) → ∀me,Replies P job Q ⟨me,payload⟩

theorem quiet_reported {pc : ServePc} (h : pc.Keeps job Q) : Reported P job Q (pc,none) :=
  ⟨h,fun _ he => nomatch he⟩

theorem serveSend_reported {msgType : PyStr} {body : Json} {next : ServePc}
    (hn : next.Keeps job Q) (hs : summarize P body=.ok ())
    (hr : msgType=msgTaskResult → ∃r,Q r ∧ body=resultBody job r) :
    Reported P job Q (serveSend P peer a msgType body next) := by
  unfold serveSend
  cases hp : sealMessage P peer.identity a.ts msgType body with
  | error e => exact quiet_reported (hangUp_keeps e)
  | ok payload =>
    refine ⟨?_,?_⟩
    · dsimp only
      split_ifs
      · exact hn
      · trivial
    · intro p he me
      cases he
      have ht : Opened.msgType ⟨me,payload⟩=msgType := sealMessage_type hp
      obtain ⟨rfl,-⟩ := sealMessage_ok P hp
      refine ⟨⟨body,rfl,hs⟩,?_⟩
      intro h
      obtain ⟨r,hq,rfl⟩ := hr (ht.symm.trans h)
      exact ⟨r,hq,rfl⟩

theorem refuseJob_keeps (job : Job) (Q : JobResult → Prop) : (refuseJob P peer job).Keeps job Q := by
  simp only [refuseJob]
  split_ifs
  all_goals first | exact ⟨_,.inr rfl⟩ | exact hangUp_keeps _

/-- The offer of the job leads to its acceptance or to a refusal. -/
theorem considerOffer_keeps {requester : PeerId} {o : Opened} (h : o.body=some (offerBody job)) :
    (considerOffer P peer requester o).Keeps job Q := by
  have hj : (o.body.getD (.obj [])).getD (lit "job") .null=.ok job.toJson := by
    rw [h]
    rfl
  simp only [considerOffer,hj]
  split_ifs
  · exact ⟨_,.inl rfl⟩
  · rw [validateJob_toJson]
    dsimp only
    split_ifs
    · rfl
    · exact refuseJob_keeps job Q

/-- What the handler hears after the handshake is the offer of the job, or nothing that
makes it send. -/
theorem requestRecv_reported {loopback : Bool} {L : Ledger} {remote : PeerId}
    (hr : ∀o,a.received=.ok o → Asks job o) :
    Reported P job Q (serveStep P peer loopback a L (.requestRecv remote)).2 := by
  simp only [serveStep]
  split
  · exact quiet_reported (hangUp_keeps _)
  · rename_i o ho
    obtain ⟨ha,-,ht,-⟩ := recv_ok P ho
    obtain ⟨hreq,hoffer⟩ := hr o ha
    have ht : o.msgType=msgTaskOffer := by simpa [hreq] using ht
    have hd : dispatch P peer loopback remote o=considerOffer P peer remote o := if_neg hreq
    have hc : (considerOffer P peer remote o).Keeps job Q := considerOffer_keeps (hoffer ht)
    rw [hd]
    refine ⟨hc,?_⟩
    intro payload he
    dsimp only at he
    cases hpc : considerOffer P peer remote o with
    | control args pc =>
      rw [hpc] at hc
      exact hc.elim
    | _ =>
      rw [hpc] at he
      cases he

/-- A step of the handler keeps its terms, where an execution comes to what it may. -/
theorem serveStep_keeps {loopback : Bool} {L : Ledger} {pc : ServePc} (hk : pc.Keeps job Q)
    (hr : pc.listens=true → ∀o,a.received=.ok o → Asks job o)
    (hx : ∀requester r,pc=.execute requester job → executeJob P peer a.host job=.ok r → Q r) :
    Reported P job Q (serveStep P peer loopback a L pc).2 := by
  cases pc with
  | start =>
    simp only [serveStep]
    split_ifs
    · exact quiet_reported trivial
    · exact quiet_reported trivial
  | handshakeRecv =>
    simp only [serveStep]
    split
    · exact quiet_reported (hangUp_keeps _)
    · exact quiet_reported trivial
  | handshakeSend remote =>
    exact serveSend_reported trivial rfl fun h => absurd h (by decide)
  | requestRecv remote =>
    exact requestRecv_reported fun o ho => hr rfl o ho
  | rejectSend body =>
    obtain ⟨reason,hb⟩ := hk
    have hs : summarize P body=.ok () := by
      rcases hb with rfl | rfl
      · exact pyStrs_texts P [reason]
      · exact pyStrs_texts P [job.id,reason]
    exact serveSend_reported trivial hs fun h => absurd h (by decide)
  | acceptSend requester own =>
    have hown : own=job := hk
    subst hown
    have hs : summarize P (acceptBody own)=.ok () := pyStrs_texts P [own.id]
    exact serveSend_reported rfl hs fun h => absurd h (by decide)
  | execute requester own =>
    have hown : own=job := hk
    subst hown
    simp only [serveStep]
    cases he : executeJob P peer a.host own with
    | error e =>
      refine ⟨hangUp_keeps e,?_⟩
      intro payload h
      cases h
    | ok r =>
      refine ⟨⟨rfl,hx requester r rfl he⟩,?_⟩
      intro payload h
      cases h
  | resultSend requester own r =>
    obtain ⟨hown,hq⟩ := hk
    subst hown
    refine serveSend_reported ?_ (summarize_resultBody own r) fun _ => ⟨r,hq,rfl⟩
    split_ifs
    · rfl
    · trivial
  | credit requester own =>
    simp only [serveStep]
    split
    · refine ⟨trivial,?_⟩
      intro payload h
      cases h
    · exact quiet_reported trivial
    · exact quiet_reported (hangUp_keeps _)
  | finished escaped => exact quiet_reported trivial
  | _ => exact hk.elim

end Handler

/-- Both directions of a connection and its handler are about one job. -/
structure Conversation (P : Platform) (job : Job) (Q : JobResult → Prop) {ι : Type} (l : Link ι) :
    Prop where
  asks : ∀o∈l.toAcceptor.written,Asks job o
  handler : l.handler.Keeps job Q
  replies : ∀o∈l.toRequester.written,Replies P job Q o

/-- The job that a call drew, and what its call, its connection and its handler have to
do with it. Q says which results a worker may report. -/
structure Terms (P : Platform) (job : Job) {ι : Type} (Q : ι → JobResult → Prop)
    (rs : List Record) (t : Session ι) : Prop where
  drawn : newJob job.id t.args=.ok job
  call : t.pc.Keeps job (fun r => ∃l,t.link=some l ∧ Q l.acceptor r) rs
  link : ∀l,t.link=some l → Conversation P job (Q l.acceptor) l

section Weaker

variable {P : Platform} {job : Job} {Q Q' : JobResult → Prop} {rs : List Record}

theorem DelegatePc.Keeps.mono (h : ∀r,Q r → Q' r) {pc : DelegatePc} (hk : pc.Keeps job Q rs) :
    pc.Keeps job Q' rs := by
  cases pc with
  | settle own worker result =>
    obtain ⟨hown,r,hq,hr⟩ := hk
    exact ⟨hown,r,h r hq,hr⟩
  | finished outcome =>
    rcases hk with ⟨worker,r,hq,hr⟩ | hk
    · exact .inl ⟨worker,r,h r hq,hr⟩
    · exact .inr hk
  | _ => exact hk

theorem ServePc.Keeps.mono (h : ∀r,Q r → Q' r) {pc : ServePc} (hk : pc.Keeps job Q) :
    pc.Keeps job Q' := by
  cases pc with
  | resultSend requester own r => exact ⟨hk.1,h r hk.2⟩
  | _ => exact hk

theorem Replies.mono (h : ∀r,Q r → Q' r) {o : Opened} (ho : Replies P job Q o) :
    Replies P job Q' o where
  body := ho.body
  result ht := by
    obtain ⟨r,hq,hr⟩ := ho.result ht
    exact ⟨r,h r hq,hr⟩

theorem Terms.mono {ι : Type} {Q Q' : ι → JobResult → Prop} {t : Session ι}
    (h : ∀b r,Q b r → Q' b r) (hT : Terms P job Q rs t) : Terms P job Q' rs t where
  drawn := hT.drawn
  call := hT.call.mono fun r hr => by
    obtain ⟨l,hl,hq⟩ := hr
    exact ⟨l,hl,h l.acceptor r hq⟩
  link l hl := by
    obtain ⟨ha,hh,hr⟩ := hT.link l hl
    exact ⟨ha,hh.mono (h l.acceptor),fun o ho => (hr o ho).mono (h l.acceptor)⟩

end Weaker

section Steps

variable {P : Platform} {job : Job} {ι : Type} {Q : ι → JobResult → Prop} {rs : List Record}
  {peer : Peer} {a : Answers} {L L' : Ledger} {c : Choice ι} {t : Session ι} {l : Link ι}
  {ch : Channel Opened}

theorem listen_answers {reads : Bool} {ch' : Channel Opened}
    (h : listen reads c ch=some (a,ch')) :
    a={c.answers with received := a.received} := by
  unfold listen at h
  split_ifs at h
  · split at h
    · cases h
      rfl
    · obtain ⟨r,-,he⟩ := Option.map_eq_some_iff.mp h
      cases he
      rfl
  · cases h
    rfl

theorem Gentle.of_hear {link : Option (Link ι)} (hh : t.hear P c=some (a,link))
    (hg : Gentle P peer job c.answers) : Gentle P peer job a := by
  have ha : a={c.answers with received := a.received} := by
    unfold Session.hear at hh
    split at hh
    · split_ifs at hh
      cases hh
      rfl
    · obtain ⟨r,hl,he⟩ := Option.map_eq_some_iff.mp hh
      cases he
      exact listen_answers hl
  rw [ha]
  exact ⟨hg.named,hg.greets,hg.offers,hg.waits⟩

/-- A call that keeps its terms reads nothing but replies to them. -/
theorem Terms.reads {link : Option (Link ι)} {ph : Phase} {own : Job} {worker : PeerInfo}
    (hT : Terms P job Q rs t) (hh : t.hear P c=some (a,link)) (hpc : t.pc=.active ph own worker)
    (hg : Gentle P peer job c.answers) (hf : ∀e,c.fault=some e → e.isProtocolError=true)
    (hl : ph.listens=true) :
    FairRead P job (fun r => ∃l,t.link=some l ∧ Q l.acceptor r) a.received := by
  have hown : own=job := by
    have hk := hT.call
    rw [hpc] at hk
    exact hk
  have hlis : t.pc.listens P=true := by
    rw [hpc,hown]
    cases ph with
    | resultRecv => exact hg.waits
    | _ => exact hl
  unfold Session.hear at hh
  split at hh
  · rw [if_pos hlis] at hh
    cases hh
  · rename_i l hlink
    obtain ⟨r,hr,he⟩ := Option.map_eq_some_iff.mp hh
    cases he
    simp only [listen,hlis,if_true] at hr
    split at hr
    · rename_i e he
      cases hr
      exact .inl ⟨e,rfl,hf e he⟩
    · obtain ⟨m,hm,he⟩ := Option.map_eq_some_iff.mp hr
      cases he
      have hget := (Channel.take_some hm).1
      have hreply := (hT.link l hlink).replies m.1 (List.mem_of_getElem? hget)
      exact .inr ⟨m.1,rfl,hreply.mono fun r hq => ⟨l,hlink,hq⟩⟩

/-- A step of the call keeps the terms. -/
theorem Terms.requester {link : Option (Link ι)} {pc' : DelegatePc} {event : Option Event}
    (hT : Terms P job Q (L.jobRecords job.id) t)
    (hb : t.pc.Booked job.id (L.jobRecords job.id)) (hh : t.hear P c=some (a,link))
    (hm : DelegateMove P peer a L t.pc L' pc' event)
    (hx : pc'=(delegateStep P peer t.args a L t.pc).2.1)
    (hg : ∀ph own worker,t.pc=.active ph own worker → Gentle P peer job c.answers ∧
      ∀e,c.fault=some e → e.isProtocolError=true) (jobId : Option PyStr) (me : PeerId) :
    Terms P job Q (L'.jobRecords job.id) {t with
      pc := pc'
      jobId := jobId
      link := link.map fun l => {l with toAcceptor := speak me c event l.toAcceptor}} := by
  have hcall := hT.call
  have hkeeps : pc'.Keeps job (fun r => ∃l,t.link=some l ∧ Q l.acceptor r)
      (L'.jobRecords job.id) :=
    delegateMove_keeps hm hx hcall hb fun ph own worker hpc => by
      obtain ⟨hgentle,hf⟩ := hg ph own worker hpc
      exact ⟨hgentle.of_hear hh,hT.reads hh hpc hgentle hf⟩
  have asks {ch : Channel Opened} (hch : ∀o∈ch.written,Asks job o) :
      ∀o∈(speak me c event ch).written,Asks job o := by
    intro o ho
    rcases mem_speak ho with ho | ⟨payload,he,-,rfl⟩
    · exact hch o ho
    · exact delegateMove_asks hm hcall he me
  unfold Session.hear at hh
  split at hh
  · rename_i hlink
    split_ifs at hh
    cases hh
    refine ⟨hT.drawn,hkeeps.mono ?_,?_⟩
    · intro r hr
      obtain ⟨l,hl,-⟩ := hr
      cases hlink.symm.trans hl
    · intro l' hl'
      obtain ⟨l,hd,rfl⟩ := Option.map_eq_some_iff.mp hl'
      obtain ⟨-,rfl⟩ := dial_some hd
      exact ⟨asks (by simp),trivial,by simp⟩
  · rename_i l hlink
    obtain ⟨⟨a',ch⟩,hch,he⟩ := Option.map_eq_some_iff.mp hh
    cases he
    obtain ⟨ha,hhandler,hr⟩ := hT.link l hlink
    refine ⟨hT.drawn,hkeeps.mono ?_,?_⟩
    · intro r hr
      obtain ⟨l₀,hl₀,hq⟩ := hr
      cases hlink.symm.trans hl₀
      exact ⟨_,rfl,hq⟩
    · intro l' hl'
      cases hl'
      refine ⟨asks ha,hhandler,fun o ho => hr o ?_⟩
      rwa [← listen_written hch]

/-- A step of the handler keeps the terms, where an execution comes to what it may. -/
theorem Terms.handler (hT : Terms P job Q rs t) (hlink : t.link=some l)
    (hl : listen l.handler.listens c l.toAcceptor=some (a,ch))
    (hx : ∀requester r,l.handler=.execute requester job →
      executeJob P peer c.answers.host job=.ok r → Q l.acceptor r) (me : PeerId) :
    Terms P job Q rs {t with link := some {l with
      handler := (serveStep P peer l.loopback a L l.handler).2.1
      toAcceptor := ch
      toRequester := speak me c (serveStep P peer l.loopback a L l.handler).2.2 l.toRequester}} := by
  obtain ⟨ha,hk,hr⟩ := hT.link l hlink
  have hhost : a.host=c.answers.host := by rw [listen_answers hl]
  have hreported := @serveStep_keeps P job (Q l.acceptor) peer a l.loopback L l.handler hk
    (fun hlis o ho => ha o (List.mem_of_getElem? (Channel.take_some (listen_taken hl hlis ho)).1))
    (fun requester r he hex => hx requester r he (hhost ▸ hex))
  refine ⟨hT.drawn,hT.call.mono ?_,?_⟩
  · intro r hq
    obtain ⟨l₀,hl₀,hq⟩ := hq
    cases hlink.symm.trans hl₀
    exact ⟨_,rfl,hq⟩
  · intro l' hl'
    cases hl'
    refine ⟨fun o ho => ha o ?_,hreported.1,fun o ho => ?_⟩
    · rwa [← listen_written hl]
    · rcases mem_speak ho with ho | ⟨payload,he,-,rfl⟩
      · exact hr o ho
      · exact hreported.2 payload he me

end Steps

end AgentTorrent
