import AgentTorrent.Ledger.Invariant
import AgentTorrent.Peer.Delegate

namespace AgentTorrent

/-- The program counter of _serve_connection, at single ledger calls and messages. -/
inductive ServePc
  | start
  | handshakeRecv
  | handshakeSend (remote : PeerId)
  | requestRecv (remote : PeerId)
  | rejectSend (body : Json)
  | acceptSend (requester : PeerId) (job : Job)
  | execute (requester : PeerId) (job : Job)
  | resultSend (requester : PeerId) (job : Job) (result : JobResult)
  | credit (requester : PeerId) (job : Job)
  | listPeers
  | listLedger
  | control (args : DelegateArgs) (pc : DelegatePc)
  | controlSend (body : Json)
  | finished (escaped : Option PyExc)

/-- An exception ends the connection; any but ProtocolError also leaves the thread. -/
def hangUp : PyExc → ServePc
  | .protocolError _ => .finished none
  | e => .finished (some e)

def reasonBody (reason : PyStr) : Json := .obj [(lit "reason",.str reason)]

def jobReasonBody (job : Job) (reason : PyStr) : Json :=
  .obj [(lit "job_id",.str job.id),(lit "reason",.str reason)]

def acceptBody (job : Job) : Json := .obj [(lit "job_id",.str job.id)]

def resultBody (job : Job) (result : JobResult) : Json :=
  .obj [(lit "job_id",.str job.id),(lit "result",result.toJson)]

def controlError (error : PyStr) : Json :=
  .obj [(lit "status",.str (lit "error")),(lit "error",.str error)]

def controlOk (data : Json) : Json := .obj [(lit "status",.str (lit "ok")),(lit "data",data)]

/-- The arguments of a delegate command; the first one that is missing is a KeyError. -/
def delegateArgs (args : Json) : Except PyExc DelegateArgs := do
  let taskText ← args.item (lit "task_text")
  let requiredHarness ← args.item (lit "required_harness")
  let maxTokens ← args.item (lit "max_tokens")
  let maxRuntimeSeconds ← args.item (lit "max_runtime_seconds")
  let expectedOutput ← args.item (lit "expected_output")
  return ⟨taskText,requiredHarness,maxTokens,maxRuntimeSeconds,expectedOutput⟩

variable (P : Platform) (peer : Peer)

/-- The job passes the checks of _handle_task_offer on this peer. -/
def Peer.accepts (job : Job) : Bool :=
  peer.config.acceptsTasks &&
  (job.requiredHarness.val=lit "any" || peer.hasHarness job.requiredHarness.val ||
    peer.config.forceSimulate) &&
  job.maxRuntimeSeconds.val ≤ peer.config.maxRuntimeSeconds

/-- The reply to a job that fails those checks, each with its own reason. -/
def refuseJob (job : Job) : ServePc :=
  let required := job.requiredHarness.val
  if ¬peer.config.acceptsTasks then
    .rejectSend (jobReasonBody job (lit "peer is not accepting tasks"))
  else if required≠lit "any" ∧ ¬peer.hasHarness required ∧ ¬peer.config.forceSimulate then
    .rejectSend (jobReasonBody job (lit "harness '"++required++lit "' not available on this peer"))
  else if ¬P.intPrints job.maxRuntimeSeconds.val ∨ ¬P.intPrints peer.config.maxRuntimeSeconds then
    hangUp .valueError
  else .rejectSend (jobReasonBody job (lit "job runtime "++Json.intText job.maxRuntimeSeconds.val++
    lit "s exceeds this peer's limit of "++Json.intText peer.config.maxRuntimeSeconds++lit "s"))

/-- _handle_task_offer up to the answer. -/
def considerOffer (requester : PeerId) (o : Opened) : ServePc :=
  match (o.body.getD (.obj [])).getD (lit "job") .null with
  | .error e => hangUp e
  | .ok v =>
    if requester=peer.identity.peerId P then
      .rejectSend (reasonBody (lit "cannot delegate to self"))
    else match validateJob v with
      | .error (.jobError msg) => .rejectSend (reasonBody (lit "invalid job manifest: "++msg))
      | .error e => hangUp e
      | .ok job => if peer.accepts job then .acceptSend requester job else refuseJob P peer job

/-- What the except clause of _handle_control answers: only KeyError and
LedgerError have a handler. -/
def controlFault : PyExc → ServePc
  | .keyError key => .controlSend (controlError (lit "KeyError("++P.repr (.str key)++lit ")"))
  | .ledgerError msg => .controlSend (controlError (lit "LedgerError("++P.repr (.str msg)++lit ")"))
  | e => hangUp e

/-- _handle_control up to the command. -/
def handleControl (loopback : Bool) (sender : PeerId) (o : Opened) : ServePc :=
  if sender≠peer.identity.peerId P ∨ ¬loopback then
    .controlSend (controlError (lit "control denied"))
  else
    let body := o.body.getD (.obj [])
    match body.getD (lit "command") .null with
    | .error e => hangUp e
    | .ok command => match body.getD (lit "args") (.obj []) with
      | .error e => hangUp e
      | .ok args =>
        if command.isStr (lit "peers") then .listPeers
        else if command.isStr (lit "ledger") then .listLedger
        else if command.isStr (lit "delegate") then match delegateArgs args with
          | .error e => controlFault P e
          | .ok args => .control args .start
        else match P.pyStr command with
          | .error e => hangUp e
          | .ok () => .controlSend (controlError (lit "unknown command "++P.repr command))

/-- What a delegate command answers when the call has finished. -/
def controlReply : Except PyExc DelegateResult → ServePc
  | .ok r => .controlSend (controlOk r.toJson)
  | .error e => controlFault P e

/-- Connection.send inside _serve_connection. -/
def serveSend (a : Answers) (msgType : PyStr) (body : Json) (next : ServePc) :
    ServePc×Option Event :=
  match sealMessage P peer.identity a.ts msgType body with
  | .error e => (hangUp e,none)
  | .ok payload => (if a.sent then next else .finished none,some (.sealed payload))

/-- What follows the request of the far side. -/
def dispatch (loopback : Bool) (remote : PeerId) (o : Opened) : ServePc :=
  if o.msgType=msgControl then handleControl P peer loopback remote o
  else considerOffer P peer remote o

/-- The call of Peer.delegate that a step of the connection begins. -/
def ServePc.begins : ServePc → Option Event
  | .control args _ => some (.delegated args)
  | _ => none

/-- One step of _serve_connection. -/
def serveStep (loopback : Bool) (a : Answers) (L : Ledger) : ServePc → Ledger×ServePc×Option Event
  | .start =>
    if a.connecting=.connected then (L,.handshakeRecv,none) else (L,hangUp .osError,none)
  | .handshakeRecv => match recv P none [msgHandshake] a.received with
    | .error e => (L,hangUp e,none)
    | .ok o => (L,.handshakeSend o.sender,none)
  | .handshakeSend remote => (L,serveSend P peer a msgHandshake (.obj []) (.requestRecv remote))
  | .requestRecv remote =>
    match recv P (some remote) [msgTaskOffer,msgControl] a.received with
    | .error e => (L,hangUp e,none)
    | .ok o =>
      let next := dispatch P peer loopback remote o
      (L,next,next.begins)
  | .rejectSend body => (L,serveSend P peer a msgTaskReject body (.finished none))
  | .acceptSend requester job =>
    (L,serveSend P peer a msgTaskAccept (acceptBody job) (.execute requester job))
  | .execute requester job => match executeJob P peer a.host job with
    | .error e => (L,hangUp e,some (.executed job (.error e)))
    | .ok result => (L,.resultSend requester job result,some (.executed job (.ok result)))
  | .resultSend requester job result =>
    (L,serveSend P peer a msgTaskResult (resultBody job result)
      (if result.status=.ok then .credit requester job else .finished none))
  | .credit requester job => match L.creditForWork none job.id requester.val with
    | (L',.ok ()) => (L',.finished none,some (.recorded (workRecord job.id requester.val)))
    | (L',.error (.ledgerError _)) => (L',.finished none,none)
    | (L',.error e) => (L',hangUp e,none)
  | .listPeers => match a.discovery with
    | none => (L,hangUp .assertionError,none)
    | some _ => (L,.controlSend (controlOk a.listing),none)
  | .listLedger => (L,.controlSend (controlOk
      (.obj [(lit "balance",.int (L.balance selfAccount)),(lit "records",a.listing)])),none)
  | .control _ (.finished outcome) => (L,controlReply P outcome,none)
  | .control args pc =>
    let next := delegateStep P peer args a L pc
    (next.1,.control args next.2.1,next.2.2)
  | .controlSend body => (L,serveSend P peer a msgControlResult body (.finished none))
  | .finished escaped => (L,.finished escaped,none)

/-- How far a connection is. Up to five it has begun no job and no call. -/
def ServePc.stage : ServePc → Nat
  | .start => 0
  | .handshakeRecv => 1
  | .handshakeSend _ => 2
  | .requestRecv _ => 3
  | .acceptSend _ _ => 4
  | .execute _ _ => 5
  | .control _ _ => 6
  | .resultSend _ _ _ => 6
  | .credit _ _ => 7
  | .listPeers => 8
  | .listLedger => 8
  | .rejectSend _ => 9
  | .controlSend _ => 9
  | .finished _ => 10

/-- The connection has met its far side and may still work for it. -/
def ServePc.busy : ServePc → Bool
  | .handshakeSend _ | .requestRecv _ | .acceptSend _ _ | .execute _ _ | .resultSend _ _ _
  | .credit _ _ | .control _ _ => true
  | _ => false

/-- The request that an accepted offer came in: a TASK_OFFER of the requester, who
is another peer, whose job passes its check and those of this peer. -/
structure OfferFrom (requester : PeerId) (job : Job) (o : Opened) : Prop where
  sender : o.sender=requester
  msgType : o.msgType=msgTaskOffer
  carried : ∃v,o.body.bind (Json.get? (lit "job"))=some v ∧ validateJob v=.ok job
  foreign : requester≠peer.identity.peerId P
  accepted : peer.accepts job=true

/-- The request that a call came in: a delegate command under the peer's own key. -/
structure CommandFor (args : DelegateArgs) (o : Opened) : Prop where
  sender : o.sender=peer.identity.peerId P
  msgType : o.msgType=msgControl
  command : o.body.bind (Json.get? (lit "command"))=some (.str (lit "delegate"))
  carried : ∃v,o.body.bind (Json.get? (lit "args"))=some v ∧ delegateArgs v=.ok args

/-- What one step of a connection does outside a Peer.delegate call. -/
inductive ServeMove (loopback : Bool) (a : Answers) (L : Ledger) :
    ServePc → Ledger → ServePc → Option Event → Prop
  | wait (pc pc' : ServePc) (hs : pc.stage ≤ pc'.stage) (hb : pc'.busy=false) (hc : pc.stage≠7) :
      ServeMove loopback a L pc L pc' none
  | say (pc pc' : ServePc) (msgType : PyStr) (body payload : Json) (hs : pc'.stage=10)
      (hn : pc.begins=none)
      (ht : msgType≠msgTaskOffer) (hr : msgType≠msgTaskResult)
      (hp : sealMessage P peer.identity a.ts msgType body=.ok payload)
      (hb : pc'.busy=false) (hc : pc.stage≠7) :
      ServeMove loopback a L pc L pc' (some (.sealed payload))
  | met (o : Opened) (ha : a.received=.ok o) :
      ServeMove loopback a L .handshakeRecv L (.handshakeSend o.sender) none
  | greet (remote : PeerId) (payload : Json)
      (hp : sealMessage P peer.identity a.ts msgHandshake (.obj [])=.ok payload)
      (hsent : a.sent=true) : ServeMove loopback a L (.handshakeSend remote) L (.requestRecv remote)
        (some (.sealed payload))
  | offered (requester : PeerId) (job : Job) (o : Opened) (ha : a.received=.ok o)
      (ho : OfferFrom P peer requester job o) :
      ServeMove loopback a L (.requestRecv requester) L (.acceptSend requester job) none
  | commanded (args : DelegateArgs) (o : Opened) (ha : a.received=.ok o) (hl : loopback=true)
      (ho : CommandFor P peer args o) : ServeMove loopback a L
        (.requestRecv (peer.identity.peerId P)) L (.control args .start) (some (.delegated args))
  | accept (requester : PeerId) (job : Job) (payload : Json)
      (hp : sealMessage P peer.identity a.ts msgTaskAccept (acceptBody job)=.ok payload)
      (hsent : a.sent=true) : ServeMove loopback a L (.acceptSend requester job) L
        (.execute requester job) (some (.sealed payload))
  | executed (requester : PeerId) (job : Job) (result : JobResult)
      (hr : executeJob P peer a.host job=.ok result) : ServeMove loopback a L (.execute requester job)
        L (.resultSend requester job result) (some (.executed job (.ok result)))
  | failed (requester : PeerId) (job : Job) (e : PyExc) (pc' : ServePc)
      (hr : executeJob P peer a.host job=.error e) (hs : pc'.stage=10) (hb : pc'.busy=false) :
      ServeMove loopback a L (.execute requester job) L pc' (some (.executed job (.error e)))
  | deliver (requester : PeerId) (job : Job) (result : JobResult) (payload : Json)
      (hp : sealMessage P peer.identity a.ts msgTaskResult (resultBody job result)=.ok payload)
      (hr : result.status=.ok) (hsent : a.sent=true) :
      ServeMove loopback a L (.resultSend requester job result) L (.credit requester job)
        (some (.sealed payload))
  | report (requester : PeerId) (job : Job) (result : JobResult) (payload : Json)
      (hp : sealMessage P peer.identity a.ts msgTaskResult (resultBody job result)=.ok payload)
      (hr : a.sent=true → result.status≠.ok) :
      ServeMove loopback a L (.resultSend requester job result) L (.finished none)
        (some (.sealed payload))
  | credit (requester : PeerId) (job : Job) (hz : jobCount .work job.id L.records=0) :
      ServeMove loopback a L (.credit requester job)
        (L.extend (workRecord job.id requester.val)) (.finished none)
        (some (.recorded (workRecord job.id requester.val)))
  | credited (requester : PeerId) (job : Job) (hw : 0 < jobCount .work job.id L.records) :
      ServeMove loopback a L (.credit requester job) L (.finished none) none
  | reply (args : DelegateArgs) (outcome : Except PyExc DelegateResult) (pc' : ServePc)
      (hs : 6 ≤ pc'.stage) (hb : pc'.busy=false) :
      ServeMove loopback a L (.control args (.finished outcome)) L pc' none

theorem ServePc.stage_le (pc : ServePc) : pc.stage ≤ 10 := by
  cases pc <;> simp [stage]

theorem idle_of_stage {pc : ServePc} (h : 8 ≤ pc.stage) : pc.busy=false := by
  cases pc with
  | handshakeSend | requestRecv | acceptSend | execute | resultSend | credit | control =>
    simp [ServePc.stage] at h
  | _ => rfl

theorem begins_of_idle {pc : ServePc} (h : pc.busy=false) : pc.begins=none := by
  cases pc with
  | control args pc => cases h
  | _ => rfl

theorem hangUp_stage (e : PyExc) : (hangUp e).stage=10 := by
  cases e <;> rfl

theorem refuseJob_stage (job : Job) : 9 ≤ (refuseJob P peer job).stage := by
  have said (body : Json) : 9 ≤ (ServePc.rejectSend body).stage := le_rfl
  have quit : 9 ≤ (hangUp .valueError).stage := by decide
  simp only [refuseJob]
  split_ifs
  all_goals first | exact quit | exact said _

theorem controlFault_stage (e : PyExc) : 9 ≤ (controlFault P e).stage := by
  cases e <;> simp [controlFault,hangUp,ServePc.stage]

theorem controlReply_stage (outcome : Except PyExc DelegateResult) :
    9 ≤ (controlReply P outcome).stage := by
  cases outcome with
  | error e => exact controlFault_stage P e
  | ok r => exact le_rfl

/-- A field of the body that was read with a default, and is not the default. -/
theorem body_get {o : Opened} {key : PyStr} {default v : Json}
    (h : (o.body.getD (.obj [])).getD key default=.ok v) :
    o.body.bind (Json.get? key)=some v ∨ v=default := by
  have hv := Json.getD_ok h
  cases hb : o.body with
  | none => exact .inr (by rw [hv,hb]; rfl)
  | some b =>
    rw [hb,Option.getD_some] at hv
    cases hg : b.get? key with
    | none => exact .inr (by rw [hv,hg]; rfl)
    | some w => exact .inl (by rw [Option.bind_some,hg,hv,hg,Option.getD_some])

/-- An offer leads to a refusal, or it is accepted after every check. -/
theorem considerOffer_cases (requester : PeerId) (o : Opened) (hs : o.sender=requester)
    (ht : o.msgType=msgTaskOffer) : 8 ≤ (considerOffer P peer requester o).stage ∨
    ∃job,considerOffer P peer requester o=.acceptSend requester job ∧
      OfferFrom P peer requester job o := by
  have quit (e : PyExc) : 8 ≤ (hangUp e).stage := by rw [hangUp_stage]; decide
  unfold considerOffer
  split
  · exact .inl (quit _)
  · rename_i v hv
    split_ifs with hme
    · exact .inl (by decide)
    · split
      · exact .inl (by simp [ServePc.stage])
      · exact .inl (quit _)
      · rename_i job hj
        split_ifs with ha
        · refine .inr ⟨job,rfl,hs,ht,?_,hme,ha⟩
          rcases body_get hv with hv | rfl
          · exact ⟨v,hv,hj⟩
          · cases hj
        · exact .inl ((refuseJob_stage P peer job).trans' (by decide))

/-- A control message is denied, listed or refused, or it begins a call. -/
theorem handleControl_cases (loopback : Bool) (sender : PeerId) (o : Opened)
    (hs : o.sender=sender) (ht : o.msgType=msgControl) :
    8 ≤ (handleControl P peer loopback sender o).stage ∨
    ∃args,handleControl P peer loopback sender o=.control args .start ∧ loopback=true ∧
      CommandFor P peer args o := by
  have quit (e : PyExc) : 8 ≤ (hangUp e).stage := by rw [hangUp_stage]; decide
  unfold handleControl
  split_ifs with hd
  · exact .inl (by simp [ServePc.stage])
  · simp only [not_or,not_not] at hd
    dsimp only
    split
    · exact .inl (quit _)
    · rename_i command hc
      split
      · exact .inl (quit _)
      · rename_i args ha
        split_ifs with h1 h2 h3
        · exact .inl (by decide)
        · exact .inl (by decide)
        · split
          · exact .inl ((controlFault_stage P _).trans' (by decide))
          · rename_i delegated hg
            refine .inr ⟨delegated,rfl,hd.2,hs.trans hd.1,ht,?_,?_⟩
            · rcases body_get hc with hc | rfl
              · rw [hc,(Json.isStr_iff command _).mp h3]
              · cases h3
            · rcases body_get ha with ha | rfl
              · exact ⟨args,ha,hg⟩
              · cases hg
        · split
          · exact .inl (quit _)
          · exact .inl (by simp [ServePc.stage])

section Moves

variable {P peer} {loopback : Bool} {a : Answers} {L : Ledger} {pc next : ServePc}

theorem rest_move (h : 8 ≤ next.stage) (hs : pc.stage ≤ next.stage) (hc : pc.stage≠7) :
    ServeMove P peer loopback a L pc L next none :=
  .wait pc next hs (idle_of_stage h) hc

theorem hangUp_move (e : PyExc) (hc : pc.stage≠7) :
    ServeMove P peer loopback a L pc L (hangUp e) none := by
  have he := hangUp_stage e
  have hl := pc.stage_le
  exact rest_move (by omega) (by omega) hc

/-- A send goes on to the next state or it ends the connection. -/
theorem serveSend_next {msgType : PyStr} {body : Json} (ht : msgType≠msgTaskOffer)
    (hr : msgType≠msgTaskResult) (hc : pc.stage≠7) (hn : pc.begins=none)
    (h : ∀payload,sealMessage P peer.identity a.ts msgType body=.ok payload → a.sent=true →
      ServeMove P peer loopback a L pc L next (some (.sealed payload))) :
    ServeMove P peer loopback a L pc L (serveSend P peer a msgType body next).1
      (serveSend P peer a msgType body next).2 := by
  unfold serveSend
  cases hp : sealMessage P peer.identity a.ts msgType body with
  | error e => exact hangUp_move e hc
  | ok payload =>
    dsimp only
    split_ifs with hsent
    · exact h payload hp hsent
    · exact .say _ _ msgType body payload rfl hn ht hr hp rfl hc

/-- A send that ends in a state without duty is a plain message. -/
theorem serveSend_move {msgType : PyStr} (body : Json) (ht : msgType≠msgTaskOffer)
    (hr : msgType≠msgTaskResult) (hs : next.stage=10) (hc : pc.stage≠7) (hn : pc.begins=none) :
    ServeMove P peer loopback a L pc L (serveSend P peer a msgType body next).1
      (serveSend P peer a msgType body next).2 :=
  serveSend_next ht hr hc hn fun payload hp _ =>
    .say _ _ msgType body payload hs hn ht hr hp (idle_of_stage (by omega)) hc

/-- What follows the request is a reply, a job of the far side or a call. -/
theorem dispatch_move {remote : PeerId} {o : Opened} (ha : a.received=.ok o)
    (hs : o.sender=remote) (ht : o.msgType∈[msgTaskOffer,msgControl]) :
    ServeMove P peer loopback a L (.requestRecv remote) L (dispatch P peer loopback remote o)
      (dispatch P peer loopback remote o).begins := by
  have ended {pc : ServePc} (h : 8 ≤ pc.stage) :
      ServeMove P peer loopback a L (.requestRecv remote) L pc pc.begins := by
    rw [begins_of_idle (idle_of_stage h)]
    exact rest_move h (h.trans' (by simp [ServePc.stage])) (by simp [ServePc.stage])
  unfold dispatch
  split_ifs with hm
  · rcases handleControl_cases P peer loopback remote o hs hm with h | ⟨args,h,hl,hc⟩
    · exact ended h
    · have he := hs.symm.trans hc.sender
      subst he
      rw [h]
      exact .commanded args o ha hl hc
  · have ht : o.msgType=msgTaskOffer := by simpa [hm] using ht
    rcases considerOffer_cases P peer remote o hs ht with h | ⟨job,h,ho⟩
    · exact ended h
    · rw [h]
      exact .offered remote job o ha ho

end Moves

/-- Every step of a connection that is not inside a call is one of the moves. -/
theorem serveStep_move (loopback : Bool) (a : Answers) (L : Ledger) (pc : ServePc)
    (hcall : ∀args d,pc=.control args d → ∃o,d=.finished o) :
    ServeMove P peer loopback a L pc (serveStep P peer loopback a L pc).1
      (serveStep P peer loopback a L pc).2.1 (serveStep P peer loopback a L pc).2.2 := by
  cases pc with
  | start =>
    simp only [serveStep]
    split_ifs
    · exact .wait .start .handshakeRecv (by decide) rfl (by decide)
    · exact hangUp_move .osError (by decide)
  | handshakeRecv =>
    simp only [serveStep]
    split
    · exact hangUp_move _ (by decide)
    · rename_i o hr
      exact .met o (recv_ok P hr).1
  | handshakeSend remote =>
    exact serveSend_next (by decide) (by decide) (by simp [ServePc.stage]) rfl
      fun payload hp hsent => .greet remote payload hp hsent
  | requestRecv remote =>
    simp only [serveStep]
    split
    · exact hangUp_move _ (by simp [ServePc.stage])
    · rename_i o hr
      obtain ⟨ha,hs,ht,-⟩ := recv_ok P hr
      exact dispatch_move ha (hs remote rfl) ht
  | rejectSend body =>
    exact serveSend_move _ (by decide) (by decide) rfl (by simp [ServePc.stage]) rfl
  | acceptSend requester job =>
    exact serveSend_next (by decide) (by decide) (by simp [ServePc.stage]) rfl
      fun payload hp hsent => .accept requester job payload hp hsent
  | execute requester job =>
    simp only [serveStep]
    cases hr : executeJob P peer a.host job with
    | error e =>
      exact .failed requester job e _ hr (hangUp_stage e) (idle_of_stage (by
        rw [hangUp_stage]
        decide))
    | ok result => exact .executed requester job result hr
  | resultSend requester job result =>
    simp only [serveStep,serveSend]
    cases hp : sealMessage P peer.identity a.ts msgTaskResult (resultBody job result) with
    | error e => exact hangUp_move e (by simp [ServePc.stage])
    | ok payload =>
      dsimp only
      split_ifs with hsent hok
      · exact .deliver requester job result payload hp hok hsent
      · exact .report requester job result payload hp fun _ => hok
      · exact .report requester job result payload hp fun h => absurd h hsent
  | credit requester job =>
    simp only [serveStep]
    rcases L.creditForWork_cases job.id requester.val with ⟨msg,hc⟩ | ⟨hz,hc⟩
    · rw [hc]
      refine .credited requester job (Nat.pos_of_ne_zero ?_)
      intro hz
      have hk : L.hasKind job.id .work=false := by
        rw [← Bool.not_eq_true,L.hasKind_iff]
        omega
      simp [Ledger.creditForWork,hk,Ledger.append_ok] at hc
    · rw [hc]
      exact .credit requester job hz
  | listPeers =>
    simp only [serveStep]
    split
    · exact hangUp_move .assertionError (by decide)
    · exact rest_move (by simp [ServePc.stage]) (by simp [ServePc.stage]) (by decide)
  | listLedger =>
    simp only [serveStep]
    exact rest_move (by simp [ServePc.stage]) (by simp [ServePc.stage]) (by decide)
  | control args pc =>
    obtain ⟨outcome,rfl⟩ := hcall args pc rfl
    have h := controlReply_stage P outcome
    exact .reply args outcome (controlReply P outcome) (by omega) (idle_of_stage (by omega))
  | controlSend body =>
    exact serveSend_move _ (by decide) (by decide) rfl (by simp [ServePc.stage]) rfl
  | finished escaped =>
    simp only [serveStep]
    exact rest_move (by simp [ServePc.stage]) le_rfl (by simp [ServePc.stage])

end AgentTorrent
