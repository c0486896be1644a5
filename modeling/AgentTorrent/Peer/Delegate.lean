import AgentTorrent.Discovery.Discovery
import AgentTorrent.Executor
import AgentTorrent.Ledger.Ledger
import AgentTorrent.Protocol

namespace AgentTorrent

/-- How far socket.create_connection and Connection.__init__ come. The second
fails where the connection is reset before getpeername. -/
inductive Connecting
  | refused
  | noPeername
  | connected
  deriving DecidableEq

/-- What one step of a thread takes from its surroundings. -/
structure Answers where
  uuid : PyStr
  /-- discovery.peers(), none before start() -/
  discovery : Option (List PeerInfo)
  connecting : Connecting
  ts : PyFloat
  /-- sendall returns -/
  sent : Bool
  received : Except PyExc Opened
  host : Host
  /-- the rows or records that a control command lists -/
  listing : Json

/-- What a thread does in a step that others can see. -/
inductive Event
  | sealed (payload : Json)
  | recorded (r : Record)
  | executed (job : Job) (outcome : Except PyExc JobResult)
  | delegated (args : DelegateArgs)

/-- The dict that Peer.delegate returns. -/
inductive DelegateResult
  | refused (error : PyStr)
  | rejected (jobId : PyStr) (worker : PeerId) (error : Json)
  | failed (jobId : PyStr) (worker : PeerId) (error : PyStr)
  | ok (jobId : PyStr) (worker : PeerId) (harness simulated runtimeSeconds output : Json)

def DelegateResult.toJson : DelegateResult → Json
  | .refused error => .obj [(lit "status",.str (lit "failed")),(lit "error",.str error)]
  | .rejected jobId worker error =>
    .obj [(lit "status",.str (lit "rejected")),(lit "job_id",.str jobId),
      (lit "worker",.str worker.val),(lit "error",error),(lit "refunded",.bool true)]
  | .failed jobId worker error =>
    .obj [(lit "status",.str (lit "failed")),(lit "job_id",.str jobId),
      (lit "worker",.str worker.val),(lit "error",.str error),(lit "refunded",.bool true)]
  | .ok jobId worker harness simulated runtimeSeconds output =>
    .obj [(lit "status",.str (lit "ok")),(lit "job_id",.str jobId),
      (lit "worker",.str worker.val),(lit "harness",harness),(lit "simulated",simulated),
      (lit "runtime_seconds",runtimeSeconds),(lit "output",output)]

/-- The call returned a dict with status ok. -/
def statusOk : Except PyExc DelegateResult → Bool
  | .ok (.ok ..) => true
  | _ => false

/-- Where Peer.delegate stands between escrow and close. -/
inductive Phase
  | connect
  | handshakeSend
  | handshakeRecv
  | offerSend
  | offerRecv
  | resultRecv
  deriving DecidableEq

/-- The program counter of Peer.delegate, at single ledger calls and messages. -/
inductive DelegatePc
  | start
  | choose
  | escrow (job : Job) (worker : PeerInfo)
  | active (phase : Phase) (job : Job) (worker : PeerInfo)
  | settle (job : Job) (worker : PeerInfo) (result : Json)
  | refund (job : Job) (worker : PeerInfo) (outcome : Except PyExc DelegateResult)
  | finished (outcome : Except PyExc DelegateResult)

def candidates (job : Job) (peers : List PeerInfo) : List PeerInfo :=
  peers.filter fun p => p.manifest.acceptsTasks &&
    (job.requiredHarness.val=lit "any" || p.manifest.hasHarness job.requiredHarness.val)

/-- max(..., key=lambda p: p.last_seen), which keeps the first of equals -/
def latestSeen : List PeerInfo → Option PeerInfo
  | [] => none
  | p::ps => some (ps.foldl (fun best q => if best.lastSeen < q.lastSeen then q else best) p)

variable (P : Platform) (peer : Peer)

/-- delegate from new_job to the choice of the worker -/
def chooseWorker (args : DelegateArgs) (a : Answers) : DelegatePc :=
  match newJob a.uuid args with
  | .error (.jobError msg) => .finished (.ok (.refused (lit "invalid job: "++msg)))
  | .error e => .finished (.error e)
  | .ok job => match a.discovery with
    | none => .finished (.error .assertionError)
    | some peers => match latestSeen (candidates job peers) with
      | none => .finished (.ok (.refused (lit "no peer in the swarm accepts tasks with harness '"++
          job.requiredHarness.val++lit "'")))
      | some worker => .escrow job worker

/-- An exception between escrow and close: only ProtocolError has a handler. -/
def giveUp (job : Job) (worker : PeerInfo) : PyExc → DelegatePc
  | .protocolError why => .refund job worker (.ok (.failed job.id worker.peerId (P.describe why)))
  | e => .finished (.error e)

/-- The dict that is built after the refund of a rejected offer. -/
def rejection (job : Job) (worker : PeerInfo) (reply : Json) : Except PyExc DelegateResult :=
  match reply.item (lit "body") with
  | .error e => .error e
  | .ok body => match body.getD (lit "reason") (.str (lit "rejected without reason")) with
    | .error e => .error e
    | .ok reason => .ok (.rejected job.id worker.peerId reason)

/-- The dict that is built after the refund of a failed job. -/
def reportedFailure (job : Job) (worker : PeerInfo) (result : Json) : Except PyExc DelegateResult :=
  let output := (result.get? (lit "output")).getD .null
  match P.pyStr output with
  | .error e => .error e
  | .ok () => .ok (.failed job.id worker.peerId
      (lit "worker reported failure: "++(P.str output).take 500))

def delivered (job : Job) (worker : PeerInfo) (result : Json) : DelegateResult :=
  .ok job.id worker.peerId ((result.get? (lit "harness")).getD .null)
    ((result.get? (lit "simulated")).getD (.bool false))
    ((result.get? (lit "runtime_seconds")).getD .null)
    ((result.get? (lit "output")).getD (.str []))

/-- What delegate does with a TASK_RESULT. -/
def judge (job : Job) (worker : PeerInfo) (payload : Json) : DelegatePc :=
  match payload.item (lit "body") with
  | .error e => giveUp P job worker e
  | .ok body => match body.getD (lit "result") (.obj []) with
    | .error e => giveUp P job worker e
    | .ok result => match result.getD (lit "job_id") .null with
      | .error e => giveUp P job worker e
      | .ok id =>
        if ¬id.isStr job.id then giveUp P job worker (.protocolError .differentJob)
        else if ¬((result.get? (lit "status")).getD .null).isStr (lit "ok") then
          .refund job worker (reportedFailure P job worker result)
        else .settle job worker result

/-- Connection.send inside delegate. The summary of an own body never fails. -/
def delegateSend (a : Answers) (job : Job) (worker : PeerInfo) (msgType : PyStr) (body : Json)
    (next : Phase) : DelegatePc×Option Event :=
  match sealMessage P peer.identity a.ts msgType body with
  | .error e => (giveUp P job worker e,none)
  | .ok payload =>
    (if a.sent then .active next job worker else giveUp P job worker (.protocolError .sendFailed),
      some (.sealed payload))

def offerBody (job : Job) : Json := .obj [(lit "job",job.toJson)]

/-- A step of delegate between escrow and close, which leaves the ledger alone. -/
def activeStep (a : Answers) (job : Job) (worker : PeerInfo) : Phase → DelegatePc×Option Event
  | .connect => match a.connecting with
    | .refused => (giveUp P job worker (.protocolError .cannotConnect),none)
    | .noPeername => (giveUp P job worker .osError,none)
    | .connected => (.active .handshakeSend job worker,none)
  | .handshakeSend => delegateSend P peer a job worker msgHandshake (.obj []) .handshakeRecv
  | .handshakeRecv => match recv P none [msgHandshake] a.received with
    | .error e => (giveUp P job worker e,none)
    | .ok o =>
      if o.sender≠worker.peerId then
        (giveUp P job worker (.protocolError (.wrongPeer o.sender worker.peerId)),none)
      else (.active .offerSend job worker,none)
  | .offerSend => delegateSend P peer a job worker msgTaskOffer (offerBody job) .offerRecv
  | .offerRecv => match recv P (some worker.peerId) [msgTaskAccept,msgTaskReject] a.received with
    | .error e => (giveUp P job worker e,none)
    | .ok o =>
      if o.msgType=msgTaskReject then (.refund job worker (rejection job worker o.payload),none)
      else (.active .resultRecv job worker,none)
  | .resultRecv =>
    if ¬P.timeoutFits job.maxRuntimeSeconds.val then (giveUp P job worker .overflowError,none)
    else match recv P (some worker.peerId) [msgTaskResult] a.received with
      | .error e => (giveUp P job worker e,none)
      | .ok o => (judge P job worker o.payload,none)

/-- A ledger call of delegate: its exception ends the call, else it goes on. -/
def ledgerCall (done : Ledger×Except PyExc Unit) (r : Record) (next : DelegatePc) :
    Ledger×DelegatePc×Option Event :=
  match done with
  | (L,.ok ()) => (L,next,some (.recorded r))
  | (L,.error e) => (L,.finished (.error e),none)

/-- One step of Peer.delegate. -/
def delegateStep (args : DelegateArgs) (a : Answers) (L : Ledger) :
    DelegatePc → Ledger×DelegatePc×Option Event
  | .start =>
    if L.canOffer then (L,.choose,none)
    else (L,.finished (.ok (.refused
      (lit "ledger balance is zero: refusing to send TASK_OFFER"))),none)
  | .choose => (L,chooseWorker args a,none)
  | .escrow job worker =>
    ledgerCall (L.escrow none job.id worker.peerId.val) (escrowRecord job.id worker.peerId.val)
      (.active .connect job worker)
  | .active phase job worker => (L,activeStep P peer a job worker phase)
  | .settle job worker result =>
    ledgerCall (L.settle none job.id worker.peerId.val) (settleRecord job.id worker.peerId.val)
      (.finished (.ok (delivered job worker result)))
  | .refund job _ outcome =>
    ledgerCall (L.refund none job.id) (refundRecord job.id) (.finished outcome)
  | .finished outcome => (L,.finished outcome,none)

def Phase.rank : Phase → Nat
  | .connect => 0
  | .handshakeSend => 1
  | .handshakeRecv => 2
  | .offerSend => 3
  | .offerRecv => 4
  | .resultRecv => 5

/-- The phases that wait for a message. -/
def Phase.listens : Phase → Bool
  | .handshakeRecv | .offerRecv | .resultRecv => true
  | _ => false

/-- The message that settles a job: a TASK_RESULT of the worker whose result names
the job with status ok. -/
structure ResultFor (job : Job) (worker : PeerInfo) (o : Opened) (result : Json) : Prop where
  sender : o.sender=worker.peerId
  msgType : o.msgType=msgTaskResult
  carried : o.body.bind (Json.get? (lit "result"))=some result
  jobId : result.get? (lit "job_id")=some (.str job.id)
  status : result.get? (lit "status")=some (.str (lit "ok"))

/-- Where a step between escrow and close leads. -/
inductive ActiveNext (a : Answers) (job : Job) (worker : PeerInfo) (ph : Phase) : DelegatePc → Prop
  | forward (ph' : Phase) (h : ph'.rank=ph.rank+1)
      (hm : ph.listens=true → ∃o,a.received=.ok o ∧ o.sender=worker.peerId) :
      ActiveNext a job worker ph (.active ph' job worker)
  | refund (o : Except PyExc DelegateResult) (h : statusOk o=false) :
      ActiveNext a job worker ph (.refund job worker o)
  | escape (e : PyExc) (h : e.isProtocolError=false) :
      ActiveNext a job worker ph (.finished (.error e))
  | settle (o : Opened) (result : Json) (hp : ph=.resultRecv)
      (ht : P.timeoutFits job.maxRuntimeSeconds.val=true) (h : a.received=.ok o)
      (hr : ResultFor job worker o result) : ActiveNext a job worker ph (.settle job worker result)

/-- delegate chooses the latest of the candidates for the job that it drew, or it ends. -/
theorem chooseWorker_cases (args : DelegateArgs) (a : Answers) :
    (∃job rows worker,newJob a.uuid args=.ok job ∧ a.discovery=some rows ∧
      latestSeen (candidates job rows)=some worker ∧ chooseWorker args a=.escrow job worker) ∨
    ∃o,statusOk o=false ∧ chooseWorker args a=.finished o := by
  unfold chooseWorker
  cases hj : newJob a.uuid args with
  | error e => cases e <;> exact .inr ⟨_,rfl,rfl⟩
  | ok job =>
    cases hd : a.discovery with
    | none => exact .inr ⟨_,rfl,rfl⟩
    | some rows =>
      dsimp only
      cases hw : latestSeen (candidates job rows) with
      | none => exact .inr ⟨_,rfl,rfl⟩
      | some worker => exact .inl ⟨job,rows,worker,rfl,rfl,hw,rfl⟩

theorem chooseWorker_escrow {args : DelegateArgs} {a : Answers} {job : Job} {worker : PeerInfo}
    (h : chooseWorker args a=.escrow job worker) : newJob a.uuid args=.ok job ∧
      ∃rows,a.discovery=some rows ∧ latestSeen (candidates job rows)=some worker := by
  rcases chooseWorker_cases args a with ⟨own,rows,best,hn,hd,hw,he⟩ | ⟨o,-,he⟩
  · cases he.symm.trans h
    exact ⟨hn,rows,hd,hw⟩
  · cases he.symm.trans h

theorem giveUp_next (a : Answers) (job : Job) (worker : PeerInfo) (ph : Phase) (e : PyExc) :
    ActiveNext P a job worker ph (giveUp P job worker e) := by
  cases e with
  | protocolError why => exact .refund _ rfl
  | _ => exact .escape _ rfl

theorem body_item {o : Opened} {body : Json} (h : o.payload.item (lit "body")=.ok body) :
    o.body=some body := (Json.item_ok_iff _ _ _).mp h

theorem isStr_getD {x : Option Json} {s : PyStr} (h : (x.getD .null).isStr s=true) :
    x=some (.str s) := by
  cases x with
  | none => cases h
  | some v =>
    rw [Option.getD_some] at h
    rw [(Json.isStr_iff v s).mp h]

theorem reportedFailure_failed (job : Job) (worker : PeerInfo) (result : Json) :
    statusOk (reportedFailure P job worker result)=false := by
  unfold reportedFailure
  dsimp only
  split <;> rfl

theorem rejection_failed (job : Job) (worker : PeerInfo) (reply : Json) :
    statusOk (rejection job worker reply)=false := by
  unfold rejection
  split
  · rfl
  · split <;> rfl

theorem judge_next (a : Answers) (job : Job) (worker : PeerInfo) (o : Opened)
    (hf : P.timeoutFits job.maxRuntimeSeconds.val=true) (ha : a.received=.ok o)
    (hs : o.sender=worker.peerId) (ht : o.msgType=msgTaskResult) :
    ActiveNext P a job worker .resultRecv (judge P job worker o.payload) := by
  unfold judge
  split
  · exact giveUp_next ..
  · rename_i body hb
    split
    · exact giveUp_next ..
    · rename_i result hr
      split
      · exact giveUp_next ..
      · rename_i id hi
        split_ifs with hj hst
        · have hid := isStr_getD (Json.getD_ok hi ▸ hj)
          refine .settle o result rfl hf ha ⟨hs,ht,?_,hid,isStr_getD hst⟩
          rw [body_item hb,Option.bind_some]
          cases hg : body.get? (lit "result") with
          | none =>
            rw [Json.getD_ok hr,hg] at hid
            cases hid
          | some v => rw [Json.getD_ok hr,hg,Option.getD_some]
        · exact .refund _ (reportedFailure_failed P job worker result)
        · exact giveUp_next ..

theorem delegateSend_cases (a : Answers) (job : Job) (worker : PeerInfo) (ph next : Phase)
    (hn : next.rank=ph.rank+1) (hph : ph.listens=false) (msgType : PyStr) (body : Json) :
    ActiveNext P a job worker ph (delegateSend P peer a job worker msgType body next).1 ∧
    ((delegateSend P peer a job worker msgType body next).2=none ∨
      ∃payload,sealMessage P peer.identity a.ts msgType body=.ok payload ∧
        (delegateSend P peer a job worker msgType body next).2=some (.sealed payload)) := by
  unfold delegateSend
  cases hs : sealMessage P peer.identity a.ts msgType body with
  | error e => exact ⟨giveUp_next P a job worker _ _,.inl rfl⟩
  | ok payload =>
    refine ⟨?_,.inr ⟨payload,rfl,rfl⟩⟩
    dsimp only
    split_ifs
    · exact .forward next hn fun h => by simp [hph] at h
    · exact giveUp_next ..

/-- What a step between escrow and close does, whatever the far side answers: it
goes one phase on, or to the refund, or it escapes, or it takes the message that
settles the job, and it seals nothing but the handshake and the offer. -/
theorem activeStep_cases (a : Answers) (job : Job) (worker : PeerInfo) (ph : Phase) :
    ActiveNext P a job worker ph (activeStep P peer a job worker ph).1 ∧
    ((activeStep P peer a job worker ph).2=none ∨
      (∃payload,ph=.handshakeSend ∧ sealMessage P peer.identity a.ts msgHandshake (.obj [])=
        .ok payload ∧ (activeStep P peer a job worker ph).2=some (.sealed payload)) ∨
      ∃payload,ph=.offerSend ∧ sealMessage P peer.identity a.ts msgTaskOffer (offerBody job)=
        .ok payload ∧ (activeStep P peer a job worker ph).2=some (.sealed payload)) := by
  have quit {ph : Phase} (e : PyExc) {Q : Prop} :
      ActiveNext P a job worker ph (giveUp P job worker e,(none : Option Event)).1 ∧
        ((giveUp P job worker e,(none : Option Event)).2=none ∨ Q) :=
    ⟨giveUp_next P a job worker ph e,.inl rfl⟩
  cases ph with
  | connect =>
    simp only [activeStep]
    split
    · exact quit _
    · exact quit _
    · exact ⟨.forward _ rfl (by simp [Phase.listens]),.inl rfl⟩
  | handshakeSend =>
    obtain ⟨hn,he⟩ := delegateSend_cases P peer a job worker .handshakeSend .handshakeRecv rfl
      rfl msgHandshake (.obj [])
    exact ⟨hn,he.imp id fun ⟨p,hs,hp⟩ => .inl ⟨p,rfl,hs,hp⟩⟩
  | handshakeRecv =>
    simp only [activeStep]
    split
    · exact quit _
    · rename_i o hr
      split
      · exact quit _
      · rename_i hs
        exact ⟨.forward _ rfl fun _ => ⟨o,(recv_ok P hr).1,not_not.mp hs⟩,.inl rfl⟩
  | offerSend =>
    obtain ⟨hn,he⟩ := delegateSend_cases P peer a job worker .offerSend .offerRecv rfl
      rfl msgTaskOffer (offerBody job)
    exact ⟨hn,he.imp id fun ⟨p,hs,hp⟩ => .inr ⟨p,rfl,hs,hp⟩⟩
  | offerRecv =>
    simp only [activeStep]
    split
    · exact quit _
    · rename_i o hr
      obtain ⟨ha,hs,-⟩ := recv_ok P hr
      split
      · exact ⟨.refund _ (rejection_failed ..),.inl rfl⟩
      · exact ⟨.forward _ rfl fun _ => ⟨o,ha,hs _ rfl⟩,.inl rfl⟩
  | resultRecv =>
    simp only [activeStep]
    split
    · exact quit _
    · rename_i hf
      split
      · exact quit _
      · rename_i o hr
        obtain ⟨ha,hs,ht,-⟩ := recv_ok P hr
        have ht : o.msgType=msgTaskResult := by simpa using ht
        exact ⟨judge_next P a job worker o (not_not.mp hf) ha (hs _ rfl) ht,.inl rfl⟩

/-- The job whose open escrow a delegate call is in charge of. -/
def DelegatePc.owns : DelegatePc → Option PyStr
  | .active _ job _ | .settle job _ _ | .refund job _ _ => some job.id
  | _ => none

end AgentTorrent
