import AgentTorrent.Peer.Serve

namespace AgentTorrent

/-- What one step of a command-line call takes from its surroundings. -/
structure CliAnswers where
  /-- json.loads(runtime_path.read_text()), none where the file does not exist -/
  runtime : Option (Except PyExc Json)
  /-- Identity.load_or_create(data_dir) -/
  loaded : Except PyExc Unit
  /-- socket.create_connection and Connection.__init__ -/
  connecting : Except PyExc Unit
  ts : PyFloat
  /-- sendall returns -/
  sent : Bool
  received : Except PyExc Opened

inductive CliOutcome
  | data (v : Json)
  | systemExit (msg : PyStr)
  | raised (e : PyExc)

/-- The program counter of _control_request, at single messages. -/
inductive CliPc
  | start
  | connect (port : Json)
  | handshakeSend
  | handshakeRecv
  | controlSend (remote : PeerId)
  | resultRecv (remote : PeerId)
  | finished (outcome : CliOutcome)

/-- A call of _control_request. -/
structure CliCall where
  dataDir : PyStr
  command : PyStr
  args : Json
  pc : CliPc

def controlBody (command : PyStr) (args : Json) : Json :=
  .obj [(lit "command",.str command),(lit "args",args)]

variable (P : Platform) (me : Identity)

/-- _control_request after its recv -/
def controlOutcome (o : Opened) : CliOutcome :=
  match o.payload.item (lit "body") with
  | .error e => .raised e
  | .ok body => match body.getD (lit "status") .null with
    | .error e => .raised e
    | .ok status =>
      if ¬status.isStr (lit "ok") then match body.getD (lit "error") .null with
        | .error e => .raised e
        | .ok error => match P.pyStr error with
          | .error e => .raised e
          | .ok () => .systemExit (lit "peer refused control command: "++P.str error)
      else match body.item (lit "data") with
        | .error e => .raised e
        | .ok data => .data data

/-- Connection.send inside _control_request. -/
def cliSend (a : CliAnswers) (msgType : PyStr) (body : Json) (next : CliPc) : CliPc×Option Json :=
  match sealMessage P me a.ts msgType body with
  | .error e => (.finished (.raised e),none)
  | .ok payload =>
    (if a.sent then next else .finished (.raised (.protocolError .sendFailed)),some payload)

/-- One step of _control_request: where it comes, and the payload that it sealed. -/
def cliStep (call : CliCall) (a : CliAnswers) : CliPc×Option Json :=
  match call.pc with
  | .start => match a.runtime with
    | none => (.finished (.systemExit (lit "no running peer found for "++call.dataDir++
        lit " (start one with: mesh start --data-dir "++call.dataDir++lit ")")),none)
    | some (.error e) => (.finished (.raised e),none)
    | some (.ok runtime) => match a.loaded with
      | .error e => (.finished (.raised e),none)
      | .ok () => match runtime.item (lit "tcp_port") with
        | .error e => (.finished (.raised e),none)
        | .ok port => (.connect port,none)
  | .connect _ => match a.connecting with
    | .error e => (.finished (.raised e),none)
    | .ok () => (.handshakeSend,none)
  | .handshakeSend => cliSend P me a msgHandshake (.obj []) .handshakeRecv
  | .handshakeRecv => match recv P none [msgHandshake] a.received with
    | .error e => (.finished (.raised e),none)
    | .ok o => (.controlSend o.sender,none)
  | .controlSend remote =>
    cliSend P me a msgControl (controlBody call.command call.args) (.resultRecv remote)
  | .resultRecv remote => match recv P (some remote) [msgControlResult] a.received with
    | .error e => (.finished (.raised e),none)
    | .ok o => (.finished (controlOutcome P o),none)
  | .finished outcome => (.finished outcome,none)

/-- The peer of the handshake, once there is one. -/
def CliPc.remote : CliPc → Option PeerId
  | .controlSend remote | .resultRecv remote => some remote
  | _ => none

variable {P me} {call : CliCall} {a : CliAnswers}

/-- The peer of the handshake is whoever signed the HANDSHAKE, with no further check. -/
theorem cliStep_remote {remote : PeerId} (h : (cliStep P me call a).1.remote=some remote) :
    call.pc.remote=some remote ∨ call.pc=.handshakeRecv ∧ ∃o,a.received=.ok o ∧
      o.msgType=msgHandshake ∧ o.sender=remote := by
  have sending {msgType : PyStr} {body : Json} {next : CliPc}
      (h : (cliSend P me a msgType body next).1.remote=some remote) :
      next.remote=some remote := by
    unfold cliSend at h
    split at h
    · cases h
    · dsimp only at h
      split_ifs at h
      · exact h
      · cases h
  unfold cliStep at h
  split at h
  · split at h
    · cases h
    · cases h
    · split at h
      · cases h
      · split at h <;> cases h
  · split at h <;> cases h
  · cases sending h
  · rename_i hpc
    split at h
    · cases h
    · rename_i o hr
      obtain ⟨ha,-,ht,-⟩ := recv_ok P hr
      exact .inr ⟨hpc,o,ha,List.mem_singleton.mp ht,Option.some.inj h⟩
  · rename_i remote' hpc
    have hr : (CliPc.resultRecv remote').remote=some remote := sending h
    rw [hpc]
    exact .inl hr
  · split at h <;> cases h
  · cases h

end AgentTorrent
