import AgentTorrent.Identity

namespace AgentTorrent

def msgHandshake : PyStr := lit "HANDSHAKE"

def msgTaskOffer : PyStr := lit "TASK_OFFER"

def msgTaskAccept : PyStr := lit "TASK_ACCEPT"

def msgTaskReject : PyStr := lit "TASK_REJECT"

def msgTaskResult : PyStr := lit "TASK_RESULT"

def msgControl : PyStr := lit "CONTROL"

def msgControlResult : PyStr := lit "CONTROL_RESULT"

def maxLineBytes : Nat := 4*1024*1024

/-- What readline(_MAX_LINE_BYTES) does: it raises, or it returns at most that
many bytes, and none of them at the end of the stream. -/
inductive ReadLine
  | timedOut
  | osError
  | line (bs : Bytes) (bound : bs.length ≤ maxLineBytes)

variable (P : Platform)

/-- The read of recv and Identity.open(json.loads(line.decode())) with their
handlers. -/
def readOpened : ReadLine → Except PyExc Opened
  | .timedOut => .error (.protocolError .timedOut)
  | .osError => .error (.protocolError .connectionError)
  | .line bs _ =>
    if bs=[] then .error (.protocolError .closedByRemote)
    else match P.loads bs with
      | .error .value => .error (.protocolError .unverifiable)
      | .error .recursion => .error .recursionError
      | .ok envelope => match openEnvelope P envelope with
        | .ok o => .ok o
        | .error (.envelopeError _) | .error .valueError =>
            .error (.protocolError .unverifiable)
        | .error e => .error e

/-- str(v) for each value in turn -/
def pyStrs : List Json → Except PyExc Unit
  | [] => .ok ()
  | v::vs => match P.pyStr v with
    | .error e => .error e
    | .ok () => pyStrs vs

/-- _summarize, as far as it can fail: body.get needs a dict, and the values that
are logged must print. -/
def summarize (body : Json) : Except PyExc Unit :=
  match body with
  | .obj ms =>
    let logged := ((ms.lookup (lit "job")).bind (Json.get? (lit "job_id"))).toList++
      [lit "job_id",lit "reason",lit "command",lit "status"].filterMap fun key => ms.lookup key
    pyStrs P logged
  | _ => .error .attributeError

/-- The rest of recv: what was opened is logged, then its sender and its type are
checked. -/
def recvChecked (remotePeerId : Option PeerId) (expected : List PyStr) (o : Opened) :
    Except PyExc Opened :=
  match summarize P (o.body.getD (.obj [])) with
  | .error e => .error e
  | .ok () =>
    if remotePeerId.any fun r => o.sender≠r then .error (.protocolError .senderChanged)
    else if ¬expected.contains o.msgType then
      .error (.protocolError (.unexpectedType expected o.msgType))
    else .ok o

/-- Connection.recv of what the read and the opening gave -/
def recv (remotePeerId : Option PeerId) (expected : List PyStr)
    (received : Except PyExc Opened) : Except PyExc Opened :=
  match received with
  | .error e => .error e
  | .ok o => recvChecked P remotePeerId expected o

/-- The payload of Connection.send, where the envelope can be printed. -/
def sealMessage (me : Identity) (ts : PyFloat) (msgType : PyStr) (body : Json) :
    Except PyExc Json :=
  match sealEnvelope P me ts msgType body with
  | .error e => .error e
  | .ok envelope =>
    if P.dumpsDepth < envelope.depth then .error .recursionError
    else .ok (sealPayload (me.peerId P) ts msgType body)

theorem recv_ok {remotePeerId : Option PeerId} {expected : List PyStr}
    {received : Except PyExc Opened} {o : Opened}
    (h : recv P remotePeerId expected received=.ok o) :
    received=.ok o ∧ (∀r,remotePeerId=some r → o.sender=r) ∧ o.msgType∈expected ∧
      ∀b,o.body=some b → b.isObj=true := by
  cases received with
  | error e => cases h
  | ok q =>
    simp only [recv,recvChecked] at h
    split at h
    · cases h
    · rename_i hs
      split_ifs at h with h1 h2
      cases h
      refine ⟨rfl,?_,List.contains_iff_mem.mp h2,?_⟩
      · intro r hr
        subst hr
        simpa using h1
      · intro b hb
        rw [hb,Option.getD_some] at hs
        cases b with
        | obj ms => rfl
        | _ => cases hs

theorem recv_of_checks {remotePeerId : Option PeerId} {expected : List PyStr} {o : Opened}
    (hr : ∀r,remotePeerId=some r → o.sender=r) (ht : o.msgType∈expected)
    (hs : summarize P (o.body.getD (.obj []))=.ok ()) :
    recv P remotePeerId expected (.ok o)=.ok o := by
  have hany : ¬(remotePeerId.any fun r => o.sender≠r)=true := by
    cases remotePeerId with
    | none => exact Bool.false_ne_true
    | some r => simp [hr r rfl]
  simp only [recv,recvChecked,hs]
  rw [if_neg hany,if_neg (not_not.mpr (List.contains_iff_mem.mpr ht))]

theorem readOpened_ok {r : ReadLine} {o : Opened} (h : readOpened P r=.ok o) :
    ∃bs bound envelope,r=.line bs bound ∧ P.loads bs=.ok envelope ∧
      openEnvelope P envelope=.ok o := by
  cases r with
  | timedOut => cases h
  | osError => cases h
  | line bs bound =>
    simp only [readOpened] at h
    split at h
    · cases h
    · split at h
      · cases h
      · cases h
      · rename_i envelope hl
        split at h
        · rename_i ho
          cases h
          exact ⟨bs,bound,envelope,rfl,hl,ho⟩
        · cases h
        · cases h
        · cases h

theorem sealMessage_error {me : Identity} {ts : PyFloat} {msgType : PyStr} {body : Json} {e : PyExc}
    (h : sealMessage P me ts msgType body=.error e) : e.isProtocolError=false := by
  unfold sealMessage at h
  split at h
  · rename_i e' hs
    cases h
    simp only [sealEnvelope,except_bind_error] at hs
    rcases hs with hs | ⟨_,_,hs⟩
    · rcases canonicalJson_error P hs with ⟨rfl,-⟩ | rfl <;> rfl
    · cases hs
  · split_ifs at h
    exact Except.error.inj h ▸ rfl

/-- A body that nests two levels less deep than what prints is sent as it is. -/
theorem sealMessage_prints {me : Identity} (ts : PyFloat) (msgType : PyStr) {body : Json}
    (hd : body.depth+2 ≤ P.dumpsDepth) (hi : body.intsAll P.intPrints=true) :
    sealMessage P me ts msgType body=.ok (sealPayload (me.peerId P) ts msgType body) := by
  have depth : (sealPayload (me.peerId P) ts msgType body).depth=body.depth+1 := by
    simp [sealPayload,Json.depth,Json.depthMembers]
  have ints : (sealPayload (me.peerId P) ts msgType body).intsAll P.intPrints=true := by
    simp [sealPayload,Json.intsAll,Json.intsAllMembers,hi]
  have canonical : canonicalJson P (sealPayload (me.peerId P) ts msgType body)=
      .ok (sealPayload (me.peerId P) ts msgType body).dumpsCanonical := by
    rw [canonicalJson,if_neg (by omega),if_pos ints]
  simp only [sealMessage,sealEnvelope,canonical,bind,Except.bind,pure,Except.pure]
  rw [if_neg]
  simp only [Json.depth,Json.depthMembers,depth]
  omega

/-- A sealed message is signed: its canonical form prints. -/
theorem sealMessage_ok {me : Identity} {ts : PyFloat} {msgType : PyStr} {body p : Json}
    (h : sealMessage P me ts msgType body=.ok p) :
    p=sealPayload (me.peerId P) ts msgType body ∧ ∃msg,canonicalJson P p=.ok msg := by
  unfold sealMessage at h
  split at h
  · cases h
  · rename_i envelope hs
    split_ifs at h
    cases h
    simp only [sealEnvelope,except_bind_ok] at hs
    obtain ⟨msg,hm,-⟩ := hs
    exact ⟨rfl,msg,hm⟩

end AgentTorrent
