import AgentTorrent.Framework.Framing
import AgentTorrent.Python.JsonPrefix
import AgentTorrent.Wire.Receiving
import AgentTorrent.Wire.Sealed

open Framework AgentTorrent.Json

namespace AgentTorrent

variable (P : Platform)

/-- Connection.send: the line that is handed to sendall, where all of it returns. -/
def send (me : Identity) (ts : PyFloat) (msgType : PyStr) (body : Json) (sent : Bool) :
    Except PyExc Bytes :=
  match sealEnvelope P me ts msgType body with
  | .error e => .error e
  | .ok envelope =>
    if P.dumpsDepth < envelope.depth then .error .recursionError
    else if ¬sent then .error (.protocolError .sendFailed)
    else match summarize P body with
      | .error e => .error e
      | .ok () => .ok (envelope.dumps++ascii "\n")

/-- A message for which send returned normally. -/
structure SentMessage (me : Identity) where
  ts : PyFloat
  msgType : PyStr
  body : Json
  line : Bytes
  sent : send P me ts msgType body true=.ok line

def newline : UInt8 := 0x0a

/-- Connection.recv on a stream that EOF follows: what it gives, and the stream that it
leaves. -/
def recvNext (remotePeerId : Option PeerId) (expected : Option (List PyStr)) :
    Bytes → Except PyExc Opened×Bytes :=
  Framing.readNext newline fun line (bound : line.length ≤ maxLineBytes) =>
    receive P remotePeerId expected (.line line bound)

/-- json.loads on parts of the lines that the program prints. They nest no deeper than
json.dumps can print, so it is the parser without a bound on the stack. -/
structure Platform.ReadsLines (float : PyStr → PyFloat) : Prop where
  loads : ∀v : Json,v.depth ≤ P.dumpsDepth → ∀part,part <:+: v.dumps++ascii "\n" →
    P.loads part=match loadsText float P.intPrints (ofAscii part) with
      | some w => .ok w
      | none => .error .value

variable {P} {me : Identity} {ts : PyFloat} {msgType : PyStr} {body envelope : Json}

namespace SentMessage

variable (m : SentMessage P me)

def payload : Json := sealPayload (me.peerId P) m.ts m.msgType m.body

def opened : Opened := ⟨me.peerId P,m.payload⟩

/-- What is assumed of a message that was honestly sealed: its signature verifies, and
its envelope is read back from its text. -/
structure Honest (float : PyStr → PyFloat) : Prop where
  signed : ∀msg,canonicalJson P m.payload=.ok msg → me.Signs P msg
  readBack : ∀envelope,sealEnvelope P me m.ts m.msgType m.body=.ok envelope →
    loadsText float P.intPrints (ofAscii envelope.dumps)=some envelope

theorem sealed : ∃envelope,sealEnvelope P me m.ts m.msgType m.body=.ok envelope ∧
    envelope.depth ≤ P.dumpsDepth ∧ summarize P m.body=.ok () ∧
    m.line=envelope.dumps++[newline] := by
  have hs := m.sent
  unfold send at hs
  split at hs
  · cases hs
  · rename_i envelope he
    split_ifs at hs with hd
    split at hs
    · cases hs
    · rename_i hsum
      exact ⟨envelope,he,Nat.not_lt.mp hd,hsum,(Except.ok.inj hs).symm⟩

end SentMessage

/-- The text of an envelope stands between braces. -/
theorem dumps_braces (h : sealEnvelope P me ts msgType body=.ok envelope) :
    ∃inner,envelope.dumps=ascii "\x7b"++inner++ascii "\x7d" := by
  obtain ⟨msg,-,rfl⟩ := sealEnvelope_ok h
  rw [dumps,render]
  exact ⟨_,rfl⟩

section Text

variable {float : PyStr → PyFloat} {v : Json} {inner : Bytes}

theorem loadsText_newline (hv : v.dumps=ascii "\x7b"++inner++ascii "\x7d")
    (hr : loadsText float P.intPrints (ofAscii v.dumps)=some v) :
    loadsText float P.intPrints (ofAscii (v.dumps++[newline]))=some v := by
  rw [hv,List.append_assoc,ofAscii_append] at hr
  have hq := loadsText_append (q := ofAscii [newline]) hr
  rw [hv,ofAscii_append,List.append_assoc,ofAscii_append]
  exact hq

/-- No proper beginning of a text between braces is itself a text. -/
theorem loadsText_torn (hv : v.dumps=ascii "\x7b"++inner++ascii "\x7d")
    (hr : loadsText float P.intPrints (ofAscii v.dumps)=some v) {n : Nat}
    (hn : n < v.dumps.length) : loadsText float P.intPrints (ofAscii (v.dumps.take n))=none :=
  loadsText_cut hv hr hn

end Text

/-- A line that holds an envelope which opens is received, whatever type is expected. -/
theorem receive_opens {remote : Option PeerId} {expected : Option (List PyStr)} {bs : Bytes}
    {o : Opened} (hn : bs≠[]) (hl : P.loads bs=.ok envelope) (ho : openEnvelope P envelope=.ok o)
    (hs : summarize P (o.body.getD (.obj []))=.ok ()) (hr : ∀r,remote=some r → o.sender=r)
    (ht : ∀types,expected=some types → o.msgType∈types) (bound : bs.length ≤ maxLineBytes) :
    receive P remote expected (.line bs bound)=.ok o := by
  have hread : readOpened P (.line bs bound)=.ok o := by simp only [readOpened,hn,if_false,hl,ho]
  cases expected with
  | some types =>
    rw [receive_some,hread]
    exact recv_of_checks P hr (ht types rfl) hs
  | none =>
    have hany : ¬(remote.any fun r => o.sender≠r)=true := by
      cases remote with
      | none => exact Bool.false_ne_true
      | some r => simp [hr r rfl]
    simp only [receive,hread,hs]
    rw [if_neg hany]

theorem receive_unparsed {bs : Bytes} (h : bs=[] ∨ P.loads bs=.error .value)
    (remote : Option PeerId) (expected : Option (List PyStr)) (bound : bs.length ≤ maxLineBytes) :
    ∃why,receive P remote expected (.line bs bound)=.error (.protocolError why) := by
  by_cases hn : bs=[]
  · exact ⟨.closedByRemote,by simp only [receive,readOpened,hn,if_true]⟩
  · have hl := h.resolve_left hn
    exact ⟨.unverifiable,by simp only [receive,readOpened,hn,if_false,hl]⟩

/-- The recv calls that follow return these messages, and the next one raises
ProtocolError. -/
def Received (P : Platform) {me : Identity} (remotePeerId : Option PeerId)
    (expected : Option (List PyStr)) : List (SentMessage P me) → Bytes → Prop :=
  Framing.Delivers (fun x => ∃why,x=.error (.protocolError why)) (recvNext P remotePeerId expected)
    fun m => .ok m.opened

/-- The message as the receiver's reader meets it. -/
theorem SentMessage.reads {float : PyStr → PyFloat} (hP : P.ReadsLines float)
    {remote : Option PeerId} {expected : Option (List PyStr)} (m : SentMessage P me)
    (hm : m.Honest float) (hr : ∀r,remote=some r → me.peerId P=r)
    (ht : ∀types,expected=some types → m.msgType∈types) :
    ∃text,m.line=text++[newline] ∧
      Framing.Reads newline (fun line (bound : line.length ≤ maxLineBytes) =>
        receive P remote expected (.line line bound)) (fun x => ∃why,x=.error (.protocolError why))
        text (.ok m.opened) := by
  obtain ⟨envelope,hseal,hdepth,hsum,hline⟩ := m.sealed
  obtain ⟨inner,hbraces⟩ := dumps_braces hseal
  have hback := hm.readBack envelope hseal
  have hopen := open_sealed hseal hm.signed
  have hloads {part : Bytes} (h : part <:+: envelope.dumps++[newline]) :=
    hP.loads envelope hdepth part h
  have hprefix : envelope.dumps <+: envelope.dumps++[newline] := List.prefix_append _ _
  have hne : envelope.dumps≠[] := by
    rw [hbraces,List.append_assoc]
    exact List.cons_ne_nil _ _
  refine ⟨envelope.dumps,hline,?_,?_,?_,?_,?_⟩
  · intro h
    obtain ⟨why,hw⟩ := h
    cases hw
  · intro h
    have hprint := List.all_eq_true.mp (render_printable (by decide) (by decide) envelope) _ h
    cases hprint
  · intro bound
    refine receive_opens (by simp) ?_ hopen hsum hr ht bound
    rw [hloads (List.infix_refl _),loadsText_newline hbraces hback]
  · intro bound
    refine receive_opens hne ?_ hopen hsum hr ht bound
    rw [hloads hprefix.isInfix,hback]
  · intro n hn bound
    refine receive_unparsed (.inr ?_) remote expected bound
    rw [hloads ((List.take_prefix n _).trans hprefix).isInfix,loadsText_torn hbraces hback hn]

/-- A message whose body and type are as the program sends them is read back. -/
theorem SentMessage.honest {float : PyStr → PyFloat} (hP : P.Lawful float)
    (m : SentMessage P me) (hb : Sendable m.msgType m.ts m.body)
    (hs : ∀msg,canonicalJson P m.payload=.ok msg → me.Signs P msg) : m.Honest float :=
  ⟨hs,fun _ he => sealed_readBack hP hb he⟩

theorem Platform.ReadsLines.newline {float : PyStr → PyFloat} (hP : P.ReadsLines float) :
    P.loads [newline]=.error .value := by
  have h := hP.loads .null (Nat.zero_le _) [AgentTorrent.newline] (List.suffix_append _ _).isInfix
  exact h

theorem Platform.ReadsLines.dumps {float : PyStr → PyFloat} (hP : P.ReadsLines float) {v : Json}
    (hd : v.depth ≤ P.dumpsDepth) (hr : loadsText float P.intPrints (ofAscii v.dumps)=some v) :
    P.loads v.dumps=.ok v := by
  rw [hP.loads v hd _ (List.prefix_append _ _).isInfix,hr]

/-- For every sequence of honest messages of one sender and every cut of its stream: recv
returns the messages whose line is complete and then raises ProtocolError exactly where
the cut is safe. -/
theorem framing_iff {float : PyStr → PyFloat} (hP : P.ReadsLines float) {remote : Option PeerId}
    {expected : Option (List PyStr)} (hr : ∀r,remote=some r → me.peerId P=r)
    {ms : List (SentMessage P me)}
    (hm : ∀m∈ms,m.Honest float ∧ ∀types,expected=some types → m.msgType∈types) (cut : Nat) :
    Received P remote expected (Framing.complete SentMessage.line ms cut)
      ((ms.flatMap SentMessage.line).take cut) ↔
      Framing.SafeCut maxLineBytes SentMessage.line ms cut := by
  apply Framing.delivers_iff (by decide)
  · exact fun h => receive_unparsed (.inr hP.newline) remote expected h
  · exact fun h => receive_unparsed (.inl rfl) remote expected h
  · exact fun m h => m.reads hP (hm m h).1 hr (hm m h).2

section Sample

/-- The sample platform with a json.loads that parses. -/
def parsingPlatform : Platform :=
  { samplePlatform with
    loads := fun bs => match loadsText readFloat intPrints (ofAscii bs) with
      | some w => .ok w
      | none => .error .value }

theorem parsing_readsLines : parsingPlatform.ReadsLines readFloat := ⟨fun _ _ _ _ => rfl⟩

theorem parsing_lawful : parsingPlatform.Lawful readFloat where
  digest := sample_lawful.digest
  small := sample_lawful.small
  floats := sample_lawful.floats

def handshakeMessage : SentMessage parsingPlatform requesterIdentity where
  ts := requesterHandshake.ts
  msgType := msgHandshake
  body := .obj []
  line := requesterHandshake.line
  sent := by
    have hs : sealEnvelope parsingPlatform requesterIdentity requesterHandshake.ts msgHandshake
      (.obj [])=.ok requesterHandshake.envelope := sample_seals
    rw [send,hs]
    rfl

theorem handshakeMessage_honest : handshakeMessage.Honest readFloat where
  signed msg h := by
    obtain ⟨hk,hl,hv⟩ := sample_signs msg h
    exact ⟨hk,hl,hv⟩
  readBack _ he := sealed_readBack parsing_lawful sample_sendable he

theorem handshakeMessage_length : handshakeMessage.line.length=346 := by decide +kernel

theorem anyone (r : PeerId) (h : none=some r) : requesterIdentity.peerId parsingPlatform=r := by
  cases h

theorem anyType (types : List PyStr) (h : none=some types) : handshakeMessage.msgType∈types := by
  cases h

theorem framing_sample : Received parsingPlatform none none [handshakeMessage]
    ((handshakeMessage.line++handshakeMessage.line).take 400) := by
  have honest : handshakeMessage.Honest readFloat ∧ ∀types : List PyStr,none=some types →
      handshakeMessage.msgType∈types := ⟨handshakeMessage_honest,anyType⟩
  have hl := handshakeMessage_length
  generalize handshakeMessage=m at honest hl ⊢
  have hm : ∀n∈[m,m],n.Honest readFloat ∧ ∀types : List PyStr,none=some types →
      n.msgType∈types := by
    intro n hn
    have he : n=m := by simpa using hn
    exact he ▸ honest
  have safe : Framing.SafeCut maxLineBytes SentMessage.line [m,m] 400 := by
    simp [Framing.SafeCut,hl,maxLineBytes]
  have hc : Framing.complete SentMessage.line [m,m] 400=[m] := by
    simp only [Framing.complete,hl]
    rfl
  have h := (framing_iff parsing_readsLines anyone hm 400).mpr safe
  rw [hc,List.flatMap_cons,List.flatMap_cons,List.flatMap_nil,List.append_nil] at h
  exact h

/-- A stream that ends between a line and its newline is received as if it were complete. -/
theorem unfinished_line_received : handshakeMessage.Honest readFloat ∧
    ¬Received parsingPlatform none none
      (Framing.complete SentMessage.line [handshakeMessage] 345)
      (([handshakeMessage].flatMap SentMessage.line).take 345) := by
  refine ⟨handshakeMessage_honest,?_⟩
  obtain ⟨text,ht,hreads⟩ := handshakeMessage.reads parsing_readsLines handshakeMessage_honest
    anyone anyType
  have hl : text.length=345 := by
    have := congrArg List.length ht
    rw [handshakeMessage_length,List.length_append,List.length_singleton] at this
    omega
  have hstream : ([handshakeMessage].flatMap SentMessage.line).take 345=text.take 345 := by
    rw [List.flatMap_cons,List.flatMap_nil,List.append_nil,ht,
      List.take_append_of_le_length hl.ge]
  have hnone : Framing.complete SentMessage.line [handshakeMessage] 345=[] := by
    simp only [Framing.complete,handshakeMessage_length]
    rfl
  rw [hstream,hnone]
  intro h
  exact (hreads.fails_iff hl.ge).mp h ⟨hl.symm,by decide⟩

end Sample

end AgentTorrent
