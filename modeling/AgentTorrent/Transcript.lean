import AgentTorrent.Job
import AgentTorrent.Protocol

namespace AgentTorrent

/-- One message of a transcript, with the signature that its sender made. -/
structure Signed where
  pubkey : Bytes
  peerId : PeerId
  ts : PyFloat
  msgType : PyStr
  body : Json
  sig : Bytes

namespace Signed

variable (m : Signed)

def payload : Json := sealPayload m.peerId m.ts m.msgType m.body

def envelope : Json :=
  .obj [(lit "v",.int 1),(lit "payload",m.payload),(lit "pubkey",.str (toHex m.pubkey)),
    (lit "sig",.str (toHex m.sig))]

/-- The text as a UDP datagram carries it. -/
def text : Bytes := m.envelope.dumps

/-- The text as a TCP connection carries it. -/
def line : Bytes := m.text++ascii "\n"

def opened : Opened := ⟨m.peerId,m.payload⟩

@[simp] theorem opened_sender : m.opened.sender=m.peerId := rfl

@[simp] theorem opened_msgType : m.opened.msgType=m.msgType := rfl

@[simp] theorem opened_body : m.opened.body=some m.body := rfl

end Signed

/-- An int of more than 4300 digits is not printed. -/
@[irreducible] def intPrints (n : Int) : Bool := n.natAbs<Nat.pow 10 4300

/-- An id that no key of a transcript has. -/
def nobodyId : PeerId := ⟨lit "0000000000000000000000000000000000000000",rfl⟩

def ProtocolFault.text : ProtocolFault → PyStr
  | .sendFailed => lit "send failed"
  | .timedOut => lit "timed out waiting for message"
  | .connectionError => lit "connection error"
  | .closedByRemote => lit "connection closed by remote peer"
  | .unverifiable => lit "rejected unverifiable message"
  | .senderChanged => lit "sender id changed mid-connection"
  | .unexpectedType _ _ => lit "unexpected type"
  | .cannotConnect => lit "cannot connect"
  | .wrongPeer _ _ => lit "identified as another peer"
  | .differentJob => lit "TASK_RESULT is for a different job"

/-- A platform that knows the texts, the keys and the signatures of a transcript
and nothing else. -/
def Platform.ofTranscript (ms : List Signed) : Platform where
  loads bs := match ms.find? fun m => m.line=bs ∨ m.text=bs with
    | some m => .ok m.envelope
    | none => .error .value
  dumpsDepth := 900
  strDepth := 900
  intPrints := AgentTorrent.intPrints
  timeoutFits n := n+15≤9223372036
  decimal _ := none
  encodes c := c.val<0xd800 || 0xdfff<c.val || (0xdc80 ≤ c.val && c.val≤0xdcff)
  str
    | .str s => s
    | .null => lit "None"
    | .bool true => lit "True"
    | .bool false => lit "False"
    | v => ofAscii v.dumps
  repr
    | .str s => lit "'"++s++lit "'"
    | .null => lit "None"
    | .bool true => lit "True"
    | .bool false => lit "False"
    | v => ofAscii v.dumps
  describe := ProtocolFault.text
  sha1 bs := ((ms.find? fun m => m.pubkey=bs).map Signed.peerId).getD nobodyId
  verify pubkey msg sig :=
    ms.any fun m => m.pubkey=pubkey ∧ m.sig=sig ∧ m.payload.dumpsCanonical=msg

/-- Keys and signatures have their lengths, a key has one id, and no signature
stands under two messages. -/
structure Consistent (ms : List Signed) : Prop where
  lengths : ∀m∈ms,m.pubkey.length=32 ∧ m.sig.length=64
  oneId : ∀m∈ms,∀n∈ms,m.pubkey=n.pubkey → m.peerId=n.peerId
  oneSig : (ms.map Signed.sig).Nodup
  prints : ∀m∈ms,m.envelope.depth≤900 ∧ m.payload.intsAll intPrints=true

theorem toHex_cons (b : UInt8) (bs : Bytes) :
    toHex (b::bs)=Fin.ofNat _ (Json.hexDigit (b.toNat/16)).toNat::
      Fin.ofNat _ (Json.hexDigit (b.toNat%16)).toNat::toHex bs := rfl

theorem hexDigit_no_space (n : Fin 16) :
    ¬((Fin.ofNat 0x110000 (Json.hexDigit n.val).toNat).val=0x20 ∨
      (9 ≤ (Fin.ofNat 0x110000 (Json.hexDigit n.val).toNat).val ∧
        (Fin.ofNat 0x110000 (Json.hexDigit n.val).toNat).val≤13)) := by
  revert n
  decide

/-- bytes.fromhex reads back what bytes.hex wrote. -/
theorem fromHex_toHex (bs : Bytes) : fromHex (toHex bs)=some bs := by
  induction bs with
  | nil => rfl
  | cons b bs ih =>
    have hb : b.toNat<256 := b.toNat_lt
    have hi := Json.hexValue_hexDigit ⟨b.toNat/16,by omega⟩
    have lo := Json.hexValue_hexDigit ⟨b.toNat%16,by omega⟩
    have sp := hexDigit_no_space ⟨b.toNat/16,by omega⟩
    have byte : UInt8.ofNat (16*(b.toNat/16)+b.toNat%16)=b := by
      rw [Nat.div_add_mod]
      exact UInt8.ofNat_toNat
    rw [toHex_cons,fromHex,if_neg sp]
    simp only [hi,lo,ih,Option.bind_eq_bind,Option.bind_some,byte]

theorem renderChar_hexDigit (n : Fin 16) :
    Json.renderChar (Fin.ofNat _ (Json.hexDigit n.val).toNat)=[Json.hexDigit n.val] := by
  revert n
  decide

theorem hexDigit_injective (m n : Fin 16) (h : Json.hexDigit m.val=Json.hexDigit n.val) :
    m=n := by
  revert m n
  decide

theorem renderStr_toHex (bs : Bytes) :
    Json.renderStr (toHex bs)=ascii "\""++hexText bs++ascii "\"" := by
  rw [Json.renderStr]
  congr 2
  induction bs with
  | nil => rfl
  | cons b bs ih =>
    have hb : b.toNat<256 := b.toNat_lt
    have hi := renderChar_hexDigit ⟨b.toNat/16,by omega⟩
    have lo := renderChar_hexDigit ⟨b.toNat%16,by omega⟩
    rw [toHex_cons,List.flatMap_cons,List.flatMap_cons]
    rw [hi,lo,ih]
    rfl

theorem hexText_length (bs : Bytes) : (hexText bs).length=2*bs.length := by
  simp [hexText,List.length_flatMap,Nat.mul_comm]

theorem hexText_injective : Function.Injective hexText := by
  intro bs cs h
  induction bs generalizing cs with
  | nil => cases cs with
    | nil => rfl
    | cons c cs => cases h
  | cons b bs ih => cases cs with
    | nil => cases h
    | cons c cs =>
      have hb : b.toNat<256 := b.toNat_lt
      have hc : c.toNat<256 := c.toNat_lt
      simp only [hexText,List.flatMap_cons,List.cons_append,List.nil_append,List.cons.injEq] at h
      have hi := hexDigit_injective ⟨b.toNat/16,by omega⟩ ⟨c.toNat/16,by omega⟩ h.1
      have lo := hexDigit_injective ⟨b.toNat%16,by omega⟩ ⟨c.toNat%16,by omega⟩ h.2.1
      rw [Fin.mk.injEq] at hi lo
      have e : b=c := UInt8.toNat_inj.mp (by omega)
      rw [e,ih h.2.2]

/-- A text ends in the signature. -/
theorem text_split (m : Signed) :
    ∃pre,m.text=pre++(hexText m.sig++(ascii "\""++ascii "\x7d")) := by
  let item := ascii ", "
  let colon := ascii ": "
  refine ⟨ascii "\x7b"++Json.renderStr (lit "v")++colon++Json.renderInt 1++
    (item++Json.renderStr (lit "payload")++colon++m.payload.render item colon)++
    (item++Json.renderStr (lit "pubkey")++colon++Json.renderStr (toHex m.pubkey))++
    (item++Json.renderStr (lit "sig")++colon++ascii "\""),?_⟩
  simp only [Signed.text,Signed.envelope,Json.dumps,Json.render,Json.renderMembers,
    renderStr_toHex m.sig,List.append_assoc,List.append_nil,item,colon]

theorem text_sig {m n : Signed} (hl : m.sig.length=n.sig.length) (h : m.text=n.text) :
    m.sig=n.sig := by
  obtain ⟨a,ha⟩ := text_split m
  obtain ⟨b,hb⟩ := text_split n
  rw [ha,hb] at h
  have hs := (List.append_inj' h (by simp [hexText_length,hl])).2
  exact hexText_injective (List.append_cancel_right hs)

/-- A line ends in a newline, a text in the brace of its envelope. -/
theorem line_ne_text (m n : Signed) : m.line≠n.text := by
  have ht : ∃bs,n.text=bs++ascii "\x7d" :=
    ⟨_,by rw [Signed.text,Signed.envelope,Json.dumps,Json.render]⟩
  obtain ⟨bs,ht⟩ := ht
  intro h
  rw [Signed.line,ht] at h
  have := (List.append_inj' h rfl).2
  exact absurd this (by decide)

section Opens

variable {ms : List Signed} (h : Consistent ms)

include h

theorem transcript_sha1 {m : Signed} (hm : m∈ms) :
    peerIdFromPubkey (.ofTranscript ms) m.pubkey=m.peerId := by
  cases hf : ms.find? fun n => n.pubkey=m.pubkey with
  | none => simpa using List.find?_eq_none.mp hf m hm
  | some n =>
    have hk : n.pubkey=m.pubkey := by simpa using List.find?_some hf
    simp only [peerIdFromPubkey,Platform.ofTranscript,hf,Option.map_some,Option.getD_some]
    exact h.oneId n (List.mem_of_find?_eq_some hf) m hm hk

theorem transcript_canonical {m : Signed} (hm : m∈ms) :
    canonicalJson (.ofTranscript ms) m.payload=.ok m.payload.dumpsCanonical := by
  obtain ⟨hd,hi⟩ := h.prints m hm
  have ints : (Platform.ofTranscript ms).intPrints=intPrints := rfl
  have depth : (Platform.ofTranscript ms).dumpsDepth=900 := rfl
  have payload : m.envelope.get? (lit "payload")=some m.payload := rfl
  have inner : m.payload.depth < m.envelope.depth := Json.depth_get? payload
  rw [canonicalJson,ints,depth,if_neg (Nat.not_lt.mpr (inner.le.trans hd)),if_pos hi]

omit h in
theorem signed_fields (m : Signed) : openFields m.envelope=
    .ok (m.payload,m.pubkey,m.sig,.str m.peerId.val,.str m.msgType) := by
  have hp : fromHexJson (.str (toHex m.pubkey))=.ok m.pubkey := by
    rw [fromHexJson,fromHex_toHex]
  have hg : fromHexJson (.str (toHex m.sig))=.ok m.sig := by
    rw [fromHexJson,fromHex_toHex]
  have i1 : m.envelope.item (lit "payload")=.ok m.payload := rfl
  have i2 : m.envelope.item (lit "pubkey")=.ok (.str (toHex m.pubkey)) := rfl
  have i3 : m.envelope.item (lit "sig")=.ok (.str (toHex m.sig)) := rfl
  have i4 : m.payload.item (lit "sender")=.ok (.str m.peerId.val) := rfl
  have i5 : m.payload.item (lit "type")=.ok (.str m.msgType) := rfl
  simp only [openFields,i1,i2,i3,i4,i5,hp,hg,bind,Except.bind]
  rfl

/-- Every envelope of a consistent transcript opens as what was sealed. -/
theorem transcript_opens {m : Signed} (hm : m∈ms) :
    openEnvelope (.ofTranscript ms) m.envelope=.ok m.opened := by
  obtain ⟨hk,hs⟩ := h.lengths m hm
  have signed : (Platform.ofTranscript ms).verify m.pubkey m.payload.dumpsCanonical m.sig=true :=
    List.any_eq_true.mpr ⟨m,hm,by simp⟩
  have verified : verifyPayload (.ofTranscript ms) m.pubkey m.payload m.sig=.ok () := by
    rw [verifyPayload,if_neg (not_not.mpr hk),transcript_canonical h hm]
    simp only [hs,signed,ne_eq,not_true_eq_false,if_false,if_true]
  simp only [openEnvelope,signed_fields,Json.asStr_str,transcript_sha1 h hm,verified,ne_eq,
    not_true_eq_false,if_false]
  rfl

/-- Each text of the transcript is parsed to its envelope. -/
theorem transcript_loads {m : Signed} (hm : m∈ms) {bs : Bytes} (hb : m.line=bs ∨ m.text=bs) :
    (Platform.ofTranscript ms).loads bs=.ok m.envelope := by
  cases hf : ms.find? fun n => n.line=bs ∨ n.text=bs with
  | none => simpa [hb] using List.find?_eq_none.mp hf m hm
  | some n =>
    have hn : n.line=bs ∨ n.text=bs := by simpa using List.find?_some hf
    have ht : n.text=m.text := by
      rcases hb with rfl | rfl <;> rcases hn with hn | hn
      · exact List.append_cancel_right hn
      · exact absurd hn.symm (line_ne_text m n)
      · exact absurd hn (line_ne_text n m)
      · exact hn
    have hnm := List.mem_of_find?_eq_some hf
    have hs : n.sig=m.sig :=
      text_sig ((h.lengths n hnm).2.trans (h.lengths m hm).2.symm) ht
    have he : n=m := List.inj_on_of_nodup_map h.oneSig hnm hm hs
    simp only [Platform.ofTranscript,hf,he]

/-- Reading a line of the transcript gives what was sealed. -/
theorem transcript_reads {m : Signed} (hm : m∈ms) (bound : m.line.length ≤ maxLineBytes) :
    readOpened (.ofTranscript ms) (.line m.line bound)=.ok m.opened := by
  have hn : m.line≠[] := List.append_ne_nil_of_right_ne_nil _ (by decide)
  simp only [readOpened,hn,if_false,transcript_loads h hm (.inl rfl),transcript_opens h hm]

end Opens

section Sample

/-- The bytes of a number, most significant first. -/
def bytesOf : Nat → Nat → Bytes
  | 0,_ => []
  | n+1,x => UInt8.ofNat (x/256^n%256)::bytesOf n x

def sampleJob : Job where
  jobId := ⟨lit "6f1c2b9e0d3a4c5f8e7b6a5948372615",by decide⟩
  taskText := ⟨lit "reverse a string",by decide⟩
  requiredHarness := ⟨lit "any",by decide⟩
  maxTokens := ⟨256,by decide⟩
  maxRuntimeSeconds := ⟨60,by decide⟩
  expectedOutput := ⟨lit "a function",by decide⟩

def sampleRuntime : PyFloat := ⟨ascii "4.125",by decide⟩

def sampleArgs : DelegateArgs where
  taskText := .str (lit "reverse a string")
  requiredHarness := .str (lit "any")
  maxTokens := .int 256
  maxRuntimeSeconds := .int 60
  expectedOutput := .str (lit "a function")

def requesterId : PeerId := ⟨lit "c57030bd3864f6eb009d7dc40f9b51973e9dcb62",rfl⟩

def workerId : PeerId := ⟨lit "e675d0c4980ba26fa0981a6ae60a681f602f9688",rfl⟩

def requesterKey : Bytes :=
  bytesOf 32 0x1f4793d00edddf2bc5503a30b2e7cadd3c37b8e46e0eeb9f6ebfa7184bf7dd5c

def workerKey : Bytes :=
  bytesOf 32 0xb97c10319c383a53616d340e80a477c87e44b37098b2555ef9631ff43bb23870

def requesterHandshake : Signed where
  pubkey := requesterKey
  peerId := requesterId
  ts := ⟨ascii "1760000010.5",by decide⟩
  msgType := msgHandshake
  body := .obj []
  sig := bytesOf 32 0x1f17f4455f75357f9df452371555cc9b590fd682cdbb8e5b6dc58ef88205a42a++
    bytesOf 32 0xf64a54ebf2834924ac99c9c6f4067c5dab0c5664a60bce5f463d065ce201a60f

def requesterOffer : Signed where
  pubkey := requesterKey
  peerId := requesterId
  ts := ⟨ascii "1760000011.5",by decide⟩
  msgType := msgTaskOffer
  body := .obj [(lit "job",sampleJob.toJson)]
  sig := bytesOf 32 0x1cb98b3aa09c4a6136c420efad04f020e04838e97b0f5b4751ec51e78e0969fc++
    bytesOf 32 0x057fb7b28d0614158aa148e742fb73e1fcb77271a88dcd5b7a65da6585fc8706

def requesterControl : Signed where
  pubkey := requesterKey
  peerId := requesterId
  ts := ⟨ascii "1760000009.5",by decide⟩
  msgType := msgControl
  body := .obj [(lit "command",.str (lit "delegate")),
    (lit "args",.obj [(lit "task_text",sampleArgs.taskText),
      (lit "required_harness",sampleArgs.requiredHarness),
      (lit "max_tokens",sampleArgs.maxTokens),
      (lit "max_runtime_seconds",sampleArgs.maxRuntimeSeconds),
      (lit "expected_output",sampleArgs.expectedOutput)])]
  sig := bytesOf 32 0x1953fa183f2ff8be4628e460046f5bccc2993757c8a3b2a1e862d0d420032065++
    bytesOf 32 0xf884bfb1728d90de95891d120e2f26d2c68063256e2cac8b1eb5d9e416e7ea03

def workerHandshake : Signed where
  pubkey := workerKey
  peerId := workerId
  ts := ⟨ascii "1760000010.75",by decide⟩
  msgType := msgHandshake
  body := .obj []
  sig := bytesOf 32 0xca62e7a641989e8ac64c9ff99f28123f4523e3d9f0f0a1c4a8f42dbb1fa969a5++
    bytesOf 32 0xc2c26000e8db67fe3e8fb8e0131b5b3596439aa0d4b52258af3733f4e6d47707

def workerAccept : Signed where
  pubkey := workerKey
  peerId := workerId
  ts := ⟨ascii "1760000012.25",by decide⟩
  msgType := msgTaskAccept
  body := .obj [(lit "job_id",.str sampleJob.id)]
  sig := bytesOf 32 0x78200185c3333544c9a4078e0a9bab8f25a0284802bb989ff0c30756faa5ca23++
    bytesOf 32 0xa76ea844162c89784b6f3eb373ed2b426d8ff29881f36d32ffb9f37b4d7fb10e

def workerResult : Signed where
  pubkey := workerKey
  peerId := workerId
  ts := ⟨ascii "1760000016.75",by decide⟩
  msgType := msgTaskResult
  body := .obj [(lit "job_id",.str sampleJob.id),
    (lit "result",.obj [(lit "job_id",.str sampleJob.id),(lit "status",.str (lit "ok")),
      (lit "output",.str (lit "s[::-1]")),(lit "harness",.str (lit "claude")),
      (lit "simulated",.bool false),
      (lit "runtime_seconds",.float sampleRuntime)])]
  sig := bytesOf 32 0x5e1664d094f70ab1ed8dae2241b3c5baa2b7ee9744e8409fee1a54d0ec0cd479++
    bytesOf 32 0xb39029c4e5d9bf11041fbce9b3e5439f586fcd71b6db25a5624527e6b9210b07

/-- A TASK_ACCEPT whose body is a list. -/
def workerListAccept : Signed where
  pubkey := workerKey
  peerId := workerId
  ts := ⟨ascii "1760000012.5",by decide⟩
  msgType := msgTaskAccept
  body := .arr []
  sig := bytesOf 32 0x7bd7098116e3fa55f5e4d52eb32e4fde6de0aa2693fa015e4c42d8a1189de531++
    bytesOf 32 0x0d04f7ecc820826d4da4e2252fd1ca2e90ab9fd923411708b1981c24c2fa0608

/-- A BEACON whose body is a list. -/
def workerListBeacon : Signed where
  pubkey := workerKey
  peerId := workerId
  ts := ⟨ascii "1760000000.25",by decide⟩
  msgType := lit "BEACON"
  body := .arr []
  sig := bytesOf 32 0x859a13a3c4c1a2833322dbf30d3b13fcb128356fe06ab5a4357c9c691a398765++
    bytesOf 32 0x620cf1d23b911adafbd71b4ea71b1fb00e7b0e222132272b804316afec8aea0d

def workerManifest : Json :=
  .obj [(lit "peer_id",.str workerId.val),(lit "harnesses",.obj [(lit "claude",.str (lit "1.0.3"))]),
    (lit "max_runtime_seconds",.int 300),(lit "accepts_tasks",.bool true)]

def workerBeacon : Signed where
  pubkey := workerKey
  peerId := workerId
  ts := ⟨ascii "1760000005.25",by decide⟩
  msgType := lit "BEACON"
  body := .obj [(lit "tcp_port",.int 40123),(lit "manifest",workerManifest)]
  sig := bytesOf 32 0x1cef0821331cd2a1034493a289d5973315f9c992ffb49bf5ab76070022832247++
    bytesOf 32 0x8386aa82a26fb432b0ba6a168bbbc0720964154b9e1064c2b3fc1fd42b86ab06

/-- What a requester and a worker sealed around one job, and two messages of the
worker that carry no object. -/
def sampleTranscript : List Signed :=
  [requesterHandshake,requesterOffer,requesterControl,workerHandshake,workerAccept,workerResult,
    workerListAccept,workerListBeacon,workerBeacon]

theorem sampleTranscript_consistent : Consistent sampleTranscript where
  lengths := by decide
  oneId := by decide
  oneSig := by decide
  prints := by decide +kernel

def samplePlatform : Platform := .ofTranscript sampleTranscript

/-- Signing as the holder of a key does it for the messages of the transcript. -/
def sampleSign (pubkey msg : Bytes) : Bytes :=
  ((sampleTranscript.find? fun m => m.pubkey=pubkey ∧ m.payload.dumpsCanonical=msg).map
    Signed.sig).getD []

def requesterIdentity : Identity := ⟨requesterKey,sampleSign requesterKey⟩

def workerIdentity : Identity := ⟨workerKey,sampleSign workerKey⟩

end Sample

end AgentTorrent
