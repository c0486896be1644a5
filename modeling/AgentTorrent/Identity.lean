import AgentTorrent.Python.Platform

namespace AgentTorrent

/-- bytes.fromhex: ASCII white space may stand before each pair of digits. -/
def fromHex : PyStr → Option Bytes
  | [] => some []
  | c::cs =>
    if c.val=0x20 ∨ (9 ≤ c.val ∧ c.val≤13) then fromHex cs
    else match cs with
      | [] => none
      | d::ds => do
        let hi ← hexValue c
        let lo ← hexValue d
        let rest ← fromHex ds
        some (UInt8.ofNat (16*hi+lo)::rest)

def hexText (bs : Bytes) : Bytes :=
  bs.flatMap fun b => [Json.hexDigit (b.toNat/16),Json.hexDigit (b.toNat%16)]

/-- bytes.hex -/
def toHex (bs : Bytes) : PyStr := ofAscii (hexText bs)

def fromHexJson : Json → Except PyExc Bytes
  | .str s => match fromHex s with
    | some bs => .ok bs
    | none => .error .valueError
  | _ => .error .typeError

variable (P : Platform)

def canonicalJson (payload : Json) : Except PyExc Bytes :=
  if P.dumpsDepth < payload.depth then .error .recursionError
  else if payload.intsAll P.intPrints then .ok payload.dumpsCanonical
  else .error .valueError

def peerIdFromPubkey (pubkey : Bytes) : PeerId := P.sha1 pubkey

/-- An Ed25519 key pair: the verify key and what signing yields. -/
structure Identity where
  pubkey : Bytes
  sign : Bytes → Bytes

def Identity.peerId (me : Identity) : PeerId := peerIdFromPubkey P me.pubkey

def sealPayload (sender : PeerId) (ts : PyFloat) (msgType : PyStr) (body : Json) : Json :=
  .obj [(lit "type",.str msgType),(lit "sender",.str sender.val),(lit "ts",.float ts),
    (lit "body",body)]

/-- Identity.seal -/
def sealEnvelope (me : Identity) (ts : PyFloat) (msgType : PyStr) (body : Json) :
    Except PyExc Json := do
  let payload := sealPayload (me.peerId P) ts msgType body
  let msg ← canonicalJson P payload
  return .obj [(lit "v",.int 1),(lit "payload",payload),(lit "pubkey",.str (toHex me.pubkey)),
    (lit "sig",.str (toHex (me.sign msg)))]

/-- A verified message as Identity.open returns it. -/
structure Opened where
  sender : PeerId
  payload : Json

def Opened.msgType (o : Opened) : PyStr := o.payload.strField (lit "type")

def Opened.body (o : Opened) : Option Json := o.payload.get? (lit "body")

/-- The five accesses inside the try of Identity.open. -/
def openFields (envelope : Json) : Except PyExc (Json×Bytes×Bytes×Json×Json) := do
  let payload ← envelope.item (lit "payload")
  let pubkey ← fromHexJson (← envelope.item (lit "pubkey"))
  let sig ← fromHexJson (← envelope.item (lit "sig"))
  let claimedSender ← payload.item (lit "sender")
  let msgType ← payload.item (lit "type")
  return (payload,pubkey,sig,claimedSender,msgType)

/-- VerifyKey(pubkey).verify(canonical_json(payload), sig) -/
def verifyPayload (pubkey : Bytes) (payload : Json) (sig : Bytes) : Except PyExc Unit :=
  if pubkey.length≠32 then .error .valueError
  else match canonicalJson P payload with
    | .error e => .error e
    | .ok msg =>
      if sig.length≠64 then .error .valueError
      else if P.verify pubkey msg sig then .ok ()
      else .error (.envelopeError (lit "bad signature"))

/-- Identity.open -/
def openEnvelope (envelope : Json) : Except PyExc Opened :=
  match openFields envelope with
  | .error (.keyError _) | .error .typeError | .error .valueError =>
      .error (.envelopeError (lit "malformed envelope"))
  | .error e => .error e
  | .ok (payload,pubkey,sig,claimedSender,msgType) =>
    match msgType.asStr,claimedSender.asStr with
    | some _,some sender =>
      if (peerIdFromPubkey P pubkey).val≠sender then
        .error (.envelopeError (lit "sender id does not match public key hash"))
      else match verifyPayload P pubkey payload sig with
        | .error e => .error e
        | .ok () => .ok ⟨peerIdFromPubkey P pubkey,payload⟩
    | _,_ => .error (.envelopeError (lit "malformed envelope: bad type/sender"))

theorem openFields_ok {envelope payload claimedSender msgType : Json} {pubkey sig : Bytes}
    (h : openFields envelope=.ok (payload,pubkey,sig,claimedSender,msgType)) :
    envelope.get? (lit "payload")=some payload ∧
    payload.get? (lit "sender")=some claimedSender ∧
    payload.get? (lit "type")=some msgType := by
  simp only [openFields,except_bind_ok,Json.item_ok_iff] at h
  obtain ⟨p,hp,_,_,_,_,_,_,_,_,c,hc,t,ht,he⟩ := h
  cases he
  exact ⟨hp,hc,ht⟩

theorem verifyPayload_ok {pubkey sig : Bytes} {payload : Json}
    (h : verifyPayload P pubkey payload sig=.ok ()) :
    pubkey.length=32 ∧ sig.length=64 ∧ ∃msg,canonicalJson P payload=.ok msg ∧
      P.verify pubkey msg sig=true := by
  unfold verifyPayload at h
  split at h
  · cases h
  · rename_i hk
    split at h
    · cases h
    · rename_i msg hm
      split_ifs at h with hs hv
      exact ⟨not_not.mp hk,not_not.mp hs,msg,hm,hv⟩

theorem canonicalJson_error {payload : Json} {e : PyExc} (h : canonicalJson P payload=.error e) :
    e=.recursionError ∧ P.dumpsDepth < payload.depth ∨ e=.valueError := by
  unfold canonicalJson at h
  split_ifs at h with hd hi
  · exact .inl ⟨(Except.error.inj h).symm,hd⟩
  · exact .inr (Except.error.inj h).symm

theorem verifyPayload_error {pubkey sig : Bytes} {payload : Json} {e : PyExc}
    (h : verifyPayload P pubkey payload sig=.error e) :
    (∃msg,e=.envelopeError msg) ∨ e=.valueError ∨
      e=.recursionError ∧ P.dumpsDepth < payload.depth := by
  unfold verifyPayload at h
  split at h
  · exact .inr (.inl (Except.error.inj h).symm)
  · split at h
    · rename_i hc
      cases h
      exact .inr (canonicalJson_error P hc).symm
    · split_ifs at h
      · exact .inr (.inl (Except.error.inj h).symm)
      · exact .inl ⟨_,(Except.error.inj h).symm⟩

/-- What an accepted envelope guarantees. -/
theorem openEnvelope_ok {envelope : Json} {o : Opened} (h : openEnvelope P envelope=.ok o) :
    ∃pubkey sig claimedSender msg,
      openFields envelope=.ok (o.payload,pubkey,sig,claimedSender,.str o.msgType) ∧
      peerIdFromPubkey P pubkey=o.sender ∧ canonicalJson P o.payload=.ok msg ∧
      P.verify pubkey msg sig=true := by
  unfold openEnvelope at h
  split at h
  · cases h
  · cases h
  · cases h
  · cases h
  · rename_i payload pubkey sig claimedSender msgType hf
    split at h
    · rename_i t sender htype _
      split_ifs at h with hid
      split at h
      · cases h
      · rename_i hv
        cases h
        obtain ⟨-,-,msg,hm,hs⟩ := verifyPayload_ok P hv
        have ht : payload.get? (lit "type")=some (.str t) := by
          rw [(openFields_ok hf).2.2,Json.asStr_eq_some htype]
        refine ⟨pubkey,sig,claimedSender,msg,?_,rfl,hm,hs⟩
        rw [Opened.msgType,Json.strField_of_get ht,← Json.asStr_eq_some htype]
        exact hf
    · cases h

theorem openFields_error {envelope : Json} {e : PyExc} (h : openFields envelope=.error e) :
    (∃key,e=.keyError key) ∨ e=.typeError ∨ e=.valueError := by
  have hx {v : Json} {e : PyExc} (h : fromHexJson v=.error e) :
      e=.typeError ∨ e=.valueError := by
    cases v with
    | str s =>
      cases hs : fromHex s <;> simp only [fromHexJson,hs] at h
      · exact .inr (Except.error.inj h).symm
      · cases h
    | _ => exact .inl (Except.error.inj h).symm
  have item {v : Json} {k : PyStr} {e : PyExc} (h : v.item k=.error e) :
      (∃key,e=.keyError key) ∨ e=.typeError ∨ e=.valueError :=
    (Json.item_error h).imp (fun he => ⟨k,he⟩) .inl
  simp only [openFields,except_bind_error] at h
  rcases h with h | ⟨_,_,h | ⟨_,_,h | ⟨_,_,h | ⟨_,_,h | ⟨_,_,h | ⟨_,_,h | ⟨_,_,h⟩⟩⟩⟩⟩⟩⟩
  · exact item h
  · exact item h
  · exact .inr (hx h)
  · exact item h
  · exact .inr (hx h)
  · exact item h
  · exact item h
  · cases h

/-- Identity.open raises EnvelopeError, or a ValueError of VerifyKey and verify,
or RecursionError where the payload nests too deep to be printed. -/
theorem openEnvelope_error {envelope : Json} {e : PyExc}
    (h : openEnvelope P envelope=.error e) :
    (∃msg,e=.envelopeError msg) ∨ e=.valueError ∨
      e=.recursionError ∧ P.dumpsDepth < envelope.depth := by
  unfold openEnvelope at h
  split at h
  · exact .inl ⟨_,(Except.error.inj h).symm⟩
  · exact .inl ⟨_,(Except.error.inj h).symm⟩
  · exact .inl ⟨_,(Except.error.inj h).symm⟩
  · rename_i d h1 h2 h3 hf
    rcases openFields_error hf with ⟨key,rfl⟩ | rfl | rfl
    · exact absurd rfl (h1 key)
    · exact absurd rfl h2
    · exact absurd rfl h3
  · rename_i payload pubkey sig claimedSender msgType hf
    have hd := Json.depth_get? (openFields_ok hf).1
    split at h
    · split_ifs at h
      · exact .inl ⟨_,(Except.error.inj h).symm⟩
      · split at h
        · rename_i hv
          cases h
          rcases verifyPayload_error P hv with hv | hv | ⟨hv,hp⟩
          · exact .inl hv
          · exact .inr (.inl hv)
          · exact .inr (.inr ⟨hv,hp.trans hd⟩)
        · cases h
    · exact .inl ⟨_,(Except.error.inj h).symm⟩

end AgentTorrent
