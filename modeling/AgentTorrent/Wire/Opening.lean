import AgentTorrent.Transcript

namespace AgentTorrent

variable (P : Platform)

/-- An envelope of the right shape whose sender is the hash of the key it carries.
Only the signature is left to check. -/
structure Presents (envelope payload : Json) (pubkey sig : Bytes) : Prop where
  carried : envelope.get? (lit "payload")=some payload
  keyHex : ∃s,envelope.get? (lit "pubkey")=some (.str s) ∧ fromHex s=some pubkey
  sigHex : ∃s,envelope.get? (lit "sig")=some (.str s) ∧ fromHex s=some sig
  sender : payload.get? (lit "sender")=some (.str (peerIdFromPubkey P pubkey).val)
  msgType : ∃t,payload.get? (lit "type")=some (.str t)

/-- The signature verifies over canonical_json(payload). -/
structure Verifies (pubkey : Bytes) (payload : Json) (sig : Bytes) : Prop where
  keyLength : pubkey.length=32
  sigLength : sig.length=64
  signed : ∃msg,canonicalJson P payload=.ok msg ∧ P.verify pubkey msg sig=true

/-- What Identity.open is to accept, and what it is to return. -/
def OpensTo (envelope : Json) (o : Opened) : Prop :=
  ∃pubkey sig,Presents P envelope o.payload pubkey sig ∧ o.sender=peerIdFromPubkey P pubkey ∧
    Verifies P pubkey o.payload sig

/-- The key and the signature have their lengths and the payload prints, so that the
check of the signature gives an answer. -/
structure Checkable (pubkey : Bytes) (payload : Json) (sig : Bytes) : Prop where
  keyLength : pubkey.length=32
  sigLength : sig.length=64
  prints : ∃msg,canonicalJson P payload=.ok msg

theorem fromHexJson_ok_iff (v : Json) (bs : Bytes) :
    fromHexJson v=.ok bs ↔ ∃s,v=.str s ∧ fromHex s=some bs := by
  cases v with
  | str s => cases h : fromHex s <;> simp [fromHexJson,h]
  | _ => simp [fromHexJson]

theorem openFields_ok_iff (envelope payload claimedSender msgType : Json) (pubkey sig : Bytes) :
    openFields envelope=.ok (payload,pubkey,sig,claimedSender,msgType) ↔
      envelope.get? (lit "payload")=some payload ∧
      (∃s,envelope.get? (lit "pubkey")=some (.str s) ∧ fromHex s=some pubkey) ∧
      (∃s,envelope.get? (lit "sig")=some (.str s) ∧ fromHex s=some sig) ∧
      payload.get? (lit "sender")=some claimedSender ∧
      payload.get? (lit "type")=some msgType := by
  have hex (key : PyStr) (bs : Bytes) :
      (∃v,envelope.get? key=some v ∧ fromHexJson v=.ok bs) ↔
        ∃s,envelope.get? key=some (.str s) ∧ fromHex s=some bs := by
    simp only [fromHexJson_ok_iff]
    constructor
    · intro h
      obtain ⟨v,hv,s,rfl,hs⟩ := h
      exact ⟨s,hv,hs⟩
    · intro h
      obtain ⟨s,hv,hs⟩ := h
      exact ⟨_,hv,s,rfl,hs⟩
  rw [← hex,← hex]
  simp only [openFields,except_bind_ok,Json.item_ok_iff]
  constructor
  · intro h
    obtain ⟨p,hp,k,hk,kb,hkb,s,hs,sb,hsb,c,hc,t,ht,he⟩ := h
    cases he
    exact ⟨hp,⟨k,hk,hkb⟩,⟨s,hs,hsb⟩,hc,ht⟩
  · intro h
    obtain ⟨hp,⟨k,hk,hkb⟩,⟨s,hs,hsb⟩,hc,ht⟩ := h
    exact ⟨payload,hp,k,hk,pubkey,hkb,s,hs,sig,hsb,claimedSender,hc,msgType,ht,rfl⟩

section Open

variable {P} {envelope payload : Json} {pubkey sig : Bytes}

theorem Presents.fields (h : Presents P envelope payload pubkey sig) :
    ∃t,openFields envelope=
      .ok (payload,pubkey,sig,.str (peerIdFromPubkey P pubkey).val,.str t) := by
  obtain ⟨t,ht⟩ := h.msgType
  exact ⟨t,(openFields_ok_iff ..).mpr ⟨h.carried,h.keyHex,h.sigHex,h.sender,ht⟩⟩

/-- An envelope presents one payload, one key and one signature. -/
theorem Presents.unique {payload' : Json} {pubkey' sig' : Bytes}
    (h : Presents P envelope payload pubkey sig) (h' : Presents P envelope payload' pubkey' sig') :
    payload=payload' ∧ pubkey=pubkey' ∧ sig=sig' := by
  obtain ⟨t,ht⟩ := h.fields
  obtain ⟨t',ht'⟩ := h'.fields
  rw [ht] at ht'
  cases ht'
  exact ⟨rfl,rfl,rfl⟩

/-- What is left to Identity.open once the envelope presents itself. -/
theorem Presents.open_eq (h : Presents P envelope payload pubkey sig) :
    openEnvelope P envelope=match verifyPayload P pubkey payload sig with
      | .error e => .error e
      | .ok () => .ok ⟨peerIdFromPubkey P pubkey,payload⟩ := by
  obtain ⟨t,ht⟩ := h.fields
  rw [openEnvelope,ht]
  exact if_neg (not_not.mpr rfl)

/-- Any other envelope is malformed. -/
theorem open_of_not_presents (h : ∀payload pubkey sig,¬Presents P envelope payload pubkey sig) :
    ∃msg,openEnvelope P envelope=.error (.envelopeError msg) := by
  unfold openEnvelope
  split
  · exact ⟨_,rfl⟩
  · exact ⟨_,rfl⟩
  · exact ⟨_,rfl⟩
  · rename_i h1 h2 h3 hf
    rcases openFields_error hf with ⟨key,rfl⟩ | rfl | rfl
    · exact absurd rfl (h1 key)
    · exact absurd rfl h2
    · exact absurd rfl h3
  · rename_i payload pubkey sig claimedSender msgType hf
    obtain ⟨hp,hk,hs,hc,ht⟩ := (openFields_ok_iff ..).mp hf
    split
    · rename_i t sender htype hsender
      split_ifs with hid
      · exact ⟨_,rfl⟩
      · rw [Json.asStr_eq_some hsender,← not_not.mp hid] at hc
        rw [Json.asStr_eq_some htype] at ht
        exact absurd ⟨hp,hk,hs,hc,t,ht⟩ (h payload pubkey sig)
    · exact ⟨_,rfl⟩

theorem verifyPayload_ok_iff : verifyPayload P pubkey payload sig=.ok () ↔
    Verifies P pubkey payload sig := by
  constructor
  · intro h
    obtain ⟨hk,hs,hm⟩ := verifyPayload_ok P h
    exact ⟨hk,hs,hm⟩
  · intro h
    obtain ⟨hk,hs,msg,hm,hv⟩ := h
    rw [verifyPayload,if_neg (not_not.mpr hk),hm]
    simp only [hs,hv,ne_eq,not_true_eq_false,if_false,if_true]

/-- The check answers with EnvelopeError, or not at all, exactly where it can be made. -/
theorem checkable_iff : Checkable P pubkey payload sig ↔
    ∀e,verifyPayload P pubkey payload sig=.error e → ∃msg,e=.envelopeError msg := by
  constructor
  · intro h e he
    obtain ⟨hk,hs,msg,hm⟩ := h
    rw [verifyPayload,if_neg (not_not.mpr hk),hm] at he
    simp only [hs,ne_eq,not_true_eq_false,if_false] at he
    split_ifs at he
    exact ⟨_,(Except.error.inj he).symm⟩
  · intro h
    have hk : pubkey.length=32 := by
      by_contra hk
      obtain ⟨msg,hm⟩ := h .valueError (by rw [verifyPayload,if_pos hk])
      cases hm
    have hp : ∃msg,canonicalJson P payload=.ok msg := by
      cases hc : canonicalJson P payload with
      | ok msg => exact ⟨msg,rfl⟩
      | error e =>
        obtain ⟨msg,hm⟩ := h e (by rw [verifyPayload,if_neg (not_not.mpr hk),hc])
        rcases canonicalJson_error P hc with ⟨he,-⟩ | he
        · cases he.symm.trans hm
        · cases he.symm.trans hm
    obtain ⟨msg,hc⟩ := hp
    refine ⟨hk,?_,msg,hc⟩
    by_contra hs
    obtain ⟨msg',hm⟩ := h .valueError (by
      rw [verifyPayload,if_neg (not_not.mpr hk),hc]
      simp only [hs,ne_eq,not_false_eq_true,if_true])
    cases hm

/-- Exactly the valid envelopes are accepted. -/
theorem openEnvelope_ok_iff (o : Opened) :
    openEnvelope P envelope=.ok o ↔ OpensTo P envelope o := by
  by_cases hp : ∃payload pubkey sig,Presents P envelope payload pubkey sig
  · obtain ⟨payload,pubkey,sig,hp⟩ := hp
    rw [hp.open_eq]
    constructor
    · intro h
      split at h
      · cases h
      · rename_i hv
        cases h
        exact ⟨pubkey,sig,hp,rfl,verifyPayload_ok_iff.mp hv⟩
    · intro h
      obtain ⟨k,s,hp',ho,hv⟩ := h
      obtain ⟨hpay,rfl,rfl⟩ := hp.unique hp'
      rw [← hpay] at hv
      simp only [verifyPayload_ok_iff.mpr hv]
      rw [hpay,← ho]
  · obtain ⟨msg,hm⟩ := open_of_not_presents (by simpa using hp)
    constructor
    · intro h
      rw [hm] at h
      cases h
    · intro h
      obtain ⟨k,s,hp',-⟩ := h
      exact absurd ⟨_,_,_,hp'⟩ hp

end Open

/-- Identity.open accepts exactly the valid envelopes and raises EnvelopeError for
every other, just where each envelope that presents itself can be checked. -/
theorem open_promise_iff (envelope : Json) :
    ((∀o,openEnvelope P envelope=.ok o ↔ OpensTo P envelope o) ∧
      ∀e,openEnvelope P envelope=.error e → ∃msg,e=.envelopeError msg) ↔
    ∀payload pubkey sig,Presents P envelope payload pubkey sig →
      Checkable P pubkey payload sig := by
  constructor
  · intro h payload pubkey sig hp
    refine checkable_iff.mpr fun e he => h.2 e ?_
    rw [hp.open_eq,he]
  · intro h
    refine ⟨openEnvelope_ok_iff,?_⟩
    intro e he
    by_cases hp : ∃payload pubkey sig,Presents P envelope payload pubkey sig
    · obtain ⟨payload,pubkey,sig,hp⟩ := hp
      rw [hp.open_eq] at he
      split at he
      · rename_i hv
        cases he
        exact checkable_iff.mp (h payload pubkey sig hp) e hv
      · cases he
    · obtain ⟨msg,hm⟩ := open_of_not_presents (by simpa using hp)
      rw [hm] at he
      exact ⟨msg,(Except.error.inj he).symm⟩

/-- The worker's beacon with its signature cut off. -/
def unsignedBeacon : Json :=
  .obj [(lit "v",.int 1),(lit "payload",workerBeacon.payload),
    (lit "pubkey",.str (toHex workerKey)),(lit "sig",.str [])]

/-- An empty signature is no EnvelopeError but a ValueError of verify. -/
theorem open_promise_fails :
    openEnvelope samplePlatform unsignedBeacon=.error .valueError ∧
    ¬((∀o,openEnvelope samplePlatform unsignedBeacon=.ok o ↔
        OpensTo samplePlatform unsignedBeacon o) ∧
      ∀e,openEnvelope samplePlatform unsignedBeacon=.error e → ∃msg,e=.envelopeError msg) := by
  have hm : workerBeacon∈sampleTranscript := by simp [sampleTranscript]
  have hp : Presents samplePlatform unsignedBeacon workerBeacon.payload workerKey [] := by
    refine ⟨rfl,⟨_,rfl,fromHex_toHex workerKey⟩,⟨[],rfl,rfl⟩,?_,⟨_,rfl⟩⟩
    have he : peerIdFromPubkey samplePlatform workerKey=workerId :=
      transcript_sha1 sampleTranscript_consistent hm
    rw [he]
    rfl
  have he : openEnvelope samplePlatform unsignedBeacon=.error .valueError := by
    have hk : workerKey.length=32 := (sampleTranscript_consistent.lengths _ hm).1
    have hc : canonicalJson samplePlatform workerBeacon.payload=
        .ok workerBeacon.payload.dumpsCanonical :=
      transcript_canonical sampleTranscript_consistent hm
    rw [hp.open_eq,verifyPayload,if_neg (not_not.mpr hk),hc]
    rfl
  refine ⟨he,?_⟩
  intro h
  obtain ⟨msg,hm⟩ := h.2 _ he
  cases hm

end AgentTorrent
