import AgentTorrent.Python.JsonLoads
import AgentTorrent.Wire.Opening

open AgentTorrent.Json

namespace AgentTorrent

variable (P : Platform)

/-- What is assumed of the interpreter: a digest is a text of hexadecimal digits, short
integers print, and a finite float is read back from its text. -/
structure Platform.Lawful (float : PyStr → PyFloat) : Prop where
  digest : ∀bs,(P.sha1 bs).val.all isCarried=true
  small : ∀n : Int,n.natAbs<10 → P.intPrints n=true
  floats : ∀f : PyFloat,f.isFinite=true → float (ofAscii f.repr)=f

/-- What is assumed of Ed25519: the lengths of keys and signatures, and that what the
identity signs verifies under its own key. -/
structure Identity.Signs (me : Identity) (msg : Bytes) : Prop where
  keyLength : me.pubkey.length=32
  sigLength : (me.sign msg).length=64
  verifies : P.verify me.pubkey msg (me.sign msg)=true

variable {P} {float : PyStr → PyFloat} {me : Identity} {ts : PyFloat} {msgType : PyStr}
  {body envelope : Json}

theorem toHex_carried (bs : Bytes) : (toHex bs).all isCarried=true := by
  have digit : ∀n : Fin 16,isCarried (Fin.ofNat _ (hexDigit n.val).toNat)=true := by decide
  induction bs with
  | nil => rfl
  | cons b bs ih =>
    have hb : b.toNat<256 := b.toNat_lt
    have hi := digit ⟨b.toNat/16,by omega⟩
    have lo := digit ⟨b.toNat%16,by omega⟩
    rw [toHex_cons,List.all_cons,List.all_cons,hi,lo,ih]
    rfl

theorem sealEnvelope_ok (h : sealEnvelope P me ts msgType body=.ok envelope) :
    ∃msg,canonicalJson P (sealPayload (me.peerId P) ts msgType body)=.ok msg ∧
      envelope=.obj [(lit "v",.int 1),(lit "payload",sealPayload (me.peerId P) ts msgType body),
        (lit "pubkey",.str (toHex me.pubkey)),(lit "sig",.str (toHex (me.sign msg)))] := by
  simp only [sealEnvelope,except_bind_ok] at h
  obtain ⟨msg,hm,he⟩ := h
  cases he
  exact ⟨msg,hm,rfl⟩

theorem canonicalJson_ok_iff {payload : Json} {msg : Bytes} : canonicalJson P payload=.ok msg ↔
    payload.depth ≤ P.dumpsDepth ∧ payload.intsAll P.intPrints=true ∧
      msg=payload.dumpsCanonical := by
  rw [canonicalJson]
  split_ifs with hd hi
  · simp [Nat.not_le.mpr hd]
  · simp [Nat.not_lt.mp hd,hi,eq_comm]
  · simp [hi]

/-- The canonical form does not depend on the order of keys. -/
theorem canonicalJson_same {p q : Json} (h : same p q=true) (hp : p.plain=true) {msg : Bytes}
    (hm : canonicalJson P p=.ok msg) : canonicalJson P q=.ok msg := by
  obtain ⟨hd,hi,rfl⟩ := canonicalJson_ok_iff.mp hm
  obtain ⟨hd',hi'⟩ := same_prints h hp hi
  refine canonicalJson_ok_iff.mpr ⟨hd'.trans hd,hi',?_⟩
  rw [dumpsCanonical,dumpsCanonical,sortKeys_congr h hp]

theorem sealPayload_plain (hP : P.Lawful float) (ht : msgType.all isCarried=true)
    (hts : ts.isFinite=true) (hb : body.plain=true) :
    (sealPayload (me.peerId P) ts msgType body).plain=true := by
  have hk : ([lit "type",lit "sender",lit "ts",lit "body"] : List PyStr).Nodup ∧
      ∀k∈[lit "type",lit "sender",lit "ts",lit "body"],k.all isCarried=true := by decide
  rw [sealPayload,plain,Bool.and_eq_true,plainMembers_iff]
  refine ⟨decide_eq_true hk.1,fun m hm => ⟨hk.2 m.1 (List.mem_map_of_mem hm),?_⟩⟩
  simp only [List.mem_cons,List.not_mem_nil,or_false] at hm
  rcases hm with rfl | rfl | rfl | rfl
  · exact ht
  · exact hP.digest me.pubkey
  · exact hts
  · exact hb

theorem envelope_plain {payload : Json} (hp : payload.plain=true) (key sig : Bytes) :
    (Json.obj [(lit "v",.int 1),(lit "payload",payload),(lit "pubkey",.str (toHex key)),
      (lit "sig",.str (toHex sig))]).plain=true := by
  have hk : ([lit "v",lit "payload",lit "pubkey",lit "sig"] : List PyStr).Nodup ∧
      ∀k∈[lit "v",lit "payload",lit "pubkey",lit "sig"],k.all isCarried=true := by decide
  rw [plain,Bool.and_eq_true,plainMembers_iff]
  refine ⟨decide_eq_true hk.1,fun m hm => ⟨hk.2 m.1 (List.mem_map_of_mem hm),?_⟩⟩
  simp only [List.mem_cons,List.not_mem_nil,or_false] at hm
  rcases hm with rfl | rfl | rfl | rfl
  · rfl
  · exact hp
  · exact toHex_carried key
  · exact toHex_carried sig

/-- What stands under a key of a dict, stands under it in any order of keys. -/
theorem same_get? {v w x : Json} {key : PyStr} (h : same v w=true) (hx : v.get? key=some x) :
    ∃y,w.get? key=some y ∧ same x y=true := by
  cases v with
  | obj ms =>
    cases w with
    | obj ns =>
      rw [same,Bool.and_eq_true,sameMembers_iff] at h
      exact h.2 _ (mem_of_lookup hx)
    | _ => cases h
  | _ => cases hx

theorem same_str {s : PyStr} {w : Json} (h : same (.str s) w=true) : w=.str s := by
  rcases same_cases h with he | ⟨_,_,he,-⟩ | ⟨_,_,he,-⟩
  · exact he.symm
  · cases he
  · cases he

theorem same_get_str {v w : Json} {key s : PyStr} (h : same v w=true)
    (hx : v.get? key=some (.str s)) : w.get? key=some (.str s) := by
  obtain ⟨y,hy,hs⟩ := same_get? h hx
  rw [hy,same_str hs]

/-- A sealed envelope opens in any order of its keys, and what it carries is what was
sealed. -/
theorem open_same {envelope' : Json} (hseal : sealEnvelope P me ts msgType body=.ok envelope)
    (hsig : ∀msg,canonicalJson P (sealPayload (me.peerId P) ts msgType body)=.ok msg →
      me.Signs P msg)
    (hp : (sealPayload (me.peerId P) ts msgType body).plain=true)
    (hs : same envelope envelope'=true) :
    ∃o,openEnvelope P envelope'=.ok o ∧ o.sender=me.peerId P ∧
      same (sealPayload (me.peerId P) ts msgType body) o.payload=true := by
  obtain ⟨msg,hm,rfl⟩ := sealEnvelope_ok hseal
  obtain ⟨hk,hl,hv⟩ := hsig msg hm
  obtain ⟨payload,hpay,hsame⟩ : ∃y,envelope'.get? (lit "payload")=some y ∧ _ := same_get? hs rfl
  refine ⟨⟨me.peerId P,payload⟩,(openEnvelope_ok_iff _).mpr ⟨me.pubkey,me.sign msg,?_,rfl,?_⟩,rfl,
    hsame⟩
  · exact ⟨hpay,⟨_,same_get_str hs rfl,fromHex_toHex _⟩,⟨_,same_get_str hs rfl,fromHex_toHex _⟩,
      same_get_str hsame rfl,_,same_get_str hsame rfl⟩
  · exact ⟨hk,hl,msg,canonicalJson_same hsame hp hm,hv⟩

/-- A sealed envelope opens as it is. -/
theorem open_sealed (hseal : sealEnvelope P me ts msgType body=.ok envelope)
    (hsig : ∀msg,canonicalJson P (sealPayload (me.peerId P) ts msgType body)=.ok msg →
      me.Signs P msg) :
    openEnvelope P envelope=.ok ⟨me.peerId P,sealPayload (me.peerId P) ts msgType body⟩ := by
  obtain ⟨msg,hm,rfl⟩ := sealEnvelope_ok hseal
  obtain ⟨hk,hl,hv⟩ := hsig msg hm
  refine (openEnvelope_ok_iff _).mpr ⟨me.pubkey,me.sign msg,?_,rfl,hk,hl,msg,hm,hv⟩
  exact ⟨rfl,⟨_,rfl,fromHex_toHex _⟩,⟨_,rfl,fromHex_toHex _⟩,rfl,_,rfl⟩

/-- Two plain payloads with one canonical form are equal but for the order of keys: the
canonical form is itself a text of the sorted value. -/
theorem canonicalJson_injective (hP : P.Lawful float) {p q : Json} (hp : p.plain=true)
    (hq : q.plain=true) {msg : Bytes} (hmp : canonicalJson P p=.ok msg)
    (hmq : canonicalJson P q=.ok msg) : same p q=true := by
  have read {v : Json} (hv : v.plain=true) (hm : canonicalJson P v=.ok msg) :
      loadsText float P.intPrints (ofAscii msg)=some v.sortKeys := by
    obtain ⟨-,hi,rfl⟩ := canonicalJson_ok_iff.mp hm
    have hs := same_sortKeys hv
    refine loadsText_spells (same_plain hs hv) (same_prints hs hv hi).2 (.of ?_)
    exact spells_render blank_nil blank_nil rfl rfl hP.floats (same_plain hs hv)
  have he : some p.sortKeys=some q.sortKeys := (read hp hmp).symm.trans (read hq hmq)
  exact same_of_sortKeys (Option.some.inj he) hp hq

/-- A body as the program sends it. -/
structure Sendable (msgType : PyStr) (ts : PyFloat) (body : Json) : Prop where
  object : body.isObj=true
  carried : body.plain=true
  typed : msgType.all isCarried=true
  stamped : ts.isFinite=true

theorem sealed_plain (hP : P.Lawful float) (hb : Sendable msgType ts body)
    (hseal : sealEnvelope P me ts msgType body=.ok envelope) :
    envelope.plain=true ∧ envelope.intsAll P.intPrints=true := by
  have hp : (sealPayload (me.peerId P) ts msgType body).plain=true :=
    sealPayload_plain hP hb.typed hb.stamped hb.carried
  obtain ⟨msg,hm,rfl⟩ := sealEnvelope_ok hseal
  refine ⟨envelope_plain hp _ _,?_⟩
  have hi := (canonicalJson_ok_iff.mp hm).2.1
  have h1 : P.intPrints 1=true := hP.small 1 (by decide)
  simp [intsAll,intsAllMembers,hi,h1]

/-- What json.dumps prints is what is read. -/
theorem dumps_readBack (hP : P.Lawful float) {v : Json} (hp : v.plain=true)
    (hi : v.intsAll P.intPrints=true) : loadsText float P.intPrints (ofAscii v.dumps)=some v := by
  have space : Blank (lit " ") := List.forall_mem_singleton.mpr rfl
  exact loadsText_spells hp hi (.of (spells_render space space rfl rfl hP.floats hp))

theorem sealed_readBack (hP : P.Lawful float) (hb : Sendable msgType ts body)
    (hseal : sealEnvelope P me ts msgType body=.ok envelope) :
    loadsText float P.intPrints (ofAscii envelope.dumps)=some envelope := by
  obtain ⟨hep,hei⟩ := sealed_plain hP hb hseal
  exact dumps_readBack hP hep hei

/-- Every text of a sealed envelope, in any order of keys and with any white space, is
read and opens: its sender is the identity, its type and its body are those that were
sealed. And no two payloads that differ in more than the order of keys are signed under
one canonical form. -/
theorem sealed_survives (hP : P.Lawful float) :
    (∀{me : Identity} {ts : PyFloat} {msgType : PyStr} {body envelope : Json},
      Sendable msgType ts body → sealEnvelope P me ts msgType body=.ok envelope →
      (∀msg,canonicalJson P (sealPayload (me.peerId P) ts msgType body)=.ok msg →
        me.Signs P msg) →
      ∀envelope' t,same envelope envelope'=true → Padded (Spells float envelope') t →
        ∃o body',loadsText float P.intPrints t=some envelope' ∧ openEnvelope P envelope'=.ok o ∧
          o.sender=me.peerId P ∧ o.msgType=msgType ∧ o.body=some body' ∧ same body body'=true) ∧
    ∀p q : Json,p.plain=true → q.plain=true → ∀msg,canonicalJson P p=.ok msg →
      canonicalJson P q=.ok msg → same p q=true := by
  refine ⟨?_,fun p q hp hq msg => canonicalJson_injective hP hp hq⟩
  intro me ts msgType body envelope hb hseal hsig envelope' t hs ht
  have hp : (sealPayload (me.peerId P) ts msgType body).plain=true :=
    sealPayload_plain hP hb.typed hb.stamped hb.carried
  obtain ⟨hep,hei⟩ := sealed_plain hP hb hseal
  obtain ⟨o,ho,hsender,hsame⟩ := open_same hseal hsig hp hs
  obtain ⟨body',hbody,hsb⟩ : ∃y,o.payload.get? (lit "body")=some y ∧ _ := same_get? hsame rfl
  refine ⟨o,body',?_,ho,hsender,?_,hbody,hsb⟩
  · exact loadsText_spells (same_plain hs hep) (same_prints hs hep hei).2 ht
  · exact Json.strField_of_get (same_get_str hsame rfl)

section Sample

/-- float(text) as far as a float is its text. -/
def readFloat (t : PyStr) : PyFloat :=
  let bs := t.map fun c => UInt8.ofNat c.val
  if h : isFloatToken bs=true then ⟨bs,h⟩ else ⟨ascii "0.0",by decide⟩

theorem readFloat_repr (f : PyFloat) : readFloat (ofAscii f.repr)=f := by
  have hb : (ofAscii f.repr).map (fun c => UInt8.ofNat c.val)=f.repr := by
    have byte (b : UInt8) : UInt8.ofNat (Fin.ofNat 0x110000 b.toNat).val=b := by
      have hb : b.toNat<256 := b.toNat_lt
      rw [Fin.ofNat_eq_cast,Fin.val_natCast,Nat.mod_eq_of_lt (by omega),UInt8.ofNat_toNat]
    simp only [ofAscii,List.map_map]
    exact List.map_id'' byte f.repr
  have ht : isFloatToken ((ofAscii f.repr).map fun c => UInt8.ofNat c.val)=true := by
    rw [hb]
    exact f.token
  rw [readFloat,dif_pos ht]
  simp only [hb]

theorem intPrints_small {n : Int} (hn : n.natAbs<10) : intPrints n=true := by
  unfold intPrints
  generalize hk : 4300=k
  have hp : 10 ≤ Nat.pow 10 k := Nat.le_self_pow (by omega) 10
  exact decide_eq_true (hn.trans_le hp)

theorem transcript_lawful {ms : List Signed} (h : ∀m∈ms,m.peerId.val.all isCarried=true) :
    (Platform.ofTranscript ms).Lawful readFloat where
  digest bs := by
    simp only [Platform.ofTranscript]
    cases hf : ms.find? fun m => m.pubkey=bs with
    | none => decide
    | some m => exact h m (List.mem_of_find?_eq_some hf)
  small n hn := intPrints_small hn
  floats f _ := readFloat_repr f

theorem sample_lawful : samplePlatform.Lawful readFloat := transcript_lawful (by decide)

theorem sample_seals : sealEnvelope samplePlatform requesterIdentity requesterHandshake.ts
    msgHandshake (.obj [])=.ok requesterHandshake.envelope := by
  have hm : requesterHandshake∈sampleTranscript := by simp [sampleTranscript]
  have hid : requesterIdentity.peerId samplePlatform=requesterId :=
    transcript_sha1 sampleTranscript_consistent hm
  have hc := transcript_canonical sampleTranscript_consistent hm
  have hs : requesterIdentity.sign requesterHandshake.payload.dumpsCanonical=
      requesterHandshake.sig := by decide
  rw [sealEnvelope,hid]
  change (canonicalJson samplePlatform requesterHandshake.payload).bind _=_
  rw [show canonicalJson samplePlatform requesterHandshake.payload=_ from hc]
  simp only [Except.bind,hs]
  rfl

theorem sample_signs (msg : Bytes) (h : canonicalJson samplePlatform (sealPayload
    (requesterIdentity.peerId samplePlatform) requesterHandshake.ts msgHandshake (.obj []))=
      .ok msg) : requesterIdentity.Signs samplePlatform msg := by
  have hm : requesterHandshake∈sampleTranscript := by simp [sampleTranscript]
  have hid : requesterIdentity.peerId samplePlatform=requesterId :=
    transcript_sha1 sampleTranscript_consistent hm
  rw [hid] at h
  have hc := transcript_canonical sampleTranscript_consistent hm
  cases hc.symm.trans h
  exact ⟨by decide,by decide,by decide⟩

theorem sample_sendable : Sendable msgHandshake requesterHandshake.ts (.obj []) :=
  ⟨rfl,rfl,by decide,by decide⟩

/-- The handshake with its keys in another order and white space around it. -/
def reordered : Json :=
  .obj [(lit "sig",.str (toHex requesterHandshake.sig)),(lit "pubkey",.str (toHex requesterKey)),
    (lit "v",.int 1),(lit "payload",.obj [(lit "body",.obj []),(lit "type",.str msgHandshake),
      (lit "ts",.float requesterHandshake.ts),(lit "sender",.str requesterId.val)])]

theorem sealed_survives_sample :
    ∃o body',loadsText readFloat samplePlatform.intPrints
        (lit " "++ofAscii reordered.dumps++lit "\n")=some reordered ∧
      openEnvelope samplePlatform reordered=.ok o ∧
      o.sender=requesterIdentity.peerId samplePlatform ∧ o.msgType=msgHandshake ∧
      o.body=some body' ∧ same (.obj []) body'=true := by
  have hP : samplePlatform.Lawful readFloat := sample_lawful
  have space : Blank (lit " ") := List.forall_mem_singleton.mpr rfl
  have newline : Blank (lit "\n") := List.forall_mem_singleton.mpr rfl
  refine (sealed_survives hP).1 sample_sendable sample_seals sample_signs reordered _
    (by decide) ⟨lit " ",_,lit "\n",space,?_,newline,rfl⟩
  exact spells_render space space rfl rfl hP.floats (by decide)

end Sample

end AgentTorrent
