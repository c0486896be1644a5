import AgentTorrent.Wire.Opening

namespace AgentTorrent

variable (P : Platform)

/-- Connection.recv of a line, with any expected types or None. -/
def receive (remotePeerId : Option PeerId) (expected : Option (List PyStr)) (line : ReadLine) :
    Except PyExc Opened :=
  match readOpened P line with
  | .error e => .error e
  | .ok o => match summarize P (o.body.getD (.obj [])) with
    | .error e => .error e
    | .ok () =>
      if remotePeerId.any fun r => o.sender≠r then .error (.protocolError .senderChanged)
      else match expected with
        | none => .ok o
        | some types =>
          if ¬types.contains o.msgType then
            .error (.protocolError (.unexpectedType types o.msgType))
          else .ok o

theorem receive_some (remotePeerId : Option PeerId) (types : List PyStr) (line : ReadLine) :
    receive P remotePeerId (some types) line=recv P remotePeerId types (readOpened P line) := by
  unfold receive recv
  cases readOpened P line with
  | error e => rfl
  | ok o => rfl

/-- The line is a message that opens: its text parses and its envelope is valid. -/
def Carries (line : ReadLine) (o : Opened) : Prop :=
  ∃bs bound envelope,line=.line bs bound ∧ bs≠[] ∧ P.loads bs=.ok envelope ∧ OpensTo P envelope o

/-- What recv promises: a message with a verified signature, from the peer of the
handshake and of an expected type, or ProtocolError. -/
def ReceivePromise (remotePeerId : Option PeerId) (expected : Option (List PyStr))
    (line : ReadLine) : Prop :=
  (∃o,receive P remotePeerId expected line=.ok o ∧ Carries P line o ∧
    (∀r,remotePeerId=some r → o.sender=r) ∧ ∀types,expected=some types → o.msgType∈types) ∨
  ∃why,receive P remotePeerId expected line=.error (.protocolError why)

/-- The line holds no JSON text that nests deeper than can be parsed and printed. -/
def ReadLine.Shallow : ReadLine → Prop
  | .line bs _ => P.loads bs≠.error .recursion ∧ ∀envelope,P.loads bs=.ok envelope →
      envelope.depth ≤ P.dumpsDepth ∧ envelope.depth ≤ P.strDepth
  | _ => True

/-- Reading the line ends in an exception that is no ProtocolError: it nests too
deep, or it is a verified message whose body is no object or cannot be logged. -/
def Breaks (line : ReadLine) : Prop :=
  readOpened P line=.error .recursionError ∨
  ∃o,readOpened P line=.ok o ∧
    ((∃b,o.body=some b ∧ b.isObj=false) ∨
      summarize P (o.body.getD (.obj []))=.error .recursionError)

theorem pyStrs_error {vs : List Json} {e : PyExc} (h : pyStrs P vs=.error e) :
    e=.recursionError := by
  induction vs with
  | nil => cases h
  | cons v vs ih =>
    rw [pyStrs] at h
    split at h
    · rename_i hv
      rw [Platform.pyStr] at hv
      split_ifs at hv
      cases hv
      exact (Except.error.inj h).symm
    · exact ih h

/-- The summary of a body raises AttributeError where it is no object, and
RecursionError where a logged value does not print. -/
theorem summarize_error {body : Json} {e : PyExc} (h : summarize P body=.error e) :
    e=.attributeError ∧ body.isObj=false ∨ e=.recursionError := by
  cases body with
  | obj ms => exact .inr (pyStrs_error P h)
  | _ => exact .inl ⟨(Except.error.inj h).symm,rfl⟩

theorem readOpened_error {line : ReadLine} {e : PyExc} (h : readOpened P line=.error e) :
    e.isProtocolError=true ∨ e=.recursionError := by
  have cases_of : ∀{e' : PyExc},(.error e' : Except PyExc Opened)=.error e →
      e'.isProtocolError=true ∨ e'=.recursionError → e.isProtocolError=true ∨ e=.recursionError :=
    fun he hc => Except.error.inj he ▸ hc
  cases line with
  | timedOut => exact cases_of h (.inl rfl)
  | osError => exact cases_of h (.inl rfl)
  | line bs bound =>
    simp only [readOpened] at h
    split at h
    · exact cases_of h (.inl rfl)
    · split at h
      · exact cases_of h (.inl rfl)
      · exact cases_of h (.inr rfl)
      · split at h
        · cases h
        · exact cases_of h (.inl rfl)
        · exact cases_of h (.inl rfl)
        · rename_i e' h1 h2 ho
          rcases openEnvelope_error P ho with ⟨msg,rfl⟩ | rfl | ⟨rfl,-⟩
          · exact absurd rfl (h1 msg)
          · exact absurd rfl h2
          · exact cases_of h (.inr rfl)

theorem receive_error {remote : Option PeerId} {expected : Option (List PyStr)} {line : ReadLine}
    {e : PyExc} (h : receive P remote expected line=.error e) :
    e.isProtocolError=true ∨ Breaks P line := by
  unfold receive at h
  cases hr : readOpened P line with
  | error e' =>
    rw [hr] at h
    cases h
    rcases readOpened_error P hr with hp | rfl
    · exact .inl hp
    · exact .inr (.inl hr)
  | ok o =>
    simp only [hr] at h
    split at h
    · rename_i e' hs
      cases h
      rcases summarize_error P hs with ⟨-,hb⟩ | rfl
      · refine .inr (.inr ⟨o,hr,.inl ?_⟩)
        cases hbody : o.body with
        | none =>
          rw [hbody] at hb
          cases hb
        | some b =>
          rw [hbody] at hb
          exact ⟨b,rfl,hb⟩
      · exact .inr (.inr ⟨o,hr,.inr hs⟩)
    · split at h
      · exact .inl (Except.error.inj h ▸ rfl)
      · split at h
        · cases h
        · split at h
          · exact .inl (Except.error.inj h ▸ rfl)
          · cases h

theorem receive_breaks {line : ReadLine} (h : Breaks P line) (remote : Option PeerId)
    (expected : Option (List PyStr)) :
    ∃e,receive P remote expected line=.error e ∧ e.isProtocolError=false := by
  rcases h with h | ⟨o,ho,⟨b,hb,hn⟩ | hs⟩
  · exact ⟨.recursionError,by rw [receive,h],rfl⟩
  · have hs : summarize P b=.error .attributeError := by
      cases b with
      | obj ms => cases hn
      | _ => rfl
    exact ⟨.attributeError,by simp only [receive,ho,hb,Option.getD_some,hs],rfl⟩
  · exact ⟨.recursionError,by simp only [receive,ho,hs],rfl⟩

theorem recv_error {remote : Option PeerId} {types : List PyStr} {line : ReadLine} {e : PyExc}
    (h : recv P remote types (readOpened P line)=.error e) :
    e.isProtocolError=true ∨ Breaks P line :=
  receive_error P ((receive_some P remote types line).trans h)

theorem recv_breaks {line : ReadLine} (h : Breaks P line) (remote : Option PeerId)
    (types : List PyStr) :
    ∃e,recv P remote types (readOpened P line)=.error e ∧ e.isProtocolError=false := by
  rw [← receive_some]
  exact receive_breaks P h remote (some types)

theorem recv_ok_not_breaks {remote : Option PeerId} {types : List PyStr} {line : ReadLine}
    {o : Opened} (h : recv P remote types (readOpened P line)=.ok o) : ¬Breaks P line := by
  intro hb
  obtain ⟨e,he,-⟩ := recv_breaks P hb remote types
  rw [h] at he
  cases he

theorem readOpened_ok_iff (line : ReadLine) (o : Opened) :
    readOpened P line=.ok o ↔ Carries P line o := by
  constructor
  · intro h
    obtain ⟨bs,bound,envelope,rfl,hl,ho⟩ := readOpened_ok P h
    refine ⟨bs,bound,envelope,rfl,?_,hl,(openEnvelope_ok_iff o).mp ho⟩
    intro hn
    rw [readOpened,if_pos hn] at h
    cases h
  · intro h
    obtain ⟨bs,bound,envelope,rfl,hn,hl,ho⟩ := h
    simp only [readOpened,hn,if_false,hl,(openEnvelope_ok_iff o).mpr ho]

/-- What recv returns has passed the checks that follow the opening. -/
theorem receive_ok {remote : Option PeerId} {expected : Option (List PyStr)} {line : ReadLine}
    {o : Opened} (h : receive P remote expected line=.ok o) :
    readOpened P line=.ok o ∧ (∀r,remote=some r → o.sender=r) ∧
      ∀types,expected=some types → o.msgType∈types := by
  unfold receive at h
  split at h
  · cases h
  · rename_i q hq
    split at h
    · cases h
    · split_ifs at h with hr
      have sender : ∀r,remote=some r → q.sender=r := by
        intro r he
        subst he
        simpa using hr
      cases expected with
      | none =>
        cases h
        exact ⟨hq,sender,fun types he => by cases he⟩
      | some types =>
        dsimp only at h
        split_ifs at h with ht
        cases h
        refine ⟨hq,sender,?_⟩
        intro types' he
        cases he
        exact List.contains_iff_mem.mp ht

theorem pyStrs_shallow {vs : List Json} (h : ∀v∈vs,v.depth ≤ P.strDepth) : pyStrs P vs=.ok () := by
  induction vs with
  | nil => rfl
  | cons v vs ih =>
    have hv : P.pyStr v=.ok () := if_neg (Nat.not_lt.mpr (h v (by simp)))
    rw [pyStrs,hv]
    exact ih fun w hw => h w (by simp [hw])

/-- The summary of an object that is not too deep is logged. -/
theorem summarize_shallow {body : Json} (ho : body.isObj=true) (hd : body.depth ≤ P.strDepth) :
    summarize P body=.ok () := by
  cases body with
  | obj ms =>
    apply pyStrs_shallow P
    intro v hv
    have within {w : Json} (key : PyStr) (hw : ms.lookup key=some w) : w.depth ≤ P.strDepth :=
      (Json.depthMembers_lookup hw).trans (le_trans (Nat.le_succ _) hd)
    rcases List.mem_append.mp hv with hv | hv
    · obtain ⟨job,hj,hg⟩ := Option.bind_eq_some_iff.mp (Option.mem_toList.mp hv)
      exact (Json.depth_get? hg).le.trans (within _ hj)
    · obtain ⟨key,-,hk⟩ := List.mem_filterMap.mp hv
      exact within key hk
  | _ => cases ho

/-- On a shallow line nothing breaks the read but a body that is no object. -/
theorem breaks_iff_of_shallow {line : ReadLine} (hs : line.Shallow P) :
    Breaks P line ↔ ∃o body,Carries P line o ∧ o.body=some body ∧ body.isObj=false := by
  constructor
  · intro h
    rcases h with h | ⟨o,ho,⟨b,hb,hn⟩ | h⟩
    · exfalso
      cases line with
      | line bs bound =>
        simp only [readOpened] at h
        split at h
        · cases h
        · split at h
          · cases h
          · rename_i hl
            exact hs.1 hl
          · rename_i envelope hl
            split at h
            · cases h
            · cases h
            · cases h
            · rename_i e h1 h2 ho
              rcases openEnvelope_error P ho with ⟨msg,rfl⟩ | rfl | ⟨-,hd⟩
              · exact h1 msg rfl
              · exact h2 rfl
              · exact absurd (hs.2 envelope hl).1 (Nat.not_le.mpr hd)
      | _ => cases h
    · exact ⟨o,b,(readOpened_ok_iff P line o).mp ho,hb,hn⟩
    · have hc := (readOpened_ok_iff P line o).mp ho
      cases hb : o.body with
      | none =>
        rw [hb] at h
        cases h
      | some b =>
        refine ⟨o,b,hc,hb,?_⟩
        rw [hb,Option.getD_some] at h
        cases hobj : b.isObj with
        | false => rfl
        | true =>
          obtain ⟨bs,bound,envelope,rfl,-,hl,pubkey,sig,hp,-⟩ := hc
          have hd := (hs.2 envelope hl).2
          have h1 := Json.depth_get? hp.carried
          have h2 : b.depth < o.payload.depth := Json.depth_get? hb
          rw [summarize_shallow P hobj (by omega)] at h
          cases h
  · intro h
    obtain ⟨o,b,hc,hb,hn⟩ := h
    exact .inr ⟨o,(readOpened_ok_iff P line o).mpr hc,.inl ⟨b,hb,hn⟩⟩

/-- For every line, connection state and expected types: recv keeps its promise unless
the line is a verified message whose body is there and no object. -/
theorem receive_promise_iff (line : ReadLine) (hs : line.Shallow P) (remote : Option PeerId)
    (expected : Option (List PyStr)) : ReceivePromise P remote expected line ↔
      ¬∃o body,Carries P line o ∧ o.body=some body ∧ body.isObj=false := by
  rw [← breaks_iff_of_shallow P hs]
  constructor
  · intro h hb
    obtain ⟨e,he,hn⟩ := receive_breaks P hb remote expected
    rcases h with ⟨o,ho,-⟩ | ⟨why,hw⟩
    · rw [he] at ho
      cases ho
    · rw [he] at hw
      cases hw
      cases hn
  · intro hb
    cases hr : receive P remote expected line with
    | ok o =>
      obtain ⟨ho,hsender,htype⟩ := receive_ok P hr
      exact .inl ⟨o,hr,(readOpened_ok_iff P line o).mp ho,hsender,htype⟩
    | error e =>
      have hp := (receive_error P hr).resolve_right hb
      cases e with
      | protocolError why => exact .inr ⟨why,hr⟩
      | _ => cases hp

section Sample

theorem sample_reads {m : Signed} (hm : m∈sampleTranscript) (bound : m.line.length ≤ maxLineBytes) :
    readOpened samplePlatform (.line m.line bound)=.ok m.opened :=
  transcript_reads sampleTranscript_consistent hm bound

theorem sample_bound {m : Signed} (hm : m∈sampleTranscript) : m.line.length ≤ maxLineBytes := by
  have : ∀m∈sampleTranscript,m.line.length ≤ maxLineBytes := by decide +kernel
  exact this m hm

theorem handshake_sampled : workerHandshake∈sampleTranscript := by simp [sampleTranscript]

theorem accept_sampled : workerAccept∈sampleTranscript := by simp [sampleTranscript]

theorem result_sampled : workerResult∈sampleTranscript := by simp [sampleTranscript]

theorem listAccept_sampled : workerListAccept∈sampleTranscript := by simp [sampleTranscript]

def lineOf (m : Signed) (hm : m∈sampleTranscript) : ReadLine := .line m.line (sample_bound hm)

theorem sample_recv {m : Signed} (hm : m∈sampleTranscript) (remote : Option PeerId)
    (types : List PyStr) (hr : ∀r,remote=some r → m.peerId=r) (ht : m.msgType∈types)
    (hs : summarize samplePlatform m.body=.ok ()) :
    recv samplePlatform remote types (readOpened samplePlatform (lineOf m hm))=.ok m.opened := by
  rw [lineOf,sample_reads hm]
  exact recv_of_checks samplePlatform hr ht hs

theorem sample_line_shallow {m : Signed} (hm : m∈sampleTranscript) :
    (lineOf m hm).Shallow samplePlatform := by
  have hl := transcript_loads sampleTranscript_consistent hm (.inl rfl)
  have hl : samplePlatform.loads m.line=.ok m.envelope := hl
  refine ⟨by simp [hl],?_⟩
  intro envelope he
  cases hl.symm.trans he
  have hd := (sampleTranscript_consistent.prints m hm).1
  exact ⟨hd,hd⟩

theorem receive_promise_sample :
    ReceivePromise samplePlatform (some workerId) (some [msgTaskAccept,msgTaskReject])
      (lineOf workerAccept accept_sampled) := by
  apply (receive_promise_iff _ _ (sample_line_shallow accept_sampled) _ _).mpr
  intro h
  obtain ⟨o,b,hc,hb,hn⟩ := h
  have ho := (readOpened_ok_iff _ _ _).mpr hc
  rw [lineOf,sample_reads accept_sampled] at ho
  cases ho
  cases hb
  cases hn

/-- A signed TASK_ACCEPT whose body is a list makes recv raise AttributeError. -/
theorem receive_listBody_fails :
    receive samplePlatform (some workerId) (some [msgTaskAccept,msgTaskReject])
      (lineOf workerListAccept listAccept_sampled)=.error .attributeError ∧
    ¬ReceivePromise samplePlatform (some workerId) (some [msgTaskAccept,msgTaskReject])
      (lineOf workerListAccept listAccept_sampled) := by
  have he : receive samplePlatform (some workerId) (some [msgTaskAccept,msgTaskReject])
      (lineOf workerListAccept listAccept_sampled)=.error .attributeError := by
    rw [receive,lineOf,sample_reads listAccept_sampled]
    rfl
  refine ⟨he,?_⟩
  intro h
  rcases h with ⟨o,ho,-⟩ | ⟨why,hw⟩
  · cases he.symm.trans ho
  · cases he.symm.trans hw

end Sample

end AgentTorrent
