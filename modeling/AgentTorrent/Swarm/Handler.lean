import AgentTorrent.Swarm.Deal

open Framework

namespace AgentTorrent

variable {P : Platform} {ι : Type} {M : Members P ι} {A : ι} {j : PyStr} {l : Link ι}
  {c : Choice ι} {a : Answers} {ch : Channel Opened} {L L' : Ledger} {pc' : ServePc}
  {event : Option Event}

theorem serves_idle {pc : ServePc} (h : pc.busy=false) (r : PeerId) (f : Prop) :
    pc.Serves r j f := by
  cases pc with
  | start | handshakeRecv | rejectSend | listPeers | listLedger | controlSend | finished =>
    exact trivial
  | _ => cases h

theorem said_start {pc : ServePc} (h : pc.stage≤1) : pc.said=0 := by
  cases pc with
  | start | handshakeRecv => rfl
  | _ => simp [ServePc.stage] at h

theorem stage_idle {pc : ServePc} (h : pc.busy=false) (hs : pc.stage≤6) : pc.stage≤1 := by
  cases pc with
  | start | handshakeRecv => simp [ServePc.stage]
  | handshakeSend | requestRecv | acceptSend | execute | resultSend | credit | control => cases h
  | _ => simp [ServePc.stage] at hs

theorem speak_sent (me : PeerId) (h : c.answers.sent=true) (payload : Json) :
    speak me c (some (.sealed payload)) ch=ch.put ⟨me,payload⟩ := by
  simp [speak,h]

theorem fromWorker_plain {me : Identity} {ts : PyFloat} {msgType : PyStr} {body p : Json}
    (h : sealMessage P me ts msgType body=.ok p) (ht : msgType≠msgTaskResult) (w : PeerId)
    (n : Nat) : FromWorker w j n ⟨w,p⟩ :=
  ⟨rfl,fun hr => absurd ((sealMessage_type h).symm.trans hr) ht⟩

theorem result_body {me : Identity} {ts : PyFloat} {job : Job} {r : JobResult} {p : Json}
    (h : sealMessage P me ts msgTaskResult (resultBody job r)=.ok p) (w : PeerId) :
    Opened.body ⟨w,p⟩=some (resultBody job r) := by
  obtain ⟨rfl,-⟩ := sealMessage_ok P h
  rfl

theorem speak_replies {w : PeerId} (h : ∀n o,ch.written[n]?=some o → FromWorker w j n o)
    (hp : ∀payload,event=some (.sealed payload) → FromWorker w j ch.written.length ⟨w,payload⟩) :
    ∀n o,(speak w c event ch).written[n]?=some o → FromWorker w j n o := by
  intro n o hn
  rcases speak_cases w c event ch with he | ⟨payload,he,-,hput⟩
  · exact h n o (he ▸ hn)
  · rw [hput,Channel.put_written] at hn
    rcases Nat.lt_or_ge n ch.written.length with hl | hl
    · rw [List.getElem?_append_left hl] at hn
      exact h n o hn
    · have hk := (List.getElem?_eq_some_iff.mp hn).1
      have hk : n=ch.written.length := by simp at hk; omega
      subst hk
      have hn : (⟨w,payload⟩ : Opened)=o := by simpa using hn
      exact hn ▸ hp payload he

theorem speak_length (me : PeerId) (h : c.answers.sent=true) (payload : Json) :
    (speak me c (some (.sealed payload)) ch).written.length=ch.written.length+1 := by
  rw [speak_sent me h,Channel.put_written,List.length_append,List.length_singleton]

theorem Serving.replies_plain (hS : Serving M A j l) {ts : PyFloat} {msgType : PyStr}
    {body p : Json} (h : sealMessage P (M.peer l.acceptor).identity ts msgType body=.ok p)
    (ht : msgType≠msgTaskResult) : ∀n o,
    (speak (M.id l.acceptor) c (some (.sealed p)) l.toRequester).written[n]?=some o →
      FromWorker (M.id l.acceptor) j n o := by
  apply speak_replies hS.replies
  intro q hq
  cases hq
  exact fromWorker_plain h ht _ _

theorem Serving.replies_result (hS : Serving M A j l) {requester : PeerId} {job : Job}
    {result : JobResult} {ts : PyFloat} {p : Json}
    (hpc : l.handler=.resultSend requester job result)
    (h : sealMessage P (M.peer l.acceptor).identity ts msgTaskResult (resultBody job result)=
      .ok p) : ∀n o,
    (speak (M.id l.acceptor) c (some (.sealed p)) l.toRequester).written[n]?=some o →
      FromWorker (M.id l.acceptor) j n o := by
  have hw := hS.works
  have hsaid := hS.said
  rw [hpc] at hw hsaid
  apply speak_replies hS.replies
  intro q hq
  cases hq
  refine ⟨rfl,fun _ => ⟨hsaid (by simp [ServePc.stage]),job,result,hw.2.1,result_body h _⟩⟩

/-- The offer that is taken is the requester's, of job j. -/
theorem FromRequester.offered {peer : Peer} {r requester : PeerId} {job : Job} {o : Opened}
    (h : FromRequester r j o) (ho : OfferFrom P peer requester job o) : job.id=j := by
  obtain ⟨v,hv,hj⟩ := ho.carried
  have hid := h.offer ho.msgType
  have ht : o.payload.strField (lit "type")=msgTaskOffer := ho.msgType
  have hv : (o.payload.get? (lit "body")).bind (Json.get? (lit "job"))=some v := hv
  rw [offeredId,if_pos ht,hv,Option.bind_some,(validateJob_ok hj).1] at hid
  exact Option.some.inj hid

/-- The handler serves the requester's job, and its third message is the result. -/
theorem Serving.move (hS : Serving M A j l)
    (hr : ∀o∈l.toAcceptor.written,FromRequester (M.id A) j o)
    (hl : listen l.handler.listens c l.toAcceptor=some (a,ch))
    (hm : ServeMove P (M.peer l.acceptor) l.loopback a L l.handler L' pc' event) :
    Serving M A j {l with
      handler := pc'
      toAcceptor := ch
      toRequester := speak (M.id l.acceptor) c event l.toRequester} := by
  have hw := hS.works
  have hrep := hS.replies
  have hsaid := hS.said
  obtain ⟨acceptor,loopback,handler,toAcceptor,toRequester⟩ := l
  dsimp only at hw hrep hsaid hr hl hm
  have hsent := (listen_cases hl).1
  have heard (o : Opened) (h : a.received=.ok o) (hlis : handler.listens=true) :
      FromRequester (M.id A) j o :=
    hr o (List.mem_of_getElem? (Channel.take_some (listen_taken hl hlis h)).1)
  have ended {pc : ServePc} {n : Nat} (h : pc.stage=10) : pc.stage≤6 → n=pc.said := by omega
  cases hm with
  | wait _ _ hs hb hc =>
    refine ⟨serves_idle hb _ _,hrep,?_⟩
    intro h6
    have h1 := stage_idle hb h6
    rw [said_start h1,← said_start (hs.trans h1)]
    exact hsaid ((hs.trans h1).trans (by decide))
  | say _ _ msgType body payload hs hn ht ht' hp hb hc =>
    exact ⟨serves_idle hb _ _,hS.replies_plain hp ht',ended hs⟩
  | met o ha => exact ⟨(heard o ha rfl).sender,hrep,fun _ => hsaid (by decide)⟩
  | greet remote payload hp hs =>
    refine ⟨hw,hS.replies_plain hp (by decide),?_⟩
    intro _
    rw [speak_length _ (hsent ▸ hs),hsaid (by simp [ServePc.stage])]
    rfl
  | offered requester job o ha ho =>
    have hreq := heard o ha rfl
    refine ⟨⟨hw,hreq.offered ho,?_⟩,hrep,fun _ => hsaid (by simp [ServePc.stage])⟩
    intro hA
    subst hA
    exact ho.foreign (hw.trans rfl)
  | commanded args o ha hloop ho => exact absurd ho.msgType (heard o ha rfl).request
  | accept requester job payload hp hs =>
    refine ⟨hw,hS.replies_plain hp (by decide),?_⟩
    intro _
    rw [speak_length _ (hsent ▸ hs),hsaid (by simp [ServePc.stage])]
    rfl
  | executed requester job result hx =>
    obtain ⟨hq,hj,hf⟩ := hw
    exact ⟨⟨hq,hj,hf,(executeJob_ok _ _ _ hx).1.trans hj⟩,hrep,
      fun _ => hsaid (by simp [ServePc.stage])⟩
  | failed requester job e _ hx hs hb => exact ⟨serves_idle hb _ _,hrep,ended hs⟩
  | deliver requester job result payload hp hok hs =>
    refine ⟨⟨hw.1,hw.2.1,hw.2.2.1⟩,hS.replies_result rfl hp,?_⟩
    intro h
    simp [ServePc.stage] at h
  | report requester job result payload hp hok => exact ⟨trivial,hS.replies_result rfl hp,ended rfl⟩
  | credit requester job hz => exact ⟨trivial,hrep,ended rfl⟩
  | credited requester job hw => exact ⟨trivial,hrep,ended rfl⟩
  | reply args outcome _ hs hb => exact hw.elim

theorem said_le (pc : ServePc) : pc.said≤2 := by
  cases pc <;> simp [ServePc.said]

theorem Serving.no_result (hS : Serving M A j l) (h : l.handler.stage≤6) :
    ∀o∈l.toRequester.written,¬OkResult j o := by
  intro o ho hk
  obtain ⟨n,hn⟩ := List.mem_iff_getElem?.mp ho
  have h2 := ((hS.replies n o hn).result hk.1).1
  have hlen := (List.getElem?_eq_some_iff.mp hn).1
  have := hS.said h
  have := said_le l.handler
  omega

theorem mem_speak {me : PeerId} {o : Opened} (h : o∈(speak me c event ch).written) :
    o∈ch.written ∨ ∃payload,event=some (.sealed payload) ∧
      (c.answers.sent=true ∨ c.leak=true) ∧ o=⟨me,payload⟩ := by
  rcases speak_cases me c event ch with he | ⟨payload,he,hs,hput⟩
  · exact .inl (he ▸ h)
  · rw [hput] at h
    rcases List.mem_append.mp h with h | h
    · exact .inl h
    · exact .inr ⟨payload,he,hs,List.mem_singleton.mp h⟩

theorem speak_keeps (me : PeerId) : ∀o∈ch.written,o∈(speak me c event ch).written := by
  intro o ho
  rcases speak_cases me c event ch with he | ⟨payload,-,-,hput⟩
  · rwa [he]
  · rw [hput]
    exact List.mem_append_left _ ho

/-- A step that neither enters nor leaves the credit, and sends no TASK_RESULT, changes
nothing about the pay. -/
theorem Paying.keep {leaky : Prop} {v : ι → List Record} (hP : Paying M leaky A j v l)
    (h7 : pc'.stage≠7) (hc : l.handler.stage≠7) (hf : l.handler.stage=10 → pc'.stage=10)
    (hnew : ∀payload,event=some (.sealed payload) →
      Opened.msgType ⟨M.id l.acceptor,payload⟩≠msgTaskResult) :
    Paying M leaky A j v {l with
      handler := pc'
      toAcceptor := ch
      toRequester := speak (M.id l.acceptor) c event l.toRequester} := by
  refine ⟨?_,fun h => absurd h h7,?_⟩
  · intro b hb hn
    obtain ⟨hb,h10,hr,o,hmem,hok⟩ := hP.elsewhere b hb hn
    exact ⟨hb,hf h10,hr,o,speak_keeps _ o hmem,hok⟩
  · intro hk o hmem hok
    rcases mem_speak hmem with hmem | ⟨payload,he,-,rfl⟩
    · rcases hP.paid hk o hmem hok with h | ⟨h,hr⟩
      · exact absurd h hc
      · exact .inr ⟨hf h,hr⟩
    · exact absurd hok.1 (hnew payload he)

/-- Until the credit, nobody but the requester has records of the job. -/
theorem Paying.untouched {leaky : Prop} {v : ι → List Record} (hP : Paying M leaky A j v l)
    (hs : l.handler.stage≠10) {b : ι} (hb : b≠A) : v b=[] := by
  by_contra hn
  exact hs (hP.elsewhere b hb hn).2.1

section Pay

variable {leaky : Prop} {v v' : ι → List Record} {requester : PeerId} {job : Job}
  {result : JobResult} {payload : Json}

/-- Once an ok result is on its way the credit follows. -/
theorem Paying.deliver (hP : Paying M leaky A j v l) (hS : Serving M A j l)
    (hpc : l.handler=.resultSend requester job result)
    (hp : sealMessage P (M.peer l.acceptor).identity a.ts msgTaskResult (resultBody job result)=
      .ok payload) (hok : result.status=.ok) (hs : c.answers.sent=true) :
    Paying M leaky A j v {l with
      handler := .credit requester job
      toAcceptor := ch
      toRequester := speak (M.id l.acceptor) c (some (.sealed payload)) l.toRequester} := by
  have hw := hS.works
  rw [hpc] at hw
  have hnone {b : ι} (hb : b≠A) : v b=[] := hP.untouched (by simp [hpc,ServePc.stage]) hb
  refine ⟨fun b hb hn => absurd (hnone hb) hn,?_,fun _ _ _ _ => .inl rfl⟩
  intro _
  refine ⟨⟨M.id l.acceptor,payload⟩,?_,?_⟩
  · dsimp only
    rw [speak_sent _ hs]
    exact List.mem_append_right _ (by simp)
  · exact (okResult_resultBody (result_body hp _) (sealMessage_type hp)).mpr ⟨hw.2.2.2,hok⟩

/-- A result that brings no credit is not an ok one, unless its sender does not know that
it was sent. -/
theorem Paying.report (hP : Paying M leaky A j v l) (hS : Serving M A j l)
    (hpc : l.handler=.resultSend requester job result)
    (hp : sealMessage P (M.peer l.acceptor).identity a.ts msgTaskResult (resultBody job result)=
      .ok payload) (hok : c.answers.sent=true → result.status≠.ok)
    (hleak : c.leak=true → leaky) :
    Paying M leaky A j v {l with
      handler := .finished none
      toAcceptor := ch
      toRequester := speak (M.id l.acceptor) c (some (.sealed payload)) l.toRequester} := by
  have hstage : l.handler.stage=6 := by rw [hpc]; rfl
  have hnone {b : ι} (hb : b≠A) : v b=[] := hP.untouched (by omega) hb
  refine ⟨fun b hb hn => absurd (hnone hb) hn,fun h => (by cases h),?_⟩
  intro hk o hmem hr
  rcases mem_speak hmem with hmem | ⟨p,he,hs,rfl⟩
  · exact absurd hr (hS.no_result (by omega) o hmem)
  · cases he
    have hst := ((okResult_resultBody (result_body hp _) (sealMessage_type hp)).mp hr).2
    rcases hs with hs | hs
    · exact absurd hst (hok hs)
    · exact absurd (hleak hs) hk

/-- The worker books its work once. -/
theorem Paying.credit (hP : Paying M leaky A j v l) (hS : Serving M A j l)
    (hpc : l.handler=.credit requester job) (hv : v l.acceptor=L.jobRecords j)
    (hB : v' l.acceptor=(L.extend (workRecord job.id requester.val)).jobRecords j)
    (ho : ∀b,b≠l.acceptor → v' b=v b) :
    Paying M leaky A j v' {l with
      handler := .finished none
      toAcceptor := ch
      toRequester := l.toRequester} := by
  have hstage : l.handler.stage=7 := by rw [hpc]; rfl
  have hw := hS.works
  rw [hpc] at hw
  obtain ⟨hq,hj,hf⟩ := hw
  have hnone {b : ι} (hb : b≠A) : v b=[] := hP.untouched (by omega) hb
  have hbook : v' l.acceptor=[workRecord j (M.id A).val] := by
    rw [hB,Ledger.extend_jobRecords,← hv,hnone hf,hj,hq]
    simp [workRecord]
  refine ⟨?_,fun h => (by cases h),fun _ _ _ _ => .inr ⟨rfl,hf,by simp [hbook]⟩⟩
  intro b hb hn
  by_cases he : b=l.acceptor
  · rw [he]
    exact ⟨rfl,rfl,hbook,hP.crediting hstage⟩
  · exact absurd ((ho b he).trans (hnone hb)) hn

/-- The worker books its work after it has sent the result, and then it does. -/
theorem Paying.move (hP : Paying M leaky A j v l)
    (hS : Serving M A j l) (hv : v l.acceptor=L.jobRecords j)
    (hB : v' l.acceptor=L'.jobRecords j) (ho : ∀b,b≠l.acceptor → v' b=v b)
    (hl : listen l.handler.listens c l.toAcceptor=some (a,ch)) (hleak : c.leak=true → leaky)
    (hm : ServeMove P (M.peer l.acceptor) l.loopback a L l.handler L' pc' event) :
    Paying M leaky A j v' {l with
      handler := pc'
      toAcceptor := ch
      toRequester := speak (M.id l.acceptor) c event l.toRequester} := by
  obtain ⟨acceptor,loopback,handler,toAcceptor,toRequester⟩ := l
  dsimp only at hv hB ho hl hm
  have hsent := (listen_cases hl).1
  have same (h : L'=L) : v'=v := by
    funext b
    by_cases hb : b=acceptor
    · rw [hb,hB,hv,h]
    · exact ho b hb
  have rest (hL : L'=L) (h7 : pc'.stage≠7) (hc : handler.stage≠7)
      (hf : handler.stage=10 → pc'.stage=10)
      (hnew : ∀payload,event=some (.sealed payload) →
        Opened.msgType ⟨M.id acceptor,payload⟩≠msgTaskResult) :
      Paying M leaky A j v' ⟨acceptor,loopback,pc',ch,
        speak (M.id acceptor) c event toRequester⟩ := by
    rw [same hL]
    exact hP.keep h7 hc hf hnew
  have typed {ts : PyFloat} {msgType : PyStr} {body p : Json}
      (h : sealMessage P (M.peer acceptor).identity ts msgType body=.ok p)
      (ht : msgType≠msgTaskResult) : ∀payload,some (Event.sealed p)=some (.sealed payload) →
      Opened.msgType ⟨M.id acceptor,payload⟩≠msgTaskResult := by
    intro payload he hr
    cases he
    exact ht ((sealMessage_type h).symm.trans hr)
  cases hm with
  | wait _ _ hs hb hc =>
    refine rest rfl ?_ hc ?_ (by simp)
    · intro h
      cases pc' with
      | credit => cases hb
      | control => cases hb
      | _ => simp [ServePc.stage] at h
    · intro h
      have := pc'.stage_le
      omega
  | say _ _ msgType body payload hs hn ht ht' hp hb hc =>
    exact rest rfl (by omega) hc (fun _ => hs) (typed hp ht')
  | greet remote payload hp hs =>
    exact rest rfl (by simp [ServePc.stage]) (by simp [ServePc.stage]) (by simp [ServePc.stage])
      (typed hp (by decide))
  | accept requester job payload hp hs =>
    exact rest rfl (by simp [ServePc.stage]) (by simp [ServePc.stage]) (by simp [ServePc.stage])
      (typed hp (by decide))
  | met | offered | commanded | executed =>
    exact rest rfl (by simp [ServePc.stage]) (by simp [ServePc.stage]) (by simp [ServePc.stage])
      (by simp)
  | failed requester job e _ hx hs hb =>
    exact rest rfl (by omega) (by simp [ServePc.stage]) (by simp [ServePc.stage]) (by simp)
  | reply => exact hS.works.elim
  | deliver requester job result payload hp hok hs =>
    rw [same rfl]
    exact hP.deliver hS rfl hp hok (hsent ▸ hs)
  | report requester job result payload hp hok =>
    rw [same rfl]
    exact hP.report hS rfl hp (fun h => hok (hsent.trans h)) hleak
  | credit requester job hz => exact hP.credit hS rfl hv hB ho
  | credited requester job hw =>
    obtain ⟨-,hj,hf⟩ := hS.works
    have hnone : v acceptor=[] := hP.untouched (by simp [ServePc.stage]) hf
    rw [hj,Ledger.jobCount_of_no_records (hv ▸ hnone)] at hw
    cases hw

end Pay

theorem serveMove_ledger {P : Platform} {peer : Peer} {loopback : Bool} {pc : ServePc}
    (h : ServeMove P peer loopback a L pc L' pc' event) : L'=L ∨
    ∃requester job,pc=.credit requester job ∧ L'=L.extend (workRecord job.id requester.val) := by
  cases h with
  | credit requester job hz => exact .inr ⟨requester,job,rfl,rfl⟩
  | _ => exact .inl rfl

/-- The books of the requester are not the handler's to write. -/
theorem Deal.own_books {leaky : Prop} {v v' : ι → List Record} {t : Session ι}
    (hD : Deal M leaky j v t) (hlink : t.link=some l) (hv : v l.acceptor=L.jobRecords j)
    (hB : v' l.acceptor=L'.jobRecords j) (ho : ∀b,b≠l.acceptor → v' b=v b)
    (hm : ServeMove P (M.peer l.acceptor) l.loopback a L l.handler L' pc' event) :
    v' t.requester=v t.requester := by
  by_cases he : t.requester=l.acceptor
  · rcases serveMove_ledger hm with h | ⟨requester,job,hpc,-⟩
    · rw [he,hB,hv,h]
    · have hw := (hD.linked l hlink).serving.works
      rw [hpc] at hw
      exact absurd he.symm hw.2.2
  · exact ho _ he

/-- A step of the handler keeps what holds of the call, of its connection and of the
books. -/
theorem Deal.handler {leaky : Prop} {v v' : ι → List Record} {t : Session ι}
    (hD : Deal M leaky j v t) (hlink : t.link=some l) (hv : v l.acceptor=L.jobRecords j)
    (hB : v' l.acceptor=L'.jobRecords j) (ho : ∀b,b≠l.acceptor → v' b=v b)
    (hl : listen l.handler.listens c l.toAcceptor=some (a,ch)) (hleak : c.leak=true → leaky)
    (hm : ServeMove P (M.peer l.acceptor) l.loopback a L l.handler L' pc' event) :
    Deal M leaky j v' {t with link := some {l with
      handler := pc'
      toAcceptor := ch
      toRequester := speak (M.id l.acceptor) c event l.toRequester}} := by
  have hA := hD.own_books hlink hv hB ho hm
  obtain ⟨hon,hb,hu,-,hL⟩ := hD
  obtain ⟨hesc,hr,hs,hh,hp⟩ := hL l hlink
  have hch := listen_written hl
  refine ⟨hon,by rwa [← hA] at hb,fun h => absurd hlink (by rw [hu h]; simp),fun h => (by cases h),
    fun l' hl' => ?_⟩
  cases hl'
  refine ⟨by rwa [← hA] at hesc,fun o hmem => hr o (hch ▸ hmem),hs.move hr hl hm,?_,
    hp.move hs hv hB ho hl hleak hm⟩
  rw [← hA] at hh
  exact ⟨fun ph job worker he => (speak_taken ..).trans (hh.heard ph job worker he),hh.met,
    by simpa using hh.settling,by simpa using hh.settled,by simpa using hh.taken⟩

end AgentTorrent
