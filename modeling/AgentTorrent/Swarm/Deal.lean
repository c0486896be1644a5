import AgentTorrent.Peer.Concurrency
import AgentTorrent.Swarm.Swarm

open Framework

namespace AgentTorrent

/-- A TASK_RESULT whose result names the job with status ok. -/
def OkResult (j : PyStr) (o : Opened) : Prop :=
  o.msgType=msgTaskResult ∧ ∃result,o.body.bind (Json.get? (lit "result"))=some result ∧
    result.get? (lit "job_id")=some (.str j) ∧ result.get? (lit "status")=some (.str (lit "ok"))

/-- The call is about job j from its draw on. -/
def DelegatePc.On (j : PyStr) : DelegatePc → Prop
  | .escrow job _ | .active _ job _ | .settle job _ _ | .refund job _ _ => job.id=j
  | .finished _ => True
  | _ => False

/-- What the requester has booked for job j at this point of the call. -/
def DelegatePc.Booked (j : PyStr) (rs : List Record) : DelegatePc → Prop
  | .active _ _ worker | .settle _ worker _ | .refund _ worker _ =>
    rs=[escrowRecord j worker.peerId.val]
  | .finished _ => rs=[] ∨ ∃w,rs=[escrowRecord j w] ∨ rs=[escrowRecord j w,settleRecord j w] ∨
    rs=[escrowRecord j w,refundRecord j]
  | _ => rs=[]

/-- The call has not come past the connection attempt. -/
def DelegatePc.unconnected : DelegatePc → Bool
  | .active .connect _ _ => true
  | pc => pc.early

/-- How many messages the call has taken when it enters the phase. -/
def Phase.heard : Phase → Nat
  | .connect | .handshakeSend | .handshakeRecv => 0
  | .offerSend | .offerRecv => 1
  | .resultRecv => 2

/-- The handler works for requester r on job j, and not for its own peer. -/
def ServePc.Serves (r : PeerId) (j : PyStr) (foreign : Prop) : ServePc → Prop
  | .handshakeSend remote | .requestRecv remote => remote=r
  | .acceptSend requester job | .execute requester job | .credit requester job =>
    requester=r ∧ job.id=j ∧ foreign
  | .resultSend requester job result => requester=r ∧ job.id=j ∧ foreign ∧ result.jobId=j
  | .control _ _ => False
  | _ => True

/-- How many messages the handler has sent when it comes to a point before credit. -/
def ServePc.said : ServePc → Nat
  | .start | .handshakeRecv | .handshakeSend _ => 0
  | .requestRecv _ | .acceptSend _ _ => 1
  | _ => 2

/-- A message of the requester: no command, and no offer but that of job j. -/
structure FromRequester (r : PeerId) (j : PyStr) (o : Opened) : Prop where
  sender : o.sender=r
  request : o.msgType≠msgControl
  offer : o.msgType=msgTaskOffer → offeredId o.payload=some j

/-- A message of the worker. A TASK_RESULT is its third one. -/
structure FromWorker (w : PeerId) (j : PyStr) (n : Nat) (o : Opened) : Prop where
  sender : o.sender=w
  result : o.msgType=msgTaskResult → n=2 ∧ ∃job r,job.id=j ∧ o.body=some (resultBody job r)

variable {P : Platform} {ι : Type} (M : Members P ι)

structure Serving (A : ι) (j : PyStr) (l : Link ι) : Prop where
  works : l.handler.Serves (M.id A) j (l.acceptor≠A)
  replies : ∀n o,l.toRequester.written[n]?=some o → FromWorker (M.id l.acceptor) j n o
  said : l.handler.stage≤6 → l.toRequester.written.length=l.handler.said

/-- What the call has made of the messages of worker B, and what it booked for that. -/
structure Hearing (B : ι) (j : PyStr) (rs : List Record) (pc : DelegatePc)
    (ch : Channel Opened) : Prop where
  heard : ∀ph job worker,pc=.active ph job worker → ch.taken=ph.heard
  met : ∀ph job worker,pc=.active ph job worker → 3 ≤ ph.rank → worker.peerId=M.id B
  settling : ∀job worker result,pc=.settle job worker result →
    worker.peerId=M.id B ∧ ∃o∈ch.heard,OkResult j o
  settled : ∀w,settleRecord j w∈rs → w=(M.id B).val ∧ ∃o∈ch.heard,OkResult j o
  taken : ∀o∈ch.heard,OkResult j o →
    (∃job worker result,pc=.settle job worker result) ∨ ∃w,settleRecord j w∈rs

/-- What the worker has booked for job j of requester A. The last field is about
senders that know what they have sent. -/
structure Paying (leaky : Prop) (A : ι) (j : PyStr) (v : ι → List Record) (l : Link ι) : Prop where
  elsewhere : ∀b,b≠A → v b≠[] → b=l.acceptor ∧ l.handler.stage=10 ∧
    v b=[workRecord j (M.id A).val] ∧ ∃o∈l.toRequester.written,OkResult j o
  crediting : l.handler.stage=7 → ∃o∈l.toRequester.written,OkResult j o
  paid : ¬leaky → ∀o∈l.toRequester.written,OkResult j o → l.handler.stage=7 ∨
    l.handler.stage=10 ∧ l.acceptor≠A ∧ workRecord j (M.id A).val∈v l.acceptor

/-- The state of a connection and of the books of both sides. -/
structure Linked (leaky : Prop) (A : ι) (j : PyStr) (v : ι → List Record) (pc : DelegatePc)
    (l : Link ι) : Prop where
  escrowed : ∃w,escrowRecord j w∈v A
  requests : ∀o∈l.toAcceptor.written,FromRequester (M.id A) j o
  serving : Serving M A j l
  hearing : Hearing M l.acceptor j (v A) pc l.toRequester
  paying : Paying M leaky A j v l

/-- What holds of a call that drew job j, where v are the records of j at each peer. -/
structure Deal (leaky : Prop) (j : PyStr) (v : ι → List Record) (t : Session ι) : Prop where
  on : t.pc.On j
  booked : t.pc.Booked j (v t.requester)
  unconnected : t.pc.unconnected=true → t.link=none
  unlinked : t.link=none → (∀b,b≠t.requester → v b=[]) ∧ (∀w,settleRecord j w∉v t.requester) ∧
    ∀job worker result,t.pc≠.settle job worker result
  linked : ∀l,t.link=some l → Linked M leaky t.requester j v t.pc l

section Messages

variable {M}

theorem okResult_of_resultFor {job : Job} {worker : PeerInfo} {o : Opened} {result : Json}
    (h : ResultFor job worker o result) : OkResult job.id o :=
  ⟨h.msgType,result,h.carried,h.jobId,h.status⟩

theorem okResult_resultBody {o : Opened} {job : Job} {r : JobResult} {j : PyStr}
    (hb : o.body=some (resultBody job r)) (ht : o.msgType=msgTaskResult) :
    OkResult j o ↔ r.jobId=j ∧ r.status=.ok := by
  have status : lit "error"≠lit "ok" := by decide
  have hr : (resultBody job r).get? (lit "result")=some r.toJson := rfl
  have hj : r.toJson.get? (lit "job_id")=some (.str r.jobId) := rfl
  have hs : r.toJson.get? (lit "status")=some (.str r.status.text) := rfl
  simp only [OkResult,ht,hb,Option.bind_some,hr,Option.some.injEq,exists_eq_left',hj,hs,
    Json.str.injEq,true_and]
  cases r.status with
  | ok => simp [Status.text]
  | error => simp [Status.text,status]

theorem summarize_resultBody (job : Job) (r : JobResult) :
    summarize P (resultBody job r)=.ok () := by
  have h : pyStrs P [.str job.id]=.ok () := by
    simp [pyStrs,Platform.pyStr,Json.depth]
  exact h

/-- The call settles whatever ok TASK_RESULT of its worker it takes. -/
theorem resultRecv_settles {peer : Peer} {a : Answers} {job own : Job} {worker : PeerInfo}
    {o : Opened} {r : JobResult} {B : PeerId}
    (hf : P.timeoutFits job.maxRuntimeSeconds.val=true) (ha : a.received=.ok o)
    (hw : o.sender=B) (hm : worker.peerId=B)
    (hb : o.body=some (resultBody own r)) (hk : OkResult job.id o) :
    ∃result,activeStep P peer a job worker .resultRecv=(.settle job worker result,none) := by
  obtain ⟨ht,-⟩ := id hk
  obtain ⟨hj,hs⟩ := (okResult_resultBody hb ht).mp hk
  have hv : recv P (some worker.peerId) [msgTaskResult] a.received=.ok o := by
    rw [ha]
    refine recv_of_checks P ?_ (by simp [ht]) (by rw [hb]; exact summarize_resultBody own r)
    intro q hq
    rw [hw,← Option.some.inj hq,hm]
  have hi : o.payload.item (lit "body")=.ok (resultBody own r) := (Json.item_ok_iff _ _ _).mpr hb
  have h1 : (resultBody own r).getD (lit "result") (.obj [])=.ok r.toJson := rfl
  have h2 : r.toJson.getD (lit "job_id") .null=.ok (.str r.jobId) := rfl
  have h3 : r.toJson.get? (lit "status")=some (.str r.status.text) := rfl
  have h4 : (Json.str r.jobId).isStr job.id=true := (Json.isStr_iff _ _).mpr (by rw [hj])
  have h5 : ((some (Json.str r.status.text)).getD .null).isStr (lit "ok")=true :=
    (Json.isStr_iff _ _).mpr (by rw [hs]; rfl)
  refine ⟨r.toJson,?_⟩
  simp only [activeStep,hf,hv,judge,hi,h1,h2,h3,h4,h5,not_true_eq_false,if_false]

theorem listen_cases {reads : Bool} {c : Choice ι} {ch ch' : Channel Opened} {a : Answers}
    (h : listen reads c ch=some (a,ch')) : a.sent=c.answers.sent ∧
      (ch'=ch ∧ (reads=false ∨ ∃e,a.received=.error e) ∨
        reads=true ∧ ∃o,a.received=.ok o ∧ ch.take=some (o,ch')) := by
  unfold listen at h
  split_ifs at h with hr
  · split at h
    · cases h
      exact ⟨rfl,.inl ⟨rfl,.inr ⟨_,rfl⟩⟩⟩
    · obtain ⟨⟨o,d⟩,ho,he⟩ := Option.map_eq_some_iff.mp h
      cases he
      exact ⟨rfl,.inr ⟨hr,o,rfl,ho⟩⟩
  · cases h
    exact ⟨rfl,.inl ⟨rfl,.inl (by simpa using hr)⟩⟩

section Listening

variable {reads : Bool} {c : Choice ι} {ch ch' : Channel Opened} {a : Answers} {o : Opened}

theorem listen_deaf (h : listen false c ch=some (a,ch')) : ch'=ch := by
  cases h
  rfl

/-- Who listens writes nothing. -/
theorem listen_written (h : listen reads c ch=some (a,ch')) : ch'.written=ch.written := by
  rcases (listen_cases h).2 with ⟨rfl,-⟩ | ⟨-,o,-,ht⟩
  · rfl
  · exact (Channel.take_some ht).2.1

/-- What is received was the next message of the channel. -/
theorem listen_taken (h : listen reads c ch=some (a,ch')) (hr : reads=true)
    (ha : a.received=.ok o) : ch.take=some (o,ch') := by
  rcases (listen_cases h).2 with ⟨-,hd | ⟨e,he⟩⟩ | ⟨-,o',ho,ht⟩
  · cases hr.symm.trans hd
  · cases ha.symm.trans he
  · cases ha.symm.trans ho
    exact ht

theorem listen_heard (h : listen reads c ch=some (a,ch')) (ho : o∈ch'.heard) :
    o∈ch.heard ∨ reads=true ∧ a.received=.ok o ∧ ch.written[ch.taken]?=some o := by
  rcases (listen_cases h).2 with ⟨rfl,-⟩ | ⟨hr,o',ha,ht⟩
  · exact .inl ho
  · obtain ⟨hget,-,-,hh⟩ := Channel.take_some ht
    rw [hh] at ho
    rcases List.mem_append.mp ho with ho | ho
    · exact .inl ho
    · rw [List.mem_singleton.mp ho]
      exact .inr ⟨hr,ha,hget⟩

end Listening

theorem speak_cases (me : PeerId) (c : Choice ι) (event : Option Event) (ch : Channel Opened) :
    speak me c event ch=ch ∨ ∃payload,event=some (.sealed payload) ∧
      (c.answers.sent=true ∨ c.leak=true) ∧ speak me c event ch=ch.put ⟨me,payload⟩ := by
  unfold speak
  split
  · rename_i payload
    split_ifs with h
    · exact .inr ⟨payload,rfl,by simpa using h,rfl⟩
    · exact .inl rfl
  · exact .inl rfl

@[simp] theorem speak_heard (me : PeerId) (c : Choice ι) (event : Option Event)
    (ch : Channel Opened) : (speak me c event ch).heard=ch.heard := by
  rcases speak_cases me c event ch with h | ⟨payload,-,-,h⟩ <;> simp [h]

@[simp] theorem speak_taken (me : PeerId) (c : Choice ι) (event : Option Event)
    (ch : Channel Opened) : (speak me c event ch).taken=ch.taken := by
  rcases speak_cases me c event ch with h | ⟨payload,-,-,h⟩ <;> simp [h]

end Messages

end AgentTorrent
