import AgentTorrent.Peer.Authenticity

open Framework

namespace AgentTorrent

variable (P : Platform) (peer : Peer)

/-- The result object that a message carries. -/
def resultOf (payload : Json) : Option Json :=
  (payload.get? (lit "body")).bind (Json.get? (lit "result"))

/-- Someone signed a message whose result names the job. -/
def Entry.NamesResult (j : PyStr) (e : Entry) : Prop :=
  ∃pubkey msg payload,e.Signs P peer pubkey msg ∧ canonicalJson P payload=.ok msg ∧
    (resultOf payload).bind (Json.get? (lit "job_id"))=some (.str j)

/-- Job ids are fresh: when a job is escrowed, nobody has signed a result for it. -/
def FreshIds (_ : Answers) (s : Shared) (t : Thread) : Prop :=
  ∀job worker,t.call=some (.escrow job worker) → ∀e∈s.history,¬e.NamesResult P peer job.id

/-- The adversary that forges nothing and guesses no job id. -/
def FreshAdversary (a : Answers) (s : Shared) (t : Thread) : Prop :=
  Adversary P peer a s t ∧ FreshIds P peer a s t

/-- The history splits at the escrow of the job. -/
def EscrowAt (history pre : List Entry) (j : PyStr) (w : PeerId) (post : List Entry) : Prop :=
  ∃i,history=pre++.own i true (.recorded (escrowRecord j w.val))::post

/-- The escrow is recorded, and no result for the job was signed before. -/
def EscrowedFresh (history : List Entry) (j : PyStr) (w : PeerId) : Prop :=
  ∃pre post,EscrowAt history pre j w post ∧ ∀e∈pre,¬e.NamesResult P peer j

/-- After the escrow of the job the holder of a key that hashes to w signed a
TASK_RESULT whose result names the job with status ok. -/
def ResultSealed (history : List Entry) (j : PyStr) (w : PeerId) (result : Json) : Prop :=
  ∃pre post,EscrowAt history pre j w post ∧ ∃e∈post,∃pubkey msg payload,
    e.Signs P peer pubkey msg ∧ peerIdFromPubkey P pubkey=w ∧ canonicalJson P payload=.ok msg ∧
    payload.strField (lit "type")=msgTaskResult ∧ resultOf payload=some result ∧
    result.get? (lit "job_id")=some (.str j) ∧
    result.get? (lit "status")=some (.str (lit "ok"))

/-- The output that a call returned is the one of a sealed result. -/
def Returned (history : List Entry) : Except PyExc DelegateResult → Prop
  | .ok (.ok j w _ _ _ output) => ∃result,ResultSealed P peer history j w result ∧
      output=(result.get? (lit "output")).getD (.str [])
  | _ => True

def RequesterCall (history : List Entry) : DelegatePc → Prop
  | .active _ job worker => EscrowedFresh P peer history job.id worker.peerId
  | .settle job worker result => ResultSealed P peer history job.id worker.peerId result
  | .refund _ _ o => statusOk o=false
  | .finished o => Returned P peer history o
  | _ => True

def RequesterInv (s : Shared) (_ : Nat) (t : Thread) : Prop :=
  ∀pc,t.call=some pc → RequesterCall P peer s.history pc

def Settled (history : List Entry) (r : Record) : Prop :=
  ∃j w result,r=settleRecord j w.val ∧ ResultSealed P peer history j w result

def RequesterAccount (s : Shared) (_ : Nat) : Prop :=
  ∀r∈s.ledger.records,r.kind=.settle → Settled P peer s.history r

section Mono

variable {P peer} {h h' : List Entry} (hp : h<+:h')

include hp

theorem EscrowAt.mono {pre post : List Entry} {j : PyStr} {w : PeerId}
    (he : EscrowAt h pre j w post) : ∃more,EscrowAt h' pre j w (post++more) := by
  obtain ⟨i,rfl⟩ := he
  obtain ⟨more,rfl⟩ := hp
  exact ⟨more,i,by simp⟩

theorem EscrowedFresh.mono {j : PyStr} {w : PeerId} (he : EscrowedFresh P peer h j w) :
    EscrowedFresh P peer h' j w := by
  obtain ⟨pre,post,he,hn⟩ := he
  obtain ⟨more,he⟩ := he.mono hp
  exact ⟨pre,post++more,he,hn⟩

theorem ResultSealed.mono {j : PyStr} {w : PeerId} {result : Json}
    (hr : ResultSealed P peer h j w result) : ResultSealed P peer h' j w result := by
  obtain ⟨pre,post,he,e,hm,rest⟩ := hr
  obtain ⟨more,he⟩ := he.mono hp
  exact ⟨pre,post++more,he,e,List.mem_append_left _ hm,rest⟩

theorem Settled.mono {r : Record} (hr : Settled P peer h r) : Settled P peer h' r := by
  obtain ⟨j,w,result,he,hs⟩ := hr
  exact ⟨j,w,result,he,hs.mono hp⟩

theorem RequesterCall.mono {pc : DelegatePc} (hc : RequesterCall P peer h pc) :
    RequesterCall P peer h' pc := by
  cases pc with
  | active => exact EscrowedFresh.mono hp hc
  | settle => exact ResultSealed.mono hp hc
  | refund => exact hc
  | finished o =>
    cases o with
    | error e => trivial
    | ok r => cases r with
      | ok =>
        obtain ⟨result,hs,he⟩ := hc
        exact ⟨result,hs.mono hp,he⟩
      | _ => trivial
  | _ => trivial

end Mono

section Steps

variable {P peer} {s : Shared} {i : Nat} {c : Bool} {L' : Ledger} {event : Option Event}
  {a : Answers} {t t' : Thread} {job : Job} {worker : PeerInfo}

theorem book_extends : s.history<+:(s.book i c L' event).history := List.prefix_append ..

theorem hear_extends (pubkey msg : Bytes) : s.history<+:(s.hear pubkey msg).history :=
  List.prefix_append ..

/-- A result that is read now was signed after the escrow. -/
theorem result_sealed {o : Opened} {result : Json}
    (he : EscrowedFresh P peer s.history job.id worker.peerId)
    (hs : SealedBy P peer s.history o.sender o.payload) (hr : ResultFor job worker o result) :
    ResultSealed P peer s.history job.id worker.peerId result := by
  obtain ⟨pre,post,⟨k,hh⟩,hn⟩ := he
  obtain ⟨e,hm,pubkey,msg,hsign,hk,hc⟩ := hs
  have hp : e∈post := by
    rw [hh] at hm
    rcases List.mem_append.mp hm with hm | hm
    · refine absurd ⟨pubkey,msg,o.payload,hsign,hc,?_⟩ (hn e hm)
      have hcar : resultOf o.payload=some result := hr.carried
      rw [hcar,Option.bind_some,hr.jobId]
    · rcases List.mem_cons.mp hm with rfl | hm
      · exact hsign.elim
      · exact hm
  exact ⟨pre,post,⟨k,hh⟩,e,hp,pubkey,msg,o.payload,hsign,hk.trans hr.sender,hc,hr.msgType,
    hr.carried,hr.jobId,hr.status⟩

/-- Where a step between escrow and close leads, the evidence is there. -/
theorem activeNext_requester {ph : Phase} {pc' : DelegatePc}
    (he : EscrowedFresh P peer s.history job.id worker.peerId)
    (hg : ∀o,a.received=.ok o → SealedBy P peer s.history o.sender o.payload)
    (h : ActiveNext P a job worker ph pc') : RequesterCall P peer s.history pc' := by
  cases h with
  | forward ph' h hm => exact he
  | refund o h => exact h
  | escape e h => trivial
  | settle o result hp hf ha hr => exact result_sealed he (hg o ha) hr

theorem returned_of_failed {h : List Entry} {o : Except PyExc DelegateResult}
    (ho : statusOk o=false) : Returned P peer h o := by
  cases o with
  | error e => trivial
  | ok r => cases r with
    | ok => cases ho
    | _ => trivial

/-- One move of a call keeps the evidence behind it and behind the settle records. -/
theorem delegateMove_requester {pc pc' : DelegatePc} (hS : RequesterAccount P peer s 0)
    (hJ : RequesterCall P peer s.history pc)
    (hg : ∀o,a.received=.ok o → SealedBy P peer s.history o.sender o.payload)
    (hf : ∀job worker,pc=.escrow job worker → ∀e∈s.history,¬e.NamesResult P peer job.id)
    (h : DelegateMove P peer a s.ledger pc L' pc' event) :
    RequesterAccount P peer (s.book i true L' event) 0 ∧
      RequesterCall P peer (s.book i true L' event).history pc' := by
  have kept (event : Option Event) : RequesterAccount P peer (s.book i true s.ledger event) 0 :=
    fun r hr hk => (hS r hr hk).mono book_extends
  have added (q : Record) (event : Option Event) (hq : q.kind=.settle →
        Settled P peer (s.book i true (s.ledger.extend q) event).history q) :
      RequesterAccount P peer (s.book i true (s.ledger.extend q) event) 0 := by
    intro r hr hk
    rcases List.mem_append.mp hr with hr | hr
    · exact (hS r hr hk).mono book_extends
    · rw [List.mem_singleton.mp hr] at hk ⊢
      exact hq hk
  cases h with
  | begin | chosen => exact ⟨kept _,trivial⟩
  | refuse pc o hp ho => exact ⟨kept _,returned_of_failed ho⟩
  | escrow job worker hb hj =>
    refine ⟨added _ _ (fun hk => by cases hk),s.history,[],⟨i,rfl⟩,?_⟩
    exact hf job worker rfl
  | go job worker ph pc' hn => exact ⟨kept _,(activeNext_requester hJ hg hn).mono book_extends⟩
  | greet job worker pc' payload hn hp =>
    exact ⟨kept _,(activeNext_requester hJ hg hn).mono book_extends⟩
  | offer job worker pc' payload hn hp =>
    exact ⟨kept _,(activeNext_requester hJ hg hn).mono book_extends⟩
  | settle job worker result ho =>
    let q := settleRecord job.id worker.peerId.val
    have hs : ResultSealed P peer (s.book i true (s.ledger.extend q) (some (.recorded q))).history
        job.id worker.peerId result := ResultSealed.mono book_extends hJ
    exact ⟨added q _ fun _ => ⟨job.id,worker.peerId,result,rfl,hs⟩,result,hs,rfl⟩
  | refund job worker o ho => exact ⟨added _ _ (fun hk => by cases hk),returned_of_failed hJ⟩
  | unclosed pc job e ho hn => exact ⟨kept _,trivial⟩
  | stay o => exact ⟨kept _,RequesterCall.mono book_extends hJ⟩

/-- What a connection books is no settle record. -/
theorem serveMove_settles {loopback : Bool} {L : Ledger} {pc pc' : ServePc}
    (h : ServeMove P peer loopback a L pc L' pc' event) :
    ∀r∈L'.records,r∈L.records ∨ r.kind≠.settle := by
  cases h with
  | credit requester job hz =>
    intro r hr
    rcases List.mem_append.mp hr with hr | hr
    · exact .inl hr
    · rw [List.mem_singleton.mp hr]
      exact .inr (by simp [workRecord])
  | _ => exact fun r hr => .inl hr

theorem serveMove_calls {loopback : Bool} {L : Ledger} {pc pc' : ServePc} {d : DelegatePc}
    (h : ServeMove P peer loopback a L pc L' pc' event)
    (hd : (Thread.serve loopback pc').call=some d) : d=.start := by
  have idle {pc : ServePc} (hb : pc.busy=false) (hd : (Thread.serve loopback pc).call=some d) :
      d=.start := by
    cases pc with
    | control => cases hb
    | _ => cases hd
  cases h with
  | commanded =>
    cases hd
    rfl
  | wait _ _ hs hb => exact idle hb hd
  | say _ _ msgType body payload hs hn ht hr hp hb hc => exact idle hb hd
  | failed requester job e _ hr hs hb => exact idle hb hd
  | reply args outcome _ hs hb => exact idle hb hd
  | _ => cases hd

theorem requester_own (hS : RequesterAccount P peer s 0) (hJ : RequesterInv P peer s i t)
    (hg : Adversary P peer a s t) (hf : FreshIds P peer a s t)
    (h : ThreadMove P peer a s.ledger t L' t' event) :
    RequesterAccount P peer (s.book i t.call.isSome L' event) 0 ∧
      RequesterInv P peer (s.book i t.call.isSome L' event) i t' := by
  cases h with
  | call _ _ pc pc' _ _ ht ht' hm hs =>
    rw [ht]
    obtain ⟨hS',hJ'⟩ := @delegateMove_requester _ _ _ i _ _ _ _ _ hS (hJ pc ht)
      (fun o => received_sealed hg) (fun job worker e => hf job worker (e ▸ ht)) hm
    refine ⟨hS',?_⟩
    intro d hd
    cases ht'.symm.trans hd
    exact hJ'
  | serve loopback pc pc' _ _ hm =>
    refine ⟨?_,?_⟩
    · intro r hr hk
      rcases serveMove_settles hm r hr with hr | hn
      · exact (hS r hr hk).mono book_extends
      · exact absurd hk hn
    · intro d hd
      rw [serveMove_calls hm hd]
      trivial
  | gone =>
    exact ⟨fun r hr hk => (hS r hr hk).mono book_extends,fun d hd => by cases hd⟩

end Steps

theorem requester_keeps : Keeps P peer (FreshAdversary P peer) (RequesterAccount P peer)
    (RequesterInv P peer) where
  start r hr hk := by
    have he : r=openingRecord := by
      simpa [Ledger.fresh,Ledger.load,Disk.empty,Ledger.append] using hr
    rw [he] at hk
    cases hk
  own _ hS hJ hg _ h := requester_own hS hJ hg.1 hg.2 h
  others _ _ _ hu _ pc hpc := (hu pc hpc).mono book_extends
  born hS ht := by
    refine ⟨hS,?_⟩
    intro pc hpc
    rcases ht with ⟨args,rfl⟩ | ⟨loopback,rfl⟩
    · cases hpc
      trivial
    · cases hpc
  signed pubkey msg hS := ⟨fun r hr hk => (hS r hr hk).mono (hear_extends pubkey msg),
    fun i t hJ pc hpc => (hJ pc hpc).mono (hear_extends pubkey msg)⟩
  gone s i pc hpc := by cases hpc

/-- What the worker of a settled job has signed, and what its caller is given. -/
structure SettlementAuthentic (p : Process) : Prop where
  settled : ∀r∈p.shared.ledger.records,r.kind=.settle → Settled P peer p.shared.history r
  returned : ∀(i : Nat) (t : Thread) j w harness simulated runtimeSeconds output,
    p.threads[i]?=some t →
    t.call=some (.finished (.ok (.ok j w harness simulated runtimeSeconds output))) →
    ∃result,ResultSealed P peer p.shared.history j w result ∧
      output=(result.get? (lit "output")).getD (.str [])

/-- Whatever the network does: a job is settled, and its call returns ok, only after
its worker signed an ok result for it, and with the output of that result. -/
theorem settlement_authentic {p : Process}
    (h : (processMachine P peer).ReachableBy (onTurns (FreshAdversary P peer)) p) :
    SettlementAuthentic P peer p := by
  have hp := (requester_keeps P peer).good h
  exact ⟨hp.shared,fun i t j w harness simulated runtimeSeconds output hi hc =>
    hp.each i t hi _ hc⟩

section Sample

/-- No turn of the process is an escrow, or nothing has happened that could be signed. -/
def calm (p : Process) : Action → Bool
  | .turn i _ => p.shared.history.isEmpty || (match p.threads[i]?.bind Thread.call with
    | some (.escrow _ _) => false
    | _ => true)
  | _ => true

theorem freshIds_of_calm {p q : Process} {act : Action} (h : calm p act=true) :
    onTurns (FreshIds P peer) p act q := by
  intro i a t hact ht job worker hc e he
  subst hact
  rcases Bool.or_eq_true_iff.mp h with h | h
  · rw [List.isEmpty_iff.mp h] at he
    cases he
  · simp [ht,hc] at h

/-- The calls of a requester up to its escrow. -/
def sampleEscrow : List Action :=
  [.call sampleArgs,.turn 0 sampleAnswers,.turn 0 sampleAnswers,.turn 0 sampleAnswers]

/-- The rest of the call, with a worker that delivers. -/
def sampleDelivery : List Action :=
  [.turn 0 sampleAnswers,.turn 0 sampleAnswers,
    .turn 0 {sampleAnswers with received := .ok workerHandshake.opened},.turn 0 sampleAnswers,
    .turn 0 {sampleAnswers with received := .ok workerAccept.opened},
    .turn 0 {sampleAnswers with received := .ok workerResult.opened},.turn 0 sampleAnswers]

def escrowedOnce : Process :=
  ((processMachine samplePlatform samplePeer).run .start sampleEscrow).getD .start

def escrowedSigned : Process := escrowedOnce.signed [workerHandshake,workerAccept,workerResult]

def settledOnce : Process :=
  ((processMachine samplePlatform samplePeer).run escrowedSigned sampleDelivery).getD escrowedSigned

theorem settledOnce_reachable : (processMachine samplePlatform samplePeer).ReachableBy
    (onTurns (FreshAdversary samplePlatform samplePeer)) settledOnce := by
  have both (p : Process) (act : Action) (q : Process)
      (ha : onTurns (Adversary samplePlatform samplePeer) p act q)
      (hf : onTurns (FreshIds samplePlatform samplePeer) p act q) :
      onTurns (FreshAdversary samplePlatform samplePeer) p act q :=
    fun i a t hact ht => ⟨ha i a t hact ht,hf i a t hact ht⟩
  have fresh {p : Process} {acts : List Action}
      (h : (processMachine samplePlatform samplePeer).checks calm p acts=true) :
      (processMachine samplePlatform samplePeer).Meets
        (onTurns (FreshIds samplePlatform samplePeer)) p acts :=
    @Machine.meets_of_checks _ _ _ _ calm (fun _ _ _ => freshIds_of_calm _ _) _ _ h
  have before : (processMachine samplePlatform samplePeer).ReachableBy
      (onTurns (FreshAdversary samplePlatform samplePeer)) escrowedOnce := by
    refine Machine.ReachableBy.run _ (.start rfl) (Machine.run_getD _ (by decide))
      (Machine.Meets.and _ both (@sample_meets _ _ [] (by simp) _ ?_) (fresh (by decide)))
    intro i a hm
    simp only [sampleEscrow,List.mem_cons,Action.turn.injEq,reduceCtorEq,false_or,List.not_mem_nil,
      or_false,or_self] at hm
    exact .inl (hm.2 ▸ rfl)
  refine (signed_reachable _ before _).run _ (Machine.run_getD _ (by decide))
    (Machine.Meets.and _ both (@sample_meets _ _ [workerHandshake,workerAccept,workerResult]
      (fun m hm => ⟨?_,signed_mem _ hm⟩) _ ?_) (fresh (by decide +kernel)))
  · simp only [sampleTranscript,List.mem_cons,List.not_mem_nil,or_false] at hm ⊢
    tauto
  · intro i a hm
    simp only [sampleDelivery,List.mem_cons,Action.turn.injEq,List.not_mem_nil,or_false] at hm
    have ha : a=sampleAnswers ∨ ∃m∈[workerHandshake,workerAccept,workerResult],
        a={sampleAnswers with received := .ok m.opened} := by
      simp only [List.mem_cons,List.not_mem_nil,or_false,exists_eq_or_imp,exists_eq_left]
      tauto
    rcases ha with rfl | ⟨m,hmem,rfl⟩
    · exact .inl rfl
    · exact .inr ⟨m,hmem,rfl⟩

/-- A delegation that was settled. -/
theorem settlement_authentic_sample : kindCount .settle settledOnce.shared.ledger.records=1 ∧
    SettlementAuthentic samplePlatform samplePeer settledOnce :=
  ⟨by decide +kernel,settlement_authentic _ _ settledOnce_reachable⟩

end Sample

end AgentTorrent
