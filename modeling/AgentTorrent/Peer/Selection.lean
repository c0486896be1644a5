import AgentTorrent.Peer.DelegateEscrow
import AgentTorrent.Peer.Serve

namespace AgentTorrent

variable (P : Platform)

/-- The manifest that Peer.__init__ builds. -/
def Peer.manifest (peer : Peer) : Json :=
  buildManifest (peer.identity.peerId P).val peer.harnesses peer.config.maxRuntimeSeconds
    peer.config.acceptsTasks

/-- The row tells what the peer advertises now. -/
structure Reflects (peer : Peer) (row : PeerInfo) : Prop where
  peerId : row.peerId=peer.identity.peerId P
  manifest : row.manifest.json=peer.manifest P

/-- A peer table whose rows are those of other peers, each as that peer is. -/
structure HonestRows (me : PeerId) (owner : PeerInfo → Peer) (rows : List PeerInfo) : Prop where
  foreign : ∀row∈rows,row.peerId≠me
  reflects : ∀row∈rows,Reflects P (owner row) row

/-- What a manifest says about a job: the peer takes tasks, has the harness, and allows
as much time. -/
def Manifest.admits (m : Manifest) (job : Job) : Bool :=
  m.acceptsTasks && (job.requiredHarness.val=lit "any" || m.hasHarness job.requiredHarness.val) &&
  job.maxRuntimeSeconds.val ≤ m.maxRuntimeSeconds

/-- The offer of a job as its worker opens it. -/
def offerOf (me : PeerId) (ts : PyFloat) (job : Job) : Opened :=
  ⟨me,sealPayload me ts msgTaskOffer (offerBody job)⟩

section Rows

variable {P} {peer : Peer} {row : PeerInfo}

theorem Reflects.acceptsTasks (h : Reflects P peer row) :
    row.manifest.acceptsTasks=peer.config.acceptsTasks := by
  rw [Manifest.acceptsTasks,h.manifest]
  rfl

theorem Reflects.maxRuntimeSeconds (h : Reflects P peer row) :
    row.manifest.maxRuntimeSeconds=peer.config.maxRuntimeSeconds := by
  rw [Manifest.maxRuntimeSeconds,h.manifest]
  rfl

theorem Reflects.hasHarness (h : Reflects P peer row) (name : PyStr) :
    row.manifest.hasHarness name=peer.hasHarness name := by
  have hg : (peer.manifest P).get? (lit "harnesses")=some (versionMap peer.harnesses) := rfl
  rw [Manifest.hasHarness,h.manifest,hg,Option.bind_some,versionMap_get,Option.isSome_map]
  rfl

/-- The filter of delegate reads the two checks of the worker that the manifest can
answer, and the worker makes a third one. -/
theorem Reflects.accepts_iff (h : Reflects P peer row) {job : Job} {rows : List PeerInfo}
    (hm : row∈candidates job rows) :
    (peer.accepts job=true ↔ job.maxRuntimeSeconds.val≤peer.config.maxRuntimeSeconds) ∧
    (row.manifest.admits job=true ↔ job.maxRuntimeSeconds.val≤peer.config.maxRuntimeSeconds) := by
  obtain ⟨ha,hh⟩ := Bool.and_eq_true_iff.mp (List.mem_filter.mp hm).2
  have hh' := hh
  rw [h.acceptsTasks] at ha
  rw [h.hasHarness] at hh'
  simp only [Peer.accepts,Manifest.admits,h.acceptsTasks,h.maxRuntimeSeconds,ha,hh,hh',Bool.true_and,
    Bool.true_or,decide_eq_true_eq,and_self]

theorem latestSeen_mem {rows : List PeerInfo} (h : latestSeen rows=some row) : row∈rows := by
  have later (best : PeerInfo) (rest : List PeerInfo) :
      rest.foldl (fun best q => if best.lastSeen < q.lastSeen then q else best) best∈best::rest := by
    induction rest generalizing best with
    | nil => exact List.mem_cons_self
    | cons q rest ih =>
      rw [List.foldl_cons]
      split_ifs
      · exact List.mem_cons_of_mem best (ih q)
      · rcases List.mem_cons.mp (ih best) with h | h
        · rw [h]
          exact List.mem_cons_self
        · exact List.mem_cons_of_mem best (List.mem_cons_of_mem q h)
  cases rows with
  | nil => cases h
  | cons first rest =>
    rw [← Option.some.inj h]
    exact later first rest

end Rows

/-- An offer that a peer hears from another one is accepted where it passes the gate. -/
theorem offer_considered (worker : Peer) {me : PeerId} (hme : worker.identity.peerId P≠me)
    (job : Job) (ts : PyFloat) (loopback : Bool) (b : Answers) (L : Ledger)
    (hb : b.received=.ok (offerOf me ts job)) :
    (serveStep P worker loopback b L (.requestRecv me)).2.1=
      if worker.accepts job then .acceptSend me job else refuseJob P worker job := by
  have hsum : summarize P (offerBody job)=.ok () := by
    have h : pyStrs P [.str job.id]=.ok () := by simp [pyStrs,Platform.pyStr,Json.depth]
    exact h
  have hrecv : recv P (some me) [msgTaskOffer,msgControl] b.received=.ok (offerOf me ts job) := by
    rw [hb]
    refine recv_of_checks P (fun r hr => Option.some.inj hr) ?_ hsum
    exact List.mem_cons_self
  have htype : (offerOf me ts job).msgType≠msgControl := by
    have ht : (offerOf me ts job).msgType=msgTaskOffer := rfl
    rw [ht]
    decide
  have hjob : ((offerOf me ts job).body.getD (.obj [])).getD (lit "job") .null=.ok job.toJson := rfl
  simp only [serveStep,hrecv,dispatch,if_neg htype,considerOffer,hjob,if_neg hme.symm,
    validateJob_toJson]

/-- A worker that delegate selects takes the job exactly where its advertised runtime
limit, which delegate does not look at, is large enough. -/
theorem selected_worker_accepts_iff {me : PeerId} {owner : PeerInfo → Peer}
    {rows : List PeerInfo} (hr : HonestRows P me owner rows) (args : DelegateArgs) (a : Answers)
    (hd : a.discovery=some rows) (job : Job) (worker : PeerInfo)
    (hc : chooseWorker args a=.escrow job worker) (ts : PyFloat) (loopback : Bool) (b : Answers)
    (L : Ledger) (hb : b.received=.ok (offerOf me ts job)) :
    ((serveStep P (owner worker) loopback b L (.requestRecv me)).2.1=.acceptSend me job ↔
      job.maxRuntimeSeconds.val≤worker.manifest.maxRuntimeSeconds) ∧
    (worker.manifest.admits job=true ↔
      job.maxRuntimeSeconds.val≤worker.manifest.maxRuntimeSeconds) := by
  obtain ⟨-,rows',hd',hbest⟩ := chooseWorker_escrow hc
  cases hd.symm.trans hd'
  have hm := latestSeen_mem hbest
  have hrow := hr.reflects worker (List.mem_filter.mp hm).1
  have hme : (owner worker).identity.peerId P≠me :=
    hrow.peerId ▸ hr.foreign worker (List.mem_filter.mp hm).1
  obtain ⟨hacc,hadm⟩ := hrow.accepts_iff hm
  rw [offer_considered P (owner worker) hme job ts loopback b L hb,hadm,hrow.maxRuntimeSeconds,
    ← hacc]
  refine ⟨?_,Iff.rfl⟩
  split_ifs with ha
  · simp [ha]
  · have hs := refuseJob_stage P (owner worker) job
    refine ⟨?_,fun h => absurd h ha⟩
    intro h
    rw [h] at hs
    simp [ServePc.stage] at hs

section Sample

/-- A worker that allows half a minute, and one that allows ten. -/
def shortPeer : Peer := ⟨workerIdentity,⟨30,true,false,1,[]⟩,[]⟩

def longPeer : Peer := ⟨⟨[7],sampleSign [7]⟩,⟨600,true,false,1,[]⟩,[]⟩

theorem samplePeer_valid (peer : Peer)
    (h : manifestProblems (peer.manifest samplePlatform)=[]) :
    (peer.manifest samplePlatform).isObj=true ∧
      manifestProblems (peer.manifest samplePlatform)=[] := ⟨rfl,h⟩

def shortRow : PeerInfo where
  peerId := workerId
  host := lit "10.0.0.7"
  tcpPort := .int 40123
  manifest := ⟨shortPeer.manifest samplePlatform,samplePeer_valid _ (by decide)⟩
  lastSeen := 5

def longRow : PeerInfo where
  peerId := nobodyId
  host := lit "10.0.0.8"
  tcpPort := .int 40124
  manifest := ⟨longPeer.manifest samplePlatform,samplePeer_valid _ (by decide)⟩
  lastSeen := 4

def rowOwner (row : PeerInfo) : Peer := if row.peerId=workerId then shortPeer else longPeer

theorem sampleRows_honest :
    HonestRows samplePlatform requesterId rowOwner [shortRow,longRow] where
  foreign := by
    intro row hm
    rcases List.mem_pair.mp hm with rfl | rfl <;> decide
  reflects := by
    intro row hm
    rcases List.mem_pair.mp hm with rfl | rfl
    · exact ⟨by decide,rfl⟩
    · exact ⟨by decide,rfl⟩

def rowsAnswers : Answers := {sampleAnswers with discovery := some [shortRow,longRow]}

/-- The worker seen last is chosen, whatever time the job wants. -/
theorem rows_choose (maxRuntimeSeconds : PosInt) :
    chooseWorker {sampleArgs with maxRuntimeSeconds := .int maxRuntimeSeconds.val} rowsAnswers=
      .escrow {sampleJob with maxRuntimeSeconds := maxRuntimeSeconds} shortRow := by
  have hn := validateJob_toJson {sampleJob with maxRuntimeSeconds := maxRuntimeSeconds}
  have hc : candidates {sampleJob with maxRuntimeSeconds := maxRuntimeSeconds} [shortRow,longRow]=
      [shortRow,longRow] := rfl
  have hl : ¬shortRow.lastSeen < longRow.lastSeen := by decide
  have hs : latestSeen [shortRow,longRow]=some shortRow := by simp [latestSeen,hl]
  have hn : newJob rowsAnswers.uuid {sampleArgs with maxRuntimeSeconds := .int maxRuntimeSeconds.val}=
      .ok {sampleJob with maxRuntimeSeconds := maxRuntimeSeconds} := hn
  have hd : rowsAnswers.discovery=some [shortRow,longRow] := rfl
  simp only [chooseWorker,hn,hd,hc,hs]

/-- A job of half a minute is taken by the worker that is chosen. -/
theorem selected_worker_accepts_iff_sample :
    (serveStep samplePlatform shortPeer false
      {sampleAnswers with received := .ok (offerOf requesterId sampleRuntime
        {sampleJob with maxRuntimeSeconds := ⟨30,by decide⟩})}
      Ledger.fresh (.requestRecv requesterId)).2.1=
        .acceptSend requesterId {sampleJob with maxRuntimeSeconds := ⟨30,by decide⟩} :=
  (selected_worker_accepts_iff samplePlatform sampleRows_honest _ rowsAnswers rfl _ shortRow
    (rows_choose ⟨30,by decide⟩) sampleRuntime false _ Ledger.fresh rfl).1.mpr (by decide)

/-- A job of a minute goes to the worker that allows half of it, which refuses, while
another live worker admits the job. -/
theorem selection_overlooks_limit :
    HonestRows samplePlatform requesterId rowOwner [shortRow,longRow] ∧
    chooseWorker sampleArgs rowsAnswers=.escrow sampleJob shortRow ∧
    longRow.manifest.admits sampleJob=true ∧ shortRow.manifest.admits sampleJob=false ∧
    ∀ts loopback b L,b.received=.ok (offerOf requesterId ts sampleJob) →
      ∃body,(serveStep samplePlatform (rowOwner shortRow) loopback b L
        (.requestRecv requesterId)).2.1=.rejectSend body := by
  refine ⟨sampleRows_honest,rows_choose ⟨60,by decide⟩,by decide,by decide,
    fun ts loopback b L hb => ?_⟩
  have hme : (rowOwner shortRow).identity.peerId samplePlatform≠requesterId := by decide
  have ha : (rowOwner shortRow).accepts sampleJob=false := by decide
  have h1 : (rowOwner shortRow).config.acceptsTasks=true := by decide
  have h2 : sampleJob.requiredHarness.val=lit "any" := rfl
  have h3 : samplePlatform.intPrints sampleJob.maxRuntimeSeconds.val=true := by decide +kernel
  have h4 : samplePlatform.intPrints (rowOwner shortRow).config.maxRuntimeSeconds=true := by
    decide +kernel
  rw [offer_considered samplePlatform _ hme sampleJob ts loopback b L hb,ha]
  simp [refuseJob,h1,h2,h3,h4]

end Sample

end AgentTorrent
