import AgentTorrent.Peer.Selection
import AgentTorrent.Sandbox
import AgentTorrent.Swarm.Credited
import AgentTorrent.Swarm.Terms

open Framework

namespace AgentTorrent

variable {P : Platform} {ι : Type} (M : Members P ι)

/-- One call of execute_job in a swarm: the delegation it is for, the worker, and the
machine as the worker finds it. -/
structure Execution (ι : Type) where
  call : Nat
  worker : ι
  job : Job
  host : Host

def Execution.outcome (x : Execution ι) : Except PyExc JobResult :=
  executeJob P (M.peer x.worker) x.host x.job

/-- The required harness ran the job, with this result. -/
def Execution.Ran (x : Execution ι) (r : JobResult) : Prop :=
  x.outcome M=.ok r ∧ r.harness=x.job.requiredHarness.val ∧ r.simulated=false

/-- The execution that a step is, if it is one. -/
def executionOf (p : Swarm ι) : SwarmAction ι → Option (Execution ι)
  | .handler k c => ((p.threads[k]?).bind Session.link).bind fun l => match l.handler with
    | .execute _ job => some ⟨k,l.acceptor,job,c.answers.host⟩
    | _ => none
  | _ => none

/-- An observer who notes every execution. -/
def watchExecutions (p : Swarm ι) (act : SwarmAction ι) (_ : Swarm ι) (w : List (Execution ι)) :
    List (Execution ι) := w++(executionOf p act).toList

def watchedSwarm [DecidableEq ι] : Machine (Swarm ι×List (Execution ι)) (SwarmAction ι) :=
  (swarmMachine M).watched watchExecutions []

/-- An execution whose job requires a harness finds it there, unless the worker simulates
whatever it is given. -/
def Execution.Usable (x : Execution ι) : Prop :=
  x.job.requiredHarness.val≠lit "any" → (M.peer x.worker).config.forceSimulate=false →
    harnessUsable (M.peer x.worker) x.host x.job.requiredHarness.val=true

/-- Call k, between escrow and close, meets nothing that raises what delegate does not
handle. -/
def Caught (k : Nat) (p : Swarm ι) (act : SwarmAction ι) : Prop :=
  ∀c t ph job worker,act=.requester k c → p.threads[k]?=some t →
    t.pc=.active ph job worker → Gentle P (M.peer t.requester) job c.answers ∧
      ∀e,c.fault=some e → e.isProtocolError=true

/-- What holds for a call whose job requires a harness: it is paid where that harness
ran the job and reported ok, and where no execution ran it the call gives its credit
back, unless it escrowed none. -/
structure Honoured (p : Swarm ι×List (Execution ι)) (k : Nat) (t : Session ι) (job : Job) :
    Prop where
  paid : ∀w,settleRecord job.id w∈(p.1.shared.ledgers t.requester).records →
    ∃x∈p.2,x.call=k ∧ x.job=job ∧ w=(M.id x.worker).val ∧ ∃r,x.Ran M r ∧ r.status=.ok ∧
      ∃worker,t.pc=.finished (.ok (delivered job worker r.toJson))
  refunded : (∀x∈p.2,x.call=k → ∀r,¬x.Ran M r) → ∀outcome,t.pc=.finished outcome →
    (Unpaid job outcome ∧ refundRecord job.id∈(p.1.shared.ledgers t.requester).records) ∨
    ∀r∈(p.1.shared.ledgers t.requester).records,r.jobId≠some job.id

/-- The result came from an execution for the call, by this worker. -/
def Came (w : List (Execution ι)) (k : Nat) (job : Job) (b : ι) (r : JobResult) : Prop :=
  ∃x∈w,x.call=k ∧ x.worker=b ∧ x.job=job ∧ x.outcome M=.ok r

/-- A call that drew a job keeps its terms. -/
def OnTerms (s : Exchange ι) (w : List (Execution ι)) (k : Nat) (t : Session ι) : Prop :=
  ∀j,t.jobId=some j → ∃job,job.id=j ∧ Terms P job (Came M w k job) (s.view j t.requester) t

section Turns

variable {M} {s s' : Exchange ι} {w w' : List (Execution ι)} {k : Nat} {t t' : Session ι}
  {c : Choice ι}

theorem Came.mono {job : Job} {b : ι} {r : JobResult} (h : ∀x∈w,x∈w') (hc : Came M w k job b r) :
    Came M w' k job b r := by
  obtain ⟨x,hx,hr⟩ := hc
  exact ⟨x,h x hx,hr⟩

theorem OnTerms.mono (h : ∀x∈w,x∈w') (hv : ∀j,t.jobId=some j → s'.view j=s.view j)
    (hT : OnTerms M s w k t) : OnTerms M s' w' k t := by
  intro j hj
  obtain ⟨job,hid,hterms⟩ := hT j hj
  rw [hv j hj]
  exact ⟨job,hid,hterms.mono fun b r => Came.mono h⟩

variable [DecidableEq ι]

theorem requester_drawn (hJ : SessionInv M True s k t) (hT : OnTerms M s w k t) {j : PyStr}
    (hj : t.jobId=some j)
    (hg : ∀ph job worker,t.pc=.active ph job worker → Gentle P (M.peer t.requester) job c.answers ∧
      ∀e,c.fault=some e → e.isProtocolError=true)
    (h : requesterStep M k c s t=some (s',t')) : OnTerms M s' w k t' := by
  obtain ⟨⟨a,link⟩,hh,he⟩ := Option.map_eq_some_iff.mp h
  have hm := delegateStep_move P (M.peer t.requester) t.args a (s.ledgers t.requester) t.pc
  obtain ⟨rfl,rfl⟩ := Prod.mk.inj he
  have hD := hJ.deal j hj
  obtain ⟨job,hid,hterms⟩ := hT j hj
  subst hid
  intro j' hj'
  simp only [draws_on hD.on,hj,Option.none_or] at hj'
  cases hj'
  refine ⟨job,rfl,?_⟩
  have hview : ((s.book t.requester (delegateStep P (M.peer t.requester) t.args a
      (s.ledgers t.requester) t.pc).1).draw k none).view job.id t.requester=
      (delegateStep P (M.peer t.requester) t.args a (s.ledgers t.requester)
        t.pc).1.jobRecords job.id := by
    rw [Exchange.draw,view_book,if_pos rfl]
  simp only [draws_on hD.on,hj,Option.none_or]
  rw [hview]
  refine Terms.requester hterms hD.booked hh hm rfl ?_ _ _
  intro ph own worker hpc
  have hk := hterms.call
  rw [hpc] at hk
  have hown : own=job := hk
  exact hown ▸ hg ph own worker hpc

/-- The call that draws its job has sent and heard nothing. -/
theorem requester_draws (hJ : SessionInv M True s k t) (hj : t.jobId=none)
    (h : requesterStep M k c s t=some (s',t')) : OnTerms M s' w k t' := by
  obtain ⟨⟨a,link⟩,hh,he⟩ := Option.map_eq_some_iff.mp h
  have hm := delegateStep_move P (M.peer t.requester) t.args a (s.ledgers t.requester) t.pc
  obtain ⟨rfl,rfl⟩ := Prod.mk.inj he
  obtain ⟨hl,hpc⟩ := hJ.idle hj
  intro j hj'
  have hd : t.pc.draws (delegateStep P (M.peer t.requester) t.args a (s.ledgers t.requester)
      t.pc).2.1=some j := by simpa [hj] using hj'
  rcases (delegateMove_idle hm hpc).2 with hn | ⟨hchoose,job,worker,hn,hid⟩
  · have hnone (pc' : DelegatePc) (h : pc'=.start ∨ pc'=.choose ∨ ∃o,pc'=.finished o) :
        t.pc.draws pc'=none := by
      rcases h with rfl | rfl | ⟨o,rfl⟩
      all_goals cases t.pc <;> rfl
    cases (hnone _ hn).symm.trans hd
  · have hlink : link=none := by
      unfold Session.hear at hh
      rw [hl,hchoose] at hh
      cases hh
      rfl
    have hchosen : chooseWorker t.args a=.escrow job worker := by
      rw [hchoose] at hn
      exact hn
    have hjob : job.id=j := by
      rw [hn,hchoose] at hd
      exact Option.some.inj hd
    refine ⟨job,hjob,?_,?_,?_⟩
    · rw [hid]
      exact (chooseWorker_escrow hchosen).1
    · dsimp only
      rw [hn]
      exact rfl
    · intro l h
      rw [hlink] at h
      cases h

/-- A step of a call keeps its terms, or it draws the job and sets them. -/
theorem requester_terms (hJ : SessionInv M True s k t) (hT : OnTerms M s w k t)
    (hg : ∀ph job worker,t.pc=.active ph job worker → Gentle P (M.peer t.requester) job c.answers ∧
      ∀e,c.fault=some e → e.isProtocolError=true)
    (h : requesterStep M k c s t=some (s',t')) : OnTerms M s' w k t' := by
  cases hj : t.jobId with
  | some j => exact requester_drawn hJ hT hj hg h
  | none => exact requester_draws hJ hj h

/-- A step of the handler keeps the terms of its call. -/
theorem handler_terms (hJ : SessionInv M True s k t) (hT : OnTerms M s w k t)
    (h : handlerStep M c s t=some (s',t')) (hw : ∀x∈w,x∈w')
    (hx : ∀l requester job,t.link=some l → l.handler=.execute requester job →
      (⟨k,l.acceptor,job,c.answers.host⟩ : Execution ι)∈w') : OnTerms M s' w' k t' := by
  obtain ⟨l,hlink,h⟩ := Option.bind_eq_some_iff.mp h
  obtain ⟨⟨a,ch⟩,hh,he⟩ := Option.map_eq_some_iff.mp h
  obtain ⟨rfl,rfl⟩ := Prod.mk.inj he
  intro j hj
  have hD := hJ.deal j hj
  have hm := serveStep_move P (M.peer l.acceptor) l.loopback a (s.ledgers l.acceptor) l.handler
    fun args d hc => by
      have hw := (hD.linked l hlink).serving.works
      rw [hc] at hw
      exact hw.elim
  have hview : (s.book l.acceptor (serveStep P (M.peer l.acceptor) l.loopback a
      (s.ledgers l.acceptor) l.handler).1).view j t.requester=s.view j t.requester :=
    hD.own_books hlink rfl (by rw [view_book,if_pos rfl])
      (fun b hb => by rw [view_book,if_neg hb]) hm
  obtain ⟨job,hid,hterms⟩ := hT j hj
  refine ⟨job,hid,?_⟩
  dsimp only
  rw [hview]
  refine (hterms.mono fun b r => Came.mono hw).handler hlink hh ?_ _
  intro requester r he hr
  exact ⟨_,hx l requester job hlink he,rfl,rfl,rfl,hr⟩

end Turns

/-- A step of a run in which job ids are fresh and call k is spared what it does not
handle. -/
structure Spared (k : Nat) (p : Swarm ι×List (Execution ι)) (act : SwarmAction ι)
    (q : Swarm ι×List (Execution ι)) : Prop where
  lawful : Lawful True p.1 act q.1
  caught : Caught M k p.1 act

/-- Call k also finds the harness that it requires. -/
structure Steady (k : Nat) (p : Swarm ι×List (Execution ι)) (act : SwarmAction ι)
    (q : Swarm ι×List (Execution ι)) : Prop extends Spared M k p act q where
  usable : ∀x,executionOf p.1 act=some x → x.call=k → x.Usable M

/-- What every run that is steady for call k keeps. -/
structure Watched (k : Nat) (p : Swarm ι×List (Execution ι)) : Prop where
  good : Pool.Good Books (SessionInv M True) p.1
  usable : ∀x∈p.2,x.call=k → x.Usable M
  terms : ∀t,p.1.threads[k]?=some t → OnTerms M p.1.shared p.2 k t

section Runs

variable {M}

/-- A step of another call leaves the terms of call k alone. -/
theorem OnTerms.others {p : Swarm ι} {w w' : List (Execution ι)} {i k : Nat}
    {t' : Session ι} {s' : Exchange ι} (hp : Pool.Good Books (SessionInv M True) p)
    (hT : ∀u,p.threads[k]?=some u → OnTerms M p.shared w k u) (hw : ∀x∈w,x∈w') (hki : k≠i)
    (hk : Kept i p.shared s') :
    ∀u,(p.threads.set i t')[k]?=some u → OnTerms M s' w' k u := by
  intro u hu
  rw [List.getElem?_set_ne fun e => hki e.symm] at hu
  exact (hT u hu).mono hw fun j hj => hk.view j k hki (((hp.each k u hu).own j).mpr hj)

/-- A new call has no job yet. -/
theorem OnTerms.delegated {s : Exchange ι} {threads : List (Session ι)} {w w' : List (Execution ι)}
    {k : Nat} {t : Session ι} (hT : ∀u,threads[k]?=some u → OnTerms M s w k u)
    (hw : ∀x∈w,x∈w') (ht : t.jobId=none) :
    ∀u,(threads++[t])[k]?=some u → OnTerms M s w' k u := by
  intro u hu
  rcases Nat.lt_or_ge k threads.length with hl | hl
  · rw [List.getElem?_append_left hl] at hu
    exact (hT u hu).mono hw fun _ _ => rfl
  · intro j hj
    rw [List.getElem?_append_right hl] at hu
    rw [List.mem_singleton.mp (List.mem_of_getElem? hu),ht] at hj
    cases hj

theorem watched_start (k : Nat) : Watched M k (Swarm.start,[]) where
  good := start_good M True
  usable x hx := by cases hx
  terms t ht := by simp [Swarm.start] at ht

variable [DecidableEq ι]

theorem watched_keeps {k : Nat} {p q : Swarm ι×List (Execution ι)} {act : SwarmAction ι}
    (hp : Watched M k p) (hs : (watchedSwarm M).step p act=some q) (hg : Steady M k p act q) :
    Watched M k q := by
  obtain ⟨hstep,hlook⟩ := (swarmMachine M).watched_step hs
  obtain ⟨hgood,husable,hterms⟩ := hp
  have hgood' := swarm_step M hgood hstep hg.lawful
  have hw : ∀x∈p.2,x∈q.2 := by
    intro x hx
    rw [hlook]
    exact List.mem_append_left _ hx
  refine ⟨hgood',?_,?_⟩
  · intro x hx
    rw [hlook] at hx
    rcases List.mem_append.mp hx with hx | hx
    · exact husable x hx
    · exact hg.usable x (Option.mem_toList.mp hx)
  · cases act with
    | delegate b args =>
      rw [← Option.some.inj hstep]
      exact OnTerms.delegated hterms hw rfl
    | requester i c =>
      obtain ⟨t,ht,hstep⟩ := Option.bind_eq_some_iff.mp hstep
      obtain ⟨⟨s',t'⟩,hm,hq⟩ := Option.map_eq_some_iff.mp hstep
      have hi := (List.getElem?_eq_some_iff.mp ht).1
      have hJ := hgood.each i t ht
      have hkept := (requester_turn hi hgood.shared hJ (hg.lawful.1 i c t rfl ht) hm).2.2
      rw [← hq]
      by_cases hki : k=i
      · subst hki
        intro u hu
        rw [List.getElem?_set_self hi] at hu
        cases hu
        have hown := requester_terms hJ (hterms t ht) (fun ph job worker hpc =>
          hg.caught c t ph job worker rfl ht hpc) hm
        exact hown.mono hw fun _ _ => rfl
      · exact OnTerms.others hgood hterms hw hki hkept
    | handler i c =>
      obtain ⟨t,ht,hstep⟩ := Option.bind_eq_some_iff.mp hstep
      obtain ⟨⟨s',t'⟩,hm,hq⟩ := Option.map_eq_some_iff.mp hstep
      have hi := (List.getElem?_eq_some_iff.mp ht).1
      have hJ := hgood.each i t ht
      have hkept := (handler_turn hgood.shared hJ (hg.lawful.2 i c (.inr rfl)) hm).2.2
      rw [← hq]
      by_cases hki : k=i
      · subst hki
        intro u hu
        rw [List.getElem?_set_self hi] at hu
        cases hu
        exact handler_terms hJ (hterms t ht) hm hw fun l requester job hlink he => by
          rw [hlook]
          exact List.mem_append_right _ (by simp [executionOf,ht,hlink,he])
      · exact OnTerms.others hgood hterms hw hki hkept

theorem watched_run {k : Nat} {p : Swarm ι×List (Execution ι)}
    (h : (watchedSwarm M).ReachableBy (Steady M k) p) : Watched M k p := by
  refine @Machine.ReachableBy.invariant _ _ (watchedSwarm M) _ (Watched M k) ?_ ?_ p h
  · intro p hp
    obtain ⟨hs,hw⟩ := hp
    obtain ⟨s,w⟩ := p
    cases hs
    cases hw
    exact watched_start k
  · exact fun p act q _ hp hs hg => watched_keeps hp hs hg

end Runs

/-- A worker that finds the required harness usable returns results of that harness only. -/
theorem executeJob_usable {peer : Peer} {host : Host} {job : Job} {r : JobResult}
    (hf : peer.config.forceSimulate=false) (hany : job.requiredHarness.val≠lit "any")
    (hu : harnessUsable peer host job.requiredHarness.val=true)
    (h : executeJob P peer host job=.ok r) :
    r.harness=job.requiredHarness.val ∧ r.simulated=false := by
  have hc : chooseHarness peer host job=some job.requiredHarness.val := by
    simp [chooseHarness,hf,hany,hu]
  simp only [executeJob,hc] at h
  split at h
  · cases h
  · split at h
    · cases h
    · split at h
      · cases h
      · split at h
        · cases h
        · cases h
          exact ⟨rfl,rfl⟩

theorem finished_of_settled {pc : DelegatePc} {j w : PyStr} {rs : List Record}
    (hb : pc.Booked j rs) (hs : settleRecord j w∈rs) : ∃outcome,pc=.finished outcome := by
  have empty {Q : Prop} (h : rs=[]) : Q := by
    rw [h] at hs
    cases hs
  have escrowed {u : PyStr} {Q : Prop} (h : rs=[escrowRecord j u]) : Q := by
    rw [h] at hs
    exact absurd hs (settle_not_escrow j w u)
  cases pc with
  | start | choose | escrow => exact empty hb
  | active | settle | refund => exact escrowed hb
  | finished outcome => exact ⟨outcome,rfl⟩

/-- In every steady run a job that requires a harness is paid only for what that harness
made of it. -/
theorem required_harness_honoured [DecidableEq ι] {p : Swarm ι×List (Execution ι)} {k : Nat}
    (h : (watchedSwarm M).ReachableBy (Steady M k) p) {t : Session ι} {job : Job}
    (ht : p.1.threads[k]?=some t) (hj : t.jobId=some job.id) (hn : newJob job.id t.args=.ok job)
    (hany : job.requiredHarness.val≠lit "any")
    (hforce : ∀l,t.link=some l → (M.peer l.acceptor).config.forceSimulate=false) :
    Honoured M p k t job := by
  obtain ⟨hgood,husable,hterms⟩ := watched_run h
  obtain ⟨own,hid,hT⟩ := hterms t ht _ hj
  have hown : own=job := by
    have hd := hT.drawn
    rw [hid,hn] at hd
    exact (Except.ok.inj hd).symm
  subst hown
  have hD := (hgood.each k t ht).deal _ hj
  have ran {r : JobResult} (hq : ∃l,t.link=some l ∧ Came M p.2 k own l.acceptor r) :
      ∃x∈p.2,x.call=k ∧ x.job=own ∧ x.Ran M r ∧ ∃l,t.link=some l ∧ x.worker=l.acceptor := by
    obtain ⟨l,hl,x,hx,hcall,hworker,hjob,hout⟩ := hq
    have hf : (M.peer x.worker).config.forceSimulate=false := hworker ▸ hforce l hl
    have hu := husable x hx hcall (hjob ▸ hany) hf
    have hreal := executeJob_usable hf (hjob ▸ hany) hu hout
    exact ⟨x,hx,hcall,hjob,⟨hout,hreal⟩,l,hl,hworker⟩
  have ended {outcome : Except PyExc DelegateResult} (hpc : t.pc=.finished outcome) :
      Over own (fun r => ∃l,t.link=some l ∧ Came M p.2 k own l.acceptor r)
        (p.1.shared.view own.id t.requester) outcome := by
    have hk := hT.call
    rw [hpc] at hk
    exact hk
  constructor
  · intro w hs
    have hm := mem_view hs rfl
    obtain ⟨outcome,hpc⟩ := finished_of_settled hD.booked hm
    rcases ended hpc with ⟨worker,r,hq,hst,rfl,-⟩ | ⟨-,u,hrs⟩ | hrs
    · obtain ⟨x,hx,hcall,hjob,hran,l,hl,hworker⟩ := ran hq
      obtain ⟨-,l',hl',hw,-⟩ := hD.settled hm
      cases hl.symm.trans hl'
      exact ⟨x,hx,hcall,hjob,hworker ▸ hw,r,hran,hst,worker,hpc⟩
    · rw [hrs] at hm
      exact absurd hm (settle_not_refund _ _ _)
    · rw [hrs] at hm
      cases hm
  · intro hnot outcome hpc
    rcases ended hpc with ⟨worker,r,hq,-⟩ | ⟨hu,u,hrs⟩ | hrs
    · obtain ⟨x,hx,hcall,-,hran,-⟩ := ran hq
      exact absurd hran (hnot x hx hcall r)
    · have hm : refundRecord own.id∈p.1.shared.view own.id t.requester := by
        rw [hrs]
        exact List.mem_cons_of_mem _ List.mem_cons_self
      exact .inl ⟨hu,(List.mem_filter.mp hm).1⟩
    · refine .inr ?_
      intro r hr he
      have hm := mem_view hr he
      rw [hrs] at hm
      cases hm

section Sample

/-- A worker with an agent CLI and a local model. -/
def equippedWorker : Peer where
  identity := workerIdentity
  config := ⟨300,true,false,1,[]⟩
  harnesses := [(lit "claude",lit "2.0.1"),(lit "api",lit "openai-chat-api/default")]

def equippedMembers : Members samplePlatform Bool where
  peer b := if b then equippedWorker else samplePeer
  distinct a b h := sampleMembers.distinct (by cases a <;> cases b <;> exact h)

def equippedRow : PeerInfo where
  peerId := workerId
  host := lit "192.168.1.20"
  tcpPort := .int 40123
  manifest := ⟨equippedWorker.manifest samplePlatform,samplePeer_valid _ (by decide)⟩
  lastSeen := 5

def claudeArgs : DelegateArgs := {sampleArgs with requiredHarness := .str (lit "claude")}

def claudeJob : Job := {sampleJob with requiredHarness := ⟨lit "claude",by decide⟩}

/-- One delegation to the equipped worker, whose machine is as given. -/
def claudeSession (host : Host) : List (SwarmAction Bool) :=
  let c : Choice Bool := {sampleChoice with
    answers := {sampleAnswers with discovery := some [equippedRow], host := host}}
  [.delegate false claudeArgs]++List.replicate 5 (.requester 0 c)++
  List.replicate 3 (.handler 0 c)++List.replicate 2 (.requester 0 c)++
  List.replicate 5 (.handler 0 c)++List.replicate 3 (.requester 0 c)

def claudeSwarm (host : Host) : Swarm Bool×List (Execution Bool) :=
  ((watchedSwarm equippedMembers).run (.start,[]) (claudeSession host)).getD (.start,[])

/-- The CLI answers, and it has been removed from PATH. -/
def workingHost : Host := {claudeHost with launch := fun _ => .exited 0 (lit "done") []}

def strippedHost : Host := {claudeHost with usable := fun _ => none,which := fun _ => none}

/-- The reads of a run succeed, and what its calls send prints. -/
def sparedCheck (p : Swarm Bool×List (Execution Bool)) (act : SwarmAction Bool) : Bool :=
  orderly p.1 act && match act with
    | .requester k c => c.fault.isNone && c.answers.connecting=.connected &&
      (p.1.threads[k]?).all fun t => match t.pc with
        | .active _ job _ => samplePlatform.timeoutFits job.maxRuntimeSeconds.val &&
          (offerBody job).intsAll samplePlatform.intPrints
        | _ => true
    | _ => true

theorem spared_of_check (p : Swarm Bool×List (Execution Bool)) (act : SwarmAction Bool)
    (q : Swarm Bool×List (Execution Bool)) (h : sparedCheck p act=true) :
    Spared equippedMembers 0 p act q := by
  obtain ⟨ho,hc⟩ := Bool.and_eq_true_iff.mp h
  have hlawful : Lawful False p.1 act q.1 := lawful_of_orderly ho
  refine ⟨⟨hlawful.1,fun _ _ _ _ => trivial⟩,?_⟩
  intro c t ph job worker hact ht hpc
  subst hact
  simp only [ht,Option.all_some,hpc,Bool.and_eq_true,decide_eq_true_eq,
    Option.isNone_iff_eq_none] at hc
  obtain ⟨⟨hfault,hconn⟩,hfits,hints⟩ := hc
  have hgreet : (Json.obj []).depth+2 ≤ samplePlatform.dumpsDepth := by decide
  have deep : 4 ≤ samplePlatform.dumpsDepth := by decide
  have hoffer : (offerBody job).depth=2 := rfl
  refine ⟨⟨by simp [hconn],⟨_,sealMessage_prints samplePlatform _ _ hgreet rfl⟩,
    ⟨_,sealMessage_prints samplePlatform _ _ (by omega) hints⟩,hfits⟩,fun e he => ?_⟩
  rw [hfault] at he
  cases he

/-- The session with a host runs to its end past a check, and its delegation, which is about
the sample job, is settled. -/
def claudePasses (host : Host)
    (check : Swarm Bool×List (Execution Bool) → SwarmAction Bool → Bool) : Bool :=
  ((watchedSwarm equippedMembers).run (.start,[]) (claudeSession host)).isSome &&
  (watchedSwarm equippedMembers).checks check (.start,[]) (claudeSession host) &&
  ((claudeSwarm host).1.threads[0]?).any fun t =>
    t.jobId=some claudeJob.id && (newJob claudeJob.id t.args).toOption=some claudeJob &&
    settleRecord claudeJob.id workerId.val∈((claudeSwarm host).1.shared.ledgers t.requester).records

/-- A session whose steps all pass a check reaches its end by steps that the check vouches
for. -/
theorem claude_reachable {host : Host} {check : Swarm Bool×List (Execution Bool) →
    SwarmAction Bool → Bool} {G : Swarm Bool×List (Execution Bool) → SwarmAction Bool →
    Swarm Bool×List (Execution Bool) → Prop} (hg : ∀p act q,check p act=true → G p act q)
    (h : claudePasses host check=true) :
    (watchedSwarm equippedMembers).ReachableBy G (claudeSwarm host) := by
  obtain ⟨hr,hc⟩ := Bool.and_eq_true_iff.mp (Bool.and_eq_true_iff.mp h).1
  have hstart : (watchedSwarm equippedMembers).init (.start,[]) := ⟨rfl,rfl⟩
  exact Machine.ReachableBy.of_checks _ hg hstart hr hc

/-- The harness is there at every execution of the run. -/
def steadyCheck (p : Swarm Bool×List (Execution Bool)) (act : SwarmAction Bool) : Bool :=
  sparedCheck p act && (executionOf p.1 act).all fun x =>
    harnessUsable (equippedMembers.peer x.worker) x.host x.job.requiredHarness.val

theorem steady_of_check (p : Swarm Bool×List (Execution Bool)) (act : SwarmAction Bool)
    (q : Swarm Bool×List (Execution Bool)) (h : steadyCheck p act=true) :
    Steady equippedMembers 0 p act q := by
  obtain ⟨hs,hx⟩ := Bool.and_eq_true_iff.mp h
  refine ⟨spared_of_check p act q hs,?_⟩
  intro x he _ _ _
  rw [he] at hx
  exact hx

/-- The delegation of a run, which is settled. -/
theorem claude_call {host : Host} {check : Swarm Bool×List (Execution Bool) →
    SwarmAction Bool → Bool} (h : claudePasses host check=true) :
    ∃t,(claudeSwarm host).1.threads[0]?=some t ∧ t.jobId=some claudeJob.id ∧
      newJob claudeJob.id t.args=.ok claudeJob ∧ settleRecord claudeJob.id workerId.val∈
        ((claudeSwarm host).1.shared.ledgers t.requester).records := by
  obtain ⟨t,ht,hc⟩ := (Option.any_eq_true _ _).mp (Bool.and_eq_true_iff.mp h).2
  obtain ⟨hc,hs⟩ := Bool.and_eq_true_iff.mp hc
  obtain ⟨hj,hn⟩ := Bool.and_eq_true_iff.mp hc
  refine ⟨t,ht,of_decide_eq_true hj,?_,of_decide_eq_true hs⟩
  have hn := of_decide_eq_true hn
  cases he : newJob claudeJob.id t.args with
  | error e => simp [he,Except.toOption] at hn
  | ok job => simpa [he,Except.toOption] using hn

/-- With the CLI the worker has its harness throughout, and without it every result is
canned. -/
theorem claude_checked : claudePasses workingHost steadyCheck=true ∧
    claudePasses strippedHost sparedCheck=true ∧
    (claudeSwarm strippedHost).2.all (fun x =>
      (x.outcome equippedMembers).toOption.all JobResult.simulated)=true := by
  decide +kernel

theorem equipped_real (b : Bool) : (equippedMembers.peer b).config.forceSimulate=false := by
  cases b <;> rfl

theorem required_harness_honoured_sample :
    ∃t,Honoured equippedMembers (claudeSwarm workingHost) 0 t claudeJob ∧
      settleRecord claudeJob.id workerId.val∈
        ((claudeSwarm workingHost).1.shared.ledgers t.requester).records := by
  have steady := claude_reachable steady_of_check claude_checked.1
  obtain ⟨t,ht,hj,hn,hs⟩ := claude_call claude_checked.1
  exact ⟨t,required_harness_honoured equippedMembers steady ht hj hn (by decide)
    (fun l _ => equipped_real l.acceptor),hs⟩

/-- The CLI that the job requires is gone when the worker comes to run the job: the
requester pays for the canned answer, although the worker has another harness. -/
theorem canned_answer_paid :
    ∃t,(watchedSwarm equippedMembers).ReachableBy (Spared equippedMembers 0)
        (claudeSwarm strippedHost) ∧
      (claudeSwarm strippedHost).1.threads[0]?=some t ∧ t.jobId=some claudeJob.id ∧
      newJob claudeJob.id t.args=.ok claudeJob ∧ claudeJob.requiredHarness.val≠lit "any" ∧
      (∀b,(equippedMembers.peer b).config.forceSimulate=false) ∧
      harnessUsable equippedWorker strippedHost (lit "api")=true ∧
      settleRecord claudeJob.id workerId.val∈
        ((claudeSwarm strippedHost).1.shared.ledgers t.requester).records ∧
      ¬Honoured equippedMembers (claudeSwarm strippedHost) 0 t claudeJob := by
  obtain ⟨-,hpasses,hcanned⟩ := claude_checked
  obtain ⟨t,ht,hj,hn,hs⟩ := claude_call hpasses
  refine ⟨t,claude_reachable spared_of_check hpasses,ht,hj,hn,by decide,equipped_real,
    by decide,hs,fun h => ?_⟩
  obtain ⟨x,hx,-,-,-,r,⟨hout,-,hreal⟩,-⟩ := h.paid _ hs
  have hsim := List.all_eq_true.mp hcanned x hx
  rw [hout] at hsim
  cases hreal.symm.trans hsim

end Sample

end AgentTorrent
