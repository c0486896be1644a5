import AgentTorrent.Peer.Authenticity
import AgentTorrent.Swarm.Runs

open Framework

namespace AgentTorrent

variable {P : Platform} {ι : Type} (M : Members P ι)

/-- The connection on which peer B's handler serves the job that a call of A drew. -/
def Serves (p : Swarm ι) (A B : ι) (j : PyStr) (l : Link ι) : Prop :=
  ∃t∈p.threads,t.requester=A ∧ t.jobId=some j ∧ t.link=some l ∧ l.acceptor=B

/-- B's handler of the job has sent an ok TASK_RESULT, and when it has finished B's
ledger holds exactly one work record for the job, which debits A. -/
def Credited (p : Swarm ι) (A B : ι) (j : PyStr) (l : Link ι) : Prop :=
  (∃o∈l.toRequester.written,OkResult j o) ∧
  ((∃e,l.handler=.finished e) → jobCount .work j (p.shared.ledgers B).records=1 ∧
    workRecord j (M.id A).val∈(p.shared.ledgers B).records)

/-- Where A's ledger holds a settle record that pays B, B served that job for A, and
whoever served it so is credited. -/
theorem settled_is_credited [DecidableEq ι] {p : Swarm ι}
    (h : (swarmMachine M).ReachableBy (Lawful False) p) {A B : ι} {j : PyStr}
    (hs : settleRecord j (M.id B).val∈(p.shared.ledgers A).records) :
    (∃l,Serves p A B j l) ∧ ∀l,Serves p A B j l → Credited M p A B j l := by
  have hp := swarm_good M h
  obtain ⟨t,ht,hj,hD⟩ := drawn_by hp hs rfl
  obtain ⟨rfl,l,hl,hw,o,ho,hk⟩ := hD.settled (mem_view hs rfl)
  have hB : B=l.acceptor := M.distinct (Subtype.val_injective hw)
  subst hB
  refine ⟨⟨l,t,ht,rfl,hj,hl,rfl⟩,?_⟩
  intro l' hs'
  obtain ⟨u,hu,-,hju,hlu,-⟩ := hs'
  cases drawn_once hp ht hu hj hju
  cases hl.symm.trans hlu
  have hL := hD.linked l hl
  have hsent := Channel.written_of_heard ho
  refine ⟨⟨o,hsent,hk⟩,?_⟩
  intro hf
  obtain ⟨e,hf⟩ := hf
  rcases hL.paying.paid id o hsent hk with h7 | ⟨-,hne,hm⟩
  · rw [hf] at h7
    cases h7
  · obtain ⟨-,-,-,-,hv,-⟩ := hD.elsewhere hne (List.ne_nil_of_mem hm)
    refine ⟨?_,(List.mem_filter.mp hm).1⟩
    rw [Ledger.jobCount_eq]
    change List.countP _ (p.shared.view j l.acceptor)=1
    rw [hv]
    rfl

section Sample

/-- The ids of a run are fresh where it draws them, and its sends are clean. -/
def orderly (p : Swarm ι) : SwarmAction ι → Bool
  | .delegate _ _ => true
  | .requester k c => !c.leak && (p.threads[k]?).all fun t => match t.pc with
    | .choose => (p.shared.drawnBy c.answers.uuid).isNone
    | _ => true
  | .handler _ c => !c.leak

theorem lawful_of_orderly {p q : Swarm ι} {act : SwarmAction ι} (h : orderly p act=true) :
    Lawful False p act q := by
  refine ⟨?_,?_⟩
  · intro k c t hact ht hpc
    subst hact
    have h := (Bool.and_eq_true_iff.mp h).2
    rw [ht,Option.all_some,hpc] at h
    exact Option.isNone_iff_eq_none.mp h
  · intro k c hact hleak
    rcases hact with rfl | rfl
    all_goals simp [orderly,hleak] at h

/-- A requester and a worker. -/
def sampleMembers : Members samplePlatform Bool where
  peer b := if b then sampleWorker else samplePeer
  distinct := by
    have h : sampleWorker.identity.peerId samplePlatform≠
        samplePeer.identity.peerId samplePlatform := by
      decide
    intro a b hab
    cases a <;> cases b
    · rfl
    · exact absurd hab.symm h
    · exact absurd hab h
    · rfl

/-- The call connects to the worker, and every message arrives. -/
def sampleChoice : Choice Bool where
  answers := sampleAnswers
  acceptor := true
  loopback := false
  fault := none
  leak := false

/-- One delegation, up to the read of the TASK_RESULT, which goes as given. -/
def sampleSession (last : Choice Bool) : List (SwarmAction Bool) :=
  [.delegate false sampleArgs]++List.replicate 5 (.requester 0 sampleChoice)++
  List.replicate 3 (.handler 0 sampleChoice)++List.replicate 2 (.requester 0 sampleChoice)++
  List.replicate 5 (.handler 0 sampleChoice)++
  [.requester 0 sampleChoice,.requester 0 last,.requester 0 sampleChoice]

def sampleSwarm (last : Choice Bool) : Swarm Bool :=
  ((swarmMachine sampleMembers).run .start (sampleSession last)).getD .start

theorem sampleSwarm_reachable {last : Choice Bool}
    (hr : ((swarmMachine sampleMembers).run .start (sampleSession last)).isSome=true)
    (hc : (swarmMachine sampleMembers).checks orderly .start (sampleSession last)=true) :
    (swarmMachine sampleMembers).ReachableBy (Lawful False) (sampleSwarm last) :=
  Machine.ReachableBy.of_checks _ (fun _ _ _ => lawful_of_orderly) rfl hr hc

/-- A delegation that was settled and credited. -/
theorem settled_is_credited_sample : Quiescent (sampleSwarm sampleChoice) ∧
    ∃l,Serves (sampleSwarm sampleChoice) false true sampleJob.id l ∧
      Credited sampleMembers (sampleSwarm sampleChoice) false true sampleJob.id l := by
  have checked :
      ((swarmMachine sampleMembers).run .start (sampleSession sampleChoice)).isSome=true ∧
      (swarmMachine sampleMembers).checks orderly .start (sampleSession sampleChoice)=true ∧
      settleRecord sampleJob.id (sampleMembers.id true).val∈
        ((sampleSwarm sampleChoice).shared.ledgers false).records ∧
      Quiescent (sampleSwarm sampleChoice) := by decide +kernel
  obtain ⟨hrun,hc,hs,hq⟩ := checked
  obtain ⟨⟨l,hl⟩,hcredited⟩ :=
    settled_is_credited sampleMembers (sampleSwarm_reachable hrun hc) hs
  exact ⟨hq,l,hl,hcredited l hl⟩

end Sample

end AgentTorrent
