import AgentTorrent.Swarm.TcpRuns

open Framework

namespace AgentTorrent

/-- A swarm over byte streams whose processes may end, with the process of its peer that
runs each call and the handler of its connection. -/
structure LiveSwarm (ι : Type) where
  swarm : TcpSwarm ι
  process : ι → Nat
  callBy : Nat → Nat
  servedBy : Nat → Nat

inductive LiveAction (ι : Type)
  | act (a : TcpAction ι)
  | die (b : ι)

section Live

variable {ι : Type} [DecidableEq ι]

/-- The process that is to make the step still runs. -/
def LiveSwarm.runs (s : LiveSwarm ι) : TcpAction ι → Bool
  | .delegate _ _ => true
  | .requester k _ => (s.swarm.threads[k]?).all fun t => s.callBy k=s.process t.requester
  | .handler k _ => (s.swarm.threads[k]?).all fun t => t.link.all fun l =>
    s.servedBy k=s.process l.acceptor

def LiveSwarm.after (s : LiveSwarm ι) (act : TcpAction ι) (p : TcpSwarm ι) : LiveSwarm ι where
  swarm := p
  process := s.process
  callBy := match act with
    | .delegate b _ => Function.update s.callBy s.swarm.threads.length (s.process b)
    | _ => s.callBy
  servedBy := match act with
    | .requester k c => if (s.swarm.threads[k]?).any fun t => t.link.isNone
      then Function.update s.servedBy k (s.process c.acceptor) else s.servedBy
    | _ => s.servedBy

variable {P : Platform} (M : Members P ι)

/-- The peers of a swarm over byte streams, whose processes end at any point and are
started again. What they booked is in their ledger files, and their threads are gone. -/
def liveMachine : Machine (LiveSwarm ι) (LiveAction ι) where
  init s := (tcpMachine M).init s.swarm
  step s
    | .act a => if s.runs a then ((tcpMachine M).step s.swarm a).map (s.after a) else none
    | .die b => some {s with process := Function.update s.process b (s.process b+1)}

def LiveLawful (leaky : Prop) (s : LiveSwarm ι) (act : LiveAction ι) (s' : LiveSwarm ι) : Prop :=
  ∀a,act=.act a → TcpLawful M leaky s.swarm a s'.swarm

end Live

/-- Whatever the processes that run have begun is done. -/
def LiveQuiescent {ι : Type} (s : LiveSwarm ι) : Prop :=
  ∀x∈s.swarm.threads.zipIdx,
    (s.callBy x.2=s.process x.1.requester → x.1.pc.returned=true) ∧
    ∀l∈x.1.link,s.servedBy x.2=s.process l.acceptor → l.handler.closed=true

instance {ι : Type} (s : LiveSwarm ι) : Decidable (LiveQuiescent s) := by
  unfold LiveQuiescent
  infer_instance

/-- The jobs for which some worker was credited and some requester took the escrow back. -/
def Exchange.paidTwice {ι : Type} [Fintype ι] (s : Exchange ι) : Finset PyStr :=
  (Finset.univ.biUnion fun b => ((s.ledgers b).records.filterMap Record.jobId).toFinset).filter
    fun j => (∃b,0 < jobCount .work j (s.ledgers b).records) ∧
      ∃b,0 < jobCount .refund j (s.ledgers b).records

section Runs

variable {P : Platform} {ι : Type} [DecidableEq ι] {M : Members P ι} {float : PyStr → PyFloat}
  {leaky : Prop} {s : LiveSwarm ι}

omit [DecidableEq ι] in
theorem paidTwice_eq [Fintype ι] (q : Swarm ι) : minted q=q.shared.paidTwice := by
  ext j
  simp [minted,jobIds,PaidTwice,Exchange.paidTwice]

omit [DecidableEq ι] in
/-- The records of one job. -/
theorem job_once [Fintype ι] {q : Swarm ι} (hq : Pool.Good Books (SessionInv M leaky) q)
    (j : PyStr) : ∑ b,jobCount .escrow j (q.shared.ledgers b).records ≤ 1 ∧
      ∑ b,jobCount .work j (q.shared.ledgers b).records ≤ 1 ∧
      ∑ b,(jobCount .settle j (q.shared.ledgers b).records+
        jobCount .refund j (q.shared.ledgers b).records) ≤ 1 := by
  by_cases hj : j∈jobIds q
  · obtain ⟨b,r,hr,hrj⟩ := mem_jobIds.mp hj
    obtain ⟨t,-,-,hD⟩ := drawn_by hq hr hrj
    refine ⟨?_,?_,?_⟩
    · have he := (booked_counts hD.booked).2.1
      rw [hD.counts_alone (by simp),jobCount_view]
      exact he
    · by_cases hw : ∃b,0 < jobCount .work j (q.shared.ledgers b).records
      · obtain ⟨b,hb⟩ := hw
        exact (hD.credited_once hb).1.le
      · rw [Finset.sum_eq_zero fun b _ => Nat.eq_zero_of_not_pos fun h => hw ⟨b,h⟩]
        exact Nat.zero_le 1
    · obtain ⟨w,hw⟩ := hq.shared.sound t.requester
      rw [Finset.sum_add_distrib,hD.counts_alone (by simp),hD.counts_alone (by simp)]
      exact hw.closeOnce j
  · have none (k : RecordKind) (b : ι) : jobCount k j (q.shared.ledgers b).records=0 := by
      apply List.countP_eq_zero.mpr
      intro r hr hk
      exact hj (mem_jobIds.mpr ⟨b,r,hr,by simp at hk; exact hk.2⟩)
    simp [none]

/-- Processes that end take no step that a slow process could not have failed to take. -/
theorem live_matched (hP : P.ReadsLines float) (hl : P.Lawful float)
    (h : (liveMachine M).ReachableBy (LiveLawful M leaky) s) :
    ∃q,(swarmMachine M).ReachableBy (Lawful leaky) q ∧ SwarmMatch M s.swarm q := by
  refine Machine.ReachableBy.simulated (R := fun s q => SwarmMatch M s.swarm q) ?_ ?_ h
  · intro s hs
    have hs : s.swarm=_ := hs
    exact ⟨.start,rfl,hs ▸ Pool.matched_empty _⟩
  · intro s act s' q hq hm hs hg
    cases act with
    | die b =>
      cases hs
      exact .inl hm
    | act a =>
      have hs : (if s.runs a then ((tcpMachine M).step s.swarm a).map (s.after a) else none)=
        some s' := hs
      split_ifs at hs with hr
      obtain ⟨p,hp,rfl⟩ := Option.map_eq_some_iff.mp hs
      exact .inr (tcp_step hP hl (swarm_good M hq) hm hp (hg a rfl))

/-- A job moves once, whatever becomes of the processes: it is escrowed by one call,
credited to one worker and closed at most once, and the balances exceed what the peers
began with by no more than the credits that were paid twice. -/
theorem restarts_conserve [Fintype ι] (hP : P.ReadsLines float) (hl : P.Lawful float)
    (h : (liveMachine M).ReachableBy (LiveLawful M True) s) :
    (∀j,∑ b,jobCount .escrow j (s.swarm.shared.ledgers b).records ≤ 1 ∧
      ∑ b,jobCount .work j (s.swarm.shared.ledgers b).records ≤ 1 ∧
      ∑ b,(jobCount .settle j (s.swarm.shared.ledgers b).records+
        jobCount .refund j (s.swarm.shared.ledgers b).records) ≤ 1) ∧
    ∑ b,(s.swarm.shared.ledgers b).balance selfAccount ≤
      10*(Fintype.card ι : Int)+(s.swarm.shared.paidTwice.card : Int) := by
  obtain ⟨q,hq,hm⟩ := live_matched hP hl h
  have hgood := swarm_good M hq
  rw [← hm.shared]
  exact ⟨job_once hgood,paidTwice_eq q ▸ total_balance hgood⟩

/-- A worker that did a job and was paid for it goes without its credit in one case only:
its process ended after it had sent the result and before it booked it. -/
theorem credit_lost_to_restart (hP : P.ReadsLines float) (hl : P.Lawful float)
    (h : (liveMachine M).ReachableBy (LiveLawful M False) s) (hq : LiveQuiescent s) {A B : ι}
    {j : PyStr} (hs : settleRecord j (M.id B).val∈(s.swarm.shared.ledgers A).records) :
    workRecord j (M.id A).val∈(s.swarm.shared.ledgers B).records ∨
    ∃k t l requester job,s.swarm.threads[k]?=some t ∧ t.requester=A ∧ t.jobId=some j ∧
      t.link=some l ∧ l.acceptor=B ∧ l.handler=.credit requester job ∧
      s.servedBy k≠s.process B := by
  obtain ⟨q,hreach,hm⟩ := live_matched hP hl h
  have hgood := swarm_good M hreach
  rw [← hm.shared] at hs ⊢
  obtain ⟨u,hu,hj,hD⟩ := drawn_by hgood hs rfl
  obtain ⟨rfl,m,hum,hw,o,ho,hk⟩ := hD.settled (mem_view hs rfl)
  have hB : B=m.acceptor := M.distinct (Subtype.val_injective hw)
  subst hB
  rcases (hD.linked m hum).paying.paid id o (Channel.written_of_heard ho) hk with h7 | ⟨-,-,hv⟩
  · obtain ⟨k,hk⟩ := List.getElem?_of_mem hu
    obtain ⟨t,ht,htu⟩ := hm.back hk
    obtain ⟨l,hl,hlm⟩ := htu.back hum
    rw [hlm.handler] at h7
    obtain ⟨requester,job,hc⟩ : ∃requester job,l.handler=.credit requester job := by
      cases hc : l.handler with
      | credit requester job => exact ⟨requester,job,rfl⟩
      | _ =>
        rw [hc] at h7
        cases h7
    refine .inr ⟨k,t,l,requester,job,ht,htu.requester.symm,htu.jobId.symm.trans hj,hl,
      hlm.acceptor.symm,hc,?_⟩
    intro hserved
    have hclosed := (hq (t,k) (List.mem_zipIdx_iff_getElem?.mpr ht)).2 l hl
      (hlm.acceptor ▸ hserved)
    rw [hc] at hclosed
    cases hclosed
  · exact .inl (List.mem_filter.mp hv).1

end Runs

section Sample

/-- The worker dies when it has sent its result, and the requester reads it. -/
def killedSession : List (LiveAction Bool) :=
  (streamSession.take 15).map .act++[.die true]++(streamSession.drop 16).map .act

def liveStart : LiveSwarm Bool := ⟨streamStart,fun _ => 0,fun _ => 0,fun _ => 0⟩

def killedSwarm : LiveSwarm Bool :=
  ((liveMachine streamMembers).run liveStart killedSession).getD liveStart

def liveOrderly (s : LiveSwarm Bool) : LiveAction Bool → Bool
  | .act a => tcpOrderly s.swarm a
  | .die _ => true

theorem liveLawful_of_orderly (s : LiveSwarm Bool) (act : LiveAction Bool) (s' : LiveSwarm Bool)
    (h : liveOrderly s act=true) : LiveLawful streamMembers False s act s' := by
  intro a ha
  subst ha
  exact tcpLawful_of_orderly s.swarm a s'.swarm h

/-- The run takes place, and at its end the requester has paid and the worker has booked
nothing. -/
theorem killed_checked :
    ((liveMachine streamMembers).run liveStart killedSession).isSome=true ∧
    (liveMachine streamMembers).checks liveOrderly liveStart killedSession=true ∧
    settleRecord sampleJob.id (streamMembers.id true).val∈
      (killedSwarm.swarm.shared.ledgers false).records ∧
    workRecord sampleJob.id (streamMembers.id false).val∉
      (killedSwarm.swarm.shared.ledgers true).records ∧
    LiveQuiescent killedSwarm := by
  decide +kernel

theorem killed_reachable :
    (liveMachine streamMembers).ReachableBy (LiveLawful streamMembers False) killedSwarm := by
  have hstart : (liveMachine streamMembers).init liveStart := rfl
  exact Machine.ReachableBy.of_checks _ liveLawful_of_orderly hstart killed_checked.1
    killed_checked.2.1

theorem restarts_conserve_sample :
    ∑ b,(killedSwarm.swarm.shared.ledgers b).balance selfAccount ≤
      10*(Fintype.card Bool : Int)+(killedSwarm.swarm.shared.paidTwice.card : Int) :=
  (restarts_conserve parsing_readsLines parsing_lawful (Machine.ReachableBy.mono _
    (fun _ _ _ h a ha => (h a ha).leaky fun _ => trivial) killed_reachable)).2

/-- The requester has paid, and the worker that died has booked nothing. -/
theorem credit_lost_to_restart_sample :
    settleRecord sampleJob.id (streamMembers.id true).val∈
      (killedSwarm.swarm.shared.ledgers false).records ∧
    ∃k t l requester job,killedSwarm.swarm.threads[k]?=some t ∧ t.requester=false ∧
      t.jobId=some sampleJob.id ∧ t.link=some l ∧ l.acceptor=true ∧
      l.handler=.credit requester job ∧ killedSwarm.servedBy k≠killedSwarm.process true := by
  obtain ⟨-,-,hs,hn,hq⟩ := killed_checked
  exact ⟨hs,(credit_lost_to_restart parsing_readsLines parsing_lawful killed_reachable hq
    hs).resolve_left hn⟩

end Sample

end AgentTorrent
