import Mathlib.Algebra.BigOperators.Ring.Finset
import Mathlib.Algebra.Order.BigOperators.Group.Finset
import AgentTorrent.Swarm.Credited

open Framework

namespace AgentTorrent

/-- Counting by the value of a function that the counted elements have. -/
theorem sum_countP_fiber {α β : Type} [DecidableEq β] (f : α → Option β) (q : α → Prop)
    [DecidablePred q] (s : Finset β) (xs : List α)
    (h : ∀x∈xs,q x → ∃b∈s,f x=some b) :
    ∑ b ∈ s,xs.countP (fun x => q x ∧ f x=some b)=xs.countP fun x => q x := by
  induction xs with
  | nil => simp
  | cons x xs ih =>
    have ih := ih fun y hy => h y (.tail _ hy)
    simp only [List.countP_cons,Finset.sum_add_distrib,ih,decide_eq_true_eq]
    congr 1
    by_cases hq : q x
    · obtain ⟨b,hb,hf⟩ := h x (.head _) hq
      simp [hq,hf,hb]
    · simp [hq]

variable {P : Platform} {ι : Type} [Fintype ι] (M : Members P ι)

/-- The job ids that stand in any ledger. -/
def jobIds (p : Swarm ι) : Finset PyStr :=
  Finset.univ.biUnion fun b => ((p.shared.ledgers b).records.filterMap Record.jobId).toFinset

/-- A worker was credited for the job, and its requester took the escrow back. -/
def PaidTwice (p : Swarm ι) (j : PyStr) : Prop :=
  (∃b,0 < jobCount .work j (p.shared.ledgers b).records) ∧
  ∃b,0 < jobCount .refund j (p.shared.ledgers b).records

instance (p : Swarm ι) (j : PyStr) : Decidable (PaidTwice p j) := by
  unfold PaidTwice
  infer_instance

def minted (p : Swarm ι) : Finset PyStr := (jobIds p).filter (PaidTwice p)

/-- What is behind a work record of B: a call of some A that escrowed for the job and
that B's handler served, and either A's settle record that pays B, or no ok TASK_RESULT
that A's call has taken. -/
def Matched (p : Swarm ι) (B : ι) (r : Record) : Prop :=
  ∃A j l,r=workRecord j (M.id A).val ∧ Serves p A B j l ∧
    jobCount .escrow j (p.shared.ledgers A).records=1 ∧
    (settleRecord j (M.id B).val∈(p.shared.ledgers A).records ∨
      ∀o∈l.toRequester.heard,¬OkResult j o)

section Flow

variable {M} {leaky : Prop} {p : Swarm ι}

theorem booked_counts {pc : DelegatePc} {j : PyStr} {rs : List Record} (h : pc.Booked j rs) :
    (rs.countP fun r => r.kind=.refund) ≤ (rs.countP fun r => r.kind=.escrow) ∧
    (rs.countP fun r => r.kind=.escrow) ≤ 1 ∧ (rs.countP fun r => r.kind=.work)=0 := by
  have forms : rs=[] ∨ ∃w,rs=[escrowRecord j w] ∨ rs=[escrowRecord j w,settleRecord j w] ∨
      rs=[escrowRecord j w,refundRecord j] := by
    cases pc with
    | active ph job worker | settle job worker result | refund job worker o =>
      exact .inr ⟨_,.inl h⟩
    | finished o => exact h
    | _ => exact .inl h
  rcases forms with rfl | ⟨w,rfl | rfl | rfl⟩
  all_goals simp [escrowRecord,settleRecord,refundRecord]

theorem mem_jobIds {j : PyStr} :
    j∈jobIds p ↔ ∃b,∃r∈(p.shared.ledgers b).records,r.jobId=some j := by
  simp [jobIds]

section OneDeal

variable {j : PyStr} {t : Session ι}

omit [Fintype ι] in
theorem jobCount_view (k : RecordKind) (b : ι) : jobCount k j (p.shared.ledgers b).records=
    (p.shared.view j b).countP fun r => r.kind=k := Ledger.jobCount_eq _ _ _

/-- Only the requester escrows and refunds. -/
theorem Deal.counts_alone (hD : Deal M leaky j (p.shared.view j) t) {k : RecordKind}
    (hk : k≠.work) : ∑ b,jobCount k j (p.shared.ledgers b).records=
      jobCount k j (p.shared.ledgers t.requester).records := by
  refine Finset.sum_eq_single _ ?_ (by simp)
  intro b _ hb
  rw [jobCount_view]
  by_cases hv : p.shared.view j b=[]
  · rw [hv]
    rfl
  · obtain ⟨-,-,-,-,hv,-⟩ := hD.elsewhere hb hv
    simp [hv,workRecord,hk.symm]

omit [Fintype ι] in
/-- A peer that was credited is not the requester, and the call connected to it. -/
theorem Deal.credited_elsewhere (hD : Deal M leaky j (p.shared.view j) t) {b : ι}
    (hb : 0 < jobCount .work j (p.shared.ledgers b).records) :
    ∃l,t.link=some l ∧ l.acceptor=b ∧ jobCount .work j (p.shared.ledgers b).records=1 := by
  have hA : b≠t.requester := by
    intro h
    rw [h,jobCount_view,(booked_counts hD.booked).2.2] at hb
    cases hb
  have hne : p.shared.view j b≠[] := by
    intro h
    rw [jobCount_view,h] at hb
    cases hb
  obtain ⟨l,hl,hlb,-,hv,-⟩ := hD.elsewhere hA hne
  refine ⟨l,hl,hlb,?_⟩
  rw [jobCount_view,hv]
  rfl

/-- Only the acceptor is credited, once, and for an escrow. -/
theorem Deal.credited_once (hD : Deal M leaky j (p.shared.view j) t) {b : ι}
    (hb : 0 < jobCount .work j (p.shared.ledgers b).records) :
    ∑ b,jobCount .work j (p.shared.ledgers b).records=1 ∧
      0 < jobCount .escrow j (p.shared.ledgers t.requester).records := by
  obtain ⟨l,hl,hlb,hone⟩ := hD.credited_elsewhere hb
  constructor
  · rw [Finset.sum_eq_single b ?_ (by simp),hone]
    intro x _ hx
    by_contra hpos
    obtain ⟨l',hl',hlx,-⟩ := hD.credited_elsewhere (Nat.pos_of_ne_zero hpos)
    cases hl.symm.trans hl'
    exact hx (hlx.symm.trans hlb)
  · obtain ⟨w,hesc⟩ := (hD.linked l hl).escrowed
    rw [jobCount_view]
    exact List.countP_pos_iff.mpr ⟨_,hesc,by simp [escrowRecord]⟩

end OneDeal

/-- A job moves at most the credit that was escrowed for it, unless it was paid twice. -/
theorem job_flow (hp : Pool.Good Books (SessionInv M leaky) p) {j : PyStr} (hj : j∈jobIds p) :
    ∑ b,jobCount .refund j (p.shared.ledgers b).records+
      ∑ b,jobCount .work j (p.shared.ledgers b).records ≤
    ∑ b,jobCount .escrow j (p.shared.ledgers b).records+if PaidTwice p j then 1 else 0 := by
  obtain ⟨b,r,hr,hrj⟩ := mem_jobIds.mp hj
  obtain ⟨t,-,-,hD⟩ := drawn_by hp hr hrj
  have hre := (booked_counts hD.booked).1
  rw [← jobCount_view,← jobCount_view] at hre
  rw [hD.counts_alone (k := .refund) (by simp),hD.counts_alone (k := .escrow) (by simp)]
  by_cases hwork : ∃b,0 < jobCount .work j (p.shared.ledgers b).records
  · obtain ⟨b,hb⟩ := hwork
    obtain ⟨hsum,hpos⟩ := hD.credited_once hb
    rw [hsum]
    split_ifs with hm
    · omega
    · have hz : jobCount .refund j (p.shared.ledgers t.requester).records=0 := by
        by_contra hn
        exact hm ⟨⟨b,hb⟩,t.requester,Nat.pos_of_ne_zero hn⟩
      have he := (booked_counts hD.booked).2.1
      rw [← jobCount_view] at he
      omega
  · have hsum : ∑ b,jobCount .work j (p.shared.ledgers b).records=0 := by
      apply Finset.sum_eq_zero
      intro b _
      by_contra hn
      exact hwork ⟨b,Nat.pos_of_ne_zero hn⟩
    rw [hsum]
    omega

theorem sum_kindCount (hp : Pool.Good Books (SessionInv M leaky) p) {k : RecordKind}
    (hk : k≠.opening) : ∑ b,kindCount k (p.shared.ledgers b).records=
      ∑ j ∈ jobIds p,∑ b,jobCount k j (p.shared.ledgers b).records := by
  rw [Finset.sum_comm]
  apply Finset.sum_congr rfl
  intro b _
  refine (sum_countP_fiber Record.jobId (fun r => r.kind=k) _ _ ?_).symm
  intro r hr hrk
  rcases hp.shared.named b r hr with ⟨h,-⟩ | ⟨j,-,h,-⟩
  · exact absurd (hrk.symm.trans h) hk
  · exact ⟨j,mem_jobIds.mpr ⟨b,r,hr,h⟩,h⟩

/-- The balances exceed what the peers began with by no more than the credits that
were paid twice. -/
theorem total_balance (hp : Pool.Good Books (SessionInv M leaky) p) :
    ∑ b,(p.shared.ledgers b).balance selfAccount ≤
      10*(Fintype.card ι : Int)+((minted p).card : Int) := by
  have flow : ∑ b,kindCount .refund (p.shared.ledgers b).records+
      ∑ b,kindCount .work (p.shared.ledgers b).records ≤
      ∑ b,kindCount .escrow (p.shared.ledgers b).records+(minted p).card := by
    rw [sum_kindCount hp (by simp),sum_kindCount hp (by simp),sum_kindCount hp (by simp),minted,
      Finset.card_filter,← Finset.sum_add_distrib,← Finset.sum_add_distrib]
    exact Finset.sum_le_sum fun j hj => job_flow hp hj
  have each (b : ι) : (p.shared.ledgers b).balance selfAccount=
      10-(kindCount .escrow (p.shared.ledgers b).records : Int)+
        kindCount .refund (p.shared.ledgers b).records+
        kindCount .work (p.shared.ledgers b).records := by
    obtain ⟨w,hw⟩ := hp.shared.sound b
    exact hw.sound.selfFlow
  have hsum : ∑ b,(p.shared.ledgers b).balance selfAccount=
      10*(Fintype.card ι : Int)-(∑ b,kindCount .escrow (p.shared.ledgers b).records : Nat)+
        (∑ b,kindCount .refund (p.shared.ledgers b).records : Nat)+
        (∑ b,kindCount .work (p.shared.ledgers b).records : Nat) := by
    simp only [each,Finset.sum_add_distrib,Finset.sum_sub_distrib,Finset.sum_const,
      Finset.card_univ,Nat.cast_sum,nsmul_eq_mul]
    rw [mul_comm (10 : Int)]
  omega

omit [Fintype ι] in
/-- In a quiescent state every work record is matched. -/
theorem work_matched (hp : Pool.Good Books (SessionInv M leaky) p) (hq : Quiescent p) {B : ι}
    {r : Record} (hr : r∈(p.shared.ledgers B).records) (hk : r.kind=.work) : Matched M p B r := by
  obtain ⟨j,hj⟩ : ∃j,r.jobId=some j := by
    rcases hp.shared.named B r hr with ⟨h,-⟩ | ⟨j,-,h,-⟩
    · cases hk.symm.trans h
    · exact ⟨j,h⟩
  obtain ⟨t,ht,hjob,hD⟩ := drawn_by hp hr hj
  have hm := mem_view hr hj
  obtain ⟨-,he,hw⟩ := booked_counts hD.booked
  have hBA : B≠t.requester := by
    intro h
    subst h
    exact absurd hk (by simpa using List.countP_eq_zero.mp hw r hm)
  obtain ⟨l,hl,hacc,-,hv,-⟩ := hD.elsewhere hBA (List.ne_nil_of_mem hm)
  subst hacc
  rw [hv] at hm
  have hL := hD.linked l hl
  refine ⟨t.requester,j,l,List.mem_singleton.mp hm,⟨t,ht,rfl,hjob,hl,rfl⟩,?_,?_⟩
  · obtain ⟨w,hesc⟩ := hL.escrowed
    have hpos : 0 < (p.shared.view j t.requester).countP fun r => r.kind=.escrow :=
      List.countP_pos_iff.mpr ⟨_,hesc,by simp [escrowRecord]⟩
    rw [Ledger.jobCount_eq]
    exact Nat.le_antisymm he hpos
  · by_cases hh : ∃o∈l.toRequester.heard,OkResult j o
    · obtain ⟨o,ho,hok⟩ := hh
      refine .inl ?_
      rcases hL.hearing.taken o ho hok with ⟨job,worker,result,hpc⟩ | ⟨w,hs⟩
      · have hf := (hq t ht).1
        rw [hpc] at hf
        cases hf
      · rw [← (hL.hearing.settled w hs).1]
        exact (List.mem_filter.mp hs).1
    · exact .inr fun o ho hok => hh ⟨o,ho,hok⟩

end Flow

/-- In every state that a swarm reaches, the balances exceed what the peers began with
by no more than the credits that were paid twice, and in a quiescent one every work
record is matched. -/
theorem credits_conserved [DecidableEq ι] {p : Swarm ι}
    (h : (swarmMachine M).ReachableBy (Lawful True) p) :
    (Quiescent p → ∀B,∀r∈(p.shared.ledgers B).records,r.kind=.work → Matched M p B r) ∧
    ∑ b,(p.shared.ledgers b).balance selfAccount ≤
      10*(Fintype.card ι : Int)+((minted p).card : Int) := by
  have hp := swarm_good M h
  exact ⟨fun hq B r hr hk => work_matched hp hq hr hk,total_balance hp⟩

section Sample

/-- The read of the TASK_RESULT times out. -/
def lateChoice : Choice Bool := {sampleChoice with fault := some (.protocolError .timedOut)}

/-- The run with the late result takes place, and what its last state holds. -/
theorem late_checked :
    ((swarmMachine sampleMembers).run .start (sampleSession lateChoice)).isSome=true ∧
    (swarmMachine sampleMembers).checks orderly .start (sampleSession lateChoice)=true ∧
    Quiescent (sampleSwarm lateChoice) ∧
    workRecord sampleJob.id (sampleMembers.id false).val∈
      ((sampleSwarm lateChoice).shared.ledgers true).records ∧
    jobCount .settle sampleJob.id ((sampleSwarm lateChoice).shared.ledgers false).records=0 ∧
    10*(Fintype.card Bool : Int) < ∑ b,((sampleSwarm lateChoice).shared.ledgers b).balance
      selfAccount := by
  decide +kernel

theorem late_reachable :
    (swarmMachine sampleMembers).ReachableBy (Lawful False) (sampleSwarm lateChoice) :=
  sampleSwarm_reachable late_checked.1 late_checked.2.1

theorem late_quiescent : Quiescent (sampleSwarm lateChoice) := late_checked.2.2.1

/-- The worker sends the result and credits itself, and the requester, which waited too
short for it, takes its escrow back: two peers hold 21 credits. -/
theorem late_result_mints :
    (swarmMachine sampleMembers).ReachableBy (Lawful False) (sampleSwarm lateChoice) ∧
    Quiescent (sampleSwarm lateChoice) ∧
    workRecord sampleJob.id (sampleMembers.id false).val∈
      ((sampleSwarm lateChoice).shared.ledgers true).records ∧
    jobCount .settle sampleJob.id ((sampleSwarm lateChoice).shared.ledgers false).records=0 ∧
    10*(Fintype.card Bool : Int) < ∑ b,((sampleSwarm lateChoice).shared.ledgers b).balance
      selfAccount :=
  ⟨late_reachable,late_checked.2.2⟩

theorem credits_conserved_sample :
    (∀B,∀r∈((sampleSwarm lateChoice).shared.ledgers B).records,r.kind=.work →
      Matched sampleMembers (sampleSwarm lateChoice) B r) ∧
    ∑ b,((sampleSwarm lateChoice).shared.ledgers b).balance selfAccount ≤
      10*(Fintype.card Bool : Int)+((minted (sampleSwarm lateChoice)).card : Int) := by
  have h := credits_conserved sampleMembers (Machine.ReachableBy.mono _
    (fun _ _ _ hl => ⟨hl.1,fun _ _ _ _ => trivial⟩) late_reachable)
  exact ⟨h.1 late_quiescent,h.2⟩

end Sample

end AgentTorrent
