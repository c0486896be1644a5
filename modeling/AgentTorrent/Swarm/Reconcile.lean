import AgentTorrent.Ledger.Accounts
import AgentTorrent.Swarm.Conservation

open Framework

namespace AgentTorrent

section Moves

variable {P : Platform} {peer : Peer} {a : Answers} {L L' : Ledger} {event : Option Event}

theorem delegateMove_books {pc pc' : DelegatePc} (h : DelegateMove P peer a L pc L' pc' event) :
    BookMove L L' := by
  cases h with
  | escrow job worker hb hj => exact .escrow _ _ hj
  | settle job worker result ho => exact .settle _ _ (peerId_isRemote _) ho
  | refund job worker o ho => exact .refund _ ho
  | _ => exact .none

theorem serveMove_books {loopback : Bool} {pc pc' : ServePc}
    (h : ServeMove P peer loopback a L pc L' pc' event) : BookMove L L' := by
  cases h with
  | credit requester job hz => exact .work _ _ (peerId_isRemote _) hz
  | _ => exact .none

end Moves

variable {P : Platform} {ι : Type} {M : Members P ι} {leaky : Prop} {p q : Swarm ι}

/-- A step of the swarm is an operation on the ledger of one peer, and none on the others. -/
theorem swarm_books [DecidableEq ι] (hp : Pool.Good Books (SessionInv M leaky) p)
    {act : SwarmAction ι} (hs : (swarmMachine M).step p act=some q) (b : ι) :
    BookMove (p.shared.ledgers b) (q.shared.ledgers b) := by
  have update {s : Exchange ι} {me : ι} {L : Ledger} (h : BookMove (s.ledgers me) L) :
      BookMove (s.ledgers b) ((s.book me L).ledgers b) := by
    by_cases hb : b=me
    · subst hb
      simpa [Exchange.book] using h
    · simpa [Exchange.book,hb] using BookMove.none
  cases act with
  | delegate me args =>
    cases hs
    exact .none
  | requester k c =>
    obtain ⟨t,ht,hs⟩ := Option.bind_eq_some_iff.mp hs
    obtain ⟨⟨s',t'⟩,hm,rfl⟩ := Option.map_eq_some_iff.mp hs
    obtain ⟨⟨a,link⟩,hh,he⟩ := Option.map_eq_some_iff.mp hm
    obtain ⟨rfl,rfl⟩ := Prod.mk.inj he
    have hmove := delegateStep_move P (M.peer t.requester) t.args a
      (p.shared.ledgers t.requester) t.pc
    have hd {s : Exchange ι} (k : Nat) (o : Option PyStr) :
        (s.draw k o).ledgers=s.ledgers := by
      cases o <;> rfl
    rw [hd]
    exact update (delegateMove_books hmove)
  | handler k c =>
    obtain ⟨t,ht,hs⟩ := Option.bind_eq_some_iff.mp hs
    obtain ⟨⟨s',t'⟩,hm,rfl⟩ := Option.map_eq_some_iff.mp hs
    obtain ⟨l,hlink,hm⟩ := Option.bind_eq_some_iff.mp hm
    obtain ⟨⟨a,ch⟩,hh,he⟩ := Option.map_eq_some_iff.mp hm
    obtain ⟨rfl,rfl⟩ := Prod.mk.inj he
    have hJ := hp.each k t ht
    obtain ⟨j,hj⟩ : ∃j,t.jobId=some j := by
      cases hj : t.jobId with
      | none => cases hlink.symm.trans (hJ.idle hj).1
      | some j => exact ⟨j,rfl⟩
    have hser := ((hJ.deal j hj).linked l hlink).serving
    have hmove := serveStep_move P (M.peer l.acceptor) l.loopback a
      (p.shared.ledgers l.acceptor) l.handler fun args d hc => by
        have hw := hser.works
        rw [hc] at hw
        exact hw.elim
    exact update (serveMove_books hmove)

/-- In every state of a swarm the accounts of each ledger add up. -/
theorem swarm_accounts [DecidableEq ι] (h : (swarmMachine M).ReachableBy (Lawful leaky) p) (b : ι) :
    Accounts (p.shared.ledgers b) := by
  have both : Pool.Good Books (SessionInv M leaky) p ∧ ∀b,Accounts (p.shared.ledgers b) := by
    refine @Machine.ReachableBy.invariant _ _ (swarmMachine M) (Lawful leaky)
      (fun p => Pool.Good Books (SessionInv M leaky) p ∧ ∀b,Accounts (p.shared.ledgers b)) ?_ ?_ p h
    · intro p hp
      cases hp
      exact ⟨start_good M leaky,fun b => accounts_fresh⟩
    · intro p act q _ hp hs hg
      exact ⟨swarm_step M hp.1 hs hg,fun b => (swarm_books hp.1 hs b).accounts (hp.2 b)⟩
  exact both.2 b

/-- The jobs that B did for A and that A has not paid. -/
def unpaidTo (M : Members P ι) (p : Swarm ι) (A B : ι) : Finset PyStr :=
  workedFor (p.shared.ledgers B) (M.id A).val \ settledFor (p.shared.ledgers A) (M.id B).val

/-- What a requester has settled, the worker has booked as soon as its handler is done. -/
theorem settled_worked (hp : Pool.Good Books (SessionInv M False) p) (hq : Quiescent p) {A B : ι}
    {j : PyStr} (hs : settleRecord j (M.id B).val∈(p.shared.ledgers A).records) :
    workRecord j (M.id A).val∈(p.shared.ledgers B).records := by
  obtain ⟨t,ht,-,hD⟩ := drawn_by hp hs rfl
  obtain ⟨rfl,l,hl,hw,o,ho,hk⟩ := hD.settled (mem_view hs rfl)
  have hB : B=l.acceptor := M.distinct (Subtype.val_injective hw)
  subst hB
  rcases (hD.linked l hl).paying.paid id o (Channel.written_of_heard ho) hk with h7 | ⟨-,-,hm⟩
  · have hc := (hq t ht).2 l hl
    cases hh : l.handler with
    | finished e =>
      rw [hh] at h7
      cases h7
    | _ =>
      rw [hh] at hc
      cases hc
  · exact (List.mem_filter.mp hm).1

theorem reconciled (hp : Pool.Good Books (SessionInv M False) p)
    (ha : ∀b,Accounts (p.shared.ledgers b)) (hq : Quiescent p) (A B : ι) :
    settledFor (p.shared.ledgers A) (M.id B).val ⊆ workedFor (p.shared.ledgers B) (M.id A).val ∧
    (p.shared.ledgers A).balance (M.id B).val+(p.shared.ledgers B).balance (M.id A).val=
      -(((unpaidTo M p A B).card : Int)+(unpaidTo M p B A).card) := by
  have sub (A B : ι) : settledFor (p.shared.ledgers A) (M.id B).val ⊆
      workedFor (p.shared.ledgers B) (M.id A).val := by
    intro j hj
    have hs := (mem_jobsWith (f := fun j => settleRecord j (M.id B).val) fun _ => rfl).mp hj
    exact (mem_jobsWith (f := fun j => workRecord j (M.id A).val) fun _ => rfl).mpr
      (settled_worked hp hq hs)
  have counts (A B : ι) : ((unpaidTo M p A B).card : Int)=
      (workedFor (p.shared.ledgers B) (M.id A).val).card-
        (settledFor (p.shared.ledgers A) (M.id B).val).card := by
    rw [unpaidTo,Finset.card_sdiff_of_subset (sub A B)]
    have := Finset.card_le_card (sub A B)
    omega
  refine ⟨sub A B,?_⟩
  rw [(ha A).remote _ (peerId_isRemote _),(ha B).remote _ (peerId_isRemote _),counts A B,counts B A]
  omega

/-- Between two peers the books agree, in every state in which no delegation and no inbound
task is in progress: whatever A has paid B, B has booked as earned from A, and what the two
accounts do not add up to is the work that was done and not paid. -/
theorem ledgers_reconcile [DecidableEq ι] (h : (swarmMachine M).ReachableBy (Lawful False) p)
    (hq : Quiescent p) (A B : ι) :
    settledFor (p.shared.ledgers A) (M.id B).val ⊆ workedFor (p.shared.ledgers B) (M.id A).val ∧
    (p.shared.ledgers A).balance (M.id B).val+(p.shared.ledgers B).balance (M.id A).val=
      -(((unpaidTo M p A B).card : Int)+(unpaidTo M p B A).card) :=
  reconciled (swarm_good M h) (swarm_accounts h) hq A B

section Total

variable [Fintype ι]

/-- The jobs that some peer did and that nobody has paid. -/
def unpaid (p : Swarm ι) : Finset PyStr :=
  (jobIds p).filter fun j => (∃b,0 < jobCount .work j (p.shared.ledgers b).records) ∧
    ∀b,jobCount .settle j (p.shared.ledgers b).records=0

omit [Fintype ι] in
theorem booked_settled {pc : DelegatePc} {j : PyStr} {rs : List Record} (h : pc.Booked j rs)
    (hs : 0 < rs.countP fun r => r.kind=.settle) : ∃w,settleRecord j w∈rs := by
  have early {w : PyStr} (he : rs=[escrowRecord j w]) : False := by
    subst he
    simp [escrowRecord] at hs
  cases pc with
  | active ph job worker | settle job worker result | refund job worker o => exact (early h).elim
  | finished o =>
    rcases h with rfl | ⟨w,rfl | rfl | rfl⟩
    · cases hs
    · exact (early rfl).elim
    · exact ⟨w,by simp⟩
    · simp [escrowRecord,refundRecord] at hs
  | _ =>
    rw [show rs=[] from h] at hs
    cases hs

/-- A job is worked and settled at most once, and settled only where it was worked. -/
theorem job_unpaid (hp : Pool.Good Books (SessionInv M False) p) (hq : Quiescent p) {j : PyStr}
    (hj : j∈jobIds p) : ∑ b,jobCount .work j (p.shared.ledgers b).records=
      ∑ b,jobCount .settle j (p.shared.ledgers b).records+if j∈unpaid p then 1 else 0 := by
  obtain ⟨b,r,hr,hrj⟩ := mem_jobIds.mp hj
  obtain ⟨t,ht,-,hD⟩ := drawn_by hp hr hrj
  have hsettle := hD.counts_alone (k := .settle) (by simp)
  by_cases hs : 0 < jobCount .settle j (p.shared.ledgers t.requester).records
  · have hn : j∉unpaid p := by
      intro hm
      have hz := (Finset.mem_filter.mp hm).2.2 t.requester
      omega
    have hone : jobCount .settle j (p.shared.ledgers t.requester).records=1 := by
      obtain ⟨w,hw⟩ := hp.shared.sound t.requester
      have := hw.closeOnce j
      omega
    rw [jobCount_view] at hs
    obtain ⟨w,hm⟩ := booked_settled hD.booked hs
    obtain ⟨-,l,hl,rfl,-⟩ := hD.settled hm
    have hwork := settled_worked hp hq (List.mem_filter.mp hm).1
    have hpos : 0 < jobCount .work j (p.shared.ledgers l.acceptor).records :=
      List.countP_pos_iff.mpr ⟨_,hwork,by simp [workRecord]⟩
    rw [(hD.credited_once hpos).1,hsettle,hone,if_neg hn]
  · have hz : ∑ b,jobCount .settle j (p.shared.ledgers b).records=0 := by omega
    have hnone (b : ι) : jobCount .settle j (p.shared.ledgers b).records=0 :=
      Finset.sum_eq_zero_iff.mp hz b (Finset.mem_univ b)
    rw [hz,Nat.zero_add]
    by_cases hw : ∃b,0 < jobCount .work j (p.shared.ledgers b).records
    · obtain ⟨b,hb⟩ := hw
      have hm : j∈unpaid p := Finset.mem_filter.mpr ⟨hj,⟨b,hb⟩,hnone⟩
      rw [(hD.credited_once hb).1,if_pos hm]
    · rw [if_neg fun hm => hw (Finset.mem_filter.mp hm).2.1]
      apply Finset.sum_eq_zero
      intro b _
      by_contra hne
      exact hw ⟨b,Nat.pos_of_ne_zero hne⟩

/-- The trial balance of a swarm in which nothing is in progress: spendable credits and
credits that are still in escrow are what the peers began with, and one credit for each
job that was done and not paid. -/
theorem trial_balance [DecidableEq ι] (h : (swarmMachine M).ReachableBy (Lawful False) p)
    (hq : Quiescent p) :
    ∑ b,((p.shared.ledgers b).balance selfAccount+(openJobs (p.shared.ledgers b).records).card)=
      10*(Fintype.card ι : Int)+((unpaid p).card : Int) := by
  have hp := swarm_good M h
  have flow : ∑ b,kindCount .work (p.shared.ledgers b).records=
      ∑ b,kindCount .settle (p.shared.ledgers b).records+(unpaid p).card := by
    have hc : (unpaid p).card=∑ j ∈ jobIds p,if j∈unpaid p then 1 else 0 := by
      have hsub : unpaid p ⊆ jobIds p := Finset.filter_subset _ _
      rw [Finset.sum_boole,Finset.filter_mem_eq_inter,Finset.inter_eq_right.mpr hsub]
      rfl
    rw [sum_kindCount hp (by simp),sum_kindCount hp (by simp),hc,← Finset.sum_add_distrib]
    exact Finset.sum_congr rfl fun j hj => job_unpaid hp hq hj
  have each (b : ι) : (p.shared.ledgers b).balance selfAccount+
      ((openJobs (p.shared.ledgers b).records).card : Int)=
      10+(kindCount .work (p.shared.ledgers b).records : Int)-
        kindCount .settle (p.shared.ledgers b).records := by
    obtain ⟨w,hw⟩ := hp.shared.sound b
    have hs := hw.sound.selfFlow
    have he := hw.sound.escrowAccount
    have ha := (swarm_accounts h b).escrow
    omega
  simp only [each,Finset.sum_add_distrib,Finset.sum_sub_distrib,Finset.sum_const,
    Finset.card_univ,nsmul_eq_mul,← Nat.cast_sum,flow]
  push_cast
  omega

end Total

section Sample

/-- The late result is the one job that was done and not paid. -/
theorem ledgers_reconcile_sample :
    settledFor ((sampleSwarm lateChoice).shared.ledgers false) (sampleMembers.id true).val ⊆
      workedFor ((sampleSwarm lateChoice).shared.ledgers true) (sampleMembers.id false).val ∧
    ((sampleSwarm lateChoice).shared.ledgers false).balance (sampleMembers.id true).val+
        ((sampleSwarm lateChoice).shared.ledgers true).balance (sampleMembers.id false).val=
      -(((unpaidTo sampleMembers (sampleSwarm lateChoice) false true).card : Int)+
        (unpaidTo sampleMembers (sampleSwarm lateChoice) true false).card) :=
  ledgers_reconcile late_reachable late_quiescent false true

theorem trial_balance_sample :
    ∑ b,(((sampleSwarm lateChoice).shared.ledgers b).balance selfAccount+
      (openJobs ((sampleSwarm lateChoice).shared.ledgers b).records).card)=
    10*(Fintype.card Bool : Int)+((unpaid (sampleSwarm lateChoice)).card : Int) :=
  trial_balance late_reachable late_quiescent

end Sample

end AgentTorrent
