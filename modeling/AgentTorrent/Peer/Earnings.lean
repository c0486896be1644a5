import AgentTorrent.Peer.Authenticity

open Framework

namespace AgentTorrent

/-- An ok TASK_RESULT that a handler has sent. -/
structure Delivery where
  thread : Nat
  requester : PeerId
  jobId : PyStr

/-- What an observer of a worker notes: every ok TASK_RESULT that was sent, and those
whose handler has returned, in the order in which the handlers return. -/
structure Deliveries where
  sent : List Delivery
  completed : List Delivery

variable (P : Platform) (peer : Peer)

/-- The requester and the job of the ok TASK_RESULT that a turn sends. -/
def okResultSent (a : Answers) : Thread → Option (PeerId×PyStr)
  | .serve _ (.resultSend requester job result) =>
    match sealMessage P peer.identity a.ts msgTaskResult (resultBody job result) with
    | .ok _ => if a.sent=true ∧ result.status=.ok then some (requester,job.id) else none
    | .error _ => none
  | _ => none

/-- The handler of a connection returns in this turn. -/
def handlerReturns : Thread → Thread → Bool
  | .serve _ (.finished _),_ => false
  | .serve _ _,.serve _ (.finished none) => true
  | _,_ => false

def Deliveries.note (i : Nat) (a : Answers) (t t' : Thread) (w : Deliveries) : Deliveries :=
  let sent := w.sent++((okResultSent P peer a t).map fun d => ⟨i,d.1,d.2⟩).toList
  ⟨sent,if handlerReturns t t' then w.completed++sent.filter fun d => d.thread=i else w.completed⟩

def watchDeliveries (p : Process) (act : Action) (q : Process) (w : Deliveries) : Deliveries :=
  match act with
  | .turn i a => match p.threads[i]?,q.threads[i]? with
    | some t,some t' => w.note P peer i a t t'
    | _,_ => w
  | _ => w

/-- A peer process with an observer of its deliveries. -/
def watchedProcess : Machine (Process×Deliveries) Action :=
  (processMachine P peer).watched (watchDeliveries P peer) ⟨[],[]⟩

/-- The deliveries that are the first of their job. -/
def firstPerJob : List Delivery → List Delivery
  | [] => []
  | d::ds => d::(firstPerJob ds).filter fun e => e.jobId≠d.jobId

theorem mem_firstPerJob_jobId (ds : List Delivery) (j : PyStr) :
    (∃d∈firstPerJob ds,d.jobId=j) ↔ ∃d∈ds,d.jobId=j := by
  induction ds with
  | nil => rfl
  | cons d ds ih =>
    by_cases hd : d.jobId=j
    · exact iff_of_true ⟨d,by simp [firstPerJob],hd⟩ ⟨d,by simp,hd⟩
    · have hn : ∀e : Delivery,e.jobId=j → e.jobId≠d.jobId := fun e he h => hd (h.symm.trans he)
      simp only [firstPerJob,List.mem_cons,List.mem_filter,exists_eq_or_imp,hd,false_or]
      rw [← ih]
      constructor
      · intro h
        obtain ⟨e,⟨he,-⟩,hj⟩ := h
        exact ⟨e,he,hj⟩
      · intro h
        obtain ⟨e,he,hj⟩ := h
        exact ⟨e,⟨he,by simpa using hn e hj⟩,hj⟩

theorem firstPerJob_snoc (ds : List Delivery) (d : Delivery) : firstPerJob (ds++[d])=
    firstPerJob ds++if ∃e∈ds,e.jobId=d.jobId then [] else [d] := by
  induction ds with
  | nil => simp [firstPerJob]
  | cons c ds ih =>
    rw [List.cons_append,firstPerJob,ih,firstPerJob,List.filter_append,List.cons_append]
    congr 2
    by_cases hc : c.jobId=d.jobId
    · have hd : ¬(d.jobId≠c.jobId) := not_not.mpr hc.symm
      simp only [List.mem_cons,exists_eq_or_imp,hc,true_or,if_true]
      split_ifs <;> simp
    · have hd : d.jobId≠c.jobId := fun h => hc h.symm
      simp only [List.mem_cons,exists_eq_or_imp,hc,false_or]
      split_ifs <;> simp [hd]

theorem firstPerJob_of_nodup {ds : List Delivery} (h : (ds.map Delivery.jobId).Nodup) :
    firstPerJob ds=ds := by
  induction ds with
  | nil => rfl
  | cons d ds ih =>
    obtain ⟨hd,hn⟩ := List.nodup_cons.mp h
    rw [firstPerJob,ih hn,List.filter_eq_self.mpr]
    intro e he
    have : e.jobId≠d.jobId := fun hj => hd (hj ▸ List.mem_map_of_mem he)
    simpa using this

/-- The work records of a ledger. -/
def Ledger.worked (L : Ledger) : List Record := L.records.filter fun r => r.kind=.work

theorem worked_extend (L : Ledger) (r : Record) :
    (L.extend r).worked=L.worked++if r.kind=.work then [r] else [] := by
  by_cases h : r.kind=.work <;> simp [Ledger.worked,h]

/-- The delivery that a handler is about to be credited for. -/
def ServePc.owed : ServePc → Option (PeerId×PyStr)
  | .credit requester job => some (requester,job.id)
  | _ => none

def ServePc.returned : ServePc → Bool
  | .finished _ => true
  | _ => false

section Turns

variable {P peer} {a : Answers} {L L' : Ledger} {event : Option Event}

theorem delegateMove_worked {pc pc' : DelegatePc} (h : DelegateMove P peer a L pc L' pc' event) :
    L'.worked=L.worked := by
  cases h with
  | escrow | settle | refund =>
    rw [worked_extend,if_neg (by simp [escrowRecord,settleRecord,refundRecord]),List.append_nil]
  | _ => rfl

theorem owed_of_idle {pc : ServePc} (h : pc.busy=false) : pc.owed=none := by
  cases pc with
  | credit requester job => cases h
  | _ => rfl

/-- Only the sending of a result makes a credit owed, and only the credit books work. -/
theorem threadMove_idle {loopback : Bool} {pc : ServePc} {t' : Thread}
    (h : ThreadMove P peer a L (.serve loopback pc) L' t' event) (hc : pc.owed=none)
    (hr : ∀requester job result,pc≠.resultSend requester job result) :
    ∃pc',t'=.serve loopback pc' ∧ pc'.owed=none ∧ L'.worked=L.worked := by
  cases h with
  | call _ _ d d' _ _ ht ht' hm hs =>
    rcases hs with ⟨args,hs,-⟩ | ⟨l,args,hs,rfl⟩
    · cases hs
    · cases hs
      exact ⟨_,rfl,rfl,delegateMove_worked hm⟩
  | serve _ _ pc' _ _ hm =>
    refine ⟨pc',rfl,?_⟩
    cases hm with
    | wait _ _ hs hb => exact ⟨owed_of_idle hb,rfl⟩
    | say _ _ _ _ _ hs hn ht hr hp hb => exact ⟨owed_of_idle hb,rfl⟩
    | failed _ _ _ _ hx hs hb => exact ⟨owed_of_idle hb,rfl⟩
    | reply _ _ _ hs hb => exact ⟨owed_of_idle hb,rfl⟩
    | deliver requester job result => exact absurd rfl (hr requester job result)
    | credit | credited => cases hc
    | _ => exact ⟨rfl,rfl⟩

/-- What a turn of a connection books: an answer that is no result, the sending of an
ok result, after which the credit is owed, or the credit and the return. -/
theorem serve_turn (loopback : Bool) {pc : ServePc} (hpc : pc.returned=false) :
    ∃pc',(threadStep P peer a L (.serve loopback pc)).2.1=.serve loopback pc' ∧
      (pc.owed=none ∧ okResultSent P peer a (.serve loopback pc)=pc'.owed ∧
        (threadStep P peer a L (.serve loopback pc)).1.worked=L.worked ∨
      ∃requester job,pc=.credit requester job ∧ pc'=.finished none ∧
        (threadStep P peer a L (.serve loopback pc)).1.worked=L.worked++
          if jobCount .work job.id L.records=0 then [workRecord job.id requester.val] else []) := by
  have hm := threadStep_move P peer a L (.serve loopback pc)
  cases pc with
  | finished escaped => cases hpc
  | resultSend requester job result =>
    simp only [threadStep,serveStep,serveSend,okResultSent]
    cases sealMessage P peer.identity a.ts msgTaskResult (resultBody job result) with
    | error e => exact ⟨_,rfl,.inl ⟨rfl,(owed_of_idle (idle_of_stage (by
        rw [hangUp_stage]
        decide))).symm,trivial⟩⟩
    | ok payload =>
      refine ⟨_,rfl,.inl ⟨rfl,?_,trivial⟩⟩
      dsimp only
      by_cases hs : a.sent=true
      · by_cases hr : result.status=.ok
        · simp only [hs,hr,and_self,if_true,ServePc.owed]
        · simp only [hs,hr,and_false,if_false,if_true,ServePc.owed]
      · simp only [hs,false_and,if_false,ServePc.owed,Bool.false_eq_true]
  | credit requester job =>
    refine ⟨.finished none,?_,.inr ⟨requester,job,rfl,rfl,?_⟩⟩
    · simp only [threadStep,serveStep]
      rcases L.creditForWork_cases job.id requester.val with ⟨msg,hc⟩ | ⟨hz,hc⟩ <;> rw [hc]
    · generalize (threadStep P peer a L (.serve loopback (.credit requester job))).1=L₁,
        (threadStep P peer a L (.serve loopback (.credit requester job))).2.1=t₁,
        (threadStep P peer a L (.serve loopback (.credit requester job))).2.2=e₁ at hm
      cases hm with
      | call _ _ pc pc' _ _ ht ht' hm hs => cases ht
      | serve _ _ pc' _ _ hm =>
        cases hm with
        | wait _ _ hs hb hc => exact absurd rfl hc
        | say _ _ _ _ _ hs hn ht hr hp hb hc => exact absurd rfl hc
        | credit _ _ hz =>
          rw [worked_extend,if_pos hz]
          rfl
        | credited _ _ hw => rw [if_neg (by omega),List.append_nil]
  | _ =>
    obtain ⟨pc',ht,ho,hw⟩ := threadMove_idle hm rfl (by simp)
    exact ⟨pc',ht,.inl ⟨rfl,ho.symm,hw⟩⟩

end Turns

/-- The work record that a delivery is credited with. -/
def Delivery.record (d : Delivery) : Record := workRecord d.jobId d.requester.val

/-- The work records are those of the first completed delivery of each job. -/
structure EarningsBook (s : Shared×Deliveries) (n : Nat) : Prop where
  worked : s.1.ledger.worked=(firstPerJob s.2.completed).map Delivery.record
  born : ∀d∈s.2.sent,d.thread < n

/-- A connection is credited last, for what it sent. -/
def OwedTo (s : Shared×Deliveries) (i : Nat) : Thread → Prop
  | .serve _ pc => pc.returned=false →
    s.2.sent.filter (fun d => d.thread=i)=(pc.owed.map fun d => ⟨i,d.1,d.2⟩).toList
  | _ => True

theorem jobCount_work_eq_zero (L : Ledger) (j : PyStr) :
    jobCount .work j L.records=0 ↔ ∀r∈L.worked,r.jobId≠some j := by
  rw [jobCount,List.countP_eq_zero]
  simp only [Ledger.worked,List.mem_filter]
  constructor
  · intro h r hr hj
    exact h r hr.1 (by simpa [hj] using hr.2)
  · intro h r hr hk
    have hk' : r.kind=.work ∧ r.jobId=some j := by simpa using hk
    exact h r ⟨hr,by simpa using hk'.1⟩ hk'.2

theorem EarningsBook.uncredited {s : Shared×Deliveries} {n : Nat} (h : EarningsBook s n)
    (j : PyStr) : jobCount .work j s.1.ledger.records=0 ↔ ¬∃d∈s.2.completed,d.jobId=j := by
  rw [jobCount_work_eq_zero,h.worked,List.forall_mem_map,← mem_firstPerJob_jobId]
  simp [Delivery.record,workRecord]

/-- What the shared state and the notes are after a turn. -/
def watchTurn (i : Nat) (a : Answers) (s : Shared×Deliveries) (t : Thread) :
    (Shared×Deliveries)×Thread :=
  let next := takeTurn P peer i a s.1 t
  ((next.1,s.2.note P peer i a t next.2),next.2)

section Watching

variable {P peer} {s : Shared×Deliveries} {i n : Nat} {a : Answers} {t : Thread}

theorem EarningsBook.quiet {s' : Shared} (h : EarningsBook s n)
    (hw : s'.ledger.worked=s.1.ledger.worked) : EarningsBook (s',s.2) n :=
  ⟨hw.trans h.worked,h.born⟩

/-- A connection sends what it is then owed, or it is credited for what it sent. -/
theorem watchTurn_serve {loopback : Bool} {pc : ServePc} (hi : i < n) (hS : EarningsBook s n)
    (hJ : OwedTo s i (.serve loopback pc)) (hpc : pc.returned=false) :
    EarningsBook (watchTurn P peer i a s (.serve loopback pc)).1 n ∧
      OwedTo (watchTurn P peer i a s (.serve loopback pc)).1 i
        (watchTurn P peer i a s (.serve loopback pc)).2 := by
  have hsent := hJ hpc
  obtain ⟨pc',ht,hcase⟩ := @serve_turn P peer a s.1.ledger loopback _ hpc
  simp only [watchTurn,takeTurn,ht]
  rcases hcase with ⟨ho,hr,hw⟩ | ⟨requester,job,rfl,rfl,hw⟩
  · rw [ho] at hsent
    have hown : (s.2.sent++(pc'.owed.map fun d => (⟨i,d.1,d.2⟩ : Delivery)).toList).filter
        (fun d => d.thread=i)=(pc'.owed.map fun d => ⟨i,d.1,d.2⟩).toList := by
      rw [List.filter_append,hsent]
      cases pc'.owed <;> simp
    have hcompleted : (s.2.note P peer i a (.serve loopback pc) (.serve loopback pc')).completed=
        s.2.completed := by
      simp only [Deliveries.note,hr,hown]
      split_ifs with hret
      · cases pc' with
        | finished escaped => simp [ServePc.owed]
        | _ => cases pc <;> cases hret
      · rfl
    refine ⟨⟨?_,?_⟩,?_⟩
    · rw [hcompleted]
      exact hw.trans hS.worked
    · intro d hd
      rcases List.mem_append.mp hd with hd | hd
      · exact hS.born d hd
      · rw [hr] at hd
        obtain ⟨q,-,rfl⟩ : ∃q,pc'.owed=some q ∧ (⟨i,q.1,q.2⟩ : Delivery)=d := by simpa using hd
        exact hi
    · intro _
      simpa only [Deliveries.note,hr] using hown
  · have hnote : s.2.note P peer i a (.serve loopback (.credit requester job))
        (.serve loopback (.finished none))=⟨s.2.sent,s.2.completed++[⟨i,requester,job.id⟩]⟩ := by
      simp only [Deliveries.note,okResultSent,handlerReturns,Option.map_none,Option.toList_none,
        List.append_nil,if_true,hsent,ServePc.owed,Option.map_some,Option.toList_some]
    rw [hnote]
    refine ⟨⟨?_,hS.born⟩,fun h => by cases h⟩
    rw [firstPerJob_snoc,List.map_append]
    refine hw.trans (congrArg₂ _ hS.worked ?_)
    by_cases hd : ∃d∈s.2.completed,d.jobId=job.id
    · rw [if_neg fun h => (hS.uncredited job.id).mp h hd,if_pos hd,List.map_nil]
    · rw [if_pos ((hS.uncredited job.id).mpr hd),if_neg hd]
      rfl

theorem watchTurn_own (hi : i < n) (hS : EarningsBook s n) (hJ : OwedTo s i t) :
    EarningsBook (watchTurn P peer i a s t).1 n ∧
      OwedTo (watchTurn P peer i a s t).1 i (watchTurn P peer i a s t).2 := by
  have unnoted (t' : Thread) (hs : okResultSent P peer a t=none)
      (hr : handlerReturns t t'=false) : s.2.note P peer i a t t'=s.2 := by
    simp [Deliveries.note,hs,hr]
  cases t with
  | delegate args pc =>
    have hm := delegateMove_worked (delegateStep_move P peer args a s.1.ledger pc)
    simp only [watchTurn,takeTurn,threadStep,unnoted _ rfl rfl]
    exact ⟨hS.quiet hm,trivial⟩
  | serve loopback pc =>
    cases hpc : pc.returned with
    | false => exact watchTurn_serve hi hS hJ hpc
    | true =>
      obtain ⟨escaped,rfl⟩ : ∃escaped,pc=.finished escaped := by
        cases pc with
        | finished escaped => exact ⟨escaped,rfl⟩
        | _ => cases hpc
      simp only [watchTurn,takeTurn,threadStep,serveStep,unnoted _ rfl rfl]
      exact ⟨hS.quiet rfl,fun h => by cases h⟩
  | gone =>
    simp only [watchTurn,takeTurn,threadStep,unnoted _ rfl rfl]
    exact ⟨hS.quiet rfl,trivial⟩

theorem watchTurn_others {k : Nat} {u : Thread} (hki : k≠i) (hu : OwedTo s k u) :
    OwedTo (watchTurn P peer i a s t).1 k u := by
  cases u with
  | serve loopback pc =>
    intro hpc
    rw [← hu hpc]
    change (s.2.sent++_).filter _=_
    rw [List.filter_append]
    cases okResultSent P peer a t with
    | none => simp
    | some d => simp [hki.symm]
  | _ => trivial

end Watching

variable {P peer}

/-- A step of the observed process is a move of the pool whose shared state has the notes. -/
theorem watched_move {p q : Process} {act : Action} (w : Deliveries)
    (hr : (processMachine P peer).Reachable p) (hs : (processMachine P peer).step p act=some q) :
    Pool.Step (fun i s t s' t' => ∃a,watchTurn P peer i a s t=(s',t')) Thread.Born
      (fun s s' => s'.1.ledger=s.1.ledger ∧ s'.2=s.2) (fun s s' t => s'=s ∧ t=.gone)
      ⟨(p.shared,w),p.threads⟩ ⟨(q.shared,watchDeliveries P peer p act q w),q.threads⟩ := by
  cases act with
  | call args =>
    cases hs
    exact .spawn _ _ (.inl ⟨args,rfl⟩)
  | accept loopback =>
    cases hs
    exact .spawn _ _ (.inr ⟨loopback,rfl⟩)
  | turn i a =>
    simp only [processMachine] at hs
    split at hs
    · cases hs
    · rename_i t ht
      cases hs
      have hi := (List.getElem?_eq_some_iff.mp ht).1
      simp only [watchDeliveries,ht,List.getElem?_set_self hi]
      exact .turn ⟨(p.shared,w),p.threads⟩ i t _ _ ht ⟨a,rfl⟩
  | sign pubkey msg =>
    cases hs
    exact .around ⟨(p.shared,w),p.threads⟩ (_,_) ⟨rfl,rfl⟩
  | restart =>
    cases hs
    obtain ⟨b,hb⟩ := reachable_books hr
    exact .reset ⟨(p.shared,w),p.threads⟩ (_,_) _ ⟨by simp [watchDeliveries,hb.load_eq],rfl⟩

/-- In every run the work records are those of the first completed delivery of each job. -/
theorem reachable_earnings {p : Process×Deliveries} (h : (watchedProcess P peer).Reachable p) :
    Pool.Good EarningsBook OwedTo ⟨(p.1.shared,p.2),p.1.threads⟩ := by
  refine @Machine.ReachableBy.invariant _ _ (watchedProcess P peer) _
    (fun p => Pool.Good EarningsBook OwedTo ⟨(p.1.shared,p.2),p.1.threads⟩) ?_ ?_ p
    (Machine.Reachable.guarded _ h)
  · intro p hp
    obtain ⟨p,w⟩ := p
    obtain ⟨rfl,rfl⟩ := hp
    refine Pool.good_empty ⟨?_,by simp⟩
    simp [Ledger.worked,Process.start,Ledger.fresh,Ledger.load,Disk.empty,Ledger.append,
      openingRecord,firstPerJob]
  · intro p act q hr hg hs _
    have hr : (processMachine P peer).Reachable p.1 := Machine.Reachable.unwatch _ hr
    obtain ⟨hs,hw⟩ := Machine.watched_step _ hs
    rw [hw]
    refine (watched_move p.2 hr hs).good hg ?_ ?_ ?_ ?_ ?_
    · intro n i s t s' t' hi hS hJ hm
      obtain ⟨a,he⟩ := hm
      cases he
      exact watchTurn_own hi hS hJ
    · intro n i s t s' t' k u hi hki hS hJ hu hm
      obtain ⟨a,he⟩ := hm
      cases he
      exact watchTurn_others hki hu
    · intro n s t hS ht
      refine ⟨⟨hS.worked,fun d hd => Nat.lt_succ_of_lt (hS.born d hd)⟩,?_⟩
      rcases ht with ⟨args,rfl⟩ | ⟨loopback,rfl⟩
      · trivial
      · intro hpc
        apply List.filter_eq_nil_iff.mpr
        intro d hd
        simpa using (hS.born d hd).ne
    · intro n s s' hS he
      obtain ⟨hl,he⟩ := he
      refine ⟨⟨?_,he ▸ hS.born⟩,?_⟩
      · rw [hl,he]
        exact hS.worked
      · intro i t hJ
        cases t with
        | serve loopback pc => exact fun hpc => he ▸ hJ hpc
        | _ => trivial
    · intro n s s' u hS he
      obtain ⟨rfl,rfl⟩ := he
      exact ⟨hS,fun _ => trivial⟩

/-- The record books a negative amount to the account. -/
def Record.debits (account : PyStr) (r : Record) : Bool :=
  r.entries.any fun e => e.account=account ∧ e.delta < 0

theorem Delivery.record_debits (d : Delivery) (requester : PeerId) :
    d.record.debits requester.val=decide (d.requester=requester) := by
  simp [Delivery.record,workRecord,Record.debits,transfer,jobPrice,Subtype.ext_iff]

/-- The worker is credited for the first completed delivery of each job and for nothing
else. With job ids that are all different that is one credit for each ok result. -/
theorem first_delivery_credited {p : Process×Deliveries} (h : (watchedProcess P peer).Reachable p) :
    p.1.shared.ledger.worked=(firstPerJob p.2.completed).map Delivery.record ∧
    ∀requester : PeerId,
      p.1.shared.ledger.worked.countP (Record.debits requester.val)=
        (firstPerJob p.2.completed).countP (fun d => d.requester=requester) ∧
      ((p.2.completed.map Delivery.jobId).Nodup →
        p.1.shared.ledger.worked.countP (Record.debits requester.val)=
          p.2.completed.countP fun d => d.requester=requester) := by
  have hw := (reachable_earnings h).shared.worked
  have hcount (requester : PeerId) : p.1.shared.ledger.worked.countP (Record.debits requester.val)=
      (firstPerJob p.2.completed).countP fun d => d.requester=requester := by
    rw [show p.1.shared.ledger.worked=_ from hw,List.countP_map]
    exact List.countP_congr fun d _ => by simp [Delivery.record_debits]
  refine ⟨hw,fun requester => ⟨hcount requester,fun hn => ?_⟩⟩
  rw [hcount,firstPerJob_of_nodup hn]

section Sample

/-- The offer and its handshake are signed and both are read on two connections. -/
def offeredTwiceActions : List Action :=
  [requesterHandshake,requesterOffer].map (fun m => .sign m.pubkey m.payload.dumpsCanonical)++
    replay false sampleAnswers sampleAnswers requesterHandshake requesterOffer

def offeredTwiceWatched : Process×Deliveries :=
  ((watchedProcess samplePlatform sampleWorker).run (Process.start,⟨[],[]⟩)
    offeredTwiceActions).getD (Process.start,⟨[],[]⟩)

theorem offeredTwiceWatched_reachable :
    (watchedProcess samplePlatform sampleWorker).Reachable offeredTwiceWatched :=
  ⟨(Process.start,⟨[],[]⟩),offeredTwiceActions,⟨rfl,rfl⟩,Machine.run_getD _ (by decide)⟩

/-- The requester got two ok results under one job id, and the worker one credit. -/
theorem second_result_uncredited :
    ¬∀p,(watchedProcess samplePlatform sampleWorker).Reachable p → ∀requester : PeerId,
      p.1.shared.ledger.worked.countP (Record.debits requester.val)=
        p.2.completed.countP fun d => d.requester=requester := by
  intro h
  have hcount := h _ offeredTwiceWatched_reachable (requesterIdentity.peerId samplePlatform)
  revert hcount
  decide +kernel

theorem first_delivery_credited_sample :
    offeredTwiceWatched.1.shared.ledger.worked.length=1 ∧
    offeredTwiceWatched.1.shared.ledger.worked=
      (firstPerJob offeredTwiceWatched.2.completed).map Delivery.record :=
  ⟨by decide +kernel,(first_delivery_credited offeredTwiceWatched_reachable).1⟩

end Sample

end AgentTorrent
