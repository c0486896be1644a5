import AgentTorrent.Swarm.Handler
import AgentTorrent.Swarm.Requester

open Framework

namespace AgentTorrent

variable {P : Platform} {ι : Type} (M : Members P ι)

/-- The records of a job at each peer. -/
def Exchange.view (s : Exchange ι) (j : PyStr) (b : ι) : List Record := (s.ledgers b).jobRecords j

/-- The books are sound, and all that is in them was drawn. -/
structure Books (s : Exchange ι) (n : Nat) : Prop where
  sound : ∀b,∃w,Represents (s.ledgers b) w
  named : ∀b,∀r∈(s.ledgers b).records,r.kind=.opening ∧ r.jobId=none ∨
    ∃j k,r.jobId=some j ∧ s.drawnBy j=some k
  drawn : ∀j k,s.drawnBy j=some k → k < n

structure SessionInv (leaky : Prop) (s : Exchange ι) (i : Nat) (t : Session ι) : Prop where
  own : ∀j,s.drawnBy j=some i ↔ t.jobId=some j
  idle : t.jobId=none → t.link=none ∧ (t.pc=.start ∨ t.pc=.choose ∨ ∃o,t.pc=.finished o)
  deal : ∀j,t.jobId=some j → Deal M leaky j (s.view j) t

/-- What call i leaves alone: the draws and the records of all others. -/
structure Kept (i : Nat) (s s' : Exchange ι) : Prop where
  drawn : ∀j k,k≠i → (s'.drawnBy j=some k ↔ s.drawnBy j=some k)
  view : ∀j k,k≠i → s.drawnBy j=some k → s'.view j=s.view j

section Steps

variable {M} {leaky : Prop} {s s' : Exchange ι} {i n : Nat} {t t' : Session ι} {c : Choice ι}

theorem Kept.refl (i : Nat) (s : Exchange ι) : Kept i s s :=
  ⟨fun _ _ _ => Iff.rfl,fun _ _ _ _ => rfl⟩

/-- A draw of an id that nobody drew before. -/
theorem Books.draw (hS : Books s n) (hi : i < n) {j : PyStr} (hj : s.drawnBy j=none) :
    Books (s.draw i (some j)) n ∧ Kept i s (s.draw i (some j)) ∧ ∀b,s.view j b=[] := by
  have later {j' : PyStr} {k : Nat} (h : s.drawnBy j'=some k) :
      (s.draw i (some j)).drawnBy j'=some k := by
    have hne : j'≠j := by
      intro he
      rw [he,hj] at h
      cases h
    simpa [Exchange.draw,hne] using h
  have earlier {j' : PyStr} {k : Nat} (h : (s.draw i (some j)).drawnBy j'=some k) :
      s.drawnBy j'=some k ∨ k=i := by
    by_cases he : j'=j
    · subst he
      exact .inr (by simpa [Exchange.draw] using h.symm)
    · exact .inl (by simpa [Exchange.draw,he] using h)
  refine ⟨⟨hS.sound,fun b r hr => ?_,fun j' k hk => ?_⟩,⟨fun j' k hk => ⟨fun h => ?_,later⟩,
    fun _ _ _ _ => rfl⟩,fun b => ?_⟩
  · rcases hS.named b r hr with h | ⟨j',k,h,hk⟩
    · exact .inl h
    · exact .inr ⟨j',k,h,later hk⟩
  · rcases earlier hk with h | h
    · exact hS.drawn j' k h
    · exact h ▸ hi
  · exact (earlier h).resolve_right hk
  · by_contra hne
    obtain ⟨r,hr⟩ := List.exists_mem_of_ne_nil _ hne
    have hr := List.mem_filter.mp hr
    rcases hS.named b r hr.1 with ⟨-,h⟩ | ⟨j',k,h,hk⟩
    · simp [h] at hr
    · have he : j'=j := by simpa [h] using hr.2
      rw [he,hj] at hk
      cases hk

theorem SessionInv.others {k : Nat} {u : Session ι} (hki : k≠i) (hk : Kept i s s')
    (hu : SessionInv M leaky s k u) : SessionInv M leaky s' k u where
  own j := (hk.drawn j k hki).trans (hu.own j)
  idle := hu.idle
  deal j hj := by
    rw [hk.view j k hki ((hu.own j).mpr hj)]
    exact hu.deal j hj

/-- A call books records of its own job only. -/
theorem delegateMove_ledger {peer : Peer} {a : Answers} {L L' : Ledger} {pc pc' : DelegatePc}
    {event : Option Event} {j : PyStr} (h : DelegateMove P peer a L pc L' pc' event)
    (hj : pc.On j) : L'=L ∨ ∃r,L'=L.extend r ∧ r.jobId=some j := by
  cases h with
  | escrow job worker => exact .inr ⟨_,rfl,congrArg some hj⟩
  | settle job worker result => exact .inr ⟨_,rfl,congrArg some hj⟩
  | refund job worker o => exact .inr ⟨_,rfl,congrArg some hj⟩
  | _ => exact .inl rfl

variable [DecidableEq ι]

theorem view_book (s : Exchange ι) (b x : ι) (L : Ledger) (j : PyStr) :
    (s.book b L).view j x=if x=b then L.jobRecords j else s.view j x := by
  by_cases h : x=b
  · subst h
    simp [Exchange.view,Exchange.book]
  · simp [Exchange.view,Exchange.book,h]

theorem book_self (s : Exchange ι) (b : ι) : s.book b (s.ledgers b)=s := by
  simp [Exchange.book]

/-- A ledger that changes by a record of the call's own job. -/
theorem Books.book (hS : Books s n) {b : ι} {L' : Ledger} (hw : ∃w,Represents L' w)
    (hL : L'=s.ledgers b ∨ ∃r j,L'=(s.ledgers b).extend r ∧ r.jobId=some j ∧ s.drawnBy j=some i) :
    Books (s.book b L') n ∧ Kept i s (s.book b L') := by
  rcases hL with rfl | ⟨r,j,rfl,hr,hj⟩
  · rw [book_self]
    exact ⟨hS,.refl i s⟩
  · refine ⟨⟨?_,?_,hS.drawn⟩,fun _ _ _ => Iff.rfl,?_⟩
    · intro x
      by_cases hx : x=b
      · subst hx
        simpa [Exchange.book] using hw
      · simpa [Exchange.book,hx] using hS.sound x
    · intro x q hq
      by_cases hx : x=b
      · subst hx
        have hq : q∈(s.ledgers x).records++[r] := by simpa [Exchange.book] using hq
        rcases List.mem_append.mp hq with hq | hq
        · exact hS.named x q hq
        · rw [List.mem_singleton.mp hq]
          exact .inr ⟨j,i,hr,hj⟩
      · exact hS.named x q (by simpa [Exchange.book,hx] using hq)
    · intro j' k hk hj'
      have hne : j≠j' := by
        intro he
        rw [he,hj'] at hj
        exact hk (Option.some.inj hj)
      funext x
      rw [view_book]
      split_ifs with hx
      · rw [hx,Ledger.extend_jobRecords,hr,if_neg (by simpa using hne),List.append_nil]
        rfl
      · rfl

theorem delegateMove_idle {peer : Peer} {a : Answers} {L L' : Ledger} {pc pc' : DelegatePc}
    {event : Option Event} (h : DelegateMove P peer a L pc L' pc' event)
    (hi : pc=.start ∨ pc=.choose ∨ ∃o,pc=.finished o) : L'=L ∧
    ((pc'=.start ∨ pc'=.choose ∨ ∃o,pc'=.finished o) ∨
      pc=.choose ∧ ∃job worker,pc'=.escrow job worker ∧ job.id=a.uuid) := by
  have early {Q : Prop} (h : pc.early=false) (hf : (∃o,pc=.finished o) → Q) : Q := by
    rcases hi with rfl | rfl | hi
    · cases h
    · cases h
    · exact hf hi
  cases h with
  | begin => exact ⟨rfl,.inl (.inr (.inl rfl))⟩
  | chosen job worker hid => exact ⟨rfl,.inr ⟨rfl,job,worker,rfl,hid⟩⟩
  | refuse | stay => exact ⟨rfl,.inl (.inr (.inr ⟨_,rfl⟩))⟩
  | unclosed pc job e ho hn =>
    exact early (by cases pc <;> first | rfl | cases ho) fun ⟨o,h⟩ => by
      subst h
      cases ho
  | escrow => rcases hi with h | h | ⟨o,h⟩ <;> cases h
  | _ => exact early rfl fun ⟨o,h⟩ => by cases h

theorem draws_on {pc : DelegatePc} {j : PyStr} (h : pc.On j) (pc' : DelegatePc) :
    pc.draws pc'=none := by
  cases pc with
  | start | choose => exact h.elim
  | _ => rfl

/-- A step of a call that drew its job. -/
theorem requester_busy {a : Answers} {link : Option (Link ι)} {L' : Ledger} {pc' : DelegatePc}
    {event : Option Event} {j : PyStr} (hS : Books s n) (hJ : SessionInv M leaky s i t)
    (hj : t.jobId=some j) (hh : t.hear P c=some (a,link))
    (hm : DelegateMove P (M.peer t.requester) a (s.ledgers t.requester) t.pc L' pc' event)
    (hx : pc'=(delegateStep P (M.peer t.requester) t.args a (s.ledgers t.requester) t.pc).2.1) :
    Books (s.book t.requester L') n ∧
    SessionInv M leaky (s.book t.requester L') i {t with
      pc := pc'
      link := link.map fun l =>
        {l with toAcceptor := speak (M.id t.requester) c event l.toAcceptor}} ∧
    Kept i s (s.book t.requester L') := by
  have hD := hJ.deal j hj
  have hown := (hJ.own j).mpr hj
  have hw := threadMove_books (.call (.delegate t.args t.pc) (.delegate t.args pc') _ _ _ _ rfl rfl
    hm (.inl ⟨_,rfl,rfl⟩)) (hS.sound t.requester)
  have hL : L'=s.ledgers t.requester ∨
      ∃r j,L'=(s.ledgers t.requester).extend r ∧ r.jobId=some j ∧ s.drawnBy j=some i := by
    rcases delegateMove_ledger hm hD.on with h | ⟨r,h,hr⟩
    · exact .inl h
    · exact .inr ⟨r,j,h,hr,hown⟩
  obtain ⟨hS',hk⟩ := hS.book hw hL
  refine ⟨hS',⟨hJ.own,?_,?_⟩,hk⟩
  · intro h
    cases hj.symm.trans h
  · intro j' hj'
    cases hj.symm.trans hj'
    exact hD.requester rfl (by rw [view_book,if_pos rfl]) (fun b hb => by rw [view_book,if_neg hb])
      hh hm hx t.jobId

/-- A step of a call that has not drawn yet. -/
theorem requester_idle {a : Answers} {link : Option (Link ι)} {L' : Ledger} {pc' : DelegatePc}
    {event : Option Event} (hi : i < n) (hS : Books s n) (hJ : SessionInv M leaky s i t)
    (hf : t.pc=.choose → s.drawnBy c.answers.uuid=none) (hj : t.jobId=none)
    (hh : t.hear P c=some (a,link))
    (hm : DelegateMove P (M.peer t.requester) a (s.ledgers t.requester) t.pc L' pc' event) :
    Books ((s.book t.requester L').draw i (t.pc.draws pc')) n ∧
    SessionInv M leaky ((s.book t.requester L').draw i (t.pc.draws pc')) i {t with
      pc := pc'
      jobId := t.pc.draws pc'
      link := link.map fun l =>
        {l with toAcceptor := speak (M.id t.requester) c event l.toAcceptor}} ∧
    Kept i s ((s.book t.requester L').draw i (t.pc.draws pc')) := by
  obtain ⟨hl,hpc⟩ := hJ.idle hj
  obtain ⟨rfl,hn⟩ := delegateMove_idle hm hpc
  rw [book_self]
  have hlink : a=c.answers ∧ link=none := by
    unfold Session.hear at hh
    rw [hl] at hh
    split_ifs at hh
    cases hh
    refine ⟨rfl,?_⟩
    rcases hpc with h | h | ⟨o,h⟩
    all_goals
      rw [h]
      rfl
  obtain ⟨rfl,rfl⟩ := hlink
  rcases hn with hn | ⟨hpc,job,worker,rfl,hid⟩
  · have hd : t.pc.draws pc'=none := by
      rcases hn with rfl | rfl | ⟨o,rfl⟩
      all_goals cases t.pc <;> rfl
    rw [hd]
    have hown (j : PyStr) : s.drawnBy j=some i ↔ none=some j := by
      rw [← hj]
      exact hJ.own j
    exact ⟨hS,⟨hown,fun _ => ⟨rfl,hn⟩,fun j h => by cases h⟩,.refl i s⟩
  · have hd : t.pc.draws (.escrow job worker)=some job.id := by rw [hpc]; rfl
    rw [hd]
    obtain ⟨hS',hk,hv⟩ := hS.draw hi (hid ▸ hf hpc)
    refine ⟨hS',⟨?_,fun h => (by cases h),?_⟩,hk⟩
    · intro j
      have := hJ.own j
      rw [hj] at this
      by_cases he : j=job.id
      · simp [Exchange.draw,he]
      · have hne : job.id≠j := fun h => he h.symm
        simpa [Exchange.draw,he,hne] using this
    · intro j h
      cases h
      refine ⟨rfl,hv _,fun _ => rfl,fun _ => ⟨fun b _ => hv b,fun w hw => ?_,by simp⟩,
        fun l h => by cases h⟩
      rw [show (s.draw i (some job.id)).view job.id t.requester=[] from hv _] at hw
      cases hw

/-- A step of the requester. -/
theorem requester_turn (hi : i < n) (hS : Books s n) (hJ : SessionInv M leaky s i t)
    (hf : t.pc=.choose → s.drawnBy c.answers.uuid=none)
    (h : requesterStep M i c s t=some (s',t')) :
    Books s' n ∧ SessionInv M leaky s' i t' ∧ Kept i s s' := by
  obtain ⟨⟨a,link⟩,hh,he⟩ := Option.map_eq_some_iff.mp h
  have hm := delegateStep_move P (M.peer t.requester) t.args a (s.ledgers t.requester) t.pc
  obtain ⟨rfl,rfl⟩ := Prod.mk.inj he
  dsimp only
  cases hj : t.jobId with
  | none =>
    rw [Option.or_none]
    exact requester_idle hi hS hJ hf hj hh hm
  | some j =>
    rw [draws_on (hJ.deal j hj).on,Option.none_or,← hj]
    exact requester_busy hS hJ hj hh hm rfl

/-- A step of the handler. -/
theorem handler_turn (hS : Books s n) (hJ : SessionInv M leaky s i t) (hleak : c.leak=true → leaky)
    (h : handlerStep M c s t=some (s',t')) :
    Books s' n ∧ SessionInv M leaky s' i t' ∧ Kept i s s' := by
  obtain ⟨l,hlink,h⟩ := Option.bind_eq_some_iff.mp h
  obtain ⟨⟨a,ch⟩,hh,he⟩ := Option.map_eq_some_iff.mp h
  obtain ⟨rfl,rfl⟩ := Prod.mk.inj he
  dsimp only
  obtain ⟨j,hj⟩ : ∃j,t.jobId=some j := by
    cases hj : t.jobId with
    | none => cases hlink.symm.trans (hJ.idle hj).1
    | some j => exact ⟨j,rfl⟩
  have hD := hJ.deal j hj
  have hown := (hJ.own j).mpr hj
  have hser := (hD.linked l hlink).serving
  have hm := serveStep_move P (M.peer l.acceptor) l.loopback a (s.ledgers l.acceptor) l.handler
    fun args d hc => by
      have hw := hser.works
      rw [hc] at hw
      exact hw.elim
  have hw := threadMove_books (.serve _ _ _ _ _ hm) (hS.sound l.acceptor)
  have hL := serveMove_ledger hm
  have hL : (serveStep P (M.peer l.acceptor) l.loopback a (s.ledgers l.acceptor) l.handler).1=
      s.ledgers l.acceptor ∨ ∃r j,(serveStep P (M.peer l.acceptor) l.loopback a
        (s.ledgers l.acceptor) l.handler).1=(s.ledgers l.acceptor).extend r ∧ r.jobId=some j ∧
        s.drawnBy j=some i := by
    rcases hL with h | ⟨requester,job,hpc,h⟩
    · exact .inl h
    · have hw := hser.works
      rw [hpc] at hw
      exact .inr ⟨_,j,h,congrArg some hw.2.1,hown⟩
  obtain ⟨hS',hk⟩ := hS.book hw hL
  refine ⟨hS',⟨hJ.own,?_,?_⟩,hk⟩
  · intro h
    cases hj.symm.trans h
  · intro j' hj'
    cases hj.symm.trans hj'
    exact hD.handler hlink rfl (by rw [view_book,if_pos rfl])
      (fun b hb => by rw [view_book,if_neg hb]) hh hleak hm

end Steps

section Records

variable {M} {leaky : Prop} {p : Swarm ι}

/-- Every record of a job belongs to the one call that drew it. -/
theorem drawn_by (hp : Pool.Good Books (SessionInv M leaky) p) {b : ι} {r : Record} {j : PyStr}
    (hr : r∈(p.shared.ledgers b).records) (hj : r.jobId=some j) :
    ∃t∈p.threads,t.jobId=some j ∧ Deal M leaky j (p.shared.view j) t := by
  rcases hp.shared.named b r hr with ⟨-,h⟩ | ⟨j',k,h,hk⟩
  · cases h.symm.trans hj
  · cases h.symm.trans hj
    have ht := List.getElem?_eq_getElem (hp.shared.drawn j k hk)
    have hJ := hp.each k _ ht
    have hjob := (hJ.own j).mp hk
    exact ⟨_,List.getElem_mem _,hjob,hJ.deal j hjob⟩

/-- A job is drawn by one call. -/
theorem drawn_once (hp : Pool.Good Books (SessionInv M leaky) p) {t u : Session ι} {j : PyStr}
    (ht : t∈p.threads) (hu : u∈p.threads) (hj : t.jobId=some j) (hk : u.jobId=some j) : t=u := by
  obtain ⟨i,hi⟩ := List.mem_iff_getElem?.mp ht
  obtain ⟨k,hk'⟩ := List.mem_iff_getElem?.mp hu
  have h1 := ((hp.each i t hi).own j).mpr hj
  have h2 := ((hp.each k u hk').own j).mpr hk
  cases Option.some.inj (h1.symm.trans h2)
  exact Option.some.inj (hi.symm.trans hk')

theorem mem_view {s : Exchange ι} {b : ι} {r : Record} {j : PyStr} (hr : r∈(s.ledgers b).records)
    (hj : r.jobId=some j) : r∈s.view j b :=
  List.mem_filter.mpr ⟨hr,by simpa using hj⟩

/-- Outside the requester's own ledger a job has the worker's record and no other. -/
theorem Deal.elsewhere {j : PyStr} {v : ι → List Record} {t : Session ι} (hD : Deal M leaky j v t)
    {b : ι} (hb : b≠t.requester) (hv : v b≠[]) : ∃l,t.link=some l ∧ l.acceptor=b ∧
      l.handler.stage=10 ∧ v b=[workRecord j (M.id t.requester).val] ∧
      ∃o∈l.toRequester.written,OkResult j o := by
  cases hl : t.link with
  | none => exact absurd ((hD.unlinked hl).1 b hb) hv
  | some l =>
    obtain ⟨he,h⟩ := (hD.linked l hl).paying.elsewhere b hb hv
    exact ⟨l,rfl,he.symm,h⟩

/-- A settle record stands in the requester's ledger, and pays the worker that
delivered. -/
theorem Deal.settled {j w : PyStr} {v : ι → List Record} {t : Session ι} (hD : Deal M leaky j v t)
    {b : ι} (hs : settleRecord j w∈v b) : b=t.requester ∧ ∃l,t.link=some l ∧
      w=(M.id l.acceptor).val ∧ ∃o∈l.toRequester.heard,OkResult j o := by
  have hb : b=t.requester := by
    by_contra hb
    obtain ⟨l,-,-,-,hv,-⟩ := hD.elsewhere hb (List.ne_nil_of_mem hs)
    rw [hv] at hs
    cases congrArg Record.kind (List.mem_singleton.mp hs)
  subst hb
  cases hl : t.link with
  | none => exact absurd hs ((hD.unlinked hl).2.1 w)
  | some l => exact ⟨rfl,l,rfl,(hD.linked l hl).hearing.settled w hs⟩

end Records

variable [DecidableEq ι]

/-- A step keeps the account of every call, whatever the others do. -/
theorem swarm_step {leaky : Prop} {p q : Swarm ι} {act : SwarmAction ι}
    (hp : Pool.Good Books (SessionInv M leaky) p) (hs : (swarmMachine M).step p act=some q)
    (hg : Lawful leaky p act q) : Pool.Good Books (SessionInv M leaky) q := by
  have move : Pool.Step (fun i s t s' t' => ∃c : Choice ι,(c.leak=true → leaky) ∧
        ((t.pc=.choose → s.drawnBy c.answers.uuid=none) ∧
          requesterStep M i c s t=some (s',t') ∨ handlerStep M c s t=some (s',t')))
      (fun t => ∃b args,t=⟨b,args,.start,none,none⟩) (fun _ _ => False)
      (fun _ _ _ => False) p q := by
    cases act with
    | delegate b args =>
      cases hs
      exact .spawn p _ ⟨b,args,rfl⟩
    | requester k c =>
      obtain ⟨t,ht,hs⟩ := Option.bind_eq_some_iff.mp hs
      obtain ⟨⟨s',t'⟩,hm,rfl⟩ := Option.map_eq_some_iff.mp hs
      exact .turn p k t s' t' ht
        ⟨c,hg.2 k c (.inl rfl),.inl ⟨hg.1 k c t rfl ht,hm⟩⟩
    | handler k c =>
      obtain ⟨t,ht,hs⟩ := Option.bind_eq_some_iff.mp hs
      obtain ⟨⟨s',t'⟩,hm,rfl⟩ := Option.map_eq_some_iff.mp hs
      exact .turn p k t s' t' ht ⟨c,hg.2 k c (.inr rfl),.inr hm⟩
  have turn {n i : Nat} {s s' : Exchange ι} {t t' : Session ι} (hi : i < n) (hS : Books s n)
      (hJ : SessionInv M leaky s i t) (hm : ∃c : Choice ι,(c.leak=true → leaky) ∧
        ((t.pc=.choose → s.drawnBy c.answers.uuid=none) ∧
          requesterStep M i c s t=some (s',t') ∨ handlerStep M c s t=some (s',t'))) :
      Books s' n ∧ SessionInv M leaky s' i t' ∧ Kept i s s' := by
    obtain ⟨c,hleak,⟨hf,hm⟩ | hm⟩ := hm
    · exact requester_turn hi hS hJ hf hm
    · exact handler_turn hS hJ hleak hm
  refine move.good hp ?_ ?_ ?_ (fun _ _ _ _ h => h.elim) fun _ _ _ _ _ h => h.elim
  · intro n i s t s' t' hi hS hJ hm
    obtain ⟨hS',hJ',-⟩ := turn hi hS hJ hm
    exact ⟨hS',hJ'⟩
  · intro n i s t s' t' k u hi hki hS hJ hu hm
    exact hu.others hki (turn hi hS hJ hm).2.2
  · intro n s t hS hb
    obtain ⟨b,args,rfl⟩ := hb
    refine ⟨⟨hS.sound,hS.named,fun j k hk => (hS.drawn j k hk).trans n.lt_succ_self⟩,
      fun j => ⟨fun hj => ?_,fun h => by cases h⟩,fun _ => ⟨rfl,.inl rfl⟩,fun j h => by cases h⟩
    exact absurd (hS.drawn j n hj) (Nat.lt_irrefl n)

omit [DecidableEq ι] in
/-- Nobody has drawn a job or booked anything yet. -/
theorem start_good (leaky : Prop) :
    Pool.Good Books (SessionInv M leaky) (Swarm.start : Swarm ι) := by
  refine Pool.good_empty ⟨fun b => ⟨_,.fresh⟩,fun b r hr => .inl ?_,fun j k hk => by cases hk⟩
  rw [List.mem_singleton.mp hr]
  exact ⟨rfl,rfl⟩

/-- Every run keeps the account of every call. -/
theorem swarm_good {leaky : Prop} {p : Swarm ι}
    (h : (swarmMachine M).ReachableBy (Lawful leaky) p) :
    Pool.Good Books (SessionInv M leaky) p := by
  refine @Machine.ReachableBy.invariant _ _ (swarmMachine M) _ (Pool.Good Books _) ?_ ?_ p h
  · intro p hp
    cases hp
    exact start_good M leaky
  · intro p act q hr hp hs hg
    exact swarm_step M hp hs hg

end AgentTorrent
