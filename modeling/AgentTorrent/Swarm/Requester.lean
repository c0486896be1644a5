import AgentTorrent.Swarm.Deal

open Framework

namespace AgentTorrent

variable {P : Platform} {ι : Type} {M : Members P ι} {peer : Peer} {a : Answers}
  {L L' : Ledger} {pc pc' : DelegatePc} {event : Option Event} {j : PyStr}

theorem settle_not_escrow (j w u : PyStr) : settleRecord j w∉[escrowRecord j u] := by
  intro h
  have := congrArg Record.kind (List.mem_singleton.mp h)
  cases this

theorem settle_not_refund (j w u : PyStr) :
    settleRecord j w∉[escrowRecord j u,refundRecord j] := by
  intro h
  rcases List.mem_pair.mp h with h | h
  · cases congrArg Record.kind h
  · cases congrArg Record.kind h

theorem settleRecord_worker {j w u : PyStr}
    (h : settleRecord j w∈[escrowRecord j u,settleRecord j u]) :
    w=u := by
  rcases List.mem_pair.mp h with h | h
  · cases congrArg Record.kind h
  · have he := congrArg Record.entries h
    simpa [settleRecord,transfer] using he

theorem isOpen_of_booked {j w : PyStr} (h : L.jobRecords j=[escrowRecord j w]) : L.IsOpen j := by
  rw [Ledger.IsOpen,L.jobCount_eq,L.jobCount_eq,L.jobCount_eq,h]
  simp [escrowRecord]

/-- The requester's records of its job follow the call. -/
theorem delegateMove_booked (h : DelegateMove P peer a L pc L' pc' event) (hj : pc.On j)
    (hb : pc.Booked j (L.jobRecords j)) :
    pc'.On j ∧ pc'.Booked j (L'.jobRecords j) ∧ ∀r∈L.jobRecords j,r∈L'.jobRecords j := by
  have active {job : Job} {worker : PeerInfo} {ph : Phase} (hj : job.id=j)
      (hb : L.jobRecords j=[escrowRecord j worker.peerId.val])
      (hn : ActiveNext P a job worker ph pc') :
      pc'.On j ∧ pc'.Booked j (L.jobRecords j) ∧ ∀r∈L.jobRecords j,r∈L.jobRecords j := by
    cases hn with
    | escape e h => exact ⟨trivial,.inr ⟨_,.inl hb⟩,fun _ hr => hr⟩
    | _ => exact ⟨hj,hb,fun _ hr => hr⟩
  cases h with
  | begin => exact hj.elim
  | chosen => exact hj.elim
  | refuse pc o he ho =>
    refine ⟨trivial,.inl ?_,fun _ hr => hr⟩
    cases pc with
    | start | choose | escrow => exact hb
    | _ => cases he
  | escrow job worker hbal hr =>
    have hj : job.id=j := hj
    subst hj
    refine ⟨rfl,?_,?_⟩
    · simp [DelegatePc.Booked,hr,escrowRecord]
    · intro r hm
      rw [hr] at hm
      cases hm
  | go job worker ph pc' hn => exact active hj hb hn
  | greet job worker pc' payload hn hp => exact active hj hb hn
  | offer job worker pc' payload hn hp => exact active hj hb hn
  | settle job worker result ho =>
    have hj : job.id=j := hj
    have hb : L.jobRecords j=[escrowRecord j worker.peerId.val] := hb
    subst hj
    refine ⟨trivial,.inr ⟨worker.peerId.val,.inr (.inl ?_)⟩,?_⟩
    · simp [hb,settleRecord]
    · intro r hm
      simp [hm]
  | refund job worker o ho =>
    have hj : job.id=j := hj
    have hb : L.jobRecords j=[escrowRecord j worker.peerId.val] := hb
    subst hj
    refine ⟨trivial,.inr ⟨worker.peerId.val,.inr (.inr ?_)⟩,?_⟩
    · simp [hb,refundRecord]
    · intro r hm
      simp [hm]
  | unclosed pc job e ho hn =>
    -- A call that owns an escrow finds it open.
    have owned {own : Job} {w : PyStr} (ho : some own.id=some job.id) (hj : own.id=j)
        (hb : L.jobRecords j=[escrowRecord j w]) : L.IsOpen job.id := by
      rw [← Option.some.inj ho,hj]
      exact isOpen_of_booked hb
    have hopen : L.IsOpen job.id := by
      cases pc with
      | active | settle | refund => exact owned ho hj hb
      | _ => cases ho
    exact absurd hopen hn
  | stay o => exact ⟨trivial,hb,fun _ hr => hr⟩

/-- What the call sends is a greeting or the offer of its job. -/
theorem delegateMove_speaks (h : DelegateMove P peer a L pc L' pc' event) (hj : pc.On j)
    {payload : Json} (he : event=some (.sealed payload)) :
    FromRequester (peer.identity.peerId P) j ⟨peer.identity.peerId P,payload⟩ := by
  cases h with
  | greet job worker pc' payload hn hp =>
    cases he
    have ht : Opened.msgType ⟨peer.identity.peerId P,payload⟩=msgHandshake := sealMessage_type hp
    exact ⟨rfl,by rw [ht]; decide,fun h => absurd (ht.symm.trans h) (by decide)⟩
  | offer job worker pc' payload hn hp =>
    cases he
    cases hj
    have ht : Opened.msgType ⟨peer.identity.peerId P,payload⟩=msgTaskOffer := sealMessage_type hp
    exact ⟨rfl,by rw [ht]; decide,fun _ => offeredId_offer hp⟩
  | _ => cases he

theorem delegateMove_active {ph : Phase} {job : Job} {worker : PeerInfo}
    (h : DelegateMove P peer a L (.active ph job worker) L' pc' event) :
    L'=L ∧ ActiveNext P a job worker ph pc' ∨ ¬L.IsOpen job.id := by
  cases h with
  | refuse _ o he ho => cases he
  | go job worker ph pc' hn => exact .inl ⟨rfl,hn⟩
  | greet job worker pc' payload hn hp => exact .inl ⟨rfl,hn⟩
  | offer job worker pc' payload hn hp => exact .inl ⟨rfl,hn⟩
  | unclosed _ own e ho hn => exact .inr (Option.some.inj ho ▸ hn)

variable {c : Choice ι} {ch ch' : Channel Opened} {B : ι} {rs : List Record}

section Active

variable {ph : Phase} {job : Job} {worker : PeerInfo} {w : PyStr}

/-- Before the call settles it has taken no ok TASK_RESULT of its job. -/
theorem Hearing.untaken (hJ : Hearing M B job.id [escrowRecord job.id w] (.active ph job worker) ch)
    {o : Opened} (ho : o∈ch.heard) : ¬OkResult job.id o := by
  intro hk
  rcases hJ.taken o ho hk with ⟨_,_,_,h⟩ | ⟨u,h⟩
  · cases h
  · exact settle_not_escrow job.id u w h

/-- Only the wait for the result takes a third message, and that settles. -/
theorem Hearing.result (hJ : Hearing M B job.id [escrowRecord job.id w] (.active ph job worker) ch)
    (hs : ∀n o,ch.written[n]?=some o → FromWorker (M.id B) job.id n o)
    (hl : listen ((DelegatePc.active ph job worker).listens P) c ch=some (a,ch'))
    {o : Opened} (ho : o∈ch'.heard) (hk : OkResult job.id o) :
    ∃result,(activeStep P peer a job worker ph).1=.settle job worker result := by
  rcases listen_heard hl ho with ho | ⟨hr,ha,hget⟩
  · exact absurd hk (hJ.untaken ho)
  · have htaken : ch.taken=ph.heard := hJ.heard ph job worker rfl
    have hm := hs _ o hget
    obtain ⟨h2,own,r,-,hb⟩ := hm.result hk.1
    have hph : ph=.resultRecv := by
      rw [htaken] at h2
      cases ph <;> first | rfl | cases h2
    subst hph
    have hmet := hJ.met _ _ _ rfl (by decide)
    obtain ⟨result,he⟩ := @resultRecv_settles P peer a job own worker o r _ hr ha hm.sender hmet
      hb hk
    exact ⟨result,by rw [he]⟩

/-- The step to the next phase takes what its phase waits for. -/
theorem Hearing.forward {ph' : Phase}
    (hJ : Hearing M B job.id [escrowRecord job.id w] (.active ph job worker) ch)
    (hl : listen ((DelegatePc.active ph job worker).listens P) c ch=some (a,ch'))
    (h : ph'.rank=ph.rank+1)
    (hm : ph.listens=true → ∃o,a.received=.ok o ∧ o.sender=worker.peerId) :
    ch'.taken=ph'.heard ∧ (ph.listens=true → ∃o,o.sender=worker.peerId ∧
      ch.written[ch.taken]?=some o) := by
  have htaken : ch.taken=ph.heard := hJ.heard ph job worker rfl
  have hlis : (DelegatePc.active ph job worker).listens P=ph.listens := by
    cases ph with
    | resultRecv => cases ph' <;> cases h
    | _ => rfl
  rw [hlis] at hl
  cases hp : ph.listens with
  | true =>
    obtain ⟨o,ha,ho⟩ := hm hp
    obtain ⟨hget,-,hnext,-⟩ := Channel.take_some (listen_taken hl hp ha)
    refine ⟨?_,fun _ => ⟨o,ho,hget⟩⟩
    rw [hnext,htaken]
    cases ph <;> cases ph' <;> cases h <;> first | rfl | cases hp
  | false =>
    rw [hp] at hl
    refine ⟨?_,by simp⟩
    rw [listen_deaf hl,htaken]
    cases ph <;> cases ph' <;> cases h <;> first | rfl | cases hp

/-- Between escrow and close the call takes one message a phase, and it settles
exactly where it takes an ok TASK_RESULT. -/
theorem Hearing.active
    (hJ : Hearing M B job.id [escrowRecord job.id w] (.active ph job worker) ch)
    (hs : ∀n o,ch.written[n]?=some o → FromWorker (M.id B) job.id n o)
    (hl : listen ((DelegatePc.active ph job worker).listens P) c ch=some (a,ch'))
    (hn : ActiveNext P a job worker ph pc')
    (hx : pc'=(activeStep P peer a job worker ph).1) :
    Hearing M B job.id [escrowRecord job.id w] pc' ch' := by
  have none_settled (u : PyStr) := settle_not_escrow job.id u w
  have after : ∀o∈ch'.heard,OkResult job.id o → ∃result,pc'=.settle job worker result :=
    fun o ho hk => hx ▸ hJ.result hs hl ho hk
  have closed (hp : ∀ph job worker,pc'≠.active ph job worker)
      (hq : ∀job worker result,pc'≠.settle job worker result) :
      Hearing M B job.id [escrowRecord job.id w] pc' ch' := by
    refine ⟨fun ph job worker he => absurd he (hp ph job worker),
      fun ph job worker he => absurd he (hp ph job worker),
      fun job worker result he => absurd he (hq job worker result),
      fun u hu => absurd hu (none_settled u),fun o ho hk => ?_⟩
    obtain ⟨result,he⟩ := after o ho hk
    exact absurd he (hq _ _ _)
  cases hn with
  | refund o h => exact closed (by simp) (by simp)
  | escape e h => exact closed (by simp) (by simp)
  | settle o result hp hf ha hr =>
    subst hp
    have hm := hJ.met _ _ _ rfl (by decide)
    have ht := listen_taken hl hf ha
    refine ⟨by simp,by simp,fun job' worker' result' he => ?_,
      fun u hu => absurd hu (none_settled u),fun _ _ _ => .inl ⟨_,_,_,rfl⟩⟩
    cases he
    refine ⟨hm,o,?_,okResult_of_resultFor hr⟩
    rw [(Channel.take_some ht).2.2.2]
    exact List.mem_append_right _ (by simp)
  | forward ph' h hm =>
    obtain ⟨hnext,hgot⟩ := hJ.forward hl h hm
    refine ⟨fun ph' job' worker' he => ?_,fun ph' job' worker' he hr => ?_,by simp,
      fun u hu => absurd hu (none_settled u),fun o ho hk => ?_⟩
    · cases he
      exact hnext
    · cases he
      rcases Nat.lt_or_ge ph.rank 3 with h3 | h3
      · have hph : ph=.handshakeRecv := by
          cases ph with
          | handshakeRecv => rfl
          | connect | handshakeSend => exact absurd hr (by rw [h]; decide)
          | _ => exact absurd h3 (by decide)
        subst hph
        obtain ⟨o,ho,hget⟩ := hgot rfl
        rw [← ho]
        exact (hs _ o hget).sender
      · exact hJ.met ph job worker rfl h3
    · obtain ⟨result,he⟩ := after o ho hk
      cases he

end Active

/-- A call that takes nothing and settles nothing keeps what it has taken. -/
theorem Hearing.finish {rs rs' : List Record} (hJ : Hearing M B j rs pc ch)
    (hn : ∀job worker result,pc≠.settle job worker result)
    (hr : ∀w,settleRecord j w∈rs ↔ settleRecord j w∈rs') (o : Except PyExc DelegateResult) :
    Hearing M B j rs' (.finished o) ch := by
  refine ⟨by simp,by simp,by simp,fun w hw => hJ.settled w ((hr w).mpr hw),?_⟩
  intro o ho hk
  rcases hJ.taken o ho hk with ⟨job,worker,result,he⟩ | ⟨w,hw⟩
  · exact absurd he (hn job worker result)
  · exact .inr ⟨w,(hr w).mp hw⟩

/-- The state of the connection on the requester's side follows the call. -/
theorem Hearing.move {args : DelegateArgs}
    (hJ : Hearing M B j (L.jobRecords j) pc ch)
    (hs : ∀n o,ch.written[n]?=some o → FromWorker (M.id B) j n o) (hon : pc.On j)
    (hb : pc.Booked j (L.jobRecords j)) (hc : pc.early=false)
    (hl : listen (pc.listens P) c ch=some (a,ch'))
    (hm : DelegateMove P peer a L pc L' pc' event)
    (hx : pc'=(delegateStep P peer args a L pc).2.1) :
    Hearing M B j (L'.jobRecords j) pc' ch' := by
  cases pc with
  | start | choose | escrow => cases hc
  | active ph job worker =>
    have hon : job.id=j := hon
    subst hon
    have hb : L.jobRecords job.id=[escrowRecord job.id worker.peerId.val] := hb
    rcases delegateMove_active hm with ⟨rfl,hn⟩ | hn
    · rw [hb] at hJ ⊢
      exact hJ.active hs hl hn hx
    · exact absurd (isOpen_of_booked hb) hn
  | settle job worker result =>
    have hon : job.id=j := hon
    subst hon
    have hb : L.jobRecords job.id=[escrowRecord job.id worker.peerId.val] := hb
    have he := listen_deaf hl
    subst he
    cases hm with
    | refuse _ o he ho => cases he
    | settle job worker result ho =>
      obtain ⟨hw,hk⟩ := hJ.settling job worker result rfl
      refine ⟨by simp,by simp,by simp,fun w h => ?_,fun o ho hk => .inr ⟨worker.peerId.val,?_⟩⟩
      · have hb' : (L.extend (settleRecord job.id worker.peerId.val)).jobRecords job.id=
            [escrowRecord job.id worker.peerId.val,settleRecord job.id worker.peerId.val] := by
          simp [hb,settleRecord]
        rw [hb'] at h
        exact ⟨(settleRecord_worker h).trans (congrArg Subtype.val hw),hk⟩
      · simp [settleRecord]
    | unclosed _ own e ho hn =>
      exact absurd (isOpen_of_booked hb) (Option.some.inj ho ▸ hn)
  | refund job worker o =>
    have hon : job.id=j := hon
    subst hon
    have hb : L.jobRecords job.id=[escrowRecord job.id worker.peerId.val] := hb
    have he := listen_deaf hl
    subst he
    cases hm with
    | refuse _ o he ho => cases he
    | refund job worker o ho =>
      refine hJ.finish (by simp) ?_ _
      intro w
      have hb' : (L.extend (refundRecord job.id)).jobRecords job.id=
          [escrowRecord job.id worker.peerId.val,refundRecord job.id] := by
        simp [hb,refundRecord]
      rw [hb,hb']
      exact iff_of_false (settle_not_escrow _ _ _) (settle_not_refund _ _ _)
    | unclosed _ own e ho hn =>
      exact absurd (isOpen_of_booked hb) (Option.some.inj ho ▸ hn)
  | finished o =>
    have he := listen_deaf hl
    subst he
    cases hm with
    | refuse _ o he ho => cases he
    | unclosed _ own e ho hn => cases ho
    | stay o => exact hJ

theorem delegateMove_unconnected (h : DelegateMove P peer a L pc L' pc' event)
    (hc : pc'.unconnected=true) : pc.early=true := by
  have active {ph : Phase} {job : Job} {worker : PeerInfo}
      (hn : ActiveNext P a job worker ph pc') : (DelegatePc.active ph job worker).early=true := by
    cases hn with
    | forward ph' hr hm =>
      cases ph' with
      | connect => exact absurd hr.symm (Nat.succ_ne_zero _)
      | _ => cases hc
    | _ => cases hc
  cases h with
  | begin | chosen | escrow => rfl
  | go job worker ph pc' hn => exact active hn
  | greet job worker pc' payload hn hp => exact active hn
  | offer job worker pc' payload hn hp => exact active hn
  | _ => cases hc

/-- A call that does not listen comes to no settlement. -/
theorem delegateMove_unsettled (h : DelegateMove P peer a L pc L' pc' event)
    (hl : pc.listens P=false) (hn : ∀job worker result,pc≠.settle job worker result) :
    (∀job worker result,pc'≠.settle job worker result) ∧
      ∀w,settleRecord j w∈L'.jobRecords j → settleRecord j w∈L.jobRecords j := by
  have other {r : Record} (hr : r.kind≠.settle) (w : PyStr)
      (hm : settleRecord j w∈(L.extend r).jobRecords j) : settleRecord j w∈L.jobRecords j := by
    rw [Ledger.extend_jobRecords] at hm
    rcases List.mem_append.mp hm with hm | hm
    · exact hm
    · split_ifs at hm
      · rw [← List.mem_singleton.mp hm] at hr
        exact absurd rfl hr
      · cases hm
  have active {ph : Phase} {job : Job} {worker : PeerInfo}
      (hl : (DelegatePc.active ph job worker).listens P=false)
      (hn : ActiveNext P a job worker ph pc') :
      (∀job worker result,pc'≠.settle job worker result) ∧
        ∀w,settleRecord j w∈L.jobRecords j → settleRecord j w∈L.jobRecords j := by
    cases hn with
    | settle o result hp hf ha hr =>
      subst hp
      cases hf.symm.trans hl
    | _ => exact ⟨by simp,fun _ hm => hm⟩
  cases h with
  | go job worker ph pc' h => exact active hl h
  | greet job worker pc' payload h hp => exact active hl h
  | offer job worker pc' payload h hp => exact active hl h
  | settle job worker result ho => exact absurd rfl (hn job worker result)
  | escrow | refund =>
    exact ⟨by simp,other (by simp [escrowRecord,refundRecord])⟩
  | _ => exact ⟨by simp,fun _ hm => hm⟩

theorem dial_some {l : Link ι} (h : dial c pc=some l) :
    (∃job worker,pc=.active .connect job worker) ∧
      l=⟨c.acceptor,c.loopback,.start,.empty,.empty⟩ := by
  unfold dial at h
  split at h
  · split_ifs at h
    exact ⟨⟨_,_,rfl⟩,(Option.some.inj h).symm⟩
  · cases h

theorem dial_early (h : pc.early=true) : dial c pc=none := by
  cases pc with
  | start | choose | escrow => rfl
  | _ => cases h

/-- A new connection carries nothing yet. -/
theorem Linked.dialled {leaky : Prop} {A : ι} {v : ι → List Record} {l : Link ι} {job : Job}
    {worker : PeerInfo} (hl : dial c (.active .connect job worker)=some l)
    (he : v A=[escrowRecord j worker.peerId.val]) (hv : ∀b,b≠A → v b=[]) :
    Linked M leaky A j v (.active .connect job worker) l := by
  obtain ⟨-,rfl⟩ := dial_some hl
  refine ⟨⟨worker.peerId.val,by simp [he]⟩,by simp,⟨trivial,by simp,fun _ => rfl⟩,?_,?_⟩
  · refine ⟨?_,?_,by simp,?_,by simp⟩
    · intro ph job worker h
      cases h
      rfl
    · intro ph job worker h hr
      cases h
      cases hr
    · intro w hw
      exact absurd (he ▸ hw) (settle_not_escrow _ _ _)
  · exact ⟨fun b hb hn => absurd (hv b hb) hn,fun h => (by cases h),by simp⟩

/-- What a step of the call makes of its connection. -/
theorem Linked.requester {leaky : Prop} {v v' : ι → List Record} {args : DelegateArgs} {A : ι}
    {l : Link ι} (hL : Linked M leaky A j v pc l) (hv : v A=L.jobRecords j)
    (hA : v' A=L'.jobRecords j) (ho : ∀b,b≠A → v' b=v b) (hon : pc.On j)
    (hb : pc.Booked j (L.jobRecords j)) (hc : pc.early=false)
    (hl : listen (pc.listens P) c l.toRequester=some (a,ch))
    (hm : DelegateMove P (M.peer A) a L pc L' pc' event)
    (hx : pc'=(delegateStep P (M.peer A) args a L pc).2.1) :
    Linked M leaky A j v' pc' {l with
      toRequester := ch
      toAcceptor := speak (M.id A) c event l.toAcceptor} := by
  obtain ⟨⟨w,hw⟩,hr,hs,hh,hp⟩ := hL
  have hsub := (delegateMove_booked hm hon hb).2.2
  have hwr := listen_written hl
  rw [hv] at hw hh
  refine ⟨⟨w,hA ▸ hsub _ hw⟩,?_,⟨hs.works,?_,?_⟩,?_,?_⟩
  · intro o hmem
    rcases speak_cases (M.id A) c event l.toAcceptor with he | ⟨payload,he,-,hput⟩
    · exact hr o (he ▸ hmem)
    · dsimp only at hmem
      rw [hput] at hmem
      rcases List.mem_append.mp hmem with hmem | hmem
      · exact hr o hmem
      · rw [List.mem_singleton.mp hmem]
        exact delegateMove_speaks hm hon he
  · exact fun n o h => hs.replies n o (hwr ▸ h)
  · exact fun h => (congrArg List.length hwr).trans (hs.said h)
  · rw [hA]
    exact hh.move hs.replies hon hb hc hl hm hx
  · refine ⟨?_,?_,?_⟩
    · intro b hbA hn
      dsimp only
      rw [ho b hbA] at hn ⊢
      rw [hwr]
      exact hp.elsewhere b hbA hn
    · dsimp only
      rw [hwr]
      exact hp.crediting
    · intro hk o hmem hok
      rcases hp.paid hk o (hwr ▸ hmem) hok with h | ⟨h,hBA,hrec⟩
      · exact .inl h
      · exact .inr ⟨h,hBA,by dsimp only; rwa [ho _ hBA]⟩

theorem unconnected_of_early {pc : DelegatePc} (h : pc.early=true) : pc.unconnected=true := by
  cases pc with
  | start | choose | escrow => rfl
  | _ => cases h

/-- A step of the call keeps what holds of it, of its connection and of the books. -/
theorem Deal.requester {leaky : Prop} {v v' : ι → List Record} {t : Session ι}
    {link : Option (Link ι)} (hD : Deal M leaky j v t) (hv : v t.requester=L.jobRecords j)
    (hA : v' t.requester=L'.jobRecords j) (ho : ∀b,b≠t.requester → v' b=v b)
    (hh : t.hear P c=some (a,link))
    (hm : DelegateMove P (M.peer t.requester) a L t.pc L' pc' event)
    (hx : pc'=(delegateStep P (M.peer t.requester) t.args a L t.pc).2.1) (jobId : Option PyStr) :
    Deal M leaky j v' {t with
      pc := pc'
      jobId := jobId
      link := link.map fun l =>
        {l with toAcceptor := speak (M.id t.requester) c event l.toAcceptor}} := by
  obtain ⟨hon,hb,hu,hn,hl⟩ := hD
  rw [hv] at hb
  obtain ⟨hon',hb',-⟩ := delegateMove_booked hm hon hb
  have hearly (l : Link ι) (h : t.link=some l) : t.pc.early=false := by
    rw [Bool.eq_false_iff]
    intro he
    rw [hu (unconnected_of_early he)] at h
    cases h
  unfold Session.hear at hh
  split at hh
  · rename_i hlink
    split_ifs at hh with hlis
    cases hh
    have hlis : t.pc.listens P=false := by simpa using hlis
    obtain ⟨hv0,hs0,hp0⟩ := hn hlink
    obtain ⟨hp1,hs1⟩ := delegateMove_unsettled hm hlis hp0
    refine ⟨hon',by dsimp only; rwa [hA],fun hc => ?_,fun _ => ⟨fun b hb => ?_,fun w hw => ?_,hp1⟩,
      fun l' hl' => ?_⟩
    · dsimp only
      rw [dial_early (delegateMove_unconnected hm hc)]
      rfl
    · rw [ho b hb]
      exact hv0 b hb
    · rw [hA] at hw
      exact hs0 w (hv ▸ hs1 w hw)
    · obtain ⟨l,hd,rfl⟩ := Option.map_eq_some_iff.mp hl'
      obtain ⟨⟨job,worker,hpc⟩,he⟩ := dial_some hd
      dsimp only
      rw [hpc] at hd hb hon hm hx
      have hL : Linked M leaky t.requester j v (.active .connect job worker) l :=
        Linked.dialled hd (hv.trans hb) hv0
      have hch : listen ((DelegatePc.active .connect job worker).listens P) c l.toRequester=
          some (c.answers,l.toRequester) := rfl
      exact hL.requester hv hA ho hon hb rfl hch hm hx
  · rename_i l hlink
    obtain ⟨⟨a',ch⟩,hch,he⟩ := Option.map_eq_some_iff.mp hh
    cases he
    have hL := (hl l hlink).requester hv hA ho hon hb (hearly l hlink) hch hm hx
    refine ⟨hon',by dsimp only; rwa [hA],?_,?_,?_⟩
    · intro hc
      have := hearly l hlink
      rw [delegateMove_unconnected hm hc] at this
      cases this
    · intro h
      cases h
    · intro l' hl'
      cases hl'
      exact hL

end AgentTorrent
