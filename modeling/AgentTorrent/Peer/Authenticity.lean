import AgentTorrent.Peer.Concurrency

open Framework

namespace AgentTorrent

variable (P : Platform) (peer : Peer)

/-- The holder of the key signed the message in this step. -/
def Entry.Signs (pubkey msg : Bytes) : Entry → Prop
  | .own _ _ (.sealed payload) => pubkey=peer.identity.pubkey ∧ canonicalJson P payload=.ok msg
  | .own _ _ _ => False
  | .foreign k m => k=pubkey ∧ m=msg

/-- No forgery: what verifies on the line was signed before, under the key that the
envelope itself carries. -/
def Authentic (history : List Entry) : ReadLine → Prop
  | .line bs _ => ∀envelope payload pubkey sig claimedSender msgType msg,
      P.loads bs=.ok envelope →
      openFields envelope=.ok (payload,pubkey,sig,claimedSender,msgType) →
      canonicalJson P payload=.ok msg → P.verify pubkey msg sig=true →
      ∃e∈history,e.Signs P peer pubkey msg
  | _ => True

/-- The network is the adversary's: a thread reads any line at all that holds no
forged signature, or it fails to read. -/
def Adversary (a : Answers) (s : Shared) (_ : Thread) : Prop :=
  ∃line,a.received=readOpened P line ∧ Authentic P peer s.history line

/-- A key that hashes to the sender signed the payload. -/
def SealedBy (history : List Entry) (sender : PeerId) (payload : Json) : Prop :=
  ∃e∈history,∃pubkey msg,e.Signs P peer pubkey msg ∧ peerIdFromPubkey P pubkey=sender ∧
    canonicalJson P payload=.ok msg

/-- The requester asked for the job in a message of its own, and this peer takes it. -/
def Offered (history : List Entry) (requester : PeerId) (job : Job) : Prop :=
  ∃o,OfferFrom P peer requester job o ∧ SealedBy P peer history requester o.payload

/-- The job was executed here, with the result. -/
def Executed (history : List Entry) (job : Job) (result : JobResult) : Prop :=
  (∃host,executeJob P peer host job=.ok result) ∧
  ∃i c,Entry.own i c (.executed job (.ok result))∈history

/-- A delegate command came under the peer's own key. -/
def Commanded (history : List Entry) (args : DelegateArgs) : Prop :=
  ∃o,CommandFor P peer args o ∧ SealedBy P peer history (peer.identity.peerId P) o.payload

/-- All that stands behind a work record. -/
def Earned (history : List Entry) (r : Record) : Prop :=
  ∃requester job result,r=workRecord job.id requester.val ∧ Offered P peer history requester job ∧
    Executed P peer history job result ∧ result.status=.ok

/-- A job was executed or a call was begun. -/
def Event.takesEffect : Event → Bool
  | .executed _ _ | .delegated _ => true
  | _ => false

def Entry.takesEffect (i : Nat) : Entry → Bool
  | .own k _ event => k=i && event.takesEffect
  | .foreign _ _ => false

def effectCount (i : Nat) (history : List Entry) : Nat := history.countP (Entry.takesEffect i)

/-- What a connection relies on while it works on a job. -/
def Duty (history : List Entry) : ServePc → Prop
  | .acceptSend requester job | .execute requester job => Offered P peer history requester job
  | .resultSend requester job result =>
    Offered P peer history requester job ∧ Executed P peer history job result
  | .credit requester job => Offered P peer history requester job ∧
    ∃result,Executed P peer history job result ∧ result.status=.ok
  | _ => True

def WorkerInv (s : Shared) (i : Nat) : Thread → Prop
  | .serve loopback pc => Duty P peer s.history pc ∧ (pc.stage≤5 → effectCount i s.history=0) ∧
    (loopback=false → ∀c args,Entry.own i c (.delegated args)∉s.history)
  | .delegate _ _ => effectCount i s.history=0
  | .gone => True

/-- What is behind everything that a worker has done. -/
structure WorkerAccount (s : Shared) (n : Nat) : Prop where
  earned : ∀r∈s.ledger.records,r.kind=.work → Earned P peer s.history r
  once : ∀i,effectCount i s.history≤1
  born : ∀i c event,Entry.own i c event∈s.history → i < n
  offered : ∀i c job outcome,Entry.own i c (.executed job outcome)∈s.history →
    ∃requester,Offered P peer s.history requester job
  commanded : ∀i c args,Entry.own i c (.delegated args)∈s.history →
    Commanded P peer s.history args

section Evidence

variable {P peer}

theorem opened_sealed {history : List Entry} {received : Except PyExc Opened} {o : Opened}
    (h : ∃line,received=readOpened P line ∧ Authentic P peer history line)
    (ho : received=.ok o) : SealedBy P peer history o.sender o.payload := by
  obtain ⟨line,hr,ha⟩ := h
  obtain ⟨bs,bound,envelope,rfl,hl,he⟩ := readOpened_ok P (hr.symm.trans ho)
  obtain ⟨pubkey,sig,claimedSender,msg,hf,hk,hm,hv⟩ := openEnvelope_ok P he
  obtain ⟨e,hh,hs⟩ := ha envelope o.payload pubkey sig claimedSender _ msg hl hf hm hv
  exact ⟨e,hh,pubkey,msg,hs,hk,hm⟩

theorem received_sealed {a : Answers} {s : Shared} {t : Thread} {o : Opened}
    (h : Adversary P peer a s t) (ho : a.received=.ok o) :
    SealedBy P peer s.history o.sender o.payload := opened_sealed h ho

variable {h h' : List Entry} (hs : ∀e∈h,e∈h')

include hs

theorem SealedBy.mono {sender : PeerId} {payload : Json} (hp : SealedBy P peer h sender payload) :
    SealedBy P peer h' sender payload := by
  obtain ⟨e,he,rest⟩ := hp
  exact ⟨e,hs e he,rest⟩

theorem Offered.mono {requester : PeerId} {job : Job} (ho : Offered P peer h requester job) :
    Offered P peer h' requester job := by
  obtain ⟨o,hf,hp⟩ := ho
  exact ⟨o,hf,hp.mono hs⟩

theorem Commanded.mono {args : DelegateArgs} (hc : Commanded P peer h args) :
    Commanded P peer h' args := by
  obtain ⟨o,hf,hp⟩ := hc
  exact ⟨o,hf,hp.mono hs⟩

theorem Executed.mono {job : Job} {result : JobResult} (hx : Executed P peer h job result) :
    Executed P peer h' job result := by
  obtain ⟨hx,i,c,hm⟩ := hx
  exact ⟨hx,i,c,hs _ hm⟩

theorem Earned.mono {r : Record} (hr : Earned P peer h r) : Earned P peer h' r := by
  obtain ⟨requester,job,result,he,ho,hx,hk⟩ := hr
  exact ⟨requester,job,result,he,ho.mono hs,hx.mono hs,hk⟩

theorem Duty.mono {pc : ServePc} (hd : Duty P peer h pc) : Duty P peer h' pc := by
  cases pc with
  | acceptSend | execute => exact Offered.mono hs hd
  | resultSend => exact ⟨hd.1.mono hs,hd.2.mono hs⟩
  | credit =>
    obtain ⟨ho,result,hx,hk⟩ := hd
    exact ⟨ho.mono hs,result,hx.mono hs,hk⟩
  | _ => trivial

end Evidence

section Steps

variable {P peer} {s : Shared} {i n : Nat} {c : Bool} {L' : Ledger} {event : Option Event}

theorem mem_book_of_mem : ∀e∈s.history,e∈(s.book i c L' event).history :=
  fun _ he => mem_book.mpr (.inl he)

theorem effectCount_book (k : Nat) : effectCount k (s.book i c L' event).history=
    effectCount k s.history+if i=k ∧ event.any Event.takesEffect=true then 1 else 0 := by
  cases event with
  | none => simp [Shared.book,effectCount]
  | some ev =>
    by_cases h : i=k ∧ ev.takesEffect=true
    · simp [Shared.book,effectCount,Entry.takesEffect,h]
    · simp [Shared.book,effectCount,Entry.takesEffect,h]

theorem effectCount_plain {k : Nat} (h : k≠i ∨ event.any Event.takesEffect=false) :
    effectCount k (s.book i c L' event).history=effectCount k s.history := by
  rw [effectCount_book,if_neg,Nat.add_zero]
  intro hh
  rcases h with h | h
  · exact h hh.1.symm
  · rw [h] at hh
    cases hh.2

/-- A step keeps the account of a worker if what it shows is accounted for. -/
theorem WorkerAccount.book (hi : i < n) (hS : WorkerAccount P peer s n)
    (hL : ∀r∈L'.records,r∈s.ledger.records ∨ (r.kind=.work →
      Earned P peer (s.book i c L' event).history r))
    (hone : effectCount i s.history=0 ∨ event.any Event.takesEffect=false)
    (hoff : ∀job outcome,event=some (.executed job outcome) →
      ∃requester,Offered P peer s.history requester job)
    (hcom : ∀args,event=some (.delegated args) → Commanded P peer s.history args) :
    WorkerAccount P peer (s.book i c L' event) n := by
  constructor
  · intro r hr hk
    rcases hL r hr with h | h
    · exact (hS.earned r h hk).mono mem_book_of_mem
    · exact h hk
  · intro k
    have := hS.once k
    rw [effectCount_book]
    split_ifs with he
    · obtain ⟨rfl,he⟩ := he
      rcases hone with h | h
      · omega
      · rw [h] at he
        cases he
    · exact this
  · intro k d ev hm
    rcases mem_book.mp hm with hm | ⟨ev',-,hm⟩
    · exact hS.born k d ev hm
    · cases hm
      exact hi
  · intro k d job outcome hm
    have ho : ∃requester,Offered P peer s.history requester job := by
      rcases mem_book.mp hm with hm | ⟨ev',he,hm⟩
      · exact hS.offered k d job outcome hm
      · cases hm
        exact hoff job outcome he
    obtain ⟨requester,ho⟩ := ho
    exact ⟨requester,ho.mono mem_book_of_mem⟩
  · intro k d args hm
    rcases mem_book.mp hm with hm | ⟨ev',he,hm⟩
    · exact (hS.commanded k d args hm).mono mem_book_of_mem
    · cases hm
      exact (hcom args he).mono mem_book_of_mem

theorem WorkerAccount.book_plain (hi : i < n) (hS : WorkerAccount P peer s n)
    (hL : ∀r∈L'.records,r∈s.ledger.records ∨ (r.kind=.work →
      Earned P peer (s.book i c L' event).history r))
    (hp : event.any Event.takesEffect=false) : WorkerAccount P peer (s.book i c L' event) n := by
  refine hS.book hi hL (.inr hp) (fun job outcome he => ?_) fun args he => ?_
  all_goals
    rw [he] at hp
    cases hp

variable {a : Answers} {L : Ledger} {t t' : Thread} {pc pc' : DelegatePc}

/-- A delegate call executes nothing, begins no call and earns nothing. -/
theorem delegateMove_event (h : DelegateMove P peer a L pc L' pc' event) :
    (∀r∈L'.records,r∈L.records ∨ r.kind≠.work) ∧ event.any Event.takesEffect=false := by
  have extended (r : Record) (hr : r.kind≠.work) :
      ∀q∈(L.extend r).records,q∈L.records ∨ q.kind≠.work := by
    intro q hq
    rcases List.mem_append.mp hq with hq | hq
    · exact .inl hq
    · rw [List.mem_singleton.mp hq]
      exact .inr hr
  cases h with
  | escrow | settle | refund =>
    exact ⟨extended _ (by simp [escrowRecord,settleRecord,refundRecord]),rfl⟩
  | _ => exact ⟨fun q hq => .inl hq,rfl⟩

/-- A connection outside a call: what it shows is accounted for by its duty. -/
theorem serveMove_account {loopback : Bool} {pc pc' : ServePc} (hi : i < n)
    (hS : WorkerAccount P peer s n) (hJ : WorkerInv P peer s i (.serve loopback pc))
    (hg : ∀o,a.received=.ok o → SealedBy P peer s.history o.sender o.payload)
    (h : ServeMove P peer loopback a s.ledger pc L' pc' event) :
    WorkerAccount P peer (s.book i c L' event) n := by
  obtain ⟨hd,hz,-⟩ := hJ
  have run (requester : PeerId) (job : Job) (outcome : Except PyExc JobResult)
      (hz : effectCount i s.history=0) (ho : Offered P peer s.history requester job) :
      WorkerAccount P peer (s.book i c s.ledger (some (.executed job outcome))) n := by
    refine hS.book hi (fun r hr => .inl hr) (.inl hz) ?_ ?_
    · intro j o he
      cases he
      exact ⟨requester,ho⟩
    · intro args he
      cases he
  cases h with
  | commanded args o ha hl ho =>
    have hp := hg o ha
    rw [ho.sender] at hp
    refine hS.book hi (fun r hr => .inl hr) (.inl (hz (by simp [ServePc.stage])))
      (fun job outcome he => ?_) fun args' he => ?_
    · cases he
    · cases he
      exact ⟨o,ho,hp⟩
  | executed requester job result hr => exact run requester job _ (hz (by simp [ServePc.stage])) hd
  | failed requester job e pc' hr => exact run requester job _ (hz (by simp [ServePc.stage])) hd
  | credit requester job hz =>
    refine hS.book_plain hi ?_ rfl
    intro r hr
    rcases List.mem_append.mp hr with hr | hr
    · exact .inl hr
    · rw [List.mem_singleton.mp hr]
      obtain ⟨ho,result,hx,hk⟩ := hd
      exact .inr fun _ => ⟨requester,job,result,rfl,ho.mono mem_book_of_mem,
        hx.mono mem_book_of_mem,hk⟩
  | _ => exact hS.book_plain hi (fun r hr => .inl hr) rfl

/-- The step of a connection hands its duty on. -/
theorem serveMove_duty {loopback : Bool} {pc pc' : ServePc}
    (hJ : WorkerInv P peer s i (.serve loopback pc))
    (hg : ∀o,a.received=.ok o → SealedBy P peer s.history o.sender o.payload)
    (h : ServeMove P peer loopback a s.ledger pc L' pc' event) :
    WorkerInv P peer (s.book i c L' event) i (.serve loopback pc') := by
  obtain ⟨hd,hz,hl⟩ := hJ
  have idle {pc : ServePc} (hb : pc.busy=false) (h : List Entry) : Duty P peer h pc := by
    cases pc with
    | acceptSend | execute | resultSend | credit => cases hb
    | _ => trivial
  -- Only a step into the sixth stage has an effect.
  have count {L' : Ledger} {event : Option Event} (hs : pc.stage ≤ pc'.stage)
      (hp : event.any Event.takesEffect=false) :
      pc'.stage≤5 → effectCount i (s.book i c L' event).history=0 := by
    intro h5
    rw [effectCount_plain (.inr hp),hz (hs.trans h5)]
  have remote {L' : Ledger} {event : Option Event} (he : loopback=true ∨
        ∀args,event≠some (.delegated args)) : loopback=false →
      ∀d args,Entry.own i d (.delegated args)∉(s.book i c L' event).history := by
    intro hb d args hm
    rcases mem_book.mp hm with hm | ⟨ev,hev,hm⟩
    · exact hl hb d args hm
    · cases hm
      rcases he with he | he
      · rw [he] at hb
        cases hb
      · exact he args hev
  cases h with
  | wait pc pc' hs hb hc => exact ⟨idle hb _,count hs rfl,remote (.inr (by simp))⟩
  | say pc pc' msgType body payload hs hn ht hr hp hb hc =>
    exact ⟨idle hb _,count (pc.stage_le.trans hs.ge) rfl,remote (.inr (by simp))⟩
  | met | greet => exact ⟨trivial,count (by simp [ServePc.stage]) rfl,remote (.inr (by simp))⟩
  | offered requester job o ha ho =>
    have hp := hg o ha
    rw [ho.sender] at hp
    exact ⟨⟨o,ho,hp.mono mem_book_of_mem⟩,count (by simp [ServePc.stage]) rfl,
      remote (.inr (by simp))⟩
  | commanded args o ha hb ho =>
    exact ⟨trivial,fun h5 => absurd h5 (by simp [ServePc.stage]),remote (.inl hb)⟩
  | accept requester job payload hp hsent =>
    exact ⟨Offered.mono mem_book_of_mem hd,count (by simp [ServePc.stage]) rfl,
      remote (.inr (by simp))⟩
  | executed requester job result hr =>
    exact ⟨⟨Offered.mono mem_book_of_mem hd,⟨a.host,hr⟩,i,c,mem_book.mpr (.inr ⟨_,rfl,rfl⟩)⟩,
      fun h5 => absurd h5 (by simp [ServePc.stage]),remote (.inr (by simp))⟩
  | failed requester job e pc' hr hs hb =>
    exact ⟨idle hb _,fun h5 => absurd h5 (by rw [hs]; decide),remote (.inr (by simp))⟩
  | report =>
    exact ⟨trivial,fun h5 => absurd h5 (by simp [ServePc.stage]),remote (.inr (by simp))⟩
  | deliver requester job result payload hp hr hsent =>
    exact ⟨⟨hd.1.mono mem_book_of_mem,result,hd.2.mono mem_book_of_mem,hr⟩,
      fun h5 => absurd h5 (by simp [ServePc.stage]),remote (.inr (by simp))⟩
  | credit requester job hw =>
    exact ⟨trivial,fun h5 => absurd h5 (by simp [ServePc.stage]),remote (.inr (by simp))⟩
  | credited requester job hw =>
    exact ⟨trivial,fun h5 => absurd h5 (by simp [ServePc.stage]),remote (.inr (by simp))⟩
  | reply args outcome pc' hs hb => exact ⟨idle hb _,count hs rfl,remote (.inr (by simp))⟩

theorem worker_own (hi : i < n) (hS : WorkerAccount P peer s n) (hJ : WorkerInv P peer s i t)
    (hg : Adversary P peer a s t) (h : ThreadMove P peer a s.ledger t L' t' event) :
    WorkerAccount P peer (s.book i c L' event) n ∧
      WorkerInv P peer (s.book i c L' event) i t' := by
  cases h with
  | call _ _ pc pc' _ _ ht ht' hm hs =>
    obtain ⟨hL,hp⟩ := delegateMove_event hm
    refine ⟨hS.book_plain hi (fun r hr => (hL r hr).imp id fun hn hk => absurd hk hn) hp,?_⟩
    rcases hs with ⟨args,rfl,rfl⟩ | ⟨loopback,args,rfl,rfl⟩
    · exact (effectCount_plain (.inr hp)).trans hJ
    · refine ⟨trivial,fun h5 => absurd h5 (by simp [ServePc.stage]),?_⟩
      intro hb d args' hm'
      rcases mem_book.mp hm' with hm' | ⟨ev,hev,hm'⟩
      · exact hJ.2.2 hb d args' hm'
      · cases hm'
        rw [hev] at hp
        cases hp
  | serve loopback pc pc' _ _ hm =>
    exact ⟨serveMove_account hi hS hJ (fun o => received_sealed hg) hm,
      serveMove_duty hJ (fun o => received_sealed hg) hm⟩
  | gone => exact ⟨hS.book_plain hi (fun r hr => .inl hr) rfl,trivial⟩

theorem worker_others {k : Nat} {u : Thread} (hki : k≠i) (hu : WorkerInv P peer s k u) :
    WorkerInv P peer (s.book i c L' event) k u := by
  have zero (hz : effectCount k s.history=0) :
      effectCount k (s.book i c L' event).history=0 := (effectCount_plain (.inl hki)).trans hz
  cases u with
  | delegate args pc => exact zero hu
  | serve loopback pc =>
    obtain ⟨hd,hz,hl⟩ := hu
    refine ⟨hd.mono mem_book_of_mem,fun hp => zero (hz hp),?_⟩
    intro hb d args hm
    rcases mem_book.mp hm with hm | ⟨ev,hev,hm⟩
    · exact hl hb d args hm
    · exact hki (Entry.own.inj hm).1
  | gone => trivial

end Steps

theorem mem_hear_of_mem {s : Shared} (pubkey msg : Bytes) :
    ∀e∈s.history,e∈(s.hear pubkey msg).history := fun _ he => List.mem_append_left _ he

theorem effectCount_hear {s : Shared} (pubkey msg : Bytes) (i : Nat) :
    effectCount i (s.hear pubkey msg).history=effectCount i s.history := by
  simp [effectCount,Shared.hear,Entry.takesEffect]

theorem worker_keeps : Keeps P peer (Adversary P peer) (WorkerAccount P peer)
    (WorkerInv P peer) where
  start := by
    refine ⟨fun r hr hk => ?_,?_,?_,?_,?_⟩
    · have he : r=openingRecord := by simpa [Ledger.fresh,Ledger.load,Disk.empty,Ledger.append] using hr
      rw [he] at hk
      cases hk
    all_goals simp [effectCount]
  own hi hS hJ hg _ h := worker_own hi hS hJ hg h
  others hki _ _ hu _ := worker_others hki hu
  born {n s t} hS ht := by
    have hn (c : Bool) (event : Event) : Entry.own n c event∉s.history :=
      fun hm => absurd (hS.born _ _ _ hm) (Nat.lt_irrefl n)
    have hz : effectCount n s.history=0 := by
      rw [effectCount,List.countP_eq_zero]
      intro e he
      cases e with
      | foreign => exact Bool.false_ne_true
      | own k c ev =>
        have hk : k≠n := fun hk => hn c ev (hk ▸ he)
        simp [Entry.takesEffect,hk]
    refine ⟨{hS with born := fun i c event hm => Nat.lt_succ_of_lt (hS.born i c event hm)},?_⟩
    rcases ht with ⟨args,rfl⟩ | ⟨loopback,rfl⟩
    · exact hz
    · exact ⟨trivial,fun _ => hz,fun _ c args => hn c _⟩
  signed {n s} pubkey msg hS := by
    have mono := @mem_hear_of_mem s pubkey msg
    refine ⟨⟨fun r hr hk => (hS.earned r hr hk).mono mono,?_,?_,?_,?_⟩,?_⟩
    · exact fun i => (effectCount_hear pubkey msg i).trans_le (hS.once i)
    · exact fun i c event hm => hS.born i c event ((own_mem_hear pubkey msg).mp hm)
    · intro i c job outcome hm
      obtain ⟨requester,ho⟩ := hS.offered i c job outcome ((own_mem_hear pubkey msg).mp hm)
      exact ⟨requester,ho.mono mono⟩
    · exact fun i c args hm => (hS.commanded i c args ((own_mem_hear pubkey msg).mp hm)).mono mono
    · intro i t hJ
      cases t with
      | delegate args pc => exact (effectCount_hear pubkey msg i).trans hJ
      | serve loopback pc =>
        obtain ⟨hd,hz,hl⟩ := hJ
        exact ⟨hd.mono mono,fun hp => (effectCount_hear pubkey msg i).trans (hz hp),
          fun hb c args hm => hl hb c args ((own_mem_hear pubkey msg).mp hm)⟩
      | gone => trivial
  gone _ _ := trivial

/-- Each work record is earned: its requester, who is not this peer, signed an offer
of the job, the job passed every check and was executed with status ok. And no job
is worked for twice. -/
theorem work_authentic {p : Process}
    (h : (processMachine P peer).ReachableBy (onTurns (Adversary P peer)) p) :
    (∀r∈p.shared.ledger.records,r.kind=.work → Earned P peer p.shared.history r) ∧
    ∀j,jobCount .work j p.shared.ledger.records≤1 := by
  obtain ⟨w,hw⟩ := reachable_books (h.reachable (processMachine P peer))
  exact ⟨((worker_keeps P peer).good h).shared.earned,hw.workOnce⟩

/-- What holds of replays: each connection has at most one effect, for a request that
its requester signed, a job is worked for at most once, and a call escrows at most one
credit, under an id of its own. -/
structure OncePerConnection (p : Process) : Prop where
  effectOnce : ∀i,effectCount i p.shared.history≤1
  executedFor : ∀i c job outcome,Entry.own i c (.executed job outcome)∈p.shared.history →
    ∃requester,Offered P peer p.shared.history requester job
  delegatedFor : ∀i c args,Entry.own i c (.delegated args)∈p.shared.history →
    Commanded P peer p.shared.history args
  loopback : ∀i pc,p.threads[i]?=some (.serve false pc) → ∀c args,
    Entry.own i c (.delegated args)∉p.shared.history
  workOnce : ∀j,jobCount .work j p.shared.ledger.records≤1
  escrowSingle : ∀i j k,EscrowedBy p.shared i j → EscrowedBy p.shared i k → j=k
  escrowOnce : ∀j,jobCount .escrow j p.shared.ledger.records≤1

theorem once_per_connection {p : Process}
    (h : (processMachine P peer).ReachableBy (onTurns (Adversary P peer)) p) :
    OncePerConnection P peer p := by
  have hr := h.reachable (processMachine P peer)
  obtain ⟨w,hw⟩ := reachable_books hr
  have hp := (worker_keeps P peer).good h
  constructor
  · exact hp.shared.once
  · exact hp.shared.offered
  · exact hp.shared.commanded
  · exact fun i pc hi => (hp.each i _ hi).2.2 rfl
  · exact hw.workOnce
  · exact (reachable_account P peer hr).shared.single
  · exact hw.escrowOnce

section Sample

theorem step_history {p q : Process} {act : Action} (h : (processMachine P peer).step p act=some q) :
    ∀e∈p.shared.history,e∈q.shared.history := by
  cases act with
  | turn i a =>
    obtain ⟨t,-,hs,-⟩ := step_turn h
    rw [hs]
    exact mem_book_of_mem
  | sign pubkey msg =>
    cases h
    exact mem_hear_of_mem pubkey msg
  | _ =>
    cases h
    exact fun _ he => he

def Signed.entry (m : Signed) : Entry := .foreign m.pubkey m.payload.dumpsCanonical

variable {peer}

/-- Reading a line of a transcript forges nothing once the message is signed. -/
theorem transcript_authentic {ms : List Signed} (h : Consistent ms) {m : Signed} (hm : m∈ms)
    {history : List Entry} {e : Entry} (he : e∈history)
    (hs : e.Signs (.ofTranscript ms) peer m.pubkey m.payload.dumpsCanonical)
    (bound : m.line.length ≤ maxLineBytes) :
    Authentic (.ofTranscript ms) peer history (.line m.line bound) := by
  intro envelope payload pubkey sig claimedSender msgType msg hl hf hc hv
  cases (transcript_loads h hm (.inl rfl)).symm.trans hl
  cases (signed_fields m).symm.trans hf
  cases (transcript_canonical h hm).symm.trans hc
  exact ⟨e,he,hs⟩

theorem sample_adversary {a : Answers} {s : Shared} {t : Thread} {m : Signed}
    (hm : m∈sampleTranscript) (hs : m.entry∈s.history) (ha : a.received=.ok m.opened) :
    Adversary samplePlatform peer a s t :=
  ⟨lineOf m hm,by rw [ha,lineOf,sample_reads hm],
    transcript_authentic sampleTranscript_consistent hm hs ⟨rfl,rfl⟩ _⟩

/-- The process after the messages were signed, which anyone may do. -/
def Process.signed (p : Process) (ms : List Signed) : Process :=
  ⟨{p.shared with history := p.shared.history++ms.map Signed.entry},p.threads⟩

theorem signed_reachable {G : Answers → Shared → Thread → Prop} {p : Process}
    (h : (processMachine P peer).ReachableBy (onTurns G) p) (ms : List Signed) :
    (processMachine P peer).ReachableBy (onTurns G) (p.signed ms) := by
  induction ms using List.reverseRecOn with
  | nil => simpa [Process.signed] using h
  | append_singleton ms m ih =>
    refine @Machine.ReachableBy.step _ _ _ _ _ _ (.sign m.pubkey m.payload.dumpsCanonical) ih ?_
      fun i a t h => by cases h
    simp [processMachine,Process.signed,Shared.hear,Signed.entry]

theorem signed_mem (p : Process) {ms : List Signed} {m : Signed} (hm : m∈ms) :
    m.entry∈(p.signed ms).shared.history :=
  List.mem_append_right _ (List.mem_map.mpr ⟨m,hm,rfl⟩)

/-- A run in which every thread that reads gets a line of the transcript, or none. -/
theorem sample_meets {p : Process} {ms : List Signed}
    (hms : ∀m∈ms,m∈sampleTranscript ∧ m.entry∈p.shared.history) {acts : List Action}
    (h : ∀i a,Action.turn i a∈acts → a.received=.error (.protocolError .timedOut) ∨
      ∃m∈ms,a.received=.ok m.opened) :
    (processMachine samplePlatform peer).Meets (onTurns (Adversary samplePlatform peer)) p
      acts := by
  induction acts generalizing p with
  | nil => trivial
  | cons act acts ih =>
    intro q hq
    refine ⟨?_,ih ?_ fun i a hm => h i a (.tail _ hm)⟩
    · intro i a t hact ht
      rcases h i a (hact ▸ .head _) with ha | ⟨m,hm,ha⟩
      · exact ⟨.timedOut,ha,trivial⟩
      · exact sample_adversary (hms m hm).1 (hms m hm).2 ha
    · intro m hm
      exact ⟨(hms m hm).1,step_history _ _ hq _ (hms m hm).2⟩

/-- The same two lines are read on a connection of thread i, which then takes four
more turns. -/
def serving (i : Nat) (a : Answers) (handshake request : Signed) : List Action :=
  [.turn i a,.turn i {a with received := .ok handshake.opened},.turn i a,
    .turn i {a with received := .ok request.opened},.turn i a,.turn i a,.turn i a,.turn i a]

theorem serving_reads {i k : Nat} {a b : Answers} {handshake request : Signed}
    (ha : a.received=.error (.protocolError .timedOut))
    (h : Action.turn k b∈serving i a handshake request) :
    b.received=.error (.protocolError .timedOut) ∨
      ∃m∈[handshake,request],b.received=.ok m.opened := by
  simp only [serving,List.mem_cons,Action.turn.injEq,List.not_mem_nil,or_false] at h
  have hb : b=a ∨ b={a with received := .ok handshake.opened} ∨
      b={a with received := .ok request.opened} := by tauto
  rcases hb with rfl | rfl | rfl
  · exact .inl ha
  · exact .inr ⟨handshake,by simp,rfl⟩
  · exact .inr ⟨request,by simp,rfl⟩

/-- Two connections of a process serve the same two lines. -/
def replay (loopback : Bool) (a b : Answers) (handshake request : Signed) : List Action :=
  [.accept loopback,.accept loopback]++serving 0 a handshake request++
    serving 1 b handshake request

theorem replay_reachable {loopback : Bool} {a b : Answers} {handshake request : Signed}
    (ha : a.received=.error (.protocolError .timedOut))
    (hb : b.received=.error (.protocolError .timedOut))
    (hh : handshake∈sampleTranscript) (hr : request∈sampleTranscript) {p : Process}
    (hp : (processMachine samplePlatform peer).run (Process.start.signed [handshake,request])
      (replay loopback a b handshake request)=some p) :
    (processMachine samplePlatform peer).ReachableBy
      (onTurns (Adversary samplePlatform peer)) p := by
  refine (signed_reachable _ (.start rfl) _).run _ hp (@sample_meets _ _ [handshake,request] ?_ _ ?_)
  · intro m hm
    refine ⟨?_,signed_mem _ hm⟩
    rcases List.mem_pair.mp hm with rfl | rfl
    · exact hh
    · exact hr
  · intro i c hm
    rcases List.mem_append.mp hm with hm | hm
    · rcases List.mem_append.mp hm with hm | hm
      · simp at hm
      · exact serving_reads ha hm
    · exact serving_reads hb hm

def Entry.runs (job : Job) : Entry → Bool
  | .own _ _ (.executed j _) => j=job
  | _ => false

def Entry.isCall : Entry → Bool
  | .own _ _ (.delegated _) => true
  | _ => false

def Entry.isSigning (m : Signed) : Entry → Bool
  | .foreign pubkey msg => pubkey=m.pubkey && msg=m.payload.dumpsCanonical
  | _ => false

/-- A worker that simulates the jobs it accepts. -/
def sampleWorker : Peer where
  identity := workerIdentity
  config := ⟨300,true,true,1,[]⟩
  harnesses := []

/-- The worker after an offer came twice. -/
def offeredTwice : Process :=
  ((processMachine samplePlatform sampleWorker).run
    (Process.start.signed [requesterHandshake,requesterOffer])
    (replay false sampleAnswers sampleAnswers requesterHandshake requesterOffer)).getD
      (Process.start.signed [requesterHandshake,requesterOffer])

/-- The requester after a command came twice; each call draws an id of its own. -/
def commandedTwice : Process :=
  ((processMachine samplePlatform samplePeer).run
    (Process.start.signed [requesterHandshake,requesterControl])
    (replay true sampleAnswers {sampleAnswers with uuid := lit "0d5a"} requesterHandshake
      requesterControl)).getD (Process.start.signed [requesterHandshake,requesterControl])

theorem offeredTwice_reachable : (processMachine samplePlatform sampleWorker).ReachableBy
    (onTurns (Adversary samplePlatform sampleWorker)) offeredTwice :=
  replay_reachable rfl rfl (by simp [sampleTranscript]) (by simp [sampleTranscript])
    (Machine.run_getD _ (by decide))

theorem commandedTwice_reachable : (processMachine samplePlatform samplePeer).ReachableBy
    (onTurns (Adversary samplePlatform samplePeer)) commandedTwice :=
  replay_reachable rfl rfl (by simp [sampleTranscript]) (by simp [sampleTranscript])
    (Machine.run_getD _ (by decide))

/-- An offer that was signed once is executed twice, and a command that was signed
once makes two calls and escrows two credits. -/
theorem replay_takes_effect_twice :
    ((processMachine samplePlatform sampleWorker).ReachableBy
        (onTurns (Adversary samplePlatform sampleWorker)) offeredTwice ∧
      offeredTwice.shared.history.countP (Entry.isSigning requesterOffer)=1 ∧
      offeredTwice.shared.history.countP (Entry.runs sampleJob)=2) ∧
    (processMachine samplePlatform samplePeer).ReachableBy
      (onTurns (Adversary samplePlatform samplePeer)) commandedTwice ∧
    commandedTwice.shared.history.countP (Entry.isSigning requesterControl)=1 ∧
    commandedTwice.shared.history.countP Entry.isCall=2 ∧
    kindCount .escrow commandedTwice.shared.ledger.records=2 :=
  ⟨⟨offeredTwice_reachable,by decide +kernel,by decide +kernel⟩,commandedTwice_reachable,
    by decide +kernel,by decide +kernel,by decide +kernel⟩

/-- The worker earned one credit for the job that it executed twice. -/
theorem work_authentic_sample : kindCount .work offeredTwice.shared.ledger.records=1 ∧
    (∀r∈offeredTwice.shared.ledger.records,r.kind=.work →
      Earned samplePlatform sampleWorker offeredTwice.shared.history r) ∧
    ∀j,jobCount .work j offeredTwice.shared.ledger.records≤1 :=
  ⟨by decide +kernel,work_authentic _ _ offeredTwice_reachable⟩

theorem once_per_connection_sample :
    OncePerConnection samplePlatform samplePeer commandedTwice :=
  once_per_connection _ _ commandedTwice_reachable

end Sample

end AgentTorrent
