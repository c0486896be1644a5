import AgentTorrent.Framework.Machine
import AgentTorrent.Framework.Pool
import AgentTorrent.Peer.Serve

open Framework

namespace AgentTorrent

/-- A thread of a peer process: a caller of Peer.delegate, or one connection of the
accept loop. Nothing is left of a thread when the process ends. -/
inductive Thread
  | delegate (args : DelegateArgs) (pc : DelegatePc)
  | serve (loopback : Bool) (pc : ServePc)
  | gone

/-- The Peer.delegate call that a thread is in. -/
def Thread.call : Thread → Option DelegatePc
  | .delegate _ pc => some pc
  | .serve _ (.control _ pc) => some pc
  | _ => none

/-- What happened: something that a thread of this process did, inside a delegate
call or outside, or a message that some other program signed. -/
inductive Entry
  | own (thread : Nat) (inCall : Bool) (event : Event)
  | foreign (pubkey msg : Bytes)

/-- The ledger, and all that happened, oldest first. -/
structure Shared where
  ledger : Ledger
  history : List Entry

abbrev Process := Pool Shared Thread

/-- What the scheduler and the surroundings choose. -/
inductive Action
  | call (args : DelegateArgs)
  | accept (loopback : Bool)
  | turn (i : Nat) (a : Answers)
  | sign (pubkey msg : Bytes)
  | restart

variable (P : Platform) (peer : Peer)

def threadStep (a : Answers) (L : Ledger) : Thread → Ledger×Thread×Option Event
  | .delegate args pc =>
    let next := delegateStep P peer args a L pc
    (next.1,.delegate args next.2.1,next.2.2)
  | .serve loopback pc =>
    let next := serveStep P peer loopback a L pc
    (next.1,.serve loopback next.2.1,next.2.2)
  | .gone => (L,.gone,none)

/-- What the shared state is after thread i did a step. -/
def Shared.book (s : Shared) (i : Nat) (inCall : Bool) (L : Ledger) (event : Option Event) :
    Shared := ⟨L,s.history++event.toList.map (Entry.own i inCall)⟩

/-- Someone else signs a message. -/
def Shared.hear (s : Shared) (pubkey msg : Bytes) : Shared :=
  {s with history := s.history++[.foreign pubkey msg]}

def takeTurn (i : Nat) (a : Answers) (s : Shared) (t : Thread) : Shared×Thread :=
  let next := threadStep P peer a s.ledger t
  (s.book i t.call.isSome next.1 next.2.2,next.2.1)

/-- A process that has just been started for the first time. -/
def Process.start : Process := ⟨⟨Ledger.fresh,[]⟩,[]⟩

/-- A peer process over its whole life: it may be restarted at any time. -/
def processMachine : Machine Process Action where
  init p := p=.start
  step p
    | .call args => some ⟨p.shared,p.threads++[.delegate args .start]⟩
    | .accept loopback => some ⟨p.shared,p.threads++[.serve loopback .start]⟩
    | .turn i a => match p.threads[i]? with
      | none => none
      | some t =>
        let next := takeTurn P peer i a p.shared t
        some ⟨next.1,p.threads.set i next.2⟩
    | .sign pubkey msg => some ⟨p.shared.hear pubkey msg,p.threads⟩
    | .restart => some ⟨{p.shared with ledger := .load p.shared.ledger.disk},
        p.threads.map fun _ => .gone⟩

/-- The call has not escrowed anything yet. -/
def DelegatePc.early : DelegatePc → Bool
  | .start | .choose | .escrow _ _ => true
  | _ => false

/-- What one step of Peer.delegate does. -/
inductive DelegateMove (a : Answers) (L : Ledger) :
    DelegatePc → Ledger → DelegatePc → Option Event → Prop
  | begin : DelegateMove a L .start L .choose none
  | chosen (job : Job) (worker : PeerInfo) (hid : job.id=a.uuid) :
      DelegateMove a L .choose L (.escrow job worker) none
  | refuse (pc : DelegatePc) (o : Except PyExc DelegateResult) (h : pc.early=true)
      (ho : statusOk o=false) : DelegateMove a L pc L (.finished o) none
  | escrow (job : Job) (worker : PeerInfo) (hb : jobPrice ≤ L.balance selfAccount)
      (hj : L.jobRecords job.id=[]) : DelegateMove a L (.escrow job worker)
        (L.extend (escrowRecord job.id worker.peerId.val)) (.active .connect job worker)
        (some (.recorded (escrowRecord job.id worker.peerId.val)))
  | go (job : Job) (worker : PeerInfo) (ph : Phase) (pc' : DelegatePc)
      (h : ActiveNext P a job worker ph pc') : DelegateMove a L (.active ph job worker) L pc' none
  | greet (job : Job) (worker : PeerInfo) (pc' : DelegatePc) (payload : Json)
      (h : ActiveNext P a job worker .handshakeSend pc')
      (hp : sealMessage P peer.identity a.ts msgHandshake (.obj [])=.ok payload) :
      DelegateMove a L (.active .handshakeSend job worker) L pc' (some (.sealed payload))
  | offer (job : Job) (worker : PeerInfo) (pc' : DelegatePc) (payload : Json)
      (h : ActiveNext P a job worker .offerSend pc')
      (hp : sealMessage P peer.identity a.ts msgTaskOffer (offerBody job)=.ok payload) :
      DelegateMove a L (.active .offerSend job worker) L pc' (some (.sealed payload))
  | settle (job : Job) (worker : PeerInfo) (result : Json)
      (ho : L.IsOpen job.id) : DelegateMove a L (.settle job worker result)
        (L.extend (settleRecord job.id worker.peerId.val))
        (.finished (.ok (delivered job worker result)))
        (some (.recorded (settleRecord job.id worker.peerId.val)))
  | refund (job : Job) (worker : PeerInfo) (o : Except PyExc DelegateResult)
      (ho : L.IsOpen job.id) : DelegateMove a L (.refund job worker o)
        (L.extend (refundRecord job.id)) (.finished o) (some (.recorded (refundRecord job.id)))
  | unclosed (pc : DelegatePc) (job : Job) (e : PyExc) (ho : pc.owns=some job.id)
      (hn : ¬L.IsOpen job.id) : DelegateMove a L pc L (.finished (.error e)) none
  | stay (o : Except PyExc DelegateResult) : DelegateMove a L (.finished o) L (.finished o) none

theorem requireOpenEscrow_error {L : Ledger} {j : PyStr} {e : PyExc}
    (h : L.requireOpenEscrow j=.error e) : ¬L.IsOpen j := by
  intro hh
  rw [Ledger.requireOpenEscrow_of_open hh] at h
  cases h

/-- Every step of Peer.delegate is one of the moves. -/
theorem delegateStep_move (args : DelegateArgs) (a : Answers) (L : Ledger) (pc : DelegatePc) :
    DelegateMove P peer a L pc (delegateStep P peer args a L pc).1
      (delegateStep P peer args a L pc).2.1 (delegateStep P peer args a L pc).2.2 := by
  cases pc with
  | start =>
    simp only [delegateStep]
    split_ifs
    · exact .begin
    · exact .refuse .start _ rfl rfl
  | choose =>
    simp only [delegateStep]
    rcases chooseWorker_cases args a with ⟨job,-,worker,hj,-,-,h⟩ | ⟨o,ho,h⟩
    · rw [h]
      exact .chosen job worker (newJob_id hj)
    · rw [h]
      exact .refuse .choose o rfl ho
  | escrow job worker =>
    simp only [delegateStep]
    rcases L.escrow_cases job.id worker.peerId.val with ⟨msg,he⟩ | ⟨hb,hj,he⟩
    · rw [he]
      exact .refuse (.escrow job worker) _ rfl rfl
    · rw [he]
      exact .escrow job worker hb hj
  | active ph job worker =>
    obtain ⟨hn,he⟩ := activeStep_cases P peer a job worker ph
    change DelegateMove P peer a L _ L (activeStep P peer a job worker ph).1
      (activeStep P peer a job worker ph).2
    rcases he with he | ⟨payload,rfl,hp,he⟩ | ⟨payload,rfl,hp,he⟩
    · rw [he]
      exact .go job worker ph _ hn
    · rw [he]
      exact .greet job worker _ payload hn hp
    · rw [he]
      exact .offer job worker _ payload hn hp
  | settle job worker result =>
    simp only [delegateStep,Ledger.settle]
    cases ho : L.requireOpenEscrow job.id with
    | error e => exact .unclosed (.settle job worker result) job e rfl (requireOpenEscrow_error ho)
    | ok u =>
      rcases L.requireOpenEscrow_cases job.id with ⟨msg,h⟩ | ⟨-,hi⟩
      · cases ho.symm.trans h
      · exact .settle job worker result hi
  | refund job worker o =>
    simp only [delegateStep,Ledger.refund]
    cases ho : L.requireOpenEscrow job.id with
    | error e => exact .unclosed (.refund job worker o) job e rfl (requireOpenEscrow_error ho)
    | ok u =>
      rcases L.requireOpenEscrow_cases job.id with ⟨msg,h⟩ | ⟨-,hi⟩
      · cases ho.symm.trans h
      · exact .refund job worker o hi
  | finished o => exact .stay o

/-- What one step of a thread does: a move of its call, or a move of its connection. -/
inductive ThreadMove (a : Answers) (L : Ledger) :
    Thread → Ledger → Thread → Option Event → Prop
  | call (t t' : Thread) (pc pc' : DelegatePc) (L' : Ledger) (event : Option Event)
      (ht : t.call=some pc) (ht' : t'.call=some pc')
      (hm : DelegateMove P peer a L pc L' pc' event)
      (hs : (∃args,t=.delegate args pc ∧ t'=.delegate args pc') ∨ ∃loopback args,
        t=.serve loopback (.control args pc) ∧ t'=.serve loopback (.control args pc')) :
      ThreadMove a L t L' t' event
  | serve (loopback : Bool) (pc pc' : ServePc) (L' : Ledger) (event : Option Event)
      (hm : ServeMove P peer loopback a L pc L' pc' event) :
      ThreadMove a L (.serve loopback pc) L' (.serve loopback pc') event
  | gone : ThreadMove a L .gone L .gone none

theorem threadStep_move (a : Answers) (L : Ledger) (t : Thread) :
    ThreadMove P peer a L t (threadStep P peer a L t).1 (threadStep P peer a L t).2.1
      (threadStep P peer a L t).2.2 := by
  cases t with
  | delegate args pc =>
    exact .call _ _ pc _ _ _ rfl rfl (delegateStep_move P peer args a L pc) (.inl ⟨args,rfl,rfl⟩)
  | serve loopback pc =>
    have outside (hc : ∀args d,pc=.control args d → ∃o,d=.finished o) :
        ThreadMove P peer a L (.serve loopback pc) (threadStep P peer a L (.serve loopback pc)).1
          (threadStep P peer a L (.serve loopback pc)).2.1
          (threadStep P peer a L (.serve loopback pc)).2.2 :=
      .serve loopback pc _ _ _ (serveStep_move P peer loopback a L pc hc)
    cases pc with
    | control args d => cases d with
      | finished o =>
        exact outside fun args d h => by cases h; exact ⟨o,rfl⟩
      | _ =>
        exact .call _ _ _ _ _ _ rfl rfl (delegateStep_move P peer args a L _)
          (.inr ⟨loopback,args,rfl,rfl⟩)
    | _ => exact outside fun _ _ h => by cases h
  | gone => exact .gone

end AgentTorrent
