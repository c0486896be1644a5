import AgentTorrent.Framework.Channel
import AgentTorrent.Peer.Process

open Framework

namespace AgentTorrent

/-- The peers of a swarm, which have different ids. -/
structure Members (P : Platform) (ι : Type) where
  peer : ι → Peer
  distinct : Function.Injective fun b => (peer b).identity.peerId P

/-- One connection: the peer that accepted it with its handler, and the verified
messages that each side has sent. -/
structure Link (ι : Type) where
  acceptor : ι
  loopback : Bool
  handler : ServePc
  toAcceptor : Channel Opened
  toRequester : Channel Opened

/-- One call of Peer.delegate, with the job id that it drew and the connection that
it made. -/
structure Session (ι : Type) where
  requester : ι
  args : DelegateArgs
  pc : DelegatePc
  jobId : Option PyStr
  link : Option (Link ι)

/-- The ledgers of all peers, and the call that drew a job id. -/
structure Exchange (ι : Type) where
  ledgers : ι → Ledger
  drawnBy : PyStr → Option Nat

abbrev Swarm (ι : Type) := Pool (Exchange ι) (Session ι)

/-- What decides about one step. -/
structure Choice (ι : Type) where
  answers : Answers
  /-- who listens where the call connects to, and whether it sees a loopback address -/
  acceptor : ι
  loopback : Bool
  /-- what a read raises instead of returning the next message: a timeout, a lost
  connection, a line that was cut off -/
  fault : Option PyExc
  /-- a sendall that raised has sent the line all the same -/
  leak : Bool

inductive SwarmAction (ι : Type)
  | delegate (requester : ι) (args : DelegateArgs)
  | requester (k : Nat) (c : Choice ι)
  | handler (k : Nat) (c : Choice ι)

section Messages

variable {ι : Type}

/-- A step that reads takes the next message, for which it waits, or it raises. -/
def listen (reads : Bool) (c : Choice ι) (ch : Channel Opened) :
    Option (Answers×Channel Opened) :=
  if reads then match c.fault with
    | some e => some ({c.answers with received := .error e},ch)
    | none => ch.take.map fun r => ({c.answers with received := .ok r.1},r.2)
  else some (c.answers,ch)

/-- What a step sends is under way, unless sendall raised and sent less. -/
def speak (me : PeerId) (c : Choice ι) (event : Option Event) (ch : Channel Opened) :
    Channel Opened :=
  match event with
  | some (.sealed payload) => if c.answers.sent || c.leak then ch.put ⟨me,payload⟩ else ch
  | _ => ch

/-- protocol.connect: the far side accepts wherever the connection is made. -/
def dial (c : Choice ι) : DelegatePc → Option (Link ι)
  | .active .connect _ _ =>
    if c.answers.connecting=.refused then none
    else some ⟨c.acceptor,c.loopback,.start,.empty,.empty⟩
  | _ => none

end Messages

variable (P : Platform)

/-- The call waits for a message. -/
def DelegatePc.listens : DelegatePc → Bool
  | .active .resultRecv job _ => P.timeoutFits job.maxRuntimeSeconds.val
  | .active ph _ _ => ph.listens
  | _ => false

def ServePc.listens : ServePc → Bool
  | .handshakeRecv | .requestRecv _ => true
  | _ => false

/-- The job id that a step of a call draws. -/
def DelegatePc.draws : DelegatePc → DelegatePc → Option PyStr
  | .choose,.escrow job _ => some job.id
  | _,_ => none

variable {ι : Type}

/-- What the call reads, and its connection after that. -/
def Session.hear (t : Session ι) (c : Choice ι) : Option (Answers×Option (Link ι)) :=
  match t.link with
  | none => if t.pc.listens P then none else some (c.answers,dial c t.pc)
  | some l => (listen (t.pc.listens P) c l.toRequester).map fun r =>
      (r.1,some {l with toRequester := r.2})

variable [DecidableEq ι]

def Exchange.book (s : Exchange ι) (b : ι) (L : Ledger) : Exchange ι :=
  {s with ledgers := Function.update s.ledgers b L}

/-- Call k draws an id, if it draws one. -/
def Exchange.draw (s : Exchange ι) (k : Nat) : Option PyStr → Exchange ι
  | some j => {s with drawnBy := Function.update s.drawnBy j (some k)}
  | none => s

variable {P} (M : Members P ι)

def Members.id (b : ι) : PeerId := (M.peer b).identity.peerId P

/-- A step of Peer.delegate at its peer. -/
def requesterStep (k : Nat) (c : Choice ι) (s : Exchange ι) (t : Session ι) :
    Option (Exchange ι×Session ι) :=
  (t.hear P c).map fun heard =>
    let me := t.requester
    let next := delegateStep P (M.peer me) t.args heard.1 (s.ledgers me) t.pc
    let drawn := t.pc.draws next.2.1
    ((s.book me next.1).draw k drawn,
      {t with
        pc := next.2.1
        jobId := drawn.or t.jobId
        link := heard.2.map fun l =>
          {l with toAcceptor := speak (M.id me) c next.2.2 l.toAcceptor}})

/-- A step of _serve_connection at the peer that accepted. -/
def handlerStep (c : Choice ι) (s : Exchange ι) (t : Session ι) :
    Option (Exchange ι×Session ι) :=
  t.link.bind fun l => (listen l.handler.listens c l.toAcceptor).map fun heard =>
    let me := l.acceptor
    let next := serveStep P (M.peer me) l.loopback heard.1 (s.ledgers me) l.handler
    (s.book me next.1,
      {t with link := some {l with
        handler := next.2.1
        toAcceptor := heard.2
        toRequester := speak (M.id me) c next.2.2 l.toRequester}})

/-- Peers that have just been started for the first time. -/
def Swarm.start : Swarm ι := ⟨⟨fun _ => Ledger.fresh,fun _ => none⟩,[]⟩

/-- Honest peers that run delegate and _serve_connection against each other. No
process ends, every ledger write succeeds, and any peer begins calls at any time. -/
def swarmMachine : Machine (Swarm ι) (SwarmAction ι) where
  init p := p=.start
  step p
    | .delegate b args => some ⟨p.shared,p.threads++[⟨b,args,.start,none,none⟩]⟩
    | .requester k c => (p.threads[k]?).bind fun t =>
      (requesterStep M k c p.shared t).map fun r => ⟨r.1,p.threads.set k r.2⟩
    | .handler k c => (p.threads[k]?).bind fun t =>
      (handlerStep M c p.shared t).map fun r => ⟨r.1,p.threads.set k r.2⟩

/-- Job ids are fresh: a call draws none that was drawn before. -/
def FreshDraw (p : Swarm ι) (act : SwarmAction ι) (_ : Swarm ι) : Prop :=
  ∀k c t,act=.requester k c → p.threads[k]?=some t → t.pc=.choose →
    p.shared.drawnBy c.answers.uuid=none

/-- What a run may do: ids are fresh, and leaky says whether a send that raises may
deliver all the same. -/
def Lawful (leaky : Prop) (p : Swarm ι) (act : SwarmAction ι) (q : Swarm ι) : Prop :=
  FreshDraw p act q ∧ ∀k c,act=.requester k c ∨ act=.handler k c → c.leak=true → leaky

def DelegatePc.returned : DelegatePc → Bool
  | .finished _ => true
  | _ => false

def ServePc.closed : ServePc → Bool
  | .finished _ => true
  | _ => false

/-- No delegation and no inbound task is in progress. -/
def Quiescent (p : Swarm ι) : Prop :=
  ∀t∈p.threads,t.pc.returned=true ∧ ∀l∈t.link,l.handler.closed=true

instance (p : Swarm ι) : Decidable (Quiescent p) := by
  unfold Quiescent
  infer_instance

end AgentTorrent
