import AgentTorrent.Framework.Pipe
import AgentTorrent.Swarm.Runs
import AgentTorrent.Wire.Stream

open Framework

namespace AgentTorrent

variable (P : Platform)

section Lines

/-- The line of Connection.send for a payload that it sealed. -/
def wireLine (me : Identity) (o : Opened) : Bytes :=
  match canonicalJson P o.payload with
  | .ok msg => (Json.obj [(lit "v",.int 1),(lit "payload",o.payload),
      (lit "pubkey",.str (toHex me.pubkey)),(lit "sig",.str (toHex (me.sign msg)))]).dumps++
        [newline]
  | .error _ => []

/-- A message that a peer sealed and that its reader can get back. -/
structure SealedRight (me : Identity) (o : Opened) : Prop where
  sender : o.sender=me.peerId P
  sealed : ∃ts msgType body,sealMessage P me ts msgType body=.ok o.payload
  plain : o.payload.plain=true
  signed : ∀msg,canonicalJson P o.payload=.ok msg → me.Signs P msg

/-- readOpened of a line, as the reader of a stream -/
def openLine (bs : Bytes) (bound : bs.length ≤ maxLineBytes) : Except PyExc Opened :=
  readOpened P (.line bs bound)

def Failed (x : Except PyExc Opened) : Prop := ∃e,x=.error e

end Lines

/-- One connection as bytes: the peer that accepted it with its handler, and the stream of
each direction. -/
structure TcpLink (ι : Type) where
  acceptor : ι
  loopback : Bool
  handler : ServePc
  toAcceptor : Pipe UInt8
  toRequester : Pipe UInt8

/-- One call of Peer.delegate over a connection of bytes. -/
structure TcpSession (ι : Type) where
  requester : ι
  args : DelegateArgs
  pc : DelegatePc
  jobId : Option PyStr
  link : Option (TcpLink ι)

/-- What readline meets: a timeout or an error, or the stream with nothing after its
first n bytes. -/
inductive TcpRead
  | timedOut
  | osError
  | upTo (n : Nat)

/-- What decides about one step. -/
structure TcpChoice (ι : Type) where
  answers : Answers
  acceptor : ι
  loopback : Bool
  read : TcpRead
  /-- the bytes of the line that a sendall has sent when it raises -/
  wrote : Nat

inductive TcpAction (ι : Type)
  | delegate (requester : ι) (args : DelegateArgs)
  | requester (k : Nat) (c : TcpChoice ι)
  | handler (k : Nat) (c : TcpChoice ι)

abbrev TcpSwarm (ι : Type) := Pool (Exchange ι) (TcpSession ι)

section Bytes

variable {ι : Type}

/-- What readline and the opening of its line give, and the stream behind it. -/
def TcpRead.line (p : Pipe UInt8) : TcpRead → Except PyExc Opened×Pipe UInt8
  | .timedOut => (readOpened P .timedOut,p)
  | .osError => (readOpened P .osError,p)
  | .upTo n => (openLine P (p.nextLine maxLineBytes newline n) (p.nextLine_bound ..),
      p.skipLine maxLineBytes newline n)

/-- A step that reads takes a line off the stream. -/
def tcpListen (reads : Bool) (c : TcpChoice ι) (p : Pipe UInt8) : Answers×Pipe UInt8 :=
  if reads then
    let next := c.read.line P p
    ({c.answers with received := next.1},next.2)
  else (c.answers,p)

/-- What a step sends is written, or a part of it where sendall raises. -/
def tcpSpeak (me : Identity) (c : TcpChoice ι) (event : Option Event) (p : Pipe UInt8) :
    Pipe UInt8 :=
  match event with
  | some (.sealed payload) =>
    let line := wireLine P me ⟨me.peerId P,payload⟩
    p.write (if c.answers.sent then line else line.take c.wrote)
  | _ => p

def tcpDial (c : TcpChoice ι) : DelegatePc → Option (TcpLink ι)
  | .active .connect _ _ =>
    if c.answers.connecting=.refused then none
    else some ⟨c.acceptor,c.loopback,.start,.empty,.empty⟩
  | _ => none

/-- What the call reads, and its connection after that. -/
def TcpSession.hear (t : TcpSession ι) (c : TcpChoice ι) : Option (Answers×Option (TcpLink ι)) :=
  match t.link with
  | none => if t.pc.listens P then none else some (c.answers,tcpDial c t.pc)
  | some l =>
    let heard := tcpListen P (t.pc.listens P) c l.toRequester
    some (heard.1,some {l with toRequester := heard.2})

end Bytes

variable {P} {ι : Type} (M : Members P ι)

/-- The step of Peer.delegate that a call makes: its connection after the read, the
ledger, the program counter and what it shows. -/
def TcpSession.ask (s : Exchange ι) (c : TcpChoice ι) (t : TcpSession ι) :
    Option (Option (TcpLink ι)×Ledger×DelegatePc×Option Event) :=
  (t.hear P c).map fun heard => (heard.2,
    delegateStep P (M.peer t.requester) t.args heard.1 (s.ledgers t.requester) t.pc)

/-- The step of _serve_connection that the handler of a connection makes. -/
def TcpLink.serve (s : Exchange ι) (c : TcpChoice ι) (l : TcpLink ι) :
    TcpLink ι×Ledger×ServePc×Option Event :=
  let heard := tcpListen P l.handler.listens c l.toAcceptor
  ({l with toAcceptor := heard.2},
    serveStep P (M.peer l.acceptor) l.loopback heard.1 (s.ledgers l.acceptor) l.handler)

section Steps

variable [DecidableEq ι]

def tcpRequesterStep (k : Nat) (c : TcpChoice ι) (s : Exchange ι) (t : TcpSession ι) :
    Option (Exchange ι×TcpSession ι) :=
  (t.ask M s c).map fun next =>
    let drawn := t.pc.draws next.2.2.1
    ((s.book t.requester next.2.1).draw k drawn,
      {t with
        pc := next.2.2.1
        jobId := drawn.or t.jobId
        link := next.1.map fun l => {l with
          toAcceptor := tcpSpeak P (M.peer t.requester).identity c next.2.2.2 l.toAcceptor}})

def tcpHandlerStep (c : TcpChoice ι) (s : Exchange ι) (t : TcpSession ι) :
    Option (Exchange ι×TcpSession ι) :=
  t.link.map fun l =>
    let next := l.serve M s c
    (s.book l.acceptor next.2.1,
      {t with link := some {next.1 with
        handler := next.2.2.1
        toRequester := tcpSpeak P (M.peer l.acceptor).identity c next.2.2.2 l.toRequester}})

/-- The peers of a swarm over connections that carry bytes. -/
def tcpMachine : Machine (TcpSwarm ι) (TcpAction ι) where
  init p := p=⟨⟨fun _ => Ledger.fresh,fun _ => none⟩,[]⟩
  step p
    | .delegate b args => some ⟨p.shared,p.threads++[⟨b,args,.start,none,none⟩]⟩
    | .requester k c => (p.threads[k]?).bind fun t =>
      (tcpRequesterStep M k c p.shared t).map fun r => ⟨r.1,p.threads.set k r.2⟩
    | .handler k c => (p.threads[k]?).bind fun t =>
      (tcpHandlerStep M c p.shared t).map fun r => ⟨r.1,p.threads.set k r.2⟩

end Steps

/-- In this step peer b seals the payload. -/
def Speaks (p : TcpSwarm ι) (act : TcpAction ι) (b : ι) (c : TcpChoice ι) (payload : Json) : Prop :=
  ∃k t,p.threads[k]?=some t ∧
    ((act=.requester k c ∧ t.requester=b ∧
        ∃next,t.ask M p.shared c=some next ∧ next.2.2.2=some (.sealed payload)) ∨
      act=.handler k c ∧ ∃l,t.link=some l ∧ l.acceptor=b ∧
        (l.serve M p.shared c).2.2.2=some (.sealed payload))

/-- What a run may do. Job ids are fresh; what is sealed is plain JSON under a good
signature; and leaky says whether a sendall that raises may have sent the whole text. -/
structure TcpLawful (leaky : Prop) (p : TcpSwarm ι) (act : TcpAction ι) (_ : TcpSwarm ι) :
    Prop where
  fresh : ∀k c t,act=.requester k c → p.threads[k]?=some t → t.pc=.choose →
    p.shared.drawnBy c.answers.uuid=none
  plain : ∀b c payload,Speaks M p act b c payload → payload.plain=true
  signed : ∀b c payload,Speaks M p act b c payload → ∀msg,canonicalJson P payload=.ok msg →
    (M.peer b).identity.Signs P msg
  unleaked : ∀b c payload,Speaks M p act b c payload → c.answers.sent=false →
    (wireLine P (M.peer b).identity ⟨M.id b,payload⟩).length ≤ c.wrote+1 → leaky

variable {M} in
theorem TcpLawful.leaky {leaky leaky' : Prop} {p q : TcpSwarm ι} {act : TcpAction ι}
    (h : TcpLawful M leaky p act q) (hi : leaky → leaky') : TcpLawful M leaky' p act q :=
  ⟨h.fresh,h.plain,h.signed,fun b c payload hs hn hw => hi (h.unleaked b c payload hs hn hw)⟩

section Lines

variable {float : PyStr → PyFloat} {me : Identity} {o : Opened}

theorem openLine_ok {envelope : Json} {bs : Bytes} (hn : bs≠[]) (hl : P.loads bs=.ok envelope)
    (ho : openEnvelope P envelope=.ok o) (bound : bs.length ≤ maxLineBytes) :
    openLine P bs bound=.ok o := by
  simp only [openLine,readOpened,hn,if_false,hl,ho]

theorem openLine_failed {bs : Bytes} (h : bs=[] ∨ P.loads bs=.error .value)
    (bound : bs.length ≤ maxLineBytes) : Failed (openLine P bs bound) := by
  by_cases hn : bs=[]
  · exact ⟨_,by simp only [openLine,readOpened,hn,if_true]; rfl⟩
  · have hl := h.resolve_left hn
    exact ⟨_,by simp only [openLine,readOpened,hn,if_false,hl]; rfl⟩

/-- The line of a message is read as the message. -/
theorem readable_of_sealed (hP : P.ReadsLines float) (hl : P.Lawful float)
    (h : SealedRight P me o) :
    Pipe.Readable newline (openLine P) Failed (wireLine P me) .ok o := by
  obtain ⟨ts,msgType,body,hs⟩ := h.sealed
  obtain ⟨payload_eq,-⟩ := sealMessage_ok P hs
  unfold sealMessage at hs
  split at hs
  · cases hs
  · rename_i envelope hseal
    split_ifs at hs with hd
    have hsig (msg : Bytes)
        (hm : canonicalJson P (sealPayload (me.peerId P) ts msgType body)=.ok msg) :
        me.Signs P msg := h.signed msg (payload_eq ▸ hm)
    have hopen := open_sealed hseal hsig
    rw [← payload_eq,← h.sender] at hopen
    obtain ⟨inner,hbraces⟩ := dumps_braces hseal
    obtain ⟨msg,hm,he⟩ := sealEnvelope_ok hseal
    rw [← payload_eq] at hm he
    have hline : wireLine P me o=envelope.dumps++[newline] := by
      rw [wireLine,hm,he]
    have hints : envelope.intsAll P.intPrints=true := by
      have hi := (canonicalJson_ok_iff.mp hm).2.1
      have h1 : P.intPrints 1=true := hl.small 1 (by decide)
      rw [he]
      simp [Json.intsAll,Json.intsAllMembers,hi,h1]
    have hback : loadsText float P.intPrints (ofAscii envelope.dumps)=some envelope :=
      dumps_readBack hl (he ▸ envelope_plain h.plain _ _) hints
    have hloads {part : Bytes} (hp : part <:+: envelope.dumps++[newline]) :=
      hP.loads envelope (Nat.not_lt.mp hd) part hp
    have hprefix : envelope.dumps <+: envelope.dumps++[newline] := List.prefix_append _ _
    have hne : envelope.dumps≠[] := by
      rw [hbraces,List.append_assoc]
      exact List.cons_ne_nil _ _
    refine ⟨envelope.dumps,hline,?_,?_,?_,?_,?_⟩
    · intro hf
      obtain ⟨e,hf⟩ := hf
      cases hf
    · intro hm
      have hprint := List.all_eq_true.mp
        (Json.render_printable (by decide) (by decide) envelope) _ hm
      cases hprint
    · apply openLine_ok (by simp) _ hopen
      rw [hloads (List.infix_refl _),loadsText_newline hbraces hback]
    · apply openLine_ok hne _ hopen
      rw [hloads hprefix.isInfix,hback]
    · intro n hn
      apply openLine_failed (.inr _)
      rw [hloads ((List.take_prefix n _).trans hprefix).isInfix,loadsText_torn hbraces hback hn]

end Lines

section Flows

variable (P)

/-- The stream of one direction stands for its messages. It does so byte for byte while
its writer may still talk, and its reader is behind what it has heard while it listens. -/
structure Flows (me : Identity) (talks hears : Bool) (p : Pipe UInt8) (ch : Channel Opened) :
    Prop where
  carries : Pipe.Carries newline (openLine P) Failed (wireLine P me) .ok p ch
  whole : talks=true → Pipe.Whole (wireLine P me) p ch
  placed : hears=true → Pipe.Placed (wireLine P me) p ch

/-- The sendall that raises has sent the whole text. -/
def leaks (me : Identity) (c : TcpChoice ι) : Option Event → Bool
  | some (.sealed payload) => !c.answers.sent &&
      (wireLine P me ⟨me.peerId P,payload⟩).length ≤ c.wrote+1
  | _ => false

variable {P}

/-- The choice that does with messages what this one does with bytes. -/
def TcpChoice.choice (c : TcpChoice ι) (received : Except PyExc Opened) (leak : Bool) : Choice ι where
  answers := c.answers
  acceptor := c.acceptor
  loopback := c.loopback
  fault := match received with
    | .error e => some e
    | .ok _ => none
  leak := leak

@[simp] theorem choice_answers (c : TcpChoice ι) (received : Except PyExc Opened) (leak : Bool) :
    (c.choice received leak).answers=c.answers := rfl

variable {float : PyStr → PyFloat} {me : Identity} {talks hears talks' hears' : Bool}
  {p : Pipe UInt8} {ch : Channel Opened} {c : TcpChoice ι}

theorem flows_empty : Flows P me talks hears .empty .empty :=
  ⟨Pipe.carries_empty,fun _ => Pipe.whole_empty,fun _ => Pipe.placed_empty⟩

theorem Flows.quieter (h : Flows P me talks hears p ch) (ht : talks'=true → talks=true)
    (hh : hears'=true → hears=true) : Flows P me talks' hears' p ch :=
  ⟨h.carries,fun h' => h.whole (ht h'),fun h' => h.placed (hh h')⟩

@[simp] theorem tcpListen_sent (reads : Bool) (c : TcpChoice ι) (p : Pipe UInt8) :
    (tcpListen P reads c p).1.sent=c.answers.sent := by
  cases reads <;> rfl

/-- A read of the stream is a read of the messages, which gives the next one or raises. -/
theorem Flows.listen (hP : P.ReadsLines float) (h : Flows P me talks hears p ch) {reads : Bool}
    (hr : reads=true → hears=true) (leak : Bool)
    (hh : hears'=true → hears=true ∧
      (reads=true → ∃o,(tcpListen P reads c p).1.received=.ok o)) :
    ∃ch',AgentTorrent.listen reads (c.choice (tcpListen P reads c p).1.received leak) ch=
        some ((tcpListen P reads c p).1,ch') ∧
      Flows P me talks hears' (tcpListen P reads c p).2 ch' := by
  cases reads with
  | false => exact ⟨ch,rfl,h.quieter id fun h' => (hh h').1⟩
  | true =>
    have deaf {e : PyExc} (he : (tcpListen P true c p).1.received=.error e)
        (hb : (tcpListen P true c p).2.bytes=p.bytes) :
        ∃ch',AgentTorrent.listen true (c.choice (tcpListen P true c p).1.received leak) ch=
            some ((tcpListen P true c p).1,ch') ∧
          Flows P me talks hears' (tcpListen P true c p).2 ch' := by
      refine ⟨ch,?_,⟨h.carries.readable,hb ▸ h.carries.bytes⟩,?_,?_⟩
      · have ha : (tcpListen P true c p).1=
            {c.answers with received := (tcpListen P true c p).1.received} := rfl
        rw [ha,he]
        rfl
      · intro ht
        exact hb.trans (h.whole ht)
      · intro ht
        obtain ⟨o,ho⟩ := (hh ht).2 rfl
        cases he.symm.trans ho
    cases hread : c.read with
    | timedOut =>
      exact deaf (e := .protocolError .timedOut) (by simp [tcpListen,hread,TcpRead.line,readOpened])
        (by simp [tcpListen,hread,TcpRead.line])
    | osError =>
      exact deaf (e := .protocolError .connectionError)
        (by simp [tcpListen,hread,TcpRead.line,readOpened]) (by simp [tcpListen,hread,TcpRead.line])
    | upTo n =>
      have hreceived : (tcpListen P true c p).1.received=
          openLine P (p.nextLine maxLineBytes newline n) (p.nextLine_bound ..) := by
        simp [tcpListen,hread,TcpRead.line]
      have hpipe : (tcpListen P true c p).2=p.skipLine maxLineBytes newline n := by
        simp [tcpListen,hread,TcpRead.line]
      rcases h.carries.readLine (h.placed (hr rfl)) (by decide)
        (fun hb => openLine_failed (.inr hP.newline) hb) (fun hb => openLine_failed (.inl rfl) hb) n
        with ⟨e,hf⟩ | ⟨o,ch',htake,ho,hc,hp⟩
      · exact deaf (hreceived.trans hf) (by rw [hpipe]; rfl)
      · have hsame := (Channel.take_some htake).2.1
        refine ⟨ch',?_,hpipe ▸ hc,?_,fun _ => hpipe ▸ hp⟩
        · have ha : (tcpListen P true c p).1=
              {c.answers with received := (tcpListen P true c p).1.received} := rfl
          rw [ha,hreceived,ho]
          simp [AgentTorrent.listen,TcpChoice.choice,htake]
        · intro ht
          have hw := h.whole ht
          rw [hpipe]
          exact hw.trans (by rw [hsame])

/-- A step that sends writes its message on the stream, or it does not talk any more. -/
theorem Flows.speak (hP : P.ReadsLines float) (hl : P.Lawful float)
    (h : Flows P me talks hears p ch) {event : Option Event} (received : Except PyExc Opened)
    (hs : ∀payload,event=some (.sealed payload) →
      talks=true ∧ SealedRight P me ⟨me.peerId P,payload⟩)
    (ht : talks'=true → talks=true ∧
      ∀payload,event=some (.sealed payload) → c.answers.sent=true) :
    Flows P me talks' hears (tcpSpeak P me c event p)
      (AgentTorrent.speak (me.peerId P) (c.choice received (leaks P me c event)) event ch) := by
  by_cases he : ∃payload,event=some (.sealed payload)
  · obtain ⟨payload,rfl⟩ := he
    obtain ⟨htalk,hright⟩ := hs payload rfl
    have hread := readable_of_sealed hP hl hright
    have hw := h.whole htalk
    let line := wireLine P me ⟨me.peerId P,payload⟩
    cases hsent : c.answers.sent with
    | true =>
      have hput : AgentTorrent.speak (me.peerId P) (c.choice received
          (leaks P me c (some (.sealed payload)))) (some (.sealed payload)) ch=
          ch.put ⟨me.peerId P,payload⟩ := by
        simp [AgentTorrent.speak,TcpChoice.choice,hsent]
      have hwrite : tcpSpeak P me c (some (.sealed payload)) p=p.write line := by
        simp [tcpSpeak,hsent,line]
      rw [hput,hwrite]
      have hcarry := h.carries.put hw hread line.length
      rw [List.take_length] at hcarry
      exact ⟨hcarry,fun _ => hw.put,fun hh => (h.placed hh).put _⟩
    | false =>
      have quiet (Q : Prop) (h' : talks'=true) : Q := by
        have hn := (ht h').2 payload rfl
        cases hsent.symm.trans hn
      have hwrite : tcpSpeak P me c (some (.sealed payload)) p=p.write (line.take c.wrote) := by
        simp [tcpSpeak,hsent,line]
      rw [hwrite]
      by_cases hleak : line.length ≤ c.wrote+1
      · have hput : AgentTorrent.speak (me.peerId P) (c.choice received
            (leaks P me c (some (.sealed payload)))) (some (.sealed payload)) ch=
            ch.put ⟨me.peerId P,payload⟩ := by
          simp [AgentTorrent.speak,TcpChoice.choice,leaks,hsent,hleak,line]
        rw [hput]
        exact ⟨h.carries.put hw hread c.wrote,quiet _,fun hh => (h.placed hh).put _⟩
      · have hkeep : AgentTorrent.speak (me.peerId P) (c.choice received
            (leaks P me c (some (.sealed payload)))) (some (.sealed payload)) ch=ch := by
          simp only [line] at hleak
          simp [AgentTorrent.speak,TcpChoice.choice,leaks,hsent,hleak]
        rw [hkeep]
        exact ⟨h.carries.tear hw hread (Nat.lt_of_not_le hleak),quiet _,fun hh => (h.placed hh).write _⟩
  · have hwrite : tcpSpeak P me c event p=p := by
      unfold tcpSpeak
      split
      · exact absurd ⟨_,rfl⟩ he
      · rfl
    have hkeep : AgentTorrent.speak (me.peerId P)
        (c.choice received (leaks P me c event)) event ch=ch := by
      unfold AgentTorrent.speak
      split
      · exact absurd ⟨_,rfl⟩ he
      · rfl
    rw [hwrite,hkeep]
    exact h.quieter (fun h' => (ht h').1) id

end Flows

end AgentTorrent
