import AgentTorrent.Cli
import AgentTorrent.Peer.Authenticity

open Framework

namespace AgentTorrent

/-- A running peer, and the command-line calls that use its data directory. -/
structure ControlState where
  process : Process
  calls : List CliCall

inductive ControlAction
  | peer (act : Action)
  | request (dataDir command : PyStr) (args : Json)
  | cli (k : Nat) (a : CliAnswers)

/-- The command that a connection is carrying out. -/
def ServePc.command : ServePc → Option PyStr
  | .listPeers => some (lit "peers")
  | .listLedger => some (lit "ledger")
  | .control _ _ => some (lit "delegate")
  | _ => none

variable (P : Platform) (peer : Peer)

/-- A call seals a payload: the peer's own key signs. -/
def Shared.sealed (s : Shared) : Option Json → Shared
  | none => s
  | some payload => match canonicalJson P payload with
    | .error _ => s
    | .ok msg => s.hear peer.identity.pubkey msg

/-- The peer and the calls on one machine. Each call reads the peer's own key. -/
def controlMachine : Machine ControlState ControlAction where
  init s := s=⟨.start,[]⟩
  step s
    | .peer act => ((processMachine P peer).step s.process act).map fun p => {s with process := p}
    | .request dataDir command args =>
      some {s with calls := s.calls++[⟨dataDir,command,args,.start⟩]}
    | .cli k a => match s.calls[k]? with
      | none => none
      | some call =>
        let next := cliStep P peer.identity call a
        some ⟨{s.process with shared := s.process.shared.sealed P peer next.2},
          s.calls.set k {call with pc := next.1}⟩

/-- The network and every other process are the adversary's: it signs with keys of its
own, and whatever is read holds no forged signature. -/
def FromAdversary (s : ControlState) : ControlAction → ControlState → Prop
  | .peer (.turn _ a),_ =>
    ∃line,a.received=readOpened P line ∧ Authentic P peer s.process.shared.history line
  | .peer (.sign pubkey _),_ => peerIdFromPubkey P pubkey≠peer.identity.peerId P
  | .cli _ a,_ =>
    ∃line,a.received=readOpened P line ∧ Authentic P peer s.process.shared.history line
  | _,_ => True

/-- Each HANDSHAKE that a call reads is the peer's own. -/
def OwnHandshake (s : ControlState) : ControlAction → ControlState → Prop
  | .cli k a,_ => ∀call,s.calls[k]?=some call → call.pc=.handshakeRecv → ∀o,a.received=.ok o →
      o.msgType=msgHandshake → o.sender=peer.identity.peerId P
  | _,_ => True

/-- The peer's own key signed the payload. -/
def OwnSealed (history : List Entry) (payload : Json) : Prop :=
  ∃e∈history,∃msg,canonicalJson P payload=.ok msg ∧ e.Signs P peer peer.identity.pubkey msg

/-- The command came over loopback, in a CONTROL that the peer's own key sealed. -/
def Ordered (history : List Entry) (loopback : Bool) (command : PyStr) : Prop :=
  loopback=true ∧ ∃o : Opened,o.msgType=msgControl ∧
    o.body.bind (Json.get? (lit "command"))=some (.str command) ∧ OwnSealed P peer history o.payload

/-- In this step a call of _control_request reads the message and returns the data. -/
def Returns (s : ControlState) (act : ControlAction) (o : Opened) (v : Json) : Prop :=
  ∃k a call remote,act=.cli k a ∧ s.calls[k]?=some call ∧ call.pc=.resultRecv remote ∧
    a.received=.ok o ∧ (cliStep P peer.identity call a).1=.finished (.data v)

/-- No key but the peer's own has signed under its id. -/
def OneKey (s : Shared) : Prop := ∀pubkey msg,Entry.foreign pubkey msg∈s.history →
  peerIdFromPubkey P pubkey=peer.identity.peerId P → pubkey=peer.identity.pubkey

section Serve

variable {P peer} {loopback : Bool} {a : Answers} {L : Ledger} {pc : ServePc} {command : PyStr}

theorem command_of_stage (h : 9 ≤ pc.stage) : pc.command=none := by
  cases pc with
  | listPeers | listLedger | control => simp [ServePc.stage] at h
  | _ => rfl

theorem hangUp_command (e : PyExc) : (hangUp e).command=none :=
  command_of_stage (by rw [hangUp_stage]; decide)

theorem not_command {Q : Prop} (hn : pc.command=none) (hc : pc.command=some command) : Q := by
  rw [hn] at hc
  cases hc

theorem considerOffer_command (requester : PeerId) (o : Opened) :
    (considerOffer P peer requester o).command=none := by
  unfold considerOffer
  split
  · exact hangUp_command _
  · split_ifs
    · rfl
    · split
      · rfl
      · exact hangUp_command _
      · split_ifs
        · rfl
        · exact command_of_stage (refuseJob_stage P peer _)

theorem handleControl_command {sender : PeerId} {o : Opened}
    (h : (handleControl P peer loopback sender o).command=some command) :
    loopback=true ∧ sender=peer.identity.peerId P ∧
      o.body.bind (Json.get? (lit "command"))=some (.str command) := by
  have quit {e : PyExc} {Q : Prop} (hc : (hangUp e).command=some command) : Q :=
    not_command (hangUp_command e) hc
  unfold handleControl at h
  split_ifs at h with hd
  · cases h
  · simp only [not_or,not_not] at hd
    refine ⟨hd.2,hd.1,?_⟩
    dsimp only at h
    split at h
    · exact quit h
    · rename_i v hc
      -- The command that is read is the command that is carried out.
      have named {c : PyStr} (hv : v.isStr c=true) (he : some c=some command) :
          o.body.bind (Json.get? (lit "command"))=some (.str command) := by
        cases he
        rcases body_get hc with hc | rfl
        · rw [hc,(Json.isStr_iff v _).mp hv]
        · cases hv
      split at h
      · exact quit h
      · split_ifs at h with h1 h2 h3
        · exact named h1 h
        · exact named h2 h
        · split at h
          · exact not_command (command_of_stage (controlFault_stage P _)) h
          · exact named h3 h
        · split at h
          · exact quit h
          · cases h

theorem serveSend_command {msgType : PyStr} {body : Json} {next : ServePc}
    (hn : next.command=none) : (serveSend P peer a msgType body next).1.command=none := by
  unfold serveSend
  split
  · exact hangUp_command _
  · dsimp only
    split_ifs
    · exact hn
    · rfl

/-- A connection comes to a command only from a CONTROL that it has just read. -/
theorem serveStep_command
    (h : (serveStep P peer loopback a L pc).2.1.command=some command) : pc.command=some command ∨
      loopback=true ∧ ∃o,a.received=.ok o ∧ o.sender=peer.identity.peerId P ∧
        o.msgType=msgControl ∧ o.body.bind (Json.get? (lit "command"))=some (.str command) := by
  have quit {e : PyExc} {Q : Prop} (hc : (hangUp e).command=some command) : Q :=
    not_command (hangUp_command e) hc
  cases pc with
  | start =>
    simp only [serveStep] at h
    split_ifs at h
    · cases h
    · dsimp only at h
      exact quit h
  | handshakeRecv =>
    simp only [serveStep] at h
    split at h
    · exact quit h
    · cases h
  | handshakeSend remote => exact not_command (serveSend_command rfl) h
  | requestRecv remote =>
    simp only [serveStep] at h
    split at h
    · exact quit h
    · rename_i o hr
      obtain ⟨ha,hs,-,-⟩ := recv_ok P hr
      dsimp only [dispatch] at h
      split_ifs at h with ht
      · obtain ⟨hl,hme,hc⟩ := handleControl_command h
        exact .inr ⟨hl,o,ha,(hs remote rfl).trans hme,ht,hc⟩
      · exact not_command (considerOffer_command remote o) h
  | rejectSend body => exact not_command (serveSend_command rfl) h
  | acceptSend requester job => exact not_command (serveSend_command rfl) h
  | execute requester job =>
    simp only [serveStep] at h
    split at h
    · exact quit h
    · cases h
  | resultSend requester job result =>
    refine not_command (serveSend_command ?_) h
    split_ifs <;> rfl
  | credit requester job =>
    simp only [serveStep] at h
    split at h
    · cases h
    · cases h
    · exact quit h
  | listPeers =>
    simp only [serveStep] at h
    split at h
    · dsimp only at h
      exact quit h
    · cases h
  | listLedger => cases h
  | control args pc =>
    refine .inl ?_
    cases pc with
    | finished outcome => exact not_command (command_of_stage (controlReply_stage P outcome)) h
    | _ => exact h
  | controlSend body => exact not_command (serveSend_command rfl) h
  | finished escaped => cases h

end Serve

section Evidence

variable {P peer} {h h' : List Entry} {s : Shared}

theorem OwnSealed.mono (hs : ∀e∈h,e∈h') {payload : Json} (hp : OwnSealed P peer h payload) :
    OwnSealed P peer h' payload := by
  obtain ⟨e,he,rest⟩ := hp
  exact ⟨e,hs e he,rest⟩

theorem Ordered.mono (hs : ∀e∈h,e∈h') {loopback : Bool} {command : PyStr}
    (ho : Ordered P peer h loopback command) : Ordered P peer h' loopback command := by
  obtain ⟨hl,o,ht,hc,hp⟩ := ho
  exact ⟨hl,o,ht,hc,hp.mono hs⟩

/-- What opens as the peer's own was sealed by its own key. -/
theorem ownSealed_of_opened (hk : OneKey P peer s) {received : Except PyExc Opened} {o : Opened}
    (hr : ∃line,received=readOpened P line ∧ Authentic P peer s.history line)
    (ho : received=.ok o) (hme : o.sender=peer.identity.peerId P) :
    OwnSealed P peer s.history o.payload := by
  obtain ⟨e,he,pubkey,msg,hs,hid,hm⟩ := opened_sealed hr ho
  refine ⟨e,he,msg,hm,?_⟩
  have hkey : pubkey=peer.identity.pubkey := by
    cases e with
    | own i c event => cases event with
      | sealed payload => exact hs.1
      | _ => cases hs
    | foreign k m =>
      obtain ⟨rfl,rfl⟩ := hs
      exact hk _ _ he (hid.trans hme)
  exact hkey ▸ hs

theorem OneKey.hear (hk : OneKey P peer s) {pubkey msg : Bytes}
    (hp : peerIdFromPubkey P pubkey=peer.identity.peerId P → pubkey=peer.identity.pubkey) :
    OneKey P peer (s.hear pubkey msg) := by
  intro k m hm hid
  rcases List.mem_append.mp hm with hm | hm
  · exact hk k m hm hid
  · cases List.mem_singleton.mp hm
    exact hp hid

theorem OneKey.book (hk : OneKey P peer s) {i : Nat} {c : Bool} {L : Ledger}
    {event : Option Event} : OneKey P peer (s.book i c L event) := by
  intro k m hm hid
  rcases mem_book.mp hm with hm | ⟨ev,-,hm⟩
  · exact hk k m hm hid
  · cases hm

end Evidence

section Runs

/-- The command that a thread carries out was ordered. -/
def CommandInv (s : Shared) (_ : Nat) (t : Thread) : Prop :=
  ∀loopback pc command,t=.serve loopback pc → pc.command=some command →
    Ordered P peer s.history loopback command

variable {P peer}

theorem process_keeps {p q : Process} {act : Action}
    (hs : (processMachine P peer).step p act=some q) (hg : onTurns (Adversary P peer) p act q)
    (hsign : ∀pubkey msg,act=.sign pubkey msg → peerIdFromPubkey P pubkey=peer.identity.peerId P →
      pubkey=peer.identity.pubkey)
    (hp : Pool.Good (fun s _ => OneKey P peer s) (CommandInv P peer) p) :
    Pool.Good (fun s _ => OneKey P peer s) (CommandInv P peer) q := by
  refine (process_move (H := fun _ => True) hs hg trivial).good hp ?_ ?_ ?_ ?_ ?_
  · intro n i s t s' t' hi hS hJ hm
    obtain ⟨-,a,ha,he⟩ := hm
    cases he
    refine ⟨hS.book,?_⟩
    intro loopback pc' command ht hc
    cases t with
    | delegate args pc => cases ht
    | gone => cases ht
    | serve loopback' pc =>
      obtain ⟨rfl,rfl⟩ := Thread.serve.inj ht
      rcases serveStep_command hc with hc | ⟨hl,o,ho,hme,hty,hcmd⟩
      · exact (hJ _ pc command rfl hc).mono mem_book_of_mem
      · exact ⟨hl,o,hty,hcmd,(ownSealed_of_opened hS ha ho hme).mono mem_book_of_mem⟩
  · intro n i s t s' t' k u hi hki hS hJ hu hm loopback pc command ht hc
    obtain ⟨-,a,-,he⟩ := hm
    cases he
    exact (hu loopback pc command ht hc).mono mem_book_of_mem
  · intro n s t hS ht
    refine ⟨hS,?_⟩
    intro loopback pc command hts hc
    rcases ht with ⟨args,rfl⟩ | ⟨loopback',rfl⟩
    · cases hts
    · cases hts
      cases hc
  · intro n s s' hS hm
    obtain ⟨pubkey,msg,he,rfl⟩ := hm
    refine ⟨hS.hear (hsign pubkey msg he),?_⟩
    intro i t hJ loopback pc command ht hc
    exact (hJ loopback pc command ht hc).mono (mem_hear_of_mem pubkey msg)
  · intro n s s' u hS hm
    obtain ⟨-,rfl,rfl⟩ := hm
    refine ⟨hS,?_⟩
    intro i loopback pc command ht _
    cases ht

/-- What a call does to the process is what signing with the peer's own key does. -/
theorem sealed_keeps {p : Process} (payload : Option Json)
    (hp : Pool.Good (fun s _ => OneKey P peer s) (CommandInv P peer) p) :
    Pool.Good (fun s _ => OneKey P peer s) (CommandInv P peer)
      {p with shared := p.shared.sealed P peer payload} := by
  cases payload with
  | none => exact hp
  | some payload =>
    rw [Shared.sealed]
    split
    · exact hp
    · rename_i msg hm
      have hs : (processMachine P peer).step p (.sign peer.identity.pubkey msg)=
          some ⟨p.shared.hear peer.identity.pubkey msg,p.threads⟩ := rfl
      exact process_keeps hs (fun i a t h => by cases h)
        (fun pubkey m he _ => (Action.sign.inj he).1.symm) hp

theorem controlled {s : ControlState}
    (h : (controlMachine P peer).ReachableBy (FromAdversary P peer) s) :
    Pool.Good (fun s _ => OneKey P peer s) (CommandInv P peer) s.process := by
  refine @Machine.ReachableBy.invariant _ _ (controlMachine P peer) _
    (fun s => Pool.Good (fun s _ => OneKey P peer s) (CommandInv P peer) s.process) ?_ ?_ s h
  · intro s hs
    cases hs
    apply Pool.good_empty
    intro pubkey msg hm
    cases hm
  · intro s act t _ hp hs hg
    cases act with
    | peer act =>
      obtain ⟨p,hstep,rfl⟩ := Option.map_eq_some_iff.mp hs
      refine process_keeps hstep ?_ ?_ hp
      · intro i a u hact _
        cases hact
        exact hg
      · intro pubkey msg hact hid
        cases hact
        exact absurd hid hg
    | request dataDir command args =>
      cases hs
      exact hp
    | cli k a =>
      simp only [controlMachine] at hs
      split at hs
      · cases hs
      · cases hs
        exact sealed_keeps _ hp

/-- A call goes on only with the peer of its handshake. -/
theorem calls_remote {s : ControlState}
    (h : (controlMachine P peer).ReachableBy (fun s act t => FromAdversary P peer s act t ∧
      OwnHandshake P peer s act t) s) :
    ∀(k : Nat) (call : CliCall),s.calls[k]?=some call → ∀remote,call.pc.remote=some remote →
      remote=peer.identity.peerId P := by
  refine @Machine.ReachableBy.invariant _ _ (controlMachine P peer) _ (fun s => ∀(k : Nat)
    (call : CliCall),s.calls[k]?=some call → ∀remote,call.pc.remote=some remote →
      remote=peer.identity.peerId P)
    ?_ ?_ s h
  · intro s hs k call hk
    cases hs
    simp at hk
  · intro s act t _ hp hs hg
    cases act with
    | peer act =>
      obtain ⟨p,-,rfl⟩ := Option.map_eq_some_iff.mp hs
      exact hp
    | request dataDir command args =>
      cases hs
      intro k call hk remote hr
      rcases Nat.lt_or_ge k s.calls.length with hl | hl
      · rw [List.getElem?_append_left hl] at hk
        exact hp k call hk remote hr
      · rw [List.getElem?_append_right hl,List.getElem?_singleton] at hk
        split_ifs at hk
        cases hk
        cases hr
    | cli j a =>
      simp only [controlMachine] at hs
      split at hs
      · cases hs
      · rename_i called hj
        cases hs
        intro k call hk remote hr
        by_cases he : j=k
        · subst he
          rw [List.getElem?_set_self (List.getElem?_eq_some_iff.mp hj).1] at hk
          cases hk
          rcases cliStep_remote hr with hr | ⟨hpc,o,ho,ht,rfl⟩
          · exact hp j called hj remote hr
          · exact hg.2 called hj hpc o ho ht
        · rw [List.getElem?_set_ne he] at hk
          exact hp k call hk remote hr

end Runs

section Sample

/-- The command-line call that lists the peers. -/
def requesterPeers : Signed where
  pubkey := requesterKey
  peerId := requesterId
  ts := ⟨ascii "1760000013.5",by decide⟩
  msgType := msgControl
  body := controlBody (lit "peers") (.obj [])
  sig := bytesOf 32 0x60d7386e7b7754e30dc8266672d138977cfafd9b2bdb19e3c5655f3e2b3aefa0++
    bytesOf 32 0x90fc99793a9c46276ed83721cdeb4632531f117f86a00b9eb3c4980c6aa89103

def requesterPeersResult : Signed where
  pubkey := requesterKey
  peerId := requesterId
  ts := ⟨ascii "1760000013.75",by decide⟩
  msgType := msgControlResult
  body := controlOk (.arr [])
  sig := bytesOf 32 0x484e00932c7a439fb7e8990e2cd366bd69596ec29b886ac7604db74aab2534fe++
    bytesOf 32 0x85a37ffe88479c50a4b51db5b6bed0d5706bf0bbf98f67e35f3ceda94e9f7206

/-- What a process with another key sends that listens on the port of runtime.json. -/
def workerPeersResult : Signed where
  pubkey := workerKey
  peerId := workerId
  ts := ⟨ascii "1760000012.75",by decide⟩
  msgType := msgControlResult
  body := controlOk (.arr [])
  sig := bytesOf 32 0xc31f5bb57c29f38f359225139541865ecf07128bc56bc3560a8e9071fb1e8b0b++
    bytesOf 32 0xb460d335eb025b64f1cd4ee3e43749a467272790efe7e81ced630070d6421901

def controlTranscript : List Signed :=
  [requesterHandshake,requesterPeers,requesterPeersResult,workerHandshake,workerPeersResult]

def controlPlatform : Platform := .ofTranscript controlTranscript

def SignedIn (s : ControlState) (m : Signed) : Prop :=
  ∃e∈s.process.shared.history,
    e.Signs controlPlatform samplePeer m.pubkey m.payload.dumpsCanonical

/-- The action reads one of these messages or nothing, and signs with a foreign key. -/
def ControlAction.Hears (ms : List Signed) : ControlAction → Prop
  | .peer (.turn _ a) => a.received=.error (.protocolError .timedOut) ∨ ∃m∈ms,a.received=.ok m.opened
  | .cli _ a => a.received=.error (.protocolError .timedOut) ∨ ∃m∈ms,a.received=.ok m.opened
  | .peer (.sign pubkey _) =>
    peerIdFromPubkey controlPlatform pubkey≠samplePeer.identity.peerId controlPlatform
  | _ => True

/-- The answers of a call that finds a port, reads nothing and sends at the given time. -/
def cliAt (ts : PyFloat) : CliAnswers :=
  ⟨some (.ok (.obj [(lit "tcp_port",.int 40123)])),.ok (),.ok (),ts,true,
    .error (.protocolError .timedOut)⟩

def cliReads (m : Signed) : ControlAction :=
  .cli 0 {cliAt m.ts with received := .ok m.opened}

def peerAt (ts : PyFloat) : Answers := {sampleAnswers with ts := ts,listing := .arr []}

def peerReads (m : Signed) : ControlAction :=
  .peer (.turn 0 {peerAt m.ts with received := .ok m.opened})

def afterwards (s : ControlState) (acts : List ControlAction) : ControlState :=
  ((controlMachine controlPlatform samplePeer).run s acts).getD s

/-- A call has sent its HANDSHAKE. -/
def cliGreeted : ControlState := afterwards ⟨.start,[]⟩
  (.request (lit "~/.agenttorrent") (lit "peers") (.obj [])::
    List.replicate 3 (.cli 0 (cliAt requesterHandshake.ts)))

def exchange : List ControlAction :=
  [.peer (.accept true),.peer (.turn 0 (peerAt requesterHandshake.ts)),
    peerReads requesterHandshake,.peer (.turn 0 (peerAt requesterHandshake.ts)),
    cliReads requesterHandshake,.cli 0 (cliAt requesterPeers.ts)]

/-- The peer has read the command. -/
def commandRead : ControlState :=
  afterwards (afterwards cliGreeted exchange) [peerReads requesterPeers]

/-- The peer has answered the command. -/
def commandAnswered : ControlState := afterwards commandRead
  (List.replicate 2 (.peer (.turn 0 (peerAt requesterPeersResult.ts))))

def Entry.signing (m : Signed) : Entry → Bool
  | .own _ _ (.sealed payload) => m.pubkey=samplePeer.identity.pubkey &&
      canonicalJson controlPlatform payload=.ok m.payload.dumpsCanonical
  | .own _ _ _ => false
  | .foreign pubkey msg => pubkey=m.pubkey && msg=m.payload.dumpsCanonical

/-- The call has sent its command to the given peer. -/
def awaits (remote : PeerId) (call : CliCall) : Bool := match call.pc with
  | .resultRecv r => r=remote
  | _ => false

/-- A call has sent its command to a process with another key. -/
def strangerMet : ControlState := afterwards
  (afterwards cliGreeted
    [.peer (.sign workerKey workerHandshake.payload.dumpsCanonical),
      .peer (.sign workerKey workerPeersResult.payload.dumpsCanonical)])
  [cliReads workerHandshake,.cli 0 (cliAt requesterPeers.ts)]

end Sample

end AgentTorrent
