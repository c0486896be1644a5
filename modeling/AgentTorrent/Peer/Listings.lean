import AgentTorrent.Ledger.FileCrash
import AgentTorrent.Peer.Report

open Framework

namespace AgentTorrent

open Json

section Command

variable (P : Platform)

/-- s.ljust(width), which an f-string writes as :<width -/
def justified (width : Nat) (s : PyStr) : PyStr := s++List.replicate (width-s.length) (codePoint 0x20)

/-- A value as an f-string prints it to a width. None, lists and dicts have no such format. -/
def padded (width : Nat) : Json → Except PyExc PyStr
  | .str s => .ok (justified width s)
  | .bool b => (formatted P (.int b.toInt)).map (justified width)
  | .int n => (formatted P (.int n)).map (justified width)
  | .float f => (formatted P (.float f)).map (justified width)
  | .null | .arr _ | .obj _ => .error .typeError

def balanceLine (data : Json) : Except PyExc Line := do
  let balance ← formatted P (← data.item (lit "balance"))
  return .out (lit "balance: "++balance++lit " credits")

def recordHeader : Line := .out (lit "KIND     JOB        MEMO")

/-- The row of one record. -/
def recordLine (r : Json) : Except PyExc Line := do
  let kind ← padded P 8 (← r.item (lit "kind"))
  let job ← padded P 10 (← ((← r.item (lit "job_id")).orElse (.str (lit "-"))).firstEight)
  let memo ← formatted P (← r.item (lit "memo"))
  return .out (kind++lit " "++job++lit " "++memo)

/-- What cmd_ledger prints without --json. -/
def statementLines (data : Json) : List (Except PyExc Line) :=
  balanceLine P data::.ok recordHeader::match data.item (lit "records")>>=elements with
    | .error e => [.error e]
    | .ok rs => rs.map (recordLine P)

/-- cmd_ledger with what _control_request returned: the lines and the exit code. -/
def cmdLedger (console : Line → Except PyExc Unit) (json : Bool) (data : Json) :
    List Line×Except PyExc Nat :=
  let told := printLines console (if json then [prettyLine P data] else statementLines P data)
  (told.1,told.2.map fun _ => 0)

/-- What the comprehension over the harnesses of a row joins. -/
def harnessText (row : Json) : Except PyExc PyStr := do
  match ← (← row.item (lit "manifest")).item (lit "harnesses") with
  | .obj ms =>
    let names ← ms.mapM fun m => (formatted P m.2).map fun v => m.1++lit " ("++v++lit ")"
    return if names=[] then lit "none (simulated)" else join (lit ", ") names
  | _ => .error .attributeError

/-- v + text -/
def Json.append (text : PyStr) : Json → Except PyExc PyStr
  | .str s => .ok (s++text)
  | _ => .error .typeError

/-- v[:12] -/
def Json.firstTwelve : Json → Except PyExc Json
  | .str s => .ok (.str (s.take 12))
  | .arr xs => .ok (.arr (xs.take 12))
  | _ => .error .typeError

/-- The row of one peer, where fixed is format(v, ".0f"). -/
def peerLine (fixed : Json → Except PyExc PyStr) (row : Json) : Except PyExc Line := do
  let harnesses ← harnessText P row
  let id ← (← (← row.item (lit "peer_id")).firstTwelve).append [codePoint 0x2026]
  let host ← (← row.item (lit "host")).append (lit ":")
  let port ← formatted P (← row.item (lit "tcp_port"))
  let accepts ← formatted P (← (← row.item (lit "manifest")).item (lit "accepts_tasks"))
  let seen ← fixed (← row.item (lit "last_seen"))
  return .out (justified 16 id++lit " "++justified 22 (host++port)++lit " "++
    justified 30 (harnesses.take 29)++lit " "++justified 8 accepts++lit " "++seen)

def peerHeader : Line :=
  .out (lit "PEER ID          ADDRESS                HARNESSES                      "++
    lit "ACCEPTS  LAST SEEN")

def noPeersLine : Line := .out (lit "no live peers in the swarm")

/-- What cmd_peers prints without --json. -/
def peersLines (fixed : Json → Except PyExc PyStr) (data : Json) : List (Except PyExc Line) :=
  if data.truthy then .ok peerHeader::match elements data with
    | .error e => [.error e]
    | .ok rows => rows.map (peerLine P fixed)
  else [.ok noPeersLine]

/-- cmd_peers with what _control_request returned: the lines and the exit code. -/
def cmdPeers (fixed : Json → Except PyExc PyStr) (console : Line → Except PyExc Unit) (json : Bool)
    (data : Json) : List Line×Except PyExc Nat :=
  let told := printLines console (if json then [prettyLine P data] else peersLines P fixed data)
  (told.1,told.2.map fun _ => 0)

end Command

/-- A connection in the ledger branch of _handle_control, which takes the ledger's lock
once for the balance and once more for the records. -/
inductive LedgerQuery
  | balancing
  | listing (balance : Int)
  | answered (balance : Int) (records : List Record)
  | dead
  deriving DecidableEq

def LedgerQuery.turn (L : Ledger) : LedgerQuery → LedgerQuery
  | .balancing => .listing (L.balance selfAccount)
  | .listing b => .answered b L.records
  | q => q

/-- A restart ends what has not been answered. -/
def LedgerQuery.restart : LedgerQuery → LedgerQuery
  | .answered b rs => .answered b rs
  | _ => .dead

inductive QueryAction
  | process (act : Action)
  | ask
  | query (k : Nat)

abbrev Queried := Process×List LedgerQuery

/-- A peer process, and its ledger queries beside it. -/
def queriedMachine (P : Platform) (peer : Peer) : Machine Queried QueryAction where
  init p := p=(.start,[])
  step p
    | .process act => ((processMachine P peer).step p.1 act).map fun q => (q,match act with
      | .restart => p.2.map LedgerQuery.restart
      | _ => p.2)
    | .ask => some (p.1,p.2++[.balancing])
    | .query k => (p.2[k]?).map fun q => (p.1,p.2.set k (q.turn p.1.shared.ledger))

/-- The dict of the i-th record carries the i-th stamp. -/
def recordDicts (stamp : Nat → Stamp) (rs : List Record) : List Json :=
  rs.mapIdx fun i r => recordDict (stamp i) r

/-- The data that answers a ledger command. -/
def statementData (stamp : Nat → Stamp) (balance : Int) (rs : List Record) : Json :=
  .obj [(lit "balance",.int balance),(lit "records",.arr (recordDicts stamp rs))]

/-- The row that a record of the ledger makes. -/
def Record.row (P : Platform) (r : Record) : Line :=
  .out (justified 8 r.kind.text++lit " "++
    justified 10 (((r.jobId.filter (·≠[])).getD (lit "-")).take 8)++lit " "++P.str (.str r.memo))

/-- The balance of self that these records give. -/
def selfBalance (rs : List Record) : Int :=
  Bookkeeping.balance (rs.flatMap Record.entries) selfAccount

/-- What a query knows is a part of the ledger: the balance is that of records which begin
the records that it lists. -/
def LedgerQuery.Sound (now : List Record) : LedgerQuery → Prop
  | .balancing | .dead => True
  | .listing b => ∃old,old<+:now ∧ b=selfBalance old ∧ 0 ≤ b
  | .answered b rs => rs<+:now ∧ ∃old,old<+:rs ∧ b=selfBalance old ∧ 0 ≤ b

section Runs

variable {P : Platform} {peer : Peer} {now later : List Record} {q : LedgerQuery}

theorem LedgerQuery.Sound.mono (h : q.Sound now) (hl : now<+:later) : q.Sound later := by
  cases q with
  | balancing | dead => trivial
  | listing b =>
    obtain ⟨old,hold,hb⟩ := h
    exact ⟨old,hold.trans hl,hb⟩
  | answered b rs => exact ⟨h.1.trans hl,h.2⟩

theorem LedgerQuery.Sound.restart (h : q.Sound now) : q.restart.Sound now := by
  cases q with
  | answered b rs => exact h
  | balancing | listing | dead => trivial

theorem LedgerQuery.Sound.turn {L : Ledger} (h : q.Sound L.records)
    (hb : 0 ≤ L.balance selfAccount) : (q.turn L).Sound L.records := by
  cases q with
  | balancing => exact ⟨L.records,List.prefix_rfl,rfl,hb⟩
  | listing b =>
    obtain ⟨old,hold,he⟩ := h
    exact ⟨List.prefix_rfl,old,hold,he⟩
  | answered b rs => exact h
  | dead => trivial

/-- The ledger of a process only grows, also where it is restarted. -/
theorem ledger_grows {p p' : Process} {act : Action} (hr : (processMachine P peer).Reachable p)
    (hs : (processMachine P peer).step p act=some p') :
    p.shared.ledger.records<+:p'.shared.ledger.records := by
  cases act with
  | turn i a =>
    simp only [processMachine] at hs
    split at hs
    · cases hs
    · rename_i t ht
      cases hs
      have hm := threadStep_move P peer a p.shared.ledger t
      obtain ⟨he,-⟩ | ⟨r,-,he⟩ := threadMove_ledger hm
      · exact Eq.subst (motive := fun L => p.shared.ledger.records<+:Ledger.records L) he.symm
          List.prefix_rfl
      · exact Eq.subst (motive := fun L => p.shared.ledger.records<+:Ledger.records L) he.symm
          (List.prefix_append _ _)
  | restart =>
    cases hs
    obtain ⟨w,hw⟩ := reachable_books hr
    change p.shared.ledger.records<+:(Ledger.load p.shared.ledger.disk).records
    rw [hw.load_eq]
  | call | accept | sign =>
    cases hs
    exact List.prefix_rfl

theorem queries_sound {p : Queried} (h : (queriedMachine P peer).Reachable p) :
    (processMachine P peer).Reachable p.1 ∧ ∀q∈p.2,q.Sound p.1.shared.ledger.records := by
  refine @Machine.Reachable.invariant _ _ (queriedMachine P peer)
    (fun p => (processMachine P peer).Reachable p.1 ∧
      ∀q∈p.2,q.Sound p.1.shared.ledger.records) ?_ ?_ p h
  · intro p hp
    cases hp
    exact ⟨.start _ rfl,fun q hq => by cases hq⟩
  · intro p act p' hp hs
    obtain ⟨hr,hq⟩ := hp
    cases act with
    | process act =>
      obtain ⟨u,hu,rfl⟩ := Option.map_eq_some_iff.mp hs
      have grows := ledger_grows hr hu
      have hreach : (processMachine P peer).Reachable u :=
        @Machine.Reachable.extend _ _ (processMachine P peer) _ _ [act] hr (by simp [hu])
      refine ⟨hreach,?_⟩
      have kept : ∀q∈p.2,q.Sound u.shared.ledger.records := fun q hm => (hq q hm).mono grows
      cases act with
      | restart =>
        intro q hm
        obtain ⟨q₀,hq₀,rfl⟩ := List.mem_map.mp hm
        exact (kept q₀ hq₀).restart
      | call | accept | sign | turn => exact kept
    | ask =>
      cases hs
      refine ⟨hr,fun q hm => ?_⟩
      obtain hm | hm := List.mem_append.mp hm
      · exact hq q hm
      · rw [List.mem_singleton.mp hm]
        trivial
    | query k =>
      obtain ⟨q₀,hk,rfl⟩ := Option.map_eq_some_iff.mp hs
      refine ⟨hr,fun q hm => ?_⟩
      obtain hm | rfl := List.mem_or_eq_of_mem_set hm
      · exact hq q hm
      · obtain ⟨w,hw⟩ := reachable_books hr
        exact (hq q₀ (List.mem_of_getElem? hk)).turn hw.sound.selfNonneg

end Runs

section Printing

variable {P : Platform} {stamp : Nat → Stamp} {console : Line → Except PyExc Unit}

theorem formatted_str (s : PyStr) : formatted P (.str s)=.ok (P.str (.str s)) := rfl

/-- No record of a ledger lacks a key, or has a value of another type. -/
theorem recordLine_dict (st : Stamp) (r : Record) :
    recordLine P (recordDict st r)=.ok (r.row P) := by
  have job : ((jobIdJson r.jobId).orElse (.str (lit "-"))).firstEight=
      .ok (.str (((r.jobId.filter (·≠[])).getD (lit "-")).take 8)) := by
    cases r.jobId with
    | none => rfl
    | some j => cases j with
      | nil => rfl
      | cons c cs => rfl
  have hjob : (recordDict st r).item (lit "job_id")=.ok (jobIdJson r.jobId) := rfl
  have hkind : (recordDict st r).item (lit "kind")=.ok (.str r.kind.text) := rfl
  have hmemo : (recordDict st r).item (lit "memo")=.ok (.str r.memo) := rfl
  simp only [recordLine,hkind,hjob,hmemo,bind,Except.bind,job,padded,formatted_str]
  rfl

theorem statementLines_data (b : Int) (rs : List Record) :
    statementLines P (statementData stamp b rs)=
      (.out (lit "balance: "++P.str (.int b)++lit " credits")::recordHeader::
        rs.map (Record.row P)).map .ok := by
  have hb : balanceLine P (statementData stamp b rs)=
      .ok (.out (lit "balance: "++P.str (.int b)++lit " credits")) := rfl
  have hrows : (recordDicts stamp rs).map (recordLine P)=(rs.map (Record.row P)).map .ok := by
    apply List.ext_getElem?
    intro i
    simp only [recordDicts,List.getElem?_map,List.getElem?_mapIdx,Option.map_map,
      Function.comp_def,recordLine_dict]
  change balanceLine P _::.ok recordHeader::(recordDicts stamp rs).map (recordLine P)=_
  rw [hb,hrows]
  rfl

theorem printLines_all {ls : List Line} (h : ∀line∈ls,console line=.ok ()) :
    printLines console (ls.map .ok)=(ls,.ok ()) := by
  induction ls with
  | nil => rfl
  | cons line ls ih =>
    have hl : console line=.ok () := h line List.mem_cons_self
    rw [List.map_cons,printLines,hl,ih fun l hl => h l (List.mem_cons_of_mem _ hl)]

/-- PeerInfo.to_dict, where clock gives a time as time.time() does. -/
def PeerInfo.toDict (clock : Time → PyFloat) (row : PeerInfo) : Json :=
  .obj [(lit "peer_id",.str row.peerId.val),(lit "host",.str row.host),
    (lit "tcp_port",row.tcpPort),(lit "manifest",row.manifest.json),
    (lit "last_seen",.float (clock row.lastSeen))]

theorem formatted_flat {v : Json} (h : v.depth=0) : formatted P v=.ok (P.str v) := by
  simp only [formatted,Platform.pyStr,h,Nat.not_lt_zero,if_false]
  rfl

theorem mapM_ok {α β ε : Type} {f : α → Except ε β} {g : α → β} {xs : List α}
    (h : ∀x∈xs,f x=.ok (g x)) : xs.mapM f=.ok (xs.map g) := by
  induction xs with
  | nil => rfl
  | cons x xs ih =>
    rw [List.mapM_cons,h x List.mem_cons_self,ih fun y hy => h y (List.mem_cons_of_mem _ hy)]
    rfl

theorem isPort_depth {v : Json} (h : isPort v=true) : v.depth=0 := by
  cases v with
  | arr | obj => cases h
  | _ => rfl

theorem harnessText_row {row : Json} {m : Manifest} (h : row.item (lit "manifest")=.ok m.json) :
    ∃text,harnessText P row=.ok text := by
  obtain ⟨-,⟨ms,hms,hstr⟩,-,-⟩ := (manifestProblems_nil_iff _).mp m.valid.2
  have hitem : m.json.item (lit "harnesses")=.ok (.obj ms) := (Json.item_ok_iff _ _ _).mpr hms
  have hnames : (ms.mapM fun n => (formatted P n.2).map fun v => n.1++lit " ("++v++lit ")")=
      .ok (ms.map fun n => n.1++lit " ("++P.str n.2++lit ")") := by
    apply mapM_ok
    intro n hn
    obtain ⟨s,hs⟩ := hstr n hn
    rw [hs]
    rfl
  simp only [harnessText,h,hitem,hnames,bind,Except.bind]
  exact ⟨_,rfl⟩

/-- No row of the table, whatever beacon it came from, fails to print. -/
theorem peerLine_toDict {fixed : Json → Except PyExc PyStr}
    (hf : ∀f : PyFloat,∃s,fixed (.float f)=.ok s) (clock : Time → PyFloat) {row : PeerInfo}
    (hp : isPort row.tcpPort=true) : ∃line,peerLine P fixed (row.toDict clock)=.ok line := by
  obtain ⟨-,-,-,⟨b,hb⟩⟩ := (manifestProblems_nil_iff _).mp row.manifest.valid.2
  have hmanifest : (row.toDict clock).item (lit "manifest")=.ok row.manifest.json := rfl
  have hid : (row.toDict clock).item (lit "peer_id")=.ok (.str row.peerId.val) := rfl
  have hhost : (row.toDict clock).item (lit "host")=.ok (.str row.host) := rfl
  have hport : (row.toDict clock).item (lit "tcp_port")=.ok row.tcpPort := rfl
  have hlast : (row.toDict clock).item (lit "last_seen")=.ok (.float (clock row.lastSeen)) := rfl
  have haccepts : row.manifest.json.item (lit "accepts_tasks")=.ok (.bool b) :=
    (Json.item_ok_iff _ _ _).mpr hb
  obtain ⟨text,htext⟩ := harnessText_row (P := P) hmanifest
  obtain ⟨seen,hseen⟩ := hf (clock row.lastSeen)
  simp only [peerLine,htext,hid,hhost,hport,hmanifest,haccepts,hlast,hseen,
    formatted_flat (isPort_depth hp),bind,Except.bind]
  exact ⟨_,rfl⟩

end Printing

/-- What mesh ledger prints, however the two reads of a query fall between the bookings of
other threads and the restarts of the process: the rows are the records that the ledger
began with, in their order, and the balance, which is never negative, is that of some of
the first of these rows. The command raises nothing of its own. -/
theorem statement_printed {P : Platform} {peer : Peer} {p : Queried}
    (h : (queriedMachine P peer).Reachable p) {k : Nat} {b : Int} {rs : List Record}
    (hk : p.2[k]?=some (.answered b rs)) (stamp : Nat → Stamp)
    {console : Line → Except PyExc Unit} (hc : ∀line,console line=.ok ()) :
    (∃later,p.1.shared.ledger.records=rs++later) ∧
    (∃old between,rs=old++between ∧ b=selfBalance old ∧ 0 ≤ b) ∧
    cmdLedger P console false (statementData stamp b rs)=
      (.out (lit "balance: "++P.str (.int b)++lit " credits")::recordHeader::rs.map (Record.row P),
        .ok 0) := by
  obtain ⟨⟨later,hl⟩,old,⟨between,ho⟩,hb⟩ := (queries_sound h).2 _ (List.mem_of_getElem? hk)
  refine ⟨⟨later,hl.symm⟩,⟨old,between,ho.symm,hb⟩,?_⟩
  simp only [cmdLedger,Bool.false_eq_true,if_false,statementLines_data]
  rw [printLines_all fun line _ => hc line]
  rfl

section Sample

/-- A delegation books its escrow between the two reads of a query. -/
def tornQuery : List QueryAction :=
  let turn := QueryAction.process (.turn 0 sampleAnswers)
  [.process (.call sampleArgs),turn,turn,.ask,.query 0,turn,.query 0]

def tornlyQueried : Queried :=
  ((queriedMachine samplePlatform samplePeer).run (.start,[]) tornQuery).getD (.start,[])

def tornRecords : List Record := [openingRecord,escrowRecord sampleAnswers.uuid workerId.val]

theorem statement_printed_sample : selfBalance tornRecords=9 ∧
    cmdLedger samplePlatform openConsole false
        (statementData (fun _ => sampleStamp) 10 tornRecords)=
      (.out (lit "balance: "++samplePlatform.str (.int 10)++lit " credits")::recordHeader::
        tornRecords.map (Record.row samplePlatform),.ok 0) := by
  have hr : ((queriedMachine samplePlatform samplePeer).run (.start,[]) tornQuery).isSome=true := by
    decide
  have hreach : (queriedMachine samplePlatform samplePeer).Reachable tornlyQueried :=
    ⟨_,_,rfl,Machine.run_getD _ hr⟩
  have hk : tornlyQueried.2[0]?=some (.answered 10 tornRecords) := by decide
  exact ⟨by decide,(statement_printed hreach hk (fun _ => sampleStamp) fun _ => rfl).2.2⟩

/-- format(v, ".0f") for the clock readings of the sample, which are below one half. -/
def wholeSeconds : Json → Except PyExc PyStr
  | .float f => .ok (ofAscii (f.repr.takeWhile fun b => b≠0x2e))
  | _ => .error .typeError

/-- A beacon came twice, and bytes that are none in between. -/
def heardBeacons : List DiscoveryEvent :=
  [.received (.datagram (beaconAt 100)),.received (.datagram ⟨[0xff],lit "10.0.0.9",101⟩),
    .received (.datagram (beaconAt 102))]

end Sample

end AgentTorrent
