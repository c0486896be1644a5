import AgentTorrent.ApiHarness
import AgentTorrent.Cli
import AgentTorrent.Peer.Outcome
import AgentTorrent.Python.JsonPretty

open Framework

namespace AgentTorrent

/-- A line that a command prints, on standard output or on standard error. -/
inductive Line
  | out (text : PyStr)
  | err (text : PyStr)
  deriving DecidableEq

/-- v[:8] -/
def Json.firstEight : Json → Except PyExc Json
  | .str s => .ok (.str (s.take 8))
  | .arr xs => .ok (.arr (xs.take 8))
  | _ => .error .typeError

def refundedLine : Line := .err (lit "escrowed credit was refunded")

section Command

variable (P : Platform)

/-- A value as an f-string prints it. -/
def formatted (v : Json) : Except PyExc PyStr := do
  P.pyStr v
  return P.str v

/-- json.dumps(result, indent=2) -/
def prettyLine (result : Json) : Except PyExc Line :=
  if P.dumpsDepth < result.depth then .error .recursionError
  else if result.intsAll P.intPrints then .ok (.out (ofAscii result.dumpsIndent))
  else .error .valueError

def completedLine (result : Json) : Except PyExc Line := do
  let job ← formatted P (← (← result.item (lit "job_id")).firstEight)
  let worker ← formatted P (← (← result.item (lit "worker")).firstEight)
  let harness ← formatted P (← result.item (lit "harness"))
  let seconds ← formatted P (← result.item (lit "runtime_seconds"))
  return .out (lit "job "++job++lit " completed by "++worker++lit " via "++harness++lit " in "++
    seconds++lit "s")

def outputLine (result : Json) : Except PyExc Line := do
  let output ← formatted P (← result.item (lit "output"))
  return .out output

def failedLine (status result : Json) : Except PyExc Line := do
  let shown ← formatted P status
  let error ← formatted P (← result.getD (lit "error") .null)
  return .err (lit "delegation "++shown++lit ": "++error)

/-- What cmd_delegate prints of a result, unless an exception stops it. -/
def resultLines (status result : Json) : List (Except PyExc Line) :=
  if status.isStr (lit "ok") then
    [completedLine P result,.ok (.out (lit "--- result ---")),outputLine P result]
  else failedLine P status result::
    if ((result.get? (lit "refunded")).getD .null).truthy then [.ok refundedLine] else []

/-- The lines are printed in turn, up to the first exception. -/
def printLines (console : Line → Except PyExc Unit) :
    List (Except PyExc Line) → List Line×Except PyExc Unit
  | [] => ([],.ok ())
  | .error e::_ => ([],.error e)
  | .ok line::rest => match console line with
    | .error e => ([],.error e)
    | .ok () =>
      let printed := printLines console rest
      (line::printed.1,printed.2)

/-- cmd_delegate with what _control_request returned: the lines and the exit code. -/
def cmdDelegate (console : Line → Except PyExc Unit) (json : Bool) (result : Json) :
    List Line×Except PyExc Nat :=
  let told := match json,result.item (lit "status") with
    | true,_ => printLines console [prettyLine P result]
    | false,.error e => ([],.error e)
    | false,.ok status => printLines console (resultLines P status result)
  (told.1,do
    told.2
    let status ← result.item (lit "status")
    return if status.isStr (lit "ok") then 0 else 2)

end Command

/-- What the peer may answer on a control connection, on which these records were booked. -/
inductive ControlTold (rs : List Record) : Json → Prop
  | error (msg : PyStr) : ControlTold rs (controlError msg)
  | peers (rows : List Json) : ControlTold rs (controlOk (.arr rows))
  | ledger (balance records : Json) :
      ControlTold rs (controlOk (.obj [(lit "balance",balance),(lit "records",records)]))
  | delegated (r : DelegateResult) (h : Outcome (.ok r) rs) : ControlTold rs (controlOk r.toJson)

/-- The connection is about to send nothing but what may be told. -/
def ServePc.Tells (rs : List Record) : ServePc → Prop
  | .controlSend body => ControlTold rs body
  | _ => True

/-- The thread does nothing more. -/
def Thread.ended : Thread → Bool
  | .gone | .serve _ (.finished _) => true
  | _ => false

/-- discovery.peers() is listed as a list. -/
def Listed (a : Answers) (_ : Shared) (_ : Thread) : Prop := ∃rows,a.listing=.arr rows

section Steps

variable {P : Platform} {peer : Peer} {loopback : Bool} {a : Answers} {L : Ledger}
  {rs : List Record}

theorem hangUp_tells (e : PyExc) : (hangUp e).Tells rs := by
  cases e <;> trivial

theorem controlFault_tells (e : PyExc) : (controlFault P e).Tells rs := by
  cases e with
  | keyError key => exact .error _
  | ledgerError msg => exact .error _
  | _ => trivial

theorem handleControl_tells (sender : PeerId) (o : Opened) :
    (handleControl P peer loopback sender o).Tells rs := by
  unfold handleControl
  split_ifs
  · exact .error _
  · dsimp only
    split
    · exact hangUp_tells _
    · split
      · exact hangUp_tells _
      · split_ifs
        · trivial
        · trivial
        · split
          · exact controlFault_tells _
          · trivial
        · split
          · exact hangUp_tells _
          · exact .error _

theorem refuseJob_tells (job : Job) : (refuseJob P peer job).Tells rs := by
  simp only [refuseJob]
  split_ifs <;> trivial

theorem considerOffer_tells (requester : PeerId) (o : Opened) :
    (considerOffer P peer requester o).Tells rs := by
  unfold considerOffer
  split
  · exact hangUp_tells _
  · split_ifs
    · trivial
    · split
      · trivial
      · exact hangUp_tells _
      · split_ifs
        · trivial
        · exact refuseJob_tells _

theorem serveSend_tells {msgType : PyStr} {body : Json} {next : ServePc} (hn : next.Tells rs) :
    (serveSend P peer a msgType body next).1.Tells rs := by
  unfold serveSend
  split
  · exact hangUp_tells _
  · dsimp only
    split_ifs
    · exact hn
    · trivial

/-- A step that comes to the answer takes it from what was booked. -/
theorem serveStep_tells {pc : ServePc} (hl : ∃rows,a.listing=.arr rows)
    (ho : ∀args o,pc=.control args (.finished o) → Outcome o rs) :
    (serveStep P peer loopback a L pc).2.1.Tells rs := by
  cases pc with
  | start =>
    simp only [serveStep]
    split_ifs
    · trivial
    · exact hangUp_tells .osError
  | handshakeRecv =>
    simp only [serveStep]
    split
    · exact hangUp_tells _
    · trivial
  | handshakeSend remote => exact serveSend_tells trivial
  | requestRecv remote =>
    simp only [serveStep]
    split
    · exact hangUp_tells _
    · rename_i o hr
      dsimp only [dispatch]
      split_ifs
      · exact handleControl_tells remote o
      · exact considerOffer_tells remote o
  | rejectSend body => exact serveSend_tells trivial
  | acceptSend requester job => exact serveSend_tells trivial
  | execute requester job =>
    simp only [serveStep]
    split
    · exact hangUp_tells _
    · trivial
  | resultSend requester job result =>
    refine serveSend_tells ?_
    split_ifs <;> trivial
  | credit requester job =>
    simp only [serveStep]
    split
    · trivial
    · trivial
    · exact hangUp_tells _
  | listPeers =>
    simp only [serveStep]
    obtain ⟨rows,hrows⟩ := hl
    split
    · exact hangUp_tells .assertionError
    · rw [hrows]
      exact .peers rows
  | listLedger => exact .ledger _ _
  | control args d =>
    cases d with
    | finished o =>
      have hb := ho args o rfl
      cases o with
      | ok r => exact .delegated r hb
      | error e => exact controlFault_tells e
    | _ => trivial
  | controlSend body => exact serveSend_tells trivial
  | finished escaped => trivial

/-- Where the answer is next, the step has shown nothing yet. -/
theorem serveStep_quiet {pc : ServePc} {body : Json}
    (h : (serveStep P peer loopback a L pc).2.1=.controlSend body) :
    (serveStep P peer loopback a L pc).2.2=none := by
  have move (hc : ∀args d,pc=.control args d → ∃o,d=.finished o) :
      (serveStep P peer loopback a L pc).2.2=none := by
    have hm := serveStep_move P peer loopback a L pc hc
    rw [h] at hm
    generalize (serveStep P peer loopback a L pc).1=L' at hm
    generalize (serveStep P peer loopback a L pc).2.2=event at hm ⊢
    cases hm with
    | say _ _ _ _ _ hs => cases hs
    | failed _ _ _ _ _ hs => cases hs
    | _ => rfl
  cases pc with
  | control args d => cases d with
    | finished o => rfl
    | _ => cases h
  | _ => exact move fun _ _ hc => by cases hc

theorem serveSend_seals {msgType : PyStr} {body payload : Json} {next : ServePc}
    (h : (serveSend P peer a msgType body next).2=some (.sealed payload)) :
    sealMessage P peer.identity a.ts msgType body=.ok payload := by
  unfold serveSend at h
  split at h
  · cases h
  · rename_i sealed hs
    cases h
    exact hs

/-- The only step that seals a CONTROL_RESULT sends the answer, and it is the last one. -/
theorem serveStep_seals {pc : ServePc} {payload : Json}
    (hc : ∀args d,pc=.control args d → ∃o,d=.finished o)
    (h : (serveStep P peer loopback a L pc).2.2=some (.sealed payload))
    (ht : payload.strField (lit "type")=msgControlResult) : ∃body,pc=.controlSend body ∧
      payload.get? (lit "body")=some body ∧
      (Thread.serve loopback (serveStep P peer loopback a L pc).2.1).ended=true := by
  have other {msgType : PyStr} {body : Json} {next : ServePc} {Q : Prop}
      (hn : msgType≠msgControlResult)
      (h : (serveSend P peer a msgType body next).2=some (.sealed payload)) : Q :=
    absurd ((sealMessage_type (serveSend_seals h)).symm.trans ht) hn
  cases pc with
  | handshakeSend | rejectSend | acceptSend | resultSend => exact other (by decide) h
  | requestRecv remote =>
    simp only [serveStep] at h
    split at h
    · cases h
    · dsimp only at h
      cases hd : dispatch P peer loopback remote _ with
      | control args d =>
        rw [hd] at h
        cases h
      | _ =>
        rw [hd] at h
        cases h
  | control args d =>
    obtain ⟨o,rfl⟩ := hc args d rfl
    cases h
  | execute | credit | handshakeRecv | listPeers =>
    simp only [serveStep] at h
    split at h <;> cases h
  | start =>
    simp only [serveStep] at h
    split_ifs at h
  | listLedger | finished => cases h
  | controlSend body =>
    have hs := serveSend_seals h
    refine ⟨body,rfl,?_,?_⟩
    · obtain ⟨rfl,-⟩ := sealMessage_ok P hs
      rfl
    · simp only [serveStep,serveSend,hs]
      split_ifs <;> rfl

/-- A call of delegate seals no CONTROL_RESULT. -/
theorem delegateStep_seals {args : DelegateArgs} {pc : DelegatePc} {payload : Json}
    (h : (delegateStep P peer args a L pc).2.2=some (.sealed payload)) :
    payload.strField (lit "type")≠msgControlResult := by
  have hm := delegateStep_move P peer args a L pc
  rw [h] at hm
  generalize (delegateStep P peer args a L pc).1=L' at hm
  generalize (delegateStep P peer args a L pc).2.1=next at hm
  cases hm with
  | greet job worker _ _ hn hp =>
    rw [sealMessage_type hp]
    decide
  | offer job worker _ _ hn hp =>
    rw [sealMessage_type hp]
    decide

/-- What a thread that has ended does. -/
theorem threadStep_ended {t : Thread} (h : t.ended=true) : threadStep P peer a L t=(L,t,none) := by
  cases t with
  | delegate args pc => cases h
  | gone => rfl
  | serve loopback pc => cases pc with
    | finished escaped => rfl
    | _ => cases h

/-- Only a connection that is to answer seals a CONTROL_RESULT, and it has ended then. -/
theorem threadStep_seals {t : Thread} {payload : Json}
    (h : (threadStep P peer a L t).2.2=some (.sealed payload))
    (ht : payload.strField (lit "type")=msgControlResult) :
    (threadStep P peer a L t).2.1.ended=true ∧ ∃loopback body,
      t=.serve loopback (.controlSend body) ∧ payload.get? (lit "body")=some body := by
  have outside {loopback : Bool} {pc : ServePc} (hc : ∀args d,pc=.control args d → ∃o,d=.finished o)
      (h : (threadStep P peer a L (.serve loopback pc)).2.2=some (.sealed payload)) :
      (threadStep P peer a L (.serve loopback pc)).2.1.ended=true ∧ ∃lb body,
        Thread.serve loopback pc=.serve lb (.controlSend body) ∧
          payload.get? (lit "body")=some body := by
    obtain ⟨body,rfl,hb,ho⟩ := serveStep_seals hc h ht
    exact ⟨ho,loopback,body,rfl,hb⟩
  cases t with
  | delegate args pc => exact absurd ht (delegateStep_seals h)
  | gone => cases h
  | serve loopback pc =>
    cases pc with
    | control args d => cases d with
      | finished o => exact outside (fun _ _ hc => by cases hc; exact ⟨o,rfl⟩) h
      | _ => exact absurd ht (delegateStep_seals h)
    | _ => exact outside (fun _ _ hc => by cases hc) h

end Steps

/-- What thread i has told, and is about to tell, is what it booked. -/
structure ToldRight (s : Shared) (i : Nat) (t : Thread) : Prop where
  pending : ∀loopback pc,t=.serve loopback pc → pc.Tells (bookings i s.history)
  sent : ∀c payload,Entry.own i c (.sealed payload)∈s.history →
    payload.strField (lit "type")=msgControlResult → t.ended=true ∧
      ∃body,payload.get? (lit "body")=some body ∧ ControlTold (bookings i s.history) body

section Runs

variable {P : Platform} {peer : Peer} {a : Answers} {s s' : Shared} {i : Nat} {t : Thread}

theorem ToldRight.frame (h : ToldRight s i t)
    (hb : bookings i s'.history=bookings i s.history)
    (hm : ∀c event,Entry.own i c event∈s'.history → Entry.own i c event∈s.history) :
    ToldRight s' i t where
  pending loopback pc ht := by
    rw [hb]
    exact h.pending loopback pc ht
  sent c payload hp ht := by
    rw [hb]
    exact h.sent c payload (hm c _ hp) ht

/-- A thread that has just been born has nothing to tell. -/
theorem reported_born (hn : ∀c event,Entry.own i c event∉s.history) (ht : t.Born) :
    ToldRight s i t where
  pending loopback pc he := by
    rcases ht with ⟨args,rfl⟩ | ⟨loopback',rfl⟩
    · cases he
    · cases he
      trivial
  sent c payload hp _ := absurd hp (hn c _)

theorem bookings_quiet {c : Bool} {L : Ledger} :
    bookings i (s.book i c L none).history=bookings i s.history := by
  simp [Shared.book]

/-- The turn of the thread itself. -/
theorem reported_own (hl : Listed a s t) (h : ToldRight s i t)
    (hc : ∀pc,t.call=some pc → CallBooked (bookings i s.history) pc) :
    ToldRight (takeTurn P peer i a s t).1 i (takeTurn P peer i a s t).2 := by
  by_cases ho : t.ended=true
  · simp only [takeTurn,threadStep_ended ho]
    exact h.frame bookings_quiet fun c event hm => by simpa [Shared.book] using hm
  · constructor
    · intro loopback next hn
      change (threadStep P peer a s.ledger t).2.1=.serve loopback next at hn
      cases next with
      | controlSend body =>
        cases t with
        | delegate args pc => cases hn
        | gone => cases hn
        | serve loopback' pc =>
          obtain ⟨-,hn⟩ := Thread.serve.inj hn
          have hq : (threadStep P peer a s.ledger (.serve loopback' pc)).2.2=none :=
            serveStep_quiet hn
          simp only [takeTurn,hq,bookings_quiet]
          rw [← hn]
          apply serveStep_tells hl
          intro args o hpc
          subst hpc
          exact hc (.finished o) rfl
      | _ => trivial
    · intro c payload hm ht
      rcases mem_book.mp hm with hm | ⟨event,he,hm⟩
      · exact absurd (h.sent c payload hm ht).1 ho
      · cases hm
        obtain ⟨hended,loopback,body,rfl,hb⟩ := threadStep_seals he ht
        refine ⟨hended,body,hb,?_⟩
        have hk : bookings i (s.book i false (threadStep P peer a s.ledger
            (.serve loopback (.controlSend body))).1 (threadStep P peer a s.ledger
            (.serve loopback (.controlSend body))).2.2).history=bookings i s.history :=
          bookings_book_other (.inr rfl)
        change ControlTold (bookings i (s.book i false _ _).history) body
        rw [hk]
        exact h.pending loopback _ rfl

/-- Each thread keeps to what it booked, whatever else goes on. -/
theorem reachable_reported {p : Process}
    (h : (processMachine P peer).ReachableBy (onTurns Listed) p) :
    ∀i t,p.threads[i]?=some t → ToldRight p.shared i t := by
  refine @Machine.ReachableBy.invariant _ _ (processMachine P peer) _
    (fun p => ∀i t,p.threads[i]?=some t → ToldRight p.shared i t) ?_ ?_ p h
  · intro p hp i t ht
    cases hp
    cases ht
  · intro p act q hr hp hs hg
    have account := (reachable_account P peer hr).shared
    refine (process_move (H := fun _ => True) hs hg trivial).each ?_ ?_ hp ?_ ?_ ?_
    · intro i t s t' hi hm
      obtain ⟨-,a,hl,he⟩ := hm
      cases he
      exact reported_own hl (hp i t hi)
        fun pc hc => (reachable_told P peer hr i t pc hi hc).booked
    · intro i t s t' k u hi hk hki hm
      obtain ⟨-,a,-,he⟩ := hm
      cases he
      apply (hp k u hk).frame (bookings_book_other (.inl hki))
      intro c event hm
      rcases mem_book.mp hm with hm | ⟨ev,-,hm⟩
      · exact hm
      · cases hm
        exact absurd rfl hki
    · intro t ht
      refine reported_born ?_ ht
      intro c event hm
      exact absurd (account.born _ c event hm) (lt_irrefl _)
    · intro s i t hi hm
      obtain ⟨pubkey,msg,-,rfl⟩ := hm
      apply (hp i t hi).frame (bookings_hear pubkey msg)
      intro c event hm
      rcases List.mem_append.mp hm with hm | hm
      · exact hm
      · cases List.mem_singleton.mp hm
    · intro s u i t hi hm
      obtain ⟨-,rfl,rfl⟩ := hm
      constructor
      · intro loopback pc he
        cases he
      · intro c payload hm ht
        exact ⟨rfl,((hp i t hi).sent c payload hm ht).2⟩

end Runs

section Command

variable {P : Platform} {console : Line → Except PyExc Unit} {json : Bool} {result status : Json}
  {lines : List Line} {code : Nat}

theorem printLines_ok {ls : List (Except PyExc Line)}
    (h : printLines console ls=(lines,.ok ())) : ls=lines.map .ok := by
  induction ls generalizing lines with
  | nil =>
    cases h
    rfl
  | cons l ls ih =>
    cases l with
    | error e => cases h
    | ok line =>
      simp only [printLines] at h
      split at h
      · cases h
      · obtain ⟨rfl,hr⟩ := Prod.mk.inj h
        rw [List.map_cons,← ih (Prod.ext rfl hr)]

theorem cmdDelegate_code (h : cmdDelegate P console json result=(lines,.ok code)) :
    ∃status,result.get? (lit "status")=some status ∧
      code=(if status.isStr (lit "ok") then 0 else 2) ∧
      (json=false → resultLines P status result=lines.map .ok) := by
  obtain ⟨hl,hc⟩ := Prod.mk.inj h
  obtain ⟨_,hp,hc⟩ := except_bind_ok.mp hc
  obtain ⟨status,hs,hc⟩ := except_bind_ok.mp hc
  refine ⟨status,(Json.item_ok_iff _ _ _).mp hs,(Except.ok.inj hc).symm,?_⟩
  intro hj
  subst hj
  simp only [hs] at hl hp
  exact printLines_ok (Prod.ext hl hp)

theorem completedLine_out {line : Line} (h : completedLine P result=.ok line) :
    ∃text,line=.out text := by
  simp only [completedLine,except_bind_ok] at h
  obtain ⟨_,_,_,_,_,_,_,_,_,_,_,_,_,_,_,_,_,_,_,_,h⟩ := h
  exact ⟨_,(Except.ok.inj h).symm⟩

theorem outputLine_out {line : Line} (h : outputLine P result=.ok line) :
    ∃text,line=.out text := by
  simp only [outputLine,except_bind_ok] at h
  obtain ⟨_,_,_,_,h⟩ := h
  exact ⟨_,(Except.ok.inj h).symm⟩

theorem failedLine_other : failedLine P status result≠.ok refundedLine := by
  intro h
  simp only [failedLine,except_bind_ok] at h
  obtain ⟨shown,-,_,-,error,-,h⟩ := h
  have ht : lit "delegation "++shown++lit ": "++error=lit "escrowed credit was refunded" :=
    Line.err.inj (Except.ok.inj h)
  have hd := congrArg List.head? ht
  have hh : (lit "delegation ").head?=some (codePoint 100) := by decide
  rw [List.append_assoc,List.append_assoc,List.head?_append,hh,Option.some_or] at hd
  exact absurd hd (by decide)

/-- The refund is told exactly where the result is a failure that says so. -/
theorem refundedLine_printed (h : resultLines P status result=lines.map .ok) :
    refundedLine∈lines ↔ status.isStr (lit "ok")=false ∧
      ((result.get? (lit "refunded")).getD .null).truthy=true := by
  have member : refundedLine∈lines ↔ .ok refundedLine∈resultLines P status result := by
    rw [h]
    simp
  rw [member]
  unfold resultLines
  split_ifs with hs hr
  · simp only [hs,List.mem_cons,List.not_mem_nil,or_false]
    constructor
    · intro hm
      rcases hm with hm | hm | hm
      · obtain ⟨text,ht⟩ := completedLine_out hm.symm
        cases ht
      · cases hm
      · obtain ⟨text,ht⟩ := outputLine_out hm.symm
        cases ht
    · intro hm
      cases hm.1
  · simp [hs,hr]
  · simp only [hr,List.mem_cons,List.not_mem_nil,or_false]
    constructor
    · intro hm
      exact absurd hm.symm failedLine_other
    · intro hm
      cases hm.2

end Command

/-- For the job and the worker that the result names, an escrow was booked and what
closed it. -/
def BookedFor (result : Json) (rs : List Record) (close : PyStr → PyStr → Record) : Prop :=
  ∃j w,result.get? (lit "job_id")=some (.str j) ∧ result.get? (lit "worker")=some (.str w) ∧
    rs=[escrowRecord j w,close j w]

section Told

variable {rs : List Record} {body data status : Json}

theorem closed_differently {j j' w w' u : PyStr} :
    [escrowRecord j u,refundRecord j]≠[escrowRecord j' w',settleRecord j' w] := by
  intro h
  have hk : [RecordKind.escrow,.refund]=[.escrow,.settle] := congrArg (List.map Record.kind) h
  cases hk

/-- What cmd_delegate makes of the dict of a delegation. -/
theorem cmdDelegate_outcome {P : Platform} {console : Line → Except PyExc Unit} {json : Bool}
    {r : DelegateResult} {lines : List Line} {code : Nat} (ho : Outcome (.ok r) rs)
    (hc : cmdDelegate P console json r.toJson=(lines,.ok code)) :
    (code=0 ∧ BookedFor r.toJson rs settleRecord ∨
      code=2 ∧ (rs=[] ∨ BookedFor r.toJson rs fun j _ => refundRecord j)) ∧
    (json=false → (refundedLine∈lines ↔ BookedFor r.toJson rs fun j _ => refundRecord j)) := by
  obtain ⟨status,hs,hcode,hlines⟩ := cmdDelegate_code hc
  have printed {b : Prop} (hb : status.isStr (lit "ok")=false ∧
      ((r.toJson.get? (lit "refunded")).getD .null).truthy=true ↔ b) :
      json=false → (refundedLine∈lines ↔ b) :=
    fun hj => (refundedLine_printed (hlines hj)).trans hb
  cases ho with
  | refused error =>
    cases hs
    refine ⟨.inr ⟨hcode,.inl rfl⟩,printed ?_⟩
    constructor
    · intro h
      cases h.2
    · intro h
      obtain ⟨j,w,-,-,h⟩ := h
      cases h
  | paid j w harness simulated runtimeSeconds output =>
    cases hs
    refine ⟨.inl ⟨hcode,j,w.val,rfl,rfl,rfl⟩,printed ?_⟩
    constructor
    · intro h
      cases h.1
    · intro h
      obtain ⟨j',w',-,-,h⟩ := h
      exact absurd h.symm closed_differently
  | rejected j w error | failed j w error =>
    cases hs
    refine ⟨.inr ⟨hcode,.inr ⟨j,w.val,rfl,rfl,rfl⟩⟩,printed ?_⟩
    exact ⟨fun _ => ⟨j,w.val,rfl,rfl,rfl⟩,fun _ => ⟨by decide,rfl⟩⟩

end Told

variable (P : Platform) (peer : Peer)

section Sample

/-- The command of mesh delegate, as the peer reads it. -/
def sampleCommand : Opened where
  sender := requesterId
  payload := sealPayload requesterId requesterHandshake.ts msgControl
    (controlBody (lit "delegate") (.obj [(lit "task_text",sampleArgs.taskText),
      (lit "required_harness",sampleArgs.requiredHarness),(lit "max_tokens",sampleArgs.maxTokens),
      (lit "max_runtime_seconds",sampleArgs.maxRuntimeSeconds),
      (lit "expected_output",sampleArgs.expectedOutput)]))

def listedAnswers : Answers := {sampleAnswers with listing := .arr []}

def hearing (o : Opened) : Action := .turn 0 {listedAnswers with received := .ok o}

/-- A connection that brings the command, up to its answer. -/
def sampleTold : List Action :=
  let go : Action := .turn 0 listedAnswers
  [.accept true,go,hearing requesterHandshake.opened,go,hearing sampleCommand,go,go,go,go,go,
    hearing workerHandshake.opened,go,hearing workerAccept.opened,hearing workerResult.opened,
    go,go,go]

def toldOnce : Process :=
  ((processMachine samplePlatform samplePeer).run .start sampleTold).getD .start

def lists (_ : Process) : Action → Bool
  | .turn _ a => match a.listing with
    | .arr _ => true
    | _ => false
  | _ => true

/-- The data of an answer that the thread sealed. -/
def Entry.toldData : Entry → Option Json
  | .own 0 false (.sealed payload) => if payload.strField (lit "type")=msgControlResult
      then (payload.get? (lit "body")).bind (Json.get? (lit "data")) else none
  | _ => none

def openConsole : Line → Except PyExc Unit := fun _ => .ok ()

end Sample

end AgentTorrent
