import AgentTorrent.Ledger.Faults

open Framework

namespace AgentTorrent

/-- The ledger file and its temporary file, as the system keeps them when a process dies. -/
structure Files where
  ledger : Option FileContent
  tmp : Option FileContent

/-- The files that an operation without a crash leaves behind. -/
def Disk.files (d : Disk) : Files := ⟨d.ledgerFile.map .whole,d.tmpFile⟩

/-- The points between the steps of _append: the record is in memory, the directory
exists, the temporary file is being written, it is written, it has replaced the
ledger file. -/
inductive AppendPc
  | booked
  | made
  | writing
  | written
  | replaced
  deriving DecidableEq

/-- A process that owns the ledger, at a point where it may die. -/
inductive LedgerProcess
  | dead
  | constructing
  | idle (records : List Record)
  | appending (pc : AppendPc) (r : Record) (records : List Record)

/-- What became of a record that an operation handed to _append. -/
inductive BookingEvent
  | completed (r : Record)
  | interrupted (r : Record)

structure LedgerStore where
  files : Files
  process : LedgerProcess
  history : List BookingEvent

/-- A restart constructs the ledger, a call begins an operation, a tick is the next
step of the constructor or of _append, and a crash may come at any point. -/
inductive StoreAction
  | restart
  | call (c : LedgerCall)
  | tick
  | crash

/-- One step of _append. Opening the temporary file truncates it. -/
def appendTick (s : LedgerStore) (r : Record) (records : List Record) :
    AppendPc → Option LedgerStore
  | .booked => some {s with process := .appending .made r records}
  | .made => some {s with
      files := {s.files with tmp := some .torn}
      process := .appending .writing r records}
  | .writing => some {s with
      files := {s.files with tmp := some (.whole records)}
      process := .appending .written r records}
  | .written => s.files.tmp.map fun content => {s with
      files := ⟨some content,none⟩
      process := .appending .replaced r records}
  | .replaced => some {s with
      process := .idle records
      history := s.history++[.completed r]}

/-- Ledger.__init__: a ledger file is loaded, and a torn one is no JSON. -/
def constructTick (s : LedgerStore) : LedgerStore :=
  match s.files.ledger with
  | some (.whole records) => {s with process := .idle records}
  | some .torn => {s with process := .dead}
  | none => {s with process := .appending .booked openingRecord [openingRecord]}

/-- What the process leaves of itself when it dies. -/
def LedgerProcess.lost : LedgerProcess → List BookingEvent
  | .appending _ r _ => [.interrupted r]
  | _ => []

/-- A ledger over its whole life on one path, from the first construction on. -/
def storeMachine : Machine LedgerStore StoreAction where
  init s := s=⟨⟨none,none⟩,.dead,[]⟩
  step s
    | .restart => match s.process with
      | .dead => some {s with process := .constructing}
      | _ => none
    | .call c => match s.process with
      | .idle records =>
        if c.Passes ⟨records,.empty⟩ then
          some {s with process := .appending .booked c.record (records++[c.record])}
        else some s
      | _ => none
    | .tick => match s.process with
      | .constructing => some (constructTick s)
      | .appending pc r records => appendTick s r records pc
      | _ => none
    | .crash => some {s with process := .dead,history := s.history++s.process.lost}

/-- The records are those of all completed bookings, in order, and each interrupted
booking has left its record in its place or nothing. -/
inductive Recovers : List BookingEvent → List Record → Prop
  | nil : Recovers [] []
  | completed {h : List BookingEvent} {rs : List Record} (r : Record) (hr : Recovers h rs) :
      Recovers (h++[.completed r]) (rs++[r])
  | kept {h : List BookingEvent} {rs : List Record} (r : Record) (hr : Recovers h rs) :
      Recovers (h++[.interrupted r]) (rs++[r])
  | gone {h : List BookingEvent} {rs : List Record} (r : Record) (hr : Recovers h rs) :
      Recovers (h++[.interrupted r]) rs

/-- The ledger file holds these records, or it does not exist and they are none. -/
def Files.Hold (f : Files) (rs : List Record) : Prop :=
  (f.ledger=none ∧ rs=[]) ∨ (f.ledger=some (.whole rs) ∧ kindCount .opening rs=1)

/-- What holds between memory, temporary file, ledger file and history. -/
def StoreInv (s : LedgerStore) : Prop :=
  match s.process with
  | .dead | .constructing => ∃rs,s.files.Hold rs ∧ Recovers s.history rs
  | .idle rs => s.files.ledger=some (.whole rs) ∧ kindCount .opening rs=1 ∧
      Recovers s.history rs
  | .appending pc r records => ∃rs,records=rs++[r] ∧ kindCount .opening records=1 ∧
      Recovers s.history rs ∧
      (if pc=.replaced then s.files.ledger=some (.whole records) else s.files.Hold rs) ∧
      (pc=.written → s.files.tmp=some (.whole records))

theorem call_record_kind (c : LedgerCall) : c.record.kind≠.opening := by
  cases c <;> simp [LedgerCall.record,escrowRecord,settleRecord,refundRecord,workRecord]

theorem appendTick_inv {s t : LedgerStore} {pc : AppendPc} {r : Record} {records : List Record}
    (hp : s.process=.appending pc r records) (h : StoreInv s)
    (ht : appendTick s r records pc=some t) : StoreInv t := by
  rw [StoreInv,hp] at h
  obtain ⟨rs,hrs,ho,hh,hf,hw⟩ := h
  cases pc with
  | booked =>
    cases ht
    exact ⟨rs,hrs,ho,hh,hf,fun h => by cases h⟩
  | made =>
    cases ht
    exact ⟨rs,hrs,ho,hh,hf,fun h => by cases h⟩
  | writing =>
    cases ht
    exact ⟨rs,hrs,ho,hh,hf,fun _ => rfl⟩
  | written =>
    rw [appendTick,hw rfl] at ht
    cases ht
    exact ⟨rs,hrs,ho,hh,rfl,fun h => by cases h⟩
  | replaced =>
    cases ht
    refine ⟨hf,ho,?_⟩
    rw [hrs]
    exact hh.completed r

theorem constructTick_inv {s : LedgerStore} (hp : s.process=.constructing) (h : StoreInv s) :
    StoreInv (constructTick s) := by
  rw [StoreInv,hp] at h
  obtain ⟨rs,hf | hf,hh⟩ := h
  · obtain ⟨hf,rfl⟩ := hf
    rw [constructTick,hf]
    exact ⟨[],rfl,rfl,hh,.inl ⟨hf,rfl⟩,fun h => by cases h⟩
  · rw [constructTick,hf.1]
    exact ⟨hf.1,hf.2,hh⟩

/-- A crash leaves the record in progress in the ledger file or not, and nothing else
changes there. -/
theorem crash_inv {s : LedgerStore} (h : StoreInv s) :
    StoreInv {s with process := .dead,history := s.history++s.process.lost} := by
  cases hp : s.process with
  | dead | constructing =>
    rw [StoreInv,hp] at h
    simpa [StoreInv,LedgerProcess.lost] using h
  | idle rs =>
    rw [StoreInv,hp] at h
    obtain ⟨hf,ho,hh⟩ := h
    exact ⟨rs,.inr ⟨hf,ho⟩,by simpa [LedgerProcess.lost] using hh⟩
  | appending pc r records =>
    rw [StoreInv,hp] at h
    obtain ⟨rs,hrs,ho,hh,hf,-⟩ := h
    split_ifs at hf with hpc
    · refine ⟨records,.inr ⟨hf,ho⟩,?_⟩
      rw [hrs]
      exact hh.kept r
    · exact ⟨rs,hf,hh.gone r⟩

theorem call_inv {s : LedgerStore} {records : List Record} (c : LedgerCall)
    (hp : s.process=.idle records) (h : StoreInv s) :
    StoreInv {s with process := .appending .booked c.record (records++[c.record])} := by
  rw [StoreInv,hp] at h
  obtain ⟨hf,ho,hh⟩ := h
  refine ⟨records,rfl,?_,hh,.inr ⟨hf,ho⟩,fun h => by cases h⟩
  rw [kindCount_snoc,ho,if_neg (call_record_kind c)]

theorem reachable_store {s : LedgerStore} (h : storeMachine.Reachable s) : StoreInv s := by
  refine @Machine.Reachable.invariant _ _ storeMachine StoreInv ?_ ?_ s h
  · intro s hs
    cases hs
    exact ⟨[],.inl ⟨rfl,rfl⟩,.nil⟩
  · intro s act t hi hs
    cases act with
    | restart =>
      simp only [storeMachine] at hs
      split at hs
      · rename_i hp
        cases hs
        rw [StoreInv,hp] at hi
        exact hi
      · cases hs
    | call c =>
      simp only [storeMachine] at hs
      split at hs
      · rename_i records hp
        split_ifs at hs
        · cases hs
          exact call_inv c hp hi
        · cases hs
          exact hi
      · cases hs
    | tick =>
      simp only [storeMachine] at hs
      split at hs
      · rename_i hp
        cases hs
        exact constructTick_inv hp hi
      · rename_i pc r records hp
        exact appendTick_inv hp hi hs
      · cases hs
    | crash =>
      cases hs
      exact crash_inv hi

section Refines

theorem passes_congr {L M : Ledger} (h : L.records=M.records) (c : LedgerCall) :
    c.Passes L ↔ c.Passes M := by
  obtain ⟨rs,disk⟩ := L
  obtain ⟨rs',disk'⟩ := M
  obtain rfl : rs=rs' := h
  cases c <;> exact Iff.rfl

/-- A call that no crash interrupts does to memory and files what the operation does. -/
theorem booking_refines {c : LedgerCall} {L : Ledger} (hp : c.Passes L)
    (history : List BookingEvent) :
    storeMachine.run ⟨L.disk.files,.idle L.records,history⟩
      [.call c,.tick,.tick,.tick,.tick,.tick]=
    some ⟨(c.run none L).1.disk.files,.idle (c.run none L).1.records,
      history++[.completed c.record]⟩ := by
  have hp' : c.Passes ⟨L.records,.empty⟩ := (passes_congr rfl c).mp hp
  rw [LedgerCall.run_passed hp,Machine.run_cons]
  simp only [storeMachine,if_pos hp',Machine.run,appendTick,Option.bind_some,Option.map_some]
  rfl

theorem refusal_refines {c : LedgerCall} {L : Ledger} (hp : ¬c.Passes L)
    (history : List BookingEvent) :
    storeMachine.run ⟨L.disk.files,.idle L.records,history⟩ [.call c]=
    some ⟨(c.run none L).1.disk.files,.idle (c.run none L).1.records,history⟩ := by
  obtain ⟨msg,hm⟩ := LedgerCall.run_refused hp none
  have hp' : ¬c.Passes ⟨L.records,.empty⟩ := mt (passes_congr rfl c).mpr hp
  rw [hm,Machine.run_cons]
  simp only [storeMachine,if_neg hp']
  rfl

/-- A restart that no crash interrupts ends in the ledger that the constructor loads or
opens. -/
theorem restart_refines (disk : Disk) (history : List BookingEvent) :
    ∃ticks history',(∀a∈ticks,a=.tick) ∧
      storeMachine.run ⟨disk.files,.dead,history⟩ (.restart::ticks)=
        some ⟨(Ledger.load disk).disk.files,.idle (Ledger.load disk).records,history'⟩ := by
  obtain ⟨file,tmp⟩ := disk
  cases file with
  | some records => exact ⟨[.tick],history,by simp,rfl⟩
  | none => exact ⟨List.replicate 6 .tick,history++[.completed openingRecord],by simp,rfl⟩

end Refines

/-- The records in memory but for the one that is being appended. -/
def LedgerProcess.settled : LedgerProcess → List Record
  | .idle records => records
  | .appending _ _ records => records.dropLast
  | _ => []

theorem Files.Hold.ledger {f : Files} {rs : List Record} (h : f.Hold rs) : f.ledger≠some .torn ∧
    ∀rs,f.ledger=some (.whole rs) → kindCount .opening rs=1 := by
  rcases h with ⟨hf,-⟩ | ⟨hf,ho⟩
  · simp [hf]
  · refine ⟨by simp [hf],?_⟩
    intro rs' hr
    cases hf.symm.trans hr
    exact ho

/-- What a restart loads was in the ledger file. -/
theorem run_reload {s t : LedgerStore} {rs : List Record}
    (ht : storeMachine.run s [.crash,.restart,.tick]=some t) (hr : t.process=.idle rs) :
    s.files.ledger=some (.whole rs) := by
  simp only [storeMachine,Machine.run,Option.bind_some,Option.some.injEq] at ht
  subst ht
  simp only [constructTick] at hr
  split at hr
  · rename_i rs' hf
    cases hr
    exact hf
  · cases hr
  · cases hr

/-- However often the process died, at whatever point: the ledger file is never torn, and
the records that are loaded are those of all completed bookings, in order, with at
most the interrupted one of each crash between them, and exactly one opening record. -/
theorem crash_consistent {s : LedgerStore} (h : storeMachine.Reachable s) :
    s.files.ledger≠some .torn ∧
    (∀rs,s.files.ledger=some (.whole rs) → kindCount .opening rs=1) ∧
    (∀rs,s.process=.idle rs → Recovers s.history rs ∧ kindCount .opening rs=1) ∧
    ∀t rs,s.process≠.dead → s.process≠.constructing →
      storeMachine.run s [.crash,.restart,.tick]=some t → t.process=.idle rs →
      rs=s.process.settled ∨ ∃r,s.process.lost=[.interrupted r] ∧ rs=s.process.settled++[r] := by
  have hi := reachable_store h
  unfold StoreInv at hi
  cases hp : s.process with
  | dead =>
    rw [hp] at hi
    obtain ⟨rs,hf,-⟩ := hi
    exact ⟨hf.ledger.1,hf.ledger.2,by simp,fun t rs hd => absurd rfl hd⟩
  | constructing =>
    rw [hp] at hi
    obtain ⟨rs,hf,-⟩ := hi
    exact ⟨hf.ledger.1,hf.ledger.2,by simp,fun t rs _ hc => absurd rfl hc⟩
  | idle records =>
    rw [hp] at hi
    obtain ⟨hf,ho,hh⟩ := hi
    have hold : s.files.Hold records := .inr ⟨hf,ho⟩
    refine ⟨hold.ledger.1,hold.ledger.2,?_,?_⟩
    · intro rs hr
      cases hr
      exact ⟨hh,ho⟩
    · intro t rs _ _ ht hr
      cases hf.symm.trans (run_reload ht hr)
      exact .inl rfl
  | appending pc r records =>
    rw [hp] at hi
    obtain ⟨base,rfl,ho,hh,hf,-⟩ := hi
    have settled : (LedgerProcess.appending pc r (base++[r])).settled=base := by
      simp [LedgerProcess.settled]
    have hold : s.files.Hold (base++[r]) ∨ s.files.Hold base := by
      split_ifs at hf
      · exact .inl (.inr ⟨hf,ho⟩)
      · exact .inr hf
    have both := hold.elim Files.Hold.ledger Files.Hold.ledger
    refine ⟨both.1,both.2,by simp,?_⟩
    intro t rs _ _ ht hr
    have hl := run_reload ht hr
    rw [settled]
    rcases hold with (⟨hn,-⟩ | ⟨hn,-⟩) | ⟨hn,-⟩ | ⟨hn,-⟩
    · cases hn.symm.trans hl
    · cases hn.symm.trans hl
      exact .inr ⟨r,rfl,rfl⟩
    · cases hn.symm.trans hl
    · cases hn.symm.trans hl
      exact .inl rfl

/-- A first construction dies behind the replace, an escrow while the temporary file is
being written, and a restart finds the opening record. -/
def crashedTwice : LedgerStore :=
  (storeMachine.run ⟨⟨none,none⟩,.dead,[]⟩
    [.restart,.tick,.tick,.tick,.tick,.tick,.crash,.restart,.tick,
      .call (.escrow (lit "6f1c") (lit "e675")),.tick,.tick,.crash,.restart,.tick]).getD
    ⟨⟨none,none⟩,.dead,[]⟩

theorem crash_consistent_sample : crashedTwice.process=.idle [openingRecord] ∧
    Recovers crashedTwice.history [openingRecord] := by
  have hr : storeMachine.Reachable crashedTwice :=
    ⟨_,_,rfl,Machine.run_getD _ (by decide)⟩
  have hp : crashedTwice.process=.idle [openingRecord] := by
    rfl
  exact ⟨hp,((crash_consistent hr).2.2.1 _ hp).1⟩

end AgentTorrent
