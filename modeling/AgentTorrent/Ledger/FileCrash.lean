import AgentTorrent.Ledger.LedgerFile
import AgentTorrent.Wire.Sealed

open Framework

namespace AgentTorrent

/-- The bytes of the ledger file and of its temporary file. -/
structure DirFiles where
  ledger : Option Bytes
  tmp : Option Bytes

/-- A process that owns the ledger as a list of dicts. The record that is being booked
is kept for the history only. -/
inductive DictProcess
  | dead
  | constructing
  | idle (ds : List Json)
  | appending (pc : AppendPc) (r : Record) (ds : List Json)

structure FileStore where
  files : DirFiles
  process : DictProcess
  history : List BookingEvent

/-- A call whose strings JSON text carries, with what _append draws for its record. -/
structure Booking where
  call : LedgerCall
  stamp : Stamp
  carried : call.record.carried=true

/-- The actions of the store, with the bytes that a write has brought to the disk so far. -/
inductive FileAction
  | restart
  | call (b : Booking)
  | tick (stamp : Stamp)
  | flush (n : Nat)
  | crash

/-- What is left of the process when it dies. -/
def DictProcess.lost : DictProcess → List BookingEvent
  | .appending _ r _ => [.interrupted r]
  | _ => []

/-- The dicts in memory. -/
def DictProcess.dicts : DictProcess → List Json
  | .idle ds | .appending _ _ ds => ds
  | _ => []

/-- The dicts in memory but for the one that is being appended. -/
def DictProcess.settled : DictProcess → List Json
  | .idle ds => ds
  | .appending _ _ ds => ds.dropLast
  | _ => []

/-- One step of _append. write_text opens the temporary file, which truncates it. -/
def fileAppendTick (s : FileStore) (r : Record) (ds : List Json) : AppendPc → Option FileStore
  | .booked => some {s with process := .appending .made r ds}
  | .made => some {s with
      files := {s.files with tmp := some []}
      process := .appending .writing r ds}
  | .writing => some {s with
      files := {s.files with tmp := some (ledgerText ds)}
      process := .appending .written r ds}
  | .written => s.files.tmp.map fun bs => {s with
      files := ⟨some bs,none⟩
      process := .appending .replaced r ds}
  | .replaced => some {s with
      process := .idle ds
      history := s.history++[.completed r]}

section Store

variable (float : PyStr → PyFloat) (intPrints : Int → Bool)

/-- Ledger.__init__ on the bytes of the file. -/
def fileConstructTick (s : FileStore) (stamp : Stamp) : FileStore :=
  match s.files.ledger with
  | some bs => match loadRecords float intPrints bs with
    | .ok ds => {s with process := .idle ds}
    | .error _ => {s with process := .dead}
  | none => {s with
      process := .appending .booked openingRecord [recordDict stamp openingRecord]}

/-- The ledger of one data directory over its whole life, at the bytes of its files. A
crash leaves what has been written so far. -/
def fileMachine : Machine FileStore FileAction where
  init s := s=⟨⟨none,none⟩,.dead,[]⟩
  step s
    | .restart => match s.process with
      | .dead => some {s with process := .constructing}
      | _ => none
    | .call b => match s.process with
      | .idle ds => match b.call.check ds with
        | .ok () =>
          let record := recordDict b.stamp b.call.record
          some {s with process := .appending .booked b.call.record (ds++[record])}
        | .error _ => some s
      | _ => none
    | .tick stamp => match s.process with
      | .constructing => some (fileConstructTick float intPrints s stamp)
      | .appending pc r ds => fileAppendTick s r ds pc
      | _ => none
    | .flush n => match s.process with
      | .appending .writing _ ds =>
        some {s with files := {s.files with tmp := some ((ledgerText ds).take n)}}
      | _ => none
    | .crash => some {s with process := .dead,history := s.history++s.process.lost}

end Store

/-- The bytes of a file and what they stand for: a torn file may hold anything. -/
inductive FileOf : Option Bytes → Option FileContent → Prop
  | missing : FileOf none none
  | whole {ds : List Json} {rs : List Record} (h : DictsOf ds rs) :
      FileOf (some (ledgerText ds)) (some (.whole rs))
  | torn (bs : Bytes) : FileOf (some bs) (some .torn)

inductive ProcessOf : DictProcess → LedgerProcess → Prop
  | dead : ProcessOf .dead .dead
  | constructing : ProcessOf .constructing .constructing
  | idle {ds : List Json} {rs : List Record} (h : DictsOf ds rs) : ProcessOf (.idle ds) (.idle rs)
  | appending (pc : AppendPc) (r : Record) {ds : List Json} {rs : List Record}
      (h : DictsOf ds rs) : ProcessOf (.appending pc r ds) (.appending pc r rs)

/-- What the bytes and the dicts mean as a store of records and of whole or torn files. -/
structure StandsFor (s : FileStore) (t : LedgerStore) : Prop where
  ledger : FileOf s.files.ledger t.files.ledger
  tmp : FileOf s.files.tmp t.files.tmp
  process : ProcessOf s.process t.process
  history : s.history=t.history
  writing : ∀r rs,t.process=.appending .writing r rs → t.files.tmp=some .torn

section Refines

variable {float : PyStr → PyFloat} {intPrints : Int → Bool}

/-- The ledger file holds the dicts in memory, but for one that is not yet in place. -/
def FileInv (s : FileStore) : Prop :=
  match s.process with
  | .dead | .constructing => True
  | .idle ds => s.files.ledger=some (ledgerText ds)
  | .appending pc _ ds =>
    (if pc=.replaced then s.files.ledger=some (ledgerText ds)
      else (s.files.ledger=none ∧ ds.dropLast=[]) ∨ s.files.ledger=some (ledgerText ds.dropLast)) ∧
    (pc=.written → s.files.tmp=some (ledgerText ds))

section Bytes

variable (hf : ∀f : PyFloat,f.isFinite=true → float (ofAscii f.repr)=f)
  (hi : ∀n : Int,n.natAbs≤10 → intPrints n=true)
include hf hi

omit hf hi in
theorem fileAppendTick_inv {s t : FileStore} {pc : AppendPc} {r : Record} {ds : List Json}
    (hp : s.process=.appending pc r ds) (h : FileInv s) (ht : fileAppendTick s r ds pc=some t) :
    FileInv t := by
  rw [FileInv,hp] at h
  obtain ⟨hl,hw⟩ := h
  cases pc with
  | booked | made =>
    cases ht
    exact ⟨hl,fun h => by cases h⟩
  | writing =>
    cases ht
    exact ⟨hl,fun _ => rfl⟩
  | written =>
    rw [fileAppendTick,hw rfl] at ht
    cases ht
    exact ⟨rfl,fun h => by cases h⟩
  | replaced =>
    cases ht
    exact hl

omit hf hi in
/-- What a restart loads was in the ledger file. -/
theorem reload_ledger {s t : FileStore} {stamp : Stamp} {ds : List Json}
    (ht : (fileMachine float intPrints).run s [.crash,.restart,.tick stamp]=some t)
    (hp : t.process=.idle ds) :
    ∃bs,s.files.ledger=some bs ∧ loadRecords float intPrints bs=.ok ds := by
  simp only [fileMachine,Machine.run,Option.bind_some,Option.some.injEq] at ht
  subst ht
  simp only [fileConstructTick] at hp
  cases hl : s.files.ledger with
  | none =>
    rw [hl] at hp
    cases hp
  | some bs =>
    rw [hl] at hp
    cases hr : loadRecords float intPrints bs with
    | error e =>
      simp only [hr] at hp
      cases hp
    | ok ds' =>
      simp only [hr] at hp
      cases hp
      exact ⟨bs,rfl,hr⟩

end Bytes

end Refines

section Consistent

variable (float : PyStr → PyFloat) (intPrints : Int → Bool)

/-- What the files promise to a process that starts on them, and to one that has them. -/
structure FileConsistent (s : FileStore) : Prop where
  readable : ∀bs,s.files.ledger=some bs → ∃ds rs,loadRecords float intPrints bs=.ok ds ∧
    DictsOf ds rs ∧ kindCount .opening rs=1 ∧
    ∀n,n < bs.length → loadRecords float intPrints (bs.take n)=.error .valueError
  starts : ∀stamp t,s.process=.constructing →
    (fileMachine float intPrints).step s (.tick stamp)=some t → t.process≠.dead
  current : ∀ds,s.process=.idle ds → s.files.ledger=some (ledgerText ds) ∧
    ∃rs,DictsOf ds rs ∧ Recovers s.history rs ∧
      ∀account,dictBalance account ds=.ok ((⟨rs,.empty⟩ : Ledger).balance account)
  refuses : ∀ds c e,s.process=.idle ds → LedgerCall.check ds c=.error e → ∃msg,e=.ledgerError msg
  reloads : ∀stamp t ds,s.process≠.dead → s.process≠.constructing →
    (fileMachine float intPrints).run s [.crash,.restart,.tick stamp]=some t →
    t.process=.idle ds → ds=s.process.dicts ∨ ds=s.process.settled

variable {float intPrints} (hf : ∀f : PyFloat,f.isFinite=true → float (ofAscii f.repr)=f)
  (hi : ∀n : Int,n.natAbs≤10 → intPrints n=true)
include hf hi

end Consistent

def sampleStamp : Stamp := ⟨lit "5b1f0e",⟨ascii "1700000000.25",by decide⟩,by decide,by decide⟩

/-- A process dies while its opening record is written, and the next one books it. -/
def interruptedWrite : FileStore :=
  ((fileMachine readFloat fun _ => true).run ⟨⟨none,none⟩,.dead,[]⟩
    [.restart,.tick sampleStamp,.tick sampleStamp,.tick sampleStamp,.flush 40,.crash,.restart,
      .tick sampleStamp,.tick sampleStamp,.tick sampleStamp,.tick sampleStamp,.tick sampleStamp,
      .tick sampleStamp,.crash,.restart]).getD ⟨⟨none,none⟩,.dead,[]⟩

end AgentTorrent
