import AgentTorrent.Ledger.Crash
import AgentTorrent.Python.JsonPretty
import AgentTorrent.Python.Platform

open Framework.Bookkeeping

namespace AgentTorrent

open Json

def RecordKind.text : RecordKind → PyStr
  | .opening => lit "opening"
  | .escrow => lit "escrow"
  | .settle => lit "settle"
  | .refund => lit "refund"
  | .work => lit "work"

/-- What _append draws for a record: uuid4().hex and time.time(). -/
structure Stamp where
  txnId : PyStr
  ts : PyFloat
  carried : txnId.all isCarried=true
  finite : ts.isFinite=true

def entryDict (e : Entry PyStr Int) : Json :=
  .obj [(lit "account",.str e.account),(lit "delta",.int e.delta)]

def jobIdJson : Option PyStr → Json
  | none => .null
  | some j => .str j

/-- The dict that _append builds. -/
def recordDict (stamp : Stamp) (r : Record) : Json :=
  .obj [(lit "txn_id",.str stamp.txnId),(lit "kind",.str r.kind.text),
    (lit "job_id",jobIdJson r.jobId),(lit "ts",.float stamp.ts),
    (lit "entries",.arr (r.entries.map entryDict)),(lit "memo",.str r.memo)]

def ledgerJson (ds : List Json) : Json := .obj [(lit "records",.arr ds)]

/-- json.dumps({"records": self._records}, indent=2) -/
def ledgerText (ds : List Json) : Bytes := (ledgerJson ds).dumpsIndent

/-- What a for loop takes out of a value. -/
def elements : Json → Except PyExc (List Json)
  | .arr xs => .ok xs
  | .obj ms => .ok (ms.map fun m => .str m.1)
  | .str s => .ok (s.map fun c => .str [c])
  | _ => .error .typeError

/-- A term of sum(...). -/
def summand : Json → Except PyExc Int
  | .int n => .ok n
  | .bool b => .ok b.toInt
  | _ => .error .typeError

/-- What a line of a record adds to the balance of an account. -/
def lineDelta (account : PyStr) (line : Json) : Except PyExc Int := do
  let a ← line.item (lit "account")
  if a.isStr account then
    let delta ← line.item (lit "delta")
    summand delta
  else .ok 0

def sumLines (account : PyStr) : List Json → Except PyExc Int
  | [] => .ok 0
  | e::es => do
    let delta ← lineDelta account e
    let rest ← sumLines account es
    .ok (delta+rest)

/-- _balance_locked on the list of dicts. -/
def dictBalance (account : PyStr) : List Json → Except PyExc Int
  | [] => .ok 0
  | d::ds => do
    let entries ← d.item (lit "entries")
    let lines ← elements entries
    let delta ← sumLines account lines
    let rest ← dictBalance account ds
    .ok (delta+rest)

/-- _job_records on the list of dicts. -/
def dictJobRecords (job : PyStr) : List Json → Except PyExc (List Json)
  | [] => .ok []
  | d::ds => do
    let j ← d.item (lit "job_id")
    let rest ← dictJobRecords job ds
    .ok (if j.isStr job then d::rest else rest)

/-- A set takes a value. -/
def hashed : Json → Except PyExc Json
  | .arr _ | .obj _ => .error .typeError
  | v => .ok v

/-- The kinds of the records, as a set that is asked for strings only. -/
def dictKinds : List Json → Except PyExc (List Json)
  | [] => .ok []
  | d::ds => do
    let k ← d.item (lit "kind")
    let k ← hashed k
    let rest ← dictKinds ds
    .ok (k::rest)

def hasText (kinds : List Json) (k : RecordKind) : Bool := kinds.any fun v => v.isStr k.text

/-- any(r["kind"] == "work" for r in ...) -/
def anyWork : List Json → Except PyExc Bool
  | [] => .ok false
  | d::ds => do
    let k ← d.item (lit "kind")
    if k.isStr (lit "work") then .ok true else anyWork ds

/-- _require_open_escrow on the list of dicts. -/
def dictRequireOpenEscrow (job : PyStr) (ds : List Json) : Except PyExc Unit := do
  let rs ← dictJobRecords job ds
  let kinds ← dictKinds rs
  if ¬hasText kinds .escrow then .error (.ledgerError (lit "no escrow found for job "++job))
  else if hasText kinds .settle ∨ hasText kinds .refund then
    .error (.ledgerError (lit "escrow for job "++job++lit " already closed"))
  else .ok ()

/-- What an operation checks in the list of dicts before it books. -/
def LedgerCall.check (ds : List Json) : LedgerCall → Except PyExc Unit
  | .escrow job _ => do
    let b ← dictBalance selfAccount ds
    if b < jobPrice then .error (.ledgerError (lit "balance is zero: cannot offer a task"))
    else
      let rs ← dictJobRecords job ds
      if rs.isEmpty then .ok ()
      else .error (.ledgerError (lit "job "++job++lit " already has ledger records"))
  | .settle job _ | .refund job => dictRequireOpenEscrow job ds
  | .creditForWork job _ => do
    let rs ← dictJobRecords job ds
    let worked ← anyWork rs
    if worked then .error (.ledgerError (lit "job "++job++lit " already credited")) else .ok ()

/-- The strings of the record can be carried by JSON text. -/
def Record.carried (r : Record) : Bool :=
  r.jobId.all (fun j => j.all isCarried) && r.entries.all (fun e => e.account.all isCarried) &&
    r.memo.all isCarried

/-- The amounts are those that the program books. -/
def Record.small (r : Record) : Bool := r.entries.all fun e => e.delta.natAbs≤10

/-- The dict was built from the record. -/
def DictOf (d : Json) (r : Record) : Prop :=
  ∃stamp,d=recordDict stamp r ∧ r.carried=true ∧ r.small=true

abbrev DictsOf (ds : List Json) (rs : List Record) : Prop := List.Forall₂ DictOf ds rs

section Fields

variable (stamp : Stamp) (r : Record)

theorem recordDict_kind : (recordDict stamp r).item (lit "kind")=.ok (.str r.kind.text) := rfl

theorem recordDict_jobId : (recordDict stamp r).item (lit "job_id")=.ok (jobIdJson r.jobId) := rfl

theorem recordDict_entries :
    (recordDict stamp r).item (lit "entries")=.ok (.arr (r.entries.map entryDict)) := rfl

end Fields

theorem text_injective {k l : RecordKind} (h : k.text=l.text) : k=l := by
  revert k l
  intro k l
  cases k <;> cases l <;> decide

theorem isStr_text (k l : RecordKind) : (Json.str k.text).isStr l.text=decide (k=l) := by
  cases k <;> cases l <;> decide

theorem isStr_jobId (o : Option PyStr) (job : PyStr) :
    (jobIdJson o).isStr job=decide (o=some job) := by
  cases o with
  | none => rfl
  | some j => rfl

theorem sumLines_entries (account : PyStr) (es : List (Entry PyStr Int)) :
    sumLines account (es.map entryDict)=.ok (balance es account) := by
  induction es with
  | nil => rfl
  | cons e es ih =>
    have hl : lineDelta account (entryDict e)=.ok (if e.account=account then e.delta else 0) := by
      have ha : (entryDict e).item (lit "account")=.ok (.str e.account) := rfl
      have hd : (entryDict e).item (lit "delta")=.ok (.int e.delta) := rfl
      rw [lineDelta,ha,hd]
      by_cases h : e.account=account <;> simp [isStr,asStr,h,bind,Except.bind,summand]
    rw [List.map_cons,sumLines,hl,ih,balance_cons]
    rfl

section Agree

variable {ds : List Json} {rs : List Record}

/-- The balance of the dicts is the balance of the records. -/
theorem dictBalance_eq (h : DictsOf ds rs) (account : PyStr) :
    dictBalance account ds=.ok (balance (rs.flatMap Record.entries) account) := by
  induction h with
  | nil => rfl
  | cons hd _ ih =>
    obtain ⟨stamp,rfl,-⟩ := hd
    rw [dictBalance,recordDict_entries,ih,List.flatMap_cons,balance_append]
    simp only [bind,Except.bind,elements,sumLines_entries]

theorem dictJobRecords_eq (h : DictsOf ds rs) (job : PyStr) :
    ∃ds',dictJobRecords job ds=.ok ds' ∧ DictsOf ds' (rs.filter fun r => r.jobId=some job) := by
  induction h with
  | nil => exact ⟨[],rfl,.nil⟩
  | @cons d r ds rs hd _ ih =>
    obtain ⟨ds',hj,hf⟩ := ih
    obtain ⟨stamp,rfl,hc⟩ := hd
    rw [dictJobRecords,recordDict_jobId,hj]
    simp only [bind,Except.bind,isStr_jobId]
    by_cases hr : r.jobId=some job
    · refine ⟨_,rfl,?_⟩
      simp only [hr,decide_true,if_true,List.filter_cons_of_pos]
      exact .cons ⟨stamp,rfl,hc⟩ hf
    · refine ⟨_,rfl,?_⟩
      simpa [hr] using hf

theorem dictKinds_eq (h : DictsOf ds rs) :
    dictKinds ds=.ok (rs.map fun r => .str r.kind.text) := by
  induction h with
  | nil => rfl
  | cons hd _ ih =>
    obtain ⟨stamp,rfl,-⟩ := hd
    rw [dictKinds,recordDict_kind,ih]
    rfl

theorem hasText_kinds (k : RecordKind) :
    hasText (rs.map fun r => .str r.kind.text) k=rs.any fun r => r.kind=k := by
  rw [hasText,List.any_map]
  congr 1
  funext r
  exact isStr_text r.kind k

theorem anyWork_eq (h : DictsOf ds rs) : anyWork ds=.ok (rs.any fun r => r.kind=.work) := by
  induction h with
  | nil => rfl
  | @cons d r ds rs hd _ ih =>
    obtain ⟨stamp,rfl,-⟩ := hd
    have hw : (Json.str r.kind.text).isStr (lit "work")=decide (r.kind=.work) :=
      isStr_text r.kind .work
    rw [anyWork,recordDict_kind,ih]
    simp only [bind,Except.bind,hw,List.any_cons]
    by_cases hr : r.kind=.work <;> simp [hr]

theorem dictRequireOpenEscrow_eq (h : DictsOf ds rs) (job : PyStr) (disk : Disk) :
    dictRequireOpenEscrow job ds=(⟨rs,disk⟩ : Ledger).requireOpenEscrow job := by
  obtain ⟨ds',hj,hf⟩ := dictJobRecords_eq h job
  rw [dictRequireOpenEscrow,hj]
  simp only [bind,Except.bind,dictKinds_eq hf,hasText_kinds]
  rfl

/-- The checks on the dicts are the checks on the records. -/
theorem check_eq (h : DictsOf ds rs) (c : LedgerCall) (disk : Disk) :
    c.check ds=(c.run none ⟨rs,disk⟩).2 := by
  obtain ⟨L,hL⟩ : ∃L : Ledger,L=⟨rs,disk⟩ := ⟨_,rfl⟩
  rw [← hL]
  cases c with
  | escrow job worker =>
    obtain ⟨ds',hj,hf⟩ := dictJobRecords_eq h job
    have hb : dictBalance selfAccount ds=.ok (L.balance selfAccount) := by
      rw [dictBalance_eq h,hL]
      rfl
    have he : ds'.isEmpty=true ↔ L.jobRecords job=[] := by
      rw [List.isEmpty_iff,hL]
      constructor
      · intro hn
        subst hn
        exact List.forall₂_nil_left_iff.mp hf
      · intro hn
        rw [Ledger.jobRecords] at hn
        rw [hn] at hf
        exact List.forall₂_nil_right_iff.mp hf
    simp only [LedgerCall.check,LedgerCall.run,Ledger.escrow,hb,hj,bind,Except.bind]
    by_cases h1 : L.balance selfAccount < jobPrice
    · rw [if_pos h1,if_pos h1]
    · rw [if_neg h1,if_neg h1]
      by_cases h2 : L.jobRecords job=[]
      · rw [if_pos (he.mpr h2),if_neg (not_not.mpr h2)]
        rfl
      · rw [if_neg (mt he.mp h2),if_pos h2]
  | settle job worker | refund job =>
    simp only [LedgerCall.check,LedgerCall.run,Ledger.settle,Ledger.refund]
    rw [dictRequireOpenEscrow_eq h job disk,← hL]
    cases L.requireOpenEscrow job <;> rfl
  | creditForWork job requester =>
    obtain ⟨ds',hj,hf⟩ := dictJobRecords_eq h job
    have hw : L.hasKind job .work=(rs.filter fun r => r.jobId=some job).any
        fun r => r.kind=.work := by
      rw [hL]
      rfl
    simp only [LedgerCall.check,LedgerCall.run,Ledger.creditForWork,hj,anyWork_eq hf,bind,
      Except.bind,← hw]
    cases L.hasKind job .work <;> rfl

theorem check_ok_iff (h : DictsOf ds rs) (c : LedgerCall) :
    c.check ds=.ok () ↔ c.Passes ⟨rs,.empty⟩ := by
  rw [check_eq h c .empty]
  by_cases hp : c.Passes ⟨rs,.empty⟩
  · rw [LedgerCall.run_passed hp]
    exact ⟨fun _ => hp,fun _ => rfl⟩
  · obtain ⟨msg,hm⟩ := LedgerCall.run_refused hp none
    rw [hm]
    constructor
    · intro he
      cases he
    · intro hc
      exact absurd hc hp

end Agree

section Text

theorem kind_carried (k : RecordKind) : k.text.all isCarried=true := by
  cases k <;> decide

theorem entryDict_plain {e : Entry PyStr Int} (h : e.account.all isCarried=true) :
    (entryDict e).plain=true := by
  have keys : ([lit "account",lit "delta"] : List PyStr).Nodup ∧
      ∀k∈[lit "account",lit "delta"],k.all isCarried=true := by decide
  rw [entryDict,plain,Bool.and_eq_true,plainMembers_iff]
  refine ⟨decide_eq_true keys.1,?_⟩
  intro m hm
  refine ⟨keys.2 m.1 (List.mem_map_of_mem hm),?_⟩
  simp only [List.mem_cons,List.not_mem_nil,or_false] at hm
  rcases hm with rfl | rfl
  · exact h
  · rfl

theorem recordDict_plain (stamp : Stamp) {r : Record} (h : r.carried=true) :
    (recordDict stamp r).plain=true := by
  have keys : ([lit "txn_id",lit "kind",lit "job_id",lit "ts",lit "entries",lit "memo"] :
      List PyStr).Nodup ∧
      ∀k∈[lit "txn_id",lit "kind",lit "job_id",lit "ts",lit "entries",lit "memo"],
        k.all isCarried=true := by decide
  rw [Record.carried,Bool.and_eq_true,Bool.and_eq_true] at h
  obtain ⟨⟨hj,he⟩,hm⟩ := h
  rw [recordDict,plain,Bool.and_eq_true,plainMembers_iff]
  refine ⟨decide_eq_true keys.1,?_⟩
  intro m hmem
  refine ⟨keys.2 m.1 (List.mem_map_of_mem hmem),?_⟩
  simp only [List.mem_cons,List.not_mem_nil,or_false] at hmem
  rcases hmem with rfl | rfl | rfl | rfl | rfl | rfl
  · exact stamp.carried
  · exact kind_carried r.kind
  · cases ho : r.jobId with
    | none => rfl
    | some j =>
      rw [ho] at hj
      exact hj
  · exact stamp.finite
  · rw [plain,plainItems_iff]
    intro v hv
    obtain ⟨e,hes,rfl⟩ := List.mem_map.mp hv
    exact entryDict_plain (List.all_eq_true.mp he e hes)
  · exact hm

theorem recordDict_ints {intPrints : Int → Bool} (hi : ∀n : Int,n.natAbs≤10 → intPrints n=true)
    (stamp : Stamp) {r : Record} (h : r.small=true) :
    (recordDict stamp r).intsAll intPrints=true := by
  rw [recordDict,intsAll,intsAllMembers_iff]
  intro m hm
  simp only [List.mem_cons,List.not_mem_nil,or_false] at hm
  rcases hm with rfl | rfl | rfl | rfl | rfl | rfl
  · rfl
  · rfl
  · cases ho : r.jobId <;> simp [jobIdJson,intsAll]
  · rfl
  · rw [intsAll,intsAllItems_iff]
    intro v hv
    obtain ⟨e,hes,rfl⟩ := List.mem_map.mp hv
    have hs := of_decide_eq_true (List.all_eq_true.mp h e hes)
    simp [entryDict,intsAll,intsAllMembers,hi e.delta hs]
  · rfl

theorem ledgerJson_plain {ds : List Json} {rs : List Record} (h : DictsOf ds rs) :
    (ledgerJson ds).plain=true := by
  have each : ∀d∈ds,d.plain=true := by
    intro d hd
    obtain ⟨r,-,stamp,rfl,hc,-⟩ := forall₂_mem_right h.flip hd
    exact recordDict_plain stamp hc
  have key : (lit "records").all isCarried=true := by decide
  simp only [ledgerJson,plain,plainMembers,key,Bool.true_and,Bool.and_true,Bool.and_eq_true,
    plainItems_iff]
  exact ⟨rfl,each⟩

theorem ledgerJson_ints {intPrints : Int → Bool} (hi : ∀n : Int,n.natAbs≤10 → intPrints n=true)
    {ds : List Json} {rs : List Record} (h : DictsOf ds rs) :
    (ledgerJson ds).intsAll intPrints=true := by
  have each : ∀d∈ds,d.intsAll intPrints=true := by
    intro d hd
    obtain ⟨r,-,stamp,rfl,-,hs⟩ := forall₂_mem_right h.flip hd
    exact recordDict_ints hi stamp hs
  simp only [ledgerJson,intsAll,intsAllMembers,Bool.and_true,intsAllItems_iff]
  exact each

section Load

variable (float : PyStr → PyFloat) (intPrints : Int → Bool)

/-- json.loads(self.path.read_text())["records"] -/
def loadRecords (bs : Bytes) : Except PyExc (List Json) :=
  match loadsText float intPrints (ofAscii bs) with
  | none => .error .valueError
  | some v => match v.item (lit "records") with
    | .error e => .error e
    | .ok (.arr ds) => .ok ds
    | .ok _ => .error .typeError

variable {float intPrints} (hf : ∀f : PyFloat,f.isFinite=true → float (ofAscii f.repr)=f)
  (hi : ∀n : Int,n.natAbs≤10 → intPrints n=true)
include hf hi

/-- A ledger file that was written in full gives back the dicts that were in memory. -/
theorem loadRecords_ledgerText {ds : List Json} {rs : List Record} (h : DictsOf ds rs) :
    loadRecords float intPrints (ledgerText ds)=.ok ds := by
  have hl := loadsText_dumpsIndent hf (ledgerJson_plain h) (ledgerJson_ints hi h)
  rw [loadRecords,ledgerText,hl]
  rfl

/-- A part of it is no JSON. -/
theorem loadRecords_cut {ds : List Json} {rs : List Record} (h : DictsOf ds rs) {n : Nat}
    (hn : n < (ledgerText ds).length) :
    loadRecords float intPrints ((ledgerText ds).take n)=.error .valueError := by
  have hl := loadsText_dumpsIndent_cut hf (ledgerJson_plain h) (ledgerJson_ints hi h) hn
  rw [loadRecords,ledgerText]
  have hc : loadsText float intPrints (ofAscii ((ledgerJson ds).dumpsIndent.take n))=none := hl
  rw [hc]

end Load

end Text

end AgentTorrent
