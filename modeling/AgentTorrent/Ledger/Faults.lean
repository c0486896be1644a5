import AgentTorrent.Ledger.Invariant

namespace AgentTorrent

/-- A call of one of the operations that book a record. -/
inductive LedgerCall
  | escrow (job worker : PyStr)
  | settle (job worker : PyStr)
  | refund (job : PyStr)
  | creditForWork (job requester : PyStr)

namespace LedgerCall

def run (fault : Option FileFault) (c : LedgerCall) (L : Ledger) : Ledger×Except PyExc Unit :=
  match c with
  | .escrow job worker => L.escrow fault job worker
  | .settle job worker => L.settle fault job worker
  | .refund job => L.refund fault job
  | .creditForWork job requester => L.creditForWork fault job requester

/-- The record that the call hands to _append. -/
def record : LedgerCall → Record
  | .escrow job worker => escrowRecord job worker
  | .settle job worker => settleRecord job worker
  | .refund job => refundRecord job
  | .creditForWork job requester => workRecord job requester

/-- The checks in front of _append let the call pass. -/
def Passes (c : LedgerCall) (L : Ledger) : Prop :=
  match c with
  | .escrow job _ => jobPrice ≤ L.balance selfAccount ∧ L.jobRecords job=[]
  | .settle job _ | .refund job => L.requireOpenEscrow job=.ok ()
  | .creditForWork job _ => L.hasKind job .work=false

instance (c : LedgerCall) (L : Ledger) : Decidable (c.Passes L) := by
  cases c <;> unfold Passes <;> infer_instance

theorem run_passed {c : LedgerCall} {L : Ledger} (h : c.Passes L) (fault : Option FileFault) :
    c.run fault L=L.append fault c.record := by
  cases c with
  | escrow job worker =>
    obtain ⟨hb,hj⟩ := h
    rw [run,Ledger.escrow,if_neg (not_lt.mpr hb),if_neg (not_not.mpr hj)]
    rfl
  | settle job worker =>
    rw [Passes] at h
    rw [run,Ledger.settle,h]
    rfl
  | refund job =>
    rw [Passes] at h
    rw [run,Ledger.refund,h]
    rfl
  | creditForWork job requester =>
    rw [Passes] at h
    rw [run,Ledger.creditForWork,if_neg (by simp [h])]
    rfl

theorem run_refused {c : LedgerCall} {L : Ledger} (h : ¬c.Passes L) (fault : Option FileFault) :
    ∃msg,c.run fault L=(L,.error (.ledgerError msg)) := by
  cases c with
  | escrow job worker =>
    rw [Passes,not_and] at h
    simp only [run,Ledger.escrow]
    split_ifs with hb hj
    · exact ⟨_,rfl⟩
    · exact ⟨_,rfl⟩
    · exact absurd (not_not.mp hj) (h (not_lt.mp hb))
  | settle job worker | refund job =>
    rcases L.requireOpenEscrow_cases job with ⟨msg,hm⟩ | ⟨hm,-⟩
    · simp only [run,Ledger.settle,Ledger.refund,hm]
      exact ⟨msg,rfl⟩
    · exact absurd hm h
  | creditForWork job requester =>
    rw [Passes,Bool.not_eq_false] at h
    simp only [run,Ledger.creditForWork,h,if_true]
    exact ⟨_,rfl⟩

end LedgerCall

/-- What a failed file operation does: it raises, and the record is in memory. -/
theorem append_fault (f : FileFault) (r : Record) (L : Ledger) :
    (L.append (some f) r).2=.error .osError ∧ (L.append (some f) r).1.records=L.records++[r] := by
  cases f <;> exact ⟨rfl,rfl⟩

/-- Calls one after the other, each with the file operation that fails in it. -/
def runCalls : List (Option FileFault×LedgerCall) → Ledger → Ledger
  | [],L => L
  | (fault,c)::cs,L => runCalls cs (c.run fault L).1

/-- The records of those calls that return. -/
def bookedBy : List (Option FileFault×LedgerCall) → Ledger → List Record
  | [],_ => []
  | (fault,c)::cs,L => match c.run fault L with
    | (L',.ok ()) => c.record::bookedBy cs L'
    | (L',.error _) => bookedBy cs L'

/-- What is asked of a call that raises because a file operation fails: the state is
what it was, and every later call that returns writes the records from before, those
of the calls that returned, and no other. -/
def AtomicOnFailure (fault : Option FileFault) (c : LedgerCall) (L : Ledger) : Prop :=
  (c.run fault L).2=.error .osError →
    (c.run fault L).1.records=L.records ∧
    (∀a,(c.run fault L).1.balance a=L.balance a) ∧
    (c.run fault L).1.canOffer=L.canOffer ∧
    (∀j,(c.run fault L).1.IsOpen j ↔ L.IsOpen j) ∧
    ∀cs (later : LedgerCall) L',later.run none (runCalls cs (c.run fault L).1)=(L',.ok ()) →
      L'.disk.ledgerFile=some (L.records++bookedBy (cs++[(none,later)]) (c.run fault L).1)

theorem call_raises_iff (fault : Option FileFault) (c : LedgerCall) (L : Ledger) :
    (c.run fault L).2=.error .osError ↔ fault≠none ∧ c.Passes L := by
  by_cases hp : c.Passes L
  · rw [LedgerCall.run_passed hp]
    cases fault with
    | none => simp [Ledger.append]
    | some f => simp [append_fault f,hp]
  · obtain ⟨msg,hm⟩ := LedgerCall.run_refused hp fault
    simp [hm,hp]

theorem failed_call_books {fault : Option FileFault} {c : LedgerCall} {L : Ledger}
    (hf : fault≠none) (hp : c.Passes L) : (c.run fault L).1.records=L.records++[c.record] := by
  obtain ⟨f,rfl⟩ := Option.ne_none_iff_exists'.mp hf
  rw [LedgerCall.run_passed hp]
  exact (append_fault f c.record L).2

/-- The next call that returns writes the failed record to the ledger file. -/
theorem failed_record_lands {fault : Option FileFault} {c later : LedgerCall} {L L' : Ledger}
    (hf : fault≠none) (hp : c.Passes L) (h : later.run none (c.run fault L).1=(L',.ok ())) :
    L'.disk.ledgerFile=some (L.records++[c.record,later.record]) := by
  have hl : later.Passes (c.run fault L).1 := by
    by_contra hn
    obtain ⟨msg,hm⟩ := LedgerCall.run_refused hn none
    rw [hm] at h
    cases h
  rw [LedgerCall.run_passed hl,Ledger.append_ok] at h
  cases h
  rw [Ledger.extend_file,Ledger.extend_records,failed_call_books hf hp,List.append_assoc]
  rfl

theorem not_atomic {fault : Option FileFault} {c : LedgerCall} {L : Ledger} (hf : fault≠none)
    (hp : c.Passes L) : ¬AtomicOnFailure fault c L := by
  intro h
  have hr := (h ((call_raises_iff fault c L).mpr ⟨hf,hp⟩)).1
  rw [failed_call_books hf hp] at hr
  simpa using congrArg List.length hr

/-- A call is atomic on failure exactly where none of its file operations fails or its
checks refuse it. Where one fails, the record stays in memory, and it reaches the
file with the next call that returns. -/
theorem atomic_on_failure_iff (fault : Option FileFault) (c : LedgerCall) (L : Ledger) :
    (AtomicOnFailure fault c L ↔ fault=none ∨ ¬c.Passes L) ∧
    (fault≠none → c.Passes L → (c.run fault L).1.records=L.records++[c.record] ∧
      ∀(later : LedgerCall) L',later.run none (c.run fault L).1=(L',.ok ()) →
        L'.disk.ledgerFile=some (L.records++[c.record,later.record])) := by
  refine ⟨?_,fun hf hp => ⟨failed_call_books hf hp,fun later L' => failed_record_lands hf hp⟩⟩
  constructor
  · intro h
    by_contra hn
    rw [not_or,not_not] at hn
    exact not_atomic hn.1 hn.2 h
  · intro h hr
    obtain ⟨hf,hp⟩ := (call_raises_iff fault c L).mp hr
    rcases h with h | h
    · exact absurd h hf
    · exact absurd hp h

/-- A disk that is full when the temporary file is written: the credit of an escrow that
raised is gone, and the credit for other work takes the record to the file. -/
theorem escrow_on_full_disk :
    let c : LedgerCall := .escrow (lit "6f1c") (lit "e675")
    ¬AtomicOnFailure (some .writeTmp) c Ledger.fresh ∧
    (c.run (some .writeTmp) Ledger.fresh).2=.error .osError ∧
    (c.run (some .writeTmp) Ledger.fresh).1.balance selfAccount=9 ∧
    ((LedgerCall.creditForWork (lit "0d5a") (lit "e675")).run none
      (c.run (some .writeTmp) Ledger.fresh).1).1.disk.ledgerFile=
        some [openingRecord,c.record,workRecord (lit "0d5a") (lit "e675")] := by
  have hp : (LedgerCall.escrow (lit "6f1c") (lit "e675")).Passes Ledger.fresh := by decide
  refine ⟨not_atomic (by simp) hp,?_,?_,?_⟩
  · exact (call_raises_iff ..).mpr ⟨by simp,hp⟩
  · decide
  · decide

end AgentTorrent
