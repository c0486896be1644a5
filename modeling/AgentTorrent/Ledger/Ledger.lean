import AgentTorrent.Framework.Bookkeeping
import AgentTorrent.Python.Platform

open Framework.Bookkeeping

namespace AgentTorrent

def openingBalance : Int := 10

def jobPrice : Int := 1

def selfAccount : PyStr := lit "self"

def genesisAccount : PyStr := lit "genesis"

def escrowAccount : PyStr := lit "escrow"

inductive RecordKind
  | opening
  | escrow
  | settle
  | refund
  | work
  deriving DecidableEq

/-- A ledger record. The balance assertion of _append is the last field. -/
@[ext] structure Record where
  kind : RecordKind
  jobId : Option PyStr
  entries : List (Entry PyStr Int)
  memo : PyStr
  balanced : ZeroSum entries

instance : DecidableEq Record := fun a b =>
  decidable_of_iff (a.kind=b.kind ∧ a.jobId=b.jobId ∧ a.entries=b.entries ∧ a.memo=b.memo)
    Record.ext_iff.symm

/-- A booking of one amount from an account to another. -/
def transfer (amount : Int) (source target : PyStr) : List (Entry PyStr Int) :=
  [⟨source,-amount⟩,⟨target,amount⟩]

theorem transfer_balanced (amount : Int) (source target : PyStr) :
    ZeroSum (transfer amount source target) := by
  simp [ZeroSum,transfer]

def openingRecord : Record where
  kind := .opening
  jobId := none
  entries := transfer openingBalance genesisAccount selfAccount
  memo := lit "opening balance"
  balanced := transfer_balanced ..

def escrowRecord (job worker : PyStr) : Record where
  kind := .escrow
  jobId := some job
  entries := transfer jobPrice selfAccount escrowAccount
  memo := lit "escrow 1 credit for job offered to "++worker.take 8
  balanced := transfer_balanced ..

def settleRecord (job worker : PyStr) : Record where
  kind := .settle
  jobId := some job
  entries := transfer jobPrice escrowAccount worker
  memo := lit "paid 1 credit to worker "++worker.take 8
  balanced := transfer_balanced ..

def refundRecord (job : PyStr) : Record where
  kind := .refund
  jobId := some job
  entries := transfer jobPrice escrowAccount selfAccount
  memo := lit "refund: job was rejected, failed, or timed out"
  balanced := transfer_balanced ..

def workRecord (job requester : PyStr) : Record where
  kind := .work
  jobId := some job
  entries := transfer jobPrice requester selfAccount
  memo := lit "earned 1 credit from requester "++requester.take 8
  balanced := transfer_balanced ..

/-- A file that is being written holds all records of the write or a torn part. -/
inductive FileContent
  | whole (records : List Record)
  | torn
  deriving DecidableEq

structure Disk where
  ledgerFile : Option (List Record)
  tmpFile : Option FileContent
  deriving DecidableEq

def Disk.empty : Disk := ⟨none,none⟩

structure Ledger where
  records : List Record
  disk : Disk
  deriving DecidableEq

/-- The file operation of _append that raises OSError, if one does. -/
inductive FileFault
  | mkdir
  | writeTmp
  | replace
  deriving DecidableEq

namespace Ledger

/-- _append: the record is in memory before the first file operation. -/
def append (fault : Option FileFault) (r : Record) (L : Ledger) : Ledger×Except PyExc Unit :=
  let records := L.records++[r]
  match fault with
  | some .mkdir => (⟨records,L.disk⟩,.error .osError)
  | some .writeTmp => (⟨records,{L.disk with tmpFile := some .torn}⟩,.error .osError)
  | some .replace => (⟨records,{L.disk with tmpFile := some (.whole records)}⟩,.error .osError)
  | none => (⟨records,⟨some records,none⟩⟩,.ok ())

/-- Ledger.__init__ on a given disk. -/
def load (disk : Disk) : Ledger :=
  match disk.ledgerFile with
  | some records => ⟨records,disk⟩
  | none => (append none openingRecord ⟨[],disk⟩).1

def fresh : Ledger := load .empty

def balance (L : Ledger) (account : PyStr) : Int :=
  Framework.Bookkeeping.balance (L.records.flatMap Record.entries) account

def jobRecords (L : Ledger) (job : PyStr) : List Record :=
  L.records.filter fun r => r.jobId=some job

def canOffer (L : Ledger) : Bool := jobPrice ≤ L.balance selfAccount

def hasKind (L : Ledger) (job : PyStr) (k : RecordKind) : Bool :=
  (L.jobRecords job).any fun r => r.kind=k

def requireOpenEscrow (L : Ledger) (job : PyStr) : Except PyExc Unit :=
  if ¬L.hasKind job .escrow then .error (.ledgerError (lit "no escrow found for job "++job))
  else if L.hasKind job .settle ∨ L.hasKind job .refund then
    .error (.ledgerError (lit "escrow for job "++job++lit " already closed"))
  else .ok ()

section Operations

variable (fault : Option FileFault)

def escrow (job worker : PyStr) (L : Ledger) : Ledger×Except PyExc Unit :=
  if L.balance selfAccount < jobPrice then
    (L,.error (.ledgerError (lit "balance is zero: cannot offer a task")))
  else if L.jobRecords job≠[] then
    (L,.error (.ledgerError (lit "job "++job++lit " already has ledger records")))
  else L.append fault (escrowRecord job worker)

def settle (job worker : PyStr) (L : Ledger) : Ledger×Except PyExc Unit :=
  match L.requireOpenEscrow job with
  | .error e => (L,.error e)
  | .ok () => L.append fault (settleRecord job worker)

def refund (job : PyStr) (L : Ledger) : Ledger×Except PyExc Unit :=
  match L.requireOpenEscrow job with
  | .error e => (L,.error e)
  | .ok () => L.append fault (refundRecord job)

def creditForWork (job requester : PyStr) (L : Ledger) : Ledger×Except PyExc Unit :=
  if L.hasKind job .work then
    (L,.error (.ledgerError (lit "job "++job++lit " already credited")))
  else L.append fault (workRecord job requester)

end Operations

end Ledger
end AgentTorrent
