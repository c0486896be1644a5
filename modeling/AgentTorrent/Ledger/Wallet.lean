import Mathlib.Data.Finset.Card

namespace AgentTorrent

/-- What a ledger is for: a spendable amount that cannot go below zero, and for
each job at most one escrow, closed at most once, and at most one credit. -/
@[ext] structure Wallet (J : Type) where
  spendable : Nat
  opened : Finset J
  closed : Finset J
  worked : Finset J
  apart : Disjoint opened closed

namespace Wallet

variable {J : Type}

def start (amount : Nat) : Wallet J := ⟨amount,∅,∅,∅,Finset.disjoint_empty_left _⟩

def CanEscrow (w : Wallet J) (j : J) : Prop :=
  0 < w.spendable ∧ j∉w.opened ∧ j∉w.closed ∧ j∉w.worked

variable [DecidableEq J]

def escrow (w : Wallet J) (j : J) (h : w.CanEscrow j) : Wallet J where
  spendable := w.spendable-1
  opened := insert j w.opened
  closed := w.closed
  worked := w.worked
  apart := Finset.disjoint_insert_left.mpr ⟨h.2.2.1,w.apart⟩

/-- Closing pays the escrowed unit out or takes it back. -/
def close (w : Wallet J) (j : J) (back : Bool) : Wallet J where
  spendable := w.spendable+back.toNat
  opened := w.opened.erase j
  closed := insert j w.closed
  worked := w.worked
  apart := Finset.disjoint_insert_right.mpr ⟨Finset.notMem_erase j _,
    w.apart.mono_left (Finset.erase_subset j _)⟩

def credit (w : Wallet J) (j : J) : Wallet J :=
  {w with spendable := w.spendable+1,worked := insert j w.worked}

section Fields

variable (w : Wallet J) (j : J) (h : w.CanEscrow j) (back : Bool)

@[simp] theorem escrow_spendable : (w.escrow j h).spendable=w.spendable-1 := rfl

@[simp] theorem escrow_opened : (w.escrow j h).opened=insert j w.opened := rfl

@[simp] theorem escrow_closed : (w.escrow j h).closed=w.closed := rfl

@[simp] theorem escrow_worked : (w.escrow j h).worked=w.worked := rfl

@[simp] theorem close_spendable : (w.close j back).spendable=w.spendable+back.toNat := rfl

@[simp] theorem close_opened : (w.close j back).opened=w.opened.erase j := rfl

@[simp] theorem close_closed : (w.close j back).closed=insert j w.closed := rfl

@[simp] theorem close_worked : (w.close j back).worked=w.worked := rfl

@[simp] theorem credit_spendable : (w.credit j).spendable=w.spendable+1 := rfl

@[simp] theorem credit_opened : (w.credit j).opened=w.opened := rfl

@[simp] theorem credit_closed : (w.credit j).closed=w.closed := rfl

@[simp] theorem credit_worked : (w.credit j).worked=insert j w.worked := rfl

end Fields

/-- The moves of a wallet. A move that is not allowed has no successor. -/
inductive Step : Wallet J → Wallet J → Prop
  | escrow (w : Wallet J) (j : J) (h : w.CanEscrow j) : Step w (w.escrow j h)
  | close (w : Wallet J) (j : J) (back : Bool) (h : j∈w.opened) : Step w (w.close j back)
  | credit (w : Wallet J) (j : J) (h : j∉w.worked) : Step w (w.credit j)

end Wallet
end AgentTorrent
