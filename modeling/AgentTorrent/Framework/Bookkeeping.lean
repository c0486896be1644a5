import Mathlib.Algebra.BigOperators.Group.Finset.Piecewise
import Mathlib.Algebra.BigOperators.Group.List.Basic

namespace Framework.Bookkeeping

/-- One line of a double-entry booking: an account and the change it takes. -/
@[ext] structure Entry (α M : Type*) where
  account : α
  delta : M
  deriving DecidableEq

variable {α M : Type*} [AddCommMonoid M]

def total (es : List (Entry α M)) : M := (es.map Entry.delta).sum

def ZeroSum (es : List (Entry α M)) : Prop := total es=0

@[simp] theorem total_nil : total ([] : List (Entry α M))=0 := rfl

@[simp] theorem total_cons (e : Entry α M) (es : List (Entry α M)) :
    total (e::es)=e.delta+total es := by simp [total]

@[simp] theorem total_append (es fs : List (Entry α M)) :
    total (es++fs)=total es+total fs := by simp [total]

/-- A journal of balanced bookings is balanced. -/
theorem zeroSum_flatMap {β : Type*} (f : β → List (Entry α M)) (bs : List β)
    (h : ∀b∈bs,ZeroSum (f b)) : ZeroSum (bs.flatMap f) := by
  induction bs with
  | nil => rfl
  | cons b bs ih =>
    have hb : total (f b)=0 := h b (by simp)
    have ht : total (bs.flatMap f)=0 := ih fun c hc => h c (by simp [hc])
    simp only [ZeroSum,List.flatMap_cons,total_append,hb,ht,add_zero]

variable [DecidableEq α]

def balance (es : List (Entry α M)) (a : α) : M :=
  total (es.filter fun e => e.account=a)

@[simp] theorem balance_nil (a : α) : balance ([] : List (Entry α M)) a=0 := rfl

@[simp] theorem balance_cons (e : Entry α M) (es : List (Entry α M)) (a : α) :
    balance (e::es) a=(if e.account=a then e.delta else 0)+balance es a := by
  by_cases h : e.account=a <;> simp [balance,h]

@[simp] theorem balance_append (es fs : List (Entry α M)) (a : α) :
    balance (es++fs) a=balance es a+balance fs a := by
  simp [balance,List.filter_append]

/-- The trial balance: over any set of accounts that covers the booking, the
balances add up to the booking's total. -/
theorem sum_balance (es : List (Entry α M)) (s : Finset α)
    (hs : ∀e∈es,e.account∈s) : ∑ a ∈ s,balance es a=total es := by
  induction es with
  | nil => simp
  | cons e es ih =>
    have he : e.account∈s := hs e (by simp)
    have ht := ih fun f hf => hs f (by simp [hf])
    simp only [balance_cons,Finset.sum_add_distrib,ht,total_cons]
    rw [Finset.sum_ite_eq s e.account,if_pos he]

/-- Double-entry conservation: all accounts of a journal of balanced bookings
sum to zero. -/
theorem journal_sum_zero {β : Type*} (f : β → List (Entry α M)) (bs : List β)
    (h : ∀b∈bs,ZeroSum (f b)) (s : Finset α)
    (hs : ∀e∈bs.flatMap f,e.account∈s) : ∑ a ∈ s,balance (bs.flatMap f) a=0 :=
  (sum_balance _ s hs).trans (zeroSum_flatMap f bs h)

end Framework.Bookkeeping
