import Mathlib.Data.List.Basic

namespace Framework

/-- One direction of a connection: all that was put in, oldest first, and how much
of it the far side has taken out, in that order. -/
structure Channel (μ : Type*) where
  written : List μ
  taken : Nat
  bound : taken ≤ written.length

namespace Channel

variable {μ : Type*}

def empty : Channel μ := ⟨[],0,Nat.le_refl 0⟩

def put (c : Channel μ) (m : μ) : Channel μ :=
  ⟨c.written++[m],c.taken,Nat.le_trans c.bound (by simp)⟩

/-- The oldest message that was not taken out, and the channel without it. -/
def take (c : Channel μ) : Option (μ×Channel μ) :=
  if h : c.taken < c.written.length then some (c.written[c.taken],⟨c.written,c.taken+1,h⟩)
  else none

/-- What the far side has taken out. -/
def heard (c : Channel μ) : List μ := c.written.take c.taken

@[simp] theorem empty_written : (empty : Channel μ).written=[] := rfl

@[simp] theorem empty_taken : (empty : Channel μ).taken=0 := rfl

@[simp] theorem empty_heard : (empty : Channel μ).heard=[] := rfl

@[simp] theorem put_written (c : Channel μ) (m : μ) : (c.put m).written=c.written++[m] := rfl

@[simp] theorem put_taken (c : Channel μ) (m : μ) : (c.put m).taken=c.taken := rfl

/-- Putting in changes nothing for the side that takes out. -/
@[simp] theorem put_heard (c : Channel μ) (m : μ) : (c.put m).heard=c.heard :=
  List.take_append_of_le_length c.bound

theorem written_of_heard {c : Channel μ} {m : μ} (h : m∈c.heard) : m∈c.written :=
  List.mem_of_mem_take h

theorem take_some {c d : Channel μ} {m : μ} (h : c.take=some (m,d)) :
    c.written[c.taken]?=some m ∧ d.written=c.written ∧ d.taken=c.taken+1 ∧
      d.heard=c.heard++[m] := by
  unfold take at h
  split_ifs at h with hl
  have he := Option.some.inj h
  rw [Prod.mk.injEq] at he
  obtain ⟨rfl,rfl⟩ := he
  exact ⟨List.getElem?_eq_getElem hl,rfl,rfl,List.take_succ_eq_append_getElem hl⟩

end Channel
end Framework
