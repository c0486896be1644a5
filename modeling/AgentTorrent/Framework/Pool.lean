import Mathlib.Data.List.Basic
import Mathlib.Data.List.Forall2

namespace Framework

/-- Threads that take turns on a shared state. -/
structure Pool (σ τ : Type*) where
  shared : σ
  threads : List τ

namespace Pool

variable {σ τ : Type*}

/-- The moves of a pool: a thread takes a turn, a thread is born, the surroundings
change the shared state, or all threads are replaced at once. -/
inductive Step (turn : Nat → σ → τ → σ → τ → Prop) (born : τ → Prop) (around : σ → σ → Prop)
    (reset : σ → σ → τ → Prop) : Pool σ τ → Pool σ τ → Prop
  | turn (p : Pool σ τ) (i : Nat) (t : τ) (s : σ) (t' : τ) (hi : p.threads[i]?=some t)
      (h : turn i p.shared t s t') : Step turn born around reset p ⟨s,p.threads.set i t'⟩
  | spawn (p : Pool σ τ) (t : τ) (h : born t) :
      Step turn born around reset p ⟨p.shared,p.threads++[t]⟩
  | around (p : Pool σ τ) (s : σ) (h : around p.shared s) :
      Step turn born around reset p ⟨s,p.threads⟩
  | reset (p : Pool σ τ) (s : σ) (t : τ) (h : reset p.shared s t) :
      Step turn born around reset p ⟨s,p.threads.map fun _ => t⟩

/-- An invariant of the shared state, which may know how many threads were born,
and one of each thread about itself and the shared state. -/
structure Good (S : σ → Nat → Prop) (J : σ → Nat → τ → Prop) (p : Pool σ τ) : Prop where
  shared : S p.shared p.threads.length
  each : ∀i t,p.threads[i]?=some t → J p.shared i t

theorem good_empty {S : σ → Nat → Prop} {J : σ → Nat → τ → Prop} {s : σ} (h : S s 0) :
    Good S J ⟨s,[]⟩ where
  shared := h
  each i t ht := by simp at ht

/-- A thread after a turn of thread k: the one that it became, or another one as before. -/
theorem get_set {ts : List τ} {i k : Nat} {t u : τ} (h : (ts.set k t)[i]?=some u) :
    i=k ∧ u=t ∨ i≠k ∧ ts[i]?=some u := by
  rw [List.getElem?_set] at h
  split_ifs at h with hi hl
  · exact .inl ⟨hi.symm,(Option.some.inj h).symm⟩
  · exact .inr ⟨fun e => hi e.symm,h⟩

/-- A thread after a birth: one as before, or the new one. -/
theorem get_spawn {ts : List τ} {i : Nat} {t u : τ} (h : (ts++[t])[i]?=some u) :
    ts[i]?=some u ∨ i=ts.length ∧ u=t := by
  rw [List.getElem?_append] at h
  split_ifs at h with hl
  · exact .inl h
  · rw [List.getElem?_singleton] at h
    split_ifs at h with hz
    exact .inr ⟨by omega,(Option.some.inj h).symm⟩

theorem get_older {ts : List τ} {i : Nat} {t : τ} (h : ts[i]?=some t) (u : τ) :
    (ts++[u])[i]?=some t := by
  rw [List.getElem?_append_left (List.getElem?_eq_some_iff.mp h).1]
  exact h

variable {turn : Nat → σ → τ → σ → τ → Prop} {born : τ → Prop} {around : σ → σ → Prop}
  {reset : σ → σ → τ → Prop} {S : σ → Nat → Prop} {J : σ → Nat → τ → Prop}

/-- The rule for what holds of each thread, where more is known of the pool before the
step. -/
theorem Step.each {p q : Pool σ τ} (h : Step turn born around reset p q)
    (own : ∀i t s t',p.threads[i]?=some t → turn i p.shared t s t' → J s i t')
    (others : ∀i t s t' k u,p.threads[i]?=some t → p.threads[k]?=some u → k≠i →
      turn i p.shared t s t' → J s k u)
    (older : ∀i t,p.threads[i]?=some t → J p.shared i t)
    (spawned : ∀t,born t → J p.shared p.threads.length t)
    (around_keeps : ∀s i t,p.threads[i]?=some t → around p.shared s → J s i t)
    (reset_keeps : ∀s u i t,p.threads[i]?=some t → reset p.shared s u → J s i u) :
    ∀i t,q.threads[i]?=some t → J q.shared i t := by
  intro k u hk
  cases h with
  | turn i t s t' hi h =>
    by_cases hki : k=i
    · subst hki
      rw [List.getElem?_set_self (List.getElem?_eq_some_iff.mp hi).1] at hk
      cases hk
      exact own k t s u hi h
    · rw [List.getElem?_set_ne fun e => hki e.symm] at hk
      exact others i t s t' k u hi hk hki h
  | spawn t h =>
    rcases Nat.lt_or_ge k p.threads.length with hl | hl
    · rw [List.getElem?_append_left hl] at hk
      exact older k u hk
    · rw [List.getElem?_append_right hl,List.getElem?_singleton] at hk
      split_ifs at hk with hz
      have he : k=p.threads.length := by omega
      subst he
      cases hk
      exact spawned u h
  | around s h => exact around_keeps s k u hk h
  | reset s t h =>
    rw [List.getElem?_map,Option.map_eq_some_iff] at hk
    obtain ⟨v,hv,rfl⟩ := hk
    exact reset_keeps s t k v hv h

/-- The rule of non-interference: a turn keeps the shared invariant and the thread's
own one, and it keeps that of every other thread. -/
theorem Step.good {p q : Pool σ τ} (h : Step turn born around reset p q) (hp : Good S J p)
    (own : ∀n i s t s' t',i < n → S s n → J s i t → turn i s t s' t' → S s' n ∧ J s' i t')
    (others : ∀n i s t s' t' k u,i < n → k≠i → S s n → J s i t → J s k u → turn i s t s' t' →
      J s' k u)
    (spawned : ∀n s t,S s n → born t → S s (n+1) ∧ J s n t)
    (around_keeps : ∀n s s',S s n → around s s' → S s' n ∧ ∀i t,J s i t → J s' i t)
    (reset_keeps : ∀n s s' u,S s n → reset s s' u → S s' n ∧ ∀i,J s' i u) : Good S J q := by
  obtain ⟨hs,hj⟩ := hp
  have born_before {i : Nat} {t : τ} (hi : p.threads[i]?=some t) : i < p.threads.length :=
    (List.getElem?_eq_some_iff.mp hi).1
  constructor
  · cases h with
    | turn i t s t' hi h => simpa using (own _ i _ t s t' (born_before hi) hs (hj i t hi) h).1
    | spawn t h => simpa using (spawned _ _ t hs h).1
    | around s h => exact (around_keeps _ _ _ hs h).1
    | reset s t h => simpa using (reset_keeps _ _ s t hs h).1
  · refine @Step.each _ _ _ _ _ _ J _ _ h ?_ ?_ hj ?_ ?_ ?_
    · intro i t s t' hi h
      exact (own _ i _ t s t' (born_before hi) hs (hj i t hi) h).2
    · intro i t s t' k u hi hk hki h
      exact others _ i _ t s t' k u (born_before hi) hki hs (hj i t hi) (hj k u hk) h
    · intro t h
      exact (spawned _ _ t hs h).2
    · intro s i t hi h
      exact (around_keeps _ _ _ hs h).2 i t (hj i t hi)
    · intro s u i t hi h
      exact (reset_keeps _ _ s u hs h).2 i

section Matched

variable {υ : Type*}

/-- Two pools with the same shared state, whose threads are related one by one. -/
structure Matched (R : τ → υ → Prop) (p : Pool σ τ) (q : Pool σ υ) : Prop where
  shared : q.shared=p.shared
  threads : List.Forall₂ R p.threads q.threads

variable {R : τ → υ → Prop} {p : Pool σ τ} {q : Pool σ υ}

theorem matched_empty (s : σ) : Matched R (⟨s,[]⟩ : Pool σ τ) ⟨s,[]⟩ := ⟨rfl,.nil⟩

theorem Matched.thread (h : Matched R p q) {i : Nat} {t : τ} (hi : p.threads[i]?=some t) :
    ∃u,q.threads[i]?=some u ∧ R t u := by
  obtain ⟨hl,ht⟩ := List.getElem?_eq_some_iff.mp hi
  have hr := hl
  rw [h.threads.length_eq] at hr
  have hR := h.threads.get hl hr
  simp only [List.get_eq_getElem,ht] at hR
  exact ⟨_,List.getElem?_eq_getElem hr,hR⟩

theorem Matched.back (h : Matched R p q) {i : Nat} {u : υ} (hi : q.threads[i]?=some u) :
    ∃t,p.threads[i]?=some t ∧ R t u := by
  have hl := (List.getElem?_eq_some_iff.mp hi).1
  rw [← h.threads.length_eq] at hl
  have ht := List.getElem?_eq_getElem hl
  obtain ⟨v,hv,hR⟩ := h.thread ht
  cases hi.symm.trans hv
  exact ⟨_,ht,hR⟩

theorem Matched.set (h : Matched R p q) (i : Nat) (s : σ) {t : τ} {u : υ} (hR : R t u) :
    Matched R ⟨s,p.threads.set i t⟩ ⟨s,q.threads.set i u⟩ := by
  refine ⟨rfl,List.forall₂_iff_get.mpr ⟨by simp [h.threads.length_eq],fun k hk hk' => ?_⟩⟩
  simp only [List.get_eq_getElem,List.getElem_set]
  split_ifs
  · exact hR
  · rw [List.length_set] at hk hk'
    exact h.threads.get hk hk'

theorem Matched.spawn (h : Matched R p q) {t : τ} {u : υ} (hR : R t u) :
    Matched R ⟨p.shared,p.threads++[t]⟩ ⟨q.shared,q.threads++[u]⟩ :=
  ⟨h.shared,List.rel_append h.threads (.cons hR .nil)⟩

end Matched

section Measure

/-- A measure of thread k, which is n before the thread is born. -/
def measure (f : τ → Nat) (n k : Nat) (p : Pool σ τ) : Nat := ((p.threads[k]?).map f).getD n

variable {f : τ → Nat} {n : Nat} {p : Pool σ τ}

theorem measure_thread {k : Nat} {t : τ} (h : p.threads[k]?=some t) : p.measure f n k=f t := by
  simp [measure,h]

theorem measure_le (h : ∀t,f t ≤ n) (p : Pool σ τ) (k : Nat) : p.measure f n k ≤ n := by
  simp only [measure]
  cases p.threads[k]? with
  | none => exact Nat.le_refl n
  | some t => exact h t

theorem measure_set_self {k : Nat} {t : τ} (h : p.threads[k]?=some t) (s : σ) (u : τ) :
    (⟨s,p.threads.set k u⟩ : Pool σ τ).measure f n k=f u := by
  simp [measure,List.getElem?_set_self (List.getElem?_eq_some_iff.mp h).1]

theorem measure_set_ne {i k : Nat} (h : i≠k) (s : σ) (u : τ) :
    (⟨s,p.threads.set i u⟩ : Pool σ τ).measure f n k=p.measure f n k := by
  simp [measure,List.getElem?_set_ne h]

theorem measure_set_le {i : Nat} {t u : τ} (h : p.threads[i]?=some t) (hf : f u ≤ f t) (s : σ)
    (k : Nat) : (⟨s,p.threads.set i u⟩ : Pool σ τ).measure f n k ≤ p.measure f n k := by
  by_cases hk : i=k
  · subst hk
    rw [measure_set_self h,measure_thread h]
    exact hf
  · exact Nat.le_of_eq (measure_set_ne hk s u)

/-- A thread that is born has no more than was counted for it before. -/
theorem measure_spawn {t : τ} (h : f t ≤ n) (s : σ) (k : Nat) :
    (⟨s,p.threads++[t]⟩ : Pool σ τ).measure f n k ≤ p.measure f n k := by
  simp only [measure]
  rcases Nat.lt_trichotomy k p.threads.length with hk | hk | hk
  · exact Nat.le_of_eq (by rw [List.getElem?_append_left hk])
  · subst hk
    simpa using h
  · have hlong : (p.threads++[t]).length ≤ k := by simpa using Nat.succ_le_of_lt hk
    exact Nat.le_of_eq
      (by rw [List.getElem?_eq_none (Nat.le_of_lt hk),List.getElem?_eq_none hlong])

theorem measure_reset {t : τ} (h : f t=0) (s : σ) (k : Nat) :
    (⟨s,p.threads.map fun _ => t⟩ : Pool σ τ).measure f n k ≤ p.measure f n k := by
  simp only [measure,List.getElem?_map]
  cases p.threads[k]? with
  | none => exact Nat.le_refl n
  | some u => simp [h]

end Measure

end Pool
end Framework
