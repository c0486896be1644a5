import Mathlib.Data.List.Basic

namespace Framework

/-- A state machine whose labels resolve every choice of the environment;
a step that the environment cannot take is `none`. -/
structure Machine (σ α : Type*) where
  init : σ → Prop
  step : σ → α → Option σ

namespace Machine

variable {σ α : Type*} (M : Machine σ α)

/-- The state after a whole list of labels, oldest first. -/
def run : σ → List α → Option σ
  | s,[] => some s
  | s,a::as => (M.step s a).bind fun t => run t as

def Reachable (t : σ) : Prop := ∃ s as,M.init s ∧ M.run s as=some t

@[simp] theorem run_nil (s : σ) : M.run s []=some s := rfl

@[simp] theorem run_cons (s : σ) (a : α) (as : List α) :
    M.run s (a::as)=(M.step s a).bind fun t => M.run t as := rfl

theorem run_append (s : σ) (as bs : List α) :
    M.run s (as++bs)=(M.run s as).bind fun t => M.run t bs := by
  induction as generalizing s with
  | nil => simp
  | cons a as ih =>
    simp only [List.cons_append,run_cons]
    cases h : M.step s a with
    | none => simp
    | some t => simpa using ih t

theorem Reachable.start {s : σ} (h : M.init s) : M.Reachable s := ⟨s,[],h,rfl⟩

theorem run_getD {s : σ} {as : List α} (h : (M.run s as).isSome=true) :
    M.run s as=some ((M.run s as).getD s) := by
  obtain ⟨t,ht⟩ := Option.isSome_iff_exists.mp h
  rw [ht]
  rfl

theorem Reachable.extend {t u : σ} {as : List α} (h : M.Reachable t)
    (hr : M.run t as=some u) : M.Reachable u := by
  obtain ⟨s,bs,hs,hb⟩ := h
  exact ⟨s,bs++as,hs,by rw [run_append,hb]; exact hr⟩

/-- What every step keeps, every run keeps. -/
theorem run_preserves {P : σ → Prop} (hs : ∀s a t,P s → M.step s a=some t → P t)
    {s t : σ} {as : List α} (h : P s) (hr : M.run s as=some t) : P t := by
  induction as generalizing s with
  | nil =>
    have e : s=t := by simpa using hr
    exact e ▸ h
  | cons a as ih =>
    rw [run_cons,Option.bind_eq_some_iff] at hr
    obtain ⟨u,hu,hr⟩ := hr
    exact ih (hs s a u h hu) hr

/-- The induction rule for invariants over reachable states. -/
theorem Reachable.invariant {P : σ → Prop} (h0 : ∀s,M.init s → P s)
    (hs : ∀s a t,P s → M.step s a=some t → P t) {t : σ} (h : M.Reachable t) : P t := by
  obtain ⟨s,as,hi,hr⟩ := h
  exact M.run_preserves hs (h0 s hi) hr

/-- The states that runs reach whose steps all meet a guard. -/
inductive ReachableBy (G : σ → α → σ → Prop) : σ → Prop
  | start {s : σ} (h : M.init s) : ReachableBy G s
  | step {s t : σ} {a : α} (h : ReachableBy G s) (hs : M.step s a=some t) (hg : G s a t) :
      ReachableBy G t

theorem ReachableBy.reachable {G : σ → α → σ → Prop} {t : σ} (h : M.ReachableBy G t) :
    M.Reachable t := by
  induction h with
  | start h => exact .start M h
  | @step _ _ a _ hs _ ih => exact @Reachable.extend _ _ M _ _ [a] ih (by simp [hs])

theorem ReachableBy.mono {G H : σ → α → σ → Prop} (hG : ∀s a t,G s a t → H s a t) {t : σ}
    (h : M.ReachableBy G t) : M.ReachableBy H t := by
  induction h with
  | start h => exact .start h
  | step _ hs hg ih => exact .step ih hs (hG _ _ _ hg)

theorem Reachable.guarded {t : σ} (h : M.Reachable t) : M.ReachableBy (fun _ _ _ => True) t := by
  obtain ⟨s,as,hs,hr⟩ := h
  exact M.run_preserves (fun _ _ _ hg hm => .step hg hm trivial) (ReachableBy.start hs) hr

/-- Every step of the list meets the guard. -/
def Meets (G : σ → α → σ → Prop) : σ → List α → Prop
  | _,[] => True
  | s,a::as => ∀t,M.step s a=some t → G s a t ∧ Meets G t as

/-- What every step under the guard keeps, a run keeps that meets it. -/
theorem Meets.preserves {G : σ → α → σ → Prop} {I : σ → Prop}
    (hs : ∀s a t,I s → M.step s a=some t → G s a t → I t) {s t : σ} {as : List α} (hi : I s)
    (hr : M.run s as=some t) (hm : M.Meets G s as) : I t := by
  induction as generalizing s with
  | nil =>
    have e : s=t := by simpa using hr
    exact e ▸ hi
  | cons a as ih =>
    rw [run_cons,Option.bind_eq_some_iff] at hr
    obtain ⟨u,hu,hr⟩ := hr
    obtain ⟨hg,hm⟩ := hm u hu
    exact ih (hs s a u hi hu hg) hr hm

theorem Meets.and {G H K : σ → α → σ → Prop} (hK : ∀s a t,G s a t → H s a t → K s a t) {s : σ}
    {as : List α} (hg : M.Meets G s as) (hh : M.Meets H s as) : M.Meets K s as := by
  induction as generalizing s with
  | nil => trivial
  | cons a as ih =>
    intro t ht
    obtain ⟨hg,hgs⟩ := hg t ht
    obtain ⟨hh,hhs⟩ := hh t ht
    exact ⟨hK s a t hg hh,ih hgs hhs⟩

/-- Where a measure never grows and the counted labels make it fall, a run has no more of
them than the measure of its start. -/
theorem Meets.countP_le {G : σ → α → σ → Prop} {I : σ → Prop} {μ : σ → Nat} {p : α → Bool}
    (hs : ∀s a t,I s → G s a t → M.step s a=some t → I t ∧ μ t+(if p a then 1 else 0) ≤ μ s)
    {s t : σ} {as : List α} (hi : I s) (hr : M.run s as=some t) (hm : M.Meets G s as) :
    as.countP p+μ t ≤ μ s := by
  induction as generalizing s with
  | nil =>
    have e : s=t := by simpa using hr
    simp [e]
  | cons a as ih =>
    rw [run_cons,Option.bind_eq_some_iff] at hr
    obtain ⟨u,hu,hr⟩ := hr
    obtain ⟨hg,hm⟩ := hm u hu
    obtain ⟨hi,hle⟩ := hs s a u hi hg hu
    have := ih hi hr hm
    rw [List.countP_cons]
    omega

/-- Where no step makes a measure grow and the counted labels make it fall until it is zero,
it is zero after as many of them as it was at the start. -/
theorem run_exhausts {μ : σ → Nat} {p : α → Bool}
    (hs : ∀s a t,M.step s a=some t → μ t ≤ μ s-(if p a then 1 else 0)) {s t : σ} {as : List α}
    (hr : M.run s as=some t) : μ t ≤ μ s-as.countP p := by
  induction as generalizing s with
  | nil =>
    have e : s=t := by simpa using hr
    simp [e]
  | cons a as ih =>
    rw [run_cons,Option.bind_eq_some_iff] at hr
    obtain ⟨u,hu,hr⟩ := hr
    have hle := hs s a u hu
    have := ih hr
    rw [List.countP_cons]
    omega

/-- A guard on the state before the step, evaluated along a list of labels. -/
def checks (check : σ → α → Bool) : σ → List α → Bool
  | _,[] => true
  | s,a::as => check s a && (M.step s a).all fun t => checks check t as

theorem meets_of_checked {G : σ → α → σ → Prop} {check : σ → α → Bool}
    (hc : ∀s a t,check s a=true → M.step s a=some t → G s a t) {s : σ} {as : List α}
    (h : M.checks check s as=true) : M.Meets G s as := by
  induction as generalizing s with
  | nil => trivial
  | cons a as ih =>
    intro t ht
    rw [checks,Bool.and_eq_true,ht] at h
    exact ⟨hc s a t h.1 ht,ih h.2⟩

theorem meets_of_checks {G : σ → α → σ → Prop} {check : σ → α → Bool}
    (hc : ∀s a t,check s a=true → G s a t) {s : σ} {as : List α}
    (h : M.checks check s as=true) : M.Meets G s as :=
  M.meets_of_checked (fun s a t h _ => hc s a t h) h

theorem ReachableBy.run {G : σ → α → σ → Prop} {s t : σ} {as : List α} (h : M.ReachableBy G s)
    (hr : M.run s as=some t) (hm : M.Meets G s as) : M.ReachableBy G t := by
  induction as generalizing s with
  | nil =>
    have e : s=t := by simpa using hr
    exact e ▸ h
  | cons a as ih =>
    rw [run_cons,Option.bind_eq_some_iff] at hr
    obtain ⟨u,hu,hr⟩ := hr
    obtain ⟨hg,hm⟩ := hm u hu
    exact ih (.step h hu hg) hr hm

/-- A run from the start that passes a check is one under the guard that the check vouches for. -/
theorem ReachableBy.of_checks {G : σ → α → σ → Prop} {check : σ → α → Bool}
    (hc : ∀s a t,check s a=true → G s a t) {s : σ} {as : List α} (h : M.init s)
    (hr : (M.run s as).isSome=true) (hp : M.checks check s as=true) :
    M.ReachableBy G ((M.run s as).getD s) :=
  (ReachableBy.start h).run M (M.run_getD hr) (M.meets_of_checks hc hp)

/-- The induction rule for invariants that need the guard. What is known of all
reachable states may be used in the step. -/
theorem ReachableBy.invariant {G : σ → α → σ → Prop} {P : σ → Prop} (h0 : ∀s,M.init s → P s)
    (hs : ∀s a t,M.Reachable s → P s → M.step s a=some t → G s a t → P t) {t : σ}
    (h : M.ReachableBy G t) : P t := by
  induction h with
  | start h => exact h0 _ h
  | step hr hm hg ih => exact hs _ _ _ (hr.reachable M) ih hm hg

section Watched

variable {ω : Type*} (look : σ → α → σ → ω → ω) (w₀ : ω)

/-- The machine with an observer beside it, who sees every step and takes no part. -/
def watched : Machine (σ×ω) α where
  init p := M.init p.1 ∧ p.2=w₀
  step p a := (M.step p.1 a).map fun t => (t,look p.1 a t p.2)

variable {look w₀}

theorem watched_step {p q : σ×ω} {a : α} (h : (M.watched look w₀).step p a=some q) :
    M.step p.1 a=some q.1 ∧ q.2=look p.1 a q.1 p.2 := by
  obtain ⟨t,ht,rfl⟩ := Option.map_eq_some_iff.mp h
  exact ⟨ht,rfl⟩

/-- The observed machine does what the machine does. -/
theorem Reachable.unwatch {p : σ×ω} (h : (M.watched look w₀).Reachable p) : M.Reachable p.1 := by
  refine @Reachable.invariant _ _ (M.watched look w₀) (fun p => M.Reachable p.1) ?_ ?_ p h
  · exact fun p hp => .start M hp.1
  · intro p a q hp hs
    exact @Reachable.extend _ _ M _ _ [a] hp (by simp [(M.watched_step hs).1])

end Watched

section Simulation

variable {τ β : Type*} (A : Machine τ β) (R : σ → τ → Prop)

/-- Forward simulation: what one step does, a run of the abstract machine does too. What
is known of reachable states may be used in the step. -/
structure Simulates : Prop where
  init : ∀s,M.init s → ∃t,A.init t ∧ R s t
  step : ∀s a s' t,M.Reachable s → A.Reachable t → R s t → M.step s a=some s' →
    ∃bs t',A.run t bs=some t' ∧ R s' t'

variable {M A R}

/-- Forward simulation under guards: every state that a guarded run reaches is related to
one that the abstract machine reaches under its own guard. A step may also be none there. -/
theorem ReachableBy.simulated {G : σ → α → σ → Prop} {H : τ → β → τ → Prop}
    (h0 : ∀s,M.init s → ∃t,A.init t ∧ R s t)
    (hs : ∀s a s' t,A.ReachableBy H t → R s t → M.step s a=some s' → G s a s' →
      R s' t ∨ ∃b t',A.step t b=some t' ∧ H t b t' ∧ R s' t') {s : σ} (h : M.ReachableBy G s) :
    ∃t,A.ReachableBy H t ∧ R s t := by
  induction h with
  | start h =>
    obtain ⟨t,ht,hR⟩ := h0 _ h
    exact ⟨t,.start ht,hR⟩
  | step _ hm hg ih =>
    obtain ⟨t,ht,hR⟩ := ih
    rcases hs _ _ _ t ht hR hm hg with hR | ⟨b,t',hb,hH,hR⟩
    · exact ⟨t,ht,hR⟩
    · exact ⟨t',.step ht hb hH,hR⟩

end Simulation

end Machine
end Framework
