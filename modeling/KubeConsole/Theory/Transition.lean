import Mathlib

/-!
Machines that move by named actions, the states their runs reach, and the rules
that carry a fact from one step to every run.

An action that is not enabled has no successor. A run may be constrained by a
condition on each of its steps: the state the step is taken from and the action.
-/
namespace KubeConsole.Theory

/-- A machine: its initial states, and what each action does where it is enabled. -/
structure Machine (σ α : Type*) where
  init : σ → Prop
  step : σ → α → Option σ

namespace Machine
variable {σ α : Type*} (M : Machine σ α)

/-- The states reached by the runs whose every step meets `C`. -/
inductive Reach (C : σ → α → Prop) : σ → Prop where
  | init {s : σ} : M.init s → Reach C s
  | step {s t : σ} {a : α} : Reach C s → C s a → M.step s a = some t → Reach C t

/-- The states reached by any run at all. -/
abbrev Reachable (s : σ) : Prop := M.Reach (fun _ _ => True) s

/-- Perform a list of actions one after the other. -/
def exec (s : σ) : List α → Option σ
  | [] => some s
  | a :: as => (M.step s a).bind fun t => exec t as

/-- Every step of a list of actions meets `C` where it is taken. -/
def Along (C : σ → α → Prop) (s : σ) : List α → Prop
  | [] => True
  | a :: as => C s a ∧ ∀ t ∈ M.step s a, Along C t as

variable {M} {C D : σ → α → Prop}

instance Along.decidable [∀ s a, Decidable (C s a)] : ∀ (s : σ) (as : List α),
    Decidable (M.Along C s as)
  | _, [] => .isTrue trivial
  | s, a :: as =>
    match h : M.step s a with
    | none => decidable_of_iff (C s a) (by simp [Along, h])
    | some t =>
      have := Along.decidable t as
      decidable_of_iff (C s a ∧ M.Along C t as) (by simp [Along, h])

theorem Reach.mono (h : ∀ s a, C s a → D s a) {s : σ} (hs : M.Reach C s) : M.Reach D s := by
  induction hs with
  | init hi => exact .init hi
  | step _ hc ht ih => exact .step ih (h _ _ hc) ht

theorem Along.mono (h : ∀ s a, C s a → D s a) {s : σ} {as : List α} (ha : M.Along C s as) :
    M.Along D s as := by
  induction as generalizing s with
  | nil => trivial
  | cons a as ih => exact ⟨h _ _ ha.1, fun t ht => ih (ha.2 t ht)⟩

theorem Reach.reachable {s : σ} (hs : M.Reach C s) : M.Reachable s :=
  hs.mono fun _ _ _ => trivial

theorem Reachable.next {s t : σ} {a : α} (hs : M.Reachable s) (ht : M.step s a = some t) :
    M.Reachable t :=
  Reach.step hs trivial ht

/-- What holds at the start and is kept by every step that meets the condition
holds wherever such a run leads. -/
theorem Reach.invariant {I : σ → Prop} (hinit : ∀ s, M.init s → I s)
    (hstep : ∀ s a t, I s → C s a → M.step s a = some t → I t) {s : σ} (hs : M.Reach C s) :
    I s := by
  induction hs with
  | init hi => exact hinit _ hi
  | step _ hc ht ih => exact hstep _ _ _ ih hc ht

/-- The same rule when an earlier invariant of the machine may be used by the step. -/
theorem Reach.invariant_with {J I : σ → Prop} (hJ : ∀ s, M.Reach C s → J s)
    (hinit : ∀ s, M.init s → I s)
    (hstep : ∀ s a t, J s → I s → C s a → M.step s a = some t → I t) {s : σ}
    (hs : M.Reach C s) : I s := by
  induction hs with
  | init hi => exact hinit _ hi
  | step hr hc ht ih => exact hstep _ _ _ (hJ _ hr) ih hc ht

@[simp] theorem exec_nil (s : σ) : M.exec s [] = some s := rfl

theorem exec_cons (s : σ) (a : α) (as : List α) :
    M.exec s (a :: as) = (M.step s a).bind fun t => M.exec t as := rfl

/-- A performed list of actions that meets the condition is a run. -/
theorem Reach.exec {s t : σ} {as : List α} (hs : M.Reach C s) (ha : M.Along C s as)
    (ht : M.exec s as = some t) : M.Reach C t := by
  induction as generalizing s with
  | nil => cases ht; exact hs
  | cons a as ih =>
    obtain ⟨u, hu, ht⟩ := Option.bind_eq_some_iff.mp ht
    exact ih (hs.step ha.1 hu) (ha.2 u hu) ht

theorem along_true (s : σ) (as : List α) : M.Along (fun _ _ => True) s as := by
  induction as generalizing s with
  | nil => trivial
  | cons a as ih => exact ⟨trivial, fun t _ => ih t⟩

theorem Reachable.exec {s t : σ} (as : List α) (hs : M.Reachable s)
    (ht : M.exec s as = some t) : M.Reachable t :=
  Reach.exec hs (along_true s as) ht

/-- A property that a step keeps exactly when it meets `C` holds at the end of a run
exactly when it held at the start and every step met `C`. -/
theorem along_iff {P : σ → Prop}
    (hstep : ∀ s a t, M.Reachable s → M.step s a = some t → (P t ↔ P s ∧ C s a))
    {s t : σ} {as : List α} (hs : M.Reachable s) (ht : M.exec s as = some t) :
    P t ↔ P s ∧ M.Along C s as := by
  induction as generalizing s with
  | nil =>
    cases ht
    exact (and_iff_left trivial).symm
  | cons a as ih =>
    obtain ⟨u, hu, ht⟩ := Option.bind_eq_some_iff.mp ht
    rw [ih (hs.next hu) ht, hstep s a u hs hu, and_assoc, Along, hu]
    simp

/-- A property that holds after a step exactly when the step meets `C`, where it held before,
holds all along a run exactly when every step meets `C`. -/
theorem forall_prefix_iff {P : σ → Prop}
    (hstep : ∀ s a t, M.Reachable s → P s → M.step s a = some t → (P t ↔ C s a))
    {s t : σ} {as : List α} (hs : M.Reachable s) (hP : P s) (ht : M.exec s as = some t) :
    (∀ before u, before <+: as → M.exec s before = some u → P u) ↔ M.Along C s as := by
  induction as generalizing s with
  | nil =>
    refine ⟨fun _ => trivial, fun _ before u hpre hu => ?_⟩
    rw [List.prefix_nil.mp hpre, exec_nil] at hu
    cases hu
    exact hP
  | cons a as ih =>
    obtain ⟨u, hu, hrun⟩ := Option.bind_eq_some_iff.mp ht
    have hcons (before : List α) : M.exec s (a :: before) = M.exec u before := by
      rw [exec_cons, hu, Option.bind_some]
    constructor
    · intro h
      have hPu := h [a] u (by simp) (hcons [])
      refine ⟨(hstep s a u hs hP hu).mp hPu, fun v hv => ?_⟩
      rw [Option.mem_def, hu] at hv
      cases hv
      refine (ih (hs.next hu) hPu hrun).mp fun before v hpre hv => ?_
      exact h (a :: before) v (List.cons_prefix_cons.mpr ⟨rfl, hpre⟩) ((hcons before).trans hv)
    · rintro ⟨hc, hrest⟩ before v hpre hv
      have hPu := (hstep s a u hs hP hu).mpr hc
      cases before with
      | nil =>
        cases hv
        exact hP
      | cons b before =>
        obtain ⟨rfl, hpre'⟩ := List.cons_prefix_cons.mp hpre
        rw [hcons] at hv
        exact (ih (hs.next hu) hPu hrun).mpr (hrest u hu) before v hpre' hv

/-- A number that every step meeting `C` makes smaller bounds the length of such a run. -/
theorem length_le_of_decreasing {I : σ → Prop} {μ : σ → ℕ}
    (hstep : ∀ s a t, I s → C s a → M.step s a = some t → I t ∧ μ t < μ s)
    {s t : σ} {as : List α} (hs : I s) (ha : M.Along C s as) (ht : M.exec s as = some t) :
    I t ∧ as.length + μ t ≤ μ s := by
  induction as generalizing s with
  | nil =>
    cases ht
    exact ⟨hs, by simp⟩
  | cons a as ih =>
    obtain ⟨u, hu, ht⟩ := Option.bind_eq_some_iff.mp ht
    obtain ⟨hI, hlt⟩ := hstep s a u hs ha.1 hu
    obtain ⟨hIt, hle⟩ := ih hI (ha.2 u hu) ht
    refine ⟨hIt, ?_⟩
    rw [List.length_cons]
    omega

end Machine

/-- What is made of the first value that meets a condition is made of one that does. -/
theorem exists_of_map_find? {α β : Type*} {xs : List α} {p : α → Prop} [DecidablePred p]
    {g : α → β} {y : β} (h : (xs.find? fun x => p x).map g = some y) : ∃ x ∈ xs, p x ∧ y = g x := by
  obtain ⟨x, hx, rfl⟩ := Option.map_eq_some_iff.mp h
  have hp := List.find?_some hx
  exact ⟨x, List.mem_of_find?_eq_some hx, of_decide_eq_true hp, rfl⟩

end KubeConsole.Theory
