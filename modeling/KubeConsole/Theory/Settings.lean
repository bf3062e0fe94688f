import Mathlib

/-! Variables of different types, and settings of them that are made one after the other. -/
namespace KubeConsole.Theory
variable {ι : Type*} [DecidableEq ι] {β : ι → Type*}

/-- The variables after all the settings. -/
def setAll (vars : ∀ i, β i) (settings : List (Σ i, β i)) : ∀ i, β i :=
  settings.foldl (fun vars s => Function.update vars s.1 s.2) vars

/-- The value the last setting of a variable gives it. -/
def lastSetting (i : ι) : List (Σ i, β i) → Option (β i)
  | [] => none
  | s :: settings =>
    match lastSetting i settings with
    | some v => some v
    | none => if h : s.1 = i then some (h ▸ s.2) else none

/-- The last setting of a variable wins; one that is not set keeps its value. -/
theorem setAll_apply (vars : ∀ i, β i) (settings : List (Σ i, β i)) (i : ι) :
    setAll vars settings i = (lastSetting i settings).getD (vars i) := by
  induction settings generalizing vars with
  | nil => rfl
  | cons s settings ih =>
    have hcons : setAll vars (s :: settings) = setAll (Function.update vars s.1 s.2) settings := rfl
    rw [hcons, ih, lastSetting]
    cases lastSetting i settings with
    | some v => rfl
    | none =>
      obtain ⟨j, v⟩ := s
      by_cases h : j = i
      · subst h
        simp
      · simp [h, Ne.symm h]

/-- A variable without a setting is not among those that are set. -/
theorem lastSetting_eq_none {i : ι} {settings : List (Σ i, β i)} :
    lastSetting i settings = none ↔ ∀ s ∈ settings, s.1 ≠ i := by
  induction settings with
  | nil => simp [lastSetting]
  | cons s settings ih =>
    rw [lastSetting, List.forall_mem_cons, ← ih]
    cases lastSetting i settings with
    | some v => simp
    | none => simp [dite_eq_right_iff]

end KubeConsole.Theory
