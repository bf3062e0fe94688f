import Mathlib

/-! The first of a sequence of candidates that is not in use. -/
namespace KubeConsole.Theory
variable {α : Type*} [DecidableEq α]

/-- The first free candidate from the `n`-th on, of at most `fuel` that are tried. -/
def firstFree (used : List α) (candidate : ℕ → α) : ℕ → ℕ → α
  | 0, n => candidate n
  | fuel + 1, n =>
    if candidate n ∈ used then firstFree used candidate fuel (n + 1) else candidate n

variable {used used' : List α} {candidate : ℕ → α}

variable (used candidate) in
theorem firstFree_eq (fuel n : ℕ) : ∃ k ≤ fuel, firstFree used candidate fuel n = candidate (n + k) ∧
    (∀ j < k, candidate (n + j) ∈ used) ∧ (k < fuel → candidate (n + k) ∉ used) := by
  induction fuel generalizing n with
  | zero => exact ⟨0, by simp [firstFree]⟩
  | succ fuel ih =>
    by_cases hused : candidate n ∈ used
    · obtain ⟨k, hk, heq, hall, hfree⟩ := ih (n + 1)
      have hshift (j : ℕ) : n + 1 + j = n + (j + 1) := by omega
      simp only [hshift] at heq hall hfree
      refine ⟨k + 1, by omega, by simp [firstFree, hused, heq], fun j hj => ?_,
        fun h => hfree (by omega)⟩
      cases j with
      | zero => exact hused
      | succ j => exact hall j (by omega)
    · exact ⟨0, by simp [firstFree, hused]⟩

variable (used) in
/-- As many candidates as names in use are enough to come to a free one. -/
theorem firstFree_notMem (hinj : candidate.Injective) (n : ℕ) :
    firstFree used candidate used.length n ∉ used := by
  obtain ⟨k, hk, heq, hall, hfree⟩ := firstFree_eq used candidate used.length n
  rw [heq]
  intro hmem
  let tried := (List.range (used.length + 1)).map fun j => candidate (n + j)
  have hnodup : tried.Nodup := List.nodup_range.map fun _ _ h => Nat.add_left_cancel (hinj h)
  have hsub : tried ⊆ used := by
    intro x hx
    obtain ⟨j, hj, rfl⟩ := List.mem_map.mp hx
    have hlt := List.mem_range.mp hj
    have hend : ¬k < used.length := fun h => hfree h hmem
    rcases Nat.lt_or_ge j k with h | h
    · exact hall j h
    · obtain rfl : j = k := by omega
      exact hmem
  have hlen := (List.subperm_of_subset hnodup hsub).length_le
  simp [tried] at hlen

/-- Which candidate it is depends only on which of them are in use. -/
theorem firstFree_congr (hinj : candidate.Injective)
    (h : ∀ k, candidate k ∈ used ↔ candidate k ∈ used') (n : ℕ) :
    firstFree used candidate used.length n = firstFree used' candidate used'.length n := by
  have hfree := firstFree_notMem used hinj n
  have hfree' := firstFree_notMem used' hinj n
  obtain ⟨k, -, heq, hall, -⟩ := firstFree_eq used candidate used.length n
  obtain ⟨k', -, heq', hall', -⟩ := firstFree_eq used' candidate used'.length n
  rw [heq] at hfree ⊢
  rw [heq'] at hfree' ⊢
  rcases Nat.lt_trichotomy k k' with hlt | rfl | hlt
  · exact absurd ((h _).mpr (hall' k hlt)) hfree
  · rfl
  · exact absurd ((h _).mp (hall k' hlt)) hfree'

end KubeConsole.Theory
