import Mathlib

/-! The last elements of a list, for buffers that keep the newest of what they were given. -/
namespace KubeConsole.Theory
variable {α : Type*} (n : ℕ) (a b : List α)

theorem length_rtake : (a.rtake n).length = min n a.length := by
  simp only [List.rtake, List.length_drop]
  omega

theorem rtake_of_length_le {n : ℕ} {a : List α} (h : a.length ≤ n) : a.rtake n = a := by
  rw [List.rtake, Nat.sub_eq_zero_of_le h, List.drop_zero]

theorem rtake_rtake (m : ℕ) : (a.rtake n).rtake m = a.rtake (min m n) := by
  simp only [List.rtake, List.length_drop, List.drop_drop]
  congr 1
  omega

theorem rtake_append : (a ++ b).rtake n = a.rtake (n - b.length) ++ b.rtake n := by
  simp only [List.rtake, List.length_append, List.drop_append]
  congr 1
  · rcases le_total n b.length with h | h
    · rw [List.drop_of_length_le (by omega), List.drop_of_length_le (by omega)]
    · congr 1
      omega
  · congr 1
    omega

/-- Dropping old elements before appending loses nothing that would be kept. -/
theorem rtake_append_left : (a.rtake n ++ b).rtake n = (a ++ b).rtake n := by
  rw [rtake_append, rtake_append, rtake_rtake, Nat.min_eq_left (Nat.sub_le _ _)]

theorem rtake_append_right : (a ++ b.rtake n).rtake n = (a ++ b).rtake n := by
  rw [rtake_append, rtake_append, rtake_rtake, Nat.min_self, length_rtake]
  congr 2
  omega

theorem rtake_append_both : (a.rtake n ++ b.rtake n).rtake n = (a ++ b).rtake n := by
  rw [rtake_append_left, rtake_append_right]

theorem rtake_suffix : a.rtake n <:+ a := List.drop_suffix _ _

/-- Where what holds of an element holds of all behind it, the first that it holds of begins those
that it holds of. -/
theorem drop_findIdx {p : α → Bool} {xs : List α}
    (h : xs.Pairwise fun a b => p a = true → p b = true) :
    xs.drop (xs.findIdx p) = xs.filter p := by
  induction xs with
  | nil => rfl
  | cons x xs ih =>
    obtain ⟨hx, hxs⟩ := List.pairwise_cons.mp h
    by_cases hp : p x = true
    · rw [List.findIdx_cons, hp, cond_true, List.drop_zero]
      refine (List.filter_eq_self.mpr fun y hy => ?_).symm
      rcases List.mem_cons.mp hy with rfl | hy
      · exact hp
      · exact hx y hy hp
    · rw [List.findIdx_cons, Bool.not_eq_true _ |>.mp hp, cond_false, List.drop_succ_cons, ih hxs,
        List.filter_cons_of_neg hp]

end KubeConsole.Theory
