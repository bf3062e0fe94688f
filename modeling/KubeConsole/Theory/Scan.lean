import Mathlib

/-!
The indices at which a list meets a condition, kept up to date while the list loses its
head and grows at its end.
-/
namespace KubeConsole.Theory
variable {α : Type*} (p : α → Bool) (xs ys : List α) (k : ℕ)

theorem findIdxs_take_lt : ∀ i ∈ (xs.take k).findIdxs p 0, i < k := by
  intro i hi
  have hlt := List.lt_add_of_mem_findIdxs i hi
  have hlen := List.length_take_le k xs
  omega

/-- The hits behind the first `k` elements are those of the rest, moved by `k`. -/
theorem findIdxs_split :
    xs.findIdxs p 0 = (xs.take k).findIdxs p 0 ++ ((xs.drop k).findIdxs p 0).map (· + k) := by
  rcases le_total k xs.length with hk | hk
  · conv_lhs => rw [← List.take_append_drop k xs]
    rw [List.findIdxs_append, List.length_take_of_le hk, Nat.zero_add]
    congr 1
    exact List.findIdxs_start
  · rw [List.take_of_length_le hk, List.drop_of_length_le hk]
    simp

theorem findIdxs_takeWhile :
    (xs.findIdxs p 0).takeWhile (· < k) = (xs.take k).findIdxs p 0 := by
  rw [findIdxs_split p xs k, List.takeWhile_append_of_pos]
  · rw [List.takeWhile_eq_nil_iff.mpr, List.append_nil]
    simp
  · simpa using findIdxs_take_lt p xs k

/-- What was found before and is not lost, and what is found in the part that is new. -/
theorem findIdxs_slide :
    ((xs ++ ys).drop k).findIdxs p 0 = (xs.drop k).findIdxs p 0 ++
      (((xs ++ ys).drop k).drop (xs.length - k)).findIdxs p (xs.length - k) := by
  have hlen : (xs.drop k).length = xs.length - k := List.length_drop
  rw [List.drop_append, ← hlen, List.drop_left, List.findIdxs_append, Nat.zero_add]

/-- Each hit is lost with the head or is found again, as many hits and elements earlier
as the head had. -/
theorem findIdxs_slide_getElem {a i : ℕ} (h : (xs.findIdxs p 0)[a]? = some i) :
    (a < ((xs.take k).findIdxs p 0).length ∧ i < k) ∨
    (((xs.take k).findIdxs p 0).length ≤ a ∧ k ≤ i ∧
      (((xs ++ ys).drop k).findIdxs p 0)[a - ((xs.take k).findIdxs p 0).length]? =
        some (i - k)) := by
  rw [findIdxs_split p xs k] at h
  rcases Nat.lt_or_ge a ((xs.take k).findIdxs p 0).length with ha | ha
  · rw [List.getElem?_append_left ha] at h
    exact .inl ⟨ha, findIdxs_take_lt p xs k i (List.mem_of_getElem? h)⟩
  · rw [List.getElem?_append_right ha, List.getElem?_map] at h
    obtain ⟨j, hj, rfl⟩ := Option.map_eq_some_iff.mp h
    have hlt := (List.getElem?_eq_some_iff.mp hj).1
    refine .inr ⟨ha, Nat.le_add_left k j, ?_⟩
    rw [findIdxs_slide, List.getElem?_append_left hlt, hj, Nat.add_sub_cancel]

end KubeConsole.Theory
