import Mathlib

/-!
Comparators that return a number, as sorting expects them: the sign is that of a total preorder.
-/
namespace KubeConsole.Theory
variable {α : Type*}

/-- On `S` the sign of a comparator is antisymmetric and transitive. -/
structure Consistent (S : Set α) (cmp : α → α → ℚ) : Prop where
  swap : ∀ a ∈ S, ∀ b ∈ S, cmp a b < 0 ↔ 0 < cmp b a
  trans : ∀ a ∈ S, ∀ b ∈ S, ∀ c ∈ S, cmp a b ≤ 0 → cmp b c ≤ 0 → cmp a c ≤ 0

namespace Consistent
variable {S T : Set α} {cmp cmp' : α → α → ℚ} {a b c : α}

theorem mono (h : Consistent T cmp) (hST : S ⊆ T) : Consistent S cmp where
  swap a ha b hb := h.swap a (hST ha) b (hST hb)
  trans a ha b hb c hc := h.trans a (hST ha) b (hST hb) c (hST hc)

theorem comap {β : Type*} (h : Consistent Set.univ cmp) (f : β → α) :
    Consistent Set.univ fun a b => cmp (f a) (f b) where
  swap a _ b _ := h.swap (f a) trivial (f b) trivial
  trans a _ b _ c _ := h.trans (f a) trivial (f b) trivial (f c) trivial

theorem congr (h : Consistent S cmp) (heq : ∀ a ∈ S, ∀ b ∈ S, cmp a b = cmp' a b) :
    Consistent S cmp' where
  swap a ha b hb := by
    rw [← heq a ha b hb, ← heq b hb a ha]
    exact h.swap a ha b hb
  trans a ha b hb c hc := by
    rw [← heq a ha b hb, ← heq b hb c hc, ← heq a ha c hc]
    exact h.trans a ha b hb c hc

theorem nonpos_iff (h : Consistent S cmp) (ha : a ∈ S) (hb : b ∈ S) : cmp a b ≤ 0 ↔ 0 ≤ cmp b a := by
  have := h.swap b hb a ha
  rw [← not_lt, ← not_lt, this]

theorem zero_iff (h : Consistent S cmp) (ha : a ∈ S) (hb : b ∈ S) : cmp a b = 0 ↔ cmp b a = 0 := by
  have hab := h.nonpos_iff ha hb
  have hba := h.nonpos_iff hb ha
  rw [le_antisymm_iff, le_antisymm_iff, hab, hba, and_comm]

theorem self (h : Consistent S cmp) (ha : a ∈ S) : cmp a a = 0 := by
  have := h.swap a ha a ha
  rcases lt_trichotomy (cmp a a) 0 with hlt | heq | hgt
  · exact absurd (this.mp hlt) hlt.le.not_gt
  · exact heq
  · exact absurd (this.mpr hgt) hgt.le.not_gt

theorem total (h : Consistent S cmp) (ha : a ∈ S) (hb : b ∈ S) : cmp a b ≤ 0 ∨ cmp b a ≤ 0 := by
  rcases le_total (cmp a b) 0 with hab | hab
  · exact .inl hab
  · exact .inr ((h.nonpos_iff hb ha).mpr hab)

theorem equivalence (h : Consistent Set.univ cmp) : Equivalence fun a b => cmp a b = 0 where
  refl _ := h.self trivial
  symm hab := (h.zero_iff trivial trivial).mp hab
  trans {a b c} hab hbc := by
    have hba := (h.zero_iff trivial trivial).mp hab
    have hcb := (h.zero_iff trivial trivial).mp hbc
    have hac := h.trans a trivial b trivial c trivial hab.le hbc.le
    have hca := h.trans c trivial b trivial a trivial hcb.le hba.le
    exact le_antisymm hac ((h.nonpos_iff trivial trivial).mp hca)

theorem nonpos_congr_left (h : Consistent S cmp) (ha : a ∈ S) (hb : b ∈ S) (hc : c ∈ S)
    (hab : cmp a b = 0) : cmp a c ≤ 0 ↔ cmp b c ≤ 0 :=
  ⟨h.trans b hb a ha c hc ((h.zero_iff ha hb).mp hab).le, h.trans a ha b hb c hc hab.le⟩

theorem nonpos_congr_right (h : Consistent S cmp) (ha : a ∈ S) (hb : b ∈ S) (hc : c ∈ S)
    (hab : cmp a b = 0) : cmp c a ≤ 0 ↔ cmp c b ≤ 0 :=
  ⟨fun hca => h.trans c hc a ha b hb hca hab.le,
    fun hcb => h.trans c hc b hb a ha hcb ((h.zero_iff ha hb).mp hab).le⟩

/-- Elements that compare as equal compare alike with every other. -/
theorem sign_congr (h : Consistent S cmp) (ha : a ∈ S) (hb : b ∈ S) (hc : c ∈ S)
    (hab : cmp a b = 0) : SignType.sign (cmp a c) = SignType.sign (cmp b c) := by
  have hleft := h.nonpos_congr_left ha hb hc hab
  have hright := h.nonpos_congr_right ha hb hc hab
  rw [h.nonpos_iff hc ha, h.nonpos_iff hc hb] at hright
  rcases lt_trichotomy (cmp a c) 0 with hlt | heq | hgt
  · have hle := hleft.mp hlt.le
    have hne := mt hright.mpr hlt.not_ge
    rw [sign_neg hlt, sign_neg (not_le.mp hne)]
  · rw [heq, le_antisymm (hleft.mp heq.le) (hright.mp heq.ge)]
  · have hge := hright.mp hgt.le
    have hne := mt hleft.mpr hgt.not_ge
    rw [sign_pos hgt, sign_pos (not_le.mp hne)]

/-- The difference of a number that each element has. -/
theorem of_key (f : α → ℚ) (heq : ∀ a ∈ S, ∀ b ∈ S, cmp a b = f a - f b) : Consistent S cmp where
  swap a ha b hb := by rw [heq a ha b hb, heq b hb a ha, sub_neg, sub_pos]
  trans a ha b hb c hc hab hbc := by
    rw [heq a ha b hb] at hab
    rw [heq b hb c hc] at hbc
    rw [heq a ha c hc]
    linarith

/-- Whether one comes before the other in a linear order. -/
theorem of_linear {β : Type*} [LinearOrder β] (f : α → β)
    (heq : ∀ a ∈ S, ∀ b ∈ S, cmp a b = if f a < f b then -1 else if f b < f a then 1 else 0) :
    Consistent S cmp := by
  have hle : ∀ a ∈ S, ∀ b ∈ S, cmp a b ≤ 0 ↔ f a ≤ f b := by
    intro a ha b hb
    rw [heq a ha b hb]
    rcases lt_trichotomy (f a) (f b) with hlt | hfeq | hgt
    · simp [hlt, hlt.le]
    · simp [hfeq]
    · simp [hgt, hgt.not_gt, hgt.not_ge]
  refine ⟨fun a ha b hb => ?_, fun a ha b hb c hc hab hbc => ?_⟩
  · have hba := hle b hb a ha
    rw [heq a ha b hb, heq b hb a ha]
    rcases lt_trichotomy (f a) (f b) with hlt | hfeq | hgt
    · simp [hlt, hlt.not_gt]
    · simp [hfeq]
    · simp [hgt, hgt.not_gt]
  · exact (hle a ha c hc).mpr (((hle a ha b hb).mp hab).trans ((hle b hb c hc).mp hbc))

/-- Elements of different ranks are compared by their ranks. -/
theorem of_rank (rank : α → ℕ)
    (hlt : ∀ a ∈ S, ∀ b ∈ S, rank a < rank b → cmp a b < 0 ∧ 0 < cmp b a)
    (heq : ∀ n, Consistent {a | a ∈ S ∧ rank a = n} cmp) : Consistent S cmp := by
  have hrank : ∀ a ∈ S, ∀ b ∈ S, cmp a b ≤ 0 → rank a ≤ rank b := by
    intro a ha b hb hab
    by_contra hba
    exact absurd hab (hlt b hb a ha (not_le.mp hba)).2.not_ge
  constructor
  · intro a ha b hb
    rcases lt_trichotomy (rank a) (rank b) with hab | hab | hab
    · exact ⟨fun _ => (hlt a ha b hb hab).2, fun _ => (hlt a ha b hb hab).1⟩
    · exact (heq (rank b)).swap a ⟨ha, hab⟩ b ⟨hb, rfl⟩
    · have h := hlt b hb a ha hab
      exact ⟨fun h' => absurd h' h.2.le.not_gt, fun h' => absurd h' h.1.le.not_gt⟩
  · intro a ha b hb c hc hab hbc
    have hrab := hrank a ha b hb hab
    have hrbc := hrank b hb c hc hbc
    rcases (hrab.trans hrbc).lt_or_eq with hac | hac
    · exact (hlt a ha c hc hac).1.le
    · exact (heq (rank c)).trans a ⟨ha, hac⟩ b ⟨hb, by omega⟩ c ⟨hc, rfl⟩ hab hbc

end Consistent

/-- A comparator that is consistent and tells elements apart. -/
structure TotalOrder (S : Set α) (cmp : α → α → ℚ) : Prop extends Consistent S cmp where
  eq_of_zero : ∀ a ∈ S, ∀ b ∈ S, cmp a b = 0 → a = b

/-! ## Sorting -/

/-- A stable sort. What it returns is what any stable sort does, where the comparator is consistent
on the elements. -/
def sortBy (cmp : α → α → ℚ) (xs : List α) : List α := xs.mergeSort fun a b => cmp a b ≤ 0

theorem sortBy_perm (cmp : α → α → ℚ) (xs : List α) : (sortBy cmp xs).Perm xs :=
  List.mergeSort_perm xs _

theorem sortBy_map {β : Type*} (cmp : β → β → ℚ) (f : α → β) (xs : List α) :
    sortBy cmp (xs.map f) = (sortBy (fun a b => cmp (f a) (f b)) xs).map f := by
  have hmap := List.map_mergeSort (r := fun a b => decide (cmp (f a) (f b) ≤ 0))
    (s := fun a b => decide (cmp a b ≤ 0)) (f := f) (l := xs) fun _ _ _ _ => rfl
  rw [sortBy, sortBy, hmap]

namespace Consistent
variable {cmp : α → α → ℚ} {xs : List α}

/-- Sorting a list is sorting its elements with the proof that they are in it. -/
theorem sortBy_attach (cmp : α → α → ℚ) (xs : List α) :
    (xs.attach.mergeSort fun a b => cmp a.1 b.1 ≤ 0).map Subtype.val = sortBy cmp xs := by
  have hmap := sortBy_map cmp Subtype.val xs.attach
  rw [List.attach_map_subtype_val] at hmap
  exact hmap.symm

theorem attach_trans (h : Consistent {a | a ∈ xs} cmp) (a b c : {a // a ∈ xs})
    (hab : decide (cmp a.1 b.1 ≤ 0) = true) (hbc : decide (cmp b.1 c.1 ≤ 0) = true) :
    decide (cmp a.1 c.1 ≤ 0) = true :=
  decide_eq_true (h.trans a.1 a.2 b.1 b.2 c.1 c.2 (of_decide_eq_true hab) (of_decide_eq_true hbc))

theorem attach_total (h : Consistent {a | a ∈ xs} cmp) (a b : {a // a ∈ xs}) :
    (decide (cmp a.1 b.1 ≤ 0) || decide (cmp b.1 a.1 ≤ 0)) = true := by
  rw [Bool.or_eq_true, decide_eq_true_iff, decide_eq_true_iff]
  exact h.total a.2 b.2

theorem sorted (h : Consistent {a | a ∈ xs} cmp) :
    (sortBy cmp xs).Pairwise fun a b => cmp a b ≤ 0 := by
  rw [← sortBy_attach, List.pairwise_map]
  exact (List.pairwise_mergeSort h.attach_trans h.attach_total _).imp of_decide_eq_true

/-- What is in order already stays in its order. -/
theorem stable (h : Consistent {a | a ∈ xs} cmp) {ys : List α} (hsub : ys.Sublist xs)
    (hys : ys.Pairwise fun a b => cmp a b ≤ 0) : ys.Sublist (sortBy cmp xs) := by
  rw [← List.attach_map_subtype_val xs, List.sublist_map_iff] at hsub
  obtain ⟨ys', hsub', rfl⟩ := hsub
  rw [List.pairwise_map] at hys
  rw [← sortBy_attach]
  exact (List.sublist_mergeSort h.attach_trans h.attach_total
    (hys.imp decide_eq_true) hsub').map Subtype.val

end Consistent
end KubeConsole.Theory
