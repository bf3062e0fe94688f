import KubeConsole.Theory.Comparator
import KubeConsole.Theory.OrderedMap

/-! The best element of each key, kept while the elements are read once. -/
namespace KubeConsole.Theory
variable {α κ : Type*} {key : α → κ} {cmp : α → α → ℚ} {x y : α} {xs ys seen : List α}

/-- No element of its key compares as greater. -/
def IsBest (key : α → κ) (cmp : α → α → ℚ) (xs : List α) (x : α) : Prop :=
  x ∈ xs ∧ ∀ y ∈ xs, key y = key x → cmp y x ≤ 0

/-- Two elements of one key do not compare as equal. -/
def TellsApart (key : α → κ) (cmp : α → α → ℚ) (xs : List α) : Prop :=
  xs.Pairwise fun x y => key x = key y → cmp x y ≠ 0

/-- Elements of one key that compare as equal are one. -/
theorem TellsApart.eq (h : TellsApart key cmp xs) (hcmp : Consistent Set.univ cmp) (hx : x ∈ xs)
    (hy : y ∈ xs) (hkey : key x = key y) (hzero : cmp x y = 0) : x = y := by
  by_contra hne
  have : Std.Symm fun x y => key x = key y → cmp x y ≠ 0 :=
    ⟨fun _ _ hab hkey hba => hab hkey.symm ((hcmp.zero_iff trivial trivial).mpr hba)⟩
  exact h.forall hx hy hne hkey hzero

theorem TellsApart.perm (h : TellsApart key cmp xs) (hcmp : Consistent Set.univ cmp)
    (hperm : ys.Perm xs) : TellsApart key cmp ys :=
  hperm.symm.pairwise h fun hab hkey hba => hab hkey.symm ((hcmp.zero_iff trivial trivial).mpr hba)

theorem IsBest.unique (h : TellsApart key cmp xs) (hcmp : Consistent Set.univ cmp)
    (hx : IsBest key cmp xs x) (hy : IsBest key cmp xs y) (hkey : key x = key y) : x = y := by
  have hxy := hy.2 x hx.1 hkey
  have hyx := hx.2 y hy.1 hkey.symm
  exact h.eq hcmp hx.1 hy.1 hkey (le_antisymm hxy ((hcmp.nonpos_iff trivial trivial).mp hyx))

theorem IsBest.perm (h : IsBest key cmp xs x) (hperm : xs.Perm ys) : IsBest key cmp ys x :=
  ⟨hperm.mem_iff.mp h.1, fun y hy => h.2 y (hperm.mem_iff.mpr hy)⟩

/-- One that is not beaten by the next stays the best. -/
theorem IsBest.append (h : IsBest key cmp seen y) (hx : key x = key y → cmp x y ≤ 0) :
    IsBest key cmp (seen ++ [x]) y := by
  refine ⟨List.mem_append_left _ h.1, fun z hz hkey => ?_⟩
  rcases List.mem_append.mp hz with hz | hz
  · exact h.2 z hz hkey
  · obtain rfl := List.mem_singleton.mp hz
    exact hx hkey

variable [DecidableEq κ] {best : OrderedMap κ α} {p : κ × α}

/-- An element takes the place of the one of its key, where it compares as greater. -/
def keepBest (key : α → κ) (cmp : α → α → ℚ) (best : OrderedMap κ α) (x : α) : OrderedMap κ α :=
  match best.get? (key x) with
  | none => best.set (key x) x
  | some y => if 0 < cmp x y then best.set (key x) x else best

/-- The map has the best of what was seen. -/
structure Kept (key : α → κ) (cmp : α → α → ℚ) (seen : List α) (best : OrderedMap κ α) : Prop where
  isBest : ∀ p ∈ best, key p.2 = p.1 ∧ IsBest key cmp seen p.2
  mem_keys : ∀ x ∈ seen, key x ∈ best.keys

theorem Kept.set (h : Kept key cmp seen best) (hx : IsBest key cmp (seen ++ [x]) x) :
    Kept key cmp (seen ++ [x]) (best.set (key x) x) where
  isBest p hp := by
    rcases OrderedMap.mem_set.mp hp with rfl | ⟨hp, hne⟩
    · exact ⟨rfl, hx⟩
    · obtain ⟨hkey, hbest⟩ := h.isBest p hp
      exact ⟨hkey, hbest.append fun hxp => absurd (hxp.trans hkey).symm hne⟩
  mem_keys y hy := by
    rw [OrderedMap.mem_keys_set]
    rcases List.mem_append.mp hy with hy | hy
    · exact .inr (h.mem_keys y hy)
    · exact .inl (congrArg key (List.mem_singleton.mp hy))

theorem Kept.keepBest (hcmp : Consistent Set.univ cmp) (h : Kept key cmp seen best) (x : α) :
    Kept key cmp (seen ++ [x]) (keepBest key cmp best x) := by
  have hlast : x ∈ seen ++ [x] := List.mem_append_right _ (List.mem_singleton_self x)
  have hself : cmp x x ≤ 0 := (hcmp.self trivial).le
  rw [KubeConsole.Theory.keepBest]
  cases hget : best.get? (key x) with
  | none =>
    have hnew : key x ∉ best.keys := OrderedMap.get?_eq_none_iff.mp hget
    refine h.set ⟨hlast, fun y hy hkey => ?_⟩
    rcases List.mem_append.mp hy with hy | hy
    · exact absurd (hkey ▸ h.mem_keys y hy) hnew
    · exact List.mem_singleton.mp hy ▸ hself
  | some y =>
    obtain ⟨hy, hbest⟩ := h.isBest _ (OrderedMap.get?_eq_some_iff.mp hget)
    dsimp only at hy hbest ⊢
    by_cases hgreater : 0 < cmp x y
    · rw [if_pos hgreater]
      have hyx : cmp y x ≤ 0 := ((hcmp.swap y trivial x trivial).mpr hgreater).le
      refine h.set ⟨hlast, fun z hz hkey => ?_⟩
      rcases List.mem_append.mp hz with hz | hz
      · exact hcmp.trans z trivial y trivial x trivial (hbest.2 z hz (hkey.trans hy.symm)) hyx
      · exact List.mem_singleton.mp hz ▸ hself
    · rw [if_neg hgreater]
      refine ⟨fun p hp => ?_, fun z hz => ?_⟩
      · obtain ⟨hkey, hp'⟩ := h.isBest p hp
        refine ⟨hkey, hp'.append fun hxp => ?_⟩
        -- the one of the key of `x` is `y`
        have hpy : p.2 = y := congrArg Prod.snd
          (OrderedMap.eq_of_mem hp (OrderedMap.get?_eq_some_iff.mp hget) (hkey.symm.trans hxp.symm))
        exact hpy ▸ not_lt.mp hgreater
      · rcases List.mem_append.mp hz with hz | hz
        · exact h.mem_keys z hz
        · obtain rfl := List.mem_singleton.mp hz
          exact hy ▸ h.mem_keys y hbest.1

theorem kept_foldl (hcmp : Consistent Set.univ cmp) (xs : List α) :
    Kept key cmp xs (xs.foldl (keepBest key cmp) .empty) := by
  induction xs using List.reverseRecOn with
  | nil => exact ⟨fun p hp => absurd hp List.not_mem_nil, fun x hx => absurd hx List.not_mem_nil⟩
  | append_singleton xs x ih =>
    rw [List.foldl_append]
    exact ih.keepBest hcmp x

/-- What is kept are the best, in whatever order the elements come. -/
theorem mem_foldl_keepBest (hcmp : Consistent Set.univ cmp) (h : TellsApart key cmp xs) :
    p ∈ xs.foldl (keepBest key cmp) .empty ↔ key p.2 = p.1 ∧ IsBest key cmp xs p.2 := by
  have hkept : Kept key cmp xs (xs.foldl (keepBest key cmp) .empty) := kept_foldl hcmp xs
  refine ⟨hkept.isBest p, fun ⟨hkey, hbest⟩ => ?_⟩
  obtain ⟨y, hy⟩ := OrderedMap.mem_keys.mp (hkept.mem_keys p.2 hbest.1)
  obtain ⟨hkeyy, hbesty⟩ := hkept.isBest _ hy
  obtain rfl : p.2 = y := hbest.unique h hcmp hbesty hkeyy.symm
  rw [hkey] at hy
  exact hy

theorem perm_foldl_keepBest (hcmp : Consistent Set.univ cmp) (h : TellsApart key cmp xs)
    (hperm : ys.Perm xs) : (ys.foldl (keepBest key cmp) .empty).entries.Perm
      (xs.foldl (keepBest key cmp) .empty).entries := by
  refine (List.perm_ext_iff_of_nodup ?_ ?_).mpr fun p => ?_
  · exact List.Nodup.of_map _ (OrderedMap.nodup _)
  · exact List.Nodup.of_map _ (OrderedMap.nodup _)
  · have hys := mem_foldl_keepBest (p := p) hcmp (h.perm hcmp hperm)
    have hxs := mem_foldl_keepBest (p := p) hcmp h
    have hbest : IsBest key cmp ys p.2 ↔ IsBest key cmp xs p.2 :=
      ⟨(·.perm hperm), (·.perm hperm.symm)⟩
    rw [← hbest] at hxs
    exact hys.trans hxs.symm

end KubeConsole.Theory
