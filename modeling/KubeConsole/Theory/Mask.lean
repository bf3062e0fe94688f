import KubeConsole.Theory.Tree

/-!
Masks over a tree. A mask covers the whole subtree it is met at, or it names the masks under
which children are covered; what several masks cover is found by taking all of them down the
tree at once.
-/
namespace KubeConsole.Theory

/-- How a mask reads: whether it covers all, and its mask for an item or for a key. -/
structure Masking (κ σ M : Type*) where
  whole : M → Bool
  item : DataTree κ σ → M → Option M
  field : κ → M → Option M

namespace Masking
variable {κ σ M : Type*} (R : Masking κ σ M)

mutual
/-- What at least one of the masks covers. A scalar that is reached is covered. -/
def filter (ms : List M) : DataTree κ σ → DataTree κ σ
  | .leaf s => .leaf s
  | .arr items => .arr (if ms.any R.whole then items else filterItems ms items)
  | .obj fields => .obj (if ms.any R.whole then fields else filterFields ms fields)

def filterItems (ms : List M) : List (DataTree κ σ) → List (DataTree κ σ)
  | [] => []
  | t :: items =>
    if (ms.filterMap (R.item t)).isEmpty then filterItems ms items
    else filter (ms.filterMap (R.item t)) t :: filterItems ms items

def filterFields (ms : List M) : List (κ × DataTree κ σ) → List (κ × DataTree κ σ)
  | [] => []
  | (k, t) :: fields =>
    if (ms.filterMap (R.field k)).isEmpty then filterFields ms fields
    else (k, filter (ms.filterMap (R.field k)) t) :: filterFields ms fields
end

variable {R}

theorem filter_of_whole {ms : List M} (h : ms.any R.whole = true) (t : DataTree κ σ) :
    R.filter ms t = t := by
  cases t with
  | leaf s => rw [filter]
  | arr items => rw [filter, if_pos h]
  | obj fields => rw [filter, if_pos h]

theorem filterItems_congr {ms ms' : List M} {items : List (DataTree κ σ)}
    (h : ∀ t ∈ items, ((ms.filterMap (R.item t)).isEmpty = (ms'.filterMap (R.item t)).isEmpty) ∧
      R.filter (ms.filterMap (R.item t)) t = R.filter (ms'.filterMap (R.item t)) t) :
    R.filterItems ms items = R.filterItems ms' items := by
  induction items with
  | nil => rw [filterItems, filterItems]
  | cons t items ih =>
    obtain ⟨ht, hitems⟩ := List.forall_mem_cons.mp h
    rw [filterItems, filterItems, ht.1, ht.2, ih hitems]

theorem filterFields_congr {ms ms' : List M} {fields : List (κ × DataTree κ σ)}
    (h : ∀ k t, (k, t) ∈ fields →
      ((ms.filterMap (R.field k)).isEmpty = (ms'.filterMap (R.field k)).isEmpty) ∧
      R.filter (ms.filterMap (R.field k)) t = R.filter (ms'.filterMap (R.field k)) t) :
    R.filterFields ms fields = R.filterFields ms' fields := by
  induction fields with
  | nil => rw [filterFields, filterFields]
  | cons x fields ih =>
    obtain ⟨k, t⟩ := x
    obtain ⟨hempty, heq⟩ := h k t List.mem_cons_self
    rw [filterFields, filterFields, hempty, heq,
      ih fun k t hmem => h k t (List.mem_cons_of_mem _ hmem)]

theorem isEmpty_filterMap_congr {α β : Type*} {l l' : List α} (h : ∀ a, a ∈ l ↔ a ∈ l')
    (f : α → Option β) : (l.filterMap f).isEmpty = (l'.filterMap f).isEmpty := by
  rw [Bool.eq_iff_iff, List.isEmpty_iff, List.isEmpty_iff, List.filterMap_eq_nil_iff,
    List.filterMap_eq_nil_iff]
  exact forall_congr' fun a => imp_congr (h a) Iff.rfl

/-- Only which masks there are counts: neither their order nor how often one occurs. -/
theorem filter_congr {ms ms' : List M} (h : ∀ m, m ∈ ms ↔ m ∈ ms') (t : DataTree κ σ) :
    R.filter ms t = R.filter ms' t := by
  have hany {ms ms' : List M} (h : ∀ m, m ∈ ms ↔ m ∈ ms') : ms.any R.whole = ms'.any R.whole := by
    rw [Bool.eq_iff_iff, List.any_eq_true, List.any_eq_true]
    exact exists_congr fun m => and_congr_left' (h m)
  have hchild {ms ms' : List M} (h : ∀ m, m ∈ ms ↔ m ∈ ms') (f : M → Option M) (m : M) :
      m ∈ ms.filterMap f ↔ m ∈ ms'.filterMap f := by
    rw [List.mem_filterMap, List.mem_filterMap]
    exact exists_congr fun m => and_congr_left' (h m)
  induction t using DataTree.induction generalizing ms ms' with
  | leaf s => rw [filter, filter]
  | arr items ih =>
    rw [filter, filter, hany h, filterItems_congr fun t ht => ?_]
    exact ⟨isEmpty_filterMap_congr h _, ih t ht (hchild h _)⟩
  | obj fields ih =>
    rw [filter, filter, hany h, filterFields_congr fun k t ht => ?_]
    exact ⟨isEmpty_filterMap_congr h _, ih k t ht (hchild h _)⟩

/-! ## What is covered -/

theorem mem_filterItems {ms : List M} {items : List (DataTree κ σ)} {x : σ} :
    x ∈ (R.filterItems ms items).flatMap DataTree.scalars ↔ ∃ t ∈ items,
      ms.filterMap (R.item t) ≠ [] ∧ x ∈ (R.filter (ms.filterMap (R.item t)) t).scalars := by
  induction items with
  | nil =>
    rw [filterItems]
    simp
  | cons t items ih =>
    rw [filterItems, List.exists_mem_cons_iff, ← ih]
    split_ifs with h
    · simp [List.isEmpty_iff.mp h]
    · rw [List.flatMap_cons, List.mem_append]
      simp [← List.isEmpty_iff, h]

theorem mem_filterFields {ms : List M} {fields : List (κ × DataTree κ σ)} {x : σ} :
    x ∈ (R.filterFields ms fields).flatMap (fun y => y.2.scalars) ↔ ∃ y ∈ fields,
      ms.filterMap (R.field y.1) ≠ [] ∧
        x ∈ (R.filter (ms.filterMap (R.field y.1)) y.2).scalars := by
  induction fields with
  | nil =>
    rw [filterFields]
    simp
  | cons y fields ih =>
    obtain ⟨k, t⟩ := y
    rw [filterFields, List.exists_mem_cons_iff, ← ih]
    split_ifs with h
    · simp [List.isEmpty_iff.mp h]
    · rw [List.flatMap_cons, List.mem_append]
      simp [← List.isEmpty_iff, h]

theorem mem_of_mem_filter {ms : List M} {t : DataTree κ σ} {x : σ} (h : x ∈ (R.filter ms t).scalars) :
    x ∈ t.scalars := by
  induction t using DataTree.induction generalizing ms with
  | leaf s => rwa [filter] at h
  | arr items ih =>
    rw [filter] at h
    split_ifs at h with hw
    · exact h
    · rw [DataTree.scalars_arr, mem_filterItems] at h
      obtain ⟨t, ht, -, hx⟩ := h
      rw [DataTree.scalars_arr]
      exact List.mem_flatMap.mpr ⟨t, ht, ih t ht hx⟩
  | obj fields ih =>
    rw [filter] at h
    split_ifs at h with hw
    · exact h
    · rw [DataTree.scalars_obj, mem_filterFields] at h
      obtain ⟨⟨k, t⟩, ht, -, hx⟩ := h
      rw [DataTree.scalars_obj]
      exact List.mem_flatMap.mpr ⟨(k, t), ht, ih k t ht hx⟩

/-- A child is covered by some of the masks below if it is by some mask here. -/
theorem exists_child {ms : List M} {f : M → Option M} {P : M → Prop} :
    (ms.filterMap f ≠ [] ∧ ∃ c ∈ ms.filterMap f, P c) ↔
      ∃ m ∈ ms, [m].filterMap f ≠ [] ∧ ∃ c ∈ [m].filterMap f, P c := by
  constructor
  · rintro ⟨-, c, hc, hP⟩
    obtain ⟨m, hm, hf⟩ := List.mem_filterMap.mp hc
    exact ⟨m, hm, by simp [hf], c, by simp [hf], hP⟩
  · rintro ⟨m, hm, -, c, hc, hP⟩
    obtain ⟨m', hm', hf⟩ := List.mem_filterMap.mp hc
    obtain rfl := List.mem_singleton.mp hm'
    have hmem : c ∈ ms.filterMap f := List.mem_filterMap.mpr ⟨m', hm, hf⟩
    exact ⟨List.ne_nil_of_mem hmem, c, hmem, hP⟩

theorem mem_filter_of_whole {ms : List M} (h : ms.any R.whole = true) {t : DataTree κ σ} {x : σ} :
    x ∈ (R.filter ms t).scalars ↔ ∃ m ∈ ms, x ∈ (R.filter [m] t).scalars := by
  rw [filter_of_whole h]
  obtain ⟨m, hm, hw⟩ := List.any_eq_true.mp h
  have hone : [m].any R.whole = true := by simp [hw]
  refine ⟨fun hx => ⟨m, hm, ?_⟩, fun ⟨m, _, hx⟩ => mem_of_mem_filter hx⟩
  rwa [filter_of_whole hone]

theorem not_whole_of_mem {ms : List M} (h : ¬ms.any R.whole = true) {m : M} (hm : m ∈ ms) :
    ¬[m].any R.whole = true := by
  simp only [List.any_eq_true, not_exists, not_and] at h
  simp [h m hm]

/-- A scalar is covered by several masks exactly if it is by one of them. -/
theorem mem_filter_iff {ms : List M} (hne : ms ≠ []) {t : DataTree κ σ} {x : σ} :
    x ∈ (R.filter ms t).scalars ↔ ∃ m ∈ ms, x ∈ (R.filter [m] t).scalars := by
  induction t using DataTree.induction generalizing ms with
  | leaf s =>
    obtain ⟨m, hm⟩ := List.exists_mem_of_ne_nil ms hne
    simp only [filter]
    exact ⟨fun hx => ⟨m, hm, hx⟩, fun ⟨_, _, hx⟩ => hx⟩
  | arr items ih =>
    by_cases hany : ms.any R.whole = true
    · exact mem_filter_of_whole hany
    have hone (m : M) (hm : m ∈ ms) : x ∈ (R.filter [m] (.arr items)).scalars ↔
        ∃ t ∈ items, [m].filterMap (R.item t) ≠ [] ∧
          ∃ c ∈ [m].filterMap (R.item t), x ∈ (R.filter [c] t).scalars := by
      rw [filter, if_neg (not_whole_of_mem hany hm), DataTree.scalars_arr, mem_filterItems]
      exact exists_congr fun t => and_congr_right fun ht => and_congr_right fun h => ih t ht h
    rw [filter, if_neg hany, DataTree.scalars_arr, mem_filterItems]
    calc _ ↔ ∃ t ∈ items, ms.filterMap (R.item t) ≠ [] ∧
          ∃ c ∈ ms.filterMap (R.item t), x ∈ (R.filter [c] t).scalars :=
        exists_congr fun t => and_congr_right fun ht => and_congr_right fun h => ih t ht h
      _ ↔ ∃ t ∈ items, ∃ m ∈ ms, [m].filterMap (R.item t) ≠ [] ∧
          ∃ c ∈ [m].filterMap (R.item t), x ∈ (R.filter [c] t).scalars :=
        exists_congr fun t => and_congr_right fun _ => exists_child
      _ ↔ ∃ m ∈ ms, ∃ t ∈ items, [m].filterMap (R.item t) ≠ [] ∧
          ∃ c ∈ [m].filterMap (R.item t), x ∈ (R.filter [c] t).scalars := by
        constructor
        · exact fun ⟨t, ht, m, hm, h⟩ => ⟨m, hm, t, ht, h⟩
        · exact fun ⟨m, hm, t, ht, h⟩ => ⟨t, ht, m, hm, h⟩
      _ ↔ _ := exists_congr fun m => and_congr_right fun hm => (hone m hm).symm
  | obj fields ih =>
    by_cases hany : ms.any R.whole = true
    · exact mem_filter_of_whole hany
    have hone (m : M) (hm : m ∈ ms) : x ∈ (R.filter [m] (.obj fields)).scalars ↔
        ∃ y ∈ fields, [m].filterMap (R.field y.1) ≠ [] ∧
          ∃ c ∈ [m].filterMap (R.field y.1), x ∈ (R.filter [c] y.2).scalars := by
      rw [filter, if_neg (not_whole_of_mem hany hm), DataTree.scalars_obj, mem_filterFields]
      exact exists_congr fun y => and_congr_right fun hy =>
        and_congr_right fun h => ih y.1 y.2 hy h
    rw [filter, if_neg hany, DataTree.scalars_obj, mem_filterFields]
    calc _ ↔ ∃ y ∈ fields, ms.filterMap (R.field y.1) ≠ [] ∧
          ∃ c ∈ ms.filterMap (R.field y.1), x ∈ (R.filter [c] y.2).scalars :=
        exists_congr fun y => and_congr_right fun hy =>
          and_congr_right fun h => ih y.1 y.2 hy h
      _ ↔ ∃ y ∈ fields, ∃ m ∈ ms, [m].filterMap (R.field y.1) ≠ [] ∧
          ∃ c ∈ [m].filterMap (R.field y.1), x ∈ (R.filter [c] y.2).scalars :=
        exists_congr fun y => and_congr_right fun _ => exists_child
      _ ↔ ∃ m ∈ ms, ∃ y ∈ fields, [m].filterMap (R.field y.1) ≠ [] ∧
          ∃ c ∈ [m].filterMap (R.field y.1), x ∈ (R.filter [c] y.2).scalars := by
        constructor
        · exact fun ⟨y, hy, m, hm, h⟩ => ⟨m, hm, y, hy, h⟩
        · exact fun ⟨m, hm, y, hy, h⟩ => ⟨y, hy, m, hm, h⟩
      _ ↔ _ := exists_congr fun m => and_congr_right fun hm => (hone m hm).symm

/-! ## Joins -/

/-- What a join says of a child: the join of what is said of it, if both say something. -/
inductive Joined (J : M → M → M → Prop) : Option M → Option M → Option M → Prop where
  | neither : Joined J none none none
  | left (m : M) : Joined J (some m) none (some m)
  | right (m : M) : Joined J none (some m) (some m)
  | both {a b c : M} : J a b c → Joined J (some a) (some b) (some c)

/-- `J t a b c` makes `c` a join of `a` and `b` over `t`: it covers all if one of them does,
and it joins what they say of a child. -/
structure Joins (R : Masking κ σ M) (J : DataTree κ σ → M → M → M → Prop) : Prop where
  whole : ∀ {t a b c}, J t a b c → R.whole c = (R.whole a || R.whole b)
  item : ∀ {items a b c t}, J (.arr items) a b c → R.whole c = false → t ∈ items →
    Joined (J t) (R.item t a) (R.item t b) (R.item t c)
  field : ∀ {fields a b c k t}, J (.obj fields) a b c → R.whole c = false → (k, t) ∈ fields →
    Joined (J t) (R.field k a) (R.field k b) (R.field k c)

/-- Joined masks leave of a child what the two masks do, if that holds one step below. -/
theorem filter_joined {J : M → M → M → Prop} {f : M → Option M} {a b c : M} (ms : List M)
    (h : Joined J (f a) (f b) (f c)) {t : DataTree κ σ}
    (ih : ∀ a b c ms, J a b c → R.filter (c :: ms) t = R.filter (a :: b :: ms) t) :
    ((c :: ms).filterMap f).isEmpty = ((a :: b :: ms).filterMap f).isEmpty ∧
      R.filter ((c :: ms).filterMap f) t = R.filter ((a :: b :: ms).filterMap f) t := by
  simp only [List.filterMap_cons]
  generalize f a = x, f b = y, f c = z at h
  cases h with
  | neither | left | right => exact ⟨rfl, rfl⟩
  | both h => exact ⟨rfl, ih _ _ _ _ h⟩

theorem Joins.any_whole {J : DataTree κ σ → M → M → M → Prop} (hJ : Joins R J)
    {t : DataTree κ σ} {a b c : M} (h : J t a b c) (ms : List M) :
    (c :: ms).any R.whole = (a :: b :: ms).any R.whole := by
  simp [hJ.whole h, Bool.or_assoc]

theorem whole_eq_false_of_any {c : M} {ms : List M} (h : ¬(c :: ms).any R.whole = true) :
    R.whole c = false := by
  rw [List.any_cons, Bool.or_eq_true, not_or] at h
  exact Bool.eq_false_of_not_eq_true h.1

/-- A join covers what the masks it joins cover. -/
theorem filter_join {J : DataTree κ σ → M → M → M → Prop} (hJ : Joins R J) {t : DataTree κ σ}
    {a b c : M} (h : J t a b c) (ms : List M) :
    R.filter (c :: ms) t = R.filter (a :: b :: ms) t := by
  induction t using DataTree.induction generalizing a b c ms with
  | leaf s => rw [filter, filter]
  | arr items ih =>
    rw [filter, filter, ← hJ.any_whole h]
    split_ifs with hany
    · rfl
    rw [filterItems_congr fun t ht => filter_joined ms
      (hJ.item h (whole_eq_false_of_any hany) ht) fun a b c ms h => ih t ht h ms]
  | obj fields ih =>
    rw [filter, filter, ← hJ.any_whole h]
    split_ifs with hany
    · rfl
    rw [filterFields_congr fun k t ht => filter_joined ms
      (hJ.field h (whole_eq_false_of_any hany) ht) fun a b c ms h => ih k t ht h ms]

end Masking
end KubeConsole.Theory
