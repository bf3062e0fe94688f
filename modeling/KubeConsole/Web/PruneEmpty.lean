import KubeConsole.Web.Json

/-!
`pruneEmpty` of `fieldFilter.ts`: what is dropped is decided by the scalars below, so that the
order of pruning and testing for emptiness is the only one that works.
-/
namespace KubeConsole.Web
open KubeConsole.Theory

variable {N : Type}

def isEmpty : Json N → Bool
  | .leaf s => !s.nonEmpty
  | .arr items => items.isEmpty
  | .obj fields => fields.isEmpty

mutual
def pruneEmpty : Json N → Json N
  | .arr items => .arr (pruneItems items)
  | .obj fields => .obj (pruneFields fields)
  | .leaf s => .leaf s

/-- `value.map(pruneEmpty).filter((v) => !isEmpty(v))`. -/
def pruneItems : List (Json N) → List (Json N)
  | [] => []
  | v :: items =>
    if isEmpty (pruneEmpty v) then pruneItems items else pruneEmpty v :: pruneItems items

def pruneFields : Record N → Record N
  | [] => []
  | (key, child) :: fields =>
    if isEmpty (pruneEmpty child) then pruneFields fields
    else (key, pruneEmpty child) :: pruneFields fields
end

/-- The scalars that pruning has to keep, in order and each under its keys. -/
def solid (v : Json N) : List (List (Option JStr) × Scalar N) :=
  v.places.filter fun x => x.2.nonEmpty

/-- Some scalar of `v` has to be kept. -/
def holds (v : Json N) : Bool := v.places.any fun x => x.2.nonEmpty

theorem holds_leaf (s : Scalar N) : holds (.leaf s) = s.nonEmpty := by
  simp [holds, DataTree.places]

theorem holds_arr (items : List (Json N)) : holds (.arr items) = items.any holds := by
  rw [holds, DataTree.places_arr, List.any_flatMap]
  simp only [List.any_map]
  rfl

theorem holds_obj (fields : Record N) : holds (.obj fields) = fields.any fun x => holds x.2 := by
  rw [holds, DataTree.places_obj, List.any_flatMap]
  simp only [List.any_map]
  rfl

theorem holds_iff_solid (v : Json N) : holds v = !(solid v).isEmpty := by
  rw [holds, solid, Bool.eq_iff_iff]
  simp [List.any_eq_true, List.filter_eq_nil_iff]

theorem solid_arr (items : List (Json N)) :
    solid (.arr items) = items.flatMap fun v => (solid v).map (Prod.map (none :: ·) id) := by
  rw [solid, DataTree.places_arr, List.filter_flatMap]
  simp only [List.filter_map, solid]
  rfl

theorem solid_obj (fields : Record N) :
    solid (.obj fields) =
      fields.flatMap fun x => (solid x.2).map (Prod.map (some x.1 :: ·) id) := by
  rw [solid, DataTree.places_obj, List.filter_flatMap]
  simp only [List.filter_map, solid]
  rfl

theorem pruneItems_eq (items : List (Json N)) :
    pruneItems items = (items.map pruneEmpty).filter fun v => !isEmpty v := by
  induction items with
  | nil => simp only [pruneItems, List.map_nil, List.filter_nil]
  | cons v items ih =>
    rw [pruneItems, ih, List.map_cons, List.filter_cons]
    cases isEmpty (pruneEmpty v) <;> rfl

theorem pruneFields_eq (fields : Record N) :
    pruneFields fields =
      (fields.map (Prod.map id pruneEmpty)).filter fun x => !isEmpty x.2 := by
  induction fields with
  | nil => simp only [pruneFields, List.map_nil, List.filter_nil]
  | cons x fields ih =>
    obtain ⟨key, child⟩ := x
    rw [pruneFields, ih, List.map_cons, List.filter_cons, Prod.map_apply, id_eq]
    cases isEmpty (pruneEmpty child) <;> rfl

/-- Emptiness after pruning is decided by the scalars below. -/
theorem isEmpty_pruneEmpty (v : Json N) : isEmpty (pruneEmpty v) = !holds v := by
  induction v using DataTree.induction with
  | leaf s => rw [pruneEmpty, isEmpty, holds_leaf]
  | arr items ih =>
    rw [pruneEmpty, isEmpty, holds_arr, pruneItems_eq, Bool.eq_iff_iff, List.isEmpty_iff,
      List.filter_eq_nil_iff]
    simp only [List.mem_map, forall_exists_index, and_imp, forall_apply_eq_imp_iff₂,
      Bool.not_eq_true', Bool.not_eq_false, List.any_eq_false]
    exact forall₂_congr fun v hv => by simp [ih v hv]
  | obj fields ih =>
    rw [pruneEmpty, isEmpty, holds_obj, pruneFields_eq, Bool.eq_iff_iff, List.isEmpty_iff,
      List.filter_eq_nil_iff]
    simp only [List.mem_map, forall_exists_index, and_imp, forall_apply_eq_imp_iff₂,
      Bool.not_eq_true', Bool.not_eq_false, List.any_eq_false]
    exact forall₂_congr fun x hx => by simp [ih x.1 x.2 hx]

/-- An array keeps its items that hold something, in order. -/
theorem pruneEmpty_arr (items : List (Json N)) :
    pruneEmpty (.arr items) = .arr ((items.filter holds).map pruneEmpty) := by
  rw [pruneEmpty, pruneItems_eq, List.filter_map]
  congr 2
  exact List.filter_congr fun v _ => by simp [isEmpty_pruneEmpty]

/-- A record keeps the entries that hold something, under their keys and in order. -/
theorem pruneEmpty_obj (fields : Record N) :
    pruneEmpty (.obj fields) =
      .obj ((fields.filter fun x => holds x.2).map (Prod.map id pruneEmpty)) := by
  rw [pruneEmpty, pruneFields_eq, List.filter_map]
  congr 2
  exact List.filter_congr fun x _ => by simp [isEmpty_pruneEmpty]

/-- What holds nothing adds nothing to a concatenation over the children. -/
theorem flatMap_filter_holds {α β : Type} (l : List α) (f : α → Json N)
    (g : α → List (List (Option JStr) × Scalar N) → List β) (hg : ∀ a, g a [] = []) :
    (l.filter fun a => holds (f a)).flatMap (fun a => g a (solid (f a))) =
      l.flatMap fun a => g a (solid (f a)) := by
  induction l with
  | nil => rfl
  | cons a l ih =>
    rw [List.filter_cons, List.flatMap_cons]
    cases h : holds (f a) with
    | true => rw [if_pos rfl, List.flatMap_cons, ih]
    | false =>
      rw [holds_iff_solid, Bool.not_eq_false', List.isEmpty_iff] at h
      rw [if_neg Bool.false_ne_true, ih, h, hg, List.nil_append]

theorem solid_pruneEmpty (v : Json N) : solid (pruneEmpty v) = solid v := by
  induction v using DataTree.induction with
  | leaf s => rw [pruneEmpty]
  | arr items ih =>
    have hkept := flatMap_filter_holds items id
      (fun _ => List.map (Prod.map (none :: ·) id)) fun _ => rfl
    rw [pruneEmpty_arr, solid_arr, solid_arr, List.flatMap_map]
    refine Eq.trans ?_ hkept
    exact List.flatMap_congr fun v hv => by rw [ih v (List.mem_of_mem_filter hv), id_eq]
  | obj fields ih =>
    have hkept := flatMap_filter_holds fields Prod.snd
      (fun x => List.map (Prod.map (some x.1 :: ·) id)) fun _ => rfl
    rw [pruneEmpty_obj, solid_obj, solid_obj, List.flatMap_map]
    refine Eq.trans ?_ hkept
    exact List.flatMap_congr fun x hx => by
      rw [Prod.map_snd, Prod.map_fst, id_eq, ih x.1 x.2 (List.mem_of_mem_filter hx)]

/-- Pruning selects what holds something. -/
theorem pruneEmpty_eq_select (v : Json N) : pruneEmpty v = v.select holds := by
  induction v using DataTree.induction with
  | leaf s => rw [pruneEmpty, DataTree.select]
  | arr items ih =>
    rw [pruneEmpty_arr, DataTree.select_arr]
    exact congrArg DataTree.arr
      (List.map_congr_left fun v hv => ih v (List.mem_of_mem_filter hv))
  | obj fields ih =>
    rw [pruneEmpty_obj, DataTree.select_obj]
    exact congrArg DataTree.obj (List.map_congr_left fun x hx =>
      congrArg (Prod.mk x.1) (ih x.1 x.2 (List.mem_of_mem_filter hx)))

theorem holds_pruneEmpty (v : Json N) : holds (pruneEmpty v) = holds v := by
  rw [holds_iff_solid, holds_iff_solid, solid_pruneEmpty]

theorem pruneEmpty_idem (v : Json N) : pruneEmpty (pruneEmpty v) = pruneEmpty v := by
  induction v using DataTree.induction with
  | leaf s => rw [pruneEmpty, pruneEmpty]
  | arr items ih =>
    rw [pruneEmpty_arr, pruneEmpty_arr, List.filter_map, List.filter_filter, List.map_map]
    congr 1
    have hf : (items.filter fun v => (holds ∘ pruneEmpty) v && holds v) = items.filter holds :=
      List.filter_congr fun v _ => by rw [Function.comp_apply, holds_pruneEmpty, Bool.and_self]
    rw [hf]
    exact List.map_congr_left fun v hv => ih v (List.mem_of_mem_filter hv)
  | obj fields ih =>
    rw [pruneEmpty_obj, pruneEmpty_obj, List.filter_map, List.filter_filter, List.map_map]
    congr 1
    have hf : (fields.filter fun x => ((fun x => holds x.2) ∘ Prod.map id pruneEmpty) x &&
        holds x.2) = fields.filter fun x => holds x.2 :=
      List.filter_congr fun x _ => by
        rw [Function.comp_apply, Prod.map_snd, holds_pruneEmpty, Bool.and_self]
    rw [hf]
    exact List.map_congr_left fun x hx =>
      congrArg (Prod.mk x.1) (ih x.1 x.2 (List.mem_of_mem_filter hx))

/-- Nothing empty is left below the root. -/
theorem isEmpty_of_below_pruneEmpty {v w : Json N} (h : w.Below (pruneEmpty v)) :
    isEmpty w = false := by
  induction v using DataTree.induction with
  | leaf s =>
    rw [pruneEmpty] at h
    obtain ⟨c, hc, -⟩ := h
    cases hc
  | arr items ih =>
    rw [pruneEmpty_arr] at h
    obtain ⟨c, hc, hw⟩ := h
    obtain ⟨v, hv, rfl⟩ := List.mem_map.mp hc
    obtain ⟨hv, hholds⟩ := List.mem_filter.mp hv
    rcases DataTree.within_iff.mp hw with rfl | hw
    · rw [isEmpty_pruneEmpty, hholds, Bool.not_true]
    · exact ih v hv hw
  | obj fields ih =>
    rw [pruneEmpty_obj] at h
    obtain ⟨c, hc, hw⟩ := h
    obtain ⟨y, hy, rfl⟩ := List.mem_map.mp hc
    obtain ⟨x, hx, rfl⟩ := List.mem_map.mp hy
    obtain ⟨hx, hholds⟩ := List.mem_filter.mp hx
    rcases DataTree.within_iff.mp hw with rfl | hw
    · rw [Prod.map_snd, isEmpty_pruneEmpty, hholds, Bool.not_true]
    · exact ih x.1 x.2 hx hw

/-- `pruneEmpty` selects what holds a scalar worth showing, which leaves nothing empty. -/
theorem pruneEmpty_keeps (v : Json N) :
    pruneEmpty (pruneEmpty v) = pruneEmpty v ∧
      (∀ w, w.Below (pruneEmpty v) → isEmpty w = false) ∧
      (pruneEmpty v).places.filter (fun x => x.2.nonEmpty) =
        v.places.filter (fun x => x.2.nonEmpty) ∧
      pruneEmpty v = v.select fun w => w.leaves.any fun x => x.2.nonEmpty := by
  refine ⟨pruneEmpty_idem v, fun w => isEmpty_of_below_pruneEmpty, solid_pruneEmpty v, ?_⟩
  rw [pruneEmpty_eq_select]
  congr 1
  funext w
  rw [holds, DataTree.places, List.any_map]
  rfl

example : pruneEmpty (.arr [.obj [(js "a", .leaf (.num 0)), (js "b", .obj [])],
      .obj [(js "c", .leaf .null)]] : Json ℤ) =
    .arr [.obj [(js "a", .leaf (.num 0))]] := by rfl

end KubeConsole.Web
