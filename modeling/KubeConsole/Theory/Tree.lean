import Mathlib

/-!
Trees of scalars, lists and records: the shape of a JSON value, over any keys and any scalars.

The entries of a record are in order. Scalars are read with the path that leads to them, a path
is followed by the first entry of its key, and facts about a tree are proved by an induction
over all items or entries at once.
-/
namespace KubeConsole.Theory

inductive DataTree (κ σ : Type*) where
  | leaf (s : σ)
  | arr (items : List (DataTree κ σ))
  | obj (fields : List (κ × DataTree κ σ))

/-- One step of a path. -/
inductive Step (κ : Type*) where
  | key (k : κ)
  | index (i : ℕ)
  deriving DecidableEq, Repr

/-- The key of a step into a record; the position of an item is left open. -/
def Step.key? {κ : Type*} : Step κ → Option κ
  | .key k => some k
  | .index _ => none

namespace DataTree
variable {κ σ τ : Type*}

mutual
theorem induct {P : DataTree κ σ → Prop} (leaf : ∀ s, P (.leaf s))
    (arr : ∀ items, (∀ t ∈ items, P t) → P (.arr items))
    (obj : ∀ fields, (∀ k t, (k, t) ∈ fields → P t) → P (.obj fields)) : ∀ t, P t
  | .leaf s => leaf s
  | .arr items => arr items (inductItems leaf arr obj items)
  | .obj fields => obj fields (inductFields leaf arr obj fields)

theorem inductItems {P : DataTree κ σ → Prop} (leaf : ∀ s, P (.leaf s))
    (arr : ∀ items, (∀ t ∈ items, P t) → P (.arr items))
    (obj : ∀ fields, (∀ k t, (k, t) ∈ fields → P t) → P (.obj fields)) :
    ∀ items : List (DataTree κ σ), ∀ t ∈ items, P t
  | [] => List.forall_mem_nil P
  | t :: items =>
    List.forall_mem_cons.mpr ⟨induct leaf arr obj t, inductItems leaf arr obj items⟩

theorem inductFields {P : DataTree κ σ → Prop} (leaf : ∀ s, P (.leaf s))
    (arr : ∀ items, (∀ t ∈ items, P t) → P (.arr items))
    (obj : ∀ fields, (∀ k t, (k, t) ∈ fields → P t) → P (.obj fields)) :
    ∀ fields : List (κ × DataTree κ σ), ∀ k t, (k, t) ∈ fields → P t
  | [] => fun _ _ h => by cases h
  | (k, t) :: fields => fun k' t' h => by
    rcases List.mem_cons.mp h with heq | h
    · cases heq
      exact induct leaf arr obj t
    · exact inductFields leaf arr obj fields k' t' h
end

/-- The induction over a tree, with every item or entry at once. -/
@[elab_as_elim]
theorem induction {P : DataTree κ σ → Prop} (leaf : ∀ s, P (.leaf s))
    (arr : ∀ items, (∀ t ∈ items, P t) → P (.arr items))
    (obj : ∀ fields, (∀ k t, (k, t) ∈ fields → P t) → P (.obj fields)) (t : DataTree κ σ) :
    P t :=
  induct leaf arr obj t

/-! ## Subtrees -/

/-- `w` stands in `t`, at any depth. -/
inductive Within (w : DataTree κ σ) : DataTree κ σ → Prop where
  | refl : Within w w
  | item {t : DataTree κ σ} {items : List (DataTree κ σ)} : t ∈ items → Within w t →
    Within w (.arr items)
  | field {k : κ} {t : DataTree κ σ} {fields : List (κ × DataTree κ σ)} : (k, t) ∈ fields →
    Within w t → Within w (.obj fields)

def children : DataTree κ σ → List (DataTree κ σ)
  | .leaf _ => []
  | .arr items => items
  | .obj fields => fields.map Prod.snd

/-- `w` stands below the root of `t`. -/
def Below (w t : DataTree κ σ) : Prop := ∃ c ∈ t.children, Within w c

theorem within_iff {w t : DataTree κ σ} : Within w t ↔ w = t ∨ Below w t := by
  constructor
  · intro h
    cases h with
    | refl => exact .inl rfl
    | item ht h => exact .inr ⟨_, ht, h⟩
    | field ht h => exact .inr ⟨_, List.mem_map_of_mem (f := Prod.snd) ht, h⟩
  · rintro (rfl | ⟨c, hc, h⟩)
    · exact .refl
    · cases t with
      | leaf s => cases hc
      | arr items => exact .item hc h
      | obj fields =>
        obtain ⟨⟨k, c⟩, hmem, rfl⟩ := List.mem_map.mp hc
        exact .field hmem h

/-- No record in `t` has two entries of one key. -/
def Distinct (t : DataTree κ σ) : Prop :=
  ∀ fields, Within (.obj fields) t → (fields.map Prod.fst).Nodup

theorem Distinct.item {items : List (DataTree κ σ)} (h : Distinct (.arr items)) {t : DataTree κ σ}
    (ht : t ∈ items) : Distinct t :=
  fun fields hw => h fields (.item ht hw)

theorem Distinct.field {fields : List (κ × DataTree κ σ)} (h : Distinct (.obj fields)) {k : κ}
    {t : DataTree κ σ} (ht : (k, t) ∈ fields) : Distinct t :=
  fun inner hw => h inner (.field ht hw)

theorem Distinct.keys {fields : List (κ × DataTree κ σ)} (h : Distinct (.obj fields)) :
    (fields.map Prod.fst).Nodup :=
  h fields .refl

mutual
/-- `p` holds of every subtree. -/
def all (p : DataTree κ σ → Bool) : DataTree κ σ → Bool
  | .leaf s => p (.leaf s)
  | .arr items => p (.arr items) && allItems p items
  | .obj fields => p (.obj fields) && allFields p fields

def allItems (p : DataTree κ σ → Bool) : List (DataTree κ σ) → Bool
  | [] => true
  | t :: items => all p t && allItems p items

def allFields (p : DataTree κ σ → Bool) : List (κ × DataTree κ σ) → Bool
  | [] => true
  | (_, t) :: fields => all p t && allFields p fields
end

theorem allItems_iff {p : DataTree κ σ → Bool} {items : List (DataTree κ σ)} :
    allItems p items = true ↔ ∀ t ∈ items, all p t = true := by
  induction items with
  | nil => simp [allItems]
  | cons t items ih => rw [allItems, Bool.and_eq_true_iff, ih, List.forall_mem_cons]

theorem allFields_iff {p : DataTree κ σ → Bool} {fields : List (κ × DataTree κ σ)} :
    allFields p fields = true ↔ ∀ x ∈ fields, all p x.2 = true := by
  induction fields with
  | nil => simp [allFields]
  | cons x fields ih => rw [allFields, Bool.and_eq_true_iff, ih, List.forall_mem_cons]

theorem of_all {p : DataTree κ σ → Bool} {t w : DataTree κ σ} (h : t.all p = true)
    (hw : Within w t) : p w = true := by
  induction hw with
  | refl =>
    cases w with
    | leaf s => exact h
    | arr items => exact (Bool.and_eq_true_iff.mp h).1
    | obj fields => exact (Bool.and_eq_true_iff.mp h).1
  | item ht _ ih => exact ih (allItems_iff.mp (Bool.and_eq_true_iff.mp h).2 _ ht)
  | field ht _ ih => exact ih (allFields_iff.mp (Bool.and_eq_true_iff.mp h).2 _ ht)

/-- The test that the keys of a record are distinct. -/
def keysDistinct [DecidableEq κ] : DataTree κ σ → Bool
  | .obj fields => (fields.map Prod.fst).Nodup
  | _ => true

theorem distinct_of_all [DecidableEq κ] {t : DataTree κ σ} (h : t.all keysDistinct = true) :
    Distinct t :=
  fun _ hw => of_decide_eq_true (of_all h hw)

/-! ## Scalars -/

/-- A path with its scalar, one step further from the root. -/
def under (step : Step κ) (x : List (Step κ) × σ) : List (Step κ) × σ := (step :: x.1, x.2)

mutual
/-- The scalars in order, each with the path that leads to it. -/
def leaves : DataTree κ σ → List (List (Step κ) × σ)
  | .leaf s => [([], s)]
  | .arr items => leavesItems 0 items
  | .obj fields => leavesFields fields

def leavesItems : ℕ → List (DataTree κ σ) → List (List (Step κ) × σ)
  | _, [] => []
  | i, t :: items => (leaves t).map (under (.index i)) ++ leavesItems (i + 1) items

def leavesFields : List (κ × DataTree κ σ) → List (List (Step κ) × σ)
  | [] => []
  | (k, t) :: fields => (leaves t).map (under (.key k)) ++ leavesFields fields
end

@[simp] theorem leaves_leaf (s : σ) : (leaf s : DataTree κ σ).leaves = [([], s)] := by
  simp only [leaves]

theorem leavesItems_eq (items : List (DataTree κ σ)) (i : ℕ) :
    leavesItems i items =
      (items.zipIdx i).flatMap fun x => x.1.leaves.map (under (.index x.2)) := by
  induction items generalizing i with
  | nil => simp only [leavesItems, List.zipIdx_nil, List.flatMap_nil]
  | cons t items ih => simp only [leavesItems, List.zipIdx_cons, List.flatMap_cons, ih]

theorem leaves_arr (items : List (DataTree κ σ)) :
    (arr items).leaves = items.zipIdx.flatMap fun x => x.1.leaves.map (under (.index x.2)) := by
  rw [leaves, leavesItems_eq]

theorem leaves_obj (fields : List (κ × DataTree κ σ)) :
    (obj fields).leaves = fields.flatMap fun x => x.2.leaves.map (under (.key x.1)) := by
  rw [leaves]
  induction fields with
  | nil => simp only [leavesFields, List.flatMap_nil]
  | cons x fields ih => simp only [leavesFields, List.flatMap_cons, ih]

/-- The scalars in order, each under its keys: where an item stands in its array is left open. -/
def places (t : DataTree κ σ) : List (List (Option κ) × σ) :=
  t.leaves.map (Prod.map (List.map Step.key?) id)

theorem places_arr (items : List (DataTree κ σ)) :
    (arr items).places = items.flatMap fun t => t.places.map (Prod.map (none :: ·) id) := by
  have h (i : ℕ) : ((items.zipIdx i).flatMap fun x => x.1.leaves.map (under (.index x.2))).map
      (Prod.map (List.map Step.key?) id) =
      items.flatMap fun t => t.places.map (Prod.map (none :: ·) id) := by
    induction items generalizing i with
    | nil => rfl
    | cons t items ih =>
      rw [List.zipIdx_cons, List.flatMap_cons, List.map_append, ih, List.flatMap_cons, places,
        List.map_map, List.map_map]
      rfl
  rw [places, leaves_arr]
  exact h 0

theorem places_obj (fields : List (κ × DataTree κ σ)) :
    (obj fields).places =
      fields.flatMap fun x => x.2.places.map (Prod.map (some x.1 :: ·) id) := by
  rw [places, leaves_obj, List.map_flatMap]
  simp only [places, List.map_map]
  rfl

/-- The scalars in order. -/
def scalars (t : DataTree κ σ) : List σ := t.leaves.map Prod.snd

@[simp] theorem scalars_leaf (s : σ) : (leaf s : DataTree κ σ).scalars = [s] := by
  simp [scalars]

theorem scalars_arr (items : List (DataTree κ σ)) :
    (arr items).scalars = items.flatMap scalars := by
  have h := congrArg (List.map Prod.snd) (places_arr items)
  rw [places, List.map_map, List.map_flatMap] at h
  rw [scalars]
  refine h.trans (List.flatMap_congr fun t _ => ?_)
  rw [places, List.map_map, List.map_map]
  rfl

theorem scalars_obj (fields : List (κ × DataTree κ σ)) :
    (obj fields).scalars = fields.flatMap fun x => x.2.scalars := by
  rw [scalars, leaves_obj, List.map_flatMap]
  refine List.flatMap_congr fun x _ => ?_
  rw [List.map_map]
  rfl

mutual
def map (f : σ → τ) : DataTree κ σ → DataTree κ τ
  | .leaf s => .leaf (f s)
  | .arr items => .arr (mapItems f items)
  | .obj fields => .obj (mapFields f fields)

def mapItems (f : σ → τ) : List (DataTree κ σ) → List (DataTree κ τ)
  | [] => []
  | t :: items => map f t :: mapItems f items

def mapFields (f : σ → τ) : List (κ × DataTree κ σ) → List (κ × DataTree κ τ)
  | [] => []
  | (k, t) :: fields => (k, map f t) :: mapFields f fields
end

theorem mapFields_eq (f : σ → τ) (fields : List (κ × DataTree κ σ)) :
    mapFields f fields = fields.map (Prod.map id (map f)) := by
  induction fields with
  | nil => rw [mapFields, List.map_nil]
  | cons x fields ih =>
    rw [mapFields, List.map_cons, ih]
    rfl

/-! ## Selection -/

mutual
/-- The tree with those children left that `p` accepts, at every depth. -/
def select (p : DataTree κ σ → Bool) : DataTree κ σ → DataTree κ σ
  | .leaf s => .leaf s
  | .arr items => .arr (selectItems p items)
  | .obj fields => .obj (selectFields p fields)

def selectItems (p : DataTree κ σ → Bool) : List (DataTree κ σ) → List (DataTree κ σ)
  | [] => []
  | t :: items => if p t then select p t :: selectItems p items else selectItems p items

def selectFields (p : DataTree κ σ → Bool) : List (κ × DataTree κ σ) → List (κ × DataTree κ σ)
  | [] => []
  | (k, t) :: fields =>
    if p t then (k, select p t) :: selectFields p fields else selectFields p fields
end

theorem select_arr (p : DataTree κ σ → Bool) (items : List (DataTree κ σ)) :
    (arr items).select p = arr ((items.filter p).map (select p)) := by
  rw [select]
  congr 1
  induction items with
  | nil => simp only [selectItems, List.filter_nil, List.map_nil]
  | cons t items ih =>
    rw [selectItems, ih, List.filter_cons]
    split_ifs <;> rfl

theorem select_obj (p : DataTree κ σ → Bool) (fields : List (κ × DataTree κ σ)) :
    (obj fields).select p =
      obj ((fields.filter fun x => p x.2).map (Prod.map id (select p))) := by
  rw [select]
  congr 1
  induction fields with
  | nil => simp only [selectFields, List.filter_nil, List.map_nil]
  | cons x fields ih =>
    rw [selectFields, ih, List.filter_cons]
    split_ifs <;> rfl

/-! ## Paths -/

variable [BEq κ]

/-- What stands at a path. -/
def get? : DataTree κ σ → List (Step κ) → Option (DataTree κ σ)
  | t, [] => some t
  | .arr items, .index i :: p => items[i]?.bind fun t => t.get? p
  | .obj fields, .key k :: p => (fields.lookup k).bind fun t => t.get? p
  | _, _ :: _ => none

@[simp] theorem get?_nil (t : DataTree κ σ) : t.get? [] = some t := by
  cases t <;> rfl

@[simp] theorem get?_index (items : List (DataTree κ σ)) (i : ℕ) (p : List (Step κ)) :
    (arr items).get? (.index i :: p) = items[i]?.bind fun t => t.get? p := rfl

@[simp] theorem get?_key (fields : List (κ × DataTree κ σ)) (k : κ) (p : List (Step κ)) :
    (obj fields).get? (.key k :: p) = (fields.lookup k).bind fun t => t.get? p := rfl

theorem mem_of_lookup [LawfulBEq κ] {α : Type*} {fields : List (κ × α)} {k : κ} {a : α}
    (h : fields.lookup k = some a) : (k, a) ∈ fields := by
  obtain ⟨xs, ys, rfl, -⟩ := List.lookup_eq_some_iff.mp h
  simp

theorem lookup_eq_some_iff [LawfulBEq κ] {α : Type*} {fields : List (κ × α)}
    (h : (fields.map Prod.fst).Nodup) {k : κ} {a : α} :
    fields.lookup k = some a ↔ (k, a) ∈ fields := by
  refine ⟨mem_of_lookup, fun hmem => ?_⟩
  induction fields with
  | nil => cases hmem
  | cons x fields ih =>
    obtain ⟨hnew, hnodup⟩ := List.nodup_cons.mp h
    rcases List.mem_cons.mp hmem with rfl | hmem
    · exact List.lookup_cons_self
    · have hne : (k == x.1) = false :=
        beq_false_of_ne fun heq => hnew (heq ▸ List.mem_map.mpr ⟨(k, a), hmem, rfl⟩)
      rw [List.lookup_cons, hne]
      exact ih hnodup hmem

/-! ## Children that are kept -/

/-- A selection that loses no item leaves each where it stood. -/
theorem getElem?_filterMap {α β : Type*} {f : α → Option β} {l : List α}
    (h : l.length ≤ (l.filterMap f).length) (i : ℕ) : (l.filterMap f)[i]? = l[i]?.bind f := by
  have hlen := List.filterMap_length_eq_length.mp (le_antisymm (List.length_filterMap_le f l) h)
  clear h
  induction l generalizing i with
  | nil => rfl
  | cons a l ih =>
    obtain ⟨ha, hl⟩ := List.forall_mem_cons.mp hlen
    obtain ⟨b, hb⟩ := Option.isSome_iff_exists.mp ha
    rw [List.filterMap_cons_some hb]
    cases i with
    | zero => exact hb.symm
    | succ i => exact ih i hl

/-- What a selection of entries leaves under a key. -/
theorem lookup_filterMap {α β : Type*} [LawfulBEq κ] (f : κ → α → Option β)
    {fields : List (κ × α)} (h : (fields.map Prod.fst).Nodup) (k : κ) :
    (fields.filterMap fun x => (f x.1 x.2).map (Prod.mk x.1)).lookup k =
      (fields.lookup k).bind (f k) := by
  induction fields with
  | nil => rfl
  | cons x fields ih =>
    obtain ⟨k', a⟩ := x
    obtain ⟨hnew, hnodup⟩ := List.nodup_cons.mp h
    rw [List.lookup_cons, List.filterMap_cons]
    cases hk : k == k' with
    | true =>
      obtain rfl := eq_of_beq hk
      cases hf : f k a with
      | none =>
        have habsent : fields.lookup k = none := by
          refine List.lookup_eq_none_iff.mpr fun y hy => bne_iff_ne.mpr fun heq => ?_
          exact hnew (List.mem_map.mpr ⟨y, hy, heq.symm⟩)
        rw [Option.map_none, ih hnodup, habsent, Option.bind_none, Option.bind_some, hf]
      | some b =>
        rw [Option.map_some, List.lookup_cons, beq_self_eq_true, Option.bind_some, hf]
    | false =>
      cases f k' a with
      | none => exact ih hnodup
      | some b =>
        rw [Option.map_some, List.lookup_cons, hk]
        exact ih hnodup

end DataTree
end KubeConsole.Theory
