import KubeConsole.Theory.Mask
import KubeConsole.Web.Json

/-!
The ownership of Server-Side Apply in `fieldFilter.ts`: filtering a value by a set of `FieldsV1`,
the merging of sets, and the set of a spec over all `Apply` entries.

`JSON.parse` is the parameter `parse`. A value is read through `view`, which tells a scalar from
what it is marked with: the code's own functions are those of `view = id`.
-/
namespace KubeConsole.Web
open KubeConsole.Theory

variable {N σ : Type}

/-- `startsWith`. -/
def startsWith (s : String) (key : JStr) : Bool := (js s).isPrefixOf key

def isRecord (v : DataTree JStr σ) : Bool :=
  match v with
  | .obj _ => true
  | _ => false

/-- `el === v` for a parsed `v`: an array or a record is identical to no other value. -/
def identical [DecidableEq N] (view : σ → Scalar N) : Option (DataTree JStr σ) → Json N → Bool
  | some (.leaf x), .leaf s => view x = s
  | _, _ => false

/-- An empty set, or one that holds only self markers. -/
def ownsWhole (fs : Record N) : Bool := fs.all fun x => x.1 = js "."

/-- `isRecord(v) ? v : {}`. -/
def recordOr (v : Json N) : Record N :=
  match v with
  | .obj fs => fs
  | _ => []

section Filter
variable [DecidableEq N] (parse : JStr → Option (Document N)) (view : σ → Scalar N)

def keyMatches (el : List (JStr × DataTree JStr σ)) (keyJson : JStr) : Bool :=
  match parse keyJson with
  | some ⟨.obj parsed, _⟩ => parsed.all fun x => identical view (el.lookup x.1) x.2
  | _ => false

/-- The test of a `k:` key against a list element. -/
def matchesKey (el : List (JStr × DataTree JStr σ)) (fsKey : JStr) : Bool :=
  startsWith "k:" fsKey && keyMatches parse view el (fsKey.drop 2)

/-- The test of a `v:` key against a list element. -/
def matchesValue (el : DataTree JStr σ) (fsKey : JStr) : Bool :=
  startsWith "v:" fsKey &&
    match parse (fsKey.drop 2) with
    | some v => identical view (some el) v.value
    | none => false

def matchArrayElement (el : DataTree JStr σ) (fs : Record N) : Option (Record N) :=
  match el with
  | .obj fields => (fs.find? fun x => matchesKey parse view fields x.1).map fun x => recordOr x.2
  | _ => if fs.any fun x => matchesValue parse view el x.1 then some [] else none

/-- The set of a field: `fs["f:" + key]`, where it is a record. -/
def fieldSet (key : JStr) (fs : Record N) : Option (Record N) :=
  match fs.lookup (js "f:" ++ key) with
  | some (.obj child) => some child
  | _ => none

mutual
def filterValue (fs : Record N) : DataTree JStr σ → DataTree JStr σ
  | .leaf s => .leaf s
  | .arr items => .arr (if ownsWhole fs then items else filterElements fs items)
  | .obj fields => .obj (if ownsWhole fs then fields else filterEntries fs fields)

def filterElements (fs : Record N) : List (DataTree JStr σ) → List (DataTree JStr σ)
  | [] => []
  | el :: items =>
    match matchArrayElement parse view el fs with
    | some childFs => filterValue childFs el :: filterElements fs items
    | none => filterElements fs items

def filterEntries (fs : Record N) : List (JStr × DataTree JStr σ) → List (JStr × DataTree JStr σ)
  | [] => []
  | (key, child) :: fields =>
    match fieldSet key fs with
    | some childFs => (key, filterValue childFs child) :: filterEntries fs fields
    | none => filterEntries fs fields
end

end Filter

/-- The keys of `b` that `a` does not have. -/
def mergeRest (a b : Record N) : Record N :=
  (b.filter fun x => (a.lookup x.1).isNone).map fun x => (x.1, .obj (recordOr x.2))

mutual
/-- `out[key]` for a key of `a`. -/
def mergeNode : Json N → Option (Json N) → Json N
  | .obj a, some (.obj b) =>
    .obj (if ownsWhole a || ownsWhole b then [] else mergeShared b a ++ mergeRest a b)
  | .obj a, _ => .obj a
  | .leaf _, bv => .obj (bv.elim [] recordOr)
  | .arr _, bv => .obj (bv.elim [] recordOr)

def mergeShared (b : Record N) : Record N → Record N
  | [] => []
  | (key, av) :: a => (key, mergeNode av (b.lookup key)) :: mergeShared b a
end

/-- The keys of a `FieldsV1` set are prefixed, so that none names a member of
`Object.prototype` and `out[key] = …` always makes an entry. -/
def mergeFieldSets (a b : Record N) : Record N :=
  if ownsWhole a || ownsWhole b then [] else mergeShared b a ++ mergeRest a b

/-- `entry[key] === s`. -/
def isString [DecidableEq N] (s : String) (v : Option (Json N)) : Bool :=
  identical id v (.leaf (.str (js s)))

/-- The `f:spec` set of an entry that is not skipped. -/
def specFs [DecidableEq N] (raw : Json N) : Option (Record N) :=
  match raw with
  | .obj entry =>
    if isString "Apply" (entry.lookup (js "operation")) = false then none
    else if (entry.lookup (js "subresource")).isSome = true ∧
      isString "" (entry.lookup (js "subresource")) = false then none
    else match entry.lookup (js "fieldsV1") with
    | some (.obj fieldsV1) => match fieldsV1.lookup (js "f:spec") with
      | some (.obj fs) => some fs
      | _ => none
    | _ => none
  | _ => none

def extractOwnedSpec [DecidableEq N] (managedFields : Option (Json N)) : Option (Record N) :=
  match managedFields with
  | some (.arr entries) => entries.foldl (fun merged raw => match specFs raw with
    | some fs => some (merged.elim fs fun merged => mergeFieldSets merged fs)
    | none => merged) none
  | _ => none

/-! ## Sets of fields -/

def prefixed (key : JStr) : Prop :=
  key = js "." ∨ startsWith "f:" key = true ∨ startsWith "k:" key = true ∨
    startsWith "v:" key = true

instance (key : JStr) : Decidable (prefixed key) := by
  unfold prefixed
  infer_instance

/-- A well-formed `FieldsV1` set: every node is an object, its keys distinct and prefixed. -/
inductive IsFieldSet : Record N → Prop where
  | mk {fs : Record N} : (fs.map Prod.fst).Nodup → (∀ x ∈ fs, prefixed x.1) →
    (∀ x ∈ fs, ∃ child, x.2 = .obj child) →
    (∀ key child, (key, DataTree.obj child) ∈ fs → IsFieldSet child) → IsFieldSet fs

/-- `key` stands in the set, at any depth. -/
inductive Occurs (key : JStr) : Record N → Prop where
  | here {fs : Record N} {v : Json N} : (key, v) ∈ fs → Occurs key fs
  | inside {fs child : Record N} {key' : JStr} : (key', DataTree.obj child) ∈ fs →
    Occurs key child → Occurs key fs

/-- Each list element of `v` that is a record matches at most one `k:` key of all the sets. -/
def AtMostOne [DecidableEq N] (parse : JStr → Option (Document N)) (view : σ → Scalar N)
    (v : DataTree JStr σ) (sets : List (Record N)) : Prop :=
  ∀ items, (DataTree.arr items).Within v → ∀ el, DataTree.obj el ∈ items →
    ∀ key key', (∃ fs ∈ sets, Occurs key fs) → (∃ fs ∈ sets, Occurs key' fs) →
      matchesKey parse view el key = true → matchesKey parse view el key' = true → key = key'

@[simp] theorem not_occurs_nil (key : JStr) : ¬Occurs key ([] : Record N) := by
  intro h
  cases h with
  | here h => cases h
  | inside h => cases h

@[simp] theorem occurs_cons {key k : JStr} {child fs : Record N} :
    Occurs key ((k, .obj child) :: fs) ↔ key = k ∨ Occurs key child ∨ Occurs key fs := by
  constructor
  · intro h
    cases h with
    | here h =>
      rcases List.mem_cons.mp h with h | h
      · exact .inl (congrArg Prod.fst h)
      · exact .inr (.inr (.here h))
    | inside h hocc =>
      rcases List.mem_cons.mp h with h | h
      · cases h
        exact .inr (.inl hocc)
      · exact .inr (.inr (.inside h hocc))
  · rintro (rfl | h | h)
    · exact .here List.mem_cons_self
    · exact .inside List.mem_cons_self h
    · cases h with
      | here h => exact .here (List.mem_cons_of_mem _ h)
      | inside h hocc => exact .inside (List.mem_cons_of_mem _ h) hocc

theorem lookup_mergeShared (a b : Record N) (key : JStr) :
    (mergeShared b a).lookup key = (a.lookup key).map fun av => mergeNode av (b.lookup key) := by
  induction a with
  | nil => rfl
  | cons x a ih =>
    obtain ⟨key', av⟩ := x
    rw [mergeShared, List.lookup_cons, List.lookup_cons, ih]
    cases h : key == key' with
    | true => rw [eq_of_beq h, Option.map_some]
    | false => rfl

theorem lookup_mergeRest (a b : Record N) (key : JStr) (ha : a.lookup key = none) :
    (mergeRest a b).lookup key = (b.lookup key).map fun bv => .obj (recordOr bv) := by
  induction b with
  | nil => rfl
  | cons x b ih =>
    obtain ⟨key', bv⟩ := x
    rw [mergeRest] at ih ⊢
    rw [List.filter_cons, List.lookup_cons]
    cases h : key == key' with
    | true =>
      rw [eq_of_beq h] at ha
      simp [ha, eq_of_beq h]
    | false =>
      split_ifs
      · rw [List.map_cons, List.lookup_cons, h, ih]
      · rw [ih]

/-- A merged set says of a key what the two sets say of it. -/
theorem lookup_mergeFieldSets {a b : Record N} (h : (ownsWhole a || ownsWhole b) = false)
    (key : JStr) :
    (mergeFieldSets a b).lookup key = match a.lookup key with
      | some av => some (mergeNode av (b.lookup key))
      | none => (b.lookup key).map fun bv => .obj (recordOr bv) := by
  rw [mergeFieldSets, h, if_neg Bool.false_ne_true, List.lookup_append, lookup_mergeShared]
  cases ha : a.lookup key with
  | some av => rfl
  | none => rw [lookup_mergeRest a b key ha, Option.map_none, Option.none_or]

theorem mergeNode_obj (a b : Record N) :
    mergeNode (.obj a) (some (.obj b)) = .obj (mergeFieldSets a b) := by
  rw [mergeNode, mergeFieldSets]

theorem keys_mergeShared (a b : Record N) :
    (mergeShared b a).map Prod.fst = a.map Prod.fst := by
  induction a with
  | nil => rfl
  | cons x a ih => rw [mergeShared, List.map_cons, List.map_cons, ih]

theorem mem_mergeRest {a b : Record N} {x : JStr × Json N} (h : x ∈ mergeRest a b) :
    a.lookup x.1 = none ∧ ∃ bv, (x.1, bv) ∈ b ∧ x.2 = .obj (recordOr bv) := by
  obtain ⟨y, hy, rfl⟩ := List.mem_map.mp h
  obtain ⟨hy, hnone⟩ := List.mem_filter.mp hy
  exact ⟨Option.isNone_iff_eq_none.mp hnone, y.2, hy, rfl⟩

theorem mem_mergeShared {a b : Record N} {x : JStr × Json N} (h : x ∈ mergeShared b a) :
    ∃ av, (x.1, av) ∈ a ∧ x.2 = mergeNode av (b.lookup x.1) := by
  induction a with
  | nil => cases h
  | cons y a ih =>
    rw [mergeShared] at h
    rcases List.mem_cons.mp h with rfl | h
    · exact ⟨y.2, List.mem_cons_self, rfl⟩
    · obtain ⟨av, hav, hx⟩ := ih h
      exact ⟨av, List.mem_cons_of_mem _ hav, hx⟩

namespace IsFieldSet

theorem nil : IsFieldSet ([] : Record N) :=
  .mk List.nodup_nil (List.forall_mem_nil _) (List.forall_mem_nil _) fun _ _ h => by cases h

theorem cons {k : JStr} {child fs : Record N} (hk : prefixed k)
    (hnew : k ∉ fs.map Prod.fst) (hchild : IsFieldSet child) (hfs : IsFieldSet fs) :
    IsFieldSet ((k, .obj child) :: fs) := by
  obtain ⟨hnodup, hpre, hobj, hset⟩ := hfs
  refine .mk (List.nodup_cons.mpr ⟨hnew, hnodup⟩) (List.forall_mem_cons.mpr ⟨hk, hpre⟩)
    (List.forall_mem_cons.mpr ⟨⟨child, rfl⟩, hobj⟩) fun key child' h => ?_
  rcases List.mem_cons.mp h with h | h
  · cases h
    exact hchild
  · exact hset key child' h

theorem child {fs : Record N} (h : IsFieldSet fs) {key : JStr} {v : Json N}
    (hv : (key, v) ∈ fs) : ∃ child, v = .obj child ∧ IsFieldSet child := by
  obtain ⟨-, -, hobj, hchild⟩ := h
  obtain ⟨child, rfl⟩ := hobj _ hv
  exact ⟨child, rfl, hchild key child hv⟩

/-- Where an entry of a merged set comes from. -/
theorem mem_merge {a b : Record N} (ha : IsFieldSet a) (hb : IsFieldSet b) {x : JStr × Json N}
    (h : x ∈ mergeFieldSets a b) : x ∈ a ∨ x ∈ b ∨ ∃ a' b', (x.1, .obj a') ∈ a ∧
      (x.1, .obj b') ∈ b ∧ x.2 = .obj (mergeFieldSets a' b') := by
  rw [mergeFieldSets] at h
  split_ifs at h with hw
  · cases h
  rcases List.mem_append.mp h with h | h
  · obtain ⟨av, hav, hx⟩ := mem_mergeShared h
    obtain ⟨a', rfl, -⟩ := ha.child hav
    cases hl : b.lookup x.1 with
    | none =>
      rw [hl, mergeNode] at hx
      · exact .inl (by rwa [← hx] at hav)
      · nofun
    | some bv =>
      have hbv := DataTree.mem_of_lookup hl
      obtain ⟨b', rfl, -⟩ := hb.child hbv
      rw [hl, mergeNode_obj] at hx
      exact .inr (.inr ⟨a', b', hav, hbv, hx⟩)
  · obtain ⟨-, bv, hbv, hx⟩ := mem_mergeRest h
    obtain ⟨b', rfl, -⟩ := hb.child hbv
    change x.2 = .obj b' at hx
    exact .inr (.inl (by rwa [← hx] at hbv))

theorem nodup_merge {a b : Record N} (ha : IsFieldSet a) (hb : IsFieldSet b) :
    ((mergeFieldSets a b).map Prod.fst).Nodup := by
  obtain ⟨ha, -⟩ := ha
  obtain ⟨hb, -⟩ := hb
  rw [mergeFieldSets]
  split_ifs
  · exact List.nodup_nil
  rw [List.map_append, keys_mergeShared, List.nodup_append]
  refine ⟨ha, ?_, ?_⟩
  · rw [mergeRest, List.map_map]
    exact hb.sublist (List.filter_sublist.map _)
  · rintro key hka key' hkb rfl
    obtain ⟨x, hx, rfl⟩ := List.mem_map.mp hkb
    obtain ⟨y, hy, hkey⟩ := List.mem_map.mp hka
    have hnone := (mem_mergeRest hx).1
    rw [List.lookup_eq_none_iff] at hnone
    exact absurd hkey.symm (by simpa using hnone y hy)

theorem merge {a b : Record N} (ha : IsFieldSet a) (hb : IsFieldSet b) :
    IsFieldSet (mergeFieldSets a b) := by
  induction ha generalizing b with
  | @mk a hnodup hpre hobj hchild ih =>
    have ha : IsFieldSet a := .mk hnodup hpre hobj hchild
    refine .mk (nodup_merge ha hb) (fun x hx => ?_) (fun x hx => ?_) fun key child hx => ?_
    · rcases mem_merge ha hb hx with h | h | ⟨a', b', h, -⟩
      · exact hpre x h
      · obtain ⟨-, hpre, -⟩ := hb
        exact hpre x h
      · exact hpre (x.1, .obj a') h
    · rcases mem_merge ha hb hx with h | h | ⟨a', b', -, -, h⟩
      · exact hobj x h
      · obtain ⟨-, -, hobj, -⟩ := hb
        exact hobj x h
      · exact ⟨_, h⟩
    · rcases mem_merge ha hb hx with h | h | ⟨a', b', ha', hb', h⟩
      · exact hchild key child h
      · obtain ⟨-, -, -, hchild⟩ := hb
        exact hchild key child h
      · obtain ⟨b'', heq, hb''⟩ := hb.child hb'
        cases heq
        cases h
        exact ih key a' ha' hb''

end IsFieldSet

/-- Merging brings in no key. -/
theorem occurs_merge {a b : Record N} (ha : IsFieldSet a) (hb : IsFieldSet b) {key : JStr}
    (h : Occurs key (mergeFieldSets a b)) : Occurs key a ∨ Occurs key b := by
  induction ha generalizing b with
  | @mk a hnodup hpre hobj hchild ih =>
    have ha : IsFieldSet a := .mk hnodup hpre hobj hchild
    cases h with
    | here hmem =>
      rcases ha.mem_merge hb hmem with h | h | ⟨a', b', h, -⟩
      · exact .inl (.here h)
      · exact .inr (.here h)
      · exact .inl (.here h)
    | inside hmem h =>
      rcases ha.mem_merge hb hmem with hin | hin | ⟨a', b', ha', hb', heq⟩
      · exact .inl (.inside hin h)
      · exact .inr (.inside hin h)
      · obtain ⟨b'', hb'', hset⟩ := hb.child hb'
        cases hb''
        cases heq
        exact (ih _ a' ha' hset h).imp (.inside ha') (.inside hb')

theorem ownsWhole_eq_false {fs : Record N} (h : ownsWhole fs = false) :
    ∃ x ∈ fs, x.1 ≠ js "." := by
  obtain ⟨x, hx, hne⟩ := List.all_eq_false.mp h
  exact ⟨x, hx, of_decide_eq_false (Bool.eq_false_of_not_eq_true hne)⟩

theorem ownsWhole_merge (a b : Record N) :
    ownsWhole (mergeFieldSets a b) = (ownsWhole a || ownsWhole b) := by
  rw [mergeFieldSets]
  cases h : ownsWhole a || ownsWhole b with
  | true => rfl
  | false =>
    rw [if_neg Bool.false_ne_true]
    obtain ⟨x, hx, hne⟩ := ownsWhole_eq_false (Bool.or_eq_false_iff.mp h).1
    have hkey : x.1 ∈ (mergeShared b a).map Prod.fst := by
      rw [keys_mergeShared]
      exact List.mem_map_of_mem hx
    obtain ⟨y, hy, heq⟩ := List.mem_map.mp hkey
    refine List.all_eq_false.mpr ⟨y, List.mem_append_left _ hy, ?_⟩
    rw [heq, decide_eq_true_iff]
    exact hne

/-- Two sets and their merge say of one key what a join says. -/
theorem joined_lookup {a b : Record N} (ha : IsFieldSet a) (hb : IsFieldSet b)
    (hw : ownsWhole (mergeFieldSets a b) = false) (key : JStr)
    {J : Record N → Record N → Record N → Prop}
    (hJ : ∀ a' b', (key, .obj a') ∈ a → (key, .obj b') ∈ b → IsFieldSet a' → IsFieldSet b' →
      J a' b' (mergeFieldSets a' b')) :
    Masking.Joined J ((a.lookup key).map recordOr) ((b.lookup key).map recordOr)
      (((mergeFieldSets a b).lookup key).map recordOr) := by
  rw [ownsWhole_merge] at hw
  rw [lookup_mergeFieldSets hw]
  cases hla : a.lookup key with
  | none =>
    cases b.lookup key with
    | none => exact .neither
    | some bv => exact .right (recordOr bv)
  | some av =>
    have hav := DataTree.mem_of_lookup hla
    obtain ⟨a', rfl, ha'⟩ := ha.child hav
    cases hlb : b.lookup key with
    | none => exact .left a'
    | some bv =>
      have hbv := DataTree.mem_of_lookup hlb
      obtain ⟨b', rfl, hb'⟩ := hb.child hbv
      simp only [mergeNode_obj]
      exact .both (hJ a' b' hav hbv ha' hb')

theorem mem_keys_merge {a b : Record N} (hw : ownsWhole (mergeFieldSets a b) = false)
    {key : JStr} : key ∈ (mergeFieldSets a b).map Prod.fst ↔
      key ∈ a.map Prod.fst ∨ key ∈ b.map Prod.fst := by
  rw [ownsWhole_merge] at hw
  rw [mergeFieldSets, hw, if_neg Bool.false_ne_true, List.map_append, List.mem_append,
    keys_mergeShared]
  by_cases ha : key ∈ a.map Prod.fst
  · exact ⟨fun _ => .inl ha, fun _ => .inl ha⟩
  have hnone : a.lookup key = none := by
    rw [List.lookup_eq_none_iff]
    intro x hx
    exact bne_iff_ne.mpr fun heq => ha (List.mem_map.mpr ⟨x, hx, heq.symm⟩)
  refine or_congr_right ⟨fun h => ?_, fun h => ?_⟩
  · obtain ⟨x, hx, rfl⟩ := List.mem_map.mp h
    obtain ⟨-, bv, hbv, -⟩ := mem_mergeRest hx
    exact List.mem_map.mpr ⟨(x.1, bv), hbv, rfl⟩
  · obtain ⟨x, hx, rfl⟩ := List.mem_map.mp h
    have hkeep : x ∈ b.filter fun x => (a.lookup x.1).isNone := by simp [hx, hnone]
    exact List.mem_map.mpr ⟨_, List.mem_map_of_mem hkeep, rfl⟩

theorem fieldSet_eq {fs : Record N} (h : IsFieldSet fs) (key : JStr) :
    fieldSet key fs = (fs.lookup (js "f:" ++ key)).map recordOr := by
  rw [fieldSet]
  cases hl : fs.lookup (js "f:" ++ key) with
  | none => rfl
  | some v =>
    obtain ⟨child, rfl, -⟩ := h.child (DataTree.mem_of_lookup hl)
    rfl

/-- With one key that can match, searching for a match is looking that key up. -/
theorem find?_eq_lookup {α : Type} {p : JStr → Bool} {key : JStr} (hp : p key = true)
    {fs : List (JStr × α)} (honly : ∀ x ∈ fs, p x.1 = true → x.1 = key) :
    (fs.find? fun x => p x.1).map Prod.snd = fs.lookup key := by
  induction fs with
  | nil => rfl
  | cons x fs ih =>
    obtain ⟨hx, hfs⟩ := List.forall_mem_cons.mp honly
    obtain ⟨key', v⟩ := x
    rw [List.find?_cons, List.lookup_cons]
    by_cases h : p key' = true
    · have heq : key' = key := hx h
      rw [heq, beq_self_eq_true, hp]
      rfl
    · have hne : (key == key') = false := beq_false_of_ne fun heq => h (heq ▸ hp)
      rw [Bool.eq_false_of_not_eq_true h, hne]
      exact ih hfs

/-! ## Filtering under several sets -/

section Union
variable [DecidableEq N] (parse : JStr → Option (Document N)) (view : σ → Scalar N)

/-- The sets of `FieldsV1` as masks. -/
def fieldsV1 : Masking JStr σ (Record N) where
  whole := ownsWhole
  item := matchArrayElement parse view
  field := fieldSet

theorem filterElements_eq {fs : Record N} {items : List (DataTree JStr σ)}
    (ih : ∀ el ∈ items, ∀ fs, filterValue parse view fs el =
      (fieldsV1 parse view).filter [fs] el) :
    filterElements parse view fs items = (fieldsV1 parse view).filterItems [fs] items := by
  induction items with
  | nil => rw [filterElements, Masking.filterItems]
  | cons el items ihs =>
    obtain ⟨hel, hitems⟩ := List.forall_mem_cons.mp ih
    rw [filterElements, Masking.filterItems, ihs hitems]
    cases h : matchArrayElement parse view el fs with
    | none =>
      have hc : [fs].filterMap ((fieldsV1 parse view).item el) = [] := List.filterMap_cons_none h
      rw [hc]
      rfl
    | some childFs =>
      have hc : [fs].filterMap ((fieldsV1 parse view).item el) = [childFs] :=
        List.filterMap_cons_some h
      rw [hc, ← hel childFs]
      rfl

theorem filterEntries_eq {fs : Record N} {fields : List (JStr × DataTree JStr σ)}
    (ih : ∀ key child, (key, child) ∈ fields → ∀ fs, filterValue parse view fs child =
      (fieldsV1 parse view).filter [fs] child) :
    filterEntries parse view fs fields = (fieldsV1 parse view).filterFields [fs] fields := by
  induction fields with
  | nil => rw [filterEntries, Masking.filterFields]
  | cons x fields ihs =>
    obtain ⟨key, child⟩ := x
    have hchild := ih key child List.mem_cons_self
    rw [filterEntries, Masking.filterFields,
      ihs fun key child hmem => ih key child (List.mem_cons_of_mem _ hmem)]
    cases h : fieldSet key fs with
    | none =>
      have hc : [fs].filterMap ((fieldsV1 parse view).field key) = [] :=
        List.filterMap_cons_none h
      rw [hc]
      rfl
    | some childFs =>
      have hc : [fs].filterMap ((fieldsV1 parse view).field key) = [childFs] :=
        List.filterMap_cons_some h
      rw [hc, ← hchild childFs]
      rfl

/-- `filterValue` keeps what its set covers. -/
theorem filterValue_eq_filter (fs : Record N) (v : DataTree JStr σ) :
    filterValue parse view fs v = (fieldsV1 parse view).filter [fs] v := by
  induction v using DataTree.induction generalizing fs with
  | leaf s => rw [filterValue, Masking.filter]
  | arr items ih =>
    rw [filterValue, Masking.filter, List.any_cons, List.any_nil, Bool.or_false,
      filterElements_eq parse view fun el hel fs => ih el hel fs]
    rfl
  | obj fields ih =>
    rw [filterValue, Masking.filter, List.any_cons, List.any_nil, Bool.or_false,
      filterEntries_eq parse view fun key child hmem fs => ih key child hmem fs]
    rfl

variable {parse view}

theorem matchArrayElement_of_key {el : List (JStr × DataTree JStr σ)} {fs : Record N} {key : JStr}
    (hkey : matchesKey parse view el key = true)
    (honly : ∀ x ∈ fs, matchesKey parse view el x.1 = true → x.1 = key) :
    matchArrayElement parse view (.obj el) fs = (fs.lookup key).map recordOr := by
  rw [← find?_eq_lookup hkey honly, Option.map_map]
  rfl

theorem matchArrayElement_of_no_key {el : List (JStr × DataTree JStr σ)} {fs : Record N}
    (h : ∀ x ∈ fs, ¬matchesKey parse view el x.1 = true) :
    matchArrayElement parse view (.obj el) fs = none := by
  rw [matchArrayElement, List.find?_eq_none.mpr h, Option.map_none]

/-- The keys that a condition on list elements speaks of become fewer down the tree. -/
theorem AtMostOne.mono {v w : DataTree JStr σ} {sets sets' : List (Record N)}
    (h : AtMostOne parse view v sets) (hw : ∀ u, DataTree.Within u w → DataTree.Within u v)
    (hsets : ∀ key, (∃ fs ∈ sets', Occurs key fs) → ∃ fs ∈ sets, Occurs key fs) :
    AtMostOne parse view w sets' :=
  fun items hitems el hel key key' hkey hkey' =>
    h items (hw _ hitems) el hel key key' (hsets key hkey) (hsets key' hkey')

/-- `c` is the merge of two sets that are read without a choice over `v`. -/
structure Merged (parse : JStr → Option (Document N)) (view : σ → Scalar N) (v : DataTree JStr σ)
    (a b c : Record N) : Prop where
  left : IsFieldSet a
  right : IsFieldSet b
  single : AtMostOne parse view v [a, b]
  eq : c = mergeFieldSets a b

/-- The merge goes on below in the sets of one child. -/
theorem Merged.child {v w : DataTree JStr σ} {a b c a' b' : Record N} {key : JStr}
    (h : Merged parse view v a b c) (hw : ∀ u, DataTree.Within u w → DataTree.Within u v)
    (ha : (key, .obj a') ∈ a) (hb : (key, .obj b') ∈ b) (ha' : IsFieldSet a')
    (hb' : IsFieldSet b') : Merged parse view w a' b' (mergeFieldSets a' b') := by
  refine ⟨ha', hb', h.single.mono hw ?_, rfl⟩
  rintro key' ⟨fs, hfs, hocc⟩
  rcases List.mem_cons.mp hfs with rfl | hfs
  · exact ⟨a, by simp, .inside ha hocc⟩
  · obtain rfl := List.mem_singleton.mp hfs
    exact ⟨b, by simp, .inside hb hocc⟩

theorem Merged.mem {v : DataTree JStr σ} {a b c : Record N} (h : Merged parse view v a b c)
    {x : JStr × Json N} (hx : x ∈ c) : (∃ y ∈ a, y.1 = x.1) ∨ ∃ y ∈ b, y.1 = x.1 := by
  rw [h.eq] at hx
  rcases h.left.mem_merge h.right hx with h | h | ⟨a', b', h, -⟩
  · exact .inl ⟨x, h, rfl⟩
  · exact .inr ⟨x, h, rfl⟩
  · exact .inl ⟨_, h, rfl⟩

/-- A list element that is a record has at most one key to be found under. -/
theorem Merged.item_obj {items : List (DataTree JStr σ)} {a b c : Record N}
    (h : Merged parse view (.arr items) a b c) (hw : ownsWhole c = false)
    {el : List (JStr × DataTree JStr σ)} (hel : DataTree.obj el ∈ items) :
    Masking.Joined (Merged parse view (.obj el)) (matchArrayElement parse view (.obj el) a)
      (matchArrayElement parse view (.obj el) b) (matchArrayElement parse view (.obj el) c) := by
  by_cases hex : ∃ x, (x ∈ a ∨ x ∈ b) ∧ matchesKey parse view el x.1 = true
  · obtain ⟨x, hx, hkey⟩ := hex
    have hocc {y : JStr × Json N} (hy : y ∈ a ∨ y ∈ b) : ∃ fs ∈ [a, b], Occurs y.1 fs :=
      hy.elim (fun hy => ⟨a, by simp, .here hy⟩) fun hy => ⟨b, by simp, .here hy⟩
    have honly {y : JStr × Json N} (hy : y ∈ a ∨ y ∈ b)
        (hm : matchesKey parse view el y.1 = true) : y.1 = x.1 :=
      h.single items .refl el hel y.1 x.1 (hocc hy) (hocc hx) hm hkey
    have hc (y : JStr × Json N) (hy : y ∈ c) (hm : matchesKey parse view el y.1 = true) :
        y.1 = x.1 := by
      rcases h.mem hy with ⟨z, hz, hzy⟩ | ⟨z, hz, hzy⟩
      · rw [← hzy] at hm ⊢
        exact honly (.inl hz) hm
      · rw [← hzy] at hm ⊢
        exact honly (.inr hz) hm
    rw [matchArrayElement_of_key hkey fun y hy => honly (.inl hy),
      matchArrayElement_of_key hkey fun y hy => honly (.inr hy),
      matchArrayElement_of_key hkey hc, h.eq]
    refine joined_lookup h.left h.right (h.eq ▸ hw) x.1 fun a' b' ha hb ha' hb' => ?_
    exact h.child (fun u hu => .item hel hu) ha hb ha' hb'
  · have hnone {y : JStr × Json N} (hy : y ∈ a ∨ y ∈ b) :
        ¬matchesKey parse view el y.1 = true := fun hm => hex ⟨y, hy, hm⟩
    rw [matchArrayElement_of_no_key fun y hy => hnone (.inl hy),
      matchArrayElement_of_no_key fun y hy => hnone (.inr hy),
      matchArrayElement_of_no_key fun y hy hm => ?_]
    · exact .neither
    · rcases h.mem hy with ⟨z, hz, hzy⟩ | ⟨z, hz, hzy⟩
      · exact hnone (.inl hz) (hzy ▸ hm)
      · exact hnone (.inr hz) (hzy ▸ hm)

/-- The match of a list element that is no record. -/
theorem Merged.item_value {items : List (DataTree JStr σ)} {a b c : Record N}
    (h : Merged parse view (.arr items) a b c) (hw : ownsWhole c = false) {el : DataTree JStr σ}
    (hel : isRecord el = false) :
    Masking.Joined (Merged parse view el) (matchArrayElement parse view el a)
      (matchArrayElement parse view el b) (matchArrayElement parse view el c) := by
  have heq (fs : Record N) : matchArrayElement parse view el fs =
      if (fs.map Prod.fst).any (matchesValue parse view el) then some [] else none := by
    rw [List.any_map]
    cases el with
    | leaf s => rfl
    | arr items => rfl
    | obj fields => cases hel
  have hany : (c.map Prod.fst).any (matchesValue parse view el) =
      ((a.map Prod.fst).any (matchesValue parse view el) ||
        (b.map Prod.fst).any (matchesValue parse view el)) := by
    obtain ⟨-, -, -, rfl⟩ := h
    rw [← List.any_append, Bool.eq_iff_iff, List.any_eq_true, List.any_eq_true]
    refine exists_congr fun key => and_congr_left' ?_
    rw [mem_keys_merge hw, List.mem_append]
  have hnil : Merged parse view el ([] : Record N) [] [] := by
    refine ⟨.nil, .nil, ?_, rfl⟩
    rintro items - fields - key key' ⟨fs, hfs, hocc⟩
    simp only [List.mem_cons, List.not_mem_nil, or_false, or_self] at hfs
    cases hocc <;> simp_all
  rw [heq, heq, heq, hany]
  cases (a.map Prod.fst).any (matchesValue parse view el) <;>
    cases (b.map Prod.fst).any (matchesValue parse view el)
  · exact .neither
  · exact .right []
  · exact .left []
  · exact .both hnil

theorem joins_merged : Masking.Joins (fieldsV1 parse view) (Merged parse view) where
  whole h := by
    rw [h.eq]
    exact ownsWhole_merge _ _
  item {items a b c el} h hw hel := by
    cases el with
    | obj fields => exact h.item_obj hw hel
    | leaf s => exact h.item_value hw rfl
    | arr inner => exact h.item_value hw rfl
  field {fields a b c key child} h hw hchild := by
    change Masking.Joined _ (fieldSet key a) (fieldSet key b) (fieldSet key c)
    have hc : IsFieldSet c := h.eq ▸ h.left.merge h.right
    rw [fieldSet_eq h.left, fieldSet_eq h.right, fieldSet_eq hc, h.eq]
    refine joined_lookup h.left h.right (h.eq ▸ hw) _ fun a' b' ha hb ha' hb' => ?_
    exact h.child (fun u hu => .field hchild hu) ha hb ha' hb'

/-- The merge of several sets covers what the sets do. -/
theorem filter_foldl_merge {v : DataTree JStr σ} {fs : Record N} {sets : List (Record N)}
    (hwf : ∀ s ∈ fs :: sets, IsFieldSet s) (single : AtMostOne parse view v (fs :: sets)) :
    filterValue parse view (sets.foldl mergeFieldSets fs) v =
      (fieldsV1 parse view).filter (fs :: sets) v := by
  induction sets generalizing fs with
  | nil => exact filterValue_eq_filter parse view fs v
  | cons s sets ih =>
    obtain ⟨hfs, hrest⟩ := List.forall_mem_cons.mp hwf
    obtain ⟨hs, hsets⟩ := List.forall_mem_cons.mp hrest
    have hsingle : AtMostOne parse view v [fs, s] := by
      refine single.mono (fun _ h => h) ?_
      rintro key ⟨x, hx, hocc⟩
      refine ⟨x, ?_, hocc⟩
      rcases List.mem_cons.mp hx with rfl | hx
      · simp
      · simp [List.mem_singleton.mp hx]
    have hmerged : AtMostOne parse view v (mergeFieldSets fs s :: sets) := by
      refine single.mono (fun _ h => h) ?_
      rintro key ⟨x, hx, hocc⟩
      rcases List.mem_cons.mp hx with rfl | hx
      · rcases occurs_merge hfs hs hocc with hocc | hocc
        · exact ⟨fs, by simp, hocc⟩
        · exact ⟨s, by simp, hocc⟩
      · exact ⟨x, by simp [hx], hocc⟩
    rw [List.foldl_cons, ih (List.forall_mem_cons.mpr ⟨hfs.merge hs, hsets⟩) hmerged]
    exact Masking.filter_join joins_merged ⟨hfs, hs, hsingle, rfl⟩ sets

/-- The set that is built up from the sets of several entries, in the order they are met. -/
def mergeAll (sets : List (Record N)) : Option (Record N) :=
  sets.foldl (fun merged fs => some (merged.elim fs fun merged => mergeFieldSets merged fs)) none

omit [DecidableEq N] in
theorem mergeAll_cons (fs : Record N) (sets : List (Record N)) :
    mergeAll (fs :: sets) = some (sets.foldl mergeFieldSets fs) := by
  have h (fs : Record N) : sets.foldl (fun merged fs =>
      some (merged.elim fs fun merged => mergeFieldSets merged fs)) (some fs) =
      some (sets.foldl mergeFieldSets fs) := by
    induction sets generalizing fs with
    | nil => rfl
    | cons s sets ih => exact ih (mergeFieldSets fs s)
  exact h fs

theorem extractOwnedSpec_arr (entries : List (Json N)) :
    extractOwnedSpec (some (.arr entries)) = mergeAll (entries.filterMap specFs) := by
  rw [extractOwnedSpec, mergeAll, List.foldl_filterMap]
  congr 1
  funext merged raw
  cases specFs raw <;> rfl

theorem filter_mergeAll {v : DataTree JStr σ} {sets : List (Record N)}
    (hwf : ∀ s ∈ sets, IsFieldSet s) (single : AtMostOne parse view v sets)
    {merged : Record N} (h : mergeAll sets = some merged) : sets ≠ [] ∧
      filterValue parse view merged v = (fieldsV1 parse view).filter sets v := by
  cases sets with
  | nil => cases h
  | cons fs sets =>
    rw [mergeAll_cons] at h
    obtain rfl := Option.some.inj h
    exact ⟨List.cons_ne_nil fs sets, filter_foldl_merge hwf single⟩

/-- The order of the sets makes no difference to what their merge keeps. -/
theorem mergeAll_perm {v : DataTree JStr σ} {sets sets' : List (Record N)} (hperm : sets.Perm sets')
    (hwf : ∀ s ∈ sets, IsFieldSet s) (single : AtMostOne parse view v sets) :
    (mergeAll sets).map (fun merged => filterValue parse view merged v) =
      (mergeAll sets').map fun merged => filterValue parse view merged v := by
  have hwf' (s : Record N) (hs : s ∈ sets') : IsFieldSet s := hwf s (hperm.mem_iff.mpr hs)
  have hsingle' : AtMostOne parse view v sets' :=
    single.mono (fun _ h => h) fun _ ⟨fs, hfs, hocc⟩ => ⟨fs, hperm.mem_iff.mpr hfs, hocc⟩
  cases hm : mergeAll sets with
  | none =>
    cases sets with
    | nil => rw [← hm, hperm.nil_eq]
    | cons fs sets =>
      rw [mergeAll_cons] at hm
      cases hm
  | some merged =>
    cases hm' : mergeAll sets' with
    | none =>
      cases sets' with
      | nil =>
        rw [hperm.eq_nil] at hm
        cases hm
      | cons fs sets' =>
        rw [mergeAll_cons] at hm'
        cases hm'
    | some merged' =>
      rw [Option.map_some, Option.map_some, (filter_mergeAll hwf single hm).2,
        (filter_mergeAll hwf' hsingle' hm').2, Masking.filter_congr fun _ => hperm.mem_iff]

/-! ## Marks -/

variable {τ : Type}

theorem identical_map (view : τ → Scalar N) (f : σ → τ) (el : Option (DataTree JStr σ))
    (v : Json N) :
    identical view (el.map (DataTree.map f)) v = identical (view ∘ f) el v := by
  cases el with
  | none => rfl
  | some el =>
    cases el with
    | leaf s => cases v <;> rfl
    | arr items => cases v <;> rfl
    | obj fields => cases v <;> rfl

theorem matchesKey_map (view : τ → Scalar N) (f : σ → τ) (el : List (JStr × DataTree JStr σ))
    (fsKey : JStr) :
    matchesKey parse view (el.map (Prod.map id (DataTree.map f))) fsKey =
      matchesKey parse (view ∘ f) el fsKey := by
  have hlookup (key : JStr) : (el.map (Prod.map id (DataTree.map f))).lookup key =
      (el.lookup key).map (DataTree.map f) := by
    induction el with
    | nil => rfl
    | cons x el ih =>
      rw [List.map_cons, List.lookup_cons, List.lookup_cons, ih]
      change (match key == x.1 with | true => _ | false => _) = _
      cases key == x.1 <;> rfl
  rw [matchesKey, matchesKey, keyMatches, keyMatches]
  simp only [hlookup, identical_map]

theorem matchArrayElement_map (view : τ → Scalar N) (f : σ → τ) (el : DataTree JStr σ)
    (fs : Record N) :
    matchArrayElement parse view (el.map f) fs = matchArrayElement parse (view ∘ f) el fs := by
  have hvalue (fsKey : JStr) : matchesValue parse view (el.map f) fsKey =
      matchesValue parse (view ∘ f) el fsKey := by
    rw [matchesValue, matchesValue]
    simp only [← identical_map, Option.map_some]
  cases el with
  | leaf s =>
    rw [DataTree.map] at hvalue ⊢
    rw [matchArrayElement, matchArrayElement]
    · simp only [hvalue]
    · nofun
    · nofun
  | arr items =>
    rw [DataTree.map] at hvalue ⊢
    rw [matchArrayElement, matchArrayElement]
    · simp only [hvalue]
    · nofun
    · nofun
  | obj fields =>
    rw [DataTree.map, DataTree.mapFields_eq, matchArrayElement, matchArrayElement]
    simp only [matchesKey_map]

/-- The code reads the scalars only: what it keeps does not depend on how they are marked. -/
theorem filterValue_map (view : τ → Scalar N) (f : σ → τ) (fs : Record N)
    (v : DataTree JStr σ) :
    (filterValue parse (view ∘ f) fs v).map f = filterValue parse view fs (v.map f) := by
  induction v using DataTree.induction generalizing fs with
  | leaf s => rw [filterValue, DataTree.map, filterValue]
  | arr items ih =>
    have hitems : DataTree.mapItems f (filterElements parse (view ∘ f) fs items) =
        filterElements parse view fs (DataTree.mapItems f items) := by
      induction items with
      | nil => rfl
      | cons el items ihs =>
        obtain ⟨hel, hitems⟩ := List.forall_mem_cons.mp ih
        rw [DataTree.mapItems, filterElements, filterElements, matchArrayElement_map,
          ← ihs hitems]
        cases matchArrayElement parse (view ∘ f) el fs with
        | none => rfl
        | some childFs => rw [DataTree.mapItems, hel]
    rw [filterValue, DataTree.map, DataTree.map, filterValue, ← hitems]
    split_ifs <;> rfl
  | obj fields ih =>
    have hfields : DataTree.mapFields f (filterEntries parse (view ∘ f) fs fields) =
        filterEntries parse view fs (DataTree.mapFields f fields) := by
      induction fields with
      | nil => rfl
      | cons x fields ihs =>
        obtain ⟨key, child⟩ := x
        have hchild := ih key child List.mem_cons_self
        rw [DataTree.mapFields, filterEntries, filterEntries,
          ← ihs fun key child hmem => ih key child (List.mem_cons_of_mem _ hmem)]
        cases fieldSet key fs with
        | none => rfl
        | some childFs => rw [DataTree.mapFields, hchild]
    rw [filterValue, DataTree.map, DataTree.map, filterValue, ← hfields]
    split_ifs <;> rfl

/-- Merging sets of fields is taking the union of what they keep. Each scalar of `v` carries a
mark, by which a leaf is told from another one of the same value. -/
theorem kept_by_merged {μ : Type} (parse : JStr → Option (Document N))
    (v : DataTree JStr (Scalar N × μ)) (sets : List (Record N)) (wf : ∀ fs ∈ sets, IsFieldSet fs)
    (single : AtMostOne parse Prod.fst v sets) :
    (∀ merged, mergeAll sets = some merged → ∀ x,
      x ∈ (filterValue parse Prod.fst merged v).scalars ↔
        ∃ fs ∈ sets, x ∈ (filterValue parse Prod.fst fs v).scalars) ∧
    (∀ entries entries' : List (Json N), entries.Perm entries' →
      entries.filterMap specFs = sets →
        (extractOwnedSpec (some (.arr entries))).map
            (fun owned => filterValue parse Prod.fst owned v) =
          (extractOwnedSpec (some (.arr entries'))).map
            fun owned => filterValue parse Prod.fst owned v) ∧
    ∀ fs, (filterValue parse Prod.fst fs v).map Prod.fst =
      filterValue parse id fs (v.map Prod.fst) := by
  refine ⟨fun merged hmerged x => ?_, fun entries entries' hperm hsets => ?_, fun fs => ?_⟩
  · obtain ⟨hne, hfilter⟩ := filter_mergeAll wf single hmerged
    rw [hfilter, Masking.mem_filter_iff hne]
    simp only [filterValue_eq_filter]
  · subst hsets
    rw [extractOwnedSpec_arr, extractOwnedSpec_arr]
    exact mergeAll_perm (hperm.filterMap specFs) wf single
  · exact filterValue_map id Prod.fst fs v

end Union

/-- `JSON.parse` of the one key below. -/
def parseAppKey (text : JStr) : Option (Document ℤ) :=
  if text = js "\x7b\"name\":\"app\"\x7d" then
    some ⟨.obj [(js "name", .leaf (.str (js "app")))], fun fields h => by
      rcases DataTree.within_iff.mp h with heq | ⟨c, hc, hw⟩
      · cases heq
        simp
      · obtain rfl := List.mem_singleton.mp hc
        cases hw⟩
  else none

def appKey : JStr := js "k:\x7b\"name\":\"app\"\x7d"

/-- One manager owns the image of a container, the other its name and the replicas. -/
def imageSet : Record ℤ :=
  [(js "f:containers", .obj [(appKey, .obj [(js "f:image", .obj [])])])]

def nameSet : Record ℤ :=
  [(js "f:replicas", .obj []),
    (js "f:containers", .obj [(appKey, .obj [(js ".", .obj []), (js "f:name", .obj [])])])]

def appSpec : DataTree JStr (Scalar ℤ × ℕ) :=
  .obj [(js "replicas", .leaf (.num 3, 0)), (js "paused", .leaf (.bool false, 1)),
    (js "containers", .arr [.obj [(js "name", .leaf (.str (js "app"), 2)),
      (js "image", .leaf (.str (js "nginx"), 3)),
      (js "imagePullPolicy", .leaf (.str (js "Always"), 4))]])]

theorem isFieldSet_appSets : ∀ fs ∈ [imageSet, nameSet], IsFieldSet fs := by
  have hname : IsFieldSet ([(js ".", .obj []), (js "f:name", .obj [])] : Record ℤ) :=
    .cons (by decide) (by decide) .nil (.cons (by decide) (by decide) .nil .nil)
  have himage : IsFieldSet ([(js "f:image", .obj [])] : Record ℤ) :=
    .cons (by decide) (by decide) .nil .nil
  refine List.forall_mem_cons.mpr ⟨?_, List.forall_mem_singleton.mpr ?_⟩
  · exact .cons (by decide) (by decide) (.cons (by decide) (by decide) himage .nil) .nil
  · exact .cons (by decide) (by decide) .nil
      (.cons (by decide) (by decide) (.cons (by decide) (by decide) hname .nil) .nil)

theorem atMostOne_appSpec : AtMostOne parseAppKey Prod.fst appSpec [imageSet, nameSet] := by
  have hkey (key : JStr) (hocc : ∃ fs ∈ [imageSet, nameSet], Occurs key fs)
      (hk : startsWith "k:" key = true) : key = appKey := by
    simp only [imageSet, nameSet, List.mem_cons, List.not_mem_nil, or_false, false_or,
      exists_eq_or_imp, exists_eq_left, occurs_cons, not_occurs_nil] at hocc
    rcases hocc with (hname | happ | hname) | hname | hname | happ | hname | hname
    case inl.inr.inl => exact happ
    case inr.inr.inr.inl => exact happ
    -- no other name begins as a key does
    all_goals exact absurd hk (by rw [hname]; decide)
  intro items _ el _ key key' hocc hocc' hm hm'
  rw [hkey key hocc (Bool.and_eq_true_iff.mp hm).1, hkey key' hocc' (Bool.and_eq_true_iff.mp hm').1]

theorem kept_by_merged_containers :
    (Scalar.str (js "nginx"), 3) ∈
        (filterValue parseAppKey Prod.fst (mergeFieldSets imageSet nameSet) appSpec).scalars ∧
      (Scalar.bool false, 1) ∉
        (filterValue parseAppKey Prod.fst (mergeFieldSets imageSet nameSet) appSpec).scalars := by
  obtain ⟨hunion, -⟩ :=
    kept_by_merged parseAppKey appSpec [imageSet, nameSet] isFieldSet_appSets atMostOne_appSpec
  have h := hunion (mergeFieldSets imageSet nameSet) rfl
  constructor
  · exact (h _).mpr ⟨imageSet, List.mem_cons_self, by decide +kernel⟩
  · intro hx
    obtain ⟨fs, hfs, hx⟩ := (h _).mp hx
    rcases List.mem_cons.mp hfs with rfl | hfs
    · exact absurd hx (by decide +kernel)
    · obtain rfl := List.mem_singleton.mp hfs
      exact absurd hx (by decide +kernel)

end KubeConsole.Web
