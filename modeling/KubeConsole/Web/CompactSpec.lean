import KubeConsole.Web.OwnedFields
import KubeConsole.Web.PruneEmpty

/-!
`compactSpec` of `fieldFilter.ts`: a spec is narrowed to what its manifest declares. The elements
of a list of records are paired with the elements of the manifest by a merge key, else by their
position.
-/
namespace KubeConsole.Web
open KubeConsole.Theory

variable {N : Type}

def lastAppliedAnnotation : JStr := js "kubectl.kubernetes.io/last-applied-configuration"

def parseLastAppliedSpec (parse : JStr → Option (Document N))
    (annotations : Option (List (JStr × JStr))) : Option (Record N) :=
  match annotations.bind (List.lookup lastAppliedAnnotation) with
  | none => none
  | some raw => if raw = [] then none else
    match parse raw with
    | some ⟨.obj parsed, _⟩ => match parsed.lookup (js "spec") with
      | some (.obj spec) => some spec
      | _ => none
    | _ => none

def mergeKeys : List JStr :=
  [js "name", js "key", js "containerPort", js "port", js "mountPath", js "devicePath", js "ip",
    js "topologyKey", js "path"]

section Intersect
variable [DecidableEq N]

/-- `isRecord(t) && t[mk] === v`. -/
def hasValue (mk : JStr) (v : Json N) (t : Json N) : Bool :=
  match t with
  | .obj fields => identical id (fields.lookup mk) v
  | _ => false

def correspondingIndex (el : Record N) (template : List (Json N)) : Option ℕ :=
  mergeKeys.findSome? fun mk =>
    (el.lookup mk).bind fun v => template.findIdx? (hasValue mk v)

/-- The element of the manifest that the element `el` at `i` of `n` is paired with. -/
def declaration (template : List (Json N)) (n i : ℕ) (el : Json N) : Option (Json N) :=
  match el with
  | .obj fields => match correspondingIndex fields template with
    | some ti => template[ti]?
    | none => if template.length = n then template[i]?.filter isRecord else none
  | _ => none

mutual
def intersectWithTemplate : Json N → Json N → Json N
  | .leaf s, _ => .leaf s
  | .arr live, template => .arr (match template with
    -- a list of scalars is shown whole
    | .arr template =>
      if live.all isRecord then intersectItems template live.length 0 live else live
    | _ => live)
  | .obj live, template => .obj (match template with
    | .obj template => intersectFields template live
    | _ => live)

def intersectItems (template : List (Json N)) (n : ℕ) : ℕ → List (Json N) → List (Json N)
  | _, [] => []
  | i, el :: live => match declaration template n i el with
    | some t => intersectWithTemplate el t :: intersectItems template n (i + 1) live
    | none => intersectItems template n (i + 1) live

def intersectFields (template : Record N) : Record N → Record N
  | [] => []
  | (key, child) :: live => match template.lookup key with
    | some t => (key, intersectWithTemplate child t) :: intersectFields template live
    | none => intersectFields template live
end

structure CompactMeta (N : Type) where
  annotations : Option (List (JStr × JStr))
  managedFields : Option (Json N)

inductive Source where
  | lastApplied
  | managedFields
  | none
  deriving DecidableEq, Repr

structure CompactResult (N : Type) where
  value : Json N
  filtered : Bool
  source : Source

variable (parse : JStr → Option (Document N))

/-- What follows in `compactSpec` when the manifest is absent or hides everything. -/
def compactOwned (spec : Json N) (given : Option (CompactMeta N)) : CompactResult N :=
  match extractOwnedSpec (given.bind CompactMeta.managedFields) with
  | some owned =>
    if isEmpty (pruneEmpty (filterValue parse id owned spec)) then ⟨pruneEmpty spec, false, .none⟩
    else ⟨pruneEmpty (filterValue parse id owned spec), true, .managedFields⟩
  | none => ⟨pruneEmpty spec, false, .none⟩

def compactSpec (spec : Json N) (given : Option (CompactMeta N)) : CompactResult N :=
  match parseLastAppliedSpec parse (given.bind CompactMeta.annotations) with
  | some template =>
    if isEmpty (pruneEmpty (intersectWithTemplate spec (.obj template))) then
      compactOwned parse spec given
    else ⟨pruneEmpty (intersectWithTemplate spec (.obj template)), true, .lastApplied⟩
  | none => compactOwned parse spec given

end Intersect

/-! ## Extension of a manifest -/

/-- A live spec extends a manifest: a record has every key of its template and possibly more,
a list has an element for each element of its template, and scalars are equal. -/
inductive Extends : Json N → Json N → Prop where
  | leaf (s : Scalar N) : Extends (.leaf s) (.leaf s)
  | arr {template live : List (Json N)} : template.length = live.length →
    (∀ (i : ℕ) (t l : Json N), template[i]? = some t → live[i]? = some l → Extends t l) →
    Extends (.arr template) (.arr live)
  | obj {template live : Record N} :
    (∀ key t, template.lookup key = some t → (live.lookup key).isSome = true) →
    (∀ key t l, template.lookup key = some t → live.lookup key = some l → Extends t l) →
    Extends (.obj template) (.obj live)

theorem Extends.refl (t : Json N) : Extends t t := by
  induction t using DataTree.induction with
  | leaf s => exact .leaf s
  | arr items ih =>
    refine .arr rfl fun i t l ht hl => ?_
    obtain rfl := Option.some.inj (ht.symm.trans hl)
    exact ih t (List.mem_of_getElem? ht)
  | obj fields ih =>
    refine .obj (fun key t ht => by rw [ht, Option.isSome_some]) fun key t l ht hl => ?_
    obtain rfl := Option.some.inj (ht.symm.trans hl)
    exact ih key t (DataTree.mem_of_lookup ht)

/-- Defaults that are added to a record extend it. -/
theorem Extends.append (template defaults : Record N) :
    Extends (.obj template) (.obj (template ++ defaults)) := by
  have hlookup (key : JStr) (t : Json N) (ht : template.lookup key = some t) :
      (template ++ defaults).lookup key = some t := by
    rw [List.lookup_append, ht, Option.some_or]
  refine .obj (fun key t ht => by rw [hlookup key t ht, Option.isSome_some]) ?_
  intro key t l ht hl
  obtain rfl := Option.some.inj ((hlookup key t ht).symm.trans hl)
  exact .refl t

/-- Nothing in `t` is empty. -/
def Solid (t : Json N) : Prop := ∀ w, w.Within t → isEmpty w = false

/-- Every leaf that `t` declares is in `v`, at its place and with its value. -/
def ShowsLeaves (t v : Json N) : Prop := ∀ p s, t.get? p = some (.leaf s) → v.get? p = some (.leaf s)

section Reads
variable [DecidableEq N]

mutual
/-- The element of the manifest that is read for a live one declares whatever the element's own
declaration does, at every list below. -/
def reads : Json N → Json N → Json N → Bool
  | .arr own, .arr live, .arr template =>
    !live.all isRecord || readsItems template live.length 0 own live
  | .obj own, .obj live, .obj template => readsFields template live own
  | _, _, _ => true

def readsItems (template : List (Json N)) (n : ℕ) : ℕ → List (Json N) → List (Json N) → Bool
  | i, t :: own, l :: live =>
    (match declaration template n i l with
      | some u => reads t l u
      | none => false) && readsItems template n (i + 1) own live
  | _, _, _ => true

def readsFields (template live : Record N) : Record N → Bool
  | [] => true
  | (key, t) :: own =>
    (match live.lookup key, template.lookup key with
      | some l, some u => reads t l u
      | _, _ => false) && readsFields template live own
end

end Reads

/-! ## What is shown -/

/-- A child after pruning, if it is kept. -/
def kept (v : Json N) : Option (Json N) := if holds v then some (pruneEmpty v) else none

theorem pruneEmpty_arr_kept (items : List (Json N)) :
    pruneEmpty (.arr items) = .arr (items.filterMap kept) := by
  rw [pruneEmpty_arr]
  congr 1
  induction items with
  | nil => rfl
  | cons v items ih =>
    rw [List.filter_cons, List.filterMap_cons, kept, ← ih]
    cases holds v <;> rfl

theorem pruneEmpty_obj_kept (fields : Record N) :
    pruneEmpty (.obj fields) =
      .obj (fields.filterMap fun x => (kept x.2).map (Prod.mk x.1)) := by
  rw [pruneEmpty_obj]
  congr 1
  induction fields with
  | nil => rfl
  | cons x fields ih =>
    rw [List.filter_cons, List.filterMap_cons, kept, ← ih]
    cases holds x.2 <;> rfl

theorem Solid.item {items : List (Json N)} (h : Solid (.arr items)) {t : Json N}
    (ht : t ∈ items) : Solid t := fun w hw => h w (.item ht hw)

theorem Solid.field {fields : Record N} (h : Solid (.obj fields)) {key : JStr} {t : Json N}
    (ht : (key, t) ∈ fields) : Solid t := fun w hw => h w (.field ht hw)

/-- Where nothing is empty, there is a leaf, and it is worth showing. -/
theorem Solid.exists_leaf {t : Json N} (h : Solid t) :
    ∃ p s, t.get? p = some (.leaf s) ∧ s.nonEmpty = true := by
  induction t using DataTree.induction with
  | leaf s => exact ⟨[], s, DataTree.get?_nil _, by simpa [isEmpty] using h _ .refl⟩
  | arr items ih =>
    cases items with
    | nil => exact absurd (h _ .refl) (by simp [isEmpty])
    | cons t items =>
      obtain ⟨p, s, hp, hs⟩ := ih t List.mem_cons_self (h.item List.mem_cons_self)
      exact ⟨.index 0 :: p, s, hp, hs⟩
  | obj fields ih =>
    cases fields with
    | nil => exact absurd (h _ .refl) (by simp [isEmpty])
    | cons x fields =>
      obtain ⟨key, t⟩ := x
      obtain ⟨p, s, hp, hs⟩ := ih key t List.mem_cons_self (h.field List.mem_cons_self)
      refine ⟨.key key :: p, s, ?_, hs⟩
      rw [DataTree.get?_key, List.lookup_cons_self]
      exact hp

/-- What shows a leaf worth showing is not empty. -/
theorem ShowsLeaves.holds {t v : Json N} (ht : Solid t) (h : ShowsLeaves t (pruneEmpty v)) :
    holds v = true := by
  obtain ⟨p, s, hp, hs⟩ := ht.exists_leaf
  have hv := h p s hp
  rw [← Bool.not_eq_false', ← isEmpty_pruneEmpty]
  cases hpruned : pruneEmpty v with
  | leaf s' =>
    rw [hpruned] at hv
    cases p with
    | nil =>
      cases hv
      rw [isEmpty, hs, Bool.not_true]
    | cons step p => cases step <;> cases hv
  | arr items =>
    rw [hpruned] at hv
    cases items with
    | nil => cases p with
      | nil => cases hv
      | cons step p => cases step <;> cases hv
    | cons => rfl
  | obj fields =>
    rw [hpruned] at hv
    cases fields with
    | nil => cases p with
      | nil => cases hv
      | cons step p => cases step <;> cases hv
    | cons => rfl

theorem showsLeaves_kept {t v : Json N} (ht : Solid t) :
    (∃ o, kept v = some o ∧ ShowsLeaves t o) ↔ ShowsLeaves t (pruneEmpty v) := by
  constructor
  · rintro ⟨o, ho, h⟩
    rw [kept] at ho
    split_ifs at ho
    exact Option.some.inj ho ▸ h
  · intro h
    exact ⟨pruneEmpty v, by rw [kept, if_pos (h.holds ht)], h⟩

/-- A template with leaves is shown by a value that is there. -/
theorem exists_shown {t : Json N} {v : Option (Json N)} (ht : Solid t)
    (h : ∀ p s, t.get? p = some (.leaf s) → (v.bind fun o => o.get? p) = some (.leaf s)) :
    ∃ o, v = some o ∧ ShowsLeaves t o := by
  obtain ⟨p, s, hp, -⟩ := ht.exists_leaf
  obtain ⟨o, rfl, -⟩ := Option.bind_eq_some_iff.mp (h p s hp)
  exact ⟨o, rfl, h⟩

theorem showsLeaves_arr {own out : List (Json N)} (h : Solid (.arr own)) :
    ShowsLeaves (.arr own) (.arr out) ↔
      ∀ (i : ℕ) (t : Json N), own[i]? = some t → ∃ o, out[i]? = some o ∧ ShowsLeaves t o := by
  constructor
  · intro hs i t ht
    refine exists_shown (h.item (List.mem_of_getElem? ht)) fun p s hp => ?_
    exact hs (.index i :: p) s (by rw [DataTree.get?_index, ht, Option.bind_some, hp])
  · rintro hs (_ | ⟨step, p⟩) s hp
    · cases hp
    · cases step with
      | key key => cases hp
      | index i =>
        rw [DataTree.get?_index] at hp ⊢
        obtain ⟨t, ht, hp⟩ := Option.bind_eq_some_iff.mp hp
        obtain ⟨o, ho, hshow⟩ := hs i t ht
        rw [ho]
        exact hshow p s hp

theorem showsLeaves_obj {own out : Record N} (h : Solid (.obj own)) :
    ShowsLeaves (.obj own) (.obj out) ↔
      ∀ key t, own.lookup key = some t → ∃ o, out.lookup key = some o ∧ ShowsLeaves t o := by
  constructor
  · intro hs key t ht
    refine exists_shown (h.field (DataTree.mem_of_lookup ht)) fun p s hp => ?_
    exact hs (.key key :: p) s (by rw [DataTree.get?_key, ht, Option.bind_some, hp])
  · rintro hs (_ | ⟨step, p⟩) s hp
    · cases hp
    · cases step with
      | index i => cases hp
      | key key =>
        rw [DataTree.get?_key] at hp ⊢
        obtain ⟨t, ht, hp⟩ := Option.bind_eq_some_iff.mp hp
        obtain ⟨o, ho, hshow⟩ := hs key t ht
        rw [ho]
        exact hshow p s hp

/-- A list shows the leaves of its template exactly if each of its elements is selected and
shows the leaves of the element's own template. -/
theorem showsLeaves_filterMap {α : Type} {own : List (Json N)} (h : Solid (.arr own))
    {live : List α} (hlen : own.length = live.length) (f : α → Option (Json N)) :
    ShowsLeaves (.arr own) (.arr (live.filterMap f)) ↔
      ∀ (i : ℕ) (t : Json N) (a : α), own[i]? = some t → live[i]? = some a →
        ∃ o, f a = some o ∧ ShowsLeaves t o := by
  rw [showsLeaves_arr h]
  constructor
  · intro hs i t a ht ha
    have hlong : live.length ≤ (live.filterMap f).length := by
      by_contra hlt
      have hlast : (live.filterMap f).length < own.length := by omega
      obtain ⟨o, ho, -⟩ := hs _ own[(live.filterMap f).length] (List.getElem?_eq_getElem hlast)
      rw [List.getElem?_eq_none le_rfl] at ho
      cases ho
    obtain ⟨o, ho, hshow⟩ := hs i t ht
    rw [DataTree.getElem?_filterMap hlong, ha] at ho
    exact ⟨o, ho, hshow⟩
  · intro hs i t ht
    have hsome (a : α) (ha : a ∈ live) : (f a).isSome = true := by
      obtain ⟨j, hj⟩ := List.mem_iff_getElem?.mp ha
      obtain ⟨hlt, -⟩ := List.getElem?_eq_some_iff.mp hj
      obtain ⟨o, ho, -⟩ := hs j own[j] a (List.getElem?_eq_getElem (hlen ▸ hlt)) hj
      exact Option.isSome_iff_exists.mpr ⟨o, ho⟩
    have hlong := (List.filterMap_length_eq_length.mpr hsome).ge
    obtain ⟨hlt, -⟩ := List.getElem?_eq_some_iff.mp ht
    have ha : live[i]? = some live[i] := List.getElem?_eq_getElem (hlen ▸ hlt)
    obtain ⟨o, ho, hshow⟩ := hs i t live[i] ht ha
    exact ⟨o, by rw [DataTree.getElem?_filterMap hlong, ha]; exact ho, hshow⟩

theorem showsLeaves_select {own live : Record N} (h : Solid (.obj own))
    (hlive : (live.map Prod.fst).Nodup)
    (hkeys : ∀ key t, own.lookup key = some t → (live.lookup key).isSome = true)
    (f : JStr → Json N → Option (Json N)) :
    ShowsLeaves (.obj own) (.obj (live.filterMap fun x => (f x.1 x.2).map (Prod.mk x.1))) ↔
      ∀ key t l, own.lookup key = some t → live.lookup key = some l →
        ∃ o, f key l = some o ∧ ShowsLeaves t o := by
  rw [showsLeaves_obj h]
  simp only [DataTree.lookup_filterMap f hlive]
  constructor
  · intro hs key t l ht hl
    obtain ⟨o, ho, hshow⟩ := hs key t ht
    rw [hl] at ho
    exact ⟨o, ho, hshow⟩
  · intro hs key t ht
    obtain ⟨l, hl⟩ := Option.isSome_iff_exists.mp (hkeys key t ht)
    obtain ⟨o, ho, hshow⟩ := hs key t l ht hl
    exact ⟨o, by rw [hl]; exact ho, hshow⟩

/-- What is shown whole shows every leaf of its template. -/
theorem Extends.showsLeaves {t l : Json N} (h : Extends t l) (ht : Solid t) (hl : l.Distinct) :
    ShowsLeaves t (pruneEmpty l) := by
  induction h with
  | leaf s =>
    rw [pruneEmpty]
    exact fun p s h => h
  | @arr template live hlen _ ih =>
    rw [pruneEmpty_arr_kept, showsLeaves_filterMap ht hlen]
    intro i t l hti hli
    exact (showsLeaves_kept (ht.item (List.mem_of_getElem? hti))).mpr
      (ih i t l hti hli (ht.item (List.mem_of_getElem? hti))
        (hl.item (List.mem_of_getElem? hli)))
  | @obj template live hkeys _ ih =>
    rw [pruneEmpty_obj_kept, showsLeaves_select ht hl.keys hkeys fun _ => kept]
    intro key t l htk hlk
    exact (showsLeaves_kept (ht.field (DataTree.mem_of_lookup htk))).mpr
      (ih key t l htk hlk (ht.field (DataTree.mem_of_lookup htk))
        (hl.field (DataTree.mem_of_lookup hlk)))

/-! ## What is narrowed -/

section Narrow
variable [DecidableEq N]

theorem intersectItems_eq (template : List (Json N)) (n i : ℕ) (live : List (Json N)) :
    intersectItems template n i live = (live.zipIdx i).filterMap fun x =>
      (declaration template n x.2 x.1).map (intersectWithTemplate x.1) := by
  induction live generalizing i with
  | nil => rw [intersectItems, List.zipIdx_nil, List.filterMap_nil]
  | cons el live ih =>
    rw [intersectItems, ih, List.zipIdx_cons, List.filterMap_cons]
    cases declaration template n i el <;> rfl

theorem intersectFields_eq (template live : Record N) :
    intersectFields template live = live.filterMap fun x =>
      ((template.lookup x.1).map (intersectWithTemplate x.2)).map (Prod.mk x.1) := by
  induction live with
  | nil => rw [intersectFields, List.filterMap_nil]
  | cons x live ih =>
    rw [intersectFields, ih, List.filterMap_cons]
    cases template.lookup x.1 <;> rfl

theorem pruneEmpty_intersectItems (template live : List (Json N)) :
    pruneEmpty (.arr (intersectItems template live.length 0 live)) =
      .arr (live.zipIdx.filterMap fun x => (declaration template live.length x.2 x.1).bind fun u =>
        kept (intersectWithTemplate x.1 u)) := by
  rw [pruneEmpty_arr_kept, intersectItems_eq, List.filterMap_filterMap]
  congr 2
  funext x
  rw [Option.bind_map]
  rfl

theorem pruneEmpty_intersectFields (template live : Record N) :
    pruneEmpty (.obj (intersectFields template live)) =
      .obj (live.filterMap fun x => ((template.lookup x.1).bind fun u =>
        kept (intersectWithTemplate x.2 u)).map (Prod.mk x.1)) := by
  rw [pruneEmpty_obj_kept, intersectFields_eq, List.filterMap_filterMap]
  congr 2
  funext x
  cases template.lookup x.1 <;> rfl

theorem readsItems_iff {template own live : List (Json N)} {n i : ℕ} :
    readsItems template n i own live = true ↔
      ∀ (j : ℕ) (t l : Json N), own[j]? = some t → live[j]? = some l →
        ∃ u, declaration template n (i + j) l = some u ∧ reads t l u = true := by
  induction own generalizing i live with
  | nil => simp [readsItems]
  | cons t own ih =>
    cases live with
    | nil => simp [readsItems]
    | cons l live =>
      rw [readsItems, Bool.and_eq_true_iff, ih]
      constructor
      · rintro ⟨hhead, htail⟩ (_ | j) t' l' ht hl
        · cases ht
          cases hl
          rw [Nat.add_zero]
          cases hu : declaration template n i l with
          | none =>
            rw [hu] at hhead
            cases hhead
          | some u =>
            rw [hu] at hhead
            exact ⟨u, rfl, hhead⟩
        · rw [Nat.add_comm j 1, ← Nat.add_assoc]
          exact htail j t' l' ht hl
      · intro h
        refine ⟨?_, fun j t' l' ht hl => ?_⟩
        · obtain ⟨u, hu, hread⟩ := h 0 t l rfl rfl
          rw [Nat.add_zero] at hu
          rw [hu]
          exact hread
        · rw [Nat.add_assoc, Nat.add_comm 1]
          exact h (j + 1) t' l' ht hl

theorem readsFields_iff {template live own : Record N} (h : (own.map Prod.fst).Nodup)
    (hkeys : ∀ key t, own.lookup key = some t → (live.lookup key).isSome = true) :
    readsFields template live own = true ↔
      ∀ key t l, own.lookup key = some t → live.lookup key = some l →
        ∃ u, template.lookup key = some u ∧ reads t l u = true := by
  have hmem : readsFields template live own = true ↔
      ∀ x ∈ own, ∃ l u, live.lookup x.1 = some l ∧ template.lookup x.1 = some u ∧
        reads x.2 l u = true := by
    clear h hkeys
    induction own with
    | nil => simp [readsFields]
    | cons x own ih =>
      rw [readsFields, Bool.and_eq_true_iff, ih, List.forall_mem_cons]
      refine and_congr_left' ?_
      cases live.lookup x.1 with
      | none => simp
      | some l => cases template.lookup x.1 <;> simp
  rw [hmem]
  constructor
  · intro hall key t l ht hl
    obtain ⟨l', u, hl', hu, hread⟩ := hall (key, t) (DataTree.mem_of_lookup ht)
    obtain rfl := Option.some.inj (hl.symm.trans hl')
    exact ⟨u, hu, hread⟩
  · intro hall x hx
    have ht := (DataTree.lookup_eq_some_iff h).mpr hx
    obtain ⟨l, hl⟩ := Option.isSome_iff_exists.mp (hkeys x.1 x.2 ht)
    obtain ⟨u, hu, hread⟩ := hall x.1 x.2 l ht hl
    exact ⟨l, u, hl, hu, hread⟩

omit [DecidableEq N] in
/-- A child is shown exactly if it is paired and shows what its own template declares. -/
theorem showsLeaves_bind_kept {own : Json N} (h : Solid own) (paired : Option (Json N))
    {P : Json N → Prop} (f : Json N → Json N)
    (ih : ∀ u, ShowsLeaves own (pruneEmpty (f u)) ↔ P u) :
    (∃ o, (paired.bind fun u => kept (f u)) = some o ∧ ShowsLeaves own o) ↔
      ∃ u, paired = some u ∧ P u := by
  cases paired with
  | none => simp
  | some u =>
    rw [Option.bind_some, showsLeaves_kept h, ih]
    simp

theorem showsLeaves_iff_reads {own live : Json N} (h : Extends own live) (hown : Solid own)
    (hd : own.Distinct) (hl : live.Distinct) (template : Json N) :
    ShowsLeaves own (pruneEmpty (intersectWithTemplate live template)) ↔
      reads own live template = true := by
  induction h generalizing template with
  | leaf s =>
    rw [intersectWithTemplate, pruneEmpty]
    exact ⟨fun _ => by simp [reads], fun _ p s h => h⟩
  | @arr own live hlen hext ih =>
    have hwhole := (Extends.arr hlen hext).showsLeaves hown hl
    cases template with
    | leaf s =>
      simp only [intersectWithTemplate, reads, hwhole]
    | obj fields =>
      simp only [intersectWithTemplate, reads, hwhole]
    | arr template =>
      rw [intersectWithTemplate, reads]
      split_ifs with hrec
      · rw [hrec, Bool.not_true, Bool.false_or, pruneEmpty_intersectItems,
          showsLeaves_filterMap hown (by rw [hlen, List.length_zipIdx]), readsItems_iff]
        have hzip (i : ℕ) : live.zipIdx[i]? = live[i]?.map fun l => (l, i) := by
          rw [List.getElem?_zipIdx, Nat.zero_add]
        have hchild (i : ℕ) (t l : Json N) (ht : own[i]? = some t) (hli : live[i]? = some l) :=
          showsLeaves_bind_kept (hown.item (List.mem_of_getElem? ht))
            (declaration template live.length i l) _ fun u =>
              ih i t l ht hli (hown.item (List.mem_of_getElem? ht))
                (hd.item (List.mem_of_getElem? ht)) (hl.item (List.mem_of_getElem? hli)) u
        simp only [Nat.zero_add, hzip]
        constructor
        · intro hall i t l ht hli
          exact (hchild i t l ht hli).mp (hall i t (l, i) ht (by rw [hli, Option.map_some]))
        · intro hall i t a ht hli
          obtain ⟨l, hli', rfl⟩ := Option.map_eq_some_iff.mp hli
          exact (hchild i t l ht hli').mpr (hall i t l ht hli')
      · simp only [hrec, Bool.not_false, Bool.true_or, hwhole]
  | @obj own live hkeys hext ih =>
    have hwhole := (Extends.obj hkeys hext).showsLeaves hown hl
    cases template with
    | leaf s =>
      simp only [intersectWithTemplate, reads, hwhole]
    | arr items =>
      simp only [intersectWithTemplate, reads, hwhole]
    | obj template =>
      rw [intersectWithTemplate, reads, readsFields_iff hd.keys hkeys]
      rw [pruneEmpty_intersectFields, showsLeaves_select hown hl.keys hkeys fun key l =>
        (template.lookup key).bind fun u => kept (intersectWithTemplate l u)]
      refine forall₅_congr fun key t l ht hl' => ?_
      have ht' := DataTree.mem_of_lookup ht
      exact showsLeaves_bind_kept (hown.field ht') _ _ fun u =>
        ih key t l ht hl' (hown.field ht') (hd.field ht') (hl.field (DataTree.mem_of_lookup hl')) u

/-- A merge key pairs an element with a record of the same value there. -/
theorem correspondingIndex_spec {el : Record N} {template : List (Json N)} {j : ℕ}
    (h : correspondingIndex el template = some j) : ∃ mk s fields,
      template[j]? = some (.obj fields) ∧ fields.lookup mk = some (.leaf s) ∧
        el.lookup mk = some (.leaf s) := by
  obtain ⟨mk, -, hmk⟩ := List.exists_of_findSome?_eq_some h
  obtain ⟨v, hv, hidx⟩ := Option.bind_eq_some_iff.mp hmk
  obtain ⟨hlt, hval, -⟩ := List.findIdx?_eq_some_iff_getElem.mp hidx
  have hj := List.getElem?_eq_getElem hlt
  cases hu : template[j] with
  | leaf s =>
    rw [hu] at hval
    cases hval
  | arr items =>
    rw [hu] at hval
    cases hval
  | obj fields =>
    rw [hu] at hj hval
    change identical id (fields.lookup mk) v = true at hval
    cases hf : fields.lookup mk with
    | none =>
      rw [hf] at hval
      cases hval
    | some w =>
      rw [hf] at hval
      cases w with
      | arr items => cases v <;> cases hval
      | obj fields => cases v <;> cases hval
      | leaf s =>
        cases v with
        | arr items => cases hval
        | obj fields => cases hval
        | leaf s' =>
          obtain rfl : s = s' := of_decide_eq_true hval
          exact ⟨mk, s, fields, hj, hf, hv⟩

theorem holds_intersectFields {template live : Record N} {key : JStr} {l u : Json N}
    (hl : live.lookup key = some l) (hu : template.lookup key = some u)
    (h : holds (intersectWithTemplate l u) = true) :
    holds (intersectWithTemplate (.obj live) (.obj template)) = true := by
  rw [intersectWithTemplate, holds_obj, intersectFields_eq, List.any_eq_true]
  refine ⟨(key, intersectWithTemplate l u), ?_, h⟩
  refine List.mem_filterMap.mpr ⟨(key, l), DataTree.mem_of_lookup hl, ?_⟩
  rw [hu]
  rfl

/-- Narrowing a live spec to the manifest that it extends leaves something. -/
theorem Extends.holds_intersect {template live : Json N} (h : Extends template live)
    (ht : Solid template) (hl : live.Distinct) :
    holds (intersectWithTemplate live template) = true := by
  induction h with
  | leaf s =>
    rw [intersectWithTemplate, holds_leaf]
    simpa [isEmpty] using ht _ .refl
  | @obj template live hkeys _ ih =>
    cases template with
    | nil => exact absurd (ht _ .refl) (by simp [isEmpty])
    | cons x template =>
      have hu : ((x :: template : Record N)).lookup x.1 = some x.2 := List.lookup_cons_self
      obtain ⟨l, hlk⟩ := Option.isSome_iff_exists.mp (hkeys x.1 x.2 hu)
      exact holds_intersectFields hlk hu (ih x.1 x.2 l hu hlk
        (ht.field List.mem_cons_self) (hl.field (DataTree.mem_of_lookup hlk)))
  | @arr template live hlen hext ih =>
    have hwhole := ((Extends.arr hlen hext).showsLeaves ht hl).holds ht
    cases template with
    | nil => exact absurd (ht _ .refl) (by simp [isEmpty])
    | cons t template =>
      cases live with
      | nil => cases hlen
      | cons el live =>
        rw [intersectWithTemplate]
        split_ifs with hrec
        · cases el with
          | leaf s => cases hrec
          | arr items => cases hrec
          | obj fields =>
            have hfirst : ∃ u, declaration (t :: template) (.obj fields :: live).length 0
                (.obj fields) = some u ∧ holds (intersectWithTemplate (.obj fields) u) = true := by
              have hitem {u : Json N} (hu : u ∈ t :: template) : Solid u := ht.item hu
              rw [declaration]
              cases hci : correspondingIndex fields (t :: template) with
              | some j =>
                obtain ⟨mk, s, found, hj, hfound, hel⟩ := correspondingIndex_spec hci
                refine ⟨.obj found, hj, holds_intersectFields hel hfound ?_⟩
                have hs := (hitem (List.mem_of_getElem? hj)).field
                  (DataTree.mem_of_lookup hfound) _ .refl
                rw [intersectWithTemplate, holds_leaf]
                simpa [isEmpty] using hs
              | none =>
                have hfields := hext 0 t (.obj fields) rfl rfl
                have hthis := ih 0 t (.obj fields) rfl rfl (hitem List.mem_cons_self)
                  (hl.item List.mem_cons_self)
                cases hfields with
                | @obj own =>
                  exact ⟨.obj own, by rw [if_pos hlen]; rfl, hthis⟩
            obtain ⟨u, hu, hholds⟩ := hfirst
            rw [holds_arr, intersectItems, hu, List.any_cons, hholds, Bool.true_or]
        · exact hwhole

omit [DecidableEq N] in
theorem distinct_of_parse {parse : JStr → Option (Document N)}
    {annotations : Option (List (JStr × JStr))} {T : Record N}
    (h : parseLastAppliedSpec parse annotations = some T) : (DataTree.obj T).Distinct := by
  rw [parseLastAppliedSpec] at h
  split at h
  · cases h
  · split_ifs at h
    split at h
    · next parsed hd _ =>
      split at h
      · next spec hspec =>
        obtain rfl := Option.some.inj h
        exact DataTree.Distinct.field hd (DataTree.mem_of_lookup hspec)
      · cases h
    · cases h

/-- A spec that extends its manifest shows every leaf the manifest declares exactly if each
element of a list is narrowed by a declaration that reads as its own does. -/
theorem compactSpec_shows_manifest (parse : JStr → Option (Document N)) (L : Document N)
    (given : Option (CompactMeta N)) (T : Record N)
    (manifest : parseLastAppliedSpec parse (given.bind CompactMeta.annotations) = some T)
    (solid : ∀ w, w.Below (.obj T) → isEmpty w = false) (extends_ : Extends (.obj T) L.value) :
    (∀ p s, (DataTree.obj T).get? p = some (.leaf s) →
      (compactSpec parse L.value given).value.get? p = some (.leaf s)) ↔
      reads (.obj T) L.value (.obj T) = true := by
  have hd := distinct_of_parse manifest
  cases T with
  | nil =>
    -- an empty manifest declares no leaf, and another signal may decide what is shown
    have hrecord {v : Json N} (h : Extends (.obj []) v) : ∃ live, v = .obj live := by
      cases h
      exact ⟨_, rfl⟩
    obtain ⟨live, hlive⟩ := hrecord extends_
    rw [hlive, reads, readsFields]
    refine iff_of_true (fun p s hp => ?_) rfl
    cases p with
    | nil => cases hp
    | cons step p => cases step <;> cases hp
  | cons x T =>
    have hsolid : Solid (.obj (x :: T)) := by
      intro w hw
      rcases DataTree.within_iff.mp hw with rfl | hw
      · rfl
      · exact solid w hw
    have hshown : isEmpty (pruneEmpty (intersectWithTemplate L.value (.obj (x :: T)))) = false := by
      rw [isEmpty_pruneEmpty, extends_.holds_intersect hsolid L.distinct, Bool.not_true]
    rw [compactSpec, manifest]
    simp only [hshown, Bool.false_eq_true, ↓reduceIte]
    exact showsLeaves_iff_reads extends_ hsolid hd L.distinct (.obj (x :: T))

end Narrow

/-! ## Elements that share a merge key -/

/-- A document, given a check of its keys. -/
def document (v : Json ℤ) (h : v.all DataTree.keysDistinct = true) : Document ℤ :=
  ⟨v, DataTree.distinct_of_all h⟩

/-- `JSON.parse` of one text. -/
def parseOf (text : JStr) (d : Document ℤ) (given : JStr) : Option (Document ℤ) :=
  if given = text then some d else none

def lastApplied (text : JStr) : Option (CompactMeta ℤ) :=
  some ⟨some [( lastAppliedAnnotation, text)], none⟩

def portRecord (protocol : String) : Json ℤ :=
  .obj [(js "containerPort", .leaf (.num 53)), (js "protocol", .leaf (.str (js protocol)))]

/-- One port over two protocols. -/
def dnsPorts : Record ℤ := [(js "ports", .arr [portRecord "UDP", portRecord "TCP"])]

def dnsPortsText : JStr := js ("\x7b\"spec\":\x7b\"ports\":[" ++
  "\x7b\"containerPort\":53,\"protocol\":\"UDP\"\x7d," ++
  "\x7b\"containerPort\":53,\"protocol\":\"TCP\"\x7d]\x7d\x7d")

def parseDnsPorts : JStr → Option (Document ℤ) :=
  parseOf dnsPortsText (document (.obj [(js "spec", .obj dnsPorts)]) (by decide))

def dnsPortsLive : Document ℤ :=
  document (.obj (dnsPorts ++ [(js "dnsPolicy", .leaf (.str (js "ClusterFirst")))])) (by decide)

/-- Both ports are narrowed by the first one's declaration, which loses nothing. -/
theorem compactSpec_shows_ports :
    (compactSpec parseDnsPorts dnsPortsLive.value (lastApplied dnsPortsText)).value.get?
        [.key (js "ports"), .index 1, .key (js "protocol")] = some (.leaf (.str (js "TCP"))) := by
  have hsolid (w : Json ℤ) (hw : w.Below (.obj dnsPorts)) : isEmpty w = false := by
    have hall : (DataTree.obj dnsPorts).all (fun w => !isEmpty w) = true := by decide
    simpa using DataTree.of_all hall (DataTree.within_iff.mpr (.inr hw))
  have hshows := (compactSpec_shows_manifest parseDnsPorts dnsPortsLive (lastApplied dnsPortsText)
    dnsPorts rfl hsolid (.append _ _)).mpr (by decide +kernel)
  exact hshows _ _ rfl

/-- Two mounts of one volume, the second with a path inside of it. -/
def sharedMounts : Record ℤ :=
  [(js "volumeMounts", .arr [
    .obj [(js "name", .leaf (.str (js "data"))), (js "mountPath", .leaf (.str (js "/a")))],
    .obj [(js "name", .leaf (.str (js "data"))), (js "mountPath", .leaf (.str (js "/b"))),
      (js "subPath", .leaf (.str (js "logs")))]])]

def sharedMountsText : JStr := js ("\x7b\"spec\":\x7b\"volumeMounts\":[" ++
  "\x7b\"name\":\"data\",\"mountPath\":\"/a\"\x7d," ++
  "\x7b\"name\":\"data\",\"mountPath\":\"/b\",\"subPath\":\"logs\"\x7d]\x7d\x7d")

def parseSharedMounts : JStr → Option (Document ℤ) :=
  parseOf sharedMountsText (document (.obj [(js "spec", .obj sharedMounts)]) (by decide))

/-- A spec equal to its manifest loses a field: the second mount is narrowed by the declaration
of the first. -/
theorem compactSpec_hides_subPath :
    parseLastAppliedSpec parseSharedMounts
        ((lastApplied sharedMountsText).bind CompactMeta.annotations) = some sharedMounts ∧
      (∀ w, w.Below (.obj sharedMounts) → isEmpty w = false) ∧
      Extends (.obj sharedMounts) (.obj sharedMounts) ∧
      (DataTree.obj sharedMounts).get? [.key (js "volumeMounts"), .index 1, .key (js "subPath")] =
        some (.leaf (.str (js "logs"))) ∧
      (compactSpec parseSharedMounts (.obj sharedMounts)
        (lastApplied sharedMountsText)).value.get?
          [.key (js "volumeMounts"), .index 1, .key (js "subPath")] = none := by
  refine ⟨rfl, fun w hw => ?_, .refl _, rfl, rfl⟩
  have hall : (DataTree.obj sharedMounts).all (fun w => !isEmpty w) = true := by decide
  simpa using DataTree.of_all hall (DataTree.within_iff.mpr (.inr hw))

end KubeConsole.Web
