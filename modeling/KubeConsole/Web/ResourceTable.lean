import KubeConsole.Theory.Fresh
import KubeConsole.Theory.Pending
import KubeConsole.Web.FieldText
import KubeConsole.Web.K8s

/-!
The table of a resource list (`ResourceTable.vue`), and the Namespace column of a list over all
namespaces (`namespaceColumn.ts`).

What the user did to a table outlives a reload, which blanks its columns, and the Namespace
column, which shifts them. It ends with the column set, which another resource replaces.
-/
namespace KubeConsole.Web.ResourceTable
open KubeConsole.Theory

/-! ## Columns -/

/-- `${name}#${n}`. -/
def numbered (name : JStr) (n : ℕ) : JStr := name ++ js "#" ++ decimal n

def columnId (used : List JStr) (name : JStr) : JStr :=
  if name ∈ used then firstFree used (numbered name) used.length 2 else name

def idsFrom (used : List JStr) : List K8sTableColumn → List JStr
  | [] => []
  | col :: columns => columnId used col.name :: idsFrom (columnId used col.name :: used) columns

def columnIds (columns : List K8sTableColumn) : List JStr := idsFrom [] columns

/-- A column as the table holds it: with its id, and its place among all columns. -/
structure Placed where
  col : K8sTableColumn
  id : JStr
  index : ℕ

def placed (columns : List K8sTableColumn) : List Placed :=
  (columns.zip (columnIds columns)).zipIdx.map fun x => ⟨x.1.1, x.1.2, x.2⟩

structure Listing where
  columns : List K8sTableColumn
  rows : List K8sTableRow

def cellAt (row : K8sTableRow) (index : ℕ) : JStr := (row.cells[index]?).getD []

def hasValue (rows : List K8sTableRow) (index : ℕ) : Bool :=
  rows.any fun row => trim (cellAt row index) ≠ [] && trim (cellAt row index) ≠ js "<none>"

/-- One turn of the `forEach` of `emptyColumnNames`: `empty` and `nonEmptySeen` after a column. -/
def judge (rows : List K8sTableRow) (s : List JStr × List JStr) (x : Placed) :
    List JStr × List JStr :=
  if x.col.name = js "Name" || x.id ∈ s.2 then s
  else if hasValue rows x.index then (s.1, x.id :: s.2)
  else (x.col.name :: s.1, s.2)

def emptyColumnNames (l : Listing) (nonEmptySeen : List JStr) : List JStr × List JStr :=
  if l.rows.isEmpty then ([], nonEmptySeen)
  else (placed l.columns).foldl (judge l.rows) ([], nonEmptySeen)

/-! ## The component -/

structure ColumnSort where
  id : JStr
  desc : Bool
  deriving DecidableEq

abbrev ColumnSizing := List (JStr × ℚ)

structure Props extends Listing where
  /-- The column of the default sort, which is ascending. -/
  defaultSort : Option JStr
  resetKey : Option JStr

namespace Props

def columnNamesKey (p : Props) : JStr := (js "|").intercalate (p.columns.map (·.name))

def columnSetKey (p : Props) : JStr := p.resetKey.getD p.columnNamesKey

def defaultSorting (p : Props) : List ColumnSort :=
  match p.defaultSort with
  | none => []
  | some wanted =>
    match p.columns.findIdx? fun c => c.name = wanted with
    | none => []
    | some i => [⟨((columnIds p.columns)[i]?).getD [], false⟩]

end Props

/-- What the page and the user do. An update without a listing hands over the same arrays. -/
inductive Event where
  | update (listing : Option Listing) (defaultSort resetKey : Option JStr)
  | sortingChange (next : List ColumnSort)
  | columnSizingChange (next : ColumnSizing)

def Props.after (p : Props) : Event → Props
  | .update listing defaultSort resetKey => ⟨listing.getD p.toListing, defaultSort, resetKey⟩
  | .sortingChange _ | .columnSizingChange _ => p

/-- A mounted table. `emptyNames` is the value of the computed `emptyColumnNames`. -/
structure State where
  props : Props
  nonEmptySeen : List JStr := []
  emptyNames : List JStr := []
  sorting : List ColumnSort := []
  columnSizing : ColumnSizing := []
  defaultPending : Bool := true

namespace State

def applyDefaultSort (s : State) : State :=
  if s.props.defaultSorting = [] then s
  else { s with sorting := s.props.defaultSorting, defaultPending := false }

/-- `emptyColumnNames`, computed anew. It depends on the two arrays alone. -/
def recompute (s : State) : State :=
  let r := emptyColumnNames s.props.toListing s.nonEmptySeen
  { s with emptyNames := r.1, nonEmptySeen := r.2 }

/-- The watches of `columnSetKey`, where that has changed. -/
def onColumnSet (s : State) : State :=
  applyDefaultSort
    { s with nonEmptySeen := [], columnSizing := [], sorting := [], defaultPending := true }

/-- The watch of `columnNamesKey`, where that has changed. -/
def onColumnNames (s : State) : State := if s.defaultPending then s.applyDefaultSort else s

def mounted (p : Props) : State := recompute (applyDefaultSort { props := p })

/-- New props, and the watches of the two keys in the order they are declared. -/
def watches (s : State) (p : Props) : State :=
  let s' := { s with props := p }
  let s' := if p.columnSetKey ≠ s.props.columnSetKey then s'.onColumnSet else s'
  if p.columnNamesKey ≠ s.props.columnNamesKey then s'.onColumnNames else s'

/-- A step, with the rendering that follows it. -/
def step (s : State) (e : Event) : State :=
  match e with
  | .sortingChange next => { s with sorting := next, defaultPending := false }
  | .columnSizingChange next => { s with columnSizing := next }
  | .update listing _ _ =>
    let s' := s.watches (s.props.after e)
    if listing.isSome then s'.recompute else s'

def run (p : Props) (events : List Event) : State := events.foldl step (mounted p)

def visibleColumns (s : State) : List Placed :=
  (placed s.props.columns).filter fun x => x.col.name ∉ s.emptyNames

end State

/-! ## Ids -/

theorem toChars_decimal (n : ℕ) :
    (decimal n).map (fun u => Char.ofNat u.toNat) = (toString n).toList := by
  have hread : ∀ c ∈ (toString n).toList, Char.ofNat c.toNat.toUInt16.toNat = c := by
    intro c hc
    have hdigit : c.isDigit :=
      Nat.isDigit_of_mem_toDigits (b := 10) (by decide) (by decide) (by simpa using hc)
    simp only [Char.isDigit, Bool.and_eq_true, decide_eq_true_eq] at hdigit
    have hle : c.toNat ≤ 57 := UInt32.le_iff_toNat_le.mp hdigit.2
    have hunit : c.toNat.toUInt16.toNat = c.toNat := by
      simp only [Nat.toUInt16, UInt16.toNat_ofNat']
      omega
    rw [hunit, Char.ofNat_toNat]
  rw [decimal, js, List.map_map]
  exact (List.map_congr_left hread).trans (List.map_id _)

theorem numbered_injective (name : JStr) : (numbered name).Injective := by
  intro m n h
  have hdec : decimal m = decimal n := List.append_cancel_left h
  have htext : (toString m).toList = (toString n).toList := by
    rw [← toChars_decimal m, ← toChars_decimal n, hdec]
  exact Nat.repr_injective (String.toList_injective htext)

theorem columnId_notMem (used : List JStr) (name : JStr) : columnId used name ∉ used := by
  unfold columnId
  split_ifs with hused
  · exact firstFree_notMem used (numbered_injective name) 2
  · exact hused

theorem idsFrom_nodup (used : List JStr) (columns : List K8sTableColumn) :
    (idsFrom used columns).Nodup ∧ ∀ id ∈ idsFrom used columns, id ∉ used := by
  induction columns generalizing used with
  | nil => simp [idsFrom]
  | cons col columns ih =>
    obtain ⟨hnodup, hfree⟩ := ih (columnId used col.name :: used)
    rw [idsFrom]
    constructor
    · rw [List.nodup_cons]
      exact ⟨fun hmem => hfree _ hmem (by simp), hnodup⟩
    · intro id hid
      rcases List.mem_cons.mp hid with rfl | hid
      · exact columnId_notMem used col.name
      · exact fun hused => hfree id hid (by simp [hused])

/-- Whatever headers the server sends, no two columns share an id. -/
theorem columnIds_nodup (columns : List K8sTableColumn) : (columnIds columns).Nodup :=
  (idsFrom_nodup [] columns).1

example : columnIds [⟨js "X", []⟩, ⟨js "X", []⟩, ⟨js "X#2", []⟩] =
    [js "X", js "X#2", js "X#2#2"] := by decide +kernel

theorem idsFrom_length (used : List JStr) (columns : List K8sTableColumn) :
    (idsFrom used columns).length = columns.length := by
  induction columns generalizing used with
  | nil => simp [idsFrom]
  | cons col columns ih => simp [idsFrom, ih]

theorem map_id_placed (columns : List K8sTableColumn) :
    (placed columns).map (·.id) = columnIds columns := by
  have hzip : ((columns.zip (columnIds columns)).zipIdx.map Prod.fst).map Prod.snd =
      columnIds columns := by
    rw [List.zipIdx_map_fst]
    exact List.map_snd_zip (by simp [columnIds, idsFrom_length])
  simpa only [placed, List.map_map, Function.comp_def] using hzip

/-! ## The column set -/

/-- A listing has a value in the column of that id. -/
def Listing.Valued (l : Listing) (id : JStr) : Prop :=
  ∃ x ∈ placed l.columns, x.id = id ∧ x.col.name ≠ js "Name" ∧ hasValue l.rows x.index = true

/-- What became of the present column set: the defaults and the choices of its sort, the widths
that were dragged, the listings it showed, and those the hidden columns were last judged by. -/
structure ColumnSet where
  turns : List (Turn (List ColumnSort))
  sizings : List ColumnSizing := []
  shown : List Listing
  judged : List Listing

def Props.offer (p : Props) : List (Turn (List ColumnSort)) :=
  if p.defaultSorting = [] then [] else [.offer p.defaultSorting]

namespace ColumnSet

def first (p : Props) : ColumnSet where
  turns := p.offer
  shown := [p.toListing]
  judged := [p.toListing]

/-- Another key begins another set. New names are another chance for the default sort. -/
def after (c : ColumnSet) (p : Props) (e : Event) : ColumnSet :=
  match e with
  | .sortingChange next => { c with turns := c.turns ++ [.choose next] }
  | .columnSizingChange next => { c with sizings := c.sizings ++ [next] }
  | .update listing _ _ =>
    let p' := p.after e
    let kept : ColumnSet := if p'.columnSetKey = p.columnSetKey then c else ⟨[], [], [], c.judged⟩
    let offer := if p'.columnSetKey = p.columnSetKey ∧ p'.columnNamesKey = p.columnNamesKey then []
      else p'.offer
    let shown := kept.shown ++ listing.toList
    { turns := kept.turns ++ offer
      sizings := kept.sizings
      shown
      judged := if listing.isSome then shown else c.judged }

def of (p : Props) (events : List Event) : ColumnSet :=
  (events.foldl (fun x e => (x.1.after x.2 e, x.2.after e)) (first p, p)).1

end ColumnSet

/-! ## The sort -/

section Watches
variable (s : State) (p : Props)

/-- Nothing depends on which of the two watches runs first. -/
theorem onColumnNames_onColumnSet : s.onColumnSet.onColumnNames = s.onColumnNames.onColumnSet := by
  by_cases hd : s.props.defaultSorting = [] <;> cases hp : s.defaultPending <;>
    simp [State.onColumnSet, State.onColumnNames, State.applyDefaultSort, hd, hp]

theorem watches_sort : ((s.watches p).sorting, (s.watches p).defaultPending) =
    (if p.columnSetKey = s.props.columnSetKey ∧ p.columnNamesKey = s.props.columnNamesKey then []
      else p.offer).foldl Turn.settle
      (if p.columnSetKey = s.props.columnSetKey then (s.sorting, s.defaultPending)
        else ([], true)) := by
  by_cases hset : p.columnSetKey = s.props.columnSetKey <;>
    by_cases hnames : p.columnNamesKey = s.props.columnNamesKey <;>
      by_cases hd : p.defaultSorting = [] <;>
        cases hp : s.defaultPending <;>
          simp [State.watches, State.onColumnSet, State.onColumnNames, State.applyDefaultSort,
            Props.offer, Turn.settle, hset, hnames, hd, hp]

theorem watches_frame : (s.watches p).props = p ∧ (s.watches p).emptyNames = s.emptyNames ∧
    (s.watches p).nonEmptySeen =
      (if p.columnSetKey = s.props.columnSetKey then s.nonEmptySeen else []) ∧
    (s.watches p).columnSizing =
      (if p.columnSetKey = s.props.columnSetKey then s.columnSizing else []) := by
  by_cases hset : p.columnSetKey = s.props.columnSetKey <;>
    by_cases hnames : p.columnNamesKey = s.props.columnNamesKey <;>
      by_cases hd : p.defaultSorting = [] <;>
        cases hp : s.defaultPending <;>
          simp [State.watches, State.onColumnSet, State.onColumnNames, State.applyDefaultSort,
            hset, hnames, hd, hp]

end Watches

/-! ## The hidden columns -/

theorem judge_spec (rows : List K8sTableRow) (names seen : List JStr) (x : Placed) :
    (∀ n, n ∈ (judge rows (names, seen) x).1 ↔ n ∈ names ∨
      x.col.name = n ∧ n ≠ js "Name" ∧ x.id ∉ seen ∧ hasValue rows x.index = false) ∧
    ∀ id, id ∈ (judge rows (names, seen) x).2 ↔ id ∈ seen ∨
      x.id = id ∧ x.col.name ≠ js "Name" ∧ hasValue rows x.index = true := by
  by_cases hname : x.col.name = js "Name"
  · have hj : judge rows (names, seen) x = (names, seen) := by simp [judge, hname]
    rw [hj]
    constructor
    · intro n
      refine (or_iff_left ?_).symm
      rintro ⟨rfl, hne, -⟩
      exact hne hname
    · simp [hname]
  · by_cases hseen : x.id ∈ seen
    · have hj : judge rows (names, seen) x = (names, seen) := by simp [judge, hseen]
      rw [hj]
      constructor
      · simp [hseen]
      · intro id
        refine (or_iff_left_of_imp ?_).symm
        rintro ⟨rfl, -⟩
        exact hseen
    · cases hv : hasValue rows x.index with
      | true =>
        have hj : judge rows (names, seen) x = (names, x.id :: seen) := by
          simp [judge, hname, hseen, hv]
        simp [hj, hname, or_comm, eq_comm]
      | false =>
        have hj : judge rows (names, seen) x = (x.col.name :: names, seen) := by
          simp [judge, hname, hseen, hv]
        rw [hj]
        constructor
        · intro n
          have hne : x.col.name = n → n ≠ js "Name" := by
            rintro rfl
            exact hname
          simp only [List.mem_cons, hseen, not_false_eq_true, and_true]
          rw [or_comm, eq_comm, and_iff_left_of_imp hne]
        · simp

theorem foldl_judge (rows : List K8sTableRow) {xs : List Placed}
    (hnodup : (xs.map (·.id)).Nodup) (names seen : List JStr) :
    (∀ n, n ∈ (xs.foldl (judge rows) (names, seen)).1 ↔ n ∈ names ∨
      ∃ x ∈ xs, x.col.name = n ∧ n ≠ js "Name" ∧ x.id ∉ seen ∧ hasValue rows x.index = false) ∧
    ∀ id, id ∈ (xs.foldl (judge rows) (names, seen)).2 ↔ id ∈ seen ∨
      ∃ x ∈ xs, x.id = id ∧ x.col.name ≠ js "Name" ∧ hasValue rows x.index = true := by
  induction xs generalizing names seen with
  | nil => simp
  | cons x xs ih =>
    obtain ⟨hx, hnodup⟩ := List.nodup_cons.mp hnodup
    obtain ⟨hnames, hseen⟩ := judge_spec rows names seen x
    obtain ⟨h1, h2⟩ := ih hnodup (judge rows (names, seen) x).1 (judge rows (names, seen) x).2
    -- the ids differ, so that no column is judged by another one's value
    have hother : ∀ y ∈ xs, y.id ∈ (judge rows (names, seen) x).2 ↔ y.id ∈ seen := by
      intro y hy
      have hne : x.id ≠ y.id := by
        intro heq
        exact hx (List.mem_map.mpr ⟨y, hy, heq.symm⟩)
      simp [hseen, hne]
    rw [List.foldl_cons]
    simp only [List.mem_cons, exists_eq_or_imp]
    constructor
    · intro n
      rw [h1, hnames, or_assoc]
      refine or_congr_right (or_congr_right (exists_congr fun y => and_congr_right fun hy => ?_))
      rw [hother y hy]
    · intro id
      rw [h2, hseen, or_assoc]

theorem not_hasValue_nil (index : ℕ) : hasValue [] index = false := rfl

theorem emptyColumnNames_spec (l : Listing) (seen : List JStr) :
    (∀ n, n ∈ (emptyColumnNames l seen).1 ↔ l.rows ≠ [] ∧ ∃ x ∈ placed l.columns,
      x.col.name = n ∧ n ≠ js "Name" ∧ x.id ∉ seen ∧ hasValue l.rows x.index = false) ∧
    ∀ id, id ∈ (emptyColumnNames l seen).2 ↔ id ∈ seen ∨ l.Valued id := by
  have hnodup : ((placed l.columns).map (·.id)).Nodup := by
    rw [map_id_placed]
    exact columnIds_nodup l.columns
  cases hrows : l.rows with
  | nil => simp [emptyColumnNames, Listing.Valued, hrows, not_hasValue_nil]
  | cons row rows =>
    obtain ⟨h1, h2⟩ := foldl_judge l.rows hnodup [] seen
    have heq : emptyColumnNames l seen = (placed l.columns).foldl (judge l.rows) ([], seen) := by
      simp [emptyColumnNames, hrows]
    rw [heq]
    constructor
    · intro n
      have hn := h1 n
      simpa [hrows] using hn
    · intro id
      exact h2 id

/-- The verdict on one of the columns there are. -/
theorem valued_iff {l : Listing} {x : Placed} (hx : x ∈ placed l.columns)
    (hname : x.col.name ≠ js "Name") : l.Valued x.id ↔ hasValue l.rows x.index = true := by
  constructor
  · rintro ⟨y, hy, hid, -, hv⟩
    have hnodup : ((placed l.columns).map (·.id)).Nodup := by
      rw [map_id_placed]
      exact columnIds_nodup l.columns
    obtain rfl := List.inj_on_of_nodup_map hnodup hy hx hid
    exact hv
  · exact fun hv => ⟨x, hx, rfl, hname, hv⟩

/-! ## Runs -/

/-- A table and what became of its column set. -/
structure Follows (s : State) (c : ColumnSet) : Prop where
  sort : (s.sorting, s.defaultPending) = c.turns.foldl Turn.settle ([], true)
  sizing : s.columnSizing = c.sizings.getLast?.getD []
  seen : ∀ id, id ∈ s.nonEmptySeen ↔ ∃ l ∈ c.shown, l.Valued id
  hidden : ∀ n, n ∈ s.emptyNames ↔ s.props.rows ≠ [] ∧ ∃ x ∈ placed s.props.columns,
    x.col.name = n ∧ n ≠ js "Name" ∧ ∀ l ∈ c.judged, ¬l.Valued x.id

theorem recompute_spec {s : State} {shown : List Listing}
    (h : ∀ id, id ∈ s.nonEmptySeen ↔ ∃ l ∈ shown, l.Valued id) :
    (∀ id, id ∈ s.recompute.nonEmptySeen ↔ ∃ l ∈ shown ++ [s.props.toListing], l.Valued id) ∧
    ∀ n, n ∈ s.recompute.emptyNames ↔ s.props.rows ≠ [] ∧ ∃ x ∈ placed s.props.columns,
      x.col.name = n ∧ n ≠ js "Name" ∧ ∀ l ∈ shown ++ [s.props.toListing], ¬l.Valued x.id := by
  obtain ⟨hempty, hseen⟩ := emptyColumnNames_spec s.props.toListing s.nonEmptySeen
  constructor
  · intro id
    have hid := hseen id
    rw [h] at hid
    simpa [State.recompute, or_and_right, exists_or] using hid
  · intro n
    have hn := hempty n
    simp only [State.recompute, hn]
    refine and_congr_right fun _ => exists_congr fun x => and_congr_right fun hx =>
      and_congr_right fun hname => and_congr_right fun hne => ?_
    have hvalued := valued_iff hx (hname ▸ hne)
    simp only [h, List.mem_append, List.mem_singleton, or_imp, forall_and, forall_eq, hvalued,
      Bool.not_eq_true, not_exists, not_and]

theorem mounted_props (p : Props) : (State.mounted p).props = p := by
  by_cases hd : p.defaultSorting = [] <;>
    simp [State.mounted, State.recompute, State.applyDefaultSort, hd]

theorem follows_mounted (p : Props) : Follows (State.mounted p) (ColumnSet.first p) := by
  have hseen : ∀ id, id ∈ (State.applyDefaultSort { props := p }).nonEmptySeen ↔
      ∃ l ∈ ([] : List Listing), l.Valued id := by
    intro id
    unfold State.applyDefaultSort
    split_ifs <;> simp
  have hprops : (State.applyDefaultSort { props := p }).props = p := mounted_props p
  obtain ⟨hids, hnames⟩ := recompute_spec hseen
  rw [hprops] at hids hnames
  constructor
  · by_cases hd : p.defaultSorting = [] <;>
      simp [State.mounted, State.recompute, State.applyDefaultSort, ColumnSet.first, Props.offer,
        Turn.settle, hd]
  · by_cases hd : p.defaultSorting = [] <;>
      simp [State.mounted, State.recompute, State.applyDefaultSort, ColumnSet.first, hd]
  · exact hids
  · rw [mounted_props]
    exact hnames

theorem step_props (s : State) (e : Event) : (s.step e).props = s.props.after e := by
  cases e with
  | sortingChange next => rfl
  | columnSizingChange next => rfl
  | update listing defaultSort resetKey =>
    have hp := (watches_frame s (s.props.after (.update listing defaultSort resetKey))).1
    unfold State.step
    cases listing <;> exact hp

theorem Follows.step {s : State} {c : ColumnSet} (h : Follows s c) (e : Event) :
    Follows (s.step e) (c.after s.props e) := by
  have hprops := step_props s e
  cases e with
  | sortingChange next => exact ⟨by simp [State.step, ColumnSet.after, Turn.settle, ← h.sort],
      h.sizing, h.seen, h.hidden⟩
  | columnSizingChange next => exact ⟨h.sort, by simp [State.step, ColumnSet.after], h.seen, h.hidden⟩
  | update listing defaultSort resetKey =>
    set p := s.props.after (.update listing defaultSort resetKey) with hp
    obtain ⟨-, hnames, hseen, hsizing⟩ := watches_frame s p
    have hsort := watches_sort s p
    -- what the watches keep of the column set
    let kept : ColumnSet := if p.columnSetKey = s.props.columnSetKey then c else ⟨[], [], [], c.judged⟩
    have hkept : ∀ id, id ∈ (s.watches p).nonEmptySeen ↔ ∃ l ∈ kept.shown, l.Valued id := by
      intro id
      rw [hseen]
      by_cases hset : p.columnSetKey = s.props.columnSetKey
      · simp [kept, hset, h.seen]
      · simp [kept, hset]
    have hturns : (if p.columnSetKey = s.props.columnSetKey then (s.sorting, s.defaultPending)
        else ([], true)) = kept.turns.foldl Turn.settle ([], true) := by
      by_cases hset : p.columnSetKey = s.props.columnSetKey
      · simp [kept, hset, h.sort]
      · simp [kept, hset]
    have hsizes : (s.watches p).columnSizing = kept.sizings.getLast?.getD [] := by
      rw [hsizing]
      by_cases hset : p.columnSetKey = s.props.columnSetKey
      · simp [kept, hset, h.sizing]
      · simp [kept, hset]
    rw [hturns, ← List.foldl_append] at hsort
    cases listing with
    | none =>
      refine ⟨hsort, hsizes, ?_, ?_⟩
      · have hshown : (c.after s.props (.update none defaultSort resetKey)).shown = kept.shown :=
          List.append_nil _
        rw [hshown]
        exact hkept
      · rw [hprops]
        intro n
        exact (congrArg (n ∈ ·) hnames).to_iff.trans (h.hidden n)
    | some l =>
      obtain ⟨hids, hhidden⟩ := recompute_spec hkept
      have hl : (s.watches p).props.toListing = l := by rw [(watches_frame s p).1]; rfl
      rw [hl] at hids
      refine ⟨hsort, hsizes, hids, ?_⟩
      rw [hl] at hhidden
      rw [hprops]
      exact hhidden

theorem follows_run (p : Props) (events : List Event) :
    Follows (State.run p events) (ColumnSet.of p events) := by
  have hpair : Follows (State.run p events) (ColumnSet.of p events) ∧ (State.run p events).props =
      (events.foldl (fun x e => (x.1.after x.2 e, x.2.after e)) (ColumnSet.first p, p)).2 := by
    induction events using List.reverseRecOn with
    | nil => exact ⟨follows_mounted p, mounted_props p⟩
    | append_singleton events e ih =>
      obtain ⟨hfollows, hprops⟩ := ih
      simp only [State.run, ColumnSet.of, List.foldl_append, List.foldl_cons, List.foldl_nil]
      constructor
      · rw [← hprops]
        exact hfollows.step e
      · rw [← hprops]
        exact step_props _ e
  exact hpair.1

/-- Over every sequence of updates, header clicks and drags: the sort is the last one chosen for the
present column set, and before any is chosen the default, taken from the first listing with its
column; the widths are those last dragged. -/
theorem sorting_settled (p : Props) (events : List Event) :
    (State.run p events).sorting = Turn.settled [] (ColumnSet.of p events).turns ∧
    ((State.run p events).defaultPending = (ColumnSet.of p events).turns.isEmpty) ∧
    (State.run p events).columnSizing = (ColumnSet.of p events).sizings.getLast?.getD [] := by
  have h := follows_run p events
  have hsort := h.sort
  rw [Turn.foldl_settle] at hsort
  obtain ⟨h1, h2⟩ := Prod.mk.inj hsort
  exact ⟨h1, h2, h.sizing⟩

def namespaceColumnName : JStr := js "Namespace"

def shouldShowNamespaceColumn (columns : List K8sTableColumn) (allNamespaces namespaced : Bool) :
    Bool :=
  allNamespaces && namespaced && !columns.any fun c => c.name = namespaceColumnName

def withNamespaceColumn (columns : List K8sTableColumn) : List K8sTableColumn :=
  ⟨namespaceColumnName, js "string"⟩ :: columns

def withNamespaceCell (row : K8sTableRow) : K8sTableRow :=
  { row with cells := ((row.object.bind (·.metadata)).bind (·.namespace_)).getD [] :: row.cells }

/-- `withNamespaceCells`. -/
def Listing.withNamespace (l : Listing) : Listing :=
  ⟨withNamespaceColumn l.columns, l.rows.map withNamespaceCell⟩

/-- `getValue`: the text a row is sorted by. -/
def valueAt (columns : List K8sTableColumn) (row : K8sTableRow) (id : JStr) : Option JStr :=
  ((placed columns).find? fun x => x.id = id).map fun x => cellAt row x.index

theorem numbered_ne_namespace (name : JStr) (n : ℕ) : numbered name n ≠ namespaceColumnName := by
  intro h
  have hhash : (0x23 : UInt16) ∈ namespaceColumnName := by
    rw [← h]
    simp [numbered, js]
  exact absurd hhash (by decide)

theorem idsFrom_namespace {columns : List K8sTableColumn}
    (h : ∀ c ∈ columns, c.name ≠ namespaceColumnName) (used : List JStr) :
    idsFrom (used ++ [namespaceColumnName]) columns = idsFrom used columns := by
  induction columns generalizing used with
  | nil => simp [idsFrom]
  | cons col columns ih =>
    obtain ⟨hcol, hcolumns⟩ := List.forall_mem_cons.mp h
    have hused (name : JStr) (k : ℕ) :
        numbered name k ∈ used ++ [namespaceColumnName] ↔ numbered name k ∈ used := by
      simp [numbered_ne_namespace]
    have hid : columnId (used ++ [namespaceColumnName]) col.name = columnId used col.name := by
      have hfree := firstFree_congr (numbered_injective col.name)
        (hused col.name) 2
      simp only [columnId, List.mem_append, List.mem_singleton, hcol, or_false, hfree]
    have hrest := ih hcolumns (columnId used col.name :: used)
    rw [List.cons_append] at hrest
    simp [idsFrom, hid, hrest]

/-- The other columns keep their ids. -/
theorem columnIds_withNamespaceColumn {columns : List K8sTableColumn}
    (h : ∀ c ∈ columns, c.name ≠ namespaceColumnName) :
    columnIds (withNamespaceColumn columns) = namespaceColumnName :: columnIds columns := by
  have hrest := idsFrom_namespace h []
  simpa [columnIds, withNamespaceColumn, idsFrom, columnId] using hrest

theorem placed_withNamespaceColumn {columns : List K8sTableColumn}
    (h : ∀ c ∈ columns, c.name ≠ namespaceColumnName) :
    placed (withNamespaceColumn columns) =
      ⟨⟨namespaceColumnName, js "string"⟩, namespaceColumnName, 0⟩ ::
        (placed columns).map fun x => { x with index := x.index + 1 } := by
  unfold placed
  rw [columnIds_withNamespaceColumn h]
  simp [withNamespaceColumn, List.zipIdx_succ, List.map_map, Function.comp_def]

/-- A row is sorted by the text it was sorted by before. -/
theorem valueAt_withNamespaceColumn {columns : List K8sTableColumn}
    (h : ∀ c ∈ columns, c.name ≠ namespaceColumnName) {id : JStr} (hid : id ∈ columnIds columns)
    (row : K8sTableRow) :
    valueAt (withNamespaceColumn columns) (withNamespaceCell row) id = valueAt columns row id := by
  have hne : namespaceColumnName ≠ id := by
    have hnodup := columnIds_nodup (withNamespaceColumn columns)
    rw [columnIds_withNamespaceColumn h] at hnodup
    rintro rfl
    exact (List.nodup_cons.mp hnodup).1 hid
  have hcell (index : ℕ) : cellAt (withNamespaceCell row) (index + 1) = cellAt row index := by
    simp [cellAt, withNamespaceCell]
  simp [valueAt, placed_withNamespaceColumn h, hne, List.find?_map, Function.comp_def, hcell]

/-- Only another column set takes away a sort that is settled, and the widths. -/
theorem step_update_same (s : State) (listing : Option Listing) (defaultSort resetKey : Option JStr)
    (hset : (s.props.after (.update listing defaultSort resetKey)).columnSetKey =
      s.props.columnSetKey) (hsettled : s.defaultPending = false) :
    (s.step (.update listing defaultSort resetKey)).sorting = s.sorting ∧
    (s.step (.update listing defaultSort resetKey)).defaultPending = false ∧
    (s.step (.update listing defaultSort resetKey)).columnSizing = s.columnSizing := by
  set p := s.props.after (.update listing defaultSort resetKey)
  have hwatch : (s.watches p).sorting = s.sorting ∧ (s.watches p).defaultPending = false ∧
      (s.watches p).columnSizing = s.columnSizing := by
    by_cases hnames : p.columnNamesKey = s.props.columnNamesKey <;>
      simp [State.watches, State.onColumnNames, hset, hnames, hsettled]
  cases listing with
  | none => exact hwatch
  | some l => exact hwatch

/-- A switch to all namespaces, and the one back, keep the sort in force and the dragged widths, and
the rows are sorted by the same texts. -/
theorem namespaceColumn_keeps (p : Props) (events : List Event)
    (hshow : shouldShowNamespaceColumn (State.run p events).props.columns true true = true)
    (hsort : (State.run p events).sorting ≠ [])
    (hkey : (State.run p events).props.resetKey.isSome) :
    let s := State.run p events
    let l := s.props.toListing
    let s' := s.step (.update (some l.withNamespace) s.props.defaultSort s.props.resetKey)
    let s'' := s'.step (.update (some l) s.props.defaultSort s.props.resetKey)
    (s'.sorting = s.sorting ∧ s'.columnSizing = s.columnSizing) ∧
    (s''.sorting = s.sorting ∧ s''.columnSizing = s.columnSizing) ∧
    columnIds s'.props.columns = namespaceColumnName :: columnIds s.props.columns ∧
    ∀ id ∈ columnIds s.props.columns, s'.props.rows.map (valueAt s'.props.columns · id) =
      s.props.rows.map (valueAt s.props.columns · id) := by
  intro s l s' s''
  obtain ⟨key, hkey⟩ := Option.isSome_iff_exists.mp hkey
  have hnames : ∀ c ∈ s.props.columns, c.name ≠ namespaceColumnName := by
    simpa [shouldShowNamespaceColumn] using hshow
  obtain ⟨hsorting, hpending, -⟩ := sorting_settled p events
  have hsettled : s.defaultPending = false := by
    cases hturns : (ColumnSet.of p events).turns with
    | nil =>
      rw [hturns] at hsorting
      exact absurd hsorting hsort
    | cons t turns => exact hpending.trans (by simp [hturns])
  have hset (q : Props) (hq : q.resetKey = some key) : q.columnSetKey = s.props.columnSetKey := by
    simp [Props.columnSetKey, hq, s, hkey]
  have hprops : s'.props = ⟨l.withNamespace, s.props.defaultSort, s.props.resetKey⟩ :=
    step_props s _
  have hforth := step_update_same s (some l.withNamespace) s.props.defaultSort s.props.resetKey
    (hset _ hkey) hsettled
  have hback := step_update_same s' (some l) s.props.defaultSort s.props.resetKey
    ((hset _ hkey).trans (hset _ (by rw [hprops]; exact hkey)).symm) hforth.2.1
  refine ⟨⟨hforth.1, hforth.2.2⟩, ⟨hback.1.trans hforth.1, hback.2.2.trans hforth.2.2⟩, ?_, ?_⟩
  · rw [hprops]
    exact columnIds_withNamespaceColumn hnames
  · intro id hid
    rw [hprops]
    have hrow (row : K8sTableRow) := valueAt_withNamespaceColumn hnames hid row
    simp [Listing.withNamespace, l, List.map_map, Function.comp_def, hrow]

def podsProps : Props where
  columns := [⟨js "Name", js "string"⟩, ⟨js "Age", js "string"⟩]
  rows := [⟨[js "web-0", js "5m"], some { metadata := some { namespace_ := some (js "prod") } }⟩]
  defaultSort := some (js "Age")
  resetKey := some (js "core/v1/pods")

/-- A reload, which blanks the columns first. -/
def podsReload : List Event :=
  [.update (some ⟨[], []⟩) podsProps.defaultSort podsProps.resetKey,
    .update (some podsProps.toListing) podsProps.defaultSort podsProps.resetKey]

theorem namespaceColumn_keeps_pods :
    let s := State.run podsProps podsReload
    let s' := s.step (.update (some s.props.toListing.withNamespace) s.props.defaultSort
      s.props.resetKey)
    s.sorting = [⟨js "Age", false⟩] ∧ s'.sorting = s.sorting ∧
      columnIds s'.props.columns = [js "Namespace", js "Name", js "Age"] := by
  obtain ⟨⟨hsort, -⟩, -, hids, -⟩ := namespaceColumn_keeps podsProps podsReload
    (by decide +kernel) (by decide +kernel) (by decide +kernel)
  exact ⟨by decide +kernel, hsort, hids.trans (by decide +kernel)⟩

end KubeConsole.Web.ResourceTable
