import KubeConsole.Web.FieldText

/-!
`fieldTree.ts`: a record becomes a tree of leaves, chips, tables, groups and titled items, by its
shape alone. Every shape shows the scalars below it in its own way; what is shown is read off the
tree as rows with the paths they stand at.
-/
namespace KubeConsole.Web
open KubeConsole.Theory

structure ObjectRef where
  apiVersion : Option JStr
  apiGroup : Option JStr
  kind : JStr
  name : JStr
  namespace_ : Option JStr
  deriving DecidableEq, Repr

structure LeafNode where
  key : JStr
  label : JStr
  text : JStr
  suffix : JStr
  statusClass : Option JStr
  long : Bool
  ref : Option ObjectRef

structure Chip where
  text : JStr
  long : Bool

structure TableCell where
  text : JStr
  statusClass : Option JStr
  long : Bool

/-- An entry of `items` is a title, the children and the count of their rows. -/
inductive FieldNode where
  | leaf (node : LeafNode)
  | chips (key label : JStr) (chips : List Chip)
  | table (key label : JStr) (columns : List JStr) (rows : List (List TableCell))
  | group (key label : JStr) (children : List FieldNode) (leafCount : ℕ)
  | items (key label : JStr) (items : List (JStr × List FieldNode × ℕ)) (leafCount : ℕ)

def FieldNode.key : FieldNode → JStr
  | .leaf node => node.key
  | .chips key .. => key
  | .table key .. => key
  | .group key .. => key
  | .items key .. => key

def longValueChars : ℕ := 140
def maxDepth : ℕ := 32
def maxTableColumns : ℕ := 8

variable {N : Type} (b : Builtins N)

def isScalar (v : Json N) : Bool :=
  match v with
  | .leaf _ => true
  | _ => false

def isPlainObject (v : Json N) : Bool :=
  match v with
  | .obj _ => true
  | _ => false

def leafStatusClass (key text : JStr) : Option JStr :=
  (statusColumnKind key).bind fun kind => cellTextClass b kind text

def isLongText (text : JStr) : Bool := longValueChars < text.length || newline ∈ text

def makeChip (text : JStr) : Chip := ⟨text, isLongText text⟩

def makeLeaf (key text suffix : JStr) : LeafNode where
  key := key
  label := humanizeKey b key
  text := text
  suffix := suffix
  statusClass := leafStatusClass b key text
  long := isLongText text
  ref := none

/-- The suffix of a leaf, from the relative age. -/
def ageSuffix (rel : JStr) : JStr := if rel ≠ [] then js "(" ++ rel ++ js ")" else []

def scalarLeaf (key : JStr) (value : Scalar N) : LeafNode :=
  makeLeaf b key (formatScalar b value) (ageSuffix (relativeAge b value))

/-- `LABEL_MAP_KEY_RE`. -/
def isLabelMapKey (key : JStr) : Bool :=
  ["selector", "labels", "annotations"].any fun word => js word <:+ foldCase key

def stringOf (v : Json N) : Option JStr :=
  match v with
  | .leaf (.str s) => some s
  | _ => none

def isLabelMap (key : JStr) (value : Record N) : Bool :=
  isLabelMapKey key && !value.isEmpty && value.all fun x => (stringOf x.2).isSome

/-- The keys of all items, each where it is first met. -/
def columnKeys (items : List (Record N)) : List JStr :=
  (items.flatMap fun item => item.map Prod.fst).foldl
    (fun columns k => if k ∈ columns then columns else columns ++ [k]) []

def isFlatHomogeneousArray (items : List (Record N)) : Bool :=
  2 ≤ items.length && (items.all fun item => !item.isEmpty && item.all fun x => isScalar x.2) &&
    (columnKeys items).length ≤ maxTableColumns

/-- The text of a cell: a timestamp reads as its age. -/
def cellText (raw : Option (Json N)) : JStr :=
  match raw with
  | some (.leaf scalar) =>
    if relativeAge b scalar ≠ [] then relativeAge b scalar else formatScalar b scalar
  | _ => []

def tableCell (item : Record N) (col : JStr) : TableCell :=
  match item.lookup col with
  | none => ⟨[], none, false⟩
  | some raw =>
    ⟨cellText b (some raw), leafStatusClass b col (cellText b (some raw)),
      isLongText (cellText b (some raw))⟩

def tableNode (key : JStr) (items : List (Record N)) : FieldNode :=
  .table key (humanizeKey b key) ((columnKeys items).map (humanizeKey b))
    (items.map fun item => (columnKeys items).map (tableCell b item))

def itemTitleKeys : List JStr :=
  [js "name", js "key", js "type", js "ip", js "hostname", js "path", js "containerName",
    js "topologyKey"]

def itemTitle (item : Record N) (index : ℕ) : JStr :=
  (itemTitleKeys.findSome? fun key => match item.lookup key with
    | some (.leaf .null) => none
    | some (.leaf value) => if formatScalar b value ≠ [] then some (formatScalar b value) else none
    | _ => none).getD (js "#" ++ decimal (index + 1))

def FieldNode.nodeSize : FieldNode → ℕ
  | .leaf _ => 1
  | .chips .. => 1
  | .table _ _ _ rows => rows.length
  | .group _ _ _ leafCount => leafCount
  | .items _ _ _ leafCount => leafCount

def sizeOf (children : List FieldNode) : ℕ := (children.map FieldNode.nodeSize).sum

def stringField (value : Record N) (key : String) : Option JStr :=
  ((value.lookup (js key)).bind stringOf).filter (· ≠ [])

def objectRefOf (value : Record N) : Option ObjectRef :=
  match stringField value "kind", stringField value "name" with
  | some kind, some name => some
    { apiVersion := stringField value "apiVersion"
      apiGroup := stringField value "apiGroup"
      kind := kind
      name := name
      namespace_ := stringField value "namespace" }
  | _, _ => none

/-- The leaf of the key `name` carries the reference. -/
def withRef (ref : Option ObjectRef) (key : JStr) (node : FieldNode) : FieldNode :=
  match ref, node with
  | some r, .leaf leaf => if key = js "name" then .leaf { leaf with ref := some r } else .leaf leaf
  | _, node => node

/-- The text of an element of a list of scalars. -/
def chipText (v : Json N) : JStr :=
  match v with
  | .leaf s => formatScalar b s
  | _ => []

/-- `` `${k}=${String(v)}` ``. -/
def labelText (x : JStr × Json N) : JStr := x.1 ++ js "=" ++ chipText b x.2

def asRecord (v : Json N) : Option (Record N) :=
  match v with
  | .obj fields => some fields
  | _ => none

mutual
def buildNode (key : JStr) (depth : ℕ) : Json N → FieldNode
  | .leaf s => .leaf (scalarLeaf b key s)
  | .arr items =>
    if maxDepth ≤ depth then .leaf (makeLeaf b key (stringify b (.arr items)) [])
    else if items.isEmpty then .leaf (makeLeaf b key (js "[]") [])
    else if items.all isScalar then
      .chips key (humanizeKey b key) (items.map fun v => makeChip (chipText b v))
    else if items.all isPlainObject then
      if isFlatHomogeneousArray (items.filterMap asRecord) then
        tableNode b key (items.filterMap asRecord)
      else .items key (humanizeKey b key) (buildItems depth 0 items)
        ((buildItems depth 0 items).map fun item => 1 + item.2.2).sum
    else .leaf (makeLeaf b key (stringify b (.arr items)) [])
  | .obj fields =>
    if maxDepth ≤ depth then .leaf (makeLeaf b key (stringify b (.obj fields)) [])
    else if isLabelMap key fields then
      .chips key (humanizeKey b key) (fields.map fun x => makeChip (labelText b x))
    else .group key (humanizeKey b key) (buildFields (objectRefOf fields) (depth + 1) fields)
      (sizeOf (buildFields (objectRefOf fields) (depth + 1) fields))

def buildChildren (depth : ℕ) : Json N → List FieldNode
  | .obj fields => buildFields (objectRefOf fields) (depth + 1) fields
  | .leaf _ => []
  | .arr _ => []

def buildItems (depth : ℕ) : ℕ → List (Json N) → List (JStr × List FieldNode × ℕ)
  | _, [] => []
  | index, item :: items =>
    (itemTitle b ((asRecord item).getD []) index, buildChildren depth item,
      sizeOf (buildChildren depth item)) :: buildItems depth (index + 1) items

def buildFields (ref : Option ObjectRef) (depth : ℕ) : Record N → List FieldNode
  | [] => []
  | (key, child) :: fields =>
    withRef ref key (buildNode key depth child) :: buildFields ref depth fields
end

def buildFieldTree (value : Json N) (skipKeys : List JStr) : List FieldNode :=
  match value with
  | .obj fields =>
    (fields.filter fun x => x.1 ∉ skipKeys).map fun x => buildNode b x.1 0 x.2
  | _ => []

/-! ## Rows -/

inductive Row where
  | leaf (text suffix : JStr)
  | chips (texts : List JStr)
  /-- Each cell under the label of its column. -/
  | cells (cells : List (JStr × JStr))
  | title (text : JStr)
  deriving DecidableEq, Repr

mutual
/-- The rows of a node from top to bottom, with their paths from the node's own value. -/
def FieldNode.rows : FieldNode → List (List (Step JStr) × Row)
  | .leaf node => [([], .leaf node.text node.suffix)]
  | .chips _ _ chips => [([], .chips (chips.map Chip.text))]
  | .table _ _ columns rows =>
    rows.zipIdx.map fun x => ([.index x.2], .cells (columns.zip (x.1.map TableCell.text)))
  | .group _ _ children _ => rowsBelow children
  | .items _ _ items _ => rowsOfItems 0 items

def rowsBelow : List FieldNode → List (List (Step JStr) × Row)
  | [] => []
  | node :: nodes => node.rows.map (DataTree.under (.key node.key)) ++ rowsBelow nodes

def rowsOfItems : ℕ → List (JStr × List FieldNode × ℕ) → List (List (Step JStr) × Row)
  | _, [] => []
  | index, (title, children, _) :: items =>
    ([.index index], .title title) :: ((rowsBelow children).map (DataTree.under (.index index)) ++
      rowsOfItems (index + 1) items)
end

mutual
/-- Every `leafCount` in a tree is the number of rows beneath it. -/
def FieldNode.Counted : FieldNode → Prop
  | .leaf _ => True
  | .chips .. => True
  | .table .. => True
  | .group _ _ children leafCount => leafCount = (rowsBelow children).length ∧ AllCounted children
  | .items _ _ items leafCount => leafCount = (rowsOfItems 0 items).length ∧ ItemsCounted items

def AllCounted : List FieldNode → Prop
  | [] => True
  | node :: nodes => node.Counted ∧ AllCounted nodes

def ItemsCounted : List (JStr × List FieldNode × ℕ) → Prop
  | [] => True
  | (_, children, leafCount) :: items =>
    (leafCount = (rowsBelow children).length ∧ AllCounted children) ∧ ItemsCounted items
end

/-! ## Counts -/

section WithRef
variable (ref : Option ObjectRef) (key : JStr) (node : FieldNode)

theorem withRef_eq : withRef ref key node = node ∨
    ∃ leaf r, node = .leaf leaf ∧ withRef ref key node = .leaf { leaf with ref := some r } := by
  cases ref with
  | none => exact .inl rfl
  | some r =>
    cases node with
    | leaf leaf =>
      by_cases hk : key = js "name"
      · exact .inr ⟨leaf, r, rfl, if_pos hk⟩
      · exact .inl (if_neg hk)
    | chips | table | group | items => exact .inl rfl

@[simp] theorem rows_withRef : (withRef ref key node).rows = node.rows := by
  rcases withRef_eq ref key node with h | ⟨leaf, r, rfl, h⟩
  · rw [h]
  · rw [h, FieldNode.rows, FieldNode.rows]

@[simp] theorem key_withRef : (withRef ref key node).key = node.key := by
  rcases withRef_eq ref key node with h | ⟨leaf, r, rfl, h⟩
  · rw [h]
  · rw [h, FieldNode.key, FieldNode.key]

@[simp] theorem nodeSize_withRef : (withRef ref key node).nodeSize = node.nodeSize := by
  rcases withRef_eq ref key node with h | ⟨leaf, r, rfl, h⟩
  · rw [h]
  · rw [h, FieldNode.nodeSize, FieldNode.nodeSize]

theorem counted_withRef (h : node.Counted) : (withRef ref key node).Counted := by
  rcases withRef_eq ref key node with h' | ⟨leaf, r, rfl, h'⟩
  · rwa [h']
  · rw [h', FieldNode.Counted]
    trivial

end WithRef

/-- A node counts right: itself, and everything beneath it. -/
structure Sized (node : FieldNode) : Prop where
  size : node.nodeSize = node.rows.length
  counted : node.Counted

/-- The same for the children of a group or an item. -/
structure AllSized (nodes : List FieldNode) : Prop where
  size : sizeOf nodes = (rowsBelow nodes).length
  counted : AllCounted nodes

theorem AllSized.nil : AllSized [] := by
  constructor
  · rw [sizeOf, rowsBelow]
    rfl
  · rw [AllCounted]
    trivial

theorem AllSized.cons {node : FieldNode} {nodes : List FieldNode} (h : Sized node)
    (hs : AllSized nodes) : AllSized (node :: nodes) := by
  constructor
  · have hsum : sizeOf (node :: nodes) = node.nodeSize + sizeOf nodes := by
      rw [sizeOf, List.map_cons, List.sum_cons, sizeOf]
    rw [hsum, rowsBelow, List.length_append, List.length_map, h.size, hs.size]
  · rw [AllCounted]
    exact ⟨h.counted, hs.counted⟩

theorem Sized.withRef {node : FieldNode} (h : Sized node) (ref : Option ObjectRef) (key : JStr) :
    Sized (withRef ref key node) := by
  constructor
  · rw [nodeSize_withRef, rows_withRef, h.size]
  · exact counted_withRef ref key node h.counted

theorem sized_leaf (leaf : LeafNode) : Sized (.leaf leaf) := by
  constructor
  · rw [FieldNode.rows]
    rfl
  · rw [FieldNode.Counted]
    trivial

theorem sized_chips (key label : JStr) (chips : List Chip) : Sized (.chips key label chips) := by
  constructor
  · rw [FieldNode.rows]
    rfl
  · rw [FieldNode.Counted]
    trivial

theorem sized_table (key : JStr) (items : List (Record N)) : Sized (tableNode b key items) := by
  constructor
  · rw [tableNode, FieldNode.rows, List.length_map, List.length_zipIdx]
    rfl
  · rw [tableNode, FieldNode.Counted]
    trivial

theorem allSized_buildFields (ref : Option ObjectRef) (depth : ℕ) {fields : Record N}
    (ih : ∀ key child, (key, child) ∈ fields → ∀ k d, Sized (buildNode b k d child)) :
    AllSized (buildFields b ref depth fields) := by
  induction fields with
  | nil =>
    rw [buildFields]
    exact .nil
  | cons x fields ihs =>
    obtain ⟨key, child⟩ := x
    rw [buildFields]
    refine .cons ((ih key child List.mem_cons_self key depth).withRef ref key) (ihs ?_)
    exact fun key child hmem => ih key child (List.mem_cons_of_mem _ hmem)

theorem sized_buildItems (depth index : ℕ) {items : List (Json N)}
    (ih : ∀ item ∈ items, AllSized (buildChildren b depth item)) :
    ((buildItems b depth index items).map fun item => 1 + item.2.2).sum =
        (rowsOfItems index (buildItems b depth index items)).length ∧
      ItemsCounted (buildItems b depth index items) := by
  induction items generalizing index with
  | nil =>
    rw [buildItems, rowsOfItems, ItemsCounted]
    exact ⟨rfl, trivial⟩
  | cons item items ihs =>
    obtain ⟨hitem, hitems⟩ := List.forall_mem_cons.mp ih
    obtain ⟨hsum, hcounted⟩ := ihs (index + 1) hitems
    rw [buildItems, rowsOfItems, ItemsCounted, List.map_cons, List.sum_cons, hsum]
    refine ⟨?_, ⟨hitem.size, hitem.counted⟩, hcounted⟩
    rw [List.length_cons, List.length_append, List.length_map, hitem.size]
    change 1 + (rowsBelow (buildChildren b depth item)).length + _ = _
    omega

theorem sized_buildNode (v : Json N) (key : JStr) (depth : ℕ) :
    Sized (buildNode b key depth v) := by
  have hboth : (∀ key depth, Sized (buildNode b key depth v)) ∧
      ∀ depth, AllSized (buildChildren b depth v) := by
    induction v using DataTree.induction with
    | leaf s =>
      refine ⟨fun key depth => ?_, fun depth => ?_⟩
      · rw [buildNode]
        exact sized_leaf _
      · rw [buildChildren]
        exact .nil
    | arr items ih =>
      refine ⟨fun key depth => ?_, fun depth => ?_⟩
      · rw [buildNode]
        split_ifs
        · exact sized_leaf _
        · exact sized_leaf _
        · exact sized_chips _ _ _
        · exact sized_table b key _
        · obtain ⟨hsum, hcounted⟩ := sized_buildItems b depth 0 fun item hitem =>
            (ih item hitem).2 depth
          constructor
          · rw [FieldNode.rows, FieldNode.nodeSize, hsum]
          · rw [FieldNode.Counted]
            exact ⟨hsum, hcounted⟩
        · exact sized_leaf _
      · rw [buildChildren]
        exact .nil
    | obj fields ih =>
      have hfields (ref : Option ObjectRef) (depth : ℕ) :
          AllSized (buildFields b ref depth fields) :=
        allSized_buildFields b ref depth fun key child hmem => (ih key child hmem).1
      refine ⟨fun key depth => ?_, fun depth => ?_⟩
      · rw [buildNode]
        split_ifs
        · exact sized_leaf _
        · exact sized_chips _ _ _
        · have h := hfields (objectRefOf fields) (depth + 1)
          constructor
          · rw [FieldNode.rows, FieldNode.nodeSize, h.size]
          · rw [FieldNode.Counted]
            exact ⟨h.size, h.counted⟩
      · rw [buildChildren]
        exact hfields _ _
  exact hboth.1 key depth

/-! ## What the rows show -/

/-- How many keys lead along a path. -/
def keysAlong (p : List (Step JStr)) : ℕ := (p.filterMap Step.key?).length

/-- How a row shows the value at its path, below `level` keys: the text of a leaf is its scalar or,
for an empty or mixed list and beyond the depth cap, the JSON text; chips are the scalars of a list
or of a label map; the cells of a table row hold every field under the column of its key. -/
def Renders (level : ℕ) : Row → Json N → Prop
  | .leaf text suffix, .leaf s =>
    text = formatScalar b s ∧ suffix = ageSuffix (relativeAge b s)
  | .leaf text suffix, .arr items => text = stringify b (.arr items) ∧ suffix = [] ∧
    (items = [] ∨ maxDepth < level ∨ (¬items.all isScalar ∧ ¬items.all isPlainObject))
  | .leaf text suffix, .obj fields =>
    text = stringify b (.obj fields) ∧ suffix = [] ∧ maxDepth < level
  | .chips texts, .arr items => ∃ scalars : List (Scalar N), items = scalars.map .leaf ∧
    texts = scalars.map (formatScalar b)
  | .chips texts, .obj fields => ∃ labels : List (JStr × JStr),
    fields = labels.map (fun x => (x.1, .leaf (.str x.2))) ∧
      texts = labels.map fun x => x.1 ++ js "=" ++ x.2
  | .cells cells, .obj fields => ∃ columns : List JStr, columns.Nodup ∧
    (∀ x ∈ fields, x.1 ∈ columns ∧ isScalar x.2) ∧
      cells = columns.map fun col => (humanizeKey b col, cellText b (fields.lookup col))
  | .title text, .obj fields => ∃ index, text = itemTitle b fields index
  | _, _ => False

/-- The scalars below a path, each with its whole path. -/
def leavesAt (v : Json N) (p : List (Step JStr)) : List (List (Step JStr) × Scalar N) :=
  (v.get? p).elim [] fun w => w.leaves.map fun x => (p ++ x.1, x.2)

/-- The scalars that a row of `v` shows: a title shows none, any other row all that stand at
its path. -/
def scalarsShown (v : Json N) (x : List (Step JStr) × Row) :
    List (List (Step JStr) × Scalar N) :=
  match x.2 with
  | .title _ => []
  | _ => leavesAt v x.1

/-- The rows show each scalar of `v`, in order, and nothing else. -/
structure Covers (level : ℕ) (v : Json N) (rows : List (List (Step JStr) × Row)) : Prop where
  scalars : rows.flatMap (scalarsShown v) = v.leaves
  renders : ∀ x ∈ rows, ∃ w, v.get? x.1 = some w ∧ Renders b (level + keysAlong x.1) x.2 w

theorem leavesAt_nil (v : Json N) : leavesAt v [] = v.leaves := by
  rw [leavesAt, DataTree.get?_nil]
  exact List.map_id _

theorem leavesAt_cons {v w : Json N} {step : Step JStr}
    (h : ∀ p, v.get? (step :: p) = w.get? p) (p : List (Step JStr)) :
    leavesAt v (step :: p) = (leavesAt w p).map (DataTree.under step) := by
  rw [leavesAt, leavesAt, h]
  cases w.get? p with
  | none => rfl
  | some u =>
    rw [Option.elim_some, Option.elim_some, List.map_map]
    rfl

theorem scalarsShown_under {v w : Json N} {step : Step JStr}
    (h : ∀ p, v.get? (step :: p) = w.get? p) (x : List (Step JStr) × Row) :
    scalarsShown v (DataTree.under step x) =
      (scalarsShown w x).map (DataTree.under step) := by
  obtain ⟨p, row⟩ := x
  cases row with
  | title text => rfl
  | leaf text suffix => exact leavesAt_cons h p
  | chips texts => exact leavesAt_cons h p
  | cells cells => exact leavesAt_cons h p

/-- What rows show of a child, they show of the whole one step further. -/
theorem flatMap_scalarsShown_under {v w : Json N} {step : Step JStr}
    (h : ∀ p, v.get? (step :: p) = w.get? p) (rows : List (List (Step JStr) × Row)) :
    (rows.map (DataTree.under step)).flatMap (scalarsShown v) =
      (rows.flatMap (scalarsShown w)).map (DataTree.under step) := by
  rw [List.flatMap_map, List.map_flatMap]
  exact List.flatMap_congr fun x _ => scalarsShown_under h x

/-- A single row that is no title shows all. -/
theorem Covers.single {level : ℕ} {v : Json N} {row : Row} (hrow : ∀ text, row ≠ .title text)
    (h : Renders b level row v) : Covers b level v [([], row)] := by
  constructor
  · rw [List.flatMap_singleton, ← leavesAt_nil]
    cases row with
    | title text => exact absurd rfl (hrow text)
    | leaf | chips | cells => rfl
  · intro x hx
    obtain rfl := List.mem_singleton.mp hx
    exact ⟨v, DataTree.get?_nil v, h⟩

theorem key_buildNode (key : JStr) (depth : ℕ) (v : Json N) :
    (buildNode b key depth v).key = key := by
  cases v with
  | leaf s => rfl
  | arr items =>
    rw [buildNode]
    split_ifs <;> rfl
  | obj fields =>
    rw [buildNode]
    split_ifs <;> rfl

/-- Rows of a child, seen from its parent. -/
theorem Covers.renders_under {level : ℕ} {v w : Json N} {step : Step JStr}
    {rows : List (List (Step JStr) × Row)} (h : Covers b level w rows)
    (hget : ∀ p, v.get? (step :: p) = w.get? p) {x : List (Step JStr) × Row}
    (hx : x ∈ rows.map (DataTree.under step)) :
    ∃ u, v.get? x.1 = some u ∧ ∃ p, x.1 = step :: p ∧ Renders b (level + keysAlong p) x.2 u := by
  obtain ⟨y, hy, rfl⟩ := List.mem_map.mp hx
  obtain ⟨u, hu, hrender⟩ := h.renders y hy
  exact ⟨u, (hget y.1).trans hu, y.1, rfl, hrender⟩

theorem covers_buildFields (ref : Option ObjectRef) (depth : ℕ) {root fields : Record N}
    (hroot : ∀ key child, (key, child) ∈ fields → root.lookup key = some child)
    (ih : ∀ key child, (key, child) ∈ fields → ∀ k d,
      Covers b (d + 1) child (buildNode b k d child).rows) :
    (rowsBelow (buildFields b ref depth fields)).flatMap (scalarsShown (.obj root)) =
        fields.flatMap (fun x => x.2.leaves.map (DataTree.under (.key x.1))) ∧
      ∀ x ∈ rowsBelow (buildFields b ref depth fields), ∃ w,
        (DataTree.obj root).get? x.1 = some w ∧ Renders b (depth + keysAlong x.1) x.2 w := by
  induction fields with
  | nil =>
    rw [buildFields, rowsBelow]
    exact ⟨rfl, List.forall_mem_nil _⟩
  | cons x fields ihs =>
    obtain ⟨key, child⟩ := x
    have hchild := ih key child List.mem_cons_self key depth
    have hlookup := hroot key child List.mem_cons_self
    obtain ⟨hscalars, hrenders⟩ := ihs
      (fun key child hmem => hroot key child (List.mem_cons_of_mem _ hmem))
      fun key child hmem => ih key child (List.mem_cons_of_mem _ hmem)
    have hget (p : List (Step JStr)) :
        (DataTree.obj root).get? (.key key :: p) = child.get? p := by
      rw [DataTree.get?_key, hlookup, Option.bind_some]
    rw [buildFields, rowsBelow, key_withRef, rows_withRef, key_buildNode]
    constructor
    · rw [List.flatMap_append, List.flatMap_cons, flatMap_scalarsShown_under hget, hscalars,
        hchild.scalars]
    · intro x hx
      rcases List.mem_append.mp hx with hx | hx
      · obtain ⟨w, hw, p, hp, hrender⟩ := hchild.renders_under b hget hx
        refine ⟨w, hw, ?_⟩
        have hlevel : depth + keysAlong x.1 = depth + 1 + keysAlong p := by
          rw [hp]
          simp only [keysAlong, List.filterMap_cons, Step.key?, List.length_cons]
          omega
        rwa [hlevel]
      · exact hrenders x hx

theorem covers_buildItems (depth index : ℕ) {root items : List (Json N)}
    (hroot : ∀ (j : ℕ) (item : Json N), items[j]? = some item → root[index + j]? = some item)
    (ih : ∀ item ∈ items, isPlainObject item = true ∧
      Covers b (depth + 1) item (rowsBelow (buildChildren b depth item))) :
    (rowsOfItems index (buildItems b depth index items)).flatMap (scalarsShown (.arr root)) =
        (items.zipIdx index).flatMap (fun x => x.1.leaves.map (DataTree.under (.index x.2))) ∧
      ∀ x ∈ rowsOfItems index (buildItems b depth index items), ∃ w,
        (DataTree.arr root).get? x.1 = some w ∧ Renders b (depth + 1 + keysAlong x.1) x.2 w := by
  induction items generalizing index with
  | nil =>
    rw [buildItems, rowsOfItems]
    exact ⟨rfl, List.forall_mem_nil _⟩
  | cons item items ihs =>
    obtain ⟨⟨hobj, hitem⟩, hitems⟩ := List.forall_mem_cons.mp ih
    have hat : root[index]? = some item := hroot 0 item rfl
    obtain ⟨hscalars, hrenders⟩ := ihs (index + 1)
      (fun j item hj => by rw [Nat.add_assoc, Nat.add_comm 1]; exact hroot (j + 1) item hj) hitems
    have hget (p : List (Step JStr)) :
        (DataTree.arr root).get? (.index index :: p) = item.get? p := by
      rw [DataTree.get?_index, hat, Option.bind_some]
    rw [buildItems, rowsOfItems, List.zipIdx_cons]
    constructor
    · rw [List.flatMap_cons, List.flatMap_append, List.flatMap_cons,
        flatMap_scalarsShown_under hget, hscalars, hitem.scalars]
      rfl
    · intro x hx
      rcases List.mem_cons.mp hx with rfl | hx
      · refine ⟨item, (hget []).trans (DataTree.get?_nil item), ?_⟩
        cases item with
        | leaf s => cases hobj
        | arr inner => cases hobj
        | obj fields => exact ⟨index, rfl⟩
      · rcases List.mem_append.mp hx with hx | hx
        · obtain ⟨w, hw, p, hp, hrender⟩ := hitem.renders_under b hget hx
          refine ⟨w, hw, ?_⟩
          have hlevel : keysAlong x.1 = keysAlong p := by rw [hp]; rfl
          rwa [hlevel]
        · exact hrenders x hx

/-! ## Tables -/

theorem columnKeys_spec (items : List (Record N)) : (columnKeys items).Nodup ∧
    ∀ item ∈ items, ∀ x ∈ item, x.1 ∈ columnKeys items := by
  have hfold (keys acc : List JStr) (hacc : acc.Nodup) :
      (keys.foldl (fun columns k => if k ∈ columns then columns else columns ++ [k]) acc).Nodup ∧
        ∀ k, k ∈ acc ∨ k ∈ keys →
          k ∈ keys.foldl (fun columns k => if k ∈ columns then columns else columns ++ [k]) acc := by
    induction keys generalizing acc with
    | nil => exact ⟨hacc, fun k hk => hk.resolve_right List.not_mem_nil⟩
    | cons key keys ih =>
      rw [List.foldl_cons]
      split_ifs with hmem
      · obtain ⟨hnodup, hin⟩ := ih acc hacc
        refine ⟨hnodup, fun k hk => hin k ?_⟩
        rcases hk with hk | hk
        · exact .inl hk
        · rcases List.mem_cons.mp hk with rfl | hk
          · exact .inl hmem
          · exact .inr hk
      · obtain ⟨hnodup, hin⟩ := ih (acc ++ [key]) (List.nodup_append.mpr
          ⟨hacc, List.nodup_singleton key, fun k hk k' hk' heq =>
            hmem (List.mem_singleton.mp hk' ▸ heq ▸ hk)⟩)
        refine ⟨hnodup, fun k hk => hin k ?_⟩
        rcases hk with hk | hk
        · exact .inl (List.mem_append_left _ hk)
        · rcases List.mem_cons.mp hk with rfl | hk
          · exact .inl (List.mem_append_right _ (List.mem_singleton_self k))
          · exact .inr hk
  obtain ⟨hnodup, hin⟩ := hfold (items.flatMap fun item => item.map Prod.fst) [] List.nodup_nil
  refine ⟨hnodup, fun item hitem x hx => hin x.1 (.inr ?_)⟩
  exact List.mem_flatMap.mpr ⟨item, hitem, List.mem_map_of_mem hx⟩

theorem text_tableCell (item : Record N) (col : JStr) :
    (tableCell b item col).text = cellText b (item.lookup col) := by
  rw [tableCell]
  cases item.lookup col <;> rfl

theorem covers_table (level : ℕ) (key : JStr) (items : List (Record N))
    (h : isFlatHomogeneousArray items = true) :
    Covers b level (.arr (items.map .obj)) (tableNode b key items).rows := by
  have hrows : (tableNode b key items).rows = items.zipIdx.map fun x => ([Step.index x.2],
      Row.cells ((columnKeys items).map fun col =>
        (humanizeKey b col, cellText b (x.1.lookup col)))) := by
    rw [tableNode, FieldNode.rows, List.zipIdx_map, List.map_map]
    refine List.map_congr_left fun x _ => ?_
    simp only [Function.comp_apply, Prod.map_fst, Prod.map_snd, id_eq, List.map_map,
      List.zip_map', text_tableCell]
  have hget {x : Record N × ℕ} (hx : x ∈ items.zipIdx) (p : List (Step JStr)) :
      (DataTree.arr (items.map .obj)).get? (.index x.2 :: p) = (DataTree.obj x.1).get? p := by
    rw [DataTree.get?_index, List.getElem?_map, List.mem_zipIdx_iff_getElem?.mp hx,
      Option.map_some, Option.bind_some]
  rw [hrows]
  constructor
  · rw [DataTree.leaves_arr, List.zipIdx_map, List.flatMap_map, List.flatMap_map]
    refine List.flatMap_congr fun x hx => ?_
    change leavesAt _ [Step.index x.2] = (DataTree.obj x.1).leaves.map _
    rw [leavesAt_cons (hget hx), leavesAt_nil]
    rfl
  · intro y hy
    obtain ⟨x, hx, rfl⟩ := List.mem_map.mp hy
    refine ⟨.obj x.1, (hget hx []).trans (DataTree.get?_nil _), ?_⟩
    obtain ⟨hnodup, hin⟩ := columnKeys_spec items
    have hitem := List.fst_mem_of_mem_zipIdx hx
    refine ⟨columnKeys items, hnodup, fun field hfield => ⟨hin x.1 hitem field hfield, ?_⟩, rfl⟩
    rw [isFlatHomogeneousArray, Bool.and_eq_true, Bool.and_eq_true, List.all_eq_true] at h
    have hrow := h.1.2 x.1 hitem
    rw [Bool.and_eq_true, List.all_eq_true] at hrow
    exact hrow.2 field hfield

/-! ## The whole tree -/

theorem exists_scalars {items : List (Json N)} (h : items.all isScalar = true) :
    ∃ scalars : List (Scalar N), items = scalars.map .leaf := by
  induction items with
  | nil => exact ⟨[], rfl⟩
  | cons v items ih =>
    rw [List.all_cons, Bool.and_eq_true] at h
    obtain ⟨scalars, rfl⟩ := ih h.2
    cases v with
    | leaf s => exact ⟨s :: scalars, rfl⟩
    | arr inner => cases h.1
    | obj fields => cases h.1

theorem exists_records {items : List (Json N)} (h : items.all isPlainObject = true) :
    items = (items.filterMap asRecord).map .obj := by
  induction items with
  | nil => rfl
  | cons v items ih =>
    rw [List.all_cons, Bool.and_eq_true] at h
    cases v with
    | leaf s => cases h.1
    | arr inner => cases h.1
    | obj fields =>
      have hcons : (DataTree.obj fields :: items).filterMap asRecord =
          fields :: items.filterMap asRecord := List.filterMap_cons_some rfl
      rw [hcons, List.map_cons]
      exact congrArg _ (ih h.2)

theorem exists_labels {key : JStr} {fields : Record N} (h : isLabelMap key fields = true) :
    ∃ labels : List (JStr × JStr), fields = labels.map fun x => (x.1, .leaf (.str x.2)) := by
  rw [isLabelMap, Bool.and_eq_true] at h
  replace h := h.2
  induction fields with
  | nil => exact ⟨[], rfl⟩
  | cons x fields ih =>
    rw [List.all_cons, Bool.and_eq_true] at h
    obtain ⟨labels, rfl⟩ := ih h.2
    obtain ⟨k, v⟩ := x
    obtain ⟨s, hs⟩ := Option.isSome_iff_exists.mp h.1
    cases v with
    | arr inner => cases hs
    | obj inner => cases hs
    | leaf scalar =>
      cases scalar with
      | null | bool | num => cases hs
      | str t => exact ⟨(k, t) :: labels, rfl⟩

theorem covers_leafNode {level : ℕ} {key text suffix : JStr} {v : Json N}
    (h : Renders b level (.leaf text suffix) v) :
    Covers b level v (FieldNode.leaf (makeLeaf b key text suffix)).rows := by
  rw [FieldNode.rows]
  exact .single b nofun h

theorem covers_scalarChips (level : ℕ) (key label : JStr) (scalars : List (Scalar N)) :
    Covers b level (.arr (scalars.map .leaf))
      (FieldNode.chips key label ((scalars.map .leaf).map fun v => makeChip (chipText b v))).rows := by
  rw [FieldNode.rows, List.map_map, List.map_map]
  exact .single b nofun ⟨scalars, rfl, rfl⟩

theorem covers_labelChips (level : ℕ) (key label : JStr) (labels : List (JStr × JStr)) :
    Covers b level (.obj (labels.map fun x => (x.1, .leaf (.str x.2))))
      (FieldNode.chips key label ((labels.map fun x => (x.1, DataTree.leaf (.str x.2))).map
        fun x => makeChip (labelText b x))).rows := by
  rw [FieldNode.rows, List.map_map, List.map_map]
  exact .single b nofun ⟨labels, rfl, rfl⟩

theorem covers_fields (ref : Option ObjectRef) (depth : ℕ) {fields : Record N}
    (hd : (DataTree.obj fields).Distinct) (ih : ∀ key child, (key, child) ∈ fields → ∀ k d,
      Covers b (d + 1) child (buildNode b k d child).rows) :
    Covers b depth (.obj fields) (rowsBelow (buildFields b ref depth fields)) := by
  obtain ⟨hscalars, hrenders⟩ := covers_buildFields b ref depth
    (fun key child hmem => (DataTree.lookup_eq_some_iff hd.keys).mpr hmem) ih
  exact ⟨by rw [hscalars, DataTree.leaves_obj], hrenders⟩

theorem covers_buildNode {v : Json N} (hd : v.Distinct) :
    (∀ key depth, Covers b (depth + 1) v (buildNode b key depth v).rows) ∧
      (isPlainObject v = true → ∀ depth,
        Covers b (depth + 1) v (rowsBelow (buildChildren b depth v))) := by
  induction v using DataTree.induction with
  | leaf s =>
    refine ⟨fun key depth => ?_, nofun⟩
    rw [buildNode, scalarLeaf]
    exact covers_leafNode b ⟨rfl, rfl⟩
  | arr items ih =>
    refine ⟨fun key depth => ?_, nofun⟩
    rw [buildNode]
    split_ifs with hdeep hempty hscalar hplain hflat
    · exact covers_leafNode b ⟨rfl, rfl, .inr (.inl (Nat.lt_succ_of_le hdeep))⟩
    · obtain rfl := List.isEmpty_iff.mp hempty
      exact covers_leafNode b ⟨rfl, rfl, .inl rfl⟩
    · obtain ⟨scalars, rfl⟩ := exists_scalars hscalar
      exact covers_scalarChips b _ _ _ scalars
    · have h := covers_table b (depth + 1) key (items.filterMap asRecord) hflat
      rwa [← exists_records hplain] at h
    · rw [FieldNode.rows]
      have hitem (item : Json N) (hmem : item ∈ items) : isPlainObject item = true ∧
          Covers b (depth + 1) item (rowsBelow (buildChildren b depth item)) := by
        have hobj := List.all_eq_true.mp hplain item hmem
        exact ⟨hobj, (ih item hmem (hd.item hmem)).2 hobj depth⟩
      obtain ⟨hscalars, hrenders⟩ := covers_buildItems b depth 0
        (fun j item hj => by rwa [Nat.zero_add]) hitem
      exact ⟨by rw [hscalars, DataTree.leaves_arr], hrenders⟩
    · exact covers_leafNode b ⟨rfl, rfl, .inr (.inr ⟨hscalar, hplain⟩)⟩
  | obj fields ih =>
    have hfields (ref : Option ObjectRef) (depth : ℕ) :
        Covers b depth (.obj fields) (rowsBelow (buildFields b ref depth fields)) :=
      covers_fields b ref depth hd fun key child hmem k d =>
        (ih key child hmem (hd.field hmem)).1 k d
    refine ⟨fun key depth => ?_, fun _ depth => ?_⟩
    · rw [buildNode]
      split_ifs with hdeep hlabels
      · exact covers_leafNode b ⟨rfl, rfl, Nat.lt_succ_of_le hdeep⟩
      · obtain ⟨labels, rfl⟩ := exists_labels hlabels
        exact covers_labelChips b _ _ _ labels
      · rw [FieldNode.rows]
        exact hfields _ _
    · rw [buildChildren]
      exact hfields _ _

theorem buildFieldTree_eq (fields : Record N) :
    buildFieldTree b (.obj fields) [] = buildFields b none 0 fields := by
  rw [buildFieldTree]
  induction fields with
  | nil =>
    rw [buildFields]
    rfl
  | cons x fields ih =>
    rw [buildFields, ← ih, List.filter_cons_of_pos (by simp)]
    rfl

/-- ASCII case mappings and decimal numbers, for a value without dates. -/
def asciiBuiltins : Builtins ℤ where
  toLowerCase := foldCase
  toUpperCase s := s.map fun c => if isLower c then c - 0x20 else c
  numberText n := js (toString n)
  numberJson n := js (toString n)
  getTime _ := none
  now := 0

/-- A spec with a table that lacks a cell, a label map, titled items and a mixed list. -/
def serviceSpec : Document ℤ where
  value := .obj [
    (js "ports", .arr [
      .obj [(js "name", .leaf (.str (js "http"))), (js "port", .leaf (.num 80))],
      .obj [(js "port", .leaf (.num 443))]]),
    (js "selector", .obj [(js "app", .leaf (.str (js "web")))]),
    (js "containers", .arr [
      .obj [(js "name", .leaf (.str (js "app"))), (js "resources", .obj [])]]),
    (js "mixed", .arr [.leaf .null, .arr [.leaf (.bool true)]])]
  distinct := DataTree.distinct_of_all (by decide +kernel)

end KubeConsole.Web
