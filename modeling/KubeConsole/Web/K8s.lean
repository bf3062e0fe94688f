import KubeConsole.Theory.Paging
import KubeConsole.Web.Js

/-!
The resource layer (`api/k8s.ts`, `utils/tableFallback.ts`): listing a collection as a table
and walking it across continue tokens.
-/
namespace KubeConsole.Web
open KubeConsole.Theory

structure ResourceRef where
  group : JStr
  version : JStr
  resource : JStr
  deriving DecidableEq, Repr

structure K8sObjectMeta where
  name : Option JStr := none
  namespace_ : Option JStr := none
  uid : Option JStr := none
  resourceVersion : Option JStr := none
  creationTimestamp : Option JStr := none
  deriving DecidableEq, Repr

/-- What the fallback reads of an object's status: `phase` where it is a string, and the
conditions, where they are an array, with their types and statuses. -/
structure Status where
  phase : Option JStr := none
  conditions : Option (List (Option JStr × Option JStr)) := none
  deriving DecidableEq, Repr

structure K8sObject where
  kind : Option JStr := none
  apiVersion : Option JStr := none
  metadata : Option K8sObjectMeta := none
  status : Option Status := none
  deriving DecidableEq, Repr

structure ListMeta where
  resourceVersion : Option JStr := none
  continue_ : Option JStr := none
  deriving DecidableEq, Repr

structure K8sTableColumn where
  name : JStr
  type : JStr
  deriving DecidableEq, Repr

/-- A row's `object`. -/
structure RowObject where
  kind : Option JStr := none
  apiVersion : Option JStr := none
  metadata : Option K8sObjectMeta := none
  deriving DecidableEq, Repr

/-- A row. Of a cell that is no string the text is kept. -/
structure K8sTableRow where
  cells : List JStr
  object : Option RowObject := none
  deriving DecidableEq, Repr

structure K8sTable where
  metadata : Option ListMeta := none
  columnDefinitions : Option (List K8sTableColumn) := none
  rows : Option (List K8sTableRow) := none
  deriving DecidableEq, Repr

structure K8sObjectList where
  metadata : Option ListMeta := none
  items : Option (List K8sObject) := none
  deriving DecidableEq, Repr

/-! ## The fallback -/

def statusOf (obj : K8sObject) : JStr :=
  match obj.status with
  | none => []
  | some ⟨some phase, _⟩ => phase
  | some ⟨none, none⟩ => []
  | some ⟨none, some conditions⟩ =>
    match conditions.find? fun c => c.1 = some (js "Ready") with
    | some ready => if ready.2 = some (js "True") then js "Ready" else js "NotReady"
    | none => []

def fallbackRow (obj : K8sObject) : K8sTableRow where
  cells :=
    [((obj.metadata.bind (·.name)).getD []), ((obj.metadata.bind (·.namespace_)).getD []),
      ((obj.metadata.bind (·.creationTimestamp)).getD []), statusOf obj]
  object := some ⟨obj.kind, obj.apiVersion, obj.metadata⟩

def listToTable (list : K8sObjectList) : K8sTable where
  metadata := list.metadata
  columnDefinitions := some
    [⟨js "Name", js "string"⟩, ⟨js "Namespace", js "string"⟩, ⟨js "Created", js "date"⟩,
      ⟨js "Status", js "string"⟩]
  rows := some ((list.items.getD []).map fallbackRow)

/-! ## One listing -/

structure ListOptions where
  namespace_ : Option JStr := none
  limit : Option ℕ := none
  continueToken : Option JStr := none
  labelSelector : Option JStr := none
  fieldSelector : Option JStr := none
  deriving DecidableEq, Repr

/-- A request of the gateway: the segments of its path, each of which is percent-encoded, and
its query. -/
structure ListRequest where
  path : List JStr
  params : List (JStr × JStr)
  deriving DecidableEq, Repr

def isCoreGroup (group : JStr) : Bool := group = [] || group = js "core"

/-- A parameter that is left out where it is empty. -/
def param (name : JStr) (value : Option JStr) : List (JStr × JStr) :=
  match value with
  | some v => if v ≠ [] then [(name, v)] else []
  | none => []

/-- `resourcePath` of a collection. -/
def resourcePath (ref : ResourceRef) (namespace_ : Option JStr) : List JStr :=
  (if isCoreGroup ref.group then [js "k8s", js "api", ref.version]
    else [js "k8s", js "apis", ref.group, ref.version]) ++
  (match namespace_ with
    | some ns => if ns ≠ [] then [js "namespaces", ns] else []
    | none => []) ++
  [ref.resource]

/-- The request of `listAsTable`. -/
def listRequest (ref : ResourceRef) (opts : ListOptions) : ListRequest where
  path := resourcePath ref opts.namespace_
  params := [(js "includeObject", js "Metadata")] ++
    (opts.limit.map fun n => (js "limit", js (toString n))).toList ++
    param (js "continue") opts.continueToken ++
    param (js "labelSelector") opts.labelSelector ++
    param (js "fieldSelector") opts.fieldSelector

/-- The body of a listing's response, by its `kind`. -/
inductive ListBody where
  | table (t : K8sTable)
  | list (l : K8sObjectList)
  deriving DecidableEq, Repr

structure ListResult where
  table : K8sTable
  resourceVersion : JStr
  continueToken : JStr
  fallback : Bool
  deriving DecidableEq, Repr

def ListMeta.version (m : Option ListMeta) : JStr := (m.bind (·.resourceVersion)).getD []
def ListMeta.token (m : Option ListMeta) : JStr := (m.bind (·.continue_)).getD []

/-- What `listAsTable` makes of the body. -/
def ListBody.toResult : ListBody → ListResult
  | .table t => ⟨t, ListMeta.version t.metadata, ListMeta.token t.metadata, false⟩
  | .list l => ⟨listToTable l, ListMeta.version l.metadata, ListMeta.token l.metadata, true⟩

def ListResult.pageRows (r : ListResult) : List K8sTableRow := r.table.rows.getD []

def listAsTable (serve : ListRequest → Except Thrown ListBody) (ref : ResourceRef)
    (opts : ListOptions) : Except Thrown ListResult :=
  (serve (listRequest ref opts)).map ListBody.toResult

/-! ## The walk -/

/-- The options of a walk besides `shouldAbort`. -/
structure TableWalkOptions extends ListOptions where
  maxPages : Option ℕ := none
  keepRow : K8sTableRow → Bool := fun _ => true
  maxRows : Option ℕ := none

/-- The local variables of `walkTable`; `page` counts the pages taken in. -/
structure Walk where
  columnDefinitions : List K8sTableColumn := []
  rows : List K8sTableRow := []
  fallback : Bool := false
  resourceVersion : JStr := []
  cont : JStr
  scanned : ℕ := 0
  page : ℕ := 0
  deriving DecidableEq, Repr

structure WalkResult where
  columnDefinitions : List K8sTableColumn
  rows : List K8sTableRow
  fallback : Bool
  resourceVersion : JStr
  continueToken : JStr
  truncated : Bool
  scanned : ℕ
  deriving DecidableEq, Repr

def TableWalkOptions.pageLimit (opts : TableWalkOptions) : ℕ := opts.maxPages.getD 6

/-- The options of the next page's listing. -/
def TableWalkOptions.pageOptions (opts : TableWalkOptions) (cont : JStr) : ListOptions :=
  ⟨opts.namespace_, some (opts.limit.getD 500), some cont, opts.labelSelector, opts.fieldSelector⟩

namespace Walk

def start (opts : TableWalkOptions) : Walk := { cont := opts.continueToken.getD [] }

/-- Taking in one page. -/
def absorb (opts : TableWalkOptions) (w : Walk) (r : ListResult) : Walk where
  columnDefinitions := if w.page = 0 then r.table.columnDefinitions.getD [] else w.columnDefinitions
  rows := w.rows ++ r.pageRows.filter opts.keepRow
  fallback := if w.page = 0 then r.fallback else w.fallback
  resourceVersion := r.resourceVersion
  cont := r.continueToken
  scanned := w.scanned + r.pageRows.length
  page := w.page + 1

/-- The match cap is reached. -/
def full (opts : TableWalkOptions) (w : Walk) : Bool := opts.maxRows.any (· ≤ w.rows.length)

/-- The loop is left after the page that was taken in. -/
def leaves (opts : TableWalkOptions) (w : Walk) : Bool :=
  w.cont = [] || w.full opts || opts.pageLimit ≤ w.page

def result (w : Walk) : WalkResult where
  columnDefinitions := w.columnDefinitions
  rows := w.rows
  fallback := w.fallback
  resourceVersion := w.resourceVersion
  continueToken := w.cont
  truncated := w.cont ≠ []
  scanned := w.scanned

/-- What follows a page's response: whether the loop is left, with the page dropped where
`shouldAbort` says so. -/
def onPage (opts : TableWalkOptions) (shouldAbort : Bool) (w : Walk) (r : ListResult) : Walk × Bool :=
  if shouldAbort then (w, true) else (w.absorb opts r, (w.absorb opts r).leaves opts)

end Walk

/-- The loop of `walkTable`, with at most so many pages to go. -/
def walkPages (serve : ListRequest → Except Thrown ListBody) (ref : ResourceRef)
    (opts : TableWalkOptions) : ℕ → Walk → Except Thrown Walk
  | 0, w => .ok w
  | n + 1, w => do
    let r ← listAsTable serve ref (opts.pageOptions w.cont)
    let (w, left) := w.onPage opts false r
    if left then .ok w else walkPages serve ref opts n w

/-- `walkTable` where `shouldAbort` never answers true. -/
def walkTable (serve : ListRequest → Except Thrown ListBody) (ref : ResourceRef)
    (opts : TableWalkOptions) : Except Thrown WalkResult :=
  (walkPages serve ref opts opts.pageLimit (.start opts)).map Walk.result

/-- `listAllAsTable`: the table, and whether it is truncated. -/
def listAllAsTable (serve : ListRequest → Except Thrown ListBody) (ref : ResourceRef)
    (opts : ListOptions) (maxPages : Option ℕ) : Except Thrown (K8sTable × Bool) :=
  (walkTable serve ref { opts with continueToken := none, maxPages }).map fun walked =>
    (⟨none, some walked.columnDefinitions, some walked.rows⟩, walked.truncated)

end KubeConsole.Web
