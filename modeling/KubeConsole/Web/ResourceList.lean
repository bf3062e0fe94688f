import KubeConsole.Web.K8s
import KubeConsole.Web.WatchLoop

/-!
The resource list (`composables/useResourceList.ts`): three kinds of walk over the collection,
the watch that follows the first, and the callback of the active context.

A list is a pool of threads over its refs: the calls of its functions, which go on when what
they await settles, and the watch loops. What the browser supplies, `JSON.parse` of a watch
line and `toLowerCase`, is a parameter.
-/
namespace KubeConsole.Web
open KubeConsole.Theory

inductive WatchType where
  | added | modified | deleted | bookmark
  deriving DecidableEq, Repr

/-- `K8sObject & Partial<K8sTable>`. -/
structure WatchObject extends K8sObject where
  rows : Option (List K8sTableRow) := none
  deriving DecidableEq, Repr

structure WatchEvent where
  type : WatchType
  object : WatchObject
  deriving DecidableEq, Repr

structure ResourceListOptions where
  namespace_ : Option JStr := none
  labelSelector : Option JStr := none
  pageSize : ℕ := 0
  deriving DecidableEq, Repr

/-- What a listing is of. -/
structure Selection where
  ref : ResourceRef
  namespace_ : Option JStr
  labelSelector : Option JStr
  deriving DecidableEq, Repr

/-- The variables of the composable, with what `getRef` and `getOptions` answer at present.
The last three are a record that no operation reads: what the most recent walk that began is
of, and what the listing was of that returned the token and the version. -/
structure ResourceList where
  getRef : Option ResourceRef
  getOptions : ResourceListOptions
  columns : List K8sTableColumn := []
  rows : List K8sTableRow := []
  loading : Bool := false
  error : Option Thrown := none
  fallback : Bool := false
  continueToken : JStr := []
  resourceVersion : JStr := []
  paged : Bool := false
  watchDegraded : Bool := false
  loadGen : ℕ := 0
  loadedNamespace : Option JStr := none
  loadedLabelSelector : Option JStr := none
  indexByKey : JStr → Option ℕ := fun _ => none
  searchQuery : Option JStr := none
  searchTruncated : Bool := false
  searchScanned : ℕ := 0
  lastWalk : Option Selection := none
  tokenOf : Option Selection := none
  versionOf : Option Selection := none

def listChunkSize : ℕ := 500
def maxListPages : ℕ := 10
def searchPageSize : ℕ := 500
def maxSearchPages : ℕ := 20
def maxSearchMatches : ℕ := 1000

/-! ## Rows -/

def rowKey (row : K8sTableRow) : JStr :=
  match row.object.bind (·.metadata) with
  | some { uid := some uid, .. } => uid
  | some { uid := none, name := some name, namespace_, .. } => namespace_.getD [] ++ js "/" ++ name
  | _ => (row.cells[0]?).getD []

/-- The map that `setRows` builds: of the rows with one key the last counts. -/
def indexRows (rows : List K8sTableRow) : JStr → Option ℕ :=
  rows.zipIdx.foldl (fun index r => Function.update index (rowKey r.1) (some r.2)) fun _ => none

/-- One row of an upsert. -/
def upsertRow (s : List K8sTableRow × (JStr → Option ℕ)) (row : K8sTableRow) :
    List K8sTableRow × (JStr → Option ℕ) :=
  match s.2 (rowKey row) with
  | some idx => (s.1.set idx row, s.2)
  | none => (s.1 ++ [row], Function.update s.2 (rowKey row) (some s.1.length))

/-- The rows that an event carries. -/
def WatchObject.eventRows (obj : WatchObject) : List K8sTableRow :=
  if obj.kind = some (js "Table") then obj.rows.getD []
  else (listToTable { items := some [obj.toK8sObject] }).rows.getD []

def WatchObject.version (obj : WatchObject) : JStr :=
  (obj.metadata.bind (·.resourceVersion)).getD []

namespace ResourceList
variable (l : ResourceList)

def setRows (next : List K8sTableRow) : ResourceList :=
  { l with rows := next, indexByKey := indexRows next }

def upsertRows (incoming : List K8sTableRow) (removed : Bool) : ResourceList :=
  if incoming = [] then l
  else if removed then
    l.setRows (l.rows.filter fun r => rowKey r ∉ incoming.map rowKey)
  else
    let s := incoming.foldl upsertRow (l.rows, l.indexByKey)
    { l with rows := s.1, indexByKey := s.2 }

/-- A version that is missing or empty leaves the ref. -/
def withVersion (version : JStr) : ResourceList :=
  if version ≠ [] then { l with resourceVersion := version } else l

def handleEvent (event : WatchEvent) : ResourceList :=
  if event.type = .bookmark then l.withVersion event.object.version
  else (l.withVersion event.object.version).upsertRows event.object.eventRows
    (event.type = .deleted)

end ResourceList

/-- `watchUrl`, without a field selector. -/
def watchUrl (ref : ResourceRef) (namespace_ : Option JStr) (resourceVersion : JStr)
    (labelSelector : Option JStr) : ListRequest where
  path := resourcePath ref namespace_
  params := [(js "watch", js "true"), (js "allowWatchBookmarks", js "true"),
      (js "includeObject", js "Metadata"), (js "resourceVersion", resourceVersion)] ++
    param (js "labelSelector") labelSelector

def ResourceList.buildUrl (l : ResourceList) : Option ListRequest :=
  match l.getRef with
  | none => none
  | some ref =>
    if l.paged || l.continueToken ≠ [] || l.resourceVersion = [] then none
    else some (watchUrl ref l.loadedNamespace l.resourceVersion l.loadedLabelSelector)

/-- What the browser supplies. -/
structure Browser where
  parse : JStr → WatchLine WatchEvent
  toLowerCase : JStr → JStr

def Browser.watchOptions (b : Browser) : UseWatchOptions ResourceList ListRequest WatchEvent where
  buildUrl := ResourceList.buildUrl
  onEvent := ResourceList.handleEvent
  parse := b.parse

/-! ## Threads -/

inductive WalkKind where
  | refresh | page | search
  deriving DecidableEq, Repr

/-- A walk of `load` or `searchAllByName`. `epoch` and `pages` are a record: the number of
context changes before its start, and the pages that it has taken in. -/
structure ListTask where
  kind : WalkKind
  gen : ℕ
  ref : ResourceRef
  opts : TableWalkOptions
  walk : Walk
  epoch : ℕ
  pages : List ListResult := []

/-- What a walk is of. -/
def ListTask.selection (t : ListTask) : Selection := ⟨t.ref, t.opts.namespace_, t.opts.labelSelector⟩

inductive ListCall where
  | refresh | nextPage
  | search (query : JStr)
  /-- The active context changes, to one with a session or without. -/
  | context (authenticated : Bool)
  deriving DecidableEq, Repr

inductive ListThread where
  | page
  | called (c : ListCall)
  | walking (t : ListTask)
  /-- `walkTable` has settled. -/
  | walked (t : ListTask) (outcome : Except Thrown WalkResult)
  /-- The `load` of a `refresh` has settled. -/
  | loaded (gen epoch : ℕ)
  | watching (l : WatchLoop ListRequest)
  | returned

inductive ListEvent where
  | run
  | select (ref : Option ResourceRef) (options : ResourceListOptions)
  | stopWatch
  | unmount
  | response (r : Except Thrown ListBody)
  | input (i : WatchInput)

/-- A mounted list, its watch, and the number of context changes so far. -/
structure ListPage where
  list : ResourceList
  watch : UseWatch ListRequest WatchEvent := {}
  unmounted : Bool := false
  epoch : ℕ := 0

def rowName (row : K8sTableRow) : JStr :=
  ((row.object.bind (·.metadata)).bind (·.name)).getD ((row.cells[0]?).getD [])

namespace ListPage
variable (b : Browser) (s : ListPage)

/-- `load` up to its first await. A refresh goes on after `load`, a paging has returned. -/
def load (kind : WalkKind) (continueFrom : JStr) : ListPage × ListThread :=
  let gen := s.list.loadGen + 1
  match s.list.getRef with
  | none =>
    ({ s with list := { s.list with loadGen := gen, lastWalk := none } },
      if kind = .refresh then .loaded gen s.epoch else .returned)
  | some ref =>
    let opts := s.list.getOptions
    let walkOpts : TableWalkOptions :=
      { namespace_ := opts.namespace_
        labelSelector := opts.labelSelector
        limit := some (max listChunkSize opts.pageSize)
        continueToken := some continueFrom
        maxPages := some maxListPages }
    ({ s with
        list := { s.list.setRows [] with
          loadGen := gen
          loadedNamespace := opts.namespace_
          loadedLabelSelector := opts.labelSelector
          loading := true
          error := none
          columns := []
          lastWalk := some ⟨ref, opts.namespace_, opts.labelSelector⟩ } },
      .walking ⟨kind, gen, ref, walkOpts, .start walkOpts, s.epoch, []⟩)

def refresh : ListPage × ListThread :=
  ({ s with
    list := { s.list with paged := false, searchQuery := none, searchTruncated := false }
    watch := s.watch.stop }).load .refresh []

def nextPage : ListPage × ListThread :=
  if s.list.continueToken = [] then (s, .returned)
  else
    ({ s with
      list := { s.list with paged := true, watchDegraded := true }
      watch := s.watch.stop }).load .page s.list.continueToken

def searchAllByName (query : JStr) : ListPage × ListThread :=
  let q := b.toLowerCase (trim query)
  if q = [] then s.refresh
  else if s.list.resourceVersion ≠ [] && s.list.continueToken = [] && !s.list.paged then
    (s, .returned)
  else match s.list.getRef with
    | none => (s, .returned)
    | some ref =>
      let gen := s.list.loadGen + 1
      let opts := s.list.getOptions
      let walkOpts : TableWalkOptions :=
        { namespace_ := opts.namespace_
          labelSelector := opts.labelSelector
          limit := some searchPageSize
          maxPages := some maxSearchPages
          keepRow := fun row => decide (q <:+: b.toLowerCase (rowName row))
          maxRows := some maxSearchMatches }
      ({ s with
          list := { s.list.setRows [] with
            loadGen := gen
            paged := true
            watchDegraded := true
            loading := true
            error := none
            searchQuery := some (trim query)
            searchTruncated := false
            searchScanned := 0
            lastWalk := some ⟨ref, opts.namespace_, opts.labelSelector⟩ }
          watch := s.watch.stop },
        .walking ⟨.search, gen, ref, walkOpts, .start walkOpts, s.epoch, []⟩)

/-- A change of the active context, with the callback of its watch; an unmounted component
has none any more. -/
def context (authenticated : Bool) : ListPage × ListThread :=
  let s := { s with epoch := s.epoch + 1 }
  if s.unmounted then (s, .returned)
  else
    let s := { s with watch := s.watch.stop }
    if authenticated then s.refresh else (s, .returned)

def call : ListCall → ListPage × ListThread
  | .refresh => s.refresh
  | .nextPage => s.nextPage
  | .search query => s.searchAllByName b query
  | .context authenticated => s.context authenticated

/-- A page's response, for a walk. -/
def onResponse (t : ListTask) : Except Thrown ListBody → ListThread
  | .error e => .walked t (.error e)
  | .ok body =>
    let (walk, left) := t.walk.onPage t.opts (t.gen ≠ s.list.loadGen) body.toResult
    let t := { t with
      walk
      pages := if t.gen ≠ s.list.loadGen then t.pages else t.pages ++ [body.toResult] }
    if left then .walked t (.ok walk.result) else .walking t

/-- What a walk that is still the latest leaves in the refs. -/
def assign (t : ListTask) : Except Thrown WalkResult → ResourceList
  | .ok walked =>
    { s.list.setRows walked.rows with
      columns := walked.columnDefinitions
      fallback := walked.fallback
      loading := false
      searchTruncated := if t.kind = .search then walked.truncated else s.list.searchTruncated
      searchScanned := if t.kind = .search then walked.scanned else s.list.searchScanned
      resourceVersion := if t.kind = .search then [] else walked.resourceVersion
      continueToken := if t.kind = .search then [] else walked.continueToken
      versionOf := some t.selection
      tokenOf := some t.selection }
  | .error e =>
    { s.list.setRows [] with
      error := some e
      loading := false
      columns := if t.kind = .search then s.list.columns else [] }

/-- What follows `walkTable`. -/
def afterWalk (t : ListTask) (outcome : Except Thrown WalkResult) : ListPage × ListThread :=
  (if t.gen ≠ s.list.loadGen then s else { s with list := s.assign t outcome },
    if t.kind = .refresh then .loaded t.gen t.epoch else .returned)

/-- A complete collection has been loaded. -/
def watchable : Bool :=
  s.list.error.isNone && s.list.resourceVersion ≠ [] && s.list.continueToken = []

/-- What follows the `load` of a refresh. -/
def afterLoad (gen : ℕ) : ListPage × ListThread :=
  if gen ≠ s.list.loadGen then (s, .returned)
  else if s.watchable then
    let list := { s.list with watchDegraded := false }
    let (watch, loop) := s.watch.start b.watchOptions list
    ({ s with list, watch }, .watching loop)
  else ({ s with list := { s.list with watchDegraded := true } }, .returned)

/-- What follows a step of a watch loop. -/
def afterStep (r : UseWatch ListRequest WatchEvent × ResourceList × WatchAfter ListRequest) :
    ListPage × ListThread :=
  let s := { s with watch := r.1, list := r.2.1 }
  match r.2.2 with
  | .loop l => (s, .watching l)
  | .ended => (s, .returned)
  | .stale => s.refresh

/-- One operation. -/
def op : ListThread → ListEvent → Option (ListPage × ListThread)
  | .page, .select ref options =>
    some ({ s with list := { s.list with getRef := ref, getOptions := options } }, .page)
  | .page, .stopWatch => some ({ s with watch := s.watch.stop }, .page)
  | .page, .unmount => some ({ s with unmounted := true, watch := s.watch.stop }, .page)
  | .called c, .run => some (s.call b c)
  | .walking t, .response r => some (s, s.onResponse t r)
  | .walked t outcome, .run => some (s.afterWalk t outcome)
  | .loaded gen _, .run => some (s.afterLoad b gen)
  | .watching l, .input i =>
    (UseWatch.loopStep b.watchOptions s.watch s.list l i).map s.afterStep
  | _, _ => none

end ListPage

/-- Any number of calls, interleaved with what they await, the watch and the page. -/
def useResourceList (b : Browser) : Program ListPage ListThread ListCall ListEvent where
  start := .called
  op := ListPage.op b

/-- A list that has just been set up. -/
def mountedList (ref : Option ResourceRef) (options : ResourceListOptions) :
    Pool ListPage ListThread :=
  ⟨{ list := { getRef := ref, getOptions := options } }, [.page]⟩

def resourceList (b : Browser) (ref : Option ResourceRef) (options : ResourceListOptions) :
    Machine (Pool ListPage ListThread) (PoolAction ListCall ListEvent) :=
  (useResourceList b).pool (mountedList ref options)

end KubeConsole.Web
