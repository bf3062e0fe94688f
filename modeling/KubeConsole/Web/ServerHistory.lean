import KubeConsole.Theory.History
import KubeConsole.Theory.Keyed
import KubeConsole.Web.ResourceList

/-!
The history of one collection on the server, what listings and watches of it say, and what
the list makes of them: its rows and its version go on together.
-/
namespace KubeConsole.Web
open KubeConsole.Theory

/-! ## The server -/

def rowUid (row : K8sTableRow) : Option JStr := (row.object.bind (·.metadata)).bind (·.uid)

/-- The history of a collection, by uid: the rows that its objects are shown as, and the names
of its versions. -/
structure ServerHistory extends History JStr K8sTableRow where
  name : ℕ → JStr
  name_injective : name.Injective
  name_ne : ∀ v, name v ≠ []
  base_uid : ∀ k row, base k = some row → rowUid row = some k
  change_uid : ∀ v k row, change v = some (k, some row) → rowUid row = some k

namespace ServerHistory
variable (H : ServerHistory)

/-- These rows are the collection as of a version. -/
def Lists (v : ℕ) (rows : List K8sTableRow) : Prop :=
  rows.Nodup ∧ ∀ row, row ∈ rows ↔ ∃ k, H.asOf v k = some row

/-- The first pages of a listing at a version, and all of them where no token is left. -/
def Snapshot (v : ℕ) (pages : List ListResult) : Prop :=
  (∀ r ∈ pages, r.resourceVersion = H.name v) ∧
    ∀ r ∈ pages.getLast?, r.continueToken = [] → H.Lists v (pages.flatMap ListResult.pageRows)

/-- An ADDED or MODIFIED event carries the object's row, a DELETED one some row of the object;
both carry their version. -/
def Shows (e : WatchEvent) (v : ℕ) (c : JStr × Option K8sTableRow) : Prop :=
  e.object.version = H.name v ∧
    match c.2 with
    | some row => (e.type = .added ∨ e.type = .modified) ∧ e.object.eventRows = [row]
    | none => e.type = .deleted ∧ ∃ row, rowUid row = some c.1 ∧ e.object.eventRows = [row]

def Marks (e : WatchEvent) (v : ℕ) : Prop := e.type = .bookmark ∧ e.object.version = H.name v

/-- What a watch from a version may have delivered. -/
abbrev Delivers (v : ℕ) (events : List WatchEvent) (z : ℕ) : Prop :=
  H.Streams H.Shows H.Marks v events z

end ServerHistory

variable {H : ServerHistory} {l : ResourceList} {u v z : ℕ}

/-! ## Rows and versions -/

theorem rowKey_of_uid {row : K8sTableRow} {k : JStr} (h : rowUid row = some k) : rowKey row = k := by
  unfold rowUid at h
  unfold rowKey
  obtain ⟨meta_, hmeta, huid⟩ := Option.bind_eq_some_iff.mp h
  obtain ⟨name, ns, uid, version, created⟩ := meta_
  cases huid
  rw [hmeta]

theorem asOf_uid {k : JStr} {row : K8sTableRow} (h : H.asOf v k = some row) : rowUid row = some k :=
  History.asOf_forall H.base_uid H.change_uid v k row h

/-- The rows are the collection as of a version, and the index is in step with them. -/
def Replicates (H : ServerHistory) (l : ResourceList) (v : ℕ) : Prop :=
  Keyed.Indexed rowKey (l.rows, l.indexByKey) ∧ Keyed.lookup rowKey l.rows = H.asOf v

/-- The list is at a version. -/
def At (H : ServerHistory) (l : ResourceList) (v : ℕ) : Prop :=
  l.resourceVersion = H.name v ∧ Replicates H l v

theorem replicates_setRows {rows : List K8sTableRow} (h : H.Lists v rows) :
    Replicates H (l.setRows rows) v := by
  have hkey {row : K8sTableRow} (hrow : row ∈ rows) : H.asOf v (rowKey row) = some row := by
    obtain ⟨k, hk⟩ := (h.2 row).mp hrow
    rw [rowKey_of_uid (asOf_uid hk)]
    exact hk
  have hnodup : (rows.map rowKey).Nodup := by
    refine h.1.map_on fun x hx y hy hxy => ?_
    have heq := hkey hx
    rw [hxy, hkey hy] at heq
    exact (Option.some.inj heq).symm
  refine ⟨Keyed.indexed_positions hnodup, funext fun k => Option.ext fun row => ?_⟩
  have hlookup : Keyed.lookup rowKey (l.setRows rows).rows k = some row ↔
      row ∈ rows ∧ rowKey row = k := Keyed.lookup_eq_some_iff hnodup
  rw [hlookup]
  constructor
  · rintro ⟨hrow, rfl⟩
    exact hkey hrow
  · exact fun hk => ⟨(h.2 row).mpr ⟨k, hk⟩, rowKey_of_uid (asOf_uid hk)⟩

theorem withVersion_name : l.withVersion (H.name v) = { l with resourceVersion := H.name v } :=
  if_pos (H.name_ne v)

theorem at_mark {event : WatchEvent} (h : At H l u) (hquiet : H.Unchanged u v)
    (hmarks : H.Marks event v) : At H (l.handleEvent event) v := by
  unfold ResourceList.handleEvent
  rw [if_pos hmarks.1, hmarks.2, withVersion_name]
  refine ⟨rfl, h.2.1, ?_⟩
  rw [History.asOf_of_unchanged hquiet]
  exact h.2.2

/-- An event with one row of an object that is there. -/
theorem handleEvent_upsert {event : WatchEvent} {row : K8sTableRow}
    (htype : event.type = .added ∨ event.type = .modified)
    (hversion : event.object.version = H.name v) (hrows : event.object.eventRows = [row]) :
    l.handleEvent event = { l with
      resourceVersion := H.name v
      rows := (Keyed.upsert rowKey (l.rows, l.indexByKey) row).1
      indexByKey := (Keyed.upsert rowKey (l.rows, l.indexByKey) row).2 } := by
  have hbookmark : event.type ≠ .bookmark := by
    rcases htype with h | h <;> simp [h]
  have hdeleted : decide (event.type = .deleted) = false := by
    rcases htype with h | h <;> simp [h]
  unfold ResourceList.handleEvent
  rw [if_neg hbookmark, hversion, withVersion_name, hrows, hdeleted]
  rfl

/-- An event with one row of an object that is gone. -/
theorem handleEvent_delete {event : WatchEvent} {row : K8sTableRow} (htype : event.type = .deleted)
    (hversion : event.object.version = H.name v) (hrows : event.object.eventRows = [row]) :
    l.handleEvent event = { l with resourceVersion := H.name v }.setRows
      (l.rows.filter fun r => rowKey r ≠ rowKey row) := by
  unfold ResourceList.handleEvent
  rw [if_neg (by simp [htype]), hversion, withVersion_name, hrows, decide_eq_true htype]
  unfold ResourceList.upsertRows
  rw [if_neg (by simp), if_pos rfl]
  congr 2
  funext r
  simp

theorem at_change {event : WatchEvent} {change : JStr × Option K8sTableRow} (h : At H l u)
    (hnext : H.NextChange u v change) (hshows : H.Shows event v change) :
    At H (l.handleEvent event) v := by
  obtain ⟨k, x⟩ := change
  obtain ⟨hversion, hevent⟩ := hshows
  obtain ⟨-, hindexed, hlookup⟩ := h
  have hasOf := History.asOf_of_nextChange hnext
  cases x with
  | some row =>
    have hkey := rowKey_of_uid (H.change_uid v k row hnext.1)
    rw [handleEvent_upsert hevent.1 hversion hevent.2]
    refine ⟨rfl, hindexed.upsert row, ?_⟩
    rw [hindexed.lookup_upsert row, hasOf, hkey, hlookup]
  | none =>
    obtain ⟨htype, row, huid, hrows⟩ := hevent
    have hkey := rowKey_of_uid huid
    rw [handleEvent_delete htype hversion hrows]
    refine ⟨rfl, Keyed.indexed_positions (Keyed.nodup_filter hindexed.nodup _), ?_⟩
    rw [hasOf]
    funext k'
    have hfilter := Keyed.lookup_filter rowKey (fun k => k ≠ rowKey row) l.rows k'
    refine hfilter.trans ?_
    rw [hkey, hlookup]
    by_cases hk : k' = k
    · rw [hk, Function.update_self, if_neg (by simp)]
    · rw [Function.update_of_ne hk, if_pos hk]

/-- Events that go on from the version of the list bring it to theirs. -/
theorem at_events {events : List WatchEvent} (h : At H l u) (hevents : H.Delivers u events z) :
    At H (events.foldl ResourceList.handleEvent l) z :=
  hevents.follow (R := At H) (f := ResourceList.handleEvent)
    (fun _ _ _ _ _ hs hnext hshows => at_change hs hnext hshows)
    (fun _ _ _ _ hs hquiet hmarks => at_mark hs hquiet hmarks) h

theorem delivers_unique {events : List WatchEvent} {z' : ℕ} (h : H.Delivers v events z)
    (h' : H.Delivers v events z') : z = z' :=
  h.unique H.name_injective (f := fun e : WatchEvent => e.object.version) (fun _ _ _ hs => hs.1)
    (fun _ _ hm => hm.2) h'

end KubeConsole.Web
