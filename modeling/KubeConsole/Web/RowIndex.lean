import KubeConsole.Theory.Keyed
import KubeConsole.Web.ResourceList

/-!
The rows of a list over any watch events: each event is a few changes of a keyed list, and the
index of the list is its map of positions.
-/
namespace KubeConsole.Web
open KubeConsole.Theory

/-- What an event says of the rows. -/
def WatchEvent.changes (event : WatchEvent) : List (Keyed.Change K8sTableRow JStr) :=
  match event.type with
  | .bookmark => []
  | .deleted => [.drop (event.object.eventRows.map rowKey)]
  | .added | .modified => event.object.eventRows.map .put

namespace ResourceList
variable {l : ResourceList}

/-- The rows and their index. -/
def indexed (l : ResourceList) : List K8sTableRow × (JStr → Option ℕ) := (l.rows, l.indexByKey)

@[simp] theorem indexed_withVersion (l : ResourceList) (version : JStr) :
    (l.withVersion version).indexed = l.indexed := by
  unfold withVersion
  split_ifs <;> rfl

@[simp] theorem indexed_setRows (l : ResourceList) (rows : List K8sTableRow) :
    (l.setRows rows).indexed = (rows, Keyed.positions rowKey rows) := rfl

theorem indexed_upsertRows_put (l : ResourceList) (incoming : List K8sTableRow) :
    (l.upsertRows incoming false).indexed =
      (incoming.map Keyed.Change.put).foldl (Keyed.change rowKey) l.indexed := by
  unfold upsertRows
  rw [List.foldl_map]
  split_ifs with hnil hfalse
  · rw [hnil]
    rfl
  · cases hfalse
  · rfl

theorem indexed_upsertRows_drop (h : Keyed.Indexed rowKey l.indexed) (incoming : List K8sTableRow) :
    (l.upsertRows incoming true).indexed =
      Keyed.change rowKey l.indexed (.drop (incoming.map rowKey)) := by
  unfold upsertRows
  by_cases hnil : incoming = []
  · rw [if_pos hnil, hnil]
    exact h.change_drop_nil.symm
  · have hkept : l.rows.filter (fun r => rowKey r ∉ incoming.map rowKey) =
        (Keyed.change rowKey l.indexed (.drop (incoming.map rowKey))).1 :=
      List.filter_congr fun r _ => by simp only [decide_not]
    rw [if_neg hnil, if_pos rfl, indexed_setRows, hkept]
    rfl

/-- An event runs its changes. Without rows a removal leaves the index as it is, which comes to
the same only where the index is in step. -/
theorem indexed_handleEvent (h : Keyed.Indexed rowKey l.indexed) (event : WatchEvent) :
    (l.handleEvent event).indexed = event.changes.foldl (Keyed.change rowKey) l.indexed := by
  have hversion : Keyed.Indexed rowKey (l.withVersion event.object.version).indexed := by
    rwa [indexed_withVersion]
  unfold handleEvent WatchEvent.changes
  cases event.type with
  | bookmark => rw [if_pos rfl, indexed_withVersion, List.foldl_nil]
  | deleted =>
    rw [if_neg (by decide), decide_eq_true rfl, indexed_upsertRows_drop hversion,
      indexed_withVersion, List.foldl_cons, List.foldl_nil]
  | added | modified =>
    rw [if_neg (by decide), decide_eq_false (by decide), indexed_upsertRows_put,
      indexed_withVersion]

theorem indexed_handleEvents (h : Keyed.Indexed rowKey l.indexed) (events : List WatchEvent) :
    (events.foldl handleEvent l).indexed =
      (events.flatMap WatchEvent.changes).foldl (Keyed.change rowKey) l.indexed := by
  induction events generalizing l with
  | nil => rfl
  | cons event events ih =>
    have hevent := indexed_handleEvent h event
    have hnext : Keyed.Indexed rowKey (l.handleEvent event).indexed := by
      rw [hevent]
      exact h.changes _
    rw [List.foldl_cons, ih hnext, hevent, List.flatMap_cons, List.foldl_append]

end ResourceList

/-- A Pod with a uid, as a row of its name. -/
def uidRow (uid name : String) : K8sTableRow where
  cells := [js name]
  object := some { metadata := some { uid := some (js uid), name := some (js name) } }

/-- A Table that names one row twice, then a removal. -/
def repeatedRows : List WatchEvent :=
  [⟨.modified, { kind := some (js "Table")
                 rows := some [uidRow "2" "b", uidRow "3" "c", uidRow "3" "d"] }⟩,
    ⟨.deleted, { kind := some (js "Table"), rows := some [uidRow "1" "a"] }⟩]

end KubeConsole.Web
