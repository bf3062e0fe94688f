import KubeConsole.Discovery.Legacy
import KubeConsole.Theory.TaskGroup

/-!
The catalog by aggregated discovery, and the handler that prefers it (`internal/discovery`).

Two roots are asked side by side, each with the second form of the request where the first is
not answered as hoped. The first root to fail cancels the other, and the handler falls back to
classic discovery. What the apiserver answers to each request is given.
-/
namespace KubeConsole.Discovery
open KubeConsole.Go KubeConsole.Theory

/-- `aggregatedAccepts`: the forms of the request, the first and the others. -/
def aggregatedAccept : Str := str "application/json;g=apidiscovery.k8s.io;v=v2;as=APIGroupDiscoveryList"

def olderAccepts : List Str :=
  [str "application/json;g=apidiscovery.k8s.io;v=v2beta1;as=APIGroupDiscoveryList"]

structure AggResource where
  resource : Str
  kind : Str := []
  scope : Str := []
  verbs : Option (List Str) := none
  shortNames : List Str := []
  categories : List Str := []
  deriving DecidableEq, Repr

structure AggVersion where
  version : Str
  resources : List AggResource
  deriving DecidableEq, Repr

structure AggGroup where
  name : Str
  versions : List AggVersion
  deriving DecidableEq, Repr

structure AggGroupList where
  kind : Str
  items : List AggGroup
  deriving DecidableEq, Repr

/-- The roots, in the order in which their resources are put together. -/
inductive Root where
  | apis
  | api
  deriving DecidableEq, Repr

instance : Fintype Root where
  elems := {.apis, .api}
  complete root := by cases root <;> decide

/-- What `fetchAggregatedOnce` returns: a list, an error that another form of the request may
not meet, or one that is final. -/
inductive Fetched where
  | list (l : AggGroupList)
  | refused (e : FetchError)
  | fatal (e : FetchError)
  deriving DecidableEq, Repr

def fetchAggregatedOnce : Answer AggGroupList → Fetched
  | .failed => .fatal .other
  | .response code body =>
    if code ≠ 200 then .refused (.status code)
    else match body with
      | none => .refused .other
      | some l => if l.kind ≠ str "APIGroupDiscoveryList" then .refused .other else .list l

/-- The loops of `fetchAggregated` over the list of a root. -/
def collectGroups (l : AggGroupList) : List Resource :=
  l.items.flatMap fun group => group.versions.flatMap fun version =>
    (version.resources.filter fun res => !isSubresource res.resource).map fun res =>
      { id := makeID group.name version.version res.resource
        group := group.name
        version := version.version
        resource := res.resource
        kind := res.kind
        namespaced := res.scope = str "Namespaced"
        verbs := nonNilVerbs res.verbs
        shortNames := res.shortNames
        categories := res.categories }

/-- What each request of aggregated discovery will be answered. -/
structure AggregatedRun where
  answers : Root → Str → Answer AggGroupList

namespace AggregatedRun
variable (A : AggregatedRun)

/-- One request of a root's goroutine: the form it asks in, and the forms that are left. -/
def next (root : Root) (t : Str × List Str) : TaskState (Str × List Str) FetchError (List Resource) :=
  match fetchAggregatedOnce (A.answers root t.1) with
  | .list l => .done (.ok (collectGroups l))
  | .fatal e => .done (.error e)
  | .refused e =>
    match t.2 with
    | [] => .done (.error e)
    | accept :: accepts => .running (accept, accepts)

/-- The two goroutines. A request that is canceled fails without a status. -/
def fetch : Machine (TaskGroup Root (Str × List Str) FetchError (List Resource))
    (GroupAction Root) :=
  TaskGroup.machine A.next (fun _ => (aggregatedAccept, olderAccepts)) .other

/-- `fetchAggregated` once both goroutines have returned. -/
def result (s : TaskGroup Root (Str × List Str) FetchError (List Resource)) :
    Except FetchError (List Resource) :=
  match s.firstErr with
  | some e => .error e
  | none =>
    let perRoot (root : Root) : List Resource :=
      match s.pc root with
      | .done (.ok rs) => rs
      | _ => []
    let out := perRoot .apis ++ perRoot .api
    if out = [] then .error .other else .ok out

/-- What comes of the complete runs. -/
def Fetches (res : Except FetchError (List Resource)) : Prop :=
  ∃ s, A.fetch.Reachable s ∧ s.Done ∧ res = result s

/-- The responses of the handler: the sorted catalog, or what classic discovery makes of it. -/
def Responds (I : LegacyRun) (r : Reply) : Prop :=
  ∃ res, A.Fetches res ∧ match res with
    | .ok resources => r = .ok (sortResources resources)
    | .error err => { I with aggregated := err }.Responds r

/-- `fetchAggregatedRoot` of a root that nothing cancels. -/
def fetchAggregatedRoot (root : Root) (accept : Str) : List Str → Except FetchError (List Resource)
  | [] =>
    match fetchAggregatedOnce (A.answers root accept) with
    | .list l => .ok (collectGroups l)
    | .fatal e | .refused e => .error e
  | accept' :: accepts =>
    match fetchAggregatedOnce (A.answers root accept) with
    | .list l => .ok (collectGroups l)
    | .fatal e => .error e
    | .refused _ => fetchAggregatedRoot root accept' accepts

/-- What a root delivers by itself. -/
def alone (root : Root) : Except FetchError (List Resource) :=
  A.fetchAggregatedRoot root aggregatedAccept olderAccepts

variable {A} {root : Root}

theorem returns_fetchAggregatedRoot (accept : Str) (accepts : List Str) :
    Returns (A.next root) (accept, accepts) (A.fetchAggregatedRoot root accept accepts) := by
  induction accepts generalizing accept with
  | nil =>
    apply Returns.last
    unfold next fetchAggregatedRoot
    cases fetchAggregatedOnce (A.answers root accept) <;> rfl
  | cons accept' accepts ih =>
    cases hf : fetchAggregatedOnce (A.answers root accept) with
    | list l => exact .last (by simp [next, fetchAggregatedRoot, hf])
    | fatal e => exact .last (by simp [next, fetchAggregatedRoot, hf])
    | refused e =>
      have hrest : A.fetchAggregatedRoot root accept (accept' :: accepts) =
          A.fetchAggregatedRoot root accept' accepts := by
        simp [fetchAggregatedRoot, hf]
      rw [hrest]
      exact .step (by simp [next, hf]) (ih accept')

/-- What a root returns undisturbed is what it delivers by itself. -/
theorem returns_iff {r : Except FetchError (List Resource)} :
    Returns (A.next root) (aggregatedAccept, olderAccepts) r ↔ A.alone root = r := by
  constructor
  · exact fun h => (returns_fetchAggregatedRoot _ _).unique h
  · rintro rfl
    exact returns_fetchAggregatedRoot _ _

variable (A) in
/-- Why aggregated discovery may fail: a root fails by itself, or neither has anything. -/
def Fails (e : FetchError) : Prop :=
  (∃ root, A.alone root = .error e) ∨
    (A.alone .apis = .ok [] ∧ A.alone .api = .ok [] ∧ e = .other)

/-- Over all orders of the requests and of the cancellation, aggregated discovery delivers what
both roots deliver, the one of the groups first, or the error of a root that fails by itself. A
root that was canceled is never the reason. -/
theorem fetches_iff (res : Except FetchError (List Resource)) : A.Fetches res ↔
    (∃ apis api, A.alone .apis = .ok apis ∧ A.alone .api = .ok api ∧ apis ++ api ≠ [] ∧
      res = .ok (apis ++ api)) ∨ ∃ e, A.Fails e ∧ res = .error e := by
  constructor
  · rintro ⟨s, hs, hdone, rfl⟩
    have hhonest := TaskGroup.honest hs
    cases herr : s.firstErr with
    | some e =>
      obtain ⟨root, he⟩ := hhonest.firstErr e herr
      exact .inr ⟨e, .inl ⟨root, returns_iff.mp he⟩, by simp [result, herr]⟩
    | none =>
      obtain ⟨apis, hapis, happs⟩ := hhonest.all_ok hdone herr .apis
      obtain ⟨api, hapi, hcore⟩ := hhonest.all_ok hdone herr .api
      have hresult : result s = if apis ++ api = [] then .error .other else .ok (apis ++ api) := by
        simp only [result, herr, hapis, hapi]
      rw [hresult]
      split_ifs with hempty
      · rw [List.append_eq_nil_iff] at hempty
        obtain ⟨rfl, rfl⟩ := hempty
        exact .inr ⟨.other, .inr ⟨returns_iff.mp happs, returns_iff.mp hcore, rfl⟩, rfl⟩
      · exact .inl ⟨apis, api, returns_iff.mp happs, returns_iff.mp hcore, hempty, rfl⟩
  · have hboth {apis api : List Resource} (happs : A.alone .apis = .ok apis)
        (hcore : A.alone .api = .ok api) : A.Fetches (if apis ++ api = [] then .error .other
          else .ok (apis ++ api)) := by
      have hv (root : Root) : Returns (A.next root) (aggregatedAccept, olderAccepts)
          (.ok (match root with | .apis => apis | .api => api)) := by
        cases root with
        | apis => exact returns_iff.mpr happs
        | api => exact returns_iff.mpr hcore
      obtain ⟨s, hs, hpc, herr⟩ := TaskGroup.exists_ok A.next _ .other hv
      refine ⟨s, hs, fun root => ⟨_, hpc root⟩, ?_⟩
      simp only [result, herr, hpc]
    rintro (⟨apis, api, happs, hcore, hne, rfl⟩ | ⟨e, ⟨root, he⟩ | ⟨happs, hcore, rfl⟩, rfl⟩)
    · simpa [hne] using hboth happs hcore
    · obtain ⟨s, hs, hdone, herr⟩ :=
        TaskGroup.exists_error A.next (fun _ => (aggregatedAccept, olderAccepts)) .other
          (returns_iff.mpr he)
      exact ⟨s, hs, hdone, by simp [result, herr]⟩
    · simpa using hboth happs hcore

end AggregatedRun

end KubeConsole.Discovery
