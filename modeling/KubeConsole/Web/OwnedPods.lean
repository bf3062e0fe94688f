import KubeConsole.Theory.Transition
import KubeConsole.Web.K8s

/-!
The pods of the object that the detail page shows (`useOwnedPods.ts`).

An action is an object that the page hands over, with the load that its watch makes, or a walk
that ends.
-/
namespace KubeConsole.Web.OwnedPods
open KubeConsole.Theory

inductive PodOwnerMode where
  | owner | deployment | service
  deriving DecidableEq

def POD_OWNERS : List (JStr × PodOwnerMode) :=
  [(js "apps/v1/Deployment", .deployment), (js "apps/v1/ReplicaSet", .owner),
    (js "apps/v1/StatefulSet", .owner), (js "apps/v1/DaemonSet", .owner),
    (js "batch/v1/Job", .owner), (js "v1/Service", .service)]

def podOwnerSpec (object : K8sObject) : Option PodOwnerMode :=
  POD_OWNERS.lookup (object.apiVersion.getD [] ++ js "/" ++ object.kind.getD [])

/-- `object.metadata?.uid`. -/
def uidOf (object : K8sObject) : Option JStr := object.metadata.bind (·.uid)

/-- A result, with the load and the object that it was resolved for, which are not recorded. -/
structure Resolved (P : Type*) where
  load : ℕ
  object : K8sObject
  value : P
  deriving DecidableEq

structure OwnedPodsState (P E : Type*) where
  loading : Bool
  error : Option E
  result : Option (Resolved P)
  deriving DecidableEq

def IDLE {P E : Type*} : OwnedPodsState P E := ⟨false, none, none⟩

/-- A walk that has not ended: the number of its load, its object, and `kept`. -/
structure Walk (P : Type*) where
  id : ℕ
  object : K8sObject
  kept : Option (Resolved P)
  deriving DecidableEq

/-- The variables of `useOwnedPods`, with the object that was handed over last. -/
structure State (P E : Type*) where
  handed : Option K8sObject := none
  loadId : ℕ := 0
  lastUid : Option JStr := none
  state : OwnedPodsState P E := IDLE
  walks : List (Walk P) := []
  deriving DecidableEq

inductive Action (P E : Type*) where
  | hand (object : Option K8sObject)
  | resolved (id : ℕ) (result : Option P)
  | rejected (id : ℕ) (e : E)

namespace State
variable {P E : Type*}

/-- What stays of the last result for a load of `uid`. -/
def kept (s : State P E) (uid : Option JStr) : Option (Resolved P) :=
  if uid ≠ none ∧ uid = s.lastUid then s.state.result else none

/-- `load`, up to its walk. -/
def load (s : State P E) (handed : Option K8sObject) : State P E :=
  match handed.filter fun object => (podOwnerSpec object).isSome with
  | none => { s with handed, loadId := s.loadId + 1, lastUid := none, state := IDLE }
  | some object =>
    { handed
      loadId := s.loadId + 1
      lastUid := uidOf object
      state := ⟨true, none, s.kept (uidOf object)⟩
      walks := s.walks ++ [⟨s.loadId + 1, object, s.kept (uidOf object)⟩] }

def resolved (s : State P E) (w : Walk P) (result : Option P) : State P E :=
  if w.id ≠ s.loadId then s
  else { s with state := ⟨false, none, result.map fun value => ⟨w.id, w.object, value⟩⟩ }

def rejected (s : State P E) (w : Walk P) (e : E) : State P E :=
  if w.id ≠ s.loadId then s else { s with state := ⟨false, some e, w.kept⟩ }

/-- The walk is over. -/
def ended (s : State P E) (id : ℕ) : State P E :=
  { s with walks := s.walks.filter fun w => w.id ≠ id }

/-- A walk ends while it is under way. -/
def step (s : State P E) : Action P E → Option (State P E)
  | .hand object => some (s.load object)
  | .resolved id result =>
    (s.walks.find? fun w => w.id = id).map fun w => (s.resolved w result).ended id
  | .rejected id e => (s.walks.find? fun w => w.id = id).map fun w => (s.rejected w e).ended id

end State

def machine (P E : Type*) : Machine (State P E) (Action P E) where
  init s := s = {}
  step := State.step

/-! ## What is tracked -/

variable {P E : Type*} {s t : State P E}

/-- The object that was handed over last, where it owns pods. -/
def State.owner (s : State P E) : Option K8sObject :=
  s.handed.filter fun object => (podOwnerSpec object).isSome

/-- A result is one of the owner: of its own load, or of an object with its uid. -/
def State.Owns (s : State P E) (r : Resolved P) (object : K8sObject) : Prop :=
  (r.load = s.loadId ∧ r.object = object) ∨
    ∃ uid, uidOf object = some uid ∧ uidOf r.object = some uid

structure Tracked (s : State P E) : Prop where
  newest : ∀ w ∈ s.walks, w.id ≤ s.loadId
  latest : ∀ w ∈ s.walks, w.id = s.loadId → s.owner = some w.object ∧ w.kept = s.state.result
  lastUid : s.lastUid = s.owner.bind uidOf
  own : ∀ r ∈ s.state.result, ∃ object ∈ s.owner, s.Owns r object
  loading : s.state.loading = true ↔ ∃ w ∈ s.walks, w.id = s.loadId

/-- What is kept for an object was resolved for one with its uid. -/
theorem uid_kept (hs : Tracked s) {uid : Option JStr} {r : Resolved P} (hr : r ∈ s.kept uid) :
    ∃ u, uid = some u ∧ uidOf r.object = some u := by
  rw [State.kept] at hr
  split_ifs at hr with hkept
  · obtain ⟨hne, hlast⟩ := hkept
    obtain ⟨u, rfl⟩ := Option.ne_none_iff_exists'.mp hne
    obtain ⟨object, howner, howns⟩ := hs.own r hr
    rw [hs.lastUid, Option.mem_def.mp howner, Option.bind_some] at hlast
    refine ⟨u, rfl, ?_⟩
    rcases howns with ⟨-, hsame⟩ | ⟨u', hobject, hr'⟩
    · rw [hsame, ← hlast]
    · rw [hr', ← hobject, ← hlast]
  · cases hr

theorem load_of_owner {handed : Option K8sObject} {object : K8sObject}
    (h : (handed.filter fun object => (podOwnerSpec object).isSome) = some object) :
    s.load handed =
      { handed
        loadId := s.loadId + 1
        lastUid := uidOf object
        state := ⟨true, none, s.kept (uidOf object)⟩
        walks := s.walks ++ [⟨s.loadId + 1, object, s.kept (uidOf object)⟩] } := by
  rw [State.load, h]

theorem tracked_load (hs : Tracked s) (handed : Option K8sObject) : Tracked (s.load handed) := by
  have hnew {w : Walk P} (hw : w ∈ s.walks) : w.id ≠ s.loadId + 1 := by
    have := hs.newest w hw
    omega
  cases howner : handed.filter fun object => (podOwnerSpec object).isSome with
  | none =>
    rw [State.load, howner]
    exact
      { newest := fun w hw => Nat.le_succ_of_le (hs.newest w hw)
        latest := fun w hw hid => absurd hid (hnew hw)
        lastUid := by rw [State.owner, howner]; rfl
        own := fun r hr => by cases hr
        loading := iff_of_false Bool.false_ne_true fun ⟨w, hw, hid⟩ => hnew hw hid }
  | some object =>
    rw [load_of_owner howner]
    exact
      { newest := fun w hw => by
          rcases List.mem_append.mp hw with hw | hw
          · exact Nat.le_succ_of_le (hs.newest w hw)
          · rw [List.mem_singleton.mp hw]
        latest := fun w hw hid => by
          rcases List.mem_append.mp hw with hw | hw
          · exact absurd hid (hnew hw)
          · rw [List.mem_singleton.mp hw]
            exact ⟨howner, rfl⟩
        lastUid := by rw [State.owner, howner]; rfl
        own := fun r hr => ⟨object, howner, .inr (uid_kept hs hr)⟩
        loading := by
          refine iff_of_true rfl ⟨⟨s.loadId + 1, object, s.kept (uidOf object)⟩, ?_, rfl⟩
          exact List.mem_append_right _ (List.mem_singleton_self _) }

/-- A walk that was superseded ends without a trace. -/
theorem tracked_ended_stale (hs : Tracked s) {id : ℕ} (hid : id ≠ s.loadId) :
    Tracked (s.ended id) where
  newest w hw := hs.newest w (List.mem_of_mem_filter hw)
  latest w hw := hs.latest w (List.mem_of_mem_filter hw)
  lastUid := hs.lastUid
  own := hs.own
  loading := by
    refine hs.loading.trans (exists_congr fun w => and_congr_left fun hw => ?_)
    rw [State.ended, List.mem_filter, decide_eq_true_iff, hw]
    exact (and_iff_left hid.symm).symm

/-- The latest walk ends, and leaves a result of its own or what was kept. -/
theorem tracked_ended_latest (hs : Tracked s) {state : OwnedPodsState P E}
    (hloading : state.loading = false)
    (hown : ∀ r ∈ state.result, ∃ object ∈ s.owner, s.Owns r object) :
    Tracked ({ s with state }.ended s.loadId) := by
  have hgone {w : Walk P} (hw : w ∈ s.walks.filter fun w => w.id ≠ s.loadId) :
      w.id ≠ s.loadId := of_decide_eq_true (List.mem_filter.mp hw).2
  exact
    { newest := fun w hw => hs.newest w (List.mem_of_mem_filter hw)
      latest := fun w hw hid => absurd hid (hgone hw)
      lastUid := hs.lastUid
      own := hown
      loading := by
        refine iff_of_false (by rw [State.ended, hloading]; exact Bool.false_ne_true) ?_
        exact fun ⟨w, hw, hid⟩ => hgone hw hid }

theorem tracked_step {a : Action P E} (hs : Tracked s) (hstep : s.step a = some t) :
    Tracked t := by
  cases a with
  | hand object =>
    cases hstep
    exact tracked_load hs object
  | resolved id result =>
    obtain ⟨w, hw, rfl, rfl⟩ := exists_of_map_find? hstep
    by_cases hid : w.id = s.loadId
    · obtain ⟨howner, -⟩ := hs.latest w hw hid
      rw [hid, State.resolved, if_neg (not_not.mpr hid)]
      refine tracked_ended_latest hs rfl fun r hr => ?_
      obtain ⟨value, -, rfl⟩ := Option.map_eq_some_iff.mp hr
      exact ⟨w.object, howner, .inl ⟨hid, rfl⟩⟩
    · rw [State.resolved, if_pos hid]
      exact tracked_ended_stale hs hid
  | rejected id e =>
    obtain ⟨w, hw, rfl, rfl⟩ := exists_of_map_find? hstep
    by_cases hid : w.id = s.loadId
    · obtain ⟨-, hkept⟩ := hs.latest w hw hid
      rw [hid, State.rejected, if_neg (not_not.mpr hid)]
      refine tracked_ended_latest hs rfl fun r hr => hs.own r ?_
      rwa [← hkept]
    · rw [State.rejected, if_pos hid]
      exact tracked_ended_stale hs hid

theorem tracked_of_reachable (hs : (machine P E).Reachable s) : Tracked s := by
  refine hs.invariant (I := Tracked) ?_ fun s a t hs _ hstep => tracked_step hs hstep
  rintro _ rfl
  exact
    { newest := List.forall_mem_nil _
      latest := List.forall_mem_nil _
      lastUid := rfl
      own := fun r hr => by cases hr
      loading := iff_of_false Bool.false_ne_true fun ⟨w, hw, _⟩ => List.not_mem_nil hw }

/-! ## What is offered -/

/-- The load that an action ends. -/
def Action.ends : Action P E → Option ℕ
  | .hand _ => none
  | .resolved id _ => some id
  | .rejected id _ => some id

/-- A refresh of the object that has this uid, a walk that fails or one that was superseded. -/
def Refreshes (uid : JStr) (s : State P E) : Action P E → Prop
  | .hand handed =>
    ∃ object, handed = some object ∧ (podOwnerSpec object).isSome ∧ uidOf object = some uid
  | .resolved id _ => id ≠ s.loadId
  | .rejected _ _ => True

/-- A walk that was superseded writes nothing. -/
theorem step_superseded {a : Action P E} {id : ℕ} (ha : a.ends = some id) (hid : id ≠ s.loadId)
    (hstep : s.step a = some t) : t = s.ended id := by
  cases a with
  | hand object => cases ha
  | resolved id' result =>
    cases ha
    obtain ⟨w, -, rfl, rfl⟩ := exists_of_map_find? hstep
    rw [State.resolved, if_pos hid]
  | rejected id' e =>
    cases ha
    obtain ⟨w, -, rfl, rfl⟩ := exists_of_map_find? hstep
    rw [State.rejected, if_pos hid]

theorem step_refreshes {a : Action P E} {uid : JStr} {r : Resolved P} (hs : Tracked s)
    (huid : s.lastUid = some uid) (hr : s.state.result = some r) (ha : Refreshes uid s a)
    (hstep : s.step a = some t) : t.lastUid = some uid ∧ t.state.result = some r := by
  cases a with
  | hand handed =>
    cases hstep
    obtain ⟨object, rfl, hspec, hobject⟩ := ha
    have howner : ((some object).filter fun o => (podOwnerSpec o).isSome) = some object := by
      rw [Option.filter_some, if_pos hspec]
    rw [load_of_owner howner]
    refine ⟨hobject, ?_⟩
    change s.kept (uidOf object) = some r
    rw [State.kept, hobject, huid, if_pos ⟨Option.some_ne_none uid, rfl⟩, hr]
  | resolved id result =>
    rw [step_superseded rfl ha hstep]
    exact ⟨huid, hr⟩
  | rejected id e =>
    by_cases hid : id = s.loadId
    · obtain ⟨w, hw, rfl, rfl⟩ := exists_of_map_find? hstep
      rw [State.ended, State.rejected, if_neg (not_not.mpr hid)]
      exact ⟨huid, (hs.latest w hw hid).2.trans hr⟩
    · rw [step_superseded rfl hid hstep]
      exact ⟨huid, hr⟩

theorem exec_refreshes {as : List (Action P E)} {uid : JStr} {r : Resolved P} (hs : Tracked s)
    (huid : s.lastUid = some uid) (hr : s.state.result = some r)
    (ha : (machine P E).Along (Refreshes uid) s as) (hexec : (machine P E).exec s as = some t) :
    t.state.result = some r := by
  induction as generalizing s with
  | nil =>
    cases hexec
    exact hr
  | cons a as ih =>
    obtain ⟨u, hu, hexec⟩ := Option.bind_eq_some_iff.mp hexec
    obtain ⟨huid', hr'⟩ := step_refreshes hs huid hr ha.1 hu
    exact ih (tracked_step hs hu) huid' hr' (ha.2 u hu) hexec

structure Offered (s : State P E) : Prop where
  /-- A result is one of the object handed over last, or of one with its uid. -/
  own : ∀ r ∈ s.state.result, ∃ object ∈ s.handed, s.Owns r object
  /-- A result of the uid of now stays while refreshes load and when they fail. -/
  kept : ∀ object ∈ s.handed, ∀ uid, uidOf object = some uid → ∀ r, s.state.result = some r →
    ∀ as t, (machine P E).exec s as = some t → (machine P E).Along (Refreshes uid) s as →
      t.state.result = some r
  /-- A walk that was superseded writes nothing. -/
  superseded : ∀ a id t, a.ends = some id → id ≠ s.loadId → s.step a = some t →
    t.state = s.state ∧ t.lastUid = s.lastUid ∧ t.loadId = s.loadId
  loading : s.state.loading = true ↔ ∃ w ∈ s.walks, w.id = s.loadId

theorem offered_of_reachable (hs : (machine P E).Reachable s) : Offered s := by
  have htracked := tracked_of_reachable hs
  have howner {object : K8sObject} (h : object ∈ s.owner) : object ∈ s.handed :=
    (Option.filter_eq_some_iff.mp h).1
  refine
    { own := fun r hr => ?_
      kept := fun object hobject uid huid r hr as t hexec ha => ?_
      superseded := fun a id t ha hid hstep => ?_
      loading := htracked.loading }
  · obtain ⟨object, hobject, howns⟩ := htracked.own r hr
    exact ⟨object, howner hobject, howns⟩
  · obtain ⟨object', hobject', -⟩ := htracked.own r hr
    obtain rfl : object' = object := Option.some.inj ((howner hobject').symm.trans hobject)
    have hlast : s.lastUid = some uid := by
      rw [htracked.lastUid, Option.mem_def.mp hobject', Option.bind_some, huid]
    exact exec_refreshes htracked hlast hr ha hexec
  · rw [step_superseded ha hid hstep]
    exact ⟨rfl, rfl, rfl⟩

def deployment (uid : String) : K8sObject where
  kind := some (js "Deployment")
  apiVersion := some (js "apps/v1")
  metadata := some { uid := some (js uid) }

/-- A deployment whose pods are found, and its refresh that fails. -/
def reload : List (Action ℕ ℕ) :=
  [.hand (some (deployment "d1")), .resolved 1 (some 7), .hand (some (deployment "d1")),
    .rejected 2 500]

theorem offered_of_reachable_reload : ∃ s, (machine ℕ ℕ).exec {} reload = some s ∧
    s.state.result = some ⟨1, deployment "d1", 7⟩ ∧ Offered s := by
  obtain ⟨s, hs⟩ : ∃ s, (machine ℕ ℕ).exec {} reload = some s ∧
      s.state.result = some ⟨1, deployment "d1", 7⟩ := ⟨_, rfl, by decide +kernel⟩
  exact ⟨s, hs.1, hs.2, offered_of_reachable (.exec reload (.init rfl) hs.1)⟩

end KubeConsole.Web.OwnedPods
