import KubeConsole.Theory.Transition
import KubeConsole.Web.K8s

/-!
The object of the detail page (`useResourceObject.ts`) and the route that says which it is
(`ResourceDetailPage.vue`).

An action is one event of the page: a change of the route, with the refresh that its watch makes,
another refresh, or a request that settles.
-/
namespace KubeConsole.Web.ResourceObject
open KubeConsole.Theory

structure Target where
  ref : ResourceRef
  namespace_ : Option JStr
  name : JStr
  deriving DecidableEq

/-- `join("/")`. -/
def joinSlash (parts : List JStr) : JStr := (parts.intersperse (js "/")).flatten

def targetKey (t : Target) : JStr :=
  joinSlash [t.ref.group, t.ref.version, t.ref.resource, t.namespace_.getD [], t.name]

/-- A refresh whose request has not settled: its generation, and the target it was made for. -/
structure Refresh where
  gen : ℕ
  target : Target
  deriving DecidableEq

/-- An object, with the target that it was requested for, which the page does not record. -/
structure Fetched (O : Type*) where
  target : Target
  value : O
  deriving DecidableEq

/-- The page: what its route asks for, and the refs and variables of `useResourceObject`. -/
structure State (O E : Type*) where
  target : Option Target
  object : Option (Fetched O) := none
  loading : Bool := false
  error : Option E := none
  generation : ℕ := 0
  loadedKey : Option JStr := none
  pending : List Refresh := []
  deriving DecidableEq

inductive Action (O E : Type*) where
  | navigate (target : Target)
  | refresh
  | resolved (gen : ℕ) (result : O)
  | rejected (gen : ℕ) (e : E)

namespace State
variable {O E : Type*}

/-- `refresh`, up to its request. -/
def refresh (s : State O E) : State O E :=
  match s.target with
  | none => s
  | some target =>
    { s with
      generation := s.generation + 1
      loading := true
      error := none
      pending := s.pending ++ [⟨s.generation + 1, target⟩] }

/-- The refresh is over. -/
def settle (s : State O E) (gen : ℕ) : State O E :=
  { s with pending := s.pending.filter fun f => f.gen ≠ gen }

def resolved (s : State O E) (f : Refresh) (result : O) : State O E :=
  if f.gen ≠ s.generation then s
  else
    { s with
      object := some ⟨f.target, result⟩
      loadedKey := some (targetKey f.target)
      loading := false }

def rejected (s : State O E) (f : Refresh) (e : E) : State O E :=
  if f.gen ≠ s.generation then s
  else if s.loadedKey ≠ some (targetKey f.target) then
    { s with error := some e, object := none, loadedKey := none, loading := false }
  else { s with error := some e, loading := false }

/-- A request settles while it is pending. -/
def step (s : State O E) : Action O E → Option (State O E)
  | .navigate target => some { s with target := some target }.refresh
  | .refresh => some s.refresh
  | .resolved gen result =>
    (s.pending.find? fun f => f.gen = gen).map fun f => (s.resolved f result).settle gen
  | .rejected gen e =>
    (s.pending.find? fun f => f.gen = gen).map fun f => (s.rejected f e).settle gen

end State

variable {O E : Type*}

/-- The page as it is opened on some target, before its first refresh. -/
def opened (target : Target) : State O E where
  target := some target

def machine : Machine (State O E) (Action O E) where
  init s := ∃ target, s = opened target
  step := State.step

/-! ## What is tracked -/

/-- What holds of the variables in every run. -/
structure Tracked (s : State O E) : Prop where
  routed : s.target.isSome
  loaded : s.loadedKey = s.object.map fun o => targetKey o.target
  newest : ∀ f ∈ s.pending, f.gen ≤ s.generation
  latest : ∀ f ∈ s.pending, f.gen = s.generation → s.target = some f.target
  loading : s.loading = true ↔ ∃ f ∈ s.pending, f.gen = s.generation

variable {s t : State O E}

theorem tracked_refresh (target : Target)
    (hloaded : s.loadedKey = s.object.map fun o => targetKey o.target)
    (hnewest : ∀ f ∈ s.pending, f.gen ≤ s.generation) :
    Tracked { s with target := some target }.refresh where
  routed := rfl
  loaded := hloaded
  newest f hf := by
    rcases List.mem_append.mp hf with hf | hf
    · exact Nat.le_succ_of_le (hnewest f hf)
    · rw [List.mem_singleton.mp hf]
      exact le_rfl
  latest f hf hgen := by
    rcases List.mem_append.mp hf with hf | hf
    · exact absurd (hgen ▸ hnewest f hf) (Nat.not_succ_le_self _)
    · rw [List.mem_singleton.mp hf]
      rfl
  loading := by
    refine iff_of_true rfl ⟨⟨s.generation + 1, target⟩, ?_, rfl⟩
    exact List.mem_append_right _ (List.mem_singleton_self _)

/-- A refresh that is not the latest settles without a trace. -/
theorem tracked_settle_stale (hs : Tracked s) {gen : ℕ} (hgen : gen ≠ s.generation) :
    Tracked (s.settle gen) where
  routed := hs.routed
  loaded := hs.loaded
  newest f hf := hs.newest f (List.mem_of_mem_filter hf)
  latest f hf := hs.latest f (List.mem_of_mem_filter hf)
  loading := by
    refine hs.loading.trans (exists_congr fun f => and_congr_left fun hf => ?_)
    rw [State.settle, List.mem_filter, decide_eq_true_iff, hf]
    exact (and_iff_left hgen.symm).symm

/-- The latest refresh settles. -/
theorem tracked_settle_latest (hs : Tracked s) (htarget : t.target = s.target)
    (hgen : t.generation = s.generation) (hpending : t.pending = s.pending)
    (hloaded : t.loadedKey = t.object.map fun o => targetKey o.target)
    (hloading : t.loading = false) : Tracked (t.settle s.generation) where
  routed := by
    rw [State.settle, htarget]
    exact hs.routed
  loaded := hloaded
  newest f hf := by
    rw [State.settle, hpending] at hf
    exact (hs.newest f (List.mem_of_mem_filter hf)).trans_eq hgen.symm
  latest f hf hfgen := by
    rw [State.settle, hpending] at hf
    rw [State.settle, htarget]
    exact hs.latest f (List.mem_of_mem_filter hf) (hfgen.trans hgen)
  loading := by
    refine iff_of_false (by rw [State.settle, hloading]; exact Bool.false_ne_true) ?_
    rintro ⟨f, hf, hfgen⟩
    exact of_decide_eq_true (List.mem_filter.mp hf).2 (hfgen.trans hgen)

theorem tracked_step {a : Action O E} (hs : Tracked s) (hstep : s.step a = some t) :
    Tracked t := by
  cases a with
  | navigate target =>
    cases hstep
    exact tracked_refresh target hs.loaded hs.newest
  | refresh =>
    cases hstep
    obtain ⟨target, htarget⟩ := Option.isSome_iff_exists.mp hs.routed
    have hsame : { s with target := some target } = s := by rw [← htarget]
    exact hsame ▸ tracked_refresh target hs.loaded hs.newest
  | resolved gen result =>
    obtain ⟨f, hf, rfl, rfl⟩ := exists_of_map_find? hstep
    by_cases hgen : f.gen = s.generation
    · rw [hgen, State.resolved, if_neg (not_not.mpr hgen)]
      exact tracked_settle_latest hs rfl rfl rfl rfl rfl
    · rw [State.resolved, if_pos hgen]
      exact tracked_settle_stale hs hgen
  | rejected gen e =>
    obtain ⟨f, hf, rfl, rfl⟩ := exists_of_map_find? hstep
    by_cases hgen : f.gen = s.generation
    · rw [hgen, State.rejected, if_neg (not_not.mpr hgen)]
      by_cases hkey : s.loadedKey ≠ some (targetKey f.target)
      · rw [if_pos hkey]
        exact tracked_settle_latest hs rfl rfl rfl rfl rfl
      · rw [if_neg hkey]
        exact tracked_settle_latest hs rfl rfl rfl hs.loaded rfl
    · rw [State.rejected, if_pos hgen]
      exact tracked_settle_stale hs hgen

theorem tracked_of_reachable (hs : (machine (O := O) (E := E)).Reachable s) : Tracked s := by
  refine hs.invariant (I := Tracked) ?_ fun s a t hs _ hstep => tracked_step hs hstep
  rintro _ ⟨target, rfl⟩
  exact ⟨rfl, rfl, nofun, nofun, iff_of_false Bool.false_ne_true nofun⟩

/-! ## What is shown -/

/-- The generation of the refresh that an action settles. -/
def Action.settles : Action O E → Option ℕ
  | .resolved gen _ => some gen
  | .rejected gen _ => some gen
  | _ => none

/-- The object is one of the target that the route asks for. -/
def Own (s : State O E) : Prop := ∀ o ∈ s.object, s.target = some o.target

structure Shown (s : State O E) : Prop where
  own : Own s
  /-- A refresh that fails keeps an object of its own target. -/
  kept : ∀ gen e t, s.step (.rejected gen e) = some t → ∀ o ∈ s.object,
    (∀ f ∈ s.pending, f.gen = gen → f.target = o.target) → t.object = s.object
  /-- A refresh that is not the latest writes nothing. -/
  latest : ∀ a gen t, a.settles = some gen → gen ≠ s.generation → s.step a = some t →
    t.object = s.object ∧ t.error = s.error ∧ t.loading = s.loading
  loading : s.loading = true ↔ ∃ f ∈ s.pending, f.gen = s.generation

theorem shown_of_own (hs : Tracked s) (hown : Own s) : Shown s where
  own := hown
  kept gen e t hstep o ho htarget := by
    obtain ⟨f, hf, rfl, rfl⟩ := exists_of_map_find? hstep
    have hkey : s.loadedKey = some (targetKey f.target) := by
      rw [hs.loaded, Option.mem_def.mp ho, Option.map_some, htarget f hf rfl]
    rw [State.settle, State.rejected]
    split_ifs with hgen hne
    · rfl
    · exact absurd hkey hne
    · rfl
  latest a gen t ha hgen hstep := by
    cases a with
    | navigate target => cases ha
    | refresh => cases ha
    | resolved gen' result =>
      cases ha
      obtain ⟨f, hf, rfl, rfl⟩ := exists_of_map_find? hstep
      rw [State.settle, State.resolved, if_pos hgen]
      exact ⟨rfl, rfl, rfl⟩
    | rejected gen' e =>
      cases ha
      obtain ⟨f, hf, rfl, rfl⟩ := exists_of_map_find? hstep
      rw [State.settle, State.rejected, if_pos hgen]
      exact ⟨rfl, rfl, rfl⟩
  loading := hs.loading

theorem refresh_object (s : State O E) : s.refresh.object = s.object := by
  rw [State.refresh]
  cases s.target <;> rfl

theorem refresh_target (s : State O E) : s.refresh.target = s.target := by
  rw [State.refresh]
  cases htarget : s.target with
  | none => exact htarget
  | some target => rfl

/-- The target is changed while there is no object, or one of the new target. -/
def Clean (s : State O E) : Action O E → Prop
  | .navigate target => ∀ o ∈ s.object, o.target = target
  | _ => True

theorem own_step_iff {a : Action O E} (hs : Tracked s) (hown : Own s)
    (hstep : s.step a = some t) : Own t ↔ Clean s a := by
  cases a with
  | navigate target =>
    cases hstep
    rw [Own, refresh_object, refresh_target]
    exact forall₂_congr fun o _ => Option.some_inj.trans eq_comm
  | refresh =>
    cases hstep
    refine iff_of_true ?_ trivial
    rw [Own, refresh_object, refresh_target]
    exact hown
  | resolved gen result =>
    refine iff_of_true ?_ trivial
    obtain ⟨f, hf, rfl, rfl⟩ := exists_of_map_find? hstep
    rw [State.settle, State.resolved]
    split_ifs with hgen
    · exact hown
    · rintro _ ⟨⟩
      exact hs.latest f hf (not_not.mp hgen)
  | rejected gen e =>
    refine iff_of_true ?_ trivial
    obtain ⟨f, hf, rfl, rfl⟩ := exists_of_map_find? hstep
    rw [State.settle, State.rejected]
    split_ifs with hgen hkey
    · exact hown
    · exact nofun
    · exact hown

/-- All of it holds in every state of a run exactly when each change of the target meets the
condition. -/
theorem shown_iff_clean (target : Target) {as : List (Action O E)} {t : State O E}
    (ht : machine.exec (opened target) as = some t) :
    (∀ before u, before <+: as → machine.exec (opened target) before = some u → Shown u) ↔
      machine.Along Clean (opened target) as := by
  have hopened : (machine (O := O) (E := E)).Reachable (opened target) := .init ⟨target, rfl⟩
  refine Machine.forall_prefix_iff (fun s a t hs hshown hstep => ?_) hopened
    (shown_of_own (tracked_of_reachable hopened) nofun) ht
  have hown := own_step_iff (tracked_of_reachable hs) hshown.own hstep
  rw [← hown]
  exact ⟨Shown.own, shown_of_own (tracked_of_reachable (hs.next hstep))⟩

def podTarget (name : String) : Target := ⟨⟨[], js "v1", js "pods"⟩, some (js "default"), js name⟩

/-- A pod that is loaded, and its refresh that fails. -/
def reload : List (Action ℕ ℕ) := [.refresh, .resolved 1 7, .refresh, .rejected 2 500]

theorem shown_iff_clean_reload :
    (∀ before u, before <+: reload →
      machine.exec (opened (podTarget "a")) before = some u → Shown u) ↔
      machine.Along Clean (opened (podTarget "a")) reload := by
  obtain ⟨t, ht⟩ : ∃ t, machine.exec (opened (podTarget "a")) reload = some t := ⟨_, rfl⟩
  exact shown_iff_clean (podTarget "a") ht

/-- A pod that is loaded, and the way to another. -/
def crossing : List (Action ℕ ℕ) := [.refresh, .resolved 1 7, .navigate (podTarget "b")]

/-- Until it is loaded, the first pod is shown for the second. -/
theorem crossing_not_shown : ¬ ∀ before u, before <+: crossing →
    machine.exec (opened (podTarget "a")) before = some u → Shown u := by
  intro h
  have hown := (h crossing _ List.prefix_rfl rfl).own ⟨podTarget "a", 7⟩ rfl
  revert hown
  decide +kernel

end KubeConsole.Web.ResourceObject
