import KubeConsole.Web.ResourceList

/-!
What an operation of the resource list does, and what holds of its walks and its watch in
every run: one walk at most is the latest, and the watch is stopped while there is one.
-/
namespace KubeConsole.Web
open KubeConsole.Theory

/-! ## Operations -/

/-- What the start of any walk changes. -/
structure Bumped (s : ListPage) (kind : WalkKind) (s' : ListPage) : Prop where
  loadGen : s'.list.loadGen = s.list.loadGen + 1
  watch : s'.watch = s.watch.stop
  unmounted : s'.unmounted = s.unmounted
  epoch : s'.epoch = s.epoch
  getRef : s'.list.getRef = s.list.getRef
  getOptions : s'.list.getOptions = s.list.getOptions
  continueToken : s'.list.continueToken = s.list.continueToken
  resourceVersion : s'.list.resourceVersion = s.list.resourceVersion
  tokenOf : s'.list.tokenOf = s.list.tokenOf
  versionOf : s'.list.versionOf = s.list.versionOf
  paged : s'.list.paged = decide (kind ≠ .refresh)
  watchDegraded : kind ≠ .refresh → s'.list.watchDegraded = true

/-- A walk has begun. -/
structure Begun (s s' : ListPage) (t : ListTask) : Prop extends Bumped s t.kind s' where
  gen : t.gen = s.list.loadGen + 1
  taskEpoch : t.epoch = s.epoch
  walk : t.walk = .start t.opts
  pages : t.pages = []
  ref : s.list.getRef = some t.ref
  namespace_ : t.opts.namespace_ = s.list.getOptions.namespace_
  labelSelector : t.opts.labelSelector = s.list.getOptions.labelSelector
  rows : s'.list.rows = []
  error : s'.list.error = none
  lastWalk : s'.list.lastWalk = some t.selection
  loaded : t.kind = .refresh → s'.list.loadedNamespace = t.opts.namespace_ ∧
    s'.list.loadedLabelSelector = t.opts.labelSelector
  keep : t.kind = .refresh → t.opts.continueToken = some [] ∧ t.opts.keepRow = (fun _ => true) ∧
    t.opts.maxRows = none

/-- A load has found no resource. -/
structure NoRef (s : ListPage) (kind : WalkKind) (s' : ListPage) : Prop extends Bumped s kind s' where
  ref : s.list.getRef = none
  rows : s'.list.rows = s.list.rows
  indexByKey : s'.list.indexByKey = s.list.indexByKey
  lastWalk : s'.list.lastWalk = none
  loaded : s'.list.loadedNamespace = s.list.loadedNamespace ∧
    s'.list.loadedLabelSelector = s.list.loadedLabelSelector
  refresh : kind = .refresh → s'.list.watchDegraded = s.list.watchDegraded

/-- Where an operation calls one of the functions of the list, and from which state on. -/
inductive Calls (b : Browser) (s : ListPage) : ListThread → ListEvent → ListPage → Prop where
  | call {c : ListCall} : (∀ a, c ≠ .context a) → Calls b s (.called c) .run s
  | context : s.unmounted = false →
      Calls b s (.called (.context true)) .run { s with epoch := s.epoch + 1, watch := s.watch.stop }
  | stale {l : WatchLoop ListRequest} {i : WatchInput} {w : UseWatch ListRequest WatchEvent}
      {list : ResourceList} :
      LoopStep b.watchOptions s.watch s.list l i w list .stale →
      Calls b s (.watching l) (.input i) { s with watch := w, list }

/-- The operations that call `load`. -/
def ListPage.loads (b : Browser) (s : ListPage) : ListThread → Bool
  | .called .refresh => true
  | .called .nextPage => s.list.continueToken ≠ []
  | .called (.search query) => b.toLowerCase (trim query) = []
  | .called (.context authenticated) => authenticated && !s.unmounted
  | .watching ⟨gen, .settled _ .stale⟩ => s.watch.current gen
  | _ => false

/-- The thread of a walk that has ended. -/
def ListTask.after (t : ListTask) : ListThread :=
  if t.kind = .refresh then .loaded t.gen t.epoch else .returned

/-- The operations, one constructor for each thing that one can do. -/
inductive ListOp (b : Browser) (s : ListPage) :
    ListThread → ListEvent → ListPage → ListThread → Prop where
  | select (ref : Option ResourceRef) (options : ResourceListOptions) :
      ListOp b s .page (.select ref options)
        { s with list := { s.list with getRef := ref, getOptions := options } } .page
  | stopWatch : ListOp b s .page .stopWatch { s with watch := s.watch.stop } .page
  | unmount : ListOp b s .page .unmount { s with unmounted := true, watch := s.watch.stop } .page
  | idle {c : ListCall} : (∀ a, c ≠ .context a) → ListOp b s (.called c) .run s .returned
  | disposed {a : Bool} : s.unmounted = true →
      ListOp b s (.called (.context a)) .run { s with epoch := s.epoch + 1 } .returned
  | signedOut : s.unmounted = false → ListOp b s (.called (.context false)) .run
      { s with epoch := s.epoch + 1, watch := s.watch.stop } .returned
  | walk {c : ListThread} {e : ListEvent} {s₁ s' : ListPage} {t : ListTask} :
      Calls b s c e s₁ → Begun s₁ s' t → ListOp b s c e s' (.walking t)
  | noRef {c : ListThread} {e : ListEvent} {s₁ s' : ListPage} {kind : WalkKind} :
      Calls b s c e s₁ → s.loads b c = true → NoRef s₁ kind s' →
      ListOp b s c e s' (if kind = .refresh then .loaded s'.list.loadGen s'.epoch else .returned)
  | response (t : ListTask) (r : Except Thrown ListBody) :
      ListOp b s (.walking t) (.response r) s (s.onResponse t r)
  | superseded {t : ListTask} (outcome : Except Thrown WalkResult) : t.gen ≠ s.list.loadGen →
      ListOp b s (.walked t outcome) .run s t.after
  | assign {t : ListTask} (outcome : Except Thrown WalkResult) : t.gen = s.list.loadGen →
      ListOp b s (.walked t outcome) .run { s with list := s.assign t outcome } t.after
  | late {gen epoch : ℕ} : gen ≠ s.list.loadGen → ListOp b s (.loaded gen epoch) .run s .returned
  | watch {gen epoch : ℕ} : gen = s.list.loadGen → s.watchable = true →
      ListOp b s (.loaded gen epoch) .run
        { s with
          list := { s.list with watchDegraded := false }
          watch := (s.watch.start b.watchOptions { s.list with watchDegraded := false }).1 }
        (.watching (s.watch.start b.watchOptions { s.list with watchDegraded := false }).2)
  | degrade {gen epoch : ℕ} : gen = s.list.loadGen → s.watchable = false →
      ListOp b s (.loaded gen epoch) .run { s with list := { s.list with watchDegraded := true } }
        .returned
  | loop {l l' : WatchLoop ListRequest} {i : WatchInput} {w : UseWatch ListRequest WatchEvent}
      {list : ResourceList} :
      LoopStep b.watchOptions s.watch s.list l i w list (.loop l') →
      ListOp b s (.watching l) (.input i) { s with watch := w, list } (.watching l')
  | ended {l : WatchLoop ListRequest} {i : WatchInput} {w : UseWatch ListRequest WatchEvent}
      {list : ResourceList} :
      LoopStep b.watchOptions s.watch s.list l i w list .ended →
      ListOp b s (.watching l) (.input i) { s with watch := w, list } .returned

variable {b : Browser} {s s' s₁ : ListPage} {c c' : ListThread} {e : ListEvent}

/-- `load` begins a walk, or finds no resource. -/
theorem load_spec (s : ListPage) (kind : WalkKind) (continueFrom : JStr) :
    (∃ t list, s.load kind continueFrom = ({ s with list }, .walking t) ∧ t.kind = kind ∧
      t.gen = s.list.loadGen + 1 ∧ t.epoch = s.epoch ∧ t.walk = .start t.opts ∧ t.pages = [] ∧
      s.list.getRef = some t.ref ∧ t.opts.namespace_ = s.list.getOptions.namespace_ ∧
      t.opts.labelSelector = s.list.getOptions.labelSelector ∧
      t.opts.continueToken = some continueFrom ∧ t.opts.keepRow = (fun _ => true) ∧
      t.opts.maxRows = none ∧
      list = { s.list.setRows [] with
        loadGen := t.gen
        loadedNamespace := t.opts.namespace_
        loadedLabelSelector := t.opts.labelSelector
        loading := true
        error := none
        columns := []
        lastWalk := some t.selection }) ∨
    s.list.getRef = none ∧ s.load kind continueFrom =
      ({ s with list := { s.list with loadGen := s.list.loadGen + 1, lastWalk := none } },
        if kind = .refresh then .loaded (s.list.loadGen + 1) s.epoch else .returned) := by
  unfold ListPage.load
  cases href : s.list.getRef with
  | none => exact .inr ⟨rfl, rfl⟩
  | some ref =>
    exact .inl ⟨_, _, rfl, rfl, rfl, rfl, rfl, rfl, rfl, rfl, rfl, rfl, rfl, rfl, rfl⟩

theorem refresh_op {p : ListPage × ListThread} (hcalls : Calls b s c e s₁)
    (hloads : s.loads b c = true) (h : s₁.refresh = p) : ListOp b s c e p.1 p.2 := by
  subst h
  unfold ListPage.refresh
  rcases load_spec { s₁ with
      list := { s₁.list with paged := false, searchQuery := none, searchTruncated := false }
      watch := s₁.watch.stop } .refresh [] with
    ⟨t, list, heq, hkind, hgen, hepoch, hwalk, hpages, href, hns, hsel, htoken, hkeep, hmax, hlist⟩ |
    ⟨href, heq⟩
  · rw [heq]
    refine .walk hcalls ?_
    subst hlist
    constructor
    · constructor
      · exact hgen
      · rfl
      · rfl
      · rfl
      · rfl
      · rfl
      · rfl
      · rfl
      · rfl
      · rfl
      · simp only [hkind]
        rfl
      · exact fun hne => absurd hkind hne
    · exact hgen
    · exact hepoch
    · exact hwalk
    · exact hpages
    · exact href
    · exact hns
    · exact hsel
    · rfl
    · rfl
    · rfl
    · exact fun _ => ⟨rfl, rfl⟩
    · exact fun _ => ⟨htoken, hkeep, hmax⟩
  · rw [heq]
    refine @ListOp.noRef _ _ _ _ _ _ .refresh hcalls hloads ?_
    exact ⟨⟨rfl, rfl, rfl, rfl, rfl, rfl, rfl, rfl, rfl, rfl, rfl, nofun⟩, href, rfl, rfl, rfl,
      ⟨rfl, rfl⟩, fun _ => rfl⟩

theorem nextPage_op (h : s.list.continueToken ≠ []) :
    ListOp b s (.called .nextPage) .run s.nextPage.1 s.nextPage.2 := by
  have hcalls : Calls b s (.called .nextPage) .run s := .call nofun
  unfold ListPage.nextPage
  rw [if_neg h]
  rcases load_spec { s with
      list := { s.list with paged := true, watchDegraded := true }
      watch := s.watch.stop } .page s.list.continueToken with
    ⟨t, list, heq, hkind, hgen, hepoch, hwalk, hpages, href, hns, hsel, -, -, -, hlist⟩ |
    ⟨href, heq⟩
  · rw [heq]
    refine .walk hcalls ?_
    subst hlist
    have hne : t.kind ≠ .refresh := by simp [hkind]
    exact
      { loadGen := hgen, watch := rfl, unmounted := rfl, epoch := rfl, getRef := rfl
        getOptions := rfl, continueToken := rfl, resourceVersion := rfl, tokenOf := rfl
        versionOf := rfl, paged := (decide_eq_true hne).symm, watchDegraded := fun _ => rfl
        gen := hgen, taskEpoch := hepoch, walk := hwalk, pages := hpages, ref := href
        namespace_ := hns, labelSelector := hsel, rows := rfl, error := rfl, lastWalk := rfl
        loaded := fun _ => ⟨rfl, rfl⟩, keep := fun hk => absurd hk hne }
  · rw [heq]
    refine @ListOp.noRef _ _ _ _ _ _ .page hcalls (decide_eq_true h) ?_
    exact
      { loadGen := rfl, watch := rfl, unmounted := rfl, epoch := rfl, getRef := rfl
        getOptions := rfl, continueToken := rfl, resourceVersion := rfl, tokenOf := rfl
        versionOf := rfl, paged := rfl, watchDegraded := fun _ => rfl, ref := href, rows := rfl
        indexByKey := rfl, lastWalk := rfl, loaded := ⟨rfl, rfl⟩, refresh := nofun }

theorem search_op (query : JStr) :
    ListOp b s (.called (.search query)) .run (s.searchAllByName b query).1
      (s.searchAllByName b query).2 := by
  have hcalls : Calls b s (.called (.search query)) .run s := .call nofun
  unfold ListPage.searchAllByName
  dsimp only
  split_ifs with hempty hcomplete
  · exact refresh_op hcalls (decide_eq_true hempty) rfl
  · exact .idle nofun
  · cases href : s.list.getRef with
    | none => exact .idle nofun
    | some ref =>
      refine .walk hcalls ?_
      exact
        { loadGen := rfl, watch := rfl, unmounted := rfl, epoch := rfl, getRef := rfl
          getOptions := rfl, continueToken := rfl, resourceVersion := rfl, tokenOf := rfl
          versionOf := rfl, paged := rfl, watchDegraded := fun _ => rfl, gen := rfl
          taskEpoch := rfl, walk := rfl, pages := rfl, ref := href, namespace_ := rfl
          labelSelector := rfl, rows := rfl, error := rfl, lastWalk := rfl, loaded := nofun
          keep := nofun }

theorem ListOp.congr {p : ListPage × ListThread} (h : ListOp b s c e p.1 p.2) (hp : p = (s', c')) :
    ListOp b s c e s' c' := by
  subst hp
  exact h

theorem context_op (a : Bool) :
    ListOp b s (.called (.context a)) .run (s.context a).1 (s.context a).2 := by
  unfold ListPage.context
  dsimp only
  split_ifs with hunmounted ha
  · exact .disposed hunmounted
  · subst ha
    have hmounted := Bool.eq_false_of_not_eq_true hunmounted
    exact refresh_op (.context hmounted) (by simp [ListPage.loads, hmounted]) rfl
  · cases a with
    | true => exact absurd rfl ha
    | false => exact .signedOut (Bool.eq_false_of_not_eq_true hunmounted)

theorem call_op (s : ListPage) (call : ListCall) :
    ListOp b s (.called call) .run (s.call b call).1 (s.call b call).2 := by
  cases call with
  | refresh => exact refresh_op (.call nofun) rfl rfl
  | nextPage =>
    by_cases htoken : s.list.continueToken = []
    · have hidle : s.nextPage = (s, .returned) := if_pos htoken
      show ListOp b s _ _ s.nextPage.1 s.nextPage.2
      rw [hidle]
      exact .idle nofun
    · exact nextPage_op htoken
  | search query => exact search_op query
  | context a => exact context_op a

theorem afterLoad_op (s : ListPage) (gen epoch : ℕ) :
    ListOp b s (.loaded gen epoch) .run (s.afterLoad b gen).1 (s.afterLoad b gen).2 := by
  unfold ListPage.afterLoad
  split_ifs with hgen hwatch
  · exact .late hgen
  · exact .watch (not_not.mp hgen) hwatch
  · exact .degrade (not_not.mp hgen) (Bool.eq_false_of_not_eq_true hwatch)

theorem list_op (h : ListPage.op b s c e = some (s', c')) : ListOp b s c e s' c' := by
  cases c with
  | page =>
    cases e with
    | select ref options =>
      cases h
      exact .select ref options
    | stopWatch =>
      cases h
      exact .stopWatch
    | unmount =>
      cases h
      exact .unmount
    | _ => cases h
  | called call =>
    cases e with
    | run => exact (call_op s call).congr (Option.some.inj h)
    | _ => cases h
  | walking t =>
    cases e with
    | response r =>
      cases h
      exact .response t r
    | _ => cases h
  | walked t outcome =>
    cases e with
    | run =>
      cases h
      by_cases hgen : t.gen = s.list.loadGen
      · rw [if_neg (not_not.mpr hgen)]
        exact .assign outcome hgen
      · rw [if_pos hgen]
        exact .superseded outcome hgen
    | _ => cases h
  | loaded gen epoch =>
    cases e with
    | run => exact (afterLoad_op s gen epoch).congr (Option.some.inj h)
    | _ => cases h
  | watching l =>
    cases e with
    | input i =>
      obtain ⟨⟨w, list, after⟩, hstep, heq⟩ := Option.map_eq_some_iff.mp h
      have hloop := loop_step hstep
      cases after with
      | loop l' =>
        cases heq
        exact .loop hloop
      | ended =>
        cases heq
        exact .ended hloop
      | stale =>
        have hloads : s.loads b (.watching l) = true := by
          obtain ⟨gen, pc⟩ := l
          cases hloop with
          | stale hpc hcurrent =>
            subst hpc
            exact hcurrent
        exact refresh_op (.stale hloop) hloads heq
    | _ => cases h
  | returned => cases h

/-! ## The watch of a list -/

def ListThread.loop : ListThread → Option (WatchLoop ListRequest)
  | .watching l => some l
  | _ => none

/-- The generation of a load or search that has not ended. -/
def ListThread.gen : ListThread → Option ℕ
  | .walking t | .walked t _ => some t.gen
  | .loaded gen _ => some gen
  | _ => none

def ListThread.kind : ListThread → Option WalkKind
  | .walking t | .walked t _ => some t.kind
  | .loaded _ _ => some .refresh
  | _ => none

/-- The number of context changes before a load or search began. -/
def ListThread.epoch : ListThread → Option ℕ
  | .walking t | .walked t _ => some t.epoch
  | .loaded _ epoch => some epoch
  | _ => none

theorem ListTask.loop_after (t : ListTask) : t.after.loop = none := by
  unfold ListTask.after
  split_ifs <;> rfl

theorem ListPage.loop_onResponse (t : ListTask) (r : Except Thrown ListBody) :
    (s.onResponse t r).loop = none ∧ (s.onResponse t r).gen = some t.gen ∧
      (s.onResponse t r).kind = some t.kind ∧ (s.onResponse t r).epoch = some t.epoch := by
  cases r with
  | error e => exact ⟨rfl, rfl, rfl, rfl⟩
  | ok body =>
    unfold ListPage.onResponse
    dsimp only
    split_ifs <;> exact ⟨rfl, rfl, rfl, rfl⟩

theorem Calls.move (h : Calls b s c e s₁) :
    WatchMove b.watchOptions s.watch c.loop s₁.watch none := by
  cases h with
  | call _ => exact .same
  | context _ => exact .stop .same
  | stale hstep => exact .step hstep

theorem ListOp.move (h : ListOp b s c e s' c') :
    WatchMove b.watchOptions s.watch c.loop s'.watch c'.loop := by
  cases h with
  | stopWatch => exact .stop .same
  | unmount => exact .stop .same
  | signedOut _ => exact .stop .same
  | walk hcalls hbegun =>
    rw [hbegun.watch]
    exact .stop hcalls.move
  | noRef hcalls _ hnone =>
    rw [hnone.watch]
    split_ifs <;> exact .stop hcalls.move
  | response t r =>
    rw [(ListPage.loop_onResponse t r).1]
    exact .same
  | superseded _ _ =>
    rw [ListTask.loop_after]
    exact .same
  | assign _ _ =>
    rw [ListTask.loop_after]
    exact .same
  | watch _ _ => exact .start _
  | loop hstep => exact .step hstep
  | ended hstep => exact .step hstep
  | _ => exact .same

/-- The watch of the list, and the threads that run its loops. -/
def listHost (b : Browser) : WatchHost b.watchOptions (useResourceList b) where
  watch := ListPage.watch
  loop := ListThread.loop
  start _ := rfl
  move _ _ _ _ _ hop := (list_op hop).move

/-! ## Generations -/

/-- What the events of a watch leave alone. -/
theorem handleEvent_spec (l : ResourceList) (event : WatchEvent) :
    ∃ rows indexByKey resourceVersion, l.handleEvent event =
        { l with rows, indexByKey, resourceVersion } ∧
      (l.resourceVersion ≠ [] → resourceVersion ≠ []) := by
  have hversion : ∃ v, l.withVersion event.object.version = { l with resourceVersion := v } ∧
      (l.resourceVersion ≠ [] → v ≠ []) := by
    unfold ResourceList.withVersion
    split_ifs with hv
    · exact ⟨_, rfl, fun _ => hv⟩
    · exact ⟨_, rfl, id⟩
  obtain ⟨v, heq, hv⟩ := hversion
  unfold ResourceList.handleEvent
  rw [heq]
  split_ifs with hbookmark
  · exact ⟨_, _, _, rfl, hv⟩
  · unfold ResourceList.upsertRows
    split_ifs <;> exact ⟨_, _, _, rfl, hv⟩

theorem handleEvents_spec (events : List WatchEvent) (l : ResourceList) :
    ∃ rows indexByKey resourceVersion, events.foldl ResourceList.handleEvent l =
        { l with rows, indexByKey, resourceVersion } ∧
      (l.resourceVersion ≠ [] → resourceVersion ≠ []) := by
  induction events generalizing l with
  | nil => exact ⟨_, _, _, rfl, id⟩
  | cons event events ih =>
    obtain ⟨rows, index, v, heq, hv⟩ := handleEvent_spec l event
    obtain ⟨rows', index', v', heq', hv'⟩ := ih (l.handleEvent event)
    refine ⟨rows', index', v', ?_, fun h => hv' ?_⟩
    · rw [List.foldl_cons, heq', heq]
    · rw [heq]
      exact hv h

/-- A loop changes of the list only what events do, and that only where its attempt is not
aborted. -/
theorem loopStep_list {l : WatchLoop ListRequest} {i : WatchInput}
    {w' : UseWatch ListRequest WatchEvent} {list : ResourceList} {after : WatchAfter ListRequest}
    (h : LoopStep b.watchOptions s.watch s.list l i w' list after) :
    list = s.list ∨ (∃ n text, l.pc.attempt = some n ∧ n ∉ s.watch.aborted ∧ i = .chunk text) ∧
      ∃ rows indexByKey resourceVersion, list =
          { s.list with rows, indexByKey, resourceVersion } ∧
        (s.list.resourceVersion ≠ [] → resourceVersion ≠ []) := by
  cases h with
  | feed hpc ha _ =>
    exact .inr ⟨⟨_, _, by rw [hpc]; rfl, ha, rfl⟩, handleEvents_spec _ _⟩
  | _ => exact .inl rfl

/-- What a loop leaves of the list. -/
theorem loopStep_frame {l : WatchLoop ListRequest} {i : WatchInput}
    {w' : UseWatch ListRequest WatchEvent} {list : ResourceList} {after : WatchAfter ListRequest}
    (h : LoopStep b.watchOptions s.watch s.list l i w' list after) :
    list.loadGen = s.list.loadGen ∧ list.lastWalk = s.list.lastWalk ∧
      list.paged = s.list.paged ∧ list.watchDegraded = s.list.watchDegraded ∧
      list.continueToken = s.list.continueToken ∧
      (s.list.resourceVersion ≠ [] → list.resourceVersion ≠ []) := by
  rcases loopStep_list h with rfl | ⟨-, _, _, _, rfl, hversion⟩
  · exact ⟨rfl, rfl, rfl, rfl, rfl, id⟩
  · exact ⟨rfl, rfl, rfl, rfl, rfl, hversion⟩

theorem Calls.list (h : Calls b s c e s₁) : s₁.list = s.list ∧ s₁.unmounted = s.unmounted := by
  cases h with
  | call _ => exact ⟨rfl, rfl⟩
  | context _ => exact ⟨rfl, rfl⟩
  | stale hstep =>
    cases hstep
    exact ⟨rfl, rfl⟩

/-- Where a walk begins the generation is the next one. -/
theorem Calls.bumped {s' : ListPage} {kind : WalkKind} (h : Calls b s c e s₁)
    (hbumped : Bumped s₁ kind s') : s'.list.loadGen = s.list.loadGen + 1 := by
  rw [hbumped.loadGen, h.list.1]

/-- Only the start of a walk makes a new generation, and it stops the watch. -/
theorem ListOp.gens (h : ListOp b s c e s' c') :
    s'.list.loadGen = s.list.loadGen ∧ (∀ g, c'.gen = some g → c.gen = some g ∧ c'.kind = c.kind) ∨
      s'.list.loadGen = s.list.loadGen + 1 ∧ (∀ g, c'.gen = some g → g = s'.list.loadGen) ∧
        s'.watch.stopped = true ∧ c.gen = none ∧ ∃ kind s₁, Calls b s c e s₁ ∧ Bumped s₁ kind s' ∧
          ∀ k, c'.kind = some k → k = kind := by
  cases h with
  | walk hcalls hbegun =>
    refine .inr ⟨hcalls.bumped hbegun.toBumped, fun g hg => ?_, ?_, by cases hcalls <;> rfl, _, _,
      hcalls, hbegun.toBumped, fun k hk => by cases hk; rfl⟩
    · cases hg
      rw [hbegun.gen, hbegun.loadGen]
    · rw [hbegun.watch]
      rfl
  | @noRef _ _ s₁ _ kind hcalls _ hnone =>
    refine .inr ⟨hcalls.bumped hnone.toBumped, fun g hg => ?_, ?_, by cases hcalls <;> rfl, kind, s₁,
      hcalls, hnone.toBumped, fun k hk => ?_⟩
    · split_ifs at hg
      · cases hg
        rfl
      · cases hg
    · rw [hnone.watch]
      rfl
    · split_ifs at hk with hkind
      · cases hk
        exact hkind.symm
      · cases hk
  | response t r =>
    obtain ⟨-, hgen, hkind, -⟩ := ListPage.loop_onResponse (s := s) t r
    refine .inl ⟨rfl, fun g hg => ⟨hgen.symm.trans hg, hkind⟩⟩
  | @superseded t _ _ =>
    refine .inl ⟨rfl, fun g hg => ?_⟩
    unfold ListTask.after at hg ⊢
    split_ifs at hg ⊢ with hkind
    · exact ⟨hg, by rw [ListThread.kind, ListThread.kind, hkind]⟩
    · cases hg
  | @assign t outcome _ =>
    refine .inl ⟨by cases outcome <;> rfl, fun g hg => ?_⟩
    unfold ListTask.after at hg ⊢
    split_ifs at hg ⊢ with hkind
    · exact ⟨hg, by rw [ListThread.kind, ListThread.kind, hkind]⟩
    · cases hg
  | loop hstep => exact .inl ⟨(loopStep_frame hstep).1, nofun⟩
  | ended hstep => exact .inl ⟨(loopStep_frame hstep).1, nofun⟩
  | _ => exact .inl ⟨rfl, nofun⟩

/-- What leaves the watch running: it ran before, or the latest refresh starts it. -/
theorem ListOp.running (h : ListOp b s c e s' c') (hrun : s'.watch.stopped = false) :
    s'.list.loadGen = s.list.loadGen ∧ (s.watch.stopped = false ∨
      ∃ epoch, c = .loaded s.list.loadGen epoch ∧ e = .run ∧ c'.gen = none ∧
        s.watchable = true ∧ s'.list = { s.list with watchDegraded := false }) := by
  have hgens := h.gens
  rcases hgens with ⟨hsame, -⟩ | ⟨-, -, hstopped, -⟩
  · refine ⟨hsame, ?_⟩
    cases h with
    | watch hgen hwatch =>
      subst hgen
      exact .inr ⟨_, rfl, rfl, rfl, hwatch, rfl⟩
    | stopWatch => cases hrun
    | unmount => cases hrun
    | signedOut _ => cases hrun
    | walk hcalls hbegun =>
      rw [hbegun.watch] at hrun
      cases hrun
    | noRef hcalls _ hnone =>
      rw [hnone.watch] at hrun
      cases hrun
    | loop hstep => exact .inl (by cases hstep <;> exact hrun)
    | ended hstep => exact .inl (by cases hstep <;> exact hrun)
    | _ => exact .inl hrun
  · rw [hstopped] at hrun
    cases hrun

section
variable {ref : Option ResourceRef} {options : ResourceListOptions}
  {p : Pool ListPage ListThread}

theorem list_fresh : (listHost b).Fresh (mountedList ref options) :=
  ⟨⟨nofun, nofun, fun _ _ => rfl⟩, fun c hc => by rw [List.mem_singleton.mp hc]; rfl⟩

theorem list_held (hp : (resourceList b ref options).Reachable p) :
    ∀ c ∈ p.threads, (listHost b).Held p.shared c :=
  WatchHost.held list_fresh hp

/-- No walk is of a generation to come. -/
def Generated (s : ListPage) (c : ListThread) : Prop := ∀ g, c.gen = some g → g ≤ s.list.loadGen

/-- Different walks are of different generations. -/
def ApartGens (c d : ListThread) : Prop := ∀ g, c.gen = some g → d.gen ≠ some g

theorem list_generated (hp : (resourceList b ref options).Reachable p) :
    ∀ c ∈ p.threads, Generated p.shared c := by
  refine Program.forall_threads_stable ?_ (fun s b => nofun) ?_ ?_ hp
  · intro c hc
    rw [List.mem_singleton.mp hc]
    exact nofun
  · intro s c e s' c' hI hop g hg
    rcases (list_op hop).gens with ⟨hsame, hback⟩ | ⟨-, hnew, -⟩
    · rw [hsame]
      exact hI g (hback g hg).1
    · exact (hnew g hg).le
  · intro s c e s' c' d hI hop g hg
    have hle := hI g hg
    rcases (list_op hop).gens with ⟨hsame, -⟩ | ⟨hsucc, -⟩ <;> omega

theorem list_apart (hp : (resourceList b ref options).Reachable p) :
    p.threads.Pairwise ApartGens := by
  refine Program.pairwise_threads (I := Generated) (fun c d h g hg hg' => h g hg' hg)
    (fun p => list_generated) (List.pairwise_singleton _ _) (fun b d g _ hb => by cases hb) ?_ hp
  intro s c e s' c' d _ hd hcd hop g hg hdg
  rcases (list_op hop).gens with ⟨-, hback⟩ | ⟨hsucc, hnew, -⟩
  · exact hcd g (hback g hg).1 hdg
  · have hle := hd g hdg
    have heq := hnew g hg
    omega

/-- No walk is the latest while the watch runs. -/
def Quiet (s : ListPage) (c : ListThread) : Prop :=
  s.watch.stopped = false → c.gen ≠ some s.list.loadGen

theorem list_quiet (hp : (resourceList b ref options).Reachable p) :
    ∀ c ∈ p.threads, Quiet p.shared c := by
  refine Program.forall_threads_apart (R := ApartGens) (K := fun _ _ => True)
    (fun c d h g hg hg' => h g hg' hg) (fun p => list_apart) (fun _ _ _ _ => trivial) ?_
    (fun s b _ => nofun) ?_ ?_ hp
  · intro c hc
    rw [List.mem_singleton.mp hc]
    exact fun _ => nofun
  · intro s c e s' c' _ hI hop hrun hlatest
    have hstep := list_op hop
    obtain ⟨hsame, hran | ⟨-, -, -, hnone, -⟩⟩ := hstep.running hrun
    · rcases hstep.gens with ⟨-, hback⟩ | ⟨hsucc, -⟩
      · exact hI hran (hsame ▸ (hback _ hlatest).1)
      · omega
    · rw [hnone] at hlatest
      cases hlatest
  · intro s c e s' c' d _ _ hcd _ hd hop hrun hlatest
    obtain ⟨hsame, hran | ⟨epoch, rfl, -⟩⟩ := (list_op hop).running hrun
    · exact hd hran (hsame ▸ hlatest)
    · rw [hsame] at hlatest
      exact hcd _ rfl hlatest

/-- What the latest walk has set. -/
def Flagged (s : ListPage) (c : ListThread) : Prop :=
  ∀ k, c.gen = some s.list.loadGen → c.kind = some k →
    s.list.paged = decide (k ≠ .refresh) ∧ (k ≠ .refresh → s.list.watchDegraded = true)

/-- Unless a walk begins, `paged` stays, and only the latest refresh takes the flag back. -/
theorem ListOp.flags (h : ListOp b s c e s' c') (hsame : s'.list.loadGen = s.list.loadGen) :
    s'.list.paged = s.list.paged ∧ (s'.list.watchDegraded = s.list.watchDegraded ∨
      s'.list.watchDegraded = true ∨ c.gen = some s.list.loadGen ∧ c'.gen = none) := by
  cases h with
  | walk hcalls hbegun =>
    have hnext := hcalls.bumped hbegun.toBumped
    omega
  | noRef hcalls _ hnone =>
    have hnext := hcalls.bumped hnone.toBumped
    omega
  | assign outcome _ => exact ⟨by cases outcome <;> rfl, .inl (by cases outcome <;> rfl)⟩
  | watch hgen _ => exact ⟨rfl, .inr (.inr ⟨congrArg some hgen, rfl⟩)⟩
  | degrade _ _ => exact ⟨rfl, .inr (.inl rfl)⟩
  | loop hstep =>
    obtain ⟨-, -, hpaged, hdegraded, -⟩ := loopStep_frame hstep
    exact ⟨hpaged, .inl hdegraded⟩
  | ended hstep =>
    obtain ⟨-, -, hpaged, hdegraded, -⟩ := loopStep_frame hstep
    exact ⟨hpaged, .inl hdegraded⟩
  | _ => exact ⟨rfl, .inl rfl⟩

theorem list_flagged (hp : (resourceList b ref options).Reachable p) :
    ∀ c ∈ p.threads, Flagged p.shared c := by
  refine Program.forall_threads_apart (R := ApartGens) (K := Generated)
    (fun c d h g hg hg' => h g hg' hg) (fun p => list_apart) (fun p => list_generated) ?_
    (fun s b k => nofun) ?_ ?_ hp
  · intro c hc
    rw [List.mem_singleton.mp hc]
    exact fun _ => nofun
  · intro s c e s' c' _ hI hop k hlatest hkind
    have hstep := list_op hop
    rcases hstep.gens with ⟨hsame, hback⟩ | ⟨-, -, -, -, kind, s₁, -, hbumped, hk⟩
    · obtain ⟨hgen, hkinds⟩ := hback _ hlatest
      rw [hsame] at hgen
      obtain ⟨hpaged, hdegraded⟩ := hI k hgen (hkinds ▸ hkind)
      obtain ⟨hp', hd'⟩ := hstep.flags hsame
      refine ⟨hp'.trans hpaged, fun hne => ?_⟩
      rcases hd' with heq | heq | ⟨-, hnone⟩
      · exact heq.trans (hdegraded hne)
      · exact heq
      · rw [hnone] at hlatest
        cases hlatest
    · rw [hk k hkind]
      exact ⟨hbumped.paged, hbumped.watchDegraded⟩
  · intro s c e s' c' d _ hgd hcd _ hd hop k hlatest hkind
    have hstep := list_op hop
    rcases hstep.gens with ⟨hsame, -⟩ | ⟨hsucc, -⟩
    · rw [hsame] at hlatest
      obtain ⟨hpaged, hdegraded⟩ := hd k hlatest hkind
      obtain ⟨hp', hd'⟩ := hstep.flags hsame
      refine ⟨hp'.trans hpaged, fun hne => ?_⟩
      rcases hd' with heq | heq | ⟨hgen, -⟩
      · exact heq.trans (hdegraded hne)
      · exact heq
      · exact absurd hlatest (hcd _ hgen)
    · have hle := hgd _ hlatest
      omega

/-- While the watch runs the list is complete: it has a version and no token. -/
def Whole (s : ListPage) : Prop :=
  s.watch.stopped = false →
    s.list.resourceVersion ≠ [] ∧ s.list.continueToken = [] ∧ s.list.paged = false

theorem ListPage.watchable_iff : s.watchable = true ↔
    s.list.error = none ∧ s.list.resourceVersion ≠ [] ∧ s.list.continueToken = [] := by
  simp [ListPage.watchable, and_assoc]

theorem list_whole (hp : (resourceList b ref options).Reachable p) : Whole p.shared := by
  refine Program.shared_invariant (I := fun s c => Quiet s c ∧ Flagged s c) (J := Whole)
    (fun p hp c hc => ⟨list_quiet hp c hc, list_flagged hp c hc⟩) nofun ?_ hp
  intro s c e s' c' ⟨hquiet, hflagged⟩ hI hop hrun
  have hstep := list_op hop
  obtain ⟨hsame, hran | ⟨epoch, rfl, -, -, hwatch, hlist⟩⟩ := hstep.running hrun
  · obtain ⟨hversion, htoken, hpaged⟩ := hI hran
    have hp' := (hstep.flags hsame).1.trans hpaged
    cases hstep with
    | walk hcalls hbegun =>
      have hnext := hcalls.bumped hbegun.toBumped
      omega
    | noRef hcalls _ hnone =>
      have hnext := hcalls.bumped hnone.toBumped
      omega
    | assign outcome hgen => exact absurd (congrArg some hgen) (hquiet hran)
    | loop hloop =>
      obtain ⟨-, -, -, -, htokens, hversions⟩ := loopStep_frame hloop
      exact ⟨hversions hversion, htokens.trans htoken, hp'⟩
    | ended hloop =>
      obtain ⟨-, -, -, -, htokens, hversions⟩ := loopStep_frame hloop
      exact ⟨hversions hversion, htokens.trans htoken, hp'⟩
    | _ => exact ⟨hversion, htoken, hp'⟩
  · obtain ⟨-, hversion, htoken⟩ := ListPage.watchable_iff.mp hwatch
    rw [hlist]
    exact ⟨hversion, htoken, (hflagged _ rfl rfl).1⟩

end

end KubeConsole.Web
