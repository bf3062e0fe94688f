import KubeConsole.Web.ListStep

/-!
The watch of a list that has been unmounted: closed for good, unless a refresh that is still
in flight ends afterwards.
-/
namespace KubeConsole.Web
open KubeConsole.Theory

variable {b : Browser} {ref : Option ResourceRef} {options : ResourceListOptions}
  {s s' : ListPage} {c c' : ListThread} {e : ListEvent} {p : Pool ListPage ListThread}

/-- Thread `i` is a refresh that goes on to start the watch of an unmounted list: no later
load has begun, and the collection is complete. -/
def resumesUnmounted (p : Pool ListPage ListThread) : PoolAction ListCall ListEvent → Bool
  | .act i .run =>
    match p.threads[i]? with
    | some (.loaded gen _) =>
      p.shared.unmounted && gen = p.shared.list.loadGen && p.shared.watchable
    | _ => false
  | _ => false

def EndsMounted (p : Pool ListPage ListThread) (a : PoolAction ListCall ListEvent) : Prop :=
  resumesUnmounted p a = false

instance (p : Pool ListPage ListThread) (a : PoolAction ListCall ListEvent) :
    Decidable (EndsMounted p a) :=
  inferInstanceAs (Decidable (_ = _))

/-- No watch loop is live, and no step sends a watch request. -/
def WatchClosed (b : Browser) (p : Pool ListPage ListThread) : Prop :=
  (∀ c ∈ p.threads, ∀ l, c.loop = some l → p.shared.watch.current l.gen = false) ∧
    ∀ i e q, (useResourceList b).act p i e = some q →
      q.shared.watch.requests = p.shared.watch.requests

theorem ListOp.unmounted (h : ListOp b s c e s' c') :
    s'.unmounted = s.unmounted ∨ s'.unmounted = true ∧ s'.watch.stopped = true := by
  cases h with
  | unmount => exact .inr ⟨rfl, rfl⟩
  | walk hcalls hbegun => exact .inl (hbegun.unmounted.trans hcalls.list.2)
  | noRef hcalls _ hnone => exact .inl (hnone.unmounted.trans hcalls.list.2)
  | _ => exact .inl rfl

/-- A request is the work of a loop whose attempt is not aborted. -/
theorem ListOp.requests (h : ListOp b s c e s' c') :
    s'.watch.requests = s.watch.requests ∨
      ∃ l n, c.loop = some l ∧ l.pc.attempt = some n ∧ n ∉ s.watch.aborted := by
  have hstep {l : WatchLoop ListRequest} {i : WatchInput} {w : UseWatch ListRequest WatchEvent}
      {list : ResourceList} {after : WatchAfter ListRequest}
      (hloop : LoopStep b.watchOptions s.watch s.list l i w list after) :
      w.requests = s.watch.requests ∨ ∃ n, l.pc.attempt = some n ∧ n ∉ s.watch.aborted := by
    rcases hloop.requests with hsame | ⟨n, url, hpc, ha, -⟩
    · exact .inl hsame
    · exact .inr ⟨n, by rw [hpc]; rfl, ha⟩
  have hcall {s₁ : ListPage} (hcalls : Calls b s c e s₁) :
      s₁.watch.requests = s.watch.requests := by
    cases hcalls with
    | stale hloop => cases hloop; rfl
    | _ => rfl
  cases h with
  | walk hcalls hbegun =>
    rw [hbegun.watch]
    exact .inl (hcall hcalls)
  | noRef hcalls _ hnone =>
    rw [hnone.watch]
    exact .inl (hcall hcalls)
  | loop hloop => exact (hstep hloop).imp_right fun ⟨n, hn, ha⟩ => ⟨_, n, rfl, hn, ha⟩
  | ended hloop => exact (hstep hloop).imp_right fun ⟨n, hn, ha⟩ => ⟨_, n, rfl, hn, ha⟩
  | _ => exact .inl rfl

/-- A watch that is stopped stays so without a start. -/
theorem watchClosed_of_stopped (hp : (resourceList b ref options).Reachable p)
    (hstopped : p.shared.watch.stopped = true) : WatchClosed b p := by
  have hnot (g : ℕ) : p.shared.watch.current g = false := by
    simp [UseWatch.current, hstopped]
  refine ⟨fun c _ l _ => hnot l.gen, fun i e q hq => ?_⟩
  obtain ⟨hi, s', c', hop, rfl⟩ := Program.act_eq_some hq
  rcases (list_op hop).requests with hsame | ⟨l, n, hl, hn, ha⟩
  · exact hsame
  · have hheld := list_held hp _ (List.getElem_mem hi) l hl
    exact absurd (hheld.aborted n hn (hnot l.gen)) ha

theorem stopped_of_unmounted (hp : (resourceList b ref options).Reach EndsMounted p) :
    p.shared.unmounted = true → p.shared.watch.stopped = true := by
  refine hp.invariant
    (I := fun p => p.shared.unmounted = true → p.shared.watch.stopped = true) ?_ ?_
  · rintro _ rfl
    exact nofun
  · intro p a q hI hends hq hu
    cases a with
    | spawn call =>
      cases hq
      exact hI hu
    | act i e =>
      obtain ⟨hi, s', c', hop, rfl⟩ := Program.act_eq_some hq
      have hstep := list_op hop
      by_contra hrun
      rcases hstep.unmounted with hsame | ⟨-, hstopped⟩
      · have hu' : p.shared.unmounted = true := hsame.symm.trans hu
        obtain ⟨-, hran | ⟨epoch, hc, rfl, -, hwatch, -⟩⟩ :=
          hstep.running (Bool.eq_false_of_not_eq_true hrun)
        · rw [hI hu'] at hran
          cases hran
        · simp [EndsMounted, resumesUnmounted, List.getElem?_eq_getElem hi, hc, hu', hwatch] at hends
      · exact hrun hstopped

/-- In every run in which no refresh that is still the latest load goes on with a complete
collection after the unmount: once the list is unmounted no watch loop is live, and no step
sends a watch request. -/
theorem watch_closed_after_unmount (hp : (resourceList b ref options).Reach EndsMounted p)
    (hu : p.shared.unmounted = true) : WatchClosed b p :=
  watchClosed_of_stopped hp.reachable (stopped_of_unmounted hp hu)

/-! ## A refresh that outlives its page -/

/-- A browser that takes every line for a bookmark without a version. -/
def plainBrowser : Browser where
  parse _ := .event ⟨.bookmark, {}⟩
  toLowerCase := id

def podsRef : ResourceRef := ⟨[], js "v1", js "pods"⟩

/-- An empty collection at version 7. -/
def noPods : ListBody := .table ⟨some { resourceVersion := some (js "7") }, some [], some []⟩

/-- The page is left while the first page of the collection is on its way. -/
def leftLoading : List (PoolAction ListCall ListEvent) :=
  [.spawn .refresh, .act 1 .run, .act 0 .unmount, .act 1 (.response (.ok noPods)), .act 1 .run,
    .act 1 .run]

theorem leftLoading_runs : ((resourceList plainBrowser (some podsRef) {}).exec
    (mountedList (some podsRef) {}) leftLoading).isSome := by
  decide +kernel

def leftLoaded : Pool ListPage ListThread := (Option.get _ leftLoading_runs)

/-- The refresh ends after the unmount and starts the watch, whose request goes out. -/
theorem unmounted_list_watches :
    (resourceList plainBrowser (some podsRef) {}).Reachable leftLoaded ∧
      leftLoaded.shared.unmounted = true ∧ ¬ WatchClosed plainBrowser leftLoaded := by
  have hinit :
      (resourceList plainBrowser (some podsRef) {}).Reachable (mountedList (some podsRef) {}) :=
    .init rfl
  refine ⟨hinit.exec leftLoading (Option.some_get leftLoading_runs).symm, by decide +kernel, ?_⟩
  intro hclosed
  have hsent : ((useResourceList plainBrowser).act leftLoaded 1 (.input .run)).map
      (·.shared.watch.requests) = some [(0, watchUrl podsRef none (js "7") none)] := by
    decide +kernel
  obtain ⟨q, hq, hrequests⟩ := Option.map_eq_some_iff.mp hsent
  have hnone : leftLoaded.shared.watch.requests = [] := by decide +kernel
  rw [hclosed.2 1 _ q hq, hnone] at hrequests
  cases hrequests

/-- The page is left while its watch is running. -/
def leftWatching : List (PoolAction ListCall ListEvent) :=
  [.spawn .refresh, .act 1 .run, .act 1 (.response (.ok noPods)), .act 1 .run, .act 1 .run,
    .act 1 (.input .run), .act 1 (.input (.response true)), .act 0 .unmount]

theorem leftWatching_runs : ((resourceList plainBrowser (some podsRef) {}).exec
    (mountedList (some podsRef) {}) leftWatching).isSome := by
  decide +kernel

theorem watch_closed_after_unmount_leftWatching :
    ∃ p, (resourceList plainBrowser (some podsRef) {}).exec (mountedList (some podsRef) {})
        leftWatching = some p ∧ WatchClosed plainBrowser p := by
  have hinit : (resourceList plainBrowser (some podsRef) {}).Reach EndsMounted
      (mountedList (some podsRef) {}) := .init rfl
  have hp := (Option.some_get leftWatching_runs).symm
  have hends : (resourceList plainBrowser (some podsRef) {}).Along EndsMounted
      (mountedList (some podsRef) {}) leftWatching := by
    decide +kernel
  exact ⟨_, hp, watch_closed_after_unmount (hinit.exec hends hp) (by decide +kernel)⟩

end KubeConsole.Web
