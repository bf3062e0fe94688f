import KubeConsole.Web.ListContext

/-!
The badge of a list that is not live: rows without a watch loop are marked as degraded, unless
one of four steps has taken the loop away without a word.
-/
namespace KubeConsole.Web
open KubeConsole.Theory

variable {b : Browser} {ref : Option ResourceRef} {options : ResourceListOptions}
  {s s' s₁ : ListPage} {c c' : ListThread} {e : ListEvent} {p : Pool ListPage ListThread}

/-- A mounted list shows rows as live, and is not about to be reloaded. -/
def shownLive (p : Pool ListPage ListThread) : Bool :=
  !p.shared.unmounted && p.shared.list.rows ≠ [] && !p.shared.list.watchDegraded &&
    !latestInFlight p

/-- Thread `i` ends the watch of rows that are shown as live without marking them: the page
stops it, the active context changes to one without a session, the live watch is answered
with 401, or an attempt finds no resource. -/
def silencesWatch (p : Pool ListPage ListThread) : PoolAction ListCall ListEvent → Bool
  | .act i e =>
    match p.threads[i]?, e with
    | some .page, .stopWatch => shownLive p
    | some (.called (.context false)), .run => shownLive p
    | some (.watching l), .input (.failed (some 401)) =>
      shownLive p && p.shared.watch.current l.gen
    | some (.watching ⟨gen, .backoff _⟩), .input .run =>
      shownLive p && p.shared.watch.current gen && p.shared.list.getRef.isNone
    | some (.loaded gen _), .run =>
      gen = p.shared.list.loadGen && p.shared.watchable && p.shared.list.rows ≠ [] &&
        p.shared.list.getRef.isNone
    | _, _ => false
  | _ => false

def KeepsWatch (p : Pool ListPage ListThread) (a : PoolAction ListCall ListEvent) : Prop :=
  silencesWatch p a = false

instance (p : Pool ListPage ListThread) (a : PoolAction ListCall ListEvent) :
    Decidable (KeepsWatch p a) :=
  inferInstanceAs (Decidable (_ = _))

/-- `runOnce` has not returned "aborted". -/
def WatchPc.Streams {υ : Type*} (pc : WatchPc υ) : Prop := ∀ n, pc ≠ .settled n .aborted

/-- A current loop of the list that will go on. -/
def Streaming (p : Pool ListPage ListThread) : Prop :=
  ∃ c ∈ p.threads, ∃ l, c.loop = some l ∧ p.shared.watch.current l.gen = true ∧ l.pc.Streams

theorem shownLive_iff : shownLive p = true ↔
    p.shared.unmounted = false ∧ p.shared.list.rows ≠ [] ∧ p.shared.list.watchDegraded = false ∧
      ∀ c ∈ p.threads, c.gen ≠ some p.shared.list.loadGen := by
  simp [shownLive, latestInFlight, and_assoc]

/-- The URL of a complete list is there while its resource is. -/
theorem buildUrl_isSome {l : ResourceList} (href : l.getRef ≠ none) (hversion : l.resourceVersion ≠ [])
    (htoken : l.continueToken = []) (hpaged : l.paged = false) : ∃ url, l.buildUrl = some url := by
  unfold ResourceList.buildUrl
  cases hget : l.getRef with
  | none => exact absurd hget href
  | some ref => exact ⟨_, if_neg (by simp [hpaged, htoken, hversion])⟩

theorem attempt_streams {w : UseWatch ListRequest WatchEvent} {l : ResourceList} {url : ListRequest}
    (hurl : l.buildUrl = some url) (g : ℕ) :
    (w.attempt b.watchOptions l g).2.gen = g ∧
      (w.attempt b.watchOptions l g).2.pc = .authorizing w.attempts url := by
  refine ⟨rfl, ?_⟩
  have hbuild : b.watchOptions.buildUrl l = some url := hurl
  simp only [UseWatch.attempt, hbuild]

theorem start_streams {w : UseWatch ListRequest WatchEvent} {l : ResourceList} {url : ListRequest}
    (hurl : l.buildUrl = some url) :
    (w.start b.watchOptions l).1.current (w.start b.watchOptions l).2.gen = true ∧
      (w.start b.watchOptions l).2.pc.Streams := by
  constructor
  · exact current_eq_true.mpr ⟨rfl, rfl⟩
  · have hpc := (attempt_streams (b := b) (w := { w.stop with
      stopped := false
      backoffMs := initialBackoffMs
      generation := w.stop.generation + 1 }) hurl (w.stop.generation + 1)).2
    intro n hn
    cases hpc.symm.trans hn

/-- A step of a loop leaves what is current. -/
theorem LoopStep.current_same {ω υ ε : Type*} {opts : UseWatchOptions ω υ ε} {w w' : UseWatch υ ε}
    {o o' : ω} {l : WatchLoop υ} {i : WatchInput} {after : WatchAfter υ}
    (h : LoopStep opts w o l i w' o' after) (hafter : after ≠ .stale) (g : ℕ) :
    w'.current g = w.current g := by
  cases h with
  | stale _ _ => exact absurd rfl hafter
  | _ => rfl

/-- A loop goes on streaming unless it is answered with 401 or finds no resource. -/
theorem streams_loop {l l' : WatchLoop ListRequest} {i : WatchInput}
    {w : UseWatch ListRequest WatchEvent} {list : ResourceList}
    (h : LoopStep b.watchOptions s.watch s.list l i w list (.loop l')) (hheld : l.Held s.watch)
    (hcurrent : s.watch.current l.gen = true) (hstatus : i ≠ .failed (some 401))
    (hurl : ∀ ms, l.pc = .backoff ms → i = .run → ∃ url, s.list.buildUrl = some url) :
    w.current l'.gen = true ∧ l'.pc.Streams := by
  have hgen := h.gen.2.2 l' rfl
  rw [h.current_same (fun hs => by cases hs), hgen]
  refine ⟨hcurrent, ?_⟩
  generalize hafter : WatchAfter.loop l' = after at h
  cases h with
  | settle outcome hopen habort =>
    cases hafter
    intro n hn
    cases hn
    rcases habort rfl with ha | hi
    · exact (hheld.controller _ (WatchPc.attempt_of_open hopen) hcurrent).2 ha
    · exact hstatus hi
  | @feed n buffer text pc _ _ hnext =>
    cases hafter
    intro m hm
    change pc = .settled m .aborted at hm
    rw [hm] at hnext
    cases hfirst : firstError b.watchOptions.parse (complete (buffer ++ text)) with
    | none =>
      rw [hfirst] at hnext
      cases hnext
    | some code =>
      rw [hfirst] at hnext
      simp only [errorOutcome] at hnext
      split_ifs at hnext <;> cases hnext
  | next hpc _ =>
    obtain ⟨url, hurl⟩ := hurl _ hpc rfl
    cases hafter
    intro m hm
    cases (attempt_streams hurl l.gen).2.symm.trans hm
  | issue _ _ =>
    cases hafter
    intro m hm
    cases hm
  | read _ =>
    cases hafter
    intro m hm
    cases hm
  | wait _ _ =>
    cases hafter
    intro m hm
    cases hm
  | _ => cases hafter

/-- A loop that returns was not streaming. -/
theorem streams_ended {l : WatchLoop ListRequest} {i : WatchInput}
    {w : UseWatch ListRequest WatchEvent} {list : ResourceList}
    (h : LoopStep b.watchOptions s.watch s.list l i w list .ended)
    (hcurrent : s.watch.current l.gen = true) : ¬ l.pc.Streams := by
  intro hstreams
  generalize hafter : WatchAfter.ended = after at h
  cases h with
  | @leave n outcome hpc habort =>
    rw [habort hcurrent] at hpc
    exact hstreams n hpc
  | superseded _ hnot => exact absurd (hnot.symm.trans hcurrent) Bool.false_ne_true
  | _ => cases hafter

section
variable {i : ℕ}

/-- The streaming loop of another thread, or the thread's own, in the next pool. -/
theorem Streaming.next (h : Streaming p) (hi : i < p.threads.length)
    (hcurrent : ∀ g, p.shared.watch.current g = true → s'.watch.current g = true)
    (hown : ∀ l, p.threads[i].loop = some l → p.shared.watch.current l.gen = true →
      l.pc.Streams → ∃ l', c'.loop = some l' ∧ s'.watch.current l'.gen = true ∧ l'.pc.Streams) :
    Streaming ⟨s', p.threads.set i c'⟩ := by
  obtain ⟨c, hc, l, hl, hlive, hstreams⟩ := h
  obtain ⟨j, hj, rfl⟩ := List.getElem_of_mem hc
  by_cases hij : i = j
  · subst hij
    obtain ⟨l', hl', hlive', hstreams'⟩ := hown l hl hlive hstreams
    exact ⟨c', List.mem_set hi c', l', hl', hlive', hstreams'⟩
  · refine ⟨p.threads[j], ?_, l, hl, hcurrent _ hlive, hstreams⟩
    show _ ∈ p.threads.set i c'
    rw [← List.getElem_set_ne hij (by simpa using hj)]
    exact List.getElem_mem _

/-- Rows shown as live after a step that leaves the list and its generation were so before,
unless the step's own thread was the latest load. -/
theorem shownLive_back (hi : i < p.threads.length)
    (hshown : shownLive ⟨s', p.threads.set i c'⟩ = true)
    (hunmounted : s'.unmounted = p.shared.unmounted) (hlist : s'.list.rows = p.shared.list.rows)
    (hdegraded : s'.list.watchDegraded = p.shared.list.watchDegraded)
    (hgen : s'.list.loadGen = p.shared.list.loadGen)
    (hown : p.threads[i].gen ≠ some p.shared.list.loadGen) : shownLive p = true := by
  obtain ⟨hu, hrows, hd, hidle⟩ := shownLive_iff.mp hshown
  refine shownLive_iff.mpr ⟨hunmounted ▸ hu, hlist ▸ hrows, hdegraded ▸ hd, fun c hc => ?_⟩
  obtain ⟨j, hj, rfl⟩ := List.getElem_of_mem hc
  by_cases hij : i = j
  · subst hij
    exact hown
  · have hmem : p.threads[j] ∈ p.threads.set i c' := by
      rw [← List.getElem_set_ne hij (by simpa using hj)]
      exact List.getElem_mem _
    exact hgen ▸ hidle _ hmem

end

/-- Rows shown as live have a loop that goes on, in every run that keeps the watch. -/
theorem streaming_reach (hp : (resourceList b ref options).Reach KeepsWatch p) :
    shownLive p = true → Streaming p := by
  refine hp.invariant_with (J := (resourceList b ref options).Reachable)
    (I := fun p => shownLive p = true → Streaming p) (fun p hp => hp.reachable) ?_ ?_
  · rintro _ rfl hshown
    exact absurd rfl (shownLive_iff.mp hshown).2.1
  · intro p a q hp hI hkeeps hq hshown
    cases a with
    | spawn call =>
      cases hq
      obtain ⟨hu, hrows, hd, hidle⟩ := shownLive_iff.mp hshown
      obtain ⟨c, hc, hloop⟩ := hI (shownLive_iff.mpr
        ⟨hu, hrows, hd, fun c hc => hidle c (List.mem_append_left _ hc)⟩)
      exact ⟨c, List.mem_append_left _ hc, hloop⟩
    | act i e =>
      obtain ⟨hi, s', c', hop, rfl⟩ := Program.act_eq_some hq
      have hm : p.threads[i] ∈ p.threads := List.getElem_mem hi
      have hflagged := list_flagged hp _ hm
      have hheld := list_held hp _ hm
      have hwhole := list_whole hp
      have hback := shownLive_back hi hshown
      have hnext (hs : Streaming p) : _ → _ → Streaming ⟨s', p.threads.set i c'⟩ := hs.next hi
      obtain ⟨hu, hrows, hd, hidle⟩ := shownLive_iff.mp hshown
      have hown : c'.gen ≠ some s'.list.loadGen := hidle c' (List.mem_set hi c')
      have hget := List.getElem?_eq_getElem hi
      generalize p.threads[i] = c at hop hflagged hheld hback hnext hget
      cases list_op hop with
      | select ref options =>
        exact hnext (hI (hback rfl rfl rfl rfl nofun)) (fun _ => id) nofun
      | stopWatch =>
        have hlive := hback rfl rfl rfl rfl nofun
        simp [KeepsWatch, silencesWatch, hget, hlive] at hkeeps
      | unmount => cases hu
      | idle _ => exact hnext (hI (hback rfl rfl rfl rfl nofun)) (fun _ => id) nofun
      | disposed hunmounted => exact absurd (hunmounted.symm.trans hu) (by simp)
      | signedOut _ =>
        have hlive := hback rfl rfl rfl rfl nofun
        simp [KeepsWatch, silencesWatch, hget, hlive] at hkeeps
      | walk hcalls hbegun =>
        exact absurd (congrArg some (hbegun.gen.trans hbegun.loadGen.symm)) hown
      | @noRef _ _ s₁ _ kind hcalls _ hnone =>
        by_cases hkind : kind = .refresh
        · rw [if_pos hkind] at hown
          exact absurd rfl hown
        · exact absurd ((hnone.watchDegraded hkind).symm.trans hd) (by simp)
      | response t r =>
        obtain ⟨-, hgen, -, -⟩ := ListPage.loop_onResponse (s := p.shared) t r
        exact hnext (hI (hback rfl rfl rfl rfl fun h => hown (hgen.trans h))) (fun _ => id) nofun
      | superseded _ hgen =>
        exact hnext (hI (hback rfl rfl rfl rfl fun h => hgen (Option.some.inj h))) (fun _ => id) nofun
      | @assign t outcome hgen =>
        have hsame : (p.shared.assign t outcome).loadGen = p.shared.list.loadGen ∧
            (p.shared.assign t outcome).watchDegraded = p.shared.list.watchDegraded := by
          cases outcome <;> exact ⟨rfl, rfl⟩
        by_cases hkind : t.kind = .refresh
        · unfold ListTask.after at hown
          rw [if_pos hkind] at hown
          exact absurd (congrArg some (hgen.trans hsame.1.symm)) hown
        · have hdegraded := (hflagged t.kind (congrArg some hgen) rfl).2 hkind
          exact absurd ((hsame.2.trans hdegraded).symm.trans hd) (by simp)
      | late hgen =>
        exact hnext (hI (hback rfl rfl rfl rfl fun h => hgen (Option.some.inj h))) (fun _ => id) nofun
      | watch hgen hwatch =>
        obtain ⟨-, hversion, htoken⟩ := ListPage.watchable_iff.mp hwatch
        have hpaged := (hflagged .refresh (congrArg some hgen) rfl).1
        have href : p.shared.list.getRef ≠ none := by
          intro hnone
          simp [KeepsWatch, silencesWatch, hget, hgen, hwatch, hnone] at hkeeps
          exact hrows hkeeps
        obtain ⟨url, hurl⟩ := buildUrl_isSome (l := { p.shared.list with watchDegraded := false })
          href hversion htoken hpaged
        obtain ⟨hcurrent, hstreams⟩ := start_streams (b := b) (w := p.shared.watch) hurl
        exact ⟨_, List.mem_set hi _, _, rfl, hcurrent, hstreams⟩
      | degrade _ _ => cases hd
      | @loop l l' j w list hstep =>
        have hcurrent := hstep.current_same nofun
        rcases loopStep_list hstep with rfl | ⟨⟨n, text, hn, ha, rfl⟩, -⟩
        · have hlive := hback rfl rfl rfl rfl nofun
          refine hnext (hI hlive) (fun g hg => (hcurrent g).trans hg) fun m hm hcur hstr => ?_
          cases hm
          refine ⟨l', rfl, streams_loop hstep (hheld l rfl) hcur ?_ ?_⟩
          · rintro rfl
            simp [KeepsWatch, silencesWatch, hget, hlive, hcur] at hkeeps
          · rintro ms hpc rfl
            obtain ⟨gen, pc⟩ := l
            subst hpc
            have href : p.shared.list.getRef ≠ none := by
              intro hnone
              simp [KeepsWatch, silencesWatch, hget, hlive, hcur, hnone] at hkeeps
            obtain ⟨hversion, htoken, hpaged⟩ := hwhole (current_eq_true.mp hcur).1
            exact buildUrl_isSome href hversion htoken hpaged
        · have hcur := (hheld l rfl).current hn ha
          exact ⟨_, List.mem_set hi _, l', rfl,
            streams_loop hstep (hheld l rfl) hcur nofun fun _ _ h => nomatch h⟩
      | @ended l j w list hstep =>
        have hsame : list = p.shared.list := by cases hstep <;> rfl
        subst hsame
        refine hnext (hI (hback rfl rfl rfl rfl nofun))
          (fun g hg => (hstep.current_same nofun g).trans hg) fun m hm hcur hstr => ?_
        cases hm
        exact absurd hstr (streams_ended hstep hcur)

/-- In every run in which the watch of rows that are shown as live is not ended by the page,
by a change to a context without a session, by a 401 or for want of a resource: when no load
is in flight, rows on screen without a live watch loop are marked as degraded. -/
theorem degraded_without_watch (hp : (resourceList b ref options).Reach KeepsWatch p)
    (hmounted : p.shared.unmounted = false) (hidle : latestInFlight p = false)
    (hrows : p.shared.list.rows ≠ [])
    (hnone : ∀ c ∈ p.threads, ∀ l, c.loop = some l → p.shared.watch.current l.gen = false) :
    p.shared.list.watchDegraded = true := by
  by_contra hdegraded
  have hlive : shownLive p = true := by
    simp [shownLive, hmounted, hidle, hrows, Bool.eq_false_of_not_eq_true hdegraded]
  obtain ⟨c, hc, l, hl, hcurrent, -⟩ := streaming_reach hp hlive
  exact absurd ((hnone c hc l hl).symm.trans hcurrent) Bool.false_ne_true

/-! ## A watch that is answered with 401 -/

/-- The request of the live watch is refused. -/
def refused : List (PoolAction ListCall ListEvent) :=
  [.spawn .refresh, .act 1 .run, .act 1 (.response (.ok onePod)), .act 1 .run, .act 1 .run,
    .act 1 (.input .run), .act 1 (.input (.failed (some 401))), .act 1 (.input .run)]

theorem refused_runs : ((resourceList plainBrowser (some podsRef) {}).exec
    (mountedList (some podsRef) {}) refused).isSome := by
  decide +kernel

def refusedList : Pool ListPage ListThread := Option.get _ refused_runs

/-- The loop has returned, the row is on screen, and nothing says that it is not live. -/
theorem refused_watch_unmarked :
    (resourceList plainBrowser (some podsRef) {}).Reachable refusedList ∧
      refusedList.shared.unmounted = false ∧ latestInFlight refusedList = false ∧
      refusedList.shared.list.rows = [⟨[js "web-0"], none⟩] ∧
      (∀ c ∈ refusedList.threads, c.loop = none) ∧
      refusedList.shared.list.watchDegraded = false := by
  have hinit : (resourceList plainBrowser (some podsRef) {}).Reachable
      (mountedList (some podsRef) {}) := .init rfl
  refine ⟨hinit.exec refused (Option.some_get refused_runs).symm, ?_⟩
  decide +kernel

/-- A page of one pod that is not the last one. -/
def onePodMore : ListBody := .table ⟨some { resourceVersion := some (js "9"), continue_ := some (js "t") },
  some [], some [⟨[js "web-0"], none⟩]⟩

/-- The watch finds its version gone, and the list it reloads is beyond the cap. -/
def goneBeyondCap : List (PoolAction ListCall ListEvent) :=
  [.spawn .refresh, .act 1 .run, .act 1 (.response (.ok onePod)), .act 1 .run, .act 1 .run,
    .act 1 (.input .run), .act 1 (.input (.failed (some 410))), .act 1 (.input .run)] ++
    List.replicate 10 (.act 1 (.response (.ok onePodMore))) ++ [.act 1 .run, .act 1 .run]

theorem goneBeyondCap_runs : ((resourceList plainBrowser (some podsRef) {}).exec
    (mountedList (some podsRef) {}) goneBeyondCap).isSome := by
  decide +kernel

theorem degraded_without_watch_goneBeyondCap :
    ∃ p, (resourceList plainBrowser (some podsRef) {}).exec (mountedList (some podsRef) {})
        goneBeyondCap = some p ∧ p.shared.list.rows.length = 10 ∧
      p.shared.list.watchDegraded = true := by
  have hinit : (resourceList plainBrowser (some podsRef) {}).Reach KeepsWatch
      (mountedList (some podsRef) {}) := .init rfl
  have hp := (Option.some_get goneBeyondCap_runs).symm
  have hkeeps : (resourceList plainBrowser (some podsRef) {}).Along KeepsWatch
      (mountedList (some podsRef) {}) goneBeyondCap := by
    decide +kernel
  have hloops : ∀ c ∈ (Option.get _ goneBeyondCap_runs).threads, c.loop = none := by
    decide +kernel
  refine ⟨_, hp, by decide +kernel, ?_⟩
  refine degraded_without_watch (hinit.exec hkeeps hp) (by decide +kernel) (by decide +kernel)
    (by decide +kernel) fun c hc l hl => ?_
  rw [hloops c hc] at hl
  cases hl

end KubeConsole.Web
