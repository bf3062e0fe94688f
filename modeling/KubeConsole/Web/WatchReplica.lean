import KubeConsole.Web.ListTokens
import KubeConsole.Web.ServerHistory

/-!
The list as a replica of one collection of the server: while its watch is live, the rows are
the collection as of the version that the next watch request will name.
-/
namespace KubeConsole.Web
open KubeConsole.Theory

/-- What the steps of a run over one collection are like: the page stays with its selection;
the pages of a listing from the start are those of some version; and what the response to a
watch request has delivered goes on from the version that it names. -/
def ServesHistory (b : Browser) (H : ServerHistory) (sel : Selection)
    (p : Pool ListPage ListThread) : PoolAction ListCall ListEvent → Prop
  | .act _ (.select ref options) =>
    ref = some sel.ref ∧ options.namespace_ = sel.namespace_ ∧
      options.labelSelector = sel.labelSelector
  | .act i (.response (.ok body)) => ∀ t, p.threads[i]? = some (.walking t) → t.kind = .refresh →
      t.selection = sel → ∃ v, H.Snapshot v (t.pages ++ [body.toResult])
  | .act i (.input (.chunk text)) => ∀ gen n buffer v,
      p.threads[i]? = some (.watching ⟨gen, .reading n buffer⟩) →
      (n, watchUrl sel.ref sel.namespace_ (H.name v) sel.labelSelector) ∈ p.shared.watch.requests →
      ∃ z, H.Delivers v (eventsOf b.parse (complete (p.shared.watch.texts n ++ text))) z
  | _ => True

variable {b : Browser} {H : ServerHistory} {sel : Selection} {ref : ResourceRef}
  {options : ResourceListOptions} {s s' s₁ : ListPage} {c c' : ListThread} {e : ListEvent}
  {p : Pool ListPage ListThread} {l : ResourceList} {u v z : ℕ}

/-! ## The invariant -/

/-- The list was loaded for this selection. -/
def Pinned (sel : Selection) (l : ResourceList) : Prop :=
  l.loadedNamespace = sel.namespace_ ∧ l.loadedLabelSelector = sel.labelSelector

/-- The selection stays, and while the watch runs the list is at a version. -/
structure Cursor (H : ServerHistory) (sel : Selection) (s : ListPage) : Prop where
  getRef : s.list.getRef = some sel.ref
  namespace_ : s.list.getOptions.namespace_ = sel.namespace_
  labelSelector : s.list.getOptions.labelSelector = sel.labelSelector
  live : s.watch.stopped = false → Pinned sel s.list ∧ ∃ v, At H s.list v

/-- What the latest refresh has of the collection. -/
def RefreshOk (H : ServerHistory) (sel : Selection) (s : ListPage) : ListThread → Prop
  | .walking t => t.gen = s.list.loadGen → t.kind = .refresh →
      t.selection = sel ∧ Pinned sel s.list ∧ t.opts.keepRow = (fun _ => true) ∧
        t.walk.rows = t.pages.flatMap ListResult.pageRows
  | .walked t outcome => t.gen = s.list.loadGen → t.kind = .refresh →
      Pinned sel s.list ∧ ∀ walked, outcome = .ok walked →
        ∃ v, walked.resourceVersion = H.name v ∧
          (walked.continueToken = [] → H.Lists v walked.rows)
  | .loaded gen _ => gen = s.list.loadGen →
      Pinned sel s.list ∧ (s.watchable = true → ∃ v, At H s.list v)
  | _ => True

/-- The URL of a watch from a version. -/
def ServerHistory.watchUrl (H : ServerHistory) (sel : Selection) (v : ℕ) : ListRequest :=
  Web.watchUrl sel.ref sel.namespace_ (H.name v) sel.labelSelector

/-- What the current loop knows of the version that the list is at. -/
def LoopOk (b : Browser) (H : ServerHistory) (sel : Selection) (s : ListPage)
    (l : WatchLoop ListRequest) : Prop :=
  s.watch.current l.gen = true →
    match l.pc with
    | .authorizing _ url => ∃ v, url = H.watchUrl sel v ∧ s.list.resourceVersion = H.name v
    | .fetching n =>
      ∃ v, (n, H.watchUrl sel v) ∈ s.watch.requests ∧ s.list.resourceVersion = H.name v
    | .reading n _ => ∃ v z, (n, H.watchUrl sel v) ∈ s.watch.requests ∧
        H.Delivers v (eventsOf b.parse (complete (s.watch.texts n))) z ∧
        s.list.resourceVersion = H.name z
    | _ => True

def ReplicaThread (b : Browser) (H : ServerHistory) (sel : Selection) (s : ListPage)
    (c : ListThread) : Prop :=
  RefreshOk H sel s c ∧ ∀ l, c.loop = some l → LoopOk b H sel s l

/-! ## Other threads -/

/-- An operation of a thread that is not the latest load, and whose loop, if it has one, is
not current, leaves the refs. -/
theorem ListOp.frame (h : ListOp b s c e s' c') (hc : c.gen ≠ some s.list.loadGen)
    (hgen : s'.list.loadGen = s.list.loadGen)
    (hdead : ∀ l n, c.loop = some l → l.pc.attempt = some n → n ∈ s.watch.aborted) :
    ∃ ref options, s'.list = { s.list with getRef := ref, getOptions := options } := by
  have hloop {l : WatchLoop ListRequest} {i : WatchInput} {w : UseWatch ListRequest WatchEvent}
      {list : ResourceList} {after : WatchAfter ListRequest} (hl : c.loop = some l)
      (hstep : LoopStep b.watchOptions s.watch s.list l i w list after) : list = s.list := by
    rcases loopStep_list hstep with hsame | ⟨⟨n, -, hn, ha, -⟩, -⟩
    · exact hsame
    · exact absurd (hdead l n hl hn) ha
  cases h with
  | select ref options => exact ⟨ref, options, rfl⟩
  | walk hcalls hbegun =>
    have hnext := hcalls.bumped hbegun.toBumped
    omega
  | noRef hcalls _ hnone =>
    have hnext := hcalls.bumped hnone.toBumped
    omega
  | assign _ hlatest => exact absurd (congrArg some hlatest) hc
  | watch hlatest _ => exact absurd (congrArg some hlatest) hc
  | degrade hlatest _ => exact absurd (congrArg some hlatest) hc
  | loop hstep => exact ⟨_, _, hloop rfl hstep⟩
  | ended hstep => exact ⟨_, _, hloop rfl hstep⟩
  | _ => exact ⟨_, _, rfl⟩

/-- So it leaves the texts and the requests of a watch that runs on. -/
theorem ListOp.watch_frame (h : ListOp b s c e s' c') (hc : c.gen ≠ some s.list.loadGen)
    (hrun : s'.watch.stopped = false)
    (hdead : ∀ l n, c.loop = some l → l.pc.attempt = some n → n ∈ s.watch.aborted) :
    s'.watch.texts = s.watch.texts ∧ s'.watch.requests = s.watch.requests := by
  have hloop {l : WatchLoop ListRequest} {i : WatchInput} {w : UseWatch ListRequest WatchEvent}
      {list : ResourceList} {after : WatchAfter ListRequest} (hl : c.loop = some l)
      (hstep : LoopStep b.watchOptions s.watch s.list l i w list after) :
      w.texts = s.watch.texts ∧ w.requests = s.watch.requests := by
    constructor
    · rcases hstep.texts with ⟨hsame, -⟩ | ⟨n, _, _, hpc, ha, -⟩
      · exact hsame
      · exact absurd (hdead l n hl (by rw [hpc]; rfl)) ha
    · rcases hstep.requests with hsame | ⟨n, _, hpc, ha, -⟩
      · exact hsame
      · exact absurd (hdead l n hl (by rw [hpc]; rfl)) ha
  cases h with
  | stopWatch => cases hrun
  | unmount => cases hrun
  | signedOut _ => cases hrun
  | walk _ hbegun =>
    rw [hbegun.watch] at hrun
    cases hrun
  | noRef _ _ hnone =>
    rw [hnone.watch] at hrun
    cases hrun
  | watch hlatest _ => exact absurd (congrArg some hlatest) hc
  | loop hstep => exact hloop rfl hstep
  | ended hstep => exact hloop rfl hstep
  | _ => exact ⟨rfl, rfl⟩

theorem RefreshOk.frame {d : ListThread} (h : RefreshOk H sel s d)
    (hsame : d.gen = some s'.list.loadGen → d.gen = some s.list.loadGen ∧
      ∃ ref options, s'.list = { s.list with getRef := ref, getOptions := options }) :
    RefreshOk H sel s' d := by
  cases d with
  | walking t =>
    intro hgen hkind
    obtain ⟨hlatest, ref, options, hlist⟩ := hsame (congrArg some hgen)
    obtain ⟨hsel, hpinned, hkeep, hrows⟩ := h (Option.some.inj hlatest) hkind
    refine ⟨hsel, ?_, hkeep, hrows⟩
    rw [hlist]
    exact hpinned
  | walked t outcome =>
    intro hgen hkind
    obtain ⟨hlatest, ref, options, hlist⟩ := hsame (congrArg some hgen)
    obtain ⟨hpinned, hwalked⟩ := h (Option.some.inj hlatest) hkind
    refine ⟨?_, hwalked⟩
    rw [hlist]
    exact hpinned
  | loaded gen epoch =>
    intro hgen
    obtain ⟨hlatest, ref, options, hlist⟩ := hsame (congrArg some hgen)
    obtain ⟨hpinned, hat⟩ := h (Option.some.inj hlatest)
    have hwatchable : s'.watchable = s.watchable := by
      unfold ListPage.watchable
      rw [hlist]
    rw [hwatchable, hlist]
    exact ⟨hpinned, hat⟩
  | _ => trivial

theorem LoopOk.frame {m : WatchLoop ListRequest} (h : LoopOk b H sel s m)
    (hcurrent : s'.watch.current m.gen = true → s.watch.current m.gen = true)
    (hsame : s'.watch.current m.gen = true → s'.list.resourceVersion = s.list.resourceVersion ∧
      s'.watch.texts = s.watch.texts ∧ s'.watch.requests = s.watch.requests) :
    LoopOk b H sel s' m := by
  intro hc
  obtain ⟨hversion, htexts, hrequests⟩ := hsame hc
  have hok := h (hcurrent hc)
  rw [hversion, htexts, hrequests]
  exact hok

/-! ## The thread that moves -/

/-- What the conditions on a step say of its operation. -/
structure ServedOp (b : Browser) (H : ServerHistory) (sel : Selection) (s : ListPage)
    (c : ListThread) (e : ListEvent) : Prop where
  select : ∀ ref options, e = .select ref options →
    ref = some sel.ref ∧ options.namespace_ = sel.namespace_ ∧
      options.labelSelector = sel.labelSelector
  page : ∀ t body, c = .walking t → e = .response (.ok body) → t.kind = .refresh →
    t.selection = sel → ∃ v, H.Snapshot v (t.pages ++ [body.toResult])
  chunk : ∀ gen n buffer text v, c = .watching ⟨gen, .reading n buffer⟩ →
    e = .input (.chunk text) → (n, H.watchUrl sel v) ∈ s.watch.requests →
      ∃ z, H.Delivers v (eventsOf b.parse (complete (s.watch.texts n ++ text))) z

theorem servedOp_of_servesHistory {i : ℕ} (hi : i < p.threads.length)
    (h : ServesHistory b H sel p (.act i e)) : ServedOp b H sel p.shared p.threads[i] e := by
  have hget := List.getElem?_eq_getElem hi
  constructor
  · rintro ref options rfl
    exact h
  · rintro t body hc rfl hkind hsel
    exact h t (hget.trans (congrArg some hc)) hkind hsel
  · rintro gen n buffer text v hc rfl hurl
    exact h gen n buffer v (hget.trans (congrArg some hc)) hurl

theorem snapshot_lists {pages : List ListResult} {r : ListResult}
    (h : H.Snapshot v (pages ++ [r])) : r.resourceVersion = H.name v ∧
      (r.continueToken = [] → H.Lists v ((pages ++ [r]).flatMap ListResult.pageRows)) :=
  ⟨h.1 r (by simp), h.2 r (by simp)⟩

theorem own_response {t : ListTask} {r : Except Thrown ListBody}
    (hserved : ServedOp b H sel s (.walking t) (.response r))
    (hok : RefreshOk H sel s (.walking t)) : RefreshOk H sel s (s.onResponse t r) := by
  cases r with
  | error thrown =>
    intro hgen hkind
    obtain ⟨-, hpinned, -⟩ := hok hgen hkind
    exact ⟨hpinned, nofun⟩
  | ok body =>
    have hlatest (hgen : t.gen = s.list.loadGen) (hkind : t.kind = .refresh) :
        t.selection = sel ∧ Pinned sel s.list ∧ t.opts.keepRow = (fun _ => true) ∧
          (t.walk.absorb t.opts body.toResult).rows =
            (t.pages ++ [body.toResult]).flatMap ListResult.pageRows ∧
          ∃ v, H.Snapshot v (t.pages ++ [body.toResult]) := by
      obtain ⟨hsel, hpinned, hkeep, hrows⟩ := hok hgen hkind
      refine ⟨hsel, hpinned, hkeep, ?_, hserved.page t body rfl rfl hkind hsel⟩
      rw [List.flatMap_append, ← hrows]
      simp [Walk.absorb, hkeep]
    unfold ListPage.onResponse Walk.onPage
    by_cases hgen : t.gen = s.list.loadGen
    · simp only [hgen, ne_eq, not_true_eq_false, decide_false, Bool.false_eq_true, if_false]
      split_ifs with hleaves
      · intro _ hkind
        obtain ⟨-, hpinned, -, hrows, v, hsnapshot⟩ := hlatest hgen hkind
        obtain ⟨hversion, hlists⟩ := snapshot_lists hsnapshot
        refine ⟨hpinned, fun walked hwalked => ?_⟩
        cases hwalked
        refine ⟨v, hversion, fun htoken => ?_⟩
        rw [← hrows] at hlists
        exact hlists htoken
      · intro _ hkind
        obtain ⟨hsel, hpinned, hkeep, hrows, -⟩ := hlatest hgen hkind
        exact ⟨hsel, hpinned, hkeep, hrows⟩
    · simp only [hgen, ne_eq, not_false_eq_true, decide_true, if_true]
      exact fun h => absurd h hgen

theorem own_assign {t : ListTask} {outcome : Except Thrown WalkResult}
    (hgen : t.gen = s.list.loadGen) (hok : RefreshOk H sel s (.walked t outcome)) :
    RefreshOk H sel { s with list := s.assign t outcome } t.after := by
  unfold ListTask.after
  split_ifs with hkind
  · intro _
    obtain ⟨hpinned, hwalked⟩ := hok hgen hkind
    refine ⟨by cases outcome <;> exact hpinned, fun hwatchable => ?_⟩
    obtain ⟨herror, -, htoken⟩ := ListPage.watchable_iff.mp hwatchable
    cases outcome with
    | error thrown => cases herror
    | ok walked =>
      obtain ⟨v, hversion, hlists⟩ := hwalked walked rfl
      simp only [ListPage.assign, hkind, reduceCtorEq, if_false] at htoken
      refine ⟨v, ?_, ?_⟩
      · simp only [ListPage.assign, hkind]
        exact hversion
      · exact replicates_setRows (l := s.list) (hlists htoken)
  · trivial

/-- The URL of the next attempt names the version that the list is at. -/
theorem buildUrl_at (href : l.getRef = some sel.ref) (hpinned : Pinned sel l)
    (hversion : l.resourceVersion = H.name v) {url : ListRequest} (hurl : l.buildUrl = some url) :
    url = H.watchUrl sel v := by
  unfold ResourceList.buildUrl at hurl
  simp only [href] at hurl
  split_ifs at hurl
  cases hurl
  rw [ServerHistory.watchUrl, hpinned.1, hpinned.2, hversion]

theorem loopOk_attempt {w : UseWatch ListRequest WatchEvent} {g : ℕ}
    (href : s.list.getRef = some sel.ref) (hpinned : Pinned sel s.list)
    (hversion : s.list.resourceVersion = H.name v)
    (hs' : s'.list.resourceVersion = s.list.resourceVersion) :
    LoopOk b H sel s' (w.attempt b.watchOptions s.list g).2 := by
  intro _
  unfold UseWatch.attempt
  cases hurl : b.watchOptions.buildUrl s.list with
  | none => trivial
  | some url => exact ⟨v, buildUrl_at href hpinned hversion hurl, hs'.trans hversion⟩

theorem handleEvents_fixed (events : List WatchEvent) (l : ResourceList) :
    (events.foldl ResourceList.handleEvent l).getRef = l.getRef ∧
      (events.foldl ResourceList.handleEvent l).getOptions = l.getOptions ∧
      (events.foldl ResourceList.handleEvent l).loadedNamespace = l.loadedNamespace ∧
      (events.foldl ResourceList.handleEvent l).loadedLabelSelector = l.loadedLabelSelector := by
  obtain ⟨_, _, _, heq, -⟩ := handleEvents_spec events l
  rw [heq]
  exact ⟨rfl, rfl, rfl, rfl⟩

/-- A step of a current loop keeps the list at the version that its watch has delivered. -/
theorem own_loop {l l' : WatchLoop ListRequest} {i : WatchInput}
    {w : UseWatch ListRequest WatchEvent} {list : ResourceList}
    (hstep : LoopStep b.watchOptions s.watch s.list l i w list (.loop l'))
    (hserved : ServedOp b H sel s (.watching l) (.input i)) (hcursor : Cursor H sel s)
    (hok : LoopOk b H sel s l) (hheld : l.Held s.watch)
    (htext : TextHeld b.watchOptions s.watch l.pc) :
    Cursor H sel { s with watch := w, list } ∧ LoopOk b H sel { s with watch := w, list } l' := by
  have hcurrent (hc : w.current l'.gen = true) : s.watch.current l.gen = true := by
    rw [← hstep.gen.2.2 l' rfl]
    cases hstep <;> exact hc
  generalize hafter : WatchAfter.loop l' = after at hstep
  cases hstep with
  | @issue n url hpc ha =>
    cases hafter
    refine ⟨⟨hcursor.1, hcursor.2, hcursor.3, hcursor.4⟩, fun hc => ?_⟩
    have hurl := hok (hcurrent hc)
    rw [hpc] at hurl
    obtain ⟨v, rfl, hversion⟩ := hurl
    exact ⟨v, List.mem_append_right _ (List.mem_singleton_self _), hversion⟩
  | settle outcome hopen _ =>
    cases hafter
    exact ⟨hcursor, fun _ => trivial⟩
  | @read n hpc =>
    cases hafter
    refine ⟨hcursor, fun hc => ?_⟩
    have hurl := hok (hcurrent hc)
    rw [hpc] at hurl htext
    obtain ⟨v, hsent, hversion⟩ := hurl
    have hempty : s.watch.texts n = [] := htext
    refine ⟨v, v, hsent, ?_, hversion⟩
    rw [hempty]
    exact .nil v
  | @feed n buffer text pc hpc ha hnext =>
    cases hafter
    have hcurr := hheld.current (by rw [hpc]; rfl) ha
    have hread := hok hcurr
    rw [hpc] at hread htext
    obtain ⟨v, z, hsent, hdelivered, hversion⟩ := hread
    obtain ⟨hpinned, z₁, hat⟩ := hcursor.live (current_eq_true.mp hcurr).1
    obtain ⟨hcomplete, -, hevents, -⟩ := textHeld_feed text htext
    obtain ⟨z₂, hall⟩ := hserved.chunk l.gen n buffer text v (by rw [← hpc]) rfl hsent
    have hevents' : eventsOf b.parse (complete (s.watch.texts n ++ text)) =
        eventsOf b.parse (complete (s.watch.texts n)) ++
          eventsOf b.parse (complete (buffer ++ text)) := hevents
    obtain ⟨z₃, hbefore, hnew⟩ := History.Streams.append_iff.mp (hevents' ▸ hall)
    -- the list is at the version where the new events begin
    have hz : z₃ = z := delivers_unique hbefore hdelivered
    have hz₁ : z₁ = z := H.name_injective (hat.1.symm.trans hversion)
    subst hz hz₁
    have hafter := at_events hat hnew
    obtain ⟨href, hoptions, hns, hsel⟩ :=
      handleEvents_fixed (eventsOf b.parse (complete (buffer ++ text))) s.list
    constructor
    · constructor
      · exact href.trans hcursor.getRef
      · exact (congrArg _ hoptions).trans hcursor.namespace_
      · exact (congrArg _ hoptions).trans hcursor.labelSelector
      · exact fun _ => ⟨⟨hns.trans hpinned.1, hsel.trans hpinned.2⟩, z₂, hafter⟩
    · intro _
      rw [hnext]
      cases firstError b.watchOptions.parse (complete (buffer ++ text)) with
      | some code => trivial
      | none =>
        refine ⟨v, z₂, hsent, ?_, hafter.1⟩
        simp only [Function.update_self]
        exact hall
  | wait _ _ =>
    cases hafter
    exact ⟨⟨hcursor.1, hcursor.2, hcursor.3, hcursor.4⟩, fun _ => trivial⟩
  | next hpc hcurr =>
    cases hafter
    refine ⟨⟨hcursor.1, hcursor.2, hcursor.3, hcursor.4⟩, ?_⟩
    obtain ⟨hpinned, v, hat⟩ := hcursor.live (current_eq_true.mp hcurr).1
    exact loopOk_attempt hcursor.getRef hpinned hat.1 rfl
  | _ => cases hafter

/-- Where a refresh begins. -/
theorem own_walk {t : ListTask} (hcalls : Calls b s c e s₁) (hbegun : Begun s₁ s' t)
    (hcursor : Cursor H sel s) : Cursor H sel s' ∧ RefreshOk H sel s' (.walking t) := by
  obtain ⟨hlist, -⟩ := hcalls.list
  have href := hcursor.getRef
  have hns := hcursor.namespace_
  have hlabel := hcursor.labelSelector
  rw [← hlist] at href hns hlabel
  constructor
  · constructor
    · exact hbegun.getRef.trans href
    · rw [hbegun.getOptions]
      exact hns
    · rw [hbegun.getOptions]
      exact hlabel
    · intro hrun
      rw [hbegun.watch] at hrun
      cases hrun
  · intro _ hkind
    have hsame : t.ref = sel.ref := Option.some.inj (hbegun.ref.symm.trans href)
    obtain ⟨hloadedNs, hloadedLabel⟩ := hbegun.loaded hkind
    refine ⟨?_, ⟨?_, ?_⟩, (hbegun.keep hkind).2.1, ?_⟩
    · rw [ListTask.selection, hsame, hbegun.namespace_, hbegun.labelSelector, hns, hlabel]
    · rw [hloadedNs, hbegun.namespace_, hns]
    · rw [hloadedLabel, hbegun.labelSelector, hlabel]
    · rw [hbegun.walk, hbegun.pages]
      rfl

/-- Every operation keeps the list in step, and what its thread knows. -/
theorem replica_own (h : ListOp b s c e s' c') (hserved : ServedOp b H sel s c e)
    (hcursor : Cursor H sel s) (hok : ReplicaThread b H sel s c) (hquiet : Quiet s c)
    (hheld : ∀ l, c.loop = some l → l.Held s.watch)
    (htext : ∀ l, c.loop = some l → TextHeld b.watchOptions s.watch l.pc) :
    Cursor H sel s' ∧ ReplicaThread b H sel s' c' := by
  have hnone {t : ListThread} (ht : t.loop = none) (s' : ListPage) :
      ∀ l, t.loop = some l → LoopOk b H sel s' l := by
    intro l hl
    rw [ht] at hl
    cases hl
  cases h with
  | select ref options =>
    obtain ⟨href, hns, hlabel⟩ := hserved.select ref options rfl
    exact ⟨⟨href, hns, hlabel, hcursor.live⟩, trivial, hnone rfl _⟩
  | stopWatch =>
    exact ⟨⟨hcursor.getRef, hcursor.namespace_, hcursor.labelSelector, nofun⟩, trivial, hnone rfl _⟩
  | unmount =>
    exact ⟨⟨hcursor.getRef, hcursor.namespace_, hcursor.labelSelector, nofun⟩, trivial, hnone rfl _⟩
  | signedOut _ =>
    exact ⟨⟨hcursor.getRef, hcursor.namespace_, hcursor.labelSelector, nofun⟩, trivial, hnone rfl _⟩
  | walk hcalls hbegun =>
    obtain ⟨hcursor', hrefresh⟩ := own_walk hcalls hbegun hcursor
    exact ⟨hcursor', hrefresh, hnone rfl _⟩
  | noRef hcalls _ hno =>
    have href := hno.ref
    rw [hcalls.list.1, hcursor.getRef] at href
    cases href
  | response t r =>
    exact ⟨hcursor, own_response hserved hok.1, hnone (ListPage.loop_onResponse t r).1 _⟩
  | @superseded t outcome hgen =>
    refine ⟨hcursor, ?_, hnone t.loop_after _⟩
    unfold ListTask.after
    split_ifs
    · exact fun heq => absurd heq hgen
    · trivial
  | @assign t outcome hgen =>
    refine ⟨?_, own_assign hgen hok.1, hnone t.loop_after _⟩
    have hlive (hrun : s.watch.stopped = false) : False := hquiet hrun (congrArg some hgen)
    cases outcome with
    | ok walked =>
      exact ⟨hcursor.getRef, hcursor.namespace_, hcursor.labelSelector, fun h => (hlive h).elim⟩
    | error thrown =>
      exact ⟨hcursor.getRef, hcursor.namespace_, hcursor.labelSelector, fun h => (hlive h).elim⟩
  | late _ => exact ⟨hcursor, trivial, hnone rfl _⟩
  | watch hgen hwatchable =>
    obtain ⟨hpinned, hat⟩ := hok.1 hgen
    obtain ⟨v, hv⟩ := hat hwatchable
    refine ⟨⟨hcursor.getRef, hcursor.namespace_, hcursor.labelSelector, fun _ => ⟨hpinned, v, hv⟩⟩,
      trivial, ?_⟩
    intro l hl
    cases hl
    exact loopOk_attempt (s := { s with list := { s.list with watchDegraded := false } })
      hcursor.getRef hpinned hv.1 rfl
  | degrade _ _ =>
    exact ⟨⟨hcursor.getRef, hcursor.namespace_, hcursor.labelSelector, hcursor.live⟩, trivial,
      hnone rfl _⟩
  | @loop l l' i w list hstep =>
    obtain ⟨hcursor', hloop⟩ :=
      own_loop hstep hserved hcursor (hok.2 l rfl) (hheld l rfl) (htext l rfl)
    refine ⟨hcursor', trivial, ?_⟩
    intro m hm
    cases hm
    exact hloop
  | ended hstep =>
    refine ⟨?_, trivial, hnone rfl _⟩
    cases hstep <;>
      exact ⟨hcursor.getRef, hcursor.namespace_, hcursor.labelSelector, hcursor.live⟩
  | idle _ => exact ⟨hcursor, trivial, hnone rfl _⟩
  | disposed _ =>
    exact ⟨⟨hcursor.getRef, hcursor.namespace_, hcursor.labelSelector, hcursor.live⟩, trivial,
      hnone rfl _⟩

/-- No operation takes away what another thread knows: the latest load is one thread, and so
is the current loop. -/
theorem replica_other {d : ListThread} (h : ListOp b s c e s' c') (hok : ReplicaThread b H sel s d)
    (hcd : ApartGens c d) (hloops : (listHost b).Apart c d) (hgen : Generated s d)
    (hquiet : Quiet s c) (hquiet' : Quiet s d) (hc : (listHost b).Held s c)
    (hd : (listHost b).Held s d) : ReplicaThread b H sel s' d := by
  constructor
  · apply hok.1.frame
    intro hlatest
    rcases h.gens with ⟨hsame, -⟩ | ⟨hsucc, -⟩
    · rw [hsame] at hlatest
      have hother : c.gen ≠ some s.list.loadGen := fun hgen => hcd _ hgen hlatest
      refine ⟨hlatest, h.frame hother hsame fun l n hl hn => ?_⟩
      have hstopped : s.watch.stopped = true := by
        by_contra hrun
        exact hquiet' (Bool.eq_false_of_not_eq_true hrun) hlatest
      exact (hc l hl).aborted n hn (by simp [UseWatch.current, listHost, hstopped])
    · have hle := hgen _ hlatest
      omega
  · intro m hm
    have hback (hcurrent : s'.watch.current m.gen = true) : s.watch.current m.gen = true :=
      h.move.current (hd m hm).gen_le hcurrent
    apply (hok.2 m hm).frame hback
    intro hcurrent
    have hrun := (current_eq_true.mp (hback hcurrent)).1
    have hrun' := (current_eq_true.mp hcurrent).1
    have hdead (l : WatchLoop ListRequest) (n : ℕ) (hl : c.loop = some l)
        (hn : l.pc.attempt = some n) : n ∈ s.watch.aborted := by
      apply (hc l hl).aborted n hn
      rw [Bool.eq_false_iff]
      intro hcurrent'
      have heq := (current_eq_true.mp hcurrent').2
      exact hloops l hl m hm (heq.trans (current_eq_true.mp (hback hcurrent)).2.symm)
    obtain ⟨_, _, hlist⟩ := h.frame (hquiet hrun) (h.running hrun').1 hdead
    obtain ⟨htexts, hrequests⟩ := h.watch_frame (hquiet hrun) hrun' hdead
    exact ⟨by rw [hlist], htexts, hrequests⟩

/-! ## Runs -/

theorem list_replica (sel : Selection)
    (hp : (resourceList b (some sel.ref) options).Reach (ServesHistory b H sel) p)
    (hns : options.namespace_ = sel.namespace_) (hlabel : options.labelSelector = sel.labelSelector) :
    Cursor H sel p.shared ∧ ∀ c ∈ p.threads, ReplicaThread b H sel p.shared c := by
  refine Program.reach_invariant (J := (resourceList b (some sel.ref) options).Reachable)
    (fun p hp => hp.reachable) ⟨rfl, hns, hlabel, nofun⟩ ?_ (fun s call => ⟨trivial, nofun⟩) ?_ hp
  · intro c hc
    rw [List.mem_singleton.mp hc]
    exact ⟨trivial, nofun⟩
  · intro p i hi e s' c' hp hserves hcursor hthreads hop
    have hstep := list_op hop
    have hmem : p.threads[i] ∈ p.threads := List.getElem_mem hi
    have hheld := list_held hp
    obtain ⟨hcursor', hown⟩ := replica_own hstep (servedOp_of_servesHistory hi hserves) hcursor
      (hthreads _ hmem) (list_quiet hp _ hmem) (hheld _ hmem)
      (WatchHost.text list_fresh hp _ hmem)
    refine ⟨hcursor', hown, fun j hj hij => ?_⟩
    have hmem' : p.threads[j] ∈ p.threads := List.getElem_mem hj
    have hgens := Program.apart_of_ne (fun c d h g hg hg' => h g hg' hg) (list_apart hp) hi hj hij
    have hloops := Program.apart_of_ne WatchHost.apart_symm (WatchHost.apart list_fresh hp) hi hj hij
    exact replica_other hstep (hthreads _ hmem') hgens hloops (list_generated hp _ hmem')
      (list_quiet hp _ hmem) (list_quiet hp _ hmem') (hheld _ hmem) (hheld _ hmem')

/-- A watch loop is live. -/
def WatchLive (p : Pool ListPage ListThread) : Prop :=
  ∃ c ∈ p.threads, ∃ l ∈ c.loop, p.shared.watch.current l.gen = true

instance (p : Pool ListPage ListThread) : Decidable (WatchLive p) :=
  inferInstanceAs (Decidable (∃ c ∈ p.threads, ∃ l ∈ c.loop, p.shared.watch.current l.gen = true))

/-- Wherever the responses of the watch end or are cut, however often it is reopened and the
collection is listed anew: while a watch loop is live, the rows by key are the collection as
of the version that the list names. -/
theorem rows_at_version {ref : ResourceRef}
    (hp : (resourceList b (some ref) options).Reach
      (ServesHistory b H ⟨ref, options.namespace_, options.labelSelector⟩) p)
    (hlive : WatchLive p) :
    ∃ v, p.shared.list.resourceVersion = H.name v ∧ (p.shared.list.rows.map rowKey).Nodup ∧
      Keyed.lookup rowKey p.shared.list.rows = H.asOf v := by
  obtain ⟨_, -, _, -, hcurrent⟩ := hlive
  obtain ⟨hcursor, -⟩ := list_replica ⟨ref, options.namespace_, options.labelSelector⟩ hp rfl rfl
  obtain ⟨-, v, hversion, hindexed, hlookup⟩ := hcursor.live (current_eq_true.mp hcurrent).1
  exact ⟨v, hversion, hindexed.nodup, hlookup⟩

/-! ## A collection of two pods -/

/-- A version of the server: one more digit than the version before. -/
def digitName (v : ℕ) : JStr := List.replicate (v + 1) 49

def podObject (uid : JStr) (v : ℕ) : WatchObject where
  metadata := some { uid := some uid, resourceVersion := some (digitName v) }

def podRow (uid : JStr) (v : ℕ) : K8sTableRow := fallbackRow (podObject uid v).toK8sObject

/-- Pod a is there, pod b comes at version 1, and a goes at version 3. -/
def twoPods : ServerHistory where
  base k := if k = js "a" then some (podRow (js "a") 0) else none
  change
    | 1 => some (js "b", some (podRow (js "b") 1))
    | 3 => some (js "a", none)
    | _ => none
  name := digitName
  name_injective u v h := by
    have hlength := congrArg List.length h
    simp only [digitName, List.length_replicate] at hlength
    omega
  name_ne _ := nofun
  base_uid k row h := by
    split_ifs at h with hk
    cases h
    rw [hk]
    rfl
  change_uid v k row h := by
    split at h
    · cases h
      rfl
    · cases h
    · cases h

def watchLine (type object : String) : JStr :=
  js ("\x7b\"type\":\"" ++ type ++ "\",\"object\":\x7b" ++ object ++ "\x7d\x7d")

def addedLine : JStr :=
  watchLine "ADDED" "\"metadata\":\x7b\"uid\":\"b\",\"resourceVersion\":\"11\"\x7d"

def bookmarkLine : JStr := watchLine "BOOKMARK" "\"metadata\":\x7b\"resourceVersion\":\"111\"\x7d"

def deletedLine : JStr :=
  watchLine "DELETED" "\"metadata\":\x7b\"uid\":\"a\",\"resourceVersion\":\"1111\"\x7d"

def goneLine : JStr := watchLine "ERROR" "\"code\":410"

/-- A browser that knows these lines. -/
def podsBrowser : Browser where
  parse line :=
    if line = addedLine then .event ⟨.added, podObject (js "b") 1⟩
    else if line = bookmarkLine then
      .event ⟨.bookmark, { metadata := some { resourceVersion := some (digitName 2) } }⟩
    else if line = deletedLine then .event ⟨.deleted, podObject (js "a") 3⟩
    else if line = goneLine then .error (some 410)
    else .invalid
  toLowerCase := id

/-- The listing at a version, in one page. -/
def podsPage (rows : List K8sTableRow) (v : ℕ) : ListBody :=
  .table ⟨some { resourceVersion := some (digitName v) }, some [], some rows⟩

/-- What the servers of the run may send for a request that names a version: the text, and
the version it leads to. -/
def podsTexts : List (ℕ × JStr) :=
  [(0, addedLine ++ js "\n" ++ bookmarkLine ++ js "\n" ++ js "\x7b\"type\":\"DEL"),
    (2, deletedLine ++ js "\n" ++ goneLine ++ js "\n")]

def podsServe (p : Pool ListPage ListThread) : PoolAction ListCall ListEvent → Bool
  | .act i (.response (.ok body)) =>
    (match p.threads[i]? with
      | some (.walking t) => t.pages = []
      | _ => true) &&
    (body = podsPage [podRow (js "a") 0] 0 || body = podsPage [podRow (js "b") 1] 3)
  | .act i (.input (.chunk text)) =>
    match p.threads[i]? with
    | some (.watching ⟨_, .reading n _⟩) => podsTexts.any fun t =>
      p.shared.watch.texts n ++ text = t.2 &&
        p.shared.watch.requests.all fun r => r.1 ≠ n || r.2 = watchUrl podsRef none (digitName t.1) none
    | _ => true
  | .act _ (.select _ _) => false
  | _ => true

/-- A watch request names its version. -/
theorem watchUrl_version {ref : ResourceRef} {ns label : Option JStr} {x y : JStr}
    (h : watchUrl ref ns x label = watchUrl ref ns y label) : x = y := by
  have hparams := congrArg (fun r : ListRequest => r.params.take 4) h
  simpa [watchUrl] using hparams

theorem twoPods_lists_first : twoPods.Lists 0 [podRow (js "a") 0] := by
  refine ⟨List.nodup_singleton _, fun row => ?_⟩
  show row ∈ [_] ↔ ∃ k, (if k = js "a" then some _ else none) = some row
  constructor
  · intro h
    rw [List.mem_singleton.mp h]
    exact ⟨js "a", if_pos rfl⟩
  · rintro ⟨k, hk⟩
    split_ifs at hk
    cases hk
    exact List.mem_singleton_self _

theorem twoPods_asOf_three :
    twoPods.asOf 3 = Function.update (fun _ => none) (js "b") (some (podRow (js "b") 1)) := by
  have hasOf : twoPods.asOf 3 = Function.update
      (Function.update twoPods.base (js "b") (some (podRow (js "b") 1))) (js "a") none := rfl
  rw [hasOf]
  funext k
  by_cases ha : k = js "a"
  · subst ha
    rw [Function.update_self, Function.update_of_ne (by decide)]
  · rw [Function.update_of_ne ha]
    by_cases hb : k = js "b"
    · subst hb
      rw [Function.update_self, Function.update_self]
    · rw [Function.update_of_ne hb, Function.update_of_ne hb]
      exact if_neg ha

theorem twoPods_lists_last : twoPods.Lists 3 [podRow (js "b") 1] := by
  refine ⟨List.nodup_singleton _, fun row => ?_⟩
  rw [twoPods_asOf_three]
  constructor
  · intro h
    rw [List.mem_singleton.mp h]
    exact ⟨js "b", Function.update_self ..⟩
  · rintro ⟨k, hk⟩
    by_cases hb : k = js "b"
    · subst hb
      rw [Function.update_self] at hk
      cases hk
      exact List.mem_singleton_self _
    · rw [Function.update_of_ne hb] at hk
      cases hk

theorem podsPage_snapshot {rows : List K8sTableRow} {v : ℕ} (h : twoPods.Lists v rows) :
    twoPods.Snapshot v [(podsPage rows v).toResult] := by
  constructor
  · intro r hr
    rw [List.mem_singleton.mp hr]
    rfl
  · intro r hr _
    cases hr
    show twoPods.Lists v (rows ++ [])
    rw [List.append_nil]
    exact h

theorem podsTexts_deliver {v : ℕ} {text : JStr} (h : (v, text) ∈ podsTexts) :
    ∃ z, twoPods.Delivers v (eventsOf podsBrowser.parse (complete text)) z := by
  have hevents : podsTexts.map (fun t => eventsOf podsBrowser.parse (complete t.2)) =
      [[⟨.added, podObject (js "b") 1⟩,
        ⟨.bookmark, { metadata := some { resourceVersion := some (digitName 2) } }⟩],
        [⟨.deleted, podObject (js "a") 3⟩]] := by
    decide +kernel
  simp only [podsTexts, List.map_cons, List.map_nil, List.cons.injEq, and_true] at hevents
  simp only [podsTexts, List.mem_cons, List.not_mem_nil, or_false, Prod.mk.injEq] at h
  rcases h with ⟨rfl, rfl⟩ | ⟨rfl, rfl⟩
  · have hadded : twoPods.NextChange 0 1 (js "b", some (podRow (js "b") 1)) :=
      ⟨rfl, Nat.one_pos, fun w hw hw' => by omega⟩
    have hquiet : twoPods.Unchanged 1 2 := by
      refine ⟨Nat.le_succ 1, fun w hw hw' => ?_⟩
      cases Nat.le_antisymm hw' hw
      rfl
    rw [hevents.1]
    exact ⟨2, .change hadded ⟨rfl, .inl rfl, rfl⟩ (.mark hquiet ⟨rfl, rfl⟩ (.nil 2))⟩
  · have hdeleted : twoPods.NextChange 2 3 (js "a", none) :=
      ⟨rfl, Nat.lt_succ_self 2, fun w hw hw' => by omega⟩
    rw [hevents.2]
    exact ⟨3, .change hdeleted ⟨rfl, rfl, podRow (js "a") 3, rfl, rfl⟩ (.nil 3)⟩

theorem servesHistory_of_podsServe {p : Pool ListPage ListThread}
    {a : PoolAction ListCall ListEvent} (h : podsServe p a = true) :
    ServesHistory podsBrowser twoPods ⟨podsRef, none, none⟩ p a := by
  cases a with
  | spawn call => trivial
  | act i e =>
    cases e with
    | select ref options => cases h
    | response r =>
      cases r with
      | error thrown => trivial
      | ok body =>
        intro t ht _ _
        simp only [podsServe, ht, Bool.and_eq_true, Bool.or_eq_true, decide_eq_true_eq] at h
        obtain ⟨hpages, hbody⟩ := h
        rw [hpages, List.nil_append]
        rcases hbody with rfl | rfl
        · exact ⟨0, podsPage_snapshot twoPods_lists_first⟩
        · exact ⟨3, podsPage_snapshot twoPods_lists_last⟩
    | input input =>
      cases input with
      | chunk text =>
        intro gen n buffer v ht hurl
        simp only [podsServe, ht, List.any_eq_true, Bool.and_eq_true, decide_eq_true_eq,
          List.all_eq_true, Bool.or_eq_true] at h
        obtain ⟨⟨u, whole⟩, hmem, htext, hrequests⟩ := h
        have hurl' := (hrequests _ hurl).resolve_left (fun hne => hne rfl)
        have hv : v = u := twoPods.name_injective (watchUrl_version hurl')
        subst hv
        rw [htext]
        exact podsTexts_deliver hmem
      | _ => trivial
    | _ => trivial

/-- A watch that is cut in a line and reopened at its bookmark, then expires, and the listing
that follows. -/
def cutAndRelisted : List (PoolAction ListCall ListEvent) :=
  [.spawn .refresh, .act 1 .run, .act 1 (.response (.ok (podsPage [podRow (js "a") 0] 0))),
    .act 1 .run, .act 1 .run, .act 1 (.input .run), .act 1 (.input (.response true)),
    .act 1 (.input (.chunk podsTexts[0].2)), .act 1 (.input .readError), .act 1 (.input .run),
    .act 1 (.input .run), .act 1 (.input .run), .act 1 (.input (.response true)),
    .act 1 (.input (.chunk podsTexts[1].2)), .act 1 (.input .run),
    .act 1 (.response (.ok (podsPage [podRow (js "b") 1] 3))), .act 1 .run, .act 1 .run]

theorem cutAndRelisted_runs : ((resourceList podsBrowser (some podsRef) {}).exec
    (mountedList (some podsRef) {}) cutAndRelisted).isSome := by
  decide +kernel

theorem rows_at_version_cutAndRelisted :
    ∃ p, (resourceList podsBrowser (some podsRef) {}).exec (mountedList (some podsRef) {})
        cutAndRelisted = some p ∧
      ∃ v, p.shared.list.resourceVersion = twoPods.name v ∧ (p.shared.list.rows.map rowKey).Nodup ∧
        Keyed.lookup rowKey p.shared.list.rows = twoPods.asOf v := by
  have hinit : (resourceList podsBrowser (some podsRef) {}).Reach
      (ServesHistory podsBrowser twoPods ⟨podsRef, none, none⟩) (mountedList (some podsRef) {}) :=
    .init rfl
  have hp := (Option.some_get cutAndRelisted_runs).symm
  have hserve : (resourceList podsBrowser (some podsRef) {}).Along (fun p a => podsServe p a = true)
      (mountedList (some podsRef) {}) cutAndRelisted := by
    decide +kernel
  have hlive : WatchLive (Option.get _ cutAndRelisted_runs) := by decide +kernel
  exact ⟨_, hp, rows_at_version (hinit.exec (hserve.mono fun _ _ => servesHistory_of_podsServe) hp)
    hlive⟩

end KubeConsole.Web
