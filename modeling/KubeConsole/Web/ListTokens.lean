import KubeConsole.Web.ListContext

/-!
The continue token and the version of a list: of the selection of its most recent walk,
unless a walk of another selection has failed over them.
-/
namespace KubeConsole.Web
open KubeConsole.Theory

variable {b : Browser} {ref : Option ResourceRef} {options : ResourceListOptions}
  {s s' s₁ : ListPage} {c c' : ListThread} {e : ListEvent} {p : Pool ListPage ListThread}

/-- The token and the version that the list has, if any, were returned by a listing of this
selection. -/
def TokensOf (l : ResourceList) (sel : Option Selection) : Prop :=
  (l.continueToken ≠ [] → sel.isSome ∧ l.tokenOf = sel) ∧
    (l.resourceVersion ≠ [] → sel.isSome ∧ l.versionOf = sel)

instance (l : ResourceList) (sel : Option Selection) : Decidable (TokensOf l sel) :=
  inferInstanceAs (Decidable (_ ∧ _))

/-- Thread `i` is a walk that fails as the latest over tokens of another selection, or a call
of `load` that finds no resource and leaves a token or a version. -/
def failsOverTokens (b : Browser) (p : Pool ListPage ListThread) :
    PoolAction ListCall ListEvent → Bool
  | .act i .run =>
    match p.threads[i]? with
    | some (.walked t (.error _)) =>
      t.gen = p.shared.list.loadGen && !decide (TokensOf p.shared.list (some t.selection))
    | some c =>
      p.shared.list.getRef.isNone && p.shared.loads b c && !decide (TokensOf p.shared.list none)
    | none => false
  | .act i (.input .run) =>
    match p.threads[i]? with
    | some c =>
      p.shared.list.getRef.isNone && p.shared.loads b c && !decide (TokensOf p.shared.list none)
    | none => false
  | _ => false

def FailsCleanly (b : Browser) (p : Pool ListPage ListThread) (a : PoolAction ListCall ListEvent) :
    Prop :=
  failsOverTokens b p a = false

instance (p : Pool ListPage ListThread) (a : PoolAction ListCall ListEvent) :
    Decidable (FailsCleanly b p a) :=
  inferInstanceAs (Decidable (_ = _))

/-- The walk that a thread is on. -/
def ListThread.task : ListThread → Option ListTask
  | .walking t | .walked t _ => some t
  | _ => none

theorem ListPage.task_onResponse (t : ListTask) (r : Except Thrown ListBody) :
    ∃ t', (s.onResponse t r).task = some t' ∧ t'.gen = t.gen ∧ t'.selection = t.selection := by
  cases r with
  | error e => exact ⟨t, rfl, rfl, rfl⟩
  | ok body =>
    unfold ListPage.onResponse
    dsimp only
    split_ifs <;> exact ⟨_, rfl, rfl, rfl⟩

theorem ListTask.task_after (t : ListTask) : t.after.task = none := by
  unfold ListTask.after
  split_ifs <;> rfl

/-- The last walk that began, and whose it is. -/
theorem ListOp.lastWalk (h : ListOp b s c e s' c') :
    (s'.list.loadGen = s.list.loadGen ∧ s'.list.lastWalk = s.list.lastWalk ∧
        ∀ t', c'.task = some t' → ∃ t, c.task = some t ∧ t'.gen = t.gen ∧ t'.selection = t.selection) ∨
      (s'.list.loadGen = s.list.loadGen + 1 ∧
        ∀ t', c'.task = some t' → t'.gen = s'.list.loadGen ∧ s'.list.lastWalk = some t'.selection) := by
  cases h with
  | walk hcalls hbegun =>
    refine .inr ⟨hcalls.bumped hbegun.toBumped, fun t' ht => ?_⟩
    cases ht
    exact ⟨hbegun.gen.trans hbegun.loadGen.symm, hbegun.lastWalk⟩
  | noRef hcalls _ hnone =>
    refine .inr ⟨hcalls.bumped hnone.toBumped, fun t' ht => ?_⟩
    split_ifs at ht <;> cases ht
  | response t r =>
    refine .inl ⟨rfl, rfl, fun t' ht => ?_⟩
    obtain ⟨t'', htask, hgen, hsel⟩ := ListPage.task_onResponse (s := s) t r
    cases htask.symm.trans ht
    exact ⟨t, rfl, hgen, hsel⟩
  | superseded _ _ =>
    refine .inl ⟨rfl, rfl, fun t' ht => ?_⟩
    rw [ListTask.task_after] at ht
    cases ht
  | assign outcome _ =>
    refine .inl ⟨by cases outcome <;> rfl, by cases outcome <;> rfl, fun t' ht => ?_⟩
    rw [ListTask.task_after] at ht
    cases ht
  | loop hstep =>
    obtain ⟨hgen, hlast, -⟩ := loopStep_frame hstep
    exact .inl ⟨hgen, hlast, fun _ ht => by cases ht⟩
  | ended hstep =>
    obtain ⟨hgen, hlast, -⟩ := loopStep_frame hstep
    exact .inl ⟨hgen, hlast, fun _ ht => by cases ht⟩
  | _ => exact .inl ⟨rfl, rfl, fun _ ht => by cases ht⟩

/-- The latest walk is the last one that began. -/
def LastWalk (s : ListPage) (c : ListThread) : Prop :=
  ∀ t, c.task = some t → t.gen = s.list.loadGen → s.list.lastWalk = some t.selection

theorem ListThread.gen_of_task {t : ListTask} (h : c.task = some t) : c.gen = some t.gen := by
  cases c <;> cases h <;> rfl

theorem list_lastWalk (hp : (resourceList b ref options).Reachable p) :
    ∀ c ∈ p.threads, LastWalk p.shared c := by
  refine Program.forall_threads_apart (R := ApartGens) (K := Generated)
    (fun c d h g hg hg' => h g hg' hg) (fun p => list_apart) (fun p => list_generated) ?_
    (fun s b k => nofun) ?_ ?_ hp
  · intro c hc
    rw [List.mem_singleton.mp hc]
    exact fun _ => nofun
  · intro s c e s' c' _ hI hop t' ht hlatest
    rcases (list_op hop).lastWalk with ⟨hgen, hlast, hback⟩ | ⟨-, hnew⟩
    · obtain ⟨t, htask, hgens, hsel⟩ := hback t' ht
      rw [hlast, hsel]
      exact hI t htask (hgens ▸ hgen ▸ hlatest)
    · exact (hnew t' ht).2
  · intro s c e s' c' d _ hgd _ _ hd hop t ht hlatest
    have hle := hgd _ (ListThread.gen_of_task ht)
    rcases (list_op hop).lastWalk with ⟨hgen, hlast, -⟩ | ⟨hsucc, -⟩
    · rw [hlast]
      exact hd t ht (hgen ▸ hlatest)
    · omega

/-- No walk is in flight that is still the latest. -/
def Walked (p : Pool ListPage ListThread) : Prop :=
  ∀ c ∈ p.threads, ∀ t, c.task = some t → t.gen ≠ p.shared.list.loadGen

theorem TokensOf.congr {l l' : ResourceList} {sel : Option Selection} (h : TokensOf l sel)
    (htoken : l'.continueToken = l.continueToken) (htokenOf : l'.tokenOf = l.tokenOf)
    (hversion : l'.resourceVersion ≠ [] → l.resourceVersion ≠ [])
    (hversionOf : l'.versionOf = l.versionOf) : TokensOf l' sel := by
  refine ⟨fun ht => ?_, fun hv => ?_⟩
  · rw [htokenOf]
    exact h.1 (htoken ▸ ht)
  · rw [hversionOf]
    exact h.2 (hversion hv)

theorem tokensOf_assign {t : ListTask} (outcome : Except Thrown WalkResult)
    (herror : ∀ thrown, outcome = .error thrown → TokensOf s.list (some t.selection)) :
    TokensOf (s.assign t outcome) (some t.selection) := by
  cases outcome with
  | ok walked => exact ⟨fun _ => ⟨rfl, rfl⟩, fun _ => ⟨rfl, rfl⟩⟩
  | error thrown => exact (herror thrown rfl).congr rfl rfl id rfl

/-- What the conditions on a step say of its operation. -/
structure CleanOp (b : Browser) (s : ListPage) (c : ListThread) (e : ListEvent) : Prop where
  failed : ∀ t thrown, c = .walked t (.error thrown) → e = .run → t.gen = s.list.loadGen →
    TokensOf s.list (some t.selection)
  noRef : s.list.getRef = none → s.loads b c = true → e = .run ∨ e = .input .run →
    TokensOf s.list none

theorem Calls.event (h : Calls b s c e s₁) : e = .run ∨ e = .input .run := by
  cases h with
  | stale hstep =>
    cases hstep
    exact .inr rfl
  | _ => exact .inl rfl

/-- Unless a walk begins, an operation leaves the tokens of the last walk that began. -/
theorem ListOp.tokensOf (h : ListOp b s c e s' c') (hclean : CleanOp b s c e) (hlast : LastWalk s c)
    (hlive : ∀ l n, c.loop = some l → l.pc.attempt = some n → n ∉ s.watch.aborted →
      s.list.resourceVersion ≠ [])
    (hbefore : (∀ t, c.task = some t → t.gen ≠ s.list.loadGen) →
      s'.list.loadGen = s.list.loadGen → TokensOf s.list s.list.lastWalk)
    (hafter : ∀ t, c'.task = some t → t.gen ≠ s'.list.loadGen) :
    TokensOf s'.list s'.list.lastWalk := by
  have hloop {l : WatchLoop ListRequest} {i : WatchInput} {w : UseWatch ListRequest WatchEvent}
      {list : ResourceList} {after : WatchAfter ListRequest} (hl : c.loop = some l)
      (hbefore : list.loadGen = s.list.loadGen → TokensOf s.list s.list.lastWalk)
      (hstep : LoopStep b.watchOptions s.watch s.list l i w list after) :
      TokensOf list list.lastWalk := by
    rcases loopStep_list hstep with rfl | ⟨⟨n, -, hn, ha, -⟩, _, _, _, rfl, -⟩
    · exact hbefore rfl
    · exact (hbefore rfl).congr rfl rfl (fun _ => hlive l n hl hn ha) rfl
  cases h with
  | walk hcalls hbegun => exact absurd (hbegun.gen.trans hbegun.loadGen.symm) (hafter _ rfl)
  | noRef hcalls hloads hnone =>
    have hlist := hcalls.list.1
    have href := hnone.ref
    rw [hlist] at href
    rw [hnone.lastWalk]
    refine (hclean.noRef href hloads hcalls.event).congr ?_ ?_ ?_ ?_
    · rw [hnone.continueToken, hlist]
    · rw [hnone.tokenOf, hlist]
    · rw [hnone.resourceVersion, hlist]
      exact id
    · rw [hnone.versionOf, hlist]
  | @assign t outcome hgen =>
    have hwalk : (s.assign t outcome).lastWalk = some t.selection := by
      rw [← hlast _ rfl hgen]
      cases outcome <;> rfl
    rw [hwalk]
    exact tokensOf_assign outcome fun thrown h => hclean.failed _ thrown (h ▸ rfl) rfl hgen
  | superseded _ hgen => exact hbefore (fun t ht => by cases ht; exact hgen) rfl
  | response t r =>
    obtain ⟨t', htask, hgen, -⟩ := ListPage.task_onResponse (s := s) t r
    refine hbefore (fun t'' ht => ?_) rfl
    cases ht
    exact hgen ▸ hafter t' htask
  | loop hstep => exact hloop rfl (hbefore fun _ ht => by cases ht) hstep
  | ended hstep => exact hloop rfl (hbefore fun _ ht => by cases ht) hstep
  | _ => exact (hbefore (fun _ ht => by cases ht) rfl).congr rfl rfl id rfl

theorem cleanOp_of_failsCleanly {i : ℕ} (hi : i < p.threads.length)
    (h : FailsCleanly b p (.act i e)) : CleanOp b p.shared p.threads[i] e := by
  have hget := List.getElem?_eq_getElem hi
  generalize p.threads[i] = c at hget
  constructor
  · rintro t thrown rfl rfl hgen
    simpa [FailsCleanly, failsOverTokens, hget, hgen] using h
  · intro href hloads hevent
    rcases hevent with rfl | rfl
    · cases c with
      | walked t outcome => cases hloads
      | _ => simpa [FailsCleanly, failsOverTokens, hget, href, hloads] using h
    · simpa [FailsCleanly, failsOverTokens, hget, href, hloads] using h

/-- A loop that can still deliver is one of a list with a version. -/
theorem version_of_live (hp : (resourceList b ref options).Reachable p) (hc : c ∈ p.threads)
    {l : WatchLoop ListRequest} (hl : c.loop = some l) {n : ℕ} (hn : l.pc.attempt = some n)
    (ha : n ∉ p.shared.watch.aborted) : p.shared.list.resourceVersion ≠ [] := by
  have hcurrent := (list_held hp c hc l hl).current hn ha
  exact (list_whole hp (current_eq_true.mp hcurrent).1).1

theorem tokens_reach (hp : (resourceList b ref options).Reach (FailsCleanly b) p) :
    Walked p → TokensOf p.shared.list p.shared.list.lastWalk := by
  refine hp.invariant_with (J := (resourceList b ref options).Reachable)
    (I := fun p => Walked p → TokensOf p.shared.list p.shared.list.lastWalk)
    (fun p hp => hp.reachable) ?_ ?_
  · rintro _ rfl -
    exact ⟨fun h => absurd rfl h, fun h => absurd rfl h⟩
  · intro p a q hp hI hclean hq hwalked
    cases a with
    | spawn call =>
      cases hq
      exact hI fun c hc => hwalked c (List.mem_append_left _ hc)
    | act i e =>
      obtain ⟨hi, s', c', hop, rfl⟩ := Program.act_eq_some hq
      have hm : p.threads[i] ∈ p.threads := List.getElem_mem hi
      refine (list_op hop).tokensOf (cleanOp_of_failsCleanly hi hclean) (list_lastWalk hp _ hm)
        (fun l n hl hn ha => version_of_live hp hm hl hn ha) (fun hown hsame => hI ?_)
        (fun t ht => hwalked c' (List.mem_set hi c') t ht)
      intro d hd t ht
      obtain ⟨j, hj, rfl⟩ := List.getElem_of_mem hd
      by_cases hij : i = j
      · subst hij
        exact hown t ht
      · have hmem : p.threads[j] ∈ p.threads.set i c' := by
          rw [← List.getElem_set_ne hij (by simpa using hj)]
          exact List.getElem_mem _
        exact hsame ▸ hwalked _ hmem t ht

/-- In every run in which a load or search that fails as the latest, or finds no resource,
finds no token and no version but those of its own selection: with no load in flight that is
still the latest, a token and a version of the list were returned by a listing of the
selection of the most recent load. -/
theorem tokens_of_last_load (hp : (resourceList b ref options).Reach (FailsCleanly b) p)
    (hidle : latestInFlight p = false) :
    (p.shared.list.continueToken ≠ [] →
      ∃ sel, p.shared.list.lastWalk = some sel ∧ p.shared.list.tokenOf = some sel) ∧
    (p.shared.list.resourceVersion ≠ [] →
      ∃ sel, p.shared.list.lastWalk = some sel ∧ p.shared.list.versionOf = some sel) := by
  have hwalked : Walked p := by
    intro c hc t ht hgen
    have hflight : latestInFlight p = true := by
      refine List.any_eq_true.mpr ⟨c, hc, decide_eq_true ?_⟩
      rw [ListThread.gen_of_task ht, hgen]
    rw [hidle] at hflight
    cases hflight
  obtain ⟨htoken, hversion⟩ := tokens_reach hp hwalked
  constructor
  · intro h
    obtain ⟨hsome, heq⟩ := htoken h
    obtain ⟨sel, hsel⟩ := Option.isSome_iff_exists.mp hsome
    exact ⟨sel, hsel, heq.trans hsel⟩
  · intro h
    obtain ⟨hsome, heq⟩ := hversion h
    obtain ⟨sel, hsel⟩ := Option.isSome_iff_exists.mp hsome
    exact ⟨sel, hsel, heq.trans hsel⟩

/-! ## A failed load of another selection -/

/-- A page that is not the last one. -/
def morePods : ListBody :=
  .table ⟨some { resourceVersion := some (js "7"), continue_ := some (js "t") }, some [], some []⟩

/-- A collection beyond the cap is listed; the next refresh, with a label selector, fails; and
then the next page is asked for. -/
def failedSelector : List (PoolAction ListCall ListEvent) :=
  [.spawn .refresh, .act 1 .run] ++ List.replicate 10 (.act 1 (.response (.ok morePods))) ++
    [.act 1 .run, .act 1 .run,
      .act 0 (.select (some podsRef) { labelSelector := some (js "app=b") }), .spawn .refresh,
      .act 2 .run, .act 2 (.response (.error .other)), .act 2 .run, .act 2 .run]

theorem failedSelector_runs : ((resourceList plainBrowser (some podsRef) {}).exec
    (mountedList (some podsRef) {}) failedSelector).isSome := by
  decide +kernel

def failedOver : Pool ListPage ListThread := Option.get _ failedSelector_runs

/-- The token of the whole collection is left, and is what the next page is listed with. -/
theorem failed_load_leaves_token :
    (resourceList plainBrowser (some podsRef) {}).Reachable failedOver ∧
      latestInFlight failedOver = false ∧ failedOver.shared.list.continueToken = js "t" ∧
      failedOver.shared.list.tokenOf = some ⟨podsRef, none, none⟩ ∧
      failedOver.shared.list.lastWalk = some ⟨podsRef, none, some (js "app=b")⟩ ∧
      failedOver.shared.nextPage.2.task.map
        (fun t => (t.opts.continueToken, t.opts.labelSelector)) =
          some (some (js "t"), some (js "app=b")) := by
  have hinit : (resourceList plainBrowser (some podsRef) {}).Reachable
      (mountedList (some podsRef) {}) := .init rfl
  refine ⟨hinit.exec failedSelector (Option.some_get failedSelector_runs).symm, ?_⟩
  decide +kernel

/-- A refresh that fails over the version of its own selection. -/
def failedAgain : List (PoolAction ListCall ListEvent) :=
  [.spawn .refresh, .act 1 .run, .act 1 (.response (.ok noPods)), .act 1 .run, .act 1 .run,
    .spawn .refresh, .act 2 .run, .act 2 (.response (.error .other)), .act 2 .run, .act 2 .run]

theorem failedAgain_runs : ((resourceList plainBrowser (some podsRef) {}).exec
    (mountedList (some podsRef) {}) failedAgain).isSome := by
  decide +kernel

def failedTwice : Pool ListPage ListThread := Option.get _ failedAgain_runs

theorem tokens_of_last_load_failedAgain :
    ∃ p, (resourceList plainBrowser (some podsRef) {}).exec (mountedList (some podsRef) {})
        failedAgain = some p ∧ p.shared.list.resourceVersion = js "7" ∧
      ∃ sel, p.shared.list.lastWalk = some sel ∧ p.shared.list.versionOf = some sel := by
  have hinit : (resourceList plainBrowser (some podsRef) {}).Reach (FailsCleanly plainBrowser)
      (mountedList (some podsRef) {}) := .init rfl
  have hp : (resourceList plainBrowser (some podsRef) {}).exec (mountedList (some podsRef) {})
      failedAgain = some failedTwice := (Option.some_get failedAgain_runs).symm
  have hclean : (resourceList plainBrowser (some podsRef) {}).Along (FailsCleanly plainBrowser)
      (mountedList (some podsRef) {}) failedAgain := by
    decide +kernel
  have hnone : latestInFlight failedTwice = false := by decide +kernel
  have hversion : failedTwice.shared.list.resourceVersion = js "7" := by decide +kernel
  have hne : failedTwice.shared.list.resourceVersion ≠ [] := by decide +kernel
  have htokens := tokens_of_last_load (hinit.exec hclean hp) hnone
  exact ⟨failedTwice, hp, hversion, htokens.2 hne⟩

end KubeConsole.Web
