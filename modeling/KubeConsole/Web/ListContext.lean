import KubeConsole.Web.ListUnmount

/-!
Changes of the active context under a list: a walk of the context before leaves no trace,
unless the change was to a context without a session and found the walk in flight.
-/
namespace KubeConsole.Web
open KubeConsole.Theory

variable {b : Browser} {ref : Option ResourceRef} {options : ResourceListOptions}
  {s s' s₁ : ListPage} {c c' : ListThread} {e : ListEvent} {p : Pool ListPage ListThread}

/-- A load or search is in flight that has not been superseded. -/
def latestInFlight (p : Pool ListPage ListThread) : Bool :=
  p.threads.any fun c => c.gen = some p.shared.list.loadGen

/-- The active context changes without a reload, for want of a session or of a mounted list,
over a walk in flight. -/
def changesOverWalk (p : Pool ListPage ListThread) : PoolAction ListCall ListEvent → Bool
  | .act i .run =>
    match p.threads[i]? with
    | some (.called (.context authenticated)) =>
      (!authenticated || p.shared.unmounted) && latestInFlight p
    | _ => false
  | _ => false

def ReloadsOverWalk (p : Pool ListPage ListThread) (a : PoolAction ListCall ListEvent) : Prop :=
  changesOverWalk p a = false

instance (p : Pool ListPage ListThread) (a : PoolAction ListCall ListEvent) :
    Decidable (ReloadsOverWalk p a) :=
  inferInstanceAs (Decidable (_ = _))

/-- A step on behalf of a walk that began before the last context change leaves the refs of
the list and its watch as they are. -/
def OldWalksIdle (b : Browser) (p : Pool ListPage ListThread) : Prop :=
  ∀ i e q c epoch, (useResourceList b).act p i e = some q → p.threads[i]? = some c →
    c.epoch = some epoch → epoch < p.shared.epoch →
    q.shared.list = p.shared.list ∧ q.shared.watch = p.shared.watch

/-- An operation goes on with a walk, begins one, or changes the context without a reload. -/
theorem ListOp.epochs (h : ListOp b s c e s' c') :
    (s'.epoch = s.epoch ∧ s'.list.loadGen = s.list.loadGen ∧
        ∀ k, c'.epoch = some k → c.epoch = some k ∧ c'.gen = c.gen) ∨
      (s.epoch ≤ s'.epoch ∧ s'.list.loadGen = s.list.loadGen + 1 ∧
        ∀ k, c'.epoch = some k → k = s'.epoch) ∨
      ∃ a, c = .called (.context a) ∧ e = .run ∧ (!a || s.unmounted) = true ∧
        s'.epoch = s.epoch + 1 ∧ s'.list.loadGen = s.list.loadGen ∧ c'.epoch = none := by
  have hafter (t : ListTask) : ∀ k, t.after.epoch = some k →
      some t.epoch = some k ∧ t.after.gen = some t.gen := by
    intro k hk
    unfold ListTask.after at hk ⊢
    split_ifs at hk ⊢
    · exact ⟨hk, rfl⟩
    · cases hk
  have hcall {s₁ : ListPage} (hcalls : Calls b s c e s₁) : s.epoch ≤ s₁.epoch := by
    cases hcalls with
    | context _ => exact Nat.le_succ _
    | _ => exact le_rfl
  have hgens := h.gens
  cases h with
  | disposed hu => exact .inr (.inr ⟨_, rfl, rfl, by simp [hu], rfl, rfl, rfl⟩)
  | signedOut _ => exact .inr (.inr ⟨_, rfl, rfl, rfl, rfl, rfl, rfl⟩)
  | walk hcalls hbegun =>
    refine .inr (.inl ⟨hbegun.epoch ▸ hcall hcalls, hcalls.bumped hbegun.toBumped, ?_⟩)
    intro k hk
    cases hk
    rw [hbegun.taskEpoch, hbegun.epoch]
  | noRef hcalls _ hnone =>
    refine .inr (.inl ⟨hnone.epoch ▸ hcall hcalls, hcalls.bumped hnone.toBumped, ?_⟩)
    intro k hk
    split_ifs at hk
    · cases hk
      rfl
    · cases hk
  | response t r =>
    obtain ⟨-, hgen, -, hepoch⟩ := ListPage.loop_onResponse (s := s) t r
    exact .inl ⟨rfl, rfl, fun k hk => ⟨hepoch.symm.trans hk, hgen⟩⟩
  | superseded _ _ => exact .inl ⟨rfl, rfl, hafter _⟩
  | assign outcome _ => exact .inl ⟨rfl, by cases outcome <;> rfl, hafter _⟩
  | loop _ =>
    rcases hgens with ⟨hsame, -⟩ | ⟨-, -, -, -, _, _, hcalls, hbumped, -⟩
    · exact .inl ⟨rfl, hsame, nofun⟩
    · exact .inr (.inl ⟨le_rfl, hcalls.bumped hbumped, nofun⟩)
  | ended _ =>
    rcases hgens with ⟨hsame, -⟩ | ⟨-, -, -, -, _, _, hcalls, hbumped, -⟩
    · exact .inl ⟨rfl, hsame, nofun⟩
    · exact .inr (.inl ⟨le_rfl, hcalls.bumped hbumped, nofun⟩)
  | _ => exact .inl ⟨rfl, rfl, nofun⟩

/-- A walk of the context before is not the latest. -/
def Outdated (s : ListPage) (c : ListThread) : Prop :=
  ∀ k, c.epoch = some k → k < s.epoch → c.gen ≠ some s.list.loadGen

theorem list_outdated (hp : (resourceList b ref options).Reach ReloadsOverWalk p) :
    ∀ c ∈ p.threads, Outdated p.shared c := by
  refine hp.invariant_with (J := fun p => ∀ c ∈ p.threads, Generated p.shared c)
    (I := fun p => ∀ c ∈ p.threads, Outdated p.shared c)
    (fun p hp => list_generated hp.reachable) ?_ ?_
  · rintro _ rfl c hc
    rw [List.mem_singleton.mp hc]
    exact fun _ => nofun
  · intro p a q hJ hI hreload hq
    cases a with
    | spawn call =>
      cases hq
      intro c hc
      rcases List.mem_append.mp hc with hc | hc
      · exact hI c hc
      · rw [List.mem_singleton.mp hc]
        exact fun _ => nofun
    | act i e =>
      obtain ⟨hi, s', c', hop, rfl⟩ := Program.act_eq_some hq
      have hm : p.threads[i] ∈ p.threads := List.getElem_mem hi
      have hepochs := (list_op hop).epochs
      intro d hd k hk hlt hlatest
      rcases List.mem_or_eq_of_mem_set hd with hd | rfl
      · have hle : s'.list.loadGen ≤ p.shared.list.loadGen := hJ d hd _ hlatest
        rcases hepochs with ⟨hepoch, hgen, -⟩ | ⟨-, hgen, -⟩ | ⟨a, hc, rfl, ha, -, hgen, -⟩
        · exact hI d hd k hk (hepoch ▸ hlt) (hgen ▸ hlatest)
        · omega
        · have hflight : latestInFlight p = true :=
            List.any_eq_true.mpr ⟨d, hd, decide_eq_true (hgen ▸ hlatest)⟩
          simp [ReloadsOverWalk, changesOverWalk, List.getElem?_eq_getElem hi, hc, ha, hflight]
            at hreload
      · rcases hepochs with ⟨hepoch, hgen, hsame⟩ | ⟨-, -, hnew⟩ | ⟨-, -, -, -, -, -, hnone⟩
        · obtain ⟨hback, hgens⟩ := hsame k hk
          exact hI _ hm k hback (hepoch ▸ hlt) (hgens ▸ hgen ▸ hlatest)
        · exact hlt.ne (hnew k hk)
        · rw [hnone] at hk
          cases hk

/-- In every run in which each change of the active context reloads the mounted list or finds
no walk in flight that is still the latest: a walk that began before the last change never
assigns a ref of the list, and no watch is started on its behalf. -/
theorem old_walks_idle (hp : (resourceList b ref options).Reach ReloadsOverWalk p) :
    OldWalksIdle b p := by
  intro i e q c k hq hc hk hlt
  obtain ⟨hi, s', c', hop, rfl⟩ := Program.act_eq_some hq
  obtain ⟨_, hget⟩ := List.getElem?_eq_some_iff.mp hc
  rw [hget] at hop
  have hnot := list_outdated hp c (List.mem_of_getElem? hc) k hk hlt
  cases list_op hop with
  | assign _ hgen => exact absurd (congrArg some hgen) hnot
  | watch hgen _ => exact absurd (congrArg some hgen) hnot
  | degrade hgen _ => exact absurd (congrArg some hgen) hnot
  | response _ _ => exact ⟨rfl, rfl⟩
  | superseded _ _ => exact ⟨rfl, rfl⟩
  | late _ => exact ⟨rfl, rfl⟩
  | walk hcalls _ => cases hcalls <;> cases hk
  | noRef hcalls _ _ => cases hcalls <;> cases hk
  | _ => cases hk

/-! ## A switch to a context without a session -/

/-- A collection of one pod at version 7. -/
def onePod : ListBody := .table ⟨some { resourceVersion := some (js "7") }, some [],
  some [⟨[js "web-0"], none⟩]⟩

/-- The list of one context is on its way when the user switches to another one. -/
def switchedAway : List (PoolAction ListCall ListEvent) :=
  [.spawn .refresh, .act 1 .run, .spawn (.context false), .act 2 .run,
    .act 1 (.response (.ok onePod))]

theorem switchedAway_runs : ((resourceList plainBrowser (some podsRef) {}).exec
    (mountedList (some podsRef) {}) switchedAway).isSome := by
  decide +kernel

def switchedMidWalk : Pool ListPage ListThread := Option.get _ switchedAway_runs

/-- The refresh of the context before fills the list, and then starts the watch. -/
theorem old_walk_assigned :
    (resourceList plainBrowser (some podsRef) {}).Reachable switchedMidWalk ∧
      ¬ OldWalksIdle plainBrowser switchedMidWalk ∧
      ∃ q r, (useResourceList plainBrowser).act switchedMidWalk 1 .run = some q ∧
        q.shared.list.rows = [⟨[js "web-0"], none⟩] ∧
        (useResourceList plainBrowser).act q 1 .run = some r ∧
        r.shared.watch.stopped = false := by
  have hinit : (resourceList plainBrowser (some podsRef) {}).Reachable
      (mountedList (some podsRef) {}) := .init rfl
  have hrows : ((useResourceList plainBrowser).act switchedMidWalk 1 .run).map
      (·.shared.list.rows) = some [⟨[js "web-0"], none⟩] := by
    decide +kernel
  have hwatch : (((useResourceList plainBrowser).act switchedMidWalk 1 .run).bind
      fun q => ((useResourceList plainBrowser).act q 1 .run).map (·.shared.watch.stopped)) =
        some false := by
    decide +kernel
  obtain ⟨q, hq, hqrows⟩ := Option.map_eq_some_iff.mp hrows
  rw [hq, Option.bind_some] at hwatch
  obtain ⟨r, hr, hrun⟩ := Option.map_eq_some_iff.mp hwatch
  refine ⟨hinit.exec switchedAway (Option.some_get switchedAway_runs).symm, fun hidle => ?_,
    q, r, hq, hqrows, hr, hrun⟩
  have hold : (switchedMidWalk.threads[1]?.bind (·.epoch)) = some 0 := by decide +kernel
  obtain ⟨c, hc, hepoch⟩ := Option.bind_eq_some_iff.mp hold
  have hlist := (hidle 1 .run q c 0 hq hc hepoch (by decide +kernel)).1
  have hempty : switchedMidWalk.shared.list.rows = [] := by decide +kernel
  rw [hlist, hempty] at hqrows
  cases hqrows

/-- The same switch to a context with a session. -/
def switchedOver : List (PoolAction ListCall ListEvent) :=
  [.spawn .refresh, .act 1 .run, .spawn (.context true), .act 2 .run,
    .act 1 (.response (.ok onePod))]

theorem switchedOver_runs : ((resourceList plainBrowser (some podsRef) {}).exec
    (mountedList (some podsRef) {}) switchedOver).isSome := by
  decide +kernel

theorem old_walks_idle_switchedOver :
    ∃ p, (resourceList plainBrowser (some podsRef) {}).exec (mountedList (some podsRef) {})
        switchedOver = some p ∧ OldWalksIdle plainBrowser p := by
  have hinit : (resourceList plainBrowser (some podsRef) {}).Reach ReloadsOverWalk
      (mountedList (some podsRef) {}) := .init rfl
  have hp := (Option.some_get switchedOver_runs).symm
  have hreload : (resourceList plainBrowser (some podsRef) {}).Along ReloadsOverWalk
      (mountedList (some podsRef) {}) switchedOver := by
    decide +kernel
  exact ⟨_, hp, old_walks_idle (hinit.exec hreload hp)⟩

end KubeConsole.Web
