import KubeConsole.Theory.Transition

/-!
The polling loop of the metrics and summary composables (`composables/usePollingLoop.ts`).

A step is one event together with the microtasks it sets off: a call of `start` or `stop`, a
gate or a poll that settles, a timer that fires, a change of visibility. Polls are told
apart by their generation only.
-/
namespace KubeConsole.Web
open KubeConsole.Theory

structure PollTimer where
  id : ℕ
  gen : ℕ
  due : ℕ
  deriving DecidableEq, Repr

/-- A poll as it was started. -/
structure Poll where
  gen : ℕ
  startedAt : ℕ
  deriving DecidableEq, Repr

/-- The loop's variables and its surroundings: the timers the browser has armed, the gates
and the polls that have not settled, by generation. `polls` are all polls so far, the
newest first; no operation reads it. -/
structure PollingLoop where
  timer : Option ℕ := none
  gen : ℕ := 0
  live : Bool := false
  lastTickMs : ℕ := 0
  inFlight : ℕ → ℕ := fun _ => 0
  armed : List PollTimer := []
  timerIds : ℕ := 0
  listening : Bool := false
  hidden : Bool := false
  now : ℕ := 0
  gates : List ℕ := []
  ticks : List ℕ := []
  polls : List Poll := []

inductive PollAction where
  /-- `start`, with a gate or without. -/
  | start (gated : Bool)
  | stop
  /-- A gate resolves with its verdict, or rejects. -/
  | gate (g : ℕ) (proceed : Option Bool)
  /-- A poll resolves or rejects. -/
  | settle (g : ℕ)
  | fire (id : ℕ)
  | visibility (hidden : Bool)
  | clock (ms : ℕ)
  deriving DecidableEq, Repr

namespace PollingLoop
variable (interval : ℕ) (s : PollingLoop)

def pending (g : ℕ) : ℕ := s.inFlight g

def clearTimer : PollingLoop :=
  match s.timer with
  | some id => { s with timer := none, armed := s.armed.filter (·.id ≠ id) }
  | none => s

/-- `runTick` up to the poll's settling. -/
def runTick (g : ℕ) : PollingLoop :=
  { s with
    lastTickMs := s.now
    inFlight := Function.update s.inFlight g (s.pending g + 1)
    ticks := g :: s.ticks
    polls := ⟨g, s.now⟩ :: s.polls }

def schedule (g : ℕ) : PollingLoop :=
  if g ≠ s.gen || !s.live then s
  else
    { s with
      timer := some s.timerIds
      timerIds := s.timerIds + 1
      armed := ⟨s.timerIds, g, s.now + interval⟩ :: s.armed }

/-- `stop`, which `onBeforeUnmount` calls too. -/
def stop : PollingLoop :=
  { { s with gen := s.gen + 1, live := false }.clearTimer with listening := false }

/-- `start` from its gate on. -/
def enter (g : ℕ) : PollingLoop := { s with live := true, listening := true }.runTick g

def start (gated : Bool) : PollingLoop :=
  let s := s.stop
  let s := { s with gen := s.gen + 1 }
  if gated then { s with gates := s.gen :: s.gates } else s.enter s.gen

def onGate (g : ℕ) (proceed : Option Bool) : PollingLoop :=
  if g ≠ s.gen then s else if proceed = some true then s.enter g else s

/-- The callback of the timer that `schedule` arms. -/
def onTimer (g : ℕ) : PollingLoop :=
  let s := { s with timer := none }
  if g ≠ s.gen || !s.live then s
  else if s.hidden then s.schedule interval g
  else s.runTick g

def onVisibilityChange : PollingLoop :=
  if s.hidden || !s.live then s
  else if s.now - s.lastTickMs < interval then s
  else if 0 < s.pending s.gen then s
  else s.clearTimer.runTick s.gen

/-- What follows a poll's settling: the count of `runTick`, and the next timer. -/
def onSettled (g : ℕ) : PollingLoop :=
  { s with inFlight := Function.update s.inFlight g (s.pending g - 1) }.schedule interval g

def step : PollAction → Option PollingLoop
  | .start gated => some (s.start gated)
  | .stop => some s.stop
  | .gate g proceed =>
    if g ∈ s.gates then some ({ s with gates := s.gates.erase g }.onGate g proceed) else none
  | .settle g =>
    if g ∈ s.ticks then some ({ s with ticks := s.ticks.erase g }.onSettled interval g) else none
  | .fire id =>
    match s.armed.find? (·.id = id) with
    | none => none
    | some τ =>
      if s.now < τ.due then none
      else some ({ s with armed := s.armed.erase τ }.onTimer interval τ.gen)
  | .visibility hidden =>
    let s := { s with hidden }
    some (if s.listening then s.onVisibilityChange interval else s)
  | .clock ms => some { s with now := s.now + ms }

end PollingLoop

/-- A loop with a constant interval, in a tab that is visible or hidden. -/
def pollingLoop (interval : ℕ) : Machine PollingLoop PollAction where
  init s := ∃ hidden now, s = { hidden, now }
  step s := s.step interval

/-! ## The chain -/

/-- While the loop is live, `n` continuations wait for its generation, each a timer or a
poll; and a timer of it comes no earlier than the interval after its last poll. -/
structure Chained (interval n : ℕ) (s : PollingLoop) : Prop where
  armed : ∀ τ ∈ s.armed, s.timer = some τ.id ∧ τ.gen = s.gen ∧ s.live = true ∧
    s.lastTickMs + interval ≤ τ.due
  armed_le : s.armed.length ≤ 1
  inFlight : ∀ g, s.inFlight g = s.ticks.count g
  ticks : ∀ g ∈ s.ticks, g ≤ s.gen ∧ (g = s.gen → s.live = true)
  gates : ∀ g ∈ s.gates, g ≤ s.gen ∧ (g = s.gen → s.live = false)
  gates_nodup : s.gates.Nodup
  polls : ∀ p ∈ s.polls, p.gen ≤ s.gen ∧ p.startedAt ≤ s.lastTickMs ∧
    (p.gen = s.gen → s.live = true)
  last_le : s.lastTickMs ≤ s.now
  spaced : s.polls.Pairwise fun p q => p.gen = q.gen → q.startedAt + interval ≤ p.startedAt
  chain : s.live = true → s.armed.length + s.ticks.count s.gen = n

namespace Chained
variable {interval n m : ℕ} {s t : PollingLoop}

theorem armed_of_dead (h : Chained interval n s) (hl : s.live = false) : s.armed = [] := by
  refine List.eq_nil_iff_forall_not_mem.mpr fun τ hτ => ?_
  have hlive := (h.armed τ hτ).2.2.1
  rw [hl] at hlive
  cases hlive

theorem clearTimer_armed (h : Chained interval n s) : s.clearTimer.armed = [] := by
  unfold PollingLoop.clearTimer
  split
  next id htimer =>
    refine List.filter_eq_nil_iff.mpr fun τ hτ => ?_
    have hid := (h.armed τ hτ).1
    rw [htimer, Option.some.injEq] at hid
    simp [hid]
  next htimer =>
    refine List.eq_nil_iff_forall_not_mem.mpr fun τ hτ => ?_
    have hid := (h.armed τ hτ).1
    rw [htimer] at hid
    cases hid

theorem clearTimer_eq (s : PollingLoop) :
    ∃ timer armed, s.clearTimer = { s with timer, armed } := by
  unfold PollingLoop.clearTimer
  split
  · exact ⟨_, _, rfl⟩
  · exact ⟨_, _, rfl⟩

/-- Without its timer a chain that has no poll in flight is gone. -/
theorem clearTimer (h : Chained interval n s) (hticks : s.ticks.count s.gen = 0) :
    Chained interval 0 s.clearTimer := by
  have harmed := h.clearTimer_armed
  obtain ⟨timer, armed, heq⟩ := clearTimer_eq s
  rw [heq] at harmed ⊢
  simp only at harmed
  subst harmed
  constructor
  · exact nofun
  · exact Nat.zero_le _
  · exact h.inFlight
  · exact h.ticks
  · exact h.gates
  · exact h.gates_nodup
  · exact h.polls
  · exact h.last_le
  · exact h.spaced
  · exact fun _ => by simpa using hticks

/-- A dead loop may go on to any later generation. -/
theorem bump (h : Chained interval n s) (hl : s.live = false) :
    Chained interval m { s with gen := s.gen + 1 } where
  armed τ hτ := by
    rw [h.armed_of_dead hl] at hτ
    cases hτ
  armed_le := h.armed_le
  inFlight := h.inFlight
  ticks g hg := by
    have hle := (h.ticks g hg).1
    exact ⟨hle.trans (Nat.le_succ _), fun heq => by simp only at heq; omega⟩
  gates g hg := ⟨(h.gates g hg).1.trans (Nat.le_succ _), fun _ => hl⟩
  gates_nodup := h.gates_nodup
  polls p hp := by
    obtain ⟨hle, hlast, -⟩ := h.polls p hp
    exact ⟨hle.trans (Nat.le_succ _), hlast, fun heq => by simp only at heq; omega⟩
  last_le := h.last_le
  spaced := h.spaced
  chain hlive := by
    rw [show s.live = true from hlive] at hl
    cases hl

theorem stop (h : Chained interval n s) : Chained interval m s.stop ∧ s.stop.live = false := by
  have harmed := h.clearTimer_armed
  unfold PollingLoop.stop
  have hclear : (PollingLoop.clearTimer { s with gen := s.gen + 1, live := false }).armed = [] := by
    unfold PollingLoop.clearTimer at harmed ⊢
    split at harmed
    next id htimer =>
      simp only [htimer]
      exact harmed
    next htimer =>
      simp only [htimer]
      exact harmed
  obtain ⟨timer, armed, heq⟩ := clearTimer_eq { s with gen := s.gen + 1, live := false }
  rw [heq] at hclear ⊢
  simp only at hclear
  subst hclear
  refine ⟨?_, rfl⟩
  constructor
  · exact nofun
  · exact Nat.zero_le _
  · exact h.inFlight
  · intro g hg
    have hle := (h.ticks g hg).1
    exact ⟨hle.trans (Nat.le_succ _), fun heq => by simp only at heq; omega⟩
  · exact fun g hg => ⟨(h.gates g hg).1.trans (Nat.le_succ _), fun _ => rfl⟩
  · exact h.gates_nodup
  · intro p hp
    obtain ⟨hle, hlast, -⟩ := h.polls p hp
    exact ⟨hle.trans (Nat.le_succ _), hlast, fun heq => by simp only at heq; omega⟩
  · exact h.last_le
  · exact h.spaced
  · exact nofun

/-- A poll is started where no continuation is left, an interval after the last one. -/
theorem runTick (h : Chained interval 0 s) (hl : s.live = true)
    (hdue : ∀ p ∈ s.polls, p.gen = s.gen → p.startedAt + interval ≤ s.now) :
    Chained interval 1 (s.runTick s.gen) := by
  have hzero := h.chain hl
  have harmed : s.armed = [] := List.length_eq_zero_iff.mp (by omega)
  constructor
  · intro τ hτ
    rw [show (s.runTick s.gen).armed = [] from harmed] at hτ
    cases hτ
  · exact h.armed_le
  · intro g
    simp only [PollingLoop.runTick, PollingLoop.pending, List.count_cons]
    by_cases hg : g = s.gen
    · subst hg
      simp [h.inFlight]
    · simp [Function.update_of_ne hg, h.inFlight, Ne.symm hg]
  · intro g hg
    rcases List.mem_cons.mp hg with rfl | hg
    · exact ⟨le_rfl, fun _ => hl⟩
    · exact h.ticks g hg
  · exact h.gates
  · exact h.gates_nodup
  · intro p hp
    rcases List.mem_cons.mp hp with rfl | hp
    · exact ⟨le_rfl, le_rfl, fun _ => hl⟩
    · obtain ⟨hle, hlast, hlive⟩ := h.polls p hp
      exact ⟨hle, hlast.trans h.last_le, hlive⟩
  · exact le_rfl
  · exact List.pairwise_cons.mpr ⟨fun p hp heq => hdue p hp heq.symm, h.spaced⟩
  · intro _
    simp only [PollingLoop.runTick, harmed, List.length_nil, List.count_cons_self]
    omega

theorem schedule (h : Chained interval 0 s) (hl : s.live = true) :
    Chained interval 1 (s.schedule interval s.gen) := by
  have hzero := h.chain hl
  have harmed : s.armed = [] := List.length_eq_zero_iff.mp (by omega)
  have heq : s.schedule interval s.gen = { s with
      timer := some s.timerIds
      timerIds := s.timerIds + 1
      armed := [⟨s.timerIds, s.gen, s.now + interval⟩] } := by
    unfold PollingLoop.schedule
    rw [if_neg (by simp [hl]), harmed]
  rw [heq]
  constructor
  · intro τ hτ
    rw [List.mem_singleton.mp hτ]
    exact ⟨rfl, rfl, hl, Nat.add_le_add_right h.last_le _⟩
  · exact le_rfl
  · exact h.inFlight
  · exact h.ticks
  · exact h.gates
  · exact h.gates_nodup
  · exact h.polls
  · exact h.last_le
  · exact h.spaced
  · intro _
    simp only [List.length_singleton]
    omega

theorem schedule_of_ne {g : ℕ} (hg : g ≠ s.gen) : s.schedule interval g = s := by
  unfold PollingLoop.schedule
  rw [if_pos (by simp [hg])]

theorem enter (h : Chained interval n s) (hl : s.live = false) (hgate : s.gen ∉ s.gates) :
    Chained interval 1 (s.enter s.gen) := by
  have hdead (b : Bool) (hb : b = s.live) : b ≠ true := by rw [hb, hl]; exact Bool.false_ne_true
  have hlive : Chained interval 0 { s with live := true, listening := true } := by
    constructor
    · intro τ hτ
      rw [show s.armed = [] from h.armed_of_dead hl] at hτ
      cases hτ
    · exact h.armed_le
    · exact h.inFlight
    · exact fun g hg => ⟨(h.ticks g hg).1, fun _ => rfl⟩
    · intro g hg
      refine ⟨(h.gates g hg).1, fun heq => ?_⟩
      rw [show g = s.gen from heq] at hg
      exact absurd hg hgate
    · exact h.gates_nodup
    · exact fun p hp => ⟨(h.polls p hp).1, (h.polls p hp).2.1, fun _ => rfl⟩
    · exact h.last_le
    · exact h.spaced
    · intro _
      have hcount : s.ticks.count s.gen = 0 := by
        refine List.count_eq_zero.mpr fun hmem => ?_
        exact hdead _ rfl ((h.ticks _ hmem).2 rfl)
      simp [h.armed_of_dead hl, hcount]
  refine hlive.runTick rfl fun p hp heq => ?_
  exact absurd ((h.polls p hp).2.2 heq) (hdead _ rfl)

theorem start (h : Chained interval n s) (gated : Bool) : Chained interval 1 (s.start gated) := by
  obtain ⟨hstop, hdead⟩ := h.stop (m := 1)
  have hbump := hstop.bump (m := 1) hdead
  have hgate : s.stop.gen + 1 ∉ s.stop.gates := by
    intro hmem
    have hle := (hstop.gates _ hmem).1
    omega
  unfold PollingLoop.start
  simp only
  split_ifs
  · constructor
    · exact hbump.armed
    · exact hbump.armed_le
    · exact hbump.inFlight
    · exact hbump.ticks
    · intro g hg
      rcases List.mem_cons.mp hg with rfl | hg
      · exact ⟨le_rfl, fun _ => hdead⟩
      · exact hbump.gates g hg
    · exact List.nodup_cons.mpr ⟨hgate, hbump.gates_nodup⟩
    · exact hbump.polls
    · exact hbump.last_le
    · exact hbump.spaced
    · exact hbump.chain
  · exact hbump.enter hdead hgate

theorem onGate {g : ℕ} (h : Chained interval 1 s) (hg : g ∈ s.gates) (proceed : Option Bool) :
    Chained interval 1 ({ s with gates := s.gates.erase g }.onGate g proceed) := by
  have herased : Chained interval 1 { s with gates := s.gates.erase g } :=
    ⟨h.armed, h.armed_le, h.inFlight, h.ticks, fun g' hg' => h.gates g' (List.mem_of_mem_erase hg'),
      h.gates_nodup.erase g, h.polls, h.last_le, h.spaced, h.chain⟩
  unfold PollingLoop.onGate
  split_ifs with hne hproceed
  · exact herased
  · have hcur : g = s.gen := not_not.mp hne
    subst hcur
    exact herased.enter ((h.gates _ hg).2 rfl) h.gates_nodup.not_mem_erase
  · exact herased

theorem onSettled {g : ℕ} (h : Chained interval 1 s) (hg : g ∈ s.ticks) :
    Chained interval 1 ({ s with ticks := s.ticks.erase g }.onSettled interval g) := by
  have hflight (g' : ℕ) : Function.update s.inFlight g (s.inFlight g - 1) g' =
      (s.ticks.erase g).count g' := by
    rw [List.count_erase]
    by_cases heq : g' = g
    · subst heq
      simp [h.inFlight]
    · simp [Function.update_of_ne heq, h.inFlight, Ne.symm heq]
  have hone {n : ℕ} (hchain : s.live = true → s.armed.length + (s.ticks.erase g).count s.gen = n) :
      Chained interval n { s with
        ticks := s.ticks.erase g
        inFlight := Function.update s.inFlight g (s.inFlight g - 1) } :=
    ⟨h.armed, h.armed_le, hflight, fun g' hg' => h.ticks g' (List.mem_of_mem_erase hg'), h.gates,
      h.gates_nodup, h.polls, h.last_le, h.spaced, hchain⟩
  by_cases hcur : g = s.gen
  · subst hcur
    have hlive := (h.ticks _ hg).2 rfl
    have hpos := List.count_pos_iff.mpr hg
    have hzero := hone (n := 0) fun hl => by
      have hchain := h.chain hl
      rw [List.count_erase_self]
      omega
    exact hzero.schedule hlive
  · have hsame := hone (n := 1) fun hl => by
      rw [List.count_erase_of_ne (fun heq => hcur heq.symm)]
      exact h.chain hl
    unfold PollingLoop.onSettled
    rw [schedule_of_ne (by exact hcur)]
    exact hsame

theorem fired {τ : PollTimer} (h : Chained interval 1 s) (hτ : τ ∈ s.armed) (hdue : τ.due ≤ s.now) :
    Chained interval 1 ({ s with armed := s.armed.erase τ }.onTimer interval τ.gen) := by
  obtain ⟨-, hgen, hlive, hafter⟩ := h.armed τ hτ
  have hone := h.armed_le
  have hpos := List.length_pos_of_mem hτ
  have hchain := h.chain hlive
  have hnil : s.armed.erase τ = [] := by
    rw [← List.length_eq_zero_iff, List.length_erase_of_mem hτ]
    omega
  have hzero : Chained interval 0 { s with armed := s.armed.erase τ, timer := none } := by
    rw [hnil]
    constructor
    · exact nofun
    · exact Nat.zero_le _
    · exact h.inFlight
    · exact h.ticks
    · exact h.gates
    · exact h.gates_nodup
    · exact h.polls
    · exact h.last_le
    · exact h.spaced
    · intro _
      simp only [List.length_nil]
      omega
  rw [hgen]
  unfold PollingLoop.onTimer
  dsimp only
  rw [if_neg (by simp [hlive])]
  split_ifs
  · exact hzero.schedule hlive
  · refine hzero.runTick hlive fun p hp _ => ?_
    have hlast := (h.polls p hp).2.1
    show p.startedAt + interval ≤ s.now
    omega

theorem onVisibilityChange (h : Chained interval 1 s) :
    Chained interval 1 (s.onVisibilityChange interval) := by
  unfold PollingLoop.onVisibilityChange
  split_ifs with hquiet hthrottled hpending
  · exact h
  · exact h
  · exact h
  · have hlive : s.live = true := by
      simp only [Bool.or_eq_true, Bool.not_eq_true', not_or, Bool.not_eq_false] at hquiet
      exact hquiet.2
    have hcount : s.ticks.count s.gen = 0 := by
      rw [← h.inFlight]
      exact Nat.eq_zero_of_not_pos hpending
    have hclear := h.clearTimer hcount
    obtain ⟨timer, armed, heq⟩ := clearTimer_eq s
    rw [heq] at hclear ⊢
    refine hclear.runTick hlive fun p hp _ => ?_
    have hlast := (h.polls p hp).2.1
    have hle := h.last_le
    show p.startedAt + interval ≤ s.now
    omega

/-- One event leaves a live loop with one continuation. -/
theorem step {a : PollAction} (h : Chained interval 1 s) (ht : s.step interval a = some t) :
    Chained interval 1 t := by
  cases a with
  | start gated =>
    cases ht
    exact h.start gated
  | stop =>
    cases ht
    exact h.stop.1
  | gate g proceed =>
    simp only [PollingLoop.step] at ht
    split_ifs at ht with hg
    cases ht
    exact h.onGate hg proceed
  | settle g =>
    simp only [PollingLoop.step] at ht
    split_ifs at ht with hg
    cases ht
    exact h.onSettled hg
  | fire id =>
    simp only [PollingLoop.step] at ht
    split at ht
    · cases ht
    next τ hfind =>
      split_ifs at ht with hearly
      cases ht
      exact h.fired (List.mem_of_find?_eq_some hfind) (not_lt.mp hearly)
  | visibility hidden =>
    cases ht
    have hflip : Chained interval 1 { s with hidden } :=
      ⟨h.armed, h.armed_le, h.inFlight, h.ticks, h.gates, h.gates_nodup, h.polls, h.last_le,
        h.spaced, h.chain⟩
    simp only
    split_ifs
    · exact hflip.onVisibilityChange
    · exact hflip
  | clock ms =>
    cases ht
    exact ⟨h.armed, h.armed_le, h.inFlight, h.ticks, h.gates, h.gates_nodup, h.polls,
      h.last_le.trans (Nat.le_add_right _ _), h.spaced, h.chain⟩

end Chained

variable {interval : ℕ} {s : PollingLoop}

theorem chained_reach (hs : (pollingLoop interval).Reachable s) : Chained interval 1 s := by
  refine hs.invariant ?_ ?_
  · rintro s ⟨hidden, now, rfl⟩
    exact ⟨nofun, Nat.zero_le _, fun _ => rfl, nofun, nofun, List.nodup_nil, nofun,
      Nat.zero_le _, List.Pairwise.nil, nofun⟩
  · intro s a t h _ ht
    exact h.step ht

/-- In every run: a live loop has exactly one continuation of its generation, a timer or a
poll in flight, and no timer of another one; a poll of an older generation that settles arms
nothing; and two polls of one generation start at least the interval apart. -/
theorem one_chain (hs : (pollingLoop interval).Reachable s) :
    (s.live = true → (s.armed.filter (·.gen = s.gen)).length + s.ticks.count s.gen = 1 ∧
      ∀ τ ∈ s.armed, τ.gen = s.gen) ∧
    (∀ g t, g ≠ s.gen → (pollingLoop interval).step s (.settle g) = some t →
      t.armed = s.armed ∧ t.timer = s.timer ∧ t.polls = s.polls) ∧
    s.polls.Pairwise fun p q => p.gen = q.gen → q.startedAt + interval ≤ p.startedAt := by
  have h := chained_reach hs
  refine ⟨fun hlive => ?_, fun g t hg ht => ?_, h.spaced⟩
  · have hall (τ : PollTimer) (hτ : τ ∈ s.armed) : τ.gen = s.gen := (h.armed τ hτ).2.1
    refine ⟨?_, hall⟩
    rw [List.filter_eq_self.mpr fun τ hτ => decide_eq_true (hall τ hτ)]
    exact h.chain hlive
  · simp only [pollingLoop, PollingLoop.step] at ht
    split_ifs at ht
    cases ht
    unfold PollingLoop.onSettled
    rw [Chained.schedule_of_ne (by exact hg)]
    exact ⟨rfl, rfl, rfl⟩

/-- A slow first poll, a flip of the tab while it runs, a restart, the old poll settling and
the new one, and a catch-up. -/
def slowPoll : List PollAction :=
  [.start false, .clock 1200, .visibility true, .visibility false, .start true, .gate 4 (some true),
    .settle 2, .settle 4, .visibility true, .clock 2000, .visibility false]

theorem slowPoll_runs : ((pollingLoop 1000).exec { now := 5 } slowPoll).isSome := by decide +kernel

def slowPolled : PollingLoop := ((pollingLoop 1000).exec { now := 5 } slowPoll).get slowPoll_runs

theorem one_chain_slowPolled :
    slowPolled.polls = [⟨4, 3205⟩, ⟨4, 1205⟩, ⟨2, 5⟩] ∧
    (slowPolled.armed.filter (·.gen = slowPolled.gen)).length + slowPolled.ticks.count slowPolled.gen
      = 1 := by
  have hinit : (pollingLoop 1000).Reachable { now := 5 } := .init ⟨false, 5, rfl⟩
  have hs := hinit.exec slowPoll (Option.some_get slowPoll_runs).symm
  have hlive : slowPolled.live = true := by decide +kernel
  exact ⟨by decide +kernel, ((one_chain hs).1 hlive).1⟩

end KubeConsole.Web
