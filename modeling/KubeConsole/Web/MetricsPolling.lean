import KubeConsole.Web.ClusterSummary

/-!
The polling of the metrics charts (`composables/useMetricsPolling.ts`): a polling loop behind a
gate that probes the capabilities, and the tab around it, which rebinds its buffers and restarts
the loop when the pod, the node or the context changes.

As with the gauges, a probe, a request and the loop's continuations after them settle in steps of
their own.
-/
namespace KubeConsole.Web
open KubeConsole.Theory

inductive MetricsUIState where
  | loading
  | probed (capability : MetricsCapabilityState)
  | userDisabled
  deriving DecidableEq, Repr

/-- `gate` at its request, and the target the tab was bound to. -/
structure GateProbe where
  myGate : ℕ
  gen : ℕ
  target : ℕ
  deriving DecidableEq, Repr

/-- `tick` at its request. The last three are a record: the target the tab was bound to, the one
the shown capabilities were probed for, and these. -/
structure MetricsFetch where
  gen : ℕ
  target : ℕ
  probedFor : Option ℕ
  capabilities : Option MetricsCapabilityState
  deriving DecidableEq, Repr

/-- A sample as it was handed over: the request it answers, and the target bound by then. -/
structure MetricsSample where
  fetch : MetricsFetch
  target : ℕ
  deriving DecidableEq, Repr

/-- The variables of the composable, its preferences, and what has not settled. `target` counts
the rebindings of the tab; the last three fields are a record. -/
structure MetricsPolling where
  loop : PollingLoop := {}
  pollIntervalSeconds : ℕ := 15
  enabled : Bool := true
  capabilities : Option MetricsCapabilityState := none
  error : Option JStr := none
  userDisabled : Bool := false
  gateGen : ℕ := 0
  probes : List GateProbe := []
  gated : List (ℕ × Bool) := []
  fetches : List MetricsFetch := []
  fetched : List ℕ := []
  target : ℕ := 0
  probedFor : Option ℕ := none
  requests : List MetricsFetch := []
  samples : List MetricsSample := []

inductive MetricsAction where
  | start | stop
  /-- The tab is bound to another target, in a context with a session or without. -/
  | rebind (authenticated : Bool)
  /-- The request of a probe settles; a rejection is `none`. -/
  | probe (p : GateProbe) (response : Option MetricsCapabilityState)
  | gate (g : ℕ) (proceed : Bool)
  /-- The request of a tick settles. -/
  | response (f : MetricsFetch) (rejected : Option Thrown)
  | settle (g : ℕ)
  | fire (id : ℕ)
  | visibility (hidden : Bool)
  | clock (ms : ℕ)
  | prefer (pollIntervalSeconds : ℕ) (enabled : Bool)
  deriving DecidableEq, Repr

namespace MetricsPolling
variable (s : MetricsPolling)

def state : MetricsUIState :=
  if s.userDisabled then .userDisabled
  else match s.capabilities with
  | none => .loading
  | some capability => .probed capability

def intervalMs : ℕ := metricsIntervalMs s.pollIntervalSeconds

/-- `gate` up to its request. -/
def gate (g : ℕ) : MetricsPolling :=
  let s := { s with gateGen := s.gateGen + 1, userDisabled := false }
  if !s.enabled then { s with userDisabled := true, gated := (g, false) :: s.gated }
  else { s with probes := ⟨s.gateGen, g, s.target⟩ :: s.probes }

/-- `gate` after its request. -/
def onProbe (p : GateProbe) (response : Option MetricsCapabilityState) : MetricsPolling :=
  let probed := response.getD .unavailable
  if p.myGate ≠ s.gateGen then { s with gated := (p.gen, false) :: s.gated }
  else
    { s with
      capabilities := some probed
      probedFor := some p.target
      gated := (p.gen, probed = .available) :: s.gated }

/-- `tick` up to its request. In a hidden tab there is none. -/
def tick (g : ℕ) : MetricsPolling :=
  if s.loop.hidden then { s with fetched := g :: s.fetched }
  else
    let f : MetricsFetch := ⟨g, s.target, s.probedFor, s.capabilities⟩
    { s with fetches := f :: s.fetches, requests := f :: s.requests }

/-- `tick` after its request. -/
def onResponse (f : MetricsFetch) (rejected : Option Thrown) : MetricsPolling :=
  let s := { s with fetched := f.gen :: s.fetched }
  if f.gen ≠ s.loop.gen || !s.loop.live then s
  else match rejected with
  | none => { s with error := none, samples := ⟨f, s.target⟩ :: s.samples }
  | some e => { s with error := some (messageFromError (js "metrics request failed") e) }

/-- The loop has gone on, and calls `tick` where that has started a poll. -/
def onLoop (loop : PollingLoop) : MetricsPolling :=
  if s.loop.ticks.length < loop.ticks.length then { s with loop := loop }.tick loop.gen
  else { s with loop := loop }

def loopStep (a : PollAction) : Option MetricsPolling := (s.loop.step s.intervalMs a).map s.onLoop

/-- `loop.stop`, with its `onStop`. -/
def stop : MetricsPolling := { s with loop := s.loop.stop, gateGen := s.gateGen + 1 }

def start : MetricsPolling :=
  { s.stop with loop := s.loop.start true }.gate (s.loop.start true).gen

/-- The watch of the tab: the buffers first, then the loop. -/
def onTarget (authenticated : Bool) : MetricsPolling :=
  let s := { s with target := s.target + 1 }
  if authenticated then s.start else s.stop

def step : MetricsAction → Option MetricsPolling
  | .start => some s.start
  | .stop => some s.stop
  | .rebind authenticated => some (s.onTarget authenticated)
  | .probe p response =>
    if p ∈ s.probes then some ({ s with probes := s.probes.erase p }.onProbe p response) else none
  | .gate g proceed =>
    if s.gated.contains (g, proceed) then
      { s with gated := s.gated.erase (g, proceed) }.loopStep (.gate g (some proceed))
    else none
  | .response f rejected =>
    if f ∈ s.fetches then
      some ({ s with fetches := s.fetches.erase f }.onResponse f rejected)
    else none
  | .settle g =>
    if g ∈ s.fetched then
      { s with fetched := s.fetched.erase g }.loopStep (.settle g)
    else none
  | .fire id => s.loopStep (.fire id)
  | .visibility hidden => s.loopStep (.visibility hidden)
  | .clock ms => s.loopStep (.clock ms)
  | .prefer pollIntervalSeconds enabled => some { s with pollIntervalSeconds, enabled }

end MetricsPolling

/-- The composable from its `setup` on, at any time and with any preferences. -/
def metricsPolling : Machine MetricsPolling MetricsAction where
  init s := ∃ pollIntervalSeconds enabled hidden now,
    s = { pollIntervalSeconds, enabled, loop := { hidden, now } }
  step s := s.step

/-! ## One target -/

namespace MetricsPolling

/-- The metrics of the present target are known to be available, by the last probe there will
be of it. -/
structure Open (s : MetricsPolling) : Prop where
  capabilities : s.capabilities = some .available
  probedFor : s.probedFor = some s.target
  userDisabled : s.userDisabled = false
  probes : ∀ p ∈ s.probes, p.myGate ≠ s.gateGen

structure Current (s : MetricsPolling) : Prop where
  live : s.loop.live = true → s.Open
  gated : ∀ g, (g, true) ∈ s.gated → g ≤ s.loop.gen ∧ (g = s.loop.gen → s.Open)
  probes : ∀ p ∈ s.probes, p.gen ≤ s.loop.gen ∧ p.myGate ≤ s.gateGen ∧
    (p.myGate = s.gateGen → p.target = s.target ∧ s.userDisabled = false)
  nodup : (s.probes.map (·.myGate)).Nodup
  fetches : ∀ f ∈ s.fetches, f.gen ≤ s.loop.gen ∧ (f.gen = s.loop.gen → f.target = s.target)
  requests : ∀ f ∈ s.requests, f.capabilities = some .available ∧ f.probedFor = some f.target
  samples : ∀ x ∈ s.samples, x.fetch.target = x.target

namespace Current
variable {s : MetricsPolling}

/-- A verdict stays as good where what is open stays open. -/
theorem gated_keeps (h : Current s) {t : MetricsPolling} (hgated : t.gated ⊆ s.gated)
    (hgen : t.loop.gen = s.loop.gen) (hopen : s.Open → t.Open) (g : ℕ)
    (hg : (g, true) ∈ t.gated) : g ≤ t.loop.gen ∧ (g = t.loop.gen → t.Open) := by
  obtain ⟨hle, hcurrent⟩ := h.gated g (hgated hg)
  rw [hgen]
  exact ⟨hle, fun heq => hopen (hcurrent heq)⟩

/-- A loop that is dead and of a later generation makes what is in flight stale, so the target may
change with it. -/
theorem stopped (h : Current s) (target : ℕ) {loop : PollingLoop} (hgen : s.loop.gen < loop.gen)
    (hdead : loop.live = false) :
    Current { s with loop, gateGen := s.gateGen + 1, target } := by
  constructor
  · intro hlive
    rw [show loop.live = false from hdead] at hlive
    cases hlive
  · intro g hg
    have hlt := (h.gated g hg).1.trans_lt hgen
    exact ⟨hlt.le, fun heq => absurd heq hlt.ne⟩
  · intro p hp
    obtain ⟨hle, hgate, -⟩ := h.probes p hp
    have hlt := Nat.lt_succ_of_le hgate
    exact ⟨(hle.trans_lt hgen).le, hlt.le, fun heq => absurd heq hlt.ne⟩
  · exact h.nodup
  · intro f hf
    have hlt := (h.fetches f hf).1.trans_lt hgen
    exact ⟨hlt.le, fun heq => absurd heq hlt.ne⟩
  · exact h.requests
  · exact h.samples

/-- The gate is entered by a dead loop, and no verdict of its generation is there yet. -/
theorem gate (h : Current s) (hdead : s.loop.live = false)
    (hstale : ∀ g, (g, true) ∈ s.gated → g < s.loop.gen) : Current (s.gate s.loop.gen) := by
  have hprobes : ∀ p ∈ s.probes, p.gen ≤ s.loop.gen ∧ p.myGate < s.gateGen + 1 := by
    intro p hp
    obtain ⟨hle, hgate, -⟩ := h.probes p hp
    exact ⟨hle, by omega⟩
  unfold MetricsPolling.gate
  simp only
  split_ifs with hoff
  · constructor
    · intro hlive
      rw [show s.loop.live = false from hdead] at hlive
      cases hlive
    · intro g hg
      have hlt := hstale g (by simpa using hg)
      exact ⟨hlt.le, fun heq => absurd heq hlt.ne⟩
    · intro p hp
      obtain ⟨hle, hlt⟩ := hprobes p hp
      exact ⟨hle, hlt.le, fun heq => absurd heq hlt.ne⟩
    · exact h.nodup
    · exact h.fetches
    · exact h.requests
    · exact h.samples
  · constructor
    · intro hlive
      rw [show s.loop.live = false from hdead] at hlive
      cases hlive
    · intro g hg
      have hlt := hstale g hg
      exact ⟨hlt.le, fun heq => absurd heq hlt.ne⟩
    · intro p hp
      rcases List.mem_cons.mp hp with rfl | hp
      · exact ⟨le_rfl, le_rfl, fun _ => ⟨rfl, rfl⟩⟩
      · obtain ⟨hle, hlt⟩ := hprobes p hp
        exact ⟨hle, hlt.le, fun heq => absurd heq hlt.ne⟩
    · refine List.nodup_cons.mpr ⟨fun hmem => ?_, h.nodup⟩
      obtain ⟨p, hp, heq⟩ := List.mem_map.mp hmem
      exact absurd heq (hprobes p hp).2.ne
    · exact h.fetches
    · exact h.requests
    · exact h.samples

theorem stop (h : Current s) (target : ℕ) : Current { s with target }.stop := by
  obtain ⟨hgen, hdead⟩ := PollingLoop.stop_gen_live s.loop
  have hlt : s.loop.gen < s.loop.stop.gen := by omega
  exact h.stopped target hlt hdead

theorem start (h : Current s) (target : ℕ) : Current { s with target }.start := by
  obtain ⟨hgen, hdead⟩ := PollingLoop.stop_gen_live s.loop
  have hnext : (s.loop.start true).gen = s.loop.gen + 2 := congrArg (· + 1) hgen
  have hstopped : Current { s with
      loop := s.loop.start true, gateGen := s.gateGen + 1, target } :=
    h.stopped target (by omega) hdead
  apply hstopped.gate
  · exact hdead
  · intro g hg
    have hle := (h.gated g hg).1
    simp only [hnext]
    omega

theorem onTarget (h : Current s) (authenticated : Bool) : Current (s.onTarget authenticated) := by
  unfold MetricsPolling.onTarget
  simp only
  split_ifs
  · exact h.start (s.target + 1)
  · exact h.stop (s.target + 1)

theorem onProbe (h : Current s) {p : GateProbe} (hp : p ∈ s.probes)
    (response : Option MetricsCapabilityState) :
    Current ({ s with probes := s.probes.erase p }.onProbe p response) := by
  obtain ⟨hgen, -, hcurrent⟩ := h.probes p hp
  have herased (q : GateProbe) (hq : q ∈ s.probes.erase p) : q ∈ s.probes := List.mem_of_mem_erase hq
  have hnodup : ((s.probes.erase p).map (·.myGate)).Nodup :=
    h.nodup.sublist (List.erase_sublist.map _)
  have hkeeps (hopen : s.Open) : Open { s with probes := s.probes.erase p } :=
    { hopen with probes := fun q hq => hopen.probes q (herased q hq) }
  unfold MetricsPolling.onProbe
  simp only
  split_ifs with hstale
  · constructor
    · exact fun hlive => { hkeeps (h.live hlive) with }
    · intro g hg
      have hg : (g, true) ∈ s.gated := by simpa using hg
      exact ⟨(h.gated g hg).1, fun heq => { hkeeps ((h.gated g hg).2 heq) with }⟩
    · exact fun q hq => h.probes q (herased q hq)
    · exact hnodup
    · exact h.fetches
    · exact h.requests
    · exact h.samples
  · have hnew : p.myGate = s.gateGen := not_not.mp hstale
    obtain ⟨htarget, huser⟩ := hcurrent hnew
    -- as long as this probe is out nothing is open
    have hclosed (hopen : s.Open) : False := hopen.probes p hp hnew
    have hothers : ∀ q ∈ s.probes.erase p, q.myGate ≠ s.gateGen := by
      intro q hq heq
      have hperm := (List.perm_cons_erase hp).map (·.myGate)
      have hapart := hperm.nodup_iff.mp h.nodup
      rw [List.map_cons, List.nodup_cons] at hapart
      exact hapart.1 (List.mem_map.mpr ⟨q, hq, heq.trans hnew.symm⟩)
    constructor
    · exact fun hlive => (hclosed (h.live hlive)).elim
    · intro g hg
      rcases List.mem_cons.mp hg with heq | hg
      · obtain ⟨rfl, hav⟩ := Prod.mk.inj heq
        have hav : response.getD .unavailable = .available := by simpa using hav.symm
        exact ⟨hgen, fun _ => ⟨congrArg some hav, congrArg some htarget, huser, hothers⟩⟩
      · exact ⟨(h.gated g hg).1, fun heq => (hclosed ((h.gated g hg).2 heq)).elim⟩
    · exact fun q hq => h.probes q (herased q hq)
    · exact hnodup
    · exact h.fetches
    · exact h.requests
    · exact h.samples

theorem tick (h : Current s) (hopen : s.Open) : Current (s.tick s.loop.gen) := by
  unfold MetricsPolling.tick
  simp only
  split_ifs
  · exact { h with
      live := fun hlive => { h.live hlive with }
      gated := h.gated_keeps (List.Subset.refl _) rfl fun hopen => { hopen with } }
  · constructor
    · exact fun hlive => { h.live hlive with }
    · exact h.gated_keeps (List.Subset.refl _) rfl fun hopen => { hopen with }
    · exact h.probes
    · exact h.nodup
    · exact List.forall_mem_cons.mpr ⟨⟨le_rfl, fun _ => rfl⟩, h.fetches⟩
    · exact List.forall_mem_cons.mpr ⟨⟨hopen.capabilities, hopen.probedFor⟩, h.requests⟩
    · exact h.samples

theorem onResponse (h : Current s) {f : MetricsFetch} (hf : f ∈ s.fetches)
    (rejected : Option Thrown) :
    Current ({ s with fetches := s.fetches.erase f }.onResponse f rejected) := by
  have hkept : Current { s with fetches := s.fetches.erase f, fetched := f.gen :: s.fetched } :=
    ⟨fun hlive => { h.live hlive with },
      h.gated_keeps (List.Subset.refl _) rfl (fun hopen => { hopen with }), h.probes, h.nodup,
      fun f' hf' => h.fetches f' (List.mem_of_mem_erase hf'), h.requests, h.samples⟩
  unfold MetricsPolling.onResponse
  simp only
  split_ifs with hstale
  · exact hkept
  · have hgen : f.gen = s.loop.gen := by
      simp only [Bool.or_eq_true, decide_eq_true_eq, not_or, not_not] at hstale
      exact hstale.1
    cases rejected with
    | none =>
      exact ⟨fun hlive => { h.live hlive with },
        h.gated_keeps (List.Subset.refl _) rfl (fun hopen => { hopen with }), hkept.probes,
        hkept.nodup, hkept.fetches, hkept.requests,
        List.forall_mem_cons.mpr ⟨(h.fetches f hf).2 hgen, h.samples⟩⟩
    | some e =>
      exact ⟨fun hlive => { h.live hlive with },
        h.gated_keeps (List.Subset.refl _) rfl (fun hopen => { hopen with }), hkept.probes,
        hkept.nodup, hkept.fetches, hkept.requests, hkept.samples⟩

theorem onLoop (h : Current s) {a : PollAction} {m : PollingLoop}
    (hgoes : PollingLoop.Goes a s.loop m)
    (hgate : a = .gate s.loop.gen (some true) → s.Open) : Current (s.onLoop m) := by
  have hopen (hm : m.live = true) : Open { s with loop := m } :=
    { (hgoes.live hm).elim h.live hgate with }
  have hnext : Current { s with loop := m } := { h with
    live := hopen
    gated := h.gated_keeps (List.Subset.refl _) hgoes.gen fun hopen => { hopen with }
    probes := fun p hp => by
      rw [show ({ s with loop := m } : MetricsPolling).loop.gen = s.loop.gen from hgoes.gen]
      exact h.probes p hp
    fetches := fun f hf => by
      rw [show ({ s with loop := m } : MetricsPolling).loop.gen = s.loop.gen from hgoes.gen]
      exact h.fetches f hf }
  unfold MetricsPolling.onLoop
  split_ifs with hticks
  · exact hnext.tick (hopen (hgoes.ticks hticks))
  · exact hnext

theorem loopStep (h : Current s) {a : PollAction} {t : MetricsPolling} (ht : s.loopStep a = some t)
    (hstart : ∀ gated, a ≠ .start gated) (hstop : a ≠ .stop)
    (hgate : a = .gate s.loop.gen (some true) → s.Open) : Current t := by
  obtain ⟨m, hm, rfl⟩ := Option.map_eq_some_iff.mp ht
  exact h.onLoop (PollingLoop.goes_step hm hstart hstop) hgate

theorem step (h : Current s) {a : MetricsAction} {t : MetricsPolling} (ht : s.step a = some t) :
    Current t := by
  cases a with
  | start =>
    cases ht
    exact h.start s.target
  | stop =>
    cases ht
    exact h.stop s.target
  | rebind authenticated =>
    cases ht
    exact h.onTarget authenticated
  | probe p response =>
    simp only [MetricsPolling.step, Option.ite_none_right_eq_some, Option.some.injEq] at ht
    obtain ⟨hp, rfl⟩ := ht
    exact h.onProbe hp response
  | response f rejected =>
    simp only [MetricsPolling.step, Option.ite_none_right_eq_some, Option.some.injEq] at ht
    obtain ⟨hf, rfl⟩ := ht
    exact h.onResponse hf rejected
  | gate g proceed =>
    simp only [MetricsPolling.step, Option.ite_none_right_eq_some] at ht
    obtain ⟨hcontains, ht⟩ := ht
    have hg : (g, proceed) ∈ s.gated := List.contains_iff_mem.mp hcontains
    have herased : Current { s with gated := s.gated.erase (g, proceed) } :=
      { h with
        live := fun hlive => { h.live hlive with }
        gated := h.gated_keeps List.erase_subset rfl fun hopen => { hopen with } }
    refine herased.loopStep ht (fun _ => by simp) (by simp) fun heq => ?_
    obtain ⟨hgen, htrue⟩ := PollAction.gate.inj heq
    cases htrue
    exact { (h.gated g hg).2 hgen with }
  | settle g =>
    simp only [MetricsPolling.step, Option.ite_none_right_eq_some] at ht
    have herased : Current { s with fetched := s.fetched.erase g } :=
      { h with
        live := fun hlive => { h.live hlive with }
        gated := h.gated_keeps (List.Subset.refl _) rfl fun hopen => { hopen with } }
    exact herased.loopStep ht.2 (fun _ => by simp) (by simp) (by simp)
  | fire id => exact h.loopStep ht (fun _ => by simp) (by simp) (by simp)
  | visibility hidden => exact h.loopStep ht (fun _ => by simp) (by simp) (by simp)
  | clock ms => exact h.loopStep ht (fun _ => by simp) (by simp) (by simp)
  | prefer pollIntervalSeconds enabled =>
    cases ht
    exact { h with
      live := fun hlive => { h.live hlive with }
      gated := h.gated_keeps (List.Subset.refl _) rfl fun hopen => { hopen with } }

end Current

variable {s t : MetricsPolling}

theorem current_reach (hs : metricsPolling.Reachable s) : s.Current := by
  refine hs.invariant ?_ ?_
  · rintro s ⟨seconds, enabled, hidden, now, rfl⟩
    exact ⟨nofun, nofun, nofun, List.nodup_nil, nofun, nofun, nofun⟩
  · intro s a t h _ ht
    exact h.step ht

/-! ## What a step writes -/

theorem onLoop_capabilities (s : MetricsPolling) (m : PollingLoop) :
    (s.onLoop m).capabilities = s.capabilities := by
  unfold onLoop tick
  simp only
  split_ifs <;> rfl

theorem loopStep_capabilities {a : PollAction} (ht : s.loopStep a = some t) :
    t.capabilities = s.capabilities := by
  obtain ⟨m, -, rfl⟩ := Option.map_eq_some_iff.mp ht
  exact onLoop_capabilities s m

theorem gate_capabilities (s : MetricsPolling) (g : ℕ) :
    (s.gate g).capabilities = s.capabilities := by
  unfold gate
  simp only
  split_ifs <;> rfl

theorem onResponse_capabilities (s : MetricsPolling) (f : MetricsFetch) (rejected : Option Thrown) :
    (s.onResponse f rejected).capabilities = s.capabilities := by
  unfold onResponse
  simp only
  split_ifs
  · rfl
  · cases rejected <;> rfl

/-- Capabilities are written by an answer to the last probe, or not at all. -/
theorem step_capabilities {a : MetricsAction} (ht : s.step a = some t) :
    t.capabilities = s.capabilities ∨ ∃ p ∈ s.probes, ∃ response, a = .probe p response ∧
      p.myGate = s.gateGen ∧ t.capabilities = some (response.getD .unavailable) := by
  cases a with
  | start =>
    cases ht
    exact .inl (gate_capabilities _ _)
  | stop =>
    cases ht
    exact .inl rfl
  | rebind authenticated =>
    cases ht
    unfold onTarget
    cases authenticated with
    | true => exact .inl (gate_capabilities _ _)
    | false => exact .inl rfl
  | probe p response =>
    simp only [step, Option.ite_none_right_eq_some, Option.some.injEq] at ht
    obtain ⟨hp, rfl⟩ := ht
    unfold onProbe
    simp only
    split_ifs with hstale
    · exact .inl rfl
    · exact .inr ⟨p, hp, response, rfl, not_not.mp hstale, rfl⟩
  | response f rejected =>
    simp only [step, Option.ite_none_right_eq_some, Option.some.injEq] at ht
    obtain ⟨-, rfl⟩ := ht
    exact .inl (onResponse_capabilities _ f rejected)
  | gate g proceed =>
    simp only [step, Option.ite_none_right_eq_some] at ht
    have hsame := loopStep_capabilities ht.2
    exact .inl hsame
  | settle g =>
    simp only [step, Option.ite_none_right_eq_some] at ht
    have hsame := loopStep_capabilities ht.2
    exact .inl hsame
  | fire id => exact .inl (loopStep_capabilities ht)
  | visibility hidden => exact .inl (loopStep_capabilities ht)
  | clock ms => exact .inl (loopStep_capabilities ht)
  | prefer pollIntervalSeconds enabled =>
    cases ht
    exact .inl rfl

end MetricsPolling

variable {s : MetricsPolling}

/-- A request of the first pod that is overtaken by a switch to another: it is answered last. -/
def lateSample : List MetricsAction :=
  [.start, .probe ⟨2, 2, 0⟩ (some .available), .gate 2 true, .rebind true,
    .probe ⟨4, 4, 1⟩ (some .available), .gate 4 true,
    .response ⟨4, 1, some 1, some .available⟩ none,
    .response ⟨2, 0, some 0, some .available⟩ none, .settle 4]

theorem lateSample_runs : (metricsPolling.exec { loop := { now := 9 } } lateSample).isSome := by
  decide +kernel

def lateSampled : MetricsPolling :=
  (metricsPolling.exec { loop := { now := 9 } } lateSample).get lateSample_runs

end KubeConsole.Web
