import KubeConsole.Web.Js
import KubeConsole.Web.PollingLoop

/-!
The gauges of the overview (`composables/useClusterSummary.ts`): a polling loop behind a
capability probe, the totals of the node list, which outlast a poll, and the usage, which
does not.

A probe, a poll and the loop's continuations after them settle in steps of their own. Numbers
are exact here, and how a quantity is read is a parameter.
-/
namespace KubeConsole.Web
open KubeConsole.Theory

structure NodeCondition where
  type : Option JStr := none
  status : Option JStr := none
  deriving DecidableEq, Repr

/-- What the gauges read of a node: `status.allocatable` and `status.conditions`. -/
structure SummaryNode where
  cpu : Option JStr := none
  memory : Option JStr := none
  pods : Option JStr := none
  conditions : Option (List NodeCondition) := none
  deriving DecidableEq, Repr

structure NodeTotals where
  totalCores : ℚ := 0
  totalBytes : ℚ := 0
  podCapacity : ℚ := 0
  ready : ℕ := 0
  total : ℕ
  deriving DecidableEq, Repr

structure NodeUsage where
  cpuNanoCores : ℚ
  memoryBytes : ℚ
  deriving DecidableEq, Repr

structure ClusterSummary where
  usedCores : Option ℚ
  totalCores : ℚ
  usedBytes : Option ℚ
  totalBytes : ℚ
  podCount : Option ℕ
  podCapacity : ℚ
  ready : ℕ
  total : ℕ
  deriving DecidableEq, Repr

inductive MetricsCapabilityState where
  | available | notInstalled | forbidden | unavailable | disabled
  deriving DecidableEq, Repr

def nodesIntervalMs : ℕ := 60000

def metricsMinIntervalSeconds : ℕ := 15

/-- `metricsIntervalMs`. -/
def metricsIntervalMs (pollIntervalSeconds : ℕ) : ℕ :=
  max metricsMinIntervalSeconds pollIntervalSeconds * 1000

def isNodeReady (node : SummaryNode) : Bool :=
  (node.conditions.getD []).any fun c => c.type = some (js "Ready") ∧ c.status = some (js "True")

section
variable (parseQuantity : Option JStr → Option ℚ)

/-- `none` is `NaN`. -/
def quantityOrZero (value : Option JStr) : ℚ := (parseQuantity value).getD 0

def nodeTotals (nodes : List SummaryNode) : NodeTotals :=
  nodes.foldl (fun totals node => { totals with
    totalCores := totals.totalCores + quantityOrZero parseQuantity node.cpu
    totalBytes := totals.totalBytes + quantityOrZero parseQuantity node.memory
    podCapacity := totals.podCapacity + quantityOrZero parseQuantity node.pods
    ready := if isNodeReady node then totals.ready + 1 else totals.ready })
    { total := nodes.length }
end

/-! ## The composable -/

/-- The call that made a request, for the record: its number, and how many context changes
came before it. -/
structure SummaryCall where
  number : ℕ
  epoch : ℕ
  deriving DecidableEq, Repr

/-- A value, with the call whose response it comes from. -/
structure Received (α : Type*) where
  value : α
  call : SummaryCall
  deriving DecidableEq, Repr

/-- What is on screen, and the calls that its usage and its totals come from. -/
structure Snapshot where
  value : ClusterSummary
  usage : SummaryCall
  totals : SummaryCall
  deriving DecidableEq, Repr

/-- `probeMetrics` at its request. -/
structure SummaryProbe where
  mine : ℕ
  gen : ℕ
  epoch : ℕ
  deriving DecidableEq, Repr

/-- `refresh` at its requests. `verdict` is a record: the call of the probe that `metricsUsable`
came from. -/
structure SummaryRefresh where
  req : ℕ
  gen : ℕ
  startedAtMs : ℕ
  wantNodes : Bool
  wantMetrics : Bool
  epoch : ℕ
  verdict : Option SummaryCall
  deriving DecidableEq, Repr

def SummaryRefresh.call (r : SummaryRefresh) : SummaryCall := ⟨r.req, r.epoch⟩

/-- How the requests of a `refresh` settle, where they are made; a rejection is `none`. -/
structure SummaryResponses where
  nodes : Option (Option (List SummaryNode))
  metrics : Option (List NodeUsage)
  pods : Option ℕ
  deriving DecidableEq, Repr

/-- The variables of the composable; the probes and polls that await their requests, and those
whose promise has settled, by the loop's generation. The last four are a record. -/
structure SummaryState where
  loop : PollingLoop := {}
  pollIntervalSeconds : ℕ := 15
  data : Option Snapshot := none
  available : Bool := true
  requestSeq : ℕ := 0
  cachedNodes : Option (Received NodeTotals) := none
  cachedNodesAtMs : ℕ := 0
  metricsUsable : Bool := true
  gateSeq : ℕ := 0
  probes : List SummaryProbe := []
  probed : List (ℕ × Bool) := []
  refreshes : List SummaryRefresh := []
  refreshed : List ℕ := []
  epoch : ℕ := 0
  verdict : Option SummaryCall := none
  /-- All polls, the newest first. -/
  polls : List SummaryRefresh := []
  /-- The polls whose responses were taken in, the newest first. -/
  applied : List SummaryCall := []

inductive SummaryAction where
  | start | stop
  /-- The active context changes, to one with a session or without. -/
  | context (authenticated : Bool)
  /-- The request of a probe settles. -/
  | probe (p : SummaryProbe) (response : Option MetricsCapabilityState)
  | gate (g : ℕ) (proceed : Bool)
  /-- The requests of a `refresh` have settled. -/
  | refresh (r : SummaryRefresh) (responses : SummaryResponses)
  | settle (g : ℕ)
  | fire (id : ℕ)
  | visibility (hidden : Bool)
  | clock (ms : ℕ)
  | prefer (pollIntervalSeconds : ℕ)
  deriving DecidableEq, Repr

namespace SummaryState
variable (parseQuantity : Option JStr → Option ℚ) (s : SummaryState)

def intervalMs : ℕ := metricsIntervalMs s.pollIntervalSeconds

/-- `probeMetrics` up to its request. -/
def probeMetrics (g : ℕ) : SummaryState :=
  { s with
    gateSeq := s.gateSeq + 1
    probes := ⟨s.gateSeq + 1, g, s.epoch⟩ :: s.probes }

/-- `probeMetrics` after its request. -/
def onProbe (p : SummaryProbe) (response : Option MetricsCapabilityState) : SummaryState :=
  if p.mine ≠ s.gateSeq then { s with probed := (p.gen, false) :: s.probed }
  else
    { s with
      metricsUsable := response = none || response = some .available
      verdict := some ⟨p.mine, p.epoch⟩
      probed := (p.gen, true) :: s.probed }

/-- `refresh` up to its requests. -/
def beginRefresh (g : ℕ) : SummaryState :=
  let wantNodes := s.cachedNodes.isNone || nodesIntervalMs ≤ s.loop.now - s.cachedNodesAtMs
  let r : SummaryRefresh :=
    ⟨s.requestSeq + 1, g, s.loop.now, wantNodes, s.metricsUsable, s.epoch, s.verdict⟩
  { s with
    requestSeq := s.requestSeq + 1
    refreshes := r :: s.refreshes
    polls := r :: s.polls }

/-- What `refresh` shows: `totals` with the usage and the pod count of this call. -/
def summary (totals : NodeTotals) (r : SummaryRefresh) (responses : SummaryResponses) :
    ClusterSummary :=
  let usage := if r.wantMetrics then responses.metrics else none
  { usedCores := usage.map fun items => (items.map (·.cpuNanoCores)).sum / 1000000000
    totalCores := totals.totalCores
    usedBytes := usage.map fun items => (items.map (·.memoryBytes)).sum
    totalBytes := totals.totalBytes
    podCount := responses.pods
    podCapacity := totals.podCapacity
    ready := totals.ready
    total := totals.total }

def show_ (totals : Received NodeTotals) (r : SummaryRefresh) (responses : SummaryResponses) :
    SummaryState :=
  { s with data := some ⟨summary totals.value r responses, r.call, totals.call⟩ }

/-- `refresh` after its requests. -/
def onResponses (r : SummaryRefresh) (responses : SummaryResponses) : SummaryState :=
  let s := { s with refreshed := r.gen :: s.refreshed }
  if r.req ≠ s.requestSeq then s
  else
    let s := { s with applied := r.call :: s.applied }
    if r.wantNodes then
      match responses.nodes with
      | none => { s with available := false }
      | some items =>
        let totals := ⟨nodeTotals parseQuantity (items.getD []), r.call⟩
        { s with
          cachedNodes := some totals
          cachedNodesAtMs := r.startedAtMs
          available := true }.show_ totals r responses
    else
      match s.cachedNodes with
      | none => s
      | some totals => s.show_ totals r responses

/-- The loop has gone on, and calls `refresh` where that has started a poll. -/
def onLoop (loop : PollingLoop) : SummaryState :=
  if s.loop.ticks.length < loop.ticks.length then
    { s with loop := loop }.beginRefresh loop.gen
  else { s with loop := loop }

def loopStep (a : PollAction) : Option SummaryState := (s.loop.step s.intervalMs a).map s.onLoop

/-- `loop.stop`, with its `onStop`. -/
def stop : SummaryState :=
  { s with
    loop := s.loop.stop
    requestSeq := s.requestSeq + 1
    gateSeq := s.gateSeq + 1 }

/-- `start`: the loop's own, which stops the loop first and then calls the gate. -/
def start : SummaryState :=
  { s.stop with loop := s.loop.start true }.probeMetrics (s.loop.start true).gen

/-- The callback of the active context. -/
def onContext (authenticated : Bool) : SummaryState :=
  let s := { { s with epoch := s.epoch + 1 }.stop with
    data := none
    cachedNodes := none
    cachedNodesAtMs := 0 }
  if authenticated then s.start else s

def step : SummaryAction → Option SummaryState
  | .start => some s.start
  | .stop => some s.stop
  | .context authenticated => some (s.onContext authenticated)
  | .probe p response =>
    if p ∈ s.probes then some ({ s with probes := s.probes.erase p }.onProbe p response) else none
  | .gate g proceed =>
    if (g, proceed) ∈ s.probed then
      { s with probed := s.probed.erase (g, proceed) }.loopStep (.gate g (some proceed))
    else none
  | .refresh r responses =>
    if r ∈ s.refreshes then
      some ({ s with refreshes := s.refreshes.erase r }.onResponses parseQuantity r responses)
    else none
  | .settle g =>
    if g ∈ s.refreshed then
      { s with refreshed := s.refreshed.erase g }.loopStep (.settle g)
    else none
  | .fire id => s.loopStep (.fire id)
  | .visibility hidden => s.loopStep (.visibility hidden)
  | .clock ms => s.loopStep (.clock ms)
  | .prefer pollIntervalSeconds => some { s with pollIntervalSeconds }

end SummaryState

/-- The composable from its `setup` on, at any time. -/
def clusterSummary (parseQuantity : Option JStr → Option ℚ) :
    Machine SummaryState SummaryAction where
  init s := ∃ pollIntervalSeconds hidden now,
    s = { pollIntervalSeconds, loop := { hidden, now } }
  step s := s.step parseQuantity

/-! ## The loop's own steps -/

namespace PollingLoop
variable (interval : ℕ) (l : PollingLoop) (g : ℕ)

/-- The part of the loop that the composable goes by is left as it is. -/
def Still (l m : PollingLoop) : Prop := m.gen = l.gen ∧ m.live = l.live ∧ m.ticks = l.ticks

theorem still_clearTimer : Still l l.clearTimer := by
  unfold clearTimer
  split
  · exact ⟨rfl, rfl, rfl⟩
  · exact ⟨rfl, rfl, rfl⟩

theorem still_schedule : Still l (l.schedule interval g) := by
  unfold schedule
  split_ifs
  · exact ⟨rfl, rfl, rfl⟩
  · exact ⟨rfl, rfl, rfl⟩

theorem Still.trans {l m k : PollingLoop} (h : Still l m) (h' : Still m k) : Still l k :=
  ⟨h'.1.trans h.1, h'.2.1.trans h.2.1, h'.2.2.trans h.2.2⟩

/-- A step other than a start or a stop keeps the generation; it makes the loop live by a gate
of this generation only, and starts a poll in a live loop only. -/
structure Goes (a : PollAction) (l m : PollingLoop) : Prop where
  gen : m.gen = l.gen
  live : m.live = true → l.live = true ∨ a = .gate l.gen (some true)
  ticks : l.ticks.length < m.ticks.length → m.live = true

variable {interval l} {m : PollingLoop} {a : PollAction}

theorem Still.goes (h : Still l m) : Goes a l m where
  gen := h.1
  live hlive := .inl (h.2.1 ▸ hlive)
  ticks hlt := by
    rw [h.2.2] at hlt
    exact absurd hlt (lt_irrefl _)

/-- A poll is started in a live loop. -/
theorem Still.goes_runTick (h : Still l m) (hlive : l.live = true) : Goes a l (m.runTick g) where
  gen := h.1
  live _ := .inl hlive
  ticks _ := h.2.1.trans hlive

theorem goes_onTimer : Goes a l (l.onTimer interval g) := by
  have hclear : Still l { l with timer := none } := ⟨rfl, rfl, rfl⟩
  unfold onTimer
  simp only
  split_ifs with hstale hhidden
  · exact hclear.goes
  · exact (hclear.trans (still_schedule _ _ _)).goes
  · refine hclear.goes_runTick _ ?_
    simp only [Bool.or_eq_true, decide_eq_true_eq, Bool.not_eq_true', not_or, not_not,
      Bool.not_eq_false] at hstale
    exact hstale.2

theorem goes_onVisibilityChange : Goes a l (l.onVisibilityChange interval) := by
  have hsame : Still l l := ⟨rfl, rfl, rfl⟩
  unfold onVisibilityChange
  split_ifs with hquiet hsoon hflight
  · exact hsame.goes
  · exact hsame.goes
  · exact hsame.goes
  · refine (still_clearTimer l).goes_runTick _ ?_
    simp only [Bool.or_eq_true, Bool.not_eq_true', not_or, Bool.not_eq_false] at hquiet
    exact hquiet.2

/-- What was true of a loop that differs in bookkeeping. -/
theorem Goes.of_still {k : PollingLoop} (h : Goes a k m) (hsame : Still l k) : Goes a l m where
  gen := h.gen.trans hsame.1
  live hlive := by
    rw [← hsame.1, ← hsame.2.1]
    exact h.live hlive
  ticks hlt := h.ticks (hsame.2.2 ▸ hlt)

theorem goes_step (h : l.step interval a = some m) (hstart : ∀ gated, a ≠ .start gated)
    (hstop : a ≠ .stop) : Goes a l m := by
  cases a with
  | start gated => exact absurd rfl (hstart gated)
  | stop => exact absurd rfl hstop
  | gate g proceed =>
    have hsame : Still l { l with gates := l.gates.erase g } := ⟨rfl, rfl, rfl⟩
    simp only [step, Option.ite_none_right_eq_some, Option.some.injEq] at h
    obtain ⟨-, rfl⟩ := h
    unfold onGate
    split_ifs with hne hproceed
    · exact hsame.goes
    · obtain rfl : g = l.gen := not_not.mp hne
      exact ⟨rfl, fun _ => .inr (by rw [hproceed]), fun _ => rfl⟩
    · exact hsame.goes
  | settle g =>
    simp only [step, Option.ite_none_right_eq_some, Option.some.injEq] at h
    obtain ⟨-, rfl⟩ := h
    have hsame := still_schedule interval
      { l with
        ticks := l.ticks.erase g
        inFlight := Function.update l.inFlight g (l.pending g - 1) } g
    refine ⟨hsame.1, fun hlive => .inl (hsame.2.1.symm.trans hlive), fun hlt => ?_⟩
    have hle : (l.ticks.erase g).length ≤ l.ticks.length := List.length_erase_le
    rw [show (onSettled interval { l with ticks := l.ticks.erase g } g).ticks =
      l.ticks.erase g from hsame.2.2] at hlt
    omega
  | fire id =>
    simp only [step] at h
    split at h
    · cases h
    · split_ifs at h
      cases h
      exact (goes_onTimer _).of_still ⟨rfl, rfl, rfl⟩
  | visibility hidden =>
    simp only [step, Option.some.injEq] at h
    subst h
    split_ifs
    · exact goes_onVisibilityChange.of_still ⟨rfl, rfl, rfl⟩
    · exact Still.goes ⟨rfl, rfl, rfl⟩
  | clock ms =>
    cases h
    exact Still.goes ⟨rfl, rfl, rfl⟩

theorem stop_gen_live (l : PollingLoop) : l.stop.gen = l.gen + 1 ∧ l.stop.live = false := by
  have hclear := still_clearTimer { l with gen := l.gen + 1, live := false }
  exact ⟨hclear.1, hclear.2.1⟩

end PollingLoop

/-! ## One cluster -/

/-- The call is no newer than the counter; where it is the newest, it was made since the last
context change. -/
def SummaryCall.Upto (c : SummaryCall) (number epoch : ℕ) : Prop :=
  c.number ≤ number ∧ (c.number = number → c.epoch = epoch)

theorem SummaryCall.Upto.bump {c : SummaryCall} {number epoch : ℕ} (h : c.Upto number epoch)
    (k epoch' : ℕ) : c.Upto (number + (k + 1)) epoch' := by
  have hle := h.1
  exact ⟨by omega, fun heq => by omega⟩

namespace SummaryState

/-- The verdict on the metrics is of this context. -/
def Probed (s : SummaryState) : Prop := ∃ v, s.verdict = some v ∧ v.epoch = s.epoch

structure Current (s : SummaryState) : Prop where
  data : ∀ d ∈ s.data, d.usage.epoch = s.epoch ∧ d.totals.epoch = s.epoch
  cachedNodes : ∀ c ∈ s.cachedNodes, c.call.epoch = s.epoch
  live : s.loop.live = true → s.Probed
  probed : ∀ g, (g, true) ∈ s.probed → g ≤ s.loop.gen ∧ (g = s.loop.gen → s.Probed)
  probes : ∀ p ∈ s.probes, p.gen ≤ s.loop.gen ∧ SummaryCall.Upto ⟨p.mine, p.epoch⟩ s.gateSeq s.epoch
  refreshes : ∀ r ∈ s.refreshes, r.call.Upto s.requestSeq s.epoch
  reqs : (s.refreshes.map (·.req)).Nodup
  applied : ∀ c ∈ s.applied, c.number ≤ s.requestSeq ∧ ∀ r ∈ s.refreshes, r.req ≠ c.number
  order : s.applied.Pairwise fun later earlier => earlier.number < later.number
  polls : ∀ r ∈ s.polls, ∃ v, r.verdict = some v ∧ v.epoch = r.epoch

namespace Current
variable {parseQuantity : Option JStr → Option ℚ} {s : SummaryState}

/-- Every stop makes what is in flight stale, so the context may change with it. -/
theorem stopped (h : Current s) (epoch : ℕ) (data : Option Snapshot)
    (cachedNodes : Option (Received NodeTotals)) (cachedNodesAtMs : ℕ)
    (hdata : ∀ d ∈ data, d.usage.epoch = epoch ∧ d.totals.epoch = epoch)
    (hnodes : ∀ c ∈ cachedNodes, c.call.epoch = epoch) :
    Current { s.stop with epoch, data, cachedNodes, cachedNodesAtMs } := by
  obtain ⟨hgen, hdead⟩ := PollingLoop.stop_gen_live s.loop
  constructor
  · exact hdata
  · exact hnodes
  · intro hlive
    rw [show s.stop.loop.live = false from hdead] at hlive
    cases hlive
  · intro g hg
    have hle := (h.probed g hg).1
    simp only [stop, hgen]
    exact ⟨by omega, fun heq => by omega⟩
  · intro p hp
    obtain ⟨hle, hcall⟩ := h.probes p hp
    simp only [stop, hgen]
    exact ⟨by omega, hcall.bump 0 epoch⟩
  · exact fun r hr => (h.refreshes r hr).bump 0 epoch
  · exact h.reqs
  · exact fun c hc => ⟨(h.applied c hc).1.trans (Nat.le_succ _), (h.applied c hc).2⟩
  · exact h.order
  · exact h.polls

theorem stop (h : Current s) : Current s.stop :=
  h.stopped s.epoch s.data s.cachedNodes s.cachedNodesAtMs h.data h.cachedNodes

theorem start (h : Current s) : Current s.start := by
  obtain ⟨hgen, hdead⟩ := PollingLoop.stop_gen_live s.loop
  have hstop := h.stop
  have hnext : (s.loop.start true).gen = s.loop.gen + 2 := congrArg (· + 1) hgen
  have hlive : (s.loop.start true).live = false := hdead
  have hprev : s.stop.loop.gen = s.loop.gen + 1 := hgen
  constructor
  · exact hstop.data
  · exact hstop.cachedNodes
  · intro hl
    rw [show s.start.loop.live = false from hlive] at hl
    cases hl
  · intro g hg
    have hle := (h.probed g hg).1
    simp only [SummaryState.start, probeMetrics, hnext]
    exact ⟨by omega, fun heq => by omega⟩
  · intro p hp
    rcases List.mem_cons.mp hp with rfl | hp
    · exact ⟨le_rfl, le_rfl, fun _ => rfl⟩
    · obtain ⟨hle, hcall⟩ := hstop.probes p hp
      rw [hprev] at hle
      simp only [SummaryState.start, probeMetrics, hnext]
      exact ⟨by omega, hcall.bump 0 s.epoch⟩
  · exact hstop.refreshes
  · exact hstop.reqs
  · exact hstop.applied
  · exact hstop.order
  · exact hstop.polls

theorem onContext (h : Current s) (authenticated : Bool) : Current (s.onContext authenticated) := by
  have hclear := h.stopped (s.epoch + 1) none none 0
    (fun d hd => by cases hd) (fun c hc => by cases hc)
  unfold SummaryState.onContext
  simp only
  split_ifs
  · exact hclear.start
  · exact hclear

theorem onProbe (h : Current s) {p : SummaryProbe} (hp : p ∈ s.probes)
    (response : Option MetricsCapabilityState) :
    Current ({ s with probes := s.probes.erase p }.onProbe p response) := by
  obtain ⟨hgen, -, hepoch⟩ := h.probes p hp
  unfold SummaryState.onProbe
  split_ifs with hstale
  · refine { h with probed := fun g hg => ?_, probes := fun q hq => ?_ }
    · rcases List.mem_cons.mp hg with heq | hg
      · cases heq
      · exact h.probed g hg
    · exact h.probes q (List.mem_of_mem_erase hq)
  · have hverdict : Probed { s with verdict := some ⟨p.mine, p.epoch⟩ } :=
      ⟨_, rfl, hepoch (not_not.mp hstale)⟩
    refine { h with live := fun _ => hverdict, probed := fun g hg => ?_, probes := fun q hq => ?_ }
    · rcases List.mem_cons.mp hg with heq | hg
      · cases heq
        exact ⟨hgen, fun _ => hverdict⟩
      · exact ⟨(h.probed g hg).1, fun _ => hverdict⟩
    · exact h.probes q (List.mem_of_mem_erase hq)

theorem beginRefresh (h : Current s) (hprobed : s.Probed) (g : ℕ) : Current (s.beginRefresh g) := by
  unfold SummaryState.beginRefresh
  refine { h with
    refreshes := fun r hr => ?_, reqs := ?_, applied := fun c hc => ?_, polls := fun r hr => ?_ }
  · rcases List.mem_cons.mp hr with rfl | hr
    · exact ⟨le_rfl, fun _ => rfl⟩
    · exact (h.refreshes r hr).bump 0 s.epoch
  · rw [List.map_cons, List.nodup_cons]
    refine ⟨fun hmem => ?_, h.reqs⟩
    obtain ⟨r, hr, hreq⟩ := List.mem_map.mp hmem
    have hle : r.req ≤ s.requestSeq := (h.refreshes r hr).1
    simp only at hreq
    omega
  · obtain ⟨hle, hne⟩ := h.applied c hc
    refine ⟨hle.trans (Nat.le_succ _), fun r hr => ?_⟩
    rcases List.mem_cons.mp hr with rfl | hr
    · exact fun heq => absurd hle (by simp only at heq; omega)
    · exact hne r hr
  · rcases List.mem_cons.mp hr with rfl | hr
    · exact hprobed
    · exact h.polls r hr

theorem show_ (h : Current s) {totals : Received NodeTotals} {r : SummaryRefresh}
    (htotals : totals.call.epoch = s.epoch) (hr : r.epoch = s.epoch)
    (responses : SummaryResponses) : Current (s.show_ totals r responses) := by
  refine { h with data := fun d hd => ?_ }
  cases hd
  exact ⟨hr, htotals⟩

/-- The newest poll is taken in. -/
theorem apply (h : Current s) {r : SummaryRefresh} (hr : r ∈ s.refreshes)
    (hnew : r.req = s.requestSeq) :
    Current { s with refreshes := s.refreshes.erase r, applied := r.call :: s.applied } := by
  have hapart (r' : SummaryRefresh) (hr' : r' ∈ s.refreshes.erase r) : r'.req ≠ r.req := by
    have hperm := (List.perm_cons_erase hr).map (·.req)
    have hnodup := hperm.nodup_iff.mp h.reqs
    rw [List.map_cons, List.nodup_cons] at hnodup
    exact fun heq => hnodup.1 (heq ▸ List.mem_map_of_mem hr')
  refine { h with
    refreshes := fun r' hr' => h.refreshes r' (List.mem_of_mem_erase hr')
    reqs := h.reqs.sublist (List.erase_sublist.map _)
    applied := fun c hc => ?_
    order := List.pairwise_cons.mpr ⟨fun c hc => ?_, h.order⟩ }
  · rcases List.mem_cons.mp hc with rfl | hc
    · exact ⟨hnew.le, hapart⟩
    · exact ⟨(h.applied c hc).1, fun r' hr' => (h.applied c hc).2 r' (List.mem_of_mem_erase hr')⟩
  · obtain ⟨hle, hne⟩ := h.applied c hc
    exact lt_of_le_of_ne (hle.trans hnew.ge) (hne r hr).symm

theorem onResponses (h : Current s) {r : SummaryRefresh} (hr : r ∈ s.refreshes)
    (responses : SummaryResponses) :
    Current ({ s with refreshes := s.refreshes.erase r }.onResponses parseQuantity r responses) := by
  unfold SummaryState.onResponses
  by_cases hstale : r.req ≠ s.requestSeq
  · rw [if_pos hstale]
    exact { h with
      refreshes := fun r' hr' => h.refreshes r' (List.mem_of_mem_erase hr')
      reqs := h.reqs.sublist (List.erase_sublist.map _)
      applied := fun c hc =>
        ⟨(h.applied c hc).1, fun r' hr' => (h.applied c hc).2 r' (List.mem_of_mem_erase hr')⟩ }
  · have hnew := not_not.mp hstale
    have hepoch : r.epoch = s.epoch := (h.refreshes r hr).2 hnew
    have happly := h.apply hr hnew
    rw [if_neg hstale]
    simp only
    split_ifs with hwant
    · cases responses.nodes with
      | none => exact { happly with }
      | some items =>
        apply show_
        · refine { happly with cachedNodes := fun c hc => ?_ }
          cases hc
          exact hepoch
        · exact hepoch
        · exact hepoch
    · split
      next => exact { happly with }
      next totals hcache =>
        apply show_
        · exact { happly with }
        · exact h.cachedNodes totals hcache
        · exact hepoch

theorem onLoop (h : Current s) {a : PollAction} {m : PollingLoop}
    (hgoes : PollingLoop.Goes a s.loop m)
    (hgate : a = .gate s.loop.gen (some true) → s.Probed) : Current (s.onLoop m) := by
  have hlive (hm : m.live = true) : s.Probed := (hgoes.live hm).elim h.live hgate
  have hnext : Current { s with loop := m } := { h with
    live := hlive
    probed := fun g hg => by
      rw [show ({ s with loop := m } : SummaryState).loop.gen = s.loop.gen from hgoes.gen]
      exact h.probed g hg
    probes := fun p hp => by
      rw [show ({ s with loop := m } : SummaryState).loop.gen = s.loop.gen from hgoes.gen]
      exact h.probes p hp }
  unfold SummaryState.onLoop
  split_ifs with hticks
  · exact hnext.beginRefresh (hlive (hgoes.ticks hticks)) _
  · exact hnext

theorem loopStep (h : Current s) {a : PollAction} {t : SummaryState} (ht : s.loopStep a = some t)
    (hstart : ∀ gated, a ≠ .start gated) (hstop : a ≠ .stop)
    (hgate : a = .gate s.loop.gen (some true) → s.Probed) : Current t := by
  obtain ⟨m, hm, rfl⟩ := Option.map_eq_some_iff.mp ht
  exact h.onLoop (PollingLoop.goes_step hm hstart hstop) hgate

theorem step (h : Current s) {a : SummaryAction} {t : SummaryState}
    (ht : s.step parseQuantity a = some t) : Current t := by
  cases a with
  | start => cases ht; exact h.start
  | stop => cases ht; exact h.stop
  | context authenticated => cases ht; exact h.onContext authenticated
  | probe p response =>
    simp only [SummaryState.step, Option.ite_none_right_eq_some, Option.some.injEq] at ht
    obtain ⟨hp, rfl⟩ := ht
    exact h.onProbe hp response
  | refresh r responses =>
    simp only [SummaryState.step, Option.ite_none_right_eq_some, Option.some.injEq] at ht
    obtain ⟨hr, rfl⟩ := ht
    exact h.onResponses hr responses
  | gate g proceed =>
    simp only [SummaryState.step, Option.ite_none_right_eq_some] at ht
    obtain ⟨hg, ht⟩ := ht
    have herased : Current { s with probed := s.probed.erase (g, proceed) } :=
      { h with probed := fun g' hg' => h.probed g' (List.mem_of_mem_erase hg') }
    refine herased.loopStep ht (fun _ => by simp) (by simp) fun heq => ?_
    obtain ⟨hgen, htrue⟩ := PollAction.gate.inj heq
    cases htrue
    exact (h.probed g hg).2 hgen
  | settle g =>
    simp only [SummaryState.step, Option.ite_none_right_eq_some] at ht
    have herased : Current { s with refreshed := s.refreshed.erase g } := { h with }
    exact herased.loopStep ht.2 (fun _ => by simp) (by simp) (by simp)
  | fire id => exact h.loopStep ht (fun _ => by simp) (by simp) (by simp)
  | visibility hidden => exact h.loopStep ht (fun _ => by simp) (by simp) (by simp)
  | clock ms => exact h.loopStep ht (fun _ => by simp) (by simp) (by simp)
  | prefer pollIntervalSeconds => cases ht; exact { h with }

end Current
end SummaryState

variable {parseQuantity : Option JStr → Option ℚ} {s : SummaryState}

theorem current_reach (hs : (clusterSummary parseQuantity).Reachable s) : s.Current := by
  refine hs.invariant ?_ ?_
  · rintro s ⟨seconds, hidden, now, rfl⟩
    constructor
    · intro d hd
      cases hd
    · intro c hc
      cases hc
    · intro hlive
      cases hlive
    · intro g hg
      cases hg
    · intro p hp
      cases hp
    · intro r hr
      cases hr
    · exact List.nodup_nil
    · intro c hc
      cases hc
    · exact List.Pairwise.nil
    · intro r hr
      cases hr
  · intro s a t h _ ht
    exact h.step ht

/-! ## What a step writes -/

namespace SummaryState

/-- What is shown is left as it is, or cleared. -/
structure Keeps (s t : SummaryState) : Prop where
  applied : t.applied = s.applied
  data : t.data = s.data ∨ t.data = none
  cachedNodes : t.cachedNodes = s.cachedNodes ∨ t.cachedNodes = none
  available : t.available = s.available

/-- The responses of one poll are taken in, and what is written is theirs. -/
structure Takes (r : SummaryRefresh) (s t : SummaryState) : Prop where
  req : r.req = s.requestSeq
  applied : t.applied = r.call :: s.applied
  data : ∀ d ∈ t.data, d.usage = r.call ∨ s.data = some d
  cachedNodes : ∀ c ∈ t.cachedNodes, c.call = r.call ∨ s.cachedNodes = some c

theorem keeps_onLoop (s : SummaryState) (m : PollingLoop) : Keeps s (s.onLoop m) := by
  unfold onLoop
  split_ifs
  · exact ⟨rfl, .inl rfl, .inl rfl, rfl⟩
  · exact ⟨rfl, .inl rfl, .inl rfl, rfl⟩

theorem keeps_loopStep {a : PollAction} {t : SummaryState} (ht : s.loopStep a = some t) :
    Keeps s t := by
  obtain ⟨m, -, rfl⟩ := Option.map_eq_some_iff.mp ht
  exact keeps_onLoop s m

theorem keeps_onContext (s : SummaryState) (authenticated : Bool) :
    Keeps s (s.onContext authenticated) := by
  unfold onContext
  simp only
  split_ifs
  · exact ⟨rfl, .inr rfl, .inr rfl, rfl⟩
  · exact ⟨rfl, .inr rfl, .inr rfl, rfl⟩

theorem keeps_onProbe (s : SummaryState) (p : SummaryProbe)
    (response : Option MetricsCapabilityState) : Keeps s (s.onProbe p response) := by
  unfold onProbe
  split_ifs
  · exact ⟨rfl, .inl rfl, .inl rfl, rfl⟩
  · exact ⟨rfl, .inl rfl, .inl rfl, rfl⟩

theorem writes_onResponses (parseQuantity : Option JStr → Option ℚ) (s : SummaryState)
    (r : SummaryRefresh) (responses : SummaryResponses) :
    Keeps s (s.onResponses parseQuantity r responses) ∨
      Takes r s (s.onResponses parseQuantity r responses) := by
  have hold (d : Snapshot) (hd : d ∈ s.data) : d.usage = r.call ∨ s.data = some d := .inr hd
  have hcache (c : Received NodeTotals) (hc : c ∈ s.cachedNodes) :
      c.call = r.call ∨ s.cachedNodes = some c := .inr hc
  unfold onResponses
  simp only
  split_ifs with hstale
  · exact .inl ⟨rfl, .inl rfl, .inl rfl, rfl⟩
  · split
    next => exact .inr ⟨not_not.mp hstale, rfl, hold, hcache⟩
    next items hitems =>
      refine .inr ⟨not_not.mp hstale, rfl, fun d hd => .inl ?_, fun c hc => .inl ?_⟩
      · cases hd
        rfl
      · cases hc
        rfl
  · split
    next => exact .inr ⟨not_not.mp hstale, rfl, hold, hcache⟩
    next totals htotals =>
      refine .inr ⟨not_not.mp hstale, rfl, fun d hd => .inl ?_, hcache⟩
      cases hd
      rfl

theorem step_writes {a : SummaryAction} {t : SummaryState} (ht : s.step parseQuantity a = some t) :
    Keeps s t ∨ ∃ r ∈ s.refreshes, Takes r s t := by
  cases a with
  | start => cases ht; exact .inl ⟨rfl, .inl rfl, .inl rfl, rfl⟩
  | stop => cases ht; exact .inl ⟨rfl, .inl rfl, .inl rfl, rfl⟩
  | context authenticated => cases ht; exact .inl (keeps_onContext s authenticated)
  | probe p response =>
    simp only [step, Option.ite_none_right_eq_some, Option.some.injEq] at ht
    obtain ⟨-, rfl⟩ := ht
    obtain ⟨happlied, hdata, hcached, havailable⟩ :=
      keeps_onProbe { s with probes := s.probes.erase p } p response
    exact .inl ⟨happlied, hdata, hcached, havailable⟩
  | refresh r responses =>
    simp only [step, Option.ite_none_right_eq_some, Option.some.injEq] at ht
    obtain ⟨hr, rfl⟩ := ht
    rcases writes_onResponses parseQuantity
      { s with refreshes := s.refreshes.erase r } r responses with hkeeps | htakes
    · exact .inl ⟨hkeeps.applied, hkeeps.data, hkeeps.cachedNodes, hkeeps.available⟩
    · exact .inr ⟨r, hr, htakes.req, htakes.applied, htakes.data, htakes.cachedNodes⟩
  | gate g proceed =>
    simp only [step, Option.ite_none_right_eq_some] at ht
    have hkeeps := keeps_loopStep ht.2
    exact .inl ⟨hkeeps.applied, hkeeps.data, hkeeps.cachedNodes, hkeeps.available⟩
  | settle g =>
    simp only [step, Option.ite_none_right_eq_some] at ht
    have hkeeps := keeps_loopStep ht.2
    exact .inl ⟨hkeeps.applied, hkeeps.data, hkeeps.cachedNodes, hkeeps.available⟩
  | fire id => exact .inl (keeps_loopStep ht)
  | visibility hidden => exact .inl (keeps_loopStep ht)
  | clock ms => exact .inl (keeps_loopStep ht)
  | prefer seconds => cases ht; exact .inl ⟨rfl, .inl rfl, .inl rfl, rfl⟩

end SummaryState

/-- In every run: what is shown, the totals that are kept and the verdict that a poll went by
come from requests made since the last context change, usage and totals alike; and only a
poll newer than all those taken in before it writes. -/
theorem gauges_of_one_cluster (hs : (clusterSummary parseQuantity).Reachable s) :
    (∀ d ∈ s.data, d.usage.epoch = s.epoch ∧ d.totals.epoch = s.epoch) ∧
    (∀ c ∈ s.cachedNodes, c.call.epoch = s.epoch) ∧
    (∀ r ∈ s.polls, ∃ v, r.verdict = some v ∧ v.epoch = r.epoch) ∧
    ∀ a t, (clusterSummary parseQuantity).step s a = some t →
      s.Keeps t ∨ ∃ r ∈ s.refreshes, s.Takes r t ∧ r.epoch = s.epoch ∧
        ∀ c ∈ s.applied, c.number < r.req := by
  have h := current_reach hs
  refine ⟨h.data, h.cachedNodes, h.polls, fun a t ht => ?_⟩
  rcases SummaryState.step_writes ht with hkeeps | ⟨r, hr, htakes⟩
  · exact .inl hkeeps
  · have horder := (h.step ht).order
    rw [htakes.applied, List.pairwise_cons] at horder
    exact .inr ⟨r, hr, htakes, (h.refreshes r hr).2 htakes.req, horder.1⟩

/-- A poll of the first cluster that is overtaken by a switch: its responses come last. -/
def lateResponses : List SummaryAction :=
  let nodes : SummaryResponses := ⟨some (some [{}]), some [⟨500000000, 7⟩], some 3⟩
  [.start, .probe ⟨2, 2, 0⟩ (some .available), .gate 2 true, .context true,
    .probe ⟨5, 5, 1⟩ none, .gate 5 true,
    .refresh ⟨5, 5, 9, true, true, 1, some ⟨5, 1⟩⟩ nodes,
    .refresh ⟨2, 2, 9, true, true, 0, some ⟨2, 0⟩⟩ nodes, .settle 5]

theorem lateResponses_run :
    ((clusterSummary fun _ => none).exec { loop := { now := 9 } } lateResponses).isSome := by
  decide +kernel

def lateResponded : SummaryState :=
  ((clusterSummary fun _ => none).exec { loop := { now := 9 } } lateResponses).get lateResponses_run

theorem gauges_of_one_cluster_lateResponded :
    lateResponded.applied = [⟨5, 1⟩] ∧ (lateResponded.data.map (·.value.podCount)) = some (some 3) ∧
      ∀ d ∈ lateResponded.data, d.usage.epoch = 1 ∧ d.totals.epoch = 1 := by
  have hinit : (clusterSummary fun _ => none).Reachable { loop := { now := 9 } } :=
    .init ⟨15, false, 9, rfl⟩
  have hs := hinit.exec lateResponses (Option.some_get lateResponses_run).symm
  have hepoch : lateResponded.epoch = 1 := by decide +kernel
  refine ⟨by decide +kernel, by decide +kernel, fun d hd => ?_⟩
  exact hepoch ▸ (gauges_of_one_cluster hs).1 d hd

end KubeConsole.Web
