import KubeConsole.Theory.Paced
import KubeConsole.Theory.Threads

/-!
The readiness probe (`internal/server/readiness.go`): its result is kept for a while, and a mutex
is held around the whole of a check, the upstream request included.

Each operation happens at a time that the clock has reached. The answers are held to the
probes that were really made, which the state records beside what the cache remembers.
-/
namespace KubeConsole.Server
open KubeConsole.Theory

/-- One upstream request: when it was sent, when its outcome was recorded, and the outcome. -/
structure Probe where
  since : ℕ
  till : ℕ
  ready : Bool
  deriving DecidableEq, Repr

/-- `readinessCache`. `usable` says that the upstream, its base URL and its transport are there. -/
structure ReadinessCache where
  usable : Bool
  ttl : ℕ
  now : ℕ := 0
  locked : Bool := false
  /-- The zero time is `none`. -/
  checked : Option ℕ := none
  ready : Bool := false
  /-- The probes so far, the last one in front; no operation reads them. -/
  probes : List Probe := []
  deriving DecidableEq, Repr

/-- Where a caller of `isReady` is. -/
inductive Caller where
  /-- At `c.mu.Lock()`. -/
  | arriving
  /-- At the test of the age. -/
  | checking
  /-- In `c.probe()`, since a time. -/
  | probing (since : ℕ)
  /-- Returning past the deferred `Unlock`, with an answer settled on at a time. -/
  | returning (ready : Bool) (at_ : ℕ)
  | answered (ready : Bool) (at_ : ℕ)
  /-- The probe panicked and the deferred `Unlock` has run. -/
  | panicked
  deriving DecidableEq, Repr

inductive CallerEvent where
  | run
  /-- `RoundTrip` returns: a response or an error. -/
  | returns (response : Bool)
  | panics
  deriving DecidableEq, Repr

/-- `time.Since(c.checked) < c.ttl`, for a result that is there. -/
def ReadinessCache.fresh (c : ReadinessCache) : Bool :=
  c.checked.any fun t => c.now - t < c.ttl

/-- `probe`: fails closed where there is nothing to send the request with, and takes any
response for an answer. -/
def ReadinessCache.probe (c : ReadinessCache) (response : Bool) : Bool := c.usable && response

/-- `isReady`, one operation at a time. -/
def isReady (c : ReadinessCache) (k : Caller) (e : ℕ × CallerEvent) :
    Option (ReadinessCache × Caller) :=
  if e.1 < c.now then none
  else
    let c := { c with now := e.1 }
    match k, e.2 with
    | .arriving, .run => if c.locked then none else some ({ c with locked := true }, .checking)
    | .checking, .run =>
      some (c, if c.fresh then .returning c.ready c.now else .probing c.now)
    | .probing since, .returns response =>
      let ready := c.probe response
      some ({ c with ready, checked := some c.now, probes := ⟨since, c.now, ready⟩ :: c.probes },
        .returning ready c.now)
    | .probing _, .panics => some ({ c with locked := false }, .panicked)
    | .returning ready t, .run => some ({ c with locked := false }, .answered ready t)
    | _, _ => none

/-- Requests to `/readyz` arriving at any time. -/
def readyz : Program ReadinessCache Caller Unit (ℕ × CallerEvent) where
  start _ := .arriving
  op := isReady

/-- The cache of one server under any interleaving of its callers. -/
def readiness (usable : Bool) (ttl : ℕ) :
    Machine (Pool ReadinessCache Caller) (PoolAction Unit (ℕ × CallerEvent)) :=
  readyz.pool ⟨{ usable, ttl }, []⟩

/-- The caller holds the mutex. -/
def Caller.holds : Caller → Bool
  | .checking | .probing _ | .returning _ _ => true
  | _ => false

variable {usable : Bool} {ttl : ℕ} {c c' : ReadinessCache} {k k' : Caller} {e : ℕ × CallerEvent}

/-- What the operations do. -/
inductive Op (c : ReadinessCache) : Caller → ReadinessCache → Caller → Prop where
  | lock (h : c.locked = false) : Op c .arriving { c with locked := true } .checking
  | reuse (h : c.fresh = true) : Op c .checking c (.returning c.ready c.now)
  | send (h : c.fresh = false) : Op c .checking c (.probing c.now)
  | record (since : ℕ) (response : Bool) : Op c (.probing since)
      { c with
        ready := c.probe response
        checked := some c.now
        probes := ⟨since, c.now, c.probe response⟩ :: c.probes }
      (.returning (c.probe response) c.now)
  | panic (since : ℕ) : Op c (.probing since) { c with locked := false } .panicked
  | unlock (ready : Bool) (t : ℕ) :
      Op c (.returning ready t) { c with locked := false } (.answered ready t)

theorem isReady_op (h : isReady c k e = some (c', k')) :
    c.now ≤ e.1 ∧ Op { c with now := e.1 } k c' k' := by
  unfold isReady at h
  split_ifs at h with hnow
  refine ⟨not_lt.mp hnow, ?_⟩
  dsimp only at h
  split at h
  next =>
    split_ifs at h with hl
    cases h
    exact .lock (by simpa using hl)
  next =>
    cases h
    split_ifs with hf
    · exact .reuse hf
    · exact .send (by simpa using hf)
  next => cases h; exact .record _ _
  next => cases h; exact .panic _
  next => cases h; exact .unlock _ _
  next => cases h

/-- The mutex is held by one caller, or by none. -/
theorem locked_eq {p : Pool ReadinessCache Caller} (hp : (readiness usable ttl).Reachable p) :
    p.shared.locked.toNat = p.threads.countP Caller.holds := by
  refine Program.accounting_count (I := fun _ _ => True) (fun c => c.locked.toNat) Caller.holds
    (fun _ _ _ _ => trivial) rfl (fun _ => rfl) ?_ hp
  intro c k e c' k' _ hle ho
  obtain ⟨-, hop⟩ := isReady_op ho
  cases hop with
  | lock h => simp [Caller.holds, show c.locked = false from h]
  | reuse h => simp [Caller.holds]
  | send h => simp [Caller.holds]
  | record since response => simp [Caller.holds]
  | panic since =>
    have hone := Bool.toNat_le c.locked
    simp only [Caller.holds, Bool.toNat_true, Bool.toNat_false] at hle ⊢
    omega
  | unlock ready t =>
    have hone := Bool.toNat_le c.locked
    simp only [Caller.holds, Bool.toNat_true, Bool.toNat_false] at hle ⊢
    omega

theorem holds_apart {p : Pool ReadinessCache Caller} (hp : (readiness usable ttl).Reachable p) :
    p.threads.Pairwise fun k d => ¬(k.holds = true ∧ d.holds = true) := by
  refine Program.pairwise_of_countP_le_one ?_
  rw [← locked_eq hp]
  exact Bool.toNat_le _

/-! What the cache remembers of the probes. -/

/-- The times of the probes are in order, and apart by the time a result is kept. -/
structure Remembers (usable : Bool) (ttl : ℕ) (c : ReadinessCache) : Prop where
  usable_eq : c.usable = usable
  ttl_eq : c.ttl = ttl
  last : ∀ t, c.checked = some t → t ≤ c.now ∧
    ∃ q ∈ c.probes, q.till = t ∧ q.ready = c.ready ∧ ∀ q' ∈ c.probes, q'.till ≤ t
  probed : ∀ q ∈ c.probes, c.checked.isSome ∧ q.since ≤ q.till ∧ q.till ≤ c.now ∧
    (q.ready = true → usable = true)
  spaced : Paced Probe.since Probe.till ttl c.probes

/-- The answer is the outcome of the last probe before it, which is not older than it may be. -/
def AnswerOf (ttl : ℕ) (c : ReadinessCache) (ready : Bool) (t : ℕ) : Prop :=
  t ≤ c.now ∧ ∃ q ∈ c.probes, q.ready = ready ∧ q.till ≤ t ∧ t < q.till + ttl ∧
    ∀ q' ∈ c.probes, q'.till ≤ t → q'.till ≤ q.till

/-- What is known of a caller where it is. -/
def Knows (ttl : ℕ) (c : ReadinessCache) : Caller → Prop
  | .probing since => since ≤ c.now ∧ ∀ q ∈ c.probes, q.till + ttl ≤ since
  | .returning ready t | .answered ready t => AnswerOf ttl c ready t
  | _ => True

theorem Remembers.tick (h : Remembers usable ttl c) {t : ℕ} (ht : c.now ≤ t) :
    Remembers usable ttl { c with now := t } := by
  refine ⟨h.usable_eq, h.ttl_eq, fun u hu => ?_, fun q hq => ?_, h.spaced⟩
  · obtain ⟨hle, hq⟩ := h.last u hu
    exact ⟨hle.trans ht, hq⟩
  · obtain ⟨hs, hle, hnow, hr⟩ := h.probed q hq
    exact ⟨hs, hle, hnow.trans ht, hr⟩

theorem Knows.tick (h : Knows ttl c k) {t : ℕ} (ht : c.now ≤ t) :
    Knows ttl { c with now := t } k := by
  cases k with
  | probing since => exact ⟨h.1.trans ht, h.2⟩
  | returning ready u | answered ready u => exact ⟨h.1.trans ht, h.2⟩
  | _ => trivial

/-- A probe that ends later takes nothing from an answer given before. -/
theorem AnswerOf.record {ready : Bool} {t since : ℕ} (h : AnswerOf ttl c ready t)
    (hknows : Knows ttl c (.probing since)) (response : Bool) :
    AnswerOf ttl { c with
      ready := c.probe response
      checked := some c.now
      probes := ⟨since, c.now, c.probe response⟩ :: c.probes } ready t := by
  obtain ⟨htnow, q, hq, hready, hle, hlt, hlast⟩ := h
  obtain ⟨hsince, hall⟩ := hknows
  refine ⟨htnow, q, List.mem_cons_of_mem _ hq, hready, hle, hlt, fun q' hq' hq't => ?_⟩
  rcases List.mem_cons.mp hq' with rfl | hq'
  · have := hall q hq
    dsimp only at hq't
    omega
  · exact hlast q' hq' hq't

/-- An operation keeps what is remembered, and says what its caller knows next. -/
theorem Op.remembers (h : Op c k c' k') (httl : 0 < ttl) (hc : Remembers usable ttl c)
    (hk : Knows ttl c k) : Remembers usable ttl c' ∧ Knows ttl c' k' := by
  cases h with
  | lock _ => exact ⟨⟨hc.usable_eq, hc.ttl_eq, hc.last, hc.probed, hc.spaced⟩, trivial⟩
  | panic _ => exact ⟨⟨hc.usable_eq, hc.ttl_eq, hc.last, hc.probed, hc.spaced⟩, trivial⟩
  | unlock _ _ => exact ⟨⟨hc.usable_eq, hc.ttl_eq, hc.last, hc.probed, hc.spaced⟩, hk⟩
  | reuse hf =>
    obtain ⟨t, ht, hage⟩ := (Option.any_eq_true _ _).mp hf
    obtain ⟨hle, q, hq, rfl, hready, hlast⟩ := hc.last t ht
    have hage := of_decide_eq_true hage
    rw [hc.ttl_eq] at hage
    exact ⟨hc, le_rfl, q, hq, hready, hle, by omega, fun q' hq' _ => hlast q' hq'⟩
  | send hf =>
    refine ⟨hc, le_rfl, fun q hq => ?_⟩
    obtain ⟨hsome, -, -, -⟩ := hc.probed q hq
    obtain ⟨t, ht⟩ := Option.isSome_iff_exists.mp hsome
    obtain ⟨hle, -, -, -, -, hlast⟩ := hc.last t ht
    have hold : ¬c.now - t < ttl := by simpa [ReadinessCache.fresh, ht, hc.ttl_eq] using hf
    have := hlast q hq
    omega
  | record since response =>
    obtain ⟨hsince, hall⟩ := hk
    refine ⟨⟨hc.usable_eq, hc.ttl_eq, fun t ht => ?_, fun q hq => ?_, ?_⟩, le_rfl, ?_⟩
    · cases ht
      refine ⟨le_rfl, _, List.mem_cons_self, rfl, rfl, fun q' hq' => ?_⟩
      rcases List.mem_cons.mp hq' with rfl | hq'
      · exact le_rfl
      · exact (hc.probed q' hq').2.2.1
    · rcases List.mem_cons.mp hq with rfl | hq
      · refine ⟨rfl, hsince, le_rfl, fun hr => ?_⟩
        rw [← hc.usable_eq]
        exact (Bool.and_eq_true_iff.mp hr).1
      · obtain ⟨-, hle, hnow, hr⟩ := hc.probed q hq
        exact ⟨rfl, hle, hnow, hr⟩
    · exact hc.spaced.cons hall
    · refine ⟨_, List.mem_cons_self, rfl, le_rfl, Nat.lt_add_of_pos_right httl, fun q' hq' _ => ?_⟩
      rcases List.mem_cons.mp hq' with rfl | hq'
      · exact le_rfl
      · exact (hc.probed q' hq').2.2.1

/-- It leaves what is known of another caller, which is not probing too. -/
theorem Op.knows {d : Caller} (h : Op c k c' k') (hk : Knows ttl c k) (hd : Knows ttl c d)
    (hapart : ¬(k.holds = true ∧ d.holds = true)) : Knows ttl c' d := by
  cases h with
  | reuse _ | send _ => exact hd
  | lock _ | panic _ | unlock _ _ => cases d <;> exact hd
  | record since response =>
    cases d with
    | probing since' => exact absurd ⟨rfl, rfl⟩ hapart
    | returning ready t | answered ready t => exact AnswerOf.record hd hk response
    | _ => trivial

theorem remembers_of_reachable (httl : 0 < ttl) {p : Pool ReadinessCache Caller}
    (hp : (readiness usable ttl).Reachable p) :
    Remembers usable ttl p.shared ∧ ∀ k ∈ p.threads, Knows ttl p.shared k := by
  refine Program.reach_invariant (J := fun p => p.threads.Pairwise fun k d =>
    ¬(k.holds = true ∧ d.holds = true)) (S := Remembers usable ttl) (T := Knows ttl)
    (fun _ hq => holds_apart hq) ?_ (by simp) (fun _ _ => trivial) ?_ hp
  · exact ⟨rfl, rfl, nofun, by simp, Paced.nil⟩
  · intro p i hi e c' k' hapart _ hc hall ho
    obtain ⟨hnow, hop⟩ := isReady_op ho
    have hk := (hall _ (List.getElem_mem hi)).tick hnow
    obtain ⟨hc', hk'⟩ := hop.remembers httl (hc.tick hnow) hk
    refine ⟨hc', hk', fun j hj hij => ?_⟩
    have hsymm (k d : Caller) (h : ¬(k.holds = true ∧ d.holds = true)) :
        ¬(d.holds = true ∧ k.holds = true) := fun hb => h hb.symm
    exact hop.knows hk ((hall _ (List.getElem_mem hj)).tick hnow)
      (Program.apart_of_ne hsymm hapart hi hj hij)

/-- In every interleaving of callers, at whatever times: the mutex admits one at a time; the
probes do not overlap and start apart by `ttl`, so that their number is bounded by the time that
passed; every answer given is the outcome of the last probe before it, less than `ttl` old; it is
never ready without an upstream to ask; and the holder of the mutex is never stuck. -/
theorem readiness_answers (usable : Bool) (ttl : ℕ) (httl : 0 < ttl) (p : Pool ReadinessCache Caller)
    (hp : (readiness usable ttl).Reachable p) :
    p.threads.countP Caller.holds ≤ 1 ∧
      Paced Probe.since Probe.till ttl p.shared.probes ∧
      (p.shared.probes.length - 1) * ttl ≤ p.shared.now ∧
      (∀ k ∈ p.threads, ∀ ready t, k = .answered ready t → AnswerOf ttl p.shared ready t ∧
        (ready = true → usable = true)) ∧
      (∀ k ∈ p.threads, k.holds = true →
        ∃ e, (isReady p.shared k (p.shared.now, e)).isSome) := by
  obtain ⟨hc, hall⟩ := remembers_of_reachable httl hp
  refine ⟨?_, hc.spaced, ?_, ?_, ?_⟩
  · rw [← locked_eq hp]
    exact Bool.toNat_le _
  · exact hc.spaced.length_mul_le fun q hq => ⟨(hc.probed q hq).2.1, (hc.probed q hq).2.2.1⟩
  · rintro k hk ready t rfl
    have ha := hall _ hk
    obtain ⟨-, q, hq, hr, -⟩ := id ha
    exact ⟨ha, fun h => (hc.probed q hq).2.2.2 (hr.trans h)⟩
  · intro k _ hholds
    cases k with
    | checking | returning ready t => exact ⟨.run, by simp [isReady]⟩
    | probing since => exact ⟨.panics, by simp [isReady]⟩
    | _ => cases hholds

/-- Two callers of a cache with a life of five: the second waits for the first's probe and takes
its result. -/
def burst : List (PoolAction Unit (ℕ × CallerEvent)) :=
  [.spawn (), .spawn (), .act 0 (10, .run), .act 0 (10, .run), .act 0 (12, .returns true),
    .act 0 (12, .run), .act 1 (13, .run), .act 1 (14, .run), .act 1 (14, .run)]

theorem readiness_answers_burst :
    ∃ p, (readiness true 5).exec ⟨{ usable := true, ttl := 5 }, []⟩ burst = some p ∧
      p.threads = [.answered true 12, .answered true 14] ∧ AnswerOf 5 p.shared true 14 := by
  refine ⟨_, rfl, rfl, ?_⟩
  have h := readiness_answers true 5 (by decide) _
    (Machine.Reachable.exec burst (Machine.Reach.init rfl) rfl)
  exact (h.2.2.2.1 (.answered true 14) (by decide) true 14 rfl).1

end KubeConsole.Server
