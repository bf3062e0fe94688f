import KubeConsole.Gateway.Streaming
import KubeConsole.Theory.Threads

/-!
The cap on concurrent requests (`internal/server/limits.go`), shared by every proxied path.

A request is classified, takes one slot of its pool or is turned away, and gives the slot
back when the handler below returns or panics. The classification on `/k8s` is made once and
carried by the request's context; `/api` has a predicate of its own and no classifier.
-/
namespace KubeConsole.Server
open KubeConsole.Go KubeConsole.Gateway KubeConsole.Theory

/-- A buffered channel used as a semaphore: its length never exceeds its capacity. -/
structure Chan where
  cap : ℕ
  len : ℕ
  len_le : len ≤ cap
  deriving DecidableEq

namespace Chan

/-- `make(chan struct{}, cap)`. -/
def make (cap : ℕ) : Chan := ⟨cap, 0, Nat.zero_le cap⟩

/-- The send of a `select` with a default: `none` where the buffer is full. -/
def trySend (ch : Chan) : Option Chan :=
  if h : ch.len < ch.cap then some ⟨ch.cap, ch.len + 1, h⟩ else none

/-- A receive: `none` where it would block. -/
def recv (ch : Chan) : Option Chan :=
  if ch.len = 0 then none else some ⟨ch.cap, ch.len - 1, (Nat.sub_le _ _).trans ch.len_le⟩

theorem trySend_eq_some {ch ch' : Chan} (h : ch.trySend = some ch') :
    ch'.cap = ch.cap ∧ ch'.len = ch.len + 1 := by
  unfold trySend at h
  split_ifs at h
  cases h
  exact ⟨rfl, rfl⟩

theorem trySend_eq_none {ch : Chan} : ch.trySend = none ↔ ch.len = ch.cap := by
  have hle := ch.len_le
  unfold trySend
  split_ifs with h
  · simp only [false_iff]
    omega
  · simp only [true_iff]
    omega

theorem recv_eq_some {ch ch' : Chan} (h : ch.recv = some ch') :
    ch'.cap = ch.cap ∧ ch'.len + 1 = ch.len := by
  unfold recv at h
  split_ifs at h with hlen
  cases h
  exact ⟨rfl, Nat.succ_pred_eq_of_ne_zero hlen⟩

theorem recv_isSome {ch : Chan} (h : 0 < ch.len) : ch.recv.isSome := by
  rw [recv, if_neg h.ne']
  rfl

end Chan

/-- `streamPoolFactor`. -/
def streamPoolFactor : ℕ := 8

/-- `inFlightLimiter`. -/
structure InFlightLimiter where
  slots : Chan
  streams : Chan
  deriving DecidableEq

/-- `newInFlightLimiter`: nil where the cap is disabled. -/
def newInFlightLimiter (max : ℤ) : Option InFlightLimiter :=
  if max ≤ 0 then none
  else some ⟨Chan.make max.toNat, Chan.make (streamPoolFactor * max.toNat)⟩

namespace InFlightLimiter

/-- The pool of a request, by whether it is long-lived. -/
def pool (l : InFlightLimiter) (longLived : Bool) : Chan := if longLived then l.streams else l.slots

def setPool (l : InFlightLimiter) (longLived : Bool) (ch : Chan) : InFlightLimiter :=
  if longLived then { l with streams := ch } else { l with slots := ch }

theorem pool_setPool (l : InFlightLimiter) (a b : Bool) (ch : Chan) :
    (l.setPool a ch).pool b = if b = a then ch else l.pool b := by
  cases a <;> cases b <;> rfl

end InFlightLimiter

/-- `execWSPath`. -/
def execWSPath : Str := str "/api/ui/exec/ws"

/-- `isExecWS`. -/
def isExecWS (u : URL) : Bool := execWSPath ++ str "/" <+: u.path || u.path = execWSPath

/-- The two subtrees the limiter is mounted on. -/
inductive Route where
  | k8s | api
  deriving DecidableEq, Repr

/-- What the limiter and the classifier read of a request. `streaming` is the context value. -/
structure Inbound where
  route : Route
  url : URL
  rawQuery : Str := []
  streaming : Option Bool := none
  deriving DecidableEq, Repr

/-- `streamClassifier.middleware`. -/
def classify (maxParams : Option ℕ) (r : Inbound) : Inbound :=
  { r with streaming := some (isStreaming maxParams r.url r.rawQuery) }

/-- `streamClassifier.verdict`: the value in the context, or a fresh evaluation. -/
def verdict (maxParams : Option ℕ) (r : Inbound) : Bool :=
  r.streaming.getD (isStreaming maxParams r.url r.rawQuery)

/-- The predicate each route mounts the limiter with. -/
def longLived (maxParams : Option ℕ) (r : Inbound) : Bool :=
  match r.route with
  | .k8s => verdict maxParams r
  | .api => isExecWS r.url

/-- The middlewares outside the limiter: `/k8s` has the classifier. -/
def arrive (maxParams : Option ℕ) (r : Inbound) : Inbound :=
  match r.route with
  | .k8s => classify maxParams r
  | .api => r

inductive Pc where
  /-- At the `select` on the pool. -/
  | entry
  /-- In the handler below, the receive deferred. -/
  | serving
  /-- Returning or unwinding past the deferred receive. -/
  | leaving
  /-- Answered 429. -/
  | refused
  | done
  deriving DecidableEq, Repr

/-- One request in the middleware. -/
structure Served where
  request : Inbound
  pc : Pc := .entry
  deriving DecidableEq, Repr

inductive Event where
  /-- The next operation of the middleware itself. -/
  | run
  /-- The handler below returns. -/
  | returns
  | panics
  deriving DecidableEq, Repr

/-- `middleware`, one operation at a time. -/
def serve (maxParams : Option ℕ) (l : Option InFlightLimiter) (c : Served) (e : Event) :
    Option (Option InFlightLimiter × Served) :=
  match c.pc, e with
  | .entry, .run =>
    match l with
    | none => some (l, { c with pc := .serving })
    | some lim =>
      match (lim.pool (longLived maxParams c.request)).trySend with
      | some ch =>
        some (some (lim.setPool (longLived maxParams c.request) ch), { c with pc := .serving })
      | none => some (l, { c with pc := .refused })
  | .serving, .returns | .serving, .panics => some (l, { c with pc := .leaving })
  | .leaving, .run =>
    match l with
    | none => some (l, { c with pc := .done })
    | some lim =>
      (lim.pool (longLived maxParams c.request)).recv.map fun ch =>
        (some (lim.setPool (longLived maxParams c.request) ch), { c with pc := .done })
  | _, _ => none

/-- Requests arriving on both routes, and the operations of each. -/
def requests (maxParams : Option ℕ) : Program (Option InFlightLimiter) Served Inbound Event where
  start r := { request := arrive maxParams { r with streaming := none } }
  op := serve maxParams

/-- The limiter of one server under any interleaving of its requests. -/
def inFlight (maxParams : Option ℕ) (max : ℤ) :
    Machine (Pool (Option InFlightLimiter) Served) (PoolAction Inbound Event) :=
  (requests maxParams).pool ⟨newInFlightLimiter max, []⟩

/-! What an operation does. -/

/-- The request is between taking its slot and giving it back. -/
def Served.occupies (c : Served) : Bool := c.pc = .serving || c.pc = .leaving

/-- It occupies the pool of the long-lived requests, or the other one. -/
def Served.occupiesPool (maxParams : Option ℕ) (b : Bool) (c : Served) : Bool :=
  c.occupies && longLived maxParams c.request == b

variable {maxParams : Option ℕ} {max : ℤ} {l l' : Option InFlightLimiter} {c c' : Served} {e : Event}

/-- The operations of a request on an enabled limiter. -/
inductive Step (maxParams : Option ℕ) (lim : InFlightLimiter) (c : Served) :
    InFlightLimiter → Served → Prop where
  | take {ch} (hc : c.occupies = false) (h : (lim.pool (longLived maxParams c.request)).trySend = some ch) :
      Step maxParams lim c (lim.setPool (longLived maxParams c.request) ch) { c with pc := .serving }
  | refuse (hc : c.occupies = false)
      (h : (lim.pool (longLived maxParams c.request)).trySend = none) :
      Step maxParams lim c lim { c with pc := .refused }
  | leave (hc : c.occupies = true) : Step maxParams lim c lim { c with pc := .leaving }
  | give {ch} (hc : c.occupies = true)
      (h : (lim.pool (longLived maxParams c.request)).recv = some ch) :
      Step maxParams lim c (lim.setPool (longLived maxParams c.request) ch) { c with pc := .done }

theorem serve_some {lim : InFlightLimiter} (h : serve maxParams (some lim) c e = some (l', c')) :
    ∃ lim', l' = some lim' ∧ Step maxParams lim c lim' c' := by
  unfold serve at h
  split at h
  next hp =>
    dsimp only at h
    split at h
    next ch hch =>
      cases h
      exact ⟨_, rfl, .take (by simp [Served.occupies, hp]) hch⟩
    next hch =>
      cases h
      exact ⟨_, rfl, .refuse (by simp [Served.occupies, hp]) hch⟩
  next hp =>
    cases h
    exact ⟨_, rfl, .leave (by simp [Served.occupies, hp])⟩
  next hp =>
    cases h
    exact ⟨_, rfl, .leave (by simp [Served.occupies, hp])⟩
  next hp =>
    obtain ⟨ch, hch, heq⟩ := Option.map_eq_some_iff.mp h
    cases heq
    exact ⟨_, rfl, .give (by simp [Served.occupies, hp]) hch⟩
  next => cases h

theorem Step.request {lim lim' : InFlightLimiter} (h : Step maxParams lim c lim' c') :
    c'.request = c.request := by
  cases h <;> rfl

@[simp] theorem occupies_serving (r : Inbound) : (Served.mk r .serving).occupies = true := rfl

@[simp] theorem occupies_refused (r : Inbound) : (Served.mk r .refused).occupies = false := rfl

@[simp] theorem occupies_leaving (r : Inbound) : (Served.mk r .leaving).occupies = true := rfl

@[simp] theorem occupies_done (r : Inbound) : (Served.mk r .done).occupies = false := rfl

theorem toNat_occupiesPool (c : Served) (b : Bool) : (c.occupiesPool maxParams b).toNat =
    if b = longLived maxParams c.request then c.occupies.toNat else 0 := by
  unfold Served.occupiesPool
  split_ifs with hb
  · simp [hb]
  · simp [Ne.symm hb]

/-- An operation changes the length of each pool as it changes what the request occupies. -/
theorem Step.balance {lim lim' : InFlightLimiter} (h : Step maxParams lim c lim' c') (b : Bool) :
    (lim'.pool b).cap = (lim.pool b).cap ∧
      (lim'.pool b).len + (c.occupiesPool maxParams b).toNat =
        (lim.pool b).len + (c'.occupiesPool maxParams b).toNat := by
  rw [toNat_occupiesPool, toNat_occupiesPool, h.request]
  by_cases hb : b = longLived maxParams c.request
  · subst hb
    cases h with
    | take hc h => simp [InFlightLimiter.pool_setPool, Chan.trySend_eq_some h, hc]
    | refuse hc h => simp [hc]
    | leave hc => simp [hc]
    | give hc h => simp [InFlightLimiter.pool_setPool, Chan.recv_eq_some h, hc]
  · cases h with
    | take hc h => simp [InFlightLimiter.pool_setPool, hb]
    | refuse hc h => simp [hb]
    | leave hc => simp [hb]
    | give hc h => simp [InFlightLimiter.pool_setPool, hb]

/-! Every interleaving. -/

/-- An enabled limiter keeps its capacities. -/
def Sized (max : ℤ) (l : Option InFlightLimiter) : Prop :=
  ∃ lim, l = some lim ∧ lim.slots.cap = max.toNat ∧ lim.streams.cap = streamPoolFactor * max.toNat

theorem limiter_sized (hmax : 0 < max) {p : Pool (Option InFlightLimiter) Served}
    (hp : (inFlight maxParams max).Reachable p) : Sized max p.shared := by
  refine Program.pool_invariant (I := fun p => Sized max p.shared) ?_ (fun _ _ h => h) ?_ hp
  · refine ⟨_, if_neg (not_le.mpr hmax), rfl, rfl⟩
  · rintro p i hi e l' c' ⟨lim, hl, hslots, hstreams⟩ ho
    rw [hl] at ho
    obtain ⟨lim', rfl, hs⟩ := serve_some ho
    exact ⟨lim', rfl, (hs.balance false).1.trans hslots, (hs.balance true).1.trans hstreams⟩

/-- The pool of the class `b`, zero where there is no limiter. -/
def occupied (b : Bool) (l : Option InFlightLimiter) : ℕ := l.elim 0 fun lim => (lim.pool b).len

/-- Each pool counts the requests that occupy it. -/
theorem occupied_eq (hmax : 0 < max) (b : Bool) {p : Pool (Option InFlightLimiter) Served}
    (hp : (inFlight maxParams max).Reachable p) :
    occupied b p.shared = p.threads.countP (Served.occupiesPool maxParams b) := by
  refine Program.accounting_count (I := fun l _ => Sized max l) (occupied b)
    (Served.occupiesPool maxParams b) (fun _ hq _ _ => limiter_sized hmax hq) ?_
    (fun _ => rfl) ?_ hp
  · simp only [newInFlightLimiter, not_le.mpr hmax, if_false]
    cases b <;> rfl
  · rintro l c e l' c' ⟨lim, rfl, -, -⟩ - ho
    obtain ⟨lim', rfl, hs⟩ := serve_some ho
    exact (hs.balance b).2

/-- What a request is in the end, by its route. -/
def verdictOf (maxParams : Option ℕ) (r : Inbound) : Bool :=
  match r.route with
  | .k8s => isStreaming maxParams r.url r.rawQuery
  | .api => isExecWS r.url

theorem longLived_arrive (r : Inbound) :
    longLived maxParams (arrive maxParams { r with streaming := none }) =
      verdictOf maxParams (arrive maxParams { r with streaming := none }) := by
  obtain ⟨route, url, rawQuery, -⟩ := r
  cases route with
  | k8s => rfl
  | api => rfl

theorem serve_request (h : serve maxParams l c e = some (l', c')) : c'.request = c.request := by
  cases l with
  | some lim =>
    obtain ⟨lim', -, hs⟩ := serve_some h
    exact hs.request
  | none =>
    unfold serve at h
    split at h <;> cases h <;> rfl

/-- The context value is the verdict on the request itself, wherever the request is. -/
theorem longLived_eq {p : Pool (Option InFlightLimiter) Served}
    (hp : (inFlight maxParams max).Reachable p) :
    ∀ c ∈ p.threads, longLived maxParams c.request = verdictOf maxParams c.request := by
  refine Program.forall_threads
    (I := fun c => longLived maxParams c.request = verdictOf maxParams c.request) (by simp)
    longLived_arrive (fun l c e l' c' hc ho => ?_) hp
  rw [serve_request ho]
  exact hc

/-- The capacity of the pool of the class `b`. -/
def capacity (max : ℤ) (b : Bool) : ℕ := if b then streamPoolFactor * max.toNat else max.toNat

theorem Sized.cap {lim : InFlightLimiter} (h : Sized max (some lim)) (b : Bool) :
    (lim.pool b).cap = capacity max b := by
  obtain ⟨lim', heq, hslots, hstreams⟩ := h
  cases heq
  cases b
  · exact hslots
  · exact hstreams

/-- Without a cap no request is turned away. -/
theorem never_refused (hmax : max ≤ 0) {p : Pool (Option InFlightLimiter) Served}
    (hp : (inFlight maxParams max).Reachable p) :
    p.shared = none ∧ ∀ c ∈ p.threads, c.pc ≠ .refused := by
  have hnone : newInFlightLimiter max = none := if_pos hmax
  refine Program.pool_invariant (I := fun p => p.shared = none ∧ ∀ c ∈ p.threads, c.pc ≠ .refused)
    ⟨hnone, by simp⟩ ?_ ?_ hp
  · rintro p r ⟨hs, hall⟩
    refine ⟨hs, fun c hc => ?_⟩
    rcases List.mem_append.mp hc with hc | hc
    · exact hall c hc
    · rw [List.mem_singleton.mp hc]
      exact nofun
  · rintro p i hi e l' c' ⟨hs, hall⟩ ho
    have ho : serve maxParams none p.threads[i] e = some (l', c') := hs ▸ ho
    have hstep : l' = none ∧ c'.pc ≠ .refused := by
      unfold serve at ho
      split at ho <;> cases ho <;> exact ⟨rfl, nofun⟩
    refine ⟨hstep.1, fun c hc => ?_⟩
    rcases List.mem_or_eq_of_mem_set hc with hc | rfl
    · exact hall c hc
    · exact hstep.2

variable (maxParams) in
/-- A request at the `select` is let in or turned away, the latter exactly if its pool is full. -/
theorem entry_run (lim : InFlightLimiter) (hc : c.pc = .entry) :
    ∃ l' c', serve maxParams (some lim) c .run = some (l', c') ∧
      (c'.pc = .refused ∧ (lim.pool (longLived maxParams c.request)).len =
          (lim.pool (longLived maxParams c.request)).cap ∨
        c'.pc = .serving ∧ (lim.pool (longLived maxParams c.request)).len ≠
          (lim.pool (longLived maxParams c.request)).cap) := by
  cases hs : (lim.pool (longLived maxParams c.request)).trySend with
  | none =>
    refine ⟨some lim, { c with pc := .refused }, ?_, .inl ⟨rfl, Chan.trySend_eq_none.mp hs⟩⟩
    simp [serve, hc, hs]
  | some ch =>
    have hne : ¬(lim.pool (longLived maxParams c.request)).trySend = none := by simp [hs]
    refine ⟨some (lim.setPool (longLived maxParams c.request) ch), { c with pc := .serving }, ?_,
      .inr ⟨rfl, mt Chan.trySend_eq_none.mpr hne⟩⟩
    simp [serve, hc, hs]

/-- With a positive cap, in every interleaving of requests on both routes: each pool counts the
requests of its class that are being served, within its capacity; a request is turned away exactly
if as many of its own class are being served as its pool holds, whatever the other class does; its
class is the verdict on the request itself; giving back never blocks; and with no request being
served nothing is held. -/
theorem inFlight_accounts (maxParams : Option ℕ) (max : ℤ) (hmax : 0 < max)
    (p : Pool (Option InFlightLimiter) Served) (hp : (inFlight maxParams max).Reachable p) :
    ∃ lim, p.shared = some lim ∧
      (∀ b, (lim.pool b).len = p.threads.countP (Served.occupiesPool maxParams b) ∧
        (lim.pool b).len ≤ capacity max b) ∧
      (∀ c ∈ p.threads, longLived maxParams c.request = verdictOf maxParams c.request ∧
        (c.pc = .entry → ∃ l' c', serve maxParams p.shared c .run = some (l', c') ∧
          if p.threads.countP (Served.occupiesPool maxParams (verdictOf maxParams c.request)) =
            capacity max (verdictOf maxParams c.request) then c'.pc = .refused else c'.pc = .serving) ∧
        (c.pc = .leaving → (serve maxParams p.shared c .run).isSome)) ∧
      ((∀ c ∈ p.threads, c.occupies = false) → ∀ b, (lim.pool b).len = 0) := by
  have hsized := limiter_sized hmax hp
  obtain ⟨lim, hl, -, -⟩ := id hsized
  rw [hl] at hsized ⊢
  have hlen (b : Bool) : (lim.pool b).len = p.threads.countP (Served.occupiesPool maxParams b) := by
    have h := occupied_eq hmax b hp
    rwa [hl] at h
  refine ⟨lim, rfl, fun b => ⟨hlen b, hsized.cap b ▸ (lim.pool b).len_le⟩, fun c hc => ?_, ?_⟩
  · have hverdict := longLived_eq hp c hc
    refine ⟨hverdict, fun hentry => ?_, fun hleaving => ?_⟩
    · obtain ⟨l', c', hrun, hcase⟩ := entry_run maxParams lim hentry
      refine ⟨l', c', hrun, ?_⟩
      rw [← hverdict, ← hlen, ← hsized.cap]
      split_ifs with hfull
      · exact (hcase.resolve_right fun h => h.2 hfull).1
      · exact (hcase.resolve_left fun h => hfull h.2).1
    · have hpos : 0 < (lim.pool (longLived maxParams c.request)).len := by
        rw [hlen, List.countP_pos_iff]
        exact ⟨c, hc, by simp [Served.occupiesPool, Served.occupies, hleaving]⟩
      simp [serve, hleaving, Chan.recv_isSome hpos]
  · intro hnone b
    rw [hlen, List.countP_eq_zero]
    intro c hc
    simp [Served.occupiesPool, hnone c hc]

/-- Two watches and a read on a server with one unary slot, the read behind another one. -/
def crowd : List (PoolAction Inbound Event) :=
  [.spawn { route := .k8s, url := { path := str "/k8s/api/v1/pods" }, rawQuery := str "watch=1" },
    .spawn { route := .k8s, url := { path := str "/k8s/api/v1/watch/pods" } },
    .spawn { route := .k8s, url := { path := str "/k8s/api/v1/pods" } },
    .spawn { route := .api, url := { path := str "/api/ui/discovery" } },
    .act 0 .run, .act 1 .run, .act 2 .run]

theorem inFlight_accounts_crowd :
    ∃ p lim, (inFlight none 1).exec ⟨newInFlightLimiter 1, []⟩ crowd = some p ∧
      p.shared = some lim ∧ (lim.pool true).len = 2 ∧
      p.threads.countP (Served.occupiesPool none true) = 2 := by
  have hrun : ((inFlight none 1).exec ⟨newInFlightLimiter 1, []⟩ crowd).map (fun p =>
      occupied true p.shared) = some 2 := by decide +kernel
  obtain ⟨p, hp, hlen⟩ := Option.map_eq_some_iff.mp hrun
  obtain ⟨lim, hl, hall, -⟩ := inFlight_accounts none 1 (by decide) p
    (Machine.Reachable.exec crowd (Machine.Reach.init rfl) hp)
  have hlen : (lim.pool true).len = 2 := by simpa [occupied, hl] using hlen
  exact ⟨p, lim, hp, hl, hlen, (hall true).1 ▸ hlen⟩

end KubeConsole.Server
