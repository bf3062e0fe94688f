import KubeConsole.Gateway.Streaming
import KubeConsole.Theory.Transition

/-!
How a proxied request ends when the server shuts down or its client leaves
(`AbortOnShutdown` in `internal/server/middleware.go`, `errorHandler` in
`internal/gateway/gateway.go`).

Both ends cancel the same context, and the transport then fails in the same way. They are told
apart by the cause of the cancellation: the first cancel sets it, and the goroutine that waits
for the shutdown races with the client and with the handler's own return.
-/
namespace KubeConsole.Gateway
open KubeConsole.Kube KubeConsole.Theory

/-- `context.Cause` of a done context: `context.Canceled` or `httpx.ErrShutdown`. -/
inductive Cause where
  | canceled | shutdown
  deriving DecidableEq, Repr

/-- What the transport fails with, as far as `errorHandler` tells errors apart. -/
inductive UpstreamError where
  | canceled | bodyTooLarge | other
  deriving DecidableEq, Repr

/-- `errorHandler`: the error written, or nothing. -/
def errorHandler (cause : Option Cause) (err : UpstreamError) : Option HttpError :=
  if cause = some .shutdown then some ⟨503, "ServiceUnavailable", "server is shutting down"⟩
  else match err with
    | .canceled => none
    | .bodyTooLarge => some ⟨413, "RequestEntityTooLarge", "request body too large"⟩
    | .other => some ⟨502, "ServiceUnavailable", "upstream kube-apiserver is unreachable"⟩

/-- How the response looks to the client. -/
inductive Outcome where
  /-- An error of the gateway's own. -/
  | error (e : HttpError)
  /-- Nothing was written: net/http completes an empty 200. -/
  | silent
  /-- The upstream's response, to its end. -/
  | complete
  /-- The upstream's response, cut off: the handler panicked with `http.ErrAbortHandler`. -/
  | aborted
  deriving DecidableEq, Repr

inductive Phase where
  /-- In the transport's `RoundTrip`. -/
  | proxying
  /-- The response headers are out; its body is copied. -/
  | copying
  | returned
  deriving DecidableEq, Repr

/-- One request below `AbortOnShutdown`. -/
structure Exchange where
  /-- `match`: the middleware derived a context and started its goroutine. -/
  matched : Bool
  shutdown : Bool := false
  /-- The request's own context is cancelled. -/
  clientGone : Bool := false
  /-- The cause of the derived context, once it is done. -/
  derived : Option Cause := none
  /-- The goroutine is in its `select`. -/
  watching : Bool := matched
  phase : Phase := .proxying
  outcome : Option Outcome := none
  deriving DecidableEq, Repr

namespace Exchange

/-- The cause of the context the proxy sees. -/
def cause (s : Exchange) : Option Cause :=
  if s.matched then s.derived else if s.clientGone then some .canceled else none

/-- A cancel: the first one sets the cause. -/
def cancel (s : Exchange) (c : Cause) : Exchange :=
  if s.matched then { s with derived := s.derived.or (some c) } else s

/-- The handler returns or unwinds past the deferred `cancel(nil)`. -/
def finish (s : Exchange) (o : Outcome) : Exchange :=
  { s with phase := .returned, outcome := some o }.cancel .canceled

end Exchange

inductive ExchangeAction where
  | shutdown
  | clientLeaves
  /-- The goroutine's `select` takes the case of the shutdown, or of the context. -/
  | wake (onShutdown : Bool)
  | fails (err : UpstreamError)
  | responds
  /-- The copy of the body ends; `false` where reading or writing it failed. -/
  | copied (whole : Bool)
  deriving DecidableEq, Repr

/-- `AbortOnShutdown` around the proxy, one event at a time. -/
def exchangeStep (s : Exchange) : ExchangeAction → Option Exchange
  | .shutdown => some { s with shutdown := true }
  | .clientLeaves => some ({ s with clientGone := true }.cancel .canceled)
  | .wake onShutdown =>
    if !s.watching then none
    else if onShutdown then
      if s.shutdown then some ({ s with watching := false }.cancel .shutdown) else none
    else if s.derived.isSome then some { s with watching := false } else none
  | .fails err =>
    if s.phase ≠ .proxying then none
    else some (s.finish ((errorHandler s.cause err).elim .silent .error))
  | .responds => if s.phase ≠ .proxying then none else some { s with phase := .copying }
  | .copied whole =>
    if s.phase ≠ .copying then none
    else some (s.finish (if whole then .complete else .aborted))

/-- A request that `match` selects or not, from the start of its round trip. -/
def exchange (matched : Bool) : Machine Exchange ExchangeAction where
  init s := s = { matched }
  step := exchangeStep

/-- The transport reports a cancellation only where the context is done. -/
def Transport (s : Exchange) (a : ExchangeAction) : Prop :=
  a = .fails .canceled → s.cause.isSome

instance (s : Exchange) (a : ExchangeAction) : Decidable (Transport s a) :=
  inferInstanceAs (Decidable (_ → _))

/-! What a cancel changes: the cause, if there is none yet. -/

namespace Exchange

@[simp] theorem cancel_matched (s : Exchange) (c : Cause) : (s.cancel c).matched = s.matched := by
  unfold cancel
  split_ifs <;> rfl

@[simp] theorem cancel_shutdown (s : Exchange) (c : Cause) :
    (s.cancel c).shutdown = s.shutdown := by
  unfold cancel
  split_ifs <;> rfl

@[simp] theorem cancel_clientGone (s : Exchange) (c : Cause) :
    (s.cancel c).clientGone = s.clientGone := by
  unfold cancel
  split_ifs <;> rfl

@[simp] theorem cancel_watching (s : Exchange) (c : Cause) :
    (s.cancel c).watching = s.watching := by
  unfold cancel
  split_ifs <;> rfl

@[simp] theorem cancel_phase (s : Exchange) (c : Cause) : (s.cancel c).phase = s.phase := by
  unfold cancel
  split_ifs <;> rfl

@[simp] theorem cancel_outcome (s : Exchange) (c : Cause) : (s.cancel c).outcome = s.outcome := by
  unfold cancel
  split_ifs <;> rfl

theorem cancel_derived (s : Exchange) (c : Cause) :
    (s.cancel c).derived = if s.matched then s.derived.or (some c) else s.derived := by
  unfold cancel
  split_ifs <;> rfl

end Exchange

/-! What a run keeps. -/

/-- How the causes came about, and what the outcome says of them. -/
structure Told (s : Exchange) : Prop where
  watching : s.watching = true → s.matched = true
  derived : s.derived.isSome → s.matched = true
  shutdown : s.derived = some .shutdown → s.shutdown = true
  canceled : s.derived = some .canceled → s.phase ≠ .returned → s.clientGone = true
  open_ : s.phase ≠ .returned → s.outcome = none
  closed : s.phase = .returned → s.matched = true → s.derived.isSome
  silent : s.outcome = some .silent → s.clientGone = true
  error : ∀ e, s.outcome = some (.error e) → (e.status = 503 ↔ s.derived = some .shutdown)

variable {matched : Bool} {s t : Exchange} {a : ExchangeAction}

theorem errorHandler_status {cause : Option Cause} {err : UpstreamError} {e : HttpError}
    (h : errorHandler cause err = some e) : e.status = 503 ↔ cause = some .shutdown := by
  unfold errorHandler at h
  split_ifs at h with hc
  · cases h
    simp [hc]
  · cases err <;> cases h <;> simp [hc]

theorem errorHandler_eq_none {cause : Option Cause} {err : UpstreamError} :
    errorHandler cause err = none ↔ err = .canceled ∧ cause ≠ some .shutdown := by
  unfold errorHandler
  split_ifs with hc
  · simp [hc]
  · cases err <;> simp [hc]

namespace Told

/-- The proxy sees the cause of the shutdown exactly where the derived context has it. -/
theorem cause_eq_shutdown (h : Told s) : s.cause = some .shutdown ↔ s.derived = some .shutdown := by
  unfold Exchange.cause
  split_ifs with hm hgone
  · rfl
  · simp only [Option.some.injEq, reduceCtorEq, false_iff]
    exact fun hd => hm (h.derived (by simp [hd]))
  · simp only [false_iff]
    exact fun hd => hm (h.derived (by simp [hd]))

/-- A cancel while the handler runs, by a client that left or at shutdown. -/
theorem cancel (h : Told s) {c : Cause} (hshutdown : c = .shutdown → s.shutdown = true)
    (hcanceled : c = .canceled → s.clientGone = true) : Told (s.cancel c) := by
  by_cases hm : s.matched = true
  swap
  · have hself : s.cancel c = s := by simp [Exchange.cancel, hm]
    exact hself.symm ▸ h
  cases hd : s.derived with
  | some d =>
    have hself : s.cancel c = s := by rw [Exchange.cancel, if_pos hm, hd, Option.some_or, ← hd]
    exact hself.symm ▸ h
  | none =>
    have hnew : (s.cancel c).derived = some c := by simp [Exchange.cancel_derived, hm, hd]
    have hopen : s.phase ≠ .returned := fun hr => by simpa [hd] using h.closed hr hm
    refine ⟨by simp [hm], by simp [hm], ?_, ?_, by simpa using h.open_, by simp [hnew],
      by simp [h.open_ hopen], by simp [h.open_ hopen]⟩
    · rw [hnew]
      exact fun hc => by simpa using hshutdown (Option.some.inj hc)
    · rw [hnew]
      exact fun hc _ => by simpa using hcanceled (Option.some.inj hc)

/-- The handler returns with an outcome that says what the cause is at this moment. -/
theorem finish (h : Told s) {o : Outcome}
    (hsilent : o = .silent → s.clientGone = true)
    (herror : ∀ e, o = .error e → (e.status = 503 ↔ s.cause = some .shutdown)) :
    Told (s.finish o) := by
  have hd : (s.finish o).derived = some .shutdown ↔ s.derived = some .shutdown := by
    simp only [Exchange.finish, Exchange.cancel_derived]
    split_ifs
    · cases s.derived <;> simp
    · rfl
  constructor
  · simpa [Exchange.finish] using h.watching
  · intro hsome
    by_contra hm
    simp only [Exchange.finish, Exchange.cancel_matched] at hm
    simp only [Exchange.finish, Exchange.cancel_derived, hm] at hsome
    exact hm (h.derived hsome)
  · intro hs
    simpa [Exchange.finish] using h.shutdown (hd.mp hs)
  · simp [Exchange.finish]
  · simp [Exchange.finish]
  · intro _ hm
    simp only [Exchange.finish, Exchange.cancel_matched] at hm
    simp [Exchange.finish, Exchange.cancel_derived, hm]
  · simpa [Exchange.finish] using hsilent
  · intro e he
    have he : o = .error e := by simpa [Exchange.finish] using he
    rw [hd, ← h.cause_eq_shutdown]
    exact herror e he

/-- Every event keeps the causes and the outcome in step. -/
theorem step (h : Told s) (hc : Transport s a) (ht : exchangeStep s a = some t) : Told t := by
  cases a with
  | shutdown =>
    cases ht
    exact ⟨h.watching, h.derived, fun _ => rfl, h.canceled, h.open_, h.closed, h.silent, h.error⟩
  | clientLeaves =>
    cases ht
    have hgone : Told { s with clientGone := true } :=
      ⟨h.watching, h.derived, h.shutdown, fun _ _ => rfl, h.open_, h.closed, fun _ => rfl, h.error⟩
    exact hgone.cancel nofun fun _ => rfl
  | wake onShutdown =>
    have hasleep : Told { s with watching := false } :=
      ⟨nofun, h.derived, h.shutdown, h.canceled, h.open_, h.closed, h.silent, h.error⟩
    cases onShutdown with
    | true =>
      simp only [exchangeStep, if_true] at ht
      split_ifs at ht with hw hd
      cases ht
      exact hasleep.cancel (fun _ => hd) nofun
    | false =>
      simp only [exchangeStep, Bool.false_eq_true, if_false] at ht
      split_ifs at ht
      cases ht
      exact hasleep
  | fails err =>
    simp only [exchangeStep] at ht
    split_ifs at ht with hp
    cases ht
    refine h.finish ?_ ?_
    · intro ho
      have hnone : errorHandler s.cause err = none := by
        cases he : errorHandler s.cause err with
        | none => rfl
        | some e => simp [he] at ho
      obtain ⟨rfl, hne⟩ := errorHandler_eq_none.mp hnone
      obtain ⟨c, hcause⟩ := Option.isSome_iff_exists.mp (hc rfl)
      have hcanceled : s.cause = some .canceled := by
        cases c with
        | canceled => exact hcause
        | shutdown => exact absurd hcause hne
      unfold Exchange.cause at hcanceled
      split_ifs at hcanceled with hm hgone
      · exact h.canceled hcanceled (by simp [not_not.mp hp])
      · exact hgone
    · intro e ho
      cases he : errorHandler s.cause err with
      | none => simp [he] at ho
      | some e' =>
        have heq : e' = e := by simpa [he] using ho
        exact heq ▸ errorHandler_status he
  | responds =>
    simp only [exchangeStep] at ht
    split_ifs at ht with hp
    cases ht
    have hopen : s.phase ≠ .returned := by simp [not_not.mp hp]
    exact ⟨h.watching, h.derived, h.shutdown, fun hd _ => h.canceled hd hopen,
      fun _ => h.open_ hopen, nofun, h.silent, h.error⟩
  | copied whole =>
    simp only [exchangeStep] at ht
    split_ifs at ht
    · cases ht
      exact h.finish nofun nofun
    · cases ht
      exact h.finish nofun nofun

end Told

theorem step_matched (ht : exchangeStep s a = some t) : t.matched = s.matched := by
  cases a with
  | shutdown => cases ht; rfl
  | clientLeaves => cases ht; simp
  | wake onShutdown =>
    simp only [exchangeStep] at ht
    split_ifs at ht <;> cases ht <;> simp
  | fails err | responds | copied whole =>
    simp only [exchangeStep] at ht
    split_ifs at ht <;> cases ht <;> simp [Exchange.finish]

theorem told_of_reach (hs : (exchange matched).Reach Transport s) : s.matched = matched ∧ Told s := by
  refine hs.invariant (I := fun s => s.matched = matched ∧ Told s) ?_ ?_
  · rintro s rfl
    exact ⟨rfl, id, nofun, nofun, nofun, fun _ => rfl, nofun, nofun, nofun⟩
  · rintro s a t ⟨hm, h⟩ hc ht
    refine ⟨?_, h.step hc ht⟩
    rw [← hm]
    exact step_matched ht

/-- Whatever the order in which the server shuts down, the client leaves, the goroutine wakes and
the upstream answers: nothing is answered only to a client that has left; the gateway says that it
is shutting down exactly where the context was cancelled for that, which it is only for a selected
request and after the shutdown began; and once the handler has returned its goroutine can end. -/
theorem told_of_shutdown (matched : Bool) (s : Exchange)
    (hs : (exchange matched).Reach Transport s) :
    (s.outcome = some .silent → s.clientGone = true) ∧
      (∀ e, s.outcome = some (.error e) → (e.status = 503 ↔ s.cause = some .shutdown)) ∧
      (s.cause = some .shutdown → matched = true ∧ s.shutdown = true) ∧
      (s.phase = .returned → s.watching = true → (exchangeStep s (.wake false)).isSome) := by
  obtain ⟨hm, h⟩ := told_of_reach hs
  refine ⟨h.silent, fun e he => ?_, fun hc => ?_, fun hr hw => ?_⟩
  · rw [h.cause_eq_shutdown]
    exact h.error e he
  · have hd := h.cause_eq_shutdown.mp hc
    exact ⟨hm ▸ h.derived (by simp [hd]), h.shutdown hd⟩
  · have hd := h.closed hr (h.watching hw)
    simp [exchangeStep, hw, hd]

/-- The shutdown overtakes a client that leaves before the transport has failed. -/
def overtaken : List ExchangeAction := [.shutdown, .wake true, .clientLeaves, .fails .canceled]

theorem told_of_shutdown_overtaken :
    ∃ s, (exchange true).exec { matched := true } overtaken = some s ∧
      s.outcome = some (.error ⟨503, "ServiceUnavailable", "server is shutting down"⟩) ∧
      s.cause = some .shutdown := by
  refine ⟨_, rfl, rfl, ?_⟩
  have h := told_of_shutdown true _ (@Machine.Reach.exec _ _ (exchange true) Transport _ _ overtaken (.init rfl) (by decide) rfl)
  exact (h.2.1 _ rfl).mp rfl

end KubeConsole.Gateway
