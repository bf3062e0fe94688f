import KubeConsole.Web.Transports

/-!
The sockets of one use of `composables/useExecSession.ts`.

A call of `start` waits for its token and then opens a socket. A socket that was told to close
may still fire what it has buffered, until it has closed. A handler that calls `start` or `stop`
does so last, which is as if the call came after it.
-/
namespace KubeConsole.Web
open KubeConsole.Theory

structure ExecTarget where
  namespace_ : JStr
  pod : JStr
  container : JStr
  command : List JStr
  deriving DecidableEq, Repr

/-- The auth frame. -/
structure ExecAuth where
  token : JStr
  context : Option JStr
  target : ExecTarget
  deriving DecidableEq, Repr

/-- A message: bytes, or a text as its control frame. A text that does not parse, or is of
another type, is `other`. -/
inductive SocketMessage where
  | bytes (data : List UInt8)
  | ready
  | error (message : Option JStr)
  | exit (code : Option ℤ)
  | other
  deriving DecidableEq, Repr

/-- What the caller's handlers are called with. -/
inductive Handled where
  | output (data : List UInt8)
  | exit (code : Option ℤ)
  deriving DecidableEq, Repr

inductive SocketEvent where
  | open_
  | message (m : SocketMessage)
  | error
  | close
  deriving DecidableEq, Repr

/-- A socket and what was done to it. `start` and `createdAt` are a record: the call that opened
it, and how many calls had been made by then. -/
structure ExecSocket where
  auth : ExecAuth
  start : ℕ
  createdAt : ℕ
  attached : Bool := true
  told : Bool := false
  closed : Bool := false
  deriving DecidableEq, Repr

/-- Neither closed nor told to close. -/
def ExecSocket.Live (k : ExecSocket) : Prop := k.closed = false ∧ k.told = false

/-- A call of `start` that awaits its token, with its number for the record. -/
structure ExecStart where
  myGen : ℕ
  target : ExecTarget
  call : ℕ
  deriving DecidableEq, Repr

/-- The variables, the sockets and the calls in flight; what was sent and handled; and for the
record how many calls of `start` and `stop` there were, the last `start` and whether a `stop`
came after it. -/
structure ExecSockets extends ExecSession where
  sockets : List ExecSocket := []
  awaiting : List ExecStart := []
  sent : List (ℕ × ExecAuth) := []
  handled : List Handled := []
  calls : ℕ := 0
  lastStart : ℕ := 0
  stopped : Bool := false

inductive ExecAction where
  /-- `start`, with a credential provider or without, and `localAuth` as it is then. -/
  | start (target : ExecTarget) (provider localAuth : Bool)
  | stop
  /-- The token of a call is there; the context and `localAuth` are as they are now. -/
  | token (a : ExecStart) (token context : Option JStr) (localAuth : Bool)
  | reject (a : ExecStart)
  | socket (i : ℕ) (e : SocketEvent)
  deriving DecidableEq, Repr

namespace ExecSockets
variable (s : ExecSockets)

def withSession (e : ExecSession) : ExecSockets := { s with toExecSession := e }

/-- `stop`, up to the record: the handlers are taken off before the socket is closed. -/
def halt : ExecSockets :=
  { s with
    gen := s.gen + 1
    ws := none
    sockets := match s.ws with
      | some i => s.sockets.modify i fun k => { k with attached := false, told := true }
      | none => s.sockets
    status := s.status.onStop }

def stop : ExecSockets := { s.halt with calls := s.calls + 1, stopped := true }

/-- The rest of `start`, once its token is there. -/
def connect (a : ExecStart) (token context : Option JStr) (localAuth : Bool) : ExecSockets :=
  if a.myGen ≠ s.gen then s
  else if (token = none || token = some []) && !localAuth then
    { s with status := .error, errorMessage := some (js "Not authenticated.") }
  else
    { s with
      ws := some s.sockets.length
      sockets := s.sockets ++ [{
        auth := ⟨token.getD [], context.filter (· ≠ []), a.target⟩
        start := a.call
        createdAt := s.calls }] }

def start (target : ExecTarget) (provider localAuth : Bool) : ExecSockets :=
  let s := s.halt
  let s := { s with
    gen := s.gen + 1
    status := .connecting
    errorMessage := none
    calls := s.calls + 1
    lastStart := s.calls + 1
    stopped := false }
  let a : ExecStart := ⟨s.gen, target, s.calls⟩
  if provider then { s with awaiting := a :: s.awaiting } else s.connect a none none localAuth

def onMessage : SocketMessage → ExecSockets
  | .bytes data => { s with handled := s.handled ++ [.output data] }
  | .ready => { s with status := .ready }
  | .error message =>
    { s with status := .error, errorMessage := some (message.getD (js "exec failed")) }
  | .exit code => { s with status := .closed, handled := s.handled ++ [.exit code] }
  | .other => s

def onClose (i : ℕ) : ExecSockets :=
  { s with
    status := if s.status ≠ .error then .closed else s.status
    ws := if s.ws = some i then none else s.ws }

def onError : ExecSockets :=
  if s.status = .connecting then
    { s with status := .error, errorMessage := some (js "WebSocket connection failed.") }
  else s

/-- An event at socket `i`. `onopen` stays on a socket that `stop` has closed. -/
def onSocket (i : ℕ) (k : ExecSocket) : SocketEvent → ExecSockets
  | .open_ => { s with sent := s.sent ++ [(i, k.auth)] }
  | .message m => if k.attached then s.onMessage m else s
  | .error => if k.attached then s.onError else s
  | .close =>
    let s := { s with sockets := s.sockets.set i { k with closed := true } }
    if k.attached then s.onClose i else s

def step : ExecAction → Option ExecSockets
  | .start target provider localAuth => some (s.start target provider localAuth)
  | .stop => some s.stop
  | .token a token context localAuth =>
    if a ∈ s.awaiting then
      some ({ s with awaiting := s.awaiting.erase a }.connect a token context localAuth)
    else none
  | .reject a =>
    if a ∈ s.awaiting then some { s with awaiting := s.awaiting.erase a } else none
  | .socket i e =>
    match s.sockets[i]? with
    | none => none
    | some k => if k.closed then none else some (s.onSocket i k e)

end ExecSockets

/-- The composable from its `setup` on. -/
def execSockets : Machine ExecSockets ExecAction where
  init s := s = {}
  step := ExecSockets.step

/-! ## One socket -/

namespace ExecSockets

/-- A socket that is alive or has its handlers is the current one; the current one, and the call
that may open the next, is of the last `start`, and no `stop` came after it. -/
structure Sole (s : ExecSockets) : Prop where
  live : ∀ i k, s.sockets[i]? = some k → k.Live ∨ k.attached = true ∧ k.closed = false →
    s.ws = some i
  ws : ∀ i, s.ws = some i → s.stopped = false ∧ ∀ k, s.sockets[i]? = some k → k.start = s.lastStart
  awaiting : ∀ a ∈ s.awaiting, a.myGen ≤ s.gen ∧
    (a.myGen = s.gen → s.ws = none ∧ s.stopped = false ∧ a.call = s.calls ∧ a.call = s.lastStart)
  gens : (s.awaiting.map (·.myGen)).Nodup
  created : ∀ k ∈ s.sockets, k.createdAt = k.start

namespace Sole
variable {s t : ExecSockets}

theorem getElem?_halt (s : ExecSockets) (i : ℕ) : s.halt.sockets[i]? = s.sockets[i]?.map fun k =>
    if s.ws = some i then { k with attached := false, told := true } else k := by
  cases hws : s.ws with
  | none => simp [halt, hws]
  | some j => simp [halt, hws, List.getElem?_modify]

theorem live_halt (h : Sole s) {i : ℕ} {k : ExecSocket} (hk : s.halt.sockets[i]? = some k) :
    ¬ (k.Live ∨ k.attached = true ∧ k.closed = false) := by
  intro hlive
  rw [getElem?_halt] at hk
  obtain ⟨l, hl, rfl⟩ := Option.map_eq_some_iff.mp hk
  by_cases hws : s.ws = some i
  · rw [if_pos hws] at hlive
    rcases hlive with ⟨-, htold⟩ | ⟨hattached, -⟩
    · cases htold
    · cases hattached
  · rw [if_neg hws] at hlive
    exact hws (h.live i l hl hlive)

theorem created_halt (h : Sole s) : ∀ k ∈ s.halt.sockets, k.createdAt = k.start := by
  intro k hk
  obtain ⟨i, hi⟩ := List.getElem?_of_mem hk
  rw [getElem?_halt] at hi
  obtain ⟨l, hl, rfl⟩ := Option.map_eq_some_iff.mp hi
  have hcreated := h.created l (List.mem_of_getElem? hl)
  split_ifs
  · exact hcreated
  · exact hcreated

/-- After a `halt` nothing is current, and no call may open a socket. -/
theorem halted (h : Sole s) (calls lastStart : ℕ) (stopped : Bool) (k : ℕ) (status : ExecStatus)
    (errorMessage : Option JStr) :
    Sole { s.halt with gen := s.gen + 1 + k, calls, lastStart, stopped, status, errorMessage } where
  live i k hk hlive := absurd hlive (h.live_halt hk)
  ws i hi := by cases hi
  awaiting a ha := by
    have hle := (h.awaiting a ha).1
    exact ⟨by simp only; omega, fun heq => by simp only at heq; omega⟩
  gens := h.gens
  created := h.created_halt

theorem stop (h : Sole s) : Sole s.stop :=
  h.halted (s.calls + 1) s.lastStart true 0 s.status.onStop s.errorMessage

/-- The call of the last `start` opens its socket, if it is still the one. -/
theorem connect {a : ExecStart} (h : Sole s) (hgens : a.myGen ∉ s.awaiting.map (·.myGen))
    (ha : a.myGen = s.gen → s.ws = none ∧ s.stopped = false ∧ a.call = s.calls ∧
      a.call = s.lastStart) (token context : Option JStr) (localAuth : Bool) :
    Sole (s.connect a token context localAuth) := by
  unfold ExecSockets.connect
  split_ifs with hstale hauth
  · exact h
  · exact { h with }
  · have hgen := not_not.mp hstale
    obtain ⟨hws, hstopped, hcalls, hlast⟩ := ha hgen
    constructor
    · intro i k hk hlive
      rw [List.getElem?_append] at hk
      split_ifs at hk with hi
      · have hcur := h.live i k hk hlive
        rw [hws] at hcur
        cases hcur
      · obtain ⟨hlt, -⟩ := List.getElem?_eq_some_iff.mp hk
        rw [List.length_singleton] at hlt
        exact congrArg some (by omega)
    · intro i hi
      cases hi
      refine ⟨hstopped, fun k hk => ?_⟩
      rw [List.getElem?_concat_length] at hk
      cases hk
      exact hlast
    · intro b hb
      refine ⟨(h.awaiting b hb).1, fun heq => ?_⟩
      have hmem : b.myGen ∈ s.awaiting.map (·.myGen) := List.mem_map_of_mem hb
      rw [show b.myGen = a.myGen from heq.trans hgen.symm] at hmem
      exact absurd hmem hgens
    · exact h.gens
    · intro k hk
      rcases List.mem_append.mp hk with hk | hk
      · exact h.created k hk
      · cases List.mem_singleton.mp hk
        exact hcalls.symm

theorem start (h : Sole s) (target : ExecTarget) (provider localAuth : Bool) :
    Sole (s.start target provider localAuth) := by
  have hhalt := h.halted (s.calls + 1) (s.calls + 1) false 1 .connecting none
  have hfresh : s.gen + 2 ∉ s.awaiting.map (·.myGen) := by
    intro hmem
    obtain ⟨a, ha, hgen⟩ := List.mem_map.mp hmem
    have hle := (h.awaiting a ha).1
    omega
  unfold ExecSockets.start
  simp only
  split_ifs
  · refine { hhalt with awaiting := fun a ha => ?_, gens := List.nodup_cons.mpr ⟨hfresh, h.gens⟩ }
    rcases List.mem_cons.mp ha with rfl | ha
    · exact ⟨le_rfl, fun _ => ⟨rfl, rfl, rfl, rfl⟩⟩
    · exact hhalt.awaiting a ha
  · exact hhalt.connect hfresh (fun _ => ⟨rfl, rfl, rfl, rfl⟩) none none localAuth

theorem onMessage (h : Sole s) (m : SocketMessage) : Sole (s.onMessage m) := by
  cases m with
  | bytes data => exact { h with }
  | ready => exact { h with }
  | error message => exact { h with }
  | exit code => exact { h with }
  | other => exact h

theorem onError (h : Sole s) : Sole s.onError := by
  unfold ExecSockets.onError
  split_ifs
  · exact { h with }
  · exact h

/-- A socket closes; the current one may be given up with it. -/
theorem close {i : ℕ} {k : ExecSocket} (h : Sole s) (hk : s.sockets[i]? = some k)
    {ws : Option ℕ} (status : ExecStatus) (hws : ∀ j, ws = some j → s.ws = some j)
    (hothers : ∀ j, j ≠ i → s.ws = some j → ws = some j) :
    Sole { s with sockets := s.sockets.set i { k with closed := true }, ws, status } := by
  have hold {j : ℕ} {l : ExecSocket} (hl : (s.sockets.set i { k with closed := true })[j]? = some l) :
      j = i ∧ l = { k with closed := true } ∨ j ≠ i ∧ s.sockets[j]? = some l := by
    by_cases hij : j = i
    · subst hij
      rw [List.getElem?_set_self (List.getElem?_eq_some_iff.mp hk).1] at hl
      exact .inl ⟨rfl, (Option.some.inj hl).symm⟩
    · rw [List.getElem?_set_ne (Ne.symm hij)] at hl
      exact .inr ⟨hij, hl⟩
  constructor
  · intro j l hl hlive
    rcases hold hl with ⟨-, rfl⟩ | ⟨hij, hl⟩
    · rcases hlive with ⟨hclosed, -⟩ | ⟨-, hclosed⟩
      · cases hclosed
      · cases hclosed
    · exact hothers j hij (h.live j l hl hlive)
  · intro j hj
    obtain ⟨hstopped, hstart⟩ := h.ws j (hws j hj)
    refine ⟨hstopped, fun l hl => ?_⟩
    rcases hold hl with ⟨rfl, rfl⟩ | ⟨-, hl⟩
    · exact hstart k hk
    · exact hstart l hl
  · intro a ha
    refine ⟨(h.awaiting a ha).1, fun hgen => ?_⟩
    obtain ⟨hnone, hrest⟩ := (h.awaiting a ha).2 hgen
    refine ⟨Option.eq_none_iff_forall_not_mem.mpr fun j hj => ?_, hrest⟩
    have hcur := hws j hj
    rw [hnone] at hcur
    cases hcur
  · exact h.gens
  · intro l hl
    rcases List.mem_or_eq_of_mem_set hl with hl | rfl
    · exact h.created l hl
    · exact h.created k (List.mem_of_getElem? hk)

theorem onSocket {i : ℕ} {k : ExecSocket} (h : Sole s) (hk : s.sockets[i]? = some k)
    (e : SocketEvent) : Sole (s.onSocket i k e) := by
  cases e with
  | open_ => exact { h with }
  | message m =>
    unfold ExecSockets.onSocket
    split_ifs
    · exact h.onMessage m
    · exact h
  | error =>
    unfold ExecSockets.onSocket
    split_ifs
    · exact h.onError
    · exact h
  | close =>
    unfold ExecSockets.onSocket
    simp only
    split_ifs
    · unfold onClose
      refine h.close hk _ (fun j hj => ?_) (fun j hj hws => ?_)
      · simp only at hj
        split_ifs at hj
        exact hj
      · simp only
        rw [if_neg, hws]
        rw [hws, Option.some_inj]
        exact hj
    · exact h.close hk s.status (fun _ hj => hj) (fun _ _ hws => hws)

theorem step {a : ExecAction} (h : Sole s) (ht : s.step a = some t) : Sole t := by
  cases a with
  | start target provider localAuth => cases ht; exact h.start target provider localAuth
  | stop => cases ht; exact h.stop
  | token a token context localAuth =>
    simp only [ExecSockets.step, Option.ite_none_right_eq_some, Option.some.injEq] at ht
    obtain ⟨ha, rfl⟩ := ht
    have hperm := (List.perm_cons_erase ha).map (·.myGen)
    have hnodup := hperm.nodup_iff.mp h.gens
    rw [List.map_cons, List.nodup_cons] at hnodup
    have herased : Sole { s with awaiting := s.awaiting.erase a } := { h with
      awaiting := fun b hb => h.awaiting b (List.mem_of_mem_erase hb)
      gens := hnodup.2 }
    exact herased.connect hnodup.1 (h.awaiting a ha).2 token context localAuth
  | reject a =>
    simp only [ExecSockets.step, Option.ite_none_right_eq_some, Option.some.injEq] at ht
    obtain ⟨-, rfl⟩ := ht
    exact { h with
      awaiting := fun b hb => h.awaiting b (List.mem_of_mem_erase hb)
      gens := h.gens.sublist (List.erase_sublist.map _) }
  | socket i e =>
    simp only [ExecSockets.step] at ht
    split at ht
    next => cases ht
    next k hk =>
      split_ifs at ht
      cases ht
      exact h.onSocket hk e

/-- A socket without its handlers leaves the status alone and calls nobody. -/
theorem onSocket_detached (s : ExecSockets) (i : ℕ) {k : ExecSocket} (hk : k.attached = false)
    (e : SocketEvent) : (s.onSocket i k e).status = s.status ∧
      (s.onSocket i k e).errorMessage = s.errorMessage ∧ (s.onSocket i k e).handled = s.handled := by
  cases e with
  | open_ => exact ⟨rfl, rfl, rfl⟩
  | message m => simp [ExecSockets.onSocket, hk]
  | error => simp [ExecSockets.onSocket, hk]
  | close => simp [ExecSockets.onSocket, hk]

theorem handled_connect (s : ExecSockets) (a : ExecStart) (token context : Option JStr)
    (localAuth : Bool) : (s.connect a token context localAuth).handled = s.handled := by
  unfold ExecSockets.connect
  split_ifs
  · rfl
  · rfl
  · rfl

/-- Only sockets call the handlers. -/
theorem handled_step {a : ExecAction} (ht : s.step a = some t) (ha : ∀ i e, a ≠ .socket i e) :
    t.handled = s.handled := by
  cases a with
  | start target provider localAuth =>
    cases ht
    unfold ExecSockets.start
    simp only
    split_ifs
    · rfl
    · exact handled_connect _ _ _ _ _
  | stop => cases ht; rfl
  | token a token context localAuth =>
    simp only [ExecSockets.step, Option.ite_none_right_eq_some, Option.some.injEq] at ht
    obtain ⟨-, rfl⟩ := ht
    exact handled_connect _ _ _ _ _
  | reject a =>
    simp only [ExecSockets.step, Option.ite_none_right_eq_some, Option.some.injEq] at ht
    obtain ⟨-, rfl⟩ := ht
    rfl
  | socket i e => exact absurd rfl (ha i e)

end Sole
end ExecSockets

variable {s : ExecSockets}

theorem sole_reach (hs : execSockets.Reachable s) : s.Sole := by
  refine hs.invariant ?_ fun s a t h _ ht => h.step ht
  rintro s rfl
  constructor
  · intro i k hk
    cases hk
  · intro i hi
    cases hi
  · intro a ha
    cases ha
  · exact List.nodup_nil
  · intro k hk
    cases hk

/-- In every run: at most one socket is alive; each was opened by the call that was the last
one then; after a `stop` none is alive; and only the socket of the last `start` changes the
status or calls a handler. -/
theorem one_socket (hs : execSockets.Reachable s) :
    (∀ (i j : ℕ) (k l : ExecSocket), s.sockets[i]? = some k → s.sockets[j]? = some l →
      k.Live → l.Live → i = j) ∧
    (∀ k ∈ s.sockets, k.createdAt = k.start) ∧
    (s.stopped = true → ∀ k ∈ s.sockets, k.closed = true ∨ k.told = true) ∧
    (∀ i e t, execSockets.step s (.socket i e) = some t →
      t.status = s.status ∧ t.errorMessage = s.errorMessage ∧ t.handled = s.handled ∨
        ∃ k, s.sockets[i]? = some k ∧ k.start = s.lastStart ∧ s.stopped = false) ∧
    ∀ a t, execSockets.step s a = some t → (∀ i e, a ≠ .socket i e) → t.handled = s.handled := by
  have h := sole_reach hs
  refine ⟨fun i j k l hk hl hki hlj => ?_, h.created, fun hstopped k hk => ?_,
    fun i e t ht => ?_, fun a t ht ha => ExecSockets.Sole.handled_step ht ha⟩
  · have hi := h.live i k hk (.inl hki)
    rw [h.live j l hl (.inl hlj)] at hi
    exact (Option.some.inj hi).symm
  · by_contra hlive
    rw [not_or, Bool.not_eq_true, Bool.not_eq_true] at hlive
    obtain ⟨i, hi⟩ := List.getElem?_of_mem hk
    have hws := h.live i k hi (.inl hlive)
    rw [(h.ws i hws).1] at hstopped
    cases hstopped
  · simp only [execSockets, ExecSockets.step] at ht
    split at ht
    next => cases ht
    next k hk =>
      split_ifs at ht with hclosed
      cases ht
      cases hattached : k.attached with
      | false => exact .inl (ExecSockets.Sole.onSocket_detached s i hattached e)
      | true =>
        have hws := h.live i k hk (.inr ⟨hattached, by simpa using hclosed⟩)
        obtain ⟨hstopped, hstart⟩ := h.ws i hws
        exact .inr ⟨k, hk, hstart k hk, hstopped⟩

/-- A `start` overtaken at its token by another, whose socket a `stop` closes while it still has
output. -/
def overtakenStart : List ExecAction :=
  let shell : ExecTarget := ⟨js "ns", js "pod", js "c", [js "sh"]⟩
  [.start shell true false, .start shell true false,
    .token ⟨4, shell, 2⟩ (some (js "t")) none false,
    .token ⟨2, shell, 1⟩ (some (js "t")) none false, .socket 0 .open_,
    .socket 0 (.message (.bytes [7])), .stop, .socket 0 (.message (.bytes [8]))]

theorem overtakenStart_run : (execSockets.exec {} overtakenStart).isSome := by decide +kernel

def overtaken : ExecSockets := (execSockets.exec {} overtakenStart).get overtakenStart_run

theorem one_socket_overtaken :
    overtaken.sockets.length = 1 ∧ overtaken.handled = [.output [7]] ∧
      ∀ k ∈ overtaken.sockets, k.closed = true ∨ k.told = true := by
  have hinit : execSockets.Reachable {} := .init rfl
  have hs := hinit.exec overtakenStart (Option.some_get overtakenStart_run).symm
  have hstopped : overtaken.stopped = true := by decide +kernel
  exact ⟨by decide +kernel, by decide +kernel, (one_socket hs).2.2.1 hstopped⟩

end KubeConsole.Web
