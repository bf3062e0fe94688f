import KubeConsole.Theory.Threads

/-!
The running part of an exec session (`internal/exec/session.go` from the
creation of `sessionCtx` on): the goroutines that may end it, the flag they claim
the teardown with, and the control frames they write to the browser.

A goroutine is its program point between two operations the others can observe:
an atomic read or write of a flag, taking or releasing `writeMu`, a write on the
connection, a cancellation. Calls that wait for the outside (a write, a ping, a
timer, the exec stream) return when an event says so, with any result.
-/
namespace KubeConsole.Exec
open KubeConsole.Theory

inductive FrameType where
  | ready | error | exit
  deriving DecidableEq, Repr

/-- `ControlFrame`, a backend to browser text frame. -/
structure ControlFrame where
  type : FrameType
  message : String := ""
  code : Option ℤ := none
  deriving DecidableEq, Repr

/-- The frames that tell the browser its terminal is over. -/
def ControlFrame.terminal (f : ControlFrame) : Bool := f.type != .ready

/-- What `StreamWithContext` returned: nil, a `CodeExitError` or another error. -/
inductive StreamErr where
  | nil
  | codeExit (code : ℤ)
  | other (message : String)
  deriving DecidableEq, Repr

/-- The frame `session` reports the outcome of the stream with. -/
def outcomeFrame : StreamErr → ControlFrame
  | .nil => { type := .exit }
  | .codeExit code => { type := .exit, code := some code }
  | .other message => { type := .error, message }

/-- The paths that claim the teardown. -/
inductive Claimant where
  | idle | overflow | ping | stream
  deriving DecidableEq, Repr

/-- What the goroutines of a session share. `wire` is what was written to the
browser, each frame with its path; `claimedBy` is the path that turned `ending`
on. No operation reads these two. -/
structure Session where
  ending : Bool := false
  quiet : Bool := false
  /-- `sessionCtx` is cancelled. -/
  cancelled : Bool := false
  /-- `writeMu` is held. -/
  locked : Bool := false
  clientGone : Bool := false
  /-- The ready frame was written and the exec stream started. -/
  streaming : Bool := false
  streamDone : Option StreamErr := none
  /-- `conn.Close` was called. -/
  closed : Bool := false
  wire : List (Claimant × ControlFrame) := []
  claimedBy : Option Claimant := none
  deriving DecidableEq, Repr

/-- `writeControl`: at `mu.Lock()`, in `conn.Write`, returned. -/
inductive Sending where
  | lock | write | returned
  deriving DecidableEq, Repr

/-- The three operations of the closure `end`. -/
inductive Ending where
  | store | silence | cancel | returned
  deriving DecidableEq, Repr

/-- `reportAndEnd`: waiting for its frame or the timer, then in `end`. -/
inductive Reporting where
  | waiting
  | ending (at_ : Ending)
  deriving DecidableEq, Repr

/-- A path that claims with a compare-and-swap and then reports: `idleFired` and
`overflow`. The frame goes out in a goroutine of its own. -/
inductive Report where
  | claim
  | lost
  | won (caller : Reporting) (frame : Sending)
  deriving DecidableEq, Repr

/-- `session` itself, from the ready frame to its deferred `cancel`. -/
inductive Main where
  | ready (at_ : Sending)
  /-- The first `select` of `awaitStream`. -/
  | await
  /-- Its second `select`, the browser being gone. -/
  | drain
  /-- `<-streamDone` after the drain timeout cancelled. -/
  | receive
  | claim (err : StreamErr)
  | report (err : StreamErr) (at_ : Sending)
  | close
  /-- At the deferred `cancel()`. -/
  | unwind
  | returned
  deriving DecidableEq, Repr

inductive Ping where
  | waiting
  | pinging
  /-- The ping failed; at the `select` on `clientGone`. -/
  | failed
  | ending (at_ : Ending)
  | returned
  deriving DecidableEq, Repr

inductive Goroutine where
  | session (pc : Main)
  /-- One firing of the idle timer. -/
  | idle (r : Report)
  /-- `readLoop`: what became of its overflow, and whether `clientGone` is closed. -/
  | readLoop (r : Option Report) (left : Bool)
  | pingLoop (pc : Ping)
  /-- The executor's stdout copier, which shares `writeMu`. -/
  | stdout (writing : Bool)
  | stream
  deriving DecidableEq, Repr

/-- What a goroutine does next, or how the call it waits in returns. -/
inductive SessionEvent where
  | run
  /-- `conn.Write` returns. -/
  | wrote (ok : Bool)
  /-- The same two for the frame goroutine of `reportAndEnd`. -/
  | frameRun
  | frameWrote (ok : Bool)
  | timeout
  | gone
  | connError
  | overflow
  | tick
  | pong (ok : Bool)
  | streamEnds (err : StreamErr)
  deriving DecidableEq, Repr

namespace Session

/-- `ending.CompareAndSwap(false, true)` by `who`, where it succeeds. -/
def compareAndSwap (s : Session) (who : Claimant) : Option Session :=
  if s.ending then none else some { s with ending := true, claimedBy := some who }

/-- `ending.Store(true)` by `who`. -/
def storeEnding (s : Session) (who : Claimant) : Session :=
  { s with ending := true, claimedBy := if s.ending then s.claimedBy else some who }

/-- One operation of `writeControl`. A write cannot succeed on a closed connection. -/
def send (s : Session) (who : Claimant) (f : ControlFrame) :
    Sending → Option Bool → Option (Session × Sending)
  | .lock, none => if s.locked then none else some ({ s with locked := true }, .write)
  | .write, some false => some ({ s with locked := false }, .returned)
  | .write, some true =>
    if s.closed then none else
      some ({ s with locked := false, wire := s.wire ++ [(who, f)] }, .returned)
  | _, _ => none

/-- One operation of `end`, called by `who`. -/
def end_ (s : Session) (who : Claimant) : Ending → Option (Session × Ending)
  | .store => some (s.storeEnding who, .silence)
  | .silence => some ({ s with quiet := true }, .cancel)
  | .cancel => some ({ s with cancelled := true }, .returned)
  | .returned => none

/-- `idleFired` and `overflow`, which differ in their path and message only. -/
def report (s : Session) (who : Claimant) (message : String) :
    Report → SessionEvent → Option (Session × Report)
  | .claim, .run =>
    match s.compareAndSwap who with
    | some s => some (s, .won .waiting .lock)
    | none => some (s, .lost)
  | .won caller frame, .frameRun =>
    (s.send who { type := .error, message } frame none).map fun r => (r.1, .won caller r.2)
  | .won caller frame, .frameWrote ok =>
    (s.send who { type := .error, message } frame (some ok)).map fun r => (r.1, .won caller r.2)
  | .won .waiting .returned, .run => some (s, .won (.ending .store) .returned)
  | .won .waiting frame, .timeout => some (s, .won (.ending .store) frame)
  | .won (.ending at_) frame, .run => (s.end_ who at_).map fun r => (r.1, .won (.ending r.2) frame)
  | _, _ => none

/-- The report is over for its caller: the claim was lost, or `end` has returned. -/
def reported : Report → Bool
  | .lost | .won (.ending .returned) _ => true
  | _ => false

/-- `session` from the ready frame on. -/
def main (s : Session) : Main → SessionEvent → Option (Session × Main)
  | .ready at_, .run => (s.send .stream { type := .ready } at_ none).map fun r => (r.1, .ready r.2)
  | .ready at_, .wrote true =>
    (s.send .stream { type := .ready } at_ (some true)).map fun r =>
      ({ r.1 with streaming := true }, .await)
  | .ready at_, .wrote false =>
    (s.send .stream { type := .ready } at_ (some false)).map fun r => (r.1, .close)
  | .await, .run => s.streamDone.map fun err => (s, .claim err)
  | .await, .gone => if s.clientGone then some ({ s with quiet := true }, .drain) else none
  | .drain, .run => s.streamDone.map fun err => (s, .claim err)
  | .drain, .timeout => some ({ s with cancelled := true }, .receive)
  | .receive, .run => s.streamDone.map fun err => (s, .claim err)
  | .claim err, .run =>
    match s.compareAndSwap .stream with
    | some s => some (s, .report err .lock)
    | none => some (s, .close)
  | .report err at_, .run =>
    (s.send .stream (outcomeFrame err) at_ none).map fun r => (r.1, .report err r.2)
  | .report err at_, .wrote ok =>
    (s.send .stream (outcomeFrame err) at_ (some ok)).map fun r => (r.1, .close)
  | .close, .run => some ({ s with closed := true }, .unwind)
  | .unwind, .run => some ({ s with cancelled := true }, .returned)
  | _, _ => none

/-- `pingLoop`, whose `cancel` argument is `end`. -/
def pingLoop (s : Session) : Ping → SessionEvent → Option (Session × Ping)
  | .waiting, .gone => if s.cancelled || s.clientGone then some (s, .returned) else none
  | .waiting, .tick => some (s, .pinging)
  | .pinging, .pong ok => some (s, if ok then .waiting else .failed)
  | .failed, .run => some (s, if s.clientGone then .returned else .ending .store)
  | .ending at_, .run => (s.end_ .ping at_).map fun r => (r.1, .ending r.2)
  | _, _ => none

/-- The reasons `idleFired` and `overflow` give the browser. -/
def idleMessage (idleTimeout : String) : String :=
  "exec session closed: idle timeout after " ++ idleTimeout

def overflowMessage : String :=
  "exec session closed: too much unread input buffered — the process in the container is not reading stdin"

/-- One operation of any goroutine of the session. -/
def op (idleTimeout : String) (s : Session) (g : Goroutine) (e : SessionEvent) :
    Option (Session × Goroutine) :=
  match g, e with
  | .session pc, e => (s.main pc e).map fun r => (r.1, .session r.2)
  | .idle r, e => (s.report .idle (idleMessage idleTimeout) r e).map fun r => (r.1, .idle r.2)
  | .readLoop none false, .connError => some ({ s with clientGone := true }, .readLoop none true)
  | .readLoop none false, .overflow => some (s, .readLoop (some .claim) false)
  | .readLoop (some r) false, .gone =>
    if reported r then some ({ s with clientGone := true }, .readLoop (some r) true) else none
  | .readLoop (some r) left, e =>
    (s.report .overflow overflowMessage r e).map fun r => (r.1, .readLoop (some r.2) left)
  | .pingLoop pc, e => (s.pingLoop pc e).map fun r => (r.1, .pingLoop r.2)
  | .stdout false, .run => if s.locked then none else some ({ s with locked := true }, .stdout true)
  | .stdout true, .wrote _ => some ({ s with locked := false }, .stdout false)
  | .stream, .streamEnds err =>
    if s.streaming && s.streamDone.isNone then some ({ s with streamDone := some err }, .stream)
    else none
  | _, _ => none

end Session

/-- The goroutines of a session. Each firing of the idle timer is one more: stdin
or stdout activity re-arms it, also after it has fired. -/
def teardown (idleTimeout : String) : Program Session Goroutine Unit SessionEvent where
  start _ := .idle .claim
  op := Session.op idleTimeout

/-- A session as it is about to send its ready frame, and every interleaving from there. -/
def session (idleTimeout : String) : Machine (Pool Session Goroutine) (PoolAction Unit SessionEvent) :=
  (teardown idleTimeout).pool
    ⟨{}, [.session (.ready .lock), .readLoop none false, .pingLoop .waiting, .stdout false, .stream]⟩

end KubeConsole.Exec
