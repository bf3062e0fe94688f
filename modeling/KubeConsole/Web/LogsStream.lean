import KubeConsole.Theory.Tail
import KubeConsole.Theory.Threads
import KubeConsole.Web.Js

/-!
The log viewer's stream (`composables/useLogsStream.ts`): every call of `start()` is a
thread that runs up to its next `await`, and the page calls `stop()`, fires the flush
timer and lets time pass in between.
-/
namespace KubeConsole.Web
open KubeConsole.Theory

/-- `MAX_LINES`; no proof needs its value, only that there is room for a line. -/
@[irreducible] def maxLines : ℕ := 200000

theorem maxLines_pos : 0 < maxLines := by
  unfold maxLines
  omega

def retryFirstMs : ℕ := 1000
def retryMaxMs : ℕ := 15000
def retryResetMs : ℕ := 10000

/-- What one connection has delivered: its text so far, and whether it ended cleanly. -/
structure Connection where
  text : JStr := []
  clean : Bool := false
  deriving DecidableEq, Repr

/-- Its lines: the terminated ones, and the last one too once the text is over. -/
def Connection.lines (c : Connection) : List JStr :=
  complete c.text ++ if c.clean && rest c.text ≠ [] then [rest c.text] else []

/-- The lines a stream has received over its connections, the newest of which is first. -/
def received : List Connection → List JStr
  | [] => []
  | c :: cs => received cs ++ c.lines

/-- What a connection asks for: the original request, or the window of a reconnect,
measured at some time. -/
inductive Target where
  | initial
  | resumed (sinceSeconds : Option ℕ) (measuredAt : ℕ)
  deriving DecidableEq, Repr

/-- A request as it was issued. -/
structure LogRequest where
  target : Target
  issuedAt : ℕ
  lastLineAt : Option ℕ
  deriving DecidableEq, Repr

/-- The state of the composable, and from `current` on a record of its run that no
operation reads: the generation of the stream that was started last (`none` once it is
stopped), what the connections of each generation delivered whether or not anyone wanted
it, every line that was put into the visible buffer, every request. -/
structure Stream where
  lines : List JStr := []
  linesVersion : ℕ := 0
  running : Bool := false
  error : Option JStr := none
  reconnecting : Option JStr := none
  truncated : Bool := false
  dropped : ℕ := 0
  /-- The number of the request that the controller aborts. -/
  controller : Option ℕ := none
  aborted : List ℕ := []
  generation : ℕ := 0
  pending : List JStr := []
  /-- The generation the armed flush timer has captured. -/
  timer : Option ℕ := none
  lastLineAt : Option ℕ := none
  /-- The generation of the `start()` that waits for its next attempt. -/
  cancelRetry : Option ℕ := none
  now : ℕ := 0
  current : Option ℕ := none
  delivered : ℕ → List Connection := fun _ => []
  shown : List JStr := []
  requests : List LogRequest := []

/-- The local variables of a `start()` loop. -/
structure Loop where
  gen : ℕ
  follow : Bool
  delay : ℕ
  attemptStart : ℕ
  deriving DecidableEq, Repr

inductive Attempt where
  | ended | aborted
  | failure (e : Thrown)
  deriving DecidableEq, Repr

/-- The page, or a call of `start()` at one of its awaits. -/
inductive LogTask where
  | page
  /-- About to run; `follow` says that `opts.resume` is given. -/
  | called (follow : Bool)
  | fetching (l : Loop) (ctrl : ℕ)
  | reading (l : Loop) (ctrl : ℕ) (buffer : JStr)
  /-- `runOnce` has returned. -/
  | settled (l : Loop) (a : Attempt)
  | waiting (l : Loop) (until_ : ℕ) (sinceSeconds : Option ℕ) (measuredAt : ℕ)
  | returned
  deriving DecidableEq, Repr

inductive LogEvent where
  | stop
  | timer
  | clock (ms : ℕ)
  | run
  /-- `apiFetch` resolves, with or without a body. -/
  | response (body : Bool)
  | chunk (text : JStr)
  | done
  | throws (e : Thrown)
  /-- The loop goes on after `runOnce`; `opts.resume` gives a URL or null. -/
  | settle (resumes : Bool)
  deriving DecidableEq, Repr

namespace Stream

/-- `trim`: the buffer after it, `truncated` being set where it removes something. -/
def trim (buffer : List JStr) : List JStr := buffer.drop (buffer.length - maxLines)

def flush (s : Stream) : Stream :=
  if s.pending = [] then { s with timer := none }
  else
    let buffer := s.lines ++ s.pending
    { s with
      timer := none
      pending := []
      lines := trim buffer
      truncated := s.truncated || maxLines < buffer.length
      dropped := s.dropped + (buffer.length - (trim buffer).length)
      linesVersion := s.linesVersion + 1
      shown := s.shown ++ s.pending }

def append (s : Stream) (newLines : List JStr) : Stream :=
  if newLines = [] then s
  else
    let staged := s.pending ++ newLines
    { s with
      lastLineAt := some s.now
      pending := trim staged
      truncated := s.truncated || maxLines < staged.length
      timer := s.timer.or (some s.generation) }

def stop (s : Stream) : Stream :=
  { s with
    generation := s.generation + 1
    pending := []
    timer := none
    cancelRetry := none
    aborted := s.controller.toList ++ s.aborted
    controller := none
    running := false
    reconnecting := none
    current := none }

/-- `start` from `stop()` to the loop, `reset()` included. -/
def begin_ (s : Stream) : Stream :=
  { s.stop with
    lines := []
    dropped := 0
    linesVersion := s.linesVersion + 1
    error := none
    truncated := false
    lastLineAt := none
    running := true
    current := some (s.generation + 1)
    shown := [] }

/-- The head of the loop of `start` and `runOnce` up to its `apiFetch`. -/
def connect (s : Stream) (l : Loop) (target : Target) : Stream × LogTask :=
  ({ s with
      controller := some s.requests.length
      requests := s.requests ++ [⟨target, s.now, s.lastLineAt⟩] },
    .fetching { l with attemptStart := s.now } s.requests.length)

/-- The `finally` of `start`. -/
def finish (s : Stream) (l : Loop) : Stream × LogTask :=
  (if l.gen = s.generation then { s.flush with running := false, reconnecting := none } else s,
    .returned)

/-- The `catch` of `runOnce`. -/
def caught (s : Stream) (l : Loop) (ctrl : ℕ) (e : Thrown) : Stream × LogTask :=
  (s, .settled l (if ctrl ∈ s.aborted ∨ l.gen ≠ s.generation then .aborted else .failure e))

/-- `sinceLastLine`. -/
def sinceLastLine (s : Stream) : Option ℕ :=
  s.lastLineAt.map fun t => (s.now - t + 999) / 1000 + 1

/-- What the connections of a generation have delivered, updated. -/
def record (s : Stream) (gen : ℕ) (f : List Connection → List Connection) : Stream :=
  { s with delivered := Function.update s.delivered gen (f (s.delivered gen)) }

end Stream

/-- `isFatal`. -/
def isFatal : Thrown → Bool
  | .apiError status _ => 400 ≤ status && status < 500
  | .other => false

/-- The message of a failure of the stream. -/
def failureMessage : Thrown → JStr := messageFromError (js "Log stream failed.")

/-- What the loop does with a failed attempt. `resumes` says that `opts.resume`
returned a URL for the window it was given. -/
def Stream.retry (s : Stream) (l : Loop) (e : Thrown) (resumes : Bool) : Stream × LogTask :=
  if isFatal e || !l.follow || !resumes then
    { s with error := some (failureMessage e) }.finish l
  else
    let since := s.sinceLastLine
    let delay := if retryResetMs ≤ s.now - l.attemptStart then 0 else l.delay
    ({ s.flush with reconnecting := some (failureMessage e), cancelRetry := some l.gen },
      .waiting { l with delay } (s.now + delay) since s.now)

/-- One operation of the page or of a call of `start()`. -/
def Stream.op (s : Stream) : LogTask → LogEvent → Option (Stream × LogTask)
  | .page, .stop => some (s.stop, .page)
  | .page, .timer => s.timer.map fun gen =>
    (if gen = s.generation then { s with timer := none }.flush else { s with timer := none }, .page)
  | .page, .clock ms => some ({ s with now := s.now + ms }, .page)
  | .called follow, .run =>
    some (s.begin_.connect ⟨s.begin_.generation, follow, 0, s.now⟩ .initial)
  | .fetching l ctrl, .response body =>
    let s := s.record l.gen ({} :: ·)
    if l.gen ≠ s.generation then some (s, .settled l .aborted)
    else if body then some ({ s with reconnecting := none }, .reading l ctrl [])
    else
      some ({ s with reconnecting := none, error := some (js "Empty log stream.") },
        .settled l .ended)
  | .fetching l ctrl, .throws e => some (s.caught l ctrl e)
  | .reading l ctrl buffer, .chunk text =>
    let s := s.record l.gen fun cs => cs.modifyHead fun c => { c with text := c.text ++ text }
    if l.gen ≠ s.generation then some (s, .settled l .aborted)
    else some (s.append (complete (buffer ++ text)), .reading l ctrl (rest (buffer ++ text)))
  | .reading l _ buffer, .done =>
    let s := s.record l.gen fun cs => cs.modifyHead fun c => { c with clean := true }
    if l.gen ≠ s.generation then some (s, .settled l .aborted)
    else some (if buffer ≠ [] then s.append [buffer] else s, .settled l .ended)
  | .reading l ctrl _, .throws e => some (s.caught l ctrl e)
  | .settled l a, .settle resumes =>
    if l.gen ≠ s.generation then some (s.finish l)
    else match a with
      | .ended | .aborted => some (s.finish l)
      | .failure e => some (s.retry l e resumes)
  | .waiting l until_ since measuredAt, .run =>
    if until_ ≤ s.now || s.cancelRetry ≠ some l.gen then
      let s := { s with cancelRetry := if s.cancelRetry = some l.gen then none else s.cancelRetry }
      if l.gen ≠ s.generation then some (s.finish l)
      else
        let delay := if l.delay = 0 then retryFirstMs else min (l.delay * 2) retryMaxMs
        some (s.connect { l with delay } (.resumed since measuredAt))
    else none
  | _, _ => none

/-- The composable: `start()` may be called any number of times. -/
def useLogsStream : Program Stream LogTask Bool LogEvent where
  start := .called
  op := Stream.op

/-- A mounted log viewer, and every interleaving from there. -/
def logsStream : Machine (Pool Stream LogTask) (PoolAction Bool LogEvent) :=
  useLogsStream.pool ⟨{}, [.page]⟩

end KubeConsole.Web
