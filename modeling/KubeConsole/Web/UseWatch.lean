import KubeConsole.Theory.Threads
import KubeConsole.Web.Js

/-!
The watch over the gateway (`composables/useWatch.ts`): the loop of `start()`, its attempts,
and the reading of their responses line by line.

Between two awaits a loop runs without interruption. What the composable is given (the URL,
what becomes of an event, the reading of a line) is a parameter, and so is the state of the
page that these work on.
-/
namespace KubeConsole.Web
open KubeConsole.Theory

def initialBackoffMs : ℕ := 1000
def maxBackoffMs : ℕ := 30000

/-- What `JSON.parse` makes of a line: nothing, an ERROR frame with the code of its object,
or another event. -/
inductive WatchLine (ε : Type*) where
  | invalid
  | error (code : Option ℕ)
  | event (e : ε)
  deriving DecidableEq, Repr

/-- `UseWatchOptions` without `onStale`, which is left to whoever runs the loop. -/
structure UseWatchOptions (ω υ ε : Type*) where
  buildUrl : ω → Option υ
  onEvent : ω → ε → ω
  parse : JStr → WatchLine ε

inductive WatchOutcome where
  | stale | retry | aborted
  deriving DecidableEq, Repr

/-- The variables of the composable; an attempt is the number of its `AbortController`. From
`requests` on it is a record that no operation reads: the requests that went out, the text
that was read of each attempt's response, and the events handed to `onEvent`. -/
structure UseWatch (υ ε : Type*) where
  controller : Option ℕ := none
  stopped : Bool := true
  backoffMs : ℕ := initialBackoffMs
  generation : ℕ := 0
  attempts : ℕ := 0
  aborted : List ℕ := []
  requests : List (ℕ × υ) := []
  texts : ℕ → JStr := fun _ => []
  delivered : List (ℕ × ε) := []

/-- Where a loop awaits. -/
inductive WatchPc (υ : Type*) where
  /-- In `apiFetch`, before the request. -/
  | authorizing (attempt : ℕ) (url : υ)
  | fetching (attempt : ℕ)
  | reading (attempt : ℕ) (buffer : JStr)
  /-- `runOnce` has returned. -/
  | settled (attempt : ℕ) (outcome : WatchOutcome)
  | backoff (ms : ℕ)
  deriving DecidableEq, Repr

/-- `loop(myGeneration)`. -/
structure WatchLoop (υ : Type*) where
  gen : ℕ
  pc : WatchPc υ
  deriving DecidableEq, Repr

/-- How an await ends. -/
inductive WatchInput where
  | run
  | response (body : Bool)
  /-- `apiFetch` throws, with a status if it has one. -/
  | failed (status : Option ℕ)
  | chunk (text : JStr)
  | done
  | readError
  deriving DecidableEq, Repr

/-- What has become of a loop: it goes on, it has returned, or it has returned after
`onStale`. -/
inductive WatchAfter (υ : Type*) where
  | loop (l : WatchLoop υ)
  | ended
  | stale
  deriving DecidableEq, Repr

namespace UseWatch
variable {ω υ ε : Type*} (opts : UseWatchOptions ω υ ε)

/-- The lines of a chunk, until an ERROR frame returns from `runOnce`. -/
def feed (attempt : ℕ) : List JStr → UseWatch υ ε → ω → UseWatch υ ε × ω × Option WatchOutcome
  | [], w, o => (w, o, none)
  | line :: lines, w, o =>
    if trim line = [] then feed attempt lines w o
    else match opts.parse (trim line) with
      | .invalid => feed attempt lines w o
      | .error code => (w, o, some (if code = some 410 then .stale else .retry))
      | .event e =>
        feed attempt lines { w with
          backoffMs := initialBackoffMs
          delivered := w.delivered ++ [(attempt, e)] } (opts.onEvent o e)

/-- The body of the `while` up to its first await. -/
def attempt (w : UseWatch υ ε) (o : ω) (gen : ℕ) : UseWatch υ ε × WatchLoop υ :=
  ({ w with controller := some w.attempts, attempts := w.attempts + 1 },
    ⟨gen, match opts.buildUrl o with
      | some url => .authorizing w.attempts url
      | none => .settled w.attempts .aborted⟩)

/-- `abort` of an attempt. -/
def abort (w : UseWatch υ ε) (attempt : ℕ) : UseWatch υ ε :=
  { w with aborted := attempt :: w.aborted }

/-- The condition of the `while`. -/
def current (w : UseWatch υ ε) (gen : ℕ) : Bool := !w.stopped && gen = w.generation

def stop (w : UseWatch υ ε) : UseWatch υ ε :=
  { w with
    stopped := true
    generation := w.generation + 1
    aborted := w.controller.toList ++ w.aborted
    controller := none }

def start (w : UseWatch υ ε) (o : ω) : UseWatch υ ε × WatchLoop υ :=
  let w := w.stop
  let w := { w with stopped := false, backoffMs := initialBackoffMs, generation := w.generation + 1 }
  w.attempt opts o w.generation

/-- The outcome of an attempt that has failed, or been read to the end. -/
def outcomeOf (w : UseWatch υ ε) (attempt : ℕ) (status : Option ℕ) : WatchOutcome :=
  if attempt ∈ w.aborted then .aborted
  else if status = some 410 then .stale
  else if status = some 401 then .aborted
  else .retry

/-- One step of a loop. -/
def loopStep (w : UseWatch υ ε) (o : ω) (l : WatchLoop υ) (input : WatchInput) :
    Option (UseWatch υ ε × ω × WatchAfter υ) :=
  match l.pc, input with
  | .authorizing n url, .run =>
    if n ∈ w.aborted then some (w, o, .loop { l with pc := .settled n .aborted })
    else some ({ w with requests := w.requests ++ [(n, url)] }, o, .loop { l with pc := .fetching n })
  | .authorizing n _, .failed status | .fetching n, .failed status =>
    some (w, o, .loop { l with pc := .settled n (w.outcomeOf n status) })
  | .fetching n, .response body =>
    some (w, o, .loop { l with pc := if body then .reading n [] else .settled n .retry })
  | .reading n buffer, .chunk text =>
    if n ∈ w.aborted then some (w, o, .loop { l with pc := .settled n .aborted })
    else
      let w := { w with texts := Function.update w.texts n (w.texts n ++ text) }
      let (w, o, outcome) := feed opts n (complete (buffer ++ text)) w o
      some (w, o, .loop { l with
        pc := match outcome with
          | none => .reading n (rest (buffer ++ text))
          | some outcome => .settled n outcome })
  | .reading n _, .done | .reading n _, .readError =>
    some (w, o, .loop { l with pc := .settled n (w.outcomeOf n none) })
  | .settled n outcome, .run =>
    let w := w.abort n
    if !w.current l.gen then some (w, o, .ended)
    else match outcome with
      | .aborted => some (w, o, .ended)
      | .stale => some ({ w with stopped := true }, o, .stale)
      | .retry => some (w, o, .loop { l with pc := .backoff w.backoffMs })
  | .backoff _, .run =>
    let w := { w with backoffMs := min (w.backoffMs * 2) maxBackoffMs }
    if w.current l.gen then
      let (w, l) := w.attempt opts o l.gen
      some (w, o, .loop l)
    else some (w, o, .ended)
  | _, _ => none

end UseWatch

/-! ## The composable by itself -/

/-- The page, a call of `start()`, or its loop. -/
inductive WatchThread (υ : Type*) where
  | page
  | called
  | running (l : WatchLoop υ)
  | returned
  deriving DecidableEq, Repr

inductive WatchEventIn (ω : Type*) where
  | stop
  /-- The state that the options work on changes. -/
  | owner (o : ω)
  | input (i : WatchInput)

/-- One operation. What the page does in `onStale` is up to it: it may call `start` or
`stop` next. -/
def UseWatch.op {ω υ ε : Type*} (opts : UseWatchOptions ω υ ε) (s : UseWatch υ ε × ω) :
    WatchThread υ → WatchEventIn ω → Option ((UseWatch υ ε × ω) × WatchThread υ)
  | .page, .stop => some ((s.1.stop, s.2), .page)
  | .page, .owner o => some ((s.1, o), .page)
  | .called, .input .run =>
    let (w, l) := s.1.start opts s.2
    some ((w, s.2), .running l)
  | .running l, .input i =>
    (UseWatch.loopStep opts s.1 s.2 l i).map fun r => ((r.1, r.2.1), match r.2.2 with
      | .loop l => .running l
      | .ended | .stale => .returned)
  | _, _ => none

/-- Any number of calls of `start()`, interleaved with `stop()` and what their loops await. -/
def useWatch {ω υ ε : Type*} (opts : UseWatchOptions ω υ ε) :
    Program (UseWatch υ ε × ω) (WatchThread υ) Unit (WatchEventIn ω) where
  start _ := .called
  op := UseWatch.op opts

/-- A mounted page in any state. -/
def watching {ω υ ε : Type*} (opts : UseWatchOptions ω υ ε) (o : ω) :
    Machine (Pool (UseWatch υ ε × ω) (WatchThread υ)) (PoolAction Unit (WatchEventIn ω)) :=
  (useWatch opts).pool ⟨({}, o), [.page]⟩

end KubeConsole.Web
