import KubeConsole.Theory.Transition

/-!
The way of the browser's input to the command (`internal/exec/streams.go`): `readLoop`
stages binary frames in a `stdinQueue`, from which `stdinPump` writes them into the pipe
the executor reads.

A step is what one goroutine does while it holds the queue's mutex, or between two
operations that the other one can observe. A write on the pipe lasts until the executor has
read it whole, or closed its end.
-/
namespace KubeConsole.Exec
open KubeConsole.Theory

abbrev Bytes := List UInt8

def stdinFrameOverheadBytes : ℕ := 64

/-- `maxControlFrameBytes`. -/
def maxControlFrameBytes : ℕ := 4 * 2 ^ 10

/-- What a staged frame is charged with. -/
def charge (data : Bytes) : ℕ := data.length + stdinFrameOverheadBytes

/-- `stdinQueue` without its mutex and condition variable. -/
structure StdinQueue where
  frames : List Bytes
  staged : ℕ
  limit : ℕ
  closed : Bool
  staged_eq : staged = (frames.map charge).sum
  staged_le : staged ≤ limit

/-- `newStdinQueue`. -/
def newStdinQueue (limit : ℕ) : StdinQueue := ⟨[], 0, limit, false, rfl, Nat.zero_le _⟩

namespace StdinQueue

/-- `push`, and whether it has staged the frame. -/
def push (q : StdinQueue) (data : Bytes) : StdinQueue × Bool :=
  if h : q.limit < q.staged + data.length + stdinFrameOverheadBytes then (q, false)
  else
    ({ q with
        frames := q.frames ++ [data]
        staged := q.staged + (data.length + stdinFrameOverheadBytes)
        staged_eq := by
          rw [List.map_append, List.sum_append, ← q.staged_eq]
          rfl
        staged_le := by omega }, true)

def close (q : StdinQueue) : StdinQueue := { q with closed := true }

/-- What `next` does with the first frame, if there is one. -/
def take (q : StdinQueue) : Option (Bytes × StdinQueue) :=
  match h : q.frames with
  | [] => none
  | data :: frames => some (data, { q with
      frames
      staged := q.staged - (data.length + stdinFrameOverheadBytes)
      staged_eq := by
        have hsum := q.staged_eq
        rw [h, List.map_cons, List.sum_cons] at hsum
        unfold charge at hsum
        rw [hsum, Nat.add_sub_cancel_left]
        rfl
      staged_le := (Nat.sub_le _ _).trans q.staged_le })

end StdinQueue

/-- A message of the browser: the text ones with their length, and the size they ask for
if they are resize frames. -/
inductive Inbound where
  | binary (data : Bytes)
  | text (length : ℕ) (resize : Option (ℕ × ℕ))
  deriving DecidableEq, Repr

inductive ReadLoop where
  /-- In `conn.Read`. -/
  | reading
  | pushing (data : Bytes)
  /-- In `overflow()`. -/
  | overflow
  /-- In the deferred function: `queue.close()` up to the unlock, its `Signal`, and
  `sizes.close()`. -/
  | closing
  | signalling
  | closingSizes
  | returned
  deriving DecidableEq, Repr

inductive StdinPump where
  /-- About to lock the queue in `next`. -/
  | next
  /-- In `cond.Wait`, and whether a `Signal` has come. -/
  | waiting (woken : Bool)
  /-- In `stdin.Write`, with what the executor has not read yet. -/
  | writing (rest : Bytes)
  /-- At the deferred `stdin.Close()`. -/
  | closing
  | returned
  deriving DecidableEq, Repr

/-- `cond.Signal`. -/
def StdinPump.signal : StdinPump → StdinPump
  | .waiting _ => .waiting true
  | pump => pump

/-- A session's input. `arrived` are the binary frames that `readLoop` has read, `accepted`
those that `push` has taken, and `written` the bytes that have gone through the pipe; no
operation reads these three. -/
structure Stdin where
  queue : StdinQueue
  loop : ReadLoop := .reading
  pump : StdinPump := .next
  /-- The channel of `sizeQueue`, of capacity 8. -/
  sizes : List (ℕ × ℕ) := []
  sizesDone : Bool := false
  /-- `stdinReader.Close()` of the teardown. -/
  readClosed : Bool := false
  /-- The executor finds the end of the input. -/
  writeClosed : Bool := false
  arrived : List Bytes := []
  accepted : List Bytes := []
  written : Bytes := []

inductive StdinAction where
  | message (m : Inbound)
  | connError
  /-- The next operation of `readLoop`. -/
  | loopRun
  /-- The next operation of `stdinPump`. -/
  | pumpRun
  /-- The executor reads so many bytes from the pipe. -/
  | pipeRead (n : ℕ)
  /-- The executor's `sizeQueue.Next`. -/
  | sizeNext
  | readerClose
  deriving DecidableEq, Repr

namespace Stdin

/-- `sizeQueue.push`. -/
def pushSize (s : Stdin) (size : ℕ × ℕ) : Stdin :=
  if s.sizes.length < 8 then { s with sizes := s.sizes ++ [size] } else s

/-- `next`, with the mutex held. -/
def next (s : Stdin) : Stdin :=
  match s.queue.take with
  | some (data, queue) => { s with queue, pump := .writing data }
  | none => { s with pump := if s.queue.closed then .closing else .waiting false }

def step (s : Stdin) : StdinAction → Option Stdin
  | .message m =>
    match s.loop, m with
    | .reading, .binary data =>
      some { s with loop := .pushing data, arrived := s.arrived ++ [data] }
    | .reading, .text length resize =>
      some <| if maxControlFrameBytes < length then s
        else match resize with
          | some size => s.pushSize size
          | none => s
    | _, _ => none
  | .connError =>
    match s.loop with
    | .reading => some { s with loop := .closing }
    | _ => none
  | .loopRun =>
    match s.loop with
    | .reading | .returned => none
    | .pushing data =>
      match s.queue.push data with
      | (queue, true) => some { s with
          queue
          loop := .reading
          pump := s.pump.signal
          accepted := s.accepted ++ [data] }
      | (queue, false) => some { s with queue, loop := .overflow }
    | .overflow => some { s with loop := .closing }
    | .closing => some { s with queue := s.queue.close, loop := .signalling }
    | .signalling => some { s with loop := .closingSizes, pump := s.pump.signal }
    | .closingSizes => some { s with loop := .returned, sizesDone := true }
  | .pumpRun =>
    match s.pump with
    | .next | .waiting true => some s.next
    | .writing _ => if s.readClosed then some { s with pump := .closing } else none
    | .closing => some { s with pump := .returned, writeClosed := true }
    | .waiting false | .returned => none
  | .pipeRead n =>
    match s.pump with
    | .writing rest =>
      if s.readClosed || rest.length < n then none
      else some { s with
        written := s.written ++ rest.take n
        pump := if rest.drop n = [] then .next else .writing (rest.drop n) }
    | _ => none
  | .sizeNext =>
    match s.sizes with
    | [] => none
    | _ :: sizes => some { s with sizes }
  | .readerClose => some { s with readClosed := true }

end Stdin

/-- The input of one session. -/
def stdin (limit : ℕ) : Machine Stdin StdinAction where
  init s := s = { queue := newStdinQueue limit }
  step := Stdin.step

/-! ## The queue -/

namespace StdinQueue
variable {q q' : StdinQueue} {data : Bytes}

theorem push_refused (h : q.push data = (q', false)) :
    q' = q ∧ q.limit < q.staged + charge data := by
  unfold push at h
  split at h
  · cases h
    exact ⟨rfl, by unfold charge; omega⟩
  · cases h

theorem push_accepted (h : q.push data = (q', true)) :
    q'.frames = q.frames ++ [data] ∧ q'.closed = q.closed ∧ q'.limit = q.limit ∧
      q.staged + charge data ≤ q.limit := by
  unfold push at h
  split at h
  · cases h
  · cases h
    exact ⟨rfl, rfl, rfl, by unfold charge; omega⟩

theorem take_some (h : q.take = some (data, q')) :
    q.frames = data :: q'.frames ∧ q'.closed = q.closed ∧ q'.limit = q.limit := by
  unfold take at h
  split at h
  · cases h
  next hframes =>
    cases h
    exact ⟨hframes, rfl, rfl⟩

theorem take_none (h : q.take = none) : q.frames = [] := by
  unfold take at h
  split at h
  next hframes => exact hframes
  · cases h

end StdinQueue

/-! ## What a step does -/

/-- The pump is about to look into the queue. -/
def StdinPump.awake : StdinPump → Bool
  | .next | .waiting true => true
  | _ => false

/-- The steps, one constructor for each branch. -/
inductive StdinStep (s : Stdin) : StdinAction → Stdin → Prop where
  | received {data : Bytes} : s.loop = .reading →
      StdinStep s (.message (.binary data))
        { s with loop := .pushing data, arrived := s.arrived ++ [data] }
  | control {length : ℕ} {resize : Option (ℕ × ℕ)} (sizes : List (ℕ × ℕ)) : s.loop = .reading →
      StdinStep s (.message (.text length resize)) { s with sizes }
  | left : s.loop = .reading → StdinStep s .connError { s with loop := .closing }
  | accepts {data : Bytes} {queue : StdinQueue} : s.loop = .pushing data →
      s.queue.push data = (queue, true) → StdinStep s .loopRun { s with
        queue
        loop := .reading
        pump := s.pump.signal
        accepted := s.accepted ++ [data] }
  | refuses {data : Bytes} : s.loop = .pushing data → s.queue.push data = (s.queue, false) →
      StdinStep s .loopRun { s with loop := .overflow }
  | overflowed : s.loop = .overflow → StdinStep s .loopRun { s with loop := .closing }
  | closes : s.loop = .closing →
      StdinStep s .loopRun { s with queue := s.queue.close, loop := .signalling }
  | signals : s.loop = .signalling →
      StdinStep s .loopRun { s with loop := .closingSizes, pump := s.pump.signal }
  | returns : s.loop = .closingSizes →
      StdinStep s .loopRun { s with loop := .returned, sizesDone := true }
  | takes {data : Bytes} {queue : StdinQueue} : s.pump.awake = true →
      s.queue.take = some (data, queue) →
      StdinStep s .pumpRun { s with queue, pump := .writing data }
  | parks : s.pump.awake = true → s.queue.frames = [] → s.queue.closed = false →
      StdinStep s .pumpRun { s with pump := .waiting false }
  | drained : s.pump.awake = true → s.queue.frames = [] → s.queue.closed = true →
      StdinStep s .pumpRun { s with pump := .closing }
  | fails {rest : Bytes} : s.pump = .writing rest → s.readClosed = true →
      StdinStep s .pumpRun { s with pump := .closing }
  | endsInput : s.pump = .closing →
      StdinStep s .pumpRun { s with pump := .returned, writeClosed := true }
  | reads {rest : Bytes} {n : ℕ} : s.pump = .writing rest → s.readClosed = false →
      n ≤ rest.length → StdinStep s (.pipeRead n) { s with
        written := s.written ++ rest.take n
        pump := if rest.drop n = [] then .next else .writing (rest.drop n) }
  | resized {size : ℕ × ℕ} {sizes : List (ℕ × ℕ)} : s.sizes = size :: sizes →
      StdinStep s .sizeNext { s with sizes }
  | readerCloses : StdinStep s .readerClose { s with readClosed := true }

variable {s t : Stdin} {a : StdinAction}

theorem next_step (h : s.pump.awake = true) : StdinStep s .pumpRun s.next := by
  unfold Stdin.next
  split
  next data queue htake => exact .takes h htake
  next htake =>
    have hempty := StdinQueue.take_none htake
    split_ifs with hclosed
    · exact .drained h hempty hclosed
    · exact .parks h hempty (Bool.eq_false_of_not_eq_true hclosed)

theorem loopRun_step (h : s.step .loopRun = some t) : StdinStep s .loopRun t := by
  simp only [Stdin.step] at h
  cases hloop : s.loop with
  | reading => simp only [hloop, reduceCtorEq] at h
  | returned => simp only [hloop, reduceCtorEq] at h
  | pushing data =>
    simp only [hloop] at h
    split at h
    next queue hpush =>
      cases h
      exact .accepts hloop hpush
    next queue hpush =>
      cases h
      obtain ⟨rfl, -⟩ := StdinQueue.push_refused hpush
      exact .refuses hloop hpush
  | overflow =>
    simp only [hloop, Option.some.injEq] at h
    subst h
    exact .overflowed hloop
  | closing =>
    simp only [hloop, Option.some.injEq] at h
    subst h
    exact .closes hloop
  | signalling =>
    simp only [hloop, Option.some.injEq] at h
    subst h
    exact .signals hloop
  | closingSizes =>
    simp only [hloop, Option.some.injEq] at h
    subst h
    exact .returns hloop

theorem pumpRun_step (h : s.step .pumpRun = some t) : StdinStep s .pumpRun t := by
  simp only [Stdin.step] at h
  split at h
  next hpump =>
    cases h
    exact next_step (by rw [hpump]; rfl)
  next hpump =>
    cases h
    exact next_step (by rw [hpump]; rfl)
  next hpump =>
    split_ifs at h with hclosed
    cases h
    exact .fails hpump hclosed
  next hpump =>
    cases h
    exact .endsInput hpump
  · cases h
  · cases h

theorem stdin_step (h : s.step a = some t) : StdinStep s a t := by
  cases a with
  | loopRun => exact loopRun_step h
  | pumpRun => exact pumpRun_step h
  | message m =>
    simp only [Stdin.step] at h
    split at h
    next hloop =>
      cases h
      exact .received hloop
    next length resize hloop =>
      cases h
      have hcontrol (t : Stdin) (ht : ∃ sizes, t = { s with sizes }) :
          StdinStep s (.message (.text length resize)) t := by
        obtain ⟨sizes, rfl⟩ := ht
        exact .control sizes hloop
      apply hcontrol
      split_ifs
      · exact ⟨s.sizes, rfl⟩
      · cases resize with
        | none => exact ⟨s.sizes, rfl⟩
        | some size =>
          simp only [Stdin.pushSize]
          split_ifs
          · exact ⟨_, rfl⟩
          · exact ⟨s.sizes, rfl⟩
    · cases h
  | connError =>
    simp only [Stdin.step] at h
    split at h
    next hloop =>
      cases h
      exact .left hloop
    · cases h
  | pipeRead n =>
    simp only [Stdin.step] at h
    split at h
    next rest hpump =>
      split at h
      · cases h
      next hblocked =>
        cases h
        simp only [Bool.or_eq_true, decide_eq_true_eq, not_or, Bool.not_eq_true, not_lt] at hblocked
        exact .reads hpump hblocked.1 hblocked.2
    · cases h
  | sizeNext =>
    simp only [Stdin.step] at h
    split at h
    · cases h
    next hsizes =>
      cases h
      exact .resized hsizes
  | readerClose =>
    cases h
    exact .readerCloses

/-! ## The stream -/

/-- What the pump has taken from the queue and the pipe has not yet passed on. -/
def StdinPump.inHand : StdinPump → Bytes
  | .writing rest => rest
  | _ => []

def StdinPump.stopped : StdinPump → Bool
  | .closing | .returned => true
  | _ => false

/-- `queue.close()` has been called. -/
def ReadLoop.hasClosed : ReadLoop → Bool
  | .signalling | .closingSizes | .returned => true
  | _ => false

/-- Nothing is lost on the way: what has been accepted was written, is in the pump's hand
or staged. Only a write that the executor's end has failed takes something away. -/
structure Intact (limit : ℕ) (s : Stdin) : Prop where
  limit_eq : s.queue.limit = limit
  stream : ∃ lost, s.accepted.flatten =
    s.written ++ lost ++ s.pump.inHand ++ s.queue.frames.flatten ∧
      (s.readClosed = false → lost = [])
  closed : s.queue.closed = s.loop.hasClosed
  /-- The pump only stops when it may. -/
  stopped : s.pump.stopped = true → s.readClosed = true ∨
    s.queue.closed = true ∧ s.queue.frames = []
  /-- No wakeup is missed. -/
  parked : s.pump = .waiting false → s.queue.frames = [] ∧
    (s.queue.closed = true → s.loop = .signalling)
  ended : s.writeClosed = true ↔ s.pump = .returned

namespace Intact
variable {limit : ℕ}

theorem init : Intact limit { queue := newStdinQueue limit } where
  limit_eq := rfl
  stream := ⟨[], rfl, fun _ => rfl⟩
  closed := rfl
  stopped := nofun
  parked := nofun
  ended := by simp

theorem signal_inHand (pump : StdinPump) :
    pump.signal.inHand = pump.inHand ∧ pump.signal.stopped = pump.stopped ∧
      pump.signal ≠ .waiting false ∧ (pump.signal = .returned ↔ pump = .returned) := by
  cases pump <;> simp [StdinPump.signal, StdinPump.inHand, StdinPump.stopped]

theorem awake_inHand {pump : StdinPump} (h : pump.awake = true) :
    pump.inHand = [] ∧ pump ≠ .returned := by
  unfold StdinPump.awake at h
  split at h <;> simp_all [StdinPump.inHand]

theorem notEnded (h : Intact limit s) {pump : StdinPump} (hp : s.pump ≠ .returned)
    (hp' : pump ≠ .returned) : s.writeClosed = true ↔ pump = .returned :=
  iff_of_false (fun hw => hp (h.ended.mp hw)) hp'

/-- The loop moves on without touching the queue. -/
theorem moveLoop (h : Intact limit s) (loop : ReadLoop)
    (hclosed : loop.hasClosed = s.loop.hasClosed)
    (hsignal : s.loop = .signalling → loop = .signalling) : Intact limit { s with loop } where
  limit_eq := h.limit_eq
  stream := h.stream
  closed := h.closed.trans hclosed.symm
  stopped := h.stopped
  parked hp := ⟨(h.parked hp).1, fun hc => hsignal ((h.parked hp).2 hc)⟩
  ended := h.ended

theorem step (h : Intact limit s) (hs : StdinStep s a t) : Intact limit t := by
  cases hs with
  | @received data hloop =>
    have hmoved := h.moveLoop (.pushing data) (by rw [hloop]; rfl)
      (by rw [hloop]; exact nofun)
    exact ⟨hmoved.limit_eq, hmoved.stream, hmoved.closed, hmoved.stopped, hmoved.parked, hmoved.ended⟩
  | control sizes => exact ⟨h.limit_eq, h.stream, h.closed, h.stopped, h.parked, h.ended⟩
  | left hloop => exact h.moveLoop _ (by rw [hloop]; rfl) (by rw [hloop]; exact nofun)
  | accepts hloop hpush =>
    obtain ⟨hframes, hclosed, hlimit, -⟩ := StdinQueue.push_accepted hpush
    obtain ⟨hhand, hstopped, hparked, hret⟩ := signal_inHand s.pump
    obtain ⟨lost, hstream, hlost⟩ := h.stream
    have hopen : s.queue.closed = false := by rw [h.closed, hloop]; rfl
    constructor
    · exact hlimit.trans h.limit_eq
    · refine ⟨lost, ?_, hlost⟩
      simp only [hframes, hhand, List.flatten_append, hstream, List.append_assoc]
    · exact hclosed.trans hopen
    · intro hp
      rcases h.stopped (hstopped ▸ hp) with hr | ⟨hc, -⟩
      · exact .inl hr
      · rw [hopen] at hc
        cases hc
    · exact fun hp => absurd hp hparked
    · exact h.ended.trans hret.symm
  | refuses hloop => exact h.moveLoop _ (by rw [hloop]; rfl) (by rw [hloop]; exact nofun)
  | overflowed hloop => exact h.moveLoop _ (by rw [hloop]; rfl) (by rw [hloop]; exact nofun)
  | closes hloop =>
    constructor
    · exact h.limit_eq
    · exact h.stream
    · rfl
    · intro hp
      rcases h.stopped hp with hr | ⟨hc, hempty⟩
      · exact .inl hr
      · exact .inr ⟨rfl, hempty⟩
    · exact fun hp => ⟨(h.parked hp).1, fun _ => rfl⟩
    · exact h.ended
  | signals hloop =>
    obtain ⟨hhand, hstopped, hparked, hret⟩ := signal_inHand s.pump
    obtain ⟨lost, hstream, hlost⟩ := h.stream
    constructor
    · exact h.limit_eq
    · exact ⟨lost, by simp only [hhand, hstream], hlost⟩
    · rw [h.closed, hloop]
      rfl
    · exact fun hp => h.stopped (hstopped ▸ hp)
    · exact fun hp => absurd hp hparked
    · exact h.ended.trans hret.symm
  | returns hloop =>
    have hmoved := h.moveLoop .returned (by rw [hloop]; rfl) (by rw [hloop]; exact nofun)
    exact ⟨hmoved.limit_eq, hmoved.stream, hmoved.closed, hmoved.stopped, hmoved.parked, hmoved.ended⟩
  | takes hawake htake =>
    obtain ⟨hframes, hclosed, hlimit⟩ := StdinQueue.take_some htake
    obtain ⟨hhand, hret⟩ := awake_inHand hawake
    obtain ⟨lost, hstream, hlost⟩ := h.stream
    constructor
    · exact hlimit.trans h.limit_eq
    · refine ⟨lost, ?_, hlost⟩
      rw [hstream, hhand, hframes, List.flatten_cons]
      simp only [StdinPump.inHand, List.append_nil, List.append_assoc]
    · exact hclosed.trans h.closed
    · exact nofun
    · exact nofun
    · exact notEnded h hret nofun
  | parks hawake hempty hopen =>
    obtain ⟨hhand, hret⟩ := awake_inHand hawake
    obtain ⟨lost, hstream, hlost⟩ := h.stream
    constructor
    · exact h.limit_eq
    · exact ⟨lost, by rw [hstream, hhand]; rfl, hlost⟩
    · exact h.closed
    · exact nofun
    · intro _
      refine ⟨hempty, fun hc => ?_⟩
      rw [hopen] at hc
      cases hc
    · exact notEnded h hret nofun
  | drained hawake hempty hclosed =>
    obtain ⟨hhand, hret⟩ := awake_inHand hawake
    obtain ⟨lost, hstream, hlost⟩ := h.stream
    constructor
    · exact h.limit_eq
    · exact ⟨lost, by rw [hstream, hhand]; rfl, hlost⟩
    · exact h.closed
    · exact fun _ => .inr ⟨hclosed, hempty⟩
    · exact nofun
    · exact notEnded h hret nofun
  | fails hpump hread =>
    obtain ⟨lost, hstream, -⟩ := h.stream
    constructor
    · exact h.limit_eq
    · refine ⟨lost ++ s.pump.inHand, ?_, ?_⟩
      · rw [hstream]
        simp only [StdinPump.inHand, List.append_nil, List.append_assoc]
      · intro hr
        rw [hread] at hr
        cases hr
    · exact h.closed
    · exact fun _ => .inl hread
    · exact nofun
    · exact notEnded h (by rw [hpump]; exact nofun) nofun
  | endsInput hpump =>
    obtain ⟨lost, hstream, hlost⟩ := h.stream
    constructor
    · exact h.limit_eq
    · exact ⟨lost, by rw [hstream, hpump]; rfl, hlost⟩
    · exact h.closed
    · exact fun _ => h.stopped (by rw [hpump]; rfl)
    · exact nofun
    · exact iff_of_true rfl rfl
  | @reads rest n hpump hread hn =>
    obtain ⟨lost, hstream, hlost⟩ := h.stream
    obtain rfl := hlost hread
    have hhand : (if rest.drop n = [] then StdinPump.next
        else .writing (rest.drop n)).inHand = rest.drop n := by
      split_ifs with hrest
      · rw [hrest]
        rfl
      · rfl
    constructor
    · exact h.limit_eq
    · refine ⟨[], ?_, fun _ => rfl⟩
      simp only [hhand]
      rw [hstream, hpump]
      simp only [StdinPump.inHand, List.append_nil, List.append_assoc, List.take_append_drop]
    · exact h.closed
    · intro hp
      split_ifs at hp <;> cases hp
    · intro hp
      split_ifs at hp
    · refine notEnded h (by rw [hpump]; exact nofun) ?_
      split_ifs <;> exact nofun
  | resized => exact ⟨h.limit_eq, h.stream, h.closed, h.stopped, h.parked, h.ended⟩
  | readerCloses =>
    obtain ⟨lost, hstream, -⟩ := h.stream
    exact ⟨h.limit_eq, ⟨lost, hstream, nofun⟩, h.closed, fun _ => .inl rfl, h.parked, h.ended⟩

end Intact

theorem intact_reach {limit : ℕ} (hs : (stdin limit).Reachable s) : Intact limit s := by
  refine hs.invariant ?_ ?_
  · rintro s rfl
    exact Intact.init
  · intro s a t h _ ht
    exact h.step (stdin_step ht)

/-- `readLoop` has left its loop. -/
def ReadLoop.left : ReadLoop → Bool
  | .reading | .pushing _ => false
  | _ => true

/-- The frame that is about to be pushed. -/
def ReadLoop.pending : ReadLoop → List Bytes
  | .pushing data => [data]
  | _ => []

/-- The frames are accepted in the order they arrive in, up to the first one refused. -/
def InOrder (s : Stdin) : Prop :=
  s.accepted <+: s.arrived ∧ (s.loop.left = false → s.arrived = s.accepted ++ s.loop.pending)

theorem InOrder.step (h : InOrder s) (hs : StdinStep s a t) : InOrder t := by
  obtain ⟨hacc, hall⟩ := h
  cases hs with
  | received hloop =>
    have heq : s.arrived = s.accepted := by
      simpa [hloop, ReadLoop.pending] using hall (by rw [hloop]; rfl)
    exact ⟨hacc.trans (List.prefix_append _ _), fun _ => by rw [heq]; rfl⟩
  | accepts hloop =>
    have heq := hall (by rw [hloop]; rfl)
    rw [hloop] at heq
    refine ⟨?_, fun _ => ?_⟩
    · rw [heq]
      exact List.prefix_rfl
    · rw [heq]
      exact (List.append_nil _).symm
  | left | refuses | overflowed | closes | signals | returns => exact ⟨hacc, nofun⟩
  | control | takes | parks | drained | fails | endsInput | reads | resized | readerCloses =>
    exact ⟨hacc, hall⟩

theorem inOrder_reach {limit : ℕ} (hs : (stdin limit).Reachable s) : InOrder s := by
  refine hs.invariant ?_ ?_
  · rintro s rfl
    exact ⟨List.prefix_rfl, fun _ => rfl⟩
  · intro s a t h _ ht
    exact h.step (stdin_step ht)

/-! ## The end of the input -/

/-- The pipe keeps accepting what is written: the executor does not close its end, and what
it reads of a write that has bytes left is not nothing. -/
def KeepsAccepting (s : Stdin) : StdinAction → Prop
  | .readerClose => False
  | .pipeRead n => s.pump.inHand ≠ [] → 0 < n
  | _ => True

def ReadLoop.work : ReadLoop → ℕ
  | .overflow => 6
  | .closing => 5
  | .signalling => 4
  | .closingSizes => 1
  | _ => 0

def StdinPump.work : StdinPump → ℕ
  | .next | .waiting true => 2
  | .waiting false | .closing => 1
  | .writing rest => rest.length + 3
  | .returned => 0

/-- What is left to do once the loop has been left. A signal gives the pump one more look
into the queue, for which the loop's share pays. -/
def Stdin.work (s : Stdin) : ℕ :=
  s.loop.work + s.pump.work + (s.queue.frames.map fun data => data.length + 2).sum + s.sizes.length

structure Draining (limit : ℕ) (accepted : List Bytes) (s : Stdin) : Prop where
  intact : Intact limit s
  left : s.loop.left = true
  open_ : s.readClosed = false
  accepted : s.accepted = accepted

theorem work_awake {pump : StdinPump} (h : pump.awake = true) : pump.work = 2 := by
  unfold StdinPump.awake at h
  split at h <;> simp_all [StdinPump.work]

theorem work_signal (pump : StdinPump) : pump.signal.work ≤ pump.work + 1 := by
  cases pump with
  | waiting woken => cases woken <;> simp [StdinPump.signal, StdinPump.work]
  | _ => exact Nat.le_add_right _ _

namespace Draining
variable {limit : ℕ} {accepted : List Bytes}

/-- Each step of the draining uses up some of the work. -/
theorem step (h : Draining limit accepted s) (ha : KeepsAccepting s a) (hs : StdinStep s a t) :
    Draining limit accepted t ∧ t.work < s.work := by
  have hintact := h.intact.step hs
  have hleft := h.left
  cases hs with
  | received hloop | control _ hloop | left hloop | accepts hloop | refuses hloop =>
    rw [hloop] at hleft
    cases hleft
  | overflowed hloop | closes hloop =>
    refine ⟨⟨hintact, rfl, h.open_, h.accepted⟩, ?_⟩
    simp only [Stdin.work, hloop, ReadLoop.work, StdinQueue.close]
    omega
  | signals hloop =>
    refine ⟨⟨hintact, rfl, h.open_, h.accepted⟩, ?_⟩
    have hsignal := work_signal s.pump
    simp only [Stdin.work, hloop, ReadLoop.work]
    omega
  | returns hloop =>
    refine ⟨⟨hintact, rfl, h.open_, h.accepted⟩, ?_⟩
    simp only [Stdin.work, hloop, ReadLoop.work]
    omega
  | takes hawake htake =>
    refine ⟨⟨hintact, h.left, h.open_, h.accepted⟩, ?_⟩
    obtain ⟨hframes, -, -⟩ := StdinQueue.take_some htake
    have hwork := work_awake hawake
    simp only [Stdin.work, hframes, List.map_cons, List.sum_cons]
    rw [hwork]
    simp only [StdinPump.work]
    omega
  | parks hawake | drained hawake =>
    refine ⟨⟨hintact, h.left, h.open_, h.accepted⟩, ?_⟩
    have hwork := work_awake hawake
    simp only [Stdin.work]
    rw [hwork]
    simp only [StdinPump.work]
    omega
  | fails _ hread =>
    rw [h.open_] at hread
    cases hread
  | endsInput hpump =>
    refine ⟨⟨hintact, h.left, h.open_, h.accepted⟩, ?_⟩
    simp only [Stdin.work, hpump, StdinPump.work]
    omega
  | @reads rest n hpump hread hn =>
    refine ⟨⟨hintact, h.left, h.open_, h.accepted⟩, ?_⟩
    have hsome : rest ≠ [] → 0 < n := by
      have hpos : s.pump.inHand ≠ [] → 0 < n := ha
      rw [hpump] at hpos
      exact hpos
    simp only [Stdin.work, hpump]
    split_ifs with hrest
    · simp only [StdinPump.work]
      omega
    · have hne : rest ≠ [] := fun hnil => hrest (by rw [hnil, List.drop_nil])
      have hn0 := hsome hne
      simp only [StdinPump.work, List.length_drop]
      omega
  | resized hsizes =>
    refine ⟨⟨hintact, h.left, h.open_, h.accepted⟩, ?_⟩
    simp only [Stdin.work, hsizes, List.length_cons]
    omega
  | readerCloses => exact absurd ha id

/-- The input ends when all of it has been written. -/
theorem complete (h : Draining limit accepted s) (hw : s.writeClosed = true) :
    s.written = accepted.flatten := by
  have hpump := h.intact.ended.mp hw
  obtain ⟨lost, hstream, hlost⟩ := h.intact.stream
  have hempty : s.queue.frames = [] := by
    rcases h.intact.stopped (by rw [hpump]; rfl) with hr | ⟨-, hempty⟩
    · rw [h.open_] at hr
      cases hr
    · exact hempty
  rw [← h.accepted, hstream, hlost h.open_, hpump, hempty]
  simp [StdinPump.inHand]

/-- There is no deadlock before. -/
theorem ended_of_stuck (h : Draining limit accepted s)
    (hstuck : ∀ a, KeepsAccepting s a → s.step a = none) : s.writeClosed = true := by
  have hleft := h.left
  have hrun := hstuck .loopRun trivial
  have hpumpRun := hstuck .pumpRun trivial
  rw [h.intact.ended]
  cases hpump : s.pump with
  | returned => rfl
  | next =>
    simp only [Stdin.step, hpump] at hpumpRun
    cases hpumpRun
  | closing =>
    simp only [Stdin.step, hpump] at hpumpRun
    cases hpumpRun
  | writing rest =>
    have hread := hstuck (.pipeRead rest.length) fun hne => by
      rw [hpump] at hne
      exact List.length_pos_iff.mpr hne
    simp only [Stdin.step, hpump, h.open_] at hread
    simp at hread
  | waiting woken =>
    cases woken with
    | true =>
      simp only [Stdin.step, hpump] at hpumpRun
      cases hpumpRun
    | false =>
      -- the loop has not yet come to its signal, and can go on
      have hsignal := (h.intact.parked hpump).2
      rw [h.intact.closed] at hsignal
      simp only [Stdin.step] at hrun
      cases hloop : s.loop with
      | reading | pushing =>
        rw [hloop] at hleft
        cases hleft
      | overflow | closing | signalling | closingSizes =>
        rw [hloop] at hrun
        cases hrun
      | returned =>
        rw [hloop] at hsignal
        cases hsignal rfl

end Draining

variable {limit : ℕ}

/-- In every run, whatever the frames and the interleaving: the account of the queue is
right and within the limit; a frame is refused exactly when it would exceed the limit, and
then the queue stays as it is; what went through the pipe is a prefix of the accepted
frames, which are the first of those that arrived; and if the executor keeps reading, the
pump ends the input after finitely many steps, with everything accepted delivered. -/
theorem stdin_intact (hs : (stdin limit).Reachable s) :
    s.queue.staged = (s.queue.frames.map charge).sum ∧ s.queue.staged ≤ limit ∧
    (∀ data, (s.queue.push data).2 = false → (s.queue.push data).1 = s.queue) ∧
    (∀ data, (s.queue.push data).2 = true ↔ s.queue.staged + charge data ≤ limit) ∧
    s.written <+: s.accepted.flatten ∧ s.accepted <+: s.arrived ∧
    (s.writeClosed = true → s.readClosed = false →
      s.loop.left = true ∧ s.written = s.accepted.flatten) ∧
    (s.loop.left = true → s.readClosed = false → ∀ as t,
      (stdin limit).Along KeepsAccepting s as → (stdin limit).exec s as = some t →
      as.length ≤ s.work ∧ ((∀ a, KeepsAccepting t a → (stdin limit).step t a = none) →
        t.writeClosed = true ∧ t.written = s.accepted.flatten)) := by
  have h := intact_reach hs
  obtain ⟨lost, hstream, -⟩ := h.stream
  have hleft : s.writeClosed = true → s.readClosed = false → s.loop.left = true := by
    intro hw hr
    rcases h.stopped (by rw [h.ended.mp hw]; rfl) with hread | ⟨hclosed, -⟩
    · rw [hr] at hread
      cases hread
    · rw [h.closed] at hclosed
      cases hloop : s.loop with
      | reading | pushing =>
        rw [hloop] at hclosed
        cases hclosed
      | _ => rfl
  refine ⟨s.queue.staged_eq, h.limit_eq ▸ s.queue.staged_le, fun data hpush => ?_, fun data => ?_, ?_,
    (inOrder_reach hs).1, fun hw hr => ?_, fun hl hr as t ha ht => ?_⟩
  · exact (StdinQueue.push_refused (Prod.ext rfl hpush)).1
  · rw [← h.limit_eq]
    constructor
    · exact fun hpush => (StdinQueue.push_accepted (Prod.ext rfl hpush)).2.2.2
    · intro hle
      by_contra hpush
      have hlt := (StdinQueue.push_refused (Prod.ext rfl (Bool.eq_false_of_not_eq_true hpush))).2
      omega
  · rw [hstream, List.append_assoc, List.append_assoc]
    exact List.prefix_append _ _
  · exact ⟨hleft hw hr, Draining.complete ⟨h, hleft hw hr, hr, rfl⟩ hw⟩
  · have hdrain := Machine.length_le_of_decreasing (I := Draining limit s.accepted)
      (fun u a v hu hc hv => hu.step hc (stdin_step hv)) ⟨h, hl, hr, rfl⟩ ha ht
    refine ⟨(Nat.le_add_right _ _).trans hdrain.2, fun hstuck => ?_⟩
    have hw := hdrain.1.ended_of_stuck hstuck
    exact ⟨hw, hdrain.1.complete hw⟩

/-- Three keystrokes at a limit of two: the pump waits for the first one and has written it
when the third one comes, which is refused because the second one and another are staged. -/
def overflowing : List StdinAction :=
  [.pumpRun, .message (.binary [97]), .loopRun, .pumpRun, .message (.binary [98]), .loopRun,
    .pipeRead 1, .message (.binary [99]), .loopRun, .message (.binary [100]), .loopRun, .loopRun,
    .loopRun]

theorem overflowing_runs :
    ((stdin 130).exec { queue := newStdinQueue 130 } overflowing).isSome := by decide +kernel

/-- The session's input then. -/
def overflowed : Stdin :=
  ((stdin 130).exec { queue := newStdinQueue 130 } overflowing).get overflowing_runs

theorem stdin_intact_overflowed :
    overflowed.accepted = [[97], [98], [99]] ∧ overflowed.arrived.length = 4 ∧
    overflowed.queue.staged = 130 ∧ overflowed.written <+: [97, 98, 99] ∧
    ∀ as t, (stdin 130).Along KeepsAccepting overflowed as →
      (stdin 130).exec overflowed as = some t → as.length ≤ overflowed.work := by
  have hs := Machine.Reachable.exec overflowing (Machine.Reach.init rfl)
    (Option.some_get overflowing_runs).symm
  obtain ⟨-, -, -, -, hacc, -, -, hdrains⟩ := stdin_intact hs
  have haccepted : overflowed.accepted = [[97], [98], [99]] := by decide +kernel
  have hwritten : overflowed.written <+: overflowed.accepted.flatten := hacc
  rw [haccepted] at hwritten
  refine ⟨haccepted, by decide +kernel, by decide +kernel, hwritten, fun as t ha ht => ?_⟩
  exact (hdrains (by decide +kernel) (by decide +kernel) as t ha ht).1

end KubeConsole.Exec
