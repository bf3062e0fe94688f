import KubeConsole.Theory.Scan
import KubeConsole.Theory.Transition
import KubeConsole.Web.Js

/-!
The search over the log buffer (`composables/useLogSearch.ts`, `utils/logSearch.ts`).

Objects that the source compares by identity, the line array and the compiled query,
carry the number of their allocation.
-/
namespace KubeConsole.Web
open KubeConsole.Theory

structure LogQuery where
  id : ℕ
  source : JStr
  deriving DecidableEq, Repr

/-- `compileQuery`: a new object, or null where there is nothing to search for. -/
def compileQuery (id : ℕ) (raw : JStr) : Option LogQuery :=
  if raw.all isBlank then none else some ⟨id, raw⟩

/-- `lineMatches`: every metacharacter being escaped, the pattern occurs in the line up to
the case folding of the regular expression engine. -/
def lineMatches (fold : UInt16 → UInt16) (q : LogQuery) (line : JStr) : Bool :=
  decide (q.source.map fold <:+: line.map fold)

/-- `scanLines`. -/
def scanLines (fold : UInt16 → UInt16) (lines : List JStr) (q : LogQuery) (start : ℕ) : List ℕ :=
  (lines.drop start).findIdxs (lineMatches fold q) start

/-- What the stream hands over: its array, and how much of it has been dropped. -/
structure Buffer where
  id : ℕ
  lines : List JStr
  dropped : ℕ
  deriving DecidableEq, Repr

/-- The state of the composable, with the buffer it searches. -/
structure Search where
  buffer : Buffer
  query : JStr := []
  filter : Bool := false
  /-- The query the debounce watch has seen last. -/
  watchedQuery : JStr := []
  /-- The value an armed debounce timer is going to apply. -/
  timer : Option JStr := none
  debounced : JStr := []
  compiled : Option LogQuery := none
  compiledIds : ℕ := 0
  matches_ : List ℕ := []
  active : Option ℕ := none
  jumpSeq : ℕ := 0
  lastQuery : Option LogQuery := none
  lastLines : Option ℕ := none
  lastLen : ℕ := 0
  lastDropped : ℕ := 0
  deriving DecidableEq, Repr

inductive SearchEvent where
  /-- A flush of the stream: lines are appended in place, then a head is dropped. -/
  | flush (appended : List JStr) (head : ℕ)
  /-- A restart of the stream hands over a fresh array. -/
  | restart (lines : List JStr) (dropped : ℕ)
  | edit (value : JStr)
  /-- The watch on `query` runs, before the next render. -/
  | queryWatch
  | debounce
  | settle
  | next | prev | clear
  | setFilter (value : Bool)
  deriving DecidableEq, Repr

namespace Search
variable (fold : UInt16 → UInt16)

def filtering (s : Search) : Bool := s.filter && s.compiled.isSome

def rescan (s : Search) (q : LogQuery) : Search :=
  { s with matches_ := scanLines fold s.buffer.lines q 0, active := none }

/-- The branch of the watch that reuses what it has found before. -/
def shift (s : Search) (q : LogQuery) : Search :=
  let delta : ℤ := s.buffer.dropped - s.lastDropped
  let removed := (s.matches_.takeWhile fun i : ℕ => (i : ℤ) < delta).length
  { s with
    matches_ := (s.matches_.drop removed).map (fun i : ℕ => (i - delta).toNat) ++
      scanLines fold s.buffer.lines q (s.lastLen - delta).toNat
    active := s.active.bind fun a => if a < removed then none else some (a - removed) }

/-- The three branches of the watch. -/
def rehit (s : Search) : Search :=
  match s.compiled with
  | none => { s with matches_ := [], active := none }
  | some q =>
    if s.lastQuery ≠ some q ∨ s.lastLines ≠ some s.buffer.id then s.rescan fold q
    else s.shift fold q

/-- The synchronous watch on `compiled` and `version`. -/
def onChange (s : Search) : Search :=
  { s.rehit fold with
    lastQuery := s.compiled
    lastLines := some s.buffer.id
    lastLen := s.buffer.lines.length
    lastDropped := s.buffer.dropped }

/-- `debounced.value = value`: an equal value triggers nothing, and neither does a query
that stays null. -/
def setDebounced (s : Search) (value : JStr) : Search :=
  if value = s.debounced then s
  else
    let compiled := compileQuery (s.compiledIds + 1) value
    let t := { s with debounced := value, compiled, compiledIds := s.compiledIds + 1 }
    if compiled.isNone && s.compiled.isNone then t else t.onChange fold

def settle (s : Search) : Search :=
  if s.timer.isNone then s else { s with timer := none }.setDebounced fold s.query

def move (s : Search) (step : ℤ) : Search :=
  let s := s.settle fold
  let count := s.matches_.length
  if count = 0 then s
  else
    let active := match s.active with
      | none => if step = 1 then 0 else count - 1
      | some current => ((current + step + count) % count : ℤ).toNat
    { s with active := some active, jumpSeq := s.jumpSeq + 1 }

def step (s : Search) : SearchEvent → Option Search
  | .flush appended head =>
    let lines := (s.buffer.lines ++ appended).drop head
    let removed := (s.buffer.lines ++ appended).length - lines.length
    some ({ s with buffer := ⟨s.buffer.id, lines, s.buffer.dropped + removed⟩ }.onChange fold)
  | .restart lines dropped =>
    some ({ s with buffer := ⟨s.buffer.id + 1, lines, dropped⟩ }.onChange fold)
  | .edit value => some { s with query := value }
  | .queryWatch =>
    some (if s.query = s.watchedQuery then s
      else { s with watchedQuery := s.query, timer := some s.query })
  | .debounce => s.timer.map fun value => { s with timer := none }.setDebounced fold value
  | .settle => some (s.settle fold)
  | .next => some (s.move fold 1)
  | .prev => some (s.move fold (-1))
  | .clear => some { s with query := [], active := none }
  | .setFilter value => some { s with filter := value }

end Search

/-- A search over a stream's buffer, from its setup on. -/
def logSearch (fold : UInt16 → UInt16) : Machine Search SearchEvent where
  init s := ∃ buffer, s = { buffer }
  step s e := s.step fold e

end KubeConsole.Web
