import KubeConsole.Web.UseWatch

/-!
What a step of a watch loop does, and what holds between a loop and the composable whatever
other loops, `stop` and `start` do in between.
-/
namespace KubeConsole.Web
open KubeConsole.Theory

variable {ω υ ε : Type*} {opts : UseWatchOptions ω υ ε}

/-! ## The lines of a response -/

/-- The events of some lines before the first ERROR frame. -/
def eventsOf (parse : JStr → WatchLine ε) : List JStr → List ε
  | [] => []
  | line :: lines =>
    if trim line = [] then eventsOf parse lines
    else match parse (trim line) with
      | .invalid => eventsOf parse lines
      | .error _ => []
      | .event e => e :: eventsOf parse lines

/-- The code of the first ERROR frame. -/
def firstError (parse : JStr → WatchLine ε) : List JStr → Option (Option ℕ)
  | [] => none
  | line :: lines =>
    if trim line = [] then firstError parse lines
    else match parse (trim line) with
      | .invalid | .event _ => firstError parse lines
      | .error code => some code

theorem eventsOf_append {parse : JStr → WatchLine ε} {a b : List JStr}
    (h : firstError parse a = none) :
    eventsOf parse (a ++ b) = eventsOf parse a ++ eventsOf parse b ∧
      firstError parse (a ++ b) = firstError parse b := by
  induction a with
  | nil => exact ⟨rfl, rfl⟩
  | cons line a ih =>
    unfold firstError at h
    simp only [List.cons_append, eventsOf, firstError]
    split_ifs at h ⊢ with hblank
    · exact ih h
    · cases hp : parse (trim line) with
      | invalid =>
        simp only [hp] at h
        exact ih h
      | error code =>
        simp only [hp] at h
        cases h
      | event e =>
        simp only [hp] at h
        obtain ⟨hevents, herror⟩ := ih h
        exact ⟨by simp only [hevents, List.cons_append], herror⟩

/-- The outcome that an ERROR frame returns with. -/
def errorOutcome (code : Option ℕ) : WatchOutcome := if code = some 410 then .stale else .retry

/-- Feeding lines hands over their events. -/
theorem feed_spec (opts : UseWatchOptions ω υ ε) (n : ℕ) (lines : List JStr) (w : UseWatch υ ε)
    (o : ω) :
    UseWatch.feed opts n lines w o =
      ({ w with
          backoffMs := if eventsOf opts.parse lines = [] then w.backoffMs else initialBackoffMs
          delivered := w.delivered ++ (eventsOf opts.parse lines).map (n, ·) },
        (eventsOf opts.parse lines).foldl opts.onEvent o,
        (firstError opts.parse lines).map errorOutcome) := by
  induction lines generalizing w o with
  | nil => simp [UseWatch.feed, eventsOf, firstError]
  | cons line lines ih =>
    unfold UseWatch.feed eventsOf firstError
    by_cases hblank : trim line = []
    · simp only [hblank, if_true, ih]
    · simp only [hblank, if_false]
      cases hp : opts.parse (trim line) with
      | invalid => simp only [ih]
      | error code => simp [errorOutcome]
      | event e =>
        simp only [ih, List.map_cons, List.foldl_cons, List.append_assoc, List.singleton_append,
          reduceCtorEq, if_false, ite_self]

/-! ## What a loop does -/

/-- The attempt whose response a loop is after. -/
def WatchPc.open_ : WatchPc υ → Option ℕ
  | .authorizing n _ | .fetching n | .reading n _ => some n
  | _ => none

/-- The attempt a loop has in hand. -/
def WatchPc.attempt : WatchPc υ → Option ℕ
  | .authorizing n _ | .fetching n | .reading n _ | .settled n _ => some n
  | .backoff _ => none

theorem WatchPc.attempt_of_open {pc : WatchPc υ} {n : ℕ} (h : pc.open_ = some n) :
    pc.attempt = some n := by
  cases pc <;> first | exact h | cases h

/-- The steps of a loop, one constructor for each thing that it can do. -/
inductive LoopStep (opts : UseWatchOptions ω υ ε) (w : UseWatch υ ε) (o : ω) (l : WatchLoop υ) :
    WatchInput → UseWatch υ ε → ω → WatchAfter υ → Prop where
  | issue {n : ℕ} {url : υ} : l.pc = .authorizing n url → n ∉ w.aborted →
      LoopStep opts w o l .run { w with requests := w.requests ++ [(n, url)] } o
        (.loop ⟨l.gen, .fetching n⟩)
  | settle {n : ℕ} {i : WatchInput} (outcome : WatchOutcome) : l.pc.open_ = some n →
      (outcome = .aborted → n ∈ w.aborted ∨ i = .failed (some 401)) →
      LoopStep opts w o l i w o (.loop ⟨l.gen, .settled n outcome⟩)
  | read {n : ℕ} : l.pc = .fetching n →
      LoopStep opts w o l (.response true) w o (.loop ⟨l.gen, .reading n []⟩)
  | feed {n : ℕ} {buffer text : JStr} {pc : WatchPc υ} : l.pc = .reading n buffer → n ∉ w.aborted →
      pc = (match firstError opts.parse (complete (buffer ++ text)) with
        | none => .reading n (rest (buffer ++ text))
        | some code => .settled n (errorOutcome code)) →
      LoopStep opts w o l (.chunk text)
        { w with
          texts := Function.update w.texts n (w.texts n ++ text)
          backoffMs := if eventsOf opts.parse (complete (buffer ++ text)) = [] then w.backoffMs
            else initialBackoffMs
          delivered := w.delivered ++
            (eventsOf opts.parse (complete (buffer ++ text))).map (n, ·) }
        ((eventsOf opts.parse (complete (buffer ++ text))).foldl opts.onEvent o)
        (.loop ⟨l.gen, pc⟩)
  | leave {n : ℕ} {outcome : WatchOutcome} : l.pc = .settled n outcome →
      (w.current l.gen = true → outcome = .aborted) →
      LoopStep opts w o l .run (w.abort n) o .ended
  | stale {n : ℕ} : l.pc = .settled n .stale → w.current l.gen = true →
      LoopStep opts w o l .run { w.abort n with stopped := true } o .stale
  | wait {n : ℕ} : l.pc = .settled n .retry → w.current l.gen = true →
      LoopStep opts w o l .run (w.abort n) o (.loop ⟨l.gen, .backoff w.backoffMs⟩)
  | superseded {ms : ℕ} : l.pc = .backoff ms → w.current l.gen = false →
      LoopStep opts w o l .run { w with backoffMs := min (w.backoffMs * 2) maxBackoffMs } o .ended
  | next {ms : ℕ} : l.pc = .backoff ms → w.current l.gen = true →
      LoopStep opts w o l .run
        ({ w with backoffMs := min (w.backoffMs * 2) maxBackoffMs }.attempt opts o l.gen).1 o
        (.loop (UseWatch.attempt opts { w with backoffMs := min (w.backoffMs * 2) maxBackoffMs }
          o l.gen).2)

variable {w w' : UseWatch υ ε} {o o' : ω} {l l' : WatchLoop υ} {i : WatchInput}
  {after : WatchAfter υ}

theorem outcomeOf_aborted {n : ℕ} {status : Option ℕ} (h : w.outcomeOf n status = .aborted) :
    n ∈ w.aborted ∨ status = some 401 := by
  unfold UseWatch.outcomeOf at h
  split_ifs at h with haborted h410 h401
  · exact .inl haborted
  · exact .inr h401

theorem loop_step (h : UseWatch.loopStep opts w o l i = some (w', o', after)) :
    LoopStep opts w o l i w' o' after := by
  obtain ⟨gen, pc⟩ := l
  have hfailed {n : ℕ} {status : Option ℕ} (hopen : pc.open_ = some n) :
      LoopStep opts w o ⟨gen, pc⟩ (.failed status) w o
        (.loop ⟨gen, .settled n (w.outcomeOf n status)⟩) := by
    refine .settle _ hopen fun habort => ?_
    rcases outcomeOf_aborted habort with haborted | rfl
    · exact .inl haborted
    · exact .inr rfl
  have hended {n : ℕ} {j : WatchInput} (hopen : pc.open_ = some n) :
      LoopStep opts w o ⟨gen, pc⟩ j w o (.loop ⟨gen, .settled n (w.outcomeOf n none)⟩) := by
    refine .settle _ hopen fun habort => ?_
    rcases outcomeOf_aborted habort with haborted | hstatus
    · exact .inl haborted
    · cases hstatus
  cases pc with
  | authorizing n url =>
    cases i with
    | run =>
      simp only [UseWatch.loopStep] at h
      split_ifs at h with haborted
      · cases h
        exact .settle _ rfl fun _ => .inl haborted
      · cases h
        exact .issue rfl haborted
    | failed status =>
      cases h
      exact hfailed rfl
    | _ => cases h
  | fetching n =>
    cases i with
    | response body =>
      cases h
      cases body with
      | true => exact .read rfl
      | false => exact .settle _ rfl nofun
    | failed status =>
      cases h
      exact hfailed rfl
    | _ => cases h
  | reading n buffer =>
    cases i with
    | chunk text =>
      simp only [UseWatch.loopStep] at h
      split_ifs at h with haborted
      · cases h
        exact .settle _ rfl fun _ => .inl haborted
      · rw [feed_spec] at h
        cases h
        refine .feed rfl haborted ?_
        cases firstError opts.parse (complete (buffer ++ text)) with
        | none => rfl
        | some code => rfl
    | done =>
      cases h
      exact hended rfl
    | readError =>
      cases h
      exact hended rfl
    | _ => cases h
  | settled n outcome =>
    cases i with
    | run =>
      simp only [UseWatch.loopStep] at h
      have hcur : (w.abort n).current gen = w.current gen := rfl
      rw [hcur] at h
      by_cases hcurrent : w.current gen = true
      · rw [if_neg (by simp [hcurrent])] at h
        cases outcome with
        | aborted =>
          cases h
          exact .leave rfl fun _ => rfl
        | stale =>
          cases h
          exact .stale rfl hcurrent
        | retry =>
          cases h
          exact .wait rfl hcurrent
      · rw [if_pos (by simp [hcurrent])] at h
        cases h
        exact .leave rfl fun hc => absurd hc hcurrent
    | _ => cases h
  | backoff ms =>
    cases i with
    | run =>
      simp only [UseWatch.loopStep] at h
      have hcur : UseWatch.current { w with backoffMs := min (w.backoffMs * 2) maxBackoffMs } gen =
          w.current gen := rfl
      rw [hcur] at h
      split_ifs at h with hcurrent
      · cases h
        exact .next rfl hcurrent
      · cases h
        exact .superseded rfl (Bool.eq_false_of_not_eq_true hcurrent)
    | _ => cases h

/-! ## Whose attempt it is -/

theorem current_eq_true {g : ℕ} : w.current g = true ↔ w.stopped = false ∧ g = w.generation := by
  simp [UseWatch.current]

/-- Attempts are numbered in the order in which they begin, and nothing is read of one that
has not begun. -/
structure UseWatch.Numbered (w : UseWatch υ ε) : Prop where
  aborted_lt : ∀ n ∈ w.aborted, n < w.attempts
  controller_lt : ∀ n ∈ w.controller, n < w.attempts
  fresh : ∀ n, w.attempts ≤ n → w.texts n = []

structure WatchLoop.Started (w : UseWatch υ ε) (l : WatchLoop υ) : Prop where
  gen_le : l.gen ≤ w.generation
  lt_attempts : ∀ n, l.pc.attempt = some n → n < w.attempts

/-- While a loop is current its attempt is the one that `stop` would abort, and from then on
the attempt is aborted. -/
structure WatchLoop.Held (w : UseWatch υ ε) (l : WatchLoop υ) : Prop extends l.Started w where
  controller : ∀ n, l.pc.attempt = some n → w.current l.gen = true →
    w.controller = some n ∧ n ∉ w.aborted
  aborted : ∀ n, l.pc.attempt = some n → w.current l.gen = false → n ∈ w.aborted

theorem UseWatch.Numbered.stop (h : w.Numbered) : w.stop.Numbered := by
  constructor
  · intro n hn
    rcases List.mem_append.mp hn with hn | hn
    · exact h.controller_lt n (Option.mem_toList.mp hn)
    · exact h.aborted_lt n hn
  · exact nofun
  · exact h.fresh

theorem UseWatch.Numbered.attempt (h : w.Numbered) (opts : UseWatchOptions ω υ ε) (o : ω) (g : ℕ) :
    (w.attempt opts o g).1.Numbered := by
  constructor
  · exact fun n hn => Nat.lt_succ_of_lt (h.aborted_lt n hn)
  · intro n hn
    cases hn
    exact Nat.lt_succ_self _
  · exact fun n hn => h.fresh n (Nat.le_of_succ_le hn)

theorem UseWatch.Numbered.start (h : w.Numbered) (opts : UseWatchOptions ω υ ε) (o : ω) :
    (w.start opts o).1.Numbered := by
  apply UseWatch.Numbered.attempt
  exact ⟨h.stop.aborted_lt, h.stop.controller_lt, h.fresh⟩

namespace WatchLoop.Started

theorem mono (h : l.Started w) (hgen : w.generation ≤ w'.generation)
    (hattempts : w.attempts ≤ w'.attempts) : l.Started w' :=
  ⟨h.gen_le.trans hgen, fun n hn => (h.lt_attempts n hn).trans_le hattempts⟩

theorem attempt_own (w : UseWatch υ ε) (opts : UseWatchOptions ω υ ε) (o : ω) {g : ℕ}
    (hg : g ≤ w.generation) : (w.attempt opts o g).2.Started (w.attempt opts o g).1 := by
  refine ⟨hg, fun n hn => ?_⟩
  unfold UseWatch.attempt at hn
  cases hurl : opts.buildUrl o with
  | none =>
    rw [hurl] at hn
    cases hn
    exact Nat.lt_succ_self _
  | some url =>
    rw [hurl] at hn
    cases hn
    exact Nat.lt_succ_self _

theorem start_own (w : UseWatch υ ε) (opts : UseWatchOptions ω υ ε) (o : ω) :
    (w.start opts o).2.Started (w.start opts o).1 :=
  attempt_own _ opts o le_rfl

theorem start (h : l.Started w) (opts : UseWatchOptions ω υ ε) (o : ω) :
    l.Started (w.start opts o).1 :=
  h.mono ((Nat.le_succ _).trans (Nat.le_succ _)) (Nat.le_succ _)

theorem stop (h : l.Started w) : l.Started w.stop :=
  h.mono (Nat.le_succ _) le_rfl

/-- No loop is as new as the one that has just started. -/
theorem gen_ne_start (h : l.Started w) (opts : UseWatchOptions ω υ ε) (o : ω) :
    l.gen ≠ (w.start opts o).2.gen := by
  have hle := h.gen_le
  simp only [UseWatch.start, UseWatch.attempt, UseWatch.stop]
  omega

end WatchLoop.Started

/-- A step of a loop leaves its generation and that of the composable, and its attempt or
goes on to the next one. -/
theorem LoopStep.gen (h : LoopStep opts w o l i w' o' after) :
    w'.generation = w.generation ∧ w.attempts ≤ w'.attempts ∧
      ∀ l', after = .loop l' → l'.gen = l.gen := by
  cases h with
  | next _ _ => exact ⟨rfl, Nat.le_succ _, fun l' hl' => by cases hl'; rfl⟩
  | _ => exact ⟨rfl, le_rfl, fun l' hl' => by cases hl' <;> rfl⟩

theorem LoopStep.attempt {l' : WatchLoop υ} (h : LoopStep opts w o l i w' o' (.loop l')) {n : ℕ}
    (hn : l'.pc.attempt = some n) :
    l.pc.attempt = some n ∧ w'.controller = w.controller ∧ w'.aborted = w.aborted ∧
        w'.stopped = w.stopped ∨
      w.current l.gen = true ∧ w'.current l.gen = true ∧ n = w.attempts ∧
        w'.attempts = n + 1 ∧ w'.controller = some n ∧ w'.aborted = w.aborted := by
  generalize hafter : WatchAfter.loop l' = after at h
  cases h with
  | issue hpc _ =>
    cases hafter
    cases hn
    exact .inl ⟨by rw [hpc]; rfl, rfl, rfl, rfl⟩
  | settle outcome hopen _ =>
    cases hafter
    cases hn
    exact .inl ⟨WatchPc.attempt_of_open hopen, rfl, rfl, rfl⟩
  | read hpc =>
    cases hafter
    cases hn
    exact .inl ⟨by rw [hpc]; rfl, rfl, rfl, rfl⟩
  | @feed m buffer text pc hpc _ hnext =>
    cases hafter
    have hattempt : pc.attempt = some m := by
      rw [hnext]
      split <;> rfl
    cases hattempt.symm.trans hn
    exact .inl ⟨by rw [hpc]; rfl, rfl, rfl, rfl⟩
  | wait _ _ =>
    cases hafter
    cases hn
  | next _ hcurrent =>
    cases hafter
    have hattempt : n = w.attempts := by
      simp only [UseWatch.attempt] at hn
      cases hurl : opts.buildUrl o with
      | none =>
        rw [hurl] at hn
        cases hn
        rfl
      | some url =>
        rw [hurl] at hn
        cases hn
        rfl
    subst hattempt
    exact .inr ⟨hcurrent, hcurrent, rfl, rfl, rfl, rfl⟩
  | _ => cases hafter

theorem WatchLoop.Started.own {l' : WatchLoop υ} (hl : l.Started w)
    (h : LoopStep opts w o l i w' o' (.loop l')) : l'.Started w' := by
  obtain ⟨hgen, hattempts, hsame⟩ := h.gen
  constructor
  · rw [hgen, hsame l' rfl]
    exact hl.gen_le
  · intro n hn
    rcases h.attempt hn with ⟨hback, -⟩ | ⟨-, -, -, hnext, -⟩
    · exact (hl.lt_attempts n hback).trans_le hattempts
    · omega

theorem LoopStep.numbered (h : LoopStep opts w o l i w' o' after) (hw : w.Numbered)
    (hl : l.Started w) : w'.Numbered := by
  have habort {n : ℕ} {outcome : WatchOutcome} (hpc : l.pc = .settled n outcome) :
      ∀ m ∈ n :: w.aborted, m < w.attempts := by
    intro m hm
    rcases List.mem_cons.mp hm with rfl | hm
    · exact hl.lt_attempts _ (by rw [hpc]; rfl)
    · exact hw.aborted_lt m hm
  cases h with
  | leave hpc _ => exact ⟨habort hpc, hw.controller_lt, hw.fresh⟩
  | stale hpc _ => exact ⟨habort hpc, hw.controller_lt, hw.fresh⟩
  | wait hpc _ => exact ⟨habort hpc, hw.controller_lt, hw.fresh⟩
  | @feed n _ text pc hpc _ _ =>
    refine ⟨hw.aborted_lt, hw.controller_lt, fun m hm => ?_⟩
    have hlt : n < w.attempts := hl.lt_attempts n (by rw [hpc]; rfl)
    have hne : m ≠ n := by
      rintro rfl
      exact absurd hlt (Nat.not_lt.mpr hm)
    exact (Function.update_of_ne hne _ _).trans (hw.fresh m hm)
  | next _ _ =>
    apply UseWatch.Numbered.attempt
    exact ⟨hw.aborted_lt, hw.controller_lt, hw.fresh⟩
  | _ => exact ⟨hw.aborted_lt, hw.controller_lt, hw.fresh⟩

namespace WatchLoop.Held

/-- A loop whose attempt is not aborted is current. -/
theorem current (h : l.Held w) {n : ℕ} (hn : l.pc.attempt = some n) (ha : n ∉ w.aborted) :
    w.current l.gen = true := by
  by_contra hcurrent
  exact ha (h.aborted n hn (Bool.eq_false_of_not_eq_true hcurrent))

theorem stop (h : l.Held w) : l.Held w.stop := by
  refine ⟨h.toStarted.stop, nofun, fun n hn _ => List.mem_append.mpr ?_⟩
  by_cases hcurrent : w.current l.gen = true
  · exact .inl (by simp [(h.controller n hn hcurrent).1])
  · exact .inr (h.aborted n hn (Bool.eq_false_of_not_eq_true hcurrent))

/-- The loops that are not current when an attempt begins. -/
theorem attempt_other (h : l.Held w) (hc : w.current l.gen = false)
    (opts : UseWatchOptions ω υ ε) (o : ω) (g : ℕ) : l.Held (w.attempt opts o g).1 := by
  refine ⟨h.toStarted.mono le_rfl (Nat.le_succ _), fun n _ hcurrent => ?_, h.aborted⟩
  exact absurd (hc.symm.trans hcurrent) Bool.false_ne_true

theorem attempt_own (hw : w.Numbered) (opts : UseWatchOptions ω υ ε) (o : ω) {g : ℕ}
    (hg : w.current g = true) : (w.attempt opts o g).2.Held (w.attempt opts o g).1 := by
  have hattempt : (w.attempt opts o g).2.pc.attempt = some w.attempts := by
    unfold UseWatch.attempt
    cases opts.buildUrl o with
    | none => rfl
    | some url => rfl
  refine ⟨Started.attempt_own w opts o (current_eq_true.mp hg).2.le, fun n hn _ => ?_, ?_⟩
  · cases hattempt.symm.trans hn
    exact ⟨rfl, fun ha => absurd (hw.aborted_lt _ ha) (lt_irrefl _)⟩
  · intro n _ hcurrent
    exact absurd (hcurrent.symm.trans hg) Bool.false_ne_true

theorem start (h : l.Held w) (opts : UseWatchOptions ω υ ε) (o : ω) : l.Held (w.start opts o).1 := by
  have hafter : UseWatch.current { w.stop with
      stopped := false
      backoffMs := initialBackoffMs
      generation := w.stop.generation + 1 } l.gen = false := by
    rw [Bool.eq_false_iff]
    intro hcurrent
    have heq := (current_eq_true.mp hcurrent).2
    have hle := h.gen_le
    simp only [UseWatch.stop] at heq
    omega
  apply attempt_other _ hafter
  refine ⟨h.stop.toStarted.mono (Nat.le_succ _) le_rfl, fun n _ hcurrent => ?_, ?_⟩
  · exact absurd (hafter.symm.trans hcurrent) Bool.false_ne_true
  · exact fun n hn _ => h.stop.aborted n hn rfl

theorem start_own (hw : w.Numbered) (opts : UseWatchOptions ω υ ε) (o : ω) :
    (w.start opts o).2.Held (w.start opts o).1 := by
  apply attempt_own
  · exact ⟨hw.stop.aborted_lt, hw.stop.controller_lt, hw.fresh⟩
  · simp [UseWatch.current]

/-- A loop keeps what it has when another one moves: if it is current, the other can only
abort an attempt that already is. -/
theorem other {d : WatchLoop υ} (hl : l.Held w) (hd : d.Held w) (hgen : d.gen ≠ l.gen)
    (h : LoopStep opts w o l i w' o' after) : d.Held w' := by
  have hnot (hc : w.current l.gen = true) : w.current d.gen = false := by
    rw [Bool.eq_false_iff]
    intro hcurrent
    exact hgen ((current_eq_true.mp hcurrent).2.trans (current_eq_true.mp hc).2.symm)
  have habort {n : ℕ} {outcome : WatchOutcome} (hpc : l.pc = .settled n outcome) :
      d.Held (w.abort n) := by
    refine ⟨⟨hd.gen_le, hd.lt_attempts⟩, fun m hm hc => ?_, fun m hm hc => ?_⟩
    · obtain ⟨hcontroller, ha⟩ := hd.controller m hm hc
      have hother : w.current l.gen = false := by
        rw [Bool.eq_false_iff]
        intro hcurrent
        exact absurd ((hnot hcurrent).symm.trans hc) Bool.false_ne_true
      refine ⟨hcontroller, fun hmem => ?_⟩
      rcases List.mem_cons.mp hmem with rfl | hmem
      · exact ha (hl.aborted _ (by rw [hpc]; rfl) hother)
      · exact ha hmem
    · exact List.mem_cons_of_mem _ (hd.aborted m hm hc)
  cases h with
  | leave hpc _ => exact habort hpc
  | stale hpc hcurrent =>
    refine ⟨⟨hd.gen_le, hd.lt_attempts⟩, nofun, fun m hm _ => ?_⟩
    exact List.mem_cons_of_mem _ (hd.aborted m hm (hnot hcurrent))
  | wait hpc _ => exact habort hpc
  | next _ hcurrent =>
    have hwait : d.Held { w with backoffMs := min (w.backoffMs * 2) maxBackoffMs } :=
      ⟨⟨hd.gen_le, hd.lt_attempts⟩, hd.controller, hd.aborted⟩
    exact hwait.attempt_other (hnot hcurrent) opts _ _
  | _ => exact ⟨⟨hd.gen_le, hd.lt_attempts⟩, hd.controller, hd.aborted⟩

theorem own {l' : WatchLoop υ} (hw : w.Numbered) (hl : l.Held w)
    (h : LoopStep opts w o l i w' o' (.loop l')) : l'.Held w' := by
  obtain ⟨hgen, -, hsame⟩ := h.gen
  have hcurrent (hstopped : w'.stopped = w.stopped) : w'.current l'.gen = w.current l.gen := by
    simp only [UseWatch.current, hstopped, hgen, hsame l' rfl]
  refine ⟨hl.toStarted.own h, fun n hn hc => ?_, fun n hn hc => ?_⟩
  · rcases h.attempt hn with ⟨hback, hcontroller, haborted, hstopped⟩ | ⟨-, -, hnext, -, hc', ha⟩
    · rw [hcurrent hstopped] at hc
      rw [hcontroller, haborted]
      exact hl.controller n hback hc
    · rw [ha, hnext]
      exact ⟨hnext ▸ hc', fun hmem => absurd (hw.aborted_lt _ hmem) (lt_irrefl _)⟩
  · rcases h.attempt hn with ⟨hback, -, haborted, hstopped⟩ | ⟨-, hafter, -⟩
    · rw [hcurrent hstopped] at hc
      rw [haborted]
      exact hl.aborted n hback hc
    · rw [hsame l' rfl] at hc
      exact absurd (hc.symm.trans hafter) Bool.false_ne_true

end WatchLoop.Held

/-! ## What a step leaves -/

/-- A response is read, and handed over, only by a loop whose attempt is not aborted. -/
theorem LoopStep.texts (h : LoopStep opts w o l i w' o' after) :
    (w'.texts = w.texts ∧ w'.delivered = w.delivered) ∨
      ∃ n buffer text, l.pc = .reading n buffer ∧ n ∉ w.aborted ∧ i = .chunk text ∧
        w'.texts = Function.update w.texts n (w.texts n ++ text) ∧
        w'.delivered = w.delivered ++
          (eventsOf opts.parse (complete (buffer ++ text))).map (n, ·) := by
  cases h with
  | feed hpc ha _ => exact .inr ⟨_, _, _, hpc, ha, rfl, rfl, rfl⟩
  | _ => exact .inl ⟨rfl, rfl⟩

theorem LoopStep.aborted_subset (h : LoopStep opts w o l i w' o' after) {n : ℕ}
    (hn : n ∈ w.aborted) : n ∈ w'.aborted := by
  cases h with
  | leave _ _ => exact List.mem_cons_of_mem _ hn
  | stale _ _ => exact List.mem_cons_of_mem _ hn
  | wait _ _ => exact List.mem_cons_of_mem _ hn
  | _ => exact hn

/-- A request goes out only for an attempt that is not aborted. -/
theorem LoopStep.requests (h : LoopStep opts w o l i w' o' after) :
    w'.requests = w.requests ∨ ∃ n url, l.pc = .authorizing n url ∧ n ∉ w.aborted ∧
      w'.requests = w.requests ++ [(n, url)] := by
  cases h with
  | issue hpc ha => exact .inr ⟨_, _, hpc, ha, rfl⟩
  | _ => exact .inl rfl

theorem LoopStep.current (h : LoopStep opts w o l i w' o' after) {g : ℕ}
    (hg : w.current g = false) : w'.current g = false := by
  cases h with
  | stale _ _ => rfl
  | _ => exact hg

/-! ## Delays -/

def Delay (ms : ℕ) : Prop := initialBackoffMs ≤ ms ∧ ms ≤ maxBackoffMs

theorem delay_initial : Delay initialBackoffMs := ⟨le_rfl, by decide⟩

theorem delay_doubled {ms : ℕ} (h : Delay ms) : Delay (min (ms * 2) maxBackoffMs) := by
  unfold Delay initialBackoffMs maxBackoffMs at *
  omega

theorem LoopStep.delay (h : LoopStep opts w o l i w' o' after) (hw : Delay w.backoffMs) :
    Delay w'.backoffMs ∧ ∀ l' ms, after = .loop l' → l'.pc = .backoff ms → Delay ms := by
  cases h with
  | issue _ _ => exact ⟨hw, fun l' ms hl' hms => by cases hl'; cases hms⟩
  | settle _ _ _ => exact ⟨hw, fun l' ms hl' hms => by cases hl'; cases hms⟩
  | read _ => exact ⟨hw, fun l' ms hl' hms => by cases hl'; cases hms⟩
  | feed _ _ hnext =>
    constructor
    · dsimp only
      split_ifs
      · exact hw
      · exact delay_initial
    · intro l' ms hl' hms
      cases hl'
      simp only [hnext] at hms
      split at hms <;> cases hms
  | wait _ _ => exact ⟨hw, fun l' ms hl' hms => by cases hl'; cases hms; exact hw⟩
  | next _ _ =>
    refine ⟨delay_doubled hw, fun l' ms hl' hms => ?_⟩
    cases hl'
    simp only [UseWatch.attempt] at hms
    split at hms <;> cases hms
  | leave _ _ => exact ⟨hw, nofun⟩
  | stale _ _ => exact ⟨hw, nofun⟩
  | superseded _ _ => exact ⟨delay_doubled hw, nofun⟩

/-! ## The text of an attempt -/

/-- What a loop has of the text of its attempt: nothing before the response, then the line
that is not complete. -/
def TextHeld (opts : UseWatchOptions ω υ ε) (w : UseWatch υ ε) : WatchPc υ → Prop
  | .authorizing n _ | .fetching n => w.texts n = []
  | .reading n buffer =>
    buffer = rest (w.texts n) ∧ firstError opts.parse (complete (w.texts n)) = none
  | _ => True

theorem textHeld_congr {pc : WatchPc υ} (h : TextHeld opts w pc)
    (htexts : ∀ n, pc.open_ = some n → w'.texts n = w.texts n) : TextHeld opts w' pc := by
  cases pc <;> simp only [TextHeld, WatchPc.open_] at h htexts ⊢ <;>
    simpa only [htexts _ rfl] using h

theorem textHeld_attempt (hfresh : w.texts w.attempts = []) (g : ℕ) :
    TextHeld opts (w.attempt opts o g).1 (w.attempt opts o g).2.pc := by
  unfold UseWatch.attempt
  cases opts.buildUrl o with
  | none => trivial
  | some url => exact hfresh

/-- The lines that a chunk completes are those that the text grows by. -/
theorem textHeld_feed {n : ℕ} {buffer : JStr} (text : JStr) (h : TextHeld opts w (.reading n buffer)) :
    complete (w.texts n ++ text) = complete (w.texts n) ++ complete (buffer ++ text) ∧
      rest (w.texts n ++ text) = rest (buffer ++ text) ∧
      eventsOf opts.parse (complete (w.texts n ++ text)) =
        eventsOf opts.parse (complete (w.texts n)) ++
          eventsOf opts.parse (complete (buffer ++ text)) ∧
      firstError opts.parse (complete (w.texts n ++ text)) =
        firstError opts.parse (complete (buffer ++ text)) := by
  obtain ⟨rfl, herror⟩ := h
  obtain ⟨hcomplete, hrest⟩ := complete_rest_append (w.texts n) text
  have happend := eventsOf_append (b := complete (rest (w.texts n) ++ text)) herror
  rw [hcomplete]
  exact ⟨rfl, hrest, happend⟩

theorem LoopStep.textHeld {l' : WatchLoop υ} (h : LoopStep opts w o l i w' o' (.loop l'))
    (hheld : TextHeld opts w l.pc) (hfresh : w.texts w.attempts = []) :
    TextHeld opts w' l'.pc := by
  generalize hafter : WatchAfter.loop l' = after at h
  cases h with
  | issue hpc _ =>
    cases hafter
    rw [hpc] at hheld
    exact hheld
  | read hpc =>
    cases hafter
    rw [hpc] at hheld
    have htext : w.texts _ = [] := hheld
    exact ⟨by rw [htext]; rfl, by rw [htext]; rfl⟩
  | @feed n buffer text pc hpc _ hnext =>
    cases hafter
    rw [hpc] at hheld
    obtain ⟨-, hrest, -, herror⟩ := textHeld_feed text hheld
    rw [hnext]
    cases hfirst : firstError opts.parse (complete (buffer ++ text)) with
    | none =>
      simp only [TextHeld, Function.update_self]
      exact ⟨hrest.symm, herror.trans hfirst⟩
    | some code => trivial
  | next _ _ =>
    cases hafter
    exact textHeld_attempt hfresh _
  | settle _ _ _ =>
    cases hafter
    trivial
  | wait _ _ =>
    cases hafter
    trivial
  | _ => cases hafter

/-! ## Programs with a watch -/

/-- The loop that goes on. -/
def WatchAfter.next : WatchAfter υ → Option (WatchLoop υ)
  | .loop l => some l
  | .ended | .stale => none

/-- What an operation of a thread may do to a watch: leave it, start a loop, step its loop,
and, where it has none afterwards, stop. -/
inductive WatchMove (opts : UseWatchOptions ω υ ε) (w : UseWatch υ ε) :
    Option (WatchLoop υ) → UseWatch υ ε → Option (WatchLoop υ) → Prop where
  | same : WatchMove opts w none w none
  | start (o : ω) : WatchMove opts w none (w.start opts o).1 (some (w.start opts o).2)
  | step {o o' : ω} {l : WatchLoop υ} {i : WatchInput} {w' : UseWatch υ ε} {after : WatchAfter υ} :
      LoopStep opts w o l i w' o' after → WatchMove opts w (some l) w' after.next
  | stop {c : Option (WatchLoop υ)} {w' : UseWatch υ ε} : WatchMove opts w c w' none →
      WatchMove opts w c w'.stop none

theorem WatchAfter.of_next {l' : WatchLoop υ} (h : after.next = some l') : after = .loop l' := by
  cases after <;> cases h
  rfl

namespace WatchMove
variable {c c' : Option (WatchLoop υ)} {d : WatchLoop υ}

theorem counters (h : WatchMove opts w c w' c') :
    w.generation ≤ w'.generation ∧ w.attempts ≤ w'.attempts := by
  induction h with
  | same => exact ⟨le_rfl, le_rfl⟩
  | start o => exact ⟨(Nat.le_succ _).trans (Nat.le_succ _), Nat.le_succ _⟩
  | step hstep => exact ⟨hstep.gen.1.ge, hstep.gen.2.1⟩
  | stop _ ih => exact ⟨ih.1.trans (Nat.le_succ _), ih.2⟩

theorem started (h : WatchMove opts w c w' c') (hc : ∀ l ∈ c, l.Started w) :
    ∀ l ∈ c', l.Started w' := by
  cases h with
  | start o =>
    intro l hl
    cases hl
    exact WatchLoop.Started.start_own w opts o
  | step hstep =>
    intro l hl
    cases WatchAfter.of_next hl
    exact (hc _ rfl).own hstep
  | _ => exact nofun

theorem numbered (h : WatchMove opts w c w' c') (hw : w.Numbered) (hc : ∀ l ∈ c, l.Started w) :
    w'.Numbered := by
  induction h with
  | same => exact hw
  | start o => exact hw.start opts o
  | step hstep => exact hstep.numbered hw (hc _ rfl)
  | stop _ ih => exact (ih hc).stop

/-- Two loops stay loops of different calls. -/
theorem apart (h : WatchMove opts w c w' c') (hd : d.Started w) (hcd : ∀ l ∈ c, l.gen ≠ d.gen) :
    ∀ l ∈ c', l.gen ≠ d.gen := by
  cases h with
  | start o =>
    intro l hl
    cases hl
    exact (hd.gen_ne_start opts o).symm
  | step hstep =>
    intro l hl
    rw [hstep.gen.2.2 l (WatchAfter.of_next hl)]
    exact hcd _ rfl
  | _ => exact nofun

theorem held (h : WatchMove opts w c w' c') (hw : w.Numbered) (hc : ∀ l ∈ c, l.Held w) :
    ∀ l ∈ c', l.Held w' := by
  cases h with
  | start o =>
    intro l hl
    cases hl
    exact WatchLoop.Held.start_own hw opts o
  | step hstep =>
    intro l hl
    cases WatchAfter.of_next hl
    exact (hc _ rfl).own hw hstep
  | _ => exact nofun

theorem held_other (h : WatchMove opts w c w' c') (hc : ∀ l ∈ c, l.Held w) (hd : d.Held w)
    (hcd : ∀ l ∈ c, l.gen ≠ d.gen) : d.Held w' := by
  induction h with
  | same => exact hd
  | start o => exact hd.start opts o
  | step hstep => exact (hc _ rfl).other hd (hcd _ rfl).symm hstep
  | stop _ ih => exact (ih hc hcd).stop

/-- No loop becomes current again. -/
theorem current (h : WatchMove opts w c w' c') (hd : d.gen ≤ w.generation)
    (hcurrent : w'.current d.gen = true) : w.current d.gen = true := by
  induction h with
  | same => exact hcurrent
  | start o =>
    have heq : d.gen = w.generation + 1 + 1 := (current_eq_true.mp hcurrent).2
    omega
  | step hstep =>
    by_contra hnot
    have hfalse := hstep.current (Bool.eq_false_of_not_eq_true hnot)
    exact Bool.false_ne_true (hfalse.symm.trans hcurrent)
  | stop _ _ => cases (current_eq_true.mp hcurrent).1

/-- Of the texts only that of a loop that is not aborted grows, and its own. -/
theorem texts (h : WatchMove opts w c w' c') : w'.texts = w.texts ∨
    ∃ l n text, c = some l ∧ l.pc.attempt = some n ∧ n ∉ w.aborted ∧
      w'.texts = Function.update w.texts n (w.texts n ++ text) := by
  induction h with
  | step hstep =>
    rcases hstep.texts with ⟨hsame, -⟩ | ⟨n, buffer, text, hpc, ha, -, htexts, -⟩
    · exact .inl hsame
    · exact .inr ⟨_, n, text, rfl, by rw [hpc]; rfl, ha, htexts⟩
  | stop _ ih => exact ih
  | _ => exact .inl rfl

theorem text (h : WatchMove opts w c w' c') (hw : w.Numbered)
    (hc : ∀ l ∈ c, TextHeld opts w l.pc) : ∀ l ∈ c', TextHeld opts w' l.pc := by
  cases h with
  | start o =>
    intro l hl
    cases hl
    apply textHeld_attempt
    exact hw.fresh _ le_rfl
  | step hstep =>
    intro l hl
    cases WatchAfter.of_next hl
    exact hstep.textHeld (hc _ rfl) (hw.fresh _ le_rfl)
  | _ => exact nofun

theorem text_other (h : WatchMove opts w c w' c') (hc : ∀ l ∈ c, l.Held w) (hd : d.Held w)
    (hcd : ∀ l ∈ c, l.gen ≠ d.gen) (htext : TextHeld opts w d.pc) : TextHeld opts w' d.pc := by
  refine textHeld_congr htext fun n hn => ?_
  rcases h.texts with hsame | ⟨l, m, text, hl, hm, ha, htexts⟩
  · rw [hsame]
  · have hne : n ≠ m := by
      rintro rfl
      have hcd' := hd.current (WatchPc.attempt_of_open hn) ha
      have hcc := (hc l hl).current hm ha
      exact hcd l hl ((current_eq_true.mp hcc).2.trans (current_eq_true.mp hcd').2.symm)
    rw [htexts, Function.update_of_ne hne]

end WatchMove

/-- A program some of whose threads run the loops of one watch. -/
structure WatchHost {σ τ β η : Type*} (opts : UseWatchOptions ω υ ε) (P : Program σ τ β η) where
  watch : σ → UseWatch υ ε
  loop : τ → Option (WatchLoop υ)
  start : ∀ b, loop (P.start b) = none
  move : ∀ s c e s' c', P.op s c e = some (s', c') →
    WatchMove opts (watch s) (loop c) (watch s') (loop c')

namespace WatchHost
variable {σ τ β η : Type*} {P : Program σ τ β η} (H : WatchHost opts P) {p₀ p : Pool σ τ}

/-- Nothing has been started. -/
def Fresh (p₀ : Pool σ τ) : Prop :=
  (H.watch p₀.shared).Numbered ∧ ∀ c ∈ p₀.threads, H.loop c = none

def Started (s : σ) (c : τ) : Prop := ∀ l ∈ H.loop c, l.Started (H.watch s)

def Held (s : σ) (c : τ) : Prop := ∀ l ∈ H.loop c, l.Held (H.watch s)

def Text (s : σ) (c : τ) : Prop := ∀ l ∈ H.loop c, TextHeld opts (H.watch s) l.pc

/-- Different loops were started by different calls. -/
def Apart (c d : τ) : Prop := ∀ l ∈ H.loop c, ∀ m ∈ H.loop d, l.gen ≠ m.gen

variable {H}

theorem apart_symm (c d : τ) (h : H.Apart c d) : H.Apart d c :=
  fun l hl m hm => (h m hm l hl).symm

theorem started_init (h₀ : H.Fresh p₀) : ∀ c ∈ p₀.threads, H.Started p₀.shared c := by
  intro c hc l hl
  rw [h₀.2 c hc] at hl
  cases hl

theorem started (h₀ : H.Fresh p₀) (hp : (P.pool p₀).Reachable p) :
    ∀ c ∈ p.threads, H.Started p.shared c := by
  refine Program.forall_threads_stable (started_init h₀) (fun s b l hl => ?_) ?_ ?_ hp
  · rw [H.start b] at hl
    cases hl
  · intro s c e s' c' hI hop
    exact (H.move s c e s' c' hop).started hI
  · intro s c e s' c' d hI hop l hl
    have hcounters := (H.move s c e s' c' hop).counters
    exact (hI l hl).mono hcounters.1 hcounters.2

theorem numbered (h₀ : H.Fresh p₀) (hp : (P.pool p₀).Reachable p) :
    (H.watch p.shared).Numbered := by
  refine Program.shared_invariant (I := H.Started) (J := fun s => (H.watch s).Numbered)
    (fun p => started h₀) h₀.1 ?_ hp
  intro s c e s' c' hstarted hw hop
  exact (H.move s c e s' c' hop).numbered hw hstarted

theorem apart (h₀ : H.Fresh p₀) (hp : (P.pool p₀).Reachable p) : p.threads.Pairwise H.Apart := by
  refine Program.pairwise_threads (I := H.Started) apart_symm (fun p => started h₀) ?_
    (fun b d l _ m hm => ?_) ?_ hp
  · refine List.pairwise_of_forall_mem_list fun c hc d hd l hl => ?_
    rw [h₀.2 c hc] at hl
    cases hl
  · rw [H.start b] at hm
    cases hm
  · intro s c e s' c' d _ hd hcd hop l hl m hm
    exact (H.move s c e s' c' hop).apart (hd m hm) (fun k hk => hcd k hk m hm) l hl

theorem held (h₀ : H.Fresh p₀) (hp : (P.pool p₀).Reachable p) :
    ∀ c ∈ p.threads, H.Held p.shared c := by
  refine Program.forall_threads_apart (K := fun s _ => (H.watch s).Numbered) apart_symm
    (fun p => apart h₀) (fun _ hp _ _ => numbered h₀ hp) (fun c hc l hl => ?_)
    (fun s b l hl => ?_) ?_ ?_ hp
  · rw [h₀.2 c hc] at hl
    cases hl
  · rw [H.start b] at hl
    cases hl
  · intro s c e s' c' hw hI hop
    exact (H.move s c e s' c' hop).held hw hI
  · intro s c e s' c' d _ _ hcd hc hd hop l hl
    exact (H.move s c e s' c' hop).held_other hc (hd l hl) fun k hk => hcd k hk l hl

theorem text (h₀ : H.Fresh p₀) (hp : (P.pool p₀).Reachable p) :
    ∀ c ∈ p.threads, H.Text p.shared c := by
  refine Program.forall_threads_apart (K := fun s c => (H.watch s).Numbered ∧ H.Held s c)
    apart_symm (fun p => apart h₀) (fun _ hp c hc => ⟨numbered h₀ hp, held h₀ hp c hc⟩)
    (fun c hc l hl => ?_) (fun s b l hl => ?_) ?_ ?_ hp
  · rw [h₀.2 c hc] at hl
    cases hl
  · rw [H.start b] at hl
    cases hl
  · intro s c e s' c' hK hI hop
    exact (H.move s c e s' c' hop).text hK.1 hI
  · intro s c e s' c' d hKc hKd hcd _ hd hop l hl
    exact (H.move s c e s' c' hop).text_other hKc.2 (hKd.2 l hl) (fun k hk => hcd k hk l hl) (hd l hl)

/-- At most one loop is current. -/
theorem current_unique (h₀ : H.Fresh p₀) (hp : (P.pool p₀).Reachable p) {i j : ℕ}
    (hi : i < p.threads.length) (hj : j < p.threads.length) {l m : WatchLoop υ}
    (hl : H.loop p.threads[i] = some l) (hm : H.loop p.threads[j] = some m)
    (hcl : (H.watch p.shared).current l.gen = true)
    (hcm : (H.watch p.shared).current m.gen = true) : i = j := by
  by_contra hij
  have hapart := Program.apart_of_ne apart_symm (apart h₀ hp) hi hj hij
  exact hapart l hl m hm ((current_eq_true.mp hcl).2.trans (current_eq_true.mp hcm).2.symm)

end WatchHost

end KubeConsole.Web
