import KubeConsole.Web.WatchLoop

/-!
What a watch delivers: of each attempt the events that its text has before the first ERROR
frame, however the text was cut, and nothing once the attempt is superseded.
-/
namespace KubeConsole.Web
open KubeConsole.Theory

variable {ω υ ε : Type*} {opts : UseWatchOptions ω υ ε} {w w' : UseWatch υ ε} {o o' : ω}
  {l l' : WatchLoop υ} {i : WatchInput} {after : WatchAfter υ}

/-! ## Every interleaving -/

def WatchThread.loop : WatchThread υ → Option (WatchLoop υ)
  | .running l => some l
  | _ => none

/-- The thread of a loop after one of its steps. -/
def WatchAfter.thread : WatchAfter υ → WatchThread υ
  | .loop l => .running l
  | .ended | .stale => .returned

inductive WatchOp (opts : UseWatchOptions ω υ ε) (s : UseWatch υ ε × ω) :
    WatchThread υ → WatchEventIn ω → UseWatch υ ε × ω → WatchThread υ → Prop where
  | stop : WatchOp opts s .page .stop (s.1.stop, s.2) .page
  | owner (o : ω) : WatchOp opts s .page (.owner o) (s.1, o) .page
  | start : WatchOp opts s .called (.input .run) ((s.1.start opts s.2).1, s.2)
      (.running (s.1.start opts s.2).2)
  | loop {l : WatchLoop υ} {i : WatchInput} {w' : UseWatch υ ε} {o' : ω} {after : WatchAfter υ} :
      LoopStep opts s.1 s.2 l i w' o' after →
      WatchOp opts s (.running l) (.input i) (w', o') after.thread

theorem watch_op {s s' : UseWatch υ ε × ω} {c c' : WatchThread υ} {e : WatchEventIn ω}
    (h : UseWatch.op opts s c e = some (s', c')) : WatchOp opts s c e s' c' := by
  cases c with
  | page =>
    cases e with
    | stop =>
      cases h
      exact .stop
    | owner o =>
      cases h
      exact .owner o
    | input i => cases h
  | called =>
    cases e with
    | input i =>
      cases i with
      | run =>
        cases h
        exact .start
      | _ => cases h
    | _ => cases h
  | running l =>
    cases e with
    | input i =>
      obtain ⟨⟨w', o', after⟩, hstep, heq⟩ := Option.map_eq_some_iff.mp h
      cases heq
      have hloop := WatchOp.loop (loop_step hstep)
      cases after <;> exact hloop
    | _ => cases h
  | returned => cases h

theorem WatchAfter.loop_thread : after.thread.loop = after.next := by
  cases after <;> rfl

theorem WatchAfter.of_thread {l' : WatchLoop υ} (h : after.thread.loop = some l') :
    after = .loop l' :=
  WatchAfter.of_next (WatchAfter.loop_thread.symm.trans h)

/-- The watch of the composable, and the loops of its threads. -/
def watchingHost (opts : UseWatchOptions ω υ ε) : WatchHost opts (useWatch opts) where
  watch := Prod.fst
  loop := WatchThread.loop
  start _ := rfl
  move s c e s' c' hop := by
    cases watch_op hop with
    | stop => exact .stop .same
    | owner o => exact .same
    | start => exact .start s.2
    | loop hstep =>
      rw [WatchAfter.loop_thread]
      exact .step hstep

section
variable {o₀ : ω} {p : Pool (UseWatch υ ε × ω) (WatchThread υ)}

theorem watching_fresh : (watchingHost opts).Fresh ⟨({}, o₀), [.page]⟩ :=
  ⟨⟨nofun, nofun, fun _ _ => rfl⟩, fun c hc => by rw [List.mem_singleton.mp hc]; rfl⟩

theorem loops_held (hp : (watching opts o₀).Reachable p) :
    ∀ c ∈ p.threads, (watchingHost opts).Held p.shared c :=
  WatchHost.held watching_fresh hp

/-! ## What is delivered -/

/-- The events of an attempt that reached `onEvent`. -/
def UseWatch.deliveredOf (w : UseWatch υ ε) (n : ℕ) : List ε :=
  (w.delivered.filter (·.1 = n)).map (·.2)

theorem deliveredOf_append {n m : ℕ} (events : List ε)
    (h : w'.delivered = w.delivered ++ events.map (m, ·)) :
    w'.deliveredOf n = w.deliveredOf n ++ if m = n then events else [] := by
  unfold UseWatch.deliveredOf
  rw [h, List.filter_append, List.map_append]
  congr 1
  split_ifs with hm
  · subst hm
    clear h
    induction events with
    | nil => rfl
    | cons e events ih => simpa using ih
  · simp [hm]

theorem delivered_eq_eventsOf (hp : (watching opts o₀).Reachable p) (n : ℕ) :
    p.shared.1.deliveredOf n = eventsOf opts.parse (complete (p.shared.1.texts n)) := by
  revert n
  refine Program.shared_invariant (I := (watchingHost opts).Text)
    (J := fun s => ∀ n, s.1.deliveredOf n = eventsOf opts.parse (complete (s.1.texts n)))
    (fun p => WatchHost.text watching_fresh) (fun n => rfl) ?_ hp
  intro s c e s' c' htext hdelivered hop n
  cases watch_op hop with
  | loop hstep =>
    rcases hstep.texts with ⟨htexts, hsame⟩ | ⟨m, buffer, text, hpc, -, -, htexts, hfed⟩
    · simp only [UseWatch.deliveredOf, hsame, htexts]
      exact hdelivered n
    · have hheld : TextHeld opts s.1 (.reading m buffer) := hpc ▸ htext _ rfl
      rw [deliveredOf_append _ hfed, htexts, hdelivered n]
      split_ifs with hm
      · subst hm
        rw [Function.update_self, (textHeld_feed _ hheld).2.2.1]
      · rw [Function.update_of_ne (fun h => hm h.symm), List.append_nil]
  | _ => exact hdelivered n

/-! ## Superseded attempts -/

/-- The loops that have one of the first `k` attempts in hand will find it aborted. -/
def AbortedBelow (k : ℕ) (s : UseWatch υ ε × ω) (c : WatchThread υ) : Prop :=
  ∀ l, c.loop = some l → ∀ n, l.pc.attempt = some n → n < k → n ∈ s.1.aborted

section
variable {k : ℕ} {q r : Pool (UseWatch υ ε × ω) (WatchThread υ)}

theorem attempts_ge (hk : k ≤ q.shared.1.attempts) (hr : ((useWatch opts).pool q).Reachable r) :
    k ≤ r.shared.1.attempts := by
  refine Program.shared_invariant (I := fun _ _ => True) (J := fun s => k ≤ s.1.attempts)
    (fun _ _ _ _ => trivial) hk ?_ hr
  intro s c e s' c' _ hle hop
  cases watch_op hop with
  | start => exact hle.trans (Nat.le_succ _)
  | loop hstep => exact hle.trans hstep.gen.2.1
  | _ => exact hle

theorem abortedBelow_threads (hk : k ≤ q.shared.1.attempts)
    (hq : ∀ c ∈ q.threads, AbortedBelow k q.shared c)
    (hr : ((useWatch opts).pool q).Reachable r) : ∀ c ∈ r.threads, AbortedBelow k r.shared c := by
  refine Program.forall_threads_apart (R := fun _ _ => True) (K := fun s _ => k ≤ s.1.attempts)
    (fun _ _ h => h) (fun r _ => List.pairwise_of_forall fun _ _ => trivial)
    (fun _ hr _ _ => attempts_ge hk hr) hq (fun s b => nofun) ?_ ?_ hr
  · intro s c e s' c' hle hI hop l hl n hn hlt
    cases watch_op hop with
    | start =>
      cases hl
      have heq : s.1.attempts = n := by
        simp only [UseWatch.start, UseWatch.attempt, UseWatch.stop] at hn
        cases hurl : opts.buildUrl s.2 <;> rw [hurl] at hn <;> cases hn <;> rfl
      omega
    | loop hstep =>
      cases WatchAfter.of_thread hl
      rcases hstep.attempt hn with ⟨hback, -, haborted, -⟩ | ⟨-, -, heq, -⟩
      · rw [haborted]
        exact hI _ rfl n hback hlt
      · omega
    | _ => cases hl
  · intro s c e s' c' d _ _ _ _ hd hop l hl n hn hlt
    have haborted := hd l hl n hn hlt
    cases watch_op hop with
    | stop => exact List.mem_append_right _ haborted
    | owner o => exact haborted
    | start => exact List.mem_append_right _ haborted
    | loop hstep => exact hstep.aborted_subset haborted

/-- Attempts that are aborted in every hand deliver nothing and send nothing any more. -/
theorem aborted_silent (hk : k ≤ q.shared.1.attempts)
    (hq : ∀ c ∈ q.threads, AbortedBelow k q.shared c)
    (hr : ((useWatch opts).pool q).Reachable r) :
    (∀ n < k, r.shared.1.deliveredOf n = q.shared.1.deliveredOf n) ∧
      r.shared.1.requests.filter (·.1 < k) = q.shared.1.requests.filter (·.1 < k) := by
  refine Program.shared_invariant (I := AbortedBelow k)
    (J := fun s => (∀ n < k, s.1.deliveredOf n = q.shared.1.deliveredOf n) ∧
      s.1.requests.filter (·.1 < k) = q.shared.1.requests.filter (·.1 < k))
    (fun r hr => abortedBelow_threads hk hq hr) ⟨fun _ _ => rfl, rfl⟩ ?_ hr
  intro s c e s' c' hbelow ⟨hdelivered, hrequests⟩ hop
  cases watch_op hop with
  | loop hstep =>
    constructor
    · intro n hn
      rcases hstep.texts with ⟨-, hsame⟩ | ⟨m, buffer, text, hpc, ha, -, -, hfed⟩
      · simp only [UseWatch.deliveredOf, hsame]
        exact hdelivered n hn
      · have hne : m ≠ n := by
          rintro rfl
          exact ha (hbelow _ rfl m (by rw [hpc]; rfl) hn)
        rw [deliveredOf_append _ hfed, if_neg hne, List.append_nil]
        exact hdelivered n hn
    · rcases hstep.requests with hsame | ⟨n, url, hpc, ha, hsent⟩
      · rw [hsame]
        exact hrequests
      · have hge : ¬ n < k := fun hlt => ha (hbelow _ rfl n (by rw [hpc]; rfl) hlt)
        rw [hsent, List.filter_append, hrequests]
        simp [hge]
  | _ => exact ⟨hdelivered, hrequests⟩

end

/-- The page calls `stop`, or a call of `start` takes effect. -/
def Supersedes : WatchThread υ → WatchEventIn ω → Prop
  | .page, .stop | .called, .input .run => True
  | _, _ => False

theorem abortedBelow_of_supersedes (hp : (watching opts o₀).Reachable p)
    {q : Pool (UseWatch υ ε × ω) (WatchThread υ)} {i : ℕ} {e : WatchEventIn ω}
    (hs : ∀ c ∈ p.threads[i]?, Supersedes c e)
    (hq : (watching opts o₀).step p (.act i e) = some q) :
    p.shared.1.attempts ≤ q.shared.1.attempts ∧
      ∀ c ∈ q.threads, AbortedBelow p.shared.1.attempts q.shared c := by
  have hheld := loops_held (hp.next hq)
  obtain ⟨hi, s', c', hop, rfl⟩ := Program.act_eq_some hq
  have hcontroller : p.shared.1.attempts ≤ s'.1.attempts ∧
      ∀ n ∈ s'.1.controller, p.shared.1.attempts ≤ n := by
    have hsup := hs p.threads[i] (by simp [hi])
    generalize p.threads[i] = c at hsup hop
    cases watch_op hop with
    | stop => exact ⟨le_rfl, nofun⟩
    | start =>
      refine ⟨Nat.le_succ _, fun n hn => ?_⟩
      cases hn
      exact le_rfl
    | owner o => exact hsup.elim
    | loop hstep => exact hsup.elim
  refine ⟨hcontroller.1, fun c hc l hl n hn hlt => ?_⟩
  by_contra ha
  have hcurrent := (hheld c hc l hl).current hn ha
  have hle := hcontroller.2 n ((hheld c hc l hl).controller n hn hcurrent).1
  omega

/-- A loop that is not current never becomes so. -/
theorem superseded_forever {g : ℕ} {q r : Pool (UseWatch υ ε × ω) (WatchThread υ)}
    (hle : g ≤ q.shared.1.generation) (hg : q.shared.1.current g = false)
    (hr : ((useWatch opts).pool q).Reachable r) : r.shared.1.current g = false := by
  have hboth : g ≤ r.shared.1.generation ∧ r.shared.1.current g = false := by
    refine Program.shared_invariant (I := fun _ _ => True)
      (J := fun s => g ≤ s.1.generation ∧ s.1.current g = false)
      (fun _ _ _ _ => trivial) ⟨hle, hg⟩ ?_ hr
    intro s c e s' c' _ ⟨hle, hg⟩ hop
    cases watch_op hop with
    | stop => exact ⟨hle.trans (Nat.le_succ _), rfl⟩
    | owner o => exact ⟨hle, hg⟩
    | start =>
      have hlt : g < s.1.generation + 1 + 1 := by omega
      refine ⟨hlt.le, ?_⟩
      rw [Bool.eq_false_iff]
      intro hcurrent
      exact hlt.ne (current_eq_true.mp hcurrent).2
    | loop hstep => exact ⟨hstep.gen.1 ▸ hle, hstep.current hg⟩
  exact hboth.2

theorem backoffMs_delay (hp : (watching opts o₀).Reachable p) : Delay p.shared.1.backoffMs := by
  refine Program.shared_invariant (I := fun _ _ => True) (J := fun s => Delay s.1.backoffMs)
    (fun _ _ _ _ => trivial) delay_initial ?_ hp
  intro s c e s' c' _ hw hop
  cases watch_op hop with
  | stop => exact hw
  | owner o => exact hw
  | start => exact delay_initial
  | loop hstep => exact (hstep.delay hw).1

theorem loops_delay (hp : (watching opts o₀).Reachable p) :
    ∀ c ∈ p.threads, ∀ l ms, c.loop = some l → l.pc = .backoff ms → Delay ms := by
  refine Program.forall_threads_apart (R := fun _ _ => True) (K := fun s _ => Delay s.1.backoffMs)
    (I := fun _ c => ∀ l ms, c.loop = some l → l.pc = .backoff ms → Delay ms)
    (fun _ _ h => h) (fun r _ => List.pairwise_of_forall fun _ _ => trivial)
    (fun _ hp _ _ => backoffMs_delay hp) ?_ (fun s b => nofun) ?_ ?_ hp
  · simp [WatchThread.loop]
  · intro s c e s' c' hw _ hop l ms hl hms
    cases watch_op hop with
    | start =>
      cases hl
      simp only [UseWatch.start, UseWatch.attempt] at hms
      split at hms <;> cases hms
    | loop hstep => exact (hstep.delay hw).2 l ms (WatchAfter.of_thread hl) hms
    | _ => cases hl
  · intro s c e s' c' d _ _ _ _ hd _
    exact hd

/-- A chunk that arrives for a current loop is read to its end, and the loop goes on reading
unless it had an ERROR frame. -/
theorem chunk_read (hp : (watching opts o₀).Reachable p) {i n : ℕ} {buffer text : JStr}
    (hl : p.threads[i]? = some (.running l)) (hpc : l.pc = .reading n buffer)
    (hcurrent : p.shared.1.current l.gen = true) :
    ∃ q, (watching opts o₀).step p (.act i (.input (.chunk text))) = some q ∧
      q.shared.1.texts n = p.shared.1.texts n ++ text ∧
      (firstError opts.parse (complete (q.shared.1.texts n)) = none →
        q.threads[i]? = some (.running ⟨l.gen, .reading n (rest (q.shared.1.texts n))⟩)) := by
  obtain ⟨gen, pc⟩ := l
  cases hpc
  obtain ⟨hi, hget⟩ := List.getElem?_eq_some_iff.mp hl
  have hmem : WatchThread.running ⟨gen, .reading n buffer⟩ ∈ p.threads := List.mem_of_getElem? hl
  have ha : n ∉ p.shared.1.aborted := ((loops_held hp _ hmem _ rfl).controller n rfl hcurrent).2
  have hheld : TextHeld opts p.shared.1 (.reading n buffer) :=
    WatchHost.text watching_fresh hp _ hmem _ rfl
  obtain ⟨-, hrest, -, herror⟩ := textHeld_feed text hheld
  have hop : ∃ s' c', (useWatch opts).op p.shared (.running ⟨gen, .reading n buffer⟩)
      (.input (.chunk text)) = some (s', c') ∧
        s'.1.texts = Function.update p.shared.1.texts n (p.shared.1.texts n ++ text) ∧
        (firstError opts.parse (complete (buffer ++ text)) = none →
          c' = .running ⟨gen, .reading n (rest (buffer ++ text))⟩) := by
    simp only [useWatch, UseWatch.op, UseWatch.loopStep, if_neg ha, feed_spec, Option.map_some]
    refine ⟨_, _, rfl, rfl, fun hnone => ?_⟩
    rw [hnone]
    rfl
  obtain ⟨s', c', hstep, htexts, hnext⟩ := hop
  have hnow : s'.1.texts n = p.shared.1.texts n ++ text := by
    rw [htexts, Function.update_self]
  refine ⟨_, Program.act_of_op hl hstep, hnow, fun hnone => ?_⟩
  rw [hnow, herror] at hnone
  rw [hnext hnone, hnow, hrest]
  exact List.getElem?_set_self hi

/-- A request goes out only from a current loop. -/
theorem request_current (hp : (watching opts o₀).Reachable p)
    {q : Pool (UseWatch υ ε × ω) (WatchThread υ)} {i : ℕ} {e : WatchEventIn ω}
    (hq : (watching opts o₀).step p (.act i e) = some q) :
    q.shared.1.requests = p.shared.1.requests ∨
      ∃ l, p.threads[i]? = some (.running l) ∧ p.shared.1.current l.gen = true := by
  obtain ⟨hi, s', c', hop, rfl⟩ := Program.act_eq_some hq
  have hheld := loops_held hp _ (List.getElem_mem hi)
  have hget : p.threads[i]? = some p.threads[i] := List.getElem?_eq_getElem hi
  generalize p.threads[i] = c at hop hheld hget
  cases watch_op hop with
  | loop hstep =>
    rcases hstep.requests with hsame | ⟨n, url, hpc, ha, -⟩
    · exact .inl hsame
    · exact .inr ⟨_, hget, (hheld _ rfl).current (by rw [hpc]; rfl) ha⟩
  | _ => exact .inl rfl

/-- At most one loop is current. -/
theorem current_unique (hp : (watching opts o₀).Reachable p) {i j : ℕ} {l m : WatchLoop υ}
    (hl : p.threads[i]? = some (.running l)) (hm : p.threads[j]? = some (.running m))
    (hcl : p.shared.1.current l.gen = true) (hcm : p.shared.1.current m.gen = true) : i = j := by
  obtain ⟨hi, hgi⟩ := List.getElem?_eq_some_iff.mp hl
  obtain ⟨hj, hgj⟩ := List.getElem?_eq_some_iff.mp hm
  exact WatchHost.current_unique watching_fresh hp hi hj (hgi ▸ rfl) (hgj ▸ rfl) hcl hcm

/-- Whatever the chunks, and whatever calls of `start` and `stop`, responses and timers come
between them: each attempt has delivered the events of the terminated lines of its text
before the first ERROR frame, and a current loop reads on to that frame; the attempts that
a call supersedes deliver and request nothing more; one loop at most is current, only that
one sends requests, and one that is not never will be; the delays keep their bounds. -/
theorem watch_delivers (hp : (watching opts o₀).Reachable p) :
    (∀ n, p.shared.1.deliveredOf n = eventsOf opts.parse (complete (p.shared.1.texts n))) ∧
    (∀ i l n buffer text, p.threads[i]? = some (.running l) → l.pc = .reading n buffer →
      p.shared.1.current l.gen = true →
      ∃ q, (watching opts o₀).step p (.act i (.input (.chunk text))) = some q ∧
        q.shared.1.texts n = p.shared.1.texts n ++ text ∧
        (firstError opts.parse (complete (q.shared.1.texts n)) = none →
          q.threads[i]? = some (.running ⟨l.gen, .reading n (rest (q.shared.1.texts n))⟩))) ∧
    (∀ i e q r, (∀ c ∈ p.threads[i]?, Supersedes c e) →
      (watching opts o₀).step p (.act i e) = some q → ((useWatch opts).pool q).Reachable r →
      (∀ n < p.shared.1.attempts, r.shared.1.deliveredOf n = q.shared.1.deliveredOf n) ∧
      r.shared.1.requests.filter (·.1 < p.shared.1.attempts) =
        q.shared.1.requests.filter (·.1 < p.shared.1.attempts)) ∧
    (∀ (i j : ℕ) (l m : WatchLoop υ), p.threads[i]? = some (.running l) → p.threads[j]? = some (.running m) →
      p.shared.1.current l.gen = true → p.shared.1.current m.gen = true → i = j) ∧
    (∀ i e q, (watching opts o₀).step p (.act i e) = some q →
      q.shared.1.requests = p.shared.1.requests ∨
        ∃ l, p.threads[i]? = some (.running l) ∧ p.shared.1.current l.gen = true) ∧
    (∀ c ∈ p.threads, ∀ l r, c.loop = some l → p.shared.1.current l.gen = false →
      ((useWatch opts).pool p).Reachable r → r.shared.1.current l.gen = false) ∧
    (∀ c ∈ p.threads, ∀ l ms, c.loop = some l → l.pc = .backoff ms →
      1000 ≤ ms ∧ ms ≤ 30000) := by
  refine ⟨delivered_eq_eventsOf hp, fun i l n buffer text => chunk_read hp, ?_, ?_, ?_, ?_, ?_⟩
  · intro i e q r hs hq hr
    obtain ⟨hk, hbelow⟩ := abortedBelow_of_supersedes hp hs hq
    exact aborted_silent hk hbelow hr
  · exact fun i j l m => current_unique hp
  · exact fun i e q => request_current hp
  · intro c hc l r hl hcurrent hr
    exact superseded_forever (loops_held hp c hc l hl).gen_le hcurrent hr
  · exact loops_delay hp

end

/-- A watch of numbers: the line "0" is an ERROR frame, and what is longer is no JSON. -/
def digits : UseWatchOptions Unit Unit ℕ where
  buildUrl _ := some ()
  onEvent _ _ := ()
  parse line := match line with
    | [48] => .error (some 500)
    | [c] => .event (c.toNat - 48)
    | _ => .invalid

/-- Lines cut inside and between, an ERROR frame with a line behind it, a reconnect, and a
restart that leaves the old response a chunk late. -/
def recut : List (PoolAction Unit (WatchEventIn Unit)) :=
  [.spawn (), .act 1 (.input .run), .act 1 (.input .run), .act 1 (.input (.response true)),
    .act 1 (.input (.chunk (js "1\n\nno"))), .act 1 (.input (.chunk (js "pe\n2\r\n0\n3\n"))),
    .act 1 (.input .run), .act 1 (.input .run), .act 1 (.input .run),
    .act 1 (.input (.response true)), .act 1 (.input (.chunk (js "4\n5"))), .spawn (),
    .act 2 (.input .run), .act 1 (.input (.chunk (js "\n6\n")))]

theorem recut_runs : ((watching digits ()).exec ⟨({}, ()), [.page]⟩ recut).isSome := by
  decide +kernel

theorem watch_delivers_recut :
    ∃ p, (watching digits ()).exec ⟨({}, ()), [.page]⟩ recut = some p ∧
      p.shared.1.deliveredOf 0 = [1, 2] ∧ p.shared.1.deliveredOf 1 = [4] := by
  have hp := (Option.some_get recut_runs).symm
  have h := watch_delivers (Machine.Reachable.exec recut (Machine.Reach.init rfl) hp)
  refine ⟨_, hp, (h.1 0).trans ?_, (h.1 1).trans ?_⟩
  · decide +kernel
  · decide +kernel

end KubeConsole.Web
