import KubeConsole.Web.LogsStream

/-!
What the log viewer shows: at every flush the newest lines of what the current stream
has received, whatever the chunks, the reconnects and the superseded streams were.
-/
namespace KubeConsole.Web
open KubeConsole.Theory

/-- The `start()` a task belongs to. -/
def LogTask.gen : LogTask → Option ℕ
  | .fetching l _ | .reading l _ _ | .settled l _ | .waiting l _ _ _ => some l.gen
  | _ => none

/-- What an operation does. Only the task of the current generation touches the lines,
and apart from it only the page does. -/
inductive LogStep (s : Stream) : LogTask → Stream → LogTask → Prop where
  | stop : LogStep s .page s.stop .page
  | timer {gen : ℕ} (ht : s.timer = some gen) (hg : gen = s.generation) :
      LogStep s .page { s with timer := none }.flush .page
  | staleTimer : LogStep s .page { s with timer := none } .page
  | clock (ms : ℕ) : LogStep s .page { s with now := s.now + ms } .page
  | call {follow l} (hl : l.gen = s.generation + 1) :
      LogStep s (.called follow) (s.begin_.connect l .initial).1 (s.begin_.connect l .initial).2
  /-- A task of another generation may still deliver, and then settles. -/
  | stale {t} {l : Loop} (f) (ht : t.gen = some l.gen) (hl : l.gen ≠ s.generation) :
      LogStep s t (s.record l.gen f) (.settled l .aborted)
  | caught {t} {l : Loop} (a) (ht : t.gen = some l.gen) (hw : ∀ l u d m, t ≠ .waiting l u d m) :
      LogStep s t s (.settled l a)
  | returned {t} {l : Loop} (cancelRetry) (ht : t.gen = some l.gen) (hl : l.gen ≠ s.generation) :
      LogStep s t { s with cancelRetry } .returned
  | connected {l ctrl} (hl : l.gen = s.generation) : LogStep s (.fetching l ctrl)
      { s.record l.gen ({} :: ·) with reconnecting := none } (.reading l ctrl [])
  | noBody {l ctrl} (error) (hl : l.gen = s.generation) : LogStep s (.fetching l ctrl)
      { s.record l.gen ({} :: ·) with reconnecting := none, error } (.settled l .ended)
  | chunk {l ctrl buffer} (text : JStr) (hl : l.gen = s.generation) :
      LogStep s (.reading l ctrl buffer)
        ((s.record l.gen fun cs => cs.modifyHead fun c =>
          { c with text := c.text ++ text }).append (complete (buffer ++ text)))
        (.reading l ctrl (rest (buffer ++ text)))
  | done {l ctrl buffer} (hl : l.gen = s.generation) : LogStep s (.reading l ctrl buffer)
      ((s.record l.gen fun cs => cs.modifyHead fun c =>
        { c with clean := true }).append (if buffer ≠ [] then [buffer] else []))
      (.settled l .ended)
  | finish {l a} (error) (hl : l.gen = s.generation) : LogStep s (.settled l a)
      { ({ s with error } : Stream).flush with running := false, reconnecting := none } .returned
  | retry {l a} (delay reconnecting) (hl : l.gen = s.generation) : LogStep s (.settled l a)
      { s.flush with reconnecting, cancelRetry := some l.gen }
      (.waiting { l with delay } (s.now + delay) s.sinceLastLine s.now)
  | reconnect {l until_ since m} (cancelRetry delay) (hl : l.gen = s.generation) :
      LogStep s (.waiting l until_ since m)
        ({ s with cancelRetry }.connect { l with delay } (.resumed since m)).1
        ({ s with cancelRetry }.connect { l with delay } (.resumed since m)).2

variable {s s' : Stream} {t t' d : LogTask}

theorem LogStep.of_eq {r : Stream × LogTask} (hr : LogStep s t r.1 r.2)
    (h : some r = some (s', t')) : LogStep s t s' t' := by
  obtain rfl := Option.some.inj h
  exact hr

theorem finish_stale {l : Loop} (hl : l.gen ≠ s.generation) : s.finish l = (s, .returned) := by
  rw [Stream.finish, if_neg hl]

theorem finish_step {l : Loop} {a : Attempt} (error : Option JStr)
    (h : l.gen = s.generation ∨ error = s.error) :
    LogStep s (.settled l a) ({ s with error }.finish l).1 ({ s with error }.finish l).2 := by
  by_cases hl : l.gen = s.generation
  · have hf : { s with error }.finish l =
        ({ ({ s with error } : Stream).flush with running := false, reconnecting := none },
          .returned) := by
      rw [Stream.finish, if_pos hl]
    rw [hf]
    exact .finish error hl
  · obtain rfl := h.resolve_left hl
    show LogStep s _ (s.finish l).1 (s.finish l).2
    rw [finish_stale hl]
    exact .returned s.cancelRetry rfl hl

theorem retry_step {l : Loop} {a : Attempt} {e : Thrown} {resumes : Bool}
    (hl : l.gen = s.generation) :
    LogStep s (.settled l a) (s.retry l e resumes).1 (s.retry l e resumes).2 := by
  unfold Stream.retry
  split_ifs
  · exact finish_step _ (.inl hl)
  · exact .retry _ _ hl
  · exact .retry _ _ hl

/-- The inversion lemma of the stream's operations. -/
theorem logs_op_step {e : LogEvent} (h : s.op t e = some (s', t')) : LogStep s t s' t' := by
  unfold Stream.op at h
  split at h
  case h_1 => cases h; exact .stop
  case h_2 =>
    obtain ⟨gen, hgen, heq⟩ := Option.map_eq_some_iff.mp h
    cases heq
    split_ifs with hg
    · exact .timer hgen hg
    · exact .staleTimer
  case h_3 ms => cases h; exact .clock ms
  case h_4 => cases h; exact .call rfl
  case h_5 l ctrl body =>
    simp only at h
    split_ifs at h with hl hb <;> cases h
    · exact .stale _ rfl hl
    · exact .connected (not_not.mp hl)
    · exact .noBody _ (not_not.mp hl)
  case h_6 => cases h; exact .caught _ rfl nofun
  case h_7 l ctrl buffer text =>
    simp only at h
    split_ifs at h with hl <;> cases h
    · exact .stale _ rfl hl
    · exact .chunk text (not_not.mp hl)
  case h_8 l ctrl buffer =>
    simp only at h
    split at h
    next hl => exact (@LogStep.stale s _ l _ rfl hl).of_eq h
    next hl =>
      refine LogStep.of_eq ?_ h
      have hd := @LogStep.done s l ctrl buffer (not_not.mp hl)
      by_cases hb : buffer = []
      · simpa [hb, Stream.append] using hd
      · simpa [hb] using hd
  case h_9 => cases h; exact .caught _ rfl nofun
  case h_10 l a resumes =>
    by_cases hl : l.gen = s.generation
    · rw [if_neg (not_not.mpr hl)] at h
      split at h
      · exact (finish_step s.error (.inl hl)).of_eq h
      · exact (finish_step s.error (.inl hl)).of_eq h
      · exact (retry_step hl).of_eq h
    · rw [if_pos hl] at h
      exact (finish_step s.error (.inr rfl)).of_eq h
  case h_11 l until_ since m =>
    by_cases hw : (until_ ≤ s.now || s.cancelRetry ≠ some l.gen) = true
    · rw [if_pos hw] at h
      by_cases hl : l.gen = s.generation
      · simp only [if_neg (not_not.mpr hl)] at h
        exact (LogStep.reconnect _ _ hl).of_eq h
      · simp only [if_pos hl] at h
        refine LogStep.of_eq ?_ (h.symm.trans (congrArg some (finish_stale hl))).symm
        exact .returned _ rfl hl
    · rw [if_neg hw] at h
      cases h
  case h_12 => cases h

/-! Which fields the updates of the buffers leave alone. -/

section Fields
variable (s : Stream) (newLines : List JStr)

@[simp] theorem flush_generation : s.flush.generation = s.generation := by
  unfold Stream.flush; split_ifs <;> rfl

@[simp] theorem flush_current : s.flush.current = s.current := by
  unfold Stream.flush; split_ifs <;> rfl

@[simp] theorem flush_delivered : s.flush.delivered = s.delivered := by
  unfold Stream.flush; split_ifs <;> rfl

@[simp] theorem flush_lastLineAt : s.flush.lastLineAt = s.lastLineAt := by
  unfold Stream.flush; split_ifs <;> rfl

@[simp] theorem flush_now : s.flush.now = s.now := by
  unfold Stream.flush; split_ifs <;> rfl

@[simp] theorem flush_requests : s.flush.requests = s.requests := by
  unfold Stream.flush; split_ifs <;> rfl

@[simp] theorem flush_pending : s.flush.pending = [] := by
  unfold Stream.flush; split_ifs with h
  · exact h
  · rfl

@[simp] theorem append_generation : (s.append newLines).generation = s.generation := by
  unfold Stream.append; split_ifs <;> rfl

@[simp] theorem append_current : (s.append newLines).current = s.current := by
  unfold Stream.append; split_ifs <;> rfl

@[simp] theorem append_delivered : (s.append newLines).delivered = s.delivered := by
  unfold Stream.append; split_ifs <;> rfl

@[simp] theorem append_now : (s.append newLines).now = s.now := by
  unfold Stream.append; split_ifs <;> rfl

@[simp] theorem append_requests : (s.append newLines).requests = s.requests := by
  unfold Stream.append; split_ifs <;> rfl

@[simp] theorem append_lines : (s.append newLines).lines = s.lines := by
  unfold Stream.append; split_ifs <;> rfl

@[simp] theorem append_linesVersion : (s.append newLines).linesVersion = s.linesVersion := by
  unfold Stream.append; split_ifs <;> rfl

@[simp] theorem append_dropped : (s.append newLines).dropped = s.dropped := by
  unfold Stream.append; split_ifs <;> rfl

@[simp] theorem append_shown : (s.append newLines).shown = s.shown := by
  unfold Stream.append; split_ifs <;> rfl

theorem append_lastLineAt :
    (s.append newLines).lastLineAt = if newLines = [] then s.lastLineAt else some s.now := by
  unfold Stream.append; split_ifs <;> rfl

end Fields

/-! Whose task the current one is, and what it knows. -/

/-- Two tasks do not run for the same `start()`. -/
def Apart (c d : LogTask) : Prop := ∀ gen, c.gen = some gen → d.gen ≠ some gen

/-- A task stays in its generation or ends; a new one is newer than all others. -/
theorem LogStep.generations (h : LogStep s t s' t') :
    (s'.generation = s.generation ∧ s'.current = s.current ∧
      ∀ gen, t'.gen = some gen → t.gen = some gen) ∨
    (s'.generation = s.generation + 1 ∧
      ∀ gen, t'.gen = some gen → gen = s'.generation ∧ s'.current = some gen) := by
  cases h with
  | stop => exact .inr ⟨rfl, nofun⟩
  | call hl =>
    refine .inr ⟨rfl, fun gen hg => ?_⟩
    obtain rfl := (Option.some.inj hg).symm.trans hl
    exact ⟨rfl, rfl⟩
  | timer => exact .inl ⟨flush_generation _, flush_current _, nofun⟩
  | finish => exact .inl ⟨flush_generation _, flush_current _, nofun⟩
  | retry => exact .inl ⟨flush_generation _, flush_current _, fun _ hg => hg⟩
  | chunk => exact .inl ⟨append_generation _ _, append_current _ _, fun _ hg => hg⟩
  | done => exact .inl ⟨append_generation _ _, append_current _ _, fun _ hg => hg⟩
  | stale f ht => exact .inl ⟨rfl, rfl, fun _ hg => ht.trans hg⟩
  | caught a ht => exact .inl ⟨rfl, rfl, fun _ hg => ht.trans hg⟩
  | staleTimer | clock | returned => exact .inl ⟨rfl, rfl, nofun⟩
  | connected | noBody | reconnect => exact .inl ⟨rfl, rfl, fun _ hg => hg⟩

variable {p : Pool Stream LogTask}

theorem gen_le (hp : logsStream.Reachable p) :
    ∀ t ∈ p.threads, ∀ gen, t.gen = some gen → gen ≤ p.shared.generation := by
  refine Program.forall_threads_stable
    (I := fun s t => ∀ gen, t.gen = some gen → gen ≤ s.generation) ?_ ?_ ?_ ?_ hp
  · simp [LogTask.gen]
  · intro s b gen h
    cases h
  · intro s t e s' t' hI ho gen hg
    rcases (logs_op_step ho).generations with ⟨hs, -, ht⟩ | ⟨hs, ht⟩
    · rw [hs]
      exact hI gen (ht gen hg)
    · exact (ht gen hg).1.le
  · intro s t e s' t' d hI ho gen hg
    have hle := hI gen hg
    rcases (logs_op_step ho).generations with ⟨hs, -⟩ | ⟨hs, -⟩ <;> omega

theorem apart (hp : logsStream.Reachable p) : p.threads.Pairwise Apart := by
  refine Program.pairwise_threads (I := fun s t => ∀ gen, t.gen = some gen → gen ≤ s.generation)
    (fun c d h gen hd hc => h gen hc hd) (fun p hp => gen_le hp) (by simp) ?_ ?_ hp
  · intro b d gen _ h
    cases h
  · intro s t e s' t' d _ hd hR ho gen hg hdg
    rcases (logs_op_step ho).generations with ⟨-, -, ht⟩ | ⟨hs, ht⟩
    · exact hR gen (ht gen hg) hdg
    · have hle := hd gen hdg
      have heq := (ht gen hg).1
      omega

/-- No line arrived later than now. -/
theorem lastLineAt_le (hp : logsStream.Reachable p) :
    ∀ at_ ∈ p.shared.lastLineAt, at_ ≤ p.shared.now := by
  refine Program.shared_invariant (I := fun _ _ => True)
    (J := fun s => ∀ at_ ∈ s.lastLineAt, at_ ≤ s.now) (fun _ _ _ _ => trivial) nofun ?_ hp
  intro s t e s' t' _ hJ ho
  have hadd (f gen) (newLines : List JStr) :
      ∀ at_ ∈ ((s.record gen f).append newLines).lastLineAt, at_ ≤ s.now := by
    rw [append_lastLineAt]
    split_ifs
    · exact hJ
    · rintro at_ ⟨⟩
      exact le_rfl
  cases logs_op_step ho with
  | stop | staleTimer | stale | caught | returned | connected | noBody | reconnect => exact hJ
  | timer | finish | retry => simpa using hJ
  | clock ms => exact fun at_ ha => (hJ at_ ha).trans (Nat.le_add_right _ _)
  | call => exact nofun
  | chunk => simpa [Stream.record] using hadd _ _ _
  | done => simpa [Stream.record] using hadd _ _ _

/-- What a task knows at its await: a read has cut the text of its connection at the last
newline; a wait has measured its window when the failure came, after the last line. -/
def LogTask.Live (s : Stream) : LogTask → Prop
  | .reading l _ buffer =>
    ∃ c cs, s.delivered l.gen = c :: cs ∧ c.clean = false ∧ buffer = rest c.text
  | .waiting l _ since m => l.gen = s.generation →
    m ≤ s.now ∧ since = s.lastLineAt.map (fun at_ => (m - at_ + 999) / 1000 + 1) ∧
      ∀ at_ ∈ s.lastLineAt, at_ ≤ m
  | _ => True

/-- A task of the current generation runs for the stream that was started last. -/
def LogTask.Ok (s : Stream) (t : LogTask) : Prop :=
  (t.gen = some s.generation → s.current = some s.generation) ∧ t.Live s

/-- What a step leaves of the facts another task relies on. -/
theorem LogStep.frame (h : LogStep s t s' t') (hd : Apart t d) :
    (∀ gen, d.gen = some gen → s'.delivered gen = s.delivered gen) ∧ s.now ≤ s'.now ∧
      (s'.generation = s.generation → d.gen = some s.generation →
        s'.lastLineAt = s.lastLineAt) := by
  have hrec (gen : ℕ) (f) (ht : t.gen = some gen) (g : ℕ) (hg : d.gen = some g) :
      (s.record gen f).delivered g = s.delivered g := by
    refine Function.update_of_ne ?_ _ _
    rintro rfl
    exact hd _ ht hg
  have happ {l : Loop} (ht : t.gen = some l.gen) (hl : l.gen = s.generation) {X : Prop} :
      d.gen = some s.generation → X := fun hg => absurd (hl ▸ hg) (hd _ ht)
  cases h with
  | stop => exact ⟨fun _ _ => rfl, le_rfl, fun h => absurd h (Nat.succ_ne_self _)⟩
  | call => exact ⟨fun _ _ => rfl, le_rfl, fun h => absurd h (Nat.succ_ne_self _)⟩
  | timer | finish | retry => simp
  | staleTimer | caught | returned | reconnect => exact ⟨fun _ _ => rfl, le_rfl, fun _ _ => rfl⟩
  | clock => exact ⟨fun _ _ => rfl, Nat.le_add_right _ _, fun _ _ => rfl⟩
  | stale f ht => exact ⟨hrec _ _ ht, le_rfl, fun _ _ => rfl⟩
  | connected => exact ⟨hrec _ _ rfl, le_rfl, fun _ _ => rfl⟩
  | noBody => exact ⟨hrec _ _ rfl, le_rfl, fun _ _ => rfl⟩
  | chunk text hl =>
    refine ⟨fun g hg => ?_, by simp [Stream.record], fun _ => happ rfl hl⟩
    rw [append_delivered]
    exact hrec _ _ rfl g hg
  | done hl =>
    refine ⟨fun g hg => ?_, by simp [Stream.record], fun _ => happ rfl hl⟩
    rw [append_delivered]
    exact hrec _ _ rfl g hg

theorem LogStep.live (h : LogStep s t s' t') (hlast : ∀ at_ ∈ s.lastLineAt, at_ ≤ s.now)
    (ht : t.Live s) : t'.Live s' := by
  cases h with
  | connected => exact ⟨{}, _, Function.update_self _ _ _, rfl, rfl⟩
  | @chunk l ctrl buffer text =>
    obtain ⟨c, cs, hc, hopen, rfl⟩ := ht
    refine ⟨{ c with text := c.text ++ text }, cs, ?_, hopen, ((complete_rest_append _ _).2).symm⟩
    rw [append_delivered]
    exact (Function.update_self _ _ _).trans (by rw [hc]; rfl)
  | retry => exact fun _ => by simpa [Stream.sinceLastLine] using hlast
  | _ => trivial

theorem LogTask.Live.frame (hd : d.Live s)
    (hdel : ∀ gen, d.gen = some gen → s'.delivered gen = s.delivered gen) (hnow : s.now ≤ s'.now)
    (hlast : d.gen = some s'.generation → d.gen = some s.generation ∧ s'.lastLineAt = s.lastLineAt) :
    d.Live s' := by
  cases d with
  | reading l ctrl buffer =>
    obtain ⟨c, cs, hc, hopen, hb⟩ := hd
    exact ⟨c, cs, (hdel _ rfl).trans hc, hopen, hb⟩
  | waiting l until_ since m =>
    intro hl
    obtain ⟨hg, hlast⟩ := hlast (congrArg some hl)
    obtain ⟨hm, hs, hle⟩ := hd (Option.some.inj hg)
    rw [hlast]
    exact ⟨hm.trans hnow, hs, hle⟩
  | _ => trivial

theorem tasks_ok (hp : logsStream.Reachable p) : ∀ t ∈ p.threads, t.Ok p.shared := by
  refine Program.forall_threads_apart (I := fun s t => t.Ok s) (R := Apart)
    (K := fun s t => (∀ gen, t.gen = some gen → gen ≤ s.generation) ∧
      ∀ at_ ∈ s.lastLineAt, at_ ≤ s.now)
    (fun c d h gen hd hc => h gen hc hd) (fun p hp => apart hp)
    (fun p hp t ht => ⟨gen_le hp t ht, lastLineAt_le hp⟩) ?_ (fun s b => ⟨nofun, trivial⟩) ?_ ?_ hp
  · simp [LogTask.Ok, LogTask.gen, LogTask.Live]
  · intro s t e s' t' hK hI ho
    have h := logs_op_step ho
    refine ⟨fun hg => ?_, h.live hK.2 hI.2⟩
    rcases h.generations with ⟨hs, hcur, ht⟩ | ⟨hs, ht⟩
    · rw [hs] at hg ⊢
      exact hcur.trans (hI.1 (ht _ hg))
    · exact (ht _ hg).2
  · intro s t e s' t' d _ hK hR _ hI ho
    have h := logs_op_step ho
    obtain ⟨hdel, hnow, hsame⟩ := h.frame hR
    rcases h.generations with ⟨hs, hcur, -⟩ | ⟨hs, -⟩
    · rw [LogTask.Ok, hs]
      refine ⟨fun hg => hcur.trans (hI.1 hg), hI.2.frame hdel hnow fun hg => ?_⟩
      rw [hs] at hg
      exact ⟨hg, hsame hs hg⟩
    · -- no task is in the new generation yet
      have hnew : d.gen ≠ some s'.generation := fun hg => by
        have := hK.1 _ hg
        omega
      exact ⟨fun hg => absurd hg hnew, hI.2.frame hdel hnow fun hg => absurd hg hnew⟩

/-! The two buffers. -/

/-- The lines received are split in two: what has been flushed and what is staged, each
buffer keeping the newest of its part. -/
structure Buffered (s : Stream) (flushed staged : List JStr) : Prop where
  lines : s.lines = flushed.rtake maxLines
  pending : s.pending = staged.rtake maxLines
  truncated : s.truncated = true ↔ maxLines < flushed.length ∨ maxLines < staged.length

variable {a b : List JStr}

theorem trim_eq (buffer : List JStr) : Stream.trim buffer = buffer.rtake maxLines := rfl

theorem Buffered.staged_eq_nil (h : Buffered s a b) (hp : s.pending = []) : b = [] := by
  have hlen := length_rtake maxLines b
  rw [← h.pending, hp, List.length_nil] at hlen
  have hmax := maxLines_pos
  exact List.eq_nil_of_length_eq_zero (by omega)

theorem Buffered.flush (h : Buffered s a b) : Buffered s.flush (a ++ b) [] := by
  unfold Stream.flush
  split_ifs with hp
  · obtain rfl := h.staged_eq_nil hp
    rw [List.append_nil]
    exact ⟨h.lines, h.pending, h.truncated⟩
  · refine ⟨?_, (List.rtake_nil _).symm, ?_⟩
    · show Stream.trim (s.lines ++ s.pending) = _
      rw [trim_eq, h.lines, h.pending, rtake_append_both]
    · have ha := length_rtake maxLines a
      have hb := length_rtake maxLines b
      simp only [Bool.or_eq_true, decide_eq_true_eq, h.truncated, h.lines, h.pending,
        List.length_append, List.length_nil, ha, hb]
      omega

theorem Buffered.append (h : Buffered s a b) (newLines : List JStr) :
    Buffered (s.append newLines) a (b ++ newLines) := by
  unfold Stream.append
  split_ifs with hn
  · rw [hn, List.append_nil]
    exact h
  · refine ⟨h.lines, ?_, ?_⟩
    · show Stream.trim (s.pending ++ newLines) = _
      rw [trim_eq, h.pending, rtake_append_left]
    · have hb := length_rtake maxLines b
      simp only [Bool.or_eq_true, decide_eq_true_eq, h.truncated, h.pending,
        List.length_append, hb]
      omega

/-- What the visible buffer is made of: what was put into it, less `dropped` of it. -/
structure Headed (s : Stream) : Prop where
  lines : s.lines = s.shown.drop s.dropped
  dropped_le : s.dropped ≤ s.shown.length

theorem Headed.flush (h : Headed s) : Headed s.flush := by
  unfold Stream.flush
  split_ifs
  · exact ⟨h.lines, h.dropped_le⟩
  · have hle := h.dropped_le
    have hsplit : s.lines ++ s.pending = (s.shown ++ s.pending).drop s.dropped := by
      rw [h.lines, List.drop_append_of_le_length hle]
    have htrim := trim_eq (s.lines ++ s.pending)
    have hlen := congrArg List.length htrim
    rw [length_rtake] at hlen
    refine ⟨?_, ?_⟩
    · show Stream.trim (s.lines ++ s.pending) = (s.shown ++ s.pending).drop (s.dropped + _)
      rw [hlen, htrim, List.rtake, ← List.drop_drop, ← hsplit]
      congr 1
      omega
    · have hdrop := congrArg List.length hsplit
      rw [List.length_drop, List.length_append] at hdrop
      show s.dropped + (_ - _) ≤ (s.shown ++ s.pending).length
      rw [List.length_append]
      simp only [List.length_append] at *
      omega

/-- The invariant of the viewer: nothing has arrived for a later stream, nothing is staged
without a stream, and the two buffers hold what the current one has received. -/
structure Shows (s : Stream) : Prop where
  fresh : ∀ gen, s.generation < gen → s.delivered gen = []
  own : ∀ gen, s.current = some gen → gen = s.generation
  idle : s.current = none → s.pending = []
  split : s.current = some s.generation →
    ∃ a b, received (s.delivered s.generation) = a ++ b ∧ Buffered s a b
  headed : Headed s

/-- What the invariant speaks of. -/
def Stream.view (s : Stream) :=
  (s.generation, s.current, s.delivered, s.lines, s.pending, s.truncated, s.dropped, s.shown)

theorem Shows.congr (h : Shows s) (hv : s'.view = s.view) : Shows s' := by
  simp only [Stream.view, Prod.mk.injEq] at hv
  obtain ⟨hg, hc, hd, hl, hp, ht, hdr, hs⟩ := hv
  refine ⟨?_, ?_, ?_, ?_, ?_, ?_⟩
  · rw [hg, hd]; exact h.fresh
  · rw [hg, hc]; exact h.own
  · rw [hc, hp]; exact h.idle
  · rw [hg, hc, hd]
    intro hcur
    obtain ⟨a, b, hr, hb⟩ := h.split hcur
    exact ⟨a, b, hr, hl.trans hb.lines, hp.trans hb.pending, ht ▸ hb.truncated⟩
  · rw [hl, hdr, hs]; exact h.headed.lines
  · rw [hdr, hs]; exact h.headed.dropped_le

theorem Shows.flush (h : Shows s) : Shows s.flush where
  fresh := by simpa using h.fresh
  own := by simpa using h.own
  idle := fun _ => flush_pending s
  split := by
    intro hc
    rw [flush_current, flush_generation] at hc
    obtain ⟨a, b, hr, hb⟩ := h.split hc
    exact ⟨a ++ b, [], by simpa using hr, hb.flush⟩
  headed := h.headed.flush

/-- What another generation delivers changes nothing. -/
theorem Shows.record_stale (h : Shows s) {gen : ℕ} (hgen : gen < s.generation)
    (f : List Connection → List Connection) : Shows (s.record gen f) where
  fresh g hg := by
    have hlt : s.generation < g := hg
    exact (Function.update_of_ne (by omega) _ _).trans (h.fresh g (by omega))
  own := h.own
  idle := h.idle
  split hc := by
    obtain ⟨a, b, hr, hb⟩ := h.split hc
    refine ⟨a, b, ?_, hb.lines, hb.pending, hb.truncated⟩
    exact (congrArg received (Function.update_of_ne hgen.ne' _ _)).trans hr
  headed := ⟨h.headed.lines, h.headed.dropped_le⟩

/-- What the current generation delivers is staged. -/
theorem Shows.receive (h : Shows s) (hc : s.current = some s.generation)
    (f : List Connection → List Connection) (newLines : List JStr)
    (hf : received (f (s.delivered s.generation)) =
      received (s.delivered s.generation) ++ newLines) :
    Shows ((s.record s.generation f).append newLines) where
  fresh gen hg := by
    rw [append_delivered]
    rw [append_generation] at hg
    exact (Function.update_of_ne (Nat.ne_of_gt hg) _ _).trans (h.fresh gen hg)
  own := by simpa [Stream.record] using h.own
  idle hn := by
    rw [append_current] at hn
    exact absurd (hc.symm.trans hn) (Option.some_ne_none _)
  split _ := by
    obtain ⟨a, b, hr, hb⟩ := h.split hc
    have hb' : Buffered (s.record s.generation f) a b := ⟨hb.lines, hb.pending, hb.truncated⟩
    refine ⟨a, b ++ newLines, ?_, hb'.append newLines⟩
    rw [append_delivered, append_generation, ← List.append_assoc, ← hr, ← hf]
    exact congrArg received (Function.update_self _ _ _)
  headed := ⟨by simpa [Stream.record] using h.headed.lines,
    by simpa [Stream.record] using h.headed.dropped_le⟩

theorem received_chunk {c : Connection} {cs : List Connection} (hopen : c.clean = false)
    (text : JStr) :
    received ((c :: cs).modifyHead fun c => { c with text := c.text ++ text }) =
      received (c :: cs) ++ complete (rest c.text ++ text) := by
  simp [received, Connection.lines, hopen, (complete_rest_append c.text text).1]

theorem received_done {c : Connection} {cs : List Connection} (hopen : c.clean = false) :
    received ((c :: cs).modifyHead fun c => { c with clean := true }) =
      received (c :: cs) ++ if rest c.text ≠ [] then [rest c.text] else [] := by
  simp [received, Connection.lines, hopen]

theorem received_open (cs : List Connection) : received ({} :: cs) = received cs ++ [] := by
  simp [received, Connection.lines, complete, rest]

theorem LogStep.shows (h : LogStep s t s' t') (hI : Shows s) (ht : t.Ok s)
    (hle : ∀ gen, t.gen = some gen → gen ≤ s.generation) : Shows s' := by
  cases h with
  | stop => exact ⟨fun gen hg => hI.fresh gen (Nat.lt_of_succ_lt hg), nofun, fun _ => rfl, nofun,
      hI.headed.lines, hI.headed.dropped_le⟩
  | call hl =>
    refine ⟨fun gen hg => hI.fresh gen (Nat.lt_of_succ_lt hg),
      fun gen hg => (Option.some.inj hg).symm, nofun, fun _ => ⟨[], [], ?_, ?_⟩, rfl, le_rfl⟩
    · exact congrArg received (hI.fresh _ (Nat.lt_succ_self _))
    · exact ⟨(List.rtake_nil _).symm, (List.rtake_nil _).symm, by simp [Stream.connect, Stream.begin_]⟩
  | timer =>
    have h0 : Shows { s with timer := none } := hI.congr rfl
    exact h0.flush
  | staleTimer | clock | caught | returned | reconnect => exact hI.congr rfl
  | finish error =>
    have h0 : Shows { s with error } := hI.congr rfl
    exact h0.flush.congr rfl
  | retry => exact hI.flush.congr rfl
  | stale f hg hne => exact hI.record_stale (lt_of_le_of_ne (hle _ hg) hne) f
  | @connected l ctrl hl =>
    have hc := ht.1 (congrArg some hl)
    rw [hl]
    exact (hI.receive hc _ _ (received_open _)).congr rfl
  | @noBody l ctrl error hl =>
    have hc := ht.1 (congrArg some hl)
    rw [hl]
    exact (hI.receive hc _ _ (received_open _)).congr rfl
  | @chunk l ctrl buffer text hl =>
    have hc := ht.1 (congrArg some hl)
    obtain ⟨c, cs, hd, hopen, rfl⟩ := ht.2
    rw [hl] at hd ⊢
    exact hI.receive hc _ _ (by rw [hd]; exact received_chunk hopen text)
  | @done l ctrl buffer hl =>
    have hc := ht.1 (congrArg some hl)
    obtain ⟨c, cs, hd, hopen, rfl⟩ := ht.2
    rw [hl] at hd ⊢
    exact hI.receive hc _ _ (by rw [hd]; exact received_done hopen)

theorem shows_received (hp : logsStream.Reachable p) : Shows p.shared := by
  refine Program.shared_invariant
    (I := fun s t => t.Ok s ∧ ∀ gen, t.gen = some gen → gen ≤ s.generation)
    (fun p hp t ht => ⟨tasks_ok hp t ht, gen_le hp t ht⟩) ?_ ?_ hp
  · exact ⟨fun _ _ => rfl, nofun, fun _ => rfl, nofun, rfl, le_rfl⟩
  · intro s t e s' t' hI hJ ho
    exact (logs_op_step ho).shows hJ hI.1 hI.2

/-- The visible buffer is the newest part of what the current stream received, as much
of it as fits, and `truncated` says whether that is all of it. -/
def Exact (s : Stream) : Prop :=
  s.lines = (received (s.delivered s.generation)).rtake maxLines ∧
    (s.truncated = true ↔ maxLines < (received (s.delivered s.generation)).length)

theorem Buffered.exact (h : Buffered s a [])
    (hr : received (s.delivered s.generation) = a ++ []) : Exact s := by
  rw [List.append_nil] at hr
  rw [Exact, hr]
  refine ⟨h.lines, h.truncated.trans ?_⟩
  simp

theorem Shows.exact (h : Shows s) (hc : s.current = some s.generation) (hp : s.pending = []) :
    Exact s := by
  obtain ⟨a, b, hr, hb⟩ := h.split hc
  obtain rfl := hb.staged_eq_nil hp
  exact hb.exact hr

theorem Shows.lines_infix (h : Shows s) (hc : s.current = some s.generation) :
    s.lines <:+: received (s.delivered s.generation) := by
  obtain ⟨a, b, hr, hb⟩ := h.split hc
  rw [hb.lines, hr]
  exact ((rtake_suffix maxLines a).isInfix).trans (List.prefix_append a b).isInfix

/-- A flush either has nothing to flush or belongs to the current stream. -/
theorem Shows.flush_visible (h : Shows s) : (s.flush.lines = s.lines ∧
    s.flush.linesVersion = s.linesVersion) ∨ s.flush.current = some s.flush.generation := by
  by_cases hp : s.pending = []
  · unfold Stream.flush
    rw [if_pos hp]
    exact .inl ⟨rfl, rfl⟩
  · cases hc : s.current with
    | none => exact absurd (h.idle hc) hp
    | some gen =>
      obtain rfl := h.own gen hc
      exact .inr (by simpa using hc)

/-- The lines on screen change only by a flush of the current stream or by its start. -/
theorem LogStep.visible (h : LogStep s t s' t') (hI : Shows s) :
    (s'.lines = s.lines ∧ s'.linesVersion = s.linesVersion) ∨
      (s'.pending = [] ∧ s'.current = some s'.generation) := by
  cases h with
  | call => exact .inr ⟨rfl, rfl⟩
  | timer =>
    have h0 : Shows { s with timer := none } := hI.congr rfl
    exact h0.flush_visible.imp_right fun hc => ⟨flush_pending _, hc⟩
  | finish error =>
    have h0 : Shows { s with error } := hI.congr rfl
    exact h0.flush_visible.imp_right fun hc => ⟨flush_pending _, hc⟩
  | retry => exact hI.flush_visible.imp_right fun hc => ⟨flush_pending _, hc⟩
  | chunk => exact .inl ⟨append_lines _ _, append_linesVersion _ _⟩
  | done => exact .inl ⟨append_lines _ _, append_linesVersion _ _⟩
  | _ => exact .inl ⟨rfl, rfl⟩

/-- Whatever starts, stops, timers and reads of current and superseded connections do:
every step that changes what is on screen leaves exactly the newest lines of the current
stream there; so does a flush in any reached state; in between the screen shows lines of
this stream alone, and `dropped` counts what it has lost at the head. -/
theorem buffer_shows_received (hp : logsStream.Reachable p) :
    (p.shared.current = some p.shared.generation →
      Exact p.shared.flush ∧ (p.shared.pending = [] → Exact p.shared) ∧
        p.shared.lines <:+: received (p.shared.delivered p.shared.generation)) ∧
    (p.shared.lines = p.shared.shown.drop p.shared.dropped ∧
      p.shared.dropped ≤ p.shared.shown.length) ∧
    ∀ a q, logsStream.step p a = some q →
      (q.shared.lines = p.shared.lines ∧ q.shared.linesVersion = p.shared.linesVersion) ∨
        (q.shared.pending = [] ∧ q.shared.current = some q.shared.generation ∧ Exact q.shared) := by
  have h := shows_received hp
  refine ⟨fun hc => ⟨?_, h.exact hc, h.lines_infix hc⟩, ⟨h.headed.lines, h.headed.dropped_le⟩, ?_⟩
  · exact h.flush.exact (by simpa using hc) (flush_pending _)
  · intro a q hq
    have hnext := shows_received (hp.next hq)
    cases a with
    | spawn b =>
      cases hq
      exact .inl ⟨rfl, rfl⟩
    | act i e =>
      obtain ⟨hi, s, c, ho, rfl⟩ := Program.act_eq_some hq
      exact ((logs_op_step ho).visible h).imp_right fun hv => ⟨hv.1, hv.2, hnext.exact hv.2 hv.1⟩

/-- A stream whose second start comes while the first one is still being read. -/
def restarted : List (PoolAction Bool LogEvent) :=
  [.spawn false, .act 1 .run, .act 1 (.response true), .act 1 (.chunk (js "old\nol")),
    .spawn true, .act 2 .run, .act 1 (.chunk (js "d\n")), .act 2 (.response true),
    .act 2 (.chunk (js "a\nb")), .act 2 .done, .act 2 (.settle false)]

theorem restarted_runs : (logsStream.exec ⟨{}, [.page]⟩ restarted).isSome := by decide +kernel

theorem buffer_shows_received_restarted :
    ∃ p, logsStream.exec ⟨{}, [.page]⟩ restarted = some p ∧ Exact p.shared ∧
      p.shared.lines = [js "a", js "b"] := by
  have hp := (Option.some_get restarted_runs).symm
  have h := buffer_shows_received (Machine.Reachable.exec restarted (Machine.Reach.init rfl) hp)
  obtain ⟨hl, ht⟩ := (h.1 (by decide +kernel)).2.1 (by decide +kernel)
  refine ⟨_, hp, ⟨hl, ht⟩, hl.trans ?_⟩
  decide +kernel

end KubeConsole.Web
