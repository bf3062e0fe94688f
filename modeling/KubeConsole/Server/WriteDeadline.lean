import KubeConsole.Theory.Paced
import KubeConsole.Theory.Transition

/-!
The write deadline of a response (`WriteDeadline` in `internal/server/middleware.go`).

The writer arms the connection around every write, but only where less than half of the
time is left, remembers what it armed, and lets go of the connection when it is hijacked.
A call happens at a time that the clock has reached.
-/
namespace KubeConsole.Server
open KubeConsole.Theory

inductive WriteError where
  /-- `os.ErrDeadlineExceeded`, wrapped or not. -/
  | deadlineExceeded
  | other
  deriving DecidableEq, Repr

/-- What the `Hijack` of the writer below comes to. -/
inductive HijackResult where
  /-- It is no `http.Hijacker`. -/
  | unsupported
  | failed
  | taken
  deriving DecidableEq, Repr

/-- The calls of a handler, with what the writer below returns, and `finish`. -/
inductive WriterCall where
  | writeHeader
  | write (err : Option WriteError)
  | flush (err : Option WriteError)
  | hijack (r : HijackResult)
  | finish
  deriving DecidableEq, Repr

/-- What reaches the socket: when, and the deadline the connection has then. -/
structure SocketWrite where
  at_ : ℕ
  deadline : Option ℕ
  deriving DecidableEq, Repr

/-- `deadlineWriter` and its connection. `supported` says whether the transport takes deadlines.
No call reads `arms`, `writes`, `handedOver` or `timedOut`. -/
structure DeadlineWriter where
  timeout : ℕ
  supported : Bool
  logger : Bool
  now : ℕ := 0
  /-- The field `deadline`; the zero time is `none`. -/
  deadline : Option ℕ := none
  reported : Bool := false
  hijacked : Bool := false
  /-- The deadline of the connection itself. -/
  conn : Option ℕ := none
  /-- The warnings logged. -/
  warnings : ℕ := 0
  /-- When a deadline was set, the last time in front. -/
  arms : List ℕ := []
  writes : List SocketWrite := []
  /-- What net/http's `Hijack` flushes before it hands the connection over. -/
  handedOver : Option SocketWrite := none
  timedOut : Bool := false
  deriving DecidableEq, Repr

namespace DeadlineWriter

/-- `arm`. -/
def arm (w : DeadlineWriter) : DeadlineWriter :=
  if w.deadline.any fun d => w.now + w.timeout / 2 < d then w
  else { w with
    deadline := some (w.now + w.timeout)
    conn := if w.supported then some (w.now + w.timeout) else w.conn
    arms := w.now :: w.arms }

/-- The writer below writes to the socket, unless the connection is hijacked. -/
def send (w : DeadlineWriter) : DeadlineWriter :=
  if w.hijacked then w else { w with writes := ⟨w.now, w.conn⟩ :: w.writes }

/-- `reportTimeout`. -/
def reportTimeout (w : DeadlineWriter) : DeadlineWriter :=
  if !w.logger || w.reported then w
  else { w with reported := true, warnings := w.warnings + 1 }

/-- What a call does with the error it got. -/
def report (w : DeadlineWriter) (err : Option WriteError) : DeadlineWriter :=
  if err = some .deadlineExceeded then reportTimeout { w with timedOut := true } else w

/-- One call at a time. -/
def step (w : DeadlineWriter) (a : ℕ × WriterCall) : Option DeadlineWriter :=
  if a.1 < w.now then none
  else
    let w := { w with now := a.1 }
    match a.2 with
    | .writeHeader => some w.arm.send
    | .write err | .flush err => some (w.arm.send.report err)
    | .hijack .taken =>
      if w.hijacked then none
      else some { w with hijacked := true, handedOver := some ⟨w.now, w.conn⟩, conn := none }
    | .hijack _ => some w
    -- the last write is the end of the response, by net/http itself
    | .finish => some (if w.hijacked then w else w.arm.send)

end DeadlineWriter

/-- A response from its start. -/
def response (timeout : ℕ) (supported logger : Bool) : Machine DeadlineWriter (ℕ × WriterCall) where
  init w := w = { timeout, supported, logger }
  step := DeadlineWriter.step

/-- A hijacked connection is not written to through the writer. -/
def LetsGo (w : DeadlineWriter) (a : ℕ × WriterCall) : Prop :=
  w.hijacked = true → a.2 = .finish ∨ ∃ r, a.2 = .hijack r

namespace DeadlineWriter
variable {timeout : ℕ} {supported logger : Bool} {w w' : DeadlineWriter} {a : ℕ × WriterCall}

/-! What is armed. -/

/-- What is remembered of the deadlines, the socket and the log. -/
structure Guards (timeout : ℕ) (supported logger : Bool) (w : DeadlineWriter) : Prop where
  timeout_eq : w.timeout = timeout
  supported_eq : w.supported = supported
  logger_eq : w.logger = logger
  armed : ∀ d, w.deadline = some d → ∃ t rest, w.arms = t :: rest ∧ d = t + timeout
  zero : w.deadline = none → w.arms = []
  past : ∀ t ∈ w.arms, t ≤ w.now
  spaced : Paced id id (timeout / 2) w.arms
  conn : supported = true → w.hijacked = false → w.conn = w.deadline
  guarded : ∀ s ∈ w.writes, supported = true →
    ∃ d, s.deadline = some d ∧ s.at_ + timeout / 2 < d ∧ d ≤ s.at_ + timeout
  sent : w.writes ≠ [] → w.deadline.isSome
  gone : w.handedOver.isSome → w.hijacked = true
  handed : ∀ s, w.handedOver = some s → supported = true → w.writes ≠ [] →
    ∃ d, s.deadline = some d ∧ d ≤ s.at_ + timeout
  reported : w.reported = true ↔ logger = true ∧ w.timedOut = true
  warned : w.warnings = w.reported.toNat

theorem Guards.tick (h : Guards timeout supported logger w) {t : ℕ} (ht : w.now ≤ t) :
    Guards timeout supported logger { w with now := t } :=
  ⟨h.timeout_eq, h.supported_eq, h.logger_eq, h.armed, h.zero, fun u hu => (h.past u hu).trans ht,
    h.spaced, h.conn, h.guarded, h.sent, h.gone, h.handed, h.reported, h.warned⟩

/-- The last time at which a deadline was set is the latest. -/
theorem Guards.le_last (h : Guards timeout supported logger w) {u : ℕ} {rest : List ℕ}
    (harms : w.arms = u :: rest) (t : ℕ) (ht : t ∈ w.arms) : t ≤ u := by
  rw [harms] at ht
  rcases List.mem_cons.mp ht with rfl | ht
  · exact le_rfl
  · have hspaced := h.spaced
    rw [harms] at hspaced
    have hgap := (List.pairwise_cons.mp hspaced).1 t ht
    simp only [id] at hgap
    omega

/-- After `arm` the deadline is ahead by more than half of the time and by no more than all of it. -/
theorem Guards.arm (h : Guards timeout supported logger w) (ht : 0 < timeout) :
    Guards timeout supported logger w.arm ∧ w.arm.now = w.now ∧ w.arm.hijacked = w.hijacked ∧
      ∃ d, w.arm.deadline = some d ∧ w.now + timeout / 2 < d ∧ d ≤ w.now + timeout := by
  unfold DeadlineWriter.arm
  split
  next hfar =>
    obtain ⟨d, hd, hlt⟩ := (Option.any_eq_true _ _).mp hfar
    have hlt := of_decide_eq_true hlt
    rw [h.timeout_eq] at hlt
    obtain ⟨t, rest, harms, hdt⟩ := h.armed d hd
    have hpast := h.past t (by simp [harms])
    exact ⟨h, rfl, rfl, d, hd, hlt, by omega⟩
  next hfar =>
    have hspaced : Paced id id (timeout / 2) (w.now :: w.arms) := by
      refine h.spaced.cons fun t ht => ?_
      cases hd : w.deadline with
      | none => simp [h.zero hd] at ht
      | some d =>
        obtain ⟨u, rest, harms, hdu⟩ := h.armed d hd
        have hnear : ¬w.now + timeout / 2 < d := by simpa [hd, h.timeout_eq] using hfar
        have htu := h.le_last harms t ht
        simp only [id]
        omega
    refine ⟨⟨h.timeout_eq, h.supported_eq, h.logger_eq, ?_, nofun, ?_, hspaced, ?_, h.guarded,
      fun _ => rfl, h.gone, h.handed, h.reported, h.warned⟩, rfl, rfl, w.now + timeout, by simp [h.timeout_eq], by omega, le_rfl⟩
    · intro d hd
      cases hd
      exact ⟨w.now, w.arms, rfl, by rw [h.timeout_eq]⟩
    · exact List.forall_mem_cons.mpr ⟨le_rfl, h.past⟩
    · intro hs _
      exact if_pos (h.supported_eq.trans hs)

/-- What is sent after `arm` is sent under its deadline. -/
theorem Guards.arm_send (h : Guards timeout supported logger w) (ht : 0 < timeout) :
    Guards timeout supported logger w.arm.send := by
  obtain ⟨harm, hnow, -, d, hd, hlt, hle⟩ := h.arm ht
  unfold send
  split_ifs with hh
  · exact harm
  · have hopen : ¬w.arm.handedOver.isSome = true := fun hs => hh (harm.gone hs)
    refine ⟨harm.timeout_eq, harm.supported_eq, harm.logger_eq, harm.armed, harm.zero, harm.past,
      harm.spaced, harm.conn, ?_, fun _ => by simp [hd], harm.gone,
      fun s hs => absurd (Option.isSome_of_mem hs) hopen, harm.reported, harm.warned⟩
    refine List.forall_mem_cons.mpr ⟨fun hs => ⟨d, ?_, ?_, ?_⟩, harm.guarded⟩
    · exact (harm.conn hs (by simpa using hh)).trans hd
    · rwa [hnow]
    · rwa [hnow]

theorem Guards.report (h : Guards timeout supported logger w) (err : Option WriteError) :
    Guards timeout supported logger (w.report err) := by
  have hr := h.reported
  have hlogger := h.logger_eq
  unfold DeadlineWriter.report reportTimeout
  split_ifs with he hskip
  · refine ⟨h.timeout_eq, h.supported_eq, h.logger_eq, h.armed, h.zero, h.past, h.spaced, h.conn,
      h.guarded, h.sent, h.gone, h.handed, ?_, h.warned⟩
    simp only [Bool.or_eq_true, Bool.not_eq_true'] at hskip
    rcases hskip with hoff | hon
    · have hnone : logger = false := hlogger.symm.trans hoff
      simp only [hnone] at hr ⊢
      simpa using hr
    · exact ⟨fun h => ⟨(hr.mp h).1, rfl⟩, fun _ => hon⟩
  · simp only [Bool.or_eq_true, Bool.not_eq_true', not_or, Bool.not_eq_false,
      Bool.not_eq_true] at hskip
    refine ⟨h.timeout_eq, h.supported_eq, h.logger_eq, h.armed, h.zero, h.past, h.spaced, h.conn,
      h.guarded, h.sent, h.gone, h.handed, ?_, ?_⟩
    · simp [← hlogger, hskip.1]
    · simp [h.warned, hskip.2]
  · exact h

/-- The connection is handed over after a flush under the deadline that was armed last. -/
theorem Guards.hijack (h : Guards timeout supported logger w) (hopen : w.hijacked = false) :
    Guards timeout supported logger
      { w with hijacked := true, handedOver := some ⟨w.now, w.conn⟩, conn := none } := by
  refine ⟨h.timeout_eq, h.supported_eq, h.logger_eq, h.armed, h.zero, h.past, h.spaced, nofun,
    h.guarded, h.sent, fun _ => rfl, fun s hs hsup hne => ?_, h.reported, h.warned⟩
  cases hs
  obtain ⟨d, hd⟩ := Option.isSome_iff_exists.mp (h.sent hne)
  obtain ⟨t, rest, harms, rfl⟩ := h.armed d hd
  have hpast := h.past t (by simp [harms])
  exact ⟨t + timeout, (h.conn hsup hopen).trans hd, Nat.add_le_add_right hpast _⟩

theorem Guards.step (h : Guards timeout supported logger w) (ht : 0 < timeout)
    (hw : w.step a = some w') : Guards timeout supported logger w' := by
  unfold DeadlineWriter.step at hw
  split_ifs at hw with hnow
  have h := h.tick (not_lt.mp hnow)
  dsimp only at hw
  split at hw
  next => cases hw; exact h.arm_send ht
  next => cases hw; exact (h.arm_send ht).report _
  next => cases hw; exact (h.arm_send ht).report _
  next =>
    split_ifs at hw with hh
    cases hw
    exact h.hijack (by simpa using hh)
  next => cases hw; exact h
  next =>
    cases hw
    split_ifs
    · exact h
    · exact h.arm_send ht

theorem guards_of_reachable (ht : 0 < timeout)
    (hw : (response timeout supported logger).Reachable w) : Guards timeout supported logger w := by
  refine hw.invariant ?_ fun w a w' h _ hw => h.step ht hw
  rintro w rfl
  exact ⟨rfl, rfl, rfl, nofun, fun _ => rfl, by simp, Paced.nil, fun _ _ => rfl, by simp,
    nofun, nofun, nofun, by simp, rfl⟩

@[simp] theorem arm_hijacked (w : DeadlineWriter) : w.arm.hijacked = w.hijacked := by
  unfold arm
  split_ifs <;> rfl

@[simp] theorem send_hijacked (w : DeadlineWriter) : w.send.hijacked = w.hijacked := by
  unfold send
  split_ifs with h <;> rfl

@[simp] theorem report_hijacked (w : DeadlineWriter) (err : Option WriteError) :
    (w.report err).hijacked = w.hijacked := by
  unfold report reportTimeout
  split_ifs <;> rfl

/-- A connection that was handed over keeps no deadline, if the handler lets go of it. -/
theorem conn_of_letsGo (hw : (response timeout supported logger).Reach LetsGo w) :
    w.hijacked = true → w.conn = none := by
  refine hw.invariant (I := fun w => w.hijacked = true → w.conn = none) ?_ ?_
  · rintro w rfl
    nofun
  · intro w a w' h hgo hw hh
    have hw : w.step a = some w' := hw
    unfold DeadlineWriter.step at hw
    split_ifs at hw
    dsimp only at hw
    -- a call that writes is only made before the hijack, and does not hijack
    have hopen (ha : a.2 ≠ .finish) (hnot : ∀ r, a.2 ≠ .hijack r) : w.hijacked = false := by
      by_contra hhij
      rcases hgo (by simpa using hhij) with hf | ⟨r, hr⟩
      · exact ha hf
      · exact hnot r hr
    split at hw
    next ha => cases hw; simp [hopen (by simp [ha]) (by simp [ha])] at hh
    next ha => cases hw; simp [hopen (by simp [ha]) (by simp [ha])] at hh
    next ha => cases hw; simp [hopen (by simp [ha]) (by simp [ha])] at hh
    next =>
      split_ifs at hw
      cases hw
      rfl
    next => cases hw; exact h hh
    next =>
      cases hw
      split_ifs at hh ⊢ with hhij
      · exact h hhij
      · simp only [send_hijacked, arm_hijacked] at hh
        exact absurd hh hhij

end DeadlineWriter

/-- On a transport that takes deadlines, whatever the calls and whenever they are made: every write
that reaches the socket, the end of the response included, has a deadline ahead of it by more than
half of the timeout and by no more than all of it, and so has what a hijack flushes the latter;
setting deadlines costs one call for each half timeout that passes, and one more; the client that
stopped reading is reported once, where there is a logger. A connection that was hijacked keeps no
deadline, as long as the handler does not write to it through the writer. -/
theorem response_guarded (timeout : ℕ) (supported logger : Bool) (ht : 0 < timeout)
    (w : DeadlineWriter) (hw : (response timeout supported logger).Reachable w) :
    (supported = true → ∀ s ∈ w.writes,
      ∃ d, s.deadline = some d ∧ s.at_ + timeout / 2 < d ∧ d ≤ s.at_ + timeout) ∧
    (supported = true → w.writes ≠ [] → ∀ s, w.handedOver = some s →
      ∃ d, s.deadline = some d ∧ d ≤ s.at_ + timeout) ∧
    (w.arms.length - 1) * (timeout / 2) ≤ w.now ∧
    w.warnings = (logger && w.timedOut).toNat ∧
    ((response timeout supported logger).Reach LetsGo w → w.hijacked = true → w.conn = none) := by
  have h := DeadlineWriter.guards_of_reachable ht hw
  refine ⟨fun hs s hmem => h.guarded s hmem hs, fun hs hne s hover => h.handed s hover hs hne,
    h.spaced.length_mul_le fun t ht => ⟨le_rfl, h.past t ht⟩, ?_, DeadlineWriter.conn_of_letsGo⟩
  have hr : w.reported = (logger && w.timedOut) := by
    rw [Bool.eq_iff_iff, h.reported, Bool.and_eq_true]
  rw [h.warned, hr]

/-- A watch that is idle for long between its writes, and ends. -/
def idleWatch : List (ℕ × WriterCall) :=
  [(0, .writeHeader), (3, .write none), (40, .write none), (90, .finish)]

theorem response_guarded_idleWatch :
    ∃ w, (response 10 true true).exec { timeout := 10, supported := true, logger := true }
        idleWatch = some w ∧
      w.writes.map SocketWrite.deadline = [some 100, some 50, some 10, some 10] ∧
      ∀ s ∈ w.writes, ∃ d, s.deadline = some d ∧ s.at_ + 10 / 2 < d ∧ d ≤ s.at_ + 10 := by
  refine ⟨_, rfl, rfl, ?_⟩
  exact (response_guarded 10 true true (by decide) _
    (Machine.Reachable.exec idleWatch (Machine.Reach.init rfl) rfl)).1 rfl

end KubeConsole.Server
