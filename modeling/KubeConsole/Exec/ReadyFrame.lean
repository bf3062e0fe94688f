import KubeConsole.Exec.Teardown

/-!
The ready frame of an exec session and the frames that end one. The read loop and the idle timer
run before the ready frame is written, and nothing but `writeMu` is between their frames and it.
-/
namespace KubeConsole.Exec
open KubeConsole.Theory

/-- No ready frame is written after a terminal one. -/
def Session.ReadyFirst (s : Session) : Prop :=
  s.wire.Pairwise fun w v => w.2.terminal = true → v.2.type ≠ .ready

instance (s : Session) : Decidable s.ReadyFirst := inferInstanceAs (Decidable (List.Pairwise _ _))

/-- `session` has not got past the ready frame. -/
def Goroutine.starting : Goroutine → Bool
  | .session (.ready _) => true
  | _ => false

/-- The frame of a report is written. -/
def writesReport : PoolAction Unit SessionEvent → Bool
  | .act _ (.frameWrote true) => true
  | _ => false

/-- A report writes its frame only where `session` is past the ready frame. -/
def Punctual (p : Pool Session Goroutine) (a : PoolAction Unit SessionEvent) : Prop :=
  writesReport a = true → ∀ g ∈ p.threads, g.starting = false

instance (p : Pool Session Goroutine) (a : PoolAction Unit SessionEvent) :
    Decidable (Punctual p a) := inferInstanceAs (Decidable (_ → _))

variable {idleTimeout : String} {s s' : Session} {g g' : Goroutine} {e : SessionEvent}
  {p q : Pool Session Goroutine}

/-! What an operation writes. -/

theorem readyFirst_append {w : Claimant × ControlFrame} (h : s'.wire = s.wire ++ [w]) :
    s'.ReadyFirst ↔
      s.ReadyFirst ∧ (w.2.type = .ready → ∀ v ∈ s.wire, v.2.terminal = false) := by
  rw [Session.ReadyFirst, h, List.pairwise_append]
  constructor
  · rintro ⟨hwire, -, hlast⟩
    refine ⟨hwire, fun hready v hv => ?_⟩
    by_contra hterminal
    exact hlast v hv w (List.mem_singleton_self w) (by simpa using hterminal) hready
  · rintro ⟨hwire, hlast⟩
    refine ⟨hwire, List.pairwise_singleton _ _, fun v hv w' hw' hterminal hready => ?_⟩
    rw [List.mem_singleton.mp hw'] at hready
    rw [hlast hready v hv] at hterminal
    cases hterminal

theorem send_frame {who : Claimant} {f : ControlFrame} {at_ at' : Sending}
    (h : s.send who f at_ (some true) = some (s', at')) : at_ = .write ∧ s.closed = false ∧
      s' = { s with locked := false, wire := s.wire ++ [(who, f)] } := by
  cases at_ with
  | write =>
    rw [Session.send] at h
    split_ifs at h with hclosed
    cases h
    exact ⟨rfl, by simpa using hclosed, rfl⟩
  | _ => cases h

/-- A report writes one frame, on a connection that is not closed. -/
theorem report_frame {who : Claimant} {message : String} {r r' : Report}
    (h : s.report who message r (.frameWrote true) = some (s', r')) :
    s.closed = false ∧ s' = { s with
      locked := false, wire := s.wire ++ [(who, { type := .error, message })] } := by
  cases r with
  | won caller frame =>
    simp only [Session.report] at h
    obtain ⟨⟨u, fr⟩, hsend, heq⟩ := Option.map_eq_some_iff.mp h
    cases heq
    exact (send_frame hsend).2
  | _ => cases h

theorem send_wire {who : Claimant} {f : ControlFrame} {at_ at' : Sending} {r : Option Bool}
    (h : s.send who f at_ r = some (s', at')) : s'.wire = s.wire ∨ r = some true := by
  unfold Session.send at h
  split at h
  · split_ifs at h
    cases h
    exact .inl rfl
  · cases h
    exact .inl rfl
  · exact .inr rfl
  · cases h

/-- Nothing else of a report writes. -/
theorem report_wire {who : Claimant} {message : String} {r r' : Report}
    (h : s.report who message r e = some (s', r')) : s'.wire = s.wire ∨ e = .frameWrote true := by
  have hstep := report_step h
  cases e with
  | frameWrote ok =>
    cases r with
    | won caller frame =>
      simp only [Session.report] at h
      obtain ⟨⟨u, fr⟩, hsend, heq⟩ := Option.map_eq_some_iff.mp h
      cases heq
      exact (send_wire hsend).imp_right fun hok => congrArg _ (Option.some.inj hok)
    | _ => cases h
  | frameRun =>
    cases r with
    | won caller frame =>
      simp only [Session.report] at h
      obtain ⟨⟨u, fr⟩, hsend, heq⟩ := Option.map_eq_some_iff.mp h
      cases heq
      exact .inl ((send_wire hsend).resolve_right nofun)
    | _ => cases h
  | _ =>
    -- the caller of `reportAndEnd` itself writes nothing
    refine .inl ?_
    cases hstep with
    | @send caller _ _ _ hsend =>
      rcases hsend.wire with hwire | ⟨rfl, rfl, -⟩
      · exact hwire
      · cases caller <;> simp [Session.report] at h
    | end_ hend => exact hend.wire
    | _ => rfl

theorem op_overflow {r r' : Report} {left : Bool}
    (h : s.op idleTimeout (.readLoop (some r) left) e = some (s', .readLoop (some r') left)) :
    s.report .overflow Session.overflowMessage r e = some (s', r') := by
  unfold Session.op at h
  split at h
  case h_5 heq =>
    cases heq
    split_ifs at h
    cases h
  case h_6 heq _ =>
    cases heq
    obtain ⟨⟨u, r'⟩, hop, heq⟩ := Option.map_eq_some_iff.mp h
    cases heq
    exact hop
  all_goals simp_all

theorem terminal_outcomeFrame (err : StreamErr) : (outcomeFrame err).terminal = true := by
  cases err <;> rfl

/-- An operation writes nothing, or `session` its ready frame, or a terminal one is written, by a
report or by `session` past the ready frame. -/
theorem op_wire (h : s.op idleTimeout g e = some (s', g')) :
    s'.wire = s.wire ∨
    (g.starting = true ∧ g'.starting = false ∧
      s'.wire = s.wire ++ [(.stream, { type := .ready })]) ∨
    ((e = .frameWrote true ∨ ∃ err, g = .session (.report err .write)) ∧ g'.starting = false ∧
      ∃ w, s'.wire = s.wire ++ [w] ∧ w.2.terminal = true) := by
  have hreport {who : Claimant} {message : String} {r r' : Report}
      (h : s.report who message r e = some (s', r')) : s'.wire = s.wire ∨ e = .frameWrote true ∧
        ∃ w, s'.wire = s.wire ++ [w] ∧ w.2.terminal = true := by
    rcases report_wire h with hwire | rfl
    · exact .inl hwire
    · obtain ⟨-, rfl⟩ := report_frame h
      exact .inr ⟨rfl, _, rfl, rfl⟩
  have hstep := op_step h
  cases hstep with
  | session hmain =>
    cases hmain with
    | ready => exact .inr (.inl ⟨rfl, rfl, rfl⟩)
    | @report err _ hsend =>
      rcases hsend.wire with hwire | ⟨-, -, hwire⟩
      · exact .inl hwire
      · exact .inr (.inr ⟨.inr ⟨err, rfl⟩, rfl, _, hwire, terminal_outcomeFrame err⟩)
    | _ => exact .inl rfl
  | idle _ =>
    obtain ⟨⟨u, r'⟩, hop, heq⟩ := Option.map_eq_some_iff.mp h
    cases heq
    rcases hreport hop with hwire | ⟨he, w, hw⟩
    · exact .inl hwire
    · exact .inr (.inr ⟨.inl he, rfl, w, hw⟩)
  | report _ =>
    rcases hreport (op_overflow h) with hwire | ⟨he, w, hw⟩
    · exact .inl hwire
    · exact .inr (.inr ⟨.inl he, rfl, w, hw⟩)
  | ping hping =>
    cases hping with
    | same => exact .inl rfl
    | end_ hend => exact .inl hend.wire
  | _ => exact .inl rfl

/-! The runs. -/

theorem Step.starting (h : Step idleTimeout s g s' g') (hg : g'.starting = true) :
    g.starting = true := by
  cases h with
  | session hmain =>
    cases hmain with
    | lockReady => rfl
    | _ => cases hg
  | _ => cases hg

def Goroutine.isSession : Goroutine → Bool
  | .session _ => true
  | _ => false

theorem Step.isSession (h : Step idleTimeout s g s' g') : g'.isSession = g.isSession := by
  cases h <;> rfl

/-- There is one `session`. -/
def NotBoth (g d : Goroutine) : Prop := g.isSession = true → d.isSession = false

theorem NotBoth.symm {g d : Goroutine} (h : NotBoth g d) : NotBoth d g := by
  intro hd
  by_contra hg
  rw [h (by simpa using hg)] at hd
  cases hd

theorem one_session (hp : (session idleTimeout).Reachable p) : p.threads.Pairwise NotBoth := by
  refine Program.pairwise_threads (I := fun _ _ => True) (fun _ _ => NotBoth.symm)
    (fun _ _ _ _ => trivial) (by simp [NotBoth, Goroutine.isSession]) (fun _ _ _ => rfl) ?_ hp
  intro s g e s' g' d _ _ hd hop
  rw [NotBoth, (op_step hop).isSession]
  exact hd

/-- While `session` has not got past the ready frame there is no terminal one. -/
def Unended (s : Session) (g : Goroutine) : Prop :=
  g.starting = true → ∀ w ∈ s.wire, w.2.terminal = false

theorem exists_of_starting (h : g.starting = true) : ∃ at_, g = .session (.ready at_) := by
  match g, h with
  | .session (.ready at_), _ => exact ⟨at_, rfl⟩

/-- The idle timer fires once the terminal is open. -/
def idleLast : List (PoolAction Unit SessionEvent) :=
  [.act 0 .run, .act 0 (.wrote true), .spawn (), .act 5 .run, .act 5 .frameRun,
    .act 5 (.frameWrote true)]

theorem op_frameWrote (h : s.op idleTimeout g (.frameWrote true) = some (s', g')) :
    g.starting = false ∧ s'.closed = false ∧ s'.locked = false ∧
      ∃ w, s'.wire = s.wire ++ [w] ∧ w.2.terminal = true := by
  cases g with
  | idle r =>
    obtain ⟨⟨u, r'⟩, hop, heq⟩ := Option.map_eq_some_iff.mp h
    cases heq
    obtain ⟨hclosed, rfl⟩ := report_frame hop
    exact ⟨rfl, hclosed, rfl, _, rfl, rfl⟩
  | readLoop r left =>
    cases r with
    | none => cases left <;> cases h
    | some r =>
      have hmap : (s.report .overflow Session.overflowMessage r (.frameWrote true)).map
          (fun r => (r.1, Goroutine.readLoop (some r.2) left)) = some (s', g') := by
        cases left <;> exact h
      obtain ⟨⟨u, r'⟩, hop, heq⟩ := Option.map_eq_some_iff.mp hmap
      cases heq
      obtain ⟨hclosed, rfl⟩ := report_frame hop
      exact ⟨rfl, hclosed, rfl, _, rfl, rfl⟩
  | session pc => cases pc <;> cases h
  | pingLoop pc => cases pc <;> cases h
  | stdout writing => cases writing <;> cases h
  | stream => cases h

theorem ready_not_returned (hp : (session idleTimeout).Reachable p) :
    Goroutine.session (.ready .returned) ∉ p.threads := by
  intro hmem
  refine Program.forall_threads (I := (· ≠ Goroutine.session (.ready .returned))) (by simp)
    (fun _ h => by cases h) ?_ hp _ hmem rfl
  rintro s g e s' g' - hop rfl
  cases op_step hop with
  | session hmain => cases hmain

/-- Where a report writes its frame before that, `session` may go on to write the ready frame. -/
theorem exists_ready_after {a : PoolAction Unit SessionEvent}
    (hp : (session idleTimeout).Reachable p) (hq : (session idleTimeout).step p a = some q)
    (ha : ¬Punctual p a) : ∃ j t,
      (session idleTimeout).exec q [.act j .run, .act j (.wrote true)] = some t ∧
      ¬t.shared.ReadyFirst := by
  rw [Punctual, Classical.not_imp] at ha
  obtain ⟨hwrites, hstarting⟩ := ha
  match a, hwrites with
  | .act i (.frameWrote true), _ =>
    obtain ⟨hi, s', c', hop, rfl⟩ := Program.act_eq_some hq
    obtain ⟨hwriter, hclosed, hlocked, w, hwire, hw⟩ := op_frameWrote hop
    push Not at hstarting
    obtain ⟨g, hg, hstart⟩ := hstarting
    obtain ⟨j, hj, rfl⟩ := List.getElem_of_mem hg
    have hij : i ≠ j := by
      rintro rfl
      rw [hwriter] at hstart
      exact hstart rfl
    -- `session` waits for `writeMu`, which the report has released
    have hset : (p.threads.set i c')[j]? = some p.threads[j] := by
      rw [List.getElem?_set_ne hij, List.getElem?_eq_getElem hj]
    have hat : p.threads[j] = .session (.ready .lock) := by
      have hfree := locked_eq (hp.next hq)
      rw [hlocked] at hfree
      have hholds := List.countP_eq_zero.mp hfree.symm _ (List.mem_of_getElem? hset)
      obtain ⟨at_, hat⟩ := exists_of_starting (by simpa using hstart)
      rw [hat] at hholds ⊢
      cases at_ with
      | lock => rfl
      | write => exact absurd rfl hholds
      | returned => exact absurd (hat ▸ List.getElem_mem hj) (ready_not_returned hp)
    have hlen : j < (p.threads.set i c').length := by rwa [List.length_set]
    have hdrive : (teardown idleTimeout).drive s' (p.threads.set i c')[j] [.run, .wrote true] =
        some ({ s' with
          locked := false
          wire := s'.wire ++ [(.stream, { type := .ready })]
          streaming := true }, .session .await) := by
      rw [List.getElem_set_ne hij, hat]
      simp [Program.drive, teardown, Session.op, Session.main, Session.send, hlocked, hclosed]
    refine ⟨j, _, Program.exec_drive (P := teardown idleTimeout)
      (p := ⟨s', p.threads.set i c'⟩) hlen hdrive, fun hready => ?_⟩
    have hfirst := ((readyFirst_append rfl).mp hready).2 rfl w
    rw [hfirst (by simp [hwire])] at hw
    cases hw

/-- The read loop overflows before the ready frame is written. -/
def overflowFirst : List (PoolAction Unit SessionEvent) :=
  [.act 1 .overflow, .act 1 .run, .act 1 .frameRun, .act 1 (.frameWrote true), .act 0 .run,
    .act 0 (.wrote true)]

end KubeConsole.Exec
