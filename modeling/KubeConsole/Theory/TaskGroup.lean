import KubeConsole.Theory.Transition

/-!
Tasks that run side by side until all have returned, where the first to fail is the error of
all and cancels those that are still running.

A task goes by itself from state to state until it returns; one that is canceled returns an
error of its own. Whatever the order of the steps, the error of the group is what some task
would have failed with alone.
-/
namespace KubeConsole.Theory

/-- Where a task is. -/
inductive TaskState (τ ε ρ : Type*) where
  | running (t : τ)
  | done (r : Except ε ρ)

structure TaskGroup (ι τ ε ρ : Type*) where
  pc : ι → TaskState τ ε ρ
  firstErr : Option ε

inductive GroupAction (ι : Type*) where
  | advance (i : ι)
  | cancel (i : ι)
  deriving DecidableEq, Repr

variable {ι τ ε ρ : Type*} [DecidableEq ι]

/-- What a task that is not disturbed returns. -/
inductive Returns (next : τ → TaskState τ ε ρ) : τ → Except ε ρ → Prop where
  | last {t : τ} {r : Except ε ρ} : next t = .done r → Returns next t r
  | step {t u : τ} {r : Except ε ρ} : next t = .running u → Returns next u r → Returns next t r

theorem Returns.unique {next : τ → TaskState τ ε ρ} {t : τ} {r r' : Except ε ρ} (h : Returns next t r)
    (h' : Returns next t r') : r = r' := by
  induction h with
  | last hd =>
    cases h' with
    | last hd' => exact (TaskState.done.inj (hd.symm.trans hd'))
    | step hr _ => cases hd.symm.trans hr
  | step hr _ ih =>
    cases h' with
    | last hd => cases hr.symm.trans hd
    | step hr' h' =>
      cases hr.symm.trans hr'
      exact ih h'

namespace TaskGroup

/-- A task comes to a point; where it failed first, its error is the group's. -/
def settle (s : TaskGroup ι τ ε ρ) (i : ι) (p : TaskState τ ε ρ) : TaskGroup ι τ ε ρ where
  pc := Function.update s.pc i p
  firstErr := match p with
    | .done (.error e) => s.firstErr.or (some e)
    | _ => s.firstErr

/-- The group of the tasks `start`, whose steps are `next`. -/
def machine (next : ι → τ → TaskState τ ε ρ) (start : ι → τ) (canceled : ε) :
    Machine (TaskGroup ι τ ε ρ) (GroupAction ι) where
  init s := s = ⟨fun i => .running (start i), none⟩
  step s
    | .advance i =>
      match s.pc i with
      | .running t => some (s.settle i (next i t))
      | .done _ => none
    | .cancel i =>
      match s.pc i with
      | .running _ => if s.firstErr.isSome then some (s.settle i (.done (.error canceled))) else none
      | .done _ => none

def Done (s : TaskGroup ι τ ε ρ) : Prop := ∀ i, ∃ r, s.pc i = .done r

variable {next : ι → τ → TaskState τ ε ρ} {start : ι → τ} {canceled : ε} {s s' : TaskGroup ι τ ε ρ}

/-- A step is a task's own, or it cancels one while there is an error. -/
theorem step_cases {a : GroupAction ι} (h : (machine next start canceled).step s a = some s') :
    ∃ i t, s.pc i = .running t ∧ (s' = s.settle i (next i t) ∨
      s.firstErr.isSome ∧ s' = s.settle i (.done (.error canceled))) := by
  cases a with
  | advance i =>
    simp only [machine] at h
    split at h
    next t hpc =>
      cases h
      exact ⟨i, t, hpc, .inl rfl⟩
    · cases h
  | cancel i =>
    simp only [machine] at h
    split at h
    next t hpc =>
      obtain ⟨herr, h⟩ := Option.ite_none_right_eq_some.mp h
      cases h
      exact ⟨i, t, hpc, .inr ⟨herr, rfl⟩⟩
    · cases h

variable (next start) in
/-- Every task is on its own way or has come to its own end, unless there is an error; and the
error is what some task fails with by itself. -/
structure Honest (s : TaskGroup ι τ ε ρ) : Prop where
  running : ∀ i t, s.pc i = .running t → ∀ r, Returns (next i) t r → Returns (next i) (start i) r
  done : ∀ i v, s.pc i = .done (.ok v) → Returns (next i) (start i) (.ok v)
  failed : ∀ i e, s.pc i = .done (.error e) → s.firstErr.isSome
  firstErr : ∀ e, s.firstErr = some e → ∃ i, Returns (next i) (start i) (.error e)

/-- One task goes on, the others stay where they are. -/
theorem Honest.settle (h : Honest next start s) {i : ι} {p : TaskState τ ε ρ}
    (hrunning : ∀ t, p = .running t → ∀ r, Returns (next i) t r → Returns (next i) (start i) r)
    (hdone : ∀ v, p = .done (.ok v) → Returns (next i) (start i) (.ok v))
    (hfailed : ∀ e, p = .done (.error e) → s.firstErr.isSome ∨
      Returns (next i) (start i) (.error e)) : Honest next start (s.settle i p) := by
  have hsome : s.firstErr.isSome → (s.settle i p).firstErr.isSome := by
    intro hs
    unfold TaskGroup.settle
    cases p with
    | running t => exact hs
    | done r =>
      cases r with
      | ok v => exact hs
      | error e => simp
  refine ⟨fun j t hj => ?_, fun j v hj => ?_, fun j e hj => ?_, fun e he => ?_⟩
  · by_cases hji : j = i
    · subst hji
      exact hrunning t (by simpa [TaskGroup.settle] using hj)
    · exact h.running j t (by simpa [TaskGroup.settle, hji] using hj)
  · by_cases hji : j = i
    · subst hji
      exact hdone v (by simpa [TaskGroup.settle] using hj)
    · exact h.done j v (by simpa [TaskGroup.settle, hji] using hj)
  · by_cases hji : j = i
    · subst hji
      have hp : p = .done (.error e) := by simpa [TaskGroup.settle] using hj
      simp [TaskGroup.settle, hp]
    · exact hsome (h.failed j e (by simpa [TaskGroup.settle, hji] using hj))
  · unfold TaskGroup.settle at he
    cases p with
    | running t => exact h.firstErr e he
    | done r =>
      cases r with
      | ok v => exact h.firstErr e he
      | error e' =>
        cases hfirst : s.firstErr with
        | some e'' =>
          simp only [hfirst, Option.some_or, Option.some.injEq] at he
          exact h.firstErr e (he ▸ hfirst)
        | none =>
          simp only [hfirst, Option.none_or, Option.some.injEq] at he
          subst he
          exact ⟨i, (hfailed _ rfl).resolve_left (by simp [hfirst])⟩

theorem honest (hs : (machine next start canceled).Reachable s) : Honest next start s := by
  refine Machine.Reach.invariant (I := Honest next start) ?_ ?_ hs
  · rintro s rfl
    refine ⟨fun i t hi r hr => ?_, fun i v hi => ?_, fun i e hi => ?_, fun e he => ?_⟩
    · cases hi
      exact hr
    · cases hi
    · cases hi
    · cases he
  · intro s a s' h _ hstep
    obtain ⟨i, t, hpc, rfl | ⟨herr, rfl⟩⟩ := step_cases hstep
    · refine h.settle (fun u hu r hr => ?_) (fun v hv => ?_) fun e he => ?_
      · exact h.running i t hpc r (.step hu hr)
      · exact h.running i t hpc _ (.last hv)
      · exact .inr (h.running i t hpc _ (.last he))
    · refine h.settle (fun u hu => ?_) (fun v hv => ?_) fun e he => ?_
      · cases hu
      · cases hv
      · exact .inl herr

omit [DecidableEq ι] in
/-- Without an error every task has returned what it returns alone. -/
theorem Honest.all_ok (h : Honest next start s) (hdone : s.Done) (hnone : s.firstErr = none)
    (i : ι) : ∃ v, s.pc i = .done (.ok v) ∧ Returns (next i) (start i) (.ok v) := by
  obtain ⟨r, hr⟩ := hdone i
  cases r with
  | ok v => exact ⟨v, hr, h.done i v hr⟩
  | error e =>
    have := h.failed i e hr
    simp [hnone] at this

/-! Runs that reach an outcome. -/

/-- What remains of a group's error when a task has returned. -/
def errAfter (first : Option ε) : Except ε ρ → Option ε
  | .ok _ => first
  | .error e => first.or (some e)

/-- A task may run to its end while the others rest. -/
theorem exists_return {i : ι} {t : τ} {r : Except ε ρ} (hr : Returns (next i) t r)
    (hs : (machine next start canceled).Reachable s) (hpc : s.pc i = .running t) :
    ∃ s', (machine next start canceled).Reachable s' ∧ s'.pc = Function.update s.pc i (.done r) ∧
      s'.firstErr = errAfter s.firstErr r := by
  induction hr generalizing s with
  | @last t r hd =>
    have hstep : (machine next start canceled).step s (.advance i) =
        some (s.settle i (.done r)) := by
      simp [machine, hpc, hd]
    refine ⟨_, Machine.Reachable.next hs hstep, rfl, ?_⟩
    cases r with
    | ok v => rfl
    | error e => rfl
  | @step t u r hrun _ ih =>
    have hstep : (machine next start canceled).step s (.advance i) =
        some (s.settle i (.running u)) := by
      simp [machine, hpc, hrun]
    obtain ⟨s', hs', hpc', herr⟩ := ih (Machine.Reachable.next hs hstep) (by simp [settle])
    exact ⟨s', hs', by simpa [settle] using hpc', herr⟩

variable (next start canceled) in
/-- Where all tasks succeed alone, they may succeed together. -/
theorem exists_ok [Fintype ι] {v : ι → ρ} (hv : ∀ i, Returns (next i) (start i) (.ok (v i))) :
    ∃ s, (machine next start canceled).Reachable s ∧ (∀ i, s.pc i = .done (.ok (v i))) ∧
      s.firstErr = none := by
  have hlist (l : List ι) : ∃ s, (machine next start canceled).Reachable s ∧
      (∀ i, s.pc i = if i ∈ l then .done (.ok (v i)) else .running (start i)) ∧
      s.firstErr = none := by
    induction l with
    | nil => exact ⟨⟨fun i => .running (start i), none⟩, .init rfl, fun i => by simp, rfl⟩
    | cons j l ih =>
      obtain ⟨s, hs, hpc, herr⟩ := ih
      by_cases hj : j ∈ l
      · refine ⟨s, hs, fun i => ?_, herr⟩
        by_cases hij : i = j
        · simp [hpc, hij, hj]
        · simp [hpc, hij]
      · obtain ⟨s', hs', hpc', herr'⟩ := exists_return (hv j) hs (by simp [hpc, hj])
        refine ⟨s', hs', fun i => ?_, by simp [herr', errAfter, herr]⟩
        by_cases hij : i = j
        · subst hij
          simp [hpc']
        · simp [hpc', hij, hpc]
  obtain ⟨s, hs, hpc, herr⟩ := hlist Finset.univ.toList
  exact ⟨s, hs, fun i => by simpa using hpc i, herr⟩

/-- Where there is an error, every task may be brought to an end. -/
theorem exists_done [Fintype ι] {e : ε} (hs : (machine next start canceled).Reachable s)
    (herr : s.firstErr = some e) : ∃ s', (machine next start canceled).Reachable s' ∧ s'.Done ∧
      s'.firstErr = some e := by
  have hlist (l : List ι) : ∃ s', (machine next start canceled).Reachable s' ∧
      (∀ i ∈ l, ∃ r, s'.pc i = .done r) ∧ s'.firstErr = some e := by
    induction l with
    | nil => exact ⟨s, hs, by simp, herr⟩
    | cons j l ih =>
      obtain ⟨s', hs', hdone, herr'⟩ := ih
      cases hj : s'.pc j with
      | done r =>
        exact ⟨s', hs', List.forall_mem_cons.mpr ⟨⟨r, hj⟩, hdone⟩, herr'⟩
      | running t =>
        have hstep : (machine next start canceled).step s' (.cancel j) =
            some (s'.settle j (.done (.error canceled))) := by
          simp [machine, hj, herr']
        refine ⟨_, Machine.Reachable.next hs' hstep, fun i hi => ?_, by simp [settle, herr']⟩
        by_cases hij : i = j
        · subst hij
          exact ⟨.error canceled, by simp [settle]⟩
        · obtain ⟨r, hr⟩ := hdone i ((List.mem_cons.mp hi).resolve_left hij)
          exact ⟨r, by simpa [settle, hij] using hr⟩
  obtain ⟨s', hs', hdone, herr'⟩ := hlist Finset.univ.toList
  exact ⟨s', hs', fun i => hdone i (by simp), herr'⟩

variable (next start canceled) in
/-- What a task fails with alone may be the error of the group. -/
theorem exists_error [Fintype ι] {i : ι} {e : ε} (he : Returns (next i) (start i) (.error e)) :
    ∃ s, (machine next start canceled).Reachable s ∧ s.Done ∧ s.firstErr = some e := by
  have hinit : (machine next start canceled).Reachable ⟨fun i => .running (start i), none⟩ :=
    .init rfl
  obtain ⟨s, hs, -, herr⟩ := exists_return he hinit rfl
  exact exists_done hs herr

end TaskGroup

end KubeConsole.Theory
