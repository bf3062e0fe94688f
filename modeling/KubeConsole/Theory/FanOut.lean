import KubeConsole.Theory.Transition

/-!
Tasks that are launched in order, a bounded number at a time, and finish in any order; each
has an effect on a shared state when it finishes.

What a complete run makes of the shared state is a fold over the order in which the tasks
finished. A task can be the first of its kind to finish exactly when fewer tasks of its kind
than the bound come before it.
-/
namespace KubeConsole.Theory

structure FanOut (σ : Type*) where
  shared : σ
  launched : ℕ := 0
  running : List ℕ := []
  /-- In the order in which they finished. -/
  finished : List ℕ := []

inductive FanOutAction where
  | launch
  | finish (i : ℕ)
  deriving DecidableEq, Repr

namespace FanOut
variable {σ : Type*}

/-- Tasks `0`, ..., `n - 1`, at most `limit` at a time. -/
def machine (n limit : ℕ) (effect : σ → ℕ → σ) (s₀ : σ) : Machine (FanOut σ) FanOutAction where
  init s := s = { shared := s₀ }
  step s
    | .launch =>
      if s.launched < n ∧ s.running.length < limit then
        some { s with launched := s.launched + 1, running := s.launched :: s.running }
      else none
    | .finish i =>
      if i ∈ s.running then
        some { s with
          shared := effect s.shared i
          running := s.running.erase i
          finished := s.finished ++ [i] }
      else none

def Done (n : ℕ) (s : FanOut σ) : Prop := s.launched = n ∧ s.running = []

variable {n limit : ℕ} {effect : σ → ℕ → σ} {s₀ : σ} {s t : FanOut σ} {i : ℕ}

theorem step_launch (h : (machine n limit effect s₀).step s .launch = some t) :
    s.launched < n ∧ s.running.length < limit ∧
      t = { s with launched := s.launched + 1, running := s.launched :: s.running } := by
  simp only [machine, Option.ite_none_right_eq_some, Option.some.injEq] at h
  exact ⟨h.1.1, h.1.2, h.2.symm⟩

theorem step_finish (h : (machine n limit effect s₀).step s (.finish i) = some t) :
    i ∈ s.running ∧ t = { s with
      shared := effect s.shared i
      running := s.running.erase i
      finished := s.finished ++ [i] } := by
  simp only [machine, Option.ite_none_right_eq_some, Option.some.injEq] at h
  exact ⟨h.1, h.2.symm⟩

theorem launch_eq (hn : s.launched < n) (hlimit : s.running.length < limit) :
    (machine n limit effect s₀).step s .launch =
      some { s with launched := s.launched + 1, running := s.launched :: s.running } := by
  simp [machine, hn, hlimit]

theorem finish_eq (hi : i ∈ s.running) :
    (machine n limit effect s₀).step s (.finish i) = some { s with
      shared := effect s.shared i
      running := s.running.erase i
      finished := s.finished ++ [i] } := by
  simp [machine, hi]

/-- The tasks launched so far are those that finished and those that run, and the shared state
is the fold over the former. -/
structure Accounted (n limit : ℕ) (effect : σ → ℕ → σ) (s₀ : σ) (s : FanOut σ) : Prop where
  launched_le : s.launched ≤ n
  running_le : s.running.length ≤ limit
  perm : (s.finished ++ s.running).Perm (List.range s.launched)
  shared : s.shared = s.finished.foldl effect s₀

theorem accounted (hs : (machine n limit effect s₀).Reachable s) : Accounted n limit effect s₀ s := by
  refine hs.invariant ?_ ?_
  · rintro s rfl
    exact ⟨Nat.zero_le _, Nat.zero_le _, List.Perm.refl _, rfl⟩
  · intro s a t h _ ht
    cases a with
    | launch =>
      obtain ⟨hn, hlimit, rfl⟩ := step_launch ht
      refine ⟨hn, hlimit, ?_, h.shared⟩
      rw [List.range_succ]
      calc s.finished ++ s.launched :: s.running
          |>.Perm (s.launched :: (s.finished ++ s.running)) := List.perm_middle
        _ |>.Perm (s.launched :: List.range s.launched) := h.perm.cons _
        _ |>.Perm (List.range s.launched ++ [s.launched]) := (List.perm_append_singleton _ _).symm
    | finish i =>
      obtain ⟨hi, rfl⟩ := step_finish ht
      refine ⟨h.launched_le, (List.length_erase_le).trans h.running_le, ?_, ?_⟩
      · rw [List.append_assoc, List.singleton_append]
        exact ((List.perm_cons_erase hi).symm.append_left _).trans h.perm
      · rw [List.foldl_concat, h.shared]

/-- In a complete run every task finished, once. -/
theorem Done.perm (hs : (machine n limit effect s₀).Reachable s) (hdone : s.Done n) :
    s.finished.Perm (List.range n) := by
  have hperm := (accounted hs).perm
  rwa [hdone.1, hdone.2, List.append_nil] at hperm

/-! ## The first of a kind -/

variable (P : ℕ → Prop) [DecidablePred P]

/-- How many tasks of a kind come before one. -/
def before (i : ℕ) : ℕ := ((List.range i).filter P).length

theorem before_lt_of_running (hs : (machine n limit effect s₀).Reachable s) (hi : i ∈ s.running)
    (hP : P i) (hnone : ∀ b ∈ s.finished, ¬ P b) : before P i < limit := by
  have h := accounted hs
  have hnodup : (s.finished ++ s.running).Nodup := h.perm.nodup_iff.mpr List.nodup_range
  have hlt : i < s.launched :=
    List.mem_range.mp (h.perm.mem_iff.mp (List.mem_append_right _ hi))
  -- All tasks of the kind up to `i` are running.
  have hsub : (List.range (i + 1)).filter P ⊆ s.running := by
    intro b hb
    obtain ⟨hb, hPb⟩ := List.mem_filter.mp hb
    have hmem : b ∈ s.finished ++ s.running :=
      h.perm.mem_iff.mpr (List.mem_range.mpr (by have := List.mem_range.mp hb; omega))
    rcases List.mem_append.mp hmem with hfin | hrun
    · exact absurd (of_decide_eq_true hPb) (hnone b hfin)
    · exact hrun
  have hle := ((List.nodup_range.filter _).subperm hsub).length_le
  rw [List.range_succ, List.filter_append, List.length_append,
    List.filter_singleton, decide_eq_true hP] at hle
  exact lt_of_lt_of_le (Nat.lt_of_succ_le hle) h.running_le

theorem before_lt_of_first (hs : (machine n limit effect s₀).Reachable s) {xs ys : List ℕ}
    (hsplit : s.finished = xs ++ i :: ys) (hP : P i) (hnone : ∀ b ∈ xs, ¬ P b) :
    before P i < limit := by
  refine hs.invariant_with (I := fun s => ∀ xs ys, s.finished = xs ++ i :: ys →
    (∀ b ∈ xs, ¬ P b) → before P i < limit) (fun _ h => h) ?_ ?_ xs ys hsplit hnone
  · rintro s rfl xs ys heq
    simp at heq
  · intro s a t hr h _ ht xs ys heq hxs
    cases a with
    | launch =>
      obtain ⟨-, -, rfl⟩ := step_launch ht
      exact h xs ys heq hxs
    | finish j =>
      obtain ⟨hj, rfl⟩ := step_finish ht
      cases ys using List.reverseRecOn with
      | nil =>
        obtain ⟨rfl, hij⟩ := List.append_inj' heq rfl
        obtain rfl : j = i := by simpa using hij
        exact before_lt_of_running P hr hj hP hxs
      | append_singleton ys y =>
        rw [← List.cons_append, ← List.append_assoc] at heq
        exact h xs ys (List.append_inj' heq rfl).1 hxs

/-! ## Runs -/

/-- Every run can be completed. -/
theorem exists_done (hlimit : 0 < limit) (hs : (machine n limit effect s₀).Reachable s) :
    ∃ t, (machine n limit effect s₀).Reachable t ∧ t.Done n ∧ s.finished <+: t.finished := by
  have hle := (accounted hs).launched_le
  -- Each step launches a task or takes one from those that run.
  induction hm : 2 * (n - s.launched) + s.running.length using Nat.strong_induction_on
    generalizing s with
  | _ m ih =>
    cases hrun : s.running with
    | cons i rest =>
      have hi : i ∈ s.running := hrun ▸ List.mem_cons_self
      have hstep := hs.next (finish_eq hi)
      have hlen := List.length_erase_of_mem hi
      have hpos := List.length_pos_of_mem hi
      obtain ⟨t, ht, hdone, hfin⟩ := ih _ (by simp only; omega) hstep hle rfl
      exact ⟨t, ht, hdone, (List.prefix_append _ _).trans hfin⟩
    | nil =>
      rcases hle.lt_or_eq with hlt | heq
      · have hstep := hs.next (launch_eq hlt (by simpa [hrun] using hlimit))
        obtain ⟨t, ht, hdone, hfin⟩ :=
          ih _ (by simp only [List.length_cons]; omega) hstep hlt rfl
        exact ⟨t, ht, hdone, hfin⟩
      · exact ⟨s, hs, ⟨heq, hrun⟩, List.prefix_refl _⟩

theorem before_succ (k : ℕ) : before P (k + 1) = before P k + if P k then 1 else 0 := by
  unfold before
  rw [List.range_succ, List.filter_append, List.length_append, List.filter_singleton]
  by_cases hk : P k
  · simp [hk]
  · simp [hk]

/-- The tasks of a kind wait, the others finish at once. -/
theorem exists_waiting {k : ℕ} (hk : k ≤ n) (hbefore : before P k < limit) :
    ∃ s, (machine n limit effect s₀).Reachable s ∧ s.launched = k ∧
      s.running.length = before P k ∧ ∀ b ∈ s.finished, ¬ P b := by
  induction k with
  | zero => exact ⟨{ shared := s₀ }, .init rfl, rfl, rfl, by simp⟩
  | succ k ih =>
    rw [before_succ] at hbefore
    obtain ⟨s, hs, hlaunched, hlen, hnone⟩ := ih (by omega) (by omega)
    have hlaunch := hs.next (launch_eq (by omega) (by omega))
    rw [before_succ]
    by_cases hP : P k
    · exact ⟨_, hlaunch, congrArg (· + 1) hlaunched, by simp [hP, hlen], hnone⟩
    · have hmem : k ∈ s.launched :: s.running := hlaunched ▸ List.mem_cons_self
      have hfinish := hlaunch.next (finish_eq hmem)
      refine ⟨_, hfinish, congrArg (· + 1) hlaunched, ?_, ?_⟩
      · simp only [hlaunched, List.erase_cons_head, hlen, if_neg hP, Nat.add_zero]
      · intro b hb
        rcases List.mem_append.mp hb with hb | hb
        · exact hnone b hb
        · exact List.mem_singleton.mp hb ▸ hP

/-- A task with few of its kind before it can be the first of them to finish. -/
theorem exists_first (hi : i < n) (hbefore : before P i < limit) :
    ∃ t, (machine n limit effect s₀).Reachable t ∧ t.Done n ∧
      ∃ xs ys, t.finished = xs ++ i :: ys ∧ ∀ b ∈ xs, ¬ P b := by
  obtain ⟨s, hs, hlaunched, hlen, hnone⟩ :=
    @exists_waiting _ _ _ effect s₀ P _ _ hi.le hbefore
  have hlaunch := hs.next (launch_eq (by omega) (by omega))
  have hmem : i ∈ s.launched :: s.running := hlaunched ▸ List.mem_cons_self
  have hfinish := hlaunch.next (finish_eq hmem)
  obtain ⟨t, ht, hdone, hfin⟩ := exists_done (by omega) hfinish
  obtain ⟨ys, hys⟩ := hfin
  refine ⟨t, ht, hdone, s.finished, ys, ?_, hnone⟩
  rw [← hys, List.append_assoc, List.singleton_append]

theorem length_filterMap {β : Type*} (f : ℕ → Option β) (k : ℕ) :
    ((List.range k).filterMap f).length = before (fun i => (f i).isSome) k := by
  induction k with
  | zero => rfl
  | succ k ih =>
    rw [List.range_succ, List.filterMap_append, List.length_append, ih, before_succ]
    cases hf : f k with
    | none => simp [hf]
    | some b => simp [hf]

/-- The tasks with few of their kind before them are the first of the kind. -/
theorem mem_take_filterMap {β : Type*} (f : ℕ → Option β) {k m : ℕ} {b : β} :
    b ∈ ((List.range k).filterMap f).take m ↔
      ∃ i < k, f i = some b ∧ before (fun j => (f j).isSome) i < m := by
  induction k with
  | zero => simp
  | succ k ih =>
    rw [List.range_succ, List.filterMap_append, List.take_append, List.mem_append, ih,
      length_filterMap]
    constructor
    · rintro (⟨i, hi, hfi, hlt⟩ | hlast)
      · exact ⟨i, hi.trans (Nat.lt_succ_self k), hfi, hlt⟩
      · have hpos : 0 < m - before (fun j => (f j).isSome) k := by
          by_contra hle
          rw [Nat.eq_zero_of_not_pos hle, List.take_zero] at hlast
          cases hlast
        have hmem := List.mem_of_mem_take hlast
        rw [List.filterMap_cons, List.filterMap_nil] at hmem
        cases hf : f k with
        | none =>
          rw [hf] at hmem
          cases hmem
        | some c =>
          rw [hf] at hmem
          obtain rfl := List.mem_singleton.mp hmem
          exact ⟨k, Nat.lt_succ_self k, hf, by omega⟩
    · rintro ⟨i, hi, hfi, hlt⟩
      rcases Nat.lt_succ_iff_lt_or_eq.mp hi with hi | rfl
      · exact .inl ⟨i, hi, hfi, hlt⟩
      · refine .inr ?_
        rw [List.filterMap_cons, hfi, List.filterMap_nil, List.take_of_length_le]
        · exact List.mem_singleton_self b
        · rw [List.length_singleton]
          omega

end FanOut
end KubeConsole.Theory
