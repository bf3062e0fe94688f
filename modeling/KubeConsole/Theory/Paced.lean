import Mathlib

/-! Spans of time that follow each other at a distance, and how many of them a time has room for. -/
namespace KubeConsole.Theory
variable {α : Type*} (since till : α → ℕ)

/-- The last span in front: each begins `d` or more after the end of those behind it. -/
def Paced (d : ℕ) (xs : List α) : Prop :=
  xs.Pairwise fun later earlier => till earlier + d ≤ since later

variable {since till} {d : ℕ} {x : α} {xs : List α}

theorem Paced.nil : Paced since till d [] := List.Pairwise.nil

theorem Paced.cons (h : Paced since till d xs) (hx : ∀ y ∈ xs, till y + d ≤ since x) :
    Paced since till d (x :: xs) :=
  List.pairwise_cons.mpr ⟨hx, h⟩

/-- Spans at a distance take at least the time of the gaps between them. -/
theorem Paced.length_mul_le {now : ℕ} (h : Paced since till d xs)
    (hin : ∀ x ∈ xs, since x ≤ till x ∧ till x ≤ now) : (xs.length - 1) * d ≤ now := by
  induction xs generalizing now with
  | nil => simp
  | cons x xs ih =>
    obtain ⟨hx, h⟩ := List.pairwise_cons.mp h
    obtain ⟨⟨hle, hnow⟩, hin⟩ := List.forall_mem_cons.mp hin
    cases xs with
    | nil => simp
    | cons y xs =>
      have hgap := hx y List.mem_cons_self
      have hrec := @ih (since x - d) h fun z hz => by
        have hz' := hx z hz
        exact ⟨(hin z hz).1, by omega⟩
      simp only [List.length_cons, Nat.add_sub_cancel] at hrec ⊢
      rw [Nat.add_mul, Nat.one_mul]
      omega

end KubeConsole.Theory
