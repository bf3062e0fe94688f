import Mathlib

/-!
Collections served in pages that are linked by tokens, and a reader that takes in page after
page until it has had enough.
-/
namespace KubeConsole.Theory
variable {τ π σ ε : Type*} (serve : τ → Except ε π) (next : π → Option τ)

/-- The pages from a token to the end. -/
inductive Linked : τ → List π → Prop where
  | last {t : τ} {p : π} : serve t = .ok p → next p = none → Linked t [p]
  | link {t u : τ} {p : π} {ps : List π} : serve t = .ok p → next p = some u → Linked u ps →
      Linked t (p :: ps)

/-- The pages that are left at a token, if there is one. -/
def Left : Option τ → List π → Prop
  | none, ps => ps = []
  | some u, ps => Linked serve next u ps

/-- Read at most so many pages, and no further once `stop` says so. -/
def readPages (absorb : σ → π → σ) (stop : σ → Bool) : ℕ → τ → σ → Except ε (σ × Option τ)
  | 0, t, s => .ok (s, some t)
  | n + 1, t, s =>
    match serve t with
    | .error e => .error e
    | .ok p =>
      match next p with
      | none => .ok (absorb s p, none)
      | some u =>
        if stop (absorb s p) then .ok (absorb s p, some u)
        else readPages absorb stop n u (absorb s p)

variable {serve next}

theorem Linked.ne_nil {t : τ} {ps : List π} (h : Linked serve next t ps) : ps ≠ [] := by
  cases h with
  | last => exact List.cons_ne_nil _ _
  | link => exact List.cons_ne_nil _ _

theorem Left.eq_none_iff {t : Option τ} {ps : List π} (h : Left serve next t ps) :
    t = none ↔ ps = [] := by
  cases t with
  | none => exact iff_of_true rfl h
  | some u => exact iff_of_false nofun (Linked.ne_nil h)

/-- What is read is the pages from the token on, at least one of them and in their order; and
the reader does not stop before the end unless it may. -/
theorem readPages_linked (absorb : σ → π → σ) (stop : σ → Bool) {t : τ} {ps : List π}
    (h : Linked serve next t ps) {n : ℕ} (hn : 0 < n) (s : σ) :
    ∃ k u, 0 < k ∧ k ≤ n ∧ k ≤ ps.length ∧
      readPages serve next absorb stop n t s = .ok ((ps.take k).foldl absorb s, u) ∧
      Left serve next u (ps.drop k) ∧
      (u = none ∨ k = n ∨ stop ((ps.take k).foldl absorb s) = true) := by
  induction h generalizing n s with
  | @last t p hp hnext =>
    obtain ⟨m, rfl⟩ := Nat.exists_eq_succ_of_ne_zero hn.ne'
    refine ⟨1, none, one_pos, Nat.le_add_left _ _, le_rfl, ?_, rfl, .inl rfl⟩
    simp only [readPages, hp, hnext]
    rfl
  | @link t u p ps hp hnext hrest ih =>
    obtain ⟨m, rfl⟩ := Nat.exists_eq_succ_of_ne_zero hn.ne'
    by_cases hstop : stop (absorb s p) = true
    · refine ⟨1, some u, one_pos, Nat.le_add_left _ _, Nat.le_add_left _ _, ?_, hrest,
        .inr (.inr hstop)⟩
      simp only [readPages, hp, hnext, hstop, if_true]
      rfl
    · have hread : readPages serve next absorb stop (m + 1) t s =
          readPages serve next absorb stop m u (absorb s p) := by
        simp only [readPages, hp, hnext, if_neg hstop]
      rcases Nat.eq_zero_or_pos m with rfl | hm
      · refine ⟨1, some u, one_pos, le_rfl, Nat.le_add_left _ _, ?_, hrest, .inr (.inl rfl)⟩
        rw [hread]
        rfl
      · obtain ⟨k, v, hk, hkm, hkl, heq, hleft, hwhy⟩ := ih hm (absorb s p)
        refine ⟨k + 1, v, k.succ_pos, Nat.succ_le_succ hkm, Nat.succ_le_succ hkl, ?_, hleft, ?_⟩
        · rw [hread, heq]
          rfl
        · rcases hwhy with hnone | hall | hmay
          · exact .inl hnone
          · exact .inr (.inl (congrArg (· + 1) hall))
          · exact .inr (.inr hmay)

end KubeConsole.Theory
