import Mathlib

/-!
A keyed collection that changes over numbered versions, and streams of its changes.

A stream goes on from a version: each of its frames is the next change, or a mark up to which
there is none. Whoever applies the frames to the collection of one version has that of the
last version named.
-/
namespace KubeConsole.Theory

/-- What the collection is at first, and what each later version changes: one key, to a value
or to nothing. -/
structure History (κ α : Type*) where
  base : κ → Option α
  change : ℕ → Option (κ × Option α)

namespace History
variable {κ α ε : Type*} [DecidableEq κ] (H : History κ α)

/-- The collection as of a version. -/
def asOf : ℕ → κ → Option α
  | 0 => H.base
  | v + 1 =>
    match H.change (v + 1) with
    | none => asOf v
    | some (k, x) => Function.update (asOf v) k x

/-- Nothing changes after one version, up to another. -/
def Unchanged (u v : ℕ) : Prop := u ≤ v ∧ ∀ w, u < w → w ≤ v → H.change w = none

/-- `v` is the next version after `u` that changes something. -/
def NextChange (u v : ℕ) (c : κ × Option α) : Prop :=
  H.change v = some c ∧ u < v ∧ ∀ w, u < w → w < v → H.change w = none

variable {H} {u v z : ℕ}

theorem asOf_of_unchanged (h : H.Unchanged u v) : H.asOf v = H.asOf u := by
  obtain ⟨hle, hnone⟩ := h
  induction v with
  | zero => rw [Nat.le_zero.mp hle]
  | succ v ih =>
    rcases Nat.lt_or_eq_of_le hle with hlt | rfl
    · rw [asOf, hnone (v + 1) hlt le_rfl]
      exact ih (Nat.le_of_lt_succ hlt) fun w hu hw => hnone w hu (Nat.le_succ_of_le hw)
    · rfl

theorem asOf_of_nextChange {c : κ × Option α} (h : H.NextChange u v c) :
    H.asOf v = Function.update (H.asOf u) c.1 c.2 := by
  obtain ⟨hchange, hlt, hnone⟩ := h
  cases v with
  | zero => exact absurd hlt (Nat.not_lt_zero u)
  | succ v =>
    have hquiet : H.Unchanged u v :=
      ⟨Nat.le_of_lt_succ hlt, fun w hu hw => hnone w hu (Nat.lt_succ_of_le hw)⟩
    rw [asOf, hchange, asOf_of_unchanged hquiet]

/-- What holds of every value that is ever there. -/
theorem asOf_forall {P : κ → α → Prop} (hbase : ∀ k x, H.base k = some x → P k x)
    (hchange : ∀ v k x, H.change v = some (k, some x) → P k x) (v : ℕ) :
    ∀ k x, H.asOf v k = some x → P k x := by
  induction v with
  | zero => exact hbase
  | succ v ih =>
    intro k x hx
    unfold asOf at hx
    cases hc : H.change (v + 1) with
    | none =>
      rw [hc] at hx
      exact ih k x hx
    | some c =>
      obtain ⟨k', x'⟩ := c
      simp only [hc] at hx
      by_cases hk : k = k'
      · subst hk
        rw [Function.update_self] at hx
        exact hchange (v + 1) k x (hx ▸ hc)
      · rw [Function.update_of_ne hk] at hx
        exact ih k x hx

variable (H) in
/-- From one version a stream leads to another; of a frame it is known which changes and
which marks it can stand for. -/
inductive Streams (shows : ε → ℕ → κ × Option α → Prop) (marks : ε → ℕ → Prop) :
    ℕ → List ε → ℕ → Prop where
  | nil (u : ℕ) : Streams shows marks u [] u
  | change {u v z : ℕ} {c : κ × Option α} {e : ε} {es : List ε} : H.NextChange u v c → shows e v c →
      Streams shows marks v es z → Streams shows marks u (e :: es) z
  | mark {u v z : ℕ} {e : ε} {es : List ε} : H.Unchanged u v → marks e v →
      Streams shows marks v es z → Streams shows marks u (e :: es) z

namespace Streams
variable {shows : ε → ℕ → κ × Option α → Prop} {marks : ε → ℕ → Prop} {es fs : List ε}

omit [DecidableEq κ] in
theorem append_iff : H.Streams shows marks u (es ++ fs) z ↔
    ∃ v, H.Streams shows marks u es v ∧ H.Streams shows marks v fs z := by
  induction es generalizing u with
  | nil =>
    constructor
    · exact fun h => ⟨u, .nil u, h⟩
    · rintro ⟨v, hnil, h⟩
      cases hnil
      exact h
  | cons e es ih =>
    constructor
    · intro h
      cases h with
      | change hnext hshows hrest =>
        obtain ⟨v, hes, hfs⟩ := ih.mp hrest
        exact ⟨v, .change hnext hshows hes, hfs⟩
      | mark hquiet hmarks hrest =>
        obtain ⟨v, hes, hfs⟩ := ih.mp hrest
        exact ⟨v, .mark hquiet hmarks hes, hfs⟩
    · rintro ⟨v, hes, hfs⟩
      cases hes with
      | change hnext hshows hrest => exact .change hnext hshows (ih.mpr ⟨v, hrest, hfs⟩)
      | mark hquiet hmarks hrest => exact .mark hquiet hmarks (ih.mpr ⟨v, hrest, hfs⟩)

omit [DecidableEq κ] in
/-- A reader's state that each frame keeps in step with the versions is so after a stream. -/
theorem follow {σ : Type*} {R : σ → ℕ → Prop} {f : σ → ε → σ}
    (hchange : ∀ s u v c e, R s u → H.NextChange u v c → shows e v c → R (f s e) v)
    (hmark : ∀ s u v e, R s u → H.Unchanged u v → marks e v → R (f s e) v) {s : σ}
    (hs : R s u) (h : H.Streams shows marks u es z) : R (es.foldl f s) z := by
  induction h generalizing s with
  | nil => exact hs
  | change hnext hshows _ ih => exact ih (hchange _ _ _ _ _ hs hnext hshows)
  | mark hquiet hmarks _ ih => exact ih (hmark _ _ _ _ hs hquiet hmarks)

omit [DecidableEq κ] in
/-- Where frames tell their version, a stream ends in one place. -/
theorem unique {ν : Type*} {name : ℕ → ν} (hname : name.Injective) {f : ε → ν}
    (hshows : ∀ e v c, shows e v c → f e = name v) (hmarks : ∀ e v, marks e v → f e = name v)
    {z' : ℕ} (h : H.Streams shows marks u es z) (h' : H.Streams shows marks u es z') : z = z' := by
  induction h with
  | nil =>
    cases h'
    rfl
  | @change _ v _ _ e _ _ hshow _ ih =>
    cases h' with
    | change _ hshow' hrest =>
      cases hname ((hshows _ _ _ hshow).symm.trans (hshows _ _ _ hshow'))
      exact ih hrest
    | mark _ hmark' hrest =>
      cases hname ((hshows _ _ _ hshow).symm.trans (hmarks _ _ hmark'))
      exact ih hrest
  | @mark _ v _ e _ _ hmark _ ih =>
    cases h' with
    | change _ hshow' hrest =>
      cases hname ((hmarks _ _ hmark).symm.trans (hshows _ _ _ hshow'))
      exact ih hrest
    | mark _ hmark' hrest =>
      cases hname ((hmarks _ _ hmark).symm.trans (hmarks _ _ hmark'))
      exact ih hrest

end Streams
end History
end KubeConsole.Theory
