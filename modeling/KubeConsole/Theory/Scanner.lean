import Mathlib

/-!
Scanners that cut a beginning off a text and emit tokens for it. What a scanner can cut off is
described by a language; that it does cut off a given beginning is a fact about what follows.
-/
namespace KubeConsole.Theory

/-- What is taken while a condition holds ends before the first element that fails it. -/
theorem takeWhile_stop {α : Type*} {p : α → Bool} {u r : List α} (hu : ∀ c ∈ u, p c = true)
    (hr : ∀ c ∈ r.head?, p c = false) :
    (u ++ r).takeWhile p = u ∧ (u ++ r).dropWhile p = r := by
  rw [List.takeWhile_append_of_pos hu, List.dropWhile_append_of_pos hu]
  cases r with
  | nil => simp
  | cons c r =>
    have hc := hr c rfl
    simp [hc]

/-- The first separator parts a text in one way. -/
theorem append_cons_inj_of_notMem {α : Type*} [DecidableEq α] {x : α} {a b a' b' : List α}
    (h : a ++ x :: b = a' ++ x :: b') (ha : x ∉ a) (ha' : x ∉ a') : a = a' ∧ b = b' := by
  have hlength := congrArg (List.idxOf x) h
  rw [List.idxOf_append_of_notMem ha, List.idxOf_append_of_notMem ha', List.idxOf_cons_self,
    List.idxOf_cons_self, add_zero, add_zero] at hlength
  obtain ⟨rfl, htail⟩ := List.append_inj h hlength
  exact ⟨rfl, List.tail_eq_of_cons_eq htail⟩

/-- A scanner returns the tokens and the rest of the text, or fails. -/
def Scanner (α τ : Type*) := List α → Option (List τ × List α)

namespace Scanner
variable {α τ : Type*} {p q e : Scanner α τ} {L M E : List α → List τ → Prop}
  {u v r : List α}

/-- `p`, then `q` on what is left. -/
def seq (p q : Scanner α τ) : Scanner α τ := fun s =>
  (p s).bind fun x => (q x.2).map fun y => (x.1 ++ y.1, y.2)

/-- `p`, then `q`; where `p` fails, `e`. -/
def branch (p q e : Scanner α τ) : Scanner α τ := fun s =>
  match p s with
  | some x => (q x.2).map fun y => (x.1 ++ y.1, y.2)
  | none => e s

/-- Nothing is cut off. -/
def done : Scanner α τ := fun s => some ([], s)

/-- Beginnings that are a word of `L` followed by one of `M`. -/
def Join (L M : List α → List τ → Prop) : List α → List τ → Prop := fun w ts =>
  ∃ u v t t', w = u ++ v ∧ ts = t ++ t' ∧ L u t ∧ M v t'

/-- What `p` cuts off, with what it emits for it, is in `L`. -/
def Sound (p : Scanner α τ) (L : List α → List τ → Prop) : Prop :=
  ∀ s ts r, p s = some (ts, r) → ∃ u, s = u ++ r ∧ L u ts

theorem Sound.mono (h : Sound p L) (hLM : ∀ u ts, L u ts → M u ts) : Sound p M := by
  intro s ts r hp
  obtain ⟨u, hs, hu⟩ := h s ts r hp
  exact ⟨u, hs, hLM u ts hu⟩

theorem Sound.seq (hp : Sound p L) (hq : Sound q M) : Sound (p.seq q) (Join L M) := by
  intro s ts r h
  obtain ⟨⟨t, s'⟩, ht, h⟩ := Option.bind_eq_some_iff.mp h
  obtain ⟨⟨t', r'⟩, ht', heq⟩ := Option.map_eq_some_iff.mp h
  cases heq
  obtain ⟨u, rfl, hu⟩ := hp s t s' ht
  obtain ⟨v, rfl, hv⟩ := hq _ _ _ ht'
  exact ⟨u ++ v, (List.append_assoc u v _).symm, u, v, t, t', rfl, rfl, hu, hv⟩

theorem Sound.branch (hp : Sound p L) (hq : Sound q M) (he : Sound e E) :
    Sound (p.branch q e) fun u ts => Join L M u ts ∨ E u ts := by
  intro s ts r h
  unfold Scanner.branch at h
  cases hps : p s with
  | none =>
    rw [hps] at h
    obtain ⟨u, hs, hu⟩ := he s ts r h
    exact ⟨u, hs, .inr hu⟩
  | some x =>
    rw [hps] at h
    have hseq : p.seq q s = some (ts, r) := by
      unfold Scanner.seq
      rw [hps]
      exact h
    obtain ⟨u, hs, hu⟩ := hp.seq hq s ts r hseq
    exact ⟨u, hs, .inl hu⟩

theorem sound_done : Sound (done : Scanner α τ) fun u ts => u = [] ∧ ts = [] := by
  intro s ts r h
  cases h
  exact ⟨[], rfl, rfl, rfl⟩

/-- `p` cuts `u` off where `r` follows. -/
def Cuts (p : Scanner α τ) (u r : List α) : Prop := ∃ ts, p (u ++ r) = some (ts, r)

theorem Cuts.seq (hp : Cuts p u (v ++ r)) (hq : Cuts q v r) : Cuts (p.seq q) (u ++ v) r := by
  obtain ⟨t, ht⟩ := hp
  obtain ⟨t', ht'⟩ := hq
  refine ⟨t ++ t', ?_⟩
  unfold Scanner.seq
  rw [List.append_assoc, ht, Option.bind_some, ht', Option.map_some]

theorem Cuts.branch (hp : Cuts p u (v ++ r)) (hq : Cuts q v r) :
    Cuts (p.branch q e) (u ++ v) r := by
  obtain ⟨t, ht⟩ := hp
  obtain ⟨t', ht'⟩ := hq
  refine ⟨t ++ t', ?_⟩
  unfold Scanner.branch
  rw [List.append_assoc, ht]
  simp only [ht', Option.map_some]

theorem Cuts.branch_right (hp : p (u ++ r) = none) (he : Cuts e u r) :
    Cuts (p.branch q e) u r := by
  obtain ⟨t, ht⟩ := he
  refine ⟨t, ?_⟩
  unfold Scanner.branch
  rw [hp]
  exact ht

theorem cuts_done : Cuts (done : Scanner α τ) [] r := ⟨[], rfl⟩

end Scanner
end KubeConsole.Theory
