import Mathlib

/-! The per-address bound on exec handshakes (`internal/exec/limits.go`). -/
namespace KubeConsole.Exec

/-- `ipGate`: how many handshakes each key holds. No key is kept at zero and no
key is above the limit. -/
structure IpGate where
  held : Finmap (fun _ : String => ℕ)
  limit : ℕ
  positive : ∀ key, held.lookup key ≠ some 0
  bounded : ∀ key n, held.lookup key = some n → n ≤ limit

/-- `newIPGate`: nil, a gate that admits everything, unless the limit is positive. -/
def newIPGate (limit : ℤ) : Option IpGate :=
  if limit ≤ 0 then none else
    some { held := ∅, limit := limit.toNat, positive := by simp, bounded := by simp }

namespace IpGate

/-- `g.held[key]`, zero for an absent key. -/
def count (g : IpGate) (key : String) : ℕ := (g.held.lookup key).getD 0

theorem count_le (g : IpGate) (key : String) : g.count key ≤ g.limit := by
  unfold count
  cases h : g.held.lookup key with
  | none => exact Nat.zero_le _
  | some n => exact g.bounded key n h

/-- A gate on which nobody holds anything is the empty map. -/
theorem held_eq_empty {g : IpGate} (h : ∀ key, g.count key = 0) : g.held = ∅ := by
  apply Finmap.ext_lookup
  intro key
  rw [Finmap.lookup_empty]
  cases hk : g.held.lookup key with
  | none => rfl
  | some n =>
    have hn : n = 0 := by simpa [count, hk] using h key
    exact absurd (hn ▸ hk) (g.positive key)

/-- `acquire` where the key is below the limit. -/
def take (g : IpGate) (key : String) (h : g.count key < g.limit) : IpGate where
  held := g.held.insert key (g.count key + 1)
  limit := g.limit
  positive k := by
    by_cases hk : k = key
    · subst hk; simp
    · rw [Finmap.lookup_insert_of_ne _ hk]; exact g.positive k
  bounded k n hn := by
    by_cases hk : k = key
    · subst hk; rw [Finmap.lookup_insert] at hn; cases hn; exact h
    · rw [Finmap.lookup_insert_of_ne _ hk] at hn; exact g.bounded k n hn

/-- `release`: one slot back, and the key dropped with its last one. -/
def give (g : IpGate) (key : String) : IpGate :=
  if h : g.count key ≤ 1 then
    { held := g.held.erase key
      limit := g.limit
      positive := fun k => by
        by_cases hk : k = key
        · subst hk; simp
        · rw [Finmap.lookup_erase_ne hk]; exact g.positive k
      bounded := fun k n hn => by
        by_cases hk : k = key
        · subst hk; simp at hn
        · rw [Finmap.lookup_erase_ne hk] at hn; exact g.bounded k n hn }
  else
    { held := g.held.insert key (g.count key - 1)
      limit := g.limit
      positive := fun k => by
        by_cases hk : k = key
        · subst hk; rw [Finmap.lookup_insert]; simp; omega
        · rw [Finmap.lookup_insert_of_ne _ hk]; exact g.positive k
      bounded := fun k n hn => by
        by_cases hk : k = key
        · subst hk; rw [Finmap.lookup_insert] at hn; cases hn
          exact (Nat.sub_le _ _).trans (g.count_le _)
        · rw [Finmap.lookup_insert_of_ne _ hk] at hn; exact g.bounded k n hn }

@[simp] theorem take_limit (g : IpGate) (key : String) (h : g.count key < g.limit) :
    (g.take key h).limit = g.limit := rfl

@[simp] theorem give_limit (g : IpGate) (key : String) : (g.give key).limit = g.limit := by
  unfold give; split <;> rfl

theorem take_count (g : IpGate) (key k : String) (h : g.count key < g.limit) :
    (g.take key h).count k = g.count k + if k = key then 1 else 0 := by
  by_cases hk : k = key
  · subst hk; simp [take, count]
  · simp [take, count, hk, Finmap.lookup_insert_of_ne _ hk]

theorem give_count (g : IpGate) (key k : String) :
    (g.give key).count k = g.count k - if k = key then 1 else 0 := by
  unfold give
  by_cases hk : k = key
  · subst hk
    split
    next h => simp only [count, Finmap.lookup_erase, Option.getD_none, ↓reduceIte] at h ⊢; omega
    next h => simp [count]
  · rw [if_neg hk, Nat.sub_zero]
    split
    next => simp [count, Finmap.lookup_erase_ne hk]
    next => simp [count, Finmap.lookup_insert_of_ne _ hk]

end IpGate

/-- `(*ipGate).acquire`: whether a slot was free, and the gate afterwards. -/
def acquire (g : Option IpGate) (key : String) : Bool × Option IpGate :=
  match g with
  | none => (true, none)
  | some g => if h : g.count key < g.limit then (true, some (g.take key h)) else (false, some g)

/-- `(*ipGate).release`. -/
def release (g : Option IpGate) (key : String) : Option IpGate := g.map (·.give key)

/-- What a key holds at a gate that may be disabled. -/
def heldBy (g : Option IpGate) (key : String) : ℕ := g.elim 0 (·.count key)

end KubeConsole.Exec
