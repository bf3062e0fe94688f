import Mathlib

/-!
Spans of positions: the leftmost occurrences that do not overlap, the positions that spans cover,
and texts that are cut into pieces.
-/
namespace KubeConsole.Theory

/-! ## Occurrences -/

/-- Of the occurrences of something of length `n`, those that no earlier one of them overlaps. -/
def Leftmost (occurs : ℕ → Prop) (n : ℕ) (i : ℕ) : Prop :=
  occurs i ∧ ∀ j, j < i → Leftmost occurs n j → j + n ≤ i
termination_by i

theorem leftmost_iff {occurs : ℕ → Prop} {n i : ℕ} : Leftmost occurs n i ↔
    occurs i ∧ ∀ j, j < i → Leftmost occurs n j → j + n ≤ i := by
  rw [Leftmost]

/-- There is one such set of starts. -/
theorem leftmost_unique {occurs S : ℕ → Prop} {n : ℕ}
    (h : ∀ i, S i ↔ occurs i ∧ ∀ j, S j → j < i → j + n ≤ i) (i : ℕ) :
    S i ↔ Leftmost occurs n i := by
  induction i using Nat.strong_induction_on with
  | _ i ih =>
    rw [h, leftmost_iff]
    refine and_congr_right fun _ => ⟨fun hS j hj hl => ?_, fun hl j hS hj => ?_⟩
    · exact hS j ((ih j hj).mpr hl) hj
    · exact hl j hj ((ih j hj).mp hS)

/-- The first occurrence from `start` on. -/
def nextFrom (occurs : ℕ → Bool) (bound start : ℕ) : Option ℕ :=
  (List.range' start (bound - start)).find? occurs

/-- Each search goes on where the occurrence before it ends. -/
def occurrences (occurs : ℕ → Bool) (bound n : ℕ) : ℕ → ℕ → List (ℕ × ℕ)
  | 0, _ => []
  | fuel + 1, start =>
    match nextFrom occurs bound start with
    | none => []
    | some i => (i, i + n) :: occurrences occurs bound n fuel (i + n)

/-- Spans in ascending order that are not empty and do not overlap. -/
def Spaced (rs : List (ℕ × ℕ)) : Prop :=
  (∀ r ∈ rs, r.1 < r.2) ∧ rs.Pairwise fun r r' => r.2 ≤ r'.1

def InRanges (rs : List (ℕ × ℕ)) (k : ℕ) : Prop := ∃ r ∈ rs, r.1 ≤ k ∧ k < r.2

instance (rs : List (ℕ × ℕ)) (k : ℕ) : Decidable (InRanges rs k) :=
  inferInstanceAs (Decidable (∃ r ∈ rs, r.1 ≤ k ∧ k < r.2))

variable {occurs : ℕ → Bool} {bound n : ℕ}

theorem nextFrom_some {start i : ℕ} (h : nextFrom occurs bound start = some i) :
    occurs i = true ∧ start ≤ i ∧ i < bound ∧ ∀ j, start ≤ j → j < i → occurs j = false := by
  obtain ⟨hi, before, after, heq, hbefore⟩ := List.find?_eq_some_iff_append.mp h
  have hmem : i ∈ List.range' start (bound - start) := by simp [heq]
  obtain ⟨hstart, hend⟩ := List.mem_range'_1.mp hmem
  refine ⟨hi, hstart, by omega, fun j hj hji => ?_⟩
  have hmem : j ∈ before ++ i :: after := heq ▸ List.mem_range'_1.mpr ⟨hj, by omega⟩
  have hsorted : (before ++ i :: after).Pairwise (· < ·) := heq ▸ List.pairwise_lt_range'
  rcases List.mem_append.mp hmem with hmem | hmem
  · simpa using hbefore j hmem
  · -- what stands behind `i` is greater
    have hle := (List.pairwise_cons.mp (List.pairwise_append.mp hsorted).2.1).1
    rcases List.mem_cons.mp hmem with rfl | hmem
    · omega
    · have := hle j hmem
      omega

theorem nextFrom_none {start : ℕ} (h : nextFrom occurs bound start = none) {j : ℕ}
    (hj : start ≤ j) (hb : j < bound) : occurs j = false := by
  have hmem : j ∈ List.range' start (bound - start) := List.mem_range'_1.mpr ⟨hj, by omega⟩
  simpa using List.find?_eq_none.mp h j hmem

/-- What a search finds: the occurrences from `start` on that no found one overlaps. -/
theorem occurrences_spec (hn : 0 < n) (hbound : ∀ i, occurs i = true → i < bound) (fuel start : ℕ)
    (hfuel : bound - start ≤ fuel) :
    Spaced (occurrences occurs bound n fuel start) ∧
    (∀ r ∈ occurrences occurs bound n fuel start, start ≤ r.1 ∧ r.2 = r.1 + n) ∧
    ∀ i, (i, i + n) ∈ occurrences occurs bound n fuel start ↔ (occurs i = true ∧ start ≤ i) ∧
      ∀ j, (j, j + n) ∈ occurrences occurs bound n fuel start → j < i → j + n ≤ i := by
  induction fuel generalizing start with
  | zero =>
    refine ⟨⟨by simp [occurrences], by simp [occurrences]⟩, by simp [occurrences], fun i => ?_⟩
    refine ⟨by simp [occurrences], fun h => ?_⟩
    have := hbound i h.1.1
    omega
  | succ fuel ih =>
    cases hnext : nextFrom occurs bound start with
    | none =>
      simp only [occurrences, hnext]
      refine ⟨⟨by simp, by simp⟩, by simp, fun i => ⟨by simp, fun h => ?_⟩⟩
      have hno := nextFrom_none hnext h.1.2 (hbound i h.1.1)
      rw [h.1.1] at hno
      cases hno
    | some s =>
      obtain ⟨hs, hstart, hsb, hfirst⟩ := nextFrom_some hnext
      obtain ⟨⟨hlt, hpair⟩, hge, hmem⟩ := ih (s + n) (by omega)
      simp only [occurrences, hnext]
      refine ⟨⟨?_, List.pairwise_cons.mpr ⟨fun r hr => (hge r hr).1, hpair⟩⟩, ?_, fun i => ?_⟩
      · exact List.forall_mem_cons.mpr ⟨by omega, hlt⟩
      · refine List.forall_mem_cons.mpr ⟨⟨hstart, rfl⟩, fun r hr => ⟨?_, (hge r hr).2⟩⟩
        have := (hge r hr).1
        omega
      · rw [List.mem_cons, hmem]
        constructor
        · rintro (heq | ⟨⟨hi, hsi⟩, hrest⟩)
          · obtain ⟨rfl, -⟩ := Prod.mk.inj heq
            refine ⟨⟨hs, hstart⟩, fun j hj hji => ?_⟩
            rcases List.mem_cons.mp hj with heq | hj
            · obtain ⟨rfl, -⟩ := Prod.mk.inj heq
              omega
            · have := (hge _ hj).1
              omega
          · refine ⟨⟨hi, by omega⟩, fun j hj hji => ?_⟩
            rcases List.mem_cons.mp hj with heq | hj
            · obtain ⟨rfl, -⟩ := Prod.mk.inj heq
              exact hsi
            · exact hrest j hj hji
        · rintro ⟨⟨hi, hsi⟩, hrest⟩
          rcases Nat.lt_trichotomy i s with hlt | rfl | hgt
          · rw [hfirst i hsi hlt] at hi
            cases hi
          · exact .inl rfl
          · refine .inr ⟨⟨hi, hrest s List.mem_cons_self hgt⟩, fun j hj hji => ?_⟩
            exact hrest j (List.mem_cons_of_mem _ hj) hji

/-- From the beginning on, these are the leftmost occurrences that do not overlap. -/
theorem covers_occurrences (hn : 0 < n) (hbound : ∀ i, occurs i = true → i < bound) {fuel : ℕ}
    (hfuel : bound ≤ fuel) (k : ℕ) : InRanges (occurrences occurs bound n fuel 0) k ↔
      ∃ i, Leftmost (occurs · = true) n i ∧ i ≤ k ∧ k < i + n := by
  obtain ⟨-, hlen, hmem⟩ := occurrences_spec hn hbound fuel 0 (by omega)
  have hleft : ∀ i, (i, i + n) ∈ occurrences occurs bound n fuel 0 ↔
      Leftmost (occurs · = true) n i := leftmost_unique fun i => by rw [hmem]; simp
  constructor
  · rintro ⟨⟨i, e⟩, hr, hik, hke⟩
    obtain rfl : e = i + n := (hlen _ hr).2
    exact ⟨i, (hleft i).mp hr, hik, hke⟩
  · rintro ⟨i, hi, hik, hke⟩
    exact ⟨(i, i + n), (hleft i).mpr hi, hik, hke⟩

theorem occurrences_ne_nil (hbound : ∀ i, occurs i = true → i < bound) (fuel start : ℕ) :
    occurrences occurs bound n (fuel + 1) start ≠ [] ↔ ∃ i, start ≤ i ∧ occurs i = true := by
  rw [occurrences]
  cases hnext : nextFrom occurs bound start with
  | none =>
    refine ⟨fun h => absurd rfl h, fun ⟨i, hi, hocc⟩ => ?_⟩
    rw [nextFrom_none hnext hi (hbound i hocc)] at hocc
    cases hocc
  | some i =>
    obtain ⟨hocc, hi, -⟩ := nextFrom_some hnext
    exact ⟨fun _ => ⟨i, hi, hocc⟩, fun _ => List.cons_ne_nil _ _⟩

/-! ## Pieces -/

section Pieces
variable {α β γ : Type*} (text : α → List β)

/-- The piece in which a position of the whole lies. -/
def pieceAt : List α → ℕ → Option α
  | [], _ => none
  | x :: xs, k => if k < (text x).length then some x else pieceAt xs (k - (text x).length)

/-- What is said of the pieces, said of every position. -/
def spread (f : α → γ) (xs : List α) : List γ :=
  xs.flatMap fun x => List.replicate (text x).length (f x)

theorem spread_append (f : α → γ) (xs ys : List α) :
    spread text f (xs ++ ys) = spread text f xs ++ spread text f ys := List.flatMap_append

theorem length_spread (f : α → γ) (xs : List α) :
    (spread text f xs).length = (xs.flatMap text).length := by
  simp [spread, List.length_flatMap]

theorem zipIdx_replicate (x : γ) (n start : ℕ) :
    (List.replicate n x).zipIdx start = (List.range' start n).map fun k => (x, k) := by
  induction n generalizing start with
  | zero => rfl
  | succ n ih => rw [List.replicate_succ, List.zipIdx_cons, ih, List.range'_succ, List.map_cons]

theorem getElem?_spread (f : α → γ) (xs : List α) (k : ℕ) :
    (spread text f xs)[k]? = (pieceAt text xs k).map f := by
  induction xs generalizing k with
  | nil => rfl
  | cons x xs ih =>
    rw [spread, List.flatMap_cons, pieceAt]
    split_ifs with hk
    · rw [List.getElem?_append_left (by simpa using hk), List.getElem?_replicate, if_pos hk]
      rfl
    · rw [List.getElem?_append_right (by simpa using hk), List.length_replicate]
      exact ih _

end Pieces

/-! ## Dropping spans that have ended -/

theorem Spaced.dropWhile {rs : List (ℕ × ℕ)} (h : Spaced rs) (p : ℕ × ℕ → Bool) :
    Spaced (rs.dropWhile p) :=
  ⟨fun r hr => h.1 r ((List.dropWhile_sublist p).subset hr),
    h.2.sublist (List.dropWhile_sublist p)⟩

/-- A span that has ended covers nothing any more. -/
theorem covers_dropWhile (rs : List (ℕ × ℕ)) {cursor k : ℕ} (hk : cursor ≤ k) :
    InRanges (rs.dropWhile (·.2 ≤ cursor)) k ↔ InRanges rs k := by
  induction rs with
  | nil => rfl
  | cons r rs ih =>
    rw [List.dropWhile_cons]
    split_ifs with hr
    · have hle : r.2 ≤ cursor := of_decide_eq_true hr
      rw [ih]
      refine ⟨fun ⟨q, hq, hcover⟩ => ⟨q, List.mem_cons_of_mem r hq, hcover⟩, ?_⟩
      rintro ⟨q, hq, hle', hlt⟩
      rcases List.mem_cons.mp hq with rfl | hq
      · omega
      · exact ⟨q, hq, hle', hlt⟩
    · rfl

/-- Of spans that are apart, only the first one can cover what lies before its end. -/
theorem Spaced.covers_cons {r : ℕ × ℕ} {rs : List (ℕ × ℕ)} (h : Spaced (r :: rs)) {k : ℕ}
    (hk : k < r.2) : InRanges (r :: rs) k ↔ r.1 ≤ k := by
  constructor
  · rintro ⟨q, hq, hle, -⟩
    rcases List.mem_cons.mp hq with rfl | hq
    · exact hle
    · have := (List.pairwise_cons.mp h.2).1 q hq
      omega
  · exact fun hle => ⟨r, List.mem_cons_self, hle, hk⟩

end KubeConsole.Theory
