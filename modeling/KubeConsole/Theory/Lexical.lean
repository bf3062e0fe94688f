import Mathlib

/-!
Paths resolved by their words alone: some elements are skipped, some go back to the parent, and the
others are names. Nothing is above the root.
-/
namespace KubeConsole.Theory.Lexical
variable {β : Type*} (skip up : β → Bool)

/-- From the names on the way so far, the last one in front. -/
def walk : List β → List β → List β
  | names, [] => names
  | names, x :: xs =>
    if skip x then walk names xs else if up x then walk names.tail xs else walk (x :: names) xs

def resolve (xs : List β) : List β := (walk skip up [] xs).reverse

/-- The element stands for itself. -/
def Plain (x : β) : Prop := skip x = false ∧ up x = false

variable {skip up} {x : β} {xs ys names : List β}

theorem walk_append (names xs ys : List β) :
    walk skip up names (xs ++ ys) = walk skip up (walk skip up names xs) ys := by
  induction xs generalizing names with
  | nil => rfl
  | cons x xs ih =>
    simp only [List.cons_append, walk]
    split_ifs
    · exact ih names
    · exact ih names.tail
    · exact ih (x :: names)

theorem walk_plain (h : ∀ x ∈ xs, Plain skip up x) :
    walk skip up names xs = xs.reverse ++ names := by
  induction xs generalizing names with
  | nil => rfl
  | cons x xs ih =>
    obtain ⟨⟨hskip, hup⟩, hrest⟩ := List.forall_mem_cons.mp h
    simp [walk, hskip, hup, ih hrest]

/-- Names resolve to themselves. -/
theorem resolve_plain (h : ∀ x ∈ xs, Plain skip up x) : resolve skip up xs = xs := by
  simp [resolve, walk_plain h]

theorem mem_walk (hx : x ∈ walk skip up names xs) : x ∈ names ∨ x ∈ xs ∧ Plain skip up x := by
  induction xs generalizing names with
  | nil => exact .inl hx
  | cons y xs ih =>
    simp only [walk] at hx
    split_ifs at hx with hskip hup
    · exact (ih hx).imp_right fun h => ⟨List.mem_cons_of_mem _ h.1, h.2⟩
    · exact (ih hx).imp List.mem_of_mem_tail fun h => ⟨List.mem_cons_of_mem _ h.1, h.2⟩
    · rcases ih hx with h | h
      · rcases List.mem_cons.mp h with rfl | h
        · exact .inr ⟨List.mem_cons_self, by simpa using hskip, by simpa using hup⟩
        · exact .inl h
      · exact .inr ⟨List.mem_cons_of_mem _ h.1, h.2⟩

/-- Only names are left, and only names of the path. -/
theorem mem_resolve (hx : x ∈ resolve skip up xs) : x ∈ xs ∧ Plain skip up x :=
  (mem_walk (List.mem_reverse.mp hx)).resolve_left List.not_mem_nil

theorem resolve_resolve (xs : List β) :
    resolve skip up (resolve skip up xs) = resolve skip up xs :=
  resolve_plain fun _ hx => (mem_resolve hx).2

/-- Skipped elements do not matter. -/
theorem resolve_skip (hx : skip x = true) (xs ys : List β) :
    resolve skip up (xs ++ x :: ys) = resolve skip up (xs ++ ys) := by
  simp [resolve, walk_append, walk, hx]

/-- A name followed by the way back does not matter either. -/
theorem resolve_parent {y : β} (hx : Plain skip up x) (hy : skip y = false) (hup : up y = true)
    (xs ys : List β) :
    resolve skip up (xs ++ x :: y :: ys) = resolve skip up (xs ++ ys) := by
  simp [resolve, walk_append, walk, hx.1, hx.2, hy, hup]

/-- There is no way above the root. -/
theorem resolve_root {y : β} (hy : skip y = false) (hup : up y = true) (ys : List β) :
    resolve skip up (y :: ys) = resolve skip up ys := by
  simp [resolve, walk, hy, hup]

/-- Two paths lead to the same place: skipped elements do not matter, a name with the way back
behind it neither, and there is no way up at the root. -/
inductive Same (skip up : β → Bool) : List β → List β → Prop where
  | refl (xs : List β) : Same skip up xs xs
  | symm {xs ys : List β} : Same skip up xs ys → Same skip up ys xs
  | trans {xs ys zs : List β} : Same skip up xs ys → Same skip up ys zs → Same skip up xs zs
  | skip {x : β} (hx : skip x = true) (xs ys : List β) : Same skip up (xs ++ x :: ys) (xs ++ ys)
  | parent {x y : β} (hx : Plain skip up x) (hy : skip y = false) (hup : up y = true)
      (xs ys : List β) : Same skip up (xs ++ x :: y :: ys) (xs ++ ys)
  | root {y : β} (hy : skip y = false) (hup : up y = true) (ys : List β) :
      Same skip up (y :: ys) ys

theorem same_walk (hn : ∀ x ∈ names, Plain skip up x) (xs : List β) :
    Same skip up (names.reverse ++ xs) (walk skip up names xs).reverse := by
  induction xs generalizing names with
  | nil => simpa [walk] using Same.refl names.reverse
  | cons x xs ih =>
    simp only [walk]
    split_ifs with hskip hup
    · exact (Same.skip hskip _ _).trans (ih hn)
    · have hskip : skip x = false := by simpa using hskip
      cases names with
      | nil => exact (Same.root hskip hup xs).trans (ih hn)
      | cons y names =>
        obtain ⟨hy, hn⟩ := List.forall_mem_cons.mp hn
        have hback := Same.parent hy hskip hup names.reverse xs
        rw [List.reverse_cons, List.append_assoc]
        exact hback.trans (ih hn)
    · have hx : Plain skip up x := ⟨by simpa using hskip, by simpa using hup⟩
      simpa using ih (List.forall_mem_cons.mpr ⟨hx, hn⟩)

/-- Paths lead to the same place exactly if they resolve to the same names. -/
theorem same_iff : Same skip up xs ys ↔ resolve skip up xs = resolve skip up ys := by
  have hself (zs : List β) : Same skip up zs (resolve skip up zs) :=
    same_walk (fun _ h => absurd h List.not_mem_nil) zs
  constructor
  · intro h
    induction h with
    | refl => rfl
    | symm _ ih => exact ih.symm
    | trans _ _ ih ih' => exact ih.trans ih'
    | skip hx xs ys => exact resolve_skip hx xs ys
    | parent hx hy hup xs ys => exact resolve_parent hx hy hup xs ys
    | root hy hup ys => exact resolve_root hy hup ys
  · intro h
    exact (hself xs).trans (h ▸ (hself ys).symm)

end KubeConsole.Theory.Lexical
