import Mathlib

/-!
A value with a default that may come late: the first default offered is taken, unless a choice
was made before, and every choice is.
-/
namespace KubeConsole.Theory

/-- What happens to the value. -/
inductive Turn (α : Type*) where
  | offer (default : α)
  | choose (value : α)

namespace Turn
variable {α : Type*}

def offered : Turn α → Option α
  | .offer v => some v
  | .choose _ => none

def chosen : Turn α → Option α
  | .offer _ => none
  | .choose v => some v

/-- The value, and whether its default is still awaited. -/
def settle (s : α × Bool) : Turn α → α × Bool
  | .offer v => if s.2 then (v, false) else s
  | .choose v => (v, false)

/-- The last choice wins, and without one the first default. -/
def settled (initial : α) (turns : List (Turn α)) : α :=
  ((turns.filterMap chosen).getLast?.or (turns.filterMap offered).head?).getD initial

theorem foldl_settle (initial : α) (turns : List (Turn α)) :
    turns.foldl settle (initial, true) = (settled initial turns, turns.isEmpty) := by
  induction turns using List.reverseRecOn with
  | nil => simp [settled]
  | append_singleton turns turn ih =>
    rw [List.foldl_append, ih]
    cases turn with
    | choose v => simp [settle, settled, chosen]
    | offer v =>
      have hchosen : (turns ++ [offer v]).filterMap chosen = turns.filterMap chosen := by
        simp [chosen]
      have hoffered : (turns ++ [offer v]).filterMap offered = turns.filterMap offered ++ [v] := by
        simp [offered]
      have hsettled : settled initial (turns ++ [offer v]) = ((turns.filterMap chosen).getLast?.or
          (turns.filterMap offered ++ [v]).head?).getD initial := by
        rw [settled, hchosen, hoffered]
      rw [hsettled]
      cases turns with
      | nil => simp [settle]
      | cons t turns =>
        -- the value is settled by an earlier turn
        cases t with
        | offer d => simp only [List.filterMap_cons, offered, settle, settled, List.foldl_cons,
            List.foldl_nil, List.cons_append, List.head?_cons, List.isEmpty_cons, Bool.false_eq_true,
            if_false]
        | choose d => simp only [List.filterMap_cons, chosen, settle, settled, List.foldl_cons,
            List.foldl_nil, List.getLast?_cons, Option.some_or, List.cons_append, List.isEmpty_cons,
            Bool.false_eq_true, if_false]

end Turn
end KubeConsole.Theory
