import Mathlib

/-!
Strings of the browser: sequences of UTF-16 code units, and the cutting of a text that
arrives in pieces into lines.
-/
namespace KubeConsole.Web

/-- A JavaScript string. -/
abbrev JStr := List UInt16

instance : LawfulBEq JStr := inferInstanceAs (LawfulBEq (List UInt16))

/-- The code units of a literal of the source. -/
def js (s : String) : JStr := s.toList.map fun c => c.toNat.toUInt16

def newline : UInt16 := 10

/-- The white space and line terminators that `trim` removes. -/
def isBlank (c : UInt16) : Bool :=
  (0x9 ≤ c && c ≤ 0xD) || c = 0x20 || c = 0xA0 || c = 0x1680 || (0x2000 ≤ c && c ≤ 0x200A) ||
    c = 0x2028 || c = 0x2029 || c = 0x202F || c = 0x205F || c = 0x3000 || c = 0xFEFF

/-- `trim`. -/
def trim (s : JStr) : JStr := ((s.dropWhile isBlank).reverse.dropWhile isBlank).reverse

/-- What a `catch` gets: an `ApiError` with its status and message, or anything else. -/
inductive Thrown where
  | apiError (status : ℕ) (message : JStr)
  | other
  deriving DecidableEq, Repr

/-- `messageFromError` with a fallback. -/
def messageFromError (fallback : JStr) : Thrown → JStr
  | .apiError _ message => message
  | .other => fallback

/-- The lines of a text that are terminated. -/
def complete (text : JStr) : List JStr := (text.splitOn newline).dropLast

/-- What follows the last newline. -/
def rest (text : JStr) : JStr := (text.splitOn newline).getLastD []

theorem complete_append_rest (text : JStr) : complete text ++ [rest text] = text.splitOn newline := by
  have hne := List.splitOn_ne_nil newline text
  rw [complete, rest, List.getLastD_eq_getLast?, List.getLast?_eq_some_getLast hne]
  exact List.dropLast_concat_getLast hne

theorem complete_rest_of_splitOn {text : JStr} (lines : List JStr) (open_ : JStr)
    (h : text.splitOn newline = lines ++ [open_]) : complete text = lines ∧ rest text = open_ := by
  simp [complete, rest, h]

/-- Cutting a longer text begins by cutting the shorter one: only what follows its
last newline is still open. -/
theorem splitOn_append (a b : JStr) :
    (a ++ b).splitOn newline = complete a ++ (rest a ++ b).splitOn newline := by
  induction a with
  | nil => rfl
  | cons c a ih =>
    have hcons (x : JStr) := List.splitOn_cons_eq_if_modifyHead (a := newline) c x
    have hjoin := complete_append_rest a
    by_cases hc : (c == newline) = true
    · have hsplit (x : JStr) : (c :: x).splitOn newline = [] :: x.splitOn newline := by
        rw [hcons, if_pos hc]
      obtain ⟨h1, h2⟩ := complete_rest_of_splitOn ([] :: complete a) (rest a)
        (by rw [hsplit, ← hjoin]; rfl)
      rw [List.cons_append, hsplit, ih, h1, h2]
      rfl
    · have hsplit (x : JStr) : (c :: x).splitOn newline = (x.splitOn newline).modifyHead (c :: ·) := by
        rw [hcons, if_neg hc]
      rw [List.cons_append, hsplit, ih]
      -- `c` joins the first line, which is the open one exactly when no line is complete
      cases hl : complete a with
      | nil =>
        rw [hl] at hjoin
        obtain ⟨h1, h2⟩ := complete_rest_of_splitOn [] (c :: rest a)
          (by rw [hsplit, ← hjoin]; rfl)
        rw [h1, h2, List.nil_append, List.nil_append, List.cons_append, hsplit]
      | cons line lines =>
        rw [hl] at hjoin
        obtain ⟨h1, h2⟩ := complete_rest_of_splitOn ((c :: line) :: lines)
          (rest a) (by rw [hsplit, ← hjoin]; rfl)
        rw [h1, h2]
        rfl

/-- What a text grows by in lines depends on its open line only. -/
theorem complete_rest_append (a b : JStr) :
    complete (a ++ b) = complete a ++ complete (rest a ++ b) ∧ rest (a ++ b) = rest (rest a ++ b) := by
  refine complete_rest_of_splitOn _ _ ?_
  rw [splitOn_append, List.append_assoc, complete_append_rest]

end KubeConsole.Web
