import Mathlib

/-!
The grammar of JSON texts over code units, for a choice of what is blank and of what may stand
between the quotes of a string.
-/
namespace KubeConsole.Theory.JsonText

/-- A text as code units. -/
abbrev Text := List UInt16

def quoteMark : UInt16 := 0x22
def backslash : UInt16 := 0x5C
def comma : UInt16 := 0x2C
def colon : UInt16 := 0x3A
def lbrace : UInt16 := 0x7B
def rbrace : UInt16 := 0x7D
def lbracket : UInt16 := 0x5B
def rbracket : UInt16 := 0x5D

def digit (c : UInt16) : Bool := 0x30 ≤ c && c ≤ 0x39

/-- `true`, `false` and `null`. -/
def keywords : List Text :=
  [[0x74, 0x72, 0x75, 0x65], [0x66, 0x61, 0x6C, 0x73, 0x65], [0x6E, 0x75, 0x6C, 0x6C]]

/-! ## Numbers -/

def IsInt (u : Text) : Prop :=
  u = [0x30] ∨ ∃ c ds, u = c :: ds ∧ digit c = true ∧ c ≠ 0x30 ∧ ∀ d ∈ ds, digit d = true

/-- At least one digit. -/
def IsDigits (u : Text) : Prop := u ≠ [] ∧ ∀ d ∈ u, digit d = true

def IsFrac (u : Text) : Prop := u = [] ∨ ∃ ds, u = 0x2E :: ds ∧ IsDigits ds

def IsExp (u : Text) : Prop :=
  u = [] ∨ ∃ c sign ds, u = c :: (sign ++ ds) ∧ (c = 0x65 ∨ c = 0x45) ∧
    (sign = [] ∨ sign = [0x2B] ∨ sign = [0x2D]) ∧ IsDigits ds

def IsNumber (u : Text) : Prop :=
  ∃ sign int frac exp, u = sign ++ int ++ frac ++ exp ∧ (sign = [] ∨ sign = [0x2D]) ∧
    IsInt int ∧ IsFrac frac ∧ IsExp exp

/-! ## Texts -/

structure Lexis where
  blank : UInt16 → Bool
  /-- What may stand between the quotes of a string. -/
  body : Text → Prop

inductive Part where
  | value
  | object
  | members
  | member
  | array
  | elements
  | element

/-- Blanks stand after every structural character and before the next one. -/
def Lexis.Blank (L : Lexis) (w : Text) : Prop := ∀ c ∈ w, L.blank c = true

def quoted (s : Text) : Text := quoteMark :: (s ++ [quoteMark])

inductive Derives (L : Lexis) : Part → Text → Prop where
  | string {s : Text} : L.body s → Derives L .value (quoted s)
  | keyword {s : Text} : s ∈ keywords → Derives L .value s
  | number {s : Text} : IsNumber s → Derives L .value s
  | nestedObject {s : Text} : Derives L .object s → Derives L .value s
  | nestedArray {s : Text} : Derives L .array s → Derives L .value s
  | emptyObject {w : Text} : L.Blank w → Derives L .object (lbrace :: (w ++ [rbrace]))
  | object {w s : Text} : L.Blank w → Derives L .members s →
    Derives L .object (lbrace :: (w ++ s ++ [rbrace]))
  | member {k w w' v w'' : Text} : L.body k → L.Blank w → L.Blank w' → Derives L .value v →
    L.Blank w'' → Derives L .member (quoted k ++ w ++ colon :: (w' ++ v ++ w''))
  | lastMember {m : Text} : Derives L .member m → Derives L .members m
  | nextMember {m w s : Text} : Derives L .member m → L.Blank w → Derives L .members s →
    Derives L .members (m ++ comma :: (w ++ s))
  | emptyArray {w : Text} : L.Blank w → Derives L .array (lbracket :: (w ++ [rbracket]))
  | array {w s : Text} : L.Blank w → Derives L .elements s →
    Derives L .array (lbracket :: (w ++ s ++ [rbracket]))
  | element {v w : Text} : Derives L .value v → L.Blank w → Derives L .element (v ++ w)
  | lastElement {m : Text} : Derives L .element m → Derives L .elements m
  | nextElement {m w s : Text} : Derives L .element m → L.Blank w → Derives L .elements s →
    Derives L .elements (m ++ comma :: (w ++ s))

/-- A text of one grammar is one of another, if that is so of the blanks and the strings that
stand in the text. -/
theorem Derives.mono {L L' : Lexis} {P : UInt16 → Prop}
    (hblank : ∀ c, P c → L.blank c = true → L'.blank c = true)
    (hbody : ∀ s, (∀ c ∈ s, P c) → L.body s → L'.body s) {part : Part} {u : Text}
    (h : Derives L part u) (hP : ∀ c ∈ u, P c) : Derives L' part u := by
  have hw {w : Text} (h : L.Blank w) (hP : ∀ c ∈ w, P c) : L'.Blank w :=
    fun c hc => hblank c (hP c hc) (h c hc)
  induction h with
  | string hs => exact .string (hbody _ (fun c hc => hP c (by simp [quoted, hc])) hs)
  | keyword hs => exact .keyword hs
  | number hs => exact .number hs
  | nestedObject _ ih => exact .nestedObject (ih hP)
  | nestedArray _ ih => exact .nestedArray (ih hP)
  | emptyObject h => exact .emptyObject (hw h fun c hc => hP c (by simp [hc]))
  | object h _ ih =>
    exact .object (hw h fun c hc => hP c (by simp [hc])) (ih fun c hc => hP c (by simp [hc]))
  | member hk h h' _ h'' ih =>
    exact .member (hbody _ (fun c hc => hP c (by simp [quoted, hc])) hk)
      (hw h fun c hc => hP c (by simp [hc])) (hw h' fun c hc => hP c (by simp [hc]))
      (ih fun c hc => hP c (by simp [hc])) (hw h'' fun c hc => hP c (by simp [hc]))
  | lastMember _ ih => exact .lastMember (ih hP)
  | nextMember _ h _ ih ih' =>
    exact .nextMember (ih fun c hc => hP c (by simp [hc])) (hw h fun c hc => hP c (by simp [hc]))
      (ih' fun c hc => hP c (by simp [hc]))
  | emptyArray h => exact .emptyArray (hw h fun c hc => hP c (by simp [hc]))
  | array h _ ih =>
    exact .array (hw h fun c hc => hP c (by simp [hc])) (ih fun c hc => hP c (by simp [hc]))
  | element _ h ih =>
    exact .element (ih fun c hc => hP c (by simp [hc])) (hw h fun c hc => hP c (by simp [hc]))
  | lastElement _ ih => exact .lastElement (ih hP)
  | nextElement _ h _ ih ih' =>
    exact .nextElement (ih fun c hc => hP c (by simp [hc])) (hw h fun c hc => hP c (by simp [hc]))
      (ih' fun c hc => hP c (by simp [hc]))

/-! ## Strings -/

def hexUnit (c : UInt16) : Bool :=
  digit c || (0x61 ≤ c && c ≤ 0x66) || (0x41 ≤ c && c ≤ 0x46)

/-- The units that name an escape: quotation mark, reverse solidus, solidus, b, f, n, r, t. -/
def escapes : Text := [0x22, 0x5C, 0x2F, 0x62, 0x66, 0x6E, 0x72, 0x74]

/-- The strings of JSON: no control characters, and the escapes are those of the standard. -/
inductive StrictBody : Text → Prop where
  | nil : StrictBody []
  | plain {c : UInt16} {s : Text} : 0x20 ≤ c → c ≠ quoteMark → c ≠ backslash → StrictBody s →
    StrictBody (c :: s)
  | escape {c : UInt16} {s : Text} : c ∈ escapes → StrictBody s → StrictBody (backslash :: c :: s)
  | unicode {h s : Text} : h.length = 4 → (∀ c ∈ h, hexUnit c = true) → StrictBody s →
    StrictBody (backslash :: 0x75 :: (h ++ s))

/-- Strings in which a backslash protects the next unit, whatever that is. -/
inductive LooseBody : Text → Prop where
  | nil : LooseBody []
  | plain {c : UInt16} {s : Text} : c ≠ quoteMark → c ≠ backslash → LooseBody s →
    LooseBody (c :: s)
  | escape {c : UInt16} {s : Text} : LooseBody s → LooseBody (backslash :: c :: s)

theorem hexUnit_plain {c : UInt16} (h : hexUnit c = true) : c ≠ quoteMark ∧ c ≠ backslash := by
  constructor
  · rintro rfl
    exact absurd h (by decide)
  · rintro rfl
    exact absurd h (by decide)

theorem StrictBody.loose {s : Text} (h : StrictBody s) : LooseBody s := by
  induction h with
  | nil => exact .nil
  | plain _ hq hb _ ih => exact .plain hq hb ih
  | escape _ _ ih => exact .escape ih
  | @unicode h s _ hhex _ ih =>
    refine .escape ?_
    clear * - hhex ih
    induction h with
    | nil => exact ih
    | cons c h ihh =>
      obtain ⟨hc, hh⟩ := List.forall_mem_cons.mp hhex
      exact .plain (hexUnit_plain hc).1 (hexUnit_plain hc).2 (ihh hh)

/-- The JSON standard. -/
def standard : Lexis where
  blank c := c = 0x20 || c = 0x09 || c = 0x0A || c = 0x0D
  body := StrictBody

/-! ## The first unit -/

theorem IsNumber.head {u : Text} (h : IsNumber u) :
    ∃ c s, u = c :: s ∧ (c = 0x2D ∨ digit c = true) := by
  obtain ⟨sign, int, frac, exp, rfl, hsign, hint, -⟩ := h
  rcases hsign with rfl | rfl
  · rcases hint with rfl | ⟨c, ds, rfl, hc, -⟩
    · exact ⟨0x30, frac ++ exp, by simp, .inr (by decide)⟩
    · exact ⟨c, ds ++ frac ++ exp, by simp, .inr hc⟩
  · exact ⟨0x2D, int ++ frac ++ exp, by simp, .inl rfl⟩

/-- The units that a text of a part can begin with. -/
def opens : Part → UInt16 → Bool
  | .object, c => c = lbrace
  | .array, c => c = lbracket
  | .members, c | .member, c => c = quoteMark
  | .value, c | .elements, c | .element, c =>
    c = quoteMark || c = lbrace || c = lbracket || c = 0x2D || digit c || c = 0x74 || c = 0x66 ||
      c = 0x6E

theorem Derives.head {L : Lexis} {part : Part} {u : Text} (h : Derives L part u) :
    ∃ c s, u = c :: s ∧ opens part c = true := by
  induction h with
  | string _ => exact ⟨quoteMark, _, rfl, rfl⟩
  | keyword hs =>
    simp only [keywords, List.mem_cons, List.not_mem_nil, or_false] at hs
    rcases hs with rfl | rfl | rfl
    · exact ⟨0x74, _, rfl, rfl⟩
    · exact ⟨0x66, _, rfl, rfl⟩
    · exact ⟨0x6E, _, rfl, rfl⟩
  | number hs =>
    obtain ⟨c, s, rfl, hc⟩ := hs.head
    refine ⟨c, s, rfl, ?_⟩
    rcases hc with rfl | hc
    · rfl
    · simp [opens, hc]
  | nestedObject _ ih =>
    obtain ⟨c, s, rfl, hc⟩ := ih
    obtain rfl : c = lbrace := of_decide_eq_true hc
    exact ⟨lbrace, s, rfl, rfl⟩
  | nestedArray _ ih =>
    obtain ⟨c, s, rfl, hc⟩ := ih
    obtain rfl : c = lbracket := of_decide_eq_true hc
    exact ⟨lbracket, s, rfl, rfl⟩
  | emptyObject _ => exact ⟨lbrace, _, rfl, rfl⟩
  | object _ _ _ => exact ⟨lbrace, _, rfl, rfl⟩
  | member _ _ _ _ _ _ => exact ⟨quoteMark, _, rfl, rfl⟩
  | emptyArray _ => exact ⟨lbracket, _, rfl, rfl⟩
  | array _ _ _ => exact ⟨lbracket, _, rfl, rfl⟩
  | element _ _ ih =>
    obtain ⟨c, s, rfl, hc⟩ := ih
    exact ⟨c, _, rfl, hc⟩
  | lastMember _ ih => exact ih
  | lastElement _ ih => exact ih
  | nextMember _ _ _ ih _ =>
    obtain ⟨c, s, rfl, hc⟩ := ih
    exact ⟨c, _, rfl, hc⟩
  | nextElement _ _ _ ih _ =>
    obtain ⟨c, s, rfl, hc⟩ := ih
    exact ⟨c, _, rfl, hc⟩

end KubeConsole.Theory.JsonText
