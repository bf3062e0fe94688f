import KubeConsole.Theory.Comparator
import KubeConsole.Web.FieldText

/-!
The comparison of table cells (`tableSort.ts`). Numbers and ages are compared as rationals.
-/
namespace KubeConsole.Web.TableSort
open KubeConsole.Theory

/-- What the language supplies: `Number(s)` where that is finite, and `localeCompare`. -/
structure SortBuiltins where
  toNumber : JStr → Option ℚ
  localeCompare : JStr → JStr → ℚ

/-! ## Ages -/

/-- `AGE_MULTIPLIERS`, for the units of one letter. -/
def ageMultiplier (c : UInt16) : Option ℚ :=
  if c = 0x73 then some 1
  else if c = 0x6D then some 60
  else if c = 0x68 then some 3600
  else if c = 0x64 then some 86400
  else if c = 0x77 then some 604800
  else if c = 0x79 then some 31536000
  else none

/-- `(ms|[smhdwy])`: the multiplier of the unit and its length. -/
def ageUnit : JStr → Option (ℚ × ℕ)
  | 0x6D :: 0x73 :: _ => some (1 / 1000, 2)
  | c :: _ => (ageMultiplier c).map fun m => (m, 1)
  | [] => none

/-- `Number` of a run of digits. -/
def digitsValue (digits : JStr) : ℕ := digits.foldl (fun n c => n * 10 + (c.toNat - 0x30)) 0

/-- `AGE_TOKEN` at the beginning: what it adds and how long it is. No digit is given back, a
digit being no unit. -/
def ageToken (s : JStr) : Option (ℚ × ℕ) :=
  let digits := s.takeWhile isDigit
  if digits = [] then none
  else (ageUnit (s.dropWhile isDigit)).map fun unit =>
    (digitsValue digits * unit.1, digits.length + unit.2)

/-- `matchAll`. -/
def ageTokens : ℕ → JStr → List (ℚ × ℕ)
  | 0, _ => []
  | n + 1, s =>
    match ageToken s with
    | some token => token :: ageTokens n (s.drop token.2)
    | none => ageTokens n (s.drop 1)

def parseK8sAge (value : JStr) : Option ℚ :=
  let s := trim value
  if s = [] then none
  else
    let tokens := ageTokens s.length s
    let consumed := (tokens.map Prod.snd).sum
    if consumed = s.length ∧ 0 < consumed then some (tokens.map Prod.fst).sum else none

example : parseK8sAge (js "2m30s") = some 150 := by decide +kernel

/-! ## Comparison -/

variable (b : SortBuiltins)

def emptyIsh : List JStr := [[], js "<none>", js "<unknown>", js "<invalid>"]

def parseNumeric (value : JStr) : Option ℚ := if trim value = [] then none else b.toNumber value

def compareTableValues (x y : JStr) : ℚ :=
  let xEmpty : Bool := trim x ∈ emptyIsh
  let yEmpty : Bool := trim y ∈ emptyIsh
  if xEmpty || yEmpty then if xEmpty = yEmpty then 0 else if xEmpty then 1 else -1
  else
    let xNum := parseNumeric b x
    let yNum := parseNumeric b y
    match xNum, yNum with
    | some m, some n => m - n
    | _, _ =>
      let xAge := if xNum.isNone then parseK8sAge x else none
      let yAge := if yNum.isNone then parseK8sAge y else none
      match xAge, yAge with
      | some m, some n => m - n
      | _, _ =>
        let xRank : ℚ := if xNum.isSome then 0 else if xAge.isSome then 1 else 2
        let yRank : ℚ := if yNum.isSome then 0 else if yAge.isSome then 1 else 2
        if xRank ≠ yRank then xRank - yRank else b.localeCompare x y

/-! ## Shapes -/

/-- What a cell is read as. -/
inductive Shape where
  | number (n : ℚ)
  | age (seconds : ℚ)
  | plain
  | empty

/-- Numbers come first, empty cells last. -/
def Shape.rank : Shape → ℕ
  | .number _ => 0
  | .age _ => 1
  | .plain => 2
  | .empty => 3

/-- The number by which cells of one shape are compared. -/
def Shape.value : Shape → ℚ
  | .number n => n
  | .age seconds => seconds
  | .plain => 0
  | .empty => 0

def shape (x : JStr) : Shape :=
  if trim x ∈ emptyIsh then .empty
  else match parseNumeric b x, parseK8sAge x with
  | some n, _ => .number n
  | none, some seconds => .age seconds
  | none, none => .plain

variable {b}

/-- Different shapes are compared by their ranks, equal ones by value or as text. -/
theorem compareTableValues_eq (x y : JStr) : compareTableValues b x y =
    if (shape b x).rank = 2 ∧ (shape b y).rank = 2 then b.localeCompare x y
    else if (shape b x).rank = (shape b y).rank then (shape b x).value - (shape b y).value
    else if (shape b x).rank = 3 then 1
    else if (shape b y).rank = 3 then -1
    else (shape b x).rank - (shape b y).rank := by
  rw [compareTableValues, shape, shape]
  by_cases hx : trim x ∈ emptyIsh
  · by_cases hy : trim y ∈ emptyIsh
    · simp [hx, hy, Shape.rank, Shape.value]
    · cases parseNumeric b y <;> cases parseK8sAge y <;> simp [hx, hy, Shape.rank]
  · by_cases hy : trim y ∈ emptyIsh
    · cases parseNumeric b x <;> cases parseK8sAge x <;> simp [hx, hy, Shape.rank]
    · cases parseNumeric b x <;> cases parseNumeric b y <;> cases parseK8sAge x <;>
        cases parseK8sAge y <;> simp [hx, hy, Shape.rank, Shape.value]

theorem compareTableValues_rank {x y : JStr} (h : (shape b x).rank < (shape b y).rank) :
    compareTableValues b x y < 0 ∧ 0 < compareTableValues b y x := by
  have hcast : ((shape b x).rank : ℚ) < (shape b y).rank := by exact_mod_cast h
  have hbound : (shape b y).rank ≤ 3 := by cases shape b y <;> simp [Shape.rank]
  have hxy : compareTableValues b x y =
      if (shape b y).rank = 3 then -1 else ((shape b x).rank : ℚ) - (shape b y).rank := by
    rw [compareTableValues_eq, if_neg (by omega), if_neg (by omega), if_neg (by omega)]
  have hyx : compareTableValues b y x =
      if (shape b y).rank = 3 then 1 else ((shape b y).rank : ℚ) - (shape b x).rank := by
    rw [compareTableValues_eq, if_neg (by omega), if_neg (by omega)]
    congr 1
    rw [if_neg (by omega)]
  rw [hxy, hyx]
  split_ifs
  · norm_num
  · exact ⟨by linarith, by linarith⟩

theorem consistent_compareTableValues (hlocale : Consistent Set.univ b.localeCompare) :
    Consistent Set.univ (compareTableValues b) := by
  refine .of_rank (fun x => (shape b x).rank) (fun x _ y _ => compareTableValues_rank) fun n => ?_
  by_cases hn : n = 2
  · refine (hlocale.mono (Set.subset_univ _)).congr fun x hx y hy => ?_
    rw [compareTableValues_eq, if_pos ⟨hx.2.trans hn, hy.2.trans hn⟩]
  · refine .of_key (fun x => (shape b x).value) fun x hx y hy => ?_
    rw [compareTableValues_eq, if_neg fun h => hn (hx.2.symm.trans h.1),
      if_pos (hx.2.trans hy.2.symm)]

theorem compareTableValues_preorder (hlocale : Consistent Set.univ b.localeCompare) :
    Consistent Set.univ (compareTableValues b) ∧
    Equivalence (fun x y => compareTableValues b x y = 0) ∧
    (∀ x y z, compareTableValues b x y = 0 →
      SignType.sign (compareTableValues b x z) = SignType.sign (compareTableValues b y z)) ∧
    ∀ x y, (shape b x).rank < (shape b y).rank → compareTableValues b x y < 0 := by
  have hcmp := consistent_compareTableValues hlocale
  refine ⟨hcmp, hcmp.equivalence, fun x y z hxy => ?_, fun x y h => ?_⟩
  · exact hcmp.sign_congr trivial trivial trivial hxy
  · exact (compareTableValues_rank h).1

/-- Numbers of digits only, and texts by their code units. -/
def digitSort : SortBuiltins where
  toNumber s := if s.all isDigit then some (digitsValue s) else none
  localeCompare x y :=
    if x.map UInt16.toNat < y.map UInt16.toNat then -1
    else if y.map UInt16.toNat < x.map UInt16.toNat then 1 else 0

theorem consistent_digitSort : Consistent Set.univ digitSort.localeCompare :=
  .of_linear (fun x : JStr => x.map UInt16.toNat) fun x _ y _ => by
    simp only [digitSort]
    congr

theorem compareTableValues_preorder_digits :
    Consistent Set.univ (compareTableValues digitSort) ∧
    Equivalence (fun x y => compareTableValues digitSort x y = 0) ∧
    (∀ x y z, compareTableValues digitSort x y = 0 →
      SignType.sign (compareTableValues digitSort x z) =
        SignType.sign (compareTableValues digitSort y z)) ∧
    ∀ x y, (shape digitSort x).rank < (shape digitSort y).rank →
      compareTableValues digitSort x y < 0 :=
  compareTableValues_preorder consistent_digitSort

end KubeConsole.Web.TableSort
