import KubeConsole.Theory.Comparator
import KubeConsole.Theory.Scanner
import KubeConsole.Web.TableSort

/-!
The order of the versions of an API (`k8sNames.ts`). The numbers of a version are exact.
-/
namespace KubeConsole.Web.KubeVersions
open KubeConsole.Theory TableSort

inductive Stage where
  | alpha | beta
  deriving DecidableEq

/-- The groups of `VERSION_RE`. -/
structure VersionMatch where
  major : JStr
  prerelease : Option (Stage × JStr)
  deriving DecidableEq

/-- `^\d+$`. -/
def isNumber (s : JStr) : Bool := s ≠ [] && s.all isDigit

/-- `(?:(alpha|beta)(\d+))?$`. -/
def execPrerelease (s : JStr) : Option (Option (Stage × JStr)) :=
  if s = [] then some none
  else if js "alpha" <+: s ∧ isNumber (s.drop 5) then some (some (.alpha, s.drop 5))
  else if js "beta" <+: s ∧ isNumber (s.drop 4) then some (some (.beta, s.drop 4))
  else none

/-- `VERSION_RE.exec`. No digit is given back, a digit beginning no stage. -/
def execVersion : JStr → Option VersionMatch
  | 0x76 :: s =>
    if s.takeWhile isDigit = [] then none
    else (execPrerelease (s.dropWhile isDigit)).map (⟨s.takeWhile isDigit, ·⟩)
  | _ => none

/-- A version without a stage is above a beta, and this above an alpha. -/
def stageRank : Option Stage → ℕ
  | none => 2
  | some .beta => 1
  | some .alpha => 0

namespace VersionMatch
variable (m : VersionMatch)

def rank : ℕ := stageRank (m.prerelease.map Prod.fst)

def majorNumber : ℕ := digitsValue m.major

/-- `Number(m[3] ?? 0)`. -/
def prereleaseNumber : ℕ := (m.prerelease.map fun p => digitsValue p.2).getD 0

/-- The stage, then the numbers. -/
def priority : ℕ ×ₗ ℕ ×ₗ ℕ := toLex (m.rank, toLex (m.majorNumber, m.prereleaseNumber))

end VersionMatch

def compareMatches (pa pb : VersionMatch) : ℚ :=
  let stageDiff : ℚ := pa.rank - pb.rank
  if stageDiff ≠ 0 then stageDiff
  else
    let majorDiff : ℚ := pa.majorNumber - pb.majorNumber
    if majorDiff ≠ 0 then majorDiff else pa.prereleaseNumber - pb.prereleaseNumber

def compareKubeVersions (localeCompare : JStr → JStr → ℚ) (a b : JStr) : ℚ :=
  match execVersion a, execVersion b with
  | none, none => localeCompare a b
  | none, some _ => -1
  | some _, none => 1
  | some pa, some pb => compareMatches pa pb

/-! ## What matches -/

def Stage.text : Stage → JStr
  | .alpha => js "alpha"
  | .beta => js "beta"

def prereleaseText : Option (Stage × JStr) → JStr
  | none => []
  | some p => p.1.text ++ p.2

/-- The text that is matched. -/
def VersionMatch.text (m : VersionMatch) : JStr :=
  0x76 :: (m.major ++ prereleaseText m.prerelease)

/-- The numbers have digits, and nothing else. -/
def VersionMatch.WellFormed (m : VersionMatch) : Prop :=
  isNumber m.major ∧ ∀ p ∈ m.prerelease, isNumber p.2

theorem isNumber_iff {s : JStr} : isNumber s = true ↔ s ≠ [] ∧ ∀ c ∈ s, isDigit c = true := by
  rw [isNumber, Bool.and_eq_true, decide_eq_true_iff, List.all_eq_true]

theorem Stage.text_ne_nil (stage : Stage) (n : JStr) : stage.text ++ n ≠ [] := by
  cases stage <;> exact List.cons_ne_nil _ _

/-- A text begins with one stage at most. -/
theorem not_alpha_prefix_beta (n : JStr) : ¬js "alpha" <+: js "beta" ++ n := by
  rintro ⟨t, ht⟩
  have hhead : some 0x61 = some (0x62 : UInt16) := congrArg List.head? ht
  exact absurd hhead (by decide)

theorem execPrerelease_append (stage : Stage) {n : JStr} (hn : isNumber n = true) :
    execPrerelease (stage.text ++ n) = some (some (stage, n)) := by
  rw [execPrerelease, if_neg (stage.text_ne_nil n)]
  cases stage with
  | alpha => exact if_pos ⟨List.prefix_append _ _, hn⟩
  | beta =>
    have halpha : ¬(js "alpha" <+: js "beta" ++ n ∧ isNumber ((js "beta" ++ n).drop 5)) :=
      fun h => not_alpha_prefix_beta n h.1
    exact (if_neg halpha).trans (if_pos ⟨List.prefix_append _ _, hn⟩)

theorem execPrerelease_eq_some_iff {s : JStr} {pre : Option (Stage × JStr)} :
    execPrerelease s = some pre ↔ s = prereleaseText pre ∧ ∀ p ∈ pre, isNumber p.2 := by
  constructor
  · intro h
    rw [execPrerelease] at h
    split_ifs at h with hs halpha hbeta
    · obtain rfl := Option.some.inj h
      exact ⟨hs, fun p hp => absurd hp (Option.not_mem_none p)⟩
    · obtain rfl := Option.some.inj h
      refine ⟨(List.prefix_iff_eq_append.mp halpha.1).symm, fun p hp => ?_⟩
      exact Option.mem_some.mp hp ▸ halpha.2
    · obtain rfl := Option.some.inj h
      refine ⟨(List.prefix_iff_eq_append.mp hbeta.1).symm, fun p hp => ?_⟩
      exact Option.mem_some.mp hp ▸ hbeta.2
  · rintro ⟨rfl, hn⟩
    cases pre with
    | none => rfl
    | some p => exact execPrerelease_append p.1 (hn p rfl)

theorem head?_prereleaseText (pre : Option (Stage × JStr)) :
    ∀ c ∈ (prereleaseText pre).head?, isDigit c = false := by
  obtain _ | ⟨stage, n⟩ := pre
  · exact fun c hc => absurd hc (Option.not_mem_none c)
  · cases stage <;> exact fun c hc => Option.mem_some.mp hc ▸ by decide

/-- The expression matches a version's text, and no other. -/
theorem execVersion_eq_some_iff {s : JStr} {m : VersionMatch} :
    execVersion s = some m ↔ s = m.text ∧ m.WellFormed := by
  constructor
  · intro h
    rw [execVersion.eq_def] at h
    split at h
    · rename_i s
      split_ifs at h with hmajor
      obtain ⟨pre, hpre, rfl⟩ := Option.map_eq_some_iff.mp h
      obtain ⟨htext, hn⟩ := execPrerelease_eq_some_iff.mp hpre
      refine ⟨?_, isNumber_iff.mpr ⟨hmajor, fun c hc => List.mem_takeWhile_imp hc⟩, hn⟩
      rw [VersionMatch.text, ← htext, List.takeWhile_append_dropWhile]
    · cases h
  · rintro ⟨rfl, hmajor, hn⟩
    obtain ⟨hne, hdigits⟩ := isNumber_iff.mp hmajor
    obtain ⟨htake, hdrop⟩ := takeWhile_stop hdigits (head?_prereleaseText m.prerelease)
    rw [VersionMatch.text, execVersion, htake, hdrop, if_neg hne,
      execPrerelease_eq_some_iff.mpr ⟨rfl, hn⟩]
    rfl

example : execVersion (js "v12beta3") = some ⟨js "12", some (.beta, js "3")⟩ := by decide +kernel

/-! ## The order -/

/-- `a` has the higher priority. Names that are no versions of Kubernetes are below those that are. -/
def Above (localeCompare : JStr → JStr → ℚ) (a b : JStr) : Prop :=
  match execVersion a, execVersion b with
  | none, none => 0 < localeCompare a b
  | none, some _ => False
  | some _, none => True
  | some pa, some pb => pb.priority < pa.priority

variable {localeCompare : JStr → JStr → ℚ} {a b c : JStr} {pa pb : VersionMatch}

/-- `x || y`. -/
theorem orElse_pos_iff (x y : ℚ) : 0 < (if x ≠ 0 then x else y) ↔ 0 < x ∨ x = 0 ∧ 0 < y := by
  by_cases hx : x = 0
  · simp [hx]
  · simp [hx]

theorem compareMatches_pos_iff (pa pb : VersionMatch) :
    0 < compareMatches pa pb ↔ pb.priority < pa.priority := by
  have hdiff (m n : ℕ) : (m : ℚ) - n = 0 ↔ n = m := by
    rw [sub_eq_zero, Nat.cast_inj, eq_comm]
  rw [VersionMatch.priority, VersionMatch.priority, Prod.Lex.toLex_lt_toLex,
    Prod.Lex.toLex_lt_toLex, compareMatches, orElse_pos_iff, orElse_pos_iff, hdiff, hdiff, sub_pos,
    sub_pos, sub_pos, Nat.cast_lt, Nat.cast_lt, Nat.cast_lt]

theorem compareMatches_swap (pa pb : VersionMatch) :
    compareMatches pb pa = -compareMatches pa pb := by
  rw [compareMatches, compareMatches, ← neg_sub (pb.rank : ℚ), ← neg_sub (pb.majorNumber : ℚ),
    ← neg_sub (pb.prereleaseNumber : ℚ)]
  simp only [neg_ne_zero]
  split_ifs <;> exact (neg_neg _).symm

theorem compareKubeVersions_pos_iff (localeCompare : JStr → JStr → ℚ) (a b : JStr) :
    0 < compareKubeVersions localeCompare a b ↔ Above localeCompare a b := by
  rw [compareKubeVersions, Above]
  cases execVersion a <;> cases execVersion b
  · rfl
  · exact iff_of_false (by norm_num) not_false
  · exact iff_of_true one_pos trivial
  · exact compareMatches_pos_iff _ _

theorem compareKubeVersions_neg_iff (hlocale : Consistent Set.univ localeCompare) (a b : JStr) :
    compareKubeVersions localeCompare a b < 0 ↔ Above localeCompare b a := by
  rw [compareKubeVersions, Above]
  cases execVersion a <;> cases execVersion b
  · exact hlocale.swap a trivial b trivial
  · exact iff_of_true (by norm_num) trivial
  · exact iff_of_false (by norm_num) not_false
  · dsimp only
    rw [← compareMatches_pos_iff, compareMatches_swap, neg_lt_zero]

/-- Versions and names are compared among themselves, and no name is above a version. -/
theorem not_above_trans (hlocale : Consistent Set.univ localeCompare)
    (hab : ¬Above localeCompare a b) (hbc : ¬Above localeCompare b c) :
    ¬Above localeCompare a c := by
  revert hab hbc
  rw [Above, Above, Above]
  cases execVersion a <;> cases execVersion b <;> cases execVersion c <;>
    simp only [not_true_eq_false, not_false_eq_true, not_lt, false_implies, implies_true]
  · exact hlocale.trans a trivial b trivial c trivial
  · exact le_trans

/-- Consistent on all mixes of versions and other names. -/
theorem consistent_compareKubeVersions (hlocale : Consistent Set.univ localeCompare) :
    Consistent Set.univ (compareKubeVersions localeCompare) where
  swap a _ b _ := by rw [compareKubeVersions_neg_iff hlocale, compareKubeVersions_pos_iff]
  trans a _ b _ c _ := by
    rw [← not_lt, ← not_lt, ← not_lt, compareKubeVersions_pos_iff, compareKubeVersions_pos_iff,
      compareKubeVersions_pos_iff]
    exact not_above_trans hlocale

end KubeConsole.Web.KubeVersions
