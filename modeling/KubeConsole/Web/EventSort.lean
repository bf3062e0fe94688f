import KubeConsole.Theory.Comparator
import KubeConsole.Web.TableSort

/-!
The events of an object, newest first (`eventHelpers.ts`). `Date.parse` is a parameter: the
milliseconds of a time, nothing for a text that is none.
-/
namespace KubeConsole.Web.EventSort
open KubeConsole.Theory

structure EventRow where
  uid : JStr
  type : JStr
  reason : JStr
  message : JStr
  count : ℕ
  source : JStr
  lastSeen : JStr
  namespace_ : JStr
  involvedKind : JStr
  involvedName : JStr
  involvedApiVersion : JStr
  deriving DecidableEq

/-- What `<` on strings compares. -/
def codeUnits (s : JStr) : List ℕ := s.map UInt16.toNat

theorem codeUnits_inj {x y : JStr} : codeUnits x = codeUnits y ↔ x = y :=
  (List.map_injective_iff.mpr fun _ _ => UInt16.toNat_inj.mp).eq_iff

def compareParsed (a b : EventRow × Option ℚ) : ℚ :=
  match a.2, b.2 with
  | some s, some t => t - s
  | _, _ =>
    if a.1.lastSeen = b.1.lastSeen then 0
    else if codeUnits a.1.lastSeen < codeUnits b.1.lastSeen then 1 else -1

variable (parse : JStr → Option ℚ)

def sortByLastSeenDesc (rows : List EventRow) : List EventRow :=
  (sortBy compareParsed (rows.map fun row => (row, parse row.lastSeen))).map Prod.fst

/-- The comparator on the rows. -/
def compareRows (a b : EventRow) : ℚ :=
  compareParsed (a, parse a.lastSeen) (b, parse b.lastSeen)

theorem sortByLastSeenDesc_eq (rows : List EventRow) :
    sortByLastSeenDesc parse rows = sortBy (compareRows parse) rows := by
  rw [sortByLastSeenDesc, sortBy_map, List.map_map]
  exact List.map_id _

/-! ## Times and texts -/

variable {parse} {rows : List EventRow}

theorem compareRows_time {a b : EventRow} {s t : ℚ} (ha : parse a.lastSeen = some s)
    (hb : parse b.lastSeen = some t) : compareRows parse a b = t - s := by
  rw [compareRows, compareParsed, ha, hb]

theorem compareRows_text {a b : EventRow} (h : parse a.lastSeen = none ∨ parse b.lastSeen = none) :
    compareRows parse a b =
      if codeUnits a.lastSeen = codeUnits b.lastSeen then 0
      else if codeUnits a.lastSeen < codeUnits b.lastSeen then 1 else -1 := by
  simp only [codeUnits_inj]
  rw [compareRows, compareParsed]
  cases ha : parse a.lastSeen with
  | none => rfl
  | some s =>
    cases hb : parse b.lastSeen with
    | none => rfl
    | some t => simp [ha, hb] at h

theorem compareRows_text_nonpos {a b : EventRow}
    (h : parse a.lastSeen = none ∨ parse b.lastSeen = none) :
    compareRows parse a b ≤ 0 ↔ codeUnits b.lastSeen ≤ codeUnits a.lastSeen := by
  rw [compareRows_text h]
  rcases lt_trichotomy (codeUnits a.lastSeen) (codeUnits b.lastSeen) with hlt | heq | hgt
  · simp [hlt, hlt.ne, hlt.not_ge]
  · simp [heq]
  · simp [hgt.ne', hgt.not_gt, hgt.le]

theorem compareRows_swap (a b : EventRow) : compareRows parse a b = -compareRows parse b a := by
  by_cases h : parse a.lastSeen = none ∨ parse b.lastSeen = none
  · rw [compareRows_text h, compareRows_text h.symm]
    rcases lt_trichotomy (codeUnits a.lastSeen) (codeUnits b.lastSeen) with hlt | heq | hgt
    · simp [hlt, hlt.ne, hlt.ne', hlt.not_gt]
    · simp [heq]
    · simp [hgt, hgt.ne, hgt.ne', hgt.not_gt]
  · push Not at h
    obtain ⟨s, hs⟩ := Option.ne_none_iff_exists'.mp h.1
    obtain ⟨t, ht⟩ := Option.ne_none_iff_exists'.mp h.2
    rw [compareRows_time hs ht, compareRows_time ht hs, neg_sub]

/-- Of two times between whose texts that of a row without one lies, the later text is the later
time. -/
def TextsFollowTimes (parse : JStr → Option ℚ) (rows : List EventRow) : Prop :=
  ∀ a ∈ rows, ∀ b ∈ rows, ∀ c ∈ rows, ∀ s t,
    parse a.lastSeen = some s → parse b.lastSeen = some t → parse c.lastSeen = none →
    codeUnits a.lastSeen < codeUnits c.lastSeen → codeUnits c.lastSeen < codeUnits b.lastSeen →
    s < t

theorem TextsFollowTimes.of_consistent (h : Consistent {r | r ∈ rows} (compareRows parse)) :
    TextsFollowTimes parse rows := by
  intro a ha b hb c hc s t hs ht hnone hac hcb
  by_contra hle
  -- otherwise `a`, `b`, `c` follow each other, and `c` comes before `a`
  have hab : compareRows parse a b ≤ 0 := by
    rw [compareRows_time hs ht]
    linarith
  have hbc := (compareRows_text_nonpos (.inr hnone)).mpr hcb.le
  have hac' := h.trans a ha b hb c hc hab hbc
  rw [compareRows_text_nonpos (.inr hnone)] at hac'
  exact hac'.not_gt hac

theorem codeUnits_ne {a b : EventRow} {s : ℚ} (ha : parse a.lastSeen = some s)
    (hb : parse b.lastSeen = none) : codeUnits a.lastSeen ≠ codeUnits b.lastSeen := by
  intro heq
  rw [codeUnits_inj.mp heq, hb] at ha
  cases ha

theorem TextsFollowTimes.trans (h : TextsFollowTimes parse rows) {a b c : EventRow}
    (ha : a ∈ rows) (hb : b ∈ rows) (hc : c ∈ rows) (hab : compareRows parse a b ≤ 0)
    (hbc : compareRows parse b c ≤ 0) : compareRows parse a c ≤ 0 := by
  cases has : parse a.lastSeen with
  | none =>
    rw [compareRows_text_nonpos (.inl has)] at hab ⊢
    by_cases htext : parse b.lastSeen = none ∨ parse c.lastSeen = none
    · exact ((compareRows_text_nonpos htext).mp hbc).trans hab
    · push Not at htext
      obtain ⟨t, hbt⟩ := Option.ne_none_iff_exists'.mp htext.1
      obtain ⟨u, hcu⟩ := Option.ne_none_iff_exists'.mp htext.2
      rw [compareRows_time hbt hcu] at hbc
      by_contra hac
      have htu := h b hb c hc a ha t u hbt hcu has
        (lt_of_le_of_ne hab (codeUnits_ne hbt has)) (not_le.mp hac)
      linarith
  | some s =>
    cases hcu : parse c.lastSeen with
    | none =>
      rw [compareRows_text_nonpos (.inr hcu)] at hbc ⊢
      cases hbt : parse b.lastSeen with
      | none => exact hbc.trans ((compareRows_text_nonpos (.inr hbt)).mp hab)
      | some t =>
        rw [compareRows_time has hbt] at hab
        by_contra hac
        have hst := h a ha b hb c hc s t has hbt hcu (not_le.mp hac)
          (lt_of_le_of_ne hbc (codeUnits_ne hbt hcu).symm)
        linarith
    | some u =>
      rw [compareRows_time has hcu]
      cases hbt : parse b.lastSeen with
      | none =>
        rw [compareRows_text_nonpos (.inr hbt)] at hab
        rw [compareRows_text_nonpos (.inl hbt)] at hbc
        have hus := h c hc a ha b hb u s hcu has hbt
          (lt_of_le_of_ne hbc (codeUnits_ne hcu hbt))
          (lt_of_le_of_ne hab (codeUnits_ne has hbt).symm)
        linarith
      | some t =>
        rw [compareRows_time has hbt] at hab
        rw [compareRows_time hbt hcu] at hbc
        linarith

theorem TextsFollowTimes.consistent (h : TextsFollowTimes parse rows) :
    Consistent {r | r ∈ rows} (compareRows parse) where
  swap a _ b _ := by rw [compareRows_swap, neg_neg_iff_pos]
  trans _ ha _ hb _ hc hab hbc := h.trans ha hb hc hab hbc

/-! ## The result -/

/-- A stable permutation in which the times do not increase. -/
structure NewestFirst (parse : JStr → Option ℚ) (rows sorted : List EventRow) : Prop where
  perm : sorted.Perm rows
  stable : ∀ tied : List EventRow, tied.Sublist rows →
    (tied.Pairwise fun a b => compareRows parse a b = 0) → tied.Sublist sorted
  times : sorted.Pairwise fun a b => ∀ s t, parse a.lastSeen = some s →
    parse b.lastSeen = some t → t ≤ s

theorem newestFirst_of_consistent (h : Consistent {r | r ∈ rows} (compareRows parse)) :
    NewestFirst parse rows (sortByLastSeenDesc parse rows) := by
  rw [sortByLastSeenDesc_eq]
  refine ⟨sortBy_perm _ _, fun tied hsub htied => ?_, h.sorted.imp fun hab s t hs ht => ?_⟩
  · exact h.stable hsub (htied.imp le_of_eq)
  · rw [compareRows_time hs ht] at hab
    linarith

/-- `n` digits from a position. -/
def digitsAt (s : JStr) (i n : ℕ) : Option ℕ :=
  let part := (s.drop i).take n
  if part.length = n ∧ part.all isDigit then some (TableSort.digitsValue part) else none

/-- Milliseconds of what follows the seconds, `Z` or a fraction and `Z`: further digits are cut. -/
def fractionMs : JStr → Option ℕ
  | [0x5A] => some 0
  | 0x2E :: s =>
    let digits := s.takeWhile isDigit
    if digits ≠ [] ∧ s.dropWhile isDigit = [0x5A] then
      some (TableSort.digitsValue ((digits ++ [0x30, 0x30]).take 3))
    else none
  | _ => none

def isLeap (year : ℕ) : Prop := year % 4 = 0 ∧ (year % 100 ≠ 0 ∨ year % 400 = 0)

instance (year : ℕ) : Decidable (isLeap year) := inferInstanceAs (Decidable (_ ∧ _))

def monthLengths (year : ℕ) : List ℕ :=
  [31, if isLeap year then 29 else 28, 31, 30, 31, 30, 31, 31, 30, 31, 30, 31]

/-- Days from the first of January 1970 to the first of a year. -/
def dayFromYear (year : ℕ) : ℤ :=
  365 * ((year : ℤ) - 1970) + ((year : ℤ) - 1969) / 4 - ((year : ℤ) - 1901) / 100 +
    ((year : ℤ) - 1601) / 400

/-- `Date.parse` on `YYYY-MM-DDTHH:mm:ss`, an optional fraction and `Z`. -/
def parseUtc (s : JStr) : Option ℤ := do
  let year ← digitsAt s 0 4
  let month ← digitsAt s 5 2
  let day ← digitsAt s 8 2
  let hour ← digitsAt s 11 2
  let minute ← digitsAt s 14 2
  let second ← digitsAt s 17 2
  let ms ← fractionMs (s.drop 19)
  let length ← (monthLengths year)[month - 1]?
  if (s[4]?, s[7]?, s[10]?, s[13]?, s[16]?) =
      (some 0x2D, some 0x2D, some 0x54, some 0x3A, some 0x3A) ∧
      1 ≤ month ∧ 1 ≤ day ∧ day ≤ length ∧ hour < 24 ∧ minute < 60 ∧ second < 60 then
    let days := dayFromYear year + ((monthLengths year).take (month - 1)).sum + (day - 1)
    some ((((days * 24 + hour) * 60 + minute) * 60 + second) * 1000 + ms)
  else none

def parseTimestamp (s : JStr) : Option ℚ := (parseUtc s).map fun ms => ms

example : parseUtc (js "2026-07-20T10:00:05.500000Z") = some 1784541605500 := by decide +kernel

def seenAt (lastSeen : JStr) : EventRow where
  uid := lastSeen
  type := js "Normal"
  reason := []
  message := []
  count := 1
  source := []
  lastSeen := lastSeen
  namespace_ := []
  involvedKind := []
  involvedName := []
  involvedApiVersion := js "v1"

def mixedRows : List EventRow :=
  [seenAt (js "2026-07-20T10:00:05Z"), seenAt (js "2026-07-20T10:00:05X"),
    seenAt (js "2026-07-20T10:00:05.5Z")]

end KubeConsole.Web.EventSort
