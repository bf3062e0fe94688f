import Mathlib

/-!
Go strings and the functions of the packages `strings` and `unicode/utf8` that the
backend validates requests with.

A string is any sequence of bytes, valid UTF-8 or not. `ToLower` goes rune by rune,
so a byte of its result need not come from the byte at the same place: an invalid
byte becomes the replacement character, and a letter may change its length. What
survives this for ASCII patterns is stated with `Blurred`.
-/
namespace KubeConsole.Go

/-- A Go string. -/
abbrev Str := List UInt8

/-- The bytes of an ASCII literal. -/
def str (s : String) : Str := s.toList.map fun c => c.toNat.toUInt8

/-- A character of an ASCII literal. -/
def chr (c : Char) : UInt8 := c.toNat.toUInt8

/-- `strings.TrimPrefix`. -/
def trimPrefix (s p : Str) : Str := if p <+: s then s.drop p.length else s

/-- `unicode.ToLower` below `utf8.RuneSelf`. -/
def lowerByte (b : UInt8) : UInt8 := if chr 'A' ≤ b ∧ b ≤ chr 'Z' then b + 0x20 else b

/-- `unicode.ToLower` from `utf8.RuneSelf` on, by the tables of the package `unicode`.
Two of its letters have an ASCII lower case: the dotted capital I and the Kelvin sign. -/
structure CaseTable where
  toLower : ℕ → ℕ
  ascii : ∀ r, 0x80 ≤ r → toLower r < 0x80 → toLower r = 0x69 ∨ toLower r = 0x6B

instance : Inhabited CaseTable where
  default :=
    { toLower := fun r => if r = 0x130 then 0x69 else if r = 0x212A then 0x6B else r
      ascii := by intro r hr h; split_ifs at h ⊢ <;> omega }

/-- `unicode.ToLower`. -/
def CaseTable.lowerRune (t : CaseTable) (r : ℕ) : ℕ :=
  if r < 0x80 then (lowerByte r.toUInt8).toNat else t.toLower r

def runeError : ℕ := 0xFFFD

/-- The table `first` of `unicode/utf8`: how many bytes an encoding that starts with
`b` has and what its second byte may be, `none` where no longer encoding does. -/
def firstByte (b : UInt8) : Option (ℕ × UInt8 × UInt8) :=
  if b < 0xC2 then none
  else if b < 0xE0 then some (2, 0x80, 0xBF)
  else if b = 0xE0 then some (3, 0xA0, 0xBF)
  else if b = 0xED then some (3, 0x80, 0x9F)
  else if b < 0xF0 then some (3, 0x80, 0xBF)
  else if b = 0xF0 then some (4, 0x90, 0xBF)
  else if b < 0xF4 then some (4, 0x80, 0xBF)
  else if b = 0xF4 then some (4, 0x80, 0x8F)
  else none

/-- A continuation byte. -/
def continues (b : UInt8) : Prop := 0x80 ≤ b ∧ b ≤ 0xBF

instance : DecidablePred continues := fun b => inferInstanceAs (Decidable (0x80 ≤ b ∧ b ≤ 0xBF))

/-- `utf8.DecodeRuneInString` of `b :: s`: the first rune and its width. A byte that
starts no valid encoding counts as `RuneError`, of width 1. -/
def decodeRune (b : UInt8) (s : Str) : ℕ × ℕ :=
  if b < 0x80 then (b.toNat, 1)
  else match firstByte b, s with
    | some (2, lo, hi), c :: _ =>
      if lo ≤ c ∧ c ≤ hi then (b.toNat % 32 * 64 + c.toNat % 64, 2) else (runeError, 1)
    | some (3, lo, hi), c :: d :: _ =>
      if (lo ≤ c ∧ c ≤ hi) ∧ continues d then
        (b.toNat % 16 * 4096 + c.toNat % 64 * 64 + d.toNat % 64, 3)
      else (runeError, 1)
    | some (4, lo, hi), c :: d :: e :: _ =>
      if (lo ≤ c ∧ c ≤ hi) ∧ continues d ∧ continues e then
        (b.toNat % 8 * 262144 + c.toNat % 64 * 4096 + d.toNat % 64 * 64 + e.toNat % 64, 4)
      else (runeError, 1)
    | _, _ => (runeError, 1)

/-- `utf8.AppendRune` to the empty string. -/
def encodeRune (r : ℕ) : Str :=
  if r < 0x80 then [r.toUInt8]
  else if r < 0x800 then [(0xC0 + r / 64).toUInt8, (0x80 + r % 64).toUInt8]
  else if (0xD800 ≤ r ∧ r ≤ 0xDFFF) ∨ 0x10FFFF < r then [0xEF, 0xBF, 0xBD]
  else if r < 0x10000 then
    [(0xE0 + r / 4096).toUInt8, (0x80 + r / 64 % 64).toUInt8, (0x80 + r % 64).toUInt8]
  else
    [(0xF0 + r / 262144).toUInt8, (0x80 + r / 4096 % 64).toUInt8, (0x80 + r / 64 % 64).toUInt8,
      (0x80 + r % 64).toUInt8]

/-- `strings.Map`, after `skip` more bytes of the rune before. -/
def mapRunes (f : ℕ → ℕ) : ℕ → Str → Str
  | _, [] => []
  | skip + 1, _ :: s => mapRunes f skip s
  | 0, b :: s => encodeRune (f (decodeRune b s).1) ++ mapRunes f ((decodeRune b s).2 - 1) s

/-- `strings.ToLower`. -/
def CaseTable.lower (t : CaseTable) (s : Str) : Str := mapRunes t.lowerRune 0 s

/-- `strings.EqualFold`, where one side has no letter with a case variant outside
ASCII: neither k nor s. -/
def equalFold (s t : Str) : Bool := s.map lowerByte = t.map lowerByte

/-- Simple case folding of what folds to ASCII: the long s, the Kelvin sign and the capital
letters. -/
def foldAscii : Str → Str
  | [] => []
  | [b] => [lowerByte b]
  | b :: c :: s =>
    if b = 0xC5 ∧ c = 0xBF then chr 's' :: foldAscii s
    else match s with
      | d :: s' =>
        if b = 0xE2 ∧ c = 0x84 ∧ d = 0xAA then chr 'k' :: foldAscii s'
        else lowerByte b :: foldAscii (c :: d :: s')
      | [] => lowerByte b :: foldAscii [c]

/-- `strings.EqualFold` where `t` is ASCII. -/
def equalFoldAscii (s t : Str) : Bool := foldAscii s = foldAscii t

/-- The runes of a string, each with its bytes, after `skip` more bytes of one before. -/
def runes : ℕ → Str → List (ℕ × Str)
  | _, [] => []
  | skip + 1, _ :: s => runes skip s
  | 0, b :: s =>
    ((decodeRune b s).1, (b :: s).take (decodeRune b s).2) :: runes ((decodeRune b s).2 - 1) s

/-- `unicode.IsSpace`. -/
def isSpace (r : ℕ) : Bool :=
  r ∈ [0x09, 0x0A, 0x0B, 0x0C, 0x0D, 0x20, 0x85, 0xA0, 0x1680, 0x2028, 0x2029, 0x202F, 0x205F,
    0x3000] || (0x2000 ≤ r && r ≤ 0x200A)

/-- `strings.TrimSpace`. -/
def trimSpace (s : Str) : Str :=
  (((runes 0 s).dropWhile fun r => isSpace r.1).rdropWhile fun r => isSpace r.1).flatMap Prod.snd

/-! Strings that agree but for stretches of foreign characters. -/

/-- `s` and `t` are the same up to replacing stretches of foreign elements by others. -/
inductive Blurred {α : Type*} (F : α → Prop) : List α → List α → Prop where
  | nil : Blurred F [] []
  | keep (a : α) {s t : List α} : Blurred F s t → Blurred F (a :: s) (a :: t)
  | blur {u v s t : List α} : u ≠ [] → v ≠ [] → (∀ a ∈ u, F a) → (∀ a ∈ v, F a) →
      Blurred F s t → Blurred F (u ++ s) (v ++ t)

section Blurred
variable {α : Type*} {F : α → Prop} {s t p : List α}

theorem Blurred.symm (h : Blurred F s t) : Blurred F t s := by
  induction h with
  | nil => exact .nil
  | keep a _ ih => exact .keep a ih
  | blur hu hv hFu hFv _ ih => exact .blur hv hu hFv hFu ih

private theorem foreign_head {a : α} {u : List α} (hne : u ≠ []) (hu : ∀ b ∈ u, F b)
    (h : a :: p <+: u ++ s) : F a := by
  obtain ⟨b, u, rfl⟩ := List.exists_cons_of_ne_nil hne
  obtain ⟨rfl, -⟩ := List.cons_prefix_cons.mp h
  exact hu a List.mem_cons_self

/-- A pattern without foreign elements is a prefix of both or of neither. -/
theorem Blurred.prefix_mp (h : Blurred F s t) (hp : ∀ b ∈ p, ¬F b) (hs : p <+: s) : p <+: t := by
  induction h generalizing p with
  | nil => exact hs
  | keep a _ ih =>
    cases p with
    | nil => exact List.nil_prefix
    | cons b p =>
      obtain ⟨rfl, hp'⟩ := List.cons_prefix_cons.mp hs
      exact List.cons_prefix_cons.mpr ⟨rfl, ih (fun c hc => hp c (List.mem_cons_of_mem _ hc)) hp'⟩
  | blur hu hv hFu _ _ _ =>
    cases p with
    | nil => exact List.nil_prefix
    | cons b p =>
      exact absurd (foreign_head hu hFu hs) (hp b List.mem_cons_self)

theorem infix_of_infix_foreign {u : List α} (hp : ∀ b ∈ p, ¬F b) (hu : ∀ b ∈ u, F b)
    (h : p <:+: u ++ s) : p <:+: s := by
  induction u with
  | nil => exact h
  | cons a u ih =>
    rcases List.infix_cons_iff.mp h with h | h
    · cases p with
      | nil => exact List.nil_infix
      | cons b p =>
        obtain ⟨rfl, -⟩ := List.cons_prefix_cons.mp h
        exact absurd (hu b List.mem_cons_self) (hp b List.mem_cons_self)
    · exact ih (fun b hb => hu b (List.mem_cons_of_mem _ hb)) h

/-- It occurs in both or in neither. -/
theorem Blurred.infix_mp (h : Blurred F s t) (hp : ∀ b ∈ p, ¬F b) (hs : p <:+: s) : p <:+: t := by
  induction h with
  | nil => exact hs
  | keep a h ih =>
    rcases List.infix_cons_iff.mp hs with hs | hs
    · exact ((h.keep a).prefix_mp hp hs).isInfix
    · exact (ih hs).trans (List.suffix_cons _ _).isInfix
  | blur _ _ hFu _ _ ih =>
    exact (ih (infix_of_infix_foreign hp hFu hs)).trans (List.suffix_append _ _).isInfix

theorem Blurred.infix_iff (h : Blurred F s t) (hp : ∀ b ∈ p, ¬F b) : p <:+: s ↔ p <:+: t :=
  ⟨h.infix_mp hp, h.symm.infix_mp hp⟩

theorem Blurred.eq_mp (h : Blurred F s t) (hs : ∀ b ∈ s, ¬F b) : s = t := by
  induction h with
  | nil => rfl
  | keep a _ ih => rw [ih fun b hb => hs b (List.mem_cons_of_mem _ hb)]
  | blur hu _ hFu _ _ _ =>
    obtain ⟨a, u, rfl⟩ := List.exists_cons_of_ne_nil hu
    exact absurd (hFu a List.mem_cons_self) (hs a (by simp))

/-- A string without foreign elements is equal to both or to neither. -/
theorem Blurred.eq_iff (h : Blurred F s t) (hp : ∀ b ∈ p, ¬F b) : s = p ↔ t = p := by
  constructor
  · rintro rfl
    exact (h.eq_mp hp).symm
  · rintro rfl
    exact (h.symm.eq_mp hp).symm

end Blurred

/-! Lowering keeps ASCII patterns. -/

/-- The bytes a non-ASCII rune and its lower case may be made of. -/
def Foreign (b : UInt8) : Prop := 0x80 ≤ b ∨ b = 0x69 ∨ b = 0x6B

instance : DecidablePred Foreign := fun b =>
  inferInstanceAs (Decidable (0x80 ≤ b ∨ b = 0x69 ∨ b = 0x6B))

theorem le_toUInt8 {n : ℕ} (h : 0x80 ≤ n) (h' : n < 256) : (0x80 : UInt8) ≤ n.toUInt8 := by
  rw [UInt8.le_iff_toNat_le, Nat.toUInt8, UInt8.toNat_ofNat_of_lt' h']
  exact h

/-- A rune that is not ASCII is encoded with bytes that are not. -/
theorem encodeRune_ge {r : ℕ} (h : 0x80 ≤ r) : encodeRune r ≠ [] ∧ ∀ b ∈ encodeRune r, 0x80 ≤ b := by
  unfold encodeRune
  rw [if_neg (by omega)]
  split_ifs with h2 hs h3
  · refine ⟨by simp, fun b hb => ?_⟩
    simp only [List.mem_cons, List.not_mem_nil, or_false] at hb
    rcases hb with rfl | rfl <;> exact le_toUInt8 (by omega) (by omega)
  · simp
  · refine ⟨by simp, fun b hb => ?_⟩
    simp only [List.mem_cons, List.not_mem_nil, or_false] at hb
    rcases hb with rfl | rfl | rfl <;> exact le_toUInt8 (by omega) (by omega)
  · refine ⟨by simp, fun b hb => ?_⟩
    simp only [List.mem_cons, List.not_mem_nil, or_false] at hb
    rcases hb with rfl | rfl | rfl | rfl <;> exact le_toUInt8 (by omega) (by omega)

/-- What the table says of each length. The second byte of the shortest encodings of
three and four bytes is bounded from below, which excludes overlong ones. -/
theorem firstByte_eq_some {b lo hi : UInt8} {n : ℕ} (h : firstByte b = some (n, lo, hi)) :
    0x80 ≤ lo ∧ hi ≤ 0xBF ∧ (n = 2 → 0xC2 ≤ b ∧ b < 0xE0) ∧
      (n = 3 → 0xE0 ≤ b ∧ b < 0xF0 ∧ (b = 0xE0 → 0xA0 ≤ lo)) ∧
      (n = 4 → 0xF0 ≤ b ∧ b ≤ 0xF4 ∧ (b = 0xF0 → 0x90 ≤ lo)) := by
  unfold firstByte at h
  split_ifs at h <;> cases h <;> grind

/-- A rune whose first byte is not ASCII is not ASCII, nor are its other bytes. -/
theorem decodeRune_ge {b : UInt8} {s : Str} (h : 0x80 ≤ b) :
    0x80 ≤ (decodeRune b s).1 ∧ ∀ c ∈ s.take ((decodeRune b s).2 - 1), 0x80 ≤ c := by
  unfold decodeRune
  rw [if_neg (UInt8.not_lt.mpr h)]
  split
  next lo hi c s hf =>
    obtain ⟨hlo, hhi, hb, -, -⟩ := firstByte_eq_some hf
    obtain ⟨hb1, hb2⟩ := hb rfl
    split_ifs with hc
    · simp only [UInt8.le_iff_toNat_le, UInt8.lt_iff_toNat_lt, UInt8.reduceToNat] at *
      simp
      omega
    · simp [runeError]
  next lo hi c d s hf =>
    obtain ⟨hlo, hhi, -, hb, -⟩ := firstByte_eq_some hf
    obtain ⟨hb1, hb2, hb3⟩ := hb rfl
    split_ifs with hc
    · simp only [UInt8.le_iff_toNat_le, UInt8.lt_iff_toNat_lt, UInt8.reduceToNat, continues,
        ← UInt8.toNat_inj] at *
      simp
      omega
    · simp [runeError]
  next lo hi c d e s hf =>
    obtain ⟨hlo, hhi, -, -, hb⟩ := firstByte_eq_some hf
    obtain ⟨hb1, hb2, hb3⟩ := hb rfl
    split_ifs with hc
    · simp only [UInt8.le_iff_toNat_le, UInt8.reduceToNat, continues, ← UInt8.toNat_inj] at *
      simp
      omega
    · simp [runeError]
  next => simp [runeError]

theorem mapRunes_drop (f : ℕ → ℕ) (k : ℕ) (s : Str) : mapRunes f k s = mapRunes f 0 (s.drop k) := by
  induction s generalizing k with
  | nil => simp [mapRunes]
  | cons b s ih =>
    cases k with
    | zero => rfl
    | succ k => simpa [mapRunes] using ih k

/-- The lower case of a non-ASCII rune is encoded with foreign bytes. -/
theorem CaseTable.foreign_lowerRune (t : CaseTable) {r : ℕ} (h : 0x80 ≤ r) :
    encodeRune (t.lowerRune r) ≠ [] ∧ ∀ b ∈ encodeRune (t.lowerRune r), Foreign b := by
  rw [CaseTable.lowerRune, if_neg (by omega)]
  by_cases hr : t.toLower r < 0x80
  · rcases t.ascii r h hr with h | h <;> rw [h] <;> simp [encodeRune, Foreign]
  · obtain ⟨hne, hge⟩ := encodeRune_ge (not_lt.mp hr)
    exact ⟨hne, fun b hb => .inl (hge b hb)⟩

theorem lowerByte_lt {b : UInt8} (h : b < 0x80) : lowerByte b < 0x80 := by
  unfold lowerByte
  split_ifs with hb
  · have : b ≤ 0x5A := hb.2
    grind
  · exact h

theorem foreign_lowerByte {b : UInt8} (h : 0x80 ≤ b) : Foreign (lowerByte b) := by
  have hb : ¬b ≤ chr 'Z' := by
    show ¬b ≤ 0x5A
    grind
  rw [lowerByte, if_neg fun h => hb h.2]
  exact .inl h

theorem CaseTable.encode_lowerByte (t : CaseTable) {b : UInt8} (h : b < 0x80) :
    encodeRune (t.lowerRune b.toNat) = [lowerByte b] := by
  have hb : b.toNat < 0x80 := UInt8.lt_iff_toNat_lt.mp h
  have hl : (lowerByte b).toNat < 0x80 := UInt8.lt_iff_toNat_lt.mp (lowerByte_lt h)
  simp [CaseTable.lowerRune, hb, encodeRune, hl]

theorem CaseTable.lower_cons (t : CaseTable) {b : UInt8} (h : b < 0x80) (s : Str) :
    t.lower (b :: s) = lowerByte b :: t.lower s := by
  have hd : decodeRune b s = (b.toNat, 1) := if_pos h
  show encodeRune _ ++ _ = _
  rw [hd, t.encode_lowerByte h]
  rfl

/-- `ToLower` lowers the ASCII letters where they stand, and puts foreign bytes for
what is not ASCII. -/
theorem CaseTable.lower_blurred (t : CaseTable) (s : Str) :
    Blurred Foreign (t.lower s) (s.map lowerByte) := by
  induction hn : s.length using Nat.strong_induction_on generalizing s with
  | _ n ih =>
    cases s with
    | nil => exact .nil
    | cons b s =>
      have hrec (k : ℕ) : Blurred Foreign (mapRunes t.lowerRune k s) ((s.drop k).map lowerByte) := by
        rw [mapRunes_drop]
        exact ih _ (by simp at hn ⊢; omega) (s.drop k) rfl
      by_cases hb : b < 0x80
      · rw [t.lower_cons hb]
        exact .keep _ (hrec 0)
      · show Blurred Foreign (encodeRune _ ++ _) _
        have hb := UInt8.not_lt.mp hb
        obtain ⟨hr, htake⟩ := decodeRune_ge (s := s) hb
        obtain ⟨hne, hfor⟩ := t.foreign_lowerRune hr
        have hsplit : (b :: s).map lowerByte =
            (b :: s.take ((decodeRune b s).2 - 1)).map lowerByte ++
              (s.drop ((decodeRune b s).2 - 1)).map lowerByte := by
          rw [← List.map_append, List.cons_append, List.take_append_drop]
        rw [hsplit]
        refine .blur hne (by simp) hfor (fun c hc => ?_) (hrec _)
        obtain ⟨d, hd, rfl⟩ := List.mem_map.mp hc
        rcases List.mem_cons.mp hd with rfl | hd
        · exact foreign_lowerByte hb
        · exact foreign_lowerByte (htake d hd)

/-- An ASCII string in front is lowered byte by byte. -/
theorem CaseTable.lower_append (t : CaseTable) {s : Str} (h : ∀ b ∈ s, b < 0x80) (r : Str) :
    t.lower (s ++ r) = s.map lowerByte ++ t.lower r := by
  induction s with
  | nil => rfl
  | cons b s ih =>
    rw [List.cons_append, t.lower_cons (h b List.mem_cons_self),
      ih fun c hc => h c (List.mem_cons_of_mem _ hc)]
    rfl

/-- An ASCII prefix in lower case is one of the lowered string. -/
theorem CaseTable.prefix_lower (t : CaseTable) {p s : Str} (hp : ∀ b ∈ p, b < 0x80)
    (h : p <+: s.map lowerByte) : p <+: t.lower s := by
  obtain ⟨u, hu, rfl⟩ := List.prefix_map_iff.mp h
  obtain ⟨r, rfl⟩ := hu
  have hu : ∀ b ∈ u, b < 0x80 := by
    intro b hb
    have hl := hp _ (List.mem_map_of_mem hb)
    by_contra hge
    rw [lowerByte, if_neg (fun h => hge (UInt8.lt_of_le_of_lt h.2 (by decide)))] at hl
    exact hge hl
  rw [t.lower_append hu]
  exact List.prefix_append _ _

end KubeConsole.Go
