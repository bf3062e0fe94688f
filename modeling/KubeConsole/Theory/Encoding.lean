import Mathlib

/-!
Encodings of bytes and of text: base 64, UTF-8 and UTF-16, each with what decoding makes of what
was encoded.
-/
namespace KubeConsole.Theory.Encoding

/-! ## Base 64 -/

/-- Three bytes as four digits of six bits; the last digit of a shorter group is filled up. -/
def sextets : List UInt8 → List ℕ
  | [] => []
  | [a] => [a.toNat / 4, a.toNat % 4 * 16]
  | [a, b] => [a.toNat / 4, a.toNat % 4 * 16 + b.toNat / 16, b.toNat % 16 * 4]
  | a :: b :: c :: bytes =>
    a.toNat / 4 :: (a.toNat % 4 * 16 + b.toNat / 16) :: (b.toNat % 16 * 4 + c.toNat / 64) ::
      c.toNat % 64 :: sextets bytes

/-- The bits that do not fill a byte are dropped. -/
def ofSextets : List ℕ → List UInt8
  | [] => []
  | [_] => []
  | [s, t] => [UInt8.ofNat (s * 4 + t / 16)]
  | [s, t, u] => [UInt8.ofNat (s * 4 + t / 16), UInt8.ofNat (t % 16 * 16 + u / 4)]
  | s :: t :: u :: v :: rest =>
    UInt8.ofNat (s * 4 + t / 16) :: UInt8.ofNat (t % 16 * 16 + u / 4) ::
      UInt8.ofNat (u % 4 * 64 + v) :: ofSextets rest

/-- `ABCDEFGHIJKLMNOPQRSTUVWXYZabcdefghijklmnopqrstuvwxyz0123456789+/`. -/
def alphabet : List UInt16 :=
  (List.range' 0x41 26 ++ List.range' 0x61 26 ++ List.range' 0x30 10 ++ [0x2B, 0x2F]).map
    UInt16.ofNat

def pad : UInt16 := 0x3D

/-- The padding completes the last group of four. -/
def encode64 (bytes : List UInt8) : List UInt16 :=
  (sextets bytes).map (alphabet.getD · pad) ++
    List.replicate ((4 - (sextets bytes).length % 4) % 4) pad

/-- Up to two characters of padding, where the length is a multiple of four. -/
def unpad (s : List UInt16) : List UInt16 :=
  if s.length % 4 ≠ 0 then s
  else match s.reverse with
    | c :: d :: rest =>
      if c = pad then if d = pad then rest.reverse else (d :: rest).reverse else s
    | _ => s

/-- Fails on a character outside the alphabet and on a single digit that is left over. -/
def decode64 (s : List UInt16) : Option (List UInt8) :=
  if (unpad s).length % 4 = 1 then none
  else ((unpad s).mapM fun c => alphabet.idxOf? c).map ofSextets

theorem sextets_lt (bytes : List UInt8) : ∀ s ∈ sextets bytes, s < 64 := by
  induction bytes using sextets.induct with
  | case1 => simp [sextets]
  | case2 a =>
    have ha := a.toNat_lt
    simp only [sextets, List.forall_mem_cons]
    exact ⟨by omega, by omega, List.forall_mem_nil _⟩
  | case3 a b =>
    have ha := a.toNat_lt
    have hb := b.toNat_lt
    simp only [sextets, List.forall_mem_cons]
    exact ⟨by omega, by omega, by omega, List.forall_mem_nil _⟩
  | case4 a b c bytes ih =>
    have ha := a.toNat_lt
    have hb := b.toNat_lt
    have hc := c.toNat_lt
    simp only [sextets, List.forall_mem_cons]
    exact ⟨by omega, by omega, by omega, by omega, ih⟩

theorem ofNat_eq {a : UInt8} {n : ℕ} (h : n = a.toNat) : UInt8.ofNat n = a := by
  rw [h, UInt8.ofNat_toNat]

theorem ofSextets_sextets (bytes : List UInt8) : ofSextets (sextets bytes) = bytes := by
  induction bytes using sextets.induct with
  | case1 => rfl
  | case2 a =>
    have ha := a.toNat_lt
    simp only [sextets, ofSextets]
    rw [ofNat_eq (a := a) (by omega)]
  | case3 a b =>
    have ha := a.toNat_lt
    have hb := b.toNat_lt
    simp only [sextets, ofSextets]
    rw [ofNat_eq (a := a) (by omega), ofNat_eq (a := b) (by omega)]
  | case4 a b c bytes ih =>
    have ha := a.toNat_lt
    have hb := b.toNat_lt
    have hc := c.toNat_lt
    simp only [sextets, ofSextets]
    rw [ofNat_eq (a := a) (by omega), ofNat_eq (a := b) (by omega), ofNat_eq (a := c) (by omega), ih]

theorem length_sextets_mod (bytes : List UInt8) : (sextets bytes).length % 4 ≠ 1 := by
  induction bytes using sextets.induct with
  | case1 => decide
  | case2 a => simp [sextets]
  | case3 a b => simp [sextets]
  | case4 a b c bytes ih =>
    simp only [sextets, List.length_cons]
    omega

theorem alphabet_digit {n : ℕ} (hn : n < 64) :
    alphabet.getD n pad ≠ pad ∧ alphabet.idxOf? (alphabet.getD n pad) = some n := by
  have hall : ∀ k ∈ List.range 64, alphabet.getD k pad ≠ pad ∧
      alphabet.idxOf? (alphabet.getD k pad) = some k := by decide
  exact hall n (List.mem_range.mpr hn)

/-- No character of an encoded text is white space. -/
theorem lt_of_mem_encode64 {bytes : List UInt8} {c : UInt16} (h : c ∈ encode64 bytes) :
    0x20 < c := by
  have hall : alphabet.all (fun d => decide (0x20 < d)) = true := by decide
  rcases List.mem_append.mp h with h | h
  · obtain ⟨n, -, rfl⟩ := List.mem_map.mp h
    rw [List.getD_eq_getElem?_getD]
    cases hn : alphabet[n]? with
    | none => decide
    | some d => exact of_decide_eq_true (List.all_eq_true.mp hall d (List.mem_of_getElem? hn))
  · rw [List.eq_of_mem_replicate h]
    decide

theorem unpad_digits {digits : List UInt16} (hd : ∀ d ∈ digits, d ≠ pad)
    (hlen : digits.length % 4 ≠ 1) :
    unpad (digits ++ List.replicate ((4 - digits.length % 4) % 4) pad) = digits := by
  have hrev : ∀ d ∈ digits.reverse, d ≠ pad := fun d h => hd d (List.mem_reverse.mp h)
  have hmod := Nat.mod_lt digits.length (show 0 < 4 by omega)
  rcases (by omega : digits.length % 4 = 0 ∨ digits.length % 4 = 2 ∨ digits.length % 4 = 3) with
    h | h | h
  · simp only [h, Nat.sub_zero, Nat.mod_self, List.replicate_zero, List.append_nil]
    rw [unpad, if_neg (not_not.mpr h)]
    match hr : digits.reverse with
    | [] => rfl
    | [_] => rfl
    | c :: d :: rest =>
      dsimp only
      rw [if_neg (hrev c (by simp [hr]))]
  · have hlen4 : (digits ++ [pad, pad]).length % 4 = 0 := by simp; omega
    simp only [h]
    rw [show List.replicate ((4 - 2) % 4) pad = [pad, pad] from rfl, unpad,
      if_neg (not_not.mpr hlen4), List.reverse_append]
    exact List.reverse_reverse digits
  · have hlen4 : (digits ++ [pad]).length % 4 = 0 := by simp; omega
    simp only [h]
    rw [show List.replicate ((4 - 3) % 4) pad = [pad] from rfl, unpad,
      if_neg (not_not.mpr hlen4), List.reverse_append]
    match hr : digits.reverse with
    | [] =>
      rw [List.reverse_eq_nil_iff.mp hr] at h
      cases h
    | d :: rest =>
      have hne := hrev d (by simp [hr])
      simp only [List.reverse_singleton, List.singleton_append, if_true, if_neg hne]
      rw [← hr, List.reverse_reverse]

theorem decode64_encode64 (bytes : List UInt8) : decode64 (encode64 bytes) = some bytes := by
  have hlt := sextets_lt bytes
  have hlen := length_sextets_mod bytes
  have hunpad : unpad (encode64 bytes) = (sextets bytes).map (alphabet.getD · pad) := by
    have hne : ∀ d ∈ (sextets bytes).map (alphabet.getD · pad), d ≠ pad := by
      intro d hd
      obtain ⟨n, hn, rfl⟩ := List.mem_map.mp hd
      exact (alphabet_digit (hlt n hn)).1
    have h := unpad_digits hne (by rwa [List.length_map])
    rwa [List.length_map] at h
  have hdigits : (((sextets bytes).map (alphabet.getD · pad)).mapM fun c => alphabet.idxOf? c) =
      some (sextets bytes) := by
    generalize sextets bytes = ns at hlt
    clear hlen hunpad
    induction ns with
    | nil => rfl
    | cons n ns ih =>
      obtain ⟨hn, hns⟩ := List.forall_mem_cons.mp hlt
      rw [List.map_cons, List.mapM_cons, (alphabet_digit hn).2, ih hns]
      rfl
  rw [decode64, hunpad, List.length_map, if_neg hlen, hdigits, Option.map_some,
    ofSextets_sextets]

/-! ## UTF-16 -/

def isHigh (u : UInt16) : Bool := 0xD800 ≤ u && u < 0xDC00

def isLow (u : UInt16) : Bool := 0xDC00 ≤ u && u < 0xE000

/-- A character as one unit, or as a high and a low surrogate. -/
def utf16 (c : Char) : List UInt16 :=
  if c.toNat < 0x10000 then [UInt16.ofNat c.toNat]
  else [UInt16.ofNat (0xD800 + (c.toNat - 0x10000) / 0x400),
    UInt16.ofNat (0xDC00 + (c.toNat - 0x10000) % 0x400)]

def utf16Encode (text : List Char) : List UInt16 := text.flatMap utf16

/-- A unit on its own; a surrogate is replaced. -/
def ofUnit (u : UInt16) : Char :=
  if isHigh u || isLow u then Char.ofNat 0xFFFD else Char.ofNat u.toNat

def utf16Decode : List UInt16 → List Char
  | [] => []
  | [u] => [ofUnit u]
  | u :: v :: text =>
    if isHigh u && isLow v then
      Char.ofNat (0x10000 + (u.toNat - 0xD800) * 0x400 + (v.toNat - 0xDC00)) :: utf16Decode text
    else ofUnit u :: utf16Decode (v :: text)

theorem utf16Decode_single {u : UInt16} (h : isHigh u = false) (text : List UInt16) :
    utf16Decode (u :: text) = ofUnit u :: utf16Decode text := by
  cases text with
  | nil => rfl
  | cons v text => rw [utf16Decode, h, Bool.false_and, if_neg Bool.false_ne_true]

theorem char_range (c : Char) : c.toNat < 0xD800 ∨ 0xDFFF < c.toNat ∧ c.toNat < 0x110000 := c.valid

theorem utf16Decode_utf16 (c : Char) (text : List UInt16) :
    utf16Decode (utf16 c ++ text) = c :: utf16Decode text := by
  have hrange := char_range c
  rw [utf16]
  split_ifs with hsmall
  · have hto : (UInt16.ofNat c.toNat).toNat = c.toNat := by
      rw [UInt16.toNat_ofNat']
      omega
    have hhigh : isHigh (UInt16.ofNat c.toNat) = false := by
      simp only [isHigh, Bool.and_eq_false_iff, decide_eq_false_iff_not, UInt16.le_iff_toNat_le,
        UInt16.lt_iff_toNat_lt, hto, UInt16.reduceToNat]
      omega
    have hlow : isLow (UInt16.ofNat c.toNat) = false := by
      simp only [isLow, Bool.and_eq_false_iff, decide_eq_false_iff_not, UInt16.le_iff_toNat_le,
        UInt16.lt_iff_toNat_lt, hto, UInt16.reduceToNat]
      omega
    rw [List.singleton_append, utf16Decode_single hhigh, ofUnit, hhigh, hlow, Bool.or_self,
      if_neg Bool.false_ne_true, hto, Char.ofNat_toNat]
  · have hto : (UInt16.ofNat (0xD800 + (c.toNat - 0x10000) / 0x400)).toNat =
        0xD800 + (c.toNat - 0x10000) / 0x400 := by
      rw [UInt16.toNat_ofNat']
      omega
    have hto' : (UInt16.ofNat (0xDC00 + (c.toNat - 0x10000) % 0x400)).toNat =
        0xDC00 + (c.toNat - 0x10000) % 0x400 := by
      rw [UInt16.toNat_ofNat']
      omega
    have hhigh : isHigh (UInt16.ofNat (0xD800 + (c.toNat - 0x10000) / 0x400)) = true := by
      simp only [isHigh, Bool.and_eq_true, decide_eq_true_iff, UInt16.le_iff_toNat_le,
        UInt16.lt_iff_toNat_lt, hto, UInt16.reduceToNat]
      omega
    have hlow : isLow (UInt16.ofNat (0xDC00 + (c.toNat - 0x10000) % 0x400)) = true := by
      simp only [isLow, Bool.and_eq_true, decide_eq_true_iff, UInt16.le_iff_toNat_le,
        UInt16.lt_iff_toNat_lt, hto', UInt16.reduceToNat]
      omega
    have hvalue : 0x10000 + (0xD800 + (c.toNat - 0x10000) / 0x400 - 0xD800) * 0x400 +
        (0xDC00 + (c.toNat - 0x10000) % 0x400 - 0xDC00) = c.toNat := by omega
    rw [List.cons_append, List.singleton_append, utf16Decode, hhigh, hlow, Bool.and_self, if_pos rfl,
      hto, hto', hvalue, Char.ofNat_toNat]

theorem utf16Decode_utf16Encode (text : List Char) : utf16Decode (utf16Encode text) = text := by
  induction text with
  | nil => rfl
  | cons c text ih =>
    rw [utf16Encode, List.flatMap_cons, ← utf16Encode, utf16Decode_utf16, ih]

/-! ## UTF-8 -/

/-- Strict: `none` for what is not the encoding of a text. -/
def utf8Decode (bytes : List UInt8) : Option (List Char) :=
  bytes.toByteArray.utf8Decode?.map Array.toList

def utf8Encode (text : List Char) : List UInt8 := (String.ofList text).toByteArray.data.toList

/-- What is decoded is encoded as the same bytes. -/
theorem utf8Encode_of_decode {bytes : List UInt8} {text : List Char}
    (h : utf8Decode bytes = some text) : utf8Encode text = bytes := by
  obtain ⟨chars, hchars, rfl⟩ := Option.map_eq_some_iff.mp h
  obtain ⟨text, htext⟩ := ByteArray.isSome_utf8Decode?_iff.mp (Option.isSome_of_mem hchars)
  rw [htext, List.utf8Decode?_utf8Encode] at hchars
  obtain rfl := Option.some.inj hchars
  rw [utf8Encode, String.toByteArray_ofList, ← htext, List.data_toByteArray]

end KubeConsole.Theory.Encoding
