import KubeConsole.Go.Strings

/-!
The parts of `net/url` a request path goes through: percent-decoding and
-encoding in the path mode, and `URL.EscapedPath`, which chooses between the
encoding a URL came with and a canonical one.
-/
namespace KubeConsole.Go

/-- `ishex` and `unhex`: the value of a hexadecimal digit. -/
def unhex (b : UInt8) : Option UInt8 :=
  if chr '0' ≤ b ∧ b ≤ chr '9' then some (b - chr '0')
  else if chr 'a' ≤ b ∧ b ≤ chr 'f' then some (b - chr 'a' + 10)
  else if chr 'A' ≤ b ∧ b ≤ chr 'F' then some (b - chr 'A' + 10)
  else none

/-- `url.PathUnescape`, and `unescape` in the mode `encodePath`, which decodes alike:
every `%` must start an escape; everything else stands for itself. -/
def pathUnescape : Str → Option Str
  | [] => some []
  | b :: s =>
    if b = chr '%' then
      match s with
      | c :: d :: s => do
        let hi ← unhex c
        let lo ← unhex d
        let rest ← pathUnescape s
        return (hi * 16 + lo) :: rest
      | _ => none
    else (pathUnescape s).map (b :: ·)

/-- `shouldEscape` in the mode `encodePath`. -/
def shouldEscape (b : UInt8) : Bool :=
  !(chr 'a' ≤ b && b ≤ chr 'z' || chr 'A' ≤ b && b ≤ chr 'Z' || chr '0' ≤ b && b ≤ chr '9' ||
    b ∈ str "-_.~" || b ∈ str "$&+,/:;=@")

/-- `upperhex[d]`. -/
def upperHex (d : UInt8) : UInt8 := if d < 10 then chr '0' + d else chr 'A' + (d - 10)

/-- `escape` in the mode `encodePath`. -/
def escapePath (s : Str) : Str :=
  s.flatMap fun b =>
    if shouldEscape b then [chr '%', upperHex (b / 16), upperHex (b % 16)] else [b]

/-- `validEncoded` in the mode `encodePath`. -/
def validEncoded (s : Str) : Bool :=
  s.all fun b => b ∈ str "!$&'()*+,;=:@" || b ∈ str "[]" || b = chr '%' || !shouldEscape b

/-- The fields of `url.URL` that name the server and the path. -/
structure URL where
  scheme : Str := []
  host : Str := []
  path : Str
  rawPath : Str := []
  deriving DecidableEq, Repr

/-- `URL.EscapedPath`. -/
def URL.escapedPath (u : URL) : Str :=
  if u.rawPath ≠ [] ∧ validEncoded u.rawPath ∧ pathUnescape u.rawPath = some u.path then u.rawPath
  else if u.path = str "*" then str "*"
  else escapePath u.path

variable {a s t : Str} {b c d : UInt8}

@[simp] theorem pathUnescape_nil : pathUnescape [] = some [] := rfl

/-- A byte other than `%` stands for itself. -/
theorem pathUnescape_cons (h : b ≠ chr '%') (s : Str) :
    pathUnescape (b :: s) = (pathUnescape s).map (b :: ·) := by
  conv_lhs => unfold pathUnescape
  rw [if_neg h]

theorem pathUnescape_escape (c d : UInt8) (s : Str) :
    pathUnescape (chr '%' :: c :: d :: s) = (unhex c).bind fun hi => (unhex d).bind fun lo =>
      (pathUnescape s).map ((hi * 16 + lo) :: ·) := by
  simp [pathUnescape, Option.map_eq_bind]

/-- The steps in which a decodable string is decoded. -/
theorem pathUnescape_cases (h : pathUnescape (b :: s) = some t) :
    (∃ t', b ≠ chr '%' ∧ pathUnescape s = some t' ∧ t = b :: t') ∨
    (∃ c d s' hi lo t', b = chr '%' ∧ s = c :: d :: s' ∧ unhex c = some hi ∧ unhex d = some lo ∧
      pathUnescape s' = some t' ∧ t = (hi * 16 + lo) :: t') := by
  by_cases hb : b = chr '%'
  · subst hb
    match s, h with
    | [], h => simp [pathUnescape] at h
    | [c], h => simp [pathUnescape] at h
    | c :: d :: s, h =>
      rw [pathUnescape_escape] at h
      simp only [Option.bind_eq_some_iff, Option.map_eq_some_iff] at h
      obtain ⟨hi, hhi, lo, hlo, t', ht', rfl⟩ := h
      exact .inr ⟨c, d, s, hi, lo, t', rfl, rfl, hhi, hlo, ht', rfl⟩
  · rw [pathUnescape_cons hb] at h
    obtain ⟨t', ht', rfl⟩ := Option.map_eq_some_iff.mp h
    exact .inl ⟨t', hb, ht', rfl⟩

/-- The induction over a decodable string, escape by escape. -/
theorem pathUnescape_induction {P : Str → Str → Prop} (hnil : P [] [])
    (hbyte : ∀ b s t, b ≠ chr '%' → pathUnescape s = some t → P s t → P (b :: s) (b :: t))
    (hescape : ∀ c d hi lo s t, unhex c = some hi → unhex d = some lo → pathUnescape s = some t →
      P s t → P (chr '%' :: c :: d :: s) ((hi * 16 + lo) :: t))
    {s t : Str} (h : pathUnescape s = some t) : P s t := by
  induction hn : s.length using Nat.strong_induction_on generalizing s t with
  | _ n ih =>
    cases s with
    | nil => cases h; exact hnil
    | cons b s =>
      rcases pathUnescape_cases h with ⟨t', hb, ht', rfl⟩ |
        ⟨c, d, s, hi, lo, t', rfl, rfl, hhi, hlo, ht', rfl⟩
      · exact hbyte b s t' hb ht' (ih _ (by simp at hn; omega) ht' rfl)
      · exact hescape c d hi lo s t' hhi hlo ht' (ih _ (by simp at hn; omega) ht' rfl)

/-- What decodes can be cut off in front. -/
theorem pathUnescape_append (h : pathUnescape s = some t) (r : Str) :
    pathUnescape (s ++ r) = (pathUnescape r).map (t ++ ·) := by
  refine pathUnescape_induction (P := fun s t => pathUnescape (s ++ r) = (pathUnescape r).map (t ++ ·))
    (by simp) ?_ ?_ h
  · intro b s t hb _ ih
    rw [List.cons_append, pathUnescape_cons hb, ih]
    simp [Function.comp_def]
  · intro c d hi lo s t hc hd _ ih
    simp only [List.cons_append]
    rw [pathUnescape_escape, hc, hd, ih]
    simp [Function.comp_def]

/-- A string without `%` stands for itself. -/
theorem pathUnescape_eq_self (h : chr '%' ∉ s) : pathUnescape s = some s := by
  induction s with
  | nil => rfl
  | cons b s ih =>
    rw [List.mem_cons, not_or] at h
    rw [pathUnescape_cons (Ne.symm h.1), ih h.2]
    rfl

theorem unhex_upperHex (h : d < 16) : unhex (upperHex d) = some d := by
  have hall : ∀ n < 16, unhex (upperHex n.toUInt8) = some n.toUInt8 := by decide
  have hd : d.toNat < 16 := UInt8.lt_iff_toNat_lt.mp h
  simpa using hall d.toNat hd

theorem div_mul_add_mod (b : UInt8) : b / 16 * 16 + b % 16 = b := by
  have hb := b.toNat_lt
  rw [← UInt8.toNat_inj]
  simp
  omega

/-- What `escape` writes, `unescape` reads back. -/
theorem pathUnescape_escapePath (s : Str) : pathUnescape (escapePath s) = some s := by
  induction s with
  | nil => rfl
  | cons b s ih =>
    have hcons : escapePath (b :: s) = (if shouldEscape b then
      [chr '%', upperHex (b / 16), upperHex (b % 16)] else [b]) ++ escapePath s := rfl
    rw [hcons]
    split_ifs with hb
    · have hdiv : b / 16 < 16 := by
        have := b.toNat_lt
        rw [UInt8.lt_iff_toNat_lt]
        simp
        omega
      have hmod : b % 16 < 16 := by
        rw [UInt8.lt_iff_toNat_lt]
        simp
        omega
      simp only [List.cons_append, List.nil_append]
      rw [pathUnescape_escape, unhex_upperHex hdiv, unhex_upperHex hmod, ih]
      simp [div_mul_add_mod]
    · have hne : b ≠ chr '%' := by
        rintro rfl
        exact hb (by decide)
      rw [List.singleton_append, pathUnescape_cons hne, ih]
      rfl

theorem validEncoded_append : validEncoded (s ++ t) = (validEncoded s && validEncoded t) :=
  List.all_append

theorem validEncoded_escapePath (s : Str) : validEncoded (escapePath s) = true := by
  have hdigit : ∀ n < 16, shouldEscape (upperHex n.toUInt8) = false := by decide
  have hdigit (d : UInt8) (h : d.toNat < 16) : shouldEscape (upperHex d) = false := by
    simpa using hdigit d.toNat h
  rw [validEncoded, List.all_eq_true]
  intro c hc
  obtain ⟨b, -, hc⟩ := List.mem_flatMap.mp hc
  have hb := b.toNat_lt
  split_ifs at hc with he
  · simp only [List.mem_cons, List.not_mem_nil, or_false] at hc
    rcases hc with rfl | rfl | rfl
    · decide
    · simp [hdigit (b / 16) (by simp; omega)]
    · simp [hdigit (b % 16) (by simp; omega)]
  · rw [List.mem_singleton.mp hc]
    simp [he]

/-- The escaped path of any URL is one a server accepts. -/
theorem URL.validEncoded_escapedPath (u : URL) : validEncoded u.escapedPath = true := by
  unfold URL.escapedPath
  split_ifs with h h'
  · exact h.2.1
  · decide
  · exact validEncoded_escapePath u.path

/-- It stands for the path of the URL. -/
theorem URL.pathUnescape_escapedPath (u : URL) : pathUnescape u.escapedPath = some u.path := by
  unfold URL.escapedPath
  split_ifs with h h'
  · exact h.2.2
  · rw [h']
    decide
  · exact pathUnescape_escapePath u.path

/-- A URL set to an escaped path and what it decodes to is sent as it was set. -/
theorem URL.escapedPath_of_raw {u : URL} (hv : validEncoded u.rawPath = true)
    (hp : pathUnescape u.rawPath = some u.path) : u.escapedPath = u.rawPath := by
  by_cases hr : u.rawPath = []
  · have hpath : u.path = [] := by simpa [hr, eq_comm] using hp
    rw [URL.escapedPath, if_neg fun h => h.1 hr, hpath, hr]
    decide
  · rw [URL.escapedPath, if_pos ⟨hr, hv, hp⟩]

end KubeConsole.Go
