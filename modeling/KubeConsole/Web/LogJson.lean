import KubeConsole.Theory.JsonText
import KubeConsole.Theory.Scanner
import KubeConsole.Web.Js

/-!
`tokenizeJsonLine` of `logJson.ts`: a scanner for one log line, which keeps the text as it is. The
cursor is the rest of the line.
-/
namespace KubeConsole.Web.LogJson
open KubeConsole.Theory JsonText

inductive LogTokenKind where
  | text
  | punct
  | key
  | string
  | number
  | keyword
  | level
  deriving DecidableEq, Repr

inductive LogSeverity where
  | error
  | warn
  | info
  | debug
  deriving DecidableEq, Repr

structure LogToken where
  kind : LogTokenKind
  text : JStr
  severity : Option LogSeverity := none
  deriving DecidableEq, Repr

/-- What the language supplies: `toLowerCase`, and `Number(s)` where that is finite. -/
structure LogBuiltins where
  toLowerCase : JStr → JStr
  toNumber : JStr → Option ℚ

/-! ## The prefix -/

/-- `\d{4}-\d{2}-\d{2}T`. -/
def stampDate (s : JStr) : Option JStr :=
  match s with
  | a :: b :: c :: d :: e :: f :: g :: h :: i :: j :: k :: rest =>
    if [a, b, c, d, f, g, i, j].all digit && e = 0x2D && h = 0x2D && k = 0x54 then some rest
    else none
  | _ => none

/-- `TIMESTAMP_PREFIX.exec(line)?.[0] ?? ""`, and what follows it. -/
def splitPrefix (line : JStr) : JStr × JStr :=
  match stampDate line with
  | none => ([], line)
  | some rest =>
    let zone := rest.takeWhile fun c => !isBlank c
    let blanks := (rest.dropWhile fun c => !isBlank c).takeWhile isBlank
    if blanks = [] then ([], line)
    else (line.take 11 ++ zone ++ blanks,
      (rest.dropWhile fun c => !isBlank c).dropWhile isBlank)

/-! ## Severities -/

variable (b : LogBuiltins)

def levelKeys : List JStr :=
  [js "level", js "severity", js "lvl", js "loglevel", js "log.level"]

/-- `key.slice(1, -1)`. -/
def inner (raw : JStr) : JStr := (raw.drop 1).dropLast

def isLevelKey (key : JStr) : Bool := b.toLowerCase (inner key) ∈ levelKeys

def severityOfName (value : JStr) : Option LogSeverity :=
  let begins (word : String) : Bool := (js word).isPrefixOf (b.toLowerCase value)
  if begins "err" || begins "fatal" || begins "crit" || begins "panic" || begins "alert" ||
    begins "emerg" then some .error
  else if begins "warn" then some .warn
  else if begins "info" || begins "notice" then some .info
  else if begins "debug" || begins "trace" then some .debug
  else none

def severityOfNumber (value : JStr) : Option LogSeverity :=
  (b.toNumber value).bind fun n =>
    if 50 ≤ n then some .error
    else if 40 ≤ n then some .warn
    else if 30 ≤ n then some .info
    else if 10 ≤ n then some .debug
    else none

/-! ## The scanner -/

abbrev Scan := Scanner UInt16 LogToken

def isSpace (c : UInt16) : Bool := c = 0x20 || c = 0x09 || c = 0x0D

def whitespace : Scan := fun s =>
  some (if s.takeWhile isSpace = [] then [] else [⟨.punct, s.takeWhile isSpace, none⟩],
    s.dropWhile isSpace)

def punct (ch : UInt16) : Scan := fun s =>
  match s with
  | c :: rest => if c = ch then some ([⟨.punct, [ch], none⟩], rest) else none
  | [] => none

/-- The body of a string and what follows the closing quote. Behind a backslash the cursor jumps
over the next unit, past the end if there is none. -/
def stringBody : JStr → Option (JStr × JStr)
  | [] => none
  | [c] => if c = quoteMark then some ([], []) else none
  | c :: d :: s =>
    if c = quoteMark then some ([], d :: s)
    else if c = backslash then (stringBody s).map fun x => (c :: d :: x.1, x.2)
    else (stringBody (d :: s)).map fun x => (c :: x.1, x.2)

def stringLiteral (s : JStr) : Option (JStr × JStr) :=
  match s with
  | c :: s => if c = quoteMark then (stringBody s).map fun x => (quoted x.1, x.2) else none
  | [] => none

/-- `0|[1-9]\d*`. -/
def intPart (s : JStr) : Option (JStr × JStr) :=
  match s with
  | c :: s =>
    if c = 0x30 then some ([c], s)
    else if digit c then some (c :: s.takeWhile digit, s.dropWhile digit)
    else none
  | [] => none

/-- `(?:\.\d+)?`. -/
def fracPart (s : JStr) : JStr × JStr :=
  match s with
  | c :: rest =>
    if c = 0x2E && rest.takeWhile digit ≠ [] then (c :: rest.takeWhile digit, rest.dropWhile digit)
    else ([], s)
  | [] => ([], s)

/-- `[+-]?`. -/
def signPart (s : JStr) : JStr × JStr :=
  match s with
  | c :: rest => if c = 0x2B || c = 0x2D then ([c], rest) else ([], s)
  | [] => ([], s)

/-- `(?:[eE][+-]?\d+)?`. -/
def expPart (s : JStr) : JStr × JStr :=
  match s with
  | c :: rest =>
    if (c = 0x65 || c = 0x45) && (signPart rest).2.takeWhile digit ≠ [] then
      (c :: ((signPart rest).1 ++ (signPart rest).2.takeWhile digit),
        (signPart rest).2.dropWhile digit)
    else ([], s)
  | [] => ([], s)

/-- `-?`. -/
def minusPart (s : JStr) : JStr × JStr :=
  match s with
  | c :: rest => if c = 0x2D then ([c], rest) else ([], s)
  | [] => ([], s)

/-- `NUMBER`, matched at the cursor: no part that matches has to be given back. -/
def numberLiteral (s : JStr) : Option (JStr × JStr) :=
  (intPart (minusPart s).2).map fun int =>
    ((minusPart s).1 ++ int.1 ++ (fracPart int.2).1 ++ (expPart (fracPart int.2).2).1,
      (expPart (fracPart int.2).2).2)

/-- A token of `kind`, or a level token if there is a severity. -/
def scalarToken (kind : LogTokenKind) (text : JStr) (severity : Option LogSeverity) : LogToken :=
  match severity with
  | none => ⟨kind, text, none⟩
  | some _ => ⟨.level, text, severity⟩

def scanString (isLevel : Bool) : Scan := fun s =>
  (stringLiteral s).map fun x =>
    ([scalarToken .string x.1 (if isLevel then severityOfName b (inner x.1) else none)], x.2)

def scanNumber (isLevel : Bool) : Scan := fun s =>
  (numberLiteral s).map fun x =>
    ([scalarToken .number x.1 (if isLevel then severityOfNumber b x.1 else none)], x.2)

/-- `value` after its white space, given the scanners of an object and of an array. -/
def valueBody (object array : Scan) (isLevel : Bool) : Scan := fun s =>
  match s with
  | [] => none
  | c :: _ =>
    if c = lbrace then object s
    else if c = lbracket then array s
    else if c = quoteMark then scanString b isLevel s
    else match [js "true", js "false", js "null"].find? (List.isPrefixOf · s) with
      | some word => some ([⟨.keyword, word, none⟩], s.drop word.length)
      | none => scanNumber b isLevel s

/-- A key, and what its being a level key decides. -/
def keyThen (next : Bool → Scan) : Scan := fun s =>
  (stringLiteral s).bind fun x =>
    (next (isLevelKey b x.1) x.2).map fun y => (⟨.key, x.1, none⟩ :: y.1, y.2)

mutual
def value : ℕ → Bool → Scan
  | 0, _ => fun _ => none
  | n + 1, isLevel => whitespace.seq (valueBody b (object n) (array n) isLevel)

def object : ℕ → Scan
  | 0 => fun _ => none
  | n + 1 => (punct lbrace).seq (whitespace.seq ((punct rbrace).branch .done (members n)))

/-- The loop of `object`. -/
def members : ℕ → Scan
  | 0 => fun _ => none
  | n + 1 => whitespace.seq (keyThen b fun isLevel => whitespace.seq ((punct colon).seq
    ((value n isLevel).seq (whitespace.seq ((punct comma).branch (members n) (punct rbrace))))))

def array : ℕ → Scan
  | 0 => fun _ => none
  | n + 1 => (punct lbracket).seq (whitespace.seq ((punct rbracket).branch .done (elements n)))

/-- The loop of `array`. -/
def elements : ℕ → Scan
  | 0 => fun _ => none
  | n + 1 => (value n false).seq (whitespace.seq
    ((punct comma).branch (elements n) (punct rbracket)))
end

/-- The depth of the calls is bounded by the length of the line. -/
def tokenizeJsonLine (line : JStr) : Option (List LogToken) :=
  let (stamp, src) := splitPrefix line
  if src.head? ≠ some lbrace then none
  else match (object b (4 * src.length + 4)).seq whitespace src with
    | some (tokens, []) =>
      some (if stamp = [] then tokens else ⟨.text, stamp, none⟩ :: tokens)
    | _ => none

/-! ## Literals -/

/-- The lexis of the scanner. -/
def scanned : Lexis where
  blank := isSpace
  body := LooseBody

theorem stringBody_quote (s : JStr) : stringBody (quoteMark :: s) = some ([], s) := by
  cases s with
  | nil => rw [stringBody, if_pos rfl]
  | cons d s => rw [stringBody, if_pos rfl]

theorem stringBody_plain {c : UInt16} (hq : c ≠ quoteMark) (hb : c ≠ backslash) (s : JStr) :
    stringBody (c :: s) = (stringBody s).map fun x => (c :: x.1, x.2) := by
  cases s with
  | nil =>
    have hone : stringBody [c] = none := by rw [stringBody, if_neg hq]
    have hnil : stringBody [] = none := by rw [stringBody]
    rw [hone, hnil]
    rfl
  | cons d s => rw [stringBody, if_neg hq, if_neg hb]

theorem stringBody_escape (d : UInt16) (s : JStr) : stringBody (backslash :: d :: s) =
    (stringBody s).map fun x => (backslash :: d :: x.1, x.2) := by
  rw [stringBody, if_neg (by decide), if_pos rfl]

theorem stringBody_sound {s x r : JStr} (h : stringBody s = some (x, r)) :
    s = x ++ quoteMark :: r ∧ LooseBody x := by
  induction s using stringBody.induct generalizing x with
  | case1 => cases h
  | case2 =>
    rw [stringBody_quote] at h
    cases h
    exact ⟨rfl, .nil⟩
  | case3 c hq =>
    rw [stringBody, if_neg hq] at h
    cases h
  | case4 d s =>
    rw [stringBody_quote] at h
    cases h
    exact ⟨rfl, .nil⟩
  | case5 d s hq ih =>
    rw [stringBody_escape] at h
    obtain ⟨⟨y, r'⟩, hy, heq⟩ := Option.map_eq_some_iff.mp h
    cases heq
    obtain ⟨rfl, hbody⟩ := ih hy
    exact ⟨rfl, .escape hbody⟩
  | case6 c d s hq hb ih =>
    rw [stringBody_plain hq hb] at h
    obtain ⟨⟨y, r'⟩, hy, heq⟩ := Option.map_eq_some_iff.mp h
    cases heq
    obtain ⟨hs, hbody⟩ := ih hy
    exact ⟨by rw [hs]; rfl, .plain hq hb hbody⟩

theorem stringBody_complete {x : JStr} (h : LooseBody x) (r : JStr) :
    stringBody (x ++ quoteMark :: r) = some (x, r) := by
  induction h with
  | nil => exact stringBody_quote r
  | plain hq hb _ ih =>
    rw [List.cons_append, stringBody_plain hq hb, ih]
    rfl
  | escape _ ih =>
    rw [List.cons_append, List.cons_append, stringBody_escape, ih]
    rfl

theorem stringLiteral_sound {s raw r : JStr} (h : stringLiteral s = some (raw, r)) :
    s = raw ++ r ∧ ∃ x, raw = quoted x ∧ LooseBody x := by
  cases s with
  | nil => cases h
  | cons c s =>
    rw [stringLiteral] at h
    split_ifs at h with hq
    obtain ⟨⟨x, r'⟩, hx, heq⟩ := Option.map_eq_some_iff.mp h
    cases heq
    obtain ⟨rfl, hbody⟩ := stringBody_sound hx
    exact ⟨by simp [quoted, hq], x, rfl, hbody⟩

theorem stringLiteral_complete {x : JStr} (h : LooseBody x) (r : JStr) :
    stringLiteral (quoted x ++ r) = some (quoted x, r) := by
  have heq : quoted x ++ r = quoteMark :: (x ++ quoteMark :: r) := by simp [quoted]
  rw [heq, stringLiteral, if_pos rfl, stringBody_complete h, Option.map_some]

theorem digits_takeWhile {s : JStr} (h : s.takeWhile digit ≠ []) :
    IsDigits (s.takeWhile digit) := ⟨h, fun _ hd => List.mem_takeWhile_imp hd⟩

theorem minusPart_spec (s : JStr) : s = (minusPart s).1 ++ (minusPart s).2 ∧
    ((minusPart s).1 = [] ∨ (minusPart s).1 = [0x2D]) := by
  cases s with
  | nil => exact ⟨rfl, .inl rfl⟩
  | cons c s =>
    rw [minusPart]
    split_ifs with hc
    · exact ⟨rfl, .inr (by rw [hc])⟩
    · exact ⟨rfl, .inl rfl⟩

theorem signPart_spec (s : JStr) : s = (signPart s).1 ++ (signPart s).2 ∧
    ((signPart s).1 = [] ∨ (signPart s).1 = [0x2B] ∨ (signPart s).1 = [0x2D]) := by
  cases s with
  | nil => exact ⟨rfl, .inl rfl⟩
  | cons c s =>
    rw [signPart]
    split_ifs with hc
    · rw [Bool.or_eq_true, decide_eq_true_iff, decide_eq_true_iff] at hc
      rcases hc with rfl | rfl
      · exact ⟨rfl, .inr (.inl rfl)⟩
      · exact ⟨rfl, .inr (.inr rfl)⟩
    · exact ⟨rfl, .inl rfl⟩

theorem intPart_sound {s int r : JStr} (h : intPart s = some (int, r)) :
    s = int ++ r ∧ IsInt int := by
  cases s with
  | nil => cases h
  | cons c s =>
    rw [intPart] at h
    split_ifs at h with h0 hd
    · cases h
      exact ⟨rfl, .inl (by rw [h0])⟩
    · cases h
      refine ⟨by rw [List.cons_append, List.takeWhile_append_dropWhile], .inr ⟨c, _, rfl, hd, h0, ?_⟩⟩
      exact fun _ hd => List.mem_takeWhile_imp hd

theorem fracPart_spec (s : JStr) : s = (fracPart s).1 ++ (fracPart s).2 ∧
    IsFrac (fracPart s).1 := by
  cases s with
  | nil => exact ⟨rfl, .inl rfl⟩
  | cons c s =>
    rw [fracPart]
    split_ifs with hc
    · rw [Bool.and_eq_true, decide_eq_true_iff, decide_eq_true_iff] at hc
      obtain ⟨rfl, hds⟩ := hc
      exact ⟨by rw [List.cons_append, List.takeWhile_append_dropWhile],
        .inr ⟨_, rfl, digits_takeWhile hds⟩⟩
    · exact ⟨rfl, .inl rfl⟩

theorem expPart_spec (s : JStr) : s = (expPart s).1 ++ (expPart s).2 ∧ IsExp (expPart s).1 := by
  cases s with
  | nil => exact ⟨rfl, .inl rfl⟩
  | cons c s =>
    obtain ⟨hsplit, hsign⟩ := signPart_spec s
    rw [expPart]
    split_ifs with hc
    · rw [Bool.and_eq_true, Bool.or_eq_true, decide_eq_true_iff, decide_eq_true_iff,
        decide_eq_true_iff] at hc
      refine ⟨?_, .inr ⟨c, _, _, rfl, hc.1, hsign, digits_takeWhile hc.2⟩⟩
      rw [List.cons_append, List.append_assoc, List.takeWhile_append_dropWhile, ← hsplit]
    · exact ⟨rfl, .inl rfl⟩

theorem numberLiteral_sound {s u r : JStr} (h : numberLiteral s = some (u, r)) :
    s = u ++ r ∧ IsNumber u := by
  obtain ⟨⟨int, rest⟩, hint, heq⟩ := Option.map_eq_some_iff.mp h
  cases heq
  obtain ⟨hminus, hsign⟩ := minusPart_spec s
  obtain ⟨hsplit, hint⟩ := intPart_sound hint
  obtain ⟨hfrac, hfrac'⟩ := fracPart_spec rest
  obtain ⟨hexp, hexp'⟩ := expPart_spec (fracPart rest).2
  refine ⟨?_, _, _, _, _, rfl, hsign, hint, hfrac', hexp'⟩
  simp only [List.append_assoc]
  rw [← hexp, ← hfrac, ← hsplit, ← hminus]

/-- What may follow a number: nothing that would make it longer. -/
def EndsNumber (r : JStr) : Prop :=
  ∀ c ∈ r.head?, digit c = false ∧ c ≠ 0x2E ∧ c ≠ 0x65 ∧ c ≠ 0x45

theorem exists_digit {ds : JStr} (h : IsDigits ds) : ∃ d ds', ds = d :: ds' ∧ digit d = true := by
  obtain ⟨hne, hall⟩ := h
  obtain ⟨d, ds', rfl⟩ := List.exists_cons_of_ne_nil hne
  exact ⟨d, ds', rfl, hall d List.mem_cons_self⟩

theorem expPart_complete {exp : JStr} (h : IsExp exp) {r : JStr} (hr : EndsNumber r) :
    expPart (exp ++ r) = (exp, r) := by
  rcases h with rfl | ⟨c, sign, ds, rfl, hc, hsign, hds⟩
  · cases r with
    | nil => rfl
    | cons c r =>
      obtain ⟨-, -, h65, h45⟩ := hr c rfl
      rw [List.nil_append, expPart, if_neg (by simp [h65, h45])]
  · obtain ⟨htake, hdrop⟩ := takeWhile_stop hds.2 fun c hc => (hr c hc).1
    have hsigned : signPart (sign ++ (ds ++ r)) = (sign, ds ++ r) := by
      rcases hsign with rfl | rfl | rfl
      · obtain ⟨d, ds', rfl, hd⟩ := exists_digit hds
        have hplus : d ≠ 0x2B := by rintro rfl; exact absurd hd (by decide)
        have hminus : d ≠ 0x2D := by rintro rfl; exact absurd hd (by decide)
        rw [List.nil_append, List.cons_append, signPart, if_neg (by simp [hplus, hminus])]
      · rfl
      · rfl
    rw [List.cons_append, List.append_assoc, expPart, hsigned, htake, hdrop, if_pos]
    rcases hc with rfl | rfl <;> simp [hds.1]

theorem fracPart_complete {frac : JStr} (h : IsFrac frac) {r : JStr}
    (hr : ∀ c ∈ r.head?, digit c = false ∧ c ≠ 0x2E) : fracPart (frac ++ r) = (frac, r) := by
  rcases h with rfl | ⟨ds, rfl, hds⟩
  · cases r with
    | nil => rfl
    | cons c r => rw [List.nil_append, fracPart, if_neg (by simp [(hr c rfl).2])]
  · obtain ⟨htake, hdrop⟩ := takeWhile_stop hds.2 fun c hc => (hr c hc).1
    rw [List.cons_append, fracPart, htake, hdrop, if_pos (by simp [hds.1])]

theorem intPart_complete {int : JStr} (h : IsInt int) {r : JStr}
    (hr : ∀ c ∈ r.head?, digit c = false) : intPart (int ++ r) = some (int, r) := by
  rcases h with rfl | ⟨c, ds, rfl, hc, h0, hds⟩
  · rfl
  · obtain ⟨htake, hdrop⟩ := takeWhile_stop hds hr
    rw [List.cons_append, intPart, if_neg h0, if_pos hc, htake, hdrop]

theorem numberLiteral_complete {u : JStr} (h : IsNumber u) {r : JStr} (hr : EndsNumber r) :
    numberLiteral (u ++ r) = some (u, r) := by
  obtain ⟨sign, int, frac, exp, rfl, hsign, hint, hfrac, hexp⟩ := h
  have hminus : minusPart (sign ++ (int ++ (frac ++ (exp ++ r)))) =
      (sign, int ++ (frac ++ (exp ++ r))) := by
    rcases hsign with rfl | rfl
    · rcases hint with rfl | ⟨c, ds, rfl, hc, -⟩
      · rfl
      · have hne : c ≠ 0x2D := by rintro rfl; exact absurd hc (by decide)
        rw [List.nil_append, List.cons_append, minusPart, if_neg hne]
    · rfl
  have hafterFrac : ∀ c ∈ (exp ++ r).head?, digit c = false ∧ c ≠ 0x2E := by
    rcases hexp with rfl | ⟨c, sign, ds, rfl, hc, -⟩
    · exact fun c hc => ⟨(hr c hc).1, (hr c hc).2.1⟩
    · intro d hd
      obtain rfl : c = d := Option.some.inj hd
      rcases hc with rfl | rfl <;> decide
  have hafterInt : ∀ c ∈ (frac ++ (exp ++ r)).head?, digit c = false := by
    rcases hfrac with rfl | ⟨ds, rfl, -⟩
    · exact fun c hc => (hafterFrac c hc).1
    · intro d hd
      obtain rfl : 0x2E = d := Option.some.inj hd
      decide
  rw [numberLiteral]
  simp only [List.append_assoc, hminus]
  rw [intPart_complete hint hafterInt, Option.map_some, fracPart_complete hfrac hafterFrac,
    expPart_complete hexp hr]

/-! ## Tokens -/

def texts (ts : List LogToken) : JStr := ts.flatMap LogToken.text

/-- White space between other tokens. -/
def Spacing (ts : List LogToken) : Prop :=
  ∀ t ∈ ts, t.kind = .punct ∧ t.severity = none ∧ ∀ c ∈ t.text, isSpace c = true

/-- A token that carries a severity, on the text of a string or a number. -/
def LevelScalar (t : LogToken) : Prop :=
  t.kind = .level ∧ ((∃ x, t.text = quoted x ∧ LooseBody x) ∨ IsNumber t.text)

/-- A severity is attached only to a scalar that is the direct value of a level key: what stands
before it ends with that key and a colon. -/
def Direct (ts : List LogToken) : Prop :=
  ∀ before t after, ts = before ++ t :: after → t.severity.isSome = true → LevelScalar t ∧
    ∃ front key w w', before = front ++ key :: (w ++ ⟨.punct, [colon], none⟩ :: w') ∧
      key.kind = .key ∧ isLevelKey b key.text = true ∧ Spacing w ∧ Spacing w'

theorem texts_append (ts ts' : List LogToken) : texts (ts ++ ts') = texts ts ++ texts ts' :=
  List.flatMap_append

theorem Spacing.append {ts ts' : List LogToken} (h : Spacing ts) (h' : Spacing ts') :
    Spacing (ts ++ ts') := by
  intro t ht
  rcases List.mem_append.mp ht with ht | ht
  · exact h t ht
  · exact h' t ht

theorem Direct.plain {ts : List LogToken} (h : ∀ t ∈ ts, t.severity = none) : Direct b ts := by
  rintro before t after rfl hs
  rw [h t (by simp)] at hs
  cases hs

theorem Spacing.direct {ts : List LogToken} (h : Spacing ts) : Direct b ts :=
  .plain b fun t ht => (h t ht).2.1

variable {b}

theorem Direct.append {ts ts' : List LogToken} (h : Direct b ts) (h' : Direct b ts') :
    Direct b (ts ++ ts') := by
  intro before t after heq hs
  rcases List.append_eq_append_iff.mp heq with ⟨mid, rfl, hmid⟩ | ⟨mid, rfl, hmid⟩
  · obtain ⟨hscalar, front, key, w, w', rfl, hkey⟩ := h' mid t after hmid hs
    exact ⟨hscalar, ts ++ front, key, w, w', by simp, hkey⟩
  · cases mid with
    | nil =>
      obtain ⟨hscalar, front, key, w, w', heq, -⟩ := h' [] t after hmid.symm hs
      exact absurd heq (by simp)
    | cons t' mid =>
      obtain ⟨rfl, -⟩ := List.cons.inj hmid
      exact h before t mid rfl hs

/-- A key with a colon and a level token. -/
theorem Direct.keyed {key tok : LogToken} {w w' : List LogToken} (hkey : key.kind = .key)
    (hnone : key.severity = none) (hlevel : isLevelKey b key.text = true) (hw : Spacing w)
    (hw' : Spacing w') (htok : LevelScalar tok) :
    Direct b (key :: (w ++ ⟨.punct, [colon], none⟩ :: (w' ++ [tok]))) := by
  have hassoc : key :: (w ++ ⟨.punct, [colon], none⟩ :: (w' ++ [tok])) =
      (key :: (w ++ ⟨.punct, [colon], none⟩ :: w')) ++ [tok] := by simp
  have hplain : ∀ t ∈ key :: (w ++ (⟨.punct, [colon], none⟩ : LogToken) :: w'),
      t.severity = none := by
    intro t ht
    simp only [List.mem_cons, List.mem_append] at ht
    rcases ht with rfl | ht | rfl | ht
    · exact hnone
    · exact (hw t ht).2.1
    · rfl
    · exact (hw' t ht).2.1
  intro before t after heq hs
  rw [hassoc] at heq
  rcases List.append_eq_append_iff.mp heq with ⟨mid, rfl, hmid⟩ | ⟨mid, hsplit, hmid⟩
  · cases mid with
    | nil =>
      obtain ⟨rfl, -⟩ := List.cons.inj hmid
      exact ⟨htok, [], key, w, w', by simp, hkey, hlevel, hw, hw'⟩
    | cons t' mid => simp at hmid
  · cases mid with
    | nil =>
      rw [List.append_nil] at hsplit
      obtain ⟨rfl, -⟩ := List.cons.inj hmid
      exact ⟨htok, [], key, w, w', hsplit.symm, hkey, hlevel, hw, hw'⟩
    | cons t' mid =>
      obtain ⟨rfl, -⟩ := List.cons.inj hmid
      rw [hplain t (by rw [hsplit]; simp)] at hs
      cases hs

/-! ## What the scanner cuts off -/

open Scanner

theorem sound_whitespace : Sound whitespace fun u ts =>
    scanned.Blank u ∧ texts ts = u ∧ Spacing ts := by
  intro s ts r h
  obtain ⟨hts, hr⟩ := Prod.mk.inj (Option.some.inj h)
  subst hts hr
  have hspace : ∀ c ∈ s.takeWhile isSpace, isSpace c = true := fun _ hc =>
    List.mem_takeWhile_imp hc
  refine ⟨s.takeWhile isSpace, List.takeWhile_append_dropWhile.symm, hspace, ?_, ?_⟩
  · split_ifs with he
    · exact he.symm
    · exact List.flatMap_singleton ..
  · split_ifs with he
    · exact List.forall_mem_nil _
    · exact List.forall_mem_singleton.mpr ⟨rfl, rfl, hspace⟩

theorem sound_punct (ch : UInt16) : Sound (punct ch) fun u ts =>
    u = [ch] ∧ ts = [⟨.punct, [ch], none⟩] := by
  intro s ts r h
  cases s with
  | nil => cases h
  | cons c s =>
    rw [punct] at h
    split_ifs at h with hc
    cases h
    exact ⟨[ch], by rw [hc]; rfl, rfl, rfl⟩

/-- The tokens of a text: together they are the text, and severities stand where they may. -/
def Faithful (b : LogBuiltins) (u : JStr) (ts : List LogToken) : Prop :=
  texts ts = u ∧ Direct b ts

/-- The tokens of a value: a level token is one that follows a level key. -/
def Leveled (b : LogBuiltins) (isLevel : Bool) (ts : List LogToken) : Prop :=
  Direct b ts ∨ (isLevel = true ∧ ∃ w tok, ts = w ++ [tok] ∧ Spacing w ∧ LevelScalar tok)

theorem leveled_scalarToken {isLevel : Bool} {kind : LogTokenKind} {text : JStr}
    {severity : Option LogSeverity}
    (htext : (∃ x, text = quoted x ∧ LooseBody x) ∨ IsNumber text) :
    Leveled b isLevel [scalarToken kind text (if isLevel then severity else none)] := by
  cases isLevel with
  | false => exact .inl (.plain b (List.forall_mem_singleton.mpr rfl))
  | true =>
    cases severity with
    | none => exact .inl (.plain b (List.forall_mem_singleton.mpr rfl))
    | some sev => exact .inr ⟨rfl, [], _, rfl, List.forall_mem_nil _, rfl, htext⟩

theorem text_scalarToken (kind : LogTokenKind) (text : JStr) (severity : Option LogSeverity) :
    texts [scalarToken kind text severity] = text := by
  cases severity <;> exact List.flatMap_singleton ..

/-- What a value cuts off after its white space. -/
def ValueCut (b : LogBuiltins) (isLevel : Bool) (u : JStr) (ts : List LogToken) : Prop :=
  Derives scanned .value u ∧ texts ts = u ∧ Leveled b isLevel ts

theorem sound_scanString (isLevel : Bool) : Sound (scanString b isLevel) (ValueCut b isLevel) := by
  intro s ts r h
  obtain ⟨⟨raw, r'⟩, hraw, heq⟩ := Option.map_eq_some_iff.mp h
  obtain ⟨hts, hr⟩ := Prod.mk.inj heq
  subst hts hr
  obtain ⟨rfl, x, rfl, hbody⟩ := stringLiteral_sound hraw
  exact ⟨quoted x, rfl, .string hbody, text_scalarToken .., leveled_scalarToken (.inl ⟨x, rfl, hbody⟩)⟩

theorem sound_scanNumber (isLevel : Bool) : Sound (scanNumber b isLevel) (ValueCut b isLevel) := by
  intro s ts r h
  obtain ⟨⟨u, r'⟩, hu, heq⟩ := Option.map_eq_some_iff.mp h
  obtain ⟨hts, hr⟩ := Prod.mk.inj heq
  subst hts hr
  obtain ⟨rfl, hnum⟩ := numberLiteral_sound hu
  exact ⟨u, rfl, .number hnum, text_scalarToken .., leveled_scalarToken (.inr hnum)⟩

theorem keywords_eq : [js "true", js "false", js "null"] = keywords := by decide

theorem sound_valueBody {object array : Scan} (isLevel : Bool)
    (ho : Sound object fun u ts => Derives scanned .object u ∧ Faithful b u ts)
    (ha : Sound array fun u ts => Derives scanned .array u ∧ Faithful b u ts) :
    Sound (valueBody b object array isLevel) (ValueCut b isLevel) := by
  intro s ts r h
  cases s with
  | nil => cases h
  | cons c s =>
    rw [valueBody] at h
    split_ifs at h
    · obtain ⟨u, hs, hu, htext, hdirect⟩ := ho _ _ _ h
      exact ⟨u, hs, .nestedObject hu, htext, .inl hdirect⟩
    · obtain ⟨u, hs, hu, htext, hdirect⟩ := ha _ _ _ h
      exact ⟨u, hs, .nestedArray hu, htext, .inl hdirect⟩
    · exact sound_scanString isLevel _ _ _ h
    · rw [keywords_eq] at h
      cases hfind : keywords.find? (List.isPrefixOf · (c :: s)) with
      | none =>
        rw [hfind] at h
        exact sound_scanNumber isLevel _ _ _ h
      | some word =>
        rw [hfind] at h
        obtain ⟨hts, hr⟩ := Prod.mk.inj (Option.some.inj h)
        subst hts hr
        have hword : word.isPrefixOf (c :: s) = true := by simpa using List.find?_some hfind
        obtain ⟨rest, hrest⟩ := List.isPrefixOf_iff_prefix.mp hword
        refine ⟨word, ?_, .keyword (List.mem_of_find?_eq_some hfind),
          List.flatMap_singleton .., .inl (.plain b (List.forall_mem_singleton.mpr rfl))⟩
        rw [← hrest, List.drop_left]

theorem sound_value {object array : Scan} (isLevel : Bool)
    (ho : Sound object fun u ts => Derives scanned .object u ∧ Faithful b u ts)
    (ha : Sound array fun u ts => Derives scanned .array u ∧ Faithful b u ts) :
    Sound (whitespace.seq (valueBody b object array isLevel)) fun u ts =>
      (∃ w v, u = w ++ v ∧ scanned.Blank w ∧ Derives scanned .value v) ∧ texts ts = u ∧
        Leveled b isLevel ts := by
  refine (sound_whitespace.seq (sound_valueBody isLevel ho ha)).mono ?_
  rintro _ _ ⟨w, v, t, t', rfl, rfl, ⟨hw, hwt, hspacing⟩, hv, hvt, hlevel⟩
  refine ⟨⟨w, v, rfl, hw, hv⟩, by rw [texts_append, hwt, hvt], ?_⟩
  rcases hlevel with hdirect | ⟨hl, w', tok, rfl, hw', htok⟩
  · exact .inl (.append (hspacing.direct b) hdirect)
  · exact .inr ⟨hl, t ++ w', tok, (List.append_assoc ..).symm, hspacing.append hw', htok⟩

theorem sound_keyThen {next : Bool → Scan} {L : Bool → JStr → List LogToken → Prop}
    (h : ∀ isLevel, Sound (next isLevel) (L isLevel)) : Sound (keyThen b next) fun u ts =>
      ∃ x v t, u = quoted x ++ v ∧ ts = ⟨.key, quoted x, none⟩ :: t ∧ LooseBody x ∧
        L (isLevelKey b (quoted x)) v t := by
  intro s ts r hs
  obtain ⟨⟨raw, s'⟩, hraw, hs⟩ := Option.bind_eq_some_iff.mp hs
  obtain ⟨⟨t, r'⟩, ht, heq⟩ := Option.map_eq_some_iff.mp hs
  obtain ⟨hts, hr⟩ := Prod.mk.inj heq
  subst hts hr
  obtain ⟨rfl, x, rfl, hbody⟩ := stringLiteral_sound hraw
  obtain ⟨v, rfl, hv⟩ := h _ _ _ _ ht
  exact ⟨quoted x ++ v, (List.append_assoc ..).symm, x, v, t, rfl, rfl, hbody, hv⟩

/-- The tokens of a member up to its value. -/
theorem direct_member {x : JStr} {t tv : List LogToken} (ht : Spacing t)
    (hv : Leveled b (isLevelKey b (quoted x)) tv) :
    Direct b (⟨.key, quoted x, none⟩ :: (t ++ ⟨.punct, [colon], none⟩ :: tv)) := by
  rcases hv with hdirect | ⟨hlevel, w, tok, rfl, hw, htok⟩
  · have hkey : Direct b [⟨.key, quoted x, none⟩] :=
      .plain b (List.forall_mem_singleton.mpr rfl)
    have hcolon : Direct b [⟨.punct, [colon], none⟩] :=
      .plain b (List.forall_mem_singleton.mpr rfl)
    exact hkey.append ((ht.direct b).append (hcolon.append hdirect))
  · exact .keyed rfl rfl hlevel ht hw htok

/-- What the loop of `object` cuts off: members with the closing brace. -/
def MembersCut (b : LogBuiltins) (u : JStr) (ts : List LogToken) : Prop :=
  (∃ w s, u = w ++ s ++ [rbrace] ∧ scanned.Blank w ∧ Derives scanned .members s) ∧
    Faithful b u ts

def ElementsCut (b : LogBuiltins) (u : JStr) (ts : List LogToken) : Prop :=
  (∃ w s, u = w ++ s ++ [rbracket] ∧ scanned.Blank w ∧ Derives scanned .elements s) ∧
    Faithful b u ts

/-- What a value with its white space cuts off. -/
def SpacedValueCut (b : LogBuiltins) (isLevel : Bool) (u : JStr) (ts : List LogToken) : Prop :=
  (∃ w v, u = w ++ v ∧ scanned.Blank w ∧ Derives scanned .value v) ∧ texts ts = u ∧
    Leveled b isLevel ts

theorem faithful_punct (ch : UInt16) : Faithful b [ch] [⟨.punct, [ch], none⟩] :=
  ⟨List.flatMap_singleton .., .plain b (List.forall_mem_singleton.mpr rfl)⟩

theorem Faithful.append {u v : JStr} {t t' : List LogToken} (h : Faithful b u t)
    (h' : Faithful b v t') : Faithful b (u ++ v) (t ++ t') :=
  ⟨by rw [texts_append, h.1, h'.1], h.2.append h'.2⟩

theorem faithful_spacing {u : JStr} {t : List LogToken} (h : texts t = u) (hs : Spacing t) :
    Faithful b u t := ⟨h, hs.direct b⟩

theorem sound_members {value : Bool → Scan} {members : Scan}
    (hv : ∀ isLevel, Sound (value isLevel) (SpacedValueCut b isLevel))
    (hm : Sound members (MembersCut b)) :
    Sound (whitespace.seq (keyThen b fun isLevel => whitespace.seq ((punct colon).seq
      ((value isLevel).seq (whitespace.seq ((punct comma).branch members (punct rbrace)))))))
      (MembersCut b) := by
  have htail := (sound_punct comma).branch hm (sound_punct rbrace)
  have hrest (isLevel : Bool) := sound_whitespace.seq ((sound_punct colon).seq
    ((hv isLevel).seq (sound_whitespace.seq htail)))
  refine (sound_whitespace.seq (sound_keyThen hrest)).mono ?_
  rintro _ _ ⟨w, _, t, _, rfl, rfl, ⟨hw, hwt, hwspace⟩, x, _, _, rfl, rfl, hx,
    w', _, t', _, rfl, rfl, ⟨hw', hwt', hwspace'⟩, _, _, _, _, rfl, rfl, ⟨rfl, rfl⟩,
    _, _, tv, _, rfl, rfl, ⟨⟨w'', v, rfl, hw'', hval⟩, hvt, hlevel⟩,
    w3, rest, t3, trest, rfl, rfl, ⟨hw3, hwt3, hwspace3⟩, htail⟩
  have hkey : Faithful b (quoted x ++ (w' ++ [colon] ++ (w'' ++ v)))
      (⟨.key, quoted x, none⟩ :: (t' ++ ⟨.punct, [colon], none⟩ :: tv)) := by
    refine ⟨?_, direct_member hwspace' hlevel⟩
    simp only [texts, List.flatMap_cons, List.flatMap_append] at hwt' hvt ⊢
    rw [hwt', hvt]
    simp
  have hmember : Derives scanned .member (quoted x ++ w' ++ colon :: (w'' ++ v ++ w3)) :=
    .member hx hw' hw'' hval hw3
  have hhead := (faithful_spacing (b := b) hwt hwspace).append
    (hkey.append (faithful_spacing hwt3 hwspace3))
  rcases htail with ⟨_, u', _, t4, rfl, rfl, ⟨rfl, rfl⟩, ⟨w4, s, rfl, hw4, hs⟩, hfaith⟩ |
    ⟨rfl, rfl⟩
  · refine ⟨⟨w, _, ?_, hw, .nextMember hmember hw4 hs⟩, ?_⟩
    · simp
    · have := hhead.append ((faithful_punct comma).append hfaith)
      simpa using this
  · refine ⟨⟨w, _, ?_, hw, .lastMember hmember⟩, ?_⟩
    · simp
    · have := hhead.append (faithful_punct rbrace)
      simpa using this

theorem sound_elements {value : Scan} {elements : Scan}
    (hv : Sound value (SpacedValueCut b false)) (he : Sound elements (ElementsCut b)) :
    Sound (value.seq (whitespace.seq ((punct comma).branch elements (punct rbracket))))
      (ElementsCut b) := by
  have htail := (sound_punct comma).branch he (sound_punct rbracket)
  refine (hv.seq (sound_whitespace.seq htail)).mono ?_
  rintro _ _ ⟨_, _, tv, _, rfl, rfl, ⟨⟨w, v, rfl, hw, hval⟩, hvt, hlevel⟩,
    w', rest, t', trest, rfl, rfl, ⟨hw', hwt', hspace'⟩, htail⟩
  have hdirect : Direct b tv := by
    rcases hlevel with hdirect | ⟨hfalse, -⟩
    · exact hdirect
    · cases hfalse
  have helement : Derives scanned .element (v ++ w') := .element hval hw'
  have hhead := (show Faithful b (w ++ v) tv from ⟨hvt, hdirect⟩).append
    (faithful_spacing hwt' hspace')
  rcases htail with ⟨_, u', _, t4, rfl, rfl, ⟨rfl, rfl⟩, ⟨w4, s, rfl, hw4, hs⟩, hfaith⟩ |
    ⟨rfl, rfl⟩
  · refine ⟨⟨w, _, ?_, hw, .nextElement helement hw4 hs⟩, ?_⟩
    · simp
    · have := hhead.append ((faithful_punct comma).append hfaith)
      simpa using this
  · refine ⟨⟨w, _, ?_, hw, .lastElement helement⟩, ?_⟩
    · simp
    · have := hhead.append (faithful_punct rbracket)
      simpa using this

theorem sound_object {members : Scan} (hm : Sound members (MembersCut b)) :
    Sound ((punct lbrace).seq (whitespace.seq ((punct rbrace).branch .done members)))
      fun u ts => Derives scanned .object u ∧ Faithful b u ts := by
  have htail := (sound_punct rbrace).branch sound_done hm
  refine ((sound_punct lbrace).seq (sound_whitespace.seq htail)).mono ?_
  rintro _ _ ⟨_, _, _, _, rfl, rfl, ⟨rfl, rfl⟩, w, _, t, _, rfl, rfl, ⟨hw, hwt, hspace⟩, htail⟩
  have hhead := (faithful_punct (b := b) lbrace).append (faithful_spacing hwt hspace)
  rcases htail with ⟨_, _, _, _, rfl, rfl, ⟨rfl, rfl⟩, rfl, rfl⟩ |
    ⟨⟨w', s, rfl, hw', hs⟩, hfaith⟩
  · have := hhead.append (faithful_punct rbrace)
    exact ⟨by simpa using Derives.emptyObject hw, by simpa using this⟩
  · have hblank : scanned.Blank (w ++ w') := fun c hc =>
      (List.mem_append.mp hc).elim (hw c) (hw' c)
    have := hhead.append hfaith
    exact ⟨by simpa using Derives.object hblank hs, by simpa using this⟩

theorem sound_array {elements : Scan} (he : Sound elements (ElementsCut b)) :
    Sound ((punct lbracket).seq (whitespace.seq ((punct rbracket).branch .done elements)))
      fun u ts => Derives scanned .array u ∧ Faithful b u ts := by
  have htail := (sound_punct rbracket).branch sound_done he
  refine ((sound_punct lbracket).seq (sound_whitespace.seq htail)).mono ?_
  rintro _ _ ⟨_, _, _, _, rfl, rfl, ⟨rfl, rfl⟩, w, _, t, _, rfl, rfl, ⟨hw, hwt, hspace⟩, htail⟩
  have hhead := (faithful_punct (b := b) lbracket).append (faithful_spacing hwt hspace)
  rcases htail with ⟨_, _, _, _, rfl, rfl, ⟨rfl, rfl⟩, rfl, rfl⟩ |
    ⟨⟨w', s, rfl, hw', hs⟩, hfaith⟩
  · have := hhead.append (faithful_punct rbracket)
    exact ⟨by simpa using Derives.emptyArray hw, by simpa using this⟩
  · have hblank : scanned.Blank (w ++ w') := fun c hc =>
      (List.mem_append.mp hc).elim (hw c) (hw' c)
    have := hhead.append hfaith
    exact ⟨by simpa using Derives.array hblank hs, by simpa using this⟩

/-- What the scanners cut off at a bound on the depth of calls. -/
structure SoundAt (b : LogBuiltins) (n : ℕ) : Prop where
  value : ∀ isLevel, Sound (value b n isLevel) (SpacedValueCut b isLevel)
  object : Sound (object b n) fun u ts => Derives scanned .object u ∧ Faithful b u ts
  members : Sound (members b n) (MembersCut b)
  array : Sound (array b n) fun u ts => Derives scanned .array u ∧ Faithful b u ts
  elements : Sound (elements b n) (ElementsCut b)

theorem soundAt (n : ℕ) : SoundAt b n := by
  induction n with
  | zero =>
    refine ⟨fun isLevel s ts r h => ?_, fun s ts r h => ?_, fun s ts r h => ?_,
      fun s ts r h => ?_, fun s ts r h => ?_⟩
    · rw [value] at h
      cases h
    · rw [object] at h
      cases h
    · rw [members] at h
      cases h
    · rw [array] at h
      cases h
    · rw [elements] at h
      cases h
  | succ n ih =>
    constructor
    · intro isLevel
      rw [value]
      exact sound_value isLevel ih.object ih.array
    · rw [object]
      exact sound_object ih.members
    · rw [members]
      exact sound_members ih.value ih.members
    · rw [array]
      exact sound_array ih.elements
    · rw [elements]
      exact sound_elements (ih.value false) ih.elements

end KubeConsole.Web.LogJson
