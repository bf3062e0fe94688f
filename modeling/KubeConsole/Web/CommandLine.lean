import KubeConsole.Web.Js

/-!
The command line of an exec session (`podHelpers.ts`): how it is split into an argv, and how an
argv is shown.
-/
namespace KubeConsole.Web.CommandLine

def singleQuote : UInt16 := 0x27
def doubleQuote : UInt16 := 0x22
def backslash : UInt16 := 0x5C

/-! ## Parsing -/

/-- The variables of the loop. -/
structure Parse where
  argv : List JStr := []
  current : JStr := []
  started : Bool := false
  quote : Option UInt16 := none
  deriving DecidableEq, Repr

namespace Parse

def put (p : Parse) (ch : UInt16) : Parse := { p with current := p.current ++ [ch] }

/-- A character that escapes nothing. -/
def read (p : Parse) (ch : UInt16) : Parse :=
  match p.quote with
  | some quote => if ch = quote then { p with quote := none } else p.put ch
  | none =>
    if ch = singleQuote ∨ ch = doubleQuote then { p with quote := some ch, started := true }
    else if isBlank ch then
      { argv := if p.started then p.argv ++ [p.current] else p.argv }
    else { p.put ch with started := true }

/-- A backslash takes the next character as it is: any outside quotes, and between double quotes
such a quote or a backslash. -/
def escapes (p : Parse) (ch next : UInt16) : Bool :=
  ch = backslash && match p.quote with
    | none => true
    | some quote => quote = doubleQuote && (next = doubleQuote || next = backslash)

/-- Only outside quotes an escape begins an argument. -/
def readEscaped (p : Parse) (next : UInt16) : Parse :=
  { p.put next with started := p.started || p.quote.isNone }

def readLine : JStr → Parse → Parse
  | [], p => p
  | [ch], p => p.read ch
  | ch :: next :: line, p =>
    if p.escapes ch next then readLine line (p.readEscaped next)
    else readLine (next :: line) (p.read ch)

/-- An argument that is still open ends with the line. -/
def finish (p : Parse) : List JStr := if p.started then p.argv ++ [p.current] else p.argv

end Parse

def parseCommandLine (line : JStr) : List JStr := (Parse.readLine line {}).finish

/-! ## Formatting -/

/-- A character of `UNQUOTED_ARG`. -/
def unquoted (c : UInt16) : Bool :=
  (0x41 ≤ c && c ≤ 0x5A) || (0x61 ≤ c && c ≤ 0x7A) || (0x30 ≤ c && c ≤ 0x39) ||
    [0x5F, 0x40, 0x25, 0x2B, 0x3D, 0x3A, 0x2C, 0x2E, 0x2F, 0x2D].contains c

example : js "_@%+=:,./-" = [0x5F, 0x40, 0x25, 0x2B, 0x3D, 0x3A, 0x2C, 0x2E, 0x2F, 0x2D] := by
  decide

/-- `arg.replace(/["\\]/g, "\\$&")`. -/
def escapeArg (arg : JStr) : JStr :=
  arg.flatMap fun c => if c = doubleQuote ∨ c = backslash then [backslash, c] else [c]

def quoteArg (arg : JStr) : JStr :=
  if arg ≠ [] ∧ arg.all unquoted then arg
  else if singleQuote ∉ arg then singleQuote :: (arg ++ [singleQuote])
  else doubleQuote :: (escapeArg arg ++ [doubleQuote])

def formatCommandLine (argv : List JStr) : JStr := [0x20].intercalate (argv.map quoteArg)

/-! ## The round trip -/

namespace Parse
variable {p : Parse}

theorem readLine_cons {ch : UInt16} (h : ∀ next, p.escapes ch next = false) (line : JStr) :
    readLine (ch :: line) p = readLine line (p.read ch) := by
  cases line with
  | nil => rfl
  | cons next line => rw [readLine, h next, if_neg Bool.false_ne_true]

theorem readLine_plain {ch : UInt16} (h : ch ≠ backslash) (line : JStr) :
    readLine (ch :: line) p = readLine line (p.read ch) :=
  readLine_cons (fun next => by simp [escapes, h]) line

/-- Between single quotes every other character stands for itself. -/
theorem readLine_single {arg : JStr} (harg : singleQuote ∉ arg) (line : JStr)
    (hp : p.quote = some singleQuote) :
    readLine (arg ++ singleQuote :: line) p =
      readLine line { p with current := p.current ++ arg, quote := none } := by
  have hescapes (q : Parse) (hq : q.quote = some singleQuote) (ch next : UInt16) :
      q.escapes ch next = false := by
    rw [escapes, hq]
    simp [singleQuote, doubleQuote]
  induction arg generalizing p with
  | nil =>
    rw [List.nil_append, readLine_cons (hescapes p hp _), read, hp, List.append_nil]
    exact congrArg _ (if_pos rfl)
  | cons c arg ih =>
    obtain ⟨hc, harg⟩ := not_or.mp (mt List.mem_cons.mpr harg)
    have hread : p.read c = p.put c := by
      rw [read, hp]
      exact if_neg (Ne.symm hc)
    have hput : (p.put c).quote = some singleQuote := hp
    rw [List.cons_append, readLine_cons (hescapes p hp _), hread, ih harg hput]
    simp [put]

/-- Between double quotes what was escaped is read back. -/
theorem readLine_double (arg line : JStr) (hp : p.quote = some doubleQuote)
    (hstarted : p.started = true) :
    readLine (escapeArg arg ++ doubleQuote :: line) p =
      readLine line { p with current := p.current ++ arg, quote := none } := by
  induction arg generalizing p with
  | nil =>
    rw [escapeArg, List.flatMap_nil, List.nil_append, readLine_plain (by decide), read, hp,
      List.append_nil]
    exact congrArg _ (if_pos rfl)
  | cons c arg ih =>
    have hput : (p.put c).quote = some doubleQuote := hp
    rw [escapeArg, List.flatMap_cons, ← escapeArg]
    split_ifs with hc
    · have hescapes : p.escapes backslash c = true := by
        rw [escapes, hp]
        rcases hc with rfl | rfl <;> rfl
      have hread : p.readEscaped c = p.put c := by
        rw [readEscaped, hstarted, Bool.true_or]
        obtain ⟨argv, current, started, quote⟩ := p
        obtain rfl : started = true := hstarted
        rfl
      simp only [List.cons_append, List.nil_append]
      rw [readLine, if_pos hescapes, hread, ih hput hstarted]
      simp [put]
    · obtain ⟨hquote, hback⟩ := not_or.mp hc
      have hread : p.read c = p.put c := by
        rw [read, hp]
        exact if_neg hquote
      rw [List.singleton_append, List.cons_append, readLine_plain hback, hread, ih hput hstarted]
      simp [put]

end Parse

theorem unquoted_plain {c : UInt16} (h : unquoted c = true) :
    c ≠ singleQuote ∧ c ≠ doubleQuote ∧ c ≠ backslash ∧ isBlank c = false := by
  have hne (d : UInt16) (hd : unquoted d = false) : c ≠ d := by
    rintro rfl
    rw [h] at hd
    cases hd
  refine ⟨hne _ (by decide), hne _ (by decide), hne _ (by decide), ?_⟩
  by_contra hblank
  simp only [isBlank, Bool.not_eq_false, Bool.or_eq_true, Bool.and_eq_true, decide_eq_true_iff,
    UInt16.le_iff_toNat_le, ← UInt16.toNat_inj] at hblank
  simp only [unquoted, List.contains_cons, List.contains_nil, Bool.or_eq_true, Bool.and_eq_true,
    decide_eq_true_iff, beq_iff_eq, UInt16.le_iff_toNat_le, ← UInt16.toNat_inj] at h
  simp only [UInt16.reduceToNat, Bool.false_eq_true, or_false] at h hblank
  omega

/-- Between two arguments nothing is open. -/
def ready (argv : List JStr) : Parse := { argv }

theorem readLine_unquoted {arg : JStr} (harg : arg.all unquoted = true) (line : JStr) {p : Parse}
    (hp : p.quote = none) (hstarted : p.started = true) :
    Parse.readLine (arg ++ line) p = Parse.readLine line { p with current := p.current ++ arg } := by
  induction arg generalizing p with
  | nil => rw [List.nil_append, List.append_nil]
  | cons c arg ih =>
    rw [List.all_cons, Bool.and_eq_true] at harg
    obtain ⟨hsingle, hdouble, hback, hblank⟩ := unquoted_plain harg.1
    have hread : p.read c = p.put c := by
      rw [Parse.read, hp]
      simp only [hsingle, hdouble, or_self, if_false, hblank, Bool.false_eq_true]
      obtain ⟨argv, current, started, quote⟩ := p
      obtain rfl : started = true := hstarted
      rfl
    have hput : (p.put c).quote = none := hp
    rw [List.cons_append, Parse.readLine_plain hback, hread, ih harg.2 hput hstarted]
    simp [Parse.put]

/-- An argument as it is shown is read as that argument. -/
theorem readLine_quoteArg (argv : List JStr) (arg line : JStr) :
    Parse.readLine (quoteArg arg ++ line) (ready argv) =
      Parse.readLine line { argv, current := arg, started := true } := by
  rw [quoteArg]
  split_ifs with hplain hsingle
  · obtain ⟨hne, hall⟩ := hplain
    obtain ⟨c, arg, rfl⟩ := List.exists_cons_of_ne_nil hne
    rw [List.all_cons, Bool.and_eq_true] at hall
    obtain ⟨hsingle, hdouble, hback, hblank⟩ := unquoted_plain hall.1
    have hread : (ready argv).read c = { argv, current := [c], started := true } := by
      simp [Parse.read, ready, Parse.put, hsingle, hdouble, hblank]
    rw [List.cons_append, Parse.readLine_plain hback, hread,
      readLine_unquoted hall.2 line rfl rfl]
    rfl
  · have hread : (ready argv).read doubleQuote =
        { argv, started := true, quote := some doubleQuote } := rfl
    rw [List.cons_append, Parse.readLine_plain (by decide), hread, List.append_assoc,
      List.singleton_append, Parse.readLine_double arg line rfl rfl]
    rfl
  · have hread : (ready argv).read singleQuote =
        { argv, started := true, quote := some singleQuote } := rfl
    rw [List.cons_append, Parse.readLine_plain (by decide), hread, List.append_assoc,
      List.singleton_append, Parse.readLine_single hsingle line rfl]
    rfl

theorem readLine_format (argv rest : List JStr) :
    (Parse.readLine (formatCommandLine rest) (ready argv)).finish = argv ++ rest := by
  induction rest generalizing argv with
  | nil => exact (List.append_nil argv).symm
  | cons arg rest ih =>
    cases rest with
    | nil =>
      have hone := readLine_quoteArg argv arg []
      rw [List.append_nil] at hone
      rw [formatCommandLine, List.map_singleton, List.intercalate_singleton, hone]
      rfl
    | cons next rest =>
      have hblank : ({ argv, current := arg, started := true } : Parse).read 0x20 =
          ready (argv ++ [arg]) := rfl
      have htail : formatCommandLine (arg :: next :: rest) =
          quoteArg arg ++ 0x20 :: formatCommandLine (next :: rest) := by
        rw [formatCommandLine, List.map_cons, List.map_cons, List.intercalate_cons_cons,
          List.append_assoc]
        rfl
      rw [htail, readLine_quoteArg, Parse.readLine_plain (by decide), hblank, ih,
        List.append_assoc]
      rfl

theorem parseCommandLine_formatCommandLine (argv : List JStr) :
    parseCommandLine (formatCommandLine argv) = argv :=
  readLine_format [] argv

example : formatCommandLine [js "sh", js "-c", js "echo 'a\\b'", []] =
    js "sh -c \"echo 'a\\\\b'\" ''" := by decide

end KubeConsole.Web.CommandLine
