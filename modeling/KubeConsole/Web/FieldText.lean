import KubeConsole.Web.Json

/-!
The texts of the field tree: labels made from keys, status colours, relative ages, and the text
of a JSON value.

What the language supplies is the parameter `Builtins`: the case mappings of Unicode, the text
of a number, the parsing of a date, and the clock.
-/
namespace KubeConsole.Web
open KubeConsole.Theory

structure Builtins (N : Type) where
  toLowerCase : JStr → JStr
  toUpperCase : JStr → JStr
  /-- `String(n)`. -/
  numberText : N → JStr
  /-- `JSON.stringify(n)`. -/
  numberJson : N → JStr
  /-- `new Date(timestamp).getTime()`, if that is a number. -/
  getTime : JStr → Option ℤ
  now : ℤ

def isUpper (c : UInt16) : Bool := 0x41 ≤ c && c ≤ 0x5A
def isLower (c : UInt16) : Bool := 0x61 ≤ c && c ≤ 0x7A
def isDigit (c : UInt16) : Bool := 0x30 ≤ c && c ≤ 0x39

/-- The folding of the flag `i` on a pattern of ASCII letters. -/
def foldCase (s : JStr) : JStr := s.map fun c => if isUpper c then c + 0x20 else c

/-- `String.prototype.includes`. -/
def includes (s part : JStr) : Bool := part <:+: s

variable {N : Type} (b : Builtins N)

/-! ## Labels -/

def acronyms : List JStr :=
  ["api", "cidr", "cpu", "dns", "fqdn", "fs", "gid", "http", "https", "id", "ip", "ipc", "os",
    "pid", "qos", "tls", "ttl", "uid", "url"].map js

def isSeparator (c : UInt16) : Bool := c = 0x5F || c = 0x2D

/-- `replace(/[_-]+/g, " ")`. -/
def spaceRuns : JStr → JStr
  | [] => []
  | c :: s =>
    if isSeparator c then
      if (s.head?.map isSeparator).getD false then spaceRuns s else 0x20 :: spaceRuns s
    else c :: spaceRuns s

/-- `replace(/([a-z\d])([A-Z])/g, "$1 $2")`. -/
def splitCamel : JStr → JStr
  | [] => []
  | c :: s =>
    if (isLower c || isDigit c) && (s.head?.map isUpper).getD false then c :: 0x20 :: splitCamel s
    else c :: splitCamel s

/-- `/^[A-Z\d]+s?$/`. -/
def isCapitals (word : JStr) : Bool :=
  let body := if word.getLast? = some 0x73 then word.dropLast else word
  body ≠ [] && body.all fun c => isUpper c || isDigit c

def humanizeWord (word : JStr) : JStr :=
  if 1 < word.length && isCapitals word then word
  else if b.toLowerCase word ∈ acronyms then b.toUpperCase word
  else b.toUpperCase (word.take 1) ++ word.drop 1

def humanizeKey (key : JStr) : JStr :=
  (js " ").intercalate
    ((((splitCamel (spaceRuns key)).splitOn 0x20).filter (· ≠ [])).map (humanizeWord b))

/-! ## Status colours -/

inductive StatusColumnKind where
  | status
  | warnWhenTrue
  deriving DecidableEq, Repr

inductive StatusSeverity where
  | error
  | warning
  deriving DecidableEq, Repr

def errorStatuses : List JStr :=
  ["failed", "error", "evicted", "oomkilled", "notready", "unknown", "invalid"].map js

def errorSubstrings : List JStr :=
  ["crashloopbackoff", "backoff", "errimage", "error", "fail", "unhealthy"].map js

def warningStatuses : List JStr :=
  ["pending", "terminating", "containercreating", "podinitializing", "schedulingdisabled",
    "unschedulable", "progressing", "warning"].map js

def isStatusColumn (columnName : JStr) : Bool :=
  ["status", "state", "reason", "type", "phase", "condition", "health", "ready"].any fun word =>
    includes (foldCase columnName) (js word)

def statusColumnKind (columnName : JStr) : Option StatusColumnKind :=
  if foldCase (trim columnName) = js "suspend" || foldCase (trim columnName) = js "suspended" then
    some .warnWhenTrue
  else if isStatusColumn columnName then some .status
  else none

/-- The severity of the parts of a value, when `warning` tells of the parts before. -/
def partsSeverity (warning : Bool) : List JStr → Option StatusSeverity
  | [] => if warning then some .warning else none
  | part :: parts =>
    if b.toLowerCase (trim part) = [] then partsSeverity warning parts
    else if b.toLowerCase (trim part) ∈ errorStatuses ||
      errorSubstrings.any (includes (b.toLowerCase (trim part))) then some .error
    else partsSeverity (warning || b.toLowerCase (trim part) ∈ warningStatuses) parts

def statusSeverity (value : JStr) : Option StatusSeverity :=
  partsSeverity b false (value.splitOn 0x2C)

def severityTextClass : StatusSeverity → JStr
  | .error => js "text-red-600 dark:text-red-400 font-medium"
  | .warning => js "text-amber-600 dark:text-amber-400"

def warnWhenTrueSeverity (value : JStr) : Option StatusSeverity :=
  if b.toLowerCase (trim value) = js "true" then some .warning else none

def cellTextClass (kind : StatusColumnKind) (value : JStr) : Option JStr :=
  (match kind with
    | .warnWhenTrue => warnWhenTrueSeverity b value
    | .status => statusSeverity b value).map severityTextClass

/-! ## Ages -/

def decimal (n : ℕ) : JStr := js (toString n)

def formatDurationShort (seconds : ℕ) : JStr :=
  let minutes := seconds / 60
  let hours := minutes / 60
  let days := hours / 24
  if seconds < 60 then decimal seconds ++ js "s"
  else if minutes < 60 then decimal minutes ++ js "m"
  else if hours < 24 then
    if 0 < minutes % 60 then decimal hours ++ js "h" ++ decimal (minutes % 60) ++ js "m"
    else decimal hours ++ js "h"
  else if days < 365 then decimal days ++ js "d"
  else decimal (days / 365) ++ js "y" ++
    if 0 < days % 365 then decimal (days % 365) ++ js "d" else []

def formatRelativeAge (timestamp : JStr) : JStr :=
  if timestamp = [] then [] else
    match b.getTime timestamp with
    | none => []
    | some then_ =>
      let delta := (b.now - then_).fdiv 1000
      if delta < 0 then js "in " ++ formatDurationShort (-delta).toNat
      else formatDurationShort delta.toNat ++ js " ago"

/-! ## Scalars -/

/-- What follows the characters of a fixed pattern. -/
def after : List (UInt16 → Bool) → JStr → Option JStr
  | [], s => some s
  | p :: ps, c :: s => if p c then after ps s else none
  | _ :: _, [] => none

def digitRun (n : ℕ) : List (UInt16 → Bool) := List.replicate n isDigit

def exactly (c d : UInt16) : Bool := c = d

/-- `(?:Z|[+-]\d{2}:?\d{2})$`. -/
def isZone (s : JStr) : Bool :=
  match s with
  | [] => false
  | c :: s =>
    (c = 0x5A && s = []) || ((c = 0x2B || c = 0x2D) &&
      (after (digitRun 2 ++ [exactly 0x3A] ++ digitRun 2) s = some [] ||
        after (digitRun 4) s = some []))

/-- `ISO_TIMESTAMP_RE`. -/
def isoTimestamp (s : JStr) : Bool :=
  match after (digitRun 4 ++ [exactly 0x2D] ++ digitRun 2 ++ [exactly 0x2D] ++ digitRun 2 ++
    [exactly 0x54] ++ digitRun 2 ++ [exactly 0x3A] ++ digitRun 2 ++ [exactly 0x3A] ++ digitRun 2) s with
  | none => false
  | some [] => false
  | some (c :: rest) =>
    if c = 0x2E then rest.head?.any isDigit && isZone (rest.dropWhile isDigit)
    else isZone (c :: rest)

def formatScalar : Scalar N → JStr
  | .null => js "null"
  | .bool true => js "true"
  | .bool false => js "false"
  | .num n => b.numberText n
  | .str s => s

/-- `isTimestamp(value) ? formatRelativeAge(value) : ""`. -/
def relativeAge : Scalar N → JStr
  | .str s => if isoTimestamp s then formatRelativeAge b s else []
  | _ => []

/-! ## `JSON.stringify` -/

def hexDigit (n : ℕ) : UInt16 := if n < 10 then 0x30 + n.toUInt16 else 0x57 + n.toUInt16

/-- `\uXXXX`. -/
def unicodeEscape (c : UInt16) : JStr :=
  js "\\u" ++ [c.toNat / 4096, c.toNat / 256 % 16, c.toNat / 16 % 16, c.toNat % 16].map hexDigit

def isLead (c : UInt16) : Bool := 0xD800 ≤ c && c ≤ 0xDBFF
def isTrail (c : UInt16) : Bool := 0xDC00 ≤ c && c ≤ 0xDFFF

/-- One code unit that is not half of a surrogate pair. -/
def quoteUnit (c : UInt16) : JStr :=
  if c = 0x08 then js "\\b"
  else if c = 0x09 then js "\\t"
  else if c = 0x0A then js "\\n"
  else if c = 0x0C then js "\\f"
  else if c = 0x0D then js "\\r"
  else if c = 0x22 then js "\\\""
  else if c = 0x5C then js "\\\\"
  else if c < 0x20 || isLead c || isTrail c then unicodeEscape c
  else [c]

def quoteBody : JStr → JStr
  | [] => []
  | [c] => quoteUnit c
  | c :: d :: s =>
    if isLead c && isTrail d then c :: d :: quoteBody s else quoteUnit c ++ quoteBody (d :: s)

def quote (s : JStr) : JStr := js "\"" ++ quoteBody s ++ js "\""

mutual
def stringify : Json N → JStr
  | .leaf .null => js "null"
  | .leaf (.bool true) => js "true"
  | .leaf (.bool false) => js "false"
  | .leaf (.num n) => b.numberJson n
  | .leaf (.str s) => quote s
  | .arr items => js "[" ++ stringifyItems items ++ js "]"
  | .obj fields => js "\x7b" ++ stringifyFields fields ++ js "\x7d"

def stringifyItems : List (Json N) → JStr
  | [] => []
  | [v] => stringify v
  | v :: items => stringify v ++ js "," ++ stringifyItems items

def stringifyFields : Record N → JStr
  | [] => []
  | [(key, v)] => quote key ++ js ":" ++ stringify v
  | (key, v) :: fields => quote key ++ js ":" ++ stringify v ++ js "," ++ stringifyFields fields
end

end KubeConsole.Web
