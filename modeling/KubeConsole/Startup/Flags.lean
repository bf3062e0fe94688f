import KubeConsole.Go.Netip
import KubeConsole.Theory.Fields
import KubeConsole.Theory.Settings

/-!
The command line: the flags `Load` defines and how the package `flag` reads them. A flag is
`-name`, `--name`, `-name=value` or `-name value`; the first argument that is none ends them.
-/
namespace KubeConsole.Startup
open KubeConsole.Go KubeConsole.Theory

/-- `strconv.ParseBool`. -/
def parseBool (s : Str) : Option Bool :=
  if [str "1", str "t", str "T", str "TRUE", str "true", str "True"].contains s then some true
  else if [str "0", str "f", str "F", str "FALSE", str "false", str "False"].contains s then some false
  else none

/-- The loop of `underscoreOK`: each underscore stands behind a digit and before one. -/
def underscoreOK (sawDigit : Bool) : Str → Bool
  | [] => true
  | [b] => b ≠ chr '_'
  | b :: c :: s =>
    if b = chr '_' then sawDigit && underscoreOK false (c :: s) else underscoreOK true (c :: s)

/-- The value of a digit below `base`. -/
def digitBelow (base : ℕ) (b : UInt8) : Option ℕ :=
  let d :=
    if isDigit b then some (b - chr '0').toNat
    else if chr 'a' ≤ b ∧ b ≤ chr 'z' then some ((b - chr 'a').toNat + 10)
    else if chr 'A' ≤ b ∧ b ≤ chr 'Z' then some ((b - chr 'A').toNat + 10)
    else none
  d.filter (· < base)

/-- The base of a number written for base 0, its digits, and whether they may start with an
underscore. -/
def splitBase (s : Str) : ℕ × Str × Bool :=
  match s with
  | b :: c :: rest =>
    if b ≠ chr '0' then (10, s, false)
    else if rest ≠ [] ∧ lowerByte c = chr 'b' then (2, rest, true)
    else if rest ≠ [] ∧ lowerByte c = chr 'o' then (8, rest, true)
    else if rest ≠ [] ∧ lowerByte c = chr 'x' then (16, rest, true)
    else (8, c :: rest, true)
  | _ => (10, s, false)

/-- `strconv.ParseUint` without its bound; `anyBase` is base 0, else the base is 10. -/
def parseUint (anyBase : Bool) (s : Str) : Option ℕ :=
  let (base, digits, prefixed) := if anyBase then splitBase s else (10, s, false)
  if digits = [] ∨ (anyBase && !underscoreOK prefixed digits) then none
  else digits.foldlM (fun n b =>
    if anyBase ∧ b = chr '_' then some n else (digitBelow base b).map (n * base + ·)) 0

/-- `strconv.ParseInt` of 64 bits, in base 0 or, as `Atoi`, in base 10. -/
def parseInt (anyBase : Bool) (s : Str) : Option ℤ :=
  let neg := s.head? = some (chr '-')
  let s := if neg ∨ s.head? = some (chr '+') then s.tail else s
  match parseUint anyBase s with
  | none => none
  | some n =>
    if neg then if n ≤ 2 ^ 63 then some (-n) else none
    else if n < 2 ^ 63 then some n else none

/-- The types of flag variables. -/
inductive Kind where
  | string
  | bool
  | int
  deriving DecidableEq, Repr

@[reducible] def Kind.Val : Kind → Type
  | .string => Str
  | .bool => Bool
  | .int => ℤ

/-- The flags of `Load`. -/
inductive Flag where
  | listen | apiServer | caFile | kubeconfig | context | clusterName
  | useKubeconfigCredentials | metricsDisable | execDisable
  | maxExecSessions | maxExecHandshakesPerIP | allowedOrigins | maxBodyBytes | rateLimit
  | maxInFlight | trustedProxies | logLevel | logFormat | version
  deriving DecidableEq, Repr

namespace Flag

@[reducible] def kind : Flag → Kind
  | useKubeconfigCredentials | metricsDisable | execDisable | version => .bool
  | maxExecSessions | maxExecHandshakesPerIP | maxBodyBytes | rateLimit | maxInFlight => .int
  | _ => .string

def name : Flag → Str
  | listen => str "listen"
  | apiServer => str "api-server"
  | caFile => str "ca-file"
  | kubeconfig => str "kubeconfig"
  | context => str "context"
  | clusterName => str "cluster-name"
  | useKubeconfigCredentials => str "use-kubeconfig-credentials"
  | metricsDisable => str "metrics-disable"
  | execDisable => str "exec-disable"
  | maxExecSessions => str "max-exec-sessions"
  | maxExecHandshakesPerIP => str "max-exec-handshakes-per-ip"
  | allowedOrigins => str "allowed-origins"
  | maxBodyBytes => str "max-body-bytes"
  | rateLimit => str "rate-limit"
  | maxInFlight => str "max-in-flight"
  | trustedProxies => str "trusted-proxies"
  | logLevel => str "log-level"
  | logFormat => str "log-format"
  | version => str "version"

def all : List Flag :=
  [listen, apiServer, caFile, kubeconfig, context, clusterName, useKubeconfigCredentials,
    metricsDisable, execDisable, maxExecSessions, maxExecHandshakesPerIP, allowedOrigins,
    maxBodyBytes, rateLimit, maxInFlight, trustedProxies, logLevel, logFormat, version]

/-- The flag of a name: the map `formal` of the flag set. -/
def named (name : Str) : Option Flag := all.find? fun f => f.name = name

end Flag

/-- The variables of the flag set. -/
abbrev FlagSet := ∀ f : Flag, f.kind.Val

inductive FlagError where
  | badSyntax (arg : Str)
  | help
  | notDefined (name : Str)
  | needsArgument (name : Str)
  | invalidValue (value name : Str)
  deriving DecidableEq, Repr

/-- `flag.Value.Set`: the value a text stands for. -/
def parseValue : (k : Kind) → Str → Option k.Val
  | .string, s => some s
  | .bool, s => parseBool s
  | .int, s => parseInt true s

/-- What `parseOne` finds at the front of the arguments. -/
inductive Token where
  | stop
  | bad (e : FlagError)
  /-- a flag with the value that stands behind its `=`, if any -/
  | flag (f : Flag) (value : Option Str)
  deriving DecidableEq, Repr

/-- The part of `parseOne` that reads one argument. -/
def token (s : Str) : Token :=
  if s.length < 2 ∨ s.head? ≠ some (chr '-') ∨ s = str "--" then .stop
  else
    match if str "--" <+: s then s.drop 2 else s.drop 1 with
    | [] => .bad (.badSyntax s)
    | b :: rest =>
      if b = chr '-' ∨ b = chr '=' then .bad (.badSyntax s)
      else
        let name := b :: rest.takeWhile (· ≠ chr '=')
        match Flag.named name with
        | none =>
          if name = str "help" ∨ name = str "h" then .bad .help else .bad (.notDefined name)
        | some f => .flag f (if chr '=' ∈ rest then some ((cut (chr '=') rest).2) else none)

/-- `parseOne` sets one variable. -/
def FlagSet.set (fs : FlagSet) (f : Flag) (value : Str) : Except FlagError FlagSet :=
  match parseValue f.kind value with
  | none => .error (.invalidValue value f.name)
  | some v => .ok (Function.update fs f v)

/-- `FlagSet.Parse`. A boolean flag needs no value and never takes the next argument. -/
def FlagSet.parse (fs : FlagSet) : List Str → Except FlagError FlagSet
  | [] => .ok fs
  | s :: args =>
    match token s with
    | .stop => .ok fs
    | .bad e => .error e
    | .flag f (some value) => do (← fs.set f value).parse args
    | .flag f none =>
      if f.kind = .bool then do (← fs.set f (str "true")).parse args
      else match args with
        | [] => .error (.needsArgument f.name)
        | value :: args => do (← fs.set f value).parse args

/-! What a command line sets. -/

abbrev Setting := Σ f : Flag, f.kind.Val

def setting (f : Flag) (value : Str) : Except FlagError Setting :=
  match parseValue f.kind value with
  | none => .error (.invalidValue value f.name)
  | some v => .ok ⟨f, v⟩

/-- The settings of a command line, in order. -/
def settings : List Str → Except FlagError (List Setting)
  | [] => .ok []
  | s :: args =>
    match token s with
    | .stop => .ok []
    | .bad e => .error e
    | .flag f (some value) => do return (← setting f value) :: (← settings args)
    | .flag f none =>
      if f.kind = .bool then do return (← setting f (str "true")) :: (← settings args)
      else match args with
        | [] => .error (.needsArgument f.name)
        | value :: args => do return (← setting f value) :: (← settings args)

/-- One flag and those after it: they set what they say. -/
theorem set_parse {fs : FlagSet} {f : Flag} {value : Str} {args : List Str}
    (ih : ∀ fs : FlagSet, fs.parse args = (settings args).map (setAll fs)) :
    (fs.set f value >>= fun fs => fs.parse args) =
      (do return (← setting f value) :: (← settings args)).map (setAll fs) := by
  unfold FlagSet.set setting
  cases parseValue f.kind value with
  | none => rfl
  | some v =>
    show FlagSet.parse (Function.update fs f v) args = _
    rw [ih]
    cases settings args <;> rfl

/-- `Parse` makes the settings of the command line one after the other. -/
theorem FlagSet.parse_eq (fs : FlagSet) (args : List Str) :
    fs.parse args = (settings args).map (setAll fs) := by
  induction hn : args.length using Nat.strong_induction_on generalizing fs args with
  | _ n ih =>
    cases args with
    | nil => rfl
    | cons s args =>
      have hrest (fs : FlagSet) (args' : List Str) (h : args'.length ≤ args.length) :
          fs.parse args' = (settings args').map (setAll fs) :=
        ih args'.length (by simp at hn; omega) fs args' rfl
      rw [FlagSet.parse, settings]
      cases token s with
      | stop => rfl
      | bad e => rfl
      | flag f value =>
        cases value with
        | some value => exact set_parse fun fs => hrest fs args le_rfl
        | none =>
          by_cases hb : f.kind = .bool
          · simp only [hb, if_true]
            exact set_parse fun fs => hrest fs args le_rfl
          · simp only [hb, if_false]
            cases args with
            | nil => rfl
            | cons value args => exact set_parse fun fs => hrest fs args (by simp)

end KubeConsole.Startup
