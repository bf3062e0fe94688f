import KubeConsole.Startup.Flags
import KubeConsole.Kube.Registry

/-!
The configuration (`internal/config`): environment variables over defaults, flags over both,
what a pod adds to it, and the checks it must pass.
-/
namespace KubeConsole.Startup
open KubeConsole.Go KubeConsole.Theory

def envServiceHost : Str := str "KUBERNETES_SERVICE_HOST"

def envServicePort : Str := str "KUBERNETES_SERVICE_PORT"

def inClusterCAPath : Str := str "/var/run/secrets/kubernetes.io/serviceaccount/ca.crt"

def maxClusterNameRunes : ℕ := 64

def maxConcurrencyLimit : ℤ := 2 ^ 20

/-- What `Load` reads of the machine it runs on: `os.Getenv` and `caFileExists`. -/
structure Machine where
  getenv : Str → Str
  caFileExists : Str → Bool

/-- The fields of `config.Config` that flags and environment set. -/
structure Config where
  listenAddr : Str
  kubeAPIServer : Str
  kubeCAFile : Str
  kubeconfig : Str
  kubeContext : Str
  clusterName : Str
  useKubeconfigCredentials : Bool
  metricsEnabled : Bool
  execEnabled : Bool
  maxExecSessions : ℤ
  maxExecHandshakesPerIP : ℤ
  allowedOrigins : List Str
  maxBodyBytes : ℤ
  rateLimit : ℤ
  maxInFlight : ℤ
  trustedProxies : List Str
  logLevel : Str
  logFormat : Str
  deriving DecidableEq, Repr

/-- The errors of `validate`. -/
inductive ConfigError where
  | execSessionsLow (n : ℤ)
  | execSessionsHigh (n : ℤ)
  | bodyBytes (n : ℤ)
  | handshakesPerIP (n : ℤ)
  | rateLimit (n : ℤ)
  | inFlightLow (n : ℤ)
  | inFlightHigh (n : ℤ)
  | clusterNameLong (n : ℕ)
  | clusterNameControl (name : Str)
  | trustedProxy (proxy : Str)
  | credentialsWithoutKubeconfig
  | credentialsInCluster
  | credentialsListen (addr : Str)
  deriving DecidableEq, Repr

/-- The texts of the errors, where `quote` is the verb `%q`. -/
def ConfigError.message (quote : Str → String) : ConfigError → String
  | execSessionsLow n => s!"max exec sessions must be >= 1, got {n}"
  | execSessionsHigh n => s!"max exec sessions must be <= {maxConcurrencyLimit}, got {n}"
  | bodyBytes n => s!"max body bytes must be >= 1, got {n}"
  | handshakesPerIP n => s!"max exec handshakes per IP must be >= 0, got {n}"
  | rateLimit n => s!"rate limit must be >= 0, got {n}"
  | inFlightLow n => s!"max in-flight must be >= 0, got {n}"
  | inFlightHigh n => s!"max in-flight must be <= {maxConcurrencyLimit}, got {n}"
  | clusterNameLong n =>
    s!"cluster name must be at most {maxClusterNameRunes} characters, got {n}"
  | clusterNameControl name =>
    s!"cluster name must not contain control characters, got {quote name}"
  | trustedProxy proxy => s!"invalid trusted proxy CIDR {quote proxy}"
  | credentialsWithoutKubeconfig =>
    "--use-kubeconfig-credentials requires a kubeconfig: --api-server and in-cluster mode " ++
      "carry no credentials (the ServiceAccount token is never read)"
  | credentialsInCluster =>
    "--use-kubeconfig-credentials is local-development only and must not run in-cluster " ++
      "(KUBERNETES_SERVICE_HOST is set); loopback inside a pod is shared with every container in it"
  | credentialsListen addr =>
    "--use-kubeconfig-credentials requires a loopback listen address " ++
      s!"(127.0.0.1 / [::1] / localhost), got {quote addr}"

inductive LoadError where
  | notBoolean (key value : Str)
  | notInteger (key value : Str)
  | flag (e : FlagError)
  | versionRequested
  | invalid (e : ConfigError)
  deriving DecidableEq, Repr

/-- `splitCSV`. -/
def splitCSV (s : Str) : List Str :=
  if s = [] then []
  else ((s.splitOn (chr ',')).map trimSpace).filter (· ≠ [])

/-- `strings.Join(l, ",")`. -/
def joinCSV (l : List Str) : Str := [chr ','].intercalate l

section Env
variable (getenv : Str → Str)

def envOr (key default : Str) : Str := if getenv key ≠ [] then getenv key else default

def envBoolOr (key : Str) (default : Bool) : Except LoadError Bool :=
  if getenv key = [] then .ok default
  else match parseBool (getenv key) with
    | none => .error (.notBoolean key (getenv key))
    | some b => .ok b

/-- `envIntOr` and `envInt64Or`. -/
def envIntOr (key : Str) (default : ℤ) : Except LoadError ℤ :=
  if getenv key = [] then .ok default
  else match parseInt false (getenv key) with
    | none => .error (.notInteger key (getenv key))
    | some n => .ok n

/-- The flag variables before `fs.Parse`: environment over defaults. -/
def defaults : Except LoadError FlagSet := do
  let metricsDisable ← envBoolOr getenv (str "KUBE_CONSOLE_METRICS_DISABLE") false
  let execDisable ← envBoolOr getenv (str "KUBE_CONSOLE_EXEC_DISABLE") false
  let useKubeconfigCreds ← envBoolOr getenv (str "KUBE_CONSOLE_USE_KUBECONFIG_CREDENTIALS") false
  let maxExecSessions ← envIntOr getenv (str "KUBE_CONSOLE_MAX_EXEC_SESSIONS") 10
  let maxExecPerIP ← envIntOr getenv (str "KUBE_CONSOLE_MAX_EXEC_HANDSHAKES_PER_IP") 0
  let maxBodyBytes ← envIntOr getenv (str "KUBE_CONSOLE_MAX_BODY_BYTES") (4 * 2 ^ 20)
  let rateLimit ← envIntOr getenv (str "KUBE_CONSOLE_RATE_LIMIT") 0
  let maxInFlight ← envIntOr getenv (str "KUBE_CONSOLE_MAX_IN_FLIGHT") 128
  return fun
    | .listen => envOr getenv (str "KUBE_CONSOLE_LISTEN_ADDR") (str ":8080")
    | .apiServer => getenv (str "KUBE_API_SERVER")
    | .caFile => getenv (str "KUBE_CA_FILE")
    | .kubeconfig => getenv (str "KUBE_CONSOLE_KUBECONFIG")
    | .context => getenv (str "KUBE_CONSOLE_KUBECONTEXT")
    | .clusterName => getenv (str "KUBE_CONSOLE_CLUSTER_NAME")
    | .useKubeconfigCredentials => useKubeconfigCreds
    | .metricsDisable => metricsDisable
    | .execDisable => execDisable
    | .maxExecSessions => maxExecSessions
    | .maxExecHandshakesPerIP => maxExecPerIP
    | .allowedOrigins => joinCSV (splitCSV (getenv (str "KUBE_CONSOLE_ALLOWED_ORIGINS")))
    | .maxBodyBytes => maxBodyBytes
    | .rateLimit => rateLimit
    | .maxInFlight => maxInFlight
    | .trustedProxies => joinCSV (splitCSV (getenv (str "KUBE_CONSOLE_TRUSTED_PROXIES")))
    | .logLevel => envOr getenv (str "KUBE_CONSOLE_LOG_LEVEL") (str "info")
    | .logFormat => envOr getenv (str "KUBE_CONSOLE_LOG_FORMAT") (str "text")
    | .version => false

end Env

/-- `isLoopbackListen`. -/
def isLoopbackListen (addr : Str) : Bool :=
  match splitHostPort addr with
  | none => false
  | some (host, _) =>
    host ≠ [] && (equalFoldAscii host (str "localhost") || (parseAddr host).any Addr.isLoopback)

namespace Config

/-- The configuration after `fs.Parse`. -/
def ofFlags (fs : FlagSet) : Config where
  listenAddr := fs .listen
  kubeAPIServer := fs .apiServer
  kubeCAFile := fs .caFile
  kubeconfig := fs .kubeconfig
  kubeContext := fs .context
  clusterName := trimSpace (fs .clusterName)
  useKubeconfigCredentials := fs .useKubeconfigCredentials
  metricsEnabled := !fs .metricsDisable
  execEnabled := !fs .execDisable
  maxExecSessions := fs .maxExecSessions
  maxExecHandshakesPerIP := fs .maxExecHandshakesPerIP
  allowedOrigins := splitCSV (fs .allowedOrigins)
  maxBodyBytes := fs .maxBodyBytes
  rateLimit := fs .rateLimit
  maxInFlight := fs .maxInFlight
  trustedProxies := splitCSV (fs .trustedProxies)
  logLevel := fs .logLevel
  logFormat := fs .logFormat

/-- `applyInClusterDefaults`. -/
def applyInClusterDefaults (m : Machine) (c : Config) : Config :=
  let host := m.getenv envServiceHost
  let port := m.getenv envServicePort
  if host = [] ∨ port = [] then c
  else
    let c := if c.kubeCAFile = [] ∧ m.caFileExists inClusterCAPath then
      { c with kubeCAFile := inClusterCAPath } else c
    if c.kubeAPIServer ≠ [] ∨ c.kubeconfig ≠ [] then c
    else { c with kubeAPIServer := str "https://" ++ joinHostPort host port }

/-- The loop of `validate` over the trusted proxies. -/
def checkProxies : List Str → Except ConfigError Unit
  | [] => .ok ()
  | p :: ps => if (parsePrefix p).isNone then .error (.trustedProxy p) else checkProxies ps

/-- The fences of `validate` around the mode that uses the kubeconfig's credentials. -/
def checkFences (getenv : Str → Str) (c : Config) : Except ConfigError Unit :=
  if c.useKubeconfigCredentials = false then .ok ()
  else if c.kubeAPIServer ≠ [] then .error .credentialsWithoutKubeconfig
  else if getenv envServiceHost ≠ [] then .error .credentialsInCluster
  else if isLoopbackListen c.listenAddr = false then .error (.credentialsListen c.listenAddr)
  else .ok ()

/-- `validate`. -/
def validate (getenv : Str → Str) (c : Config) : Except ConfigError Unit :=
  if c.maxExecSessions < 1 then .error (.execSessionsLow c.maxExecSessions)
  else if c.maxExecSessions > maxConcurrencyLimit then .error (.execSessionsHigh c.maxExecSessions)
  else if c.maxBodyBytes < 1 then .error (.bodyBytes c.maxBodyBytes)
  else if c.maxExecHandshakesPerIP < 0 then .error (.handshakesPerIP c.maxExecHandshakesPerIP)
  else if c.rateLimit < 0 then .error (.rateLimit c.rateLimit)
  else if c.maxInFlight < 0 then .error (.inFlightLow c.maxInFlight)
  else if c.maxInFlight > maxConcurrencyLimit then .error (.inFlightHigh c.maxInFlight)
  else if (runes 0 c.clusterName).length > maxClusterNameRunes then
    .error (.clusterNameLong (runes 0 c.clusterName).length)
  else if ∃ r ∈ runes 0 c.clusterName, r.1 < 0x20 ∨ r.1 = 0x7F then
    .error (.clusterNameControl c.clusterName)
  else do
    checkProxies c.trustedProxies
    checkFences getenv c

end Config

/-- `Load`. -/
def load (m : Machine) (args : List Str) : Except LoadError Config := do
  let fs ← defaults m.getenv
  let fs ← (fs.parse args).mapError .flag
  if fs .version then throw .versionRequested
  let c := (Config.ofFlags fs).applyInClusterDefaults m
  (c.validate m.getenv).mapError .invalid
  return c

/-! What passes the checks. -/

/-- The bounds of the limits, a printable name, proxies that are prefixes, and the fences of the
mode that uses the kubeconfig's credentials. -/
structure Config.Valid (getenv : Str → Str) (c : Config) : Prop where
  maxExecSessions : 1 ≤ c.maxExecSessions ∧ c.maxExecSessions ≤ maxConcurrencyLimit
  maxBodyBytes : 1 ≤ c.maxBodyBytes
  maxExecHandshakesPerIP : 0 ≤ c.maxExecHandshakesPerIP
  rateLimit : 0 ≤ c.rateLimit
  maxInFlight : 0 ≤ c.maxInFlight ∧ c.maxInFlight ≤ maxConcurrencyLimit
  clusterName : (runes 0 c.clusterName).length ≤ maxClusterNameRunes ∧
    ∀ r ∈ runes 0 c.clusterName, 0x20 ≤ r.1 ∧ r.1 ≠ 0x7F
  trustedProxies : ∀ p ∈ c.trustedProxies, (parsePrefix p).isSome
  fences : c.useKubeconfigCredentials → c.kubeAPIServer = [] ∧ getenv envServiceHost = [] ∧
    isLoopbackListen c.listenAddr

/-- A check is passed and the rest succeeds. -/
theorem reject_eq_ok {ε α : Type*} {p : Prop} [Decidable p] {e : ε} {x : Except ε α} {a : α} :
    (if p then .error e else x) = .ok a ↔ ¬p ∧ x = .ok a := by
  by_cases h : p <;> simp [h]

theorem andThen_eq_ok {ε α : Type} {x : Except ε Unit} {y : Except ε α} {a : α} :
    (do x; y) = .ok a ↔ x = .ok () ∧ y = .ok a := by
  cases x with
  | error e => simp [bind, Except.bind]
  | ok u => simp [bind, Except.bind]

theorem Config.checkProxies_eq_ok {ps : List Str} :
    checkProxies ps = .ok () ↔ ∀ p ∈ ps, (parsePrefix p).isSome := by
  induction ps with
  | nil => simp [checkProxies]
  | cons p ps ih => simp [checkProxies, reject_eq_ok, ih, Option.isSome_iff_ne_none]

theorem Config.checkFences_eq_ok {getenv : Str → Str} {c : Config} :
    checkFences getenv c = .ok () ↔ (c.useKubeconfigCredentials →
      c.kubeAPIServer = [] ∧ getenv envServiceHost = [] ∧ isLoopbackListen c.listenAddr) := by
  unfold checkFences
  cases c.useKubeconfigCredentials with
  | false => simp
  | true => simp only [Bool.true_eq_false, if_false, reject_eq_ok]; simp

theorem Config.validate_eq_ok {getenv : Str → Str} {c : Config} :
    c.validate getenv = .ok () ↔ c.Valid getenv := by
  unfold validate
  simp only [reject_eq_ok, andThen_eq_ok, checkProxies_eq_ok, checkFences_eq_ok]
  constructor
  · rintro ⟨h1, h2, h3, h4, h5, h6, h7, h8, h9, h10, h11⟩
    exact ⟨⟨by omega, by omega⟩, by omega, by omega, by omega, ⟨by omega, by omega⟩,
      ⟨by omega, fun r hr => ⟨not_lt.mp fun h => h9 ⟨r, hr, .inl h⟩, fun h => h9 ⟨r, hr, .inr h⟩⟩⟩,
      h10, h11⟩
  · rintro ⟨⟨h1, h2⟩, h3, h4, h5, ⟨h6, h7⟩, ⟨h8, h9⟩, h10, h11⟩
    refine ⟨by omega, by omega, by omega, by omega, by omega, by omega, by omega, by omega, ?_,
      h10, h11⟩
    rintro ⟨r, hr, h | h⟩
    · exact absurd (h9 r hr).1 (by omega)
    · exact (h9 r hr).2 h

/-! Environment over defaults, flags over both. -/

namespace Flag

/-- The environment variable behind a flag. -/
def envKey : Flag → Str
  | listen => str "KUBE_CONSOLE_LISTEN_ADDR"
  | apiServer => str "KUBE_API_SERVER"
  | caFile => str "KUBE_CA_FILE"
  | kubeconfig => str "KUBE_CONSOLE_KUBECONFIG"
  | context => str "KUBE_CONSOLE_KUBECONTEXT"
  | clusterName => str "KUBE_CONSOLE_CLUSTER_NAME"
  | useKubeconfigCredentials => str "KUBE_CONSOLE_USE_KUBECONFIG_CREDENTIALS"
  | metricsDisable => str "KUBE_CONSOLE_METRICS_DISABLE"
  | execDisable => str "KUBE_CONSOLE_EXEC_DISABLE"
  | maxExecSessions => str "KUBE_CONSOLE_MAX_EXEC_SESSIONS"
  | maxExecHandshakesPerIP => str "KUBE_CONSOLE_MAX_EXEC_HANDSHAKES_PER_IP"
  | allowedOrigins => str "KUBE_CONSOLE_ALLOWED_ORIGINS"
  | maxBodyBytes => str "KUBE_CONSOLE_MAX_BODY_BYTES"
  | rateLimit => str "KUBE_CONSOLE_RATE_LIMIT"
  | maxInFlight => str "KUBE_CONSOLE_MAX_IN_FLIGHT"
  | trustedProxies => str "KUBE_CONSOLE_TRUSTED_PROXIES"
  | logLevel => str "KUBE_CONSOLE_LOG_LEVEL"
  | logFormat => str "KUBE_CONSOLE_LOG_FORMAT"
  | version => []

def default : (f : Flag) → f.kind.Val
  | listen => str ":8080"
  | maxExecSessions => 10
  | maxBodyBytes => 4 * 2 ^ 20
  | maxInFlight => 128
  | maxExecHandshakesPerIP | rateLimit => 0
  | logLevel => str "info"
  | logFormat => str "text"
  | useKubeconfigCredentials | metricsDisable | execDisable | version => false
  | apiServer | caFile | kubeconfig | context | clusterName | allowedOrigins | trustedProxies => []

/-- What a text in the environment means to a flag. -/
def parseEnv : (f : Flag) → Str → Option f.kind.Val
  | allowedOrigins, s | trustedProxies, s => some (joinCSV (splitCSV s))
  | useKubeconfigCredentials, s | metricsDisable, s | execDisable, s | version, s => parseBool s
  | maxExecSessions, s | maxExecHandshakesPerIP, s | maxBodyBytes, s | rateLimit, s
  | maxInFlight, s => parseInt false s
  | listen, s | apiServer, s | caFile, s | kubeconfig, s | context, s | clusterName, s
  | logLevel, s | logFormat, s => some s

/-- The value of a flag that the command line does not set: the environment's, where there is
one, else the default. -/
def fromEnv (getenv : Str → Str) (f : Flag) : Option f.kind.Val :=
  if f = version ∨ getenv f.envKey = [] then some f.default else f.parseEnv (getenv f.envKey)

theorem fromEnv_eq {getenv : Str → Str} {f : Flag} (h : f ≠ version) : f.fromEnv getenv =
    if getenv f.envKey = [] then some f.default else f.parseEnv (getenv f.envKey) := by
  simp [fromEnv, h]

end Flag

section Precedence
variable {getenv : Str → Str} {m : Machine} {args : List Str} {c : Config}

theorem envBoolOr_ok {key : Str} {default b : Bool} : envBoolOr getenv key default = .ok b ↔
    (if getenv key = [] then some default else parseBool (getenv key)) = some b := by
  unfold envBoolOr
  split_ifs
  · simp
  · cases parseBool (getenv key) <;> simp

theorem envIntOr_ok {key : Str} {default n : ℤ} : envIntOr getenv key default = .ok n ↔
    (if getenv key = [] then some default else parseInt false (getenv key)) = some n := by
  unfold envIntOr
  split_ifs
  · simp
  · cases parseInt false (getenv key) <;> simp

/-- A step of a computation that succeeds has succeeded. -/
theorem bind_ok {ε : Type*} {α β : Type} {x : Except ε α} {f : α → Except ε β} {b : β}
    (h : (x >>= f) = .ok b) : ∃ a, x = .ok a ∧ f a = .ok b := by
  cases x with
  | error e => cases h
  | ok a => exact ⟨a, rfl, h⟩

theorem mapError_ok {ε ε' α : Type*} {x : Except ε α} {f : ε → ε'} {a : α} :
    x.mapError f = .ok a ↔ x = .ok a := by
  cases x <;> simp [Except.mapError]

theorem defaults_eq {fs : FlagSet} (h : defaults getenv = .ok fs) (f : Flag) :
    f.fromEnv getenv = some (fs f) := by
  obtain ⟨metricsDisable, h1, h⟩ := bind_ok h
  obtain ⟨execDisable, h2, h⟩ := bind_ok h
  obtain ⟨useKubeconfigCreds, h3, h⟩ := bind_ok h
  obtain ⟨maxExecSessions, h4, h⟩ := bind_ok h
  obtain ⟨maxExecPerIP, h5, h⟩ := bind_ok h
  obtain ⟨maxBodyBytes, h6, h⟩ := bind_ok h
  obtain ⟨rateLimit, h7, h⟩ := bind_ok h
  obtain ⟨maxInFlight, h8, h⟩ := bind_ok h
  cases h
  have hstring (key default : Str) : (if getenv key = [] then some default else some (getenv key)) =
      some (envOr getenv key default) := by
    unfold envOr
    split_ifs <;> simp_all
  have hraw (key : Str) : (if getenv key = [] then some [] else some (getenv key)) =
      some (getenv key) := by
    split_ifs <;> simp_all
  have hlist (key : Str) : (if getenv key = [] then some [] else
      some (joinCSV (splitCSV (getenv key)))) = some (joinCSV (splitCSV (getenv key))) := by
    split_ifs with hk
    · simp [hk, splitCSV, joinCSV]
    · rfl
  cases f with
  | metricsDisable => exact (Flag.fromEnv_eq (by decide)).trans (envBoolOr_ok.mp h1)
  | execDisable => exact (Flag.fromEnv_eq (by decide)).trans (envBoolOr_ok.mp h2)
  | useKubeconfigCredentials => exact (Flag.fromEnv_eq (by decide)).trans (envBoolOr_ok.mp h3)
  | maxExecSessions => exact (Flag.fromEnv_eq (by decide)).trans (envIntOr_ok.mp h4)
  | maxExecHandshakesPerIP => exact (Flag.fromEnv_eq (by decide)).trans (envIntOr_ok.mp h5)
  | maxBodyBytes => exact (Flag.fromEnv_eq (by decide)).trans (envIntOr_ok.mp h6)
  | rateLimit => exact (Flag.fromEnv_eq (by decide)).trans (envIntOr_ok.mp h7)
  | maxInFlight => exact (Flag.fromEnv_eq (by decide)).trans (envIntOr_ok.mp h8)
  | version => simp [Flag.fromEnv, Flag.default]
  | listen | logLevel | logFormat => exact (Flag.fromEnv_eq (by decide)).trans (hstring _ _)
  | allowedOrigins | trustedProxies => exact (Flag.fromEnv_eq (by decide)).trans (hlist _)
  | apiServer | caFile | kubeconfig | context | clusterName =>
    exact (Flag.fromEnv_eq (by decide)).trans (hraw _)

/-- Where the environment can be read for every flag, there are defaults. -/
theorem defaults_ok (h : ∀ f : Flag, ∃ v, f.fromEnv getenv = some v) :
    ∃ fs, defaults getenv = .ok fs := by
  have hbool (f : Flag) (hf : f ≠ .version) : ∃ v, (if getenv f.envKey = [] then some f.default
      else f.parseEnv (getenv f.envKey)) = some v := by
    obtain ⟨v, hv⟩ := h f
    exact ⟨v, (Flag.fromEnv_eq hf).symm.trans hv⟩
  obtain ⟨v1, h1⟩ := hbool .metricsDisable (by decide)
  obtain ⟨v2, h2⟩ := hbool .execDisable (by decide)
  obtain ⟨v3, h3⟩ := hbool .useKubeconfigCredentials (by decide)
  obtain ⟨v4, h4⟩ := hbool .maxExecSessions (by decide)
  obtain ⟨v5, h5⟩ := hbool .maxExecHandshakesPerIP (by decide)
  obtain ⟨v6, h6⟩ := hbool .maxBodyBytes (by decide)
  obtain ⟨v7, h7⟩ := hbool .rateLimit (by decide)
  obtain ⟨v8, h8⟩ := hbool .maxInFlight (by decide)
  have h1 := envBoolOr_ok.mpr h1
  have h2 := envBoolOr_ok.mpr h2
  have h3 := envBoolOr_ok.mpr h3
  have h4 := envIntOr_ok.mpr h4
  have h5 := envIntOr_ok.mpr h5
  have h6 := envIntOr_ok.mpr h6
  have h7 := envIntOr_ok.mpr h7
  have h8 := envIntOr_ok.mpr h8
  simp only [Flag.envKey, Flag.default] at h1 h2 h3 h4 h5 h6 h7 h8
  unfold defaults
  rw [h1, h2, h3, h4, h5, h6, h7, h8]
  exact ⟨_, rfl⟩

/-- The configuration a command line and an environment give: each flag has the value of its
last setting, else what the environment says, else its default; what comes of that, completed in
a pod, passes the checks. The process starts with that one and with no other. -/
theorem load_eq_ok_iff : load m args = .ok c ↔
    ∃ (l : List Setting) (fs : FlagSet), settings args = .ok l ∧
      (∀ f, ∃ v, f.fromEnv m.getenv = some v ∧ fs f = (lastSetting f l).getD v) ∧
      fs .version = false ∧ c = (Config.ofFlags fs).applyInClusterDefaults m ∧
      c.Valid m.getenv := by
  constructor
  · intro h
    obtain ⟨fs₀, h0, h⟩ := bind_ok h
    obtain ⟨fs, hparse, h⟩ := bind_ok h
    have hparse := mapError_ok.mp hparse
    rw [FlagSet.parse_eq] at hparse
    cases hl : settings args with
    | error e => simp [hl, Except.map] at hparse
    | ok l =>
      rw [hl] at hparse
      cases hparse
      split at h
      · cases h
      next hversion =>
        obtain ⟨u, hval, h⟩ := bind_ok h
        cases h
        exact ⟨l, setAll fs₀ l, rfl, fun f => ⟨fs₀ f, defaults_eq h0 f, setAll_apply fs₀ l f⟩,
          by simpa using hversion, rfl, Config.validate_eq_ok.mp (mapError_ok.mp hval)⟩
  · rintro ⟨l, fs, hl, hfs, hversion, rfl, hvalid⟩
    obtain ⟨fs₀, h0⟩ := defaults_ok fun f => (hfs f).imp fun _ => And.left
    have heq : setAll fs₀ l = fs := by
      funext f
      obtain ⟨v, hv, hf⟩ := hfs f
      rw [setAll_apply, hf, Option.some.inj ((defaults_eq h0 f).symm.trans hv)]
    have hparse : (fs₀.parse args).mapError LoadError.flag = .ok fs := by
      rw [mapError_ok, FlagSet.parse_eq, hl, ← heq]
      rfl
    have hval := mapError_ok (f := LoadError.invalid).mpr (Config.validate_eq_ok.mpr hvalid)
    unfold load
    rw [h0]
    show (((fs₀.parse args).mapError LoadError.flag) >>= _) = _
    rw [hparse]
    show (if fs .version = true then _ else _) = _
    rw [hversion]
    show (Except.mapError LoadError.invalid _ >>= _) = _
    rw [hval]
    rfl

end Precedence

end KubeConsole.Startup
