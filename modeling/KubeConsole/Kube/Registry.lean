import KubeConsole.Go.Header
import KubeConsole.Go.URL

/-!
The upstreams the backend speaks to, one for each context, and how a request gets
its upstream and its credential (`internal/kube`).

In the mode that uses the kubeconfig's credentials an upstream authenticates by
itself; in the other its configuration is anonymous and each request brings a
bearer token.
-/
namespace KubeConsole.Kube
open KubeConsole.Go

/-- The fields of `rest.Config` that name the server and authenticate to it. -/
structure RestConfig where
  host : Str
  caFile : Str := []
  bearerToken : Str := []
  username : Str := []
  password : Str := []
  clientCert : Str := []
  impersonate : Str := []
  execProvider : Option Str := none
  deriving DecidableEq, Repr

/-- `rest.AnonymousClientConfig`. -/
def anonymousClientConfig (rc : RestConfig) : RestConfig := { host := rc.host, caFile := rc.caFile }

/-- The configuration carries no credential. -/
def RestConfig.Anonymous (rc : RestConfig) : Prop := rc = anonymousClientConfig rc

structure NamedConfig where
  name : Str
  config : RestConfig
  useCredentials : Bool
  deriving DecidableEq, Repr

/-- The fields of `config.Config` that choose the upstreams. -/
structure Config where
  kubeAPIServer : Str := []
  kubeCAFile : Str := []
  kubeContext : Str := []
  useKubeconfigCredentials : Bool := false
  deriving DecidableEq, Repr

/-- A loaded kubeconfig: its contexts in the order of their names, each with its
client config where it has a usable one. -/
structure Kubeconfig where
  contexts : List (Str × Option RestConfig)
  currentContext : Str
  deriving DecidableEq, Repr

inductive StartError where
  | noKubeconfig
  | noCurrentContext
  | contextNotFound (name : Str)
  | contextUnusable (name : Str)
  | noUsableContexts
  | defaultUnusable (name : Str)
  deriving DecidableEq, Repr

/-- `anonymize`; `dropUserinfo` is `stripHostCredentials` on the host. -/
def anonymize (dropUserinfo : Str → Str) (rc : RestConfig) : RestConfig :=
  let anon := anonymousClientConfig rc
  { anon with host := dropUserinfo anon.host }

/-- `keepUserCredentials`. -/
def keepUserCredentials (dropUserinfo : Str → Str) (rc : RestConfig) : RestConfig :=
  { rc with host := dropUserinfo rc.host }

/-- The context `RESTConfigs` starts with: `--context`, else the kubeconfig's own. -/
def defaultContext (cfg : Config) (raw : Kubeconfig) : Str :=
  if cfg.kubeContext = [] then raw.currentContext else cfg.kubeContext

/-- The loop of `RESTConfigs`: every usable context, all prepared in one way. -/
def kubeconfigConfigs (dropUserinfo : Str → Str) (cfg : Config) (raw : Kubeconfig) :
    List NamedConfig :=
  raw.contexts.filterMap fun c => c.2.map fun rc =>
    ⟨c.1, if cfg.useKubeconfigCredentials then keepUserCredentials dropUserinfo rc
      else anonymize dropUserinfo rc, cfg.useKubeconfigCredentials⟩

/-- The one configuration of an explicit `--api-server`. -/
def apiServerConfig (dropUserinfo : Str → Str) (cfg : Config) : NamedConfig where
  name := if cfg.kubeContext = [] then str "default" else cfg.kubeContext
  config := anonymize dropUserinfo { host := cfg.kubeAPIServer, caFile := cfg.kubeCAFile }
  useCredentials := false

/-- `RESTConfigs`: the configurations of the reachable upstreams and the name of the
default one. -/
def restConfigs (dropUserinfo : Str → Str) (cfg : Config) (raw : Kubeconfig) :
    Except StartError (List NamedConfig × Str) :=
  if cfg.kubeAPIServer ≠ [] then
    .ok ([apiServerConfig dropUserinfo cfg], (apiServerConfig dropUserinfo cfg).name)
  else if raw.contexts = [] then .error .noKubeconfig
  else if defaultContext cfg raw = [] then .error .noCurrentContext
  else if !(raw.contexts.map Prod.fst).contains (defaultContext cfg raw) then
    .error (.contextNotFound (defaultContext cfg raw))
  else if raw.contexts.contains (defaultContext cfg raw, none) then
    .error (.contextUnusable (defaultContext cfg raw))
  else if kubeconfigConfigs dropUserinfo cfg raw = [] then .error .noUsableContexts
  else .ok (kubeconfigConfigs dropUserinfo cfg raw, defaultContext cfg raw)

structure Upstream where
  baseURL : URL
  restConfig : RestConfig
  /-- The transport authenticates by itself. -/
  useConfigCredentials : Bool
  deriving DecidableEq, Repr

structure Registry where
  names : List Str
  byName : Finmap fun _ : Str => Upstream
  default : Str
  useConfigCreds : Bool

/-- The upstreams of `NewRegistry` after its loop, where `newUpstream` builds the
base URL and the transport of a configuration or fails. -/
def registerAll (newUpstream : RestConfig → Option URL) (defaultName : Str) :
    List NamedConfig → Registry → Except StartError Registry
  | [], reg => .ok reg
  | nc :: configs, reg =>
    match newUpstream nc.config with
    | none =>
      if nc.name = defaultName then .error (.contextUnusable nc.name)
      else registerAll newUpstream defaultName configs reg
    | some base =>
      registerAll newUpstream defaultName configs { reg with
        names := reg.names ++ [nc.name]
        byName := reg.byName.insert nc.name ⟨base, nc.config, nc.useCredentials⟩ }

/-- `NewRegistry`, given what `RESTConfigs` returned. -/
def newRegistry (newUpstream : RestConfig → Option URL) (configs : List NamedConfig)
    (defaultName : Str) : Except StartError Registry :=
  match registerAll newUpstream defaultName configs ⟨[], ∅, defaultName, false⟩ with
  | .error e => .error e
  | .ok reg =>
    match reg.byName.lookup defaultName with
    | none => .error (.defaultUnusable defaultName)
    | some up => .ok { reg with useConfigCreds := up.useConfigCredentials }

/-- `ContextHeader`. -/
def contextHeader : Str := str "X-Kube-Context"

/-- What an HTTP handler answers instead of going upstream. -/
structure HttpError where
  status : ℕ
  reason : String
  message : String
  deriving DecidableEq, Repr

def unknownContextMessage : String := "unknown cluster context"

/-- `ExtractBearer`. -/
def extractBearer (h : Header) : Str :=
  let auth := h.get (str "Authorization")
  let scheme := str "bearer "
  if auth = [] then []
  else if auth.length ≤ scheme.length || !equalFold (auth.take scheme.length) scheme then []
  else
    let token := trimSpace (auth.drop scheme.length)
    if token = [] ∨ ∃ b ∈ token, b ∈ str " \t" then [] else token

namespace Registry

/-- `Registry.Get`. -/
def get (reg : Registry) (name : Str) : Option Upstream := reg.byName.lookup name

/-- `Registry.Resolve`: the upstream of a context and the context's name. -/
def resolve (reg : Registry) (name : Str) : Option (Upstream × Str) :=
  let name := if name = [] then reg.default else name
  (reg.get name).map fun up => (up, name)

/-- `Registry.ResolveRequest`. -/
def resolveRequest (reg : Registry) (h : Header) : Except HttpError (Upstream × Str) :=
  match reg.resolve (h.get contextHeader) with
  | some r => .ok r
  | none => .error ⟨400, "BadRequest", unknownContextMessage⟩

/-- `Registry.RequireToken`. -/
def requireToken (reg : Registry) (h : Header) : Except HttpError Str :=
  if reg.useConfigCreds then .ok []
  else if extractBearer h = [] then .error ⟨401, "Unauthorized", "missing bearer token"⟩
  else .ok (extractBearer h)

end Registry

/-- `WithBearer`: the headers its round tripper sends. -/
def withBearer (token : Str) (h : Header) : Header :=
  h.set (str "Authorization") (str "Bearer " ++ token)

/-- `Upstream.RoundTripper`: the headers that reach the upstream's own transport. -/
def Upstream.roundTripper (up : Upstream) (token : Str) (h : Header) : Header :=
  if up.useConfigCredentials then h else withBearer token h

/-- `Do`: the headers of the upstream request. -/
def do_ (up : Upstream) (token : Str) (header : Header) : Header := up.roundTripper token header

/-- How every adapter goes upstream for a request with headers `h`: it asks for the
token, then for the context, and sends headers of its own. -/
def onBehalf (reg : Registry) (h header : Header) : Except HttpError (Str × Header) := do
  let token ← reg.requireToken h
  let (up, name) ← reg.resolveRequest h
  return (name, do_ up token header)

/-! One mode for all upstreams. -/

/-- Every upstream authenticates the way the registry says, and one that does not use
the credentials of its configuration has none. -/
structure Registry.Uniform (reg : Registry) : Prop where
  mode : ∀ name up, reg.get name = some up → up.useConfigCredentials = reg.useConfigCreds
  anonymous : ∀ name up, reg.get name = some up → up.useConfigCredentials = false →
    up.restConfig.Anonymous

theorem anonymize_anonymous (dropUserinfo : Str → Str) (rc : RestConfig) :
    (anonymize dropUserinfo rc).Anonymous := rfl

/-- The configurations of one start are all prepared in one way. -/
theorem restConfigs_uniform {dropUserinfo : Str → Str} {cfg : Config} {raw : Kubeconfig}
    {configs : List NamedConfig} {defaultName : Str}
    (h : restConfigs dropUserinfo cfg raw = .ok (configs, defaultName)) :
    ∃ mode, ∀ nc ∈ configs, nc.useCredentials = mode ∧ (mode = false → nc.config.Anonymous) := by
  unfold restConfigs at h
  split_ifs at h
  · cases h
    refine ⟨false, fun nc hnc => ?_⟩
    rw [List.mem_singleton.mp hnc]
    exact ⟨rfl, fun _ => anonymize_anonymous _ _⟩
  · cases h
    refine ⟨cfg.useKubeconfigCredentials, fun nc hnc => ?_⟩
    obtain ⟨⟨name, rc⟩, -, hc⟩ := List.mem_filterMap.mp hnc
    obtain ⟨rc, -, rfl⟩ := Option.map_eq_some_iff.mp hc
    refine ⟨rfl, fun hm => ?_⟩
    simp only [hm, Bool.false_eq_true, if_false]
    exact anonymize_anonymous _ _

theorem registerAll_lookup {newUpstream : RestConfig → Option URL} {defaultName : Str}
    {configs : List NamedConfig} {reg reg' : Registry} {P : Upstream → Prop}
    (h : registerAll newUpstream defaultName configs reg = .ok reg')
    (hreg : ∀ name up, reg.get name = some up → P up)
    (hnew : ∀ nc ∈ configs, ∀ base, P ⟨base, nc.config, nc.useCredentials⟩) :
    ∀ name up, reg'.get name = some up → P up := by
  induction configs generalizing reg with
  | nil => cases h; exact hreg
  | cons nc configs ih =>
    have hrest := fun c hc => hnew c (List.mem_cons_of_mem _ hc)
    rw [registerAll] at h
    split at h
    · split at h
      · cases h
      · exact ih h hreg hrest
    next base _ =>
      refine ih h (fun name up hup => ?_) hrest
      by_cases hn : name = nc.name
      · subst hn
        obtain rfl := Option.some.inj ((Finmap.lookup_insert _).symm.trans hup)
        exact hnew nc List.mem_cons_self base
      · exact hreg name up ((Finmap.lookup_insert_of_ne _ hn).symm.trans hup)

/-- A registry as the backend starts with is uniform. -/
theorem newRegistry_uniform {dropUserinfo : Str → Str} {cfg : Config} {raw : Kubeconfig}
    {newUpstream : RestConfig → Option URL} {configs : List NamedConfig} {defaultName : Str}
    {reg : Registry} (hc : restConfigs dropUserinfo cfg raw = .ok (configs, defaultName))
    (h : newRegistry newUpstream configs defaultName = .ok reg) : reg.Uniform := by
  obtain ⟨mode, hmode⟩ := restConfigs_uniform hc
  unfold newRegistry at h
  split at h
  · cases h
  next reg' hall =>
    have hP := registerAll_lookup (P := fun up => up.useConfigCredentials = mode ∧
      (mode = false → up.restConfig.Anonymous)) hall (fun name up hup => by cases hup)
      fun nc hnc base => hmode nc hnc
    split at h
    · cases h
    next up hup =>
      cases h
      have hup := (hP _ _ hup).1
      exact ⟨fun name up' h' => (hP name up' h').1.trans hup.symm,
        fun name up' h' hf => (hP name up' h').2 ((hP name up' h').1.symm.trans hf)⟩

end KubeConsole.Kube
