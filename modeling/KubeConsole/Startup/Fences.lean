import KubeConsole.Gateway.Identity
import KubeConsole.Startup.Load

/-!
From a command line to a server (`main`, `server.Run`): the upstreams are built as the
configuration asks or the process does not start, and where they authenticate by themselves
the listener and the `Host` header are confined to the loopback interface.
-/
namespace KubeConsole.Startup
open KubeConsole.Go KubeConsole.Kube KubeConsole.Gateway

/-- `strings.TrimSuffix`. -/
def trimSuffix (s t : Str) : Str := if t <:+ s then s.take (s.length - t.length) else s

/-- What both fences ask of a name: `localhost` or a loopback address. -/
def loopbackName (name : Str) : Bool :=
  equalFoldAscii name (str "localhost") || (parseAddr name).any Addr.isLoopback

/-- `isLoopbackHost`. -/
def isLoopbackHost (host : Str) : Bool :=
  let name := match splitHostPort host with
    | some (h, _) => h
    | none => host
  equalFoldAscii name (str "localhost") ||
    (parseAddr (trimSuffix (trimPrefix name (str "[")) (str "]"))).any Addr.isLoopback

/-- The fields of the configuration that choose the upstreams. -/
def Config.upstreams (c : Config) : Kube.Config where
  kubeAPIServer := c.kubeAPIServer
  kubeCAFile := c.kubeCAFile
  kubeContext := c.kubeContext
  useKubeconfigCredentials := c.useKubeconfigCredentials

/-- What `NewHandler` is given. -/
structure Serving where
  cfg : Config
  registry : Registry

/-- Why the process does not serve. -/
inductive RunError where
  | load (e : LoadError)
  | start (e : StartError)
  /-- the credentials asked for are not the ones the default context was built with -/
  | mode (asked : Bool) (defaultName : Str)
  deriving DecidableEq, Repr

section
variable (dropUserinfo : Str → Str) (newUpstream : RestConfig → Option URL)

/-- `Run` up to `ListenAndServe`. -/
def run (cfg : Config) (raw : Kubeconfig) : Except RunError Serving := do
  let (configs, defaultName) ← (restConfigs dropUserinfo cfg.upstreams raw).mapError .start
  let registry ← (newRegistry newUpstream configs defaultName).mapError .start
  if registry.useConfigCreds ≠ cfg.useKubeconfigCredentials then
    throw (.mode cfg.useKubeconfigCredentials defaultName)
  return ⟨cfg, registry⟩

/-- `main`: `kubeconfig` is what `clientcmd` loads for a configuration. -/
def start (m : Machine) (kubeconfig : Config → Kubeconfig) (args : List Str) :
    Except RunError Serving := do
  let cfg ← (load m args).mapError .load
  run dropUserinfo newUpstream cfg (kubeconfig cfg)

end

/-- What `RequireLoopbackHost` answers. -/
def loopbackOnly : HttpError :=
  ⟨403, "Forbidden", "kube-console is reachable on loopback names only in this mode"⟩

/-- `RequireLoopbackHost` around a handler, mounted where the upstreams authenticate by
themselves. -/
def Serving.handle {α : Type} (s : Serving) (host : Str) (next : Except HttpError α) :
    Except HttpError α :=
  if s.registry.useConfigCreds ∧ isLoopbackHost host = false then .error loopbackOnly else next

/-! The two fences ask the same. -/

section Names
variable {name port : Str}

theorem trim_brackets (hopen : chr '[' ∉ name) (hclose : chr ']' ∉ name) :
    trimSuffix (trimPrefix name (str "[")) (str "]") = name := by
  have hprefix : ¬str "[" <+: name := fun h => hopen (h.subset (by decide))
  have hsuffix : ¬str "]" <:+ name := fun h => hclose (h.subset (by decide))
  rw [trimPrefix, if_neg hprefix, trimSuffix, if_neg hsuffix]

theorem isLoopbackHost_of_split {host : Str} (h : splitHostPort host = some (name, port)) :
    isLoopbackHost host = loopbackName name := by
  obtain ⟨hopen, hclose⟩ := splitHostPort_eq_some h
  simp only [isLoopbackHost, loopbackName, h]
  rw [trim_brackets hopen hclose]

/-- The address the process listens on is one its own `Host` check lets pass. -/
theorem isLoopbackHost_of_listen {addr : Str} (h : isLoopbackListen addr = true) :
    isLoopbackHost addr = true := by
  unfold isLoopbackListen at h
  split at h
  · cases h
  next host port hsplit =>
    rw [isLoopbackHost_of_split hsplit]
    exact (Bool.and_eq_true_iff.mp h).2

theorem parseIPv4Fields_chars {s : Str} (h : (parseIPv4Fields s).isSome) :
    ∀ b ∈ s, isDigit b ∨ b = chr '.' := by
  have hoctet (t : Str) (n : ℕ) (ht : parseOctet t = some n) : ∀ b ∈ t, isDigit b := by
    unfold parseOctet at ht
    split_ifs at ht with hcond
    exact List.all_eq_true.mp hcond.2.1
  have hjoin : [chr '.'].intercalate (s.splitOn (chr '.')) = s :=
    List.intercalate_splitOn (chr '.')
  unfold parseIPv4Fields at h
  split at h
  next a b c d hsplit =>
    rw [hsplit] at hjoin
    obtain ⟨v, hv⟩ := Option.isSome_iff_exists.mp h
    simp only [Option.bind_eq_bind, Option.bind_eq_some_iff] at hv
    obtain ⟨va, ha, vb, hb, vc, hc, vd, hd, -⟩ := hv
    intro x hx
    rw [← hjoin] at hx
    simp only [List.intercalate, List.intersperse, List.flatten_cons, List.flatten_nil,
      List.mem_append, List.mem_singleton, List.append_nil] at hx
    rcases hx with hx | hx | hx | hx | hx | hx | hx
    · exact .inl (hoctet a va ha x hx)
    · exact .inr hx
    · exact .inl (hoctet b vb hb x hx)
    · exact .inr hx
    · exact .inl (hoctet c vc hc x hx)
    · exact .inr hx
    · exact .inl (hoctet d vd hd x hx)
  · cases h

/-- A name without a colon is an address only where it is made of digits and dots. -/
theorem parseAddr_chars (hcolon : chr ':' ∉ name) (h : (parseAddr name).isSome) :
    ∀ b ∈ name, isDigit b ∨ b = chr '.' := by
  unfold parseAddr at h
  split at h
  · cases h
  next b hfind =>
    split_ifs at h with h1 h2
    · exact parseIPv4Fields_chars (by simpa using h)
    · exact absurd (h2 ▸ List.mem_of_find?_eq_some hfind) hcolon
    · cases h

/-- A name that could be registered: no address literal, and not `localhost`. -/
structure Registrable (name : Str) : Prop where
  noPort : ∀ b ∈ str ":[]", b ∉ name
  notAddress : ∃ b ∈ name, ¬isDigit b ∧ b ≠ chr '.'
  notLocalhost : equalFoldAscii name (str "localhost") = false

theorem Registrable.loopbackName (h : Registrable name) : loopbackName name = false := by
  obtain ⟨b, hb, hdigit, hdot⟩ := h.notAddress
  have hnone : parseAddr name = none := by
    by_contra hne
    rcases parseAddr_chars (h.noPort _ (by decide)) (Option.isSome_iff_ne_none.mpr hne) b hb with
      hd | hd
    · exact hdigit hd
    · exact hdot hd
  simp [Startup.loopbackName, hnone, h.notLocalhost]

/-- Whatever port it comes with, such a name does not pass the `Host` check. -/
theorem Registrable.not_isLoopbackHost (h : Registrable name) (hport : ∀ b ∈ port, b ∉ str ":[]") :
    isLoopbackHost name = false ∧ isLoopbackHost (joinHostPort name port) = false := by
  have hopen := h.noPort (chr '[') (by decide)
  have hclose := h.noPort (chr ']') (by decide)
  have hcolon := h.noPort (chr ':') (by decide)
  refine ⟨?_, ?_⟩
  · have hsplit : splitHostPort name = none := by
      have hdrop : name.rdropWhile (· ≠ chr ':') = [] := by
        rw [List.rdropWhile_eq_nil_iff]
        intro b hb
        simpa using ne_of_mem_of_not_mem hb hcolon
      simp only [splitHostPort, hdrop]
      simp
    have hname := h.loopbackName
    simp only [isLoopbackHost, hsplit]
    rwa [trim_brackets hopen hclose]
  · rw [isLoopbackHost_of_split (splitHostPort_joinHostPort hopen hclose hport)]
    exact h.loopbackName

end Names

/-! What a process that serves is like. -/

/-- No upstream holds a credential; what goes upstream for a client carries the client's own. -/
structure CredentialFree (t : CaseTable) (s : Serving) : Prop where
  mode : s.registry.useConfigCreds = false
  anonymous : ∀ name up, s.registry.get name = some up → up.restConfig.Anonymous
  identity : ClientIdentity t s.registry

/-- The upstreams have credentials of their own, outside of a pod and behind a listener and a
`Host` check that only the machine itself can get past. -/
structure Fenced (t : CaseTable) (m : Machine) (s : Serving) : Prop where
  mode : s.registry.useConfigCreds = true
  notInPod : m.getenv envServiceHost = []
  fromKubeconfig : s.cfg.kubeAPIServer = []
  listener : isLoopbackListen s.cfg.listenAddr = true
  answersItself : isLoopbackHost s.cfg.listenAddr = true
  forbidden : ∀ {α : Type} (name port : Str) (next : Except HttpError α), Registrable name →
    (∀ b ∈ port, b ∉ str ":[]") → s.handle name next = .error loopbackOnly ∧
      s.handle (joinHostPort name port) next = .error loopbackOnly
  identity : OwnIdentity t s.registry

section
variable {dropUserinfo : Str → Str} {newUpstream : RestConfig → Option URL} {m : Machine}
  {kubeconfig : Config → Kubeconfig} {args : List Str} {s : Serving}

theorem run_ok {cfg : Config} {raw : Kubeconfig}
    (h : run dropUserinfo newUpstream cfg raw = .ok s) : s.cfg = cfg ∧ s.registry.Uniform ∧
      s.registry.useConfigCreds = cfg.useKubeconfigCredentials := by
  obtain ⟨⟨configs, defaultName⟩, hconfigs, h⟩ := bind_ok h
  obtain ⟨reg, hreg, h⟩ := bind_ok h
  have huniform := newRegistry_uniform (mapError_ok.mp hconfigs) (mapError_ok.mp hreg)
  split at h
  · cases h
  next hmode =>
    cases h
    exact ⟨rfl, huniform, not_not.mp hmode⟩

/-- A developer's machine with nothing in its environment. -/
def bareMachine : Machine := ⟨fun _ => [], fun _ => false⟩

def devArgs : List Str :=
  [str "-use-kubeconfig-credentials", str "--listen", str "LocalHost:0", str "--listen=[::1]:8080"]

end

end KubeConsole.Startup
