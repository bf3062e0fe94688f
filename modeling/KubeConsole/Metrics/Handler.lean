import KubeConsole.Exec.Protocol
import KubeConsole.Theory.Threads

/-!
The metrics adapter (`internal/metrics`) up to the data it passes on: which upstream paths it
requests.

Requests are threads over the cache of API versions. A version comes out of a discovery
document that an aggregated API owns, a namespace or a name from the client, as any string.
-/
namespace KubeConsole.Metrics
open KubeConsole.Go KubeConsole.Kube KubeConsole.Exec KubeConsole.Theory

def versionCacheTTL : ℕ := 300000

def metricsGroup : Str := str "metrics.k8s.io"

def metricsGroupPath : Str := str "/apis/" ++ metricsGroup

/-! ## Strings that go into a path -/

def isDigit (b : UInt8) : Bool := chr '0' ≤ b && b ≤ chr '9'

/-- `[0-9]+` up to the end. -/
def isNumber (s : Str) : Bool := s ≠ [] && s.all isDigit

/-- What may follow the major version: `((alpha|beta)[0-9]+)?` up to the end. -/
def isStage (s : Str) : Bool :=
  s = [] || (str "alpha" <+: s && isNumber (s.drop 5)) || (str "beta" <+: s && isNumber (s.drop 4))

/-- `versionRe`. -/
def validVersion (v : Str) : Bool :=
  match v with
  | [] => false
  | b :: s => b = chr 'v' && s.takeWhile isDigit ≠ [] && isStage (s.dropWhile isDigit)

/-- `shouldEscape` in the mode `encodePathSegment`. -/
def shouldEscapeSegment (b : UInt8) : Bool := shouldEscape b || b ∈ str "/;,?"

/-- `url.PathEscape`. -/
def pathEscape (s : Str) : Str :=
  s.flatMap fun b =>
    if shouldEscapeSegment b then [chr '%', upperHex (b / 16), upperHex (b % 16)] else [b]

/-! ## Capabilities -/

structure APIGroup where
  preferredVersion : Str
  versions : List Str
  deriving DecidableEq, Repr

inductive CapabilityState where
  | available | notInstalled | forbidden | unavailable | disabled
  deriving DecidableEq, Repr

structure Capabilities where
  state : CapabilityState
  group : Str := []
  version : Str := []
  deriving DecidableEq, Repr

/-- What comes of a request upstream: a response, with the group that its body decodes to. -/
inductive Answer where
  | response (code : ℕ) (group : Option APIGroup)
  | failed
  deriving DecidableEq, Repr

/-- The version that a probe settles on. -/
def APIGroup.version (group : APIGroup) : Str :=
  if validVersion group.preferredVersion then group.preferredVersion
  else (group.versions.find? validVersion).getD []

/-- `probeCapabilities`, once the probe is answered; `none` is a 401. -/
def probeCapabilities : Answer → Option Capabilities
  | .failed => some { state := .unavailable }
  | .response code group =>
    if code = 200 then
      match group with
      | none => some { state := .unavailable }
      | some group =>
        if validVersion group.version then
          some { state := .available, group := metricsGroup, version := group.version }
        else some { state := .unavailable }
    else if code = 404 then some { state := .notInstalled }
    else if code = 403 then some { state := .forbidden }
    else if code = 401 then none
    else some { state := .unavailable }

/-- The versions that an answer to a probe names. -/
def Answer.reported : Answer → List Str
  | .response code (some group) =>
    if code = 200 then group.preferredVersion :: group.versions else []
  | _ => []

/-! ## Requests -/

inductive MetricsRequest where
  | capabilities
  | pods (namespace_ : Str)
  | pod (namespace_ name : Str)
  | nodes
  | node (name : Str)
  deriving DecidableEq, Repr

/-- The path below the version that a request for data asks for, and whether it is that of a
collection. -/
def MetricsRequest.subPath : MetricsRequest → Except HttpError (Str × Bool)
  | .capabilities => .ok ([], false)
  | .pods namespace_ =>
    if namespace_ ≠ [] && !isDNS1123Subdomain namespace_ then
      .error ⟨400, "BadRequest", "invalid namespace"⟩
    else if namespace_ ≠ [] then
      .ok (str "/namespaces/" ++ pathEscape namespace_ ++ str "/pods", true)
    else .ok (str "/pods", true)
  | .pod namespace_ name =>
    if !isDNS1123Subdomain namespace_ || !isDNS1123Subdomain name then
      .error ⟨400, "BadRequest", "invalid namespace or name"⟩
    else .ok (str "/namespaces/" ++ pathEscape namespace_ ++ str "/pods/" ++ pathEscape name, false)
  | .nodes => .ok (str "/nodes", true)
  | .node name =>
    if !isDNS1123Subdomain name then .error ⟨400, "BadRequest", "invalid node name"⟩
    else .ok (str "/nodes/" ++ pathEscape name, false)

structure CacheEntry where
  version : Str
  at_ : ℕ
  deriving DecidableEq, Repr

/-- The handler's cache and the time. The last two are a record: the versions that probes
reported and the paths that were requested, each with its context. -/
structure MetricsHandler where
  versions : Str → Option CacheEntry := fun _ => none
  now : ℕ := 0
  reports : List (Str × Str) := []
  requested : List (Str × Str) := []

inductive MetricsReply where
  | error (e : HttpError)
  | capabilities (c : Capabilities)
  /-- The upstream's own error. -/
  | upstream (code : ℕ)
  | data
  deriving DecidableEq, Repr

/-- The clock, or a request at one of its upstream calls. -/
inductive MetricsCall where
  | clock
  | called (request : MetricsRequest) (h : Header)
  | probingCapabilities (context : Str)
  | probing (context subPath : Str) (collection : Bool)
  | fetching (context : Str) (collection : Bool)
  | replied (reply : MetricsReply)

inductive MetricsEvent where
  | tick (ms : ℕ)
  | run
  | answer (a : Answer)

namespace MetricsHandler
variable (s : MetricsHandler)

def cachedGroupVersion (context : Str) : Str :=
  match s.versions context with
  | none => []
  | some entry => if versionCacheTTL < s.now - entry.at_ then [] else entry.version

def cacheGroupVersion (context version : Str) : MetricsHandler :=
  if version = [] then s
  else { s with versions := Function.update s.versions context (some ⟨version, s.now⟩) }

def dropGroupVersion (context : Str) : MetricsHandler :=
  { s with versions := Function.update s.versions context none }

/-- A request goes upstream. -/
def request (context path : Str) : MetricsHandler :=
  { s with requested := s.requested ++ [(context, path)] }

def report (context : Str) (a : Answer) : MetricsHandler :=
  { s with reports := s.reports ++ a.reported.map fun v => (context, v) }

/-- The rest of `fetch`, with its version. -/
def fetchVersion (context version subPath : Str) (collection : Bool) :
    MetricsHandler × MetricsCall :=
  (s.request context (metricsGroupPath ++ str "/" ++ version ++ subPath),
    .fetching context collection)

/-- `fetch` up to its first upstream call. -/
def fetch (reg : Registry) (enabled : Bool) (h : Header) (subPath : Str) (collection : Bool) :
    MetricsHandler × MetricsCall :=
  if !enabled then (s, .replied (.error ⟨404, "NotFound", "metrics adapter is disabled"⟩))
  else match reg.requireToken h with
    | .error e => (s, .replied (.error e))
    | .ok _ => match reg.resolveRequest h with
      | .error e => (s, .replied (.error e))
      | .ok (_, context) =>
        if s.cachedGroupVersion context = [] then
          (s.request context metricsGroupPath, .probing context subPath collection)
        else s.fetchVersion context (s.cachedGroupVersion context) subPath collection

/-- `Capabilities` up to its probe. -/
def capabilities (reg : Registry) (enabled : Bool) (h : Header) : MetricsHandler × MetricsCall :=
  if !enabled then (s, .replied (.capabilities { state := .disabled }))
  else match reg.requireToken h with
    | .error e => (s, .replied (.error e))
    | .ok _ => match reg.resolveRequest h with
      | .error e => (s, .replied (.error e))
      | .ok (_, context) => (s.request context metricsGroupPath, .probingCapabilities context)

def unauthorized : MetricsCall := .replied (.error ⟨401, "Unauthorized", "invalid or expired token"⟩)

/-- The rest of `Capabilities`. -/
def onCapabilities (context : Str) (a : Answer) : MetricsHandler × MetricsCall :=
  match probeCapabilities a with
  | none => (s, unauthorized)
  | some caps =>
    (if caps.state = .available then s.cacheGroupVersion context caps.version
      else s.dropGroupVersion context, .replied (.capabilities caps))

/-- `fetch` after its probe. -/
def onProbe (context subPath : Str) (collection : Bool) (a : Answer) :
    MetricsHandler × MetricsCall :=
  match probeCapabilities a with
  | none => (s, unauthorized)
  | some caps =>
    match caps.state with
    | .available =>
      (s.cacheGroupVersion context caps.version).fetchVersion context caps.version subPath collection
    | .notInstalled =>
      (s, .replied (.error ⟨404, "NotFound", "metrics.k8s.io is not installed"⟩))
    | .forbidden =>
      (s, .replied (.error ⟨403, "Forbidden", "access to metrics.k8s.io is forbidden"⟩))
    | _ =>
      (s, .replied (.error ⟨503, "ServiceUnavailable", "metrics.k8s.io is unavailable"⟩))

/-- `fetch` after its data request. -/
def onData (context : Str) (collection : Bool) : Answer → MetricsHandler × MetricsCall
  | .failed => (s, .replied (.error ⟨503, "ServiceUnavailable", "metrics.k8s.io is unreachable"⟩))
  | .response code _ =>
    if code ≠ 200 then
      (if code = 503 || collection && code = 404 then s.dropGroupVersion context else s,
        .replied (.upstream code))
    else (s, .replied .data)

def op (reg : Registry) (enabled : Bool) (s : MetricsHandler) :
    MetricsCall → MetricsEvent → Option (MetricsHandler × MetricsCall)
  | .clock, .tick ms => some ({ s with now := s.now + ms }, .clock)
  | .called .capabilities h, .run => some (s.capabilities reg enabled h)
  | .called request h, .run =>
    match request.subPath with
    | .error e => some (s, .replied (.error e))
    | .ok (subPath, collection) => some (s.fetch reg enabled h subPath collection)
  | .probingCapabilities context, .answer a => some ((s.report context a).onCapabilities context a)
  | .probing context subPath collection, .answer a =>
    some ((s.report context a).onProbe context subPath collection a)
  | .fetching context collection, .answer a => some (s.onData context collection a)
  | _, _ => none

end MetricsHandler

/-- The requests of any clients. -/
def metrics (reg : Registry) (enabled : Bool) :
    Program MetricsHandler MetricsCall (MetricsRequest × Header) MetricsEvent where
  start r := .called r.1 r.2
  op := MetricsHandler.op reg enabled

/-- Every interleaving from a new handler. -/
def metricsServer (reg : Registry) (enabled : Bool) :
    Machine (Pool MetricsHandler MetricsCall) (PoolAction (MetricsRequest × Header) MetricsEvent) :=
  (metrics reg enabled).pool ⟨{}, [.clock]⟩

/-! ## Names and versions -/

/-- A name: letters, digits, `-` and `.`, with a letter or digit at both ends. -/
def IsName (s : Str) : Prop :=
  (∃ b ∈ s.head?, alnum b = true) ∧ (∃ b ∈ s.getLast?, alnum b = true) ∧
    ∀ b ∈ s, alnum b = true ∨ b = chr '-' ∨ b = chr '.'

def Number (s : Str) : Prop := s ≠ [] ∧ ∀ b ∈ s, isDigit b = true

/-- `v[0-9]+((alpha|beta)[0-9]+)?`. -/
def IsVersion (v : Str) : Prop :=
  ∃ major stage, v = chr 'v' :: major ++ stage ∧ Number major ∧
    (stage = [] ∨ ∃ word minor, (word = str "alpha" ∨ word = str "beta") ∧
      stage = word ++ minor ∧ Number minor)

theorem isName_of_subdomain {s : Str} (h : isDNS1123Subdomain s = true) : IsName s := by
  unfold isDNS1123Subdomain dns1123 at h
  simp only [Bool.and_eq_true, List.all_eq_true, Bool.or_eq_true, decide_eq_true_eq,
    Option.any_eq_true] at h
  obtain ⟨⟨⟨hhead, hlast⟩, hall⟩, -⟩ := h
  refine ⟨hhead, hlast, fun b hb => ?_⟩
  rcases hall b hb with halnum | hinner
  · exact .inl halnum
  · rcases List.mem_cons.mp hinner with rfl | hinner
    · exact .inr (.inl rfl)
    · exact .inr (.inr (List.mem_singleton.mp hinner))

theorem number_of_isNumber {s : Str} (h : isNumber s = true) : Number s := by
  unfold isNumber at h
  rw [Bool.and_eq_true, decide_eq_true_eq, List.all_eq_true] at h
  exact h

theorem isVersion_of_valid {v : Str} (h : validVersion v = true) : IsVersion v := by
  unfold validVersion at h
  cases v with
  | nil => cases h
  | cons b s =>
    simp only [Bool.and_eq_true, decide_eq_true_eq] at h
    obtain ⟨⟨rfl, hmajor⟩, hstage⟩ := h
    refine ⟨s.takeWhile isDigit, s.dropWhile isDigit, ?_,
      ⟨hmajor, fun b hb => List.mem_takeWhile_imp hb⟩, ?_⟩
    · rw [List.cons_append, List.takeWhile_append_dropWhile]
    · unfold isStage at hstage
      simp only [Bool.or_eq_true, Bool.and_eq_true, decide_eq_true_eq] at hstage
      rcases hstage with (hnil | ⟨⟨minor, hword⟩, hminor⟩) | ⟨⟨minor, hword⟩, hminor⟩
      · exact .inl hnil
      · rw [← hword] at hminor
        exact .inr ⟨str "alpha", minor, .inl rfl, hword.symm, number_of_isNumber hminor⟩
      · rw [← hword] at hminor
        exact .inr ⟨str "beta", minor, .inr rfl, hword.symm, number_of_isNumber hminor⟩

theorem alnum_of_isDigit {b : UInt8} (h : isDigit b = true) : alnum b = true := by
  unfold alnum
  rw [Bool.or_eq_true]
  exact .inr h

theorem Number.last {s : Str} (h : Number s) (r : Str) : ∃ b ∈ (r ++ s).getLast?, alnum b = true := by
  refine ⟨s.getLast h.1, ?_, alnum_of_isDigit (h.2 _ (List.getLast_mem h.1))⟩
  rw [List.getLast?_append_of_ne_nil _ h.1]
  exact List.getLast?_eq_some_getLast h.1

/-- A version may stand where a name may. -/
theorem IsVersion.isName {v : Str} (h : IsVersion v) : IsName v := by
  obtain ⟨major, stage, rfl, hmajor, hstage⟩ := h
  have hletters : ∀ b ∈ str "alphabeta", alnum b = true := by decide +kernel
  refine ⟨⟨chr 'v', rfl, by decide⟩, ?_, fun b hb => .inl ?_⟩
  · rcases hstage with rfl | ⟨word, minor, -, rfl, hminor⟩
    · rw [List.append_nil]
      exact hmajor.last [chr 'v']
    · rw [← List.append_assoc]
      exact hminor.last _
  · rcases List.mem_append.mp hb with hb | hb
    · rcases List.mem_cons.mp hb with rfl | hb
      · decide
      · exact alnum_of_isDigit (hmajor.2 b hb)
    · rcases hstage with rfl | ⟨word, minor, hword, rfl, hminor⟩
      · cases hb
      · rcases List.mem_append.mp hb with hb | hb
        · refine hletters b ?_
          rcases hword with rfl | rfl
          · exact List.mem_append_left (str "beta") hb
          · exact List.mem_append_right (str "alpha") hb
        · exact alnum_of_isDigit (hminor.2 b hb)

theorem shouldEscapeSegment_eq_false {b : UInt8}
    (h : alnum b = true ∨ b = chr '-' ∨ b = chr '.') : shouldEscapeSegment b = false := by
  have hothers : ∀ c ∈ str "/;,?", alnum c = false ∧ c ≠ chr '-' ∧ c ≠ chr '.' := by
    decide +kernel
  have hnot : b ∉ str "/;,?" := by
    intro hb
    obtain ⟨halnum, hdash, hdot⟩ := hothers b hb
    rcases h with h | h | h
    · rw [halnum] at h
      cases h
    · exact hdash h
    · exact hdot h
  have hkept : shouldEscape b = false := by
    rcases h with h | rfl | rfl
    · unfold alnum at h
      unfold shouldEscape
      rcases Bool.or_eq_true_iff.mp h with h | h
      · simp [h]
      · simp [h]
    · decide
    · decide
  unfold shouldEscapeSegment
  rw [hkept, decide_eq_false hnot]
  rfl

/-- Nothing in a name is escaped. -/
theorem pathEscape_name {s : Str} (h : IsName s) : pathEscape s = s := by
  unfold pathEscape
  conv_rhs => rw [← List.flatMap_singleton' s]
  refine List.flatMap_congr fun b hb => ?_
  rw [shouldEscapeSegment_eq_false (h.2.2 b hb)]
  rfl

/-! ## Paths -/

/-- The segments below the group that a request may go to, where some versions are known. -/
inductive Segments (known : Str → Prop) : List Str → Prop where
  | probe : Segments known []
  | pods {v : Str} : known v → Segments known [v, str "pods"]
  | nodes {v : Str} : known v → Segments known [v, str "nodes"]
  | node {v name : Str} : known v → IsName name → Segments known [v, str "nodes", name]
  | namespacePods {v ns : Str} : known v → IsName ns →
    Segments known [v, str "namespaces", ns, str "pods"]
  | pod {v ns name : Str} : known v → IsName ns → IsName name →
    Segments known [v, str "namespaces", ns, str "pods", name]

/-- The path of some segments. -/
def joined (segs : List Str) : Str := segs.flatMap (chr '/' :: ·)

theorem Segments.mono {known known' : Str → Prop} (h : ∀ v, known v → known' v) {segs : List Str}
    (hsegs : Segments known segs) : Segments known' segs := by
  cases hsegs with
  | probe => exact .probe
  | pods hv => exact .pods (h _ hv)
  | nodes hv => exact .nodes (h _ hv)
  | node hv hname => exact .node (h _ hv) hname
  | namespacePods hv hns => exact .namespacePods (h _ hv) hns
  | pod hv hns hname => exact .pod (h _ hv) hns hname

theorem Segments.isName {known : Str → Prop} (h : ∀ v, known v → IsName v) {segs : List Str}
    (hsegs : Segments known segs) : ∀ seg ∈ segs, IsName seg := by
  have hword (w : String) (hw : isDNS1123Subdomain (str w) = true) : IsName (str w) :=
    isName_of_subdomain hw
  have hpods := hword "pods" (by decide)
  have hnodes := hword "nodes" (by decide)
  have hnamespaces := hword "namespaces" (by decide)
  have hnil := List.forall_mem_nil IsName
  cases hsegs with
  | probe => exact hnil
  | pods hv =>
    simp only [List.forall_mem_cons]
    exact ⟨h _ hv, hpods, hnil⟩
  | nodes hv =>
    simp only [List.forall_mem_cons]
    exact ⟨h _ hv, hnodes, hnil⟩
  | node hv hname =>
    simp only [List.forall_mem_cons]
    exact ⟨h _ hv, hnodes, hname, hnil⟩
  | namespacePods hv hns =>
    simp only [List.forall_mem_cons]
    exact ⟨h _ hv, hnamespaces, hns, hpods, hnil⟩
  | pod hv hns hname =>
    simp only [List.forall_mem_cons]
    exact ⟨h _ hv, hnamespaces, hns, hpods, hname, hnil⟩

/-- What may follow a version. -/
def IsSubPath (subPath : Str) : Prop :=
  ∀ (known : Str → Prop) (v : Str), known v → ∃ segs, Segments known segs ∧
    chr '/' :: v ++ subPath = joined segs

theorem subPath_ok {request : MetricsRequest} (hdata : request ≠ .capabilities) {subPath : Str}
    {collection : Bool} (h : request.subPath = .ok (subPath, collection)) : IsSubPath subPath := by
  intro known v hv
  cases request with
  | capabilities => exact absurd rfl hdata
  | pods ns =>
    simp only [MetricsRequest.subPath, Bool.and_eq_true, decide_eq_true_eq] at h
    split_ifs at h with hbad hns
    · cases h
      have hname : IsName ns := isName_of_subdomain (by simpa [hns] using hbad)
      rw [pathEscape_name hname]
      exact ⟨_, .namespacePods hv hname, by simp [joined, str, chr]⟩
    · cases h
      exact ⟨_, .pods hv, by simp [joined, str, chr]⟩
  | pod ns name =>
    simp only [MetricsRequest.subPath] at h
    split_ifs at h with hbad
    cases h
    simp only [Bool.or_eq_true, Bool.not_eq_true', not_or, Bool.not_eq_false] at hbad
    have hns := isName_of_subdomain hbad.1
    have hname := isName_of_subdomain hbad.2
    rw [pathEscape_name hns, pathEscape_name hname]
    exact ⟨_, .pod hv hns hname, by simp [joined, str, chr]⟩
  | nodes =>
    cases h
    exact ⟨_, .nodes hv, by simp [joined, str, chr]⟩
  | node name =>
    simp only [MetricsRequest.subPath] at h
    split_ifs at h with hbad
    cases h
    have hname : IsName name := isName_of_subdomain (by simpa using hbad)
    rw [pathEscape_name hname]
    exact ⟨_, .node hv hname, by simp [joined, str, chr]⟩

/-! ## What is requested -/

namespace MetricsHandler
variable {reg : Registry} {enabled : Bool} {s t : MetricsHandler} {context : Str}

/-- A version that a probe of this context reported. -/
def Reported (s : MetricsHandler) (context v : Str) : Prop :=
  IsVersion v ∧ (context, v) ∈ s.reports

/-- The path is one that the adapter may request in this context. -/
def MayRequest (s : MetricsHandler) (context path : Str) : Prop :=
  ∃ segs, Segments (s.Reported context) segs ∧ path = metricsGroupPath ++ joined segs

structure Known (s : MetricsHandler) : Prop where
  versions : ∀ context entry, s.versions context = some entry → s.Reported context entry.version
  requested : ∀ r ∈ s.requested, s.MayRequest r.1 r.2

theorem probeCapabilities_available {a : Answer} {caps : Capabilities}
    (h : probeCapabilities a = some caps) (hstate : caps.state = .available) :
    IsVersion caps.version ∧ caps.version ∈ a.reported := by
  cases a with
  | failed =>
    cases h
    cases hstate
  | response code group =>
    simp only [probeCapabilities] at h
    split_ifs at h with hcode
    · cases group with
      | none =>
        cases h
        cases hstate
      | some group =>
        simp only at h
        split_ifs at h with hvalid
        · cases h
          refine ⟨isVersion_of_valid hvalid, ?_⟩
          simp only [Answer.reported, if_pos hcode]
          unfold APIGroup.version at hvalid ⊢
          split_ifs with hpreferred
          · exact List.mem_cons_self
          · rw [if_neg hpreferred] at hvalid
            cases hfind : group.versions.find? validVersion with
            | none =>
              rw [hfind] at hvalid
              cases hvalid
            | some v => exact List.mem_cons_of_mem _ (List.mem_of_find?_eq_some hfind)
        · cases h
          cases hstate
    all_goals
      cases h
      cases hstate

/-- The path that a request holds while it is probing is one that may follow a version. -/
def Held : MetricsCall → Prop
  | .probing _ subPath _ => IsSubPath subPath
  | _ => True

/-- What an operation leaves. -/
def Leaves (r : MetricsHandler × MetricsCall) : Prop := r.1.Known ∧ Held r.2

namespace Known

theorem request (h : Known s) {path : Str} (hpath : s.MayRequest context path) :
    Known (s.request context path) where
  versions := h.versions
  requested r hr := by
    rcases List.mem_append.mp hr with hr | hr
    · exact h.requested r hr
    · rw [List.mem_singleton.mp hr]
      exact hpath

theorem mayProbe (s : MetricsHandler) (context : Str) : s.MayRequest context metricsGroupPath :=
  ⟨[], .probe, (List.append_nil _).symm⟩

theorem report (h : Known s) (context : Str) (a : Answer) : Known (s.report context a) := by
  have hmono (context' v : Str) (hv : s.Reported context' v) :
      (s.report context a).Reported context' v := ⟨hv.1, List.mem_append_left _ hv.2⟩
  refine ⟨fun context' entry he => hmono _ _ (h.versions context' entry he), fun r hr => ?_⟩
  obtain ⟨segs, hsegs, hpath⟩ := h.requested r hr
  exact ⟨segs, hsegs.mono (hmono r.1), hpath⟩

theorem dropGroupVersion (h : Known s) (context : Str) : Known (s.dropGroupVersion context) where
  versions context' entry he := by
    simp only [MetricsHandler.dropGroupVersion] at he
    by_cases hc : context' = context
    · rw [hc, Function.update_self] at he
      cases he
    · rw [Function.update_of_ne hc] at he
      exact h.versions context' entry he
  requested := h.requested

theorem cacheGroupVersion (h : Known s) {v : Str} (hv : s.Reported context v) :
    Known (s.cacheGroupVersion context v) := by
  unfold MetricsHandler.cacheGroupVersion
  split_ifs
  · exact h
  · refine ⟨fun context' entry he => ?_, h.requested⟩
    simp only at he
    by_cases hc : context' = context
    · rw [hc, Function.update_self] at he
      cases he
      exact hc ▸ hv
    · rw [Function.update_of_ne hc] at he
      exact h.versions context' entry he

theorem fetchVersion (h : Known s) {v subPath : Str} (hv : s.Reported context v)
    (hsub : IsSubPath subPath) (collection : Bool) :
    Leaves (s.fetchVersion context v subPath collection) := by
  obtain ⟨segs, hsegs, hjoined⟩ := hsub (s.Reported context) v hv
  refine ⟨h.request ⟨segs, hsegs, ?_⟩, trivial⟩
  rw [← hjoined, List.append_assoc, List.append_assoc]
  rfl

theorem cached (h : Known s) (hne : s.cachedGroupVersion context ≠ []) :
    s.Reported context (s.cachedGroupVersion context) := by
  unfold cachedGroupVersion at hne ⊢
  cases hentry : s.versions context with
  | none => simp [hentry] at hne
  | some entry =>
    simp only [hentry] at hne ⊢
    split_ifs at hne ⊢ with hstale
    · exact absurd rfl hne
    · exact h.versions context entry hentry

theorem fetch (h : Known s) (header : Header) {subPath : Str} (hsub : IsSubPath subPath)
    (collection : Bool) : Leaves (s.fetch reg enabled header subPath collection) := by
  unfold MetricsHandler.fetch
  split_ifs
  · exact ⟨h, trivial⟩
  · split
    · exact ⟨h, trivial⟩
    · split
      · exact ⟨h, trivial⟩
      · split_ifs with hmiss
        · exact ⟨h.request (mayProbe s _), hsub⟩
        · exact h.fetchVersion (h.cached hmiss) hsub collection

theorem capabilities (h : Known s) (header : Header) :
    Leaves (s.capabilities reg enabled header) := by
  unfold MetricsHandler.capabilities
  split_ifs
  · exact ⟨h, trivial⟩
  · split
    · exact ⟨h, trivial⟩
    · split
      · exact ⟨h, trivial⟩
      · exact ⟨h.request (mayProbe s _), trivial⟩

/-- A version that a probe settles on is one that it reported. -/
theorem reported {a : Answer} {caps : Capabilities} (hcaps : probeCapabilities a = some caps)
    (hstate : caps.state = .available) : (s.report context a).Reported context caps.version := by
  obtain ⟨hversion, hmem⟩ := probeCapabilities_available hcaps hstate
  exact ⟨hversion, List.mem_append_right _ (List.mem_map_of_mem hmem)⟩

theorem onCapabilities (h : Known s) (context : Str) (a : Answer) :
    Leaves ((s.report context a).onCapabilities context a) := by
  have hreport := h.report context a
  unfold MetricsHandler.onCapabilities
  split
  · exact ⟨hreport, trivial⟩
  next caps hcaps =>
    refine ⟨?_, trivial⟩
    simp only
    split_ifs with hstate
    · exact hreport.cacheGroupVersion (reported hcaps hstate)
    · exact hreport.dropGroupVersion context

theorem onProbe (h : Known s) (context : Str) {subPath : Str} (hsub : IsSubPath subPath)
    (collection : Bool) (a : Answer) :
    Leaves ((s.report context a).onProbe context subPath collection a) := by
  have hreport := h.report context a
  unfold MetricsHandler.onProbe
  split
  · exact ⟨hreport, trivial⟩
  next caps hcaps =>
    split
    next hstate =>
      have hversion : (s.report context a).Reported context caps.version :=
        reported hcaps hstate
      refine (hreport.cacheGroupVersion hversion).fetchVersion ?_ hsub collection
      unfold MetricsHandler.cacheGroupVersion
      split_ifs
      · exact hversion
      · exact hversion
    all_goals exact ⟨hreport, trivial⟩

theorem onData (h : Known s) (context : Str) (collection : Bool) (a : Answer) :
    Leaves (s.onData context collection a) := by
  cases a with
  | failed => exact ⟨h, trivial⟩
  | response code group =>
    simp only [MetricsHandler.onData]
    split_ifs
    · exact ⟨h.dropGroupVersion context, trivial⟩
    · exact ⟨h, trivial⟩
    · exact ⟨h, trivial⟩

end Known

theorem leaves_op {c : MetricsCall} {e : MetricsEvent} {r : MetricsHandler × MetricsCall}
    (hs : Known s) (hc : Held c) (ho : op reg enabled s c e = some r) : Leaves r := by
  unfold op at ho
  split at ho
  · obtain rfl := Option.some.inj ho
    exact ⟨⟨hs.versions, hs.requested⟩, trivial⟩
  next header =>
    obtain rfl := Option.some.inj ho
    exact hs.capabilities header
  next request header hdata =>
    split at ho
    · obtain rfl := Option.some.inj ho
      exact ⟨hs, trivial⟩
    next subPath collection hpath =>
      obtain rfl := Option.some.inj ho
      exact hs.fetch header (subPath_ok hdata hpath) collection
  next context a =>
    obtain rfl := Option.some.inj ho
    exact hs.onCapabilities context a
  next context subPath collection a =>
    obtain rfl := Option.some.inj ho
    exact hs.onProbe context hc collection a
  next context collection a =>
    obtain rfl := Option.some.inj ho
    exact hs.onData context collection a
  · cases ho

end MetricsHandler

/-- In every run: each path requested is the group's own, or goes on with a version that a probe
of its context reported and with words of the adapter and names of the client, each of them a
segment of letters, digits, `-` and `.` that begins and ends with a letter or digit. -/
theorem requested_paths {reg : Registry} {enabled : Bool} {p : Pool MetricsHandler MetricsCall}
    (hp : (metricsServer reg enabled).Reachable p) : ∀ r ∈ p.shared.requested,
      ∃ segs, Segments (fun v => IsVersion v ∧ (r.1, v) ∈ p.shared.reports) segs ∧
        r.2 = metricsGroupPath ++ joined segs ∧ ∀ seg ∈ segs, IsName seg := by
  have hnew : MetricsHandler.Known {} :=
    ⟨fun context entry he => (by cases he), fun r hr => (by cases hr)⟩
  have hknown : p.shared.Known ∧ ∀ c ∈ p.threads, MetricsHandler.Held c := by
    refine Program.reach_invariant (J := fun _ => True) (T := fun _ c => MetricsHandler.Held c)
      (fun _ _ => trivial) hnew ?_ ?_ ?_ hp
    · intro c hc
      rw [List.mem_singleton.mp hc]
      trivial
    · intro _ _
      trivial
    · intro p i hi e s' c' _ _ hs ht ho
      obtain ⟨hs', hc'⟩ := MetricsHandler.leaves_op hs (ht _ (List.getElem_mem hi)) ho
      exact ⟨hs', hc', fun j hj _ => ht _ (List.getElem_mem hj)⟩
  intro r hr
  obtain ⟨segs, hsegs, hpath⟩ := hknown.1.requested r hr
  exact ⟨segs, hsegs, hpath, hsegs.isName fun v hv => hv.1.isName⟩

/-- One context, whose upstream authenticates by itself. -/
def ownCredentials : Registry where
  names := [str "dev"]
  byName := Finmap.singleton (str "dev") ⟨{ path := [] }, { host := [] }, true⟩
  default := str "dev"
  useConfigCreds := true

/-- A name that would leave its segment, then one that is none, and a version with a query. -/
def hostileRequests : List (PoolAction (MetricsRequest × Header) MetricsEvent) :=
  [.spawn (.pod (str "ns") (str "a/../b"), ∅), .act 1 .run,
    .spawn (.pod (str "ns") (str "a.b"), ∅), .act 2 .run,
    .act 2 (.answer (.response 200 (some ⟨str "v1?x=", [str "v1/", str "v1beta1"]⟩)))]

theorem hostileRequests_run :
    ((metricsServer ownCredentials true).exec ⟨{}, [.clock]⟩ hostileRequests).isSome := by
  decide +kernel

def hostileRequested : Pool MetricsHandler MetricsCall :=
  ((metricsServer ownCredentials true).exec ⟨{}, [.clock]⟩ hostileRequests).get hostileRequests_run

theorem requested_paths_hostile :
    hostileRequested.shared.requested = [(str "dev", str "/apis/metrics.k8s.io"),
      (str "dev", str "/apis/metrics.k8s.io/v1beta1/namespaces/ns/pods/a.b")] ∧
    ∀ r ∈ hostileRequested.shared.requested, ∃ segs : List Str,
      r.2 = metricsGroupPath ++ joined segs ∧ ∀ seg ∈ segs, IsName seg := by
  have hinit : (metricsServer ownCredentials true).Reachable ⟨{}, [.clock]⟩ := .init rfl
  have hp := hinit.exec hostileRequests (Option.some_get hostileRequests_run).symm
  refine ⟨by decide +kernel, fun r hr => ?_⟩
  obtain ⟨segs, -, hpath, hnames⟩ := requested_paths hp r hr
  exact ⟨segs, hpath, hnames⟩

end KubeConsole.Metrics
