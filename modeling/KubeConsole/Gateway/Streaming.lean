import KubeConsole.Gateway.Rewrite
import KubeConsole.Go.Query

/-!
Which requests to the gateway may run indefinitely (`IsStreaming` in
`internal/gateway/gateway.go`), and that the apiserver finds the same of what is forwarded.

The verdict is taken on the inbound URL, before any check and before the proxy prepares
the outbound one. It decides which in-flight pool a request occupies and whether it is cut
off at shutdown.
-/
namespace KubeConsole.Gateway
open KubeConsole.Go KubeConsole.Kube

/-- `apiBoolValue`: presence turns a parameter on, unless its first value is a false one. -/
def apiBoolValue (q : Values) (key : Str) : Bool :=
  match q.get key with
  | [] => false
  | v :: _ => v ≠ str "0" && !equalFoldAscii v (str "false")

/-- `isLegacyWatchPath`. -/
def isLegacyWatchPath (path : Str) : Bool :=
  match path with
  | [] => false
  | b :: rest =>
    if b ≠ slash then false
    else match rest.splitOn slash with
      | [] => false
      | root :: segments =>
        if root = str "api" then segments[1]? = some (str "watch")
        else if root = str "apis" then segments[2]? = some (str "watch")
        else false

/-- `IsStreaming`, for the path and the raw query of a request. -/
def isStreaming (maxParams : Option ℕ) (u : URL) (rawQuery : Str) : Bool :=
  let q := parseQuery maxParams rawQuery
  apiBoolValue q (str "watch") || isLegacyWatchPath (trimPrefix u.path pathPrefix) ||
    (str "/log" <:+ u.path && apiBoolValue q (str "follow"))

/-! What the apiserver makes of a request. -/

/-- A request as the apiserver reads it: the decoded segments below its base path, and the query. -/
structure ApiRequest where
  segments : List Str
  query : Values

/-- The server does not end the response by itself: a watch is asked for, the deprecated prefix
forces one, or a log is followed. -/
def ApiRequest.LongRunning (a : ApiRequest) : Prop :=
  apiBoolValue a.query (str "watch") ∨
    (a.segments[0]? = some (str "api") ∧ a.segments[2]? = some (str "watch") ∨
      a.segments[0]? = some (str "apis") ∧ a.segments[3]? = some (str "watch")) ∨
    a.segments.getLast? = some (str "log") ∧ apiBoolValue a.query (str "follow")

/-- What an apiserver at the base URL of `up` reads, given the URL and the query of a request. -/
def apiReading (up : Upstream) (u : URL) (query : Values) : ApiRequest where
  segments := (u.path.splitOn slash).drop (up.baseURL.path.splitOn slash).length
  query := query

/-! Paths by their segments. -/

section Last
variable {α : Type*} [DecidableEq α] {sep : α} {s w : List α}

/-- A string ends in a separator and a word exactly when the word is its last segment, behind
another one. -/
theorem cons_suffix_iff_getLast? (hw : sep ∉ w) :
    sep :: w <:+ s ↔ sep ∈ s ∧ (s.splitOn sep).getLast? = some w := by
  constructor
  · rintro ⟨u, rfl⟩
    refine ⟨by simp, ?_⟩
    rw [List.splitOn_append_cons_self, List.splitOn_eq_singleton hw, List.getLast?_concat]
  · rintro ⟨hmem, hlast⟩
    obtain ⟨v, u, hrev, hv⟩ := List.eq_append_cons_of_mem (List.mem_reverse.mpr hmem)
    have hs : s = u.reverse ++ sep :: v.reverse := by
      rw [← List.reverse_reverse s, hrev]
      simp
    have hv : sep ∉ v.reverse := by simpa using hv
    rw [hs, List.splitOn_append_cons_self, List.splitOn_eq_singleton hv, List.getLast?_concat] at hlast
    obtain rfl := Option.some.inj hlast
    exact ⟨u.reverse, hs.symm⟩

end Last

theorem isLegacyWatchPath_slash (segs : List Str) (hne : segs ≠ []) (hplain : ∀ seg ∈ segs, slash ∉ seg) :
    isLegacyWatchPath (slash :: [slash].intercalate segs) = true ↔
      segs[0]? = some (str "api") ∧ segs[2]? = some (str "watch") ∨
        segs[0]? = some (str "apis") ∧ segs[3]? = some (str "watch") := by
  obtain ⟨root, rest, rfl⟩ := List.exists_cons_of_ne_nil hne
  have hdiff : str "apis" ≠ str "api" := by decide
  simp only [isLegacyWatchPath, ne_eq, not_true_eq_false, if_false,
    List.splitOn_intercalate slash hplain hne]
  split_ifs with hapi hapis
  · simp [hapi, hdiff.symm]
  · simp [hapis, hdiff]
  · simp [hapi, hapis]

/-- No allowed root starts as the prefix does. -/
theorem not_pathPrefix_of_root {root : Str} (h : root ∈ allowedRoots) (rest : Str) :
    ¬pathPrefix <+: slash :: (root ++ rest) := by
  have hroots : ∀ r ∈ allowedRoots, r ≠ [] ∧ r.head? ≠ some (chr 'k') := by decide
  obtain ⟨hne, hhead⟩ := hroots root h
  obtain ⟨b, r', rfl⟩ := List.exists_cons_of_ne_nil hne
  intro hp
  have hp : [slash, chr 'k', chr '8', chr 's'] <+: slash :: b :: (r' ++ rest) := hp
  have hb := (List.cons_prefix_cons.mp (List.cons_prefix_cons.mp hp).2).1
  exact hhead (congrArg some hb.symm)

/-- Cutting the prefix off the decoded path leaves the decoded segments of what was checked, and
they end the path. -/
theorem Admissible.trimPrefix_path {u : URL} {segs : List Str}
    (h : Admissible (trimPrefix u.escapedPath pathPrefix) segs) :
    trimPrefix u.path pathPrefix = slash :: [slash].intercalate segs ∧
      ∃ p, u.path = p ++ slash :: [slash].intercalate segs := by
  have hwhole := h.pathUnescape_eq
  have hpath := u.pathUnescape_escapedPath
  by_cases hp : pathPrefix <+: u.escapedPath
  · obtain ⟨rest, hrest⟩ := hp
    rw [← hrest] at hwhole hpath
    rw [trimPrefix, if_pos (List.prefix_append _ _), List.drop_left] at hwhole
    rw [pathUnescape_pathPrefix, hwhole] at hpath
    rw [← Option.some.inj hpath, trimPrefix, if_pos (List.prefix_append _ _), List.drop_left]
    exact ⟨rfl, pathPrefix, rfl⟩
  · rw [trimPrefix, if_neg hp] at h hwhole
    have heq := Option.some.inj (hpath.symm.trans hwhole)
    obtain ⟨root, hroot, hallowed⟩ := h.root
    obtain ⟨raws, hraws⟩ := List.head?_eq_some_iff.mp hroot
    have hdec := h.decode
    rw [hraws] at hdec
    obtain ⟨seg, segs, hseg, -, rfl⟩ := List.forall₂_cons_left_iff.mp hdec
    have hplain : ∀ r ∈ allowedRoots, chr '%' ∉ r := by decide
    rw [pathUnescape_eq_self (hplain root hallowed)] at hseg
    obtain rfl := Option.some.inj hseg
    refine ⟨?_, [], heq⟩
    rw [heq, trimPrefix, if_neg]
    cases segs with
    | nil =>
      have hp := not_pathPrefix_of_root hallowed []
      rw [List.append_nil] at hp
      simpa using hp
    | cons seg segs =>
      rw [List.intercalate_cons_cons, List.append_assoc]
      exact not_pathPrefix_of_root hallowed _

/-- The verdict in terms of the checked segments. -/
theorem Admissible.isStreaming_iff {maxParams : Option ℕ} {u : URL} {rawQuery : Str} {segs : List Str}
    (h : Admissible (trimPrefix u.escapedPath pathPrefix) segs) :
    isStreaming maxParams u rawQuery = true ↔
      (ApiRequest.mk segs (parseQuery maxParams rawQuery)).LongRunning := by
  have hplain : ∀ seg ∈ segs, slash ∉ seg :=
    fun seg hseg hm => (h.safe seg hseg).plain slash hm (by decide)
  obtain ⟨htrim, p, hpath⟩ := h.trimPrefix_path
  have hlog : str "/log" <:+ u.path ↔ segs.getLast? = some (str "log") := by
    have hslash : slash ∉ str "log" := by decide
    have hcons : str "/log" = slash :: str "log" := rfl
    rw [hcons, cons_suffix_iff_getLast? hslash, hpath, List.splitOn_append_cons_self,
      List.splitOn_intercalate slash hplain h.ne_nil, List.getLast?_append_of_ne_nil _ h.ne_nil]
    simp
  simp only [isStreaming, Bool.or_eq_true, Bool.and_eq_true, decide_eq_true_eq, htrim,
    isLegacyWatchPath_slash segs h.ne_nil hplain, hlog, ApiRequest.LongRunning, or_assoc]

/-- For every request the gateway forwards, the verdict on the inbound URL is what the apiserver
finds of the outbound one, which has its path escaped anew and its query cleaned. -/
theorem isStreaming_iff_longRunning {t : CaseTable} {reg : Registry} {r : Request} {name : Str}
    {out : Outbound} {maxParams upstreamMax : Option ℕ} {rawQuery : Str}
    (h : serveHTTP t reg r = .ok (name, out)) (hquery : WithinParams maxParams rawQuery)
    (hupstream : WithinParams upstreamMax rawQuery) :
    ∃ up, reg.get name = some up ∧ (isStreaming maxParams r.url rawQuery = true ↔
      (apiReading up out.url
        (parseQuery upstreamMax (cleanQueryParams maxParams rawQuery))).LongRunning) := by
  obtain ⟨-, hcheck, up, hup, rfl⟩ := serveHTTP_ok h
  obtain ⟨segs, hadm⟩ := (checkPath_ok_iff t _).mp hcheck
  have hfor := @Admissible.forwards t up r.url (proxyHeader r.header) segs hadm
  refine ⟨up, hup, ?_⟩
  have hbool (key : Str) : apiBoolValue (parseQuery upstreamMax (cleanQueryParams maxParams rawQuery))
      key = apiBoolValue (parseQuery maxParams rawQuery) key := by
    rw [apiBoolValue, apiBoolValue, parseQuery_cleanQueryParams hquery hupstream]
  have hsegs : (apiReading up (rewriteFor t up r.url (proxyHeader r.header)).url
      (parseQuery upstreamMax (cleanQueryParams maxParams rawQuery))).segments = segs := by
    rw [apiReading, hfor.whole.2, List.drop_left]
  rw [hadm.isStreaming_iff]
  simp only [ApiRequest.LongRunning, hsegs]
  simp only [apiReading, hbool]

/-- A registry of one upstream behind a path of its own. -/
def proxiedRegistry : Registry where
  names := [str "dev"]
  byName := Finmap.singleton (str "dev")
    ⟨{ host := str "10.0.0.1", path := str "/clusters/c1" }, { host := [] }, true⟩
  default := str "dev"
  useConfigCreds := true

/-- The watch prefix, escaped, and a query with a part the proxy drops. -/
def escapedWatch : Request where
  method := str "GET"
  url :=
    { path := str "/k8s/apis/apps/v1/watch/deployments"
      rawPath := str "/k8s/apis/apps/v1/%77atch/deployments" }
  header := ∅

theorem isStreaming_iff_longRunning_escapedWatch :
    ∃ name out up, serveHTTP default proxiedRegistry escapedWatch = .ok (name, out) ∧
      proxiedRegistry.get name = some up ∧
      (isStreaming (some 10000) escapedWatch.url (str "watch=0;x&limit=5") = true ↔
        (apiReading up out.url (parseQuery none
          (cleanQueryParams (some 10000) (str "watch=0;x&limit=5")))).LongRunning) := by
  have hok : (serveHTTP default proxiedRegistry escapedWatch).isOk = true := by decide +kernel
  cases h : serveHTTP default proxiedRegistry escapedWatch with
  | error e =>
    rw [h] at hok
    cases hok
  | ok sent =>
    obtain ⟨up, hup, hiff⟩ := @isStreaming_iff_longRunning default proxiedRegistry escapedWatch
      sent.1 sent.2 (some 10000) none (str "watch=0;x&limit=5") h (by decide) (by decide)
    exact ⟨sent.1, sent.2, up, rfl, hup, hiff⟩

end KubeConsole.Gateway
