import KubeConsole.Gateway.Policy
import KubeConsole.Kube.Registry

/-!
The gateway's way upstream (`internal/gateway/gateway.go`, `sanitize.go`): the
checks a request passes, the upstream it is routed to, and the request its proxy
sends there.
-/
namespace KubeConsole.Gateway
open KubeConsole.Go KubeConsole.Kube

/-- `Prefix`. -/
def pathPrefix : Str := str "/k8s"

/-- The parts of an inbound request that the gateway reads. -/
structure Request where
  method : Str
  url : URL
  header : Header

/-- The parts of an outbound request that the gateway writes. -/
structure Outbound where
  url : URL
  host : Str
  header : Header

def exactStripHeaders : List Str :=
  [str "Cookie", str "Referer", str "Forwarded", str "Origin", contextHeader]

def prefixStripHeaders : List Str := [str "impersonate-", str "x-remote-", str "x-forwarded-"]

/-- The key is one of those `SanitizeHeaders` deletes by prefix. -/
def stripsPrefix (t : CaseTable) (name : Str) : Bool :=
  prefixStripHeaders.any fun p => p.isPrefixOf (t.lower name)

/-- `SanitizeHeaders`. -/
def sanitizeHeaders (t : CaseTable) (h : Header) : Header :=
  (exactStripHeaders.foldl Header.del h).deleteWhere (stripsPrefix t)

/-- `rewriteFor`: the outbound request for an inbound URL and the outbound headers
the proxy has prepared. -/
def rewriteFor (t : CaseTable) (up : Upstream) (inURL : URL) (out : Header) : Outbound :=
  let sanitized := sanitizeHeaders t out
  let escaped := up.baseURL.escapedPath ++ trimPrefix inURL.escapedPath pathPrefix
  { url :=
      { scheme := up.baseURL.scheme
        host := up.baseURL.host
        path := (pathUnescape escaped).getD escaped
        rawPath := escaped }
    host := up.baseURL.host
    header := if up.useConfigCredentials then sanitized.del (str "Authorization") else sanitized }

def allowedMethods : List Str :=
  [str "GET", str "HEAD", str "POST", str "PUT", str "PATCH", str "DELETE"]

/-- `headerContainsToken`. -/
def headerContainsToken (h : Header) (name token : Str) : Prop :=
  ∃ v ∈ h.values name, ∃ part ∈ v.splitOn (chr ','), equalFold (trimSpace part) token

instance (h : Header) (name token : Str) : Decidable (headerContainsToken h name token) :=
  inferInstanceAs (Decidable (∃ v ∈ h.values name, ∃ part ∈ v.splitOn (chr ','),
    equalFold (trimSpace part) token = true))

/-- The answers to a path that is not let through. -/
def pathError : PathError → HttpError
  | .forbiddenPath => ⟨403, "Forbidden", "path is not allowed through the gateway"⟩
  | .badPath => ⟨400, "BadRequest", "malformed request path"⟩

/-- The proxy of a context: `New` builds one for each name of the registry. -/
def proxies (reg : Registry) (name : Str) : Option Upstream :=
  if reg.names.contains name then reg.get name else none

/-- `Gateway.ServeHTTP` up to the transport: the error answered, or the context and
the request its proxy sends. -/
def serveHTTP (t : CaseTable) (reg : Registry) (r : Request) : Except HttpError (Str × Outbound) :=
  if !allowedMethods.contains r.method then .error ⟨405, "MethodNotAllowed", "method not allowed"⟩
  else if r.header.get (str "Upgrade") ≠ [] ∨
      headerContainsToken r.header (str "Connection") (str "upgrade") then
    .error ⟨400, "BadRequest", "protocol upgrade is not allowed on /k8s"⟩
  else do
    let _ ← reg.requireToken r.header
    match checkPath t (trimPrefix r.url.escapedPath pathPrefix) with
    | .error e => .error (pathError e)
    | .ok () =>
      let (_, name) ← reg.resolveRequest r.header
      match proxies reg name with
      | none => .error ⟨400, "BadRequest", unknownContextMessage⟩
      | some up => return (name, rewriteFor t up r.url (proxyHeader r.header))

/-! The path that is sent. -/

theorem pathUnescape_pathPrefix (s : Str) :
    pathUnescape (pathPrefix ++ s) = (pathUnescape s).map (pathPrefix ++ ·) :=
  pathUnescape_append (by decide) s

/-- Cutting the prefix off leaves an encoded string that decodes. -/
theorem trimPrefix_escapedPath (u : URL) :
    validEncoded (trimPrefix u.escapedPath pathPrefix) = true ∧
      ∃ path, pathUnescape (trimPrefix u.escapedPath pathPrefix) = some path := by
  unfold trimPrefix
  split_ifs with hp
  · obtain ⟨rest, hrest⟩ := hp
    have hv := u.validEncoded_escapedPath
    have hd := u.pathUnescape_escapedPath
    rw [← hrest, validEncoded_append, Bool.and_eq_true] at hv
    rw [← hrest, pathUnescape_pathPrefix] at hd
    rw [← hrest, List.drop_left]
    obtain ⟨path, hpath, -⟩ := Option.map_eq_some_iff.mp hd
    exact ⟨hv.2, path, hpath⟩
  · exact ⟨u.validEncoded_escapedPath, _, u.pathUnescape_escapedPath⟩

/-- The path sent upstream is the base path followed by what was checked, and it
stands for the base path followed by what that stands for. -/
theorem rewriteFor_path (t : CaseTable) (up : Upstream) (u : URL) (out : Header) {path : Str}
    (h : pathUnescape (trimPrefix u.escapedPath pathPrefix) = some path) :
    (rewriteFor t up u out).url.escapedPath =
        up.baseURL.escapedPath ++ trimPrefix u.escapedPath pathPrefix ∧
      (rewriteFor t up u out).url.path = up.baseURL.path ++ path := by
  have hdec : pathUnescape (up.baseURL.escapedPath ++ trimPrefix u.escapedPath pathPrefix) =
      some (up.baseURL.path ++ path) := by
    rw [pathUnescape_append up.baseURL.pathUnescape_escapedPath, h]
    rfl
  have hpath : (rewriteFor t up u out).url.path = up.baseURL.path ++ path := by
    simp only [rewriteFor, hdec, Option.getD_some]
  refine ⟨URL.escapedPath_of_raw ?_ ?_, hpath⟩
  · show validEncoded (_ ++ _) = true
    rw [validEncoded_append, up.baseURL.validEncoded_escapedPath, (trimPrefix_escapedPath u).1]
    rfl
  · rw [hpath]
    exact hdec

section Segments
variable {raws segs : List Str} {escaped : Str}

/-- Segments joined by slashes decode segment by segment. -/
theorem pathUnescape_intercalate
    (h : List.Forall₂ (fun raw seg => pathUnescape raw = some seg) raws segs) :
    pathUnescape ([slash].intercalate raws) = some ([slash].intercalate segs) := by
  have hslash : slash ≠ chr '%' := by decide
  induction h with
  | nil => rfl
  | @cons raw seg raws segs hraw hrest ih =>
    cases hrest with
    | nil => simpa using hraw
    | @cons raw' seg' raws segs _ _ =>
      rw [List.intercalate_cons_cons, List.intercalate_cons_cons, List.append_assoc,
        List.append_assoc, pathUnescape_append hraw, List.singleton_append,
        pathUnescape_cons hslash, ih]
      rfl

theorem Admissible.eq_cons (h : Admissible escaped segs) :
    escaped = slash :: [slash].intercalate (segments escaped) := by
  obtain ⟨rest, rfl⟩ := List.head?_eq_some_iff.mp h.head
  simp [segments]

theorem Admissible.ne_nil (h : Admissible escaped segs) : segs ≠ [] := by
  obtain ⟨root, hroot, -⟩ := h.root
  rintro rfl
  rw [List.forall₂_nil_right_iff.mp h.decode] at hroot
  cases hroot

/-- An admissible path as a whole stands for its decoded segments. -/
theorem Admissible.pathUnescape_eq (h : Admissible escaped segs) :
    pathUnescape escaped = some (slash :: [slash].intercalate segs) := by
  rw [h.eq_cons, pathUnescape_cons (by decide), pathUnescape_intercalate h.decode]
  rfl

theorem Admissible.splitOn_decoded (h : Admissible escaped segs) :
    ([slash].intercalate segs).splitOn slash = segs :=
  List.splitOn_intercalate slash (fun seg hseg hm => (h.safe seg hseg).plain slash hm (by decide))
    h.ne_nil

end Segments

/-- What is sent for a path with the decoded segments `segs`. -/
structure Forwards (up : Upstream) (u : URL) (segs : List Str) (out : Outbound) : Prop where
  /-- The path on the wire is the base path followed by the checked segments as they are. -/
  sent : out.url.escapedPath.splitOn slash =
    up.baseURL.escapedPath.splitOn slash ++ segments (trimPrefix u.escapedPath pathPrefix)
  /-- Decoded as a whole it is the base path followed by the decoded segments. -/
  whole : pathUnescape out.url.escapedPath = some out.url.path ∧
    out.url.path.splitOn slash = up.baseURL.path.splitOn slash ++ segs
  /-- Decoding a segment once gives the decoded one, decoding it twice the same. -/
  once : List.Forall₂ (fun raw seg => pathUnescape raw = some seg)
    (segments (trimPrefix u.escapedPath pathPrefix)) segs
  twice : ∀ seg ∈ segs, pathUnescape seg = some seg

theorem Admissible.forwards {t : CaseTable} {up : Upstream} {u : URL} {out : Header}
    {segs : List Str} (h : Admissible (trimPrefix u.escapedPath pathPrefix) segs) :
    Forwards up u segs (rewriteFor t up u out) := by
  obtain ⟨hesc, hpath⟩ := rewriteFor_path t up u out h.pathUnescape_eq
  refine ⟨?_, ⟨URL.pathUnescape_escapedPath _, ?_⟩, h.decode, fun seg hseg => ?_⟩
  · rw [hesc]
    nth_rewrite 1 [h.eq_cons]
    rw [List.splitOn_append_cons_self]
    obtain ⟨rest, hrest⟩ := List.head?_eq_some_iff.mp h.head
    simp [segments, hrest]
  · rw [hpath, List.splitOn_append_cons_self, h.splitOn_decoded]
  · exact pathUnescape_eq_self fun hm => (h.safe seg hseg).plain _ hm (by decide)

/-- What a request that goes upstream has passed, and what is sent for it. -/
theorem serveHTTP_ok {t : CaseTable} {reg : Registry} {r : Request} {name : Str} {out : Outbound}
    (h : serveHTTP t reg r = .ok (name, out)) :
    (∃ token, reg.requireToken r.header = .ok token) ∧
      checkPath t (trimPrefix r.url.escapedPath pathPrefix) = .ok () ∧
      ∃ up, reg.get name = some up ∧ out = rewriteFor t up r.url (proxyHeader r.header) := by
  unfold serveHTTP at h
  split_ifs at h
  cases ht : reg.requireToken r.header with
  | error e => simp [ht, bind, Except.bind] at h
  | ok token =>
    simp only [ht, bind, Except.bind] at h
    split at h
    · cases h
    next hcheck =>
      cases hr : reg.resolveRequest r.header with
      | error e => simp [hr] at h
      | ok res =>
        simp only [hr] at h
        split at h
        · cases h
        next up hup =>
          cases h
          refine ⟨⟨token, rfl⟩, hcheck, up, ?_, rfl⟩
          unfold proxies at hup
          split_ifs at hup
          exact hup

/-- A path is let through exactly when it is admissible; for an admissible path the
rewriter sends its segments as they were checked; and nothing else is ever sent. -/
theorem checked_path_forwarded (t : CaseTable) :
    (∀ escaped, checkPath t escaped = .ok () ↔ ∃ segs, Admissible escaped segs) ∧
    (∀ up u out segs, Admissible (trimPrefix u.escapedPath pathPrefix) segs →
      Forwards up u segs (rewriteFor t up u out)) ∧
    ∀ reg r name out, serveHTTP t reg r = .ok (name, out) →
      ∃ up segs, reg.get name = some up ∧
        Admissible (trimPrefix r.url.escapedPath pathPrefix) segs ∧ Forwards up r.url segs out := by
  refine ⟨checkPath_ok_iff t, fun up u out segs h => h.forwards, fun reg r name out h => ?_⟩
  obtain ⟨-, hcheck, up, hup, rfl⟩ := serveHTTP_ok h
  obtain ⟨segs, hsegs⟩ := (checkPath_ok_iff t _).mp hcheck
  exact ⟨up, segs, hup, hsegs, hsegs.forwards⟩

example : checkPath default (str "/api/v1/namespaces/ns/pods/p/log") = .ok () := by decide +kernel

example : checkPath default (str "/api/v1/namespaces/ns/pods/p/%65XEC") = .error .forbiddenPath := by
  decide +kernel

end KubeConsole.Gateway
