import KubeConsole.Startup.Load

/-!
Whose request it is (`internal/httpx/clientip.go`): the address every limit that tells clients
apart is keyed by.

`X-Forwarded-For` is read only on connections that come from a trusted proxy, from the right and
past the trusted entries; the walk itself is the middleware's of chi.
-/
namespace KubeConsole.Httpx
open KubeConsole.Go KubeConsole.Startup

/-- What a request says about where it comes from: the peer of its connection, and the entries
of `X-Forwarded-For` from left to right. -/
structure Request where
  remoteAddr : Str
  xff : List Str
  deriving DecidableEq, Repr

/-- The functions of chi and httprate: what `ClientIPFromXFF` and `ClientIPFromRemoteAddr` store
in the request's context, the text they store for an address, and `CanonicalizeIP`. -/
structure Chi where
  fromXFF : List Prefix → List Str → Option Str
  fromRemoteAddr : Str → Option Str
  text : Addr → Str
  canonicalizeIP : Str → Str

/-- An address lies in one of the prefixes, whichever way it is written. -/
def trusts (prefixes : List Prefix) (a : Addr) : Bool :=
  prefixes.any fun p => p.contains a.unmap.withoutZone

/-- `peerIn`. -/
def peerIn (remoteAddr : Str) (prefixes : List Prefix) : Bool :=
  let host := match splitHostPort remoteAddr with
    | some (h, _) => h
    | none => remoteAddr
  match parseAddr host with
  | none => false
  | some ip => trusts prefixes ip

section
variable (chi : Chi) (prefixes : List Prefix)

/-- `ClientIPResolver`: what it stores. The prefixes are those of the trusted proxies. -/
def clientIPResolver (r : Request) : Option Str :=
  if prefixes = [] then chi.fromRemoteAddr r.remoteAddr
  else if peerIn r.remoteAddr prefixes then chi.fromXFF prefixes r.xff
  else chi.fromRemoteAddr r.remoteAddr

/-- `ClientAddr`. -/
def clientAddr (r : Request) : Str :=
  let ip := (clientIPResolver chi prefixes r).getD []
  if ip = [] then
    match splitHostPort r.remoteAddr with
    | some (h, _) => h
    | none => r.remoteAddr
  else ip

/-- `ClientIP`: the key of the limits. -/
def clientIP (r : Request) : Str := chi.canonicalizeIP (clientAddr chi prefixes r)

end

/-- `netip.MustParsePrefix` of every trusted proxy; `none` where it panics. -/
def mustParsePrefixes (trustedProxies : List Str) : Option (List Prefix) :=
  trustedProxies.mapM parsePrefix

/-- What chi documents: an address has a text; the peer of the connection is stored; the entries
are walked from the right, past the trusted ones, and the first other one is stored. -/
structure Chi.Documented (chi : Chi) : Prop where
  text_ne : ∀ a, chi.text a ≠ []
  fromRemoteAddr : ∀ {r host port a}, splitHostPort r = some (host, port) →
    parseAddr host = some a → chi.fromRemoteAddr r = some (chi.text a)
  xff_trusted : ∀ {prefixes entries e a}, parseAddr e = some a → trusts prefixes a = true →
    chi.fromXFF prefixes (entries ++ [e]) = chi.fromXFF prefixes entries
  xff_other : ∀ {prefixes entries e a}, parseAddr e = some a → trusts prefixes a = false →
    chi.fromXFF prefixes (entries ++ [e]) = some (chi.text a)

/-! The way of a request through proxies. -/

/-- A machine a request passes, as its peer sees it. -/
structure Hop where
  text : Str
  addr : Addr
  parses : parseAddr text = some addr
  noBrackets : chr '[' ∉ text ∧ chr ']' ∉ text

/-- From one machine over the others, the last of which connects to the server: each proxy
appends the address of its peer to the entries. -/
def relay (xff : List Str) (peer : Hop) : List Hop → Hop × List Str
  | [] => (peer, xff)
  | p :: proxies => relay (xff ++ [peer.text]) p proxies

/-- The request that arrives. -/
def arrives (port : Str) (xff : List Str) (client : Hop) (proxies : List Hop) : Request where
  remoteAddr := joinHostPort (relay xff client proxies).1.text port
  xff := (relay xff client proxies).2

theorem relay_append (xff : List Str) (client : Hop) (before : List Hop) (u : Hop)
    (proxies : List Hop) : ∃ xff', relay xff client (before ++ u :: proxies) = relay xff' u proxies := by
  induction before generalizing xff client with
  | nil => exact ⟨xff ++ [client.text], rfl⟩
  | cons p before ih => exact ih (xff ++ [client.text]) p

theorem relay_eq (xff : List Str) (client p : Hop) (proxies : List Hop) :
    ∃ (last : Hop) (mid : List Hop), last ∈ p :: proxies ∧ (∀ q ∈ mid, q ∈ p :: proxies) ∧
      relay xff client (p :: proxies) = (last, xff ++ [client.text] ++ mid.map Hop.text) := by
  induction proxies generalizing xff client p with
  | nil => exact ⟨p, [], by simp, by simp, by simp [relay]⟩
  | cons q proxies ih =>
    obtain ⟨last, mid, hlast, hmid, heq⟩ := ih (xff ++ [client.text]) p q
    refine ⟨last, p :: mid, List.mem_cons_of_mem _ hlast, ?_, ?_⟩
    · intro h hh
      rcases List.mem_cons.mp hh with rfl | hh
      · exact List.mem_cons_self
      · exact List.mem_cons_of_mem _ (hmid h hh)
    · rw [relay, heq]
      simp

section
variable {chi : Chi} {prefixes : List Prefix} {port : Str}

theorem Hop.split (h : Hop) (hport : ∀ b ∈ port, b ∉ str ":[]") :
    splitHostPort (joinHostPort h.text port) = some (h.text, port) :=
  splitHostPort_joinHostPort h.noBrackets.1 h.noBrackets.2 hport

theorem peerIn_hop (h : Hop) (hport : ∀ b ∈ port, b ∉ str ":[]") :
    peerIn (joinHostPort h.text port) prefixes = trusts prefixes h.addr := by
  simp [peerIn, h.split hport, h.parses]

/-- The walk ends at the first entry from the right that is not trusted, whatever is left of it. -/
theorem Chi.Documented.fromXFF_eq (hchi : chi.Documented) {u : Hop} {mid : List Hop}
    (xff : List Str) (hu : trusts prefixes u.addr = false)
    (hmid : ∀ q ∈ mid, trusts prefixes q.addr = true) :
    chi.fromXFF prefixes (xff ++ [u.text] ++ mid.map Hop.text) = some (chi.text u.addr) := by
  induction mid using List.reverseRecOn with
  | nil => simpa using hchi.xff_other u.parses hu
  | append_singleton mid q ih =>
    have hq : trusts prefixes q.addr = true := hmid q (by simp)
    rw [List.map_append, List.map_singleton, ← List.append_assoc, hchi.xff_trusted q.parses hq]
    exact ih fun r hr => hmid r (by simp [hr])

/-- A machine that is no trusted proxy is who it is, over any trusted proxies after it and
whatever entries the request already had. -/
theorem Chi.Documented.clientAddr_eq (hchi : chi.Documented) {u : Hop} {proxies : List Hop}
    (xff : List Str) (hport : ∀ b ∈ port, b ∉ str ":[]") (hu : trusts prefixes u.addr = false)
    (hproxies : ∀ p ∈ proxies, trusts prefixes p.addr = true) :
    clientAddr chi prefixes (arrives port xff u proxies) = chi.text u.addr := by
  have hresolved : clientIPResolver chi prefixes (arrives port xff u proxies) =
      some (chi.text u.addr) := by
    cases proxies with
    | nil =>
      have hpeer : peerIn (arrives port xff u []).remoteAddr prefixes = false :=
        (peerIn_hop u hport).trans hu
      have hstored := hchi.fromRemoteAddr (u.split hport) u.parses
      simp only [clientIPResolver, hpeer, Bool.false_eq_true, if_false, ite_self]
      exact hstored
    | cons p proxies =>
      obtain ⟨last, mid, hlast, hmid, heq⟩ := relay_eq xff u p proxies
      have htrusted := hproxies last hlast
      have hne : prefixes ≠ [] := by
        rintro rfl
        simp [trusts] at htrusted
      have hpeer : peerIn (arrives port xff u (p :: proxies)).remoteAddr prefixes = true := by
        rw [arrives, heq]
        exact (peerIn_hop last hport).trans htrusted
      rw [clientIPResolver, if_neg hne, if_pos hpeer, arrives, heq]
      exact hchi.fromXFF_eq xff hu fun q hq => hproxies q (hmid q hq)
  simp [clientAddr, hresolved, hchi.text_ne]

end

theorem mustParsePrefixes_isSome {proxies : List Str} (h : ∀ p ∈ proxies, (parsePrefix p).isSome) :
    (mustParsePrefixes proxies).isSome := by
  unfold mustParsePrefixes
  induction proxies with
  | nil => rfl
  | cons p ps ih =>
    rw [List.forall_mem_cons] at h
    obtain ⟨a, ha⟩ := Option.isSome_iff_exists.mp h.1
    obtain ⟨as, has⟩ := Option.isSome_iff_exists.mp (ih h.2)
    simp [ha, has]

/-- With a valid configuration the resolver is built without a panic, and a request counts for
the last machine on its way that is no trusted proxy: nothing that machine or those before it
write into the header, and nothing about the proxies after it, changes the key. -/
theorem clientIP_unforgeable {getenv : Str → Str} {c : Config} (hc : c.Valid getenv) {chi : Chi}
    (hchi : chi.Documented) : ∃ prefixes, mustParsePrefixes c.trustedProxies = some prefixes ∧
      ∀ (port : Str) (xff : List Str) (client u : Hop) (before proxies : List Hop),
        (∀ b ∈ port, b ∉ str ":[]") → trusts prefixes u.addr = false →
        (∀ p ∈ proxies, trusts prefixes p.addr = true) →
        clientIP chi prefixes (arrives port xff u proxies) = chi.canonicalizeIP (chi.text u.addr) ∧
        clientIP chi prefixes (arrives port xff client (before ++ u :: proxies)) =
          chi.canonicalizeIP (chi.text u.addr) := by
  obtain ⟨prefixes, hprefixes⟩ :=
    Option.isSome_iff_exists.mp (mustParsePrefixes_isSome hc.trustedProxies)
  refine ⟨prefixes, hprefixes, fun port xff client u before proxies hport hu hproxies => ?_⟩
  have hkey (xff : List Str) := hchi.clientAddr_eq xff hport hu hproxies
  obtain ⟨xff', heq⟩ := relay_append xff client before u proxies
  have harrives : arrives port xff client (before ++ u :: proxies) = arrives port xff' u proxies := by
    simp [arrives, heq]
  exact ⟨congrArg chi.canonicalizeIP (hkey xff),
    (congrArg (clientIP chi prefixes) harrives).trans (congrArg chi.canonicalizeIP (hkey xff'))⟩

/-! A client that writes an address of its own choice into the header. -/

/-- The walk over the entries, the last of them first. -/
def walk (prefixes : List Prefix) : List Str → Option Addr
  | [] => none
  | e :: es =>
    match parseAddr e with
    | none => none
    | some a => if trusts prefixes a then walk prefixes es else some a

/-- The dotted form of an IPv4 address. -/
def dotted : Addr → Str
  | .v4 a => (str ".").intercalate ([24, 16, 8, 0].map fun i =>
      (Nat.toDigits 10 ((a >>> i).toNat % 256)).map chr)
  | .v6 _ _ => str "::"

def walkingChi : Chi where
  fromXFF prefixes entries := (walk prefixes entries.reverse).map dotted
  fromRemoteAddr r := (splitHostPort r).bind fun h => (parseAddr h.1).map dotted
  text := dotted
  canonicalizeIP := id

theorem walkingChi_documented : walkingChi.Documented where
  text_ne a := by
    cases a with
    | v4 a => simp [walkingChi, dotted, List.intercalate, str]
    | v6 a zone => simp [walkingChi, dotted, str]
  fromRemoteAddr hsplit hparse := by simp [walkingChi, hsplit, hparse]
  xff_trusted hparse htrusts := by simp [walkingChi, walk, hparse, htrusts]
  xff_other hparse htrusts := by simp [walkingChi, walk, hparse, htrusts]

/-- A console behind the proxies of one network. -/
def proxiedConfig : Config where
  listenAddr := str ":8080"
  kubeAPIServer := str "https://10.0.0.1"
  kubeCAFile := []
  kubeconfig := []
  kubeContext := []
  clusterName := str "prod"
  useKubeconfigCredentials := false
  metricsEnabled := true
  execEnabled := true
  maxExecSessions := 10
  maxExecHandshakesPerIP := 3
  allowedOrigins := []
  maxBodyBytes := 4194304
  rateLimit := 240
  maxInFlight := 128
  trustedProxies := [str "10.0.0.0/8"]
  logLevel := str "info"
  logFormat := str "text"

def outsider : Hop := ⟨str "203.0.113.9", .v4 0xCB007109, by decide, by decide⟩

def ingress : Hop := ⟨str "10.0.0.7", .v4 0x0A000007, by decide, by decide⟩

theorem clientIP_unforgeable_outsider : ∃ prefixes,
    mustParsePrefixes proxiedConfig.trustedProxies = some prefixes ∧
      clientIP walkingChi prefixes ⟨str "10.0.0.7:443", [str "127.0.0.1", str "203.0.113.9"]⟩ =
        str "203.0.113.9" := by
  have hvalid : proxiedConfig.Valid fun _ => [] :=
    Config.validate_eq_ok.mp (by decide +kernel)
  obtain ⟨prefixes, hprefixes, hkey⟩ := clientIP_unforgeable hvalid walkingChi_documented
  have hparsed : prefixes = [⟨.v4 0x0A000000, 8⟩] := by
    have : mustParsePrefixes proxiedConfig.trustedProxies = some [⟨.v4 0x0A000000, 8⟩] := by
      decide +kernel
    exact Option.some.inj (hprefixes.symm.trans this)
  subst hparsed
  obtain ⟨hclient, -⟩ := hkey (str "443") [str "127.0.0.1"] outsider outsider [] [ingress]
    (by decide +kernel) (by decide +kernel) (by decide +kernel)
  have harrives : arrives (str "443") [str "127.0.0.1"] outsider [ingress] =
      ⟨str "10.0.0.7:443", [str "127.0.0.1", str "203.0.113.9"]⟩ := by
    decide
  have hdotted : walkingChi.canonicalizeIP (walkingChi.text outsider.addr) = str "203.0.113.9" := by
    decide
  rw [harrives, hdotted] at hclient
  exact ⟨_, hprefixes, hclient⟩

end KubeConsole.Httpx
