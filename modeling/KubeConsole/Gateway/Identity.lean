import KubeConsole.Exec.Protocol
import KubeConsole.Gateway.Rewrite

/-!
Who the apiserver takes a request for. The three ways upstream (the gateway, the
adapters through `Do`, an exec session) either all speak with the credentials of the
kubeconfig, and then nothing a client sends can change that, or all with the
credential the client itself brought, and with nothing else of its identity.
-/
namespace KubeConsole.Gateway
open KubeConsole.Go KubeConsole.Kube KubeConsole.Exec

def authorization : Str := str "Authorization"

/-- A header field in which a client may state an identity. -/
def IdentityKey (k : Str) : Prop :=
  k = authorization ∨ k = str "Cookie" ∨ ∃ p ∈ prefixStripHeaders, p <+: k.map lowerByte

/-- A header field on the strip lists. -/
def Stripped (k : Str) : Prop :=
  k ∈ exactStripHeaders ∨ ∃ p ∈ prefixStripHeaders, p <+: k.map lowerByte

/-- The headers differ in the client's identity only. -/
def SameButIdentity (h h' : Header) : Prop := ∀ k, ¬IdentityKey k → h.lookup k = h'.lookup k

theorem tokenByte_lt {b : UInt8} (h : tokenByte b = true) : b < 0x80 := by
  have hall : ∀ n < 256, tokenByte n.toUInt8 = true → n.toUInt8 < 0x80 := by decide +kernel
  simpa using hall b.toNat b.toNat_lt (by simpa using h)

theorem prefix_ascii : ∀ p ∈ prefixStripHeaders, ∀ b ∈ p, b < 0x80 := by decide +kernel

theorem stripsPrefix_iff (t : CaseTable) (k : Str) :
    stripsPrefix t k = true ↔ ∃ p ∈ prefixStripHeaders, p <+: t.lower k := by
  simp [stripsPrefix]

theorem map_canonicalKey_exactStripHeaders :
    exactStripHeaders.map canonicalKey = exactStripHeaders := by decide +kernel

/-- A field on the strip lists does not survive. -/
theorem lookup_sanitizeHeaders_of_stripped (t : CaseTable) (h : Header) {k : Str}
    (hk : Stripped k) : (sanitizeHeaders t h).lookup k = none := by
  rw [sanitizeHeaders, Header.lookup_deleteWhere, Header.lookup_foldl_del,
    map_canonicalKey_exactStripHeaders]
  rcases hk with hk | ⟨p, hp, hpre⟩
  · rw [if_pos hk, ite_self]
  · rw [if_pos ((stripsPrefix_iff t k).mpr ⟨p, hp, t.prefix_lower (prefix_ascii p hp) hpre⟩)]

/-- Any other field of a well-formed name passes. -/
theorem lookup_sanitizeHeaders_of_not_stripped (t : CaseTable) (h : Header) {k : Str}
    (htoken : k.all tokenByte = true) (hk : ¬Stripped k) :
    (sanitizeHeaders t h).lookup k = h.lookup k := by
  have hlower : t.lower k = k.map lowerByte := by
    have := t.lower_append (fun b hb => tokenByte_lt (List.all_eq_true.mp htoken b hb)) []
    simpa [CaseTable.lower, mapRunes] using this
  rw [sanitizeHeaders, Header.lookup_deleteWhere, Header.lookup_foldl_del,
    map_canonicalKey_exactStripHeaders, if_neg, if_neg fun h => hk (.inl h)]
  intro hs
  obtain ⟨p, hp, hpre⟩ := (stripsPrefix_iff t k).mp hs
  exact hk (.inr ⟨p, hp, hlower ▸ hpre⟩)

theorem lookup_sanitizeHeaders_congr (t : CaseTable) {h h' : Header} {k : Str}
    (hk : h.lookup k = h'.lookup k) :
    (sanitizeHeaders t h).lookup k = (sanitizeHeaders t h').lookup k := by
  simp only [sanitizeHeaders, Header.lookup_deleteWhere, Header.lookup_foldl_del, hk]

theorem IdentityKey.stripped {k : Str} (h : IdentityKey k) : k = authorization ∨ Stripped k := by
  rcases h with rfl | rfl | h
  · exact .inl rfl
  · exact .inr (.inl (by decide +kernel))
  · exact .inr (.inr h)

theorem canonicalKey_authorization : canonicalKey authorization = authorization := by
  decide +kernel

section Rewrite
variable (t : CaseTable) (up : Upstream) (u : URL) {out : Header} {k : Str}

/-- The fields of the outbound request, apart from the routing of its URL. -/
theorem lookup_rewriteFor : (rewriteFor t up u out).header.lookup k =
    if up.useConfigCredentials = true ∧ k = authorization then none
    else (sanitizeHeaders t out).lookup k := by
  unfold rewriteFor
  by_cases hc : up.useConfigCredentials = true
  · simp only [hc, if_true, true_and]
    rw [Header.lookup_del]
    rfl
  · simp only [hc, if_false, false_and, Bool.false_eq_true]

theorem lookup_rewriteFor_of_stripped (hk : Stripped k) :
    (rewriteFor t up u out).header.lookup k = none := by
  rw [lookup_rewriteFor, lookup_sanitizeHeaders_of_stripped t out hk, ite_self]

/-- With credentials of its own the upstream sees nothing of a client's identity. -/
theorem lookup_rewriteFor_of_identityKey (hc : up.useConfigCredentials = true)
    (hk : IdentityKey k) : (rewriteFor t up u out).header.lookup k = none := by
  rcases hk.stripped with rfl | hs
  · rw [lookup_rewriteFor, if_pos ⟨hc, rfl⟩]
  · exact lookup_rewriteFor_of_stripped t up u hs

end Rewrite

theorem forwardingHeaders_stripped {k : Str} (hk : k ∈ forwardingHeaders) : Stripped k := by
  have hall : ∀ k ∈ forwardingHeaders, k ∈ exactStripHeaders ∨
      ∃ p ∈ prefixStripHeaders, p <+: k.map lowerByte := by decide +kernel
  exact hall k hk

theorem not_identityKey_of_lower {k : Str} (ha : k ≠ authorization) (hc : k ≠ str "Cookie")
    (hp : ∀ p ∈ prefixStripHeaders, ¬p <+: k.map lowerByte) : ¬IdentityKey k := by
  rintro (h | h | ⟨p, hpm, h⟩)
  · exact ha h
  · exact hc h
  · exact hp p hpm h

/-- The fields the proxy and the checks read are none of the client's identity. -/
theorem not_identityKey : ¬IdentityKey (str "Connection") ∧ ¬IdentityKey (str "Te") ∧
    ¬IdentityKey (str "Upgrade") ∧ ¬IdentityKey (canonicalKey contextHeader) := by
  refine ⟨?_, ?_, ?_, ?_⟩ <;>
    exact not_identityKey_of_lower (by decide +kernel) (by decide +kernel) (by decide +kernel)

/-! With the kubeconfig's credentials: two runs that differ in the client's identity. -/

theorem SameButIdentity.get_eq {h h' : Header} (hs : SameButIdentity h h') {k : Str}
    (hk : ¬IdentityKey (canonicalKey k)) : h.values k = h'.values k := by
  rw [Header.values, Header.values, hs _ hk]

theorem rewriteFor_congr (t : CaseTable) {up : Upstream} (u : URL) {h h' : Header}
    (hc : up.useConfigCredentials = true) (hs : SameButIdentity h h') :
    rewriteFor t up u (proxyHeader h) = rewriteFor t up u (proxyHeader h') := by
  have hheader : (rewriteFor t up u (proxyHeader h)).header =
      (rewriteFor t up u (proxyHeader h')).header := by
    refine Finmap.ext_lookup fun k => ?_
    by_cases hk : IdentityKey k
    · rw [lookup_rewriteFor_of_identityKey t up u hc hk,
        lookup_rewriteFor_of_identityKey t up u hc hk]
    · have hp := lookup_proxyHeader_congr (hs k hk) (hs _ not_identityKey.1)
        (hs _ not_identityKey.2.1)
      rw [lookup_rewriteFor, lookup_rewriteFor, lookup_sanitizeHeaders_congr t hp]
  show Outbound.mk _ _ _ = Outbound.mk _ _ _
  exact congrArg _ hheader

theorem resolveRequest_congr {reg : Registry} {h h' : Header} (hs : SameButIdentity h h') :
    reg.resolveRequest h = reg.resolveRequest h' := by
  have hget : h.get contextHeader = h'.get contextHeader := by
    rw [Header.get, Header.get, hs.get_eq not_identityKey.2.2.2]
  rw [Registry.resolveRequest, Registry.resolveRequest, hget]

theorem requireToken_of_creds {reg : Registry} (hm : reg.useConfigCreds = true) (h : Header) :
    reg.requireToken h = .ok [] := by rw [Registry.requireToken, if_pos hm]

/-- The gateway does the same for both, whether it answers or forwards. -/
theorem serveHTTP_congr (t : CaseTable) {reg : Registry} (hreg : reg.Uniform)
    (hm : reg.useConfigCreds = true) {r r' : Request} (hmethod : r.method = r'.method)
    (hurl : r.url = r'.url) (hs : SameButIdentity r.header r'.header) :
    serveHTTP t reg r = serveHTTP t reg r' := by
  have hkey (k : Str) (hk : canonicalKey k = k) (hn : ¬IdentityKey k) :
      r.header.values k = r'.header.values k := hs.get_eq (by rwa [hk])
  have hup : r.header.get (str "Upgrade") = r'.header.get (str "Upgrade") := by
    rw [Header.get, Header.get, hkey _ (by decide +kernel) not_identityKey.2.2.1]
  have hconn : headerContainsToken r.header (str "Connection") (str "upgrade") ↔
      headerContainsToken r'.header (str "Connection") (str "upgrade") := by
    rw [headerContainsToken, headerContainsToken, hkey _ (by decide +kernel) not_identityKey.1]
  have hrewrite (name : Str) (up : Upstream) (h : proxies reg name = some up) :
      rewriteFor t up r'.url (proxyHeader r.header) =
        rewriteFor t up r'.url (proxyHeader r'.header) := by
    unfold proxies at h
    split_ifs at h
    exact rewriteFor_congr t r'.url ((hreg.mode name up h).trans hm) hs
  simp only [serveHTTP, hmethod, hurl, hup, hconn, requireToken_of_creds hm,
    resolveRequest_congr hs, bind, Except.bind]
  -- both runs take the same branch, and the last one sends the same request
  split_ifs
  · rfl
  · rfl
  · split
    · rfl
    · split
      · rfl
      next res _ =>
        cases hp : proxies reg res.2 with
        | none => rfl
        | some up => simp only [hrewrite _ up hp]

/-- In the mode that uses the kubeconfig's credentials, nothing of a client's identity
goes upstream and nothing that goes upstream depends on it. -/
structure OwnIdentity (t : CaseTable) (reg : Registry) : Prop where
  gateway : ∀ r r' : Request, r.method = r'.method → r.url = r'.url →
    SameButIdentity r.header r'.header → serveHTTP t reg r = serveHTTP t reg r'
  gatewayHeader : ∀ r name out, serveHTTP t reg r = .ok (name, out) →
    ∀ k, IdentityKey k → out.header.lookup k = none
  adapter : ∀ h h' header, SameButIdentity h h' → onBehalf reg h header = onBehalf reg h' header
  adapterHeader : ∀ h header name sent, onBehalf reg h header = .ok (name, sent) → sent = header
  exec : ∀ frame token auth auth' cfg cfg', clientConfig reg frame = .ok (auth, cfg) →
    clientConfig reg { frame with token := token } = .ok (auth', cfg') → cfg = cfg'
  execRefuses : ∀ frame, frame.token ≠ [] → ∃ e, clientConfig reg frame = .error e
  execConfig : ∀ frame auth cfg, clientConfig reg frame = .ok (auth, cfg) →
    ∃ up name, reg.resolve frame.context = some (up, name) ∧ cfg = up.restConfig

/-- In the other mode the credential that goes upstream is the client's own, next to
no other, and nothing else of its identity. -/
structure ClientIdentity (t : CaseTable) (reg : Registry) : Prop where
  gateway : ∀ r name out, serveHTTP t reg r = .ok (name, out) →
    out.header.lookup authorization =
      if hopByHop r.header authorization then none else r.header.lookup authorization
  gatewayHeader : ∀ r name out, serveHTTP t reg r = .ok (name, out) →
    ∀ k, Stripped k → out.header.lookup k = none
  adapter : ∀ h header name sent, onBehalf reg h header = .ok (name, sent) →
    extractBearer h ≠ [] ∧ sent.lookup authorization = some [str "Bearer " ++ extractBearer h] ∧
      ∀ k, k ≠ authorization → sent.lookup k = header.lookup k
  exec : ∀ frame auth cfg, clientConfig reg frame = .ok (auth, cfg) →
    ∃ up name, reg.resolve frame.context = some (up, name) ∧ frame.token ≠ [] ∧
      cfg = { host := up.restConfig.host, caFile := up.restConfig.caFile
              bearerToken := frame.token }

/-- A field off the strip lists passes unchanged, unless the proxy handles it as one of
its hop or it is the credential of a client that must not have one. -/
def PassesUnchanged (t : CaseTable) (reg : Registry) : Prop :=
  ∀ r name out, serveHTTP t reg r = .ok (name, out) → ∀ k, k.all tokenByte = true →
    ¬Stripped k → ¬hopByHop r.header k → ¬(reg.useConfigCreds = true ∧ k = authorization) →
      out.header.lookup k = r.header.lookup k

theorem onBehalf_ok {reg : Registry} {h header sent : Header} {name : Str}
    (hs : onBehalf reg h header = .ok (name, sent)) :
    ∃ token up, reg.requireToken h = .ok token ∧ reg.get name = some up ∧
      sent = do_ up token header := by
  unfold onBehalf at hs
  cases ht : reg.requireToken h with
  | error e => simp [ht, bind, Except.bind] at hs
  | ok token =>
    cases hr : reg.resolveRequest h with
    | error e => simp [ht, hr, bind, Except.bind] at hs
    | ok res =>
      simp only [ht, hr, bind, Except.bind] at hs
      cases hs
      refine ⟨token, res.1, rfl, ?_, rfl⟩
      unfold Registry.resolveRequest Registry.resolve at hr
      split at hr
      next r hres =>
        cases hr
        obtain ⟨up, hup, heq⟩ := Option.map_eq_some_iff.mp hres
        rw [← heq]
        exact hup
      · cases hr

theorem Registry.resolve_get {reg : Registry} {name name' : Str} {up : Upstream}
    (h : reg.resolve name = some (up, name')) : reg.get name' = some up := by
  obtain ⟨up', hup, heq⟩ := Option.map_eq_some_iff.mp h
  cases heq
  exact hup

theorem passesUnchanged (t : CaseTable) {reg : Registry} (hreg : reg.Uniform) :
    PassesUnchanged t reg := by
  intro r name out h k htoken hs hhop hauth
  obtain ⟨-, -, up, hup, rfl⟩ := serveHTTP_ok h
  rw [lookup_rewriteFor, if_neg (by rwa [hreg.mode name up hup]),
    lookup_sanitizeHeaders_of_not_stripped t _ htoken hs,
    lookup_proxyHeader_of_not_hopByHop hhop fun hf => hs (forwardingHeaders_stripped hf)]

theorem ownIdentity (t : CaseTable) {reg : Registry} (hreg : reg.Uniform)
    (hm : reg.useConfigCreds = true) : OwnIdentity t reg where
  gateway r r' hmethod hurl hs := serveHTTP_congr t hreg hm hmethod hurl hs
  gatewayHeader r name out h k hk := by
    obtain ⟨-, -, up, hup, rfl⟩ := serveHTTP_ok h
    exact lookup_rewriteFor_of_identityKey t up r.url ((hreg.mode name up hup).trans hm) hk
  adapter h h' header hs := by
    rw [onBehalf, onBehalf, requireToken_of_creds hm, requireToken_of_creds hm,
      resolveRequest_congr hs]
  adapterHeader h header name sent hs := by
    obtain ⟨token, up, -, hup, rfl⟩ := onBehalf_ok hs
    rw [do_, Upstream.roundTripper, if_pos ((hreg.mode name up hup).trans hm)]
  exec frame token auth auth' cfg cfg' h h' := by
    obtain ⟨up, name, hup, -, rfl⟩ := clientConfig_ok h
    obtain ⟨up', name', hup', -, rfl⟩ := clientConfig_ok h'
    obtain ⟨rfl, rfl⟩ : up = up' ∧ name = name' := by simpa [hup] using hup'
    have hc := (hreg.mode name up (Registry.resolve_get hup)).trans hm
    rw [if_pos hc, if_pos hc]
  execRefuses frame htoken := by
    cases h : clientConfig reg frame with
    | error e => exact ⟨e, rfl⟩
    | ok res =>
      obtain ⟨auth, cfg⟩ := res
      obtain ⟨-, -, -, hmode, -⟩ := clientConfig_ok h
      rw [hm] at hmode
      exact absurd (hmode.mp htoken) (by decide)
  execConfig frame auth cfg h := by
    obtain ⟨up, name, hup, -, rfl⟩ := clientConfig_ok h
    exact ⟨up, name, hup, if_pos ((hreg.mode name up (Registry.resolve_get hup)).trans hm)⟩

theorem clientIdentity (t : CaseTable) {reg : Registry} (hreg : reg.Uniform)
    (hm : reg.useConfigCreds = false) : ClientIdentity t reg where
  gateway r name out h := by
    have hall : authorization ∉ exactStripHeaders ∧
        ∀ p ∈ prefixStripHeaders, ¬p <+: authorization.map lowerByte := by decide +kernel
    have hs : ¬Stripped authorization := by
      rintro (hk | ⟨p, hp, hpre⟩)
      · exact hall.1 hk
      · exact hall.2 p hp hpre
    have htoken : authorization.all tokenByte = true := by decide +kernel
    split_ifs with hhop
    · obtain ⟨-, -, up, hup, rfl⟩ := serveHTTP_ok h
      have hc := (hreg.mode name up hup).trans hm
      rw [lookup_rewriteFor, if_neg (by simp [hc]),
        lookup_sanitizeHeaders_of_not_stripped t _ htoken hs, lookup_proxyHeader,
        if_neg fun hf => hs (forwardingHeaders_stripped hf),
        if_neg fun hte => absurd hte.1 (by decide +kernel), if_pos hhop]
    · exact passesUnchanged t hreg r name out h authorization htoken hs hhop (by simp [hm])
  gatewayHeader r name out h k hk := by
    obtain ⟨-, -, up, -, rfl⟩ := serveHTTP_ok h
    exact lookup_rewriteFor_of_stripped t up r.url hk
  adapter h header name sent hs := by
    obtain ⟨token, up, htoken, hup, rfl⟩ := onBehalf_ok hs
    obtain ⟨hne, rfl⟩ : extractBearer h ≠ [] ∧ extractBearer h = token := by
      unfold Registry.requireToken at htoken
      rw [if_neg (by simp [hm])] at htoken
      split_ifs at htoken with hb
      exact ⟨hb, Except.ok.inj htoken⟩
    have hc := (hreg.mode name up hup).trans hm
    rw [do_, Upstream.roundTripper, if_neg (by simp [hc])]
    refine ⟨hne, ?_, fun k hk => ?_⟩
    · rw [withBearer, Header.lookup_set]
      exact if_pos canonicalKey_authorization.symm
    · rw [withBearer, Header.lookup_set]
      exact if_neg fun h => hk (h.trans canonicalKey_authorization)
  exec frame auth cfg h := by
    obtain ⟨up, name, hup, hmode, rfl⟩ := clientConfig_ok h
    have hc := (hreg.mode name up (Registry.resolve_get hup)).trans hm
    have hanon := hreg.anonymous name up (Registry.resolve_get hup) hc
    refine ⟨up, name, hup, hmode.mpr hm, ?_⟩
    rw [if_neg (by simp [hc]), hanon]
    rfl

/-- A kubeconfig with one context, used with its own credentials. -/
def devKubeconfig : Kubeconfig where
  contexts := [(str "dev", some { host := str "https://10.0.0.1:6443", bearerToken := str "abc" })]
  currentContext := str "dev"

/-- Its one upstream, registered. -/
def devRegistry : Except StartError Registry :=
  newRegistry (fun rc => some { host := rc.host, path := [] })
    (kubeconfigConfigs id { useKubeconfigCredentials := true } devKubeconfig) (str "dev")

end KubeConsole.Gateway
