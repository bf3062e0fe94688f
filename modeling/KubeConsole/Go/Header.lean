import KubeConsole.Go.Strings

/-!
`http.Header` and the part of `httputil.ReverseProxy` that prepares the headers of
the outbound request.
-/
namespace KubeConsole.Go

/-- `http.Header`: the values of each key. -/
abbrev Header := Finmap fun _ : Str => List Str

/-- `validHeaderFieldByte`: the bytes of an HTTP token. -/
def tokenByte (b : UInt8) : Bool :=
  chr 'a' ≤ b && b ≤ chr 'z' || chr 'A' ≤ b && b ≤ chr 'Z' || chr '0' ≤ b && b ≤ chr '9' ||
    b ∈ str "!#$%&'*+-.^_`|~"

def upperByte (b : UInt8) : UInt8 := if chr 'a' ≤ b ∧ b ≤ chr 'z' then b - 0x20 else b

/-- The loop of `canonicalMIMEHeaderKey`: upper case at the start and after a hyphen. -/
def canonicalBytes : Bool → Str → Str
  | _, [] => []
  | upper, b :: s =>
    let c := if upper then upperByte b else lowerByte b
    c :: canonicalBytes (c == chr '-') s

/-- `textproto.CanonicalMIMEHeaderKey`. -/
def canonicalKey (key : Str) : Str := if key.all tokenByte then canonicalBytes true key else key

namespace Header

/-- `Header.Del`. -/
def del (h : Header) (key : Str) : Header := h.erase (canonicalKey key)

/-- `Header.Set`. -/
def set (h : Header) (key value : Str) : Header := h.insert (canonicalKey key) [value]

/-- `Header.Values`. -/
def values (h : Header) (key : Str) : List Str := (h.lookup (canonicalKey key)).getD []

/-- `Header.Get`: the first value. -/
def get (h : Header) (key : Str) : Str := (h.values key).headD []

private theorem nodupKeys_filter (h : Header) (p : Str → Bool) :
    (h.entries.filter fun e => !p e.1).NodupKeys := by
  rw [← Multiset.nodup_keys]
  exact Multiset.nodup_of_le (Multiset.map_le_map (Multiset.filter_le _ _)) h.nodupKeys.nodup_keys

/-- A loop over the keys that deletes those with `p`. -/
def deleteWhere (h : Header) (p : Str → Bool) : Header :=
  ⟨h.entries.filter fun e => !p e.1, nodupKeys_filter h p⟩

theorem lookup_del (h : Header) (key k : Str) :
    (h.del key).lookup k = if k = canonicalKey key then none else h.lookup k := by
  split_ifs with hk
  · rw [hk]
    exact Finmap.lookup_erase _ _
  · exact Finmap.lookup_erase_ne hk

theorem lookup_set (h : Header) (key value k : Str) :
    (h.set key value).lookup k = if k = canonicalKey key then some [value] else h.lookup k := by
  split_ifs with hk
  · rw [hk]
    exact Finmap.lookup_insert _
  · exact Finmap.lookup_insert_of_ne _ hk

theorem lookup_deleteWhere (h : Header) (p : Str → Bool) (k : Str) :
    (h.deleteWhere p).lookup k = if p k then none else h.lookup k := by
  ext vs
  rw [← Option.mem_def, Finmap.mem_lookup_iff]
  show (⟨k, vs⟩ : Sigma fun _ : Str => List Str) ∈ Multiset.filter _ _ ↔ _
  rw [Multiset.mem_filter, ← Finmap.mem_lookup_iff]
  cases p k <;> simp

/-- Deleting a list of keys. -/
theorem lookup_foldl_del (keys : List Str) (h : Header) (k : Str) :
    (keys.foldl del h).lookup k = if k ∈ keys.map canonicalKey then none else h.lookup k := by
  induction keys generalizing h with
  | nil => simp
  | cons key keys ih =>
    rw [List.foldl_cons, ih, lookup_del]
    by_cases hk : k ∈ keys.map canonicalKey
    · rw [if_pos hk, if_pos (by simp only [List.map_cons, List.mem_cons]; exact .inr hk)]
    · simp only [List.map_cons, List.mem_cons, hk, or_false, if_false]

end Header

/-! The headers `httputil.ReverseProxy` hands to `Rewrite`. -/

/-- `textproto.TrimString`. -/
def trimString (s : Str) : Str := (s.dropWhile (· ∈ str " \t\n\r")).rdropWhile (· ∈ str " \t\n\r")

/-- `hopHeaders`. -/
def hopHeaders : List Str :=
  [str "Connection", str "Proxy-Connection", str "Keep-Alive", str "Proxy-Authenticate",
    str "Proxy-Authorization", str "Te", str "Trailer", str "Transfer-Encoding", str "Upgrade"]

/-- The header fields that the field `Connection` names. -/
def connectionOptions (h : Header) : List Str :=
  (((h.lookup (str "Connection")).getD []).flatMap fun v => (v.splitOn (chr ',')).map trimString)
    |>.filter (· ≠ [])

/-- `removeHopByHopHeaders`. -/
def removeHopByHopHeaders (h : Header) : Header :=
  hopHeaders.foldl Header.del ((connectionOptions h).foldl Header.del h)

/-- The fields of `Forwarded` and `X-Forwarded-*` that a proxy with a `Rewrite` drops. -/
def forwardingHeaders : List Str :=
  [str "Forwarded", str "X-Forwarded-For", str "X-Forwarded-Host", str "X-Forwarded-Proto"]

/-- The field `Te` asks for trailers. -/
def wantsTrailers (h : Header) : Prop :=
  ∃ v ∈ (h.lookup (str "Te")).getD [], ∃ part ∈ v.splitOn (chr ','),
    equalFold (trimString part) (str "trailers") = true

instance (h : Header) : Decidable (wantsTrailers h) :=
  inferInstanceAs (Decidable (∃ v ∈ (h.lookup (str "Te")).getD [], ∃ part ∈ v.splitOn (chr ','),
    equalFold (trimString part) (str "trailers") = true))

/-- The outbound headers of `ReverseProxy.ServeHTTP` as `Rewrite` gets them, for a
request that asks for no protocol upgrade. -/
def proxyHeader (h : Header) : Header :=
  let out := removeHopByHopHeaders h
  forwardingHeaders.foldl Header.del
    (if wantsTrailers h then out.set (str "Te") (str "trailers") else out)

/-- The proxy itself decides about the field: it describes this hop only. -/
def hopByHop (h : Header) (k : Str) : Prop :=
  k ∈ hopHeaders ∨ k ∈ (connectionOptions h).map canonicalKey

instance (h : Header) : DecidablePred (hopByHop h) := fun k =>
  inferInstanceAs (Decidable (k ∈ hopHeaders ∨ k ∈ (connectionOptions h).map canonicalKey))

theorem map_canonicalKey_hopHeaders : hopHeaders.map canonicalKey = hopHeaders := by decide +kernel

theorem map_canonicalKey_forwardingHeaders :
    forwardingHeaders.map canonicalKey = forwardingHeaders := by decide +kernel

theorem lookup_removeHopByHopHeaders (h : Header) (k : Str) :
    (removeHopByHopHeaders h).lookup k = if hopByHop h k then none else h.lookup k := by
  rw [removeHopByHopHeaders, Header.lookup_foldl_del, Header.lookup_foldl_del,
    map_canonicalKey_hopHeaders]
  by_cases h1 : k ∈ hopHeaders <;> by_cases h2 : k ∈ (connectionOptions h).map canonicalKey <;>
    simp [hopByHop, h1, h2]

theorem lookup_proxyHeader (h : Header) (k : Str) :
    (proxyHeader h).lookup k = if k ∈ forwardingHeaders then none
      else if k = str "Te" ∧ wantsTrailers h then some [str "trailers"]
      else if hopByHop h k then none else h.lookup k := by
  have hte : canonicalKey (str "Te") = str "Te" := by decide +kernel
  rw [proxyHeader, Header.lookup_foldl_del, map_canonicalKey_forwardingHeaders]
  by_cases hw : wantsTrailers h
  · simp only [hw, if_true, and_true, Header.lookup_set, hte, lookup_removeHopByHopHeaders]
  · simp only [hw, if_false, and_false, lookup_removeHopByHopHeaders]

/-- Apart from the fields of its hop and the forwarding fields the proxy changes nothing. -/
theorem lookup_proxyHeader_of_not_hopByHop {h : Header} {k : Str} (hk : ¬hopByHop h k)
    (hf : k ∉ forwardingHeaders) : (proxyHeader h).lookup k = h.lookup k := by
  have hte : k ≠ str "Te" := by
    rintro rfl
    exact hk (.inl (by decide +kernel))
  rw [lookup_proxyHeader, if_neg hf, if_neg (fun h => hte h.1), if_neg hk]

/-- What the proxy makes of a field depends on that field, on `Connection` and on `Te`. -/
theorem lookup_proxyHeader_congr {h h' : Header} {k : Str} (hk : h.lookup k = h'.lookup k)
    (hc : h.lookup (str "Connection") = h'.lookup (str "Connection"))
    (hte : h.lookup (str "Te") = h'.lookup (str "Te")) :
    (proxyHeader h).lookup k = (proxyHeader h').lookup k := by
  have hopt : connectionOptions h = connectionOptions h' := by rw [connectionOptions, hc]; rfl
  have hhop : hopByHop h k ↔ hopByHop h' k := by rw [hopByHop, hopt]; rfl
  have hwant : wantsTrailers h ↔ wantsTrailers h' := by rw [wantsTrailers, hte]; rfl
  simp only [lookup_proxyHeader, hk, hhop, hwant]

end KubeConsole.Go
