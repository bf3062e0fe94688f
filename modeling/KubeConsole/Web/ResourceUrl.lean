import KubeConsole.Exec.Protocol
import KubeConsole.Gateway.Rewrite
import KubeConsole.Theory.Encoding
import KubeConsole.Theory.Fields
import KubeConsole.Web.K8s

/-!
From a resource on a page to the path the apiserver gets: the URL that `resourcePath`
(`api/k8s.ts`) builds, the parsing of it by the server, and what the gateway makes of it.
-/
namespace KubeConsole.Web
open KubeConsole.Go KubeConsole.Gateway KubeConsole.Theory KubeConsole.Theory.Encoding

/-! ## The URL -/

/-- The code points of a string; `none` where a surrogate stands alone. -/
def codePoints : JStr → Option (List ℕ)
  | [] => some []
  | u :: s =>
    if isLow u then none
    else if isHigh u then
      match s with
      | [] => none
      | v :: s =>
        if isLow v then
          let c := 0x10000 + (u.toNat - 0xD800) * 0x400 + (v.toNat - 0xDC00)
          (codePoints s).map (c :: ·)
        else none
    else (codePoints s).map (u.toNat :: ·)

/-- The UTF-8 encoding of a string. -/
def utf8 (s : JStr) : Option Str := (codePoints s).map fun cs => cs.flatMap encodeRune

/-- The bytes that `encodeURIComponent` leaves as they are. -/
def unreserved (b : UInt8) : Bool :=
  chr 'a' ≤ b && b ≤ chr 'z' || chr 'A' ≤ b && b ≤ chr 'Z' || chr '0' ≤ b && b ≤ chr '9' ||
    b ∈ str "-_.!~*'()"

def escapeByte (b : UInt8) : Str :=
  if unreserved b then [b] else [chr '%', upperHex (b / 16), upperHex (b % 16)]

/-- `encodeURIComponent`: `none` where it throws. -/
def encodeURIComponent (s : JStr) : Option Str := (utf8 s).map fun bytes => bytes.flatMap escapeByte

/-- The options of `resourcePath`. -/
structure PathOptions where
  namespace_ : Option JStr := none
  name : Option JStr := none
  subresource : Option JStr := none
  deriving DecidableEq, Repr

/-- A part of a path that is left out where it is empty. -/
def part (before : List JStr) : Option JStr → List JStr
  | some s => if s ≠ [] then before ++ [s] else []
  | none => []

/-- The segments of `resourcePath` below `/k8s`. -/
def resourceParts (ref : ResourceRef) (opts : PathOptions) : List JStr :=
  (if isCoreGroup ref.group then [js "api", ref.version] else [js "apis", ref.group, ref.version]) ++
    part [js "namespaces"] opts.namespace_ ++ [ref.resource] ++ part [] opts.name ++
    opts.subresource.toList

/-- `resourcePath`. The segments that the source writes out are those that encoding keeps. -/
def resourceUrl (ref : ResourceRef) (opts : PathOptions) : Option Str :=
  ((resourceParts ref opts).mapM encodeURIComponent).map fun raws =>
    pathPrefix ++ slash :: [slash].intercalate raws

/-- The path of a collection is the one the listing asks for. -/
theorem resourceParts_collection (ref : ResourceRef) (ns : Option JStr) :
    js "k8s" :: resourceParts ref { namespace_ := ns } = resourcePath ref ns := by
  unfold resourceParts resourcePath part
  cases ns <;> split_ifs <;> simp

/-- A segment that the parsing of a URL takes for a step in the path, by whether the step is
up. -/
def dotSegment (raw : Str) : Option Bool :=
  if [str ".", str "%2e"].contains (raw.map lowerByte) then some false
  else if [str "..", str ".%2e", str "%2e.", str "%2e%2e"].contains (raw.map lowerByte) then some true
  else none

/-- The path state of the URL parser of a browser. -/
def walkSegments (path : List Str) : List Str → List Str
  | [] => path
  | raw :: raws =>
    match dotSegment raw with
    | none => walkSegments (path ++ [raw]) raws
    | some up =>
      let path := if up then path.dropLast else path
      if raws = [] then path ++ [[]] else walkSegments path raws

/-- The path that a browser asks a server for, where it is given an absolute one. -/
def browserPath (text : Str) : Str :=
  slash :: [slash].intercalate (walkSegments [] (text.tail.splitOn slash))

/-- `setPath` of a server's URL: the path, and the raw path where it is not the canonical one. -/
def serverURL (raw : Str) : Option URL :=
  (pathUnescape raw).map fun path =>
    { path := path, rawPath := if escapePath path = raw then [] else raw }

/-! ## What arrives -/

theorem pathUnescape_escapeByte (b : UInt8) : pathUnescape (escapeByte b) = some [b] := by
  unfold escapeByte
  split_ifs with h
  · have hne : b ≠ chr '%' := by
      rintro rfl
      exact absurd h (by decide)
    simp [pathUnescape_cons hne]
  · have hb := b.toNat_lt
    have hdiv : b / 16 < 16 := by
      rw [UInt8.lt_iff_toNat_lt]
      simp
      omega
    have hmod : b % 16 < 16 := by
      rw [UInt8.lt_iff_toNat_lt]
      simp
      omega
    simp [pathUnescape_escape, unhex_upperHex hdiv, unhex_upperHex hmod, div_mul_add_mod]

/-- What is encoded is decoded to the bytes of the string. -/
theorem pathUnescape_escapeBytes (s : Str) : pathUnescape (s.flatMap escapeByte) = some s := by
  induction s with
  | nil => rfl
  | cons b s ih =>
    rw [List.flatMap_cons, pathUnescape_append (pathUnescape_escapeByte b), ih]
    rfl

theorem mem_escapeByte {b c : UInt8} (h : c ∈ escapeByte b) :
    c ≠ slash ∧ (unreserved c ∨ c = chr '%') := by
  have hhex : ∀ n < 16, upperHex n.toUInt8 ≠ slash ∧ unreserved (upperHex n.toUInt8) := by decide
  have hhex (d : UInt8) (hd : d.toNat < 16) : upperHex d ≠ slash ∧ unreserved (upperHex d) := by
    simpa using hhex d.toNat hd
  have hb := b.toNat_lt
  unfold escapeByte at h
  split_ifs at h with hu
  · obtain rfl := List.mem_singleton.mp h
    refine ⟨?_, .inl hu⟩
    rintro rfl
    exact absurd hu (by decide)
  · simp only [List.mem_cons, List.not_mem_nil, or_false] at h
    rcases h with rfl | rfl | rfl
    · exact ⟨by decide, .inr rfl⟩
    · obtain ⟨h1, h2⟩ := hhex (b / 16) (by simp; omega)
      exact ⟨h1, .inl h2⟩
    · obtain ⟨h1, h2⟩ := hhex (b % 16) (by simp; omega)
      exact ⟨h1, .inl h2⟩

theorem validEncoded_of_unreserved {s : Str} (h : ∀ c ∈ s, unreserved c ∨ c = chr '%' ∨ c = slash) :
    validEncoded s = true := by
  have hall : ∀ n < 256, unreserved n.toUInt8 →
      (n.toUInt8 ∈ str "!$&'()*+,;=:@" ∨ shouldEscape n.toUInt8 = false) := by decide +kernel
  rw [validEncoded, List.all_eq_true]
  intro c hc
  rcases h c hc with hu | rfl | rfl
  · have hc := hall c.toNat c.toNat_lt
    simp only [Nat.toUInt8, UInt8.ofNat_toNat] at hc
    rcases hc hu with hm | hm
    · simp [hm]
    · simp [hm]
  · decide
  · decide

theorem lowerByte_dot (b : UInt8) : (lowerByte b = chr '.' → b = chr '.') ∧
    (lowerByte b = chr '%' → b = chr '%') ∧ (lowerByte b = chr '2' → b = chr '2') ∧
    (lowerByte b = chr 'e' → unhex b = some 14) := by
  have hall : ∀ n < 256, (lowerByte n.toUInt8 = chr '.' → n.toUInt8 = chr '.') ∧
      (lowerByte n.toUInt8 = chr '%' → n.toUInt8 = chr '%') ∧
      (lowerByte n.toUInt8 = chr '2' → n.toUInt8 = chr '2') ∧
      (lowerByte n.toUInt8 = chr 'e' → unhex n.toUInt8 = some 14) := by
    decide +kernel
  simpa using hall b.toNat b.toNat_lt

/-- A dot in front, written as it is or escaped in either case. -/
theorem pathUnescape_dot {raw rest : Str} (h : raw.map lowerByte = str "." ++ rest ∨
    raw.map lowerByte = str "%2e" ++ rest) : ∃ raw', raw'.map lowerByte = rest ∧
      pathUnescape raw = (pathUnescape raw').map (chr '.' :: ·) := by
  rcases h with h | h
  · obtain ⟨b, raw', rfl, hb, hrest⟩ := List.map_eq_cons_iff.mp h
    obtain rfl := (lowerByte_dot b).1 hb
    exact ⟨raw', hrest, pathUnescape_cons (by decide) raw'⟩
  · obtain ⟨b, raw1, rfl, hb, h⟩ := List.map_eq_cons_iff.mp h
    obtain ⟨c, raw2, rfl, hc, h⟩ := List.map_eq_cons_iff.mp h
    obtain ⟨d, raw', rfl, hd, hrest⟩ := List.map_eq_cons_iff.mp h
    obtain rfl := (lowerByte_dot b).2.1 hb
    obtain rfl := (lowerByte_dot c).2.2.1 hc
    refine ⟨raw', hrest, ?_⟩
    rw [pathUnescape_escape, (lowerByte_dot d).2.2.2 hd]
    rfl

/-- A segment taken for a step stands for one. -/
theorem dotSegment_eq_none {raw seg : Str} (h : pathUnescape raw = some seg) (hdot : seg ≠ str ".")
    (hdotdot : seg ≠ str "..") : dotSegment raw = none := by
  have hone {raw : Str} (hr : raw.map lowerByte ∈ [str ".", str "%2e"]) :
      pathUnescape raw = some (str ".") := by
    have hr : raw.map lowerByte = str "." ++ [] ∨ raw.map lowerByte = str "%2e" ++ [] := by
      simpa using hr
    obtain ⟨raw', hnil, heq⟩ := pathUnescape_dot hr
    obtain rfl := List.map_eq_nil_iff.mp hnil
    exact heq
  simp only [dotSegment, List.contains_iff_mem]
  split_ifs with h1 h2
  · exact absurd (Option.some.inj (h.symm.trans (hone h1))) hdot
  · have h2 : (raw.map lowerByte = str "." ++ str "." ∨ raw.map lowerByte = str "%2e" ++ str ".") ∨
        raw.map lowerByte = str "." ++ str "%2e" ∨ raw.map lowerByte = str "%2e" ++ str "%2e" := by
      simp only [List.mem_cons, List.not_mem_nil, or_false] at h2
      tauto
    rcases h2 with h2 | h2
    · obtain ⟨raw', hrest, heq⟩ := pathUnescape_dot h2
      rw [h, hone (by simp [hrest])] at heq
      exact absurd (Option.some.inj heq) hdotdot
    · obtain ⟨raw', hrest, heq⟩ := pathUnescape_dot h2
      rw [h, hone (by simp [hrest])] at heq
      exact absurd (Option.some.inj heq) hdotdot
  · rfl

theorem walkSegments_eq {raws : List Str} (h : ∀ raw ∈ raws, dotSegment raw = none)
    (path : List Str) : walkSegments path raws = path ++ raws := by
  induction raws generalizing path with
  | nil => simp [walkSegments]
  | cons raw raws ih =>
    obtain ⟨hraw, hrest⟩ := List.forall_mem_cons.mp h
    simp [walkSegments, hraw, ih hrest]

/-- The path begins as those of resources do. -/
def ApiRoot (segs : List Str) : Prop :=
  ∃ root rest, segs = root :: rest ∧ (root = str "api" ∨ root = str "apis")

section Arrival
variable {segs : List Str}

variable (segs) in
/-- The path of the segments on the wire. -/
def wirePath : Str := slash :: [slash].intercalate (segs.map fun seg => seg.flatMap escapeByte)

theorem forall₂_escape (segs : List Str) : List.Forall₂ (fun raw seg => pathUnescape raw = some seg)
    (segs.map fun seg => seg.flatMap escapeByte) segs := by
  induction segs with
  | nil => exact .nil
  | cons seg segs ih => exact .cons (pathUnescape_escapeBytes seg) ih

theorem slash_notMem_escape (seg : Str) : slash ∉ seg.flatMap escapeByte := by
  intro h
  obtain ⟨b, -, hb⟩ := List.mem_flatMap.mp h
  exact (mem_escapeByte hb).1 rfl

theorem segments_wirePath (hne : segs ≠ []) :
    segments (wirePath segs) = segs.map fun seg => seg.flatMap escapeByte := by
  refine List.splitOn_intercalate slash (fun raw hraw => ?_) (by simpa using hne)
  obtain ⟨seg, -, rfl⟩ := List.mem_map.mp hraw
  exact slash_notMem_escape seg

theorem pathUnescape_wirePath (segs : List Str) :
    pathUnescape (wirePath segs) = some (slash :: [slash].intercalate segs) := by
  rw [wirePath, pathUnescape_cons (by decide), pathUnescape_intercalate (forall₂_escape segs)]
  rfl

theorem validEncoded_wirePath (segs : List Str) : validEncoded (wirePath segs) = true := by
  apply validEncoded_of_unreserved
  intro c hc
  rcases List.mem_cons.mp hc with rfl | hc
  · exact .inr (.inr rfl)
  · rcases mem_intercalate hc with rfl | ⟨raw, hraw, hc⟩
    · exact .inr (.inr rfl)
    · obtain ⟨seg, -, rfl⟩ := List.mem_map.mp hraw
      obtain ⟨b, -, hb⟩ := List.mem_flatMap.mp hc
      exact (mem_escapeByte hb).2.imp_right .inl

/-- A browser asks for the path it is given, where no segment is a step. -/
theorem browserPath_wirePath (hne : segs ≠ [])
    (hdots : ∀ seg ∈ segs, seg ≠ str "." ∧ seg ≠ str "..") :
    browserPath (wirePath segs) = wirePath segs := by
  have hwalk : walkSegments [] (segs.map fun seg => seg.flatMap escapeByte) =
      segs.map fun seg => seg.flatMap escapeByte := by
    rw [walkSegments_eq, List.nil_append]
    intro raw hraw
    obtain ⟨seg, hseg, rfl⟩ := List.mem_map.mp hraw
    exact dotSegment_eq_none (pathUnescape_escapeBytes seg) (hdots seg hseg).1 (hdots seg hseg).2
  show slash :: [slash].intercalate (walkSegments [] (segments (wirePath segs))) = _
  rw [segments_wirePath hne, hwalk]
  rfl

/-- A server keeps the path as it was sent. -/
theorem serverURL_wirePath (segs : List Str) :
    ∃ u, serverURL (wirePath segs) = some u ∧ u.escapedPath = wirePath segs := by
  have hpath := pathUnescape_wirePath segs
  refine ⟨_, congrArg (Option.map _) hpath, ?_⟩
  by_cases hcanon : escapePath (slash :: [slash].intercalate segs) = wirePath segs
  · have hstar : slash :: [slash].intercalate segs ≠ str "*" := by
      intro h
      exact absurd (List.cons.inj h).1 (by decide)
    simp [URL.escapedPath, hcanon, hstar]
  · simp only [hcanon, if_false]
    exact URL.escapedPath_of_raw (validEncoded_wirePath segs) hpath

theorem wirePath_cons (hne : segs ≠ []) : pathPrefix ++ wirePath segs =
    wirePath (str "k8s" :: segs) := by
  obtain ⟨seg, segs, rfl⟩ := List.exists_cons_of_ne_nil hne
  have hk8s : (str "k8s").flatMap escapeByte = str "k8s" := by decide
  simp only [wirePath, List.map_cons, List.intercalate_cons_cons, hk8s]
  rfl

theorem resourceUrl_eq {ref : ResourceRef} {opts : PathOptions}
    (h : (resourceParts ref opts).mapM utf8 = some segs) :
    resourceUrl ref opts = some (pathPrefix ++ wirePath segs) := by
  have hraws (parts : List JStr) (segs : List Str) (h : parts.mapM utf8 = some segs) :
      parts.mapM encodeURIComponent = some (segs.map fun seg => seg.flatMap escapeByte) := by
    induction parts generalizing segs with
    | nil =>
      cases h
      rfl
    | cons p parts ih =>
      simp only [List.mapM_cons, Option.bind_eq_bind, Option.bind_eq_some_iff] at h
      obtain ⟨seg, hseg, segs', hsegs, hcons⟩ := h
      obtain rfl : seg :: segs' = segs := by simpa using hcons
      simp [encodeURIComponent, hseg, ih segs' hsegs]
  rw [resourceUrl, hraws _ _ h]
  rfl

theorem resourceParts_head {ref : ResourceRef} {opts : PathOptions}
    (h : (resourceParts ref opts).mapM utf8 = some segs) : ApiRoot segs := by
  have hhead {p : JStr} {parts : List JStr} (root : Str) (hp : utf8 p = some root)
      (h : (p :: parts).mapM utf8 = some segs) : ∃ rest, segs = root :: rest := by
    simp only [List.mapM_cons, Option.bind_eq_bind, Option.bind_eq_some_iff, hp] at h
    obtain ⟨seg, hseg, rest, -, hcons⟩ := h
    cases hseg
    exact ⟨rest, by simpa [eq_comm] using hcons⟩
  unfold resourceParts at h
  split_ifs at h
  · obtain ⟨rest, hrest⟩ := hhead (str "api") (by decide) h
    exact ⟨_, rest, hrest, .inl rfl⟩
  · obtain ⟨rest, hrest⟩ := hhead (str "apis") (by decide) h
    exact ⟨_, rest, hrest, .inr rfl⟩

end Arrival

/-! ## What the gateway makes of it -/

theorem admissible_wirePath {segs : List Str} (hroot : ApiRoot segs)
    (hsafe : ∀ seg ∈ segs, SafeSegment seg) : Admissible (wirePath segs) segs := by
  obtain ⟨root, rest, rfl, hroot⟩ := hroot
  have hsegments := segments_wirePath (List.cons_ne_nil root rest)
  refine ⟨rfl, ?_, hsafe, ?_⟩
  · rw [hsegments]
    exact forall₂_escape _
  · rw [hsegments]
    refine ⟨_, rfl, ?_⟩
    rcases hroot with rfl | rfl
    · decide
    · decide

/-- A path of encoded segments is admissible where the segments are safe. -/
theorem admissible_wirePath_iff {segs : List Str} (hroot : ApiRoot segs) :
    (∃ decoded, Admissible (wirePath segs) decoded) ↔ ∀ seg ∈ segs, SafeSegment seg := by
  refine ⟨?_, fun hsafe => ⟨segs, admissible_wirePath hroot hsafe⟩⟩
  rintro ⟨decoded, h⟩
  have hne : segs ≠ [] := by
    obtain ⟨root, rest, rfl, -⟩ := hroot
    exact List.cons_ne_nil root rest
  have hunique : Relator.RightUnique fun raw seg => pathUnescape raw = some seg :=
    fun raw seg seg' hs hs' => Option.some.inj (hs.symm.trans hs')
  have hdecode := h.decode
  rw [segments_wirePath hne] at hdecode
  obtain rfl := List.right_unique_forall₂' hunique hdecode (forall₂_escape segs)
  exact h.safe

/-- A name of Kubernetes' is safe unless it is one of the blocked words. -/
theorem safeSegment_iff {seg : Str} (h : Exec.isDNS1123Subdomain seg = true) :
    SafeSegment seg ↔ seg ∉ blockedSegments := by
  have hchars : ∀ n < 256, (Exec.alnum n.toUInt8 || n.toUInt8 ∈ str "-.") = true →
      lowerByte n.toUInt8 = n.toUInt8 ∧ n.toUInt8 ∉ str "/\\%" := by decide +kernel
  simp only [Exec.isDNS1123Subdomain, Exec.dns1123, Bool.and_eq_true, List.all_eq_true] at h
  obtain ⟨⟨⟨hhead, -⟩, hall⟩, -⟩ := h
  have hchars (b : UInt8) (hb : b ∈ seg) : lowerByte b = b ∧ b ∉ str "/\\%" := by
    have hc := hchars b.toNat b.toNat_lt
    simp only [Nat.toUInt8, UInt8.ofNat_toNat] at hc
    exact hc (by simpa using hall b hb)
  have hlower : seg.map lowerByte = seg :=
    (List.map_congr_left fun b hb => (hchars b hb).1).trans (List.map_id' seg)
  constructor
  · exact fun hsafe hm => hsafe.notBlocked seg hm hlower
  · intro hm
    refine ⟨?_, ?_, ?_, fun b hb => (hchars b hb).2, fun name hname heq => ?_⟩
    · rintro rfl
      cases hhead
    · rintro rfl
      exact absurd hhead (by decide)
    · rintro rfl
      exact absurd hhead (by decide)
    · exact hm (hlower ▸ heq ▸ hname)

end KubeConsole.Web
