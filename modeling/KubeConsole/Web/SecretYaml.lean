import KubeConsole.Theory.Encoding
import KubeConsole.Web.Json

/-!
The decoded view of a Secret (`yamlView.ts`, `base64.ts`). The yaml library is a parameter.
-/
namespace KubeConsole.Web.SecretYaml
open KubeConsole.Theory Encoding

/-! ## Base 64 -/

def invalidCharacter : JStr := js "InvalidCharacterError"

/-- Takes a string of units up to 0xFF. -/
def btoa (binary : JStr) : Except JStr JStr :=
  if binary.all (· ≤ 0xFF) then .ok (encode64 (binary.map UInt16.toUInt8))
  else .error invalidCharacter

/-- White space is not looked at. -/
def atob (b64 : JStr) : Option JStr :=
  (decode64 (b64.filter fun c => c ∉ [0x09, 0x0A, 0x0C, 0x0D, 0x20])).map (·.map UInt8.toUInt16)

def base64ToBytes (b64 : JStr) : Option (List UInt8) := (atob b64).map (·.map UInt16.toUInt8)

def chunk : ℕ := 0x8000

/-- The loop of `bytesToBase64`, one chunk a round. -/
def binaryString (bytes : List UInt8) : JStr :=
  (List.range ((bytes.length + chunk - 1) / chunk)).flatMap fun k =>
    ((bytes.drop (k * chunk)).take chunk).map UInt8.toUInt16

def bytesToBase64 (bytes : List UInt8) : Except JStr JStr := btoa (binaryString bytes)

def utf8OrNull (bytes : List UInt8) : Option JStr := (utf8Decode bytes).map utf16Encode

def encodeBase64Utf8 (text : JStr) : Except JStr JStr :=
  bytesToBase64 (utf8Encode (utf16Decode text))

/-! ## Objects -/

variable {N : Type}

/-- What the types of `K8sObject` say of the fields that are read here. -/
structure K8sObject (N : Type) where
  fields : Record N
  distinct : (fields.map Prod.fst).Nodup
  metadata : ∀ v ∈ fields.lookup (js "metadata"), ∃ entries, v = .obj entries
  data : ∀ v ∈ fields.lookup (js "data"), v = .leaf .null ∨
    ∃ entries : List (JStr × JStr), v = .obj (entries.map fun x => (x.1, .leaf (.str x.2)))

def serverManaged : List JStr :=
  [js "managedFields", js "resourceVersion", js "uid", js "creationTimestamp", js "generation"]

def stripMetadata : Json N → Json N
  | .obj entries => .obj (entries.filter fun x => x.1 ∉ serverManaged)
  | v => v

def editableField (key : JStr) (v : Json N) : Option (Json N) :=
  if key = js "status" then none
  else if key = js "metadata" then some (stripMetadata v)
  else some v

def editableClone (obj : K8sObject N) : Record N :=
  obj.fields.filterMap fun x => (editableField x.1 x.2).map (Prod.mk x.1)

/-! ## Views -/

/-- The scalars of a manifest: those of JSON, and bytes under the tag `!!binary`. -/
inductive YamlScalar (N : Type) where
  | json (s : Scalar N)
  | bytes (bytes : List UInt8)
  deriving DecidableEq, Repr

abbrev Yaml (N : Type) := DataTree JStr (YamlScalar N)

/-- `stringify` and `parse`, with the `binary` tag and without it. -/
structure YamlLibrary (N : Type) where
  stringify : Yaml N → JStr
  stringifyBinary : Yaml N → JStr
  parseBinary : JStr → Except JStr (Yaml N)

def ofJson (v : Json N) : Yaml N := v.map .json

def manifest (fields : Record N) : List (JStr × Yaml N) := fields.map (Prod.map id ofJson)

def toEditableYaml (lib : YamlLibrary N) (obj : K8sObject N) : JStr :=
  lib.stringify (.obj (manifest (editableClone obj)))

/-- `object[key] = value` and `{ ...object, key: value }`: a key that is there keeps its place. -/
def setKey (key : JStr) (v : Yaml N) (fields : List (JStr × Yaml N)) : List (JStr × Yaml N) :=
  if key ∈ fields.map Prod.fst then fields.map fun x => (x.1, if x.1 = key then v else x.2)
  else fields ++ [(key, v)]

/-- `utf8OrNull(bytes) ?? bytes`. -/
def decodeValue (b64 : JStr) : Option (Yaml N) :=
  (base64ToBytes b64).map fun bytes =>
    match utf8OrNull bytes with
    | some text => .leaf (.json (.str text))
    | none => .leaf (.bytes bytes)

def decodeEntry : JStr × Json N → Option (JStr × Yaml N)
  | (key, .leaf (.str b64)) => (decodeValue b64).map (Prod.mk key)
  | _ => none

/-- The value that `toDecodedSecretYaml` shows; `none` where `atob` throws. -/
def decodedView (obj : K8sObject N) : Option (Yaml N) :=
  match obj.fields.lookup (js "data") with
  | some (.obj entries) => (entries.mapM decodeEntry).map fun decoded =>
      .obj (setKey (js "data") (.obj decoded) (manifest (editableClone obj)))
  | _ => some (.obj (manifest (editableClone obj)))

def toDecodedSecretYaml (lib : YamlLibrary N) (obj : K8sObject N) : Option JStr :=
  (decodedView obj).map lib.stringifyBinary

def encodeEntry : JStr × Yaml N → Except JStr (JStr × Yaml N)
  | (key, .leaf (.json (.str value))) =>
    (encodeBase64Utf8 value).map fun b64 => (key, .leaf (.json (.str b64)))
  | (key, .leaf (.bytes value)) =>
    (bytesToBase64 value).map fun b64 => (key, .leaf (.json (.str b64)))
  | (key, _) =>
    .error (js "data." ++ key ++ js " must be a string (or !!binary) — quote the value.")

def encodeSecretYaml (lib : YamlLibrary N) (yamlText : JStr) : Except JStr JStr :=
  lib.parseBinary yamlText >>= fun parsed =>
    match parsed with
    | .obj fields =>
      match fields.lookup (js "data") with
      | none => .ok (lib.stringify parsed)
      | some (.leaf (.json .null)) => .ok (lib.stringify parsed)
      | some (.obj entries) => (entries.mapM encodeEntry).map fun encoded =>
          lib.stringify (.obj (setKey (js "data") (.obj encoded) fields))
      | some _ => .error (js "data must be a map of key: value.")
    | _ => .error (js "The manifest must be a YAML object.")

/-! ## Bytes -/

theorem take_chunks (bytes : List UInt8) (n : ℕ) :
    ((List.range n).flatMap fun k => ((bytes.drop (k * chunk)).take chunk).map UInt8.toUInt16) =
      (bytes.take (n * chunk)).map UInt8.toUInt16 := by
  induction n with
  | zero => simp
  | succ n ih =>
    rw [List.range_succ, List.flatMap_append, ih, List.flatMap_singleton, ← List.map_append,
      Nat.succ_mul, List.take_add]

theorem binaryString_eq (bytes : List UInt8) : binaryString bytes = bytes.map UInt8.toUInt16 := by
  have hchunk : chunk = 32768 := rfl
  have hall : bytes.length ≤ (bytes.length + chunk - 1) / chunk * chunk := by
    have := Nat.div_add_mod (bytes.length + chunk - 1) chunk
    have := Nat.mod_lt (bytes.length + chunk - 1) (show 0 < chunk by rw [hchunk]; decide)
    have hcomm := Nat.mul_comm chunk ((bytes.length + chunk - 1) / chunk)
    omega
  rw [binaryString, take_chunks, List.take_of_length_le hall]

theorem map_toUInt8_toUInt16 (bytes : List UInt8) :
    (bytes.map UInt8.toUInt16).map UInt16.toUInt8 = bytes := by
  rw [List.map_map]
  exact List.map_id'' (fun b => UInt8.toUInt8_toUInt16 b) bytes

theorem bytesToBase64_eq (bytes : List UInt8) : bytesToBase64 bytes = .ok (encode64 bytes) := by
  have hlatin : (bytes.map UInt8.toUInt16).all (· ≤ 0xFF) = true := by
    rw [List.all_map, List.all_eq_true]
    intro b _
    have hb := b.toNat_lt
    simp only [Function.comp_apply, decide_eq_true_iff, UInt16.le_iff_toNat_le,
      UInt8.toNat_toUInt16, UInt16.reduceToNat]
    omega
  rw [bytesToBase64, binaryString_eq, btoa, if_pos hlatin, map_toUInt8_toUInt16]

theorem base64ToBytes_encode64 (bytes : List UInt8) :
    base64ToBytes (encode64 bytes) = some bytes := by
  have hfilter : (encode64 bytes).filter (fun c => c ∉ [0x09, 0x0A, 0x0C, 0x0D, 0x20]) =
      encode64 bytes := by
    refine List.filter_eq_self.mpr fun c hc => decide_eq_true fun hmem => ?_
    have hlt := lt_of_mem_encode64 hc
    simp only [List.mem_cons, List.not_mem_nil, or_false] at hmem
    rcases hmem with rfl | rfl | rfl | rfl | rfl <;> exact absurd hlt (by decide)
  rw [base64ToBytes, atob, hfilter, decode64_encode64, Option.map_some, Option.map_some,
    map_toUInt8_toUInt16]

/-- Text is encoded as the bytes that it was decoded from. -/
theorem encodeBase64Utf8_of_utf8OrNull {bytes : List UInt8} {text : JStr}
    (h : utf8OrNull bytes = some text) : encodeBase64Utf8 text = .ok (encode64 bytes) := by
  obtain ⟨chars, hchars, rfl⟩ := Option.map_eq_some_iff.mp h
  rw [encodeBase64Utf8, utf16Decode_utf16Encode, utf8Encode_of_decode hchars, bytesToBase64_eq]

/-! ## The round trip -/

/-- A value that is decoded is encoded as the base 64 it came from, as text or as bytes. -/
theorem encodeEntry_decodeEntry (key : JStr) (bytes : List UInt8) : ∃ v : Yaml N,
    decodeEntry (key, .leaf (.str (encode64 bytes))) = some (key, v) ∧
      encodeEntry (key, v) = .ok (key, .leaf (.json (.str (encode64 bytes)))) := by
  cases hutf : utf8OrNull bytes with
  | none =>
    refine ⟨.leaf (.bytes bytes), ?_, ?_⟩
    · rw [decodeEntry, decodeValue, base64ToBytes_encode64, Option.map_some, hutf]
      rfl
    · rw [encodeEntry, bytesToBase64_eq]
      rfl
  | some text =>
    refine ⟨.leaf (.json (.str text)), ?_, ?_⟩
    · rw [decodeEntry, decodeValue, base64ToBytes_encode64, Option.map_some, hutf]
      rfl
    · rw [encodeEntry, encodeBase64Utf8_of_utf8OrNull hutf]
      rfl

/-- Every value of the entries is the base 64 of some bytes. -/
def Canonical (entries : Record N) : Prop :=
  ∀ x ∈ entries, ∃ bytes, x.2 = .leaf (.str (encode64 bytes))

theorem encodeEntries_decodeEntries {entries : Record N} (h : Canonical entries) :
    ∃ decoded, entries.mapM decodeEntry = some decoded ∧
      decoded.mapM encodeEntry = .ok (manifest entries) := by
  induction entries with
  | nil => exact ⟨[], rfl, rfl⟩
  | cons x entries ih =>
    obtain ⟨key, v⟩ := x
    obtain ⟨⟨bytes, rfl⟩, hentries⟩ := List.forall_mem_cons.mp h
    obtain ⟨v, hdecode, hencode⟩ := encodeEntry_decodeEntry (N := N) key bytes
    obtain ⟨decoded, hdecoded, hencoded⟩ := ih hentries
    refine ⟨(key, v) :: decoded, ?_, ?_⟩
    · rw [List.mapM_cons, hdecode, hdecoded]
      rfl
    · rw [List.mapM_cons, hencode, hencoded]
      rfl

theorem lookup_manifest (fields : Record N) (key : JStr) :
    (manifest fields).lookup key = (fields.lookup key).map ofJson := by
  induction fields with
  | nil => rfl
  | cons x fields ih =>
    obtain ⟨k, v⟩ := x
    have hcons : manifest ((k, v) :: fields) = (k, ofJson v) :: manifest fields := rfl
    rw [hcons, List.lookup_cons, List.lookup_cons, ih]
    cases key == k <;> rfl

theorem lookup_editableClone (obj : K8sObject N) :
    (editableClone obj).lookup (js "data") = obj.fields.lookup (js "data") := by
  rw [editableClone, DataTree.lookup_filterMap editableField obj.distinct]
  have hfield : editableField (N := N) (js "data") = some := by
    funext v
    rw [editableField, if_neg (by decide), if_neg (by decide)]
  rw [hfield]
  cases obj.fields.lookup (js "data") <;> rfl

theorem keys_editableClone (obj : K8sObject N) :
    ((editableClone obj).map Prod.fst).Nodup := by
  have hsub : ((editableClone obj).map Prod.fst).Sublist (obj.fields.map Prod.fst) := by
    rw [editableClone]
    induction obj.fields with
    | nil => exact List.Sublist.slnil
    | cons x fields ih =>
      rw [List.filterMap_cons]
      cases editableField x.1 x.2 with
      | none => exact ih.cons x.1
      | some v => exact ih.cons_cons x.1
  exact obj.distinct.sublist hsub

theorem setKey_of_mem {fields : List (JStr × Yaml N)} {key : JStr} (h : key ∈ fields.map Prod.fst)
    (v : Yaml N) :
    setKey key v fields = fields.map fun x => (x.1, if x.1 = key then v else x.2) := if_pos h

theorem keys_setKey {fields : List (JStr × Yaml N)} {key : JStr} (h : key ∈ fields.map Prod.fst)
    (v : Yaml N) : (setKey key v fields).map Prod.fst = fields.map Prod.fst := by
  rw [setKey_of_mem h, List.map_map]
  rfl

theorem setKey_setKey {fields : List (JStr × Yaml N)} {key : JStr} (h : key ∈ fields.map Prod.fst)
    (v w : Yaml N) : setKey key w (setKey key v fields) = setKey key w fields := by
  have hset : key ∈ (setKey key v fields).map Prod.fst := by rwa [keys_setKey h]
  rw [setKey_of_mem hset, setKey_of_mem h, setKey_of_mem h, List.map_map]
  refine List.map_congr_left fun x _ => ?_
  by_cases hx : x.1 = key
  · simp [hx]
  · simp [hx]

/-- Writing what is there changes nothing. -/
theorem setKey_lookup {fields : List (JStr × Yaml N)} (hkeys : (fields.map Prod.fst).Nodup)
    {key : JStr} {v : Yaml N} (h : fields.lookup key = some v) : setKey key v fields = fields := by
  have hmem := DataTree.mem_of_lookup h
  rw [setKey_of_mem (List.mem_map.mpr ⟨_, hmem, rfl⟩)]
  refine (List.map_congr_left fun x hx => ?_).trans (List.map_id fields)
  by_cases hxk : x.1 = key
  · have hv : fields.lookup x.1 = some x.2 := (DataTree.lookup_eq_some_iff hkeys).mpr hx
    rw [hxk, h] at hv
    rw [if_pos hxk, Option.some.inj hv]
    rfl
  · rw [if_neg hxk]
    rfl

theorem lookup_setKey {fields : List (JStr × Yaml N)} (hkeys : (fields.map Prod.fst).Nodup)
    {key : JStr} (h : key ∈ fields.map Prod.fst) (v : Yaml N) :
    (setKey key v fields).lookup key = some v := by
  have hset : ((setKey key v fields).map Prod.fst).Nodup := by rwa [keys_setKey h]
  refine (DataTree.lookup_eq_some_iff hset).mpr ?_
  obtain ⟨x, hx, rfl⟩ := List.mem_map.mp h
  rw [setKey_of_mem h]
  exact List.mem_map.mpr ⟨x, hx, by rw [if_pos rfl]⟩

theorem keys_manifest (fields : Record N) :
    (manifest fields).map Prod.fst = fields.map Prod.fst := by
  rw [manifest, List.map_map]
  rfl

theorem encodeSecretYaml_plain {lib : YamlLibrary N} {yamlText : JStr}
    {fields : List (JStr × Yaml N)} (hparse : lib.parseBinary yamlText = .ok (.obj fields))
    (h : fields.lookup (js "data") = none ∨
      fields.lookup (js "data") = some (.leaf (.json .null))) :
    encodeSecretYaml lib yamlText = .ok (lib.stringify (.obj fields)) := by
  rw [encodeSecretYaml, hparse]
  rcases h with h | h
  · simp only [bind, Except.bind, h]
  · simp only [bind, Except.bind, h]

theorem encodeSecretYaml_entries {lib : YamlLibrary N} {yamlText : JStr}
    {fields entries encoded : List (JStr × Yaml N)}
    (hparse : lib.parseBinary yamlText = .ok (.obj fields))
    (h : fields.lookup (js "data") = some (.obj entries))
    (hencode : entries.mapM encodeEntry = .ok encoded) : encodeSecretYaml lib yamlText =
      .ok (lib.stringify (.obj (setKey (js "data") (.obj encoded) fields))) := by
  rw [encodeSecretYaml, hparse]
  simp only [bind, Except.bind, h, hencode]
  rfl

theorem encodeSecretYaml_toDecodedSecretYaml (lib : YamlLibrary N) (obj : K8sObject N)
    (hdata : ∀ entries, obj.fields.lookup (js "data") = some (.obj entries) → Canonical entries)
    (hyaml : ∀ view, decodedView obj = some view →
      lib.parseBinary (lib.stringifyBinary view) = .ok view) :
    (editableClone obj).lookup (js "data") = obj.fields.lookup (js "data") ∧
    ∃ text, toDecodedSecretYaml lib obj = some text ∧
      encodeSecretYaml lib text = .ok (toEditableYaml lib obj) := by
  refine ⟨lookup_editableClone obj, ?_⟩
  have hlookup := lookup_manifest (editableClone obj) (js "data")
  rw [lookup_editableClone] at hlookup
  suffices h : ∃ view, decodedView obj = some view ∧
      (lib.parseBinary (lib.stringifyBinary view) = .ok view →
        encodeSecretYaml lib (lib.stringifyBinary view) = .ok (toEditableYaml lib obj)) by
    obtain ⟨view, hview, hencode⟩ := h
    exact ⟨_, by rw [toDecodedSecretYaml, hview]; rfl, hencode (hyaml view hview)⟩
  cases hfield : obj.fields.lookup (js "data") with
  | none =>
    rw [hfield] at hlookup
    exact ⟨_, by rw [decodedView, hfield], fun hparse => encodeSecretYaml_plain hparse (.inl hlookup)⟩
  | some v =>
    rw [hfield] at hlookup
    rcases obj.data v hfield with rfl | ⟨entries, rfl⟩
    · have hnull : ofJson (.leaf .null : Json N) = .leaf (.json .null) := by
        rw [ofJson, DataTree.map]
      rw [Option.map_some, hnull] at hlookup
      exact ⟨_, by rw [decodedView, hfield], fun hparse =>
        encodeSecretYaml_plain hparse (.inr hlookup)⟩
    · obtain ⟨decoded, hdecoded, hencoded⟩ := encodeEntries_decodeEntries (hdata _ hfield)
      have hobj (entries : Record N) : ofJson (.obj entries) = .obj (manifest entries) := by
        rw [ofJson, DataTree.map, DataTree.mapFields_eq]
        rfl
      rw [Option.map_some, hobj] at hlookup
      have hkeys : ((manifest (editableClone obj)).map Prod.fst).Nodup := by
        rw [keys_manifest]
        exact keys_editableClone obj
      have hmem : js "data" ∈ (manifest (editableClone obj)).map Prod.fst :=
        List.mem_map.mpr ⟨_, DataTree.mem_of_lookup hlookup, rfl⟩
      refine ⟨_, by rw [decodedView, hfield]; simp only [hdecoded]; rfl, fun hparse => ?_⟩
      rw [encodeSecretYaml_entries hparse (lookup_setKey hkeys hmem _) hencoded,
        setKey_setKey hmem, setKey_lookup hkeys hlookup, toEditableYaml]

/-- A Secret with a text and with bytes that are no text. -/
def dbSecret : K8sObject ℤ where
  fields := [(js "kind", .leaf (.str (js "Secret"))),
    (js "metadata", .obj [(js "name", .leaf (.str (js "db"))), (js "uid", .leaf (.str (js "s1")))]),
    (js "data", .obj [(js "password", .leaf (.str (js "czNjcmV0"))),
      (js "bin", .leaf (.str (js "//4AAQLI")))])]
  distinct := by decide
  metadata v hv := ⟨_, (Option.some.inj hv).symm⟩
  data v hv := .inr ⟨[(js "password", js "czNjcmV0"), (js "bin", js "//4AAQLI")],
    (Option.some.inj hv).symm⟩

def dbView : Yaml ℤ :=
  .obj [(js "kind", .leaf (.json (.str (js "Secret")))),
    (js "metadata", .obj [(js "name", .leaf (.json (.str (js "db"))))]),
    (js "data", .obj [(js "password", .leaf (.json (.str (js "s3cret")))),
      (js "bin", .leaf (.bytes [0xFF, 0xFE, 0x00, 0x01, 0x02, 0xC8]))])]

/-- The library on these two manifests. -/
def dbYaml : YamlLibrary ℤ where
  stringify _ := js "kind: Secret\nmetadata:\n  name: db\ndata:\n  password: czNjcmV0\n" ++
    js "  bin: //4AAQLI\n"
  stringifyBinary _ := js "kind: Secret\nmetadata:\n  name: db\ndata:\n  password: s3cret\n" ++
    js "  bin: !!binary |-\n    //4AAQLI\n"
  parseBinary _ := .ok dbView

theorem decodedView_dbSecret : decodedView dbSecret = some dbView := by rfl

theorem encodeSecretYaml_toDecodedSecretYaml_db :
    (editableClone dbSecret).lookup (js "data") = dbSecret.fields.lookup (js "data") ∧
    ∃ text, toDecodedSecretYaml dbYaml dbSecret = some text ∧
      encodeSecretYaml dbYaml text = .ok (toEditableYaml dbYaml dbSecret) :=
  encodeSecretYaml_toDecodedSecretYaml dbYaml dbSecret
    (fun entries h => by
      cases h
      exact List.forall_mem_cons.mpr ⟨⟨[0x73, 0x33, 0x63, 0x72, 0x65, 0x74], rfl⟩,
        List.forall_mem_singleton.mpr ⟨[0xFF, 0xFE, 0x00, 0x01, 0x02, 0xC8], rfl⟩⟩)
    (fun view hview => by
      rw [decodedView_dbSecret] at hview
      rw [← Option.some.inj hview]
      rfl)

end KubeConsole.Web.SecretYaml
