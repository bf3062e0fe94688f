import KubeConsole.Go.URL
import KubeConsole.Theory.Fields
import KubeConsole.Theory.Keyed

/-!
The query of a URL (`net/url`), and what `httputil.ReverseProxy` makes of it before it
forwards a request: a query that `url.ParseQuery` would not take whole is parsed and
encoded again.
-/
namespace KubeConsole.Go
open KubeConsole.Theory

/-- `url.QueryUnescape`. -/
def queryUnescape (s : Str) : Option Str :=
  pathUnescape (s.map fun b => if b = chr '+' then chr ' ' else b)

/-- `shouldEscape` in the mode `encodeQueryComponent`. -/
def shouldEscapeQuery (b : UInt8) : Bool :=
  !(chr 'a' ≤ b && b ≤ chr 'z' || chr 'A' ≤ b && b ≤ chr 'Z' || chr '0' ≤ b && b ≤ chr '9' ||
    b ∈ str "-_.~")

def queryEscapeByte (b : UInt8) : Str :=
  if b = chr ' ' then [chr '+']
  else if shouldEscapeQuery b then [chr '%', upperHex (b / 16), upperHex (b % 16)]
  else [b]

/-- `url.QueryEscape`. -/
def queryEscape (s : Str) : Str := s.flatMap queryEscapeByte

/-- The fields of a query. A part with a semicolon in it is an error, an empty one is nothing. -/
def queryFormat : FieldFormat UInt8 Str where
  sep := chr '&'
  assign := chr '='
  escape := queryEscape
  unescape := queryUnescape
  skips part := part.isEmpty || part.contains (chr ';')

/-- `url.Values`, in the order in which the values were appended. -/
abbrev Values := List (Str × Str)

/-- `url.ParseQuery`, whose error its callers here ignore. A query with more than `maxParams`
parameters, where there is a limit, is refused as a whole. -/
def parseQuery (maxParams : Option ℕ) (query : Str) : Values :=
  if ∃ n ∈ maxParams, n < query.count (chr '&') + 1 then [] else queryFormat.read query

namespace Values

/-- `v[key]`. -/
def get (v : Values) (key : Str) : List Str := (v.filter fun p => p.1 = key).map Prod.snd

/-- `Values.Encode`: sorted by key. -/
def encode (v : Values) : Str :=
  queryFormat.write (((v.map Prod.fst).dedup.insertionSort (· ≤ ·)).flatMap fun k =>
    v.filter fun p => p.1 = k)

end Values

/-- The loop of `cleanQueryParams`: no semicolon and no broken escape. -/
def cleanQuery : Str → Bool
  | [] => true
  | b :: s =>
    if b = chr ';' then false
    else if b = chr '%' then
      match s with
      | c :: d :: s => (unhex c).isSome && (unhex d).isSome && cleanQuery s
      | _ => false
    else cleanQuery s

/-- `cleanQueryParams`. -/
def cleanQueryParams (maxParams : Option ℕ) (query : Str) : Str :=
  if cleanQuery query then query else (parseQuery maxParams query).encode

/-! Escaping. -/

theorem queryUnescape_append {s t : Str} (h : queryUnescape s = some t) (r : Str) :
    queryUnescape (s ++ r) = (queryUnescape r).map (t ++ ·) := by
  unfold queryUnescape at *
  rw [List.map_append, pathUnescape_append h]

/-- The three bytes of an escape, for the half bytes it is made of. -/
theorem upperHex_plain {d : UInt8} (h : d < 16) :
    upperHex d ≠ chr '+' ∧ upperHex d ≠ chr '&' ∧ upperHex d ≠ chr '=' ∧ upperHex d ≠ chr ';' := by
  have hall : ∀ n < 16, upperHex n.toUInt8 ≠ chr '+' ∧ upperHex n.toUInt8 ≠ chr '&' ∧
      upperHex n.toUInt8 ≠ chr '=' ∧ upperHex n.toUInt8 ≠ chr ';' := by decide
  have hd : d.toNat < 16 := UInt8.lt_iff_toNat_lt.mp h
  simpa using hall d.toNat hd

theorem halves_lt (b : UInt8) : b / 16 < 16 ∧ b % 16 < 16 := by
  have hb := b.toNat_lt
  constructor
  · rw [UInt8.lt_iff_toNat_lt]
    simp
    omega
  · rw [UInt8.lt_iff_toNat_lt]
    simp
    omega

/-- What is left as it is is none of the characters with a meaning in a query. -/
theorem plain_of_not_shouldEscapeQuery {b : UInt8} (h : ¬shouldEscapeQuery b = true) :
    b ≠ chr '%' ∧ b ≠ chr '+' ∧ b ≠ chr '&' ∧ b ≠ chr '=' ∧ b ≠ chr ';' := by
  refine ⟨?_, ?_, ?_, ?_, ?_⟩ <;> rintro rfl <;> exact h (by decide)

theorem queryUnescape_byte (b : UInt8) : queryUnescape (queryEscapeByte b) = some [b] := by
  unfold queryEscapeByte queryUnescape
  split_ifs with hspace hesc
  · subst hspace
    decide
  · obtain ⟨hhi, hlo⟩ := halves_lt b
    have hpercent : chr '%' ≠ chr '+' := by decide
    simp [hpercent, (upperHex_plain hhi).1, (upperHex_plain hlo).1, pathUnescape_escape,
      unhex_upperHex hhi, unhex_upperHex hlo, div_mul_add_mod]
  · obtain ⟨hp, hplus, -⟩ := plain_of_not_shouldEscapeQuery hesc
    simp [hplus, pathUnescape_cons hp]

/-- What `QueryEscape` writes, `QueryUnescape` reads back. -/
theorem queryUnescape_queryEscape (s : Str) : queryUnescape (queryEscape s) = some s := by
  induction s with
  | nil => rfl
  | cons b s ih =>
    rw [queryEscape, List.flatMap_cons, queryUnescape_append (queryUnescape_byte b), ← queryEscape,
      ih]
    rfl

theorem queryEscape_plain {s : Str} {c : UInt8} (hc : c ∈ queryEscape s) :
    c ≠ chr '&' ∧ c ≠ chr '=' ∧ c ≠ chr ';' := by
  obtain ⟨b, -, hc⟩ := List.mem_flatMap.mp hc
  unfold queryEscapeByte at hc
  split_ifs at hc with hspace hesc
  · rw [List.mem_singleton.mp hc]
    decide
  · obtain ⟨hhi, hlo⟩ := halves_lt b
    simp only [List.mem_cons, List.not_mem_nil, or_false] at hc
    rcases hc with rfl | rfl | rfl
    · decide
    · exact (upperHex_plain hhi).2
    · exact (upperHex_plain hlo).2
  · rw [List.mem_singleton.mp hc]
    exact (plain_of_not_shouldEscapeQuery hesc).2.2

theorem queryFormat_lawful : queryFormat.Lawful where
  unescape_escape := queryUnescape_queryEscape
  sep_notMem _ h := (queryEscape_plain h).1 rfl
  assign_notMem _ h := (queryEscape_plain h).2.1 rfl
  sep_ne_assign := by decide
  skips_nil := rfl
  skips_field p := by
    have hsemi (s : Str) : chr ';' ∉ queryEscape s := fun h => (queryEscape_plain h).2.2 rfl
    have hne : chr ';' ≠ chr '=' := by decide
    simp [queryFormat, FieldFormat.writeField, hsemi, hne]

/-! The query that is forwarded. -/

namespace Values

theorem get_flatMap_filter {v : Values} {ks : List Str} (hks : ks.Nodup)
    (hall : ∀ p ∈ v, p.1 ∈ ks) (key : Str) :
    get (ks.flatMap fun k => v.filter fun p => p.1 = k) key = v.get key := by
  unfold get
  rw [Keyed.filter_flatMap_filter hks]
  split_ifs with hkey
  · rfl
  · have hnone : (v.filter fun p => decide (p.1 = key)) = [] := by
      rw [List.filter_eq_nil_iff]
      intro p hp heq
      exact hkey (of_decide_eq_true heq ▸ hall p hp)
    rw [hnone]

/-- Encoding keeps the values of each key in their order, and adds no parameter. -/
theorem read_encode (v : Values) :
    (∀ key, get (queryFormat.read v.encode) key = v.get key) ∧
      v.encode.count (chr '&') = v.length - 1 := by
  have hperm := List.perm_insertionSort (· ≤ ·) (v.map Prod.fst).dedup
  have hnodup := hperm.nodup_iff.mpr (List.nodup_dedup _)
  have hall : ∀ p ∈ v, p.1 ∈ (v.map Prod.fst).dedup.insertionSort (· ≤ ·) := by
    intro p hp
    rw [hperm.mem_iff, List.mem_dedup]
    exact List.mem_map_of_mem hp
  refine ⟨fun key => ?_, ?_⟩
  · rw [encode, queryFormat_lawful.read_write, get_flatMap_filter hnodup hall]
  · rw [encode, show chr '&' = queryFormat.sep from rfl, queryFormat_lawful.count_write,
      (Keyed.perm_flatMap_filter hnodup hall).length_eq]

end Values

theorem count_eq_length_splitOn (x : UInt8) (s : Str) : (s.splitOn x).length = s.count x + 1 := by
  induction s with
  | nil => rfl
  | cons b s ih =>
    rw [List.splitOn_cons_eq_if_modifyHead, List.count_cons]
    split_ifs with hb
    · simp [ih]
    · simpa using ih

/-- A limit on parameters that the query is within. -/
def WithinParams (maxParams : Option ℕ) (query : Str) : Prop :=
  ∀ n ∈ maxParams, query.count (chr '&') < n

instance (maxParams : Option ℕ) (query : Str) : Decidable (WithinParams maxParams query) :=
  inferInstanceAs (Decidable (∀ n ∈ maxParams, query.count (chr '&') < n))

theorem parseQuery_of_within {maxParams : Option ℕ} {query : Str}
    (h : WithinParams maxParams query) : parseQuery maxParams query = queryFormat.read query := by
  rw [parseQuery, if_neg]
  rintro ⟨n, hn, hlt⟩
  have := h n hn
  omega

/-- The forwarded query has no more parameters than the query. -/
theorem count_cleanQueryParams_le (maxParams : Option ℕ) (query : Str) :
    (cleanQueryParams maxParams query).count (chr '&') ≤ query.count (chr '&') := by
  unfold cleanQueryParams
  split_ifs
  · exact le_rfl
  · rw [(Values.read_encode _).2]
    unfold parseQuery
    split_ifs
    · simp
    · have hlen := queryFormat.length_read_le query
      rw [count_eq_length_splitOn] at hlen
      have hsep : queryFormat.sep = chr '&' := rfl
      rw [hsep] at hlen
      omega

/-- What is forwarded reads upstream as the values that the gateway reads itself. -/
theorem parseQuery_cleanQueryParams {maxParams upstreamMax : Option ℕ} {query : Str}
    (h : WithinParams maxParams query) (hup : WithinParams upstreamMax query) (key : Str) :
    (parseQuery upstreamMax (cleanQueryParams maxParams query)).get key =
      (parseQuery maxParams query).get key := by
  have hclean : WithinParams upstreamMax (cleanQueryParams maxParams query) := fun n hn =>
    (count_cleanQueryParams_le maxParams query).trans_lt (hup n hn)
  rw [parseQuery_of_within hclean, cleanQueryParams, parseQuery_of_within h]
  split_ifs
  · rfl
  · exact (Values.read_encode _).1 key

example : cleanQueryParams none (str "watch=1;x&limit=5&a=%zz&b=c+d") = str "b=c+d&limit=5" := by
  decide +kernel

end KubeConsole.Go
