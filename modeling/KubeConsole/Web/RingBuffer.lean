import KubeConsole.Theory.Tail
import KubeConsole.Web.Js

/-!
The samples of a metrics chart (`ringBuffer.ts`): series that share their timestamps. Times are
rationals, the values of the samples anything.

An object that is read at a label it has no entry for is read further at `Object.prototype`.
-/
namespace KubeConsole.Web
open KubeConsole.Theory

def MAX_SAMPLES : ℕ := 240

/-- The members of `Object.prototype`. None of them is `null` or `undefined`. -/
def objectPrototype : List JStr :=
  [js "constructor", js "__defineGetter__", js "__defineSetter__", js "hasOwnProperty",
    js "__lookupGetter__", js "__lookupSetter__", js "isPrototypeOf", js "propertyIsEnumerable",
    js "toString", js "valueOf", js "__proto__", js "toLocaleString"]

/-- A point of a series: a value, `null`, or a member of `Object.prototype`. -/
inductive Point (V : Type*) where
  | value (v : V)
  | null
  | member (name : JStr)
  deriving DecidableEq

/-- `values[label] ?? null`, for the own entries of an object in the order of `Object.keys`. -/
def readPoint {V : Type*} (values : List (JStr × V)) (label : JStr) : Point V :=
  match values.lookup label with
  | some v => .value v
  | none => if label ∈ objectPrototype then .member label else .null

structure MultiSeriesRingBuffer (V : Type*) where
  timestamps : List ℚ
  series : List (JStr × List (Point V))
  deriving DecidableEq

namespace MultiSeriesRingBuffer
variable {V : Type*}

def empty : MultiSeriesRingBuffer V := ⟨[], []⟩

/-- A new label is filled with `null`. -/
def addLabel (n : ℕ) (series : List (JStr × List (Point V))) (label : JStr) :
    List (JStr × List (Point V)) :=
  if label ∈ series.map Prod.fst then series else series ++ [(label, List.replicate n .null)]

def push (b : MultiSeriesRingBuffer V) (timestampMs : ℚ) (values : List (JStr × V)) :
    MultiSeriesRingBuffer V × Bool :=
  if b.timestamps.getLast?.any (timestampMs ≤ ·) then (b, false)
  else
    let timestamps := b.timestamps ++ [timestampMs]
    let filled := (values.map Prod.fst).foldl (addLabel (timestamps.length - 1)) b.series
    let series := filled.map fun s => (s.1, s.2 ++ [readPoint values s.1])
    if MAX_SAMPLES < timestamps.length then
      (⟨timestamps.drop 1, series.map fun s => (s.1, s.2.drop 1)⟩, true)
    else (⟨timestamps, series⟩, true)

def length (b : MultiSeriesRingBuffer V) : ℕ := b.timestamps.length

def lastTimestamp (b : MultiSeriesRingBuffer V) : Option ℚ := b.timestamps.getLast?

def labels (b : MultiSeriesRingBuffer V) : List JStr := b.series.map Prod.fst

/-- The seconds and, for each label, the points. -/
def toUplotData (b : MultiSeriesRingBuffer V) (rangeSeconds : Option ℚ) :
    List ℚ × List (List (Point V)) :=
  let from_ : ℕ :=
    match rangeSeconds, b.timestamps.getLast? with
    | some r, some last => (b.timestamps.findIdx? fun t => last - r * 1000 ≤ t).getD 0
    | _, _ => 0
  ((b.timestamps.drop from_).map fun t => t / 1000, b.series.map fun s => s.2.drop from_)

/-! ## What the samples say -/

structure Sample (V : Type*) where
  timestampMs : ℚ
  values : List (JStr × V)

/-- The value that a sample has for a label, if it owns an entry. -/
def Sample.point (s : Sample V) (label : JStr) : Point V :=
  match s.values.lookup label with
  | some v => .value v
  | none => .null

/-- The labels in the order in which they appear. -/
def addKeys (known : List JStr) (s : Sample V) : List JStr :=
  (s.values.map Prod.fst).foldl (fun ls l => if l ∈ ls then ls else ls ++ [l]) known

def labelsOf (samples : List (Sample V)) : List JStr := samples.foldl addKeys []

/-- The newest samples, each series with the point of every sample. -/
def ofSamples (samples : List (Sample V)) : MultiSeriesRingBuffer V where
  timestamps := (samples.rtake MAX_SAMPLES).map Sample.timestampMs
  series := (labelsOf samples).map fun l => (l, (samples.rtake MAX_SAMPLES).map (·.point l))

/-- The buffer and the samples that it accepted. -/
def run (samples : List (Sample V)) : MultiSeriesRingBuffer V × List (Sample V) :=
  samples.foldl (fun r s =>
    let pushed := r.1.push s.timestampMs s.values
    (pushed.1, if pushed.2 then r.2 ++ [s] else r.2)) (empty, [])

/-! ## Labels -/

variable {b : MultiSeriesRingBuffer V} {s : Sample V} {samples : List (Sample V)} {l : JStr}

/-- The labels of a sample. -/
def Sample.keys (s : Sample V) : List JStr := s.values.map Prod.fst

theorem mem_foldl_keys (keys known : List JStr) :
    l ∈ keys.foldl (fun ls l => if l ∈ ls then ls else ls ++ [l]) known ↔ l ∈ known ∨ l ∈ keys := by
  induction keys generalizing known with
  | nil => simp
  | cons k keys ih =>
    rw [List.foldl_cons, ih]
    split_ifs with hk
    · constructor
      · exact fun h => h.imp_right (List.mem_cons_of_mem k)
      · rintro (h | h)
        · exact .inl h
        · rcases List.mem_cons.mp h with rfl | h
          · exact .inl hk
          · exact .inr h
    · rw [List.mem_append, List.mem_singleton, List.mem_cons, or_assoc]

theorem nodup_foldl_keys (keys : List JStr) {known : List JStr} (h : known.Nodup) :
    (keys.foldl (fun ls l => if l ∈ ls then ls else ls ++ [l]) known).Nodup := by
  induction keys generalizing known with
  | nil => exact h
  | cons k keys ih =>
    rw [List.foldl_cons]
    apply ih
    split_ifs with hk
    · exact h
    · exact List.nodup_append.mpr ⟨h, List.nodup_singleton k, fun a ha c hc => by
        rintro rfl
        exact hk (List.mem_singleton.mp hc ▸ ha)⟩

theorem labelsOf_concat (samples : List (Sample V)) (s : Sample V) :
    labelsOf (samples ++ [s]) = addKeys (labelsOf samples) s := by
  rw [labelsOf, List.foldl_concat, labelsOf]

theorem mem_labelsOf : l ∈ labelsOf samples ↔ ∃ s ∈ samples, l ∈ s.keys := by
  induction samples using List.reverseRecOn with
  | nil => simp [labelsOf]
  | append_singleton samples s ih =>
    rw [labelsOf_concat, addKeys, mem_foldl_keys, ih]
    simp only [List.mem_append, List.mem_singleton, or_and_right, exists_or, exists_eq_left]
    rfl

theorem nodup_labelsOf (samples : List (Sample V)) : (labelsOf samples).Nodup := by
  induction samples using List.reverseRecOn with
  | nil => exact List.nodup_nil
  | append_singleton samples s ih =>
    rw [labelsOf_concat]
    exact nodup_foldl_keys _ ih

/-! ## Points -/

theorem lookup_eq_none {values : List (JStr × V)} :
    values.lookup l = none ↔ l ∉ values.map Prod.fst := by
  rw [List.lookup_eq_none_iff]
  constructor
  · intro h hmem
    obtain ⟨entry, hentry, rfl⟩ := List.mem_map.mp hmem
    simpa using h entry hentry
  · intro h entry hentry
    rw [bne_iff_ne]
    rintro rfl
    exact h (List.mem_map_of_mem hentry)

theorem point_eq_null (h : l ∉ s.keys) : s.point l = .null := by
  rw [Sample.point, lookup_eq_none.mpr h]

theorem readPoint_eq_point (h : l ∈ objectPrototype → l ∈ s.keys) :
    readPoint s.values l = s.point l := by
  rw [readPoint, Sample.point]
  cases hl : s.values.lookup l with
  | some v => rfl
  | none => exact if_neg fun hmem => lookup_eq_none.mp hl (h hmem)

/-- Filling the new labels of a sample keeps the others. -/
theorem foldl_addLabel (n : ℕ) (points : JStr → List (Point V)) (keys known : List JStr)
    (h : ∀ k ∈ keys, k ∉ known → points k = List.replicate n .null) :
    keys.foldl (addLabel n) (known.map fun l => (l, points l)) =
      (keys.foldl (fun ls l => if l ∈ ls then ls else ls ++ [l]) known).map
        fun l => (l, points l) := by
  induction keys generalizing known with
  | nil => rfl
  | cons k keys ih =>
    have hknown : (known.map fun l => (l, points l)).map Prod.fst = known := by
      rw [List.map_map]
      exact List.map_id known
    rw [List.foldl_cons, List.foldl_cons, addLabel, hknown]
    by_cases hk : k ∈ known
    · rw [if_pos hk, if_pos hk]
      exact ih known fun j hj => h j (by simp [hj])
    · rw [if_neg hk, if_neg hk, ← h k (by simp) hk, ← ih]
      · rw [List.map_append, List.map_singleton]
      · intro j hj hjk
        exact h j (by simp [hj]) fun hmem => hjk (by simp [hmem])

/-! ## Pushing -/

/-- The sample is newer than all there are. -/
def Newer (b : MultiSeriesRingBuffer V) (s : Sample V) : Prop :=
  ∀ last ∈ b.lastTimestamp, last < s.timestampMs

instance (b : MultiSeriesRingBuffer V) (s : Sample V) : Decidable (b.Newer s) :=
  inferInstanceAs (Decidable (∀ last ∈ b.lastTimestamp, last < s.timestampMs))

/-- Of the labels that are there, the sample owns those that `Object.prototype` has a member for. -/
def OwnsMembers (b : MultiSeriesRingBuffer V) (s : Sample V) : Prop :=
  ∀ l ∈ b.labels, l ∈ objectPrototype → l ∈ s.keys

theorem not_newer_iff : b.timestamps.getLast?.any (s.timestampMs ≤ ·) = true ↔ ¬ b.Newer s := by
  rw [Newer, lastTimestamp]
  cases b.timestamps.getLast? <;> simp

theorem push_of_not_newer (h : ¬ b.Newer s) : b.push s.timestampMs s.values = (b, false) := by
  rw [push, if_pos (not_newer_iff.mpr h)]

theorem labels_ofSamples : (ofSamples samples).labels = labelsOf samples := by
  rw [labels, ofSamples, List.map_map]
  exact List.map_id _

/-- What is one too long loses its oldest. -/
theorem rtake_eq_trim {α : Type*} {xs : List α} (h : xs.length ≤ MAX_SAMPLES + 1) :
    xs.rtake MAX_SAMPLES = if MAX_SAMPLES < xs.length then xs.drop 1 else xs := by
  split_ifs with hlt
  · rw [List.rtake, show xs.length - MAX_SAMPLES = 1 by omega]
  · exact rtake_of_length_le (not_lt.mp hlt)

theorem push_ofSamples (hnewer : (ofSamples samples).Newer s)
    (howns : (ofSamples samples).OwnsMembers s) :
    (ofSamples samples).push s.timestampMs s.values = (ofSamples (samples ++ [s]), true) := by
  have hlen : (samples.rtake MAX_SAMPLES ++ [s]).length ≤ MAX_SAMPLES + 1 := by
    rw [List.length_append, length_rtake, List.length_singleton]
    omega
  have hkept : (samples ++ [s]).rtake MAX_SAMPLES =
      if MAX_SAMPLES < (samples.rtake MAX_SAMPLES ++ [s]).length then
        (samples.rtake MAX_SAMPLES ++ [s]).drop 1 else samples.rtake MAX_SAMPLES ++ [s] := by
    rw [← rtake_append_left, rtake_eq_trim hlen]
  have hfilled : s.keys.foldl (addLabel (samples.rtake MAX_SAMPLES).length)
      (ofSamples samples).series =
      (labelsOf (samples ++ [s])).map fun l => (l, (samples.rtake MAX_SAMPLES).map (·.point l)) := by
    rw [labelsOf_concat]
    refine foldl_addLabel _ _ _ _ fun k _ hk => ?_
    -- no sample that is kept has a label that is new
    refine List.eq_replicate_iff.mpr ⟨List.length_map _, fun point hpoint => ?_⟩
    obtain ⟨old, hold, rfl⟩ := List.mem_map.mp hpoint
    have hmem : old ∈ samples := (rtake_suffix _ _).subset hold
    exact point_eq_null fun hkey => hk (mem_labelsOf.mpr ⟨old, hmem, hkey⟩)
  have hread : ∀ l ∈ labelsOf (samples ++ [s]), readPoint s.values l = s.point l := by
    intro l hl
    refine readPoint_eq_point fun hproto => ?_
    rw [labelsOf_concat, addKeys, mem_foldl_keys] at hl
    rcases hl with hl | hl
    · exact howns l (labels_ofSamples ▸ hl) hproto
    · exact hl
  have hseries : ((s.keys.foldl (addLabel (samples.rtake MAX_SAMPLES).length)
      (ofSamples samples).series).map fun p => (p.1, p.2 ++ [readPoint s.values p.1])) =
      (labelsOf (samples ++ [s])).map
        fun l => (l, (samples.rtake MAX_SAMPLES ++ [s]).map (·.point l)) := by
    rw [hfilled, List.map_map]
    refine List.map_congr_left fun l hl => ?_
    simp only [Function.comp_apply, hread l hl, List.map_append, List.map_singleton]
  have hcount : ((ofSamples samples).timestamps ++ [s.timestampMs]).length - 1 =
      (samples.rtake MAX_SAMPLES).length := by
    rw [List.length_append, List.length_singleton, Nat.add_sub_cancel, ofSamples, List.length_map]
  have htimes : (ofSamples samples).timestamps ++ [s.timestampMs] =
      (samples.rtake MAX_SAMPLES ++ [s]).map Sample.timestampMs := by
    rw [List.map_append, List.map_singleton, ofSamples]
  rw [push, if_neg fun h => not_newer_iff.mp h hnewer]
  simp only
  rw [hcount, ← Sample.keys, hseries, htimes, List.length_map, ofSamples, hkept]
  split_ifs
  · simp only [List.map_map, List.map_drop, Function.comp_def]
  · rfl

/-! ## What holds of a buffer -/

/-- Those of some samples that are within `r` seconds of the newest. -/
def within (r : ℚ) (samples : List (Sample V)) : List (Sample V) :=
  samples.filter fun s => ∀ newest ∈ samples.getLast?, newest.timestampMs - r * 1000 ≤ s.timestampMs

/-- The buffer has what was accepted last, point by point. -/
structure Holds (accepted : List (Sample V)) (b : MultiSeriesRingBuffer V) : Prop where
  increasing : b.timestamps.Pairwise (· < ·)
  bounded : b.length ≤ MAX_SAMPLES
  newest : b.timestamps = (accepted.rtake MAX_SAMPLES).map Sample.timestampMs
  distinct : b.labels.Nodup
  labelled : ∀ l, l ∈ b.labels ↔ ∃ s ∈ accepted, l ∈ s.keys
  aligned : ∀ p ∈ b.series, p.2.length = b.length
  points : ∀ p ∈ b.series, p.2 = (accepted.rtake MAX_SAMPLES).map (·.point p.1)
  columns : ∀ r, 0 ≤ r → ∀ column ∈ (b.toUplotData (some r)).2,
    column.length = (b.toUplotData (some r)).1.length
  window : ∀ r, 0 ≤ r → b.toUplotData (some r) =
    ((within r (accepted.rtake MAX_SAMPLES)).map fun s => s.timestampMs / 1000,
      b.labels.map fun l => (within r (accepted.rtake MAX_SAMPLES)).map (·.point l))

/-- The first sample that is drawn begins those within the range. -/
theorem drop_findIdx_within {kept : List (Sample V)} {newest : Sample V} {r : ℚ}
    (hlast : kept.getLast? = some newest)
    (hsorted : kept.Pairwise fun s t => s.timestampMs < t.timestampMs) :
    kept.drop (kept.findIdx fun s => newest.timestampMs - r * 1000 ≤ s.timestampMs) =
      within r kept := by
  have hfilter := drop_findIdx (p := fun s : Sample V => newest.timestampMs - r * 1000 ≤
    s.timestampMs) (hsorted.imp fun hlt hs => decide_eq_true ((of_decide_eq_true hs).trans hlt.le))
  rw [hfilter, within]
  refine List.filter_congr fun s _ => ?_
  simp [hlast]

/-- What is drawn of series that have a point for each of some samples. -/
theorem toUplotData_map {kept : List (Sample V)} (known : List JStr) {r : ℚ} (hr : 0 ≤ r)
    (hsorted : kept.Pairwise fun s t => s.timestampMs < t.timestampMs) :
    toUplotData ⟨kept.map Sample.timestampMs, known.map fun l => (l, kept.map (·.point l))⟩
        (some r) =
      ((within r kept).map fun s => s.timestampMs / 1000,
        known.map fun l => (within r kept).map (·.point l)) := by
  simp only [toUplotData, List.getLast?_map, List.map_map]
  cases hlast : kept.getLast? with
  | none =>
    rw [List.getLast?_eq_none_iff] at hlast
    subst hlast
    simp [within, Function.comp_def]
  | some newest =>
    have hmem : newest ∈ kept := List.mem_of_getLast? hlast
    have hfound : (kept.map Sample.timestampMs).findIdx?
        (fun t => newest.timestampMs - r * 1000 ≤ t) =
        some (kept.findIdx fun s => newest.timestampMs - r * 1000 ≤ s.timestampMs) := by
      rw [List.findIdx?_map]
      refine List.findIdx?_eq_some_of_exists ⟨newest, hmem, decide_eq_true ?_⟩
      linarith
    simp only [Option.map_some, hfound, Option.getD_some, ← List.map_drop, List.map_map,
      Function.comp_def, drop_findIdx_within hlast hsorted]

theorem holds_ofSamples
    (hsorted : samples.Pairwise fun s t => s.timestampMs < t.timestampMs) :
    Holds samples (ofSamples samples) := by
  have hkept := hsorted.sublist (rtake_suffix MAX_SAMPLES samples).sublist
  have htimes : (ofSamples samples).timestamps =
      (samples.rtake MAX_SAMPLES).map Sample.timestampMs := by rw [ofSamples]
  have hlength : (ofSamples samples).length = (samples.rtake MAX_SAMPLES).length := by
    rw [length, htimes, List.length_map]
  have hpoints : ∀ p ∈ (ofSamples samples).series,
      p.2 = (samples.rtake MAX_SAMPLES).map (·.point p.1) := by
    intro p hp
    rw [ofSamples, List.mem_map] at hp
    obtain ⟨l, -, rfl⟩ := hp
    simp only
  have hwindow (r : ℚ) (hr : 0 ≤ r) := toUplotData_map (labelsOf samples) hr hkept
  constructor
  · rw [htimes, List.pairwise_map]
    exact hkept
  · rw [hlength, length_rtake]
    exact Nat.min_le_left _ _
  · exact htimes
  · rw [labels_ofSamples]
    exact nodup_labelsOf samples
  · intro l
    rw [labels_ofSamples]
    exact mem_labelsOf
  · intro p hp
    rw [hpoints p hp, List.length_map, hlength]
  · exact hpoints
  · intro r hr column hcolumn
    rw [ofSamples, hwindow r hr] at hcolumn ⊢
    obtain ⟨l, -, rfl⟩ := List.mem_map.mp hcolumn
    rw [List.length_map, List.length_map]
  · intro r hr
    rw [labels_ofSamples, ofSamples, hwindow r hr]

/-! ## Runs -/

theorem run_concat (samples : List (Sample V)) (s : Sample V) :
    run (samples ++ [s]) =
      (((run samples).1.push s.timestampMs s.values).1,
        if ((run samples).1.push s.timestampMs s.values).2 then (run samples).2 ++ [s]
        else (run samples).2) := by
  rw [run, List.foldl_concat, ← run]

theorem getLast?_rtake {α : Type*} {n : ℕ} (hn : 0 < n) (xs : List α) :
    (xs.rtake n).getLast? = xs.getLast? := by
  cases xs using List.reverseRecOn with
  | nil => rw [List.rtake_nil]
  | append_singleton xs x =>
    obtain ⟨n, rfl⟩ := Nat.exists_eq_succ_of_ne_zero hn.ne'
    rw [List.rtake_concat_succ, List.getLast?_concat, List.getLast?_concat]

theorem newer_ofSamples_iff :
    (ofSamples samples).Newer s ↔ ∀ last ∈ samples.getLast?, last.timestampMs < s.timestampMs := by
  rw [Newer, lastTimestamp, ofSamples, List.getLast?_map, getLast?_rtake (by decide)]
  simp

/-- A sample that is newer than the last is newer than all. -/
theorem pairwise_concat (hsorted : samples.Pairwise fun s t => s.timestampMs < t.timestampMs)
    (hnewer : (ofSamples samples).Newer s) :
    (samples ++ [s]).Pairwise fun s t => s.timestampMs < t.timestampMs := by
  rw [newer_ofSamples_iff] at hnewer
  refine List.pairwise_append.mpr ⟨hsorted, List.pairwise_singleton _ _, fun old hold new hnew => ?_⟩
  rw [List.mem_singleton.mp hnew]
  cases samples using List.reverseRecOn with
  | nil => cases hold
  | append_singleton samples last =>
    have hlast := hnewer last (by simp)
    rcases List.mem_append.mp hold with hold | hold
    · exact ((List.pairwise_append.mp hsorted).2.2 old hold last (by simp)).trans hlast
    · rwa [List.mem_singleton.mp hold]

/-- Each sample that was accepted owns the labels there were that name a member. -/
def OwnsAlong (samples : List (Sample V)) : Prop :=
  ∀ before s, before ++ [s] <+: samples → (run before).1.Newer s → (run before).1.OwnsMembers s

theorem ofSamples_nil : ofSamples ([] : List (Sample V)) = empty := by
  rw [ofSamples, List.rtake_nil, labelsOf, List.foldl_nil, List.map_nil, List.map_nil, empty]

theorem run_of_ownsAlong (h : OwnsAlong samples) :
    (run samples).1 = ofSamples (run samples).2 ∧
      (run samples).2.Pairwise fun s t => s.timestampMs < t.timestampMs := by
  induction samples using List.reverseRecOn with
  | nil => exact ⟨ofSamples_nil.symm, List.Pairwise.nil⟩
  | append_singleton samples s ih =>
    obtain ⟨hbuffer, hsorted⟩ := ih fun before t hpre =>
      h before t (hpre.trans (List.prefix_append _ _))
    have howns := h samples s List.prefix_rfl
    rw [hbuffer] at howns
    rw [run_concat, hbuffer]
    by_cases hnewer : (ofSamples (run samples).2).Newer s
    · rw [push_ofSamples hnewer (howns hnewer)]
      simp only [↓reduceIte, true_and]
      exact pairwise_concat hsorted hnewer
    · rw [push_of_not_newer hnewer]
      simp only [Bool.false_eq_true, ↓reduceIte, true_and]
      exact hsorted

theorem mem_foldl_addLabel (n : ℕ) (keys : List JStr) {series : List (JStr × List (Point V))}
    {p : JStr × List (Point V)} (h : p ∈ series) : p ∈ keys.foldl (addLabel n) series := by
  induction keys generalizing series with
  | nil => exact h
  | cons k keys ih =>
    apply ih
    rw [addLabel]
    split_ifs
    · exact h
    · exact List.mem_append_left _ h

/-- A label that the sample does not own gets the member of its name. -/
theorem member_mem_push {p : JStr × List (Point V)} (hnewer : b.Newer s) (hp : p ∈ b.series)
    (hproto : p.1 ∈ objectPrototype) (hkey : p.1 ∉ s.keys) (hlen : p.2.length = b.length) :
    ∃ q ∈ (b.push s.timestampMs s.values).1.series, .member p.1 ∈ q.2 := by
  have hread : readPoint s.values p.1 = .member p.1 := by
    rw [readPoint, lookup_eq_none.mpr hkey]
    exact if_pos hproto
  have hfilled := mem_foldl_addLabel (b.timestamps ++ [s.timestampMs]).length.pred s.keys hp
  have hseries := List.mem_map_of_mem (f := fun p : JStr × List (Point V) =>
    (p.1, p.2 ++ [readPoint s.values p.1])) hfilled
  rw [push, if_neg fun h => not_newer_iff.mp h hnewer]
  simp only
  split_ifs with htrim
  · refine ⟨_, List.mem_map_of_mem hseries, ?_⟩
    -- the member is not the point that is shifted out
    have hpos : 0 < p.2.length := by
      rw [List.length_append, List.length_singleton, ← length, ← hlen] at htrim
      simp only [MAX_SAMPLES] at htrim
      omega
    obtain ⟨point, points, hpoints⟩ := List.exists_cons_of_length_pos hpos
    simp [hpoints, hread]
  · exact ⟨_, hseries, by simp [hread]⟩

theorem point_ne_member (name : JStr) : s.point l ≠ .member name := by
  rw [Sample.point]
  cases s.values.lookup l <;> simp

theorem holds_iff_ownsAlong (samples : List (Sample V)) :
    (∀ before, before <+: samples → Holds (run before).2 (run before).1) ↔ OwnsAlong samples := by
  constructor
  · intro h before s hpre hnewer l hl hproto
    by_contra hkey
    have hbefore := h before ((List.prefix_append before [s]).trans hpre)
    have hafter := h (before ++ [s]) hpre
    obtain ⟨p, hp, rfl⟩ := List.mem_map.mp hl
    obtain ⟨q, hq, hmember⟩ := member_mem_push hnewer hp hproto hkey (hbefore.aligned p hp)
    rw [run_concat] at hafter
    rw [hafter.points q hq] at hmember
    obtain ⟨t, -, hpoint⟩ := List.mem_map.mp hmember
    exact point_ne_member _ hpoint
  · intro h before hpre
    have howns : OwnsAlong before := fun first s hfirst => h first s (hfirst.trans hpre)
    obtain ⟨hbuffer, hsorted⟩ := run_of_ownsAlong howns
    rw [hbuffer]
    exact holds_ofSamples hsorted

/-! ## Values -/

theorem exists_of_mem_foldl_addLabel (n : ℕ) (keys : List JStr)
    {series : List (JStr × List (Point V))} {p : JStr × List (Point V)} {v : V}
    (h : p ∈ keys.foldl (addLabel n) series) (hv : .value v ∈ p.2) : p ∈ series := by
  induction keys generalizing series with
  | nil => exact h
  | cons k keys ih =>
    have hmem := ih h
    rw [addLabel] at hmem
    split_ifs at hmem with hk
    · exact hmem
    · rcases List.mem_append.mp hmem with hmem | hmem
      · exact hmem
      · rw [List.mem_singleton.mp hmem] at hv
        cases List.eq_of_mem_replicate hv

/-- A value comes from the sample that is pushed, if it was not there. -/
theorem exists_of_value_mem_push {p : JStr × List (Point V)} {v : V}
    (hp : p ∈ (b.push s.timestampMs s.values).1.series) (hv : .value v ∈ p.2) :
    (∃ q ∈ b.series, q.1 = p.1 ∧ .value v ∈ q.2) ∨ s.values.lookup p.1 = some v := by
  by_cases hnewer : b.Newer s
  · have hread (q : JStr × List (Point V))
        (hq : q ∈ s.keys.foldl (addLabel ((b.timestamps ++ [s.timestampMs]).length - 1)) b.series)
        (hv : .value v ∈ q.2 ++ [readPoint s.values q.1]) :
        (∃ q' ∈ b.series, q'.1 = q.1 ∧ .value v ∈ q'.2) ∨ s.values.lookup q.1 = some v := by
      rcases List.mem_append.mp hv with hv | hv
      · exact .inl ⟨q, exists_of_mem_foldl_addLabel _ _ hq hv, rfl, hv⟩
      · have hpoint := List.mem_singleton.mp hv
        rw [readPoint] at hpoint
        cases hlookup : s.values.lookup q.1 with
        | some w =>
          rw [hlookup] at hpoint
          cases hpoint
          exact .inr rfl
        | none =>
          rw [hlookup] at hpoint
          split_ifs at hpoint
    rw [push, if_neg fun h => not_newer_iff.mp h hnewer] at hp
    simp only at hp
    split_ifs at hp with htrim
    · obtain ⟨q', hq', rfl⟩ := List.mem_map.mp hp
      obtain ⟨q, hq, rfl⟩ := List.mem_map.mp hq'
      exact hread q hq (List.mem_of_mem_drop hv)
    · obtain ⟨q, hq, rfl⟩ := List.mem_map.mp hp
      exact hread q hq hv
  · rw [push_of_not_newer hnewer] at hp
    exact .inl ⟨p, hp, rfl, hv⟩

/-- Every value of a series is that of a sample for its label. -/
theorem exists_of_value_mem_run {p : JStr × List (Point V)} {v : V}
    (hp : p ∈ (run samples).1.series) (hv : .value v ∈ p.2) :
    ∃ s ∈ samples, s.values.lookup p.1 = some v := by
  induction samples using List.reverseRecOn generalizing p with
  | nil => cases hp
  | append_singleton samples s ih =>
    rw [run_concat] at hp
    rcases exists_of_value_mem_push hp hv with ⟨q, hq, hkey, hv⟩ | hlookup
    · obtain ⟨t, ht, hlookup⟩ := ih hq hv
      exact ⟨t, List.mem_append_left _ ht, hkey ▸ hlookup⟩
    · exact ⟨s, List.mem_append_right _ (List.mem_singleton_self s), hlookup⟩

/-- A container called `constructor` that is gone in the second sample. -/
def constructorSamples : List (Sample ℕ) :=
  [⟨1000, [(js "constructor", 5)]⟩, ⟨2000, [(js "app", 1)]⟩]

theorem constructorSamples_not_holds :
    ¬ ∀ before, before <+: constructorSamples → Holds (run before).2 (run before).1 := by
  intro h
  have hpoints := (h constructorSamples List.prefix_rfl).points
    (js "constructor", [.value 5, .member (js "constructor")]) (by decide +kernel)
  revert hpoints
  decide +kernel

end MultiSeriesRingBuffer
end KubeConsole.Web
