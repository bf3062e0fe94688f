import KubeConsole.Theory.Spans
import KubeConsole.Web.LogLine
import KubeConsole.Web.LogSearch

/-!
The hits of a query within a line and the pieces a line is painted in (`logSearch.ts`).
-/
namespace KubeConsole.Web
open KubeConsole.Theory LogJson

/-! ## Classes -/

def severityClass : LogSeverity → JStr
  | .error => js "font-bold text-red-400"
  | .warn => js "font-bold text-yellow-300"
  | .info => js "font-bold text-emerald-300"
  | .debug => js "font-bold text-slate-400"

def kindClass : LogTokenKind → JStr
  | .text => js "text-slate-500"
  | .punct => js "text-slate-500"
  | .key => js "text-sky-300"
  | .string => js "text-emerald-300"
  | .number => js "text-amber-300"
  | .keyword => js "text-fuchsia-300"
  | .level => js "text-emerald-300"

def logTokenClass (token : LogToken) : JStr :=
  match token.severity with
  | some severity => severityClass severity
  | none => kindClass token.kind

/-! ## Patterns -/

/-- What the source escapes, and what a pattern gives a meaning of its own. -/
def metacharacters : JStr := js ".*+?^$\x7b\x7d()|[]\\"

/-- `raw.replace(/[.*+?^${}()|[\]\\]/g, "\\$&")`. -/
def escapeRegExp (raw : JStr) : JStr :=
  raw.flatMap fun c => if c ∈ metacharacters then [JsonText.backslash, c] else [c]

/-- A pattern of characters that stand for themselves; no other pattern is read. -/
def readPattern : JStr → Option JStr
  | [] => some []
  | [c] => if c ∈ metacharacters then none else some [c]
  | c :: d :: s =>
    if c = JsonText.backslash then
      if d ∈ metacharacters then (readPattern s).map (d :: ·) else none
    else if c ∈ metacharacters then none
    else (readPattern (d :: s)).map (c :: ·)

theorem readPattern_plain {c : UInt16} (hc : c ∉ metacharacters) (s : JStr) :
    readPattern (c :: s) = (readPattern s).map (c :: ·) := by
  have hne : c ≠ JsonText.backslash := by
    rintro rfl
    exact hc (by decide)
  cases s with
  | nil => simp [readPattern, hc]
  | cons d s => rw [readPattern, if_neg hne, if_neg hc]

theorem readPattern_escapeRegExp (raw : JStr) : readPattern (escapeRegExp raw) = some raw := by
  induction raw with
  | nil => rfl
  | cons c raw ih =>
    rw [escapeRegExp, List.flatMap_cons, ← escapeRegExp]
    split_ifs with hc
    · rw [List.cons_append, List.singleton_append, readPattern, if_pos rfl, if_pos hc, ih]
      rfl
    · rw [List.singleton_append, readPattern_plain hc, ih]
      rfl

variable (fold : UInt16 → UInt16)

/-- The pattern with the flag `i` matches at a position. -/
def matchesAt (word line : JStr) (i : ℕ) : Bool :=
  (word.map fold).isPrefixOf ((line.map fold).drop i)

/-- The loop over `q.all.exec`. -/
def matchRanges (q : LogQuery) (line : JStr) : List (ℕ × ℕ) :=
  match readPattern (escapeRegExp q.source) with
  | none => []
  | some word =>
    occurrences (matchesAt fold word line) (line.length + 1) word.length (line.length + 1) 0

/-! ## Segments -/

structure LineSegment where
  text : JStr
  cls : JStr
  hit : Bool
  deriving DecidableEq, Repr

def slice (text : JStr) (start end_ : ℕ) : JStr := (text.take end_).drop start

/-- The inner loop, for the piece of `cls` that ends at `pieceEnd`. Each round moves the cursor. -/
def cutPiece (text cls : JStr) (pieceEnd : ℕ) : ℕ → List (ℕ × ℕ) → ℕ →
    List LineSegment × List (ℕ × ℕ)
  | 0, ranges, _ => ([], ranges)
  | n + 1, ranges, cursor =>
    if pieceEnd ≤ cursor then ([], ranges)
    else match ranges.dropWhile (·.2 ≤ cursor) with
    | [] => ([⟨slice text cursor pieceEnd, cls, false⟩], [])
    | (start, end_) :: rest =>
      if pieceEnd ≤ start then ([⟨slice text cursor pieceEnd, cls, false⟩], (start, end_) :: rest)
      else
        let hitStart := max start cursor
        let hitEnd := min end_ pieceEnd
        let more := cutPiece text cls pieceEnd n ((start, end_) :: rest) hitEnd
        ((if cursor < hitStart then [⟨slice text cursor hitStart, cls, false⟩] else []) ++
          ⟨slice text hitStart hitEnd, cls, true⟩ :: more.1, more.2)

/-- The outer loop. A piece is its text and its class. -/
def cutPieces (text : JStr) : List (JStr × JStr) → List (ℕ × ℕ) → ℕ → List LineSegment
  | [], _, _ => []
  | piece :: pieces, ranges, pos =>
    let pieceEnd := pos + piece.1.length
    let cut := cutPiece text piece.2 pieceEnd piece.1.length ranges pos
    cut.1 ++ cutPieces text pieces cut.2 pieceEnd

def linePieces (text : JStr) (tokens : Option (List LogToken)) : List (JStr × JStr) :=
  match tokens with
  | none => [(text, [])]
  | some tokens => tokens.map fun t => (t.text, logTokenClass t)

def segmentLine (text : JStr) (tokens : Option (List LogToken)) (ranges : List (ℕ × ℕ)) :
    List LineSegment :=
  if ranges = [] then (linePieces text tokens).map fun p => ⟨p.1, p.2, false⟩
  else cutPieces text (linePieces text tokens) ranges 0

/-- The segments of a row of `LogViewer.vue`. -/
def rowSegments (b : LogBuiltins) (query : Option LogQuery) (text : JStr) : List LineSegment :=
  segmentLine text (tokenizeJsonLine b text) (query.elim [] (matchRanges fold · text))

/-- The class and the hit of each position. -/
def marks (segments : List LineSegment) : List (JStr × Bool) :=
  spread LineSegment.text (fun s => (s.cls, s.hit)) segments

/-! ## One piece -/

theorem length_slice (text : JStr) (start : ℕ) {end_ : ℕ} (h : end_ ≤ text.length) :
    (slice text start end_).length = end_ - start := by
  rw [slice, List.length_drop, List.length_take, min_eq_left h]

theorem slice_append (text : JStr) {a m e : ℕ} (ham : a ≤ m) (hme : m ≤ e) :
    slice text a m ++ slice text m e = slice text a e := by
  have htake : text.take m = (text.take e).take m := by rw [List.take_take, min_eq_left hme]
  obtain ⟨d, rfl⟩ := Nat.exists_eq_add_of_le ham
  rw [slice, slice, slice, htake, ← List.drop_drop, List.drop_take, Nat.add_sub_cancel_left,
    List.take_append_drop]

theorem slice_self (text : JStr) (a : ℕ) : slice text a a = [] :=
  List.drop_eq_nil_of_le (List.length_take_le a text)

/-- The segments of a piece from the cursor on, and the ranges that are left for what follows. -/
structure Cut (text cls : JStr) (pieceEnd cursor : ℕ) (ranges : List (ℕ × ℕ))
    (out : List LineSegment × List (ℕ × ℕ)) : Prop where
  concat : out.1.flatMap LineSegment.text = slice text cursor pieceEnd
  nonempty : ∀ s ∈ out.1, s.text ≠ []
  marks : marks out.1 =
    (List.range' cursor (pieceEnd - cursor)).map fun k => (cls, decide (InRanges ranges k))
  apart : Spaced out.2
  covers : ∀ k, pieceEnd ≤ k → (InRanges out.2 k ↔ InRanges ranges k)

variable {text cls : JStr} {pieceEnd cursor : ℕ} {ranges ranges' : List (ℕ × ℕ)}
  {out : List LineSegment × List (ℕ × ℕ)}

theorem Cut.done (h : Spaced ranges) : Cut text cls pieceEnd pieceEnd ranges ([], ranges) where
  concat := (slice_self text pieceEnd).symm
  nonempty := List.forall_mem_nil _
  marks := by rw [Nat.sub_self]; rfl
  apart := h
  covers _ _ := Iff.rfl

theorem Cut.congr (h : Cut text cls pieceEnd cursor ranges' out) (hle : cursor ≤ pieceEnd)
    (hcovers : ∀ k, cursor ≤ k → (InRanges ranges' k ↔ InRanges ranges k)) :
    Cut text cls pieceEnd cursor ranges out := by
  refine { h with marks := h.marks.trans (List.map_congr_left fun k hk => ?_), covers := ?_ }
  · rw [Prod.mk.injEq, decide_eq_decide]
    exact ⟨rfl, hcovers k (List.mem_range'_1.mp hk).1⟩
  · exact fun k hk => (h.covers k hk).trans (hcovers k (by omega))

theorem Cut.cons {a m : ℕ} {hit : Bool} (h : Cut text cls pieceEnd m ranges out) (ham : a < m)
    (hm : m ≤ pieceEnd) (hlen : pieceEnd ≤ text.length)
    (hhit : ∀ k, a ≤ k → k < m → (InRanges ranges k ↔ hit = true)) :
    Cut text cls pieceEnd a ranges (⟨slice text a m, cls, hit⟩ :: out.1, out.2) where
  concat := by
    rw [List.flatMap_cons, h.concat]
    exact slice_append text ham.le hm
  nonempty := by
    refine List.forall_mem_cons.mpr ⟨fun hnil => ?_, h.nonempty⟩
    have hlength := length_slice text a (hm.trans hlen)
    rw [show slice text a m = [] from hnil, List.length_nil] at hlength
    omega
  marks := by
    have hsplit : pieceEnd - a = (m - a) + (pieceEnd - m) := by omega
    have hfirst : List.replicate (m - a) (cls, hit) =
        (List.range' a (m - a)).map fun k => (cls, decide (InRanges ranges k)) := by
      refine (List.eq_replicate_iff.mpr ⟨by simp, fun x hx => ?_⟩).symm
      obtain ⟨k, hk, rfl⟩ := List.mem_map.mp hx
      have hk := List.mem_range'_1.mp hk
      have hiff := hhit k hk.1 (by omega)
      cases hit <;> simp_all
    rw [hsplit, ← List.range'_append_1, List.map_append, Nat.add_sub_cancel' ham.le, ← h.marks,
      ← hfirst, ← length_slice text a (hm.trans hlen)]
    rfl
  apart := h.apart
  covers := h.covers

theorem cutPiece_spec (n : ℕ) (hranges : Spaced ranges) (hcursor : cursor ≤ pieceEnd)
    (hlen : pieceEnd ≤ text.length) (hn : pieceEnd - cursor ≤ n) :
    Cut text cls pieceEnd cursor ranges (cutPiece text cls pieceEnd n ranges cursor) := by
  induction n generalizing ranges cursor with
  | zero =>
    obtain rfl : cursor = pieceEnd := by omega
    exact .done hranges
  | succ n ih =>
    rw [cutPiece]
    split_ifs with hend
    · obtain rfl : cursor = pieceEnd := by omega
      exact .done hranges
    have hcovers (k : ℕ) (hk : cursor ≤ k) := covers_dropWhile ranges hk
    have hdrop := hranges.dropWhile (·.2 ≤ cursor)
    have hopen := List.head?_dropWhile_not (fun r : ℕ × ℕ => decide (r.2 ≤ cursor)) ranges
    generalize ranges.dropWhile (·.2 ≤ cursor) = left at hcovers hdrop hopen
    match left with
    | [] =>
      refine ((Cut.done hdrop).cons (by omega) le_rfl hlen fun k _ _ => ?_).congr hcursor hcovers
      simp [InRanges]
    | (start, end_) :: rest =>
      have hopen : cursor < end_ := by simpa using hopen
      have hstart : start < end_ := hdrop.1 (start, end_) List.mem_cons_self
      dsimp only
      split_ifs with hlate hgap
      · refine ((Cut.done hdrop).cons (by omega) le_rfl hlen fun k _ hk => ?_).congr hcursor hcovers
        rw [hdrop.covers_cons (show k < end_ by omega)]
        simp only [Bool.false_eq_true, iff_false]
        omega
      all_goals
        have hmore : Cut text cls pieceEnd (min end_ pieceEnd) ((start, end_) :: rest) _ :=
          ih hdrop (by omega) (by omega)
        have hin (k : ℕ) (hk : max start cursor ≤ k) (hk' : k < min end_ pieceEnd) :
            InRanges ((start, end_) :: rest) k ↔ true = true := by
          rw [hdrop.covers_cons (show k < end_ by omega)]
          simp only [iff_true]
          omega
        have hhit := hmore.cons (by omega) (by omega) hlen hin
      · refine (hhit.cons (by omega) (by omega) hlen fun k hk hk' => ?_).congr hcursor hcovers
        rw [hdrop.covers_cons (show k < end_ by omega)]
        simp only [Bool.false_eq_true, iff_false]
        omega
      · rw [show max start cursor = cursor by omega] at hhit ⊢
        exact hhit.congr hcursor hcovers

/-! ## The line -/

/-- The pieces one after the other, with what each position is covered by. -/
structure Painted (text : JStr) (pieces : List (JStr × JStr)) (pos : ℕ) (ranges : List (ℕ × ℕ))
    (segments : List LineSegment) : Prop where
  concat : segments.flatMap LineSegment.text = pieces.flatMap Prod.fst
  nonempty : ∀ s ∈ segments, s.text = [] → ∃ p ∈ pieces, p.1 = []
  marks : marks segments =
    ((spread Prod.fst Prod.snd pieces).zipIdx pos).map fun x => (x.1, decide (InRanges ranges x.2))

theorem cutPieces_spec {pieces : List (JStr × JStr)} {pos : ℕ} (hranges : Spaced ranges)
    (htext : text.drop pos = pieces.flatMap Prod.fst) (hpos : pos ≤ text.length) :
    Painted text pieces pos ranges (cutPieces text pieces ranges pos) := by
  induction pieces generalizing ranges pos with
  | nil => exact ⟨rfl, List.forall_mem_nil _, rfl⟩
  | cons piece pieces ih =>
    have hlen : pos + piece.1.length ≤ text.length := by
      have := congrArg List.length htext
      rw [List.length_drop, List.flatMap_cons, List.length_append] at this
      omega
    have hrest : text.drop (pos + piece.1.length) = pieces.flatMap Prod.fst := by
      rw [← List.drop_drop, htext, List.flatMap_cons, List.drop_left]
    have hslice : slice text pos (pos + piece.1.length) = piece.1 := by
      rw [slice, List.drop_take, htext, Nat.add_sub_cancel_left, List.flatMap_cons,
        List.take_left]
    have hcut : Cut text piece.2 (pos + piece.1.length) pos ranges _ :=
      cutPiece_spec piece.1.length hranges (Nat.le_add_right pos _) hlen (by omega)
    obtain ⟨hconcat, hnonempty, hmarks⟩ := ih hcut.apart hrest hlen
    rw [cutPieces]
    refine ⟨?_, fun s hs hnil => ?_, ?_⟩
    · rw [List.flatMap_append, hcut.concat, hslice, hconcat, List.flatMap_cons]
    · rcases List.mem_append.mp hs with hs | hs
      · exact absurd hnil (hcut.nonempty s hs)
      · obtain ⟨p, hp, hpnil⟩ := hnonempty s hs hnil
        exact ⟨p, List.mem_cons_of_mem _ hp, hpnil⟩
    · have hfirst : spread Prod.fst Prod.snd (piece :: pieces) =
          List.replicate piece.1.length piece.2 ++ spread Prod.fst Prod.snd pieces := rfl
      rw [Web.marks, spread_append, hfirst, List.zipIdx_append, List.map_append,
        List.length_replicate, zipIdx_replicate, List.map_map]
      refine congrArg₂ (· ++ ·) ?_ (hmarks.trans (List.map_congr_left fun x hx => ?_))
      · rw [← Web.marks, hcut.marks, Nat.add_sub_cancel_left]
        rfl
      · have hpos := List.le_snd_of_mem_zipIdx hx
        rw [Prod.mk.injEq, decide_eq_decide]
        exact ⟨rfl, hcut.covers _ hpos⟩

theorem segmentLine_spec {tokens : Option (List LogToken)} (hranges : Spaced ranges)
    (htext : (linePieces text tokens).flatMap Prod.fst = text) :
    Painted text (linePieces text tokens) 0 ranges (segmentLine text tokens ranges) := by
  rw [segmentLine]
  split_ifs with hnil
  · subst hnil
    refine ⟨by rw [List.flatMap_map], fun s hs hempty => ?_, ?_⟩
    · obtain ⟨p, hp, rfl⟩ := List.mem_map.mp hs
      exact ⟨p, hp, hempty⟩
    · have hplain : marks ((linePieces text tokens).map fun p => ⟨p.1, p.2, false⟩) =
          (spread Prod.fst Prod.snd (linePieces text tokens)).map fun cls => (cls, false) := by
        simp [Web.marks, spread, List.flatMap_map, List.map_flatMap]
      have hnone (k : ℕ) : decide (InRanges [] k) = false := by simp [InRanges]
      simp only [hplain, hnone]
      conv_lhs => rw [← List.zipIdx_map_fst 0 (spread Prod.fst Prod.snd _), List.map_map]
      rfl
  · exact cutPieces_spec hranges htext.symm (Nat.zero_le _)

/-- The class of the token in which a position lies. -/
def classAt (tokens : Option (List LogToken)) (k : ℕ) : Option JStr :=
  match tokens with
  | none => some []
  | some tokens => (pieceAt LogToken.text tokens k).map logTokenClass

/-- The word stands at a position, up to the folding. -/
def OccursAt (word line : JStr) (i : ℕ) : Prop := word.map fold <+: (line.map fold).drop i

variable {fold}

theorem matchesAt_iff {word line : JStr} {i : ℕ} :
    matchesAt fold word line i = true ↔ OccursAt fold word line i :=
  List.isPrefixOf_iff_prefix

theorem OccursAt.lt {word line : JStr} (hword : word ≠ []) {i : ℕ}
    (h : OccursAt fold word line i) : i < line.length := by
  have hlength := h.length_le
  rw [List.length_map, List.length_drop, List.length_map] at hlength
  have := List.length_pos_iff.mpr hword
  omega

theorem lineMatches_iff {q : LogQuery} {line : JStr} :
    lineMatches fold q line = true ↔ ∃ i, OccursAt fold q.source line i := by
  rw [lineMatches, decide_eq_true_iff]
  constructor
  · rintro ⟨before, after, heq⟩
    refine ⟨before.length, after, ?_⟩
    rw [← heq, List.append_assoc, List.drop_left]
  · rintro ⟨i, h⟩
    exact h.isInfix.trans (List.drop_suffix i _).isInfix

theorem matchRanges_eq (q : LogQuery) (line : JStr) : matchRanges fold q line =
    occurrences (matchesAt fold q.source line) (line.length + 1) q.source.length
      (line.length + 1) 0 := by
  rw [matchRanges, readPattern_escapeRegExp]

theorem apart_matchRanges {q : LogQuery} (hq : q.source ≠ []) (line : JStr) :
    Spaced (matchRanges fold q line) := by
  rw [matchRanges_eq]
  refine (occurrences_spec (List.length_pos_iff.mpr hq) (fun i hi => ?_) _ 0 (by omega)).1
  exact ((matchesAt_iff.mp hi).lt hq).trans (Nat.lt_succ_self _)

theorem covers_matchRanges {q : LogQuery} (hq : q.source ≠ []) (line : JStr) (k : ℕ) :
    InRanges (matchRanges fold q line) k ↔ ∃ i, Leftmost (OccursAt fold q.source line)
      q.source.length i ∧ i ≤ k ∧ k < i + q.source.length := by
  have hocc : (matchesAt fold q.source line · = true) = OccursAt fold q.source line :=
    funext fun i => propext matchesAt_iff
  rw [matchRanges_eq, ← hocc]
  refine covers_occurrences (List.length_pos_iff.mpr hq) (fun i hi => ?_) le_rfl k
  exact ((matchesAt_iff.mp hi).lt hq).trans (Nat.lt_succ_self _)

theorem lineMatches_iff_ranges {q : LogQuery} (hq : q.source ≠ []) (line : JStr) :
    lineMatches fold q line = true ↔ matchRanges fold q line ≠ [] := by
  rw [matchRanges_eq, occurrences_ne_nil, lineMatches_iff]
  · simp only [matchesAt_iff, Nat.zero_le, true_and]
  · exact fun i hi => ((matchesAt_iff.mp hi).lt hq).trans (Nat.lt_succ_self _)

/-- A query that is compiled is not empty, its pattern being the text as it was typed. -/
theorem compileQuery_source {id : ℕ} {raw : JStr} {q : LogQuery}
    (h : compileQuery id raw = some q) : q.source = raw ∧ raw ≠ [] := by
  rw [compileQuery] at h
  split_ifs at h with hblank
  cases h
  refine ⟨rfl, ?_⟩
  rintro rfl
  exact hblank rfl

theorem Painted.at {pieces : List (JStr × JStr)} {segments : List LineSegment}
    (h : Painted text pieces 0 ranges segments) (k : ℕ) :
    (pieceAt LineSegment.text segments k).map (fun s => (s.cls, s.hit)) =
      (pieceAt Prod.fst pieces k).map fun p => (p.2, decide (InRanges ranges k)) := by
  have hmarks := congrArg (·[k]?) h.marks
  simp only [Web.marks, getElem?_spread, List.getElem?_map, List.getElem?_zipIdx, Nat.zero_add,
    Option.map_map] at hmarks
  exact hmarks

theorem linePieces_concat {line : JStr} {tokens : Option (List LogToken)}
    (htokens : ∀ ts ∈ tokens, texts ts = line) :
    (linePieces line tokens).flatMap Prod.fst = line := by
  cases tokens with
  | none => exact List.append_nil line
  | some ts =>
    rw [linePieces, List.flatMap_map]
    exact htokens ts rfl

theorem pieceAt_linePieces (line : JStr) (tokens : Option (List LogToken)) {k : ℕ}
    (hk : k < line.length) :
    (pieceAt Prod.fst (linePieces line tokens) k).map Prod.snd = classAt tokens k := by
  cases tokens with
  | none => rw [linePieces, pieceAt, if_pos hk]; rfl
  | some tokens =>
    rw [linePieces, classAt, ← getElem?_spread, ← getElem?_spread]
    simp only [spread, List.flatMap_map]

/-- The segments are the line, cut at tokens and hits. -/
structure Highlights (fold : UInt16 → UInt16) (raw line : JStr) (tokens : Option (List LogToken))
    (segments : List LineSegment) : Prop where
  concat : segments.flatMap LineSegment.text = line
  nonempty : ∀ s ∈ segments, s.text = [] → line = [] ∨ ∃ ts ∈ tokens, ∃ t ∈ ts, t.text = []
  position : ∀ k < line.length, ∃ s, pieceAt LineSegment.text segments k = some s ∧
    (s.hit = true ↔
      ∃ i, Leftmost (OccursAt fold raw line) raw.length i ∧ i ≤ k ∧ k < i + raw.length) ∧
    classAt tokens k = some s.cls

theorem segmentLine_matchRanges {id : ℕ} {raw : JStr} {q : LogQuery}
    (hq : compileQuery id raw = some q) {line : JStr} {tokens : Option (List LogToken)}
    (htokens : ∀ ts ∈ tokens, texts ts = line) :
    Highlights fold raw line tokens (segmentLine line tokens (matchRanges fold q line)) ∧
    (lineMatches fold q line = true ↔ matchRanges fold q line ≠ []) := by
  obtain ⟨rfl, hne⟩ := compileQuery_source hq
  have hpieces := linePieces_concat htokens
  have hapart : Spaced (matchRanges fold q line) := apart_matchRanges hne line
  have hpainted := segmentLine_spec hapart hpieces
  refine ⟨⟨hpainted.concat.trans hpieces, fun s hs hnil => ?_, fun k hk => ?_⟩,
    lineMatches_iff_ranges hne line⟩
  · obtain ⟨p, hp, hpnil⟩ := hpainted.nonempty s hs hnil
    cases tokens with
    | none =>
      obtain rfl := List.mem_singleton.mp hp
      exact .inl hpnil
    | some ts =>
      obtain ⟨t, ht, rfl⟩ := List.mem_map.mp hp
      exact .inr ⟨ts, rfl, t, ht, hpnil⟩
  · have hat := hpainted.at k
    have hclass := pieceAt_linePieces line tokens hk
    have hsome : k < (spread Prod.fst Prod.snd (linePieces line tokens)).length := by
      rw [length_spread, hpieces]
      exact hk
    obtain ⟨cls, hcls⟩ : ∃ cls, (spread Prod.fst Prod.snd (linePieces line tokens))[k]? = some cls :=
      ⟨_, List.getElem?_eq_getElem hsome⟩
    rw [getElem?_spread] at hcls
    obtain ⟨p, hp, rfl⟩ := Option.map_eq_some_iff.mp hcls
    rw [hp, Option.map_some] at hat hclass
    obtain ⟨s, hs, heq⟩ := Option.map_eq_some_iff.mp hat
    obtain ⟨hscls, hhit⟩ := Prod.mk.inj heq
    refine ⟨s, hs, ?_, by rw [← hclass, hscls]⟩
    rw [hhit, decide_eq_true_iff, covers_matchRanges hne]

/-- A hit that begins in a key and ends in a string, the case being folded. -/
theorem segmentLine_matchRanges_spanning :
    let line := js "\x7b\"a\":\"B\"\x7d"
    let tokens := [⟨.punct, js "\x7b", none⟩, ⟨.key, js "\"a\"", none⟩, ⟨.punct, js ":", none⟩,
      ⟨.string, js "\"B\"", none⟩, ⟨.punct, js "\x7d", none⟩]
    let fold c := if 0x41 ≤ c ∧ c ≤ 0x5A then c + 0x20 else c
    let q : LogQuery := ⟨1, js "A\":\"b"⟩
    Highlights fold (js "A\":\"b") line (some tokens)
      (segmentLine line (some tokens) (matchRanges fold q line)) ∧
    (lineMatches fold q line = true ↔ matchRanges fold q line ≠ []) :=
  segmentLine_matchRanges (show compileQuery 1 (js "A\":\"b") = some _ from rfl) fun ts hts => by
    obtain rfl := Option.some.inj hts
    rfl

/-- The rows that the viewer shows are the lines of the buffer. -/
theorem rowSegments_concat (b : LogBuiltins) (id : ℕ) (raw line : JStr) :
    (rowSegments fold b (compileQuery id raw) line).flatMap LineSegment.text = line := by
  have htokens : ∀ ts ∈ tokenizeJsonLine b line, texts ts = line := fun ts hts =>
    (tokenizeJsonLine_sound hts).1
  have hpieces := linePieces_concat htokens
  have hapart : Spaced ((compileQuery id raw).elim [] (matchRanges fold · line)) := by
    cases hq : compileQuery id raw with
    | none => exact ⟨List.forall_mem_nil _, List.Pairwise.nil⟩
    | some q =>
      obtain ⟨rfl, hne⟩ := compileQuery_source hq
      exact apart_matchRanges hne line
  exact (segmentLine_spec hapart hpieces).concat.trans hpieces

end KubeConsole.Web
