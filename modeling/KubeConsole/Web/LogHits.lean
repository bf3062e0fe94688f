import KubeConsole.Web.LogSearch
import KubeConsole.Web.LogsBuffer

/-!
The hits of the search stay those of a full scan of the buffer, and the selected one
stays on its line.
-/
namespace KubeConsole.Web
open KubeConsole.Theory

variable {fold : UInt16 → UInt16} {s t : Search}

namespace Search

/-- What a full scan of the buffer finds. -/
def hits (fold : UInt16 → UInt16) (s : Search) : List ℕ :=
  match s.compiled with
  | none => []
  | some q => scanLines fold s.buffer.lines q 0

/-- The selected line, numbered from the first line its array has ever held. -/
def designated (s : Search) : Option ℕ :=
  s.active.bind fun a => s.matches_[a]?.map fun i => s.buffer.dropped + i

/-- The line of a number, where the buffer still holds it. -/
def lineAt (s : Search) (n : ℕ) : Option JStr :=
  if s.buffer.dropped ≤ n then s.buffer.lines[n - s.buffer.dropped]? else none

end Search

/-- The invariant of the search: the matches are those of a full scan, and what the watch
remembers of its last run is the query and the buffer of now. -/
structure Synced (fold : UInt16 → UInt16) (s : Search) : Prop where
  matches_eq : s.matches_ = s.hits fold
  active_lt : ∀ a, s.active = some a → a < s.matches_.length
  lastQuery : s.lastQuery = s.compiled
  last : s.compiled ≠ none → s.lastLines = some s.buffer.id ∧
    s.lastLen = s.buffer.lines.length ∧ s.lastDropped = s.buffer.dropped
  fresh : ∀ q, s.compiled = some q → q.id ≤ s.compiledIds

theorem designated_eq_none (h : Synced fold s) : s.designated = none ↔ s.active = none := by
  cases ha : s.active with
  | none => simp [Search.designated, ha]
  | some a =>
    have hlt := h.active_lt a ha
    simp [Search.designated, ha, List.getElem?_eq_getElem hlt]

/-! The watch. -/

theorem rehit_fields (s : Search) : (s.rehit fold).buffer = s.buffer ∧
    (s.rehit fold).compiled = s.compiled ∧ (s.rehit fold).compiledIds = s.compiledIds := by
  unfold Search.rehit
  split
  · exact ⟨rfl, rfl, rfl⟩
  · split_ifs <;> exact ⟨rfl, rfl, rfl⟩

@[simp] theorem onChange_buffer (s : Search) : (s.onChange fold).buffer = s.buffer :=
  (rehit_fields s).1

@[simp] theorem onChange_compiled (s : Search) : (s.onChange fold).compiled = s.compiled :=
  (rehit_fields s).2.1

theorem onChange_synced (hm : (s.rehit fold).matches_ = s.hits fold)
    (ha : ∀ a, (s.rehit fold).active = some a → a < (s.rehit fold).matches_.length)
    (hf : ∀ q, s.compiled = some q → q.id ≤ s.compiledIds) : Synced fold (s.onChange fold) where
  matches_eq := hm.trans (by simp [Search.hits])
  active_lt := ha
  lastQuery := (onChange_compiled s).symm
  last _ := by rw [onChange_buffer]; exact ⟨rfl, rfl, rfl⟩
  fresh q hq := by
    rw [onChange_compiled] at hq
    exact (hf q hq).trans_eq (rehit_fields s).2.2.symm

/-- No query, another one or another array: everything is found anew. -/
theorem onChange_anew (h : s.compiled = none ∨ s.lastQuery ≠ s.compiled ∨
      s.lastLines ≠ some s.buffer.id) (hf : ∀ q, s.compiled = some q → q.id ≤ s.compiledIds) :
    Synced fold (s.onChange fold) ∧ (s.onChange fold).active = none := by
  have hnew : (s.rehit fold).matches_ = s.hits fold ∧ (s.rehit fold).active = none := by
    unfold Search.rehit Search.hits
    cases hc : s.compiled with
    | none => exact ⟨rfl, rfl⟩
    | some q =>
      rw [hc] at h
      have hcond := h.resolve_left (Option.some_ne_none q)
      simp only [if_pos hcond]
      exact ⟨rfl, rfl⟩
  exact ⟨onChange_synced hnew.1 (fun a ha => absurd (hnew.2.symm.trans ha) (by simp)) hf, hnew.2⟩

/-- The same query over the same array, of which `k` lines have gone and which has grown:
the old hits are moved and the new lines are scanned. -/
theorem shift_eq {q : LogQuery} {k : ℕ} {old appended : List JStr}
    (hm : s.matches_ = scanLines fold old q 0) (hlen : s.lastLen = old.length)
    (hlines : s.buffer.lines = (old ++ appended).drop k)
    (hdropped : s.buffer.dropped = s.lastDropped + k) :
    let removed := ((old.take k).findIdxs (lineMatches fold q) 0).length
    s.shift fold q = { s with
      matches_ := scanLines fold s.buffer.lines q 0
      active := s.active.bind fun a => if a < removed then none else some (a - removed) } := by
  intro removed
  have hdelta : (s.buffer.dropped : ℤ) - s.lastDropped = k := by omega
  have htake : (s.matches_.takeWhile fun i : ℕ => (i : ℤ) < k) =
      (old.take k).findIdxs (lineMatches fold q) 0 := by
    rw [hm, ← findIdxs_takeWhile]
    simp [scanLines]
  have hkept : s.matches_.drop removed =
      ((old.drop k).findIdxs (lineMatches fold q) 0).map (· + k) := by
    rw [hm]
    show (List.findIdxs _ _ 0).drop removed = _
    rw [List.drop_zero, findIdxs_split _ old k, List.drop_left]
  have hback : (fun i : ℕ => ((i : ℤ) - k).toNat) ∘ (· + k) = id := by
    funext i
    simp
  have hstart : ((s.lastLen : ℤ) - k).toNat = old.length - k := by omega
  unfold Search.shift
  simp only [hdelta, htake, hstart]
  rw [hkept, List.map_map, hback, List.map_id, hlines]
  simp only [scanLines, List.drop_zero, findIdxs_slide]
  rfl

/-! The steps. -/

theorem drop_removed {α : Type*} (xs : List α) (n : ℕ) :
    xs.drop (xs.length - (xs.drop n).length) = xs.drop n := by
  rw [List.length_drop]
  rcases le_total n xs.length with h | h
  · rw [Nat.sub_sub_self h]
  · rw [Nat.sub_eq_zero_of_le h, Nat.sub_zero, List.drop_length, List.drop_of_length_le h]

theorem rehit_shift {q : LogQuery} (hc : s.compiled = some q) (hq : s.lastQuery = some q)
    (hl : s.lastLines = some s.buffer.id) : s.rehit fold = s.shift fold q := by
  unfold Search.rehit
  simp [hc, hq, hl]

/-- The watch after the buffer has moved on by `k` lines under the same query. -/
theorem onChange_slide {u : Search} {q : LogQuery} {k : ℕ} {appended : List JStr}
    (h : Synced fold s) (hc : s.compiled = some q)
    (hu : u = { s with buffer :=
      ⟨s.buffer.id, (s.buffer.lines ++ appended).drop k, s.buffer.dropped + k⟩ }) :
    Synced fold (u.onChange fold) ∧ (s.active = none → (u.onChange fold).active = none) ∧
    ∀ a i, s.active = some a → s.matches_[a]? = some i →
      (i < k ∧ (u.onChange fold).active = none) ∨
      (k ≤ i ∧ ∃ b, (u.onChange fold).active = some b ∧
        (u.onChange fold).matches_[b]? = some (i - k)) := by
  have hm : s.matches_ = scanLines fold s.buffer.lines q 0 := by
    rw [h.matches_eq, Search.hits, hc]
  obtain ⟨hlast, hlen, hdr⟩ := h.last (by rw [hc]; exact Option.some_ne_none q)
  have hbuf : u.buffer = ⟨s.buffer.id, (s.buffer.lines ++ appended).drop k,
      s.buffer.dropped + k⟩ := by rw [hu]
  have hcomp : u.compiled = some q := by rw [hu]; exact hc
  have hact : u.active = s.active := by rw [hu]
  have hquery : u.lastQuery = some q := by rw [hu]; exact h.lastQuery.trans hc
  have hlines : u.lastLines = some u.buffer.id := by rw [hu]; exact hlast
  have hmu : u.matches_ = scanLines fold s.buffer.lines q 0 := by rw [hu]; exact hm
  have hlenu : u.lastLen = s.buffer.lines.length := by rw [hu]; exact hlen
  have hdru : u.buffer.dropped = u.lastDropped + k := by rw [hu, hdr]
  have hshift := (rehit_shift hcomp hquery hlines).trans
    (@shift_eq fold u q k _ appended hmu hlenu (congrArg Buffer.lines hbuf) hdru)
  have hmatch : (u.rehit fold).matches_ = scanLines fold u.buffer.lines q 0 :=
    congrArg Search.matches_ hshift
  have hactive := congrArg Search.active hshift
  simp only [hact] at hactive
  have hsel : ∀ a i, s.active = some a → s.matches_[a]? = some i →
      (i < k ∧ (u.rehit fold).active = none) ∨
      (k ≤ i ∧ ∃ b, (u.rehit fold).active = some b ∧
        (u.rehit fold).matches_[b]? = some (i - k)) := by
    intro a i ha hi
    rw [hm, scanLines, List.drop_zero] at hi
    rw [hactive, hmatch, hbuf, ha, Option.bind_some, scanLines, List.drop_zero]
    rcases findIdxs_slide_getElem _ s.buffer.lines appended k hi with ⟨hlt, hik⟩ | ⟨hge, hki, hget⟩
    · exact .inl ⟨hik, if_pos hlt⟩
    · exact .inr ⟨hki, _, if_neg (Nat.not_lt.mpr hge), hget⟩
  refine ⟨onChange_synced ?_ ?_ ?_, fun ha => hactive.trans (by rw [ha]; rfl), hsel⟩
  · rw [hmatch, Search.hits, hcomp]
  · intro b hb
    cases ha : s.active with
    | none =>
      rw [ha] at hactive
      exact absurd (hactive.symm.trans hb) (by simp)
    | some a =>
      have hi := List.getElem?_eq_getElem (h.active_lt a ha)
      rcases hsel a _ ha hi with ⟨-, hnone⟩ | ⟨-, b', hb', hget⟩
      · exact absurd (hnone.symm.trans hb) (by simp)
      · obtain rfl := Option.some.inj (hb'.symm.trans hb)
        exact (List.getElem?_eq_some_iff.mp hget).1
  · intro q' hq'
    rw [hu] at hq' ⊢
    exact h.fresh q' hq'

theorem flush_step {appended : List JStr} {head : ℕ} (h : Synced fold s)
    (ht : s.step fold (.flush appended head) = some t) :
    Synced fold t ∧ t.compiled = s.compiled ∧ t.buffer.id = s.buffer.id ∧
      s.buffer.dropped ≤ t.buffer.dropped ∧
      t.buffer.lines =
        (s.buffer.lines ++ appended).drop (t.buffer.dropped - s.buffer.dropped) ∧
      t.designated = s.designated.filter (t.buffer.dropped ≤ ·) := by
  cases ht
  generalize hk : (s.buffer.lines ++ appended).length -
    ((s.buffer.lines ++ appended).drop head).length = k
  have hlines : (s.buffer.lines ++ appended).drop head = (s.buffer.lines ++ appended).drop k := by
    rw [← hk, drop_removed]
  rw [hlines]
  generalize hu : ({ s with buffer := ⟨s.buffer.id, (s.buffer.lines ++ appended).drop k,
    s.buffer.dropped + k⟩ } : Search) = u
  have hbuf : u.buffer = ⟨s.buffer.id, (s.buffer.lines ++ appended).drop k, s.buffer.dropped + k⟩ := by
    rw [← hu]
  have hcomp : u.compiled = s.compiled := by rw [← hu]
  have hfresh : ∀ q, u.compiled = some q → q.id ≤ u.compiledIds := by rw [← hu]; exact h.fresh
  rw [onChange_buffer, onChange_compiled, hbuf, hcomp, Nat.add_sub_cancel_left]
  suffices hs : Synced fold (u.onChange fold) ∧
      (u.onChange fold).designated = s.designated.filter (s.buffer.dropped + k ≤ ·) from
    ⟨hs.1, rfl, rfl, Nat.le_add_right _ _, rfl, hs.2⟩
  cases hc : s.compiled with
  | none =>
    obtain ⟨hsync, hact⟩ := @onChange_anew fold u (.inl (hcomp.trans hc)) hfresh
    have hnil : s.matches_ = [] := by rw [h.matches_eq, Search.hits, hc]
    refine ⟨hsync, ?_⟩
    rw [(designated_eq_none hsync).mpr hact, Search.designated, hnil]
    cases s.active <;> rfl
  | some q =>
    obtain ⟨hsync, hnone, hsel⟩ := onChange_slide h hc hu.symm
    refine ⟨hsync, ?_⟩
    cases ha : s.active with
    | none => simp [Search.designated, hnone ha, ha]
    | some a =>
      have hi := List.getElem?_eq_getElem (h.active_lt a ha)
      rcases hsel a _ ha hi with ⟨hlt, hnone⟩ | ⟨hge, b, hb, hget⟩
      · simp only [Search.designated, hnone, ha, hi, Option.bind_none, Option.bind_some,
          Option.map_some]
        rw [Option.filter_some, if_neg (by simpa using hlt)]
      · simp only [Search.designated, hb, ha, hi, hget, Option.bind_some, Option.map_some,
          onChange_buffer, hbuf]
        rw [Option.filter_some, if_pos (by simpa using hge)]
        congr 1
        omega

theorem compileQuery_id {id : ℕ} {raw : JStr} {q : LogQuery} (h : compileQuery id raw = some q) :
    q.id = id := by
  unfold compileQuery at h
  split_ifs at h
  cases h
  rfl

theorem setDebounced_step (h : Synced fold s) {value : JStr}
    (ht : t = s.setDebounced fold value) :
    Synced fold t ∧ t.buffer = s.buffer ∧ t.designated =
      if t.compiled = s.compiled then s.designated else none := by
  by_cases hv : value = s.debounced
  · obtain rfl : t = s := ht.trans (if_pos hv)
    exact ⟨h, rfl, (if_pos rfl).symm⟩
  · have ht' := ht.trans (if_neg hv)
    simp only at ht'
    split_ifs at ht' with hn
    · simp only [Bool.and_eq_true, Option.isNone_iff_eq_none] at hn
      have hm : s.matches_ = [] := by rw [h.matches_eq, Search.hits, hn.2]
      refine ⟨?_, by rw [ht'], ?_⟩
      · rw [ht']
        exact ⟨by rw [hm, Search.hits, hn.1], h.active_lt, by rw [h.lastQuery, hn.1, hn.2],
          fun hc => absurd hn.1 hc, fun q hq => absurd (hn.1.symm.trans hq) (by simp)⟩
      · rw [ht', hn.1, hn.2, if_pos rfl]
        rfl
    · generalize hu : ({ s with
          debounced := value
          compiled := compileQuery (s.compiledIds + 1) value
          compiledIds := s.compiledIds + 1 } : Search) = u at ht'
      have hcomp : u.compiled = compileQuery (s.compiledIds + 1) value := by rw [← hu]
      have hne : u.compiled ≠ s.compiled := by
        intro heq
        cases hc : s.compiled with
        | none => simp [← hcomp, heq, hc] at hn
        | some q =>
          have hid := compileQuery_id (hcomp.symm.trans (heq.trans hc))
          have hle := h.fresh q hc
          omega
      have hlast : u.lastQuery = s.compiled := by rw [← hu]; exact h.lastQuery
      obtain ⟨hsync, hact⟩ := @onChange_anew fold u (.inr (.inl (hlast ▸ hne.symm)))
        fun q hq => by
          rw [compileQuery_id (hcomp.symm.trans hq), ← hu]
      rw [ht', onChange_buffer, onChange_compiled, if_neg hne,
        (designated_eq_none hsync).mpr hact]
      exact ⟨hsync, by rw [← hu], rfl⟩

theorem restart_step {lines : List JStr} {dropped : ℕ} (h : Synced fold s)
    (ht : s.step fold (.restart lines dropped) = some t) :
    Synced fold t ∧ t.buffer.id ≠ s.buffer.id ∧ t.designated = none := by
  cases ht
  rw [onChange_buffer]
  suffices hs : Synced fold (Search.onChange fold
        { s with buffer := ⟨s.buffer.id + 1, lines, dropped⟩ }) ∧ _ = none from
    ⟨hs.1, Nat.succ_ne_self _, (designated_eq_none hs.1).mpr hs.2⟩
  refine onChange_anew ?_ h.fresh
  by_cases hc : s.compiled = none
  · exact .inl hc
  · have hlast := (h.last hc).1
    refine .inr (.inr fun heq => ?_)
    exact Nat.succ_ne_self _ (Option.some.inj (hlast.symm.trans heq)).symm

/-- The inputs of the search do not touch what it has found. -/
theorem Synced.input (h : Synced fold s) (query watchedQuery : JStr) (timer : Option JStr)
    (filter : Bool) : Synced fold { s with query, watchedQuery, timer, filter } :=
  ⟨h.matches_eq, h.active_lt, h.lastQuery, h.last, h.fresh⟩

theorem settle_step (h : Synced fold s) (ht : t = s.settle fold) :
    Synced fold t ∧ t.buffer = s.buffer ∧ t.designated =
      if t.compiled = s.compiled then s.designated else none := by
  unfold Search.settle at ht
  split_ifs at ht
  · rw [ht, if_pos rfl]
    exact ⟨h, rfl, rfl⟩
  · have h' : Synced fold { s with timer := none } := h.input _ _ _ _
    have hstep := setDebounced_step h' ht
    exact hstep

theorem move_step {dir : ℤ} (h : Synced fold s) (ht : t = s.move fold dir) :
    Synced fold t ∧ t.buffer = s.buffer := by
  obtain ⟨hs, hbuf, -⟩ := @settle_step fold s _ h rfl
  unfold Search.move at ht
  simp only at ht
  split at ht
  · rw [ht]
    exact ⟨hs, hbuf⟩
  next hcount =>
    rw [ht]
    refine ⟨⟨hs.matches_eq, fun a ha => ?_, hs.lastQuery, hs.last, hs.fresh⟩, hbuf⟩
    obtain rfl := Option.some.inj ha
    show _ < (s.settle fold).matches_.length
    have hpos : (0 : ℤ) < (s.settle fold).matches_.length := by omega
    split
    · split_ifs <;> omega
    · next current _ =>
      have hlt := Int.emod_lt_of_pos (current + dir + (s.settle fold).matches_.length) hpos
      omega

theorem designated_ge (s : Search) : s.designated.filter (s.buffer.dropped ≤ ·) = s.designated := by
  unfold Search.designated
  cases s.active with
  | none => rfl
  | some a =>
    cases hi : s.matches_[a]? with
    | none => simp [hi]
    | some i => simp [hi]

/-- What a step may do to the buffer: nothing, or let it go on, or replace it. -/
def Follows (s t : Search) : Prop :=
  t.buffer.id = s.buffer.id → s.buffer.dropped ≤ t.buffer.dropped ∧ ∃ appended,
    t.buffer.lines = (s.buffer.lines ++ appended).drop (t.buffer.dropped - s.buffer.dropped)

theorem follows_of_eq (h : t.buffer = s.buffer) : Follows s t := by
  intro _
  rw [h, Nat.sub_self]
  exact ⟨le_rfl, [], by simp⟩

/-- The selection stays on its line, and is taken away exactly when the line is gone, the
array is another one or the query is. -/
def Keeps (s t : Search) : Prop :=
  t.designated = if t.compiled = s.compiled ∧ t.buffer.id = s.buffer.id then
    s.designated.filter (t.buffer.dropped ≤ ·) else none

theorem keeps_of_eq (hb : t.buffer = s.buffer)
    (hd : t.designated = if t.compiled = s.compiled then s.designated else none) : Keeps s t := by
  rw [Keeps, hd, hb, designated_ge]
  simp

theorem search_step {e : SearchEvent} (h : Synced fold s) (ht : s.step fold e = some t) :
    Synced fold t ∧ Follows s t ∧ (Keeps s t ∨ e = .next ∨ e = .prev ∨ e = .clear) := by
  cases e with
  | flush appended head =>
    obtain ⟨hs, hc, hid, hle, hlines, hd⟩ := flush_step h ht
    refine ⟨hs, fun _ => ⟨hle, appended, hlines⟩, .inl ?_⟩
    rw [Keeps, hd, if_pos ⟨hc, hid⟩]
  | restart lines dropped =>
    obtain ⟨hs, hid, hd⟩ := restart_step h ht
    refine ⟨hs, fun heq => absurd heq hid, .inl ?_⟩
    rw [Keeps, hd, if_neg fun heq => hid heq.2]
  | debounce =>
    obtain ⟨value, -, rfl⟩ := Option.map_eq_some_iff.mp ht
    have h' : Synced fold { s with timer := none } := h.input _ _ _ _
    obtain ⟨hs, hb, hd⟩ := @setDebounced_step fold _ _ h' value rfl
    exact ⟨hs, follows_of_eq hb, .inl (keeps_of_eq hb hd)⟩
  | settle =>
    obtain ⟨hs, hb, hd⟩ := settle_step h (Option.some.inj ht).symm
    exact ⟨hs, follows_of_eq hb, .inl (keeps_of_eq hb hd)⟩
  | next =>
    obtain ⟨hs, hb⟩ := move_step h (Option.some.inj ht).symm
    exact ⟨hs, follows_of_eq hb, .inr (.inl rfl)⟩
  | prev =>
    obtain ⟨hs, hb⟩ := move_step h (Option.some.inj ht).symm
    exact ⟨hs, follows_of_eq hb, .inr (.inr (.inl rfl))⟩
  | clear =>
    cases ht
    exact ⟨⟨h.matches_eq, nofun, h.lastQuery, h.last, h.fresh⟩, follows_of_eq rfl,
      .inr (.inr (.inr rfl))⟩
  | edit value =>
    cases ht
    exact ⟨h.input _ _ _ _, follows_of_eq rfl, .inl (keeps_of_eq rfl (if_pos rfl).symm)⟩
  | setFilter value =>
    cases ht
    exact ⟨h.input _ _ _ _, follows_of_eq rfl, .inl (keeps_of_eq rfl (if_pos rfl).symm)⟩
  | queryWatch =>
    obtain rfl := Option.some.inj ht
    split_ifs
    · exact ⟨h, follows_of_eq rfl, .inl (keeps_of_eq rfl (if_pos rfl).symm)⟩
    · exact ⟨h.input _ _ _ _, follows_of_eq rfl, .inl (keeps_of_eq rfl (if_pos rfl).symm)⟩

theorem synced (hs : (logSearch fold).Reachable s) : Synced fold s := by
  refine hs.invariant ?_ ?_
  · rintro s ⟨buffer, rfl⟩
    exact ⟨rfl, nofun, rfl, fun h => absurd rfl h, nofun⟩
  · intro s e t h _ ht
    have hstep : s.step fold e = some t := ht
    exact (search_step h hstep).1

/-- A line keeps its number while its array lasts. -/
theorem Follows.lineAt (h : Follows s t) (hid : t.buffer.id = s.buffer.id) {n : ℕ} {line : JStr}
    (hn : t.buffer.dropped ≤ n) (hline : s.lineAt n = some line) : t.lineAt n = some line := by
  obtain ⟨hle, appended, hlines⟩ := h hid
  unfold Search.lineAt at hline ⊢
  rw [if_pos (hle.trans hn)] at hline
  have hlt := (List.getElem?_eq_some_iff.mp hline).1
  rw [if_pos hn, hlines, List.getElem?_drop, ← hline, ← List.getElem?_append_left hlt]
  congr 1
  omega

/-- Over any sequence of appends, trims, restarts, edits, timers and jumps: the matches are
those of a full scan, a selection is a line of the buffer that matches, and every update
leaves it on that line, unless the line was trimmed or everything was scanned anew. -/
theorem search_follows_buffer (fold : UInt16 → UInt16) (s : Search)
    (hs : (logSearch fold).Reachable s) :
    s.matches_ = s.hits fold ∧ (s.designated = none ↔ s.active = none) ∧
    ∀ e t, (logSearch fold).step s e = some t → t.matches_ = t.hits fold ∧
      (Keeps s t ∨ e = .next ∨ e = .prev ∨ e = .clear) ∧
      ∀ n line, t.buffer.id = s.buffer.id → t.buffer.dropped ≤ n → s.lineAt n = some line →
        t.lineAt n = some line := by
  have h := synced hs
  refine ⟨h.matches_eq, designated_eq_none h, fun e t ht => ?_⟩
  have hstep : s.step fold e = some t := ht
  obtain ⟨h', hf, hk⟩ := search_step h hstep
  exact ⟨h'.matches_eq, hk, fun n line hid hn hl => hf.lineAt hid hn hl⟩

/-- Folding of the ASCII letters, for an example. -/
def upperAscii (c : UInt16) : UInt16 := if 97 ≤ c ∧ c ≤ 122 then c - 32 else c

/-- A query is typed and its first hit selected, then the head of the buffer is trimmed. -/
def searched : List SearchEvent :=
  [.edit (js "hit"), .queryWatch, .debounce, .next]

theorem search_follows_buffer_searched :
    ∃ s t, (logSearch upperAscii).exec { buffer := ⟨0, [js "a", js "hit", js "b"], 0⟩ } searched =
        some s ∧ s.step upperAscii (.flush [js "a Hit"] 1) = some t ∧ s.matches_ = [1] ∧
      t.matches_ = [0, 2] ∧ t.designated = some 1 ∧ t.lineAt 1 = some (js "hit") := by
  have hs := Machine.Reachable.exec (M := logSearch upperAscii) searched
    (Machine.Reach.init ⟨⟨0, [js "a", js "hit", js "b"], 0⟩, rfl⟩) rfl
  obtain ⟨-, -, hstep⟩ := search_follows_buffer upperAscii _ hs
  obtain ⟨ht, -, hline⟩ := hstep (.flush [js "a Hit"] 1) _ rfl
  refine ⟨_, _, rfl, rfl, ?_, ht.trans ?_, ?_, hline 1 _ ?_ ?_ ?_⟩ <;> decide +kernel

/-- A search that is wired to a stream: it looks at the stream's array. -/
def Search.Reads (q : Search) (s : Stream) : Prop :=
  q.buffer.lines = s.lines ∧ q.buffer.dropped = s.dropped

theorem flush_read {s : Stream} {q : Search} (h : q.Reads s) :
    (s.flush.linesVersion = s.linesVersion ∧ q.Reads s.flush) ∨
    (s.flush.linesVersion = s.linesVersion + 1 ∧
      ∃ e q', q.step fold e = some q' ∧ q'.Reads s.flush) := by
  unfold Stream.flush
  split_ifs with hp
  · exact .inl ⟨rfl, h⟩
  · refine .inr ⟨rfl, .flush s.pending ((s.lines ++ s.pending).length - maxLines), _, rfl, ?_⟩
    rw [Search.Reads, onChange_buffer, h.1, h.2]
    exact ⟨rfl, rfl⟩

/-- Each step of the stream that bumps `linesVersion` is an event of the search. -/
theorem LogStep.read {s s' : Stream} {c c' : LogTask} {q : Search} (h : LogStep s c s' c')
    (hq : q.Reads s) :
    (s'.linesVersion = s.linesVersion ∧ q.Reads s') ∨
    (s'.linesVersion = s.linesVersion + 1 ∧
      ∃ e q', q.step fold e = some q' ∧ q'.Reads s') := by
  cases h with
  | call =>
    refine .inr ⟨rfl, .restart [] 0, _, rfl, ?_⟩
    rw [Search.Reads, onChange_buffer]
    exact ⟨rfl, rfl⟩
  | timer => exact flush_read (s := { s with timer := none }) hq
  | finish error => exact flush_read (s := { s with error }) hq
  | retry => exact flush_read hq
  | chunk | done =>
    exact .inl ⟨by simp [Stream.record], by simpa [Search.Reads, Stream.record] using hq⟩
  | _ => exact .inl ⟨rfl, hq⟩

end KubeConsole.Web
