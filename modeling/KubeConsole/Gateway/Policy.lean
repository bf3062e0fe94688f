import KubeConsole.Go.URL

/-!
Which request paths the gateway forwards (`internal/gateway/policy.go`), and that
the checks on the escaped path admit exactly the paths whose segments, decoded, are
harmless names under an allowed root.
-/
namespace KubeConsole.Gateway
open KubeConsole.Go

/-- `ErrBadPath` and `ErrForbiddenPath`. -/
inductive PathError where
  | badPath | forbiddenPath
  deriving DecidableEq, Repr

def slash : UInt8 := chr '/'

/-- The segments rejected at any depth. -/
def blockedSegments : List Str := [str "exec", str "attach", str "portforward", str "proxy"]

/-- The roots forwarded to. -/
def allowedRoots : List Str := [str "version", str "api", str "apis", str "openapi"]

/-- The body of the loop of `CheckPath`. -/
def checkSegment (t : CaseTable) (raw : Str) : Except PathError Unit :=
  if raw = [] ∨ raw = str "." ∨ raw = str ".." then .error .badPath
  else match pathUnescape raw with
    | none => .error .badPath
    | some seg =>
      if seg = str "." ∨ seg = str ".." then .error .badPath
      else if ∃ b ∈ seg, b ∈ str "/\\%" then .error .badPath
      else if t.lower seg ∈ blockedSegments then .error .forbiddenPath
      else .ok ()

/-- `CheckPath`. -/
def checkPath (t : CaseTable) (escaped : Str) : Except PathError Unit :=
  match escaped with
  | [] => .error .badPath
  | b :: rest =>
    if b ≠ slash then .error .badPath
    else if str "%2f" <:+: t.lower escaped ∨ str "%5c" <:+: t.lower escaped then .error .badPath
    else do
      let segments := rest.splitOn slash
      segments.forM (checkSegment t)
      if ∃ root ∈ segments.head?, root ∈ allowedRoots then .ok () else .error .forbiddenPath

/-! What the checks admit. -/

/-- A decoded segment that names one thing, and nothing blocked. The blocked names
have no letter with a case variant outside ASCII, so `lowerByte` ignores case. -/
structure SafeSegment (seg : Str) : Prop where
  nonempty : seg ≠ []
  notDot : seg ≠ str "."
  notDotDot : seg ≠ str ".."
  plain : ∀ b ∈ seg, b ∉ str "/\\%"
  notBlocked : ∀ name ∈ blockedSegments, seg.map lowerByte ≠ name

/-- The segments of a path that starts with a slash, as they are escaped. -/
def segments (escaped : Str) : List Str := escaped.tail.splitOn slash

/-- The path starts with a slash, its segments decode to the safe segments
`decoded`, and the first of them is written as an allowed root is. -/
structure Admissible (escaped : Str) (decoded : List Str) : Prop where
  head : escaped.head? = some slash
  decode : List.Forall₂ (fun raw seg => pathUnescape raw = some seg) (segments escaped) decoded
  safe : ∀ seg ∈ decoded, SafeSegment seg
  root : ∃ root ∈ (segments escaped).head?, root ∈ allowedRoots

theorem forM_ok_iff {α ε : Type*} {f : α → Except ε Unit} {l : List α} :
    l.forM f = .ok () ↔ ∀ a ∈ l, f a = .ok () := by
  induction l with
  | nil => simp [pure, Except.pure]
  | cons a l ih =>
    rw [List.forM_eq_forM] at ih
    rw [List.forM_eq_forM, List.forM_cons, List.forall_mem_cons, ← ih]
    cases h : f a with
    | error e => simp [bind, Except.bind]
    | ok u => simp [bind, Except.bind]

/-- A blocked name is recognised in any case. -/
theorem lower_mem_blockedSegments (t : CaseTable) (seg : Str) :
    t.lower seg ∈ blockedSegments ↔ seg.map lowerByte ∈ blockedSegments := by
  have hplain : ∀ name ∈ blockedSegments, ∀ b ∈ name, ¬Foreign b := by decide +kernel
  constructor
  · intro h
    rw [((t.lower_blurred seg).eq_iff (hplain _ h)).mp rfl]
    exact h
  · intro h
    rw [((t.lower_blurred seg).eq_iff (hplain _ h)).mpr rfl]
    exact h

/-- A segment passes exactly when it decodes to a safe one. -/
theorem checkSegment_ok_iff (t : CaseTable) (raw : Str) :
    checkSegment t raw = .ok () ↔ ∃ seg, pathUnescape raw = some seg ∧ SafeSegment seg := by
  unfold checkSegment
  by_cases hraw : raw = [] ∨ raw = str "." ∨ raw = str ".."
  · rw [if_pos hraw]
    refine ⟨nofun, ?_⟩
    rintro ⟨seg, hs, hsafe⟩
    rcases hraw with rfl | rfl | rfl
    · exact absurd (Option.some.inj hs).symm hsafe.nonempty
    · exact absurd (Option.some.inj hs).symm hsafe.notDot
    · exact absurd (Option.some.inj hs).symm hsafe.notDotDot
  · rw [if_neg hraw]
    cases hs : pathUnescape raw with
    | none => simp
    | some seg =>
      have hne : seg ≠ [] := by
        rintro rfl
        obtain ⟨b, raw, rfl⟩ := List.exists_cons_of_ne_nil fun h => hraw (.inl h)
        rcases pathUnescape_cases hs with ⟨_, -, -, h⟩ | ⟨_, _, _, _, _, _, -, -, -, -, -, h⟩ <;>
          cases h
      simp only [Option.some.injEq, exists_eq_left']
      split_ifs with hdot hplain hblocked
      · refine ⟨nofun, fun h => ?_⟩
        rcases hdot with rfl | rfl
        · exact absurd rfl h.notDot
        · exact absurd rfl h.notDotDot
      · refine ⟨nofun, fun h => ?_⟩
        obtain ⟨b, hb, hm⟩ := hplain
        exact absurd hm (h.plain b hb)
      · refine ⟨nofun, fun h => ?_⟩
        exact absurd rfl (h.notBlocked _ ((lower_mem_blockedSegments t seg).mp hblocked))
      · refine ⟨fun _ => ⟨hne, fun h => hdot (.inl h), fun h => hdot (.inr h),
          fun b hb hm => hplain ⟨b, hb, hm⟩, ?_⟩, fun _ => rfl⟩
        rintro name hn rfl
        exact hblocked ((lower_mem_blockedSegments t seg).mpr hn)

section Forall₂
variable {α β : Type*} {R : α → β → Prop} {P : β → Prop} {l : List α} {m : List β}

theorem exists_mem_of_forall₂ (h : List.Forall₂ R l m) {a : α} (ha : a ∈ l) : ∃ b ∈ m, R a b := by
  induction h with
  | nil => cases ha
  | cons hab _ ih =>
    rcases List.mem_cons.mp ha with rfl | ha
    · exact ⟨_, List.mem_cons_self, hab⟩
    · obtain ⟨b, hb, h⟩ := ih ha
      exact ⟨b, List.mem_cons_of_mem _ hb, h⟩

theorem exists_forall₂ (h : ∀ a ∈ l, ∃ b, R a b ∧ P b) :
    ∃ m, List.Forall₂ R l m ∧ ∀ b ∈ m, P b := by
  induction l with
  | nil => exact ⟨[], .nil, by simp⟩
  | cons a l ih =>
    obtain ⟨b, hab, hb⟩ := h a List.mem_cons_self
    obtain ⟨m, hm, hall⟩ := ih fun c hc => h c (List.mem_cons_of_mem _ hc)
    exact ⟨b :: m, .cons hab hm, List.forall_mem_cons.mpr ⟨hb, hall⟩⟩

end Forall₂

/-! The search for encoded separators rejects nothing that the segments would pass. -/

/-- An escape anywhere in a decodable string is decoded. -/
theorem mem_of_escape_infix {s seg : Str} {c d : UInt8} (h : pathUnescape s = some seg)
    (hi : [chr '%', c, d] <:+: s) :
    ∃ hi lo, unhex c = some hi ∧ unhex d = some lo ∧ hi * 16 + lo ∈ seg := by
  have hpercent : unhex (chr '%') = none := by decide
  refine pathUnescape_induction (P := fun s seg => [chr '%', c, d] <:+: s →
    ∃ hi lo, unhex c = some hi ∧ unhex d = some lo ∧ hi * 16 + lo ∈ seg) ?_ ?_ ?_ h hi
  · intro hi
    simp at hi
  · intro b s t hb _ ih hi
    rcases List.infix_cons_iff.mp hi with hp | hi
    · exact absurd (List.cons_prefix_cons.mp hp).1.symm hb
    · obtain ⟨hi, lo, hc, hd, hm⟩ := ih hi
      exact ⟨hi, lo, hc, hd, List.mem_cons_of_mem _ hm⟩
  · intro c' d' hi' lo' s t hc' hd' _ ih hi
    rcases List.infix_cons_iff.mp hi with hp | hi
    · simp only [List.cons_prefix_cons] at hp
      obtain ⟨-, rfl, rfl, -⟩ := hp
      exact ⟨hi', lo', hc', hd', List.mem_cons_self⟩
    rcases List.infix_cons_iff.mp hi with hp | hi
    · rw [← (List.cons_prefix_cons.mp hp).1, hpercent] at hc'
      cases hc'
    rcases List.infix_cons_iff.mp hi with hp | hi
    · rw [← (List.cons_prefix_cons.mp hp).1, hpercent] at hd'
      cases hd'
    · obtain ⟨hi, lo, hc, hd, hm⟩ := ih hi
      exact ⟨hi, lo, hc, hd, List.mem_cons_of_mem _ hm⟩

section Split
variable {α : Type*} [DecidableEq α] {sep : α} {p s : List α}

theorem exists_prefix_head_splitOn (hp : sep ∉ p) (h : p <+: s) :
    ∃ seg ∈ (s.splitOn sep).head?, p <+: seg := by
  induction s generalizing p with
  | nil => exact ⟨[], rfl, h⟩
  | cons a s ih =>
    rw [List.splitOn_cons_eq_if_modifyHead]
    cases p with
    | nil =>
      obtain ⟨seg, hs, -⟩ := ih (p := []) (by simp) List.nil_prefix
      by_cases ha : (a == sep) = true
      · rw [if_pos ha]
        exact ⟨[], rfl, List.nil_prefix⟩
      · rw [if_neg ha, List.head?_modifyHead]
        exact ⟨a :: seg, by simpa using hs, List.nil_prefix⟩
    | cons b p =>
      obtain ⟨rfl, h'⟩ := List.cons_prefix_cons.mp h
      rw [List.mem_cons, not_or] at hp
      obtain ⟨seg, hs, hpre⟩ := ih hp.2 h'
      rw [if_neg (by simpa using Ne.symm hp.1), List.head?_modifyHead]
      exact ⟨b :: seg, by simpa using hs, List.cons_prefix_cons.mpr ⟨rfl, hpre⟩⟩

/-- A pattern without separators that occurs in a string occurs in one of its segments. -/
theorem exists_infix_of_splitOn (hp : sep ∉ p) (h : p <:+: s) : ∃ seg ∈ s.splitOn sep, p <:+: seg := by
  induction s with
  | nil => exact ⟨[], by simp, h⟩
  | cons a s ih =>
    rcases List.infix_cons_iff.mp h with h | h
    · obtain ⟨seg, hs, hpre⟩ := exists_prefix_head_splitOn hp h
      exact ⟨seg, List.mem_of_mem_head? hs, hpre.isInfix⟩
    · obtain ⟨seg, hs, hi⟩ := ih h
      rw [List.splitOn_cons_eq_if_modifyHead]
      by_cases ha : (a == sep) = true
      · rw [if_pos ha]
        exact ⟨seg, List.mem_cons_of_mem _ hs, hi⟩
      · rw [if_neg ha]
        obtain ⟨first, others, hl⟩ := List.exists_cons_of_ne_nil (List.splitOn_ne_nil sep s)
        rw [hl] at hs ⊢
        rcases List.mem_cons.mp hs with rfl | hs
        · exact ⟨a :: seg, by simp, hi.trans (List.suffix_cons _ _).isInfix⟩
        · exact ⟨seg, by simp [hs], hi⟩

end Split

theorem unhex_lowerByte (b : UInt8) : unhex (lowerByte b) = unhex b := by
  have hall : ∀ n < 256, unhex (lowerByte n.toUInt8) = unhex n.toUInt8 := by decide +kernel
  simpa using hall b.toNat b.toNat_lt

theorem eq_percent_of_lowerByte {b : UInt8} (h : lowerByte b = chr '%') : b = chr '%' := by
  have h : (if (0x41 : UInt8) ≤ b ∧ b ≤ 0x5A then b + 0x20 else b) = 0x25 := h
  show b = 0x25
  split_ifs at h with hb
  · grind
  · exact h

/-- An encoded separator, in any case and however the letters around it are lowered,
is in the way of the segment check already. -/
theorem Admissible.no_separator {escaped : Str} {decoded : List Str}
    (h : Admissible escaped decoded) (t : CaseTable) {c d hi lo : UInt8} (hc : unhex c = some hi)
    (hd : unhex d = some lo) (hforeign : ¬Foreign c ∧ ¬Foreign d)
    (hsep : hi * 16 + lo ∈ str "/\\%") : ¬[chr '%', c, d] <:+: t.lower escaped := by
  intro hin
  have hplain : ∀ b ∈ [chr '%', c, d], ¬Foreign b := by
    simp only [List.forall_mem_cons, List.not_mem_nil, false_implies, implies_true, and_true]
    exact ⟨by decide, hforeign⟩
  rw [(t.lower_blurred escaped).infix_iff hplain] at hin
  obtain ⟨p, hp, hmap⟩ := List.infix_map_iff.mp hin
  obtain ⟨b, c', d', rfl⟩ : ∃ b c' d', p = [b, c', d'] := by
    have hlen : p.length = 3 := by simpa using (congrArg List.length hmap).symm
    exact List.length_eq_three.mp hlen
  simp only [List.map_cons, List.map_nil, List.cons.injEq, and_true] at hmap
  obtain ⟨hb, rfl, rfl⟩ := hmap
  obtain rfl := eq_percent_of_lowerByte hb.symm
  rw [unhex_lowerByte] at hc hd
  -- the escape lies in one segment, and what that decodes to has no separator
  obtain ⟨rest, rfl⟩ := List.head?_eq_some_iff.mp h.head
  rcases List.infix_cons_iff.mp hp with hp | hp
  · exact absurd (List.cons_prefix_cons.mp hp).1 (by decide)
  have hslash : slash ∉ [chr '%', c', d'] := by
    have hnone : unhex slash = none := by decide
    simp only [List.mem_cons, List.not_mem_nil, or_false, not_or]
    refine ⟨by decide, ?_, ?_⟩ <;> rintro rfl <;> simp_all
  obtain ⟨raw, hraw, hin⟩ := exists_infix_of_splitOn hslash hp
  obtain ⟨seg, hseg, hdec⟩ := exists_mem_of_forall₂ h.decode hraw
  obtain ⟨hi', lo', hc', hd', hm⟩ := mem_of_escape_infix hdec hin
  obtain rfl : hi = hi' := by simpa [hc] using hc'
  obtain rfl : lo = lo' := by simpa [hd] using hd'
  exact (h.safe seg hseg).plain _ hm hsep

/-- The gateway lets a path through exactly when it is admissible. -/
theorem checkPath_ok_iff (t : CaseTable) (escaped : Str) :
    checkPath t escaped = .ok () ↔ ∃ decoded, Admissible escaped decoded := by
  cases escaped with
  | nil => exact ⟨nofun, fun ⟨_, h⟩ => nomatch h.head⟩
  | cons b rest =>
    by_cases hb : b = slash
    swap
    · rw [checkPath, if_pos hb]
      exact ⟨nofun, fun ⟨_, h⟩ => absurd (Option.some.inj h.head) hb⟩
    subst hb
    rw [checkPath, if_neg (by simp)]
    constructor
    · intro h
      split_ifs at h with hsep
      obtain ⟨hall, hroot⟩ : (rest.splitOn slash).forM (checkSegment t) = .ok () ∧
          ∃ root ∈ (rest.splitOn slash).head?, root ∈ allowedRoots := by
        cases hm : (rest.splitOn slash).forM (checkSegment t) with
        | error e => simp [hm, bind, Except.bind] at h
        | ok u =>
          refine ⟨rfl, ?_⟩
          by_contra hr
          simp only [hm, bind, Except.bind] at h
          rw [if_neg hr] at h
          cases h
      rw [forM_ok_iff] at hall
      obtain ⟨decoded, hdec, hsafe⟩ := exists_forall₂ fun raw hraw =>
        (checkSegment_ok_iff t raw).mp (hall raw hraw)
      exact ⟨decoded, rfl, hdec, hsafe, hroot⟩
    · rintro ⟨decoded, h⟩
      have h2f := h.no_separator t (c := chr '2') (d := chr 'f') rfl rfl (by decide) (by decide)
      have h5c := h.no_separator t (c := chr '5') (d := chr 'c') rfl rfl (by decide) (by decide)
      have hall : (rest.splitOn slash).forM (checkSegment t) = .ok () := by
        rw [forM_ok_iff]
        intro raw hraw
        obtain ⟨seg, hseg, hdec⟩ := exists_mem_of_forall₂ h.decode hraw
        exact (checkSegment_ok_iff t raw).mpr ⟨seg, hdec, h.safe seg hseg⟩
      rw [if_neg (c := str "%2f" <:+: _ ∨ str "%5c" <:+: _) (not_or.mpr ⟨h2f, h5c⟩)]
      simp only [hall]
      exact if_pos h.root

end KubeConsole.Gateway
