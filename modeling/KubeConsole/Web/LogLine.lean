import KubeConsole.Web.LogJson

/-!
Which lines `tokenizeJsonLine` takes: the scanners cut off whatever the grammar has, and the prefix
is found where there is one.
-/
namespace KubeConsole.Web.LogJson
open KubeConsole.Theory JsonText Scanner
variable {b : LogBuiltins}

/-! ## What the scanners cut off where it stands -/

theorem cuts_whitespace {w r : JStr} (hw : scanned.Blank w)
    (hr : ∀ c ∈ r.head?, isSpace c = false) : Cuts whitespace w r := by
  obtain ⟨htake, hdrop⟩ := takeWhile_stop (p := isSpace) hw hr
  refine ⟨if w = [] then [] else [⟨.punct, w, none⟩], ?_⟩
  rw [whitespace, htake, hdrop]

theorem notSpace_cons {c : UInt16} (h : isSpace c = false) (s : JStr) :
    ∀ d ∈ (c :: s).head?, isSpace d = false := by
  intro d hd
  obtain rfl : c = d := Option.some.inj hd
  exact h

theorem cuts_punct (ch : UInt16) (r : JStr) : Cuts (punct ch) [ch] r :=
  ⟨[⟨.punct, [ch], none⟩], by rw [List.singleton_append, punct, if_pos rfl]⟩

theorem punct_ne {ch c : UInt16} (h : c ≠ ch) (s : JStr) : punct ch (c :: s) = none := by
  rw [punct, if_neg h]

/-- Between an opening and a closing character there is white space only. -/
theorem cuts_empty (opening : UInt16) {closing : UInt16} (hclosing : isSpace closing = false)
    (loop : Scan) {w : JStr} (hw : scanned.Blank w) (r : JStr) :
    Cuts ((punct opening).seq (whitespace.seq ((punct closing).branch .done loop)))
      (opening :: (w ++ [closing])) r := by
  have hclose : Cuts ((punct closing).branch .done loop) ([closing] ++ []) r :=
    (cuts_punct closing r).branch cuts_done
  exact (cuts_punct opening _).seq ((cuts_whitespace hw (notSpace_cons hclosing r)).seq hclose)

/-- Behind the opening character and white space the loop takes over. -/
theorem cuts_nonempty (opening : UInt16) {closing c : UInt16} (hc : isSpace c = false)
    (hne : c ≠ closing) {loop : Scan} {w s r : JStr} (hw : scanned.Blank w) (h : Cuts loop (c :: s) r) :
    Cuts ((punct opening).seq (whitespace.seq ((punct closing).branch .done loop)))
      (opening :: (w ++ c :: s)) r :=
  (cuts_punct opening _).seq ((cuts_whitespace hw (notSpace_cons hc _)).seq
    (.branch_right (punct_ne hne _) h))

theorem cuts_keyThen {next : Bool → Scan} {x v r : JStr} (hx : LooseBody x)
    (h : ∀ isLevel, Cuts (next isLevel) v r) : Cuts (keyThen b next) (quoted x ++ v) r := by
  obtain ⟨ts, hts⟩ := h (isLevelKey b (quoted x))
  refine ⟨⟨.key, quoted x, none⟩ :: ts, ?_⟩
  rw [keyThen, List.append_assoc, stringLiteral_complete hx, Option.bind_some, hts]
  rfl

/-- What stands behind a member or an element. -/
def Closed (t : JStr) : Prop := ∃ c s, t = c :: s ∧ (c = comma ∨ c = rbrace ∨ c = rbracket)

theorem Closed.notSpace {t : JStr} (h : Closed t) (r : JStr) :
    ∀ c ∈ (t ++ r).head?, isSpace c = false := by
  obtain ⟨c, s, rfl, hc⟩ := h
  have hspace : isSpace c = false := by
    rcases hc with rfl | rfl | rfl <;> rfl
  exact notSpace_cons hspace (s ++ r)

/-- A number ends before white space and before what closes a value. -/
theorem Closed.endsNumber {t : JStr} (h : Closed t) {w : JStr} (hw : scanned.Blank w) (r : JStr) :
    EndsNumber (w ++ t ++ r) := by
  intro d hd
  cases w with
  | nil =>
    obtain ⟨c, s, rfl, hc⟩ := h
    obtain rfl : c = d := Option.some.inj hd
    rcases hc with rfl | rfl | rfl <;> decide
  | cons c w =>
    obtain rfl : c = d := Option.some.inj hd
    have hspace : isSpace c = true := hw c List.mem_cons_self
    simp only [isSpace, Bool.or_eq_true, decide_eq_true_iff] at hspace
    rcases hspace with (rfl | rfl) | rfl <;> decide

/-- A text of the grammar begins with neither white space nor a closing character. -/
theorem opens_plain {part : Part} {c : UInt16} (h : opens part c = true) :
    isSpace c = false ∧ c ≠ rbrace ∧ c ≠ rbracket := by
  have hvalue : opens .value c = true := by
    cases part <;> simp_all [opens]
  have hne : ∀ d, opens .value d = false → c ≠ d := by
    rintro d hd rfl
    rw [hvalue] at hd
    cases hd
  have hspace : isSpace c = false := by
    have h20 := hne 0x20 (by decide)
    have h9 := hne 0x09 (by decide)
    have hD := hne 0x0D (by decide)
    simp [isSpace, h20, h9, hD]
  exact ⟨hspace, hne _ (by decide), hne _ (by decide)⟩

/-! ## Completeness -/

theorem cuts_scanString (isLevel : Bool) {x : JStr} (h : LooseBody x) (r : JStr) :
    Cuts (scanString b isLevel) (quoted x) r := by
  rw [Cuts, scanString, stringLiteral_complete h]
  exact ⟨_, rfl⟩

theorem cuts_scanNumber (isLevel : Bool) {u r : JStr} (h : IsNumber u) (hr : EndsNumber r) :
    Cuts (scanNumber b isLevel) u r := by
  rw [Cuts, scanNumber, numberLiteral_complete h hr]
  exact ⟨_, rfl⟩

theorem cuts_valueBody_keyword (object array : Scan) (isLevel : Bool) {word : JStr}
    (h : word ∈ keywords) (r : JStr) : Cuts (valueBody b object array isLevel) word r := by
  simp only [keywords, List.mem_cons, List.not_mem_nil, or_false] at h
  rcases h with rfl | rfl | rfl
  · exact ⟨_, rfl⟩
  · exact ⟨_, rfl⟩
  · exact ⟨_, rfl⟩

theorem cuts_valueBody_string (object array : Scan) (isLevel : Bool) {x : JStr}
    (h : LooseBody x) (r : JStr) : Cuts (valueBody b object array isLevel) (quoted x) r := by
  have hscan : valueBody b object array isLevel (quoted x ++ r) =
      scanString b isLevel (quoted x ++ r) := rfl
  rw [Cuts, hscan]
  exact cuts_scanString isLevel h r

theorem cuts_valueBody_number (object array : Scan) (isLevel : Bool) {u r : JStr}
    (h : IsNumber u) (hr : EndsNumber r) : Cuts (valueBody b object array isLevel) u r := by
  obtain ⟨c, s, hu, hc⟩ := h.head
  have hne : ∀ d, d ≠ 0x2D → digit d = false → c ≠ d := by
    rintro d hd hdigit rfl
    rcases hc with rfl | hc
    · exact hd rfl
    · rw [hdigit] at hc
      cases hc
  have hscan : valueBody b object array isLevel (u ++ r) = scanNumber b isLevel (u ++ r) := by
    have hword : keywords.find? (List.isPrefixOf · (c :: (s ++ r))) = none := by
      have ht := hne 0x74 (by decide) (by decide)
      have hf := hne 0x66 (by decide) (by decide)
      have hn := hne 0x6E (by decide) (by decide)
      simp [keywords, List.isPrefixOf, ht.symm, hf.symm, hn.symm]
    rw [hu, List.cons_append, valueBody, if_neg (hne _ (by decide) (by decide)),
      if_neg (hne _ (by decide) (by decide)), if_neg (hne _ (by decide) (by decide)), keywords_eq,
      hword]
  rw [Cuts, hscan]
  exact cuts_scanNumber isLevel h hr

/-- The scanners cut off what the grammar has, given a bound on the depth of calls that grows
with the text. A member and an element are seen from the loop they stand in. -/
def Complete (b : LogBuiltins) : Part → JStr → Prop
  | .value, u => ∀ n isLevel w r, scanned.Blank w → EndsNumber r → 4 * u.length + 2 ≤ n →
    Cuts (value b n isLevel) (w ++ u) r
  | .object, u => ∀ n r, 4 * u.length + 1 ≤ n → Cuts (object b n) u r
  | .members, u => ∀ n w r, scanned.Blank w → 4 * u.length + 3 ≤ n →
    Cuts (members b n) (w ++ u ++ [rbrace]) r
  | .member, u => ∀ n w t r, scanned.Blank w → 4 * u.length ≤ n → Closed t →
    Cuts ((punct comma).branch (members b n) (punct rbrace)) t r →
    Cuts (members b (n + 1)) (w ++ u ++ t) r
  | .array, u => ∀ n r, 4 * u.length + 1 ≤ n → Cuts (array b n) u r
  | .elements, u => ∀ n w r, scanned.Blank w → 4 * u.length + 3 ≤ n →
    Cuts (elements b n) (w ++ u ++ [rbracket]) r
  | .element, u => ∀ n w t r, scanned.Blank w → 4 * u.length + 2 ≤ n → Closed t →
    Cuts ((punct comma).branch (elements b n) (punct rbracket)) t r →
    Cuts (elements b (n + 1)) (w ++ u ++ t) r

theorem complete_value {u : JStr} (hu : Derives scanned .value u)
    (h : ∀ n isLevel r, EndsNumber r → 4 * u.length + 1 ≤ n →
      Cuts (valueBody b (object b n) (array b n) isLevel) u r) : Complete b .value u := by
  intro n isLevel w r hw hr hn
  obtain ⟨m, rfl⟩ : ∃ m, n = m + 1 := ⟨n - 1, by omega⟩
  obtain ⟨c, s, rfl, hc⟩ := hu.head
  rw [value]
  exact (cuts_whitespace hw (notSpace_cons (opens_plain hc).1 (s ++ r))).seq
    (h m isLevel r hr (by omega))

theorem complete_member {k w w' v w'' : JStr} (hk : LooseBody k) (hw : scanned.Blank w)
    (hw' : scanned.Blank w') (hv : Complete b .value v) (hw'' : scanned.Blank w'') :
    Complete b .member (quoted k ++ w ++ colon :: (w' ++ v ++ w'')) := by
  intro n w0 t r hw0 hn ht htail
  have hlength : 4 * v.length + 2 ≤ n := by
    simp only [quoted, List.length_append, List.length_cons] at hn
    omega
  have hvalue (isLevel : Bool) := hv n isLevel w' (w'' ++ t ++ r) hw' (ht.endsNumber hw'' r) hlength
  have hrest (isLevel : Bool) : Cuts (whitespace.seq ((punct colon).seq ((value b n isLevel).seq
      (whitespace.seq ((punct comma).branch (members b n) (punct rbrace))))))
      (w ++ ([colon] ++ (w' ++ v ++ (w'' ++ t)))) r := by
    exact (cuts_whitespace hw (notSpace_cons rfl _)).seq ((cuts_punct colon _).seq
      ((hvalue isLevel).seq ((cuts_whitespace hw'' (ht.notSpace r)).seq htail)))
  have hkey := cuts_keyThen (b := b) hk hrest
  have hall := (cuts_whitespace hw0 (notSpace_cons rfl _)).seq hkey
  rw [members]
  simpa using hall

theorem complete_element {v w : JStr} (hv : Complete b .value v) (hw : scanned.Blank w) :
    Complete b .element (v ++ w) := by
  intro n w0 t r hw0 hn ht htail
  have hlength : 4 * v.length + 2 ≤ n := by
    rw [List.length_append] at hn
    omega
  have hvalue := hv n false w0 (w ++ t ++ r) hw0 (ht.endsNumber hw r) hlength
  have hall := hvalue.seq ((cuts_whitespace hw (ht.notSpace r)).seq htail)
  rw [elements]
  simpa using hall

/-- Once the closing character does not stand behind the opening one, the loop takes over. -/
theorem complete_of_derives {part : Part} {u : JStr} (h : Derives scanned part u) :
    Complete b part u := by
  induction h with
  | string hs =>
    exact complete_value (.string hs) fun n isLevel r _ _ => cuts_valueBody_string _ _ isLevel hs r
  | keyword hs =>
    exact complete_value (.keyword hs) fun n isLevel r _ _ =>
      cuts_valueBody_keyword _ _ isLevel hs r
  | number hs =>
    exact complete_value (.number hs) fun n isLevel r hr _ =>
      cuts_valueBody_number _ _ isLevel hs hr
  | nestedObject hs ih =>
    refine complete_value (.nestedObject hs) fun n isLevel r _ hn => ?_
    obtain ⟨c, s, rfl, hc⟩ := hs.head
    obtain rfl : c = lbrace := of_decide_eq_true hc
    exact ih n r hn
  | nestedArray hs ih =>
    refine complete_value (.nestedArray hs) fun n isLevel r _ hn => ?_
    obtain ⟨c, s, rfl, hc⟩ := hs.head
    obtain rfl : c = lbracket := of_decide_eq_true hc
    exact ih n r hn
  | emptyObject hw =>
    intro n r hn
    obtain ⟨m, rfl⟩ := Nat.exists_eq_succ_of_ne_zero (show n ≠ 0 by omega)
    rw [object]
    exact cuts_empty lbrace rfl _ hw r
  | object hw hs ih =>
    intro n r hn
    obtain ⟨m, rfl⟩ := Nat.exists_eq_succ_of_ne_zero (show n ≠ 0 by omega)
    obtain ⟨c, s, rfl, hc⟩ := hs.head
    obtain ⟨hspace, hne, -⟩ := opens_plain hc
    have hloop := ih m [] r (List.forall_mem_nil _) (by simp at hn ⊢; omega)
    have hall := cuts_nonempty lbrace hspace hne hw hloop
    rw [object]
    simpa using hall
  | member hk hw hw' _ hw'' ih => exact complete_member hk hw hw' ih hw''
  | lastMember _ ih =>
    intro n w r hw hn
    obtain ⟨m, rfl⟩ := Nat.exists_eq_succ_of_ne_zero (show n ≠ 0 by omega)
    exact ih m w [rbrace] r hw (by omega) ⟨rbrace, [], rfl, .inr (.inl rfl)⟩
      (.branch_right rfl (cuts_punct rbrace r))
  | @nextMember u w' s _ hw' _ ih ih' =>
    intro n w r hw hn
    obtain ⟨m, rfl⟩ := Nat.exists_eq_succ_of_ne_zero (show n ≠ 0 by omega)
    simp only [List.length_append, List.length_cons] at hn
    have hnext := ih' m w' r hw' (by omega)
    have hall := ih m w (comma :: (w' ++ s ++ [rbrace])) r hw (by omega) ⟨comma, _, rfl, .inl rfl⟩
      ((cuts_punct comma _).branch hnext)
    simpa using hall
  | emptyArray hw =>
    intro n r hn
    obtain ⟨m, rfl⟩ := Nat.exists_eq_succ_of_ne_zero (show n ≠ 0 by omega)
    rw [array]
    exact cuts_empty lbracket rfl _ hw r
  | array hw hs ih =>
    intro n r hn
    obtain ⟨m, rfl⟩ := Nat.exists_eq_succ_of_ne_zero (show n ≠ 0 by omega)
    obtain ⟨c, s, rfl, hc⟩ := hs.head
    obtain ⟨hspace, -, hne⟩ := opens_plain hc
    have hloop := ih m [] r (List.forall_mem_nil _) (by simp at hn ⊢; omega)
    have hall := cuts_nonempty lbracket hspace hne hw hloop
    rw [array]
    simpa using hall
  | element _ hw ih => exact complete_element ih hw
  | lastElement _ ih =>
    intro n w r hw hn
    obtain ⟨m, rfl⟩ := Nat.exists_eq_succ_of_ne_zero (show n ≠ 0 by omega)
    exact ih m w [rbracket] r hw (by omega) ⟨rbracket, [], rfl, .inr (.inr rfl)⟩
      (.branch_right rfl (cuts_punct rbracket r))
  | @nextElement u w' s _ hw' _ ih ih' =>
    intro n w r hw hn
    obtain ⟨m, rfl⟩ := Nat.exists_eq_succ_of_ne_zero (show n ≠ 0 by omega)
    simp only [List.length_append, List.length_cons] at hn
    have hnext := ih' m w' r hw' (by omega)
    have hall := ih m w (comma :: (w' ++ s ++ [rbracket])) r hw (by omega)
      ⟨comma, _, rfl, .inl rfl⟩ ((cuts_punct comma _).branch hnext)
    simpa using hall

/-! ## The prefix -/

/-- `\d{4}-\d{2}-\d{2}T`. -/
def IsDate (p : JStr) : Prop :=
  ∃ y m d, p = y ++ 0x2D :: (m ++ 0x2D :: (d ++ [0x54])) ∧ y.length = 4 ∧ m.length = 2 ∧
    d.length = 2 ∧ ∀ c ∈ y ++ m ++ d, digit c = true

/-- A date, non-blanks, blanks. -/
def IsStamp (p : JStr) : Prop :=
  ∃ date zone blanks, p = date ++ zone ++ blanks ∧ IsDate date ∧
    (∀ c ∈ zone, isBlank c = false) ∧ blanks ≠ [] ∧ ∀ c ∈ blanks, isBlank c = true

theorem IsDate.length {p : JStr} (h : IsDate p) : p.length = 11 := by
  obtain ⟨y, m, d, rfl, hy, hm, hd, -⟩ := h
  simp [hy, hm, hd]

theorem stampDate_sound {line rest : JStr} (h : stampDate line = some rest) :
    ∃ date, IsDate date ∧ line = date ++ rest := by
  unfold stampDate at h
  split at h
  · rename_i y0 y1 y2 y3 h0 m0 m1 h1 d0 d1 t tail
    split_ifs at h with hc
    obtain rfl := Option.some.inj h
    simp only [Bool.and_eq_true, decide_eq_true_iff] at hc
    obtain ⟨⟨⟨hdigits, rfl⟩, rfl⟩, rfl⟩ := hc
    refine ⟨_, ⟨[y0, y1, y2, y3], [m0, m1], [d0, d1], rfl, rfl, rfl, rfl, ?_⟩, rfl⟩
    exact List.all_eq_true.mp hdigits
  · cases h

theorem stampDate_complete {date : JStr} (h : IsDate date) (rest : JStr) :
    stampDate (date ++ rest) = some rest := by
  obtain ⟨y, m, d, rfl, hy, hm, hd, hdigits⟩ := h
  obtain ⟨y0, y1, y2, y3, rfl⟩ := List.length_eq_four.mp hy
  obtain ⟨m0, m1, rfl⟩ := List.length_eq_two.mp hm
  obtain ⟨d0, d1, rfl⟩ := List.length_eq_two.mp hd
  have hall : [y0, y1, y2, y3, m0, m1, d0, d1].all digit = true := List.all_eq_true.mpr hdigits
  simp [stampDate, hall]

theorem splitPrefix_stamp {p u : JStr} (hp : IsStamp p) (hu : ∀ c ∈ u.head?, isBlank c = false) :
    splitPrefix (p ++ u) = (p, u) := by
  obtain ⟨date, zone, blanks, rfl, hdate, hzone, hne, hblanks⟩ := hp
  obtain ⟨htake, hdrop⟩ := takeWhile_stop (u := blanks) hblanks hu
  obtain ⟨hztake, hzdrop⟩ := takeWhile_stop (p := fun c => !isBlank c) (u := zone)
    (r := blanks ++ u) (fun c hc => by simp [hzone c hc]) (by
      obtain ⟨c, s, rfl⟩ := List.exists_cons_of_ne_nil hne
      intro d hd
      obtain rfl : c = d := Option.some.inj hd
      simp [hblanks c List.mem_cons_self])
  have hline : date ++ zone ++ blanks ++ u = date ++ (zone ++ (blanks ++ u)) := by simp
  have hfirst : (date ++ (zone ++ (blanks ++ u))).take 11 = date := by
    rw [← hdate.length, List.take_left]
  rw [splitPrefix, hline, stampDate_complete hdate]
  simp only [hztake, hzdrop, htake, hdrop, hfirst, if_neg hne]

theorem splitPrefix_lbrace (s : JStr) : splitPrefix (lbrace :: s) = ([], lbrace :: s) := by
  have hnone : stampDate (lbrace :: s) = none := by
    cases h : stampDate (lbrace :: s) with
    | none => rfl
    | some rest =>
      obtain ⟨_, ⟨y, m, d, rfl, hy, -, -, hdigits⟩, hline⟩ := stampDate_sound h
      obtain ⟨y0, y, rfl⟩ := List.exists_cons_of_ne_nil (List.ne_nil_of_length_eq_add_one hy)
      obtain ⟨rfl, -⟩ := List.cons.inj hline
      exact absurd (hdigits lbrace (by simp)) (by decide)
  rw [splitPrefix, hnone]

theorem splitPrefix_spec (line : JStr) : line = (splitPrefix line).1 ++ (splitPrefix line).2 ∧
    ((splitPrefix line).1 = [] ∨ IsStamp (splitPrefix line).1) := by
  unfold splitPrefix
  cases h : stampDate line with
  | none => exact ⟨rfl, .inl rfl⟩
  | some rest =>
    obtain ⟨date, hdate, rfl⟩ := stampDate_sound h
    have hfirst : (date ++ rest).take 11 = date := by rw [← hdate.length, List.take_left]
    dsimp only
    split_ifs with hblanks
    · exact ⟨rfl, .inl rfl⟩
    · rw [hfirst]
      refine ⟨?_, .inr ⟨date, _, _, rfl, hdate, ?_, hblanks, fun _ hc =>
        List.mem_takeWhile_imp hc⟩⟩
      · simp only [List.append_assoc, List.takeWhile_append_dropWhile]
      · intro c hc
        have hc' := List.mem_takeWhile_imp hc
        simpa using hc'

/-! ## Lines -/

/-- Where a line is cut into a prefix, an object and blanks. -/
def IsRecord (L : Lexis) (line p u w : JStr) : Prop :=
  line = p ++ u ++ w ∧ (p = [] ∨ IsStamp p) ∧ Derives L .object u ∧ L.Blank w

theorem IsRecord.splitPrefix {line p u w : JStr} (h : IsRecord scanned line p u w) :
    splitPrefix line = (p, u ++ w) := by
  obtain ⟨rfl, hp, hu, -⟩ := h
  obtain ⟨c, s, rfl, hc⟩ := hu.head
  obtain rfl : c = lbrace := of_decide_eq_true hc
  rw [List.append_assoc]
  rcases hp with rfl | hp
  · exact splitPrefix_lbrace (s ++ w)
  · refine splitPrefix_stamp hp fun d hd => ?_
    obtain rfl : lbrace = d := Option.some.inj hd
    rfl

theorem tokenizeJsonLine_sound {line : JStr} {tokens : List LogToken}
    (h : tokenizeJsonLine b line = some tokens) :
    texts tokens = line ∧ Direct b tokens ∧ ∃ p u w, IsRecord scanned line p u w := by
  obtain ⟨hline, hstamp⟩ := splitPrefix_spec line
  unfold tokenizeJsonLine at h
  generalize splitPrefix line = cut at h hline hstamp
  obtain ⟨stamp, src⟩ := cut
  dsimp only at h hline hstamp
  by_cases hhead : src.head? ≠ some lbrace
  · rw [if_pos hhead] at h
    cases h
  rw [if_neg hhead] at h
  split at h
  · rename_i ts hscan
    obtain rfl := Option.some.inj h
    obtain ⟨_, rfl, u, w, t, t', rfl, rfl, ⟨hu, htext, hdirect⟩, hw, hwt, hspace⟩ :=
      ((soundAt (4 * src.length + 4)).object.seq sound_whitespace) _ _ _ hscan
    have htexts : texts (t ++ t') = u ++ w := by rw [texts_append, htext, hwt]
    have hall : Direct b (t ++ t') := hdirect.append (hspace.direct b)
    rw [List.append_nil] at hline
    refine ⟨?_, ?_, stamp, u, w, by rw [hline, List.append_assoc], hstamp, hu, hw⟩
    · split_ifs with he
      · rw [htexts, hline, he, List.nil_append]
      · exact (congrArg (stamp ++ ·) htexts).trans hline.symm
    · split_ifs with he
      · exact hall
      · exact .append (.plain b (List.forall_mem_singleton.mpr rfl)) hall
  · cases h

theorem tokenizeJsonLine_complete {line p u w : JStr} (h : IsRecord scanned line p u w) :
    ∃ tokens, tokenizeJsonLine b line = some tokens := by
  have hsplit := h.splitPrefix
  obtain ⟨-, -, hu, hw⟩ := h
  obtain ⟨c, s, rfl, hc⟩ := hu.head
  obtain rfl : c = lbrace := of_decide_eq_true hc
  have hobject := complete_of_derives (b := b) hu (4 * (lbrace :: s ++ w).length + 4) (w ++ [])
    (by simp only [List.length_append]; omega)
  obtain ⟨tokens, htokens⟩ := hobject.seq (cuts_whitespace hw (r := []) (by simp))
  rw [List.append_nil] at htokens
  refine ⟨if p = [] then tokens else ⟨.text, p, none⟩ :: tokens, ?_⟩
  rw [tokenizeJsonLine, hsplit]
  dsimp only
  rw [if_neg (by simp), htokens]

/-- A JSON object in one line is one of the scanner's grammar. -/
theorem IsRecord.of_standard {line p u w : JStr} (h : IsRecord standard line p u w)
    (hline : newline ∉ u ++ w) : IsRecord scanned line p u w := by
  obtain ⟨heq, hp, hu, hw⟩ := h
  have hspace : ∀ c, c ≠ newline → standard.blank c = true → isSpace c = true := by
    intro c hc hblank
    simp only [standard, Bool.or_eq_true, decide_eq_true_iff] at hblank
    rcases hblank with ((rfl | rfl) | rfl) | rfl
    · rfl
    · rfl
    · exact absurd rfl hc
    · rfl
  have hne {c : UInt16} (hc : c ∈ u ++ w) : c ≠ newline := fun h => hline (h ▸ hc)
  have hbody : ∀ s, (∀ c ∈ s, c ≠ newline) → standard.body s → LooseBody s := fun s _ hs =>
    StrictBody.loose hs
  refine ⟨heq, hp, hu.mono hspace hbody ?_, ?_⟩
  · exact fun c hc => hne (List.mem_append_left w hc)
  · exact fun c hc => hspace c (hne (List.mem_append_right u hc)) (hw c hc)

theorem tokenizeJsonLine_spec (b : LogBuiltins) (line : JStr) :
    (∀ tokens, tokenizeJsonLine b line = some tokens → texts tokens = line ∧ Direct b tokens) ∧
    ((∃ tokens, tokenizeJsonLine b line = some tokens) ↔
      ∃ p u w, IsRecord scanned line p u w) ∧
    ∀ p u w, IsRecord standard line p u w → newline ∉ u ++ w →
      ∃ tokens, tokenizeJsonLine b line = some tokens := by
  refine ⟨fun tokens h => ?_, ⟨?_, ?_⟩, fun p u w h hline => ?_⟩
  · obtain ⟨htexts, hdirect, -⟩ := tokenizeJsonLine_sound h
    exact ⟨htexts, hdirect⟩
  · rintro ⟨tokens, h⟩
    exact (tokenizeJsonLine_sound h).2.2
  · rintro ⟨p, u, w, h⟩
    exact tokenizeJsonLine_complete h
  · exact tokenizeJsonLine_complete (h.of_standard hline)

end KubeConsole.Web.LogJson
