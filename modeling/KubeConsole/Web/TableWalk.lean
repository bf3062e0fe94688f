import KubeConsole.Web.K8s

/-!
What a walk brings home: the kept rows of the pages it has read, whether there are more, and
where to go on.
-/
namespace KubeConsole.Web
open KubeConsole.Theory

variable {serve : ListRequest → Except Thrown ListBody} {ref : ResourceRef}
  {opts : TableWalkOptions} {w : Walk}

/-- The token that the next page is under. -/
def ListResult.next (r : ListResult) : Option JStr :=
  if r.continueToken = [] then none else some r.continueToken

/-- The collection is served, from a token on, as these pages. -/
abbrev Served (serve : ListRequest → Except Thrown ListBody) (ref : ResourceRef)
    (opts : TableWalkOptions) : JStr → List ListResult → Prop :=
  Linked (fun t => listAsTable serve ref (opts.pageOptions t)) ListResult.next

/-- The rows a walk keeps of some pages. -/
def keptRows (opts : TableWalkOptions) (pages : List ListResult) : List K8sTableRow :=
  pages.flatMap fun r => r.pageRows.filter opts.keepRow

def rowCount (pages : List ListResult) : ℕ := (pages.map fun r => r.pageRows.length).sum

namespace Walk

theorem foldl_absorb (opts : TableWalkOptions) (pages : List ListResult) (w : Walk) :
    (pages.foldl (absorb opts) w).rows = w.rows ++ keptRows opts pages ∧
      (pages.foldl (absorb opts) w).scanned = w.scanned + rowCount pages ∧
      (pages.foldl (absorb opts) w).page = w.page + pages.length := by
  induction pages generalizing w with
  | nil => simp [keptRows, rowCount]
  | cons r pages ih =>
    obtain ⟨hrows, hscanned, hpage⟩ := ih (w.absorb opts r)
    refine ⟨?_, ?_, ?_⟩
    · rw [List.foldl_cons, hrows]
      simp only [absorb, keptRows, List.flatMap_cons, List.append_assoc]
    · rw [List.foldl_cons, hscanned]
      simp only [absorb, rowCount, List.map_cons, List.sum_cons]
      omega
    · rw [List.foldl_cons, hpage]
      simp only [absorb, List.length_cons]
      omega

/-- The continue token after some pages, as a token that may be missing. -/
def nextToken (w : Walk) : Option JStr := if w.cont = [] then none else some w.cont

end Walk

/-- The loop of `walkTable` is the reader of pages. -/
theorem walkPages_eq (n : ℕ) (hn : w.page + n = opts.pageLimit) :
    walkPages serve ref opts n w =
      (readPages (fun t => listAsTable serve ref (opts.pageOptions t)) ListResult.next
        (Walk.absorb opts) (Walk.full opts) n w.cont w).map Prod.fst := by
  induction n generalizing w with
  | zero => rfl
  | succ n ih =>
    unfold walkPages readPages
    cases hserve : listAsTable serve ref (opts.pageOptions w.cont) with
    | error e => rfl
    | ok r =>
      have hpage : (w.absorb opts r).page = w.page + 1 := rfl
      have hcont : (w.absorb opts r).cont = r.continueToken := rfl
      simp only [Walk.onPage, Bool.false_eq_true, if_false, ListResult.next, bind, Except.bind,
        Walk.leaves]
      by_cases hend : r.continueToken = []
      · simp [hcont, hend, Except.map]
      by_cases hfull : (w.absorb opts r).full opts = true
      · simp [hcont, hend, hfull, Except.map]
      cases n with
      | zero =>
        have hlast : opts.pageLimit ≤ (w.absorb opts r).page := by omega
        simp [hcont, hend, hfull, hlast, readPages, Except.map]
      | succ n =>
        have hmore : ¬opts.pageLimit ≤ (w.absorb opts r).page := by omega
        have hrec := @ih (w.absorb opts r) (by omega)
        rw [hcont] at hrec
        simp [hcont, hend, hfull, hmore, hrec]

/-- The token that is left after reading is the walk's. -/
theorem readPages_token {n : ℕ} {t : JStr} {w' : Walk} {u : Option JStr} (hn : 0 < n)
    (h : readPages (fun t => listAsTable serve ref (opts.pageOptions t)) ListResult.next
      (Walk.absorb opts) (Walk.full opts) n t w = .ok (w', u)) : w'.nextToken = u := by
  induction n generalizing t w with
  | zero => cases hn
  | succ n ih =>
    unfold readPages at h
    cases hserve : listAsTable serve ref (opts.pageOptions t) with
    | error e =>
      rw [hserve] at h
      cases h
    | ok r =>
      have hcont : (w.absorb opts r).nextToken = r.next := rfl
      simp only [hserve] at h
      cases hnext : r.next with
      | none =>
        simp only [hnext] at h
        cases h
        rw [hcont, hnext]
      | some v =>
        simp only [hnext] at h
        split_ifs at h with hfull
        · cases h
          rw [hcont, hnext]
        · rcases Nat.eq_zero_or_pos n with rfl | hpos
          · cases h
            rw [hcont, hnext]
          · exact ih hpos h

/-- One walk over a served collection. -/
theorem walk_spec (hmax : 1 ≤ opts.pageLimit) {t : JStr} {pages : List ListResult}
    (ht : opts.continueToken.getD [] = t) (hserved : Served serve ref opts t pages) :
    ∃ k walked, walkTable serve ref opts = .ok walked ∧ 0 < k ∧ k ≤ pages.length ∧
      k ≤ opts.pageLimit ∧
      walked.rows = keptRows opts (pages.take k) ∧
      walked.scanned = rowCount (pages.take k) ∧
      (walked.truncated = false ↔ k = pages.length) ∧
      (walked.truncated = true →
        Served serve ref opts walked.continueToken (pages.drop k)) ∧
      (k = pages.length ∨ k = opts.pageLimit ∨
        ∃ m, opts.maxRows = some m ∧ m ≤ walked.rows.length) := by
  obtain ⟨k, u, hk, hkmax, hklen, hread, hleft, hwhy⟩ := readPages_linked
    (Walk.absorb opts) (Walk.full opts) hserved hmax (Walk.start opts)
  have htoken := readPages_token hmax hread
  obtain ⟨hrows, hscanned, -⟩ := Walk.foldl_absorb opts (pages.take k) (Walk.start opts)
  have hwalk : walkTable serve ref opts =
      .ok ((pages.take k).foldl (Walk.absorb opts) (Walk.start opts)).result := by
    have hloop := @walkPages_eq serve ref opts (Walk.start opts) opts.pageLimit (Nat.zero_add _)
    rw [show (Walk.start opts).cont = t from ht, hread] at hloop
    rw [walkTable, hloop]
    rfl
  have hdone : u = none ↔ k = pages.length := by
    rw [hleft.eq_none_iff, List.drop_eq_nil_iff]
    omega
  generalize (pages.take k).foldl (Walk.absorb opts) (Walk.start opts) = walked at *
  have htrunc : walked.result.truncated = true ↔ walked.cont ≠ [] := decide_eq_true_iff
  refine ⟨k, walked.result, hwalk, hk, hklen, hkmax, hrows, ?_, ?_, fun hcut => ?_, ?_⟩
  · exact hscanned.trans (Nat.zero_add _)
  · rw [← hdone, ← htoken, ← Bool.not_eq_true, htrunc, not_not, Walk.nextToken]
    split_ifs with hc
    · exact iff_of_true hc rfl
    · exact iff_of_false hc nofun
  · rw [Walk.nextToken, if_neg (htrunc.mp hcut)] at htoken
    rw [← htoken] at hleft
    exact hleft
  · rcases hwhy with hnone | hall | hmay
    · exact .inl (hdone.mp hnone)
    · exact .inr (.inl hall)
    · obtain ⟨m, hm, hle⟩ := (Option.any_eq_true _ _).mp hmay
      exact .inr (.inr ⟨m, hm, of_decide_eq_true hle⟩)

/-- Walks that follow one another: each is started from the continue token of the one before,
until one is not truncated. -/
inductive Walks (serve : ListRequest → Except Thrown ListBody) (ref : ResourceRef)
    (opts : TableWalkOptions) : JStr → List WalkResult → Prop where
  | last {t : JStr} {walked : WalkResult} :
      walkTable serve ref { opts with continueToken := some t } = .ok walked →
      walked.truncated = false → Walks serve ref opts t [walked]
  | more {t : JStr} {walked : WalkResult} {rest : List WalkResult} :
      walkTable serve ref { opts with continueToken := some t } = .ok walked →
      walked.truncated = true → Walks serve ref opts walked.continueToken rest →
      Walks serve ref opts t (walked :: rest)

theorem keptRows_split (pages : List ListResult) (k : ℕ) :
    keptRows opts pages = keptRows opts (pages.take k) ++ keptRows opts (pages.drop k) := by
  unfold keptRows
  rw [← List.flatMap_append, List.take_append_drop]

theorem rowCount_split (pages : List ListResult) (k : ℕ) :
    rowCount pages = rowCount (pages.take k) + rowCount (pages.drop k) := by
  unfold rowCount
  rw [← List.sum_append, ← List.map_append, List.take_append_drop]

theorem walks_compose (hmax : 1 ≤ opts.pageLimit) {t : JStr} {pages : List ListResult}
    (hserved : Served serve ref opts t pages) :
    ∃ walks, Walks serve ref opts t walks ∧
      walks.flatMap (·.rows) = keptRows opts pages ∧
      (walks.map (·.scanned)).sum = rowCount pages := by
  induction hn : pages.length using Nat.strong_induction_on generalizing t pages with
  | _ n ih =>
    obtain ⟨k, walked, hwalk, hk, hklen, -, hrows, hscanned, hend, hcut, -⟩ :=
      @walk_spec serve ref { opts with continueToken := some t } hmax t pages rfl hserved
    cases htrunc : walked.truncated with
    | false =>
      have hall : pages.take k = pages := by rw [hend.mp htrunc, List.take_length]
      refine ⟨[walked], .last hwalk htrunc, ?_, ?_⟩
      · rw [List.flatMap_singleton, hrows, hall]
        rfl
      · rw [List.map_singleton, List.sum_singleton, hscanned, hall]
    | true =>
      have hshort : (pages.drop k).length < n := by
        rw [List.length_drop]
        omega
      obtain ⟨rest, hrest, hrestRows, hrestScanned⟩ := ih _ hshort (hcut htrunc) rfl
      refine ⟨walked :: rest, .more hwalk htrunc hrest, ?_, ?_⟩
      · rw [List.flatMap_cons, hrows, hrestRows, keptRows_split pages k]
        rfl
      · rw [List.map_cons, List.sum_cons, hscanned, hrestScanned, rowCount_split pages k]

/-- `listAllAsTable`: a table that is not truncated has every row of the collection. -/
theorem listAllAsTable_complete {o : ListOptions} {maxPages : Option ℕ} {pages : List ListResult}
    (hmax : 1 ≤ maxPages.getD 6)
    (hserved : Served serve ref { o with continueToken := none, maxPages } [] pages) :
    ∃ table truncated, listAllAsTable serve ref o maxPages = .ok (table, truncated) ∧
      (truncated = false → table.rows = some (pages.flatMap ListResult.pageRows)) := by
  obtain ⟨k, walked, hwalk, -, -, -, hrows, -, hend, -⟩ :=
    @walk_spec serve ref { o with continueToken := none, maxPages } hmax [] pages rfl hserved
  refine ⟨_, _, by rw [listAllAsTable, hwalk]; rfl, fun htrunc => ?_⟩
  have hkeep (r : ListResult) : r.pageRows.filter (fun _ => true) = r.pageRows := by simp
  simp only [hrows, hend.mp htrunc, List.take_length, keptRows, hkeep]

/-- Whatever the collection, the row predicate and the caps: a walk returns the kept rows of
the first pages, in order, and their row count; it is truncated exactly if pages are left,
which only a cap explains; the continue token leads to exactly these; and walks that follow
one another bring home the whole collection. -/
theorem walkTable_spec (hmax : 1 ≤ opts.pageLimit) {pages : List ListResult}
    (hserved : Served serve ref opts (opts.continueToken.getD []) pages) :
    (∃ k walked, walkTable serve ref opts = .ok walked ∧ 0 < k ∧ k ≤ pages.length ∧
      k ≤ opts.pageLimit ∧
      walked.rows = keptRows opts (pages.take k) ∧
      walked.scanned = rowCount (pages.take k) ∧
      (walked.truncated = false ↔ k = pages.length) ∧
      (walked.truncated = true →
        Served serve ref opts walked.continueToken (pages.drop k)) ∧
      (k = pages.length ∨ k = opts.pageLimit ∨
        ∃ m, opts.maxRows = some m ∧ m ≤ walked.rows.length)) ∧
    ∃ walks, Walks serve ref opts (opts.continueToken.getD []) walks ∧
      walks.flatMap (·.rows) = keptRows opts pages ∧
      (walks.map (·.scanned)).sum = rowCount pages :=
  ⟨walk_spec hmax rfl hserved, walks_compose hmax hserved⟩

/-- A row of an object of this name. -/
def namedRow (name : String) : K8sTableRow := ⟨[js name], none⟩

/-- A server of three pages. -/
def threePages (r : ListRequest) : Except Thrown ListBody :=
  let page (names : List String) (token : String) : Except Thrown ListBody :=
    .ok (.table ⟨some ⟨some (js "7"), some (js token)⟩, none, some (names.map namedRow)⟩)
  match r.params.find? fun p => p.1 = js "continue" with
  | none => page ["a", "b"] "t1"
  | some (_, token) => if token = js "t1" then page [] "t2" else page ["c"] ""

theorem walkTable_spec_threePages :
    ∃ walks, Walks threePages ⟨[], js "v1", js "pods"⟩ { maxPages := some 2 } [] walks ∧
      walks.flatMap (·.rows) = [namedRow "a", namedRow "b", namedRow "c"] ∧
      (walks.map (·.scanned)).sum = 3 := by
  have hserved : Served threePages ⟨[], js "v1", js "pods"⟩ { maxPages := some 2 } [] _ :=
    .link rfl (u := js "t1") (by decide +kernel) (.link rfl (u := js "t2") (by decide +kernel)
      (.last rfl (by decide +kernel)))
  obtain ⟨-, walks, hwalks, hrows, hscanned⟩ := walkTable_spec (by decide) hserved
  refine ⟨walks, hwalks, hrows.trans ?_, hscanned.trans ?_⟩
  · decide +kernel
  · decide +kernel

end KubeConsole.Web
