import KubeConsole.Go.Strings
import KubeConsole.Theory.Lexical

/-! `path.Clean` of a path that starts with a slash. -/
namespace KubeConsole.Go
open KubeConsole.Theory

/-- An element that `Clean` drops: an empty one, from a slash next to a slash, or a dot. -/
def emptyOrDot (e : Str) : Bool := e = [] || e = str "."

def dotDot (e : Str) : Bool := e = str ".."

/-- The elements of a rooted path that are left of it. -/
def cleanElements (path : Str) : List Str :=
  Lexical.resolve emptyOrDot dotDot (path.splitOn (chr '/'))

/-- `path.Clean`, for a rooted path. -/
def cleanRooted (path : Str) : Str := chr '/' :: [chr '/'].intercalate (cleanElements path)

/-- What an element of a cleaned path looks like. -/
structure Element (e : Str) : Prop where
  nonempty : e ≠ []
  notDot : e ≠ str "."
  notDotDot : e ≠ str ".."
  noSlash : chr '/' ∉ e

/-- A segment is made of what is between the separators. -/
theorem mem_of_mem_splitOn {x b : UInt8} {s e : Str} (he : e ∈ s.splitOn x) (hb : b ∈ e) :
    b ∈ s ∧ b ≠ x := by
  induction s generalizing e with
  | nil =>
    rw [List.splitOn_nil, List.mem_singleton] at he
    simp [he] at hb
  | cons c s ih =>
    obtain ⟨first, others, hl⟩ := List.exists_cons_of_ne_nil (List.splitOn_ne_nil x s)
    have hlater {e : Str} (he : e ∈ first :: others) (hb : b ∈ e) : b ∈ c :: s ∧ b ≠ x :=
      (ih (hl ▸ he) hb).imp_left (List.mem_cons_of_mem _)
    rw [List.splitOn_cons_eq_if_modifyHead, hl] at he
    split_ifs at he with hc
    · rcases List.mem_cons.mp he with rfl | he
      · exact absurd hb List.not_mem_nil
      · exact hlater he hb
    · rw [List.modifyHead_cons] at he
      rcases List.mem_cons.mp he with rfl | he
      · rcases List.mem_cons.mp hb with rfl | hb
        · exact ⟨List.mem_cons_self, by simpa using hc⟩
        · exact hlater List.mem_cons_self hb
      · exact hlater (List.mem_cons_of_mem _ he) hb

theorem element_of_mem {path e : Str} (he : e ∈ cleanElements path) : Element e := by
  obtain ⟨hmem, hskip, hup⟩ := Lexical.mem_resolve he
  simp only [emptyOrDot, Bool.or_eq_false_iff, decide_eq_false_iff_not] at hskip
  exact ⟨hskip.1, hskip.2, of_decide_eq_false hup,
    fun hb => (mem_of_mem_splitOn hmem hb).2 rfl⟩

theorem Element.plain {e : Str} (h : Element e) : Lexical.Plain emptyOrDot dotDot e := by
  simp [Lexical.Plain, emptyOrDot, dotDot, h.nonempty, h.notDot, h.notDotDot]

/-- A slash in front makes no difference. -/
theorem cleanElements_cons (path : Str) : cleanElements (chr '/' :: path) = cleanElements path := by
  have hsplit : (chr '/' :: path).splitOn (chr '/') = [] :: path.splitOn (chr '/') :=
    List.splitOn_append_cons_self [] _
  rw [cleanElements, hsplit, ← List.nil_append ([] :: _), Lexical.resolve_skip rfl, List.nil_append,
    ← cleanElements]

/-- The elements of a path that has only proper ones are those it is made of. -/
theorem cleanElements_intercalate {segs : List Str} (h : ∀ e ∈ segs, Element e) :
    cleanElements (chr '/' :: [chr '/'].intercalate segs) = segs := by
  rw [cleanElements_cons, cleanElements]
  by_cases hne : segs = []
  · rw [hne]
    rfl
  · rw [List.splitOn_intercalate (chr '/') (fun e he => (h e he).noSlash) hne]
    exact Lexical.resolve_plain fun e he => (h e he).plain

/-- A cleaned path is cleaned to itself. -/
theorem cleanElements_cleanRooted (path : Str) :
    cleanElements (cleanRooted path) = cleanElements path :=
  cleanElements_intercalate fun _ he => element_of_mem he

theorem cleanRooted_cleanRooted (path : Str) : cleanRooted (cleanRooted path) = cleanRooted path := by
  rw [cleanRooted, cleanElements_cleanRooted, ← cleanRooted]

example : cleanRooted (str "//k8s/../api/./ui/") = str "/api/ui" := by decide +kernel

end KubeConsole.Go
