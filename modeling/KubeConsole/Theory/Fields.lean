import KubeConsole.Theory.Scanner

/-!
Records as text: fields joined by a separator, each a name and a value joined by another, both
escaped. A reader skips the fields it cannot read.
-/
namespace KubeConsole.Theory

/-- The part before the first `x` and the part after it. -/
def cut {α : Type*} [DecidableEq α] (x : α) (s : List α) : List α × List α :=
  (s.takeWhile (· ≠ x), (s.dropWhile (· ≠ x)).drop 1)

/-- What is joined is made of the separator and the parts. -/
theorem mem_intercalate {α : Type*} {x b : α} {parts : List (List α)}
    (hb : b ∈ [x].intercalate parts) : b = x ∨ ∃ p ∈ parts, b ∈ p := by
  induction parts with
  | nil => simp at hb
  | cons p parts ih =>
    cases parts with
    | nil => exact .inr ⟨p, List.mem_cons_self, by simpa using hb⟩
    | cons q parts =>
      rw [List.intercalate_cons_cons, List.append_assoc, List.mem_append, List.mem_append,
        List.mem_singleton] at hb
      rcases hb with hb | hb | hb
      · exact .inr ⟨p, List.mem_cons_self, hb⟩
      · exact .inl hb
      · exact (ih hb).imp_right fun ⟨r, hr, hb⟩ => ⟨r, List.mem_cons_of_mem _ hr, hb⟩

/-- How fields are joined and escaped, and which parts a reader passes over. -/
structure FieldFormat (α β : Type*) where
  sep : α
  assign : α
  escape : β → List α
  unescape : List α → Option β
  skips : List α → Bool

namespace FieldFormat
variable {α β : Type*} [DecidableEq α] (f : FieldFormat α β)

def writeField (p : β × β) : List α := f.escape p.1 ++ f.assign :: f.escape p.2

def write (ps : List (β × β)) : List α := [f.sep].intercalate (ps.map f.writeField)

def readField (part : List α) : Option (β × β) :=
  if f.skips part then none
  else (f.unescape (cut f.assign part).1).bind fun k =>
    (f.unescape (cut f.assign part).2).map fun v => (k, v)

def read (s : List α) : List (β × β) := (s.splitOn f.sep).filterMap f.readField

/-- Escaping is undone and hides both separators; an empty part is passed over, a written
field is not. -/
structure Lawful : Prop where
  unescape_escape : ∀ b, f.unescape (f.escape b) = some b
  sep_notMem : ∀ b, f.sep ∉ f.escape b
  assign_notMem : ∀ b, f.assign ∉ f.escape b
  sep_ne_assign : f.sep ≠ f.assign
  skips_nil : f.skips [] = true
  skips_field : ∀ p, f.skips (f.writeField p) = false

theorem cut_append {x : α} {s : List α} (h : x ∉ s) (t : List α) : cut x (s ++ x :: t) = (s, t) := by
  have hs : ∀ c ∈ s, decide (c ≠ x) = true := by
    intro c hc
    exact decide_eq_true (ne_of_mem_of_not_mem hc h)
  obtain ⟨htake, hdrop⟩ := takeWhile_stop (r := x :: t) hs (by simp)
  rw [cut, htake, hdrop, List.drop_one, List.tail_cons]

theorem count_intercalate (x : α) (parts : List (List α)) (h : ∀ p ∈ parts, x ∉ p) :
    ([x].intercalate parts).count x = parts.length - 1 := by
  induction parts with
  | nil => rfl
  | cons p parts ih =>
    obtain ⟨hp, hrest⟩ := List.forall_mem_cons.mp h
    have hcount := List.count_eq_zero_of_not_mem hp
    cases parts with
    | nil => simpa using hcount
    | cons q parts =>
      have hrec := ih hrest
      rw [List.intercalate_cons_cons, List.count_append, List.count_append, hrec, hcount]
      simp
      omega

variable {f}

theorem Lawful.readField_writeField (h : f.Lawful) (p : β × β) :
    f.readField (f.writeField p) = some p := by
  have hcut : cut f.assign (f.writeField p) = (f.escape p.1, f.escape p.2) :=
    cut_append (h.assign_notMem p.1) _
  simp [readField, h.skips_field, hcut, h.unescape_escape]

omit [DecidableEq α] in
theorem Lawful.sep_notMem_field (h : f.Lawful) (p : β × β) : f.sep ∉ f.writeField p := by
  simp [writeField, h.sep_notMem, h.sep_ne_assign]

/-- What is written is read back, field by field. -/
theorem Lawful.read_write (h : f.Lawful) (ps : List (β × β)) : f.read (f.write ps) = ps := by
  cases ps with
  | nil => simp [read, write, readField, h.skips_nil]
  | cons p ps =>
    have hparts : ∀ part ∈ (p :: ps).map f.writeField, f.sep ∉ part := by
      intro part hpart
      obtain ⟨q, -, rfl⟩ := List.mem_map.mp hpart
      exact h.sep_notMem_field q
    have hread (q : β × β) : (f.readField ∘ f.writeField) q = some q := h.readField_writeField q
    rw [read, write, List.splitOn_intercalate f.sep hparts (by simp), List.filterMap_map,
      List.filterMap_congr fun q _ => hread q, List.filterMap_some]

/-- The written text has one separator less than there are fields. -/
theorem Lawful.count_write (h : f.Lawful) (ps : List (β × β)) :
    (f.write ps).count f.sep = ps.length - 1 := by
  have hparts : ∀ part ∈ ps.map f.writeField, f.sep ∉ part := by
    intro part hpart
    obtain ⟨q, -, rfl⟩ := List.mem_map.mp hpart
    exact h.sep_notMem_field q
  simpa [write] using count_intercalate f.sep _ hparts

/-- A reader finds no more fields than there are parts. -/
theorem length_read_le (s : List α) : (f.read s).length ≤ (s.splitOn f.sep).length :=
  List.length_filterMap_le _ _

end FieldFormat
end KubeConsole.Theory
