import KubeConsole.Theory.Tree

/-! Maps that keep the order in which their keys were inserted. -/
namespace KubeConsole.Theory

structure OrderedMap (κ β : Type*) where
  entries : List (κ × β)
  nodup : (entries.map Prod.fst).Nodup

namespace OrderedMap
variable {κ β : Type*}

def empty : OrderedMap κ β := ⟨[], List.nodup_nil⟩

def size (m : OrderedMap κ β) : ℕ := m.entries.length

def keys (m : OrderedMap κ β) : List κ := m.entries.map Prod.fst

def filter (m : OrderedMap κ β) (p : κ × β → Bool) : OrderedMap κ β :=
  ⟨m.entries.filter p, m.nodup.sublist (List.filter_sublist.map _)⟩

instance : Membership (κ × β) (OrderedMap κ β) := ⟨fun m p => p ∈ m.entries⟩

variable {m : OrderedMap κ β} {p q : κ × β} {k j : κ} {v w : β}

theorem mem_filter {f : κ × β → Bool} : p ∈ m.filter f ↔ p ∈ m ∧ f p = true := List.mem_filter

theorem mem_keys : k ∈ m.keys ↔ ∃ v, (k, v) ∈ m := by
  constructor
  · intro h
    obtain ⟨p, hp, rfl⟩ := List.mem_map.mp h
    exact ⟨p.2, hp⟩
  · rintro ⟨v, hv⟩
    exact List.mem_map_of_mem (f := Prod.fst) hv

theorem mem_keys_of_mem (h : p ∈ m) : p.1 ∈ m.keys := List.mem_map_of_mem h

/-- A key has one value. -/
theorem eq_of_mem (hp : p ∈ m) (hq : q ∈ m) (h : p.1 = q.1) : p = q :=
  List.inj_on_of_nodup_map m.nodup hp hq h

section
variable [DecidableEq κ]

def get? (m : OrderedMap κ β) (k : κ) : Option β := m.entries.lookup k

def erase (m : OrderedMap κ β) (k : κ) : OrderedMap κ β := m.filter fun p => p.1 ≠ k

/-- A key that is there keeps its place. -/
def setEntries (entries : List (κ × β)) (k : κ) (v : β) : List (κ × β) :=
  if k ∈ entries.map Prod.fst then entries.map fun p => if p.1 = k then (k, v) else p
  else entries ++ [(k, v)]

theorem keys_setEntries (entries : List (κ × β)) (k : κ) (v : β) :
    (setEntries entries k v).map Prod.fst =
      if k ∈ entries.map Prod.fst then entries.map Prod.fst else entries.map Prod.fst ++ [k] := by
  rw [setEntries]
  split_ifs with hk
  · rw [List.map_map]
    refine List.map_congr_left fun p _ => ?_
    rw [Function.comp_apply]
    split_ifs with hp
    · exact hp.symm
    · rfl
  · rw [List.map_append, List.map_singleton]

def set (m : OrderedMap κ β) (k : κ) (v : β) : OrderedMap κ β where
  entries := setEntries m.entries k v
  nodup := by
    rw [keys_setEntries]
    split_ifs with hk
    · exact m.nodup
    · rw [List.nodup_append]
      refine ⟨m.nodup, List.nodup_singleton k, fun a ha c hc => ?_⟩
      rintro rfl
      exact hk (List.mem_singleton.mp hc ▸ ha)

theorem get?_eq_some_iff : m.get? k = some v ↔ (k, v) ∈ m := DataTree.lookup_eq_some_iff m.nodup

theorem get?_eq_none_iff : m.get? k = none ↔ k ∉ m.keys := by
  rw [get?, List.lookup_eq_none_iff, keys, List.mem_map]
  constructor
  · rintro h ⟨p, hp, rfl⟩
    simpa using h p hp
  · intro h p hp
    have hne : k ≠ p.1 := fun heq => h ⟨p, hp, heq.symm⟩
    simpa using hne

theorem mem_erase : p ∈ m.erase k ↔ p ∈ m ∧ p.1 ≠ k := by
  rw [erase, mem_filter, decide_eq_true_iff]

theorem mem_set : p ∈ m.set k v ↔ p = (k, v) ∨ p ∈ m ∧ p.1 ≠ k := by
  change p ∈ setEntries m.entries k v ↔ p = (k, v) ∨ p ∈ m.entries ∧ p.1 ≠ k
  rw [setEntries]
  split_ifs with hk
  · rw [List.mem_map]
    constructor
    · rintro ⟨q, hq, rfl⟩
      split_ifs with hqk
      · exact .inl rfl
      · exact .inr ⟨hq, hqk⟩
    · rintro (rfl | ⟨hp, hpk⟩)
      · obtain ⟨q, hq, rfl⟩ := List.mem_map.mp hk
        exact ⟨q, hq, if_pos rfl⟩
      · exact ⟨p, hp, if_neg hpk⟩
  · rw [List.mem_append, List.mem_singleton]
    constructor
    · rintro (hp | rfl)
      · exact .inr ⟨hp, fun hpk => hk (hpk ▸ List.mem_map_of_mem hp)⟩
      · exact .inl rfl
    · rintro (rfl | ⟨hp, -⟩)
      · exact .inr rfl
      · exact .inl hp

theorem get?_set : (m.set k v).get? j = if j = k then some v else m.get? j := by
  refine Option.ext fun w => ?_
  rw [get?_eq_some_iff, mem_set]
  split_ifs with hj
  · simp [hj, eq_comm]
  · rw [get?_eq_some_iff, or_iff_right fun h => hj (congrArg Prod.fst h)]
    exact and_iff_left hj

theorem mem_keys_set : j ∈ (m.set k v).keys ↔ j = k ∨ j ∈ m.keys := by
  change j ∈ (setEntries m.entries k v).map Prod.fst ↔ j = k ∨ j ∈ m.entries.map Prod.fst
  rw [keys_setEntries]
  split_ifs with hk
  · exact (or_iff_right_of_imp fun hj => hj ▸ hk).symm
  · rw [List.mem_append, List.mem_singleton, or_comm]

/-- Of several values of a key the last is set. -/
theorem mem_foldl_set [BEq κ] [LawfulBEq κ] (xs : List (κ × β)) (m : OrderedMap κ β) :
    p ∈ xs.foldl (fun m x => m.set x.1 x.2) m ↔
      xs.reverse.lookup p.1 = some p.2 ∨ xs.reverse.lookup p.1 = none ∧ p ∈ m := by
  induction xs using List.reverseRecOn with
  | nil => simp
  | append_singleton xs x ih =>
    obtain ⟨k, v⟩ := x
    rw [List.foldl_append, List.foldl_cons, List.foldl_nil, mem_set, ih, List.reverse_append,
      List.reverse_singleton, List.singleton_append, List.lookup_cons]
    by_cases hk : p.1 = k
    · have hp : p = (k, v) ↔ v = p.2 := by
        rw [Prod.ext_iff, and_iff_right hk, eq_comm]
      simp [hk, hp]
    · have hne : (p.1 == k) = false := by simpa using hk
      have hp : p ≠ (k, v) := fun h => hk (congrArg Prod.fst h)
      simp [hne, hp, hk]

/-- New keys are appended. -/
theorem entries_foldl_set {α : Type*} (f : α → κ) (g : α → β) (xs : List α) (m : OrderedMap κ β)
    (hnodup : (xs.map f).Nodup) (hnew : ∀ x ∈ xs, f x ∉ m.keys) :
    (xs.foldl (fun m x => m.set (f x) (g x)) m).entries =
      m.entries ++ xs.map fun x => (f x, g x) := by
  induction xs generalizing m with
  | nil => rw [List.foldl_nil, List.map_nil, List.append_nil]
  | cons x xs ih =>
    obtain ⟨hx, hxs⟩ := List.nodup_cons.mp hnodup
    have hset : (m.set (f x) (g x)).entries = m.entries ++ [(f x, g x)] :=
      if_neg (hnew x List.mem_cons_self)
    rw [List.foldl_cons, ih _ hxs, hset, List.map_cons, List.append_assoc, List.singleton_append]
    intro y hy hkey
    rw [keys, hset, List.map_append, List.mem_append] at hkey
    rcases hkey with hkey | hkey
    · exact hnew y (List.mem_cons_of_mem x hy) hkey
    · rw [List.map_singleton, List.mem_singleton] at hkey
      have hyx : f y = f x := hkey
      exact hx (hyx ▸ List.mem_map_of_mem hy)

/-- Without the value of a key there is one entry less. -/
theorem size_erase (h : k ∈ m.keys) : (m.erase k).size + 1 = m.size := by
  have hperm := List.filter_append_perm (fun p : κ × β => decide (p.1 ≠ k)) m.entries
  have hone : (m.entries.filter fun p => !decide (p.1 ≠ k)).length = 1 := by
    have hcount := List.count_eq_one_of_mem m.nodup h
    rw [List.count_eq_countP, List.countP_map, List.countP_eq_length_filter] at hcount
    rw [← hcount]
    congr 1
    refine List.filter_congr fun p _ => ?_
    simp [beq_eq_decide]
  have hlen := hperm.length_eq
  rw [List.length_append, hone] at hlen
  exact hlen

end
end OrderedMap

/-- The first list that has a key has its value. -/
theorem lookup_flatMap {α κ β : Type*} [BEq κ] (f : α → List (κ × β)) (xs : List α) (k : κ) :
    (xs.flatMap f).lookup k = xs.findSome? fun x => (f x).lookup k := by
  induction xs with
  | nil => rfl
  | cons x xs ih =>
    rw [List.flatMap_cons, List.lookup_append, ih, List.findSome?_cons]
    cases (f x).lookup k <;> rfl

end KubeConsole.Theory
