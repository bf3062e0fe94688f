import Mathlib

/-!
Lists in which each value has a key, and the map of positions that is kept beside such a list.

With distinct keys a list is a finite map. Replacing the value of a key where it stands, or
appending it, updates this map, and so does a filter by key.
-/
namespace KubeConsole.Theory
namespace Keyed
variable {α κ : Type*} [DecidableEq κ] (key : α → κ)

/-- The value of a key. -/
def lookup (xs : List α) (k : κ) : Option α := xs.find? fun x => key x = k

/-- The position of each key, the last where there are several. -/
def positions (xs : List α) : κ → Option ℕ :=
  xs.zipIdx.foldl (fun pos x => Function.update pos (key x.1) (some x.2)) fun _ => none

/-- Replace the value of a key, or append it. -/
def upsert (s : List α × (κ → Option ℕ)) (x : α) : List α × (κ → Option ℕ) :=
  match s.2 (key x) with
  | some i => (s.1.set i x, s.2)
  | none => (s.1 ++ [x], Function.update s.2 (key x) (some s.1.length))

/-- The keys are distinct, and the map has their positions and nothing else. -/
structure Indexed (s : List α × (κ → Option ℕ)) : Prop where
  nodup : (s.1.map key).Nodup
  pos_iff : ∀ k i, s.2 k = some i ↔ (s.1.map key)[i]? = some k

variable {key} {xs : List α} {x : α} {k : κ} {s : List α × (κ → Option ℕ)}

theorem lookup_eq_some_iff (h : (xs.map key).Nodup) :
    lookup key xs k = some x ↔ x ∈ xs ∧ key x = k := by
  induction xs with
  | nil => simp [lookup]
  | cons y xs ih =>
    obtain ⟨hy, hxs⟩ := List.nodup_cons.mp h
    have hih := ih hxs
    unfold lookup at hih ⊢
    rw [List.find?_cons]
    by_cases hk : key y = k
    · have hne (hx : x ∈ xs) : key x ≠ k := fun hxk =>
        hy (hk.trans hxk.symm ▸ List.mem_map_of_mem hx)
      simp only [hk, decide_true, List.mem_cons]
      constructor
      · intro heq
        cases heq
        exact ⟨.inl rfl, hk⟩
      · rintro ⟨rfl | hx, hxk⟩
        · rfl
        · exact absurd hxk (hne hx)
    · simp only [hk, decide_false, hih, List.mem_cons]
      constructor
      · exact fun ⟨hx, hxk⟩ => ⟨.inr hx, hxk⟩
      · rintro ⟨rfl | hx, hxk⟩
        · exact absurd hxk hk
        · exact ⟨hx, hxk⟩

theorem positions_concat (xs : List α) (x : α) :
    positions key (xs ++ [x]) = Function.update (positions key xs) (key x) (some xs.length) := by
  simp [positions, List.zipIdx_append]

namespace Indexed

omit [DecidableEq κ] in
theorem pos_eq_none_iff (h : Indexed key s) : s.2 k = none ↔ k ∉ s.1.map key := by
  constructor
  · intro hnone hmem
    obtain ⟨i, hi⟩ := List.getElem?_of_mem hmem
    rw [(h.pos_iff k i).mpr hi] at hnone
    cases hnone
  · intro hnot
    cases hpos : s.2 k with
    | none => rfl
    | some i => exact absurd (List.mem_of_getElem? ((h.pos_iff k i).mp hpos)) hnot

omit [DecidableEq κ] in
/-- A replaced value leaves the keys. -/
theorem map_set (h : Indexed key s) {i : ℕ} (hpos : s.2 (key x) = some i) :
    (s.1.set i x).map key = s.1.map key := by
  rw [List.map_set]
  obtain ⟨hi, hkey⟩ := List.getElem?_eq_some_iff.mp ((h.pos_iff _ _).mp hpos)
  rw [← hkey]
  exact List.set_getElem_self hi

theorem append (h : Indexed key s) (hx : key x ∉ s.1.map key) :
    Indexed key (s.1 ++ [x], Function.update s.2 (key x) (some s.1.length)) := by
  constructor
  · rw [List.map_append, List.nodup_append]
    refine ⟨h.nodup, List.nodup_singleton _, fun a ha c hc => ?_⟩
    rw [List.map_cons, List.map_nil, List.mem_singleton] at hc
    rintro rfl
    exact hx (hc ▸ ha)
  · intro k i
    simp only [List.map_append, List.getElem?_append, List.length_map]
    have hlast (hi : ¬ i < s.1.length) (hget : (([x] : List α).map key)[i - s.1.length]? = some k) :
        i = s.1.length ∧ k = key x := by
      obtain ⟨hlt, hkey⟩ := List.getElem?_eq_some_iff.mp hget
      simp only [List.map_cons, List.map_nil, List.length_cons, List.length_nil,
        List.getElem_singleton] at hlt hkey
      exact ⟨by omega, hkey.symm⟩
    by_cases hk : k = key x
    · subst hk
      rw [Function.update_self, Option.some_inj]
      constructor
      · rintro rfl
        simp
      · intro hget
        split_ifs at hget with hi
        · exact absurd (List.mem_of_getElem? hget) hx
        · exact (hlast hi hget).1.symm
    · rw [Function.update_of_ne hk, h.pos_iff]
      constructor
      · intro hget
        have hlt := (List.getElem?_eq_some_iff.mp hget).1
        rw [List.length_map] at hlt
        rwa [if_pos hlt]
      · intro hget
        split_ifs at hget with hi
        · exact hget
        · exact absurd (hlast hi hget).2 hk

end Indexed

theorem indexed_positions (h : (xs.map key).Nodup) : Indexed key (xs, positions key xs) := by
  induction xs using List.reverseRecOn with
  | nil => exact ⟨List.nodup_nil, by simp [positions]⟩
  | append_singleton xs x ih =>
    rw [List.map_append, List.nodup_append] at h
    rw [positions_concat]
    exact (ih h.1).append fun hmem => h.2.2 _ hmem (key x) (by simp) rfl

theorem Indexed.upsert (h : Indexed key s) (x : α) : Indexed key (upsert key s x) := by
  unfold Keyed.upsert
  cases hpos : s.2 (key x) with
  | some i => exact ⟨h.map_set hpos ▸ h.nodup, h.map_set hpos ▸ h.pos_iff⟩
  | none => exact h.append (h.pos_eq_none_iff.mp hpos)

theorem Indexed.mem_upsert_iff (h : Indexed key s) {x y : α} :
    y ∈ (Keyed.upsert key s x).1 ↔ y = x ∨ y ∈ s.1 ∧ key y ≠ key x := by
  unfold Keyed.upsert
  cases hpos : s.2 (key x) with
  | some i =>
    obtain ⟨hi, hkey⟩ := List.getElem?_eq_some_iff.mp ((h.pos_iff _ _).mp hpos)
    rw [List.length_map] at hi
    rw [List.getElem_map] at hkey
    constructor
    · intro hy
      obtain ⟨j, hj, rfl⟩ := List.getElem_of_mem hy
      rw [List.length_set] at hj
      rw [List.getElem_set]
      split_ifs with hij
      · exact .inl rfl
      · refine .inr ⟨List.getElem_mem hj, fun hkeys => hij ?_⟩
        have hget : (s.1.map key)[j]? = some (key x) := by
          rw [List.getElem?_map, List.getElem?_eq_getElem hj, Option.map_some, hkeys]
        exact Option.some.inj (hpos.symm.trans ((h.pos_iff (key x) j).mpr hget))
    · rintro (rfl | ⟨hy, hne⟩)
      · exact List.mem_set hi y
      · obtain ⟨j, hj, rfl⟩ := List.getElem_of_mem hy
        have hij : i ≠ j := by
          rintro rfl
          exact hne hkey
        rw [← List.getElem_set_ne hij (by simpa using hj)]
        exact List.getElem_mem _
  | none =>
    have hnot := h.pos_eq_none_iff.mp hpos
    rw [List.mem_append, List.mem_singleton]
    constructor
    · rintro (hy | rfl)
      · exact .inr ⟨hy, fun hkeys => hnot (hkeys ▸ List.mem_map_of_mem hy)⟩
      · exact .inl rfl
    · exact fun hy => hy.elim .inr fun hy => .inl hy.1

/-- An upsert updates the finite map. -/
theorem Indexed.lookup_upsert (h : Indexed key s) (x : α) :
    lookup key (Keyed.upsert key s x).1 = Function.update (lookup key s.1) (key x) (some x) := by
  funext k
  refine Option.ext fun y => ?_
  rw [lookup_eq_some_iff (h.upsert x).nodup, h.mem_upsert_iff]
  by_cases hk : k = key x
  · subst hk
    rw [Function.update_self, Option.some_inj]
    constructor
    · rintro ⟨rfl | ⟨-, hne⟩, hkey⟩
      · rfl
      · exact absurd hkey hne
    · rintro rfl
      exact ⟨.inl rfl, rfl⟩
  · rw [Function.update_of_ne hk, lookup_eq_some_iff h.nodup]
    constructor
    · rintro ⟨rfl | ⟨hy, -⟩, rfl⟩
      · exact absurd rfl hk
      · exact ⟨hy, rfl⟩
    · rintro ⟨hy, rfl⟩
      exact ⟨.inr ⟨hy, hk⟩, rfl⟩

variable (key) in
/-- A filter by key restricts the finite map. -/
theorem lookup_filter (p : κ → Prop) [DecidablePred p] (xs : List α) (k : κ) :
    lookup key (xs.filter fun x => p (key x)) k = if p k then lookup key xs k else none := by
  induction xs with
  | nil => simp [lookup]
  | cons x xs ih =>
    unfold lookup at ih ⊢
    rw [List.filter_cons]
    by_cases hk : key x = k
    · subst hk
      split_ifs with hp hp' hp'
      · simp
      · exact absurd (of_decide_eq_true hp) hp'
      · exact absurd (decide_eq_true hp') hp
      · rw [ih, if_neg hp']
    · have hskip (ys : List α) : (x :: ys).find? (fun y => key y = k) = ys.find? fun y => key y = k :=
        List.find?_cons_of_neg (by simpa using hk)
      rw [hskip]
      split_ifs at ih ⊢ <;> first | rw [hskip, ih] | rw [ih]

omit [DecidableEq κ] in
theorem nodup_filter (h : (xs.map key).Nodup) (p : α → Bool) : ((xs.filter p).map key).Nodup :=
  h.sublist (List.filter_sublist.map key)

/-! ## Changes -/

/-- A value is put, or some keys are dropped. -/
inductive Change (α κ : Type*) where
  | put (x : α)
  | drop (ks : List κ)

variable (key) in
/-- The keys that a change is about. -/
def Change.Touches : Change α κ → κ → Prop
  | .put x, k => key x = k
  | .drop ks, k => k ∈ ks

def Change.Drops : Change α κ → κ → Prop
  | .put _, _ => False
  | .drop ks, k => k ∈ ks

instance : ∀ (c : Change α κ) (k : κ), Decidable (c.Touches key k)
  | .put x, k => inferInstanceAs (Decidable (key x = k))
  | .drop ks, k => inferInstanceAs (Decidable (k ∈ ks))

instance : ∀ (c : Change α κ) (k : κ), Decidable (c.Drops k)
  | .put _, _ => inferInstanceAs (Decidable False)
  | .drop ks, k => inferInstanceAs (Decidable (k ∈ ks))

variable (key) in
/-- A put keeps the map of positions, a drop makes it anew. -/
def change (s : List α × (κ → Option ℕ)) : Change α κ → List α × (κ → Option ℕ)
  | .put x => upsert key s x
  | .drop ks =>
    let xs := s.1.filter fun x => key x ∉ ks
    (xs, positions key xs)

variable {c : Change α κ}

theorem Indexed.change (h : Indexed key s) (c : Change α κ) : Indexed key (change key s c) := by
  cases c with
  | put x => exact h.upsert x
  | drop ks => exact indexed_positions (nodup_filter h.nodup _)

theorem Indexed.changes (h : Indexed key s) (cs : List (Change α κ)) :
    Indexed key (cs.foldl (Keyed.change key) s) := by
  induction cs generalizing s with
  | nil => exact h
  | cons c cs ih => exact ih (h.change c)

/-- The map of positions is determined by the list. -/
theorem Indexed.eq_positions (h : Indexed key s) : s.2 = positions key s.1 := by
  funext k
  refine Option.ext fun i => ?_
  rw [h.pos_iff, ← (indexed_positions h.nodup).pos_iff]

theorem Indexed.change_drop_nil (h : Indexed key s) : Keyed.change key s (.drop []) = s := by
  have hall : s.1.filter (fun x => key x ∉ ([] : List κ)) = s.1 := by simp
  change (s.1.filter _, positions key (s.1.filter _)) = s
  rw [hall, ← h.eq_positions]

theorem Indexed.mem_change_iff (h : Indexed key s) :
    x ∈ (Keyed.change key s c).1 ↔ c = .put x ∨ x ∈ s.1 ∧ ¬ c.Touches key (key x) := by
  cases c with
  | put y =>
    rw [Keyed.change, h.mem_upsert_iff, Change.put.injEq, eq_comm, ne_comm]
    rfl
  | drop ks =>
    simp only [Keyed.change, List.mem_filter, decide_eq_true_eq, reduceCtorEq, false_or]
    rfl

/-- What is there after some changes: what was put last, or was there and is untouched. -/
theorem Indexed.mem_changes_iff (h : Indexed key s) (cs : List (Change α κ)) (x : α) :
    x ∈ (cs.foldl (Keyed.change key) s).1 ↔
      (∃ before after, cs = before ++ .put x :: after ∧ ∀ c ∈ after, ¬ c.Touches key (key x)) ∨
        x ∈ s.1 ∧ ∀ c ∈ cs, ¬ c.Touches key (key x) := by
  induction cs using List.reverseRecOn with
  | nil => simp
  | append_singleton cs c ih =>
    rw [List.foldl_concat, (h.changes cs).mem_change_iff, ih]
    constructor
    · rintro (rfl | ⟨⟨before, after, rfl, hafter⟩ | ⟨hx, hcs⟩, hc⟩)
      · exact .inl ⟨cs, [], rfl, by simp⟩
      · refine .inl ⟨before, after ++ [c], by simp, fun d hd => ?_⟩
        rcases List.mem_append.mp hd with hd | hd
        · exact hafter d hd
        · exact List.mem_singleton.mp hd ▸ hc
      · refine .inr ⟨hx, fun d hd => ?_⟩
        rcases List.mem_append.mp hd with hd | hd
        · exact hcs d hd
        · exact List.mem_singleton.mp hd ▸ hc
    · rintro (⟨before, after, heq, hafter⟩ | ⟨hx, hcs⟩)
      · cases after using List.reverseRecOn with
        | nil =>
          obtain ⟨-, hc⟩ := List.append_inj' heq rfl
          exact .inl (by simpa using hc)
        | append_singleton after d =>
          rw [← List.cons_append, ← List.append_assoc] at heq
          obtain ⟨rfl, hd⟩ := List.append_inj' heq rfl
          obtain rfl : c = d := by simpa using hd
          exact .inr ⟨.inl ⟨before, after, rfl, fun e he => hafter e (by simp [he])⟩,
            hafter c (by simp)⟩
      · exact .inr ⟨.inr ⟨hx, fun d hd => hcs d (by simp [hd])⟩, hcs c (by simp)⟩

theorem Indexed.keys_upsert (h : Indexed key s) (x : α) :
    ∃ new, (Keyed.upsert key s x).1.map key = s.1.map key ++ new := by
  unfold Keyed.upsert
  cases hpos : s.2 (key x) with
  | some i => exact ⟨[], by rw [h.map_set hpos, List.append_nil]⟩
  | none => exact ⟨[key x], by rw [List.map_append, List.map_singleton]⟩

theorem Indexed.keys_change (h : Indexed key s) (c : Change α κ) :
    ∃ new, (Keyed.change key s c).1.map key = (s.1.map key).filter (fun k => ¬ c.Drops k) ++ new := by
  cases c with
  | put x =>
    obtain ⟨new, hnew⟩ := h.keys_upsert x
    refine ⟨new, hnew.trans ?_⟩
    congr 1
    exact (List.filter_eq_self.mpr fun k _ => decide_eq_true id).symm
  | drop ks =>
    refine ⟨[], ?_⟩
    rw [List.append_nil, List.filter_map]
    rfl

/-- Over some changes the keys that none drops keep their order, and the new ones are behind
them. -/
theorem Indexed.keys_changes (h : Indexed key s) (cs : List (Change α κ)) :
    ∃ new, (cs.foldl (Keyed.change key) s).1.map key =
      (s.1.map key).filter (fun k => ∀ c ∈ cs, ¬ c.Drops k) ++ new := by
  induction cs using List.reverseRecOn with
  | nil => exact ⟨[], by simp⟩
  | append_singleton cs c ih =>
    obtain ⟨new, hnew⟩ := ih
    obtain ⟨last, hlast⟩ := (h.changes cs).keys_change c
    refine ⟨new.filter (fun k => ¬ c.Drops k) ++ last, ?_⟩
    rw [List.foldl_concat, hlast, hnew, List.filter_append, List.filter_filter, List.append_assoc]
    congr 1
    refine List.filter_congr fun k _ => ?_
    simp [or_imp, forall_and, and_comm]

/-- The buckets of the keys have each value once. -/
theorem perm_flatMap_filter {ks : List κ} (hks : ks.Nodup) (h : ∀ x ∈ xs, key x ∈ ks) :
    (ks.flatMap fun k => xs.filter fun x => key x = k).Perm xs := by
  induction ks generalizing xs with
  | nil =>
    have hxs : xs = [] := List.eq_nil_iff_forall_not_mem.mpr fun x hx => List.not_mem_nil (h x hx)
    rw [hxs, List.flatMap_nil]
  | cons k ks ih =>
    obtain ⟨hk, hks⟩ := List.nodup_cons.mp hks
    have hrest : (ks.flatMap fun k => xs.filter fun x => key x = k).Perm
        (xs.filter fun x => !decide (key x = k)) := by
      have hperm := @ih (xs.filter fun x => !decide (key x = k)) hks fun x hx => ?_
      · refine List.Perm.trans (List.Perm.of_eq ?_) hperm
        refine List.flatMap_congr fun k' hk' => ?_
        rw [List.filter_filter]
        refine List.filter_congr fun x _ => ?_
        by_cases hx : key x = k'
        · have hne : k' ≠ k := fun heq => hk (heq ▸ hk')
          simp [hx, hne]
        · simp [hx]
      · obtain ⟨hx, hne⟩ := List.mem_filter.mp hx
        exact (List.mem_cons.mp (h x hx)).resolve_left (by simpa using hne)
    rw [List.flatMap_cons]
    exact (hrest.append_left _).trans (List.filter_append_perm _ xs)

/-- Among the buckets of some keys a bucket is what it was. -/
theorem filter_flatMap_filter {ks : List κ} (hks : ks.Nodup) (k : κ) :
    ((ks.flatMap fun k' => xs.filter fun x => key x = k').filter fun x => key x = k) =
      if k ∈ ks then xs.filter fun x => key x = k else [] := by
  induction ks with
  | nil => simp
  | cons k' ks ih =>
    obtain ⟨hk', hks⟩ := List.nodup_cons.mp hks
    rw [List.flatMap_cons, List.filter_append, ih hks, List.filter_filter]
    by_cases hk : k = k'
    · subst hk
      simp [hk']
    · have hnone : (xs.filter fun x => decide (key x = k) && decide (key x = k')) = [] := by
        rw [List.filter_eq_nil_iff]
        rintro x - hx
        obtain ⟨h1, h2⟩ := Bool.and_eq_true_iff.mp hx
        exact hk ((of_decide_eq_true h1).symm.trans (of_decide_eq_true h2))
      simp [hnone, hk]

end Keyed
end KubeConsole.Theory
