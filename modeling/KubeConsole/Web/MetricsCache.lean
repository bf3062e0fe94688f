import KubeConsole.Exec.Protocol
import KubeConsole.Theory.OrderedMap
import KubeConsole.Theory.Transition
import KubeConsole.Web.RingBuffer

/-!
The buffers of the charts, kept while their charts are not shown (`metricsCache.ts`).

A chart goes on writing to its buffer when the cache has let go of it: the buffers are numbered,
and the cache has their numbers. Times are rationals.
-/
namespace KubeConsole.Web.MetricsCache
open KubeConsole.Theory

def TTL_MS : ℚ := 60 * 60 * 1000

def MAX_SCOPES : ℕ := 64

/-- The cache, the buffers that were made, how many, and `Date.now()`. -/
structure State (V : Type*) where
  cache : OrderedMap JStr ℕ
  buffers : ℕ → MultiSeriesRingBuffer V
  made : ℕ
  now : ℚ

variable {V : Type*}

namespace State

def last (s : State V) (id : ℕ) : Option ℚ := (s.buffers id).lastTimestamp

/-- The newest sample is older than `TTL_MS`. -/
def stale (s : State V) (id : ℕ) : Bool := (s.last id).any fun last => TTL_MS < s.now - last

/-- A new buffer under a key. -/
def fresh (s : State V) (key : JStr) : State V × ℕ :=
  ({ s with
      cache := s.cache.set key s.made
      buffers := Function.update s.buffers s.made .empty
      made := s.made + 1 }, s.made)

def bind (s : State V) (key : JStr) : State V × ℕ :=
  match s.cache.get? key with
  | some existing =>
    if s.stale existing then s.fresh key
    else ({ s with cache := (s.cache.erase key).set key existing }, existing)
  | none => s.fresh key

def bindAll (s : State V) : List JStr → State V × List ℕ
  | [] => (s, [])
  | key :: keys =>
    let bound := s.bind key
    let rest := bindAll bound.1 keys
    (rest.1, bound.2 :: rest.2)

end State

/-- The first loop of `evict`. -/
def State.sweep (s : State V) : State V := { s with cache := s.cache.filter fun p => !s.stale p.2 }

/-- The entry to evict: `best` is the victim so far with its newest sample. -/
def victimFrom (last : ℕ → Option ℚ) (protect : List JStr) :
    List (JStr × ℕ) → Option (JStr × ℚ) → Option JStr
  | [], best => best.map Prod.fst
  | (key, id) :: rest, best =>
    if key ∈ protect then victimFrom last protect rest best
    else match last id with
    | none => some key
    | some t =>
      if best.all fun b => t < b.2 then victimFrom last protect rest (some (key, t))
      else victimFrom last protect rest best

/-- The second loop of `evict`, at most so many times. -/
def trim (last : ℕ → Option ℚ) (protect : List JStr) : ℕ → OrderedMap JStr ℕ → OrderedMap JStr ℕ
  | 0, m => m
  | n + 1, m =>
    if MAX_SCOPES < m.size then
      match victimFrom last protect m.entries none with
      | none => m
      | some victim => trim last protect n (m.erase victim)
    else m

namespace State

def evict (s : State V) (protect : List JStr) : State V :=
  let swept := s.sweep
  { swept with cache := trim swept.last protect swept.cache.size swept.cache }

def getMetricsBuffers (s : State V) (keys : List JStr) : State V × List ℕ :=
  let bound := s.bindAll keys
  (bound.1.evict keys, bound.2)

end State

def clearContext {β : Type*} (context : JStr) (cache : OrderedMap JStr β) : OrderedMap JStr β :=
  cache.filter fun p => !(context ++ js ":").isPrefixOf p.1

def State.clearMetricsCacheContext (s : State V) (context : JStr) : State V :=
  { s with cache := clearContext context s.cache }

/-! ## Runs -/

inductive Action (V : Type*) where
  | get (keys : List JStr)
  | push (id : ℕ) (timestampMs : ℚ) (values : List (JStr × V))
  | clear (context : JStr)
  | advance (ms : ℚ)

/-- A buffer is pushed to once it was returned. -/
def step (s : State V) : Action V → Option (State V)
  | .get keys => some (s.getMetricsBuffers keys).1
  | .push id timestampMs values =>
    if id < s.made then
      some { s with
        buffers := Function.update s.buffers id ((s.buffers id).push timestampMs values).1 }
    else none
  | .clear context => some (s.clearMetricsCacheContext context)
  | .advance ms => some { s with now := s.now + ms }

def machine : Machine (State V) (Action V) where
  init s := s.cache = .empty ∧ s.made = 0
  step := step

/-! ## Binding -/

/-- The buffers in the cache were made. -/
def Numbered (s : State V) : Prop := ∀ p ∈ s.cache, p.2 < s.made

/-- What binding a key does: the key has a buffer that is not stale, its own if that was not. -/
structure Bound (s : State V) (key : JStr) (t : State V) (id : ℕ) : Prop where
  now_eq : t.now = s.now
  numbered : Numbered t
  made_le : s.made ≤ t.made
  old : ∀ j, j < s.made → t.buffers j = s.buffers j
  found : (key, id) ∈ t.cache
  recent : t.stale id = false
  others : ∀ p, p.1 ≠ key → (p ∈ t.cache ↔ p ∈ s.cache)
  same : ∀ j, (key, j) ∈ s.cache → s.stale j = false → j = id

variable {s t : State V} {key : JStr} {id : ℕ}

theorem stale_congr (hnow : t.now = s.now) (hbuffers : t.buffers id = s.buffers id) :
    t.stale id = s.stale id := by
  rw [State.stale, State.stale, State.last, State.last, hnow, hbuffers]

theorem bound_fresh (hs : Numbered s) (hsame : ∀ j, (key, j) ∈ s.cache → s.stale j = true) :
    Bound s key (s.fresh key).1 (s.fresh key).2 where
  now_eq := rfl
  numbered p hp := by
    rcases OrderedMap.mem_set.mp hp with rfl | ⟨hp, -⟩
    · exact Nat.lt_succ_self _
    · exact (hs p hp).trans (Nat.lt_succ_self _)
  made_le := Nat.le_succ _
  old j hj := Function.update_of_ne hj.ne _ _
  found := OrderedMap.mem_set.mpr (.inl rfl)
  recent := by
    rw [State.stale, State.last, State.fresh]
    simp only [Function.update_self]
    rfl
  others p hp := by
    rw [State.fresh, OrderedMap.mem_set]
    constructor
    · rintro (rfl | ⟨hmem, -⟩)
      · exact absurd rfl hp
      · exact hmem
    · exact fun hmem => .inr ⟨hmem, hp⟩
  same j hj hstale := by
    rw [hsame j hj] at hstale
    cases hstale

theorem bound_bind (hs : Numbered s) (key : JStr) : Bound s key (s.bind key).1 (s.bind key).2 := by
  rw [State.bind]
  cases hget : s.cache.get? key with
  | none =>
    refine bound_fresh hs fun j hj => ?_
    rw [OrderedMap.get?_eq_some_iff.mpr hj] at hget
    cases hget
  | some existing =>
    have hmem := OrderedMap.get?_eq_some_iff.mp hget
    have hone : ∀ j, (key, j) ∈ s.cache → j = existing := fun j hj =>
      (Prod.mk.inj (OrderedMap.eq_of_mem hj hmem rfl)).2
    by_cases hstale : s.stale existing = true
    · simp only [hstale, ↓reduceIte]
      refine bound_fresh hs fun j hj => ?_
      rwa [hone j hj]
    · have hiff : ∀ p, p ∈ (s.cache.erase key).set key existing ↔ p ∈ s.cache := by
        intro p
        rw [OrderedMap.mem_set, OrderedMap.mem_erase]
        constructor
        · rintro (rfl | ⟨⟨hp, -⟩, -⟩)
          · exact hmem
          · exact hp
        · intro hp
          by_cases hkey : p.1 = key
          · exact .inl (OrderedMap.eq_of_mem hp hmem hkey)
          · exact .inr ⟨⟨hp, hkey⟩, hkey⟩
      simp only [hstale]
      exact
        { now_eq := rfl
          numbered := fun p hp => hs p ((hiff p).mp hp)
          made_le := le_rfl
          old := fun _ _ => rfl
          found := (hiff _).mpr hmem
          recent := Bool.not_eq_true _ |>.mp hstale
          others := fun p _ => hiff p
          same := fun j hj _ => hone j hj }

/-- A buffer that is not stale is not lost by binding. -/
theorem Bound.keeps (h : Bound s key t id) (hs : Numbered s) {p : JStr × ℕ} (hp : p ∈ s.cache)
    (hstale : s.stale p.2 = false) : p ∈ t.cache ∧ t.stale p.2 = false := by
  refine ⟨?_, (stale_congr h.now_eq (h.old p.2 (hs p hp))).trans hstale⟩
  by_cases hkey : p.1 = key
  · subst hkey
    obtain rfl := h.same p.2 hp hstale
    exact h.found
  · exact (h.others p hkey).mpr hp

/-- What binding some keys does. -/
structure BoundAll (s : State V) (keys : List JStr) (t : State V) (ids : List ℕ) : Prop where
  now_eq : t.now = s.now
  numbered : Numbered t
  made_le : s.made ≤ t.made
  old : ∀ j, j < s.made → t.buffers j = s.buffers j
  found : List.Forall₂ (fun key id => (key, id) ∈ t.cache ∧ t.stale id = false) keys ids
  keeps : ∀ p ∈ s.cache, s.stale p.2 = false → p ∈ t.cache ∧ t.stale p.2 = false

theorem boundAll_bindAll (hs : Numbered s) (keys : List JStr) :
    BoundAll s keys (s.bindAll keys).1 (s.bindAll keys).2 := by
  induction keys generalizing s with
  | nil =>
    exact
      { now_eq := rfl
        numbered := hs
        made_le := le_rfl
        old := fun _ _ => rfl
        found := .nil
        keeps := fun p hp hstale => ⟨hp, hstale⟩ }
  | cons key keys ih =>
    have hone := bound_bind hs key
    have hrest := ih hone.numbered
    exact
      { now_eq := hrest.now_eq.trans hone.now_eq
        numbered := hrest.numbered
        made_le := hone.made_le.trans hrest.made_le
        old := fun j hj => (hrest.old j (hj.trans_le hone.made_le)).trans (hone.old j hj)
        found := .cons (hrest.keeps _ hone.found hone.recent) hrest.found
        keeps := fun p hp hstale =>
          have hkept := hone.keeps hs hp hstale
          hrest.keeps p hkept.1 hkept.2 }

/-! ## Evicting -/

variable {last : ℕ → Option ℚ} {protect : List JStr} {m m' : OrderedMap JStr ℕ}

/-- `e` is empty, or its newest sample is not newer than that of `u`, which is not empty. -/
def Before (last : ℕ → Option ℚ) (e u : JStr × ℕ) : Prop :=
  ∀ t ∈ last e.2, ∃ t' ∈ last u.2, t ≤ t'

/-- An entry that may be evicted, and before all others that may. -/
def Oldest (last : ℕ → Option ℚ) (protect : List JStr) (xs : List (JStr × ℕ)) (e : JStr × ℕ) :
    Prop :=
  e ∈ xs ∧ e.1 ∉ protect ∧ ∀ u ∈ xs, u.1 ∉ protect → Before last e u

/-- The victim among the entries that were seen. -/
def BestOf (last : ℕ → Option ℚ) (protect : List JStr) (seen : List (JStr × ℕ)) :
    Option (JStr × ℚ) → Prop
  | none => ∀ u ∈ seen, u.1 ∈ protect
  | some (key, t) => ∃ e, Oldest last protect seen e ∧ e.1 = key ∧ last e.2 = some t

theorem Oldest.skip {seen : List (JStr × ℕ)} {e u : JStr × ℕ} (h : Oldest last protect seen e)
    (hu : u.1 ∉ protect → Before last e u) : Oldest last protect (seen ++ [u]) e := by
  refine ⟨List.mem_append_left _ h.1, h.2.1, fun v hv hprotect => ?_⟩
  rcases List.mem_append.mp hv with hv | hv
  · exact h.2.2 v hv hprotect
  · rw [List.mem_singleton.mp hv] at hprotect ⊢
    exact hu hprotect

theorem Oldest.take {seen : List (JStr × ℕ)} {u : JStr × ℕ} (hu : u.1 ∉ protect)
    (h : ∀ v ∈ seen, v.1 ∉ protect → Before last u v) :
    Oldest last protect (seen ++ [u]) u := by
  refine ⟨List.mem_append_right _ (List.mem_singleton_self u), hu, fun v hv hprotect => ?_⟩
  rcases List.mem_append.mp hv with hv | hv
  · exact h v hv hprotect
  · rw [List.mem_singleton.mp hv]
    exact fun t ht => ⟨t, ht, le_rfl⟩

theorem BestOf.skip {seen : List (JStr × ℕ)} {best : Option (JStr × ℚ)} {u : JStr × ℕ}
    (h : BestOf last protect seen best)
    (hu : u.1 ∉ protect → ∃ b ∈ best, ∃ t ∈ last u.2, b.2 ≤ t) :
    BestOf last protect (seen ++ [u]) best := by
  cases best with
  | none =>
    intro v hv
    rcases List.mem_append.mp hv with hv | hv
    · exact h v hv
    · rw [List.mem_singleton.mp hv]
      by_contra hprotect
      obtain ⟨b, hb, -⟩ := hu hprotect
      cases hb
  | some b =>
    obtain ⟨e, he, hkey, hlast⟩ := h
    refine ⟨e, he.skip fun hprotect t ht => ?_, hkey, hlast⟩
    obtain ⟨b', hb, t', ht', hle⟩ := hu hprotect
    cases hb
    rw [hlast, Option.mem_some_iff] at ht
    exact ⟨t', ht', ht ▸ hle⟩

theorem BestOf.take {seen : List (JStr × ℕ)} {best : Option (JStr × ℚ)} {u : JStr × ℕ} {t : ℚ}
    (h : BestOf last protect seen best) (hu : u.1 ∉ protect) (ht : last u.2 = some t)
    (hlt : ∀ b ∈ best, t < b.2) : BestOf last protect (seen ++ [u]) (some (u.1, t)) := by
  refine ⟨u, .take hu fun v hv hprotect t' ht' => ?_, rfl, ht⟩
  rw [ht, Option.mem_some_iff] at ht'
  cases best with
  | none => exact absurd (h v hv) hprotect
  | some b =>
    obtain ⟨e, he, hkey, hlast⟩ := h
    obtain ⟨w, hw, hle⟩ := he.2.2 v hv hprotect b.2 hlast
    exact ⟨w, hw, ht' ▸ (hlt b rfl).le.trans hle⟩

theorem victimFrom_spec (rest : List (JStr × ℕ)) {seen : List (JStr × ℕ)}
    {best : Option (JStr × ℚ)} (h : BestOf last protect seen best) :
    match victimFrom last protect rest best with
    | none => ∀ u ∈ seen ++ rest, u.1 ∈ protect
    | some victim => ∃ e, Oldest last protect (seen ++ rest) e ∧ e.1 = victim := by
  induction rest generalizing seen best with
  | nil =>
    rw [victimFrom, List.append_nil]
    cases best with
    | none => exact h
    | some b =>
      obtain ⟨e, he, hkey, -⟩ := h
      exact ⟨e, he, hkey⟩
  | cons u rest ih =>
    obtain ⟨key, id⟩ := u
    rw [List.append_cons, victimFrom]
    by_cases hprotect : key ∈ protect
    · rw [if_pos hprotect]
      exact ih (h.skip fun hu => absurd hprotect hu)
    · rw [if_neg hprotect]
      cases hlast : last id with
      | none =>
        -- an empty buffer is before all, also those not seen yet
        refine ⟨(key, id), ⟨by simp, hprotect, fun v _ _ t ht => ?_⟩, rfl⟩
        rw [hlast] at ht
        cases ht
      | some t =>
        by_cases hbest : ∀ b ∈ best, t < b.2
        · have hall : best.all (fun b => t < b.2) = true := by
            cases best with
            | none => rfl
            | some b => exact decide_eq_true (hbest b rfl)
          simp only [hall, ↓reduceIte]
          exact ih (h.take hprotect hlast hbest)
        · push Not at hbest
          obtain ⟨b, hb, hle⟩ := hbest
          have hall : best.all (fun b => t < b.2) = false := by
            rw [Option.mem_def.mp hb]
            exact decide_eq_false hle.not_gt
          simp only [hall]
          exact ih (h.skip fun _ => ⟨b, hb, t, hlast, hle⟩)

/-- Evictions, each with more than `MAX_SCOPES` entries and of one that is before all others, until
there are not more or all are protected. -/
inductive Trimmed (last : ℕ → Option ℚ) (protect : List JStr) :
    OrderedMap JStr ℕ → OrderedMap JStr ℕ → Prop
  | done {m : OrderedMap JStr ℕ} (h : m.size ≤ MAX_SCOPES ∨ ∀ p ∈ m, p.1 ∈ protect) :
    Trimmed last protect m m
  | evict {m m' : OrderedMap JStr ℕ} {e : JStr × ℕ} (hsize : MAX_SCOPES < m.size)
    (he : Oldest last protect m.entries e) (h : Trimmed last protect (m.erase e.1) m') :
    Trimmed last protect m m'

theorem trimmed_trim (n : ℕ) (h : m.size ≤ n) : Trimmed last protect m (trim last protect n m) := by
  induction n generalizing m with
  | zero => exact .done (.inl (h.trans (Nat.zero_le _)))
  | succ n ih =>
    rw [trim]
    by_cases hsize : MAX_SCOPES < m.size
    · rw [if_pos hsize]
      have hseen : BestOf last protect [] none := fun u hu => absurd hu List.not_mem_nil
      have hspec := victimFrom_spec m.entries hseen
      cases hvictim : victimFrom last protect m.entries none with
      | none =>
        rw [hvictim] at hspec
        exact .done (.inr hspec)
      | some victim =>
        rw [hvictim] at hspec
        obtain ⟨e, he, rfl⟩ := hspec
        have herase := OrderedMap.size_erase (OrderedMap.mem_keys_of_mem he.1)
        exact .evict hsize he (ih (by omega))
    · rw [if_neg hsize]
      exact .done (.inl (not_lt.mp hsize))

theorem Trimmed.subset (h : Trimmed last protect m m') {p : JStr × ℕ} (hp : p ∈ m') : p ∈ m := by
  induction h with
  | done => exact hp
  | evict _ _ _ ih => exact (OrderedMap.mem_erase.mp (ih hp)).1

theorem Trimmed.protects (h : Trimmed last protect m m') {p : JStr × ℕ} (hp : p ∈ m)
    (hprotect : p.1 ∈ protect) : p ∈ m' := by
  induction h with
  | done => exact hp
  | evict _ he _ ih =>
    refine ih (OrderedMap.mem_erase.mpr ⟨hp, ?_⟩)
    intro heq
    exact he.2.1 (heq ▸ hprotect)

theorem Trimmed.bounded (h : Trimmed last protect m m') :
    m'.size ≤ max MAX_SCOPES protect.dedup.length := by
  induction h with
  | @done m h =>
    rcases h with h | h
    · exact h.trans (Nat.le_max_left _ _)
    · have hsub : m.keys ⊆ protect.dedup := fun key hkey => by
        obtain ⟨p, hp, rfl⟩ := List.mem_map.mp hkey
        exact List.mem_dedup.mpr (h p hp)
      have hlen := (List.subperm_of_subset m.nodup hsub).length_le
      rw [List.length_map] at hlen
      exact hlen.trans (Nat.le_max_right _ _)
  | evict _ _ _ ih => exact ih

/-! ## A call -/

/-- What a call does. -/
structure Call (s : State V) (keys : List JStr) (t : State V) (ids : List ℕ) : Prop where
  /-- Every buffer returned is the one under its key. -/
  returned : List.Forall₂ (fun key id => t.cache.get? key = some id) keys ids
  bounded : t.cache.size ≤ max MAX_SCOPES keys.dedup.length
  /-- No buffer's newest sample is older than `TTL_MS`. -/
  recent : ∀ p ∈ t.cache, ∀ last ∈ t.last p.2, t.now - last ≤ TTL_MS
  /-- A buffer keeps its samples. If it was not stale it keeps its key, but for an eviction. -/
  kept : ∀ p ∈ s.cache, t.buffers p.2 = s.buffers p.2 ∧
    (s.stale p.2 = false → p ∈ t.cache ∨ p.1 ∉ keys ∧ p.1 ∉ t.cache.keys)
  evicted : Trimmed t.last keys (s.bindAll keys).1.sweep.cache t.cache

theorem not_stale_iff : s.stale id = false ↔ ∀ last ∈ s.last id, s.now - last ≤ TTL_MS := by
  rw [State.stale]
  cases s.last id with
  | none => simp
  | some last => simp

theorem numbered_getMetricsBuffers (hs : Numbered s) (keys : List JStr) :
    Numbered (s.getMetricsBuffers keys).1 := by
  intro p hp
  have hswept := (trimmed_trim _ le_rfl).subset hp
  exact (boundAll_bindAll hs keys).numbered p (OrderedMap.mem_filter.mp hswept).1

theorem call_getMetricsBuffers (hs : Numbered s) (keys : List JStr) :
    Call s keys (s.getMetricsBuffers keys).1 (s.getMetricsBuffers keys).2 := by
  have hbound := boundAll_bindAll hs keys
  have htrim : Trimmed (s.bindAll keys).1.last keys (s.bindAll keys).1.sweep.cache
      (s.getMetricsBuffers keys).1.cache := trimmed_trim _ le_rfl
  have hswept : ∀ p, p ∈ (s.bindAll keys).1.sweep.cache ↔
      p ∈ (s.bindAll keys).1.cache ∧ (s.bindAll keys).1.stale p.2 = false := by
    intro p
    rw [State.sweep, OrderedMap.mem_filter, Bool.not_eq_true']
  refine
    { returned := ?_
      bounded := htrim.bounded
      recent := fun p hp => not_stale_iff.mp ((hswept p).mp (htrim.subset hp)).2
      kept := fun p hp => ⟨hbound.old p.2 (hs p hp), fun hstale => ?_⟩
      evicted := htrim }
  · have hfound := (List.forall₂_and_left keys _).mpr ⟨fun _ hkey => hkey, hbound.found⟩
    refine hfound.imp fun key id ⟨hkey, hmem, hstale⟩ => ?_
    exact OrderedMap.get?_eq_some_iff.mpr
      (htrim.protects ((hswept (key, id)).mpr ⟨hmem, hstale⟩) hkey)
  · have hkept := (hswept p).mpr (hbound.keeps p hp hstale)
    by_cases hmem : p ∈ (s.getMetricsBuffers keys).1.cache
    · exact .inl hmem
    · refine .inr ⟨fun hkey => hmem (htrim.protects hkept hkey), fun hkey => ?_⟩
      obtain ⟨id, hid⟩ := OrderedMap.mem_keys.mp hkey
      have heq := OrderedMap.eq_of_mem (htrim.subset hid) hkept rfl
      exact hmem (heq ▸ hid)

/-! ## Runs -/

theorem step_numbered {a : Action V} (hs : Numbered s) (hstep : step s a = some t) : Numbered t := by
  cases a with
  | get keys =>
    cases hstep
    exact numbered_getMetricsBuffers hs keys
  | push id timestampMs values =>
    rw [step] at hstep
    split_ifs at hstep
    cases hstep
    exact hs
  | clear context =>
    cases hstep
    exact fun p hp => hs p (OrderedMap.mem_filter.mp hp).1
  | advance ms =>
    cases hstep
    exact hs

theorem numbered_of_reachable (hs : (machine (V := V)).Reachable s) : Numbered s := by
  refine hs.invariant (I := Numbered) (fun s hinit p hp => ?_) fun s a t hs _ hstep =>
    step_numbered hs hstep
  rw [hinit.1] at hp
  cases hp

/-- A step that neither clears nor evicts an entry nor finds it stale. -/
def Keeps (p : JStr × ℕ) (s : State V) : Action V → Prop
  | .get keys => s.stale p.2 = false ∧ p.1 ∈ (s.getMetricsBuffers keys).1.cache.keys
  | .clear context => ¬ context ++ js ":" <+: p.1
  | .push _ _ _ => True
  | .advance _ => True

/-- What the pushes of some actions make of a buffer. -/
def pushed (id : ℕ) (b : MultiSeriesRingBuffer V) : List (Action V) → MultiSeriesRingBuffer V
  | [] => b
  | .push j timestampMs values :: as =>
    pushed id (if j = id then (b.push timestampMs values).1 else b) as
  | _ :: as => pushed id b as

/-- What a step that keeps an entry does to its buffer. -/
theorem step_keeps {a : Action V} {p : JStr × ℕ} (hs : Numbered s) (hp : p ∈ s.cache)
    (hkeeps : Keeps p s a) (hstep : step s a = some t) :
    p ∈ t.cache ∧ t.buffers p.2 = pushed p.2 (s.buffers p.2) [a] := by
  cases a with
  | get keys =>
    cases hstep
    obtain ⟨hbuffers, hkept⟩ := (call_getMetricsBuffers hs keys).kept p hp
    refine ⟨?_, hbuffers⟩
    rcases hkept hkeeps.1 with hmem | ⟨-, hgone⟩
    · exact hmem
    · exact absurd hkeeps.2 hgone
  | push id timestampMs values =>
    rw [step] at hstep
    split_ifs at hstep
    cases hstep
    refine ⟨hp, ?_⟩
    rw [pushed, pushed]
    split_ifs with hid
    · subst hid
      exact Function.update_self _ _ _
    · exact Function.update_of_ne (Ne.symm hid) _ _
  | clear context =>
    cases hstep
    refine ⟨OrderedMap.mem_filter.mpr ⟨hp, ?_⟩, rfl⟩
    rw [Bool.not_eq_true', ← Bool.not_eq_true, List.isPrefixOf_iff_prefix]
    exact hkeeps
  | advance ms =>
    cases hstep
    exact ⟨hp, rfl⟩

theorem exec_keeps {as : List (Action V)} {p : JStr × ℕ} (hs : Numbered s) (hp : p ∈ s.cache)
    (hkeeps : machine.Along (Keeps p) s as) (hexec : machine.exec s as = some t) :
    p ∈ t.cache ∧ t.buffers p.2 = pushed p.2 (s.buffers p.2) as := by
  induction as generalizing s with
  | nil =>
    cases hexec
    exact ⟨hp, rfl⟩
  | cons a as ih =>
    obtain ⟨u, hu, hexec⟩ := Option.bind_eq_some_iff.mp hexec
    obtain ⟨hmem, hbuffers⟩ := step_keeps hs hp hkeeps.1 hu
    obtain ⟨hmem', hbuffers'⟩ := ih (step_numbered hs hu) hmem (hkeeps.2 u hu) hexec
    refine ⟨hmem', hbuffers'.trans ?_⟩
    rw [hbuffers]
    cases a <;> rfl

theorem getMetricsBuffers_spec {s : State V} (hs : machine.Reachable s) :
    (∀ keys, Call s keys (s.getMetricsBuffers keys).1 (s.getMetricsBuffers keys).2) ∧
    ∀ p ∈ s.cache, ∀ as t, machine.exec s as = some t → machine.Along (Keeps p) s as →
      p ∈ t.cache ∧ t.buffers p.2 = pushed p.2 (s.buffers p.2) as :=
  ⟨call_getMetricsBuffers (numbered_of_reachable hs),
    fun _ hp _ _ hexec hkeeps => exec_keeps (numbered_of_reachable hs) hp hkeeps hexec⟩

/-- A tab that has one chart, with one sample. -/
def oneChart : List (Action ℕ) :=
  [.get [js "ctx:pod:uid-1:cpu"], .push 0 1000 [(js "total", 5)], .advance 1000]

def start : State ℕ := ⟨.empty, fun _ => .empty, 0, 0⟩

theorem getMetricsBuffers_spec_oneChart : ∃ s, machine.exec start oneChart = some s ∧
    (∀ keys, Call s keys (s.getMetricsBuffers keys).1 (s.getMetricsBuffers keys).2) ∧
    ∀ p ∈ s.cache, ∀ as t, machine.exec s as = some t → machine.Along (Keeps p) s as →
      p ∈ t.cache ∧ t.buffers p.2 = pushed p.2 (s.buffers p.2) as := by
  obtain ⟨s, hs⟩ : ∃ s, machine.exec start oneChart = some s := ⟨_, rfl⟩
  exact ⟨s, hs, getMetricsBuffers_spec (.exec oneChart (.init ⟨rfl, rfl⟩) hs)⟩

/-! ## Contexts -/

/-- A buffer that was bound for a context. -/
structure Scoped (β : Type*) where
  context : JStr
  scope : JStr
  buffer : β

/-- `${context}:${scope}`. -/
def Scoped.scopeKey {β : Type*} (e : Scoped β) : JStr := e.context ++ js ":" ++ e.scope

/-- What the cache has for some contexts. -/
structure ScopedCache (β : Type*) where
  charts : List (Scoped β)
  nodup : (charts.map Scoped.scopeKey).Nodup

def ScopedCache.toMap {β : Type*} (c : ScopedCache β) : OrderedMap JStr β where
  entries := c.charts.map fun e => (e.scopeKey, e.buffer)
  nodup := by
    rw [List.map_map]
    exact c.nodup

/-- The text by which the keys of one context are found begins a key of another: the name of the
other, or its name and a part of the scope. -/
def Overlaps (context other scope : JStr) : Prop :=
  context ++ js ":" <+: other ++ js ":" ∨
    ∃ part, context = other ++ js ":" ++ part ∧ part ++ js ":" <+: scope

theorem prefix_key_iff {context other scope : JStr} :
    context ++ js ":" <+: other ++ js ":" ++ scope ↔ Overlaps context other scope := by
  constructor
  · intro h
    rcases List.prefix_or_prefix_of_prefix h (List.prefix_append _ scope) with hle | hle
    · exact .inl hle
    · obtain ⟨part, hpart⟩ := hle
      cases part using List.reverseRecOn with
      | nil => exact .inl (by rw [← hpart, List.append_nil])
      | append_singleton part colon =>
        rw [← List.append_assoc] at hpart
        obtain ⟨rfl, -⟩ := List.append_inj' hpart rfl
        rw [List.append_assoc (other ++ js ":"), List.prefix_append_right_inj] at h
        exact .inr ⟨part, rfl, h⟩
  · rintro (h | ⟨part, rfl, h⟩)
    · exact h.trans (List.prefix_append _ _)
    · rw [List.append_assoc, List.append_assoc, List.append_assoc, List.prefix_append_right_inj,
        List.prefix_append_right_inj]
      exact h

variable {β : Type*}

theorem mem_clearContext {context : JStr} {m : OrderedMap JStr β} {p : JStr × β} :
    p ∈ clearContext context m ↔ p ∈ m ∧ ¬ context ++ js ":" <+: p.1 := by
  rw [clearContext, OrderedMap.mem_filter, Bool.not_eq_true', ← Bool.not_eq_true,
    List.isPrefixOf_iff_prefix]

/-- No chart of the other has a key that overlaps. -/
def NoOverlap (c : ScopedCache β) (context other : JStr) : Prop :=
  ∀ e ∈ c.charts, e.context = other → ¬ Overlaps context other e.scope

theorem clearContext_iff (c : ScopedCache β) (context other : JStr) :
    ((∀ e ∈ c.charts, e.context = context →
        e.scopeKey ∉ (clearContext context c.toMap).keys) ∧
      ∀ e ∈ c.charts, e.context = other →
        (e.scopeKey, e.buffer) ∈ clearContext context c.toMap) ↔
    NoOverlap c context other := by
  constructor
  · rintro ⟨-, hkept⟩ e he rfl hoverlap
    exact (mem_clearContext.mp (hkept e he rfl)).2 (prefix_key_iff.mpr hoverlap)
  · intro h
    refine ⟨?_, ?_⟩
    · rintro e - rfl hkey
      obtain ⟨b, hb⟩ := OrderedMap.mem_keys.mp hkey
      exact (mem_clearContext.mp hb).2 (List.prefix_append _ _)
    · rintro e he rfl
      have hmem : (e.scopeKey, e.buffer) ∈ c.charts.map fun e => (e.scopeKey, e.buffer) :=
        List.mem_map_of_mem he
      exact mem_clearContext.mpr ⟨hmem, fun hprefix => h e he rfl (prefix_key_iff.mp hprefix)⟩

/-- This is so of every cache where neither name begins the other before a colon. -/
theorem noOverlap_iff {context other : JStr} (b : β) :
    (∀ c : ScopedCache β, NoOverlap c context other) ↔
      ¬ context ++ js ":" <+: other ++ js ":" ∧ ¬ other ++ js ":" <+: context ++ js ":" := by
  constructor
  · intro h
    have hone (scope : JStr) : ¬ Overlaps context other scope :=
      h ⟨[⟨other, scope, b⟩], List.nodup_singleton _⟩ _ (List.mem_singleton_self _) rfl
    refine ⟨fun hle => hone [] (.inl hle), fun ⟨part, hpart⟩ => ?_⟩
    have hoverlap : Overlaps context other part :=
      prefix_key_iff.mp (by rw [hpart])
    exact hone part hoverlap
  · rintro ⟨hle, hle'⟩ c e - - (h | ⟨part, rfl, -⟩)
    · exact hle h
    · exact hle' ((List.prefix_append _ part).trans (List.prefix_append _ _))

/-- The texts of the browser that a byte string of ASCII is. -/
def ofAscii (name : Go.Str) : JStr := name.map UInt8.toUInt16

def clusterName : Go.Str := Go.str "arn:aws:eks:eu-west-1:1:cluster/prod"

/-- The chart of a pod of a cluster that is named as an ARN is. -/
def clusterCharts : ScopedCache ℕ where
  charts := [⟨ofAscii clusterName, js "pod:uid-1:cpu", 0⟩]
  nodup := List.nodup_singleton _

/-- A cluster called `arn` takes the charts of the other with it. -/
theorem clearContext_arn : Exec.validContextName (Go.str "arn") = true ∧
    Exec.validContextName clusterName = true ∧
    ¬((∀ e ∈ clusterCharts.charts, e.context = ofAscii (Go.str "arn") →
        e.scopeKey ∉ (clearContext (ofAscii (Go.str "arn")) clusterCharts.toMap).keys) ∧
      ∀ e ∈ clusterCharts.charts, e.context = ofAscii clusterName →
        (e.scopeKey, e.buffer) ∈ clearContext (ofAscii (Go.str "arn")) clusterCharts.toMap) := by
  refine ⟨by decide +kernel, by decide +kernel, fun h => ?_⟩
  have hkept := h.2 ⟨ofAscii clusterName, js "pod:uid-1:cpu", 0⟩ (List.mem_singleton_self _) rfl
  exact (mem_clearContext.mp hkept).2 (by decide +kernel)

end KubeConsole.Web.MetricsCache
