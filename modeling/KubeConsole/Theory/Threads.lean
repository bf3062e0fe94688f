import KubeConsole.Theory.Transition

/-!
Any number of threads over one shared state, interleaved at their atomic
operations. A thread is its local state; an operation reads and writes the
shared state and moves one thread.

The rules lift a fact about one operation to every interleaving: a property of
the shared state, of the local states, or of each local state against the shared
state; an account that must balance, where each thread holds some units and the
shared state records their total; and a budget the threads may not overdraw.
-/
namespace KubeConsole.Theory

/-- The shared state and the local states of the threads, in order of arrival. -/
structure Pool (σ l : Type*) where
  shared : σ
  threads : List l

/-- A new thread arrives, or thread `i` performs an operation. -/
inductive PoolAction (β ε : Type*) where
  | spawn (b : β)
  | act (i : ℕ) (e : ε)

/-- What one thread can do: how it starts, and its operations on the shared state. -/
structure Program (σ l β ε : Type*) where
  start : β → l
  op : σ → l → ε → Option (σ × l)

namespace Program
variable {σ l β ε : Type*} (P : Program σ l β ε)

/-- Thread `i` performs `e`, where there is such a thread and it can. -/
def act (p : Pool σ l) (i : ℕ) (e : ε) : Option (Pool σ l) :=
  p.threads[i]?.bind fun c => (P.op p.shared c e).map fun r => ⟨r.1, p.threads.set i r.2⟩

/-- The interleavings of `P` from the pool `p₀`. -/
def pool (p₀ : Pool σ l) : Machine (Pool σ l) (PoolAction β ε) where
  init p := p = p₀
  step p
    | .spawn b => some { p with threads := p.threads ++ [P.start b] }
    | .act i e => P.act p i e

variable {P} {p₀ : Pool σ l}

/-- What an operation of thread `i` does to the pool. -/
theorem act_eq_some {p q : Pool σ l} {i : ℕ} {e : ε} (h : P.act p i e = some q) :
    ∃ (hi : i < p.threads.length) (s : σ) (c : l),
      P.op p.shared p.threads[i] e = some (s, c) ∧ q = ⟨s, p.threads.set i c⟩ := by
  obtain ⟨c, hc, h⟩ := Option.bind_eq_some_iff.mp h
  obtain ⟨hi, rfl⟩ := List.getElem?_eq_some_iff.mp hc
  obtain ⟨⟨s, c⟩, ho, rfl⟩ := Option.map_eq_some_iff.mp h
  exact ⟨hi, s, c, ho, rfl⟩

theorem act_of_op {p : Pool σ l} {i : ℕ} {e : ε} {c c' : l} {s : σ} (hc : p.threads[i]? = some c)
    (ho : P.op p.shared c e = some (s, c')) : P.act p i e = some ⟨s, p.threads.set i c'⟩ := by
  simp [act, hc, ho]

/-- The invariant rule of a pool: a fact about the whole pool that survives an
arrival and every operation. -/
theorem pool_invariant {I : Pool σ l → Prop} (hinit : I p₀)
    (hspawn : ∀ p b, I p → I { p with threads := p.threads ++ [P.start b] })
    (hop : ∀ p i (hi : i < p.threads.length) e s c, I p →
      P.op p.shared p.threads[i] e = some (s, c) → I ⟨s, p.threads.set i c⟩)
    {p : Pool σ l} (hp : (P.pool p₀).Reachable p) : I p := by
  refine hp.invariant (fun s hs => hs ▸ hinit) ?_
  intro p a q hI _ hq
  cases a with
  | spawn b => cases hq; exact hspawn p b hI
  | act i e =>
    obtain ⟨hi, s, c, ho, rfl⟩ := act_eq_some hq
    exact hop p i hi e s c hI ho

/-- A property of local states that holds at the start and is kept by every
operation holds of every thread. -/
theorem forall_threads {I : l → Prop} (hinit : ∀ c ∈ p₀.threads, I c)
    (hstart : ∀ b, I (P.start b))
    (hop : ∀ s c e s' c', I c → P.op s c e = some (s', c') → I c')
    {p : Pool σ l} (hp : (P.pool p₀).Reachable p) : ∀ c ∈ p.threads, I c := by
  refine pool_invariant (I := fun p => ∀ c ∈ p.threads, I c) hinit ?_ ?_ hp
  · intro p b hI c hc
    rcases List.mem_append.mp hc with hc | hc
    · exact hI c hc
    · rw [List.mem_singleton.mp hc]; exact hstart b
  · intro p i hi e s c hI ho d hd
    rcases List.mem_or_eq_of_mem_set hd with hd | rfl
    · exact hI d hd
    · exact hop _ _ _ _ _ (hI _ (List.getElem_mem hi)) ho

/-- A property of the shared state alone, where an operation may rely on what is
already known of the thread that performs it. -/
theorem shared_invariant {I : σ → l → Prop} {J : σ → Prop}
    (hI : ∀ p, (P.pool p₀).Reachable p → ∀ c ∈ p.threads, I p.shared c) (hinit : J p₀.shared)
    (hop : ∀ s c e s' c', I s c → J s → P.op s c e = some (s', c') → J s')
    {p : Pool σ l} (hp : (P.pool p₀).Reachable p) : J p.shared := by
  refine hp.invariant_with (J := fun p => ∀ c ∈ p.threads, I p.shared c)
    (I := fun p => J p.shared) hI (fun s hs => hs ▸ hinit) ?_
  intro p a q hJ hs _ hq
  cases a with
  | spawn b => cases hq; exact hs
  | act i e =>
    obtain ⟨hi, s, c, ho, rfl⟩ := act_eq_some hq
    exact hop _ _ _ _ _ (hJ _ (List.getElem_mem hi)) hs ho

/-- A property of each local state against the shared state: every operation
must establish it for the thread that moves and keep it for the others. -/
theorem forall_threads_stable {I : σ → l → Prop} (hinit : ∀ c ∈ p₀.threads, I p₀.shared c)
    (hstart : ∀ s b, I s (P.start b))
    (hown : ∀ s c e s' c', I s c → P.op s c e = some (s', c') → I s' c')
    (hother : ∀ s c e s' c' d, I s d → P.op s c e = some (s', c') → I s' d)
    {p : Pool σ l} (hp : (P.pool p₀).Reachable p) : ∀ c ∈ p.threads, I p.shared c := by
  refine pool_invariant (I := fun p => ∀ c ∈ p.threads, I p.shared c) hinit ?_ ?_ hp
  · intro p b hI c hc
    rcases List.mem_append.mp hc with hc | hc
    · exact hI c hc
    · rw [List.mem_singleton.mp hc]; exact hstart _ b
  · intro p i hi e s c hI ho d hd
    rcases List.mem_or_eq_of_mem_set hd with hd | rfl
    · exact hother _ _ _ _ _ _ (hI d hd) ho
    · exact hown _ _ _ _ _ (hI _ (List.getElem_mem hi)) ho

theorem apart_of_ne {R : l → l → Prop} (hsymm : ∀ c d, R c d → R d c) {cs : List l}
    (h : cs.Pairwise R) {i j : ℕ} (hi : i < cs.length) (hj : j < cs.length) (hij : i ≠ j) :
    R cs[i] cs[j] := by
  rw [List.pairwise_iff_getElem] at h
  rcases Nat.lt_or_gt_of_ne hij with hlt | hlt
  · exact h i j hi hj hlt
  · exact hsymm _ _ (h j i hj hi hlt)

/-- A relation between any two different threads, such as owning different tokens. -/
theorem pairwise_threads {I : σ → l → Prop} {R : l → l → Prop} (hsymm : ∀ c d, R c d → R d c)
    (hI : ∀ p, (P.pool p₀).Reachable p → ∀ c ∈ p.threads, I p.shared c)
    (hinit : p₀.threads.Pairwise R) (hstart : ∀ b d, R d (P.start b))
    (hop : ∀ s c e s' c' d, I s c → I s d → R c d → P.op s c e = some (s', c') → R c' d)
    {p : Pool σ l} (hp : (P.pool p₀).Reachable p) : p.threads.Pairwise R := by
  refine hp.invariant_with (J := fun p => ∀ c ∈ p.threads, I p.shared c)
    (I := fun p => p.threads.Pairwise R) hI (fun s hs => hs ▸ hinit) ?_
  intro p a q hJ hR _ hq
  cases a with
  | spawn b =>
    cases hq
    refine List.pairwise_append.mpr ⟨hR, List.pairwise_singleton _ _, fun d _ c hc => ?_⟩
    rw [List.mem_singleton.mp hc]
    exact hstart b d
  | act i e =>
    obtain ⟨hi, s, c, ho, rfl⟩ := act_eq_some hq
    have hmove (j : ℕ) (hj : j < p.threads.length) (hij : i ≠ j) : R c p.threads[j] :=
      hop _ _ _ _ _ _ (hJ _ (List.getElem_mem hi)) (hJ _ (List.getElem_mem hj))
        (apart_of_ne hsymm hR hi hj hij) ho
    refine List.pairwise_iff_getElem.mpr fun j k hj hk hjk => ?_
    simp only [List.length_set] at hj hk
    simp only [List.getElem_set]
    split_ifs with h1 h2 h2
    · omega
    · exact hmove k hk h2
    · exact hsymm _ _ (hmove j hj h1)
    · exact List.pairwise_iff_getElem.mp hR j k hj hk hjk

/-- A property of each local state against the shared state, where the operations of
one thread may upset another's unless the two are apart, and may rely on an earlier
invariant `K` of the same kind. -/
theorem forall_threads_apart {I K : σ → l → Prop} {R : l → l → Prop}
    (hsymm : ∀ c d, R c d → R d c) (hR : ∀ p, (P.pool p₀).Reachable p → p.threads.Pairwise R)
    (hK : ∀ p, (P.pool p₀).Reachable p → ∀ c ∈ p.threads, K p.shared c)
    (hinit : ∀ c ∈ p₀.threads, I p₀.shared c) (hstart : ∀ s b, I s (P.start b))
    (hown : ∀ s c e s' c', K s c → I s c → P.op s c e = some (s', c') → I s' c')
    (hother : ∀ s c e s' c' d, K s c → K s d → R c d → I s c → I s d →
      P.op s c e = some (s', c') → I s' d)
    {p : Pool σ l} (hp : (P.pool p₀).Reachable p) : ∀ c ∈ p.threads, I p.shared c := by
  refine hp.invariant_with
    (J := fun p => p.threads.Pairwise R ∧ ∀ c ∈ p.threads, K p.shared c)
    (I := fun p => ∀ c ∈ p.threads, I p.shared c) (fun s hs => ⟨hR s hs, hK s hs⟩)
    (fun s hs => hs ▸ hinit) ?_
  intro p a q hP hI _ hq
  cases a with
  | spawn b =>
    cases hq
    intro c hc
    rcases List.mem_append.mp hc with hc | hc
    · exact hI c hc
    · rw [List.mem_singleton.mp hc]; exact hstart _ b
  | act i e =>
    obtain ⟨hi, s, c, ho, rfl⟩ := act_eq_some hq
    have hm : p.threads[i] ∈ p.threads := List.getElem_mem hi
    intro d hd
    obtain ⟨j, hj, rfl⟩ := List.getElem_of_mem hd
    simp only [List.length_set] at hj
    by_cases hij : i = j
    · subst hij
      simpa using hown _ _ _ _ _ (hP.2 _ hm) (hI _ hm) ho
    · have hmj : p.threads[j] ∈ p.threads := List.getElem_mem hj
      simpa [List.getElem_set_ne hij] using hother _ _ _ _ _ _ (hP.2 _ hm) (hP.2 _ hmj)
        (apart_of_ne hsymm hP.1 hi hj hij) (hI _ hm) (hI _ hmj) ho

/-- An invariant of the shared state and of each local state against it, along runs whose steps
meet a condition: an operation must establish it for the thread that moves and keep it for
the others. -/
theorem reach_invariant {C : Pool σ l → PoolAction β ε → Prop} {J : Pool σ l → Prop} {S : σ → Prop}
    {T : σ → l → Prop} (hJ : ∀ p, (P.pool p₀).Reach C p → J p) (hS : S p₀.shared)
    (hT : ∀ c ∈ p₀.threads, T p₀.shared c) (hstart : ∀ s b, T s (P.start b))
    (hop : ∀ (p : Pool σ l) (i : ℕ) (hi : i < p.threads.length) (e : ε) (s' : σ) (c' : l), J p →
      C p (.act i e) → S p.shared → (∀ c ∈ p.threads, T p.shared c) →
      P.op p.shared p.threads[i] e = some (s', c') →
      S s' ∧ T s' c' ∧ ∀ (j : ℕ) (hj : j < p.threads.length), i ≠ j → T s' p.threads[j])
    {p : Pool σ l} (hp : (P.pool p₀).Reach C p) : S p.shared ∧ ∀ c ∈ p.threads, T p.shared c := by
  refine hp.invariant_with (J := J) (I := fun p => S p.shared ∧ ∀ c ∈ p.threads, T p.shared c) hJ
    (fun s hs => hs ▸ ⟨hS, hT⟩) ?_
  intro p a q hJp ⟨hs, ht⟩ hC hq
  cases a with
  | spawn b =>
    cases hq
    refine ⟨hs, fun c hc => ?_⟩
    rcases List.mem_append.mp hc with hc | hc
    · exact ht c hc
    · rw [List.mem_singleton.mp hc]
      exact hstart _ b
  | act i e =>
    obtain ⟨hi, s', c', ho, rfl⟩ := act_eq_some hq
    obtain ⟨hs', hown, hother⟩ := hop p i hi e s' c' hJp hC hs ht ho
    refine ⟨hs', fun d hd => ?_⟩
    obtain ⟨j, hj, rfl⟩ := List.getElem_of_mem hd
    simp only [List.length_set] at hj
    by_cases hij : i = j
    · subst hij
      simpa using hown
    · simpa [List.getElem_set_ne hij] using hother j hj hij

theorem sum_map_set (w : l → ℕ) (cs : List l) (i : ℕ) (hi : i < cs.length) (c : l) :
    ((cs.set i c).map w).sum + w cs[i] = (cs.map w).sum + w c := by
  induction cs generalizing i with
  | nil => simp at hi
  | cons d cs ih =>
    cases i with
    | zero =>
      simp only [List.set_cons_zero, List.map_cons, List.sum_cons, List.getElem_cons_zero]
      omega
    | succ i =>
      have h := ih i (by simpa using hi)
      simp only [List.set_cons_succ, List.map_cons, List.sum_cons, List.getElem_cons_succ]
      omega

theorem weight_le_sum (w : l → ℕ) {cs : List l} {c : l} (hc : c ∈ cs) :
    w c ≤ (cs.map w).sum :=
  List.single_le_sum (fun _ _ => Nat.zero_le _) _ (List.mem_map_of_mem hc)

/-- What every operation keeps between a number read off the shared state and what the threads hold
together, it keeps whatever the other threads hold. -/
theorem balanced {I : σ → l → Prop} {R : ℕ → ℕ → Prop} (total : σ → ℕ) (held : l → ℕ)
    (hI : ∀ p, (P.pool p₀).Reachable p → ∀ c ∈ p.threads, I p.shared c)
    (hinit : R (total p₀.shared) (p₀.threads.map held).sum) (hstart : ∀ b, held (P.start b) = 0)
    (hop : ∀ s c e s' c' rest, I s c → R (total s) (held c + rest) → P.op s c e = some (s', c') →
      R (total s') (held c' + rest))
    {p : Pool σ l} (hp : (P.pool p₀).Reachable p) :
    R (total p.shared) (p.threads.map held).sum := by
  refine hp.invariant_with (J := fun p => ∀ c ∈ p.threads, I p.shared c)
    (I := fun p => R (total p.shared) (p.threads.map held).sum) hI ?_ ?_
  · rintro s rfl
    exact hinit
  · intro p a q hJ hT _ hq
    cases a with
    | spawn b => cases hq; simpa [hstart b] using hT
    | act i e =>
      obtain ⟨hi, s, c, ho, rfl⟩ := act_eq_some hq
      have hm : p.threads[i] ∈ p.threads := List.getElem_mem hi
      obtain ⟨rest, hrest⟩ := Nat.exists_eq_add_of_le (weight_le_sum held hm)
      have hset : ((p.threads.set i c).map held).sum = held c + rest := by
        have hs := sum_map_set held p.threads i hi c
        omega
      have hb := hop _ _ _ _ _ rest (hJ _ hm) (hrest ▸ hT) ho
      exact hset ▸ hb

/-- The account of a resource: `total` reads it off the shared state, `held` says
what one thread holds of it. If every operation changes both sides alike, where
it may rely on the thread's share being part of the total and on an invariant,
then the total is what the threads hold together. -/
theorem accounting {I : σ → l → Prop} (total : σ → ℕ) (held : l → ℕ)
    (hI : ∀ p, (P.pool p₀).Reachable p → ∀ c ∈ p.threads, I p.shared c)
    (hinit : total p₀.shared = (p₀.threads.map held).sum) (hstart : ∀ b, held (P.start b) = 0)
    (hop : ∀ s c e s' c', I s c → held c ≤ total s → P.op s c e = some (s', c') →
      total s' + held c = total s + held c')
    {p : Pool σ l} (hp : (P.pool p₀).Reachable p) :
    total p.shared = (p.threads.map held).sum := by
  refine balanced (R := Eq) total held hI hinit hstart (fun s c e s' c' rest hIc hR ho => ?_) hp
  have hb := hop s c e s' c' hIc (by omega) ho
  omega

theorem sum_map_toNat (q : l → Bool) (cs : List l) :
    (cs.map fun c => (q c).toNat).sum = cs.countP q := by
  induction cs with
  | nil => rfl
  | cons c cs ih =>
    simp only [List.map_cons, List.sum_cons, List.countP_cons, ih]
    cases q c <;> simp [Nat.add_comm]

/-- The budget rule: the units the threads hold together stay within `total`, if
no operation gains its thread more than it adds to the total. -/
theorem budget {I : σ → l → Prop} (total : σ → ℕ) (held : l → ℕ)
    (hI : ∀ p, (P.pool p₀).Reachable p → ∀ c ∈ p.threads, I p.shared c)
    (hinit : (p₀.threads.map held).sum ≤ total p₀.shared) (hstart : ∀ b, held (P.start b) = 0)
    (hop : ∀ s c e s' c', I s c → held c ≤ total s → P.op s c e = some (s', c') →
      total s + held c' ≤ total s' + held c)
    {p : Pool σ l} (hp : (P.pool p₀).Reachable p) :
    (p.threads.map held).sum ≤ total p.shared := by
  refine balanced (R := fun m n => n ≤ m) total held hI hinit hstart
    (fun s c e s' c' rest hIc hR ho => ?_) hp
  have hb := hop s c e s' c' hIc (by omega) ho
  omega

/-- The account of a resource of which a thread holds at most one unit. -/
theorem accounting_count {I : σ → l → Prop} (total : σ → ℕ) (holds : l → Bool)
    (hI : ∀ p, (P.pool p₀).Reachable p → ∀ c ∈ p.threads, I p.shared c)
    (hinit : total p₀.shared = p₀.threads.countP holds) (hstart : ∀ b, holds (P.start b) = false)
    (hop : ∀ s c e s' c', I s c → (holds c).toNat ≤ total s → P.op s c e = some (s', c') →
      total s' + (holds c).toNat = total s + (holds c').toNat)
    {p : Pool σ l} (hp : (P.pool p₀).Reachable p) :
    total p.shared = p.threads.countP holds := by
  rw [← sum_map_toNat] at hinit ⊢
  exact accounting total (fun c => (holds c).toNat) hI hinit (fun b => by simp [hstart b]) hop hp

/-- Of the threads that hold a resource of one unit no two do so at the same time. -/
theorem pairwise_of_countP_le_one {q : l → Bool} {cs : List l} (h : cs.countP q ≤ 1) :
    cs.Pairwise fun c d => ¬(q c = true ∧ q d = true) := by
  induction cs with
  | nil => exact List.Pairwise.nil
  | cons c cs ih =>
    rw [List.countP_cons] at h
    refine List.pairwise_cons.mpr ⟨fun d hd hcd => ?_, ih (by omega)⟩
    have hpos := List.countP_pos_iff.mpr ⟨d, hd, hcd.2⟩
    rw [if_pos hcd.1] at h
    omega

/-- One thread performing a list of operations while the others wait. -/
def drive (P : Program σ l β ε) (s : σ) (c : l) : List ε → Option (σ × l)
  | [] => some (s, c)
  | e :: es => (P.op s c e).bind fun r => P.drive r.1 r.2 es

theorem exec_drive {p : Pool σ l} {i : ℕ} (hi : i < p.threads.length) {es : List ε} {s : σ} {c : l}
    (h : P.drive p.shared p.threads[i] es = some (s, c)) :
    (P.pool p₀).exec p (es.map (.act i)) = some ⟨s, p.threads.set i c⟩ := by
  induction es generalizing p with
  | nil =>
    cases h
    simp [List.set_getElem_self]
  | cons e es ih =>
    obtain ⟨⟨t, d⟩, ho, h⟩ := Option.bind_eq_some_iff.mp h
    have hstep : (P.pool p₀).step p (.act i e) = some ⟨t, p.threads.set i d⟩ := by
      show P.act p i e = _
      simp [act, List.getElem?_eq_getElem hi, ho]
    rw [List.map_cons, Machine.exec_cons, hstep, Option.bind_some,
      ih (p := ⟨t, p.threads.set i d⟩) (by simpa using hi) (by simpa using h)]
    simp

end Program
end KubeConsole.Theory
