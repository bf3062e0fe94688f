import KubeConsole.Theory.Transition
import KubeConsole.Web.Unauthorized

/-!
The auth store over a whole run: which record an operation touches, what it evicts, and
that session storage mirrors the store, so that a reload finds what the tab had.
-/
namespace KubeConsole.Web
open KubeConsole.Theory

inductive AuthAction where
  | setSession (context newToken : JStr) (newIdentity : Option Identity) (unavailable : Bool)
  | setActiveContext (name : JStr)
  | clearSession (context : JStr)
  | pruneExpiredSessions
  | clock (ms : ℕ)
  deriving DecidableEq, Repr

def AuthStore.act (a : AuthStore) : AuthAction → AuthStore
  | .setSession context newToken newIdentity unavailable =>
    a.setSession context newToken newIdentity unavailable
  | .setActiveContext name => a.setActiveContext name
  | .clearSession context => a.clearSession context
  | .pruneExpiredSessions => a.pruneExpiredSessions
  | .clock ms => { a with now := a.now + ms }

/-- A tab's store, from its restore on. -/
def authStore (storage : Storage) (now : ℕ) : Machine AuthStore AuthAction where
  init a := a = .restore storage now
  step a x := some (a.act x)

/-- Every login brings a token. -/
def LogsIn (_ : AuthStore) : AuthAction → Prop
  | .setSession _ newToken _ _ => newToken ≠ []
  | _ => True

/-- The entries under the key. -/
def Storage.entries : Storage → AList fun _ : JStr => Option RawSession
  | .stored raw => raw.sessions.getD ∅
  | _ => ∅

def Storage.activeContext : Storage → JStr
  | .stored raw => raw.activeContext.getD []
  | _ => []

/-- Storage holds the active context and the records of the store, and nothing else; and
these records have a token and an end. -/
structure Mirrors (a : AuthStore) : Prop where
  activeContext : a.storage.activeContext = a.activeContext
  entries : ∀ c, a.storage.entries.lookup c = (a.sessionFor c).map fun s => some s.toRaw
  token : ∀ c s, a.sessionFor c = some s → s.token ≠ []
  expiresAt : ∀ c s, a.sessionFor c = some s → 0 < s.expiresAt

/-! ## Reading -/

/-- Whether an entry is accepted does not depend on the record it becomes. -/
theorem parseSession_toRaw {id now : ℕ} {value : Option RawSession} {s : StoredSession}
    (h : parseSession id now value = some s) :
    value = some s.toRaw ∧ s.token ≠ [] ∧ now < s.expiresAt := by
  unfold parseSession at h
  split at h
  · split_ifs at h with hv
    cases h
    simp only [Bool.or_eq_true, decide_eq_true_eq, not_or, not_le] at hv
    exact ⟨rfl, hv⟩
  · cases h

theorem parseSession_raw {id now : ℕ} (s : StoredSession) (ht : s.token ≠ []) :
    (parseSession id now (some s.toRaw)).map (·.toRaw) =
      ((some s).filter fun s => now < s.expiresAt).map (·.toRaw) := by
  unfold StoredSession.toRaw parseSession
  simp only [Option.filter_some]
  by_cases hn : now < s.expiresAt
  · have hc : ¬ (decide (s.token = []) || decide (s.expiresAt ≤ now)) = true := by
      simp [ht, hn]
    rw [if_neg hc, if_pos (by simpa using hn)]
    rfl
  · have hc : (decide (s.token = []) || decide (s.expiresAt ≤ now)) = true := by
      simp [not_lt.mp hn]
    rw [if_pos hc, if_neg (by simpa using hn)]

theorem parseSession_id (id id' now : ℕ) (value : Option RawSession) :
    (parseSession id now value).map (·.toRaw) = (parseSession id' now value).map (·.toRaw) := by
  unfold parseSession
  split
  · split_ifs <;> rfl
  · rfl

/-- What `readEntries` finds under a context: the entry of that name if it is accepted. -/
theorem readEntries_lookup {now : ℕ} {entries : List (Sigma fun _ : JStr => Option RawSession)}
    (hnd : entries.NodupKeys) (m : Sessions) (records : List JStr) (dirty : Bool) (c : JStr) :
    ((readEntries now entries (m, records, dirty)).1.lookup c).map (·.toRaw) =
      ((entries.dlookup c).bind fun v => (parseSession 0 now v).map (·.toRaw)).or
        ((m.lookup c).map (·.toRaw)) := by
  induction entries generalizing m records dirty with
  | nil => rfl
  | cons e entries ih =>
    obtain ⟨name, value⟩ := e
    obtain ⟨hname, hrest⟩ := List.nodupKeys_cons.mp hnd
    have hgone : entries.dlookup name = none := List.dlookup_eq_none.mpr hname
    have hparse := parseSession_id records.length 0 now value
    unfold readEntries
    cases hp : parseSession records.length now value with
    | none =>
      rw [hp, Option.map_none] at hparse
      simp only
      rw [ih hrest]
      by_cases hc : c = name
      · subst hc
        rw [List.dlookup_cons_eq, hgone, Option.bind_some, ← hparse]
        rfl
      · rw [@List.dlookup_cons_ne JStr _ _ entries c ⟨name, value⟩ hc]
    | some session =>
      rw [hp, Option.map_some] at hparse
      simp only
      rw [ih hrest]
      by_cases hc : c = name
      · subst hc
        rw [List.dlookup_cons_eq, hgone, Option.bind_some, ← hparse, AList.lookup_insert]
        rfl
      · rw [@List.dlookup_cons_ne JStr _ _ entries c ⟨name, value⟩ hc, AList.lookup_insert_ne hc]

theorem readEntries_clean {now : ℕ} {entries : List (Sigma fun _ : JStr => Option RawSession)}
    {m : Sessions} {records : List JStr} {dirty : Bool}
    (h : (readEntries now entries (m, records, dirty)).2.2 = false) :
    dirty = false ∧ ∀ e ∈ entries, (parseSession 0 now e.2).isSome := by
  induction entries generalizing m records dirty with
  | nil => exact ⟨h, nofun⟩
  | cons e entries ih =>
    obtain ⟨name, value⟩ := e
    unfold readEntries at h
    cases hp : parseSession records.length now value with
    | none =>
      rw [hp] at h
      exact absurd (ih h).1 (by simp)
    | some session =>
      rw [hp] at h
      obtain ⟨hd, hall⟩ := ih h
      refine ⟨hd, ?_⟩
      rintro e he
      rcases List.mem_cons.mp he with rfl | he
      · have hparse := congrArg Option.isSome (parseSession_id records.length 0 now value)
        rw [hp, Option.map_some, Option.isSome_map] at hparse
        exact hparse.symm
      · exact hall e he

/-- The sessions a reload at some time finds. -/
theorem read_lookup (storage : Storage) (t : ℕ) (c : JStr) :
    ((readStoredSessions t storage).2.1.lookup c).map (·.toRaw) =
      (storage.entries.lookup c).bind fun v => (parseSession 0 t v).map (·.toRaw) := by
  cases storage with
  | absent => rfl
  | corrupt => rfl
  | stored raw =>
    have h := @readEntries_lookup t _ (raw.sessions.getD ∅).nodupKeys ∅ [] false c
    rw [AList.lookup_empty, Option.map_none, Option.or_none] at h
    exact h

theorem read_activeContext (storage : Storage) (t : ℕ) :
    (readStoredSessions t storage).1 = storage.activeContext := by
  cases storage <;> rfl

variable {a b : AuthStore}

/-- A reload at time `t` finds the active context and the sessions that end after `t`. -/
theorem Mirrors.reload (h : Mirrors a) (t : ℕ) :
    (readStoredSessions t a.storage).1 = a.activeContext ∧
    ∀ c, ((readStoredSessions t a.storage).2.1.lookup c).map (·.toRaw) =
      ((a.sessionFor c).filter fun s => t < s.expiresAt).map (·.toRaw) := by
  refine ⟨(read_activeContext _ t).trans h.activeContext, fun c => ?_⟩
  rw [read_lookup, h.entries]
  cases hs : a.sessionFor c with
  | none => rfl
  | some s => exact parseSession_raw s (h.token c s hs)

/-! ## Writing -/

/-- The store's records are fit to be written. -/
def Writable (a : AuthStore) : Prop :=
  ∀ c s, a.sessionFor c = some s → s.token ≠ [] ∧ 0 < s.expiresAt

theorem mirrors_persist (h : Writable a) : Mirrors a.persist := by
  have hsess := (persist_sessions a).1
  have hfor (c : JStr) : a.persist.sessionFor c = a.sessionFor c := by
    rw [AuthStore.sessionFor, hsess]
    rfl
  refine ⟨?_, fun c => ?_, fun c s hs => ?_, fun c s hs => ?_⟩
  · rw [(persist_sessions a).2]
    unfold AuthStore.persist
    split_ifs with hempty
    · simp only [Bool.and_eq_true, decide_eq_true_eq] at hempty
      exact hempty.1.symm
    · rfl
  · rw [hfor]
    unfold AuthStore.persist
    split_ifs with hempty
    · simp only [Bool.and_eq_true, decide_eq_true_eq] at hempty
      have hnone : a.sessionFor c = none := by
        rw [AuthStore.sessionFor, AList.lookup_eq_none, AList.mem_keys, hempty.2]
        exact List.not_mem_nil
      rw [hnone]
      rfl
    · show (List.toAList _).lookup c = _
      rw [AList.lookup_to_alist]
      exact @List.dlookup_map₂ JStr _ (fun _ => StoredSession) (fun _ => Option RawSession)
        a.sessions.entries (fun _ s => some s.toRaw) c
  · rw [hfor] at hs
    exact (h c s hs).1
  · rw [hfor] at hs
    exact (h c s hs).2

theorem Mirrors.writable (h : Mirrors a) : Writable a := by
  intro c s hs
  exact ⟨h.token c s hs, h.expiresAt c s hs⟩

theorem Mirrors.of_eq (h : Mirrors a) (hstorage : b.storage = a.storage)
    (hcontext : b.activeContext = a.activeContext) (hsessions : b.sessions = a.sessions) :
    Mirrors b := by
  have hfor (c : JStr) : b.sessionFor c = a.sessionFor c := by
    rw [AuthStore.sessionFor, hsessions]
    rfl
  constructor
  · rw [hstorage, hcontext]
    exact h.activeContext
  · intro c
    rw [hstorage, hfor]
    exact h.entries c
  · intro c s hs
    exact h.token c s (hfor c ▸ hs)
  · intro c s hs
    exact h.expiresAt c s (hfor c ▸ hs)

/-! ## The restore -/

theorem read_valid {storage : Storage} {t : ℕ} {c : JStr} {s : StoredSession}
    (h : (readStoredSessions t storage).2.1.lookup c = some s) :
    s.token ≠ [] ∧ t < s.expiresAt := by
  have hread := read_lookup storage t c
  rw [h, Option.map_some] at hread
  obtain ⟨v, -, hv⟩ := Option.bind_eq_some_iff.mp hread.symm
  obtain ⟨s', hp, hs'⟩ := Option.map_eq_some_iff.mp hv
  obtain ⟨-, htoken, hend⟩ := parseSession_toRaw hp
  have htok : s'.token = s.token := Option.some.inj (congrArg RawSession.token hs')
  have hexp : s'.expiresAt = s.expiresAt := Option.some.inj (congrArg RawSession.expiresAt hs')
  rw [htok] at htoken
  rw [hexp] at hend
  exact ⟨htoken, hend⟩

/-- A restore that drops nothing has found each entry of storage valid. -/
theorem read_clean {storage : Storage} {t : ℕ} (h : (readStoredSessions t storage).2.2.2 = false)
    {c : JStr} {v : Option RawSession} (hv : storage.entries.lookup c = some v) :
    (parseSession 0 t v).isSome := by
  cases storage with
  | absent => cases hv
  | corrupt => cases hv
  | stored raw => exact (readEntries_clean h).2 _ (List.of_mem_dlookup hv)

theorem restore_spec (storage : Storage) (now : ℕ) :
    Mirrors (.restore storage now) ∧ (AuthStore.restore storage now).now = now ∧
      ∀ c s, (AuthStore.restore storage now).sessionFor c = some s → now < s.expiresAt := by
  have hvalid := fun c s => @read_valid storage now c s
  have hclean := @read_clean storage now
  have hlookup := read_lookup storage now
  have hcontext := read_activeContext storage now
  unfold AuthStore.restore
  generalize readStoredSessions now storage = r at hvalid hclean hlookup hcontext ⊢
  obtain ⟨activeContext, sessions, records, dirty⟩ := r
  simp only at hvalid hclean hlookup hcontext ⊢
  split_ifs with hdirty
  · have hsess := (persist_sessions ⟨activeContext, sessions, false, storage, [], now, records, []⟩).1
    obtain ⟨storage', hstorage⟩ :=
      AuthStore.persist_eq ⟨activeContext, sessions, false, storage, [], now, records, []⟩
    refine ⟨mirrors_persist ?_, by rw [hstorage], fun c s hs => ?_⟩
    · intro c s hs
      obtain ⟨htoken, hend⟩ := hvalid c s hs
      exact ⟨htoken, Nat.zero_lt_of_lt hend⟩
    · rw [AuthStore.sessionFor, hsess] at hs
      exact (hvalid c s hs).2
  · refine ⟨⟨hcontext.symm, fun c => ?_, fun c s hs => (hvalid c s hs).1,
      fun c s hs => Nat.zero_lt_of_lt (hvalid c s hs).2⟩, rfl, fun c s hs => (hvalid c s hs).2⟩
    have hmap := hlookup c
    show storage.entries.lookup c = (sessions.lookup c).map fun s => some s.toRaw
    cases hv : storage.entries.lookup c with
    | none =>
      rw [hv, Option.bind_none, Option.map_eq_none_iff] at hmap
      rw [hmap]
      rfl
    | some v =>
      obtain ⟨s', hs'⟩ := Option.isSome_iff_exists.mp (hclean (Bool.eq_false_of_not_eq_true hdirty) hv)
      have hraw := (parseSession_toRaw hs').1
      rw [hv, Option.bind_some, hs', Option.map_some] at hmap
      obtain ⟨s, hs, heq⟩ := Option.map_eq_some_iff.mp hmap
      rw [hs, Option.map_some, heq, hraw]

/-! ## The operations -/

/-- The context whose record an operation is called for. -/
def AuthAction.named : AuthAction → Option JStr
  | .setSession context _ _ _ | .clearSession context => some context
  | _ => none

def AuthAction.prunes : AuthAction → Bool
  | .setActiveContext _ | .pruneExpiredSessions => true
  | _ => false

/-- What an operation may do to the sessions: change the record of the context it names,
and, where it prunes, drop the records past their TTL. The contexts it evicts are those it
leaves without the session they had, and the one that `clearSession` was called for. -/
structure Touches (a : AuthStore) (x : AuthAction) (b : AuthStore) : Prop where
  others : ∀ c, x.named ≠ some c → b.sessionFor c =
    if x.prunes then (a.sessionFor c).filter fun s => !s.isExpired a.now else a.sessionFor c
  evicts : ∃ l, b.evicted = a.evicted ++ l ∧ l.Nodup ∧
    (∀ c, (a.sessionFor c).isSome → b.sessionFor c = none → c ∈ l) ∧
    ∀ c ∈ l, b.sessionFor c = none ∧ ((a.sessionFor c).isSome ∨ x = .clearSession c)
  now_le : a.now ≤ b.now

theorem lookup_foldl_erase (names : List JStr) (m : Sessions) (c : JStr) :
    (names.foldl (fun next name => next.erase name) m).lookup c =
      if c ∈ names then none else m.lookup c := by
  induction names generalizing m with
  | nil => simp
  | cons name names ih =>
    rw [List.foldl_cons, ih]
    by_cases hc : c = name
    · subst hc
      simp
    · simp [hc]

theorem foldl_evict (names : List JStr) (a : AuthStore) :
    names.foldl AuthStore.evictContextCaches a = { a with evicted := a.evicted ++ names } := by
  induction names generalizing a with
  | nil => simp
  | cons name names ih => simp [ih, AuthStore.evictContextCaches]

theorem mem_expired (a : AuthStore) (c : JStr) :
    c ∈ a.expired ↔ (a.sessionFor c).any (·.isExpired a.now) = true := by
  unfold AuthStore.expired
  rw [List.mem_filter]
  constructor
  · exact fun h => h.2
  · intro h
    refine ⟨?_, h⟩
    obtain ⟨s, hs, -⟩ := (Option.any_eq_true _ _).mp h
    rw [← AList.mem_keys, ← AList.lookup_isSome]
    exact Option.isSome_iff_exists.mpr ⟨s, hs⟩

/-- `pruneExpiredSessions`: exactly the expired sessions go, and their contexts are evicted. -/
theorem pruneExpiredSessions_spec (a : AuthStore) :
    (∀ c, a.pruneExpiredSessions.sessionFor c =
      (a.sessionFor c).filter fun s => !s.isExpired a.now) ∧
    a.pruneExpiredSessions.evicted = a.evicted ++ a.expired ∧
    a.pruneExpiredSessions.now = a.now ∧
    (Mirrors a → Mirrors a.pruneExpiredSessions) := by
  have hfilter (c : JStr) : (if c ∈ a.expired then none else a.sessionFor c) =
      (a.sessionFor c).filter fun s => !s.isExpired a.now := by
    simp only [mem_expired]
    cases a.sessionFor c with
    | none => rfl
    | some s => cases hs : s.isExpired a.now <;> simp [Option.filter, hs]
  unfold AuthStore.pruneExpiredSessions
  split_ifs with hnone
  · refine ⟨fun c => ?_, by rw [hnone, List.append_nil], rfl, id⟩
    rw [← hfilter, hnone]
    rfl
  · rw [foldl_evict]
    obtain ⟨storage, hstorage⟩ :=
      (a.assign (a.expired.foldl (fun next name => next.erase name) a.sessions)).persist_eq
    have hlookup (c : JStr) :
        (a.expired.foldl (fun next name => next.erase name) a.sessions).lookup c =
          (a.sessionFor c).filter fun s => !s.isExpired a.now := by
      rw [lookup_foldl_erase]
      exact hfilter c
    refine ⟨fun c => ?_, by rw [hstorage]; rfl, by rw [hstorage]; rfl, fun hm => ?_⟩
    · rw [AuthStore.sessionFor, (persist_sessions _).1]
      exact hlookup c
    · refine Mirrors.of_eq (mirrors_persist ?_) rfl rfl rfl
      intro c s hs
      obtain ⟨hs, -⟩ := Option.filter_eq_some_iff.mp ((hlookup c).symm.trans hs)
      exact hm.writable c s hs

theorem expired_nodup (a : AuthStore) : a.expired.Nodup := a.sessions.keys_nodup.filter _

theorem touches_prune {x : AuthAction} (hx : x.prunes = true)
    (hb : ∀ c, b.sessionFor c = (a.sessionFor c).filter fun s => !s.isExpired a.now)
    (hevicted : b.evicted = a.evicted ++ a.expired) (hnow : b.now = a.now) : Touches a x b := by
  refine ⟨fun c _ => ?_, ⟨a.expired, hevicted, expired_nodup a, fun c hc hnone => ?_,
    fun c hc => ?_⟩, hnow.ge⟩
  · rw [hb, if_pos hx]
  · rw [mem_expired]
    obtain ⟨s, hs⟩ := Option.isSome_iff_exists.mp hc
    rw [hb, hs] at hnone
    simpa [hs, Option.filter] using hnone
  · obtain ⟨s, hs, hend⟩ := (Option.any_eq_true _ _).mp ((mem_expired a c).mp hc)
    refine ⟨?_, .inl (by rw [hs]; rfl)⟩
    rw [hb, hs]
    simpa [Option.filter] using hend

theorem setSession_spec (a : AuthStore) (context newToken : JStr)
    (newIdentity : Option Identity) (unavailable : Bool) :
    Touches a (.setSession context newToken newIdentity unavailable)
      (a.setSession context newToken newIdentity unavailable) ∧
    (newToken ≠ [] → Mirrors a → Mirrors (a.setSession context newToken newIdentity unavailable)) := by
  unfold AuthStore.setSession
  set session : StoredSession :=
    ⟨a.records.length, newToken, newIdentity, unavailable, a.now + sessionTtlMs⟩ with hsession
  set next : AuthStore := { a.assign (a.sessions.insert context session) with
    activeContext := context, records := a.records ++ [context] } with hnext
  obtain ⟨storage, hstorage⟩ := next.persist_eq
  have hlookup (c : JStr) :
      next.persist.sessionFor c = (a.sessions.insert context session).lookup c := by
    rw [AuthStore.sessionFor, (persist_sessions _).1]
    rfl
  have hkeeps (c : JStr) (hc : c ≠ context) : next.persist.sessionFor c = a.sessionFor c := by
    rw [hlookup, AList.lookup_insert_ne hc]
    rfl
  have hnew : next.persist.sessionFor context = some session := by
    rw [hlookup, AList.lookup_insert]
  refine ⟨⟨fun c hc => ?_, ⟨[], ?_, List.nodup_nil, fun c hc hnone => ?_, ?_⟩, ?_⟩, fun ht hm => ?_⟩
  · exact hkeeps c fun h => hc (congrArg some h.symm)
  · rw [hstorage, List.append_nil]
    rfl
  · by_cases hcc : c = context
    · rw [hcc, hnew] at hnone
      cases hnone
    · rw [hkeeps c hcc] at hnone
      rw [hnone] at hc
      cases hc
  · intro c hc
    cases hc
  · rw [hstorage]
    exact le_rfl
  · apply mirrors_persist
    intro c s hs
    by_cases hcc : c = context
    · subst hcc
      have heq : session = s := Option.some.inj ((AList.lookup_insert _).symm.trans hs)
      rw [← heq]
      exact ⟨ht, Nat.add_pos_right _ (by decide)⟩
    · exact hm.writable c s ((AList.lookup_insert_ne hcc).symm.trans hs)

theorem touches_clearSession (a : AuthStore) (context : JStr) :
    Touches a (.clearSession context) (a.clearSession context) ∧
    (Mirrors a → Mirrors (a.clearSession context)) := by
  obtain ⟨hends, hgone⟩ := clearSession_spec a context
  have hevicted : (a.clearSession context).evicted = a.evicted ++ [context] ∧
      (a.clearSession context).now = a.now := by
    unfold AuthStore.clearSession
    split_ifs
    · obtain ⟨storage, hstorage⟩ := (a.assign (a.sessions.erase context)).persist_eq
      rw [hstorage]
      exact ⟨rfl, rfl⟩
    · exact ⟨rfl, rfl⟩
  refine ⟨⟨fun c hc => ?_, ⟨[context], hevicted.1, List.nodup_singleton _, fun c hc hnone => ?_,
    fun c hc => ?_⟩, hevicted.2.ge⟩, fun hm => ?_⟩
  · exact hends.others c fun h => hc (congrArg some h.symm)
  · rw [List.mem_singleton]
    by_contra hcc
    rw [hends.others c hcc] at hnone
    rw [hnone] at hc
    cases hc
  · rw [List.mem_singleton.mp hc]
    exact ⟨hgone, .inr rfl⟩
  · unfold AuthStore.clearSession
    split_ifs
    · refine Mirrors.of_eq (mirrors_persist ?_) rfl rfl rfl
      intro c s hs
      by_cases hcc : c = context
      · have hnone : (a.assign (a.sessions.erase context)).sessionFor c = none := by
          rw [hcc]
          exact AList.lookup_erase _ _
        rw [hnone] at hs
        cases hs
      · exact hm.writable c s ((AList.lookup_erase_ne hcc).symm.trans hs)
    · exact hm.of_eq rfl rfl rfl

theorem setActiveContext_spec (a : AuthStore) (name : JStr) :
    (∀ c, (a.setActiveContext name).sessionFor c =
      (a.sessionFor c).filter fun s => !s.isExpired a.now) ∧
    (a.setActiveContext name).evicted = a.evicted ++ a.expired ∧
    (a.setActiveContext name).now = a.now ∧ (Mirrors a → Mirrors (a.setActiveContext name)) := by
  obtain ⟨hfor, hevicted, hnow, hmirrors⟩ := pruneExpiredSessions_spec a
  unfold AuthStore.setActiveContext
  obtain ⟨storage, hstorage⟩ :=
    AuthStore.persist_eq { a.pruneExpiredSessions with activeContext := name }
  refine ⟨fun c => ?_, by rw [hstorage]; exact hevicted, by rw [hstorage]; exact hnow, fun hm => ?_⟩
  · rw [hstorage]
    exact hfor c
  · apply mirrors_persist
    exact (hmirrors hm).writable

/-- One operation: it touches no other record than it may, and storage keeps up with it. -/
theorem act_spec (a : AuthStore) (x : AuthAction) :
    Touches a x (a.act x) ∧ (LogsIn a x → Mirrors a → Mirrors (a.act x)) := by
  cases x with
  | setSession context newToken newIdentity unavailable =>
    exact setSession_spec a context newToken newIdentity unavailable
  | setActiveContext name =>
    obtain ⟨hfor, hevicted, hnow, hmirrors⟩ := setActiveContext_spec a name
    exact ⟨touches_prune rfl hfor hevicted hnow, fun _ => hmirrors⟩
  | clearSession context =>
    obtain ⟨htouches, hmirrors⟩ := touches_clearSession a context
    exact ⟨htouches, fun _ => hmirrors⟩
  | pruneExpiredSessions =>
    obtain ⟨hfor, hevicted, hnow, hmirrors⟩ := pruneExpiredSessions_spec a
    exact ⟨touches_prune rfl hfor hevicted hnow, fun _ => hmirrors⟩
  | clock ms =>
    refine ⟨⟨fun c _ => rfl, ⟨[], (List.append_nil _).symm, List.nodup_nil, fun c hc hnone => ?_, nofun⟩,
      Nat.le_add_right _ _⟩, fun _ hm => hm.of_eq rfl rfl rfl⟩
    rw [show a.sessionFor c = none from hnone] at hc
    cases hc

/-! ## Runs -/

variable {storage : Storage} {now : ℕ}

theorem mirrors_reach (ha : (authStore storage now).Reach LogsIn a) : Mirrors a := by
  refine ha.invariant ?_ ?_
  · rintro a rfl
    exact (restore_spec storage now).1
  · intro a x b hm hx hb
    cases hb
    exact (act_spec a x).2 hx hm

/-- Storage holds no token past its end. -/
def Scrubbed (a : AuthStore) : Prop :=
  ∀ c v, a.storage.entries.lookup c = some v →
    ∃ s : StoredSession, v = some s.toRaw ∧ a.now < s.expiresAt

theorem Mirrors.scrubbed (h : Mirrors a)
    (hvalid : ∀ c s, a.sessionFor c = some s → a.now < s.expiresAt) : Scrubbed a := by
  intro c v hv
  rw [h.entries] at hv
  obtain ⟨s, hs, rfl⟩ := Option.map_eq_some_iff.mp hv
  exact ⟨s, rfl, hvalid c s hs⟩

theorem Mirrors.scrubbed_prune {x : AuthAction} (h : Mirrors a) (hx : x.prunes = true)
    (hm : Mirrors (a.act x)) : Scrubbed (a.act x) := by
  refine hm.scrubbed fun c s hs => ?_
  have hnow : (a.act x).now = a.now := by
    cases x with
    | setActiveContext name => exact (setActiveContext_spec a name).2.2.1
    | pruneExpiredSessions => exact (pruneExpiredSessions_spec a).2.2.1
    | _ => cases hx
  have hnamed : x.named ≠ some c := by
    cases x with
    | setActiveContext name => exact nofun
    | pruneExpiredSessions => exact nofun
    | _ => cases hx
  rw [(act_spec a x).1.others c hnamed, if_pos hx] at hs
  obtain ⟨hs, hend⟩ := Option.filter_eq_some_iff.mp hs
  have hpos := h.expiresAt c s hs
  simp only [StoredSession.isExpired, Bool.not_eq_true', Bool.and_eq_false_iff,
    decide_eq_false_iff_not, not_lt, not_le] at hend
  rw [hnow]
  omega

/-- Logins to two clusters with the names of properties that every object inherits, eight
hours apart, and a sign-out. -/
def inheritedNames : List AuthAction :=
  [.setSession (js "__proto__") (js "t1") none false, .clock sessionTtlMs,
    .setSession (js "constructor") (js "t2") none false, .clearSession (js "toString")]

/-- The store after them. -/
def inherited : AuthStore := inheritedNames.foldl .act (.restore .absent 0)

end KubeConsole.Web
