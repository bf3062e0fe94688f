import KubeConsole.Web.Js

/-!
The auth store (`stores/auth.ts`): one session for each kubeconfig context, of which the
active context selects one, mirrored into the tab's session storage.

The operations are atomic; `KubeConsole.Web.Transports` interleaves them with the calls
that read the store.
-/
namespace KubeConsole.Web

structure Identity where
  username : JStr
  uid : Option JStr
  groups : Option (List JStr)
  deriving DecidableEq, Repr

/-- A session record. `id` tells the objects apart that the store creates. -/
structure StoredSession where
  id : ℕ
  token : JStr
  identity : Option Identity
  identityUnavailable : Bool
  expiresAt : ℕ
  deriving DecidableEq, Repr

abbrev Sessions := AList fun _ : JStr => StoredSession

/-- `SESSION_TTL_MS`. -/
def sessionTtlMs : ℕ := 8 * 60 * 60 * 1000

/-- An entry as it is found in storage: each field with its type checked, and none where
the entry is no object. -/
structure RawSession where
  token : Option JStr
  identity : Option Identity
  identityUnavailable : Bool
  expiresAt : Option ℕ
  deriving DecidableEq, Repr

structure RawSessions where
  activeContext : Option JStr
  sessions : Option (AList fun _ : JStr => Option RawSession)

/-- What session storage holds under the key. -/
inductive Storage where
  | absent
  /-- A text that is not the JSON of an object. -/
  | corrupt
  | stored (raw : RawSessions)

/-- `isSessionExpired`. -/
def StoredSession.isExpired (s : StoredSession) (now : ℕ) : Bool :=
  0 < s.expiresAt && s.expiresAt ≤ now

def parseSession (id now : ℕ) : Option RawSession → Option StoredSession
  | some ⟨some token, identity, identityUnavailable, some expiresAt⟩ =>
    if token = [] || expiresAt ≤ now then none
    else some { id, token, identity, identityUnavailable, expiresAt }
  | _ => none

/-- A record as it is written. -/
def StoredSession.toRaw (s : StoredSession) : RawSession :=
  ⟨some s.token, s.identity, s.identityUnavailable, some s.expiresAt⟩

/-- The store. From `records` on it keeps a record of its run that no operation reads: the
context each session record was created for, and the values `sessions` has had before. -/
structure AuthStore where
  activeContext : JStr
  sessions : Sessions
  localAuth : Bool := false
  storage : Storage
  /-- The contexts whose cached responses have been evicted. -/
  evicted : List JStr := []
  now : ℕ
  records : List JStr
  history : List Sessions := []

/-- `readStoredSessions`: the sessions that are restored, the contexts of their records,
and whether an entry was dropped. -/
def readEntries (now : ℕ) : List (Sigma fun _ : JStr => Option RawSession) →
    Sessions × List JStr × Bool → Sessions × List JStr × Bool
  | [], acc => acc
  | ⟨name, value⟩ :: entries, (sessions, records, dirty) =>
    match parseSession records.length now value with
    | some session => readEntries now entries (sessions.insert name session, records ++ [name], dirty)
    | none => readEntries now entries (sessions, records, true)

def readStoredSessions (now : ℕ) : Storage → JStr × Sessions × List JStr × Bool
  | .absent => ([], ∅, [], false)
  | .corrupt => ([], ∅, [], true)
  | .stored raw =>
    (raw.activeContext.getD [], readEntries now (raw.sessions.getD ∅).entries (∅, [], false))

namespace AuthStore

/-- `writeStoredSessions` of the current state. -/
def persist (a : AuthStore) : AuthStore :=
  if a.activeContext = [] && a.sessions.keys = [] then { a with storage := .absent }
  else
    let raw : List (Sigma fun _ : JStr => Option RawSession) :=
      a.sessions.entries.map fun e => ⟨e.1, some e.2.toRaw⟩
    { a with storage := .stored ⟨some a.activeContext, some raw.toAList⟩ }

/-- `sessions.value = next`. -/
def assign (a : AuthStore) (next : Sessions) : AuthStore :=
  { a with sessions := next, history := a.history ++ [a.sessions] }

/-- `sessionFor`, on the store's sessions. -/
def sessionFor (a : AuthStore) (context : JStr) : Option StoredSession := a.sessions.lookup context

/-- The session the getters resolve. -/
def active (a : AuthStore) : Option StoredSession := a.sessionFor a.activeContext

/-- The record whose token the store hands out. -/
def tokenRecord (a : AuthStore) : Option StoredSession := if a.localAuth then none else a.active

def token (a : AuthStore) : Option JStr := a.tokenRecord.map (·.token)

def hasSession (a : AuthStore) (context : JStr) : Bool :=
  a.localAuth || match a.sessionFor context with
    | none => false
    | some session => session.token ≠ [] && !session.isExpired a.now

def isAuthenticated (a : AuthStore) : Bool := a.hasSession a.activeContext

def evictContextCaches (a : AuthStore) (context : JStr) : AuthStore :=
  { a with evicted := a.evicted ++ [context] }

def setSession (a : AuthStore) (context newToken : JStr) (newIdentity : Option Identity)
    (unavailable : Bool) : AuthStore :=
  let session : StoredSession :=
    ⟨a.records.length, newToken, newIdentity, unavailable, a.now + sessionTtlMs⟩
  { a.assign (a.sessions.insert context session) with
    activeContext := context, records := a.records ++ [context] }.persist

def clearSession (a : AuthStore) (context : JStr) : AuthStore :=
  (if (a.sessionFor context).isSome then (a.assign (a.sessions.erase context)).persist
    else a).evictContextCaches context

/-- The contexts whose sessions are past their TTL. -/
def expired (a : AuthStore) : List JStr :=
  a.sessions.keys.filter fun name => (a.sessionFor name).any (·.isExpired a.now)

def pruneExpiredSessions (a : AuthStore) : AuthStore :=
  if a.expired = [] then a
  else a.expired.foldl evictContextCaches
    (a.assign (a.expired.foldl (fun next name => next.erase name) a.sessions)).persist

def setActiveContext (a : AuthStore) (name : JStr) : AuthStore :=
  { a.pruneExpiredSessions with activeContext := name }.persist

/-- `useAuthStore`, over what storage holds when the tab is opened. -/
def restore (storage : Storage) (now : ℕ) : AuthStore :=
  let (activeContext, sessions, records, dirty) := readStoredSessions now storage
  let a : AuthStore := { activeContext, sessions, storage, now, records }
  if dirty then a.persist else a

end AuthStore

/-! ## Whose record a session is -/

variable {a : AuthStore} {context : JStr}

/-- Each record of a map is stored under the context it was created for. -/
def Owned (records : List JStr) (m : Sessions) : Prop :=
  ∀ c s, m.lookup c = some s → records[s.id]? = some c

theorem Owned.append {records : List JStr} {m : Sessions} (h : Owned records m)
    (more : List JStr) : Owned (records ++ more) m := by
  intro c s hs
  have hget := h c s hs
  rw [List.getElem?_append_left (List.getElem?_eq_some_iff.mp hget).1]
  exact hget

theorem Owned.erase {records : List JStr} {m : Sessions} (h : Owned records m) (name : JStr) :
    Owned records (m.erase name) := by
  intro c s hs
  by_cases hc : c = name
  · subst hc
    rw [AList.lookup_erase] at hs
    cases hs
  · rw [AList.lookup_erase_ne hc] at hs
    exact h c s hs

theorem Owned.insert {records : List JStr} {m : Sessions} (h : Owned records m) (name : JStr)
    {session : StoredSession} (hid : session.id = records.length) :
    Owned (records ++ [name]) (m.insert name session) := by
  intro c s hs
  by_cases hc : c = name
  · subst hc
    rw [AList.lookup_insert, Option.some.injEq] at hs
    subst hs
    rw [hid, List.getElem?_append_right le_rfl, Nat.sub_self]
    rfl
  · rw [AList.lookup_insert_ne hc] at hs
    exact h.append [name] c s hs

theorem owned_empty (records : List JStr) : Owned records ∅ := by
  intro c s hs
  rw [AList.lookup_empty] at hs
  cases hs

theorem Owned.readEntries {now : ℕ} {entries : List (Sigma fun _ : JStr => Option RawSession)}
    {m : Sessions} {records : List JStr} {dirty : Bool} (h : Owned records m) :
    Owned (readEntries now entries (m, records, dirty)).2.1
      (readEntries now entries (m, records, dirty)).1 := by
  induction entries generalizing m records dirty with
  | nil => exact h
  | cons e entries ih =>
    obtain ⟨name, value⟩ := e
    unfold Web.readEntries
    cases hp : parseSession records.length now value with
    | none => exact ih h
    | some session =>
      refine ih (h.insert name ?_)
      unfold parseSession at hp
      split at hp
      · split_ifs at hp
        cases hp
        rfl
      · cases hp

namespace AuthStore

/-- The values `sessions` has had since its history had the given length. -/
def moments (a : AuthStore) (began : ℕ) : List Sessions := a.history.drop began ++ [a.sessions]

/-- At every moment the sessions were stored under their own contexts. -/
def Recorded (a : AuthStore) : Prop := ∀ m ∈ a.moments 0, Owned a.records m

/-- `b` comes later than `a`: nothing of the past is lost, and the bookkeeping stays right. -/
structure Leads (a b : AuthStore) : Prop where
  length_le : a.history.length ≤ b.history.length
  moments : ∀ n ≤ a.history.length, a.moments n ⊆ b.moments n
  recorded : a.Recorded → b.Recorded

variable {a b c : AuthStore}

theorem Leads.refl (a : AuthStore) : a.Leads a := ⟨le_rfl, fun _ _ => List.Subset.refl _, id⟩

theorem Leads.trans (h : a.Leads b) (h' : b.Leads c) : a.Leads c where
  length_le := h.length_le.trans h'.length_le
  moments n hn := List.Subset.trans (h.moments n hn) (h'.moments n (hn.trans h.length_le))
  recorded hr := h'.recorded (h.recorded hr)

theorem leads_of_eq (hs : b.sessions = a.sessions) (hh : b.history = a.history)
    (hr : b.records = a.records) : a.Leads b where
  length_le := by rw [hh]
  moments n _ := by rw [AuthStore.moments, AuthStore.moments, hs, hh]; exact List.Subset.refl _
  recorded h := by
    rw [Recorded, AuthStore.moments, hs, hh, hr]
    exact h

/-- A new value of `sessions`. -/
theorem leads_assign {more : List JStr} (hh : b.history = a.history ++ [a.sessions])
    (hr : b.records = a.records ++ more)
    (hs : Owned a.records a.sessions → Owned b.records b.sessions) : a.Leads b where
  length_le := by simp [hh]
  moments n hn := by
    rw [AuthStore.moments, AuthStore.moments, hh, List.drop_append_of_le_length hn]
    exact List.subset_append_left _ _
  recorded h := by
    intro m hm
    simp only [AuthStore.moments, List.drop_zero, hh, List.append_assoc, List.mem_append,
      List.mem_singleton] at hm
    have hold : ∀ m ∈ a.moments 0, Owned b.records m := fun m hm => by
      rw [hr]
      exact (h m hm).append more
    rcases hm with hm | rfl | rfl
    · exact hold m (List.mem_append_left _ hm)
    · exact hold _ (List.mem_append_right _ (List.mem_singleton_self _))
    · exact hs (h _ (List.mem_append_right _ (List.mem_singleton_self _)))

theorem persist_eq (a : AuthStore) : ∃ storage, a.persist = { a with storage } := by
  unfold persist
  split_ifs
  · exact ⟨_, rfl⟩
  · exact ⟨_, rfl⟩

theorem leads_persist (a : AuthStore) : a.Leads a.persist := by
  obtain ⟨storage, h⟩ := a.persist_eq
  rw [h]
  exact leads_of_eq rfl rfl rfl

theorem owned_foldl_erase {records names : List JStr} {m : Sessions} (h : Owned records m) :
    Owned records (names.foldl (fun next name => next.erase name) m) := by
  induction names generalizing m with
  | nil => exact h
  | cons name names ih => exact ih (h.erase name)

theorem leads_foldl_evict (names : List JStr) (a : AuthStore) :
    a.Leads (names.foldl evictContextCaches a) := by
  induction names generalizing a with
  | nil => exact Leads.refl a
  | cons name names ih =>
    have hstep : a.Leads (a.evictContextCaches name) := leads_of_eq rfl rfl rfl
    exact hstep.trans (ih _)

theorem leads_clearSession (a : AuthStore) (context : JStr) :
    a.Leads (a.clearSession context) := by
  unfold clearSession
  split_ifs
  · have hassign : a.Leads (a.assign (a.sessions.erase context)) :=
      leads_assign rfl (List.append_nil _).symm fun h => h.erase context
    exact (hassign.trans (leads_persist _)).trans (leads_of_eq rfl rfl rfl)
  · exact leads_of_eq rfl rfl rfl

theorem leads_pruneExpiredSessions (a : AuthStore) : a.Leads a.pruneExpiredSessions := by
  unfold pruneExpiredSessions
  split_ifs
  · exact Leads.refl a
  · have hassign : a.Leads (a.assign (a.expired.foldl (fun next name => next.erase name) a.sessions)) :=
      leads_assign rfl (List.append_nil _).symm owned_foldl_erase
    exact (hassign.trans (leads_persist _)).trans (leads_foldl_evict _ _)

theorem leads_setActiveContext (a : AuthStore) (name : JStr) :
    a.Leads (a.setActiveContext name) := by
  have hname : a.pruneExpiredSessions.Leads { a.pruneExpiredSessions with activeContext := name } :=
    leads_of_eq rfl rfl rfl
  exact (a.leads_pruneExpiredSessions.trans hname).trans (leads_persist _)

theorem leads_setSession (a : AuthStore) (context newToken : JStr)
    (newIdentity : Option Identity) (unavailable : Bool) :
    a.Leads (a.setSession context newToken newIdentity unavailable) := by
  refine Leads.trans ?_ (leads_persist _)
  exact leads_assign rfl rfl fun h => h.insert context rfl

theorem recorded_restore (storage : Storage) (now : ℕ) : (restore storage now).Recorded := by
  have howned : Owned (readStoredSessions now storage).2.2.1 (readStoredSessions now storage).2.1 := by
    unfold readStoredSessions
    split
    · exact owned_empty _
    · exact owned_empty _
    · exact (owned_empty _).readEntries
  have hfresh : ∀ a : AuthStore, a.history = [] → Owned a.records a.sessions → a.Recorded := by
    intro a hh ho m hm
    rw [moments, hh] at hm
    rw [List.mem_singleton.mp hm]
    exact ho
  unfold restore
  generalize readStoredSessions now storage = r at howned ⊢
  obtain ⟨activeContext, sessions, records, dirty⟩ := r
  simp only
  split_ifs
  · exact (leads_persist _).recorded (hfresh _ rfl howned)
  · exact hfresh _ rfl howned

end AuthStore
end KubeConsole.Web
