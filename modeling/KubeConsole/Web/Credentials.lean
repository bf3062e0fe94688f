import KubeConsole.Web.Transports

/-!
Whose token a request carries: that of a session of the cluster it is addressed to, if
and only if the active context did not change between the two reads of the store.
-/
namespace KubeConsole.Web
open KubeConsole.Theory

/-- The call holds a token that it is going to send. -/
def TokenRead.Carries (read : TokenRead) : Prop := read.token ≠ none ∧ read.token ≠ some []

/-- A message that carries the session's token and a context carries the token of a session
stored under this context at some moment of the call, and of no other cluster's session. -/
def Sent.Matched (r : Sent) : Prop :=
  r.callerContext = false → ∀ read context, r.read = some read → r.context = some context →
    (∃ m ∈ r.moments, ∃ session, m.lookup context = some session ∧
      read.token = some session.token) ∧
    ∀ m ∈ r.moments, ∀ session other, read.session = some session →
      m.lookup other = some session → other = context

/-- Where a call sends a token it has read, it sends it with the context that was active
when the token was read. -/
def SendsInContext (s : Console) : Call → CallEvent → Prop
  | .fetchToken opts read, .run => opts.kubeContext = none → read.Carries →
    ∀ context, s.getContext = some context → context = read.context
  | .socket _ _ (some read) context false, .socketOpen => read.Carries →
    ∀ c, context = some c → c = read.context
  | _, _ => True

/-- The condition on a step of the tab. -/
def OneContext (p : Pool Console Call) : PoolAction CallStart CallEvent → Prop
  | .spawn _ => True
  | .act i e => ∀ c ∈ p.threads[i]?, SendsInContext p.shared c e

/-- What an operation does: to the store, and to what is sent. -/
inductive CallStep (s : Console) : Call → CallEvent → Console → Call → Prop where
  | page {e} {s' : Console} (ha : s.auth.Leads s'.auth) (hs : s'.sent = s.sent) : CallStep s .page e s' .page
  | ends {c : Call} {e : CallEvent} {s' : Console} (hc : ∀ opts read, c ≠ .fetchToken opts read) (he : e ≠ .socketOpen)
      (ha : s.auth.Leads s'.auth) (hs : s'.sent = s.sent) : CallStep s c e s' .returned
  | fetchRead {opts} :
      CallStep s (.fetch opts) .run s.getBearerToken.1 (.fetchToken opts s.getBearerToken.2)
  | execRead {inst myGen} {s₀ : Console} (ha : s₀.auth = s.auth) (hs : s₀.sent = s.sent) :
      CallStep s (.exec inst) .run s₀.getBearerToken.1 (.execToken inst myGen s₀.getBearerToken.2)
  | sendPlain {opts} : CallStep s (.fetch opts) .run (s.send opts none).1 (s.send opts none).2
  | send {opts read} : CallStep s (.fetchToken opts read) .run (s.send opts (some read)).1
      (s.send opts (some read)).2
  | refused {opts request context e} {s' : Console} (ha : s.auth.Leads s'.auth) (hs : s'.sent = s.sent) :
      CallStep s (.fetchSent opts request context) e s' (.fetchLogout request context)
  | connect {c : Call} {inst ws context} {read : Option TokenRead} {s' : Console}
      (hc : ∀ r ∈ read, ∃ myGen, c = .execToken inst myGen r)
      (hc' : ∀ opts read, c ≠ .fetchToken opts read)
      (ha : s'.auth = s.auth) (hs : s'.sent = s.sent) :
      CallStep s c .run s' (.socket inst ws read context false)
  | authFrame {inst ws read context} : CallStep s (.socket inst ws read context false) .socketOpen
      (s.sendAuthFrame read context) (.socket inst ws read context true)
  | socket {inst ws read context opened} {e : CallEvent} {s' : Console} (he : e ≠ .socketOpen) (hr : e ≠ .run)
      (ha : s'.auth = s.auth) (hs : s'.sent = s.sent) :
      CallStep s (.socket inst ws read context opened) e s' (.socket inst ws read context opened)

variable {s s' : Console} {c c' d : Call} {e : CallEvent}

theorem leads_logout (context : JStr) : s.auth.Leads (s.logout context).auth := by
  unfold Console.logout
  split_ifs
  · exact .refl _
  · exact AuthStore.leads_clearSession _ _

theorem leads_onUnauthorized (context : JStr) : s.auth.Leads (s.onUnauthorized context).auth := by
  unfold Console.onUnauthorized
  split_ifs
  · exact .refl _
  · simp only
    split_ifs
    · exact AuthStore.leads_clearSession _ _
    · exact AuthStore.leads_clearSession _ _

theorem leads_onUnknownContext (context : JStr) (knownDefault : Option JStr) :
    s.auth.Leads (s.onUnknownContext context knownDefault).auth := by
  unfold Console.onUnknownContext
  split_ifs
  · exact .refl _
  · simp only
    split_ifs
    · exact (AuthStore.leads_clearSession _ _).trans (AuthStore.leads_setActiveContext _ _)
    · exact (AuthStore.leads_clearSession _ _).trans (AuthStore.leads_setActiveContext _ _)

theorem logout_sent (context : JStr) : (s.logout context).sent = s.sent := by
  unfold Console.logout
  split_ifs <;> rfl

theorem onUnauthorized_sent (context : JStr) : (s.onUnauthorized context).sent = s.sent := by
  unfold Console.onUnauthorized
  split_ifs
  · rfl
  · simp only
    split_ifs <;> rfl

theorem onUnknownContext_sent (context : JStr) (knownDefault : Option JStr) :
    (s.onUnknownContext context knownDefault).sent = s.sent := by
  unfold Console.onUnknownContext
  split_ifs
  · rfl
  · simp only
    split_ifs <;> rfl

theorem CallStep.of_eq {r : Console × Call} (hr : CallStep s c e r.1 r.2)
    (h : some r = some (s', c')) : CallStep s c e s' c' := by
  obtain rfl := Option.some.inj h
  exact hr

theorem connect_step {s₀ : Console} {inst myGen : ℕ} {read : Option TokenRead}
    (ha : s₀.auth = s.auth) (hs : s₀.sent = s.sent)
    (hc : ∀ r ∈ read, ∃ myGen, c = .execToken inst myGen r)
    (hc' : ∀ opts read, c ≠ .fetchToken opts read) :
    CallStep s c .run (s₀.connect inst myGen read).1 (s₀.connect inst myGen read).2 := by
  have hleads : s.auth.Leads s₀.auth := ha ▸ .refl _
  unfold Console.connect
  simp only
  split_ifs
  · exact .ends hc' nofun hleads hs
  · exact .ends hc' nofun hleads hs
  · exact .connect hc hc' ha hs

/-- The inversion lemma of the transports' operations. -/
theorem call_op_step (h : s.op c e = some (s', c')) : CallStep s c e s' c' := by
  have hprune : s.auth.Leads s.auth.pruneExpiredSessions := AuthStore.leads_pruneExpiredSessions _
  unfold Console.op at h
  split at h
  case h_1 => cases h; exact .page (AuthStore.leads_setSession _ _ _ _ _) rfl
  case h_2 => cases h; exact .page (AuthStore.leads_setActiveContext _ _) rfl
  case h_3 => cases h; exact .page (AuthStore.leads_clearSession _ _) rfl
  case h_4 => cases h; exact .page hprune rfl
  case h_5 => cases h; exact .page (AuthStore.leads_of_eq rfl rfl rfl) rfl
  case h_6 => cases h; exact .page (.refl _) rfl
  case h_7 => cases h; exact .page (AuthStore.leads_of_eq rfl rfl rfl) rfl
  case h_8 => cases h; exact .page (.refl _) rfl
  case h_9 =>
    split at h
    · exact CallStep.fetchRead.of_eq h
    · exact CallStep.sendPlain.of_eq h
  case h_10 => exact CallStep.send.of_eq h
  case h_11 => cases h; exact .ends nofun nofun (.refl _) rfl
  case h_12 => cases h; exact .ends nofun nofun (.refl _) rfl
  case h_13 opts request context status message knownDefault =>
    split at h
    · cases h
      split_ifs
      · exact .refused (leads_logout _) (logout_sent _)
      · exact .refused (.refl _) rfl
    · split at h <;> cases h
      · exact .ends nofun nofun (leads_onUnknownContext _ _) (onUnknownContext_sent _ _)
      · exact .ends nofun nofun (.refl _) rfl
  case h_14 => cases h; exact .ends nofun nofun (leads_onUnauthorized _) (onUnauthorized_sent _)
  case h_15 inst =>
    simp only at h
    split at h
    · refine CallStep.of_eq (r := (_, _)) ?_ h
      exact .execRead rfl rfl
    · refine CallStep.of_eq ?_ h
      exact connect_step rfl rfl (fun _ hr => absurd hr (Option.not_mem_none _))
        fun _ _ hc => by cases hc
  case h_16 inst myGen read =>
    refine (connect_step rfl rfl ?_ fun _ _ hc => by cases hc).of_eq h
    rintro r ⟨⟩
    exact ⟨myGen, rfl⟩
  case h_17 =>
    split at h <;> cases h
    exact .authFrame
  case h_18 =>
    split at h <;> cases h
    exact .socket nofun nofun rfl rfl
  case h_19 =>
    split at h <;> cases h
    exact .ends nofun nofun (.refl _) rfl
  case h_20 =>
    split at h <;> cases h
    split_ifs
    · exact .socket nofun nofun rfl rfl
    · exact .socket nofun nofun rfl rfl
  case h_21 => cases h

/-! What a call knows of the token it holds. -/

/-- The token is that of a session stored under the context that was active then. -/
structure TokenRead.Ok (a : AuthStore) (read : TokenRead) : Prop where
  began_le : read.began ≤ a.history.length
  token : read.token = read.session.map (·.token)
  stored : ∀ session, read.session = some session →
    ∃ m ∈ a.moments read.began, m.lookup read.context = some session

theorem TokenRead.Ok.leads {a b : AuthStore} {read : TokenRead} (h : read.Ok a) (hab : a.Leads b) :
    read.Ok b where
  began_le := h.began_le.trans hab.length_le
  token := h.token
  stored session hs := by
    obtain ⟨m, hm, hl⟩ := h.stored session hs
    exact ⟨m, hab.moments _ h.began_le hm, hl⟩

theorem getBearerToken_ok (s : Console) : s.getBearerToken.2.Ok s.getBearerToken.1.auth where
  began_le := (AuthStore.leads_pruneExpiredSessions s.auth).length_le
  token := rfl
  stored session hs := by
    refine ⟨_, List.mem_append_right _ (List.mem_singleton_self _), ?_⟩
    have hrec : s.auth.pruneExpiredSessions.tokenRecord = some session := hs
    unfold AuthStore.tokenRecord at hrec
    split_ifs at hrec
    exact hrec

/-- The token a call holds. -/
def Call.read : Call → Option TokenRead
  | .fetchToken _ read | .execToken _ _ read => some read
  | .socket _ _ read _ _ => read
  | _ => none

theorem CallStep.leads (h : CallStep s c e s' c') : s.auth.Leads s'.auth := by
  cases h with
  | page ha _ => exact ha
  | ends _ _ ha _ => exact ha
  | refused ha _ => exact ha
  | fetchRead => exact AuthStore.leads_pruneExpiredSessions _
  | execRead ha _ =>
    have hp := AuthStore.leads_pruneExpiredSessions s.auth
    rw [← ha] at hp ⊢
    exact hp
  | sendPlain | send | authFrame => exact .refl _
  | connect _ _ ha _ => exact AuthStore.leads_of_eq (by rw [ha]) (by rw [ha]) (by rw [ha])
  | socket _ _ ha _ => exact AuthStore.leads_of_eq (by rw [ha]) (by rw [ha]) (by rw [ha])

theorem CallStep.read_ok (h : CallStep s c e s' c') (hc : ∀ read ∈ c.read, read.Ok s.auth) :
    ∀ read ∈ c'.read, read.Ok s'.auth := by
  have hl := h.leads
  cases h with
  | fetchRead =>
    rintro read ⟨⟩
    exact getBearerToken_ok s
  | execRead ha hs =>
    rintro read ⟨⟩
    exact getBearerToken_ok _
  | connect hread =>
    intro read hr
    obtain ⟨myGen, rfl⟩ := hread read hr
    exact (hc read rfl).leads hl
  | authFrame | socket => exact fun read hr => (hc read hr).leads hl
  | page | ends | refused | sendPlain | send => exact nofun

variable {storage : Storage} {now : ℕ} {p q : Pool Console Call}

theorem reads_ok (hp : (consoleTab storage now).Reachable p) :
    ∀ c ∈ p.threads, ∀ read ∈ c.read, read.Ok p.shared.auth := by
  refine Program.forall_threads_stable (I := fun s c => ∀ read ∈ c.read, read.Ok s.auth)
    ?_ ?_ ?_ ?_ hp
  · simp [Call.read]
  · intro s b
    cases b <;> exact nofun
  · intro s c e s' c' hc ho
    exact (call_op_step ho).read_ok hc
  · intro s c e s' c' d hd ho read hr
    exact (hd read hr).leads (call_op_step ho).leads

theorem recorded (hp : (consoleTab storage now).Reachable p) : p.shared.auth.Recorded := by
  refine Program.shared_invariant (I := fun _ _ => True) (J := fun s => s.auth.Recorded)
    (fun _ _ _ _ => trivial) (AuthStore.recorded_restore storage now) ?_ hp
  intro s c e s' c' _ hJ ho
  exact (call_op_step ho).leads.recorded hJ

/-! What is sent. -/

theorem moments_subset (a : AuthStore) (n : ℕ) : a.moments n ⊆ a.moments 0 := by
  intro m hm
  rcases List.mem_append.mp hm with hm | hm
  · exact List.mem_append_left _ (List.mem_of_mem_drop hm)
  · exact List.mem_append_right _ hm

theorem matched_iff {a : AuthStore} {read : TokenRead} {context : JStr} (hread : read.Ok a)
    (hrec : a.Recorded) (hcar : read.Carries) :
    (⟨some read, some context, false, a.moments read.began⟩ : Sent).Matched ↔
      context = read.context := by
  obtain ⟨session, hs⟩ : ∃ session, read.session = some session := by
    cases hs : read.session with
    | none => exact absurd (by rw [hread.token, hs]; rfl) hcar.1
    | some session => exact ⟨session, rfl⟩
  obtain ⟨m, hm, hl⟩ := hread.stored session hs
  constructor
  · intro h
    exact ((h rfl read context rfl rfl).2 m hm session read.context hs hl).symm
  · rintro rfl _ _ _ ⟨⟩ ⟨⟩
    refine ⟨⟨m, hm, session, hl, by rw [hread.token, hs]; rfl⟩, fun m' hm' session' other hs' hl' => ?_⟩
    obtain rfl := Option.some.inj (hs'.symm.trans hs)
    have hown := hrec m' (moments_subset a _ hm') other session' hl'
    have hown' := hrec m (moments_subset a _ hm) read.context session' hl
    exact Option.some.inj (hown.symm.trans hown')

theorem matched_of_read_none {r : Sent} (h : r.read = none) : r.Matched :=
  fun _ _ _ hr => absurd (h.symm.trans hr) (Option.some_ne_none _).symm

theorem carries_iff (read : TokenRead) :
    (read.token ≠ none && read.token ≠ some []) = true ↔ read.Carries := by
  simp [TokenRead.Carries]

/-- The message of a call that holds a token is matched if and only if the two contexts are. -/
theorem sent_matched_iff {a : AuthStore} {read : TokenRead} {context : Option JStr}
    {callerContext : Bool} (hread : read.Ok a) (hrec : a.Recorded) :
    (let r := (some read).filter fun r => r.token ≠ none && r.token ≠ some []
    (⟨r, context, callerContext, a.moments ((r.map (·.began)).getD a.history.length)⟩ :
      Sent).Matched) ↔
    (callerContext = false → read.Carries → ∀ c, context = some c → c = read.context) := by
  simp only [Option.filter_some]
  split_ifs with hcar
  · rw [carries_iff] at hcar
    cases context with
    | none => simp [Sent.Matched]
    | some context =>
      cases callerContext with
      | true => simp [Sent.Matched]
      | false => simpa [hcar] using matched_iff hread hrec hcar
  · rw [carries_iff] at hcar
    simp [Sent.Matched, hcar]

theorem sends_of_ne (hc : ∀ opts read, c ≠ .fetchToken opts read) (he : e ≠ .socketOpen) :
    SendsInContext s c e := by
  unfold SendsInContext
  split
  · exact absurd rfl (hc _ _)
  · exact absurd rfl he
  · trivial

/-- What a step sends is matched if and only if the step meets the condition. -/
theorem CallStep.sent (h : CallStep s c e s' c') (hread : ∀ read ∈ c.read, read.Ok s.auth)
    (hrec : s.auth.Recorded) :
    (∀ r ∈ s'.sent, r.Matched) ↔ (∀ r ∈ s.sent, r.Matched) ∧ SendsInContext s c e := by
  have hnew {r : Sent} {P : Prop} (hs : s'.sent = s.sent ++ [r]) (hr : r.Matched ↔ P) :
      (∀ r ∈ s'.sent, r.Matched) ↔ (∀ r ∈ s.sent, r.Matched) ∧ P := by
    rw [hs, ← hr]
    simp [or_imp, forall_and]
  have hsame (hs : s'.sent = s.sent) (hc : SendsInContext s c e) :
      (∀ r ∈ s'.sent, r.Matched) ↔ (∀ r ∈ s.sent, r.Matched) ∧ SendsInContext s c e := by
    rw [hs]
    exact (and_iff_left hc).symm
  cases h with
  | page _ hs => exact hsame hs (by cases e <;> trivial)
  | ends hc he _ hs => exact hsame hs (sends_of_ne hc he)
  | refused _ hs => exact hsame hs (by cases e <;> trivial)
  | fetchRead => exact hsame rfl trivial
  | execRead _ hs => exact hsame hs trivial
  | connect _ hc _ hs => exact hsame hs (sends_of_ne hc nofun)
  | socket he _ _ hs => exact hsame hs (sends_of_ne nofun he)
  | sendPlain => exact hnew rfl (iff_of_true (matched_of_read_none rfl) trivial)
  | @send opts read =>
    refine hnew rfl ((sent_matched_iff (hread read rfl) hrec).trans ?_)
    cases hk : opts.kubeContext with
    | none => simp [SendsInContext, hk]
    | some context => simp [SendsInContext, hk]
  | @authFrame inst ws read context =>
    cases read with
    | none => exact hnew rfl (iff_of_true (matched_of_read_none rfl) trivial)
    | some read =>
      refine hnew rfl ((sent_matched_iff (hread read rfl) hrec).trans ?_)
      simp [SendsInContext]

theorem matched_step (hp : (consoleTab storage now).Reachable p)
    {a : PoolAction CallStart CallEvent} (hq : (consoleTab storage now).step p a = some q) :
    (∀ r ∈ q.shared.sent, r.Matched) ↔ (∀ r ∈ p.shared.sent, r.Matched) ∧ OneContext p a := by
  cases a with
  | spawn b =>
    cases hq
    exact (and_iff_left trivial).symm
  | act i e =>
    obtain ⟨hi, s, c, ho, rfl⟩ := Program.act_eq_some hq
    have hsent := (call_op_step ho).sent (reads_ok hp _ (List.getElem_mem hi)) (recorded hp)
    refine hsent.trans (and_congr_right fun _ => ?_)
    simp [OneContext, List.getElem?_eq_getElem hi]

/-- Two logins, and a request that is sent while the cluster is switched back. -/
def switched : List (PoolAction CallStart CallEvent) :=
  [.act 0 (.setSession (js "a") (js "ta") none false),
    .act 0 (.setSession (js "b") (js "tb") none false), .spawn (.apiFetch {}), .act 1 .run,
    .act 0 (.setActiveContext (js "a")), .act 1 .run]

theorem switched_runs :
    ((consoleTab .absent 0).exec ⟨{ auth := .restore .absent 0 }, [.page]⟩ switched).isSome := by
  decide +kernel

theorem switched_sent :
    (((consoleTab .absent 0).exec ⟨{ auth := .restore .absent 0 }, [.page]⟩ switched).get
      switched_runs).shared.sent ≠ [] := by
  intro h
  have hlen := congrArg List.length h
  revert hlen
  decide +kernel

theorem switched_mismatch : ¬ (((consoleTab .absent 0).exec ⟨{ auth := .restore .absent 0 }, [.page]⟩
    switched).get switched_runs |>.shared.sent.head switched_sent).Matched := by
  intro h
  have hother := (h (by decide +kernel)
    ⟨some (js "tb"), some ⟨1, js "tb", none, false, sessionTtlMs⟩, js "b", 2⟩ (js "a")
    (by decide +kernel) (by decide +kernel)).2 _
    (List.mem_append_right _ (List.mem_singleton_self _)) _ (js "b") rfl (by decide +kernel)
  exact absurd hother (by decide)

end KubeConsole.Web
