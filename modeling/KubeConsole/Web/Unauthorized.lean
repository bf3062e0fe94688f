import KubeConsole.Web.Credentials

/-!
What a 401 ends: the session stored, when its handlers run, under the context the request
was sent to, whichever session the request was authenticated with.
-/
namespace KubeConsole.Web
open KubeConsole.Theory

/-- The call has sent this request, to this context. -/
def Call.request : Call → Option (ℕ × JStr)
  | .fetchSent _ request context | .fetchLogout request context => some (request, context)
  | _ => none

/-- The step by which a call handles the 401 of its request: `provider.logout`, and after
the await the unauthorized handler. -/
def Handles401 (c : Call) (e : CallEvent) (context : JStr) : Prop :=
  (∃ opts request message knownDefault, c = .fetchSent opts request context ∧
    e = .failed 401 message knownDefault) ∨ ∃ request, c = .fetchLogout request context

/-- Of the sessions only that of one context has been touched, if any. -/
structure EndsAtMost (a b : AuthStore) (context : JStr) : Prop where
  others : ∀ c, c ≠ context → b.sessionFor c = a.sessionFor c
  own : b.sessionFor context = a.sessionFor context ∨ b.sessionFor context = none
  activeContext : b.activeContext = a.activeContext

namespace EndsAtMost
variable {a b c : AuthStore} {context : JStr}

theorem refl (a : AuthStore) (context : JStr) : EndsAtMost a a context :=
  ⟨fun _ _ => rfl, .inl rfl, rfl⟩

theorem of_eq (hs : b.sessions = a.sessions) (hc : b.activeContext = a.activeContext) :
    EndsAtMost a b context where
  others c _ := by rw [AuthStore.sessionFor, AuthStore.sessionFor, hs]
  own := .inl (by rw [AuthStore.sessionFor, AuthStore.sessionFor, hs])
  activeContext := hc

theorem trans (h : EndsAtMost a b context) (h' : EndsAtMost b c context) :
    EndsAtMost a c context where
  others d hd := (h'.others d hd).trans (h.others d hd)
  own := by
    rcases h'.own with heq | hnone
    · rw [heq]
      exact h.own
    · exact .inr hnone
  activeContext := h'.activeContext.trans h.activeContext

end EndsAtMost

theorem persist_sessions (a : AuthStore) :
    a.persist.sessions = a.sessions ∧ a.persist.activeContext = a.activeContext := by
  obtain ⟨storage, h⟩ := a.persist_eq
  rw [h]
  exact ⟨rfl, rfl⟩

/-- `clearSession`: after it the context has no session, and the others have theirs. -/
theorem clearSession_spec (a : AuthStore) (context : JStr) :
    EndsAtMost a (a.clearSession context) context ∧
      (a.clearSession context).sessionFor context = none := by
  unfold AuthStore.clearSession
  split_ifs with h
  · have hs : ((a.assign (a.sessions.erase context)).persist.evictContextCaches context).sessions =
        a.sessions.erase context := (persist_sessions _).1
    have hgone : ((a.assign (a.sessions.erase context)).persist.evictContextCaches
        context).sessionFor context = none := by
      rw [AuthStore.sessionFor, hs, AList.lookup_erase]
    refine ⟨⟨fun c hc => ?_, .inr hgone, (persist_sessions _).2⟩, hgone⟩
    rw [AuthStore.sessionFor, hs, AList.lookup_erase_ne hc]
    rfl
  · rw [Option.not_isSome_iff_eq_none] at h
    exact ⟨.of_eq rfl rfl, h⟩

variable {s s' : Console} {c c' : Call} {e : CallEvent} {context : JStr}

theorem logout_spec (s : Console) (context : JStr) :
    EndsAtMost s.auth (s.logout context).auth context ∧ (s.logout context).logins = s.logins := by
  unfold Console.logout
  split_ifs
  · exact ⟨.refl _ _, rfl⟩
  · exact ⟨(clearSession_spec _ _).1, rfl⟩

theorem onUnauthorized_spec (s : Console) (context : JStr) :
    EndsAtMost s.auth (s.onUnauthorized context).auth context ∧
      ((s.onUnauthorized context).logins = s.logins ∨
        (s.onUnauthorized context).logins = s.logins + 1 ∧ s.auth.activeContext = context ∧
          (s.onUnauthorized context).auth.sessionFor context = none) := by
  obtain ⟨hends, hgone⟩ := clearSession_spec s.auth context
  unfold Console.onUnauthorized
  split_ifs
  · exact ⟨.refl _ _, .inl rfl⟩
  · simp only
    split_ifs with hactive
    · exact ⟨hends, .inr ⟨rfl, (hactive.trans hends.activeContext).symm, hgone⟩⟩
    · exact ⟨hends, .inl rfl⟩

theorem handles401_step (h : s.op c e = some (s', c')) (h401 : Handles401 c e context) :
    EndsAtMost s.auth s'.auth context ∧ (s'.logins = s.logins ∨
      s'.logins = s.logins + 1 ∧ s.auth.activeContext = context ∧
        s'.auth.sessionFor context = none) := by
  rcases h401 with ⟨opts, request, message, knownDefault, rfl, rfl⟩ | ⟨request, rfl⟩
  · unfold Console.op at h
    simp only at h
    split at h
    · cases h
      split_ifs
      · exact ⟨(logout_spec s context).1, .inl (logout_spec s context).2⟩
      · exact ⟨.refl _ _, .inl rfl⟩
    · split at h
      next h400 => simp at h400
      next =>
        cases h
        exact ⟨.refl _ _, .inl rfl⟩
  · cases e with
    | run =>
      cases h
      exact onUnauthorized_spec s context
    | _ => cases h

/-- The context a call handles its response for is the one its request carried. -/
theorem CallStep.request (h : CallStep s c e s' c')
    (hc : ∀ n context, c.request = some (n, context) →
      ∃ r, s.sent[n]? = some r ∧ r.context.getD [] = context) :
    ∀ n context, c'.request = some (n, context) →
      ∃ r, s'.sent[n]? = some r ∧ r.context.getD [] = context := by
  cases h with
  | sendPlain | send =>
    rintro n context ⟨⟩
    exact ⟨_, List.getElem?_concat_length, rfl⟩
  | refused _ hs =>
    rintro n context ⟨⟩
    rw [hs]
    exact hc _ _ rfl
  | page | ends | fetchRead | execRead | connect | authFrame | socket => exact nofun

theorem CallStep.sent_grows (h : CallStep s c e s' c') : s.sent <+: s'.sent := by
  cases h with
  | page _ hs => rw [hs]
  | ends _ _ _ hs => rw [hs]
  | refused _ hs => rw [hs]
  | execRead _ hs => rw [← hs]; exact List.prefix_rfl
  | connect _ _ _ hs => rw [hs]
  | socket _ _ _ hs => rw [hs]
  | fetchRead => exact List.prefix_rfl
  | sendPlain | send | authFrame => exact List.prefix_append _ _

variable {storage : Storage} {now : ℕ} {p q : Pool Console Call}

theorem requests_ok (hp : (consoleTab storage now).Reachable p) :
    ∀ c ∈ p.threads, ∀ n context, c.request = some (n, context) →
      ∃ r, p.shared.sent[n]? = some r ∧ r.context.getD [] = context := by
  refine Program.forall_threads_stable (I := fun s c => ∀ n context, c.request = some (n, context) →
    ∃ r, s.sent[n]? = some r ∧ r.context.getD [] = context) ?_ ?_ ?_ ?_ hp
  · simp [Call.request]
  · intro s b
    cases b <;> exact nofun
  · intro s c e s' c' hc ho
    exact (call_op_step ho).request hc
  · intro s c e s' c' d hd ho n context hr
    obtain ⟨r, hget, hctx⟩ := hd n context hr
    obtain ⟨more, hmore⟩ := (call_op_step ho).sent_grows
    refine ⟨r, ?_, hctx⟩
    rw [← hmore, List.getElem?_append_left (List.getElem?_eq_some_iff.mp hget).1]
    exact hget

/-- Whenever a call handles the 401 of its request, late as it may be: at most the session
stored under the context the request was sent to ends, and the login page comes up only if
this context is still active and has no session any more. -/
theorem unauthorized_ends_own_context (hp : (consoleTab storage now).Reachable p) {i : ℕ}
    (hi : p.threads[i]? = some c) (h401 : Handles401 c e context)
    (hq : (consoleTab storage now).step p (.act i e) = some q) :
    (∃ n r, c.request = some (n, context) ∧ p.shared.sent[n]? = some r ∧
      r.context.getD [] = context) ∧
    EndsAtMost p.shared.auth q.shared.auth context ∧
    (q.shared.logins = p.shared.logins ∨
      q.shared.logins = p.shared.logins + 1 ∧ p.shared.auth.activeContext = context ∧
        q.shared.auth.sessionFor context = none) := by
  obtain ⟨hlt, s, c', ho, rfl⟩ := Program.act_eq_some hq
  obtain rfl := Option.some.inj ((List.getElem?_eq_getElem hlt).symm.trans hi)
  refine ⟨?_, handles401_step ho h401⟩
  obtain ⟨n, hn⟩ : ∃ n, p.threads[i].request = some (n, context) := by
    rcases h401 with ⟨_, n, _, _, hc, -⟩ | ⟨n, hc⟩
    · exact ⟨n, by rw [hc]; rfl⟩
    · exact ⟨n, by rw [hc]; rfl⟩
  obtain ⟨r, hr⟩ := requests_ok hp _ (List.getElem_mem hlt) n context hn
  exact ⟨n, r, hn, hr⟩

/-- Logins to two clusters, a request to the second one, and a new login to it before the
response comes. -/
def relogin : List (PoolAction CallStart CallEvent) :=
  [.act 0 (.setSession (js "b") (js "tb") none false),
    .act 0 (.setSession (js "a") (js "t1") none false), .spawn (.apiFetch {}), .act 1 .run,
    .act 1 .run, .act 0 (.setSession (js "a") (js "t2") none false)]

theorem relogin_runs :
    ((consoleTab .absent 0).exec ⟨{ auth := .restore .absent 0 }, [.page]⟩ relogin).isSome := by
  decide +kernel

/-- The state when the 401 comes. -/
def relogged : Pool Console Call :=
  ((consoleTab .absent 0).exec ⟨{ auth := .restore .absent 0 }, [.page]⟩ relogin).get relogin_runs

/-- The 401 of the request. -/
def late401 : PoolAction CallStart CallEvent := .act 1 (.failed 401 [] none)

theorem late401_runs : ((consoleTab .absent 0).step relogged late401).isSome := by decide +kernel

theorem unauthorized_ends_own_context_relogin :
    ∃ q, (consoleTab .absent 0).step relogged late401 = some q ∧
      EndsAtMost relogged.shared.auth q.shared.auth (js "a") ∧
      q.shared.auth.sessionFor (js "b") = some ⟨0, js "tb", none, false, sessionTtlMs⟩ := by
  have hp := Machine.Reachable.exec relogin (Machine.Reach.init rfl)
    (Option.some_get relogin_runs).symm
  have hq := (Option.some_get late401_runs).symm
  have hi : relogged.threads[1]? = some (.fetchSent {} 0 (js "a")) := by decide +kernel
  obtain ⟨-, hends, -⟩ := unauthorized_ends_own_context hp hi (.inl ⟨_, _, _, _, rfl, rfl⟩) hq
  refine ⟨_, hq, hends, (hends.others _ (by decide)).trans ?_⟩
  decide +kernel

/-- It ends the session of the new login, with another token than the request has carried. -/
theorem newer_session_ended : ∃ p q, (consoleTab .absent 0).exec
      ⟨{ auth := .restore .absent 0 }, [.page]⟩ relogin = some p ∧
    (consoleTab .absent 0).step p late401 = some q ∧
    (∃ r ∈ p.shared.sent, r.context = some (js "a") ∧
      r.read.map (·.token) = some (some (js "t1"))) ∧
    p.shared.auth.sessionFor (js "a") = some ⟨2, js "t2", none, false, sessionTtlMs⟩ ∧
    q.shared.auth.sessionFor (js "a") = none := by
  have hsent : relogged.shared.sent.length = 1 := by decide +kernel
  have hne : relogged.shared.sent ≠ [] := List.ne_nil_of_length_eq_add_one hsent
  refine ⟨relogged, _, (Option.some_get relogin_runs).symm, (Option.some_get late401_runs).symm,
    ⟨_, List.head_mem hne, ?_, ?_⟩, ?_, ?_⟩
  · revert hne
    decide +kernel
  · revert hne
    decide +kernel
  · decide +kernel
  · decide +kernel

end KubeConsole.Web
