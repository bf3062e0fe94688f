import KubeConsole.Web.LogsBuffer

/-!
The window of a reconnect: measured when the connection fails, asked for when the wait
for the next attempt is over.
-/
namespace KubeConsole.Web
open KubeConsole.Theory

/-- A reconnect reaches back to the last line received: a server that returns every line
of the window it is asked for leaves no hole. -/
def LogRequest.Reaches (r : LogRequest) : Prop :=
  ∀ since m, r.target = .resumed (some since) m →
    ∃ at_, r.lastLineAt = some at_ ∧ r.issuedAt ≤ at_ + 1000 * since

/-- The condition on a step: where it ends the wait of a reconnect, no more has passed
since the window was measured than the second of padding and what rounding up has added. -/
def InTime (p : Pool Stream LogTask) : PoolAction Bool LogEvent → Prop
  | .spawn _ => True
  | .act i _ => ∀ l until_ since m at_, p.threads[i]? = some (.waiting l until_ (some since) m) →
    l.gen = p.shared.generation → p.shared.lastLineAt = some at_ →
      p.shared.now ≤ m + 1000 + (1000 - (m - at_) % 1000) % 1000

/-- The arithmetic of the window. -/
theorem reaches_iff {at_ m now : ℕ} (hm : at_ ≤ m) :
    now ≤ at_ + 1000 * ((m - at_ + 999) / 1000 + 1) ↔
      now ≤ m + 1000 + (1000 - (m - at_) % 1000) % 1000 := by
  omega

variable {s s' : Stream} {t t' : LogTask}

/-- A step sends one request at most, and only the end of a wait sends a reconnect. -/
theorem LogStep.requests (h : LogStep s t s' t') :
    ((∀ l u since m, t = .waiting l u since m → l.gen ≠ s.generation) ∧
      (s'.requests = s.requests ∨ s'.requests = s.requests ++ [⟨.initial, s.now, none⟩])) ∨
    ∃ l u since m, t = .waiting l u since m ∧ l.gen = s.generation ∧
      s'.requests = s.requests ++ [⟨.resumed since m, s.now, s.lastLineAt⟩] := by
  cases h with
  | @reconnect l u since m cancelRetry delay hl => exact .inr ⟨l, u, since, m, rfl, hl, rfl⟩
  | call => exact .inl ⟨nofun, .inr rfl⟩
  | timer | finish | retry => exact .inl ⟨nofun, .inl (flush_requests _)⟩
  | chunk | done => exact .inl ⟨nofun, .inl (append_requests _ _)⟩
  | caught a ht hw => exact .inl ⟨fun l u since m h => absurd h (hw l u since m), .inl rfl⟩
  | @stale _ l f ht hl | @returned _ l cancelRetry ht hl =>
    refine .inl ⟨fun l' u since m h => ?_, .inl rfl⟩
    subst h
    have hg : l'.gen = l.gen := Option.some.inj ht
    rwa [hg]
  | _ => exact .inl ⟨nofun, .inl rfl⟩

variable {p q : Pool Stream LogTask}

/-- The requests a step adds reach back exactly if the step is in time. -/
theorem reaches_step (hp : logsStream.Reachable p) {a : PoolAction Bool LogEvent}
    (hq : logsStream.step p a = some q) :
    (∀ r ∈ q.shared.requests, r.Reaches) ↔
      (∀ r ∈ p.shared.requests, r.Reaches) ∧ InTime p a := by
  cases a with
  | spawn b =>
    cases hq
    exact (and_iff_left trivial).symm
  | act i e =>
    obtain ⟨hi, s, c, ho, rfl⟩ := Program.act_eq_some hq
    rcases (logs_op_step ho).requests with ⟨hw, hr⟩ | ⟨l, u, since, m, ht, hl, hr⟩
    · have htime : InTime p (.act i e) := by
        intro l u since m at_ hget hl
        rw [List.getElem?_eq_getElem hi, Option.some.injEq] at hget
        exact absurd hl (hw l u _ m hget)
      rcases hr with hr | hr
      · simp [hr, htime]
      · simp [hr, htime, LogRequest.Reaches, or_imp, forall_and]
    · have hok := (tasks_ok hp _ (List.getElem_mem hi)).2
      rw [ht] at hok
      obtain ⟨-, hs, hle⟩ := hok hl
      have hnew : InTime p (.act i e) ↔
          LogRequest.Reaches ⟨.resumed since m, p.shared.now, p.shared.lastLineAt⟩ := by
        have hget : p.threads[i]? = some (.waiting l u since m) := by
          rw [List.getElem?_eq_getElem hi, ht]
        cases hat : p.shared.lastLineAt with
        | none =>
          rw [hat] at hs
          subst hs
          simp [InTime, LogRequest.Reaches, hget]
        | some at_ =>
          rw [hat] at hs
          subst hs
          have hiff := @reaches_iff at_ m p.shared.now (hle at_ hat)
          have htime : InTime p (.act i e) ↔
              p.shared.now ≤ m + 1000 + (1000 - (m - at_) % 1000) % 1000 := by
            refine ⟨fun h => h l u _ m at_ hget hl hat, fun h => ?_⟩
            intro l' u' since' m' at' hget' _ hat'
            rw [hget] at hget'
            cases hget'
            cases hat.symm.trans hat'
            exact h
          rw [htime, ← hiff]
          simp [LogRequest.Reaches]
      rw [hr, hnew]
      simp [or_imp, forall_and]

/-- In every run the reconnects all reach back to the last line if and only if each of
them goes out in time. -/
theorem reconnects_reach (as : List (PoolAction Bool LogEvent))
    (ha : logsStream.exec ⟨{}, [.page]⟩ as = some p) :
    (∀ r ∈ p.shared.requests, r.Reaches) ↔ logsStream.Along InTime ⟨{}, [.page]⟩ as := by
  have h := Machine.along_iff (P := fun p => ∀ r ∈ p.shared.requests, r.Reaches)
    (fun p a q hp hq => reaches_step hp hq) (Machine.Reach.init rfl) ha
  simpa using h

/-- Two attempts in a row that fail: the last line and the failures at 0 s, the reconnects
at 0 s and at 1 s. -/
def twoFailures : List (PoolAction Bool LogEvent) :=
  [.spawn true, .act 1 .run, .act 1 (.response true), .act 1 (.chunk (js "a\n")),
    .act 1 (.throws .other), .act 1 (.settle true), .act 1 .run,
    .act 1 (.throws .other), .act 1 (.settle true), .act 0 (.clock 1000), .act 1 .run]

theorem twoFailures_runs : (logsStream.exec ⟨{}, [.page]⟩ twoFailures).isSome := by
  decide +kernel

theorem reconnects_reach_twoFailures : logsStream.Along InTime ⟨{}, [.page]⟩ twoFailures := by
  refine (reconnects_reach twoFailures (Option.some_get twoFailures_runs).symm).mp ?_
  have hall : ((logsStream.exec ⟨{}, [.page]⟩ twoFailures).get twoFailures_runs).shared.requests =
      [⟨.initial, 0, none⟩, ⟨.resumed (some 1) 0, 0, some 0⟩,
        ⟨.resumed (some 1) 0, 1000, some 0⟩] := by decide +kernel
  rw [hall]
  simp [LogRequest.Reaches]

/-- A third attempt fails too, and is followed by a reconnect at 3 s. -/
def threeFailures : List (PoolAction Bool LogEvent) :=
  twoFailures ++ [.act 1 (.throws .other), .act 1 (.settle true), .act 0 (.clock 2000), .act 1 .run]

theorem threeFailures_runs : (logsStream.exec ⟨{}, [.page]⟩ threeFailures).isSome := by
  decide +kernel

/-- It asks for two seconds, three seconds after the last line. -/
theorem reconnect_leaves_hole : ∃ p, logsStream.exec ⟨{}, [.page]⟩ threeFailures = some p ∧
    ∃ r ∈ p.shared.requests, r = ⟨.resumed (some 2) 1000, 3000, some 0⟩ ∧ ¬ r.Reaches := by
  refine ⟨_, (Option.some_get threeFailures_runs).symm, _, ?_, rfl, ?_⟩
  · decide +kernel
  · intro h
    obtain ⟨at_, hat, hle⟩ := h 2 1000 rfl
    cases hat
    exact absurd hle (by decide)

end KubeConsole.Web
