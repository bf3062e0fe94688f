import KubeConsole.Exec.Session

/-!
How an exec session ends: at most one terminal frame reaches the browser, it is
the one of the path that claimed the teardown first, and every path that claims
it cancels the session.
-/
namespace KubeConsole.Exec
open KubeConsole.Theory

/-! What each function of the session does in one operation. -/

/-- `writeControl` of frame `f` by `who`. -/
inductive SendStep (who : Claimant) (f : ControlFrame) (s : Session) :
    Sending → Session → Sending → Prop where
  | lock (hl : s.locked = false) : SendStep who f s .lock { s with locked := true } .write
  | fail : SendStep who f s .write { s with locked := false } .returned
  | write : SendStep who f s .write { s with locked := false, wire := s.wire ++ [(who, f)] } .returned

inductive EndStep (who : Claimant) (s : Session) : Ending → Session → Ending → Prop where
  | store : EndStep who s .store (s.storeEnding who) .silence
  | silence : EndStep who s .silence { s with quiet := true } .cancel
  | cancel : EndStep who s .cancel { s with cancelled := true } .returned

inductive ReportStep (who : Claimant) (f : ControlFrame) (s : Session) :
    Report → Session → Report → Prop where
  | claim (he : s.ending = false) :
      ReportStep who f s .claim { s with ending := true, claimedBy := some who } (.won .waiting .lock)
  | lose : ReportStep who f s .claim s .lost
  | send {caller fr s' fr'} (h : SendStep who f s fr s' fr') :
      ReportStep who f s (.won caller fr) s' (.won caller fr')
  | leave {fr} : ReportStep who f s (.won .waiting fr) s (.won (.ending .store) fr)
  | end_ {at_ fr s' at'} (h : EndStep who s at_ s' at') :
      ReportStep who f s (.won (.ending at_) fr) s' (.won (.ending at') fr)

inductive MainStep (s : Session) : Main → Session → Main → Prop where
  | lockReady (hl : s.locked = false) :
      MainStep s (.ready .lock) { s with locked := true } (.ready .write)
  | ready : MainStep s (.ready .write)
      { s with locked := false, wire := s.wire ++ [(.stream, { type := .ready })], streaming := true }
      .await
  | unready : MainStep s (.ready .write) { s with locked := false } .close
  | done {pc err} (hpc : pc = .await ∨ pc = .drain ∨ pc = .receive) (hd : s.streamDone = some err) :
      MainStep s pc s (.claim err)
  | gone : MainStep s .await { s with quiet := true } .drain
  | timeout : MainStep s .drain { s with cancelled := true } .receive
  | claim {err} (he : s.ending = false) :
      MainStep s (.claim err) { s with ending := true, claimedBy := some .stream } (.report err .lock)
  | lose {err} : MainStep s (.claim err) s .close
  | lockReport {err} (hl : s.locked = false) :
      MainStep s (.report err .lock) { s with locked := true } (.report err .write)
  | report {err s'} (h : SendStep .stream (outcomeFrame err) s .write s' .returned) :
      MainStep s (.report err .write) s' .close
  | close : MainStep s .close { s with closed := true } .unwind
  | unwind : MainStep s .unwind { s with cancelled := true } .returned

inductive PingStep (s : Session) : Ping → Session → Ping → Prop where
  | same {pc pc'} (hpc : ∀ at_, pc ≠ .ending at_) (hpc' : ∀ at_, pc' = .ending at_ → at_ = .store) :
      PingStep s pc s pc'
  | end_ {at_ s' at'} (h : EndStep .ping s at_ s' at') : PingStep s (.ending at_) s' (.ending at')

inductive Step (idleTimeout : String) (s : Session) : Goroutine → Session → Goroutine → Prop where
  | session {pc s' pc'} (h : MainStep s pc s' pc') :
      Step idleTimeout s (.session pc) s' (.session pc')
  | idle {r s' r'}
      (h : ReportStep .idle { type := .error, message := Session.idleMessage idleTimeout } s r s' r') :
      Step idleTimeout s (.idle r) s' (.idle r')
  | connError : Step idleTimeout s (.readLoop none false) { s with clientGone := true } (.readLoop none true)
  | overflow : Step idleTimeout s (.readLoop none false) s (.readLoop (some .claim) false)
  | gone {r} : Step idleTimeout s (.readLoop (some r) false) { s with clientGone := true }
      (.readLoop (some r) true)
  | report {r s' r' left}
      (h : ReportStep .overflow { type := .error, message := Session.overflowMessage } s r s' r') :
      Step idleTimeout s (.readLoop (some r) left) s' (.readLoop (some r') left)
  | ping {pc s' pc'} (h : PingStep s pc s' pc') : Step idleTimeout s (.pingLoop pc) s' (.pingLoop pc')
  | lock (hl : s.locked = false) : Step idleTimeout s (.stdout false) { s with locked := true } (.stdout true)
  | unlock : Step idleTimeout s (.stdout true) { s with locked := false } (.stdout false)
  | stream {err} (hd : s.streamDone = none) :
      Step idleTimeout s .stream { s with streamDone := some err } .stream

variable {s s' : Session}

theorem send_step {who : Claimant} {f : ControlFrame} {at_ at' : Sending} {r : Option Bool}
    (h : s.send who f at_ r = some (s', at')) :
    SendStep who f s at_ s' at' ∧ (r = none ↔ at_ = .lock) := by
  unfold Session.send at h
  split at h
  · split at h
    · cases h
    next hl => cases h; exact ⟨.lock (by simpa using hl), by simp⟩
  · cases h; exact ⟨.fail, by simp⟩
  · split at h
    · cases h
    · cases h; exact ⟨.write, by simp⟩
  · cases h

theorem end_step {who : Claimant} {at_ at' : Ending} (h : s.end_ who at_ = some (s', at')) :
    EndStep who s at_ s' at' := by
  cases at_ <;> cases h
  · exact .store
  · exact .silence
  · exact .cancel

theorem report_step {who : Claimant} {message : String} {r r' : Report} {e : SessionEvent}
    (h : s.report who message r e = some (s', r')) :
    ReportStep who { type := .error, message } s r s' r' := by
  unfold Session.report at h
  split at h
  · unfold Session.compareAndSwap at h
    split at h
    next t ht =>
      split at ht
      · cases ht
      next he => cases ht; cases h; exact .claim (by simpa using he)
    next => cases h; exact .lose
  · obtain ⟨⟨t, fr⟩, hs, heq⟩ := Option.map_eq_some_iff.mp h
    cases heq; exact .send (send_step hs).1
  · obtain ⟨⟨t, fr⟩, hs, heq⟩ := Option.map_eq_some_iff.mp h
    cases heq; exact .send (send_step hs).1
  · cases h; exact .leave
  · cases h; exact .leave
  · obtain ⟨⟨t, at'⟩, hs, heq⟩ := Option.map_eq_some_iff.mp h
    cases heq; exact .end_ (end_step hs)
  · cases h

theorem main_step {pc pc' : Main} {e : SessionEvent} (h : s.main pc e = some (s', pc')) :
    MainStep s pc s' pc' := by
  unfold Session.main at h
  split at h
  case h_1 at_ =>
    obtain ⟨⟨t, at'⟩, hs, heq⟩ := Option.map_eq_some_iff.mp h
    obtain ⟨hs, hr⟩ := send_step hs
    obtain rfl := hr.mp rfl
    cases heq; cases hs with | lock hl => exact .lockReady hl
  case h_2 at_ =>
    obtain ⟨⟨t, at'⟩, hs, heq⟩ := Option.map_eq_some_iff.mp h
    cases heq
    unfold Session.send at hs
    split at hs
    · simp at *
    · simp at *
    · split at hs
      · cases hs
      · cases hs; exact .ready
    · cases hs
  case h_3 at_ =>
    obtain ⟨⟨t, at'⟩, hs, heq⟩ := Option.map_eq_some_iff.mp h
    cases heq
    unfold Session.send at hs
    split at hs
    · simp at *
    · cases hs; exact .unready
    · simp at *
    · cases hs
  case h_4 =>
    obtain ⟨err, hd, heq⟩ := Option.map_eq_some_iff.mp h
    cases heq; exact .done (by simp) hd
  case h_5 =>
    split at h
    · cases h; exact .gone
    · cases h
  case h_6 =>
    obtain ⟨err, hd, heq⟩ := Option.map_eq_some_iff.mp h
    cases heq; exact .done (by simp) hd
  case h_7 => cases h; exact .timeout
  case h_8 =>
    obtain ⟨err, hd, heq⟩ := Option.map_eq_some_iff.mp h
    cases heq; exact .done (by simp) hd
  case h_9 err =>
    unfold Session.compareAndSwap at h
    split at h
    next t ht =>
      split at ht
      · cases ht
      next he => cases ht; cases h; exact .claim (by simpa using he)
    next => cases h; exact .lose
  case h_10 err at_ =>
    obtain ⟨⟨t, at'⟩, hs, heq⟩ := Option.map_eq_some_iff.mp h
    obtain ⟨hs, hr⟩ := send_step hs
    obtain rfl := hr.mp rfl
    cases heq; cases hs with | lock hl => exact .lockReport hl
  case h_11 err at_ ok =>
    obtain ⟨⟨t, at'⟩, hs, heq⟩ := Option.map_eq_some_iff.mp h
    obtain ⟨hs, hr⟩ := send_step hs
    have hne : at_ ≠ .lock := fun hl => by simpa using hr.mpr hl
    cases heq
    cases hs with
    | lock => exact absurd rfl hne
    | fail => exact .report .fail
    | write => exact .report .write
  case h_12 => cases h; exact .close
  case h_13 => cases h; exact .unwind
  case h_14 => cases h

theorem ping_step {pc pc' : Ping} {e : SessionEvent} (h : s.pingLoop pc e = some (s', pc')) :
    PingStep s pc s' pc' := by
  unfold Session.pingLoop at h
  split at h
  · split at h
    · cases h; exact .same (by simp) (by simp)
    · cases h
  · cases h; exact .same (by simp) (by simp)
  · cases h; exact .same (by simp) (by split <;> simp)
  · cases h; exact .same (by simp) (by split <;> simp [eq_comm])
  · obtain ⟨⟨t, at'⟩, hs, heq⟩ := Option.map_eq_some_iff.mp h
    cases heq; exact .end_ (end_step hs)
  · cases h

/-- The inversion lemma: what an operation of any goroutine does. -/
theorem op_step {idleTimeout : String} {g g' : Goroutine} {e : SessionEvent}
    (h : s.op idleTimeout g e = some (s', g')) : Step idleTimeout s g s' g' := by
  unfold Session.op at h
  split at h
  · obtain ⟨⟨t, pc'⟩, hs, heq⟩ := Option.map_eq_some_iff.mp h
    cases heq; exact .session (main_step hs)
  · obtain ⟨⟨t, r'⟩, hs, heq⟩ := Option.map_eq_some_iff.mp h
    cases heq; exact .idle (report_step hs)
  · cases h; exact .connError
  · cases h; exact .overflow
  · split at h
    · cases h; exact .gone
    · cases h
  · obtain ⟨⟨t, r'⟩, hs, heq⟩ := Option.map_eq_some_iff.mp h
    cases heq; exact .report (report_step hs)
  · obtain ⟨⟨t, pc'⟩, hs, heq⟩ := Option.map_eq_some_iff.mp h
    cases heq; exact .ping (ping_step hs)
  · split at h
    · cases h
    next hl => cases h; exact .lock (by simpa using hl)
  · cases h; exact .unlock
  · split at h
    next hd =>
      cases h
      simp only [Bool.and_eq_true, Option.isNone_iff_eq_none] at hd
      exact .stream hd.2
    · cases h
  · cases h

/-! What never goes back, and what each goroutine may therefore rely on. -/

/-- The claim, its owner, the cancellation and the stream's outcome stay once made. -/
structure Session.Le (s s' : Session) : Prop where
  ending : s.ending = true → s'.ending = true
  cancelled : s.cancelled = true → s'.cancelled = true
  claimedBy : ∀ w, s.ending = true → s.claimedBy = some w → s'.claimedBy = some w
  streamDone : ∀ err, s.streamDone = some err → s'.streamDone = some err

theorem Session.Le.refl (s : Session) : s.Le s := ⟨id, id, fun _ _ h => h, fun _ h => h⟩

theorem SendStep.le {who : Claimant} {f : ControlFrame} {at_ at' : Sending}
    (h : SendStep who f s at_ s' at') : s.Le s' := by
  cases h <;> exact ⟨id, id, fun _ _ h => h, fun _ h => h⟩

theorem EndStep.le {who : Claimant} {at_ at' : Ending} (h : EndStep who s at_ s' at') :
    s.Le s' := by
  cases h with
  | store =>
    exact ⟨fun _ => rfl, id, fun w he hw => by simp [Session.storeEnding, he, hw], fun _ h => h⟩
  | silence => exact ⟨id, id, fun _ _ h => h, fun _ h => h⟩
  | cancel => exact ⟨id, fun _ => rfl, fun _ _ h => h, fun _ h => h⟩

theorem Session.Le.claim (he : s.ending = false) (who : Claimant) :
    s.Le { s with ending := true, claimedBy := some who } :=
  ⟨fun _ => rfl, id, fun _ ht => by simp [he] at ht, fun _ h => h⟩

theorem ReportStep.le {who : Claimant} {f : ControlFrame} {r r' : Report}
    (h : ReportStep who f s r s' r') : s.Le s' := by
  cases h with
  | claim he => exact .claim he who
  | lose | leave => exact .refl s
  | send h => exact h.le
  | end_ h => exact h.le

theorem MainStep.le {pc pc' : Main} (h : MainStep s pc s' pc') : s.Le s' := by
  cases h with
  | claim he => exact .claim he .stream
  | report h => exact h.le
  | timeout | unwind => exact ⟨id, fun _ => rfl, fun _ _ h => h, fun _ h => h⟩
  | _ => exact ⟨id, id, fun _ _ h => h, fun _ h => h⟩

theorem Step.le {idleTimeout : String} {g g' : Goroutine} (h : Step idleTimeout s g s' g') :
    s.Le s' := by
  cases h with
  | session h => exact h.le
  | idle h => exact h.le
  | report h => exact h.le
  | ping h =>
    cases h with
    | same => exact .refl s
    | end_ h => exact h.le
  | stream hd => exact ⟨id, id, fun _ _ h => h, fun _ h => by simp [hd] at h⟩
  | _ => exact ⟨id, id, fun _ _ h => h, fun _ h => h⟩

/-- `ending` has been claimed by `who`. -/
def Session.Claimed (s : Session) (who : Claimant) : Prop :=
  s.ending = true ∧ s.claimedBy = some who

theorem Session.Claimed.mono {who : Claimant} (h : s.Claimed who) (hle : s.Le s') :
    s'.Claimed who :=
  ⟨hle.ending h.1, hle.claimedBy who h.1 h.2⟩

/-- A goroutine inside `end` has set `ending` after the first operation and has
cancelled after the last. -/
def Ending.Ok (s : Session) (at_ : Ending) : Prop :=
  (at_ ≠ .store → s.ending = true) ∧ (at_ = .returned → s.cancelled = true)

def Report.Ok (s : Session) (who : Claimant) : Report → Prop
  | .claim | .lost => True
  | .won .waiting _ => s.Claimed who
  | .won (.ending at_) _ => s.Claimed who ∧ at_.Ok s

def Main.Ok (s : Session) : Main → Prop
  | .claim err => s.streamDone = some err
  | .report err at_ => at_ ≠ .returned ∧ s.Claimed .stream ∧ s.streamDone = some err
  | .returned => s.cancelled = true
  | _ => True

/-- What each goroutine may rely on at its program point. -/
def Goroutine.Ok (s : Session) : Goroutine → Prop
  | .session pc => pc.Ok s
  | .idle r => r.Ok s .idle
  | .readLoop (some r) _ => r.Ok s .overflow
  | .pingLoop (.ending at_) => at_.Ok s
  | _ => True

theorem Ending.Ok.mono {at_ : Ending} (h : at_.Ok s) (hle : s.Le s') : at_.Ok s' :=
  ⟨fun hn => hle.ending (h.1 hn), fun hr => hle.cancelled (h.2 hr)⟩

theorem Report.Ok.mono {who : Claimant} {r : Report} (h : r.Ok s who) (hle : s.Le s') :
    r.Ok s' who := by
  match r, h with
  | .claim, _ | .lost, _ => trivial
  | .won .waiting _, h => exact Session.Claimed.mono h hle
  | .won (.ending _) _, h => exact ⟨h.1.mono hle, h.2.mono hle⟩

theorem Main.Ok.mono {pc : Main} (h : pc.Ok s) (hle : s.Le s') : pc.Ok s' := by
  cases pc with
  | claim err => exact hle.streamDone err h
  | report err at_ => exact ⟨h.1, h.2.1.mono hle, hle.streamDone err h.2.2⟩
  | returned => exact hle.cancelled h
  | _ => trivial

/-- What a goroutine relies on is not undone by the others. -/
theorem Goroutine.Ok.mono {g : Goroutine} (h : g.Ok s) (hle : s.Le s') : g.Ok s' := by
  match g, h with
  | .session _, h => exact Main.Ok.mono h hle
  | .idle _, h => exact Report.Ok.mono h hle
  | .readLoop (some _) _, h => exact Report.Ok.mono h hle
  | .readLoop none _, _ => trivial
  | .pingLoop (.ending _), h => exact Ending.Ok.mono h hle
  | .pingLoop .waiting, _ | .pingLoop .pinging, _ | .pingLoop .failed, _ | .pingLoop .returned, _ => trivial
  | .stdout _, _ | .stream, _ => trivial

theorem EndStep.ok {who : Claimant} {at_ at' : Ending} (h : EndStep who s at_ s' at')
    (hok : at_.Ok s) : at'.Ok s' := by
  cases h with
  | store => exact ⟨fun _ => rfl, by simp⟩
  | silence => exact ⟨fun _ => hok.1 (by simp), by simp⟩
  | cancel => exact ⟨fun _ => hok.1 (by simp), fun _ => rfl⟩

theorem ReportStep.ok {who : Claimant} {f : ControlFrame} {r r' : Report}
    (h : ReportStep who f s r s' r') (hok : r.Ok s who) : r'.Ok s' who := by
  cases h with
  | claim he => exact ⟨rfl, rfl⟩
  | lose => trivial
  | @send caller _ _ _ h =>
    have hle := h.le
    cases caller with
    | waiting => exact Session.Claimed.mono hok hle
    | ending at_ => exact ⟨hok.1.mono hle, hok.2.mono hle⟩
  | leave => exact ⟨hok, by simp, by simp⟩
  | end_ h => exact ⟨hok.1.mono h.le, h.ok hok.2⟩

theorem MainStep.ok {pc pc' : Main} (h : MainStep s pc s' pc') (hok : pc.Ok s) : pc'.Ok s' := by
  cases h with
  | done _ hd => exact hd
  | claim he => exact ⟨by simp, ⟨rfl, rfl⟩, hok⟩
  | lockReport hl => exact ⟨by simp, hok.2.1, hok.2.2⟩
  | unwind => exact rfl
  | _ => trivial

theorem Step.ok {idleTimeout : String} {g g' : Goroutine} (h : Step idleTimeout s g s' g')
    (hok : g.Ok s) : g'.Ok s' := by
  cases h with
  | session h => exact h.ok hok
  | idle h => exact h.ok hok
  | report h => exact h.ok hok
  | gone => exact Report.Ok.mono (s := s) hok ⟨id, id, fun _ _ h => h, fun _ h => h⟩
  | @ping _ _ pc' h =>
    cases h with
    | same _ hpc' =>
      cases pc' with
      | ending at_ => obtain rfl := hpc' at_ rfl; exact ⟨by simp, by simp⟩
      | _ => trivial
    | end_ h => exact h.ok hok
  | _ => trivial

section Reachable
variable {idleTimeout : String} {p : Pool Session Goroutine}

theorem goroutine_ok (hp : (session idleTimeout).Reachable p) : ∀ g ∈ p.threads, g.Ok p.shared := by
  refine Program.forall_threads_stable (I := fun s g => g.Ok s) ?_ (fun _ _ => trivial) ?_ ?_ hp
  · intro g hg
    simp only [List.mem_cons, List.not_mem_nil, or_false] at hg
    rcases hg with rfl | rfl | rfl | rfl | rfl <;> trivial
  · intro s g e s' g' hok ho
    exact (op_step ho).ok hok
  · intro s g e s' g' d hok ho
    exact hok.mono (op_step ho).le

/-- `ending` is on exactly when some path has claimed it. -/
theorem Step.ending_eq {g g' : Goroutine} (h : Step idleTimeout s g s' g')
    (hs : s.ending = s.claimedBy.isSome) : s'.ending = s'.claimedBy.isSome := by
  have hstore (who : Claimant) :
      (s.storeEnding who).ending = (s.storeEnding who).claimedBy.isSome := by
    cases he : s.ending <;> simp [Session.storeEnding, he, ← hs]
  have hsend {who f at_ s' at'} (h : SendStep who f s at_ s' at') :
      s'.ending = s'.claimedBy.isSome := by cases h <;> exact hs
  have hend {who at_ s' at'} (h : EndStep who s at_ s' at') :
      s'.ending = s'.claimedBy.isSome := by
    cases h with
    | store => exact hstore who
    | _ => exact hs
  have hreport {who f r s' r'} (h : ReportStep who f s r s' r') :
      s'.ending = s'.claimedBy.isSome := by
    cases h with
    | claim => rfl
    | send h => exact hsend h
    | end_ h => exact hend h
    | _ => exact hs
  cases h with
  | idle h => exact hreport h
  | report h => exact hreport h
  | ping h =>
    cases h with
    | same => exact hs
    | end_ h => exact hend h
  | session h =>
    cases h with
    | claim => rfl
    | report h => exact hsend h
    | _ => exact hs
  | _ => exact hs

theorem ending_eq (hp : (session idleTimeout).Reachable p) :
    p.shared.ending = p.shared.claimedBy.isSome :=
  Program.shared_invariant (I := fun _ _ => True) (fun _ _ _ _ => trivial)
    (J := fun s => s.ending = s.claimedBy.isSome) rfl
    (fun _ _ _ _ _ _ hs ho => (op_step ho).ending_eq hs) hp

/-! The terminal frames on the wire. -/

/-- The frame each path explains the end of the session with. The ping path has none. -/
def FrameOf (idleTimeout : String) (s : Session) : Claimant → ControlFrame → Prop
  | .idle, f => f = { type := .error, message := Session.idleMessage idleTimeout }
  | .overflow, f => f = { type := .error, message := Session.overflowMessage }
  | .ping, _ => False
  | .stream, f => ∃ err, s.streamDone = some err ∧ f = outcomeFrame err

/-- A terminal frame belongs to the path that holds the claim. -/
def FrameOk (idleTimeout : String) (s : Session) (w : Claimant × ControlFrame) : Prop :=
  w.2.terminal = true → s.Claimed w.1 ∧ FrameOf idleTimeout s w.1 w.2

theorem FrameOk.mono {w : Claimant × ControlFrame} (h : FrameOk idleTimeout s w) (hle : s.Le s') :
    FrameOk idleTimeout s' w := by
  intro ht
  obtain ⟨hc, hf⟩ := h ht
  refine ⟨hc.mono hle, ?_⟩
  obtain ⟨who, f⟩ := w
  cases who with
  | stream => obtain ⟨err, hd, hf⟩ := hf; exact ⟨err, hle.streamDone err hd, hf⟩
  | _ => exact hf

theorem SendStep.wire {who : Claimant} {f : ControlFrame} {at_ at' : Sending}
    (h : SendStep who f s at_ s' at') :
    s'.wire = s.wire ∨ (at_ = .write ∧ at' = .returned ∧ s'.wire = s.wire ++ [(who, f)]) := by
  cases h with
  | write => exact .inr ⟨rfl, rfl, rfl⟩
  | _ => exact .inl rfl

theorem EndStep.wire {who : Claimant} {at_ at' : Ending} (h : EndStep who s at_ s' at') :
    s'.wire = s.wire := by cases h <;> rfl

def Sending.unsent : Sending → ℕ
  | .returned => 0
  | _ => 1

/-- The terminal frames a goroutine may still write: one, from winning the claim
until its write returns. -/
def Goroutine.unsent : Goroutine → ℕ
  | .session (.report _ at_) => at_.unsent
  | .idle (.won _ fr) => fr.unsent
  | .readLoop (some (.won _ fr)) _ => fr.unsent
  | _ => 0

/-- An operation writes nothing, or one frame. A terminal one is its path's own,
and the goroutine had it to write. -/
theorem Step.wire {g g' : Goroutine} (h : Step idleTimeout s g s' g') (hok : g.Ok s) :
    s'.wire = s.wire ∨ ∃ w, s'.wire = s.wire ++ [w] ∧ FrameOk idleTimeout s w ∧
      (w.2.terminal = true → g.unsent = 1) := by
  have hclaimed {who caller fr} (h : Report.Ok s who (.won caller fr)) : s.Claimed who := by
    cases caller with
    | waiting => exact h
    | ending => exact h.1
  have hreport {who message r s' r'} (h : ReportStep who { type := .error, message } s r s' r')
      (hok : r.Ok s who) (hf : FrameOf idleTimeout s who { type := .error, message }) :
      s'.wire = s.wire ∨ ∃ w, s'.wire = s.wire ++ [w] ∧ FrameOk idleTimeout s w ∧
        (w.2.terminal = true → ∃ caller, r = .won caller .write) := by
    cases h with
    | @send caller fr _ _ h =>
      rcases h.wire with h | ⟨rfl, -, h⟩
      · exact .inl h
      · exact .inr ⟨_, h, fun _ => ⟨hclaimed hok, hf⟩, fun _ => ⟨caller, rfl⟩⟩
    | end_ h => exact .inl h.wire
    | _ => exact .inl rfl
  cases h with
  | idle h =>
    rcases hreport h hok rfl with h | ⟨w, hw, hf, hu⟩
    · exact .inl h
    · exact .inr ⟨w, hw, hf, fun ht => by obtain ⟨_, rfl⟩ := hu ht; rfl⟩
  | report h =>
    rcases hreport h hok rfl with h | ⟨w, hw, hf, hu⟩
    · exact .inl h
    · exact .inr ⟨w, hw, hf, fun ht => by obtain ⟨_, rfl⟩ := hu ht; rfl⟩
  | ping h =>
    cases h with
    | same => exact .inl rfl
    | end_ h => exact .inl h.wire
  | session h =>
    cases h with
    | ready => exact .inr ⟨_, rfl, fun ht => absurd ht (by decide), fun ht => absurd ht (by decide)⟩
    | report h =>
      rcases h.wire with h | ⟨-, -, h⟩
      · exact .inl h
      · exact .inr ⟨_, h, fun _ => ⟨hok.2.1, _, hok.2.2, rfl⟩, fun _ => rfl⟩
    | _ => exact .inl rfl
  | _ => exact .inl rfl

theorem wire_ok (hp : (session idleTimeout).Reachable p) :
    ∀ w ∈ p.shared.wire, FrameOk idleTimeout p.shared w := by
  refine Program.shared_invariant (I := fun s g => g.Ok s)
    (J := fun s => ∀ w ∈ s.wire, FrameOk idleTimeout s w) (fun _ hq => goroutine_ok hq) ?_ ?_ hp
  · intro w hw; cases hw
  · intro s g e s' g' hok hJ ho w hw
    have hle := (op_step ho).le
    rcases (op_step ho).wire hok with heq | ⟨v, heq, hv, -⟩ <;> rw [heq] at hw
    · exact (hJ w hw).mono hle
    · rcases List.mem_append.mp hw with hw | hw
      · exact (hJ w hw).mono hle
      · rw [List.mem_singleton.mp hw]; exact hv.mono hle

/-- The terminal frames written so far. -/
def Session.terminals (s : Session) : ℕ := s.wire.countP fun w => w.2.terminal

/-- What is left of the one terminal frame a claimed session may have. -/
def Session.allowance (s : Session) : ℕ := s.ending.toNat - s.terminals

theorem terminals_eq_zero (hp : (session idleTimeout).Reachable p)
    (he : p.shared.ending = false) : p.shared.terminals = 0 := by
  refine List.countP_eq_zero.mpr fun w hw ht => ?_
  obtain ⟨⟨hc, -⟩, -⟩ := wire_ok hp w hw ht
  simp [he] at hc

theorem SendStep.allowance {who : Claimant} {f : ControlFrame} {at_ at' : Sending}
    (h : SendStep who f s at_ s' at') : s.allowance + at'.unsent ≤ s'.allowance + at_.unsent := by
  cases h with
  | write =>
    simp only [Session.allowance, Session.terminals, List.countP_append, Sending.unsent]
    have : [(who, f)].countP (fun w => w.2.terminal) ≤ 1 := List.countP_le_length
    omega
  | _ => simp [Session.allowance, Session.terminals, Sending.unsent]

theorem EndStep.allowance {who : Claimant} {at_ at' : Ending} (h : EndStep who s at_ s' at') :
    s.allowance ≤ s'.allowance := by
  cases h with
  | store =>
    have : s.ending.toNat ≤ 1 := Bool.toNat_le _
    simp only [Session.allowance, Session.storeEnding, Session.terminals, Bool.toNat_true]
    omega
  | _ => exact le_rfl

/-- Winning the claim grants one terminal frame; nothing else grants any. -/
theorem Step.allowance {g g' : Goroutine} (h : Step idleTimeout s g s' g')
    (hz : s.ending = false → s.terminals = 0) :
    s.allowance + g'.unsent ≤ s'.allowance + g.unsent := by
  have hclaim (he : s.ending = false) (who : Claimant) :
      s.allowance + 1 ≤ Session.allowance { s with ending := true, claimedBy := some who } := by
    have h0 := hz he
    simp only [Session.terminals] at h0
    simp [Session.allowance, Session.terminals, he, h0]
  cases h with
  | session h =>
    cases h with
    | ready =>
      simp only [Session.allowance, Session.terminals, List.countP_append, Goroutine.unsent]
      exact le_rfl
    | claim he => exact hclaim he .stream
    | report h => exact h.allowance
    | done hpc => rcases hpc with rfl | rfl | rfl <;> exact le_rfl
    | _ => exact le_rfl
  | idle h =>
    cases h with
    | claim he => exact hclaim he .idle
    | send h => exact h.allowance
    | end_ h => exact Nat.add_le_add_right h.allowance _
    | _ => exact le_rfl
  | report h =>
    cases h with
    | claim he => exact hclaim he .overflow
    | send h => exact h.allowance
    | end_ h => exact Nat.add_le_add_right h.allowance _
    | _ => exact le_rfl
  | ping h =>
    cases h with
    | same => exact le_rfl
    | end_ h => exact h.allowance
  | @gone r => cases r <;> exact le_rfl
  | _ => exact le_rfl

theorem unsent_le_allowance (hp : (session idleTimeout).Reachable p) :
    (p.threads.map Goroutine.unsent).sum ≤ p.shared.allowance :=
  Program.budget (I := fun s _ => s.ending = false → s.terminals = 0) Session.allowance
    Goroutine.unsent (fun _ hq _ _ => terminals_eq_zero hq) (by decide) (fun _ => rfl)
    (fun _ _ _ _ _ hz _ ho => (op_step ho).allowance hz) hp

/-- There is no terminal frame before the claim and at most one after it. -/
theorem terminals_le (hp : (session idleTimeout).Reachable p) :
    p.shared.terminals ≤ p.shared.ending.toNat := by
  refine Program.shared_invariant (I := fun s g => g.Ok s ∧ g.unsent ≤ s.allowance)
    (J := fun s => s.terminals ≤ s.ending.toNat)
    (fun q hq g hg => ⟨goroutine_ok hq g hg,
      (Program.weight_le_sum Goroutine.unsent hg).trans (unsent_le_allowance hq)⟩) le_rfl ?_ hp
  rintro s g e s' g' ⟨hok, hu⟩ hJ ho
  have hmono : s.ending.toNat ≤ s'.ending.toNat := by
    have := (op_step ho).le.ending
    cases he : s.ending
    · exact Nat.zero_le _
    · rw [this he]
  rcases (op_step ho).wire hok with heq | ⟨w, heq, -, hw⟩
  · simp only [Session.terminals, heq] at hJ ⊢
    exact hJ.trans hmono
  · simp only [Session.terminals, Session.allowance, heq, List.countP_append,
      List.countP_singleton] at hJ hu ⊢
    split_ifs with ht
    · have := hw ht
      omega
    · exact hJ.trans hmono

/-! Every claimant cancels the session. -/

def Report.Won : Report → Prop
  | .won _ _ => True
  | _ => False

/-- The goroutine has claimed the teardown, by a compare-and-swap it won or by its
own store of `ending`. `session` stays here once it has tried, as both outcomes
lead to its deferred `cancel`. -/
def Goroutine.claimed : Goroutine → Prop
  | .session (.report _ _) | .session .close | .session .unwind | .session .returned => True
  | .idle r | .readLoop (some r) _ => r.Won
  | .pingLoop (.ending at_) => at_ ≠ .store
  | _ => False

/-- The claiming call has returned: `reportAndEnd`, the `end` of the ping loop, or
`session` itself. -/
def Goroutine.returned : Goroutine → Prop
  | .idle (.won (.ending .returned) _) | .readLoop (some (.won (.ending .returned) _)) _ => True
  | .pingLoop (.ending .returned) => True
  | .session .returned => True
  | _ => False

theorem Goroutine.Ok.cancelled {g : Goroutine} (h : g.Ok s) (hr : g.returned) :
    s.cancelled = true := by
  match g, h, hr with
  | .idle (.won (.ending .returned) _), h, _ => exact h.2.2 rfl
  | .readLoop (some (.won (.ending .returned) _)) _, h, _ => exact h.2.2 rfl
  | .pingLoop (.ending .returned), h, _ => exact h.2 rfl
  | .session .returned, h, _ => exact h

theorem ReportStep.won {who : Claimant} {f : ControlFrame} {r r' : Report}
    (h : ReportStep who f s r s' r') (hc : r.Won ∨ (s.ending = false ∧ s'.ending = true)) : r'.Won := by
  cases h with
  | claim | leave | send | end_ => trivial
  | lose =>
    rcases hc with hc | ⟨h, h'⟩
    · exact hc
    · simp [h] at h'

/-- A claim is not given up, and `ending` turns on only for one. -/
theorem Step.claimed {g g' : Goroutine} (h : Step idleTimeout s g s' g')
    (hc : g.claimed ∨ (s.ending = false ∧ s'.ending = true)) : g'.claimed := by
  cases h with
  | session h =>
    cases h with
    | report | close | unwind | claim | lose | lockReport => trivial
    | done hpc =>
      rcases hc with hc | ⟨h, h'⟩
      · rcases hpc with rfl | rfl | rfl <;> cases hc
      · simp [h] at h'
    | _ =>
      rcases hc with hc | ⟨h, h'⟩
      · cases hc
      · simp [h] at h'
  | idle h => exact h.won hc
  | report h => exact h.won hc
  | gone =>
    rcases hc with hc | ⟨h, h'⟩
    · exact hc
    · simp [h] at h'
  | @ping pc _ _ h =>
    cases h with
    | same hpc =>
      rcases hc with hc | ⟨h, h'⟩
      · cases pc with
        | ending at_ => exact absurd rfl (hpc at_)
        | _ => cases hc
      · simp [h] at h'
    | end_ h => cases h <;> simp [Goroutine.claimed]
  | _ =>
    rcases hc with hc | ⟨h, h'⟩
    · cases hc
    · simp [h] at h'

/-- Behind a claimed teardown stands a goroutine that claimed it. -/
theorem exists_claimed (hp : (session idleTimeout).Reachable p) (he : p.shared.ending = true) :
    ∃ (i : ℕ) (hi : i < p.threads.length), p.threads[i].claimed := by
  refine Program.pool_invariant
    (I := fun p => p.shared.ending = true → ∃ (i : ℕ) (hi : i < p.threads.length), p.threads[i].claimed)
    (fun h => absurd h (by decide)) ?_ ?_ hp he
  · intro p b hI he
    obtain ⟨i, hi, hc⟩ := hI he
    exact ⟨i, by simp; omega, by simpa [List.getElem_append_left hi] using hc⟩
  · intro p i hi e s g hI ho he'
    have hstep := op_step ho
    by_cases he : p.shared.ending = true
    · obtain ⟨j, hj, hc⟩ := hI he
      refine ⟨j, by simpa using hj, ?_⟩
      by_cases hij : i = j
      · subst hij
        simpa using hstep.claimed (.inl hc)
      · simpa [List.getElem_set_ne hij] using hc
    · exact ⟨i, by simpa using hi, by simpa using hstep.claimed (.inr ⟨by simpa using he, he'⟩)⟩

/-! No claimant is stuck: the only thing one waits for is `writeMu`, and who holds
it is in a write that returns. -/

def Sending.holds : Sending → Bool
  | .write => true
  | _ => false

def Report.holds : Report → Bool
  | .won _ fr => fr.holds
  | _ => false

/-- The goroutine holds `writeMu`. -/
def Goroutine.holds : Goroutine → Bool
  | .session (.ready at_) | .session (.report _ at_) => at_.holds
  | .idle r | .readLoop (some r) _ => r.holds
  | .stdout writing => writing
  | _ => false

theorem SendStep.lock_eq {who : Claimant} {f : ControlFrame} {at_ at' : Sending}
    (h : SendStep who f s at_ s' at') (hl : at_.holds.toNat ≤ s.locked.toNat) :
    s'.locked.toNat + at_.holds.toNat = s.locked.toNat + at'.holds.toNat := by
  cases h with
  | lock hf => simp [Sending.holds, hf]
  | fail | write => cases hs : s.locked <;> simp [Sending.holds, hs] at hl ⊢

theorem EndStep.locked {who : Claimant} {at_ at' : Ending} (h : EndStep who s at_ s' at') :
    s'.locked = s.locked := by cases h <;> rfl

theorem ReportStep.lock_eq {who : Claimant} {f : ControlFrame} {r r' : Report}
    (h : ReportStep who f s r s' r') (hl : r.holds.toNat ≤ s.locked.toNat) :
    s'.locked.toNat + r.holds.toNat = s.locked.toNat + r'.holds.toNat := by
  cases h with
  | send h => exact h.lock_eq hl
  | end_ h => simp only [Report.holds, h.locked]
  | _ => rfl

theorem Step.lock_eq {g g' : Goroutine} (h : Step idleTimeout s g s' g')
    (hl : g.holds.toNat ≤ s.locked.toNat) :
    s'.locked.toNat + g.holds.toNat = s.locked.toNat + g'.holds.toNat := by
  cases h with
  | idle h => exact h.lock_eq hl
  | report h => exact h.lock_eq hl
  | ping h =>
    cases h with
    | same => simp only [Goroutine.holds]
    | end_ h => simp only [Goroutine.holds, h.locked]
  | session h =>
    cases h with
    | lockReady hf | lockReport hf => simp [Goroutine.holds, Sending.holds, hf]
    | ready | unready =>
      exact (SendStep.fail : SendStep .stream (outcomeFrame .nil) s .write _ _).lock_eq hl
    | report h => exact h.lock_eq hl
    | done hpc => rcases hpc with rfl | rfl | rfl <;> rfl
    | _ => rfl
  | gone => simp only [Goroutine.holds]
  | lock hf => simp [Goroutine.holds, hf]
  | unlock => cases hs : s.locked <;> simp [Goroutine.holds, hs] at hl ⊢
  | _ => rfl

/-- `writeMu` is held exactly when one goroutine holds it. -/
theorem locked_eq (hp : (session idleTimeout).Reachable p) :
    p.shared.locked.toNat = p.threads.countP Goroutine.holds :=
  Program.accounting_count (I := fun _ _ => True) (fun s => s.locked.toNat) Goroutine.holds
    (fun _ _ _ _ => trivial) (by decide) (fun _ => rfl)
    (fun _ _ _ _ _ _ hl ho => (op_step ho).lock_eq hl) hp

/-- Whoever holds `writeMu` releases it when its write fails. -/
theorem exists_release (idleTimeout : String) (s : Session) {g : Goroutine} (hg : g.holds = true) :
    ∃ e g', s.op idleTimeout g e = some ({ s with locked := false }, g') := by
  match g, hg with
  | .session (.ready .write), _ => exact ⟨.wrote false, _, rfl⟩
  | .session (.report _ .write), _ => exact ⟨.wrote false, _, rfl⟩
  | .idle (.won .waiting .write), _ | .idle (.won (.ending _) .write), _ =>
    exact ⟨.frameWrote false, _, rfl⟩
  | .readLoop (some (.won .waiting .write)) left, _ |
    .readLoop (some (.won (.ending _) .write)) left, _ =>
    cases left <;> exact ⟨.frameWrote false, _, rfl⟩
  | .stdout true, _ => exact ⟨.wrote false, _, rfl⟩

/-- The rest of `end`. -/
def Ending.rest : Ending → List SessionEvent
  | .store => [.run, .run, .run]
  | .silence => [.run, .run]
  | .cancel => [.run]
  | .returned => []

def Reporting.rest : Reporting → List SessionEvent
  | .waiting => .timeout :: Ending.store.rest
  | .ending at_ => at_.rest

/-- A claimant that does not wait for `writeMu` returns by itself. -/
theorem exists_drive {g : Goroutine} (hg : g.claimed) (hok : g.Ok s)
    (hl : s.locked = true → ∀ err, g ≠ .session (.report err .lock)) :
    ∃ es s' g', (teardown idleTimeout).drive s g es = some (s', g') ∧ g'.returned := by
  match g, hg, hok with
  | .session (.report err .lock), _, _ =>
    have hl : s.locked = false := by
      by_contra h
      exact hl (by simpa using h) err rfl
    refine ⟨[.run, .wrote false, .run, .run], { s with closed := true, cancelled := true },
      .session .returned, ?_, trivial⟩
    simp [Program.drive, teardown, Session.op, Session.main, Session.send, hl]
  | .session (.report err .write), _, _ => exact ⟨[.wrote false, .run, .run], _, _, rfl, trivial⟩
  | .session .close, _, _ => exact ⟨[.run, .run], _, _, rfl, trivial⟩
  | .session .unwind, _, _ => exact ⟨[.run], _, _, rfl, trivial⟩
  | .session .returned, _, _ => exact ⟨[], _, _, rfl, trivial⟩
  | .idle (.won c fr), _, _ =>
    obtain ⟨s', hs⟩ : ∃ s', (teardown idleTimeout).drive s (.idle (.won c fr)) c.rest =
        some (s', .idle (.won (.ending .returned) fr)) := by
      rcases c with _ | at_
      · cases fr <;> exact ⟨_, rfl⟩
      · cases at_ <;> cases fr <;> exact ⟨_, rfl⟩
    exact ⟨_, _, _, hs, trivial⟩
  | .readLoop (some (.won c fr)) left, _, _ =>
    obtain ⟨s', hs⟩ : ∃ s', (teardown idleTimeout).drive s (.readLoop (some (.won c fr)) left) c.rest =
        some (s', .readLoop (some (.won (.ending .returned) fr)) left) := by
      rcases c with _ | at_
      · cases fr <;> cases left <;> exact ⟨_, rfl⟩
      · cases at_ <;> cases fr <;> cases left <;> exact ⟨_, rfl⟩
    exact ⟨_, _, _, hs, trivial⟩
  | .pingLoop (.ending at_), _, _ =>
    obtain ⟨s', hs⟩ : ∃ s', (teardown idleTimeout).drive s (.pingLoop (.ending at_)) at_.rest =
        some (s', .pingLoop (.ending .returned)) := by cases at_ <;> exact ⟨_, rfl⟩
    exact ⟨_, _, _, hs, trivial⟩

/-- From any state some run leads goroutine `i`, which has claimed the teardown, to
where its claiming call has returned. -/
theorem exists_returned (hp : (session idleTimeout).Reachable p) {i : ℕ} {g : Goroutine}
    (hi : p.threads[i]? = some g) (hg : g.claimed) :
    ∃ as q g', (session idleTimeout).exec p as = some q ∧ q.threads[i]? = some g' ∧
      g'.returned := by
  -- once `writeMu` is free for it, goroutine `i` drives itself to the end
  have hfree {p : Pool Session Goroutine} (hp : (session idleTimeout).Reachable p)
      (hi : p.threads[i]? = some g)
      (hl : p.shared.locked = true → ∀ err, g ≠ .session (.report err .lock)) :
      ∃ as q g', (session idleTimeout).exec p as = some q ∧ q.threads[i]? = some g' ∧
        g'.returned := by
    obtain ⟨hlt, rfl⟩ := List.getElem?_eq_some_iff.mp hi
    obtain ⟨es, s', g', hd, hr⟩ := exists_drive hg (goroutine_ok hp _ (List.getElem_mem hlt)) hl
    exact ⟨_, _, g', Program.exec_drive hlt hd, by simp [hlt], hr⟩
  by_cases hw : p.shared.locked = true ∧ ∃ err, g = .session (.report err .lock)
  · obtain ⟨hl, err, rfl⟩ := hw
    have hpos : 0 < p.threads.countP Goroutine.holds := by rw [← locked_eq hp, hl]; decide
    obtain ⟨h, hm, hh⟩ := List.countP_pos_iff.mp hpos
    obtain ⟨j, hj, rfl⟩ := List.getElem_of_mem hm
    obtain ⟨e, g', ho⟩ := exists_release idleTimeout p.shared hh
    have hstep : (session idleTimeout).step p (.act j e) =
        some ⟨{ p.shared with locked := false }, p.threads.set j g'⟩ := by
      show Program.act _ p j e = _
      simp [Program.act, List.getElem?_eq_getElem hj, teardown, ho]
    have hij : j ≠ i := by
      rintro rfl
      rw [List.getElem?_eq_getElem hj, Option.some.injEq] at hi
      simp [hi, Goroutine.holds, Sending.holds] at hh
    obtain ⟨as, q, g'', ha, hq, hr⟩ := hfree (hp.next hstep)
      (by simpa [List.getElem?_set_ne hij] using hi) (by simp)
    exact ⟨.act j e :: as, q, g'', by rw [Machine.exec_cons, hstep]; exact ha, hq, hr⟩
  · exact hfree hp hi fun hl err he => hw ⟨hl, err, he⟩

/-- However the ways a session can end interleave: one terminal frame at most reaches
the browser, it is the one of the path that claimed the teardown, behind a claim
stands a goroutine, and each goroutine that claims can always return from its
claiming call and has then cancelled the session. -/
theorem teardown_once (hp : (session idleTimeout).Reachable p) :
    p.shared.terminals ≤ 1 ∧
    (∀ w ∈ p.shared.wire, w.2.terminal = true →
      p.shared.claimedBy = some w.1 ∧ FrameOf idleTimeout p.shared w.1 w.2) ∧
    (p.shared.ending = true → ∃ g ∈ p.threads, g.claimed) ∧
    ∀ (i : ℕ) (g : Goroutine), p.threads[i]? = some g → g.claimed →
      (g.returned → p.shared.cancelled = true) ∧
      ∃ as q g', (session idleTimeout).exec p as = some q ∧ q.threads[i]? = some g' ∧
        g'.returned ∧ q.shared.cancelled = true := by
  refine ⟨(terminals_le hp).trans (Bool.toNat_le _), fun w hw ht => ?_, fun he => ?_, ?_⟩
  · obtain ⟨hc, hf⟩ := wire_ok hp w hw ht
    exact ⟨hc.2, hf⟩
  · obtain ⟨i, hi, hc⟩ := exists_claimed hp he
    exact ⟨_, List.getElem_mem hi, hc⟩
  · intro i g hi hg
    refine ⟨(goroutine_ok hp g (List.mem_of_getElem? hi)).cancelled, ?_⟩
    obtain ⟨as, q, g', ha, hq, hr⟩ := exists_returned hp hi hg
    exact ⟨as, q, g', ha, hq, hr,
      (goroutine_ok (hp.exec as ha) g' (List.mem_of_getElem? hq)).cancelled hr⟩

end Reachable

/-- The idle timer claims the teardown just before the stream ends by itself. -/
def idleFirst : List (PoolAction Unit SessionEvent) :=
  [.act 0 .run, .act 0 (.wrote true), .spawn (), .act 5 .run, .act 4 (.streamEnds (.codeExit 2)),
    .act 0 .run, .act 5 .frameRun, .act 5 (.frameWrote true), .act 0 .run]

theorem teardown_once_idleFirst :
    ∃ p, (session "15m").Reachable p ∧ p.shared.claimedBy = some .idle ∧
      p.shared.streamDone = some (.codeExit 2) ∧ p.shared.terminals = 1 ∧
      ∃ as q, (session "15m").exec p as = some q ∧ q.shared.cancelled = true := by
  have hp := Machine.Reachable.exec (M := session "15m") idleFirst (Machine.Reach.init rfl) rfl
  have h := teardown_once hp
  obtain ⟨-, as, q, -, ha, -, -, hq⟩ := h.2.2.2 5 _ rfl trivial
  exact ⟨_, hp, rfl, rfl, le_antisymm h.1 (by decide), as, q, ha, hq⟩

end KubeConsole.Exec
