import KubeConsole.Exec.Handler

/-!
The slots of the exec handler under every interleaving: what the gate and the
two pools record is what the open connections hold, and every connection gives
back what it took.
-/
namespace KubeConsole.Exec
open KubeConsole.Theory

/-- What `releaseHandshake` has given back so far. -/
def Once.gaveGate : Once → ℕ
  | .spent => 1
  | _ => 0

def Once.gavePending : Once → ℕ
  | .unused => 0
  | _ => 1

/-- The slots a connection has taken and given back at each point of its run. -/
def Conn.Ok (c : Conn) : Prop :=
  match c.pc with
  | .entry => c.releaseHandshake = .unused ∧ c.took = {} ∧ c.gave = {}
  | .admitted | .refusing =>
    c.releaseHandshake = .unused ∧ c.took = { gate := 1 } ∧ c.gave = {}
  | .accepting | .authenticating | .resolving | .promoting =>
    c.releaseHandshake = .unused ∧ c.took = { gate := 1, pending := 1 } ∧ c.gave = {}
  | .graduating =>
    c.releaseHandshake ≠ .spent ∧ c.took = ⟨1, 1, 1⟩ ∧
      c.gave = ⟨0, c.releaseHandshake.gavePending, 0⟩
  | .serving | .leaving => c.releaseHandshake = .spent ∧ c.took = ⟨1, 1, 1⟩ ∧ c.gave = ⟨1, 1, 0⟩
  | .returning =>
    (c.took = ⟨1, 1, 0⟩ ∧
      c.gave = ⟨c.releaseHandshake.gaveGate, c.releaseHandshake.gavePending, 0⟩) ∨
    (c.releaseHandshake = .spent ∧ c.took = ⟨1, 1, 1⟩ ∧ c.gave = ⟨1, 1, 1⟩)
  | .closed =>
    c.took = c.gave ∧ c.took.gate ≤ 1 ∧ c.took.pending ≤ 1 ∧ c.took.session ≤ 1

/-- The connection is between its gate acquire and its gate release. -/
def Conn.holdsGate (c : Conn) : Bool := c.took.gate = c.gave.gate + 1

def Conn.holdsPending (c : Conn) : Bool := c.took.pending = c.gave.pending + 1

def Conn.holdsSession (c : Conn) : Bool := c.took.session = c.gave.session + 1

/-- The connection took a session slot and has finished handing its handshake back. -/
def Conn.promoted (c : Conn) : Prop := c.took.session = 1 ∧ c.pc ≠ .graduating

/-- The connection's next operation gives a slot back. -/
def Conn.givingBack (c : Conn) : Prop :=
  c.pc = .refusing ∨ c.pc = .graduating ∨ c.pc = .leaving ∨ c.pc = .returning

/-- What an operation does to the slots: it touches at most one of the three
resources, and records it in what the connection took or gave. -/
inductive Effect (h : Handler) (c : Conn) : Handler → Slots → Slots → Prop where
  | none : Effect h c h c.took c.gave
  | takeGate {g} (ha : acquire h.handshakes c.ip = (true, g)) :
      Effect h c { h with handshakes := g } { c.took with gate := c.took.gate + 1 } c.gave
  | giveGate :
      Effect h c { h with handshakes := release h.handshakes c.ip } c.took
        { c.gave with gate := c.gave.gate + 1 }
  | takePending (hp : h.pending < h.pendingCap) :
      Effect h c { h with pending := h.pending + 1 } { c.took with pending := c.took.pending + 1 }
        c.gave
  | givePending (hp : h.pending ≠ 0) :
      Effect h c { h with pending := h.pending - 1 } c.took
        { c.gave with pending := c.gave.pending + 1 }
  | takeSession (hs : h.sessions < h.sessionsCap) :
      Effect h c { h with sessions := h.sessions + 1 }
        { c.took with session := c.took.session + 1 } c.gave
  | giveSession (hs : h.sessions ≠ 0) :
      Effect h c { h with sessions := h.sessions - 1 } c.took
        { c.gave with session := c.gave.session + 1 }

variable {h h' : Handler} {c c' : Conn} {e : Event}

theorem handBack_effect {after : Pc} (hs : handBack h c after = some (h', c')) :
    c'.ip = c.ip ∧ Effect h c h' c'.took c'.gave := by
  unfold handBack at hs
  split at hs
  · split at hs
    · cases hs
    next hp => cases hs; exact ⟨rfl, .givePending hp⟩
  · cases hs; exact ⟨rfl, .giveGate⟩
  · cases hs; exact ⟨rfl, .none⟩

/-- Every operation of a connection has one of the seven effects. -/
theorem serveHTTP_effect (hs : serveHTTP h c e = some (h', c')) :
    c'.ip = c.ip ∧ Effect h c h' c'.took c'.gave := by
  unfold serveHTTP at hs
  split at hs
  · split at hs
    · cases hs; exact ⟨rfl, .none⟩
    · split at hs
      next g ha => cases hs; exact ⟨rfl, .takeGate ha⟩
      next => cases hs; exact ⟨rfl, .none⟩
  · cases hs; exact ⟨rfl, .none⟩
  · split at hs
    next hp => cases hs; exact ⟨rfl, .takePending hp⟩
    next => cases hs; exact ⟨rfl, .none⟩
  · cases hs; exact ⟨rfl, .giveGate⟩
  · cases hs; exact ⟨rfl, .none⟩
  · cases hs; exact ⟨rfl, .none⟩
  · cases hs; exact ⟨rfl, .none⟩
  · split at hs
    next hp => cases hs; exact ⟨rfl, .takeSession hp⟩
    next => cases hs; exact ⟨rfl, .none⟩
  · cases hs; exact ⟨rfl, .none⟩
  · cases hs; exact ⟨rfl, .none⟩
  · cases hs; exact ⟨rfl, .none⟩
  · cases hs; exact ⟨rfl, .none⟩
  · exact handBack_effect hs
  · cases hs; exact ⟨rfl, .none⟩
  · cases hs; exact ⟨rfl, .none⟩
  · split at hs
    · cases hs
    next hp => cases hs; exact ⟨rfl, .giveSession hp⟩
  · exact handBack_effect hs
  · cases hs

theorem handBack_returning_ok (hc : c.Ok) (hp : c.pc = .returning)
    (hs : handBack h c .closed = some (h', c')) : c'.Ok := by
  simp only [Conn.Ok, hp] at hc
  unfold handBack at hs
  split at hs
  next ho =>
    split at hs
    · cases hs
    · cases hs
      rcases hc with ⟨ht, hg⟩ | ⟨hspent, -, -⟩
      · simp [Conn.Ok, hp, ht, hg, ho, Once.gaveGate, Once.gavePending]
      · exact absurd (ho.symm.trans hspent) (by decide)
  next ho =>
    cases hs
    rcases hc with ⟨ht, hg⟩ | ⟨hspent, -, -⟩
    · simp [Conn.Ok, ht, hg, ho, Once.gaveGate, Once.gavePending]
    · exact absurd (ho.symm.trans hspent) (by decide)
  next ho =>
    cases hs
    rcases hc with ⟨ht, hg⟩ | ⟨-, ht, hg⟩ <;>
      simp [Conn.Ok, ht, hg, ho, Once.gaveGate, Once.gavePending]

theorem handBack_graduating_ok (hc : c.Ok) (hp : c.pc = .graduating)
    (hs : handBack h c .serving = some (h', c')) : c'.Ok := by
  simp only [Conn.Ok, hp] at hc
  obtain ⟨hne, ht, hg⟩ := hc
  unfold handBack at hs
  split at hs
  next ho =>
    split at hs
    · cases hs
    · cases hs; simp [Conn.Ok, hp, ht, hg, ho, Once.gavePending]
  next ho => cases hs; simp [Conn.Ok, ht, hg, ho, Once.gavePending]
  next ho => exact absurd ho hne

/-- A connection in its handshake holds a gate and a pending slot wherever it
moves within the handshake, and when it starts to return from it. -/
theorem Conn.Ok.handshake (hc : c.Ok) {pc : Pc}
    (hp : c.pc = .accepting ∨ c.pc = .authenticating ∨ c.pc = .resolving ∨ c.pc = .promoting)
    (hn : pc = .authenticating ∨ pc = .resolving ∨ pc = .promoting ∨ pc = .returning) :
    Conn.Ok { c with pc } := by
  have hh : c.releaseHandshake = .unused ∧ c.took = { gate := 1, pending := 1 } ∧ c.gave = {} := by
    rcases hp with hp | hp | hp | hp <;> simpa only [Conn.Ok, hp] using hc
  obtain ⟨ho, ht, hg⟩ := hh
  rcases hn with rfl | rfl | rfl | rfl <;>
    simp [Conn.Ok, ho, ht, hg, Once.gaveGate, Once.gavePending]

/-- Every operation keeps the slots in step with the point the connection is at. -/
theorem serveHTTP_ok (hc : c.Ok) (hs : serveHTTP h c e = some (h', c')) : c'.Ok := by
  unfold serveHTTP at hs
  split at hs
  next hp =>
    obtain ⟨ho, ht, hg⟩ : c.releaseHandshake = .unused ∧ c.took = {} ∧ c.gave = {} := by
      simpa only [Conn.Ok, hp] using hc
    split at hs
    · cases hs; simp [Conn.Ok, ht, hg]
    · split at hs <;> cases hs <;> simp [Conn.Ok, ho, ht, hg]
  next hp =>
    simp only [Conn.Ok, hp] at hc
    cases hs; simp [Conn.Ok, hc.2.1, hc.2.2]
  next hp =>
    simp only [Conn.Ok, hp] at hc
    split at hs <;> cases hs <;> simp [Conn.Ok, hc.1, hc.2.1, hc.2.2]
  next hp =>
    simp only [Conn.Ok, hp] at hc
    cases hs; simp [Conn.Ok, hc.2.1, hc.2.2]
  next ok hp => cases hs; exact hc.handshake (by simp [hp]) (by cases ok <;> simp)
  next ok hp => cases hs; exact hc.handshake (by simp [hp]) (by cases ok <;> simp)
  next ok hp => cases hs; exact hc.handshake (by simp [hp]) (by cases ok <;> simp)
  next hp =>
    split at hs
    · simp only [Conn.Ok, hp] at hc
      cases hs; simp [Conn.Ok, hc.1, hc.2.1, hc.2.2, Once.gavePending]
    · cases hs; exact hc.handshake (by simp [hp]) (by simp)
  next hp => cases hs; exact hc.handshake (by simp [hp]) (by simp)
  next hp => cases hs; exact hc.handshake (by simp [hp]) (by simp)
  next hp => cases hs; exact hc.handshake (by simp [hp]) (by simp)
  next hp => cases hs; exact hc.handshake (by simp [hp]) (by simp)
  next hp => exact handBack_graduating_ok hc hp hs
  next hp => simp only [Conn.Ok, hp] at hc; cases hs; simpa [Conn.Ok] using hc
  next hp => simp only [Conn.Ok, hp] at hc; cases hs; simpa [Conn.Ok] using hc
  next hp =>
    simp only [Conn.Ok, hp] at hc
    split at hs
    · cases hs
    · cases hs; simp [Conn.Ok, hc.1, hc.2.1, hc.2.2]
  next hp => exact handBack_returning_ok hc hp hs
  next => cases hs

/-- A connection gives back no more than it took, and takes each resource at most once. -/
theorem Conn.Ok.bounds (hc : c.Ok) :
    (c.gave.gate ≤ c.took.gate ∧ c.took.gate ≤ 1) ∧
      (c.gave.pending ≤ c.took.pending ∧ c.took.pending ≤ 1) ∧
      (c.gave.session ≤ c.took.session ∧ c.took.session ≤ 1) := by
  have hgp : c.releaseHandshake.gavePending ≤ 1 := by cases c.releaseHandshake <;> decide
  have hgg : c.releaseHandshake.gaveGate ≤ 1 := by cases c.releaseHandshake <;> decide
  cases hp : c.pc <;> simp only [Conn.Ok, hp] at hc
  case closed =>
    obtain ⟨ht, h1, h2, h3⟩ := hc
    rw [← ht]
    exact ⟨⟨le_rfl, h1⟩, ⟨le_rfl, h2⟩, le_rfl, h3⟩
  case returning =>
    rcases hc with ⟨ht, hg⟩ | ⟨-, ht, hg⟩ <;> rw [ht, hg] <;> simp [hgp, hgg]
  all_goals obtain ⟨-, ht, hg⟩ := hc; rw [ht, hg]; simp [hgp]

theorem conn_ok {cfg : Config} {p : Pool Handler Conn} (hp : (admission cfg).Reachable p) :
    ∀ c ∈ p.threads, c.Ok :=
  Program.forall_threads (by simp) (fun _ => by simp [Conn.Ok, connections])
    (fun _ _ _ _ _ hc hs => serveHTTP_ok hc hs) hp

/-- What the operations leave alone: the capacities, and that the gate is enabled. -/
structure Handler.Sized (cfg : Config) (h : Handler) : Prop where
  pendingCap : h.pendingCap = handshakePoolFactor * cfg.maxExecSessions
  sessionsCap : h.sessionsCap = cfg.maxExecSessions
  pending_le : h.pending ≤ h.pendingCap
  sessions_le : h.sessions ≤ h.sessionsCap
  gate : 0 < cfg.maxExecHandshakesPerIP →
    ∃ g, h.handshakes = some g ∧ (g.limit : ℤ) = cfg.maxExecHandshakesPerIP

theorem acquire_some {g : IpGate} {key : String} {r : Option IpGate}
    (ha : acquire (some g) key = (true, r)) : ∃ hlt : g.count key < g.limit, r = some (g.take key hlt) := by
  unfold acquire at ha
  simp only at ha
  split at ha
  next hlt => cases ha; exact ⟨hlt, rfl⟩
  next => cases ha

theorem Effect.sized {cfg : Config} {t g : Slots} (he : Effect h c h' t g) (hh : h.Sized cfg) :
    h'.Sized cfg := by
  obtain ⟨hpc, hsc, hp, hs, hg⟩ := hh
  cases he with
  | none => exact ⟨hpc, hsc, hp, hs, hg⟩
  | takeGate ha =>
    refine ⟨hpc, hsc, hp, hs, fun hpos => ?_⟩
    obtain ⟨g, heq, hlim⟩ := hg hpos
    rw [heq] at ha
    obtain ⟨hlt, rfl⟩ := acquire_some ha
    exact ⟨_, rfl, hlim⟩
  | giveGate =>
    refine ⟨hpc, hsc, hp, hs, fun hpos => ?_⟩
    obtain ⟨g, heq, hlim⟩ := hg hpos
    exact ⟨g.give c.ip, by simp [release, heq], by simpa using hlim⟩
  | takePending hlt => exact ⟨hpc, hsc, hlt, hs, hg⟩
  | givePending _ => exact ⟨hpc, hsc, (Nat.sub_le _ _).trans hp, hs, hg⟩
  | takeSession hlt => exact ⟨hpc, hsc, hp, hlt, hg⟩
  | giveSession _ => exact ⟨hpc, hsc, hp, (Nat.sub_le _ _).trans hs, hg⟩

theorem handler_sized {cfg : Config} {p : Pool Handler Conn} (hp : (admission cfg).Reachable p) :
    p.shared.Sized cfg := by
  refine Program.pool_invariant (I := fun p => p.shared.Sized cfg) ?_ (fun _ _ h => h) ?_ hp
  · refine ⟨rfl, rfl, Nat.zero_le _, Nat.zero_le _, fun hpos => ?_⟩
    simp only [newHandler, newIPGate, not_le.mpr hpos, ↓reduceIte]
    exact ⟨_, rfl, Int.toNat_of_nonneg hpos.le⟩
  · intro p i hi e s c hI ho
    exact (serveHTTP_effect ho).2.sized hI

private theorem toNat_holds {took gave : ℕ} (h : gave ≤ took ∧ took ≤ 1) :
    (decide (took = gave + 1)).toNat = took - gave := by
  by_cases heq : took = gave + 1
  · simp [heq]
  · simp only [heq, decide_false, Bool.toNat_false]; omega

/-- The pending pool holds one slot for each connection between taking and
giving back its own. -/
theorem pending_eq {cfg : Config} {p : Pool Handler Conn} (hp : (admission cfg).Reachable p) :
    p.shared.pending = p.threads.countP Conn.holdsPending := by
  refine Program.accounting_count (I := fun _ c => c.Ok) Handler.pending Conn.holdsPending
    (fun _ hq c hc => conn_ok hq c hc) rfl (fun _ => rfl) ?_ hp
  intro h c e h' c' hc _ hs
  have hb := hc.bounds.2.1
  have hb' := (serveHTTP_ok hc hs).bounds.2.1
  obtain ⟨-, he⟩ := serveHTTP_effect hs
  simp only [Conn.holdsPending, toNat_holds hb, toNat_holds hb']
  generalize c'.took = t at he hb' ⊢
  generalize c'.gave = g at he hb' ⊢
  cases he <;> simp only at hb' ⊢ <;> omega

/-- The session pool likewise. -/
theorem sessions_eq {cfg : Config} {p : Pool Handler Conn} (hp : (admission cfg).Reachable p) :
    p.shared.sessions = p.threads.countP Conn.holdsSession := by
  refine Program.accounting_count (I := fun _ c => c.Ok) Handler.sessions Conn.holdsSession
    (fun _ hq c hc => conn_ok hq c hc) rfl (fun _ => rfl) ?_ hp
  intro h c e h' c' hc _ hs
  have hb := hc.bounds.2.2
  have hb' := (serveHTTP_ok hc hs).bounds.2.2
  obtain ⟨-, he⟩ := serveHTTP_effect hs
  simp only [Conn.holdsSession, toNat_holds hb, toNat_holds hb']
  generalize c'.took = t at he hb' ⊢
  generalize c'.gave = g at he hb' ⊢
  cases he <;> simp only at hb' ⊢ <;> omega

/-- What one connection holds at the gate of `ip`. -/
def Conn.holdsGateOf (ip : String) (c : Conn) : Bool := c.ip = ip && c.holdsGate

private theorem toNat_holdsGateOf {ip : String} (h : c.gave.gate ≤ c.took.gate ∧ c.took.gate ≤ 1) :
    (c.holdsGateOf ip).toNat = if c.ip = ip then c.took.gate - c.gave.gate else 0 := by
  by_cases hk : c.ip = ip
  · simp [Conn.holdsGateOf, hk, Conn.holdsGate, toNat_holds h]
  · simp [Conn.holdsGateOf, hk]

/-- The gate's count of a key is the number of that key's connections between
their gate acquire and their gate release. -/
theorem heldBy_eq {cfg : Config} (hlimit : 0 < cfg.maxExecHandshakesPerIP) (ip : String)
    {p : Pool Handler Conn} (hp : (admission cfg).Reachable p) :
    heldBy p.shared.handshakes ip = p.threads.countP (Conn.holdsGateOf ip) := by
  refine Program.accounting_count (I := fun h c => h.Sized cfg ∧ c.Ok)
    (fun h => heldBy h.handshakes ip) (Conn.holdsGateOf ip)
    (fun _ hq c hc => ⟨handler_sized hq, conn_ok hq c hc⟩) ?_
    (fun _ => by simp [connections, Conn.holdsGateOf, Conn.holdsGate]) ?_ hp
  · simp [newHandler, newIPGate, not_le.mpr hlimit, heldBy, IpGate.count]
  rintro h c e h' c' ⟨hh, hc⟩ hle hs
  have hb := hc.bounds.1
  have hb' := (serveHTTP_ok hc hs).bounds.1
  obtain ⟨g, hg, -⟩ := hh.gate hlimit
  obtain ⟨hip, he⟩ := serveHTTP_effect hs
  rw [toNat_holdsGateOf hb] at hle ⊢
  rw [toNat_holdsGateOf hb', hip]
  generalize c'.took = t at he hb' ⊢
  generalize c'.gave = s at he hb' ⊢
  cases he with
  | takeGate ha =>
    rw [hg] at ha
    obtain ⟨hlt, rfl⟩ := acquire_some ha
    simp only [heldBy, hg, Option.elim_some, IpGate.take_count, eq_comm (a := ip)] at hb' ⊢
    split_ifs <;> omega
  | giveGate =>
    simp only [heldBy, release, hg, Option.map_some, Option.elim_some, IpGate.give_count,
      eq_comm (a := ip)] at hle hb' ⊢
    split_ifs at hle ⊢ <;> omega
  | _ => rfl

/-- A promoted connection has handed its handshake back. -/
theorem Conn.Ok.promoted (hc : c.Ok) (hp : c.promoted) :
    c.holdsGate = false ∧ c.holdsPending = false := by
  obtain ⟨hs, hne⟩ := hp
  cases hpc : c.pc <;> simp only [Conn.Ok, hpc] at hc
  case graduating => exact absurd hpc hne
  case closed => simp [Conn.holdsGate, Conn.holdsPending, hc.1]
  case returning =>
    rcases hc with ⟨ht, -⟩ | ⟨-, ht, hg⟩
    · simp [ht] at hs
    · simp [Conn.holdsGate, Conn.holdsPending, ht, hg]
  case serving | leaving => simp [Conn.holdsGate, Conn.holdsPending, hc.2.1, hc.2.2]
  all_goals simp [hc.2.1] at hs

/-- A closed connection has given back exactly what it took. -/
theorem Conn.Ok.closed (hc : c.Ok) (hp : c.pc = .closed) : c.gave = c.took := by
  simp only [Conn.Ok, hp] at hc
  exact hc.1.symm

theorem Conn.Ok.holds_of_closed (hc : c.Ok) (hp : c.pc = .closed) :
    c.holdsGate = false ∧ c.holdsPending = false ∧ c.holdsSession = false := by
  simp [Conn.holdsGate, Conn.holdsPending, Conn.holdsSession, hc.closed hp]

/-- A connection about to give a slot back is one of those the resource counts,
so the receive from the channel finds an element. -/
theorem givingBack_enabled (hc : c.Ok) (hg : c.givingBack)
    (hpend : c.holdsPending → 0 < h.pending) (hsess : c.holdsSession → 0 < h.sessions) :
    (serveHTTP h c .run).isSome := by
  have hback (after : Pc) (hheld : c.releaseHandshake = .unused → c.holdsPending) :
      (handBack h c after).isSome := by
    unfold handBack
    split
    next ho => rw [if_neg (hpend (hheld ho)).ne']; rfl
    next => rfl
    next => rfl
  rcases hg with hp | hp | hp | hp <;> simp only [Conn.Ok, hp] at hc <;>
    simp only [serveHTTP, hp]
  · rfl
  · refine hback _ fun ho => ?_
    simp [Conn.holdsPending, hc.2.1, hc.2.2, ho, Once.gavePending]
  · have hs := hsess (by simp [Conn.holdsSession, hc.2.1, hc.2.2])
    rw [if_neg hs.ne']
    rfl
  · refine hback _ fun ho => ?_
    rcases hc with ⟨ht, hg⟩ | ⟨hspent, -, -⟩
    · simp [Conn.holdsPending, ht, hg, ho, Once.gavePending]
    · exact absurd (ho.symm.trans hspent) (by decide)

private theorem countP_pos_of_mem {q : Conn → Bool} {cs : List Conn} (hc : c ∈ cs) (hq : q c) :
    0 < cs.countP q :=
  List.countP_pos_iff.mpr ⟨c, hc, hq⟩

private theorem countP_closed {q : Conn → Bool} {cs : List Conn} (hq : ∀ c ∈ cs, q c = false) :
    cs.countP q = 0 :=
  List.countP_eq_zero.mpr fun c hc => by simp [hq c hc]

/-- With a positive limit per address, in every interleaving of exec connections:
the gate and the pools record exactly what the connections between taking and
giving back hold, and stay within their bounds; a promoted connection holds
nothing of its handshake; each slot is taken at most once, given back at most
once and exactly once by the time the connection is closed, and giving back
never blocks; with every connection closed nothing is held. -/
theorem admission_accounts (cfg : Config) (hlimit : 0 < cfg.maxExecHandshakesPerIP)
    (p : Pool Handler Conn) (hp : (admission cfg).Reachable p) :
    (∀ ip, heldBy p.shared.handshakes ip = p.threads.countP (Conn.holdsGateOf ip) ∧
      (heldBy p.shared.handshakes ip : ℤ) ≤ cfg.maxExecHandshakesPerIP) ∧
    (p.shared.pending = p.threads.countP Conn.holdsPending ∧
      p.shared.pending ≤ handshakePoolFactor * cfg.maxExecSessions) ∧
    (p.shared.sessions = p.threads.countP Conn.holdsSession ∧
      p.shared.sessions ≤ cfg.maxExecSessions) ∧
    (∀ c ∈ p.threads, c.promoted → c.holdsGate = false ∧ c.holdsPending = false) ∧
    (∀ c ∈ p.threads,
      (c.gave.gate ≤ c.took.gate ∧ c.took.gate ≤ 1) ∧
      (c.gave.pending ≤ c.took.pending ∧ c.took.pending ≤ 1) ∧
      (c.gave.session ≤ c.took.session ∧ c.took.session ≤ 1) ∧
      (c.pc = .closed → c.gave = c.took) ∧
      (c.givingBack → (serveHTTP p.shared c .run).isSome)) ∧
    ((∀ c ∈ p.threads, c.pc = .closed) →
      p.shared.pending = 0 ∧ p.shared.sessions = 0 ∧
        ∃ g, p.shared.handshakes = some g ∧ g.held = ∅) := by
  have hok := conn_ok hp
  have hsz := handler_sized hp
  obtain ⟨g, hg, hlim⟩ := hsz.gate hlimit
  refine ⟨fun ip => ⟨heldBy_eq hlimit ip hp, ?_⟩, ⟨pending_eq hp, ?_⟩, ⟨sessions_eq hp, ?_⟩,
    fun c hc => (hok c hc).promoted, fun c hc => ?_, fun hall => ?_⟩
  · rw [← hlim, hg]
    exact_mod_cast g.count_le ip
  · rw [← hsz.pendingCap]; exact hsz.pending_le
  · rw [← hsz.sessionsCap]; exact hsz.sessions_le
  · obtain ⟨h1, h2, h3⟩ := (hok c hc).bounds
    refine ⟨h1, h2, h3, (hok c hc).closed, fun hb => givingBack_enabled (hok c hc) hb ?_ ?_⟩
    · intro hh; rw [pending_eq hp]; exact countP_pos_of_mem hc hh
    · intro hh; rw [sessions_eq hp]; exact countP_pos_of_mem hc hh
  · have hnone (c : Conn) (hc : c ∈ p.threads) := (hok c hc).holds_of_closed (hall c hc)
    refine ⟨?_, ?_, g, hg, IpGate.held_eq_empty fun ip => ?_⟩
    · rw [pending_eq hp]; exact countP_closed fun c hc => (hnone c hc).2.1
    · rw [sessions_eq hp]; exact countP_closed fun c hc => (hnone c hc).2.2
    · have h0 : heldBy p.shared.handshakes ip = 0 := by
        rw [heldBy_eq hlimit ip hp]
        exact countP_closed fun c hc => by simp [Conn.holdsGateOf, (hnone c hc).1]
      simpa [heldBy, hg] using h0

/-- One connection of a handler with room for one session, from arrival to close. -/
def oneSession : List (PoolAction String Event) :=
  .spawn "10.0.0.1" ::
    [.run, .run, .result true, .result true, .result true, .run, .run, .run, .finish, .run,
      .run].map (.act 0)

theorem admission_accounts_oneSession :
    ∃ p, ((admission ⟨true, 1, 1⟩).exec ⟨newHandler ⟨true, 1, 1⟩, []⟩ oneSession = some p) ∧
      (∀ c ∈ p.threads, c.pc = .closed) ∧ p.shared.pending = 0 ∧ p.shared.sessions = 0 := by
  refine ⟨_, rfl, by decide, ?_⟩
  have h := admission_accounts ⟨true, 1, 1⟩ (by decide) _
    (Machine.Reachable.exec oneSession (Machine.Reach.init rfl) rfl)
  exact ⟨(h.2.2.2.2.2 (by decide)).1, (h.2.2.2.2.2 (by decide)).2.1⟩

end KubeConsole.Exec
