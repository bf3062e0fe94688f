import KubeConsole.Exec.Limits
import KubeConsole.Theory.Threads

/-!
Admission of exec connections (`internal/exec/handler.go` and the promotion in
`internal/exec/session.go`).

A connection is a goroutine that moves between three resources: the handshake
gate of its address, the pool of pending handshakes and the pool of sessions.
Each constructor of `Pc` is a point of the source between two operations that
other connections can observe, so every interleaving of the operations is one of
the model. A channel used as a semaphore is its length and its capacity.
-/
namespace KubeConsole.Exec
open KubeConsole.Theory

/-- `handshakePoolFactor`. -/
def handshakePoolFactor : ℕ := 2

/-- The settings `NewHandler` reads for admission. -/
structure Config where
  execEnabled : Bool
  maxExecSessions : ℕ
  maxExecHandshakesPerIP : ℤ

/-- The `Handler` fields that connections share: the gate and the two channels. -/
structure Handler where
  enabled : Bool
  handshakes : Option IpGate
  pending : ℕ
  pendingCap : ℕ
  sessions : ℕ
  sessionsCap : ℕ

/-- `NewHandler`. -/
def newHandler (cfg : Config) : Handler where
  enabled := cfg.execEnabled
  handshakes := newIPGate cfg.maxExecHandshakesPerIP
  pending := 0
  pendingCap := handshakePoolFactor * cfg.maxExecSessions
  sessions := 0
  sessionsCap := cfg.maxExecSessions

/-- Where a connection's goroutine is. -/
inductive Pc where
  /-- `ServeHTTP` entered, nothing taken. -/
  | entry
  /-- The gate admitted it; at the `select` on `h.pending`. -/
  | admitted
  /-- The pending pool was full; at `h.handshakes.release(ip)`. -/
  | refusing
  /-- In `websocket.Accept`, with `releaseHandshake` deferred from here on. -/
  | accepting
  /-- In `readAuthFrame`. -/
  | authenticating
  /-- In `h.registry.Resolve`. -/
  | resolving
  /-- At the `select` on `h.sessions`. -/
  | promoting
  /-- A session slot is taken; in `releaseHandshake()` of that case. -/
  | graduating
  /-- The session runs, with `<-h.sessions` deferred. -/
  | serving
  /-- Returning or unwinding past the deferred `<-h.sessions`. -/
  | leaving
  /-- Returning or unwinding past the deferred `releaseHandshake()`. -/
  | returning
  | closed
  deriving DecidableEq, Repr

/-- Progress of the `sync.OnceFunc` `releaseHandshake`, which first receives from
`h.pending` and then releases the gate. -/
inductive Once where
  | unused | received | spent
  deriving DecidableEq, Repr

/-- A number of slots of each resource. -/
structure Slots where
  gate : ℕ := 0
  pending : ℕ := 0
  session : ℕ := 0
  deriving DecidableEq, Repr

/-- One connection. `took` and `gave` record how often it took and gave back each
resource; no operation reads them. -/
structure Conn where
  ip : String
  pc : Pc := .entry
  releaseHandshake : Once := .unused
  took : Slots := {}
  gave : Slots := {}
  deriving DecidableEq, Repr

/-- What happens to a connection next: its own next operation, or how the call it
is in ends. -/
inductive Event where
  /-- Perform the next operation of the goroutine itself. -/
  | run
  /-- `websocket.Accept`, `readAuthFrame` or `Resolve` returns. -/
  | result (ok : Bool)
  /-- The session ends by itself. -/
  | finish
  | panic
  deriving DecidableEq, Repr

/-- One operation of `releaseHandshake()`, and where the goroutine is once the
call has returned. Receiving from an empty channel would block. -/
def handBack (h : Handler) (c : Conn) (after : Pc) : Option (Handler × Conn) :=
  match c.releaseHandshake with
  | .unused =>
    if h.pending = 0 then none else
      some ({ h with pending := h.pending - 1 },
        { c with releaseHandshake := .received, gave := { c.gave with pending := c.gave.pending + 1 } })
  | .received =>
    some ({ h with handshakes := release h.handshakes c.ip },
      { c with releaseHandshake := .spent, pc := after, gave := { c.gave with gate := c.gave.gate + 1 } })
  | .spent => some (h, { c with pc := after })

/-- `ServeHTTP` and the admission part of `session`, one operation at a time. -/
def serveHTTP (h : Handler) (c : Conn) (e : Event) : Option (Handler × Conn) :=
  match c.pc, e with
  | .entry, .run =>
    if !h.enabled then some (h, { c with pc := .closed }) else
      match acquire h.handshakes c.ip with
      | (true, g) => some ({ h with handshakes := g },
          { c with pc := .admitted, took := { c.took with gate := c.took.gate + 1 } })
      | (false, _) => some (h, { c with pc := .closed })
  | .entry, .panic => some (h, { c with pc := .closed })
  | .admitted, .run =>
    if h.pending < h.pendingCap then
      some ({ h with pending := h.pending + 1 },
        { c with pc := .accepting, took := { c.took with pending := c.took.pending + 1 } })
    else some (h, { c with pc := .refusing })
  | .refusing, .run =>
    some ({ h with handshakes := release h.handshakes c.ip },
      { c with pc := .closed, gave := { c.gave with gate := c.gave.gate + 1 } })
  | .accepting, .result ok => some (h, { c with pc := if ok then .authenticating else .returning })
  | .authenticating, .result ok => some (h, { c with pc := if ok then .resolving else .returning })
  | .resolving, .result ok => some (h, { c with pc := if ok then .promoting else .returning })
  | .promoting, .run =>
    if h.sessions < h.sessionsCap then
      some ({ h with sessions := h.sessions + 1 },
        { c with pc := .graduating, took := { c.took with session := c.took.session + 1 } })
    else some (h, { c with pc := .returning })
  | .accepting, .panic | .authenticating, .panic | .resolving, .panic | .promoting, .panic =>
    some (h, { c with pc := .returning })
  | .graduating, .run => handBack h c .serving
  | .serving, .finish | .serving, .panic => some (h, { c with pc := .leaving })
  | .leaving, .run =>
    if h.sessions = 0 then none else
      some ({ h with sessions := h.sessions - 1 },
        { c with pc := .returning, gave := { c.gave with session := c.gave.session + 1 } })
  | .returning, .run => handBack h c .closed
  | _, _ => none

/-- Exec connections arriving from their addresses. -/
def connections : Program Handler Conn String Event where
  start ip := { ip }
  op := serveHTTP

/-- The handler of `cfg` under any interleaving of its connections. -/
def admission (cfg : Config) : Machine (Pool Handler Conn) (PoolAction String Event) :=
  connections.pool ⟨newHandler cfg, []⟩

end KubeConsole.Exec
