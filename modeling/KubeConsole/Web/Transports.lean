import KubeConsole.Theory.Threads
import KubeConsole.Web.AuthStore

/-!
The two transports that carry the session's token: `apiFetch` (`api/http.ts`) with the
`KubernetesTokenProvider`, and the socket of `composables/useExecSession.ts`. Each call is
a thread that runs up to its next `await`; in between the page signs in and out, switches
clusters and lets time pass.
-/
namespace KubeConsole.Web
open KubeConsole.Theory

/-- `UNKNOWN_CONTEXT_MESSAGE`. -/
def unknownContextMessage : JStr := js "unknown cluster context"

inductive ExecStatus where
  | idle | connecting | ready | closed | error
  deriving DecidableEq, Repr

/-- The status after `stop`. -/
def ExecStatus.onStop : ExecStatus → ExecStatus
  | .connecting | .ready => .closed
  | status => status

/-- One use of `useExecSession`. -/
structure ExecSession where
  status : ExecStatus := .idle
  errorMessage : Option JStr := none
  ws : Option ℕ := none
  gen : ℕ := 0
  deriving DecidableEq, Repr

/-- What a call holds of the store after `getBearerToken`: the token, and for the record
the session it is the token of, the active context and the length of the history then. -/
structure TokenRead where
  token : Option JStr
  session : Option StoredSession
  context : JStr
  began : ℕ
  deriving DecidableEq, Repr

/-- A request or an auth frame as it was sent. `read` is the token it carries, if that is
the session's, and `moments` are the values `sessions` has had during the call. -/
structure Sent where
  read : Option TokenRead
  /-- The value of the context header or of the frame's context field. -/
  context : Option JStr
  /-- The caller has set the context header itself. -/
  callerContext : Bool
  moments : List Sessions

/-- The headers a caller of `apiFetch` supplies, and `skipUnauthorizedHandler`. -/
structure FetchOptions where
  authorization : Option JStr := none
  kubeContext : Option JStr := none
  skipUnauthorizedHandler : Bool := false
  deriving DecidableEq, Repr

structure Console where
  auth : AuthStore
  /-- Whether `setCredentialProvider` has been called. -/
  provider : Bool := true
  execs : ℕ → ExecSession := fun _ => {}
  sockets : ℕ := 0
  closedSockets : List ℕ := []
  /-- How often the router has been sent to the login page. -/
  logins : ℕ := 0
  sent : List Sent := []

/-- The page, or a call at one of its awaits. -/
inductive Call where
  | page
  | fetch (opts : FetchOptions)
  | fetchToken (opts : FetchOptions) (read : TokenRead)
  /-- The request has been sent, as number `request`. -/
  | fetchSent (opts : FetchOptions) (request : ℕ) (requestContext : JStr)
  /-- Awaiting `provider.logout`. -/
  | fetchLogout (request : ℕ) (requestContext : JStr)
  | exec (inst : ℕ)
  | execToken (inst myGen : ℕ) (read : TokenRead)
  | socket (inst ws : ℕ) (read : Option TokenRead) (context : Option JStr) (opened : Bool)
  | returned
  deriving DecidableEq, Repr

inductive CallStart where
  | apiFetch (opts : FetchOptions)
  | execStart (inst : ℕ)
  deriving DecidableEq, Repr

inductive ControlFrame where
  | ready
  | error (message : Option JStr)
  | exit
  deriving DecidableEq, Repr

inductive CallEvent where
  | run
  | setSession (context newToken : JStr) (newIdentity : Option Identity) (unavailable : Bool)
  | setActiveContext (name : JStr)
  | clearSession (context : JStr)
  | pruneExpiredSessions
  | setLocalAuth (enabled : Bool)
  | setProvider (set : Bool)
  | clock (ms : ℕ)
  | execStop (inst : ℕ)
  | ok
  /-- An error response, with the default context of the list that is cached. -/
  | failed (status : ℕ) (message : JStr) (knownDefault : Option JStr)
  | networkError
  | socketOpen
  | socketFrame (frame : ControlFrame)
  | socketClose
  | socketError
  deriving DecidableEq, Repr

namespace Console

/-- `KubernetesTokenProvider.getBearerToken`. -/
def getBearerToken (s : Console) : Console × TokenRead :=
  let auth := s.auth.pruneExpiredSessions
  ({ s with auth }, ⟨auth.token, auth.tokenRecord, auth.activeContext, s.auth.history.length⟩)

/-- `KubernetesTokenProvider.getContext`, null without a provider. -/
def getContext (s : Console) : Option JStr :=
  if s.provider && s.auth.activeContext ≠ [] then some s.auth.activeContext else none

/-- `KubernetesTokenProvider.logout`. -/
def logout (s : Console) (context : JStr) : Console :=
  if s.auth.localAuth then s else { s with auth := s.auth.clearSession context }

/-- The rest of `apiFetch` up to the response: the context is read and the request sent. -/
def send (s : Console) (opts : FetchOptions) (read : Option TokenRead) : Console × Call :=
  let context := opts.kubeContext.or s.getContext
  let read := read.filter fun r => r.token ≠ none && r.token ≠ some []
  let began := (read.map (·.began)).getD s.auth.history.length
  ({ s with sent := s.sent ++ [⟨read, context, opts.kubeContext.isSome, s.auth.moments began⟩] },
    .fetchSent opts s.sent.length (context.getD []))

/-- The handler of a 401 that `main.ts` registers. -/
def onUnauthorized (s : Console) (context : JStr) : Console :=
  if s.auth.localAuth then s
  else
    let s := { s with auth := s.auth.clearSession context }
    if context = s.auth.activeContext then { s with logins := s.logins + 1 } else s

/-- The handler of an unknown context, with `recoverFromUnknownContext`. -/
def onUnknownContext (s : Console) (context : JStr) (knownDefault : Option JStr) : Console :=
  if context ≠ s.auth.activeContext then s
  else
    let auth := s.auth.clearSession context
    let fallback := match knownDefault with
      | some name => if name ≠ [] then name else auth.activeContext
      | none => auth.activeContext
    let auth := auth.setActiveContext fallback
    if auth.isAuthenticated then { s with auth } else { s with auth, logins := s.logins + 1 }

def setExec (s : Console) (inst : ℕ) (e : ExecSession) : Console :=
  { s with execs := Function.update s.execs inst e }

/-- `stop` of one exec session. -/
def execStop (s : Console) (inst : ℕ) : Console :=
  let e := s.execs inst
  { s with closedSockets := e.ws.toList ++ s.closedSockets }.setExec inst
    { e with
      gen := e.gen + 1
      ws := none
      status := e.status.onStop }

/-- The rest of `start` of one exec session, up to the socket's events. -/
def connect (s : Console) (inst myGen : ℕ) (read : Option TokenRead) : Console × Call :=
  let context := s.getContext
  let e := s.execs inst
  let token := read.bind (·.token)
  if myGen ≠ e.gen then (s, .returned)
  else if (token = none || token = some []) && !s.auth.localAuth then
    (s.setExec inst { e with status := .error, errorMessage := some (js "Not authenticated.") },
      .returned)
  else
    ({ s with sockets := s.sockets + 1 }.setExec inst { e with ws := some s.sockets },
      .socket inst s.sockets read context false)

/-- `socket.onopen`: the auth frame. An empty token stands for none. -/
def sendAuthFrame (s : Console) (read : Option TokenRead) (context : Option JStr) : Console :=
  let read := read.filter fun r => r.token ≠ none && r.token ≠ some []
  let began := (read.map (·.began)).getD s.auth.history.length
  { s with sent := s.sent ++ [⟨read, context, false, s.auth.moments began⟩] }

/-- `socket.onmessage` with a control frame. -/
def onControlFrame (e : ExecSession) : ControlFrame → ExecSession
  | .ready => { e with status := .ready }
  | .error message =>
    { e with status := .error, errorMessage := some (message.getD (js "exec failed")) }
  | .exit => { e with status := .closed }

/-- One operation of the page or of a call. -/
def op (s : Console) : Call → CallEvent → Option (Console × Call)
  | .page, .setSession context newToken newIdentity unavailable =>
    some ({ s with auth := s.auth.setSession context newToken newIdentity unavailable }, .page)
  | .page, .setActiveContext name => some ({ s with auth := s.auth.setActiveContext name }, .page)
  | .page, .clearSession context => some ({ s with auth := s.auth.clearSession context }, .page)
  | .page, .pruneExpiredSessions => some ({ s with auth := s.auth.pruneExpiredSessions }, .page)
  | .page, .setLocalAuth enabled =>
    some ({ s with auth := { s.auth with localAuth := enabled } }, .page)
  | .page, .setProvider set => some ({ s with provider := set }, .page)
  | .page, .clock ms => some ({ s with auth := { s.auth with now := s.auth.now + ms } }, .page)
  | .page, .execStop inst => some (s.execStop inst, .page)
  | .fetch opts, .run =>
    if opts.authorization.isNone && s.provider then
      some (s.getBearerToken.1, .fetchToken opts s.getBearerToken.2)
    else some (s.send opts none)
  | .fetchToken opts read, .run => some (s.send opts (some read))
  | .fetchSent _ _ _, .ok => some (s, .returned)
  | .fetchSent _ _ _, .networkError => some (s, .returned)
  | .fetchSent opts request requestContext, .failed status message knownDefault =>
    if status = 401 && !opts.skipUnauthorizedHandler then
      some (if s.provider then s.logout requestContext else s, .fetchLogout request requestContext)
    else if status = 400 && !opts.skipUnauthorizedHandler && message = unknownContextMessage then
      some (s.onUnknownContext requestContext knownDefault, .returned)
    else some (s, .returned)
  | .fetchLogout _ requestContext, .run => some (s.onUnauthorized requestContext, .returned)
  | .exec inst, .run =>
    let s := s.execStop inst
    let e := s.execs inst
    let s := s.setExec inst { e with gen := e.gen + 1, status := .connecting, errorMessage := none }
    if s.provider then some (s.getBearerToken.1, .execToken inst (e.gen + 1) s.getBearerToken.2)
    else some (s.connect inst (e.gen + 1) none)
  | .execToken inst myGen read, .run => some (s.connect inst myGen (some read))
  | .socket inst ws read context false, .socketOpen =>
    if ws ∈ s.closedSockets then none
    else some (s.sendAuthFrame read context, .socket inst ws read context true)
  -- `stop` has taken the other handlers from a socket before closing it.
  | .socket inst ws read context opened, .socketFrame frame =>
    if ws ∈ s.closedSockets then none
    else some (s.setExec inst (onControlFrame (s.execs inst) frame),
      .socket inst ws read context opened)
  | .socket inst ws _ _ _, .socketClose =>
    if ws ∈ s.closedSockets then none
    else
      let e := s.execs inst
      some (s.setExec inst { e with
        status := if e.status ≠ .error then .closed else e.status
        ws := if e.ws = some ws then none else e.ws }, .returned)
  | .socket inst ws read context opened, .socketError =>
    if ws ∈ s.closedSockets then none
    else
      let e := s.execs inst
      some (if e.status = .connecting then s.setExec inst
          { e with status := .error, errorMessage := some (js "WebSocket connection failed.") }
        else s, .socket inst ws read context opened)
  | _, _ => none

end Console

/-- The calls that carry a token, any number of them. -/
def transports : Program Console Call CallStart CallEvent where
  start
    | .apiFetch opts => .fetch opts
    | .execStart inst => .exec inst
  op := Console.op

/-- A tab whose store was restored from storage, and every interleaving from there. -/
def consoleTab (storage : Storage) (now : ℕ) :
    Machine (Pool Console Call) (PoolAction CallStart CallEvent) :=
  transports.pool ⟨{ auth := .restore storage now }, [.page]⟩

end KubeConsole.Web
