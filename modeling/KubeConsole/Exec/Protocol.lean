import KubeConsole.Kube.Registry

/-!
The auth frame an exec connection starts with (`internal/exec/protocol.go`) and the
client configuration its session streams with (`internal/exec/session.go`).
-/
namespace KubeConsole.Exec
open KubeConsole.Go KubeConsole.Kube

def maxCommandArgs : ℕ := 32
def maxArgBytes : ℕ := 4 * 2 ^ 10
def maxTokenBytes : ℕ := 48 * 2 ^ 10

structure AuthFrame where
  type : Str
  token : Str
  context : Str := []
  namespace_ : Str
  pod : Str
  container : Str := []
  command : List Str := []
  deriving DecidableEq, Repr

def alnum (b : UInt8) : Bool := chr 'a' ≤ b && b ≤ chr 'z' || chr '0' ≤ b && b ≤ chr '9'

/-- The shape of `dns1123Label` and `dns1123Subdomain`: at most `max` bytes, letters
and digits at both ends and these or `inner` between. -/
def dns1123 (inner : Str) (max : ℕ) (s : Str) : Bool :=
  s.head?.any alnum && s.getLast?.any alnum && s.all (fun b => alnum b || b ∈ inner) &&
    s.length ≤ max

def isDNS1123Label : Str → Bool := dns1123 (str "-") 63

/-- `kube.IsDNS1123Subdomain`. -/
def isDNS1123Subdomain : Str → Bool := dns1123 (str "-.") 253

/-- `kube.ValidContextName`. -/
def validContextName (name : Str) : Bool :=
  name ≠ [] && name.length ≤ 253 && name.all fun b => 0x20 ≤ b && b ≤ 0x7E

/-- An error that wraps `errInvalidAuth`. -/
def invalidAuth (reason : String) : String := "invalid auth frame: " ++ reason

/-- The command `validate` fills in where the frame has none. -/
def AuthFrame.commandOrShell (a : AuthFrame) : List Str :=
  if a.command = [] then [str "/bin/sh"] else a.command

/-- `AuthFrame.validate`: the frame with its default command, or what is wrong with it. -/
def AuthFrame.validate (a : AuthFrame) (requireToken : Bool) : Except String AuthFrame :=
  if a.type ≠ str "auth" then .error (invalidAuth "first frame must have type \"auth\"")
  else if requireToken ∧ a.token = [] then .error (invalidAuth "missing or oversized token")
  else if !requireToken ∧ a.token ≠ [] then
    .error (invalidAuth "unexpected token: this server authenticates with its own credentials")
  else if maxTokenBytes < a.token.length then .error (invalidAuth "missing or oversized token")
  else if a.context ≠ [] ∧ !validContextName a.context then .error (invalidAuth "invalid context")
  else if !isDNS1123Label a.namespace_ then .error (invalidAuth "invalid namespace")
  else if !isDNS1123Subdomain a.pod then .error (invalidAuth "invalid pod name")
  else if a.container ≠ [] ∧ !isDNS1123Label a.container then
    .error (invalidAuth "invalid container name")
  else if maxCommandArgs < a.commandOrShell.length then
    .error (invalidAuth "too many command arguments")
  else if ∃ arg ∈ a.commandOrShell, maxArgBytes < arg.length then
    .error (invalidAuth "command argument too long")
  else .ok { a with command := a.commandOrShell }

/-- The start of `session`, for a frame that was read: the frame as it was accepted
and the configuration the executor is built with, or the message of the error frame. -/
def clientConfig (reg : Registry) (frame : AuthFrame) : Except String (AuthFrame × RestConfig) := do
  let auth ← frame.validate (!reg.useConfigCreds)
  match reg.resolve auth.context with
  | none => .error unknownContextMessage
  | some (up, _) =>
    return (auth, if up.useConfigCredentials then up.restConfig
      else { up.restConfig with bearerToken := auth.token })

/-- What a check lets through, it found nothing wrong with. -/
theorem ok_of_check {ε α : Type*} {c : Prop} [Decidable c] {e : ε} {x : Except ε α} {a : α}
    (h : (if c then .error e else x) = .ok a) : ¬c ∧ x = .ok a := by
  by_cases hc : c
  · rw [if_pos hc] at h
    cases h
  · rw [if_neg hc] at h
    exact ⟨hc, h⟩

/-- An accepted frame is the one sent, but for its command, and it has a token exactly
where one is asked for. -/
theorem AuthFrame.validate_ok {a a' : AuthFrame} {requireToken : Bool}
    (h : a.validate requireToken = .ok a') :
    a'.token = a.token ∧ a'.context = a.context ∧ (a.token ≠ [] ↔ requireToken = true) := by
  obtain ⟨-, h⟩ := ok_of_check h
  obtain ⟨hmissing, h⟩ := ok_of_check h
  obtain ⟨hextra, h⟩ := ok_of_check h
  obtain ⟨-, h⟩ := ok_of_check h
  obtain ⟨-, h⟩ := ok_of_check h
  obtain ⟨-, h⟩ := ok_of_check h
  obtain ⟨-, h⟩ := ok_of_check h
  obtain ⟨-, h⟩ := ok_of_check h
  obtain ⟨-, h⟩ := ok_of_check h
  obtain ⟨-, h⟩ := ok_of_check h
  cases h
  refine ⟨rfl, rfl, ?_⟩
  cases requireToken
  · simpa using hextra
  · simpa using hmissing

/-- A session streams with the configuration of its context's upstream, to which only
an upstream without credentials of its own adds the frame's token. -/
theorem clientConfig_ok {reg : Registry} {frame auth : AuthFrame} {cfg : RestConfig}
    (h : clientConfig reg frame = .ok (auth, cfg)) :
    ∃ up name, reg.resolve frame.context = some (up, name) ∧
      (frame.token ≠ [] ↔ reg.useConfigCreds = false) ∧
      cfg = if up.useConfigCredentials then up.restConfig
        else { up.restConfig with bearerToken := frame.token } := by
  unfold clientConfig at h
  cases hv : frame.validate (!reg.useConfigCreds) with
  | error e => simp [hv, bind, Except.bind] at h
  | ok auth' =>
    obtain ⟨htoken, hcontext, hmode⟩ := AuthFrame.validate_ok hv
    simp only [hv, bind, Except.bind] at h
    split at h
    · cases h
    next up name hup =>
      cases h
      rw [hcontext] at hup
      exact ⟨up, name, hup, by simpa using hmode, by rw [htoken]⟩

end KubeConsole.Exec
