import KubeConsole.Theory.Transition
import KubeConsole.Web.Js

/-!
The YAML editor of the detail page (`components/detail/YamlTab.vue`): the draft, the text
it is measured against, and the requests that send it.

An action is one event of the page, with the watches it sets off. The texts of an object and
the encoding of a decoded Secret are parameters.
-/
namespace KubeConsole.Web
open KubeConsole.Theory

/-- What the tab uses of `utils/yamlView.ts` and `utils/secrets.ts`, and the name of an
object. -/
structure YamlView (O : Type*) where
  toEditableYaml : O → JStr
  toDecodedSecretYaml : O → JStr
  encodeSecretYaml : JStr → Except JStr JStr
  isSecret : O → Bool
  targetName : O → Option JStr

/-- A request as `serverSideApply` sent it, and the draft it was made from. -/
structure ApplyRequest where
  dryRun : Bool
  name : JStr
  body : JStr
  draft : JStr
  deriving DecidableEq, Repr

/-- What a failed request throws: an `ApiError`, with the message and the field of each of its
causes, or something else, as its text. -/
inductive ApplyError where
  | api (status : ℕ) (message : JStr) (causes : Option (List (Option JStr × Option JStr)))
  | other (text : JStr)
  deriving DecidableEq, Repr

/-- The refs of the tab. `request` is the request in flight, while which `busy` holds, and
`applied` the draft of the last successful Apply, which no operation reads. -/
structure YamlTab (O : Type*) where
  object : O
  decoded : Bool := false
  draft : JStr
  baseline : JStr
  showFull : Bool := false
  request : Option ApplyRequest := none
  errorText : Option JStr := none
  conflictText : Option JStr := none
  objectChanged : Bool := false
  toasts : List JStr := []
  emitted : ℕ := 0
  applied : Option JStr := none
  deriving DecidableEq

inductive YamlAction (O : Type*) where
  /-- The editor's model takes a new text. -/
  | keystroke (text : JStr)
  | cancel
  | run (dryRun : Bool)
  | resolved
  | rejected (e : ApplyError)
  /-- The page hands over an object. -/
  | handed (object : O)
  | setShowFull (on : Bool)
  | setDecoded (on : Bool)

/-- The line that a 409 shows for one of its causes. -/
def causeText : Option JStr × Option JStr → JStr
  | (some message, _) => message
  | (none, some field) => field
  | (none, none) => []

/-- The lines of a text, joined. -/
def joinLines (lines : List JStr) : JStr := (lines.intersperse [newline]).flatten

namespace YamlTab
variable {O : Type*} (view : YamlView O) (s : YamlTab O)

def project (decoded : Bool) (obj : O) : JStr :=
  if decoded then view.toDecodedSecretYaml obj else view.toEditableYaml obj

/-- The tab as it is opened. -/
def opened (obj : O) : YamlTab O where
  object := obj
  draft := view.toEditableYaml obj
  baseline := view.toEditableYaml obj

def busy : Bool := s.request.isSome

def dirty : Bool := s.draft ≠ s.baseline

def actionsDisabled : Bool := s.busy || !s.dirty || s.showFull

def decodeDisabled : Bool := s.busy || s.dirty

/-- `draft.value = text`, with the watch that drops the verdict on another text. -/
def setDraft (text : JStr) : YamlTab O :=
  if text = s.draft then s
  else { s with draft := text, errorText := none, conflictText := none }

def setDecoded (on : Bool) : YamlTab O :=
  { s with
    decoded := on
    baseline := project view on s.object
    objectChanged := false }.setDraft (project view on s.object)

/-- The watch on `props.object`. -/
def onObject (obj : O) : YamlTab O :=
  let next := project view s.decoded obj
  if next = s.baseline then { s with object := obj }
  else if s.dirty then { s with object := obj, baseline := next, objectChanged := true }
  else { s with object := obj, baseline := next, objectChanged := false }.setDraft next

def cancel : YamlTab O :=
  { s with
    draft := s.baseline
    errorText := none
    conflictText := none
    objectChanged := false }

/-- `run` up to its request. -/
def run (dryRun : Bool) : YamlTab O :=
  match view.targetName s.object with
  | none => s
  | some name =>
    let s := { s with errorText := none, conflictText := none }
    match if s.decoded then view.encodeSecretYaml s.draft else .ok s.draft with
    | .error message => { s with errorText := some message }
    | .ok body => { s with request := some ⟨dryRun, name, body, s.draft⟩ }

/-- `run` from the response on. -/
def resolve (r : ApplyRequest) : YamlTab O :=
  if r.dryRun then
    { s with
      request := none
      toasts := s.toasts ++ [js "Dry run succeeded: the manifest is valid."] }
  else
    { s with
      request := none
      toasts := s.toasts ++ [js "Applied " ++ r.name ++ js "."]
      baseline := s.draft
      objectChanged := false
      emitted := s.emitted + 1
      applied := some r.draft }

def applyError : ApplyError → YamlTab O
  | .api status message causes =>
    if status = 409 then
      let causes := ((causes.getD []).map causeText).filter (· ≠ [])
      { s with conflictText := some (joinLines (message :: causes)) }
    else { s with errorText := some message }
  | .other text => { s with errorText := some text }

def step : YamlAction O → Option (YamlTab O)
  | .keystroke text => if s.showFull then none else some (s.setDraft text)
  | .cancel => if s.actionsDisabled then none else some s.cancel
  | .run dryRun => if s.actionsDisabled then none else some (s.run view dryRun)
  | .resolved => s.request.map s.resolve
  | .rejected e => if s.busy then some { s.applyError e with request := none } else none
  | .handed obj => some (s.onObject view obj)
  | .setShowFull on => some { s with showFull := on }
  | .setDecoded on =>
    if view.isSecret s.object && !s.decodeDisabled then some (s.setDecoded view on) else none

end YamlTab

variable {O : Type*}

/-- A tab, opened on any object. -/
def yamlTab (view : YamlView O) : Machine (YamlTab O) (YamlAction O) where
  init s := ∃ obj, s = .opened view obj
  step s := s.step view

variable {view : YamlView O} {s t : YamlTab O} {x : YamlAction O}

/-- The text of the object that was handed over last. -/
def YamlTab.serverText (view : YamlView O) (s : YamlTab O) : JStr :=
  YamlTab.project view s.decoded s.object

/-- A successful Apply finds the draft as it was sent: nothing was typed meanwhile. -/
def SentAsShown (s : YamlTab O) : YamlAction O → Prop
  | .resolved => ∀ r, s.request = some r → r.dryRun = false → s.draft = r.draft
  | _ => True

/-- A text the server has: the last one it handed over, or the last one it was sent. -/
def Known (view : YamlView O) (s : YamlTab O) (text : JStr) : Prop :=
  text = s.serverText view ∨ s.applied = some text

/-- What a draft is measured against is known to the server. -/
def Grounded (view : YamlView O) (s : YamlTab O) : Prop := Known view s s.baseline

theorem setDraft_eq (s : YamlTab O) (text : JStr) :
    ∃ errorText conflictText, s.setDraft text = { s with draft := text, errorText, conflictText } := by
  unfold YamlTab.setDraft
  split_ifs with h
  · subst h
    exact ⟨_, _, rfl⟩
  · exact ⟨_, _, rfl⟩

theorem setDecoded_spec (s : YamlTab O) (on : Bool) :
    Grounded view (s.setDecoded view on) := by
  unfold YamlTab.setDecoded
  obtain ⟨errorText, conflictText, h⟩ := setDraft_eq { s with
    decoded := on
    baseline := YamlTab.project view on s.object
    objectChanged := false } (YamlTab.project view on s.object)
  rw [h]
  exact .inl rfl

/-- The watch on the object: the draft stays, or it was clean. -/
theorem onObject_spec (view : YamlView O) (s : YamlTab O) (obj : O) :
    Grounded view (s.onObject view obj) ∧
      ((s.onObject view obj).draft = s.draft ∨ s.draft = s.baseline) := by
  unfold YamlTab.onObject
  simp only
  split_ifs with hsame hdirty
  · exact ⟨.inl hsame.symm, .inl rfl⟩
  · exact ⟨.inl rfl, .inl rfl⟩
  · obtain ⟨errorText, conflictText, h⟩ := setDraft_eq
      { s with object := obj, baseline := YamlTab.project view s.decoded obj, objectChanged := false }
      (YamlTab.project view s.decoded obj)
    rw [h]
    refine ⟨.inl rfl, .inr ?_⟩
    simpa [YamlTab.dirty] using hdirty

theorem run_spec (view : YamlView O) (s : YamlTab O) (dryRun : Bool) :
    ∃ request errorText conflictText,
      s.run view dryRun = { s with request, errorText, conflictText } := by
  unfold YamlTab.run
  split
  · exact ⟨_, _, _, rfl⟩
  · simp only
    split
    · exact ⟨_, _, _, rfl⟩
    · exact ⟨_, _, _, rfl⟩

theorem applyError_spec (s : YamlTab O) (e : ApplyError) :
    ∃ errorText conflictText, s.applyError e = { s with errorText, conflictText } := by
  unfold YamlTab.applyError
  split
  · split_ifs
    · exact ⟨_, _, rfl⟩
    · exact ⟨_, _, rfl⟩
  · exact ⟨_, _, rfl⟩

/-- One step: the baseline stays grounded, and what replaces the draft, unless the user does,
is put in the place of a clean draft. -/
theorem yaml_step (h : Grounded view s) (hx : SentAsShown s x) (ht : (yamlTab view).step s x = some t) :
    Grounded view t ∧ (t.draft ≠ s.draft →
      (∃ text, x = .keystroke text) ∨ x = .cancel ∨ s.draft = s.baseline) := by
  have ht : s.step view x = some t := ht
  cases x with
  | keystroke text =>
    simp only [YamlTab.step] at ht
    split_ifs at ht
    cases ht
    obtain ⟨errorText, conflictText, heq⟩ := setDraft_eq s text
    rw [heq]
    exact ⟨h, fun _ => .inl ⟨text, rfl⟩⟩
  | cancel =>
    simp only [YamlTab.step] at ht
    split_ifs at ht
    cases ht
    exact ⟨h, fun _ => .inr (.inl rfl)⟩
  | run dryRun =>
    simp only [YamlTab.step] at ht
    split_ifs at ht
    cases ht
    obtain ⟨request, errorText, conflictText, heq⟩ := run_spec view s dryRun
    rw [heq]
    exact ⟨h, fun hne => absurd rfl hne⟩
  | resolved =>
    obtain ⟨r, hr, rfl⟩ := Option.map_eq_some_iff.mp ht
    unfold YamlTab.resolve
    split_ifs with hdry
    · exact ⟨h, fun hne => absurd rfl hne⟩
    · have hsent := hx r hr (Bool.eq_false_of_not_eq_true hdry)
      exact ⟨.inr (congrArg some hsent.symm), fun hne => absurd rfl hne⟩
  | rejected e =>
    simp only [YamlTab.step] at ht
    split_ifs at ht
    cases ht
    obtain ⟨errorText, conflictText, heq⟩ := applyError_spec s e
    rw [heq]
    exact ⟨h, fun hne => absurd rfl hne⟩
  | handed obj =>
    cases ht
    obtain ⟨hgrounded, hdraft⟩ := onObject_spec view s obj
    exact ⟨hgrounded, fun hne => .inr (.inr (hdraft.resolve_left hne))⟩
  | setShowFull on =>
    cases ht
    exact ⟨h, fun hne => absurd rfl hne⟩
  | setDecoded on =>
    simp only [YamlTab.step] at ht
    split_ifs at ht with hallowed
    cases ht
    refine ⟨setDecoded_spec s on, fun _ => .inr (.inr ?_)⟩
    simp only [YamlTab.decodeDisabled, YamlTab.dirty, Bool.and_eq_true, Bool.not_eq_true',
      Bool.or_eq_false_iff, decide_eq_false_iff_not, not_not] at hallowed
    exact hallowed.2.2

theorem grounded_reach (hs : (yamlTab view).Reach SentAsShown s) : Grounded view s := by
  refine hs.invariant ?_ ?_
  · rintro s ⟨obj, rfl⟩
    exact .inl rfl
  · intro s x t h hx ht
    exact (yaml_step h hx ht).1

/-- In every run in which a successful Apply finds the draft as it was sent: whatever but
the user's keystrokes and Cancel replaces the draft, replaces a text that the server has. -/
theorem edits_kept (hs : (yamlTab view).Reach SentAsShown s) (hx : SentAsShown s x)
    (ht : (yamlTab view).step s x = some t) (hne : t.draft ≠ s.draft) :
    (∃ text, x = .keystroke text) ∨ x = .cancel ∨ Known view s s.draft := by
  have hgrounded := grounded_reach hs
  rcases (yaml_step hgrounded hx ht).2 hne with hkey | hcancel | hclean
  · exact .inl hkey
  · exact .inr (.inl hcancel)
  · rw [Grounded, ← hclean] at hgrounded
    exact .inr (.inr hgrounded)

/-- Manifests as they are, with one name. -/
def plainView : YamlView JStr where
  toEditableYaml := id
  toDecodedSecretYaml := id
  encodeSecretYaml := .ok
  isSecret _ := false
  targetName _ := some (js "web")

/-- An edit is applied, and the refresh brings the text back as the server has normalized it. -/
theorem edits_kept_applied :
    ∃ s t, (yamlTab plainView).exec (.opened plainView (js "a"))
        [.keystroke (js "ab"), .run false, .resolved] = some s ∧
      (yamlTab plainView).step s (.handed (js "a b")) = some t ∧ t.draft = js "a b" ∧
      Known plainView s s.draft := by
  have hsent : (yamlTab plainView).Along SentAsShown (.opened plainView (js "a"))
      [.keystroke (js "ab"), .run false, .resolved] := by
    refine ⟨trivial, ?_⟩
    rintro _ ⟨⟩
    refine ⟨trivial, ?_⟩
    rintro _ ⟨⟩
    refine ⟨?_, fun _ _ => trivial⟩
    rintro r ⟨⟩ -
    rfl
  have hopened : (yamlTab plainView).Reach SentAsShown (.opened plainView (js "a")) :=
    .init ⟨js "a", rfl⟩
  have hs := hopened.exec hsent rfl
  refine ⟨_, _, rfl, rfl, by decide +kernel, ?_⟩
  have hkept := edits_kept (x := .handed (js "a b")) hs trivial rfl (by decide +kernel)
  rcases hkept with ⟨text, hkey⟩ | hcancel | hknown
  · cases hkey
  · cases hcancel
  · exact hknown

/-- What is typed while an Apply is in flight is taken for what was sent, and the refresh
that follows overwrites it. -/
theorem typed_in_flight_overwritten :
    ∃ s t, (yamlTab plainView).exec (.opened plainView (js "a"))
        [.keystroke (js "ab"), .run false, .keystroke (js "abc"), .resolved] = some s ∧
      (yamlTab plainView).step s (.handed (js "a b")) = some t ∧
      s.draft = js "abc" ∧ ¬ Known plainView s s.draft ∧ t.draft = js "a b" := by
  refine ⟨_, _, rfl, rfl, by decide +kernel, ?_, by decide +kernel⟩
  rintro (hserver | happlied)
  · revert hserver
    decide +kernel
  · revert happlied
    decide +kernel

end KubeConsole.Web
