import KubeConsole.Go.Strings
import KubeConsole.Theory.FanOut

/-!
The catalog of resources by classic discovery (`internal/discovery`): one request for each
group version, eight at a time, and the answer of the handler that falls back to it.

What the apiserver answers to each request is given, and the orders in which the requests
complete are the runs of a bounded fan-out. No deadline expires.
-/
namespace KubeConsole.Discovery
open KubeConsole.Go KubeConsole.Theory

/-- An error of `getJSON`: a `statusError`, or one without a status. -/
inductive FetchError where
  | status (code : ℕ)
  | other
  deriving DecidableEq, Repr

/-- `errors.As` with a `statusError`. -/
def FetchError.code? : FetchError → Option ℕ
  | .status code => some code
  | .other => none

/-- What comes of a request: a response, with its body where it decodes, or none. -/
inductive Answer (α : Type*) where
  | response (code : ℕ) (body : Option α)
  | failed
  deriving DecidableEq, Repr

def getJSON {α : Type*} : Answer α → Except FetchError α
  | .failed => .error .other
  | .response code body =>
    if code ≠ 200 then .error (.status code)
    else match body with
      | none => .error .other
      | some v => .ok v

structure APIResource where
  name : Str
  kind : Str := []
  namespaced : Bool := false
  verbs : Option (List Str) := none
  shortNames : List Str := []
  categories : List Str := []
  deriving DecidableEq, Repr

structure APIGroup where
  name : Str
  versions : List Str
  deriving DecidableEq, Repr

structure Resource where
  id : Str
  group : Str
  version : Str
  resource : Str
  kind : Str
  namespaced : Bool
  verbs : List Str
  shortNames : List Str
  categories : List Str
  deriving DecidableEq, Repr

def makeID (group version resource : Str) : Str :=
  (if group = [] then str "core" else group) ++ str "/" ++ version ++ str "/" ++ resource

def isSubresource (name : Str) : Bool := chr '/' ∈ name

def nonNilVerbs (verbs : Option (List Str)) : List Str := verbs.getD []

/-- `sort.Slice` by ID. -/
def sortResources (rs : List Resource) : List Resource := rs.mergeSort fun a b => a.id ≤ b.id

structure GvRef where
  group : Str
  version : Str
  path : Str
  deriving DecidableEq, Repr

/-- The variables that the requests share under the mutex. -/
structure Catalog where
  out : List Resource := []
  failed : ℕ := 0
  lastErr : Option FetchError := none
  deriving DecidableEq, Repr

/-- What the list of a group version adds. -/
def collect (gv : GvRef) (list : List APIResource) : List Resource :=
  (list.filter fun res => !isSubresource res.name).map fun res =>
    { id := makeID gv.group gv.version res.name
      group := gv.group
      version := gv.version
      resource := res.name
      kind := res.kind
      namespaced := res.namespaced
      verbs := nonNilVerbs res.verbs
      shortNames := res.shortNames
      categories := res.categories }

/-- A legacy run: why aggregated discovery failed, and what each request will be answered, those
for the group versions by their place in the list. -/
structure LegacyRun where
  aggregated : FetchError
  core : Answer (List Str)
  groups : Answer (List APIGroup)
  answers : ℕ → Answer (List APIResource)

/-- The handler's response. -/
inductive Reply where
  | error (code : ℕ) (reason message : Str)
  | ok (resources : List Resource)
  deriving DecidableEq, Repr

namespace LegacyRun
variable (I : LegacyRun)

def groupVersions : Except FetchError (List GvRef) := do
  let versions ← getJSON I.core
  let groups ← getJSON I.groups
  pure ((versions.map fun v => ⟨[], v, str "/api/" ++ v⟩) ++
    groups.flatMap fun g => g.versions.map fun v =>
      ⟨g.name, v, str "/apis/" ++ g.name ++ str "/" ++ v⟩)

/-- What the goroutine of a group version does once its request is answered. -/
def finish (gvs : List GvRef) (c : Catalog) (i : ℕ) : Catalog :=
  match getJSON (I.answers i) with
  | .error err =>
    { c with
      failed := c.failed + 1
      lastErr :=
        if c.lastErr = none ∨ err.code?.isSome ∧ (c.lastErr.bind (·.code?)).isNone then some err
        else c.lastErr }
  | .ok list => { c with out := c.out ++ (gvs[i]?.map fun gv => collect gv list).getD [] }

/-- The fan-out, with `SetLimit(8)`. -/
def fetch (gvs : List GvRef) : Machine (FanOut Catalog) FanOutAction :=
  FanOut.machine gvs.length 8 (I.finish gvs) {}

/-- What `fetchLegacy` returns once all requests are answered. -/
def result (gvs : List GvRef) (c : Catalog) : Except FetchError (List Resource) :=
  if 0 < gvs.length ∧ c.failed = gvs.length then .error (c.lastErr.getD .other) else .ok c.out

/-- The handler from the fallback on. -/
def reply : Except FetchError (List Resource) → Reply
  | .error err =>
    let err := if err.code?.isNone && I.aggregated.code?.isSome then I.aggregated else err
    match err.code? with
    | some 401 => .error 401 (str "Unauthorized") (str "invalid or expired token")
    | some 403 => .error 403 (str "Forbidden") (str "access to API discovery is forbidden")
    | _ => .error 502 (str "ServiceUnavailable") (str "discovery against kube-apiserver failed")
  | .ok resources => .ok (sortResources resources)

/-- The responses of the complete runs. -/
def Responds (r : Reply) : Prop :=
  match I.groupVersions with
  | .error err => r = I.reply (.error err)
  | .ok gvs => ∃ s, (I.fetch gvs).Reachable s ∧ s.Done gvs.length ∧
      r = I.reply (result gvs s.shared)

/-! ## A fold over the order of completion -/

/-- The status that the request for a group version fails with. -/
def statusAt (i : ℕ) : Option ℕ :=
  match getJSON (I.answers i) with
  | .error err => err.code?
  | .ok _ => none

def failsAt (i : ℕ) : Bool :=
  match getJSON (I.answers i) with
  | .error _ => true
  | .ok _ => false

/-- What the request for a group version lists. -/
def listed (gvs : List GvRef) (i : ℕ) : List Resource :=
  match getJSON (I.answers i) with
  | .error _ => []
  | .ok list => (gvs[i]?.map fun gv => collect gv list).getD []

variable {I} {gvs : List GvRef} {c : Catalog} {is : List ℕ}

theorem finish_eq (gvs : List GvRef) (c : Catalog) (i : ℕ) :
    (I.finish gvs c i).out = c.out ++ I.listed gvs i ∧
    (I.finish gvs c i).failed = c.failed + (if I.failsAt i then 1 else 0) ∧
    (I.finish gvs c i).lastErr.bind (·.code?) = (c.lastErr.bind (·.code?)).or (I.statusAt i) := by
  unfold finish listed failsAt statusAt
  cases getJSON (I.answers i) with
  | ok list => exact ⟨rfl, rfl, (Option.or_none).symm⟩
  | error err =>
    refine ⟨(List.append_nil _).symm, rfl, ?_⟩
    -- A status in the slot stays, and takes the place of an error without one.
    cases hlast : c.lastErr with
    | none => simp
    | some last =>
      cases last with
      | status code => simp [FetchError.code?]
      | other =>
        cases err with
        | status code => simp [FetchError.code?]
        | other => simp [FetchError.code?]

theorem foldl_finish (is : List ℕ) (c : Catalog) :
    (is.foldl (I.finish gvs) c).out = c.out ++ is.flatMap (I.listed gvs) ∧
    (is.foldl (I.finish gvs) c).failed = c.failed + is.countP I.failsAt ∧
    (is.foldl (I.finish gvs) c).lastErr.bind (·.code?) =
      (c.lastErr.bind (·.code?)).or (is.findSome? I.statusAt) := by
  induction is generalizing c with
  | nil => simp
  | cons i is ih =>
    obtain ⟨hout, hfailed, hlast⟩ := ih (I.finish gvs c i)
    obtain ⟨hout', hfailed', hlast'⟩ := finish_eq (I := I) gvs c i
    refine ⟨?_, ?_, ?_⟩
    · rw [List.foldl_cons, hout, hout', List.flatMap_cons, List.append_assoc]
    · rw [List.foldl_cons, hfailed, hfailed', List.countP_cons]
      omega
    · rw [List.foldl_cons, hlast, hlast', List.findSome?_cons, Option.or_assoc]
      congr 1
      cases I.statusAt i with
      | none => rfl
      | some code => rfl

/-- The slot of the errors has the status that came first. -/
theorem lastErr_eq {s : FanOut Catalog} (hs : (I.fetch gvs).Reachable s) :
    s.shared.lastErr.bind (·.code?) = s.finished.findSome? I.statusAt := by
  rw [(FanOut.accounted hs).shared, (foldl_finish _ _).2.2]
  rfl

theorem failed_eq {s : FanOut Catalog} (hs : (I.fetch gvs).Reachable s)
    (hdone : s.Done gvs.length) : s.shared.failed = (List.range gvs.length).countP I.failsAt := by
  rw [(FanOut.accounted hs).shared, (foldl_finish _ _).2.1, (hdone.perm hs).countP_eq]
  exact Nat.zero_add _

theorem out_perm {s : FanOut Catalog} (hs : (I.fetch gvs).Reachable s) (hdone : s.Done gvs.length) :
    s.shared.out.Perm ((List.range gvs.length).flatMap (I.listed gvs)) := by
  rw [(FanOut.accounted hs).shared, (foldl_finish _ _).1]
  exact (hdone.perm hs).flatMap_right _

/-! ## The response -/

/-- The response to a failure, by the status that it carries. -/
def refusal : Option ℕ → Reply
  | some 401 => .error 401 (str "Unauthorized") (str "invalid or expired token")
  | some 403 => .error 403 (str "Forbidden") (str "access to API discovery is forbidden")
  | _ => .error 502 (str "ServiceUnavailable") (str "discovery against kube-apiserver failed")

theorem reply_error (err : FetchError) :
    I.reply (.error err) = refusal (err.code?.or I.aggregated.code?) := by
  unfold reply refusal
  simp only
  cases err with
  | status code => simp [FetchError.code?]
  | other =>
    cases I.aggregated with
    | status code => simp [FetchError.code?]
    | other => simp [FetchError.code?]

/-- The status of the response to a failure with this status. -/
def forwarded (code : ℕ) : ℕ := if code = 401 ∨ code = 403 then code else 502

theorem refusal_some (code : ℕ) : refusal (some code) = refusal (some (forwarded code)) := by
  unfold forwarded
  split_ifs with h
  · rfl
  · rw [not_or] at h
    unfold refusal
    split
    next heq => exact absurd (Option.some.inj heq) h.1
    next heq => exact absurd (Option.some.inj heq) h.2
    next => rfl

theorem forwarded_of_refusal (code : ℕ) :
    ∃ reason message, refusal (some code) = .error (forwarded code) reason message := by
  rw [refusal_some]
  unfold forwarded
  split_ifs with h
  · rcases h with rfl | rfl
    · exact ⟨_, _, rfl⟩
    · exact ⟨_, _, rfl⟩
  · exact ⟨_, _, rfl⟩

theorem refusal_inj {code code' : ℕ} :
    refusal (some code) = refusal (some code') ↔ forwarded code = forwarded code' := by
  constructor
  · intro h
    obtain ⟨reason, message, heq⟩ := forwarded_of_refusal code
    obtain ⟨reason', message', heq'⟩ := forwarded_of_refusal code'
    rw [heq, heq'] at h
    exact (Reply.error.inj h).1
  · intro h
    rw [refusal_some, h, ← refusal_some]

/-- With distinct IDs the order before the sort does not matter. -/
theorem sortResources_perm {rs rs' : List Resource} (hperm : rs.Perm rs')
    (hids : (rs.map (·.id)).Nodup) : sortResources rs = sortResources rs' := by
  have htrans (a b c : Resource) (hab : decide (a.id ≤ b.id) = true)
      (hbc : decide (b.id ≤ c.id) = true) : decide (a.id ≤ c.id) = true :=
    decide_eq_true (List.le_trans (of_decide_eq_true hab) (of_decide_eq_true hbc))
  have htotal (a b : Resource) : (decide (a.id ≤ b.id) || decide (b.id ≤ a.id)) = true := by
    rcases List.le_total a.id b.id with h | h
    · simp [h]
    · simp [h]
  have hmem {a : Resource} (rs' : List Resource) (ha : a ∈ sortResources rs') : a ∈ rs' :=
    (List.mergeSort_perm _ _).mem_iff.mp ha
  refine List.Perm.eq_of_pairwise (fun a b ha hb hab hba => ?_)
    (List.pairwise_mergeSort htrans htotal rs) (List.pairwise_mergeSort htrans htotal rs')
    ((List.mergeSort_perm _ _).trans (hperm.trans (List.mergeSort_perm _ _).symm))
  have hid := List.le_antisymm (of_decide_eq_true hab) (of_decide_eq_true hba)
  exact List.inj_on_of_nodup_map hids (hmem rs ha) (hperm.mem_iff.mpr (hmem rs' hb)) hid

variable (I) in
/-- No two resources that are listed share an ID. -/
def DistinctIds : Prop :=
  ∀ gvs, I.groupVersions = .ok gvs →
    (((List.range gvs.length).flatMap (I.listed gvs)).map (·.id)).Nodup

variable (I) in
/-- The statuses that the requests fail with, in the order of the listing. -/
def statuses (n : ℕ) : List ℕ := (List.range n).filterMap I.statusAt

variable (I) in
/-- Some request succeeds, or the first eight failures with a status are all 401, all 403 or all
of another status. -/
def Uniform : Prop :=
  ∀ gvs, I.groupVersions = .ok gvs → (∃ i < gvs.length, I.failsAt i = false) ∨
    ∀ code ∈ (I.statuses gvs.length).take 8, ∀ code' ∈ (I.statuses gvs.length).take 8,
      forwarded code = forwarded code'

/-- The statuses that may come first are the first eight. -/
theorem findSome?_mem_take {s : FanOut Catalog} (hs : (I.fetch gvs).Reachable s)
    (hdone : s.Done gvs.length) {code : ℕ} (hcode : s.finished.findSome? I.statusAt = some code) :
    code ∈ (I.statuses gvs.length).take 8 := by
  obtain ⟨xs, i, ys, hsplit, hi, hnone⟩ := List.findSome?_eq_some_iff.mp hcode
  refine (FanOut.mem_take_filterMap I.statusAt).mpr ⟨i, ?_, hi, ?_⟩
  · exact List.mem_range.mp ((hdone.perm hs).mem_iff.mp (hsplit ▸ by simp))
  · exact FanOut.before_lt_of_first _ hs hsplit (by simp [hi]) fun b hb => by simp [hnone b hb]

theorem exists_findSome? {code : ℕ} (hcode : code ∈ (I.statuses gvs.length).take 8) :
    ∃ s, (I.fetch gvs).Reachable s ∧ s.Done gvs.length ∧
      s.finished.findSome? I.statusAt = some code := by
  obtain ⟨i, hi, hcode, hbefore⟩ := (FanOut.mem_take_filterMap I.statusAt).mp hcode
  obtain ⟨s, hs, hdone, xs, ys, hsplit, hnone⟩ :=
    @FanOut.exists_first _ _ _ (I.finish gvs) {} _ (fun j => (I.statusAt j).isSome) _ hi hbefore
  refine ⟨s, hs, hdone, List.findSome?_eq_some_iff.mpr ⟨xs, i, ys, hsplit, hcode, fun b hb => ?_⟩⟩
  simpa using hnone b hb

/-- Where every request fails the response goes by the first status. -/
theorem reply_of_failing {s : FanOut Catalog} (hs : (I.fetch gvs).Reachable s)
    (hdone : s.Done gvs.length) (hpos : 0 < gvs.length)
    (hall : ∀ i < gvs.length, I.failsAt i = true) : I.reply (result gvs s.shared) =
      refusal ((s.finished.findSome? I.statusAt).or I.aggregated.code?) := by
  have hfailed : s.shared.failed = gvs.length := by
    rw [failed_eq hs hdone, List.countP_eq_length.mpr fun i hi => hall i (List.mem_range.mp hi),
      List.length_range]
  have hcode : (s.shared.lastErr.getD .other).code? = s.finished.findSome? I.statusAt := by
    rw [← lastErr_eq hs]
    cases s.shared.lastErr with
    | none => rfl
    | some err => rfl
  unfold result
  rw [if_pos ⟨hpos, hfailed⟩, reply_error, hcode]

/-- Uniform failures are forwarded alike, whichever comes first. -/
theorem refusal_first_eq {s s' : FanOut Catalog} (hs : (I.fetch gvs).Reachable s)
    (hdone : s.Done gvs.length) (hs' : (I.fetch gvs).Reachable s') (hdone' : s'.Done gvs.length)
    (huniform : ∀ code ∈ (I.statuses gvs.length).take 8,
      ∀ code' ∈ (I.statuses gvs.length).take 8, forwarded code = forwarded code') :
    refusal ((s.finished.findSome? I.statusAt).or I.aggregated.code?) =
      refusal ((s'.finished.findSome? I.statusAt).or I.aggregated.code?) := by
  have hperm := (hdone.perm hs).trans (hdone'.perm hs').symm
  have hnone : s.finished.findSome? I.statusAt = none ↔ s'.finished.findSome? I.statusAt = none := by
    rw [List.findSome?_eq_none_iff, List.findSome?_eq_none_iff]
    exact forall_congr' fun i => imp_congr_left hperm.mem_iff
  cases hfirst : s.finished.findSome? I.statusAt with
  | none => rw [hnone.mp hfirst]
  | some code =>
    cases hfirst' : s'.finished.findSome? I.statusAt with
    | none =>
      rw [hnone.mpr hfirst'] at hfirst
      cases hfirst
    | some code' =>
      exact refusal_inj.mpr (huniform code (findSome?_mem_take hs hdone hfirst)
        code' (findSome?_mem_take hs' hdone' hfirst'))

theorem reply_of_listing {s : FanOut Catalog} (hs : (I.fetch gvs).Reachable s)
    (hdone : s.Done gvs.length) {i : ℕ} (hi : i < gvs.length) (hok : I.failsAt i = false) :
    I.reply (result gvs s.shared) = .ok (sortResources s.shared.out) := by
  have hfailed : s.shared.failed ≠ gvs.length := by
    rw [failed_eq hs hdone]
    intro heq
    have hall := List.countP_eq_length.mp (heq.trans List.length_range.symm)
    rw [hall i (List.mem_range.mpr hi)] at hok
    cases hok
  unfold result
  rw [if_neg fun h => hfailed h.2]
  rfl

theorem reply_of_nil {s : FanOut Catalog} (hs : (I.fetch []).Reachable s) (hdone : s.Done 0) :
    I.reply (result [] s.shared) = .ok (sortResources []) := by
  have hout := out_perm hs hdone
  rw [List.length_nil, List.range_zero, List.flatMap_nil, List.perm_nil] at hout
  unfold result
  rw [if_neg fun h => absurd h.1 (lt_irrefl 0), hout]
  rfl

end LegacyRun

open LegacyRun

/-- The response is the same whatever the order in which the requests complete if and only if
the failures are uniform. -/
theorem response_order_iff (I : LegacyRun) (hids : I.DistinctIds) :
    (∀ r r', I.Responds r → I.Responds r' → r = r') ↔ I.Uniform := by
  unfold Responds Uniform
  cases hgvs : I.groupVersions with
  | error err =>
    refine iff_of_true (fun r r' hr hr' => hr.trans hr'.symm) fun gvs heq => ?_
    cases heq
  | ok gvs =>
    constructor
    · intro h gvs' heq
      cases heq
      by_contra hcon
      rw [not_or] at hcon
      obtain ⟨hall, hstatuses⟩ := hcon
      have hall (i : ℕ) (hi : i < gvs.length) : I.failsAt i = true := by
        by_contra hok
        exact hall ⟨i, hi, by simpa using hok⟩
      refine hstatuses fun code hcode code' hcode' => ?_
      have hpos : 0 < gvs.length := by
        obtain ⟨i, hi, -⟩ := (FanOut.mem_take_filterMap I.statusAt).mp hcode
        omega
      obtain ⟨s, hs, hdone, hfirst⟩ := exists_findSome? hcode
      obtain ⟨s', hs', hdone', hfirst'⟩ := exists_findSome? hcode'
      have hsame := h _ _ ⟨s, hs, hdone, rfl⟩ ⟨s', hs', hdone', rfl⟩
      rw [reply_of_failing hs hdone hpos hall, hfirst, reply_of_failing hs' hdone' hpos hall,
        hfirst'] at hsame
      exact refusal_inj.mp hsame
    · rintro h r r' ⟨s, hs, hdone, rfl⟩ ⟨s', hs', hdone', rfl⟩
      by_cases hex : ∃ i < gvs.length, I.failsAt i = false
      · obtain ⟨i, hi, hok⟩ := hex
        rw [reply_of_listing hs hdone hi hok, reply_of_listing hs' hdone' hi hok]
        have hperm := out_perm hs hdone
        refine congrArg Reply.ok (sortResources_perm (hperm.trans (out_perm hs' hdone').symm) ?_)
        exact (hperm.map _).nodup_iff.mpr (hids gvs hgvs)
      · have huniform := (h gvs rfl).resolve_left hex
        have hall (i : ℕ) (hi : i < gvs.length) : I.failsAt i = true := by
          by_contra hok
          exact hex ⟨i, hi, by simpa using hok⟩
        rcases gvs.length.eq_zero_or_pos with hzero | hpos
        · obtain rfl := List.length_eq_zero_iff.mp hzero
          rw [reply_of_nil hs hdone, reply_of_nil hs' hdone']
        · rw [reply_of_failing hs hdone hpos hall, reply_of_failing hs' hdone' hpos hall]
          exact refusal_first_eq hs hdone hs' hdone' huniform

/-- Two group versions, with these answers. -/
def twoVersions (first second : Answer (List APIResource)) : LegacyRun where
  aggregated := .other
  core := .response 200 (some [str "v1"])
  groups := .response 200 (some [⟨str "apps", [str "v1"]⟩])
  answers i := if i = 0 then first else second

/-- The group versions of `twoVersions`. -/
def twoRefs : List GvRef :=
  [⟨[], str "v1", str "/api/v1"⟩, ⟨str "apps", str "v1", str "/apis/apps/v1"⟩]

theorem twoVersions_refs (first second : Answer (List APIResource)) :
    (twoVersions first second).groupVersions = .ok twoRefs := rfl

/-- What comes of a run of `twoVersions`. -/
theorem responds_twoVersions {first second : Answer (List APIResource)}
    (as : List FanOutAction) {s : FanOut Catalog}
    (hs : ((twoVersions first second).fetch twoRefs).exec { shared := {} } as = some s)
    (hdone : s.Done twoRefs.length) : (twoVersions first second).Responds
      ((twoVersions first second).reply (result twoRefs s.shared)) := by
  have hinit : ((twoVersions first second).fetch twoRefs).Reachable { shared := {} } := .init rfl
  unfold Responds
  rw [twoVersions_refs]
  exact ⟨s, hinit.exec as hs, hdone, rfl⟩

/-- A denial and a server error: whichever comes first is forwarded. -/
theorem mixed_failures_differ :
    let I := twoVersions (.response 403 none) (.response 500 none)
    I.DistinctIds ∧
      I.Responds (.error 403 (str "Forbidden") (str "access to API discovery is forbidden")) ∧
      I.Responds (.error 502 (str "ServiceUnavailable")
        (str "discovery against kube-apiserver failed")) := by
  intro I
  refine ⟨fun gvs heq => ?_, ?_, ?_⟩
  · rw [twoVersions_refs] at heq
    cases heq
    exact List.nodup_nil
  · exact responds_twoVersions [.launch, .launch, .finish 0, .finish 1] rfl ⟨rfl, rfl⟩
  · exact responds_twoVersions [.launch, .launch, .finish 1, .finish 0] rfl ⟨rfl, rfl⟩

theorem response_order_listing :
    let I := twoVersions (.response 200 (some [{ name := str "pods" }])) (.response 500 none)
    ∀ r r', I.Responds r → I.Responds r' → r = r' := by
  intro I
  refine (response_order_iff I fun gvs heq => ?_).mpr fun gvs heq => .inl ?_
  · rw [twoVersions_refs] at heq
    cases heq
    decide
  · rw [twoVersions_refs] at heq
    cases heq
    exact ⟨0, by decide, rfl⟩

end KubeConsole.Discovery
