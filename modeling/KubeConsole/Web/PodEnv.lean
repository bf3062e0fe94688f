import KubeConsole.Theory.Comparator
import KubeConsole.Theory.Keyed
import KubeConsole.Theory.OrderedMap
import KubeConsole.Theory.Scanner
import KubeConsole.Web.RingBuffer

/-!
The environment variables of a pod's containers (`podEnv.ts`).
-/
namespace KubeConsole.Web.PodEnv
open KubeConsole.Theory

inductive EnvValueKind where
  | literal | configmap | secret | field | missing
  deriving DecidableEq

inductive ContainerType where
  | init | container | ephemeral
  deriving DecidableEq

/-- `"ConfigMap" | "Secret"`. -/
inductive RefKind where
  | configMap | secret
  deriving DecidableEq

def RefKind.text : RefKind → JStr
  | .configMap => js "ConfigMap"
  | .secret => js "Secret"

/-- `refKind.toLowerCase()`. -/
def RefKind.toLowerCase : RefKind → JStr
  | .configMap => js "configmap"
  | .secret => js "secret"

structure EnvSourceRef where
  kind : RefKind
  name : JStr
  deriving DecidableEq

structure EnvSource where
  ref : Option EnvSourceRef := none
  key : Option JStr := none
  label : Option JStr := none
  deriving DecidableEq

/-- What a variable is resolved to. A member of `Object.prototype` would be no text. -/
structure Resolution where
  kind : EnvValueKind
  value : Point JStr
  source : EnvSource
  deriving DecidableEq

structure EnvRow extends Resolution where
  container : JStr
  containerType : ContainerType
  name : JStr
  deriving DecidableEq

/-- Data by the name of its object, `null` for one that could not be read. -/
abbrev EnvMap := OrderedMap JStr (Option (OrderedMap JStr JStr))

structure EnvResolver where
  configMaps : EnvMap
  secrets : EnvMap

structure KeyRef where
  name : Option JStr := none
  key : Option JStr := none

structure ValueFrom where
  configMapKeyRef : Option KeyRef := none
  secretKeyRef : Option KeyRef := none
  /-- Its `fieldPath`. -/
  fieldRef : Option (Option JStr) := none
  /-- Its `resource`. -/
  resourceFieldRef : Option (Option JStr) := none

structure EnvVar where
  name : Option JStr := none
  value : Option JStr := none
  valueFrom : Option ValueFrom := none

/-- The names of its references. -/
structure EnvFromSource where
  prefix_ : Option JStr := none
  configMapRef : Option (Option JStr) := none
  secretRef : Option (Option JStr) := none

structure Container where
  name : Option JStr := none
  env : Option (List EnvVar) := none
  envFrom : Option (List EnvFromSource) := none

structure PodSpec where
  containers : Option (List Container) := none
  initContainers : Option (List Container) := none
  ephemeralContainers : Option (List Container) := none

def allContainers (spec : Option PodSpec) : List (Container × ContainerType) :=
  let spec := spec.getD {}
  (spec.initContainers.getD []).map (·, .init) ++ (spec.containers.getD []).map (·, .container) ++
    (spec.ephemeralContainers.getD []).map (·, .ephemeral)

/-! ## Entries -/

/-- `data[key] ?? ""`. -/
def readText (data : OrderedMap JStr JStr) (key : JStr) : Point JStr :=
  match readPoint data.entries key with
  | .null => .value []
  | point => point

/-- `map.get(objName)`, where that is neither `undefined` nor `null`. -/
def dataOf (map : EnvMap) (objName : JStr) : Option (OrderedMap JStr JStr) :=
  (map.get? objName).join

def cannotRead (refKind : RefKind) : JStr := js "(cannot read " ++ refKind.toLowerCase ++ js ")"

def resolveKeyRef (map : EnvMap) (ref : KeyRef) (okKind : EnvValueKind) (refKind : RefKind) :
    Resolution :=
  let objName := ref.name.getD []
  let key := ref.key.getD []
  let source : EnvSource :=
    if objName ≠ [] then
      { ref := some ⟨refKind, objName⟩, key := if key ≠ [] then some key else none }
    else { label := some refKind.text }
  if objName = [] ∨ key = [] then ⟨.missing, .value [], source⟩
  else match dataOf map objName with
    | none => ⟨.missing, .value (cannotRead refKind), source⟩
    | some data =>
      if key ∉ data.keys then ⟨.missing, .value (js "(key not found)"), source⟩
      else ⟨okKind, readText data key, source⟩

def inline (value : JStr) : Resolution := ⟨.literal, .value value, { label := some (js "inline") }⟩

def resolveEnvVar (e : EnvVar) (resolver : EnvResolver) : Resolution :=
  match e.value, e.valueFrom with
  | some value, _ => inline value
  | none, none => inline []
  | none, some vf =>
    match vf.configMapKeyRef, vf.secretKeyRef, vf.fieldRef.join, vf.resourceFieldRef.join with
    | some ref, _, _, _ => resolveKeyRef resolver.configMaps ref .configmap .configMap
    | none, some ref, _, _ => resolveKeyRef resolver.secrets ref .secret .secret
    | none, none, some fieldPath, _ =>
      ⟨.field, .value fieldPath, { label := some (js "fieldRef") }⟩
    | none, none, none, some resource =>
      ⟨.field, .value resource, { label := some (js "resourceFieldRef") }⟩
    | none, none, none, none => ⟨.missing, .value [], { label := some (js "unknown") }⟩

/-! ## Imports -/

def placeholderKey (refKind : RefKind) (objName prefix_ : JStr) : JStr :=
  refKind.text ++ js "/" ++ objName ++ js " " ++ (prefix_ ++ js "*")

def expandEnvFrom (merged : OrderedMap JStr EnvRow) (map : EnvMap) (objName prefix_ : JStr)
    (kind : EnvValueKind) (refKind : RefKind) (container : JStr) (containerType : ContainerType) :
    OrderedMap JStr EnvRow :=
  let source : EnvSource := { ref := some ⟨refKind, objName⟩ }
  match dataOf map objName with
  | none =>
    merged.set (placeholderKey refKind objName prefix_)
      { container, containerType, source
        name := prefix_ ++ js "*"
        kind := .missing
        value := .value (cannotRead refKind) }
  | some data =>
    data.keys.foldl (fun merged key => merged.set (prefix_ ++ key)
      { container, containerType, kind, source
        name := prefix_ ++ key
        value := readText data key }) merged

/-- Where the reference has a name, its object is imported. -/
def expandRef (merged : OrderedMap JStr EnvRow) (map : EnvMap) (ref : Option (Option JStr))
    (prefix_ : JStr) (kind : EnvValueKind) (refKind : RefKind) (container : JStr)
    (containerType : ContainerType) : OrderedMap JStr EnvRow :=
  match ref.join with
  | none => merged
  | some name =>
    if name = [] then merged
    else expandEnvFrom merged map name prefix_ kind refKind container containerType

/-- The effective environment of a container, by name. -/
def mergedEnv (resolver : EnvResolver) (container : Container) (containerType : ContainerType) :
    OrderedMap JStr EnvRow :=
  let cname := container.name.getD []
  let imported := (container.envFrom.getD []).foldl (fun merged ef =>
    let prefix_ := ef.prefix_.getD []
    let merged := expandRef merged resolver.configMaps ef.configMapRef prefix_ .configmap .configMap
      cname containerType
    expandRef merged resolver.secrets ef.secretRef prefix_ .secret .secret cname containerType)
    .empty
  (container.env.getD []).foldl (fun merged e =>
    match e.name with
    | none => merged
    | some name =>
      if name = [] then merged
      else merged.set name
        { resolveEnvVar e resolver with container := cname, containerType, name }) imported

/-- `a.name.localeCompare(b.name) || a.container.localeCompare(b.container)`. -/
def compareEnvRows (localeCompare : JStr → JStr → ℚ) (a b : EnvRow) : ℚ :=
  if localeCompare a.name b.name ≠ 0 then localeCompare a.name b.name
  else localeCompare a.container b.container

def buildEnvRows (localeCompare : JStr → JStr → ℚ) (spec : Option PodSpec)
    (resolver : EnvResolver) : List EnvRow :=
  sortBy (compareEnvRows localeCompare)
    ((allContainers spec).flatMap fun c => (mergedEnv resolver c.1 c.2).entries.map Prod.snd)

/-! ## What a container has -/

/-- An object that is imported from. -/
structure Source where
  kind : RefKind
  name : JStr
  prefix_ : JStr
  deriving DecidableEq

def sourceOf (kind : RefKind) (prefix_ : JStr) (ref : Option (Option JStr)) : Option Source :=
  (ref.join.filter (· ≠ [])).map fun name => ⟨kind, name, prefix_⟩

/-- The sources as they are declared, a ConfigMap before the Secret of its entry. -/
def Container.sources (c : Container) : List Source :=
  (c.envFrom.getD []).flatMap fun ef =>
    (sourceOf .configMap (ef.prefix_.getD []) ef.configMapRef).toList ++
      (sourceOf .secret (ef.prefix_.getD []) ef.secretRef).toList

def EnvResolver.map (resolver : EnvResolver) : RefKind → EnvMap
  | .configMap => resolver.configMaps
  | .secret => resolver.secrets

/-- The data of a source, if it can be read. -/
def EnvResolver.read (resolver : EnvResolver) (s : Source) : Option (OrderedMap JStr JStr) :=
  dataOf (resolver.map s.kind) s.name

def RefKind.okKind : RefKind → EnvValueKind
  | .configMap => .configmap
  | .secret => .secret

def Source.ref (s : Source) : EnvSource := { ref := some ⟨s.kind, s.name⟩ }

/-- What a source has for a name: the value of the key that the name is with its prefix. -/
def EnvResolver.provides (resolver : EnvResolver) (name : JStr) (s : Source) : Option Resolution :=
  (resolver.read s).bind fun data =>
    (data.entries.find? fun p => s.prefix_ ++ p.1 = name).map fun p =>
      ⟨s.kind.okKind, .value p.2, s.ref⟩

/-- The last entry of a name. -/
def Container.entryOf (c : Container) (name : JStr) : Option EnvVar :=
  (c.env.getD []).reverse.find? fun e => e.name = some name ∧ name ≠ []

/-- The last entry of a name, else what the last source has for it. -/
def effective (resolver : EnvResolver) (c : Container) (name : JStr) : Option Resolution :=
  match c.entryOf name with
  | some e => some (resolveEnvVar e resolver)
  | none => c.sources.reverse.findSome? (resolver.provides name)

def rowOf (c : Container × ContainerType) (name : JStr) (r : Resolution) : EnvRow :=
  { r with container := c.1.name.getD [], containerType := c.2, name }

/-- The row of a source that cannot be read. -/
def placeholder (c : Container × ContainerType) (s : Source) : EnvRow :=
  rowOf c (s.prefix_ ++ js "*") ⟨.missing, .value (cannotRead s.kind), s.ref⟩

/-- One row for each name that has a value, one for each source that cannot be read, and no
other. -/
def RowsOf (resolver : EnvResolver) (c : Container × ContainerType) (rows : List EnvRow) : Prop :=
  ∃ (vars : List EnvRow) (gone : List Source), rows.Perm (vars ++ gone.map (placeholder c)) ∧
    (vars.map EnvRow.name).Nodup ∧
    (∀ row, row ∈ vars ↔ ∃ r, effective resolver c.1 row.name = some r ∧ row = rowOf c row.name r) ∧
    gone.Nodup ∧ ∀ s, s ∈ gone ↔ s ∈ c.1.sources ∧ resolver.read s = none

/-- The value is a text, no member of `Object.prototype`, and of an object it is that of one of its
own keys. -/
structure Resolution.Own (resolver : EnvResolver) (r : Resolution) : Prop where
  text : ∃ text, r.value = .value text
  key : ∀ kind : RefKind, r.kind = kind.okKind → ∃ name data entry,
    dataOf (resolver.map kind) name = some data ∧ entry ∈ data ∧ r.value = .value entry.2 ∧
      r.source.ref = some ⟨kind, name⟩

def blank : UInt16 := 0x20

/-- No name has a blank. Of the sources that cannot be read the prefixes, with which their names
begin, have none, or the names of the objects. -/
structure NamesOk (resolver : EnvResolver) (c : Container) : Prop where
  entries : ∀ e ∈ c.env.getD [], ∀ name ∈ e.name, blank ∉ name
  imports : ∀ s ∈ c.sources, ∀ data ∈ resolver.read s, ∀ key ∈ data.keys, blank ∉ s.prefix_ ++ key
  gone : (∀ s ∈ c.sources, resolver.read s = none → blank ∉ s.prefix_) ∨
    ∀ s ∈ c.sources, resolver.read s = none → blank ∉ s.name

/-! ## The map -/

variable {resolver : EnvResolver} {c : Container × ContainerType} {s t : Source} {name : JStr}
  {data : OrderedMap JStr JStr}

def Source.key (s : Source) : JStr := placeholderKey s.kind s.name s.prefix_

def importedRow (c : Container × ContainerType) (s : Source) (data : OrderedMap JStr JStr)
    (key : JStr) : EnvRow :=
  rowOf c (s.prefix_ ++ key) ⟨s.kind.okKind, readText data key, s.ref⟩

/-- What a source sets. -/
def imported (resolver : EnvResolver) (c : Container × ContainerType) (s : Source) :
    List (JStr × EnvRow) :=
  match resolver.read s with
  | none => [(s.key, placeholder c s)]
  | some data => data.keys.map fun key => (s.prefix_ ++ key, importedRow c s data key)

/-- What an entry sets. -/
def declared (resolver : EnvResolver) (c : Container × ContainerType) (e : EnvVar) :
    Option (JStr × EnvRow) :=
  (e.name.filter (· ≠ [])).map fun name => (name, rowOf c name (resolveEnvVar e resolver))

/-- All that is set, in order. -/
def assigned (resolver : EnvResolver) (c : Container × ContainerType) : List (JStr × EnvRow) :=
  c.1.sources.flatMap (imported resolver c) ++ (c.1.env.getD []).filterMap (declared resolver c)

theorem expandEnvFrom_eq (merged : OrderedMap JStr EnvRow) (s : Source) :
    expandEnvFrom merged (resolver.map s.kind) s.name s.prefix_ s.kind.okKind s.kind
        (c.1.name.getD []) c.2 =
      (imported resolver c s).foldl (fun m x => m.set x.1 x.2) merged := by
  rw [expandEnvFrom, imported, EnvResolver.read]
  cases dataOf (resolver.map s.kind) s.name with
  | none => rfl
  | some data =>
    rw [List.foldl_map]
    rfl

theorem expandRef_eq (merged : OrderedMap JStr EnvRow) (kind : RefKind) (prefix_ : JStr)
    (ref : Option (Option JStr)) :
    expandRef merged (resolver.map kind) ref prefix_ kind.okKind kind (c.1.name.getD []) c.2 =
      ((sourceOf kind prefix_ ref).toList.flatMap (imported resolver c)).foldl
        (fun m x => m.set x.1 x.2) merged := by
  rw [expandRef, sourceOf]
  cases ref.join with
  | none => rfl
  | some name =>
    dsimp only
    rw [Option.filter_some]
    by_cases hname : name = []
    · rw [if_pos hname, if_neg (by simp [hname])]
      rfl
    · rw [if_neg hname, if_pos (by simp [hname]), Option.map_some, Option.toList_some,
        List.flatMap_singleton]
      exact expandEnvFrom_eq merged ⟨kind, name, prefix_⟩

theorem expandRefs_eq (merged : OrderedMap JStr EnvRow) (efs : List EnvFromSource) :
    efs.foldl (fun merged ef => expandRef
        (expandRef merged resolver.configMaps ef.configMapRef (ef.prefix_.getD []) .configmap
          .configMap (c.1.name.getD []) c.2)
        resolver.secrets ef.secretRef (ef.prefix_.getD []) .secret .secret (c.1.name.getD []) c.2)
        merged =
      ((efs.flatMap fun ef => (sourceOf .configMap (ef.prefix_.getD []) ef.configMapRef).toList ++
        (sourceOf .secret (ef.prefix_.getD []) ef.secretRef).toList).flatMap
          (imported resolver c)).foldl (fun m x => m.set x.1 x.2) merged := by
  induction efs generalizing merged with
  | nil => rfl
  | cons ef efs ih =>
    have hconfigMap := @expandRef_eq resolver c merged .configMap (ef.prefix_.getD [])
      ef.configMapRef
    have hsecret (m : OrderedMap JStr EnvRow) := @expandRef_eq resolver c m .secret
      (ef.prefix_.getD []) ef.secretRef
    rw [List.foldl_cons, ih, List.flatMap_cons, List.flatMap_append, List.flatMap_append,
      List.foldl_append, List.foldl_append, ← hconfigMap, ← hsecret]
    rfl

theorem entries_eq (merged : OrderedMap JStr EnvRow) (es : List EnvVar) :
    es.foldl (fun merged e =>
      match e.name with
      | none => merged
      | some name =>
        if name = [] then merged
        else merged.set name (rowOf c name (resolveEnvVar e resolver))) merged =
      (es.filterMap (declared resolver c)).foldl (fun m x => m.set x.1 x.2) merged := by
  induction es generalizing merged with
  | nil => rfl
  | cons e es ih =>
    rw [List.foldl_cons, ih, List.filterMap_cons, declared]
    cases e.name with
    | none => rfl
    | some name =>
      dsimp only
      rw [Option.filter_some]
      by_cases hname : name = []
      · rw [if_pos hname, if_neg (by simp [hname])]
        rfl
      · rw [if_neg hname, if_pos (by simp [hname])]
        rfl

theorem mergedEnv_eq (resolver : EnvResolver) (c : Container × ContainerType) :
    mergedEnv resolver c.1 c.2 =
      (assigned resolver c).foldl (fun m x => m.set x.1 x.2) .empty := by
  rw [assigned, List.foldl_append, Container.sources, ← expandRefs_eq, ← entries_eq]
  rfl

/-! ## Values -/

theorem readText_of_mem {key value : JStr} (h : (key, value) ∈ data) :
    readText data key = .value value := by
  rw [readText, readPoint, (DataTree.lookup_eq_some_iff data.nodup).mpr h]

theorem okKind_injective : Function.Injective RefKind.okKind := fun k k' h => by
  cases k <;> cases k' <;> first | rfl | cases h

theorem own_of_mem {kind : RefKind} {key : JStr} {source : EnvSource}
    (hdata : dataOf (resolver.map kind) name = some data) (hkey : key ∈ data.keys)
    (hsource : source.ref = some ⟨kind, name⟩) :
    Resolution.Own resolver ⟨kind.okKind, readText data key, source⟩ := by
  obtain ⟨value, hvalue⟩ := OrderedMap.mem_keys.mp hkey
  refine ⟨⟨value, readText_of_mem hvalue⟩, fun kind' hkind => ?_⟩
  obtain rfl : kind = kind' := okKind_injective hkind
  exact ⟨name, data, (key, value), hdata, hvalue, readText_of_mem hvalue, hsource⟩

/-- What is not of an object is the text that is given. -/
theorem own_of_text {kind : EnvValueKind} (hkind : kind ≠ .configmap ∧ kind ≠ .secret)
    (text : JStr) (source : EnvSource) : Resolution.Own resolver ⟨kind, .value text, source⟩ := by
  refine ⟨⟨text, rfl⟩, fun k hk => ?_⟩
  cases k with
  | configMap => exact absurd hk hkind.1
  | secret => exact absurd hk hkind.2

theorem own_resolveKeyRef (kind : RefKind) (ref : KeyRef) :
    (resolveKeyRef (resolver.map kind) ref kind.okKind kind).Own resolver := by
  rw [resolveKeyRef]
  by_cases hempty : ref.name.getD [] = [] ∨ ref.key.getD [] = []
  · rw [if_pos hempty]
    exact own_of_text (by decide) _ _
  · rw [if_neg hempty, if_pos (not_or.mp hempty).1]
    cases hdata : dataOf (resolver.map kind) (ref.name.getD []) with
    | none => exact own_of_text (by decide) _ _
    | some data =>
      by_cases hkey : ref.key.getD [] ∉ data.keys
      · simp only [if_pos hkey]
        exact own_of_text (by decide) _ _
      · simp only [if_neg hkey]
        exact own_of_mem hdata (not_not.mp hkey) rfl

theorem own_resolveEnvVar (e : EnvVar) : (resolveEnvVar e resolver).Own resolver := by
  rw [resolveEnvVar]
  split
  · exact own_of_text (by decide) _ _
  · exact own_of_text (by decide) _ _
  · split
    · exact own_resolveKeyRef .configMap _
    · exact own_resolveKeyRef .secret _
    · exact own_of_text (by decide) _ _
    · exact own_of_text (by decide) _ _
    · exact own_of_text (by decide) _ _

theorem own_of_assigned {p : JStr × EnvRow} (h : p ∈ assigned resolver c) : p.2.Own resolver := by
  rcases List.mem_append.mp h with h | h
  · obtain ⟨s, -, hp⟩ := List.mem_flatMap.mp h
    rw [imported] at hp
    cases hread : resolver.read s with
    | none =>
      rw [hread] at hp
      rw [List.mem_singleton.mp hp]
      exact own_of_text (by decide) _ _
    | some data =>
      rw [hread] at hp
      obtain ⟨key, hkey, rfl⟩ := List.mem_map.mp hp
      exact own_of_mem hread hkey rfl
  · obtain ⟨e, -, hp⟩ := List.mem_filterMap.mp h
    obtain ⟨name, -, rfl⟩ := Option.map_eq_some_iff.mp hp
    exact own_resolveEnvVar e

/-! ## Names -/

theorem lookup_declared (es : List EnvVar) (name : JStr) :
    (es.filterMap (declared resolver c)).lookup name =
      (es.find? fun e => e.name = some name ∧ name ≠ []).map fun e =>
        rowOf c name (resolveEnvVar e resolver) := by
  induction es with
  | nil => rfl
  | cons e es ih =>
    rw [List.filterMap_cons, List.find?_cons]
    by_cases hmatch : e.name = some name ∧ name ≠ []
    · have hset : declared resolver c e = some (name, rowOf c name (resolveEnvVar e resolver)) := by
        rw [declared, hmatch.1, Option.filter_some, if_pos (decide_eq_true hmatch.2),
          Option.map_some]
      rw [hset, decide_eq_true hmatch]
      exact List.lookup_cons_self
    · rw [decide_eq_false hmatch]
      cases hset : declared resolver c e with
      | none => exact ih
      | some p =>
        obtain ⟨n, hn, rfl⟩ := Option.map_eq_some_iff.mp hset
        obtain ⟨hname, hne⟩ := Option.filter_eq_some_iff.mp hn
        have hother : (name == n) = false := by
          refine beq_eq_false_iff_ne.mpr fun heq => hmatch ⟨heq ▸ hname, ?_⟩
          exact heq ▸ of_decide_eq_true hne
        rw [List.lookup_cons, hother]
        exact ih

/-- With its prefix each key of some data is another name. -/
theorem nodup_names (data : OrderedMap JStr JStr) (prefix_ : JStr) :
    (data.entries.map fun p => prefix_ ++ p.1).Nodup := by
  have hmap := data.nodup.map (f := (prefix_ ++ ·)) fun _ _ h => List.append_cancel_left h
  rwa [List.map_map] at hmap

theorem lookup_imported (hread : resolver.read s = some data) (name : JStr) :
    (imported resolver c s).reverse.lookup name =
      (resolver.provides name s).map (rowOf c name) := by
  have hkeys := nodup_names data s.prefix_
  have himported : imported resolver c s =
      data.entries.map fun p => (s.prefix_ ++ p.1, importedRow c s data p.1) := by
    rw [imported, hread]
    exact List.map_map
  have hreverse : ((imported resolver c s).reverse.map Prod.fst).Nodup := by
    rw [himported, List.map_reverse, List.nodup_reverse, List.map_map]
    exact hkeys
  refine Option.ext fun row => ?_
  rw [DataTree.lookup_eq_some_iff hreverse, List.mem_reverse, himported, EnvResolver.provides,
    hread, Option.bind_some, Option.map_map, List.mem_map, Option.map_eq_some_iff]
  refine exists_congr fun p => ?_
  have hfind : (data.entries.find? fun p => s.prefix_ ++ p.1 = name) = some p ↔
      p ∈ data.entries ∧ s.prefix_ ++ p.1 = name := Keyed.lookup_eq_some_iff hkeys
  rw [hfind, and_assoc, Prod.mk.injEq]
  refine and_congr_right fun hp => and_congr_right fun hname => ?_
  have hvalue : readText data p.1 = .value p.2 := readText_of_mem hp
  rw [importedRow, hvalue, hname]
  rfl

theorem blank_mem_key (s : Source) : blank ∈ s.key := by
  have hblank : blank ∈ js " " := by decide
  exact List.mem_append_left _ (List.mem_append_right _ hblank)

theorem lookup_assigned (hname : blank ∉ name) : (assigned resolver c).reverse.lookup name =
    (effective resolver c.1 name).map (rowOf c name) := by
  have hsource (s : Source) : (imported resolver c s).reverse.lookup name =
      (resolver.provides name s).map (rowOf c name) := by
    cases hread : resolver.read s with
    | none =>
      have hne : (name == s.key) = false :=
        beq_eq_false_iff_ne.mpr fun heq => hname (heq ▸ blank_mem_key s)
      rw [imported, EnvResolver.provides, hread, List.reverse_singleton, List.lookup_cons, hne]
      rfl
    | some data => exact lookup_imported hread name
  rw [assigned, List.reverse_append, List.lookup_append, ← List.filterMap_reverse, lookup_declared,
    List.reverse_flatMap, lookup_flatMap, effective, Container.entryOf]
  cases (c.1.env.getD []).reverse.find? fun e => e.name = some name ∧ name ≠ [] with
  | some e => rfl
  | none =>
    rw [Option.map_none, Option.none_or, List.map_findSome?]
    exact congrArg (List.findSome? · _) (funext hsource)

theorem mem_mergedEnv {p : JStr × EnvRow} : p ∈ mergedEnv resolver c.1 c.2 ↔
    (assigned resolver c).reverse.lookup p.1 = some p.2 := by
  rw [mergedEnv_eq, OrderedMap.mem_foldl_set]
  exact or_iff_left fun h => List.not_mem_nil h.2

theorem effective_name (h : NamesOk resolver c.1) {r : Resolution}
    (hr : effective resolver c.1 name = some r) : blank ∉ name := by
  rw [effective] at hr
  cases hentry : c.1.entryOf name with
  | some e =>
    have he := List.find?_some hentry
    have hmem := List.mem_reverse.mp (List.mem_of_find?_eq_some hentry)
    exact h.entries e hmem name (of_decide_eq_true he).1
  | none =>
    rw [hentry] at hr
    obtain ⟨s, hs, hprovides⟩ := List.exists_of_findSome?_eq_some hr
    obtain ⟨data, hread, hfind⟩ := Option.bind_eq_some_iff.mp hprovides
    obtain ⟨p, hp, -⟩ := Option.map_eq_some_iff.mp hfind
    have hkey : p.1 ∈ data.keys := List.mem_map_of_mem (List.mem_of_find?_eq_some hp)
    have hpname := List.find?_some hp
    rw [decide_eq_true_iff] at hpname
    exact hpname ▸ h.imports s (List.mem_reverse.mp hs) data hread p.1 hkey

/-- A key with a blank is that of a source that cannot be read. -/
theorem exists_source (h : NamesOk resolver c.1) {p : JStr × EnvRow}
    (hp : p ∈ assigned resolver c) (hblank : blank ∈ p.1) :
    ∃ s ∈ c.1.sources, resolver.read s = none ∧ p = (s.key, placeholder c s) := by
  rcases List.mem_append.mp hp with hp | hp
  · obtain ⟨s, hs, hp⟩ := List.mem_flatMap.mp hp
    rw [imported] at hp
    cases hread : resolver.read s with
    | none =>
      rw [hread] at hp
      exact ⟨s, hs, hread, List.mem_singleton.mp hp⟩
    | some data =>
      rw [hread] at hp
      obtain ⟨key, hkey, rfl⟩ := List.mem_map.mp hp
      exact absurd hblank (h.imports s hs data hread key hkey)
  · obtain ⟨e, he, hp⟩ := List.mem_filterMap.mp hp
    obtain ⟨name, hname, rfl⟩ := Option.map_eq_some_iff.mp hp
    exact absurd hblank (h.entries e he name (Option.filter_eq_some_iff.mp hname).1)

def RefKind.initial : RefKind → UInt16
  | .configMap => 0x43
  | .secret => 0x53

theorem head?_key (s : Source) : s.key.head? = some s.kind.initial := by
  obtain ⟨kind, name, prefix_⟩ := s
  cases kind <;> rfl

theorem kind_of_key (hkey : s.key = t.key) : s.kind = t.kind := by
  have hhead := head?_key s
  rw [hkey, head?_key] at hhead
  revert hhead
  cases s.kind <;> cases t.kind <;> decide

theorem notMem_star {prefix_ : JStr} (h : blank ∉ prefix_) :
    blank ∉ (js "*").reverse ++ prefix_.reverse := by
  have hstar : blank ∉ (js "*").reverse := by decide
  have hprefix : blank ∉ prefix_.reverse := fun hmem => h (List.mem_reverse.mp hmem)
  exact fun hmem => (List.mem_append.mp hmem).elim hstar hprefix

/-- The key of a source says which it is, as its prefix or its name has no blank. -/
theorem key_inj (h : NamesOk resolver c.1) (hs : s ∈ c.1.sources) (ht : t ∈ c.1.sources)
    (hs' : resolver.read s = none) (ht' : resolver.read t = none) (hkey : s.key = t.key) :
    s = t := by
  have hkind := kind_of_key hkey
  have hsep : js " " = [blank] := by decide
  have hparts : s.name ++ blank :: (s.prefix_ ++ js "*") =
      t.name ++ blank :: (t.prefix_ ++ js "*") := by
    rw [Source.key, Source.key, placeholderKey, placeholderKey, hkind, hsep] at hkey
    simp only [List.append_assoc, List.append_cancel_left_eq] at hkey
    exact hkey
  obtain ⟨hname, hprefix⟩ : s.name = t.name ∧ s.prefix_ = t.prefix_ := by
    rcases h.gone with hgone | hgone
    · have hreverse := congrArg List.reverse hparts
      simp only [List.reverse_append, List.reverse_cons, List.append_assoc,
        List.singleton_append] at hreverse
      have hstar : (js "*").reverse ++ s.prefix_.reverse = (js "*").reverse ++ t.prefix_.reverse ∧
          s.name.reverse = t.name.reverse := by
        refine append_cons_inj_of_notMem (x := blank) ?_ ?_ ?_
        · simpa only [List.append_assoc] using hreverse
        · exact notMem_star (hgone s hs hs')
        · exact notMem_star (hgone t ht ht')
      exact ⟨List.reverse_injective hstar.2,
        List.reverse_injective (List.append_cancel_left hstar.1)⟩
    · obtain ⟨hname, hrest⟩ := append_cons_inj_of_notMem hparts (hgone s hs hs') (hgone t ht ht')
      exact ⟨hname, List.append_cancel_right hrest⟩
  obtain ⟨kind, name, prefix_⟩ := s
  exact (Source.mk.injEq _ _ _ _ _ _).mpr ⟨hkind, hname, hprefix⟩

/-! ## Rows -/

/-- The sources that cannot be read, each once. -/
def goneSources (resolver : EnvResolver) (c : Container) : List Source :=
  (c.sources.filter fun s => (resolver.read s).isNone).dedup

theorem mem_goneSources {c : Container} :
    s ∈ goneSources resolver c ↔ s ∈ c.sources ∧ resolver.read s = none := by
  rw [goneSources, List.mem_dedup, List.mem_filter, Option.isNone_iff_eq_none]

theorem mem_mergedEnv_of_blank_notMem {p : JStr × EnvRow} (hname : blank ∉ p.1) :
    p ∈ mergedEnv resolver c.1 c.2 ↔
      ∃ r, effective resolver c.1 p.1 = some r ∧ p.2 = rowOf c p.1 r := by
  rw [mem_mergedEnv, lookup_assigned hname, Option.map_eq_some_iff]
  exact exists_congr fun r => and_congr_right fun _ => eq_comm

theorem mem_mergedEnv_of_blank_mem (h : NamesOk resolver c.1) {p : JStr × EnvRow}
    (hblank : blank ∈ p.1) : p ∈ mergedEnv resolver c.1 c.2 ↔
      ∃ s ∈ goneSources resolver c.1, (s.key, placeholder c s) = p := by
  rw [mem_mergedEnv]
  constructor
  · intro hp
    have hmem := List.mem_reverse.mp (DataTree.mem_of_lookup hp)
    obtain ⟨s, hs, hread, heq⟩ := exists_source h hmem hblank
    exact ⟨s, mem_goneSources.mpr ⟨hs, hread⟩, heq.symm⟩
  · rintro ⟨s, hs, rfl⟩
    obtain ⟨hs, hread⟩ := mem_goneSources.mp hs
    have hset : (s.key, placeholder c s) ∈ assigned resolver c := by
      refine List.mem_append_left _ (List.mem_flatMap.mpr ⟨s, hs, ?_⟩)
      rw [imported, hread]
      exact List.mem_singleton_self _
    cases hlookup : (assigned resolver c).reverse.lookup s.key with
    | none =>
      have hne := List.lookup_eq_none_iff.mp hlookup _ (List.mem_reverse.mpr hset)
      exact absurd hne (by simp)
    | some row =>
      have hmem := List.mem_reverse.mp (DataTree.mem_of_lookup hlookup)
      obtain ⟨t, ht, hreadt, heq⟩ := exists_source h hmem hblank
      obtain ⟨hkey, rfl⟩ := Prod.mk.inj heq
      rw [key_inj h hs ht hread hreadt hkey]

/-- The entries with a blank in their keys are those of the sources that cannot be read. -/
theorem perm_goneSources (h : NamesOk resolver c.1) :
    ((mergedEnv resolver c.1 c.2).entries.filter fun p => !decide (blank ∉ p.1)).Perm
      ((goneSources resolver c.1).map fun s => (s.key, placeholder c s)) := by
  refine (List.perm_ext_iff_of_nodup ?_ ?_).mpr fun p => ?_
  · exact (List.Nodup.of_map _ (mergedEnv resolver c.1 c.2).nodup).filter _
  · refine (List.nodup_dedup _).map_on fun s hs t ht heq => ?_
    obtain ⟨hs, hreads⟩ := mem_goneSources.mp hs
    obtain ⟨ht, hreadt⟩ := mem_goneSources.mp ht
    exact key_inj h hs ht hreads hreadt (Prod.mk.inj heq).1
  · rw [List.mem_filter, List.mem_map]
    constructor
    · rintro ⟨hp, hblank⟩
      exact (mem_mergedEnv_of_blank_mem h (by simpa using hblank)).mp hp
    · rintro ⟨s, hs, rfl⟩
      have hblank := blank_mem_key s
      exact ⟨(mem_mergedEnv_of_blank_mem h hblank).mpr ⟨s, hs, rfl⟩, by simpa using hblank⟩

theorem rowsOf_mergedEnv (h : NamesOk resolver c.1) :
    RowsOf resolver c ((mergedEnv resolver c.1 c.2).entries.map Prod.snd) := by
  have hkeys := (mergedEnv resolver c.1 c.2).nodup
  have hvar : ∀ p ∈ (mergedEnv resolver c.1 c.2).entries.filter fun p => blank ∉ p.1,
      ∃ r, effective resolver c.1 p.1 = some r ∧ p.2 = rowOf c p.1 r := by
    intro p hp
    obtain ⟨hmem, hname⟩ := List.mem_filter.mp hp
    exact (mem_mergedEnv_of_blank_notMem (of_decide_eq_true hname)).mp hmem
  refine ⟨((mergedEnv resolver c.1 c.2).entries.filter fun p => blank ∉ p.1).map Prod.snd,
    goneSources resolver c.1, ?_, ?_, fun row => ⟨fun hrow => ?_, ?_⟩, List.nodup_dedup _,
    fun s => mem_goneSources⟩
  · have hsplit := (List.filter_append_perm (fun p => decide (blank ∉ p.1))
      (mergedEnv resolver c.1 c.2).entries).symm.map Prod.snd
    have hrest := (perm_goneSources h).map Prod.snd
    rw [List.map_map] at hrest
    rw [List.map_append] at hsplit
    exact hsplit.trans (hrest.append_left _)
  · have hnames : (((mergedEnv resolver c.1 c.2).entries.filter fun p => blank ∉ p.1).map
        Prod.snd).map EnvRow.name =
        ((mergedEnv resolver c.1 c.2).entries.filter fun p => blank ∉ p.1).map Prod.fst := by
      rw [List.map_map]
      refine List.map_congr_left fun p hp => ?_
      obtain ⟨r, -, hrow⟩ := hvar p hp
      rw [Function.comp_apply, hrow]
      rfl
    rw [hnames]
    exact hkeys.sublist (List.filter_sublist.map _)
  · obtain ⟨p, hp, rfl⟩ := List.mem_map.mp hrow
    obtain ⟨r, hr, hrow⟩ := hvar p hp
    have hname : p.2.name = p.1 := congrArg EnvRow.name hrow
    exact ⟨r, hname ▸ hr, hname ▸ hrow⟩
  · rintro ⟨r, hr, hrow⟩
    have hname := effective_name h hr
    refine List.mem_map.mpr ⟨(row.name, row), List.mem_filter.mpr ⟨?_, decide_eq_true hname⟩, rfl⟩
    exact (mem_mergedEnv_of_blank_notMem hname).mpr ⟨r, hr, hrow⟩

def importedMaps : EnvMap := OrderedMap.empty.set (js "settings")
  (some ((OrderedMap.empty.set (js "host") (js "db")).set (js "port") (js "5432")))

/-- One ConfigMap can be read and one Secret cannot. -/
def importingResolver : EnvResolver :=
  { configMaps := importedMaps, secrets := OrderedMap.empty.set (js "token") none }

/-- A key that `Object.prototype` has. -/
def prototypeRef : KeyRef := { name := some (js "settings"), key := some (js "toString") }

/-- Its own entry has an imported name. -/
def importingContainer : Container where
  name := some (js "app")
  env := some
    [{ name := some (js "DB_host"), valueFrom := some { configMapKeyRef := some prototypeRef } }]
  envFrom := some
    [{ prefix_ := some (js "DB_"), configMapRef := some (some (js "settings")),
       secretRef := some (some (js "token")) }]

def importingSpec : PodSpec := { containers := some [importingContainer] }

theorem namesOk_importing : NamesOk importingResolver importingContainer where
  entries e he name hname := by
    obtain rfl := List.mem_singleton.mp he
    obtain rfl := Option.mem_some.mp hname
    decide
  imports s hs data hdata := by
    rcases List.mem_pair.mp hs with rfl | rfl
    · obtain rfl := Option.mem_some.mp hdata
      decide
    · cases hdata
  gone := by
    refine .inl fun s hs _ => ?_
    rcases List.mem_pair.mp hs with rfl | rfl <;> decide

end KubeConsole.Web.PodEnv
