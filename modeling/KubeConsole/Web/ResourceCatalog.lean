import KubeConsole.Theory.Best
import KubeConsole.Theory.Keyed
import KubeConsole.Theory.Scanner
import KubeConsole.Web.KubeVersions
import KubeConsole.Web.RingBuffer

/-!
The catalog of the sidebar (`resourceCatalog.ts`): of each resource that can be listed one version,
in the section of the resource.
-/
namespace KubeConsole.Web.ResourceCatalog
open KubeConsole.Theory KubeVersions TableSort

structure DiscoveryResource where
  id : JStr := []
  group : JStr
  version : JStr
  resource : JStr
  kind : JStr := []
  namespaced : Bool := true
  verbs : Option (List JStr) := none
  shortNames : Option (List JStr) := none
  categories : Option (List JStr) := none
  deriving DecidableEq

/-- The last is `"Custom & Other"`. -/
inductive SectionName where
  | workloads | networking | configuration | storage | rbac | cluster | customAndOther
  deriving DecidableEq

def SECTION_NAMES : List SectionName :=
  [.workloads, .networking, .configuration, .storage, .rbac, .cluster, .customAndOther]

structure CatalogSection where
  name : SectionName
  resources : List DiscoveryResource
  deriving DecidableEq

def SECTION_BY_RESOURCE : List (JStr × SectionName) :=
  [(js "/pods", .workloads), (js "apps/deployments", .workloads),
    (js "apps/statefulsets", .workloads), (js "apps/daemonsets", .workloads),
    (js "apps/replicasets", .workloads), (js "batch/jobs", .workloads),
    (js "batch/cronjobs", .workloads), (js "/replicationcontrollers", .workloads),
    (js "/services", .networking), (js "/endpoints", .networking),
    (js "discovery.k8s.io/endpointslices", .networking),
    (js "networking.k8s.io/ingresses", .networking),
    (js "networking.k8s.io/ingressclasses", .networking),
    (js "networking.k8s.io/networkpolicies", .networking),
    (js "/persistentvolumeclaims", .storage), (js "/persistentvolumes", .storage),
    (js "storage.k8s.io/storageclasses", .storage),
    (js "storage.k8s.io/volumeattachments", .storage), (js "storage.k8s.io/csidrivers", .storage),
    (js "storage.k8s.io/csinodes", .storage),
    (js "/configmaps", .configuration), (js "/secrets", .configuration),
    (js "/resourcequotas", .configuration), (js "/limitranges", .configuration),
    (js "autoscaling/horizontalpodautoscalers", .configuration),
    (js "policy/poddisruptionbudgets", .configuration),
    (js "scheduling.k8s.io/priorityclasses", .configuration),
    (js "rbac.authorization.k8s.io/roles", .rbac),
    (js "rbac.authorization.k8s.io/rolebindings", .rbac),
    (js "rbac.authorization.k8s.io/clusterroles", .rbac),
    (js "rbac.authorization.k8s.io/clusterrolebindings", .rbac), (js "/serviceaccounts", .rbac),
    (js "/namespaces", .cluster), (js "/nodes", .cluster), (js "/events", .cluster),
    (js "events.k8s.io/events", .cluster),
    (js "apiextensions.k8s.io/customresourcedefinitions", .cluster),
    (js "apiregistration.k8s.io/apiservices", .cluster),
    (js "coordination.k8s.io/leases", .cluster), (js "node.k8s.io/runtimeclasses", .cluster),
    (js "flowcontrol.apiserver.k8s.io/flowschemas", .cluster),
    (js "flowcontrol.apiserver.k8s.io/prioritylevelconfigurations", .cluster)]

/-- A member of `Object.prototype` would be no name of a section. -/
def sectionFor (res : DiscoveryResource) : Point SectionName :=
  let group := if res.group = js "core" then [] else res.group
  match readPoint SECTION_BY_RESOURCE (group ++ js "/" ++ res.resource) with
  | .null => .value .customAndOther
  | name => name

def MIRRORED_RESOURCES : List (JStr × JStr) := [(js "events.k8s.io/events", js "/events")]

def resourceKey (res : DiscoveryResource) : JStr := res.group ++ js "/" ++ res.resource

/-- `(res.verbs ?? []).includes("list")`. -/
def Listable (res : DiscoveryResource) : Prop := js "list" ∈ res.verbs.getD []

instance : DecidablePred Listable := fun res => inferInstanceAs (Decidable (_ ∈ res.verbs.getD []))

abbrev ByKey := OrderedMap JStr DiscoveryResource

def addResource (localeCompare : JStr → JStr → ℚ) (byKey : ByKey) (res : DiscoveryResource) :
    ByKey :=
  if ¬Listable res then byKey
  else
    match byKey.get? (resourceKey res) with
    | none => byKey.set (resourceKey res) res
    | some existing =>
      if 0 < compareKubeVersions localeCompare res.version existing.version then
        byKey.set (resourceKey res) res
      else byKey

/-- A mirror of what is there is hidden. -/
def isMirror (byKey : ByKey) (res : DiscoveryResource) : Bool :=
  match readPoint MIRRORED_RESOURCES (resourceKey res) with
  | .value canonical => canonical ∈ byKey.keys
  | _ => false

abbrev Sections := OrderedMap SectionName (List DiscoveryResource)

/-- `sections.get(sectionFor(res))?.push(res)`, but for a mirror. -/
def pushResource (byKey : ByKey) (sections : Sections) (res : DiscoveryResource) : Sections :=
  if isMirror byKey res then sections
  else match sectionFor res with
    | .value name =>
      match sections.get? name with
      | some list => sections.set name (list ++ [res])
      | none => sections
    | _ => sections

def buildCatalog (localeCompare : JStr → JStr → ℚ) (resources : List DiscoveryResource) :
    List CatalogSection :=
  let byKey := resources.foldl (addResource localeCompare) .empty
  let empty : Sections := SECTION_NAMES.foldl (fun sections name => sections.set name []) .empty
  let sections := (byKey.entries.map Prod.snd).foldl (pushResource byKey) empty
  SECTION_NAMES.filterMap fun name =>
    let list := sortBy (fun a b => localeCompare a.resource b.resource)
      ((sections.get? name).getD [])
    if 0 < list.length then some ⟨name, list⟩ else none

/-! ## What the catalog has -/

/-- A resource, with its group. -/
abbrev pairOf (res : DiscoveryResource) : JStr × JStr := (res.group, res.resource)

/-- Of the versions that can be listed it is above all others. -/
def Highest (localeCompare : JStr → JStr → ℚ) (resources : List DiscoveryResource)
    (res : DiscoveryResource) : Prop :=
  res ∈ resources ∧ Listable res ∧ ∀ r ∈ resources, Listable r → pairOf r = pairOf res →
    r = res ∨ Above localeCompare res.version r.version

/-- The events of their own group, where those of the core group can be listed. -/
def Hidden (resources : List DiscoveryResource) (pair : JStr × JStr) : Prop :=
  pair = (js "events.k8s.io", js "events") ∧
    ∃ r ∈ resources, Listable r ∧ pairOf r = ([], js "events")

/-- Each resource that can be listed and is not hidden is in one section, once. -/
structure CatalogOf (localeCompare : JStr → JStr → ℚ) (resources : List DiscoveryResource)
    (catalog : List CatalogSection) : Prop where
  names : (catalog.map CatalogSection.name).Nodup
  once : ((catalog.flatMap CatalogSection.resources).map pairOf).Nodup
  pair_iff : ∀ pair, pair ∈ (catalog.flatMap CatalogSection.resources).map pairOf ↔
    (∃ r ∈ resources, Listable r ∧ pairOf r = pair) ∧ ¬Hidden resources pair
  highest : ∀ s ∈ catalog, ∀ r ∈ s.resources,
    Highest localeCompare resources r ∧ sectionFor r = .value s.name

/-- Two versions of a resource are not of equal priority. -/
def Distinct (localeCompare : JStr → JStr → ℚ) (resources : List DiscoveryResource) : Prop :=
  TellsApart pairOf (fun a b => compareKubeVersions localeCompare a.version b.version) resources

/-! ## Keys -/

def slash : UInt16 := 0x2F

variable {localeCompare : JStr → JStr → ℚ} {resources : List DiscoveryResource}
  {r s : DiscoveryResource}

theorem resourceKey_eq (r : DiscoveryResource) :
    resourceKey r = r.group ++ slash :: r.resource := by
  rw [resourceKey, List.append_assoc]
  rfl

/-- As no group has a slash, the key says the group and the resource. -/
theorem resourceKey_inj (hr : slash ∉ r.group) (hs : slash ∉ s.group) :
    resourceKey r = resourceKey s ↔ pairOf r = pairOf s := by
  rw [resourceKey_eq, resourceKey_eq, Prod.mk.injEq]
  refine ⟨fun h => append_cons_inj_of_notMem h hr hs, fun ⟨hgroup, hresource⟩ => ?_⟩
  rw [hgroup, hresource]

theorem slash_notMem_objectPrototype : ∀ k ∈ objectPrototype, slash ∉ k := by decide +kernel

/-- No key with a slash is looked up in the prototype. -/
theorem readPoint_of_slash {V : Type*} {values : List (JStr × V)} {k : JStr} (h : slash ∈ k) :
    readPoint values k = (values.lookup k).elim .null .value := by
  rw [readPoint]
  cases values.lookup k with
  | some v => rfl
  | none => exact if_neg fun hk => slash_notMem_objectPrototype k hk h

def sectionOf (res : DiscoveryResource) : SectionName :=
  let group := if res.group = js "core" then [] else res.group
  (SECTION_BY_RESOURCE.lookup (group ++ js "/" ++ res.resource)).getD .customAndOther

/-- Every resource has a section. -/
theorem sectionFor_eq (res : DiscoveryResource) : sectionFor res = .value (sectionOf res) := by
  have hslash : slash ∈ js "/" := by decide
  rw [sectionFor, sectionOf, readPoint_of_slash (List.mem_append_left _
    (List.mem_append_right _ hslash))]
  cases SECTION_BY_RESOURCE.lookup _ <;> rfl

/-! ## One version of each resource -/

def compareResources (localeCompare : JStr → JStr → ℚ) (a b : DiscoveryResource) : ℚ :=
  compareKubeVersions localeCompare a.version b.version

def byKeyOf (localeCompare : JStr → JStr → ℚ) (resources : List DiscoveryResource) : ByKey :=
  (resources.filter Listable).foldl (keepBest resourceKey (compareResources localeCompare)) .empty

theorem foldl_addResource (localeCompare : JStr → JStr → ℚ) (resources : List DiscoveryResource) :
    resources.foldl (addResource localeCompare) .empty = byKeyOf localeCompare resources := by
  rw [byKeyOf, List.foldl_filter]
  congr 1
  funext byKey res
  by_cases hlist : Listable res
  · rw [if_pos (decide_eq_true hlist), addResource, if_neg (not_not.mpr hlist), keepBest]
    cases byKey.get? (resourceKey res) <;> rfl
  · rw [if_neg (mt of_decide_eq_true hlist), addResource, if_pos hlist]

theorem consistent_compareResources (hlocale : Consistent Set.univ localeCompare) :
    Consistent Set.univ (compareResources localeCompare) :=
  (consistent_compareKubeVersions hlocale).comap DiscoveryResource.version

/-- Entries of one key are entries of one group and resource. -/
theorem Distinct.tellsApart (h : Distinct localeCompare resources)
    (hgroups : ∀ r ∈ resources, slash ∉ r.group) :
    TellsApart resourceKey (compareResources localeCompare) (resources.filter Listable) := by
  refine List.Pairwise.imp_of_mem (fun {r s} hr hs hrs hkey => hrs ?_) (h.filter _)
  have hr := (List.mem_filter.mp hr).1
  have hs := (List.mem_filter.mp hs).1
  exact (resourceKey_inj (hgroups r hr) (hgroups s hs)).mp hkey

theorem mem_keys_byKeyOf (hlocale : Consistent Set.univ localeCompare) {k : JStr} :
    k ∈ (byKeyOf localeCompare resources).keys ↔
      ∃ r ∈ resources, Listable r ∧ resourceKey r = k := by
  have hkept : Kept resourceKey (compareResources localeCompare) (resources.filter Listable)
      (byKeyOf localeCompare resources) := kept_foldl (consistent_compareResources hlocale) _
  constructor
  · intro hk
    obtain ⟨r, hr⟩ := OrderedMap.mem_keys.mp hk
    obtain ⟨hkey, hmem, -⟩ := hkept.isBest _ hr
    obtain ⟨hr, hlist⟩ := List.mem_filter.mp hmem
    exact ⟨r, hr, of_decide_eq_true hlist, hkey⟩
  · rintro ⟨r, hr, hlist, rfl⟩
    exact hkept.mem_keys r (List.mem_filter.mpr ⟨hr, decide_eq_true hlist⟩)

/-! ## Mirrors -/

theorem isMirror_eq (byKey : ByKey) (r : DiscoveryResource) :
    isMirror byKey r =
      decide (resourceKey r = js "events.k8s.io/events" ∧ js "/events" ∈ byKey.keys) := by
  have hslash : slash ∈ resourceKey r := by
    rw [resourceKey_eq]
    exact List.mem_append_right _ List.mem_cons_self
  rw [isMirror, readPoint_of_slash hslash, MIRRORED_RESOURCES, List.lookup_cons, List.lookup_nil]
  by_cases hkey : resourceKey r = js "events.k8s.io/events"
  · simp [hkey]
  · have hne : (resourceKey r == js "events.k8s.io/events") = false := beq_eq_false_iff_ne.mpr hkey
    simp [hkey, hne]

/-- The resource of a key that is written out. -/
theorem resourceKey_eq_iff (hr : slash ∉ r.group) {group resource k : JStr}
    (hgroup : slash ∉ group) (hk : group ++ slash :: resource = k) :
    resourceKey r = k ↔ pairOf r = (group, resource) := by
  have hkey := resourceKey_inj (s := { group, resource, version := [] }) hr hgroup
  rwa [resourceKey_eq { group, resource, version := [] }, hk] at hkey

theorem isMirror_iff (hlocale : Consistent Set.univ localeCompare)
    (hgroups : ∀ r ∈ resources, slash ∉ r.group) (hr : slash ∉ r.group) :
    isMirror (byKeyOf localeCompare resources) r = true ↔ Hidden resources (pairOf r) := by
  rw [isMirror_eq, decide_eq_true_iff, mem_keys_byKeyOf hlocale, Hidden]
  refine and_congr ?_ (exists_congr fun s => and_congr_right fun hs => and_congr_right fun _ => ?_)
  · exact resourceKey_eq_iff hr (by decide) (by decide)
  · exact resourceKey_eq_iff (hgroups s hs) (by decide) (by decide)

/-! ## Sections -/

/-- What is kept and is no mirror. -/
def shown (byKey : ByKey) : List DiscoveryResource :=
  (byKey.entries.map Prod.snd).filter fun r => !isMirror byKey r

def catalogSection (localeCompare : JStr → JStr → ℚ) (xs : List DiscoveryResource)
    (name : SectionName) : Option CatalogSection :=
  let list := sortBy (fun a b => localeCompare a.resource b.resource)
    (xs.filter fun r => sectionOf r = name)
  if 0 < list.length then some ⟨name, list⟩ else none

theorem get?_pushResource (byKey : ByKey) {sections : Sections} (r : DiscoveryResource)
    (name : SectionName) {list : List DiscoveryResource}
    (h : ∀ name, (sections.get? name).isSome) (hname : sections.get? name = some list) :
    (pushResource byKey sections r).get? name =
      some (list ++ [r].filter fun r => !isMirror byKey r && sectionOf r = name) := by
  rw [pushResource, sectionFor_eq]
  by_cases hmirror : isMirror byKey r = true
  · simp [hmirror, hname]
  · obtain ⟨old, hold⟩ := Option.isSome_iff_exists.mp (h (sectionOf r))
    simp only [hmirror, hold]
    rw [if_neg (by simp), OrderedMap.get?_set]
    by_cases hsection : sectionOf r = name
    · obtain rfl : old = list := Option.some.inj (hold.symm.trans (hsection ▸ hname))
      simp [hsection, hmirror]
    · simp [hsection, Ne.symm hsection, hname]

theorem get?_foldl_pushResource (byKey : ByKey) (xs : List DiscoveryResource) {sections : Sections}
    (h : ∀ name, sections.get? name = some []) (name : SectionName) :
    (xs.foldl (pushResource byKey) sections).get? name =
      some (xs.filter fun r => !isMirror byKey r && sectionOf r = name) := by
  induction xs using List.reverseRecOn generalizing name with
  | nil => exact h name
  | append_singleton xs r ih =>
    rw [List.foldl_append, List.filter_append]
    exact get?_pushResource byKey r name (fun name => Option.isSome_iff_exists.mpr ⟨_, ih name⟩)
      (ih name)

theorem buildCatalog_eq (localeCompare : JStr → JStr → ℚ) (resources : List DiscoveryResource) :
    buildCatalog localeCompare resources = SECTION_NAMES.filterMap
      (catalogSection localeCompare (shown (byKeyOf localeCompare resources))) := by
  have hempty (name : SectionName) : (SECTION_NAMES.foldl (fun sections name =>
      sections.set name []) (.empty : Sections)).get? name = some [] := by
    cases name <;> decide
  rw [buildCatalog, foldl_addResource]
  refine List.filterMap_congr fun name _ => ?_
  rw [get?_foldl_pushResource _ _ hempty, catalogSection, shown, List.filter_filter]
  simp only [Option.getD_some, Bool.and_comm]

variable {xs ys : List DiscoveryResource} {name : SectionName}

theorem catalogSection_eq_some_iff {t : CatalogSection} :
    catalogSection localeCompare xs name = some t ↔
      t = ⟨name, sortBy (fun a b => localeCompare a.resource b.resource)
        (xs.filter fun r => sectionOf r = name)⟩ ∧ t.resources ≠ [] := by
  rw [catalogSection, Option.ite_none_right_eq_some, Option.some.injEq, List.length_pos_iff_ne_nil]
  constructor
  · rintro ⟨hne, rfl⟩
    exact ⟨rfl, hne⟩
  · rintro ⟨rfl, hne⟩
    exact ⟨hne, rfl⟩

theorem mem_catalogSection {t : CatalogSection}
    (h : catalogSection localeCompare xs name = some t) :
    r ∈ t.resources ↔ r ∈ xs ∧ sectionOf r = name := by
  obtain ⟨rfl, -⟩ := catalogSection_eq_some_iff.mp h
  rw [(sortBy_perm _ _).mem_iff, List.mem_filter, decide_eq_true_iff]

/-- The sections that are not empty, in the order of their names. -/
theorem nodup_names (localeCompare : JStr → JStr → ℚ) (xs : List DiscoveryResource) :
    ((SECTION_NAMES.filterMap (catalogSection localeCompare xs)).map
      CatalogSection.name).Nodup := by
  have hnodup : SECTION_NAMES.Nodup := by decide
  rw [List.map_filterMap]
  refine hnodup.filterMap fun name name' n hn hn' => ?_
  obtain ⟨t, ht, rfl⟩ := Option.map_eq_some_iff.mp hn
  obtain ⟨t', ht', heq⟩ := Option.map_eq_some_iff.mp hn'
  obtain ⟨rfl, -⟩ := catalogSection_eq_some_iff.mp ht
  obtain ⟨rfl, -⟩ := catalogSection_eq_some_iff.mp ht'
  exact heq.symm

theorem perm_flatMap_resources (localeCompare : JStr → JStr → ℚ) (xs : List DiscoveryResource) :
    ((SECTION_NAMES.filterMap (catalogSection localeCompare xs)).flatMap
      CatalogSection.resources).Perm xs := by
  have hnames : ∀ r ∈ xs, sectionOf r ∈ SECTION_NAMES := fun r _ => by
    cases sectionOf r <;> decide
  have hsections : (SECTION_NAMES.filterMap (catalogSection localeCompare xs)).flatMap
      CatalogSection.resources = SECTION_NAMES.flatMap fun name =>
        sortBy (fun a b => localeCompare a.resource b.resource)
          (xs.filter fun r => sectionOf r = name) := by
    induction SECTION_NAMES with
    | nil => rfl
    | cons name names ih =>
      rw [List.filterMap_cons, List.flatMap_cons, ← ih]
      cases hsection : catalogSection localeCompare xs name with
      | none =>
        rw [catalogSection] at hsection
        split_ifs at hsection with hpos
        rw [List.length_eq_zero_iff.mp (Nat.eq_zero_of_not_pos hpos)]
        rfl
      | some t =>
        obtain ⟨rfl, -⟩ := catalogSection_eq_some_iff.mp hsection
        rfl
  rw [hsections]
  exact (List.Perm.flatMap_left _ fun name _ => sortBy_perm _ _).trans
    (Keyed.perm_flatMap_filter (by decide) hnames)

/-- The same name, and the same entries. -/
def SameSection (s t : CatalogSection) : Prop := s.name = t.name ∧ s.resources.Perm t.resources

theorem forall₂_catalogSection (localeCompare : JStr → JStr → ℚ) (h : ys.Perm xs) :
    List.Forall₂ SameSection (SECTION_NAMES.filterMap (catalogSection localeCompare ys))
      (SECTION_NAMES.filterMap (catalogSection localeCompare xs)) := by
  refine List.rel_filterMap (R := Eq) (fun name name' heq => ?_) (List.forall₂_refl _)
  obtain rfl := heq
  have hlist : (sortBy (fun a b => localeCompare a.resource b.resource)
      (ys.filter fun r => sectionOf r = name)).Perm
      (sortBy (fun a b => localeCompare a.resource b.resource)
        (xs.filter fun r => sectionOf r = name)) :=
    (sortBy_perm _ _).trans ((h.filter _).trans (sortBy_perm _ _).symm)
  rw [catalogSection, catalogSection, hlist.length_eq]
  split_ifs
  · exact .some ⟨rfl, hlist⟩
  · exact .none

/-! ## The catalog -/

def VersionsOf (resources : List DiscoveryResource) (pair : JStr × JStr) : Set JStr :=
  {v | ∃ r ∈ resources, pairOf r = pair ∧ r.version = v}

theorem totalOrder_versionsOf (hlocale : Consistent Set.univ localeCompare)
    (h : Distinct localeCompare resources) (pair : JStr × JStr) :
    TotalOrder (VersionsOf resources pair) (compareKubeVersions localeCompare) := by
  refine ⟨(consistent_compareKubeVersions hlocale).mono (Set.subset_univ _), ?_⟩
  rintro _ ⟨r, hr, hpair, rfl⟩ _ ⟨s, hs, hpair', rfl⟩ hzero
  have hsame := hpair.trans hpair'.symm
  rw [TellsApart.eq h (consistent_compareResources hlocale) hr hs hsame hzero]

section
variable (hlocale : Consistent Set.univ localeCompare)
  (hgroups : ∀ r ∈ resources, slash ∉ r.group) (h : Distinct localeCompare resources)
include hlocale hgroups h

theorem isBest_iff :
    IsBest resourceKey (compareResources localeCompare) (resources.filter Listable) r ↔
      Highest localeCompare resources r := by
  have hcmp := consistent_compareResources hlocale
  have hmem (s : DiscoveryResource) :
      s ∈ resources.filter Listable ↔ s ∈ resources ∧ Listable s := by
    rw [List.mem_filter, decide_eq_true_iff]
  rw [IsBest, Highest, hmem, and_assoc]
  refine and_congr_right fun hr => and_congr_right fun hlist => forall_congr' fun s => ?_
  rw [hmem, and_imp]
  refine imp_congr_right fun hs => imp_congr_right fun hlists => ?_
  rw [resourceKey_inj (hgroups s hs) (hgroups r hr)]
  refine imp_congr_right fun hpair => ⟨fun hle => ?_, fun habove => ?_⟩
  · rcases hle.lt_or_eq with hlt | heq
    · exact .inr ((compareKubeVersions_neg_iff hlocale _ _).mp hlt)
    · exact .inl (TellsApart.eq h hcmp hs hr hpair heq)
  · rcases habove with rfl | habove
    · exact (hcmp.self trivial).le
    · exact ((compareKubeVersions_neg_iff hlocale _ _).mpr habove).le

theorem mem_byKeyOf {k : JStr} : (k, r) ∈ byKeyOf localeCompare resources ↔
    resourceKey r = k ∧ Highest localeCompare resources r := by
  have hcmp := consistent_compareResources hlocale
  rw [byKeyOf, mem_foldl_keepBest hcmp (h.tellsApart hgroups), isBest_iff hlocale hgroups h]

theorem mem_shown : r ∈ shown (byKeyOf localeCompare resources) ↔
    Highest localeCompare resources r ∧ ¬Hidden resources (pairOf r) := by
  rw [shown, List.mem_filter, List.mem_map]
  constructor
  · rintro ⟨⟨p, hp, rfl⟩, hmirror⟩
    obtain ⟨-, hhighest⟩ := (mem_byKeyOf hlocale hgroups h).mp hp
    refine ⟨hhighest, fun hhidden => ?_⟩
    rw [← isMirror_iff hlocale hgroups (hgroups p.2 hhighest.1)] at hhidden
    simp [hhidden] at hmirror
  · rintro ⟨hhighest, hhidden⟩
    refine ⟨⟨(resourceKey r, r), (mem_byKeyOf hlocale hgroups h).mpr ⟨rfl, hhighest⟩, rfl⟩, ?_⟩
    rw [← isMirror_iff hlocale hgroups (hgroups r hhighest.1)] at hhidden
    simp [hhidden]

theorem nodup_pairs_shown :
    ((shown (byKeyOf localeCompare resources)).map pairOf).Nodup := by
  have hkeys : ((byKeyOf localeCompare resources).entries.map Prod.snd).Nodup := by
    refine List.Nodup.map_on (fun p hp q hq heq => ?_)
      (List.Nodup.of_map _ (byKeyOf localeCompare resources).nodup)
    have hp' := ((mem_byKeyOf hlocale hgroups h).mp hp).1
    have hq' := ((mem_byKeyOf hlocale hgroups h).mp hq).1
    exact Prod.ext (hp'.symm.trans (heq ▸ hq')) heq
  refine List.Nodup.map_on (fun r hr s hs hpair => ?_) (hkeys.filter _)
  obtain ⟨hr, -⟩ := (mem_shown hlocale hgroups h).mp hr
  obtain ⟨hs, -⟩ := (mem_shown hlocale hgroups h).mp hs
  have hkey := (resourceKey_inj (hgroups r hr.1) (hgroups s hs.1)).mpr hpair
  exact ((isBest_iff hlocale hgroups h).mpr hr).unique (h.tellsApart hgroups)
    (consistent_compareResources hlocale) ((isBest_iff hlocale hgroups h).mpr hs) hkey

/-- Of each resource that can be listed one version is above the others. -/
theorem exists_highest (hr : r ∈ resources) (hlist : Listable r) :
    ∃ s, Highest localeCompare resources s ∧ pairOf s = pairOf r := by
  have hkey := (mem_keys_byKeyOf hlocale).mpr ⟨r, hr, hlist, rfl⟩
  obtain ⟨s, hs⟩ := OrderedMap.mem_keys.mp hkey
  obtain ⟨hkey, hhighest⟩ := (mem_byKeyOf hlocale hgroups h).mp hs
  exact ⟨s, hhighest, (resourceKey_inj (hgroups s hhighest.1) (hgroups r hr)).mp hkey⟩

theorem catalogOf_buildCatalog :
    CatalogOf localeCompare resources (buildCatalog localeCompare resources) := by
  have hperm := perm_flatMap_resources localeCompare (shown (byKeyOf localeCompare resources))
  rw [buildCatalog_eq]
  refine ⟨nodup_names _ _, ?_, fun pair => ?_, fun t ht r hr => ?_⟩
  · exact (hperm.map pairOf).nodup_iff.mpr (nodup_pairs_shown hlocale hgroups h)
  · rw [(hperm.map pairOf).mem_iff, List.mem_map]
    constructor
    · rintro ⟨r, hr, rfl⟩
      obtain ⟨hhighest, hhidden⟩ := (mem_shown hlocale hgroups h).mp hr
      exact ⟨⟨r, hhighest.1, hhighest.2.1, rfl⟩, hhidden⟩
    · rintro ⟨⟨r, hr, hlist, rfl⟩, hhidden⟩
      obtain ⟨s, hs, hpair⟩ := exists_highest hlocale hgroups h hr hlist
      exact ⟨s, (mem_shown hlocale hgroups h).mpr ⟨hs, hpair ▸ hhidden⟩, hpair⟩
  · obtain ⟨name, -, hsection⟩ := List.mem_filterMap.mp ht
    obtain ⟨hmem, hname⟩ := (mem_catalogSection hsection).mp hr
    obtain ⟨rfl, -⟩ := catalogSection_eq_some_iff.mp hsection
    exact ⟨((mem_shown hlocale hgroups h).mp hmem).1, (sectionFor_eq r).trans (congrArg _ hname)⟩

theorem perm_shown {others : List DiscoveryResource} (hperm : others.Perm resources) :
    (shown (byKeyOf localeCompare others)).Perm (shown (byKeyOf localeCompare resources)) := by
  have hentries : (byKeyOf localeCompare others).entries.Perm
      (byKeyOf localeCompare resources).entries :=
    perm_foldl_keepBest (consistent_compareResources hlocale) (h.tellsApart hgroups)
      (hperm.filter _)
  have hmirror (r : DiscoveryResource) : isMirror (byKeyOf localeCompare others) r =
      isMirror (byKeyOf localeCompare resources) r := by
    rw [isMirror_eq, isMirror_eq]
    exact decide_eq_decide.mpr (and_congr_right fun _ => (hentries.map Prod.fst).mem_iff)
  rw [shown, shown]
  simp only [hmirror]
  exact (hentries.map Prod.snd).filter _

end

def listable (group version resource : String) : DiscoveryResource :=
  { group := js group, version := js version, resource := js resource, verbs := some [js "list"] }

/-- Versions of all kinds, a mirror, and a resource that cannot be listed. -/
def discovered : List DiscoveryResource :=
  [listable "" "v1" "events", listable "events.k8s.io" "v1" "events",
    listable "autoscaling" "v2beta2" "horizontalpodautoscalers",
    listable "autoscaling" "v2" "horizontalpodautoscalers",
    listable "autoscaling" "edge" "horizontalpodautoscalers",
    { group := [], version := js "v1", resource := js "bindings", verbs := some [js "create"] }]

end KubeConsole.Web.ResourceCatalog
