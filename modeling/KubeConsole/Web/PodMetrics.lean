import KubeConsole.Theory.Comparator
import KubeConsole.Web.MetricsCache

/-!
The lines of a pod's charts (`podMetricsSeries.ts`). Usage is rational. A record of lines is a map
by label; the order in which an object lists integer keys first is not modelled.
-/
namespace KubeConsole.Web.PodMetrics
open KubeConsole.Theory

structure ContainerUsage where
  name : JStr
  cpuNanoCores : ℚ
  memoryBytes : ℚ
  deriving DecidableEq

structure MetricsItem where
  cpuNanoCores : ℚ
  memoryBytes : ℚ
  containers : Option (List ContainerUsage)

def RESERVED_LABELS : List JStr := [js "total", js "other"]

def containerLabel (name : JStr) : JStr :=
  if name ∈ RESERVED_LABELS then name ++ js " (container)" else name

abbrev Lines := OrderedMap JStr ℚ

def addContainerLines (out : Lines) (containers : List ContainerUsage) (cap : ℕ)
    (value : ContainerUsage → ℚ) : Lines :=
  let sorted := sortBy (fun a b => value b - value a) containers
  let out := (sorted.take cap).foldl (fun out c => out.set (containerLabel c.name) (value c)) out
  let rest := sorted.drop cap
  if 0 < rest.length then out.set (js "other") (rest.foldl (fun sum c => sum + value c) 0) else out

/-- A record with one line. -/
def oneLine (label : JStr) (v : ℚ) : Lines := OrderedMap.empty.set label v

structure PodMetricsSeries where
  cpu : Lines
  mem : Lines

def podMetricsSeries (item : MetricsItem) (maxContainerSeries : ℕ) : PodMetricsSeries :=
  match item.containers.getD [] with
  | [] => ⟨oneLine (js "total") item.cpuNanoCores, oneLine (js "total") item.memoryBytes⟩
  | [c] =>
    let label := containerLabel c.name
    ⟨oneLine label c.cpuNanoCores, oneLine label c.memoryBytes⟩
  | containers =>
    ⟨addContainerLines (oneLine (js "total") item.cpuNanoCores) containers maxContainerSeries
        ContainerUsage.cpuNanoCores,
      addContainerLines (oneLine (js "total") item.memoryBytes) containers maxContainerSeries
        ContainerUsage.memoryBytes⟩

/-! ## One metric -/

/-- The two charts. -/
inductive Metric where
  | cpu
  | mem

namespace Metric

def aggregate : Metric → MetricsItem → ℚ
  | cpu => MetricsItem.cpuNanoCores
  | mem => MetricsItem.memoryBytes

def value : Metric → ContainerUsage → ℚ
  | cpu => ContainerUsage.cpuNanoCores
  | mem => ContainerUsage.memoryBytes

def lines : Metric → PodMetricsSeries → Lines
  | cpu => PodMetricsSeries.cpu
  | mem => PodMetricsSeries.mem

end Metric

/-- The name is the text of a DNS-1123 label. -/
def IsDnsName (name : JStr) : Prop :=
  ∃ label : Go.Str, Exec.isDNS1123Label label = true ∧ MetricsCache.ofAscii label = name

/-- A sample of a pod: its containers have names of their own, each a DNS-1123 label. -/
structure PodSample extends MetricsItem where
  distinct : ((containers.getD []).map ContainerUsage.name).Nodup
  named : ∀ c ∈ containers.getD [], IsDnsName c.name

def PodSample.all (s : PodSample) : List ContainerUsage := s.containers.getD []

/-- The lines of a metric of a sample. -/
def PodSample.series (s : PodSample) (cap : ℕ) (m : Metric) : Lines :=
  m.lines (podMetricsSeries s.toMetricsItem cap)

/-! ## What a line means -/

inductive Meaning where
  | aggregate
  | container (name : JStr)
  | rollup
  deriving DecidableEq

/-- What a label stands for, whatever the sample. -/
def meaning (label : JStr) : Meaning :=
  if label = js "total" then .aggregate
  else if label = js "other" then .rollup
  else if label = js "total (container)" then .container (js "total")
  else if label = js "other (container)" then .container (js "other")
  else .container label

/-- The value of a meaning in a sample whose lines are `out`: the rollup is of the containers that
have no line of their own. -/
def Reads (s : PodSample) (m : Metric) (out : Lines) : Meaning → ℚ → Prop
  | .aggregate, v => v = m.aggregate s.toMetricsItem
  | .container name, v => ∃ c ∈ s.all, c.name = name ∧ v = m.value c
  | .rollup, v => v = ((s.all.filter fun c => containerLabel c.name ∉ out.keys).map m.value).sum

/-- A DNS-1123 label has no blank. -/
theorem IsDnsName.ne {name other : JStr} (h : IsDnsName name) (hother : 0x20 ∈ other) :
    name ≠ other := by
  rintro rfl
  obtain ⟨label, hlabel, rfl⟩ := h
  obtain ⟨b, hb, hspace⟩ := List.mem_map.mp hother
  have hbyte : b = 0x20 := by
    have hnat := congrArg UInt16.toNat hspace
    rw [UInt8.toNat_toUInt16] at hnat
    exact UInt8.toNat_inj.mp hnat
  rw [Exec.isDNS1123Label, Exec.dns1123, Bool.and_eq_true, Bool.and_eq_true] at hlabel
  have hall := List.all_eq_true.mp hlabel.1.2 b hb
  rw [hbyte] at hall
  revert hall
  decide +kernel

theorem meaning_containerLabel {name : JStr} (h : IsDnsName name) :
    meaning (containerLabel name) = .container name := by
  rw [containerLabel]
  split_ifs with hmem
  · rcases List.mem_pair.mp hmem with rfl | rfl <;> decide +kernel
  · have htotal : name ≠ js "total" := fun heq => hmem (by simp [RESERVED_LABELS, heq])
    have hother : name ≠ js "other" := fun heq => hmem (by simp [RESERVED_LABELS, heq])
    rw [meaning, if_neg htotal, if_neg hother, if_neg (h.ne (by decide +kernel)),
      if_neg (h.ne (by decide +kernel))]

theorem containerLabel_of_meaning {label name : JStr} (h : meaning label = .container name) :
    containerLabel name = label := by
  rw [meaning] at h
  split_ifs at h with htotal hother htotal' hother'
  · cases h
    rw [htotal']
    decide +kernel
  · cases h
    rw [hother']
    decide +kernel
  · cases h
    exact if_neg fun hmem => (List.mem_pair.mp hmem).elim htotal hother

/-- Containers share no label. -/
theorem containerLabel_inj {name other : JStr} (h : IsDnsName name) (h' : IsDnsName other)
    (heq : containerLabel name = containerLabel other) : name = other := by
  have hmeaning := meaning_containerLabel h
  rw [heq, meaning_containerLabel h'] at hmeaning
  exact (Meaning.container.inj hmeaning).symm

theorem containerLabel_ne_total {name : JStr} (h : IsDnsName name) :
    containerLabel name ≠ js "total" := by
  intro heq
  have hmeaning := meaning_containerLabel h
  rw [heq] at hmeaning
  cases hmeaning

theorem containerLabel_ne_other {name : JStr} (h : IsDnsName name) :
    containerLabel name ≠ js "other" := by
  intro heq
  have hmeaning := meaning_containerLabel h
  rw [heq, meaning, if_neg (by decide +kernel), if_pos rfl] at hmeaning
  cases hmeaning

theorem other_ne_total : js "other" ≠ js "total" := by decide +kernel

/-! ## The lines of a sample -/

/-- The lines where `own` have one of their own and `rest` have not. -/
def entriesOf (total : List (JStr × ℚ)) (own rest : List ContainerUsage)
    (value : ContainerUsage → ℚ) : List (JStr × ℚ) :=
  total ++ own.map (fun c => (containerLabel c.name, value c)) ++
    if rest = [] then [] else [(js "other", (rest.map value).sum)]

variable {cs own rest : List ContainerUsage} {value : ContainerUsage → ℚ}

theorem nodup_labels (hdistinct : (cs.map ContainerUsage.name).Nodup)
    (hnamed : ∀ c ∈ cs, IsDnsName c.name) : (cs.map fun c => containerLabel c.name).Nodup := by
  rw [List.Nodup, List.pairwise_map] at hdistinct ⊢
  refine hdistinct.imp_of_mem fun ha hb hne heq => hne ?_
  exact containerLabel_inj (hnamed _ ha) (hnamed _ hb) heq

theorem entries_addContainerLines (hdistinct : (cs.map ContainerUsage.name).Nodup)
    (hnamed : ∀ c ∈ cs, IsDnsName c.name) (aggregate : ℚ) (cap : ℕ) :
    (addContainerLines (oneLine (js "total") aggregate) cs cap value).entries =
      entriesOf [(js "total", aggregate)]
        ((sortBy (fun a b => value b - value a) cs).take cap)
        ((sortBy (fun a b => value b - value a) cs).drop cap) value := by
  rw [addContainerLines, entriesOf]
  generalize hsorted : sortBy (fun a b => value b - value a) cs = sorted
  have hperm : sorted.Perm cs := hsorted ▸ sortBy_perm _ _
  have hown : ∀ c ∈ sorted.take cap, IsDnsName c.name := fun c hc =>
    hnamed c (hperm.subset (List.take_subset cap _ hc))
  have hnodup : ((sorted.take cap).map fun c => containerLabel c.name).Nodup := by
    refine nodup_labels (.sublist ((List.take_sublist cap sorted).map _) ?_) hown
    exact (hperm.map _).nodup_iff.mpr hdistinct
  have hlines := OrderedMap.entries_foldl_set (fun c => containerLabel c.name) value
    (sorted.take cap) (oneLine (js "total") aggregate) hnodup fun c hc hkey =>
      containerLabel_ne_total (hown c hc) (List.mem_singleton.mp hkey)
  have hsum : (sorted.drop cap).foldl (fun sum c => sum + value c) 0 =
      ((sorted.drop cap).map value).sum := by
    rw [List.sum_eq_foldl, List.foldl_map]
  simp only [List.length_pos_iff, hsum]
  by_cases hrest : sorted.drop cap = []
  · rw [if_neg (not_not.mpr hrest), if_pos hrest, List.append_nil]
    exact hlines
  · rw [if_pos hrest, if_neg hrest]
    refine (if_neg fun hkey => ?_).trans (by rw [hlines]; rfl)
    rw [hlines, List.map_append, List.map_map, List.mem_append] at hkey
    rcases hkey with hkey | hkey
    · exact other_ne_total (List.mem_singleton.mp hkey)
    · obtain ⟨c, hc, hlabel⟩ := List.mem_map.mp hkey
      exact containerLabel_ne_other (hown c hc) hlabel

theorem series_eq (s : PodSample) (cap : ℕ) (m : Metric) :
    s.series cap m =
      match s.all with
      | [] => oneLine (js "total") (m.aggregate s.toMetricsItem)
      | [c] => oneLine (containerLabel c.name) (m.value c)
      | containers =>
        addContainerLines (oneLine (js "total") (m.aggregate s.toMetricsItem)) containers cap
          m.value := by
  rw [PodSample.series, podMetricsSeries, PodSample.all]
  cases m <;> rcases s.containers.getD [] with _ | ⟨c, _ | ⟨d, containers⟩⟩ <;> rfl

/-- The heaviest containers have a line of their own, the rest are in the rollup, and the aggregate
is there unless there is one container. -/
theorem entries_series (s : PodSample) (cap : ℕ) (m : Metric) :
    ∃ own rest, (own ++ rest).Perm s.all ∧ (∀ c ∈ own, ∀ d ∈ rest, m.value d ≤ m.value c) ∧
      (s.series cap m).entries =
        entriesOf (if s.all.length = 1 then [] else [(js "total", m.aggregate s.toMetricsItem)])
          own rest m.value := by
  rw [series_eq s cap m]
  have hdistinct := s.distinct
  have hnamed := s.named
  rw [← PodSample.all] at hdistinct hnamed
  generalize s.all = all at hdistinct hnamed
  rcases all with _ | ⟨c, _ | ⟨d, all⟩⟩
  · exact ⟨[], [], .nil, by simp, rfl⟩
  · exact ⟨[c], [], .refl _, by simp, rfl⟩
  · have hentries : (addContainerLines (oneLine (js "total") (m.aggregate s.toMetricsItem))
        (c :: d :: all) cap m.value).entries = _ :=
      entries_addContainerLines hdistinct hnamed _ cap
    have hperm := sortBy_perm (fun a b => m.value b - m.value a) (c :: d :: all)
    have hcmp : Consistent {a | a ∈ c :: d :: all} fun a b => m.value b - m.value a :=
      .of_key (fun a => -m.value a) fun a _ b _ => by ring
    have hsorted := hcmp.sorted
    rw [← List.take_append_drop cap (sortBy _ _), List.pairwise_append] at hsorted
    rw [← List.take_append_drop cap (sortBy _ _)] at hperm
    refine ⟨_, _, hperm, fun a ha b hb => ?_, ?_⟩
    · have hle := hsorted.2.2 a ha b hb
      linarith
    · rw [if_neg (by simp)]
      exact hentries

/-- What holds of the lines of one metric of a sample. -/
structure LinesOf (s : PodSample) (m : Metric) (out : Lines) : Prop where
  /-- Each line is what its label stands for. -/
  reads : ∀ p ∈ out, Reads s m out (meaning p.1) p.2
  /-- The line at the label of a container is its own. -/
  own : ∀ c ∈ s.all, ∀ v, (containerLabel c.name, v) ∈ out → v = m.value c
  /-- A container without a line of its own is in the rollup, and the rollup is of such. -/
  rollup : js "other" ∈ out.keys ↔ ∃ c ∈ s.all, containerLabel c.name ∉ out.keys
  sum : 2 ≤ s.all.length →
    ((out.entries.filter fun p => p.1 ≠ js "total").map Prod.snd).sum = (s.all.map m.value).sum
  total : js "total" ∈ out.keys ↔ s.all.length ≠ 1
  /-- No two containers have one label. -/
  labels : (s.all.map fun c => containerLabel c.name).Nodup

theorem mem_entriesOf {total : List (JStr × ℚ)} {p : JStr × ℚ} :
    p ∈ entriesOf total own rest value ↔ p ∈ total ∨
      (∃ c ∈ own, p = (containerLabel c.name, value c)) ∨
      rest ≠ [] ∧ p = (js "other", (rest.map value).sum) := by
  rw [entriesOf, List.mem_append, List.mem_append, List.mem_map, or_assoc]
  simp only [eq_comm (a := p)]
  split_ifs with hrest <;> simp [hrest, eq_comm]

/-- The split of the containers of a sample into those with a line of their own and the rest. -/
structure SplitOf (s : PodSample) (m : Metric) (out : Lines) (own rest : List ContainerUsage) :
    Prop where
  perm : (own ++ rest).Perm s.all
  entries : out.entries =
    entriesOf (if s.all.length = 1 then [] else [(js "total", m.aggregate s.toMetricsItem)])
      own rest m.value

namespace SplitOf
variable {s : PodSample} {m : Metric} {out : Lines} (h : SplitOf s m out own rest)
include h

theorem mem_out {p : JStr × ℚ} : p ∈ out ↔
    (s.all.length ≠ 1 ∧ p = (js "total", m.aggregate s.toMetricsItem)) ∨
      (∃ c ∈ own, p = (containerLabel c.name, m.value c)) ∨
      rest ≠ [] ∧ p = (js "other", (rest.map m.value).sum) := by
  change p ∈ out.entries ↔ _
  rw [h.entries, mem_entriesOf]
  refine or_congr_left ?_
  split_ifs with hone <;> simp [hone]

theorem named {c : ContainerUsage} (hc : c ∈ own) : IsDnsName c.name :=
  s.named c (h.perm.subset (List.mem_append_left rest hc))

theorem label_mem_keys {c : ContainerUsage} (hc : c ∈ s.all) :
    containerLabel c.name ∈ out.keys ↔ c ∈ own := by
  rw [OrderedMap.mem_keys]
  constructor
  · rintro ⟨v, hv⟩
    rcases h.mem_out.mp hv with ⟨-, heq⟩ | ⟨d, hd, heq⟩ | ⟨-, heq⟩
    · exact absurd (Prod.mk.inj heq).1 (containerLabel_ne_total (s.named c hc))
    · have hname := containerLabel_inj (s.named c hc) (h.named hd) (Prod.mk.inj heq).1
      have hall : d ∈ s.all := h.perm.subset (List.mem_append_left rest hd)
      rwa [List.inj_on_of_nodup_map s.distinct hc hall hname]
    · exact absurd (Prod.mk.inj heq).1 (containerLabel_ne_other (s.named c hc))
  · exact fun hown => ⟨m.value c, h.mem_out.mpr (.inr (.inl ⟨c, hown, rfl⟩))⟩

theorem not_mem_own {c : ContainerUsage} (hc : c ∈ rest) : c ∉ own := by
  have hnodup := h.perm.nodup_iff.mpr s.distinct.of_map
  exact fun hown => List.disjoint_of_nodup_append hnodup hown hc

/-- The containers without a line of their own are the rest. -/
theorem filter_perm : (s.all.filter fun c => containerLabel c.name ∉ out.keys).Perm rest := by
  refine (h.perm.symm.filter _).trans ?_
  rw [List.filter_append]
  have hown : own.filter (fun c => containerLabel c.name ∉ out.keys) = [] := by
    refine List.filter_eq_nil_iff.mpr fun c hc => ?_
    rw [decide_eq_true_iff, not_not]
    exact (h.label_mem_keys (h.perm.subset (List.mem_append_left rest hc))).mpr hc
  have hrest : rest.filter (fun c => containerLabel c.name ∉ out.keys) = rest := by
    refine List.filter_eq_self.mpr fun c hc => ?_
    rw [decide_eq_true_iff, h.label_mem_keys (h.perm.subset (List.mem_append_right own hc))]
    exact h.not_mem_own hc
  rw [hown, hrest, List.nil_append]

theorem reads {p : JStr × ℚ} (hp : p ∈ out) : Reads s m out (meaning p.1) p.2 := by
  rcases h.mem_out.mp hp with ⟨-, rfl⟩ | ⟨c, hc, rfl⟩ | ⟨-, rfl⟩
  · exact rfl
  · rw [meaning_containerLabel (h.named hc)]
    exact ⟨c, h.perm.subset (List.mem_append_left rest hc), rfl, rfl⟩
  · exact (h.filter_perm.map m.value).sum_eq.symm

theorem other_mem_keys : js "other" ∈ out.keys ↔ rest ≠ [] := by
  rw [OrderedMap.mem_keys]
  constructor
  · rintro ⟨v, hv⟩
    rcases h.mem_out.mp hv with ⟨-, heq⟩ | ⟨c, hc, heq⟩ | ⟨hrest, -⟩
    · exact absurd (Prod.mk.inj heq).1 other_ne_total
    · exact absurd (Prod.mk.inj heq).1.symm (containerLabel_ne_other (h.named hc))
    · exact hrest
  · exact fun hrest => ⟨_, h.mem_out.mpr (.inr (.inr ⟨hrest, rfl⟩))⟩

theorem total_mem_keys : js "total" ∈ out.keys ↔ s.all.length ≠ 1 := by
  rw [OrderedMap.mem_keys]
  constructor
  · rintro ⟨v, hv⟩
    rcases h.mem_out.mp hv with ⟨hlen, -⟩ | ⟨c, hc, heq⟩ | ⟨-, heq⟩
    · exact hlen
    · exact absurd (Prod.mk.inj heq).1.symm (containerLabel_ne_total (h.named hc))
    · exact absurd (Prod.mk.inj heq).1 other_ne_total.symm
  · exact fun hlen => ⟨_, h.mem_out.mpr (.inl ⟨hlen, rfl⟩)⟩

/-- Without the aggregate the lines sum up to the containers. -/
theorem sum_eq (hlen : 2 ≤ s.all.length) :
    ((out.entries.filter fun p => p.1 ≠ js "total").map Prod.snd).sum =
      (s.all.map m.value).sum := by
  have hown : (own.map fun c => (containerLabel c.name, m.value c)).filter
      (fun p => p.1 ≠ js "total") = own.map fun c => (containerLabel c.name, m.value c) := by
    refine List.filter_eq_self.mpr fun p hp => ?_
    obtain ⟨c, hc, rfl⟩ := List.mem_map.mp hp
    exact decide_eq_true (containerLabel_ne_total (h.named hc))
  have hrest : ((if rest = [] then [] else [(js "other", (rest.map m.value).sum)]).filter
      (fun p => p.1 ≠ js "total")).map Prod.snd =
      if rest = [] then [] else [(rest.map m.value).sum] := by
    split_ifs with hnil
    · rfl
    · exact congrArg (List.map Prod.snd) (List.filter_cons_of_pos
        (p := fun p : JStr × ℚ => decide (p.1 ≠ js "total")) (decide_eq_true other_ne_total))
  have htotal : [(js "total", m.aggregate s.toMetricsItem)].filter (fun p => p.1 ≠ js "total") =
      [] := List.filter_cons_of_neg (by simp)
  have hsum : (if rest = [] then [] else [(rest.map m.value).sum]).sum =
      (rest.map m.value).sum := by
    split_ifs with hnil
    · rw [hnil]
      rfl
    · exact List.sum_singleton
  rw [h.entries, if_neg (by omega), entriesOf, List.filter_append, List.filter_append, htotal,
    hown, List.nil_append, List.map_append, hrest, List.sum_append, hsum, List.map_map,
    ← (h.perm.map m.value).sum_eq, List.map_append, List.sum_append]
  rfl

theorem linesOf : LinesOf s m out where
  reads p hp := h.reads hp
  own c hc v hv := by
    have hreads := h.reads hv
    rw [meaning_containerLabel (s.named c hc)] at hreads
    obtain ⟨d, hd, hname, rfl⟩ := hreads
    rw [List.inj_on_of_nodup_map s.distinct hd hc hname]
  rollup := by
    rw [h.other_mem_keys]
    constructor
    · intro hrest
      obtain ⟨c, hc⟩ := List.exists_mem_of_ne_nil rest hrest
      have hall := h.perm.subset (List.mem_append_right own hc)
      exact ⟨c, hall, fun hkey => h.not_mem_own hc ((h.label_mem_keys hall).mp hkey)⟩
    · rintro ⟨c, hc, hkey⟩ rfl
      have hmem := h.perm.symm.subset hc
      rw [List.append_nil] at hmem
      exact hkey ((h.label_mem_keys hc).mpr hmem)
  sum := h.sum_eq
  total := h.total_mem_keys
  labels := nodup_labels s.distinct s.named

end SplitOf

theorem linesOf_series (s : PodSample) (cap : ℕ) (m : Metric) :
    LinesOf s m (s.series cap m) := by
  obtain ⟨own, rest, hperm, -, hentries⟩ := entries_series s cap m
  exact SplitOf.linesOf ⟨hperm, hentries⟩

/-! ## Samples over time -/

/-- What the buffer of a chart has recorded of some samples, each with its time. -/
def recorded (cap : ℕ) (m : Metric) (samples : List (ℚ × PodSample)) : MultiSeriesRingBuffer ℚ :=
  (MultiSeriesRingBuffer.run (samples.map fun x => ⟨x.1, (x.2.series cap m).entries⟩)).1

/-- Every value recorded under a label is what the label stands for in one of the samples. -/
theorem recorded_reads (cap : ℕ) (m : Metric) (samples : List (ℚ × PodSample))
    (p : JStr × List (Point ℚ)) (hp : p ∈ (recorded cap m samples).series) (v : ℚ)
    (hv : .value v ∈ p.2) :
    ∃ x ∈ samples, Reads x.2 m (x.2.series cap m) (meaning p.1) v := by
  obtain ⟨s, hs, hlookup⟩ := MultiSeriesRingBuffer.exists_of_value_mem_run hp hv
  obtain ⟨x, hx, rfl⟩ := List.mem_map.mp hs
  exact ⟨x, hx, (linesOf_series x.2 cap m).reads (p.1, v) (DataTree.mem_of_lookup hlookup)⟩

theorem podMetricsSeries_spec (cap : ℕ) (m : Metric) (samples : List (ℚ × PodSample)) :
    (∀ x ∈ samples, LinesOf x.2 m (x.2.series cap m)) ∧
    (∀ x ∈ samples, ∀ p ∈ x.2.series cap m, ∀ name, meaning p.1 = .container name →
      p.1 = containerLabel name) ∧
    ∀ p ∈ (recorded cap m samples).series, ∀ v, .value v ∈ p.2 →
      ∃ x ∈ samples, Reads x.2 m (x.2.series cap m) (meaning p.1) v :=
  ⟨fun x _ => linesOf_series x.2 cap m,
    fun _ _ _ _ _ hmeaning => (containerLabel_of_meaning hmeaning).symm,
    recorded_reads cap m samples⟩

end KubeConsole.Web.PodMetrics
