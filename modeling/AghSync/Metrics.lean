import AghSync.Stats
import AghSync.Model

/-!
# Exported metrics

The gauges of the metrics package and `metrics.UpdateInstances`, which sets them from what was
scraped. A gauge has one number for each value of its labels, the host for all gauges, and a
domain, a client or a record type besides for four of them. Setting one number leaves the
others. So what a host exports is the last number of every key it ever reported
(`keys_updateInstances`), which is what it reports now if it still reports all of them.
-/

namespace AghSync

open Model

namespace Model

/-- `DnsAnswer`. -/
structure DnsAnswer where
  type : Option String := none

/-- `QueryLogItem`. -/
structure QueryLogItem where
  answer : Option (List DnsAnswer) := none

/-- `QueryLog`. -/
structure QueryLog where
  data : Option (List QueryLogItem) := none

/-- The answers of a query log, in order. -/
def QueryLog.answers (ql : QueryLog) : List DnsAnswer :=
  (ql.data.getD []).flatMap fun ld => ld.answer.getD []

/-- Every answer has a type. -/
def QueryLog.Typed (ql : QueryLog) : Prop :=
  ∀ a ∈ ql.answers, a.type.isSome

end Model

namespace Metrics

/-! ## Gauges -/

/-- The gauges of a host. -/
inductive HostGauge
  | avgProcessingTime
  | dnsQueries
  | blockedFiltering
  | parentalFiltering
  | safeBrowsingFiltering
  | safeSearchFiltering
  | running
  | protectionEnabled
  deriving DecidableEq

/-- The gauges of the keys of a host. -/
inductive KeyGauge
  | topQueries
  | topBlocked
  | topClients
  | queryTypes
  deriving DecidableEq

/-- The `float64` of a number. -/
inductive Number
  | int (n : GoInt)
  | float32 (x : GoFloat32)
  deriving DecidableEq

/-- The variables of the metrics package. -/
structure Registry where
  hosts : HostGauge → KeyedMap String Number
  keys : KeyGauge → KeyedMap (String × String) Number
  stats : KeyedMap String Stats

/-- Nothing has been set. -/
def Registry.empty : Registry where
  hosts _ := ∅
  keys _ := ∅
  stats := ∅

/-- Set a gauge of a host. -/
def Registry.setHost (r : Registry) (g : HostGauge) (host : String) (v : Number) : Registry :=
  { r with hosts := Function.update r.hosts g ((r.hosts g).insert host v) }

/-- Set a gauge of a key of a host. -/
def Registry.setKey (r : Registry) (g : KeyGauge) (host key : String) (v : Number) : Registry :=
  { r with keys := Function.update r.keys g ((r.keys g).insert (host, key) v) }

/-! ## Updates -/

/-- `InstanceMetrics`. -/
structure InstanceMetrics where
  hostName : String := ""
  status : Option ServerStatus := none
  stats : Option Stats := none
  queryLog : Option QueryLog := none

/-- The orders in which the maps of an instance are iterated. -/
abbrev Orders := KeyGauge → ℕ → MapOrder String

/-- `safeMetric`. -/
def safeMetric {α : Type} (number : α → Number) (v : Option α) : Number :=
  match v with
  | some v => number v
  | none => .int 0

/-- Set a gauge for each entry of a map. -/
def setKeys {α : Type} (g : KeyGauge) (host : String) (number : α → Number)
    (es : List (String × α)) (r : Registry) : Registry :=
  es.foldl (fun r e => r.setKey g host e.1 (number e.2)) r

/-- A loop of `updateMetrics` over top entries. -/
def setTop (g : KeyGauge) (host : String) (entries : Option (List TopArrayEntry))
    (orders : ℕ → MapOrder String) (r : Registry) : Registry :=
  match entries with
  | some entries => entries.zipIdx.foldl
      (fun r e => setKeys g host .float32 (e.1.additionalProperties.range (orders e.2)) r) r
  | none => r

/-- `m[dnsType]++`, or a nil pointer. -/
def countType (m : KeyedMap String GoInt) (dnsa : DnsAnswer) : Option (KeyedMap String GoInt) := do
  let dnsType ← dnsa.type
  some (m.insert dnsType ((m.lookup dnsType).getD 0 + 1))

/-- The counts of the types in `updateMetrics`, or a nil pointer. -/
def countTypes (queryLog : Option QueryLog) : Option (KeyedMap String GoInt) :=
  match queryLog.bind QueryLog.data with
  | some logdata => logdata.foldlM (fun m ld =>
      match ld.answer with
      | some dnsanswer => dnsanswer.foldlM countType m
      | none => some m) ∅
  | none => some ∅

/-- `updateMetrics`, or a panic. -/
def updateMetrics (im : InstanceMetrics) (orders : Orders) (r : Registry) : Option Registry := do
  let status ← im.status
  let r := r.setHost .running im.hostName (.int (if status.running then 1 else 0))
  let r := r.setHost .protectionEnabled im.hostName
    (.int (if status.protectionEnabled then 1 else 0))
  let stats ← im.stats
  let r := r.setHost .avgProcessingTime im.hostName
    (safeMetric .float32 stats.avgProcessingTime)
  let r := r.setHost .dnsQueries im.hostName (safeMetric .int stats.numDnsQueries)
  let r := r.setHost .blockedFiltering im.hostName (safeMetric .int stats.numBlockedFiltering)
  let r := r.setHost .parentalFiltering im.hostName (safeMetric .int stats.numReplacedParental)
  let r := r.setHost .safeBrowsingFiltering im.hostName
    (safeMetric .int stats.numReplacedSafebrowsing)
  let r := r.setHost .safeSearchFiltering im.hostName
    (safeMetric .int stats.numReplacedSafesearch)
  let r := setTop .topQueries im.hostName stats.topQueriedDomains (orders .topQueries) r
  let r := setTop .topBlocked im.hostName stats.topBlockedDomains (orders .topBlocked) r
  let r := setTop .topClients im.hostName stats.topClients (orders .topClients) r
  let m ← countTypes im.queryLog
  some (setKeys .queryTypes im.hostName .int (m.range (orders .queryTypes 0)) r)

/-- One turn of `UpdateInstances`. -/
def updateInstance (r : Registry) (im : InstanceMetrics × Orders) : Option Registry := do
  let r ← updateMetrics im.1 im.2 r
  let stats ← im.1.stats
  some { r with stats := r.stats.insert im.1.hostName stats }

/-- `UpdateInstances`, or a panic. -/
def updateInstances (iml : List (InstanceMetrics × Orders)) (r : Registry) : Option Registry :=
  iml.foldlM updateInstance r

/-! ## Setting gauges -/

section Set

variable {r : Registry} {g g' : HostGauge} {k k' : KeyGauge} {host host' key key' : String}
  {v : Number} {o : MapOrder String} {α : Type} {number : α → Number}

@[simp] theorem keys_setHost : (r.setHost g host v).keys = r.keys :=
  rfl

@[simp] theorem stats_setHost : (r.setHost g host v).stats = r.stats :=
  rfl

theorem lookup_setHost : ((r.setHost g host v).hosts g').lookup host' =
    if g' = g ∧ host' = host then some v else (r.hosts g').lookup host' := by
  by_cases hg : g' = g
  · subst hg
    by_cases hh : host' = host
    · subst hh
      simp [Registry.setHost]
    · simp [Registry.setHost, hh, AList.lookup_insert_ne hh]
  · simp [Registry.setHost, hg]

theorem lookup_setKey : ((r.setKey k host key v).keys k').lookup (host', key') =
    if k' = k ∧ host' = host ∧ key' = key then some v else (r.keys k').lookup (host', key') := by
  by_cases hk : k' = k
  · subst hk
    by_cases hkey : host' = host ∧ key' = key
    · obtain ⟨rfl, rfl⟩ := hkey
      simp [Registry.setKey]
    · have hne : (host', key') ≠ (host, key) := by simpa using hkey
      simp [Registry.setKey, hkey, AList.lookup_insert_ne hne]
  · simp [Registry.setKey, hk]

@[simp] theorem hosts_setKeys {es : List (String × α)} :
    (setKeys k host number es r).hosts = r.hosts := by
  induction es generalizing r with
  | nil => rfl
  | cons e es ih => exact ih

@[simp] theorem stats_setKeys {es : List (String × α)} :
    (setKeys k host number es r).stats = r.stats := by
  induction es generalizing r with
  | nil => rfl
  | cons e es ih => exact ih

/-- A loop over a map sets what the map has. -/
theorem lookup_setKeys {m : KeyedMap String α} :
    ((setKeys k host number (m.range o) r).keys k').lookup (host', key) =
      if k' = k ∧ host' = host then
        ((m.lookup key).map number).or ((r.keys k').lookup (host', key))
      else (r.keys k').lookup (host', key) := by
  have hwrite := Folds.lastWrite_foldl (f := fun r e => r.setKey k host e.1 (number e.2))
    (fun r => (r.keys k').lookup (host', key))
    (fun e => if k' = k ∧ host' = host ∧ key = e.1 then some (number e.2) else none)
    (fun r e => by rw [lookup_setKey]; split_ifs <;> rfl) (m.range o) r
  rw [setKeys, hwrite]
  split_ifs with h
  · simp only [h, true_and]
    rw [KeyedMap.filterMap_range]
    cases m.lookup key <;> rfl
  · have hnone : ∀ e : String × α, ¬(k' = k ∧ host' = host ∧ key = e.1) := fun e he =>
      h ⟨he.1, he.2.1⟩
    simp [hnone]

/-- What top entries have for a key : the last entry that has the key counts. -/
def topValue (entries : Option (List TopArrayEntry)) (key : String) : Option Number :=
  ((entries.getD []).filterMap fun e => e.additionalProperties.lookup key).getLast?.map .float32

section SetTop

variable {entries : Option (List TopArrayEntry)} {orders : ℕ → MapOrder String}

/-- What no turn of the loop changes. -/
theorem setTop_eq {β : Type} {get : Registry → β}
    (h : ∀ (es : List (String × GoFloat32)) r, get (setKeys k host .float32 es r) = get r) :
    get (setTop k host entries orders r) = get r := by
  cases entries with
  | none => rfl
  | some entries =>
    rw [setTop]
    generalize entries.zipIdx = es
    induction es generalizing r with
    | nil => rfl
    | cons e es ih => exact ih.trans (h _ _)

@[simp] theorem hosts_setTop : (setTop k host entries orders r).hosts = r.hosts :=
  setTop_eq fun _ _ => hosts_setKeys

@[simp] theorem stats_setTop : (setTop k host entries orders r).stats = r.stats :=
  setTop_eq fun _ _ => stats_setKeys

theorem lookup_setTop : ((setTop k host entries orders r).keys k').lookup (host', key) =
    if k' = k ∧ host' = host then
      (topValue entries key).or ((r.keys k').lookup (host', key))
    else (r.keys k').lookup (host', key) := by
  cases entries with
  | none => simp [setTop, topValue]
  | some entries =>
    have hwrite := Folds.lastWrite_foldl
      (f := fun r e => setKeys k host .float32 (e.1.additionalProperties.range (orders e.2)) r)
      (fun r => (r.keys k').lookup (host', key))
      (fun e => if k' = k ∧ host' = host then
        (e.1.additionalProperties.lookup key).map .float32 else none)
      (fun r e => by rw [lookup_setKeys]; split_ifs <;> rfl) entries.zipIdx r
    rw [setTop, hwrite]
    split_ifs with h
    · have hindex : entries.zipIdx.filterMap (fun e =>
          (e.1.additionalProperties.lookup key).map Number.float32) =
          entries.filterMap fun e => (e.additionalProperties.lookup key).map Number.float32 := by
        conv_rhs => rw [← List.zipIdx_map_fst 0 entries, List.filterMap_map]
        rfl
      rw [hindex, ← List.map_filterMap, List.getLast?_map]
      rfl
    · simp

end SetTop

end Set

/-! ## Counting types -/

/-- The answers of a query log that may be nil. -/
def logAnswers (queryLog : Option QueryLog) : List DnsAnswer :=
  (queryLog.map QueryLog.answers).getD []

/-- How often a type occurs in a query log, if it does. -/
def typeValue (queryLog : Option QueryLog) (key : String) : Option GoInt :=
  let n := (logAnswers queryLog).countP fun a => a.type = some key
  if n = 0 then none else some (BitVec.ofNat 64 n)

section Types

variable {queryLog : Option QueryLog} {m m' : KeyedMap String GoInt} {key : String}

/-- The two loops are one over all answers. -/
theorem countTypes_eq : countTypes queryLog = (logAnswers queryLog).foldlM countType ∅ := by
  rcases queryLog with _ | ⟨_ | logdata⟩
  · rfl
  · rfl
  · change logdata.foldlM _ ∅ = (logdata.flatMap fun ld => ld.answer.getD []).foldlM countType ∅
    generalize (∅ : KeyedMap String GoInt) = m
    induction logdata generalizing m with
    | nil => rfl
    | cons ld logdata ih =>
      rw [List.flatMap_cons, List.foldlM_append, List.foldlM_cons]
      rcases ld with ⟨_ | dnsanswer⟩
      · exact ih m
      · exact congrArg _ (funext ih)

theorem isSome_countTypes : (countTypes queryLog).isSome ↔
    ∀ a ∈ logAnswers queryLog, a.type.isSome := by
  rw [countTypes_eq]
  refine Folds.isSome_iff (I := fun _ => True) (fun _ _ _ _ _ => trivial) (fun m a _ => ?_) trivial
  cases h : a.type <;> simp [countType, h]

theorem lookup_foldlM_countType : ∀ {as : List DnsAnswer} {m : KeyedMap String GoInt},
    as.foldlM countType m = some m' → m'.lookup key =
      let n := as.countP fun a => a.type = some key
      if n = 0 then m.lookup key else some ((m.lookup key).getD 0 + BitVec.ofNat 64 n)
  | [], m, h => by
    obtain rfl := Option.some.inj h
    simp
  | a :: as, m, h => by
    obtain ⟨m₁, hm₁, h⟩ := Folds.cons_eq_some.mp h
    rw [lookup_foldlM_countType h]
    cases ha : a.type with
    | none => simp [countType, ha] at hm₁
    | some t =>
      have hm₁ : m.insert t ((m.lookup t).getD 0 + 1) = m₁ := by simpa [countType, ha] using hm₁
      subst hm₁
      by_cases hk : key = t
      · subst hk
        rw [AList.lookup_insert, List.countP_cons_of_pos (by simpa using ha)]
        simp only [BitVec.ofNat_add, Nat.succ_ne_zero, if_false]
        split_ifs with hn
        · simp [hn]
        · rw [Option.getD_some, add_assoc, add_comm (1 : GoInt)]
          rfl
      · have hne : ¬a.type = some key := by simpa [ha] using Ne.symm hk
        rw [AList.lookup_insert_ne hk, List.countP_cons_of_neg (by simpa using hne)]

theorem lookup_countTypes (h : countTypes queryLog = some m) :
    m.lookup key = typeValue queryLog key := by
  rw [countTypes_eq] at h
  rw [lookup_foldlM_countType h, typeValue]
  simp

end Types

/-! ## One update -/

namespace InstanceMetrics

/-- What a gauge of the host is set to. -/
def value (im : InstanceMetrics) : HostGauge → Option Number
  | .avgProcessingTime => im.stats.map fun s => safeMetric .float32 s.avgProcessingTime
  | .dnsQueries => im.stats.map fun s => safeMetric .int s.numDnsQueries
  | .blockedFiltering => im.stats.map fun s => safeMetric .int s.numBlockedFiltering
  | .parentalFiltering => im.stats.map fun s => safeMetric .int s.numReplacedParental
  | .safeBrowsingFiltering => im.stats.map fun s => safeMetric .int s.numReplacedSafebrowsing
  | .safeSearchFiltering => im.stats.map fun s => safeMetric .int s.numReplacedSafesearch
  | .running => im.status.map fun s => .int (if s.running then 1 else 0)
  | .protectionEnabled => im.status.map fun s => .int (if s.protectionEnabled then 1 else 0)

/-- What a gauge of a key of the host is set to, if the key is reported. -/
def reported (im : InstanceMetrics) : KeyGauge → String → Option Number
  | .topQueries, key => topValue (im.stats.bind Stats.topQueriedDomains) key
  | .topBlocked, key => topValue (im.stats.bind Stats.topBlockedDomains) key
  | .topClients, key => topValue (im.stats.bind Stats.topClients) key
  | .queryTypes, key => (typeValue im.queryLog key).map .int

/-- What is dereferenced is there. -/
structure Complete (im : InstanceMetrics) : Prop where
  status : im.status.isSome
  stats : im.stats.isSome
  typed : ∀ a ∈ logAnswers im.queryLog, a.type.isSome

end InstanceMetrics

section Update

variable {im : InstanceMetrics} {orders : Orders} {r r' : Registry}

theorem isSome_updateMetrics : (updateMetrics im orders r).isSome ↔ im.Complete := by
  have hcomplete : im.Complete ↔ im.status.isSome ∧ im.stats.isSome ∧
      (countTypes im.queryLog).isSome := by
    rw [isSome_countTypes]
    exact ⟨fun h => ⟨h.status, h.stats, h.typed⟩, fun h => ⟨h.1, h.2.1, h.2.2⟩⟩
  rw [hcomplete]
  cases hstatus : im.status with
  | none => simp [updateMetrics, hstatus]
  | some status =>
    cases hstats : im.stats with
    | none => simp [updateMetrics, hstatus, hstats]
    | some stats =>
      cases hm : countTypes im.queryLog with
      | none => simp [updateMetrics, hstatus, hstats, hm]
      | some m => simp [updateMetrics, hstatus, hstats, hm]

/-- An update sets all gauges of the host, and those of the keys that it reports. -/
theorem updateMetrics_eq_some (h : updateMetrics im orders r = some r') :
    (∀ g host, (r'.hosts g).lookup host =
      (if host = im.hostName then im.value g else none).or ((r.hosts g).lookup host)) ∧
    (∀ g host key, (r'.keys g).lookup (host, key) =
      (if host = im.hostName then im.reported g key else none).or
        ((r.keys g).lookup (host, key))) ∧
    r'.stats = r.stats := by
  simp only [updateMetrics, Option.bind_eq_bind, Option.bind_eq_some_iff, Option.some.injEq] at h
  obtain ⟨status, hstatus, stats, hstats, m, hm, rfl⟩ := h
  refine ⟨fun g host => ?_, fun g host key => ?_, by simp⟩
  · simp only [hosts_setKeys, hosts_setTop, lookup_setHost]
    cases g <;> by_cases hh : host = im.hostName <;>
      simp [hh, InstanceMetrics.value, hstatus, hstats]
  · simp only [lookup_setKeys, lookup_setTop, keys_setHost, lookup_countTypes hm]
    cases g <;> by_cases hh : host = im.hostName <;>
      simp [hh, InstanceMetrics.reported, hstats]

/-- One turn of the loop. -/
theorem updateInstance_eq_some {x : InstanceMetrics × Orders} (h : updateInstance r x = some r') :
    (∀ g host, (r'.hosts g).lookup host =
      (if x.1.hostName = host then x.1.value g else none).or ((r.hosts g).lookup host)) ∧
    (∀ g host key, (r'.keys g).lookup (host, key) =
      (if x.1.hostName = host then x.1.reported g key else none).or
        ((r.keys g).lookup (host, key))) ∧
    ∀ host, r'.stats.lookup host =
      (if x.1.hostName = host then x.1.stats else none).or (r.stats.lookup host) := by
  simp only [updateInstance, Option.bind_eq_bind, Option.bind_eq_some_iff, Option.some.injEq] at h
  obtain ⟨r₁, h₁, stats, hstats, rfl⟩ := h
  obtain ⟨hhosts, hkeys, hr⟩ := updateMetrics_eq_some h₁
  simp only [eq_comm (a := x.1.hostName)]
  refine ⟨hhosts, hkeys, fun host => ?_⟩
  rw [hr]
  by_cases hh : host = x.1.hostName
  · subst hh
    simp [hstats]
  · simp [hh, AList.lookup_insert_ne hh]

theorem isSome_updateInstance {x : InstanceMetrics × Orders} :
    (updateInstance r x).isSome ↔ x.1.Complete := by
  have hupdate : (updateMetrics x.1 x.2 r).isSome ↔ x.1.Complete := isSome_updateMetrics
  rw [← hupdate]
  cases h : updateMetrics x.1 x.2 r with
  | none => simp [updateInstance, h]
  | some r₁ =>
    obtain ⟨stats, hstats⟩ := Option.isSome_iff_exists.mp (hupdate.mp (by rw [h]; rfl)).stats
    simp [updateInstance, h, hstats]

end Update

/-! ## Many updates -/

/-- The metrics of a host among those in the list, in order. -/
def ofHost (ims : List InstanceMetrics) (host : String) : List InstanceMetrics :=
  ims.filter fun im => im.hostName = host

/-- The latest metrics of a host. -/
def latest (ims : List InstanceMetrics) (host : String) : Option InstanceMetrics :=
  (ofHost ims host).getLast?

section Updates

variable {iml : List (InstanceMetrics × Orders)} {r r' : Registry} {host key : String}

theorem isSome_updateInstances :
    (updateInstances iml r).isSome ↔ ∀ im ∈ iml.map Prod.fst, im.Complete := by
  rw [List.forall_mem_map]
  exact Folds.isSome_iff (f := updateInstance) (I := fun _ => True) (fun _ _ _ _ _ => trivial)
    (fun _ _ _ => isSome_updateInstance) trivial

theorem filterMap_ofHost {γ : Type} (w : InstanceMetrics → Option γ) :
    (iml.filterMap fun x => if x.1.hostName = host then w x.1 else none) =
      (ofHost (iml.map Prod.fst) host).filterMap w := by
  rw [ofHost, List.filterMap_filter, List.filterMap_map]
  refine List.filterMap_congr fun x _ => ?_
  simp

/-- The keys that a host exports are the last numbers that it reported. -/
theorem keys_updateInstances (h : updateInstances iml r = some r') (g : KeyGauge) :
    (r'.keys g).lookup (host, key) =
      ((ofHost (iml.map Prod.fst) host).filterMap fun im => im.reported g key).getLast?.or
        ((r.keys g).lookup (host, key)) := by
  rw [← filterMap_ofHost]
  exact Folds.lastWrite (fun r => (r.keys g).lookup (host, key)) _
    (fun _ _ _ hstep => (updateInstance_eq_some hstep).2.1 g host key) h

theorem hosts_updateInstances (h : updateInstances iml r = some r') (g : HostGauge) :
    (r'.hosts g).lookup host =
      ((ofHost (iml.map Prod.fst) host).filterMap fun im => im.value g).getLast?.or
        ((r.hosts g).lookup host) := by
  rw [← filterMap_ofHost]
  exact Folds.lastWrite (fun r => (r.hosts g).lookup host) _
    (fun _ _ _ hstep => (updateInstance_eq_some hstep).1 g host) h

theorem stats_updateInstances (h : updateInstances iml r = some r') :
    r'.stats.lookup host =
      ((ofHost (iml.map Prod.fst) host).filterMap InstanceMetrics.stats).getLast?.or
        (r.stats.lookup host) := by
  rw [← filterMap_ofHost]
  exact Folds.lastWrite (fun r => r.stats.lookup host) _
    (fun _ _ _ hstep => (updateInstance_eq_some hstep).2.2 host) h

end Updates

/-- The statistics and the gauges of the host are those of `im`. -/
structure Registry.Shows (r : Registry) (im : InstanceMetrics) : Prop where
  stats : r.stats.lookup im.hostName = im.stats
  value : ∀ g, (r.hosts g).lookup im.hostName = im.value g
  reported : ∀ g key v, im.reported g key = some v →
    (r.keys g).lookup (im.hostName, key) = some v

theorem InstanceMetrics.Complete.exists_value {im : InstanceMetrics} (h : im.Complete)
    (g : HostGauge) : ∃ v, im.value g = some v := by
  obtain ⟨status, hstatus⟩ := Option.isSome_iff_exists.mp h.status
  obtain ⟨stats, hstats⟩ := Option.isSome_iff_exists.mp h.stats
  cases g <;> simp [value, hstatus, hstats]

/-- After the updates every host shows its latest metrics. -/
theorem shows_latest {iml : List (InstanceMetrics × Orders)} {r r' : Registry} {host : String}
    {im : InstanceMetrics} (h : updateInstances iml r = some r')
    (hlatest : latest (iml.map Prod.fst) host = some im) : r'.Shows im := by
  obtain ⟨hmem, hhost⟩ := List.mem_filter.mp (List.mem_of_getLast? hlatest)
  obtain rfl : im.hostName = host := by simpa using hhost
  have hcomplete : im.Complete := isSome_updateInstances.mp (by rw [h]; rfl) im hmem
  constructor
  · obtain ⟨stats, hstats⟩ := Option.isSome_iff_exists.mp hcomplete.stats
    rw [stats_updateInstances h, Folds.getLast?_filterMap_of_some hlatest hstats, hstats,
      Option.some_or]
  · intro g
    obtain ⟨v, hv⟩ := hcomplete.exists_value g
    have hwrite : (fun im : InstanceMetrics => im.value g) im = some v := hv
    rw [hosts_updateInstances h, Folds.getLast?_filterMap_of_some hlatest hwrite, hv,
      Option.some_or]
  · intro g key v hv
    have hwrite : (fun im : InstanceMetrics => im.reported g key) im = some v := hv
    rw [keys_updateInstances h, Folds.getLast?_filterMap_of_some hlatest hwrite, Option.some_or]

/-! ## The latest scrape -/

/-- What a host exports for its keys is what its latest metrics report. -/
def ExportsLatest (ims : List InstanceMetrics) (r : Registry) : Prop :=
  ∀ g host key, (r.keys g).lookup (host, key) =
    (latest ims host).bind fun im => im.reported g key

/-- The sequence of calls of `UpdateInstances`, from the start of the process. -/
def updates (calls : List (List (InstanceMetrics × Orders))) : Option Registry :=
  calls.foldlM (fun r iml => updateInstances iml r) Registry.empty

/-- The calls are one call with all metrics. -/
theorem updates_eq (calls : List (List (InstanceMetrics × Orders))) :
    updates calls = updateInstances calls.flatten Registry.empty := by
  unfold updates
  generalize Registry.empty = r
  induction calls generalizing r with
  | nil => rfl
  | cons iml calls ih =>
    rw [List.foldlM_cons, List.flatten_cons]
    exact (congrArg _ (funext ih)).trans List.foldlM_append.symm

/-- After any sequence of calls, the exported keys are those of the latest metrics exactly if
no host has ever reported a key that its latest metrics do not report. -/
theorem exportsLatest_iff (calls : List (List (InstanceMetrics × Orders))) (r : Registry)
    (h : updates calls = some r) : ExportsLatest (calls.flatten.map Prod.fst) r ↔
      ∀ im ∈ calls.flatten.map Prod.fst, ∀ g key, (im.reported g key).isSome →
        ∃ last, latest (calls.flatten.map Prod.fst) im.hostName = some last ∧
          (last.reported g key).isSome := by
  rw [updates_eq] at h
  have hkey : ∀ g host key, (r.keys g).lookup (host, key) =
      (latest (calls.flatten.map Prod.fst) host).bind (fun im => im.reported g key) ↔
        ∀ im ∈ ofHost (calls.flatten.map Prod.fst) host, (im.reported g key).isSome →
          ∃ last, latest (calls.flatten.map Prod.fst) host = some last ∧
            (last.reported g key).isSome := by
    intro g host key
    have hempty : (Registry.empty.keys g).lookup (host, key) = none := rfl
    rw [keys_updateInstances h, hempty, Option.or_none]
    exact Folds.getLast?_filterMap_iff
  simp only [ExportsLatest, hkey]
  constructor
  · intro hall im him g key
    exact hall g im.hostName key im (List.mem_filter.mpr ⟨him, by simp⟩)
  · intro hall g host key im him
    obtain ⟨hmem, hhost⟩ := List.mem_filter.mp him
    obtain rfl : im.hostName = host := by simpa using hhost
    exact hall im hmem g key

/-- The metrics of an instance with one query for a domain. -/
def sampleMetrics (domain : String) : InstanceMetrics where
  hostName := "a"
  status := some {}
  stats := some { topQueriedDomains := some [⟨AList.singleton domain 1⟩] }

/-- The same domain twice. -/
theorem exportsLatest_iff_sample : ∃ r,
    let calls := List.replicate 2 [(sampleMetrics "x", fun _ _ => MapOrder.stored)]
    updates calls = some r ∧ (ExportsLatest (calls.flatten.map Prod.fst) r ↔
      ∀ im ∈ calls.flatten.map Prod.fst, ∀ g key, (im.reported g key).isSome →
        ∃ last, latest (calls.flatten.map Prod.fst) im.hostName = some last ∧
          (last.reported g key).isSome) :=
  ⟨_, rfl, exportsLatest_iff _ _ rfl⟩

/-- Another domain in the second scrape. The first is still exported. -/
theorem not_exportsLatest : ∃ r,
    let calls : List (List (InstanceMetrics × Orders)) :=
      [[(sampleMetrics "x", fun _ _ => .stored)], [(sampleMetrics "y", fun _ _ => .stored)]]
    updates calls = some r ∧ ¬ExportsLatest (calls.flatten.map Prod.fst) r := by
  refine ⟨_, rfl, fun h => ?_⟩
  have hx := h .topQueries "a" "x"
  revert hx
  decide

end Metrics

end AghSync
