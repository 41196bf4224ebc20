import AghSync.Stats
import AghSync.Compare

/-!
# The dashboard

`metrics.StatsGraph` : the statistics of all hosts as groups of lines, under their total. The
stored statistics are pointers, so adding to one of them would change what is stored. The total
is a new record, kept in a copy of the map under the key `total`, and a host of that name takes
its place. Without such a host the loop of `consolidate` adds up all stored statistics in a
record of its own (`foldlM_consolidateStep`).
-/

namespace AghSync

open Model

namespace Metrics

/-- The statistics that pointers point to, and the next pointer of a new record. -/
structure Memory where
  cell : ℕ → Stats
  next : ℕ

/-- A new record. -/
def Memory.alloc (m : Memory) (s : Stats) : ℕ × Memory :=
  (m.next, { cell := Function.update m.cell m.next s, next := m.next + 1 })

/-- Change a record in place. -/
def Memory.set (m : Memory) (p : ℕ) (s : Stats) : Memory :=
  { m with cell := Function.update m.cell p s }

/-- `OverallStats` : a pointer for each host. -/
abbrev OverallStats := KeyedMap String ℕ

/-- `StatsTotal`. -/
def statsTotal : String := "total"

/-- `labelTotal`. -/
def labelTotal : String := "Total"

namespace OverallStats

/-- One turn of the loop of `consolidate`. -/
def consolidateStep (s : OverallStats × Memory) (e : String × ℕ) :
    Option (OverallStats × Memory) := do
  let consolidated := s.1.insert e.1 e.2
  let total ← consolidated.lookup statsTotal
  let sum ← (s.2.cell total).add (s.2.cell e.2)
  some (consolidated, s.2.set total sum)

/-- `OverallStats.consolidate`, or a panic. -/
def consolidate (os : OverallStats) (o : MapOrder String) (m : Memory) :
    Option (OverallStats × Memory) :=
  let (total, m) := m.alloc Stats.newStats
  (os.range o).foldlM consolidateStep (AList.singleton statsTotal total, m)

/-- `OverallStats.Total`. -/
def total (os : OverallStats) : Option ℕ :=
  os.lookup statsTotal

end OverallStats

/-! ## Lines -/

/-- `Line`. -/
structure Line where
  data : List GoInt
  r : ℕ
  g : ℕ
  b : ℕ
  title : String
  fill : Bool

/-- The parts red, green and blue. -/
abbrev Color := ℕ × ℕ × ℕ

def blue : Color := (78, 141, 245)

def blueAlternatives : List Color :=
  [(44, 95, 163), (122, 166, 247), (30, 61, 92), (93, 158, 255), (58, 123, 213)]

def red : Color := (255, 94, 94)

def redAlternatives : List Color :=
  [(204, 59, 59), (255, 127, 127), (140, 36, 36), (255, 153, 153), (255, 66, 66)]

def yellow : Color := (232, 198, 78)

def yellowAlternatives : List Color :=
  [(196, 163, 60), (255, 220, 110), (140, 114, 36), (250, 233, 156), (212, 180, 84)]

def green : Color := (110, 224, 122)

def greenAlternatives : List Color :=
  [(68, 160, 80), (142, 255, 158), (44, 140, 63), (163, 255, 192), (85, 198, 102)]

/-- `safeStats`. -/
def safeStats (stats : Option (List GoInt)) : List GoInt :=
  stats.getD []

/-- The lines of `graphLines` below the total, in the order of the iteration. The colors are
taken in turn. -/
def replicaLines (s : OverallStats) (altColors : List Color) (dataCB : ℕ → List GoInt)
    (o : MapOrder String) : List Line :=
  ((s.range o).filter fun e => e.1 ≠ statsTotal).mapIdx fun i e =>
    let color := altColors.getD (i % altColors.length) (0, 0, 0)
    { fill := false, title := e.1, data := dataCB e.2, r := color.1, g := color.2.1,
      b := color.2.2 }

/-- `graphLines`. -/
def graphLines (t : ℕ) (s : OverallStats) (baseColor : Color) (altColors : List Color)
    (dataCB : ℕ → List GoInt) (o : MapOrder String) : List Line :=
  let total : Line :=
    { fill := true, title := labelTotal, data := dataCB t, r := baseColor.1, g := baseColor.2.1,
      b := baseColor.2.2 }
  total :: (replicaLines s altColors dataCB o).insertionSort fun a b => a.title ≤ b.title

/-- What `StatsGraph` returns. -/
structure Graph where
  t : ℕ
  dns : List Line
  blocked : List Line
  malware : List Line
  adult : List Line

/-- `StatsGraph`, or a panic. The maps are iterated in the given orders. -/
def statsGraph (stats : OverallStats) (o : MapOrder String)
    (orders : Stats.Series → MapOrder String) (m : Memory) : Option (Graph × Memory) := do
  let (s, m) ← stats.consolidate o m
  let t ← s.total
  some ({
    t := t
    dns := graphLines t s blue blueAlternatives (fun p => safeStats (m.cell p).dnsQueries)
      (orders .dnsQueries)
    blocked := graphLines t s red redAlternatives
      (fun p => safeStats (m.cell p).blockedFiltering) (orders .blockedFiltering)
    malware := graphLines t s green greenAlternatives
      (fun p => safeStats (m.cell p).replacedSafebrowsing) (orders .replacedSafebrowsing)
    adult := graphLines t s yellow yellowAlternatives
      (fun p => safeStats (m.cell p).replacedParental) (orders .replacedParental) }, m)

/-- The lines of a series. -/
def Graph.lines (g : Graph) : Stats.Series → List Line
  | .dnsQueries => g.dns
  | .blockedFiltering => g.blocked
  | .replacedSafebrowsing => g.malware
  | .replacedParental => g.adult

/-! ## The overview -/

/-- A group of lines : the total, and a line for each host in the order of their titles. -/
structure IsGroup (lines : List Line) (data : String → Option (List GoInt)) : Prop where
  exists_total : ∃ total replicas, lines = total :: replicas ∧ total.title = labelTotal ∧
    (replicas.map Line.title).Pairwise (· < ·) ∧
    (∀ title xs, (∃ l ∈ replicas, l.title = title ∧ l.data = xs) ↔ data title = some xs) ∧
    total.data.length = 24 ∧
    ∀ i, total.data.getD i 0 = (replicas.map fun l => l.data.getD i 0).sum

/-- The graph of the statistics in `m`, and the memory afterwards. -/
structure Graph.IsOverview (g : Graph) (stats : OverallStats) (m m' : Memory) : Prop where
  group : ∀ f, IsGroup (g.lines f) fun title =>
    (stats.lookup title).map fun p => safeStats ((m.cell p).series f)
  counter : ∀ c, (m'.cell g.t).counter c =
    some ((stats.values .stored).map fun p => (m.cell p).count c).sum
  kept : ∀ host p, stats.lookup host = some p → m'.cell p = m.cell p

/-- `StatsGraph` returns an overview of what is stored. -/
def ShowsOverview (stats : OverallStats) (o : MapOrder String)
    (orders : Stats.Series → MapOrder String) (m : Memory) : Prop :=
  ∃ g m', statsGraph stats o orders m = some (g, m') ∧ g.IsOverview stats m m'

/-! ## Consolidating -/

section Consolidate

variable {stats c : OverallStats} {o : MapOrder String} {m : Memory} {p : ℕ}

/-- While no host has the key of the total, the loop adds up the records of the hosts in the
record of the total, and changes no other. -/
theorem foldlM_consolidateStep : ∀ {es : List (String × ℕ)} {c : OverallStats} {m : Memory},
    (∀ e ∈ es, e.1 ≠ statsTotal ∧ e.2 ≠ p) → c.lookup statsTotal = some p →
    es.foldlM OverallStats.consolidateStep (c, m) =
      ((es.map fun e => m.cell e.2).foldlM Stats.add (m.cell p)).map fun sum =>
        (es.foldl (fun c e => c.insert e.1 e.2) c, m.set p sum)
  | [], c, m, _, _ => by simp [Memory.set]
  | e :: es, c, m, hes, hc => by
    obtain ⟨⟨hhost, hp⟩, hes⟩ := List.forall_mem_cons.mp hes
    have hc' : (c.insert e.1 e.2).lookup statsTotal = some p := by
      rw [AList.lookup_insert_ne (Ne.symm hhost), hc]
    rw [List.foldlM_cons, List.map_cons, List.foldlM_cons, List.foldl_cons]
    cases hsum : (m.cell p).add (m.cell e.2) with
    | none => simp [OverallStats.consolidateStep, hc', hsum]
    | some sum =>
      have hstep : OverallStats.consolidateStep (c, m) e =
          some (c.insert e.1 e.2, m.set p sum) := by
        simp [OverallStats.consolidateStep, hc', hsum]
      have hcells : es.map (fun e => (m.set p sum).cell e.2) = es.map fun e => m.cell e.2 :=
        List.map_congr_left fun e he => Function.update_of_ne (hes e he).2 _ _
      have hsets : ∀ s, (m.set p sum).set p s = m.set p s := by
        simp [Memory.set]
      have ih := foldlM_consolidateStep (m := m.set p sum) hes hc'
      rw [hcells] at ih
      simp only [hstep, Option.bind_eq_bind, Option.bind_some, ih, hsets]
      simp [Memory.set]

/-- The consolidated map has the stored pointers, and the total in a new record. -/
theorem exists_consolidate (hstored : ∀ host p, stats.lookup host = some p → p < m.next)
    (hfits : ∀ host p, stats.lookup host = some p → (m.cell p).Fits)
    (htotal : statsTotal ∉ stats) : ∃ s sum,
      stats.consolidate o m = some (s, (m.alloc Stats.newStats).2.set m.next sum) ∧
      s.lookup statsTotal = some m.next ∧
      (∀ host ≠ statsTotal, s.lookup host = stats.lookup host) ∧
      sum.IsTotal ((stats.values o).map m.cell) := by
  let m₀ := (m.alloc Stats.newStats).2
  have hcell : ∀ e ∈ stats.range o, m₀.cell e.2 = m.cell e.2 := by
    rintro ⟨host, p⟩ he
    exact Function.update_of_ne (hstored host p (KeyedMap.mem_range.mp he)).ne _ _
  have hcells : (stats.range o).map (fun e => m₀.cell e.2) = (stats.values o).map m.cell := by
    rw [KeyedMap.values, List.map_map]
    exact List.map_congr_left hcell
  have hes : ∀ e ∈ stats.range o, e.1 ≠ statsTotal ∧ e.2 ≠ m.next := by
    rintro ⟨host, p⟩ he
    have hlookup := KeyedMap.mem_range.mp he
    refine ⟨fun h => htotal ?_, (hstored host p hlookup).ne⟩
    exact h ▸ AList.lookup_isSome.mp (by rw [hlookup]; rfl)
  have hnew : m₀.cell m.next = Stats.newStats := Function.update_self _ _ _
  have hloop := foldlM_consolidateStep (m := m₀) (c := AList.singleton statsTotal m.next) hes
    (by simp [KeyedMap.lookup_singleton])
  have hall : ∀ s ∈ (stats.values o).map m.cell, s.Fits := by
    intro s hs
    obtain ⟨p, hp, rfl⟩ := List.mem_map.mp hs
    obtain ⟨host, hhost⟩ := KeyedMap.mem_values.mp hp
    exact hfits host p hhost
  obtain ⟨sum, hsum⟩ := Option.isSome_iff_exists.mp (Stats.isSome_foldlM_iff.mpr hall)
  rw [hcells, hnew, hsum] at hloop
  refine ⟨_, sum, hloop, ?_, ?_, Stats.isTotal_of_foldlM hsum⟩
  · rw [KeyedMap.lookup_foldl_insert_range, AList.lookup_eq_none.mpr htotal]
    simp [KeyedMap.lookup_singleton]
  · intro host hhost
    rw [KeyedMap.lookup_foldl_insert_range]
    simp [KeyedMap.lookup_singleton, hhost]

end Consolidate

/-! ## Groups -/

section Group

variable {s : OverallStats} {altColors : List Color} {baseColor : Color}
  {dataCB : ℕ → List GoInt} {o : MapOrder String} {t : ℕ} {lines : List Line}

/-- The entries that have a line. -/
def hosts (s : OverallStats) (o : MapOrder String) : List (String × ℕ) :=
  (s.range o).filter fun e => e.1 ≠ statsTotal

theorem mem_hosts {e : String × ℕ} :
    e ∈ hosts s o ↔ s.lookup e.1 = some e.2 ∧ e.1 ≠ statsTotal := by
  obtain ⟨host, p⟩ := e
  simp [hosts]

theorem nodup_map_fst_hosts : ((hosts s o).map Prod.fst).Nodup :=
  (KeyedMap.nodup_map_fst_range o s).sublist (List.filter_sublist.map _)

/-- The entries of a map that agrees with `stats` on the hosts. -/
theorem hosts_perm {stats : OverallStats} {o₀ : MapOrder String} (htotal : statsTotal ∉ stats)
    (h : ∀ host ≠ statsTotal, s.lookup host = stats.lookup host) :
    (hosts s o).Perm (stats.range o₀) := by
  refine (List.perm_ext_iff_of_nodup nodup_map_fst_hosts.of_map
    (KeyedMap.nodup_map_fst_range o₀ stats).of_map).mpr ?_
  rintro ⟨host, p⟩
  rw [mem_hosts, KeyedMap.mem_range]
  constructor
  · rintro ⟨hp, hhost⟩
    rw [← h host hhost, hp]
  · intro hp
    have hhost : host ≠ statsTotal := by
      rintro rfl
      exact htotal (AList.lookup_isSome.mp (by rw [hp]; rfl))
    exact ⟨(h host hhost).trans hp, hhost⟩

/-- Each entry has a line with its title and its data. -/
theorem map_replicaLines (s : OverallStats) (altColors : List Color) (dataCB : ℕ → List GoInt)
    (o : MapOrder String) : (replicaLines s altColors dataCB o).map (fun l => (l.title, l.data)) =
      (hosts s o).map fun e => (e.1, dataCB e.2) := by
  refine List.ext_getElem? fun i => ?_
  simp only [replicaLines, hosts, List.getElem?_map, List.getElem?_mapIdx, Option.map_map]
  rfl

theorem map_title_replicaLines : (replicaLines s altColors dataCB o).map Line.title =
    (hosts s o).map Prod.fst := by
  have h := congrArg (List.map Prod.fst) (map_replicaLines s altColors dataCB o)
  simpa [Function.comp_def] using h

/-- Sorting by the titles. -/
theorem pairwise_title (h : (lines.map Line.title).Nodup) :
    ((lines.insertionSort fun a b => a.title ≤ b.title).map Line.title).Pairwise (· < ·) := by
  have hsorted : (lines.insertionSort fun a b => a.title ≤ b.title).Pairwise
      fun a b => a.title ≤ b.title := List.pairwise_insertionSort _ _
  have hnodup := ((List.perm_insertionSort (fun a b => a.title ≤ b.title) lines).map
    Line.title).nodup_iff.mpr h
  exact ((List.pairwise_map.mpr hsorted).and hnodup).imp fun hlt => lt_of_le_of_ne hlt.1 hlt.2

/-- The lines of the hosts and their sum are a group. -/
theorem isGroup_graphLines {data : String → Option (List GoInt)}
    (hdata : ∀ host ≠ statsTotal, (s.lookup host).map dataCB = data host)
    (hnone : data statsTotal = none) (hlength : (dataCB t).length = 24)
    (hsum : ∀ i, (dataCB t).getD i 0 = ((hosts s o).map fun e => (dataCB e.2).getD i 0).sum) :
    IsGroup (graphLines t s baseColor altColors dataCB o) data := by
  have hperm := List.perm_insertionSort (fun a b : Line => a.title ≤ b.title)
    (replicaLines s altColors dataCB o)
  refine ⟨_, _, rfl, rfl, pairwise_title ?_, fun title xs => ?_, hlength, fun i => ?_⟩
  · rw [map_title_replicaLines]
    exact nodup_map_fst_hosts
  · have hline : (∃ l ∈ replicaLines s altColors dataCB o, l.title = title ∧ l.data = xs) ↔
        (title, xs) ∈ (hosts s o).map fun e => (e.1, dataCB e.2) := by
      rw [← map_replicaLines s altColors]
      simp
    simp only [hperm.mem_iff, hline, List.mem_map, mem_hosts, Prod.mk.injEq]
    constructor
    · rintro ⟨⟨host, p⟩, ⟨hp, hhost⟩, rfl, rfl⟩
      rw [← hdata host hhost, hp, Option.map_some]
    · intro htitle
      have hhost : title ≠ statsTotal := by
        rintro rfl
        rw [hnone] at htitle
        cases htitle
      rw [← hdata title hhost] at htitle
      obtain ⟨p, hp, rfl⟩ := Option.map_eq_some_iff.mp htitle
      exact ⟨(title, p), ⟨hp, hhost⟩, rfl, rfl⟩
  · rw [(hperm.map _).sum_eq, hsum]
    have h := congrArg (List.map fun e : String × List GoInt => e.2.getD i 0)
      (map_replicaLines s altColors dataCB o)
    rw [List.map_map, List.map_map] at h
    exact congrArg List.sum h.symm

end Group

/-! ## The whole dashboard -/

section Overview

variable {stats : OverallStats} {o : MapOrder String} {orders : Stats.Series → MapOrder String}
  {m m' : Memory} {g : Graph}

/-- Every group is one of `graphLines`. -/
theorem lines_statsGraph (h : statsGraph stats o orders m = some (g, m')) :
    ∃ s, stats.consolidate o m = some (s, m') ∧ s.lookup statsTotal = some g.t ∧
      ∀ f, ∃ base alternatives, g.lines f = graphLines g.t s base alternatives
        (fun p => safeStats ((m'.cell p).series f)) (orders f) := by
  simp only [statsGraph, OverallStats.total, Option.bind_eq_bind, Option.bind_eq_some_iff,
    Option.some.injEq, Prod.mk.injEq, Prod.exists] at h
  obtain ⟨s, m₁, hs, t, ht, rfl, rfl⟩ := h
  refine ⟨s, hs, ht, ?_⟩
  rintro (_ | _)
  all_goals exact ⟨_, _, rfl⟩

/-- A host with the key of the total has no line. -/
theorem notMem_of_showsOverview (h : ShowsOverview stats o orders m) : statsTotal ∉ stats := by
  obtain ⟨g, m', hg, hover⟩ := h
  intro hmem
  obtain ⟨p, hp⟩ := Option.isSome_iff_exists.mp (AList.lookup_isSome.mpr hmem)
  obtain ⟨s, -, -, hlines⟩ := lines_statsGraph hg
  obtain ⟨base, alternatives, hline⟩ := hlines .dnsQueries
  obtain ⟨total, replicas, hgroup, -, -, hdata, -⟩ := (hover.group .dnsQueries).exists_total
  rw [hline] at hgroup
  obtain ⟨-, rfl⟩ := List.cons.inj hgroup
  obtain ⟨l, hl, htitle, -⟩ := (hdata statsTotal _).mpr (by rw [hp]; rfl)
  have hmem : l.title ∈ (hosts s (orders .dnsQueries)).map Prod.fst := by
    rw [← map_title_replicaLines]
    exact List.mem_map_of_mem ((List.perm_insertionSort _ _).mem_iff.mp hl)
  obtain ⟨e, he, heq⟩ := List.mem_map.mp hmem
  exact (mem_hosts.mp he).2 (heq.trans htitle)

/-- A total of what is stored is the sum of the entries that have a line. -/
theorem element_total {s : OverallStats} {o' : MapOrder String} {sum : Stats}
    (hsum : sum.IsTotal ((stats.values o).map m.cell)) (htotal : statsTotal ∉ stats)
    (hlookup : ∀ host ≠ statsTotal, s.lookup host = stats.lookup host)
    (hlength : ∀ host p, stats.lookup host = some p →
      ∀ f xs, (m.cell p).series f = some xs → xs.length = 24)
    (hcell : ∀ host p, stats.lookup host = some p → m'.cell p = m.cell p) (f : Stats.Series)
    (i : ℕ) :
    sum.element f i = ((hosts s o').map fun e => (m'.cell e.2).element f i).sum := by
  have hcells : (stats.range o).map (fun e => (m'.cell e.2).element f i) =
      ((stats.values o).map m.cell).map fun s => s.element f i := by
    rw [KeyedMap.values, List.map_map, List.map_map]
    refine List.map_congr_left ?_
    rintro ⟨host, p⟩ he
    simp [hcell host p (KeyedMap.mem_range.mp he)]
  rw [((hosts_perm htotal hlookup).map _).sum_eq, hcells]
  refine hsum.element_eq_sum (fun cell hmem ys hys => ?_) i
  obtain ⟨p, hp, rfl⟩ := List.mem_map.mp hmem
  obtain ⟨host, hhost⟩ := KeyedMap.mem_values.mp hp
  exact hlength host p hhost f ys hys

/-- The dashboard shows what is stored exactly if no host has the key of the total. -/
theorem showsOverview_iff (stats : OverallStats) (o : MapOrder String)
    (orders : Stats.Series → MapOrder String) (m : Memory)
    (hstored : ∀ host p, stats.lookup host = some p → p < m.next)
    (hlength : ∀ host p, stats.lookup host = some p →
      ∀ f xs, (m.cell p).series f = some xs → xs.length = 24) :
    ShowsOverview stats o orders m ↔ statsTotal ∉ stats := by
  refine ⟨notMem_of_showsOverview, fun htotal => ?_⟩
  have hfits : ∀ host p, stats.lookup host = some p → (m.cell p).Fits :=
    fun host p hp f xs hxs => (hlength host p hp f xs hxs).ge
  obtain ⟨s, sum, hs, ht, hlookup, hsum⟩ := exists_consolidate (o := o) hstored hfits htotal
  generalize hm' : (m.alloc Stats.newStats).2.set m.next sum = m' at hs
  have hcell : ∀ host p, stats.lookup host = some p → m'.cell p = m.cell p := by
    intro host p hp
    have hne := (hstored host p hp).ne
    rw [← hm']
    exact (Function.update_of_ne hne _ _).trans (Function.update_of_ne hne _ _)
  have hnext : m'.cell m.next = sum := hm' ▸ Function.update_self _ _ _
  obtain ⟨g, hg⟩ : ∃ g, statsGraph stats o orders m = some (g, m') := by
    simp only [statsGraph, OverallStats.total, hs, ht, Option.bind_eq_bind, Option.bind_some]
    exact ⟨_, rfl⟩
  obtain ⟨s', hs', ht', hlines⟩ := lines_statsGraph hg
  obtain rfl : s' = s := congrArg Prod.fst (Option.some.inj (hs'.symm.trans hs))
  have hgt : g.t = m.next := Option.some.inj (ht'.symm.trans ht)
  refine ⟨g, m', hg, fun f => ?_, fun c => ?_, hcell⟩
  · obtain ⟨base, alternatives, hline⟩ := hlines f
    obtain ⟨xs, hxs, hlen⟩ := hsum.series f
    rw [hline, hgt]
    refine isGroup_graphLines (fun host hhost => ?_) ?_ ?_ fun i => ?_
    · rw [hlookup host hhost]
      exact Option.map_congr fun p hp => by rw [hcell host p hp]
    · rw [AList.lookup_eq_none.mpr htotal, Option.map_none]
    · rw [hnext, hxs]
      exact hlen
    · change (m'.cell m.next).element f i =
        ((hosts s' (orders f)).map fun e => (m'.cell e.2).element f i).sum
      rw [hnext]
      exact element_total hsum htotal hlookup hlength hcell f i
  · rw [hgt, hnext, hsum.counter, List.map_map]
    exact congrArg some ((KeyedMap.values_perm o .stored stats).map _).sum_eq

end Overview

/-- Two hosts, one of them without series. -/
theorem showsOverview_iff_sample :
    let stats : OverallStats := AList.insert "b" 1 (AList.singleton "a" 0)
    let m : Memory := ⟨fun _ => { numDnsQueries := some 7 }, 2⟩
    ShowsOverview stats .stored (fun _ => .reversed) m ↔ statsTotal ∉ stats := by
  refine showsOverview_iff _ _ _ _ (fun host p hp => ?_) ?_
  · by_cases hb : host = "b"
    · subst hb
      rw [AList.lookup_insert] at hp
      obtain rfl := Option.some.inj hp
      decide
    · rw [AList.lookup_insert_ne hb, KeyedMap.lookup_singleton] at hp
      split_ifs at hp
      obtain rfl := Option.some.inj hp
      decide
  · rintro host p - (_ | _) xs ⟨⟩

/-- An instance at the host `total`. -/
theorem not_showsOverview :
    let stats : OverallStats := AList.singleton statsTotal 0
    let m : Memory := ⟨fun _ => { numDnsQueries := some 7 }, 1⟩
    ¬ShowsOverview stats .stored (fun _ => .stored) m :=
  fun h => notMem_of_showsOverview h (by decide)

end Metrics

end AghSync
