import AghSync.ClientMove
import AghSync.Encoding

/-!
# What merges plan

Filters and leases are taken out of a map as they are matched. When a key comes a second time
in the origin's list its entry is gone, and the list entry is added although the replica has one
(`merges_fresh_iff`).

Of clients each name is looked at once : it is new, gone or on both sides, and a name on both
sides calls for an update exactly if its two clients differ (`Client.Alike`). What the
comparison does not see are the order of four lists and the time zone of schedules without
days. It changes the origin's client in place. So the client of an update is the origin's as
the merge leaves it, and the origin's list holds the same one afterwards
(`Clients.other_of_merge`).
-/

open Interaction Interaction.Prog KeyedMap

namespace AghSync

namespace Model

/-! ## Keys that come again -/

/-- The plan for filters, by URL. -/
def FilterMerge.Fresh (m : FilterMerge) (this other : Option (List Filter)) : Prop :=
  KeyedMap.Fresh ((this.getD []).map Filter.url) ((other.getD []).map Filter.url)
    (m.adds.map Filter.url) (m.updates.map Filter.url) (m.removes.map Filter.url)

/-- The plan for leases, by MAC. Leases are not updated. -/
def LeaseMerge.Fresh (m : LeaseMerge) (l other : Option (List DhcpStaticLease)) : Prop :=
  KeyedMap.Fresh ((l.getD []).map DhcpStaticLease.mac) ((other.getD []).map DhcpStaticLease.mac)
    (m.adds.map DhcpStaticLease.mac) [] (m.removes.map DhcpStaticLease.mac)

theorem mergeFilters_fresh_iff (this other : Option (List Filter)) (o : MapOrder String) :
    (mergeFilters this other o).Fresh this other ↔ ((other.getD []).map Filter.url).Nodup := by
  unfold mergeFilters
  split_ifs with hnil
  · simp only [Bool.and_eq_true, Option.isNone_iff_eq_none] at hnil
    obtain ⟨rfl, rfl⟩ := hnil
    exact iff_of_true ⟨by simp, by simp, by simp⟩ (by simp)
  · refine fresh_iff ?_
    rw [List.map_map]
    exact List.filter_sublist.map _

theorem mergeDhcpStaticLeases_fresh_iff (l other : Option (List DhcpStaticLease))
    (o : MapOrder String) : (mergeDhcpStaticLeases l other o).Fresh l other ↔
      ((other.getD []).map DhcpStaticLease.mac).Nodup :=
  fresh_iff (List.nil_sublist _)

/-- Both plans are fresh exactly if no key is repeated in the origin's list. -/
theorem merges_fresh_iff (this other : Option (List Filter))
    (l leases : Option (List DhcpStaticLease)) (o o' : MapOrder String) :
    ((mergeFilters this other o).Fresh this other ↔ ((other.getD []).map Filter.url).Nodup) ∧
      ((mergeDhcpStaticLeases l leases o').Fresh l leases ↔
        ((leases.getD []).map DhcpStaticLease.mac).Nodup) :=
  ⟨mergeFilters_fresh_iff this other o, mergeDhcpStaticLeases_fresh_iff l leases o'⟩

/-- A URL that is twice in the origin's list and once in the replica's is added. -/
theorem not_fresh :
    let f : Filter := { url := "u" }
    (mergeFilters (some [f]) (some [f, f]) .stored).adds = [f] ∧
      ¬(mergeFilters (some [f]) (some [f, f]) .stored).Fresh (some [f]) (some [f, f]) ∧
      ¬∀ this other l leases (o o' : MapOrder String),
        (mergeFilters this other o).Fresh this other ∧
          (mergeDhcpStaticLeases l leases o').Fresh l leases := by
  intro f
  have hnot : ¬(mergeFilters (some [f]) (some [f, f]) .stored).Fresh (some [f]) (some [f, f]) :=
    (mergeFilters_fresh_iff _ _ _).not.mpr (by decide)
  exact ⟨by decide, hnot, fun h => hnot (h _ _ none none .stored .stored).1⟩

/-! ## When two clients are taken for the same -/

/-- The clients are equal up to the order of lists and the time zone of schedules that are
without days on both sides. -/
structure Client.Alike (c d : Client) : Prop where
  rest : c = { d with
    ids := c.ids
    tags := c.tags
    blockedServices := c.blockedServices
    upstreams := c.upstreams
    blockedServicesSchedule := c.blockedServicesSchedule }
  ids : unordered c.ids = unordered d.ids
  tags : unordered c.tags = unordered d.tags
  blockedServices : unordered c.blockedServices = unordered d.blockedServices
  upstreams : unordered c.upstreams = unordered d.upstreams
  schedule : c.blockedServicesSchedule = d.blockedServicesSchedule ∨
    ∃ s ∈ c.blockedServicesSchedule, ∃ t ∈ d.blockedServicesSchedule,
      s.noDays = true ∧ t.noDays = true

namespace Schedule

/-- The schedule as it is compared. -/
def hidden (s : Schedule) : Schedule :=
  if s.noDays then { s with timeZone := none } else s

theorem hidden_of_noDays {s : Schedule} (h : s.noDays = true) : s.hidden = {} := by
  obtain ⟨fri, mon, sat, sun, thu, zone, tue, wed⟩ := s
  simp only [noDays, Bool.and_eq_true, Option.isNone_iff_eq_none] at h
  obtain ⟨⟨⟨⟨⟨⟨rfl, rfl⟩, rfl⟩, rfl⟩, rfl⟩, rfl⟩, rfl⟩ := h
  rfl

theorem hidden_of_days {s : Schedule} (h : s.noDays = false) : s.hidden = s :=
  if_neg (by simp [h])

theorem hidden_inj {s t : Schedule} :
    s.hidden = t.hidden ↔ s = t ∨ (s.noDays = true ∧ t.noDays = true) := by
  cases hs : s.noDays with
  | true => cases ht : t.noDays with
    | true => simp [hidden_of_noDays hs, hidden_of_noDays ht]
    | false =>
      rw [hidden_of_noDays hs, hidden_of_days ht]
      refine iff_of_false ?_ ?_
      · rintro rfl
        cases ht
      · rintro (rfl | ⟨-, h⟩)
        · rw [hs] at ht
          cases ht
        · cases h
  | false => cases ht : t.noDays with
    | true =>
      rw [hidden_of_days hs, hidden_of_noDays ht]
      refine iff_of_false ?_ ?_
      · rintro rfl
        cases hs
      · rintro (rfl | ⟨h, -⟩)
        · rw [ht] at hs
          cases hs
        · cases h
    | false => simp [hidden_of_days hs, hidden_of_days ht]

end Schedule

namespace Client

theorem prepareDiff_snd (c : Client) : c.prepareDiff.2 =
    { c with blockedServicesSchedule := c.blockedServicesSchedule.map Schedule.hidden } := by
  unfold prepareDiff
  cases hs : c.blockedServicesSchedule with
  | none =>
    cases c
    simp_all
  | some s =>
    simp only [Option.map_some, Schedule.hidden]
    split_ifs
    · rfl
    · cases c
      simp_all

/-- A comparison finds exactly the clients equal that are alike. -/
theorem equals_iff {c d : Client} : (c.equals d).1 = true ↔ c.Alike d := by
  have hschedule : c.blockedServicesSchedule.map Schedule.hidden =
      d.blockedServicesSchedule.map Schedule.hidden ↔
        c.blockedServicesSchedule = d.blockedServicesSchedule ∨
          ∃ s ∈ c.blockedServicesSchedule, ∃ t ∈ d.blockedServicesSchedule,
            s.noDays = true ∧ t.noDays = true := by
    cases c.blockedServicesSchedule <;> cases d.blockedServicesSchedule <;>
      simp [Schedule.hidden_inj]
  unfold equals
  rw [jsonEquals_iff, prepareDiff_snd, prepareDiff_snd]
  simp only [sort, mk.injEq, hschedule, map_sortStrings_inj, ← unordered_inj]
  constructor
  · intro h
    refine ⟨?_, h.2.2.2.1, by simp only [h], h.1, by simp only [h], h.2.1⟩
    cases c
    simp_all
  · intro h
    rw [h.rest]
    simpa [h.blockedServices, h.ids, h.tags, h.upstreams] using h.schedule

end Client

/-! ## Writing results back -/

section Set

variable {α : Type}

theorem length_foldl_set : ∀ (rs : List (ℕ × α)) (xs : List α),
    (rs.foldl (fun xs r => xs.set r.1 r.2) xs).length = xs.length
  | [], _ => rfl
  | r :: rs, xs => by rw [List.foldl_cons, length_foldl_set, List.length_set]

theorem getElem?_foldl_set_of_notMem {n : ℕ} : ∀ {rs : List (ℕ × α)} {xs : List α},
    n ∉ rs.map Prod.fst → (rs.foldl (fun xs r => xs.set r.1 r.2) xs)[n]? = xs[n]?
  | [], _, _ => rfl
  | r :: rs, xs, h => by
    rw [List.map_cons, List.mem_cons, not_or] at h
    rw [List.foldl_cons, getElem?_foldl_set_of_notMem h.2, List.getElem?_set_ne (Ne.symm h.1)]

/-- Results for different positions are all found where they were put. -/
theorem getElem?_foldl_set_of_mem {n : ℕ} {a : α} : ∀ {rs : List (ℕ × α)} {xs : List α},
    (rs.map Prod.fst).Nodup → (n, a) ∈ rs → n < xs.length →
      (rs.foldl (fun xs r => xs.set r.1 r.2) xs)[n]? = some a
  | r :: rs, xs, hnodup, hmem, hn => by
    obtain ⟨hr, hrs⟩ := List.nodup_cons.mp hnodup
    rw [List.foldl_cons]
    rcases List.mem_cons.mp hmem with rfl | hmem
    · rw [getElem?_foldl_set_of_notMem hr, List.getElem?_set_self hn]
    · exact getElem?_foldl_set_of_mem hrs hmem (by simpa using hn)

end Set

namespace Clients

/-- Names are there, and each once. -/
structure Named (cs : Clients) : Prop where
  names : ∀ c ∈ cs.clients.getD [], c.name.isSome
  keys : ((cs.clients.getD []).map Client.key).Nodup

section Merge

variable {clients other : Clients} {o₁ o₂ : MapOrder String} {m : ClientsMerge}

/-- The origin's clients with their positions, in the order of the iteration over them. -/
abbrev expected (other : Clients) (o : MapOrder String) : List (Client × ℕ) :=
  (collect (fun e : Client × ℕ => e.1.key) (other.clients.getD []).zipIdx).values o

/-- The clients that are compared, each with its position in the origin's list. -/
abbrev compared (clients other : Clients) (o : MapOrder String) : List ((Client × ℕ) × Client) :=
  (consume (fun e : Client × ℕ => e.1.key) (other.expected o)
    (collect Client.key (clients.clients.getD []))).hits

theorem nodup_expected (other : Clients) (o : MapOrder String) :
    ((other.expected o).map fun e => e.1.key).Nodup :=
  nodup_map_values fun _ _ hk => (of_lookup_collect hk).2

theorem mem_expected (hother : other.Named) {c : Client} {n : ℕ} :
    (c, n) ∈ other.expected o₁ ↔ (other.clients.getD [])[n]? = some c := by
  simp only [mem_values, lookup_collect (nodup_zipIdx hother.keys), exists_eq_right',
    List.mem_zipIdx_iff_getElem?]

/-- What a merge returns, from the comparisons that are made. -/
theorem merge_eq (h : clients.merge other o₁ o₂ = some m) :
    m.updates = ((clients.compared other o₁).filter fun h => !(h.1.1.equals h.2).1).map
      (fun h => h.1.1.compared) ∧
    m.other = ⟨other.clients.map fun oc => ((clients.compared other o₁).map fun h =>
      (h.1.2, h.1.1.compared)).foldl (fun oc r => oc.set r.1 r.2) oc⟩ := by
  unfold merge at h
  simp only at h
  split_ifs at h
  obtain rfl := Option.some.inj h
  simp only [List.filter_map, List.map_map, List.foldl_map]
  exact ⟨rfl, rfl⟩

theorem mem_compared (hclients : clients.Named) (hother : other.Named) {c d : Client} {n : ℕ} :
    ((c, n), d) ∈ clients.compared other o₁ ↔ (other.clients.getD [])[n]? = some c ∧
      d ∈ clients.clients.getD [] ∧ d.key = c.key := by
  rw [mem_hits_collect hclients.keys (nodup_expected other o₁), mem_expected hother]

/-- No name is compared twice. -/
theorem nodup_compared (clients other : Clients) (o : MapOrder String) :
    ((clients.compared other o).map fun h => h.1.1.key).Nodup := by
  have hsub : ((clients.compared other o).map Prod.fst).Sublist (other.expected o) :=
    hits_sublist _ _
  have hkeys := hsub.map fun e => e.1.key
  rw [List.map_map] at hkeys
  exact (nodup_expected other o).sublist hkeys

/-- The positions that are written back are different. -/
theorem nodup_positions (hclients : clients.Named) (hother : other.Named) (o : MapOrder String) :
    ((clients.compared other o).map fun h => h.1.2).Nodup := by
  refine List.pairwise_map.mpr ?_
  refine (List.pairwise_map.mp (nodup_compared clients other o)).imp_of_mem ?_
  rintro ⟨⟨c, n⟩, d⟩ ⟨⟨c', n'⟩, d'⟩ hmem hmem' hne rfl
  have hc := ((mem_compared hclients hother).mp hmem).1
  rw [((mem_compared hclients hother).mp hmem').1] at hc
  exact hne (congrArg Client.key (Option.some.inj hc)).symm

theorem mem_positions (hclients : clients.Named) (hother : other.Named) (o : MapOrder String)
    {c : Client} {n : ℕ} (hc : (other.clients.getD [])[n]? = some c) :
    n ∈ (clients.compared other o).map (fun h => h.1.2) ↔
      c.key ∈ (clients.clients.getD []).map Client.key := by
  rw [List.mem_map, List.mem_map]
  constructor
  · rintro ⟨⟨⟨c', n'⟩, d⟩, hmem, rfl⟩
    obtain ⟨hc', hd, hkey⟩ := (mem_compared hclients hother).mp hmem
    obtain rfl := Option.some.inj (hc'.symm.trans hc)
    exact ⟨d, hd, hkey⟩
  · rintro ⟨d, hd, hkey⟩
    exact ⟨((c, n), d), (mem_compared hclients hother).mpr ⟨hc, hd, hkey⟩, rfl⟩

/-- The origin's list afterwards : the clients that the replica has too are as the comparison
leaves them. -/
theorem other_of_merge (hclients : clients.Named) (hother : other.Named)
    (h : clients.merge other o₁ o₂ = some m) :
    m.other = ⟨other.clients.map fun oc => oc.map fun c =>
      if c.key ∈ (clients.clients.getD []).map Client.key then c.compared else c⟩ := by
  rw [(merge_eq h).2]
  congr 1
  cases hoc : other.clients with
  | none => rfl
  | some oc =>
    refine congrArg some (List.ext_getElem? fun n => ?_)
    have hlist : other.clients.getD [] = oc := by rw [hoc, Option.getD_some]
    rw [List.getElem?_map]
    cases hc : oc[n]? with
    | none =>
      rw [Option.map_none, List.getElem?_eq_none_iff]
      exact (length_foldl_set _ _).trans_le (List.getElem?_eq_none_iff.mp hc)
    | some c =>
      have hpositions := mem_positions hclients hother o₁ (hlist ▸ hc)
      rw [Option.map_some]
      split_ifs with hk
      · obtain ⟨d, hd, hkey⟩ := List.mem_map.mp hk
        refine getElem?_foldl_set_of_mem ?_ ?_ (List.getElem?_eq_some_iff.mp hc).1
        · rw [List.map_map]
          exact nodup_positions hclients hother o₁
        · exact List.mem_map.mpr
            ⟨((c, n), d), (mem_compared hclients hother).mpr ⟨hlist ▸ hc, hd, hkey⟩, rfl⟩
      · rw [getElem?_foldl_set_of_notMem, hc]
        rw [List.map_map]
        exact hpositions.not.mpr hk

end Merge

/-- The merge splits the names of both sides up. -/
structure Partition (replica origin : Clients) (m : ClientsMerge) : Prop where
  adds : ∀ k, k ∈ m.adds.map Client.key ↔
    k ∈ (origin.clients.getD []).map Client.key ∧ k ∉ (replica.clients.getD []).map Client.key
  removes : ∀ k, k ∈ m.removes.map Client.key ↔
    k ∈ (replica.clients.getD []).map Client.key ∧ k ∉ (origin.clients.getD []).map Client.key
  updates : ∀ k, k ∈ m.updates.map Client.key ↔ ∃ c ∈ origin.clients.getD [],
    ∃ d ∈ replica.clients.getD [], c.key = k ∧ d.key = k ∧ ¬c.Alike d
  nodup : (m.adds.map Client.key ++ m.updates.map Client.key ++ m.removes.map Client.key).Nodup
  /-- The clients to add are the origin's, and those to remove the replica's. -/
  added : ∀ c ∈ m.adds, c ∈ origin.clients.getD []
  removed : ∀ c ∈ m.removes, c ∈ replica.clients.getD []
  /-- The clients to update are the origin's, as the comparison leaves them. -/
  updated : ∀ u ∈ m.updates, ∃ c ∈ origin.clients.getD [], c.key = u.key ∧ u = c.compared
  /-- The origin's list has the same clients afterwards. -/
  held : ∀ c ∈ m.adds ++ m.updates, c ∈ m.other.clients.getD []

section Merge

variable {clients other : Clients} {o₁ o₂ : MapOrder String} {m : ClientsMerge}

theorem key_compared (c : Client) : c.compared.key = c.key :=
  congrArg (Option.getD · "") (Client.name_equals c c)

theorem mem_updates (hclients : clients.Named) (hother : other.Named)
    (h : clients.merge other o₁ o₂ = some m) {u : Client} : u ∈ m.updates ↔
      ∃ c ∈ other.clients.getD [], ∃ d ∈ clients.clients.getD [], d.key = c.key ∧ ¬c.Alike d ∧
        u = c.compared := by
  rw [(merge_eq h).1]
  simp only [List.mem_map, List.mem_filter, Bool.not_eq_true', ← Client.equals_iff,
    Bool.not_eq_true]
  constructor
  · rintro ⟨⟨⟨c, n⟩, d⟩, ⟨hmem, hne⟩, rfl⟩
    obtain ⟨hc, hd, hkey⟩ := (mem_compared hclients hother).mp hmem
    exact ⟨c, List.mem_of_getElem? hc, d, hd, hkey, hne, rfl⟩
  · rintro ⟨c, hc, d, hd, hkey, hne, rfl⟩
    obtain ⟨n, hn⟩ := List.getElem?_of_mem hc
    exact ⟨((c, n), d), ⟨(mem_compared hclients hother).mpr ⟨hn, hd, hkey⟩, hne⟩, rfl⟩

theorem mem_other (hclients : clients.Named) (hother : other.Named)
    (h : clients.merge other o₁ o₂ = some m) {c : Client} (hc : c ∈ other.clients.getD []) :
    (if c.key ∈ (clients.clients.getD []).map Client.key then c.compared else c) ∈
      m.other.clients.getD [] := by
  rw [other_of_merge hclients hother h]
  cases hoc : other.clients with
  | none =>
    rw [hoc] at hc
    cases hc
  | some oc =>
    rw [hoc] at hc
    exact List.mem_map.mpr ⟨c, hc, rfl⟩

theorem partition_of_merge (hclients : clients.Named) (hother : other.Named)
    (h : clients.merge other o₁ o₂ = some m) : clients.Partition other m := by
  obtain ⟨changed, hmerged⟩ := exists_merged hclients.keys hother.keys h
  have hadds : ∀ c ∈ m.adds, c ∈ other.clients.getD [] ∧
      c.key ∉ (clients.clients.getD []).map Client.key := by
    intro c hc
    rw [hmerged.adds, List.mem_filter, mem_ranged hother.keys, decide_eq_true_eq] at hc
    exact hc
  have hnodup : (m.removes.map Client.key ++
      (m.adds.map Client.key ++ m.updates.map Client.key)).Nodup := by
    rw [hmerged.map_key_updates, hmerged.adds]
    refine (hmerged.nodup hother.keys).sublist ((List.Sublist.refl _).append ?_)
    exact (List.Sublist.refl _).append (List.filter_sublist.map _)
  refine ⟨fun k => ?_, fun k => hmerged.mem_map_removes, fun k => ?_,
    List.perm_append_comm.nodup_iff.mp hnodup, fun c hc => (hadds c hc).1,
    fun c hc => ((hmerged.mem_removes c).mp hc).1, fun u hu => ?_, fun c hc => ?_⟩
  · rw [hmerged.adds]
    exact mem_map_added hother.keys
  · rw [List.mem_map]
    constructor
    · rintro ⟨u, hu, rfl⟩
      obtain ⟨c, hc, d, hd, hkey, hne, rfl⟩ := (mem_updates hclients hother h).mp hu
      exact ⟨c, hc, d, hd, (key_compared c).symm, hkey.trans (key_compared c).symm, hne⟩
    · rintro ⟨c, hc, d, hd, rfl, hkey, hne⟩
      exact ⟨_, (mem_updates hclients hother h).mpr ⟨c, hc, d, hd, hkey, hne, rfl⟩, key_compared c⟩
  · obtain ⟨c, hc, -, -, -, -, rfl⟩ := (mem_updates hclients hother h).mp hu
    exact ⟨c, hc, (key_compared c).symm, rfl⟩
  · rcases List.mem_append.mp hc with hc | hc
    · obtain ⟨hmem, hnew⟩ := hadds c hc
      have hheld := mem_other hclients hother h hmem
      rwa [if_neg hnew] at hheld
    · obtain ⟨d, hd, e, he, hkey, -, rfl⟩ := (mem_updates hclients hother h).mp hc
      have hheld := mem_other hclients hother h hd
      rwa [if_pos (hkey ▸ List.mem_map_of_mem he)] at hheld

end Merge

end Clients

end Model

/-! ## The action -/

section Action

variable {ac : ActionContext} {clients other : Model.Clients} {o₁ o₂ : MapOrder String}
  {m : Model.ClientsMerge}

/-- In every run with these clients and orders, the action deletes `removes`, then adds `adds`,
then updates with `updates`, or stops on the way with an error. -/
def Consumes (ac : ActionContext) (clients other : Model.Clients) (o₁ o₂ : MapOrder String)
    (m : Model.ClientsMerge) : Prop :=
  ∀ org tr out, org.clients = some other →
    Runs (actionClientSettings ac org) (⟨.read ac.client.party .clients, .ok clients⟩ ::
      ⟨.rangeMap ac.client.party .clientsExpected, o₁⟩ ::
      ⟨.rangeMap ac.client.party .clientsCurrent, o₂⟩ :: tr) out →
    issued tr <+: m.writes.map Prod.fst ∧
      ((∃ org', out = some (.ok (), org')) → issued tr = m.writes.map Prod.fst)

/-- A loop over clients does nothing but write. -/
theorem only_forEach_tolerate (cl : Client) (coe : Bool) (f : Model.Client → Write)
    (cs : List Model.Client) (s : Origin) : (Act.forEach cs (fun c =>
      Act.tolerate coe (Act.deref c.name >>= fun _ => cl.send (f c))) s).Only
        fun e => ∃ p w, e = .write p w := by
  refine Act.only_forEach (fun c s => Act.only_tolerate ?_) cs s
  cases c.name with
  | none => trivial
  | some name => exact Client.only_send ⟨_, _, rfl⟩

theorem consumes_of_merge (ac : ActionContext) (hm : clients.merge other o₁ o₂ = some m) :
    Consumes ac clients other o₁ o₂ m := by
  intro org tr out horg h
  have hk := Client.runs_doGet_cons.mp h
  rw [fromOrigin_bind_apply horg] at hk
  have hk := Client.runs_rangeMap_cons.mp (Client.runs_rangeMap_cons.mp hk)
  simp only [hm, Act.deref_some, Act.pure_bind, Act.modify_bind_apply] at hk
  let sc : Script :=
    { created := .ok (), doc := fun q _ => Server.doc {} q, order := fun _ => o₁ }
  have hscript : Always (Scripted sc) [] tr := by
    refine always_of_forall fun x hx hist => ?_
    have hloop := fun f cs => only_forEach_tolerate ac.client ac.cfg.continueOnError f cs
    obtain ⟨p, w, hw⟩ := hk.of_only (Act.only_bind (hloop .clientsDelete _ _) fun _ _ =>
      Act.only_bind (hloop .clientsAdd _ _) fun _ _ =>
        hloop (fun c => .clientsUpdate { name := c.name, data := some c }) _ _) x hx
    obtain ⟨e, r⟩ := x
    subst hw
    trivial
  have hissues : Issues sc _ { org with clients := some m.other } (m.writes.map Prod.fst) false :=
    issues_writes ac hm
  obtain ⟨-, ⟨hall, -⟩ | ⟨hpre, e, herr⟩⟩ := hissues _ _ _ hk hscript
  · exact ⟨hall ▸ List.prefix_refl _, fun _ => hall⟩
  · refine ⟨hpre, ?_⟩
    rintro ⟨org', rfl⟩
    simp at herr

/-- Merging clients with different names splits the names of both sides up, and the action
carries the three parts out. -/
theorem Model.Clients.merge_partition (clients other : Model.Clients) (o₁ o₂ : MapOrder String)
    (hclients : clients.Named) (hother : other.Named) :
    ∃ m, clients.merge other o₁ o₂ = some m ∧ clients.Partition other m ∧
      ∀ ac, Consumes ac clients other o₁ o₂ m := by
  obtain ⟨m, hm⟩ := Option.isSome_iff_exists.mp <| merge_isSome o₁ o₂ fun c hc =>
    (List.mem_append.mp hc).elim (hclients.names c) (hother.names c)
  exact ⟨m, hm, partition_of_merge hclients hother hm, fun ac => consumes_of_merge ac hm⟩

/-- One client is new, one is gone, and one differs in more than the order of a list. -/
theorem Model.Clients.merge_partition_sample :
    let clients : Model.Clients := ⟨some [{ name := some "a" }, { name := some "b" }]⟩
    let other : Model.Clients :=
      ⟨some [{ name := some "b", ids := some ["1"] }, { name := some "c" }]⟩
    ∃ m, clients.merge other .stored .reversed = some m ∧ clients.Partition other m ∧
      ∀ ac, Consumes ac clients other .stored .reversed m :=
  Model.Clients.merge_partition _ _ _ _ ⟨by decide, by decide⟩ ⟨by decide, by decide⟩

end Action

end AghSync
