import AghSync.FilterMove
import AghSync.LeaseSync
import AghSync.RewriteSync
import AghSync.Tasks

/-!
# What the plans of lists make of an instance

A filter list holds what becomes of the filters of the origin (`filters_filtersPlan`), and the
rules and the toggles are one decision (`settings_filtersPlan`). Of the rewrites those stay that
the merge keeps, once for each key, and the leases go by their MAC.
-/

open Interaction Interaction.Prog KeyedMap

namespace AghSync

open Model

namespace Instance

/-- Writes that concern the filters, the rewrites or the leases change nothing else. -/
theorem foldl_apply_server {α : Type} {f : α → Write}
    (hf : ∀ a (i : Instance), i.apply (f a) = { i with toServer := i.toServer.apply (f a) }) :
    ∀ (as : List α) (i : Instance), (as.map f).foldl apply i =
      { i with toServer := as.foldl (fun sv a => sv.apply (f a)) i.toServer }
  | [], _ => rfl
  | a :: as, i => by
    rw [List.map_cons, List.foldl_cons, foldl_apply_server hf, List.foldl_cons, hf]

/-! ## Filters -/

section Filters

variable {i : Instance} {g : Server} {whitelist w : Bool} {order : Bool → MapOrder String}

theorem foldl_filterTypePlan (i : Instance) (other this : Option (List Filter)) (whitelist : Bool)
    (order : MapOrder String) : (filterTypePlan other this whitelist order).foldl apply i =
      { i with toServer := i.toServer.merged whitelist (mergeFilters this other order) } := by
  obtain ⟨rest, hplan, hrest⟩ := filterTypePlan_eq this other whitelist order
  rw [hplan, List.foldl_append, List.foldl_append, List.foldl_append, lists_refresh hrest,
    foldl_apply_server fun _ _ => rfl, foldl_apply_server fun _ _ => rfl,
    foldl_apply_server fun _ _ => rfl]
  rfl

end Filters

end Instance

namespace Server

theorem filters_mapFilters_of_ne {whitelist w : Bool} (h : w ≠ whitelist) (sv : Server)
    (f : List Filter → List Filter) : (sv.mapFilters whitelist f).filters w = sv.filters w := by
  cases whitelist <;> cases w <;> first | rfl | exact absurd rfl h

theorem filters_foldl_of_ne {α : Type} {f : α → Write} {w : Bool}
    (hf : ∀ (sv : Server) a, (sv.apply (f a)).filters w = sv.filters w) (as : List α)
    (sv : Server) : (as.foldl (fun sv a => sv.apply (f a)) sv).filters w = sv.filters w := by
  induction as generalizing sv with
  | nil => rfl
  | cons a as ih => rw [List.foldl_cons, ih, hf]

/-- The requests for one list leave the other alone. -/
theorem filters_merged_of_ne {whitelist w : Bool} (h : w ≠ whitelist) (sv : Server)
    (m : FilterMerge) : (sv.merged whitelist m).filters w = sv.filters w := by
  have hremove : ∀ (sv : Server) f, (sv.apply (removeUrl whitelist f)).filters w = sv.filters w :=
    fun sv f => filters_mapFilters_of_ne h sv _
  have hadd : ∀ (sv : Server) f, (sv.apply (addUrl whitelist f)).filters w = sv.filters w :=
    fun sv f => filters_mapFilters_of_ne h sv _
  have hupdate : ∀ (sv : Server) f, (sv.apply (updateUrl whitelist f)).filters w = sv.filters w :=
    fun sv f => filters_mapFilters_of_ne h sv _
  rw [merged, filters_foldl_of_ne hupdate, filters_foldl_of_ne hadd, filters_foldl_of_ne hremove]

end Server

namespace Instance

section Filters

variable {i g : Instance} {order : Bool → MapOrder String}

/-- Setting the rules or the toggles leaves the lists. -/
theorem filters_settingsPlan (o rf : FilterStatus) (w : Bool) :
    ((settingsPlan o rf).foldl apply i).filters w = i.filters w := by
  unfold settingsPlan
  split_ifs
  · cases w <;> rfl
  · cases o.enabled <;> cases o.interval <;> cases w <;> rfl
  · rfl

/-- The list that the plan merges is the replica's. -/
theorem filters_filtersPlan (i g : Instance) (order : Bool → MapOrder String) (w : Bool) :
    ((filtersPlan i.filtering (some g.filtering) order).foldl apply i).filters w =
      Server.mergedList (i.filters w)
        (mergeFilters (i.filterList w) (g.filterList w) (order w)) := by
  simp only [filtersPlan, List.foldl_append, filters_settingsPlan, foldl_filterTypePlan]
  cases w with
  | false => rw [Server.filters_merged_of_ne (by decide), Server.filters_merged]; rfl
  | true => rw [Server.filters_merged, Server.filters_merged_of_ne (by decide)]; rfl

/-- The rules are set if they print differently, else the toggles. -/
theorem settings_filtersPlan (he : g.filtering.enabled.isSome) (hi : g.filtering.interval.isSome) :
    ((filtersPlan i.filtering (some g.filtering) order).foldl apply i).settings =
      if Utils.ptrToString g.filtering.userRules ≠ Utils.ptrToString i.filtering.userRules then
        (g.filtering.userRules, i.filtering.enabled, i.filtering.interval)
      else (i.filtering.userRules, g.filtering.enabled, g.filtering.interval) := by
  obtain ⟨e, henabled⟩ := Option.isSome_iff_exists.mp he
  obtain ⟨n, hinterval⟩ := Option.isSome_iff_exists.mp hi
  simp only [filtersPlan, List.foldl_append, foldl_filterTypePlan]
  set sv := (i.toServer.merged false _).merged true _ with hsv
  have hkept : sv.settings =
      (i.filtering.userRules, i.filtering.enabled, i.filtering.interval) := by
    rw [hsv, Server.settings_merged, Server.settings_merged, Server.settings]
  unfold settingsPlan
  split_ifs with hrules htoggles
  · exact congrArg (Prod.mk g.filtering.userRules) (congrArg Prod.snd hkept)
  · rw [henabled, hinterval]
    exact congrArg (fun r => (r, some e, some n)) (congrArg Prod.fst hkept)
  · have hequal : g.filtering.enabled = i.filtering.enabled ∧
        g.filtering.interval = i.filtering.interval := by
      simpa [not_or] using htoggles
    rw [hequal.1, hequal.2]
    exact hkept

/-- Lists with the same filters need nothing. -/
theorem filterTypePlan_eq_nil_iff {this other : Option (List Filter)} {whitelist : Bool}
    {order : MapOrder String} (hthis : ((this.getD []).map Filter.url).Nodup)
    (hother : ((other.getD []).map Filter.url).Nodup) :
    filterTypePlan other this whitelist order = [] ↔ (this.getD []).Perm (other.getD []) := by
  have hnil : filterTypePlan other this whitelist order = [] ↔
      (mergeFilters this other order).removes = [] ∧ (mergeFilters this other order).adds = [] ∧
        (mergeFilters this other order).updates = [] := by
    simp only [filterTypePlan, List.append_eq_nil_iff, List.map_eq_nil_iff, ite_eq_right_iff,
      reduceCtorEq, imp_false, not_or, gt_iff_lt, not_lt, Nat.le_zero, List.length_eq_zero_iff]
    tauto
  rw [hnil, List.perm_ext_iff_of_nodup hthis.of_map hother.of_map]
  simp only [List.eq_nil_iff_forall_not_mem, mem_removes hthis, mem_adds hother,
    mem_updates hthis hother, not_and, not_not, not_exists, Bool.not_eq_false]
  constructor
  · rintro ⟨hremoves, hadds, hupdates⟩ f
    constructor
    · intro hf
      obtain ⟨f', hf', hurl⟩ := List.mem_map.mp (hremoves f hf)
      rwa [Filter.equals_iff.mp (hupdates f' hf' f hf hurl.symm)]
    · intro hf
      obtain ⟨f', hf', hurl⟩ := List.mem_map.mp (hadds f hf)
      rwa [← Filter.equals_iff.mp (hupdates f hf f' hf' hurl)]
  · intro hsame
    refine ⟨fun f hf => List.mem_map_of_mem ((hsame f).mp hf),
      fun f hf => List.mem_map_of_mem ((hsame f).mpr hf), fun f hf f' hf' hurl => ?_⟩
    rw [Filter.equals_iff]
    exact List.inj_on_of_nodup_map hthis hf' ((hsame f).mpr hf) hurl

theorem settingsPlan_eq_nil_iff {o rf : FilterStatus} (he : o.enabled.isSome)
    (hi : o.interval.isSome) : settingsPlan o rf = [] ↔
      Utils.ptrToString o.userRules = Utils.ptrToString rf.userRules ∧
        o.enabled = rf.enabled ∧ o.interval = rf.interval := by
  obtain ⟨e, henabled⟩ := Option.isSome_iff_exists.mp he
  obtain ⟨n, hinterval⟩ := Option.isSome_iff_exists.mp hi
  unfold settingsPlan
  split_ifs with hrules htoggles
  · simp [hrules]
  · simp only [henabled, hinterval, Utils.ptrEquals_eq_true, Bool.or_eq_true,
      Bool.not_eq_true', Bool.eq_false_iff, ne_eq] at htoggles ⊢
    simp only [List.cons_ne_nil, false_iff, not_and]
    exact fun _ h => htoggles.resolve_left (not_not.mpr h)
  · simp_all

end Filters

end Instance

/-! ## Rewrites -/

namespace Model.RewriteMerge

section Loops

variable {l os : List RewriteEntry} {m : RewriteMerge} {e : RewriteEntry} {k : String}

/-- An entry of the replica is removed, or kept under its key. -/
theorem mem_removes_or_lookup (l : List RewriteEntry) :
    ∀ e ∈ l, e ∈ (l.foldl this {}).removes ∨ (l.foldl this {}).current.lookup e.key = some e := by
  induction l using List.reverseRecOn with
  | nil => simp
  | append_singleton l x ih =>
    rw [List.foldl_append, List.foldl_cons, List.foldl_nil, this]
    intro e he
    split_ifs with hold
    · rcases List.mem_append.mp he with he | he
      · exact (ih e he).imp_left (List.mem_append_left _)
      · exact Or.inl (List.mem_append_right _ he)
    · rcases List.mem_append.mp he with he | he
      · refine (ih e he).imp_right fun hlookup => ?_
        have hne : e.key ≠ x.key := fun hk =>
          hold (((listed_foldl l).processed _).mpr (hk ▸ List.mem_map_of_mem he))
        rwa [AList.lookup_insert_ne hne]
      · obtain rfl := List.mem_singleton.mp he
        exact Or.inr (AList.lookup_insert _)

/-- The entries that stay have different keys. -/
theorem nodup_kept (l : List RewriteEntry) : ((l.filter fun e =>
    e.pair ∉ (l.foldl this {}).removes.map RewriteEntry.pair).map RewriteEntry.key).Nodup := by
  induction l using List.reverseRecOn with
  | nil => simp
  | append_singleton l x ih =>
    rw [List.foldl_append, List.foldl_cons, List.foldl_nil, this]
    split_ifs with hold
    · refine ih.sublist (List.Sublist.map _ ?_)
      rw [List.filter_append, List.filter_singleton]
      simp only [List.map_append, List.map_cons, List.map_nil, List.mem_append, List.mem_singleton,
        or_true, not_true_eq_false, decide_false, cond_false, List.append_nil, not_or]
      refine List.monotone_filter_right _ fun e he => ?_
      rw [decide_eq_true_eq] at he ⊢
      exact he.1
    · rw [List.filter_append, List.map_append]
      refine List.Nodup.append ih ?_ ?_
      · exact (List.nodup_singleton x.key).sublist (List.filter_sublist.map RewriteEntry.key)
      · intro k hk hk'
        obtain ⟨e, he, rfl⟩ := List.mem_map.mp hk
        obtain ⟨y, hy, hkey⟩ := List.mem_map.mp hk'
        obtain rfl := List.mem_singleton.mp (List.mem_of_mem_filter hy)
        refine hold (((listed_foldl l).processed _).mpr ?_)
        rw [hkey]
        exact List.mem_map_of_mem (List.mem_of_mem_filter he)

/-- Going through the origin's entries takes out what has one of their keys, and nothing else. -/
theorem lookup_foldl_other {k : String} : ∀ {os : List RewriteEntry} {m : RewriteMerge},
    k ∉ os.map RewriteEntry.key → (os.foldl other m).current.lookup k = m.current.lookup k
  | [], _, _ => rfl
  | e :: os, m, hk => by
    obtain ⟨hne, hk⟩ := not_or.mp (List.mem_cons.not.mp hk)
    rw [List.foldl_cons, lookup_foldl_other hk, other]
    split_ifs
    · exact AList.lookup_erase_ne hne
    · rfl
    · rfl

/-- No key is added twice. -/
theorem nodup_adds : ∀ {os : List RewriteEntry} {m : RewriteMerge},
    (m.adds.map RewriteEntry.key).Nodup → (∀ e ∈ m.adds, e.key ∈ m.processed) →
      ((os.foldl other m).adds.map RewriteEntry.key).Nodup
  | [], _, h, _ => h
  | e :: os, m, h, hp => by
    rw [List.foldl_cons, other]
    split_ifs with hcurrent hold
    · exact nodup_adds h hp
    · exact nodup_adds h hp
    · refine nodup_adds ?_ fun x hx => ?_
      · rw [List.map_append]
        refine List.Nodup.append h (List.nodup_singleton _) ?_
        rintro k hk hk'
        obtain rfl := List.mem_singleton.mp hk'
        obtain ⟨x, hx, hkey⟩ := List.mem_map.mp hk
        exact hold (hkey ▸ hp x hx)
      · rw [AList.mem_insert]
        rcases List.mem_append.mp hx with hx | hx
        · exact Or.inr (hp x hx)
        · exact Or.inl (congrArg RewriteEntry.key (List.mem_singleton.mp hx))

end Loops

end Model.RewriteMerge

section Rewrites

open RewriteMerge

variable {rwe os : List RewriteEntry} {order : MapOrder String} {e : RewriteEntry} {k : String}

theorem removes_mergeRewrites (rwe os : List RewriteEntry) (order : MapOrder String) :
    (mergeRewrites rwe os order).removes = (rwe.foldl RewriteMerge.this {}).removes ++
      (os.foldl RewriteMerge.other (rwe.foldl RewriteMerge.this {})).current.values order := by
  rw [mergeRewrites, (matched_foldl (listed_foldl rwe) os).removes]

/-- The keys that are removed : those the replica has several times, or the origin has not. -/
theorem key_mem_removes : k ∈ (mergeRewrites rwe os order).removes.map RewriteEntry.key ↔
    2 ≤ (rwe.map RewriteEntry.key).count k ∨
      k ∈ rwe.map RewriteEntry.key ∧ k ∉ os.map RewriteEntry.key := by
  have hl := listed_foldl rwe
  have hm := matched_foldl hl os
  rw [removes_mergeRewrites, List.map_append, List.mem_append, hl.removes, ← hm.current]
  refine or_congr_right ?_
  rw [List.mem_map, ← AList.lookup_isSome, Option.isSome_iff_exists]
  constructor
  · rintro ⟨e, he, rfl⟩
    obtain ⟨k, hk⟩ := mem_values.mp he
    obtain ⟨-, rfl⟩ := hm.kept k e hk
    exact ⟨e, hk⟩
  · rintro ⟨e, he⟩
    exact ⟨e, mem_values.mpr ⟨k, he⟩, (hm.kept k e he).2⟩

/-- The keys that are added : those the replica has not. -/
theorem key_mem_adds : k ∈ (mergeRewrites rwe os order).adds.map RewriteEntry.key ↔
    k ∈ os.map RewriteEntry.key ∧ k ∉ rwe.map RewriteEntry.key :=
  (matched_foldl (listed_foldl rwe) os).adds k

theorem nodup_adds_mergeRewrites (rwe os : List RewriteEntry) (order : MapOrder String) :
    ((mergeRewrites rwe os order).adds.map RewriteEntry.key).Nodup := by
  have hadds : (rwe.foldl RewriteMerge.this {}).adds = [] := (listed_foldl rwe).adds
  exact nodup_adds (by simp [hadds]) (by simp [hadds])

/-- The rewrites after the requests of a merge. -/
def rewritten (rwe os : List RewriteEntry) (order : MapOrder String) : List RewriteEntry :=
  let m := mergeRewrites rwe os order
  rwe.filter (fun e => e.pair ∉ m.removes.map RewriteEntry.pair) ++ m.adds

theorem rewrites_rewritesPlan (i : Instance) (os : List RewriteEntry) (order : MapOrder String) :
    ((rewritesPlan (some i.rewrites) (some os) order).foldl Instance.apply i).rewrites =
      rewritten i.rewrites os order := by
  simp only [rewritesPlan, List.foldl_append]
  rw [Instance.foldl_apply_server fun _ _ => rfl, Instance.foldl_apply_server fun _ _ => rfl]
  exact (Server.rewrites_adds _ _).trans (congrArg (· ++ _) (Server.rewrites_deletes _ _))

/-- What stays has a key of the origin, and no other with its key. -/
theorem kept_mergeRewrites (rwe os : List RewriteEntry) (order : MapOrder String) :
    ((rwe.filter fun e => e.pair ∉
        (mergeRewrites rwe os order).removes.map RewriteEntry.pair).map RewriteEntry.key).Nodup ∧
      ∀ e ∈ rwe, e.pair ∉ (mergeRewrites rwe os order).removes.map RewriteEntry.pair →
        e.key ∈ os.map RewriteEntry.key := by
  rw [removes_mergeRewrites]
  constructor
  · refine (nodup_kept rwe).sublist (List.Sublist.map _ (List.monotone_filter_right _ ?_))
    intro e he
    rw [decide_eq_true_eq] at he ⊢
    exact fun hmem => he (by simp only [List.map_append, List.mem_append, hmem, true_or])
  · intro e he hkept
    by_contra hno
    refine hkept (List.mem_map_of_mem (List.mem_append.mpr ?_))
    refine (mem_removes_or_lookup rwe e he).imp_right fun hlookup => ?_
    exact mem_values.mpr ⟨e.key, (lookup_foldl_other hno).trans hlookup⟩

/-- After a pass each key is there once at most, and is one of the origin's. -/
theorem keys_rewritten (rwe os : List RewriteEntry) (order : MapOrder String) :
    ((rewritten rwe os order).map RewriteEntry.key).Nodup ∧
      ∀ k ∈ (rewritten rwe os order).map RewriteEntry.key, k ∈ os.map RewriteEntry.key := by
  obtain ⟨hnodup, hkeys⟩ := kept_mergeRewrites rwe os order
  rw [rewritten, List.map_append]
  refine ⟨hnodup.append (nodup_adds_mergeRewrites rwe os order) ?_, fun k hk => ?_⟩
  · intro k hk hk'
    obtain ⟨e, he, rfl⟩ := List.mem_map.mp hk
    exact (key_mem_adds.mp hk').2 (List.mem_map_of_mem (List.mem_of_mem_filter he))
  · rcases List.mem_append.mp hk with hk | hk
    · obtain ⟨e, he, rfl⟩ := List.mem_map.mp hk
      obtain ⟨he, hkept⟩ := List.mem_filter.mp he
      exact hkeys e he (by simpa using hkept)
    · exact (key_mem_adds.mp hk).1

/-- With different keys, all of them the origin's, nothing is removed. -/
theorem removes_eq_nil (hnodup : (rwe.map RewriteEntry.key).Nodup)
    (hsub : ∀ k ∈ rwe.map RewriteEntry.key, k ∈ os.map RewriteEntry.key) :
    (mergeRewrites rwe os order).removes = [] := by
  refine List.eq_nil_iff_forall_not_mem.mpr fun e he => ?_
  rcases key_mem_removes.mp (List.mem_map_of_mem he) with hcount | ⟨hk, hno⟩
  · exact absurd (List.nodup_iff_count_le_one.mp hnodup e.key) (by omega)
  · exact hno (hsub _ hk)

/-- From there one more pass adds the keys that are missing. -/
theorem mem_keys_rewritten (hnodup : (rwe.map RewriteEntry.key).Nodup)
    (hsub : ∀ k ∈ rwe.map RewriteEntry.key, k ∈ os.map RewriteEntry.key) :
    k ∈ (rewritten rwe os order).map RewriteEntry.key ↔ k ∈ os.map RewriteEntry.key := by
  rw [rewritten, removes_eq_nil hnodup hsub, List.map_append, List.mem_append, key_mem_adds]
  simp only [List.map_nil, List.not_mem_nil, not_false_eq_true, decide_true, List.filter_true]
  have hk := hsub k
  tauto

/-- With the same keys on both sides nothing is to be done. -/
theorem rewritesPlan_eq_nil_iff : rewritesPlan (some rwe) (some os) order = [] ↔
    (rwe.map RewriteEntry.key).Nodup ∧
      ∀ k, k ∈ rwe.map RewriteEntry.key ↔ k ∈ os.map RewriteEntry.key := by
  simp only [rewritesPlan, List.append_eq_nil_iff, List.map_eq_nil_iff]
  constructor
  · rintro ⟨hremoves, hadds⟩
    have hremoved : ∀ k, ¬(2 ≤ (rwe.map RewriteEntry.key).count k ∨
        k ∈ rwe.map RewriteEntry.key ∧ k ∉ os.map RewriteEntry.key) := by
      intro k hk
      have hmem := (@key_mem_removes rwe os order k).mpr hk
      simp [hremoves] at hmem
    have hadded : ∀ k, ¬(k ∈ os.map RewriteEntry.key ∧ k ∉ rwe.map RewriteEntry.key) := by
      intro k hk
      have hmem := (@key_mem_adds rwe os order k).mpr hk
      simp [hadds] at hmem
    refine ⟨List.nodup_iff_count_le_one.mpr fun k => ?_, fun k => ⟨fun hk => ?_, fun hk => ?_⟩⟩
    · have hcount := (not_or.mp (hremoved k)).1
      omega
    · by_contra hno
      exact hremoved k (Or.inr ⟨hk, hno⟩)
    · by_contra hno
      exact hadded k ⟨hk, hno⟩
  · rintro ⟨hnodup, hsame⟩
    refine ⟨removes_eq_nil hnodup fun k => (hsame k).mp, ?_⟩
    refine List.eq_nil_iff_forall_not_mem.mpr fun e he => ?_
    obtain ⟨hk, hno⟩ := key_mem_adds.mp (List.mem_map_of_mem he)
    exact hno ((hsame _).mpr hk)

end Rewrites

/-! ## Static leases -/

section Leases

variable {i : Instance} {this other : Option (List DhcpStaticLease)} {order : MapOrder String}

theorem leases_leasesPlan (i : Instance) (other : Option (List DhcpStaticLease))
    (order : MapOrder String) :
    ((leasesPlan i.dhcp.staticLeases other order).foldl Instance.apply i).leases =
      i.leases.filter (· ∉ (mergeDhcpStaticLeases i.dhcp.staticLeases other order).removes) ++
        (mergeDhcpStaticLeases i.dhcp.staticLeases other order).adds := by
  simp only [leasesPlan, List.foldl_append]
  rw [Instance.foldl_apply_server fun _ _ => rfl, Instance.foldl_apply_server fun _ _ => rfl]
  exact (Server.leases_adds _ _).trans (congrArg (· ++ _) (Server.leases_removes _ _))

/-- After a pass the replica has the origin's MACs. -/
theorem macs_leasesPlan (hi : (i.leases.map DhcpStaticLease.mac).Nodup)
    (hother : ((other.getD []).map DhcpStaticLease.mac).Nodup) :
    let ls := ((leasesPlan i.dhcp.staticLeases other order).foldl Instance.apply i).leases
    (ls.map DhcpStaticLease.mac).Nodup ∧ ∀ mac, mac ∈ ls.map DhcpStaticLease.mac ↔
      mac ∈ (other.getD []).map DhcpStaticLease.mac := by
  intro ls
  have hls : ls = i.leases.filter (· ∉ (mergeDhcpStaticLeases i.dhcp.staticLeases other
      order).removes) ++ (mergeDhcpStaticLeases i.dhcp.staticLeases other order).adds :=
    leases_leasesPlan i other order
  have hadds := fun l => @Server.mem_lease_adds i.dhcp.staticLeases other order l hother
  have hremoves := fun l => @Server.mem_lease_removes i.dhcp.staticLeases other order l hi
  rw [hls, List.map_append]
  refine ⟨(hi.sublist (List.filter_sublist.map _)).append ?_ ?_, fun mac => ?_⟩
  · exact hother.sublist ((misses_sublist _ _).map _)
  · intro mac hmac hmac'
    obtain ⟨l, hl, rfl⟩ := List.mem_map.mp hmac
    obtain ⟨l', hl', hsame⟩ := List.mem_map.mp hmac'
    exact ((hadds l').mp hl').2 (hsame ▸ List.mem_map_of_mem (List.mem_of_mem_filter hl))
  · rw [List.mem_append]
    constructor
    · rintro (hmac | hmac)
      · obtain ⟨l, hl, rfl⟩ := List.mem_map.mp hmac
        obtain ⟨hl, hkept⟩ := List.mem_filter.mp hl
        by_contra hno
        exact of_decide_eq_true hkept ((hremoves l).mpr ⟨hl, hno⟩)
      · obtain ⟨l, hl, rfl⟩ := List.mem_map.mp hmac
        exact List.mem_map_of_mem ((hadds l).mp hl).1
    · intro hmac
      by_cases hboth : mac ∈ i.leases.map DhcpStaticLease.mac
      · obtain ⟨l, hl, rfl⟩ := List.mem_map.mp hboth
        refine Or.inl (List.mem_map_of_mem (List.mem_filter.mpr ⟨hl, decide_eq_true ?_⟩))
        exact fun hremoved => ((hremoves l).mp hremoved).2 hmac
      · obtain ⟨l, hl, rfl⟩ := List.mem_map.mp hmac
        exact Or.inr (List.mem_map_of_mem ((hadds l).mpr ⟨hl, hboth⟩))

/-- With the same MACs nothing is to be done. -/
theorem leasesPlan_eq_nil_iff (hthis : ((this.getD []).map DhcpStaticLease.mac).Nodup)
    (hother : ((other.getD []).map DhcpStaticLease.mac).Nodup) :
    leasesPlan this other order = [] ↔ ∀ mac, mac ∈ (this.getD []).map DhcpStaticLease.mac ↔
      mac ∈ (other.getD []).map DhcpStaticLease.mac := by
  rw [leasesPlan, List.append_eq_nil_iff, List.map_eq_nil_iff, List.map_eq_nil_iff]
  simp only [List.eq_nil_iff_forall_not_mem, Server.mem_lease_adds hother,
    Server.mem_lease_removes hthis, not_and, not_not]
  constructor
  · rintro ⟨hremoves, hadds⟩ mac
    constructor
    · intro hmac
      obtain ⟨l, hl, rfl⟩ := List.mem_map.mp hmac
      exact hremoves l hl
    · intro hmac
      obtain ⟨l, hl, rfl⟩ := List.mem_map.mp hmac
      exact hadds l hl
  · intro hsame
    exact ⟨fun l hl => (hsame _).mp (List.mem_map_of_mem hl),
      fun l hl => (hsame _).mpr (List.mem_map_of_mem hl)⟩

end Leases

/-! ## Clients -/

namespace Model.Client

/-- A comparison does not see how lists are ordered. -/
theorem alike_iff_of_sort_eq {c c' d d' : Client} (hc : c.sort = c'.sort) (hd : d.sort = d'.sort) :
    c.Alike d ↔ c'.Alike d' := by
  rw [← equals_iff, ← equals_iff]
  unfold equals
  rw [hc, hd]

theorem Alike.refl (c : Client) : c.Alike c :=
  equals_iff.mp (jsonEquals_self _)

/-- The updates, applied to one client. -/
def updatedBy (us : List Client) (d : Client) : Client :=
  us.foldl (fun d u => if d.name = u.name then u else d) d

theorem name_updatedBy (us : List Client) (d : Client) : (d.updatedBy us).name = d.name := by
  induction us generalizing d with
  | nil => rfl
  | cons u us ih =>
    have hstep : (if d.name = u.name then u else d).name = d.name := by
      split_ifs with hname
      · exact hname.symm
      · rfl
    exact (ih _).trans hstep

theorem updatedBy_of_notMem {d : Client} : ∀ {us : List Client}, (∀ u ∈ us, d.name ≠ u.name) →
    d.updatedBy us = d
  | [], _ => rfl
  | u :: us, h => by
    have hstep : d.updatedBy (u :: us) = (if d.name = u.name then u else d).updatedBy us := rfl
    rw [hstep, if_neg (h u (by simp)), updatedBy_of_notMem fun v hv => h v (by simp [hv])]

/-- A client takes over the update with its name. -/
theorem updatedBy_of_mem {d u : Client} (hname : d.name = u.name) : ∀ {us : List Client},
    (us.map Client.name).Nodup → u ∈ us → d.updatedBy us = u
  | v :: us, hnodup, hu => by
    obtain ⟨hv, hnodup⟩ := List.nodup_cons.mp hnodup
    have hstep : d.updatedBy (v :: us) = (if d.name = v.name then v else d).updatedBy us := rfl
    rcases List.mem_cons.mp hu with rfl | hu
    · rw [hstep, if_pos hname]
      exact updatedBy_of_notMem fun w hw he => hv (he ▸ List.mem_map_of_mem hw)
    · have hne : d.name ≠ v.name := fun he =>
        hv (he ▸ hname ▸ List.mem_map_of_mem hu)
      rw [hstep, if_neg hne, updatedBy_of_mem hname hnodup hu]

end Model.Client

section Clients

variable {i : Instance} {m : ClientsMerge}

theorem clients_deletes (cs : List Model.Client) (i : Instance) :
    ((cs.map Write.clientsDelete).foldl Instance.apply i).clients =
      i.clients.filter fun d => d.name ∉ cs.map Client.name := by
  induction cs generalizing i with
  | nil => simp
  | cons c cs ih =>
    have hone : (i.apply (.clientsDelete c)).clients = i.clients.filter fun d => d.name ≠ c.name :=
      rfl
    rw [List.map_cons, List.foldl_cons, ih, hone, List.filter_filter]
    refine List.filter_congr fun d _ => ?_
    by_cases h : d.name = c.name <;> simp [h]

theorem clients_adds (cs : List Model.Client) (i : Instance) :
    ((cs.map Write.clientsAdd).foldl Instance.apply i).clients = i.clients ++ cs := by
  induction cs generalizing i with
  | nil => simp
  | cons c cs ih =>
    have hone : (i.apply (.clientsAdd c)).clients = i.clients ++ [c] := rfl
    rw [List.map_cons, List.foldl_cons, ih, hone, List.append_assoc, List.singleton_append]

theorem clients_updates (cs : List Model.Client) (i : Instance) :
    ((cs.map fun c => Write.clientsUpdate { name := c.name, data := some c }).foldl
      Instance.apply i).clients = i.clients.map (Client.updatedBy cs) := by
  induction cs generalizing i with
  | nil => exact (List.map_id _).symm
  | cons c cs ih =>
    rw [List.map_cons, List.foldl_cons, ih]
    exact List.map_map

/-- The clients after the requests of a merge. -/
theorem clients_writes (i : Instance) (m : ClientsMerge) :
    ((m.writes.map Prod.fst).foldl Instance.apply i).clients =
      ((i.clients.filter fun d => d.name ∉ m.removes.map Client.name) ++ m.adds).map
        (Client.updatedBy m.updates) := by
  rw [← clients_deletes, ← clients_adds, ← clients_updates, ← List.foldl_append,
    ← List.foldl_append]
  simp only [ClientsMerge.writes, List.map_append, List.map_map, Function.comp_def]

theorem mem_map_name_iff {d : Model.Client} {cs : List Model.Client} (hd : d.name.isSome)
    (hcs : ∀ c ∈ cs, c.name.isSome) : d.name ∈ cs.map Client.name ↔ d.key ∈ cs.map Client.key := by
  simp only [List.mem_map]
  constructor
  · rintro ⟨c, hc, hname⟩
    exact ⟨c, hc, (Client.name_eq_iff (hcs c hc) hd).mp hname⟩
  · rintro ⟨c, hc, hkey⟩
    exact ⟨c, hc, (Client.name_eq_iff (hcs c hc) hd).mpr hkey⟩

theorem nodup_map_name {cs : List Model.Client} (hcs : ∀ c ∈ cs, c.name.isSome)
    (h : (cs.map Client.key).Nodup) : (cs.map Client.name).Nodup := by
  refine List.pairwise_map.mpr ((List.pairwise_map.mp h).imp_of_mem fun hc hd hne hname => ?_)
  exact hne ((Client.name_eq_iff (hcs _ hc) (hcs _ hd)).mp hname)

variable {os : List Model.Client} {o₁ o₂ : MapOrder String}

/-- The clients of both sides are the same, and alike. -/
structure Model.Clients.Mirror (cs os : List Model.Client) : Prop where
  named : (⟨some cs⟩ : Clients).Named
  keys : ∀ k, k ∈ cs.map Client.key ↔ k ∈ os.map Client.key
  alike : ∀ c ∈ os, ∀ d ∈ cs, d.key = c.key → c.Alike d

/-- After a pass the replica has the origin's clients. -/
theorem mirror_writes (hcs : (⟨some i.clients⟩ : Clients).Named) (hos : (⟨some os⟩ : Clients).Named)
    (hzone : ∀ c ∈ os, c.KeepsTimeZone)
    (hm : (⟨some i.clients⟩ : Clients).merge ⟨some os⟩ o₁ o₂ = some m) :
    Clients.Mirror ((m.writes.map Prod.fst).foldl Instance.apply i).clients os := by
  have hp := Clients.partition_of_merge hcs hos hm
  have hkeyname : ∀ d : Model.Client, (d.updatedBy m.updates).key = d.key := fun d =>
    congrArg (Option.getD · "") (Client.name_updatedBy m.updates d)
  have hkeys : Client.key ∘ Client.updatedBy m.updates = Client.key := funext hkeyname
  have hremoved : ∀ d ∈ i.clients, d.name ∈ m.removes.map Client.name ↔
      d.key ∉ os.map Client.key := by
    intro d hd
    rw [mem_map_name_iff (hcs.names d hd) fun c hc => hcs.names c (hp.removed c hc), hp.removes]
    exact and_iff_right (List.mem_map_of_mem hd)
  have hkept : ∀ d, d ∈ (i.clients.filter fun d => d.name ∉ m.removes.map Client.name) ↔
      d ∈ i.clients ∧ d.key ∈ os.map Client.key := by
    intro d
    rw [List.mem_filter, decide_eq_true_eq]
    exact and_congr_right fun hd => (not_congr (hremoved d hd)).trans not_not
  have hparts := List.nodup_append'.mp hp.nodup
  obtain ⟨hadds, hupdates, hfresh⟩ := List.nodup_append'.mp hparts.1
  have hupdated : (m.updates.map Client.name).Nodup :=
    nodup_map_name (fun u hu => Clients.names_of_merge hm u (by simp [hu])) hupdates
  have hsame : ∀ d : Model.Client, d.name.isSome → d.key ∉ m.updates.map Client.key →
      d.updatedBy m.updates = d := by
    refine fun d hd hkey => Client.updatedBy_of_notMem fun u hu hname => hkey ?_
    rw [(Client.name_eq_iff hd (Clients.names_of_merge hm u (by simp [hu]))).mp hname]
    exact List.mem_map_of_mem hu
  rw [clients_writes]
  refine ⟨⟨fun c hc => ?_, ?_⟩, fun k => ?_, fun c hc d hd hkey => ?_⟩
  · obtain ⟨e, he, rfl⟩ := List.mem_map.mp hc
    rw [Client.name_updatedBy]
    rcases List.mem_append.mp he with he | he
    · exact hcs.names e ((hkept e).mp he).1
    · exact hos.names e (hp.added e he)
  · rw [Option.getD_some, List.map_map, hkeys, List.map_append]
    refine List.Nodup.append (hcs.keys.sublist (List.filter_sublist.map _)) hadds ?_
    intro k hk hk'
    obtain ⟨e, he, rfl⟩ := List.mem_map.mp hk
    exact ((hp.adds _).mp hk').2 (List.mem_map_of_mem ((hkept e).mp he).1)
  · rw [List.map_map, hkeys, List.map_append, List.mem_append, hp.adds]
    constructor
    · rintro (hk | hk)
      · obtain ⟨e, he, rfl⟩ := List.mem_map.mp hk
        exact ((hkept e).mp he).2
      · exact hk.1
    · intro hk
      by_cases hold : k ∈ i.clients.map Client.key
      · obtain ⟨e, he, rfl⟩ := List.mem_map.mp hold
        exact Or.inl (List.mem_map_of_mem ((hkept e).mpr ⟨he, hk⟩))
      · exact Or.inr ⟨hk, hold⟩
  · obtain ⟨e, he, rfl⟩ := List.mem_map.mp hd
    rw [hkeyname] at hkey
    rcases List.mem_append.mp he with he | he
    · have hmem := ((hkept e).mp he).1
      by_cases hup : e.key ∈ m.updates.map Client.key
      · obtain ⟨u, hu, hukey⟩ := List.mem_map.mp hup
        obtain ⟨c', hc', hckey, rfl⟩ := hp.updated u hu
        obtain rfl := List.inj_on_of_nodup_map hos.keys hc' hc
          (hckey.trans (hukey.trans hkey))
        rw [Client.updatedBy_of_mem ((Client.name_eq_iff (hcs.names e hmem)
          (Clients.names_of_merge hm _ (by simp [hu]))).mpr hukey.symm) hupdated hu,
          (hzone c' hc').compared_eq]
        exact (Client.alike_iff_of_sort_eq rfl (Client.sort_sort c')).mpr (Client.Alike.refl c')
      · rw [hsame e (hcs.names e hmem) hup]
        by_contra hne
        exact hup ((hp.updates e.key).mpr ⟨c, hc, e, hmem, hkey.symm, rfl, hne⟩)
    · obtain rfl := List.inj_on_of_nodup_map hos.keys (hp.added e he) hc hkey
      rw [hsame e (hos.names e hc) fun hup => hfresh (List.mem_map_of_mem he) hup]
      exact Client.Alike.refl e

/-- With alike clients on both sides nothing is to be done. -/
theorem writes_eq_nil_iff (hcs : (⟨some i.clients⟩ : Clients).Named)
    (hos : (⟨some os⟩ : Clients).Named)
    (hm : (⟨some i.clients⟩ : Clients).merge ⟨some os⟩ o₁ o₂ = some m) :
    m.writes.map Prod.fst = [] ↔ Clients.Mirror i.clients os := by
  have hp := Clients.partition_of_merge hcs hos hm
  have hnil : ∀ cs : List Model.Client, cs = [] ↔ ∀ k, k ∉ cs.map Client.key := fun cs => by
    rw [← List.eq_nil_iff_forall_not_mem, List.map_eq_nil_iff]
  rw [List.map_eq_nil_iff, ClientsMerge.writes, List.append_eq_nil_iff, List.append_eq_nil_iff,
    List.map_eq_nil_iff, List.map_eq_nil_iff, List.map_eq_nil_iff, hnil m.removes, hnil m.adds,
    hnil m.updates]
  simp only [hp.removes, hp.adds, hp.updates, Option.getD_some, not_and, not_not, not_exists]
  constructor
  · rintro ⟨hremoves, hadds, hupdates⟩
    refine ⟨hcs, fun k => ⟨hremoves k, hadds k⟩, fun c hc d hd hkey => ?_⟩
    exact hupdates c.key c hc d hd rfl hkey
  · intro h
    refine ⟨fun k => (h.keys k).mp, fun k => (h.keys k).mpr, ?_⟩
    rintro k c hc d hd rfl hkey
    exact h.alike c hc d hd hkey

end Clients

end AghSync
