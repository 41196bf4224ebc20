import AghSync.ClientCompare
import AghSync.Handover
import AghSync.Instance
import Mathlib.Data.Multiset.UnionInter

/-!
# Identifiers that change clients

An instance does not take a client with an identifier that another of its clients has. A pass
deletes clients, adds clients and updates clients, in this order. Each of these hands the
identifiers under one name over to a new holder (`Model.Client.Represents`), so whether all
are taken is a question of the order alone : an identifier must not be claimed while the client
that gives it up is still waiting for its update (`actionClientSettings_converges_iff`).
-/

open Interaction Interaction.Prog KeyedMap Handover

namespace AghSync

namespace Model.Client

/-- The identifiers, in any order. -/
def idents (c : Client) : Multiset String :=
  (c.ids.getD [] : List String)

/-- What a client is compared by here. -/
def entry (c : Client) : String × Multiset String :=
  (c.key, c.idents)

/-- The two holdings have an identifier in common. -/
def Shares : Option (Multiset String) → Option (Multiset String) → Prop
  | some s, some t => ¬Disjoint s t
  | _, _ => False

/-- `f` says what identifiers the clients `cs` hold, by their names. -/
structure Represents (cs : List Client) (f : String → Option (Multiset String)) : Prop where
  names : ∀ c ∈ cs, c.name.isSome
  keys : (cs.map key).Nodup
  holds : ∀ k s, f k = some s ↔ ∃ c ∈ cs, c.key = k ∧ c.idents = s

/-- The holdings of clients. -/
def holdings (cs : List Client) (k : String) : Option (Multiset String) :=
  ((collect key cs).lookup k).map idents

theorem name_eq_iff {c d : Client} (hc : c.name.isSome) (hd : d.name.isSome) :
    c.name = d.name ↔ c.key = d.key := by
  obtain ⟨a, ha⟩ := Option.isSome_iff_exists.mp hc
  obtain ⟨b, hb⟩ := Option.isSome_iff_exists.mp hd
  simp [key, ha, hb]

theorem represents_holdings {cs : List Client} (hnames : ∀ c ∈ cs, c.name.isSome)
    (hkeys : (cs.map key).Nodup) : Represents cs (holdings cs) where
  names := hnames
  keys := hkeys
  holds k s := by
    rw [holdings, Option.map_eq_some_iff]
    constructor
    · rintro ⟨c, hc, rfl⟩
      obtain ⟨hmem, hk⟩ := (lookup_collect hkeys).mp hc
      exact ⟨c, hmem, hk, rfl⟩
    · rintro ⟨c, hc, hk, rfl⟩
      exact ⟨c, (lookup_collect hkeys).mpr ⟨hc, hk⟩, rfl⟩

/-- `Hands f w k a` : the write `w` gives the name `k` the holding `a`, when `f` says what is
held before. -/
inductive Hands (f : String → Option (Multiset String)) :
    Write → String → Option (Multiset String) → Prop
  | delete {c : Client} (hc : c.name.isSome) : Hands f (.clientsDelete c) c.key none
  | add {c : Client} (hc : c.name.isSome) (hnew : f c.key = none) :
      Hands f (.clientsAdd c) c.key (some c.idents)
  | update {c : Client} (hc : c.name.isSome) (hold : f c.key ≠ none) :
      Hands f (.clientsUpdate { name := c.name, data := some c }) c.key (some c.idents)

theorem Hands.congr {f g : String → Option (Multiset String)} {w : Write} {k : String}
    {a : Option (Multiset String)} (h : Hands f w k a) (hfg : f k = g k) : Hands g w k a := by
  cases h with
  | delete hc => exact .delete hc
  | add hc hnew => exact .add hc (hfg ▸ hnew)
  | update hc hold => exact .update hc (hfg ▸ hold)

namespace Represents

variable {cs : List Client} {f : String → Option (Multiset String)} {k : String} {c : Client}

theorem eq_some (h : Represents cs f) (hc : c ∈ cs) : f c.key = some c.idents :=
  (h.holds _ _).mpr ⟨c, hc, rfl, rfl⟩

theorem eq_none_iff (h : Represents cs f) : f k = none ↔ k ∉ cs.map key := by
  rw [Option.eq_none_iff_forall_ne_some, List.mem_map]
  constructor
  · rintro hnone ⟨c, hc, rfl⟩
    exact hnone _ (h.eq_some hc)
  · rintro hnone s hs
    obtain ⟨c, hc, hk, -⟩ := (h.holds _ _).mp hs
    exact hnone ⟨c, hc, hk⟩

/-- Clients with the same holdings are the same by name and identifiers. -/
theorem perm {cs' : List Client} (h : Represents cs f) (h' : Represents cs' f) :
    (cs.map entry).Perm (cs'.map entry) := by
  have hnodup : ∀ {cs : List Client}, Represents cs f → (cs.map entry).Nodup := fun h => by
    refine List.Nodup.of_map Prod.fst ?_
    rw [List.map_map]
    exact h.keys
  have hmem : ∀ {cs : List Client}, Represents cs f →
      ∀ e, e ∈ cs.map entry ↔ f e.1 = some e.2 := fun h e => by
    rw [h.holds, List.mem_map]
    exact exists_congr fun c => and_congr_right fun _ => Prod.ext_iff
  exact (List.perm_ext_iff_of_nodup (hnodup h) (hnodup h')).mpr fun e =>
    (hmem h e).trans (hmem h' e).symm

/-! ## One write -/

/-- Identifiers are not shared with a name if no client with it has one of them. -/
theorem not_shares_iff (h : Represents cs f) : ¬Shares (some c.idents) (f k) ↔
    ∀ d ∈ cs, d.key = k → (c.ids.getD []).Disjoint (d.ids.getD []) := by
  constructor
  · rintro hshare d hd rfl
    rw [h.eq_some hd] at hshare
    exact (Multiset.coe_disjoint _ _).mp (not_not.mp hshare)
  · intro hall
    cases hk : f k with
    | none => exact id
    | some s =>
      obtain ⟨d, hd, hkey, rfl⟩ := (h.holds _ _).mp hk
      exact not_not.mpr ((Multiset.coe_disjoint _ _).mpr (hall d hd hkey))

/-- A client is free to be put under a name if it shares nothing with those under others. -/
theorem free_iff (h : Represents cs f) : Free Shares f k (some c.idents) ↔
    ∀ d ∈ cs, d.key ≠ k → (c.ids.getD []).Disjoint (d.ids.getD []) := by
  constructor
  · exact fun hfree d hd hne => h.not_shares_iff.mp (hfree d.key hne) d hd rfl
  · exact fun hall k' hne => h.not_shares_iff.mpr fun d hd hk => hall d hd (hk ▸ hne)

theorem delete (h : Represents cs f) (hc : c.name.isSome) :
    Represents (cs.filter fun d => d.name ≠ c.name) (Function.update f c.key none) where
  names d hd := h.names d (List.mem_filter.mp hd).1
  keys := h.keys.sublist (List.filter_sublist.map _)
  holds k s := by
    simp only [List.mem_filter, decide_eq_true_eq]
    by_cases hk : k = c.key
    · subst hk
      refine iff_of_false (by simp) ?_
      rintro ⟨d, ⟨hd, hne⟩, hkey, -⟩
      exact hne ((name_eq_iff (h.names d hd) hc).mpr hkey)
    · rw [Function.update_of_ne hk, h.holds]
      refine exists_congr fun d => ⟨?_, fun ⟨⟨hd, _⟩, hrest⟩ => ⟨hd, hrest⟩⟩
      rintro ⟨hd, rfl, hs⟩
      exact ⟨⟨hd, fun he => hk ((name_eq_iff (h.names d hd) hc).mp he)⟩, rfl, hs⟩

theorem add (h : Represents cs f) (hc : c.name.isSome) (hnew : f c.key = none) :
    Represents (cs ++ [c]) (Function.update f c.key (some c.idents)) where
  names d hd := by
    rcases List.mem_append.mp hd with hd | hd
    · exact h.names d hd
    · exact List.mem_singleton.mp hd ▸ hc
  keys := by
    rw [List.map_append, List.map_singleton]
    refine List.Nodup.append h.keys (List.nodup_singleton _) ?_
    simpa using h.eq_none_iff.mp hnew
  holds k s := by
    simp only [List.mem_append, List.mem_singleton, or_and_right, exists_or, exists_eq_left]
    by_cases hk : k = c.key
    · subst hk
      rw [Function.update_self, Option.some_inj, or_iff_right, and_iff_right rfl]
      rintro ⟨d, hd, hkey, -⟩
      exact h.eq_none_iff.mp hnew (hkey ▸ List.mem_map_of_mem hd)
    · rw [Function.update_of_ne hk, h.holds, or_iff_left]
      exact fun he => hk he.1.symm

theorem update (h : Represents cs f) (hc : c.name.isSome) (hold : f c.key ≠ none) :
    Represents (cs.map fun d => if d.name = c.name then c else d)
      (Function.update f c.key (some c.idents)) where
  names d hd := by
    obtain ⟨e, he, rfl⟩ := List.mem_map.mp hd
    split_ifs
    · exact hc
    · exact h.names e he
  keys := by
    have hkeys : (cs.map fun d => if d.name = c.name then c else d).map key = cs.map key := by
      rw [List.map_map]
      refine List.map_congr_left fun d hd => ?_
      simp only [Function.comp]
      split_ifs with hname
      · exact ((name_eq_iff (h.names d hd) hc).mp hname).symm
      · rfl
    rw [hkeys]
    exact h.keys
  holds k s := by
    simp only [List.mem_map]
    by_cases hk : k = c.key
    · subst hk
      rw [Function.update_self, Option.some_inj]
      constructor
      · rintro rfl
        obtain ⟨d, hd, hkey⟩ := List.mem_map.mp (not_not.mp (h.eq_none_iff.not.mp hold))
        exact ⟨c, ⟨d, hd, if_pos ((name_eq_iff (h.names d hd) hc).mpr hkey)⟩, rfl, rfl⟩
      · rintro ⟨_, ⟨d, hd, rfl⟩, hkey, rfl⟩
        split_ifs with hname
        · rfl
        · rw [if_neg hname] at hkey
          exact absurd ((name_eq_iff (h.names d hd) hc).mpr hkey) hname
    · rw [Function.update_of_ne hk, h.holds]
      constructor
      · rintro ⟨d, hd, rfl, rfl⟩
        have hname : d.name ≠ c.name := fun he => hk ((name_eq_iff (h.names d hd) hc).mp he)
        exact ⟨d, ⟨d, hd, if_neg hname⟩, rfl, rfl⟩
      · rintro ⟨_, ⟨d, hd, rfl⟩, hkey, rfl⟩
        split_ifs at hkey ⊢ with hname
        · exact absurd hkey.symm hk
        · exact ⟨d, hd, hkey, rfl⟩

/-- A write is taken exactly if its client is free, and then hands over. -/
theorem step {i : Instance} {w : Write} {a : Option (Multiset String)}
    (h : Represents i.clients f) (hw : Hands f w k a) :
    (¬i.Conflicts w ↔ Free Shares f k a) ∧
      Represents (i.apply w).clients (Function.update f k a) := by
  cases hw with
  | delete hc => exact ⟨iff_of_true id fun _ _ => id, h.delete hc⟩
  | @add c hc hnew =>
    refine ⟨?_, h.add hc hnew⟩
    rw [h.free_iff]
    simp only [Instance.Conflicts, not_exists, not_and, not_not]
    refine forall₂_congr fun d hd => (imp_iff_right fun he => ?_).symm
    exact h.eq_none_iff.mp hnew (he ▸ List.mem_map_of_mem hd)
  | @update c hc hold =>
    refine ⟨?_, h.update hc hold⟩
    rw [h.free_iff]
    simp only [Instance.Conflicts, not_exists, not_and, not_not, Option.getD_some]
    exact forall₂_congr fun d hd => imp_congr_left (name_eq_iff (h.names d hd) hc).not

/-- Writes under different names are taken exactly if the steps of the handover are free. -/
theorem accepts_iff {g : String → Option (Multiset String)} :
    ∀ {ws : List (Write × String)} {f : String → Option (Multiset String)} {i : Instance},
      (∀ w ∈ ws, Hands f w.1 w.2 (g w.2)) → (ws.map Prod.snd).Nodup → Represents i.clients f →
      (i.Accepts (ws.map Prod.fst) ↔ Assignable Shares f (steps g (ws.map Prod.snd))) ∧
        Represents ((ws.map Prod.fst).foldl Instance.apply i).clients
          (assign f (steps g (ws.map Prod.snd)))
  | [], _, _, _, _, h => ⟨Iff.rfl, h⟩
  | (w, k) :: ws, f, i, hws, hks, h => by
    obtain ⟨hk, hks⟩ := List.nodup_cons.mp hks
    obtain ⟨hfree, hnext⟩ := h.step (hws (w, k) (by simp))
    have hrest : ∀ v ∈ ws, Hands (Function.update f k (g k)) v.1 v.2 (g v.2) := by
      intro v hv
      refine (hws v (by simp [hv])).congr (Function.update_of_ne ?_ _ _).symm
      exact fun he => hk (he ▸ (List.mem_map_of_mem hv : v.2 ∈ ws.map Prod.snd))
    obtain ⟨hacc, hrep⟩ := accepts_iff hrest hks hnext
    exact ⟨and_congr hfree hacc, hrep⟩

end Represents

/-! ## What a merge hands over -/

theorem idents_of_ids {c d : Client} (h : d.ids = c.ids.map sortStrings) : d.idents = c.idents := by
  rw [idents, idents, h]
  cases c.ids with
  | none => rfl
  | some ids => exact Multiset.coe_eq_coe.mpr (sortStrings_perm ids)

theorem entry_equals (c d : Client) : (c.equals d).2.1.entry = c.entry := by
  have hids : (c.equals d).2.1.ids = c.ids.map sortStrings := by
    rw [equals_snd, compared_eq]
    rfl
  rw [entry, entry, idents_of_ids hids, key, key, name_equals]

/-- Clients that compare equal have the same identifiers. -/
theorem idents_eq_of_equals {c d : Client} (h : (c.equals d).1 = true) : c.idents = d.idents := by
  have hids : ∀ c : Client, c.sort.prepareDiff.2.ids = c.ids.map sortStrings := by
    intro c
    unfold prepareDiff
    split
    · split <;> rfl
    · rfl
  have hfield : ∀ c : Client, (marshal c).field "ids" = c.ids := fun c =>
    Json.field_object (by simp [Json.omitEmpty]) (by simp)
  have heq : c.sort.prepareDiff.2.ids = d.sort.prepareDiff.2.ids := by
    rw [← hfield, ← hfield, of_decide_eq_true h]
  rw [← idents_of_ids (hids c), ← idents_of_ids (hids d), idents, idents, heq]

end Model.Client

namespace Model.Clients

/-- The origin's clients in the order of the iteration over them. -/
def ranged (other : Clients) (o : MapOrder String) : List Client :=
  ((collect (fun e : Client × ℕ => e.1.key) (other.clients.getD []).zipIdx).values o).map Prod.fst

section Merge

variable {clients other : Clients} {o₁ o₂ : MapOrder String} {m : ClientsMerge}

theorem nodup_zipIdx {cs : List Client} (h : (cs.map Client.key).Nodup) :
    (cs.zipIdx.map fun e => e.1.key).Nodup := by
  have hmap : (cs.zipIdx.map fun e => e.1.key) = cs.map Client.key := by
    rw [← Function.comp_def Client.key Prod.fst, ← List.map_map, List.zipIdx_map_fst]
  rwa [hmap]

theorem nodup_ranged (other : Clients) (o : MapOrder String) :
    ((other.ranged o).map Client.key).Nodup := by
  rw [ranged, List.map_map]
  refine nodup_map_values fun k e hk => ?_
  exact (of_lookup_collect hk).2

theorem mem_ranged (hother : ((other.clients.getD []).map Client.key).Nodup) {o : MapOrder String}
    {c : Client} : c ∈ other.ranged o ↔ c ∈ other.clients.getD [] := by
  simp only [ranged, List.mem_map, mem_values, lookup_collect (nodup_zipIdx hother)]
  constructor
  · rintro ⟨e, ⟨k, he, -⟩, rfl⟩
    exact List.mem_of_getElem? (List.mem_zipIdx_iff_getElem?.mp he)
  · intro hc
    obtain ⟨n, hn⟩ := List.getElem?_of_mem hc
    exact ⟨(c, n), ⟨_, List.mem_zipIdx_iff_getElem?.mpr hn, rfl⟩, rfl⟩

theorem mem_map_filter_ranged (hother : ((other.clients.getD []).map Client.key).Nodup)
    (p : String → Prop) [DecidablePred p] {o : MapOrder String} {k : String} :
    k ∈ ((other.ranged o).filter fun c => p c.key).map Client.key ↔
      k ∈ (other.clients.getD []).map Client.key ∧ p k :=
  mem_map_chosen p fun c => by rw [List.mem_filter, mem_ranged hother, decide_eq_true_eq]

/-- The origin's clients that are new to the replica, in the order of the iteration. -/
abbrev added (replica other : Clients) (o : MapOrder String) : List Client :=
  (other.ranged o).filter fun c => c.key ∉ (replica.clients.getD []).map Client.key

/-- The origin's clients that the replica has by name, in the order of the iteration. -/
abbrev shared (replica other : Clients) (o : MapOrder String) : List Client :=
  (other.ranged o).filter fun c => c.key ∈ (replica.clients.getD []).map Client.key

/-- What a merge of clients with different names removes, adds and updates. -/
structure Merged (replica other : Clients) (o : MapOrder String) (changed : Client → Bool)
    (m : ClientsMerge) : Prop where
  removes_nodup : (m.removes.map Client.key).Nodup
  mem_removes : ∀ c, c ∈ m.removes ↔ c ∈ replica.clients.getD [] ∧
    c.key ∉ (other.clients.getD []).map Client.key
  adds : m.adds = replica.added other o
  updates : m.updates.map Client.entry =
    ((replica.shared other o).filter changed).map Client.entry
  unchanged : ∀ c d, changed c = false → d ∈ replica.clients.getD [] → d.key = c.key →
    d.idents = c.idents

/-- The updates are the clients that compare different. -/
theorem map_entry_updates {hits : List ((Client × ℕ) × Client)}
    {current : KeyedMap String Client}
    (h : ∀ hit ∈ hits, current.lookup hit.1.1.key = some hit.2) :
    ((hits.map fun hit => (hit.1.2, hit.1.1.equals hit.2)).filter fun r => !r.2.1).map
        (fun r => Client.entry r.2.2.1) =
      ((hits.map Prod.fst).filter fun e => (current.lookup e.1.key).any fun d =>
        !(e.1.equals d).1).map fun e => e.1.entry := by
  simp only [List.filter_map, List.map_map]
  rw [List.filter_congr fun hit hmem => ?_]
  · exact List.map_congr_left fun hit _ => Client.entry_equals _ _
  · simp [h hit hmem]

theorem exists_merged (hclients : ((clients.clients.getD []).map Client.key).Nodup)
    (hother : ((other.clients.getD []).map Client.key).Nodup)
    (h : clients.merge other o₁ o₂ = some m) : ∃ changed, clients.Merged other o₁ changed m := by
  unfold Clients.merge at h
  simp only at h
  split_ifs at h with hnames
  obtain rfl := Option.some.inj h
  clear h
  set current := collect Client.key (clients.clients.getD [])
  set expected := (collect (fun e : Client × ℕ => e.1.key) (other.clients.getD []).zipIdx).values o₁
    with hexpected
  have hranged : other.ranged o₁ = expected.map Prod.fst := rfl
  have hnodup : (expected.map fun e => e.1.key).Nodup := by
    have h := nodup_ranged other o₁
    rwa [hranged, List.map_map] at h
  have hkeys : ∀ k, k ∈ expected.map (fun e => e.1.key) ↔
      k ∈ (other.clients.getD []).map Client.key := by
    intro k
    have hmap : expected.map (fun e => e.1.key) = (other.ranged o₁).map Client.key := by
      rw [hranged, List.map_map]
      rfl
    simp only [hmap, List.mem_map, mem_ranged hother]
  have hnone : ∀ {k}, (current.lookup k).isNone = true ↔
      k ∉ (clients.clients.getD []).map Client.key := by
    intro k
    rw [Option.isNone_iff_eq_none, lookup_collect_eq_none]
  refine ⟨fun c => (current.lookup c.key).any fun d => !(c.equals d).1, ?_, fun c => ?_, ?_, ?_, ?_⟩
  · refine nodup_map_values fun k c hc => ?_
    rw [lookup_rest] at hc
    split_ifs at hc
    exact (of_lookup_collect hc).2
  · exact (mem_values_rest_collect hclients).trans (and_congr_right fun _ => (hkeys _).not)
  · show (consume (fun e => e.1.key) expected current).misses.map Prod.fst = _
    rw [misses_eq_filter _ hnodup, added, hranged, List.filter_map]
    refine congrArg (List.map Prod.fst) (List.filter_congr fun e _ => ?_)
    rw [Bool.eq_iff_iff, hnone, Function.comp, decide_eq_true_eq]
  · show (List.map _ _).map Client.entry = _
    have hhits : ∀ hit ∈ (consume (fun e => e.1.key) expected current).hits,
        current.lookup hit.1.1.key = some hit.2 :=
      fun _ hmem => ((mem_hits hnodup).mp hmem).2
    rw [List.map_map]
    refine (map_entry_updates hhits).trans ?_
    rw [map_fst_hits _ hnodup, shared, hranged, List.filter_map, List.filter_map, List.map_map]
    refine congrArg (fun es => List.map _ (List.filter _ es)) (List.filter_congr fun e _ => ?_)
    rw [Bool.eq_iff_iff, Option.isSome_iff_ne_none, Ne, lookup_collect_eq_none, not_not,
      Function.comp, decide_eq_true_eq]
  · intro c d hsame hd hk
    have hlookup : current.lookup c.key = some d := (lookup_collect hclients).mpr ⟨hd, hk⟩
    simp only [hlookup, Option.any_some] at hsame
    exact (Client.idents_eq_of_equals (by simpa using hsame)).symm

end Merge

end Model.Clients

namespace Model

/-- The requests that a merge calls for, in order, each with the name it is about. -/
def ClientsMerge.writes (m : ClientsMerge) : List (Write × String) :=
  m.removes.map (fun c => (.clientsDelete c, c.key)) ++
  (m.adds.map (fun c => (.clientsAdd c, c.key)) ++
  m.updates.map fun c => (.clientsUpdate { name := c.name, data := some c }, c.key))

instance decidableDisjoint (xs ys : List String) : Decidable (xs.Disjoint ys) :=
  decidable_of_iff (∀ x ∈ xs, x ∉ ys) Iff.rfl

/-- The clients have different names, and no identifier in common. -/
structure Clients.Separate (cs : Clients) : Prop where
  names : ∀ c ∈ cs.clients.getD [], c.name.isSome
  keys : ((cs.clients.getD []).map Client.key).Nodup
  idents : (cs.clients.getD []).Pairwise fun c d => (c.ids.getD []).Disjoint (d.ids.getD [])

/-- In the order in which the replica is sent them, first the new clients and then those it
has, no client has an identifier that a later one still holds on the replica. -/
def Clients.Untangled (replica other : Clients) (o : MapOrder String) : Prop :=
  ((other.ranged o).filter (fun c => c.key ∉ (replica.clients.getD []).map Client.key) ++
    (other.ranged o).filter fun c => c.key ∈ (replica.clients.getD []).map Client.key).Pairwise
      fun c d => ∀ e ∈ replica.clients.getD [], e.key = d.key →
        (c.ids.getD []).Disjoint (e.ids.getD [])

instance (replica other : Clients) (o : MapOrder String) : Decidable (replica.Untangled other o) :=
  inferInstanceAs (Decidable (List.Pairwise _ _))

namespace Clients

section Handover

variable {replica other : Clients} {o₁ o₂ : MapOrder String} {m : ClientsMerge}

/-- The holdings of the clients. -/
abbrev holdings (cs : Clients) : String → Option (Multiset String) :=
  Client.holdings (cs.clients.getD [])

theorem Separate.represents {cs : Clients} (h : cs.Separate) :
    Client.Represents (cs.clients.getD []) cs.holdings :=
  Client.represents_holdings h.names h.keys

theorem Separate.exists_merge {cs other : Clients} (h : cs.Separate) (hother : other.Separate)
    (o₁ o₂ : MapOrder String) : ∃ m, cs.merge other o₁ o₂ = some m :=
  Option.isSome_iff_exists.mp <| merge_isSome _ _ fun c hc =>
    (List.mem_append.mp hc).elim (h.names c) (hother.names c)

/-- Two names of separate clients share nothing. -/
theorem Separate.not_shares {cs : Clients} (h : cs.Separate) (u v : String) (hne : u ≠ v) :
    ¬Client.Shares (cs.holdings u) (cs.holdings v) := by
  cases hu : cs.holdings u with
  | none => exact id
  | some s =>
    cases hv : cs.holdings v with
    | none => exact id
    | some t =>
      obtain ⟨c, hc, rfl, rfl⟩ := (h.represents.holds _ _).mp hu
      obtain ⟨d, hd, rfl, rfl⟩ := (h.represents.holds _ _).mp hv
      have : Std.Symm fun c d : Client => (c.ids.getD []).Disjoint (d.ids.getD []) :=
        ⟨fun _ _ h => h.symm⟩
      refine not_not.mpr ((Multiset.coe_disjoint _ _).mpr ?_)
      exact h.idents.forall hc hd fun he => hne (congrArg Client.key he)

/-- Every request hands the name it is about over to what the origin has there. -/
theorem hands_writes (hreplica : replica.Separate) (hother : other.Separate)
    (hm : replica.merge other o₁ o₂ = some m) :
    ∀ w ∈ m.writes, Client.Hands replica.holdings w.1 w.2
      (other.holdings w.2) := by
  have hR := hreplica.represents
  have hO := hother.represents
  have hnames := Clients.names_of_merge hm
  obtain ⟨changed, hmerged⟩ := exists_merged hreplica.keys hother.keys hm
  intro w hw
  simp only [ClientsMerge.writes, List.mem_append, List.mem_map] at hw
  rcases hw with ⟨c, hc, rfl⟩ | ⟨c, hc, rfl⟩ | ⟨c, hc, rfl⟩
  · rw [hO.eq_none_iff.mpr ((hmerged.mem_removes c).mp hc).2]
    exact .delete (hnames c (by simp [hc]))
  · have hname := hnames c (by simp [hc])
    rw [hmerged.adds, List.mem_filter, mem_ranged hother.keys, decide_eq_true_eq] at hc
    rw [hO.eq_some hc.1]
    exact .add hname (hR.eq_none_iff.mpr hc.2)
  · have hname := hnames c (by simp [hc])
    have hentry : c.entry ∈ m.updates.map Client.entry := List.mem_map_of_mem hc
    rw [hmerged.updates] at hentry
    obtain ⟨d, hd, he⟩ := List.mem_map.mp hentry
    obtain ⟨hkey, hidents⟩ := Prod.mk.inj he
    simp only [List.mem_filter, mem_ranged hother.keys, decide_eq_true_eq] at hd
    have hheld : other.holdings c.key = some c.idents := by
      rw [← hkey, ← hidents]
      exact hO.eq_some hd.1.1
    rw [hheld]
    exact .update hname (hkey ▸ hR.eq_none_iff.not.mpr (not_not.mpr hd.1.2))

/-- The names that the requests are about. -/
theorem Merged.map_snd_writes {changed : Client → Bool} (h : replica.Merged other o₁ changed m) :
    m.writes.map Prod.snd = m.removes.map Client.key ++
      ((replica.added other o₁).map Client.key ++ m.updates.map Client.key) := by
  simp only [ClientsMerge.writes, List.map_append, List.map_map, Function.comp_def, h.adds]

theorem Merged.map_key_updates {changed : Client → Bool} (h : replica.Merged other o₁ changed m) :
    m.updates.map Client.key = ((replica.shared other o₁).filter changed).map Client.key := by
  have hkeys := congrArg (List.map Prod.fst) h.updates
  rwa [List.map_map, List.map_map] at hkeys

/-- A client that both have and that is not updated has the same identifiers on both sides. -/
theorem Merged.holdings_eq {changed : Client → Bool} (h : replica.Merged other o₁ changed m)
    (hreplica : replica.Separate) (hother : other.Separate) {k : String}
    (hk : k ∈ (replica.shared other o₁).map Client.key) (hnot : k ∉ m.updates.map Client.key) :
    replica.holdings k = other.holdings k := by
  obtain ⟨c, hc, rfl⟩ := List.mem_map.mp hk
  have hunchanged : changed c = false := by
    by_contra hchanged
    refine hnot (h.map_key_updates ▸ List.mem_map_of_mem (List.mem_filter.mpr ⟨hc, ?_⟩))
    simpa using hchanged
  rw [List.mem_filter, mem_ranged hother.keys, decide_eq_true_eq] at hc
  obtain ⟨d, hd, hdk⟩ := List.mem_map.mp hc.2
  rw [hother.represents.eq_some hc.1, ← hdk, hreplica.represents.eq_some hd,
    h.unchanged c d hunchanged hd hdk]

theorem Merged.mem_map_removes {changed : Client → Bool} (h : replica.Merged other o₁ changed m)
    {k : String} : k ∈ m.removes.map Client.key ↔
      k ∈ (replica.clients.getD []).map Client.key ∧
        k ∉ (other.clients.getD []).map Client.key :=
  mem_map_chosen (· ∉ (other.clients.getD []).map Client.key) h.mem_removes

theorem mem_map_added (hother : ((other.clients.getD []).map Client.key).Nodup) {k : String} :
    k ∈ (replica.added other o₁).map Client.key ↔
      k ∈ (other.clients.getD []).map Client.key ∧
        k ∉ (replica.clients.getD []).map Client.key :=
  mem_map_filter_ranged hother fun k => k ∉ (replica.clients.getD []).map Client.key

theorem mem_map_shared (hother : ((other.clients.getD []).map Client.key).Nodup) {k : String} :
    k ∈ (replica.shared other o₁).map Client.key ↔
      k ∈ (other.clients.getD []).map Client.key ∧
        k ∈ (replica.clients.getD []).map Client.key :=
  mem_map_filter_ranged hother fun k => k ∈ (replica.clients.getD []).map Client.key

/-- Every name is removed, added or kept, and only once. -/
theorem Merged.nodup {changed : Client → Bool} (h : replica.Merged other o₁ changed m)
    (hother : ((other.clients.getD []).map Client.key).Nodup) : (m.removes.map Client.key ++
      ((replica.added other o₁).map Client.key ++
        (replica.shared other o₁).map Client.key)).Nodup := by
  have hranged := nodup_ranged other o₁
  refine h.removes_nodup.append (.append ?_ ?_ ?_) fun k hk hk' =>
    (h.mem_map_removes.mp hk).2 ?_
  · exact hranged.sublist (List.filter_sublist.map _)
  · exact hranged.sublist (List.filter_sublist.map _)
  · exact fun k hk hk' => ((mem_map_added hother).mp hk).2 ((mem_map_shared hother).mp hk').2
  · exact (List.mem_append.mp hk').elim (fun hk => ((mem_map_added hother).mp hk).1)
      fun hk => ((mem_map_shared hother).mp hk).1

/-- The replica holds nothing under a name that is neither removed nor kept. -/
theorem Merged.holdings_eq_none {changed : Client → Bool}
    (h : replica.Merged other o₁ changed m) (hreplica : replica.Separate)
    (hother : other.Separate) {k : String} (hk : k ∉ m.removes.map Client.key)
    (hk' : k ∉ (replica.shared other o₁).map Client.key) : replica.holdings k = none := by
  refine hreplica.represents.eq_none_iff.mpr fun hmem => ?_
  by_cases hboth : k ∈ (other.clients.getD []).map Client.key
  · exact hk' ((mem_map_shared hother.keys).mpr ⟨hboth, hmem⟩)
  · exact hk (h.mem_map_removes.mpr ⟨hmem, hboth⟩)

/-- In their order, the requests can be handed over exactly if the clients are untangled. -/
theorem Merged.assignable_iff {changed : Client → Bool} (h : replica.Merged other o₁ changed m)
    (hreplica : replica.Separate) (hother : other.Separate) :
    Assignable Client.Shares replica.holdings (steps other.holdings (m.writes.map Prod.snd)) ↔
      Untangled replica other o₁ := by
  have hus : (m.updates.map Client.key).Sublist ((replica.shared other o₁).map Client.key) := by
    rw [h.map_key_updates]
    exact List.filter_sublist.map _
  rw [h.map_snd_writes, assignable_iff_pairwise hreplica.not_shares hother.not_shares ?_ hus
    (fun k hk hnot => h.holdings_eq hreplica hother hk hnot) ?_ (h.nodup hother.keys)]
  · rw [← List.map_append, List.pairwise_map]
    refine List.Pairwise.iff_of_mem fun {c d} hc hd => ?_
    have hmem : c ∈ other.clients.getD [] := by
      rcases List.mem_append.mp hc with hc | hc
      · exact (mem_ranged hother.keys).mp (List.mem_filter.mp hc).1
      · exact (mem_ranged hother.keys).mp (List.mem_filter.mp hc).1
    rw [hother.represents.eq_some hmem]
    exact hreplica.represents.not_shares_iff
  · intro k hk a
    rw [hother.represents.eq_none_iff.mpr (h.mem_map_removes.mp hk).2]
    exact id
  · intro k hk hk' a
    rw [h.holdings_eq_none hreplica hother hk hk']
    cases a <;> exact id

/-- The requests make the replica's holdings the origin's. -/
theorem Merged.assign_eq {changed : Client → Bool} (h : replica.Merged other o₁ changed m)
    (hreplica : replica.Separate) (hother : other.Separate) :
    assign replica.holdings (steps other.holdings (m.writes.map Prod.snd)) = other.holdings := by
  funext k
  rw [assign_steps]
  split_ifs with hk
  · rfl
  · rw [h.map_snd_writes, List.mem_append, List.mem_append, not_or, not_or] at hk
    obtain ⟨hremoved, hnew, hupdated⟩ := hk
    by_cases hshared : k ∈ (replica.shared other o₁).map Client.key
    · exact h.holdings_eq hreplica hother hshared hupdated
    · rw [h.holdings_eq_none hreplica hother hremoved hshared]
      refine (hother.represents.eq_none_iff.mpr fun hmem => ?_).symm
      by_cases hold : k ∈ (replica.clients.getD []).map Client.key
      · exact hshared ((mem_map_shared hother.keys).mpr ⟨hmem, hold⟩)
      · exact hnew ((mem_map_added hother.keys).mpr ⟨hmem, hold⟩)

/-- The requests of a merge are taken exactly if the clients are untangled, and make the
replica's clients the origin's. -/
theorem accepts_writes (hreplica : replica.Separate) (hother : other.Separate)
    (hm : replica.merge other o₁ o₂ = some m) {i : Instance}
    (hi : i.clients = replica.clients.getD []) :
    (i.Accepts (m.writes.map Prod.fst) ↔ Untangled replica other o₁) ∧
      (((m.writes.map Prod.fst).foldl Instance.apply i).clients.map Client.entry).Perm
        ((other.clients.getD []).map Client.entry) := by
  obtain ⟨changed, hmerged⟩ := exists_merged hreplica.keys hother.keys hm
  have hnodup : (m.writes.map Prod.snd).Nodup := by
    rw [hmerged.map_snd_writes, hmerged.map_key_updates]
    refine (hmerged.nodup hother.keys).sublist ((List.Sublist.refl _).append ?_)
    exact (List.Sublist.refl _).append (List.filter_sublist.map _)
  obtain ⟨hiff, hrep⟩ := Client.Represents.accepts_iff (hands_writes hreplica hother hm) hnodup
    (hi ▸ hreplica.represents : Client.Represents i.clients replica.holdings)
  rw [hmerged.assign_eq hreplica hother] at hrep
  exact ⟨hiff.trans (hmerged.assignable_iff hreplica hother), hrep.perm hother.represents⟩

end Handover

end Clients

end Model

open Model

/-! ## The action -/

section Action

variable {orders : MergeSite → MapOrder String} {ac : ActionContext} {other : Clients}

/-- The loops of the action carry the merge out. -/
theorem issues_writes {sc : Script} (ac : ActionContext) {clients other : Clients}
    {o₁ o₂ : MapOrder String} {m : ClientsMerge} (hm : clients.merge other o₁ o₂ = some m)
    {s : Origin} : Issues sc (do
      Act.forEach m.removes fun c => Act.tolerate ac.cfg.continueOnError (ac.client.deleteClient c)
      Act.forEach m.adds fun c => Act.tolerate ac.cfg.continueOnError (ac.client.addClient c)
      Act.forEach m.updates fun c =>
        Act.tolerate ac.cfg.continueOnError (ac.client.updateClient c))
      s (m.writes.map Prod.fst) false := by
  have hnames := Clients.names_of_merge hm
  simp only [ClientsMerge.writes, List.map_append, List.map_map, Function.comp_def]
  exact .bind (issues_tolerate _ _ .clientsDelete _ fun c hc => hnames c (by simp [hc])) <| .bind
    (issues_tolerate _ _ .clientsAdd _ fun c hc => hnames c (by simp [hc]))
    (issues_tolerate _ _ (fun c => .clientsUpdate { name := c.name, data := some c }) _
      fun c hc => hnames c (by simp [hc]))

/-- A run meets no rejection exactly if the requests of the merge are accepted. -/
theorem undisturbed_iff_writes {org : Origin} {i i' : Instance} {tr : Trace Event Reply}
    {out : Act.Outcome Origin Err Unit} {m : ClientsMerge} (horg : org.clients = some other)
    (hm : (⟨some i.clients⟩ : Clients).merge other (orders .clientsExpected)
      (orders .clientsCurrent) = some m)
    (hrun : Runs (actionClientSettings ac org) tr out)
    (hw : Along (Instance.Rejects orders) tr i i') :
    (Instance.Undisturbed tr ↔ i.Accepts (m.writes.map Prod.fst)) ∧
      (Instance.Undisturbed tr → i' = (m.writes.map Prod.fst).foldl Instance.apply i) := by
  obtain ⟨t, rfl, hk, hw⟩ := Client.runs_doGet_along (fun _ _ hstep => hstep) hrun hw
  rw [fromOrigin_bind_apply horg] at hk
  obtain ⟨o₁, t₁, rfl, hk₁⟩ := Client.runs_rangeMap_bind.mp hk
  obtain ⟨o₂, t₂, rfl, hk₂⟩ := Client.runs_rangeMap_bind.mp hk₁
  obtain ⟨i₁, ⟨rfl, hi₁⟩, i₂, ⟨rfl, hi₂⟩, hw₂⟩ := hw
  rw [hi₂, hi₁] at hw₂
  simp only [Instance.doc, hm, Act.deref_some, Act.pure_bind, Act.modify_bind_apply] at hk₂
  let sc : Script := { created := .ok (), doc := fun q _ => Server.doc {} q, order := orders }
  have hissues : Issues sc _ { org with clients := some m.other } (m.writes.map Prod.fst) false :=
    issues_writes ac hm
  have hsends : ∀ (f : Model.Client → Write) (cs : List Model.Client),
      (∀ c, (f c).tolerable = true) → (∀ c, (f c).action = "client settings") →
      Act.Built (Sends ac.client ac.cfg.continueOnError "client settings")
        (Act.forEach cs fun c => Act.tolerate ac.cfg.continueOnError
          (Act.deref c.name >>= fun _ => ac.client.send (f c)) : Call Origin Unit) :=
    fun f cs htol hname => .forEach (fun c => Sends.tolerate_deref (htol c) (hname c) _) cs
  obtain ⟨hiff, hfold⟩ := Instance.undisturbed_iff_accepts
    (.bind (hsends .clientsDelete _ (fun _ => rfl) fun _ => rfl) fun _ =>
      .bind (hsends .clientsAdd _ (fun _ => rfl) fun _ => rfl) fun _ =>
        hsends (fun c => .clientsUpdate { name := c.name, data := some c }) _ (fun _ => rfl)
          fun _ => rfl) hissues hk₂ hw₂
  have hquiet : Instance.Undisturbed (⟨.read ac.client.party .clients, .ok (i.doc .clients)⟩ ::
      ⟨.rangeMap ac.client.party .clientsExpected, orders .clientsExpected⟩ ::
      ⟨.rangeMap ac.client.party .clientsCurrent, orders .clientsCurrent⟩ :: t₂) ↔
        Instance.Undisturbed t₂ := by
    simp [Instance.Undisturbed]
  exact ⟨hquiet.trans hiff, fun h => (hfold (hquiet.mp h)).1⟩

end Action

/-- No client is rejected, and the replica's clients end up as the origin's, by name and
identifiers. -/
def ClientsConverge (orders : MergeSite → MapOrder String) (ac : ActionContext)
    (other : Clients) (current : List Model.Client) : Prop :=
  ∀ org i tr out i', org.clients = some other → i.clients = current →
    Runs (actionClientSettings ac org) tr out → Along (Instance.Rejects orders) tr i i' →
    Instance.Undisturbed tr ∧
      (i'.clients.map Client.entry).Perm ((other.clients.getD []).map Client.entry)

theorem accepts_of_clientsConverge {orders : MergeSite → MapOrder String} {ac : ActionContext}
    {other : Clients} {current : List Model.Client} {m : ClientsMerge}
    (hm : (⟨some current⟩ : Clients).merge other (orders .clientsExpected)
      (orders .clientsCurrent) = some m) (h : ClientsConverge orders ac other current) :
    ({ clients := current } : Instance).Accepts (m.writes.map Prod.fst) := by
  obtain ⟨tr, out, i', hrun, hw⟩ := (actionClientSettings ac { clients := some other }).exists_along
    (Instance.exists_rejects orders) { clients := current }
  exact (undisturbed_iff_writes rfl hm hrun hw).1.mp (h _ _ _ _ _ rfl rfl hrun hw).1

/-- The clients converge exactly if no identifier is claimed before it is given up. -/
theorem actionClientSettings_converges_iff (orders : MergeSite → MapOrder String)
    (ac : ActionContext) (other : Clients) (current : List Model.Client)
    (hother : other.Separate) (hcurrent : (⟨some current⟩ : Clients).Separate) :
    ClientsConverge orders ac other current ↔
      Clients.Untangled ⟨some current⟩ other (orders .clientsExpected) := by
  obtain ⟨m, hm⟩ := Clients.Separate.exists_merge hcurrent hother _ _
  constructor
  · intro h
    refine (Clients.accepts_writes hcurrent hother hm (i := { clients := current }) rfl).1.mp ?_
    exact accepts_of_clientsConverge hm h
  · rintro h org i tr out i' horg rfl hrun hw
    obtain ⟨hacc, hperm⟩ := Clients.accepts_writes hcurrent hother hm (i := i) rfl
    obtain ⟨hiff, hfold⟩ := undisturbed_iff_writes horg hm hrun hw
    have hquiet := hiff.mpr (hacc.mpr h)
    exact ⟨hquiet, hfold hquiet ▸ hperm⟩

/-- An identifier that moves to a client which is updated after the one that had it. -/
theorem actionClientSettings_converges_iff_sample :
    let a : Model.Client := { name := some "a" }
    let b : Model.Client := { name := some "b" }
    let other : Clients := ⟨some [{ a with ids := some ["1"] }, { b with ids := some ["2", "3"] }]⟩
    let current : List Model.Client :=
      [{ a with ids := some ["1", "2"] }, { b with ids := some ["3"] }]
    ClientsConverge (fun _ => .stored) sampleContext other current ↔
      Clients.Untangled ⟨some current⟩ other .stored :=
  actionClientSettings_converges_iff _ _ _ _ ⟨by decide, by decide, by decide⟩
    ⟨by decide, by decide, by decide⟩

/-- Two clients that exchange their identifiers. -/
theorem not_clientsConverge :
    let clients (a b : String) : List Model.Client :=
      [{ name := some "a", ids := some [a] }, { name := some "b", ids := some [b] }]
    let other : Clients := ⟨some (clients "1" "2")⟩
    let current := clients "2" "1"
    other.Separate ∧ (⟨some current⟩ : Clients).Separate ∧
      ¬ClientsConverge (fun _ => .stored) sampleContext other current := by
  have hother : (⟨some [{ name := some "a", ids := some ["1"] },
      { name := some "b", ids := some ["2"] }]⟩ : Clients).Separate :=
    ⟨by decide, by decide, by decide⟩
  have hcurrent : (⟨some [{ name := some "a", ids := some ["2"] },
      { name := some "b", ids := some ["1"] }]⟩ : Clients).Separate :=
    ⟨by decide, by decide, by decide⟩
  refine ⟨hother, hcurrent, fun h => ?_⟩
  obtain ⟨m, hm⟩ := hcurrent.exists_merge hother .stored .stored
  have hfree := (Clients.accepts_writes hcurrent hother hm (i := { clients := _ }) rfl).1.mp
    (accepts_of_clientsConverge hm h)
  exact absurd hfree (by decide)

end AghSync
