import AghSync.FilterSync
import AghSync.Instance

/-!
# Filters that change lists

An instance does not take a filter whose URL is in either of its two lists. The block lists
are synced before the allow lists, and each removes before it adds. So a URL that moves from
the block list to the allow list is gone when it is added, and one that moves the other way
is still there : its addition is rejected (`actionFilters_addsUnlisted_iff`).
-/

open Interaction Interaction.Prog

namespace AghSync

open Model

section Merge

variable {this other : Option (List Filter)} {o : MapOrder String} {u : String}

theorem mem_map_adds (hother : ((other.getD []).map Filter.url).Nodup) :
    u ∈ (mergeFilters this other o).adds.map Filter.url ↔
      u ∈ (other.getD []).map Filter.url ∧ u ∉ (this.getD []).map Filter.url :=
  KeyedMap.mem_map_chosen (· ∉ (this.getD []).map Filter.url) fun _ => mem_adds hother

theorem mem_map_removes (hthis : ((this.getD []).map Filter.url).Nodup) :
    u ∈ (mergeFilters this other o).removes.map Filter.url ↔
      u ∈ (this.getD []).map Filter.url ∧ u ∉ (other.getD []).map Filter.url :=
  KeyedMap.mem_map_chosen (· ∉ (other.getD []).map Filter.url) fun _ => mem_removes hthis

end Merge

/-! ## What is listed -/

namespace Instance

open Server (addUrl removeUrl updateUrl)

variable {i : Instance} {whitelist w : Bool} {u : String}

theorem lists_mapFilters (g : List Filter → List Filter) :
    (({ i with toServer := i.toServer.mapFilters whitelist g } : Instance).Lists w u) ↔
      if w = whitelist then u ∈ (g (i.filters whitelist)).map Filter.url else i.Lists w u := by
  cases w <;> cases whitelist <;> exact Iff.rfl

@[simp] theorem lists_removeUrl (f : Filter) : (i.apply (removeUrl whitelist f)).Lists w u ↔
    i.Lists w u ∧ (w = whitelist → u ≠ f.url) := by
  refine (lists_mapFilters _).trans ?_
  split_ifs with hw
  · subst hw
    simp only [Lists, Option.getD_some, List.mem_map, List.mem_filter, decide_eq_true_eq,
      forall_true_left]
    constructor
    · rintro ⟨g, ⟨hg, hne⟩, rfl⟩
      exact ⟨⟨g, hg, rfl⟩, hne⟩
    · rintro ⟨⟨g, hg, rfl⟩, hne⟩
      exact ⟨g, ⟨hg, hne⟩, rfl⟩
  · have hw : w ≠ whitelist := hw
    simp [hw]

@[simp] theorem lists_addUrl (f : Filter) : (i.apply (addUrl whitelist f)).Lists w u ↔
    i.Lists w u ∨ w = whitelist ∧ u = f.url := by
  refine (lists_mapFilters _).trans ?_
  split_ifs with hw
  · subst hw
    simp [Lists]
  · have hw : w ≠ whitelist := hw
    simp [hw]

@[simp] theorem lists_updateUrl (f : Filter) :
    (i.apply (updateUrl whitelist f)).Lists w u ↔ i.Lists w u := by
  refine (lists_mapFilters _).trans ?_
  split_ifs with hw
  · subst hw
    have hurl : ∀ g : Filter, (Server.setUrl f.url
        { name := f.name, url := f.url, enabled := f.enabled } g).url = g.url := by
      intro g
      unfold Server.setUrl
      split_ifs <;> rfl
    simp only [Lists, Option.getD_some, List.map_map, Function.comp_def, hurl]
  · rfl

theorem lists_removes {fs : List Filter} :
    ((fs.map (removeUrl whitelist)).foldl apply i).Lists w u ↔
      i.Lists w u ∧ (w = whitelist → u ∉ fs.map Filter.url) := by
  induction fs generalizing i with
  | nil => simp
  | cons f fs ih =>
    rw [List.map_cons, List.foldl_cons, ih, lists_removeUrl, List.map_cons, List.mem_cons, not_or]
    tauto

theorem lists_adds {fs : List Filter} :
    ((fs.map (addUrl whitelist)).foldl apply i).Lists w u ↔
      i.Lists w u ∨ w = whitelist ∧ u ∈ fs.map Filter.url := by
  induction fs generalizing i with
  | nil => simp
  | cons f fs ih =>
    rw [List.map_cons, List.foldl_cons, ih, lists_addUrl, List.map_cons, List.mem_cons]
    tauto

theorem lists_updates {fs : List Filter} :
    ((fs.map (updateUrl whitelist)).foldl apply i).Lists w u ↔ i.Lists w u := by
  induction fs generalizing i with
  | nil => rfl
  | cons f fs ih => rw [List.map_cons, List.foldl_cons, ih, lists_updateUrl]

/-! ## What is accepted -/

/-- Writes that never conflict are accepted. -/
theorem accepts_of_forall : ∀ {ws : List Write} {i : Instance},
    (∀ wr ∈ ws, ∀ i : Instance, ¬i.Conflicts wr) → i.Accepts ws
  | [], _, _ => trivial
  | wr :: ws, i, h => ⟨h wr (by simp) i, accepts_of_forall fun wr hwr => h wr (by simp [hwr])⟩

/-- Different filters can be added exactly if none of them is listed. -/
theorem accepts_adds {fs : List Filter} (hfs : (fs.map Filter.url).Nodup) :
    i.Accepts (fs.map (addUrl whitelist)) ↔ ∀ f ∈ fs, ∀ w, ¬i.Lists w f.url := by
  induction fs generalizing i with
  | nil => simp
  | cons f fs ih =>
    obtain ⟨hf, hfs⟩ := List.nodup_cons.mp hfs
    rw [List.map_cons, accepts_cons, ih hfs, List.forall_mem_cons]
    refine and_congr not_exists (forall₂_congr fun g hg => forall_congr' fun w => not_congr ?_)
    rw [lists_addUrl, or_iff_left]
    rintro ⟨-, hurl⟩
    exact hf (hurl ▸ List.mem_map_of_mem hg)

/-! ## One list -/

section Plan

variable {this other : Option (List Filter)} {order : MapOrder String}

/-- The loops of a plan, and what comes after them. -/
theorem filterTypePlan_eq (this other : Option (List Filter)) (whitelist : Bool)
    (order : MapOrder String) : ∃ rest, filterTypePlan other this whitelist order =
      (mergeFilters this other order).removes.map (removeUrl whitelist) ++
      ((mergeFilters this other order).adds.map (addUrl whitelist) ++
      ((mergeFilters this other order).updates.map (updateUrl whitelist) ++ rest)) ∧
    ∀ wr ∈ rest, ∃ b, wr = .filteringRefresh b := by
  refine ⟨_, rfl, fun wr hwr => ?_⟩
  split_ifs at hwr with h
  · exact ⟨_, List.mem_singleton.mp hwr⟩
  · cases hwr

theorem lists_refresh {rest : List Write} (h : ∀ wr ∈ rest, ∃ b, wr = .filteringRefresh b) :
    (rest.foldl apply i) = i := by
  induction rest with
  | nil => rfl
  | cons wr rest ih =>
    obtain ⟨b, rfl⟩ := h wr (by simp)
    exact ih fun wr hwr => h wr (by simp [hwr])

/-- After its plan a list has the origin's URLs. The other list is as before. -/
theorem lists_filterTypePlan (hthis : ((this.getD []).map Filter.url).Nodup)
    (hother : ((other.getD []).map Filter.url).Nodup)
    (hi : ∀ u, i.Lists whitelist u ↔ u ∈ (this.getD []).map Filter.url) :
    ((filterTypePlan other this whitelist order).foldl apply i).Lists w u ↔
      if w = whitelist then u ∈ (other.getD []).map Filter.url else i.Lists w u := by
  obtain ⟨rest, hplan, hrest⟩ := filterTypePlan_eq this other whitelist order
  rw [hplan, List.foldl_append, List.foldl_append, List.foldl_append, lists_refresh hrest,
    lists_updates, lists_adds, lists_removes]
  split_ifs with hw
  · subst hw
    rw [hi, mem_map_removes hthis, mem_map_adds hother]
    tauto
  · simp [hw]

/-- The plan of a list is accepted exactly if none of the new URLs is in the other list. -/
theorem accepts_filterTypePlan (hother : ((other.getD []).map Filter.url).Nodup)
    (hi : ∀ u, i.Lists whitelist u ↔ u ∈ (this.getD []).map Filter.url) :
    i.Accepts (filterTypePlan other this whitelist order) ↔
      ∀ u ∈ (other.getD []).map Filter.url, u ∉ (this.getD []).map Filter.url →
        ¬i.Lists (!whitelist) u := by
  obtain ⟨rest, hplan, hrest⟩ := filterTypePlan_eq this other whitelist order
  have hremoves : i.Accepts ((mergeFilters this other order).removes.map (removeUrl whitelist)) :=
    accepts_of_forall fun wr hwr i => by
      obtain ⟨f, -, rfl⟩ := List.mem_map.mp hwr
      exact id
  have hupdates : ∀ j : Instance, j.Accepts
      ((mergeFilters this other order).updates.map (updateUrl whitelist) ++ rest) := fun j =>
    accepts_of_forall fun wr hwr i => by
      rcases List.mem_append.mp hwr with hwr | hwr
      · obtain ⟨f, -, rfl⟩ := List.mem_map.mp hwr
        exact id
      · obtain ⟨b, rfl⟩ := hrest wr hwr
        exact id
  have hadds : ((mergeFilters this other order).adds.map Filter.url).Nodup :=
    hother.sublist ((adds_sublist this other order).map _)
  rw [hplan, accepts_append, and_iff_right hremoves, accepts_append, and_iff_left (hupdates _),
    accepts_adds hadds]
  constructor
  · intro h u hu hnew hlisted
    obtain ⟨f, hf, rfl⟩ := List.mem_map.mp ((mem_map_adds hother).mpr ⟨hu, hnew⟩)
    exact h f hf (!whitelist) (lists_removes.mpr ⟨hlisted, fun he => by simp at he⟩)
  · intro h f hf w hlisted
    obtain ⟨hu, hnew⟩ := (mem_map_adds hother).mp (List.mem_map_of_mem hf)
    obtain ⟨hbefore, -⟩ := lists_removes.mp hlisted
    by_cases hw : w = whitelist
    · subst hw
      exact hnew ((hi _).mp hbefore)
    · rw [Bool.eq_not_of_ne hw] at hbefore
      exact h _ hu hnew hbefore

end Plan

end Instance

/-! ## Both lists -/

namespace Model.FilterStatus

/-- The URLs of a list. -/
def urls (fs : FilterStatus) (whitelist : Bool) : List String :=
  ((if whitelist then fs.whitelistFilters else fs.filters).getD []).map Filter.url

/-- No URL is in the lists twice. -/
def Unique (fs : FilterStatus) : Prop :=
  (fs.urls false ++ fs.urls true).Nodup

instance (fs : FilterStatus) : Decidable fs.Unique :=
  inferInstanceAs (Decidable (fs.urls false ++ fs.urls true).Nodup)

end Model.FilterStatus

namespace Instance

theorem accepts_settingsPlan (o rf : FilterStatus) (i : Instance) :
    i.Accepts (settingsPlan o rf) := by
  refine accepts_of_forall fun wr hwr i => ?_
  unfold settingsPlan at hwr
  split_ifs at hwr
  · rw [List.mem_singleton.mp hwr]
    exact id
  · split at hwr
    · rw [List.mem_singleton.mp hwr]
      exact id
    · cases hwr
  · cases hwr

/-- All filters are accepted exactly if no URL moves from the allow list to the block list. -/
theorem accepts_filtersPlan {o rf : FilterStatus} (ho : o.Unique) (hrf : rf.Unique)
    {i : Instance} (hi : i.filtering = rf) (order : Bool → MapOrder String) :
    i.Accepts (filtersPlan rf (some o) order) ↔ ∀ u ∈ o.urls false, u ∉ rf.urls true := by
  obtain ⟨hblock, hallow, hdisjoint⟩ := List.nodup_append.mp ho
  obtain ⟨hblock', hallow', hdisjoint'⟩ := List.nodup_append.mp hrf
  have hlists : ∀ w u, i.Lists w u ↔ u ∈ rf.urls w := by
    subst hi
    intro w u
    cases w <;> exact Iff.rfl
  have hthen : ∀ w u,
      ((filterTypePlan o.filters rf.filters false (order false)).foldl apply i).Lists w u ↔
        if w = false then u ∈ o.urls false else i.Lists w u := fun w u =>
    lists_filterTypePlan hblock' hblock (hlists false)
  have hfirst : i.Accepts (filterTypePlan o.filters rf.filters false (order false)) ↔
      ∀ u ∈ o.urls false, u ∉ rf.urls false → ¬i.Lists true u :=
    accepts_filterTypePlan hblock (hlists false)
  have hsecond : ((filterTypePlan o.filters rf.filters false (order false)).foldl apply i).Accepts
      (filterTypePlan o.whitelistFilters rf.whitelistFilters true (order true)) ↔
      ∀ u ∈ o.urls true, u ∉ rf.urls true → ¬Lists _ false u :=
    accepts_filterTypePlan hallow fun u => (hthen true u).trans (hlists true u)
  rw [filtersPlan, accepts_append, accepts_append, and_iff_left (accepts_settingsPlan _ _ _),
    hfirst, hsecond]
  constructor
  · rintro ⟨hfree, -⟩ u hu hu'
    refine hfree u hu (fun hboth => hdisjoint' u hboth u hu' rfl) ((hlists true u).mpr hu')
  · intro h
    refine ⟨fun u hu _ hlisted => h u hu ((hlists true u).mp hlisted), fun u hu _ hlisted => ?_⟩
    exact hdisjoint u ((hthen false u).mp hlisted) u hu rfl

end Instance

/-- At the moment it is sent to be added, no URL is in either list, and no addition is
rejected. -/
def AddsUnlisted (orders : MergeSite → MapOrder String) (ac : ActionContext)
    (o rf : FilterStatus) : Prop :=
  ∀ org i tr out i', org.filters = some o → i.filtering = rf →
    Runs (actionFilters ac org) tr out → Along (Instance.Rejects orders) tr i i' →
    (∀ pre p b r post i₁, tr = pre ++ ⟨.write p (.filteringAddUrl b), r⟩ :: post →
      Along (Instance.Rejects orders) pre i i₁ →
      Along (Instance.Rejects orders) (⟨.write p (.filteringAddUrl b), r⟩ :: post) i₁ i' →
      ∀ w, ¬i₁.Lists w (b.url.getD "")) ∧
    Instance.Undisturbed tr

/-- A run meets no rejection exactly if the plan of the filters is accepted. -/
theorem undisturbed_iff_filtersPlan {orders : MergeSite → MapOrder String} {ac : ActionContext}
    {o : FilterStatus} {org : Origin} {i i' : Instance} {tr : Trace Event Reply}
    {out : Act.Outcome Origin Err Unit} (horg : org.filters = some o)
    (hrun : Runs (actionFilters ac org) tr out) (hw : Along (Instance.Rejects orders) tr i i') :
    Instance.Undisturbed tr ↔
      i.Accepts
        (filtersPlan i.filtering (some o) fun whitelist => orders (.filters whitelist)) := by
  obtain ⟨t, rfl, hk, hw⟩ := Client.runs_doGet_along (fun _ _ hstep => hstep) hrun hw
  rw [fromOrigin_bind_apply horg] at hk
  let sc : Script := { created := .ok (), doc := fun q _ => i.doc q, order := orders }
  have hsettings : ∃ crashes, Issues sc (syncRulesAndToggles o i.filtering ac.client) org
      (settingsPlan o i.filtering) crashes := issues_syncRulesAndToggles org o _ _
  obtain ⟨crashes, hsettings⟩ := hsettings
  have hissues : Issues sc (do
      syncFilterType o.filters i.filtering.filters false ac.client ac.cfg.continueOnError
      syncFilterType o.whitelistFilters i.filtering.whitelistFilters true ac.client
        ac.cfg.continueOnError
      syncRulesAndToggles o i.filtering ac.client) org
      (filtersPlan i.filtering (some o) fun whitelist => orders (.filters whitelist)) crashes :=
    .bind (issues_syncFilterType org _ _ _ _ _) <|
      .bind (issues_syncFilterType org _ _ _ _ _) hsettings
  have hiff := Instance.undisturbed_iff_accepts (.bind (sends_syncFilterType _ _ _ _ _) fun _ =>
    .bind (sends_syncFilterType _ _ _ _ _) fun _ => sends_syncRulesAndToggles _ _ _ _)
    hissues hk hw
  refine Iff.trans ?_ hiff.1
  simp [Instance.Undisturbed]

theorem addsUnlisted_iff_accepts {orders : MergeSite → MapOrder String} {ac : ActionContext}
    {o rf : FilterStatus} : AddsUnlisted orders ac o rf ↔ ∀ i : Instance, i.filtering = rf →
      i.Accepts (filtersPlan rf (some o) fun whitelist => orders (.filters whitelist)) := by
  constructor
  · rintro h i rfl
    obtain ⟨tr, out, i', hrun, hw⟩ := (actionFilters ac { filters := some o }).exists_along
      (Instance.exists_rejects orders) i
    exact (undisturbed_iff_filtersPlan rfl hrun hw).mp (h _ _ _ _ _ rfl rfl hrun hw).2
  · rintro h org i tr out i' horg rfl hrun hw
    have hquiet := (undisturbed_iff_filtersPlan horg hrun hw).mpr (h i rfl)
    refine ⟨?_, hquiet⟩
    rintro pre p b r post i₁ rfl - ⟨_, hstep, -⟩ w hlisted
    rcases r with e | _
    · exact hquiet p _ e (List.mem_append_right _ List.mem_cons_self)
    · exact hstep.1 ⟨w, hlisted⟩

/-- The URLs that move from the allow list to the block list are rejected, and only they. -/
theorem actionFilters_addsUnlisted_iff (orders : MergeSite → MapOrder String)
    (ac : ActionContext) (o rf : FilterStatus) (ho : o.Unique) (hrf : rf.Unique) :
    AddsUnlisted orders ac o rf ↔ ∀ u ∈ o.urls false, u ∉ rf.urls true := by
  rw [addsUnlisted_iff_accepts]
  constructor
  · exact fun h => (Instance.accepts_filtersPlan ho hrf rfl _).mp
      (h { filtering := rf } rfl)
  · exact fun h i hi => (Instance.accepts_filtersPlan ho hrf hi _).mpr h

/-- A URL that moves from the block list to the allow list. -/
theorem actionFilters_addsUnlisted_iff_sample :
    let o : FilterStatus := { whitelistFilters := some [{ url := "u" }] }
    let rf : FilterStatus := { filters := some [{ url := "u" }] }
    AddsUnlisted (fun _ => .stored) sampleContext o rf ↔ ∀ u ∈ o.urls false, u ∉ rf.urls true :=
  actionFilters_addsUnlisted_iff _ _ _ _ (by decide) (by decide)

/-- A URL that moves from the allow list to the block list. -/
theorem not_addsUnlisted :
    let o : FilterStatus := { filters := some [{ url := "u" }] }
    let rf : FilterStatus := { whitelistFilters := some [{ url := "u" }] }
    o.Unique ∧ rf.Unique ∧ ¬AddsUnlisted (fun _ => .stored) sampleContext o rf := by
  refine ⟨by decide, by decide, fun h => ?_⟩
  have hplan := addsUnlisted_iff_accepts.mp h { filtering := _ } rfl
  exact (Instance.accepts_filtersPlan (by decide) (by decide) rfl _).mp hplan "u" (by decide)
    (by decide)

end AghSync
