import AghSync.Server

/-!
# Filters, rules and toggles

What `actionFilters` makes of a replica whose calls all succeed. The three loops of
`syncFilterType` remove, add and update the filters the merge says (`exec_syncFilterType`).
A filter that is new on the replica ends up enabled whatever the origin says, since the
request does not carry the flag, so a list converges if and only if the origin's new
filters are enabled.

The custom rules and the two toggles are one decision : sending the rules returns before the
toggles are compared, and the rules are compared as they print.
-/

open Interaction KeyedMap

namespace AghSync

open Model

/-! ## The merge -/

section Merge

variable {this other : Option (List Filter)} {o : MapOrder String} {f : Filter}

/-- Two nil lists are no exception : nothing is to be done. -/
theorem mergeFilters_eq (this other : Option (List Filter)) (o : MapOrder String) :
    mergeFilters this other o =
      let c := consume Filter.url (other.getD []) (collect Filter.url (this.getD []))
      { adds := c.misses
        updates := (c.hits.filter fun h => !h.2.equals h.1).map Prod.fst
        removes := c.rest.values o } := by
  cases this with
  | some this => rfl
  | none =>
    cases other with
    | some other => rfl
    | none => simp [mergeFilters, consume, collect]

theorem mem_adds (hother : ((other.getD []).map Filter.url).Nodup) :
    f ∈ (mergeFilters this other o).adds ↔
      f ∈ other.getD [] ∧ f.url ∉ (this.getD []).map Filter.url := by
  rw [mergeFilters_eq]
  exact mem_misses_collect hother

theorem mem_removes (hthis : ((this.getD []).map Filter.url).Nodup) :
    f ∈ (mergeFilters this other o).removes ↔
      f ∈ this.getD [] ∧ f.url ∉ (other.getD []).map Filter.url := by
  rw [mergeFilters_eq]
  exact mem_values_rest_collect hthis

theorem mem_updates (hthis : ((this.getD []).map Filter.url).Nodup)
    (hother : ((other.getD []).map Filter.url).Nodup) :
    f ∈ (mergeFilters this other o).updates ↔
      f ∈ other.getD [] ∧ ∃ g ∈ this.getD [], g.url = f.url ∧ g.equals f = false := by
  rw [mergeFilters_eq]
  simp only [List.mem_map, List.mem_filter, Bool.not_eq_true']
  constructor
  · rintro ⟨⟨_, g⟩, ⟨hmem, he⟩, rfl⟩
    obtain ⟨hf, hg, hurl⟩ := (mem_hits_collect hthis hother).mp hmem
    exact ⟨hf, g, hg, hurl, he⟩
  · rintro ⟨hf, g, hg, hurl, he⟩
    exact ⟨(f, g), ⟨(mem_hits_collect hthis hother).mpr ⟨hf, hg, hurl⟩, he⟩, rfl⟩

theorem adds_sublist (this other : Option (List Filter)) (o : MapOrder String) :
    (mergeFilters this other o).adds.Sublist (other.getD []) := by
  rw [mergeFilters_eq]
  exact misses_sublist _ _

theorem updates_sublist (this other : Option (List Filter)) (o : MapOrder String) :
    (mergeFilters this other o).updates.Sublist (other.getD []) := by
  rw [mergeFilters_eq]
  exact (List.filter_sublist.map _).trans (hits_sublist _ _)

end Merge

/-- Filters are equal if they have the same name and flag, once they have the same URL. -/
theorem Model.Filter.equals_iff {f g : Filter} : f.equals g = true ↔ f = g := by
  cases f
  cases g
  simp [Filter.equals]
  tauto

/-- The filter, enabled. -/
def Model.Filter.enable (f : Filter) : Filter :=
  { f with enabled := true }

/-! ## The requests -/

namespace Server

/-- The request to remove a filter. -/
def removeUrl (whitelist : Bool) (f : Filter) : Write :=
  .filteringRemoveUrl { url := some f.url, whitelist := some whitelist }

/-- The request to add a filter. -/
def addUrl (whitelist : Bool) (f : Filter) : Write :=
  .filteringAddUrl { name := some f.name, url := some f.url, whitelist := some whitelist }

/-- The request to change a filter. -/
def updateUrl (whitelist : Bool) (f : Filter) : Write :=
  .filteringSetUrl
    { whitelist := some whitelist
      url := some f.url
      data := some { name := f.name, url := f.url, enabled := f.enabled } }

/-- The instance after the requests of a merge. -/
def merged (sv : Server) (whitelist : Bool) (m : FilterMerge) : Server :=
  let removed := m.removes.foldl (fun sv f => sv.apply (removeUrl whitelist f)) sv
  let added := m.adds.foldl (fun sv f => sv.apply (addUrl whitelist f)) removed
  m.updates.foldl (fun sv f => sv.apply (updateUrl whitelist f)) added

/-- `syncFilterType` succeeds and makes the changes of the merge. -/
theorem exec_syncFilterType {σ : Type} (orders : MergeSite → MapOrder String)
    (of rFilters : Option (List Filter)) (whitelist : Bool) (cl : Client) (coe : Bool) (s : σ)
    (sv : Server) :
    (syncFilterType of rFilters whitelist cl coe s).exec (answer orders) sv =
      (some (.ok (), s),
        sv.merged whitelist (mergeFilters rFilters of (orders (.filters whitelist)))) := by
  unfold syncFilterType
  rw [exec_rangeMap_bind]
  set m := mergeFilters rFilters of (orders (.filters whitelist))
  have hloop := exec_forEach_tolerate_send orders cl s
  refine (Act.exec_bind_of_ok (hloop _ coe (removeUrl whitelist) m.removes)).trans ?_
  refine (Act.exec_bind_of_ok (hloop _ coe (addUrl whitelist) m.adds)).trans ?_
  refine (Act.exec_bind_of_ok (hloop _ coe (updateUrl whitelist) m.updates)).trans ?_
  split_ifs
  · rfl
  · rfl

/-! ## The list afterwards -/

variable (sv : Server) (whitelist : Bool)

theorem filters_removes (fs : List Filter) :
    (fs.foldl (fun sv f => sv.apply (removeUrl whitelist f)) sv).filters whitelist =
      (sv.filters whitelist).filter fun g => g.url ∉ fs.map Filter.url := by
  induction fs generalizing sv with
  | nil => simp
  | cons f fs ih =>
    rw [List.foldl_cons, ih]
    simp only [removeUrl, apply, Option.getD_some, filters_mapFilters, List.filter_filter]
    refine List.filter_congr fun g _ => ?_
    by_cases h : g.url = f.url <;> simp [h]

theorem filters_adds (fs : List Filter) :
    (fs.foldl (fun sv f => sv.apply (addUrl whitelist f)) sv).filters whitelist =
      sv.filters whitelist ++ fs.map Filter.enable := by
  induction fs generalizing sv with
  | nil => simp
  | cons f fs ih =>
    rw [List.foldl_cons, ih]
    simp [addUrl, apply, Filter.enable]

theorem filters_updates (fs : List Filter) :
    (fs.foldl (fun sv f => sv.apply (updateUrl whitelist f)) sv).filters whitelist =
      (sv.filters whitelist).map fun g =>
        fs.foldl (fun g f => setUrl f.url { name := f.name, url := f.url, enabled := f.enabled } g)
          g := by
  induction fs generalizing sv with
  | nil => simp
  | cons f fs ih =>
    rw [List.foldl_cons, ih]
    simp [updateUrl, apply]

/-- The updates of a merge, applied to one filter. -/
def updated (us : List Filter) (g : Filter) : Filter :=
  us.foldl (fun g f => setUrl f.url { name := f.name, url := f.url, enabled := f.enabled } g) g

@[simp] theorem setUrl_url (url : String) (d : FilterSetUrlData) (g : Filter) :
    (setUrl url d g).url = g.url := by
  unfold setUrl
  split_ifs
  · rfl
  · rfl

theorem updated_of_not_mem {g : Filter} : ∀ {us : List Filter}, g.url ∉ us.map Filter.url →
    updated us g = g
  | [], _ => rfl
  | u :: us, h => by
    have hu : g.url ≠ u.url := fun he => h (by simp [he])
    have hus : g.url ∉ us.map Filter.url := fun hm => h (List.mem_cons_of_mem _ hm)
    have hset : setUrl u.url { name := u.name, url := u.url, enabled := u.enabled } g = g :=
      if_neg hu
    calc updated (u :: us) g
        = updated us (setUrl u.url { name := u.name, url := u.url, enabled := u.enabled } g) := rfl
      _ = g := by rw [hset, updated_of_not_mem hus]

/-- A filter takes over the update with its URL. -/
theorem updated_of_mem {f g : Filter} (hurl : g.url = f.url) : ∀ {us : List Filter},
    (us.map Filter.url).Nodup → f ∈ us → updated us g = f
  | u :: us, hnodup, hf => by
    obtain ⟨hu, hus⟩ := List.nodup_cons.mp hnodup
    rcases List.mem_cons.mp hf with rfl | hf
    · have hset : setUrl f.url { name := f.name, url := f.url, enabled := f.enabled } g = f := by
        rw [setUrl, if_pos hurl]
        cases f
        cases g
        simp_all
      calc updated (f :: us) g
          = updated us (setUrl f.url { name := f.name, url := f.url, enabled := f.enabled } g) :=
            rfl
        _ = f := by rw [hset, updated_of_not_mem hu]
    · have hne : g.url ≠ u.url := fun he =>
        hu (he ▸ hurl ▸ List.mem_map_of_mem hf)
      have hset : setUrl u.url { name := u.name, url := u.url, enabled := u.enabled } g = g :=
        if_neg hne
      calc updated (u :: us) g
          = updated us (setUrl u.url { name := u.name, url := u.url, enabled := u.enabled } g) :=
            rfl
        _ = f := by rw [hset, updated_of_mem hurl hus hf]

theorem updated_url (us : List Filter) (g : Filter) : (updated us g).url = g.url := by
  induction us generalizing g with
  | nil => rfl
  | cons u us ih => exact (ih _).trans (setUrl_url _ _ _)

/-- What becomes of a filter of the origin on a replica with the filters `fs`. -/
def received (fs : List Filter) (f : Filter) : Filter :=
  if f.url ∈ fs.map Filter.url then f else f.enable

/-- What the requests of a merge make of a list. -/
def mergedList (fs : List Filter) (m : FilterMerge) : List Filter :=
  let kept := fs.filter fun g => g.url ∉ m.removes.map Filter.url
  (kept ++ m.adds.map Filter.enable).map (updated m.updates)

theorem filters_merged (m : FilterMerge) :
    (sv.merged whitelist m).filters whitelist = mergedList (sv.filters whitelist) m := by
  rw [merged, filters_updates, filters_adds, filters_removes]
  rfl

end Server

namespace Server

section Merged

variable {this other : Option (List Filter)} {o : MapOrder String} {f g : Filter}

/-- A filter both sides have ends up as the origin has it. -/
theorem updated_of_both (hthis : ((this.getD []).map Filter.url).Nodup)
    (hother : ((other.getD []).map Filter.url).Nodup) (hg : g ∈ this.getD [])
    (hf : f ∈ other.getD []) (hurl : g.url = f.url) :
    updated (mergeFilters this other o).updates g = f := by
  have hnodup : ((mergeFilters this other o).updates.map Filter.url).Nodup :=
    hother.sublist ((updates_sublist this other o).map _)
  cases he : g.equals f with
  | false => exact updated_of_mem hurl hnodup ((mem_updates hthis hother).mpr ⟨hf, g, hg, hurl, he⟩)
  | true =>
    obtain rfl := Filter.equals_iff.mp he
    refine updated_of_not_mem fun hm => ?_
    obtain ⟨u, hu, hu'⟩ := List.mem_map.mp hm
    obtain ⟨hu, g', hg', hurl', he'⟩ := (mem_updates hthis hother).mp hu
    obtain rfl := List.inj_on_of_nodup_map hother hu hf hu'
    obtain rfl := List.inj_on_of_nodup_map hthis hg' hg hurl'
    rw [he] at he'
    cases he'

/-- A filter the replica did not have is not updated. -/
theorem updated_of_new (hthis : ((this.getD []).map Filter.url).Nodup)
    (hother : ((other.getD []).map Filter.url).Nodup)
    (hg : g.url ∉ (this.getD []).map Filter.url) :
    updated (mergeFilters this other o).updates g = g := by
  refine updated_of_not_mem fun hm => ?_
  obtain ⟨u, hu, hu'⟩ := List.mem_map.mp hm
  obtain ⟨-, g', hg', hurl, -⟩ := (mem_updates hthis hother).mp hu
  exact hg (hu' ▸ hurl ▸ List.mem_map_of_mem hg')

theorem nodup_mergedList (hthis : ((this.getD []).map Filter.url).Nodup)
    (hother : ((other.getD []).map Filter.url).Nodup) :
    (mergedList (this.getD []) (mergeFilters this other o)).Nodup := by
  refine List.Nodup.of_map Filter.url ?_
  have hurl : Filter.url ∘ updated (mergeFilters this other o).updates = Filter.url :=
    funext (updated_url _)
  have hadd : Filter.url ∘ Filter.enable = Filter.url := rfl
  rw [mergedList, List.map_map, hurl, List.map_append, List.map_map, hadd]
  refine List.Nodup.append ?_ ?_ ?_
  · exact hthis.sublist (List.filter_sublist.map _)
  · exact hother.sublist ((adds_sublist this other o).map _)
  · intro u hu hu'
    obtain ⟨g, hg, rfl⟩ := List.mem_map.mp hu
    obtain ⟨f, hf, hfg⟩ := List.mem_map.mp hu'
    have hnew := ((mem_adds hother).mp hf).2
    rw [hfg] at hnew
    exact hnew (List.mem_map_of_mem (List.mem_filter.mp hg).1)

theorem mem_mergedList (hthis : ((this.getD []).map Filter.url).Nodup)
    (hother : ((other.getD []).map Filter.url).Nodup) :
    g ∈ mergedList (this.getD []) (mergeFilters this other o) ↔
      g ∈ (other.getD []).map (received (this.getD [])) := by
  simp only [mergedList, List.mem_map, List.mem_append, List.mem_filter, decide_eq_true_eq]
  constructor
  · rintro ⟨x, ⟨hx, hkept⟩ | ⟨f, hf, rfl⟩, rfl⟩
    · have hboth : x.url ∈ (other.getD []).map Filter.url := by
        by_contra hno
        exact hkept ⟨x, (mem_removes hthis).mpr ⟨hx, hno⟩, rfl⟩
      obtain ⟨f, hf, hurl⟩ := List.mem_map.mp hboth
      refine ⟨f, hf, ?_⟩
      rw [updated_of_both hthis hother hx hf hurl.symm, received,
        if_pos (hurl ▸ List.mem_map_of_mem hx)]
    · obtain ⟨hf, hnew⟩ := (mem_adds hother).mp hf
      refine ⟨f, hf, ?_⟩
      rw [received, if_neg hnew]
      exact (updated_of_new hthis hother (show f.enable.url ∉ _ from hnew)).symm
  · rintro ⟨f, hf, rfl⟩
    by_cases hboth : f.url ∈ (this.getD []).map Filter.url
    · obtain ⟨x, hx, hurl⟩ := List.mem_map.mp hboth
      refine ⟨x, Or.inl ⟨hx, ?_⟩, ?_⟩
      · rintro ⟨y, hy, hy'⟩
        refine ((mem_removes hthis).mp hy).2 ?_
        rw [hy', hurl]
        exact List.mem_map_of_mem hf
      · rw [updated_of_both hthis hother hx hf hurl, received, if_pos hboth]
    · refine ⟨_, Or.inr ⟨f, (mem_adds hother).mpr ⟨hf, hboth⟩, rfl⟩, ?_⟩
      rw [received, if_neg hboth]
      exact updated_of_new hthis hother (show f.enable.url ∉ _ from hboth)

theorem map_received_url (fs os : List Filter) :
    (os.map (received fs)).map Filter.url = os.map Filter.url := by
  rw [List.map_map]
  refine List.map_congr_left fun f _ => ?_
  simp only [Function.comp, received]
  split_ifs
  · rfl
  · rfl

/-- After a merge a list holds what becomes of the filters of the origin. -/
theorem mergedList_perm (o : MapOrder String) (hthis : ((this.getD []).map Filter.url).Nodup)
    (hother : ((other.getD []).map Filter.url).Nodup) :
    (mergedList (this.getD []) (mergeFilters this other o)).Perm
      ((other.getD []).map (received (this.getD []))) := by
  have hnodup : ((other.getD []).map (received (this.getD []))).Nodup :=
    List.Nodup.of_map Filter.url (by rwa [map_received_url])
  exact (List.perm_ext_iff_of_nodup (nodup_mergedList hthis hother) hnodup).mpr
    fun g => mem_mergedList hthis hother

/-- What becomes of the filters of the origin is what they are, if the new ones are enabled. -/
theorem map_received_perm_iff {fs os : List Filter} (hos : (os.map Filter.url).Nodup) :
    (os.map (received fs)).Perm os ↔
      ∀ f ∈ os, f.url ∉ fs.map Filter.url → f.enabled = true := by
  constructor
  · intro hperm f hf hnew
    have hmem : received fs f ∈ os := hperm.mem_iff.mp (List.mem_map_of_mem hf)
    rw [received, if_neg hnew] at hmem
    have heq := List.inj_on_of_nodup_map hos hmem hf rfl
    exact (congrArg Filter.enabled heq).symm
  · intro henabled
    have hid : os.map (received fs) = os := by
      conv_rhs => rw [← List.map_id os]
      refine List.map_congr_left fun f hf => ?_
      unfold received
      split_ifs with hboth
      · rfl
      · have henable := henabled f hf hboth
        cases f
        simp_all [Filter.enable]
    rw [hid]

end Merged

end Server

/-- A filter list converges if and only if the filters of the origin that are new on the
replica are enabled there. -/
theorem syncFilterType_converges_iff {σ : Type} (orders : MergeSite → MapOrder String)
    (cl : Client) (coe : Bool) (s : σ) (sv : Server) (of : Option (List Filter))
    (whitelist : Bool) (hof : ((of.getD []).map Filter.url).Nodup)
    (hrf : ((sv.filters whitelist).map Filter.url).Nodup) :
    ∃ sv', (syncFilterType of (sv.filterList whitelist) whitelist cl coe s).exec
        (Server.answer orders) sv = (some (.ok (), s), sv') ∧
      ((sv'.filters whitelist).Perm (of.getD []) ↔
        ∀ f ∈ of.getD [], f.url ∉ (sv.filters whitelist).map Filter.url → f.enabled = true) := by
  refine ⟨_, Server.exec_syncFilterType orders of _ whitelist cl coe s sv, ?_⟩
  rw [Server.filters_merged, ← Server.map_received_perm_iff hof]
  have hperm := Server.mergedList_perm (orders (.filters whitelist)) hrf hof
  exact ⟨fun h => hperm.symm.trans h, fun h => hperm.trans h⟩

/-- A list with one filter to update, one to remove and one enabled filter to add. -/
theorem syncFilterType_converges_iff_sample :
    let stored := [{ name := "a", url := "u" }, { name := "b", url := "v" }]
    let sv : Server := { filtering := { whitelistFilters := some stored } }
    let of := some [{ enabled := true, name := "c", url := "u" },
      { enabled := true, name := "d", url := "w" }]
    ∃ sv', (syncFilterType of (sv.filterList true) true (Client.new (.replica {}) {}) false ()).exec
        (Server.answer fun _ => .stored) sv = (some (.ok (), ()), sv') ∧
      ((sv'.filters true).Perm (of.getD []) ↔
        ∀ f ∈ of.getD [], f.url ∉ (sv.filters true).map Filter.url → f.enabled = true) :=
  syncFilterType_converges_iff _ _ _ _ _ _ _ (by decide) (by decide)

/-- A disabled filter of the origin that the replica does not have is enabled there. -/
theorem syncFilterType_enables :
    let of := [{ enabled := false, name := "ads", url := "u" }]
    let out := (syncFilterType (some of) none false (Client.new (.replica {}) {}) false ()).exec
      (Server.answer fun _ => .stored) {}
    out.1 = some (.ok (), ()) ∧ ¬(out.2.filters false).Perm of := by
  refine ⟨rfl, ?_⟩
  decide

/-! ## Rules and toggles -/

namespace Server

theorem settings_foldl {α : Type} (f : α → Write)
    (hf : ∀ (sv : Server) x, (sv.apply (f x)).settings = sv.settings) (xs : List α) (sv : Server) :
    (xs.foldl (fun sv x => sv.apply (f x)) sv).settings = sv.settings := by
  induction xs generalizing sv with
  | nil => rfl
  | cons x xs ih => rw [List.foldl_cons, ih, hf]

/-- The requests of a merge leave the rules and the toggles. -/
theorem settings_merged (sv : Server) (whitelist : Bool) (m : FilterMerge) :
    (sv.merged whitelist m).settings = sv.settings := by
  have hremove : ∀ (sv : Server) f, (sv.apply (removeUrl whitelist f)).settings = sv.settings :=
    fun sv f => settings_mapFilters sv _ _
  have hadd : ∀ (sv : Server) f, (sv.apply (addUrl whitelist f)).settings = sv.settings :=
    fun sv f => settings_mapFilters sv _ _
  have hupdate : ∀ (sv : Server) f, (sv.apply (updateUrl whitelist f)).settings = sv.settings :=
    fun sv f => settings_mapFilters sv _ _
  rw [merged, settings_foldl _ hupdate, settings_foldl _ hadd, settings_foldl _ hremove]

/-- `syncRulesAndToggles` sets the rules if they print differently, else the toggles. -/
theorem exec_syncRulesAndToggles {σ : Type} (orders : MergeSite → MapOrder String)
    (of rf : FilterStatus) (cl : Client) (s : σ) (sv : Server) (he : of.enabled.isSome)
    (hi : of.interval.isSome) (hsv : sv.settings = (rf.userRules, rf.enabled, rf.interval)) :
    ∃ sv', (syncRulesAndToggles of rf cl s).exec (answer orders) sv = (some (.ok (), s), sv') ∧
      sv'.settings =
        if Utils.ptrToString of.userRules ≠ Utils.ptrToString rf.userRules then
          (of.userRules, rf.enabled, rf.interval)
        else (rf.userRules, of.enabled, of.interval) := by
  obtain ⟨e, hof⟩ := Option.isSome_iff_exists.mp he
  obtain ⟨i, hoi⟩ := Option.isSome_iff_exists.mp hi
  unfold syncRulesAndToggles
  split_ifs with hrules htoggles
  · refine ⟨sv.apply (.filteringSetRules { rules := of.userRules }), rfl, ?_⟩
    have hkept : sv.settings.2 = (rf.enabled, rf.interval) := congrArg Prod.snd hsv
    exact congrArg (Prod.mk of.userRules) hkept
  · rw [hof, hoi]
    refine ⟨sv.apply (.filteringConfig { enabled := some e, interval := some i }), rfl, ?_⟩
    have hkept : sv.settings.1 = rf.userRules := congrArg Prod.fst hsv
    exact congrArg (fun r => (r, some e, some i)) hkept
  · refine ⟨sv, rfl, ?_⟩
    have hequal : of.enabled = rf.enabled ∧ of.interval = rf.interval := by
      simpa [not_or] using htoggles
    rw [hsv, hequal.1, hequal.2]

/-- `actionFilters` succeeds, and leaves the rules and the toggles as the last step does. -/
theorem exec_actionFilters (orders : MergeSite → MapOrder String) (ac : ActionContext)
    {o : Origin} {of : FilterStatus} (ho : o.filters = some of) (he : of.enabled.isSome)
    (hi : of.interval.isSome) (sv : Server) :
    ∃ sv', (actionFilters ac o).exec (answer orders) sv = (some (.ok (), o), sv') ∧
      sv'.settings =
        if Utils.ptrToString of.userRules ≠ Utils.ptrToString sv.filtering.userRules then
          (of.userRules, sv.filtering.enabled, sv.filtering.interval)
        else (sv.filtering.userRules, of.enabled, of.interval) := by
  obtain ⟨sv', hexec, hsettings⟩ := exec_syncRulesAndToggles orders of sv.filtering ac.client o
    ((sv.merged false (mergeFilters sv.filtering.filters of.filters
      (orders (.filters false)))).merged true (mergeFilters sv.filtering.whitelistFilters
        of.whitelistFilters (orders (.filters true)))) he hi
    (by rw [settings_merged, settings_merged, settings])
  refine ⟨sv', ?_, hsettings⟩
  unfold actionFilters Client.filtering
  rw [exec_doGet_bind, exec_fromOrigin_bind orders sv ho]
  rw [Act.exec_bind_of_ok (exec_syncFilterType ..), Act.exec_bind_of_ok (exec_syncFilterType ..)]
  exact hexec

end Server

/-- The rules and the toggles converge together if and only if the toggles already agree
where the rules print differently, and the rules agree where they print the same. -/
theorem actionFilters_settings_iff (orders : MergeSite → MapOrder String) (ac : ActionContext)
    (o : Origin) (of : FilterStatus) (ho : o.filters = some of) (he : of.enabled.isSome)
    (hi : of.interval.isSome) (sv : Server) :
    ∃ sv', (actionFilters ac o).exec (Server.answer orders) sv = (some (.ok (), o), sv') ∧
      ((sv'.filtering.userRules.getD [] = of.userRules.getD [] ∧
          sv'.filtering.enabled = of.enabled ∧ sv'.filtering.interval = of.interval) ↔
        (Utils.ptrToString of.userRules ≠ Utils.ptrToString sv.filtering.userRules →
          sv.filtering.enabled = of.enabled ∧ sv.filtering.interval = of.interval) ∧
        (Utils.ptrToString of.userRules = Utils.ptrToString sv.filtering.userRules →
          sv.filtering.userRules.getD [] = of.userRules.getD [])) := by
  obtain ⟨sv', hexec, hsettings⟩ := Server.exec_actionFilters orders ac ho he hi sv
  refine ⟨sv', hexec, ?_⟩
  simp only [Server.settings] at hsettings
  split_ifs at hsettings with hprint
  · obtain ⟨hrules, hkept⟩ := Prod.mk.inj hsettings
    obtain ⟨hkept₁, hkept₂⟩ := Prod.mk.inj hkept
    rw [hrules, hkept₁, hkept₂]
    simp [hprint]
  · obtain ⟨hrules, hset⟩ := Prod.mk.inj hsettings
    obtain ⟨hset₁, hset₂⟩ := Prod.mk.inj hset
    rw [hrules, hset₁, hset₂]
    simp [not_not.mp hprint]

/-- The rules print the same and agree, the toggles do not. -/
theorem actionFilters_settings_iff_sample :
    let of : FilterStatus := { enabled := some true, interval := some 24, userRules := some [] }
    let o : Origin := { filters := some of }
    let sv : Server := { filtering := { enabled := some false, userRules := some [] } }
    ∃ sv', (actionFilters sampleContext o).exec (Server.answer fun _ => .stored) sv =
        (some (.ok (), o), sv') ∧
      ((sv'.filtering.userRules.getD [] = of.userRules.getD [] ∧
          sv'.filtering.enabled = of.enabled ∧ sv'.filtering.interval = of.interval) ↔
        (Utils.ptrToString of.userRules ≠ Utils.ptrToString sv.filtering.userRules →
          sv.filtering.enabled = of.enabled ∧ sv.filtering.interval = of.interval) ∧
        (Utils.ptrToString of.userRules = Utils.ptrToString sv.filtering.userRules →
          sv.filtering.userRules.getD [] = of.userRules.getD [])) :=
  actionFilters_settings_iff _ _ _ _ rfl rfl rfl _

/-- With a new rule on the origin the filtering stays off on the replica. -/
theorem actionFilters_keeps_toggles :
    let of : FilterStatus :=
      { enabled := some true, interval := some 24, userRules := some ["||ads^"] }
    let o : Origin := { filters := some of }
    let sv : Server := { filtering := { enabled := some false, interval := some 24 } }
    let out := (actionFilters sampleContext o).exec (Server.answer fun _ => .stored) sv
    out.1 = some (.ok (), o) ∧ out.2.filtering.userRules = of.userRules ∧
      out.2.filtering.enabled ≠ of.enabled := by
  decide

end AghSync
