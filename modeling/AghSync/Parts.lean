import AghSync.Mirror

/-!
# Parts of a plan

Where requests fail, an instance carries out a part of what a task plans : some of the writes,
in order. Such a part never spoils what the tasks need of an instance (`Task.Fit.of_part`),
since no write of a plan adds a key that the instance has, or that another write adds.
-/

open Interaction Interaction.Prog

namespace AghSync

open Model

/-! ## A part of a plan -/

/-- Writes that add keys which an instance does not have leave it with different keys. -/
theorem nodup_foldl_apply {κ : Type} {f : Instance → List κ} {a : Write → Option κ}
    {ws : List Write} {i : Instance}
    (hstep : ∀ w ∈ ws, ∀ i : Instance, (f (i.apply w)).Sublist (f i ++ (a w).toList))
    (h : (f i ++ ws.filterMap a).Nodup) : (f (ws.foldl Instance.apply i)).Nodup := by
  induction ws generalizing i with
  | nil => simpa using h
  | cons w ws ih =>
    refine ih (fun v hv => hstep v (by simp [hv])) (List.Nodup.sublist ?_ h)
    have hcons : (w :: ws).filterMap a = (a w).toList ++ ws.filterMap a := by
      cases ha : a w <;> simp [ha]
    rw [hcons, ← List.append_assoc]
    exact (hstep w (by simp) i).append (.refl _)

/-- The URL that a write adds to a filter list. -/
def Write.addedUrl (whitelist : Bool) : Write → Option String
  | .filteringAddUrl b => if b.whitelist.getD false = whitelist then some (b.url.getD "") else none
  | _ => none

/-- The MAC of the lease that a write adds. -/
def Write.addedMac : Write → Option String
  | .dhcpAddStaticLease l => some l.mac
  | _ => none

/-- The name of the client that a write adds. -/
def Write.addedName : Write → Option String
  | .clientsAdd c => some c.key
  | _ => none

/-- The client of a write has a name, or keeps that of the client it changes. -/
def Write.KeepsNames : Write → Prop
  | .clientsAdd c => c.name.isSome
  | .clientsUpdate b => ∃ d, b.data = some d ∧ d.name = b.name
  | _ => True

section Keys

variable (i : Instance) (w : Write)

theorem urls_apply (whitelist : Bool) :
    (((i.apply w).filters whitelist).map Filter.url).Sublist
      ((i.filters whitelist).map Filter.url ++ (w.addedUrl whitelist).toList) := by
  have hsame : ∀ (list : Bool) (f : List Filter → List Filter), list = whitelist →
      (i.toServer.mapFilters list f).filters whitelist = f (i.filters whitelist) := by
    rintro list f rfl
    exact i.toServer.filters_mapFilters list f
  have hother : ∀ (list : Bool) (f : List Filter → List Filter), list ≠ whitelist →
      (i.toServer.mapFilters list f).filters whitelist = i.filters whitelist := fun list f h =>
    Server.filters_mapFilters_of_ne h.symm i.toServer f
  cases w with
  | filteringAddUrl b =>
    show (((i.toServer.mapFilters _ _).filters whitelist).map Filter.url).Sublist _
    by_cases hlist : b.whitelist.getD false = whitelist
    · rw [hsame _ _ hlist]
      simp [Write.addedUrl, hlist]
    · rw [hother _ _ hlist]
      exact List.sublist_append_left ..
  | filteringRemoveUrl b =>
    refine List.Sublist.trans (List.Sublist.map _ ?_) (List.sublist_append_left ..)
    show ((i.toServer.mapFilters _ _).filters whitelist).Sublist _
    by_cases hlist : b.whitelist.getD false = whitelist
    · rw [hsame _ _ hlist]
      exact List.filter_sublist
    · rw [hother _ _ hlist]
  | filteringSetUrl b =>
    refine List.Sublist.trans ?_ (List.sublist_append_left ..)
    show (((i.toServer.mapFilters _ _).filters whitelist).map Filter.url).Sublist _
    by_cases hlist : b.whitelist.getD false = whitelist
    · have hurl : Filter.url ∘ Server.setUrl (b.url.getD "") (b.data.getD {}) = Filter.url := by
        funext f
        simp only [Function.comp, Server.setUrl]
        split_ifs <;> rfl
      rw [hsame _ _ hlist, List.map_map, hurl]
    · rw [hother _ _ hlist]
  | _ => exact List.sublist_append_left ..

theorem macs_apply : ((i.apply w).leases.map DhcpStaticLease.mac).Sublist
    (i.leases.map DhcpStaticLease.mac ++ w.addedMac.toList) := by
  have hother : ∀ w : Write, .staticLeases ∉ w.parts → (i.apply w).leases = i.leases :=
    fun w hw => congrArg (Option.getD · []) (Instance.get_apply hw)
  cases w with
  | dhcpAddStaticLease l =>
    have hleases : (i.apply (.dhcpAddStaticLease l)).leases = i.leases ++ [l] := rfl
    simp [hleases, Write.addedMac]
  | dhcpRemoveStaticLease l =>
    exact (List.filter_sublist.map _).trans (List.sublist_append_left ..)
  | filteringAddUrl | filteringRemoveUrl | filteringSetUrl =>
    rw [hother _ (by simp [Write.parts])]
    exact List.sublist_append_left ..
  | _ => exact List.sublist_append_left ..

theorem names_apply (hw : w.KeepsNames) : ((i.apply w).clients.map Model.Client.key).Sublist
    (i.clients.map Model.Client.key ++ w.addedName.toList) := by
  cases w with
  | clientsAdd c =>
    have hclients : (i.apply (.clientsAdd c)).clients = i.clients ++ [c] := rfl
    simp [hclients, Write.addedName]
  | clientsDelete c =>
    exact (List.filter_sublist.map _).trans (List.sublist_append_left ..)
  | clientsUpdate b =>
    obtain ⟨d, hd, hname⟩ := hw
    have hclients : (i.apply (.clientsUpdate b)).clients =
        i.clients.map fun c => if c.name = b.name then b.data.getD c else c := rfl
    have hkey : Model.Client.key ∘ (fun c : Model.Client =>
        if c.name = b.name then b.data.getD c else c) = Model.Client.key := by
      funext c
      simp only [Function.comp]
      split_ifs with hc
      · rw [hd]
        exact congrArg (Option.getD · "") (hname.trans hc.symm)
      · rfl
    rw [hclients, List.map_map, hkey]
    exact List.sublist_append_left ..
  | _ => exact List.sublist_append_left ..

theorem named_apply (hw : w.KeepsNames) (hi : ∀ c ∈ i.clients, c.name.isSome) :
    ∀ c ∈ (i.apply w).clients, c.name.isSome := by
  cases w with
  | clientsAdd c =>
    intro d hd
    rcases List.mem_append.mp hd with hd | hd
    · exact hi d hd
    · rw [List.mem_singleton.mp hd]
      exact hw
  | clientsDelete c => exact fun d hd => hi d (List.mem_of_mem_filter hd)
  | clientsUpdate b =>
    obtain ⟨d, hd, hname⟩ := hw
    intro c hc
    obtain ⟨e, he, rfl⟩ := List.mem_map.mp hc
    split_ifs with hsame
    · have hkept : d.name = e.name := hname.trans hsame.symm
      rw [hd, Option.getD_some, hkept]
      exact hi e he
    · exact hi e he
  | _ => exact hi

end Keys

theorem named_foldl_apply {ws : List Write} {i : Instance} (hws : ∀ w ∈ ws, w.KeepsNames)
    (hi : ∀ c ∈ i.clients, c.name.isSome) :
    ∀ c ∈ (ws.foldl Instance.apply i).clients, c.name.isSome := by
  induction ws generalizing i with
  | nil => exact hi
  | cons w ws ih =>
    exact ih (fun v hv => hws v (by simp [hv])) (named_apply i w (hws w (by simp)) hi)

namespace Task

variable {ac : ActionContext} {g i : Instance} {T T' : Task} {ws ws' : List Write}

/-- Of a plan for one list, the additions add to it. -/
theorem addedUrl_filterTypePlan (this other : Option (List Filter)) (list whitelist : Bool)
    (order : MapOrder String) :
    (filterTypePlan other this list order).filterMap (Write.addedUrl whitelist) =
      if list = whitelist then (mergeFilters this other order).adds.map Filter.url else [] := by
  have hnone : ∀ (ws : List Write), (∀ w ∈ ws, w.addedUrl whitelist = none) →
      ws.filterMap (Write.addedUrl whitelist) = [] := fun ws => List.filterMap_eq_nil_iff.mpr
  obtain ⟨rest, hplan, hrest⟩ := Instance.filterTypePlan_eq this other list order
  rw [hplan, List.filterMap_append, List.filterMap_append, List.filterMap_append,
    hnone _ (List.forall_mem_map.mpr fun _ _ => rfl),
    hnone (List.map (Server.updateUrl list) _) (List.forall_mem_map.mpr fun _ _ => rfl),
    hnone rest fun w hw => by obtain ⟨b, rfl⟩ := hrest w hw; rfl, List.append_nil,
    List.append_nil, List.nil_append, List.filterMap_map]
  split_ifs with hlist
  · refine (List.filterMap_congr fun f _ => ?_).trans (congrFun List.filterMap_eq_map _)
    exact if_pos hlist
  · exact List.filterMap_eq_nil_iff.mpr fun f _ => if_neg hlist

theorem addedUrl_settingsPlan (o rf : FilterStatus) (whitelist : Bool) :
    (settingsPlan o rf).filterMap (Write.addedUrl whitelist) = [] := by
  unfold settingsPlan
  split_ifs
  · rfl
  · cases o.enabled <;> cases o.interval <;> rfl
  · rfl

theorem nodup_urls_filtersPlan {order : Bool → MapOrder String} (whitelist : Bool)
    (hg : ∀ whitelist, ((g.filters whitelist).map Filter.url).Nodup) (hi : filters.Fit i) :
    ((i.filters whitelist).map Filter.url ++ (filtersPlan i.filtering (some g.filtering)
      order).filterMap (Write.addedUrl whitelist)).Nodup := by
  have hplan : (filtersPlan i.filtering (some g.filtering) order).filterMap
      (Write.addedUrl whitelist) = (mergeFilters (i.filterList whitelist) (g.filterList whitelist)
        (order whitelist)).adds.map Filter.url := by
    simp only [filtersPlan, List.filterMap_append, addedUrl_settingsPlan,
      addedUrl_filterTypePlan]
    cases whitelist <;> simp [Server.filterList]
  have hfresh := (mergeFilters_fresh_iff (i.filterList whitelist) (g.filterList whitelist)
    (order whitelist)).mpr (hg whitelist)
  rw [hplan]
  refine List.Nodup.append (hi whitelist) (List.nodup_append.mp hfresh.nodup).1 ?_
  exact fun url hurl hadd => hfresh.not_present url hadd hurl

/-- A part of what a task plans leaves the instance as the task needs it. -/
theorem Fit.of_sublist (hi : T.Fit i) (hg : T.Sound g) (h : T.Plans ac g i ws)
    (hsub : ws'.Sublist ws) : T.Fit (ws'.foldl Instance.apply i) := by
  cases T with
  | document a =>
    cases a with
    | setting s => cases s <;> trivial
    | dhcpServer => trivial
    | dnsServer =>
      rcases plans_document_cases h with ⟨-, rfl⟩ | ⟨d, hsome, rfl⟩
      · rw [List.sublist_nil.mp hsub]
        exact hi
      · obtain ⟨equal, -, hd⟩ := Option.bind_eq_some_iff.mp hsome
        split_ifs at hd
        obtain rfl := Option.some.inj hd
        rcases List.sublist_singleton.mp hsub with rfl | rfl
        · exact hi
        · exact DNSConfig.Sortable.overlay hi hg
  | filters =>
    obtain ⟨order, rfl⟩ := h
    refine fun whitelist => nodup_foldl_apply (f := fun i => (i.filters whitelist).map Filter.url)
      (fun w _ i => urls_apply i w whitelist) ?_
    exact (nodup_urls_filtersPlan whitelist hg.1 hi).sublist
      ((List.Sublist.refl _).append (hsub.filterMap _))
  | clientSettings =>
    obtain ⟨o₁, o₂, m, hm, rfl⟩ := h
    have hp := Clients.partition_of_merge hi hg.1 hm
    have hnames := Clients.names_of_merge hm
    have hkeeps : ∀ w ∈ ws', w.KeepsNames := fun w hw => by
      have hw := hsub.subset hw
      simp only [ClientsMerge.writes, List.map_append, List.map_map, List.mem_append,
        List.mem_map] at hw
      rcases hw with ⟨c, -, rfl⟩ | ⟨c, hc, rfl⟩ | ⟨c, -, rfl⟩
      · trivial
      · exact hnames c (by simp [hc])
      · exact ⟨c, rfl, rfl⟩
    have hplan : (m.writes.map Prod.fst).filterMap Write.addedName = m.adds.map Client.key := by
      simp [ClientsMerge.writes, Function.comp_def, Write.addedName]
    refine ⟨named_foldl_apply hkeeps hi.names,
      nodup_foldl_apply (f := fun i => i.clients.map Model.Client.key)
        (fun w hw i => names_apply i w (hkeeps w hw)) (List.Nodup.sublist
          ((List.Sublist.refl _).append (hsub.filterMap Write.addedName)) ?_)⟩
    rw [hplan]
    refine List.Nodup.append hi.keys hp.nodup.of_append_left.of_append_left ?_
    exact fun k hk hadd => ((hp.adds k).mp hadd).2 hk
  | dhcpStaticLeases =>
    obtain ⟨order, rfl⟩ := h
    have hfresh := (mergeDhcpStaticLeases_fresh_iff i.dhcp.staticLeases g.dhcp.staticLeases
      order).mpr hg
    refine nodup_foldl_apply (f := fun i => i.leases.map DhcpStaticLease.mac)
      (fun w _ i => macs_apply i w) (List.Nodup.sublist
        ((List.Sublist.refl _).append (hsub.filterMap Write.addedMac)) ?_)
    have hplan : (leasesPlan i.dhcp.staticLeases g.dhcp.staticLeases order).filterMap
        Write.addedMac = (mergeDhcpStaticLeases i.dhcp.staticLeases g.dhcp.staticLeases
          order).adds.map DhcpStaticLease.mac := by
      simp [leasesPlan, Function.comp_def, Write.addedMac]
    rw [hplan]
    refine List.Nodup.append hi (List.nodup_append.mp hfresh.nodup).1 ?_
    exact fun mac hmac hadd => hfresh.not_present mac hadd hmac
  | _ => trivial

/-- So does a part of what another task plans. -/
theorem Fit.frame (hi : T.Fit i) (h : T'.Plans ac g i ws) (hne : T ≠ T')
    (hsub : ws'.Sublist ws) : T.Fit (ws'.foldl Instance.apply i) := by
  refine hi.of_get fun p hp hprotection => get_foldl_apply fun w hw hpw => hne ?_
  exact (ofPart_eq hp hprotection).symm.trans
    (ofPart_eq (h.parts (hsub.subset hw) hpw) hprotection)

/-- What is done of a task leaves an instance as the tasks need it. -/
theorem Fit.of_part (hi : T.Fit i) (hg : T'.Sound g)
    (h : ws = [] ∨ ∃ plan, T'.Plans ac g i plan ∧ ws.Sublist plan) :
    T.Fit (ws.foldl Instance.apply i) := by
  rcases h with rfl | ⟨plan, hplan, hsub⟩
  · exact hi
  · by_cases hsame : T = T'
    · subst hsame
      exact hi.of_sublist hg hplan hsub
    · exact hi.frame hplan hsame hsub

end Task

end AghSync
