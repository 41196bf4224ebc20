import AghSync.Decisions
import AghSync.Effects
import AghSync.Frame

/-!
# A replica that mirrors the origin

`Task.Mirrors` says for each task when a replica has what the task is to keep in sync. A pass
brings each task there, the rewrites and the filters in two (`Task.advance`) : of rewrites that
the replica has twice all copies are deleted first, a filter that is new on the replica is
enabled there, and the toggles wait for the rules. Where a replica mirrors the origin the task
changes nothing (`Task.still`), and what the other tasks do does not change that
(`Task.frame`).
-/

open Interaction Interaction.Prog

namespace AghSync

open Model

/-- The settings that `c` has are as in `c`. -/
structure Model.DhcpStatus.Holds (d c : DhcpStatus) : Prop where
  enabled : (c.enabled <|> d.enabled) = d.enabled
  interfaceName : (c.interfaceName <|> d.interfaceName) = d.interfaceName
  v4 : (c.v4 <|> d.v4) = d.v4
  v6 : (c.v6 <|> d.v6) = d.v6

/-- The DHCP settings of the origin as they are sent to a replica. -/
def ActionContext.sentDhcp (ac : ActionContext) (g : Instance) : DhcpStatus :=
  (ac.replica.overrideDhcp (ac.deps.copierCopy g.dhcp)).cleanV4V6

namespace Task

/-- The replica has what the task keeps in sync. -/
def Mirrors (ac : ActionContext) (g i : Instance) : Task → Prop
  | profileInfo => i.profile.name = "" ∨ g.profile.language = "" ∨
    g.profile.language = i.profile.language
  | protection => i.protectionEnabled = g.protectionEnabled
  | parental => i.parental = g.parental
  | safeBrowsing => i.safeBrowsing = g.safeBrowsing
  | document (.setting s) => s.equals (g.doc s.read) (i.doc s.read) = true
  | document .dnsServer => i.dns.Sortable ∧
    (i.dns.equals g.dns = some true ∨ i.dns.overlay g.dns = i.dns)
  | document .dhcpServer => g.dhcp.hasConfig = true → i.dhcp.Holds (ac.sentDhcp g)
  | dnsRewrites => (i.rewrites.map RewriteEntry.key).Nodup ∧
    ∀ k, k ∈ i.rewrites.map RewriteEntry.key ↔ k ∈ g.rewrites.map RewriteEntry.key
  | filters => (∀ whitelist, (i.filters whitelist).Perm (g.filters whitelist)) ∧
    Utils.ptrToString g.filtering.userRules = Utils.ptrToString i.filtering.userRules ∧
    g.filtering.enabled = i.filtering.enabled ∧ g.filtering.interval = i.filtering.interval
  | clientSettings => Clients.Mirror i.clients g.clients
  | dhcpStaticLeases => (i.leases.map DhcpStaticLease.mac).Nodup ∧
    ∀ mac, mac ∈ i.leases.map DhcpStaticLease.mac ↔ mac ∈ g.leases.map DhcpStaticLease.mac

/-- What one pass makes of any replica. -/
def Halfway (ac : ActionContext) (g i : Instance) : Task → Prop
  | dnsRewrites => (i.rewrites.map RewriteEntry.key).Nodup ∧
    ∀ k ∈ i.rewrites.map RewriteEntry.key, k ∈ g.rewrites.map RewriteEntry.key
  | filters => (∀ whitelist,
      ((i.filters whitelist).map Filter.url).Perm ((g.filters whitelist).map Filter.url)) ∧
    Utils.ptrToString g.filtering.userRules = Utils.ptrToString i.filtering.userRules
  | T => T.Mirrors ac g i

/-- How far `n` passes bring a replica. -/
def Stage (ac : ActionContext) (g i : Instance) (T : Task) : ℕ → Prop
  | 0 => T.Fit i
  | 1 => T.Halfway ac g i
  | _ => T.Mirrors ac g i

/-- The task writes nothing. -/
def Idle (ac : ActionContext) (g i : Instance) : Task → Prop
  | protection => g.protectionEnabled = ac.replicaStatus.protectionEnabled
  | document .dnsServer => i.dns.equals g.dns = some true
  | document .dhcpServer => g.dhcp.hasConfig = true → i.dhcp.cleanV4V6 = ac.sentDhcp g
  | T => T.Mirrors ac g i

/-! ## Origins that are alike -/

section Like

variable {ac : ActionContext} {g g' i : Instance} {T : Task}

theorem map_key_of_sort_eq {cs cs' : List Model.Client}
    (h : cs'.map Client.sort = cs.map Client.sort) : cs'.map Client.key = cs.map Client.key := by
  have hkey : Client.key = Client.key ∘ Client.sort := rfl
  rw [hkey, ← List.map_map, ← List.map_map, h]

theorem exists_sort_eq {cs cs' : List Model.Client} (h : cs'.map Client.sort = cs.map Client.sort)
    {c : Model.Client} (hc : c ∈ cs') : ∃ d ∈ cs, d.sort = c.sort :=
  List.mem_map.mp (h ▸ List.mem_map_of_mem hc)

theorem sound_of_sort_eq {cs cs' : List Model.Client} (h : cs'.map Client.sort = cs.map Client.sort)
    (hcs : (⟨some cs⟩ : Clients).Named ∧ ∀ c ∈ cs, c.KeepsTimeZone) :
    (⟨some cs'⟩ : Clients).Named ∧ ∀ c ∈ cs', c.KeepsTimeZone := by
  refine ⟨⟨fun c hc => ?_, ?_⟩, fun c hc => ?_⟩
  · obtain ⟨d, hd, hsort⟩ := exists_sort_eq h hc
    have hname : d.sort.name = c.sort.name := congrArg Model.Client.name hsort
    exact (congrArg Option.isSome hname).symm.trans (hcs.1.names d hd)
  · rw [Option.getD_some, map_key_of_sort_eq h]
    exact hcs.1.keys
  · obtain ⟨d, hd, hsort⟩ := exists_sort_eq h hc
    have hschedule : d.sort.blockedServicesSchedule = c.sort.blockedServicesSchedule :=
      congrArg Model.Client.blockedServicesSchedule hsort
    intro t ht
    exact hcs.2 d hd t (hschedule.trans ht)

theorem mirror_of_sort_eq {is cs cs' : List Model.Client}
    (h : cs'.map Client.sort = cs.map Client.sort) (hcs : Clients.Mirror is cs) :
    Clients.Mirror is cs' := by
  refine ⟨hcs.named, fun k => ?_, fun c hc d hd hkey => ?_⟩
  · rw [map_key_of_sort_eq h]
    exact hcs.keys k
  · obtain ⟨e, he, hsort⟩ := exists_sort_eq h hc
    have hkey' : d.key = e.key := hkey.trans (congrArg Client.key hsort).symm
    exact (Client.alike_iff_of_sort_eq hsort rfl).mp (hcs.alike e he d hd hkey')

theorem equals_doc_iff (s : Setting) (h : g'.Like g) (d : Doc s.read) :
    s.equals (g'.doc s.read) d = true ↔ s.equals (g.doc s.read) d = true := by
  cases s with
  | accessLists =>
    refine AccessList.equals_iff.trans (Iff.trans ?_ AccessList.equals_iff.symm)
    exact ⟨fun hd => hd.trans h.accessList, fun hd => hd.trans h.accessList.symm⟩
  | _ =>
    obtain ⟨al, cs, rfl⟩ := h.exists_eq
    exact Iff.rfl

theorem Sound.congr (hg : T.Sound g) (h : g'.Like g) : T.Sound g' := by
  cases T with
  | clientSettings => exact sound_of_sort_eq h.clients hg
  | filters =>
    obtain ⟨al, cs, rfl⟩ := h.exists_eq
    exact hg
  | document a =>
    obtain ⟨al, cs, rfl⟩ := h.exists_eq
    cases a with
    | setting s => cases s <;> exact hg
    | _ => exact hg
  | _ =>
    obtain ⟨al, cs, rfl⟩ := h.exists_eq
    exact hg

theorem Mirrors.congr (hi : T.Mirrors ac g i) (h : g'.Like g) : T.Mirrors ac g' i := by
  cases T with
  | clientSettings => exact mirror_of_sort_eq h.clients hi
  | document a =>
    cases a with
    | setting s => exact (equals_doc_iff s h _).mpr hi
    | _ =>
      obtain ⟨al, cs, rfl⟩ := h.exists_eq
      exact hi
  | _ =>
    obtain ⟨al, cs, rfl⟩ := h.exists_eq
    exact hi

theorem Idle.congr (hi : T.Idle ac g i) (h : g'.Like g) : T.Idle ac g' i := by
  cases T with
  | protection =>
    obtain ⟨al, cs, rfl⟩ := h.exists_eq
    exact hi
  | document a =>
    cases a with
    | setting s => exact (equals_doc_iff s h _).mpr hi
    | _ =>
      obtain ⟨al, cs, rfl⟩ := h.exists_eq
      exact hi
  | profileInfo => exact (show Mirrors ac g i profileInfo from hi).congr h
  | parental => exact (show Mirrors ac g i parental from hi).congr h
  | safeBrowsing => exact (show Mirrors ac g i safeBrowsing from hi).congr h
  | dnsRewrites => exact (show Mirrors ac g i dnsRewrites from hi).congr h
  | filters => exact (show Mirrors ac g i filters from hi).congr h
  | clientSettings => exact (show Mirrors ac g i clientSettings from hi).congr h
  | dhcpStaticLeases => exact (show Mirrors ac g i dhcpStaticLeases from hi).congr h

theorem halfway_iff_mirrors (hrewrites : T ≠ dnsRewrites) (hfilters : T ≠ filters) :
    T.Halfway ac g i ↔ T.Mirrors ac g i := by
  cases T with
  | dnsRewrites => exact absurd rfl hrewrites
  | filters => exact absurd rfl hfilters
  | _ => exact Iff.rfl

theorem Halfway.congr (hi : T.Halfway ac g i) (h : g'.Like g) : T.Halfway ac g' i := by
  cases T with
  | dnsRewrites | filters =>
    obtain ⟨al, cs, rfl⟩ := h.exists_eq
    exact hi
  | _ =>
    refine (halfway_iff_mirrors (by nofun) (by nofun)).mpr (Mirrors.congr ?_ h)
    exact (halfway_iff_mirrors (by nofun) (by nofun)).mp hi

theorem Stage.congr {n : ℕ} (hi : T.Stage ac g i n) (h : g'.Like g) : T.Stage ac g' i n := by
  rcases n with _ | _ | n
  · exact hi
  · exact Halfway.congr hi h
  · exact Mirrors.congr hi h

end Like

/-! ## What the other tasks leave alone -/

/-- The groups of settings that a task writes. -/
def parts : Task → List Part
  | profileInfo => [.profile, .theme]
  | protection => [.protection]
  | parental => [.parental]
  | safeBrowsing => [.safeBrowsing]
  | document (.setting .safeSearch) => [.safeSearch]
  | document (.setting .queryLog) => [.queryLog]
  | document (.setting .stats) => [.stats]
  | document (.setting .blockedServices) => [.blockedServices]
  | document (.setting .accessLists) => [.accessList]
  | document (.setting .tls) => [.tls]
  | document .dnsServer => [.dns, .protection]
  | document .dhcpServer => [.dhcp]
  | dnsRewrites => [.rewrites]
  | filters => [.filtering]
  | clientSettings => [.clients]
  | dhcpStaticLeases => [.staticLeases]

/-- The task that writes a group. The DNS configuration also has the protection. -/
def ofPart : Part → Task
  | .profile | .theme => profileInfo
  | .protection => protection
  | .parental => parental
  | .safeBrowsing => safeBrowsing
  | .safeSearch => document (.setting .safeSearch)
  | .queryLog => document (.setting .queryLog)
  | .stats => document (.setting .stats)
  | .blockedServices => document (.setting .blockedServices)
  | .accessList => document (.setting .accessLists)
  | .tls => document (.setting .tls)
  | .dns => document .dnsServer
  | .dhcp => document .dhcpServer
  | .rewrites => dnsRewrites
  | .filtering => filters
  | .clients => clientSettings
  | .staticLeases => dhcpStaticLeases

theorem ofPart_eq {T : Task} {p : Part} (hp : p ∈ T.parts) (hne : p ≠ .protection) :
    ofPart p = T := by
  cases T with
  | document a =>
    cases a with
    | setting s =>
      cases s <;> simp only [parts, List.mem_singleton] at hp <;> subst hp <;> rfl
    | dnsServer =>
      simp only [parts, List.mem_cons, List.not_mem_nil, or_false, hne] at hp
      subst hp
      rfl
    | dhcpServer =>
      simp only [parts, List.mem_singleton] at hp
      subst hp
      rfl
  | profileInfo =>
    simp only [parts, List.mem_cons, List.not_mem_nil, or_false] at hp
    rcases hp with rfl | rfl <;> rfl
  | _ =>
    simp only [parts, List.mem_singleton] at hp
    subst hp
    rfl

theorem eq_of_protection_mem {T : Task} (h : .protection ∈ T.parts) :
    T = protection ∨ T = document .dnsServer := by
  cases T with
  | protection => exact Or.inl rfl
  | document a =>
    cases a with
    | setting s => cases s <;> simp [parts] at h
    | dnsServer => exact Or.inr rfl
    | dhcpServer => simp [parts] at h
  | _ => simp [parts] at h

section Frame

variable {ac : ActionContext} {g i i' : Instance} {T T' : Task} {ws : List Write} {n : ℕ}

theorem parts_write (a : DocAction) (d : Doc a.read) : (a.write d).parts = (document a).parts := by
  cases a with
  | setting s => cases s <;> rfl
  | _ => rfl

theorem parts_filterTypePlan {this other : Option (List Filter)} {whitelist : Bool}
    {order : MapOrder String} {w : Write} (h : w ∈ filterTypePlan other this whitelist order) :
    w.parts ⊆ [.filtering] := by
  simp only [filterTypePlan, List.mem_append, List.mem_map] at h
  rcases h with ⟨f, -, rfl⟩ | ⟨f, -, rfl⟩ | ⟨f, -, rfl⟩ | h
  · exact List.Subset.refl _
  · exact List.Subset.refl _
  · exact List.Subset.refl _
  · split_ifs at h
    · rw [List.mem_singleton.mp h]
      exact List.nil_subset _
    · cases h

theorem parts_settingsPlan {o rf : FilterStatus} {w : Write} (h : w ∈ settingsPlan o rf) :
    w.parts ⊆ [.filtering] := by
  unfold settingsPlan at h
  split_ifs at h
  · rw [List.mem_singleton.mp h]
    exact List.Subset.refl _
  · cases he : o.enabled <;> cases hi : o.interval <;> simp only [he, hi] at h
    · cases h
    · cases h
    · cases h
    · rw [List.mem_singleton.mp h]
      exact List.Subset.refl _
  · cases h

/-- A task writes its own groups. -/
theorem Plans.parts (h : T.Plans ac g i ws) {w : Write} (hw : w ∈ ws) : w.parts ⊆ T.parts := by
  have hone : ∀ {c : Prop} [Decidable c] {w' : Write}, ws = (if c then [w'] else []) → w = w' := by
    rintro c _ w' rfl
    split_ifs at hw
    · exact List.mem_singleton.mp hw
    · cases hw
  cases T with
  | profileInfo =>
    obtain rfl := h
    obtain ⟨p, -, rfl⟩ := Option.map_eq_some_iff.mp (Option.mem_toList.mp hw)
    exact List.Subset.refl _
  | protection => rw [hone h]; exact List.Subset.refl _
  | parental => rw [hone h]; exact List.Subset.refl _
  | safeBrowsing => rw [hone h]; exact List.Subset.refl _
  | document a =>
    obtain rfl := h
    obtain ⟨d, -, rfl⟩ := Option.map_eq_some_iff.mp (Option.mem_toList.mp hw)
    rw [parts_write]
    exact List.Subset.refl _
  | dnsRewrites =>
    obtain ⟨order, rfl⟩ := h
    simp only [rewritesPlan, List.mem_append, List.mem_map] at hw
    rcases hw with ⟨e, -, rfl⟩ | ⟨e, -, rfl⟩ <;> exact List.Subset.refl _
  | filters =>
    obtain ⟨order, rfl⟩ := h
    simp only [filtersPlan, List.mem_append] at hw
    rcases hw with hw | hw | hw
    · exact parts_filterTypePlan hw
    · exact parts_filterTypePlan hw
    · exact parts_settingsPlan hw
  | clientSettings =>
    obtain ⟨o₁, o₂, m, -, rfl⟩ := h
    simp only [ClientsMerge.writes, List.map_append, List.map_map, List.mem_append,
      List.mem_map] at hw
    rcases hw with ⟨c, -, rfl⟩ | ⟨c, -, rfl⟩ | ⟨c, -, rfl⟩ <;> exact List.Subset.refl _
  | dhcpStaticLeases =>
    obtain ⟨order, rfl⟩ := h
    simp only [leasesPlan, List.mem_append, List.mem_map] at hw
    rcases hw with ⟨l, -, rfl⟩ | ⟨l, -, rfl⟩ <;> exact List.Subset.refl _

theorem get_foldl_apply {p : Part} : ∀ {ws : List Write} {i : Instance},
    (∀ w ∈ ws, p ∉ w.parts) → (ws.foldl Instance.apply i).get p = i.get p
  | [], _, _ => rfl
  | w :: ws, i, h => by
    have hrest : ∀ v ∈ ws, p ∉ v.parts := fun v hv => h v (by simp [hv])
    exact (get_foldl_apply hrest).trans (Instance.get_apply (h w (by simp)))

/-! How far a replica is with a task is a matter of the groups that the task writes. -/

theorem filters_eq_of_get (h : i'.get .filtering = i.get .filtering) (w : Bool) :
    i'.filters w = i.filters w :=
  congrArg (fun f : FilterStatus => (if w then f.whitelistFilters else f.filters).getD []) h

theorem dns_eq_of_get (h : i'.get .dns = i.get .dns)
    (h' : i'.get .protection = i.get .protection) : i'.dns = i.dns := by
  have hd : ∀ d : DNSConfig, d = { { d with protectionEnabled := none } with
      protectionEnabled := d.protectionEnabled } := fun d => rfl
  have hrest : ({ i'.dns with protectionEnabled := none } : DNSConfig) =
      { i.dns with protectionEnabled := none } := h
  have hprotection : i'.dns.protectionEnabled = i.dns.protectionEnabled := h'
  rw [hd i'.dns, hd i.dns, hrest, hprotection]

theorem doc_eq_of_get (s : Setting)
    (h : ∀ p ∈ (document (.setting s)).parts, i'.get p = i.get p) :
    i'.doc s.read = i.doc s.read := by
  cases s with
  | safeSearch => exact h .safeSearch (by simp [Task.parts])
  | queryLog => exact h .queryLog (by simp [Task.parts])
  | stats => exact h .stats (by simp [Task.parts])
  | blockedServices => exact h .blockedServices (by simp [Task.parts])
  | accessLists => exact h .accessList (by simp [Task.parts])
  | tls => exact h .tls (by simp [Task.parts])

/-- What a task needs of the replica is not a matter of the protection. -/
theorem Fit.of_get (hi : T.Fit i) (h : ∀ p ∈ T.parts, p ≠ .protection → i'.get p = i.get p) :
    T.Fit i' := by
  cases T with
  | document a =>
    cases a with
    | setting s => cases s <;> trivial
    | dnsServer =>
      have hdns : ({ i'.dns with protectionEnabled := none } : DNSConfig) =
          { i.dns with protectionEnabled := none } := h .dns (by simp [Task.parts]) nofun
      have hrest : ({ i.dns with protectionEnabled := none } : DNSConfig).Sortable := hi
      rw [← hdns] at hrest
      exact hrest
    | dhcpServer => trivial
  | filters =>
    simpa only [Fit, filters_eq_of_get (h .filtering (by simp [Task.parts]) nofun)] using hi
  | clientSettings =>
    have hpart : i'.clients = i.clients := h .clients (by simp [Task.parts]) nofun
    simpa only [Fit, hpart] using hi
  | dhcpStaticLeases =>
    have hpart : i'.leases = i.leases :=
      congrArg (Option.getD · []) (h .staticLeases (by simp [Task.parts]) nofun)
    simpa only [Fit, hpart] using hi
  | _ => trivial

theorem Mirrors.of_get (hi : T.Mirrors ac g i) (h : ∀ p ∈ T.parts, i'.get p = i.get p) :
    T.Mirrors ac g i' := by
  cases T with
  | profileInfo =>
    obtain ⟨hname, hlanguage⟩ := Prod.mk.inj (h .profile (by simp [Task.parts]))
    simpa only [Mirrors, hname, hlanguage] using hi
  | protection =>
    have hpart : i'.protectionEnabled = i.protectionEnabled :=
      congrArg (Option.getD · false) (h .protection (by simp [Task.parts]))
    exact hpart.trans hi
  | parental => exact (h .parental (by simp [Task.parts])).trans hi
  | safeBrowsing => exact (h .safeBrowsing (by simp [Task.parts])).trans hi
  | document a =>
    cases a with
    | setting s => simpa only [Mirrors, doc_eq_of_get s h] using hi
    | dnsServer =>
      have hdns := dns_eq_of_get (h .dns (by simp [Task.parts]))
        (h .protection (by simp [Task.parts]))
      simpa only [Mirrors, hdns] using hi
    | dhcpServer =>
      have hpart : ({ i'.dhcp with staticLeases := none } : DhcpStatus) =
          { i.dhcp with staticLeases := none } := h .dhcp (by simp [Task.parts])
      refine fun hconfig => ?_
      obtain ⟨henabled, hinterface, hv4, hv6⟩ := hi hconfig
      obtain ⟨he, hn, -, -, h4, h6⟩ := DhcpStatus.mk.inj hpart
      exact ⟨he ▸ henabled, hn ▸ hinterface, h4 ▸ hv4, h6 ▸ hv6⟩
  | dnsRewrites =>
    have hpart : i'.rewrites = i.rewrites := h .rewrites (by simp [Task.parts])
    simpa only [Mirrors, hpart] using hi
  | filters =>
    have hget := h .filtering (by simp [Task.parts])
    have hpart : i'.filtering = i.filtering := hget
    simpa only [Mirrors, hpart, filters_eq_of_get hget] using hi
  | clientSettings =>
    have hpart : i'.clients = i.clients := h .clients (by simp [Task.parts])
    simpa only [Mirrors, hpart] using hi
  | dhcpStaticLeases =>
    have hpart : i'.leases = i.leases :=
      congrArg (Option.getD · []) (h .staticLeases (by simp [Task.parts]))
    simpa only [Mirrors, hpart] using hi

theorem Halfway.of_get (hi : T.Halfway ac g i) (h : ∀ p ∈ T.parts, i'.get p = i.get p) :
    T.Halfway ac g i' := by
  cases T with
  | dnsRewrites =>
    have hpart : i'.rewrites = i.rewrites := h .rewrites (by simp [Task.parts])
    simpa only [Halfway, hpart] using hi
  | filters =>
    have hget := h .filtering (by simp [Task.parts])
    have hpart : i'.filtering = i.filtering := hget
    simpa only [Halfway, hpart, filters_eq_of_get hget] using hi
  | _ =>
    refine (halfway_iff_mirrors (by nofun) (by nofun)).mpr (Mirrors.of_get ?_ h)
    exact (halfway_iff_mirrors (by nofun) (by nofun)).mp hi

theorem Stage.of_get (hi : T.Stage ac g i n) (h : ∀ p ∈ T.parts, i'.get p = i.get p) :
    T.Stage ac g i' n := by
  rcases n with _ | _ | n
  · exact Fit.of_get hi fun p hp _ => h p hp
  · exact Halfway.of_get hi h
  · exact Mirrors.of_get hi h

/-! The protection is the one group that two tasks write. -/

theorem protectionEnabled_dnsServer (h : (document .dnsServer).Plans ac g i ws)
    (hi : i.protectionEnabled = g.protectionEnabled) :
    (ws.foldl Instance.apply i).protectionEnabled = g.protectionEnabled := by
  obtain rfl := h
  cases hupdate : DocAction.dnsServer.update ac (g.doc .dnsInfo) (i.doc .dnsInfo) with
  | none => exact hi
  | some d =>
    obtain ⟨equal, -, hd⟩ := Option.bind_eq_some_iff.mp hupdate
    split_ifs at hd
    obtain rfl := Option.some.inj hd
    have hoverlay : (i.dns.overlay g.dns).protectionEnabled =
        (g.dns.protectionEnabled <|> i.dns.protectionEnabled) := rfl
    show ((i.dns.overlay g.dns).protectionEnabled).getD false = g.dns.protectionEnabled.getD false
    have hi : i.dns.protectionEnabled.getD false = g.dns.protectionEnabled.getD false := hi
    rw [hoverlay]
    cases hg : g.dns.protectionEnabled with
    | none => rwa [hg] at hi
    | some b => rfl

theorem protectionEnabled_of_equals {c o : DNSConfig} (h : c.equals o = some true) :
    c.protectionEnabled = o.protectionEnabled := by
  obtain ⟨hc, ho⟩ := DNSConfig.sortable_of_equals h
  obtain ⟨b, hb, hiff⟩ := DNSConfig.equals_of_sortable hc ho
  obtain rfl := Option.some.inj (hb.symm.trans h)
  have hsame := hiff.mp rfl
  split_ifs at hsame
  · rw [hsame]
  · rw [hsame.rest]

/-- A configuration that has the fields of `c` has them with the protection of `c`. -/
theorem overlay_protection {d c : DNSConfig} (h : d.overlay c = d) :
    ({ d with protectionEnabled := some (c.protectionEnabled.getD false) } : DNSConfig).overlay c =
      { d with protectionEnabled := some (c.protectionEnabled.getD false) } := by
  have hset : ({ d with protectionEnabled := some (c.protectionEnabled.getD false) } :
      DNSConfig).overlay c =
        { d.overlay c with protectionEnabled := some (c.protectionEnabled.getD false) } := by
    cases hc : c.protectionEnabled <;> simp [DNSConfig.overlay, hc]
  rw [hset, h]

theorem mirrors_dnsServer_protection (h : protection.Plans ac g i ws)
    (hstatus : ac.replicaStatus.protectionEnabled = i.protectionEnabled)
    (hi : (document .dnsServer).Mirrors ac g i) :
    (document .dnsServer).Mirrors ac g (ws.foldl Instance.apply i) := by
  obtain ⟨hsortable, hcases⟩ := hi
  obtain rfl := h
  split_ifs with hne
  · refine ⟨hsortable, ?_⟩
    rcases hcases with hequals | hoverlay
    · have hsame : i.protectionEnabled = g.protectionEnabled :=
        congrArg (Option.getD · false) (protectionEnabled_of_equals hequals)
      exact absurd (hstatus.trans hsame).symm hne
    · exact Or.inr (overlay_protection hoverlay)
  · exact ⟨hsortable, hcases⟩

/-- What another task does leaves a task where it is. -/
theorem Stage.frame (hi : T.Stage ac g i n) (hplan : T'.Plans ac g i ws) (hne : T ≠ T')
    (hstatus : T' = protection → ac.replicaStatus.protectionEnabled = i.protectionEnabled) :
    T.Stage ac g (ws.foldl Instance.apply i) n := by
  have hdisjoint : ∀ p ∈ T.parts, p ≠ .protection → p ∉ T'.parts := fun p hp hne' hp' =>
    hne ((ofPart_eq hp hne').symm.trans (ofPart_eq hp' hne'))
  by_cases hboth : .protection ∈ T.parts ∧ .protection ∈ T'.parts
  · rcases eq_of_protection_mem hboth.1 with rfl | rfl
    · obtain rfl := (eq_of_protection_mem hboth.2).resolve_left hne.symm
      rcases n with _ | _ | n
      · trivial
      · exact protectionEnabled_dnsServer hplan hi
      · exact protectionEnabled_dnsServer hplan hi
    · obtain rfl := (eq_of_protection_mem hboth.2).resolve_right hne.symm
      rcases n with _ | _ | n
      · obtain rfl := hplan
        split_ifs
        · exact hi
        · exact hi
      · exact mirrors_dnsServer_protection hplan (hstatus rfl) hi
      · exact mirrors_dnsServer_protection hplan (hstatus rfl) hi
  · refine hi.of_get fun p hp => get_foldl_apply fun w hw hpw => ?_
    have hp' := hplan.parts hw hpw
    by_cases hprotection : p = .protection
    · subst hprotection
      exact hboth ⟨hp, hp'⟩
    · exact hdisjoint p hp hprotection hp'

end Frame

end Task

/-! ## What a task brings about -/

namespace Model

/-- The profile is not written if the replica has none, or nothing is to be done about the
language. -/
theorem ProfileInfo.shouldSyncFor_eq_none_iff {pi o : ProfileInfo} {withTheme : Bool} :
    pi.shouldSyncFor o withTheme = none ↔
      pi.name = "" ∨ o.language = "" ∨ o.language = pi.language := by
  unfold shouldSyncFor
  by_cases hequals : pi.equals o withTheme = true
  · simp only [hequals, if_true, true_iff]
    simp only [equals, Bool.and_eq_true, decide_eq_true_eq] at hequals
    exact Or.inr (Or.inr hequals.1.symm)
  · by_cases hlanguage : o.language = ""
    · simp only [hlanguage, equals, ne_eq, not_true_eq_false, if_false]
      split_ifs <;> simp_all
    · simp only [hlanguage, equals, ne_eq, not_false_eq_true, if_true]
      split_ifs <;> simp_all

theorem ProfileInfo.language_of_shouldSyncFor {pi o merged : ProfileInfo} {withTheme : Bool}
    (h : pi.shouldSyncFor o withTheme = some merged) : o.language = merged.language := by
  have hlanguage : o.language ≠ "" := fun he => by
    rw [shouldSyncFor_eq_none_iff.mpr (Or.inr (Or.inl he))] at h
    cases h
  unfold shouldSyncFor at h
  simp only [hlanguage, ne_eq, not_false_eq_true, if_true] at h
  split_ifs at h
  all_goals
    obtain rfl := Option.some.inj h
    rfl

/-- Fields that were set are set. -/
theorem DNSConfig.overlay_overlay (d c : DNSConfig) : (d.overlay c).overlay c = d.overlay c := by
  have hset : ∀ {α : Type} (a b : Option α), (a <|> a <|> b) = (a <|> b) := fun a b => by
    cases a <;> rfl
  simp only [overlay, hset]

theorem DNSConfig.Sortable.overlay {d c : DNSConfig} (hd : d.Sortable) (hc : c.Sortable) :
    (d.overlay c).Sortable := by
  have hor : ∀ {α : Type} (a b : Option α), (a <|> b).isSome ↔ a.isSome ∨ b.isSome := fun a b => by
    cases a <;> simp
  simp only [Sortable, DNSConfig.overlay, hor] at *
  tauto

theorem DhcpStatus.holds_overlay (d c : DhcpStatus) :
    ({ d with
      enabled := c.enabled <|> d.enabled
      interfaceName := c.interfaceName <|> d.interfaceName
      v4 := c.v4 <|> d.v4
      v6 := c.v6 <|> d.v6 } : DhcpStatus).Holds c := by
  have hset : ∀ {α : Type} (a b : Option α), (a <|> a <|> b) = (a <|> b) := fun a b => by
    cases a <;> rfl
  exact ⟨hset _ _, hset _ _, hset _ _, hset _ _⟩

/-- Documents with the same valid sections have the same settings. -/
theorem DhcpStatus.holds_of_clean_eq {d c : DhcpStatus} (h : d.cleanV4V6 = c) : d.Holds c := by
  have hset : ∀ {α : Type} (a : Option α), (a <|> a) = a := fun a => by
    cases a <;> rfl
  have hfilter : ∀ {α : Type} (p : α → Bool) (a : Option α), (a.filter p <|> a) = a := by
    intro α p a
    cases a with
    | none => rfl
    | some x => cases hp : p x <;> simp [Option.filter, hp]
  subst h
  exact ⟨hset _, hset _, hfilter _ _, hfilter _ _⟩

end Model

namespace Task

section Advance

variable {ac : ActionContext} {g i : Instance} {T : Task} {ws : List Write} {n : ℕ}

/-- What is sent of a setting compares equal to the origin's. -/
theorem equals_sent {s : Setting} (hg : (document (.setting s)).Sound g) (d : Doc s.read) :
    s.equals (g.doc s.read) (s.sent (g.doc s.read) d) = true := by
  cases s with
  | safeSearch => exact SafeSearchConfig.equals_iff.mpr rfl
  | queryLog => exact jsonEquals_self _
  | stats => exact jsonEquals_self _
  | tls => exact jsonEquals_self _
  | accessLists => exact AccessList.equals_sent d _
  | blockedServices =>
    have hsorted : g.blockedServices.servicesString.2 = g.blockedServices := by
      rw [BlockedServicesSchedule.servicesString_ids, hg]
    exact (congrArg (BlockedServicesSchedule.equals g.blockedServices) hsorted).trans
      (jsonEquals_self _)

theorem doc_apply_write (s : Setting) (d : Doc s.read) (i : Instance) :
    (i.apply (s.write d)).doc s.read = d := by
  cases s <;> rfl

/-- What is planned for a document : nothing, or the one write. -/
theorem plans_document_cases {a : DocAction} (h : (document a).Plans ac g i ws) :
    (a.update ac (g.doc a.read) (i.doc a.read) = none ∧ ws = []) ∨
      ∃ d, a.update ac (g.doc a.read) (i.doc a.read) = some d ∧ ws = [a.write d] := by
  obtain rfl := h
  cases hupdate : a.update ac (g.doc a.read) (i.doc a.read) with
  | none => exact Or.inl ⟨rfl, rfl⟩
  | some d => exact Or.inr ⟨d, rfl, rfl⟩

theorem mirrors_setting {s : Setting} (hg : (document (.setting s)).Sound g)
    (h : (document (.setting s)).Plans ac g i ws) :
    (document (.setting s)).Mirrors ac g (ws.foldl Instance.apply i) := by
  rcases plans_document_cases h with ⟨hnone, rfl⟩ | ⟨d, hsome, rfl⟩
  · by_contra hne
    rw [DocAction.update, if_neg (show ¬s.equals (g.doc s.read) (i.doc s.read) = true from hne)]
      at hnone
    cases hnone
  · have hd : s.sent (g.doc s.read) (i.doc s.read) = d := by
      simp only [DocAction.update] at hsome
      split_ifs at hsome
      exact Option.some.inj hsome
    have hdoc : (i.apply (s.write d)).doc s.read = d := doc_apply_write s d i
    show s.equals (g.doc s.read) ((i.apply (s.write d)).doc s.read) = true
    rw [hdoc, ← hd]
    exact equals_sent hg _

theorem mirrors_dnsServer (hg : g.dns.Sortable) (hi : i.dns.Sortable)
    (h : (document .dnsServer).Plans ac g i ws) :
    (document .dnsServer).Mirrors ac g (ws.foldl Instance.apply i) := by
  obtain ⟨equal, hequal, -⟩ := DNSConfig.equals_of_sortable hi hg
  have hequal' : DNSConfig.equals (i.doc .dnsInfo) (g.doc .dnsInfo) = some equal := hequal
  rcases plans_document_cases h with ⟨hnone, rfl⟩ | ⟨d, hsome, rfl⟩
  · rw [DocAction.update, hequal', Option.bind_some, ite_eq_left_iff] at hnone
    refine ⟨hi, Or.inl (hequal.trans (congrArg some ?_))⟩
    by_contra hne
    cases hnone hne
  · rw [DocAction.update, hequal', Option.bind_some] at hsome
    split_ifs at hsome
    obtain rfl := Option.some.inj hsome
    exact ⟨hi.overlay hg, Or.inr (DNSConfig.overlay_overlay i.dns g.dns)⟩

theorem mirrors_dhcpServer (h : (document .dhcpServer).Plans ac g i ws) :
    (document .dhcpServer).Mirrors ac g (ws.foldl Instance.apply i) := by
  intro hconfig
  have hconfig' : DhcpStatus.hasConfig (g.doc .dhcpStatus) = true := hconfig
  rcases plans_document_cases h with ⟨hnone, rfl⟩ | ⟨d, hsome, rfl⟩
  · rw [DocAction.update, if_pos hconfig', ite_eq_left_iff] at hnone
    refine DhcpStatus.holds_of_clean_eq (jsonEquals_iff.mp ?_)
    by_contra hne
    cases hnone hne
  · rw [DocAction.update, if_pos hconfig'] at hsome
    simp only at hsome
    split_ifs at hsome
    obtain rfl := Option.some.inj hsome
    exact DhcpStatus.holds_overlay i.dhcp (ac.sentDhcp g)

/-- One pass brings a replica where it mirrors the origin, except for rewrites and filters. -/
theorem mirrors_of_plans (hg : T.Sound g) (hi : T.Fit i) (h : T.Plans ac g i ws)
    (hstatus : T = protection → ac.replicaStatus.protectionEnabled = i.protectionEnabled)
    (hrewrites : T ≠ dnsRewrites) (hfilters : T ≠ filters) :
    T.Mirrors ac g (ws.foldl Instance.apply i) := by
  cases T with
  | profileInfo =>
    obtain rfl := h
    cases hsync : i.profile.shouldSyncFor g.profile ac.cfg.features.theme with
    | none => exact ProfileInfo.shouldSyncFor_eq_none_iff.mp hsync
    | some merged => exact Or.inr (Or.inr (ProfileInfo.language_of_shouldSyncFor hsync))
  | protection =>
    obtain rfl := h
    split_ifs with hne
    · rfl
    · exact (hstatus rfl).symm.trans (not_not.mp hne).symm
  | parental =>
    obtain rfl := h
    split_ifs with hne
    · rfl
    · exact (not_not.mp hne).symm
  | safeBrowsing =>
    obtain rfl := h
    split_ifs with hne
    · rfl
    · exact (not_not.mp hne).symm
  | document a =>
    cases a with
    | setting s => exact mirrors_setting hg h
    | dnsServer => exact mirrors_dnsServer hg hi h
    | dhcpServer => exact mirrors_dhcpServer h
  | dnsRewrites => exact absurd rfl hrewrites
  | filters => exact absurd rfl hfilters
  | clientSettings =>
    obtain ⟨o₁, o₂, m, hm, rfl⟩ := h
    exact mirror_writes hi hg.1 hg.2 hm
  | dhcpStaticLeases =>
    obtain ⟨order, rfl⟩ := h
    exact macs_leasesPlan hi hg

theorem halfway_filters (hg : filters.Sound g) (hi : filters.Fit i) (h : filters.Plans ac g i ws) :
    filters.Halfway ac g (ws.foldl Instance.apply i) := by
  obtain ⟨order, rfl⟩ := h
  obtain ⟨hurls, henabled, hinterval⟩ := hg
  refine ⟨fun w => ?_, ?_⟩
  · rw [Instance.filters_filtersPlan]
    refine ((Server.mergedList_perm (order w) (hi w) (hurls w)).map Filter.url).trans ?_
    rw [Server.map_received_url]
    exact .refl _
  · have hsettings := @Instance.settings_filtersPlan i g order henabled hinterval
    split_ifs at hsettings with hsame
    · exact congrArg (fun r => Utils.ptrToString r.1) hsettings.symm
    · exact (not_not.mp hsame).trans (congrArg (fun r => Utils.ptrToString r.1) hsettings.symm)

theorem mirrors_filters (hg : filters.Sound g) (hi : filters.Halfway ac g i)
    (h : filters.Plans ac g i ws) : filters.Mirrors ac g (ws.foldl Instance.apply i) := by
  obtain ⟨order, rfl⟩ := h
  obtain ⟨hurls, henabled, hinterval⟩ := hg
  have hfit : filters.Fit i := fun w => (hi.1 w).nodup_iff.mpr (hurls w)
  have hsettings := @Instance.settings_filtersPlan i g order henabled hinterval
  rw [if_neg (not_not.mpr hi.2), Server.settings] at hsettings
  obtain ⟨hrules, htoggles⟩ := Prod.mk.inj hsettings
  obtain ⟨hswitch, hwait⟩ := Prod.mk.inj htoggles
  refine ⟨fun w => ?_, hi.2.trans (congrArg _ hrules.symm), hswitch.symm, hwait.symm⟩
  rw [Instance.filters_filtersPlan]
  refine (Server.mergedList_perm (order w) (hfit w) (hurls w)).trans ?_
  refine (Server.map_received_perm_iff (hurls w)).mpr fun f hf hnew => absurd ?_ hnew
  exact (hi.1 w).mem_iff.mpr (List.mem_map_of_mem hf)

theorem Mirrors.fit (hg : T.Sound g) (hi : T.Mirrors ac g i) : T.Fit i := by
  cases T with
  | document a =>
    cases a with
    | setting s => cases s <;> trivial
    | dnsServer => exact hi.1
    | dhcpServer => trivial
  | filters => exact fun w => ((hi.1 w).map Filter.url).nodup_iff.mpr (hg.1 w)
  | clientSettings => exact hi.named
  | dhcpStaticLeases => exact hi.1
  | _ => trivial

theorem Halfway.fit (hg : T.Sound g) (hi : T.Halfway ac g i) : T.Fit i := by
  cases T with
  | dnsRewrites => trivial
  | filters => exact fun w => (hi.1 w).nodup_iff.mpr (hg.1 w)
  | _ => exact Mirrors.fit hg ((halfway_iff_mirrors (by nofun) (by nofun)).mp hi)

theorem Stage.fit (hg : T.Sound g) (hi : T.Stage ac g i n) : T.Fit i := by
  rcases n with _ | _ | n
  · exact hi
  · exact Halfway.fit hg hi
  · exact Mirrors.fit hg hi

/-- A pass brings a replica further with each of its tasks. -/
theorem Stage.advance (hi : T.Stage ac g i n) (hg : T.Sound g) (h : T.Plans ac g i ws)
    (hstatus : T = protection → ac.replicaStatus.protectionEnabled = i.protectionEnabled) :
    T.Stage ac g (ws.foldl Instance.apply i) (n + 1) := by
  by_cases hrewrites : T = dnsRewrites
  · subst hrewrites
    obtain ⟨order, rfl⟩ := h
    obtain ⟨hnodup, hsub⟩ := keys_rewritten i.rewrites g.rewrites order
    rw [← rewrites_rewritesPlan i] at hnodup hsub
    rcases n with _ | n
    · exact ⟨hnodup, hsub⟩
    · refine ⟨hnodup, fun k => ?_⟩
      rw [rewrites_rewritesPlan]
      rcases n with _ | n
      · exact mem_keys_rewritten hi.1 hi.2
      · exact mem_keys_rewritten hi.1 fun k => (hi.2 k).mp
  · by_cases hfilters : T = filters
    · subst hfilters
      rcases n with _ | _ | n
      · exact halfway_filters hg hi h
      · exact mirrors_filters hg hi h
      · exact mirrors_filters hg ⟨fun w => (hi.1 w).map Filter.url, hi.2.1⟩ h
    · have hmirrors := mirrors_of_plans hg (hi.fit hg) h hstatus hrewrites hfilters
      rcases n with _ | n
      · exact (halfway_iff_mirrors hrewrites hfilters).mpr hmirrors
      · exact hmirrors

/-! ## What a task leaves alone -/

/-- A task writes nothing exactly if there is nothing to do. -/
theorem Plans.eq_nil_iff (hg : T.Sound g) (hi : T.Fit i) (h : T.Plans ac g i ws) :
    ws = [] ↔ T.Idle ac g i := by
  have hone : ∀ {c : Prop} [Decidable c] {w : Write}, (if c then [w] else []) = [] ↔ ¬c := by
    intro c _ w
    split_ifs with hc <;> simp [hc]
  cases T with
  | profileInfo =>
    obtain rfl := h
    rw [Option.toList_eq_nil_iff, Option.map_eq_none_iff]
    exact ProfileInfo.shouldSyncFor_eq_none_iff
  | protection =>
    obtain rfl := h
    exact hone.trans not_not
  | parental =>
    obtain rfl := h
    exact (hone.trans not_not).trans eq_comm
  | safeBrowsing =>
    obtain rfl := h
    exact (hone.trans not_not).trans eq_comm
  | document a =>
    obtain rfl := h
    rw [Option.toList_eq_nil_iff, Option.map_eq_none_iff]
    cases a with
    | setting s =>
      rw [DocAction.update, ite_eq_left_iff]
      simp only [reduceCtorEq, imp_false, not_not]
      exact Iff.rfl
    | dnsServer =>
      obtain ⟨equal, hequal, -⟩ := DNSConfig.equals_of_sortable hi hg
      have hequal' : DNSConfig.equals (i.doc .dnsInfo) (g.doc .dnsInfo) = some equal := hequal
      change _ ↔ i.dns.equals g.dns = some true
      rw [DocAction.update, hequal', Option.bind_some, ite_eq_left_iff, hequal, Option.some_inj]
      simp
    | dhcpServer =>
      have hclean : (DhcpStatus.cleanAndEquals (i.doc .dhcpStatus)
          (ac.replica.overrideDhcp (ac.deps.copierCopy (g.doc .dhcpStatus)))).1 = true ↔
            i.dhcp.cleanV4V6 = ac.sentDhcp g := jsonEquals_iff
      change _ ↔ (g.dhcp.hasConfig = true → i.dhcp.cleanV4V6 = ac.sentDhcp g)
      simp only [DocAction.update, ite_eq_right_iff, hclean]
      refine imp_congr_right fun _ => ?_
      split_ifs with hsame <;> simp [hsame]
  | dnsRewrites =>
    obtain ⟨order, rfl⟩ := h
    exact rewritesPlan_eq_nil_iff
  | filters =>
    obtain ⟨order, rfl⟩ := h
    obtain ⟨hurls, henabled, hinterval⟩ := hg
    have hblock : filterTypePlan g.filtering.filters i.filtering.filters false (order false) = [] ↔
        (i.filters false).Perm (g.filters false) :=
      Instance.filterTypePlan_eq_nil_iff (hi false) (hurls false)
    have hallow : filterTypePlan g.filtering.whitelistFilters i.filtering.whitelistFilters true
        (order true) = [] ↔ (i.filters true).Perm (g.filters true) :=
      Instance.filterTypePlan_eq_nil_iff (hi true) (hurls true)
    rw [filtersPlan, List.append_eq_nil_iff, List.append_eq_nil_iff, hblock, hallow,
      Instance.settingsPlan_eq_nil_iff henabled hinterval]
    constructor
    · rintro ⟨hblock, hallow, hrest⟩
      exact ⟨fun w => by cases w; exacts [hblock, hallow], hrest⟩
    · rintro ⟨hlists, hrest⟩
      exact ⟨hlists false, hlists true, hrest⟩
  | clientSettings =>
    obtain ⟨o₁, o₂, m, hm, rfl⟩ := h
    exact writes_eq_nil_iff hi hg.1 hm
  | dhcpStaticLeases =>
    obtain ⟨order, rfl⟩ := h
    exact (leasesPlan_eq_nil_iff hi hg).trans (and_iff_right hi).symm

/-- Where the replica mirrors the origin only the DNS and the DHCP configuration can still be
sent : their comparisons see more than is applied. -/
theorem Mirrors.idle (hi : T.Mirrors ac g i)
    (hstatus : T = protection → ac.replicaStatus.protectionEnabled = i.protectionEnabled)
    (hdns : T ≠ document .dnsServer) (hdhcp : T ≠ document .dhcpServer) : T.Idle ac g i := by
  cases T with
  | protection => exact hi.symm.trans (hstatus rfl).symm
  | document a =>
    cases a with
    | setting s => exact hi
    | dnsServer => exact absurd rfl hdns
    | dhcpServer => exact absurd rfl hdhcp
  | _ => exact hi

/-- Where the replica mirrors the origin a task changes nothing. -/
theorem Mirrors.still (hi : T.Mirrors ac g i) (hg : T.Sound g) (h : T.Plans ac g i ws)
    (hstatus : T = protection → ac.replicaStatus.protectionEnabled = i.protectionEnabled) :
    ws.foldl Instance.apply i = i := by
  by_cases hdns : T = document .dnsServer
  · subst hdns
    rcases plans_document_cases h with ⟨-, rfl⟩ | ⟨d, hsome, rfl⟩
    · rfl
    · obtain ⟨equal, hequal, hd⟩ := Option.bind_eq_some_iff.mp hsome
      split_ifs at hd with hdiffers
      obtain rfl := Option.some.inj hd
      have hoverlay : i.dns.overlay g.dns = i.dns := hi.2.resolve_left fun hequals =>
        hdiffers (Option.some.inj (hequal.symm.trans hequals))
      exact congrArg (fun d : DNSConfig => { i with dns := d }) hoverlay
  by_cases hdhcp : T = document .dhcpServer
  · subst hdhcp
    rcases plans_document_cases h with ⟨-, rfl⟩ | ⟨d, hsome, rfl⟩
    · rfl
    · simp only [DocAction.update] at hsome
      split_ifs at hsome with hconfig
      obtain rfl := Option.some.inj hsome
      obtain ⟨henabled, hinterface, hv4, hv6⟩ := hi hconfig
      show ({ i with dhcp := { i.dhcp with
        enabled := (ac.sentDhcp g).enabled <|> i.dhcp.enabled
        interfaceName := (ac.sentDhcp g).interfaceName <|> i.dhcp.interfaceName
        v4 := (ac.sentDhcp g).v4 <|> i.dhcp.v4
        v6 := (ac.sentDhcp g).v6 <|> i.dhcp.v6 } } : Instance) = i
      rw [henabled, hinterface, hv4, hv6]
  rw [(h.eq_nil_iff hg (hi.fit hg)).mpr (hi.idle hstatus hdns hdhcp)]
  rfl

/-- Where the replica mirrors the origin a task sends the two configurations at most. -/
theorem Mirrors.writes (hi : T.Mirrors ac g i) (hg : T.Sound g) (h : T.Plans ac g i ws)
    (hstatus : T = protection → ac.replicaStatus.protectionEnabled = i.protectionEnabled)
    {w : Write} (hw : w ∈ ws) : (∃ c, w = .dnsConfig c) ∨ ∃ c, w = .dhcpSetConfig c := by
  by_cases hdns : T = document .dnsServer
  · subst hdns
    rcases plans_document_cases h with ⟨-, rfl⟩ | ⟨d, -, rfl⟩
    · cases hw
    · exact Or.inl ⟨d, List.mem_singleton.mp hw⟩
  by_cases hdhcp : T = document .dhcpServer
  · subst hdhcp
    rcases plans_document_cases h with ⟨-, rfl⟩ | ⟨d, -, rfl⟩
    · cases hw
    · exact Or.inr ⟨d, List.mem_singleton.mp hw⟩
  rw [(h.eq_nil_iff hg (hi.fit hg)).mpr (hi.idle hstatus hdns hdhcp)] at hw
  cases hw

/-- The status of the replica is not a matter of what the replica has. -/
theorem Mirrors.of_status {rs : ServerStatus}
    (hi : T.Mirrors { ac with replicaStatus := rs } g i) : T.Mirrors ac g i := by
  cases T with
  | document a => cases a <;> exact hi
  | _ => exact hi

theorem Stage.of_status {rs : ServerStatus}
    (hi : T.Stage { ac with replicaStatus := rs } g i n) : T.Stage ac g i n := by
  rcases n with _ | _ | n
  · exact hi
  · cases T with
    | document a => cases a <;> exact hi
    | _ => exact hi
  · exact Mirrors.of_status hi

end Advance

end Task

end AghSync
