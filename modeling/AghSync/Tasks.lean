import AghSync.DnsCompare
import AghSync.FilterSync
import AghSync.MergePlans
import AghSync.Quiescence
import AghSync.Service

/-!
# Tasks

A task is one thing that a pass keeps in sync. `setupActions` is a list of tasks, and against
instances that do what they are asked each action does what its task plans (`Task.ensures`) :
`Task.Plans` says which writes these are, from what the origin and the replica have. It is a
relation, since the order of some writes is the order of an iteration over a map.

The actions share one snapshot of the origin, and two comparisons sort lists in it. What they
leave is the snapshot of an origin that is the same up to the order of these lists
(`Instance.Like`).
-/

open Interaction Interaction.Prog

namespace AghSync

open Model

/-- Something that a pass keeps in sync. -/
inductive Task
  | profileInfo
  | protection
  | parental
  | safeBrowsing
  | document (a : DocAction)
  | dnsRewrites
  | filters
  | clientSettings
  | dhcpStaticLeases

namespace Task

/-- The name of an action on one document. -/
def documentName : DocAction → String
  | .setting .safeSearch => "safe search config"
  | .setting .queryLog => "query log config"
  | .setting .stats => "stats config"
  | .setting .blockedServices => "blocked services schedule"
  | .setting .accessLists => "DNS access lists"
  | .setting .tls => "TLS config"
  | .dnsServer => "DNS server config"
  | .dhcpServer => "DHCP server config"

/-- The action of a task. -/
def action : Task → SyncAction
  | profileInfo => ⟨"profile info", actionProfileInfo⟩
  | protection => ⟨"protection", actionProtection⟩
  | parental => ⟨"parental", actionParental⟩
  | safeBrowsing => ⟨"safe browsing", actionSafeBrowsing⟩
  | document a => ⟨documentName a, a.action⟩
  | dnsRewrites => ⟨"DNS rewrites", actionDNSRewrites⟩
  | filters => ⟨"actionFilters", actionFilters⟩
  | clientSettings => ⟨"client settings", actionClientSettings⟩
  | dhcpStaticLeases => ⟨"DHCP static leases", actionDHCPStaticLeases⟩

end Task

/-- The tasks of a pass, in order. -/
def Config.tasks (cfg : Config) : List Task :=
  (if cfg.features.generalSettings then
    [.profileInfo, .protection, .parental, .document (.setting .safeSearch), .safeBrowsing]
  else []) ++
  (if cfg.features.dns.serverConfig then [.document .dnsServer] else []) ++
  (if cfg.features.queryLogConfig then [.document (.setting .queryLog)] else []) ++
  (if cfg.features.statsConfig then [.document (.setting .stats)] else []) ++
  (if cfg.features.dns.rewrites then [.dnsRewrites] else []) ++
  (if cfg.features.filters then [.filters] else []) ++
  (if cfg.features.services then [.document (.setting .blockedServices)] else []) ++
  (if cfg.features.clientSettings then [.clientSettings] else []) ++
  (if cfg.features.dns.accessLists then [.document (.setting .accessLists)] else []) ++
  (if cfg.features.dhcp.serverConfig then [.document .dhcpServer] else []) ++
  (if cfg.features.dhcp.staticLeases then [.dhcpStaticLeases] else []) ++
  (if cfg.features.tlsConfig then [.document (.setting .tls)] else [])

theorem setupActions_eq_tasks (cfg : Config) : setupActions cfg = cfg.tasks.map Task.action := by
  simp only [Config.tasks, List.map_append, apply_ite (List.map Task.action), List.map_cons,
    List.map_nil]
  rfl

/-! ## The snapshot -/

namespace Instance

/-- The snapshot of an origin. -/
def snapshot (cfg : Config) (g : Instance) : Origin where
  status := some (g.doc .status)
  rewrites := some g.rewrites
  blockedServicesSchedule := some g.blockedServices
  filters := some g.filtering
  clients := some { clients := some g.clients }
  queryLogConfig := some g.queryLog
  statsConfig := some g.stats
  accessList := some g.accessList
  dnsConfig := some g.dns
  dhcpServerConfig :=
    if cfg.features.dhcp.serverConfig || cfg.features.dhcp.staticLeases then some g.dhcp else none
  parental := g.parental
  safeSearch := some g.safeSearch
  profileInfo := some g.profile
  safeBrowsing := g.safeBrowsing
  tlsConfig := if cfg.features.tlsConfig then some g.tls else none

/-- The instances are the same, up to the order of the lists that comparisons sort. -/
structure Like (g' g : Instance) : Prop where
  rest : g' = { g with accessList := g'.accessList, clients := g'.clients }
  accessList : g'.accessList.sort = g.accessList.sort
  clients : g'.clients.map Client.sort = g.clients.map Client.sort

theorem Like.refl (g : Instance) : g.Like g :=
  ⟨rfl, rfl, rfl⟩

theorem Like.symm {g g' : Instance} (h : g'.Like g) : g.Like g' :=
  ⟨by rw [h.rest], h.accessList.symm, h.clients.symm⟩

theorem Like.trans {g₁ g₂ g₃ : Instance} (h : g₁.Like g₂) (h' : g₂.Like g₃) : g₁.Like g₃ where
  rest := by
    rw [h.rest, h'.rest]
  accessList := h.accessList.trans h'.accessList
  clients := h.clients.trans h'.clients

/-- What is not sorted is the same. -/
theorem Like.exists_eq {g g' : Instance} (h : g'.Like g) :
    ∃ al cs, g' = { g with accessList := al, clients := cs } :=
  ⟨_, _, h.rest⟩

end Instance

/-! ## Plans -/

/-- What the static leases call for : the leases to remove, then those to add. -/
def leasesPlan (replica origin : Option (List DhcpStaticLease)) (order : MapOrder String) :
    List Write :=
  let m := mergeDhcpStaticLeases replica origin order
  m.removes.map .dhcpRemoveStaticLease ++ m.adds.map .dhcpAddStaticLease

namespace Task

variable (ac : ActionContext) (g i : Instance)

/-- The writes that can keep the instance `i` in sync with the origin `g`. -/
def Plans : Task → List Write → Prop
  | profileInfo, ws =>
    ws = ((i.profile.shouldSyncFor g.profile ac.cfg.features.theme).map .profileUpdate).toList
  | protection, ws =>
    ws = if g.protectionEnabled ≠ ac.replicaStatus.protectionEnabled then
      [.protection { protectionEnabled := g.protectionEnabled }] else []
  | parental, ws => ws = if g.parental ≠ i.parental then [.parental g.parental] else []
  | safeBrowsing, ws =>
    ws = if g.safeBrowsing ≠ i.safeBrowsing then [.safebrowsing g.safeBrowsing] else []
  | document a, ws => ws = ((a.update ac (g.doc a.read) (i.doc a.read)).map a.write).toList
  | dnsRewrites, ws => ∃ order, ws = rewritesPlan (some i.rewrites) (some g.rewrites) order
  | filters, ws => ∃ order, ws = filtersPlan i.filtering (some g.filtering) order
  | clientSettings, ws => ∃ o₁ o₂ m,
    (⟨some i.clients⟩ : Clients).merge ⟨some g.clients⟩ o₁ o₂ = some m ∧
      ws = m.writes.map Prod.fst
  | dhcpStaticLeases, ws => ∃ order,
    ws = leasesPlan i.dhcp.staticLeases g.dhcp.staticLeases order

/-- What a task needs of the origin : fields that are dereferenced are there, lists have
each key once, and what is sorted or cut in the snapshot is so already. -/
def Sound : Task → Prop
  | document (.setting .safeSearch) => g.safeSearch.enabled.isSome
  | document (.setting .queryLog) =>
    g.queryLog.enabled.isSome ∧ g.queryLog.interval.isSome ∧ g.queryLog.anonymizeClientIp.isSome
  | document (.setting .blockedServices) =>
    g.blockedServices.ids.map sortStrings = g.blockedServices.ids
  | document .dnsServer => g.dns.Sortable
  | filters => (∀ whitelist, ((g.filters whitelist).map Filter.url).Nodup) ∧
    g.filtering.enabled.isSome ∧ g.filtering.interval.isSome
  | clientSettings =>
    (⟨some g.clients⟩ : Clients).Named ∧ ∀ c ∈ g.clients, c.KeepsTimeZone
  | dhcpStaticLeases => (g.leases.map DhcpStaticLease.mac).Nodup
  | _ => True

/-- What a task needs of the replica. -/
def Fit : Task → Prop
  | document .dnsServer => i.dns.Sortable
  | filters => ∀ whitelist, ((i.filters whitelist).map Filter.url).Nodup
  | clientSettings => (⟨some i.clients⟩ : Clients).Named
  | dhcpStaticLeases => (i.leases.map DhcpStaticLease.mac).Nodup
  | _ => True

end Task

/-! ## What the actions do -/

namespace Task

/-- The action has done what the task plans for the replica, in an outage perhaps only a part
of it, and left a snapshot of the same origin. -/
def Done (outage : Prop) (T : Task) (ac : ActionContext) (g : Instance) (x : World) :
    Act.Outcome Origin Err Unit → World → Prop := fun out x' =>
  ∃ (r : Except Err Unit) (g' : Instance) (ws : List Write), g'.Like g ∧
    out = some (r, g'.snapshot ac.cfg) ∧ x' = x.serve ac.client.party ws ∧
    (r = .ok () ∧ T.Plans ac g (x ac.client.party).inst ws ∨ outage ∧
      (ws = [] ∨ ∃ plan, T.Plans ac g (x ac.client.party).inst plan ∧ ws.Sublist plan))

section Ensures

variable {outage : Prop} {ac : ActionContext} {g g' : Instance} {x x' : World} {T : Task}
  {plan : List Write}

theorem Done.failed (h : outage) (e : Err) :
    T.Done outage ac g x (some (.error e, g.snapshot ac.cfg)) x :=
  ⟨.error e, g, [], .refl g, rfl, (x.serve_nil _).symm, Or.inr ⟨h, Or.inl rfl⟩⟩

theorem Done.nothing (hlike : g'.Like g) (hplan : T.Plans ac g (x ac.client.party).inst []) :
    T.Done outage ac g x (some (.ok (), g'.snapshot ac.cfg)) x :=
  ⟨.ok (), g', [], hlike, rfl, (x.serve_nil _).symm, Or.inl ⟨rfl, hplan⟩⟩

theorem Done.of_sent {out : Act.Outcome Origin Err Unit} (hlike : g'.Like g)
    (hplan : T.Plans ac g (x ac.client.party).inst plan)
    (h : Sent outage ac.client plan (g'.snapshot ac.cfg) x out x') :
    T.Done outage ac g x out x' := by
  obtain ⟨r, ws, rfl, rfl, hsub, houtage | ⟨rfl, rfl⟩⟩ := h
  · exact ⟨r, g', ws, hlike, rfl, rfl, Or.inr ⟨houtage, Or.inr ⟨plan, hplan, hsub⟩⟩⟩
  · exact ⟨.ok (), g', ws, hlike, rfl, rfl, Or.inl ⟨rfl, hplan⟩⟩

/-- A computation that sends the plan does the task. -/
theorem ensures_of_attempts {m : Call Origin Unit} (hlike : g'.Like g)
    (hplan : T.Plans ac g (x ac.client.party).inst plan)
    (h : Attempts outage ac.client plan (g'.snapshot ac.cfg) m) :
    (m (g'.snapshot ac.cfg)).Ensures (World.Answers outage) x (T.Done outage ac g x) :=
  (h x).mono fun _ _ => Done.of_sent hlike hplan

theorem plans_profileInfo {i : Instance} {o : Option ProfileInfo}
    (h : i.profile.shouldSyncFor g.profile ac.cfg.features.theme = o) :
    profileInfo.Plans ac g i (o.map .profileUpdate).toList := by
  subst h
  rfl

theorem ensures_profileInfo :
    (actionProfileInfo ac (g.snapshot ac.cfg)).Ensures (World.Answers outage) x
      (profileInfo.Done outage ac g x) := by
  refine World.ensures_doGet_bind Done.failed ?_
  rw [fromOrigin_bind_apply (a := g.profile) rfl]
  cases hsync : ProfileInfo.shouldSyncFor ((x ac.client.party).inst.doc .profile) g.profile
      ac.cfg.features.theme with
  | none => exact Done.nothing (.refl g) (plans_profileInfo hsync)
  | some merged => exact ensures_of_attempts (.refl g) (plans_profileInfo hsync) (attempts_send _)

theorem ensures_protection :
    (actionProtection ac (g.snapshot ac.cfg)).Ensures (World.Answers outage) x
      (protection.Done outage ac g x) := by
  unfold actionProtection
  rw [fromOrigin_bind_apply (a := g.doc .status) rfl]
  split_ifs with hne
  · exact ensures_of_attempts (.refl g) (if_pos hne).symm (attempts_send _)
  · exact Done.nothing (.refl g) (if_neg hne).symm

theorem ensures_parental :
    (actionParental ac (g.snapshot ac.cfg)).Ensures (World.Answers outage) x
      (parental.Done outage ac g x) := by
  refine World.ensures_doGet_bind Done.failed ?_
  rw [Act.gets_bind_apply]
  split_ifs with hne
  · exact ensures_of_attempts (.refl g) (if_pos hne).symm (attempts_send _)
  · exact Done.nothing (.refl g) (if_neg hne).symm

theorem ensures_safeBrowsing :
    (actionSafeBrowsing ac (g.snapshot ac.cfg)).Ensures (World.Answers outage) x
      (safeBrowsing.Done outage ac g x) := by
  refine World.ensures_doGet_bind Done.failed ?_
  rw [Act.gets_bind_apply]
  split_ifs with hne
  · exact ensures_of_attempts (.refl g) (if_pos hne).symm (attempts_send _)
  · exact Done.nothing (.refl g) (if_neg hne).symm

theorem plans_document {a : DocAction} {i : Instance} {o : Option (Doc a.read)}
    (h : a.update ac (g.doc a.read) (i.doc a.read) = o) :
    (document a).Plans ac g i (o.map a.write).toList := by
  subst h
  rfl

/-- A document that compares equal is not written. -/
theorem plans_setting_nil {s : Setting} {i : Instance}
    (h : ¬(!s.equals (g.doc s.read) (i.doc s.read)) = true) :
    (document (.setting s)).Plans ac g i [] :=
  plans_document (a := .setting s) (o := none) (if_pos (by simpa using h))

theorem plans_setting {s : Setting} {i : Instance}
    (h : (!s.equals (g.doc s.read) (i.doc s.read)) = true) :
    (document (.setting s)).Plans ac g i [s.write (s.sent (g.doc s.read) (i.doc s.read))] :=
  plans_document (a := .setting s) (o := some _) (if_neg (by simpa using h))

theorem ensures_safeSearch (hg : (document (.setting .safeSearch)).Sound g) :
    (actionSafeSearchConfig ac (g.snapshot ac.cfg)).Ensures (World.Answers outage) x
      ((document (.setting .safeSearch)).Done outage ac g x) := by
  obtain ⟨enabled, henabled⟩ := Option.isSome_iff_exists.mp hg
  refine World.ensures_doGet_bind Done.failed ?_
  rw [fromOrigin_bind_apply (a := g.safeSearch) rfl]
  split_ifs with hne
  · rw [Client.setSafeSearchConfig, henabled]
    exact ensures_of_attempts (.refl g) (plans_setting (s := .safeSearch) hne) (attempts_send _)
  · exact Done.nothing (.refl g) (plans_setting_nil (s := .safeSearch) hne)

theorem ensures_queryLog (hg : (document (.setting .queryLog)).Sound g) :
    (actionQueryLogConfig ac (g.snapshot ac.cfg)).Ensures (World.Answers outage) x
      ((document (.setting .queryLog)).Done outage ac g x) := by
  obtain ⟨henabled, hinterval, hanonymize⟩ := hg
  obtain ⟨enabled, henabled⟩ := Option.isSome_iff_exists.mp henabled
  obtain ⟨interval, hinterval⟩ := Option.isSome_iff_exists.mp hinterval
  obtain ⟨anonymize, hanonymize⟩ := Option.isSome_iff_exists.mp hanonymize
  refine World.ensures_doGet_bind Done.failed ?_
  rw [fromOrigin_bind_apply (a := g.queryLog) rfl]
  split_ifs with hne
  · rw [Client.setQueryLogConfig, henabled, hinterval, hanonymize]
    exact ensures_of_attempts (.refl g) (plans_setting (s := .queryLog) hne) (attempts_send _)
  · exact Done.nothing (.refl g) (plans_setting_nil (s := .queryLog) hne)

theorem ensures_stats :
    (actionStatsConfig ac (g.snapshot ac.cfg)).Ensures (World.Answers outage) x
      ((document (.setting .stats)).Done outage ac g x) := by
  refine World.ensures_doGet_bind Done.failed ?_
  rw [fromOrigin_bind_apply (a := g.stats) rfl]
  split_ifs with hne
  · exact ensures_of_attempts (.refl g) (plans_setting (s := .stats) hne) (attempts_send _)
  · exact Done.nothing (.refl g) (plans_setting_nil (s := .stats) hne)

/-- The services are sorted when they are logged, which changes nothing if they are sorted. -/
theorem ensures_blockedServices (hg : (document (.setting .blockedServices)).Sound g) :
    (actionBlockedServicesSchedule ac (g.snapshot ac.cfg)).Ensures (World.Answers outage) x
      ((document (.setting .blockedServices)).Done outage ac g x) := by
  have hsorted : g.blockedServices.servicesString.2 = g.blockedServices := by
    rw [BlockedServicesSchedule.servicesString_ids, hg]
  refine World.ensures_doGet_bind Done.failed ?_
  rw [fromOrigin_bind_apply (a := g.blockedServices) rfl]
  split_ifs with hne
  · rw [Client.setBlockedServicesSchedule, Act.modify_bind_apply, hsorted]
    refine ensures_of_attempts (.refl g) ?_ (attempts_send _)
    rw [← hsorted]
    exact plans_setting (s := .blockedServices) hne
  · exact Done.nothing (.refl g) (plans_setting_nil (s := .blockedServices) hne)

/-- The comparison leaves the origin's list, sorted in parts. -/
theorem ensures_accessLists :
    (actionDNSAccessLists ac (g.snapshot ac.cfg)).Ensures (World.Answers outage) x
      ((document (.setting .accessLists)).Done outage ac g x) := by
  refine World.ensures_doGet_bind Done.failed ?_
  rw [fromOrigin_bind_apply (a := g.accessList) rfl, Act.modify_bind_apply]
  have hlike : ({ g with accessList := (AccessList.equals ((x ac.client.party).inst.doc .accessList)
      g.accessList).2.2 } : Instance).Like g :=
    ⟨rfl, (AccessList.sort_equals _ _).2, rfl⟩
  split_ifs with hne
  · exact ensures_of_attempts hlike (plans_setting (s := .accessLists) hne) (attempts_send _)
  · exact Done.nothing hlike (plans_setting_nil (s := .accessLists) hne)

theorem ensures_tls (hT : document (.setting .tls) ∈ ac.cfg.tasks) :
    (tlsConfig ac (g.snapshot ac.cfg)).Ensures (World.Answers outage) x
      ((document (.setting .tls)).Done outage ac g x) := by
  have htls : ac.cfg.features.tlsConfig = true := by
    simpa [Config.tasks] using hT
  refine World.ensures_doGet_bind Done.failed ?_
  rw [fromOrigin_bind_apply (a := g.tls) (if_pos htls)]
  split_ifs with hne
  · exact ensures_of_attempts (.refl g) (plans_setting (s := .tls) hne)
      ((attempts_send _).tolerate _)
  · exact Done.nothing (.refl g) (plans_setting_nil (s := .tls) hne)

theorem ensures_dnsServer (hg : (document .dnsServer).Sound g)
    (hx : (document .dnsServer).Fit (x ac.client.party).inst) :
    (actionDNSServerConfig ac (g.snapshot ac.cfg)).Ensures (World.Answers outage) x
      ((document .dnsServer).Done outage ac g x) := by
  obtain ⟨equal, hequal, -⟩ := DNSConfig.equals_of_sortable hx hg
  refine World.ensures_doGet_bind Done.failed ?_
  rw [fromOrigin_bind_apply (a := g.dns) rfl]
  have hupdate : DocAction.dnsServer.update ac g.dns (x ac.client.party).inst.dns =
      if equal then none else some g.dns := by
    simp [DocAction.update, hequal]
  simp only [Instance.doc, hequal, Act.deref_some, Act.pure_bind]
  split_ifs with hne
  · refine ensures_of_attempts (.refl g)
      (plans_document (a := .dnsServer) (o := some _) ?_) (attempts_send _)
    exact hupdate.trans (if_neg (by simpa using hne))
  · refine Done.nothing (.refl g) (plans_document (a := .dnsServer) (o := none) ?_)
    exact hupdate.trans (if_pos (by simpa using hne))

theorem ensures_dhcpServer (hT : document .dhcpServer ∈ ac.cfg.tasks) :
    (actionDHCPServerConfig ac (g.snapshot ac.cfg)).Ensures (World.Answers outage) x
      ((document .dhcpServer).Done outage ac g x) := by
  have hdhcp : ac.cfg.features.dhcp.serverConfig = true := by
    simpa [Config.tasks] using hT
  unfold actionDHCPServerConfig
  rw [fromOrigin_bind_apply (a := g.dhcp) (by simp [Instance.snapshot, hdhcp])]
  split_ifs with hconfig
  · refine World.ensures_doGet_bind Done.failed ?_
    split_ifs with hne
    · refine ensures_of_attempts (.refl g)
        (plans_document (a := .dhcpServer) (o := some _) ?_) (attempts_send _)
      exact (if_pos hconfig).trans (if_neg (Bool.eq_false_iff.mp ((Bool.not_eq_true' _).mp hne)))
    · refine Done.nothing (.refl g) (plans_document (a := .dhcpServer) (o := none) ?_)
      exact (if_pos hconfig).trans (if_pos ((Bool.not_eq_false' _).mp (Bool.eq_false_iff.mpr hne)))
  · exact Done.nothing (.refl g) (plans_document (a := .dhcpServer) (o := none) (if_neg hconfig))

theorem ensures_dnsRewrites :
    (actionDNSRewrites ac (g.snapshot ac.cfg)).Ensures (World.Answers outage) x
      (dnsRewrites.Done outage ac g x) := by
  refine World.ensures_doGet_bind Done.failed ?_
  simp only [Instance.doc, Server.doc, Act.deref_some, Act.pure_bind]
  rw [fromOrigin_bind_apply (a := g.rewrites) rfl]
  refine World.ensures_rangeMap_bind fun order => ensures_of_attempts (.refl g) ⟨order, rfl⟩ ?_
  exact (Attempts.forEach fun e _ => attempts_send _).bind
    (Attempts.forEach fun e _ => attempts_send _)

/-- One kind of filters. -/
theorem ensures_syncFilterType {σ : Type} {s : σ} {cl : Client} {coe : Bool}
    {of rFilters : Option (List Filter)} {whitelist : Bool} :
    (syncFilterType of rFilters whitelist cl coe s).Ensures (World.Answers outage) x fun out x' =>
      ∃ order, Sent outage cl (filterTypePlan of rFilters whitelist order) s x out x' := by
  refine World.ensures_rangeMap_bind fun order => ?_
  refine Prog.Ensures.mono ?_ fun out x' h => ⟨order, h⟩
  refine (?_ : Attempts outage cl (filterTypePlan of rFilters whitelist order) s _) x
  refine (Attempts.forEach fun f _ => (attempts_send _).tolerate coe).bind
    ((Attempts.forEach fun f _ => (attempts_send _).tolerate coe).bind
      ((Attempts.forEach fun f _ => (attempts_send _).tolerate coe).bind ?_))
  split_ifs
  · exact attempts_send _
  · exact attempts_pure

/-- The custom rules and the toggles of an origin that has toggles. -/
theorem attempts_syncRulesAndToggles {σ : Type} {s : σ} {cl : Client} {o rf : FilterStatus}
    (he : o.enabled.isSome) (hi : o.interval.isSome) :
    Attempts outage cl (settingsPlan o rf) s (syncRulesAndToggles o rf cl) := by
  obtain ⟨enabled, henabled⟩ := Option.isSome_iff_exists.mp he
  obtain ⟨interval, hinterval⟩ := Option.isSome_iff_exists.mp hi
  unfold syncRulesAndToggles settingsPlan
  split_ifs
  · exact attempts_send _
  · rw [henabled, hinterval]
    exact attempts_send _
  · exact attempts_pure

theorem ensures_filters (hg : filters.Sound g) :
    (actionFilters ac (g.snapshot ac.cfg)).Ensures (World.Answers outage) x
      (filters.Done outage ac g x) := by
  have hplan : ∀ block allow : MapOrder String, filters.Plans ac g (x ac.client.party).inst
      (filterTypePlan g.filtering.filters (x ac.client.party).inst.filtering.filters false block ++
        (filterTypePlan g.filtering.whitelistFilters
          (x ac.client.party).inst.filtering.whitelistFilters true allow ++
        settingsPlan g.filtering (x ac.client.party).inst.filtering)) := fun block allow =>
    ⟨fun whitelist => if whitelist then allow else block, rfl⟩
  refine World.ensures_doGet_bind Done.failed ?_
  rw [fromOrigin_bind_apply (a := g.filtering) rfl]
  refine Act.ensures_bind.mpr (ensures_syncFilterType.mono fun out x₁ ⟨block, hblock⟩ => ?_)
  obtain ⟨e | _, rfl⟩ := hblock.exists_outcome
  · exact Done.of_sent (.refl g) (hplan block .stored) (hblock.of_error _)
  refine Act.ensures_bind.mpr (ensures_syncFilterType.mono fun out x₂ ⟨allow, hallow⟩ => ?_)
  obtain ⟨e | _, rfl⟩ := hallow.exists_outcome
  · exact Done.of_sent (.refl g) (hplan block allow) (hblock.append (hallow.of_error _))
  refine (attempts_syncRulesAndToggles hg.2.1 hg.2.2 x₂).mono fun out x' h => ?_
  exact Done.of_sent (.refl g) (hplan block allow) (hblock.append (hallow.append h))

/-- Comparing sorts clients of the snapshot. -/
theorem map_sort_other_of_merge {cs os : List Model.Client} {o₁ o₂ : MapOrder String}
    {m : ClientsMerge} (hcs : (⟨some cs⟩ : Clients).Named) (hos : (⟨some os⟩ : Clients).Named)
    (hzone : ∀ c ∈ os, c.KeepsTimeZone)
    (hm : (⟨some cs⟩ : Clients).merge ⟨some os⟩ o₁ o₂ = some m) :
    ∃ os', m.other = ⟨some os'⟩ ∧ os'.map Client.sort = os.map Client.sort := by
  refine ⟨_, Clients.other_of_merge hcs hos hm, ?_⟩
  rw [List.map_map]
  refine List.map_congr_left fun c hc => ?_
  simp only [Function.comp]
  split_ifs
  · rw [(hzone c hc).compared_eq, Client.sort_sort]
  · rfl

theorem ensures_clientSettings (hg : clientSettings.Sound g)
    (hx : clientSettings.Fit (x ac.client.party).inst) :
    (actionClientSettings ac (g.snapshot ac.cfg)).Ensures (World.Answers outage) x
      (clientSettings.Done outage ac g x) := by
  refine World.ensures_doGet_bind Done.failed ?_
  rw [fromOrigin_bind_apply (a := (⟨some g.clients⟩ : Clients)) rfl]
  refine World.ensures_rangeMap_bind fun o₁ => World.ensures_rangeMap_bind fun o₂ => ?_
  have hsome : ((⟨some (x ac.client.party).inst.clients⟩ : Clients).merge ⟨some g.clients⟩
      o₁ o₂).isSome := Clients.merge_isSome o₁ o₂ fun c hc =>
    (List.mem_append.mp hc).elim (hx.names c) (hg.1.names c)
  obtain ⟨m, hm⟩ := Option.isSome_iff_exists.mp hsome
  obtain ⟨os, hother, hsort⟩ := map_sort_other_of_merge hx hg.1 hg.2 hm
  have hnames := Clients.names_of_merge hm
  have hsend : ∀ (f : Model.Client → Write) (cs : List Model.Client) (s : Origin),
      (∀ c ∈ cs, c.name.isSome) → Attempts outage ac.client (cs.map f) s (Act.forEach cs fun c =>
        Act.tolerate ac.cfg.continueOnError (Act.deref c.name >>= fun _ =>
          ac.client.send (f c))) := by
    refine fun f cs s hcs => Attempts.forEach fun c hc => ?_
    obtain ⟨name, hname⟩ := Option.isSome_iff_exists.mp (hcs c hc)
    rw [hname]
    exact (attempts_send _).tolerate _
  simp only [Instance.doc, hm, Act.deref_some, Act.pure_bind, Act.modify_bind_apply, hother]
  have hlike : ({ g with clients := os } : Instance).Like g := ⟨rfl, rfl, hsort⟩
  have hwrites : m.writes.map Prod.fst = m.removes.map .clientsDelete ++
      (m.adds.map .clientsAdd ++
        m.updates.map fun c => .clientsUpdate { name := c.name, data := some c }) := by
    simp only [ClientsMerge.writes, List.map_append, List.map_map, Function.comp_def]
  refine ensures_of_attempts hlike ⟨o₁, o₂, m, hm, hwrites.symm⟩ ?_
  · exact (hsend .clientsDelete m.removes _ fun c hc => hnames c (by simp [hc])).bind
      ((hsend .clientsAdd m.adds _ fun c hc => hnames c (by simp [hc])).bind
        (hsend (fun c => .clientsUpdate { name := c.name, data := some c }) m.updates _
          fun c hc => hnames c (by simp [hc])))

theorem ensures_dhcpStaticLeases (hT : dhcpStaticLeases ∈ ac.cfg.tasks) :
    (actionDHCPStaticLeases ac (g.snapshot ac.cfg)).Ensures (World.Answers outage) x
      (dhcpStaticLeases.Done outage ac g x) := by
  have hdhcp : ac.cfg.features.dhcp.staticLeases = true := by
    simpa [Config.tasks] using hT
  refine World.ensures_doGet_bind Done.failed ?_
  rw [fromOrigin_bind_apply (a := g.dhcp) (by simp [Instance.snapshot, hdhcp])]
  refine World.ensures_rangeMap_bind fun order => ensures_of_attempts (.refl g) ⟨order, rfl⟩ ?_
  exact (Attempts.forEach fun l _ => (attempts_send _).tolerate _).bind
    (Attempts.forEach fun l _ => (attempts_send _).tolerate _)

/-- The action of a task ends, and does what is planned if nothing fails. -/
theorem ensures (hT : T ∈ ac.cfg.tasks) (hg : T.Sound g) (hx : T.Fit (x ac.client.party).inst) :
    (T.action.sync ac (g.snapshot ac.cfg)).Ensures (World.Answers outage) x
      (T.Done outage ac g x) := by
  cases T with
  | profileInfo => exact ensures_profileInfo
  | protection => exact ensures_protection
  | parental => exact ensures_parental
  | safeBrowsing => exact ensures_safeBrowsing
  | document a =>
    cases a with
    | setting s =>
      cases s with
      | safeSearch => exact ensures_safeSearch hg
      | queryLog => exact ensures_queryLog hg
      | stats => exact ensures_stats
      | blockedServices => exact ensures_blockedServices hg
      | accessLists => exact ensures_accessLists
      | tls => exact ensures_tls hT
    | dnsServer => exact ensures_dnsServer hg hx
    | dhcpServer => exact ensures_dhcpServer hT
  | dnsRewrites => exact ensures_dnsRewrites
  | filters => exact ensures_filters hg
  | clientSettings => exact ensures_clientSettings hg hx
  | dhcpStaticLeases => exact ensures_dhcpStaticLeases hT

end Ensures

end Task

end AghSync
