import AghSync.Stages

/-!
# The stages of each action

Each action of `setupActions` is staged, on the document listed for it in `topics`. Only
three of them put anything into the snapshot : the blocked services, the clients and the
access lists, each by sorting what it compares or logs.
-/

open Interaction

namespace AghSync

open Model

section Derivations

variable (ac : ActionContext) (o : Origin)

/-! ## General settings -/

theorem staged_profileInfo {A : Field .profile → Prop} :
    Staged ac.client ac.cfg.continueOnError "profile info" .profile A o
      (actionProfileInfo ac) := by
  refine .read fun pro => .fromOrigin (fun _ h => h) fun p _ => .write ?_
  cases pro.shouldSyncFor p ac.cfg.features.theme with
  | some merged => exact Sends.send rfl rfl
  | none => exact Sends.noWrite

theorem staged_protection {A : Field .status → Prop} :
    Staged ac.client ac.cfg.continueOnError "protection" .status A o (actionProtection ac) :=
  .fromOrigin (fun _ h => h) fun _ _ => .write (Sends.ite (Sends.send rfl rfl))

theorem staged_parental {A : Field .parentalStatus → Prop} :
    Staged ac.client ac.cfg.continueOnError "parental" .parentalStatus A o
      (actionParental ac) :=
  .read fun _ => .load (fun _ h => h) (.write (Sends.ite (Sends.send rfl rfl)))

theorem staged_safeSearchConfig {A : Field .safesearchStatus → Prop} :
    Staged ac.client ac.cfg.continueOnError "safe search config" .safesearchStatus A o
      (actionSafeSearchConfig ac) :=
  .read fun _ => .fromOrigin (fun _ h => h) fun _ _ => .write <| Sends.ite <|
    .bind (.deref _) fun _ => Sends.send rfl rfl

theorem staged_safeBrowsing {A : Field .safebrowsingStatus → Prop} :
    Staged ac.client ac.cfg.continueOnError "safe browsing" .safebrowsingStatus A o
      (actionSafeBrowsing ac) :=
  .read fun _ => .load (fun _ h => h) (.write (Sends.ite (Sends.send rfl rfl)))

theorem staged_queryLogConfig {A : Field .querylogConfig → Prop} :
    Staged ac.client ac.cfg.continueOnError "query log config" .querylogConfig A o
      (actionQueryLogConfig ac) :=
  .read fun _ => .fromOrigin (fun _ h => h) fun _ _ => .write <| Sends.ite <|
    .bind (.deref _) fun _ => .bind (.deref _) fun _ => .bind (.deref _) fun _ =>
      Sends.send rfl rfl

theorem staged_statsConfig {A : Field .statsConfig → Prop} :
    Staged ac.client ac.cfg.continueOnError "stats config" .statsConfig A o
      (actionStatsConfig ac) :=
  .read fun _ => .fromOrigin (fun _ h => h) fun _ _ => .write (Sends.ite (Sends.send rfl rfl))

/-! ## Lists -/

theorem staged_dnsRewrites {A : Field .rewriteList → Prop} :
    Staged ac.client ac.cfg.continueOnError "DNS rewrites" .rewriteList A o
      (actionDNSRewrites ac) := by
  refine .read fun rw => .deref fun rw _ => .fromOrigin (fun _ h => h) fun e _ =>
    .range fun order => .write (.bind (.forEach (fun e => ?_) _) fun _ => .forEach (fun e => ?_) _)
  · exact Sends.send rfl rfl
  · exact Sends.send rfl rfl

theorem sends_syncFilterType {σ : Type} (of rFilters : Option (List Filter)) (whitelist : Bool)
    (cl : Client) (coe : Bool) :
    Act.Built (Sends cl coe "actionFilters")
      (syncFilterType of rFilters whitelist cl coe : Call σ Unit) := by
  refine .bind (.basic (.range _)) fun order => ?_
  refine .bind ?removes fun _ => .bind ?adds fun _ => .bind ?updates fun _ => ?refresh
  case removes | adds | updates =>
    refine .forEach (fun f => ?_) _
    exact Sends.tolerate rfl rfl
  case refresh => exact Sends.ite (Sends.send rfl rfl)

theorem sends_syncRulesAndToggles {σ : Type} (o rf : FilterStatus) (cl : Client) (coe : Bool) :
    Act.Built (Sends cl coe "actionFilters") (syncRulesAndToggles o rf cl : Call σ Unit) := by
  unfold syncRulesAndToggles
  split_ifs
  · exact Sends.send rfl rfl
  · exact .bind (.deref _) fun _ => .bind (.deref _) fun _ => Sends.send rfl rfl
  · exact Sends.noWrite

theorem staged_filters {A : Field .filteringStatus → Prop} :
    Staged ac.client ac.cfg.continueOnError "actionFilters" .filteringStatus A o
      (actionFilters ac) := by
  refine .read fun rf => .fromOrigin (fun _ h => h) fun f _ => .write ?_
  refine .bind (sends_syncFilterType _ _ _ _ _) fun _ => ?_
  exact .bind (sends_syncFilterType _ _ _ _ _) fun _ => sends_syncRulesAndToggles _ _ _ _

theorem staged_dhcpStaticLeases {A : Field .dhcpStatus → Prop} :
    Staged ac.client ac.cfg.continueOnError "DHCP static leases" .dhcpStatus A o
      (actionDHCPStaticLeases ac) := by
  refine .read fun sc => .fromOrigin (fun _ h => h) fun c _ => .range fun order =>
    .write (.bind (.forEach (fun l => ?_) _) fun _ => .forEach (fun l => ?_) _)
  · exact Sends.tolerate rfl rfl
  · exact Sends.tolerate rfl rfl

/-! ## DNS, DHCP and TLS documents -/

theorem staged_dnsServerConfig {A : Field .dnsInfo → Prop} :
    Staged ac.client ac.cfg.continueOnError "DNS server config" .dnsInfo A o
      (actionDNSServerConfig ac) :=
  .read fun _ => .fromOrigin (fun _ h => h) fun _ _ => .deref fun _ _ =>
    .write (Sends.ite (Sends.send rfl rfl))

theorem staged_dhcpServerConfig {A : Field .dhcpStatus → Prop} :
    Staged ac.client ac.cfg.continueOnError "DHCP server config" .dhcpStatus A o
      (actionDHCPServerConfig ac) := by
  refine .fromOrigin (fun _ h => h) fun c _ => ?_
  split
  · exact .read fun sc => .write (Sends.ite (Sends.send rfl rfl))
  · exact .write Sends.noWrite

theorem staged_tlsConfig {A : Field .tlsStatus → Prop} :
    Staged ac.client ac.cfg.continueOnError "TLS config" .tlsStatus A o (tlsConfig ac) :=
  .read fun _ => .fromOrigin (fun _ h => h) fun _ _ => .write (Sends.ite (Sends.tolerate rfl rfl))

/-! ## The actions that change the snapshot -/

theorem staged_blockedServicesSchedule {A : Field .blockedServicesGet → Prop}
    (hA : ∀ s, o.blockedServicesSchedule = some s → A (some s.servicesString.2)) :
    Staged ac.client ac.cfg.continueOnError "blocked services schedule" .blockedServicesGet A o
      (actionBlockedServicesSchedule ac) := by
  refine .read fun rbss => .fromOrigin (fun _ h => h) fun s hs => ?_
  split
  · exact .save (hA s hs) (.write (Sends.send rfl rfl))
  · exact .write Sends.noWrite

theorem staged_clientSettings {A : Field .clients → Prop}
    (hA : ∀ (rc c : Clients) o₁ o₂ m, o.clients = some c → rc.merge c o₁ o₂ = some m →
      A (some m.other)) :
    Staged ac.client ac.cfg.continueOnError "client settings" .clients A o
      (actionClientSettings ac) := by
  refine .read fun rc => .fromOrigin (fun _ h => h) fun c hc => .range fun o₁ => .range fun o₂ =>
    .deref fun m hm => .save (hA rc c o₁ o₂ m hc hm) (.write ?_)
  refine .bind ?removes fun _ => .bind ?adds fun _ => ?updates
  case removes | adds | updates =>
    refine .forEach (fun c => ?_) _
    exact Sends.tolerate_deref (by rfl) (by rfl) _

theorem staged_dnsAccessLists {A : Field .accessList → Prop}
    (hA : ∀ (al c : AccessList), o.accessList = some c → A (some (al.equals c).2.2)) :
    Staged ac.client ac.cfg.continueOnError "DNS access lists" .accessList A o
      (actionDNSAccessLists ac) := by
  exact .read fun al => .fromOrigin (fun _ h => h) fun c hc => .save (hA al c hc)
    (.write (Sends.ite (Sends.send rfl rfl)))

end Derivations

/-! ## The enabled actions -/

/-- `Enabled cfg a q` : `a` is an action of a feature that is on, and works on `q`. -/
inductive Enabled (cfg : Config) : SyncAction → Read → Prop
  | profileInfo (h : cfg.features.generalSettings = true) :
      Enabled cfg ⟨"profile info", actionProfileInfo⟩ .profile
  | protection (h : cfg.features.generalSettings = true) :
      Enabled cfg ⟨"protection", actionProtection⟩ .status
  | parental (h : cfg.features.generalSettings = true) :
      Enabled cfg ⟨"parental", actionParental⟩ .parentalStatus
  | safeSearchConfig (h : cfg.features.generalSettings = true) :
      Enabled cfg ⟨"safe search config", actionSafeSearchConfig⟩ .safesearchStatus
  | safeBrowsing (h : cfg.features.generalSettings = true) :
      Enabled cfg ⟨"safe browsing", actionSafeBrowsing⟩ .safebrowsingStatus
  | dnsServerConfig (h : cfg.features.dns.serverConfig = true) :
      Enabled cfg ⟨"DNS server config", actionDNSServerConfig⟩ .dnsInfo
  | queryLogConfig (h : cfg.features.queryLogConfig = true) :
      Enabled cfg ⟨"query log config", actionQueryLogConfig⟩ .querylogConfig
  | statsConfig (h : cfg.features.statsConfig = true) :
      Enabled cfg ⟨"stats config", actionStatsConfig⟩ .statsConfig
  | dnsRewrites (h : cfg.features.dns.rewrites = true) :
      Enabled cfg ⟨"DNS rewrites", actionDNSRewrites⟩ .rewriteList
  | filters (h : cfg.features.filters = true) :
      Enabled cfg ⟨"actionFilters", actionFilters⟩ .filteringStatus
  | blockedServicesSchedule (h : cfg.features.services = true) :
      Enabled cfg ⟨"blocked services schedule", actionBlockedServicesSchedule⟩
        .blockedServicesGet
  | clientSettings (h : cfg.features.clientSettings = true) :
      Enabled cfg ⟨"client settings", actionClientSettings⟩ .clients
  | dnsAccessLists (h : cfg.features.dns.accessLists = true) :
      Enabled cfg ⟨"DNS access lists", actionDNSAccessLists⟩ .accessList
  | dhcpServerConfig (h : cfg.features.dhcp.serverConfig = true) :
      Enabled cfg ⟨"DHCP server config", actionDHCPServerConfig⟩ .dhcpStatus
  | dhcpStaticLeases (h : cfg.features.dhcp.staticLeases = true) :
      Enabled cfg ⟨"DHCP static leases", actionDHCPStaticLeases⟩ .dhcpStatus
  | tlsConfig (h : cfg.features.tlsConfig = true) :
      Enabled cfg ⟨"TLS config", tlsConfig⟩ .tlsStatus

/-- The documents of the actions of `setupActions`, in order. -/
def topics (cfg : Config) : List Read :=
  (if cfg.features.generalSettings then
    [Read.profile, .status, .parentalStatus, .safesearchStatus, .safebrowsingStatus] else []) ++
  (if cfg.features.dns.serverConfig then [Read.dnsInfo] else []) ++
  (if cfg.features.queryLogConfig then [Read.querylogConfig] else []) ++
  (if cfg.features.statsConfig then [Read.statsConfig] else []) ++
  (if cfg.features.dns.rewrites then [Read.rewriteList] else []) ++
  (if cfg.features.filters then [Read.filteringStatus] else []) ++
  (if cfg.features.services then [Read.blockedServicesGet] else []) ++
  (if cfg.features.clientSettings then [Read.clients] else []) ++
  (if cfg.features.dns.accessLists then [Read.accessList] else []) ++
  (if cfg.features.dhcp.serverConfig then [Read.dhcpStatus] else []) ++
  (if cfg.features.dhcp.staticLeases then [Read.dhcpStatus] else []) ++
  (if cfg.features.tlsConfig then [Read.tlsStatus] else [])

theorem forall₂_ite {α β : Type} {R : α → β → Prop} {c : Prop} [Decidable c] {xs : List α}
    {ys : List β} (h : c → List.Forall₂ R xs ys) :
    List.Forall₂ R (if c then xs else []) (if c then ys else []) := by
  split_ifs with hc
  · exact h hc
  · exact .nil

/-- `setupActions` lists enabled actions, each with its document. -/
theorem setupActions_enabled (cfg : Config) :
    List.Forall₂ (Enabled cfg) (setupActions cfg) (topics cfg) := by
  unfold setupActions topics
  repeat' refine List.rel_append ?_ ?_
  all_goals refine forall₂_ite fun h => ?_
  · exact .cons (.profileInfo h) <| .cons (.protection h) <| .cons (.parental h) <|
      .cons (.safeSearchConfig h) <| .cons (.safeBrowsing h) .nil
  · exact .cons (.dnsServerConfig h) .nil
  · exact .cons (.queryLogConfig h) .nil
  · exact .cons (.statsConfig h) .nil
  · exact .cons (.dnsRewrites h) .nil
  · exact .cons (.filters h) .nil
  · exact .cons (.blockedServicesSchedule h) .nil
  · exact .cons (.clientSettings h) .nil
  · exact .cons (.dnsAccessLists h) .nil
  · exact .cons (.dhcpServerConfig h) .nil
  · exact .cons (.dhcpStaticLeases h) .nil
  · exact .cons (.tlsConfig h) .nil

theorem exists_enabled {cfg : Config} {a : SyncAction} (h : a ∈ setupActions cfg) :
    ∃ q, Enabled cfg a q := by
  have hall := setupActions_enabled cfg
  generalize setupActions cfg = actions, topics cfg = qs at h hall
  induction hall with
  | nil => cases h
  | @cons b q _ _ hb _ ih =>
    rcases List.mem_cons.mp h with rfl | h
    · exact ⟨q, hb⟩
    · exact ih h

/-- Every enabled action is staged on its document. Three of them put something into the
snapshot. -/
theorem Enabled.stagedIn {cfg : Config} {a : SyncAction} {q : Read} (h : Enabled cfg a q)
    (ac : ActionContext) (o : Origin) (A : (q : Read) → Field q → Prop)
    (hservices : cfg.features.services = true → ∀ s, o.blockedServicesSchedule = some s →
      A .blockedServicesGet (some s.servicesString.2))
    (hclients : cfg.features.clientSettings = true → ∀ (rc c : Clients) o₁ o₂ m,
      o.clients = some c → rc.merge c o₁ o₂ = some m → A .clients (some m.other))
    (haccess : cfg.features.dns.accessLists = true → ∀ al c : AccessList,
      o.accessList = some c → A .accessList (some (al.equals c).2.2)) :
    Staged ac.client ac.cfg.continueOnError a.name q (A q) o (a.sync ac) := by
  cases h with
  | profileInfo => exact staged_profileInfo ac o
  | protection => exact staged_protection ac o
  | parental => exact staged_parental ac o
  | safeSearchConfig => exact staged_safeSearchConfig ac o
  | safeBrowsing => exact staged_safeBrowsing ac o
  | dnsServerConfig => exact staged_dnsServerConfig ac o
  | queryLogConfig => exact staged_queryLogConfig ac o
  | statsConfig => exact staged_statsConfig ac o
  | dnsRewrites => exact staged_dnsRewrites ac o
  | filters => exact staged_filters ac o
  | blockedServicesSchedule h => exact staged_blockedServicesSchedule ac o (hservices h)
  | clientSettings h => exact staged_clientSettings ac o (hclients h)
  | dnsAccessLists h => exact staged_dnsAccessLists ac o (haccess h)
  | dhcpServerConfig => exact staged_dhcpServerConfig ac o
  | dhcpStaticLeases => exact staged_dhcpStaticLeases ac o
  | tlsConfig => exact staged_tlsConfig ac o

theorem Enabled.staged {cfg : Config} {a : SyncAction} {q : Read} (h : Enabled cfg a q)
    (ac : ActionContext) (o : Origin) :
    Staged ac.client ac.cfg.continueOnError a.name q (fun _ => True) o (a.sync ac) :=
  h.stagedIn ac o (fun _ _ => True) (fun _ _ _ => trivial) (fun _ _ _ _ _ _ _ _ => trivial)
    fun _ _ _ _ => trivial

end AghSync
