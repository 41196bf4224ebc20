import AghSync.Client

/-!
# Actions

What a pass does to one replica. Each action reads a document of the replica, compares it
with the origin's, and sends what differs. The state of an action is the snapshot of the
origin : all replicas share it, and some comparisons change it.

`setupActions` is the list of the actions of the enabled features. An action either stops
at its first error or, where it tolerates one with `continueOnError`, logs it and goes on.
-/

open Interaction

namespace AghSync

open Model

/-- The functions of other packages that decide something : comparing two versions
(`semver.Compare`) and copying a DHCP document (`copier.Copy`). -/
structure Deps where
  semverCompare : String → String → ℤ
  copierCopy : DhcpStatus → DhcpStatus

/-- The snapshot of the origin. What has not been read yet is nil, or false. -/
structure Origin where
  status : Option ServerStatus := none
  rewrites : Option (List RewriteEntry) := none
  blockedServicesSchedule : Option BlockedServicesSchedule := none
  filters : Option FilterStatus := none
  clients : Option Clients := none
  queryLogConfig : Option QueryLogConfigWithIgnored := none
  statsConfig : Option GetStatsConfigResponse := none
  accessList : Option AccessList := none
  dnsConfig : Option DNSConfig := none
  dhcpServerConfig : Option DhcpStatus := none
  parental : Bool := false
  safeSearch : Option SafeSearchConfig := none
  profileInfo : Option ProfileInfo := none
  safeBrowsing : Bool := false
  tlsConfig : Option TlsConfig := none
  deriving DecidableEq

/-- What an action knows besides the snapshot of the origin. -/
structure ActionContext where
  deps : Deps
  cfg : Config
  client : Client
  replicaStatus : ServerStatus
  replica : AdGuardInstance

/-- Dereference a field of the snapshot. -/
def fromOrigin {α : Type} (f : Origin → Option α) : Call Origin α := do
  Act.deref (← Act.gets f)

theorem fromOrigin_bind_apply {α β : Type} {f : Origin → Option α} {o : Origin} {a : α}
    (h : f o = some a) (k : α → Call Origin β) : (fromOrigin f >>= k) o = k a o := by
  rw [fromOrigin, Act.bind_assoc, Act.gets_bind_apply, h]
  rfl

/-! ## General settings -/

/-- `actionProfileInfo`. -/
def actionProfileInfo (ac : ActionContext) : Call Origin Unit := do
  let pro ← ac.client.profileInfo
  let o ← fromOrigin Origin.profileInfo
  match pro.shouldSyncFor o ac.cfg.features.theme with
  | some merged => ac.client.setProfileInfo merged
  | none => pure ()

/-- `actionProtection`. -/
def actionProtection (ac : ActionContext) : Call Origin Unit := do
  let o ← fromOrigin Origin.status
  if o.protectionEnabled ≠ ac.replicaStatus.protectionEnabled then
    ac.client.toggleProtection o.protectionEnabled
  else pure ()

/-- `actionParental`. -/
def actionParental (ac : ActionContext) : Call Origin Unit := do
  let rp ← ac.client.parental
  let o ← Act.gets Origin.parental
  if o ≠ rp then ac.client.toggleParental o else pure ()

/-- `actionSafeSearchConfig`. -/
def actionSafeSearchConfig (ac : ActionContext) : Call Origin Unit := do
  let ssc ← ac.client.safeSearchConfig
  let o ← fromOrigin Origin.safeSearch
  if !o.equals ssc then ac.client.setSafeSearchConfig o else pure ()

/-- `actionSafeBrowsing`. -/
def actionSafeBrowsing (ac : ActionContext) : Call Origin Unit := do
  let rs ← ac.client.safeBrowsing
  let o ← Act.gets Origin.safeBrowsing
  if o ≠ rs then ac.client.toggleSafeBrowsing o else pure ()

/-! ## Query log and statistics -/

/-- `actionQueryLogConfig`. -/
def actionQueryLogConfig (ac : ActionContext) : Call Origin Unit := do
  let qlc ← ac.client.queryLogConfig
  let o ← fromOrigin Origin.queryLogConfig
  if !o.equals qlc then ac.client.setQueryLogConfig o else pure ()

/-- `actionStatsConfig`. -/
def actionStatsConfig (ac : ActionContext) : Call Origin Unit := do
  let sc ← ac.client.statsConfig
  let o ← fromOrigin Origin.statsConfig
  if !sc.equals o then ac.client.setStatsConfig o else pure ()

/-! ## Rewrites and filters -/

/-- `actionDNSRewrites`. -/
def actionDNSRewrites (ac : ActionContext) : Call Origin Unit := do
  let replicaRewrites ← Act.deref (← ac.client.rewriteList)
  let o ← fromOrigin Origin.rewrites
  let order ← ac.client.rangeMap .rewrites
  let m := mergeRewrites replicaRewrites o order
  ac.client.deleteRewriteEntries m.removes
  ac.client.addRewriteEntries m.adds

/-- `syncFilterType`. -/
def syncFilterType {σ : Type} (of rFilters : Option (List Filter)) (whitelist : Bool)
    (replica : Client) (continueOnError : Bool) : Call σ Unit := do
  let order ← replica.rangeMap (.filters whitelist)
  let m := mergeFilters rFilters of order
  Act.forEach m.removes fun f =>
    Act.tolerate continueOnError (replica.deleteFilter whitelist f)
  Act.forEach m.adds fun f =>
    Act.tolerate continueOnError (replica.addFilter whitelist f)
  Act.forEach m.updates fun f =>
    Act.tolerate continueOnError (replica.updateFilter whitelist f)
  if m.adds.length > 0 ∨ m.updates.length > 0 then replica.refreshFilters whitelist
  else pure ()

/-- The custom rules and the filtering toggles of `actionFilters`. Sending the rules
returns, so the toggles are only looked at when the rules print the same. -/
def syncRulesAndToggles {σ : Type} (o rf : FilterStatus) (replica : Client) : Call σ Unit :=
  if Utils.ptrToString o.userRules ≠ Utils.ptrToString rf.userRules then
    replica.setCustomRules o.userRules
  else if !Utils.ptrEquals o.enabled rf.enabled || !Utils.ptrEquals o.interval rf.interval then do
    let enabled ← Act.deref o.enabled
    let interval ← Act.deref o.interval
    replica.toggleFiltering enabled interval
  else pure ()

/-- `actionFilters`. -/
def actionFilters (ac : ActionContext) : Call Origin Unit := do
  let rf ← ac.client.filtering
  let o ← fromOrigin Origin.filters
  syncFilterType o.filters rf.filters false ac.client ac.cfg.continueOnError
  syncFilterType o.whitelistFilters rf.whitelistFilters true ac.client ac.cfg.continueOnError
  syncRulesAndToggles o rf ac.client

/-! ## Services and clients -/

/-- `actionBlockedServicesSchedule`. -/
def actionBlockedServicesSchedule (ac : ActionContext) : Call Origin Unit := do
  let rbss ← ac.client.blockedServicesSchedule
  let o ← fromOrigin Origin.blockedServicesSchedule
  if !o.equals rbss then
    ac.client.setBlockedServicesSchedule o fun s o =>
      { o with blockedServicesSchedule := some s }
  else pure ()

/-- `actionClientSettings`. -/
def actionClientSettings (ac : ActionContext) : Call Origin Unit := do
  let rc ← ac.client.clients
  let o ← fromOrigin Origin.clients
  let o₁ ← ac.client.rangeMap .clientsExpected
  let o₂ ← ac.client.rangeMap .clientsCurrent
  let m ← Act.deref (rc.merge o o₁ o₂)
  Act.modify fun o => { o with clients := some m.other }
  Act.forEach m.removes fun client =>
    Act.tolerate ac.cfg.continueOnError (ac.client.deleteClient client)
  Act.forEach m.adds fun client =>
    Act.tolerate ac.cfg.continueOnError (ac.client.addClient client)
  Act.forEach m.updates fun client =>
    Act.tolerate ac.cfg.continueOnError (ac.client.updateClient client)

/-! ## Access lists, DNS, DHCP and TLS -/

/-- `actionDNSAccessLists`. -/
def actionDNSAccessLists (ac : ActionContext) : Call Origin Unit := do
  let al ← ac.client.accessList
  let o ← fromOrigin Origin.accessList
  let compared := al.equals o
  Act.modify fun o => { o with accessList := some compared.2.2 }
  if !compared.1 then ac.client.setAccessList compared.2.2 else pure ()

/-- `actionDNSServerConfig`. -/
def actionDNSServerConfig (ac : ActionContext) : Call Origin Unit := do
  let dc ← ac.client.dnsConfig
  let o ← fromOrigin Origin.dnsConfig
  let equal ← Act.deref (dc.equals o)
  if !equal then ac.client.setDNSConfig o else pure ()

/-- The origin's DHCP document with the overrides of a replica. -/
def AdGuardInstance.overrideDhcp (i : AdGuardInstance) (c : DhcpStatus) : DhcpStatus :=
  let c := if i.interfaceName ≠ "" then { c with interfaceName := some i.interfaceName } else c
  if i.dhcpServerEnabled.isSome then { c with enabled := i.dhcpServerEnabled } else c

/-- `actionDHCPServerConfig`. -/
def actionDHCPServerConfig (ac : ActionContext) : Call Origin Unit := do
  let o ← fromOrigin Origin.dhcpServerConfig
  if o.hasConfig then do
    let sc ← ac.client.dhcpConfig
    let origClone := ac.replica.overrideDhcp (ac.deps.copierCopy o)
    let compared := sc.cleanAndEquals origClone
    if !compared.1 then ac.client.setDhcpConfig compared.2.2 else pure ()
  else pure ()

/-- `actionDHCPStaticLeases`. -/
def actionDHCPStaticLeases (ac : ActionContext) : Call Origin Unit := do
  let sc ← ac.client.dhcpConfig
  let o ← fromOrigin Origin.dhcpServerConfig
  let order ← ac.client.rangeMap .leases
  let m := mergeDhcpStaticLeases sc.staticLeases o.staticLeases order
  Act.forEach m.removes fun lease =>
    Act.tolerate ac.cfg.continueOnError (ac.client.deleteDHCPStaticLease lease)
  Act.forEach m.adds fun lease =>
    Act.tolerate ac.cfg.continueOnError (ac.client.addDHCPStaticLease lease)

/-- `tlsConfig`. -/
def tlsConfig (ac : ActionContext) : Call Origin Unit := do
  let tlsc ← ac.client.tlsConfig
  let o ← fromOrigin Origin.tlsConfig
  if !tlsc.equals o then
    Act.tolerate ac.cfg.continueOnError (ac.client.setTLSConfig o)
  else pure ()

/-! ## The list of actions -/

/-- `syncAction`. -/
structure SyncAction where
  name : String
  sync : ActionContext → Call Origin Unit

/-- `setupActions`. -/
def setupActions (cfg : Config) : List SyncAction :=
  (if cfg.features.generalSettings then
    [⟨"profile info", actionProfileInfo⟩,
      ⟨"protection", actionProtection⟩,
      ⟨"parental", actionParental⟩,
      ⟨"safe search config", actionSafeSearchConfig⟩,
      ⟨"safe browsing", actionSafeBrowsing⟩] else []) ++
  (if cfg.features.dns.serverConfig then
    [⟨"DNS server config", actionDNSServerConfig⟩] else []) ++
  (if cfg.features.queryLogConfig then [⟨"query log config", actionQueryLogConfig⟩] else []) ++
  (if cfg.features.statsConfig then [⟨"stats config", actionStatsConfig⟩] else []) ++
  (if cfg.features.dns.rewrites then [⟨"DNS rewrites", actionDNSRewrites⟩] else []) ++
  (if cfg.features.filters then [⟨"actionFilters", actionFilters⟩] else []) ++
  (if cfg.features.services then
    [⟨"blocked services schedule", actionBlockedServicesSchedule⟩] else []) ++
  (if cfg.features.clientSettings then [⟨"client settings", actionClientSettings⟩] else []) ++
  (if cfg.features.dns.accessLists then [⟨"DNS access lists", actionDNSAccessLists⟩] else []) ++
  (if cfg.features.dhcp.serverConfig then
    [⟨"DHCP server config", actionDHCPServerConfig⟩] else []) ++
  (if cfg.features.dhcp.staticLeases then
    [⟨"DHCP static leases", actionDHCPStaticLeases⟩] else []) ++
  (if cfg.features.tlsConfig then [⟨"TLS config", tlsConfig⟩] else [])

end AghSync
