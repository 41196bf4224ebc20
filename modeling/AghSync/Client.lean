import AghSync.Config
import AghSync.Interaction
import AghSync.Merge

/-!
# Requests and the API client

What the sync can do to the world is an `Event` : create a client, send a request, pick the
order of a map iteration, read the clock, report a result, use the variables the runs of a
worker share. Requests are addressed to a `Party`, the origin or one replica.

A read is answered with a document or an error, a write with nothing or an error. The
methods of `Client` are the requests they send, and crash where the source dereferences a
nil pointer. Logging is left out, except where it sorts what it logs.
-/

open Interaction

namespace AghSync

open Model

/-! ## Errors -/

/-- An error : the instance is not set up, a request failed with a status code, or
anything else. -/
inductive Err
  | setupNeeded
  | client (message : String) (code : ℕ)
  | other (message : String)
  deriving DecidableEq

/-- `errors.As(err, &clientErr)` with `clientErr.Code()` the given code. -/
def Err.hasCode (code : ℕ) : Err → Bool
  | client _ c => decide (c = code)
  | _ => false

/-! ## Requests -/

/-- A request that reads a document. -/
inductive Read
  | status
  | profile
  | parentalStatus
  | safesearchStatus
  | safebrowsingStatus
  | rewriteList
  | blockedServicesGet
  | filteringStatus
  | clients
  | querylogConfig
  | statsConfig
  | accessList
  | dnsInfo
  | dhcpStatus
  | tlsStatus
  deriving DecidableEq

/-- What a read returns. The list of rewrites is the one document that can be nil. -/
abbrev Doc : Read → Type
  | .status => ServerStatus
  | .profile => ProfileInfo
  | .parentalStatus => Bool
  | .safesearchStatus => SafeSearchConfig
  | .safebrowsingStatus => Bool
  | .rewriteList => Option (List RewriteEntry)
  | .blockedServicesGet => BlockedServicesSchedule
  | .filteringStatus => FilterStatus
  | .clients => Clients
  | .querylogConfig => QueryLogConfigWithIgnored
  | .statsConfig => GetStatsConfigResponse
  | .accessList => AccessList
  | .dnsInfo => DNSConfig
  | .dhcpStatus => DhcpStatus
  | .tlsStatus => TlsConfig

/-- A port of the initial setup. -/
structure InstallPort where
  ip : String
  port : ℤ
  status : String
  canAutofix : Bool
  deriving DecidableEq

/-- Body of `/install/configure`. -/
structure InstallConfig where
  web : InstallPort
  dns : InstallPort
  username : String := ""
  password : String := ""
  deriving DecidableEq

/-- Body of `/dns_config` when only the protection is toggled. -/
structure Protection where
  protectionEnabled : Bool
  deriving DecidableEq

instance : Marshal InstallPort where
  marshal p := .object [
    Json.always "ip" p.ip,
    Json.always "port" p.port,
    Json.always "status" p.status,
    Json.always "can_autofix" p.canAutofix]

instance : Marshal InstallConfig where
  marshal c := .object [
    Json.always "web" c.web,
    Json.always "dns" c.dns,
    Json.always "username" c.username,
    Json.always "password" c.password]

instance : Marshal Protection where
  marshal p := .object [Json.always "protection_enabled" p.protectionEnabled]

/-- A request that changes the instance, with its body. -/
inductive Write
  | installConfigure (cfg : InstallConfig)
  | profileUpdate (profile : ProfileInfo)
  | protection (body : Protection)
  | parental (enable : Bool)
  | safebrowsing (enable : Bool)
  | safesearchSettings (settings : SafeSearchConfig)
  | dnsConfig (config : DNSConfig)
  | querylogConfigUpdate (qlc : QueryLogConfigWithIgnored)
  | statsConfigUpdate (sc : GetStatsConfigResponse)
  | rewriteAdd (entry : RewriteEntry)
  | rewriteDelete (entry : RewriteEntry)
  | filteringAddUrl (body : AddUrlRequest)
  | filteringRemoveUrl (body : RemoveUrlRequest)
  | filteringSetUrl (body : FilterSetUrl)
  | filteringRefresh (body : FilterRefreshRequest)
  | filteringSetRules (body : SetRulesRequest)
  | filteringConfig (body : FilterConfig)
  | blockedServicesUpdate (schedule : BlockedServicesSchedule)
  | clientsAdd (client : Model.Client)
  | clientsUpdate (body : ClientUpdate)
  | clientsDelete (client : Model.Client)
  | accessSet (list : AccessList)
  | dhcpSetConfig (status : DhcpStatus)
  | dhcpAddStaticLease (lease : DhcpStaticLease)
  | dhcpRemoveStaticLease (lease : DhcpStaticLease)
  | tlsConfigure (config : TlsConfig)
  deriving DecidableEq

namespace Write

/-- `enable` or `disable`. -/
def toggleTarget (enable : Bool) : String :=
  if enable then "enable" else "disable"

/-- The endpoint of a write. Toggling the protection and writing the DNS configuration share
theirs. -/
def endpoint : Write → String
  | installConfigure _ => "/install/configure"
  | profileUpdate _ => "/profile/update"
  | protection _ => "/dns_config"
  | parental enable => "/parental/" ++ toggleTarget enable
  | safebrowsing enable => "/safebrowsing/" ++ toggleTarget enable
  | safesearchSettings _ => "/safesearch/settings"
  | dnsConfig _ => "/dns_config"
  | querylogConfigUpdate _ => "/querylog/config/update"
  | statsConfigUpdate _ => "/stats/config/update"
  | rewriteAdd _ => "/rewrite/add"
  | rewriteDelete _ => "/rewrite/delete"
  | filteringAddUrl _ => "/filtering/add_url"
  | filteringRemoveUrl _ => "/filtering/remove_url"
  | filteringSetUrl _ => "/filtering/set_url"
  | filteringRefresh _ => "/filtering/refresh"
  | filteringSetRules _ => "/filtering/set_rules"
  | filteringConfig _ => "/filtering/config"
  | blockedServicesUpdate _ => "/blocked_services/update"
  | clientsAdd _ => "/clients/add"
  | clientsUpdate _ => "/clients/update"
  | clientsDelete _ => "/clients/delete"
  | accessSet _ => "/access/set"
  | dhcpSetConfig _ => "/dhcp/set_config"
  | dhcpAddStaticLease _ => "/dhcp/add_static_lease"
  | dhcpRemoveStaticLease _ => "/dhcp/remove_static_lease"
  | tlsConfigure _ => "/tls/configure"

/-- The JSON body of a write. The toggles have none. -/
def body : Write → Option Json
  | installConfigure cfg => some (marshal cfg)
  | profileUpdate profile => some (marshal profile)
  | protection body => some (marshal body)
  | parental _ => none
  | safebrowsing _ => none
  | safesearchSettings settings => some (marshal settings)
  | dnsConfig config => some (marshal config)
  | querylogConfigUpdate qlc => some (marshal qlc)
  | statsConfigUpdate sc => some (marshal sc)
  | rewriteAdd entry => some (marshal entry)
  | rewriteDelete entry => some (marshal entry)
  | filteringAddUrl body => some (marshal body)
  | filteringRemoveUrl body => some (marshal body)
  | filteringSetUrl body => some (marshal body)
  | filteringRefresh body => some (marshal body)
  | filteringSetRules body => some (marshal body)
  | filteringConfig body => some (marshal body)
  | blockedServicesUpdate schedule => some (marshal schedule)
  | clientsAdd client => some (marshal client)
  | clientsUpdate body => some (marshal body)
  | clientsDelete client => some (marshal client)
  | accessSet list => some (marshal list)
  | dhcpSetConfig status => some (marshal status)
  | dhcpAddStaticLease lease => some (marshal lease)
  | dhcpRemoveStaticLease lease => some (marshal lease)
  | tlsConfigure config => some (marshal config)

/-- What the receiver of a write sees. -/
def wire (w : Write) : String × Option Json :=
  (w.endpoint, w.body)

end Write

/-! ## Events -/

/-- Who a request is sent to. -/
inductive Party
  | origin
  | replica (inst : AdGuardInstance)
  deriving DecidableEq

/-- The statements that iterate over a map while a replica is processed. -/
inductive MergeSite
  | filters (whitelist : Bool)
  | clientsExpected
  | clientsCurrent
  | rewrites
  | leases
  deriving DecidableEq

/-- What a worker does to the world. Times and durations are in nanoseconds. -/
inductive Event
  | createClient (p : Party)
  | read (p : Party) (r : Read)
  | write (p : Party) (w : Write)
  | rangeMap (p : Party) (site : MergeSite)
  | rangeReplicas
  | now
  | updateResult (host : String) (ok : Bool) (duration : ℤ)
  | readRunning
  | setRunning (running : Bool)
  | setLastSyncTime (t : ℤ)
  | cronNext
  | setNextSyncTime (t : ℤ)
  deriving DecidableEq

/-- The replies to an event. `cronNext` is the next execution of the cron entry, if there
is an entry. -/
abbrev Reply : Event → Type
  | .createClient _ => Except Err Unit
  | .read _ r => Except Err (Doc r)
  | .write _ _ => Except Err Unit
  | .rangeMap _ _ => MapOrder String
  | .rangeReplicas => MapOrder String
  | .now => ℤ
  | .readRunning => Bool
  | .cronNext => Option ℤ
  | .updateResult _ _ _ | .setRunning _ | .setLastSyncTime _ | .setNextSyncTime _ => Unit

/-- A program of the sync. -/
abbrev Go := Prog Event Reply

/-- A computation of the sync with state `σ`, up to its first error. -/
abbrev Call (σ : Type) := Act Event Reply σ Err

/-- Perform an event. -/
def perform (e : Event) : Go (Reply e) :=
  Prog.perform e

theorem runs_perform_bind {α : Type} {e : Event} {k : Reply e → Go α}
    {tr : Trace Event Reply} {out : Option α} :
    Prog.Runs (perform e >>= k) tr out ↔ ∃ r t, tr = ⟨e, r⟩ :: t ∧ Prog.Runs (k r) t out :=
  Prog.runs_ask

theorem only_perform_bind {α : Type} {P : Event → Prop} {e : Event} {k : Reply e → Go α}
    (he : P e) (hk : ∀ r, (k r).Only P) : (perform e >>= k).Only P :=
  ⟨he, hk⟩

/-! ## The client -/

/-- `client.client` : who it talks to, and its credentials. -/
structure Client where
  party : Party
  host : String
  cookies : List (String × String)
  userInfo : Option (String × String)

/-- The part of `New` that chooses the cookies or the user name and the password. -/
def AdGuardInstance.credentials (config : AdGuardInstance) :
    List (String × String) × Option (String × String) :=
  match config.cookie.toList.splitOn '=' with
  | [name, value] => ([(String.ofList name, String.ofList value)], none)
  | _ =>
    if config.username ≠ "" ∧ config.password ≠ "" then
      ([], some (config.username, config.password))
    else ([], none)

/-- The client `client.New` returns for an instance when it succeeds. -/
def Client.new (party : Party) (config : AdGuardInstance) : Client where
  party := party
  host := config.host
  cookies := config.credentials.1
  userInfo := config.credentials.2

namespace Client

variable {σ : Type} (cl : Client)

/-- `client.doGet`. -/
def doGet (r : Read) : Call σ (Doc r) :=
  Act.call (perform (.read cl.party r))

/-- `client.doPost` and `client.doPut`. -/
def send (w : Write) : Call σ Unit :=
  Act.call (perform (.write cl.party w))

/-- `client.Status`. -/
def status : Call σ ServerStatus :=
  cl.doGet .status

/-- `client.Setup`. -/
def setup : Call σ Unit :=
  cl.send <| .installConfigure
    { web := { ip := "0.0.0.0", port := 3000, status := "", canAutofix := false }
      dns := { ip := "0.0.0.0", port := 53, status := "", canAutofix := false }
      username := (cl.userInfo.map Prod.fst).getD ""
      password := (cl.userInfo.map Prod.snd).getD "" }

/-- `client.ProfileInfo`. -/
def profileInfo : Call σ ProfileInfo :=
  cl.doGet .profile

/-- `client.SetProfileInfo`. -/
def setProfileInfo (profile : ProfileInfo) : Call σ Unit :=
  cl.send (.profileUpdate profile)

/-- `client.ToggleProtection`. -/
def toggleProtection (enable : Bool) : Call σ Unit :=
  cl.send (.protection { protectionEnabled := enable })

/-- `client.Parental`. -/
def parental : Call σ Bool :=
  cl.doGet .parentalStatus

/-- `client.ToggleParental`. -/
def toggleParental (enable : Bool) : Call σ Unit :=
  cl.send (.parental enable)

/-- `client.SafeBrowsing`. -/
def safeBrowsing : Call σ Bool :=
  cl.doGet .safebrowsingStatus

/-- `client.ToggleSafeBrowsing`. -/
def toggleSafeBrowsing (enable : Bool) : Call σ Unit :=
  cl.send (.safebrowsing enable)

/-- `client.SafeSearchConfig`. -/
def safeSearchConfig : Call σ SafeSearchConfig :=
  cl.doGet .safesearchStatus

/-- `client.SetSafeSearchConfig`. -/
def setSafeSearchConfig (settings : SafeSearchConfig) : Call σ Unit := do
  let _ ← Act.deref settings.enabled
  cl.send (.safesearchSettings settings)

/-- `client.RewriteList`. -/
def rewriteList : Call σ (Option (List RewriteEntry)) :=
  cl.doGet .rewriteList

/-- `client.AddRewriteEntries` : up to the first entry that fails. -/
def addRewriteEntries (entries : List RewriteEntry) : Call σ Unit :=
  Act.forEach entries fun e => cl.send (.rewriteAdd e)

/-- `client.DeleteRewriteEntries` : up to the first entry that fails. -/
def deleteRewriteEntries (entries : List RewriteEntry) : Call σ Unit :=
  Act.forEach entries fun e => cl.send (.rewriteDelete e)

/-- `client.Filtering`. -/
def filtering : Call σ FilterStatus :=
  cl.doGet .filteringStatus

/-- `client.AddFilter`. The request does not carry `f.enabled`. -/
def addFilter (whitelist : Bool) (f : Filter) : Call σ Unit :=
  cl.send (.filteringAddUrl { name := some f.name, url := some f.url, whitelist := some whitelist })

/-- `client.DeleteFilter`. -/
def deleteFilter (whitelist : Bool) (f : Filter) : Call σ Unit :=
  cl.send (.filteringRemoveUrl { url := some f.url, whitelist := some whitelist })

/-- `client.UpdateFilter`. -/
def updateFilter (whitelist : Bool) (f : Filter) : Call σ Unit :=
  cl.send (.filteringSetUrl
    { whitelist := some whitelist
      url := some f.url
      data := some { name := f.name, url := f.url, enabled := f.enabled } })

/-- `client.RefreshFilters`. -/
def refreshFilters (whitelist : Bool) : Call σ Unit :=
  cl.send (.filteringRefresh { whitelist := some whitelist })

/-- `client.SetCustomRules`. -/
def setCustomRules (rules : Option (List String)) : Call σ Unit :=
  cl.send (.filteringSetRules { rules := rules })

/-- `client.ToggleFiltering`. -/
def toggleFiltering (enabled : Bool) (interval : ℤ) : Call σ Unit :=
  cl.send (.filteringConfig { enabled := some enabled, interval := some interval })

/-- `client.BlockedServicesSchedule`. -/
def blockedServicesSchedule : Call σ BlockedServicesSchedule :=
  cl.doGet .blockedServicesGet

/-- `client.SetBlockedServicesSchedule`. Logging the services sorts `schedule.ids`, which is
then sent; `keep` is what becomes of the caller's schedule. -/
def setBlockedServicesSchedule (schedule : BlockedServicesSchedule)
    (keep : BlockedServicesSchedule → σ → σ) : Call σ Unit := do
  let logged := schedule.servicesString.2
  Act.modify (keep logged)
  cl.send (.blockedServicesUpdate logged)

/-- `client.Clients`. -/
def clients : Call σ Clients :=
  cl.doGet .clients

/-- `client.AddClient`. -/
def addClient (client : Model.Client) : Call σ Unit := do
  let _ ← Act.deref client.name
  cl.send (.clientsAdd client)

/-- `client.UpdateClient`. -/
def updateClient (client : Model.Client) : Call σ Unit := do
  let _ ← Act.deref client.name
  cl.send (.clientsUpdate { name := client.name, data := some client })

/-- `client.DeleteClient`. -/
def deleteClient (client : Model.Client) : Call σ Unit := do
  let _ ← Act.deref client.name
  cl.send (.clientsDelete client)

/-- `client.QueryLogConfig`. -/
def queryLogConfig : Call σ QueryLogConfigWithIgnored :=
  cl.doGet .querylogConfig

/-- `client.SetQueryLogConfig`. -/
def setQueryLogConfig (qlc : QueryLogConfigWithIgnored) : Call σ Unit := do
  let _ ← Act.deref qlc.enabled
  let _ ← Act.deref qlc.interval
  let _ ← Act.deref qlc.anonymizeClientIp
  cl.send (.querylogConfigUpdate qlc)

/-- `client.StatsConfig`. -/
def statsConfig : Call σ GetStatsConfigResponse :=
  cl.doGet .statsConfig

/-- `client.SetStatsConfig`. -/
def setStatsConfig (sc : GetStatsConfigResponse) : Call σ Unit :=
  cl.send (.statsConfigUpdate sc)

/-- `client.AccessList`. -/
def accessList : Call σ AccessList :=
  cl.doGet .accessList

/-- `client.SetAccessList`. -/
def setAccessList (list : AccessList) : Call σ Unit :=
  cl.send (.accessSet list)

/-- `client.DNSConfig`. -/
def dnsConfig : Call σ DNSConfig :=
  cl.doGet .dnsInfo

/-- `client.SetDNSConfig`. -/
def setDNSConfig (config : DNSConfig) : Call σ Unit :=
  cl.send (.dnsConfig config)

/-- `client.DhcpConfig`. -/
def dhcpConfig : Call σ DhcpStatus :=
  cl.doGet .dhcpStatus

/-- `client.SetDhcpConfig`. -/
def setDhcpConfig (status : DhcpStatus) : Call σ Unit :=
  cl.send (.dhcpSetConfig status)

/-- `client.AddDHCPStaticLease`. -/
def addDHCPStaticLease (lease : DhcpStaticLease) : Call σ Unit :=
  cl.send (.dhcpAddStaticLease lease)

/-- `client.DeleteDHCPStaticLease`. -/
def deleteDHCPStaticLease (lease : DhcpStaticLease) : Call σ Unit :=
  cl.send (.dhcpRemoveStaticLease lease)

/-- `client.TLSConfig`. -/
def tlsConfig : Call σ TlsConfig :=
  cl.doGet .tlsStatus

/-- `client.SetTLSConfig`. -/
def setTLSConfig (config : TlsConfig) : Call σ Unit :=
  cl.send (.tlsConfigure config)

/-- The order of one iteration over a map. -/
def rangeMap (site : MergeSite) : Call σ (MapOrder String) :=
  Act.lift (perform (.rangeMap cl.party site))

/-! ## What a request does -/

variable {cl} {s : σ} {tr : Trace Event Reply}

theorem only_doGet {P : Event → Prop} {r : Read} (h : P (.read cl.party r)) :
    (cl.doGet r s).Only P :=
  ⟨h, fun _ => trivial⟩

theorem only_send {P : Event → Prop} {w : Write} (h : P (.write cl.party w)) :
    (cl.send w s).Only P :=
  ⟨h, fun _ => trivial⟩

theorem runs_doGet {r : Read} {out : Act.Outcome σ Err (Doc r)} :
    Prog.Runs (cl.doGet r s) tr out ↔
      ∃ d, tr = [⟨.read cl.party r, d⟩] ∧ out = some (d, s) := by
  simp only [doGet, perform, Act.call_apply, Prog.perform_bind, Prog.runs_ask, Prog.runs_ret]
  constructor
  · rintro ⟨d, t, rfl, rfl, rfl⟩
    exact ⟨d, rfl, rfl⟩
  · rintro ⟨d, rfl, rfl⟩
    exact ⟨d, [], rfl, rfl, rfl⟩

/-- A read that succeeds goes on with the document, one that fails ends there. -/
theorem runs_doGet_bind {α : Type} {r : Read} {k : Doc r → Call σ α}
    {out : Act.Outcome σ Err α} :
    Prog.Runs ((cl.doGet r >>= k) s) tr out ↔
      (∃ d t, tr = ⟨.read cl.party r, .ok d⟩ :: t ∧ Prog.Runs (k d s) t out) ∨
        ∃ e, tr = [⟨.read cl.party r, .error e⟩] ∧ out = some (.error e, s) := by
  constructor
  · intro h
    obtain ⟨e | d, t, rfl, hk⟩ := Prog.runs_ask.mp h
    · exact Or.inr ⟨e, by simpa using (Prog.runs_ret.mp hk).1, (Prog.runs_ret.mp hk).2⟩
    · exact Or.inl ⟨d, t, rfl, hk⟩
  · rintro (⟨d, t, rfl, hk⟩ | ⟨e, rfl, rfl⟩)
    · exact .ask hk
    · exact .ask (.ret _)

theorem runs_doGet_cons {α : Type} {r : Read} {d : Doc r} {k : Doc r → Call σ α}
    {out : Act.Outcome σ Err α} :
    Prog.Runs ((cl.doGet r >>= k) s) (⟨.read cl.party r, .ok d⟩ :: tr) out ↔
      Prog.Runs (k d s) tr out := by
  constructor
  · intro h
    obtain ⟨r, t, ht, hk⟩ := Prog.runs_ask.mp h
    cases ht
    exact hk
  · exact fun h => .ask h

/-- Reading from an environment whose document is known. -/
theorem runs_doGet_along {α ω : Type} {step : ω → Entry Event Reply → ω → Prop} {w w' : ω}
    {q : Read} {d : Doc q}
    (hstep : ∀ r w₁, step w ⟨.read cl.party q, r⟩ w₁ → r = .ok d ∧ w₁ = w)
    {k : Doc q → Call σ α} {out : Act.Outcome σ Err α}
    (h : Prog.Runs ((cl.doGet q >>= k) s) tr out) (hw : Along step tr w w') :
    ∃ t, tr = ⟨.read cl.party q, .ok d⟩ :: t ∧ Prog.Runs (k d s) t out ∧
      Along step t w w' := by
  rcases runs_doGet_bind.mp h with ⟨d', t, rfl, hk⟩ | ⟨e, rfl, -⟩
  · obtain ⟨w₁, hx, hw⟩ := hw
    obtain ⟨hd, rfl⟩ := hstep _ _ hx
    obtain rfl := Except.ok.inj hd
    exact ⟨t, rfl, hk, hw⟩
  · obtain ⟨w₁, hx, -⟩ := hw
    cases (hstep _ _ hx).1

theorem runs_send {w : Write} {out : Act.Outcome σ Err Unit} :
    Prog.Runs (cl.send w s) tr out ↔
      ∃ r, tr = [⟨.write cl.party w, r⟩] ∧ out = some (r, s) := by
  simp only [send, perform, Act.call_apply, Prog.perform_bind, Prog.runs_ask, Prog.runs_ret]
  constructor
  · rintro ⟨d, t, rfl, rfl, rfl⟩
    exact ⟨d, rfl, rfl⟩
  · rintro ⟨d, rfl, rfl⟩
    exact ⟨d, [], rfl, rfl, rfl⟩

theorem runs_rangeMap_bind {α : Type} {site : MergeSite} {k : MapOrder String → Call σ α}
    {out : Act.Outcome σ Err α} :
    Prog.Runs ((cl.rangeMap site >>= k) s) tr out ↔
      ∃ o t, tr = ⟨.rangeMap cl.party site, o⟩ :: t ∧ Prog.Runs (k o s) t out := by
  constructor
  · intro h
    obtain ⟨o, t, rfl, hk⟩ := Prog.runs_ask.mp h
    exact ⟨o, t, rfl, hk⟩
  · rintro ⟨o, t, rfl, hk⟩
    exact .ask hk

theorem runs_rangeMap_cons {α : Type} {site : MergeSite} {o : MapOrder String}
    {k : MapOrder String → Call σ α} {out : Act.Outcome σ Err α} :
    Prog.Runs ((cl.rangeMap site >>= k) s) (⟨.rangeMap cl.party site, o⟩ :: tr) out ↔
      Prog.Runs (k o s) tr out := by
  constructor
  · intro h
    obtain ⟨o, t, ht, hk⟩ := Prog.runs_ask.mp h
    cases ht
    exact hk
  · exact fun h => .ask h

theorem runs_rangeMap {site : MergeSite} {out : Act.Outcome σ Err (MapOrder String)} :
    Prog.Runs (cl.rangeMap site s) tr out ↔
      ∃ o, tr = [⟨.rangeMap cl.party site, o⟩] ∧ out = some (.ok o, s) := by
  simp only [rangeMap, perform, Act.lift, Prog.perform_bind, Prog.runs_ask, Prog.runs_ret]
  constructor
  · rintro ⟨o, t, rfl, rfl, rfl⟩
    exact ⟨o, rfl, rfl⟩
  · rintro ⟨o, rfl, rfl⟩
    exact ⟨o, [], rfl, rfl, rfl⟩

theorem runs_attempt_doGet_bind {α : Type} {r : Read} {k : Except Err (Doc r) → Call σ α}
    {out : Act.Outcome σ Err α} :
    Prog.Runs ((Act.attempt (cl.doGet r) >>= k) s) tr out ↔
      ∃ d t, tr = ⟨.read cl.party r, d⟩ :: t ∧ Prog.Runs (k d s) t out := by
  constructor
  · intro h
    obtain ⟨d, t, rfl, hk⟩ := Prog.runs_ask.mp h
    exact ⟨d, t, rfl, hk⟩
  · rintro ⟨d, t, rfl, hk⟩
    exact .ask hk

theorem runs_attempt_send_bind {α : Type} {w : Write} {k : Except Err Unit → Call σ α}
    {out : Act.Outcome σ Err α} :
    Prog.Runs ((Act.attempt (cl.send w) >>= k) s) tr out ↔
      ∃ r t, tr = ⟨.write cl.party w, r⟩ :: t ∧ Prog.Runs (k r s) t out := by
  constructor
  · intro h
    obtain ⟨r, t, rfl, hk⟩ := Prog.runs_ask.mp h
    exact ⟨r, t, rfl, hk⟩
  · rintro ⟨r, t, rfl, hk⟩
    exact .ask hk

/-- A logged write ends in its failure only without `continueOnError`. -/
theorem runs_tolerate_send {coe : Bool} {w : Write} {out : Act.Outcome σ Err Unit} :
    Prog.Runs (Act.tolerate coe (cl.send w) s) tr out ↔
      ∃ r, tr = [⟨.write cl.party w, r⟩] ∧
        out = some (if coe then .ok () else r, s) := by
  have hprog : Act.tolerate coe (cl.send w) s =
      Prog.ask (Event.write cl.party w) fun r => .ret (if coe then .ok () else r, s) := by
    refine congrArg (Prog.ask _) (funext fun r => ?_)
    rcases r with e | u
    · cases coe <;> rfl
    · cases coe <;> rfl
  rw [hprog]
  simp only [Prog.runs_ask, Prog.runs_ret]
  constructor
  · rintro ⟨r, t, rfl, rfl, rfl⟩
    exact ⟨r, rfl, rfl⟩
  · rintro ⟨r, rfl, rfl⟩
    exact ⟨r, [], rfl, rfl, rfl⟩

end Client

end AghSync
