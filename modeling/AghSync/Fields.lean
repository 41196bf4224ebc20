import AghSync.Config
import AghSync.Layers

/-!
# The fields of the configuration

The fields of an instance and of the configuration, with their types and the environment
variables in their tags. An instance is a record of its fields (`AdGuardInstance.record`). The
configuration without the list of replicas is one too (`Config.record`). A replica that is nil
counts as one without settings there.
-/

open Layers

namespace AghSync

/-- The types of fields. -/
inductive Kind
  | string
  | bool
  | int
  | duration
  | boolPointer
  | stringMap
  deriving DecidableEq

/-- The values of a type. Durations are in nanoseconds. -/
abbrev Kind.Value : Kind → Type
  | string => String
  | bool => Bool
  | int | duration => ℤ
  | boolPointer => Option Bool
  | stringMap => List (String × String)

/-! ## Instances -/

/-- The fields of an instance. -/
inductive InstanceField
  | url
  | webURL
  | apiPath
  | username
  | password
  | cookie
  | requestHeaders
  | insecureSkipVerify
  | autoSetup
  | interfaceName
  | dhcpServerEnabled
  | host
  | webHost
  deriving DecidableEq

namespace InstanceField

abbrev kind : InstanceField → Kind
  | url | webURL | apiPath | username | password | cookie | interfaceName | host | webHost =>
    .string
  | requestHeaders => .stringMap
  | insecureSkipVerify | autoSetup => .bool
  | dhcpServerEnabled => .boolPointer

abbrev Value (f : InstanceField) : Type :=
  f.kind.Value

/-- The variable in the tag of the field, without the prefix. -/
def env : InstanceField → Option String
  | url => some "URL"
  | webURL => some "WEB_URL"
  | apiPath => some "API_PATH"
  | username => some "USERNAME"
  | password => some "PASSWORD"
  | cookie => some "COOKIE"
  | requestHeaders => some "REQUEST_HEADERS"
  | insecureSkipVerify => some "INSECURE_SKIP_VERIFY"
  | autoSetup => some "AUTO_SETUP"
  | interfaceName => some "INTERFACE_NAME"
  | dhcpServerEnabled => some "DHCP_SERVER_ENABLED"
  | host | webHost => none

end InstanceField

namespace AdGuardInstance

def get (i : AdGuardInstance) : (f : InstanceField) → f.Value
  | .url => i.url
  | .webURL => i.webURL
  | .apiPath => i.apiPath
  | .username => i.username
  | .password => i.password
  | .cookie => i.cookie
  | .requestHeaders => i.requestHeaders
  | .insecureSkipVerify => i.insecureSkipVerify
  | .autoSetup => i.autoSetup
  | .interfaceName => i.interfaceName
  | .dhcpServerEnabled => i.dhcpServerEnabled
  | .host => i.host
  | .webHost => i.webHost

def set : (f : InstanceField) → f.Value → AdGuardInstance → AdGuardInstance
  | .url, v, i => { i with url := v }
  | .webURL, v, i => { i with webURL := v }
  | .apiPath, v, i => { i with apiPath := v }
  | .username, v, i => { i with username := v }
  | .password, v, i => { i with password := v }
  | .cookie, v, i => { i with cookie := v }
  | .requestHeaders, v, i => { i with requestHeaders := v }
  | .insecureSkipVerify, v, i => { i with insecureSkipVerify := v }
  | .autoSetup, v, i => { i with autoSetup := v }
  | .interfaceName, v, i => { i with interfaceName := v }
  | .dhcpServerEnabled, v, i => { i with dhcpServerEnabled := v }
  | .host, v, i => { i with host := v }
  | .webHost, v, i => { i with webHost := v }

/-- An instance as a record. -/
def record : Record InstanceField.Value AdGuardInstance where
  get := get
  set := set
  get_set f v x := by cases f <;> rfl
  get_set_of_ne f v x g h := by cases f <;> cases g <;> first | rfl | exact absurd rfl h

/-- An instance has no more than its fields. -/
theorem ext_get {i j : AdGuardInstance} (h : ∀ f, i.get f = j.get f) : i = j := by
  obtain ⟨⟩ := i
  obtain ⟨⟩ := j
  rw [mk.injEq]
  exact ⟨h .url, h .webURL, h .apiPath, h .username, h .password, h .cookie, h .requestHeaders,
    h .insecureSkipVerify, h .autoSetup, h .interfaceName, h .dhcpServerEnabled, h .host,
    h .webHost⟩

/-- The instance under a layer. -/
def overlay (i : AdGuardInstance) (l : Layer InstanceField.Value) : AdGuardInstance where
  url := l.over i.get .url
  webURL := l.over i.get .webURL
  apiPath := l.over i.get .apiPath
  username := l.over i.get .username
  password := l.over i.get .password
  cookie := l.over i.get .cookie
  requestHeaders := l.over i.get .requestHeaders
  insecureSkipVerify := l.over i.get .insecureSkipVerify
  autoSetup := l.over i.get .autoSetup
  interfaceName := l.over i.get .interfaceName
  dhcpServerEnabled := l.over i.get .dhcpServerEnabled
  host := l.over i.get .host
  webHost := l.over i.get .webHost

@[simp] theorem get_overlay (i : AdGuardInstance) (l : Layer InstanceField.Value)
    (f : InstanceField) : (i.overlay l).get f = l.over i.get f := by
  cases f <;> rfl

end AdGuardInstance

/-! ## The configuration -/

/-- The fields of the configuration that are not about an instance. -/
inductive RootField
  | cron
  | runOnStart
  | printConfigOnly
  | continueOnError
  | apiPort
  | apiUsername
  | apiPassword
  | apiDarkMode
  | apiMetricsEnabled
  | apiMetricsScrapeInterval
  | apiMetricsQueryLogLimit
  | apiTLSCertDir
  | apiTLSCertName
  | apiTLSKeyName
  | dhcpServerConfig
  | dhcpStaticLeases
  | dnsAccessLists
  | dnsServerConfig
  | dnsRewrites
  | generalSettings
  | queryLogConfig
  | statsConfig
  | clientSettings
  | services
  | filters
  | theme
  | tlsConfig
  deriving DecidableEq

namespace RootField

abbrev kind : RootField → Kind
  | cron | apiUsername | apiPassword | apiTLSCertDir | apiTLSCertName | apiTLSKeyName => .string
  | apiPort | apiMetricsQueryLogLimit => .int
  | apiMetricsScrapeInterval => .duration
  | runOnStart | printConfigOnly | continueOnError | apiDarkMode | apiMetricsEnabled
  | dhcpServerConfig | dhcpStaticLeases | dnsAccessLists | dnsServerConfig | dnsRewrites
  | generalSettings | queryLogConfig | statsConfig | clientSettings | services | filters | theme
  | tlsConfig => .bool

abbrev Value (f : RootField) : Type :=
  f.kind.Value

/-- The variable in the tag of the field. -/
def env : RootField → String
  | cron => "CRON"
  | runOnStart => "RUN_ON_START"
  | printConfigOnly => "PRINT_CONFIG_ONLY"
  | continueOnError => "CONTINUE_ON_ERROR"
  | apiPort => "API_PORT"
  | apiUsername => "API_USERNAME"
  | apiPassword => "API_PASSWORD"
  | apiDarkMode => "API_DARK_MODE"
  | apiMetricsEnabled => "API_METRICS_ENABLED"
  | apiMetricsScrapeInterval => "API_METRICS_SCRAPE_INTERVAL"
  | apiMetricsQueryLogLimit => "API_METRICS_QUERY_LOG_LIMIT"
  | apiTLSCertDir => "API_TLS_CERT_DIR"
  | apiTLSCertName => "API_TLS_CERT_NAME"
  | apiTLSKeyName => "API_TLS_KEY_NAME"
  | dhcpServerConfig => "FEATURES_DHCP_SERVER_CONFIG"
  | dhcpStaticLeases => "FEATURES_DHCP_STATIC_LEASES"
  | dnsAccessLists => "FEATURES_DNS_ACCESS_LISTS"
  | dnsServerConfig => "FEATURES_DNS_SERVER_CONFIG"
  | dnsRewrites => "FEATURES_DNS_REWRITES"
  | generalSettings => "FEATURES_GENERAL_SETTINGS"
  | queryLogConfig => "FEATURES_QUERY_LOG_CONFIG"
  | statsConfig => "FEATURES_STATS_CONFIG"
  | clientSettings => "FEATURES_CLIENT_SETTINGS"
  | services => "FEATURES_SERVICES"
  | filters => "FEATURES_FILTERS"
  | theme => "FEATURES_THEME"
  | tlsConfig => "FEATURES_TLS_CONFIG"

/-- All fields. -/
def all : List RootField :=
  [cron, runOnStart, printConfigOnly, continueOnError, apiPort, apiUsername, apiPassword,
    apiDarkMode, apiMetricsEnabled, apiMetricsScrapeInterval, apiMetricsQueryLogLimit,
    apiTLSCertDir, apiTLSCertName, apiTLSKeyName, dhcpServerConfig, dhcpStaticLeases,
    dnsAccessLists, dnsServerConfig, dnsRewrites, generalSettings, queryLogConfig, statsConfig,
    clientSettings, services, filters, theme, tlsConfig]

theorem nodup_all : all.Nodup := by
  decide

theorem mem_all (f : RootField) : f ∈ all := by
  cases f <;> decide

end RootField

/-- The fields of the configuration but for the list of replicas. -/
inductive ConfigField
  | root (f : RootField)
  | origin (f : InstanceField)
  | replica (f : InstanceField)
  deriving DecidableEq

namespace ConfigField

abbrev kind : ConfigField → Kind
  | root f => f.kind
  | origin f | replica f => f.kind

abbrev Value (f : ConfigField) : Type :=
  f.kind.Value

end ConfigField

namespace Config

def getRoot (cfg : Config) : (f : RootField) → f.Value
  | .cron => cfg.cron
  | .runOnStart => cfg.runOnStart
  | .printConfigOnly => cfg.printConfigOnly
  | .continueOnError => cfg.continueOnError
  | .apiPort => cfg.api.port
  | .apiUsername => cfg.api.username
  | .apiPassword => cfg.api.password
  | .apiDarkMode => cfg.api.darkMode
  | .apiMetricsEnabled => cfg.api.metrics.enabled
  | .apiMetricsScrapeInterval => cfg.api.metrics.scrapeInterval
  | .apiMetricsQueryLogLimit => cfg.api.metrics.queryLogLimit
  | .apiTLSCertDir => cfg.api.tls.certDir
  | .apiTLSCertName => cfg.api.tls.certName
  | .apiTLSKeyName => cfg.api.tls.keyName
  | .dhcpServerConfig => cfg.features.dhcp.serverConfig
  | .dhcpStaticLeases => cfg.features.dhcp.staticLeases
  | .dnsAccessLists => cfg.features.dns.accessLists
  | .dnsServerConfig => cfg.features.dns.serverConfig
  | .dnsRewrites => cfg.features.dns.rewrites
  | .generalSettings => cfg.features.generalSettings
  | .queryLogConfig => cfg.features.queryLogConfig
  | .statsConfig => cfg.features.statsConfig
  | .clientSettings => cfg.features.clientSettings
  | .services => cfg.features.services
  | .filters => cfg.features.filters
  | .theme => cfg.features.theme
  | .tlsConfig => cfg.features.tlsConfig

def mapAPI (g : API → API) (cfg : Config) : Config :=
  { cfg with api := g cfg.api }

def mapFeatures (g : Features → Features) (cfg : Config) : Config :=
  { cfg with features := g cfg.features }

def mapOrigin (g : AdGuardInstance → AdGuardInstance) (cfg : Config) : Config :=
  { cfg with origin := g cfg.origin }

/-- Change what the pointer to the replica points to. -/
def mapReplica (g : AdGuardInstance → AdGuardInstance) (cfg : Config) : Config :=
  { cfg with replica := some (g (cfg.replica.getD {})) }

def setRoot : (f : RootField) → f.Value → Config → Config
  | .cron, v, cfg => { cfg with cron := v }
  | .runOnStart, v, cfg => { cfg with runOnStart := v }
  | .printConfigOnly, v, cfg => { cfg with printConfigOnly := v }
  | .continueOnError, v, cfg => { cfg with continueOnError := v }
  | .apiPort, v, cfg => cfg.mapAPI fun a => { a with port := v }
  | .apiUsername, v, cfg => cfg.mapAPI fun a => { a with username := v }
  | .apiPassword, v, cfg => cfg.mapAPI fun a => { a with password := v }
  | .apiDarkMode, v, cfg => cfg.mapAPI fun a => { a with darkMode := v }
  | .apiMetricsEnabled, v, cfg => cfg.mapAPI fun a => { a with metrics.enabled := v }
  | .apiMetricsScrapeInterval, v, cfg => cfg.mapAPI fun a => { a with metrics.scrapeInterval := v }
  | .apiMetricsQueryLogLimit, v, cfg => cfg.mapAPI fun a => { a with metrics.queryLogLimit := v }
  | .apiTLSCertDir, v, cfg => cfg.mapAPI fun a => { a with tls.certDir := v }
  | .apiTLSCertName, v, cfg => cfg.mapAPI fun a => { a with tls.certName := v }
  | .apiTLSKeyName, v, cfg => cfg.mapAPI fun a => { a with tls.keyName := v }
  | .dhcpServerConfig, v, cfg => cfg.mapFeatures fun f => { f with dhcp.serverConfig := v }
  | .dhcpStaticLeases, v, cfg => cfg.mapFeatures fun f => { f with dhcp.staticLeases := v }
  | .dnsAccessLists, v, cfg => cfg.mapFeatures fun f => { f with dns.accessLists := v }
  | .dnsServerConfig, v, cfg => cfg.mapFeatures fun f => { f with dns.serverConfig := v }
  | .dnsRewrites, v, cfg => cfg.mapFeatures fun f => { f with dns.rewrites := v }
  | .generalSettings, v, cfg => cfg.mapFeatures fun f => { f with generalSettings := v }
  | .queryLogConfig, v, cfg => cfg.mapFeatures fun f => { f with queryLogConfig := v }
  | .statsConfig, v, cfg => cfg.mapFeatures fun f => { f with statsConfig := v }
  | .clientSettings, v, cfg => cfg.mapFeatures fun f => { f with clientSettings := v }
  | .services, v, cfg => cfg.mapFeatures fun f => { f with services := v }
  | .filters, v, cfg => cfg.mapFeatures fun f => { f with filters := v }
  | .theme, v, cfg => cfg.mapFeatures fun f => { f with theme := v }
  | .tlsConfig, v, cfg => cfg.mapFeatures fun f => { f with tlsConfig := v }

def get (cfg : Config) : (f : ConfigField) → f.Value
  | .root f => cfg.getRoot f
  | .origin f => cfg.origin.get f
  | .replica f => (cfg.replica.getD {}).get f

def set : (f : ConfigField) → f.Value → Config → Config
  | .root f, v, cfg => cfg.setRoot f v
  | .origin f, v, cfg => cfg.mapOrigin (AdGuardInstance.set f v)
  | .replica f, v, cfg => cfg.mapReplica (AdGuardInstance.set f v)

theorem getRoot_setRoot (f : RootField) (v : f.Value) (cfg : Config) :
    (cfg.setRoot f v).getRoot f = v := by
  cases f <;> rfl

theorem getRoot_setRoot_of_ne {f g : RootField} (v : f.Value) (cfg : Config) (h : g ≠ f) :
    (cfg.setRoot f v).getRoot g = cfg.getRoot g := by
  cases f <;> cases g <;> first | rfl | exact absurd rfl h

/-- The fields that are not about an instance as a record. -/
def rootRecord : Record RootField.Value Config where
  get := getRoot
  set := setRoot
  get_set := getRoot_setRoot
  get_set_of_ne _ v cfg _ := getRoot_setRoot_of_ne v cfg

/-- The instances are not looked at. -/
theorem getRoot_instances (cfg : Config) (o : AdGuardInstance) (r : Option AdGuardInstance)
    (rs : List AdGuardInstance) (f : RootField) :
    { cfg with origin := o, replica := r, replicas := rs }.getRoot f = cfg.getRoot f := by
  cases f <;> rfl

theorem origin_setRoot (f : RootField) (v : f.Value) (cfg : Config) :
    (cfg.setRoot f v).origin = cfg.origin ∧ (cfg.setRoot f v).replica = cfg.replica := by
  cases f <;> exact ⟨rfl, rfl⟩

theorem replicas_set (f : ConfigField) (v : f.Value) (cfg : Config) :
    (cfg.set f v).replicas = cfg.replicas := by
  cases f with
  | root f => cases f <;> rfl
  | origin | replica => rfl

/-- The configuration without the list of replicas as a record. -/
def record : Record ConfigField.Value Config where
  get := get
  set := set
  get_set f v x := by
    cases f with
    | root f => exact getRoot_setRoot f v x
    | origin f => exact AdGuardInstance.record.get_set f v x.origin
    | replica f => exact AdGuardInstance.record.get_set f v (x.replica.getD {})
  get_set_of_ne f v x g h := by
    cases f with
    | root f =>
      cases g with
      | root g => exact getRoot_setRoot_of_ne v x fun he => h (congrArg _ he)
      | origin g => exact congrArg (AdGuardInstance.get · g) (origin_setRoot f v x).1
      | replica g => exact congrArg (fun i => (i.getD {}).get g) (origin_setRoot f v x).2
    | origin f =>
      cases g with
      | origin g =>
        exact AdGuardInstance.record.get_set_of_ne f v x.origin g fun he => h (congrArg _ he)
      | root g => cases g <;> rfl
      | replica => rfl
    | replica f =>
      cases g with
      | replica g =>
        exact AdGuardInstance.record.get_set_of_ne f v (x.replica.getD {}) g fun he =>
          h (congrArg _ he)
      | root g => cases g <;> rfl
      | origin => rfl

end Config

end AghSync
