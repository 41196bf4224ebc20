import AghSync.KeyedMap
import Mathlib.Data.Int.Notation

/-!
# Configuration

The configuration of a sync : the origin, the replicas, and which features are on.
`uniqueReplicas` is the list of replicas a pass goes through, one per URL and API path.
-/

namespace AghSync

/-- An AdGuard Home instance. -/
structure AdGuardInstance where
  url : String := ""
  webURL : String := ""
  apiPath : String := ""
  username : String := ""
  password : String := ""
  cookie : String := ""
  requestHeaders : List (String × String) := []
  insecureSkipVerify : Bool := false
  autoSetup : Bool := false
  interfaceName : String := ""
  dhcpServerEnabled : Option Bool := none
  host : String := ""
  webHost : String := ""
  deriving DecidableEq

/-- `AdGuardInstance.Key`. -/
def AdGuardInstance.key (i : AdGuardInstance) : String :=
  i.url ++ "#" ++ i.apiPath

/-- `DefaultAPIPath`. -/
def defaultAPIPath : String :=
  "/control"

/-- DHCP features. -/
structure DHCPFeatures where
  serverConfig : Bool := false
  staticLeases : Bool := false
  deriving DecidableEq

/-- DNS features. -/
structure DNSFeatures where
  accessLists : Bool := false
  serverConfig : Bool := false
  rewrites : Bool := false
  deriving DecidableEq

/-- Feature flags. -/
structure Features where
  dns : DNSFeatures := {}
  dhcp : DHCPFeatures := {}
  generalSettings : Bool := false
  queryLogConfig : Bool := false
  statsConfig : Bool := false
  clientSettings : Bool := false
  services : Bool := false
  filters : Bool := false
  theme : Bool := false
  tlsConfig : Bool := false
  deriving DecidableEq

/-- Metrics of the API. The scrape interval is in nanoseconds. -/
structure Metrics where
  enabled : Bool := false
  scrapeInterval : ℤ := 0
  queryLogLimit : ℤ := 0
  deriving DecidableEq

/-- TLS of the API. -/
structure TLS where
  certDir : String := ""
  certName : String := ""
  keyName : String := ""
  deriving DecidableEq

/-- The API of the sync itself. -/
structure API where
  port : ℤ := 0
  username : String := ""
  password : String := ""
  darkMode : Bool := false
  metrics : Metrics := {}
  tls : TLS := {}
  deriving DecidableEq

/-- The configuration of the application. -/
structure Config where
  origin : AdGuardInstance
  replica : Option AdGuardInstance := none
  replicas : List AdGuardInstance := []
  cron : String := ""
  runOnStart : Bool := false
  printConfigOnly : Bool := false
  continueOnError : Bool := false
  api : API := {}
  features : Features := {}
  deriving DecidableEq

/-- The replica with the default API path where it has none. -/
def AdGuardInstance.withAPIPath (i : AdGuardInstance) : AdGuardInstance :=
  if i.apiPath = "" then { i with apiPath := defaultAPIPath } else i

/-- The map `UniqueReplicas` fills : the single replica, then the list. A replica without a
URL is left out, and one with the key of an earlier one replaces it. -/
def Config.dedup (cfg : Config) : KeyedMap String AdGuardInstance :=
  KeyedMap.collect AdGuardInstance.key <|
    ((cfg.replica.toList ++ cfg.replicas).filter fun i => i.url ≠ "").map
      AdGuardInstance.withAPIPath

/-- `Config.UniqueReplicas`. -/
def Config.uniqueReplicas (cfg : Config) (o : MapOrder String) : List AdGuardInstance :=
  cfg.dedup.values o

theorem Config.mem_uniqueReplicas {cfg : Config} {o : MapOrder String} {r : AdGuardInstance}
    (h : r ∈ cfg.uniqueReplicas o) :
    ∃ i ∈ cfg.replica.toList ++ cfg.replicas, r = i.withAPIPath := by
  obtain ⟨k, hk⟩ := KeyedMap.mem_values.mp h
  obtain ⟨i, hi, rfl⟩ := List.mem_map.mp (KeyedMap.of_lookup_collect hk).1
  exact ⟨i, (List.mem_filter.mp hi).1, rfl⟩

/-- No replica is processed twice. -/
theorem Config.nodup_uniqueReplicas (cfg : Config) (o : MapOrder String) :
    (cfg.uniqueReplicas o).Nodup := by
  refine List.Nodup.of_map AdGuardInstance.key (KeyedMap.nodup_map_values fun k i hi => ?_)
  exact (KeyedMap.of_lookup_collect hi).2

end AghSync
