import AghSync.Json

/-!
# Documents of the AdGuard Home API

The records the sync reads and writes, with their JSON encodings. A pointer is an `Option`,
and a field without a value is the zero value of its type, as in an empty struct literal.
Members are encoded in the order of the fields.

A slice behind a pointer is never nil once it is decoded, so it is one `Option` of a list.
A slice without a pointer is also an `Option` where nil and empty are encoded differently.
Fields that nothing here reads are left out.
-/

open Json (omitEmpty always)

namespace AghSync.Model

instance : Marshal UInt16 := ⟨fun n => .int n.toNat⟩

/-! ## Server status and profile -/

/-- Answer of `status`. -/
structure ServerStatus where
  protectionEnabled : Bool := false
  running : Bool := false
  version : String := ""
  deriving DecidableEq

/-- Profile of the logged-in user. -/
structure ProfileInfo where
  language : String := ""
  name : String := ""
  theme : String := ""
  deriving DecidableEq

instance : Marshal ProfileInfo where
  marshal p := .object [
    always "language" p.language,
    always "name" p.name,
    always "theme" p.theme]

/-! ## Filters -/

/-- One filter list, by its URL. -/
structure Filter where
  enabled : Bool := false
  name : String := ""
  url : String := ""
  deriving DecidableEq

/-- Answer of `/filtering/status`. -/
structure FilterStatus where
  enabled : Option Bool := none
  filters : Option (List Filter) := none
  interval : Option ℤ := none
  userRules : Option (List String) := none
  whitelistFilters : Option (List Filter) := none
  deriving DecidableEq

/-- Body of `/filtering/add_url`. -/
structure AddUrlRequest where
  name : Option String := none
  url : Option String := none
  whitelist : Option Bool := none
  deriving DecidableEq

instance : Marshal AddUrlRequest where
  marshal r := .object [
    omitEmpty "name" r.name,
    omitEmpty "url" r.url,
    omitEmpty "whitelist" r.whitelist]

/-- Body of `/filtering/remove_url`. -/
structure RemoveUrlRequest where
  url : Option String := none
  whitelist : Option Bool := none
  deriving DecidableEq

instance : Marshal RemoveUrlRequest where
  marshal r := .object [
    omitEmpty "url" r.url,
    omitEmpty "whitelist" r.whitelist]

/-- New data of a filter. -/
structure FilterSetUrlData where
  enabled : Bool := false
  name : String := ""
  url : String := ""
  deriving DecidableEq

instance : Marshal FilterSetUrlData where
  marshal r := .object [
    always "enabled" r.enabled,
    always "name" r.name,
    always "url" r.url]

/-- Body of `/filtering/set_url`. -/
structure FilterSetUrl where
  data : Option FilterSetUrlData := none
  url : Option String := none
  whitelist : Option Bool := none
  deriving DecidableEq

instance : Marshal FilterSetUrl where
  marshal r := .object [
    omitEmpty "data" r.data,
    omitEmpty "url" r.url,
    omitEmpty "whitelist" r.whitelist]

/-- Body of `/filtering/refresh`. -/
structure FilterRefreshRequest where
  whitelist : Option Bool := none
  deriving DecidableEq

instance : Marshal FilterRefreshRequest where
  marshal r := .object [
    omitEmpty "whitelist" r.whitelist]

/-- Body of `/filtering/set_rules`. -/
structure SetRulesRequest where
  rules : Option (List String) := none
  deriving DecidableEq

instance : Marshal SetRulesRequest where
  marshal r := .object [
    omitEmpty "rules" r.rules]

/-- Body of `/filtering/config`. -/
structure FilterConfig where
  enabled : Option Bool := none
  interval : Option ℤ := none
  deriving DecidableEq

instance : Marshal FilterConfig where
  marshal r := .object [
    omitEmpty "enabled" r.enabled,
    omitEmpty "interval" r.interval]

/-! ## Rewrites, services, clients -/

/-- A DNS rewrite. -/
structure RewriteEntry where
  answer : Option String := none
  domain : Option String := none
  deriving DecidableEq

instance : Marshal RewriteEntry where
  marshal r := .object [
    omitEmpty "answer" r.answer,
    omitEmpty "domain" r.domain]

/-- An interval within a day, in milliseconds. -/
structure DayRange where
  stop : Option (BitVec 32) := none
  start : Option (BitVec 32) := none
  deriving DecidableEq

instance : Marshal DayRange where
  marshal d := .object [
    omitEmpty "end" d.stop,
    omitEmpty "start" d.start]

/-- Weekly pauses of the blocked services. -/
structure Schedule where
  fri : Option DayRange := none
  mon : Option DayRange := none
  sat : Option DayRange := none
  sun : Option DayRange := none
  thu : Option DayRange := none
  timeZone : Option String := none
  tue : Option DayRange := none
  wed : Option DayRange := none
  deriving DecidableEq

instance : Marshal Schedule where
  marshal s := .object [
    omitEmpty "fri" s.fri,
    omitEmpty "mon" s.mon,
    omitEmpty "sat" s.sat,
    omitEmpty "sun" s.sun,
    omitEmpty "thu" s.thu,
    omitEmpty "time_zone" s.timeZone,
    omitEmpty "tue" s.tue,
    omitEmpty "wed" s.wed]

/-- Blocked services and their schedule. -/
structure BlockedServicesSchedule where
  ids : Option (List String) := none
  schedule : Option Schedule := none
  deriving DecidableEq

instance : Marshal BlockedServicesSchedule where
  marshal b := .object [
    omitEmpty "ids" b.ids,
    omitEmpty "schedule" b.schedule]

/-- Safe search settings. -/
structure SafeSearchConfig where
  bing : Option Bool := none
  duckduckgo : Option Bool := none
  ecosia : Option Bool := none
  enabled : Option Bool := none
  google : Option Bool := none
  pixabay : Option Bool := none
  yandex : Option Bool := none
  youtube : Option Bool := none
  deriving DecidableEq

instance : Marshal SafeSearchConfig where
  marshal s := .object [
    omitEmpty "bing" s.bing,
    omitEmpty "duckduckgo" s.duckduckgo,
    omitEmpty "ecosia" s.ecosia,
    omitEmpty "enabled" s.enabled,
    omitEmpty "google" s.google,
    omitEmpty "pixabay" s.pixabay,
    omitEmpty "yandex" s.yandex,
    omitEmpty "youtube" s.youtube]

/-- A persistent client. -/
structure Client where
  blockedServices : Option (List String) := none
  blockedServicesSchedule : Option Schedule := none
  filteringEnabled : Option Bool := none
  ids : Option (List String) := none
  ignoreQuerylog : Option Bool := none
  ignoreStatistics : Option Bool := none
  name : Option String := none
  parentalEnabled : Option Bool := none
  safeSearch : Option SafeSearchConfig := none
  safebrowsingEnabled : Option Bool := none
  safesearchEnabled : Option Bool := none
  tags : Option (List String) := none
  upstreams : Option (List String) := none
  upstreamsCacheEnabled : Option Bool := none
  upstreamsCacheSize : Option ℤ := none
  useGlobalBlockedServices : Option Bool := none
  useGlobalSettings : Option Bool := none
  deriving DecidableEq

instance : Marshal Client where
  marshal c := .object [
    omitEmpty "blocked_services" c.blockedServices,
    omitEmpty "blocked_services_schedule" c.blockedServicesSchedule,
    omitEmpty "filtering_enabled" c.filteringEnabled,
    omitEmpty "ids" c.ids,
    omitEmpty "ignore_querylog" c.ignoreQuerylog,
    omitEmpty "ignore_statistics" c.ignoreStatistics,
    omitEmpty "name" c.name,
    omitEmpty "parental_enabled" c.parentalEnabled,
    omitEmpty "safe_search" c.safeSearch,
    omitEmpty "safebrowsing_enabled" c.safebrowsingEnabled,
    omitEmpty "safesearch_enabled" c.safesearchEnabled,
    omitEmpty "tags" c.tags,
    omitEmpty "upstreams" c.upstreams,
    omitEmpty "upstreams_cache_enabled" c.upstreamsCacheEnabled,
    omitEmpty "upstreams_cache_size" c.upstreamsCacheSize,
    omitEmpty "use_global_blocked_services" c.useGlobalBlockedServices,
    omitEmpty "use_global_settings" c.useGlobalSettings]

/-- Body of `/clients/update`. -/
structure ClientUpdate where
  data : Option Client := none
  name : Option String := none
  deriving DecidableEq

instance : Marshal ClientUpdate where
  marshal u := .object [
    omitEmpty "data" u.data,
    omitEmpty "name" u.name]

/-- Answer of `/clients`. -/
structure Clients where
  clients : Option (List Client) := none
  deriving DecidableEq

/-! ## Query log, statistics, access lists, DNS -/

/-- Query log settings. An empty `ignored` list is not encoded. -/
structure QueryLogConfigWithIgnored where
  anonymizeClientIp : Option Bool := none
  enabled : Option Bool := none
  interval : Option (BitVec 32) := none
  ignored : List String := []
  deriving DecidableEq

instance : Marshal QueryLogConfigWithIgnored where
  marshal q := .object [
    omitEmpty "anonymize_client_ip" q.anonymizeClientIp,
    omitEmpty "enabled" q.enabled,
    omitEmpty "interval" q.interval,
    omitEmpty "ignored" (if q.ignored = [] then none else some q.ignored)]

/-- Statistics settings. -/
structure GetStatsConfigResponse where
  enabled : Bool := false
  ignored : Option (List String) := none
  interval : BitVec 32 := 0
  deriving DecidableEq

instance : Marshal GetStatsConfigResponse where
  marshal s := .object [
    always "enabled" s.enabled,
    always "ignored" s.ignored,
    always "interval" s.interval]

/-- Allowed and blocked clients and hosts. -/
structure AccessList where
  allowedClients : Option (List String) := none
  blockedHosts : Option (List String) := none
  disallowedClients : Option (List String) := none
  deriving DecidableEq

instance : Marshal AccessList where
  marshal a := .object [
    omitEmpty "allowed_clients" a.allowedClients,
    omitEmpty "blocked_hosts" a.blockedHosts,
    omitEmpty "disallowed_clients" a.disallowedClients]

/-- DNS server settings. -/
@[ext]
structure DNSConfig where
  blockedResponseTtl : Option ℤ := none
  blockingIpv4 : Option String := none
  blockingIpv6 : Option String := none
  blockingMode : Option String := none
  bootstrapDns : Option (List String) := none
  cacheEnabled : Option Bool := none
  cacheOptimistic : Option Bool := none
  cacheSize : Option ℤ := none
  cacheTtlMax : Option ℤ := none
  cacheTtlMin : Option ℤ := none
  disableIpv6 : Option Bool := none
  dnssecEnabled : Option Bool := none
  ednsCsCustomIp : Option String := none
  ednsCsEnabled : Option Bool := none
  ednsCsUseCustom : Option Bool := none
  fallbackDns : Option (List String) := none
  localPtrUpstreams : Option (List String) := none
  protectionDisabledUntil : Option String := none
  protectionEnabled : Option Bool := none
  ratelimit : Option ℤ := none
  ratelimitSubnetSubnetLenIpv4 : Option ℤ := none
  ratelimitSubnetSubnetLenIpv6 : Option ℤ := none
  ratelimitWhitelist : Option (List String) := none
  resolveClients : Option Bool := none
  upstreamDns : Option (List String) := none
  upstreamDnsFile : Option String := none
  upstreamMode : Option String := none
  upstreamTimeout : Option ℤ := none
  usePrivatePtrResolvers : Option Bool := none
  deriving DecidableEq

/-- The members of an encoded DNS configuration. -/
def DNSConfig.members (c : DNSConfig) : List (String × Option Json) :=
  [
    omitEmpty "blocked_response_ttl" c.blockedResponseTtl,
    omitEmpty "blocking_ipv4" c.blockingIpv4,
    omitEmpty "blocking_ipv6" c.blockingIpv6,
    omitEmpty "blocking_mode" c.blockingMode,
    omitEmpty "bootstrap_dns" c.bootstrapDns,
    omitEmpty "cache_enabled" c.cacheEnabled,
    omitEmpty "cache_optimistic" c.cacheOptimistic,
    omitEmpty "cache_size" c.cacheSize,
    omitEmpty "cache_ttl_max" c.cacheTtlMax,
    omitEmpty "cache_ttl_min" c.cacheTtlMin,
    omitEmpty "disable_ipv6" c.disableIpv6,
    omitEmpty "dnssec_enabled" c.dnssecEnabled,
    omitEmpty "edns_cs_custom_ip" c.ednsCsCustomIp,
    omitEmpty "edns_cs_enabled" c.ednsCsEnabled,
    omitEmpty "edns_cs_use_custom" c.ednsCsUseCustom,
    omitEmpty "fallback_dns" c.fallbackDns,
    omitEmpty "local_ptr_upstreams" c.localPtrUpstreams,
    omitEmpty "protection_disabled_until" c.protectionDisabledUntil,
    omitEmpty "protection_enabled" c.protectionEnabled,
    omitEmpty "ratelimit" c.ratelimit,
    omitEmpty "ratelimit_subnet_subnet_len_ipv4" c.ratelimitSubnetSubnetLenIpv4,
    omitEmpty "ratelimit_subnet_subnet_len_ipv6" c.ratelimitSubnetSubnetLenIpv6,
    omitEmpty "ratelimit_whitelist" c.ratelimitWhitelist,
    omitEmpty "resolve_clients" c.resolveClients,
    omitEmpty "upstream_dns" c.upstreamDns,
    omitEmpty "upstream_dns_file" c.upstreamDnsFile,
    omitEmpty "upstream_mode" c.upstreamMode,
    omitEmpty "upstream_timeout" c.upstreamTimeout,
    omitEmpty "use_private_ptr_resolvers" c.usePrivatePtrResolvers]

instance : Marshal DNSConfig where
  marshal c := .object c.members

/-- `json.Unmarshal` into an empty DNS configuration. -/
def DNSConfig.unmarshal (j : Json) : DNSConfig where
  blockedResponseTtl := j.field "blocked_response_ttl"
  blockingIpv4 := j.field "blocking_ipv4"
  blockingIpv6 := j.field "blocking_ipv6"
  blockingMode := j.field "blocking_mode"
  bootstrapDns := j.field "bootstrap_dns"
  cacheEnabled := j.field "cache_enabled"
  cacheOptimistic := j.field "cache_optimistic"
  cacheSize := j.field "cache_size"
  cacheTtlMax := j.field "cache_ttl_max"
  cacheTtlMin := j.field "cache_ttl_min"
  disableIpv6 := j.field "disable_ipv6"
  dnssecEnabled := j.field "dnssec_enabled"
  ednsCsCustomIp := j.field "edns_cs_custom_ip"
  ednsCsEnabled := j.field "edns_cs_enabled"
  ednsCsUseCustom := j.field "edns_cs_use_custom"
  fallbackDns := j.field "fallback_dns"
  localPtrUpstreams := j.field "local_ptr_upstreams"
  protectionDisabledUntil := j.field "protection_disabled_until"
  protectionEnabled := j.field "protection_enabled"
  ratelimit := j.field "ratelimit"
  ratelimitSubnetSubnetLenIpv4 := j.field "ratelimit_subnet_subnet_len_ipv4"
  ratelimitSubnetSubnetLenIpv6 := j.field "ratelimit_subnet_subnet_len_ipv6"
  ratelimitWhitelist := j.field "ratelimit_whitelist"
  resolveClients := j.field "resolve_clients"
  upstreamDns := j.field "upstream_dns"
  upstreamDnsFile := j.field "upstream_dns_file"
  upstreamMode := j.field "upstream_mode"
  upstreamTimeout := j.field "upstream_timeout"
  usePrivatePtrResolvers := j.field "use_private_ptr_resolvers"

/-- Encoding and decoding a DNS configuration gives it back. -/
theorem DNSConfig.unmarshal_marshal (c : DNSConfig) : DNSConfig.unmarshal (marshal c) = c := by
  have hfield : ∀ {α : Type} [Marshal α] [Unmarshal α] [LawfulMarshal α] {name : String}
      {o : Option α}, omitEmpty name o ∈ c.members → (Json.object c.members).field name = o :=
    Json.field_object (by simp [DNSConfig.members, omitEmpty])
  ext1 <;> exact hfield (by simp [DNSConfig.members])

/-! ## DHCP and TLS -/

/-- DHCP settings for IPv4. -/
structure DhcpConfigV4 where
  gatewayIp : Option String := none
  leaseDuration : Option ℤ := none
  rangeEnd : Option String := none
  rangeStart : Option String := none
  subnetMask : Option String := none
  deriving DecidableEq

instance : Marshal DhcpConfigV4 where
  marshal c := .object [
    omitEmpty "gateway_ip" c.gatewayIp,
    omitEmpty "lease_duration" c.leaseDuration,
    omitEmpty "range_end" c.rangeEnd,
    omitEmpty "range_start" c.rangeStart,
    omitEmpty "subnet_mask" c.subnetMask]

/-- DHCP settings for IPv6. -/
structure DhcpConfigV6 where
  leaseDuration : Option ℤ := none
  rangeStart : Option String := none
  deriving DecidableEq

instance : Marshal DhcpConfigV6 where
  marshal c := .object [
    omitEmpty "lease_duration" c.leaseDuration,
    omitEmpty "range_start" c.rangeStart]

/-- A dynamic lease. -/
structure DhcpLease where
  expires : String := ""
  hostname : String := ""
  ip : String := ""
  mac : String := ""
  deriving DecidableEq

instance : Marshal DhcpLease where
  marshal l := .object [
    always "expires" l.expires,
    always "hostname" l.hostname,
    always "ip" l.ip,
    always "mac" l.mac]

/-- A static lease. -/
structure DhcpStaticLease where
  hostname : String := ""
  ip : String := ""
  mac : String := ""
  deriving DecidableEq

instance : Marshal DhcpStaticLease where
  marshal l := .object [
    always "hostname" l.hostname,
    always "ip" l.ip,
    always "mac" l.mac]

/-- DHCP settings and leases. -/
structure DhcpStatus where
  enabled : Option Bool := none
  interfaceName : Option String := none
  leases : Option (List DhcpLease) := none
  staticLeases : Option (List DhcpStaticLease) := none
  v4 : Option DhcpConfigV4 := none
  v6 : Option DhcpConfigV6 := none
  deriving DecidableEq

instance : Marshal DhcpStatus where
  marshal c := .object [
    omitEmpty "enabled" c.enabled,
    omitEmpty "interface_name" c.interfaceName,
    always "leases" c.leases,
    omitEmpty "static_leases" c.staticLeases,
    omitEmpty "v4" c.v4,
    omitEmpty "v6" c.v6]

/-- TLS settings. -/
structure TlsConfig where
  certificateChain : Option String := none
  certificatePath : Option String := none
  dnsNames : Option (List String) := none
  enabled : Option Bool := none
  forceHttps : Option Bool := none
  issuer : Option String := none
  keyType : Option String := none
  notAfter : Option String := none
  notBefore : Option String := none
  portDnsOverQuic : Option UInt16 := none
  portDnsOverTls : Option UInt16 := none
  portHttps : Option UInt16 := none
  privateKey : Option String := none
  privateKeyPath : Option String := none
  privateKeySaved : Option Bool := none
  servePlainDns : Option Bool := none
  serverName : Option String := none
  subject : Option String := none
  validCert : Option Bool := none
  validChain : Option Bool := none
  validKey : Option Bool := none
  validPair : Option Bool := none
  warningValidation : Option String := none
  deriving DecidableEq

instance : Marshal TlsConfig where
  marshal c := .object [
    omitEmpty "certificate_chain" c.certificateChain,
    omitEmpty "certificate_path" c.certificatePath,
    omitEmpty "dns_names" c.dnsNames,
    omitEmpty "enabled" c.enabled,
    omitEmpty "force_https" c.forceHttps,
    omitEmpty "issuer" c.issuer,
    omitEmpty "key_type" c.keyType,
    omitEmpty "not_after" c.notAfter,
    omitEmpty "not_before" c.notBefore,
    omitEmpty "port_dns_over_quic" c.portDnsOverQuic,
    omitEmpty "port_dns_over_tls" c.portDnsOverTls,
    omitEmpty "port_https" c.portHttps,
    omitEmpty "private_key" c.privateKey,
    omitEmpty "private_key_path" c.privateKeyPath,
    omitEmpty "private_key_saved" c.privateKeySaved,
    omitEmpty "serve_plain_dns" c.servePlainDns,
    omitEmpty "server_name" c.serverName,
    omitEmpty "subject" c.subject,
    omitEmpty "valid_cert" c.validCert,
    omitEmpty "valid_chain" c.validChain,
    omitEmpty "valid_key" c.validKey,
    omitEmpty "valid_pair" c.validPair,
    omitEmpty "warning_validation" c.warningValidation]

end AghSync.Model
