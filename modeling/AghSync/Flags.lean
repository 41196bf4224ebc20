import AghSync.Environ

/-!
# The flags of the command line

The flags of the `run` command, with the types they are registered with, and how they are read
into the configuration. The flag set is a parameter : `Flags.Parsed` says what its getters do
for a command line. Every flag has one field (`ConfigField.flag`). Reading the flags lays what
is on the command line over the configuration (`Flags.Parsed.readFlags_eq_ok`), unless the flag
for the dark mode is changed, which is registered with another type than its field has
(`Flags.Parsed.readFlags_eq_error`).
-/

open Layers

namespace AghSync

/-! ## Flags -/

/-- The flags of the `run` command. -/
inductive Flag
  | cron
  | runOnStart
  | printConfigOnly
  | continueOnError
  | apiPort
  | apiUsername
  | apiPassword
  | apiDarkMode
  | featureDhcpServerConfig
  | featureDhcpStaticLeases
  | featureDNSServerConfig
  | featureDNSAccessLists
  | featureDNSRewrites
  | featureGeneral
  | featureQueryLog
  | featureStats
  | featureClient
  | featureServices
  | featureFilters
  | featureTLSConfig
  | originURL
  | originWebURL
  | originAPIPath
  | originUsername
  | originPassword
  | originCookie
  | originISV
  | replicaURL
  | replicaWebURL
  | replicaAPIPath
  | replicaUsername
  | replicaPassword
  | replicaCookie
  | replicaISV
  | replicaAutoSetup
  | replicaInterfaceName
  deriving DecidableEq

namespace Flag

def name : Flag → String
  | cron => "cron"
  | runOnStart => "runOnStart"
  | printConfigOnly => "printConfigOnly"
  | continueOnError => "continueOnError"
  | apiPort => "api-port"
  | apiUsername => "api-username"
  | apiPassword => "api-password"
  | apiDarkMode => "api-dark-mode"
  | featureDhcpServerConfig => "feature-dhcp-server-config"
  | featureDhcpStaticLeases => "feature-dhcp-static-leases"
  | featureDNSServerConfig => "feature-dns-server-config"
  | featureDNSAccessLists => "feature-dns-access-lists"
  | featureDNSRewrites => "feature-dns-rewrites"
  | featureGeneral => "feature-general-settings"
  | featureQueryLog => "feature-query-log-config"
  | featureStats => "feature-stats-config"
  | featureClient => "feature-client-settings"
  | featureServices => "feature-services"
  | featureFilters => "feature-filters"
  | featureTLSConfig => "feature-tls-config"
  | originURL => "origin-url"
  | originWebURL => "origin-web-url"
  | originAPIPath => "origin-api-path"
  | originUsername => "origin-username"
  | originPassword => "origin-password"
  | originCookie => "origin-cookie"
  | originISV => "origin-insecure-skip-verify"
  | replicaURL => "replica-url"
  | replicaWebURL => "replica-web-url"
  | replicaAPIPath => "replica-api-path"
  | replicaUsername => "replica-username"
  | replicaPassword => "replica-password"
  | replicaCookie => "replica-cookie"
  | replicaISV => "replica-insecure-skip-verify"
  | replicaAutoSetup => "replica-auto-setup"
  | replicaInterfaceName => "replica-interface-name"

/-- The type that the flag is registered with. -/
abbrev kind : Flag → Kind
  | cron | apiUsername | apiPassword | apiDarkMode | originURL | originWebURL | originAPIPath
  | originUsername | originPassword | originCookie | replicaURL | replicaWebURL | replicaAPIPath
  | replicaUsername | replicaPassword | replicaCookie | replicaInterfaceName => .string
  | runOnStart | printConfigOnly | continueOnError | featureDhcpServerConfig
  | featureDhcpStaticLeases | featureDNSServerConfig | featureDNSAccessLists
  | featureDNSRewrites | featureGeneral | featureQueryLog | featureStats | featureClient
  | featureServices | featureFilters | featureTLSConfig | originISV | replicaISV
  | replicaAutoSetup => .bool
  | apiPort => .int

/-- The default that the flag is registered with. -/
def default : (flag : Flag) → flag.kind.Value
  | cron | apiUsername | apiPassword | apiDarkMode | originURL | originWebURL | originUsername
  | originPassword | originCookie | replicaURL | replicaWebURL | replicaUsername | replicaPassword
  | replicaCookie | replicaInterfaceName => ""
  | originAPIPath | replicaAPIPath => "/control"
  | runOnStart | featureDhcpServerConfig | featureDhcpStaticLeases | featureDNSServerConfig
  | featureDNSAccessLists | featureDNSRewrites | featureGeneral | featureQueryLog | featureStats
  | featureClient | featureServices | featureFilters => true
  | printConfigOnly | continueOnError | featureTLSConfig | originISV | replicaISV
  | replicaAutoSetup => false
  | apiPort => (8080 : ℤ)

/-- All flags. -/
def all : List Flag :=
  [cron, runOnStart, printConfigOnly, continueOnError, apiPort, apiUsername, apiPassword,
    apiDarkMode, featureDhcpServerConfig, featureDhcpStaticLeases, featureDNSServerConfig,
    featureDNSAccessLists, featureDNSRewrites, featureGeneral, featureQueryLog, featureStats,
    featureClient, featureServices, featureFilters, featureTLSConfig, originURL, originWebURL,
    originAPIPath, originUsername, originPassword, originCookie, originISV, replicaURL,
    replicaWebURL, replicaAPIPath, replicaUsername, replicaPassword, replicaCookie, replicaISV,
    replicaAutoSetup, replicaInterfaceName]

/-- The flag with a name. -/
def lookup (name : String) : Option Flag :=
  all.find? fun flag => flag.name = name

/-- No two flags have the same name. -/
theorem lookup_name (flag : Flag) : lookup flag.name = some flag := by
  cases flag <;> decide

end Flag

/-- The flags that are changed on the command line, with their values. -/
abbrev CommandLine := (flag : Flag) → Option flag.kind.Value

/-- `Flags`. -/
structure Flags where
  changed : String → Bool
  getString : String → Except ConfigErr String
  getInt : String → Except ConfigErr ℤ
  getBool : String → Except ConfigErr Bool

namespace Flags

variable (flags : Flags)

/-- The getter for a type, if there is one. -/
def get : (k : Kind) → String → Except ConfigErr k.Value
  | .string => flags.getString
  | .int => flags.getInt
  | .bool => flags.getBool
  | .duration | .boolPointer | .stringMap => fun name => .error (.package name)

/-- The flag set has parsed a command line. A getter fails for a flag that is registered with
another type. -/
structure Parsed (line : CommandLine) : Prop where
  changed : ∀ flag : Flag, flags.changed flag.name = (line flag).isSome
  typed : ∀ (flag : Flag) v, line flag = some v → flags.get flag.kind flag.name = .ok v
  mistyped : ∀ (flag : Flag) k, k ≠ flag.kind → ∃ text,
    flags.get k flag.name = .error (.package text)

/-- Read a flag with a getter, if it is changed, and give it to the callback. -/
def setFlag {α : Type} (get : String → Except ConfigErr α) (name : String)
    (cb : Config → α → Config) (cfg : Config) : Except ConfigErr Config :=
  if flags.changed name then do
    let value ← get name
    pure (cb cfg value)
  else pure cfg

/-- `setStringFlag`. -/
def setStringFlag : String → (Config → String → Config) → Config → Except ConfigErr Config :=
  flags.setFlag flags.getString

/-- `setBoolFlag`. -/
def setBoolFlag : String → (Config → Bool → Config) → Config → Except ConfigErr Config :=
  flags.setFlag flags.getBool

/-- `setIntFlag`. -/
def setIntFlag : String → (Config → ℤ → Config) → Config → Except ConfigErr Config :=
  flags.setFlag flags.getInt

/-- `readRootFlags`. -/
def readRootFlags (cfg : Config) : Except ConfigErr Config := do
  let cfg ← flags.setStringFlag Flag.cron.name (fun cfg value => { cfg with cron := value }) cfg
  let cfg ← flags.setBoolFlag Flag.runOnStart.name
    (fun cfg value => { cfg with runOnStart := value }) cfg
  let cfg ← flags.setBoolFlag Flag.printConfigOnly.name
    (fun cfg value => { cfg with printConfigOnly := value }) cfg
  flags.setBoolFlag Flag.continueOnError.name
    (fun cfg value => { cfg with continueOnError := value }) cfg

/-- `readAPIFlags`. -/
def readAPIFlags (cfg : Config) : Except ConfigErr Config := do
  let cfg ← flags.setIntFlag Flag.apiPort.name
    (fun cfg value => cfg.mapAPI fun a => { a with port := value }) cfg
  let cfg ← flags.setStringFlag Flag.apiUsername.name
    (fun cfg value => cfg.mapAPI fun a => { a with username := value }) cfg
  let cfg ← flags.setStringFlag Flag.apiPassword.name
    (fun cfg value => cfg.mapAPI fun a => { a with password := value }) cfg
  flags.setBoolFlag Flag.apiDarkMode.name
    (fun cfg value => cfg.mapAPI fun a => { a with darkMode := value }) cfg

/-- `readFeatureFlags`. -/
def readFeatureFlags (cfg : Config) : Except ConfigErr Config := do
  let cfg ← flags.setBoolFlag Flag.featureDhcpServerConfig.name
    (fun cfg value => cfg.mapFeatures fun f => { f with dhcp.serverConfig := value }) cfg
  let cfg ← flags.setBoolFlag Flag.featureDhcpStaticLeases.name
    (fun cfg value => cfg.mapFeatures fun f => { f with dhcp.staticLeases := value }) cfg
  let cfg ← flags.setBoolFlag Flag.featureDNSServerConfig.name
    (fun cfg value => cfg.mapFeatures fun f => { f with dns.serverConfig := value }) cfg
  let cfg ← flags.setBoolFlag Flag.featureDNSAccessLists.name
    (fun cfg value => cfg.mapFeatures fun f => { f with dns.accessLists := value }) cfg
  let cfg ← flags.setBoolFlag Flag.featureDNSRewrites.name
    (fun cfg value => cfg.mapFeatures fun f => { f with dns.rewrites := value }) cfg
  let cfg ← flags.setBoolFlag Flag.featureGeneral.name
    (fun cfg value => cfg.mapFeatures fun f => { f with generalSettings := value }) cfg
  let cfg ← flags.setBoolFlag Flag.featureQueryLog.name
    (fun cfg value => cfg.mapFeatures fun f => { f with queryLogConfig := value }) cfg
  let cfg ← flags.setBoolFlag Flag.featureStats.name
    (fun cfg value => cfg.mapFeatures fun f => { f with statsConfig := value }) cfg
  let cfg ← flags.setBoolFlag Flag.featureClient.name
    (fun cfg value => cfg.mapFeatures fun f => { f with clientSettings := value }) cfg
  let cfg ← flags.setBoolFlag Flag.featureServices.name
    (fun cfg value => cfg.mapFeatures fun f => { f with services := value }) cfg
  let cfg ← flags.setBoolFlag Flag.featureFilters.name
    (fun cfg value => cfg.mapFeatures fun f => { f with filters := value }) cfg
  flags.setBoolFlag Flag.featureTLSConfig.name
    (fun cfg value => cfg.mapFeatures fun f => { f with tlsConfig := value }) cfg

/-- `readOriginFlags`. -/
def readOriginFlags (cfg : Config) : Except ConfigErr Config := do
  let cfg ← flags.setStringFlag Flag.originURL.name
    (fun cfg value => cfg.mapOrigin fun i => { i with url := value }) cfg
  let cfg ← flags.setStringFlag Flag.originWebURL.name
    (fun cfg value => cfg.mapOrigin fun i => { i with webURL := value }) cfg
  let cfg ← flags.setStringFlag Flag.originAPIPath.name
    (fun cfg value => cfg.mapOrigin fun i => { i with apiPath := value }) cfg
  let cfg ← flags.setStringFlag Flag.originUsername.name
    (fun cfg value => cfg.mapOrigin fun i => { i with username := value }) cfg
  let cfg ← flags.setStringFlag Flag.originPassword.name
    (fun cfg value => cfg.mapOrigin fun i => { i with password := value }) cfg
  let cfg ← flags.setStringFlag Flag.originCookie.name
    (fun cfg value => cfg.mapOrigin fun i => { i with cookie := value }) cfg
  flags.setBoolFlag Flag.originISV.name
    (fun cfg value => cfg.mapOrigin fun i => { i with insecureSkipVerify := value }) cfg

/-- `readReplicaFlags`. -/
def readReplicaFlags (cfg : Config) : Except ConfigErr Config := do
  let cfg ← flags.setStringFlag Flag.replicaURL.name
    (fun cfg value => cfg.mapReplica fun i => { i with url := value }) cfg
  let cfg ← flags.setStringFlag Flag.replicaWebURL.name
    (fun cfg value => cfg.mapReplica fun i => { i with webURL := value }) cfg
  let cfg ← flags.setStringFlag Flag.replicaAPIPath.name
    (fun cfg value => cfg.mapReplica fun i => { i with apiPath := value }) cfg
  let cfg ← flags.setStringFlag Flag.replicaUsername.name
    (fun cfg value => cfg.mapReplica fun i => { i with username := value }) cfg
  let cfg ← flags.setStringFlag Flag.replicaPassword.name
    (fun cfg value => cfg.mapReplica fun i => { i with password := value }) cfg
  let cfg ← flags.setStringFlag Flag.replicaCookie.name
    (fun cfg value => cfg.mapReplica fun i => { i with cookie := value }) cfg
  let cfg ← flags.setBoolFlag Flag.replicaISV.name
    (fun cfg value => cfg.mapReplica fun i => { i with insecureSkipVerify := value }) cfg
  let cfg ← flags.setBoolFlag Flag.replicaAutoSetup.name
    (fun cfg value => cfg.mapReplica fun i => { i with autoSetup := value }) cfg
  flags.setStringFlag Flag.replicaInterfaceName.name
    (fun cfg value => cfg.mapReplica fun i => { i with interfaceName := value }) cfg

end Flags

/-- `readFlags`. -/
def readFlags (cfg : Config) : Option Flags → Except ConfigErr Config
  | none => pure cfg
  | some flags => do
    let cfg ← flags.readRootFlags cfg
    let cfg ← flags.readAPIFlags cfg
    let cfg ← flags.readFeatureFlags cfg
    let cfg ← flags.readOriginFlags cfg
    flags.readReplicaFlags cfg

/-! ## Flags and fields -/

namespace ConfigField

/-- The flag of a field. -/
def flag : ConfigField → Option Flag
  | root .cron => some .cron
  | root .runOnStart => some .runOnStart
  | root .printConfigOnly => some .printConfigOnly
  | root .continueOnError => some .continueOnError
  | root .apiPort => some .apiPort
  | root .apiUsername => some .apiUsername
  | root .apiPassword => some .apiPassword
  | root .apiDarkMode => some .apiDarkMode
  | root .dhcpServerConfig => some .featureDhcpServerConfig
  | root .dhcpStaticLeases => some .featureDhcpStaticLeases
  | root .dnsServerConfig => some .featureDNSServerConfig
  | root .dnsAccessLists => some .featureDNSAccessLists
  | root .dnsRewrites => some .featureDNSRewrites
  | root .generalSettings => some .featureGeneral
  | root .queryLogConfig => some .featureQueryLog
  | root .statsConfig => some .featureStats
  | root .clientSettings => some .featureClient
  | root .services => some .featureServices
  | root .filters => some .featureFilters
  | root .tlsConfig => some .featureTLSConfig
  | origin .url => some .originURL
  | origin .webURL => some .originWebURL
  | origin .apiPath => some .originAPIPath
  | origin .username => some .originUsername
  | origin .password => some .originPassword
  | origin .cookie => some .originCookie
  | origin .insecureSkipVerify => some .originISV
  | replica .url => some .replicaURL
  | replica .webURL => some .replicaWebURL
  | replica .apiPath => some .replicaAPIPath
  | replica .username => some .replicaUsername
  | replica .password => some .replicaPassword
  | replica .cookie => some .replicaCookie
  | replica .insecureSkipVerify => some .replicaISV
  | replica .autoSetup => some .replicaAutoSetup
  | replica .interfaceName => some .replicaInterfaceName
  | _ => none

/-- The fields of the flags of the root. -/
def rootFlags : List ConfigField :=
  [.root .cron, .root .runOnStart, .root .printConfigOnly, .root .continueOnError]

/-- The fields of the flags of the API. -/
def apiFlags : List ConfigField :=
  [.root .apiPort, .root .apiUsername, .root .apiPassword, .root .apiDarkMode]

/-- The fields of the flags of the features. -/
def featureFlags : List ConfigField :=
  [.root .dhcpServerConfig, .root .dhcpStaticLeases, .root .dnsServerConfig,
    .root .dnsAccessLists, .root .dnsRewrites, .root .generalSettings, .root .queryLogConfig,
    .root .statsConfig, .root .clientSettings, .root .services, .root .filters, .root .tlsConfig]

/-- The fields of the flags of the origin. -/
def originFlags : List ConfigField :=
  [.origin .url, .origin .webURL, .origin .apiPath, .origin .username, .origin .password,
    .origin .cookie, .origin .insecureSkipVerify]

/-- The fields of the flags of the replica. -/
def replicaFlags : List ConfigField :=
  [.replica .url, .replica .webURL, .replica .apiPath, .replica .username, .replica .password,
    .replica .cookie, .replica .insecureSkipVerify, .replica .autoSetup, .replica .interfaceName]

/-- The fields with a flag, in the order in which they are read. -/
def withFlag : List ConfigField :=
  rootFlags ++ (apiFlags ++ (featureFlags ++ (originFlags ++ replicaFlags)))

theorem nodup_withFlag : withFlag.Nodup := by
  decide

theorem mem_withFlag {f : ConfigField} : f ∈ withFlag ↔ f.flag.isSome := by
  cases f with
  | root f => cases f <;> decide
  | origin f => cases f <;> decide
  | replica f => cases f <;> decide

/-- Only the dark mode has a flag of another type. -/
theorem kind_of_flag {f : ConfigField} {flag : Flag} (h : f.flag = some flag) :
    flag.kind = f.kind ↔ flag ≠ .apiDarkMode := by
  cases f with
  | root f => cases f <;> cases h <;> decide
  | origin f => cases f <;> cases h <;> decide
  | replica f => cases f <;> cases h <;> decide

end ConfigField

/-- What the command line says about the configuration. -/
def CommandLine.layer (line : CommandLine) : Layer ConfigField.Value := fun f =>
  f.flag.bind fun flag =>
    if h : flag.kind = f.kind then (h ▸ line flag : Option (Kind.Value f.kind)) else none

namespace Flags

variable (flags : Flags)

/-- Look whether the flag of a field is changed, and read it. -/
def read (f : ConfigField) : Except ConfigErr (Option f.Value) :=
  match f.flag with
  | none => .ok none
  | some flag => if flags.changed flag.name then (flags.get f.kind flag.name).map some else .ok none

/-- Set a field from its flag, as the setters do. -/
def setField (f : ConfigField) : Config → Except ConfigErr Config :=
  match f.flag with
  | none => pure
  | some flag => flags.setFlag (flags.get f.kind) flag.name fun cfg v => cfg.set f v

/-- Set fields from their flags, one after the other. -/
def setFields : List ConfigField → Config → Except ConfigErr Config
  | [], cfg => pure cfg
  | [f], cfg => flags.setField f cfg
  | f :: fs, cfg => flags.setField f cfg >>= setFields fs

theorem setField_eq (f : ConfigField) : flags.setField f = readOne Config.record flags.read f := by
  funext cfg
  cases h : f.flag with
  | none => simp only [setField, readOne, read, h]; rfl
  | some flag =>
    simp only [setField, setFlag, readOne, read, h]
    split_ifs
    · cases flags.get f.kind flag.name <;> rfl
    · rfl

theorem setFields_eq : ∀ (fs : List ConfigField) (cfg : Config),
    flags.setFields fs cfg = readAll Config.record flags.read fs cfg
  | [], _ => rfl
  | [f], cfg => by
    rw [setFields, setField_eq, readAll]
    exact (bind_pure _).symm
  | f :: g :: fs, cfg => by
    rw [readAll, ← setField_eq]
    exact congrArg _ (funext fun cfg => setFields_eq (g :: fs) cfg)

theorem readRootFlags_eq (cfg : Config) :
    flags.readRootFlags cfg = flags.setFields ConfigField.rootFlags cfg :=
  rfl

theorem readAPIFlags_eq (cfg : Config) :
    flags.readAPIFlags cfg = flags.setFields ConfigField.apiFlags cfg :=
  rfl

theorem readFeatureFlags_eq (cfg : Config) :
    flags.readFeatureFlags cfg = flags.setFields ConfigField.featureFlags cfg :=
  rfl

theorem readOriginFlags_eq (cfg : Config) :
    flags.readOriginFlags cfg = flags.setFields ConfigField.originFlags cfg :=
  rfl

theorem readReplicaFlags_eq (cfg : Config) :
    flags.readReplicaFlags cfg = flags.setFields ConfigField.replicaFlags cfg :=
  rfl

/-- Reading the flags is reading the fields with a flag. -/
theorem readFlags_eq (cfg : Config) : readFlags cfg (some flags) =
    readAll Config.record flags.read ConfigField.withFlag cfg := by
  simp only [readFlags, readRootFlags_eq, readAPIFlags_eq, readFeatureFlags_eq, readOriginFlags_eq,
    readReplicaFlags_eq, setFields_eq, ConfigField.withFlag, readAll_append]

variable {flags} {line : CommandLine}

/-- Reading a field from its flag gives what is on the command line. -/
theorem Parsed.read_eq (h : flags.Parsed line) {f : ConfigField}
    (hdark : f.flag = some .apiDarkMode → line .apiDarkMode = none) :
    flags.read f = .ok (line.layer f) := by
  have hcast : ∀ {flag : Flag} {k : Kind} (hk : flag.kind = k),
      (if flags.changed flag.name then (flags.get k flag.name).map some else .ok none) =
        Except.ok (hk ▸ line flag : Option k.Value) := by
    rintro flag _ rfl
    rw [h.changed]
    cases hv : line flag with
    | none => rfl
    | some v =>
      rw [h.typed flag v hv]
      rfl
  cases hf : f.flag with
  | none => simp [read, CommandLine.layer, hf]
  | some flag =>
    by_cases hk : flag.kind = f.kind
    · simpa [read, CommandLine.layer, hf, hk] using hcast hk
    · obtain rfl : flag = .apiDarkMode := by simpa using (ConfigField.kind_of_flag hf).not.mp hk
      simp [read, CommandLine.layer, hf, hk, h.changed, hdark hf]

/-- Without the dark mode, reading the flags lays the command line over the configuration. -/
theorem Parsed.readFlags_eq_ok (h : flags.Parsed line) (hdark : line .apiDarkMode = none)
    (cfg : Config) : ∃ cfg', readFlags cfg (some flags) = .ok cfg' ∧
      cfg'.get = line.layer.over cfg.get ∧ cfg'.replicas = cfg.replicas := by
  obtain ⟨cfg', hcfg', hin, hout⟩ := readAll_eq_ok (R := Config.record) (x := cfg)
    ConfigField.nodup_withFlag fun f _ => h.read_eq fun _ => hdark
  refine ⟨cfg', (readFlags_eq flags cfg).trans hcfg', funext fun f => ?_,
    readAll_keeps Config.replicas_set hcfg'⟩
  by_cases hf : f ∈ ConfigField.withFlag
  · exact hin f hf
  · have hflag : f.flag = none := by simpa using ConfigField.mem_withFlag.not.mp hf
    rw [Layer.over_apply, CommandLine.layer, hflag]
    exact hout f hf

/-- With the dark mode, reading the flags fails. -/
theorem Parsed.readFlags_eq_error (h : flags.Parsed line) (hdark : (line .apiDarkMode).isSome)
    (cfg : Config) : ∃ text, readFlags cfg (some flags) = .error (.package text) := by
  have hfails : ∃ e, flags.read (.root .apiDarkMode) = .error e := by
    obtain ⟨text, htext⟩ := h.mistyped .apiDarkMode .bool (by decide)
    refine ⟨.package text, ?_⟩
    have hchanged := (h.changed .apiDarkMode).trans hdark
    simp only [read, ConfigField.flag, hchanged, if_true, htext]
    rfl
  obtain ⟨f, -, e, he, hall⟩ := readAll_eq_error (R := Config.record) (x := cfg)
    ⟨.root .apiDarkMode, ConfigField.mem_withFlag.mpr rfl, hfails⟩
  have hdark : f.flag = some .apiDarkMode := by
    by_contra hne
    cases (h.read_eq fun hf => absurd hf hne).symm.trans he
  obtain ⟨text, htext⟩ := h.mistyped .apiDarkMode f.kind fun hk =>
    (ConfigField.kind_of_flag hdark).mp hk.symm rfl
  refine ⟨text, (readFlags_eq flags cfg).trans (hall.trans ?_)⟩
  simp only [read, hdark, htext] at he
  split_ifs at he
  exact congrArg Except.error (Except.error.inj he).symm

end Flags

/-! ## An example of the flag set -/

namespace CommandLine

variable (line : CommandLine)

/-- What the getter for a type returns. -/
def value (k : Kind) (name : String) : Except ConfigErr k.Value :=
  match Flag.lookup name with
  | none => .error (.package ("flag accessed but not defined: " ++ name))
  | some flag =>
    if h : flag.kind = k then .ok (h ▸ (line flag).getD flag.default)
    else .error (.package ("trying to get another type of value of flag " ++ name))

/-- The flag set that has parsed the command line. -/
def flagSet : Flags where
  changed name := (Flag.lookup name).any fun flag => (line flag).isSome
  getString := line.value .string
  getInt := line.value .int
  getBool := line.value .bool

theorem flagSet_parsed : line.flagSet.Parsed line where
  changed flag := by simp [flagSet, Flag.lookup_name]
  typed flag v hv := by
    have hvalue : ∀ {k : Kind} (hk : flag.kind = k), line.value k flag.name = .ok (hk ▸ v) := by
      rintro _ rfl
      simp [value, Flag.lookup_name, hv]
    cases flag <;> exact hvalue rfl
  mistyped flag k hk := by
    have hvalue : line.value k flag.name = .error
        (.package ("trying to get another type of value of flag " ++ flag.name)) := by
      simp [value, Flag.lookup_name, Ne.symm hk]
    cases k <;> first | exact ⟨_, hvalue⟩ | exact ⟨_, rfl⟩

end CommandLine

end AghSync
