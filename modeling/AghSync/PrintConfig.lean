import AghSync.Compare
import AghSync.Precedence
import AghSync.Yaml

/-!
# Printing the configuration

`AppConfig.printInternal` prints the configuration as it is, with the members that its tags mark
`omitempty` left out where they are zero. A file with the printed document is read over
`initialConfig`, where some of these members are not zero. So a configuration reads back exactly
if it runs on start, has an API port, an origin with an API path and some feature
(`readsBack_iff`).
-/

open Yaml

namespace AghSync

/-! ## Members -/

/-- The scalars of a document. -/
inductive Scalar
  | string (s : String)
  | bool (b : Bool)
  | int (n : ℤ)
  | duration (n : ℤ)
  deriving DecidableEq

namespace Scalar

def strings : Codec Scalar String :=
  .scalar "" string (fun | string s => some s | _ => none) fun _ => rfl

def bools : Codec Scalar Bool :=
  .scalar false bool (fun | bool b => some b | _ => none) fun _ => rfl

def ints : Codec Scalar ℤ :=
  .scalar 0 int (fun | int n => some n | _ => none) fun _ => rfl

def durations : Codec Scalar ℤ :=
  .scalar 0 duration (fun | duration n => some n | _ => none) fun _ => rfl

end Scalar

open Scalar

/-- The members of `Metrics`. -/
def Metrics.members : List (Member Scalar Metrics) :=
  [.field "enabled" true bools (·.enabled) fun v m => { m with enabled := v },
    .field "scrapeInterval" true durations (·.scrapeInterval) fun v m =>
      { m with scrapeInterval := v },
    .field "queryLogLimit" true ints (·.queryLogLimit) fun v m => { m with queryLogLimit := v }]

def Metrics.codec : Codec Scalar Metrics :=
  .struct {} members (by decide)

@[simp] theorem Metrics.zero_codec : codec.zero = {} :=
  rfl

/-- The members of `TLS`. -/
def TLS.members : List (Member Scalar TLS) :=
  [.field "certDir" true strings (·.certDir) fun v t => { t with certDir := v },
    .field "certName" true strings (·.certName) fun v t => { t with certName := v },
    .field "keyName" true strings (·.keyName) fun v t => { t with keyName := v }]

def TLS.codec : Codec Scalar TLS :=
  .struct {} members (by decide)

@[simp] theorem TLS.zero_codec : codec.zero = {} :=
  rfl

/-- The members of `API`. -/
def API.members : List (Member Scalar API) :=
  [.field "port" true ints (·.port) fun v a => { a with port := v },
    .field "username" true strings (·.username) fun v a => { a with username := v },
    .field "password" true strings (·.password) fun v a => { a with password := v },
    .field "darkMode" true bools (·.darkMode) fun v a => { a with darkMode := v },
    .field "metrics" true Metrics.codec (·.metrics) fun v a => { a with metrics := v },
    .field "tls" true TLS.codec (·.tls) fun v a => { a with tls := v }]

def API.codec : Codec Scalar API :=
  .struct {} members (by decide)

@[simp] theorem API.zero_codec : codec.zero = {} :=
  rfl

/-- The members of `DNS`. -/
def DNSFeatures.members : List (Member Scalar DNSFeatures) :=
  [.field "accessLists" false bools (·.accessLists) fun v f => { f with accessLists := v },
    .field "serverConfig" false bools (·.serverConfig) fun v f => { f with serverConfig := v },
    .field "rewrites" false bools (·.rewrites) fun v f => { f with rewrites := v }]

def DNSFeatures.codec : Codec Scalar DNSFeatures :=
  .struct {} members (by decide)

/-- The members of `DHCP`. -/
def DHCPFeatures.members : List (Member Scalar DHCPFeatures) :=
  [.field "serverConfig" false bools (·.serverConfig) fun v f => { f with serverConfig := v },
    .field "staticLeases" false bools (·.staticLeases) fun v f => { f with staticLeases := v }]

def DHCPFeatures.codec : Codec Scalar DHCPFeatures :=
  .struct {} members (by decide)

/-- The members of `Features`. -/
def Features.members : List (Member Scalar Features) :=
  [.field "dns" false DNSFeatures.codec (·.dns) fun v f => { f with dns := v },
    .field "dhcp" false DHCPFeatures.codec (·.dhcp) fun v f => { f with dhcp := v },
    .field "generalSettings" false bools (·.generalSettings) fun v f =>
      { f with generalSettings := v },
    .field "queryLogConfig" false bools (·.queryLogConfig) fun v f =>
      { f with queryLogConfig := v },
    .field "statsConfig" false bools (·.statsConfig) fun v f => { f with statsConfig := v },
    .field "clientSettings" false bools (·.clientSettings) fun v f =>
      { f with clientSettings := v },
    .field "services" false bools (·.services) fun v f => { f with services := v },
    .field "filters" false bools (·.filters) fun v f => { f with filters := v },
    .field "theme" false bools (·.theme) fun v f => { f with theme := v },
    .field "tlsConfig" false bools (·.tlsConfig) fun v f => { f with tlsConfig := v }]

def Features.codec : Codec Scalar Features :=
  .struct {} members (by decide)

@[simp] theorem Features.zero_codec : codec.zero = {} :=
  rfl

/-- The members of `AdGuardInstance`. The hosts are not written. -/
def AdGuardInstance.members : List (Member Scalar AdGuardInstance) :=
  [.field "url" false strings (·.url) fun v i => { i with url := v },
    .field "webURL" false strings (·.webURL) fun v i => { i with webURL := v },
    .field "apiPath" true strings (·.apiPath) fun v i => { i with apiPath := v },
    .field "username" true strings (·.username) fun v i => { i with username := v },
    .field "password" true strings (·.password) fun v i => { i with password := v },
    .field "cookie" true strings (·.cookie) fun v i => { i with cookie := v },
    .field "requestHeaders" true strings.stringMap (·.requestHeaders) fun v i =>
      { i with requestHeaders := v },
    .field "insecureSkipVerify" false bools (·.insecureSkipVerify) fun v i =>
      { i with insecureSkipVerify := v },
    .field "autoSetup" false bools (·.autoSetup) fun v i => { i with autoSetup := v },
    .field "interfaceName" true strings (·.interfaceName) fun v i =>
      { i with interfaceName := v },
    .field "dhcpServerEnabled" true (bools.pointer nofun) (·.dhcpServerEnabled) fun v i =>
      { i with dhcpServerEnabled := v }]

def AdGuardInstance.codec : Codec Scalar AdGuardInstance :=
  .struct {} members (by decide)

@[simp] theorem AdGuardInstance.zero_codec : codec.zero = {} :=
  rfl

/-- The members of `Config`. The pointer to the origin is not nil. -/
def Config.members : List (Member Scalar Config) :=
  [.field "origin" false AdGuardInstance.codec (·.origin) fun v c => { c with origin := v },
    .field "replica" true (AdGuardInstance.codec.pointer nofun) (·.replica) fun v c =>
      { c with replica := v },
    .field "replicas" true AdGuardInstance.codec.list (·.replicas) fun v c =>
      { c with replicas := v },
    .field "cron" true strings (·.cron) fun v c => { c with cron := v },
    .field "runOnStart" true bools (·.runOnStart) fun v c => { c with runOnStart := v },
    .field "printConfigOnly" true bools (·.printConfigOnly) fun v c =>
      { c with printConfigOnly := v },
    .field "continueOnError" true bools (·.continueOnError) fun v c =>
      { c with continueOnError := v },
    .field "api" true API.codec (·.api) fun v c => { c with api := v },
    .field "features" true Features.codec (·.features) fun v c => { c with features := v }]

def Config.codec : Codec Scalar Config :=
  .struct { origin := {} } members (by decide)

/-! ## Printing -/

/-- What the application was built as, and where it runs. -/
structure BuildInfo where
  version : String
  build : String
  operatingSystem : String
  architecture : String

namespace AppConfig

/-- The text of the template up to the document. -/
def printHeader (info : BuildInfo) (originVersion : String) (replicaVersions : List String) :
    String :=
  "<!-- PLEASE COPY THE FOLLOWING OUTPUT AS IS INTO THE GITHUB ISSUE " ++
    "(Don't forget to mask your usernames, passwords, IPs and other sensitive information " ++
    "when using this in an issue ) -->\n\n### Runtime\n\n" ++
    "AdguardHome-Sync Version: " ++ info.version ++ "\nBuild: " ++ info.build ++
    "\nOperatingSystem: " ++ info.operatingSystem ++ "\nArchitecture: " ++ info.architecture ++
    "\nOriginVersion: " ++ originVersion ++ "\nReplicaVersions:" ++
    String.join (replicaVersions.zipIdx.map fun r =>
      "\n- Replica " ++ toString (r.2 + 1) ++ ": " ++ r.1) ++
    "\n\n### AdGuardHome sync aggregated config\n\n```yaml\n"

/-- The text of the template after the document. -/
def printFooter (ac : AppConfig) (env : List String) : String :=
  "\n```" ++
    (if ac.filePath ≠ "" then
      "\n### AdGuardHome sync unmodified config file\n\nConfig file path: " ++ ac.filePath ++
        "\n\n```yaml\n" ++ ac.content ++ "\n```"
    else "") ++
    "\n\n### Environment Variables\n\n```ini\n" ++ "\n".intercalate (sortStrings env) ++
    "\n```\n\n<!-- END OF GITHUB ISSUE CONTENT -->"

/-- The document that is printed. -/
def document (ac : AppConfig) : Node Scalar :=
  Config.codec.encode ac.cfg

/-- `printInternal`, where `render` gives the text of a document. -/
def printInternal (render : Node Scalar → Except ConfigErr String) (info : BuildInfo)
    (ac : AppConfig) (env : List String) (originVersion : String)
    (replicaVersions : List String) : Except ConfigErr String := do
  let config ← render ac.document
  pure (printHeader info originVersion replicaVersions ++ config ++ ac.printFooter env)

end AppConfig

/-! ## Reading back -/

/-- The fields of an instance that a document has. -/
def InstanceField.printed : InstanceField → Bool
  | host | webHost => false
  | _ => true

/-- The instances are the same as far as a document goes. -/
def AdGuardInstance.SamePrinted (i j : AdGuardInstance) : Prop :=
  ∀ f : InstanceField, f.printed → i.get f = j.get f

/-- A file at `path` is read over the defaults as a configuration with the values of `c`. -/
def FileSystem.ReadsBack (fs : FileSystem) (path : String) (c : Config) : Prop :=
  ∃ content cfg, fs.readConfig initialConfig path = .ok (content, cfg) ∧
    (∀ f : RootField, cfg.getRoot f = c.getRoot f) ∧
    cfg.origin.SamePrinted c.origin ∧
    List.Forall₂ AdGuardInstance.SamePrinted cfg.replicas c.replicas

/-- The text is a file, and the package reads it as the document it is the text of. -/
structure FileSystem.Holds (fs : FileSystem) (path text : String) (doc : Node Scalar) : Prop where
  stat : fs.stat path = true
  readFile : fs.readFile path = .ok text
  unmarshal : ∀ cfg cfg', Config.codec.decode doc cfg = some cfg' →
    fs.unmarshal text cfg = .ok cfg'

theorem FileSystem.Holds.readConfig_eq {fs : FileSystem} {path text : String} {c : Config}
    (h : fs.Holds path text (Config.codec.encode c)) (cfg : Config) :
    fs.readConfig cfg path = .ok (text, Config.codec.readOver c cfg) := by
  have hunmarshal := h.unmarshal cfg _ (Config.codec.decode_encode c cfg)
  rw [readConfig, if_pos h.stat, h.readFile]
  simp only [bind, Except.bind, hunmarshal]
  rfl

/-! ## What is left out -/

@[simp] theorem Metrics.readOver_zero (m : Metrics) : codec.readOver m {} = m := by
  simp [codec, members, bools, ints, durations]

@[simp] theorem TLS.readOver_zero (t : TLS) : codec.readOver t {} = t := by
  simp [codec, members, strings]

/-- Only a port that is zero is not read back. -/
theorem API.readOver_port (a : API) (port : ℤ) :
    codec.readOver a { port := port } = { a with port := if a.port = 0 then port else a.port } := by
  simp [codec, members, bools, ints, strings]

/-- All features are read back. -/
theorem Features.readOver_eq (f g : Features) : codec.readOver f g = f := by
  simp [codec, members, bools, DNSFeatures.codec, DNSFeatures.members, DHCPFeatures.codec,
    DHCPFeatures.members]

/-- An API path that is zero is not read back, and neither are the hosts. -/
theorem AdGuardInstance.readOver_apiPath (i : AdGuardInstance) (apiPath : String) :
    codec.readOver i { apiPath := apiPath } =
      { i with
        apiPath := if i.apiPath = "" then apiPath else i.apiPath
        host := ""
        webHost := "" } := by
  simp [codec, members, bools, strings]

/-- A configuration that is read back over the defaults. -/
theorem Config.readOver_initialConfig (c : Config) :
    codec.readOver c initialConfig =
      { c with
        origin := AdGuardInstance.codec.readOver c.origin initialConfig.origin
        replica := (codec.readOver c initialConfig).replica
        replicas := c.replicas.map fun r => AdGuardInstance.codec.readOver r {}
        runOnStart := true
        api := { c.api with port := if c.api.port = 0 then 8080 else c.api.port }
        features := if c.features = {} then .new true else c.features } := by
  simp [codec, members, bools, strings, initialConfig, API.readOver_port, Features.readOver_eq]
  intro hzero
  simp [hzero]

/-! ## When a configuration reads back -/

theorem AdGuardInstance.samePrinted_readOver_apiPath (i : AdGuardInstance) {apiPath : String}
    (h : i.apiPath = "" → apiPath = "") :
    (codec.readOver i { apiPath := apiPath }).SamePrinted i := by
  rw [readOver_apiPath]
  intro f hf
  cases f
  case apiPath =>
    simp only [get]
    split_ifs with hzero
    · rw [h hzero, hzero]
    · rfl
  case host | webHost => cases hf
  all_goals rfl

theorem AdGuardInstance.samePrinted_readOver_initialConfig {i : AdGuardInstance} :
    (codec.readOver i initialConfig.origin).SamePrinted i ↔ i.apiPath ≠ "" := by
  constructor
  · intro h hzero
    have hapiPath := h .apiPath rfl
    simp [initialConfig, readOver_apiPath, get, hzero] at hapiPath
  · intro hne
    exact samePrinted_readOver_apiPath i fun hzero => absurd hzero hne

/-- The fields that are left out where the default is not zero are not zero. -/
structure Config.KeepsDefaults (c : Config) : Prop where
  runOnStart : c.runOnStart = true
  port : c.api.port ≠ 0
  apiPath : c.origin.apiPath ≠ ""
  features : c.features ≠ {}

theorem Config.getRoot_readOver_initialConfig {c : Config} :
    (∀ f : RootField, (codec.readOver c initialConfig).getRoot f = c.getRoot f) ↔
      c.runOnStart = true ∧ c.api.port ≠ 0 ∧ c.features ≠ {} := by
  rw [readOver_initialConfig]
  constructor
  · intro h
    refine ⟨(h .runOnStart).symm, fun hport => ?_, fun hfeatures => ?_⟩
    · have hroot := h .apiPort
      simp [getRoot, hport] at hroot
    · have hroot := h .theme
      simp [getRoot, hfeatures, Features.new] at hroot
  · rintro ⟨hrun, hport, hfeatures⟩ f
    cases f
    case runOnStart => exact hrun.symm
    case apiPort => exact if_neg hport
    all_goals simp only [getRoot, if_neg hfeatures]

theorem FileSystem.Holds.reads_iff {fs : FileSystem} {path text : String} {c : Config}
    (h : fs.Holds path text (Config.codec.encode c)) : fs.ReadsBack path c ↔ c.KeepsDefaults := by
  have hread := h.readConfig_eq initialConfig
  have hlist : List.Forall₂ AdGuardInstance.SamePrinted
      (Config.codec.readOver c initialConfig).replicas c.replicas := by
    rw [Config.readOver_initialConfig, List.forall₂_map_left_iff, List.forall₂_same]
    exact fun r _ => AdGuardInstance.samePrinted_readOver_apiPath r fun _ => rfl
  constructor
  · rintro ⟨content, cfg, hcfg, hroot, horigin, -⟩
    rw [hread] at hcfg
    obtain ⟨rfl, rfl⟩ := Prod.mk.inj (Except.ok.inj hcfg)
    obtain ⟨hrun, hport, hfeatures⟩ := Config.getRoot_readOver_initialConfig.mp hroot
    rw [Config.readOver_initialConfig] at horigin
    exact ⟨hrun, hport, AdGuardInstance.samePrinted_readOver_initialConfig.mp horigin, hfeatures⟩
  · rintro ⟨hrun, hport, hapiPath, hfeatures⟩
    have hroot := Config.getRoot_readOver_initialConfig.mpr ⟨hrun, hport, hfeatures⟩
    refine ⟨_, _, hread, hroot, ?_, hlist⟩
    rw [Config.readOver_initialConfig]
    exact AdGuardInstance.samePrinted_readOver_initialConfig.mpr hapiPath

/-- The document of a configuration is printed, and reads back exactly if the configuration keeps
the defaults that are not zero. -/
theorem readsBack_iff (fs : FileSystem) (render : Node Scalar → Except ConfigErr String)
    (info : BuildInfo) (ac : AppConfig) (env : List String) (originVersion : String)
    (replicaVersions : List String) (path text : String)
    (hrender : render ac.document = .ok text) (hfile : fs.Holds path text ac.document) :
    AppConfig.printInternal render info ac env originVersion replicaVersions =
        .ok (AppConfig.printHeader info originVersion replicaVersions ++ text ++
          ac.printFooter env) ∧
      (fs.ReadsBack path ac.cfg ↔ ac.cfg.KeepsDefaults) := by
  refine ⟨?_, hfile.reads_iff⟩
  rw [AppConfig.printInternal, hrender]
  rfl

/-- A system where every path is a file with the text of a document. -/
def FileSystem.ofDocument (text : String) (doc : Node Scalar) : FileSystem where
  userHomeDir := .error (.package "$HOME is not defined")
  join a b := a ++ "/" ++ b
  stat _ := true
  readFile _ := .ok text
  validate _ := .ok ()
  unmarshal content cfg :=
    if content = text then ((Config.codec.decode doc cfg).map .ok).getD
      (.error (.package "yaml: unmarshal errors"))
    else .error (.package "yaml: not the document")

theorem FileSystem.holds_ofDocument (path text : String) (doc : Node Scalar) :
    (ofDocument text doc).Holds path text doc where
  stat := rfl
  readFile := rfl
  unmarshal cfg cfg' h := by
    rw [ofDocument]
    simp [h]

theorem FileSystem.validateSchema_ofDocument (path text : String) (doc : Node Scalar) :
    (ofDocument text doc).validateSchema path = .ok () := by
  have hyaml : (ofDocument text doc).validateYAML text = .ok () := by
    unfold validateYAML
    split_ifs <;> rfl
  exact hyaml

/-- The text of the document of the defaults, with an origin. -/
def defaultsText (runOnStart : Bool) : String :=
  "origin:\n    url: http://a\n    webURL: http://a\n    apiPath: /control\n" ++
    "    insecureSkipVerify: false\n    autoSetup: false\n" ++
    (if runOnStart then "runOnStart: true\n" else "") ++
    "api:\n    port: 8080\nfeatures:\n    dns:\n        accessLists: true\n" ++
    "        serverConfig: true\n        rewrites: true\n    dhcp:\n" ++
    "        serverConfig: true\n        staticLeases: true\n    generalSettings: true\n" ++
    "    queryLogConfig: true\n    statsConfig: true\n    clientSettings: true\n" ++
    "    services: true\n    filters: true\n    theme: true\n    tlsConfig: false\n"

/-- The defaults, with an origin. -/
theorem readsBack_iff_sample :
    let ac : AppConfig :=
      { cfg := { initialConfig with
          origin := { url := "http://a", webURL := "http://a", apiPath := "/control" }
          replica := none }
        filePath := ""
        content := "" }
    (FileSystem.ofDocument (defaultsText true) ac.document).ReadsBack "a.yaml" ac.cfg ↔
      ac.cfg.KeepsDefaults :=
  (readsBack_iff (FileSystem.ofDocument _ _) (fun _ => .ok _) ⟨"v1", "b", "linux", "amd64"⟩ _ []
    "v0" [] "a.yaml" _ rfl (FileSystem.holds_ofDocument _ _ _)).2

/-- The defaults, but for a run on start, with an origin. -/
theorem not_readsBack :
    let c : Config := { initialConfig with
      origin := { url := "http://a", webURL := "http://a", apiPath := "/control" }
      replica := none
      runOnStart := false }
    ¬(FileSystem.ofDocument (defaultsText false) (Config.codec.encode c)).ReadsBack "a.yaml" c := by
  intro c h
  have hkeeps := (FileSystem.holds_ofDocument _ _ _).reads_iff.mp h
  cases hkeeps.runOnStart

end AghSync
