import AghSync.EnvReplicas
import AghSync.Flags

/-!
# Loading the configuration

`AppConfig.get` reads the configuration file over the defaults, then the flags, then the
environment. The instances are parsed with prefixes of their own, and their pointers are nil
meanwhile. The files and the packages that read them are parameters (`FileSystem`).

Every setting ends up as the value of the environment, else of the flag, else of the file, else
the default (`Ordered`), exactly if the file can be decoded and the flag for the dark mode is
not used (`AppConfig.get_ordered_iff`).
-/

open Layers

namespace AghSync

/-! ## Files -/

/-- The files, and the packages that are used to read them : `os`, `filepath`, `yaml` and
`jsonschema`. -/
structure FileSystem where
  userHomeDir : Except ConfigErr String
  join : String → String → String
  stat : String → Bool
  readFile : String → Except ConfigErr String
  validate : String → Except ConfigErr Unit
  unmarshal : String → Config → Except ConfigErr Config

/-- `unicode.IsSpace`. -/
def isSpace (c : Char) : Bool :=
  c.toNat ∈ [0x09, 0x0A, 0x0B, 0x0C, 0x0D, 0x20, 0x85, 0xA0, 0x1680, 0x2028, 0x2029, 0x202F,
    0x205F, 0x3000] || (0x2000 ≤ c.toNat && c.toNat ≤ 0x200A)

namespace FileSystem

variable (fs : FileSystem)

/-- `configFilePath`. -/
def configFilePath (configFile : String) : Except ConfigErr String :=
  if configFile = "" then do
    let home ← fs.userHomeDir
    pure (fs.join home ".adguardhome-sync.yaml")
  else pure configFile

/-- `validateYAML`. -/
def validateYAML (yamlContent : String) : Except ConfigErr Unit :=
  if yamlContent.toList.all isSpace then pure () else fs.validate yamlContent

/-- `validateSchema`. -/
def validateSchema (cfgFile : String) : Except ConfigErr Unit :=
  if fs.stat cfgFile then
    match fs.readFile cfgFile with
    | .ok yamlContent => fs.validateYAML yamlContent
    | .error e =>
      .error (.package ("config file " ++ cfgFile.quote ++ " is invalid: " ++ e.text))
  else pure ()

/-- `readFile`. -/
def readConfig (cfg : Config) (path : String) : Except ConfigErr (String × Config) :=
  if fs.stat path then do
    let content ← fs.readFile path
    let cfg ← fs.unmarshal content cfg
    pure (content, cfg)
  else pure ("", cfg)

end FileSystem

/-! ## Loading -/

/-- `NewFeatures`. -/
def Features.new (enabled : Bool) : Features where
  dns := { accessLists := enabled, serverConfig := enabled, rewrites := enabled }
  dhcp := { serverConfig := enabled, staticLeases := enabled }
  generalSettings := enabled
  queryLogConfig := enabled
  statsConfig := enabled
  clientSettings := enabled
  services := enabled
  filters := enabled
  theme := enabled
  tlsConfig := false

/-- `initialConfig`. -/
def initialConfig : Config where
  runOnStart := true
  origin := { apiPath := "/control" }
  replica := some { apiPath := "/control" }
  api := { port := 8080 }
  features := .new true

/-- `AppConfig`. -/
structure AppConfig where
  cfg : Config
  filePath : String
  content : String

/-- The part of `Get` that parses the environment. The instances are taken out and put back : an
empty origin stands for the nil pointer. The pointers are not nil before, since the schema admits
no file that sets an instance to null. -/
def parseEnv (pkg : EnvPackage) (env : Environ) (cfg : Config) : Except ConfigErr Config := do
  let cfg := cfg.mapOrigin fun i => { i with dhcpServerEnabled := none }
  let replicaDhcpServer := (cfg.replica.getD {}).dhcpServerEnabled
  let cfg := cfg.mapReplica fun i => { i with dhcpServerEnabled := none }
  let replicas := cfg.replicas
  let replica := cfg.replica.getD {}
  let origin := cfg.origin
  let cfg ← pkg.parse env { cfg with replicas := [], replica := none, origin := {} }
  let origin ← pkg.parseWithOptions env "ORIGIN_" origin
  let replica ← pkg.parseWithOptions env "REPLICA_" replica
  let replica := replica.restoreDhcpServer replicaDhcpServer
  pure { cfg with origin := origin, replica := some replica, replicas := replicas }

/-- The part of `Get` that puts the single replica into the list. -/
def listReplicas (pkg : EnvPackage) (env : Environ) (cfg : Config) : Except ConfigErr Config := do
  let cfg := match cfg.replica with
    | some replica =>
      if replica.url = "" ∧ replica.username = "" then { cfg with replica := none } else cfg
    | none => cfg
  if cfg.replicas.length > 0 ∧ cfg.replica.isSome then throw .mixedReplicas
  let cfg := match cfg.replica with
    | some replica => { cfg with replicas := [replica], replica := none }
    | none => cfg
  let replicas ← enrichReplicasFromEnv pkg env cfg.replicas
  pure { cfg with replicas := replicas }

/-- `Get`. -/
def AppConfig.get (fs : FileSystem) (pkg : EnvPackage) (env : Environ) (configFile : String)
    (flags : Option Flags) : Except ConfigErr AppConfig := do
  let path ← fs.configFilePath configFile
  fs.validateSchema path
  let (content, cfg) ← fs.readConfig initialConfig path
  let cfg ← readFlags cfg flags
  let cfg ← parseEnv pkg env cfg
  let cfg ← listReplicas pkg env cfg
  pure { cfg := cfg, filePath := path, content := content }

/-! ## Sources -/

/-- What a configuration file has. -/
structure FileLayer where
  values : Layer ConfigField.Value
  replicas : Option (List AdGuardInstance)

namespace FileSystem

variable (fs : FileSystem) (file : String → Option FileLayer)

/-- Decoding a file into the defaults leaves absent keys untouched. A file without a layer cannot
be decoded. -/
structure Decodes : Prop where
  ok : ∀ content l, file content = some l → ∃ cfg, fs.unmarshal content initialConfig = .ok cfg ∧
    cfg.get = l.values.over initialConfig.get ∧ cfg.replicas = l.replicas.getD []
  error : ∀ content, file content = none → ∃ text,
    fs.unmarshal content initialConfig = .error (.package text)

/-- What the file at a path has. There is nothing in a file that does not exist. -/
def fileLayer (path : String) : Option FileLayer :=
  if fs.stat path then
    match fs.readFile path with
    | .ok content => file content
    | .error _ => none
  else some ⟨fun _ => none, none⟩

variable {fs file} {path : String}

theorem Decodes.readConfig_eq_ok (h : fs.Decodes file) {l : FileLayer}
    (hl : fs.fileLayer file path = some l) : ∃ content cfg,
      fs.readConfig initialConfig path = .ok (content, cfg) ∧
        cfg.get = l.values.over initialConfig.get ∧ cfg.replicas = l.replicas.getD [] := by
  unfold fileLayer at hl
  split_ifs at hl with hstat
  · cases hread : fs.readFile path with
    | error e => simp [hread] at hl
    | ok content =>
      rw [hread] at hl
      obtain ⟨cfg, hcfg, hget⟩ := h.ok content l hl
      refine ⟨content, cfg, ?_, hget⟩
      rw [readConfig, if_pos hstat, hread]
      simp only [bind, Except.bind, hcfg]
      rfl
  · obtain rfl := Option.some.inj hl
    exact ⟨"", initialConfig, by rw [readConfig, if_neg hstat]; rfl, rfl, rfl⟩

/-- A file that is accepted by the schema and cannot be decoded ends the loading. -/
theorem Decodes.readConfig_eq_error (h : fs.Decodes file) (hl : fs.fileLayer file path = none)
    (hvalid : fs.validateSchema path = .ok ()) :
    ∃ text, fs.readConfig initialConfig path = .error (.package text) := by
  unfold fileLayer at hl
  split_ifs at hl with hstat
  rw [validateSchema, if_pos hstat] at hvalid
  cases hread : fs.readFile path with
  | error e => simp [hread] at hvalid
  | ok content =>
    rw [hread] at hl
    obtain ⟨text, htext⟩ := h.error content hl
    refine ⟨text, ?_⟩
    rw [readConfig, if_pos hstat, hread]
    simp only [bind, Except.bind, htext]

end FileSystem

/-- The value of the environment, else of the flag, else of the file, else the default. -/
def setting {F : Type} {V : F → Type} (env flag file : Layer V) (x : (f : F) → V f) :
    (f : F) → V f :=
  (env.on (flag.on file)).over x

/-- Where the settings come from. -/
structure Sources where
  pkg : EnvPackage
  env : Environ
  line : CommandLine
  file : FileLayer

namespace Sources

variable (src : Sources)

/-- The settings that are not about an instance. -/
def root : (f : RootField) → f.Value :=
  setting (src.pkg.rootLayer src.env) (fun f => src.line.layer (.root f))
    (fun f => src.file.values (.root f)) initialConfig.getRoot

/-- The settings of the origin. The file does not say whether its DHCP server is enabled. -/
def origin : (f : InstanceField) → f.Value :=
  setting (src.pkg.instanceLayer src.env "ORIGIN_") (fun f => src.line.layer (.origin f))
    (fun f => if f = .dhcpServerEnabled then none else src.file.values (.origin f))
    initialConfig.origin.get

/-- The settings of the single replica. -/
def replica : (f : InstanceField) → f.Value :=
  setting (src.pkg.instanceLayer src.env "REPLICA_") (fun f => src.line.layer (.replica f))
    (fun f => src.file.values (.replica f)) (fun f => initialConfig.get (.replica f))

/-- A single replica is configured. -/
def Single : Prop :=
  src.replica .url ≠ "" ∨ src.replica .username ≠ ""

/-- Replicas are configured in both ways. -/
def Mixed : Prop :=
  src.Single ∧ src.file.replicas.getD [] ≠ []

/-- The replicas of the file, with the variables of their places. -/
def listed : List AdGuardInstance :=
  (src.file.replicas.getD []).mapIdx fun k replica =>
    (replica.overlay (src.pkg.instanceLayer src.env (replicaPrefix (1 + k)))).withAPIPath

/-- The configuration has the settings of the sources. -/
structure Loaded (cfg : Config) : Prop where
  root : ∀ f, cfg.getRoot f = src.root f
  origin : ∀ f, cfg.origin.get f = src.origin f
  replica : src.Single → ∃ r, cfg.replicas = [r] ∧ ∀ f, r.get f =
    f.normalize ((src.pkg.instanceLayer src.env (replicaPrefix 1)).over src.replica f)

end Sources

/-- The environment has values of the types of the fields. -/
structure Parsers.AllParsable (ps : Parsers) (env : Environ) : Prop where
  root : ps.RootParsable env
  origin : ps.Parsable env "ORIGIN_"
  replica : ps.Parsable env "REPLICA_"
  numbered : ∀ n, ps.Parsable env (replicaPrefix n)

/-- Loading fails for mixed replicas only, and else loads the settings of the sources. -/
def Ordered (src : Sources) (loaded : Except ConfigErr AppConfig) : Prop :=
  (src.Mixed ∧ loaded = .error .mixedReplicas) ∨
    (¬src.Mixed ∧ ∃ app, loaded = .ok app ∧ src.Loaded app.cfg)

/-! ## The steps of loading -/

theorem setting_apply {F : Type} {V : F → Type} (env flag file : Layer V) (x : (f : F) → V f)
    (f : F) : setting env flag file x f =
      (env f).getD ((flag f).getD ((file f).getD (x f))) := by
  rw [setting, ← Layer.over_over, ← Layer.over_over]
  rfl

/-- The pointer is the only field that is nil while the variables are parsed. -/
theorem get_dropDhcpServer (i : AdGuardInstance) {f : InstanceField} (h : f ≠ .dhcpServerEnabled) :
    ({ i with dhcpServerEnabled := none } : AdGuardInstance).get f = i.get f := by
  cases f <;> first | rfl | exact absurd rfl h

section Steps

variable {pkg : EnvPackage} {env : Environ}

theorem parseEnv_eq (hpkg : pkg.Overwrites env) (hroot : pkg.RootParsable env)
    (horigin : pkg.Parsable env "ORIGIN_") (hreplica : pkg.Parsable env "REPLICA_")
    (cfg : Config) : ∃ cfg', parseEnv pkg env cfg = .ok cfg' ∧
      (∀ f, cfg'.getRoot f = (pkg.rootLayer env).over cfg.getRoot f) ∧
      cfg'.origin = ({ cfg.origin with dhcpServerEnabled := none } : AdGuardInstance).overlay
        (pkg.instanceLayer env "ORIGIN_") ∧
      cfg'.replica = some ((cfg.replica.getD {}).overlay (pkg.instanceLayer env "REPLICA_")) ∧
      cfg'.replicas = cfg.replicas := by
  obtain ⟨cfg₁, hcfg₁, hget⟩ :=
    hpkg.parse hroot { cfg with origin := {}, replica := none, replicas := [] } rfl rfl rfl
  have hrestored := restoreDhcpServer_overlay (cfg.replica.getD {})
    (pkg.instanceLayer_dhcpServerEnabled env "REPLICA_")
  refine ⟨{ cfg₁ with
    origin := ({ cfg.origin with dhcpServerEnabled := none } : AdGuardInstance).overlay
      (pkg.instanceLayer env "ORIGIN_")
    replica := some ((cfg.replica.getD {}).overlay (pkg.instanceLayer env "REPLICA_"))
    replicas := cfg.replicas }, ?_, fun f => ?_, rfl, rfl, rfl⟩
  · rw [← hrestored, parseEnv]
    have hparseOrigin := hpkg.parseWithOptions _ horigin
      { cfg.origin with dhcpServerEnabled := none } rfl
    have hparseReplica := hpkg.parseWithOptions _ hreplica
      { cfg.replica.getD {} with dhcpServerEnabled := none } rfl
    simp only [Config.mapOrigin, Config.mapReplica, Option.getD_some, hcfg₁, bind, Except.bind,
      hparseOrigin, hparseReplica]
    rfl
  · rw [Config.getRoot_instances, hget, Layer.over_apply, Layer.over_apply,
      Config.getRoot_instances]

/-- Without numbered URLs the replicas get the variables of their places. -/
theorem enrichReplicasFromEnv_eq_of_none (hpkg : pkg.Overwrites env)
    (hparsable : ∀ n, pkg.Parsable env (replicaPrefix n))
    (hnone : ∀ x ∈ env.vars, envReplicasURL x.1 = none) (replicas : List AdGuardInstance) :
    enrichReplicasFromEnv pkg env replicas = .ok (replicas.mapIdx fun k replica =>
      (replica.overlay (pkg.instanceLayer env (replicaPrefix (1 + k)))).withAPIPath) := by
  have hcollected := collectReplicas_eq replicas [] fun x hx digits hdigits => by
    rw [hnone x hx] at hdigits
    cases hdigits
  have hempty : numberedURLs env.vars = [] := by
    rw [numberedURLs, List.filterMap_eq_nil_iff]
    exact fun x hx => by rw [hnone x hx, Option.map_none]
  rw [enrichReplicasFromEnv, hcollected, hempty]
  exact enrichReplicas_eq hpkg hparsable 1 replicas

/-- There is a URL or a user name. -/
def AdGuardInstance.Configured (i : AdGuardInstance) : Prop :=
  i.url ≠ "" ∨ i.username ≠ ""

/-- The replica is put into the list, if it is configured and the list is empty. If it is not, the
list stays. -/
theorem listReplicas_eq (hpkg : pkg.Overwrites env)
    (hparsable : ∀ n, pkg.Parsable env (replicaPrefix n))
    (hnone : ∀ x ∈ env.vars, envReplicasURL x.1 = none) {cfg : Config} {replica : AdGuardInstance}
    (hreplica : cfg.replica = some replica) :
    (replica.Configured ∧ cfg.replicas ≠ [] ∧
      listReplicas pkg env cfg = .error .mixedReplicas) ∨
    (¬(replica.Configured ∧ cfg.replicas ≠ []) ∧
      ∃ cfg', listReplicas pkg env cfg = .ok cfg' ∧ (∀ f, cfg'.getRoot f = cfg.getRoot f) ∧
        cfg'.origin = cfg.origin ∧ (replica.Configured → cfg'.replicas =
          [(replica.overlay (pkg.instanceLayer env (replicaPrefix 1))).withAPIPath]) ∧
        (¬replica.Configured → cfg'.replicas = cfg.replicas.mapIdx fun k replica =>
          (replica.overlay (pkg.instanceLayer env (replicaPrefix (1 + k)))).withAPIPath)) := by
  by_cases hsingle : replica.url = "" ∧ replica.username = ""
  · have hnot : ¬replica.Configured := by simp [AdGuardInstance.Configured, hsingle]
    refine Or.inr ⟨fun h => hnot h.1, { cfg with
      replica := none
      replicas := cfg.replicas.mapIdx fun k replica =>
        (replica.overlay (pkg.instanceLayer env (replicaPrefix (1 + k)))).withAPIPath },
      ?_, fun f => ?_, rfl, fun h => absurd h hnot, fun _ => rfl⟩
    · rw [listReplicas, hreplica]
      simp only [if_pos hsingle, Option.isSome_none, Bool.false_eq_true, and_false, if_false]
      simp only [enrichReplicasFromEnv_eq_of_none hpkg hparsable hnone]
      rfl
    · exact Config.getRoot_instances cfg cfg.origin _ _ f
  · have hconfigured : replica.Configured := not_and_or.mp hsingle
    by_cases hlist : cfg.replicas = []
    · refine Or.inr ⟨fun h => h.2 hlist, { cfg with
        replica := none
        replicas := [(replica.overlay (pkg.instanceLayer env (replicaPrefix 1))).withAPIPath] },
        ?_, fun f => ?_, rfl, fun _ => rfl, fun h => absurd hconfigured h⟩
      · rw [listReplicas, hreplica]
        simp only [if_neg hsingle, hlist, List.length_nil, Nat.lt_irrefl, gt_iff_lt, false_and,
          if_false]
        simp only [hreplica, enrichReplicasFromEnv_eq_of_none hpkg hparsable hnone]
        rfl
      · exact Config.getRoot_instances cfg cfg.origin _ _ f
    · have hlength : cfg.replicas.length > 0 := List.length_pos_of_ne_nil hlist
      refine Or.inl ⟨hconfigured, hlist, ?_⟩
      rw [listReplicas, hreplica]
      simp only [if_neg hsingle, hlength, hreplica, Option.isSome_some, and_self, if_true]
      rfl

end Steps

/-! ## Precedence -/

section Precedence

variable {fs : FileSystem} {pkg : EnvPackage} {env : Environ} {configFile path : String}
  {flags : Flags} {line : CommandLine} {file : String → Option FileLayer}

/-- The file, then the flags, then the environment lie over the defaults. Without a single replica
the replicas of the file are loaded. -/
theorem AppConfig.get_loaded {l : FileLayer} (hpkg : pkg.Overwrites env)
    (henv : pkg.AllParsable env) (hnone : ∀ x ∈ env.vars, envReplicasURL x.1 = none)
    (hflags : flags.Parsed line) (hdark : line .apiDarkMode = none) (hdecodes : fs.Decodes file)
    (hl : fs.fileLayer file path = some l) (hpath : fs.configFilePath configFile = .ok path)
    (hvalid : fs.validateSchema path = .ok ()) :
    (Sources.mk pkg env line l).Mixed ∧
        AppConfig.get fs pkg env configFile (some flags) = .error .mixedReplicas ∨
      ¬(Sources.mk pkg env line l).Mixed ∧
        ∃ app, AppConfig.get fs pkg env configFile (some flags) = .ok app ∧
          (Sources.mk pkg env line l).Loaded app.cfg ∧
          (¬(Sources.mk pkg env line l).Single →
            app.cfg.replicas = (Sources.mk pkg env line l).listed) := by
  obtain ⟨content, cfg₁, hcfg₁, hget₁, hlist₁⟩ := hdecodes.readConfig_eq_ok hl
  obtain ⟨cfg₂, hcfg₂, hget₂, hlist₂⟩ := hflags.readFlags_eq_ok hdark cfg₁
  obtain ⟨cfg₃, hcfg₃, hroot, horigin, hreplica, hlist₃⟩ :=
    parseEnv_eq hpkg henv.root henv.origin henv.replica cfg₂
  rw [hget₁] at hget₂
  have hloaded : AppConfig.get fs pkg env configFile (some flags) =
      (listReplicas pkg env cfg₃).map fun cfg => ⟨cfg, path, content⟩ := by
    simp only [AppConfig.get, hpath, hvalid, hcfg₁, hcfg₂, hcfg₃, bind, Except.bind]
    cases listReplicas pkg env cfg₃ <;> rfl
  have hroot' : ∀ f, cfg₃.getRoot f = (Sources.mk pkg env line l).root f := fun f => by
    rw [hroot, Sources.root, setting_apply, Layer.over_apply]
    exact congrArg _ (congrFun hget₂ (.root f))
  have horigin' : ∀ f, cfg₃.origin.get f = (Sources.mk pkg env line l).origin f := fun f => by
    rw [horigin, AdGuardInstance.get_overlay, Sources.origin, setting_apply, Layer.over_apply]
    by_cases hf : f = .dhcpServerEnabled
    · subst hf
      rfl
    · rw [get_dropDhcpServer cfg₂.origin hf, if_neg hf]
      exact congrArg _ (congrFun hget₂ (.origin f))
  have hreplica' : ∀ f, ((cfg₂.replica.getD {}).overlay (pkg.instanceLayer env "REPLICA_")).get f =
      (Sources.mk pkg env line l).replica f := fun f => by
    rw [AdGuardInstance.get_overlay, Sources.replica, setting_apply, Layer.over_apply]
    exact congrArg _ (congrFun hget₂ (.replica f))
  have hlist : cfg₃.replicas = l.replicas.getD [] := hlist₃.trans (hlist₂.trans hlist₁)
  have hsingle : (Sources.mk pkg env line l).Single ↔
      ((cfg₂.replica.getD {}).overlay (pkg.instanceLayer env "REPLICA_")).Configured := by
    rw [Sources.Single, ← hreplica' .url, ← hreplica' .username]
    rfl
  rcases listReplicas_eq hpkg henv.numbered hnone hreplica with ⟨hconfigured, hne, herror⟩ |
    ⟨hnot, cfg₄, hcfg₄, hroot₄, horigin₄, hreplicas₄, hlist₄⟩
  · exact Or.inl ⟨⟨hsingle.mpr hconfigured, hlist ▸ hne⟩, by rw [hloaded, herror]; rfl⟩
  · refine Or.inr ⟨fun h => hnot ⟨hsingle.mp h.1, hlist ▸ h.2⟩, ⟨cfg₄, path, content⟩,
      by rw [hloaded, hcfg₄]; rfl, ⟨fun f => (hroot₄ f).trans (hroot' f),
        fun f => by rw [horigin₄, horigin'], fun h => ⟨_, hreplicas₄ (hsingle.mp h), fun f => ?_⟩⟩,
      fun h => ?_⟩
    · rw [get_withAPIPath, AdGuardInstance.get_overlay, Layer.over_apply, hreplica',
        Layer.over_apply]
    · exact (hlist₄ fun hconfigured => h (hsingle.mpr hconfigured)).trans (by rw [hlist]; rfl)

theorem AppConfig.get_ordered {l : FileLayer} (hpkg : pkg.Overwrites env)
    (henv : pkg.AllParsable env) (hnone : ∀ x ∈ env.vars, envReplicasURL x.1 = none)
    (hflags : flags.Parsed line) (hdark : line .apiDarkMode = none) (hdecodes : fs.Decodes file)
    (hl : fs.fileLayer file path = some l) (hpath : fs.configFilePath configFile = .ok path)
    (hvalid : fs.validateSchema path = .ok ()) :
    Ordered ⟨pkg, env, line, l⟩ (AppConfig.get fs pkg env configFile (some flags)) := by
  rcases AppConfig.get_loaded hpkg henv hnone hflags hdark hdecodes hl hpath hvalid with
    hmixed | ⟨hnot, app, happ, hloaded, -⟩
  · exact Or.inl hmixed
  · exact Or.inr ⟨hnot, app, happ, hloaded⟩

/-- An error of a package is neither of the two results. -/
theorem not_ordered_of_package (src : Sources) (text : String) :
    ¬Ordered src (.error (.package text)) := by
  rintro (⟨-, h⟩ | ⟨-, app, h, -⟩)
  · cases h
  · cases h

/-- Every setting comes from the first of its sources that has it, exactly if the file can be
decoded and the flag for the dark mode is not used. -/
theorem AppConfig.get_ordered_iff (fs : FileSystem) (pkg : EnvPackage) (env : Environ)
    (configFile path : String) (flags : Flags) (line : CommandLine)
    (file : String → Option FileLayer) (hpkg : pkg.Overwrites env)
    (henv : pkg.AllParsable env) (hnone : ∀ x ∈ env.vars, envReplicasURL x.1 = none)
    (hflags : flags.Parsed line) (hdecodes : fs.Decodes file)
    (hpath : fs.configFilePath configFile = .ok path) (hvalid : fs.validateSchema path = .ok ()) :
    Ordered ⟨pkg, env, line, (fs.fileLayer file path).getD ⟨fun _ => none, none⟩⟩
        (AppConfig.get fs pkg env configFile (some flags)) ↔
      (fs.fileLayer file path).isSome ∧ line .apiDarkMode = none := by
  cases hl : fs.fileLayer file path with
  | none =>
    obtain ⟨text, htext⟩ := hdecodes.readConfig_eq_error hl hvalid
    have hfails : AppConfig.get fs pkg env configFile (some flags) = .error (.package text) := by
      simp only [AppConfig.get, hpath, hvalid, htext, bind, Except.bind]
    rw [hfails]
    exact iff_of_false (not_ordered_of_package _ text) fun h => by cases h.1
  | some l =>
    cases hdark : line .apiDarkMode with
    | none =>
      exact iff_of_true (AppConfig.get_ordered hpkg henv hnone hflags hdark hdecodes hl hpath
        hvalid) ⟨rfl, rfl⟩
    | some v =>
      obtain ⟨content, cfg, hcfg, -⟩ := hdecodes.readConfig_eq_ok hl
      obtain ⟨text, htext⟩ := hflags.readFlags_eq_error (by rw [hdark]; rfl) cfg
      have hfails : AppConfig.get fs pkg env configFile (some flags) = .error (.package text) := by
        simp only [AppConfig.get, hpath, hvalid, hcfg, htext, bind, Except.bind]
      rw [hfails]
      exact iff_of_false (not_ordered_of_package _ text) fun h => by cases h.2

end Precedence

/-! ## Examples -/

/-- One file, with one key. -/
def sampleFiles : FileSystem where
  userHomeDir := .ok "/root"
  join home name := home ++ "/" ++ name
  stat path := path = "config.yaml"
  readFile path :=
    if path = "config.yaml" then .ok "cron: \"@daily\""
    else .error (.package ("open " ++ path ++ ": no such file or directory"))
  validate _ := .ok ()
  unmarshal content cfg :=
    if content = "cron: \"@daily\"" then .ok { cfg with cron := "@daily" }
    else .error (.package "yaml: cannot unmarshal")

/-- What the file has. -/
def sampleLayer (content : String) : Option FileLayer :=
  if content = "cron: \"@daily\"" then some
    { values
        | .root .cron => some "@daily"
        | _ => none
      replicas := none }
  else none

theorem sampleFiles_decodes : sampleFiles.Decodes sampleLayer where
  ok content l hl := by
    unfold sampleLayer at hl
    split_ifs at hl with hcontent
    obtain rfl := Option.some.inj hl
    refine ⟨{ initialConfig with cron := "@daily" }, if_pos hcontent, funext fun f => ?_, rfl⟩
    cases f with
    | root f => cases f <;> rfl
    | origin f => rfl
    | replica f => rfl
  error content hl := by
    unfold sampleLayer at hl
    split_ifs at hl with hcontent
    exact ⟨_, if_neg hcontent⟩

/-- The URLs of the origin and of the single replica. -/
def twoURLs : Environ where
  vars := [("REPLICA_URL", "http://b"), ("ORIGIN_URL", "http://a")]
  nodup := by decide

theorem twoURLs_parsable : sampleParsers.AllParsable twoURLs where
  root f v hv := by
    have hname : f.env ∈ twoURLs.vars.map Prod.fst :=
      List.mem_map_of_mem (Environ.value_eq_some.mp hv).1
    cases f <;> exact absurd hname (by decide)
  origin := sampleParsers_parsable (by decide) _
  replica := sampleParsers_parsable (by decide) _
  numbered _ := sampleParsers_parsable (by decide) _

/-- The command line `--replica-username u`. -/
def withUsername : CommandLine
  | .replicaUsername => some "u"
  | _ => none

theorem AppConfig.get_ordered_iff_sample :
    Ordered ⟨samplePackage, twoURLs, withUsername,
        (sampleFiles.fileLayer sampleLayer "config.yaml").getD ⟨fun _ => none, none⟩⟩
        (AppConfig.get sampleFiles samplePackage twoURLs "config.yaml"
          (some withUsername.flagSet)) ↔
      (sampleFiles.fileLayer sampleLayer "config.yaml").isSome ∧ withUsername .apiDarkMode = none :=
  AppConfig.get_ordered_iff _ _ _ _ _ _ _ _ (samplePackage_overwrites _) twoURLs_parsable
    (by decide) withUsername.flagSet_parsed sampleFiles_decodes rfl rfl

/-- The command line `--api-dark-mode true`. -/
def withDarkMode : CommandLine
  | .apiDarkMode => some "true"
  | _ => none

/-- The getter for truth values fails for the flag of the dark mode. -/
theorem AppConfig.not_ordered :
    samplePackage.Overwrites twoURLs ∧ withDarkMode.flagSet.Parsed withDarkMode ∧
      sampleFiles.Decodes sampleLayer ∧ samplePackage.AllParsable twoURLs ∧
      (∀ x ∈ twoURLs.vars, envReplicasURL x.1 = none) ∧
      sampleFiles.validateSchema "config.yaml" = .ok () ∧
      ∃ l, sampleFiles.fileLayer sampleLayer "config.yaml" = some l ∧
        ¬Ordered ⟨samplePackage, twoURLs, withDarkMode, l⟩ (AppConfig.get sampleFiles samplePackage
          twoURLs "config.yaml" (some withDarkMode.flagSet)) := by
  refine ⟨samplePackage_overwrites _, withDarkMode.flagSet_parsed, sampleFiles_decodes,
    twoURLs_parsable, by decide, rfl, _, rfl, ?_⟩
  exact not_ordered_of_package _ "trying to get another type of value of flag api-dark-mode"

end AghSync
