import AghSync.Program

/-!
# Starting from what was printed

The printed document as the configuration file. If the schema accepts it, and neither the
environment nor the command line says anything, the program runs with what the file says over the
defaults (`Config.reread`). That is the configuration that was printed exactly if this keeps the
defaults that are not zero, and has an origin that does not say whether its DHCP server is enabled
(`Machine.uses_again_iff`).
-/

namespace AghSync

/-! ## Nothing else is said -/

/-- No variable of the environment is about the configuration. -/
structure Environ.Silent (env : Environ) : Prop where
  root : ∀ f : RootField, env.value f.env = none
  origin : ∀ (f : InstanceField) name, f.env = some name → env.value ("ORIGIN_" ++ name) = none
  replica : ∀ (f : InstanceField) name, f.env = some name → env.value ("REPLICA_" ++ name) = none
  numbered : ∀ n (f : InstanceField) name, f.env = some name →
    env.value (replicaPrefix n ++ name) = none
  unlisted : ∀ x ∈ env.vars, envReplicasURL x.1 = none

section Silent

variable {pkg : EnvPackage} {env : Environ}

theorem Parsers.instanceLayer_eq_none {pre : String} (ps : Parsers)
    (h : ∀ (f : InstanceField) name, f.env = some name → env.value (pre ++ name) = none) :
    ps.instanceLayer env pre = fun _ => none := by
  funext f
  rw [instanceLayer]
  cases hname : f.env with
  | none => rfl
  | some name => rw [Option.bind_some, h f name hname, Option.bind_none]

theorem Environ.Silent.parsable (h : env.Silent) (ps : Parsers) : ps.AllParsable env where
  root f v hv := by
    rw [h.root] at hv
    cases hv
  origin f name v hname hv := by
    rw [h.origin f name hname] at hv
    cases hv
  replica f name v hname hv := by
    rw [h.replica f name hname] at hv
    cases hv
  numbered n f name v hname hv := by
    rw [h.numbered n f name hname] at hv
    cases hv

theorem AdGuardInstance.overlay_none (i : AdGuardInstance) : i.overlay (fun _ => none) = i :=
  rfl

/-- Without variables only the origin changes : it does not say whether its DHCP server is
enabled. -/
theorem Environ.Silent.parseEnv_eq (h : env.Silent) (hpkg : pkg.Overwrites env) (cfg : Config) :
    ∃ cfg', parseEnv pkg env cfg = .ok cfg' ∧ (∀ f, cfg'.getRoot f = cfg.getRoot f) ∧
      cfg'.origin = { cfg.origin with dhcpServerEnabled := none } ∧
      cfg'.replica = some (cfg.replica.getD {}) ∧ cfg'.replicas = cfg.replicas := by
  have hparsable := h.parsable pkg.toParsers
  obtain ⟨cfg', hcfg', hroot, horigin, hreplica, hreplicas⟩ :=
    AghSync.parseEnv_eq hpkg hparsable.root hparsable.origin hparsable.replica cfg
  refine ⟨cfg', hcfg', fun f => ?_, ?_, ?_, hreplicas⟩
  · rw [hroot, Layers.Layer.over_apply, Parsers.rootLayer, h.root]
    rfl
  · rw [horigin, pkg.toParsers.instanceLayer_eq_none h.origin, AdGuardInstance.overlay_none]
  · rw [hreplica, pkg.toParsers.instanceLayer_eq_none h.replica, AdGuardInstance.overlay_none]

/-- Without variables the replicas stay as they are, if there is no single one. -/
theorem Environ.Silent.listReplicas_eq (h : env.Silent) (hpkg : pkg.Overwrites env) {cfg : Config}
    {replica : AdGuardInstance} (hreplica : cfg.replica = some replica) (hurl : replica.url = "")
    (husername : replica.username = "") (hpath : ∀ r ∈ cfg.replicas, r.apiPath ≠ "") :
    listReplicas pkg env cfg = .ok { cfg with replica := none } := by
  have hparsable := h.parsable pkg.toParsers
  have hkept : cfg.replicas.mapIdx (fun k r => (r.overlay
      (pkg.instanceLayer env (replicaPrefix (1 + k)))).withAPIPath) = cfg.replicas := by
    refine List.mapIdx_eq_iff.mpr fun k => ?_
    cases hk : cfg.replicas[k]? with
    | none => rfl
    | some r =>
      have hr : r.apiPath ≠ "" := hpath r (List.mem_of_getElem? hk)
      rw [pkg.toParsers.instanceLayer_eq_none (h.numbered (1 + k)), Option.map_some,
        AdGuardInstance.overlay_none, AdGuardInstance.withAPIPath, if_neg hr]
  rw [listReplicas, hreplica]
  simp only [hurl, husername, and_self, if_true, Option.isSome_none, Bool.false_eq_true, and_false,
    if_false]
  rw [enrichReplicasFromEnv_eq_of_none hpkg hparsable.numbered h.unlisted, hkept]
  rfl

end Silent

/-! ## What the file says over the defaults -/

/-- A configuration has the settings and the instances of another one if it is the same. -/
theorem Config.ext_get {c c' : Config} (hroot : ∀ f, c.getRoot f = c'.getRoot f)
    (horigin : c.origin = c'.origin) (hreplica : c.replica = c'.replica)
    (hreplicas : c.replicas = c'.replicas) : c = c' := by
  obtain ⟨_, _, _, _, _, _, _, ⟨_, _, _, _, ⟨⟩, ⟨⟩⟩, ⟨⟨⟩, ⟨⟩, _⟩⟩ := c
  obtain ⟨_, _, _, _, _, _, _, ⟨_, _, _, _, ⟨⟩, ⟨⟩⟩, ⟨⟨⟩, ⟨⟩, _⟩⟩ := c'
  simp only [mk.injEq, API.mk.injEq, Metrics.mk.injEq, TLS.mk.injEq, Features.mk.injEq,
    DNSFeatures.mk.injEq, DHCPFeatures.mk.injEq]
  exact ⟨horigin, hreplica, hreplicas, hroot .cron, hroot .runOnStart, hroot .printConfigOnly,
    hroot .continueOnError,
    ⟨hroot .apiPort, hroot .apiUsername, hroot .apiPassword, hroot .apiDarkMode,
      ⟨hroot .apiMetricsEnabled, hroot .apiMetricsScrapeInterval,
        hroot .apiMetricsQueryLogLimit⟩,
      hroot .apiTLSCertDir, hroot .apiTLSCertName, hroot .apiTLSKeyName⟩,
    ⟨hroot .dnsAccessLists, hroot .dnsServerConfig, hroot .dnsRewrites⟩,
    ⟨hroot .dhcpServerConfig, hroot .dhcpStaticLeases⟩, hroot .generalSettings,
    hroot .queryLogConfig, hroot .statsConfig, hroot .clientSettings, hroot .services,
    hroot .filters, hroot .theme, hroot .tlsConfig⟩

/-- The configuration that is read from the document of `c`, over the defaults. -/
def Config.reread (c : Config) : Config :=
  { c with
    origin := {
      c.origin with
      apiPath := if c.origin.apiPath = "" then "/control" else c.origin.apiPath
      dhcpServerEnabled := none
      host := ""
      webHost := "" }
    replicas := c.replicas.map fun r => { r with host := "", webHost := "" }
    runOnStart := true
    api := { c.api with port := if c.api.port = 0 then 8080 else c.api.port }
    features := if c.features = {} then .new true else c.features }

/-- The program with the document that is printed for `cfg` as its file, where nothing else is
said. -/
structure Machine.Reloads (m : Machine) (cfg : Config) : Prop where
  overwrites : m.pkg.Overwrites m.env
  silent : m.env.Silent
  flags : m.flags.Parsed fun _ => none
  file : ∃ path text, m.fs.configFilePath m.cfgFile = .ok path ∧
    m.render (Config.codec.encode cfg) = .ok text ∧
    m.fs.Holds path text (Config.codec.encode cfg)

/-- The schema accepts the configuration file. -/
def Machine.Accepts (m : Machine) : Prop :=
  ∃ path, m.fs.configFilePath m.cfgFile = .ok path ∧ m.fs.validateSchema path = .ok ()

/-- The program with other files, another environment and another command line. -/
def Machine.restarted (m : Machine) (fs : FileSystem) (env : Environ) (cfgFile : String)
    (flags : Flags) : Machine :=
  { m with fs := fs, env := env, cfgFile := cfgFile, flags := flags }

/-- The program runs with `cfg`. -/
def Machine.Uses (m : Machine) (cfg : Config) : Prop :=
  ∃ app, m.get = .ok app ∧ app.cfg.init m.text = .ok cfg

section Reload

variable {m : Machine} {cfg : Config}

theorem CommandLine.layer_none : CommandLine.layer (fun _ => none) = fun _ => none := by
  funext f
  cases f with
  | root f => cases f <;> rfl
  | origin f => cases f <;> rfl
  | replica f => cases f <;> rfl

theorem AdGuardInstance.readOver_zero (i : AdGuardInstance) :
    codec.readOver i {} = { i with host := "", webHost := "" } := by
  have hread := i.readOver_apiPath ""
  have hpath : (if i.apiPath = "" then "" else i.apiPath) = i.apiPath := by
    split_ifs with hempty
    · exact hempty.symm
    · rfl
  rwa [hpath] at hread

/-- What is read from the document, before the environment. -/
theorem Config.Listed.readOver (hlisted : cfg.Listed) :
    Config.codec.readOver cfg initialConfig =
      { cfg.reread with
        origin := { cfg.reread.origin with dhcpServerEnabled := cfg.origin.dhcpServerEnabled }
        replica := initialConfig.replica } := by
  have hsingle : (Config.codec.readOver cfg initialConfig).replica = initialConfig.replica := by
    simp [Config.codec, Config.members, hlisted.replica, initialConfig]
  rw [Config.readOver_initialConfig, hsingle]
  simp only [AdGuardInstance.readOver_zero]
  rw [show initialConfig.origin = { apiPath := "/control" } from rfl,
    AdGuardInstance.readOver_apiPath]
  rfl

/-- What is loaded is what the file says over the defaults. -/
theorem Machine.Reloads.get_eq (h : m.Reloads cfg) (hlisted : cfg.Listed) (haccepts : m.Accepts) :
    ∃ app, m.get = .ok app ∧ app.cfg = cfg.reread := by
  obtain ⟨path, text, hpath, -, hholds⟩ := h.file
  obtain ⟨path', hpath', hvalid⟩ := haccepts
  obtain rfl := Except.ok.inj (hpath.symm.trans hpath')
  have hread := hholds.readConfig_eq initialConfig
  obtain ⟨cfg₂, hcfg₂, hget₂, hlist₂⟩ :=
    h.flags.readFlags_eq_ok rfl (Config.codec.readOver cfg initialConfig)
  obtain ⟨cfg₃, hcfg₃, hroot₃, horigin₃, hreplica₃, hlist₃⟩ :=
    h.silent.parseEnv_eq h.overwrites cfg₂
  rw [CommandLine.layer_none] at hget₂
  have hsame : cfg₂.get = (Config.codec.readOver cfg initialConfig).get := hget₂
  rw [hlisted.readOver] at hsame hlist₂
  have horigin : cfg₂.origin = _ :=
    AdGuardInstance.ext_get fun f => congrFun hsame (.origin f)
  have hreplica : cfg₂.replica.getD {} = { apiPath := "/control" } :=
    AdGuardInstance.ext_get fun f => congrFun hsame (.replica f)
  have hpaths : ∀ r ∈ cfg₃.replicas, r.apiPath ≠ "" := by
    rw [hlist₃, hlist₂]
    exact List.forall_mem_map.mpr hlisted.apiPath
  rw [hreplica] at hreplica₃
  have hlast := h.silent.listReplicas_eq h.overwrites hreplica₃ rfl rfl hpaths
  refine ⟨⟨{ cfg₃ with replica := none }, path, text⟩, ?_, ?_⟩
  · simp only [Machine.get, AppConfig.get, hpath, hvalid, hread, hcfg₂, hcfg₃, hlast, bind,
      Except.bind]
    rfl
  · refine Config.ext_get (fun f => ?_) ?_ hlisted.replica.symm (hlist₃.trans hlist₂)
    · exact (hroot₃ f).trans (congrFun hsame (.root f))
    · rw [horigin] at horigin₃
      exact horigin₃

/-- The hosts of an instance that has been set up come from its URLs. -/
theorem AdGuardInstance.init_again {text : Net.Bytes → String} {i j k : AdGuardInstance}
    (h : i.init text = .ok j) (hurl : k.url = j.url) (hweb : k.webURL = j.webURL) :
    k.init text = .ok { k with host := j.host, webHost := j.webHost } := by
  rw [init_eq_ok]
  obtain ⟨u, hu, ⟨-, rfl⟩ | ⟨hne, u', hu', rfl⟩⟩ := init_eq_ok.mp h
  · have hsame : k.webURL = k.url := hweb.trans hurl.symm
    refine ⟨u, by rw [hurl]; exact hu, ?_⟩
    by_cases hempty : k.webURL = ""
    · refine Or.inl ⟨hempty, ?_⟩
      rw [← hsame]
    · exact Or.inr ⟨hempty, u, by rw [hweb]; exact hu, rfl⟩
  · exact ⟨u, by rw [hurl]; exact hu,
      Or.inr ⟨by rw [hweb]; exact hne, u', by rw [hweb]; exact hu', rfl⟩⟩

/-- What is read from the document, with the hosts. -/
def Config.reused (c : Config) : Config :=
  { c.reread with
    origin := { c.reread.origin with host := c.origin.host, webHost := c.origin.webHost }
    replicas := c.replicas }

theorem Config.init_reread {text : Net.Bytes → String} {cfg₀ : Config}
    (h : cfg₀.init text = .ok cfg) : cfg.reread.init text = .ok cfg.reused := by
  obtain ⟨origin, rs, ho, hrs, rfl⟩ := Config.init_eq_ok.mp h
  refine Config.init_eq_ok.mpr ⟨_, rs, AdGuardInstance.init_again ho rfl rfl, ?_, rfl⟩
  refine List.forall₂_map_left_iff.mpr (List.forall₂_same.mpr fun r hr => ?_)
  obtain ⟨i, -, hi⟩ := exists_of_forall₂ hrs r hr
  exact AdGuardInstance.init_again hi rfl rfl

theorem Config.reused_eq_iff :
    cfg.reused = cfg ↔ cfg.KeepsDefaults ∧ cfg.origin.dhcpServerEnabled = none := by
  constructor
  · intro h
    have horigin : cfg.reused.origin = cfg.origin := by rw [h]
    have hport : cfg.reused.api.port = cfg.api.port := by rw [h]
    have hfeatures : cfg.reused.features = cfg.features := by rw [h]
    have hrun : cfg.reused.runOnStart = cfg.runOnStart := by rw [h]
    have hpath : cfg.reused.origin.apiPath = cfg.origin.apiPath := by rw [horigin]
    have hdhcp : cfg.reused.origin.dhcpServerEnabled = cfg.origin.dhcpServerEnabled := by
      rw [horigin]
    refine ⟨⟨hrun.symm, fun hzero => ?_, fun hzero => ?_, fun hzero => ?_⟩, hdhcp.symm⟩
    · simp [reused, reread, hzero] at hport
    · simp [reused, reread, hzero] at hpath
    · simp [reused, reread, hzero, Features.new] at hfeatures
  · rintro ⟨⟨hrun, hport, hpath, hfeatures⟩, hdhcp⟩
    refine Config.ext_get (fun f => ?_) (AdGuardInstance.ext_get fun f => ?_) rfl rfl
    · cases f
      case runOnStart => exact hrun.symm
      case apiPort => exact if_neg hport
      all_goals simp only [getRoot, reused, reread, if_neg hfeatures]
    · cases f
      case apiPath => exact if_neg hpath
      case dhcpServerEnabled => exact hdhcp.symm
      all_goals rfl

/-- A file that the schema refuses is not loaded. -/
theorem Machine.Uses.accepts (h : m.Uses cfg) : m.Accepts := by
  obtain ⟨app, happ, -⟩ := h
  obtain ⟨path, hpath, h⟩ := bind_eq_ok.mp happ
  obtain ⟨⟨⟩, hvalid, -⟩ := bind_eq_ok.mp h
  exact ⟨path, hpath, hvalid⟩

/-- What the program does is up to the configuration it runs with, unless it prints. -/
theorem Machine.Uses.run_eq (h : m.Uses cfg) (hsync : cfg.printConfigOnly = false) :
    m.run = ((cfg.sync m.cron m.deps m.now).mapError .sync).map fun s => .sync s.1 s.2 := by
  obtain ⟨app, happ, hinit⟩ := h
  rw [Machine.run, happ]
  simp only [Except.mapError, hinit, hsync, bind, Except.bind, Bool.false_eq_true, if_false]
  cases cfg.sync m.cron m.deps m.now <;> rfl

/-- The document that is printed for a configuration, as the configuration file : the program runs
with the very same configuration exactly if the schema accepts the file, the configuration keeps
the defaults that are not zero, and the origin does not say whether its DHCP server is enabled.
Then it starts the same worker, if it is to start one. -/
theorem Machine.uses_again_iff {fs : FileSystem} {env : Environ} {cfgFile : String} {flags : Flags}
    (h : m.Uses cfg) (hreloads : (m.restarted fs env cfgFile flags).Reloads cfg) :
    ((m.restarted fs env cfgFile flags).Uses cfg ↔
        (m.restarted fs env cfgFile flags).Accepts ∧ cfg.KeepsDefaults ∧
          cfg.origin.dhcpServerEnabled = none) ∧
      ((m.restarted fs env cfgFile flags).Uses cfg → cfg.printConfigOnly = false →
        (m.restarted fs env cfgFile flags).run = m.run) := by
  refine ⟨?_, fun h' hsync => (h'.run_eq hsync).trans (h.run_eq hsync).symm⟩
  obtain ⟨app, happ, hinit⟩ := h
  have hlisted := (Machine.listed_of_get happ).init hinit
  have hreused : (m.restarted fs env cfgFile flags).Accepts →
      ∃ app', (m.restarted fs env cfgFile flags).get = .ok app' ∧
        app'.cfg.init m.text = .ok cfg.reused := fun haccepts => by
    obtain ⟨app', happ', hread⟩ := hreloads.get_eq hlisted haccepts
    refine ⟨app', happ', ?_⟩
    rw [hread]
    exact Config.init_reread hinit
  rw [← Config.reused_eq_iff]
  constructor
  · intro huses
    obtain ⟨app', happ', hinit'⟩ := hreused huses.accepts
    obtain ⟨app'', happ'', hinit''⟩ := id huses
    obtain rfl := Except.ok.inj (happ'.symm.trans happ'')
    exact ⟨huses.accepts, Except.ok.inj (hinit'.symm.trans hinit'')⟩
  · rintro ⟨haccepts, heq⟩
    obtain ⟨app', happ', hinit'⟩ := hreused haccepts
    exact ⟨app', happ', by rw [← heq]; exact hinit'⟩

/-- The program that is started from a file with the document of the worker's configuration. -/
theorem Machine.uses_again_iff_sample : ∃ text fs env flags,
    sampleMachine.render (Config.codec.encode startedWorker.cfg) = .ok text ∧
      fs.readFile "a.yaml" = .ok text ∧
      (sampleMachine.restarted fs env "a.yaml" flags).Reloads startedWorker.cfg ∧
      (sampleMachine.restarted fs env "a.yaml" flags).run = .ok (.sync startedWorker day) := by
  let doc := Config.codec.encode startedWorker.cfg
  let env : Environ := ⟨[], List.nodup_nil⟩
  let flags := CommandLine.flagSet fun _ => none
  have huses : sampleMachine.Uses startedWorker.cfg := ⟨_, rfl, rfl⟩
  obtain ⟨text, htext⟩ : ∃ text, sampleMachine.render doc = .ok text := ⟨_, rfl⟩
  have hreloads : (sampleMachine.restarted (.ofDocument text doc) env "a.yaml" flags).Reloads
      startedWorker.cfg :=
    { overwrites := samplePackage_overwrites env
      silent := {
        root := fun _ => rfl
        origin := fun _ _ _ => rfl
        replica := fun _ _ _ => rfl
        numbered := fun _ _ _ _ => rfl
        unlisted := List.forall_mem_nil _ }
      flags := CommandLine.flagSet_parsed _
      file := ⟨"a.yaml", text, rfl, htext, FileSystem.holds_ofDocument _ _ _⟩ }
  have haccepts : (sampleMachine.restarted (.ofDocument text doc) env "a.yaml" flags).Accepts :=
    ⟨"a.yaml", rfl, FileSystem.validateSchema_ofDocument _ _ _⟩
  obtain ⟨hiff, hrun⟩ := Machine.uses_again_iff huses hreloads
  have hkeeps : startedWorker.cfg.KeepsDefaults := ⟨rfl, by decide, by decide, by decide⟩
  have huses' := hiff.mpr ⟨haccepts, hkeeps, rfl⟩
  exact ⟨text, _, _, _, htext, rfl, hreloads, (hrun huses' rfl).trans run_sampleMachine⟩

end Reload

end AghSync
