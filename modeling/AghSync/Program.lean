import AghSync.Connect
import AghSync.Http
import AghSync.PrintConfig
import AghSync.Schedule
import AghSync.Status

/-!
# The program

The command `run` loads the configuration, reads the hosts off the URLs of the instances, and then
either prints the configuration or starts the worker. To print, it asks every instance for its
version, and changes none (`Machine.prints`).

The worker is started exactly for a configuration that can be synced, and runs with the settings
of the sources in their order (`Machine.started_ordered`). Since the loader leaves no replica
without an API path, the status page asks the very replicas that a sync writes to. So an instance
a sync can change is one that a good health check has reached (`Machine.written_reached`).
-/

open Interaction Interaction.Prog

namespace AghSync

/-! ## Hosts -/

/-- `AdGuardInstance.Init`, where `text` is the string of some bytes. -/
def AdGuardInstance.init (text : Net.Bytes → String) (i : AdGuardInstance) :
    Except Net.ParseErr AdGuardInstance := do
  let u ← Net.URL.parse (Net.bytes i.url)
  let i := { i with host := text u.host }
  if i.webURL = "" then pure { i with webHost := i.host, webURL := i.url } else
  let u ← Net.URL.parse (Net.bytes i.webURL)
  pure { i with webHost := text u.host }

/-- `Config.Init`. The single replica is not looked at. -/
def Config.init (text : Net.Bytes → String) (cfg : Config) : Except Net.ParseErr Config := do
  let origin ← cfg.origin.init text
  let replicas ← cfg.replicas.mapM (AdGuardInstance.init text)
  pure { cfg with origin := origin, replicas := replicas }

/-! ## Printing -/

/-- `aghVersion`. -/
def aghVersion (p : Party) : Go String := do
  match ← perform (.createClient p) with
  | .error _ => pure "N/A"
  | .ok () =>
    match ← perform (.read p .status) with
    | .error _ => pure "N/A"
    | .ok stats => pure stats.version

/-- The versions of the replicas. -/
def aghVersions : List AdGuardInstance → Go (List String)
  | [] => pure []
  | replica :: replicas => do
    let version ← aghVersion (.replica replica)
    let versions ← aghVersions replicas
    pure (version :: versions)

/-- `AppConfig.Print`. The text is logged. -/
def AppConfig.print (render : Yaml.Node Scalar → Except ConfigErr String) (info : BuildInfo)
    (ac : AppConfig) (env : List String) : Go (Except ConfigErr String) := do
  let originVersion ← aghVersion .origin
  let replicaVersions ← aghVersions ac.cfg.replicas
  pure (ac.printInternal render info env originVersion replicaVersions)

/-! ## Starting -/

/-- `Sync`, up to where the worker is made. `Get` has put the single replica into the list. -/
def Config.sync (pkg : CronPackage) (deps : Deps) (cfg : Config) (now : ℤ) :
    Except String (Worker × ℤ) :=
  if cfg.origin.url = "" then .error "origin URL is required"
  else if (cfg.uniqueReplicas .stored).length = 0 then .error "no replicas configured"
  else Worker.setup pkg deps cfg now

/-- What the program is given : files, environment and command line, and the packages it uses. -/
structure Machine where
  fs : FileSystem
  pkg : EnvPackage
  env : Environ
  cfgFile : String
  flags : Flags
  text : Net.Bytes → String
  cron : CronPackage
  deps : Deps
  render : Yaml.Node Scalar → Except ConfigErr String
  info : BuildInfo
  now : ℤ

/-- What the program does after loading : print, or sync with a worker. -/
inductive Start
  | print (p : Go (Except ConfigErr String))
  | sync (w : Worker) (nextSyncTime : ℤ)

/-- The errors the program ends with before. -/
inductive StartErr
  | config (e : ConfigErr)
  | url (e : Net.ParseErr)
  | sync (text : String)
  deriving DecidableEq

namespace Machine

variable (m : Machine)

/-- `config.Get`. -/
def get : Except ConfigErr AppConfig :=
  AppConfig.get m.fs m.pkg m.env m.cfgFile (some m.flags)

/-- `os.Environ`. -/
def environ : List String :=
  m.env.vars.map fun x => x.1 ++ "=" ++ x.2

/-- The command `run`. -/
def run : Except StartErr Start := do
  let app ← m.get.mapError .config
  let cfg ← (app.cfg.init m.text).mapError .url
  if cfg.printConfigOnly then
    pure (.print (AppConfig.print m.render m.info { app with cfg := cfg } m.environ))
  else
    let (w, nextSyncTime) ← (cfg.sync m.cron m.deps m.now).mapError .sync
    pure (.sync w nextSyncTime)

end Machine

/-! ## A program -/

/-- The text of a scalar, which is quoted if it starts with `@`. -/
def Scalar.text : Scalar → String
  | string s => if s.startsWith "@" then "\"" ++ s ++ "\"" else s
  | bool b => toString b
  | int n | duration n => toString n

mutual

/-- The lines of a document. -/
def documentLines : Yaml.Node Scalar → List String
  | .null => ["null"]
  | .scalar s => [s.text]
  | .sequence ns => itemLines ns
  | .mapping kvs => entryLines kvs

def itemLines : List (Yaml.Node Scalar) → List String
  | [] => []
  | n :: ns => (match documentLines n with
    | [] => ["- {}"]
    | l :: ls => ("- " ++ l) :: ls.map ("  " ++ ·)) ++ itemLines ns

def entryLines : List (String × Yaml.Node Scalar) → List String
  | [] => []
  | (k, .scalar s) :: kvs => (k ++ ": " ++ s.text) :: entryLines kvs
  | (k, n) :: kvs => (k ++ ":") :: (documentLines n).map ("    " ++ ·) ++ entryLines kvs

end

/-- A day. -/
def day : ℤ :=
  86400000000000

/-- A configuration file with a cron expression, the URLs in the environment, and a user name on
the command line. -/
def sampleMachine : Machine where
  fs := sampleFiles
  pkg := samplePackage
  env := twoURLs
  cfgFile := "config.yaml"
  flags := withUsername.flagSet
  text bs := String.ofList (bs.map fun b => Char.ofNat b.toNat)
  cron := {
    parseStandard := fun spec =>
      if spec = "@daily" then .ok fun t => (t / day + 1) * day
      else .error ("unrecognized descriptor: " ++ spec)
    addFunc := fun _ => .ok 1 }
  deps := sampleDeps
  render doc := .ok ("\n".intercalate (documentLines doc) ++ "\n")
  info := ⟨"", "", "", ""⟩
  now := 0

/-- Its replica. -/
def startedReplica : AdGuardInstance where
  url := "http://b"
  webURL := "http://b"
  apiPath := "/control"
  username := "u"
  host := "b"
  webHost := "b"

/-- The worker it starts. -/
def startedWorker : Worker where
  deps := sampleDeps
  cfg := {
    initialConfig with
    origin := {
      url := "http://a"
      webURL := "http://a"
      apiPath := "/control"
      host := "a"
      webHost := "a" }
    replica := none
    replicas := [startedReplica]
    cron := "@daily" }
  cron := true
  cronEntryID := 1

theorem run_sampleMachine : sampleMachine.run = .ok (.sync startedWorker day) :=
  rfl

/-- The command line `--print-config-only`. -/
def withPrintConfigOnly : CommandLine
  | .printConfigOnly => some true
  | _ => none

/-! ## Steps that may fail -/

section Except

variable {ε ε' α β : Type}

theorem bind_eq_ok {x : Except ε α} {f : α → Except ε β} {b : β} :
    x >>= f = .ok b ↔ ∃ a, x = .ok a ∧ f a = .ok b := by
  cases x with
  | error e => exact iff_of_false nofun fun ⟨_, h, _⟩ => nomatch h
  | ok a => exact ⟨fun h => ⟨a, rfl, h⟩, fun ⟨_, ha, h⟩ => Except.ok.inj ha ▸ h⟩

theorem mapError_eq_ok {x : Except ε α} {f : ε → ε'} {a : α} :
    x.mapError f = .ok a ↔ x = .ok a := by
  cases x with
  | error e => exact iff_of_false nofun nofun
  | ok a' => simp [Except.mapError]

/-- All members are mapped, in their order. -/
theorem mapM_eq_ok {f : α → Except ε β} : ∀ {xs : List α} {ys : List β},
    xs.mapM f = .ok ys ↔ List.Forall₂ (fun x y => f x = .ok y) xs ys
  | [], ys => by
    rw [List.mapM_nil, List.forall₂_nil_left_iff]
    exact ⟨fun h => (Except.ok.inj h).symm, fun h => h ▸ rfl⟩
  | x :: xs, ys => by
    rw [List.mapM_cons, bind_eq_ok, List.forall₂_cons_left_iff]
    refine exists_congr fun y => ?_
    rw [bind_eq_ok]
    constructor
    · rintro ⟨hy, zs, hzs, h⟩
      exact ⟨zs, hy, mapM_eq_ok.mp hzs, (Except.ok.inj h).symm⟩
    · rintro ⟨zs, hy, hzs, rfl⟩
      exact ⟨hy, zs, mapM_eq_ok.mpr hzs, rfl⟩

theorem exists_mapM_eq_ok {f : α → Except ε β} {xs : List α} :
    (∃ ys, xs.mapM f = .ok ys) ↔ ∀ x ∈ xs, ∃ y, f x = .ok y := by
  simp only [mapM_eq_ok]
  induction xs with
  | nil => simp
  | cons x xs ih =>
    simp only [List.forall₂_cons_left_iff, List.forall_mem_cons, ← ih]
    constructor
    · rintro ⟨_, y, ys, hy, hys, rfl⟩
      exact ⟨⟨y, hy⟩, ys, hys⟩
    · rintro ⟨⟨y, hy⟩, ys, hys⟩
      exact ⟨y :: ys, y, ys, hy, hys, rfl⟩

theorem of_forall₂ {R : α → β → Prop} {xs : List α} {ys : List β} (h : List.Forall₂ R xs ys)
    {k : ℕ} {x : α} {y : β} (hx : xs[k]? = some x) (hy : ys[k]? = some y) : R x y := by
  obtain ⟨hk, rfl⟩ := List.getElem?_eq_some_iff.mp hx
  obtain ⟨hk', rfl⟩ := List.getElem?_eq_some_iff.mp hy
  exact h.get hk hk'

theorem exists_of_forall₂ {R : α → β → Prop} {xs : List α} {ys : List β}
    (h : List.Forall₂ R xs ys) : ∀ y ∈ ys, ∃ x ∈ xs, R x y := by
  induction h with
  | nil => exact List.forall_mem_nil _
  | cons hxy _ ih =>
    refine List.forall_mem_cons.mpr ⟨⟨_, List.mem_cons_self, hxy⟩, fun y hy => ?_⟩
    obtain ⟨x, hx, hxy⟩ := ih y hy
    exact ⟨x, List.mem_cons_of_mem _ hx, hxy⟩

end Except

/-! ## What is kept on the way -/

/-- The URL, and the web URL if there is one, are URLs. -/
def AdGuardInstance.Located (i : AdGuardInstance) : Prop :=
  (∃ u, Net.URL.parse (Net.bytes i.url) = .ok u) ∧
    (i.webURL = "" ∨ ∃ u, Net.URL.parse (Net.bytes i.webURL) = .ok u)

/-- The URL stands for a web URL that is empty. -/
def InstanceField.located (x : (f : InstanceField) → f.Value) : (f : InstanceField) → f.Value
  | .webURL => if x .webURL = "" then x .url else x .webURL
  | f => x f

/-- There is no single replica, and every replica of the list has an API path. -/
structure Config.Listed (cfg : Config) : Prop where
  replica : cfg.replica = none
  apiPath : ∀ r ∈ cfg.replicas, r.apiPath ≠ ""

section Kept

variable {text : Net.Bytes → String} {i j : AdGuardInstance} {cfg cfg' : Config}

theorem AdGuardInstance.init_eq_ok : i.init text = .ok j ↔
    ∃ u, Net.URL.parse (Net.bytes i.url) = .ok u ∧
      (i.webURL = "" ∧ j = { i with host := text u.host, webHost := text u.host, webURL := i.url } ∨
        i.webURL ≠ "" ∧ ∃ u', Net.URL.parse (Net.bytes i.webURL) = .ok u' ∧
          j = { i with host := text u.host, webHost := text u'.host }) := by
  rw [init, bind_eq_ok]
  refine exists_congr fun u => and_congr_right fun _ => ?_
  dsimp only
  split_ifs with hweb
  · simp only [hweb, true_and, ne_eq, not_true_eq_false, false_and, or_false]
    exact ⟨fun h => (Except.ok.inj h).symm, fun h => h ▸ rfl⟩
  · rw [bind_eq_ok]
    simp only [hweb, false_and, ne_eq, not_false_eq_true, true_and, false_or]
    refine exists_congr fun u' => and_congr_right fun _ => ?_
    exact ⟨fun h => (Except.ok.inj h).symm, fun h => h ▸ rfl⟩

/-- Only the hosts and the web URL are new. -/
theorem AdGuardInstance.get_init (h : i.init text = .ok j) {f : InstanceField} (hf : f.printed) :
    j.get f = InstanceField.located i.get f := by
  obtain ⟨u, -, ⟨hweb, rfl⟩ | ⟨hweb, u', -, rfl⟩⟩ := init_eq_ok.mp h
  · cases f with
    | webURL => exact (if_pos hweb).symm
    | host | webHost => cases hf
    | _ => rfl
  · cases f with
    | webURL => exact (if_neg hweb).symm
    | host | webHost => cases hf
    | _ => rfl

theorem AdGuardInstance.exists_init_iff : (∃ j, i.init text = .ok j) ↔ i.Located := by
  simp only [init_eq_ok]
  constructor
  · rintro ⟨_, u, hu, ⟨hweb, -⟩ | ⟨-, u', hu', -⟩⟩
    · exact ⟨⟨u, hu⟩, Or.inl hweb⟩
    · exact ⟨⟨u, hu⟩, Or.inr ⟨u', hu'⟩⟩
  · rintro ⟨⟨u, hu⟩, hweb⟩
    by_cases hempty : i.webURL = ""
    · exact ⟨_, u, hu, Or.inl ⟨hempty, rfl⟩⟩
    · obtain ⟨u', hu'⟩ := hweb.resolve_left hempty
      exact ⟨_, u, hu, Or.inr ⟨hempty, u', hu', rfl⟩⟩

theorem Config.init_eq_ok : cfg.init text = .ok cfg' ↔ ∃ origin replicas,
    cfg.origin.init text = .ok origin ∧
      List.Forall₂ (fun i j => i.init text = .ok j) cfg.replicas replicas ∧
      cfg' = { cfg with origin := origin, replicas := replicas } := by
  rw [init, bind_eq_ok]
  refine exists_congr fun origin => ?_
  rw [bind_eq_ok]
  constructor
  · rintro ⟨ho, rs, hrs, h⟩
    exact ⟨rs, ho, mapM_eq_ok.mp hrs, (Except.ok.inj h).symm⟩
  · rintro ⟨rs, ho, hrs, rfl⟩
    exact ⟨ho, rs, mapM_eq_ok.mpr hrs, rfl⟩

theorem Config.exists_init_iff :
    (∃ cfg', cfg.init text = .ok cfg') ↔ ∀ i ∈ cfg.origin :: cfg.replicas, i.Located := by
  simp only [List.forall_mem_cons, ← @AdGuardInstance.exists_init_iff text,
    ← exists_mapM_eq_ok (f := AdGuardInstance.init text), init_eq_ok, mapM_eq_ok]
  constructor
  · rintro ⟨_, origin, rs, ho, hrs, rfl⟩
    exact ⟨⟨origin, ho⟩, rs, hrs⟩
  · rintro ⟨⟨origin, ho⟩, rs, hrs⟩
    exact ⟨_, origin, rs, ho, hrs, rfl⟩

theorem AdGuardInstance.apiPath_withAPIPath (i : AdGuardInstance) : i.withAPIPath.apiPath ≠ "" := by
  unfold withAPIPath
  split_ifs with h
  · exact (by decide : defaultAPIPath ≠ "")
  · exact h

/-- The loader leaves no empty API path. -/
theorem apiPath_of_enrichReplicas {pkg : EnvPackage} {env : Environ} :
    ∀ {n : ℕ} {rs rs' : List AdGuardInstance}, enrichReplicas pkg env n rs = .ok rs' →
      ∀ r ∈ rs', r.apiPath ≠ ""
  | _, [], _, h => by
    cases h
    exact List.forall_mem_nil _
  | n, r :: rs, _, h => by
    obtain ⟨r', hr', h⟩ := bind_eq_ok.mp h
    obtain ⟨rs', hrs', h⟩ := bind_eq_ok.mp h
    cases h
    obtain ⟨parsed, -, hr'⟩ := bind_eq_ok.mp hr'
    cases hr'
    exact List.forall_mem_cons.mpr
      ⟨AdGuardInstance.apiPath_withAPIPath _, apiPath_of_enrichReplicas hrs'⟩

theorem Config.listed_of_listReplicas {pkg : EnvPackage} {env : Environ}
    (h : listReplicas pkg env cfg = .ok cfg') : cfg'.Listed := by
  have hlast : ∀ cfg₁ : Config, cfg₁.replica = none →
      (enrichReplicasFromEnv pkg env cfg₁.replicas >>= fun rs =>
        pure { cfg₁ with replicas := rs }) = .ok cfg' → cfg'.Listed := by
    intro cfg₁ hreplica h
    obtain ⟨rs, hrs, h⟩ := bind_eq_ok.mp h
    cases h
    obtain ⟨collected, -, hrs⟩ := bind_eq_ok.mp hrs
    exact ⟨hreplica, apiPath_of_enrichReplicas hrs⟩
  cases hreplica : cfg.replica with
  | none =>
    rw [listReplicas, hreplica] at h
    simp only [hreplica, Option.isSome_none, Bool.false_eq_true, and_false, if_false] at h
    exact hlast cfg hreplica (by rwa [hreplica])
  | some r =>
    rw [listReplicas, hreplica] at h
    by_cases hsingle : r.url = "" ∧ r.username = ""
    · simp only [if_pos hsingle, Option.isSome_none, Bool.false_eq_true, and_false, if_false] at h
      exact hlast { cfg with replica := none } rfl h
    · simp only [if_neg hsingle, hreplica] at h
      split_ifs at h with hmixed
      · cases h
      · exact hlast { cfg with replicas := [r], replica := none } rfl h

/-- What is loaded has its replicas in the list. -/
theorem Machine.listed_of_get {m : Machine} {app : AppConfig} (h : m.get = .ok app) :
    app.cfg.Listed := by
  obtain ⟨path, -, h⟩ := bind_eq_ok.mp h
  obtain ⟨-, -, h⟩ := bind_eq_ok.mp h
  obtain ⟨⟨content, cfg₁⟩, -, h⟩ := bind_eq_ok.mp h
  obtain ⟨cfg₂, -, h⟩ := bind_eq_ok.mp h
  obtain ⟨cfg₃, -, h⟩ := bind_eq_ok.mp h
  obtain ⟨cfg₄, hcfg₄, h⟩ := bind_eq_ok.mp h
  cases h
  exact Config.listed_of_listReplicas hcfg₄

theorem Config.Listed.init (h : cfg.Listed) (hinit : cfg.init text = .ok cfg') : cfg'.Listed := by
  obtain ⟨origin, rs, -, hrs, rfl⟩ := init_eq_ok.mp hinit
  refine ⟨h.replica, fun r hr => ?_⟩
  obtain ⟨i, hi, hinit⟩ := exists_of_forall₂ hrs r hr
  have hpath : r.apiPath = i.apiPath := AdGuardInstance.get_init hinit (f := .apiPath) rfl
  rw [hpath]
  exact h.apiPath i hi

/-- There is something to sync if some replica has a URL. -/
theorem Config.uniqueReplicas_eq_nil_iff (cfg : Config) (o : MapOrder String) :
    cfg.uniqueReplicas o = [] ↔ ∀ r ∈ cfg.replica.toList ++ cfg.replicas, r.url = "" := by
  constructor
  · intro h r hr
    by_contra hurl
    have hkey : r.withAPIPath.key ∈ (((cfg.replica.toList ++ cfg.replicas).filter
        fun i => i.url ≠ "").map AdGuardInstance.withAPIPath).map AdGuardInstance.key :=
      List.mem_map_of_mem (List.mem_map_of_mem (List.mem_filter.mpr ⟨hr, decide_eq_true hurl⟩))
    cases hlookup : cfg.dedup.lookup r.withAPIPath.key with
    | none => exact absurd hkey (KeyedMap.lookup_collect_eq_none.mp hlookup)
    | some i =>
      have hi : i ∈ cfg.uniqueReplicas o := KeyedMap.mem_values.mpr ⟨_, hlookup⟩
      rw [h] at hi
      cases hi
  · intro h
    refine List.eq_nil_iff_forall_not_mem.mpr fun i hi => ?_
    obtain ⟨k, hk⟩ := KeyedMap.mem_values.mp hi
    obtain ⟨r, hr, -⟩ := List.mem_map.mp (KeyedMap.of_lookup_collect hk).1
    obtain ⟨hr, hurl⟩ := List.mem_filter.mp hr
    exact of_decide_eq_true hurl (h r hr)

/-- A replica that is listed is synced as the party it is listed as. -/
theorem Config.Listed.mem_uniqueReplicas (h : cfg.Listed) {o : MapOrder String}
    (hi : i ∈ cfg.uniqueReplicas o) : i ∈ cfg.replicas := by
  obtain ⟨r, hr, rfl⟩ := Config.mem_uniqueReplicas hi
  rw [h.replica, Option.toList_none, List.nil_append] at hr
  rwa [AdGuardInstance.withAPIPath, if_neg (h.apiPath r hr)]

end Kept

/-! ## When the worker is started -/

/-- The configuration is one to sync with. -/
structure Config.Startable (pkg : CronPackage) (cfg : Config) : Prop where
  located : ∀ i ∈ cfg.origin :: cfg.replicas, i.Located
  syncs : cfg.printConfigOnly = false
  origin : cfg.origin.url ≠ ""
  replica : ∃ r ∈ cfg.replicas, r.url ≠ ""
  cron : cfg.cron = "" ∨ (∃ next, pkg.parseStandard cfg.cron = .ok next) ∧
    ∃ entryID, pkg.addFunc cfg.cron = .ok entryID

section Sync

variable {pkg : CronPackage} {deps : Deps} {cfg : Config} {now next : ℤ} {w : Worker}

theorem Worker.cfg_setup (h : Worker.setup pkg deps cfg now = .ok (w, next)) :
    w.cfg = { cfg with origin.autoSetup := false } := by
  unfold Worker.setup at h
  dsimp only at h
  split_ifs at h with hcron
  · cases h
    rfl
  · obtain ⟨sched, -, h⟩ := bind_eq_ok.mp h
    obtain ⟨entryID, -, h⟩ := bind_eq_ok.mp h
    cases h
    rfl

theorem Worker.exists_setup_iff : (∃ s, Worker.setup pkg deps cfg now = .ok s) ↔
    cfg.cron = "" ∨ (∃ sched, pkg.parseStandard cfg.cron = .ok sched) ∧
      ∃ entryID, pkg.addFunc cfg.cron = .ok entryID := by
  unfold Worker.setup
  dsimp only
  split_ifs with hcron
  · exact iff_of_true ⟨_, rfl⟩ (Or.inl hcron)
  · simp only [bind_eq_ok, hcron, false_or]
    constructor
    · rintro ⟨_, sched, hsched, entryID, hadd, -⟩
      exact ⟨⟨sched, hsched⟩, entryID, hadd⟩
    · rintro ⟨⟨sched, hsched⟩, entryID, hadd⟩
      exact ⟨_, sched, hsched, entryID, hadd, rfl⟩

theorem Config.sync_eq_ok {s : Worker × ℤ} : cfg.sync pkg deps now = .ok s ↔
    cfg.origin.url ≠ "" ∧ cfg.uniqueReplicas .stored ≠ [] ∧
      Worker.setup pkg deps cfg now = .ok s := by
  unfold Config.sync
  split_ifs with horigin hreplicas
  · exact iff_of_false nofun fun h => h.1 horigin
  · exact iff_of_false nofun fun h => h.2.1 (List.length_eq_zero_iff.mp hreplicas)
  · simp [horigin, mt List.length_eq_zero_iff.mpr hreplicas]

end Sync

namespace Machine

variable {m : Machine} {w : Worker} {next : ℤ}

theorem run_eq_sync : m.run = .ok (.sync w next) ↔ ∃ app cfg, m.get = .ok app ∧
    app.cfg.init m.text = .ok cfg ∧ cfg.printConfigOnly = false ∧
      cfg.sync m.cron m.deps m.now = .ok (w, next) := by
  simp only [run, bind_eq_ok, mapError_eq_ok]
  refine exists_congr fun app => ?_
  constructor
  · rintro ⟨happ, cfg, hcfg, h⟩
    split_ifs at h with hprint
    · cases h
    · obtain ⟨s, hs, h⟩ := bind_eq_ok.mp h
      cases h
      exact ⟨cfg, happ, hcfg, Bool.eq_false_iff.mpr hprint, mapError_eq_ok.mp hs⟩
  · rintro ⟨cfg, happ, hcfg, hprint, hs⟩
    refine ⟨happ, cfg, hcfg, ?_⟩
    rw [if_neg (Bool.eq_false_iff.mp hprint)]
    exact bind_eq_ok.mpr ⟨_, mapError_eq_ok.mpr hs, rfl⟩

theorem run_eq_print {p : Go (Except ConfigErr String)} : m.run = .ok (.print p) ↔ ∃ app cfg,
    m.get = .ok app ∧ app.cfg.init m.text = .ok cfg ∧ cfg.printConfigOnly = true ∧
      p = AppConfig.print m.render m.info { app with cfg := cfg } m.environ := by
  simp only [run, bind_eq_ok, mapError_eq_ok]
  refine exists_congr fun app => ?_
  constructor
  · rintro ⟨happ, cfg, hcfg, h⟩
    split_ifs at h with hprint
    · cases h
      exact ⟨cfg, happ, hcfg, hprint, rfl⟩
    · obtain ⟨s, hs, h⟩ := bind_eq_ok.mp h
      cases h
  · rintro ⟨cfg, happ, hcfg, hprint, rfl⟩
    refine ⟨happ, cfg, hcfg, ?_⟩
    rw [if_pos hprint]
    rfl

/-- The worker that is started has the replicas in the list. -/
theorem listed_of_run (h : m.run = .ok (.sync w next)) : w.cfg.Listed := by
  obtain ⟨app, cfg, happ, hcfg, -, hs⟩ := run_eq_sync.mp h
  obtain ⟨-, -, hsetup⟩ := Config.sync_eq_ok.mp hs
  obtain ⟨hreplica, hpath⟩ := (listed_of_get happ).init hcfg
  rw [Worker.cfg_setup hsetup]
  exact ⟨hreplica, hpath⟩

/-- The worker is started exactly if the configuration that is loaded is one to sync with. -/
theorem exists_run_eq_sync_iff {app : AppConfig} (happ : m.get = .ok app) :
    (∃ w next, m.run = .ok (.sync w next)) ↔ app.cfg.Startable m.cron := by
  have hlisted := listed_of_get happ
  constructor
  · rintro ⟨w, next, h⟩
    obtain ⟨app', cfg, happ', hcfg, hprint, hs⟩ := run_eq_sync.mp h
    obtain rfl := Except.ok.inj (happ'.symm.trans happ)
    obtain ⟨hurl, hreplicas, hsetup⟩ := Config.sync_eq_ok.mp hs
    have hlocated := Config.exists_init_iff.mp ⟨cfg, hcfg⟩
    obtain ⟨origin, rs, ho, hrs, rfl⟩ := Config.init_eq_ok.mp hcfg
    have hcron := Worker.exists_setup_iff.mp ⟨_, hsetup⟩
    refine ⟨hlocated, hprint, ?_, ?_, hcron⟩
    · have hsame : origin.url = _ := AdGuardInstance.get_init ho (f := .url) rfl
      rwa [hsame] at hurl
    · rw [Ne, Config.uniqueReplicas_eq_nil_iff] at hreplicas
      simp only [not_forall] at hreplicas
      obtain ⟨r, hr, hurl⟩ := hreplicas
      rw [hlisted.replica, Option.toList_none, List.nil_append] at hr
      obtain ⟨i, hi, hinit⟩ := exists_of_forall₂ hrs r hr
      have hsame : r.url = i.url := AdGuardInstance.get_init hinit (f := .url) rfl
      exact ⟨i, hi, hsame ▸ hurl⟩
  · rintro ⟨hlocated, hprint, hurl, ⟨i, hi, hurl'⟩, hcron⟩
    obtain ⟨cfg, hcfg⟩ := Config.exists_init_iff.mpr hlocated
    obtain ⟨origin, rs, ho, hrs, rfl⟩ := Config.init_eq_ok.mp hcfg
    have hset : ∃ s, Worker.setup m.cron m.deps { app.cfg with origin := origin, replicas := rs }
        m.now = .ok s := Worker.exists_setup_iff.mpr hcron
    obtain ⟨⟨w, next⟩, hsetup⟩ := hset
    refine ⟨w, next, run_eq_sync.mpr ⟨app, _, happ, hcfg, hprint,
      Config.sync_eq_ok.mpr ⟨?_, fun hnil => ?_, hsetup⟩⟩⟩
    · have hsame : origin.url = _ := AdGuardInstance.get_init ho (f := .url) rfl
      rwa [hsame]
    · obtain ⟨r, hr, hinit⟩ := exists_of_forall₂ hrs.flip i hi
      have hsame : r.url = i.url := AdGuardInstance.get_init hinit (f := .url) rfl
      have hempty := (Config.uniqueReplicas_eq_nil_iff _ _).mp hnil r (List.mem_append_right _ hr)
      exact hurl' (hsame ▸ hempty)

/-- A run of the worker only writes to instances that the status page asks. So if the health check
is fine, every instance that any run writes to has been reached. -/
theorem written_reached {hs : HostSort} {tr tr' : Trace Event Reply} {out : Option Unit}
    {p : Party} {wr : Write} {r : Except Err Unit} (hstart : m.run = .ok (.sync w next))
    (hhealthy : (w.healthz hs).Runs tr (some 200)) (hrun : w.sync.Runs tr' out)
    (hwrite : ⟨.write p wr, r⟩ ∈ tr') : Reached tr p := by
  obtain ⟨inst, hinst, rfl⟩ := Worker.exists_replica_of_write hrun hwrite
  have hlisted : inst ∈ w.cfg.replicas := (listed_of_run hstart).mem_uniqueReplicas hinst
  exact Worker.reached_of_healthy hhealthy _
    (List.mem_cons_of_mem _ (List.mem_map_of_mem hlisted))

theorem written_reached_sample : ∃ tr tr' out p,
    (startedWorker.healthz .stable).Runs tr (some 200) ∧ startedWorker.sync.Runs tr' out ∧
      ⟨.write p (.parental true), .ok ()⟩ ∈ tr' ∧ Reached tr p := by
  have hhealthz : (startedWorker.healthz .stable).Runs
      (parentalScenario.trace (startedWorker.healthz .stable)) (some 200) :=
    parentalScenario.runs _
  have hwrite : (parentalScenario.trace startedWorker.sync)[24]? =
      some (⟨.write (.replica startedReplica) (.parental true), .ok ()⟩ :
        Entry Event Reply) := rfl
  have hmem := List.mem_of_getElem? hwrite
  have hrun := parentalScenario.runs startedWorker.sync
  exact ⟨_, _, _, _, hhealthz, hrun, hmem,
    written_reached run_sampleMachine hhealthz hrun hmem⟩

end Machine

/-! ## Printing changes nothing -/

/-- The version of an instance, which is only unknown in an outage. -/
def ShowsVersion (outage : Prop) (i : Instance) (version : String) : Prop :=
  outage ∧ version = "N/A" ∨ version = i.version

section Print

variable {outage : Prop} {x : World}

theorem ensures_aghVersion (p : Party) :
    (aghVersion p).Ensures (World.Answers outage) x fun out x' => x' = x ∧
      ∃ version, out = some version ∧ ShowsVersion outage (x p).inst version := by
  refine Prog.ensures_perform_bind.mpr ?_
  rintro (e | _) _ ⟨hcreated, rfl⟩
  · exact ⟨rfl, _, rfl, Or.inl ⟨hcreated.resolve_right nofun, rfl⟩⟩
  · refine Prog.ensures_perform_bind.mpr ?_
    rintro (e | d) _ ⟨hread, rfl⟩
    · exact ⟨rfl, _, rfl, Or.inl ⟨hread, rfl⟩⟩
    · obtain rfl : d = _ := hread
      exact ⟨rfl, _, rfl, Or.inr rfl⟩

theorem ensures_aghVersions : ∀ (replicas : List AdGuardInstance) (x : World),
    (aghVersions replicas).Ensures (World.Answers outage) x fun out x' => x' = x ∧
      ∃ versions, out = some versions ∧
        List.Forall₂ (fun r => ShowsVersion outage (x (.replica r)).inst) replicas versions
  | [], _ => ⟨rfl, [], rfl, .nil⟩
  | r :: rs, x => by
    refine Prog.ensures_bind.mpr ((ensures_aghVersion (.replica r)).mono ?_)
    rintro _ _ ⟨rfl, version, rfl, hversion⟩
    refine Prog.ensures_bind.mpr ((ensures_aghVersions rs _).mono ?_)
    rintro _ _ ⟨rfl, versions, rfl, hversions⟩
    exact ⟨rfl, _, rfl, .cons hversion hversions⟩

/-- To print the configuration changes no instance, whatever they answer. What is printed is the
configuration that was loaded, with the versions of the instances. -/
theorem Machine.prints {m : Machine} {p : Go (Except ConfigErr String)} {x' : World}
    {tr : Trace Event Reply} {out : Option (Except ConfigErr String)}
    (h : m.run = .ok (.print p)) (hrun : p.Runs tr out)
    (hw : Along (World.Answers outage) tr x x') : x' = x ∧
      ∃ app cfg originVersion replicaVersions, m.get = .ok app ∧
        app.cfg.init m.text = .ok cfg ∧ cfg.printConfigOnly = true ∧
        ShowsVersion outage (x .origin).inst originVersion ∧
        List.Forall₂ (fun r => ShowsVersion outage (x (.replica r)).inst) cfg.replicas
          replicaVersions ∧
        out = some (AppConfig.printInternal m.render m.info { app with cfg := cfg } m.environ
          originVersion replicaVersions) := by
  obtain ⟨app, cfg, happ, hcfg, hprint, rfl⟩ := Machine.run_eq_print.mp h
  suffices hensures : (AppConfig.print m.render m.info { app with cfg := cfg } m.environ).Ensures
      (World.Answers outage) x fun out x' => x' = x ∧ ∃ originVersion replicaVersions,
        ShowsVersion outage (x .origin).inst originVersion ∧
        List.Forall₂ (fun r => ShowsVersion outage (x (.replica r)).inst) cfg.replicas
          replicaVersions ∧
        out = some (AppConfig.printInternal m.render m.info { app with cfg := cfg } m.environ
          originVersion replicaVersions) by
    obtain ⟨hsame, origin, versions, horigin, hversions, hout⟩ := hensures.of_runs hrun hw
    exact ⟨hsame, app, cfg, origin, versions, happ, hcfg, hprint, horigin, hversions, hout⟩
  refine Prog.ensures_bind.mpr ((ensures_aghVersion .origin).mono ?_)
  rintro _ _ ⟨rfl, origin, rfl, horigin⟩
  refine Prog.ensures_bind.mpr ((ensures_aghVersions cfg.replicas _).mono ?_)
  rintro _ _ ⟨rfl, versions, rfl, hversions⟩
  exact ⟨rfl, origin, versions, horigin, hversions, rfl⟩

/-- Instances of one version. -/
theorem Machine.prints_sample : ∃ p tr app versions,
    Machine.run { sampleMachine with flags := withPrintConfigOnly.flagSet } = .ok (.print p) ∧
      p.Runs tr (some (AppConfig.printInternal sampleMachine.render sampleMachine.info app
        sampleMachine.environ "v1" versions)) ∧
      ∀ version ∈ versions, version = "v1" := by
  have hprint : ∃ p,
      Machine.run { sampleMachine with flags := withPrintConfigOnly.flagSet } = .ok (.print p) :=
    ⟨_, rfl⟩
  obtain ⟨p, hprint⟩ := hprint
  obtain ⟨tr, out, x', hrun, hw⟩ := p.exists_along (World.exists_answers False)
    ⟨fun _ => { inst := { version := "v1" } }, []⟩
  obtain ⟨-, app, cfg, origin, versions, -, -, -, horigin, hversions, rfl⟩ :=
    Machine.prints hprint hrun hw
  obtain rfl := horigin.resolve_left And.left
  refine ⟨p, tr, { app with cfg := cfg }, versions, hprint, hrun, fun version hversion => ?_⟩
  obtain ⟨r, -, hshows⟩ := exists_of_forall₂ hversions version hversion
  exact hshows.resolve_left And.left

end Print

/-! ## The settings of the worker -/

/-- The worker has the settings of the sources. An origin is not set up, and a web URL that is
empty is the URL. -/
structure Sources.Started (src : Sources) (cfg : Config) : Prop where
  root : ∀ f, cfg.getRoot f = src.root f
  origin : ∀ f : InstanceField, f.printed → f ≠ .autoSetup →
    cfg.origin.get f = InstanceField.located src.origin f
  autoSetup : cfg.origin.autoSetup = false
  replica : src.Single → ∃ r, cfg.replicas = [r] ∧ ∀ f : InstanceField, f.printed →
    r.get f = InstanceField.located (fun f => f.normalize
      ((src.pkg.instanceLayer src.env (replicaPrefix 1)).over src.replica f)) f
  length : ¬src.Single → cfg.replicas.length = (src.file.replicas.getD []).length
  replicas : ¬src.Single → ∀ k r r', (src.file.replicas.getD [])[k]? = some r →
    cfg.replicas[k]? = some r' → ∀ f : InstanceField, f.printed →
      r'.get f = InstanceField.located (fun f => f.normalize
        ((src.pkg.instanceLayer src.env (replicaPrefix (1 + k))).over r.get f)) f

namespace Machine

/-- The machine with a command line and a file, whose values can be parsed. The packages do what
they are for. -/
structure Given (m : Machine) (line : CommandLine) (l : FileLayer) : Prop where
  overwrites : m.pkg.Overwrites m.env
  parsable : m.pkg.AllParsable m.env
  unnumbered : ∀ x ∈ m.env.vars, envReplicasURL x.1 = none
  flags : m.flags.Parsed line
  noDarkMode : line .apiDarkMode = none
  file : ∃ file path, m.fs.Decodes file ∧ m.fs.fileLayer file path = some l ∧
    m.fs.configFilePath m.cfgFile = .ok path ∧ m.fs.validateSchema path = .ok ()

variable {m : Machine} {line : CommandLine} {l : FileLayer} {w : Worker} {next : ℤ}

/-- A worker has the settings that were loaded. -/
theorem started_of_loaded {src : Sources} {app : AppConfig} (happ : m.get = .ok app)
    (hloaded : src.Loaded app.cfg) (hlisted : ¬src.Single → app.cfg.replicas = src.listed)
    (h : m.run = .ok (.sync w next)) : src.Started w.cfg := by
  obtain ⟨app', cfg, happ', hcfg, -, hs⟩ := run_eq_sync.mp h
  obtain rfl := Except.ok.inj (happ'.symm.trans happ)
  obtain ⟨-, -, hsetup⟩ := Config.sync_eq_ok.mp hs
  obtain ⟨origin, rs, ho, hrs, rfl⟩ := Config.init_eq_ok.mp hcfg
  rw [Worker.cfg_setup hsetup]
  refine ⟨fun f => ?_, fun f hf hne => ?_, rfl, fun hsingle => ?_, fun hsingle => ?_,
    fun hsingle k r r' hr hr' f hf => ?_⟩
  · rw [← hloaded.root]
    exact Config.getRoot_instances _ _ _ _ f
  · have hkept : ({ origin with autoSetup := false } : AdGuardInstance).get f = origin.get f := by
      cases f with
      | autoSetup => exact absurd rfl hne
      | _ => rfl
    have hget : app'.cfg.origin.get = src.origin := funext hloaded.origin
    rw [hkept, AdGuardInstance.get_init ho hf, hget]
  · obtain ⟨r, hr, hget⟩ := hloaded.replica hsingle
    rw [hr, List.forall₂_cons_left_iff] at hrs
    obtain ⟨j, _, hj, hnil, rfl⟩ := hrs
    obtain rfl := List.forall₂_nil_left_iff.mp hnil
    refine ⟨j, rfl, fun f hf => ?_⟩
    rw [AdGuardInstance.get_init hj hf, funext hget]
  · rw [← hrs.length_eq, hlisted hsingle, Sources.listed, List.length_mapIdx]
  · have hplace : app'.cfg.replicas[k]? = some
        (r.overlay (src.pkg.instanceLayer src.env (replicaPrefix (1 + k)))).withAPIPath := by
      rw [hlisted hsingle, Sources.listed, List.getElem?_mapIdx, hr, Option.map_some]
    rw [AdGuardInstance.get_init (of_forall₂ hrs hplace hr') hf]
    refine congrArg (InstanceField.located · f) (funext fun f => ?_)
    rw [get_withAPIPath, AdGuardInstance.get_overlay]

/-- The program ends with an error for mixed replicas. Otherwise the configuration has the settings
of the sources in their order, the worker is started exactly if one can sync with it, and then it
is what the worker runs with. -/
theorem started_ordered (h : m.Given line l) :
    (Sources.mk m.pkg m.env line l).Mixed ∧ m.run = .error (.config .mixedReplicas) ∨
      ¬(Sources.mk m.pkg m.env line l).Mixed ∧ ∃ app, m.get = .ok app ∧
        (Sources.mk m.pkg m.env line l).Loaded app.cfg ∧
        ((∃ w next, m.run = .ok (.sync w next)) ↔ app.cfg.Startable m.cron) ∧
        ∀ w next, m.run = .ok (.sync w next) →
          (Sources.mk m.pkg m.env line l).Started w.cfg := by
  obtain ⟨file, path, hdecodes, hl, hpath, hvalid⟩ := h.file
  rcases AppConfig.get_loaded h.overwrites h.parsable h.unnumbered h.flags h.noDarkMode hdecodes hl
    hpath hvalid with ⟨hmixed, herror⟩ | ⟨hnot, app, happ, hloaded, hlisted⟩
  · refine Or.inl ⟨hmixed, ?_⟩
    have hget : m.get = .error .mixedReplicas := herror
    rw [run, hget]
    rfl
  · exact Or.inr ⟨hnot, app, happ, hloaded, exists_run_eq_sync_iff happ,
      fun w next hw => started_of_loaded happ hloaded hlisted hw⟩

theorem started_ordered_sample : ∃ l, sampleMachine.Given withUsername l ∧
    (Sources.mk samplePackage twoURLs withUsername l).Started startedWorker.cfg := by
  have hgiven : ∃ l, sampleMachine.Given withUsername l ∧ l.replicas = none :=
    ⟨_, ⟨samplePackage_overwrites _, twoURLs_parsable, by decide, withUsername.flagSet_parsed, rfl,
      sampleLayer, "config.yaml", sampleFiles_decodes, rfl, rfl, rfl⟩, rfl⟩
  obtain ⟨l, hgiven, hnone⟩ := hgiven
  rcases started_ordered hgiven with ⟨hmixed, -⟩ | ⟨-, app, -, -, -, hstarted⟩
  · exact absurd (congrArg (Option.getD · []) hnone) hmixed.2
  · exact ⟨l, hgiven, hstarted _ _ run_sampleMachine⟩

end Machine

end AghSync
