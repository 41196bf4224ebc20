import AghSync.Actions

/-!
# The worker

One run of the sync. `Worker.sync` checks and sets the `running` flag, reads the origin into
a snapshot, and processes the replicas one after the other, each from the snapshot the one
before left. `syncTo` is the work on one replica : its status, with the automatic setup
where that is on, then the actions. The result is reported when the work ends, also when it
ends in a crash.

The flag and the times of a worker are shared by its runs, so using them is an event.
-/

open Interaction

namespace AghSync

open Model

/-! ## Versions -/

namespace Versions

/-- `MinAgh`. -/
def minAgh : String :=
  "v0.107.40"

/-- `sanitize` : with a leading `v`. -/
def sanitize (v : String) : String :=
  if v = "" ∨ v.toList.head? = some 'v' then v else "v" ++ v

end Versions

/-- `versions.IsNewerThan`. -/
def Deps.isNewerThan (deps : Deps) (v₁ v₂ : String) : Bool :=
  decide (deps.semverCompare (Versions.sanitize v₁) (Versions.sanitize v₂) = 1)

/-- The version is older than the oldest supported one. -/
def Deps.tooOld (deps : Deps) (status : ServerStatus) : Bool :=
  deps.isNewerThan Versions.minAgh status.version

/-! ## Reading the origin -/

/-- Put a document into the snapshot. -/
def Origin.store (o : Origin) : (r : Read) → Doc r → Origin
  | .status, d => { o with status := some d }
  | .profile, d => { o with profileInfo := some d }
  | .parentalStatus, d => { o with parental := d }
  | .safesearchStatus, d => { o with safeSearch := some d }
  | .safebrowsingStatus, d => { o with safeBrowsing := d }
  | .rewriteList, d => { o with rewrites := d }
  | .blockedServicesGet, d => { o with blockedServicesSchedule := some d }
  | .filteringStatus, d => { o with filters := some d }
  | .clients, d => { o with clients := some d }
  | .querylogConfig, d => { o with queryLogConfig := some d }
  | .statsConfig, d => { o with statsConfig := some d }
  | .accessList, d => { o with accessList := some d }
  | .dnsInfo, d => { o with dnsConfig := some d }
  | .dhcpStatus, d => { o with dhcpServerConfig := some d }
  | .tlsStatus, d => { o with tlsConfig := some d }

/-- Read a document of the origin into the snapshot. -/
def fetch (oc : Client) (r : Read) : Call Origin Unit := do
  let d ← oc.doGet r
  Act.modify fun o => o.store r d

/-- `worker`, without the variables its runs share. `createClient` is `client.New`. -/
structure Worker where
  deps : Deps
  cfg : Config
  /-- There is a cron scheduler. -/
  cron : Bool := false
  cronEntryID : ℤ := 0

namespace Worker

variable (w : Worker)

/-- Read the status of the origin and check its version. -/
def fetchStatus (oc : Client) : Call Origin Unit := do
  let status ← oc.status
  Act.modify fun o => o.store .status status
  if w.deps.tooOld status then
    Act.throw (.other ("Origin AdGuard Home version must be >= " ++ Versions.minAgh))
  else pure ()

/-- Read the profile. With `continueOnError` a missing authorization leaves the empty
profile the client returns with the error. -/
def fetchProfile (oc : Client) : Call Origin Unit := do
  match ← Act.attempt oc.profileInfo with
  | .ok p => Act.modify fun o => o.store .profile p
  | .error err =>
    if w.cfg.continueOnError && err.hasCode 401 then
      Act.modify fun o => o.store .profile {}
    else Act.throw err

/-- The reads of the origin after the profile, in order. -/
def originReads (cfg : Config) : List Read :=
  [.parentalStatus, .safesearchStatus, .safebrowsingStatus, .rewriteList, .blockedServicesGet,
    .filteringStatus, .clients, .querylogConfig, .statsConfig, .accessList, .dnsInfo] ++
  (if cfg.features.dhcp.serverConfig || cfg.features.dhcp.staticLeases then
    [.dhcpStatus] else []) ++
  (if cfg.features.tlsConfig then [.tlsStatus] else [])

/-- The part of `worker.sync` that reads the origin. -/
def readOrigin (oc : Client) : Call Origin Unit := do
  w.fetchStatus oc
  w.fetchProfile oc
  Act.forEach (originReads w.cfg) (fetch oc)

/-! ## One replica -/

/-- `worker.statusWithSetup`. When the setup fails the error is the one of the status. -/
def statusWithSetup {σ : Type} (replica : AdGuardInstance) (rc : Client) :
    Call σ ServerStatus := do
  match ← Act.attempt rc.status with
  | .ok rs => pure rs
  | .error err =>
    if replica.autoSetup && decide (err = .setupNeeded) then
      match ← Act.attempt rc.setup with
      | .ok () => rc.status
      | .error _ => Act.throw err
    else Act.throw err

/-- How the work on one replica ended. -/
structure Work where
  withError : Bool
  crashed : Bool
  origin : Origin

/-- The loop over the actions. -/
def runActions (ac : ActionContext) : List SyncAction → Bool → Origin → Go Work
  | [], withError, o => pure ⟨withError, false, o⟩
  | action :: actions, withError, o => do
    match ← (action.sync ac o).recover with
    | none => pure ⟨withError, true, o⟩
    | some (.ok (), o) => runActions ac actions withError o
    | some (.error _, o) =>
      if ac.cfg.continueOnError then runActions ac actions true o else pure ⟨true, false, o⟩

/-- The part of `worker.syncTo` after the report is installed. -/
def work (replica : AdGuardInstance) (rc : Client) (o : Origin) : Go Work := do
  match ← statusWithSetup replica rc o with
  | (.error _, o) => pure ⟨true, false, o⟩
  | (.ok rs, o) =>
    if w.deps.tooOld rs then pure ⟨true, false, o⟩ else
    runActions
      { deps := w.deps, cfg := w.cfg, client := rc, replicaStatus := rs, replica := replica }
      (setupActions w.cfg) false o

/-- `worker.syncTo`. The duration is taken before the work starts. -/
def syncTo (replica : AdGuardInstance) (o : Origin) : Go Origin := do
  match ← perform (.createClient (.replica replica)) with
  | .error _ => pure o
  | .ok () =>
    let rc := Client.new (.replica replica) replica
    let start ← perform .now
    let delta := (← perform .now) - start
    let done ← w.work replica rc o
    perform (.updateResult rc.host (!done.withError) delta)
    if done.crashed then .crash else pure done.origin

/-! ## All replicas -/

/-- The loop over the replicas. -/
def syncAll : List AdGuardInstance → Origin → Go Unit
  | [], _ => pure ()
  | replica :: replicas, o => do
    syncAll replicas (← w.syncTo replica o)

/-- The part of `worker.sync` after the flag is set. -/
def pass : Go Unit := do
  match ← perform (.createClient .origin) with
  | .error _ => pure ()
  | .ok () =>
    match ← w.readOrigin (Client.new .origin w.cfg.origin) {} with
    | (.error _, _) => pure ()
    | (.ok (), o) =>
      let order ← perform .rangeReplicas
      w.syncAll (w.cfg.uniqueReplicas order) o

/-- What `worker.sync` defers. -/
def finish : Go Unit := do
  perform (.setRunning false)
  perform (.setLastSyncTime (← perform .now))
  if w.cron && w.cronEntryID ≠ 0 then
    match ← perform .cronNext with
    | some next => perform (.setNextSyncTime next)
    | none => pure ()
  else pure ()

/-- `worker.sync`. -/
def sync : Go Unit := do
  if ← perform .readRunning then pure () else
  perform (.setRunning true)
  let done ← w.pass.recover
  w.finish
  match done with
  | some () => pure ()
  | none => .crash

end Worker

end AghSync
