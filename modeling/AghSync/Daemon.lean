import AghSync.LogHistory
import AghSync.Serial
import AghSync.Status

/-!
# The daemon

What runs once `Sync` has made the worker. `Sync` goes on to start the cron scheduler if there is a
cron expression, and the API server if there is a port, and makes the run on start beside them or,
with neither, itself (`syncMain`). Runs and status pages are made concurrently, and requests come
in any order. The health check is open to everybody. The other routes want credentials if both a
user name and a password are configured.

Forgetting `Sync`, requests, pages and logs a run of the daemon is one of the site
(`CalmRun.site`). Every run of the worker has a cause, and the run on start is made once if it is
configured (`accounted`). With neither cron nor API `Sync` makes it, and returns when it has ended
(`oneShot`). Who has no credentials has no influence : a run of the daemon without their requests
has the same runs of the worker, and the same instances (`noninterference`). The metrics are left
out, scraping only reads.
-/

open Interaction Interaction.Prog

namespace AghSync

/-! ## Routes -/

/-- A request to the API server, as far as it decides what the server does. -/
structure Request where
  method : String
  path : String
  authorization : String := ""
  deriving DecidableEq

/-- The handlers of the API server. -/
inductive Handler
  | healthz
  | sync
  | logs
  | clearLogs
  | status
  | syncSchedule
  | resource
  | root
  | metrics
  deriving DecidableEq

/-- The handler makes a status page. -/
def Handler.makesPage : Handler → Bool
  | healthz | status | root => true
  | _ => false

/-- The handler only shows what is there. -/
def Handler.showsOnly : Handler → Bool
  | logs | syncSchedule | resource | metrics => true
  | _ => false

/-- A route of the API server. -/
structure Route where
  method : String
  path : String
  handler : Handler
  deriving DecidableEq

/-- The route is the one of the request. -/
def Route.serves (route : Route) (req : Request) : Bool :=
  route.method = req.method ∧ route.path = req.path

/-- The paths of `static.HandleResources`. -/
def resources : List String :=
  ["/favicon.ico", "/logo.svg", "/lib/jquery.js", "/lib/popper.js", "/lib/chart.js",
    "/lib/bootstrap.js", "/lib/bootstrap-light.css", "/lib/bootstrap-dark.css",
    "/lib/bootstrap.css"]

/-- The routes outside of the group. -/
def openRoutes : List Route :=
  [⟨"HEAD", "/healthz", .healthz⟩, ⟨"GET", "/healthz", .healthz⟩]

namespace API

variable (api : API)

/-- The routes of the group. -/
def routes : List Route :=
  [⟨"POST", "/api/v1/sync", .sync⟩, ⟨"GET", "/api/v1/logs", .logs⟩,
    ⟨"POST", "/api/v1/clear-logs", .clearLogs⟩, ⟨"GET", "/api/v1/status", .status⟩,
    ⟨"GET", "/api/v1/sync-schedule", .syncSchedule⟩] ++
  resources.map (⟨"GET", ·, .resource⟩) ++
  [⟨"GET", "/", .root⟩] ++
  if api.metrics.enabled then [⟨"GET", "/metrics", .metrics⟩] else []

/-- The group wants credentials. -/
def guarded : Bool :=
  api.username ≠ "" && api.password ≠ ""

end API

/-- `gin.BasicAuth` : whether it lets a header through. -/
structure Gin where
  basicAuth (username password authorization : String) : Bool

/-- The request gets into the group. -/
def API.accepts (gin : Gin) (api : API) (req : Request) : Bool :=
  !api.guarded || gin.basicAuth api.username api.password req.authorization

/-- What the server does with a request. -/
inductive Dispatch
  | handle (h : Handler)
  | unauthorized
  | notFound
  deriving DecidableEq

/-- The routes `listenAndServe` sets up. -/
def API.dispatch (gin : Gin) (api : API) (req : Request) : Dispatch :=
  if openRoutes.any (·.serves req) then .handle .healthz
  else match api.routes.find? (·.serves req) with
    | some route => if api.accepts gin req then .handle route.handler else .unauthorized
    | none => .notFound

section Dispatch

variable {gin : Gin} {api : API} {req : Request} {h : Handler}

/-- A handler is reached by the health check, or by a route of the group with credentials. -/
theorem API.dispatch_cases (hd : api.dispatch gin req = .handle h) : h = .healthz ∨
    api.accepts gin req = true ∧ ∃ route ∈ api.routes, route.serves req ∧ route.handler = h := by
  unfold API.dispatch at hd
  by_cases hopen : openRoutes.any (·.serves req)
  · rw [if_pos hopen] at hd
    exact Or.inl (Dispatch.handle.inj hd).symm
  · rw [if_neg hopen] at hd
    cases hroute : api.routes.find? (·.serves req) with
    | none =>
      rw [hroute] at hd
      cases hd
    | some route =>
      cases haccepts : api.accepts gin req with
      | false =>
        rw [hroute, haccepts] at hd
        cases hd
      | true =>
        rw [hroute, haccepts] at hd
        have hserves : route.serves req = true := by
          simpa using List.find?_some hroute
        exact Or.inr ⟨rfl, route, List.mem_of_find?_eq_some hroute, hserves,
          Dispatch.handle.inj hd⟩

/-- All but the health check is behind the credentials. -/
theorem API.accepts_of_dispatch (hd : api.dispatch gin req = .handle h) (hne : h ≠ .healthz) :
    api.accepts gin req = true :=
  ((dispatch_cases hd).resolve_left hne).1

/-- A run is started by one route only. -/
theorem API.eq_of_dispatch_sync (hd : api.dispatch gin req = .handle .sync) :
    req.method = "POST" ∧ req.path = "/api/v1/sync" := by
  obtain ⟨-, route, hmem, hserves, hhandler⟩ := (dispatch_cases hd).resolve_left nofun
  have honly : ∀ route ∈ api.routes, route.handler = .sync →
      route = ⟨"POST", "/api/v1/sync", .sync⟩ := by
    unfold API.routes
    cases api.metrics.enabled <;> decide
  rw [honly route hmem hhandler] at hserves
  obtain ⟨hmethod, hpath⟩ := of_decide_eq_true hserves
  exact ⟨hmethod.symm, hpath.symm⟩

end Dispatch

/-! ## The control flow of `Sync` -/

/-- What `Sync` does once the worker is made : start the scheduler, in a goroutine of its own or
here, make a run, in a goroutine of its own or here, and serve. -/
inductive MainEvent
  | cronStart
  | cronRun
  | goSync
  | sync
  | listenAndServe
  deriving DecidableEq

/-- `cron.Run` does not return. Nor does `listenAndServe`, the shutdown is left out. -/
abbrev MainReply : MainEvent → Type
  | .cronStart | .goSync | .sync => Unit
  | .cronRun | .listenAndServe => Empty

/-- A program of the main goroutine. -/
abbrev Main := Prog MainEvent MainReply Unit

/-- `runOnStartAsync`. -/
def runOnStartAsync (cfg : Config) : Main :=
  if cfg.runOnStart then Prog.perform MainEvent.goSync else pure ()

/-- The part of `Sync` with the scheduler. -/
def startCron (cfg : Config) : Main :=
  if cfg.cron = "" then pure ()
  else if cfg.api.port ≠ 0 then Prog.perform MainEvent.cronStart
  else do
    runOnStartAsync cfg
    Empty.elim (← Prog.perform MainEvent.cronRun)

/-- The part of `Sync` with the server. -/
def startServer (cfg : Config) : Main :=
  if cfg.api.port ≠ 0 then do
    runOnStartAsync cfg
    Empty.elim (← Prog.perform MainEvent.listenAndServe)
  else if cfg.runOnStart then Prog.perform MainEvent.sync
  else pure ()

/-- `Sync`, from where the worker is made. -/
def syncMain (cfg : Config) : Main := do
  startCron cfg
  startServer cfg

/-- What starts a run. -/
inductive Cause
  | runOnStart
  | tick
  | request (req : Request)
  deriving DecidableEq

/-- The trigger of the run. -/
def Cause.trigger : Cause → Trigger
  | runOnStart => .runOnStart
  | tick => .cron
  | request _ => .api

/-- How far `Sync` has got : what is left of it, the run it waits for, whether the scheduler is
on, and whether the server accepts requests. -/
structure Control where
  rest : Main
  waits : Option ℕ
  scheduling : Bool
  serving : Bool

namespace Control

/-- `Starts gin api c i cause c'` : the run `i` is started because of `cause`. -/
inductive Starts (gin : Gin) (api : API) : Control → ℕ → Cause → Control → Prop
  | goSync {c : Control} {i : ℕ} {k : Unit → Main} (hwaits : c.waits = none)
      (h : c.rest = .ask .goSync k) : Starts gin api c i .runOnStart { c with rest := k () }
  | sync {c : Control} {i : ℕ} {k : Unit → Main} (hwaits : c.waits = none)
      (h : c.rest = .ask .sync k) :
      Starts gin api c i .runOnStart { c with rest := k (), waits := some i }
  | tick {c : Control} {i : ℕ} (h : c.scheduling = true) : Starts gin api c i .tick c
  | request {c : Control} {i : ℕ} {req : Request} (h : c.serving = true)
      (hroute : api.dispatch gin req = .handle .sync) : Starts gin api c i (.request req) c

/-- `Goes ended c e c'` : `Sync` goes on with `e`. If that is a run it has waited for the end. -/
inductive Goes (ended : ℕ → Prop) : Control → MainEvent → Control → Prop
  | cronStart {c : Control} {k : Unit → Main} (hwaits : c.waits = none)
      (h : c.rest = .ask .cronStart k) :
      Goes ended c .cronStart { c with rest := k (), scheduling := true }
  | cronRun {c : Control} {k : Empty → Main} (hwaits : c.waits = none)
      (h : c.rest = .ask .cronRun k) : Goes ended c .cronRun { c with scheduling := true }
  | listenAndServe {c : Control} {k : Empty → Main} (hwaits : c.waits = none)
      (h : c.rest = .ask .listenAndServe k) :
      Goes ended c .listenAndServe { c with serving := true }
  | sync {c : Control} {i : ℕ} (hwaits : c.waits = some i) (hended : ended i) :
      Goes ended c .sync { c with waits := none }

/-- When the worker has just been made. -/
def initial (cfg : Config) : Control :=
  ⟨syncMain cfg, none, false, false⟩

end Control

/-- What the configuration has to say for `Sync` to do something. -/
def MainEvent.Allowed (cfg : Config) : MainEvent → Prop
  | cronStart | cronRun => cfg.cron ≠ ""
  | goSync | sync => cfg.runOnStart = true
  | listenAndServe => cfg.api.port ≠ 0

/-- `p` starts exactly `n` runs until it returns or waits for good. -/
def Owes : Main → ℕ → Prop
  | .ret _, n => n = 0
  | .crash, n => n = 0
  | .ask .goSync k, n | .ask .sync k, n => ∃ m, n = m + 1 ∧ Owes (k ()) m
  | .ask .cronStart k, n => Owes (k ()) n
  | .ask .cronRun _, n | .ask .listenAndServe _, n => n = 0

/-- `Sync` has returned, or waits for good. -/
def AtRest : Main → Prop
  | .ret _ | .ask .cronRun _ | .ask .listenAndServe _ => True
  | _ => False

/-- The configuration has to say so for `Sync` to do something. -/
theorem only_syncMain (cfg : Config) : (syncMain cfg).Only (MainEvent.Allowed cfg) := by
  have honStart : (runOnStartAsync cfg).Only (MainEvent.Allowed cfg) := by
    unfold runOnStartAsync
    split_ifs with honStart
    · exact Prog.Only.perform honStart
    · trivial
  refine Prog.Only.bind ?cron fun _ => ?server
  case cron =>
    unfold startCron
    split_ifs with hcron hport
    · trivial
    · exact Prog.Only.perform hcron
    · exact honStart.bind fun _ => ⟨hcron, Empty.rec⟩
  case server =>
    unfold startServer
    split_ifs with hport honStart'
    · exact honStart.bind fun _ => ⟨hport, Empty.rec⟩
    · exact Prog.Only.perform honStart'
    · trivial

/-- `Sync` makes the run on start once, if it is configured. -/
theorem owes_syncMain (cfg : Config) : Owes (syncMain cfg) (if cfg.runOnStart then 1 else 0) := by
  unfold syncMain startCron startServer runOnStartAsync
  cases cfg.runOnStart with
  | false =>
    simp only [Bool.false_eq_true, if_false]
    split_ifs <;> rfl
  | true =>
    simp only [if_true]
    split_ifs <;> exact ⟨0, rfl, rfl⟩

theorem Owes.eq_zero {p : Main} {n : ℕ} (h : Owes p n) (hp : AtRest p) : n = 0 := by
  cases p with
  | ret | crash => exact h
  | ask e k =>
    cases e with
    | cronRun | listenAndServe => exact h
    | _ => exact hp.elim

/-- The state of `Sync` after it has started `n` runs. -/
structure Control.Ordered (cfg : Config) (n : ℕ) (c : Control) : Prop where
  only : c.rest.Only (MainEvent.Allowed cfg)
  owes : ∃ m, Owes c.rest m ∧ n + m = if cfg.runOnStart then 1 else 0
  scheduling : c.scheduling = true → cfg.cron ≠ ""
  serving : c.serving = true → cfg.api.port ≠ 0

/-- What the configuration and the request have to be for a run to start. -/
def Cause.Legitimate (gin : Gin) (cfg : Config) : Cause → Prop
  | runOnStart => cfg.runOnStart = true
  | tick => cfg.cron ≠ ""
  | request req => cfg.api.port ≠ 0 ∧ req.method = "POST" ∧ req.path = "/api/v1/sync" ∧
      cfg.api.accepts gin req = true

section Control

variable {cfg : Config} {n : ℕ} {c c' : Control}

theorem Control.ordered_initial (cfg : Config) : (Control.initial cfg).Ordered cfg 0 :=
  ⟨only_syncMain cfg, ⟨_, owes_syncMain cfg, Nat.zero_add _⟩, nofun, nofun⟩

theorem Control.Ordered.starts {gin : Gin} {i : ℕ} {cause : Cause} (h : c.Ordered cfg n)
    (hs : c.Starts gin cfg.api i cause c') :
    c'.Ordered cfg (n + if cause = .runOnStart then 1 else 0) := by
  obtain ⟨honly, ⟨m, howes, hn⟩, hscheduling, hserving⟩ := h
  cases hs with
  | goSync hwaits hrest | sync hwaits hrest =>
    rw [hrest] at honly howes
    obtain ⟨m', rfl, howes'⟩ := howes
    refine ⟨honly.2 (), ⟨m', howes', ?_⟩, hscheduling, hserving⟩
    rw [if_pos rfl, ← hn]
    omega
  | tick | request => exact ⟨honly, ⟨m, howes, hn⟩, hscheduling, hserving⟩

theorem Control.Ordered.goes {ended : ℕ → Prop} {e : MainEvent} (h : c.Ordered cfg n)
    (hgoes : c.Goes ended e c') : c'.Ordered cfg n := by
  obtain ⟨honly, ⟨m, howes, hn⟩, hscheduling, hserving⟩ := h
  cases hgoes with
  | cronStart hwaits hrest =>
    rw [hrest] at honly howes
    exact ⟨honly.2 (), ⟨m, howes, hn⟩, fun _ => honly.1, hserving⟩
  | cronRun hwaits hrest =>
    have hcron := honly
    rw [hrest] at hcron
    exact ⟨honly, ⟨m, howes, hn⟩, fun _ => hcron.1, hserving⟩
  | listenAndServe hwaits hrest =>
    have hport := honly
    rw [hrest] at hport
    exact ⟨honly, ⟨m, howes, hn⟩, hscheduling, fun _ => hport.1⟩
  | sync => exact ⟨honly, ⟨m, howes, hn⟩, hscheduling, hserving⟩

/-- Nothing else starts a run, as far as `Sync` has got. -/
theorem Control.Starts.legitimate {gin : Gin} {i : ℕ} {cause : Cause}
    (h : c.Starts gin cfg.api i cause c') (hc : c.Ordered cfg n) :
    cause.Legitimate gin cfg := by
  have honly := hc.only
  cases h with
  | goSync hwaits hrest | sync hwaits hrest =>
    rw [hrest] at honly
    exact honly.1
  | tick hscheduling => exact hc.scheduling hscheduling
  | request hserving hroute =>
    obtain ⟨hmethod, hpath⟩ := API.eq_of_dispatch_sync hroute
    exact ⟨hc.serving hserving, hmethod, hpath, API.accepts_of_dispatch hroute nofun⟩

end Control

/-! ## Steps -/

/-- A status page that is being made : what has been done for it, and what is left. -/
structure Page where
  req : Request
  past : Trace Event Reply
  rest : Go SyncStatus

/-- The worker with its runs, the pages, the log history, and `Sync`. -/
structure Daemon where
  site : Site
  pages : ℕ → Option Page
  logs : List String
  control : Control

/-- The run has come to its end. -/
def Site.Ended (s : Site) (i : ℕ) : Prop :=
  ∃ a, s.pool.invocations i = some a ∧ a.rest = .ret ()

namespace Daemon

/-- What happens in a step : a run starts, `Sync` goes on, a page is asked for, the logs are
cleared, a request is answered at once, or a run or a page goes on. -/
inductive Label
  | start (i : ℕ) (cause : Cause)
  | main (e : MainEvent)
  | page (j : ℕ) (req : Request)
  | clear (req : Request)
  | answer (req : Request)
  | act (i : ℕ) (e : Event)
  | serve (j : ℕ) (req : Request) (e : Event)
  deriving DecidableEq

/-- What the step is for the runs. -/
def Label.site : Label → Option AghSync.Label
  | start i cause => some (.start i cause.trigger)
  | act i e => some (.act i e)
  | _ => none

/-- The history after some more lines. -/
def Logged (logs logs' : List String) : Prop :=
  ∃ lines, logs' = (logs ++ lines).rtake Log.logHistorySize

theorem logged_refl (logs : List String) : ∃ logs', Logged logs logs' :=
  ⟨_, [], rfl⟩

/-- A step of the daemon. The requests of a page can fail at any time. -/
inductive Step (gin : Gin) (w : Worker) (hs : HostSort) (outage : Prop) :
    Daemon → Label → Daemon → Prop
  | start {d : Daemon} {i : ℕ} {cause : Cause} {s : Site} {logs : List String} {c : Control}
      (hcause : d.control.Starts gin w.cfg.api i cause c)
      (hsite : Site.Step w outage d.site (.start i cause.trigger) s) (hlogs : Logged d.logs logs) :
      Step gin w hs outage d (.start i cause) ⟨s, d.pages, logs, c⟩
  | main {d : Daemon} {e : MainEvent} {logs : List String} {c : Control}
      (hgoes : d.control.Goes d.site.Ended e c) (hlogs : Logged d.logs logs) :
      Step gin w hs outage d (.main e) ⟨d.site, d.pages, logs, c⟩
  | page {d : Daemon} {j : ℕ} {req : Request} {h : Handler} {logs : List String}
      (hserving : d.control.serving = true) (hroute : w.cfg.api.dispatch gin req = .handle h)
      (hpage : h.makesPage = true) (hj : d.pages j = none) (hlogs : Logged d.logs logs) :
      Step gin w hs outage d (.page j req)
        ⟨d.site, Function.update d.pages j (some ⟨req, [], w.status hs⟩), logs, d.control⟩
  | clear {d : Daemon} {req : Request} (hserving : d.control.serving = true)
      (hroute : w.cfg.api.dispatch gin req = .handle .clearLogs) :
      Step gin w hs outage d (.clear req) ⟨d.site, d.pages, [], d.control⟩
  | answer {d : Daemon} {req : Request} (hserving : d.control.serving = true)
      (hroute : ∀ h, w.cfg.api.dispatch gin req = .handle h → h.showsOnly = true) :
      Step gin w hs outage d (.answer req) d
  | act {d : Daemon} {i : ℕ} {e : Event} {s : Site} {logs : List String}
      (hsite : Site.Step w outage d.site (.act i e) s) (hlogs : Logged d.logs logs) :
      Step gin w hs outage d (.act i e) ⟨s, d.pages, logs, d.control⟩
  | serve {d : Daemon} {j : ℕ} {req : Request} {past : Trace Event Reply} {e : Event}
      {k : Reply e → Go SyncStatus} {r : Reply e} {x : World} {logs : List String}
      (hj : d.pages j = some ⟨req, past, .ask e k⟩) (hr : d.site.Answers True ⟨e, r⟩ x)
      (hlogs : Logged d.logs logs) :
      Step gin w hs outage d (.serve j req e)
        ⟨⟨d.site.pool, x⟩, Function.update d.pages j (some ⟨req, past ++ [⟨e, r⟩], k r⟩), logs,
          d.control⟩

/-- A run of the daemon. -/
abbrev Run (gin : Gin) (w : Worker) (hs : HostSort) (outage : Prop) :
    Daemon → List Label → Daemon → Prop :=
  Execution (Step gin w hs outage)

/-- A run in which no run of the worker reads the flag between another one's reading and setting
it. -/
abbrev CalmRun (gin : Gin) (w : Worker) (hs : HostSort) (outage : Prop) :
    Daemon → List Label → Daemon → Prop :=
  Execution fun d l d' =>
    (∀ m, l.site = some m → d.site.pool.Undisturbed m) ∧ Step gin w hs outage d l d'

theorem CalmRun.run {gin : Gin} {w : Worker} {hs : HostSort} {outage : Prop} {d d' : Daemon}
    {ls : List Label} (h : CalmRun gin w hs outage d ls d') : Run gin w hs outage d ls d' := by
  induction h with
  | nil => exact .nil
  | concat _ hlast ih => exact ih.concat hlast.2

/-- The daemon when the worker has just been made. -/
def initial (w : Worker) (x : World) : Daemon :=
  ⟨.initial x, fun _ => none, [], .initial w.cfg⟩

end Daemon

/-! ## Pages change nothing -/

/-- The event is one that a page needs. -/
def Event.Reads : Event → Prop
  | .createClient _ | .read _ _ | .readRunning => True
  | _ => False

theorem Site.Answers.eq_world_of_reads {outage : Prop} {s : Site} {e : Event} {r : Reply e}
    {x : World} (he : e.Reads) (h : s.Answers outage ⟨e, r⟩ x) : x = s.world := by
  cases e with
  | createClient p => exact h.2
  | read p q => cases r <;> exact h.2
  | readRunning => exact h.2
  | _ => exact he.elim

theorem Worker.only_getStatus (p : Party) (inst : AdGuardInstance) :
    (getStatus p inst).Only Event.Reads := by
  refine only_perform_bind trivial ?_
  rintro (e | _)
  · trivial
  · refine only_perform_bind trivial ?_
    rintro (e | d) <;> trivial

theorem Worker.only_status (w : Worker) (hs : HostSort) : (w.status hs).Only Event.Reads := by
  have hreplicas : ∀ rs, (replicaStatuses rs).Only Event.Reads := by
    intro rs
    induction rs with
    | nil => trivial
    | cons r rs ih =>
      exact (only_getStatus _ r).bind fun st => only_perform_bind trivial fun running =>
        ih.bind fun sts => trivial
  exact (only_getStatus .origin w.cfg.origin).bind fun origin =>
    (hreplicas w.cfg.replicas).bind fun sts => only_perform_bind trivial fun running => trivial

namespace Daemon

variable {gin : Gin} {w : Worker} {hs : HostSort} {outage : Prop} {d d' : Daemon} {l : Label}
  {ls : List Label}

/-- What is left of every page only reads. -/
def PagesRead (d : Daemon) : Prop :=
  ∀ j p, d.pages j = some p → p.rest.Only Event.Reads

theorem page_update {f : ℕ → Option Page} {j k : ℕ} {p q : Page}
    (h : Function.update f j (some p) k = some q) : k = j ∧ q = p ∨ k ≠ j ∧ f k = some q := by
  by_cases hk : k = j
  · subst hk
    rw [Function.update_self] at h
    exact Or.inl ⟨rfl, (Option.some.inj h).symm⟩
  · rw [Function.update_of_ne hk] at h
    exact Or.inr ⟨hk, h⟩

theorem PagesRead.step (hd : d.PagesRead) (h : Step gin w hs outage d l d') : d'.PagesRead := by
  cases h with
  | start | main | clear | answer | act => exact hd
  | page hserving hroute hpage hj hlogs =>
    intro k q hq
    rcases page_update hq with ⟨-, rfl⟩ | ⟨-, hq⟩
    · exact w.only_status hs
    · exact hd k q hq
  | serve hj hr hlogs =>
    intro k q hq
    rcases page_update hq with ⟨-, rfl⟩ | ⟨-, hq⟩
    · exact (hd _ _ hj).2 _
    · exact hd k q hq

theorem PagesRead.eq_world (hd : d.PagesRead) {j : ℕ} {req : Request} {past : Trace Event Reply}
    {e : Event} {k : Reply e → Go SyncStatus} {r : Reply e} {x : World}
    (hj : d.pages j = some ⟨req, past, .ask e k⟩) (hr : d.site.Answers True ⟨e, r⟩ x) :
    x = d.site.world :=
  hr.eq_world_of_reads (hd j _ hj).1

theorem pagesRead_initial (w : Worker) (x : World) : (initial w x).PagesRead :=
  nofun

/-- Forgetting `Sync`, requests, pages and logs, a run of the daemon is one of the site. -/
theorem CalmRun.site {d₀ : Daemon} (h : CalmRun gin w hs outage d₀ ls d)
    (hd₀ : d₀.PagesRead) :
    d.PagesRead ∧ Site.Run w outage d₀.site (ls.filterMap Label.site) d.site := by
  suffices hsim : ∃ s, Site.Run w outage d₀.site (ls.filterMap Label.site) s ∧
      (d.PagesRead ∧ s = d.site) by
    obtain ⟨s, hrun, hread, rfl⟩ := hsim
    exact ⟨hread, hrun⟩
  refine h.simulate Label.site (fun d s => d.PagesRead ∧ s = d.site) ?_ ?_ ⟨hd₀, rfl⟩
  · rintro d l d' s hl ⟨hread, rfl⟩ ⟨-, hstep⟩
    refine ⟨hread.step hstep, ?_⟩
    cases hstep with
    | start | act => cases hl
    | main | page | clear | answer => rfl
    | serve hj hr hlogs =>
      obtain rfl := hread.eq_world hj hr
      rfl
  · rintro d l d' s m hl ⟨hread, rfl⟩ ⟨hu, hstep⟩
    refine ⟨d'.site, ⟨hu m hl, ?_⟩, hread.step hstep, rfl⟩
    cases hstep with
    | start hcause hsite hlogs =>
      obtain rfl := Option.some.inj hl
      exact hsite
    | act hsite hlogs =>
      obtain rfl := Option.some.inj hl
      exact hsite
    | main | page | clear | answer | serve => cases hl

/-- What the site can do the daemon can, if its runs can start wherever `Sync` is. -/
theorem exists_calmRun (gin : Gin) (hs : HostSort) {d₀ : Daemon} {ms : List AghSync.Label}
    {s : Site} (h : Site.Run w outage d₀.site ms s) (hstarts : ∀ i t, .start i t ∈ ms →
      ∃ cause : Cause, cause.trigger = t ∧ d₀.control.Starts gin w.cfg.api i cause d₀.control) :
    ∃ ls d, CalmRun gin w hs outage d₀ ls d ∧ d.site = s ∧ d.control = d₀.control ∧
      ls.filterMap Label.site = ms := by
  induction h with
  | nil => exact ⟨[], d₀, .nil, rfl, rfl, rfl⟩
  | @concat ms m s s' _ hlast ih =>
    obtain ⟨ls, d, hrun, rfl, hcontrol, hms⟩ :=
      ih fun i t ht => hstarts i t (List.mem_append_left _ ht)
    obtain ⟨hu, hstep⟩ := hlast
    obtain ⟨logs, hlogs⟩ := logged_refl d.logs
    have hcalm : ∀ {l : Label}, l.site = some m →
        ∀ m', l.site = some m' → d.site.pool.Undisturbed m' := by
      intro l hl m' hm'
      obtain rfl := Option.some.inj (hl.symm.trans hm')
      exact hu
    cases m with
    | start i t =>
      obtain ⟨cause, rfl, hcause⟩ := hstarts i t (by simp)
      rw [← hcontrol] at hcause
      refine ⟨_, _, hrun.concat ⟨hcalm rfl, .start hcause hstep hlogs⟩, rfl, hcontrol, ?_⟩
      rw [List.filterMap_append, hms]
      rfl
    | act i e =>
      refine ⟨_, _, hrun.concat ⟨hcalm rfl, .act hstep hlogs⟩, rfl, hcontrol, ?_⟩
      rw [List.filterMap_append, hms]
      rfl

/-! ## A daemon -/

/-- Lets through the user `u` with the password `p`. -/
def sampleGin : Gin where
  basicAuth username password authorization :=
    username = "u" && password = "p" && authorization = "Basic dTpw"

/-- A request for a run, from that user. -/
def postSync : Request :=
  ⟨"POST", "/api/v1/sync", "Basic dTpw"⟩

/-- A health check, from anybody. -/
def getHealthz : Request :=
  ⟨"GET", "/healthz", ""⟩

/-- A worker that starts with a run, and has an API that wants credentials. -/
def guardedWorker : Worker where
  deps := sampleDeps
  cfg := {
    listsWorker.cfg with
    runOnStart := true
    api := { port := 8080, username := "u", password := "p" } }

theorem dispatch_postSync : guardedWorker.cfg.api.dispatch sampleGin postSync = .handle .sync := by
  decide

/-- The daemon when it has started the run on start, and the server. -/
def servingDaemon (x : World) : Daemon where
  site := ⟨⟨false, Function.update (fun _ => none) 0
    (some ⟨.runOnStart, [], guardedWorker.sync⟩)⟩, x⟩
  pages _ := none
  logs := []
  control := ⟨.ask .listenAndServe Empty.elim, none, false, true⟩

theorem syncMain_guardedWorker : syncMain guardedWorker.cfg =
    .ask .goSync fun _ => .ask .listenAndServe Empty.elim := by
  have hport : guardedWorker.cfg.api.port ≠ 0 := by decide
  simp only [syncMain, startCron, startServer, runOnStartAsync, if_pos hport]
  rfl

theorem run_servingDaemon (outage : Prop) (x : World) :
    CalmRun sampleGin guardedWorker .stable outage (initial guardedWorker x)
      [.start 0 .runOnStart, .main .listenAndServe] (servingDaemon x) := by
  have hcontrol : (Control.initial guardedWorker.cfg).Starts sampleGin guardedWorker.cfg.api 0
      .runOnStart ⟨.ask .listenAndServe Empty.elim, none, false, false⟩ :=
    .goSync (k := fun _ => .ask .listenAndServe Empty.elim) rfl syncMain_guardedWorker
  have hstart : Step sampleGin guardedWorker .stable outage (initial guardedWorker x)
      (.start 0 .runOnStart) { servingDaemon x with
        control := ⟨.ask .listenAndServe Empty.elim, none, false, false⟩ } :=
    .start hcontrol (.start .runOnStart rfl) ⟨[], rfl⟩
  have hserve : Step sampleGin guardedWorker .stable outage { servingDaemon x with
      control := ⟨.ask .listenAndServe Empty.elim, none, false, false⟩ } (.main .listenAndServe)
        (servingDaemon x) := .main (.listenAndServe rfl rfl) ⟨[], rfl⟩
  refine Execution.concat (.single ⟨fun m hm => ?start, hstart⟩) ⟨fun m hm => ?serve, hserve⟩
  case start =>
    obtain rfl := Option.some.inj hm
    trivial
  case serve => cases hm

/-! ## Who starts runs -/

/-- The runs that are started, with their causes. -/
def starts (ls : List Label) : List (ℕ × Cause) :=
  ls.filterMap fun
    | .start i cause => some (i, cause)
    | _ => none

/-- How many of them are the run on start. -/
def onStarts (ls : List Label) : ℕ :=
  ((starts ls).map Prod.snd).count .runOnStart

theorem starts_concat (ls : List Label) (i : ℕ) (cause : Cause) :
    starts (ls ++ [.start i cause]) = starts ls ++ [(i, cause)] := by
  rw [starts, List.filterMap_append]
  rfl

theorem starts_concat_of_ne (ls : List Label) (hl : ∀ i cause, l ≠ .start i cause) :
    starts (ls ++ [l]) = starts ls := by
  rw [starts, List.filterMap_append, ← starts]
  cases l with
  | start i cause => exact absurd rfl (hl i cause)
  | _ => exact List.append_nil _

/-- The runs are those that were started, each for a cause that the configuration allows. -/
structure Accounted (gin : Gin) (w : Worker) (ls : List Label) (d : Daemon) : Prop where
  nodup : ((starts ls).map Prod.fst).Nodup
  run : ∀ i a, d.site.pool.invocations i = some a →
    ∃ cause, (i, cause) ∈ starts ls ∧ a.trigger = cause.trigger
  started : ∀ i ∈ (starts ls).map Prod.fst, (d.site.pool.invocations i).isSome
  legitimate : ∀ cause ∈ (starts ls).map Prod.snd, cause.Legitimate gin w.cfg

theorem Accounted.start {i : ℕ} {cause : Cause} {s : Site} {logs : List String} {c : Control}
    (h : Accounted gin w ls d) (hcause : cause.Legitimate gin w.cfg)
    (hsite : Site.Step w outage d.site (.start i cause.trigger) s) :
    Accounted gin w (ls ++ [.start i cause]) ⟨s, d.pages, logs, c⟩ := by
  have hstarts := starts_concat ls i cause
  cases hsite with
  | start _ hi =>
    refine ⟨?_, fun j a ha => ?_, fun j hj => ?_, ?_⟩
    · rw [hstarts, List.map_append]
      refine h.nodup.append (List.nodup_singleton i) ?_
      intro j hj hj'
      obtain rfl := List.mem_singleton.mp hj'
      have hsome := h.started j hj
      rw [hi] at hsome
      cases hsome
    · rw [hstarts]
      rcases of_update_eq_some ha with ⟨rfl, rfl⟩ | ⟨-, ha⟩
      · exact ⟨cause, by simp, rfl⟩
      · obtain ⟨cause', hmem, htrigger⟩ := h.run j a ha
        exact ⟨cause', List.mem_append_left _ hmem, htrigger⟩
    · rw [hstarts, List.map_append] at hj
      by_cases hji : j = i
      · subst hji
        simp only [Function.update_self, Option.isSome_some]
      · simp only [Function.update_of_ne hji]
        refine h.started j ?_
        exact (List.mem_append.mp hj).resolve_right fun hj => hji (List.mem_singleton.mp hj)
    · rw [hstarts, List.map_append]
      refine List.forall_mem_append.mpr ⟨h.legitimate, fun cause' hcause' => ?_⟩
      obtain rfl := List.mem_singleton.mp hcause'
      exact hcause

/-- A step that starts no run keeps the account. -/
theorem Accounted.keep (h : Accounted gin w ls d) (hl : ∀ i cause, l ≠ .start i cause)
    (hruns : ∀ j, (d'.site.pool.invocations j).map Invocation.trigger =
      (d.site.pool.invocations j).map Invocation.trigger) :
    Accounted gin w (ls ++ [l]) d' := by
  have hstarts := starts_concat_of_ne ls hl
  refine ⟨hstarts ▸ h.nodup, fun i a ha => ?_, fun i hi => ?_, hstarts ▸ h.legitimate⟩
  · have htrigger := hruns i
    rw [ha, Option.map_some] at htrigger
    obtain ⟨b, hb, hsame⟩ := Option.map_eq_some_iff.mp htrigger.symm
    obtain ⟨cause, hmem, hcause⟩ := h.run i b hb
    exact ⟨cause, hstarts ▸ hmem, hsame.symm.trans hcause⟩
  · have hsome := h.started i (hstarts ▸ hi)
    rw [← Option.isSome_map (f := Invocation.trigger)] at hsome ⊢
    rwa [hruns i]

/-- One step of the daemon. -/
theorem Accounted.step (h : Accounted gin w ls d) (hc : d.control.Ordered w.cfg (onStarts ls))
    (hstep : Step gin w hs outage d l d') :
    Accounted gin w (ls ++ [l]) d' ∧ d'.control.Ordered w.cfg (onStarts (ls ++ [l])) := by
  have hsame : (∀ i cause, l ≠ .start i cause) → onStarts (ls ++ [l]) = onStarts ls :=
    fun hl => by rw [onStarts, starts_concat_of_ne ls hl, onStarts]
  cases hstep with
  | @start i cause s logs c hcause hsite hlogs =>
    refine ⟨h.start (hcause.legitimate hc) hsite, ?_⟩
    have hcount : onStarts (ls ++ [.start i cause]) =
        onStarts ls + if cause = .runOnStart then 1 else 0 := by
      rw [onStarts, starts_concat, List.map_append, List.count_append, ← onStarts]
      simp [List.count_singleton]
    rw [hcount]
    exact hc.starts hcause
  | main hgoes hlogs =>
    rw [hsame nofun]
    exact ⟨h.keep nofun fun _ => rfl, hc.goes hgoes⟩
  | act hsite hlogs =>
    rw [hsame nofun]
    exact ⟨h.keep nofun hsite.trigger_eq, hc⟩
  | page | clear | answer | serve =>
    rw [hsame nofun]
    exact ⟨h.keep nofun fun _ => rfl, hc⟩

theorem Accounted.of_run {x : World} (h : Run gin w hs outage (initial w x) ls d) :
    Accounted gin w ls d ∧ d.control.Ordered w.cfg (onStarts ls) := by
  induction h with
  | nil => exact ⟨⟨List.nodup_nil, nofun, nofun, nofun⟩, Control.ordered_initial w.cfg⟩
  | concat _ hstep ih => exact ih.1.step ih.2 hstep

/-- In every run of the daemon each run of the worker was started, once, by the start of the
program, a tick, or a `POST /api/v1/sync` that got past the credentials, as the configuration
allows. The start of the program starts at most one, and exactly one if it is configured, once
`Sync` has returned or waits for good. -/
theorem accounted {x : World} (h : Run gin w hs outage (initial w x) ls d) :
    Accounted gin w ls d ∧ onStarts ls ≤ 1 ∧
      (AtRest d.control.rest → onStarts ls = if w.cfg.runOnStart then 1 else 0) := by
  obtain ⟨haccounted, -, ⟨m, howes, hm⟩, -⟩ := Accounted.of_run h
  refine ⟨haccounted, ?_, fun hsettled => ?_⟩
  · split_ifs at hm <;> omega
  · rw [← hm, howes.eq_zero hsettled]
    rfl

/-- The run on start, then one that is asked for. -/
theorem accounted_sample : ∃ ls d,
    Run sampleGin guardedWorker .stable False (initial guardedWorker sampleWorld) ls d ∧
      starts ls = [(0, .runOnStart), (1, .request postSync)] ∧ onStarts ls = 1 ∧
      Accounted sampleGin guardedWorker ls d := by
  have hrun : Run sampleGin guardedWorker .stable False (initial guardedWorker sampleWorld)
      ([.start 0 .runOnStart, .main .listenAndServe] ++ [.start 1 (.request postSync)]) _ :=
    (run_servingDaemon False sampleWorld).run.concat
      (.start (.request rfl dispatch_postSync) (.start .api rfl) ⟨[], rfl⟩)
  obtain ⟨haccounted, -, honce⟩ := accounted hrun
  exact ⟨_, _, hrun, rfl, honce trivial, haccounted⟩

/-! ## Who has no influence -/

/-- The step is about a request without the credentials. -/
def Label.outside (gin : Gin) (api : API) : Label → Bool
  | start _ (.request req) | page _ req | clear req | answer req | serve _ req _ =>
    !api.accepts gin req
  | _ => false

/-- The page as those with credentials see it. -/
def Page.inside (gin : Gin) (api : API) (p : Page) : Bool :=
  api.accepts gin p.req

/-- `d'` is `d` without what is done for those who have no credentials. -/
structure Purged (gin : Gin) (api : API) (d d' : Daemon) : Prop where
  read : d.PagesRead
  site : d'.site = d.site
  control : d'.control = d.control
  pages : ∀ j, d'.pages j = (d.pages j).filter (Page.inside gin api)

/-- A step for somebody without credentials is nothing for the rest. -/
theorem Purged.skip {d₁ : Daemon} (h : Purged gin w.cfg.api d d₁)
    (hl : l.outside gin w.cfg.api = true) (hstep : Step gin w hs outage d l d') :
    Purged gin w.cfg.api d' d₁ := by
  have hread := h.read.step hstep
  cases hstep with
  | @start i cause s logs c hcause hsite hlogs =>
    cases cause with
    | runOnStart | tick => cases hl
    | request req =>
      cases hcause with
      | request hserving hroute =>
        rw [Label.outside, API.accepts_of_dispatch hroute nofun] at hl
        cases hl
  | clear hserving hroute =>
    rw [Label.outside, API.accepts_of_dispatch hroute nofun] at hl
    cases hl
  | answer => exact h
  | main | act => cases hl
  | @page j req hd logs hserving hroute hpage hj hlogs =>
    refine ⟨hread, h.site, h.control, fun k => ?_⟩
    have haccepts : w.cfg.api.accepts gin req = false := by
      simpa [Label.outside] using hl
    rw [h.pages k]
    by_cases hk : k = j
    · subst hk
      simp only [hj, Function.update_self, Option.filter_some, Page.inside, haccepts]
      rfl
    · simp only [Function.update_of_ne hk]
  | @serve j req past e k r x logs hj hr hlogs =>
    obtain rfl := h.read.eq_world hj hr
    refine ⟨hread, h.site, h.control, fun k' => ?_⟩
    have haccepts : w.cfg.api.accepts gin req = false := by
      simpa [Label.outside] using hl
    rw [h.pages k']
    by_cases hk : k' = j
    · subst hk
      simp only [hj, Function.update_self, Option.filter_some, Page.inside, haccepts]
      rfl
    · simp only [Function.update_of_ne hk]

/-- A step for somebody with credentials is the same step for the rest. -/
theorem Purged.follow {d₁ : Daemon} (h : Purged gin w.cfg.api d d₁)
    (hl : l.outside gin w.cfg.api = false) (hstep : Step gin w hs outage d l d') :
    ∃ d₁', Step gin w hs outage d₁ l d₁' ∧ Purged gin w.cfg.api d' d₁' := by
  have hread := h.read.step hstep
  obtain ⟨s₁, pages₁, logs₁, control₁⟩ := d₁
  obtain ⟨-, rfl, rfl, hpages⟩ := h
  have hpages : ∀ j, pages₁ j = (d.pages j).filter (Page.inside gin w.cfg.api) := hpages
  obtain ⟨logs', hlogged⟩ := logged_refl logs₁
  cases hstep with
  | start hcause hsite hlogs =>
    exact ⟨_, .start hcause hsite hlogged, hread, rfl, rfl, hpages⟩
  | main hgoes hlogs => exact ⟨_, .main hgoes hlogged, hread, rfl, rfl, hpages⟩
  | clear hserving hroute => exact ⟨_, .clear hserving hroute, hread, rfl, rfl, hpages⟩
  | answer hserving hroute => exact ⟨_, .answer hserving hroute, hread, rfl, rfl, hpages⟩
  | act hsite hlogs => exact ⟨_, .act hsite hlogged, hread, rfl, rfl, hpages⟩
  | @page j req hd logs hserving hroute hpage hj hlogs =>
    have hj₁ : pages₁ j = none := by
      rw [hpages j, hj]
      rfl
    refine ⟨_, .page hserving hroute hpage hj₁ hlogged, hread, rfl, rfl, fun k => ?_⟩
    have haccepts : w.cfg.api.accepts gin req = true := by
      simpa [Label.outside] using hl
    by_cases hk : k = j
    · subst hk
      simp only [Function.update_self, Option.filter_some, Page.inside, haccepts, if_true]
    · simp only [Function.update_of_ne hk, hpages k]
  | @serve j req past e k r x logs hj hr hlogs =>
    have haccepts : w.cfg.api.accepts gin req = true := by
      simpa [Label.outside] using hl
    have hj₁ : pages₁ j = some ⟨req, past, .ask e k⟩ := by
      rw [hpages j, hj, Option.filter_some, Page.inside, haccepts, if_pos rfl]
    refine ⟨_, .serve hj₁ hr hlogged, hread, rfl, rfl, fun k' => ?_⟩
    by_cases hk : k' = j
    · subst hk
      simp only [Function.update_self, Option.filter_some, Page.inside, haccepts, if_true]
    · simp only [Function.update_of_ne hk, hpages k']

/-- Whatever those without credentials send, and however their requests are interleaved with the
rest : without these requests the daemon can run in the same way, with the same runs of the
worker, the same instances, and the same pages for everybody else. -/
theorem noninterference {x : World} (h : Run gin w hs outage (initial w x) ls d) :
    ∃ d', Run gin w hs outage (initial w x) (ls.filter fun l => !l.outside gin w.cfg.api) d' ∧
      d'.site = d.site ∧ d'.control = d.control ∧
      ∀ j, d'.pages j = (d.pages j).filter (Page.inside gin w.cfg.api) := by
  have hinitial : Purged gin w.cfg.api (initial w x) (initial w x) :=
    ⟨pagesRead_initial w x, rfl, rfl, fun _ => rfl⟩
  obtain ⟨d', hrun, hpurged⟩ := h.simulate
    (Option.guard fun l : Label => !l.outside gin w.cfg.api) (Purged gin w.cfg.api)
    (fun d l d' d₁ hl hsim hstep => hsim.skip (by simpa [Option.guard] using hl) hstep)
    (fun d l d' d₁ m hl hsim hstep => by
      obtain ⟨rfl, hl⟩ := Option.guard_eq_some_iff.mp hl
      exact hsim.follow (by simpa using hl) hstep) hinitial
  rw [List.filterMap_eq_filter] at hrun
  exact ⟨d', hrun, hpurged.site, hpurged.control, hpurged.pages⟩

/-- A health check while a run starts. -/
theorem noninterference_sample : ∃ ls d d',
    Run sampleGin guardedWorker .stable False (initial guardedWorker sampleWorld) ls d ∧
      ls.length = 5 ∧ Run sampleGin guardedWorker .stable False (initial guardedWorker sampleWorld)
        [.start 0 .runOnStart, .main .listenAndServe, .start 1 (.request postSync)] d' ∧
      d'.site = d.site := by
  have hrun : ∃ d, Run sampleGin guardedWorker .stable False (servingDaemon sampleWorld)
      [.page 0 getHealthz, .start 1 (.request postSync),
        .serve 0 getHealthz (.createClient .origin)] d :=
    ⟨_, .concat (.concat (.single (.page (h := .healthz) rfl (by decide) rfl rfl ⟨[], rfl⟩))
      (.start (.request rfl dispatch_postSync) (.start .api rfl) ⟨[], rfl⟩))
      (.serve (r := (Except.ok () : Except Err Unit)) rfl ⟨Or.inr rfl, rfl⟩ ⟨[], rfl⟩)⟩
  obtain ⟨d, hrun⟩ := hrun
  have hwhole := (run_servingDaemon False sampleWorld).run.trans hrun
  obtain ⟨d', hrun', hsite, -⟩ := noninterference hwhole
  exact ⟨_, d, d', hwhole, rfl, hrun', hsite⟩

/-! ## The health check during a run -/

/-- A page that was asked for while the flag was set, and has not found it unset. -/
structure Waits (w : Worker) (hs : HostSort) (j : ℕ) (req : Request) (d : Daemon) : Prop where
  running : d.site.pool.running = true
  page : ∃ past rest, d.pages j = some ⟨req, past, rest⟩ ∧ SeenRunning past ∧
    ∀ tr out, rest.Runs tr out → (w.status hs).Runs (past ++ tr) out

theorem Waits.step {j : ℕ} {req : Request} (hl : ∀ i, l ≠ .act i (.setRunning false))
    (h : Waits w hs j req d) (hstep : Step gin w hs outage d l d') : Waits w hs j req d' := by
  obtain ⟨hrunning, past, rest, hj, hseen, hruns⟩ := h
  cases hstep with
  | start hcause hsite hlogs =>
    cases hsite
    exact ⟨hrunning, past, rest, hj, hseen, hruns⟩
  | main | clear | answer => exact ⟨hrunning, past, rest, hj, hseen, hruns⟩
  | @act i e s logs hsite hlogs =>
    cases hsite with
    | act hi hr =>
      refine ⟨?_, past, rest, hj, hseen, hruns⟩
      cases e with
      | setRunning b =>
        cases b with
        | true => rfl
        | false => exact absurd rfl (hl i)
      | _ => exact hrunning
  | @page k req' h logs hserving hroute hpage hk hlogs =>
    refine ⟨hrunning, past, rest, (Function.update_of_ne ?_ _ _).trans hj, hseen, hruns⟩
    rintro rfl
    rw [hj] at hk
    cases hk
  | @serve k req' past' e k' r x logs hk hr hlogs =>
    by_cases hkj : j = k
    · subst hkj
      cases hj.symm.trans hk
      refine ⟨hrunning, past ++ [⟨e, r⟩], k' r, Function.update_self .., fun b hb => ?_,
        fun tr out hrun => ?_⟩
      · rcases List.mem_append.mp hb with hb | hb
        · exact hseen b hb
        · cases List.mem_singleton.mp hb
          exact hr.1.trans hrunning
      · rw [List.append_assoc]
        exact hruns _ _ (.ask hrun)
    · exact ⟨hrunning, past, rest, (Function.update_of_ne hkj _ _).trans hj, hseen, hruns⟩

theorem exists_answers (outage : Prop) (s : Site) (e : Event) :
    ∃ r x, s.Answers outage ⟨e, r⟩ x := by
  cases e with
  | readRunning => exact ⟨_, _, rfl, rfl⟩
  | _ => exact World.exists_answers outage s.world _

/-- `Sync` is about to make the only run, or has made it and waits for it, or has returned. Nobody
else has done anything to the instances. -/
inductive Sole (w : Worker) (outage : Prop) (x : World) (ls : List Label) (d : Daemon) : Prop
  | waiting (hcontrol : d.control = .initial w.cfg) (hstarts : starts ls = [])
      (hnone : ∀ i, d.site.pool.invocations i = none) (hrunning : d.site.pool.running = false)
      (hworld : d.site.world = x)
  | started {i : ℕ} {a : Invocation}
      (hcontrol : d.control = ⟨.ret (), some i, false, false⟩ ∨
        d.control = ⟨.ret (), none, false, false⟩ ∧ a.rest = .ret ())
      (hstarts : starts ls = [(i, .runOnStart)]) (ha : d.site.pool.invocations i = some a)
      (hnone : ∀ j, j ≠ i → d.site.pool.invocations j = none) (hplaced : a.Placed w)
      (hderived : a.Derived w)
      (hrunning : d.site.pool.running = a.past.foldl (fun b y => flagAfter b y.1) false)
      (hworld : Along (World.Answers outage) a.past x d.site.world)

/-- With neither a scheduler nor a server `Sync` makes the run on start itself. -/
theorem syncMain_of_oneShot {cfg : Config} (hport : cfg.api.port = 0) (hcron : cfg.cron = "") :
    syncMain cfg = if cfg.runOnStart then .ask .sync .ret else .ret () := by
  have hnot : ¬cfg.api.port ≠ 0 := not_not.mpr hport
  simp only [syncMain, startCron, startServer, if_pos hcron, if_neg hnot]
  rfl

section Sole

variable {x : World} {cfg : Config} {c : Control} {i : ℕ} {cause : Cause} {e : MainEvent}
  {o : Option ℕ} {ended : ℕ → Prop}

theorem starts_of_oneShot (hport : cfg.api.port = 0) (hcron : cfg.cron = "")
    (h : (Control.initial cfg).Starts gin cfg.api i cause c) :
    cause = .runOnStart ∧ c = ⟨.ret (), some i, false, false⟩ := by
  rw [Control.initial, syncMain_of_oneShot hport hcron] at h
  split_ifs at h
  · cases h with
    | goSync hwaits h | tick h | request h => cases h
    | sync hwaits h =>
      cases h
      exact ⟨rfl, rfl⟩
  · cases h with
    | goSync hwaits h | sync hwaits h | tick h | request h => cases h

/-- Having returned, or waiting for its run, `Sync` starts nothing. -/
theorem not_starts_of_ret : ¬Control.Starts gin cfg.api ⟨.ret (), o, false, false⟩ i cause c := by
  intro h
  cases h with
  | goSync hwaits h | sync hwaits h | tick h | request h => cases h

theorem not_goes_of_oneShot (hport : cfg.api.port = 0) (hcron : cfg.cron = "") :
    ¬(Control.initial cfg).Goes ended e c := by
  intro h
  rw [Control.initial, syncMain_of_oneShot hport hcron] at h
  split_ifs at h
  all_goals
    cases h with
    | cronStart hwaits h | cronRun hwaits h | listenAndServe hwaits h => cases h
    | sync hwaits => cases hwaits

/-- All that is left of `Sync` is to wait for the run. -/
theorem goes_of_ret (h : Control.Goes ended ⟨.ret (), o, false, false⟩ e c) :
    ∃ i, o = some i ∧ ended i ∧ c = ⟨.ret (), none, false, false⟩ := by
  cases h with
  | cronStart hwaits h | cronRun hwaits h | listenAndServe hwaits h => cases h
  | sync hwaits hended => exact ⟨_, hwaits, hended, rfl⟩

/-- The only run starts. -/
theorem Sole.start (hport : w.cfg.api.port = 0) (hcron : w.cfg.cron = "") {s : Site}
    {logs : List String} (h : Sole w outage x ls d)
    (hcause : d.control.Starts gin w.cfg.api i cause c)
    (hsite : Site.Step w outage d.site (.start i cause.trigger) s) :
    Sole w outage x (ls ++ [.start i cause]) ⟨s, d.pages, logs, c⟩ := by
  cases h with
  | started hcontrol =>
    rcases hcontrol with hcontrol | ⟨hcontrol, -⟩
    · exact absurd (hcontrol ▸ hcause) not_starts_of_ret
    · exact absurd (hcontrol ▸ hcause) not_starts_of_ret
  | waiting hcontrol hstarts hnone hrunning hworld =>
    obtain ⟨rfl, rfl⟩ := starts_of_oneShot hport hcron (hcontrol ▸ hcause)
    cases hsite with
    | start _ hi =>
      refine .started (Or.inl rfl) ?_ (Function.update_self ..) (fun j hj => ?_)
        (.waiting rfl rfl) (fun tr out hrun => hrun) hrunning hworld
      · rw [starts_concat, hstarts]
        rfl
      · exact (Function.update_of_ne hj _ _).trans (hnone j)

/-- `Sync` returns after the only run. -/
theorem Sole.main (hport : w.cfg.api.port = 0) (hcron : w.cfg.cron = "") {logs : List String}
    (h : Sole w outage x ls d) (hgoes : d.control.Goes d.site.Ended e c) :
    Sole w outage x ls ⟨d.site, d.pages, logs, c⟩ := by
  cases h with
  | waiting hcontrol =>
    exact absurd (hcontrol ▸ hgoes) (not_goes_of_oneShot hport hcron)
  | @started i a hcontrol hstarts ha hnone hplaced hderived hrunning hworld =>
    rcases hcontrol with hcontrol | ⟨hcontrol, -⟩
    · rw [hcontrol] at hgoes
      obtain ⟨j, hj, ⟨b, hb, hret⟩, rfl⟩ := goes_of_ret hgoes
      obtain rfl := Option.some.inj hj
      obtain rfl := Option.some.inj (ha.symm.trans hb)
      exact .started (Or.inr ⟨rfl, hret⟩) hstarts ha hnone hplaced hderived hrunning hworld
    · rw [hcontrol] at hgoes
      obtain ⟨j, hj, -⟩ := goes_of_ret hgoes
      cases hj

/-- An event of the only run. -/
theorem Sole.act {e : Event} {s : Site} {logs : List String} (h : Sole w outage x ls d)
    (hsite : Site.Step w outage d.site (.act i e) s) :
    Sole w outage x ls ⟨s, d.pages, logs, d.control⟩ := by
  cases hsite with
  | @act _ t past _ k r x' hi hr =>
    cases h with
    | waiting _ _ hnone =>
      rw [hnone i] at hi
      cases hi
    | @started i' a hcontrol hstarts ha hnone hplaced hderived hrunning hworld =>
      obtain rfl : i = i' := by
        by_contra hne
        rw [hnone i hne] at hi
        cases hi
      obtain rfl := Option.some.inj (ha.symm.trans hi)
      have hcontrol : d.control = ⟨.ret (), some i, false, false⟩ := by
        rcases hcontrol with hcontrol | ⟨-, hret⟩
        · exact hcontrol
        · cases hret
      obtain ⟨hplaced', hmove⟩ := hplaced.act hr.fits
      have hanswers : World.Answers outage d.site.world ⟨e, r⟩ x' := by
        by_cases he : e = .readRunning
        · -- only the first event of a run reads the flag, which is not set then
          subst he
          have hpast : past = [] := by
            cases hplaced with
            | waiting hpast => exact hpast
            | checked _ hrest => cases hrest
            | inside _ hbody => exact absurd hbody Sched.not_body_readRunning
            | outside _ hdeferred => exact hdeferred.1.elim
          subst hpast
          exact ⟨Or.inr (hr.1.trans hrunning), hr.2⟩
        · exact hr.answers he
      refine .started (Or.inl hcontrol) hstarts (Function.update_self ..) (fun j hj => ?_) hplaced'
        ?_ ?_ ?_
      · exact (Function.update_of_ne hj _ _).trans (hnone j hj)
      · intro tr out hrun
        rw [List.append_assoc]
        exact hderived _ out (.ask hrun)
      · rw [List.foldl_append, ← hrunning]
        rfl
      · exact along_append.mpr ⟨_, hworld, x', hanswers, rfl⟩

/-- The server never accepts requests. -/
theorem Sole.serving_eq (h : Sole w outage x ls d) : d.control.serving = false := by
  cases h with
  | waiting hcontrol => rw [hcontrol, Control.initial]
  | started hcontrol => rcases hcontrol with hcontrol | ⟨hcontrol, -⟩ <;> rw [hcontrol]

theorem Sole.step (hport : w.cfg.api.port = 0) (hcron : w.cfg.cron = "")
    (h : Sole w outage x ls d) (hstep : Step gin w hs outage d l d') (hread : d.PagesRead) :
    Sole w outage x (ls ++ [l]) d' := by
  have hnever : d.control.serving ≠ true := by simp [h.serving_eq]
  have hkeep : ∀ {d : Daemon}, (∀ i cause, l ≠ .start i cause) → Sole w outage x ls d →
      Sole w outage x (ls ++ [l]) d := by
    intro d hl h
    have hstarts := starts_concat_of_ne ls hl
    cases h with
    | waiting hcontrol hls hnone hrunning hworld =>
      exact .waiting hcontrol (hstarts.trans hls) hnone hrunning hworld
    | started hcontrol hls ha hnone hplaced hderived hrunning hworld =>
      exact .started hcontrol (hstarts.trans hls) ha hnone hplaced hderived hrunning hworld
  cases hstep with
  | start hcause hsite hlogs => exact h.start hport hcron hcause hsite
  | main hgoes hlogs => exact hkeep nofun (h.main hport hcron hgoes)
  | page hserving | clear hserving | answer hserving => exact absurd hserving hnever
  | act hsite hlogs => exact hkeep nofun (h.act hsite)
  | serve hj hr hlogs =>
    obtain rfl := hread.eq_world hj hr
    refine hkeep nofun ?_
    cases h with
    | waiting hcontrol hls hnone hrunning hworld =>
      exact .waiting hcontrol hls hnone hrunning hworld
    | started hcontrol hls ha hnone hplaced hderived hrunning hworld =>
      exact .started hcontrol hls ha hnone hplaced hderived hrunning hworld

end Sole

/-- With neither a cron expression nor a port the program makes at most one run, and nobody gets
in between : what has happened to the instances is at any time a beginning of one run of the
worker. Without the run on start it is nothing, and with it `Sync` only returns after the whole
run. -/
theorem oneShot {x : World} (hport : w.cfg.api.port = 0) (hcron : w.cfg.cron = "")
    (h : Run gin w hs outage (initial w x) ls d) :
    ∃ tr post out, w.sync.Runs (tr ++ post) out ∧
      Along (World.Answers outage) tr x d.site.world ∧ (starts ls).length ≤ 1 ∧
      (w.cfg.runOnStart = false → tr = []) ∧
      (w.cfg.runOnStart = true → d.control.rest = .ret () → d.control.waits = none →
        post = [] ∧ out = some ()) := by
  have hsole : d.PagesRead ∧ Sole w outage x ls d := by
    induction h with
    | nil => exact ⟨pagesRead_initial w x, .waiting rfl rfl (fun _ => rfl) rfl rfl⟩
    | concat _ hstep ih => exact ⟨ih.1.step hstep, ih.2.step hport hcron hstep ih.1⟩
  have haccounted := (Accounted.of_run h).1
  cases hsole.2 with
  | waiting hcontrol hstarts _ _ hworld =>
    obtain ⟨tr, out, _, hrun, -⟩ := w.sync.exists_along (World.exists_answers outage) x
    refine ⟨[], tr, out, hrun, hworld, by simp [hstarts], fun _ => rfl, fun honStart hret => ?_⟩
    rw [hcontrol, Control.initial, syncMain_of_oneShot hport hcron, if_pos honStart] at hret
    cases hret
  | @started i a hcontrol hstarts ha _ _ hderived _ hworld =>
    have hones : (starts ls).length ≤ 1 := by simp [hstarts]
    have honStart : w.cfg.runOnStart = true :=
      haccounted.legitimate .runOnStart (by simp [hstarts])
    have hnot : w.cfg.runOnStart ≠ false := by simp [honStart]
    rcases hcontrol with hcontrol | ⟨hcontrol, hret⟩
    · obtain ⟨tr, out, _, hrun, -⟩ := a.rest.exists_along (World.exists_answers outage) x
      refine ⟨a.past, tr, out, hderived tr out hrun, hworld, hones,
        fun hoff => absurd hoff hnot, fun _ _ hwaits => ?_⟩
      rw [hcontrol] at hwaits
      cases hwaits
    · refine ⟨a.past, [], some (), hderived [] _ ?_, hworld, hones,
        fun hoff => absurd hoff hnot, fun _ _ _ => ⟨rfl, rfl⟩⟩
      rw [hret]
      exact .ret ()

/-- A worker that makes one run. -/
def oneShotWorker : Worker where
  deps := sampleDeps
  cfg := { listsWorker.cfg with runOnStart := true }

theorem oneShotWorker_healthy : oneShotWorker.Healthy sampleWorld :=
  ⟨sampleWorld_healthy.supported, fun r hr =>
    ⟨(sampleWorld_healthy.syncs r hr).supported, (sampleWorld_healthy.syncs r hr).sound,
      (sampleWorld_healthy.syncs r hr).fit⟩⟩

/-- The daemon when `Sync` has called the only run. -/
def oneShotDaemon (x : World) : Daemon where
  site := ⟨⟨false, Function.update (fun _ => none) 0
    (some ⟨.runOnStart, [], oneShotWorker.sync⟩)⟩, x⟩
  pages _ := none
  logs := []
  control := ⟨.ret (), some 0, false, false⟩

theorem step_oneShotDaemon (x : World) : Step sampleGin oneShotWorker .stable False
    (initial oneShotWorker x) (.start 0 .runOnStart) (oneShotDaemon x) := by
  have hmain : syncMain oneShotWorker.cfg = .ask .sync .ret := syncMain_of_oneShot rfl rfl
  have hcontrol : (Control.initial oneShotWorker.cfg).Starts sampleGin oneShotWorker.cfg.api 0
      .runOnStart ⟨.ret (), some 0, false, false⟩ := .sync (k := .ret) rfl hmain
  exact .start hcontrol (.start .runOnStart rfl) ⟨[], rfl⟩

/-- The only run comes to its end, and `Sync` returns. -/
theorem oneShot_sample : ∃ ls d tr,
    Run sampleGin oneShotWorker .stable False (initial oneShotWorker sampleWorld) ls d ∧
      d.control.rest = .ret () ∧ (starts ls).length ≤ 1 ∧ oneShotWorker.sync.Runs tr (some ()) ∧
      Along World.Works tr sampleWorld d.site.world := by
  obtain ⟨tr, out, x', hrun, hw⟩ := oneShotWorker.sync.exists_along (World.exists_answers False)
    sampleWorld
  obtain ⟨rfl, -⟩ := (oneShotWorker.ensures_sync oneShotWorker_healthy).of_runs hrun hw
  obtain ⟨hflag, -⟩ := Site.along_flag_of_sync hrun hw
  have hpool : (oneShotDaemon sampleWorld).site.pool.invocations =
      Function.update (fun _ => none) 0 (some ⟨.runOnStart, [], oneShotWorker.sync⟩) := rfl
  have hothers : ∀ j a, j ≠ 0 →
      (oneShotDaemon sampleWorld).site.pool.invocations j = some a → ¬a.Owns := by
    intro j a hj ha
    rw [hpool, Function.update_of_ne hj] at ha
    cases ha
  obtain ⟨ms, s, hsite, -, rfl, hended, -, -, hacts⟩ :=
    Site.exists_run_of_runs (w := oneShotWorker) (t := .runOnStart) hrun
      (s := (oneShotDaemon sampleWorld).site) (by rw [hpool, Function.update_self]) hothers hflag hw
  obtain ⟨ls, d, hcalm, rfl, hcontrol, -⟩ :=
    exists_calmRun sampleGin .stable hsite fun i t hstart => by
      obtain ⟨e, he⟩ := hacts _ hstart
      cases he
  have hgoes : d.control.Goes d.site.Ended .sync ⟨.ret (), none, false, false⟩ := by
    rw [hcontrol]
    exact .sync (c := ⟨.ret (), some 0, false, false⟩) rfl ⟨_, hended, rfl⟩
  have hwhole := ((Execution.single (step_oneShotDaemon sampleWorld)).trans hcalm.run).concat
    (.main hgoes ⟨[], rfl⟩)
  obtain ⟨tr', post, out, hruns, hw', hone, -, hend⟩ := oneShot rfl rfl hwhole
  obtain ⟨rfl, rfl⟩ := hend rfl rfl rfl
  rw [List.append_nil] at hruns
  exact ⟨_, _, tr', hwhole, rfl, hone, hruns, hw'⟩

/-! ## Convergence -/

/-- Whatever has failed before, and whatever else the daemon is asked for : once two runs have come
to their end without a failure all replicas mirror the origin, which is as it was. -/
theorem converges {x : World} {ls₁ ls₂ : List Label} {d₁ d₂ : Daemon} (hx : w.Healthy x)
    (h₁ : CalmRun gin w hs True (initial w x) ls₁ d₁) (hidle₁ : d₁.site.Idle)
    (h₂ : CalmRun gin w hs False d₁ ls₂ d₂) (hidle₂ : d₂.site.Idle)
    (hpasses : 2 ≤ passes (ls₂.filterMap Label.site)) :
    d₂.site.world .origin = x .origin ∧ w.Mirrored d₂.site.world := by
  obtain ⟨hread, hsite₁⟩ := h₁.site (pagesRead_initial w x)
  exact Site.mirrored_of_runs hx hsite₁ hidle₁ (h₂.site hread).2 hidle₂ hpasses

theorem guardedWorker_healthy : guardedWorker.Healthy sampleWorld :=
  ⟨sampleWorld_healthy.supported, fun r hr =>
    ⟨(sampleWorld_healthy.syncs r hr).supported, (sampleWorld_healthy.syncs r hr).sound,
      (sampleWorld_healthy.syncs r hr).fit⟩⟩

/-- Two runs that are asked for, after the run on start was started. -/
theorem converges_sample : ∃ ls₁ ls₂ d₁ d₂,
    CalmRun sampleGin guardedWorker .stable True (initial guardedWorker sampleWorld) ls₁ d₁ ∧
      CalmRun sampleGin guardedWorker .stable False d₁ ls₂ d₂ ∧
      passes (ls₂.filterMap Label.site) = 2 ∧ guardedWorker.Mirrored d₂.site.world := by
  have hserving := run_servingDaemon True sampleWorld
  have hidle : (servingDaemon sampleWorld).site.Idle := by
    intro i a ha
    have ha : Function.update (fun _ => none) 0
        (some ⟨.runOnStart, [], guardedWorker.sync⟩) i = some a := ha
    rcases of_update_eq_some ha with ⟨-, rfl⟩ | ⟨-, ha⟩
    · exact Invocation.not_owns_of_past_nil rfl
    · cases ha
  obtain ⟨x₁, hround₁⟩ := Worker.exists_round (w := guardedWorker) False sampleWorld
  obtain ⟨ls₁, s₁, h₁, rfl, hidle₁, hrunning, hsame, hpasses₁, hstarts₁⟩ :=
    Site.exists_run_of_round (i := 1) hround₁ hidle rfl rfl
  obtain ⟨x₂, hround₂⟩ := Worker.exists_round (w := guardedWorker) False s₁.world
  obtain ⟨ls₂, s₂, h₂, -, hidle₂, -, -, hpasses₂, hstarts₂⟩ :=
    Site.exists_run_of_round hround₂ hidle₁ hrunning (hsame 2 (by decide))
  have hpasses : passes (ls₁ ++ ls₂) = 2 := by
    rw [passes, List.countP_append]
    exact congrArg₂ (· + ·) hpasses₁ hpasses₂
  obtain ⟨ls, d, hrun, rfl, -, hls⟩ := exists_calmRun sampleGin .stable (h₁.trans h₂)
    fun i t ht => ⟨.request postSync,
      ((List.mem_append.mp ht).elim (hstarts₁ i t) (hstarts₂ i t)).symm,
      .request rfl dispatch_postSync⟩
  rw [← hls] at hpasses
  exact ⟨_, ls, _, d, hserving, hrun, hpasses,
    (converges guardedWorker_healthy hserving hidle hrun hidle₂ hpasses.ge).2⟩

end Daemon

end AghSync
