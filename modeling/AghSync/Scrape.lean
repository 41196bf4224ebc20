import AghSync.Interaction
import AghSync.Metrics
import AghSync.Client

/-!
# Scraping

`worker.scrape` asks every instance for its status, its statistics and its query log, and then
updates the metrics. Errors of the three calls are dropped, as each comes with a document. If
the client of an instance cannot be created its metrics are the zero value, without a status,
and the update dereferences it. It also dereferences the type of every answer of a query log.
-/

open Interaction Interaction.Prog

namespace AghSync

open Model

namespace Metrics

/-- What a scrape does to the world. The last is the iterations over maps during the update. -/
inductive ScrapeEvent
  | createClient (inst : AdGuardInstance)
  | status (inst : AdGuardInstance)
  | stats (inst : AdGuardInstance)
  | queryLog (inst : AdGuardInstance) (limit : ℤ)
  | ranges

/-- The replies. A request is answered with a document, as far as it could be read, and perhaps
an error. -/
abbrev ScrapeReply : ScrapeEvent → Type
  | .createClient _ => Except Err Unit
  | .status _ => ServerStatus × Option Err
  | .stats _ => Stats × Option Err
  | .queryLog _ _ => QueryLog × Option Err
  | .ranges => ℕ → Orders

/-- A program that scrapes. -/
abbrev Scraping := Prog ScrapeEvent ScrapeReply

/-- Perform an event. -/
def ask (e : ScrapeEvent) : Scraping (ScrapeReply e) :=
  Prog.perform e

/-- `worker.getMetrics`. -/
def getMetrics (cfg : Config) (inst : AdGuardInstance) : Scraping InstanceMetrics := do
  match ← ask (.createClient inst) with
  | .error _ => pure {}
  | .ok _ =>
    let status ← ask (.status inst)
    let stats ← ask (.stats inst)
    let queryLog ← ask (.queryLog inst cfg.api.metrics.queryLogLimit)
    pure {
      hostName := inst.host
      status := some status.1
      stats := some stats.1
      queryLog := some queryLog.1 }

/-- The metrics of the instances, one after the other. -/
def getAllMetrics (cfg : Config) : List AdGuardInstance → Scraping (List InstanceMetrics)
  | [] => pure []
  | inst :: insts => do
    let im ← getMetrics cfg inst
    let iml ← getAllMetrics cfg insts
    pure (im :: iml)

/-- `worker.scrape`, where `r` is what has been exported. -/
def scrape (cfg : Config) (r : Registry) : Scraping Registry := do
  let iml ← getAllMetrics cfg (cfg.origin :: cfg.replicas)
  let orders ← ask .ranges
  match updateInstances (iml.mapIdx fun i im => (im, orders i)) r with
  | some r => pure r
  | none => .crash

/-! ## Runs -/

/-- The metrics of the instances whose client was created, as they were answered. -/
def collected : Trace ScrapeEvent ScrapeReply → List InstanceMetrics
  | ⟨.createClient inst, .ok _⟩ :: ⟨.status _, status⟩ :: ⟨.stats _, stats⟩ ::
      ⟨.queryLog _ _, queryLog⟩ :: tr =>
    { hostName := inst.host
      status := some status.1
      stats := some stats.1
      queryLog := some queryLog.1 } :: collected tr
  | _ :: tr => collected tr
  | [] => []

/-- A client is created, and every answer of a query log has a type. -/
def Fit : Entry ScrapeEvent ScrapeReply → Prop
  | ⟨.createClient _, created⟩ => created = .ok ()
  | ⟨.queryLog _ _, queryLog⟩ => queryLog.1.Typed
  | _ => True

/-- The scrape comes to its end, and every host with an instance whose client was created shows
what its last such instance answered. -/
def Survives (tr : Trace ScrapeEvent ScrapeReply) (out : Option Registry) : Prop :=
  ∃ r, out = some r ∧ ∀ host im, latest (collected tr) host = some im → r.Shows im

section Runs

variable {cfg : Config} {inst : AdGuardInstance} {insts : List AdGuardInstance}
  {tr : Trace ScrapeEvent ScrapeReply}

/-- The metrics of an instance are complete exactly if the answers are fit, and are then what
was answered. -/
theorem runs_getMetrics {out : Option InstanceMetrics} (h : Runs (getMetrics cfg inst) tr out) :
    ∃ im, out = some im ∧ ((∀ x ∈ tr, Fit x) ↔ im.Complete) ∧
      (im.Complete → ∀ tr', collected (tr ++ tr') = im :: collected tr') := by
  obtain ⟨created, t, rfl, h₁⟩ := runs_ask.mp h
  rcases created with e | _
  · obtain ⟨rfl, rfl⟩ := runs_ret.mp h₁
    have hnot : ¬({} : InstanceMetrics).Complete := fun hc => by simpa using hc.status
    refine ⟨_, rfl, iff_of_false (fun hfit => ?_) hnot, fun hc => absurd hc hnot⟩
    cases hfit _ List.mem_cons_self
  · obtain ⟨status, t, rfl, h₂⟩ := runs_ask.mp h₁
    obtain ⟨stats, t, rfl, h₃⟩ := runs_ask.mp h₂
    obtain ⟨queryLog, t, rfl, h₄⟩ := runs_ask.mp h₃
    obtain ⟨rfl, rfl⟩ := runs_ret.mp h₄
    refine ⟨_, rfl, ⟨fun hfit => ⟨rfl, rfl, ?_⟩, fun hc => ?_⟩, fun _ tr' => rfl⟩
    · exact hfit ⟨.queryLog inst _, queryLog⟩ (by simp)
    · have hcreated : Fit ⟨.createClient inst, .ok ()⟩ := rfl
      have hlog : Fit ⟨.queryLog inst cfg.api.metrics.queryLogLimit, queryLog⟩ := hc.typed
      simp only [List.forall_mem_cons]
      exact ⟨hcreated, trivial, trivial, hlog, by simp⟩

theorem runs_getAllMetrics : ∀ {insts : List AdGuardInstance} {tr} {out},
    Runs (getAllMetrics cfg insts) tr out → ∃ ims, out = some ims ∧
      ((∀ x ∈ tr, Fit x) ↔ ∀ im ∈ ims, im.Complete) ∧
      ((∀ im ∈ ims, im.Complete) → ∀ tr', collected (tr ++ tr') = ims ++ collected tr')
  | [], tr, out, h => by
    obtain ⟨rfl, rfl⟩ := runs_ret.mp h
    exact ⟨[], rfl, by simp, by simp⟩
  | inst :: insts, tr, out, h => by
    rcases runs_bind.mp h with ⟨t₁, im, t₂, rfl, h₁, h₂⟩ | ⟨h₁, -⟩
    · obtain ⟨im, him, hfit₁, hcollected₁⟩ := runs_getMetrics h₁
      obtain rfl := Option.some.inj him
      rcases runs_bind.mp h₂ with ⟨t₂, ims, t₃, rfl, h₂, h₃⟩ | ⟨h₂, -⟩
      · obtain ⟨ims, hims, hfit₂, hcollected₂⟩ := runs_getAllMetrics h₂
        obtain rfl := Option.some.inj hims
        obtain ⟨rfl, rfl⟩ := runs_ret.mp h₃
        refine ⟨im :: ims, rfl, ?_, fun hc tr' => ?_⟩
        · rw [List.append_nil, List.forall_mem_append, hfit₁, hfit₂, List.forall_mem_cons]
        · obtain ⟨hc₁, hc₂⟩ := List.forall_mem_cons.mp hc
          rw [List.append_nil, List.append_assoc, hcollected₁ hc₁, hcollected₂ hc₂,
            List.cons_append]
      · obtain ⟨_, hims, -⟩ := runs_getAllMetrics h₂
        cases hims
    · obtain ⟨_, him, -⟩ := runs_getMetrics h₁
      cases him

/-- The update is the end of a scrape. -/
theorem runs_scrape {r : Registry} {out : Option Registry} (h : Runs (scrape cfg r) tr out) :
    ∃ t ims orders, tr = t ++ [⟨.ranges, orders⟩] ∧
      Runs (getAllMetrics cfg (cfg.origin :: cfg.replicas)) t (some ims) ∧
      out = updateInstances (ims.mapIdx fun i im => (im, orders i)) r := by
  rcases runs_bind.mp h with ⟨t, ims, t', rfl, h₁, h₂⟩ | ⟨h₁, -⟩
  · obtain ⟨orders, t', rfl, h₃⟩ := runs_ask.mp h₂
    change Runs (match updateInstances (ims.mapIdx fun i im => (im, orders i)) r with
      | some r => pure r
      | none => .crash) t' out at h₃
    cases hu : updateInstances (ims.mapIdx fun i im => (im, orders i)) r with
    | none =>
      rw [hu] at h₃
      obtain ⟨rfl, rfl⟩ := runs_crash.mp h₃
      exact ⟨t, ims, orders, rfl, h₁, hu.symm⟩
    | some r' =>
      rw [hu] at h₃
      obtain ⟨rfl, rfl⟩ := runs_ret.mp h₃
      exact ⟨t, ims, orders, rfl, h₁, hu.symm⟩
  · obtain ⟨_, hims, -⟩ := runs_getAllMetrics h₁
    cases hims

/-- A scrape survives exactly if every answer is fit. -/
theorem survives_iff (cfg : Config) (r : Registry) (tr : Trace ScrapeEvent ScrapeReply)
    (out : Option Registry) (h : Runs (scrape cfg r) tr out) :
    Survives tr out ↔ ∀ x ∈ tr, Fit x := by
  obtain ⟨t, ims, orders, rfl, hims, rfl⟩ := runs_scrape h
  obtain ⟨ims, heq, hfit, hcollected⟩ := runs_getAllMetrics hims
  obtain rfl := Option.some.inj heq
  have hmetrics : (ims.mapIdx fun i im => (im, orders i)).map Prod.fst = ims := by
    refine List.ext_getElem? fun i => ?_
    simp only [List.getElem?_map, List.getElem?_mapIdx, Option.map_map]
    exact Option.map_id'
  have hsome : (updateInstances (ims.mapIdx fun i im => (im, orders i)) r).isSome ↔
      ∀ x ∈ t ++ [⟨.ranges, orders⟩], Fit x := by
    have hrange : Fit ⟨.ranges, orders⟩ := trivial
    rw [isSome_updateInstances, hmetrics, ← hfit, List.forall_mem_append]
    simp [hrange]
  rw [← hsome]
  constructor
  · rintro ⟨r', hr', -⟩
    rw [hr']
    rfl
  · intro hr'
    have hcomplete := isSome_updateInstances.mp hr'
    rw [hmetrics] at hcomplete
    obtain ⟨r', hr'⟩ := Option.isSome_iff_exists.mp hr'
    refine ⟨r', hr', fun host im hlatest => ?_⟩
    have hcollected' : collected (t ++ [⟨.ranges, orders⟩]) = ims := by
      rw [hcollected hcomplete]
      exact List.append_nil ims
    rw [hcollected', ← hmetrics] at hlatest
    exact shows_latest hr' hlatest

end Runs

/-- A single instance that answers. -/
theorem survives_iff_sample :
    let inst : AdGuardInstance := { host := "a" }
    let tr : Trace ScrapeEvent ScrapeReply :=
      [⟨.createClient inst, .ok ()⟩, ⟨.status inst, ({}, none)⟩, ⟨.stats inst, ({}, none)⟩,
        ⟨.queryLog inst 0, ({}, none)⟩, ⟨.ranges, fun _ _ _ => .stored⟩]
    ∃ out, Survives tr out ↔ ∀ x ∈ tr, Fit x :=
  ⟨_, survives_iff { origin := { host := "a" } } .empty _ _
    (.ask (.ask (.ask (.ask (.ask (.ret _))))))⟩

/-- The client of the only instance cannot be created. -/
theorem not_survives :
    let inst : AdGuardInstance := { host := "a" }
    let tr : Trace ScrapeEvent ScrapeReply :=
      [⟨.createClient inst, .error (.other "port")⟩, ⟨.ranges, fun _ _ _ => .stored⟩]
    Runs (scrape { origin := inst } .empty) tr none ∧ ¬Survives tr none :=
  ⟨.ask (.ask .crash), fun ⟨_, h, _⟩ => by cases h⟩

end Metrics

end AghSync
