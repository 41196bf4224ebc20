import AghSync.Parts
import AghSync.Passes
import AghSync.Scenario

/-!
# Runs that converge

A run of the worker ends, syncs every replica once and leaves the origin alone (`ensures_sync`),
and where nothing fails each replica gets what the tasks plan for it. So two runs without
failures bring all replicas to the last stage, from wherever failing runs have left them
(`sync_converges`).
-/

open Interaction Interaction.Prog

namespace AghSync

open Model

/-! ## What the worker does -/

section RunActions

variable {outage : Prop} {ac : ActionContext} {g : Instance}

/-- The actions of the tasks come to their end. The replica is as the tasks need it afterwards,
and if nothing can fail they do what they plan. -/
theorem ensures_runActions (hsound : ∀ T ∈ ac.cfg.tasks, T.Sound g) :
    ∀ {Ts : List Task} {withError : Bool} {g' : Instance} {x : World},
      (∀ T ∈ Ts, T ∈ ac.cfg.tasks) → (∀ T ∈ ac.cfg.tasks, T.Fit (x ac.client.party).inst) →
      g'.Like g →
      (Worker.runActions ac (Ts.map Task.action) withError (g'.snapshot ac.cfg)).Ensures
        (World.Answers outage) x fun out x' => ∃ (b : Bool) (g'' : Instance) (ws : List Write),
          g''.Like g ∧ out = some ⟨b, false, g''.snapshot ac.cfg⟩ ∧
          x' = x.serve ac.client.party ws ∧
          (∀ T ∈ ac.cfg.tasks, T.Fit (x' ac.client.party).inst) ∧
          (outage ∨ b = withError ∧ Passes ac g Ts (x ac.client.party).inst ws)
  | [], withError, g', x, _, hfit, hlike =>
    ⟨withError, g', [], hlike, rfl, (x.serve_nil _).symm, hfit, Or.inr ⟨rfl, .nil _⟩⟩
  | T :: Ts, withError, g', x, hTs, hfit, hlike => by
    have hT := hTs T (by simp)
    have hTs' : ∀ T ∈ Ts, T ∈ ac.cfg.tasks := fun T' hT' => hTs T' (by simp [hT'])
    have hsound' := (hsound T hT).congr hlike
    refine Prog.ensures_bind.mpr (Prog.ensures_recover.mpr
      ((Task.ensures hT hsound' (hfit T hT)).mono ?_))
    rintro _ _ ⟨r, g₁, ws, hlike₁, rfl, rfl, hdone⟩
    have hfit' : ∀ T' ∈ ac.cfg.tasks,
        T'.Fit ((x.serve ac.client.party ws) ac.client.party).inst := fun T' hT' => by
      rw [World.serve_self]
      refine (hfit T' hT').of_part hsound' (hdone.elim (fun h => ?_) And.right)
      exact Or.inr ⟨ws, h.2, .refl _⟩
    have hrest := fun withError => @ensures_runActions hsound _ withError _ _ hTs' hfit'
      (hlike₁.trans hlike)
    rcases r with e | _
    · have houtage : outage := (hdone.resolve_left fun h => nomatch h.1).1
      cases hcoe : ac.cfg.continueOnError with
      | true =>
        simp only [Prog.Then]
        refine (hrest true).mono ?_
        rintro _ _ ⟨b, g₂, ws', hlike₂, rfl, rfl, hfit₂, -⟩
        exact ⟨b, g₂, ws ++ ws', hlike₂, rfl, x.serve_serve _ _ _, hfit₂, Or.inl houtage⟩
      | false =>
        simp only [Prog.Then]
        exact ⟨true, g₁, ws, hlike₁.trans hlike, rfl, rfl, hfit', Or.inl houtage⟩
    · refine (hrest withError).mono ?_
      rintro _ _ ⟨b, g₂, ws', hlike₂, rfl, rfl, hfit₂, hall⟩
      refine ⟨b, g₂, ws ++ ws', hlike₂, rfl, x.serve_serve _ _ _, hfit₂, ?_⟩
      rcases hdone with ⟨-, hplan⟩ | ⟨houtage, -⟩
      · refine hall.imp_right fun ⟨hb, hpasses⟩ => ⟨hb, .cons hlike hplan ?_⟩
        rwa [World.serve_self] at hpasses
      · exact Or.inl houtage

end RunActions

namespace Worker

variable (w : Worker) {outage : Prop} {g : Instance} {x x' x'' : World} {r : AdGuardInstance}

/-- What the actions on a replica know. -/
def contextOf (x : World) (r : AdGuardInstance) : ActionContext :=
  w.actionContext r (replicaClient r) ((x (.replica r)).inst.doc .status)

/-- The version of an instance is supported. -/
def Supports (i : Instance) : Prop :=
  w.deps.tooOld (i.doc .status) = false

/-- A replica can be synced from `g`. -/
structure Syncs (g : Instance) (x : World) (r : AdGuardInstance) : Prop where
  supported : w.Supports (x (.replica r)).inst
  sound : ∀ T ∈ w.cfg.tasks, T.Sound g
  fit : ∀ T ∈ w.cfg.tasks, T.Fit (x (.replica r)).inst

theorem Syncs.ready {w : Worker} (h : w.Syncs g x r) :
    Ready (w.contextOf x r) g w.cfg.tasks (x (.replica r)).inst :=
  ⟨w.cfg.pairwise_tasks, h.sound, h.fit, fun _ => rfl⟩

/-- The automatic setup changes nothing that is synced. -/
theorem ensures_statusWithSetup {σ : Type} {s : σ} {rc : Client} :
    (statusWithSetup r rc s).Ensures (World.Answers outage) x fun out x' =>
      ∃ (d : Except Err ServerStatus) (ws : List Write), out = some (d, s) ∧
        x' = x.serve rc.party ws ∧ ws.foldl Instance.apply (x rc.party).inst = (x rc.party).inst ∧
        (∀ rs, d = .ok rs → rs = (x rc.party).inst.doc .status) ∧
        (outage ∨ d = .ok ((x rc.party).inst.doc .status) ∧ ws = []) := by
  refine World.ensures_attempt_doGet_bind (fun houtage e => ?_) ?_
  · dsimp only
    split_ifs
    · rintro (e' | _) x₁ hsetup
      · obtain ⟨ws, hws, hx₁⟩ : ∃ ws : List Write, (ws = [] ∨ ∃ c, ws = [.installConfigure c]) ∧
            x₁ = x.serve rc.party ws := by
          rcases hsetup.2 with rfl | rfl
          · exact ⟨[], Or.inl rfl, (World.serve_nil ..).symm⟩
          · exact ⟨_, Or.inr ⟨_, rfl⟩, rfl⟩
        refine ⟨.error e, ws, rfl, hx₁, ?_, nofun, Or.inl houtage⟩
        rcases hws with rfl | ⟨c, rfl⟩ <;> rfl
      · obtain rfl : x₁ = _ := hsetup
        rintro (e' | rs) x₂ ⟨h, rfl⟩
        · exact ⟨.error e', _, rfl, rfl, rfl, nofun, Or.inl houtage⟩
        · refine ⟨.ok rs, _, rfl, rfl, rfl, fun rs' hrs => ?_, Or.inl houtage⟩
          rw [← Except.ok.inj hrs, h, World.serve_self]
          rfl
    · exact ⟨.error e, [], rfl, (x.serve_nil _).symm, rfl, nofun, Or.inl houtage⟩
  · exact ⟨_, [], rfl, (x.serve_nil _).symm, rfl, fun rs h => (Except.ok.inj h).symm,
      Or.inr ⟨rfl, rfl⟩⟩

theorem ensures_work {g' : Instance} (h : w.Syncs g x r) (hlike : g'.Like g) :
    (w.work r (replicaClient r) (g'.snapshot w.cfg)).Ensures (World.Answers outage) x
      fun out x' => ∃ (b : Bool) (g'' : Instance) (ws : List Write), g''.Like g ∧
        out = some ⟨b, false, g''.snapshot w.cfg⟩ ∧ x' = x.serve (.replica r) ws ∧
        (∀ T ∈ w.cfg.tasks, T.Fit (x' (.replica r)).inst) ∧
        (outage ∨ b = false ∧
          Passes (w.contextOf x r) g w.cfg.tasks (x (.replica r)).inst ws) := by
  refine Prog.ensures_bind.mpr (ensures_statusWithSetup.mono ?_)
  rintro _ _ ⟨d, ws, rfl, rfl, hsame, hstatus, hall⟩
  have hinst : (x.serve (.replica r) ws (.replica r)).inst = (x (.replica r)).inst :=
    (congrArg Served.inst (x.serve_self (.replica r) ws)).trans hsame
  have hfit : ∀ T ∈ w.cfg.tasks, T.Fit (x.serve (.replica r) ws (.replica r)).inst := by
    rw [hinst]
    exact h.fit
  rcases d with e | rs
  · have houtage := hall.resolve_right fun h => nomatch h.1
    exact ⟨true, g', ws, hlike, rfl, rfl, hfit, Or.inl houtage⟩
  · obtain rfl := hstatus rs rfl
    have hversion : w.deps.tooOld ((x (replicaClient r).party).inst.doc .status) = false :=
      h.supported
    show Prog.Ensures _ (if w.deps.tooOld _ = true then _ else _) _ _
    rw [hversion, setupActions_eq_tasks]
    refine (@ensures_runActions _ (w.contextOf x r) _ h.sound _ _ _ _ (fun T hT => hT) hfit
      hlike).mono ?_
    rintro _ _ ⟨b, g'', ws', hlike', rfl, rfl, hfit', hall'⟩
    refine ⟨b, g'', ws ++ ws', hlike', rfl, x.serve_serve _ _ _, hfit', ?_⟩
    rcases hall with houtage | ⟨-, rfl⟩
    · exact Or.inl houtage
    · rw [World.serve_nil] at hall'
      exact hall'

theorem ensures_syncTo {g' : Instance} (h : w.Syncs g x r) (hlike : g'.Like g) :
    (w.syncTo r (g'.snapshot w.cfg)).Ensures (World.Answers outage) x fun out x' =>
      ∃ (g'' : Instance) (ws : List Write) (rs : List (String × Bool)), g''.Like g ∧
        out = some (g''.snapshot w.cfg) ∧ x' = (x.serve (.replica r) ws).report rs ∧
        (∀ T ∈ w.cfg.tasks, T.Fit (x' (.replica r)).inst) ∧
        (outage ∨ rs = [(r.host, true)] ∧
          Passes (w.contextOf x r) g w.cfg.tasks (x (.replica r)).inst ws) := by
  refine Prog.ensures_perform_bind.mpr ?_
  rintro (e | _) x₁ ⟨hcreate, rfl⟩
  · refine ⟨g', [], [], hlike, rfl, ?_, h.fit, hcreate.imp_right nofun⟩
    simp [World.report]
  refine World.ensures_perform_bind (fun _ _ => id) fun start => ?_
  refine World.ensures_perform_bind (fun _ _ => id) fun stop => ?_
  refine Prog.ensures_bind.mpr ((w.ensures_work h hlike).mono ?_)
  rintro _ x₂ ⟨b, g'', ws, hlike', rfl, rfl, hfit, hall⟩
  refine Prog.ensures_perform_bind.mpr ?_
  rintro _ _ rfl
  refine ⟨g'', ws, [(r.host, !b)], hlike', rfl, rfl, hfit, ?_⟩
  exact hall.imp_right fun ⟨hb, hpasses⟩ => ⟨by rw [hb]; rfl, hpasses⟩

/-- Reading documents puts them into the snapshot. -/
theorem ensures_forEach_fetch {oc : Client} {Q : Act.Outcome Origin Err Unit → World → Prop}
    (herr : outage → ∀ e o, Q (some (.error e, o)) x) : ∀ {rs : List Read} {o : Origin},
      Q (some (.ok (), rs.foldl (fun o q => o.store q ((x oc.party).inst.doc q)) o)) x →
      (Act.forEach rs (fetch oc) o).Ensures (World.Answers outage) x Q
  | [], _, h => h
  | q :: rs, o, h => by
    refine Act.ensures_bind.mpr (World.ensures_doGet_bind (fun houtage e => herr houtage e o) ?_)
    exact @ensures_forEach_fetch _ _ herr rs _ h

/-- Reading an origin takes a snapshot of it. In an outage the profile can be missing. -/
theorem ensures_readOrigin {oc : Client} (h : w.Supports (x oc.party).inst) :
    (w.readOrigin oc {}).Ensures (World.Answers outage) x fun out x' => x' = x ∧
      ((∃ p : ProfileInfo, out =
          some (.ok (), ({ (x oc.party).inst with profile := p } : Instance).snapshot w.cfg) ∧
          (outage ∨ p = (x oc.party).inst.profile)) ∨
        outage ∧ ∃ e o, out = some (.error e, o)) := by
  have hversion : w.deps.tooOld ((x oc.party).inst.doc .status) = false := h
  have hrest : ∀ p : ProfileInfo, outage ∨ p = (x oc.party).inst.profile →
      (Act.forEach (originReads w.cfg) (fetch oc)
        { status := some ((x oc.party).inst.doc .status), profileInfo := some p }).Ensures
        (World.Answers outage) x fun out x' => x' = x ∧ ((∃ p : ProfileInfo, out =
          some (.ok (), ({ (x oc.party).inst with profile := p } : Instance).snapshot w.cfg) ∧
          (outage ∨ p = (x oc.party).inst.profile)) ∨
        outage ∧ ∃ e o, out = some (.error e, o)) := by
    intro p hp
    refine ensures_forEach_fetch (fun houtage e o => ⟨rfl, Or.inr ⟨houtage, e, o, rfl⟩⟩) ?_
    refine ⟨rfl, Or.inl ⟨p, ?_, hp⟩⟩
    simp only [originReads, List.foldl_append, Instance.snapshot]
    split_ifs <;> rfl
  refine Act.ensures_bind.mpr (World.ensures_doGet_bind
    (fun houtage e => ⟨rfl, Or.inr ⟨houtage, e, _, rfl⟩⟩) ?_)
  rw [Act.modify_bind_apply, hversion]
  refine Act.ensures_bind.mpr (World.ensures_attempt_doGet_bind (fun houtage e => ?_) ?_)
  · dsimp only
    split_ifs
    · exact hrest {} (Or.inl houtage)
    · exact ⟨rfl, Or.inr ⟨houtage, e, _, rfl⟩⟩
  · exact hrest _ (Or.inr rfl)

/-! ## All replicas -/

/-- The replicas `rs` are synced from the origin `g`, and this makes `x'` of `x`. -/
structure Synced (outage : Prop) (g : Instance) (rs : List AdGuardInstance) (x x' : World) :
    Prop where
  replicas : ∀ r ∈ rs, ∃ ws, x' (.replica r) = (x (.replica r)).serve ws ∧
    (∀ T ∈ w.cfg.tasks, T.Fit (x' (.replica r)).inst) ∧
    (outage ∨ Passes (w.contextOf x r) g w.cfg.tasks (x (.replica r)).inst ws)
  others : ∀ p, (∀ r ∈ rs, p ≠ .replica r) → x' p = x p
  results : outage ∨ x'.results = x.results ++ rs.map fun r => (r.host, true)

theorem contextOf_congr (h : x' (.replica r) = x (.replica r)) :
    w.contextOf x' r = w.contextOf x r := by
  rw [contextOf, contextOf, h]

theorem Syncs.congr {w : Worker} (h : w.Syncs g x r) (heq : x' (.replica r) = x (.replica r)) :
    w.Syncs g x' r := by
  obtain ⟨hsupported, hsound, hfit⟩ := h
  rw [← heq] at hsupported hfit
  exact ⟨hsupported, hsound, hfit⟩

theorem Syncs.with_profile {w : Worker} (h : w.Syncs g x r) (p : ProfileInfo) :
    w.Syncs { g with profile := p } x r := by
  refine ⟨h.supported, fun T hT => ?_, h.fit⟩
  have hsound := h.sound T hT
  cases T with
  | document a =>
    cases a with
    | setting s => cases s <;> exact hsound
    | _ => exact hsound
  | _ => exact hsound

/-- A replica, then the others. -/
theorem Synced.cons {w : Worker} {rs : List AdGuardInstance} {ws : List Write}
    {results : List (String × Bool)} (hr : r ∉ rs)
    (hx₁ : x' = (x.serve (.replica r) ws).report results)
    (hfit : ∀ T ∈ w.cfg.tasks, T.Fit (x' (.replica r)).inst)
    (hall : outage ∨ results = [(r.host, true)] ∧
      Passes (w.contextOf x r) g w.cfg.tasks (x (.replica r)).inst ws)
    (h : w.Synced outage g rs x' x'') : w.Synced outage g (r :: rs) x x'' := by
  have hother : ∀ p, p ≠ .replica r → x' p = x p := fun p hp => by
    rw [hx₁]
    exact World.serve_of_ne hp x ws
  refine ⟨fun r' hr' => ?_, fun p hp => ?_, ?_⟩
  · rcases List.mem_cons.mp hr' with rfl | hr'
    · have hsame : x'' (.replica r') = x' (.replica r') := h.others _ fun r₁ hr₁ he =>
        hr (Party.replica.inj he ▸ hr₁)
      refine ⟨ws, ?_, hsame ▸ hfit, hall.imp_right And.right⟩
      rw [hsame, hx₁]
      exact x.serve_self (.replica r') ws
    · have hne : Party.replica r' ≠ .replica r := fun he => hr (Party.replica.inj he ▸ hr')
      obtain ⟨ws', hws', hfit', hpasses'⟩ := h.replicas r' hr'
      rw [hother _ hne, contextOf_congr w (hother _ hne)] at *
      exact ⟨ws', hws', hfit', hpasses'⟩
  · rw [List.forall_mem_cons] at hp
    exact (h.others p hp.2).trans (hother p hp.1)
  · rcases hall with houtage | ⟨rfl, -⟩
    · exact Or.inl houtage
    · refine h.results.imp_right fun hresults => ?_
      rw [hresults, hx₁]
      simp [World.report]

theorem ensures_syncAll : ∀ {rs : List AdGuardInstance} {g' : Instance} {x : World}, rs.Nodup →
    (∀ r ∈ rs, w.Syncs g x r) → g'.Like g →
      (w.syncAll rs (g'.snapshot w.cfg)).Ensures (World.Answers outage) x fun out x' =>
        out = some () ∧ w.Synced outage g rs x x'
  | [], _, x, _, _, _ => ⟨rfl, nofun, fun _ _ => rfl, Or.inr (by simp)⟩
  | r :: rs, g', x, hnodup, hrs, hlike => by
    obtain ⟨hr, hnodup⟩ := List.nodup_cons.mp hnodup
    refine Prog.ensures_bind.mpr ((w.ensures_syncTo (hrs r (by simp)) hlike).mono ?_)
    rintro _ x₁ ⟨g'', ws, results, hlike', rfl, hx₁, hfit, hall⟩
    have hother : ∀ r' ∈ rs, x₁ (.replica r') = x (.replica r') := fun r' hr' => by
      have hne : Party.replica r' ≠ .replica r := fun he => hr (Party.replica.inj he ▸ hr')
      rw [hx₁]
      exact World.serve_of_ne hne x ws
    refine (ensures_syncAll hnodup (fun r' hr' => (hrs r' (by simp [hr'])).congr
      (hother r' hr')) hlike').mono ?_
    rintro out x' ⟨rfl, hsynced⟩
    exact ⟨rfl, hsynced.cons hr hx₁ hfit hall⟩

/-- The deferred part asks no instance. -/
theorem ensures_finish :
    w.finish.Ensures (World.Answers outage) x fun out x' => out = some () ∧ x' = x := by
  refine World.ensures_perform_bind (fun _ _ => id) fun _ => ?_
  refine World.ensures_perform_bind (fun _ _ => id) fun stop => ?_
  refine World.ensures_perform_bind (fun _ _ => id) fun _ => ?_
  split_ifs
  · refine World.ensures_perform_bind (fun _ _ => id) fun next => ?_
    cases next with
    | none => exact ⟨rfl, rfl⟩
    | some t =>
      rintro _ _ rfl
      exact ⟨rfl, rfl⟩
  · exact ⟨rfl, rfl⟩

/-- The replicas of the worker, in some order. -/
def replicas : List AdGuardInstance :=
  w.cfg.uniqueReplicas .stored

/-- Only replicas are written. -/
theorem exists_replica_of_write {w : Worker} {tr : Trace Event Reply} {out : Option Unit}
    (h : w.sync.Runs tr out) {p : Party} {wr : Write} {r : Except Err Unit}
    (hmem : ⟨.write p wr, r⟩ ∈ tr) : ∃ inst ∈ w.replicas, p = .replica inst := by
  rcases w.passed_or_early h with ⟨origin, o, order, all, tail, hpassed⟩ | hearly
  · have hperm : (w.cfg.uniqueReplicas order).Perm w.replicas :=
      KeyedMap.values_perm order .stored w.cfg.dedup
    have hall : ⟨.write p wr, r⟩ ∈ all := by
      rcases hpassed.mem.mp hmem with hx | hx | hx | hx | hx | hx | hx
      · cases hx
      · cases hx
      · cases hx
      · obtain ⟨q, hq⟩ := hpassed.read.reads _ hx
        cases hq
      · cases hx
      · exact hx
      · cases hpassed.party_tail hx
    obtain ⟨inst, hinst, hp⟩ := hpassed.party_all hall rfl
    exact ⟨inst, hperm.mem_iff.mp hinst, hp⟩
  · exact absurd rfl ((hearly _ hmem).ne_write p wr)

/-- The origin has a supported version, and every replica can be synced from it. -/
structure Healthy (x : World) : Prop where
  supported : w.Supports (x .origin).inst
  syncs : ∀ r ∈ w.replicas, w.Syncs (x .origin).inst x r

/-- What a run makes of a world : it syncs all replicas, or in an outage it ends before. -/
def Ran (outage : Prop) (x x' : World) : Prop :=
  outage ∧ x' = x ∨ ∃ p rs, rs.Perm w.replicas ∧
    w.Synced outage { (x .origin).inst with profile := p } rs x x' ∧
    (outage ∨ p = (x .origin).inst.profile)

theorem ensures_sync (h : w.Healthy x) : w.sync.Ensures (World.Answers outage) x
    fun out x' => out = some () ∧ w.Ran outage x x' := by
  refine Prog.ensures_perform_bind.mpr ?_
  rintro running x₁ ⟨hrunning, rfl⟩
  cases running with
  | true => exact ⟨rfl, Or.inl ⟨hrunning.resolve_right nofun, rfl⟩⟩
  | false =>
    refine World.ensures_perform_bind (fun _ _ => id) fun _ => ?_
    have hpass : w.pass.Ensures (World.Answers outage) x₁
        fun out x' => out = some () ∧ w.Ran outage x₁ x' := by
      refine Prog.ensures_perform_bind.mpr ?_
      rintro (e | _) x₂ ⟨hcreate, rfl⟩
      · exact ⟨rfl, Or.inl ⟨hcreate.resolve_right nofun, rfl⟩⟩
      refine Prog.ensures_bind.mpr ((w.ensures_readOrigin h.supported).mono ?_)
      rintro _ _ ⟨rfl, ⟨p, rfl, hp⟩ | ⟨houtage, e, o, rfl⟩⟩
      · refine World.ensures_perform_bind (fun _ _ => id) fun order => ?_
        have hperm : (w.cfg.uniqueReplicas order).Perm w.replicas :=
          KeyedMap.values_perm order .stored w.cfg.dedup
        refine (w.ensures_syncAll (w.cfg.nodup_uniqueReplicas order)
          (fun r hr => (h.syncs r (hperm.mem_iff.mp hr)).with_profile p) (.refl _)).mono ?_
        rintro out x' ⟨rfl, hsynced⟩
        exact ⟨rfl, Or.inr ⟨p, _, hperm, hsynced, hp⟩⟩
      · exact ⟨rfl, Or.inl ⟨houtage, rfl⟩⟩
    refine Prog.ensures_bind.mpr (Prog.ensures_recover.mpr (hpass.mono ?_))
    rintro _ x' ⟨rfl, hran⟩
    refine Prog.ensures_bind.mpr (w.ensures_finish.mono ?_)
    rintro _ _ ⟨rfl, rfl⟩
    exact ⟨rfl, hran⟩

/-! ## Run after run -/

/-- One run of the worker makes `x'` of `x`. -/
def Round (outage : Prop) (x x' : World) : Prop :=
  ∃ tr out, w.sync.Runs tr out ∧ Along (World.Answers outage) tr x x'

/-- The replicas have what the tasks keep in sync. -/
def Mirrored (x : World) : Prop :=
  ∀ r ∈ w.replicas, ∀ T ∈ w.cfg.tasks,
    T.Mirrors (w.contextOf x r) (x .origin).inst (x (.replica r)).inst

section Round

variable {w} {T : Task} {n : ℕ}

theorem exists_round (outage : Prop) (x : World) : ∃ x', w.Round outage x x' := by
  obtain ⟨tr, out, x', hrun, hw⟩ := w.sync.exists_along (World.exists_answers outage) x
  exact ⟨x', tr, out, hrun, hw⟩

/-- The run against instances that refuse some writes. -/
theorem Healthy.runs (hx : w.Healthy x) (outage : Prop) (refuses : Party → Write → Bool)
    (h : ∀ p wr, refuses p wr = true → outage) :
    w.sync.Runs (w.sync.transcript (World.respond refuses) x) (some ()) ∧
      Along (World.Answers outage) (w.sync.transcript (World.respond refuses) x) x
        (w.sync.exec (World.respond refuses) x).2 := by
  have hrun := runs_exec (World.respond refuses) w.sync x
  have hw := along_transcript (World.answers_respond refuses h) w.sync x
  rw [((w.ensures_sync hx).of_runs hrun hw).1] at hrun
  exact ⟨hrun, hw⟩

theorem Round.ran (h : w.Round outage x x') (hx : w.Healthy x) : w.Ran outage x x' := by
  obtain ⟨tr, out, hrun, hw⟩ := h
  exact ((w.ensures_sync hx).of_runs hrun hw).2

/-- Without an outage all replicas are synced. -/
theorem Ran.synced (h : w.Ran False x x') :
    ∃ rs, rs.Perm w.replicas ∧ w.Synced False (x .origin).inst rs x x' := by
  rcases h with h | ⟨p, rs, hperm, hsynced, hp⟩
  · exact h.1.elim
  · obtain rfl := hp.resolve_left id
    exact ⟨rs, hperm, hsynced⟩

theorem version_foldl_apply : ∀ {ws : List Write} {i : Instance},
    (ws.foldl Instance.apply i).version = i.version
  | [], _ => rfl
  | w :: ws, i => by
    have hstep : (i.apply w).version = i.version := by cases w <;> rfl
    exact (@version_foldl_apply ws _).trans hstep

/-- A run leaves the origin alone, and the instances fit for the next run. -/
theorem Round.next (h : w.Round outage x x') (hx : w.Healthy x) :
    x' .origin = x .origin ∧ w.Healthy x' := by
  rcases h.ran hx with ⟨-, rfl⟩ | ⟨p, rs, hperm, hsynced, -⟩
  · exact ⟨rfl, hx⟩
  have horigin : x' .origin = x .origin := hsynced.others .origin nofun
  refine ⟨horigin, ?_, fun r hr => ?_⟩
  · rw [horigin]
    exact hx.supported
  · obtain ⟨ws, hws, hfit, -⟩ := hsynced.replicas r (hperm.mem_iff.mpr hr)
    have hsyncs := hx.syncs r hr
    have hversion : (x' (.replica r)).inst.version = (x (.replica r)).inst.version := by
      rw [hws]
      exact version_foldl_apply
    have hsupported : w.deps.isNewerThan Versions.minAgh (x (.replica r)).inst.version = false :=
      hsyncs.supported
    rw [← hversion] at hsupported
    rw [horigin]
    exact ⟨hsupported, hsyncs.sound, hfit⟩

theorem Round.exists_passes (h : w.Round False x x') (hx : w.Healthy x) (hr : r ∈ w.replicas) :
    ∃ ws, Passes (w.contextOf x r) (x .origin).inst w.cfg.tasks (x (.replica r)).inst ws ∧
      x' (.replica r) = (x (.replica r)).serve ws := by
  obtain ⟨rs, hperm, hsynced⟩ := (h.ran hx).synced
  obtain ⟨ws, hws, -, hpasses⟩ := hsynced.replicas r (hperm.mem_iff.mpr hr)
  exact ⟨ws, hpasses.resolve_left id, hws⟩

theorem Round.eq_of_not_replica (h : w.Round False x x') (hx : w.Healthy x) {p : Party}
    (hp : ∀ r ∈ w.replicas, p ≠ .replica r) : x' p = x p := by
  obtain ⟨rs, hperm, hsynced⟩ := (h.ran hx).synced
  exact hsynced.others p fun r hr => hp r (hperm.mem_iff.mp hr)

/-- A run brings every replica a stage further with every task. -/
theorem Round.advance (h : w.Round False x x') (hx : w.Healthy x) (hr : r ∈ w.replicas)
    (hT : T ∈ w.cfg.tasks)
    (hi : T.Stage (w.contextOf x r) (x .origin).inst (x (.replica r)).inst n) :
    T.Stage (w.contextOf x' r) (x' .origin).inst (x' (.replica r)).inst (n + 1) := by
  obtain ⟨ws, hpasses, hws⟩ := h.exists_passes hx hr
  have hstage := hpasses.advance (hx.syncs r hr).ready hT hi
  rw [(h.next hx).1, hws]
  exact Task.Stage.of_status hstage

/-- Two runs bring the replicas to the last stage. -/
theorem mirrored_of_rounds (hx : w.Healthy x) (h : w.Round False x x')
    (h' : w.Round False x' x'') : w.Mirrored x'' := by
  intro r hr T hT
  have hfirst := h.advance (n := 0) hx hr hT ((hx.syncs r hr).fit T hT)
  exact h'.advance (h.next hx).2 hr hT hfirst

/-- Where the replicas mirror the origin a run changes no instance. -/
theorem Round.still (h : w.Round False x x') (hx : w.Healthy x) (hm : w.Mirrored x) (p : Party) :
    ∃ ws, x' p = ⟨(x p).inst, (x p).got ++ ws⟩ ∧
      ∀ wr ∈ ws, (∃ c, wr = .dnsConfig c) ∨ ∃ c, wr = .dhcpSetConfig c := by
  by_cases hp : ∃ r ∈ w.replicas, p = .replica r
  · obtain ⟨r, hr, rfl⟩ := hp
    obtain ⟨ws, hpasses, hws⟩ := h.exists_passes hx hr
    have hready := (hx.syncs r hr).ready
    refine ⟨ws, ?_, fun wr => hpasses.writes hready (hm r hr)⟩
    rw [hws, Served.serve, hpasses.still hready (hm r hr)]
  · refine ⟨[], ?_, by simp⟩
    rw [h.eq_of_not_replica hx fun r hr he => hp ⟨r, hr, he⟩, List.append_nil]

theorem Mirrored.congr (hm : w.Mirrored x) (h : ∀ p, (x' p).inst = (x p).inst) :
    w.Mirrored x' := by
  intro r hr T hT
  have hcontext : w.contextOf x' r = w.contextOf x r := by
    rw [contextOf, contextOf, h]
  rw [hcontext, h, h]
  exact hm r hr T hT

/-- Failing runs spoil nothing. -/
theorem healthy_of_rounds {x₀ : World} (hx : w.Healthy x₀)
    (h : Relation.ReflTransGen (w.Round outage) x₀ x) :
    x .origin = x₀ .origin ∧ w.Healthy x := by
  induction h with
  | refl => exact ⟨rfl, hx⟩
  | tail _ h ih =>
    obtain ⟨horigin, hhealthy⟩ := ih
    exact ⟨(h.next hhealthy).1.trans horigin, (h.next hhealthy).2⟩

end Round

end Worker

/-! ## What holds of all runs -/

/-- An origin with a rewrite, a filter and a client. -/
def sampleOrigin : Instance where
  version := Versions.minAgh
  rewrites := [{ answer := some "192.0.2.1", domain := some "a" }]
  filtering := {
    enabled := some true
    interval := some 24
    filters := some [{ enabled := true, name := "ads", url := "a" }] }
  clients := [{ name := some "tv" }]

/-- A replica that has others, one rewrite twice. -/
def sampleInstance : Instance where
  version := Versions.minAgh
  rewrites := [{ answer := some "192.0.2.1", domain := some "a" },
    { answer := some "192.0.2.1", domain := some "a" }]
  filtering := { filters := some [{ enabled := false, name := "ads", url := "b" }] }

/-- The two, before the first run. -/
def sampleWorld : World where
  party
    | .origin => { inst := sampleOrigin }
    | .replica _ => { inst := sampleInstance }

/-- A worker that syncs the rewrites, the filters and the clients. -/
def listsWorker : Worker :=
  sampleWorker { dns := { rewrites := true }, filters := true, clientSettings := true } false
    ["/a", "/b"]

/-- The filter of the origin. -/
def adsFilter : AddUrlRequest :=
  { name := "ads", url := "a", whitelist := some false }

/-- The replica below `/b` adds no filters. -/
def refusesFilters : Party → Write → Bool
  | .replica r, .filteringAddUrl _ => r.apiPath = "/b"
  | _, _ => false

theorem sampleWorld_healthy : listsWorker.Healthy sampleWorld := by
  have htasks : listsWorker.cfg.tasks = [.dnsRewrites, .filters, .clientSettings] := rfl
  have hversion : sampleDeps.tooOld (sampleInstance.doc .status) = false := rfl
  refine ⟨hversion, fun r _ => ⟨hversion, ?_, ?_⟩⟩
  · rw [htasks]
    simp only [List.forall_mem_cons, List.not_mem_nil, false_implies, implies_true, and_true]
    exact ⟨trivial, ⟨by decide, rfl, rfl⟩, ⟨by decide, by decide⟩, by decide⟩
  · have hfit : Task.filters.Fit sampleInstance ∧ Task.clientSettings.Fit sampleInstance :=
      ⟨fun whitelist => by cases whitelist <;> decide, by decide, by decide⟩
    rw [htasks]
    simp only [List.forall_mem_cons, List.not_mem_nil, false_implies, implies_true, and_true]
    exact ⟨trivial, hfit⟩

namespace Worker

variable {w : Worker} {x x' : World}

/-- A run against instances that do what they are asked comes to its end. It changes nobody
but the replicas, and reports exactly one success for each of them. -/
theorem sync_completes {tr : Trace Event Reply} {out : Option Unit} (hx : w.Healthy x)
    (hrun : w.sync.Runs tr out) (hw : Along World.Works tr x x') :
    out = some () ∧ (∀ p, (∀ r ∈ w.replicas, p ≠ .replica r) → x' p = x p) ∧
      (x'.results).Perm (x.results ++ w.replicas.map fun r => (r.host, true)) := by
  obtain ⟨hout, hran⟩ := (w.ensures_sync hx).of_runs hrun hw
  obtain ⟨rs, hperm, hsynced⟩ := hran.synced
  refine ⟨hout, fun p hp => hsynced.others p fun r hr => hp r (hperm.mem_iff.mp hr), ?_⟩
  rw [hsynced.results.resolve_left id]
  exact (hperm.map _).append_left _

theorem sync_completes_sample : ∃ tr x', listsWorker.sync.Runs tr (some ()) ∧
    Along World.Works tr sampleWorld x' ∧ x'.results = [("r", true), ("r", true)] := by
  obtain ⟨tr, out, x', hrun, hw⟩ := listsWorker.sync.exists_along (World.exists_answers False)
    sampleWorld
  obtain ⟨rfl, -, hresults⟩ := listsWorker.sync_completes sampleWorld_healthy hrun hw
  have hperm : x'.results.Perm (List.replicate 2 ("r", true)) := hresults
  exact ⟨tr, x', hrun, hw, List.perm_replicate.mp hperm⟩

/-- A run sends nothing exactly if no task has anything to do on any replica. -/
theorem sync_sendsNothing_iff (hx : w.Healthy x) (h : w.Round False x x') :
    (∀ p, (x' p).got = (x p).got) ↔ ∀ r ∈ w.replicas, ∀ T ∈ w.cfg.tasks,
      T.Idle (w.contextOf x r) (x .origin).inst (x (.replica r)).inst := by
  have hreplica : ∀ r ∈ w.replicas, (x' (.replica r)).got = (x (.replica r)).got ↔
      ∀ T ∈ w.cfg.tasks,
        T.Idle (w.contextOf x r) (x .origin).inst (x (.replica r)).inst := fun r hr => by
    obtain ⟨ws, hpasses, hws⟩ := h.exists_passes hx hr
    rw [← hpasses.eq_nil_iff (hx.syncs r hr).ready, hws]
    exact List.append_right_eq_self
  constructor
  · exact fun hgot r hr => (hreplica r hr).mp (hgot _)
  · intro hidle p
    by_cases hp : ∃ r ∈ w.replicas, p = .replica r
    · obtain ⟨r, hr, rfl⟩ := hp
      exact (hreplica r hr).mpr (hidle r hr)
    · rw [h.eq_of_not_replica hx fun r hr he => hp ⟨r, hr, he⟩]

theorem sync_sendsNothing_iff_sample : ∃ x', listsWorker.Round False sampleWorld x' ∧
    ∃ p, (x' p).got ≠ (sampleWorld p).got := by
  obtain ⟨x', h⟩ := exists_round (w := listsWorker) False sampleWorld
  refine ⟨x', h, ?_⟩
  have hiff := listsWorker.sync_sendsNothing_iff sampleWorld_healthy h
  by_contra hnone
  have hgot : ∀ p, (x' p).got = (sampleWorld p).got := fun p => by
    by_contra hp
    exact hnone ⟨p, hp⟩
  have hidle : Task.dnsRewrites.Mirrors (listsWorker.contextOf sampleWorld (sampleReplica "/a"))
      sampleOrigin sampleInstance :=
    hiff.mp hgot (sampleReplica "/a") (by decide) .dnsRewrites List.mem_cons_self
  exact absurd hidle.1 (by decide)

/-- Whatever fails, a run comes to its end, changes nobody but the replicas, and leaves them so
that they can be synced. -/
theorem sync_survives {tr : Trace Event Reply} {out : Option Unit} (hx : w.Healthy x)
    (hrun : w.sync.Runs tr out) (hw : Along World.MayFail tr x x') :
    out = some () ∧ (∀ p, (∀ r ∈ w.replicas, p ≠ .replica r) → x' p = x p) ∧ w.Healthy x' := by
  obtain ⟨hout, hran⟩ := (w.ensures_sync hx).of_runs hrun hw
  have hround : w.Round True x x' := ⟨tr, out, hrun, hw⟩
  refine ⟨hout, fun p hp => ?_, (hround.next hx).2⟩
  rcases hran with ⟨-, rfl⟩ | ⟨_, rs, hperm, hsynced, -⟩
  · rfl
  · exact hsynced.others p fun r hr => hp r (hperm.mem_iff.mp hr)

/-- The replica below `/b` refuses the filter, after it has removed its own. The other replica
gets everything. -/
theorem sync_survives_sample : ∃ tr x', listsWorker.sync.Runs tr (some ()) ∧
    Along World.MayFail tr sampleWorld x' ∧
    (sent tr).take 4 = [
      (.rewriteDelete { answer := some "192.0.2.1", domain := some "a" }, .ok ()),
      (.filteringRemoveUrl { url := "b", whitelist := some false }, .ok ()),
      (.filteringAddUrl adsFilter, .error World.refused),
      (.rewriteDelete { answer := some "192.0.2.1", domain := some "a" }, .ok ())] ∧
    x'.results = [("r", false), ("r", true)] ∧ x' .origin = sampleWorld .origin ∧
    listsWorker.Healthy x' := by
  obtain ⟨hrun, hw⟩ := sampleWorld_healthy.runs True refusesFilters fun _ _ _ => trivial
  obtain ⟨-, hothers, hhealthy⟩ := listsWorker.sync_survives sampleWorld_healthy hrun hw
  exact ⟨_, _, hrun, hw, rfl, by decide +kernel, hothers .origin nofun, hhealthy⟩

/-- Convergence. After two runs without failures every replica mirrors the origin, whatever has
failed before. Later runs change no instance : the DNS and the DHCP configuration are all that
is still sent. -/
theorem sync_converges {x₀ x₁ x₂ x₃ x₄ : World} (hx : w.Healthy x₀)
    (hfailing : Relation.ReflTransGen (w.Round True) x₀ x₁) (h₁ : w.Round False x₁ x₂)
    (h₂ : w.Round False x₂ x₃) (hlater : Relation.ReflTransGen (w.Round False) x₃ x₄) :
    x₃ .origin = x₀ .origin ∧ w.Mirrored x₃ ∧ ∀ p, ∃ ws,
      x₄ p = ⟨(x₃ p).inst, (x₃ p).got ++ ws⟩ ∧
      ∀ wr ∈ ws, (∃ c, wr = .dnsConfig c) ∨ ∃ c, wr = .dhcpSetConfig c := by
  obtain ⟨horigin, hx₁⟩ := healthy_of_rounds hx hfailing
  obtain ⟨horigin₂, hx₂⟩ := h₁.next hx₁
  obtain ⟨horigin₃, hx₃⟩ := h₂.next hx₂
  have hmirrored := mirrored_of_rounds hx₁ h₁ h₂
  refine ⟨(horigin₃.trans horigin₂).trans horigin, hmirrored, ?_⟩
  suffices hinvariant : w.Healthy x₄ ∧ ∀ p, ∃ ws, x₄ p = ⟨(x₃ p).inst, (x₃ p).got ++ ws⟩ ∧
      ∀ wr ∈ ws, (∃ c, wr = .dnsConfig c) ∨ ∃ c, wr = .dhcpSetConfig c from hinvariant.2
  induction hlater with
  | refl => exact ⟨hx₃, fun p => ⟨[], by rw [List.append_nil], by simp⟩⟩
  | @tail x x' _ h ih =>
    obtain ⟨hhealthy, hsame⟩ := ih
    refine ⟨(h.next hhealthy).2, fun p => ?_⟩
    obtain ⟨ws, hws, hall⟩ := hsame p
    have hinst : ∀ p, (x p).inst = (x₃ p).inst := fun p => by
      obtain ⟨ws, hws, -⟩ := hsame p
      rw [hws]
    obtain ⟨ws', hws', hall'⟩ := h.still hhealthy (hmirrored.congr hinst) p
    refine ⟨ws ++ ws', ?_, List.forall_mem_append.mpr ⟨hall, hall'⟩⟩
    rw [hws', hws, List.append_assoc]

/-- In the first run the replica below `/b` refuses the filter, after it has removed its own. In
the second run it gets the filter. -/
theorem sync_converges_sample : ∃ tr x₁ x₂ x₃ x₄, listsWorker.sync.Runs tr (some ()) ∧
    Along World.MayFail tr sampleWorld x₁ ∧ listsWorker.Round False x₁ x₂ ∧
    listsWorker.Round False x₂ x₃ ∧ listsWorker.Round False x₃ x₄ ∧
    (sent tr).take 4 = [
      (.rewriteDelete { answer := some "192.0.2.1", domain := some "a" }, .ok ()),
      (.filteringRemoveUrl { url := "b", whitelist := some false }, .ok ()),
      (.filteringAddUrl adsFilter, .error World.refused),
      (.rewriteDelete { answer := some "192.0.2.1", domain := some "a" }, .ok ())] ∧
    (x₁ (.replica (sampleReplica "/b"))).inst.filtering.filters = some [] ∧
    (x₂ (.replica (sampleReplica "/b"))).inst.filtering.filters =
      some [{ enabled := true, name := "ads", url := "a" }] ∧
    listsWorker.Mirrored x₃ ∧ ∀ p, (x₄ p).inst = (x₃ p).inst := by
  obtain ⟨hrun, hw⟩ := sampleWorld_healthy.runs True refusesFilters fun _ _ _ => trivial
  obtain ⟨-, hx₁⟩ := Round.next ⟨_, _, hrun, hw⟩ sampleWorld_healthy
  have h₁ : listsWorker.Round False _ _ :=
    ⟨_, _, hx₁.runs False (fun _ _ => false) fun _ _ h => absurd h Bool.false_ne_true⟩
  obtain ⟨x₃, h₂⟩ := exists_round (w := listsWorker) False _
  obtain ⟨x₄, h₃⟩ := exists_round (w := listsWorker) False x₃
  obtain ⟨-, hmirrored, hsame⟩ := listsWorker.sync_converges sampleWorld_healthy
    (.single ⟨_, _, hrun, hw⟩) h₁ h₂ (.single h₃)
  refine ⟨_, _, _, x₃, x₄, hrun, hw, h₁, h₂, h₃, rfl, by decide +kernel, by decide +kernel,
    hmirrored, fun p => ?_⟩
  obtain ⟨ws, hws, -⟩ := hsame p
  rw [hws]

end Worker

end AghSync
