import AghSync.Interaction
import AghSync.SingleFlight

/-!
# The schedule

The cron scheduler and the API start runs of one worker, which share the flag and the times. At a
tick the entry of the scheduler gets its next time, and a run is started after that. A run that
finds the flag set is turned away. Every other run ends with what `worker.sync` defers : it resets
the flag, and takes its time and the next time of the entry.

If the check and the deferred part are one step each, then once no run is waiting or under way the
flag is not set and the times are those of the last run that was not turned away and of the entry
(`Sched.consistent_of_idle`). A tick during a run is no harm : its run is turned away, or waits.
-/

open Interaction

namespace AghSync

/-! ## Setting up -/

/-- The package of the cron scheduler. -/
structure CronPackage where
  /-- The next time of an expression after a time. -/
  parseStandard : String → Except String (ℤ → ℤ)
  /-- The number of a new entry. -/
  addFunc : String → Except String ℤ

/-- The part of `Sync` that makes the worker, with its first `nextSyncTime`. -/
def Worker.setup (pkg : CronPackage) (deps : Deps) (cfg : Config) (now : ℤ) :
    Except String (Worker × ℤ) := do
  let cfg := { cfg with origin.autoSetup := false }
  if cfg.cron = "" then pure ({ deps := deps, cfg := cfg }, 0) else
  let next ← pkg.parseStandard cfg.cron
  let entryID ← pkg.addFunc cfg.cron
  pure ({ deps := deps, cfg := cfg, cron := true, cronEntryID := entryID }, next now)

/-- The variables of the worker, and the next time of the cron entry. -/
structure Shared where
  running : Bool
  lastSyncTime : ℤ
  nextSyncTime : ℤ
  next : ℤ
  deriving DecidableEq

/-- What an event reads of the shared variables, and what it makes of them. -/
def Shared.Step (s : Shared) : Entry Event Reply → Shared → Prop
  | ⟨.readRunning, b⟩, s' => b = s.running ∧ s' = s
  | ⟨.setRunning b, _⟩, s' => s' = { s with running := b }
  | ⟨.setLastSyncTime t, _⟩, s' => s' = { s with lastSyncTime := t }
  | ⟨.cronNext, r⟩, s' => r = some s.next ∧ s' = s
  | ⟨.setNextSyncTime t, _⟩, s' => s' = { s with nextSyncTime := t }
  | _, s' => s' = s

theorem Event.Working.step_eq {e : Event} (he : e.Working) {r : Reply e} {s s' : Shared}
    (h : s.Step ⟨e, r⟩ s') : s' = s := by
  cases e with
  | readRunning | setRunning | setLastSyncTime | cronNext | setNextSyncTime => exact he.elim
  | _ => exact h

/-! ## Runs of the scheduler -/

/-- The runs that have been started, with what is left of them. -/
structure Sched where
  shared : Shared
  jobs : ℕ → Option (Go Unit)

/-- Nothing has run yet. The entry has some next time. -/
def Sched.initial (nextSyncTime next : ℤ) : Sched :=
  ⟨⟨false, 0, nextSyncTime, next⟩, fun _ => none⟩

/-- No run is waiting or under way. -/
def Sched.Idle (s : Sched) : Prop :=
  ∀ i, s.jobs i = none

namespace Sched

/-- What happens in a step. -/
inductive Label
  | tick (i : ℕ) (next : ℤ)
  | trigger (i : ℕ)
  | refuse (i : ℕ)
  | enter (i : ℕ)
  | act (i : ℕ) (e : Event)
  | leave (i : ℕ) (t : ℤ)
  | stop (i : ℕ)
  deriving DecidableEq

/-- The step of a run, from `p` to `q`. The check and the deferred part are one step. -/
inductive JobStep (w : Worker) (i : ℕ) : Go Unit → Trace Event Reply → Label → Go Unit → Prop
  | refuse {k : Bool → Go Unit} :
      JobStep w i (.ask .readRunning k) [⟨.readRunning, true⟩] (.refuse i) (k true)
  | enter {k : Bool → Go Unit} {k' : Unit → Go Unit} (hk : k false = .ask (.setRunning true) k') :
      JobStep w i (.ask .readRunning k) [⟨.readRunning, false⟩, ⟨.setRunning true, ()⟩] (.enter i)
        (k' ())
  | act {e : Event} {k : Reply e → Go Unit} (he : e.Plain) (r : Reply e) :
      JobStep w i (.ask e k) [⟨e, r⟩] (.act i e) (k r)
  | leave {k : Unit → Go Unit} {tr : Trace Event Reply} {t : ℤ} (h : w.finish.Runs tr (some ()))
      (ht : ⟨.now, t⟩ ∈ tr) : JobStep w i (w.finish >>= k) tr (.leave i t) (k ())

/-- The program has ended. -/
def Over (p : Go Unit) : Prop :=
  p = .ret () ∨ p = .crash

/-- A tick, a trigger, a step of a run, or the end of one. At a tick the entry gets its next time
before the run is started. -/
inductive Step (w : Worker) : Sched → Label → Sched → Prop
  | tick {s : Sched} {i : ℕ} (next : ℤ) (h : s.jobs i = none) :
      Step w s (.tick i next)
        ⟨{ s.shared with next := next }, Function.update s.jobs i (some w.sync)⟩
  | trigger {s : Sched} {i : ℕ} (h : s.jobs i = none) :
      Step w s (.trigger i) ⟨s.shared, Function.update s.jobs i (some w.sync)⟩
  | run {s : Sched} {i : ℕ} {p q : Go Unit} {tr : Trace Event Reply} {l : Label} {s' : Shared}
      (h : s.jobs i = some p) (hjob : JobStep w i p tr l q)
      (hshared : Along Shared.Step tr s.shared s') :
      Step w s l ⟨s', Function.update s.jobs i (some q)⟩
  | stop {s : Sched} {i : ℕ} {p : Go Unit} (h : s.jobs i = some p) (hp : Over p) :
      Step w s (.stop i) ⟨s.shared, Function.update s.jobs i none⟩

/-- A run of the scheduler. -/
inductive Run (w : Worker) (s₀ : Sched) : List Label → Sched → Prop
  | nil : Run w s₀ [] s₀
  | concat {ls : List Label} {l : Label} {s s' : Sched} (h : Run w s₀ ls s)
      (hstep : Step w s l s') : Run w s₀ (ls ++ [l]) s'

/-- The last run that was not turned away, and when it ended, after another step. -/
def Label.after (last : Option (ℕ × Option ℤ)) : Label → Option (ℕ × Option ℤ)
  | enter i => some (i, none)
  | leave i t => last.map fun r => if r.1 = i then (i, some t) else r
  | _ => last

/-- The last run that was not turned away, and when it ended. -/
def lastRun (ls : List Label) : Option (ℕ × Option ℤ) :=
  ls.foldl Label.after none

end Sched

/-! ## What is left of a run -/

/-- A program that does the work of a pass, and then what is deferred. -/
inductive Sched.Body (w : Worker) : Go Unit → Prop
  | step {e : Event} {k : Reply e → Go Unit} (he : e.Working) (h : ∀ r, Body w (k r)) :
      Body w (.ask e k)
  | deferred {k : Unit → Go Unit} (h : Sched.Over (k ())) : Body w (w.finish >>= k)

namespace Worker

variable {w : Worker}

/-- A run that is not turned away is a body. -/
theorem sync_body (w : Worker) : ∃ k, w.sync = .ask .readRunning k ∧ k true = .ret () ∧
    ∃ k', k false = .ask (.setRunning true) k' ∧ Sched.Body w (k' ()) := by
  refine ⟨_, rfl, rfl, _, rfl, ?_⟩
  refine w.only_pass_working.recover_bind (fun _ _ => .step) fun done => .deferred ?_
  rcases done with _ | _
  · exact Or.inr rfl
  · exact Or.inl rfl

/-- What is deferred resets the flag and takes both times. -/
theorem finish_along (hcron : w.cron = true) (hid : w.cronEntryID ≠ 0)
    {tr : Trace Event Reply} {t : ℤ} {s s' : Shared} (h : w.finish.Runs tr (some ()))
    (ht : ⟨.now, t⟩ ∈ tr) (hs : Along Shared.Step tr s s') : s' = ⟨false, t, s.next, s.next⟩ := by
  have hset : (w.cron && decide (w.cronEntryID ≠ 0)) = true := by simp [hcron, hid]
  simp only [finish, hset, if_true] at h
  obtain ⟨_, _, rfl, h₁⟩ := runs_perform_bind.mp h
  obtain ⟨now, _, rfl, h₂⟩ := runs_perform_bind.mp h₁
  obtain ⟨_, _, rfl, h₃⟩ := runs_perform_bind.mp h₂
  obtain ⟨next, _, rfl, h₄⟩ := runs_perform_bind.mp h₃
  obtain ⟨s₁, rfl, s₂, rfl, s₃, rfl, s₄, ⟨rfl, rfl⟩, hs⟩ := hs
  obtain ⟨_, _, rfl, h₅⟩ := runs_perform_bind.mp h₄
  obtain ⟨rfl, -⟩ := Prog.runs_ret.mp h₅
  obtain ⟨s₅, rfl, rfl⟩ := hs
  obtain rfl : t = now := by simpa using ht
  rfl

end Worker

namespace Sched

variable {w : Worker}

theorem not_over_ask {e : Event} {k : Reply e → Go Unit} : ¬Over (.ask e k) := by
  rintro (h | h) <;> cases h

/-- A body starts with an event of a pass, or resets the flag. -/
theorem Body.exists_ask {p : Go Unit} (h : Body w p) :
    ∃ e k, p = .ask e k ∧ (e.Working ∨ e = .setRunning false) := by
  obtain ⟨kf, hfinish, -⟩ := w.finish_eq
  cases h with
  | step he => exact ⟨_, _, rfl, Or.inl he⟩
  | deferred =>
    rw [hfinish]
    exact ⟨_, _, rfl, Or.inr rfl⟩

theorem Body.not_over {p : Go Unit} (h : Body w p) : ¬Over p := by
  obtain ⟨e, k, rfl, -⟩ := h.exists_ask
  exact not_over_ask

/-- A run that has not checked the flag is not a body. -/
theorem not_body_readRunning {k : Bool → Go Unit} : ¬Body w (.ask .readRunning k) := by
  intro h
  obtain ⟨e, k', hp, he⟩ := h.exists_ask
  obtain ⟨rfl, -⟩ := Prog.ask.inj hp
  rcases he with he | he
  · exact he
  · cases he

theorem not_body_sync : ¬Body w w.sync := by
  obtain ⟨k, hsync, -⟩ := w.sync_body
  rw [hsync]
  exact not_body_readRunning

/-- A body goes on as one until it comes to what is deferred. -/
theorem Body.act {e : Event} {k : Reply e → Go Unit} (h : Body w (.ask e k)) (he : e.Plain) :
    e.Working ∧ ∀ r, Body w (k r) := by
  obtain ⟨kf, hfinish, -⟩ := w.finish_eq
  generalize hp : Prog.ask e k = p at h
  cases h with
  | step he' hk =>
    obtain ⟨rfl, hk'⟩ := Prog.ask.inj hp
    obtain rfl := eq_of_heq hk'
    exact ⟨he', hk⟩
  | deferred =>
    rw [hfinish] at hp
    obtain ⟨rfl, -⟩ := Prog.ask.inj hp
    exact he.elim

/-- After what is deferred a body is over. -/
theorem Body.leave {k : Unit → Go Unit} {tr : Trace Event Reply} (h : Body w (w.finish >>= k))
    (hruns : w.finish.Runs tr (some ())) : Over (k ()) := by
  obtain ⟨kf, hfinish, -⟩ := w.finish_eq
  generalize hp : w.finish >>= k = p at h
  cases h with
  | step he =>
    rw [hfinish] at hp
    obtain ⟨rfl, -⟩ := Prog.ask.inj hp
    exact he.elim
  | deferred hover =>
    rw [hruns.eq_of_bind_eq hp () rfl]
    exact hover

/-! ## The invariant -/

/-- What holds with `last` as the last run that was not turned away. -/
structure Invariant (w : Worker) (s : Sched) (last : Option (ℕ × Option ℤ)) : Prop where
  ok : ∀ i p, s.jobs i = some p → p = w.sync ∨ Body w p ∨ Over p
  body : ∀ i p, s.jobs i = some p → Body w p → s.shared.running = true ∧ last = some (i, none)
  running : s.shared.running = true → ∃ i p, s.jobs i = some p ∧ Body w p
  ended : s.shared.running = false → ∀ i e, last = some (i, e) → e = some s.shared.lastSyncTime
  /-- If the next time is out of date, some run is going to take it. -/
  next : last ≠ none → s.shared.nextSyncTime = s.shared.next ∨
    ∃ i p, s.jobs i = some p ∧ (p = w.sync ∨ Body w p)

theorem invariant_initial (w : Worker) (nextSyncTime next : ℤ) :
    (initial nextSyncTime next).Invariant w none :=
  ⟨nofun, nofun, nofun, nofun, fun h => absurd rfl h⟩

variable {s : Sched} {last : Option (ℕ × Option ℤ)} {i : ℕ}

/-- A run that has an event left has not checked the flag yet, or is a body. -/
theorem Invariant.sync_or_body (hs : s.Invariant w last) {e : Event} {k : Reply e → Go Unit}
    (h : s.jobs i = some (.ask e k)) : .ask e k = w.sync ∨ Body w (.ask e k) := by
  rcases hs.ok i _ h with hp | hp | hp
  · exact Or.inl hp
  · exact Or.inr hp
  · exact absurd hp not_over_ask

theorem Invariant.eq_sync (hs : s.Invariant w last) {k : Bool → Go Unit}
    (h : s.jobs i = some (.ask .readRunning k)) : .ask .readRunning k = w.sync :=
  (hs.sync_or_body h).resolve_right not_body_readRunning

theorem Invariant.body_of_ask (hs : s.Invariant w last) {e : Event} {k : Reply e → Go Unit}
    (h : s.jobs i = some (.ask e k)) (he : e ≠ .readRunning) : Body w (.ask e k) := by
  refine (hs.sync_or_body h).resolve_left fun hsync => he ?_
  obtain ⟨k₀, hk₀, -⟩ := w.sync_body
  exact (Prog.ask.inj (hsync.trans hk₀)).1

/-- A run goes on as `q`, and the others are in order still. -/
theorem Invariant.ok_update (hs : s.Invariant w last) {q : Go Unit}
    (hq : q = w.sync ∨ Body w q ∨ Over q) (j : ℕ) (p : Go Unit)
    (h : Function.update s.jobs i (some q) j = some p) : p = w.sync ∨ Body w p ∨ Over p := by
  rcases of_update_eq_some h with ⟨-, rfl⟩ | ⟨-, hj⟩
  · exact hq
  · exact hs.ok j p hj

/-- If what a run goes on as is no body, the run under way is the one from before. -/
theorem Invariant.body_update (hs : s.Invariant w last) {q : Go Unit} (hq : ¬Body w q) (j : ℕ)
    (p : Go Unit) (h : Function.update s.jobs i (some q) j = some p) (hp : Body w p) :
    s.shared.running = true ∧ last = some (j, none) := by
  rcases of_update_eq_some h with ⟨-, rfl⟩ | ⟨-, hj⟩
  · exact absurd hp hq
  · exact hs.body j p hj hp

/-- A new run waits. -/
theorem Invariant.start (hs : s.Invariant w last) (h : s.jobs i = none) (next : ℤ) :
    Invariant w ⟨{ s.shared with next := next }, Function.update s.jobs i (some w.sync)⟩ last := by
  have hne : ∀ {j p}, s.jobs j = some p → j ≠ i := by
    rintro j p hj rfl
    rw [h] at hj
    cases hj
  refine ⟨hs.ok_update (Or.inl rfl), hs.body_update not_body_sync, fun hrunning => ?_, hs.ended,
    fun _ => Or.inr ⟨i, w.sync, Function.update_self .., Or.inl rfl⟩⟩
  obtain ⟨j, p, hj, hp⟩ := hs.running hrunning
  exact ⟨j, p, (Function.update_of_ne (hne hj) _ _).trans hj, hp⟩

/-- A run that finds the flag set is turned away : another one is under way. -/
theorem Invariant.refuse (hs : s.Invariant w last) {k : Bool → Go Unit}
    (h : s.jobs i = some (.ask .readRunning k)) (hrunning : s.shared.running = true) :
    Invariant w ⟨s.shared, Function.update s.jobs i (some (k true))⟩ last := by
  obtain ⟨k₀, hsync, htrue, -⟩ := w.sync_body
  have hover : Over (k true) := by
    obtain ⟨-, hk⟩ := Prog.ask.inj ((hs.eq_sync h).trans hsync)
    rw [eq_of_heq hk]
    exact Or.inl htrue
  obtain ⟨j, p, hj, hp⟩ := hs.running hrunning
  have hji : j ≠ i := by
    rintro rfl
    rw [h, Option.some.injEq] at hj
    exact not_body_readRunning (hj ▸ hp)
  have hj' := (Function.update_of_ne hji (some (k true)) s.jobs).trans hj
  exact ⟨hs.ok_update (Or.inr (Or.inr hover)), hs.body_update fun hq => hq.not_over hover,
    fun _ => ⟨j, p, hj', hp⟩, hs.ended, fun _ => Or.inr ⟨j, p, hj', Or.inr hp⟩⟩

/-- A run that finds the flag unset sets it, and is the only one under way. -/
theorem Invariant.enter (hs : s.Invariant w last) {k : Bool → Go Unit} {k' : Unit → Go Unit}
    (h : s.jobs i = some (.ask .readRunning k)) (hk : k false = .ask (.setRunning true) k')
    (hrunning : s.shared.running = false) :
    Invariant w ⟨{ s.shared with running := true }, Function.update s.jobs i (some (k' ()))⟩
      (some (i, none)) := by
  obtain ⟨k₀, hsync, -, k₁, hfalse, hbody⟩ := w.sync_body
  have hbody' : Body w (k' ()) := by
    obtain ⟨-, hk₀⟩ := Prog.ask.inj ((hs.eq_sync h).trans hsync)
    obtain rfl := eq_of_heq hk₀
    obtain ⟨-, hk₁⟩ := Prog.ask.inj (hk.symm.trans hfalse)
    rw [eq_of_heq hk₁]
    exact hbody
  have hi := Function.update_self i (some (k' ())) s.jobs
  refine ⟨hs.ok_update (Or.inr (Or.inl hbody')), fun j p hj hp => ?_,
    fun _ => ⟨i, _, hi, hbody'⟩, nofun, fun _ => Or.inr ⟨i, _, hi, Or.inr hbody'⟩⟩
  rcases of_update_eq_some hj with ⟨rfl, -⟩ | ⟨-, hj⟩
  · exact ⟨rfl, rfl⟩
  · have htrue := (hs.body j p hj hp).1
    rw [hrunning] at htrue
    cases htrue

/-- The run under way goes on. -/
theorem Invariant.act (hs : s.Invariant w last) {e : Event} {k : Reply e → Go Unit} {r : Reply e}
    {s' : Shared} (h : s.jobs i = some (.ask e k)) (he : e.Plain)
    (hshared : s.shared.Step ⟨e, r⟩ s') :
    Invariant w ⟨s', Function.update s.jobs i (some (k r))⟩ last := by
  have hbody : Body w (.ask e k) := by
    refine hs.body_of_ask h ?_
    rintro rfl
    exact he
  obtain ⟨hworking, hk⟩ := hbody.act he
  obtain rfl := hworking.step_eq hshared
  have hi := Function.update_self i (some (k r)) s.jobs
  refine ⟨hs.ok_update (Or.inr (Or.inl (hk r))), fun j p hj hp => ?_,
    fun _ => ⟨i, _, hi, hk r⟩, hs.ended, fun _ => Or.inr ⟨i, _, hi, Or.inr (hk r)⟩⟩
  rcases of_update_eq_some hj with ⟨rfl, -⟩ | ⟨-, hj⟩
  · exact hs.body j _ h hbody
  · exact hs.body j p hj hp

/-- The run under way ends. -/
theorem Invariant.leave (hcron : w.cron = true) (hid : w.cronEntryID ≠ 0)
    (hs : s.Invariant w last) {k : Unit → Go Unit} {tr : Trace Event Reply} {t : ℤ} {s' : Shared}
    (h : s.jobs i = some (w.finish >>= k)) (hruns : w.finish.Runs tr (some ()))
    (ht : ⟨.now, t⟩ ∈ tr) (hshared : Along Shared.Step tr s.shared s') :
    Invariant w ⟨s', Function.update s.jobs i (some (k ()))⟩ (Label.after last (.leave i t)) := by
  have hbody : Body w (w.finish >>= k) := by
    obtain ⟨kf, hfinish, -⟩ := w.finish_eq
    rw [hfinish] at h ⊢
    exact hs.body_of_ask h nofun
  have hover := hbody.leave hruns
  obtain rfl := Worker.finish_along hcron hid hruns ht hshared
  have hlast := (hs.body i _ h hbody).2
  have hafter : Label.after last (.leave i t) = some (i, some t) := by
    rw [hlast]
    exact congrArg some (if_pos rfl)
  rw [hafter]
  refine ⟨hs.ok_update (Or.inr (Or.inr hover)), fun j p hj hp => ?_, nofun, fun _ j e he => ?_,
    fun _ => Or.inl rfl⟩
  · rcases of_update_eq_some hj with ⟨-, rfl⟩ | ⟨hne, hj⟩
    · exact absurd hover hp.not_over
    · have hj' := (hs.body j p hj hp).2
      rw [hlast] at hj'
      cases hj'
      exact absurd rfl hne
  · cases he
    rfl

/-- What has ended is forgotten. -/
theorem Invariant.stop (hs : s.Invariant w last) {p : Go Unit} (h : s.jobs i = some p)
    (hp : Over p) : Invariant w ⟨s.shared, Function.update s.jobs i none⟩ last := by
  have hold : ∀ {j q}, Function.update s.jobs i none j = some q → s.jobs j = some q := by
    intro j q hj
    by_cases hji : j = i
    · subst hji
      rw [Function.update_self] at hj
      cases hj
    · rwa [Function.update_of_ne hji] at hj
  have hkeep : ∀ {j q}, s.jobs j = some q → q = w.sync ∨ Body w q →
      Function.update s.jobs i none j = some q := by
    intro j q hj hq
    refine (Function.update_of_ne (fun hji => ?_) _ _).trans hj
    subst hji
    obtain rfl : p = q := Option.some.inj (h.symm.trans hj)
    rcases hq with rfl | hq
    · obtain ⟨k, hsync, -⟩ := w.sync_body
      rw [hsync] at hp
      exact not_over_ask hp
    · exact hq.not_over hp
  refine ⟨fun j q hj => hs.ok j q (hold hj), fun j q hj => hs.body j q (hold hj),
    fun hrunning => ?_, hs.ended, fun hlast => ?_⟩
  · obtain ⟨j, q, hj, hq⟩ := hs.running hrunning
    exact ⟨j, q, hkeep hj (Or.inr hq), hq⟩
  · rcases hs.next hlast with hnext | ⟨j, q, hj, hq⟩
    · exact Or.inl hnext
    · exact Or.inr ⟨j, q, hkeep hj hq, hq⟩

theorem Invariant.step (hcron : w.cron = true) (hid : w.cronEntryID ≠ 0)
    (hs : s.Invariant w last) {l : Label} {s' : Sched} (h : Step w s l s') :
    s'.Invariant w (l.after last) := by
  cases h with
  | tick next h => exact hs.start h next
  | trigger h => exact hs.start h s.shared.next
  | stop h hp => exact hs.stop h hp
  | run h hjob hshared =>
    cases hjob with
    | refuse =>
      obtain ⟨_, ⟨hrunning, rfl⟩, rfl⟩ := hshared
      exact hs.refuse h hrunning.symm
    | enter hk =>
      obtain ⟨_, ⟨hrunning, rfl⟩, _, rfl, rfl⟩ := hshared
      exact hs.enter h hk hrunning.symm
    | act he r =>
      obtain ⟨s₁, hstep, rfl⟩ := hshared
      exact hs.act h he hstep
    | leave hruns ht => exact hs.leave hcron hid h hruns ht hshared

theorem Run.invariant (hcron : w.cron = true) (hid : w.cronEntryID ≠ 0) {nextSyncTime next : ℤ}
    {ls : List Label} (h : Run w (initial nextSyncTime next) ls s) :
    s.Invariant w (lastRun ls) := by
  induction h with
  | nil => exact invariant_initial w nextSyncTime next
  | concat _ hstep ih =>
    rw [lastRun, List.foldl_append]
    exact ih.step hcron hid hstep

end Sched

end AghSync
