import AghSync.Rounds
import AghSync.Schedule

/-!
# Runs one after the other

The invocations of a worker and the instances they talk to. The events of the invocations
interleave, each is answered by the instances as they are then, and the flag is read as it is.

If no invocation reads the flag while another is between reading and setting it, only one of
them at a time does anything to an instance (`Invocation.Move`). So whenever no invocation is at
work the instances are as complete runs leave them that came one after the other, one for each
time the flag was reset (`Site.serializable`). What whole runs do to the instances, they do under
any interleaving (`Site.converges`).
-/

open Interaction Interaction.Prog

namespace AghSync

/-- `n` runs of the worker, one after the other. -/
inductive Worker.Rounds (w : Worker) (outage : Prop) (x : World) : ℕ → World → Prop
  | zero : Rounds w outage x 0 x
  | succ {n : ℕ} {x₁ x₂ : World} (h : Rounds w outage x n x₁) (hlast : w.Round outage x₁ x₂) :
      Rounds w outage x (n + 1) x₂

/-- The invocations of a worker, and the instances. -/
structure Site where
  pool : Pool
  world : World

namespace Site

/-- What an event of an invocation is told, and what it makes of the instances. -/
def Answers (outage : Prop) (s : Site) : Entry Event Reply → World → Prop
  | ⟨.readRunning, running⟩, x => running = s.pool.running ∧ x = s.world
  | y, x => World.Answers outage s.world y x

/-- A new invocation, or one event of one of them. -/
inductive Step (w : Worker) (outage : Prop) : Site → Label → Site → Prop
  | start {s : Site} {i : ℕ} (trigger : Trigger) (h : s.pool.invocations i = none) :
      Step w outage s (.start i trigger)
        ⟨⟨s.pool.running, Function.update s.pool.invocations i (some ⟨trigger, [], w.sync⟩)⟩,
          s.world⟩
  | act {s : Site} {i : ℕ} {trigger : Trigger} {past : Trace Event Reply} {e : Event}
      {k : Reply e → Go Unit} {r : Reply e} {x : World}
      (h : s.pool.invocations i = some ⟨trigger, past, .ask e k⟩)
      (hr : s.Answers outage ⟨e, r⟩ x) :
      Step w outage s (.act i e)
        ⟨⟨flagAfter s.pool.running e,
          Function.update s.pool.invocations i (some ⟨trigger, past ++ [⟨e, r⟩], k r⟩)⟩, x⟩

/-- A run in which no invocation reads the flag between another one's reading and setting it. -/
abbrev Run (w : Worker) (outage : Prop) : Site → List Label → Site → Prop :=
  Execution fun s l s' => s.pool.Undisturbed l ∧ Step w outage s l s'

/-- No invocation holds the flag, or has just found it unset. -/
def Idle (s : Site) : Prop :=
  ∀ i a, s.pool.invocations i = some a → ¬a.Owns

/-- A worker that was just made. -/
def initial (x : World) : Site :=
  ⟨.initial, x⟩

end Site

/-- The event resets the flag. -/
def Event.resets : Event → Bool
  | setRunning false => true
  | _ => false

/-- The step resets the flag. -/
def Label.resets : Label → Bool
  | act _ e => e.resets
  | start _ _ => false

/-- How many invocations have come to their deferred part. -/
def passes (ls : List Label) : ℕ :=
  ls.countP Label.resets

/-! ## What is left of an invocation -/

/-- The event is one of the deferred part after the flag is reset. -/
def Event.Deferred : Event → Prop
  | .now | .setLastSyncTime _ | .cronNext | .setNextSyncTime _ => True
  | _ => False

theorem Event.Deferred.eq_world {e : Event} (he : e.Deferred) {outage : Prop} {r : Reply e}
    {x x' : World} (h : World.Answers outage x ⟨e, r⟩ x') : x' = x := by
  cases e with
  | now | setLastSyncTime | cronNext | setNextSyncTime => exact h
  | _ => exact he.elim

/-- After resetting the flag a body changes no instance. -/
theorem Sched.Body.deferred_of_reset {w : Worker} {k : Reply (.setRunning false) → Go Unit}
    (h : Body w (.ask (.setRunning false) k)) : ∀ r, (k r).Only Event.Deferred := by
  generalize hp : (.ask (.setRunning false) k : Go Unit) = p at h
  cases h with
  | step he =>
    obtain ⟨rfl, -⟩ := Prog.ask.inj hp
    exact he.elim
  | @deferred k' hover =>
    have hk' : (k' ()).Only Event.Deferred := by
      rcases hover with hover | hover <;> rw [hover] <;> trivial
    obtain ⟨-, hk⟩ := Prog.ask.inj hp
    rw [eq_of_heq hk]
    intro r
    refine Prog.Only.bind (p := _) ⟨trivial, fun _ => ⟨trivial, fun _ => ?_⟩⟩ fun _ => hk'
    dsimp only
    split_ifs
    · refine ⟨trivial, ?_⟩
      rintro (_ | t)
      · trivial
      · exact ⟨trivial, fun _ => trivial⟩
    · trivial

/-- What is left of an invocation fits what it has done. -/
inductive Invocation.Placed (w : Worker) (a : Invocation) : Prop
  | waiting (hpast : a.past = []) (hrest : a.rest = w.sync)
  | checked {k : Reply (.setRunning true) → Go Unit} (hpast : a.Checked)
      (hrest : a.rest = .ask (.setRunning true) k) (h : ∀ r, Sched.Body w (k r))
  | inside (hholds : a.Holds) (h : Sched.Body w a.rest)
  | outside (howns : ¬a.Owns) (h : a.rest.Only Event.Deferred)

/-- What an event `e` with the reply `r` means for an invocation that becomes `a'`. -/
inductive Invocation.Move (a : Invocation) (e : Event) (r : Reply e) (a' : Invocation) : Prop
  | check (hpast : a.past = []) (he : e = .readRunning) (hchecked : a'.Checked)
  | idle (howns : ¬a.Owns) (howns' : ¬a'.Owns) (he : e = .readRunning ∨ e.Deferred)
  | work (howns : a.Owns) (howns' : a'.Owns) (he : e.Plain ∨ e = .setRunning true)
  | reset (howns : a.Owns) (howns' : ¬a'.Owns) (he : e = .setRunning false)
      (h : a'.rest.Only Event.Deferred)

section Placed

variable {w : Worker} {t : Trigger} {past : Trace Event Reply} {e : Event}
  {k : Reply e → Go Unit} {r : Reply e} {running : Bool}

theorem Event.Deferred.plain (he : e.Deferred) : e.Plain := by
  cases e with
  | readRunning | setRunning => exact he.elim
  | _ => trivial

theorem Invocation.not_owns_of_past_nil {a : Invocation} (h : a.past = []) : ¬a.Owns := by
  rintro (hc | hh)
  · rw [Checked, h] at hc
    cases hc
  · rw [Holds, h] at hh
    cases hh

/-- The first event reads the flag. -/
theorem Invocation.placed_waiting (hrest : .ask e k = w.sync) (hr : FitsFlag running ⟨e, r⟩) :
    (⟨t, [] ++ [⟨e, r⟩], k r⟩ : Invocation).Placed w ∧
      (⟨t, [], .ask e k⟩ : Invocation).Move e r ⟨t, [] ++ [⟨e, r⟩], k r⟩ := by
  obtain ⟨k₁, hsync, htrue, k₂, hfalse, hbody⟩ := w.sync_body
  obtain ⟨rfl, hk⟩ := Prog.ask.inj (hrest.trans hsync)
  obtain rfl := eq_of_heq hk
  cases r with
  | true =>
    have hnot : ¬(⟨t, [] ++ [⟨.readRunning, true⟩], k true⟩ : Invocation).Owns := by
      rintro (hc | hh)
      · simp [Checked] at hc
      · simp [Holds, flagAfter] at hh
    refine ⟨.outside hnot ?_, .idle (not_owns_of_past_nil rfl) hnot (Or.inl rfl)⟩
    rw [htrue]
    trivial
  | false => exact ⟨.checked rfl hfalse fun _ => hbody, .check rfl rfl rfl⟩

/-- A body works, or resets the flag. -/
theorem Invocation.placed_inside (hholds : (⟨t, past, .ask e k⟩ : Invocation).Holds)
    (hbody : Sched.Body w (.ask e k)) :
    (⟨t, past ++ [⟨e, r⟩], k r⟩ : Invocation).Placed w ∧
      (⟨t, past, .ask e k⟩ : Invocation).Move e r ⟨t, past ++ [⟨e, r⟩], k r⟩ := by
  obtain ⟨e₀, k₀, hp, he⟩ := hbody.exists_ask
  obtain ⟨rfl, -⟩ := Prog.ask.inj hp
  rcases he with he | rfl
  · have hflag : ∀ b, flagAfter b (⟨e, r⟩ : Entry Event Reply).1 = b := he.plain.flagAfter_eq
    have hholds' : (⟨t, past ++ [⟨e, r⟩], k r⟩ : Invocation).Holds :=
      (holds_concat hflag).mpr hholds
    exact ⟨.inside hholds' ((hbody.act he.plain).2 r),
      .work (Or.inr hholds) (Or.inr hholds') (Or.inl he.plain)⟩
  · have hnot : ¬(⟨t, past ++ [⟨.setRunning false, r⟩], k r⟩ : Invocation).Owns := by
      rintro (hc | hh)
      · exact not_checked_concat (x := ⟨.setRunning false, r⟩) nofun hc
      · simp [Holds, flagAfter] at hh
    have hdeferred := hbody.deferred_of_reset r
    exact ⟨.outside hnot hdeferred, .reset (Or.inr hholds) hnot rfl hdeferred⟩

/-- After the deferred part nothing is owned again. -/
theorem Invocation.placed_outside (howns : ¬(⟨t, past, .ask e k⟩ : Invocation).Owns)
    (h : (Prog.ask e k).Only Event.Deferred) :
    (⟨t, past ++ [⟨e, r⟩], k r⟩ : Invocation).Placed w ∧
      (⟨t, past, .ask e k⟩ : Invocation).Move e r ⟨t, past ++ [⟨e, r⟩], k r⟩ := by
  obtain ⟨he, hk⟩ := h
  have hnot : ¬(⟨t, past ++ [⟨e, r⟩], k r⟩ : Invocation).Owns := by
    rintro (hc | hh)
    · refine not_checked_concat (fun heq => ?_) hc
      obtain rfl : e = .readRunning := heq
      exact he
    · have hflag : ∀ b, flagAfter b (⟨e, r⟩ : Entry Event Reply).1 = b := he.plain.flagAfter_eq
      exact howns (Or.inr ((holds_concat hflag).mp hh))
  exact ⟨.outside hnot (hk r), .idle howns hnot (Or.inr he)⟩

theorem Invocation.Placed.act (h : (⟨t, past, .ask e k⟩ : Invocation).Placed w)
    (hr : FitsFlag running ⟨e, r⟩) : (⟨t, past ++ [⟨e, r⟩], k r⟩ : Invocation).Placed w ∧
      (⟨t, past, .ask e k⟩ : Invocation).Move e r ⟨t, past ++ [⟨e, r⟩], k r⟩ := by
  cases h with
  | waiting hpast hrest =>
    obtain rfl : past = [] := hpast
    exact placed_waiting hrest hr
  | checked hpast hrest hbody =>
    obtain ⟨rfl, hk⟩ := Prog.ask.inj hrest
    obtain rfl := eq_of_heq hk
    have hholds : (⟨t, past ++ [⟨.setRunning true, r⟩], k r⟩ : Invocation).Holds := by
      simp [Holds, flagAfter]
    exact ⟨.inside hholds (hbody r), .work (Or.inl hpast) (Or.inr hholds) (Or.inr rfl)⟩
  | inside hholds hbody => exact placed_inside hholds hbody
  | outside howns hdeferred => exact placed_outside howns hdeferred

end Placed

/-! ## The invariant -/

/-- What has been done leads from a run to what is left of it. -/
def Invocation.Derived (w : Worker) (a : Invocation) : Prop :=
  ∀ tr out, a.rest.Runs tr out → w.sync.Runs (a.past ++ tr) out

namespace Site

variable {w : Worker} {outage : Prop} {s s' : Site} {l : Label} {x₀ : World} {n : ℕ}

/-- All invocations are in order. -/
structure Ordered (w : Worker) (s : Site) : Prop where
  pool : s.pool.Invariant w
  placed : ∀ i a, s.pool.invocations i = some a → a.Placed w
  derived : ∀ i a, s.pool.invocations i = some a → a.Derived w

/-- The instances are as `n` runs leave them, and perhaps a part of one more run, which has been
done by the invocation that owns the flag. -/
def Shows (w : Worker) (outage : Prop) (x₀ : World) (n : ℕ) (s : Site) : Prop :=
  s.Idle ∧ w.Rounds outage x₀ n s.world ∨ ∃ i a x, s.pool.invocations i = some a ∧ a.Owns ∧
    w.Rounds outage x₀ n x ∧ Along (World.Answers outage) a.past x s.world

theorem ordered_initial (x : World) : (initial x).Ordered w :=
  ⟨Pool.invariant_initial w, nofun, nofun⟩

theorem idle_initial (x : World) : (initial x).Idle :=
  nofun

theorem Answers.fits {y : Entry Event Reply} {x : World} (h : s.Answers outage y x) :
    FitsFlag s.pool.running y := by
  obtain ⟨e, r⟩ := y
  cases e with
  | readRunning => exact h.1
  | _ => trivial

/-- Forgetting the instances, a step is one of the pool. -/
theorem Step.pool (h : Step w outage s l s') : Pool.Step w s.pool l s'.pool := by
  cases h with
  | start trigger h => exact .start trigger h
  | act h hr => exact .act h hr.fits

/-- An event of an invocation changes no trigger. -/
theorem Step.trigger_eq {i : ℕ} {e : Event} (h : Step w outage s (.act i e) s') (j : ℕ) :
    (s'.pool.invocations j).map Invocation.trigger =
      (s.pool.invocations j).map Invocation.trigger := by
  cases h with
  | act hi hr =>
    by_cases hj : j = i
    · subst hj
      rw [hi]
      simp only [Function.update_self, Option.map_some]
    · exact congrArg (Option.map Invocation.trigger) (Function.update_of_ne hj ..)

/-- A step keeps the invocations in order. -/
theorem Ordered.step (hs : s.Ordered w) (hu : s.pool.Undisturbed l)
    (h : Step w outage s l s') : s'.Ordered w := by
  have hpool := hs.pool.step hu h.pool
  cases h with
  | start trigger h =>
    refine ⟨hpool, fun j b hb => ?_, fun j b hb => ?_⟩
    · rcases of_update_eq_some hb with ⟨-, rfl⟩ | ⟨-, hb⟩
      · exact .waiting rfl rfl
      · exact hs.placed j b hb
    · rcases of_update_eq_some hb with ⟨-, rfl⟩ | ⟨-, hb⟩
      · exact fun tr out hrun => hrun
      · exact hs.derived j b hb
  | @act i trigger past e k r x h hr =>
    refine ⟨hpool, fun j b hb => ?_, fun j b hb => ?_⟩
    · rcases of_update_eq_some hb with ⟨-, rfl⟩ | ⟨-, hb⟩
      · exact ((hs.placed i _ h).act hr.fits).1
      · exact hs.placed j b hb
    · rcases of_update_eq_some hb with ⟨-, rfl⟩ | ⟨-, hb⟩
      · intro tr out hrun
        rw [List.append_assoc]
        exact hs.derived i _ h _ out (.ask hrun)
      · exact hs.derived j b hb

theorem Answers.eq_world {e : Event} {r : Reply e} {x : World}
    (he : e = .readRunning ∨ e.Deferred) (h : s.Answers outage ⟨e, r⟩ x) : x = s.world := by
  rcases he with rfl | he
  · exact h.2
  · cases e with
    | now | setLastSyncTime | cronNext | setNextSyncTime => exact h
    | _ => exact he.elim

theorem Answers.answers {e : Event} {r : Reply e} {x : World} (he : e ≠ .readRunning)
    (h : s.Answers outage ⟨e, r⟩ x) : World.Answers outage s.world ⟨e, r⟩ x := by
  cases e with
  | readRunning => exact absurd rfl he
  | _ => exact h

/-- What is left of an invocation that changes no instance can be left out. -/
theorem round_of_reset {a : Invocation} {x : World} (hderived : a.Derived w)
    (hrest : a.rest.Only Event.Deferred) (hw : Along (World.Answers outage) a.past x s.world) :
    w.Round outage x s.world := by
  obtain ⟨tr, out, x', hrun, htr⟩ := a.rest.exists_along (World.exists_answers outage) s.world
  obtain rfl : x' = s.world :=
    htr.eq_of_keeps (f := id) fun y hy x₁ x₂ hstep => (hrun.of_only hrest y hy).eq_world hstep
  exact ⟨a.past ++ tr, out, hderived tr out hrun, along_append.mpr ⟨_, hw, htr⟩⟩

/-- A new invocation owns nothing, and changes nothing. -/
theorem Shows.start {i : ℕ} {trigger : Trigger} (h : s.Shows w outage x₀ n)
    (hnone : s.pool.invocations i = none) :
    Shows w outage x₀ n ⟨⟨s.pool.running,
      Function.update s.pool.invocations i (some ⟨trigger, [], w.sync⟩)⟩, s.world⟩ := by
  rcases h with ⟨hidle, hrounds⟩ | ⟨j, b, x, hb, howns, hrounds, hw⟩
  · refine Or.inl ⟨fun j b hb => ?_, hrounds⟩
    rcases of_update_eq_some hb with ⟨-, rfl⟩ | ⟨-, hb⟩
    · exact Invocation.not_owns_of_past_nil rfl
    · exact hidle j b hb
  · refine Or.inr ⟨j, b, x, (Function.update_of_ne ?_ _ _).trans hb, howns, hrounds, hw⟩
    rintro rfl
    rw [hnone] at hb
    cases hb

/-- Only one invocation at a time owns the flag. -/
theorem Ordered.eq_of_owns (hs : s.Ordered w) {i j : ℕ} {a b : Invocation}
    (ha : s.pool.invocations i = some a) (hb : s.pool.invocations j = some b) (howns : a.Owns)
    (howns' : b.Owns) : i = j :=
  hs.pool.single i j a b ha hb howns howns'

/-- One event of an invocation. If it resets the flag one more run is complete. -/
theorem Shows.act (hs : s.Ordered w) {i : ℕ} {t : Trigger} {past : Trace Event Reply} {e : Event}
    {k : Reply e → Go Unit} {r : Reply e} {x' : World} (hu : s.pool.Undisturbed (.act i e))
    (h : s.Shows w outage x₀ n) (hi : s.pool.invocations i = some ⟨t, past, .ask e k⟩)
    (hr : s.Answers outage ⟨e, r⟩ x') :
    Shows w outage x₀ (n + if e.resets then 1 else 0) ⟨⟨flagAfter s.pool.running e,
      Function.update s.pool.invocations i (some ⟨t, past ++ [⟨e, r⟩], k r⟩)⟩, x'⟩ := by
  obtain ⟨hplaced, hmove⟩ := (hs.placed i _ hi).act hr.fits
  have hi' := Function.update_self i
    (some (⟨t, past ++ [⟨e, r⟩], k r⟩ : Invocation)) s.pool.invocations
  cases hmove with
  | check hpast he hchecked =>
    subst he
    obtain rfl : past = [] := hpast
    obtain rfl : x' = s.world := hr.eq_world (Or.inl rfl)
    -- nobody else owns the flag : it is not set, and nobody has just read it
    have hrunning : s.pool.running = false := by
      obtain ⟨-, hfalse⟩ := Sigma.mk.inj (List.singleton_inj.mp hchecked)
      exact hr.1.symm.trans (eq_of_heq hfalse)
    have hothers : ∀ j b, s.pool.invocations j = some b → ¬b.Owns := by
      rintro j b hb (hc | hh)
      · by_cases hj : j = i
        · subst hj
          obtain rfl := Option.some.inj (hb.symm.trans hi)
          exact Invocation.not_owns_of_past_nil rfl (Or.inl hc)
        · exact hu j b hj hb hc
      · rw [hs.pool.flag j b hb hh] at hrunning
        cases hrunning
    rcases h with ⟨-, hrounds⟩ | ⟨j, b, x, hb, howns, -⟩
    · exact Or.inr ⟨i, _, s.world, hi', Or.inl hchecked, hrounds, s.world,
        ⟨Or.inr (eq_of_heq (Sigma.mk.inj (List.singleton_inj.mp hchecked)).2), rfl⟩, rfl⟩
    · exact absurd howns (hothers j b hb)
  | idle howns howns' he =>
    obtain rfl : x' = s.world := hr.eq_world he
    have hresets : e.resets = false := by
      rcases he with rfl | he
      · rfl
      · cases e with
        | setRunning => exact he.elim
        | _ => rfl
    rw [hresets]
    rcases h with ⟨hidle, hrounds⟩ | ⟨j, b, x, hb, hbowns, hrounds, hw⟩
    · refine Or.inl ⟨fun j b hb => ?_, hrounds⟩
      rcases of_update_eq_some hb with ⟨-, rfl⟩ | ⟨-, hb⟩
      · exact howns'
      · exact hidle j b hb
    · refine Or.inr ⟨j, b, x, (Function.update_of_ne ?_ _ _).trans hb, hbowns, hrounds, hw⟩
      rintro rfl
      obtain rfl := Option.some.inj (hb.symm.trans hi)
      exact howns hbowns
  | work howns howns' he =>
    have hne : e ≠ .readRunning := by
      rintro rfl
      exact he.elim id nofun
    have hresets : e.resets = false := by
      rcases he with he | rfl
      · cases e with
        | setRunning => exact he.elim
        | _ => rfl
      · rfl
    rw [hresets]
    rcases h with ⟨hidle, -⟩ | ⟨j, b, x, hb, hbowns, hrounds, hw⟩
    · exact absurd howns (hidle i _ hi)
    · obtain rfl := hs.eq_of_owns hi hb howns hbowns
      obtain rfl := Option.some.inj (hb.symm.trans hi)
      exact Or.inr ⟨i, _, x, hi', howns', hrounds,
        along_append.mpr ⟨s.world, hw, x', hr.answers hne, rfl⟩⟩
  | reset howns howns' he hdeferred =>
    subst he
    obtain rfl : x' = s.world := hr
    rcases h with ⟨hidle, -⟩ | ⟨j, b, x, hb, hbowns, hrounds, hw⟩
    · exact absurd howns (hidle i _ hi)
    · obtain rfl := hs.eq_of_owns hi hb howns hbowns
      obtain rfl := Option.some.inj (hb.symm.trans hi)
      refine Or.inl ⟨fun j b hb' => ?_, ?_⟩
      · rcases of_update_eq_some hb' with ⟨-, rfl⟩ | ⟨hj, hb'⟩
        · exact howns'
        · exact fun hbowns' => hj (hs.eq_of_owns hb' hi hbowns' howns)
      · have hderived : (⟨t, past ++ [⟨.setRunning false, r⟩], k r⟩ : Invocation).Derived w := by
          intro tr out hrun
          rw [List.append_assoc]
          exact hs.derived i _ hi _ out (.ask hrun)
        refine .succ hrounds (round_of_reset hderived hdeferred ?_)
        exact along_append.mpr ⟨s.world, hw, s.world, rfl, rfl⟩

/-- After any run the instances are as the runs that are complete leave them, and perhaps a part
of one more. -/
theorem Run.shows {s₀ : Site} {ls : List Label} (h : Run w outage s₀ ls s)
    (hs₀ : s₀.Ordered w) (hidle : s₀.Idle) :
    s.Ordered w ∧ s.Shows w outage s₀.world (passes ls) := by
  induction h with
  | nil => exact ⟨hs₀, Or.inl ⟨hidle, .zero⟩⟩
  | @concat ls l s s' _ hlast ih =>
    obtain ⟨hs, hshows⟩ := ih
    obtain ⟨hu, hstep⟩ := hlast
    refine ⟨hs.step hu hstep, ?_⟩
    rw [passes, List.countP_append, List.countP_singleton]
    cases hstep with
    | start trigger hnone => exact hshows.start hnone
    | act hi hr => exact hshows.act hs hu hi hr

theorem Run.rounds {s₀ : Site} {ls : List Label} (h : Run w outage s₀ ls s)
    (hs₀ : s₀.Ordered w) (hidle₀ : s₀.Idle) (hidle : s.Idle) :
    w.Rounds outage s₀.world (passes ls) s.world := by
  rcases (h.shows hs₀ hidle₀).2 with ⟨-, hrounds⟩ | ⟨i, a, x, ha, howns, -⟩
  · exact hrounds
  · exact absurd howns (hidle i a ha)

/-! ## Runs that come one after the other -/

/-- What an event reads of the flag, and what it makes of it. -/
def FlagStep (running : Bool) (y : Entry Event Reply) (running' : Bool) : Prop :=
  FitsFlag running y ∧ running' = flagAfter running y.1

theorem along_flag_of_plain : ∀ {tr : Trace Event Reply} {b : Bool},
    (∀ y ∈ tr, y.1.Plain) → Along FlagStep tr b b
  | [], _, _ => rfl
  | ⟨e, r⟩ :: tr, b, h => by
    obtain ⟨he, htr⟩ := List.forall_mem_cons.mp h
    refine ⟨b, ⟨?_, (he.flagAfter_eq b).symm⟩, along_flag_of_plain htr⟩
    cases e with
    | readRunning => exact he.elim
    | _ => trivial

theorem countP_resets_of_plain {tr : Trace Event Reply} (h : ∀ y ∈ tr, y.1.Plain) :
    tr.countP (fun y => y.1.resets) = 0 := by
  refine List.countP_eq_zero.mpr fun y hy => ?_
  obtain ⟨e, r⟩ := y
  have he : e.Plain := h _ hy
  cases e with
  | setRunning => exact he.elim
  | _ => exact Bool.false_ne_true

theorem foldl_flagAfter : ∀ {tr : Trace Event Reply} {b b' : Bool}, Along FlagStep tr b b' →
    tr.foldl (fun b y => flagAfter b y.1) b = b'
  | [], _, _, h => h.symm
  | _ :: tr, _, b', ⟨_, ⟨_, rfl⟩, h⟩ => @foldl_flagAfter tr _ b' h

/-- A run that is not turned away sets the flag and resets it once. -/
theorem along_flag_of_sync {tr : Trace Event Reply} {out : Option Unit} {x x' : World}
    (hrun : w.sync.Runs tr out) (hw : Along (World.Answers False) tr x x') :
    Along FlagStep tr false false ∧ tr.countP (fun y => y.1.resets) = 1 ∧ 2 ≤ tr.length := by
  obtain ⟨running, t, rfl, h₁⟩ := runs_perform_bind.mp hrun
  obtain ⟨_, ⟨hrunning, rfl⟩, -⟩ := hw
  obtain rfl : running = false := hrunning.resolve_left id
  obtain ⟨_, t, rfl, h₂⟩ := runs_perform_bind.mp h₁
  obtain ⟨k, hfinish, hclosing⟩ := w.finish_eq
  rcases runs_bind.mp h₂ with ⟨t₁, done, t₂, rfl, hpass, h₃⟩ | ⟨hpass, -⟩
  · obtain ⟨_, -, hpass⟩ := runs_recover.mp hpass
    have hworking : ∀ y ∈ t₁, y.1.Plain := fun y hy =>
      (hpass.of_only w.only_pass_working y hy).plain
    rw [hfinish, ask_bind] at h₃
    obtain ⟨_, t₃, rfl, h₄⟩ := runs_ask.mp h₃
    have hplain : ∀ y ∈ t₃, y.1.Plain := by
      refine h₄.of_only (Prog.Only.bind ((hclosing _).mono fun e he => he.1) fun _ => ?_)
      cases done <;> trivial
    have hflag : Along FlagStep (t₁ ++ ⟨.setRunning false, ()⟩ :: t₃) true false :=
      along_append.mpr ⟨true, along_flag_of_plain hworking, false, ⟨trivial, rfl⟩,
        along_flag_of_plain hplain⟩
    refine ⟨⟨false, ⟨rfl, rfl⟩, true, ⟨trivial, rfl⟩, hflag⟩, ?_, by simp⟩
    simp only [List.countP_cons, List.countP_append, countP_resets_of_plain hworking,
      countP_resets_of_plain hplain]
    rfl
  · obtain ⟨_, hout, -⟩ := runs_recover.mp hpass
    cases hout

/-- What a program can do, an invocation can do while no other one owns the flag. -/
theorem exists_run_of_runs {i : ℕ} {t : Trigger} {p : Go Unit} {tr : Trace Event Reply}
    {out : Option Unit} {b : Bool} {x : World} (hrun : p.Runs tr out) :
    ∀ {s : Site} {past : Trace Event Reply}, s.pool.invocations i = some ⟨t, past, p⟩ →
      (∀ j a, j ≠ i → s.pool.invocations j = some a → ¬a.Owns) →
      Along FlagStep tr s.pool.running b → Along (World.Answers outage) tr s.world x →
      ∃ ls s', Run w outage s ls s' ∧ s'.pool.running = b ∧ s'.world = x ∧
        s'.pool.invocations i = some ⟨t, past ++ tr, out.elim .crash .ret⟩ ∧
        (∀ j, j ≠ i → s'.pool.invocations j = s.pool.invocations j) ∧
        passes ls = (tr.countP fun y => y.1.resets) ∧ ∀ l ∈ ls, ∃ e, l = .act i e := by
  induction hrun with
  | ret a =>
    intro s past hi _ hflag hw
    exact ⟨[], s, .nil, hflag.symm, hw.symm, by rw [List.append_nil]; exact hi,
      fun _ _ => rfl, rfl, by simp⟩
  | crash =>
    intro s past hi _ hflag hw
    exact ⟨[], s, .nil, hflag.symm, hw.symm, by rw [List.append_nil]; exact hi,
      fun _ _ => rfl, rfl, by simp⟩
  | @ask e k r tr out hrun ih =>
    intro s past hi hothers hflag hw
    obtain ⟨_, ⟨hfits, rfl⟩, hflag⟩ := hflag
    obtain ⟨x₁, hx₁, hw⟩ := hw
    have hr : s.Answers outage ⟨e, r⟩ x₁ := by
      cases e with
      | readRunning => exact ⟨hfits, hx₁.2⟩
      | _ => exact hx₁
    have hu : s.pool.Undisturbed (.act i e) := by
      cases e with
      | readRunning => exact fun j a hj ha hc => hothers j a hj ha (Or.inl hc)
      | _ => trivial
    have hstep : Run w outage s [.act i e] _ := .single ⟨hu, .act hi hr⟩
    obtain ⟨ls, s', hls, hb, hx, hi', hsame, hpasses, hacts⟩ :=
      ih (s := ⟨⟨_, Function.update s.pool.invocations i _⟩, x₁⟩) (Function.update_self ..)
        (fun j a hj ha => hothers j a hj ((Function.update_of_ne hj _ _).symm.trans ha)) hflag hw
    refine ⟨_, s', hstep.trans hls, hb, hx, ?_, fun j hj => ?_, ?_,
      List.forall_mem_cons.mpr ⟨⟨e, rfl⟩, hacts⟩⟩
    · rw [hi', List.append_assoc]
      rfl
    · exact (hsame j hj).trans (Function.update_of_ne hj _ _)
    · rw [passes, List.countP_append, List.countP_singleton, List.countP_cons, Nat.add_comm]
      exact congrArg (· + _) hpasses

/-- Whatever a run of the worker makes of the instances, an invocation from the API can. -/
theorem exists_run_of_round {x : World} {i : ℕ} (h : w.Round False s.world x) (hidle : s.Idle)
    (hrunning : s.pool.running = false) (hi : s.pool.invocations i = none) :
    ∃ ls s', Run w False s ls s' ∧ s'.world = x ∧ s'.Idle ∧ s'.pool.running = false ∧
      (∀ j, j ≠ i → s'.pool.invocations j = s.pool.invocations j) ∧ passes ls = 1 ∧
      ∀ j t, .start j t ∈ ls → t = .api := by
  obtain ⟨tr, out, hrun, hw⟩ := h
  obtain ⟨hflag, hresets, hlength⟩ := along_flag_of_sync hrun hw
  have hstart : Run w False s [.start i .api] _ := .single ⟨trivial, .start .api hi⟩
  rw [← hrunning] at hflag
  obtain ⟨ls, s', hls, hb, hx, hi', hsame, hpasses, hacts⟩ :=
    exists_run_of_runs (w := w) (t := .api) hrun
      (s := ⟨⟨_, Function.update s.pool.invocations i _⟩, s.world⟩) (Function.update_self ..)
      (fun j a hj ha => hidle j a ((Function.update_of_ne hj _ _).symm.trans ha)) hflag hw
  have hsame' : ∀ j, j ≠ i → s'.pool.invocations j = s.pool.invocations j := fun j hj =>
    (hsame j hj).trans (Function.update_of_ne hj _ _)
  refine ⟨_, s', hstart.trans hls, hx, fun j a ha => ?_, hb.trans hrunning, hsame', ?_,
    fun j t hj => ?_⟩
  · by_cases hj : j = i
    · subst hj
      obtain rfl := Option.some.inj (ha.symm.trans hi')
      rintro (hc | hh)
      · have hlen : tr.length = 1 := congrArg List.length hc
        omega
      · have hfold : tr.foldl (fun b y => flagAfter b y.1) false = true := hh
        rw [← hrunning, foldl_flagAfter hflag, hrunning] at hfold
        cases hfold
    · exact hidle j a ((hsame' j hj).symm.trans ha)
  · rw [passes, List.countP_append]
    exact (congrArg (0 + ·) (hpasses.trans hresets)).trans (Nat.zero_add 1)
  · rcases List.mem_cons.mp hj with hj | hj
    · cases hj
      rfl
    · obtain ⟨e, he⟩ := hacts _ hj
      cases he

/-! ## What holds under any interleaving -/

theorem reflTransGen_of_rounds {x x' : World} (h : w.Rounds outage x n x') :
    Relation.ReflTransGen (w.Round outage) x x' := by
  induction h with
  | zero => exact .refl
  | succ _ hlast ih => exact ih.tail hlast

/-- A run changes nobody but the replicas, however far it has got. -/
theorem eq_of_along {tr post : Trace Event Reply} {out : Option Unit} {x x' : World}
    (hrun : w.sync.Runs (tr ++ post) out) (hw : Along (World.Answers outage) tr x x') {p : Party}
    (hp : ∀ r ∈ w.replicas, p ≠ .replica r) : x' p = x p := by
  refine hw.eq_of_keeps (f := fun x => x p) fun y hy x₁ x₂ hstep => ?_
  obtain ⟨e, reply⟩ := y
  have hwrite : ∀ q wr r, (⟨e, reply⟩ : Entry Event Reply) = ⟨.write q wr, r⟩ → p ≠ q := by
    rintro q wr r he
    obtain ⟨inst, hinst, rfl⟩ :=
      Worker.exists_replica_of_write hrun (List.mem_append_left _ (he ▸ hy))
    exact hp inst hinst
  cases e with
  | write q wr =>
    have hne := hwrite q wr reply rfl
    cases reply with
    | ok =>
      obtain rfl : x₂ = x₁.serve q [wr] := hstep
      exact World.serve_of_ne hne x₁ [wr]
    | error err =>
      rcases hstep.2 with rfl | rfl
      · rfl
      · exact World.serve_of_ne hne x₁ [wr]
  | createClient | readRunning => rw [hstep.2]
  | read => cases reply <;> rw [hstep.2]
  | updateResult => rw [hstep]; rfl
  | _ => rw [hstep]

/-- What the invocations have done, complete or not, has changed nobody but the replicas. -/
theorem Shows.eq_of_not_replica {x : World} (hs : s.Ordered w) (h : s.Shows w outage x n)
    {p : Party} (hp : ∀ r ∈ w.replicas, p ≠ .replica r) : s.world p = x p := by
  have hrounds : ∀ {n : ℕ} {x' : World}, w.Rounds outage x n x' → x' p = x p := by
    intro n x' hrounds
    induction hrounds with
    | zero => rfl
    | succ _ hlast ih =>
      obtain ⟨tr, out, hrun, hw⟩ := hlast
      rw [← List.append_nil tr] at hrun
      exact (eq_of_along hrun hw hp).trans ih
  rcases h with ⟨-, hr⟩ | ⟨i, a, x', ha, -, hr, hw⟩
  · exact hrounds hr
  · obtain ⟨tr, out, _, hrun, -⟩ := a.rest.exists_along (World.exists_answers outage) x
    exact (eq_of_along (hs.derived i a ha tr out hrun) hw hp).trans (hrounds hr)

/-- Any number of invocations of a worker interleave, with any failures. If none reads the flag
between another one's reading and setting it, then in every state the instances are as complete
runs of the worker leave them that came one after the other, one for each time the flag was
reset, and perhaps a part of one more run. Nobody but the replicas is ever changed. -/
theorem serializable {x : World} {ls : List Label} (h : Run w outage (initial x) ls s) :
    s.Shows w outage x (passes ls) ∧
      ∀ p, (∀ r ∈ w.replicas, p ≠ .replica r) → s.world p = x p := by
  obtain ⟨hordered, hshows⟩ := h.shows (ordered_initial x) (idle_initial x)
  exact ⟨hshows, fun p hp => hshows.eq_of_not_replica hordered hp⟩

/-- One invocation has come to its end. -/
theorem serializable_sample : ∃ ls s, Run listsWorker False (initial sampleWorld) ls s ∧
    s.Shows listsWorker False sampleWorld 1 ∧ s.Idle ∧
    s.world .origin = sampleWorld .origin := by
  obtain ⟨x, hround⟩ := Worker.exists_round (w := listsWorker) False sampleWorld
  obtain ⟨ls, s, h, -, hidle, -, -, hpasses, -⟩ :=
    exists_run_of_round (i := 0) hround (idle_initial sampleWorld) rfl rfl
  obtain ⟨hshows, hothers⟩ := serializable h
  exact ⟨ls, s, h, hpasses ▸ hshows, hidle, hothers .origin nofun⟩

/-- However the invocations interleave, and whatever has failed before : once two of them have
come to their end without a failure all replicas mirror the origin, which is as it was. -/
theorem mirrored_of_runs {x : World} {ls₁ ls₂ : List Label} {s₁ s₂ : Site} (hx : w.Healthy x)
    (h₁ : Run w True (initial x) ls₁ s₁) (hidle₁ : s₁.Idle) (h₂ : Run w False s₁ ls₂ s₂)
    (hidle₂ : s₂.Idle) (hpasses : 2 ≤ passes ls₂) :
    s₂.world .origin = x .origin ∧ w.Mirrored s₂.world := by
  have hrounds₁ := h₁.rounds (ordered_initial x) (idle_initial x) hidle₁
  have hordered := (h₁.shows (ordered_initial x) (idle_initial x)).1
  obtain ⟨horigin₁, hx₁⟩ := Worker.healthy_of_rounds hx (reflTransGen_of_rounds hrounds₁)
  have hrounds₂ := h₂.rounds hordered hidle₁ hidle₂
  obtain ⟨horigin₂, -⟩ := Worker.healthy_of_rounds hx₁ (reflTransGen_of_rounds hrounds₂)
  refine ⟨horigin₂.trans horigin₁, ?_⟩
  obtain ⟨m, hm⟩ := Nat.exists_eq_add_of_le' hpasses
  rw [hm] at hrounds₂
  cases hrounds₂ with
  | succ hrounds₂ hlast =>
    cases hrounds₂ with
    | succ hrounds₂ hlast' =>
      obtain ⟨-, hx₂⟩ := Worker.healthy_of_rounds hx₁ (reflTransGen_of_rounds hrounds₂)
      exact Worker.mirrored_of_rounds hx₂ hlast' hlast

end Site

end AghSync
