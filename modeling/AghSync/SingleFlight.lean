import AghSync.Scenario
import Mathlib.Logic.Function.Basic
import Mathlib.Logic.Relation

/-!
# One sync at a time

Any number of invocations of `worker.sync`, from the cron scheduler, the API and the start
of the program, interleave their events. They share the flag `running`; every other reply is
arbitrary. An invocation holds the flag from setting it to resetting it.

The flag is read first and set later, so two invocations can both find it unset. If no
invocation reads the flag while another is between the two, at most one holds it, in every
reachable state (`invariant_of_reachable`) : the one that has found it unset, or holds it, is
the only one of its kind.
-/

open Interaction

namespace AghSync

/-! ## Interleavings -/

/-- What starts a sync. -/
inductive Trigger
  | cron
  | api
  | runOnStart
  deriving DecidableEq

/-- An invocation of `worker.sync` : what it has done, and what is left to do. -/
structure Invocation where
  trigger : Trigger
  past : Trace Event Reply
  rest : Go Unit

/-- The invocations of one worker. -/
structure Pool where
  running : Bool
  invocations : ℕ → Option Invocation

/-- A worker that was just made. -/
def Pool.initial : Pool :=
  ⟨false, fun _ => none⟩

/-- The flag after an event. -/
def flagAfter (running : Bool) : Event → Bool
  | .setRunning b => b
  | _ => running

/-- The reply fits the flag. -/
def FitsFlag (running : Bool) : Entry Event Reply → Prop
  | ⟨.readRunning, b⟩ => b = running
  | _ => True

/-- What happens in a step. -/
inductive Label
  | start (i : ℕ) (trigger : Trigger)
  | act (i : ℕ) (e : Event)

/-- One event of one invocation, or a new invocation. -/
inductive Pool.Step (w : Worker) : Pool → Label → Pool → Prop
  | start {s : Pool} {i : ℕ} (trigger : Trigger) (h : s.invocations i = none) :
      Step w s (.start i trigger)
        ⟨s.running, Function.update s.invocations i (some ⟨trigger, [], w.sync⟩)⟩
  | act {s : Pool} {i : ℕ} {trigger : Trigger} {past : Trace Event Reply} {e : Event}
      {k : Reply e → Go Unit} {r : Reply e}
      (h : s.invocations i = some ⟨trigger, past, .ask e k⟩) (hr : FitsFlag s.running ⟨e, r⟩) :
      Step w s (.act i e)
        ⟨flagAfter s.running e,
          Function.update s.invocations i (some ⟨trigger, past ++ [⟨e, r⟩], k r⟩)⟩

namespace Invocation

/-- The invocation has set the flag and not reset it. -/
def Holds (a : Invocation) : Prop :=
  a.past.foldl (fun b x => flagAfter b x.1) false = true

/-- The invocation has found the flag unset, and done nothing since. -/
def Checked (a : Invocation) : Prop :=
  a.past = [⟨.readRunning, false⟩]

/-- The next event of the invocation is a call to an instance. -/
def Calling (a : Invocation) : Prop :=
  ∃ e k p, a.rest = .ask e k ∧ e.Calls p

end Invocation

/-- The step does not read the flag between another invocation's reading and setting it. -/
def Pool.Undisturbed (s : Pool) : Label → Prop
  | .act i .readRunning => ∀ j a, j ≠ i → s.invocations j = some a → ¬a.Checked
  | _ => True

/-! ## What is left of an invocation -/

/-- The event leaves the flag alone. -/
def Event.Plain : Event → Prop
  | .readRunning => False
  | .setRunning _ => False
  | _ => True

/-- The event leaves the flag alone and calls nobody. -/
def Event.Closing (e : Event) : Prop :=
  e.Plain ∧ ∀ p, ¬e.Calls p

/-- A program that leaves the flag alone until it resets it, and only closes then. -/
inductive Inside : Go Unit → Prop
  | step {e : Event} {k : Reply e → Go Unit} (he : e.Plain) (h : ∀ r, Inside (k r)) :
      Inside (.ask e k)
  | leave {k : Reply (.setRunning false) → Go Unit} (h : ∀ r, (k r).Only Event.Closing) :
      Inside (.ask (.setRunning false) k)

/-- The event is one of a pass : it uses nothing that the runs share. -/
def Event.Working : Event → Prop
  | .readRunning | .setRunning _ | .setLastSyncTime _ | .cronNext | .setNextSyncTime _ => False
  | _ => True

theorem Event.Working.plain {e : Event} (h : e.Working) : e.Plain := by
  cases e with
  | readRunning | setRunning => exact h.elim
  | _ => trivial

theorem Event.Calls.working {p : Party} {e : Event} (h : e.Calls p) : e.Working := by
  cases e with
  | read | write | rangeMap => trivial
  | _ => exact h.elim

namespace Worker

variable (w : Worker)

/-- A pass uses nothing that the runs share. -/
theorem only_pass_working : w.pass.Only Event.Working := by
  have hsyncTo : ∀ r o, (w.syncTo r o).Only Event.Working := by
    intro r o
    refine only_perform_bind trivial ?_
    rintro (e | _)
    · trivial
    · refine only_perform_bind trivial fun _ => only_perform_bind trivial fun _ => ?_
      refine Prog.Only.bind ((w.only_work _ _ _).mono fun e he => he.working) fun done => ?_
      refine only_perform_bind trivial fun _ => ?_
      cases done.crashed
      · trivial
      · trivial
  have hsyncAll : ∀ rs o, (w.syncAll rs o).Only Event.Working := by
    intro rs
    induction rs with
    | nil => exact fun o => trivial
    | cons r rs ih => exact fun o => Prog.Only.bind (hsyncTo r o) ih
  refine only_perform_bind trivial ?_
  rintro (e | _)
  · trivial
  · refine Prog.Only.bind ((w.only_readOrigin _ _).mono ?_) ?_
    · rintro _ ⟨r, rfl⟩
      trivial
    · rintro ⟨e | _, o⟩
      · trivial
      · exact only_perform_bind trivial fun order => hsyncAll _ o

/-- The deferred part resets the flag and then closes. -/
theorem finish_eq : ∃ k, w.finish = .ask (.setRunning false) k ∧
    ∀ r, (k r).Only Event.Closing := by
  refine ⟨_, rfl, fun _ => ⟨⟨trivial, fun _ => id⟩, fun _ => ⟨⟨trivial, fun _ => id⟩, fun _ => ?_⟩⟩⟩
  dsimp only
  split
  · refine ⟨⟨trivial, fun _ => id⟩, ?_⟩
    rintro (_ | t)
    · trivial
    · exact ⟨⟨trivial, fun _ => id⟩, fun _ => trivial⟩
  · trivial

/-- A run reads the flag, sets it if it is not set, and is inside then. -/
theorem sync_eq : ∃ k, w.sync = .ask .readRunning k ∧ k true = .ret () ∧
    ∃ k', k false = .ask (.setRunning true) k' ∧ ∀ r, Inside (k' r) := by
  refine ⟨_, rfl, rfl, _, rfl, fun _ => ?_⟩
  refine w.only_pass_working.recover_bind (fun _ _ he => .step he.plain) fun done => ?_
  obtain ⟨k, hk, hclosing⟩ := w.finish_eq
  rw [hk]
  refine .leave fun r => Prog.Only.bind (hclosing r) fun _ => ?_
  rcases done with _ | _
  · trivial
  · trivial

end Worker

/-! ## The invariant -/

/-- What is left of an invocation fits what it has done. -/
inductive Invocation.Ok (w : Worker) (a : Invocation) : Prop
  | fresh (hpast : a.past = []) (hrest : a.rest = w.sync)
  | checked {k : Reply (.setRunning true) → Go Unit} (hpast : a.Checked)
      (hrest : a.rest = .ask (.setRunning true) k) (h : ∀ r, Inside (k r))
  | inside (hholds : a.Holds) (h : Inside a.rest)
  | outside (hholds : ¬a.Holds) (hchecked : ¬a.Checked) (h : a.rest.Only Event.Closing)

/-- The invocation has found the flag unset, or holds it. -/
def Invocation.Owns (a : Invocation) : Prop :=
  a.Checked ∨ a.Holds

/-- At most one invocation owns the flag, and the flag is set while it is held. -/
structure Pool.Invariant (w : Worker) (s : Pool) : Prop where
  ok : ∀ i a, s.invocations i = some a → a.Ok w
  single : ∀ i j a b, s.invocations i = some a → s.invocations j = some b → a.Owns → b.Owns →
    i = j
  flag : ∀ i a, s.invocations i = some a → a.Holds → s.running = true

/-- What one event of an invocation does to it. -/
structure Invocation.Stepped (w : Worker) (running : Bool) (a : Invocation) (e : Event)
    (a' : Invocation) : Prop where
  ok : a'.Ok w
  owns : a'.Owns → a.Owns ∨ e = .readRunning ∧ running = false
  holds : a'.Holds → e = .setRunning true ∨ a.Holds ∧ flagAfter running e = running
  flag : flagAfter running e ≠ running → a.Owns

theorem Event.Plain.flagAfter_eq {e : Event} (h : e.Plain) (b : Bool) : flagAfter b e = b := by
  cases e with
  | readRunning => rfl
  | setRunning => exact h.elim
  | _ => rfl

theorem Invocation.holds_concat {t : Trigger} {past : Trace Event Reply} {x : Entry Event Reply}
    {p q : Go Unit} (hx : ∀ b, flagAfter b x.1 = b) :
    (⟨t, past ++ [x], p⟩ : Invocation).Holds ↔ (⟨t, past, q⟩ : Invocation).Holds := by
  rw [Holds, Holds, List.foldl_append, List.foldl_cons, List.foldl_nil, hx]

/-- An invocation that has done something before is not the one that has just read. -/
theorem Invocation.not_checked_concat {t : Trigger} {past : Trace Event Reply}
    {x : Entry Event Reply} {p : Go Unit} (hx : x.1 ≠ .readRunning) :
    ¬(⟨t, past ++ [x], p⟩ : Invocation).Checked := by
  intro h
  have hlast : x = ⟨.readRunning, false⟩ := by
    have h' : past ++ [x] = [] ++ [⟨.readRunning, false⟩] := h
    exact List.singleton_inj.mp (List.append_inj_right' h' rfl)
  exact hx (by rw [hlast])

/-- The first event reads the flag. -/
theorem Invocation.stepped_fresh {w : Worker} {t : Trigger} {e : Event} {k : Reply e → Go Unit}
    {r : Reply e} {running : Bool} (hrest : .ask e k = w.sync) (hr : FitsFlag running ⟨e, r⟩) :
    Invocation.Stepped w running ⟨t, [], .ask e k⟩ e ⟨t, [] ++ [⟨e, r⟩], k r⟩ := by
  obtain ⟨k₁, hsync, htrue, k₂, hfalse, hinside⟩ := w.sync_eq
  obtain ⟨rfl, hk⟩ := Prog.ask.inj (hrest.trans hsync)
  obtain rfl := eq_of_heq hk
  obtain rfl : r = running := hr
  cases r with
  | true =>
    refine ⟨.outside (by simp [Holds, flagAfter]) (by simp [Checked]) ?_, ?_, ?_, ?_⟩
    · rw [htrue]
      trivial
    · rintro (hc | hh)
      · simp [Checked] at hc
      · simp [Holds, flagAfter] at hh
    · simp [Holds, flagAfter]
    · exact fun hf => absurd rfl hf
  | false =>
    refine ⟨.checked rfl hfalse hinside, fun _ => Or.inr ⟨rfl, rfl⟩, ?_, ?_⟩
    · simp [Holds, flagAfter]
    · exact fun hf => absurd rfl hf

/-- An invocation that holds the flag goes on holding it, or resets it. -/
theorem Invocation.stepped_inside {w : Worker} {t : Trigger} {past : Trace Event Reply}
    {e : Event} {k : Reply e → Go Unit} {r : Reply e} {running : Bool}
    (hholds : (⟨t, past, .ask e k⟩ : Invocation).Holds) (hinside : Inside (.ask e k)) :
    Invocation.Stepped w running ⟨t, past, .ask e k⟩ e ⟨t, past ++ [⟨e, r⟩], k r⟩ := by
  cases hinside with
  | step he hk =>
    have hflag := fun b => he.flagAfter_eq b
    exact ⟨.inside ((holds_concat hflag).mpr hholds) (hk r), fun _ => Or.inl (Or.inr hholds),
      fun _ => Or.inr ⟨hholds, hflag running⟩, fun hf => absurd (hflag running) hf⟩
  | leave hk =>
    refine ⟨.outside ?_ (not_checked_concat nofun) (hk r), ?_, ?_, fun _ => Or.inr hholds⟩
    · simp [Holds, flagAfter]
    · exact fun _ => Or.inl (Or.inr hholds)
    · simp [Holds, flagAfter]

/-- An invocation that is through does not touch the flag. -/
theorem Invocation.stepped_outside {w : Worker} {t : Trigger} {past : Trace Event Reply}
    {e : Event} {k : Reply e → Go Unit} {r : Reply e} {running : Bool}
    (hholds : ¬(⟨t, past, .ask e k⟩ : Invocation).Holds)
    (hclosing : (Prog.ask e k).Only Event.Closing) :
    Invocation.Stepped w running ⟨t, past, .ask e k⟩ e ⟨t, past ++ [⟨e, r⟩], k r⟩ := by
  obtain ⟨he, hk⟩ := hclosing
  have hflag := fun b => he.1.flagAfter_eq b
  have hnot : ¬(⟨t, past ++ [⟨e, r⟩], k r⟩ : Invocation).Checked := by
    refine not_checked_concat ?_
    rintro rfl
    exact he.1
  have hnot' : ¬(⟨t, past ++ [⟨e, r⟩], k r⟩ : Invocation).Holds := fun hh =>
    hholds ((holds_concat hflag).mp hh)
  exact ⟨.outside hnot' hnot (hk r), fun ho => absurd ho (not_or.mpr ⟨hnot, hnot'⟩),
    fun hh => absurd hh hnot', fun hf => absurd (hflag running) hf⟩

theorem Invocation.Ok.act {w : Worker} {running : Bool} {t : Trigger}
    {past : Trace Event Reply} {e : Event} {k : Reply e → Go Unit} {r : Reply e}
    (h : (⟨t, past, .ask e k⟩ : Invocation).Ok w) (hr : FitsFlag running ⟨e, r⟩) :
    Invocation.Stepped w running ⟨t, past, .ask e k⟩ e ⟨t, past ++ [⟨e, r⟩], k r⟩ := by
  cases h with
  | fresh hpast hrest =>
    obtain rfl : past = [] := hpast
    exact stepped_fresh hrest hr
  | checked hpast hrest hinside =>
    obtain ⟨rfl, hk⟩ := Prog.ask.inj hrest
    obtain rfl := eq_of_heq hk
    refine ⟨.inside ?_ (hinside r), fun _ => Or.inl (Or.inl hpast), fun _ => Or.inl rfl,
      fun _ => Or.inl hpast⟩
    simp [Holds, flagAfter]
  | inside hholds hinside => exact stepped_inside hholds hinside
  | outside hholds _ hclosing => exact stepped_outside hholds hclosing

theorem Pool.invariant_initial (w : Worker) : Pool.initial.Invariant w :=
  ⟨nofun, nofun, nofun⟩

theorem of_update_eq_some {α : Type} {f : ℕ → Option α} {i j : ℕ} {a b : α}
    (h : Function.update f i (some a) j = some b) : j = i ∧ b = a ∨ j ≠ i ∧ f j = some b := by
  by_cases hj : j = i
  · subst hj
    rw [Function.update_self] at h
    exact Or.inl ⟨rfl, (Option.some.inj h).symm⟩
  · rw [Function.update_of_ne hj] at h
    exact Or.inr ⟨hj, h⟩

/-- Replacing one invocation keeps the invariant if the new one is in order, owns the flag
only if nobody else does, and nobody else holds a flag that changes. -/
theorem Pool.Invariant.update {w : Worker} {s : Pool} (hs : s.Invariant w) {i : ℕ}
    {a : Invocation} {running : Bool} (hok : a.Ok w)
    (howns : a.Owns → ∀ j b, j ≠ i → s.invocations j = some b → ¬b.Owns)
    (hholds : a.Holds → running = true)
    (hothers : ∀ j b, j ≠ i → s.invocations j = some b → b.Holds → running = s.running) :
    (⟨running, Function.update s.invocations i (some a)⟩ : Pool).Invariant w := by
  refine ⟨fun j b hb => ?_, fun j j' b b' hb hb' ho ho' => ?_, fun j b hb hh => ?_⟩
  · rcases of_update_eq_some hb with ⟨-, rfl⟩ | ⟨-, hb⟩
    · exact hok
    · exact hs.ok j b hb
  · rcases of_update_eq_some hb with ⟨rfl, rfl⟩ | ⟨hj, hb₁⟩
    · rcases of_update_eq_some hb' with ⟨rfl, -⟩ | ⟨hj', hb₂⟩
      · rfl
      · exact absurd ho' (howns ho j' b' hj' hb₂)
    · rcases of_update_eq_some hb' with ⟨rfl, rfl⟩ | ⟨-, hb₂⟩
      · exact absurd ho (howns ho' j b hj hb₁)
      · exact hs.single j j' b b' hb₁ hb₂ ho ho'
  · rcases of_update_eq_some hb with ⟨-, rfl⟩ | ⟨hj, hb⟩
    · exact hholds hh
    · exact (hothers j b hj hb hh).trans (hs.flag j b hb hh)

/-- A step that does not read the flag at the wrong moment keeps the invariant. -/
theorem Pool.Invariant.step {w : Worker} {s s' : Pool} {l : Label} (hs : s.Invariant w)
    (hu : s.Undisturbed l) (h : Pool.Step w s l s') : s'.Invariant w := by
  cases h with
  | start t hnone =>
    refine hs.update (.fresh rfl rfl) ?_ ?_ fun _ _ _ _ _ => rfl
    · rintro (hc | hh)
      · simp [Invocation.Checked] at hc
      · simp [Invocation.Holds] at hh
    · simp [Invocation.Holds]
  | @act i t past e k r hi hr =>
    have hstep := (hs.ok i _ hi).act hr
    refine hs.update hstep.ok ?_ ?_ ?_
    · intro ho j b hj hb hob
      rcases hstep.owns ho with ha | ⟨rfl, hrunning⟩
      · exact hj (hs.single j i b _ hb hi hob ha)
      · rcases hob with hc | hh
        · exact hu j b hj hb hc
        · rw [hs.flag j b hb hh] at hrunning
          cases hrunning
    · intro hh
      rcases hstep.holds hh with rfl | ⟨ha, hflag⟩
      · rfl
      · exact hflag.trans (hs.flag i _ hi ha)
    · intro j b hj hb hh
      by_contra hflag
      exact hj (hs.single j i b _ hb hi (Or.inr hh) (hstep.flag hflag))

/-- Runs of a pool in which no invocation reads the flag between another one's reading and
setting it. -/
def Pool.UndisturbedStep (w : Worker) (s s' : Pool) : Prop :=
  ∃ l, s.Undisturbed l ∧ Pool.Step w s l s'

theorem Pool.invariant_of_reachable {w : Worker} {s : Pool}
    (h : Relation.ReflTransGen (Pool.UndisturbedStep w) .initial s) : s.Invariant w := by
  induction h with
  | refl => exact invariant_initial w
  | tail _ hstep ih =>
    obtain ⟨l, hu, hl⟩ := hstep
    exact ih.step hu hl

/-- Only an invocation that holds the flag calls an instance. -/
theorem Invocation.Ok.holds_of_calling {w : Worker} {a : Invocation} (h : a.Ok w)
    (hc : a.Calling) : a.Holds := by
  obtain ⟨e, k, p, hrest, he⟩ := hc
  cases h with
  | fresh hpast hw =>
    obtain ⟨_, hsync, -⟩ := w.sync_eq
    obtain ⟨rfl, -⟩ := Prog.ask.inj (hrest.symm.trans (hw.trans hsync))
    exact he.elim
  | checked hpast hset _ =>
    obtain ⟨rfl, -⟩ := Prog.ask.inj (hrest.symm.trans hset)
    exact he.elim
  | inside hholds _ => exact hholds
  | outside _ _ hclosing =>
    rw [hrest] at hclosing
    exact absurd he (hclosing.1.2 p)

/-- In every run in which no invocation reads the flag between another one's reading it unset
and setting it, at most one invocation is between setting and resetting it, and so at most
one calls an instance. -/
theorem Pool.single_sync {w : Worker} {s : Pool}
    (h : Relation.ReflTransGen (Pool.UndisturbedStep w) .initial s) {i j : ℕ} {a b : Invocation}
    (ha : s.invocations i = some a) (hb : s.invocations j = some b) (hij : i ≠ j) :
    ¬(a.Holds ∧ b.Holds) ∧ ¬(a.Calling ∧ b.Calling) := by
  have hs := invariant_of_reachable h
  have hholds : ¬(a.Holds ∧ b.Holds) := fun ⟨hha, hhb⟩ =>
    hij (hs.single i j a b ha hb (Or.inr hha) (Or.inr hhb))
  exact ⟨hholds, fun ⟨hca, hcb⟩ =>
    hholds ⟨(hs.ok i a ha).holds_of_calling hca, (hs.ok j b hb).holds_of_calling hcb⟩⟩

/-- An invocation has set the flag, and another one has started. -/
theorem Pool.single_sync_sample : ∃ s a b,
    Relation.ReflTransGen (Pool.UndisturbedStep (sampleWorker {} false [])) .initial s ∧
      s.invocations 0 = some a ∧ s.invocations 1 = some b ∧ a.Holds ∧
      ¬(a.Holds ∧ b.Holds) ∧ ¬(a.Calling ∧ b.Calling) := by
  have hreach : ∃ s a b,
      Relation.ReflTransGen (Pool.UndisturbedStep (sampleWorker {} false [])) .initial s ∧
        s.invocations 0 = some a ∧ s.invocations 1 = some b ∧ a.Holds := by
    refine ⟨_, _, _, .head ⟨.start 0 .cron, trivial, .start _ rfl⟩ <|
      .head ⟨.act 0 .readRunning, ?_, .act rfl (show FitsFlag false ⟨_, false⟩ from rfl)⟩ <|
      .head ⟨.act 0 (.setRunning true), trivial,
        .act rfl (show FitsFlag false ⟨_, ()⟩ from trivial)⟩ <|
      .single ⟨.start 1 .api, trivial, .start _ rfl⟩, rfl, rfl, rfl⟩
    intro j a hj ha
    simp [Function.update_of_ne hj, Pool.initial] at ha
  obtain ⟨s, a, b, h, ha, hb, hholds⟩ := hreach
  exact ⟨s, a, b, h, ha, hb, hholds, Pool.single_sync h ha hb (by decide)⟩

/-- Two invocations that both read the flag before one of them sets it both hold it. -/
theorem Pool.exists_two_syncs :
    ¬∀ s, Relation.ReflTransGen (fun s s' => ∃ l, Pool.Step (sampleWorker {} false []) s l s')
        .initial s →
      ∀ i j a b, i ≠ j → s.invocations i = some a → s.invocations j = some b →
        ¬(a.Holds ∧ b.Holds) := by
  intro h
  refine h _ (.head ⟨.start 0 .cron, .start _ rfl⟩ <|
    .head ⟨.start 1 .api, .start _ rfl⟩ <|
    .head ⟨.act 0 .readRunning, .act rfl (show FitsFlag false ⟨_, false⟩ from rfl)⟩ <|
    .head ⟨.act 1 .readRunning, .act rfl (show FitsFlag false ⟨_, false⟩ from rfl)⟩ <|
    .head ⟨.act 0 (.setRunning true), .act rfl (show FitsFlag false ⟨_, ()⟩ from trivial)⟩ <|
    .single ⟨.act 1 (.setRunning true), .act rfl (show FitsFlag true ⟨_, ()⟩ from trivial)⟩)
    0 1 _ _ (by decide) rfl rfl ⟨rfl, rfl⟩

end AghSync
