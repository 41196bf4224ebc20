import Mathlib.Data.List.Infix
import Mathlib.Tactic.Cases

/-!
# Programs that talk to an environment

A `Prog E R α` performs events `e : E`, is told a reply in `R e`, and ends with a value or
in a crash. It is a tree: what it does next is a function of the replies so far, so a
statement about its executions (`Runs`) is a statement about every environment.

`Prog.exec` answers the events by a stateful handler and `runs_exec` makes each such run an
execution. Two executions of one program can only differ after a reply in which they
differ : under one strategy there is one execution (`Runs.unique`), and executions which one
strategy answers so far ask the same next event (`Runs.next_event`).

`Act` adds a state and errors on top. It is how code with early returns is written : the
first error ends the computation and the state reached so far is kept. `Built` says a
computation is put together from basic ones by sequencing. What holds of the basic ones
and survives sequencing holds of all : which events can occur (`Built.only`), and that a
bad reply is the last one and is reported (`Built.stopsAt`). `CrashesAfter` says which replies
a crash comes after.

An environment can have a state. A program run against it goes `Along` a trace from one state to
another. What every step of a kind keeps is kept by a whole run of such steps
(`Along.eq_of_keeps`, `Along.invariant`), and where every event has a reply every program has a
run (`Prog.exists_along`).

An `Execution` is a list of labels that leads from one state to another, of a system that need
not be a program. What every step keeps an execution keeps (`Execution.keeps`). If every step of
one system is a step of a second one, or nothing at all for it, then an execution of the first
is one of the second, with the labels that are left (`Execution.simulate`).
-/

namespace Interaction

/-- A program with events `E`, replies `R e` and results `α`. -/
inductive Prog (E : Type) (R : E → Type) (α : Type) : Type
  | ret (a : α)
  | crash
  | ask (e : E) (k : R e → Prog E R α)

/-- An event with the reply it got. -/
abbrev Entry (E : Type) (R : E → Type) := (e : E) × R e

/-- The events of one execution, in order. -/
abbrev Trace (E : Type) (R : E → Type) := List (Entry E R)

variable {E : Type} {R : E → Type} {α β σ ε : Type}

namespace Prog

/-- Run `p`, then `f` on its result. A crash ends both. -/
protected def bind : Prog E R α → (α → Prog E R β) → Prog E R β
  | ret a, f => f a
  | crash, _ => crash
  | ask e k, f => ask e fun r => (k r).bind f

instance : Monad (Prog E R) where
  pure := ret
  bind := Prog.bind

/-- Perform `e` and return the reply. -/
def perform (e : E) : Prog E R (R e) :=
  ask e ret

/-- Run `p` and turn a crash into `none`. -/
def recover : Prog E R α → Prog E R (Option α)
  | ret a => ret (some a)
  | crash => ret none
  | ask e k => ask e fun r => (k r).recover

@[simp] theorem crash_bind (f : α → Prog E R β) : (crash : Prog E R α) >>= f = crash :=
  rfl

@[simp] theorem ask_bind (e : E) (k : R e → Prog E R α) (f : α → Prog E R β) :
    ask e k >>= f = ask e fun r => k r >>= f :=
  rfl

@[simp] theorem perform_bind (e : E) (f : R e → Prog E R β) : perform e >>= f = ask e f :=
  rfl

theorem bind_assoc {γ : Type} (p : Prog E R α) (f : α → Prog E R β) (g : β → Prog E R γ) :
    p >>= f >>= g = p >>= fun a => f a >>= g := by
  induction p with
  | ret a => rfl
  | crash => rfl
  | ask e k ih => exact congrArg (ask e) (funext ih)

/-! ## Executions -/

/-- `Runs p tr out` : `p` can perform `tr` and end with the value `out`, or crash. -/
inductive Runs : Prog E R α → Trace E R → Option α → Prop
  | ret (a : α) : Runs (.ret a) [] (some a)
  | crash : Runs .crash [] none
  | ask {e : E} {k : R e → Prog E R α} {r : R e} {tr : Trace E R} {out : Option α} :
      Runs (k r) tr out → Runs (.ask e k) (⟨e, r⟩ :: tr) out

@[simp] theorem runs_ret {a : α} {tr : Trace E R} {out : Option α} :
    Runs (ret a) tr out ↔ tr = [] ∧ out = some a := by
  constructor
  · rintro ⟨⟩
    exact ⟨rfl, rfl⟩
  · rintro ⟨rfl, rfl⟩
    exact .ret a

@[simp] theorem runs_crash {tr : Trace E R} {out : Option α} :
    Runs (crash : Prog E R α) tr out ↔ tr = [] ∧ out = none := by
  constructor
  · rintro ⟨⟩
    exact ⟨rfl, rfl⟩
  · rintro ⟨rfl, rfl⟩
    exact .crash

@[simp] theorem runs_ask {e : E} {k : R e → Prog E R α} {tr : Trace E R} {out : Option α} :
    Runs (ask e k) tr out ↔ ∃ r t, tr = ⟨e, r⟩ :: t ∧ Runs (k r) t out := by
  constructor
  · rintro (_ | _ | h)
    exact ⟨_, _, rfl, h⟩
  · rintro ⟨r, t, rfl, h⟩
    exact .ask h

/-- An execution of `p >>= f` is one of `p` followed by one of `f`, or `p` crashing. -/
theorem runs_bind {p : Prog E R α} {f : α → Prog E R β} {tr : Trace E R} {out : Option β} :
    Runs (p >>= f) tr out ↔
      (∃ t₁ a t₂, tr = t₁ ++ t₂ ∧ Runs p t₁ (some a) ∧ Runs (f a) t₂ out) ∨
        Runs p tr none ∧ out = none := by
  induction p generalizing tr with
  | ret a =>
    constructor
    · exact fun h => Or.inl ⟨[], a, tr, rfl, .ret a, h⟩
    · rintro (⟨t₁, b, t₂, rfl, h₁, h₂⟩ | ⟨h, -⟩)
      · obtain ⟨rfl, hb⟩ := runs_ret.mp h₁
        obtain rfl := Option.some.inj hb
        exact h₂
      · simp at h
  | crash => simp
  | ask e k ih =>
    constructor
    · intro h
      obtain ⟨r, t, rfl, hk⟩ := runs_ask.mp h
      rcases (ih r).mp hk with ⟨t₁, a, t₂, rfl, h₁, h₂⟩ | ⟨hp, rfl⟩
      · exact Or.inl ⟨⟨e, r⟩ :: t₁, a, t₂, rfl, .ask h₁, h₂⟩
      · exact Or.inr ⟨.ask hp, rfl⟩
    · rintro (⟨t₁, a, t₂, rfl, h₁, h₂⟩ | ⟨h, rfl⟩)
      · obtain ⟨r, t, rfl, hk⟩ := runs_ask.mp h₁
        exact .ask ((ih r).mpr (Or.inl ⟨t, a, t₂, rfl, hk, h₂⟩))
      · obtain ⟨r, t, rfl, hk⟩ := runs_ask.mp h
        exact .ask ((ih r).mpr (Or.inr ⟨hk, rfl⟩))

theorem Runs.bind {p : Prog E R α} {f : α → Prog E R β} {t₁ t₂ : Trace E R} {a : α}
    {out : Option β} (h₁ : Runs p t₁ (some a)) (h₂ : Runs (f a) t₂ out) :
    Runs (p >>= f) (t₁ ++ t₂) out :=
  runs_bind.mpr (Or.inl ⟨t₁, a, t₂, rfl, h₁, h₂⟩)

/-- What follows a program that ends with a value is decided there. -/
theorem Runs.eq_of_bind_eq {p : Prog E R α} {f g : α → Prog E R β} {tr : Trace E R}
    {out : Option α} (h : Runs p tr out) (heq : p >>= f = p >>= g) : ∀ a ∈ out, f a = g a := by
  induction h with
  | ret a =>
    intro b hb
    obtain rfl := Option.some.inj hb
    exact heq
  | crash => exact nofun
  | ask _ ih => exact ih (congrFun (eq_of_heq (ask.inj heq).2) _)

/-- `recover` has the executions of the program, with the outcome as its value. -/
theorem runs_recover {p : Prog E R α} {tr : Trace E R} {out : Option (Option α)} :
    Runs p.recover tr out ↔ ∃ o, out = some o ∧ Runs p tr o := by
  induction p generalizing tr with
  | ret a =>
    simp only [recover, runs_ret]
    exact ⟨fun ⟨ht, ho⟩ => ⟨_, ho, ht, rfl⟩, fun ⟨o, ho, ht, h⟩ => ⟨ht, h ▸ ho⟩⟩
  | crash =>
    simp only [recover, runs_ret, runs_crash]
    exact ⟨fun ⟨ht, ho⟩ => ⟨_, ho, ht, rfl⟩, fun ⟨o, ho, ht, h⟩ => ⟨ht, h ▸ ho⟩⟩
  | ask e k ih =>
    simp only [recover, runs_ask, ih]
    constructor
    · rintro ⟨r, t, ht, o, ho, h⟩
      exact ⟨o, ho, r, t, ht, h⟩
    · rintro ⟨o, ho, r, t, ht, h⟩
      exact ⟨r, t, ht, o, ho, h⟩

/-! ## Determinism -/

/-- Every entry of `tr`, performed after `hist`, satisfies `P` after the entries before it. -/
def Always (P : Trace E R → Entry E R → Prop) : Trace E R → Trace E R → Prop
  | _, [] => True
  | hist, x :: tr => P hist x ∧ Always P (hist ++ [x]) tr

section Always

variable {P : Trace E R → Entry E R → Prop} {t₁ t₂ tr hist : Trace E R}

theorem always_append :
    ∀ {t₁ hist : Trace E R}, Always P hist (t₁ ++ t₂) ↔
      Always P hist t₁ ∧ Always P (hist ++ t₁) t₂
  | [], hist => by simp [Always]
  | x :: t₁, hist => by
    simp only [List.cons_append, Always, always_append, List.append_assoc, List.nil_append,
      and_assoc]

/-- What holds of every entry, whatever came before it, always holds. -/
theorem always_of_forall (h : ∀ x ∈ tr, ∀ hist, P hist x) : Always P hist tr := by
  induction tr generalizing hist with
  | nil => trivial
  | cons x tr ih => exact ⟨h x (by simp) hist, ih fun y hy => h y (by simp [hy])⟩

theorem Always.mono {Q : Trace E R → Entry E R → Prop} (h : Always P hist tr)
    (hPQ : ∀ pre x post, tr = pre ++ x :: post → P (hist ++ pre) x → Q (hist ++ pre) x) :
    Always Q hist tr := by
  induction tr generalizing hist with
  | nil => trivial
  | cons x tr ih =>
    refine ⟨by simpa using hPQ [] x tr rfl (by simpa using h.1), ih h.2 ?_⟩
    intro pre y post ht hy
    simpa using hPQ (x :: pre) y post (by simp [ht]) (by simpa using hy)

/-- An entry of a trace satisfies `P` after what was performed before it. -/
theorem Always.at {pre post : Trace E R} {x : Entry E R}
    (h : Always P hist (pre ++ x :: post)) : P (hist ++ pre) x :=
  (always_append.mp h).2.1

end Always

/-- An entry that is not in the first part of a trace comes after that part. -/
theorem prefix_of_append_eq {A B pre post : Trace E R} {x : Entry E R}
    (h : A ++ B = pre ++ x :: post) (hx : x ∉ A) : A <+: pre := by
  rcases List.append_eq_append_iff.mp h with ⟨t, rfl, -⟩ | ⟨t, rfl, ht⟩
  · exact List.prefix_append _ _
  · cases t with
    | nil => exact ⟨[], by simp⟩
    | cons y t =>
      obtain ⟨rfl, -⟩ := List.cons.inj ht
      exact absurd (by simp) hx

/-- A strategy for the environment : the reply to an event, given the history. -/
abbrev Strategy (E : Type) (R : E → Type) := Trace E R → (e : E) → R e

/-- Every reply of `tr`, performed after `hist`, is the one `S` gives. -/
def Answers (S : Strategy E R) : Trace E R → Trace E R → Prop :=
  Always fun hist x => x.2 = S hist x.1

/-- Against one strategy a program has one execution. -/
theorem Runs.unique {S : Strategy E R} {p : Prog E R α} {hist t₁ t₂ : Trace E R}
    {o₁ o₂ : Option α} (h₁ : Runs p t₁ o₁) (h₂ : Runs p t₂ o₂) (a₁ : Answers S hist t₁)
    (a₂ : Answers S hist t₂) : t₁ = t₂ ∧ o₁ = o₂ := by
  induction h₁ generalizing hist t₂ with
  | ret a =>
    obtain ⟨rfl, rfl⟩ := runs_ret.mp h₂
    exact ⟨rfl, rfl⟩
  | crash =>
    obtain ⟨rfl, rfl⟩ := runs_crash.mp h₂
    exact ⟨rfl, rfl⟩
  | @ask e k r₁ _ _ _ ih =>
    obtain ⟨r₂, t, rfl, hk⟩ := runs_ask.mp h₂
    obtain ⟨hr₁, a₁⟩ := a₁
    obtain ⟨hr₂, a₂⟩ := a₂
    obtain rfl : r₁ = r₂ := hr₁.trans hr₂.symm
    obtain ⟨rfl, rfl⟩ := ih hk a₁ a₂
    exact ⟨rfl, rfl⟩

/-- As long as one strategy answers two executions of a program, they ask the same events. -/
theorem Runs.next_event {S : Strategy E R} {p : Prog E R α} {hist pre post tr : Trace E R}
    {x : Entry E R} {o₁ o₂ : Option α} (h₁ : Runs p (pre ++ x :: post) o₁) (h₂ : Runs p tr o₂)
    (a₁ : Answers S hist pre) (a₂ : Answers S hist tr) :
    (pre ++ [x]).map Sigma.fst <+: tr.map Sigma.fst := by
  induction pre generalizing p tr hist with
  | nil =>
    cases h₁ with
    | ask h₁ =>
      obtain ⟨r, t, rfl, -⟩ := runs_ask.mp h₂
      exact ⟨t.map Sigma.fst, rfl⟩
  | cons y pre ih =>
    cases h₁ with
    | ask h₁ =>
      obtain ⟨r₂, t, rfl, hk⟩ := runs_ask.mp h₂
      obtain ⟨hr₁, a₁⟩ := a₁
      obtain ⟨hr₂, a₂⟩ := a₂
      obtain rfl := hr₁.trans hr₂.symm
      obtain ⟨s, hs⟩ := ih h₁ hk a₁ a₂
      exact ⟨s, congrArg (List.cons _) hs⟩

/-! ## Running against a handler -/

/-- The trace of `p` when `h` answers its events from the state `w`. -/
def transcript (h : (e : E) → σ → R e × σ) : Prog E R α → σ → Trace E R
  | ret _, _ => []
  | crash, _ => []
  | ask e k, w => ⟨e, (h e w).1⟩ :: transcript h (k (h e w).1) (h e w).2

/-- The result of `p` and the handler's state after it. -/
def exec (h : (e : E) → σ → R e × σ) : Prog E R α → σ → Option α × σ
  | ret a, w => (some a, w)
  | crash, w => (none, w)
  | ask e k, w => exec h (k (h e w).1) (h e w).2

theorem runs_exec (h : (e : E) → σ → R e × σ) (p : Prog E R α) (w : σ) :
    Runs p (p.transcript h w) (p.exec h w).1 := by
  induction p generalizing w with
  | ret a => exact .ret a
  | crash => exact .crash
  | ask e k ih => exact .ask (ih _ _)

theorem exec_bind (h : (e : E) → σ → R e × σ) (p : Prog E R α) (f : α → Prog E R β) (w : σ) :
    (p >>= f).exec h w = match p.exec h w with
      | (some a, w') => (f a).exec h w'
      | (none, w') => (none, w') := by
  induction p generalizing w with
  | ret a => rfl
  | crash => rfl
  | ask e k ih => exact ih _ _

/-! ## Which events can occur -/

/-- Every event `p` can ever perform satisfies `P`. -/
def Only (P : E → Prop) : Prog E R α → Prop
  | ret _ => True
  | crash => True
  | ask e k => P e ∧ ∀ r, (k r).Only P

theorem Only.bind {P : E → Prop} {p : Prog E R α} {f : α → Prog E R β} (hp : p.Only P)
    (hf : ∀ a, (f a).Only P) : (p >>= f).Only P := by
  induction p with
  | ret a => exact hf a
  | crash => trivial
  | ask e k ih => exact ⟨hp.1, fun r => ih r (hp.2 r)⟩

theorem Only.perform {P : E → Prop} {e : E} (he : P e) : (perform e : Prog E R (R e)).Only P :=
  ⟨he, fun _ => trivial⟩

theorem Only.recover {P : E → Prop} {p : Prog E R α} (hp : p.Only P) : p.recover.Only P := by
  induction p with
  | ret a => trivial
  | crash => trivial
  | ask e k ih => exact ⟨hp.1, fun r => ih r (hp.2 r)⟩

/-- What holds of the rest, and before events of a kind if it does after them, holds before a
part with such events whose crash is caught. -/
theorem Only.recover_bind {P : E → Prop} {Q : Prog E R β → Prop} {p : Prog E R α}
    {f : Option α → Prog E R β} (hp : p.Only P)
    (hask : ∀ e (k : R e → Prog E R β), P e → (∀ r, Q (k r)) → Q (ask e k)) (hf : ∀ a, Q (f a)) :
    Q (p.recover >>= f) := by
  induction p with
  | ret a => exact hf (some a)
  | crash => exact hf none
  | ask e k ih => exact hask e _ hp.1 fun r => ih r (hp.2 r)

theorem Only.mono {P Q : E → Prop} (hPQ : ∀ e, P e → Q e) {p : Prog E R α} (hp : p.Only P) :
    p.Only Q := by
  induction p with
  | ret a => trivial
  | crash => trivial
  | ask e k ih => exact ⟨hPQ e hp.1, fun r => ih r (hp.2 r)⟩

theorem Runs.of_only {P : E → Prop} {p : Prog E R α} {tr : Trace E R} {out : Option α}
    (h : Runs p tr out) (hp : p.Only P) : ∀ x ∈ tr, P x.1 := by
  induction h with
  | ret => simp
  | crash => simp
  | ask _ ih =>
    rintro x (_ | ⟨_, hx⟩)
    · exact hp.1
    · exact ih (hp.2 _) x hx

end Prog

/-! ## Environments with a state -/

section Along

variable {ω : Type}

/-- `Along step tr w w'` : the environment can take part in `tr` from `w`, and is in `w'`
afterwards. -/
def Along (step : ω → Entry E R → ω → Prop) : Trace E R → ω → ω → Prop
  | [], w, w' => w' = w
  | x :: tr, w, w' => ∃ w₁, step w x w₁ ∧ Along step tr w₁ w'

variable {step : ω → Entry E R → ω → Prop} {x : Entry E R} {tr t₁ t₂ : Trace E R} {w w' : ω}

@[simp] theorem along_nil : Along step [] w w' ↔ w' = w :=
  Iff.rfl

@[simp] theorem along_cons : Along step (x :: tr) w w' ↔ ∃ w₁, step w x w₁ ∧ Along step tr w₁ w' :=
  Iff.rfl

theorem along_append : ∀ {t₁ : Trace E R} {w : ω},
    Along step (t₁ ++ t₂) w w' ↔ ∃ w₁, Along step t₁ w w₁ ∧ Along step t₂ w₁ w'
  | [], w => by simp
  | x :: t₁, w => by
    simp only [List.cons_append, along_cons, along_append]
    constructor
    · rintro ⟨w₁, hx, w₂, h₁, h₂⟩
      exact ⟨w₂, ⟨w₁, hx, h₁⟩, h₂⟩
    · rintro ⟨w₂, ⟨w₁, hx, h₁⟩, h₂⟩
      exact ⟨w₁, hx, w₂, h₁, h₂⟩

theorem Along.mono {step' : ω → Entry E R → ω → Prop}
    (hstep : ∀ w x w', step w x w' → step' w x w') : ∀ {tr : Trace E R} {w : ω},
      Along step tr w w' → Along step' tr w w'
  | [], _, h => h
  | _ :: _, _, ⟨w₁, hx, h⟩ => ⟨w₁, hstep _ _ _ hx, h.mono hstep⟩

/-- What each step keeps is kept. -/
theorem Along.invariant {I : ω → Prop} (h : Along step tr w w')
    (hstep : ∀ x ∈ tr, ∀ w w', step w x w' → I w → I w') (hw : I w) : I w' := by
  induction tr generalizing w with
  | nil => exact along_nil.mp h ▸ hw
  | cons x tr ih =>
    obtain ⟨w₁, hx, h⟩ := h
    exact ih h (fun y hy => hstep y (by simp [hy])) (hstep x (by simp) _ _ hx hw)

/-- A part of the state that no step of the trace changes is as before. -/
theorem Along.eq_of_keeps {f : ω → β} (h : Along step tr w w')
    (hstep : ∀ x ∈ tr, ∀ w w', step w x w' → f w' = f w) : f w' = f w :=
  h.invariant (I := fun w₁ => f w₁ = f w) (fun x hx w₁ w₂ hs => (hstep x hx w₁ w₂ hs).trans) rfl

/-- In an environment that always has a reply every program has a run. -/
theorem Prog.exists_along {step : ω → Entry E R → ω → Prop}
    (htotal : ∀ w e, ∃ r w', step w ⟨e, r⟩ w') (p : Prog E R α) (w : ω) :
    ∃ tr out w', p.Runs tr out ∧ Along step tr w w' := by
  induction p generalizing w with
  | ret a => exact ⟨[], some a, w, .ret a, rfl⟩
  | crash => exact ⟨[], none, w, .crash, rfl⟩
  | ask e k ih =>
    obtain ⟨r, w₁, hstep⟩ := htotal w e
    obtain ⟨tr, out, w', hrun, hw⟩ := ih r w₁
    exact ⟨⟨e, r⟩ :: tr, out, w', .ask hrun, w₁, hstep, hw⟩

/-- A handler that answers as the environment does. -/
theorem Prog.along_transcript {step : ω → Entry E R → ω → Prop} {h : (e : E) → ω → R e × ω}
    (hstep : ∀ e w, step w ⟨e, (h e w).1⟩ (h e w).2) (p : Prog E R α) (w : ω) :
    Along step (p.transcript h w) w (p.exec h w).2 := by
  induction p generalizing w with
  | ret | crash => rfl
  | ask e k ih => exact ⟨_, hstep e w, ih _ _⟩

end Along

/-! ## State and errors -/

/-- A computation with state `σ` that fails with `ε`. A failure keeps the state. -/
def Act (E : Type) (R : E → Type) (σ ε α : Type) := σ → Prog E R (Except ε α × σ)

namespace Act

/-- The continuation of a result : an error is passed on. -/
def next (f : α → Act E R σ ε β) : Except ε α × σ → Prog E R (Except ε β × σ)
  | (.ok a, s) => f a s
  | (.error e, s) => .ret (.error e, s)

instance : Monad (Act E R σ ε) where
  pure a s := .ret (.ok a, s)
  bind m f s := m s >>= next f

/-- Fail with `e`. -/
def throw (e : ε) : Act E R σ ε α :=
  fun s => .ret (.error e, s)

/-- Crash. -/
def crash : Act E R σ ε α :=
  fun _ => .crash

/-- The value of an optional, which crashes when it is absent. -/
def deref : Option α → Act E R σ ε α
  | some a => pure a
  | none => crash

/-- Read a part of the state. -/
def gets (f : σ → α) : Act E R σ ε α :=
  fun s => .ret (.ok (f s), s)

/-- Change the state. -/
def modify (f : σ → σ) : Act E R σ ε Unit :=
  fun s => .ret (.ok (), f s)

/-- Run a program that cannot fail. -/
def lift (p : Prog E R α) : Act E R σ ε α :=
  fun s => p >>= fun a => .ret (.ok a, s)

/-- Run a program that reports its failure as a value. -/
def call (p : Prog E R (Except ε α)) : Act E R σ ε α :=
  fun s => p >>= fun r => .ret (r, s)

/-- The outcome of `m`, as a value. -/
def attempt (m : Act E R σ ε α) : Act E R σ ε (Except ε α) :=
  fun s => m s >>= fun r => .ret (.ok r.1, r.2)

/-- Run `body` on each element, up to the first failure. -/
def forEach : List α → (α → Act E R σ ε Unit) → Act E R σ ε Unit
  | [], _ => pure ()
  | x :: xs, body => do
    body x
    forEach xs body

/-- Run `m`; with `keepGoing` its failure is dropped. -/
def tolerate (keepGoing : Bool) (m : Act E R σ ε Unit) : Act E R σ ε Unit := do
  match ← attempt m with
  | .ok _ => pure ()
  | .error e => if keepGoing then pure () else throw e

section Apply

variable (m : Act E R σ ε α) (s : σ)

@[simp] theorem pure_apply (a : α) : (pure a : Act E R σ ε α) s = .ret (.ok a, s) :=
  rfl

theorem bind_apply (f : α → Act E R σ ε β) : (m >>= f) s = m s >>= next f :=
  rfl

@[simp] theorem crash_apply : (crash : Act E R σ ε α) s = .crash :=
  rfl

@[simp] theorem deref_some (a : α) : (deref (some a) : Act E R σ ε α) = pure a :=
  rfl

@[simp] theorem modify_bind_apply (f : σ → σ) (k : Unit → Act E R σ ε β) :
    (modify f >>= k) s = k () (f s) :=
  rfl

@[simp] theorem gets_bind_apply (f : σ → α) (k : α → Act E R σ ε β) :
    (gets f >>= k) s = k (f s) s :=
  rfl

theorem call_apply (p : Prog E R (Except ε α)) :
    (call p : Act E R σ ε α) s = p >>= fun r => .ret (r, s) :=
  rfl

@[simp] theorem pure_bind (a : α) (f : α → Act E R σ ε β) : (pure a >>= f) = f a :=
  rfl

theorem bind_assoc {γ : Type} (m : Act E R σ ε α) (f : α → Act E R σ ε β)
    (g : β → Act E R σ ε γ) : m >>= f >>= g = m >>= fun a => f a >>= g := by
  funext s
  simp only [bind_apply, Prog.bind_assoc]
  congr
  funext r
  rcases r with ⟨_ | a, s'⟩
  · rfl
  · rfl

end Apply

/-- What a computation ends with : a result and a state, or a crash. -/
abbrev Outcome (σ ε α : Type) := Option (Except ε α × σ)

/-- The three ways `m >>= f` can run : on through `f`, failed in `m`, crashed in `m`. -/
theorem runs_bind {m : Act E R σ ε α} {f : α → Act E R σ ε β} {s : σ} {tr : Trace E R}
    {out : Outcome σ ε β} :
    Prog.Runs ((m >>= f) s) tr out ↔
      (∃ t₁ a s' t₂, tr = t₁ ++ t₂ ∧ Prog.Runs (m s) t₁ (some (.ok a, s')) ∧
        Prog.Runs (f a s') t₂ out) ∨
      (∃ e s', Prog.Runs (m s) tr (some (.error e, s')) ∧ out = some (.error e, s')) ∨
      Prog.Runs (m s) tr none ∧ out = none := by
  rw [bind_apply, Prog.runs_bind]
  constructor
  · rintro (⟨t₁, ⟨_ | a, s'⟩, t₂, rfl, h₁, h₂⟩ | h)
    · obtain ⟨rfl, rfl⟩ := Prog.runs_ret.mp h₂
      exact Or.inr (Or.inl ⟨_, s', by simpa using h₁, rfl⟩)
    · exact Or.inl ⟨t₁, a, s', t₂, rfl, h₁, h₂⟩
    · exact Or.inr (Or.inr h)
  · rintro (⟨t₁, a, s', t₂, rfl, h₁, h₂⟩ | ⟨e, s', h, rfl⟩ | h)
    · exact Or.inl ⟨t₁, (.ok a, s'), t₂, rfl, h₁, h₂⟩
    · exact Or.inl ⟨tr, (.error e, s'), [], by simp, h, .ret _⟩
    · exact Or.inr h

theorem exec_bind {ω : Type} (h : (e : E) → ω → R e × ω) (m : Act E R σ ε α)
    (f : α → Act E R σ ε β) (s : σ) (w : ω) :
    ((m >>= f) s).exec h w = match (m s).exec h w with
      | (some (.ok a, s'), w') => (f a s').exec h w'
      | (some (.error e, s'), w') => (some (.error e, s'), w')
      | (none, w') => (none, w') := by
  rw [bind_apply, Prog.exec_bind]
  rcases (m s).exec h w with ⟨_ | ⟨_ | a, s'⟩, w'⟩ <;> rfl

theorem exec_bind_of_ok {ω : Type} {h : (e : E) → ω → R e × ω} {m : Act E R σ ε α}
    {f : α → Act E R σ ε β} {s s' : σ} {a : α} {w w' : ω}
    (hm : (m s).exec h w = (some (.ok a, s'), w')) :
    ((m >>= f) s).exec h w = (f a s').exec h w' := by
  rw [exec_bind, hm]

theorem only_bind {P : E → Prop} {m : Act E R σ ε α} {f : α → Act E R σ ε β} {s : σ}
    (hm : (m s).Only P) (hf : ∀ a s', (f a s').Only P) : ((m >>= f) s).Only P := by
  refine Prog.Only.bind hm ?_
  rintro ⟨_ | a, s'⟩
  · trivial
  · exact hf a s'

theorem only_attempt {P : E → Prop} {m : Act E R σ ε α} {s : σ} (hm : (m s).Only P) :
    (attempt m s).Only P :=
  Prog.Only.bind hm fun _ => trivial

theorem only_tolerate {P : E → Prop} {keepGoing : Bool} {m : Act E R σ ε Unit} {s : σ}
    (hm : (m s).Only P) : (tolerate keepGoing m s).Only P := by
  refine only_bind (only_attempt hm) fun r s => ?_
  rcases r with e | _
  · cases keepGoing <;> trivial
  · trivial

theorem only_forEach {P : E → Prop} {body : α → Act E R σ ε Unit}
    (hbody : ∀ x s, (body x s).Only P) :
    ∀ (xs : List α) (s : σ), (forEach xs body s).Only P
  | [], _ => trivial
  | x :: xs, s => only_bind (hbody x s) fun _ s' => only_forEach hbody xs s'

/-- A loop whose every body succeeds with the effect `g` folds `g` over the list. -/
theorem exec_forEach {ω : Type} (h : (e : E) → ω → R e × ω) (body : α → Act E R σ ε Unit)
    (g : ω → α → ω) (s : σ)
    (hbody : ∀ x w, (body x s).exec h w = (some (.ok (), s), g w x)) :
    ∀ (xs : List α) (w : ω),
      (forEach xs body s).exec h w = (some (.ok (), s), xs.foldl g w)
  | [], _ => rfl
  | x :: xs, w => by
    simp only [forEach, exec_bind, hbody, List.foldl_cons]
    exact exec_forEach h body g s hbody xs (g w x)

/-! ## Computations built from basic ones -/

/-- `Built Basic m` : `m` is put together from computations in `Basic`. -/
inductive Built (Basic : (α : Type) → Act E R σ ε α → Prop) :
    {α : Type} → Act E R σ ε α → Prop
  | basic {α : Type} {m : Act E R σ ε α} : Basic α m → Built Basic m
  | pure {α : Type} (a : α) : Built Basic (Pure.pure a)
  | crash {α : Type} : Built Basic (Act.crash : Act E R σ ε α)
  | bind {α β : Type} {m : Act E R σ ε α} {f : α → Act E R σ ε β} :
      Built Basic m → (∀ a, Built Basic (f a)) → Built Basic (m >>= f)

namespace Built

variable {Basic : (α : Type) → Act E R σ ε α → Prop}

theorem deref : ∀ o : Option α, Built Basic (Act.deref o)
  | some a => .pure a
  | none => .crash

theorem forEach {body : α → Act E R σ ε Unit} (hbody : ∀ x, Built Basic (body x)) :
    ∀ xs : List α, Built Basic (Act.forEach xs body)
  | [] => .pure ()
  | x :: xs => .bind (hbody x) fun _ => forEach hbody xs

/-- A property of events that the basic computations keep to is kept to by all. -/
theorem only {P : E → Prop} (hbasic : ∀ α (m : Act E R σ ε α), Basic α m → ∀ s, (m s).Only P)
    {m : Act E R σ ε α} (hm : Built Basic m) (s : σ) : (m s).Only P := by
  induction hm generalizing s with
  | basic h => exact hbasic _ _ h s
  | pure a => trivial
  | crash => trivial
  | bind _ _ ihm ihf => exact only_bind (ihm s) ihf

/-- If no basic computation changes the state, none does. -/
theorem state_eq {s : σ}
    (hbasic : ∀ α (m : Act E R σ ε α), Basic α m →
      ∀ tr r s', Prog.Runs (m s) tr (some (r, s')) → s' = s)
    {m : Act E R σ ε α} (hm : Built Basic m) {tr : Trace E R} {r : Except ε α} {s' : σ}
    (h : Prog.Runs (m s) tr (some (r, s'))) : s' = s := by
  induction hm generalizing tr s' with
  | basic hb => exact hbasic _ _ hb _ _ _ h
  | pure a => simp_all
  | crash => simp_all
  | bind _ _ ihm ihf =>
    rcases runs_bind.mp h with ⟨t₁, a, s₁, t₂, rfl, h₁, h₂⟩ | ⟨e, s₁, h₁, ho⟩ | ⟨-, ho⟩
    · obtain rfl := ihm h₁
      exact ihf a h₂
    · obtain ⟨-, rfl⟩ := Prod.mk.inj (Option.some.inj ho)
      exact ihm h₁
    · simp at ho

/-- If the basic computations commute with a change of the state, all do. -/
theorem commutes {g : σ → σ}
    (hbasic : ∀ α (m : Act E R σ ε α), Basic α m →
      ∀ s, m (g s) = m s >>= fun r => .ret (r.1, g r.2))
    {m : Act E R σ ε α} (hm : Built Basic m) (s : σ) :
    m (g s) = m s >>= fun r => .ret (r.1, g r.2) := by
  induction hm generalizing s with
  | basic h => exact hbasic _ _ h s
  | pure a => rfl
  | crash => rfl
  | @bind _ _ m f _ _ ihm ihf =>
    rw [bind_apply, bind_apply, ihm, Prog.bind_assoc, Prog.bind_assoc]
    refine congrArg (Bind.bind (m s)) (funext ?_)
    rintro ⟨_ | a, s'⟩
    · rfl
    · exact ihf a s'

end Built

/-! ## Stopping at a bad reply -/

/-- How an execution that stops at the first bad reply looks : no reply is bad and it does
not fail, or the last reply is the only bad one and it fails. -/
inductive Stopped (Bad : Entry E R → Prop) : Trace E R → Outcome σ ε α → Prop
  | clean {tr : Trace E R} {out : Outcome σ ε α} (hgood : ∀ x ∈ tr, ¬Bad x)
      (hout : ∀ e s, out ≠ some (.error e, s)) : Stopped Bad tr out
  | failed {tr : Trace E R} {x : Entry E R} {e : ε} {s : σ} (hgood : ∀ y ∈ tr, ¬Bad y)
      (hbad : Bad x) : Stopped Bad (tr ++ [x]) (some (.error e, s))

/-- After a bad reply nothing is asked. -/
theorem Stopped.eq_nil {Bad : Entry E R → Prop} {tr pre post : Trace E R} {x : Entry E R}
    {out : Outcome σ ε α} (h : Stopped Bad tr out) (htr : tr = pre ++ x :: post) (hx : Bad x) :
    post = [] := by
  cases h with
  | clean hgood _ => exact absurd hx (hgood x (by simp [htr]))
  | @failed t y _ _ hgood _ =>
    rcases List.append_eq_append_iff.mp htr with ⟨s, rfl, hs⟩ | ⟨s, rfl, hs⟩
    · have hlength := congrArg List.length hs
      simp only [List.length_append, List.length_cons, List.length_nil] at hlength
      exact List.eq_nil_of_length_eq_zero (by omega)
    · cases s with
      | nil => exact (List.cons.inj hs).2
      | cons z s =>
        obtain ⟨rfl, -⟩ := List.cons.inj hs
        exact absurd hx (hgood x (by simp))

theorem Stopped.single {Bad : Entry E R → Prop} {x : Entry E R} {e : ε} {s : σ} (hbad : Bad x) :
    Stopped Bad [x] (some (.error e, s) : Outcome σ ε α) :=
  show Stopped Bad ([] ++ [x]) _ from .failed (by simp) hbad

/-- Every execution of `m` from `s` stops at the first bad reply. -/
def StopsAt (Bad : Entry E R → Prop) (m : Act E R σ ε α) (s : σ) : Prop :=
  ∀ tr out, Prog.Runs (m s) tr out → Stopped Bad tr out

namespace StopsAt

variable {Bad : Entry E R → Prop} {s : σ}

theorem pure (a : α) : StopsAt Bad (Pure.pure a : Act E R σ ε α) s := by
  intro tr out h
  obtain ⟨rfl, rfl⟩ := Prog.runs_ret.mp h
  exact .clean (by simp) (by simp)

theorem crash : StopsAt Bad (Act.crash : Act E R σ ε α) s := by
  intro tr out h
  obtain ⟨rfl, rfl⟩ := Prog.runs_crash.mp h
  exact .clean (by simp) (by simp)

/-- Sequencing : once `m` fails, `f` does not run. -/
theorem bind {m : Act E R σ ε α} {f : α → Act E R σ ε β} (hm : StopsAt Bad m s)
    (hf : ∀ tr a s', Prog.Runs (m s) tr (some (.ok a, s')) → StopsAt Bad (f a) s') :
    StopsAt Bad (m >>= f) s := by
  intro tr out h
  rcases runs_bind.mp h with ⟨t₁, a, s', t₂, rfl, h₁, h₂⟩ | ⟨e, s', h₁, rfl⟩ | ⟨h₁, rfl⟩
  · have hgood : ∀ x ∈ t₁, ¬Bad x := by
      cases hm _ _ h₁ with
      | clean hgood _ => exact hgood
    cases hf _ a s' h₁ _ _ h₂ with
    | clean hgood' hout =>
      refine .clean (fun x hx => ?_) hout
      exact (List.mem_append.mp hx).elim (hgood x) (hgood' x)
    | failed hgood' hbad =>
      rw [← List.append_assoc]
      refine .failed (fun x hx => ?_) hbad
      exact (List.mem_append.mp hx).elim (hgood x) (hgood' x)
  · cases hm _ _ h₁ with
    | clean _ hout => exact absurd rfl (hout e s')
    | failed hgood hbad => exact .failed hgood hbad
  · cases hm _ _ h₁ with
    | clean hgood _ => exact .clean hgood (by simp)

end StopsAt

theorem Built.stopsAt {Basic : (α : Type) → Act E R σ ε α → Prop} {Bad : Entry E R → Prop}
    (hbasic : ∀ α (m : Act E R σ ε α), Basic α m → ∀ s, StopsAt Bad m s) {m : Act E R σ ε α}
    (hm : Built Basic m) (s : σ) : StopsAt Bad m s := by
  induction hm generalizing s with
  | basic h => exact hbasic _ _ h s
  | pure a => exact .pure a
  | crash => exact .crash
  | bind _ _ ihm ihf => exact (ihm s).bind fun _ a s' _ => ihf a s'

/-! ## Crashing -/

/-- `m` crashes only after a bad reply. -/
def CrashesAfter (Bad : Entry E R → Prop) (m : Act E R σ ε α) (s : σ) : Prop :=
  ∀ tr, Prog.Runs (m s) tr none → ∃ x ∈ tr, Bad x

namespace CrashesAfter

variable {Bad : Entry E R → Prop} {s : σ}

theorem pure (a : α) : CrashesAfter Bad (Pure.pure a : Act E R σ ε α) s := by
  intro tr h
  cases (Prog.runs_ret.mp h).2

theorem gets (f : σ → α) : CrashesAfter Bad (Act.gets f : Act E R σ ε α) s := by
  intro tr h
  cases (Prog.runs_ret.mp h).2

theorem modify (f : σ → σ) : CrashesAfter Bad (Act.modify f : Act E R σ ε Unit) s := by
  intro tr h
  cases (Prog.runs_ret.mp h).2

theorem bind {m : Act E R σ ε α} {f : α → Act E R σ ε β} (hm : CrashesAfter Bad m s)
    (hf : ∀ a s', CrashesAfter Bad (f a) s') : CrashesAfter Bad (m >>= f) s := by
  intro tr h
  rcases runs_bind.mp h with ⟨t₁, a, s', t₂, rfl, -, h₂⟩ | ⟨_, _, -, ho⟩ | ⟨h₁, -⟩
  · obtain ⟨x, hx, hbad⟩ := hf a s' t₂ h₂
    exact ⟨x, List.mem_append_right _ hx, hbad⟩
  · cases ho
  · exact hm tr h₁

theorem forEach {body : α → Act E R σ ε Unit} : ∀ {xs : List α} {s : σ},
    (∀ x ∈ xs, ∀ s, CrashesAfter Bad (body x) s) → CrashesAfter Bad (Act.forEach xs body) s
  | [], _, _ => pure ()
  | x :: xs, s, h => by
    refine bind (h x (by simp) s) fun _ s' => forEach fun y hy => ?_
    exact h y (by simp [hy])

/-- A dereference of something that is there. -/
theorem deref {x : Option β} {k : β → Act E R σ ε α} (hx : x.isSome)
    (h : ∀ b, x = some b → CrashesAfter Bad (k b) s) :
    CrashesAfter Bad (Act.deref x >>= k) s := by
  obtain ⟨b, rfl⟩ := Option.isSome_iff_exists.mp hx
  exact h b rfl

theorem ite {c : Prop} [Decidable c] {m : Act E R σ ε Unit} (h : c → CrashesAfter Bad m s) :
    CrashesAfter Bad (if c then m else Pure.pure ()) s := by
  split_ifs with hc
  · exact h hc
  · exact pure ()

end CrashesAfter

end Act

/-! ## Systems with labelled steps -/

/-- The steps `ls` lead from `s₀` to a state. -/
inductive Execution {S L : Type} (step : S → L → S → Prop) (s₀ : S) : List L → S → Prop
  | nil : Execution step s₀ [] s₀
  | concat {ls : List L} {l : L} {s s' : S} (h : Execution step s₀ ls s) (hstep : step s l s') :
      Execution step s₀ (ls ++ [l]) s'

namespace Execution

variable {S T L M : Type} {step : S → L → S → Prop} {s₀ s s' : S} {ls ls' : List L}

theorem single {l : L} (h : step s l s') : Execution step s [l] s' :=
  nil.concat h

theorem trans (h : Execution step s₀ ls s) (h' : Execution step s ls' s') :
    Execution step s₀ (ls ++ ls') s' := by
  induction h' with
  | nil => rwa [List.append_nil]
  | concat _ hstep ih =>
    rw [← List.append_assoc]
    exact ih.concat hstep

/-- What each step keeps is kept, as far as the labels allow. -/
theorem keeps {P : L → Prop} {I : S → Prop} (h : Execution step s₀ ls s) (hls : ∀ l ∈ ls, P l)
    (hstep : ∀ s l s', P l → I s → step s l s' → I s') (hs₀ : I s₀) : I s := by
  induction h with
  | nil => exact hs₀
  | concat h hlast ih =>
    obtain ⟨hls, hl⟩ := List.forall_mem_append.mp hls
    exact hstep _ _ _ (hl _ (List.mem_singleton_self _)) (ih hls) hlast

/-- The second system follows the first. Labels for which `f` has nothing leave it where it
is. -/
theorem simulate {stepT : T → M → T → Prop} {t₀ : T} (f : L → Option M) (sim : S → T → Prop)
    (h : Execution step s₀ ls s)
    (hnone : ∀ s l s' t, f l = none → sim s t → step s l s' → sim s' t)
    (hsome : ∀ s l s' t m, f l = some m → sim s t → step s l s' → ∃ t', stepT t m t' ∧ sim s' t')
    (h₀ : sim s₀ t₀) : ∃ t, Execution stepT t₀ (ls.filterMap f) t ∧ sim s t := by
  induction h with
  | nil => exact ⟨t₀, .nil, h₀⟩
  | @concat ls l s s' _ hlast ih =>
    obtain ⟨t, ht, hsim⟩ := ih
    rw [List.filterMap_append]
    cases hf : f l with
    | none =>
      refine ⟨t, ?_, hnone _ _ _ _ hf hsim hlast⟩
      rw [List.filterMap_cons_none hf, List.filterMap_nil, List.append_nil]
      exact ht
    | some m =>
      obtain ⟨t', hstep, hsim'⟩ := hsome _ _ _ _ _ hf hsim hlast
      refine ⟨t', ?_, hsim'⟩
      rw [List.filterMap_cons_some hf, List.filterMap_nil]
      exact ht.concat hstep

end Execution

end Interaction
