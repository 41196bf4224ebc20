import AghSync.Interaction

/-!
# What a program ensures

`p.Ensures step w Q` : however the environment `step` answers from the state `w`, the program
`p` ends with an outcome and in a state that satisfy `Q`. It is computed along the program, so a
program with known answers is run by rewriting, and it is the same as a statement about all runs
(`ensures_iff_runs`).

A sequence ensures what its first part ensures that the second does (`ensures_bind`,
`Act.ensures_bind`), and what is ensured can be weakened (`Ensures.mono`).
-/

namespace Interaction

variable {E : Type} {R : E → Type} {α β σ ε ω : Type}

namespace Prog

/-- However `step` answers from `w`, the program ends as `Q` says. -/
def Ensures (step : ω → Entry E R → ω → Prop) : Prog E R α → ω → (Option α → ω → Prop) → Prop
  | ret a, w, Q => Q (some a) w
  | crash, w, Q => Q none w
  | ask e k, w, Q => ∀ r w', step w ⟨e, r⟩ w' → Ensures step (k r) w' Q

section Ensures

variable {step : ω → Entry E R → ω → Prop} {w : ω} {Q Q' : Option α → ω → Prop}

@[simp] theorem ensures_ret {a : α} : (ret a : Prog E R α).Ensures step w Q ↔ Q (some a) w :=
  Iff.rfl

@[simp] theorem ensures_crash : (crash : Prog E R α).Ensures step w Q ↔ Q none w :=
  Iff.rfl

theorem ensures_perform_bind {e : E} {k : R e → Prog E R α} :
    (perform e >>= k).Ensures step w Q ↔ ∀ r w', step w ⟨e, r⟩ w' → (k r).Ensures step w' Q :=
  Iff.rfl

/-- A program ensures what holds of all its runs. -/
theorem ensures_iff_runs {p : Prog E R α} : p.Ensures step w Q ↔
    ∀ tr out w', p.Runs tr out → Along step tr w w' → Q out w' := by
  induction p generalizing w with
  | ret a =>
    constructor
    · rintro h tr out w' hrun hw
      obtain ⟨rfl, rfl⟩ := runs_ret.mp hrun
      obtain rfl := along_nil.mp hw
      exact h
    · exact fun h => h [] (some a) w (.ret a) rfl
  | crash =>
    constructor
    · rintro h tr out w' hrun hw
      obtain ⟨rfl, rfl⟩ := runs_crash.mp hrun
      obtain rfl := along_nil.mp hw
      exact h
    · exact fun h => h [] none w .crash rfl
  | ask e k ih =>
    constructor
    · rintro h tr out w' hrun hw
      obtain ⟨r, t, rfl, hk⟩ := runs_ask.mp hrun
      obtain ⟨w₁, hstep, hw⟩ := hw
      exact (ih r).mp (h r w₁ hstep) t out w' hk hw
    · intro h r w₁ hstep
      exact (ih r).mpr fun tr out w' hrun hw => h _ out w' (.ask hrun) ⟨w₁, hstep, hw⟩

theorem Ensures.of_runs {p : Prog E R α} {tr : Trace E R} {out : Option α} {w' : ω}
    (h : p.Ensures step w Q) (hrun : p.Runs tr out) (hw : Along step tr w w') : Q out w' :=
  ensures_iff_runs.mp h tr out w' hrun hw

theorem Ensures.mono {p : Prog E R α} (h : p.Ensures step w Q)
    (hQ : ∀ out w', Q out w' → Q' out w') : p.Ensures step w Q' :=
  ensures_iff_runs.mpr fun _ _ _ hrun hw => hQ _ _ (h.of_runs hrun hw)

/-- What the outcome of a first part has to satisfy for the rest. -/
def Then (step : ω → Entry E R → ω → Prop) (f : α → Prog E R β) (Q : Option β → ω → Prop) :
    Option α → ω → Prop
  | some a, w => (f a).Ensures step w Q
  | none, w => Q none w

theorem ensures_bind {p : Prog E R α} {f : α → Prog E R β} {Q : Option β → ω → Prop} :
    (p >>= f).Ensures step w Q ↔ p.Ensures step w (Then step f Q) := by
  induction p generalizing w with
  | ret a => exact Iff.rfl
  | crash => exact Iff.rfl
  | ask e k ih => exact forall₃_congr fun r w' _ => ih r

theorem ensures_recover {p : Prog E R α} {Q : Option (Option α) → ω → Prop} :
    p.recover.Ensures step w Q ↔ p.Ensures step w fun out => Q (some out) := by
  induction p generalizing w with
  | ret a => exact Iff.rfl
  | crash => exact Iff.rfl
  | ask e k ih => exact forall₃_congr fun r w' _ => ih r

end Ensures

end Prog

namespace Act

open Prog

variable {step : ω → Entry E R → ω → Prop} {w : ω} {s : σ}

/-- What the outcome of a first part has to satisfy for the rest : a failure and a crash end
both. -/
def Then (step : ω → Entry E R → ω → Prop) (f : α → Act E R σ ε β)
    (Q : Outcome σ ε β → ω → Prop) : Outcome σ ε α → ω → Prop
  | some (.ok a, s), w => (f a s).Ensures step w Q
  | some (.error e, s), w => Q (some (.error e, s)) w
  | none, w => Q none w

theorem ensures_bind {m : Act E R σ ε α} {f : α → Act E R σ ε β}
    {Q : Outcome σ ε β → ω → Prop} :
    ((m >>= f) s).Ensures step w Q ↔ (m s).Ensures step w (Then step f Q) := by
  rw [bind_apply, Prog.ensures_bind]
  refine ⟨fun h => h.mono ?_, fun h => h.mono ?_⟩
  · rintro (_ | ⟨_ | a, s'⟩) w' h
    · exact h
    · exact h
    · exact h
  · rintro (_ | ⟨_ | a, s'⟩) w' h
    · exact h
    · exact h
    · exact h

end Act

end Interaction
