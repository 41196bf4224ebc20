import AghSync.Interaction

/-!
# Programs carried out by other programs

`p.lower h` is the program `p` with every event carried out by a program of other events. Its traces
are those of `p` with each entry taken apart (`Lowered`) : each of its events is a part of what
carries out one event of `p`, after what was carried out before (`Runs.upper`). If `h` simulates
a step of an environment, then `p.lower h` simulates `p` (`Runs.along_lower`).
-/

namespace Interaction

variable {E F : Type} {R : E → Type} {S : F → Type} {α ω υ : Type}

namespace Prog

/-- `p` with its events carried out by `h`. -/
def lower (h : (e : E) → Prog F S (R e)) : Prog E R α → Prog F S α
  | ret a => ret a
  | crash => crash
  | ask e k => h e >>= fun r => (k r).lower h

/-- The second trace carries out the first. -/
inductive Lowered (h : (e : E) → Prog F S (R e)) : Trace E R → Trace F S → Prop
  | nil : Lowered h [] []
  | cons {e : E} {r : R e} {t tr' : Trace F S} {tr : Trace E R} (hrun : (h e).Runs t (some r))
      (htr : Lowered h tr tr') : Lowered h (⟨e, r⟩ :: tr) (t ++ tr')

section Lower

variable {h : (e : E) → Prog F S (R e)} {p : Prog E R α} {out : Option α} {tr : Trace E R}
  {tr' : Trace F S}

/-- What is carried out is carried out entry by entry. -/
theorem lowered_append {t₁ t₂ : Trace E R} : Lowered h (t₁ ++ t₂) tr' ↔
    ∃ s₁ s₂, tr' = s₁ ++ s₂ ∧ Lowered h t₁ s₁ ∧ Lowered h t₂ s₂ := by
  induction t₁ generalizing tr' with
  | nil =>
    constructor
    · exact fun htr => ⟨[], tr', rfl, .nil, htr⟩
    · rintro ⟨_, s₂, rfl, ⟨⟩, htr⟩
      exact htr
  | cons y t₁ ih =>
    constructor
    · rintro (_ | ⟨hrun, htr⟩)
      obtain ⟨s₁, s₂, rfl, h₁, h₂⟩ := ih.mp htr
      exact ⟨_, s₂, (List.append_assoc ..).symm, .cons hrun h₁, h₂⟩
    · rintro ⟨_, s₂, rfl, _ | ⟨hrun, h₁⟩, h₂⟩
      rw [List.append_assoc]
      exact .cons hrun (ih.mpr ⟨_, s₂, rfl, h₁, h₂⟩)

/-- A program is carried out by carrying out one of its traces. -/
theorem Runs.lower (hrun : p.Runs tr out) (htr : Lowered h tr tr') :
    (p.lower h).Runs tr' out := by
  induction hrun generalizing tr' with
  | ret a =>
    cases htr
    exact .ret a
  | crash =>
    cases htr
    exact .crash
  | ask _ ih =>
    cases htr with
    | cons hrun htr => exact hrun.bind (ih htr)

theorem exists_runs [∀ e, Nonempty (R e)] (p : Prog E R α) : ∃ tr out, p.Runs tr out := by
  let anything : Unit → Entry E R → Unit → Prop := fun _ _ _ => True
  have hreply : ∀ (u : Unit) (e : E), ∃ r u', anything u ⟨e, r⟩ u' :=
    fun _ e => ⟨Classical.arbitrary (R e), (), trivial⟩
  obtain ⟨tr, out, -, hrun, -⟩ := p.exists_along hreply ()
  exact ⟨tr, out, hrun⟩

/-- Each event is a part of what carries out an event of the program. -/
theorem Runs.upper [∀ e, Nonempty (R e)] {pre post : Trace F S} {x : Entry F S}
    (hrun : (p.lower h).Runs (pre ++ x :: post) out) :
    ∃ hist e r rest out' s t, p.Runs (hist ++ ⟨e, r⟩ :: rest) out' ∧ Lowered h hist s ∧
      pre = s ++ t ∧ ∃ t' o, (h e).Runs (t ++ x :: t') o := by
  induction p generalizing pre with
  | ret a =>
    obtain ⟨hnil, -⟩ := runs_ret.mp hrun
    exact absurd hnil (by simp)
  | crash =>
    obtain ⟨hnil, -⟩ := runs_crash.mp hrun
    exact absurd hnil (by simp)
  | ask e k ih =>
    have hhere : ∀ t' o, (h e).Runs (pre ++ x :: t') o → ∃ hist e' r rest out' s t,
        (Prog.ask e k).Runs (hist ++ ⟨e', r⟩ :: rest) out' ∧ Lowered h hist s ∧ pre = s ++ t ∧
          ∃ t' o, (h e').Runs (t ++ x :: t') o := fun t' o hfirst => by
      let r := Classical.arbitrary (R e)
      obtain ⟨rest, out', hrest⟩ := (k r).exists_runs
      exact ⟨[], e, r, rest, out', [], pre, .ask hrest, .nil, rfl, t', o, hfirst⟩
    rcases runs_bind.mp hrun with ⟨t₁, r, t₂, hsplit, h₁, h₂⟩ | ⟨h₁, -⟩
    · rcases List.append_eq_append_iff.mp hsplit with ⟨s, rfl, hs⟩ | ⟨s, rfl, hs⟩
      · cases s with
        | nil =>
          rw [List.append_nil] at h₁
          obtain ⟨hist, e', r', rest, out', s, t, hupper, hlowered, hpre, hx⟩ :=
            @ih r [] (hs ▸ h₂)
          refine ⟨⟨e, r⟩ :: hist, e', r', rest, out', pre ++ s, t, .ask hupper,
            .cons h₁ hlowered, ?_, hx⟩
          rw [List.append_assoc, ← hpre, List.append_nil]
        | cons y s =>
          obtain ⟨rfl, rfl⟩ := List.cons.inj hs
          exact hhere s (some r) h₁
      · obtain ⟨hist, e', r', rest, out', s', t, hupper, hlowered, rfl, hx⟩ := ih r (hs ▸ h₂)
        exact ⟨⟨e, r⟩ :: hist, e', r', rest, out', t₁ ++ s', t, .ask hupper,
          .cons h₁ hlowered, (List.append_assoc ..).symm, hx⟩
    · exact hhere post none h₁

/-- If every event is carried out as a step of another environment, so is the program. -/
theorem Runs.along_lower {stepE : ω → Entry E R → ω → Prop} {stepF : υ → Entry F S → υ → Prop}
    (sim : ω → υ → Prop) (hsim : ∀ e v v' w t out, sim w v → (h e).Runs t out →
      Along stepF t v v' → ∃ r w', out = some r ∧ stepE w ⟨e, r⟩ w' ∧ sim w' v')
    {w : ω} {v v' : υ} (hrun : (p.lower h).Runs tr' out) (hv : Along stepF tr' v v')
    (hw : sim w v) : ∃ tr w', p.Runs tr out ∧ Along stepE tr w w' ∧ sim w' v' := by
  induction p generalizing tr' v w with
  | ret a =>
    obtain ⟨rfl, rfl⟩ := runs_ret.mp hrun
    obtain rfl := along_nil.mp hv
    exact ⟨[], w, .ret a, rfl, hw⟩
  | crash =>
    obtain ⟨rfl, rfl⟩ := runs_crash.mp hrun
    obtain rfl := along_nil.mp hv
    exact ⟨[], w, .crash, rfl, hw⟩
  | ask e k ih =>
    rcases runs_bind.mp hrun with ⟨t₁, r, t₂, rfl, h₁, h₂⟩ | ⟨h₁, -⟩
    · obtain ⟨v₁, hv₁, hv₂⟩ := along_append.mp hv
      obtain ⟨r', w₁, hr, hstep, hw₁⟩ := hsim e v v₁ w t₁ _ hw h₁ hv₁
      obtain rfl := Option.some.inj hr
      obtain ⟨tr, w', hrest, hw', hend⟩ := ih r h₂ hv₂ hw₁
      exact ⟨⟨e, r⟩ :: tr, w', .ask hrest, ⟨w₁, hstep, hw'⟩, hend⟩
    · obtain ⟨_, _, hr, -⟩ := hsim e v v' w tr' _ hw h₁ hv
      cases hr

end Lower

end Prog

end Interaction
