import Mathlib.Algebra.BigOperators.Group.List.Basic

/-!
# Folds that may fail

`xs.foldlM f a` takes one step after the other and fails where a step fails. What every step
keeps is kept by the fold (`Folds.invariant`), where every step adds a weight to a measure the
fold adds all weights (`Folds.measure_eq`), and where a step goes on exactly if its element is
fit the fold does exactly if all are (`Folds.isSome_iff`).

Where a step may overwrite a value, the last write counts (`Folds.lastWrite`). It is the write of
the last element exactly if that element writes, or none does (`Folds.getLast?_filterMap_iff`).
-/

namespace Folds

variable {α β γ : Type} {f : α → β → Option α} {I : α → Prop} {a c : α}

theorem cons_eq_some {x : β} {xs : List β} :
    (x :: xs).foldlM f a = some c ↔ ∃ b, f a x = some b ∧ xs.foldlM f b = some c := by
  rw [List.foldlM_cons]
  exact Option.bind_eq_some_iff

/-- What each step keeps is kept. -/
theorem invariant : ∀ {xs : List β} {a : α},
    (∀ a, ∀ x ∈ xs, ∀ b, I a → f a x = some b → I b) → I a → xs.foldlM f a = some c → I c
  | [], a, _, ha, h => by
    obtain rfl := Option.some.inj h
    exact ha
  | x :: xs, a, hstep, ha, h => by
    obtain ⟨b, hb, h⟩ := cons_eq_some.mp h
    have hI : I b := hstep a x (by simp) b ha hb
    exact invariant (fun a y hy => hstep a y (by simp [hy])) hI h

/-- Each step adds its weight to the measure, and the fold adds all of them. -/
theorem measure_eq {M : Type} [AddCommMonoid M] {m : α → M} {w : β → M}
    (hkeep : ∀ a x b, I a → f a x = some b → I b)
    (hstep : ∀ a x b, I a → f a x = some b → m b = m a + w x) :
    ∀ {xs : List β} {a : α}, I a → xs.foldlM f a = some c → m c = m a + (xs.map w).sum
  | [], a, _, h => by
    obtain rfl := Option.some.inj h
    simp
  | x :: xs, a, ha, h => by
    obtain ⟨b, hb, h⟩ := cons_eq_some.mp h
    rw [measure_eq hkeep hstep (hkeep a x b ha hb) h, hstep a x b ha hb, List.map_cons,
      List.sum_cons, add_assoc]

/-- The fold comes to its end exactly if every step can be taken. -/
theorem isSome_iff {P : β → Prop} (hkeep : ∀ a x b, I a → f a x = some b → I b)
    (hstep : ∀ a x, I a → ((f a x).isSome ↔ P x)) :
    ∀ {xs : List β} {a : α}, I a → ((xs.foldlM f a).isSome ↔ ∀ x ∈ xs, P x)
  | [], a, _ => by simp
  | x :: xs, a, ha => by
    rw [List.forall_mem_cons, ← hstep a x ha]
    cases hx : f a x with
    | none => simp [hx]
    | some b =>
      have ih : (xs.foldlM f b).isSome ↔ ∀ x ∈ xs, P x :=
        isSome_iff hkeep hstep (hkeep a x b ha hx)
      simpa [hx] using ih

/-! ## The last write -/

theorem getLast?_cons_or {x : γ} {xs : List γ} {y : Option γ} :
    (x :: xs).getLast?.or y = xs.getLast?.or (some x) := by
  cases h : xs.getLast? <;> simp [List.getLast?_cons, h]

/-- The value of the last write, or the one from before. -/
theorem lastWrite (get : α → Option γ) (w : β → Option γ)
    (hstep : ∀ a x b, f a x = some b → get b = (w x).or (get a)) : ∀ {xs : List β} {a : α},
      xs.foldlM f a = some c → get c = (xs.filterMap w).getLast?.or (get a)
  | [], a, h => by
    obtain rfl := Option.some.inj h
    rfl
  | x :: xs, a, h => by
    obtain ⟨b, hb, h⟩ := cons_eq_some.mp h
    rw [lastWrite get w hstep h, hstep a x b hb]
    cases hw : w x with
    | none => simp [hw]
    | some v => rw [List.filterMap_cons_some hw, getLast?_cons_or, Option.some_or]

theorem lastWrite_foldl {f : α → β → α} (get : α → Option γ) (w : β → Option γ)
    (hstep : ∀ a x, get (f a x) = (w x).or (get a)) (xs : List β) (a : α) :
    get (xs.foldl f a) = (xs.filterMap w).getLast?.or (get a) := by
  refine lastWrite (f := fun a x => some (f a x)) get w ?_ (List.foldlM_pure (m := Option))
  rintro a x b ⟨⟩
  exact hstep a x

variable {w : β → Option γ}

theorem getLast?_filterMap_of_some {xs : List β} {x : β} {v : γ} (hx : xs.getLast? = some x)
    (hv : w x = some v) : (xs.filterMap w).getLast? = some v := by
  obtain ⟨ys, rfl⟩ := List.getLast?_eq_some_iff.mp hx
  simp [hv]

/-- The last write is the write of the last element exactly if that one writes when any does. -/
theorem getLast?_filterMap_iff {xs : List β} :
    (xs.filterMap w).getLast? = xs.getLast?.bind w ↔
      ∀ x ∈ xs, (w x).isSome → ∃ y, xs.getLast? = some y ∧ (w y).isSome := by
  cases hxs : xs.getLast? with
  | none =>
    rw [List.getLast?_eq_none_iff] at hxs
    simp [hxs]
  | some y =>
    cases hy : w y with
    | some v => simp [getLast?_filterMap_of_some hxs hy, hy]
    | none => simp [hy]

end Folds
