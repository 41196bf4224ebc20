import Mathlib.Data.List.Nodup

/-!
# Records in layers

A record is a type whose values are told apart by fields that can be set one by one. A layer
has values for some of the fields, and lies over a record : where it has a value the record
below does not show. `readAll` goes through a list of fields and sets those that are read. If
no read fails the result is the record under the layer of what was read (`readAll_eq_ok`), and
otherwise it is the error of a read (`readAll_eq_error`).
-/

namespace Layers

variable {F : Type} {V : F → Type} {σ ε : Type}

/-- Values for some of the fields. -/
abbrev Layer (V : F → Type) := (f : F) → Option (V f)

/-- The layer, and what it has no value for as it is in `x`. -/
def Layer.over (l : Layer V) (x : (f : F) → V f) (f : F) : V f :=
  (l f).getD (x f)

/-- The first layer, and under it the second. -/
def Layer.on (l₁ l₂ : Layer V) : Layer V := fun f => l₁ f <|> l₂ f

@[simp] theorem Layer.over_apply (l : Layer V) (x : (f : F) → V f) (f : F) :
    l.over x f = (l f).getD (x f) :=
  rfl

/-- Two layers, one after the other, are one layer. -/
theorem Layer.over_over (l₁ l₂ : Layer V) (x : (f : F) → V f) :
    l₁.over (l₂.over x) = (l₁.on l₂).over x := by
  funext f
  simp only [over_apply, on]
  cases l₁ f <;> rfl

/-- A type with fields that can be looked at and set. -/
structure Record (V : F → Type) (σ : Type) where
  get : σ → (f : F) → V f
  set : (f : F) → V f → σ → σ
  get_set : ∀ f v x, get (set f v x) f = v
  get_set_of_ne : ∀ f v x g, g ≠ f → get (set f v x) g = get x g

variable (R : Record V σ) (read : (f : F) → Except ε (Option (V f)))

/-- Set a field if it is read. -/
def readOne (f : F) (x : σ) : Except ε σ :=
  (read f).map fun o => o.elim x fun v => R.set f v x

/-- Set the fields that are read, in order. -/
def readAll : List F → σ → Except ε σ
  | [], x => .ok x
  | f :: fs, x => readOne R read f x >>= readAll fs

variable {R read}

theorem readAll_cons_of_ok {f : F} {o : Option (V f)} (h : read f = .ok o) (fs : List F) (x : σ) :
    readAll R read (f :: fs) x = readAll R read fs (o.elim x fun v => R.set f v x) := by
  rw [readAll, readOne, h]
  rfl

theorem readAll_append (fs gs : List F) :
    readAll R read (fs ++ gs) = fun x => readAll R read fs x >>= readAll R read gs := by
  funext x
  induction fs generalizing x with
  | nil => rfl
  | cons f fs ih =>
    rw [List.cons_append, readAll, readAll, bind_assoc]
    exact congrArg _ (funext ih)

/-- If no read fails, the values lie over the record as a layer. -/
theorem readAll_eq_ok {l : Layer V} : ∀ {fs : List F} {x : σ}, fs.Nodup →
    (∀ f ∈ fs, read f = .ok (l f)) → ∃ y, readAll R read fs x = .ok y ∧
      (∀ f ∈ fs, R.get y f = l.over (R.get x) f) ∧ ∀ f ∉ fs, R.get y f = R.get x f
  | [], x, _, _ => ⟨x, rfl, by simp, by simp⟩
  | f :: fs, x, hfs, hread => by
    obtain ⟨hf, hfs⟩ := List.nodup_cons.mp hfs
    have hrest : ∀ g ∈ fs, read g = .ok (l g) := fun g hg => hread g (by simp [hg])
    have hfirst := hread f List.mem_cons_self
    obtain ⟨y, hy, hin, hout⟩ :=
      readAll_eq_ok (x := (l f).elim x fun v => R.set f v x) hfs hrest
    have hother : ∀ g, g ≠ f → R.get ((l f).elim x fun v => R.set f v x) g = R.get x g := by
      intro g hg
      cases l f with
      | none => rfl
      | some v => exact R.get_set_of_ne f v x g hg
    refine ⟨y, (readAll_cons_of_ok hfirst fs x).trans hy, ?_, fun g hg => ?_⟩
    · rintro g hg
      rcases List.mem_cons.mp hg with rfl | hg
      · rw [hout g hf, Layer.over_apply]
        cases l g with
        | none => rfl
        | some v => exact R.get_set g v x
      · rw [hin g hg, Layer.over_apply, Layer.over_apply, hother g fun he => hf (he ▸ hg)]
    · obtain ⟨hne, hg⟩ := not_or.mp (List.mem_cons.not.mp hg)
      rw [hout g hg, hother g hne]

/-- What no set changes is not changed. -/
theorem readAll_keeps {β : Type} {g : σ → β} (hset : ∀ f v x, g (R.set f v x) = g x) :
    ∀ {fs : List F} {x y : σ}, readAll R read fs x = .ok y → g y = g x
  | [], _, _, h => congrArg g (Except.ok.inj h).symm
  | f :: fs, x, y, h => by
    cases hf : read f with
    | error e =>
      rw [readAll, readOne, hf] at h
      cases h
    | ok o =>
      rw [readAll_cons_of_ok hf] at h
      refine (readAll_keeps hset h).trans ?_
      cases o with
      | none => rfl
      | some v => exact hset f v x

/-- If a read fails there is an error, of one of the reads. -/
theorem readAll_eq_error : ∀ {fs : List F} {x : σ}, (∃ f ∈ fs, ∃ e, read f = .error e) →
    ∃ f ∈ fs, ∃ e, read f = .error e ∧ readAll R read fs x = .error e
  | [], _, ⟨_, hf, _⟩ => absurd hf List.not_mem_nil
  | f :: fs, x, ⟨g, hg, e, he⟩ => by
    cases hf : read f with
    | error e' => exact ⟨f, List.mem_cons_self, e', hf, by rw [readAll, readOne, hf]; rfl⟩
    | ok o =>
      have hg : g ∈ fs := by
        rcases List.mem_cons.mp hg with rfl | hg
        · rw [hf] at he
          cases he
        · exact hg
      obtain ⟨f', hf', e', he', hall⟩ :=
        readAll_eq_error (x := o.elim x fun v => R.set f v x) ⟨g, hg, e, he⟩
      refine ⟨f', List.mem_cons_of_mem f hf', e', he', ?_⟩
      rw [readAll_cons_of_ok hf, hall]

end Layers
