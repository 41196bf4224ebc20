import Mathlib.Logic.Function.Basic
import Mathlib.Data.Nat.Notation

/-!
# Records in memory

A record has fields `F`, each behind a pointer that may be nil. `Blocks` is a memory of such
fields. An allocation puts all fields of a new record into one new block (`Blocks.alloc`), so no
record from before has a field there, and what is done to the new record in place is not seen
through an old one (`Blocks.read_update_of_inBlock`, `Blocks.read_update_of_ne`). Old records
may share their fields.
-/

/-- A memory : the contents of each field of each block, and the number of the next block. -/
structure Blocks (F V : Type) where
  cells : ℕ × F → V
  next : ℕ

namespace Blocks

variable {F V : Type}

/-- A record : where its fields are. -/
abbrev Record (F : Type) := F → Option (ℕ × F)

/-- The values of a record. -/
def read (m : Blocks F V) (r : Record F) (f : F) : Option V :=
  (r f).map m.cells

/-- A new record with the values `vals`. -/
def alloc [Inhabited V] (m : Blocks F V) (vals : F → Option V) : Record F × Blocks F V :=
  (fun f => (vals f).map fun _ => (m.next, f),
    { cells := fun a => if a.1 = m.next then (vals a.2).getD default else m.cells a
      next := m.next + 1 })

/-- Change the field at `a` in place. -/
def update [DecidableEq F] (m : Blocks F V) (a : ℕ × F) (g : V → V) : Blocks F V :=
  { m with cells := Function.update m.cells a (g (m.cells a)) }

/-- The fields of the record have been allocated. -/
def Allocated (m : Blocks F V) (r : Record F) : Prop :=
  ∀ f, ∀ a ∈ r f, a.1 < m.next

/-- The fields of the record are in the block `n`. -/
def InBlock (r : Record F) (n : ℕ) : Prop :=
  ∀ f, ∀ a ∈ r f, a = (n, f)

variable {m : Blocks F V} {r : Record F} {n : ℕ}

theorem read_of_eq_none {f : F} (h : r f = none) : m.read r f = none := by
  rw [read, h, Option.map_none]

theorem read_of_eq_some {f : F} {a : ℕ × F} (h : r f = some a) :
    m.read r f = some (m.cells a) := by
  rw [read, h, Option.map_some]

theorem Allocated.of_inBlock (h : InBlock r n) (hn : n < m.next) : m.Allocated r :=
  fun f a ha => by rwa [h f a ha]

section Alloc

variable [Inhabited V] (vals : F → Option V)

@[simp] theorem read_alloc : (m.alloc vals).2.read (m.alloc vals).1 = vals := by
  funext f
  cases h : vals f with
  | none => simp [read, alloc, h]
  | some v => simp [read, alloc, h]

theorem read_alloc_of_allocated (h : m.Allocated r) : (m.alloc vals).2.read r = m.read r := by
  funext f
  refine Option.map_congr fun a ha => ?_
  exact if_neg (Nat.ne_of_lt (h f a ha))

theorem Allocated.alloc (h : m.Allocated r) : (m.alloc vals).2.Allocated r :=
  fun f a ha => Nat.lt_succ_of_lt (h f a ha)

theorem inBlock_alloc : InBlock (m.alloc vals).1 m.next := by
  intro f a ha
  obtain ⟨v, -, rfl⟩ := Option.map_eq_some_iff.mp ha
  rfl

end Alloc

section Nil

variable [DecidableEq F]

/-- A pointer that is set to nil has no value, and the other fields keep theirs. -/
theorem read_update_none (m : Blocks F V) (r : Record F) (f : F) :
    m.read (Function.update r f none) = Function.update (m.read r) f none := by
  funext f'
  by_cases hf : f' = f
  · subst hf
    rw [read_of_eq_none (Function.update_self ..), Function.update_self]
  · rw [read, Function.update_of_ne hf, Function.update_of_ne hf, read]

theorem InBlock.update_none (h : InBlock r n) (f : F) : InBlock (Function.update r f none) n := by
  intro f' a ha
  by_cases hf : f' = f
  · subst hf
    rw [Function.update_self] at ha
    cases ha
  · rw [Function.update_of_ne hf] at ha
    exact h f' a ha

end Nil

section Update

variable [DecidableEq F] (g : V → V)

/-- A field of a record in one block is changed, and no other. -/
theorem read_update_of_inBlock (h : InBlock r n) {f : F} {a : ℕ × F} (ha : r f = some a) :
    (m.update a g).read r = Function.update (m.read r) f ((m.read r f).map g) := by
  funext f'
  by_cases hf : f' = f
  · subst hf
    simp [read, update, ha]
  · rw [Function.update_of_ne hf]
    refine Option.map_congr fun b hb => ?_
    refine Function.update_of_ne (fun he => hf ?_) _ _
    rw [h f a ha, h f' b hb] at he
    exact congrArg Prod.snd he

/-- What is not in the block of the change is not changed. -/
theorem read_update_of_ne {a : ℕ × F} (h : ∀ f, ∀ b ∈ r f, b.1 ≠ a.1) :
    (m.update a g).read r = m.read r := by
  funext f
  refine Option.map_congr fun b hb => ?_
  exact Function.update_of_ne (fun he => h f b hb (congrArg Prod.fst he)) _ _

end Update

end Blocks
