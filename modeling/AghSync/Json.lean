import Mathlib.Data.List.Basic
import Mathlib.Data.Int.Notation

/-!
# JSON documents

The value tree a record is encoded to. Two encodings are compared as trees : rendering a
tree to bytes loses nothing.

`Json.object` drops the members that `omitempty` leaves out. A single precision number is
its bit pattern, since no code here computes with one. A member that was encoded is found
again by its name, provided no two members share one (`Json.field_object`), so records that
differ in a member have different encodings (`Json.object_injective`). `Json.Covers` compares
what is sent with what is stored.
-/

/-- A JSON value. -/
inductive Json
  | null
  | bool (b : Bool)
  | int (n : ℤ)
  | float (bits : BitVec 32)
  | str (s : String)
  | arr (items : List Json)
  | obj (members : List (String × Json))

namespace Json

mutual

/-- Equality of JSON values is decidable. -/
def decEq : (a b : Json) → Decidable (a = b)
  | null, null => isTrue rfl
  | bool a, bool b => decidable_of_iff (a = b) (by simp)
  | int a, int b => decidable_of_iff (a = b) (by simp)
  | float a, float b => decidable_of_iff (a = b) (by simp)
  | str a, str b => decidable_of_iff (a = b) (by simp)
  | arr a, arr b =>
    match decEqItems a b with
    | isTrue h => isTrue (h ▸ rfl)
    | isFalse h => isFalse (by simpa using h)
  | obj a, obj b =>
    match decEqMembers a b with
    | isTrue h => isTrue (h ▸ rfl)
    | isFalse h => isFalse (by simpa using h)
  | null, bool _ | null, int _ | null, float _ | null, str _ | null, arr _ | null, obj _
  | bool _, null | bool _, int _ | bool _, float _ | bool _, str _ | bool _, arr _ | bool _, obj _
  | int _, null | int _, bool _ | int _, float _ | int _, str _ | int _, arr _ | int _, obj _
  | float _, null | float _, bool _ | float _, int _ | float _, str _ | float _, arr _
  | float _, obj _
  | str _, null | str _, bool _ | str _, int _ | str _, float _ | str _, arr _ | str _, obj _
  | arr _, null | arr _, bool _ | arr _, int _ | arr _, float _ | arr _, str _ | arr _, obj _
  | obj _, null | obj _, bool _ | obj _, int _ | obj _, float _ | obj _, str _ | obj _, arr _ =>
    isFalse (by simp)

def decEqItems : (a b : List Json) → Decidable (a = b)
  | [], [] => isTrue rfl
  | [], _ :: _ => isFalse (by simp)
  | _ :: _, [] => isFalse (by simp)
  | x :: a, y :: b =>
    match decEq x y, decEqItems a b with
    | isTrue hx, isTrue ha => isTrue (by rw [hx, ha])
    | isFalse hx, _ => isFalse (by simp [hx])
    | _, isFalse ha => isFalse (by simp [ha])

def decEqMembers : (a b : List (String × Json)) → Decidable (a = b)
  | [], [] => isTrue rfl
  | [], _ :: _ => isFalse (by simp)
  | _ :: _, [] => isFalse (by simp)
  | (k, x) :: a, (l, y) :: b =>
    if hk : k = l then
      match decEq x y, decEqMembers a b with
      | isTrue hx, isTrue ha => isTrue (by rw [hk, hx, ha])
      | isFalse hx, _ => isFalse (by simp [hx])
      | _, isFalse ha => isFalse (by simp [ha])
    else isFalse (by simp [hk])

end

instance : DecidableEq Json :=
  decEq

/-- An object of the members that are present. -/
def object (members : List (String × Option Json)) : Json :=
  obj (members.filterMap fun m => m.2.map fun v => (m.1, v))

end Json

/-- Types with a JSON encoding. -/
class Marshal (α : Type) where
  marshal : α → Json

export Marshal (marshal)

instance : Marshal Bool := ⟨.bool⟩

instance : Marshal ℤ := ⟨.int⟩

instance : Marshal (BitVec 32) := ⟨.float⟩

instance : Marshal String := ⟨.str⟩

instance {α : Type} [Marshal α] : Marshal (List α) := ⟨fun xs => .arr (xs.map marshal)⟩

/-- A pointer or slice that is encoded as `null` when it is nil. -/
instance {α : Type} [Marshal α] : Marshal (Option α) := ⟨fun o => (o.map marshal).getD .null⟩

/-- A member that `omitempty` drops when it is nil. -/
def Json.omitEmpty {α : Type} [Marshal α] (name : String) (o : Option α) : String × Option Json :=
  (name, o.map marshal)

/-- A member that is always encoded. -/
def Json.always {α : Type} [Marshal α] (name : String) (a : α) : String × Option Json :=
  (name, some (marshal a))

/-- Types whose values can be read back from their encoding. -/
class Unmarshal (α : Type) where
  unmarshal : Json → Option α

export Unmarshal (unmarshal)

instance : Unmarshal Bool := ⟨fun | .bool b => some b | _ => none⟩

instance : Unmarshal ℤ := ⟨fun | .int n => some n | _ => none⟩

instance : Unmarshal String := ⟨fun | .str s => some s | _ => none⟩

instance {α : Type} [Unmarshal α] : Unmarshal (List α) :=
  ⟨fun | .arr items => items.mapM unmarshal | _ => none⟩

/-- An encoding that is read back unchanged. -/
class LawfulMarshal (α : Type) [Marshal α] [Unmarshal α] : Prop where
  unmarshal_marshal : ∀ a : α, unmarshal (marshal a) = some a

instance : LawfulMarshal Bool := ⟨fun _ => rfl⟩

instance : LawfulMarshal ℤ := ⟨fun _ => rfl⟩

instance : LawfulMarshal String := ⟨fun _ => rfl⟩

instance {α : Type} [Marshal α] [Unmarshal α] [LawfulMarshal α] : LawfulMarshal (List α) where
  unmarshal_marshal xs := by
    show (xs.map marshal).mapM unmarshal = some xs
    induction xs with
    | nil => rfl
    | cons x xs ih => simp [LawfulMarshal.unmarshal_marshal x, ih]

namespace Json

/-- The member `name` of an object. -/
def get (name : String) : Json → Option Json
  | obj members => (members.find? fun m => m.1 = name).map Prod.snd
  | _ => none

/-- The decoded member `name`, if it is there. -/
def field {α : Type} [Unmarshal α] (name : String) (j : Json) : Option α :=
  (j.get name).bind unmarshal

theorem get_object_of_notMem {ms : List (String × Option Json)} {name : String}
    (h : name ∉ ms.map Prod.fst) : (object ms).get name = none := by
  simp only [object, get, Option.map_eq_none_iff, List.find?_eq_none, List.mem_filterMap,
    decide_eq_true_eq]
  rintro _ ⟨m, hm, hv⟩ rfl
  obtain ⟨_, -, rfl⟩ := Option.map_eq_some_iff.mp hv
  exact h (List.mem_map_of_mem hm)

theorem get_object {name : String} {v : Option Json} :
    ∀ {ms : List (String × Option Json)}, (ms.map Prod.fst).Nodup → (name, v) ∈ ms →
      (object ms).get name = v
  | [], _, h => by simp at h
  | (n, w) :: ms, hnodup, h => by
    obtain ⟨hn, hms⟩ := List.nodup_cons.mp hnodup
    rcases List.mem_cons.mp h with he | h
    · obtain ⟨rfl, rfl⟩ := Prod.mk.inj he
      cases v with
      | none => simpa [object, get] using get_object_of_notMem hn
      | some v => simp [object, get]
    · have hne : n ≠ name := fun he => hn (List.mem_map.mpr ⟨_, h, he.symm⟩)
      rw [← get_object hms h]
      cases w <;> simp [object, get, hne]

/-- A member of an encoded object is read back. -/
theorem field_object {α : Type} [Marshal α] [Unmarshal α] [LawfulMarshal α]
    {ms : List (String × Option Json)} (hnodup : (ms.map Prod.fst).Nodup) {name : String}
    {o : Option α} (h : omitEmpty name o ∈ ms) : (object ms).field name = o := by
  rw [field, get_object hnodup h]
  cases o with
  | none => rfl
  | some a => exact LawfulMarshal.unmarshal_marshal a

theorem mem_of_get_object {ms : List (String × Option Json)} {name : String} {v : Json}
    (h : (object ms).get name = some v) : (name, some v) ∈ ms := by
  simp only [object, get, Option.map_eq_some_iff] at h
  obtain ⟨m, hm, rfl⟩ := h
  obtain rfl : m.1 = name := by simpa using List.find?_some hm
  obtain ⟨m', hm', hv⟩ := List.mem_filterMap.mp (List.mem_of_find?_eq_some hm)
  obtain ⟨v, hsome, rfl⟩ := Option.map_eq_some_iff.mp hv
  show (m'.1, some v) ∈ ms
  rwa [← hsome]

theorem eq_map_get {ms : List (String × Option Json)} (hnodup : (ms.map Prod.fst).Nodup) :
    ms = (ms.map Prod.fst).map fun name => (name, (object ms).get name) := by
  rw [List.map_map]
  refine (List.map_id ms).symm.trans (List.map_congr_left fun m hm => ?_)
  exact Prod.ext rfl (get_object hnodup hm).symm

/-- Objects with the same names differ if their members do. -/
theorem object_inj {ms ms' : List (String × Option Json)} (hnodup : (ms.map Prod.fst).Nodup)
    (hnames : ms.map Prod.fst = ms'.map Prod.fst) : object ms = object ms' ↔ ms = ms' := by
  refine ⟨fun h => ?_, congrArg object⟩
  have hms := eq_map_get hnodup
  have hms' := eq_map_get (hnames ▸ hnodup)
  rw [hms, hms', hnames, h]

/-! ## What an object covers -/

/-- The zero value of the type of a value. -/
def zero : Json → Json
  | null => null
  | bool _ => bool false
  | int _ => int 0
  | float _ => float 0
  | str _ => str ""
  | arr _ => arr []
  | obj _ => obj []

/-- The same value, where the order of a list does not matter. -/
def Same : Json → Json → Prop
  | arr xs, arr ys => xs.Perm ys
  | v, w => v = w

theorem Same.refl (v : Json) : Same v v := by
  cases v with
  | arr xs => exact List.Perm.refl xs
  | _ => rfl

/-- `stored` has every value that `body` sends, an absent one counting as the zero value. -/
def Covers (stored body : Json) : Prop :=
  ∀ name v, body.get name = some v → Same v ((stored.get name).getD v.zero)

theorem Covers.refl (j : Json) : Covers j j := by
  intro name v h
  rw [h]
  exact Same.refl v

/-- An object covers another if it does so member by member. -/
theorem covers_object {ms ms' : List (String × Option Json)} (hnodup : (ms'.map Prod.fst).Nodup)
    (h : ∀ name v, (name, some v) ∈ ms → ∃ v', (name, v') ∈ ms' ∧ Same v (v'.getD v.zero)) :
    Covers (object ms') (object ms) := by
  intro name v hv
  obtain ⟨v', hmem, hsame⟩ := h name v (mem_of_get_object hv)
  rwa [get_object hnodup hmem]

end Json

/-! ## Encodings that keep values apart -/

/-- Types whose values have different encodings. -/
class FaithfulMarshal (α : Type) [Marshal α] : Prop where
  marshal_injective : Function.Injective (marshal : α → Json)

section Faithful

variable {α : Type} [Marshal α]

theorem marshal_inj [FaithfulMarshal α] {a b : α} : marshal a = marshal b ↔ a = b :=
  FaithfulMarshal.marshal_injective.eq_iff

instance [Unmarshal α] [LawfulMarshal α] : FaithfulMarshal α where
  marshal_injective a b h := by
    have h := congrArg (unmarshal : Json → Option α) h
    rw [LawfulMarshal.unmarshal_marshal, LawfulMarshal.unmarshal_marshal] at h
    exact Option.some.inj h

instance : FaithfulMarshal (BitVec 32) where
  marshal_injective _ _ h := Json.float.inj h

instance [FaithfulMarshal α] : FaithfulMarshal (List α) where
  marshal_injective _ _ h :=
    List.map_injective_iff.mpr FaithfulMarshal.marshal_injective (Json.arr.inj h)

/-- A list that is encoded as `null` when it is nil. -/
instance [FaithfulMarshal α] : FaithfulMarshal (Option (List α)) where
  marshal_injective a b h := by
    cases a with
    | none => cases b with
      | none => rfl
      | some ys => cases h
    | some xs => cases b with
      | none => cases h
      | some ys => exact congrArg some (marshal_inj.mp h)

@[simp] theorem Json.omitEmpty_inj [FaithfulMarshal α] {name : String} {o o' : Option α} :
    omitEmpty name o = omitEmpty name o' ↔ o = o' := by
  simp [omitEmpty, (Option.map_injective FaithfulMarshal.marshal_injective).eq_iff]

@[simp] theorem Json.always_inj [FaithfulMarshal α] {name : String} {a b : α} :
    always name a = always name b ↔ a = b := by
  simp [always, marshal_inj]

end Faithful

/-- A record is kept apart by its encoding if it is by its members. -/
theorem Json.object_injective {α : Type} {members : α → List (String × Option Json)}
    (hnodup : ∀ a, ((members a).map Prod.fst).Nodup)
    (hnames : ∀ a b, (members a).map Prod.fst = (members b).map Prod.fst)
    (hmembers : Function.Injective members) :
    Function.Injective fun a => object (members a) :=
  fun a b h => hmembers ((object_inj (hnodup a) (hnames a b)).mp h)

/-- `JSONEquals` : the two values have the same encoding. -/
def jsonEquals {α : Type} [Marshal α] (a b : α) : Bool :=
  decide (marshal a = marshal b)

theorem jsonEquals_iff {α : Type} [Marshal α] [FaithfulMarshal α] {a b : α} :
    jsonEquals a b = true ↔ a = b := by
  simp [jsonEquals, marshal_inj]
