import Mathlib.Data.List.Basic
import Mathlib.Data.Nat.Notation

/-!
# Documents with omitted members

A value is written as a node of a document, and read over a value that is there already. A record
is written member by member, and a member may be left out where it is zero (`Member.omits`). What
is left out is not touched when the document is read. So a record that is read back has the
member of the record below where the written one was zero : `struct` says what becomes of each
member, and `unmarshal_marshal` that this is what is read.
-/

namespace Yaml

/-- The nodes of documents with the scalars `S`. -/
inductive Node (S : Type)
  | null
  | scalar (s : S)
  | sequence (ns : List (Node S))
  | mapping (kvs : List (String × Node S))

/-- How values are written and read. -/
structure Codec (S α : Type) where
  zero : α
  encode : α → Node S
  /-- Read a node over a value. -/
  decode : Node S → α → Option α
  /-- What is read of the first value over the second. -/
  readOver : α → α → α
  decode_encode : ∀ a b, decode (encode a) b = some (readOver a b)

/-- A member of a record. -/
structure Member (S α : Type) where
  key : String
  /-- The member is left out of the document. -/
  omits : α → Bool
  encode : α → Node S
  decode : Node S → α → Option α
  merge : α → α → α
  merge_of_omits : ∀ a b, omits a = true → merge a b = b
  decode_encode : ∀ a b, omits a = false → decode (encode a) b = some (merge a b)

variable {S α β : Type}

/-- A field of a record as a member. -/
def Member.field [DecidableEq β] (key : String) (omitEmpty : Bool) (c : Codec S β) (get : α → β)
    (set : β → α → α) (set_get : ∀ a, set (get a) a = a := by intro; rfl) : Member S α where
  key := key
  omits a := omitEmpty && get a = c.zero
  encode a := c.encode (get a)
  decode n b := (c.decode n (get b)).map fun v => set v b
  merge a b :=
    set (if omitEmpty && get a = c.zero then get b else c.readOver (get a) (get b)) b
  merge_of_omits a b h := by rw [if_pos h, set_get]
  decode_encode a b h := by
    rw [c.decode_encode, Option.map_some, if_neg (by rw [h]; exact Bool.false_ne_true)]

@[simp] theorem Member.merge_field [DecidableEq β] (key : String) (omitEmpty : Bool)
    (c : Codec S β) (get : α → β) (set : β → α → α) (set_get : ∀ a, set (get a) a = a) (a b : α) :
    (Member.field key omitEmpty c get set set_get).merge a b =
      set (if omitEmpty = true ∧ get a = c.zero then get b else c.readOver (get a) (get b)) b := by
  simp only [field, Bool.and_eq_true, decide_eq_true_eq]

/-! ## Records -/

section Records

/-- Write the members that are not left out. -/
def marshal (ms : List (Member S α)) (a : α) : Node S :=
  .mapping ((ms.filter fun m => !m.omits a).map fun m => (m.key, m.encode a))

/-- Read one entry. An unknown key is skipped. -/
def unmarshalEntry (ms : List (Member S α)) (b : α) (kv : String × Node S) : Option α :=
  match ms.find? fun m => m.key = kv.1 with
  | some m => m.decode kv.2 b
  | none => some b

/-- Read the entries in order. -/
def unmarshal (ms : List (Member S α)) : Node S → α → Option α
  | .mapping kvs, b => kvs.foldlM (unmarshalEntry ms) b
  | _, _ => none

/-- The members of the first record over those of the second. -/
def mergeAll (ms : List (Member S α)) (a b : α) : α :=
  ms.foldl (fun b m => m.merge a b) b

@[simp] theorem mergeAll_nil (a b : α) : mergeAll ([] : List (Member S α)) a b = b :=
  rfl

@[simp] theorem mergeAll_cons (m : Member S α) (ms : List (Member S α)) (a b : α) :
    mergeAll (m :: ms) a b = mergeAll ms a (m.merge a b) :=
  rfl

variable {ms : List (Member S α)}

/-- A member is found by its key. -/
theorem find?_key (hkeys : (ms.map Member.key).Nodup) {m : Member S α} (hm : m ∈ ms) :
    (ms.find? fun m' => m'.key = m.key) = some m := by
  induction ms with
  | nil => cases hm
  | cons m' ms ih =>
    rw [List.map_cons, List.nodup_cons] at hkeys
    rcases List.mem_cons.mp hm with rfl | hm
    · exact List.find?_cons_of_pos (by simp)
    · have hne : m'.key ≠ m.key := fun he => hkeys.1 (he ▸ List.mem_map_of_mem hm)
      rw [List.find?_cons_of_neg (by simpa using hne)]
      exact ih hkeys.2 hm

/-- What is written of some members is read member by member. -/
theorem foldlM_unmarshalEntry (hkeys : (ms.map Member.key).Nodup) (a : α) :
    ∀ (ms' : List (Member S α)) (b : α), (∀ m ∈ ms', m ∈ ms) →
      ((ms'.filter fun m => !m.omits a).map fun m => (m.key, m.encode a)).foldlM
        (unmarshalEntry ms) b = some (mergeAll ms' a b)
  | [], _, _ => rfl
  | m :: ms', b, h => by
    have hrest : ∀ m ∈ ms', m ∈ ms := fun m' hm' => h m' (List.mem_cons_of_mem m hm')
    cases homits : m.omits a with
    | true =>
      rw [List.filter_cons_of_neg (by simp [homits]), foldlM_unmarshalEntry hkeys a ms' b hrest,
        mergeAll, mergeAll, List.foldl_cons, m.merge_of_omits a b homits]
    | false =>
      have hentry : unmarshalEntry ms b (m.key, m.encode a) = some (m.merge a b) := by
        rw [unmarshalEntry, find?_key hkeys (h m List.mem_cons_self)]
        exact m.decode_encode a b homits
      rw [List.filter_cons_of_pos (by simp [homits]), List.map_cons, List.foldlM_cons, hentry]
      exact foldlM_unmarshalEntry hkeys a ms' (m.merge a b) hrest

/-- A record that has been written is read over another member by member. -/
theorem unmarshal_marshal (hkeys : (ms.map Member.key).Nodup) (a b : α) :
    unmarshal ms (marshal ms a) b = some (mergeAll ms a b) :=
  foldlM_unmarshalEntry hkeys a ms b fun _ hm => hm

end Records

namespace Codec

/-- A record with the members `ms`. -/
def struct (zero : α) (ms : List (Member S α)) (hkeys : (ms.map Member.key).Nodup) : Codec S α where
  zero := zero
  encode := marshal ms
  decode := unmarshal ms
  readOver := mergeAll ms
  decode_encode := unmarshal_marshal hkeys

@[simp] theorem readOver_struct (zero : α) (ms : List (Member S α))
    (hkeys : (ms.map Member.key).Nodup) : (struct zero ms hkeys).readOver = mergeAll ms :=
  rfl

@[simp] theorem zero_struct (zero : α) (ms : List (Member S α))
    (hkeys : (ms.map Member.key).Nodup) : (struct zero ms hkeys).zero = zero :=
  rfl

/-- A scalar. -/
def scalar (zero : α) (inj : α → S) (proj : S → Option α) (h : ∀ a, proj (inj a) = some a) :
    Codec S α where
  zero := zero
  encode a := .scalar (inj a)
  decode
    | .scalar s, _ => proj s
    | _, _ => none
  readOver a _ := a
  decode_encode a _ := h a

@[simp] theorem readOver_scalar (zero : α) (inj : α → S) (proj : S → Option α)
    (h : ∀ a, proj (inj a) = some a) (a b : α) : (scalar zero inj proj h).readOver a b = a :=
  rfl

@[simp] theorem zero_scalar (zero : α) (inj : α → S) (proj : S → Option α)
    (h : ∀ a, proj (inj a) = some a) : (scalar zero inj proj h).zero = zero :=
  rfl

variable (c : Codec S α)

/-- A pointer that may be nil. What it points to is read over what is there already. -/
def pointer (h : ∀ a, c.encode a ≠ .null) : Codec S (Option α) where
  zero := none
  encode
    | none => .null
    | some a => c.encode a
  decode
    | .null, _ => some none
    | n, b => (c.decode n (b.getD c.zero)).map some
  readOver a b := a.map fun a => c.readOver a (b.getD c.zero)
  decode_encode a b := by
    cases a with
    | none => rfl
    | some a =>
      dsimp only
      split
      · next hnull => exact absurd hnull (h a)
      · rw [c.decode_encode]
        rfl

/-- A list. Its elements are read over zero. -/
def list : Codec S (List α) where
  zero := []
  encode as := .sequence (as.map c.encode)
  decode
    | .sequence ns, _ => ns.mapM fun n => c.decode n c.zero
    | _, _ => none
  readOver as _ := as.map fun a => c.readOver a c.zero
  decode_encode as _ := by
    dsimp only
    induction as with
    | nil => rfl
    | cons a as ih =>
      rw [List.map_cons, List.mapM_cons, c.decode_encode, ih]
      rfl

/-- A map with text keys, as the list of its entries. They are added to those that are there. -/
def stringMap : Codec S (List (String × α)) where
  zero := []
  encode es := .mapping (es.map fun e => (e.1, c.encode e.2))
  decode
    | .mapping kvs, b =>
      (kvs.mapM fun kv => (c.decode kv.2 c.zero).map fun a => (kv.1, a)).map fun es =>
        (b.filter fun e => e.1 ∉ es.map Prod.fst) ++ es
    | _, _ => none
  readOver es b :=
    (b.filter fun e => e.1 ∉ es.map Prod.fst) ++ es.map fun e => (e.1, c.readOver e.2 c.zero)
  decode_encode es b := by
    have hentries : ((es.map fun e => (e.1, c.encode e.2)).mapM fun kv =>
        (c.decode kv.2 c.zero).map fun a => (kv.1, a)) =
          some (es.map fun e => (e.1, c.readOver e.2 c.zero)) := by
      induction es with
      | nil => rfl
      | cons e es ih =>
        rw [List.map_cons, List.mapM_cons, c.decode_encode, ih]
        rfl
    dsimp only
    rw [hentries, Option.map_some, List.map_map]
    rfl

@[simp] theorem zero_pointer (h : ∀ a, c.encode a ≠ .null) : (c.pointer h).zero = none :=
  rfl

@[simp] theorem readOver_pointer (h : ∀ a, c.encode a ≠ .null) (a b : Option α) :
    (c.pointer h).readOver a b = a.map fun a => c.readOver a (b.getD c.zero) :=
  rfl

@[simp] theorem zero_list : c.list.zero = [] :=
  rfl

@[simp] theorem readOver_list (as bs : List α) :
    c.list.readOver as bs = as.map fun a => c.readOver a c.zero :=
  rfl

@[simp] theorem zero_stringMap : c.stringMap.zero = [] :=
  rfl

/-- Read over no entries, a map has the entries that were written. -/
@[simp] theorem readOver_stringMap_nil (es : List (String × α)) :
    c.stringMap.readOver es [] = es.map fun e => (e.1, c.readOver e.2 c.zero) :=
  rfl

end Codec

/-- What is left out if it is zero is read back over zero. -/
@[simp] theorem ite_zero_self [DecidableEq α] (a zero : α) :
    (if a = zero then zero else a) = a := by
  split_ifs with h
  · exact h.symm
  · rfl

end Yaml
