import Mathlib.Data.List.AList
import Mathlib.Data.List.Induction

/-!
# Maps with an unspecified iteration order

A map is an association list without repeated keys. Its order means nothing : a `range`
over it visits the keys in the order a `MapOrder` gives, which is any rearrangement.

`collect` builds a map from a list, a later element replacing an earlier one with its key.
`consume` is the loop of a keyed merge. It walks a list, takes the entry of each key out of
the map, and returns the elements that met an entry (`hits`), those that did not
(`misses`), and what is left of the map (`rest`). With distinct keys the three are decided
by the map alone (`hits_eq_filterMap`, `misses_eq_filter`); what is left is decided by it in any
case (`lookup_rest`). A key that comes again misses, as its entry is gone (`count_misses`).
-/

/-- A map from `κ` to `α`. -/
abbrev KeyedMap (κ α : Type) := AList fun _ : κ => α

/-- The order in which one iteration visits the keys of a map. -/
structure MapOrder (κ : Type) where
  /-- The keys as they are visited. -/
  order : List κ → List κ
  perm : ∀ ks, (order ks).Perm ks

/-- The order in which the keys are stored. -/
def MapOrder.stored {κ : Type} : MapOrder κ :=
  ⟨id, fun _ => .refl _⟩

/-- The reverse of the order in which the keys are stored. -/
def MapOrder.reversed {κ : Type} : MapOrder κ :=
  ⟨List.reverse, List.reverse_perm⟩

namespace KeyedMap

/-- Where elements are chosen by their keys, their keys are chosen. -/
theorem mem_map_chosen {κ α : Type} {key : α → κ} {xs ys : List α} (p : κ → Prop)
    (h : ∀ a, a ∈ xs ↔ a ∈ ys ∧ p (key a)) {k : κ} : k ∈ xs.map key ↔ k ∈ ys.map key ∧ p k := by
  simp only [List.mem_map, h]
  constructor
  · rintro ⟨a, ⟨ha, hp⟩, rfl⟩
    exact ⟨⟨a, ha, rfl⟩, hp⟩
  · rintro ⟨⟨a, ha, rfl⟩, hp⟩
    exact ⟨a, ⟨ha, hp⟩, rfl⟩

variable {κ α β : Type} [DecidableEq κ]

/-- The last element of a list with a key. -/
def lastWith (key : α → κ) (xs : List α) (k : κ) : Option α :=
  xs.reverse.find? fun x => key x = k

/-- What is last with a key is in the list and has it. -/
theorem of_lastWith {key : α → κ} {xs : List α} {k : κ} {x : α}
    (h : lastWith key xs k = some x) : x ∈ xs ∧ key x = k :=
  ⟨List.mem_reverse.mp (List.mem_of_find?_eq_some h), by simpa using List.find?_some h⟩

/-- Some element is the last with its key. -/
theorem exists_lastWith {key : α → κ} {xs : List α} {x : α} (hx : x ∈ xs) :
    ∃ y, lastWith key xs (key x) = some y := by
  refine Option.isSome_iff_exists.mp (List.find?_isSome.mpr ⟨x, ?_, ?_⟩)
  · exact List.mem_reverse.mpr hx
  · exact decide_eq_true rfl

/-- The entries of `m` in the order `o`. -/
def range (o : MapOrder κ) (m : KeyedMap κ α) : List (κ × α) :=
  (o.order m.keys).filterMap fun k => (m.lookup k).map fun a => (k, a)

/-- The values of `m` in the order `o`. -/
def values (o : MapOrder κ) (m : KeyedMap κ α) : List α :=
  (m.range o).map Prod.snd

@[simp] theorem mem_range {o : MapOrder κ} {m : KeyedMap κ α} {k : κ} {a : α} :
    (k, a) ∈ m.range o ↔ m.lookup k = some a := by
  simp only [range, List.mem_filterMap, Option.map_eq_some_iff, Prod.mk.injEq]
  constructor
  · rintro ⟨k', -, a', h, rfl, rfl⟩
    exact h
  · intro h
    have hk : k ∈ m := AList.lookup_isSome.mp (by simp [h])
    exact ⟨k, (o.perm _).mem_iff.mpr (AList.mem_keys.mp hk), a, h, rfl, rfl⟩

theorem mem_values {o : MapOrder κ} {m : KeyedMap κ α} {a : α} :
    a ∈ m.values o ↔ ∃ k, m.lookup k = some a := by
  simp [values]

@[simp] theorem values_empty (o : MapOrder κ) : values o (∅ : KeyedMap κ α) = [] := by
  refine List.eq_nil_iff_forall_not_mem.mpr fun a ha => ?_
  obtain ⟨k, hk⟩ := mem_values.mp ha
  simp at hk

/-- An iteration visits every key once. -/
theorem map_fst_range_perm (o : MapOrder κ) (m : KeyedMap κ α) :
    ((m.range o).map Prod.fst).Perm m.keys := by
  have hkeys : (m.range o).map Prod.fst = o.order m.keys := by
    have hall : ∀ k ∈ o.order m.keys, k ∈ m := fun k hk =>
      AList.mem_keys.mpr ((o.perm _).mem_iff.mp hk)
    unfold range
    generalize o.order m.keys = ks at hall ⊢
    induction ks with
    | nil => rfl
    | cons k ks ih =>
      obtain ⟨a, ha⟩ := Option.isSome_iff_exists.mp
        (AList.lookup_isSome.mpr (hall k (by simp)))
      simpa [ha] using ih fun k' hk' => hall k' (by simp [hk'])
  rw [hkeys]
  exact o.perm _

theorem nodup_map_fst_range (o : MapOrder κ) (m : KeyedMap κ α) :
    ((m.range o).map Prod.fst).Nodup :=
  (m.map_fst_range_perm o).nodup_iff.mpr m.keys_nodup

/-- Values that carry their key differ in it. -/
theorem nodup_map_values {o : MapOrder κ} {m : KeyedMap κ α} {key : α → κ}
    (h : ∀ k a, m.lookup k = some a → key a = k) : ((m.values o).map key).Nodup := by
  have hkeys : (m.values o).map key = (m.range o).map Prod.fst := by
    rw [values, List.map_map]
    refine List.map_congr_left ?_
    rintro ⟨k, a⟩ ha
    exact h k a (mem_range.mp ha)
  rw [hkeys]
  exact nodup_map_fst_range o m

theorem mem_map_values {o : MapOrder κ} {m : KeyedMap κ α} {key : α → κ}
    (h : ∀ k a, m.lookup k = some a → key a = k) {k : κ} :
    k ∈ (m.values o).map key ↔ k ∈ m := by
  rw [List.mem_map, ← AList.lookup_isSome, Option.isSome_iff_exists]
  constructor
  · rintro ⟨a, ha, rfl⟩
    obtain ⟨k, hk⟩ := mem_values.mp ha
    exact ⟨a, by rwa [h k a hk]⟩
  · rintro ⟨a, ha⟩
    exact ⟨a, mem_values.mpr ⟨k, ha⟩, h k a ha⟩

/-- The values of a map, in the order in which its keys are stored up to a permutation. -/
theorem values_perm_keys (o : MapOrder κ) (m : KeyedMap κ α) :
    (m.values o).Perm (m.keys.filterMap m.lookup) := by
  have hvalues : m.values o = (o.order m.keys).filterMap m.lookup := by
    rw [values, range, List.map_filterMap]
    refine List.filterMap_congr fun k _ => ?_
    cases m.lookup k <;> rfl
  rw [hvalues]
  exact (o.perm _).filterMap _

theorem values_perm (o o' : MapOrder κ) (m : KeyedMap κ α) : (m.values o).Perm (m.values o') :=
  (values_perm_keys o m).trans (values_perm_keys o' m).symm

/-- A new entry adds its value. -/
theorem values_insert_perm {o : MapOrder κ} {m : KeyedMap κ α} {k : κ} {a : α} (h : k ∉ m) :
    (values o (m.insert k a)).Perm (a :: m.values o) := by
  refine (values_perm_keys o _).trans (.trans ?_ ((values_perm_keys o m).symm.cons a))
  rw [AList.keys_insert, List.erase_of_not_mem (AList.mem_keys.not.mp h),
    List.filterMap_cons_some (by exact AList.lookup_insert m)]
  refine List.Perm.of_eq (congrArg (List.cons a) (List.filterMap_congr fun k' hk' => ?_))
  exact AList.lookup_insert_ne fun he => h (AList.mem_keys.mpr (he ▸ hk'))

/-- Taking out an entry takes out its value. -/
theorem values_erase_perm {o : MapOrder κ} {m : KeyedMap κ α} {k : κ} {a : α}
    (h : m.lookup k = some a) : (m.values o).Perm (a :: values o (m.erase k)) := by
  have hk : k ∈ m.keys := AList.mem_keys.mp (AList.lookup_isSome.mp (by simp [h]))
  refine (values_perm_keys o m).trans (.trans ?_ ((values_perm_keys o _).symm.cons a))
  refine ((List.perm_cons_erase hk).filterMap _).trans ?_
  rw [List.filterMap_cons_some (by exact h), AList.keys_erase]
  refine List.Perm.of_eq (congrArg (List.cons a) (List.filterMap_congr fun k' hk' => ?_))
  exact (AList.lookup_erase_ne (m.keys_nodup.mem_erase_iff.mp hk').1).symm

theorem filterMap_eq_toList {γ : Type} {k : κ} {f : α → γ} :
    ∀ {es : List (κ × α)} {x : Option α}, (es.map Prod.fst).Nodup →
      (∀ a, (k, a) ∈ es ↔ x = some a) →
      (es.filterMap fun e => if k = e.1 then some (f e.2) else none) = (x.map f).toList
  | [], x, _, hx => by
    have hnone : x = none := Option.eq_none_iff_forall_not_mem.mpr fun a ha =>
      List.not_mem_nil ((hx a).mpr ha)
    rw [hnone]
    rfl
  | (k', a) :: es, x, hnodup, hx => by
    obtain ⟨hhead, hnodup⟩ := List.nodup_cons.mp hnodup
    by_cases hk : k = k'
    · subst hk
      have hrest : (es.filterMap fun e => if k = e.1 then some (f e.2) else none) = [] :=
        List.filterMap_eq_nil_iff.mpr fun e he => if_neg (by
          rintro rfl
          exact hhead (List.mem_map.mpr ⟨e, he, rfl⟩))
      rw [List.filterMap_cons_some (by exact if_pos rfl), hrest,
        (hx a).mp List.mem_cons_self]
      rfl
    · rw [List.filterMap_cons_none (by exact if_neg hk)]
      refine filterMap_eq_toList hnodup fun b => ?_
      rw [← hx b, List.mem_cons, or_iff_right (by simp [hk])]

/-- What an iteration finds under a key. -/
theorem filterMap_range {γ : Type} {o : MapOrder κ} {m : KeyedMap κ α} {k : κ} {f : α → γ} :
    ((m.range o).filterMap fun e => if k = e.1 then some (f e.2) else none) =
      ((m.lookup k).map f).toList :=
  filterMap_eq_toList (nodup_map_fst_range o m) fun _ => mem_range

/-! ## Copying a map -/

theorem lookup_singleton {k k' : κ} {a : α} :
    (AList.singleton k a : KeyedMap κ α).lookup k' = if k' = k then some a else none := by
  split_ifs with h
  · subst h
    exact List.dlookup_cons_eq _ _ _
  · exact List.dlookup_cons_ne _ _ h

theorem lookup_foldl_insert_of_notMem {k : κ} : ∀ {es : List (κ × α)} {c : KeyedMap κ α},
    k ∉ es.map Prod.fst → (es.foldl (fun c e => c.insert e.1 e.2) c).lookup k = c.lookup k
  | [], _, _ => rfl
  | e :: es, c, h => by
    rw [List.map_cons, List.mem_cons, not_or] at h
    rw [List.foldl_cons, lookup_foldl_insert_of_notMem h.2, AList.lookup_insert_ne h.1]

theorem lookup_foldl_insert_of_mem {k : κ} {a : α} : ∀ {es : List (κ × α)} {c : KeyedMap κ α},
    (es.map Prod.fst).Nodup → (k, a) ∈ es →
    (es.foldl (fun c e => c.insert e.1 e.2) c).lookup k = some a
  | e :: es, c, hnodup, h => by
    obtain ⟨hhead, hnodup⟩ := List.nodup_cons.mp hnodup
    rcases List.mem_cons.mp h with rfl | h
    · rw [List.foldl_cons, lookup_foldl_insert_of_notMem hhead, AList.lookup_insert]
    · rw [List.foldl_cons, lookup_foldl_insert_of_mem hnodup h]

/-- Copying a map into another in any order : its entries take precedence. -/
theorem lookup_foldl_insert_range {o : MapOrder κ} {m c : KeyedMap κ α} {k : κ} :
    ((m.range o).foldl (fun c e => c.insert e.1 e.2) c).lookup k =
      (m.lookup k).or (c.lookup k) := by
  cases h : m.lookup k with
  | some a =>
    exact lookup_foldl_insert_of_mem (nodup_map_fst_range o m) (mem_range.mpr h)
  | none =>
    refine lookup_foldl_insert_of_notMem fun hk => ?_
    obtain ⟨⟨k, a⟩, ha, rfl⟩ := List.mem_map.mp hk
    rw [mem_range.mp ha] at h
    cases h

/-! ## Building a map -/

/-- The map of a list, keyed by `key`. The last element with a key is kept. -/
def collect (key : α → κ) (xs : List α) : KeyedMap κ α :=
  xs.foldl (fun m x => m.insert (key x) x) ∅

theorem lookup_collect_concat (key : α → κ) (xs : List α) (x : α) (k : κ) :
    (collect key (xs ++ [x])).lookup k =
      if k = key x then some x else (collect key xs).lookup k := by
  simp only [collect, List.foldl_append, List.foldl_cons, List.foldl_nil]
  split_ifs with h
  · subst h
    rw [AList.lookup_insert]
  · rw [AList.lookup_insert_ne h]

/-- What a map holds under a key is an element of the list with that key. -/
theorem of_lookup_collect {key : α → κ} {xs : List α} {k : κ} {x : α}
    (h : (collect key xs).lookup k = some x) : x ∈ xs ∧ key x = k := by
  induction xs using List.reverseRecOn with
  | nil => simp [collect] at h
  | append_singleton xs y ih =>
    rw [lookup_collect_concat] at h
    split_ifs at h with hk
    · obtain rfl := Option.some.inj h
      exact ⟨by simp, hk.symm⟩
    · exact ⟨by simp [(ih h).1], (ih h).2⟩

/-- A map holds the last element with a key. -/
theorem lookup_collect_eq_lastWith (key : α → κ) (xs : List α) (k : κ) :
    (collect key xs).lookup k = lastWith key xs k := by
  induction xs using List.reverseRecOn with
  | nil => rfl
  | append_singleton xs x ih =>
    rw [lookup_collect_concat, ih, lastWith, lastWith, List.reverse_concat, List.find?_cons]
    split_ifs with hk
    · simp [hk]
    · simp [Ne.symm hk]

theorem lookup_collect_eq_none {key : α → κ} {xs : List α} {k : κ} :
    (collect key xs).lookup k = none ↔ k ∉ xs.map key := by
  induction xs using List.reverseRecOn with
  | nil => simp [collect]
  | append_singleton xs y ih =>
    rw [lookup_collect_concat]
    split_ifs with hk
    · simp [hk]
    · rw [ih]
      simp [hk]

/-- With distinct keys the map holds exactly the list. -/
theorem lookup_collect {key : α → κ} {xs : List α} (hnodup : (xs.map key).Nodup) {k : κ} {x : α} :
    (collect key xs).lookup k = some x ↔ x ∈ xs ∧ key x = k := by
  refine ⟨of_lookup_collect, ?_⟩
  rintro ⟨hx, rfl⟩
  cases hl : (collect key xs).lookup (key x) with
  | none => exact absurd (List.mem_map_of_mem hx) (lookup_collect_eq_none.mp hl)
  | some y =>
    obtain ⟨hy, hkey⟩ := of_lookup_collect hl
    rw [List.inj_on_of_nodup_map hnodup hy hx hkey]

/-- Collecting decorated elements. -/
theorem lookup_collect_map (key : α → κ) (f : β → α) (xs : List β) (k : κ) :
    (collect key (xs.map f)).lookup k = ((collect (fun x => key (f x)) xs).lookup k).map f := by
  induction xs using List.reverseRecOn with
  | nil => simp [collect]
  | append_singleton xs x ih =>
    rw [List.map_append, List.map_singleton, lookup_collect_concat, lookup_collect_concat, ih]
    split_ifs <;> rfl

/-! ## The loop of a keyed merge -/

/-- What is left after a merge loop. -/
structure Consumed (κ α β : Type) where
  /-- The elements whose key was in the map, with the entry they took out. -/
  hits : List (β × α)
  /-- The elements whose key was not in the map. -/
  misses : List β
  /-- The map without the entries taken out. -/
  rest : KeyedMap κ α

/-- Take the entry of each element's key out of the map. -/
def consume (key : β → κ) : List β → KeyedMap κ α → Consumed κ α β
  | [], m => ⟨[], [], m⟩
  | x :: xs, m =>
    match m.lookup (key x) with
    | some a =>
      let c := consume key xs (m.erase (key x))
      { c with hits := (x, a) :: c.hits }
    | none =>
      let c := consume key xs m
      { c with misses := x :: c.misses }

section Consume

variable {key : β → κ}

theorem consume_cons_some {x : β} {xs : List β} {m : KeyedMap κ α} {a : α}
    (h : m.lookup (key x) = some a) :
    consume key (x :: xs) m =
      { consume key xs (m.erase (key x)) with
        hits := (x, a) :: (consume key xs (m.erase (key x))).hits } := by
  simp only [consume, h]

theorem consume_cons_none {x : β} {xs : List β} {m : KeyedMap κ α}
    (h : m.lookup (key x) = none) :
    consume key (x :: xs) m =
      { consume key xs m with misses := x :: (consume key xs m).misses } := by
  simp only [consume, h]

/-- The map loses exactly the keys of the list. -/
theorem lookup_rest (k : κ) : ∀ (xs : List β) (m : KeyedMap κ α),
    (consume key xs m).rest.lookup k = if k ∈ xs.map key then none else m.lookup k
  | [], m => by simp [consume]
  | x :: xs, m => by
    cases h : m.lookup (key x) with
    | some a =>
      rw [consume_cons_some h]
      simp only [lookup_rest k xs, List.map_cons, List.mem_cons]
      by_cases hk : k = key x
      · subst hk
        simp
      · simp [hk, AList.lookup_erase_ne hk]
    | none =>
      rw [consume_cons_none h]
      simp only [lookup_rest k xs, List.map_cons, List.mem_cons]
      by_cases hk : k = key x
      · subst hk
        simp [h]
      · simp [hk]

theorem misses_sublist : ∀ (xs : List β) (m : KeyedMap κ α),
    (consume key xs m).misses.Sublist xs
  | [], m => List.Sublist.refl []
  | x :: xs, m => by
    cases h : m.lookup (key x) with
    | some a =>
      rw [consume_cons_some h]
      exact (misses_sublist xs _).cons x
    | none =>
      rw [consume_cons_none h]
      exact (misses_sublist xs _).cons_cons x

theorem hits_sublist : ∀ (xs : List β) (m : KeyedMap κ α),
    ((consume key xs m).hits.map Prod.fst).Sublist xs
  | [], m => List.Sublist.refl []
  | x :: xs, m => by
    cases h : m.lookup (key x) with
    | some a =>
      rw [consume_cons_some h]
      exact (hits_sublist xs _).cons_cons x
    | none =>
      rw [consume_cons_none h]
      exact (hits_sublist xs _).cons x

/-- What is left of a map was in it. -/
theorem mem_of_mem_rest {o : MapOrder κ} {xs : List β} {ys : List α} {key' : α → κ} {a : α}
    (h : a ∈ (consume key xs (collect key' ys)).rest.values o) : a ∈ ys := by
  obtain ⟨k, hk⟩ := mem_values.mp h
  rw [lookup_rest] at hk
  split_ifs at hk
  exact (of_lookup_collect hk).1

/-- With distinct keys, taking out an entry does not affect the other elements. -/
theorem lookup_erase_of_mem {y : β} {ys : List β} (hnodup : ((y :: ys).map key).Nodup) {x : β}
    (hx : x ∈ ys) (m : KeyedMap κ α) : (m.erase (key y)).lookup (key x) = m.lookup (key x) :=
  AList.lookup_erase_ne fun he =>
    (List.nodup_cons.mp hnodup).1 (he ▸ List.mem_map_of_mem hx)

/-- With distinct keys an element misses if the map has no entry for it. -/
theorem misses_eq_filter : ∀ {xs : List β} (m : KeyedMap κ α), (xs.map key).Nodup →
    (consume key xs m).misses = xs.filter fun x => (m.lookup (key x)).isNone
  | [], m, _ => rfl
  | y :: ys, m, hnodup => by
    have hys : (ys.map key).Nodup := (List.nodup_cons.mp hnodup).2
    cases h : m.lookup (key y) with
    | some a =>
      rw [consume_cons_some h, List.filter_cons_of_neg (by simp [h])]
      refine (misses_eq_filter (m.erase (key y)) hys).trans (List.filter_congr fun x hx => ?_)
      rw [lookup_erase_of_mem hnodup hx]
    | none =>
      rw [consume_cons_none h, List.filter_cons_of_pos (by simp [h])]
      exact congrArg (List.cons y) (misses_eq_filter m hys)

/-- With distinct keys an element hits the entry the map has for it. -/
theorem hits_eq_filterMap : ∀ {xs : List β} (m : KeyedMap κ α), (xs.map key).Nodup →
    (consume key xs m).hits = xs.filterMap fun x => (m.lookup (key x)).map fun a => (x, a)
  | [], m, _ => rfl
  | y :: ys, m, hnodup => by
    have hys : (ys.map key).Nodup := (List.nodup_cons.mp hnodup).2
    cases h : m.lookup (key y) with
    | some a =>
      rw [consume_cons_some h, List.filterMap_cons_some (by rw [h]; rfl)]
      refine congrArg (List.cons (y, a)) ?_
      refine (hits_eq_filterMap (m.erase (key y)) hys).trans (List.filterMap_congr fun x hx => ?_)
      rw [lookup_erase_of_mem hnodup hx]
    | none =>
      rw [consume_cons_none h, List.filterMap_cons_none (by rw [h]; rfl)]
      exact hits_eq_filterMap m hys

/-- With distinct keys the hits are the elements with an entry, each with its own. -/
theorem mem_hits {xs : List β} {m : KeyedMap κ α} (hnodup : (xs.map key).Nodup) {x : β} {a : α} :
    (x, a) ∈ (consume key xs m).hits ↔ x ∈ xs ∧ m.lookup (key x) = some a := by
  rw [hits_eq_filterMap m hnodup, List.mem_filterMap]
  constructor
  · rintro ⟨y, hy, he⟩
    obtain ⟨b, hb, heq⟩ := Option.map_eq_some_iff.mp he
    obtain ⟨rfl, rfl⟩ := Prod.mk.inj heq
    exact ⟨hy, hb⟩
  · rintro ⟨hx, ha⟩
    exact ⟨x, hx, by rw [ha, Option.map_some]⟩

theorem map_fst_hits {xs : List β} (m : KeyedMap κ α) (hnodup : (xs.map key).Nodup) :
    (consume key xs m).hits.map Prod.fst = xs.filter fun x => (m.lookup (key x)).isSome := by
  rw [hits_eq_filterMap m hnodup, List.map_filterMap, ← List.filterMap_eq_filter]
  refine List.filterMap_congr fun x _ => ?_
  cases h : m.lookup (key x) <;> simp [Option.guard, h]

/-! ## Merging two lists -/

variable {key' : α → κ} {xs : List α} {ys : List β}

/-- What is left of the map of `xs` is the elements whose key is not in `ys`. -/
theorem mem_values_rest_collect {o : MapOrder κ} {x : α} (hxs : (xs.map key').Nodup) :
    x ∈ (consume key ys (collect key' xs)).rest.values o ↔ x ∈ xs ∧ key' x ∉ ys.map key := by
  rw [mem_values]
  constructor
  · rintro ⟨k, hk⟩
    rw [lookup_rest] at hk
    split_ifs at hk with hmem
    obtain ⟨hx, rfl⟩ := of_lookup_collect hk
    exact ⟨hx, hmem⟩
  · rintro ⟨hx, hmem⟩
    refine ⟨key' x, ?_⟩
    rw [lookup_rest, if_neg hmem]
    exact (lookup_collect hxs).mpr ⟨hx, rfl⟩

/-- The elements of `ys` that miss the map of `xs` are those whose key is not in `xs`. -/
theorem mem_misses_collect {y : β} (hys : (ys.map key).Nodup) :
    y ∈ (consume key ys (collect key' xs)).misses ↔ y ∈ ys ∧ key y ∉ xs.map key' := by
  rw [misses_eq_filter _ hys, List.mem_filter, Option.isNone_iff_eq_none, lookup_collect_eq_none]

/-- The elements of `ys` that hit the map of `xs` meet the element with their key. -/
theorem mem_hits_collect {x : α} {y : β} (hxs : (xs.map key').Nodup) (hys : (ys.map key).Nodup) :
    (y, x) ∈ (consume key ys (collect key' xs)).hits ↔ y ∈ ys ∧ x ∈ xs ∧ key' x = key y := by
  rw [mem_hits hys, lookup_collect hxs]

/-! ## Repeated keys -/

/-- Every element hits or misses. -/
theorem misses_append_hits_perm : ∀ (xs : List β) (m : KeyedMap κ α),
    ((consume key xs m).misses ++ (consume key xs m).hits.map Prod.fst).Perm xs
  | [], _ => .refl _
  | x :: xs, m => by
    cases h : m.lookup (key x) with
    | some a =>
      rw [consume_cons_some h, List.map_cons]
      exact List.perm_middle.trans ((misses_append_hits_perm xs _).cons x)
    | none =>
      rw [consume_cons_none h, List.cons_append]
      exact (misses_append_hits_perm xs m).cons x

/-- An entry is taken out by the first element with its key, and the others miss. -/
theorem count_misses (k : κ) : ∀ (xs : List β) (m : KeyedMap κ α),
    ((consume key xs m).misses.map key).count k =
      (xs.map key).count k - if k ∈ m then 1 else 0
  | [], _ => by simp [consume]
  | x :: xs, m => by
    cases h : m.lookup (key x) with
    | some a =>
      have hx : key x ∈ m := AList.lookup_isSome.mp (by rw [h]; rfl)
      rw [consume_cons_some h, count_misses k xs, List.map_cons, List.count_cons]
      simp only [AList.mem_erase]
      by_cases hk : key x = k
      · subst hk
        simp [hx]
      · simp [hk, Ne.symm hk]
    | none =>
      have hx : key x ∉ m := fun hx => by simpa [h] using AList.lookup_isSome.mpr hx
      rw [consume_cons_none h, List.map_cons, List.map_cons, List.count_cons, List.count_cons,
        count_misses k xs]
      by_cases hk : key x = k
      · subst hk
        simp [hx]
      · simp [hk]

/-- What a plan by keys should keep to : nothing that is present is added, no key is planned
twice, and nothing that is expected is removed. -/
structure Fresh (present expected adds updates removes : List κ) : Prop where
  not_present : ∀ k ∈ adds, k ∉ present
  nodup : (adds ++ updates).Nodup
  not_expected : ∀ k ∈ removes, k ∉ expected

/-- The plan of a keyed merge is fresh exactly if no expected key is repeated. -/
theorem fresh_iff {o : MapOrder κ} {updates : List κ}
    (hupdates : updates.Sublist
      ((consume key ys (collect key' xs)).hits.map fun h => key h.1)) :
    Fresh (xs.map key') (ys.map key) ((consume key ys (collect key' xs)).misses.map key) updates
      (((consume key ys (collect key' xs)).rest.values o).map key') ↔ (ys.map key).Nodup := by
  have hmem : ∀ {k}, k ∈ collect key' xs ↔ k ∈ xs.map key' := by
    intro k
    rw [← not_iff_not, ← lookup_collect_eq_none, AList.lookup_eq_none]
  constructor
  · intro h
    refine List.nodup_iff_count_le_one.mpr fun k => ?_
    have hcount : ((consume key ys (collect key' xs)).misses.map key).count k = _ :=
      count_misses k ys _
    split_ifs at hcount with hk
    · have hnone : ((consume key ys (collect key' xs)).misses.map key).count k = 0 :=
        List.count_eq_zero.mpr fun hadd => h.not_present k hadd (hmem.mp hk)
      omega
    · have hone := List.nodup_iff_count_le_one.mp (List.nodup_append.mp h.nodup).1 k
      omega
  · intro hnodup
    refine ⟨fun k hk => ?_, ?_, fun k hremoved hk => ?_⟩
    · obtain ⟨y, hy, rfl⟩ := List.mem_map.mp hk
      exact ((mem_misses_collect hnodup).mp hy).2
    · have hperm : ((consume key ys (collect key' xs)).misses ++
          (consume key ys (collect key' xs)).hits.map Prod.fst).Perm ys :=
        misses_append_hits_perm ys _
      have hkeys := (hperm.map key).nodup_iff.mpr hnodup
      rw [List.map_append, List.map_map] at hkeys
      exact hkeys.sublist ((List.Sublist.refl _).append hupdates)
    · obtain ⟨a, ha, rfl⟩ := List.mem_map.mp hremoved
      obtain ⟨k, hlookup⟩ := mem_values.mp ha
      rw [lookup_rest] at hlookup
      split_ifs at hlookup with hy
      exact hy ((of_lookup_collect hlookup).2 ▸ hk)

end Consume

end KeyedMap
