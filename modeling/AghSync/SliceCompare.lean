import AghSync.Blocks
import AghSync.Compare

/-!
# Comparing lists in any order

A comparison sorts both lists in place and goes through them side by side. Two sorted lists are
equal exactly if they are permutations of each other, so the answer does not depend on the order,
and what is left behind gives the same answer again (`equalsStringSlice_decides_perm`). The two
lists may be one in memory (`equalsStringSlicePtr_eq`).
-/

namespace AghSync

/-- A walk through two lists of one length finds every difference. -/
theorem zip_all_eq_iff : ∀ xs ys : List String,
    ((xs.length = ys.length && (xs.zip ys).all fun p => p.1 = p.2) = true) ↔ xs = ys
  | [], [] => by simp
  | [], _ :: _ => by simp
  | _ :: _, [] => by simp
  | x :: xs, y :: ys => by
    have ih := zip_all_eq_iff xs ys
    simp only [Bool.and_eq_true, decide_eq_true_eq] at ih
    simp only [List.length_cons, Nat.add_right_cancel_iff, List.zip_cons_cons, List.all_cons,
      Bool.and_eq_true, decide_eq_true_eq, List.cons.injEq, ← ih]
    exact and_left_comm

namespace Model

variable {a b : Option (List String)}

/-- Lists are equal if they are once they are sorted. -/
theorem equalsStringSlice_fst :
    (equalsStringSlice a b true).1 = true ↔ a.map sortStrings = b.map sortStrings := by
  cases a with
  | none => cases b <;> simp [equalsStringSlice]
  | some xs =>
    cases b with
    | none => simp [equalsStringSlice]
    | some ys =>
      rw [Option.map_some, Option.map_some, Option.some.injEq, ← zip_all_eq_iff]
      rfl

/-- A comparison leaves a list as it is or sorts it. -/
theorem equalsStringSlice_snd (a b : Option (List String)) :
    ((equalsStringSlice a b true).2.1 = a ∨
      (equalsStringSlice a b true).2.1 = a.map sortStrings) ∧
    ((equalsStringSlice a b true).2.2 = b ∨
      (equalsStringSlice a b true).2.2 = b.map sortStrings) := by
  cases a <;> cases b <;> simp [equalsStringSlice]

theorem map_sortStrings_idem : (a.map sortStrings).map sortStrings = a.map sortStrings := by
  cases a <;> simp

/-- What is left of the lists has the same sorted lists. -/
theorem map_sortStrings_equalsStringSlice (a b : Option (List String)) :
    (equalsStringSlice a b true).2.1.map sortStrings = a.map sortStrings ∧
      (equalsStringSlice a b true).2.2.map sortStrings = b.map sortStrings := by
  obtain ⟨ha, hb⟩ := equalsStringSlice_snd a b
  constructor
  · rcases ha with ha | ha
    · rw [ha]
    · rw [ha, map_sortStrings_idem]
  · rcases hb with hb | hb
    · rw [hb]
    · rw [hb, map_sortStrings_idem]

/-! ## In memory -/

section Memory

variable {F : Type} [DecidableEq F]

/-- `EqualsStringSlice` of two pointers, with the memory afterwards. -/
def equalsStringSlicePtr (a b : Option (ℕ × F)) (sortIt : Bool) (mem : Blocks F (List String)) :
    Bool × Blocks F (List String) :=
  match a, b with
  | none, none => (true, mem)
  | some a, some b =>
    let mem := if sortIt then (mem.update a sortStrings).update b sortStrings else mem
    let aa := mem.cells a
    let bb := mem.cells b
    (aa.length = bb.length && (aa.zip bb).all fun p => p.1 = p.2, mem)
  | _, _ => (false, mem)

/-- In memory two lists are compared as they are by value, also if they are one. -/
theorem equalsStringSlicePtr_eq (a b : Option (ℕ × F)) (mem : Blocks F (List String)) :
    let r := equalsStringSlicePtr a b true mem
    (r.1, a.map r.2.cells, b.map r.2.cells) =
      equalsStringSlice (a.map mem.cells) (b.map mem.cells) true := by
  cases a with
  | none => cases b <;> rfl
  | some a =>
    cases b with
    | none => rfl
    | some b =>
      by_cases hab : a = b
      · subst hab
        simp [equalsStringSlicePtr, equalsStringSlice, Blocks.update]
      · simp [equalsStringSlicePtr, equalsStringSlice, Blocks.update, hab, Ne.symm hab]

end Memory

/-! ## Access lists -/

namespace AccessList

/-- The lists, sorted. -/
def sort (al : AccessList) : AccessList where
  allowedClients := al.allowedClients.map sortStrings
  disallowedClients := al.disallowedClients.map sortStrings
  blockedHosts := al.blockedHosts.map sortStrings

theorem equals_fst (al o : AccessList) : (al.equals o).1 =
    ((equalsStringSlice al.allowedClients o.allowedClients true).1 &&
      (equalsStringSlice al.disallowedClients o.disallowedClients true).1 &&
      (equalsStringSlice al.blockedHosts o.blockedHosts true).1) := by
  simp only [equals]
  split_ifs with hallowed hdisallowed
  · simp_all
  · simp_all
  · simp_all

/-- Access lists are equal if they are once they are sorted. -/
theorem equals_iff {al o : AccessList} : (al.equals o).1 = true ↔ al.sort = o.sort := by
  rw [equals_fst, Bool.and_eq_true, Bool.and_eq_true, equalsStringSlice_fst,
    equalsStringSlice_fst, equalsStringSlice_fst, sort, sort, mk.injEq, and_assoc]
  exact and_congr_right fun _ => and_comm

/-- A comparison leaves lists with the same entries. -/
theorem sort_equals (al o : AccessList) :
    (al.equals o).2.1.sort = al.sort ∧ (al.equals o).2.2.sort = o.sort := by
  have hslice := fun f : AccessList → Option (List String) =>
    map_sortStrings_equalsStringSlice (f al) (f o)
  simp only [equals]
  split_ifs
  · simp [sort, hslice allowedClients]
  · simp [sort, hslice allowedClients, hslice disallowedClients]
  · simp [sort, hslice allowedClients, hslice disallowedClients, hslice blockedHosts]

end AccessList

/-- A comparison of lists decides whether one is a permutation of the other, and permutes both.
So the comparison of access lists is an equivalence, and comparing again gives the same answer. -/
theorem equalsStringSlice_decides_perm :
    (∀ a b : Option (List String),
      ((equalsStringSlice a b true).1 = true ↔ Option.Rel List.Perm a b) ∧
      Option.Rel List.Perm (equalsStringSlice a b true).2.1 a ∧
      Option.Rel List.Perm (equalsStringSlice a b true).2.2 b) ∧
    Equivalence (fun al o : AccessList => (al.equals o).1 = true) ∧
    ∀ al o : AccessList, ((al.equals o).2.1.equals (al.equals o).2.2).1 = (al.equals o).1 := by
  refine ⟨fun a b => ⟨?_, ?_, ?_⟩, ?_, fun al o => ?_⟩
  · exact equalsStringSlice_fst.trans map_sortStrings_inj
  · exact map_sortStrings_inj.mp (map_sortStrings_equalsStringSlice a b).1
  · exact map_sortStrings_inj.mp (map_sortStrings_equalsStringSlice a b).2
  · simp only [AccessList.equals_iff]
    exact eq_equivalence.comap AccessList.sort
  · rw [Bool.eq_iff_iff, AccessList.equals_iff, AccessList.equals_iff,
      (AccessList.sort_equals al o).1, (AccessList.sort_equals al o).2]

end Model

end AghSync
