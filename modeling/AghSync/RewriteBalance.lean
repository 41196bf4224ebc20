import AghSync.RewriteSync
import Mathlib.Data.Finset.Card
import Mathlib.Data.Multiset.Dedup

/-!
# The balance of the rewrite merge

What becomes of every entry of the two lists the merge is given. `Balanced` is the
invariant of the loop over the origin's list : each entry seen so far is added, skipped as a
duplicate, or matched with an entry of the replica that is kept, and the entries of the
replica are kept, removed or not matched yet. The kept entries and the matched ones are
paired by their keys.
-/

namespace AghSync.Model

open RewriteEntry

namespace RewriteMerge

/-- The loop over the entries of the replica splits them into kept and removed ones. -/
theorem perm_this (l : List RewriteEntry) :
    l.Perm ((l.foldl this {}).current.values .stored ++ (l.foldl this {}).removes) := by
  induction l using List.reverseRecOn with
  | nil => simp
  | append_singleton l e ih =>
    rw [List.foldl_append]
    set m := l.foldl this {}
    show (l ++ [e]).Perm ((m.this e).current.values .stored ++ (m.this e).removes)
    have hl : Listed l m := listed_foldl l
    unfold this
    split_ifs with hp
    · show (l ++ [e]).Perm (m.current.values .stored ++ (m.removes ++ [e]))
      rw [← List.append_assoc]
      exact ih.append_right [e]
    · have hcurrent : e.key ∉ m.current := by rwa [hl.current, ← hl.processed]
      refine (List.perm_append_singleton e l).trans ((ih.cons e).trans ?_)
      exact (KeyedMap.values_insert_perm hcurrent).symm.append_right _

/-- After the loop over the entries `os` of the origin, from the kept entries `rest` of the
replica : `matched` are the entries of `os` that took out the entries `kept` of `rest`. -/
structure Balanced (rest os kept matched : List RewriteEntry) (m : RewriteMerge) : Prop where
  left : rest.Perm (kept ++ m.current.values .stored)
  accounted : os.Perm (m.adds ++ m.duplicates ++ matched)
  paired : matched.map key = kept.map key
  adds : (m.adds.map key).Nodup

section Other

variable {l rest os kept matched removes : List RewriteEntry} {m : RewriteMerge}

/-- An entry of the origin is accounted for in one of three ways. -/
theorem balanced_other (hm : Matched l os removes m) (h : Balanced rest os kept matched m)
    (e : RewriteEntry) :
    ∃ kept matched, Balanced rest (os ++ [e]) kept matched (m.other e) := by
  have hcons : (os ++ [e]).Perm (e :: (m.adds ++ m.duplicates ++ matched)) :=
    (List.perm_append_singleton e os).trans (h.accounted.cons e)
  unfold other
  split_ifs with hc hp
  · obtain ⟨x, hx⟩ := Option.isSome_iff_exists.mp (AList.lookup_isSome.mpr hc)
    refine ⟨x :: kept, e :: matched, ?_, ?_, ?_, h.adds⟩
    · refine h.left.trans (.trans ?_ List.perm_middle)
      exact (KeyedMap.values_erase_perm hx).append_left kept
    · exact hcons.trans List.perm_middle.symm
    · rw [List.map_cons, List.map_cons, h.paired, (hm.kept _ x hx).2]
  · refine ⟨kept, matched, h.left, ?_, h.paired, h.adds⟩
    show (os ++ [e]).Perm (m.adds ++ (m.duplicates ++ [e]) ++ matched)
    rw [← List.append_assoc, List.append_assoc _ [e]]
    exact hcons.trans List.perm_middle.symm
  · refine ⟨kept, matched, h.left, ?_, h.paired, ?_⟩
    · show (os ++ [e]).Perm (m.adds ++ [e] ++ m.duplicates ++ matched)
      rw [List.append_assoc, List.append_assoc, List.singleton_append]
      rw [List.append_assoc] at hcons
      exact hcons.trans List.perm_middle.symm
    · have hnew : e.key ∉ m.adds.map key := fun hadd =>
        hp ((hm.processed _).mpr (Or.inr ((hm.adds _).mp hadd).1))
      rw [List.map_append, List.map_singleton, ← List.concat_eq_append]
      exact List.Nodup.concat hnew h.adds

theorem balanced_foldl {m₀ : RewriteMerge} (hl : Listed l m₀) (hdup : m₀.duplicates = [])
    (os : List RewriteEntry) :
    ∃ kept matched, Balanced (m₀.current.values .stored) os kept matched (os.foldl other m₀) := by
  induction os using List.reverseRecOn with
  | nil => exact ⟨[], [], by simp, by simp [hl.adds, hdup], rfl, by simp [hl.adds]⟩
  | append_singleton os e ih =>
    obtain ⟨kept, matched, h⟩ := ih
    rw [List.foldl_append]
    exact balanced_other (matched_foldl hl os) h e

end Other

/-- The loop over the replica's entries skips no duplicate. -/
theorem duplicates_this (l : List RewriteEntry) : (l.foldl this {}).duplicates = [] := by
  induction l using List.reverseRecOn with
  | nil => rfl
  | append_singleton l e ih =>
    rw [List.foldl_append]
    show (RewriteMerge.this _ e).duplicates = []
    unfold this
    split_ifs <;> exact ih

end RewriteMerge

/-- How a merge accounts for the entries of both lists : `kept` are the entries of the
replica that stay, `matched` the entries of the origin they stay for. -/
structure RewriteMerge.Conserved (r o kept matched : List RewriteEntry) (m : RewriteMerge) :
    Prop where
  replica : r.Perm (kept ++ m.removes)
  origin : o.Perm (m.adds ++ m.duplicates ++ matched)
  paired : matched.map key = kept.map key
  kept_nodup : (kept.map key).Nodup
  mem_kept : ∀ k, k ∈ kept.map key ↔ k ∈ r.map key ∧ k ∈ o.map key
  adds_nodup : (m.adds.map key).Nodup
  mem_adds : ∀ k, k ∈ m.adds.map key ↔ k ∈ o.map key ∧ k ∉ r.map key

/-- Every merge accounts for all entries. -/
theorem mergeRewrites_conserved (r o : List RewriteEntry) (order : MapOrder String) :
    ∃ kept matched, RewriteMerge.Conserved r o kept matched (mergeRewrites r o order) := by
  have hl := RewriteMerge.listed_foldl r
  have hm := RewriteMerge.matched_foldl hl o
  obtain ⟨kept, matched, hb⟩ :=
    RewriteMerge.balanced_foldl hl (RewriteMerge.duplicates_this r) o
  set m₀ := r.foldl RewriteMerge.this {}
  set m := o.foldl RewriteMerge.other m₀
  have hkey₀ : ∀ k e, m₀.current.lookup k = some e → e.key = k := fun k e he => (hl.kept k e he).2
  have hkey : ∀ k e, m.current.lookup k = some e → e.key = k := fun k e he => (hm.kept k e he).2
  -- The keys of the replica, each once, are those of the kept entries and those left over.
  have hsplit := hb.left.map key
  rw [List.map_append] at hsplit
  have hnodup := hsplit.nodup_iff.mp (KeyedMap.nodup_map_values hkey₀)
  obtain ⟨hkept, -, hdisjoint⟩ := List.nodup_append'.mp hnodup
  have hall : ∀ k, k ∈ r.map key ↔ k ∈ kept.map key ∨ k ∈ m.current := by
    intro k
    rw [← hl.current, ← KeyedMap.mem_map_values hkey₀, hsplit.mem_iff, List.mem_append,
      KeyedMap.mem_map_values hkey]
  refine ⟨kept, matched, ?_, hb.accounted, hb.paired, hkept, fun k => ?_, hb.adds, hm.adds⟩
  · have hremoves : (mergeRewrites r o order).removes =
        m₀.removes ++ m.current.values order := by
      rw [mergeRewrites, hm.removes]
    rw [hremoves]
    refine (RewriteMerge.perm_this r).trans ((hb.left.append_right _).trans ?_)
    rw [List.append_assoc]
    refine List.Perm.append_left kept (List.perm_append_comm.trans ?_)
    exact .append_left _ (KeyedMap.values_perm _ _ _)
  · constructor
    · intro hk
      refine ⟨(hall k).mpr (Or.inl hk), ?_⟩
      by_contra ho
      have hcurrent := (hm.current k).mpr ⟨(hall k).mpr (Or.inl hk), ho⟩
      exact hdisjoint hk ((KeyedMap.mem_map_values hkey).mpr hcurrent)
    · rintro ⟨hr, ho⟩
      exact ((hall k).mp hr).resolve_right fun hcurrent => ((hm.current k).mp hcurrent).2 ho

/-- Merging conserves the entries, which are told apart by their keys. What is added are the
keys of the origin that the replica does not have. The keys of the replica without what is
removed and with what is added are those of the origin, each once. Every entry of the origin
is added, skipped, or matched with exactly one entry of the replica that is kept. -/
theorem mergeRewrites_balance (r o : List RewriteEntry) (order : MapOrder String) :
    let m := mergeRewrites r o order
    ((m.adds.map key).Nodup ∧ ∀ k, k ∈ m.adds.map key ↔ k ∈ o.map key ∧ k ∉ r.map key) ∧
    (↑(r.map key) - ↑(m.removes.map key) + ↑(m.adds.map key) : Multiset String) =
      Multiset.dedup ↑(o.map key) ∧
    (∃ kept matched, r.Perm (kept ++ m.removes) ∧ o.Perm (m.adds ++ m.duplicates ++ matched) ∧
      matched.map key = kept.map key ∧ (kept.map key).Nodup ∧
      ∀ k, k ∈ kept.map key ↔ k ∈ r.map key ∧ k ∈ o.map key) ∧
    o.length = m.adds.length + m.duplicates.length +
      ((r.map key).toFinset ∩ (o.map key).toFinset).card := by
  intro m
  obtain ⟨kept, matched, h⟩ := mergeRewrites_conserved r o order
  have hkeys : (r.map key).Perm (kept.map key ++ m.removes.map key) := by
    rw [← List.map_append]
    exact h.replica.map key
  refine ⟨⟨h.adds_nodup, h.mem_adds⟩, ?_, ⟨kept, matched, h.replica, h.origin, h.paired,
    h.kept_nodup, h.mem_kept⟩, ?_⟩
  · rw [Multiset.coe_eq_coe.mpr hkeys, ← Multiset.coe_add, Multiset.add_sub_cancel_right,
      Multiset.coe_add, Multiset.coe_dedup, Multiset.coe_eq_coe]
    have hnodup : (kept.map key ++ m.adds.map key).Nodup := by
      refine List.nodup_append'.mpr ⟨h.kept_nodup, h.adds_nodup, fun k hk hadd => ?_⟩
      exact ((h.mem_adds k).mp hadd).2 ((h.mem_kept k).mp hk).1
    refine (List.perm_ext_iff_of_nodup hnodup (List.nodup_dedup _)).mpr fun k => ?_
    rw [List.mem_append, h.mem_kept, h.mem_adds, List.mem_dedup]
    tauto
  · have hcard : ((r.map key).toFinset ∩ (o.map key).toFinset).card = matched.length := by
      have hset : (r.map key).toFinset ∩ (o.map key).toFinset = (kept.map key).toFinset := by
        ext k
        rw [Finset.mem_inter, List.mem_toFinset, List.mem_toFinset, List.mem_toFinset, h.mem_kept]
      rw [hset, List.toFinset_card_of_nodup h.kept_nodup, ← h.paired, List.length_map]
    rw [hcard, h.origin.length_eq, List.length_append, List.length_append]

end AghSync.Model
