import Mathlib.Data.List.Pairwise
import Mathlib.Logic.Function.Basic
import Mathlib.Tactic.Cases
import Mathlib.Tactic.Tauto

/-!
# Handing over in steps

A family `f` of holdings is turned into a family `g` one key after the other. A step gives a
key its new holding, and goes wrong if that clashes with what another key holds at the time.
The holdings of `g` do not clash with each other, but a step can clash with a key that still
has its old holding. So it all depends on the order : no step goes wrong exactly if no new
holding clashes with the old one of a later key, or of a key that never changes
(`assignable_iff`).
-/

namespace Handover

variable {κ α : Type} [DecidableEq κ] {Clash : α → α → Prop} {f g : κ → α}

/-- `a` can be given to `k` while the others have what `f` says. -/
def Free (Clash : α → α → Prop) (f : κ → α) (k : κ) (a : α) : Prop :=
  ∀ k', k' ≠ k → ¬Clash a (f k')

/-- The holdings after the steps `as`. -/
def assign (f : κ → α) (as : List (κ × α)) : κ → α :=
  as.foldl (fun f a => Function.update f a.1 a.2) f

/-- No step of `as` goes wrong. -/
def Assignable (Clash : α → α → Prop) : (κ → α) → List (κ × α) → Prop
  | _, [] => True
  | f, a :: as => Free Clash f a.1 a.2 ∧ Assignable Clash (Function.update f a.1 a.2) as

/-- The steps that give each of `ks` what `g` says. -/
def steps (g : κ → α) (ks : List κ) : List (κ × α) :=
  ks.map fun k => (k, g k)

@[simp] theorem assign_steps (k : κ) : ∀ (ks : List κ) (f : κ → α),
    assign f (steps g ks) k = if k ∈ ks then g k else f k
  | [], f => by simp [assign, steps]
  | k' :: ks, f => by
    have ih := assign_steps k ks (Function.update f k' (g k'))
    refine ih.trans ?_
    by_cases hk : k = k'
    · subst hk
      simp
    · simp [hk]

/-- No step goes wrong exactly if no new holding clashes with an old one that is still
there. -/
theorem assignable_iff (hg : ∀ u v, u ≠ v → ¬Clash (g u) (g v)) :
    ∀ {ks : List κ} {f : κ → α}, ks.Nodup → (Assignable Clash f (steps g ks) ↔
      ks.Pairwise (fun u v => ¬Clash (g u) (f v)) ∧ ∀ u ∈ ks, ∀ v, v ∉ ks → ¬Clash (g u) (f v))
  | [], f, _ => by simp [Assignable, steps]
  | k :: ks, f, hks => by
    obtain ⟨hk, hks⟩ := List.nodup_cons.mp hks
    have hother : ∀ {v}, v ≠ k → Function.update f k (g k) v = f v := fun hv =>
      Function.update_of_ne hv _ _
    have hpairwise : ks.Pairwise (fun u v => ¬Clash (g u) (Function.update f k (g k) v)) ↔
        ks.Pairwise fun u v => ¬Clash (g u) (f v) := by
      refine List.Pairwise.iff_of_mem fun hu hv => ?_
      rw [hother fun he => hk (he ▸ hv)]
    have hrest : (∀ u ∈ ks, ∀ v, v ∉ ks → ¬Clash (g u) (Function.update f k (g k) v)) ↔
        ∀ u ∈ ks, ∀ v, v ∉ k :: ks → ¬Clash (g u) (f v) := by
      refine forall₂_congr fun u hu => ⟨fun h v hv => ?_, fun h v hv => ?_⟩
      · obtain ⟨hne, hv⟩ := not_or.mp (List.mem_cons.not.mp hv)
        rw [← hother hne]
        exact h v hv
      · by_cases hne : v = k
        · subst hne
          rw [Function.update_self]
          exact hg u v fun he => hk (he ▸ hu)
        · rw [hother hne]
          exact h v (by simp [hne, hv])
    have hfree : Free Clash f k (g k) ↔
        (∀ v ∈ ks, ¬Clash (g k) (f v)) ∧ ∀ v, v ∉ k :: ks → ¬Clash (g k) (f v) := by
      constructor
      · exact fun h => ⟨fun v hv => h v fun he => hk (he ▸ hv), fun v hv =>
          h v (not_or.mp (List.mem_cons.not.mp hv)).1⟩
      · rintro ⟨hin, hout⟩ v hne
        by_cases hv : v ∈ ks
        · exact hin v hv
        · exact hout v (by simp [hne, hv])
    have ih := (assignable_iff hg hks).trans (and_congr hpairwise hrest)
    have hsteps : Assignable Clash f (steps g (k :: ks)) ↔
        Free Clash f k (g k) ∧ Assignable Clash (Function.update f k (g k)) (steps g ks) := Iff.rfl
    rw [hsteps, ih, hfree, List.pairwise_cons, List.forall_mem_cons]
    tauto

/-- What holds between the elements of a part, and between any others, holds between all. -/
theorem pairwise_of_sublist {P : κ → κ → Prop} {us cs : List κ} (hsub : us.Sublist cs) :
    cs.Nodup → us.Pairwise P → (∀ u ∈ cs, ∀ v ∈ cs, u ≠ v → u ∉ us ∨ v ∉ us → P u v) →
      cs.Pairwise P := by
  induction hsub with
  | slnil => exact fun _ _ _ => .nil
  | @cons us cs a hsub ih =>
    intro hcs hus hothers
    obtain ⟨ha, hcs⟩ := List.nodup_cons.mp hcs
    refine List.pairwise_cons.mpr ⟨fun b hb => ?_, ih hcs hus fun u hu v hv => ?_⟩
    · exact hothers a (by simp) b (by simp [hb]) (fun he => ha (he ▸ hb))
        (Or.inl fun hmem => ha (hsub.subset hmem))
    · exact hothers u (by simp [hu]) v (by simp [hv])
  | @cons_cons us cs a hsub ih =>
    intro hcs hus hothers
    obtain ⟨ha, hcs⟩ := List.nodup_cons.mp hcs
    obtain ⟨hau, hus⟩ := List.pairwise_cons.mp hus
    have hnot : ∀ {u}, u ∈ cs → u ∉ us → u ∉ a :: us := fun hu hn hmem =>
      (List.mem_cons.mp hmem).elim (fun he => ha (he ▸ hu)) hn
    refine List.pairwise_cons.mpr ⟨fun b hb => ?_, ih hcs hus fun u hu v hv hne hn => ?_⟩
    · by_cases hbu : b ∈ us
      · exact hau b hbu
      · exact hothers a (by simp) b (by simp [hb]) (fun he => ha (he ▸ hb)) (Or.inr (hnot hb hbu))
    · exact hothers u (by simp [hu]) v (by simp [hv]) hne (hn.imp (hnot hu) (hnot hv))

/-- Keys that get something that never clashes come first, and keys whose holding does not
change are left out. Then it is about the new keys `as` and the kept ones `cs`, in order. -/
theorem assignable_iff_pairwise (hf : ∀ u v, u ≠ v → ¬Clash (f u) (f v))
    (hg : ∀ u v, u ≠ v → ¬Clash (g u) (g v)) {ds as cs us : List κ}
    (hds : ∀ k ∈ ds, ∀ a, ¬Clash (g k) a) (hus : us.Sublist cs)
    (hsame : ∀ k ∈ cs, k ∉ us → f k = g k)
    (hrest : ∀ k, k ∉ ds → k ∉ cs → ∀ a, ¬Clash a (f k)) (hks : (ds ++ (as ++ cs)).Nodup) :
    Assignable Clash f (steps g (ds ++ (as ++ us))) ↔
      (as ++ cs).Pairwise fun u v => ¬Clash (g u) (f v) := by
  have hsub : (as ++ us).Sublist (as ++ cs) := (List.Sublist.refl as).append hus
  -- A holding that does not change clashes with no other one.
  have hkept : ∀ u v, u ≠ v → v ∈ cs → v ∉ us → ¬Clash (g u) (f v) := by
    intro u v hne hv hv'
    rw [hsame v hv hv']
    exact hg u v hne
  rw [assignable_iff hg (hks.sublist ((List.Sublist.refl ds).append hsub))]
  constructor
  · rintro ⟨hpairwise, -⟩
    obtain ⟨has, hus', hcross⟩ := List.pairwise_append.mp (List.pairwise_append.mp hpairwise).2.1
    obtain ⟨-, hcs, hdisjoint⟩ := List.nodup_append.mp (List.nodup_append.mp hks).2.1
    refine List.pairwise_append.mpr ⟨has, ?_, fun u hu v hv => ?_⟩
    · refine pairwise_of_sublist hus hcs hus' fun u hu v hv hne hn => ?_
      rcases hn with hn | hn
      · rw [← hsame u hu hn]
        exact hf u v hne
      · exact hkept u v hne hv hn
    · by_cases hv' : v ∈ us
      · exact hcross u hu v hv'
      · exact hkept u v (hdisjoint u hu v hv) hv hv'
  · intro hpairwise
    refine ⟨List.pairwise_append.mpr ⟨?_, hpairwise.sublist hsub, fun u hu v _ => hds u hu _⟩, ?_⟩
    · exact List.pairwise_of_forall_mem_list fun u hu v _ => hds u hu _
    · intro u hu v hv
      simp only [List.mem_append, not_or] at hv
      by_cases hcs : v ∈ cs
      · refine hkept u v (fun he => ?_) hcs hv.2.2
        subst he
        simp [hv] at hu
      · exact hrest v hv.1 hcs _

end Handover
