import AghSync.Server

/-!
# Rewrites

What `actionDNSRewrites` makes of a replica whose calls all succeed. `Listed` and `Matched`
are the invariants of the two loops of the merge. The merge removes every copy but the first
of an entry the replica has several times, and one removal deletes all copies there, so an
entry that both sides have is lost exactly when the replica has it more than once.

The merge works on keys, which join a domain and an answer by `#`. Without a `#` in the
domains the keys tell the same entries apart as the pairs (`mem_map_key_iff`).
-/

open Interaction

namespace AghSync

open Model

/-! ## Keys and pairs -/

namespace Model.RewriteEntry

/-- The domain has no `#`. -/
def Plain (e : RewriteEntry) : Prop :=
  '#' ∉ (e.domain.getD "").toList

instance (e : RewriteEntry) : Decidable e.Plain :=
  inferInstanceAs (Decidable ('#' ∉ (e.domain.getD "").toList))

/-- Strings that are joined by a separator the first part does not have. -/
theorem append_separator_inj {c : Char} : ∀ {d₁ d₂ a₁ a₂ : List Char}, c ∉ d₁ → c ∉ d₂ →
    d₁ ++ c :: a₁ = d₂ ++ c :: a₂ → d₁ = d₂ ∧ a₁ = a₂
  | [], [], _, _, _, _, h => ⟨rfl, (List.cons.inj h).2⟩
  | [], x :: _, _, _, _, h₂, h => absurd (by simp [(List.cons.inj h).1]) h₂
  | x :: _, [], _, _, h₁, _, h => absurd (by simp [← (List.cons.inj h).1]) h₁
  | x :: d₁, y :: d₂, _, _, h₁, h₂, h => by
    obtain ⟨hx, hrest⟩ := List.cons.inj h
    obtain ⟨hd, ha⟩ := append_separator_inj (fun hm => h₁ (List.mem_cons_of_mem _ hm))
      (fun hm => h₂ (List.mem_cons_of_mem _ hm)) hrest
    exact ⟨by rw [hx, hd], ha⟩

/-- Plain entries have the same key if and only if they are the same pair. -/
theorem key_eq_iff {e₁ e₂ : RewriteEntry} (h₁ : e₁.Plain) (h₂ : e₂.Plain) :
    e₁.key = e₂.key ↔ e₁.pair = e₂.pair := by
  constructor
  · intro h
    have hlist : (e₁.domain.getD "").toList ++ '#' :: (e₁.answer.getD "").toList =
        (e₂.domain.getD "").toList ++ '#' :: (e₂.answer.getD "").toList := by
      simpa [key] using congrArg String.toList h
    obtain ⟨hd, ha⟩ := append_separator_inj h₁ h₂ hlist
    exact Prod.ext (String.toList_inj.mp hd) (String.toList_inj.mp ha)
  · intro h
    obtain ⟨hd, ha⟩ := Prod.mk.inj h
    rw [key, key, hd, ha]

theorem mem_map_key_iff {e : RewriteEntry} {l : List RewriteEntry} (he : e.Plain)
    (hl : ∀ x ∈ l, x.Plain) : e.key ∈ l.map key ↔ e.pair ∈ l.map pair := by
  simp only [List.mem_map]
  constructor
  · rintro ⟨x, hx, h⟩
    exact ⟨x, hx, (key_eq_iff (hl x hx) he).mp h⟩
  · rintro ⟨x, hx, h⟩
    exact ⟨x, hx, (key_eq_iff (hl x hx) he).mpr h⟩

theorem count_key {e : RewriteEntry} (he : e.Plain) : ∀ {l : List RewriteEntry},
    (∀ x ∈ l, x.Plain) → (l.map key).count e.key = (l.map pair).count e.pair
  | [], _ => rfl
  | x :: l, hl => by
    have hx : (x.key == e.key) = (x.pair == e.pair) := by
      rw [Bool.eq_iff_iff, beq_iff_eq, beq_iff_eq]
      exact key_eq_iff (hl x (by simp)) he
    rw [List.map_cons, List.map_cons, List.count_cons, List.count_cons, hx,
      count_key he fun y hy => hl y (by simp [hy])]

end Model.RewriteEntry

/-! ## The merge -/

namespace Model.RewriteMerge

/-- After the loop over the entries `l` of the replica : each key is kept once, and removed
if it came more than once. -/
structure Listed (l : List RewriteEntry) (m : RewriteMerge) : Prop where
  processed : ∀ k, k ∈ m.processed ↔ k ∈ l.map RewriteEntry.key
  current : ∀ k, k ∈ m.current ↔ k ∈ l.map RewriteEntry.key
  kept : ∀ k e, m.current.lookup k = some e → e ∈ l ∧ e.key = k
  removes : ∀ k, k ∈ m.removes.map RewriteEntry.key ↔ 2 ≤ (l.map RewriteEntry.key).count k
  removed : ∀ e ∈ m.removes, e ∈ l
  adds : m.adds = []

/-- An entry whose key has come before is removed. -/
theorem listed_this_of_processed {l : List RewriteEntry} {m : RewriteMerge} (h : Listed l m)
    {e : RewriteEntry} (he : e.key ∈ m.processed) : Listed (l ++ [e]) (m.this e) := by
  have hmem : e.key ∈ l.map RewriteEntry.key := (h.processed _).mp he
  have hcount : 1 ≤ (l.map RewriteEntry.key).count e.key := List.one_le_count_iff.mpr hmem
  rw [this, if_neg (not_not.mpr he)]
  refine ⟨fun k => ?_, fun k => ?_, fun k x hx => ?_, fun k => ?_, fun x hx => ?_, h.adds⟩
  · rw [h.processed]
    by_cases hk : k = e.key <;> simp_all
  · rw [h.current]
    by_cases hk : k = e.key <;> simp_all
  · exact ⟨by simp [(h.kept k x hx).1], (h.kept k x hx).2⟩
  · rw [List.map_append, List.mem_append, h.removes, List.map_append, List.count_append]
    by_cases hk : k = e.key
    · subst hk
      have hone : [e.key].count e.key = 1 := by simp
      simp only [List.map_cons, List.map_nil, List.mem_singleton, or_true, true_iff, hone]
      omega
    · simp [hk, Ne.symm hk]
  · rcases List.mem_append.mp hx with hx | hx
    · simp [h.removed x hx]
    · simpa using Or.inr (List.mem_singleton.mp hx)

/-- An entry with a new key is kept. -/
theorem listed_this_of_new {l : List RewriteEntry} {m : RewriteMerge} (h : Listed l m)
    {e : RewriteEntry} (he : e.key ∉ m.processed) : Listed (l ++ [e]) (m.this e) := by
  have hmem : e.key ∉ l.map RewriteEntry.key := fun hm => he ((h.processed _).mpr hm)
  have hcount : (l.map RewriteEntry.key).count e.key = 0 := List.count_eq_zero.mpr hmem
  rw [this, if_pos he]
  refine ⟨fun k => ?_, fun k => ?_, fun k x hx => ?_, fun k => ?_, fun x hx => ?_, h.adds⟩
  · simp only [AList.mem_insert, h.processed, List.map_append, List.mem_append]
    simp [or_comm]
  · simp only [AList.mem_insert, h.current, List.map_append, List.mem_append]
    simp [or_comm]
  · by_cases hk : k = e.key
    · subst hk
      rw [AList.lookup_insert] at hx
      obtain rfl := Option.some.inj hx
      exact ⟨by simp, rfl⟩
    · rw [AList.lookup_insert_ne hk] at hx
      exact ⟨by simp [(h.kept k x hx).1], (h.kept k x hx).2⟩
  · rw [h.removes, List.map_append, List.count_append]
    by_cases hk : k = e.key
    · subst hk
      simp [hcount]
    · simp [Ne.symm hk]
  · simp [h.removed x hx]

theorem listed_this {l : List RewriteEntry} {m : RewriteMerge} (h : Listed l m)
    (e : RewriteEntry) : Listed (l ++ [e]) (m.this e) := by
  by_cases he : e.key ∈ m.processed
  · exact listed_this_of_processed h he
  · exact listed_this_of_new h he

theorem listed_foldl (l : List RewriteEntry) : Listed l (l.foldl this {}) := by
  induction l using List.reverseRecOn with
  | nil => exact ⟨by simp, by simp, by simp, by simp, by simp, rfl⟩
  | append_singleton l e ih =>
    rw [List.foldl_append]
    exact listed_this ih e

/-- After the loop over the entries `os` of the origin as well : the keys of `os` are taken
out of the kept entries, and those the replica does not have are added. -/
structure Matched (l os removes : List RewriteEntry) (m : RewriteMerge) : Prop where
  processed : ∀ k, k ∈ m.processed ↔ k ∈ l.map RewriteEntry.key ∨ k ∈ os.map RewriteEntry.key
  current : ∀ k, k ∈ m.current ↔ k ∈ l.map RewriteEntry.key ∧ k ∉ os.map RewriteEntry.key
  kept : ∀ k e, m.current.lookup k = some e → e ∈ l ∧ e.key = k
  adds : ∀ k, k ∈ m.adds.map RewriteEntry.key ↔
    k ∈ os.map RewriteEntry.key ∧ k ∉ l.map RewriteEntry.key
  added : ∀ e ∈ m.adds, e ∈ os
  removes : m.removes = removes

section MatchedOther

variable {l os removes : List RewriteEntry} {m : RewriteMerge} {e : RewriteEntry}

/-- An entry of the origin that is kept is taken out. -/
theorem matched_other_of_current (h : Matched l os removes m) (hc : e.key ∈ m.current) :
    Matched l (os ++ [e]) removes (m.other e) := by
  obtain ⟨hl, hos⟩ := (h.current _).mp hc
  rw [other, if_pos hc]
  refine ⟨fun k => ?_, fun k => ?_, fun k x hx => ?_, fun k => ?_, fun x hx => ?_, h.removes⟩
  · rw [h.processed]
    by_cases hk : k = e.key <;> simp_all
  · simp only [AList.mem_erase, h.current]
    by_cases hk : k = e.key <;> simp_all
  · by_cases hk : k = e.key
    · subst hk
      simp at hx
    · rw [AList.lookup_erase_ne hk] at hx
      exact h.kept k x hx
  · rw [h.adds]
    by_cases hk : k = e.key <;> simp_all
  · simp [h.added x hx]

/-- An entry of the origin that came before is a duplicate. -/
theorem matched_other_of_processed (h : Matched l os removes m) (hc : e.key ∉ m.current)
    (hp : e.key ∈ m.processed) : Matched l (os ++ [e]) removes (m.other e) := by
  have hos : e.key ∈ os.map RewriteEntry.key := by
    by_contra hno
    exact hc ((h.current _).mpr ⟨((h.processed _).mp hp).resolve_right hno, hno⟩)
  have hmap : ∀ k, k ∈ (os ++ [e]).map RewriteEntry.key ↔ k ∈ os.map RewriteEntry.key := by
    intro k
    by_cases hk : k = e.key <;> simp_all
  rw [other, if_neg hc, if_neg (not_not.mpr hp)]
  refine ⟨fun k => ?_, fun k => ?_, h.kept, fun k => ?_, fun x hx => ?_, h.removes⟩
  · rw [h.processed, hmap]
  · rw [h.current, hmap]
  · rw [h.adds, hmap]
  · simp [h.added x hx]

/-- An entry of the origin with a new key is added. -/
theorem matched_other_of_new (h : Matched l os removes m) (hc : e.key ∉ m.current)
    (hp : e.key ∉ m.processed) : Matched l (os ++ [e]) removes (m.other e) := by
  obtain ⟨hl, hos⟩ := not_or.mp fun hold => hp ((h.processed _).mpr hold)
  rw [other, if_neg hc, if_pos hp]
  refine ⟨fun k => ?_, fun k => ?_, h.kept, fun k => ?_, fun x hx => ?_, h.removes⟩
  · simp only [AList.mem_insert, h.processed]
    by_cases hk : k = e.key <;> simp_all
  · simp only [h.current]
    by_cases hk : k = e.key <;> simp_all
  · simp only [List.map_append, List.mem_append, h.adds]
    by_cases hk : k = e.key <;> simp_all
  · rcases List.mem_append.mp hx with hx | hx
    · simp [h.added x hx]
    · simpa using Or.inr (List.mem_singleton.mp hx)

theorem matched_other (h : Matched l os removes m) (e : RewriteEntry) :
    Matched l (os ++ [e]) removes (m.other e) := by
  by_cases hc : e.key ∈ m.current
  · exact matched_other_of_current h hc
  · by_cases hp : e.key ∈ m.processed
    · exact matched_other_of_processed h hc hp
    · exact matched_other_of_new h hc hp

end MatchedOther

theorem matched_foldl {l : List RewriteEntry} {m : RewriteMerge} (h : Listed l m)
    (os : List RewriteEntry) : Matched l os m.removes (os.foldl other m) := by
  induction os using List.reverseRecOn with
  | nil =>
    refine ⟨by simp [h.processed], by simp [h.current], h.kept, ?_, ?_, rfl⟩
    · simp [h.adds]
    · simp [h.adds]
  | append_singleton os e ih =>
    rw [List.foldl_append]
    exact matched_other ih e

end Model.RewriteMerge

section Merged

open RewriteMerge

variable {rwe os : List RewriteEntry} {order : MapOrder String} {e : RewriteEntry}

/-- What is removed : entries the replica has several times, or the origin does not have. -/
theorem pair_mem_removes (hrwe : ∀ x ∈ rwe, x.Plain) (hos : ∀ x ∈ os, x.Plain) (he : e.Plain) :
    e.pair ∈ (mergeRewrites rwe os order).removes.map RewriteEntry.pair ↔
      2 ≤ (rwe.map RewriteEntry.pair).count e.pair ∨
        e.pair ∈ rwe.map RewriteEntry.pair ∧ e.pair ∉ os.map RewriteEntry.pair := by
  have hl := listed_foldl rwe
  have hm := matched_foldl hl os
  have hremoves : (mergeRewrites rwe os order).removes =
      (rwe.foldl RewriteMerge.this {}).removes ++
        (os.foldl RewriteMerge.other (rwe.foldl RewriteMerge.this {})).current.values order := by
    rw [mergeRewrites, hm.removes]
  rw [hremoves, List.map_append, List.mem_append]
  refine or_congr ?_ ?_
  · rw [← RewriteEntry.mem_map_key_iff he fun x hx => hrwe x (hl.removed x hx), hl.removes,
      RewriteEntry.count_key he hrwe]
  · have hcurrent := hm.current e.key
    rw [RewriteEntry.mem_map_key_iff he hrwe, RewriteEntry.mem_map_key_iff he hos] at hcurrent
    rw [← hcurrent, List.mem_map, ← AList.lookup_isSome, Option.isSome_iff_exists]
    constructor
    · rintro ⟨x, hx, hpair⟩
      obtain ⟨k, hk⟩ := KeyedMap.mem_values.mp hx
      obtain ⟨hx, rfl⟩ := hm.kept k x hk
      exact ⟨x, by rwa [← (RewriteEntry.key_eq_iff (hrwe x hx) he).mpr hpair]⟩
    · rintro ⟨x, hk⟩
      obtain ⟨hx, hkey⟩ := hm.kept _ x hk
      exact ⟨x, KeyedMap.mem_values.mpr ⟨_, hk⟩,
        (RewriteEntry.key_eq_iff (hrwe x hx) he).mp hkey⟩

/-- What is added : entries of the origin that the replica does not have. -/
theorem pair_mem_adds (hrwe : ∀ x ∈ rwe, x.Plain) (hos : ∀ x ∈ os, x.Plain) (he : e.Plain) :
    e.pair ∈ (mergeRewrites rwe os order).adds.map RewriteEntry.pair ↔
      e.pair ∈ os.map RewriteEntry.pair ∧ e.pair ∉ rwe.map RewriteEntry.pair := by
  have hm := matched_foldl (listed_foldl rwe) os
  have hadds := hm.adds e.key
  rwa [RewriteEntry.mem_map_key_iff he fun x hx => hos x (hm.added x hx),
    RewriteEntry.mem_map_key_iff he hos, RewriteEntry.mem_map_key_iff he hrwe] at hadds

theorem mem_of_mem_adds (h : e ∈ (mergeRewrites rwe os order).adds) : e ∈ os :=
  (matched_foldl (listed_foldl rwe) os).added e h

end Merged

/-! ## The list afterwards -/

namespace Server

theorem rewrites_deletes (es : List RewriteEntry) (sv : Server) :
    (es.foldl (fun sv e => sv.apply (.rewriteDelete e)) sv).rewrites =
      sv.rewrites.filter fun x => x.pair ∉ es.map RewriteEntry.pair := by
  induction es generalizing sv with
  | nil => simp
  | cons e es ih =>
    rw [List.foldl_cons, ih]
    simp only [apply, List.filter_filter]
    refine List.filter_congr fun x _ => ?_
    by_cases h : x.pair = e.pair <;> simp [h]

theorem rewrites_adds (es : List RewriteEntry) (sv : Server) :
    (es.foldl (fun sv e => sv.apply (.rewriteAdd e)) sv).rewrites = sv.rewrites ++ es := by
  induction es generalizing sv with
  | nil => simp
  | cons e es ih =>
    rw [List.foldl_cons, ih]
    simp [apply]

/-- `actionDNSRewrites` succeeds, deletes what the merge removes and adds what it adds. -/
theorem exec_actionDNSRewrites (orders : MergeSite → MapOrder String) (ac : ActionContext)
    {o : Origin} {os : List RewriteEntry} (ho : o.rewrites = some os) (sv : Server) :
    ∃ sv', (actionDNSRewrites ac o).exec (answer orders) sv = (some (.ok (), o), sv') ∧
      sv'.rewrites =
        (sv.rewrites.filter fun x => x.pair ∉
          (mergeRewrites sv.rewrites os (orders .rewrites)).removes.map RewriteEntry.pair) ++
        (mergeRewrites sv.rewrites os (orders .rewrites)).adds := by
  set m := mergeRewrites sv.rewrites os (orders .rewrites)
  refine ⟨m.adds.foldl (fun sv e => sv.apply (.rewriteAdd e))
    (m.removes.foldl (fun sv e => sv.apply (.rewriteDelete e)) sv), ?_, ?_⟩
  · have hloop := exec_forEach_send orders ac.client o
    unfold actionDNSRewrites Client.rewriteList
    rw [exec_doGet_bind]
    refine (exec_fromOrigin_bind orders sv ho).trans ?_
    exact (Act.exec_bind_of_ok (hloop sv .rewriteDelete m.removes)).trans
      (hloop _ .rewriteAdd m.adds)
  · rw [rewrites_adds, rewrites_deletes]

/-- An entry is there afterwards if the origin has it and the replica had it at most once. -/
theorem pair_mem_rewrites {orders : MergeSite → MapOrder String} {os : List RewriteEntry}
    {sv : Server} (hsv : ∀ x ∈ sv.rewrites, x.Plain) (hos : ∀ x ∈ os, x.Plain)
    {e : RewriteEntry} (he : e.Plain) :
    e.pair ∈ ((sv.rewrites.filter fun x => x.pair ∉
          (mergeRewrites sv.rewrites os (orders .rewrites)).removes.map RewriteEntry.pair) ++
        (mergeRewrites sv.rewrites os (orders .rewrites)).adds).map RewriteEntry.pair ↔
      e.pair ∈ os.map RewriteEntry.pair ∧
        (sv.rewrites.map RewriteEntry.pair).count e.pair ≤ 1 := by
  have hfilter : ∀ ps : List (String × String),
      e.pair ∈ (sv.rewrites.filter fun x => x.pair ∉ ps).map RewriteEntry.pair ↔
        e.pair ∈ sv.rewrites.map RewriteEntry.pair ∧ e.pair ∉ ps := by
    intro ps
    simp only [List.mem_map, List.mem_filter, decide_eq_true_eq]
    constructor
    · rintro ⟨x, ⟨hx, hps⟩, hpair⟩
      exact ⟨⟨x, hx, hpair⟩, hpair ▸ hps⟩
    · rintro ⟨⟨x, hx, hpair⟩, hps⟩
      exact ⟨x, ⟨hx, hpair ▸ hps⟩, hpair⟩
  rw [List.map_append, List.mem_append, hfilter, pair_mem_removes hsv hos he,
    pair_mem_adds hsv hos he]
  have hcount : e.pair ∉ sv.rewrites.map RewriteEntry.pair →
      (sv.rewrites.map RewriteEntry.pair).count e.pair = 0 := List.count_eq_zero.mpr
  by_cases hin : e.pair ∈ sv.rewrites.map RewriteEntry.pair
  · simp only [hin, true_and, not_true_eq_false, and_false, or_false]
    by_cases hos' : e.pair ∈ os.map RewriteEntry.pair
    · simp only [hos', not_true_eq_false, or_false, true_and]
      omega
    · simp [hos']
  · simp [hin, hcount hin]

end Server

/-- The set of rewrites converges if and only if the replica has no rewrite of the origin
more than once. -/
theorem actionDNSRewrites_converges_iff (orders : MergeSite → MapOrder String)
    (ac : ActionContext) (o : Origin) (os : List RewriteEntry) (ho : o.rewrites = some os)
    (sv : Server) (hsv : ∀ x ∈ sv.rewrites, x.Plain) (hos : ∀ x ∈ os, x.Plain) :
    ∃ sv', (actionDNSRewrites ac o).exec (Server.answer orders) sv = (some (.ok (), o), sv') ∧
      ((∀ p, p ∈ sv'.rewrites.map RewriteEntry.pair ↔ p ∈ os.map RewriteEntry.pair) ↔
        ∀ e ∈ os, (sv.rewrites.map RewriteEntry.pair).count e.pair ≤ 1) := by
  obtain ⟨sv', hexec, hrewrites⟩ := Server.exec_actionDNSRewrites orders ac ho sv
  refine ⟨sv', hexec, ?_⟩
  rw [hrewrites]
  constructor
  · intro hsame e he
    have hmem := (hsame e.pair).mpr (List.mem_map_of_mem he)
    exact ((Server.pair_mem_rewrites hsv hos (hos e he)).mp hmem).2
  · intro hcount p
    constructor
    · intro hp
      obtain ⟨e, he, rfl⟩ := List.mem_map.mp hp
      have hplain : e.Plain := (List.mem_append.mp he).elim
        (fun hx => hsv e (List.mem_filter.mp hx).1) fun hx => hos e (mem_of_mem_adds hx)
      exact ((Server.pair_mem_rewrites hsv hos hplain).mp hp).1
    · intro hp
      obtain ⟨e, he, rfl⟩ := List.mem_map.mp hp
      exact (Server.pair_mem_rewrites hsv hos (hos e he)).mpr ⟨hp, hcount e he⟩

/-- The replica has a rewrite the origin does not have, twice. -/
theorem actionDNSRewrites_converges_iff_sample :
    let os : List RewriteEntry := [{ domain := some "a", answer := some "1" }]
    let o : Origin := { rewrites := some os }
    let sv : Server := { rewrites := [{ domain := some "b" }, { domain := some "b" }] }
    ∃ sv', (actionDNSRewrites sampleContext o).exec (Server.answer fun _ => .stored) sv =
        (some (.ok (), o), sv') ∧
      ((∀ p, p ∈ sv'.rewrites.map RewriteEntry.pair ↔ p ∈ os.map RewriteEntry.pair) ↔
        ∀ e ∈ os, (sv.rewrites.map RewriteEntry.pair).count e.pair ≤ 1) :=
  actionDNSRewrites_converges_iff _ _ _ _ rfl _ (by decide) (by decide)

/-- A rewrite that both sides have, the replica twice, is lost. -/
theorem actionDNSRewrites_loses :
    let e : RewriteEntry := { domain := some "a", answer := some "1" }
    let o : Origin := { rewrites := some [e] }
    let out := (actionDNSRewrites sampleContext o).exec (Server.answer fun _ => .stored)
      { rewrites := [e, e] }
    out.1 = some (.ok (), o) ∧ e ∉ out.2.rewrites := by
  decide

end AghSync
