import AghSync.Folds
import AghSync.KeyedMap
import Mathlib.Data.BitVec

/-!
# Adding statistics

The statistics of an instance, and `Stats.add`, which adds those of one instance to a total in
place. A total starts as `newStats` : five counters and four series of 24 hours. A counter or
series that is absent adds nothing.

The loop of `sumUp` looks up an element of the other series before it knows that there is one :
the guard lets the index be the length. So a series that is shorter than the total's is an index
out of range, and one that is as long or longer is added (`sumUp_loop`).
-/

namespace AghSync

namespace Model

/-- `int`, with its overflow. -/
abbrev GoInt := BitVec 64

/-- `float32`, as its bits. -/
abbrev GoFloat32 := BitVec 32

/-- `TopArrayEntry`. -/
structure TopArrayEntry where
  additionalProperties : KeyedMap String GoFloat32 := ∅

/-- `Stats`. -/
structure Stats where
  avgProcessingTime : Option GoFloat32 := none
  blockedFiltering : Option (List GoInt) := none
  dnsQueries : Option (List GoInt) := none
  numBlockedFiltering : Option GoInt := none
  numDnsQueries : Option GoInt := none
  numReplacedParental : Option GoInt := none
  numReplacedSafebrowsing : Option GoInt := none
  numReplacedSafesearch : Option GoInt := none
  replacedParental : Option (List GoInt) := none
  replacedSafebrowsing : Option (List GoInt) := none
  topBlockedDomains : Option (List TopArrayEntry) := none
  topClients : Option (List TopArrayEntry) := none
  topQueriedDomains : Option (List TopArrayEntry) := none

namespace Stats

/-- `NewStats`. -/
def newStats : Stats where
  numBlockedFiltering := some 0
  numReplacedParental := some 0
  numReplacedSafesearch := some 0
  numReplacedSafebrowsing := some 0
  numDnsQueries := some 0
  blockedFiltering := some (List.replicate 24 0)
  dnsQueries := some (List.replicate 24 0)
  replacedParental := some (List.replicate 24 0)
  replacedSafebrowsing := some (List.replicate 24 0)

/-- `addInt`, or a nil pointer. -/
def addInt (t add : Option GoInt) : Option (Option GoInt) :=
  match add with
  | some a => t.map fun t => some (t + a)
  | none => some t

/-- The loop of `sumUp` from the index `i` on : the sums, or an index out of range. -/
def sumUp.loop (oo : List GoInt) : ℕ → List GoInt → Option (List GoInt)
  | _, [] => some []
  | i, t :: tt =>
    if oo.length ≥ i then do
      let o ← oo[i]?
      let sum ← loop oo (i + 1) tt
      some ((t + o) :: sum)
    else loop oo (i + 1) tt

/-- `sumUp`, or a nil pointer or an index out of range. -/
def sumUp (t o : Option (List GoInt)) : Option (Option (List GoInt)) :=
  match o with
  | some oo => do
    let tt ← t
    let sum ← sumUp.loop oo 0 tt
    some (some sum)
  | none => some t

/-- `Stats.Add`. -/
def add (s other : Stats) : Option Stats := do
  let numBlockedFiltering ← addInt s.numBlockedFiltering other.numBlockedFiltering
  let numReplacedSafebrowsing ← addInt s.numReplacedSafebrowsing other.numReplacedSafebrowsing
  let numDnsQueries ← addInt s.numDnsQueries other.numDnsQueries
  let numReplacedSafesearch ← addInt s.numReplacedSafesearch other.numReplacedSafesearch
  let numReplacedParental ← addInt s.numReplacedParental other.numReplacedParental
  let blockedFiltering ← sumUp s.blockedFiltering other.blockedFiltering
  let dnsQueries ← sumUp s.dnsQueries other.dnsQueries
  let replacedParental ← sumUp s.replacedParental other.replacedParental
  let replacedSafebrowsing ← sumUp s.replacedSafebrowsing other.replacedSafebrowsing
  some { s with
    numBlockedFiltering := numBlockedFiltering
    numReplacedSafebrowsing := numReplacedSafebrowsing
    numDnsQueries := numDnsQueries
    numReplacedSafesearch := numReplacedSafesearch
    numReplacedParental := numReplacedParental
    blockedFiltering := blockedFiltering
    dnsQueries := dnsQueries
    replacedParental := replacedParental
    replacedSafebrowsing := replacedSafebrowsing }

/-! ## Counters and series -/

/-- The counters. -/
inductive Counter
  | numBlockedFiltering
  | numReplacedSafebrowsing
  | numDnsQueries
  | numReplacedSafesearch
  | numReplacedParental
  deriving DecidableEq

/-- The series. -/
inductive Series
  | blockedFiltering
  | dnsQueries
  | replacedParental
  | replacedSafebrowsing
  deriving DecidableEq

/-- A counter of the statistics. -/
def counter (s : Stats) : Counter → Option GoInt
  | .numBlockedFiltering => s.numBlockedFiltering
  | .numReplacedSafebrowsing => s.numReplacedSafebrowsing
  | .numDnsQueries => s.numDnsQueries
  | .numReplacedSafesearch => s.numReplacedSafesearch
  | .numReplacedParental => s.numReplacedParental

/-- A series of the statistics. -/
def series (s : Stats) : Series → Option (List GoInt)
  | .blockedFiltering => s.blockedFiltering
  | .dnsQueries => s.dnsQueries
  | .replacedParental => s.replacedParental
  | .replacedSafebrowsing => s.replacedSafebrowsing

/-- What a counter counts, an absent one nothing. -/
def count (s : Stats) (c : Counter) : GoInt :=
  (s.counter c).getD 0

/-- An element of a series, a missing one as zero. -/
def element (s : Stats) (f : Series) (i : ℕ) : GoInt :=
  ((s.series f).getD []).getD i 0

/-- Behind the end of a series there is nothing. -/
theorem element_eq_zero {s : Stats} {f : Series} {i : ℕ}
    (h : ∀ xs, s.series f = some xs → xs.length ≤ i) : s.element f i = 0 := by
  unfold element
  cases hf : s.series f with
  | none => rfl
  | some xs => exact List.getD_eq_getElem?_getD ▸ by simp [h xs hf]

/-! ## One addition -/

section Add

variable {s o t : Stats} {c : Counter} {f : Series}

/-- What an addition does to each counter and each series. -/
theorem add_eq_some (h : s.add o = some t) :
    (∀ c, addInt (s.counter c) (o.counter c) = some (t.counter c)) ∧
      ∀ f, sumUp (s.series f) (o.series f) = some (t.series f) := by
  simp only [add, Option.bind_eq_bind, Option.bind_eq_some_iff, Option.some.injEq] at h
  obtain ⟨c₁, h₁, c₂, h₂, c₃, h₃, c₄, h₄, c₅, h₅, f₁, k₁, f₂, k₂, f₃, k₃, f₄, k₄, rfl⟩ := h
  constructor
  · rintro (_ | _) <;> assumption
  · rintro (_ | _) <;> assumption

/-- It succeeds if all its parts do. -/
theorem isSome_add : (s.add o).isSome ↔
    (∀ c, (addInt (s.counter c) (o.counter c)).isSome) ∧
      ∀ f, (sumUp (s.series f) (o.series f)).isSome := by
  constructor
  · intro h
    obtain ⟨t, ht⟩ := Option.isSome_iff_exists.mp h
    obtain ⟨hcounter, hseries⟩ := add_eq_some ht
    exact ⟨fun c => by rw [hcounter c]; rfl, fun f => by rw [hseries f]; rfl⟩
  · rintro ⟨hcounter, hseries⟩
    simp only [Option.isSome_iff_exists] at hcounter hseries ⊢
    obtain ⟨c₁, h₁⟩ := hcounter .numBlockedFiltering
    obtain ⟨c₂, h₂⟩ := hcounter .numReplacedSafebrowsing
    obtain ⟨c₃, h₃⟩ := hcounter .numDnsQueries
    obtain ⟨c₄, h₄⟩ := hcounter .numReplacedSafesearch
    obtain ⟨c₅, h₅⟩ := hcounter .numReplacedParental
    obtain ⟨f₁, k₁⟩ := hseries .blockedFiltering
    obtain ⟨f₂, k₂⟩ := hseries .dnsQueries
    obtain ⟨f₃, k₃⟩ := hseries .replacedParental
    obtain ⟨f₄, k₄⟩ := hseries .replacedSafebrowsing
    simp only [counter, series] at h₁ h₂ h₃ h₄ h₅ k₁ k₂ k₃ k₄
    simp [add, h₁, h₂, h₃, h₄, h₅, k₁, k₂, k₃, k₄]

/-- From an index in range or at the end, the loop adds elementwise if no element is missing. -/
theorem sumUp_loop (oo : List GoInt) : ∀ (tt : List GoInt) {i : ℕ}, i ≤ oo.length →
    sumUp.loop oo i tt = if i + tt.length ≤ oo.length then
      some (List.zipWith (· + ·) tt (oo.drop i)) else none
  | [], i, hi => by simp [sumUp.loop, hi]
  | t :: tt, i, hi => by
    rw [sumUp.loop, if_pos hi]
    rcases hi.lt_or_eq with hlt | rfl
    · have ih := sumUp_loop oo tt (i := i + 1) hlt
      rw [List.getElem?_eq_getElem hlt, List.drop_eq_getElem_cons hlt, List.zipWith_cons_cons,
        List.length_cons, Nat.add_comm tt.length, ← Nat.add_assoc]
      simp only [ih, Option.bind_eq_bind, Option.bind_some]
      split_ifs <;> rfl
    · simp

theorem sumUp_some (tt oo : List GoInt) : sumUp (some tt) (some oo) =
    if tt.length ≤ oo.length then some (some (List.zipWith (· + ·) tt oo)) else none := by
  have hloop := sumUp_loop oo tt (Nat.zero_le _)
  rw [Nat.zero_add, List.drop_zero] at hloop
  simp only [sumUp, hloop, Option.bind_eq_bind, Option.bind_some]
  split_ifs <;> rfl

end Add

/-! ## Totals -/

/-- What additions keep a total at : every counter is there, and every series has 24
elements. -/
structure IsAccumulator (s : Stats) : Prop where
  counter : ∀ c, (s.counter c).isSome
  series : ∀ f, ∃ xs, s.series f = some xs ∧ xs.length = 24

/-- No series ends before that of a total. -/
def Fits (o : Stats) : Prop :=
  ∀ f xs, o.series f = some xs → 24 ≤ xs.length

theorem isAccumulator_newStats : newStats.IsAccumulator where
  counter := by rintro (_ | _) <;> rfl
  series := by rintro (_ | _) <;> exact ⟨_, rfl, List.length_replicate⟩

namespace IsAccumulator

variable {s o t : Stats} (hs : s.IsAccumulator)
include hs

/-- Statistics can be added to a total exactly if none of their series ends before its. -/
theorem isSome_add_iff : (s.add o).isSome ↔ o.Fits := by
  have hcounter : ∀ c, (addInt (s.counter c) (o.counter c)).isSome := by
    intro c
    obtain ⟨n, hn⟩ := Option.isSome_iff_exists.mp (hs.counter c)
    rw [hn]
    cases o.counter c <;> rfl
  rw [isSome_add, and_iff_right hcounter]
  refine forall_congr' fun f => ?_
  obtain ⟨tt, htt, hlength⟩ := hs.series f
  rw [htt]
  cases o.series f with
  | none => simp [sumUp]
  | some oo =>
    rw [sumUp_some, hlength]
    split_ifs with h
    · simpa using h
    · simpa using h

theorem counter_add (h : s.add o = some t) (c : Counter) :
    ∃ n, s.counter c = some n ∧ t.counter c = some (n + o.count c) := by
  have hadd := (add_eq_some h).1 c
  obtain ⟨n, hn⟩ := Option.isSome_iff_exists.mp (hs.counter c)
  refine ⟨n, hn, ?_⟩
  rw [hn] at hadd
  cases hc : o.counter c with
  | none =>
    rw [hc] at hadd
    simp [count, hc, ← Option.some.inj hadd]
  | some a =>
    rw [hc] at hadd
    simp [count, hc, ← Option.some.inj hadd]

theorem series_add (h : s.add o = some t) (f : Series) : ∃ tt, s.series f = some tt ∧
    tt.length = 24 ∧ (o.series f = none ∧ t.series f = some tt ∨
      ∃ oo, o.series f = some oo ∧ 24 ≤ oo.length ∧
        t.series f = some (List.zipWith (· + ·) tt oo)) := by
  have hadd := (add_eq_some h).2 f
  obtain ⟨tt, htt, hlength⟩ := hs.series f
  refine ⟨tt, htt, hlength, ?_⟩
  rw [htt] at hadd
  cases hf : o.series f with
  | none =>
    rw [hf] at hadd
    exact .inl ⟨rfl, (Option.some.inj hadd).symm⟩
  | some oo =>
    rw [hf, sumUp_some, hlength] at hadd
    split_ifs at hadd with hoo
    exact .inr ⟨oo, rfl, hoo, (Option.some.inj hadd).symm⟩

theorem add (h : s.add o = some t) : t.IsAccumulator where
  counter c := by
    obtain ⟨n, -, ht⟩ := hs.counter_add h c
    rw [ht]
    rfl
  series f := by
    obtain ⟨tt, -, hlength, ⟨-, ht⟩ | ⟨oo, -, hoo, ht⟩⟩ := hs.series_add h f
    · exact ⟨tt, ht, hlength⟩
    · exact ⟨_, ht, by simpa [hlength] using hoo⟩

theorem count_add (h : s.add o = some t) (c : Counter) :
    t.count c = s.count c + o.count c := by
  obtain ⟨n, hn, ht⟩ := hs.counter_add h c
  rw [count, count, hn, ht]
  rfl

theorem element_add (h : s.add o = some t) (f : Series) {i : ℕ} (hi : i < 24) :
    t.element f i = s.element f i + o.element f i := by
  obtain ⟨tt, htt, hlength, ⟨ho, ht⟩ | ⟨oo, ho, hoo, ht⟩⟩ := hs.series_add h f
  · simp [element, htt, ho, ht]
  · have hi₁ : i < tt.length := by omega
    have hi₂ : i < oo.length := by omega
    simp [element, htt, ho, ht, hi₁, hi₂]

end IsAccumulator

/-! ## Whole totals -/

/-- `t` is the total of the statistics, where what is missing counts as zero. -/
structure IsTotal (t : Stats) (others : List Stats) : Prop where
  series : ∀ f, ∃ xs, t.series f = some xs ∧ xs.length = 24
  element : ∀ f i, i < 24 → t.element f i = (others.map fun o => o.element f i).sum
  counter : ∀ c, t.counter c = some (others.map fun o => o.count c).sum

/-- All statistics can be added to a new total, and it is theirs. -/
def AddUp (others : List Stats) : Prop :=
  ∃ t, others.foldlM add newStats = some t ∧ t.IsTotal others

@[simp] theorem element_newStats (f : Series) (i : ℕ) : newStats.element f i = 0 := by
  have hzero : (List.replicate 24 (0 : GoInt)).getD i 0 = 0 := by
    rw [List.getD_eq_getElem?_getD, List.getElem?_replicate]
    split_ifs <;> rfl
  cases f <;> exact hzero

@[simp] theorem count_newStats (c : Counter) : newStats.count c = 0 := by
  cases c <;> rfl

/-- A total to which statistics have been added is their total. -/
theorem isTotal_of_foldlM {others : List Stats} {t : Stats}
    (h : others.foldlM add newStats = some t) : t.IsTotal others := by
  have hkeep : ∀ s o t : Stats, s.IsAccumulator → s.add o = some t → t.IsAccumulator :=
    fun _ _ _ hs => hs.add
  have ht : t.IsAccumulator :=
    Folds.invariant (fun s o _ t hs => hs.add) isAccumulator_newStats h
  refine ⟨ht.series, fun f i hi => ?_, fun c => ?_⟩
  · have hsum := Folds.measure_eq hkeep (fun s o t hs hadd => hs.element_add hadd f hi)
      isAccumulator_newStats h
    rwa [element_newStats, zero_add] at hsum
  · have hsum := Folds.measure_eq hkeep (fun s o t hs hadd => hs.count_add hadd c)
      isAccumulator_newStats h
    rw [count_newStats, zero_add] at hsum
    obtain ⟨n, hn⟩ := Option.isSome_iff_exists.mp (ht.counter c)
    rw [← hsum, count, hn]
    rfl

/-- Of series of the length of the total nothing is left out. -/
theorem IsTotal.element_eq_sum {others : List Stats} {t : Stats} (h : t.IsTotal others)
    {f : Series} (hlength : ∀ o ∈ others, ∀ xs, o.series f = some xs → xs.length = 24) (i : ℕ) :
    t.element f i = (others.map fun o => o.element f i).sum := by
  by_cases hi : i < 24
  · exact h.element f i hi
  obtain ⟨ts, hts, hlen⟩ := h.series f
  have hend : t.element f i = 0 := element_eq_zero fun xs hxs => by
    obtain rfl := Option.some.inj (hts.symm.trans hxs)
    omega
  rw [hend, eq_comm]
  refine List.sum_eq_zero fun n hn => ?_
  obtain ⟨o, ho, rfl⟩ := List.mem_map.mp hn
  refine element_eq_zero fun xs hxs => ?_
  have := hlength o ho xs hxs
  omega

theorem isSome_foldlM_iff {others : List Stats} :
    (others.foldlM add newStats).isSome ↔ ∀ o ∈ others, o.Fits :=
  Folds.isSome_iff (fun _ _ _ hs => hs.add) (fun _ _ hs => hs.isSome_add_iff)
    isAccumulator_newStats

/-- Statistics add up exactly if every series that is there has 24 elements or more. -/
theorem addUp_iff (others : List Stats) :
    AddUp others ↔ ∀ o ∈ others, ∀ f xs, o.series f = some xs → 24 ≤ xs.length := by
  constructor
  · rintro ⟨t, h, -⟩
    exact isSome_foldlM_iff.mp (by rw [h]; rfl)
  · intro h
    obtain ⟨t, ht⟩ := Option.isSome_iff_exists.mp (isSome_foldlM_iff.mpr h)
    exact ⟨t, ht, isTotal_of_foldlM ht⟩

/-- An instance that keeps seven days : the eighth element is out of range. -/
theorem not_addUp : ¬AddUp [{ dnsQueries := some [3, 1, 4, 1, 5, 9, 2] }] := by
  rintro ⟨t, h, -⟩
  cases h

end Stats

end Model

end AghSync
