import AghSync.Blocks
import AghSync.Encoding

/-!
# Comparing DNS configurations

A comparison sorts three lists of servers of clones, and compares the encodings. The clones
are new records, so the arguments do not change (`DNSConfigPtr.equals_eq`).

`DNSConfig.sort` asks three times whether there are upstream servers, before each of the three
lists. With upstream servers but without one of the other lists it dereferences a nil pointer,
and without upstream servers the other two lists are compared in their order
(`DNSConfigPtr.comparesServers_iff`).
-/

namespace AghSync.Model

/-! ## Configurations in memory -/

/-- The fields of a DNS configuration that are lists. -/
inductive ServerList
  | bootstrapDns
  | fallbackDns
  | localPtrUpstreams
  | ratelimitWhitelist
  | upstreamDns
  deriving DecidableEq

namespace DNSConfig

/-- The lists of a configuration. -/
def lists (c : DNSConfig) : ServerList → Option (List String)
  | .bootstrapDns => c.bootstrapDns
  | .fallbackDns => c.fallbackDns
  | .localPtrUpstreams => c.localPtrUpstreams
  | .ratelimitWhitelist => c.ratelimitWhitelist
  | .upstreamDns => c.upstreamDns

/-- The configuration with other lists. -/
def withLists (c : DNSConfig) (lists : ServerList → Option (List String)) : DNSConfig :=
  { c with
    bootstrapDns := lists .bootstrapDns
    fallbackDns := lists .fallbackDns
    localPtrUpstreams := lists .localPtrUpstreams
    ratelimitWhitelist := lists .ratelimitWhitelist
    upstreamDns := lists .upstreamDns }

@[simp] theorem withLists_lists (c : DNSConfig) : c.withLists c.lists = c :=
  rfl

end DNSConfig

/-- A memory of lists of strings. -/
abbrev Slices := Blocks ServerList (List String)

/-- A DNS configuration in memory : its lists are pointers to slices. The lists of `rest` are
not looked at. -/
structure DNSConfigPtr where
  rest : DNSConfig
  lists : Blocks.Record ServerList

namespace DNSConfigPtr

variable {c o : DNSConfigPtr} {mem mem' : Slices}

/-- The configuration that is there. -/
def read (c : DNSConfigPtr) (mem : Slices) : DNSConfig :=
  c.rest.withLists (mem.read c.lists)

/-- `DNSConfig.Clone` : a new record with what the encoding gives back. -/
def clone (c : DNSConfigPtr) (mem : Slices) : DNSConfigPtr × Slices :=
  let d := (c.read mem).clone
  (⟨d, (mem.alloc d.lists).1⟩, (mem.alloc d.lists).2)

/-- `DNSConfig.Sort`, in place. -/
def sort (c : DNSConfigPtr) (mem : Slices) : Option Slices :=
  match c.lists .upstreamDns with
  | none => some mem
  | some upstream => do
    let mem := mem.update upstream sortStrings
    let bootstrap ← c.lists .bootstrapDns
    let mem := mem.update bootstrap sortStrings
    let localPtr ← c.lists .localPtrUpstreams
    some (mem.update localPtr sortStrings)

/-- `DNSConfig.Equals`, with the memory afterwards. -/
def equals (c o : DNSConfigPtr) (mem : Slices) : Option (Bool × Slices) := do
  let (cc, mem) := c.clone mem
  let (oo, mem) := o.clone mem
  let mem ← cc.sort mem
  let mem ← oo.sort mem
  some (jsonEquals (cc.read mem) (oo.read mem), mem)

theorem read_congr (h : mem'.read c.lists = mem.read c.lists) : c.read mem' = c.read mem :=
  congrArg c.rest.withLists h

theorem clone_eq (c : DNSConfig) : c.clone = c :=
  DNSConfig.unmarshal_marshal c

theorem read_clone : (c.clone mem).1.read (c.clone mem).2 = c.read mem := by
  simp [clone, read, clone_eq]

/-- In memory the configuration is sorted as it is by value, and crashes where that does. -/
theorem sort_read {n : ℕ} (h : Blocks.InBlock c.lists n) (mem : Slices) :
    (c.sort mem).map c.read = (c.read mem).sort := by
  have hlist : ∀ f, mem.read c.lists f = (c.lists f).map mem.cells := fun _ => rfl
  unfold sort DNSConfig.sort
  simp only [read, DNSConfig.withLists, hlist]
  cases hu : c.lists .upstreamDns with
  | none => simp [read, DNSConfig.withLists, hlist, hu]
  | some upstream =>
    cases hb : c.lists .bootstrapDns with
    | none => rfl
    | some bootstrap =>
      cases hl : c.lists .localPtrUpstreams with
      | none => rfl
      | some localPtr =>
        simp [read, DNSConfig.withLists, Blocks.read_update_of_inBlock _ h hu,
          Blocks.read_update_of_inBlock _ h hb, Blocks.read_update_of_inBlock _ h hl, hlist,
          hu, hb, hl]

/-- What is in other blocks stays as it is. -/
theorem sort_frame {n : ℕ} (h : Blocks.InBlock c.lists n) (hsort : c.sort mem = some mem')
    {r : Blocks.Record ServerList} (hr : ∀ f, ∀ a ∈ r f, a.1 ≠ n) :
    mem'.read r = mem.read r := by
  have hupdate : ∀ (mem : Slices) (f : ServerList) (a : ℕ × ServerList), c.lists f = some a →
      (mem.update a sortStrings).read r = mem.read r := by
    intro mem f a ha
    refine Blocks.read_update_of_ne _ fun f' b hb => ?_
    rw [h f a ha]
    exact hr f' b hb
  unfold sort at hsort
  cases hu : c.lists .upstreamDns with
  | none =>
    rw [hu] at hsort
    rw [Option.some.inj hsort]
  | some upstream =>
    simp only [hu, Option.bind_eq_bind, Option.bind_eq_some_iff, Option.some.injEq] at hsort
    obtain ⟨bootstrap, hb, localPtr, hl, rfl⟩ := hsort
    rw [hupdate _ _ _ hl, hupdate _ _ _ hb, hupdate _ _ _ hu]

theorem next_clone (c : DNSConfigPtr) (mem : Slices) : (c.clone mem).2.next = mem.next + 1 :=
  rfl

theorem inBlock_clone (c : DNSConfigPtr) (mem : Slices) :
    Blocks.InBlock (c.clone mem).1.lists mem.next :=
  Blocks.inBlock_alloc _

theorem allocated_clone {r : Blocks.Record ServerList} (h : mem.Allocated r) :
    (c.clone mem).2.Allocated r :=
  Blocks.Allocated.alloc _ h

/-- A clone leaves the records from before as they are. -/
theorem read_of_clone {r : Blocks.Record ServerList} (h : mem.Allocated r) :
    (c.clone mem).2.read r = mem.read r :=
  Blocks.read_alloc_of_allocated _ h

/-- The comparison in memory is the one by value. -/
theorem map_fst_equals (ho : mem.Allocated o.lists) :
    (c.equals o mem).map Prod.fst = (c.read mem).equals (o.read mem) := by
  have hcc := inBlock_clone c mem
  have hoo := inBlock_clone o (c.clone mem).2
  have hread : (c.clone mem).1.read (o.clone (c.clone mem).2).2 = c.read mem := by
    refine (read_congr (read_of_clone ?_)).trans read_clone
    exact .of_inBlock hcc (Nat.lt_succ_self _)
  have hread' : (o.clone (c.clone mem).2).1.read (o.clone (c.clone mem).2).2 = o.read mem :=
    read_clone.trans (read_congr (read_of_clone ho))
  have hsort := sort_read hcc (o.clone (c.clone mem).2).2
  unfold equals DNSConfig.equals
  rw [hread] at hsort
  rw [clone_eq, clone_eq, ← hsort]
  cases h₁ : (c.clone mem).1.sort (o.clone (c.clone mem).2).2 with
  | none => simp [h₁]
  | some mem₁ =>
    have hframe := sort_frame hcc h₁ (r := (o.clone (c.clone mem).2).1.lists) fun f a ha => by
      rw [hoo f a ha, next_clone]
      simp
    have hsort' := sort_read hoo mem₁
    rw [(read_congr hframe).trans hread'] at hsort'
    rw [← hsort']
    cases h₂ : (o.clone (c.clone mem).2).1.sort mem₁ with
    | none => simp [h₁, h₂]
    | some mem₂ =>
      have hframe' := sort_frame hoo h₂ (r := (c.clone mem).1.lists) fun f a ha => by
        rw [hcc f a ha, next_clone]
        simp
      simp [h₁, h₂, read_congr hframe']

/-- Every record from before is as it was. -/
theorem equals_frame {b : Bool} (h : c.equals o mem = some (b, mem'))
    {r : Blocks.Record ServerList} (hr : mem.Allocated r) : mem'.read r = mem.read r := by
  simp only [equals, Option.bind_eq_bind, Option.bind_eq_some_iff, Option.some.injEq,
    Prod.mk.injEq] at h
  obtain ⟨mem₁, h₁, mem₂, h₂, -, rfl⟩ := h
  rw [sort_frame (inBlock_clone o _) h₂, sort_frame (inBlock_clone c _) h₁,
    read_of_clone (allocated_clone hr), read_of_clone hr]
  · exact fun f a ha => Nat.ne_of_lt (hr f a ha)
  · exact fun f a ha => Nat.ne_of_lt (allocated_clone hr f a ha)

end DNSConfigPtr

/-! ## When the comparison is right -/

namespace DNSConfig

/-- The configurations are equal up to the order of three lists. -/
structure SameServers (c o : DNSConfig) : Prop where
  rest : c = { o with
    bootstrapDns := c.bootstrapDns
    localPtrUpstreams := c.localPtrUpstreams
    upstreamDns := c.upstreamDns }
  upstreamDns : unordered c.upstreamDns = unordered o.upstreamDns
  bootstrapDns : unordered c.bootstrapDns = unordered o.bootstrapDns
  localPtrUpstreams : unordered c.localPtrUpstreams = unordered o.localPtrUpstreams

/-- With upstream servers, the other two lists of servers are there. -/
def Sortable (c : DNSConfig) : Prop :=
  c.upstreamDns.isSome → c.bootstrapDns.isSome ∧ c.localPtrUpstreams.isSome

instance (c : DNSConfig) : Decidable c.Sortable :=
  inferInstanceAs (Decidable (_ → _))

/-- The three lists sorted. -/
def sorted (c : DNSConfig) : DNSConfig :=
  { c with
    bootstrapDns := c.bootstrapDns.map sortStrings
    localPtrUpstreams := c.localPtrUpstreams.map sortStrings
    upstreamDns := c.upstreamDns.map sortStrings }

theorem sort_of_none {c : DNSConfig} (h : c.upstreamDns = none) : c.sort = some c := by
  simp [sort, h]

/-- With upstream servers all three lists are sorted. -/
theorem sort_of_some {c : DNSConfig} (hc : c.Sortable) (h : c.upstreamDns ≠ none) :
    c.sort = some c.sorted := by
  obtain ⟨upstream, hu⟩ := Option.ne_none_iff_exists'.mp h
  obtain ⟨hb, hl⟩ := hc (by simp [hu])
  obtain ⟨bootstrap, hb⟩ := Option.isSome_iff_exists.mp hb
  obtain ⟨localPtr, hl⟩ := Option.isSome_iff_exists.mp hl
  simp [sort, sorted, hu, hb, hl]

theorem sortable_of_sort {c d : DNSConfig} (h : c.sort = some d) : c.Sortable := by
  intro hu
  obtain ⟨upstream, hu⟩ := Option.isSome_iff_exists.mp hu
  simp only [sort, hu, Option.bind_eq_bind, Option.bind_eq_some_iff] at h
  obtain ⟨bootstrap, hb, localPtr, hl, -⟩ := h
  simp [hb, hl]

theorem sorted_inj {c o : DNSConfig} : c.sorted = o.sorted ↔ c.SameServers o := by
  simp only [sorted, mk.injEq, map_sortStrings_inj, ← unordered_inj]
  constructor
  · intro h
    refine ⟨?_, by simp only [h], by simp only [h], by simp only [h]⟩
    cases c
    simp_all
  · intro h
    rw [h.rest]
    simp [h.bootstrapDns, h.localPtrUpstreams, h.upstreamDns]

theorem SameServers.upstreamDns_eq_none {c o : DNSConfig} (h : c.SameServers o) :
    c.upstreamDns = none ↔ o.upstreamDns = none := by
  rw [← unordered_eq_none, h.upstreamDns, unordered_eq_none]

/-- What the comparison of two configurations that can be sorted returns. -/
theorem equals_of_sortable {c o : DNSConfig} (hc : c.Sortable) (ho : o.Sortable) :
    ∃ b, c.equals o = some b ∧ (b = true ↔
      if c.upstreamDns = none ∧ o.upstreamDns = none then c = o else c.SameServers o) := by
  have hclone : ∀ d : DNSConfig, d.clone = d := DNSConfig.unmarshal_marshal
  have hupstream : ∀ d : DNSConfig, d.sorted.upstreamDns = none ↔ d.upstreamDns = none :=
    fun d => Option.map_eq_none_iff
  simp only [equals, hclone]
  by_cases hcu : c.upstreamDns = none <;> by_cases hou : o.upstreamDns = none
  · rw [sort_of_none hcu, sort_of_none hou, if_pos ⟨hcu, hou⟩]
    exact ⟨_, rfl, jsonEquals_iff⟩
  · rw [sort_of_none hcu, sort_of_some ho hou, if_neg fun h => hou h.2]
    refine ⟨_, rfl, jsonEquals_iff.trans (iff_of_false ?_ ?_)⟩
    · rintro rfl
      exact hou ((hupstream o).mp hcu)
    · exact fun h => hou (h.upstreamDns_eq_none.mp hcu)
  · rw [sort_of_some hc hcu, sort_of_none hou, if_neg fun h => hcu h.1]
    refine ⟨_, rfl, jsonEquals_iff.trans (iff_of_false ?_ ?_)⟩
    · rintro rfl
      exact hcu ((hupstream c).mp hou)
    · exact fun h => hcu (h.upstreamDns_eq_none.mpr hou)
  · rw [sort_of_some hc hcu, sort_of_some ho hou, if_neg fun h => hcu h.1]
    exact ⟨_, rfl, jsonEquals_iff.trans sorted_inj⟩

theorem sortable_of_equals {c o : DNSConfig} {b : Bool} (h : c.equals o = some b) :
    c.Sortable ∧ o.Sortable := by
  have hclone : ∀ d : DNSConfig, d.clone = d := DNSConfig.unmarshal_marshal
  simp only [equals, hclone, Option.bind_eq_bind, Option.bind_eq_some_iff] at h
  obtain ⟨cc, hcc, oo, hoo, -⟩ := h
  exact ⟨sortable_of_sort hcc, sortable_of_sort hoo⟩

theorem SameServers.eq {c o : DNSConfig} (h : c.SameServers o) (hcu : c.upstreamDns = none)
    (hou : o.upstreamDns = none) (hb : c.bootstrapDns = o.bootstrapDns)
    (hl : c.localPtrUpstreams = o.localPtrUpstreams) : c = o := by
  rw [h.rest, hcu, ← hou, hb, hl]

theorem SameServers.refl (c : DNSConfig) : c.SameServers c :=
  ⟨rfl, rfl, rfl, rfl⟩

end DNSConfig

namespace DNSConfigPtr

/-- The comparison returns, leaves its arguments as they are, and is right about them. -/
def ComparesServers (c o : DNSConfigPtr) (mem : Slices) : Prop :=
  ∃ b mem', c.equals o mem = some (b, mem') ∧ c.read mem' = c.read mem ∧
    o.read mem' = o.read mem ∧ (b = true ↔ (c.read mem).SameServers (o.read mem))

/-- Without upstream servers on both sides, the other lists do not only differ in their order. -/
def Ordered (c o : DNSConfig) : Prop :=
  c.upstreamDns = none → o.upstreamDns = none → c.SameServers o →
    c.bootstrapDns = o.bootstrapDns ∧ c.localPtrUpstreams = o.localPtrUpstreams

/-- The comparison is right exactly if both configurations can be sorted, and are if it
matters. -/
theorem comparesServers_iff (c o : DNSConfigPtr) (mem : Slices) (hc : mem.Allocated c.lists)
    (ho : mem.Allocated o.lists) : c.ComparesServers o mem ↔
      (c.read mem).Sortable ∧ (o.read mem).Sortable ∧ Ordered (c.read mem) (o.read mem) := by
  have hvalue := map_fst_equals (c := c) ho
  constructor
  · rintro ⟨b, mem', h, -, -, hb⟩
    rw [h, Option.map_some] at hvalue
    obtain ⟨hcs, hos⟩ := DNSConfig.sortable_of_equals hvalue.symm
    refine ⟨hcs, hos, fun hcu hou hsame => ?_⟩
    obtain ⟨b', hb', hiff⟩ := DNSConfig.equals_of_sortable hcs hos
    obtain rfl := Option.some.inj (hvalue.trans hb')
    rw [if_pos ⟨hcu, hou⟩] at hiff
    have heq := hiff.mp (hb.mpr hsame)
    exact ⟨congrArg DNSConfig.bootstrapDns heq, congrArg DNSConfig.localPtrUpstreams heq⟩
  · rintro ⟨hcs, hos, hordered⟩
    obtain ⟨b, hb, hiff⟩ := DNSConfig.equals_of_sortable hcs hos
    rw [hb] at hvalue
    obtain ⟨⟨b', mem'⟩, h, rfl⟩ := Option.map_eq_some_iff.mp hvalue
    refine ⟨b', mem', h, read_congr (equals_frame h hc), read_congr (equals_frame h ho), ?_⟩
    refine hiff.trans ?_
    split_ifs with hnone
    · constructor
      · intro heq
        exact heq ▸ DNSConfig.SameServers.refl _
      · intro hsame
        obtain ⟨hb, hl⟩ := hordered hnone.1 hnone.2 hsame
        exact hsame.eq hnone.1 hnone.2 hb hl
    · exact Iff.rfl

/-- Configurations with one slice. -/
theorem allocated_one (f : ServerList) {xs : List String} {r : Blocks.Record ServerList}
    (h : ∀ f' a, r f' = some a → a = (0, f)) : Blocks.Allocated ⟨fun _ => xs, 1⟩ r := by
  intro f' a ha
  rw [h f' a ha]
  exact Nat.one_pos

/-- A configuration with servers in the block `n`. -/
def serversAt (n : ℕ) : DNSConfigPtr :=
  ⟨{}, fun f => if f ∈ [ServerList.bootstrapDns, .localPtrUpstreams, .upstreamDns]
    then some (n, f) else none⟩

theorem allocated_serversAt {n : ℕ} {mem : Slices} (h : n < mem.next) :
    mem.Allocated (serversAt n).lists := by
  intro f a ha
  obtain ⟨-, ha⟩ := Option.ite_none_right_eq_some.mp ha
  obtain rfl := Option.some.inj ha
  exact h

/-- Two configurations with the same servers in different orders. -/
theorem comparesServers_iff_sample :
    let mem : Slices :=
      ⟨fun a => if a.1 = 0 then ["8.8.8.8", "1.1.1.1"] else ["1.1.1.1", "8.8.8.8"], 2⟩
    (serversAt 0).ComparesServers (serversAt 1) mem ∧
      (serversAt 0).read mem ≠ (serversAt 1).read mem ∧
      ∃ mem', (serversAt 0).equals (serversAt 1) mem = some (true, mem') := by
  intro mem
  have hcompares := (comparesServers_iff (serversAt 0) (serversAt 1) mem
    (allocated_serversAt Nat.two_pos) (allocated_serversAt Nat.one_lt_two)).mpr
    ⟨by decide, by decide, fun hnone => by cases hnone⟩
  obtain ⟨b, mem', hequals, -, -, hb⟩ := id hcompares
  have hswap : unordered (some ["8.8.8.8", "1.1.1.1"]) = unordered (some ["1.1.1.1", "8.8.8.8"]) :=
    congrArg some (Quotient.sound (List.Perm.swap _ _ _))
  rw [hb.mpr ⟨rfl, hswap, hswap, hswap⟩] at hequals
  exact ⟨hcompares, by decide, mem', hequals⟩

/-- With upstream servers alone the comparison crashes, and with bootstrap servers alone it
looks at their order. -/
theorem not_comparesServers :
    let c : DNSConfigPtr :=
      ⟨{}, fun | .upstreamDns => some (0, .upstreamDns) | _ => none⟩
    let mem : Slices := ⟨fun _ => ["8.8.8.8"], 1⟩
    let b : DNSConfig := { bootstrapDns := some ["1.1.1.1", "9.9.9.9"] }
    let b' : DNSConfig := { bootstrapDns := some ["9.9.9.9", "1.1.1.1"] }
    mem.Allocated c.lists ∧ (c.equals c mem).isNone ∧ ¬c.ComparesServers c mem ∧
      b.SameServers b' ∧ b.equals b' = some false := by
  intro c mem b b'
  have hcrash : c.equals c mem = none := rfl
  refine ⟨allocated_one .upstreamDns fun f' a ha => ?_, by rw [hcrash]; rfl, ?_,
    ⟨rfl, rfl, ?_, rfl⟩, by decide⟩
  · cases f' <;> cases ha
    rfl
  · rintro ⟨b, mem', h, -⟩
    rw [hcrash] at h
    cases h
  · exact congrArg some (Quotient.sound (List.Perm.swap _ _ _))

end DNSConfigPtr

end AghSync.Model
