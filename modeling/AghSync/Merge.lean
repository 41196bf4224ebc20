import AghSync.Compare
import AghSync.KeyedMap

/-!
# Merging lists

What has to change on a replica, from its list and the origin's. Each merge keys the
replica's list (filters by URL, leases by MAC, clients by name, rewrites by domain and
answer) and matches the origin's list against it. The order of what is left of a map is
the order of an iteration over it, and is given.

`Clients.merge` compares, and a comparison sorts its arguments through the pointers the
two lists share. `ClientsMerge.other` is the origin's list as the merge leaves it.
-/

namespace AghSync.Model

open KeyedMap

/-! ## Filters -/

/-- What to do to the list of filters of a replica. -/
structure FilterMerge where
  adds : List Filter := []
  updates : List Filter := []
  removes : List Filter := []
  deriving DecidableEq

/-- `MergeFilters`. -/
def mergeFilters (this other : Option (List Filter)) (o : MapOrder String) : FilterMerge :=
  if this.isNone && other.isNone then {} else
  let current := collect Filter.url (this.getD [])
  let c := consume Filter.url (other.getD []) current
  { adds := c.misses
    updates := (c.hits.filter fun h => !h.2.equals h.1).map Prod.fst
    removes := c.rest.values o }

/-! ## Static leases -/

/-- What to do to the static leases of a replica. -/
structure LeaseMerge where
  adds : List DhcpStaticLease
  removes : List DhcpStaticLease

/-- `MergeDhcpStaticLeases`. A lease whose MAC is known is taken out, whatever else it
holds. -/
def mergeDhcpStaticLeases (l other : Option (List DhcpStaticLease)) (o : MapOrder String) :
    LeaseMerge :=
  let current := collect DhcpStaticLease.mac (l.getD [])
  let c := consume DhcpStaticLease.mac (other.getD []) current
  { adds := c.misses, removes := c.rest.values o }

/-! ## Clients -/

/-- `*client.Name`, once it is known not to be nil. -/
def Client.key (cl : Client) : String :=
  cl.name.getD ""

/-- What to do to the clients of a replica, and the origin's clients afterwards. -/
structure ClientsMerge where
  adds : List Client
  updates : List Client
  removes : List Client
  other : Clients

/-- `Clients.Merge`, with the orders of its two iterations. A client without a name is a
nil dereference. The entry of `expected` shares its lists and its schedule with the element
of `other` at its index, so what the comparison does to the one it does to the other. -/
def Clients.merge (clients other : Clients) (o₁ o₂ : MapOrder String) : Option ClientsMerge :=
  let cc := clients.clients.getD []
  let oc := other.clients.getD []
  if (cc ++ oc).any fun cl => cl.name.isNone then none else
  let current := collect Client.key cc
  let expected := collect (fun e : Client × ℕ => e.1.key) oc.zipIdx
  let c := consume (fun e => e.1.key) (expected.values o₁) current
  let compared := c.hits.map fun h => (h.1.2, h.1.1.equals h.2)
  some
    { adds := c.misses.map Prod.fst
      updates := (compared.filter fun r => !r.2.1).map fun r => r.2.2.1
      removes := c.rest.values o₂
      other := ⟨other.clients.map fun oc => compared.foldl (fun oc r => oc.set r.1 r.2.2.1) oc⟩ }

/-- What a merge that does not crash returns. The result of a comparison is put back where
the origin's client is, the last one with its name. -/
theorem Clients.merge_eq_some {clients other : Clients} {o₁ o₂ : MapOrder String}
    {m : ClientsMerge} (h : clients.merge other o₁ o₂ = some m) :
    (∀ c ∈ clients.clients.getD [] ++ other.clients.getD [], c.name.isSome) ∧
    m.removes ⊆ clients.clients.getD [] ∧ m.adds ⊆ other.clients.getD [] ∧
    ∃ compared : List (ℕ × Bool × Client × Client),
      (∀ r ∈ compared, ∃ c cl, (other.clients.getD [])[r.1]? = some c ∧
        (collect Client.key (other.clients.getD [])).lookup c.key = some c ∧
        r.2 = c.equals cl) ∧
      m.updates = (compared.filter fun r => !r.2.1).map (fun r => r.2.2.1) ∧
      m.other = ⟨other.clients.map fun oc =>
        compared.foldl (fun oc r => oc.set r.1 r.2.2.1) oc⟩ := by
  unfold Clients.merge at h
  simp only at h
  split_ifs at h with hnames
  obtain rfl := Option.some.inj h
  have hexpected : ∀ e ∈ (collect (fun e : Client × ℕ => e.1.key)
      (other.clients.getD []).zipIdx).values o₁,
        (other.clients.getD [])[e.2]? = some e.1 ∧
        (collect Client.key (other.clients.getD [])).lookup e.1.key = some e.1 := by
    intro e he
    obtain ⟨k, hk⟩ := mem_values.mp he
    obtain ⟨hmem, rfl⟩ := of_lookup_collect hk
    refine ⟨List.mem_zipIdx_iff_getElem?.mp hmem, ?_⟩
    have hmap := lookup_collect_map Client.key Prod.fst (other.clients.getD []).zipIdx e.1.key
    rw [List.zipIdx_map_fst] at hmap
    rw [hmap, hk]
    rfl
  refine ⟨fun c hc => ?_, fun c hc => mem_of_mem_rest hc, fun c hc => ?_, _, ?_, rfl, rfl⟩
  · by_contra hnone
    exact hnames (List.any_eq_true.mpr ⟨c, hc, by simpa using hnone⟩)
  · obtain ⟨e, he, rfl⟩ := List.mem_map.mp hc
    exact List.mem_of_getElem? (hexpected e ((misses_sublist _ _).subset he)).1
  · intro r hr
    obtain ⟨hit, hhit, rfl⟩ := List.mem_map.mp hr
    have hmem := (hits_sublist _ _).subset (List.mem_map_of_mem hhit)
    exact ⟨hit.1.1, hit.2, (hexpected _ hmem).1, (hexpected _ hmem).2, rfl⟩

/-- A comparison keeps the names. -/
theorem Client.name_equals (cl o : Client) : (cl.equals o).2.1.name = cl.name := by
  unfold Client.equals Client.prepareDiff
  simp only
  split
  · split <;> rfl
  · rfl

theorem Clients.merge_isSome {clients other : Clients} (o₁ o₂ : MapOrder String)
    (h : ∀ c ∈ clients.clients.getD [] ++ other.clients.getD [], c.name.isSome) :
    (clients.merge other o₁ o₂).isSome := by
  have hnames : ¬(clients.clients.getD [] ++ other.clients.getD []).any
      (fun cl => cl.name.isNone) = true := by
    intro hany
    obtain ⟨c, hc, hnone⟩ := List.any_eq_true.mp hany
    simpa [Option.isNone_iff_eq_none.mp hnone] using h c hc
  unfold Clients.merge
  simp only
  rw [if_neg hnames]
  rfl

/-- Every client a merge returns has the name of a client it was given. -/
theorem Clients.names_of_merge {clients other : Clients} {o₁ o₂ : MapOrder String}
    {m : ClientsMerge} (h : clients.merge other o₁ o₂ = some m) :
    ∀ c ∈ m.removes ++ m.adds ++ m.updates ++ m.other.clients.getD [], c.name.isSome := by
  obtain ⟨hnames, hremoves, hadds, compared, hcompared, hupdates, hother⟩ := merge_eq_some h
  have hequals : ∀ r ∈ compared, r.2.2.1.name.isSome := by
    intro r hr
    obtain ⟨c, cl, hc, -, he⟩ := hcompared r hr
    rw [he, Client.name_equals]
    exact hnames c (List.mem_append_right _ (List.mem_of_getElem? hc))
  have hset : ∀ {rs : List (ℕ × Bool × Client × Client)} {oc : List Client}, rs ⊆ compared →
      (∀ c ∈ oc, c.name.isSome) →
        ∀ c ∈ rs.foldl (fun oc r => oc.set r.1 r.2.2.1) oc, c.name.isSome := by
    intro rs
    induction rs with
    | nil => exact fun _ hoc => hoc
    | cons r rs ih =>
      intro oc hrs hoc
      obtain ⟨hr, hrs'⟩ := List.cons_subset.mp hrs
      refine ih hrs' fun c hc => ?_
      rcases List.mem_or_eq_of_mem_set hc with hc | rfl
      · exact hoc c hc
      · exact hequals r hr
  intro c hc
  simp only [List.mem_append] at hc
  rcases hc with ((hc | hc) | hc) | hc
  · exact hnames c (List.mem_append_left _ (hremoves hc))
  · exact hnames c (List.mem_append_right _ (hadds hc))
  · rw [hupdates] at hc
    obtain ⟨r, hr, rfl⟩ := List.mem_map.mp hc
    exact hequals r (List.mem_filter.mp hr).1
  · rw [hother] at hc
    cases hoc : other.clients with
    | none => simp [hoc] at hc
    | some oc =>
      simp only [hoc, Option.map_some, Option.getD_some] at hc
      refine hset (List.Subset.refl _) (fun c hc => hnames c (List.mem_append_right _ ?_)) c hc
      simpa [hoc] using hc

/-! ## Rewrites -/

/-- `RewriteEntry.Key`. -/
def RewriteEntry.key (re : RewriteEntry) : String :=
  re.domain.getD "" ++ "#" ++ re.answer.getD ""

/-- The variables of `RewriteEntries.Merge`. -/
structure RewriteMerge where
  current : KeyedMap String RewriteEntry := ∅
  processed : KeyedMap String Bool := ∅
  adds : List RewriteEntry := []
  removes : List RewriteEntry := []
  duplicates : List RewriteEntry := []

namespace RewriteMerge

/-- One entry of the replica : the first with its key is kept, the others are removed. -/
def this (m : RewriteMerge) (rr : RewriteEntry) : RewriteMerge :=
  if rr.key ∉ m.processed then
    { m with
      current := m.current.insert rr.key rr
      processed := m.processed.insert rr.key true }
  else { m with removes := m.removes ++ [rr] }

/-- One entry of the origin. -/
def other (m : RewriteMerge) (rr : RewriteEntry) : RewriteMerge :=
  if rr.key ∈ m.current then { m with current := m.current.erase rr.key }
  else if rr.key ∉ m.processed then
    { m with adds := m.adds ++ [rr], processed := m.processed.insert rr.key true }
  else { m with duplicates := m.duplicates ++ [rr] }

end RewriteMerge

/-- `RewriteEntries.Merge`. -/
def mergeRewrites (rwe other : List RewriteEntry) (o : MapOrder String) : RewriteMerge :=
  let m := other.foldl RewriteMerge.other (rwe.foldl RewriteMerge.this {})
  { m with removes := m.removes ++ m.current.values o }

end AghSync.Model
