import AghSync.ClientCompare
import AghSync.Scenario

/-!
# One replica does not see another

All replicas are processed from one snapshot of the origin, and the comparisons change it :
they sort the blocked services, the access lists and the lists of a client, and take the time
zone from the schedule of a client. What a replica receives then depends on the replicas
before it.

On an origin where none of this changes anything (`Settled`) the snapshot stays what was read
(`actionsKeep_eq`), and two runs in which the origin and a replica answer alike ask this
replica the same (`entriesOf_eq_of_facing`).
-/

open Interaction Interaction.Prog

namespace AghSync

open Model Worker

/-! ## Documents that no comparison changes -/

/-- The list is in the order in which it is sorted. -/
def Sorted (xs : Option (List String)) : Prop :=
  ∀ l ∈ xs, l.Pairwise (· ≤ ·)

theorem Sorted.map_sortStrings {xs : Option (List String)} (h : Sorted xs) :
    xs.map sortStrings = xs := by
  cases xs with
  | none => rfl
  | some l => exact congrArg some (h l rfl).insertionSort_eq

/-- The lists of the client are sorted, and a schedule with days has no time zone. -/
structure Model.Client.Settled (c : Model.Client) : Prop where
  ids : Sorted c.ids
  tags : Sorted c.tags
  blockedServices : Sorted c.blockedServices
  upstreams : Sorted c.upstreams
  timeZone : ∀ s ∈ c.blockedServicesSchedule, s.noDays = false → s.timeZone = none

/-- Documents of the origin that stay as they are, whatever they are compared with. Of clients
with one name only the last is compared. -/
def Settled (cfg : Config) : (q : Read) → Doc q → Prop
  | .blockedServicesGet, d => cfg.features.services = true → Sorted d.ids
  | .accessList, d => cfg.features.dns.accessLists = true →
    Sorted d.allowedClients ∧ Sorted d.disallowedClients ∧ Sorted d.blockedHosts
  | .clients, d => cfg.features.clientSettings = true → ∀ c,
    (KeyedMap.collect Client.key (d.clients.getD [])).lookup c.key = some c → c.Settled
  | _, _ => True

theorem servicesString_of_sorted {s : BlockedServicesSchedule} (h : Sorted s.ids) :
    s.servicesString.2 = s := by
  obtain ⟨ids, schedule⟩ := s
  cases ids with
  | none => rfl
  | some l =>
    have hsort : sortStrings l = l := (h l rfl).insertionSort_eq
    simp [BlockedServicesSchedule.servicesString, arrayString, hsort]

theorem equalsStringSlice_of_sorted (a : Option (List String)) {b : Option (List String)}
    (h : Sorted b) : (equalsStringSlice a b true).2.2 = b := by
  cases a <;> cases b <;> try rfl
  exact congrArg some (h _ rfl).insertionSort_eq

theorem accessList_equals_of_sorted (al : AccessList) {o : AccessList}
    (hallowed : Sorted o.allowedClients) (hdisallowed : Sorted o.disallowedClients)
    (hhosts : Sorted o.blockedHosts) : (al.equals o).2.2 = o := by
  unfold AccessList.equals
  simp only
  split_ifs
  · rw [equalsStringSlice_of_sorted _ hallowed]
  · rw [equalsStringSlice_of_sorted _ hallowed, equalsStringSlice_of_sorted _ hdisallowed]
  · rw [equalsStringSlice_of_sorted _ hallowed, equalsStringSlice_of_sorted _ hdisallowed,
      equalsStringSlice_of_sorted _ hhosts]

theorem Model.Client.Settled.sort_eq {c : Model.Client} (h : c.Settled) : c.sort = c := by
  simp only [Client.sort, h.ids.map_sortStrings, h.tags.map_sortStrings,
    h.blockedServices.map_sortStrings, h.upstreams.map_sortStrings]

/-- Comparing a settled client leaves it as it is. -/
theorem Model.Client.Settled.equals_eq {c : Model.Client} (h : c.Settled) (cl : Model.Client) :
    (c.equals cl).2.1 = c := by
  have hzone : c.KeepsTimeZone := h.timeZone
  rw [Client.equals_snd, hzone.compared_eq, h.sort_eq]

theorem foldl_set_eq_self {α : Type} : ∀ {rs : List (ℕ × α)} {xs : List α},
    (∀ r ∈ rs, xs[r.1]? = some r.2) → rs.foldl (fun xs r => xs.set r.1 r.2) xs = xs
  | [], _, _ => rfl
  | r :: rs, xs, h => by
    have hset : xs.set r.1 r.2 = xs := by
      obtain ⟨hr, he⟩ := List.getElem?_eq_some_iff.mp (h r (by simp))
      rw [← he]
      exact List.set_getElem_self hr
    rw [List.foldl_cons, hset]
    exact foldl_set_eq_self fun r' hr' => h r' (by simp [hr'])

theorem merge_other_of_settled {clients other : Clients} {o₁ o₂ : MapOrder String}
    {m : ClientsMerge} (hm : clients.merge other o₁ o₂ = some m)
    (h : ∀ c, (KeyedMap.collect Client.key (other.clients.getD [])).lookup c.key = some c →
      c.Settled) : m.other = other := by
  obtain ⟨-, -, -, compared, hcompared, -, hother⟩ := Clients.merge_eq_some hm
  rw [hother]
  obtain ⟨oc⟩ := other
  cases oc with
  | none => rfl
  | some oc =>
    refine congrArg Clients.mk (congrArg some ?_)
    have hsame : ∀ r ∈ compared.map (fun r => (r.1, r.2.2.1)), oc[r.1]? = some r.2 := by
      intro r hr
      obtain ⟨r', hr', rfl⟩ := List.mem_map.mp hr
      obtain ⟨c, cl, hc, hlast, he⟩ := hcompared r' hr'
      rw [he, (h c hlast).equals_eq cl]
      exact hc
    simpa [List.foldl_map] using foldl_set_eq_self hsame

/-! ## The snapshot -/

/-- All documents of the snapshot are settled. -/
def SettledSnapshot (cfg : Config) (o : Origin) : Prop :=
  ∀ q d, o.load q = (o.store q d).load q → Settled cfg q d

/-- The actions leave a settled snapshot as it is. -/
theorem actionsKeep_eq {w : Worker} {o₀ : Origin} (h : SettledSnapshot w.cfg o₀) :
    w.ActionsKeep (· = o₀) fun _ => True := by
  rintro a ha ac o tr out - rfl hrun
  obtain ⟨q, henabled⟩ := exists_enabled ha
  refine ⟨fun _ _ _ _ _ => trivial, ?_⟩
  rintro r o' rfl
  have hstaged := henabled.stagedIn ac o (fun q f => f = o.load q) ?services ?clients ?access
  case services =>
    intro hfeature s hs
    rw [servicesString_of_sorted (h .blockedServicesGet s hs hfeature)]
    exact hs.symm
  case clients =>
    intro hfeature rc c o₁ o₂ m hc hm
    rw [merge_other_of_settled hm (h .clients c hc hfeature)]
    exact hc.symm
  case access =>
    intro hfeature al c hc
    obtain ⟨hallowed, hdisallowed, hhosts⟩ := h .accessList c hc hfeature
    rw [accessList_equals_of_sorted al hallowed hdisallowed hhosts]
    exact hc.symm
  rcases hstaged.snapshot hrun with rfl | ⟨f, rfl, rfl⟩
  · rfl
  · exact o.save_load q

/-! ## Two runs -/

/-- The writes sent to `p`, in order. -/
def writesTo (p : Party) (tr : Trace Event Reply) : List Write :=
  tr.filterMap fun x => match x.1 with
    | .write p' wr => if p' = p then some wr else none
    | _ => none

theorem writesTo_entriesOf (p : Party) (tr : Trace Event Reply) :
    writesTo p (entriesOf p tr) = writesTo p tr := by
  rw [writesTo, entriesOf, List.filterMap_filter, writesTo]
  refine List.filterMap_congr fun x _ => ?_
  obtain ⟨e, reply⟩ := x
  cases e with
  | write p' wr =>
    by_cases hp : p' = p
    · simp [Event.party, hp]
    · simp [Event.party, hp]
  | _ => simp

/-- What a replica receives : the endpoints and bodies of the writes sent to it. -/
def received (r : AdGuardInstance) (tr : Trace Event Reply) : List (String × Option Json) :=
  (writesTo (.replica r) tr).map Write.wire

/-- A run that processes `r`, in which the origin and `r` answer by `S`. -/
structure Worker.Facing (w : Worker) (S : Party → Strategy Event Reply) (r : AdGuardInstance)
    (tr : Trace Event Reply) : Prop where
  runs : ∃ out, Prog.Runs w.sync tr out
  processed : ∃ x ∈ tr, x.1.party = some (.replica r)
  origin : Answers (S .origin) [] (entriesOf .origin tr)
  replica : Answers (S (.replica r)) [] (entriesOf (.replica r) tr)

theorem Worker.OriginRead.settled {w : Worker} {t : Trace Event Reply} {o : Origin}
    (h : OriginRead w .origin t o)
    (hsettled : ∀ q d, ⟨.read .origin q, .ok d⟩ ∈ t → Settled w.cfg q d) :
    SettledSnapshot w.cfg o := by
  obtain ⟨-, -, hreads⟩ := h
  intro q d hd
  by_cases hq : q ∈ originReads w.cfg
  · obtain ⟨d', hd', hload⟩ := hreads.loaded hq
    obtain rfl := Origin.eq_of_load_store (hload.symm.trans hd)
    exact hsettled q d' (by simp [hd'])
  · cases q with
    | blockedServicesGet | accessList | clients => exact absurd (by simp [originReads]) hq
    | _ => trivial

/-- A replica is asked the same in two runs that it and the origin answer alike. -/
theorem entriesOf_eq_of_facing {w : Worker} {S : Party → Strategy Event Reply}
    {r : AdGuardInstance} {tr₁ tr₂ : Trace Event Reply} (h₁ : w.Facing S r tr₁)
    (h₂ : w.Facing S r tr₂)
    (hsettled : ∀ q d, ⟨.read .origin q, .ok d⟩ ∈ tr₁ → Settled w.cfg q d) :
    entriesOf (.replica r) tr₁ = entriesOf (.replica r) tr₂ := by
  have hseg : ∀ {tr : Trace Event Reply}, w.Facing S r tr → ∃ origin o₀ before seg after o,
      OriginRead w .origin origin o₀ ∧
      entriesOf .origin tr = ⟨.createClient .origin, .ok ()⟩ :: origin ∧
      (SettledSnapshot w.cfg o₀ → o = o₀) ∧ w.Processing r tr before seg after o := by
    intro tr h
    obtain ⟨out, hrun⟩ := h.runs
    obtain ⟨x, hx, hparty⟩ := h.processed
    refine w.exists_processing (fun o₀ o => SettledSnapshot w.cfg o₀ → o = o₀) (fun _ _ => rfl)
      (fun o₀ r o t o' ho hsync hs => ?_) hrun hx hparty
    exact ((actionsKeep_eq hs).syncTo (fun _ => trivial) (ho hs) hsync).2 o' rfl
  obtain ⟨origin₁, o₁, _, seg₁, _, o, hread₁, horigin₁, heq₁, hproc₁⟩ := hseg h₁
  obtain ⟨origin₂, o₂, _, seg₂, _, o', hread₂, horigin₂, heq₂, hproc₂⟩ := hseg h₂
  have ha₁ := h₁.origin
  have ha₂ := h₂.origin
  rw [horigin₁] at ha₁
  rw [horigin₂] at ha₂
  obtain ⟨rfl, rfl⟩ := hread₁.unique hread₂ ha₁.2 ha₂.2
  have hs : SettledSnapshot w.cfg o₁ := by
    refine hread₁.settled fun q d hd => hsettled q d ?_
    have hmem : (⟨.read .origin q, .ok d⟩ : Entry Event Reply) ∈ entriesOf .origin tr₁ := by
      simp [horigin₁, hd]
    exact (List.mem_filter.mp hmem).1
  obtain rfl := heq₁ hs
  obtain rfl := heq₂ hs
  -- Both parts that process the replica start from the snapshot that was read.
  obtain ⟨out₁, hruns₁⟩ := hproc₁.runs
  obtain ⟨out₂, hruns₂⟩ := hproc₂.runs
  have hr₁ := h₁.replica
  have hr₂ := h₂.replica
  rw [hproc₁.entriesOf_eq] at hr₁ ⊢
  rw [hproc₂.entriesOf_eq] at hr₂ ⊢
  exact (w.entriesOf_syncTo_unique hruns₁ hruns₂ hr₁ hr₂).1

/-- Replica isolation. In two runs in which the origin and a replica answer alike, and in which
the documents of the origin are settled, the replica receives the same writes. -/
theorem Worker.sync_isolated (w : Worker) {S : Party → Strategy Event Reply}
    {r : AdGuardInstance} {tr₁ tr₂ : Trace Event Reply} (h₁ : w.Facing S r tr₁)
    (h₂ : w.Facing S r tr₂)
    (hsettled : ∀ q d, ⟨.read .origin q, .ok d⟩ ∈ tr₁ → Settled w.cfg q d) :
    (received r tr₁).Perm (received r tr₂) := by
  have heq := congrArg (writesTo (.replica r)) (entriesOf_eq_of_facing h₁ h₂ hsettled)
  rw [writesTo_entriesOf, writesTo_entriesOf] at heq
  rw [received, received, heq]

/-- A worker that syncs the blocked services to two replicas. -/
def servicesWorker : Worker :=
  sampleWorker { services := true } false ["/a", "/b"]

/-- The services `ids` are blocked at the origin and at `/b`, and none at `/a`. -/
def servicesScenario (ids : List String) (replicas : MapOrder String) : Scenario where
  doc p q := match p, q with
    | .origin, .blockedServicesGet => .ok { ids := some ids }
    | .replica r, .blockedServicesGet => .ok { ids := if r.apiPath = "/b" then some ids else none }
    | _, q => .ok (blankDoc q)
  replicas := replicas

/-- The answers of the scenario do not depend on the order of the replicas. -/
theorem servicesScenario_facing (ids : List String) (replicas : MapOrder String)
    (hprocessed : ∃ n : ℕ, ((servicesScenario ids replicas).trace servicesWorker.sync)[n]? =
      some ⟨.createClient (.replica (sampleReplica "/b")), .ok ()⟩) :
    servicesWorker.Facing (fun _ _ e => ((servicesScenario ids .stored).answer e ()).1)
      (sampleReplica "/b") ((servicesScenario ids replicas).trace servicesWorker.sync) := by
  obtain ⟨n, hn⟩ := hprocessed
  have hanswers : ∀ p, Answers (fun _ e => ((servicesScenario ids .stored).answer e ()).1) []
      (entriesOf p ((servicesScenario ids replicas).trace servicesWorker.sync)) := by
    refine fun p => always_of_forall fun x hx _ => ?_
    obtain ⟨hmem, hparty⟩ := List.mem_filter.mp hx
    have hreply := (servicesScenario ids replicas).reply_eq hmem
    obtain ⟨e, reply⟩ := x
    cases e with
    | rangeReplicas => simp [Event.party] at hparty
    | _ => exact hreply
  exact ⟨⟨_, (servicesScenario ids replicas).runs _⟩, ⟨_, List.mem_of_getElem? hn, rfl⟩,
    hanswers _, hanswers _⟩

/-- With sorted services both orders of the replicas send the same. -/
theorem Worker.sync_isolated_sample :
    (received (sampleReplica "/b")
      ((servicesScenario ["a", "b"] .stored).trace servicesWorker.sync)).Perm
    (received (sampleReplica "/b")
      ((servicesScenario ["a", "b"] .reversed).trace servicesWorker.sync)) := by
  refine servicesWorker.sync_isolated (servicesScenario_facing _ .stored ⟨17, rfl⟩)
    (servicesScenario_facing _ .reversed ⟨24, rfl⟩) fun q d hd => ?_
  have hreply := (servicesScenario ["a", "b"] .stored).reply_eq hd
  cases q with
  | blockedServicesGet =>
    obtain rfl := Except.ok.inj hreply
    rintro - l ⟨⟩
    decide
  | accessList | clients => exact nofun
  | _ => trivial

/-- With unsorted services a replica that has them already is left alone if it is processed
first, and written to if another one, to which they are sent, comes before it. -/
theorem Worker.exists_not_isolated : ∃ w S r tr₁ tr₂, Worker.Facing w S r tr₁ ∧
    Worker.Facing w S r tr₂ ∧ ¬(received r tr₁).Perm (received r tr₂) := by
  refine ⟨_, _, _, _, _, servicesScenario_facing ["b", "a"] .stored ⟨17, rfl⟩,
    servicesScenario_facing ["b", "a"] .reversed ⟨24, rfl⟩, fun hperm => ?_⟩
  have hlength := hperm.length_eq
  revert hlength
  decide

end AghSync
