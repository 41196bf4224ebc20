import AghSync.Dereference
import AghSync.Pass

/-!
# Where a run can crash

An action crashes where it dereferences a field that is absent. `Present` lists the fields,
by the document and the side it comes from : the rewrites themselves, the names of clients,
two lists of a DNS configuration on either side, and on the origin the switches and
intervals that the filter, safe search and query log actions send.

If every document with which an enabled action works has its fields (`Supplied`), no action
crashes (`Enabled.safe`), the snapshot keeps having them (`actionsKeep_complete`), and the
run processes all replicas (`processing_of_supplied`).
-/

open Interaction Interaction.Prog

namespace AghSync

open Model Worker

/-- The fields of a document of `p` that are dereferenced are there. -/
def Present (p : Party) : (q : Read) → Doc q → Prop
  | .rewriteList, d => d.isSome
  | .clients, d => ∀ c ∈ d.clients.getD [], c.name.isSome
  | .dnsInfo, d => d.upstreamDns.isSome → d.bootstrapDns.isSome ∧ d.localPtrUpstreams.isSome
  | .filteringStatus, d => p = .origin → d.enabled.isSome ∧ d.interval.isSome
  | .safesearchStatus, d => p = .origin → d.enabled.isSome
  | .querylogConfig, d => p = .origin →
    d.enabled.isSome ∧ d.interval.isSome ∧ d.anonymizeClientIp.isSome
  | _, _ => True

/-- A document with which an enabled action works has the fields it needs. -/
def Supplied (cfg : Config) : Entry Event Reply → Prop
  | ⟨.read p q, .ok d⟩ => (∃ a, Enabled cfg a q) → Present p q d
  | _ => True

/-! ## Computations that do not crash -/

/-- `m` crashes only after a document without a field that it needs. -/
def Safe (cfg : Config) {σ α : Type} (m : Call σ α) (s : σ) : Prop :=
  ∀ tr, Prog.Runs (m s) tr none → ∃ x ∈ tr, ¬Supplied cfg x

/-! ## The actions -/

/-- The field of the snapshot for `q` holds a document with its fields. -/
def Loaded (o : Origin) (q : Read) : Prop :=
  ∃ d, Present .origin q d ∧ o.load q = (o.store q d).load q

section Actions

variable {cfg : Config} (ac : ActionContext) {o : Origin}

/-- Two DNS configurations with their lists can be compared. -/
theorem dnsConfig_equals_isSome {p p' : Party} {c d : DNSConfig} (hc : Present p .dnsInfo c)
    (hd : Present p' .dnsInfo d) : (c.equals d).isSome := by
  have hsort : ∀ {p : Party} {c : DNSConfig}, Present p .dnsInfo c → ∃ c', c.sort = some c' := by
    intro p c hc
    unfold DNSConfig.sort
    cases hu : c.upstreamDns with
    | none => exact ⟨c, rfl⟩
    | some upstream =>
      obtain ⟨hb, hl⟩ := hc (by simp [hu])
      obtain ⟨b, hb⟩ := Option.isSome_iff_exists.mp hb
      obtain ⟨l, hl⟩ := Option.isSome_iff_exists.mp hl
      simp [hb, hl]
  obtain ⟨c', hc'⟩ := hsort hc
  obtain ⟨d', hd'⟩ := hsort hd
  simp [DNSConfig.equals, DNSConfig.clone, DNSConfig.unmarshal_marshal, hc', hd']

theorem supported_of_present {q : Read} {p : Party} {d₀ d : Doc q}
    (h₀ : Present .origin q d₀) (h : Present p q d) : Supported q d₀ d := by
  cases q with
  | rewriteList => exact ⟨h₀, h⟩
  | clients => exact fun c hc => (List.mem_append.mp hc).elim (h c) (h₀ c)
  | dnsInfo => exact dnsConfig_equals_isSome h h₀
  | filteringStatus => exact fun _ _ => h₀ rfl
  | safesearchStatus => exact fun _ => h₀ rfl
  | querylogConfig => exact fun _ => h₀ rfl
  | _ => trivial

/-- No enabled action crashes on documents with their fields. -/
theorem Enabled.safe {a : SyncAction} {q : Read} (h : Enabled cfg a q) (hload : Loaded o q) :
    Safe cfg (a.sync ac) o := by
  obtain ⟨d₀, hpresent, hd₀⟩ := hload
  refine h.crashesAfter ac hd₀ fun d hd => ?_
  exact supported_of_present hpresent (not_not.mp hd ⟨a, h⟩)

end Actions

/-! ## The snapshot -/

/-- The snapshot holds what the enabled actions need. -/
def Complete (cfg : Config) (o : Origin) : Prop :=
  ∀ a q, Enabled cfg a q → Loaded o q

/-- An action leaves the snapshot complete. -/
theorem Enabled.complete {cfg : Config} {a : SyncAction} {q : Read} (h : Enabled cfg a q)
    {ac : ActionContext} {o o' : Origin} {tr : Trace Event Reply} {r : Except Err Unit}
    (ho : Complete cfg o) (hrun : Prog.Runs (a.sync ac o) tr (some (r, o'))) :
    Complete cfg o' := by
  have hstaged := h.stagedIn ac o
    (fun q f => ∃ d, Present .origin q d ∧ f = (o.store q d).load q) ?services ?clients ?access
  case services => exact fun _ s _ => ⟨s.servicesString.2, trivial, rfl⟩
  case clients =>
    intro _ rc c o₁ o₂ m _ hm
    exact ⟨m.other, fun cl hcl => Clients.names_of_merge hm cl (by simp [hcl]), rfl⟩
  case access => exact fun _ al c _ => ⟨(al.equals c).2.2, trivial, rfl⟩
  rcases hstaged.snapshot hrun with rfl | ⟨f, ⟨d, hd, rfl⟩, rfl⟩
  · exact ho
  · intro a' q' h'
    by_cases hq : q' = q
    · subst hq
      exact ⟨d, hd, by rw [Origin.load_save]; cases q' <;> rfl⟩
    · obtain ⟨d', hd', hload⟩ := ho a' q' h'
      refine ⟨d', hd', ?_⟩
      rw [Origin.load_save_of_ne hq, hload]
      cases q' <;> rfl

section Run

variable {w : Worker}

/-- The actions do not crash, and leave the snapshot complete. -/
theorem runActions_complete {cfg : Config} {ac : ActionContext} :
    ∀ {as : List SyncAction} {withError : Bool} {o : Origin} {tr : Trace Event Reply}
      {done : Work}, as ⊆ setupActions cfg → Complete cfg o → (∀ x ∈ tr, Supplied cfg x) →
      Prog.Runs (runActions ac as withError o) tr (some done) →
        done.crashed = false ∧ Complete cfg done.origin
  | [], _, _, _, _, _, ho, _, h => by
    obtain ⟨-, hdone⟩ := runs_runActions_nil.mp h
    obtain rfl := Option.some.inj hdone
    exact ⟨rfl, ho⟩
  | a :: as, _, o, _, _, has, ho, hsupplied, h => by
    obtain ⟨ha, has'⟩ := List.cons_subset.mp has
    obtain ⟨q, henabled⟩ := exists_enabled ha
    rcases runs_runActions_cons h with ⟨t₁, o', t₂, rfl, h₁, h₂⟩ |
      ⟨t₁, e, o', t₂, rfl, h₁, -, h₂⟩ | ⟨e, o', h₁, -, hdone⟩ | ⟨h₁, -⟩
    · exact runActions_complete has' (henabled.complete ho h₁)
        (fun x hx => hsupplied x (by simp [hx])) h₂
    · exact runActions_complete has' (henabled.complete ho h₁)
        (fun x hx => hsupplied x (by simp [hx])) h₂
    · obtain rfl := Option.some.inj hdone
      exact ⟨rfl, henabled.complete ho h₁⟩
    · obtain ⟨x, hx, hbad⟩ := henabled.safe ac (ho a q henabled) _ h₁
      exact absurd (hsupplied x hx) hbad

/-- Processing a replica does not crash, and leaves the snapshot complete. -/
theorem syncTo_complete {r : AdGuardInstance} {o : Origin} {tr : Trace Event Reply}
    {out : Option Origin} (ho : Complete w.cfg o) (hsupplied : ∀ x ∈ tr, Supplied w.cfg x)
    (h : Prog.Runs (w.syncTo r o) tr out) : ∃ o', out = some o' ∧ Complete w.cfg o' := by
  rcases w.runs_syncTo h with ⟨e, -, rfl⟩ | ⟨start, stop, body, done, rfl, hbody, rfl⟩
  · exact ⟨o, rfl, ho⟩
  · rcases w.runs_work hbody with ⟨rs, t₁, t₂, rfl, -, -, hacts⟩ | ⟨d, -, -, hdone⟩
    · obtain ⟨hcrash, hcomplete⟩ := runActions_complete (List.Subset.refl _) ho
        (fun x hx => hsupplied x (by simp [hx])) hacts
      exact ⟨done.origin, by simp [hcrash], hcomplete⟩
    · obtain rfl := Option.some.inj hdone
      exact ⟨o, rfl, ho⟩

/-- All replicas are processed. -/
theorem created_of_complete : ∀ {rs : List AdGuardInstance} {o : Origin}
    {tr : Trace Event Reply} {out : Option Unit}, Complete w.cfg o →
    (∀ x ∈ tr, Supplied w.cfg x) → Prog.Runs (w.syncAll rs o) tr out →
      ∀ r ∈ rs, ∃ d, ⟨.createClient (.replica r), d⟩ ∈ tr
  | [], _, _, _, _, _, _, r, hr => by cases hr
  | r' :: rs, o, tr, out, ho, hsupplied, h, r, hr => by
    have hfirst : ∀ {o : Origin} {t : Trace Event Reply} {out : Option Origin},
        Prog.Runs (w.syncTo r' o) t out → ∃ d, ⟨.createClient (.replica r'), d⟩ ∈ t := by
      intro o t out ht
      rcases w.runs_syncTo ht with ⟨e, rfl, -⟩ | ⟨start, stop, body, done, rfl, -, -⟩
      · exact ⟨.error e, by simp⟩
      · exact ⟨.ok (), by simp⟩
    rcases w.runs_syncAll_cons.mp h with ⟨t₁, o', t₂, rfl, h₁, h₂⟩ | ⟨h₁, -⟩
    · obtain ⟨o'', ho'', hcomplete⟩ := syncTo_complete ho
        (fun x hx => hsupplied x (by simp [hx])) h₁
      obtain rfl := Option.some.inj ho''
      rcases List.mem_cons.mp hr with rfl | hr
      · obtain ⟨d, hd⟩ := hfirst h₁
        exact ⟨d, List.mem_append_left _ hd⟩
      · obtain ⟨d, hd⟩ := created_of_complete hcomplete
          (fun x hx => hsupplied x (by simp [hx])) h₂ r hr
        exact ⟨d, List.mem_append_right _ hd⟩
    · obtain ⟨o', ho', -⟩ := syncTo_complete ho hsupplied h₁
      cases ho'

/-- The snapshot of a successful reading is complete. -/
theorem Worker.OriginRead.complete {origin : Trace Event Reply} {o : Origin}
    (h : OriginRead w .origin origin o) (hsupplied : ∀ x ∈ origin, Supplied w.cfg x) :
    Complete w.cfg o := by
  obtain ⟨-, -, hreads⟩ := h
  intro a q henabled
  rcases henabled.mem_reads with rfl | rfl | hq
  · exact ⟨_, trivial, hreads.load_eq (status_notMem_originReads w.cfg)⟩
  · exact ⟨_, trivial, hreads.load_eq (profile_notMem_originReads w.cfg)⟩
  · obtain ⟨d, hd, hload⟩ := hreads.loaded hq
    exact ⟨d, hsupplied ⟨.read .origin q, .ok d⟩ (by simp [hd]) ⟨a, henabled⟩, hload⟩

/-- With the fields that are dereferenced, a run that gets past the origin processes every
replica. -/
theorem processing_of_supplied {tr : Trace Event Reply} {out : Option Unit}
    (h : Prog.Runs w.sync tr out) (hsupplied : ∀ x ∈ tr, Supplied w.cfg x)
    {order : MapOrder String} (horder : ⟨.rangeReplicas, order⟩ ∈ tr) {r : AdGuardInstance}
    (hr : r ∈ w.cfg.uniqueReplicas order) :
    ∃ pre seg post o, w.Processing r tr pre seg post o := by
  rcases w.passed_or_early h with ⟨origin, o₀, order', all, tail, hpassed⟩ | hearly
  · obtain rfl : order = order' := by
      rcases hpassed.mem.mp horder with he | he | he | hmem | he | hmem | hmem
      · cases he
      · cases he
      · cases he
      · cases hpassed.party_origin hmem
      · cases he
        rfl
      · exact absurd rfl (hpassed.replicas.of_only (w.syncAll_ne_rangeReplicas _ _) _ hmem)
      · exact absurd (hpassed.finish.of_only w.only_finish _ hmem) id
    have hcomplete := hpassed.read.complete fun x hx =>
      hsupplied x (hpassed.mem.mpr (by simp [hx]))
    obtain ⟨d, hd⟩ := created_of_complete hcomplete
      (fun x hx => hsupplied x (hpassed.mem.mpr (by simp [hx]))) hpassed.replicas r hr
    have hmem : (⟨.createClient (.replica r), d⟩ : Entry Event Reply) ∈ tr :=
      hpassed.mem.mpr (by simp [hd])
    obtain ⟨_, _, pre, seg, post, o, -, -, -, hproc⟩ := w.exists_processing (fun _ _ => True)
      (fun _ => trivial) (fun _ _ _ _ _ _ _ => trivial) h hmem rfl
    exact ⟨pre, seg, post, o, hproc⟩
  · rcases hearly _ horder with ⟨-, hne⟩ | he | ⟨q, he⟩
    · exact absurd rfl hne
    · cases he
    · cases he

end Run

end AghSync
