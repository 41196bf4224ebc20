import AghSync.Pass

/-!
# What an action is meant to write

A `Script` fixes what a replica shows : the document of each reading and the order of each
iteration, whatever becomes of the writes. Under a script an action has a plan, the writes it
issues when none of them fails, and with failures it issues a beginning of the plan
(`Follows`).

Two actions may end at a write that others should follow : the rewrites (`rewritesPlan`) and
the filters (`filtersPlan`). All others only end at the last write of their plan (`Finishes`).
-/

open Interaction Interaction.Prog

namespace AghSync

open Model

/-! ## Writes and their answers -/

/-- The writes of a trace with their answers. -/
def sent (tr : Trace Event Reply) : List (Write × Except Err Unit) :=
  tr.filterMap fun
    | ⟨.write _ wr, r⟩ => some (wr, r)
    | _ => none

/-- The writes of a trace. -/
def issued (tr : Trace Event Reply) : List Write :=
  (sent tr).map Prod.fst

/-- The documents that are read in a trace. -/
def readings (tr : Trace Event Reply) : List Read :=
  tr.filterMap fun x => match x.1 with
    | .read _ q => some q
    | _ => none

@[simp] theorem sent_append (t₁ t₂ : Trace Event Reply) :
    sent (t₁ ++ t₂) = sent t₁ ++ sent t₂ :=
  List.filterMap_append

@[simp] theorem issued_append (t₁ t₂ : Trace Event Reply) :
    issued (t₁ ++ t₂) = issued t₁ ++ issued t₂ := by
  simp [issued]

@[simp] theorem readings_append (t₁ t₂ : Trace Event Reply) :
    readings (t₁ ++ t₂) = readings t₁ ++ readings t₂ :=
  List.filterMap_append

/-- Where a write of a trace was issued. -/
theorem exists_entry_of_issued : ∀ {tr : Trace Event Reply} {pre post : List Write} {wr : Write},
    issued tr = pre ++ wr :: post → ∃ t₁ p d t₂,
      tr = t₁ ++ (⟨.write p wr, d⟩ : Entry Event Reply) :: t₂ ∧ issued t₁ = pre ∧ issued t₂ = post
  | [], pre, post, wr, h => by simp [issued, sent] at h
  | ⟨e, d⟩ :: tr, pre, post, wr, h => by
    have skip : issued tr = pre ++ wr :: post → (∀ t, issued (⟨e, d⟩ :: t) = issued t) →
        ∃ t₁ p d' t₂, (⟨e, d⟩ :: tr : Trace Event Reply) = t₁ ++ ⟨.write p wr, d'⟩ :: t₂ ∧
          issued t₁ = pre ∧ issued t₂ = post := by
      intro htr hskip
      obtain ⟨t₁, p, d', t₂, rfl, hpre, hpost⟩ := exists_entry_of_issued htr
      exact ⟨⟨e, d⟩ :: t₁, p, d', t₂, rfl, by rw [hskip, hpre], hpost⟩
    cases e with
    | write p wr' =>
      cases pre with
      | nil =>
        obtain ⟨rfl, hpost⟩ := List.cons.inj h
        exact ⟨[], p, d, tr, rfl, rfl, hpost⟩
      | cons wr₀ pre =>
        obtain ⟨rfl, htr⟩ := List.cons.inj h
        obtain ⟨t₁, p', d', t₂, rfl, hpre, hpost⟩ := exists_entry_of_issued htr
        exact ⟨⟨.write p wr', d⟩ :: t₁, p', d', t₂, rfl, congrArg (List.cons wr') hpre, hpost⟩
    | _ => exact skip h fun _ => rfl

theorem exists_mem_of_issued {tr : Trace Event Reply} {wr : Write} (h : wr ∈ issued tr) :
    ∃ p d, (⟨.write p wr, d⟩ : Entry Event Reply) ∈ tr := by
  obtain ⟨pre, post, hsplit⟩ := List.append_of_mem h
  obtain ⟨t₁, p, d, t₂, rfl, -⟩ := exists_entry_of_issued hsplit
  exact ⟨p, d, by simp⟩

/-! ## Scripts -/

/-- What a replica shows : whether a client for it can be created, the document of the `n`-th
reading, and the orders of the iterations. -/
structure Script where
  created : Except Err Unit
  doc : (q : Read) → ℕ → Doc q
  order : MergeSite → MapOrder String

/-- The entry is answered by the script. Writes may fail. -/
def Scripted (sc : Script) (hist : Trace Event Reply) : Entry Event Reply → Prop
  | ⟨.createClient _, d⟩ => d = sc.created
  | ⟨.read _ q, d⟩ => d = .ok (sc.doc q ((readings hist).count q))
  | ⟨.rangeMap _ site, order⟩ => order = sc.order site
  | _ => True

/-! ## The writing stage -/

/-- Under the script, `m` issues `P` and then crashes or succeeds, or it fails after a
beginning of `P`. -/
def Issues (sc : Script) {σ : Type} (m : Call σ Unit) (s : σ) (P : List Write) (crashes : Bool) :
    Prop :=
  ∀ hist tr out, Prog.Runs (m s) tr out → Always (Scripted sc) hist tr → readings tr = [] ∧
    ((issued tr = P ∧ out = if crashes then none else some (.ok (), s)) ∨
      issued tr <+: P ∧ ∃ e, out = some (.error e, s))

namespace Issues

variable {sc : Script} {σ : Type} {cl : Client} {s : σ}

theorem pure : Issues sc (Pure.pure () : Call σ Unit) s [] false := by
  intro hist tr out h _
  obtain ⟨rfl, rfl⟩ := Prog.runs_ret.mp h
  exact ⟨rfl, Or.inl ⟨rfl, rfl⟩⟩

theorem send (w : Write) : Issues sc (cl.send w) s [w] false := by
  intro hist tr out h _
  obtain ⟨e | _, rfl, rfl⟩ := Client.runs_send.mp h
  · exact ⟨rfl, Or.inr ⟨List.prefix_refl _, e, rfl⟩⟩
  · exact ⟨rfl, Or.inl ⟨rfl, rfl⟩⟩

theorem tolerate_send (coe : Bool) (w : Write) :
    Issues sc (Act.tolerate coe (cl.send w)) s [w] false := by
  intro hist tr out h _
  obtain ⟨r, rfl, rfl⟩ := Client.runs_tolerate_send.mp h
  cases coe with
  | true => exact ⟨rfl, Or.inl ⟨rfl, rfl⟩⟩
  | false =>
    rcases r with e | _
    · exact ⟨rfl, Or.inr ⟨List.prefix_refl _, e, rfl⟩⟩
    · exact ⟨rfl, Or.inl ⟨rfl, rfl⟩⟩

theorem bind {m : Call σ Unit} {f : Unit → Call σ Unit} {P₁ P₂ : List Write} {crashes : Bool}
    (hm : Issues sc m s P₁ false) (hf : Issues sc (f ()) s P₂ crashes) :
    Issues sc (m >>= f) s (P₁ ++ P₂) crashes := by
  intro hist tr out h hs
  rcases Act.runs_bind.mp h with ⟨t₁, a, s', t₂, rfl, h₁, h₂⟩ | ⟨e, s', h₁, rfl⟩ | ⟨h₁, -⟩
  · obtain ⟨hs₁, hs₂⟩ := always_append.mp hs
    obtain ⟨hreads₁, ⟨hP₁, ho⟩ | ⟨-, e, ho⟩⟩ := hm _ _ _ h₁ hs₁
    · obtain ⟨-, rfl⟩ := Prod.mk.inj (Option.some.inj ho)
      obtain ⟨hreads₂, ⟨hP₂, ho₂⟩ | ⟨hP₂, herr⟩⟩ := hf _ _ _ h₂ hs₂
      all_goals
        refine ⟨by rw [readings_append, hreads₁, hreads₂]; rfl, ?_⟩
        rw [issued_append, hP₁]
      · exact Or.inl ⟨by rw [hP₂], ho₂⟩
      · exact Or.inr ⟨(List.prefix_append_right_inj P₁).mpr hP₂, herr⟩
    · cases ho
  · obtain ⟨hreads, ⟨-, ho⟩ | ⟨hP, e', ho⟩⟩ := hm _ _ _ h₁ hs
    · cases ho
    · obtain ⟨he, rfl⟩ := Prod.mk.inj (Option.some.inj ho)
      exact ⟨hreads, Or.inr ⟨hP.trans (List.prefix_append _ _), e, rfl⟩⟩
  · obtain ⟨-, ⟨-, ho⟩ | ⟨-, _, ho⟩⟩ := hm _ _ _ h₁ hs
    · cases ho
    · cases ho

theorem forEach {α : Type} {body : α → Call σ Unit} {f : α → Write} : ∀ {xs : List α},
    (∀ x ∈ xs, Issues sc (body x) s [f x] false) →
      Issues sc (Act.forEach xs body) s (xs.map f) false
  | [], _ => pure
  | x :: xs, h => by
    have hrest : Issues sc (Act.forEach xs body) s (xs.map f) false :=
      forEach fun y hy => h y (by simp [hy])
    exact bind (h x (by simp)) hrest

theorem range {site : MergeSite} {k : MapOrder String → Call σ Unit} {P : List Write}
    {crashes : Bool} (h : Issues sc (k (sc.order site)) s P crashes) :
    Issues sc (cl.rangeMap site >>= k) s P crashes := by
  intro hist tr out hrun hs
  obtain ⟨order, t, rfl, hk⟩ := Client.runs_rangeMap_bind.mp hrun
  obtain rfl : order = sc.order site := hs.1
  obtain ⟨hreads, hcases⟩ := h _ _ _ hk hs.2
  exact ⟨hreads, hcases⟩

theorem crash {α : Type} (k : α → Call σ Unit) :
    Issues sc (Act.deref none >>= k) s [] true := by
  intro hist tr out hrun _
  obtain ⟨rfl, rfl⟩ := Prog.runs_crash.mp hrun
  exact ⟨rfl, Or.inl ⟨rfl, rfl⟩⟩

end Issues

/-! ## Following a plan -/

/-- When `rs` has been read before, `m` reads `reads` under the script, issues `P` and leaves
the snapshot `fin`, or crashes if there is none. Or it fails after a beginning of `P`, with
the snapshot it leaves otherwise. -/
def Follows (sc : Script) (rs : List Read) (m : Call Origin Unit) (o : Origin)
    (reads : List Read) (P : List Write) (fin : Option Origin) : Prop :=
  ∀ hist tr out, readings hist = rs → Prog.Runs (m o) tr out → Always (Scripted sc) hist tr →
    readings tr = reads ∧
      ((issued tr = P ∧ out = fin.map fun o' => (.ok (), o')) ∨
        issued tr <+: P ∧ ∃ e o', out = some (.error e, o') ∧ ∀ o'' ∈ fin, o'' = o')

namespace Follows

variable {sc : Script} {rs reads : List Read} {cl : Client} {o : Origin} {P : List Write}
  {fin : Option Origin}

theorem write {m : Call Origin Unit} {crashes : Bool} (h : Issues sc m o P crashes) :
    Follows sc rs m o [] P (if crashes then none else some o) := by
  intro hist tr out _ hrun hs
  obtain ⟨hreads, ⟨hP, ho⟩ | ⟨hP, e, ho⟩⟩ := h _ _ _ hrun hs
  · refine ⟨hreads, Or.inl ⟨hP, ?_⟩⟩
    rw [ho]
    cases crashes <;> rfl
  · refine ⟨hreads, Or.inr ⟨hP, e, o, ho, ?_⟩⟩
    cases crashes <;> simp

theorem crash {α : Type} (k : α → Call Origin Unit) :
    Follows sc rs (Act.deref none >>= k) o [] [] none := by
  intro hist tr out _ hrun _
  obtain ⟨rfl, rfl⟩ := Prog.runs_crash.mp hrun
  exact ⟨rfl, Or.inl ⟨rfl, rfl⟩⟩

theorem fromOrigin {α : Type} {f : Origin → Option α} {k : α → Call Origin Unit}
    (h : Follows sc rs (Act.deref (f o) >>= k) o reads P fin) :
    Follows sc rs (AghSync.fromOrigin f >>= k) o reads P fin := by
  rw [AghSync.fromOrigin, Act.bind_assoc]
  exact h

theorem read {q : Read} {k : Doc q → Call Origin Unit}
    (h : Follows sc (rs ++ [q]) (k (sc.doc q (rs.count q))) o reads P fin) :
    Follows sc rs (cl.doGet q >>= k) o (q :: reads) P fin := by
  intro hist tr out hrs hrun hs
  rcases Client.runs_doGet_bind.mp hrun with ⟨d, t, rfl, hk⟩ | ⟨e, rfl, -⟩
  · obtain rfl : d = sc.doc q (rs.count q) := by
      rw [← hrs]
      exact Except.ok.inj hs.1
    have hrs' : readings (hist ++ [⟨.read cl.party q, .ok (sc.doc q (rs.count q))⟩]) =
        rs ++ [q] := by
      rw [readings_append, hrs]
      rfl
    obtain ⟨hreads, hcases⟩ := h _ _ _ hrs' hk hs.2
    exact ⟨congrArg (List.cons q) hreads, hcases⟩
  · cases hs.1

theorem range {site : MergeSite} {k : MapOrder String → Call Origin Unit}
    (h : Follows sc rs (k (sc.order site)) o reads P fin) :
    Follows sc rs (cl.rangeMap site >>= k) o reads P fin := by
  intro hist tr out hrs hrun hs
  obtain ⟨order, t, rfl, hk⟩ := Client.runs_rangeMap_bind.mp hrun
  obtain rfl : order = sc.order site := hs.1
  have hrs' : readings (hist ++ [⟨.rangeMap cl.party site, sc.order site⟩]) = rs := by
    rw [readings_append, hrs]
    exact List.append_nil rs
  obtain ⟨hreads, hcases⟩ := h _ _ _ hrs' hk hs.2
  exact ⟨hreads, hcases⟩

end Follows

/-! ## The plans that may be cut short -/

/-- What the rewrites call for : the entries to delete, then those to add. -/
def rewritesPlan (replica origin : Option (List RewriteEntry)) (order : MapOrder String) :
    List Write :=
  match replica, origin with
  | some rwe, some other =>
    let m := mergeRewrites rwe other order
    m.removes.map .rewriteDelete ++ m.adds.map .rewriteAdd
  | _, _ => []

/-- What one kind of filters calls for. The lists are refreshed when one is added or updated. -/
def filterTypePlan (of rFilters : Option (List Filter)) (whitelist : Bool)
    (order : MapOrder String) : List Write :=
  let m := mergeFilters rFilters of order
  m.removes.map (fun f => .filteringRemoveUrl { url := some f.url, whitelist := some whitelist }) ++
  (m.adds.map (fun f => .filteringAddUrl
      { name := some f.name, url := some f.url, whitelist := some whitelist }) ++
  (m.updates.map (fun f => .filteringSetUrl
      { whitelist := some whitelist
        url := some f.url
        data := some { name := f.name, url := f.url, enabled := f.enabled } }) ++
  if m.adds.length > 0 ∨ m.updates.length > 0 then
    [.filteringRefresh { whitelist := some whitelist }] else []))

/-- What the custom rules and the filtering toggles call for. -/
def settingsPlan (o rf : FilterStatus) : List Write :=
  if Utils.ptrToString o.userRules ≠ Utils.ptrToString rf.userRules then
    [.filteringSetRules { rules := o.userRules }]
  else if !Utils.ptrEquals o.enabled rf.enabled || !Utils.ptrEquals o.interval rf.interval then
    match o.enabled, o.interval with
    | some enabled, some interval =>
      [.filteringConfig { enabled := some enabled, interval := some interval }]
    | _, _ => []
  else []

/-- What the filters call for : the block lists, the allow lists, then the rest. -/
def filtersPlan (replica : FilterStatus) (origin : Option FilterStatus)
    (order : Bool → MapOrder String) : List Write :=
  match origin with
  | some o =>
    filterTypePlan o.filters replica.filters false (order false) ++
    (filterTypePlan o.whitelistFilters replica.whitelistFilters true (order true) ++
    settingsPlan o replica)
  | none => []

section Plans

variable {sc : Script} {rs : List Read} (ac : ActionContext) (o : Origin)

theorem issues_syncFilterType (of rFilters : Option (List Filter)) (whitelist : Bool)
    (cl : Client) (coe : Bool) :
    Issues sc (syncFilterType of rFilters whitelist cl coe) o
      (filterTypePlan of rFilters whitelist (sc.order (.filters whitelist))) false := by
  refine .range (.bind (.forEach fun f _ => .tolerate_send coe _) <|
    .bind (.forEach fun f _ => .tolerate_send coe _) <|
    .bind (.forEach fun f _ => .tolerate_send coe _) ?_)
  split_ifs
  · exact .send _
  · exact .pure

/-- The settings crash when the toggles differ and the origin's are nil. -/
theorem issues_syncRulesAndToggles (fs rf : FilterStatus) (cl : Client) :
    ∃ crashes, Issues sc (syncRulesAndToggles fs rf cl) o (settingsPlan fs rf) crashes := by
  unfold syncRulesAndToggles settingsPlan
  split_ifs
  · exact ⟨_, .send _⟩
  · cases fs.enabled with
    | none => exact ⟨_, .crash _⟩
    | some enabled =>
      cases fs.interval with
      | none => exact ⟨_, .crash (cl.toggleFiltering enabled)⟩
      | some interval => exact ⟨_, .send _⟩
  · exact ⟨_, .pure⟩

theorem follows_dnsRewrites : ∃ fin, Follows sc rs (actionDNSRewrites ac) o [.rewriteList]
    (rewritesPlan (sc.doc .rewriteList (rs.count .rewriteList)) o.rewrites (sc.order .rewrites))
    fin := by
  refine Exists.imp (fun _ => Follows.read) ?_
  cases sc.doc .rewriteList (rs.count .rewriteList) with
  | none => exact ⟨_, .crash _⟩
  | some rwe =>
    refine Exists.imp (fun _ => Follows.fromOrigin) ?_
    cases o.rewrites with
    | none => exact ⟨_, .crash _⟩
    | some other =>
      exact ⟨_, .range (.write (.bind (.forEach fun _ _ => .send _) (.forEach fun _ _ => .send _)))⟩

theorem follows_filters : ∃ fin, Follows sc rs (actionFilters ac) o [.filteringStatus]
    (filtersPlan (sc.doc .filteringStatus (rs.count .filteringStatus)) o.filters
      fun whitelist => sc.order (.filters whitelist)) fin := by
  refine Exists.imp (fun _ h => Follows.read (Follows.fromOrigin h)) ?_
  cases o.filters with
  | none => exact ⟨_, .crash _⟩
  | some fs =>
    obtain ⟨crashes, hsettings⟩ := issues_syncRulesAndToggles o fs
      (sc.doc .filteringStatus (rs.count .filteringStatus)) ac.client
    exact ⟨_, .write (.bind (issues_syncFilterType o _ _ _ _ _)
      (.bind (issues_syncFilterType o _ _ _ _ _) hsettings))⟩

end Plans

/-! ## The other actions -/

/-- `m` follows a plan of which only the last write can end it. -/
def Finishes (sc : Script) (rs : List Read) (m : Call Origin Unit) (o : Origin) : Prop :=
  ∃ reads P fin, Follows sc rs m o reads P fin ∧ ∀ wr ∈ P.dropLast, wr.tolerable = true

namespace Finishes

variable {sc : Script} {rs : List Read} {cl : Client} {o : Origin}

theorem read {q : Read} {k : Doc q → Call Origin Unit}
    (h : ∀ d, Finishes sc (rs ++ [q]) (k d) o) : Finishes sc rs (cl.doGet q >>= k) o := by
  obtain ⟨reads, P, fin, hfollows, hP⟩ := h (sc.doc q (rs.count q))
  exact ⟨_, _, _, hfollows.read, hP⟩

theorem deref {α : Type} {x : Option α} {k : α → Call Origin Unit}
    (h : ∀ a, x = some a → Finishes sc rs (k a) o) : Finishes sc rs (Act.deref x >>= k) o := by
  cases x with
  | none => exact ⟨_, _, _, .crash k, by simp⟩
  | some a => exact h a rfl

theorem fromOrigin {α : Type} {f : Origin → Option α} {k : α → Call Origin Unit}
    (h : ∀ a, Finishes sc rs (k a) o) : Finishes sc rs (AghSync.fromOrigin f >>= k) o := by
  rw [AghSync.fromOrigin, Act.bind_assoc]
  exact Finishes.deref fun a _ => h a

theorem range {site : MergeSite} {k : MapOrder String → Call Origin Unit}
    (h : ∀ order, Finishes sc rs (k order) o) : Finishes sc rs (cl.rangeMap site >>= k) o := by
  obtain ⟨reads, P, fin, hfollows, hP⟩ := h (sc.order site)
  exact ⟨_, _, _, hfollows.range, hP⟩

theorem gets {α : Type} {f : Origin → α} {k : α → Call Origin Unit}
    (h : Finishes sc rs (k (f o)) o) : Finishes sc rs (Act.gets f >>= k) o :=
  h

theorem modify {f : Origin → Origin} {k : Unit → Call Origin Unit}
    (h : Finishes sc rs (k ()) (f o)) : Finishes sc rs (Act.modify f >>= k) o :=
  h

theorem noWrite : Finishes sc rs (pure ()) o :=
  ⟨_, _, _, .write .pure, by simp⟩

theorem send (w : Write) : Finishes sc rs (cl.send w) o :=
  ⟨_, _, _, .write (.send w), by simp⟩

theorem ite {c : Prop} [Decidable c] {m : Call Origin Unit} (h : Finishes sc rs m o) :
    Finishes sc rs (if c then m else pure ()) o := by
  split_ifs
  · exact h
  · exact .noWrite

/-- A plan of which no write can end it. -/
theorem tolerated {m : Call Origin Unit} {P : List Write} (h : Issues sc m o P false)
    (hP : ∀ wr ∈ P, wr.tolerable = true) : Finishes sc rs m o :=
  ⟨_, _, _, .write h, fun wr hwr => hP wr (List.dropLast_subset P hwr)⟩

end Finishes

section Others

variable {sc : Script} {rs : List Read} (ac : ActionContext) (o : Origin)

/-- A loop over clients that have a name. -/
theorem issues_tolerate {σ : Type} {s : σ} (cl : Client) (coe : Bool)
    (f : Model.Client → Write) (clients : List Model.Client)
    (hnames : ∀ c ∈ clients, c.name.isSome) :
    Issues sc (Act.forEach clients fun c =>
      Act.tolerate coe (Act.deref c.name >>= fun _ => cl.send (f c))) s (clients.map f) false := by
  refine .forEach fun c hc => ?_
  obtain ⟨name, hname⟩ := Option.isSome_iff_exists.mp (hnames c hc)
  rw [hname]
  exact .tolerate_send coe (f c)

theorem finishes_profileInfo : Finishes sc rs (actionProfileInfo ac) o := by
  refine .read fun pro => .fromOrigin fun p => ?_
  cases pro.shouldSyncFor p ac.cfg.features.theme with
  | some merged => exact .send _
  | none => exact .noWrite

theorem finishes_protection : Finishes sc rs (actionProtection ac) o :=
  .fromOrigin fun _ => .ite (.send _)

theorem finishes_parental : Finishes sc rs (actionParental ac) o :=
  .read fun _ => .gets (.ite (.send _))

theorem finishes_safeSearchConfig : Finishes sc rs (actionSafeSearchConfig ac) o :=
  .read fun _ => .fromOrigin fun _ => .ite (.deref fun _ _ => .send _)

theorem finishes_safeBrowsing : Finishes sc rs (actionSafeBrowsing ac) o :=
  .read fun _ => .gets (.ite (.send _))

theorem finishes_queryLogConfig : Finishes sc rs (actionQueryLogConfig ac) o :=
  .read fun _ => .fromOrigin fun _ =>
    .ite (.deref fun _ _ => .deref fun _ _ => .deref fun _ _ => .send _)

theorem finishes_statsConfig : Finishes sc rs (actionStatsConfig ac) o :=
  .read fun _ => .fromOrigin fun _ => .ite (.send _)

theorem finishes_blockedServicesSchedule :
    Finishes sc rs (actionBlockedServicesSchedule ac) o :=
  .read fun _ => .fromOrigin fun _ => .ite (.modify (.send _))

theorem finishes_clientSettings : Finishes sc rs (actionClientSettings ac) o := by
  refine .read fun rc => .fromOrigin fun c => .range fun o₁ => .range fun o₂ => .deref fun m hm =>
    .modify ?_
  have hnames := Clients.names_of_merge hm
  refine .tolerated (.bind
    (issues_tolerate _ _ .clientsDelete _ fun c hc => hnames c (by simp [hc])) <| .bind
    (issues_tolerate _ _ .clientsAdd _ fun c hc => hnames c (by simp [hc]))
    (issues_tolerate _ _ (fun c => .clientsUpdate { name := c.name, data := some c }) _
      fun c hc => hnames c (by simp [hc]))) fun wr hwr => ?_
  simp only [List.mem_append, List.mem_map] at hwr
  rcases hwr with ⟨c, -, rfl⟩ | ⟨c, -, rfl⟩ | ⟨c, -, rfl⟩ <;> rfl

theorem finishes_dnsAccessLists : Finishes sc rs (actionDNSAccessLists ac) o :=
  .read fun _ => .fromOrigin fun _ => .modify (.ite (.send _))

theorem finishes_dnsServerConfig : Finishes sc rs (actionDNSServerConfig ac) o :=
  .read fun _ => .fromOrigin fun _ => .deref fun _ _ => .ite (.send _)

theorem finishes_dhcpServerConfig : Finishes sc rs (actionDHCPServerConfig ac) o :=
  .fromOrigin fun _ => .ite (.read fun _ => .ite (.send _))

theorem finishes_dhcpStaticLeases : Finishes sc rs (actionDHCPStaticLeases ac) o := by
  refine .read fun st => .fromOrigin fun c => .range fun order => ?_
  refine .tolerated (.bind (.forEach fun _ _ => .tolerate_send _ _)
    (.forEach fun _ _ => .tolerate_send _ _)) fun wr hwr => ?_
  rcases List.mem_append.mp hwr with hwr | hwr
  all_goals
    obtain ⟨l, -, rfl⟩ := List.mem_map.mp hwr
    rfl

theorem finishes_tlsConfig : Finishes sc rs (tlsConfig ac) o :=
  .read fun _ => .fromOrigin fun _ =>
    .ite (.tolerated (.tolerate_send _ _) (by simp [Write.tolerable]))

end Others

/-- `Planned sc rs o q reads P` : an action on `q` reads `reads` and plans `P`. -/
inductive Planned (sc : Script) (rs : List Read) (o : Origin) : Read → List Read → List Write → Prop
  | rewrites : Planned sc rs o .rewriteList [.rewriteList]
      (rewritesPlan (sc.doc .rewriteList (rs.count .rewriteList)) o.rewrites (sc.order .rewrites))
  | filters : Planned sc rs o .filteringStatus [.filteringStatus]
      (filtersPlan (sc.doc .filteringStatus (rs.count .filteringStatus)) o.filters
        fun whitelist => sc.order (.filters whitelist))
  | other {q : Read} {reads : List Read} {P : List Write} (hrewrites : q ≠ .rewriteList)
      (hfilters : q ≠ .filteringStatus) (hP : ∀ wr ∈ P.dropLast, wr.tolerable = true) :
      Planned sc rs o q reads P

theorem Finishes.planned {sc : Script} {rs : List Read} {m : Call Origin Unit} {o : Origin}
    (h : Finishes sc rs m o) {q : Read} (hrewrites : q ≠ .rewriteList)
    (hfilters : q ≠ .filteringStatus) :
    ∃ reads P fin, Follows sc rs m o reads P fin ∧ Planned sc rs o q reads P := by
  obtain ⟨reads, P, fin, hfollows, hP⟩ := h
  exact ⟨reads, P, fin, hfollows, .other hrewrites hfilters hP⟩

/-- Every enabled action follows a plan. -/
theorem Enabled.follows {cfg : Config} {a : SyncAction} {q : Read} (h : Enabled cfg a q)
    (ac : ActionContext) (sc : Script) (rs : List Read) (o : Origin) :
    ∃ reads P fin, Follows sc rs (a.sync ac) o reads P fin ∧ Planned sc rs o q reads P := by
  cases h with
  | dnsRewrites =>
    obtain ⟨fin, hfollows⟩ := follows_dnsRewrites ac o
    exact ⟨_, _, fin, hfollows, .rewrites⟩
  | filters =>
    obtain ⟨fin, hfollows⟩ := follows_filters ac o
    exact ⟨_, _, fin, hfollows, .filters⟩
  | profileInfo => exact (finishes_profileInfo ac o).planned nofun nofun
  | protection => exact (finishes_protection ac o).planned nofun nofun
  | parental => exact (finishes_parental ac o).planned nofun nofun
  | safeSearchConfig => exact (finishes_safeSearchConfig ac o).planned nofun nofun
  | safeBrowsing => exact (finishes_safeBrowsing ac o).planned nofun nofun
  | dnsServerConfig => exact (finishes_dnsServerConfig ac o).planned nofun nofun
  | queryLogConfig => exact (finishes_queryLogConfig ac o).planned nofun nofun
  | statsConfig => exact (finishes_statsConfig ac o).planned nofun nofun
  | blockedServicesSchedule =>
    exact (finishes_blockedServicesSchedule ac o).planned nofun nofun
  | clientSettings => exact (finishes_clientSettings ac o).planned nofun nofun
  | dnsAccessLists => exact (finishes_dnsAccessLists ac o).planned nofun nofun
  | dhcpServerConfig => exact (finishes_dhcpServerConfig ac o).planned nofun nofun
  | dhcpStaticLeases => exact (finishes_dhcpStaticLeases ac o).planned nofun nofun
  | tlsConfig => exact (finishes_tlsConfig ac o).planned nofun nofun

end AghSync
