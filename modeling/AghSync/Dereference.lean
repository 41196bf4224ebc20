import AghSync.Discipline
import AghSync.FilterSync

/-!
# What an action dereferences

An action dereferences optional fields of the two documents it works with, some of them only
after a comparison. `Supported` says that those it reaches are there. The rewrites and the
names of all clients are always reached, the other fields of the origin's document only when
there is something to send.

An action crashes in some run with two given documents exactly when they are not supported
(`Enabled.crashFree_iff`).
-/

open Interaction Interaction.Prog

namespace AghSync

open Model

/-- The fields that are dereferenced when the origin has `o` and the replica answers `d`. -/
def Supported : (q : Read) → (o d : Doc q) → Prop
  | .rewriteList, o, d => o.isSome ∧ d.isSome
  | .clients, o, d => ∀ c ∈ d.clients.getD [] ++ o.clients.getD [], c.name.isSome
  | .dnsInfo, o, d => (d.equals o).isSome
  | .filteringStatus, o, d =>
    Utils.ptrToString o.userRules = Utils.ptrToString d.userRules →
      o.enabled ≠ d.enabled ∨ o.interval ≠ d.interval → o.enabled.isSome ∧ o.interval.isSome
  | .safesearchStatus, o, d => o.equals d = false → o.enabled.isSome
  | .querylogConfig, o, d =>
    o.equals d = false → o.enabled.isSome ∧ o.interval.isSome ∧ o.anonymizeClientIp.isSome
  | _, _, _ => True

/-! ## Calls that do not crash -/

namespace Calls

variable {Bad : Entry Event Reply → Prop} {σ α : Type} {cl : Client} {s : σ}

theorem send (w : Write) : Act.CrashesAfter Bad (cl.send w) s := by
  intro tr h
  obtain ⟨_, -, ho⟩ := Client.runs_send.mp h
  cases ho

theorem tolerate_send (coe : Bool) (w : Write) :
    Act.CrashesAfter Bad (Act.tolerate coe (cl.send w)) s := by
  intro tr h
  obtain ⟨_, -, ho⟩ := Client.runs_tolerate_send.mp h
  cases ho

theorem tolerate_deref {β : Type} {x : Option β} (hx : x.isSome) (coe : Bool) (w : Write) :
    Act.CrashesAfter Bad (Act.tolerate coe (Act.deref x >>= fun _ => cl.send w) : Call σ Unit)
      s := by
  obtain ⟨b, rfl⟩ := Option.isSome_iff_exists.mp hx
  exact tolerate_send coe w

/-- A document that is not bad is gone on with. -/
theorem read {q : Read} {k : Doc q → Call σ α}
    (h : ∀ d, ¬Bad ⟨.read cl.party q, .ok d⟩ → Act.CrashesAfter Bad (k d) s) :
    Act.CrashesAfter Bad (cl.doGet q >>= k) s := by
  intro tr hrun
  rcases Client.runs_doGet_bind.mp hrun with ⟨d, t, rfl, hk⟩ | ⟨e, -, ho⟩
  · by_cases hd : Bad ⟨.read cl.party q, .ok d⟩
    · exact ⟨_, List.mem_cons_self, hd⟩
    · obtain ⟨x, hx, hbad⟩ := h d hd t hk
      exact ⟨x, List.mem_cons_of_mem _ hx, hbad⟩
  · cases ho

theorem range {site : MergeSite} {k : MapOrder String → Call σ α}
    (h : ∀ order, Act.CrashesAfter Bad (k order) s) :
    Act.CrashesAfter Bad (cl.rangeMap site >>= k) s := by
  intro tr hrun
  obtain ⟨order, t, rfl, hk⟩ := Client.runs_rangeMap_bind.mp hrun
  obtain ⟨x, hx, hbad⟩ := h order t hk
  exact ⟨x, List.mem_cons_of_mem _ hx, hbad⟩

theorem fromOrigin {β : Type} {f : Origin → Option β} {o : Origin} {b : β}
    {k : β → Call Origin α} (hf : f o = some b) (h : Act.CrashesAfter Bad (k b) o) :
    Act.CrashesAfter Bad (AghSync.fromOrigin f >>= k) o := by
  intro tr hrun
  rw [fromOrigin_bind_apply hf] at hrun
  exact h tr hrun

theorem syncFilterType (of rFilters : Option (List Filter)) (whitelist : Bool) (cl : Client)
    (coe : Bool) (s : σ) :
    Act.CrashesAfter Bad (AghSync.syncFilterType of rFilters whitelist cl coe : Call σ Unit)
      s := by
  refine range fun order => .bind ?removes fun _ _ => .bind ?adds fun _ _ =>
    .bind ?updates fun _ _ => .ite fun _ => send _
  case removes | adds | updates => exact .forEach fun _ _ _ => tolerate_send _ _

end Calls

/-! ## The actions -/

section Actions

variable {cfg : Config} {Bad : Entry Event Reply → Prop} (ac : ActionContext) {o : Origin}

theorem crashesAfter_filters {f : FilterStatus} (hf : o.filters = some f)
    (hgood : ∀ d, ¬Bad ⟨.read ac.client.party .filteringStatus, .ok d⟩ →
      Supported .filteringStatus f d) : Act.CrashesAfter Bad (actionFilters ac) o := by
  refine Calls.read fun rf hrf => Calls.fromOrigin hf <| .bind (Calls.syncFilterType _ _ _ _ _ _)
    fun _ _ => .bind (Calls.syncFilterType _ _ _ _ _ _) fun _ _ => ?_
  unfold syncRulesAndToggles
  split_ifs with hrules htoggles
  · exact Calls.send _
  · have hdiffers : f.enabled ≠ rf.enabled ∨ f.interval ≠ rf.interval := by
      by_contra hsame
      obtain ⟨he, hi⟩ := not_or.mp hsame
      have he := Utils.ptrEquals_eq_true.mpr (not_not.mp he)
      have hi := Utils.ptrEquals_eq_true.mpr (not_not.mp hi)
      simp [he, hi] at htoggles
    obtain ⟨henabled, hinterval⟩ := hgood rf hrf (not_not.mp hrules) hdiffers
    exact .deref henabled fun _ _ => .deref hinterval fun _ _ => Calls.send _
  · exact .pure ()

theorem crashesAfter_clientSettings {c : Clients} (hc : o.clients = some c)
    (hgood : ∀ d, ¬Bad ⟨.read ac.client.party .clients, .ok d⟩ → Supported .clients c d) :
    Act.CrashesAfter Bad (actionClientSettings ac) o := by
  refine Calls.read fun rc hrc => Calls.fromOrigin hc <| Calls.range fun o₁ => Calls.range
    fun o₂ => .deref (Clients.merge_isSome o₁ o₂ (hgood rc hrc)) fun m hm =>
      .bind (.modify _) fun _ _ => ?_
  have hnames := Clients.names_of_merge hm
  refine .bind (.forEach fun cl hcl _ => ?_) fun _ _ => .bind (.forEach fun cl hcl _ => ?_)
    fun _ _ => .forEach fun cl hcl _ => ?_
  all_goals exact Calls.tolerate_deref (hnames cl (by simp [hcl])) _ _

/-- With supported documents no enabled action crashes. -/
theorem Enabled.crashesAfter {a : SyncAction} {q : Read} (h : Enabled cfg a q) {d₀ : Doc q}
    (hload : o.load q = (o.store q d₀).load q)
    (hgood : ∀ d, ¬Bad ⟨.read ac.client.party q, .ok d⟩ → Supported q d₀ d) :
    Act.CrashesAfter Bad (a.sync ac) o := by
  cases h with
  | profileInfo =>
    refine Calls.read fun pro _ => Calls.fromOrigin hload ?_
    cases pro.shouldSyncFor d₀ ac.cfg.features.theme with
    | some merged => exact Calls.send _
    | none => exact .pure ()
  | protection => exact Calls.fromOrigin hload (.ite fun _ => Calls.send _)
  | parental =>
    exact Calls.read fun _ _ => .bind (.gets _) fun _ _ => .ite fun _ => Calls.send _
  | safeBrowsing =>
    exact Calls.read fun _ _ => .bind (.gets _) fun _ _ => .ite fun _ => Calls.send _
  | safeSearchConfig =>
    refine Calls.read fun d hd => Calls.fromOrigin hload <| .ite fun hne => ?_
    exact .deref (hgood d hd (by simpa using hne)) fun _ _ => Calls.send _
  | dnsServerConfig =>
    refine Calls.read fun d hd => Calls.fromOrigin hload ?_
    exact .deref (hgood d hd) fun _ _ => .ite fun _ => Calls.send _
  | queryLogConfig =>
    refine Calls.read fun d hd => Calls.fromOrigin hload <| .ite fun hne => ?_
    obtain ⟨h₁, h₂, h₃⟩ := hgood d hd (by simpa using hne)
    exact .deref h₁ fun _ _ => .deref h₂ fun _ _ => .deref h₃ fun _ _ => Calls.send _
  | statsConfig =>
    exact Calls.read fun _ _ => Calls.fromOrigin hload <| .ite fun _ => Calls.send _
  | dnsRewrites =>
    refine Calls.read fun d hd => ?_
    obtain ⟨ho, hr⟩ := hgood d hd
    obtain ⟨e, he⟩ := Option.isSome_iff_exists.mp ho
    refine .deref hr fun _ _ => Calls.fromOrigin (hload.trans he) <|
      Calls.range fun _ => .bind ?_ fun _ _ => ?_
    · exact .forEach fun _ _ _ => Calls.send _
    · exact .forEach fun _ _ _ => Calls.send _
  | filters => exact crashesAfter_filters ac hload hgood
  | blockedServicesSchedule =>
    exact Calls.read fun _ _ => Calls.fromOrigin hload <| .ite fun _ =>
      .bind (.modify _) fun _ _ => Calls.send _
  | clientSettings => exact crashesAfter_clientSettings ac hload hgood
  | dnsAccessLists =>
    exact Calls.read fun _ _ => Calls.fromOrigin hload <| .bind (.modify _) fun _ _ =>
      .ite fun _ => Calls.send _
  | dhcpServerConfig =>
    refine Calls.fromOrigin hload <| .ite fun _ => Calls.read fun _ _ => ?_
    exact .ite fun _ => Calls.send _
  | dhcpStaticLeases =>
    refine Calls.read fun _ _ => Calls.fromOrigin hload <| Calls.range fun _ =>
      .bind ?_ fun _ _ => ?_
    · exact .forEach fun _ _ _ => Calls.tolerate_send _ _
    · exact .forEach fun _ _ _ => Calls.tolerate_send _ _
  | tlsConfig =>
    exact Calls.read fun _ _ => Calls.fromOrigin hload <| .ite fun _ => Calls.tolerate_send _ _

end Actions

/-! ## The actions that crash -/

/-- No run of `a` from the snapshot `o` crashes in which the replica answers the reading of
`q` with `d`. -/
def CrashFree (a : SyncAction) (o : Origin) (q : Read) (d : Doc q) : Prop :=
  ∀ ac tr out, Runs (a.sync ac o) tr out →
    (∀ d', ⟨.read ac.client.party q, .ok d'⟩ ∈ tr → d' = d) → out ≠ none

section Crash

variable {cfg : Config} {o : Origin}

/-- `m` crashes in a run in which no document is read. -/
def Crashes {σ α : Type} (m : Call σ α) (s : σ) : Prop :=
  ∃ tr, Runs (m s) tr none ∧ ∀ p q d, ⟨.read p q, d⟩ ∉ tr

namespace Crashes

variable {σ α : Type} {cl : Client} {s : σ}

theorem deref_none {β : Type} {x : Option β} (hx : ¬x.isSome) (k : β → Call σ α) :
    Crashes (Act.deref x >>= k) s := by
  obtain rfl : x = none := by simpa using hx
  exact ⟨[], .crash, by simp⟩

theorem deref {β : Type} {x : Option β} {k : β → Call σ α}
    (h : ∀ b, x = some b → Crashes (k b) s) : Crashes (Act.deref x >>= k) s := by
  cases x with
  | none => exact ⟨[], .crash, by simp⟩
  | some b => exact h b rfl

theorem fromOrigin {β : Type} {f : Origin → Option β} {b : β} {k : β → Call Origin α}
    (hf : f o = some b) (h : Crashes (k b) o) : Crashes (AghSync.fromOrigin f >>= k) o := by
  rwa [Crashes, fromOrigin_bind_apply hf]

theorem range {site : MergeSite} {k : MapOrder String → Call σ α}
    (h : Crashes (k .stored) s) : Crashes (cl.rangeMap site >>= k) s := by
  obtain ⟨tr, hrun, hreads⟩ := h
  exact ⟨⟨.rangeMap cl.party site, .stored⟩ :: tr, .ask hrun, by simpa using hreads⟩

/-- A computation that succeeds without reading goes on to the crash. -/
theorem bind {m : Call σ Unit} {k : Unit → Call σ α} {t : Trace Event Reply}
    (hm : Runs (m s) t (some (.ok (), s))) (ht : ∀ p q d, ⟨.read p q, d⟩ ∉ t)
    (h : Crashes (k ()) s) : Crashes (m >>= k) s := by
  obtain ⟨tr, hrun, hreads⟩ := h
  refine ⟨t ++ tr, Act.runs_bind.mpr (Or.inl ⟨t, (), s, tr, rfl, hm, hrun⟩), fun p q d hmem => ?_⟩
  exact (List.mem_append.mp hmem).elim (ht p q d) (hreads p q d)

theorem syncFilterType {of rFilters : Option (List Filter)} {whitelist coe : Bool}
    {k : Unit → Call Origin α} (h : Crashes (k ()) o) :
    Crashes (AghSync.syncFilterType of rFilters whitelist cl coe >>= k) o := by
  have hrun := runs_exec (Server.answer fun _ => .stored)
    (AghSync.syncFilterType of rFilters whitelist cl coe o) {}
  rw [Server.exec_syncFilterType] at hrun
  exact bind hrun (Sends.no_read (sends_syncFilterType of rFilters whitelist cl coe) hrun) h

/-- A crash after the document of the replica. -/
theorem not_crashFree (ac : ActionContext) {a : SyncAction} {q : Read} {d : Doc q}
    {k : Doc q → Call Origin Unit} (ha : a.sync ac = ac.client.doGet q >>= k)
    (h : Crashes (k d) o) : ¬CrashFree a o q d := by
  obtain ⟨tr, hrun, hreads⟩ := h
  intro hfree
  refine hfree ac (⟨.read ac.client.party q, .ok d⟩ :: tr) none ?_ ?_ rfl
  · rw [ha]
    exact .ask hrun
  · intro d' hmem
    rcases List.mem_cons.mp hmem with he | hmem
    · cases he
      rfl
    · exact absurd hmem (hreads _ _ _)

end Crashes

theorem not_crashFree_filters {f d : FilterStatus} (hf : o.filters = some f)
    (h : ¬Supported .filteringStatus f d) :
    ¬CrashFree ⟨"actionFilters", actionFilters⟩ o .filteringStatus d := by
  obtain ⟨hrules, htoggles⟩ := Classical.not_imp.mp h
  obtain ⟨hdiffers, hmissing⟩ := Classical.not_imp.mp htoggles
  refine Crashes.not_crashFree sampleContext rfl <| .fromOrigin hf <| .syncFilterType <|
    .syncFilterType ?_
  unfold syncRulesAndToggles
  rw [if_neg (not_not.mpr hrules), if_pos]
  · refine .deref fun enabled he => .deref_none (fun hi => hmissing ?_) _
    exact ⟨by simp [he], hi⟩
  · by_contra hsame
    simp only [Bool.or_eq_true, Bool.not_eq_true', not_or, Bool.not_eq_false,
      Utils.ptrEquals_eq_true] at hsame
    exact hdiffers.elim (fun he => he hsame.1) fun hi => hi hsame.2

/-- An enabled action crashes in no run with two documents exactly when the fields it
dereferences are there. -/
theorem Enabled.crashFree_iff {a : SyncAction} {q : Read} (h : Enabled cfg a q) {d₀ : Doc q}
    (hload : o.load q = (o.store q d₀).load q) (d : Doc q) :
    CrashFree a o q d ↔ Supported q d₀ d := by
  constructor
  · contrapose
    intro hd
    cases h with
    | safeSearchConfig =>
      obtain ⟨hne, hmissing⟩ := Classical.not_imp.mp hd
      refine Crashes.not_crashFree sampleContext rfl <| .fromOrigin hload ?_
      rw [if_pos (by simpa using hne)]
      exact .deref_none hmissing _
    | queryLogConfig =>
      obtain ⟨hne, hmissing⟩ := Classical.not_imp.mp hd
      refine Crashes.not_crashFree sampleContext rfl <| .fromOrigin hload ?_
      rw [if_pos (by simpa using hne)]
      refine .deref fun b hb => .deref fun c hc => .deref_none (fun h₃ => hmissing ?_) _
      exact ⟨by simp [hb], by simp [hc], h₃⟩
    | dnsServerConfig =>
      exact Crashes.not_crashFree sampleContext rfl <| .fromOrigin hload <|
        .deref_none hd _
    | dnsRewrites =>
      refine Crashes.not_crashFree sampleContext rfl <| .deref fun rw hrw => ?_
      have hnone : d₀ = none := by
        by_contra hsome
        exact hd ⟨Option.ne_none_iff_isSome.mp hsome, by simp [hrw]⟩
      refine ⟨[], ?_, by simp⟩
      have hload : o.rewrites = none := hload.trans hnone
      rw [fromOrigin, Act.bind_assoc, Act.gets_bind_apply, hload]
      exact .crash
    | filters => exact not_crashFree_filters hload hd
    | clientSettings =>
      refine Crashes.not_crashFree sampleContext rfl <| .fromOrigin hload <| .range <|
        .range <| .deref_none (fun hm => hd ?_) _
      obtain ⟨m, hm⟩ := Option.isSome_iff_exists.mp hm
      exact (Clients.merge_eq_some hm).1
    | _ => exact absurd trivial hd
  · intro hd ac tr out hrun hreplies hnone
    subst hnone
    have hcrash : Act.CrashesAfter
        (fun x => ∃ d', x = ⟨.read ac.client.party q, .ok d'⟩ ∧ d' ≠ d) (a.sync ac) o := by
      refine h.crashesAfter ac hload fun d' hgood => ?_
      obtain rfl : d' = d := by
        by_contra hne
        exact hgood ⟨d', rfl, hne⟩
      exact hd
    obtain ⟨x, hx, d', rfl, hne⟩ := hcrash tr hrun
    exact hne (hreplies d' hx)

end Crash

/-- Every action of `setupActions` works on one document, and crashes in no run with two
documents exactly when the fields it dereferences are there. -/
theorem setupActions_crashFree_iff (cfg : Config) : ∀ a ∈ setupActions cfg,
    ∃ q, Enabled cfg a q ∧ ∀ (o : Origin) (d₀ d : Doc q),
      o.load q = (o.store q d₀).load q → (CrashFree a o q d ↔ Supported q d₀ d) := by
  intro a ha
  obtain ⟨q, hq⟩ := exists_enabled ha
  exact ⟨q, hq, fun o d₀ d hload => hq.crashFree_iff hload d⟩

/-- The general settings are on. -/
def generalConfig : Config where
  origin := {}
  features := { generalSettings := true }

theorem Enabled.eq_safesearchStatus {cfg : Config} {a : SyncAction} {q : Read}
    (h : Enabled cfg a q) (hname : a.name = "safe search config") : q = .safesearchStatus := by
  cases h with
  | safeSearchConfig => rfl
  | _ => simp at hname

/-- Safe search with its main switch can be compared with anything and sent. -/
theorem setupActions_crashFree_iff_sample :
    CrashFree ⟨"safe search config", actionSafeSearchConfig⟩
      { safeSearch := some { enabled := some true } } .safesearchStatus {} := by
  obtain ⟨q, hq, hiff⟩ := setupActions_crashFree_iff generalConfig
    ⟨"safe search config", actionSafeSearchConfig⟩ (by simp [setupActions, generalConfig])
  obtain rfl := hq.eq_safesearchStatus rfl
  exact (hiff _ { enabled := some true } {} rfl).mpr fun _ => rfl

/-- The origin has safe search for one engine and no main switch. -/
theorem exists_not_crashFree :
    (⟨"safe search config", actionSafeSearchConfig⟩ : SyncAction) ∈ setupActions generalConfig ∧
      ¬CrashFree ⟨"safe search config", actionSafeSearchConfig⟩
        { safeSearch := some { bing := some true } } .safesearchStatus {} := by
  refine ⟨by simp [setupActions, generalConfig], fun hfree => ?_⟩
  have hrun : Runs (actionSafeSearchConfig sampleContext
      { safeSearch := some { bing := some true } })
      [⟨.read sampleContext.client.party .safesearchStatus, .ok {}⟩] none := .ask .crash
  refine hfree sampleContext _ none hrun ?_ rfl
  intro d' hmem
  cases List.mem_singleton.mp hmem
  rfl

end AghSync
