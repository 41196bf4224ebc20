import AghSync.Instance

/-!
# Features that are off

Every setting of an instance belongs to a feature (`Part.enabled`). A write reaches the
settings in its body (`Write.parts`), and these belong to the feature of the action that sends
it, with two exceptions. The body of the profile has the theme ; the profile action puts the
replica's own theme there if the feature is off. The body of the DNS configuration has the
protection, and nothing is done about that : the protection changes with the general settings
off, exactly if the configurations differ and the origin's protection is another one
(`runActions_leavesDisabled_iff`).
-/

open Interaction Interaction.Prog

namespace AghSync

open Model Worker

/-! ## Settings and features -/

/-- The settings of an instance, in groups. -/
inductive Part
  | profile
  | theme
  | protection
  | parental
  | safeSearch
  | safeBrowsing
  | dns
  | queryLog
  | stats
  | rewrites
  | filtering
  | blockedServices
  | clients
  | accessList
  | dhcp
  | staticLeases
  | tls
  deriving DecidableEq

namespace Part

/-- The feature a group belongs to is on. -/
def enabled (f : Features) : Part → Bool
  | profile | protection | parental | safeSearch | safeBrowsing => f.generalSettings
  | theme => f.theme
  | dns => f.dns.serverConfig
  | queryLog => f.queryLogConfig
  | stats => f.statsConfig
  | rewrites => f.dns.rewrites
  | filtering => f.filters
  | blockedServices => f.services
  | clients => f.clientSettings
  | accessList => f.dns.accessLists
  | dhcp => f.dhcp.serverConfig
  | staticLeases => f.dhcp.staticLeases
  | tls => f.tlsConfig

/-- The values of a group. -/
abbrev Value : Part → Type
  | profile => String × String
  | theme => String
  | protection => Option Bool
  | parental | safeBrowsing => Bool
  | safeSearch => SafeSearchConfig
  | dns => DNSConfig
  | queryLog => QueryLogConfigWithIgnored
  | stats => GetStatsConfigResponse
  | rewrites => List RewriteEntry
  | filtering => FilterStatus
  | blockedServices => BlockedServicesSchedule
  | clients => List Model.Client
  | accessList => AccessList
  | dhcp => DhcpStatus
  | staticLeases => Option (List DhcpStaticLease)
  | tls => TlsConfig

end Part

/-- The settings of a group. What another group has of the same document is left out. -/
def Instance.get (i : Instance) : (p : Part) → p.Value
  | .profile => (i.profile.name, i.profile.language)
  | .theme => i.profile.theme
  | .protection => i.dns.protectionEnabled
  | .parental => i.parental
  | .safeSearch => i.safeSearch
  | .safeBrowsing => i.safeBrowsing
  | .dns => { i.dns with protectionEnabled := none }
  | .queryLog => i.queryLog
  | .stats => i.stats
  | .rewrites => i.rewrites
  | .filtering => i.filtering
  | .blockedServices => i.blockedServices
  | .clients => i.clients
  | .accessList => i.accessList
  | .dhcp => { i.dhcp with staticLeases := none }
  | .staticLeases => i.dhcp.staticLeases
  | .tls => i.tls

/-- The groups that the body of a write is about. -/
def Write.parts : Write → List Part
  | installConfigure _ | filteringRefresh _ => []
  | profileUpdate _ => [.profile, .theme]
  | protection _ => [.protection]
  | parental _ => [.parental]
  | safebrowsing _ => [.safeBrowsing]
  | safesearchSettings _ => [.safeSearch]
  | dnsConfig _ => [.dns, .protection]
  | querylogConfigUpdate _ => [.queryLog]
  | statsConfigUpdate _ => [.stats]
  | rewriteAdd _ | rewriteDelete _ => [.rewrites]
  | filteringAddUrl _ | filteringRemoveUrl _ | filteringSetUrl _ | filteringSetRules _
  | filteringConfig _ => [.filtering]
  | blockedServicesUpdate _ => [.blockedServices]
  | clientsAdd _ | clientsUpdate _ | clientsDelete _ => [.clients]
  | accessSet _ => [.accessList]
  | dhcpSetConfig _ => [.dhcp]
  | dhcpAddStaticLease _ | dhcpRemoveStaticLease _ => [.staticLeases]
  | tlsConfigure _ => [.tls]

namespace Server

@[simp] theorem rewrites_mapFilters (sv : Server) (whitelist : Bool)
    (g : List Filter → List Filter) : (sv.mapFilters whitelist g).rewrites = sv.rewrites := by
  cases whitelist <;> rfl

@[simp] theorem dhcp_mapFilters (sv : Server) (whitelist : Bool)
    (g : List Filter → List Filter) : (sv.mapFilters whitelist g).dhcp = sv.dhcp := by
  cases whitelist <;> rfl

end Server

/-- A write leaves all other groups alone. -/
theorem Instance.get_apply {i : Instance} {w : Write} {p : Part} (h : p ∉ w.parts) :
    (i.apply w).get p = i.get p := by
  cases w with
  | filteringAddUrl | filteringRemoveUrl | filteringSetUrl =>
    cases p <;> simp [Write.parts] at h <;> simp [apply, get, Server.apply]
  | _ => cases p <;> first | rfl | simp [Write.parts] at h

/-- An action of a feature writes to groups of the feature, to the theme and to the
protection. -/
theorem Enabled.enabled_of_mem {cfg : Config} {a : SyncAction} {q : Read} (h : Enabled cfg a q)
    {w : Write} (hw : w.action = a.name) {p : Part} (hp : p ∈ w.parts) :
    p.enabled cfg.features = true ∨ (p = .theme ∧ a = ⟨"profile info", actionProfileInfo⟩) ∨
      (p = .protection ∧ q = .dnsInfo) := by
  cases h <;> cases w <;> simp only [Write.action, String.reduceEq] at hw <;>
    simp only [Write.parts, List.mem_cons, List.not_mem_nil, or_false] at hp <;>
    rcases hp with rfl | rfl <;> simp [Part.enabled, *]

/-! ## One action -/

section Action

variable {ac : ActionContext} {o : Origin} {i i' : Instance} {tr : Trace Event Reply}
  {out : Act.Outcome Origin Err Unit} {p : Part}

/-- An entry of a trace that writes nothing of a group leaves the group alone. -/
theorem Instance.Step.get_eq {x : Entry Event Reply} (h : i.Step x i')
    (hw : ∀ pt w, x.1 = .write pt w → p ∉ w.parts) : i'.get p = i.get p := by
  obtain ⟨e, r⟩ := x
  cases e with
  | read pt q =>
    rcases r with e | d
    · exact congrArg (Instance.get · p) h
    · exact congrArg (Instance.get · p) h.2
  | write pt w =>
    have happly := Instance.get_apply (i := i) (hw pt w rfl)
    rcases r with e | _
    · rcases h with rfl | rfl
      · rfl
      · exact happly
    · exact (congrArg (Instance.get · p) h).trans happly
  | _ => exact congrArg (Instance.get · p) h

/-- A read is answered with the document, or ends the action. -/
theorem Instance.runs_doGet {q : Read} {k : Doc q → Call Origin Unit}
    (h : Runs ((ac.client.doGet q >>= k) o) tr out) (hw : Along Step tr i i') :
    (∃ t, Runs (k (i.doc q) o) t out ∧ Along Step t i i') ∨ i' = i := by
  rcases Client.runs_doGet_bind.mp h with ⟨d, t, rfl, hk⟩ | ⟨e, rfl, -⟩
  · obtain ⟨_, ⟨rfl, rfl⟩, hw⟩ := hw
    exact Or.inl ⟨t, hk, hw⟩
  · obtain ⟨_, rfl, hw⟩ := hw
    exact Or.inr hw

/-- Looking at a field of the snapshot that is not there ends the action. -/
theorem runs_fromOrigin {α : Type} {f : Origin → Option α} {k : α → Call Origin Unit}
    (h : Runs ((fromOrigin f >>= k) o) tr out) :
    (∃ a, f o = some a ∧ Runs (k a o) tr out) ∨ tr = [] := by
  cases ho : f o with
  | none =>
    rw [fromOrigin, Act.bind_assoc, Act.gets_bind_apply, ho] at h
    exact Or.inr (runs_crash.mp h).1
  | some a =>
    rw [fromOrigin_bind_apply ho] at h
    exact Or.inl ⟨a, rfl, h⟩

/-- A write is done or not. -/
theorem Instance.runs_send {w : Write} (h : Runs (ac.client.send w o) tr out)
    (hw : Along Step tr i i') : i' = i ∨ i' = i.apply w := by
  obtain ⟨r, rfl, -⟩ := Client.runs_send.mp h
  obtain ⟨_, hstep, rfl⟩ := hw
  rcases r with e | _
  · exact hstep
  · exact Or.inr hstep

/-- The profile that is sent has the replica's theme if the theme is not to be synced. -/
theorem Model.ProfileInfo.theme_of_shouldSyncFor {pi o merged : ProfileInfo}
    (h : pi.shouldSyncFor o false = some merged) : merged.theme = pi.theme := by
  unfold shouldSyncFor at h
  simp only [Bool.false_eq_true, false_and, if_false] at h
  split_ifs at h <;> exact Option.some.inj h ▸ rfl

/-- Without the theme feature the profile action leaves the theme alone. -/
theorem get_theme_of_profileInfo (htheme : ac.cfg.features.theme = false)
    (h : Runs (actionProfileInfo ac o) tr out) (hw : Along Instance.Step tr i i') :
    i'.get .theme = i.get .theme := by
  rcases Instance.runs_doGet h hw with ⟨t, hk, hw⟩ | rfl
  · rcases runs_fromOrigin hk with ⟨po, -, hk⟩ | rfl
    · rw [htheme] at hk
      cases hmerged : i.profile.shouldSyncFor po false with
      | none =>
        simp only [Instance.doc, hmerged] at hk
        obtain ⟨rfl, -⟩ := runs_ret.mp hk
        exact congrArg (Instance.get · .theme) hw
      | some merged =>
        simp only [Instance.doc, hmerged] at hk
        rcases Instance.runs_send hk hw with rfl | rfl
        · rfl
        · exact ProfileInfo.theme_of_shouldSyncFor hmerged
    · exact congrArg (Instance.get · .theme) hw
  · rfl

/-- All runs of an action leave `f` as it is. -/
def SyncAction.Keeps {β : Type} (a : SyncAction) (ac : ActionContext) (f : Instance → β) : Prop :=
  ∀ o tr out i i', Runs (a.sync ac o) tr out → Along Instance.Step tr i i' → f i' = f i

/-- An action leaves the groups of disabled features alone. The action for the DNS
configuration does so for all but the protection. -/
theorem Enabled.keepsParts {a : SyncAction} {q : Read} (h : Enabled ac.cfg a q)
    (hp : p.enabled ac.cfg.features = false) (hprotection : p = .protection → q ≠ .dnsInfo) :
    a.Keeps ac (Instance.get · p) := by
  intro o tr out i i' hrun hw
  by_cases htheme : p = .theme ∧ a = ⟨"profile info", actionProfileInfo⟩
  · obtain ⟨rfl, rfl⟩ := htheme
    exact get_theme_of_profileInfo hp hrun hw
  · refine hw.eq_of_keeps (f := (Instance.get · p)) fun x hx i i' hstep => hstep.get_eq ?_
    rintro pt w he hmem
    have hown := hrun.of_only (h.staged ac o).only x hx
    rw [he] at hown
    rcases h.enabled_of_mem hown.2 hmem with henabled | hprofile | ⟨rfl, rfl⟩
    · exact Bool.false_ne_true (hp.symm.trans henabled)
    · exact htheme hprofile
    · exact hprotection rfl rfl

/-- The action for the DNS configuration changes nothing, or sends the origin's one because the
replica's one differs. -/
theorem eq_of_dnsServerConfig (h : Runs (actionDNSServerConfig ac o) tr out)
    (hw : Along Instance.Step tr i i') :
    i' = i ∨ ∃ d, o.dnsConfig = some d ∧ i.dns.equals d = some false ∧
      i' = i.apply (.dnsConfig d) := by
  rcases Instance.runs_doGet h hw with ⟨t, hk, hw⟩ | rfl
  · rcases runs_fromOrigin hk with ⟨d, hd, hk⟩ | rfl
    · cases hequal : i.dns.equals d with
      | none =>
        simp only [Instance.doc, hequal] at hk
        obtain ⟨rfl, -⟩ := runs_crash.mp hk
        exact Or.inl hw
      | some equal =>
        simp only [Instance.doc, hequal, Act.deref_some, Act.pure_bind] at hk
        cases equal with
        | true =>
          obtain ⟨rfl, -⟩ := runs_ret.mp hk
          exact Or.inl hw
        | false =>
          rcases Instance.runs_send hk hw with rfl | rfl
          · exact Or.inl rfl
          · exact Or.inr ⟨d, hd, hequal, rfl⟩
    · exact Or.inl hw
  · exact Or.inl rfl

end Action

/-! ## A pass -/

/-- The configuration with the feature of the DNS configuration off. -/
def Config.withoutDNSServerConfig (cfg : Config) : Config :=
  { cfg with
    features := { cfg.features with dns := { cfg.features.dns with serverConfig := false } } }

theorem setupActions_eq {cfg : Config} (h : cfg.features.generalSettings = false) :
    setupActions cfg = (if cfg.features.dns.serverConfig then
      [⟨"DNS server config", actionDNSServerConfig⟩] else []) ++
        setupActions cfg.withoutDNSServerConfig := by
  simp [setupActions, Config.withoutDNSServerConfig, h]

theorem Enabled.of_withoutDNSServerConfig {cfg : Config} {a : SyncAction} {q : Read}
    (h : Enabled cfg.withoutDNSServerConfig a q) : Enabled cfg a q ∧ q ≠ .dnsInfo := by
  cases h with
  | dnsServerConfig h => cases h
  | profileInfo h => exact ⟨.profileInfo h, nofun⟩
  | protection h => exact ⟨.protection h, nofun⟩
  | parental h => exact ⟨.parental h, nofun⟩
  | safeSearchConfig h => exact ⟨.safeSearchConfig h, nofun⟩
  | safeBrowsing h => exact ⟨.safeBrowsing h, nofun⟩
  | queryLogConfig h => exact ⟨.queryLogConfig h, nofun⟩
  | statsConfig h => exact ⟨.statsConfig h, nofun⟩
  | dnsRewrites h => exact ⟨.dnsRewrites h, nofun⟩
  | filters h => exact ⟨.filters h, nofun⟩
  | blockedServicesSchedule h => exact ⟨.blockedServicesSchedule h, nofun⟩
  | clientSettings h => exact ⟨.clientSettings h, nofun⟩
  | dnsAccessLists h => exact ⟨.dnsAccessLists h, nofun⟩
  | dhcpServerConfig h => exact ⟨.dhcpServerConfig h, nofun⟩
  | dhcpStaticLeases h => exact ⟨.dhcpStaticLeases h, nofun⟩
  | tlsConfig h => exact ⟨.tlsConfig h, nofun⟩

section Pass

variable {ac : ActionContext} {o : Origin} {i i' : Instance} {tr : Trace Event Reply}
  {withError : Bool} {out : Option Work} {p : Part}

/-- A pass runs its first action, and then ends or goes on with the others. -/
theorem runs_runActions_cons_along {step : Instance → Entry Event Reply → Instance → Prop}
    {a : SyncAction} {as : List SyncAction} (h : Runs (runActions ac (a :: as) withError o) tr out)
    (hw : Along step tr i i') :
    ∃ t r i₁, Runs (a.sync ac o) t r ∧ Along step t i i₁ ∧
      (i' = i₁ ∨ ∃ withError o' t', Runs (runActions ac as withError o') t' out ∧
        Along step t' i₁ i') := by
  rcases runs_runActions_cons h with ⟨t₁, o', t₂, rfl, h₁, h₂⟩ |
    ⟨t₁, e, o', t₂, rfl, h₁, -, h₂⟩ | ⟨e, o', h₁, -⟩ | ⟨h₁, -⟩
  · obtain ⟨i₁, hw₁, hw₂⟩ := along_append.mp hw
    exact ⟨t₁, _, i₁, h₁, hw₁, Or.inr ⟨_, o', t₂, h₂, hw₂⟩⟩
  · obtain ⟨i₁, hw₁, hw₂⟩ := along_append.mp hw
    exact ⟨t₁, _, i₁, h₁, hw₁, Or.inr ⟨_, o', t₂, h₂, hw₂⟩⟩
  · exact ⟨tr, _, i', h₁, hw, Or.inl rfl⟩
  · exact ⟨tr, _, i', h₁, hw, Or.inl rfl⟩

/-- What all actions keep a pass keeps. -/
theorem eq_of_runActions {β : Type} {f : Instance → β} : ∀ {as : List SyncAction}
    {withError : Bool} {o : Origin} {i : Instance} {tr : Trace Event Reply},
    (∀ a ∈ as, a.Keeps ac f) → Runs (runActions ac as withError o) tr out →
      Along Instance.Step tr i i' → f i' = f i
  | [], _, _, _, _, _, h, hw => by
    obtain ⟨rfl, -⟩ := runs_runActions_nil.mp h
    exact congrArg f hw
  | a :: as, _, _, _, _, has, h, hw => by
    obtain ⟨ha, has⟩ := List.forall_mem_cons.mp has
    obtain ⟨t, r, i₁, h₁, hw₁, rfl | ⟨_, o', t', h₂, hw₂⟩⟩ := runs_runActions_cons_along h hw
    · exact ha _ _ _ _ _ h₁ hw₁
    · exact (eq_of_runActions has h₂ hw₂).trans (ha _ _ _ _ _ h₁ hw₁)

/-- With the general settings off nothing but the action for the DNS configuration reaches the
protection. -/
theorem get_protection_of_runActions (hgeneral : ac.cfg.features.generalSettings = false)
    (h : Runs (runActions ac (setupActions ac.cfg.withoutDNSServerConfig) withError o) tr out)
    (hw : Along Instance.Step tr i i') : i'.get .protection = i.get .protection := by
  refine eq_of_runActions (f := (Instance.get · .protection)) (fun a ha => ?_) h hw
  obtain ⟨q, henabled⟩ := exists_enabled ha
  obtain ⟨henabled, hq⟩ := henabled.of_withoutDNSServerConfig
  exact henabled.keepsParts hgeneral fun _ => hq

end Pass

/-- Every run of the actions leaves the settings of the disabled features as they are. -/
def LeavesDisabled (ac : ActionContext) (withError : Bool) (o : Origin) (i : Instance) : Prop :=
  ∀ tr out i', Runs (runActions ac (setupActions ac.cfg) withError o) tr out →
    Along Instance.Step tr i i' → ∀ p : Part, p.enabled ac.cfg.features = false → i'.get p = i.get p

/-- If the action for the DNS configuration runs without the general settings, and finds a
difference, then the protection is the origin's, or not in the origin's document. -/
def ProtectionKept (f : Features) (o : Origin) (i : Instance) : Prop :=
  f.generalSettings = false → f.dns.serverConfig = true →
    ∀ d, o.dnsConfig = some d → i.dns.equals d = some false →
      ∀ b, d.protectionEnabled = some b → i.dns.protectionEnabled = some b

section Pass

variable {ac : ActionContext} {withError : Bool} {o : Origin} {i : Instance}

theorem leavesDisabled_of_protectionKept (h : ProtectionKept ac.cfg.features o i) :
    LeavesDisabled ac withError o i := by
  intro tr out i' hrun hw p hp
  by_cases hprotection : p = .protection
  · subst hprotection
    have hgeneral : ac.cfg.features.generalSettings = false := hp
    rw [setupActions_eq hgeneral] at hrun
    by_cases hdns : ac.cfg.features.dns.serverConfig = true
    · have hfirst : ∀ {tr out i'}, Runs (actionDNSServerConfig ac o) tr out →
          Along Instance.Step tr i i' → i'.get .protection = i.get .protection := by
        intro tr out i' hrun hw
        rcases eq_of_dnsServerConfig hrun hw with rfl | ⟨d, hd, hequal, rfl⟩
        · rfl
        · show (d.protectionEnabled <|> i.dns.protectionEnabled) = i.dns.protectionEnabled
          cases hb : d.protectionEnabled with
          | none => rfl
          | some b => exact (h hgeneral hdns d hd hequal b hb).symm
      rw [if_pos hdns, List.singleton_append] at hrun
      obtain ⟨t, r, i₁, h₁, hw₁, rfl | ⟨_, o', t', h₂, hw₂⟩⟩ := runs_runActions_cons_along hrun hw
      · exact hfirst h₁ hw₁
      · exact (get_protection_of_runActions hgeneral h₂ hw₂).trans (hfirst h₁ hw₁)
    · rw [if_neg hdns, List.nil_append] at hrun
      exact get_protection_of_runActions hgeneral hrun hw
  · refine eq_of_runActions (f := (Instance.get · p)) (fun a ha => ?_) hrun hw
    obtain ⟨q, henabled⟩ := exists_enabled ha
    exact henabled.keepsParts hp fun he => absurd he hprotection

theorem Instance.Rejects.step {orders : MergeSite → MapOrder String} {i i' : Instance}
    {x : Entry Event Reply} (h : i.Rejects orders x i') : i.Step x i' := by
  obtain ⟨e, r⟩ := x
  cases e with
  | read p q =>
    obtain ⟨rfl, rfl⟩ := h
    exact ⟨rfl, rfl⟩
  | write p w =>
    rcases r with e | _
    · exact Or.inl h.2
    · exact h.2
  | rangeMap p site => exact h.2
  | _ => exact h

/-- There is a pass that sends the DNS configuration, and it leaves the origin's protection. -/
theorem exists_protection_eq (hgeneral : ac.cfg.features.generalSettings = false)
    (hdns : ac.cfg.features.dns.serverConfig = true) {d : DNSConfig} (hd : o.dnsConfig = some d)
    (hequal : i.dns.equals d = some false) {b : Bool} (hb : d.protectionEnabled = some b) :
    ∃ tr out i', Runs (runActions ac (setupActions ac.cfg) withError o) tr out ∧
      Along Instance.Step tr i i' ∧ i'.get .protection = some b := by
  obtain ⟨tr, out, i', hrun, hw⟩ := (runActions ac (setupActions ac.cfg) withError o).exists_along
    (Instance.exists_rejects fun _ => .stored) i
  refine ⟨tr, out, i', hrun, hw.mono fun _ _ _ => Instance.Rejects.step, ?_⟩
  rw [setupActions_eq hgeneral, if_pos hdns, List.singleton_append] at hrun
  have hfirst : ∀ {tr out i'}, Runs (actionDNSServerConfig ac o) tr out →
      Along (Instance.Rejects fun _ => .stored) tr i i' → i'.get .protection = some b := by
    intro tr out i' hrun hw
    obtain ⟨t, rfl, hk, hw⟩ := Client.runs_doGet_along (fun _ _ hstep => hstep) hrun hw
    rw [fromOrigin_bind_apply hd] at hk
    simp only [Instance.doc, hequal, Act.deref_some, Act.pure_bind, Bool.not_false, if_true] at hk
    obtain ⟨r, rfl, rfl⟩ := Client.runs_send.mp hk
    obtain ⟨_, hstep, rfl⟩ := hw
    rcases r with e | _
    · exact hstep.1.elim
    · rw [hstep.2]
      show (d.protectionEnabled <|> i.dns.protectionEnabled) = some b
      rw [hb]
      rfl
  obtain ⟨t, r, i₁, h₁, hw₁, rfl | ⟨_, o', t', h₂, hw₂⟩⟩ := runs_runActions_cons_along hrun hw
  · exact hfirst h₁ hw₁
  · have hrest := get_protection_of_runActions hgeneral h₂
      (hw₂.mono fun _ _ _ => Instance.Rejects.step)
    exact hrest.trans (hfirst h₁ hw₁)

end Pass

/-- The settings of disabled features stay, but for the protection in the body of the DNS
configuration. -/
theorem runActions_leavesDisabled_iff (ac : ActionContext) (withError : Bool) (o : Origin)
    (i : Instance) : LeavesDisabled ac withError o i ↔ ProtectionKept ac.cfg.features o i := by
  constructor
  · intro h hgeneral hdns d hd hequal b hb
    obtain ⟨tr, out, i', hrun, hw, hi'⟩ := exists_protection_eq hgeneral hdns hd hequal hb
    exact (h tr out i' hrun hw .protection hgeneral).symm.trans hi'
  · exact leavesDisabled_of_protectionKept

/-- Only the DNS configuration is on, and the protection differs. -/
theorem not_leavesDisabled :
    let cfg : Config := { origin := {}, features := { dns := { serverConfig := true } } }
    ¬LeavesDisabled { sampleContext with cfg := cfg } false
      { dnsConfig := some { protectionEnabled := some true } }
      { dns := { protectionEnabled := some false } } := by
  intro cfg h
  have hdiffers : ({ protectionEnabled := some false } : DNSConfig).equals
      { protectionEnabled := some true } = some false := by decide
  obtain ⟨tr, out, i', hrun, hw, hi'⟩ := @exists_protection_eq { sampleContext with cfg := cfg }
    false { dnsConfig := some { protectionEnabled := some true } }
    { dns := { protectionEnabled := some false } } rfl rfl _ rfl hdiffers true rfl
  have hkept := (h tr out i' hrun hw .protection rfl).symm.trans hi'
  cases hkept

end AghSync
