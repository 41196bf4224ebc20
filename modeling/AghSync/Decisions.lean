import AghSync.Encoding
import AghSync.Instance

/-!
# When an action writes

Three actions that send a document if it is not the replica's, and what they take for the same.

The DHCP action compares whole documents, and a document has the leases besides the settings.
The profile action sends a profile that differs in more than the theme. The filter action
compares rule lists by a text in which the boundaries of rules are spaces.
-/

open Interaction Interaction.Prog

namespace AghSync

open Model

/-! ## DHCP server settings -/

/-- The settings of a DHCP document. -/
def Model.DhcpStatus.settings (c : DhcpStatus) :
    Option Bool × Option String × Option DhcpConfigV4 × Option DhcpConfigV6 :=
  (c.enabled, c.interfaceName, c.v4, c.v6)

theorem Model.DhcpStatus.eq_iff {c d : DhcpStatus} :
    c = d ↔ c.settings = d.settings ∧ c.leases = d.leases ∧ c.staticLeases = d.staticLeases := by
  constructor
  · rintro rfl
    exact ⟨rfl, rfl, rfl⟩
  · rintro ⟨hsettings, hleases, hstatic⟩
    cases c
    cases d
    simp_all [settings]

/-- In every run with this answer, the settings are sent exactly if the effective ones differ,
and they are what is sent. -/
def DecidesDhcp (ac : ActionContext) (o d : DhcpStatus) : Prop :=
  ∀ org tr out, org.dhcpServerConfig = some o →
    Runs (actionDHCPServerConfig ac org) (⟨.read ac.client.party .dhcpStatus, .ok d⟩ :: tr) out →
    ((∃ c, .dhcpSetConfig c ∈ issued tr) ↔
      (ac.replica.overrideDhcp o).cleanV4V6.settings ≠ d.cleanV4V6.settings) ∧
    ∀ c, .dhcpSetConfig c ∈ issued tr →
      c.settings = (ac.replica.overrideDhcp o).cleanV4V6.settings

/-- The overrides are no leases. -/
theorem AdGuardInstance.overrideDhcp_leases (i : AdGuardInstance) (c : DhcpStatus) :
    (i.overrideDhcp c).cleanV4V6.leases = c.leases ∧
      (i.overrideDhcp c).cleanV4V6.staticLeases = c.staticLeases := by
  unfold AdGuardInstance.overrideDhcp DhcpStatus.cleanV4V6
  split_ifs <;> exact ⟨rfl, rfl⟩

section Dhcp

variable {ac : ActionContext} {o d : DhcpStatus}

/-- The action sends the origin's document unless it is the replica's. -/
theorem runs_actionDHCPServerConfig {org : Origin} {tr : Trace Event Reply}
    {out : Act.Outcome Origin Err Unit} (hcopy : ac.deps.copierCopy o = o)
    (hconfig : o.hasConfig = true) (horg : org.dhcpServerConfig = some o) :
    Runs (actionDHCPServerConfig ac org) (⟨.read ac.client.party .dhcpStatus, .ok d⟩ :: tr) out ↔
      if (ac.replica.overrideDhcp o).cleanV4V6 = d.cleanV4V6 then
        tr = [] ∧ out = some (.ok (), org)
      else ∃ r, tr = [⟨.write ac.client.party
        (.dhcpSetConfig (ac.replica.overrideDhcp o).cleanV4V6), r⟩] ∧ out = some (r, org) := by
  have hequal : (d.cleanAndEquals (ac.replica.overrideDhcp o)).1 = true ↔
      (ac.replica.overrideDhcp o).cleanV4V6 = d.cleanV4V6 :=
    jsonEquals_iff.trans eq_comm
  unfold actionDHCPServerConfig
  rw [fromOrigin_bind_apply horg, if_pos hconfig]
  refine Client.runs_doGet_cons.trans ?_
  rw [hcopy]
  by_cases heq : (ac.replica.overrideDhcp o).cleanV4V6 = d.cleanV4V6
  · rw [if_pos heq]
    simp only [hequal.mpr heq, Bool.not_true, Bool.false_eq_true, if_false]
    exact runs_ret
  · rw [if_neg heq]
    simp only [Bool.eq_false_iff.mpr (hequal.not.mpr heq), Bool.not_false, if_true]
    exact Client.runs_send

/-- Where only leases differ the settings are sent. -/
theorem DecidesDhcp.leases_eq (h : DecidesDhcp ac o d) (hcopy : ac.deps.copierCopy o = o)
    (hconfig : o.hasConfig = true)
    (hsettings : (ac.replica.overrideDhcp o).cleanV4V6.settings = d.cleanV4V6.settings) :
    o.leases = d.leases ∧ o.staticLeases = d.staticLeases := by
  rw [← (ac.replica.overrideDhcp_leases o).1, ← (ac.replica.overrideDhcp_leases o).2]
  by_contra hleases
  have hne : (ac.replica.overrideDhcp o).cleanV4V6 ≠ d.cleanV4V6 := fun heq =>
    hleases (DhcpStatus.eq_iff.mp heq).2
  have hrun : Runs (actionDHCPServerConfig ac { dhcpServerConfig := some o })
      [⟨.read ac.client.party .dhcpStatus, .ok d⟩, ⟨.write ac.client.party
        (.dhcpSetConfig (ac.replica.overrideDhcp o).cleanV4V6), .ok ()⟩]
      (some (.ok (), { dhcpServerConfig := some o })) := by
    rw [runs_actionDHCPServerConfig hcopy hconfig rfl, if_neg hne]
    exact ⟨.ok (), rfl, rfl⟩
  exact (h _ _ _ rfl hrun).1.mp ⟨_, List.mem_singleton_self _⟩ hsettings

/-- The decision is right exactly if the leases are the same when the settings are. -/
theorem decidesDhcp_iff (ac : ActionContext) (o d : DhcpStatus) (hcopy : ac.deps.copierCopy o = o)
    (hconfig : o.hasConfig = true) : DecidesDhcp ac o d ↔
      ((ac.replica.overrideDhcp o).cleanV4V6.settings = d.cleanV4V6.settings →
        o.leases = d.leases ∧ o.staticLeases = d.staticLeases) := by
  constructor
  · exact fun h => h.leases_eq hcopy hconfig
  · intro hleases org tr out horg hrun
    have h := (runs_actionDHCPServerConfig hcopy hconfig horg).mp hrun
    split_ifs at h with heq
    · obtain ⟨rfl, -⟩ := h
      have hsettings := (DhcpStatus.eq_iff.mp heq).1
      exact ⟨iff_of_false (fun ⟨_, hc⟩ => absurd hc List.not_mem_nil) fun hne => hne hsettings,
        fun _ hc => absurd hc List.not_mem_nil⟩
    · obtain ⟨r, rfl, -⟩ := h
      have hissued : issued [⟨.write ac.client.party
          (.dhcpSetConfig (ac.replica.overrideDhcp o).cleanV4V6), r⟩] =
        [.dhcpSetConfig (ac.replica.overrideDhcp o).cleanV4V6] := rfl
      have hne : (ac.replica.overrideDhcp o).cleanV4V6.settings ≠ d.cleanV4V6.settings := by
        intro hsettings
        refine heq (DhcpStatus.eq_iff.mpr ⟨hsettings, ?_⟩)
        rw [(ac.replica.overrideDhcp_leases o).1, (ac.replica.overrideDhcp_leases o).2]
        exact hleases hsettings
      simp [hissued, hne]

end Dhcp

/-- The range an origin and its replica serve. -/
def sampleRange : DhcpConfigV6 where
  rangeStart := some "fd00::2"

/-- The replica is to be switched on. -/
theorem decidesDhcp_iff_sample :
    let o : DhcpStatus := { enabled := some true, v6 := some sampleRange }
    let d : DhcpStatus := { enabled := some false, v6 := some sampleRange }
    DecidesDhcp sampleContext o d ↔
      ((sampleContext.replica.overrideDhcp o).cleanV4V6.settings = d.cleanV4V6.settings →
        o.leases = d.leases ∧ o.staticLeases = d.staticLeases) :=
  decidesDhcp_iff sampleContext _ _ rfl rfl

/-- A static lease that the replica has and the origin does not. -/
theorem not_decidesDhcp :
    let o : DhcpStatus := { enabled := some true, v6 := some sampleRange }
    let d : DhcpStatus := { o with staticLeases := some [{ mac := "00:00:5e:00:53:01" }] }
    o.hasConfig = true ∧ (sampleContext.replica.overrideDhcp o).cleanV4V6.settings =
      d.cleanV4V6.settings ∧ ¬DecidesDhcp sampleContext o d := by
  refine ⟨rfl, rfl, fun h => ?_⟩
  obtain ⟨-, hstatic⟩ := h.leases_eq rfl rfl rfl
  cases hstatic

/-! ## The profile -/

/-- What the replica's profile should become : its name, and the language and theme of the
origin where the origin has them. -/
def Model.ProfileInfo.target (pi o : ProfileInfo) (withTheme : Bool) : ProfileInfo where
  name := pi.name
  language := if o.language ≠ "" then o.language else pi.language
  theme := if withTheme ∧ o.theme ≠ "" then o.theme else pi.theme

/-- The target is what is sent, and where the replica ends up : a successful run makes it the
replica's profile, and the next run has nothing to do. -/
def ReachesTarget (pi o : ProfileInfo) (withTheme : Bool) : Prop :=
  (pi.shouldSyncFor o withTheme = none ↔ pi.target o withTheme = pi) ∧
  (pi.target o withTheme ≠ pi →
    pi.shouldSyncFor o withTheme = some (pi.target o withTheme)) ∧
  ∀ ac org tr org' i i', ac.cfg.features.theme = withTheme → org.profileInfo = some o →
    i.profile = pi → Runs (actionProfileInfo ac org) tr (some (.ok (), org')) →
    Along Instance.Step tr i i' →
    i'.profile = pi.target o withTheme ∧
      ∀ tr₂ out₂ i₂, Runs (actionProfileInfo ac org') tr₂ out₂ → Along Instance.Step tr₂ i' i₂ →
        issued tr₂ = []

section Profile

variable {ac : ActionContext} {pi o : ProfileInfo} {withTheme : Bool} {org org' : Origin}
  {tr : Trace Event Reply} {i i' : Instance}

@[simp] theorem Model.ProfileInfo.target_target :
    (pi.target o withTheme).target o withTheme = pi.target o withTheme := by
  simp only [target]
  congr 1
  · split_ifs <;> rfl
  · split_ifs <;> rfl

theorem Model.ProfileInfo.target_language_ne (hlanguage : pi.language ≠ "") :
    (pi.target o withTheme).language ≠ "" := by
  simp only [target]
  split_ifs with h
  · exact h
  · exact hlanguage

/-- Only the language decides. -/
theorem Model.ProfileInfo.shouldSyncFor_eq (hname : pi.name ≠ "") (hlanguage : pi.language ≠ "") :
    pi.shouldSyncFor o withTheme =
      if (pi.target o withTheme).language = pi.language then none
      else some (pi.target o withTheme) := by
  have hmerged : (let merged : ProfileInfo :=
        { name := pi.name, language := pi.language, theme := pi.theme }
      let merged := if o.language ≠ "" then { merged with language := o.language } else merged
      if withTheme ∧ o.theme ≠ "" then { merged with theme := o.theme } else merged) =
      pi.target o withTheme := by
    simp only [target]
    split_ifs <;> rfl
  have hsame : pi.equals o withTheme = true → (pi.target o withTheme).language = pi.language := by
    intro h
    have hlang : pi.language = o.language := by simp_all [equals]
    simp [target, hlang]
  unfold shouldSyncFor
  simp only [] at hmerged
  by_cases heq : pi.equals o withTheme = true
  · rw [if_pos heq, if_pos (hsame heq)]
  · rw [if_neg heq]
    simp only [hmerged]
    have hname' : (pi.target o withTheme).name ≠ "" := hname
    refine if_congr ?_ rfl rfl
    simp [hname', target_language_ne hlanguage, equals]

/-- The profile that is read decides what is written. -/
theorem runs_actionProfileInfo (horg : org.profileInfo = some o)
    {out : Act.Outcome Origin Err Unit} (h : Runs (actionProfileInfo ac org) tr out)
    (hw : Along Instance.Step tr i i') :
    issued tr = [] ∧ i' = i ∧ (∀ org', out = some (.ok (), org') →
        org' = org ∧ i.profile.shouldSyncFor o ac.cfg.features.theme = none) ∨
      ∃ merged r, i.profile.shouldSyncFor o ac.cfg.features.theme = some merged ∧
        issued tr = [.profileUpdate merged] ∧ out = some (r, org) ∧
        (r = .ok () → i' = { i with profile := merged }) := by
  unfold actionProfileInfo at h
  rcases Client.runs_doGet_bind.mp h with ⟨pro, t, rfl, hk⟩ | ⟨e, rfl, rfl⟩
  · obtain ⟨i₁, ⟨rfl, rfl⟩, hw⟩ := hw
    have hdoc : i₁.doc .profile = i₁.profile := rfl
    rw [fromOrigin_bind_apply horg, hdoc] at hk
    cases hsync : i₁.profile.shouldSyncFor o ac.cfg.features.theme with
    | none =>
      simp only [hsync] at hk
      obtain ⟨rfl, rfl⟩ := runs_ret.mp hk
      exact .inl ⟨rfl, hw, by simp [eq_comm]⟩
    | some merged =>
      simp only [hsync] at hk
      obtain ⟨r, rfl, rfl⟩ := Client.runs_send.mp hk
      refine .inr ⟨merged, r, rfl, rfl, rfl, ?_⟩
      rintro rfl
      obtain ⟨i₂, rfl, rfl⟩ := hw
      rfl
  · obtain ⟨i₁, rfl, rfl⟩ := hw
    exact .inl ⟨rfl, rfl, by simp⟩

/-- A profile that is its own target is left alone. -/
theorem issued_actionProfileInfo_target (hname : pi.name ≠ "") (hlanguage : pi.language ≠ "")
    (horg : org.profileInfo = some o) (hprofile : i.profile = pi.target o ac.cfg.features.theme)
    {out : Act.Outcome Origin Err Unit} (h : Runs (actionProfileInfo ac org) tr out)
    (hw : Along Instance.Step tr i i') : issued tr = [] := by
  rcases runs_actionProfileInfo horg h hw with ⟨hissued, -, -⟩ | ⟨merged, r, hsync, -⟩
  · exact hissued
  · have hname' : (pi.target o ac.cfg.features.theme).name ≠ "" := hname
    have hnone : i.profile.shouldSyncFor o ac.cfg.features.theme = none := by
      rw [hprofile, ProfileInfo.shouldSyncFor_eq hname' (ProfileInfo.target_language_ne hlanguage),
        ProfileInfo.target_target, if_pos rfl]
    rw [hnone] at hsync
    cases hsync

/-- Unless the theme changes alone, the language tells a profile from its target. -/
theorem Model.ProfileInfo.target_language_eq_iff (hcond : withTheme = true → o.theme ≠ "" →
      o.theme ≠ pi.theme → o.language ≠ "" ∧ o.language ≠ pi.language) :
    (pi.target o withTheme).language = pi.language ↔ pi.target o withTheme = pi := by
  refine ⟨fun h => ?_, fun h => by rw [h]⟩
  have htheme : (pi.target o withTheme).theme = pi.theme := by
    simp only [target] at h ⊢
    grind
  calc pi.target o withTheme
    _ = ⟨(pi.target o withTheme).language, pi.name, (pi.target o withTheme).theme⟩ := rfl
    _ = pi := by rw [h, htheme]

/-- The target is reached exactly if the theme does not change alone. -/
theorem reachesTarget_iff (pi o : ProfileInfo) (withTheme : Bool) (hname : pi.name ≠ "")
    (hlanguage : pi.language ≠ "") : ReachesTarget pi o withTheme ↔
      (withTheme = true → o.theme ≠ "" → o.theme ≠ pi.theme →
        o.language ≠ "" ∧ o.language ≠ pi.language) := by
  have hsync : pi.shouldSyncFor o withTheme =
      if (pi.target o withTheme).language = pi.language then none
      else some (pi.target o withTheme) :=
    ProfileInfo.shouldSyncFor_eq hname hlanguage
  constructor
  · rintro ⟨hnone, -⟩ htheme hne hdiffers
    by_contra hsame
    have hlang : (pi.target o withTheme).language = pi.language := by
      simp only [ProfileInfo.target]
      split_ifs with h
      · exact not_not.mp fun hl => hsame ⟨h, hl⟩
      · rfl
    have htarget := congrArg ProfileInfo.theme (hnone.mp (by rw [hsync, if_pos hlang]))
    simp only [ProfileInfo.target, if_pos (And.intro htheme hne)] at htarget
    exact hdiffers htarget
  · intro hcond
    have hiff := ProfileInfo.target_language_eq_iff hcond
    refine ⟨by rw [hsync, ← hiff]; simp, fun hne => by rw [hsync, if_neg (hiff.not.mpr hne)], ?_⟩
    rintro ac org tr org' i i' rfl horg rfl h hw
    have hprofile : org' = org ∧ i'.profile = i.profile.target o ac.cfg.features.theme := by
      rcases runs_actionProfileInfo horg h hw with
        ⟨-, rfl, hnone⟩ | ⟨merged, r, hsome, -, hout, hi⟩
      · obtain ⟨horg', hnone⟩ := hnone org' rfl
        rw [hsync] at hnone
        have htarget := hiff.mp (by simpa using hnone)
        exact ⟨horg', htarget.symm⟩
      · obtain ⟨rfl, rfl⟩ := Prod.mk.inj (Option.some.inj hout)
        rw [hsync] at hsome
        have hmerged : i.profile.target o ac.cfg.features.theme = merged := by grind
        exact ⟨rfl, by rw [hi rfl, hmerged]⟩
    obtain ⟨rfl, hprofile⟩ := hprofile
    exact ⟨hprofile, fun tr₂ out₂ i₂ =>
      issued_actionProfileInfo_target hname hlanguage horg hprofile⟩

end Profile

/-- Language and theme change together. -/
theorem reachesTarget_iff_sample :
    let pi : ProfileInfo := { name := "admin", language := "en", theme := "auto" }
    let o : ProfileInfo := { name := "root", language := "de", theme := "dark" }
    ReachesTarget pi o true ↔
      (true = true → o.theme ≠ "" → o.theme ≠ pi.theme →
        o.language ≠ "" ∧ o.language ≠ pi.language) :=
  reachesTarget_iff _ _ true (by decide) (by decide)

/-- The theme changes alone. -/
theorem not_reachesTarget :
    let pi : ProfileInfo := { name := "admin", language := "en", theme := "light" }
    let o : ProfileInfo := { name := "root", language := "en", theme := "dark" }
    ¬ReachesTarget pi o true := by
  rintro pi o ⟨hnone, -⟩
  exact absurd (hnone.mp (by decide)) (by decide)

/-! ## Custom rules -/

/-- The rules cut at their spaces. No rules are cut like one empty rule. -/
def Utils.pieces : List String → List (List Char)
  | [] => [[]]
  | xs => xs.flatMap fun rule => rule.toList.splitOn ' '

theorem Utils.splitOn_intercalate :
    ∀ xs : List String, (" ".intercalate xs).toList.splitOn ' ' = pieces xs
  | [] => rfl
  | [x] => by simp [pieces]
  | x :: y :: xs => by
    have ih := splitOn_intercalate (y :: xs)
    simp only [String.toList_intercalate, List.map_cons] at ih ⊢
    rw [List.intercalate_cons_cons, List.append_assoc, show " ".toList = [' '] from rfl,
      List.singleton_append, List.splitOn_append_cons_self]
    exact congrArg _ ih

theorem Utils.intercalate_eq_iff {xs ys : List String} :
    " ".intercalate xs = " ".intercalate ys ↔ pieces xs = pieces ys := by
  rw [← splitOn_intercalate, ← splitOn_intercalate]
  refine ⟨fun h => by rw [h], fun h => String.toList_injective ?_⟩
  calc (" ".intercalate xs).toList
    _ = [' '].intercalate ((" ".intercalate xs).toList.splitOn ' ') :=
      (List.intercalate_splitOn ' ').symm
    _ = (" ".intercalate ys).toList := by rw [h, List.intercalate_splitOn]

/-- The texts tell rules apart as far as their pieces differ. -/
theorem Utils.ptrToString_eq_iff {a b : Option (List String)} :
    ptrToString a = ptrToString b ↔ a.map pieces = b.map pieces := by
  cases a with
  | none =>
    cases b with
    | none => simp
    | some ys => simp [ptrToString]
  | some xs =>
    cases b with
    | none => simp [ptrToString]
    | some ys => simp [ptrToString, intercalate_eq_iff]

/-- The texts of two rule lists are the same exactly if the lists are, and the rules are sent
exactly if they differ : in no other run, and in every run that succeeds. -/
def ComparesRules (o rf : FilterStatus) : Prop :=
  (Utils.ptrToString o.userRules = Utils.ptrToString rf.userRules ↔
    o.userRules = rf.userRules) ∧
  ∀ ac org tr out, org.filters = some o →
    Runs (actionFilters ac org) (⟨.read ac.client.party .filteringStatus, .ok rf⟩ :: tr) out →
    (∀ b, .filteringSetRules b ∈ issued tr →
      o.userRules ≠ rf.userRules ∧ b.rules = o.userRules) ∧
    ∀ org', out = some (.ok (), org') → o.userRules ≠ rf.userRules →
      ∃ b, .filteringSetRules b ∈ issued tr

section Rules

variable {σ : Type} {o rf : FilterStatus} {tr : Trace Event Reply}

/-- The event does not send rules. -/
def SparesRules : Event → Prop
  | .write _ (.filteringSetRules _) => False
  | _ => True

theorem notMem_issued_of_spares {α : Type} {p : Go α} {out : Option α} (hp : p.Only SparesRules)
    (h : Runs p tr out) (b : SetRulesRequest) : .filteringSetRules b ∉ issued tr := by
  intro hmem
  obtain ⟨_, _, hx⟩ := exists_mem_of_issued hmem
  exact h.of_only hp _ hx

theorem only_syncFilterType (of rFilters : Option (List Filter)) (whitelist : Bool) (cl : Client)
    (coe : Bool) (s : σ) : (syncFilterType of rFilters whitelist cl coe s).Only SparesRules := by
  refine Act.only_bind ⟨trivial, fun _ => trivial⟩ fun order s => ?_
  refine Act.only_bind ?removes fun _ s => Act.only_bind ?adds fun _ s =>
    Act.only_bind ?updates fun _ s => ?refresh
  case removes | adds | updates =>
    exact Act.only_forEach (fun f s => Act.only_tolerate (Client.only_send trivial)) _ _
  case refresh =>
    split_ifs
    · exact Client.only_send trivial
    · trivial

/-- The rules are sent if and only if they print differently : in no other run, and in every run
that succeeds. -/
def SendsDiffering (o rf : FilterStatus) (tr : Trace Event Reply) (out : Act.Outcome σ Err Unit) :
    Prop :=
  (∀ b, .filteringSetRules b ∈ issued tr →
    Utils.ptrToString o.userRules ≠ Utils.ptrToString rf.userRules ∧ b.rules = o.userRules) ∧
  ∀ org', out = some (.ok (), org') →
    Utils.ptrToString o.userRules ≠ Utils.ptrToString rf.userRules →
    ∃ b, .filteringSetRules b ∈ issued tr

/-- What comes before the rules does not matter. -/
theorem SendsDiffering.bind {m : Call σ Unit} {k : Unit → Call σ Unit} {s : σ}
    {out : Act.Outcome σ Err Unit} (hm : (m s).Only SparesRules)
    (hk : ∀ s' t, Runs (k () s') t out → SendsDiffering o rf t out)
    (h : Runs ((m >>= k) s) tr out) : SendsDiffering o rf tr out := by
  rcases Act.runs_bind.mp h with ⟨t₁, _, s', t₂, rfl, h₁, h₂⟩ | ⟨e, s', h₁, rfl⟩ | ⟨h₁, rfl⟩
  · obtain ⟨hsent, hdone⟩ := hk s' t₂ h₂
    have hnone := notMem_issued_of_spares hm h₁
    simpa [SendsDiffering, hnone] using ⟨hsent, hdone⟩
  · exact ⟨fun b hb => absurd hb (notMem_issued_of_spares hm h₁ b), by simp⟩
  · exact ⟨fun b hb => absurd hb (notMem_issued_of_spares hm h₁ b), by simp⟩

theorem sendsDiffering_syncRulesAndToggles {cl : Client} {s : σ} {out : Act.Outcome σ Err Unit}
    (h : Runs (syncRulesAndToggles o rf cl s) tr out) : SendsDiffering o rf tr out := by
  unfold syncRulesAndToggles at h
  by_cases hprint : Utils.ptrToString o.userRules ≠ Utils.ptrToString rf.userRules
  · rw [if_pos hprint] at h
    obtain ⟨r, rfl, -⟩ := Client.runs_send.mp h
    have hissued : issued [⟨.write cl.party (.filteringSetRules { rules := o.userRules }), r⟩] =
        [.filteringSetRules { rules := o.userRules }] := rfl
    simp [SendsDiffering, hissued, hprint]
  · rw [if_neg hprint] at h
    refine ⟨fun b hb => absurd hb (notMem_issued_of_spares ?_ h b), fun _ _ hne =>
      absurd hne hprint⟩
    split_ifs
    · cases o.enabled with
      | none => trivial
      | some enabled =>
        cases o.interval with
        | none => trivial
        | some interval => exact Client.only_send trivial
    · trivial

theorem sendsDiffering_actionFilters {ac : ActionContext} {org : Origin}
    {out : Act.Outcome Origin Err Unit} (horg : org.filters = some o)
    (h : Runs (actionFilters ac org) (⟨.read ac.client.party .filteringStatus, .ok rf⟩ :: tr)
      out) : SendsDiffering o rf tr out := by
  have hk := Client.runs_doGet_cons.mp h
  rw [fromOrigin_bind_apply horg] at hk
  refine .bind (only_syncFilterType _ _ _ _ _ _) (fun s t ht => ?_) hk
  refine .bind (only_syncFilterType _ _ _ _ _ _) (fun s t ht => ?_) ht
  exact sendsDiffering_syncRulesAndToggles ht

/-- Rule lists are compared exactly if no two of them have the same pieces. -/
theorem comparesRules_iff (o rf : FilterStatus) : ComparesRules o rf ↔
    ∀ xs ys, o.userRules = some xs → rf.userRules = some ys →
      Utils.pieces xs = Utils.pieces ys → xs = ys := by
  have hiff : (Utils.ptrToString o.userRules = Utils.ptrToString rf.userRules ↔
      o.userRules = rf.userRules) ↔ ∀ xs ys, o.userRules = some xs → rf.userRules = some ys →
        Utils.pieces xs = Utils.pieces ys → xs = ys := by
    rw [Utils.ptrToString_eq_iff]
    rcases o.userRules with _ | xs
    · cases rf.userRules <;> simp
    · rcases rf.userRules with _ | ys
      · simp
      · simpa using ⟨Iff.mp, fun h => ⟨h, congrArg Utils.pieces⟩⟩
  rw [← hiff]
  refine ⟨And.left, fun hexact => ⟨hexact, fun ac org tr out horg h => ?_⟩⟩
  have hsent := sendsDiffering_actionFilters horg h
  simpa only [SendsDiffering, ne_eq, hexact] using hsent

end Rules

/-- A rule of the hosts file format and two rules that print like it. -/
theorem not_comparesRules :
    let o : FilterStatus := { userRules := some ["0.0.0.0 ads.example"] }
    let rf : FilterStatus := { userRules := some ["0.0.0.0", "ads.example"] }
    ¬ComparesRules o rf := by
  rintro o rf ⟨hiff, -⟩
  exact absurd (hiff.mp (by decide)) (by decide)

end AghSync
