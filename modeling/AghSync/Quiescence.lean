import AghSync.Detection

/-!
# A replica in sync is not written again

A replica that stores the documents it is sent is brought in sync by one pass, and the next
pass with the same origin should find nothing to write (`DocAction.Quiescent`).

The blocked services are sorted while they are logged, just before they are sent, and their
comparison looks at the order. So a replica gets them sorted, and if the origin has them in
another order they are sent again in every pass (`DocAction.quiescent_iff`).
-/

open Interaction Interaction.Prog

namespace AghSync

open Model

/-- The documents of a replica. -/
abbrev Documents := (q : Read) → Doc q

namespace Documents

/-- Store the document that is sent. -/
def put (docs : Documents) : Write → Documents
  | .safesearchSettings d => Function.update docs .safesearchStatus d
  | .querylogConfigUpdate d => Function.update docs .querylogConfig d
  | .statsConfigUpdate d => Function.update docs .statsConfig d
  | .blockedServicesUpdate d => Function.update docs .blockedServicesGet d
  | .accessSet d => Function.update docs .accessList d
  | .dnsConfig d => Function.update docs .dnsInfo d
  | .dhcpSetConfig d => Function.update docs .dhcpStatus d
  | .tlsConfigure d => Function.update docs .tlsStatus d
  | _ => docs

/-- A replica that returns what it has stored. -/
def Step (docs : Documents) : Entry Event Reply → Documents → Prop
  | ⟨.read _ q, r⟩, docs' => r = .ok (docs q) ∧ docs' = docs
  | ⟨.write _ w, r⟩, docs' => r = .ok () ∧ docs' = docs.put w
  | _, docs' => docs' = docs

end Documents

/-- The actions that keep one document in sync. -/
inductive DocAction
  | setting (s : Setting)
  | dnsServer
  | dhcpServer

namespace DocAction

/-- The request for the document. -/
abbrev read : DocAction → Read
  | setting s => s.read
  | dnsServer => .dnsInfo
  | dhcpServer => .dhcpStatus

/-- The action. -/
def action : DocAction → ActionContext → Call Origin Unit
  | setting s => s.action
  | dnsServer => actionDNSServerConfig
  | dhcpServer => actionDHCPServerConfig

/-- The write of a document. -/
def write : (a : DocAction) → Doc a.read → Write
  | setting s, d => s.write d
  | dnsServer, d => .dnsConfig d
  | dhcpServer, d => .dhcpSetConfig d

/-- What is sent, if anything, when the origin has `o` and the replica `d`. -/
def update : (a : DocAction) → ActionContext → (o d : Doc a.read) → Option (Doc a.read)
  | setting s, _, o, d => if s.equals o d then none else some (s.sent o d)
  | dnsServer, _, o, d => (DNSConfig.equals d o).bind fun equal => if equal then none else some o
  | dhcpServer, ac, o, d =>
    if DhcpStatus.hasConfig o then
      let compared := DhcpStatus.cleanAndEquals d (ac.replica.overrideDhcp (ac.deps.copierCopy o))
      if compared.1 then none else some compared.2.2
    else none

variable {a : DocAction} {ac : ActionContext} {org : Origin} {o : Doc a.read}
  {docs docs' : Documents} {tr : Trace Event Reply}

/-! ## One pass -/

theorem runs_doGet_step {q : Read} {cl : Client} {k : Doc q → Call Origin Unit}
    {out : Act.Outcome Origin Err Unit} (h : Runs ((cl.doGet q >>= k) org) tr out)
    (hw : Along Documents.Step tr docs docs') :
    ∃ t, tr = ⟨.read cl.party q, .ok (docs q)⟩ :: t ∧ Runs (k (docs q) org) t out ∧
      Along Documents.Step t docs docs' :=
  Client.runs_doGet_along (fun _ _ hstep => hstep) h hw

/-- With nothing to send, nothing is written. -/
theorem runs_of_update_none (hload : org.load a.read = (org.store a.read o).load a.read)
    (hnone : a.update ac o (docs a.read) = none) {out : Act.Outcome Origin Err Unit}
    (h : Runs (a.action ac org) tr out) (hw : Along Documents.Step tr docs docs') :
    docs' = docs ∧ ∀ p w r, ⟨.write p w, r⟩ ∉ tr := by
  have hpure : ∀ {σ : Type} {s : σ} {t : Trace Event Reply} {out : Act.Outcome σ Err Unit},
      Runs ((pure () : Call σ Unit) s) t out → t = [] := fun h => (runs_ret.mp h).1
  cases a with
  | setting s =>
    have hequals : s.equals o (docs s.read) = true := by
      by_contra hne
      simp [update, hne] at hnone
    obtain ⟨prep, m, hcompares⟩ := Setting.compares ac hload
    simp only [action, hcompares.action_eq] at h
    obtain ⟨t, rfl, hk, hw⟩ := runs_doGet_step h hw
    simp only [Act.modify_bind_apply, hequals, Bool.not_true, Bool.false_eq_true, if_false] at hk
    obtain rfl := hpure hk
    exact ⟨hw, by simp⟩
  | dnsServer =>
    obtain ⟨t, rfl, hk, hw⟩ := runs_doGet_step h hw
    rw [fromOrigin_bind_apply hload] at hk
    cases hequal : DNSConfig.equals (docs .dnsInfo) o with
    | none =>
      rw [hequal] at hk
      obtain ⟨rfl, -⟩ := runs_crash.mp hk
      exact ⟨hw, by simp⟩
    | some equal =>
      obtain rfl : equal = true := by simpa [update, hequal] using hnone
      rw [hequal] at hk
      obtain rfl := hpure hk
      exact ⟨hw, by simp⟩
  | dhcpServer =>
    simp only [action, actionDHCPServerConfig] at h
    rw [fromOrigin_bind_apply hload] at h
    split_ifs at h with hconfig
    · obtain ⟨t, rfl, hk, hw⟩ := runs_doGet_step h hw
      simp only [update, hconfig, if_true, ite_eq_left_iff, reduceCtorEq, imp_false,
        not_not] at hnone
      simp only [hnone, Bool.not_true, Bool.false_eq_true, if_false] at hk
      obtain rfl := hpure hk
      exact ⟨hw, by simp⟩
    · obtain rfl := hpure h
      exact ⟨hw, by simp⟩

/-- With something to send, the replica has it after a pass that succeeds. -/
theorem runs_of_update_some (hload : org.load a.read = (org.store a.read o).load a.read)
    {b : Doc a.read} (hsome : a.update ac o (docs a.read) = some b) {org' : Origin}
    (h : Runs (a.action ac org) tr (some (.ok (), org')))
    (hw : Along Documents.Step tr docs docs') : docs' = docs.put (a.write b) := by
  have hone : ∀ {w : Write} {t : Trace Event Reply} {p : Party}, (∃ r, t = [⟨.write p w, r⟩]) →
      Along Documents.Step t docs docs' → docs' = docs.put w := by
    rintro w _ p ⟨r, rfl⟩ ⟨_, ⟨-, rfl⟩, hw⟩
    exact hw
  have hsend : ∀ {w : Write} {t : Trace Event Reply} {cl : Client} {s : Origin}
      {out : Act.Outcome Origin Err Unit}, Runs (cl.send w s) t out →
      Along Documents.Step t docs docs' → docs' = docs.put w := by
    intro w t cl s out h hw
    obtain ⟨r, rfl, -⟩ := Client.runs_send.mp h
    exact hone ⟨r, rfl⟩ hw
  cases a with
  | setting s =>
    have hne : s.equals o (docs s.read) = false := by
      by_contra he
      simp [update, he] at hsome
    obtain rfl : s.sent o (docs s.read) = b := by simpa [update, hne] using hsome
    obtain ⟨prep, m, hcompares⟩ := Setting.compares ac hload
    simp only [action, hcompares.action_eq] at h
    obtain ⟨t, rfl, hk, hw⟩ := runs_doGet_step h hw
    simp only [Act.modify_bind_apply, hne, Bool.not_false, if_true] at hk
    exact hone (hcompares.write _ _ _ _ hk) hw
  | dnsServer =>
    obtain ⟨equal, hequal, hb⟩ := Option.bind_eq_some_iff.mp hsome
    split_ifs at hb with hne
    obtain rfl := Option.some.inj hb
    obtain ⟨t, rfl, hk, hw⟩ := runs_doGet_step h hw
    rw [fromOrigin_bind_apply hload, hequal, Act.deref_some, Act.pure_bind,
      if_pos (by simpa using hne)] at hk
    exact hsend hk hw
  | dhcpServer =>
    simp only [update] at hsome
    split_ifs at hsome with hconfig hne
    obtain rfl := Option.some.inj hsome
    simp only [action, actionDHCPServerConfig] at h
    rw [fromOrigin_bind_apply hload, if_pos hconfig] at h
    obtain ⟨t, rfl, hk, hw⟩ := runs_doGet_step h hw
    rw [if_pos (by simpa using hne)] at hk
    exact hsend hk hw

end DocAction

/-! ## What is stored is equal to what was sent -/

namespace Model

@[simp] theorem jsonEquals_self {α : Type} [Marshal α] (a : α) : jsonEquals a a = true := by
  simp [jsonEquals]

theorem AccessList.equals_sent (d o : AccessList) :
    (AccessList.equals (d.equals o).2.2 o).1 = true :=
  AccessList.equals_iff.mpr (AccessList.sort_equals d o).2

theorem DNSConfig.equals_self {d o : DNSConfig} {equal : Bool} (h : d.equals o = some equal) :
    o.equals o = some true := by
  obtain ⟨_, -, h⟩ := Option.bind_eq_some_iff.mp h
  obtain ⟨oo, hoo, -⟩ := Option.bind_eq_some_iff.mp h
  simp [equals, hoo]

theorem DhcpStatus.cleanAndEquals_sent (d o : DhcpStatus) :
    ((d.cleanAndEquals o).2.2.cleanAndEquals o).1 = true := by
  have hclean : o.cleanV4V6.cleanV4V6 = o.cleanV4V6 := by
    simp [cleanV4V6, Option.filter_filter]
  simp [cleanAndEquals, equals, hclean]

theorem BlockedServicesSchedule.ids_of_marshal_eq {a b : BlockedServicesSchedule}
    (h : marshal a = marshal b) : a.ids = b.ids := by
  have hfield : ∀ c : BlockedServicesSchedule, (marshal c).field "ids" = c.ids := fun c =>
    Json.field_object (by simp [Json.omitEmpty]) (by simp)
  rw [← hfield, h, hfield]

theorem BlockedServicesSchedule.servicesString_ids (o : BlockedServicesSchedule) :
    o.servicesString.2 = { o with ids := o.ids.map sortStrings } := by
  unfold servicesString arrayString
  cases o.ids <;> rfl

end Model

/-! ## The next pass -/

namespace DocAction

variable {a : DocAction} {ac : ActionContext} {org : Origin} {o : Doc a.read}
  {docs docs' : Documents} {tr : Trace Event Reply}

theorem docs_put_write (docs : Documents) (a : DocAction) (b : Doc a.read) :
    docs.put (a.write b) a.read = b := by
  cases a with
  | setting s => cases s <;> exact Function.update_self _ _ docs
  | dnsServer => exact Function.update_self _ _ docs
  | dhcpServer => exact Function.update_self _ _ docs

/-- What the replica is sent for the blocked services is sorted, or there is nothing to
send. -/
def Settled : (a : DocAction) → (o d : Doc a.read) → Prop
  | setting .blockedServices, o, d =>
    marshal (α := BlockedServicesSchedule) o = marshal (α := BlockedServicesSchedule) d ∨
      (BlockedServicesSchedule.ids o).map sortStrings = BlockedServicesSchedule.ids o
  | _, _, _ => True

theorem update_sent {d b : Doc a.read} (h : a.update ac o d = some b) :
    a.update ac o b = none ↔ a.Settled o d := by
  cases a with
  | setting s =>
    simp only [update] at h
    split_ifs at h with hne
    obtain rfl := Option.some.inj h
    simp only [update, ite_eq_left_iff, reduceCtorEq, imp_false, Bool.not_eq_true,
      Bool.not_eq_false]
    cases s with
    | safeSearch => exact iff_of_true (SafeSearchConfig.equals_iff.mpr rfl) trivial
    | queryLog => exact iff_of_true (jsonEquals_self _) trivial
    | stats => exact iff_of_true (jsonEquals_self _) trivial
    | tls => exact iff_of_true (jsonEquals_self _) trivial
    | accessLists => exact iff_of_true (AccessList.equals_sent d o) trivial
    | blockedServices =>
      have hsent : Setting.sent .blockedServices o d =
          { o with ids := (BlockedServicesSchedule.ids o).map sortStrings } :=
        BlockedServicesSchedule.servicesString_ids o
      rw [hsent]
      constructor
      · intro he
        exact Or.inr (BlockedServicesSchedule.ids_of_marshal_eq (of_decide_eq_true he)).symm
      · rintro (he | hsorted)
        · exact absurd (decide_eq_true he) hne
        · rw [hsorted]
          exact jsonEquals_self _
  | dnsServer =>
    obtain ⟨equal, hequal, hb⟩ := Option.bind_eq_some_iff.mp h
    split_ifs at hb with hne
    obtain rfl := Option.some.inj hb
    refine iff_of_true ?_ trivial
    simp [update, DNSConfig.equals_self hequal]
  | dhcpServer =>
    simp only [update] at h
    split_ifs at h with hconfig hne
    obtain rfl := Option.some.inj h
    refine iff_of_true ?_ trivial
    simp [update, DhcpStatus.cleanAndEquals_sent]

/-- After a pass that succeeds, a pass with the same origin writes nothing. -/
def Quiescent (a : DocAction) (ac : ActionContext) (o : Doc a.read) (docs : Documents) : Prop :=
  ∀ org tr org' docs', org.load a.read = (org.store a.read o).load a.read →
    Runs (a.action ac org) tr (some (.ok (), org')) → Along Documents.Step tr docs docs' →
    ∀ org tr out docs'', org.load a.read = (org.store a.read o).load a.read →
      Runs (a.action ac org) tr out → Along Documents.Step tr docs' docs'' →
      ∀ p w r, ⟨.write p w, r⟩ ∉ tr

theorem settled_of_update_none {d : Doc a.read} (h : a.update ac o d = none) : a.Settled o d := by
  cases a with
  | setting s =>
    cases s with
    | blockedServices =>
      have hequals : BlockedServicesSchedule.equals o d = true := by
        by_contra hne
        simp [update, Setting.equals, hne] at h
      exact Or.inl (of_decide_eq_true hequals)
    | _ => trivial
  | dnsServer => trivial
  | dhcpServer => trivial

/-- Blocked services that differ are sent. -/
theorem runs_blockedServices (ac : ActionContext) {o : BlockedServicesSchedule}
    (hload : org.blockedServicesSchedule = some o)
    (hne : o.equals (docs .blockedServicesGet) = false) :
    Runs (actionBlockedServicesSchedule ac org)
      [⟨.read ac.client.party .blockedServicesGet, .ok (docs .blockedServicesGet)⟩,
        ⟨.write ac.client.party (.blockedServicesUpdate o.servicesString.2), .ok ()⟩]
      (some (.ok (), { org with blockedServicesSchedule := some o.servicesString.2 })) := by
  refine Client.runs_doGet_bind.mpr (Or.inl ⟨_, _, rfl, ?_⟩)
  rw [fromOrigin_bind_apply hload, if_pos (by simpa using hne)]
  exact Client.runs_send.mpr ⟨.ok (), rfl, rfl⟩

/-- Services that differ from the replica's and from what is sent are sent twice. -/
theorem not_quiescent_of_equals {o : BlockedServicesSchedule}
    (hfirst : o.equals (docs .blockedServicesGet) = false)
    (hagain : o.equals o.servicesString.2 = false) :
    ¬Quiescent (.setting .blockedServices) ac o docs := by
  intro h
  let org : Origin := { blockedServicesSchedule := some o }
  have hload : org.blockedServicesSchedule = some o := rfl
  have hstored : o.equals
      (docs.put (.blockedServicesUpdate o.servicesString.2) .blockedServicesGet) = false := hagain
  exact h _ _ _ _ hload (runs_blockedServices ac hload hfirst) ⟨_, ⟨rfl, rfl⟩, _, ⟨rfl, rfl⟩, rfl⟩
    _ _ _ _ hload (runs_blockedServices ac hload hstored)
    ⟨_, ⟨rfl, rfl⟩, _, ⟨rfl, rfl⟩, rfl⟩ _ _ _ (List.mem_cons_of_mem _ (List.mem_singleton.mpr rfl))

/-- A replica is written again exactly if it was sent services that the origin has in another
order. -/
theorem quiescent_iff (a : DocAction) (ac : ActionContext) (o : Doc a.read) (docs : Documents) :
    a.Quiescent ac o docs ↔ a.Settled o (docs a.read) := by
  constructor
  · intro h
    by_contra hsettled
    have hsome : ∃ b, a.update ac o (docs a.read) = some b :=
      Option.ne_none_iff_exists'.mp fun hnone => hsettled (settled_of_update_none hnone)
    obtain ⟨b, hb⟩ := hsome
    have hagain : a.update ac o b ≠ none := fun hnone => hsettled ((update_sent hb).mp hnone)
    cases a with
    | setting s =>
      cases s with
      | blockedServices =>
        have hne : ∀ {d : BlockedServicesSchedule},
            update (setting .blockedServices) ac o d ≠ none →
              BlockedServicesSchedule.equals o d = false := by
          intro d hd
          by_contra he
          exact hd (by simp [update, Setting.equals, he])
        have hfirst := hne (hb ▸ Option.some_ne_none b)
        have hb : Setting.sent .blockedServices o (docs .blockedServicesGet) = b := by
          simpa [update, Setting.equals, hfirst] using hb
        subst hb
        exact not_quiescent_of_equals hfirst (hne hagain) h
      | _ => exact hsettled trivial
    | dnsServer => exact hsettled trivial
    | dhcpServer => exact hsettled trivial
  · intro hsettled org tr org' docs' hload hrun hw org₂ tr₂ out docs'' hload₂ hrun₂ hw₂
    have hnone : a.update ac o (docs' a.read) = none := by
      cases h : a.update ac o (docs a.read) with
      | none => rw [(runs_of_update_none hload h hrun hw).1, h]
      | some b =>
        rw [runs_of_update_some hload h hrun hw, docs_put_write]
        exact (update_sent h).mpr hsettled
    exact (runs_of_update_none hload₂ hnone hrun₂ hw₂).2

/-- Two services out of alphabetical order are sent in each pass. -/
theorem not_quiescent : ¬Quiescent (.setting .blockedServices) sampleContext
    { ids := some ["youtube", "discord"] } fun
      | .blockedServicesGet => { ids := some [] }
      | q => Server.doc {} q :=
  not_quiescent_of_equals (by decide) (by decide)

end DocAction

end AghSync
