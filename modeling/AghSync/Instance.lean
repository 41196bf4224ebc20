import AghSync.Plan
import AghSync.Server

/-!
# A whole instance

`Instance` holds everything the actions read and write, and `Instance.apply` says what a write
does to it. A field that is sent to the DNS configuration is applied, one that is not sent
stays. The DHCP settings take the four fields of their request type.

An instance may fail any request, with or without the effect (`Instance.Step`). The stricter
`Instance.Rejects` fails exactly the writes that conflict with what it holds : a filter whose
URL is in one of the two lists, a client with an identifier of another client. Whether a
computation meets a rejection is then a question about its plan (`undisturbed_iff_accepts`).
-/

open Interaction Interaction.Prog

namespace AghSync

open Model

/-- The configuration with the fields that `c` has. -/
def Model.DNSConfig.overlay (d c : DNSConfig) : DNSConfig where
  blockedResponseTtl := c.blockedResponseTtl <|> d.blockedResponseTtl
  blockingIpv4 := c.blockingIpv4 <|> d.blockingIpv4
  blockingIpv6 := c.blockingIpv6 <|> d.blockingIpv6
  blockingMode := c.blockingMode <|> d.blockingMode
  bootstrapDns := c.bootstrapDns <|> d.bootstrapDns
  cacheEnabled := c.cacheEnabled <|> d.cacheEnabled
  cacheOptimistic := c.cacheOptimistic <|> d.cacheOptimistic
  cacheSize := c.cacheSize <|> d.cacheSize
  cacheTtlMax := c.cacheTtlMax <|> d.cacheTtlMax
  cacheTtlMin := c.cacheTtlMin <|> d.cacheTtlMin
  disableIpv6 := c.disableIpv6 <|> d.disableIpv6
  dnssecEnabled := c.dnssecEnabled <|> d.dnssecEnabled
  ednsCsCustomIp := c.ednsCsCustomIp <|> d.ednsCsCustomIp
  ednsCsEnabled := c.ednsCsEnabled <|> d.ednsCsEnabled
  ednsCsUseCustom := c.ednsCsUseCustom <|> d.ednsCsUseCustom
  fallbackDns := c.fallbackDns <|> d.fallbackDns
  localPtrUpstreams := c.localPtrUpstreams <|> d.localPtrUpstreams
  protectionDisabledUntil := c.protectionDisabledUntil <|> d.protectionDisabledUntil
  protectionEnabled := c.protectionEnabled <|> d.protectionEnabled
  ratelimit := c.ratelimit <|> d.ratelimit
  ratelimitSubnetSubnetLenIpv4 :=
    c.ratelimitSubnetSubnetLenIpv4 <|> d.ratelimitSubnetSubnetLenIpv4
  ratelimitSubnetSubnetLenIpv6 :=
    c.ratelimitSubnetSubnetLenIpv6 <|> d.ratelimitSubnetSubnetLenIpv6
  ratelimitWhitelist := c.ratelimitWhitelist <|> d.ratelimitWhitelist
  resolveClients := c.resolveClients <|> d.resolveClients
  upstreamDns := c.upstreamDns <|> d.upstreamDns
  upstreamDnsFile := c.upstreamDnsFile <|> d.upstreamDnsFile
  upstreamMode := c.upstreamMode <|> d.upstreamMode
  upstreamTimeout := c.upstreamTimeout <|> d.upstreamTimeout
  usePrivatePtrResolvers := c.usePrivatePtrResolvers <|> d.usePrivatePtrResolvers

/-- The state of a whole instance. The protection is a field of its DNS configuration. -/
structure Instance extends Server where
  running : Bool := true
  version : String := ""
  profile : ProfileInfo := {}
  parental : Bool := false
  safeBrowsing : Bool := false
  safeSearch : SafeSearchConfig := {}
  dns : DNSConfig := {}
  queryLog : QueryLogConfigWithIgnored := {}
  stats : GetStatsConfigResponse := {}
  blockedServices : BlockedServicesSchedule := {}
  clients : List Model.Client := []
  accessList : AccessList := {}
  tls : TlsConfig := {}

namespace Instance

/-- Whether the protection is on. -/
def protectionEnabled (i : Instance) : Bool :=
  i.dns.protectionEnabled.getD false

/-- What a write does. -/
def apply (i : Instance) : Write → Instance
  | .profileUpdate p => { i with profile := p }
  | .protection b =>
    { i with dns := { i.dns with protectionEnabled := some b.protectionEnabled } }
  | .parental enable => { i with parental := enable }
  | .safebrowsing enable => { i with safeBrowsing := enable }
  | .safesearchSettings d => { i with safeSearch := d }
  | .dnsConfig c => { i with dns := i.dns.overlay c }
  | .querylogConfigUpdate d => { i with queryLog := d }
  | .statsConfigUpdate d => { i with stats := d }
  | .blockedServicesUpdate d => { i with blockedServices := d }
  | .clientsAdd c => { i with clients := i.clients ++ [c] }
  | .clientsUpdate b =>
    { i with clients := i.clients.map fun c => if c.name = b.name then b.data.getD c else c }
  | .clientsDelete c => { i with clients := i.clients.filter fun d => d.name ≠ c.name }
  | .accessSet d => { i with accessList := d }
  | .dhcpSetConfig c => { i with dhcp := { i.dhcp with
      enabled := c.enabled <|> i.dhcp.enabled
      interfaceName := c.interfaceName <|> i.dhcp.interfaceName
      v4 := c.v4 <|> i.dhcp.v4
      v6 := c.v6 <|> i.dhcp.v6 } }
  | .tlsConfigure d => { i with tls := d }
  | w => { i with toServer := i.toServer.apply w }

/-- The document a read is answered with. -/
def doc (i : Instance) : (q : Read) → Doc q
  | .status =>
    { protectionEnabled := i.protectionEnabled, running := i.running, version := i.version }
  | .profile => i.profile
  | .parentalStatus => i.parental
  | .safebrowsingStatus => i.safeBrowsing
  | .safesearchStatus => i.safeSearch
  | .dnsInfo => i.dns
  | .querylogConfig => i.queryLog
  | .statsConfig => i.stats
  | .blockedServicesGet => i.blockedServices
  | .clients => { clients := some i.clients }
  | .accessList => i.accessList
  | .tlsStatus => i.tls
  | .rewriteList => i.toServer.doc .rewriteList
  | .filteringStatus => i.toServer.doc .filteringStatus
  | .dhcpStatus => i.toServer.doc .dhcpStatus

/-- The instance answers a request, or fails it. A write that fails may have been done. -/
def Step (i : Instance) : Entry Event Reply → Instance → Prop
  | ⟨.read _ q, .ok d⟩, i' => d = i.doc q ∧ i' = i
  | ⟨.write _ w, .ok _⟩, i' => i' = i.apply w
  | ⟨.write _ w, .error _⟩, i' => i' = i ∨ i' = i.apply w
  | _, i' => i' = i

/-! ## Rejections -/

/-- The URL is in a filter list. -/
def Lists (i : Instance) (whitelist : Bool) (url : String) : Prop :=
  url ∈ (i.filters whitelist).map Filter.url

/-- What an instance does not take : a filter whose URL is in either list, and a client with
an identifier that another client has. -/
def Conflicts (i : Instance) : Write → Prop
  | .filteringAddUrl b => ∃ whitelist, i.Lists whitelist (b.url.getD "")
  | .clientsAdd c => ∃ d ∈ i.clients, ¬(c.ids.getD []).Disjoint (d.ids.getD [])
  | .clientsUpdate b => ∃ d ∈ i.clients, d.name ≠ b.name ∧
      ¬((b.data.getD {}).ids.getD []).Disjoint (d.ids.getD [])
  | _ => False

/-- The instance fails what it does not take, and nothing else. Iterations have the given
orders. -/
def Rejects (orders : MergeSite → MapOrder String) (i : Instance) :
    Entry Event Reply → Instance → Prop
  | ⟨.read _ q, r⟩, i' => r = .ok (i.doc q) ∧ i' = i
  | ⟨.write _ w, .ok _⟩, i' => ¬i.Conflicts w ∧ i' = i.apply w
  | ⟨.write _ w, .error _⟩, i' => i.Conflicts w ∧ i' = i
  | ⟨.rangeMap _ site, order⟩, i' => order = orders site ∧ i' = i
  | _, i' => i' = i

/-- Every request is answered. -/
theorem exists_rejects (orders : MergeSite → MapOrder String) (i : Instance) (e : Event) :
    ∃ r i', i.Rejects orders ⟨e, r⟩ i' := by
  cases e with
  | createClient p => exact ⟨.ok (), i, rfl⟩
  | read p q => exact ⟨.ok (i.doc q), i, rfl, rfl⟩
  | write p w =>
    by_cases hw : i.Conflicts w
    · exact ⟨.error .setupNeeded, i, hw, rfl⟩
    · exact ⟨.ok (), i.apply w, hw, rfl⟩
  | rangeMap p site => exact ⟨orders site, i, rfl, rfl⟩
  | rangeReplicas => exact ⟨.stored, i, rfl⟩
  | now => exact ⟨(0 : ℤ), i, rfl⟩
  | readRunning => exact ⟨false, i, rfl⟩
  | cronNext => exact ⟨none, i, rfl⟩
  | updateResult | setRunning | setLastSyncTime | setNextSyncTime => exact ⟨(), i, rfl⟩

/-- None of the writes, one after the other, conflicts with what the instance holds then. -/
def Accepts : Instance → List Write → Prop
  | _, [] => True
  | i, w :: ws => ¬i.Conflicts w ∧ (i.apply w).Accepts ws

/-- No write of the trace is rejected. -/
def Undisturbed (tr : Trace Event Reply) : Prop :=
  ∀ p w e, (⟨.write p w, .error e⟩ : Entry Event Reply) ∉ tr

section Accepts

variable {orders : MergeSite → MapOrder String} {i i' : Instance} {ws ws' : List Write}

@[simp] theorem accepts_nil : i.Accepts [] :=
  trivial

@[simp] theorem accepts_cons {w : Write} :
    i.Accepts (w :: ws) ↔ ¬i.Conflicts w ∧ (i.apply w).Accepts ws :=
  Iff.rfl

theorem accepts_append : ∀ {ws : List Write} {i : Instance},
    i.Accepts (ws ++ ws') ↔ i.Accepts ws ∧ (ws.foldl apply i).Accepts ws'
  | [], i => by simp
  | w :: ws, i => by
    rw [List.cons_append, accepts_cons, accepts_cons, accepts_append, and_assoc]
    rfl

theorem Accepts.of_prefix (h : i.Accepts ws') (hp : ws <+: ws') : i.Accepts ws := by
  obtain ⟨rest, rfl⟩ := hp
  exact (accepts_append.mp h).1

/-- The writes that are not rejected take effect. -/
theorem eq_foldl_of_undisturbed : ∀ {tr : Trace Event Reply} {i : Instance},
    Along (Rejects orders) tr i i' → Undisturbed tr → i' = (issued tr).foldl apply i
  | [], _, h, _ => h
  | ⟨e, r⟩ :: tr, i, ⟨i₁, hstep, h⟩, hquiet => by
    have ih := eq_foldl_of_undisturbed h fun p w e he => hquiet p w e (by simp [he])
    cases e with
    | write p w =>
      rcases r with e | _
      · exact absurd (by simp) (hquiet p w e)
      · obtain ⟨-, rfl⟩ := hstep
        exact ih
    | read p q =>
      obtain ⟨-, rfl⟩ := hstep
      exact ih
    | rangeMap p site =>
      obtain ⟨-, rfl⟩ := hstep
      exact ih
    | _ =>
      obtain rfl : i₁ = i := hstep
      exact ih

/-- Nothing is rejected exactly if all writes, in order, are accepted. -/
theorem undisturbed_iff : ∀ {tr : Trace Event Reply} {i : Instance},
    Along (Rejects orders) tr i i' → (Undisturbed tr ↔ i.Accepts (issued tr))
  | [], _, _ => iff_of_true (by simp [Undisturbed]) trivial
  | ⟨e, r⟩ :: tr, i, ⟨i₁, hstep, h⟩ => by
    have ih := undisturbed_iff h
    have hcons : Undisturbed (⟨e, r⟩ :: tr) ↔
        (∀ p w err, (⟨.write p w, .error err⟩ : Entry Event Reply) ≠ ⟨e, r⟩) ∧ Undisturbed tr := by
      simp only [Undisturbed, List.mem_cons, not_or, forall_and]
    rw [hcons, ih]
    cases e with
    | write p w =>
      rcases r with e | _
      · refine iff_of_false (fun hne => hne.1 p w e rfl) fun hacc => ?_
        exact (accepts_cons.mp hacc).1 hstep.1
      · obtain ⟨hfree, rfl⟩ := hstep
        have hissued : issued (⟨.write p w, .ok ()⟩ :: tr) = w :: issued tr := rfl
        rw [hissued, accepts_cons]
        exact and_congr_left fun _ => iff_of_true (by simp) hfree
    | read p q =>
      obtain ⟨-, rfl⟩ := hstep
      exact and_iff_right (by simp)
    | rangeMap p site =>
      obtain ⟨-, rfl⟩ := hstep
      exact and_iff_right (by simp)
    | _ =>
      obtain rfl : i₁ = i := hstep
      exact and_iff_right (by simp)

end Accepts

/-! ## Plans and rejections -/

section Plan

variable {sc : Script} {cl : Client} {coe : Bool} {name : String} {m : Call Origin Unit}
  {o : Origin} {P : List Write} {crashes : Bool} {tr : Trace Event Reply}
  {out : Act.Outcome Origin Err Unit} {i i' : Instance}

theorem scripted_of_along (hw : Along (Rejects sc.order) tr i i')
    (hreads : ∀ p q d, (⟨.read p q, d⟩ : Entry Event Reply) ∉ tr)
    (hcreated : ∀ p d, (⟨.createClient p, d⟩ : Entry Event Reply) ∉ tr) :
    Always (Scripted sc) [] tr := by
  have hrange : ∀ p site order, (⟨.rangeMap p site, order⟩ : Entry Event Reply) ∈ tr →
      order = sc.order site := by
    clear hreads hcreated
    induction tr generalizing i with
    | nil => simp
    | cons x tr ih =>
      obtain ⟨i₁, hstep, hw⟩ := hw
      intro p site order hmem
      rcases List.mem_cons.mp hmem with rfl | hmem
      · exact hstep.1
      · exact ih hw p site order hmem
  refine always_of_forall fun x hx hist => ?_
  obtain ⟨e, r⟩ := x
  cases e with
  | createClient p => exact absurd hx (hcreated p r)
  | read p q => exact absurd hx (hreads p q r)
  | rangeMap p site => exact hrange p site r hx
  | _ => trivial

/-- The writing stage meets no rejection exactly if its plan is accepted, and then carries
it out. -/
theorem undisturbed_iff_accepts (hm : Act.Built (Sends cl coe name) m)
    (hP : Issues sc m o P crashes) (h : Runs (m o) tr out)
    (hw : Along (Rejects sc.order) tr i i') :
    (Undisturbed tr ↔ i.Accepts P) ∧ (Undisturbed tr → i' = P.foldl apply i ∧
      out = if crashes then none else some (.ok (), o)) := by
  have hreads := Sends.no_read hm h
  have hcreated : ∀ p d, (⟨.createClient p, d⟩ : Entry Event Reply) ∉ tr := fun p d hmem =>
    h.of_only (Sends.only (q := .status) hm o) _ hmem
  have hscript := scripted_of_along hw hreads hcreated
  have hiff := undisturbed_iff hw
  obtain ⟨-, ⟨rfl, hout⟩ | ⟨happlied, e, hout⟩⟩ := hP _ _ _ h hscript
  · exact ⟨hiff, fun hquiet => ⟨eq_foldl_of_undisturbed hw hquiet, hout⟩⟩
  · have hdisturbed : ¬Undisturbed tr := by
      intro hquiet
      subst hout
      cases Sends.stopsAt hm o _ _ h with
      | clean _ hne => exact hne e o rfl
      | @failed t x _ _ _ hfatal =>
        obtain ⟨ev, r⟩ := x
        cases ev with
        | read p q => exact hreads p q r (by simp)
        | write p w =>
          rcases r with err | _
          · exact hquiet p w err (by simp)
          · exact hfatal.1
        | _ => exact hfatal.1
    refine ⟨iff_of_false hdisturbed fun hacc => hdisturbed (hiff.mpr ?_), fun hquiet =>
      absurd hquiet hdisturbed⟩
    exact hacc.of_prefix happlied

end Plan

end Instance

end AghSync
