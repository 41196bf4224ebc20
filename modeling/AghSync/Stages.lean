import AghSync.Worker

/-!
# How an action proceeds

Every action goes through the same stages : it reads one document of the replica, looks at
one field of the snapshot, may change that field, and then only writes (`Staged`). What it
writes goes to endpoints of its own (`Write.action`), and a failed write either ends it or,
for the kinds in `Write.tolerable`, is logged and with `continueOnError` passed over.

The derivation of an action is indexed by the snapshot it starts from. `A` is what it may
put into its field : nothing for most actions. From the derivation follow, for all actions
at once, who it talks to (`Staged.only`), what it does to the snapshot (`Staged.snapshot`),
that the rest of the snapshot does not matter to it (`Staged.ignores`), and that it stops at
the first failure it does not tolerate (`Staged.stopsAt`).
-/

open Interaction

namespace AghSync

open Model

/-! ## Fields of the snapshot -/

/-- The field of the snapshot that holds a document. -/
abbrev Field : Read → Type
  | .status => Option ServerStatus
  | .profile => Option ProfileInfo
  | .parentalStatus => Bool
  | .safesearchStatus => Option SafeSearchConfig
  | .safebrowsingStatus => Bool
  | .rewriteList => Option (List RewriteEntry)
  | .blockedServicesGet => Option BlockedServicesSchedule
  | .filteringStatus => Option FilterStatus
  | .clients => Option Clients
  | .querylogConfig => Option QueryLogConfigWithIgnored
  | .statsConfig => Option GetStatsConfigResponse
  | .accessList => Option AccessList
  | .dnsInfo => Option DNSConfig
  | .dhcpStatus => Option DhcpStatus
  | .tlsStatus => Option TlsConfig

namespace Origin

/-- The field for a document. -/
def load (o : Origin) : (q : Read) → Field q
  | .status => o.status
  | .profile => o.profileInfo
  | .parentalStatus => o.parental
  | .safesearchStatus => o.safeSearch
  | .safebrowsingStatus => o.safeBrowsing
  | .rewriteList => o.rewrites
  | .blockedServicesGet => o.blockedServicesSchedule
  | .filteringStatus => o.filters
  | .clients => o.clients
  | .querylogConfig => o.queryLogConfig
  | .statsConfig => o.statsConfig
  | .accessList => o.accessList
  | .dnsInfo => o.dnsConfig
  | .dhcpStatus => o.dhcpServerConfig
  | .tlsStatus => o.tlsConfig

/-- The snapshot with another value in one field. -/
def save (o : Origin) : (q : Read) → Field q → Origin
  | .status, a => { o with status := a }
  | .profile, a => { o with profileInfo := a }
  | .parentalStatus, a => { o with parental := a }
  | .safesearchStatus, a => { o with safeSearch := a }
  | .safebrowsingStatus, a => { o with safeBrowsing := a }
  | .rewriteList, a => { o with rewrites := a }
  | .blockedServicesGet, a => { o with blockedServicesSchedule := a }
  | .filteringStatus, a => { o with filters := a }
  | .clients, a => { o with clients := a }
  | .querylogConfig, a => { o with queryLogConfig := a }
  | .statsConfig, a => { o with statsConfig := a }
  | .accessList, a => { o with accessList := a }
  | .dnsInfo, a => { o with dnsConfig := a }
  | .dhcpStatus, a => { o with dhcpServerConfig := a }
  | .tlsStatus, a => { o with tlsConfig := a }

@[simp] theorem load_save (o : Origin) (q : Read) (a : Field q) : (o.save q a).load q = a := by
  cases q <;> rfl

@[simp] theorem save_load (o : Origin) (q : Read) : o.save q (o.load q) = o := by
  cases q <;> rfl

@[simp] theorem save_save (o : Origin) (q : Read) (a b : Field q) :
    (o.save q a).save q b = o.save q b := by
  cases q <;> rfl

/-- Storing a document leaves the other fields alone. -/
theorem load_store_of_ne {q r : Read} (h : q ≠ r) (o : Origin) (d : Doc r) :
    (o.store r d).load q = o.load q := by
  cases r <;> cases q <;> first | rfl | exact absurd rfl h

/-- What is loaded after a document is stored depends on the document only. -/
theorem load_store (o o' : Origin) (q : Read) (d : Doc q) :
    (o.store q d).load q = (o'.store q d).load q := by
  cases q <;> rfl

/-- A field tells which document was stored. -/
theorem eq_of_load_store {o : Origin} {q : Read} {d d' : Doc q}
    (h : (o.store q d).load q = (o.store q d').load q) : d = d' := by
  cases q <;> first | exact Option.some.inj h | exact h

theorem load_save_of_ne {q r : Read} (h : q ≠ r) (o : Origin) (a : Field r) :
    (o.save r a).load q = o.load q := by
  cases r <;> cases q <;> first | rfl | exact absurd rfl h

theorem store_save_comm {q r : Read} (h : q ≠ r) (o : Origin) (d : Doc r) (a : Field q) :
    (o.store r d).save q a = (o.save q a).store r d := by
  cases r <;> cases q <;> first | rfl | exact absurd rfl h

end Origin

/-! ## What a write belongs to -/

namespace Write

/-- The action that sends a write. -/
def action : Write → String
  | installConfigure _ => "setup"
  | profileUpdate _ => "profile info"
  | protection _ => "protection"
  | parental _ => "parental"
  | safesearchSettings _ => "safe search config"
  | safebrowsing _ => "safe browsing"
  | dnsConfig _ => "DNS server config"
  | querylogConfigUpdate _ => "query log config"
  | statsConfigUpdate _ => "stats config"
  | rewriteAdd _ | rewriteDelete _ => "DNS rewrites"
  | filteringAddUrl _ | filteringRemoveUrl _ | filteringSetUrl _ | filteringRefresh _
  | filteringSetRules _ | filteringConfig _ => "actionFilters"
  | blockedServicesUpdate _ => "blocked services schedule"
  | clientsAdd _ | clientsUpdate _ | clientsDelete _ => "client settings"
  | accessSet _ => "DNS access lists"
  | dhcpSetConfig _ => "DHCP server config"
  | dhcpAddStaticLease _ | dhcpRemoveStaticLease _ => "DHCP static leases"
  | tlsConfigure _ => "TLS config"

/-- A failure of the write is logged, and with `continueOnError` passed over. -/
def tolerable : Write → Bool
  | filteringAddUrl _ | filteringRemoveUrl _ | filteringSetUrl _
  | clientsAdd _ | clientsUpdate _ | clientsDelete _
  | dhcpAddStaticLease _ | dhcpRemoveStaticLease _ | tlsConfigure _ => true
  | _ => false

end Write

/-! ## The stages -/

/-- The basic steps of the writing stage. -/
inductive Sends (cl : Client) (coe : Bool) (name : String) {σ : Type} :
    (α : Type) → Call σ α → Prop
  | range (site : MergeSite) : Sends cl coe name _ (cl.rangeMap site)
  | strict {w : Write} (hw : w.tolerable = false) (hname : w.action = name) :
      Sends cl coe name _ (cl.send w)
  | logged {w : Write} (hw : w.tolerable = true) (hname : w.action = name) :
      Sends cl coe name _ (Act.tolerate coe (cl.send w))

/-- `Staged cl coe name q A o m` : from the snapshot `o` the computation `m` first reads `q`
and the field for it, changes the field to values in `A`, and then writes. -/
inductive Staged (cl : Client) (coe : Bool) (name : String) (q : Read) (A : Field q → Prop) :
    Origin → Call Origin Unit → Prop
  | read {o : Origin} {k : Doc q → Call Origin Unit} (h : ∀ d, Staged cl coe name q A o (k d)) :
      Staged cl coe name q A o (cl.doGet q >>= k)
  | load {o : Origin} {α : Type} {f : Origin → α} {k : α → Call Origin Unit}
      (hf : ∀ o', o'.load q = o.load q → f o' = f o)
      (h : Staged cl coe name q A o (k (f o))) :
      Staged cl coe name q A o (Act.gets f >>= k)
  | deref {o : Origin} {α : Type} {x : Option α} {k : α → Call Origin Unit}
      (h : ∀ a, x = some a → Staged cl coe name q A o (k a)) :
      Staged cl coe name q A o (Act.deref x >>= k)
  | range {o : Origin} {site : MergeSite} {k : MapOrder String → Call Origin Unit}
      (h : ∀ order, Staged cl coe name q A o (k order)) :
      Staged cl coe name q A o (cl.rangeMap site >>= k)
  | save {o : Origin} {a : Field q} {k : Unit → Call Origin Unit} (ha : A a)
      (h : Staged cl coe name q A (o.save q a) (k ())) :
      Staged cl coe name q A o (Act.modify (fun o => o.save q a) >>= k)
  | write {o : Origin} {m : Call Origin Unit} (h : Act.Built (Sends cl coe name) m) :
      Staged cl coe name q A o m

namespace Sends

variable {σ : Type} {cl : Client} {coe : Bool} {name : String}

theorem send {w : Write} (hw : w.tolerable = false) (hname : w.action = name) :
    Act.Built (Sends cl coe name) (cl.send w : Call σ Unit) :=
  .basic (.strict hw hname)

/-- A write whose failure is logged. -/
theorem tolerate {w : Write} (hw : w.tolerable = true) (hname : w.action = name) :
    Act.Built (Sends cl coe name) (Act.tolerate coe (cl.send w) : Call σ Unit) :=
  .basic (.logged hw hname)

/-- A write whose failure is logged, after a value it needs. -/
theorem tolerate_deref {α : Type} {w : Write} (hw : w.tolerable = true)
    (hname : w.action = name) :
    ∀ x : Option α, Act.Built (Sends cl coe name)
      (Act.tolerate coe (Act.deref x >>= fun _ => cl.send w) : Call σ Unit)
  | some _ => tolerate hw hname
  | none => .crash

theorem noWrite : Act.Built (Sends cl coe name) (pure () : Call σ Unit) :=
  .pure ()

/-- A write that is sent on a condition. -/
theorem ite {c : Prop} [Decidable c] {m : Call σ Unit} (h : Act.Built (Sends cl coe name) m) :
    Act.Built (Sends cl coe name) (if c then m else pure ()) := by
  split_ifs
  · exact h
  · exact noWrite

end Sends

/-- Looking at a field that must not be nil. -/
theorem Staged.fromOrigin {cl : Client} {coe : Bool} {name : String} {q : Read}
    {A : Field q → Prop} {o : Origin} {α : Type} {f : Origin → Option α}
    {k : α → Call Origin Unit} (hf : ∀ o', o'.load q = o.load q → f o' = f o)
    (h : ∀ a, f o = some a → Staged cl coe name q A o (k a)) :
    Staged cl coe name q A o (AghSync.fromOrigin f >>= k) := by
  rw [AghSync.fromOrigin, Act.bind_assoc]
  exact .load hf (.deref h)

/-! ## Who an action talks to -/

/-- The events of an action on the replica `p` : it reads `q`, sends writes of the action
`name`, and iterates over maps. -/
def Own (p : Party) (name : String) (q : Read) : Event → Prop
  | .read p' r => p' = p ∧ r = q
  | .write p' w => p' = p ∧ w.action = name
  | .rangeMap p' _ => p' = p
  | _ => False

section Consequences

variable {cl : Client} {coe : Bool} {name : String} {q : Read} {A : Field q → Prop}

theorem Sends.only {α : Type} {m : Call Origin α} (h : Act.Built (Sends cl coe name) m)
    (o : Origin) : (m o).Only (Own cl.party name q) := by
  refine h.only ?_ o
  rintro _ _ ⟨site⟩ s
  · exact ⟨rfl, fun _ => trivial⟩
  · rename_i hw hname
    exact ⟨⟨rfl, hname⟩, fun _ => trivial⟩
  · rename_i hw hname
    refine ⟨⟨rfl, hname⟩, ?_⟩
    rintro (e | _)
    · cases coe <;> trivial
    · trivial

/-- The writing stage reads nothing. -/
theorem Sends.no_read {m : Call Origin Unit} (h : Act.Built (Sends cl coe name) m) {o : Origin}
    {tr : Trace Event Reply} {out : Act.Outcome Origin Err Unit} (hrun : Prog.Runs (m o) tr out) :
    ∀ p q d, (⟨.read p q, d⟩ : Entry Event Reply) ∉ tr := by
  intro p q d hmem
  -- It would be a reading of two different documents.
  have hstatus := (hrun.of_only (Sends.only (q := .status) h o) _ hmem).2
  have hprofile := (hrun.of_only (Sends.only (q := .profile) h o) _ hmem).2
  exact Read.noConfusion (hstatus.symm.trans hprofile)

/-- An action only talks to its replica, and only about its own document. -/
theorem Staged.only {o : Origin} {m : Call Origin Unit} (h : Staged cl coe name q A o m) :
    (m o).Only (Own cl.party name q) := by
  induction h with
  | read _ ih =>
    refine ⟨⟨rfl, rfl⟩, ?_⟩
    rintro (e | d)
    · trivial
    · exact ih d
  | load _ _ ih => exact ih
  | @deref o α x k _ ih =>
    cases x with
    | none => trivial
    | some a => exact ih a rfl
  | range _ ih => exact ⟨rfl, ih⟩
  | save _ _ ih => exact ih
  | write h => exact Sends.only h _

/-! ## What an action does to the snapshot -/

theorem Sends.state_eq {σ : Type} {m : Call σ Unit} (h : Act.Built (Sends cl coe name) m)
    {s s' : σ} {tr : Trace Event Reply} {r : Except Err Unit}
    (hrun : Prog.Runs (m s) tr (some (r, s'))) : s' = s := by
  refine h.state_eq ?_ hrun
  rintro _ _ ⟨site⟩ tr r s' hr
  · obtain ⟨_, -, ho⟩ := Client.runs_rangeMap.mp hr
    exact (Prod.mk.inj (Option.some.inj ho)).2
  · obtain ⟨_, -, ho⟩ := Client.runs_send.mp hr
    exact (Prod.mk.inj (Option.some.inj ho)).2
  · obtain ⟨_, -, ho⟩ := Client.runs_tolerate_send.mp hr
    exact (Prod.mk.inj (Option.some.inj ho)).2

/-- The writing stage does not look at the state. -/
theorem Sends.commutes {σ : Type} {m : Call σ Unit} (h : Act.Built (Sends cl coe name) m)
    (g : σ → σ) (s : σ) : m (g s) = m s >>= fun x => .ret (x.1, g x.2) := by
  refine h.commutes ?_ s
  rintro _ _ ⟨site⟩ s
  · rfl
  · rfl
  · refine congrArg (Prog.ask _) (funext ?_)
    rintro (e | _)
    · cases coe <;> rfl
    · rfl

/-- An action leaves the snapshot as it is, or puts a value of `A` into its field. -/
theorem Staged.snapshot {o o' : Origin} {m : Call Origin Unit} {tr : Trace Event Reply}
    {r : Except Err Unit} (h : Staged cl coe name q A o m)
    (hrun : Prog.Runs (m o) tr (some (r, o'))) : o' = o ∨ ∃ a, A a ∧ o' = o.save q a := by
  induction h generalizing tr with
  | read _ ih =>
    rcases Client.runs_doGet_bind.mp hrun with ⟨d, t, rfl, hk⟩ | ⟨e, rfl, ho⟩
    · exact ih d hk
    · exact Or.inl (Prod.mk.inj (Option.some.inj ho)).2
  | load _ _ ih => exact ih hrun
  | @deref o α x k _ ih =>
    cases x with
    | none =>
      obtain ⟨-, ho⟩ := Prog.runs_crash.mp hrun
      cases ho
    | some a => exact ih a rfl hrun
  | range _ ih =>
    obtain ⟨order, t, rfl, hk⟩ := Client.runs_rangeMap_bind.mp hrun
    exact ih order hk
  | @save o a k ha _ ih =>
    rcases ih hrun with rfl | ⟨b, hb, rfl⟩
    · exact Or.inr ⟨a, ha, rfl⟩
    · exact Or.inr ⟨b, hb, by simp⟩
  | write h => exact Or.inl (Sends.state_eq h hrun)

/-- A document that an action does not work on changes nothing about it. -/
theorem Staged.ignores {o : Origin} {m : Call Origin Unit} (h : Staged cl coe name q A o m)
    {r : Read} (hr : q ≠ r) (d : Doc r) :
    m (o.store r d) = m o >>= fun x => .ret (x.1, x.2.store r d) := by
  induction h with
  | @read o k _ ih =>
    refine congrArg (Prog.ask (Event.read cl.party q)) (funext ?_)
    rintro (e | d')
    · rfl
    · exact ih d'
  | @load o α f k hf _ ih =>
    have hload : (Act.gets f >>= k) (o.store r d) = k (f o) (o.store r d) := by
      rw [← hf _ (Origin.load_store_of_ne hr o d)]
      rfl
    rw [hload, ih]
    rfl
  | @deref o α x k _ ih =>
    cases x with
    | none => rfl
    | some a => exact ih a rfl
  | @range o site k _ ih =>
    exact congrArg (Prog.ask (Event.rangeMap cl.party site)) (funext ih)
  | @save o a k _ _ ih =>
    have hsave : (Act.modify (fun o => Origin.save o q a) >>= k) (o.store r d) =
        k () ((o.save q a).store r d) := by
      rw [← Origin.store_save_comm hr o d a]
      rfl
    rw [hsave, ih]
    rfl
  | @write o m h =>
    exact Sends.commutes h (fun o => o.store r d) o

/-! ## Stopping at a failure -/

/-- A request to an instance that was answered with an error. -/
def Failed : Entry Event Reply → Prop
  | ⟨.read _ _, .error _⟩ => True
  | ⟨.write _ _, .error _⟩ => True
  | _ => False

/-- A failure of this event ends the action it happens in. -/
def Strict (coe : Bool) : Event → Prop
  | .write _ w => coe = true → w.tolerable = false
  | _ => True

/-- A failure that is not passed over. -/
def Fatal (coe : Bool) (x : Entry Event Reply) : Prop :=
  Failed x ∧ Strict coe x.1

theorem Sends.stopsAt {σ : Type} {m : Call σ Unit} (h : Act.Built (Sends cl coe name) m)
    (s : σ) : Act.StopsAt (Fatal coe) m s := by
  refine h.stopsAt ?_ s
  rintro _ _ ⟨site⟩ s tr out hrun
  · obtain ⟨order, rfl, rfl⟩ := Client.runs_rangeMap.mp hrun
    exact .clean (by simp [Fatal, Failed]) (by simp)
  · rename_i w hw _
    obtain ⟨e | _, rfl, rfl⟩ := Client.runs_send.mp hrun
    · exact .single ⟨trivial, fun _ => hw⟩
    · exact .clean (by simp [Fatal, Failed]) (by simp)
  · rename_i w hw _
    obtain ⟨e | _, rfl, rfl⟩ := Client.runs_tolerate_send.mp hrun
    · cases coe with
      | false => exact .single ⟨trivial, by simp [Strict]⟩
      | true => exact .clean (by simp [Fatal, Strict, hw]) (by simp)
    · exact .clean (by simp [Fatal, Failed]) (by cases coe <;> simp)

/-- An action ends at the first failure that is not passed over, and only there with an
error. -/
theorem Staged.stopsAt {o : Origin} {m : Call Origin Unit} (h : Staged cl coe name q A o m) :
    Act.StopsAt (Fatal coe) m o := by
  induction h with
  | @read o k _ ih =>
    refine Act.StopsAt.bind ?_ ?_
    · intro tr out hrun
      obtain ⟨e | d, rfl, rfl⟩ := Client.runs_doGet.mp hrun
      · exact .single ⟨trivial, trivial⟩
      · exact .clean (by simp [Fatal, Failed]) (by simp)
    · intro tr d s hrun
      obtain ⟨_, -, ho⟩ := Client.runs_doGet.mp hrun
      obtain ⟨-, rfl⟩ := Prod.mk.inj (Option.some.inj ho)
      exact ih d
  | load _ _ ih => exact ih
  | @deref o α x k _ ih =>
    cases x with
    | none => exact .crash
    | some a => exact ih a rfl
  | @range o site k _ ih =>
    refine Act.StopsAt.bind ?_ ?_
    · intro tr out hrun
      obtain ⟨order, rfl, rfl⟩ := Client.runs_rangeMap.mp hrun
      exact .clean (by simp [Fatal, Failed]) (by simp)
    · intro tr order s hrun
      obtain ⟨_, -, ho⟩ := Client.runs_rangeMap.mp hrun
      obtain ⟨-, rfl⟩ := Prod.mk.inj (Option.some.inj ho)
      exact ih order
  | save _ _ ih => exact ih
  | write h => exact Sends.stopsAt h _

end Consequences

end AghSync
