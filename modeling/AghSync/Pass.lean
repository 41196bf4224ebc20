import AghSync.Discipline

/-!
# What a run looks like

The executions of the worker, taken apart along its source : a run is the flag, a pass and
the deferred part (`runs_sync`); a pass reads the origin and goes through the replicas
(`runs_pass`); the work on a replica is its status and a list of actions, between the
creation of its client and the report (`runs_syncTo`, `runs_work`, `runs_runActions_cons`).

The parts talk to one party each (`only_readOrigin`, `only_syncTo`), so the entries of a
party can be picked out of a run (`entriesOf`).
-/

open Interaction

namespace AghSync

open Model

/-! ## Parties -/

namespace Event

/-- The event is a call to `p`, or an iteration over a map for it. -/
def Calls (p : Party) : Event → Prop
  | read p' _ => p' = p
  | write p' _ => p' = p
  | rangeMap p' _ => p' = p
  | _ => False

/-- The party an event is about. -/
def party : Event → Option Party
  | createClient p => some p
  | read p _ => some p
  | write p _ => some p
  | rangeMap p _ => some p
  | _ => none

end Event

/-- The entries of a trace about a party. -/
def entriesOf (p : Party) (tr : Trace Event Reply) : Trace Event Reply :=
  tr.filter fun x => x.1.party = some p

@[simp] theorem entriesOf_append (p : Party) (t₁ t₂ : Trace Event Reply) :
    entriesOf p (t₁ ++ t₂) = entriesOf p t₁ ++ entriesOf p t₂ :=
  List.filter_append t₁ t₂

theorem entriesOf_eq_self {p : Party} {tr : Trace Event Reply}
    (h : ∀ x ∈ tr, x.1.party = some p) : entriesOf p tr = tr :=
  List.filter_eq_self.mpr fun x hx => decide_eq_true (h x hx)

theorem entriesOf_eq_nil {p : Party} {tr : Trace Event Reply}
    (h : ∀ x ∈ tr, x.1.party ≠ some p) : entriesOf p tr = [] :=
  List.filter_eq_nil_iff.mpr fun x hx => by simp [h x hx]

theorem Event.Calls.party {p : Party} {e : Event} (h : e.Calls p) : e.party = some p := by
  cases e with
  | read | write | rangeMap => exact congrArg some h
  | _ => exact h.elim

theorem Own.calls {p : Party} {name : String} {q : Read} {e : Event} (h : Own p name q e) :
    e.Calls p := by
  cases e with
  | read | write => exact h.1
  | rangeMap => exact h
  | _ => exact h.elim

/-- A run that gets past the origin has read what the enabled actions work on. -/
theorem Enabled.mem_reads {cfg : Config} {a : SyncAction} {q : Read} (h : Enabled cfg a q) :
    q = .status ∨ q = .profile ∨ q ∈ Worker.originReads cfg := by
  cases h with
  | dhcpServerConfig h | dhcpStaticLeases h | tlsConfig h => simp [Worker.originReads, h]
  | _ => simp [Worker.originReads]

namespace Worker

variable (w : Worker)

/-! ## Reading the origin -/

theorem runs_fetch_bind {oc : Client} {r : Read} {o : Origin} {k : Unit → Call Origin Unit}
    {tr : Trace Event Reply} {out : Act.Outcome Origin Err Unit} :
    Prog.Runs ((fetch oc r >>= k) o) tr out ↔
      (∃ d t, tr = ⟨.read oc.party r, .ok d⟩ :: t ∧ Prog.Runs (k () (o.store r d)) t out) ∨
        ∃ e, tr = [⟨.read oc.party r, .error e⟩] ∧ out = some (.error e, o) := by
  rw [fetch, Act.bind_assoc, Client.runs_doGet_bind]
  rfl

/-- Every read of `rs` succeeds, and `tr` is the trace of it. -/
inductive Fetched (p : Party) : List Read → Origin → Trace Event Reply → Origin → Prop
  | nil (o : Origin) : Fetched p [] o [] o
  | cons {r : Read} {rs : List Read} {o o' : Origin} {tr : Trace Event Reply} (d : Doc r)
      (h : Fetched p rs (o.store r d) tr o') :
      Fetched p (r :: rs) o (⟨.read p r, .ok d⟩ :: tr) o'

theorem Fetched.mem {p : Party} {rs : List Read} {o o' : Origin} {tr : Trace Event Reply}
    (h : Fetched p rs o tr o') {x : Entry Event Reply} (hx : x ∈ tr) :
    ∃ r ∈ rs, ∃ d, x = ⟨.read p r, .ok d⟩ := by
  induction h with
  | nil => cases hx
  | @cons r rs _ _ _ d _ ih =>
    rcases List.mem_cons.mp hx with rfl | hx
    · exact ⟨r, by simp, d, rfl⟩
    · obtain ⟨r', hr', h⟩ := ih hx
      exact ⟨r', by simp [hr'], h⟩

theorem Fetched.exists_mem {p : Party} {rs : List Read} {o o' : Origin}
    {tr : Trace Event Reply} (h : Fetched p rs o tr o') {r : Read} (hr : r ∈ rs) :
    ∃ d, ⟨.read p r, .ok d⟩ ∈ tr := by
  induction h with
  | nil => cases hr
  | cons d _ ih =>
    rcases List.mem_cons.mp hr with rfl | hr
    · exact ⟨d, by simp⟩
    · obtain ⟨d', hd'⟩ := ih hr
      exact ⟨d', by simp [hd']⟩

/-- Reading other documents leaves a field alone. -/
theorem Fetched.load_eq {p : Party} {rs : List Read} {o o' : Origin} {tr : Trace Event Reply}
    (h : Fetched p rs o tr o') {q : Read} (hq : q ∉ rs) : o'.load q = o.load q := by
  induction h with
  | nil => rfl
  | @cons r rs o o' tr d _ ih =>
    obtain ⟨hne, hq'⟩ := not_or.mp (mt List.mem_cons.mpr hq)
    rw [ih hq', Origin.load_store_of_ne hne]

/-- Reading a document leaves it in its field. -/
theorem Fetched.loaded {p : Party} {rs : List Read} {o o' : Origin} {tr : Trace Event Reply}
    (h : Fetched p rs o tr o') {q : Read} (hq : q ∈ rs) :
    ∃ d, ⟨.read p q, .ok d⟩ ∈ tr ∧ o'.load q = (o'.store q d).load q := by
  induction h with
  | nil => cases hq
  | @cons r rs o o' tr d h ih =>
    by_cases hmem : q ∈ rs
    · obtain ⟨d', hd', hload⟩ := ih hmem
      exact ⟨d', List.mem_cons_of_mem _ hd', hload⟩
    · obtain rfl := (List.mem_cons.mp hq).resolve_right hmem
      exact ⟨d, List.mem_cons_self, (h.load_eq hmem).trans (Origin.load_store _ _ _ _)⟩

/-- The same answers make the same snapshot. -/
theorem Fetched.unique {S : Prog.Strategy Event Reply} {p : Party} {rs : List Read}
    {o o₁ o₂ : Origin} {hist t₁ t₂ : Trace Event Reply} (h₁ : Fetched p rs o t₁ o₁)
    (h₂ : Fetched p rs o t₂ o₂) (a₁ : Prog.Answers S hist t₁) (a₂ : Prog.Answers S hist t₂) :
    t₁ = t₂ ∧ o₁ = o₂ := by
  induction h₁ generalizing t₂ hist with
  | nil =>
    cases h₂
    exact ⟨rfl, rfl⟩
  | cons d _ ih =>
    cases h₂ with
    | cons d' h₂ =>
      obtain rfl := Except.ok.inj (a₁.1.trans a₂.1.symm)
      obtain ⟨rfl, rfl⟩ := ih h₂ a₁.2 a₂.2
      exact ⟨rfl, rfl⟩

theorem status_notMem_originReads (cfg : Config) : .status ∉ originReads cfg := by
  simp only [originReads, List.mem_append, List.mem_cons, List.not_mem_nil, or_false]
  split_ifs <;> simp

theorem profile_notMem_originReads (cfg : Config) : .profile ∉ originReads cfg := by
  simp only [originReads, List.mem_append, List.mem_cons, List.not_mem_nil, or_false]
  split_ifs <;> simp

/-- Reading a list of documents stops at the first failure. -/
theorem runs_forEach_fetch {oc : Client} : ∀ {rs : List Read} {o : Origin}
    {tr : Trace Event Reply} {out : Act.Outcome Origin Err Unit},
    Prog.Runs (Act.forEach rs (fetch oc) o) tr out →
      (∃ o', out = some (.ok (), o') ∧ Fetched oc.party rs o tr o') ∨
        ∃ e o', out = some (.error e, o')
  | [], o, tr, out, h => by
    obtain ⟨rfl, rfl⟩ := Prog.runs_ret.mp h
    exact Or.inl ⟨o, rfl, .nil o⟩
  | r :: rs, o, tr, out, h => by
    rcases runs_fetch_bind.mp h with ⟨d, t, rfl, hk⟩ | ⟨e, rfl, rfl⟩
    · rcases runs_forEach_fetch hk with ⟨o', rfl, hf⟩ | herr
      · exact Or.inl ⟨o', rfl, .cons d hf⟩
      · exact Or.inr herr
    · exact Or.inr ⟨e, o, rfl⟩

/-- What the answer to the profile request leaves in the snapshot. -/
inductive Profiled (cfg : Config) : Except Err ProfileInfo → ProfileInfo → Prop
  | read (p : ProfileInfo) : Profiled cfg (.ok p) p
  | unauthorized {e : Err} (hcoe : cfg.continueOnError = true) (he : e.hasCode 401 = true) :
      Profiled cfg (.error e) {}

theorem Profiled.unique {cfg : Config} {rp : Except Err ProfileInfo} {p p' : ProfileInfo}
    (h : Profiled cfg rp p) (h' : Profiled cfg rp p') : p = p' := by
  cases h with
  | read =>
    cases h'
    rfl
  | unauthorized =>
    cases h'
    rfl

/-- `OriginRead w p tr o` : `tr` is the trace of a successful reading of the origin, whose
client is `p`, and `o` the snapshot. -/
inductive OriginRead (p : Party) : Trace Event Reply → Origin → Prop
  | intro {st : ServerStatus} {rp : Except Err ProfileInfo} {pi : ProfileInfo}
      {t : Trace Event Reply} {o : Origin} (hversion : w.deps.tooOld st = false)
      (hprofile : Profiled w.cfg rp pi)
      (hreads : Fetched p (originReads w.cfg) { status := some st, profileInfo := some pi } t o) :
      OriginRead p (⟨.read p .status, .ok st⟩ :: ⟨.read p .profile, rp⟩ :: t) o

theorem OriginRead.unique {w : Worker} {S : Prog.Strategy Event Reply} {p : Party}
    {hist t₁ t₂ : Trace Event Reply} {o₁ o₂ : Origin} (h₁ : OriginRead w p t₁ o₁)
    (h₂ : OriginRead w p t₂ o₂) (a₁ : Prog.Answers S hist t₁) (a₂ : Prog.Answers S hist t₂) :
    t₁ = t₂ ∧ o₁ = o₂ := by
  obtain ⟨-, hprofile₁, hreads₁⟩ := h₁
  obtain ⟨-, hprofile₂, hreads₂⟩ := h₂
  obtain ⟨hst₁, hrp₁, a₁⟩ := a₁
  obtain ⟨hst₂, hrp₂, a₂⟩ := a₂
  obtain rfl := Except.ok.inj (hst₁.trans hst₂.symm)
  obtain rfl := hrp₁.trans hrp₂.symm
  have hpi := hprofile₁.unique hprofile₂
  rw [hpi] at hreads₁
  obtain ⟨rfl, rfl⟩ := hreads₁.unique hreads₂ a₁ a₂
  exact ⟨rfl, rfl⟩

/-- Reading the profile leaves one in the snapshot, or fails. -/
theorem runs_fetchProfile_bind {oc : Client} {o : Origin} {k : Unit → Call Origin Unit}
    {tr : Trace Event Reply} {out : Act.Outcome Origin Err Unit}
    (h : Prog.Runs ((w.fetchProfile oc >>= k) o) tr out) :
    (∃ rp pi t, tr = ⟨.read oc.party .profile, rp⟩ :: t ∧ Profiled w.cfg rp pi ∧
      Prog.Runs (k () (o.store .profile pi)) t out) ∨ ∃ e o', out = some (.error e, o') := by
  rw [fetchProfile, Act.bind_assoc] at h
  obtain ⟨d, t, rfl, hk⟩ := Client.runs_attempt_doGet_bind.mp h
  rcases d with e | p
  · dsimp only at hk
    split at hk
    · rename_i hcond
      rw [Bool.and_eq_true] at hcond
      exact Or.inl ⟨_, {}, t, rfl, .unauthorized hcond.1 hcond.2, hk⟩
    · obtain ⟨-, rfl⟩ := Prog.runs_ret.mp hk
      exact Or.inr ⟨_, _, rfl⟩
  · exact Or.inl ⟨_, p, t, rfl, .read p, hk⟩

/-- Reading the status goes on only with a supported version. -/
theorem runs_fetchStatus_bind {oc : Client} {o : Origin} {k : Unit → Call Origin Unit}
    {tr : Trace Event Reply} {out : Act.Outcome Origin Err Unit}
    (h : Prog.Runs ((w.fetchStatus oc >>= k) o) tr out) :
    (∃ st t, tr = ⟨.read oc.party .status, .ok st⟩ :: t ∧ w.deps.tooOld st = false ∧
      Prog.Runs (k () (o.store .status st)) t out) ∨ ∃ e o', out = some (.error e, o') := by
  rw [fetchStatus, Act.bind_assoc] at h
  rcases Client.runs_doGet_bind.mp h with ⟨st, t, rfl, hk⟩ | ⟨e, rfl, rfl⟩
  · rw [Act.bind_assoc, Act.modify_bind_apply] at hk
    split at hk
    · obtain ⟨-, rfl⟩ := Prog.runs_ret.mp hk
      exact Or.inr ⟨_, _, rfl⟩
    · rename_i hversion
      exact Or.inl ⟨st, t, rfl, by simpa using hversion, hk⟩
  · exact Or.inr ⟨e, _, rfl⟩

/-- Reading the origin succeeds as `OriginRead` says, or it fails. -/
theorem runs_readOrigin {oc : Client} {tr : Trace Event Reply}
    {out : Act.Outcome Origin Err Unit} (h : Prog.Runs (w.readOrigin oc {}) tr out) :
    (∃ o, out = some (.ok (), o) ∧ OriginRead w oc.party tr o) ∨
      ∃ e o, out = some (.error e, o) := by
  rcases w.runs_fetchStatus_bind h with ⟨st, t, rfl, hversion, hk⟩ | herr
  · rcases w.runs_fetchProfile_bind hk with ⟨rp, pi, t, rfl, hprofile, hk'⟩ | herr
    · rcases runs_forEach_fetch hk' with ⟨o, rfl, hreads⟩ | herr
      · exact Or.inl ⟨o, rfl, .intro hversion hprofile hreads⟩
      · exact Or.inr herr
    · exact Or.inr herr
  · exact Or.inr herr

theorem OriginRead.reads {w : Worker} {p : Party} {tr : Trace Event Reply} {o : Origin}
    (h : OriginRead w p tr o) : ∀ x ∈ tr, ∃ q, x.1 = .read p q := by
  obtain ⟨-, -, hreads⟩ := h
  rintro x hx
  simp only [List.mem_cons] at hx
  rcases hx with rfl | rfl | hx
  · exact ⟨_, rfl⟩
  · exact ⟨_, rfl⟩
  · obtain ⟨r, -, d, rfl⟩ := hreads.mem hx
    exact ⟨r, rfl⟩

theorem only_fetch (oc : Client) (r : Read) (o : Origin) :
    (fetch oc r o).Only fun e => ∃ r, e = .read oc.party r :=
  Act.only_bind (Client.only_doGet ⟨r, rfl⟩) fun _ _ => trivial

/-- Reading the origin only reads the origin. -/
theorem only_readOrigin (oc : Client) (o : Origin) :
    (w.readOrigin oc o).Only fun e => ∃ r, e = .read oc.party r := by
  refine Act.only_bind ?status fun _ _ => Act.only_bind ?profile fun _ _ =>
    Act.only_forEach (only_fetch oc) _ _
  case status =>
    refine Act.only_bind (Client.only_doGet ⟨.status, rfl⟩) fun st _ =>
      Act.only_bind trivial fun _ _ => ?_
    split
    · trivial
    · trivial
  case profile =>
    refine Act.only_bind (Act.only_attempt (Client.only_doGet ⟨.profile, rfl⟩)) fun p _ => ?_
    rcases p with e | p
    · dsimp only
      split
      · trivial
      · trivial
    · trivial

/-! ## The status of a replica -/

/-- How the status of a replica is found out : `Connected replica p tr d` says that `tr` is
the trace and `d` the answer. -/
inductive Connected (replica : AdGuardInstance) (p : Party) :
    Trace Event Reply → Except Err ServerStatus → Prop
  | answered (st : ServerStatus) : Connected replica p [⟨.read p .status, .ok st⟩] (.ok st)
  | failed {e : Err} (he : replica.autoSetup = true → e ≠ .setupNeeded) :
      Connected replica p [⟨.read p .status, .error e⟩] (.error e)
  | setupFailed (cfg : InstallConfig) (e : Err) (hauto : replica.autoSetup = true) :
      Connected replica p [⟨.read p .status, .error .setupNeeded⟩,
        ⟨.write p (.installConfigure cfg), .error e⟩] (.error .setupNeeded)
  | setUp (cfg : InstallConfig) (d : Except Err ServerStatus)
      (hauto : replica.autoSetup = true) :
      Connected replica p [⟨.read p .status, .error .setupNeeded⟩,
        ⟨.write p (.installConfigure cfg), .ok ()⟩, ⟨.read p .status, d⟩] d

theorem runs_statusWithSetup {σ : Type} {replica : AdGuardInstance} {rc : Client} {s : σ}
    {tr : Trace Event Reply} {out : Act.Outcome σ Err ServerStatus}
    (h : Prog.Runs (statusWithSetup replica rc s) tr out) :
    ∃ d, out = some (d, s) ∧ Connected replica rc.party tr d := by
  obtain ⟨d, t, rfl, hk⟩ := Client.runs_attempt_doGet_bind.mp h
  rcases d with e | st
  · dsimp only at hk
    split at hk
    · rename_i hcond
      obtain ⟨hauto, he⟩ : replica.autoSetup = true ∧ e = .setupNeeded := by simpa using hcond
      subst he
      obtain ⟨r, t, rfl, hk'⟩ := Client.runs_attempt_send_bind.mp hk
      rcases r with e | _
      · obtain ⟨rfl, rfl⟩ := Prog.runs_ret.mp hk'
        exact ⟨_, rfl, .setupFailed _ e hauto⟩
      · obtain ⟨d, rfl, rfl⟩ := Client.runs_doGet.mp hk'
        exact ⟨d, rfl, .setUp _ d hauto⟩
    · rename_i hcond
      obtain ⟨rfl, rfl⟩ := Prog.runs_ret.mp hk
      exact ⟨_, rfl, .failed fun hauto he => hcond (by simp [hauto, he])⟩
  · obtain ⟨rfl, rfl⟩ := Prog.runs_ret.mp hk
    exact ⟨_, rfl, .answered st⟩

/-! ## The actions on a replica -/

/-- One action, then the others. -/
theorem runs_runActions_cons {ac : ActionContext} {a : SyncAction} {as : List SyncAction}
    {withError : Bool} {o : Origin} {tr : Trace Event Reply} {out : Option Work}
    (h : Prog.Runs (runActions ac (a :: as) withError o) tr out) :
    (∃ t₁ o' t₂, tr = t₁ ++ t₂ ∧ Prog.Runs (a.sync ac o) t₁ (some (.ok (), o')) ∧
      Prog.Runs (runActions ac as withError o') t₂ out) ∨
    (∃ t₁ e o' t₂, tr = t₁ ++ t₂ ∧ Prog.Runs (a.sync ac o) t₁ (some (.error e, o')) ∧
      ac.cfg.continueOnError = true ∧ Prog.Runs (runActions ac as true o') t₂ out) ∨
    (∃ e o', Prog.Runs (a.sync ac o) tr (some (.error e, o')) ∧
      ac.cfg.continueOnError = false ∧ out = some ⟨true, false, o'⟩) ∨
    Prog.Runs (a.sync ac o) tr none ∧ out = some ⟨withError, true, o⟩ := by
  rcases Prog.runs_bind.mp h with ⟨t₁, r, t₂, rfl, h₁, h₂⟩ | ⟨hnone, -⟩
  · obtain ⟨res, hres, hrun⟩ := Prog.runs_recover.mp h₁
    obtain rfl := Option.some.inj hres
    rcases r with _ | ⟨e | _, o'⟩
    · obtain ⟨rfl, rfl⟩ := Prog.runs_ret.mp h₂
      exact Or.inr (Or.inr (Or.inr ⟨by simpa using hrun, rfl⟩))
    · cases hcoe : ac.cfg.continueOnError with
      | true =>
        simp only [hcoe] at h₂
        exact Or.inr (Or.inl ⟨t₁, e, o', t₂, rfl, hrun, rfl, h₂⟩)
      | false =>
        simp only [hcoe] at h₂
        obtain ⟨rfl, rfl⟩ := Prog.runs_ret.mp h₂
        exact Or.inr (Or.inr (Or.inl ⟨e, o', by simpa using hrun, rfl, rfl⟩))
    · exact Or.inl ⟨t₁, o', t₂, rfl, hrun, h₂⟩
  · obtain ⟨_, ho, -⟩ := Prog.runs_recover.mp hnone
    cases ho

theorem runs_runActions_nil {ac : ActionContext} {withError : Bool} {o : Origin}
    {tr : Trace Event Reply} {out : Option Work} :
    Prog.Runs (runActions ac [] withError o) tr out ↔
      tr = [] ∧ out = some ⟨withError, false, o⟩ :=
  Prog.runs_ret

/-- What an action on a replica knows. -/
def actionContext (replica : AdGuardInstance) (rc : Client) (rs : ServerStatus) :
    ActionContext where
  deps := w.deps
  cfg := w.cfg
  client := rc
  replicaStatus := rs
  replica := replica

/-- The work on a replica is its status, then the actions if it can be synced. -/
theorem runs_work {replica : AdGuardInstance} {rc : Client} {o : Origin}
    {tr : Trace Event Reply} {out : Option Work}
    (h : Prog.Runs (w.work replica rc o) tr out) :
    (∃ rs t₁ t₂, tr = t₁ ++ t₂ ∧ Connected replica rc.party t₁ (.ok rs) ∧
      w.deps.tooOld rs = false ∧
      Prog.Runs (runActions (w.actionContext replica rc rs) (setupActions w.cfg) false o) t₂
        out) ∨
    ∃ d, Connected replica rc.party tr d ∧ (∀ rs, d = .ok rs → w.deps.tooOld rs = true) ∧
      out = some ⟨true, false, o⟩ := by
  rcases Prog.runs_bind.mp h with ⟨t₁, ⟨d, o'⟩, t₂, rfl, h₁, h₂⟩ | ⟨hnone, -⟩
  · obtain ⟨d', ho, hconn⟩ := runs_statusWithSetup h₁
    obtain ⟨rfl, rfl⟩ := Prod.mk.inj (Option.some.inj ho)
    rcases d with e | rs
    · obtain ⟨rfl, rfl⟩ := Prog.runs_ret.mp h₂
      exact Or.inr ⟨.error e, by simpa using hconn, nofun, rfl⟩
    · dsimp only at h₂
      split at h₂
      · rename_i hversion
        obtain ⟨rfl, rfl⟩ := Prog.runs_ret.mp h₂
        refine Or.inr ⟨.ok rs, by simpa using hconn, fun rs' hrs => ?_, rfl⟩
        rw [← Except.ok.inj hrs]
        exact hversion
      · rename_i hversion
        exact Or.inl ⟨rs, t₁, t₂, rfl, hconn, by simpa using hversion, h₂⟩
  · obtain ⟨_, ho, -⟩ := runs_statusWithSetup hnone
    cases ho

/-! ## A replica, all replicas, a run -/

/-- The client of a replica. -/
def replicaClient (replica : AdGuardInstance) : Client :=
  Client.new (.replica replica) replica

/-- The actions never let a crash through. -/
theorem runActions_ne_none {ac : ActionContext} : ∀ {as : List SyncAction} {withError : Bool}
    {o : Origin} {tr : Trace Event Reply}, ¬Prog.Runs (runActions ac as withError o) tr none
  | [], _, _, _, h => by
    obtain ⟨-, ho⟩ := runs_runActions_nil.mp h
    cases ho
  | a :: as, _, _, _, h => by
    rcases runs_runActions_cons h with ⟨_, _, _, -, -, hr⟩ | ⟨_, _, _, _, -, -, -, hr⟩ |
      ⟨_, _, -, -, ho⟩ | ⟨-, ho⟩
    · exact runActions_ne_none hr
    · exact runActions_ne_none hr
    · cases ho
    · cases ho

/-- Processing a replica is the creation of its client, the clock, the work, and the
report. -/
theorem runs_syncTo {replica : AdGuardInstance} {o : Origin} {tr : Trace Event Reply}
    {out : Option Origin} (h : Prog.Runs (w.syncTo replica o) tr out) :
    (∃ e, tr = [⟨.createClient (.replica replica), .error e⟩] ∧ out = some o) ∨
    ∃ start stop body done, tr = ⟨.createClient (.replica replica), .ok ()⟩ ::
        ⟨.now, start⟩ :: ⟨.now, stop⟩ ::
        (body ++ [⟨.updateResult replica.host (!done.withError) (stop - start), ()⟩]) ∧
      Prog.Runs (w.work replica (replicaClient replica) o) body (some done) ∧
      out = if done.crashed then none else some done.origin := by
  obtain ⟨r, t₁, rfl, h₁⟩ := runs_perform_bind.mp h
  rcases r with e | _
  · obtain ⟨rfl, rfl⟩ := Prog.runs_ret.mp h₁
    exact Or.inl ⟨e, rfl, rfl⟩
  · obtain ⟨start, t₂, rfl, h₂⟩ := runs_perform_bind.mp h₁
    obtain ⟨stop, t₃, rfl, h₃⟩ := runs_perform_bind.mp h₂
    rcases Prog.runs_bind.mp h₃ with ⟨body, done, t₄, rfl, hwork, h₄⟩ | ⟨hnone, -⟩
    · obtain ⟨_, t₅, rfl, h₅⟩ := runs_perform_bind.mp h₄
      have hend : t₅ = [] ∧ out = if done.crashed then none else some done.origin := by
        cases hcrash : done.crashed with
        | true =>
          rw [hcrash] at h₅
          exact Prog.runs_crash.mp h₅
        | false =>
          rw [hcrash] at h₅
          exact Prog.runs_ret.mp h₅
      obtain ⟨rfl, rfl⟩ := hend
      exact Or.inr ⟨start, stop, body, done, rfl, hwork, rfl⟩
    · exfalso
      rcases w.runs_work hnone with ⟨_, _, _, -, -, -, hr⟩ | ⟨_, -, -, ho⟩
      · exact runActions_ne_none hr
      · cases ho

theorem runs_syncAll_cons {replica : AdGuardInstance} {replicas : List AdGuardInstance}
    {o : Origin} {tr : Trace Event Reply} {out : Option Unit} :
    Prog.Runs (w.syncAll (replica :: replicas) o) tr out ↔
      (∃ t₁ o' t₂, tr = t₁ ++ t₂ ∧ Prog.Runs (w.syncTo replica o) t₁ (some o') ∧
        Prog.Runs (w.syncAll replicas o') t₂ out) ∨
      Prog.Runs (w.syncTo replica o) tr none ∧ out = none :=
  Prog.runs_bind

theorem runs_syncAll_nil {o : Origin} {tr : Trace Event Reply} {out : Option Unit} :
    Prog.Runs (w.syncAll [] o) tr out ↔ tr = [] ∧ out = some () :=
  Prog.runs_ret

/-- A pass that gets past the origin goes through the unique replicas. -/
theorem runs_pass {tr : Trace Event Reply} {out : Option Unit}
    (h : Prog.Runs w.pass tr out) :
    (∃ t₁ o order t₂,
      tr = ⟨.createClient .origin, .ok ()⟩ :: (t₁ ++ ⟨.rangeReplicas, order⟩ :: t₂) ∧
      OriginRead w .origin t₁ o ∧
      Prog.Runs (w.syncAll (w.cfg.uniqueReplicas order) o) t₂ out) ∨
    out = some () ∧ ∃ d t, tr = ⟨.createClient .origin, d⟩ :: t ∧
      ∀ x ∈ t, ∃ r, x.1 = .read .origin r := by
  obtain ⟨d, t, rfl, h₁⟩ := runs_perform_bind.mp h
  rcases d with e | _
  · obtain ⟨rfl, rfl⟩ := Prog.runs_ret.mp h₁
    exact Or.inr ⟨rfl, _, [], rfl, by simp⟩
  · rcases Prog.runs_bind.mp h₁ with ⟨t₁, r, t₂, rfl, hread, h₂⟩ | ⟨hnone, -⟩
    · rcases w.runs_readOrigin hread with ⟨o, hr, horigin⟩ | ⟨e, o, hr⟩
      · obtain rfl := Option.some.inj hr
        obtain ⟨order, t₃, rfl, h₃⟩ := runs_perform_bind.mp h₂
        exact Or.inl ⟨t₁, o, order, t₃, rfl, horigin, h₃⟩
      · obtain rfl := Option.some.inj hr
        obtain ⟨rfl, rfl⟩ := Prog.runs_ret.mp h₂
        refine Or.inr ⟨rfl, .ok (), t₁, by simp, ?_⟩
        exact hread.of_only (w.only_readOrigin _ _)
    · rcases w.runs_readOrigin hnone with ⟨o, hr, -⟩ | ⟨e, o, hr⟩
      · cases hr
      · cases hr

/-! ## Who is talked to -/

theorem only_statusWithSetup {σ : Type} (replica : AdGuardInstance) (rc : Client) (s : σ) :
    (statusWithSetup replica rc s).Only (Event.Calls rc.party) := by
  refine Act.only_bind (Act.only_attempt (Client.only_doGet rfl)) fun d _ => ?_
  rcases d with e | st
  · dsimp only
    split
    · refine Act.only_bind (Act.only_attempt (Client.only_send rfl)) fun r _ => ?_
      rcases r with e | _
      · trivial
      · exact Client.only_doGet rfl
    · trivial
  · trivial

theorem only_runActions {cfg : Config} (ac : ActionContext) :
    ∀ (as : List SyncAction) (withError : Bool) (o : Origin), as ⊆ setupActions cfg →
      (runActions ac as withError o).Only (Event.Calls ac.client.party)
  | [], _, _, _ => trivial
  | a :: as, withError, o, has => by
    obtain ⟨ha, has'⟩ := List.cons_subset.mp has
    obtain ⟨q, henabled⟩ := exists_enabled ha
    refine Prog.Only.bind ((henabled.staged ac o).only.mono fun _ => Own.calls).recover ?_
    rintro (_ | ⟨e | _, o'⟩)
    · trivial
    · dsimp only
      split
      · exact only_runActions ac as true o' has'
      · trivial
    · exact only_runActions ac as withError o' has'

theorem only_work (replica : AdGuardInstance) (rc : Client) (o : Origin) :
    (w.work replica rc o).Only (Event.Calls rc.party) := by
  refine Prog.Only.bind (only_statusWithSetup replica rc o) ?_
  rintro ⟨e | rs, o'⟩
  · trivial
  · dsimp only
    split
    · trivial
    · exact only_runActions (w.actionContext replica rc rs) _ _ _ (List.Subset.refl _)

/-- Processing a replica is about that replica only. -/
theorem only_syncTo (replica : AdGuardInstance) (o : Origin) :
    (w.syncTo replica o).Only fun e => ∀ p, e.party = some p → p = .replica replica := by
  have hnone : ∀ {e : Event}, e.party = none →
      ∀ p, e.party = some p → p = .replica replica := by
    intro e he p hp
    rw [he] at hp
    cases hp
  refine only_perform_bind (fun p hp => (Option.some.inj hp).symm) ?_
  rintro (e | _)
  · trivial
  · refine only_perform_bind (hnone rfl) fun start => only_perform_bind (hnone rfl) fun stop =>
      Prog.Only.bind ((w.only_work _ _ _).mono fun e he p hp => ?_) fun done =>
        only_perform_bind (hnone rfl) fun _ => ?_
    · exact Option.some.inj (hp.symm.trans he.party)
    · cases done.crashed
      · trivial
      · trivial

theorem syncTo_ne_rangeReplicas (replica : AdGuardInstance) (o : Origin) :
    (w.syncTo replica o).Only (· ≠ .rangeReplicas) := by
  refine only_perform_bind nofun ?_
  rintro (e | _)
  · trivial
  · refine only_perform_bind nofun fun start => only_perform_bind nofun fun stop =>
      Prog.Only.bind ((w.only_work _ _ _).mono fun e he => ?_) fun done =>
        only_perform_bind nofun fun _ => ?_
    · rintro rfl
      exact he
    · cases done.crashed
      · trivial
      · trivial

theorem syncAll_ne_rangeReplicas : ∀ (rs : List AdGuardInstance) (o : Origin),
    (w.syncAll rs o).Only (· ≠ .rangeReplicas)
  | [], _ => trivial
  | r :: rs, o =>
    Prog.Only.bind (w.syncTo_ne_rangeReplicas r o) fun o' => syncAll_ne_rangeReplicas rs o'

theorem only_syncAll : ∀ (rs : List AdGuardInstance) (o : Origin),
    (w.syncAll rs o).Only fun e => ∀ p, e.party = some p → ∃ r ∈ rs, p = .replica r
  | [], _ => trivial
  | r :: rs, o => by
    refine Prog.Only.bind ((w.only_syncTo r o).mono ?_) fun o' =>
      (only_syncAll rs o').mono ?_
    · exact fun e he p hp => ⟨r, by simp, he p hp⟩
    · intro e he p hp
      obtain ⟨r', hr', rfl⟩ := he p hp
      exact ⟨r', by simp [hr'], rfl⟩

/-! ## What every action preserves -/

/-- Every write of the trace satisfies `P`. -/
def WritesAll (P : Write → Prop) (tr : Trace Event Reply) : Prop :=
  ∀ x ∈ tr, ∀ p wr, x.1 = .write p wr → P wr

theorem writesAll_append {P : Write → Prop} {t₁ t₂ : Trace Event Reply} :
    WritesAll P (t₁ ++ t₂) ↔ WritesAll P t₁ ∧ WritesAll P t₂ :=
  List.forall_mem_append

theorem writesAll_of_noWrite {P : Write → Prop} {tr : Trace Event Reply}
    (h : ∀ x ∈ tr, ∀ p wr, x.1 ≠ .write p wr) : WritesAll P tr :=
  fun x hx p wr he => absurd he (h x hx p wr)

section Induct

/-- Every enabled action preserves `I` and writes only `P`. -/
def ActionsKeep (I : Origin → Prop) (P : Write → Prop) : Prop :=
  ∀ a ∈ setupActions w.cfg, ∀ ac o tr out, ac.cfg = w.cfg → I o →
    Prog.Runs (a.sync ac o) tr out → WritesAll P tr ∧ ∀ r o', out = some (r, o') → I o'

variable {w} {I : Origin → Prop} {P : Write → Prop}

theorem ActionsKeep.runActions (h : w.ActionsKeep I P) {ac : ActionContext}
    (hcfg : ac.cfg = w.cfg) : ∀ {as : List SyncAction} {withError : Bool} {o : Origin}
    {tr : Trace Event Reply} {out : Option Work}, as ⊆ setupActions w.cfg → I o →
    Prog.Runs (runActions ac as withError o) tr out →
      WritesAll P tr ∧ ∀ done, out = some done → I done.origin
  | [], _, o, _, _, _, ho, hrun => by
    obtain ⟨rfl, rfl⟩ := runs_runActions_nil.mp hrun
    exact ⟨by simp [WritesAll], fun done hdone => Option.some.inj hdone ▸ ho⟩
  | a :: as, _, o, _, _, has, ho, hrun => by
    obtain ⟨ha, has'⟩ := List.cons_subset.mp has
    rcases runs_runActions_cons hrun with ⟨t₁, o', t₂, rfl, h₁, h₂⟩ |
      ⟨t₁, e, o', t₂, rfl, h₁, -, h₂⟩ | ⟨e, o', h₁, -, rfl⟩ | ⟨h₁, rfl⟩
    · obtain ⟨hw₁, ho₁⟩ := h a ha ac o _ _ hcfg ho h₁
      obtain ⟨hw₂, ho₂⟩ := h.runActions hcfg has' (ho₁ _ _ rfl) h₂
      exact ⟨writesAll_append.mpr ⟨hw₁, hw₂⟩, ho₂⟩
    · obtain ⟨hw₁, ho₁⟩ := h a ha ac o _ _ hcfg ho h₁
      obtain ⟨hw₂, ho₂⟩ := h.runActions hcfg has' (ho₁ _ _ rfl) h₂
      exact ⟨writesAll_append.mpr ⟨hw₁, hw₂⟩, ho₂⟩
    · obtain ⟨hw₁, ho₁⟩ := h a ha ac o _ _ hcfg ho h₁
      exact ⟨hw₁, fun done hdone => Option.some.inj hdone ▸ ho₁ _ _ rfl⟩
    · obtain ⟨hw₁, -⟩ := h a ha ac o _ _ hcfg ho h₁
      exact ⟨hw₁, fun done hdone => Option.some.inj hdone ▸ ho⟩

theorem Connected.writesAll {replica : AdGuardInstance} {p : Party} {tr : Trace Event Reply}
    {d : Except Err ServerStatus} (h : Connected replica p tr d)
    (hsetup : ∀ c, P (.installConfigure c)) : WritesAll P tr := by
  intro x hx p' wr he
  cases h with
  | answered | failed =>
    rw [List.mem_singleton.mp hx] at he
    cases he
  | setupFailed cfg e hauto =>
    simp only [List.mem_cons, List.not_mem_nil, or_false] at hx
    rcases hx with rfl | rfl
    · cases he
    · cases he
      exact hsetup cfg
  | setUp cfg d hauto =>
    simp only [List.mem_cons, List.not_mem_nil, or_false] at hx
    rcases hx with rfl | rfl | rfl
    · cases he
    · cases he
      exact hsetup cfg
    · cases he

/-- Processing a replica preserves what every action preserves. -/
theorem ActionsKeep.syncTo (h : w.ActionsKeep I P) (hsetup : ∀ c, P (.installConfigure c))
    {replica : AdGuardInstance} {o : Origin} {tr : Trace Event Reply} {out : Option Origin}
    (ho : I o) (hrun : Prog.Runs (w.syncTo replica o) tr out) :
    WritesAll P tr ∧ ∀ o', out = some o' → I o' := by
  rcases w.runs_syncTo hrun with ⟨e, rfl, rfl⟩ | ⟨start, stop, body, done, rfl, hbody, rfl⟩
  · exact ⟨by simp [WritesAll], fun o' ho' => Option.some.inj ho' ▸ ho⟩
  · have hwork : WritesAll P body ∧ I done.origin := by
      rcases w.runs_work hbody with ⟨rs, t₁, t₂, rfl, hconn, -, hacts⟩ | ⟨d, hconn, -, hd⟩
      · obtain ⟨hw, hI⟩ := h.runActions rfl (List.Subset.refl _) ho hacts
        exact ⟨writesAll_append.mpr ⟨hconn.writesAll hsetup, hw⟩, hI done rfl⟩
      · obtain rfl := Option.some.inj hd
        exact ⟨hconn.writesAll hsetup, ho⟩
    constructor
    · intro x hx p wr he
      simp only [List.mem_cons, List.mem_append, List.not_mem_nil, or_false] at hx
      rcases hx with rfl | rfl | rfl | hx | rfl
      · cases he
      · cases he
      · cases he
      · exact hwork.1 x hx p wr he
      · cases he
    · intro o' ho'
      split_ifs at ho'
      exact Option.some.inj ho' ▸ hwork.2

theorem ActionsKeep.syncAll (h : w.ActionsKeep I P) (hsetup : ∀ c, P (.installConfigure c)) :
    ∀ {rs : List AdGuardInstance} {o : Origin} {tr : Trace Event Reply} {out : Option Unit},
      I o → Prog.Runs (w.syncAll rs o) tr out → WritesAll P tr
  | [], o, _, _, _, hrun => by
    obtain ⟨rfl, -⟩ := w.runs_syncAll_nil.mp hrun
    simp [WritesAll]
  | r :: rs, o, _, _, ho, hrun => by
    rcases w.runs_syncAll_cons.mp hrun with ⟨t₁, o', t₂, rfl, h₁, h₂⟩ | ⟨h₁, -⟩
    · obtain ⟨hw₁, ho₁⟩ := h.syncTo hsetup ho h₁
      exact writesAll_append.mpr ⟨hw₁, h.syncAll hsetup (ho₁ o' rfl) h₂⟩
    · exact (h.syncTo hsetup ho h₁).1

end Induct

/-- The part of a pass that processes one replica. Every snapshot it starts from satisfies
what processing a replica preserves. -/
theorem exists_segment {I : Origin → Prop}
    (hstep : ∀ r o tr o', I o → Prog.Runs (w.syncTo r o) tr (some o') → I o')
    {r : AdGuardInstance} : ∀ {rs : List AdGuardInstance} {o : Origin} {tr : Trace Event Reply}
    {out : Option Unit}, rs.Nodup → I o → Prog.Runs (w.syncAll rs o) tr out →
    (∃ x ∈ tr, x.1.party = some (.replica r)) →
      ∃ pre o' seg out' rs₂ o₂ post out₂, tr = pre ++ (seg ++ post) ∧ I o' ∧
        Prog.Runs (w.syncTo r o') seg out' ∧ Prog.Runs (w.syncAll rs₂ o₂) post out₂ ∧
        (∀ x ∈ pre, x.1.party ≠ some (.replica r)) ∧
        ∀ x ∈ post, x.1.party ≠ some (.replica r)
  | [], o, tr, out, _, _, h, ⟨x, hx, _⟩ => by
    obtain ⟨rfl, -⟩ := w.runs_syncAll_nil.mp h
    cases hx
  | r' :: rs, o, tr, out, hnodup, hI, h, ⟨x, hx, hparty⟩ => by
    obtain ⟨hr', hnodup'⟩ := List.nodup_cons.mp hnodup
    have hother : ∀ {t : Trace Event Reply} {o' : Origin} {out' : Option Unit},
        Prog.Runs (w.syncAll rs o') t out' →
          ∀ y ∈ t, ∀ r'' ∉ rs, y.1.party ≠ some (.replica r'') := by
      intro t o' out' ht y hy r'' hr'' hp
      obtain ⟨r₃, hr₃, he⟩ := ht.of_only (w.only_syncAll rs o') y hy _ hp
      exact hr'' (by rwa [Party.replica.inj he])
    rcases w.runs_syncAll_cons.mp h with ⟨t₁, o₁, t₂, rfl, h₁, h₂⟩ | ⟨hcrash, -⟩
    · by_cases hrr : r = r'
      · subst hrr
        exact ⟨[], o, t₁, some o₁, rs, o₁, t₂, out, rfl, hI, h₁, h₂, by simp,
          fun y hy => hother h₂ y hy r hr'⟩
      · have hpre : ∀ y ∈ t₁, y.1.party ≠ some (.replica r) := by
          intro y hy hp
          have he := h₁.of_only (w.only_syncTo r' o) y hy _ hp
          exact hrr (Party.replica.inj he)
        have hx₂ : x ∈ t₂ := (List.mem_append.mp hx).resolve_left fun hx₁ => hpre x hx₁ hparty
        obtain ⟨pre, o', seg, out', rs₂, o₂, post, out₂, rfl, hI', hseg, hpost, hp₁, hp₂⟩ :=
          exists_segment hstep hnodup' (hstep r' o t₁ o₁ hI h₁) h₂ ⟨x, hx₂, hparty⟩
        refine ⟨t₁ ++ pre, o', seg, out', rs₂, o₂, post, out₂, by simp, hI', hseg, hpost, ?_,
          hp₂⟩
        intro y hy
        exact (List.mem_append.mp hy).elim (hpre y) (hp₁ y)
    · have he := hcrash.of_only (w.only_syncTo r' o) x hx _ hparty
      obtain rfl := Party.replica.inj he
      exact ⟨[], o, tr, none, [], o, [], some (), by simp, hI, hcrash, .ret (), by simp,
        by simp⟩

/-- The events of the deferred part of a run. -/
def Deferred : Event → Prop
  | .setRunning _ | .now | .setLastSyncTime _ | .cronNext | .setNextSyncTime _ => True
  | _ => False

theorem only_finish : w.finish.Only Deferred := by
  refine ⟨trivial, fun _ => ⟨trivial, fun _ => ⟨trivial, fun _ => ?_⟩⟩⟩
  dsimp only
  split
  · refine ⟨trivial, ?_⟩
    rintro (_ | t)
    · trivial
    · exact ⟨trivial, fun _ => trivial⟩
  · trivial

/-- The deferred part talks to nobody. -/
theorem Deferred.party_eq {e : Event} (h : Deferred e) : e.party = none := by
  cases e with
  | createClient | read | write | rangeMap => exact h.elim
  | _ => rfl

theorem finish_ne_none {tr : Trace Event Reply} : ¬Prog.Runs w.finish tr none := by
  intro h
  obtain ⟨_, t, -, h₁⟩ := runs_perform_bind.mp h
  obtain ⟨t₀, t, -, h₂⟩ := runs_perform_bind.mp h₁
  obtain ⟨_, t, -, h₃⟩ := runs_perform_bind.mp h₂
  split at h₃
  · obtain ⟨next, t, -, h₄⟩ := runs_perform_bind.mp h₃
    rcases next with _ | next
    · cases (Prog.runs_ret.mp h₄).2
    · obtain ⟨_, t, -, h₅⟩ := Prog.runs_ask.mp h₄
      cases (Prog.runs_ret.mp h₅).2
  · cases (Prog.runs_ret.mp h₃).2

/-- A run that finds the flag set ends there. Any other sets it, makes a pass, and ends with
the deferred part, also when the pass crashed. -/
theorem runs_sync {tr : Trace Event Reply} {out : Option Unit} (h : Prog.Runs w.sync tr out) :
    (tr = [⟨.readRunning, true⟩] ∧ out = some ()) ∨
    ∃ body tail, tr = ⟨.readRunning, false⟩ :: ⟨.setRunning true, ()⟩ :: (body ++ tail) ∧
      Prog.Runs w.pass body out ∧ Prog.Runs w.finish tail (some ()) := by
  obtain ⟨running, t, rfl, h₁⟩ := runs_perform_bind.mp h
  cases running with
  | true =>
    obtain ⟨rfl, rfl⟩ := Prog.runs_ret.mp h₁
    exact Or.inl ⟨rfl, rfl⟩
  | false =>
    obtain ⟨_, t₂, rfl, h₂⟩ := runs_perform_bind.mp h₁
    rcases Prog.runs_bind.mp h₂ with ⟨body, done, t₃, rfl, hbody, h₃⟩ | ⟨hnone, -⟩
    · obtain ⟨_, hdone, hpass⟩ := Prog.runs_recover.mp hbody
      obtain rfl := Option.some.inj hdone
      rcases Prog.runs_bind.mp h₃ with ⟨tail, _, t₄, rfl, hfinish, h₄⟩ | ⟨hnone, -⟩
      · rcases done with _ | _
        · obtain ⟨rfl, rfl⟩ := Prog.runs_crash.mp h₄
          exact Or.inr ⟨body, tail, by simp, hpass, hfinish⟩
        · obtain ⟨rfl, rfl⟩ := Prog.runs_ret.mp h₄
          exact Or.inr ⟨body, tail, by simp, hpass, hfinish⟩
      · exact absurd hnone w.finish_ne_none
    · obtain ⟨_, ho, -⟩ := Prog.runs_recover.mp hnone
      cases ho

/-! ## A run that gets past the origin -/

/-- The run `tr` reads the origin (`origin`, with the snapshot `o`), goes through the
replicas (`all`) and ends with the deferred part (`tail`). -/
structure Passed (tr origin : Trace Event Reply) (o : Origin) (order : MapOrder String)
    (all tail : Trace Event Reply) (out : Option Unit) : Prop where
  split : tr = ⟨.readRunning, false⟩ :: ⟨.setRunning true, ()⟩ ::
    ⟨.createClient .origin, .ok ()⟩ :: (origin ++ ⟨.rangeReplicas, order⟩ :: (all ++ tail))
  read : OriginRead w .origin origin o
  replicas : Prog.Runs (w.syncAll (w.cfg.uniqueReplicas order) o) all out
  finish : Prog.Runs w.finish tail (some ())

/-- The events of a run that does not get past the origin. -/
def Early (e : Event) : Prop :=
  (e.party = none ∧ e ≠ .rangeReplicas) ∨ e = .createClient .origin ∨ ∃ q, e = .read .origin q

theorem Early.party_ne {e : Event} (h : Early e) (r : AdGuardInstance) :
    e.party ≠ some (.replica r) := by
  rcases h with ⟨h, -⟩ | rfl | ⟨q, rfl⟩
  · simp [h]
  · nofun
  · nofun

theorem Early.ne_write {e : Event} (h : Early e) (p : Party) (wr : Write) :
    e ≠ .write p wr := by
  rcases h with ⟨h, -⟩ | rfl | ⟨q, rfl⟩
  · rintro rfl
    cases h
  · nofun
  · nofun

theorem passed_or_early {tr : Trace Event Reply} {out : Option Unit}
    (h : Prog.Runs w.sync tr out) :
    (∃ origin o order all tail, w.Passed tr origin o order all tail out) ∨
      ∀ x ∈ tr, Early x.1 := by
  rcases w.runs_sync h with ⟨rfl, -⟩ | ⟨body, tail, rfl, hbody, htail⟩
  · refine Or.inr fun x hx => ?_
    rw [List.mem_singleton.mp hx]
    exact Or.inl ⟨rfl, nofun⟩
  rcases w.runs_pass hbody with ⟨t₁, o, order, t₂, rfl, horigin, hall⟩ | ⟨-, d, t, rfl, ht⟩
  · exact Or.inl ⟨t₁, o, order, t₂, tail, by simp, horigin, hall, htail⟩
  · refine Or.inr fun x hx => ?_
    simp only [List.cons_append, List.mem_cons, List.mem_append] at hx
    rcases hx with rfl | rfl | rfl | hx | hx
    · exact Or.inl ⟨rfl, nofun⟩
    · exact Or.inl ⟨rfl, nofun⟩
    · exact Or.inr (Or.inl rfl)
    · exact Or.inr (Or.inr (ht x hx))
    · have hdeferred := htail.of_only w.only_finish x hx
      exact Or.inl ⟨hdeferred.party_eq, fun he => by rw [he] at hdeferred; exact hdeferred⟩

section Passed

variable {w} {tr origin all tail : Trace Event Reply} {o : Origin} {order : MapOrder String}
  {out : Option Unit}

theorem Passed.mem (h : w.Passed tr origin o order all tail out) {x : Entry Event Reply} :
    x ∈ tr ↔ x = ⟨.readRunning, false⟩ ∨ x = ⟨.setRunning true, ()⟩ ∨
      x = ⟨.createClient .origin, .ok ()⟩ ∨ x ∈ origin ∨ x = ⟨.rangeReplicas, order⟩ ∨
      x ∈ all ∨ x ∈ tail := by
  rw [h.split]
  simp only [List.mem_cons, List.mem_append]

theorem Passed.party_origin (h : w.Passed tr origin o order all tail out)
    {x : Entry Event Reply} (hx : x ∈ origin) : x.1.party = some .origin := by
  obtain ⟨q, hq⟩ := h.read.reads x hx
  rw [hq]
  rfl

theorem Passed.party_all (h : w.Passed tr origin o order all tail out)
    {x : Entry Event Reply} (hx : x ∈ all) {p : Party} (hp : x.1.party = some p) :
    ∃ r ∈ w.cfg.uniqueReplicas order, p = .replica r :=
  h.replicas.of_only (w.only_syncAll _ _) x hx p hp

theorem Passed.party_tail (h : w.Passed tr origin o order all tail out)
    {x : Entry Event Reply} (hx : x ∈ tail) : x.1.party = none :=
  (h.finish.of_only w.only_finish x hx).party_eq

/-- What is about a replica happens while the replicas are processed. -/
theorem Passed.mem_all (h : w.Passed tr origin o order all tail out) {x : Entry Event Reply}
    (hx : x ∈ tr) {r : AdGuardInstance} (hparty : x.1.party = some (.replica r)) : x ∈ all := by
  rcases h.mem.mp hx with rfl | rfl | rfl | hx | rfl | hx | hx
  · cases hparty
  · cases hparty
  · cases hparty
  · rw [h.party_origin hx] at hparty
    cases hparty
  · cases hparty
  · exact hx
  · rw [h.party_tail hx] at hparty
    cases hparty

theorem Passed.entriesOf_origin (h : w.Passed tr origin o order all tail out) :
    entriesOf .origin tr = ⟨.createClient .origin, .ok ()⟩ :: origin := by
  have hall : entriesOf .origin all = [] := by
    refine entriesOf_eq_nil fun x hx hp => ?_
    obtain ⟨r, -, he⟩ := h.party_all hx hp
    cases he
  have htail : entriesOf .origin tail = [] :=
    entriesOf_eq_nil fun x hx => by simp [h.party_tail hx]
  rw [h.split]
  calc entriesOf .origin _
      = ⟨.createClient .origin, .ok ()⟩ ::
          entriesOf .origin (origin ++ ([⟨.rangeReplicas, order⟩] ++ (all ++ tail))) := rfl
    _ = ⟨.createClient .origin, .ok ()⟩ :: (origin ++ ([] ++ ([] ++ []))) := by
        rw [entriesOf_append, entriesOf_append, entriesOf_append, hall, htail,
          entriesOf_eq_self fun x hx => h.party_origin hx]
        rfl
    _ = ⟨.createClient .origin, .ok ()⟩ :: origin := by simp

/-- What a run has about a replica is what the processing of the replicas has. -/
theorem Passed.entriesOf_replica (h : w.Passed tr origin o order all tail out)
    {r : AdGuardInstance} : entriesOf (.replica r) tr = entriesOf (.replica r) all := by
  have horigin : entriesOf (.replica r) origin = [] :=
    entriesOf_eq_nil fun x hx => by simp [h.party_origin hx]
  have htail : entriesOf (.replica r) tail = [] :=
    entriesOf_eq_nil fun x hx => by simp [h.party_tail hx]
  rw [h.split]
  calc entriesOf (.replica r) _
      = entriesOf (.replica r) (origin ++ ([⟨.rangeReplicas, order⟩] ++ (all ++ tail))) := rfl
    _ = [] ++ ([] ++ (entriesOf (.replica r) all ++ [])) := by
        rw [entriesOf_append, entriesOf_append, entriesOf_append, horigin, htail]
        rfl
    _ = entriesOf (.replica r) all := by simp

end Passed

/-! ## The processing of one replica in a run -/

/-- In the run `tr` the part `seg` processes `r`, from the snapshot `o`. What comes after it
are the other replicas and the deferred part. -/
structure Processing (r : AdGuardInstance) (tr pre seg post : Trace Event Reply) (o : Origin) :
    Prop where
  split : tr = pre ++ (seg ++ post)
  runs : ∃ out, Prog.Runs (w.syncTo r o) seg out
  before : ∀ x ∈ pre, x.1.party ≠ some (.replica r)
  after : ∀ x ∈ post, x.1.party ≠ some (.replica r)
  rest : ∃ all tail rs o' out, post = all ++ tail ∧ Prog.Runs (w.syncAll rs o') all out ∧
    Prog.Runs w.finish tail (some ())

/-- What is about the replica in the part that processes it : the creation of its client and
the work. -/
theorem entriesOf_segment {r : AdGuardInstance} {body : Trace Event Reply}
    (hbody : ∀ x ∈ body, x.1.Calls (.replica r)) (start stop : ℤ) (host : String) (ok : Bool) :
    entriesOf (.replica r) (⟨.createClient (.replica r), .ok ()⟩ :: ⟨.now, start⟩ ::
      ⟨.now, stop⟩ :: (body ++ [⟨.updateResult host ok (stop - start), ()⟩])) =
        ⟨.createClient (.replica r), .ok ()⟩ :: body := by
  have hcreate : entriesOf (.replica r) [⟨.createClient (.replica r), .ok ()⟩, ⟨.now, start⟩,
      ⟨.now, stop⟩] = [⟨.createClient (.replica r), .ok ()⟩] := by
    simp [entriesOf, Event.party]
  have hreport : entriesOf (.replica r) [⟨.updateResult host ok (stop - start), ()⟩] = [] := rfl
  calc entriesOf (.replica r) _
      = entriesOf (.replica r) ([⟨.createClient (.replica r), .ok ()⟩, ⟨.now, start⟩,
          ⟨.now, stop⟩] ++ (body ++ [⟨.updateResult host ok (stop - start), ()⟩])) := rfl
    _ = [⟨.createClient (.replica r), .ok ()⟩] ++ (body ++ []) := by
        rw [entriesOf_append, entriesOf_append, hcreate, hreport,
          entriesOf_eq_self fun x hx => (hbody x hx).party]
    _ = ⟨.createClient (.replica r), .ok ()⟩ :: body := by simp

/-- What a run has about a replica it processes : its client could not be created, or the work
follows. -/
theorem entriesOf_syncTo {r : AdGuardInstance} {o : Origin} {seg : Trace Event Reply}
    {out : Option Origin} (h : Prog.Runs (w.syncTo r o) seg out) :
    (∃ e, entriesOf (.replica r) seg = [⟨.createClient (.replica r), .error e⟩] ∧ out = some o) ∨
    ∃ body done, entriesOf (.replica r) seg = ⟨.createClient (.replica r), .ok ()⟩ :: body ∧
      Prog.Runs (w.work r (replicaClient r) o) body (some done) ∧
      out = if done.crashed then none else some done.origin := by
  rcases w.runs_syncTo h with ⟨e, rfl, rfl⟩ | ⟨start, stop, body, done, rfl, hbody, rfl⟩
  · exact Or.inl ⟨e, by simp [entriesOf, Event.party], rfl⟩
  · exact Or.inr ⟨body, done,
      entriesOf_segment (hbody.of_only (w.only_work _ _ _)) start stop _ _, hbody, rfl⟩

/-- The same snapshot and the same answers make the same calls, and leave the same snapshot. -/
theorem entriesOf_syncTo_unique {r : AdGuardInstance} {o : Origin}
    {S : Prog.Strategy Event Reply} {seg₁ seg₂ : Trace Event Reply} {out₁ out₂ : Option Origin}
    (h₁ : Prog.Runs (w.syncTo r o) seg₁ out₁) (h₂ : Prog.Runs (w.syncTo r o) seg₂ out₂)
    (a₁ : Prog.Answers S [] (entriesOf (.replica r) seg₁))
    (a₂ : Prog.Answers S [] (entriesOf (.replica r) seg₂)) :
    entriesOf (.replica r) seg₁ = entriesOf (.replica r) seg₂ ∧ out₁ = out₂ := by
  rcases w.entriesOf_syncTo h₁ with ⟨e₁, he₁, ho₁⟩ | ⟨body₁, done₁, he₁, hbody₁, ho₁⟩
  all_goals
    rcases w.entriesOf_syncTo h₂ with ⟨e₂, he₂, ho₂⟩ | ⟨body₂, done₂, he₂, hbody₂, ho₂⟩
    all_goals
      rw [he₁] at a₁ ⊢
      rw [he₂] at a₂ ⊢
      have hcreate := a₁.1.trans a₂.1.symm
  · obtain rfl := Except.error.inj hcreate
    exact ⟨rfl, ho₁.trans ho₂.symm⟩
  · cases hcreate
  · cases hcreate
  · obtain ⟨rfl, hdone⟩ := hbody₁.unique hbody₂ a₁.2 a₂.2
    obtain rfl := Option.some.inj hdone
    exact ⟨rfl, ho₁.trans ho₂.symm⟩

theorem Processing.entriesOf_eq {w : Worker} {r : AdGuardInstance}
    {tr pre seg post : Trace Event Reply} {o : Origin} (h : w.Processing r tr pre seg post o) :
    entriesOf (.replica r) tr = entriesOf (.replica r) seg := by
  rw [h.split, entriesOf_append, entriesOf_append, entriesOf_eq_nil h.before,
    entriesOf_eq_nil h.after, List.nil_append, List.append_nil]

/-- After the client of a replica is created there are only calls to it. -/
theorem Processing.calls_of_created {w : Worker} {r : AdGuardInstance}
    {tr pre seg post before after : Trace Event Reply} {o : Origin} {d : Except Err Unit}
    (h : w.Processing r tr pre seg post o)
    (htr : tr = before ++ ⟨.createClient (.replica r), d⟩ :: after) :
    ∀ x ∈ after, x.1.party = some (.replica r) → x.1.Calls (.replica r) := by
  intro x hx hparty
  obtain ⟨out, hseg⟩ := h.runs
  have hentries := h.entriesOf_eq
  have hx' : x ∈ entriesOf (.replica r) after := List.mem_filter.mpr ⟨hx, decide_eq_true hparty⟩
  have hcreate : entriesOf (.replica r) (⟨.createClient (.replica r), d⟩ :: after) =
      ⟨.createClient (.replica r), d⟩ :: entriesOf (.replica r) after :=
    List.filter_cons_of_pos (by simp [Event.party])
  rw [htr, entriesOf_append, hcreate] at hentries
  have htail : ∀ {y : Entry Event Reply} {body : Trace Event Reply},
      entriesOf (.replica r) seg = y :: body → x ∈ body := by
    intro y body hy
    rw [hy] at hentries
    rcases List.append_eq_cons_iff.mp hentries with ⟨-, he⟩ | ⟨t, -, rfl⟩
    · rwa [← (List.cons.inj he).2]
    · simp [hx']
  rcases w.entriesOf_syncTo hseg with ⟨e, he, -⟩ | ⟨body, done, he, hbody, -⟩
  · cases htail he
  · exact hbody.of_only (w.only_work _ _ _) x (htail he)

/-- A run that touches a replica has read the origin and processes the replica, from a
snapshot that the replicas before it have left. -/
theorem exists_processing (I : Origin → Origin → Prop) (hrefl : ∀ o, I o o)
    (hstep : ∀ o₀ r o tr o', I o₀ o → Prog.Runs (w.syncTo r o) tr (some o') → I o₀ o')
    {tr : Trace Event Reply} {out : Option Unit} (h : Prog.Runs w.sync tr out)
    {r : AdGuardInstance} {x : Entry Event Reply} (hx : x ∈ tr)
    (hparty : x.1.party = some (.replica r)) :
    ∃ origin o₀ pre seg post o, OriginRead w .origin origin o₀ ∧
      entriesOf .origin tr = ⟨.createClient .origin, .ok ()⟩ :: origin ∧ I o₀ o ∧
      w.Processing r tr pre seg post o := by
  rcases w.passed_or_early h with ⟨origin, o₀, order, all, tail, hpassed⟩ | hearly
  · obtain ⟨pre, o, seg, out', rs, o', post, out₂, hall, hI, hseg, hpost, hpre, hafter⟩ :=
      w.exists_segment (hstep o₀) (w.cfg.nodup_uniqueReplicas order) (hrefl o₀)
        hpassed.replicas ⟨x, hpassed.mem_all hx hparty, hparty⟩
    refine ⟨origin, o₀, ⟨.readRunning, false⟩ :: ⟨.setRunning true, ()⟩ ::
      ⟨.createClient .origin, .ok ()⟩ :: (origin ++ ⟨.rangeReplicas, order⟩ :: pre), seg,
      post ++ tail, o, hpassed.read, hpassed.entriesOf_origin, hI, ?_, ⟨out', hseg⟩, ?_, ?_,
      ⟨post, tail, rs, o', out₂, rfl, hpost, hpassed.finish⟩⟩
    · rw [hpassed.split, hall]
      simp
    · intro y hy
      simp only [List.mem_cons, List.mem_append] at hy
      rcases hy with rfl | rfl | rfl | hy | rfl | hy
      · nofun
      · nofun
      · nofun
      · simp [hpassed.party_origin hy]
      · nofun
      · exact hpre y hy
    · intro y hy
      rcases List.mem_append.mp hy with hy | hy
      · exact hafter y hy
      · simp [hpassed.party_tail hy]
  · exact absurd hparty ((hearly x hx).party_ne r)

end Worker

end AghSync
