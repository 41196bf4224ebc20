import AghSync.Scenario

/-!
# What a write needs

No write without authority. A run writes only after it has read a supported version and
everything it uses from the origin, and to a replica only while the latest status of that
replica is there and supported; the initial setup goes only to a replica with the automatic
setup on, directly after its status said that it is not set up. The origin is never written.

The one tolerated failure is the origin's profile, when it is not authorized and
`continueOnError` is on. The client returns an empty profile then, and an empty profile is
never merged into anything (`shouldSyncFor_empty`), so no profile is written in such a run.

An action uses what `SyncAction.DependsOn` says : the fields whose value makes a difference
to it.
-/

open Interaction Interaction.Prog

namespace AghSync

open Model

/-! ## The latest status -/

/-- The answer to a status request of `p`. -/
def statusReply (p : Party) : Entry Event Reply → Option (Except Err ServerStatus)
  | ⟨.read p' .status, d⟩ => if p' = p then some d else none
  | _ => none

/-- The answer to the latest status request of `p`. -/
def lastStatus (p : Party) (tr : Trace Event Reply) : Option (Except Err ServerStatus) :=
  (tr.filterMap (statusReply p)).getLast?

@[simp] theorem statusReply_status (p : Party) (d : Except Err ServerStatus) :
    statusReply p ⟨.read p .status, d⟩ = some d :=
  if_pos rfl

theorem lastStatus_append_of_none {p : Party} {hist t : Trace Event Reply}
    (h : ∀ x ∈ t, statusReply p x = none) : lastStatus p (hist ++ t) = lastStatus p hist := by
  rw [lastStatus, List.filterMap_append, List.filterMap_eq_nil_iff.mpr h, List.append_nil,
    lastStatus]

theorem lastStatus_concat (p : Party) (hist : Trace Event Reply) (d : Except Err ServerStatus) :
    lastStatus p (hist ++ [⟨.read p .status, d⟩]) = some d := by
  simp [lastStatus]

/-- What a write needs of the calls before it. -/
def Cleared (w : Worker) (hist : Trace Event Reply) : Entry Event Reply → Prop
  | ⟨.write p (.installConfigure _), _⟩ => ∃ inst, p = .replica inst ∧
      inst.autoSetup = true ∧ hist.getLast? = some ⟨.read p .status, .error .setupNeeded⟩
  | ⟨.write p _, _⟩ => ∃ inst st, p = .replica inst ∧ lastStatus p hist = some (.ok st) ∧
      w.deps.tooOld st = false
  | _ => True

/-- What an action does : calls to its replica, but neither the status nor the setup. -/
def Event.Acts (p : Party) (e : Event) : Prop :=
  e.Calls p ∧ e ≠ .read p .status ∧ ∀ c, e ≠ .write p (.installConfigure c)

theorem Event.Acts.statusReply_eq {p : Party} {x : Entry Event Reply} (h : x.1.Acts p) :
    statusReply p x = none := by
  obtain ⟨e, r⟩ := x
  cases e with
  | read p' q =>
    obtain rfl : p' = p := h.1
    cases q with
    | status => exact absurd rfl h.2.1
    | _ => rfl
  | _ => rfl

/-- The actions write with the status they started with. -/
theorem always_cleared_of_acts {w : Worker} {inst : AdGuardInstance} {st : ServerStatus}
    (hst : w.deps.tooOld st = false) : ∀ {t hist : Trace Event Reply},
    (∀ x ∈ t, x.1.Acts (.replica inst)) → lastStatus (.replica inst) hist = some (.ok st) →
      Always (Cleared w) hist t
  | [], _, _, _ => trivial
  | ⟨e, r⟩ :: t, hist, ht, hlast => by
    have he : e.Acts (.replica inst) := ht ⟨e, r⟩ (by simp)
    refine ⟨?_, always_cleared_of_acts hst (fun x hx => ht x (by simp [hx])) ?_⟩
    · cases e with
      | write p wr =>
        obtain rfl : p = .replica inst := he.1
        cases wr with
        | installConfigure c => exact absurd rfl (he.2.2 c)
        | _ => exact ⟨inst, st, rfl, hlast, hst⟩
      | _ => trivial
    · rw [lastStatus_append_of_none]
      · exact hlast
      · intro x hx
        rw [List.mem_singleton.mp hx]
        exact he.statusReply_eq

theorem Own.acts {p : Party} {name : String} {q : Read} {e : Event} (h : Own p name q e)
    (hname : name ≠ "setup") (hq : q ≠ .status) : e.Acts p := by
  refine ⟨h.calls, ?_, ?_⟩
  · rintro rfl
    exact hq h.2.symm
  · rintro c rfl
    exact hname h.2.symm

/-- The toggle of the protection reads nothing from the replica. -/
theorem only_actionProtection (ac : ActionContext) (o : Origin) :
    (actionProtection ac o).Only (Event.Acts ac.client.party) := by
  unfold actionProtection fromOrigin
  rw [Act.bind_assoc, Act.gets_bind_apply]
  cases o.status with
  | none => trivial
  | some st =>
    rw [Act.deref_some, Act.pure_bind]
    split
    · exact Client.only_send ⟨rfl, nofun, nofun⟩
    · trivial

theorem Enabled.acts {cfg : Config} {a : SyncAction} {q : Read} (h : Enabled cfg a q)
    (ac : ActionContext) (o : Origin) : (a.sync ac o).Only (Event.Acts ac.client.party) := by
  have hown := (h.staged ac o).only
  cases h with
  | protection => exact only_actionProtection ac o
  | _ => exact hown.mono fun e he => he.acts (by simp) nofun

namespace Worker

variable (w : Worker)

theorem acts_of_runActions {ac : ActionContext} : ∀ {as : List SyncAction} {withError : Bool}
    {o : Origin}, as ⊆ setupActions w.cfg →
      (runActions ac as withError o).Only (Event.Acts ac.client.party)
  | [], _, _, _ => trivial
  | a :: as, withError, o, has => by
    obtain ⟨ha, has'⟩ := List.cons_subset.mp has
    obtain ⟨q, henabled⟩ := exists_enabled ha
    refine Prog.Only.bind (henabled.acts ac o).recover ?_
    rintro (_ | ⟨e | _, o'⟩)
    · trivial
    · dsimp only
      split
      · exact acts_of_runActions has'
      · trivial
    · exact acts_of_runActions has'

/-- The actions on a replica neither read its status nor send the setup. -/
theorem acts_of_runs {replica : AdGuardInstance} {rs : ServerStatus} {o : Origin}
    {t : Trace Event Reply} {out : Option Work}
    (h : Prog.Runs (runActions (w.actionContext replica (replicaClient replica) rs)
      (setupActions w.cfg) false o) t out) : ∀ x ∈ t, x.1.Acts (.replica replica) := by
  have honly : (runActions (w.actionContext replica (replicaClient replica) rs)
      (setupActions w.cfg) false o).Only
        (Event.Acts (w.actionContext replica (replicaClient replica) rs).client.party) :=
    w.acts_of_runActions (List.Subset.refl _)
  exact h.of_only honly

/-! ## One replica -/

theorem Connected.always_cleared {replica : AdGuardInstance} {t hist : Trace Event Reply}
    {d : Except Err ServerStatus} (h : Connected replica (.replica replica) t d) :
    Always (Cleared w) hist t := by
  cases h with
  | answered | failed => exact ⟨trivial, trivial⟩
  | setupFailed cfg e hauto => exact ⟨trivial, ⟨replica, rfl, hauto, by simp⟩, trivial⟩
  | setUp cfg d hauto => exact ⟨trivial, ⟨replica, rfl, hauto, by simp⟩, trivial, trivial⟩

theorem Connected.lastStatus_eq {replica : AdGuardInstance} {p : Party}
    {t hist : Trace Event Reply} {d : Except Err ServerStatus} (h : Connected replica p t d) :
    lastStatus p (hist ++ t) = some d := by
  cases h with
  | answered | failed => exact lastStatus_concat _ _ _
  | setupFailed cfg e hauto =>
    rw [List.append_cons, lastStatus_append_of_none, lastStatus_concat]
    intro x hx
    rw [List.mem_singleton.mp hx]
    rfl
  | setUp cfg d hauto => rw [List.append_cons, List.append_cons, lastStatus_concat]

/-- Processing a replica writes only what is cleared. -/
theorem always_cleared_syncTo {replica : AdGuardInstance} {o : Origin}
    {tr hist : Trace Event Reply} {out : Option Origin}
    (h : Prog.Runs (w.syncTo replica o) tr out) : Always (Cleared w) hist tr := by
  rcases w.runs_syncTo h with ⟨e, rfl, -⟩ | ⟨start, stop, body, done, rfl, hbody, -⟩
  · exact ⟨trivial, trivial⟩
  · refine ⟨trivial, trivial, trivial, always_append.mpr ⟨?_, trivial, trivial⟩⟩
    rcases w.runs_work hbody with ⟨rs, t₁, t₂, rfl, hconn, hversion, hacts⟩ | ⟨d, hconn, -, -⟩
    · exact always_append.mpr ⟨Connected.always_cleared w hconn,
        always_cleared_of_acts hversion (w.acts_of_runs hacts) hconn.lastStatus_eq⟩
    · exact Connected.always_cleared w hconn

theorem always_cleared_syncAll : ∀ {rs : List AdGuardInstance} {o : Origin}
    {tr hist : Trace Event Reply} {out : Option Unit},
    Prog.Runs (w.syncAll rs o) tr out → Always (Cleared w) hist tr
  | [], _, _, _, _, h => by
    obtain ⟨rfl, -⟩ := w.runs_syncAll_nil.mp h
    trivial
  | r :: rs, _, _, _, _, h => by
    rcases w.runs_syncAll_cons.mp h with ⟨t₁, o', t₂, rfl, h₁, h₂⟩ | ⟨h₁, -⟩
    · exact always_append.mpr ⟨w.always_cleared_syncTo h₁, always_cleared_syncAll h₂⟩
    · exact w.always_cleared_syncTo h₁

/-- Every write of a run is cleared. -/
theorem always_cleared_sync {tr : Trace Event Reply} {out : Option Unit}
    (h : Prog.Runs w.sync tr out) : Always (Cleared w) [] tr := by
  have hquiet : ∀ {t hist : Trace Event Reply}, (∀ x ∈ t, ∀ p wr, x.1 ≠ .write p wr) →
      Always (Cleared w) hist t := by
    intro t hist ht
    refine always_of_forall fun x hx hist => ?_
    obtain ⟨e, r⟩ := x
    cases e with
    | write p wr => exact absurd rfl (ht _ hx p wr)
    | _ => trivial
  rcases w.passed_or_early h with ⟨origin, o, order, all, tail, hpassed⟩ | hearly
  · have horigin : ∀ x ∈ origin, ∀ p wr, x.1 ≠ .write p wr := by
      intro x hx p wr he
      obtain ⟨q, hq⟩ := hpassed.read.reads x hx
      rw [hq] at he
      cases he
    have htail : ∀ x ∈ tail, ∀ p wr, x.1 ≠ .write p wr := by
      intro x hx p wr he
      have hparty := hpassed.party_tail hx
      rw [he] at hparty
      cases hparty
    rw [hpassed.split]
    exact ⟨trivial, trivial, trivial, always_append.mpr ⟨hquiet horigin, trivial,
      always_append.mpr ⟨w.always_cleared_syncAll hpassed.replicas, hquiet htail⟩⟩⟩
  · exact hquiet fun x hx => (hearly x hx).ne_write

end Worker

/-! ## The profile -/

/-- An empty profile is not merged into any other. -/
theorem Model.ProfileInfo.shouldSyncFor_empty (pi : ProfileInfo) (withTheme : Bool) :
    pi.shouldSyncFor {} withTheme = none := by
  simp [shouldSyncFor, equals]

/-- From an empty profile the profile action writes nothing. -/
theorem profileInfo_noWrite {ac : ActionContext} {o : Origin} {tr : Trace Event Reply}
    {out : Act.Outcome Origin Err Unit} (ho : o.profileInfo = some {})
    (h : Prog.Runs (actionProfileInfo ac o) tr out) :
    ∀ x ∈ tr, ∀ p wr, x.1 ≠ .write p wr := by
  have hone : ∀ (d : Reply (.read ac.client.party .profile)),
      ∀ x ∈ ([⟨_, d⟩] : Trace Event Reply), ∀ p wr, x.1 ≠ .write p wr := by
    intro d x hx p wr he
    rw [List.mem_singleton.mp hx] at he
    cases he
  rcases Client.runs_doGet_bind.mp h with ⟨pro, t, rfl, hk⟩ | ⟨e, rfl, -⟩
  · rw [fromOrigin_bind_apply ho, ProfileInfo.shouldSyncFor_empty] at hk
    obtain ⟨rfl, -⟩ := Prog.runs_ret.mp hk
    exact hone _
  · exact hone _

theorem Enabled.eq_profile {cfg : Config} {a : SyncAction} {q : Read} (h : Enabled cfg a q)
    (hname : a.name = "profile info") : q = .profile := by
  cases h with
  | profileInfo => rfl
  | _ => simp at hname

/-- The empty profile stays in the snapshot, and no profile is written. -/
theorem Worker.actionsKeep_emptyProfile (w : Worker) :
    w.ActionsKeep (fun o => o.profileInfo = some {}) fun wr => ∀ pi, wr ≠ .profileUpdate pi := by
  intro a ha ac o tr out _ ho hrun
  obtain ⟨q, henabled⟩ := exists_enabled ha
  by_cases hq : q = .profile
  · cases henabled with
    | profileInfo =>
      refine ⟨Worker.writesAll_of_noWrite (profileInfo_noWrite ho hrun), ?_⟩
      rintro r o' rfl
      have hstaged : Staged _ _ _ _ (fun _ => False) o (actionProfileInfo ac) :=
        staged_profileInfo ac o
      rcases hstaged.snapshot hrun with rfl | ⟨_, hA, -⟩
      · exact ho
      · exact hA.elim
    | _ => cases hq
  · constructor
    · rintro x hx p wr he pi rfl
      have hown := hrun.of_only (henabled.staged ac o).only x hx
      rw [he] at hown
      exact hq (henabled.eq_profile hown.2.symm)
    · rintro r o' rfl
      have hload : o'.load .profile = o.load .profile := by
        rcases (henabled.staged ac o).snapshot hrun with rfl | ⟨b, -, rfl⟩
        · rfl
        · exact Origin.load_save_of_ne (Ne.symm hq) o b
      exact hload.trans ho

/-! ## What an action depends on -/

/-- Another document in the field of the snapshot for `q` makes a difference to the action. -/
def SyncAction.DependsOn (a : SyncAction) (q : Read) : Prop :=
  ¬∀ ac o (d : Doc q), a.sync ac (o.store q d) = a.sync ac o >>= fun x => .ret (x.1, x.2.store q d)

theorem Enabled.eq_of_dependsOn {cfg : Config} {a : SyncAction} {q q' : Read}
    (h : Enabled cfg a q) (hdep : a.DependsOn q') : q = q' := by
  by_contra hne
  exact hdep fun ac o d => (h.staged ac o).ignores hne d

theorem Enabled.exists_read {w : Worker} {a : SyncAction} {q : Read}
    (h : Enabled w.cfg a q) {tr : Trace Event Reply} {o : Origin}
    (horigin : Worker.OriginRead w .origin tr o) : ∃ d, ⟨.read .origin q, d⟩ ∈ tr := by
  obtain ⟨-, -, hreads⟩ := horigin
  rcases h.mem_reads with rfl | rfl | hq
  · exact ⟨_, List.mem_cons_self⟩
  · exact ⟨_, List.mem_cons_of_mem _ List.mem_cons_self⟩
  · obtain ⟨d, hd⟩ := hreads.exists_mem hq
    exact ⟨_, List.mem_cons_of_mem _ (List.mem_cons_of_mem _ hd)⟩

/-! ## The theorem -/

/-- An answer of the origin that a run accepts : a document, or that the profile is not
authorized, with `continueOnError`, and then no profile is written. -/
inductive AcceptedRead (w : Worker) (tr : Trace Event Reply) : (q : Read) →
    Except Err (Doc q) → Prop
  | ok {q : Read} (d : Doc q) : AcceptedRead w tr q (.ok d)
  | unauthorized {e : Err} (hcoe : w.cfg.continueOnError = true) (he : e.hasCode 401 = true)
      (hprofile : ∀ x ∈ tr, ∀ p pi, x.1 ≠ .write p (.profileUpdate pi)) :
      AcceptedRead w tr .profile (.error e)

theorem Worker.OriginRead.version {w : Worker} {t : Trace Event Reply} {o : Origin}
    (h : Worker.OriginRead w .origin t o) : ∃ st, ⟨.read .origin .status, .ok st⟩ ∈ t ∧
      ∀ d, ⟨.read .origin .status, d⟩ ∈ t → d = .ok st ∧ w.deps.tooOld st = false := by
  obtain ⟨hversion, hprofile, hreads⟩ := h
  rename_i st rp pi t
  refine ⟨st, by simp, fun d hd => ?_⟩
  simp only [List.mem_cons] at hd
  rcases hd with hd | hd | hd
  · cases hd
    exact ⟨rfl, hversion⟩
  · cases hd
  · obtain ⟨r, hr, d', hd'⟩ := hreads.mem hd
    cases hd'
    exact absurd hr (status_notMem_originReads w.cfg)

/-- The profile of an accepted reading, if the profile was not authorized. -/
theorem Worker.OriginRead.accepted {w : Worker} {t tr : Trace Event Reply} {o : Origin}
    (h : Worker.OriginRead w .origin t o)
    (hprofile : o.profileInfo = some {} → ∀ x ∈ tr, ∀ p pi, x.1 ≠ .write p (.profileUpdate pi))
    {q : Read} {d : Except Err (Doc q)} (hd : ⟨.read .origin q, d⟩ ∈ t) :
    AcceptedRead w tr q d := by
  obtain ⟨-, hprof, hreads⟩ := h
  simp only [List.mem_cons] at hd
  rcases hd with hd | hd | hd
  · cases hd
    exact .ok _
  · cases hd
    cases hprof with
    | read => exact .ok _
    | unauthorized hcoe he =>
      refine .unauthorized hcoe he (hprofile ?_)
      exact hreads.load_eq (profile_notMem_originReads w.cfg)
  · obtain ⟨r, -, d', hd'⟩ := hreads.mem hd
    cases hd'
    exact .ok _

section Passed

variable {w : Worker} {tr origin all tail : Trace Event Reply} {o : Origin}
  {order : MapOrder String} {out : Option Unit}

theorem Worker.Passed.mem_origin (h : w.Passed tr origin o order all tail out) {q : Read}
    {d : Except Err (Doc q)} (hd : ⟨.read .origin q, d⟩ ∈ tr) :
    ⟨.read .origin q, d⟩ ∈ origin := by
  have hmem : (⟨.read .origin q, d⟩ : Entry Event Reply) ∈ entriesOf .origin tr :=
    List.mem_filter.mpr ⟨hd, by simp [Event.party]⟩
  rw [h.entriesOf_origin] at hmem
  rcases List.mem_cons.mp hmem with he | hmem
  · cases he
  · exact hmem

/-- With an empty profile of the origin no profile is written. -/
theorem Worker.Passed.no_profile (h : w.Passed tr origin o order all tail out)
    (ho : o.profileInfo = some {}) : ∀ x ∈ tr, ∀ p pi, x.1 ≠ .write p (.profileUpdate pi) := by
  intro x hx p pi he
  rcases h.mem.mp hx with rfl | rfl | rfl | hx | rfl | hx | hx
  · cases he
  · cases he
  · cases he
  · obtain ⟨q, hq⟩ := h.read.reads x hx
    rw [hq] at he
    cases he
  · cases he
  · exact w.actionsKeep_emptyProfile.syncAll nofun ho h.replicas x hx p _ he pi rfl
  · have hparty := h.party_tail hx
    rw [he] at hparty
    cases hparty

/-- The origin has been read before every write. -/
theorem Worker.Passed.origin_subset (h : w.Passed tr origin o order all tail out)
    {pre post : Trace Event Reply} {p : Party} {wr : Write} {r : Except Err Unit}
    (htr : tr = pre ++ ⟨.write p wr, r⟩ :: post) : origin ⊆ pre := by
  have hsplit : (⟨.readRunning, false⟩ :: ⟨.setRunning true, ()⟩ ::
      ⟨.createClient .origin, .ok ()⟩ :: origin) ++ ⟨.rangeReplicas, order⟩ :: (all ++ tail) =
      pre ++ ⟨.write p wr, r⟩ :: post := by
    rw [← htr, h.split]
    rfl
  have hprefix := prefix_of_append_eq hsplit (by
    intro hmem
    simp only [List.mem_cons] at hmem
    rcases hmem with he | he | he | hmem
    · cases he
    · cases he
    · cases he
    · obtain ⟨q, hq⟩ := h.read.reads _ hmem
      cases hq)
  exact fun x hx => hprefix.subset (by simp [hx])

end Passed

/-- No write without authority. A run sends a write only to a replica. It has then read a
supported version from the origin, every answer of the origin is one it accepts, and every
field an enabled action depends on has been read. The setup is sent only with the automatic
setup on, directly after a status that says it is needed, any other write only while the
latest status of the replica is there and its version supported. -/
theorem Worker.sync_authorized (w : Worker) {tr : Trace Event Reply} {out : Option Unit}
    (h : Prog.Runs w.sync tr out) {pre post : Trace Event Reply} {p : Party} {wr : Write}
    {r : Except Err Unit} (htr : tr = pre ++ ⟨.write p wr, r⟩ :: post) :
    Cleared w pre ⟨.write p wr, r⟩ ∧
    (∃ st, ⟨.read .origin .status, .ok st⟩ ∈ pre ∧
      ∀ d, ⟨.read .origin .status, d⟩ ∈ tr → d = .ok st ∧ w.deps.tooOld st = false) ∧
    (∀ q d, ⟨.read .origin q, d⟩ ∈ tr → AcceptedRead w tr q d) ∧
    ∀ a ∈ setupActions w.cfg, ∀ q, a.DependsOn q → ∃ d, ⟨.read .origin q, d⟩ ∈ pre := by
  have hmem : (⟨.write p wr, r⟩ : Entry Event Reply) ∈ tr := by simp [htr]
  obtain ⟨origin, o, order, all, tail, hpassed⟩ :=
    (w.passed_or_early h).resolve_right fun hearly => (hearly _ hmem).ne_write p wr rfl
  have hcleared : Cleared w pre ⟨.write p wr, r⟩ := by
    have halways := w.always_cleared_sync h
    rw [htr] at halways
    exact halways.at
  have hpre := hpassed.origin_subset htr
  obtain ⟨st, hst, hversion⟩ := hpassed.read.version
  refine ⟨hcleared, ⟨st, hpre hst, fun d hd => hversion d (hpassed.mem_origin hd)⟩,
    fun q d hd => hpassed.read.accepted hpassed.no_profile (hpassed.mem_origin hd),
    fun a ha q hdep => ?_⟩
  obtain ⟨q', henabled⟩ := exists_enabled ha
  obtain rfl := henabled.eq_of_dependsOn hdep
  obtain ⟨d, hd⟩ := henabled.exists_read hpassed.read
  exact ⟨d, hpre hd⟩

/-- A worker with the general settings on and one replica, for examples. -/
def parentalWorker : Worker where
  deps := sampleDeps
  cfg := { origin := {}, replicas := [{ url := "r" }], features := { generalSettings := true } }

/-- The parental control is on at the origin, and off on the replica. -/
def parentalScenario : Scenario where
  doc p q := match p, q with
    | .origin, .parentalStatus => .ok true
    | _, q => .ok (blankDoc q)

/-- The parental control is written, and the status of the replica has been read before. -/
theorem Worker.sync_authorized_sample : ∃ tr out pre post p r,
    Prog.Runs parentalWorker.sync tr out ∧
      tr = pre ++ ⟨.write p (.parental true), r⟩ :: post ∧
      ∃ st, lastStatus p pre = some (.ok st) ∧ parentalWorker.deps.tooOld st = false := by
  have hwrite : (parentalScenario.trace parentalWorker.sync)[23]? =
      some (⟨.write (.replica { url := "r", apiPath := "/control" }) (.parental true), .ok ()⟩ :
        Entry Event Reply) := rfl
  have hsplit := Scenario.split hwrite
  refine ⟨_, _, _, _, _, _, parentalScenario.runs _, hsplit, ?_⟩
  obtain ⟨-, st, -, hlast, hversion⟩ :=
    (parentalWorker.sync_authorized (parentalScenario.runs _) hsplit).1
  exact ⟨st, hlast, hversion⟩

end AghSync
