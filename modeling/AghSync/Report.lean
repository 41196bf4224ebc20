import AghSync.Authority

/-!
# What is reported about a replica

After the work on a replica its result is reported, under its host. A success says that the
latest status of the replica is there and supported, and that no call failed, apart from two
kinds of failures : the status before a setup, and with `continueOnError` the writes that an
action logs and passes over. The action loop and the actions decide this together, so the
proof is by the first failure each action stops at (`Staged.stopsAt`).
-/

open Interaction Interaction.Prog

namespace AghSync

open Model Worker

/-! ## The gauge -/

/-- What `metrics.UpdateResult` sets the `sync_successful` gauge of a host to. -/
def resultFor (host : String) : Entry Event Reply → Option Bool
  | ⟨.updateResult h ok _, _⟩ => if h = host then some ok else none
  | _ => none

/-- The `sync_successful` gauge of a host after a run that has set it. -/
def gauge (host : String) (tr : Trace Event Reply) : Option Bool :=
  (tr.filterMap (resultFor host)).getLast?

/-- The last report is what counts. -/
theorem gauge_append_report {host : String} {pre post : Trace Event Reply} {ok : Bool} {d : ℤ}
    (h : ∀ x ∈ post, resultFor host x = none) :
    gauge host (pre ++ ⟨.updateResult host ok d, ()⟩ :: post) = some ok := by
  have hpost : post.filterMap (resultFor host) = [] := List.filterMap_eq_nil_iff.mpr h
  simp [gauge, List.filterMap_append, resultFor, hpost]

/-- Processing a replica reports a result only for its host, after its client was created. -/
theorem Worker.created_of_result (w : Worker) {r : AdGuardInstance} {o : Origin} {host : String}
    {x : Entry Event Reply} {tr : Trace Event Reply} {out : Option Origin}
    (h : Prog.Runs (w.syncTo r o) tr out) (hx : x ∈ tr) (hres : resultFor host x ≠ none) :
    ⟨.createClient (.replica r), .ok ()⟩ ∈ tr ∧ r.host = host := by
  rcases w.runs_syncTo h with ⟨e, rfl, -⟩ | ⟨start, stop, body, done, rfl, hbody, -⟩
  · rw [List.mem_singleton.mp hx] at hres
    exact absurd rfl hres
  · refine ⟨by simp, ?_⟩
    simp only [List.mem_cons, List.mem_append, List.not_mem_nil, or_false] at hx
    rcases hx with rfl | rfl | rfl | hx | rfl
    · exact absurd rfl hres
    · exact absurd rfl hres
    · exact absurd rfl hres
    · have hcalls := hbody.of_only (w.only_work _ _ _) x hx
      obtain ⟨e, reply⟩ := x
      cases e with
      | updateResult => exact hcalls.elim
      | _ => exact absurd rfl hres
    · by_contra hhost
      exact hres (if_neg hhost)

/-- A result is reported only after the client of a replica with this host was created. -/
theorem Worker.exists_created (w : Worker) {host : String} {x : Entry Event Reply} :
    ∀ {rs : List AdGuardInstance} {o : Origin} {tr : Trace Event Reply} {out : Option Unit},
      Prog.Runs (w.syncAll rs o) tr out → x ∈ tr → resultFor host x ≠ none →
        ∃ r, ⟨.createClient (.replica r), .ok ()⟩ ∈ tr ∧ r.host = host
  | [], _, _, _, h, hx, _ => by
    obtain ⟨rfl, -⟩ := w.runs_syncAll_nil.mp h
    cases hx
  | r :: rs, _, _, _, h, hx, hres => by
    rcases w.runs_syncAll_cons.mp h with ⟨t₁, o', t₂, rfl, h₁, h₂⟩ | ⟨h₁, -⟩
    · rcases List.mem_append.mp hx with hx | hx
      · obtain ⟨hmem, hhost⟩ := w.created_of_result h₁ hx hres
        exact ⟨r, List.mem_append_left _ hmem, hhost⟩
      · obtain ⟨r', hmem, hhost⟩ := w.exists_created h₂ hx hres
        exact ⟨r', List.mem_append_right _ hmem, hhost⟩
    · obtain ⟨hmem, hhost⟩ := w.created_of_result h₁ hx hres
      exact ⟨r, hmem, hhost⟩

/-! ## The result of the work on a replica -/

/-- The actions report an error exactly when one of them met a failure it did not pass
over. -/
theorem Worker.runActions_withError {cfg : Config} {ac : ActionContext} :
    ∀ {as : List SyncAction} {withError : Bool} {o : Origin} {tr : Trace Event Reply}
      {done : Work}, as ⊆ setupActions cfg →
      Prog.Runs (runActions ac as withError o) tr (some done) →
        (done.withError = false ↔
          withError = false ∧ ∀ x ∈ tr, ¬Fatal ac.cfg.continueOnError x)
  | [], _, _, _, _, _, h => by
    obtain ⟨rfl, hdone⟩ := runs_runActions_nil.mp h
    obtain rfl := Option.some.inj hdone
    simp
  | a :: as, withError, o, _, _, has, h => by
    obtain ⟨ha, has'⟩ := List.cons_subset.mp has
    obtain ⟨q, henabled⟩ := exists_enabled ha
    have hstops := (henabled.staged ac o).stopsAt
    rcases runs_runActions_cons h with ⟨t₁, o', t₂, rfl, h₁, h₂⟩ |
      ⟨t₁, e, o', t₂, rfl, h₁, -, h₂⟩ | ⟨e, o', h₁, -, hdone⟩ | ⟨h₁, hdone⟩
    · rw [runActions_withError has' h₂]
      have hgood : ∀ x ∈ t₁, ¬Fatal ac.cfg.continueOnError x := by
        cases hstops _ _ h₁ with
        | clean hgood _ => exact hgood
      simp only [List.mem_append, or_imp, forall_and, and_iff_right hgood]
    · rw [runActions_withError has' h₂]
      cases hstops _ _ h₁ with
      | clean _ hout => exact absurd rfl (hout e o')
      | @failed t x _ _ _ hbad =>
        simp only [Bool.true_eq_false, false_and, false_iff, not_and]
        exact fun _ hall => hall x (by simp) hbad
    · obtain rfl := Option.some.inj hdone
      cases hstops _ _ h₁ with
      | clean _ hout => exact absurd rfl (hout e o')
      | @failed t x _ _ _ hbad =>
        simp only [Bool.true_eq_false, false_iff, not_and]
        exact fun _ hall => hall x (by simp) hbad
    · obtain rfl := Option.some.inj hdone
      cases hstops _ _ h₁ with
      | clean hgood _ => exact ⟨fun hw => ⟨hw, hgood⟩, fun hw => hw.1⟩

/-- What a reported success says : the latest status of the replica is there and supported,
and every call to it that failed is the status before a setup or is passed over. -/
def Sound (w : Worker) (r : AdGuardInstance) (tr : Trace Event Reply) : Prop :=
  (∃ st, lastStatus (.replica r) tr = some (.ok st) ∧ w.deps.tooOld st = false) ∧
  ∀ x ∈ tr, x.1.party = some (.replica r) → Failed x →
    x = ⟨.read (.replica r) .status, .error .setupNeeded⟩ ∨
      w.cfg.continueOnError = true ∧ ∃ wr, x.1 = .write (.replica r) wr ∧ wr.tolerable = true

/-- A failure of the replica is fatal, unless it is passed over. -/
theorem fatal_iff {coe : Bool} {r : AdGuardInstance} {x : Entry Event Reply}
    (hparty : x.1.party = some (.replica r)) (hfailed : Failed x) :
    ¬Fatal coe x ↔ coe = true ∧ ∃ wr, x.1 = .write (.replica r) wr ∧ wr.tolerable = true := by
  obtain ⟨e, reply⟩ := x
  cases e with
  | write p wr =>
    obtain rfl := Option.some.inj hparty
    have hstrict : Fatal coe ⟨.write (.replica r) wr, reply⟩ ↔
        (coe = true → wr.tolerable = false) :=
      and_iff_right hfailed
    rw [hstrict]
    simp
  | read p q =>
    simp [Fatal, hfailed, Strict]
  | _ => exact hfailed.elim

theorem Worker.Connected.failed_eq {r : AdGuardInstance} {p : Party} {t : Trace Event Reply}
    {st : ServerStatus} (h : Worker.Connected r p t (.ok st)) {x : Entry Event Reply}
    (hx : x ∈ t) (hfailed : Failed x) : x = ⟨.read p .status, .error .setupNeeded⟩ := by
  cases h with
  | answered =>
    rw [List.mem_singleton.mp hx] at hfailed
    exact hfailed.elim
  | setUp cfg d hauto =>
    simp only [List.mem_cons, List.not_mem_nil, or_false] at hx
    rcases hx with rfl | rfl | rfl
    · rfl
    · exact hfailed.elim
    · exact hfailed.elim

/-- The work on a replica ends without an error exactly when its calls are sound. -/
theorem Worker.work_withError (w : Worker) {r : AdGuardInstance} {o : Origin}
    {body : Trace Event Reply} {done : Work}
    (h : Prog.Runs (w.work r (replicaClient r) o) body (some done)) :
    done.withError = false ↔ Sound w r body := by
  rcases w.runs_work h with ⟨rs, t₁, t₂, rfl, hconn, hversion, hacts⟩ |
    ⟨d, hconn, hversion, hdone⟩
  · have hacts' := w.acts_of_runs hacts
    have hconn_last : lastStatus (.replica r) ([] ++ t₁) = some (.ok rs) := hconn.lastStatus_eq
    have hlast : lastStatus (.replica r) (t₁ ++ t₂) = some (.ok rs) := by
      rw [lastStatus_append_of_none fun x hx => (hacts' x hx).statusReply_eq]
      exact hconn_last
    rw [runActions_withError (List.Subset.refl _) hacts]
    constructor
    · rintro ⟨-, hgood⟩
      refine ⟨⟨rs, hlast, hversion⟩, fun x hx hparty hfailed => ?_⟩
      rcases List.mem_append.mp hx with hx | hx
      · exact Or.inl (hconn.failed_eq hx hfailed)
      · exact Or.inr ((fatal_iff hparty hfailed).mp (hgood x hx))
    · rintro ⟨-, hsound⟩
      refine ⟨rfl, fun x hx hfatal => ?_⟩
      have hparty := (hacts' x hx).1.party
      rcases hsound x (by simp [hx]) hparty hfatal.1 with rfl | hpassed
      · exact (hacts' _ hx).2.1 rfl
      · exact (fatal_iff hparty hfatal.1).mpr hpassed hfatal
  · obtain rfl := Option.some.inj hdone
    refine ⟨nofun, ?_⟩
    rintro ⟨⟨st, hst, hnew⟩, -⟩
    have hlast : lastStatus (.replica r) ([] ++ body) = some d := hconn.lastStatus_eq
    obtain rfl := Option.some.inj (hst.symm.trans hlast)
    simp [hversion st rfl] at hnew

/-! ## A whole run -/

theorem lastStatus_entriesOf (p : Party) (tr : Trace Event Reply) :
    lastStatus p (entriesOf p tr) = lastStatus p tr := by
  have hnone : ∀ x : Entry Event Reply, x.1.party ≠ some p → statusReply p x = none := by
    rintro ⟨e, reply⟩ he
    cases e with
    | read p' q =>
      cases q with
      | status => exact if_neg fun h => he (congrArg some h)
      | _ => rfl
    | _ => rfl
  rw [lastStatus, entriesOf, List.filterMap_filter, lastStatus]
  refine congrArg List.getLast? (List.filterMap_congr fun x _ => ?_)
  by_cases hx : x.1.party = some p
  · simp [hx]
  · simp [hx, hnone x hx]

/-- No replica processed after `r` has its host. -/
def LastOfHost (r : AdGuardInstance) (tr : Trace Event Reply) : Prop :=
  ∀ pre post, tr = pre ++ ⟨.createClient (.replica r), .ok ()⟩ :: post →
    ∀ r', ⟨.createClient (.replica r'), .ok ()⟩ ∈ post → r'.host ≠ r.host

/-- The calls of a replica are all that matters to what is reported about it. -/
theorem sound_entriesOf {w : Worker} {r : AdGuardInstance} {tr : Trace Event Reply} :
    Sound w r (entriesOf (.replica r) tr) ↔ Sound w r tr := by
  unfold Sound
  rw [lastStatus_entriesOf]
  refine and_congr_right fun _ => ⟨fun h x hx hparty => ?_, fun h x hx hparty => ?_⟩
  · exact h x (List.mem_filter.mpr ⟨hx, decide_eq_true hparty⟩) hparty
  · exact h x (List.mem_filter.mp hx).1 hparty

/-- Creating the client of a replica does not matter to what is reported about it. -/
theorem sound_created_cons {w : Worker} {r : AdGuardInstance} {tr : Trace Event Reply} :
    Sound w r (⟨.createClient (.replica r), .ok ()⟩ :: tr) ↔ Sound w r tr := by
  have hlast : lastStatus (.replica r) (⟨.createClient (.replica r), .ok ()⟩ :: tr) =
      lastStatus (.replica r) tr := rfl
  rw [Sound, Sound, hlast]
  refine and_congr_right fun _ => ⟨fun h x hx => h x (List.mem_cons_of_mem _ hx), ?_⟩
  intro h x hx hparty hfailed
  rcases List.mem_cons.mp hx with rfl | hx
  · exact hfailed.elim
  · exact h x hx hparty hfailed

/-- After the last replica of a host nothing is reported for this host. -/
theorem Worker.Processing.no_result_after {w : Worker} {r : AdGuardInstance}
    {tr before seg after : Trace Event Reply} {o : Origin}
    (h : w.Processing r tr before seg after o)
    (hcreated : ⟨.createClient (.replica r), .ok ()⟩ ∈ seg) (hlast : LastOfHost r tr) :
    ∀ x ∈ after, resultFor r.host x = none := by
  obtain ⟨all, tail, rs, o', out, rfl, hall, htail⟩ := h.rest
  obtain ⟨pre, post, rfl⟩ := List.append_of_mem hcreated
  have hsplit : tr = (before ++ pre) ++ ⟨.createClient (.replica r), .ok ()⟩ ::
      (post ++ (all ++ tail)) := by
    rw [h.split]
    simp
  intro x hx
  by_contra hres
  rcases List.mem_append.mp hx with hx | hx
  · obtain ⟨r', hmem, hhost⟩ := w.exists_created hall hx hres
    exact hlast _ _ hsplit r' (by simp [hmem]) hhost
  · have hdeferred := htail.of_only w.only_finish x hx
    obtain ⟨e, reply⟩ := x
    cases e with
    | updateResult => exact hdeferred
    | _ => exact hres rfl

/-- What is reported about a replica. After a run the gauge of the host of a replica whose
client was created, and after which no replica of this host was processed, is set, and it is 1
exactly when the calls to the replica are sound. -/
theorem Worker.sync_reports (w : Worker) {tr : Trace Event Reply} {out : Option Unit}
    (h : Prog.Runs w.sync tr out) {r : AdGuardInstance}
    (hcreated : ⟨.createClient (.replica r), .ok ()⟩ ∈ tr) (hlast : LastOfHost r tr) :
    ∃ ok, gauge r.host tr = some ok ∧ (ok = true ↔ Sound w r tr) := by
  obtain ⟨origin, o₀, pre, seg, post, o, -, -, -, hproc⟩ := w.exists_processing
    (fun _ _ => True) (fun _ => trivial) (fun _ _ _ _ _ _ _ => trivial) h hcreated rfl
  obtain ⟨out', hseg⟩ := hproc.runs
  have hmem : ⟨.createClient (.replica r), .ok ()⟩ ∈ seg := by
    have hown : ⟨.createClient (.replica r), .ok ()⟩ ∈ entriesOf (.replica r) tr :=
      List.mem_filter.mpr ⟨hcreated, by simp [Event.party]⟩
    rw [hproc.entriesOf_eq] at hown
    exact (List.mem_filter.mp hown).1
  have hpost := hproc.no_result_after hmem hlast
  rcases w.runs_syncTo hseg with ⟨e, rfl, -⟩ | ⟨start, stop, body, done, rfl, hbody, -⟩
  · cases List.mem_singleton.mp hmem
  · have hgauge : gauge r.host tr = some (!done.withError) := by
      have hsplit : tr = (pre ++ ⟨.createClient (.replica r), .ok ()⟩ :: ⟨.now, start⟩ ::
          ⟨.now, stop⟩ :: body) ++
            ⟨.updateResult r.host (!done.withError) (stop - start), ()⟩ :: post := by
        rw [hproc.split]
        simp
      rw [hsplit]
      exact gauge_append_report hpost
    have hown : entriesOf (.replica r) tr = ⟨.createClient (.replica r), .ok ()⟩ :: body :=
      hproc.entriesOf_eq.trans (entriesOf_segment (hbody.of_only (w.only_work _ _ _)) _ _ _ _)
    have hsound : Sound w r tr ↔ Sound w r body := by
      rw [← sound_entriesOf, hown, sound_created_cons]
    refine ⟨!done.withError, hgauge, ?_⟩
    rw [Bool.not_eq_true', w.work_withError hbody, hsound]

/-- A replica whose host no other replica has is the last one of it. -/
theorem Worker.lastOfHost (w : Worker) {tr : Trace Event Reply} {out : Option Unit}
    (h : Prog.Runs w.sync tr out) {r : AdGuardInstance}
    (hhost : ∀ i ∈ w.cfg.replica.toList ++ w.cfg.replicas, i.withAPIPath.host = r.host →
      i.withAPIPath = r) : LastOfHost r tr := by
  rintro pre post rfl r' hr' heq
  have hmem : (⟨.createClient (.replica r'), .ok ()⟩ : Entry Event Reply) ∈
      pre ++ ⟨.createClient (.replica r), .ok ()⟩ :: post := by simp [hr']
  obtain ⟨origin, o, order, all, tail, hpassed⟩ :=
    (w.passed_or_early h).resolve_right fun hearly => (hearly _ hmem).party_ne r' rfl
  obtain ⟨r₁, hr₁, he⟩ := hpassed.party_all (hpassed.mem_all hmem rfl) rfl
  obtain rfl := Party.replica.inj he
  obtain ⟨i, hi, rfl⟩ := Config.mem_uniqueReplicas hr₁
  obtain rfl := hhost i hi heq
  -- The client of one replica is created once.
  obtain ⟨_, _, _, _, _, _, -, -, -, hproc⟩ := w.exists_processing (fun _ _ => True)
    (fun _ => trivial) (fun _ _ _ _ _ _ _ => trivial) h hmem rfl
  exact hproc.calls_of_created rfl _ hr' rfl

/-! ## Runs of which the report does not tell whether a call failed -/

/-- The client of the replica was created and no call to it failed, apart from a status that
was answered by a successful setup. -/
def FaultFree (r : AdGuardInstance) (tr : Trace Event Reply) : Prop :=
  ⟨.createClient (.replica r), .ok ()⟩ ∈ tr ∧
  ∀ x ∈ tr, x.1.party = some (.replica r) → Failed x →
    x = ⟨.read (.replica r) .status, .error .setupNeeded⟩ ∧
      ∃ c, ⟨.write (.replica r) (.installConfigure c), .ok ()⟩ ∈ tr

/-- A worker with replicas on one host. -/
def hostWorker (paths : List String) (tls : Bool) : Worker :=
  sampleWorker { tlsConfig := tls } true paths

/-- The replica at a path has an old version. -/
def oldScenario (path : String) : Scenario where
  doc p q := match p, q with
    | .replica r, .status => .ok
      { version := if r.apiPath = path then "v0.107.39" else Versions.minAgh }
    | _, q => .ok (blankDoc q)

theorem oldScenario_faultFree (w : Worker) (path : String) {r : AdGuardInstance}
    (h : ⟨.createClient (.replica r), .ok ()⟩ ∈ (oldScenario path).trace w.sync) :
    FaultFree r ((oldScenario path).trace w.sync) := by
  refine ⟨h, fun x hx hparty hfailed => absurd hfailed ?_⟩
  refine (oldScenario path).not_failed (fun q => ?_) (fun _ => rfl) hx hparty
  cases q <;> exact ⟨_, rfl⟩

theorem hostWorker_lastOfHost (path : String) (tls : Bool) (sc : Scenario)
    (hpath : path ≠ "") : LastOfHost (sampleReplica path)
      (sc.trace (hostWorker [path] tls).sync) := by
  refine (hostWorker [path] tls).lastOfHost (sc.runs _) fun i hi _ => ?_
  obtain rfl : i = sampleReplica path := List.mem_singleton.mp hi
  exact if_neg hpath

/-- An old version is reported as an error though no call failed. -/
theorem Worker.sync_reports_sample : ∃ ok,
    gauge "r" ((oldScenario "/a").trace (hostWorker ["/a"] false).sync) = some ok ∧
      (ok = true ↔ Sound (hostWorker ["/a"] false) (sampleReplica "/a")
        ((oldScenario "/a").trace (hostWorker ["/a"] false).sync)) := by
  have hcreated : ((oldScenario "/a").trace (hostWorker ["/a"] false).sync)[17]? =
      some (⟨.createClient (.replica (sampleReplica "/a")), .ok ()⟩ : Entry Event Reply) := rfl
  exact (hostWorker ["/a"] false).sync_reports ((oldScenario "/a").runs _)
    (List.mem_of_getElem? hcreated) (hostWorker_lastOfHost "/a" false _ (by decide))

/-- The gauge does not tell whether a call failed : an old version is reported as an error, a
replica is reported on by the next one on its host, and a failure that is passed over is
reported as a success. -/
theorem Worker.exists_gauge_ne_faultFree :
    (∃ w tr out r, Prog.Runs (Worker.sync w) tr out ∧ FaultFree r tr ∧ LastOfHost r tr ∧
      gauge r.host tr = some false) ∧
    (∃ w tr out r, Prog.Runs (Worker.sync w) tr out ∧ FaultFree r tr ∧ Sound w r tr ∧
      gauge r.host tr = some false) ∧
    ∃ w tr out r, Prog.Runs (Worker.sync w) tr out ∧ ¬FaultFree r tr ∧ LastOfHost r tr ∧
      gauge r.host tr = some true := by
  refine ⟨?version, ?host, ?tolerated⟩
  case version =>
    have hcreated : ((oldScenario "/a").trace (hostWorker ["/a"] false).sync)[17]? =
        some (⟨.createClient (.replica (sampleReplica "/a")), .ok ()⟩ : Entry Event Reply) := rfl
    exact ⟨_, _, _, sampleReplica "/a", (oldScenario "/a").runs _,
      oldScenario_faultFree _ _ (List.mem_of_getElem? hcreated),
      hostWorker_lastOfHost "/a" false _ (by decide), rfl⟩
  case host =>
    have hcreated : ((oldScenario "/a").trace (hostWorker ["/a", "/b"] false).sync)[17]? =
        some (⟨.createClient (.replica (sampleReplica "/b")), .ok ()⟩ : Entry Event Reply) := rfl
    have hfree := oldScenario_faultFree _ _ (List.mem_of_getElem? hcreated)
    refine ⟨hostWorker ["/a", "/b"] false, _, _, sampleReplica "/b", (oldScenario "/a").runs _,
      hfree, ⟨⟨{ version := Versions.minAgh }, rfl, by decide⟩, fun x hx hp hf => ?_⟩, rfl⟩
    exact Or.inl (hfree.2 x hx hp hf).1
  case tolerated =>
    have hwrite : (Scenario.rejecting.trace (hostWorker ["/a"] true).sync)[23]? =
        some (⟨.write (.replica (sampleReplica "/a")) (.tlsConfigure { enabled := some true }),
          .error (.other "rejected")⟩ : Entry Event Reply) := rfl
    refine ⟨_, _, _, sampleReplica "/a", Scenario.rejecting.runs _, fun hfree => ?_,
      hostWorker_lastOfHost "/a" true _ (by decide), rfl⟩
    obtain ⟨he, -⟩ := hfree.2 _ (List.mem_of_getElem? hwrite) rfl trivial
    cases he

end AghSync
