import AghSync.Scenario
import AghSync.Service

/-!
# The status page and the health check

`Worker.status` asks the origin and then every configured replica for its status, also replicas
that a sync goes through only once. While a sync runs the replicas are shown as `info`, whatever
they answered. The health check fetches the same page, and is fine if every line of it is.

The page is as good as the answers (`healthz_eq_ok_iff`). Making it changes nothing, so it is in
nobody's way (`status_shows`).
-/

open Interaction Interaction.Prog

namespace AghSync

open Model

/-- `err.Error()`. -/
def Err.text : Err → String
  | setupNeeded => "setup needed"
  | client message _ => message
  | other message => message

/-- `replicaStatus`. -/
structure ReplicaStatus where
  host : String
  url : String
  status : String
  error : String := ""
  protectionEnabled : Option Bool := none
  deriving DecidableEq

/-- `syncStatus`. -/
structure SyncStatus where
  syncRunning : Bool
  origin : ReplicaStatus
  replicas : List ReplicaStatus
  deriving DecidableEq

/-- What `sort.Slice` does with the lines of the page. Lines of one host can end up in any
order. -/
structure HostSort where
  sort : List ReplicaStatus → List ReplicaStatus
  perm : ∀ sts, (sort sts).Perm sts
  sorted : ∀ sts, (sort sts).Pairwise fun a b => a.host ≤ b.host

/-- The sort that keeps the order of the lines of one host. -/
def HostSort.stable : HostSort where
  sort sts := sts.insertionSort fun a b => a.host ≤ b.host
  perm sts := List.perm_insertionSort _ sts
  sorted sts := List.pairwise_insertionSort _ sts

namespace Worker

/-- `worker.getStatus`. -/
def getStatus (p : Party) (inst : AdGuardInstance) : Go ReplicaStatus := do
  match ← perform (.createClient p) with
  | .error err =>
    pure { host := inst.webHost, url := inst.webURL, status := "danger", error := err.text }
  | .ok () =>
    match ← perform (.read p .status) with
    | .error err =>
      pure {
        host := inst.webHost
        url := inst.webURL
        status := if err = .setupNeeded then "warning" else "danger"
        error := err.text }
    | .ok status =>
      pure {
        host := inst.webHost
        url := inst.webURL
        status := "success"
        protectionEnabled := some status.protectionEnabled }

/-- The lines of the replicas. The flag is read after each of them. -/
def replicaStatuses : List AdGuardInstance → Go (List ReplicaStatus)
  | [] => pure []
  | replica :: replicas => do
    let st ← getStatus (.replica replica) replica
    let running ← perform .readRunning
    let sts ← replicaStatuses replicas
    pure ((if running then { st with status := "info" } else st) :: sts)

variable (w : Worker) (hs : HostSort)

/-- `worker.status`. -/
def status : Go SyncStatus := do
  let origin ← getStatus .origin w.cfg.origin
  let replicas ← replicaStatuses w.cfg.replicas
  let running ← perform .readRunning
  pure ⟨running, origin, hs.sort replicas⟩

/-- The code `worker.handleHealthz` answers for a page. -/
def healthCode (status : SyncStatus) : ℕ :=
  if status.origin.status ≠ "success" then 503
  else if status.replicas.any fun replica => replica.status ≠ "success" then 503
  else 200

/-- `worker.handleHealthz`. -/
def healthz : Go ℕ := do
  pure (healthCode (← w.status hs))

end Worker

/-! ## Good answers -/

/-- The answer is one that a healthy setup gives : no failure, and no sync that runs. -/
def Up : Entry Event Reply → Prop
  | ⟨.createClient _, r⟩ => r = .ok ()
  | ⟨.read _ _, r⟩ => ∃ d, r = .ok d
  | ⟨.readRunning, running⟩ => running = false
  | _ => True

/-- The instance was asked for its status and gave it. -/
def Reached (tr : Trace Event Reply) (p : Party) : Prop :=
  ∃ d : ServerStatus, ⟨.read p .status, .ok d⟩ ∈ tr

/-- Whoever reads the flag finds it set. -/
def SeenRunning (tr : Trace Event Reply) : Prop :=
  ∀ b, ⟨.readRunning, b⟩ ∈ tr → b = true

theorem Reached.mono {tr tr' : Trace Event Reply} {p : Party} (h : Reached tr p)
    (hsub : ∀ x ∈ tr, x ∈ tr') : Reached tr' p := by
  obtain ⟨d, hd⟩ := h
  exact ⟨d, hsub _ hd⟩

namespace Worker

section Runs

variable {w : Worker} {hs : HostSort} {p : Party} {inst : AdGuardInstance}
  {tr : Trace Event Reply}

/-- A line is a success exactly if the answers were good. -/
theorem runs_getStatus {out : Option ReplicaStatus} (h : (getStatus p inst).Runs tr out) :
    ∃ st, out = some st ∧ st.host = inst.webHost ∧
      (st.status = "success" ↔ ∀ x ∈ tr, Up x) ∧ (st.status = "success" → Reached tr p) := by
  obtain ⟨created, t, rfl, h₁⟩ := runs_perform_bind.mp h
  rcases created with e | _
  · obtain ⟨rfl, rfl⟩ := runs_ret.mp h₁
    have hne : "danger" ≠ "success" := by decide
    refine ⟨_, rfl, rfl, ⟨fun hst => absurd hst hne, fun hup => ?_⟩, fun hst => absurd hst hne⟩
    cases hup _ List.mem_cons_self
  · obtain ⟨answer, t, rfl, h₂⟩ := runs_perform_bind.mp h₁
    rcases answer with e | d
    · obtain ⟨rfl, rfl⟩ := runs_ret.mp h₂
      have hne : (if e = .setupNeeded then "warning" else "danger") ≠ "success" := by
        split_ifs <;> decide
      refine ⟨_, rfl, rfl, ⟨fun hst => absurd hst hne, fun hup => ?_⟩,
        fun hst => absurd hst hne⟩
      obtain ⟨d, hd⟩ := hup _ (List.mem_cons_of_mem _ List.mem_cons_self)
      cases hd
    · obtain ⟨rfl, rfl⟩ := runs_ret.mp h₂
      have hcreated : Up ⟨.createClient p, .ok ()⟩ := rfl
      have hread : Up ⟨.read p .status, .ok d⟩ := ⟨d, rfl⟩
      refine ⟨_, rfl, rfl, iff_of_true rfl ?_, fun _ => ⟨d, by simp⟩⟩
      simp only [List.forall_mem_cons]
      exact ⟨hcreated, hread, by simp⟩

/-- The lines of the replicas are successes exactly if the answers were good, and no sync was
running. While one runs they are all `info`. -/
theorem runs_replicaStatuses : ∀ {replicas : List AdGuardInstance} {tr : Trace Event Reply}
    {out : Option (List ReplicaStatus)}, (replicaStatuses replicas).Runs tr out →
      ∃ sts, out = some sts ∧ sts.map ReplicaStatus.host = replicas.map AdGuardInstance.webHost ∧
        ((∀ st ∈ sts, st.status = "success") ↔ ∀ x ∈ tr, Up x) ∧
        ((∀ st ∈ sts, st.status = "success") → ∀ r ∈ replicas, Reached tr (.replica r)) ∧
        (SeenRunning tr → ∀ st ∈ sts, st.status = "info")
  | [], tr, out, h => by
    obtain ⟨rfl, rfl⟩ := runs_ret.mp h
    exact ⟨[], rfl, rfl, by simp, by simp, by simp⟩
  | r :: rs, tr, out, h => by
    rcases runs_bind.mp h with ⟨t₁, st, t₂, rfl, h₁, h₂⟩ | ⟨h₁, -⟩
    · obtain ⟨st, hst, hhost, hup, hreached⟩ := runs_getStatus h₁
      obtain rfl := Option.some.inj hst
      obtain ⟨running, t₃, rfl, h₃⟩ := runs_perform_bind.mp h₂
      rcases runs_bind.mp h₃ with ⟨t₄, sts, t₅, rfl, h₄, h₅⟩ | ⟨h₄, -⟩
      · obtain ⟨sts, hsts, hhosts, hups, hall, hinfo⟩ := runs_replicaStatuses h₄
        obtain rfl := Option.some.inj hsts
        obtain ⟨rfl, rfl⟩ := runs_ret.mp h₅
        refine ⟨_, rfl, ?_, ?_, ?_, ?_⟩
        · rw [List.map_cons, List.map_cons, hhosts]
          cases running <;> exact congrArg (· :: _) hhost
        · simp only [List.forall_mem_cons, List.forall_mem_append, List.append_nil, ← hup, ← hups]
          cases running <;> simp [Up]
        · intro hsuccess q hq
          obtain ⟨hline, hlines⟩ := List.forall_mem_cons.mp hsuccess
          cases running with
          | true =>
            have hne : "info" ≠ "success" := by decide
            exact absurd hline hne
          | false =>
            rcases List.mem_cons.mp hq with rfl | hq
            · exact (hreached hline).mono fun x hx => by simp [hx]
            · exact (hall hlines q hq).mono fun x hx => by simp [hx]
        · intro hseen
          obtain rfl : running = true := hseen running (by simp)
          refine List.forall_mem_cons.mpr ⟨rfl, hinfo fun b hb => hseen b (by simp [hb])⟩
      · obtain ⟨_, hsts, -⟩ := runs_replicaStatuses h₄
        cases hsts
    · obtain ⟨_, hst, -⟩ := runs_getStatus h₁
      cases hst

/-- The last thing a page does is reading the flag. -/
theorem runs_status {out : Option SyncStatus} (h : (w.status hs).Runs tr out) :
    ∃ t₁ t₂ origin replicas running, tr = t₁ ++ t₂ ++ [⟨.readRunning, running⟩] ∧
      (getStatus .origin w.cfg.origin).Runs t₁ (some origin) ∧
      (replicaStatuses w.cfg.replicas).Runs t₂ (some replicas) ∧
      out = some ⟨running, origin, hs.sort replicas⟩ := by
  rcases runs_bind.mp h with ⟨t₁, origin, t, rfl, h₁, h⟩ | ⟨h₁, -⟩
  · rcases runs_bind.mp h with ⟨t₂, replicas, t, rfl, h₂, h⟩ | ⟨h₂, -⟩
    · obtain ⟨running, t, rfl, h₃⟩ := runs_perform_bind.mp h
      obtain ⟨rfl, rfl⟩ := runs_ret.mp h₃
      exact ⟨t₁, t₂, origin, replicas, running, (List.append_assoc ..).symm, h₁, h₂, rfl⟩
    · obtain ⟨_, hsts, -⟩ := runs_replicaStatuses h₂
      cases hsts
  · obtain ⟨_, hst, -⟩ := runs_getStatus h₁
    cases hst

/-- While a sync runs all replicas are shown as `info`. -/
theorem status_of_seenRunning {st : SyncStatus} (h : (w.status hs).Runs tr (some st))
    (hseen : SeenRunning tr) : st.replicas.length = w.cfg.replicas.length ∧
      ∀ replica ∈ st.replicas, replica.status = "info" := by
  obtain ⟨t₁, t₂, origin, sts, running, rfl, -, hr, hst⟩ := runs_status h
  obtain rfl := Option.some.inj hst
  obtain ⟨_, hsts, hhosts, -, -, hinfo⟩ := runs_replicaStatuses hr
  obtain rfl := Option.some.inj hsts
  refine ⟨?_, fun replica hmem => ?_⟩
  · have hlength := congrArg List.length hhosts
    rw [List.length_map, List.length_map] at hlength
    exact (hs.perm sts).length_eq.trans hlength
  · exact hinfo (fun b hb => hseen b (by simp [hb])) replica ((hs.perm sts).mem_iff.mp hmem)

theorem healthCode_cases (st : SyncStatus) : healthCode st = 200 ∨ healthCode st = 503 := by
  unfold healthCode
  split_ifs <;> simp

/-- A page is healthy if all its lines are successes. -/
theorem healthCode_eq_ok_iff {st : SyncStatus} : healthCode st = 200 ↔
    st.origin.status = "success" ∧ ∀ replica ∈ st.replicas, replica.status = "success" := by
  unfold healthCode
  split_ifs with horigin hreplicas
  · exact iff_of_false (by decide) fun h => horigin h.1
  · obtain ⟨replica, hmem, hne⟩ := List.any_eq_true.mp hreplicas
    exact iff_of_false (by decide) fun h => of_decide_eq_true hne (h.2 replica hmem)
  · refine iff_of_true rfl ⟨not_not.mp horigin, fun replica hmem => ?_⟩
    by_contra hne
    exact hreplicas (List.any_eq_true.mpr ⟨replica, hmem, decide_eq_true hne⟩)

/-- A page with a replica that is shown as `info` is not healthy. -/
theorem healthCode_eq_of_info {st : SyncStatus} (hne : st.replicas ≠ [])
    (hinfo : ∀ replica ∈ st.replicas, replica.status = "info") : healthCode st = 503 := by
  refine (healthCode_cases st).resolve_left fun hok => ?_
  obtain ⟨replica, hmem⟩ := List.exists_mem_of_ne_nil _ hne
  have hsuccess : "info" ≠ "success" := by decide
  exact hsuccess ((hinfo replica hmem).symm.trans ((healthCode_eq_ok_iff.mp hok).2 replica hmem))

/-- A check that is passed has reached every instance. -/
theorem reached_of_healthy (h : (w.healthz hs).Runs tr (some 200)) :
    ∀ p ∈ Party.origin :: w.cfg.replicas.map .replica, Reached tr p := by
  rcases runs_bind.mp h with ⟨t, st, t', rfl, h₁, h₂⟩ | ⟨-, hnone⟩
  · obtain ⟨rfl, hcode⟩ := runs_ret.mp h₂
    obtain ⟨t₁, t₂, origin, sts, running, rfl, ho, hr, hst⟩ := runs_status h₁
    obtain rfl := Option.some.inj hst
    obtain ⟨hline, hlines⟩ := healthCode_eq_ok_iff.mp (Option.some.inj hcode).symm
    obtain ⟨_, horigin, -, -, hreached⟩ := runs_getStatus ho
    obtain rfl := Option.some.inj horigin
    obtain ⟨_, hsts, -, -, hall, -⟩ := runs_replicaStatuses hr
    obtain rfl := Option.some.inj hsts
    have hsuccess : ∀ st ∈ sts, st.status = "success" :=
      fun st hst => hlines st ((hs.perm sts).mem_iff.mpr hst)
    refine List.forall_mem_cons.mpr ⟨(hreached hline).mono fun x hx => by simp [hx], ?_⟩
    simp only [List.forall_mem_map]
    exact fun r hr => (hall hsuccess r hr).mono fun x hx => by simp [hx]
  · cases hnone

/-- The check is passed exactly if every client could be created, every instance gave its status
and the flag was not set whenever it was read for a replica. While a sync runs it is not passed,
if there is a replica. -/
theorem healthz_eq_ok_iff {out : Option ℕ} (h : (w.healthz hs).Runs tr out) :
    ∃ code, out = some code ∧ (code = 200 ↔ ∀ x ∈ tr.dropLast, Up x) ∧
      (code = 200 → ∀ p ∈ .origin :: w.cfg.replicas.map .replica, Reached tr p) ∧
      (SeenRunning tr → w.cfg.replicas ≠ [] → code = 503) := by
  rcases runs_bind.mp h with ⟨t, st, t', rfl, h₁, h₂⟩ | ⟨h₁, -⟩
  · obtain ⟨rfl, rfl⟩ := runs_ret.mp h₂
    obtain ⟨t₁, t₂, origin, sts, running, rfl, ho, hr, hst⟩ := runs_status h₁
    obtain rfl := Option.some.inj hst
    obtain ⟨_, horigin, -, hup, -⟩ := runs_getStatus ho
    obtain rfl := Option.some.inj horigin
    obtain ⟨_, hsts, -, hups, -, -⟩ := runs_replicaStatuses hr
    obtain rfl := Option.some.inj hsts
    have hcode : healthCode ⟨running, origin, hs.sort sts⟩ = 200 ↔
        origin.status = "success" ∧ ∀ st ∈ sts, st.status = "success" := by
      simp only [healthCode_eq_ok_iff, (hs.perm sts).mem_iff]
    refine ⟨_, rfl, ?_, fun hok => ?_, fun hseen hne => ?_⟩
    · rw [hcode, List.append_nil, List.dropLast_concat, List.forall_mem_append, hup, hups]
    · rw [hok] at h
      exact reached_of_healthy h
    · rw [List.append_nil] at hseen
      obtain ⟨hlength, hinfo⟩ := status_of_seenRunning h₁ hseen
      refine healthCode_eq_of_info (List.ne_nil_of_length_pos ?_) hinfo
      rw [hlength]
      exact List.length_pos_of_ne_nil hne
  · obtain ⟨_, _, _, _, _, _, _, _, hst⟩ := runs_status h₁
    cases hst

/-- A sync that starts while the page is made : the last reading does not count. -/
theorem healthz_eq_ok_iff_sample : ∃ tr,
    ((sampleWorker {} false ["/a"]).healthz .stable).Runs tr (some 200) ∧
      ⟨.readRunning, true⟩ ∈ tr := by
  let r : Party := .replica (sampleReplica "/a")
  let up : Trace Event Reply :=
    [⟨.createClient .origin, .ok ()⟩, ⟨.read .origin .status, .ok (blankDoc .status)⟩,
      ⟨.createClient r, .ok ()⟩, ⟨.read r .status, .ok (blankDoc .status)⟩, ⟨.readRunning, false⟩]
  have hrun : ∃ code, ((sampleWorker {} false ["/a"]).healthz .stable).Runs
      (up ++ [⟨.readRunning, true⟩]) (some code) :=
    ⟨_, .ask <| .ask <| .ask <| .ask <| .ask <| .ask <| .ret _⟩
  obtain ⟨code, hrun⟩ := hrun
  obtain ⟨_, hcode, hok, -, -⟩ := healthz_eq_ok_iff hrun
  obtain rfl := Option.some.inj hcode
  have hup : ∀ x ∈ up, Up x := by
    simp only [up, List.forall_mem_cons]
    exact ⟨rfl, ⟨_, rfl⟩, rfl, ⟨_, rfl⟩, rfl, by simp⟩
  obtain rfl := hok.mpr (by rwa [List.dropLast_concat])
  exact ⟨_, hrun, by simp⟩

end Runs

/-! ## Pages of instances that answer -/

/-- The line of an instance that gives its status. -/
def shown (inst : AdGuardInstance) (i : Instance) : ReplicaStatus where
  host := inst.webHost
  url := inst.webURL
  status := "success"
  protectionEnabled := some i.protectionEnabled

section Ensures

variable {w : Worker} {hs : HostSort} {outage : Prop} {x : World}

theorem ensures_getStatus (p : Party) (inst : AdGuardInstance) :
    (getStatus p inst).Ensures (World.Answers outage) x fun out x' => x' = x ∧
      ∃ st, out = some st ∧ st.host = inst.webHost ∧ (outage ∨ st = shown inst (x p).inst) := by
  refine Prog.ensures_perform_bind.mpr ?_
  rintro (e | _) _ ⟨hcreated, rfl⟩
  · exact ⟨rfl, _, rfl, rfl, Or.inl (hcreated.resolve_right nofun)⟩
  · refine Prog.ensures_perform_bind.mpr ?_
    rintro (e | d) _ ⟨hread, rfl⟩
    · exact ⟨rfl, _, rfl, rfl, Or.inl hread⟩
    · obtain rfl : d = _ := hread
      exact ⟨rfl, _, rfl, rfl, Or.inr rfl⟩

theorem ensures_replicaStatuses : ∀ (replicas : List AdGuardInstance) (x : World),
    (replicaStatuses replicas).Ensures (World.Answers outage) x fun out x' => x' = x ∧
      ∃ sts, out = some sts ∧ sts.map ReplicaStatus.host = replicas.map AdGuardInstance.webHost ∧
        (outage ∨ sts = replicas.map fun r => shown r (x (.replica r)).inst)
  | [], _ => ⟨rfl, [], rfl, rfl, Or.inr rfl⟩
  | r :: rs, x => by
    refine Prog.ensures_bind.mpr ((ensures_getStatus (.replica r) r).mono ?_)
    rintro _ _ ⟨rfl, st, rfl, hhost, hst⟩
    refine Prog.ensures_perform_bind.mpr ?_
    rintro running _ ⟨hrunning, rfl⟩
    refine Prog.ensures_bind.mpr ((ensures_replicaStatuses rs _).mono ?_)
    rintro _ _ ⟨rfl, sts, rfl, hhosts, hsts⟩
    refine ⟨rfl, _, rfl, ?_, ?_⟩
    · rw [List.map_cons, List.map_cons, hhosts]
      cases running <;> exact congrArg (· :: _) hhost
    · rcases hrunning with houtage | rfl
      · exact Or.inl houtage
      · rcases hst with houtage | rfl
        · exact Or.inl houtage
        · exact hsts.imp_right fun hsts => congrArg (_ :: ·) hsts

/-- Making the page changes nothing. It has one line for every configured replica, ordered by
their hosts, and where nothing fails it shows the protection of every instance. -/
theorem status_shows {tr : Trace Event Reply} {out : Option SyncStatus} {x' : World}
    (hrun : (w.status hs).Runs tr out) (hw : Along (World.Answers outage) tr x x') :
    x' = x ∧ ∃ st, out = some st ∧
      (st.replicas.map ReplicaStatus.host).Perm (w.cfg.replicas.map AdGuardInstance.webHost) ∧
      (st.replicas.map ReplicaStatus.host).Pairwise (· ≤ ·) ∧
      (outage ∨ st.origin = shown w.cfg.origin (x .origin).inst ∧
        st.replicas.Perm (w.cfg.replicas.map fun r => shown r (x (.replica r)).inst)) := by
  suffices hensures : (w.status hs).Ensures (World.Answers outage) x fun out x' => x' = x ∧
      ∃ st, out = some st ∧
        (st.replicas.map ReplicaStatus.host).Perm (w.cfg.replicas.map AdGuardInstance.webHost) ∧
        (st.replicas.map ReplicaStatus.host).Pairwise (· ≤ ·) ∧
        (outage ∨ st.origin = shown w.cfg.origin (x .origin).inst ∧
          st.replicas.Perm (w.cfg.replicas.map fun r => shown r (x (.replica r)).inst)) from
    hensures.of_runs hrun hw
  refine Prog.ensures_bind.mpr ((ensures_getStatus .origin w.cfg.origin).mono ?_)
  rintro _ _ ⟨rfl, origin, rfl, -, horigin⟩
  refine Prog.ensures_bind.mpr ((ensures_replicaStatuses w.cfg.replicas _).mono ?_)
  rintro _ _ ⟨rfl, sts, rfl, hhosts, hsts⟩
  refine World.ensures_perform_bind (fun _ _ h => h.2) fun running => ?_
  refine ⟨rfl, _, rfl, ?_, List.pairwise_map.mpr (hs.sorted sts), ?_⟩
  · rw [← hhosts]
    exact (hs.perm sts).map _
  · rcases horigin with houtage | rfl
    · exact Or.inl houtage
    · rcases hsts with houtage | rfl
      · exact Or.inl houtage
      · exact Or.inr ⟨rfl, hs.perm _⟩

theorem status_shows_sample : ∃ tr st,
    ((sampleWorker {} false ["/b", "/a"]).status .stable).Runs tr (some st) ∧
      st.replicas.map ReplicaStatus.protectionEnabled = [some true, some true] := by
  let i : Instance := { dns := { protectionEnabled := some true } }
  obtain ⟨tr, out, x', hrun, hw⟩ := ((sampleWorker {} false ["/b", "/a"]).status
    .stable).exists_along (World.exists_answers False) ⟨fun _ => { inst := i }, []⟩
  obtain ⟨-, st, rfl, -, -, hshown⟩ := status_shows hrun hw
  have hperm : (st.replicas.map ReplicaStatus.protectionEnabled).Perm
      (List.replicate 2 (some true)) :=
    (hshown.resolve_left id).2.map ReplicaStatus.protectionEnabled
  exact ⟨tr, st, hrun, List.perm_replicate.mp hperm⟩

end Ensures

end Worker

end AghSync
