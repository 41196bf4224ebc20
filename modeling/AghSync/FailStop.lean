import AghSync.Authority
import AghSync.Isolation
import AghSync.Presence

/-!
# Stopping at a failure

Without `continueOnError` the work on a replica ends with the first call that fails, apart
from a first status that asks for the setup (`work_halts`). The other replicas are still
processed, unless a field that an action dereferences is absent.

Up to the failure it does what it does from the same snapshot when no call fails
(`entriesOf_syncTo_prefix`). But the replicas before it change the snapshot, and change it
less where a call to them fails. So it is the beginning of what happens in the run without the
failures (`WithoutFailures`) on a settled origin, or where the replicas before it do not fail,
and not otherwise (`exists_not_failStop`).
-/

open Interaction Interaction.Prog

namespace AghSync

open Model Worker

/-- The first status of the replica says that it is not set up, and it may be set up. -/
def SetupStatus (r : AdGuardInstance) (hist : Trace Event Reply) (x : Entry Event Reply) : Prop :=
  r.autoSetup = true ∧ x = ⟨.read (.replica r) .status, .error .setupNeeded⟩ ∧
    lastStatus (.replica r) hist = none

/-- The entries about a replica are answered by `S`, but where a call fails. -/
def AnswersBut (S : Strategy Event Reply) (r : AdGuardInstance) (tr : Trace Event Reply) : Prop :=
  Always (fun hist x => x.2 = S hist x.1 ∨ Failed x ∧ ¬SetupStatus r hist x) [] tr

/-- A bad entry is found in the second part of a trace if the first has none. -/
theorem eq_append_of_notMem {t₁ t₂ pre post : Trace Event Reply} {x : Entry Event Reply}
    (h : t₁ ++ t₂ = pre ++ x :: post) (hx : x ∉ t₁) :
    ∃ pre', pre = t₁ ++ pre' ∧ t₂ = pre' ++ x :: post := by
  obtain ⟨pre', rfl⟩ := prefix_of_append_eq h hx
  rw [List.append_assoc] at h
  exact ⟨pre', rfl, List.append_cancel_left h⟩

/-! ## One replica -/

/-- The actions end with the first failure. -/
theorem runActions_halts {cfg : Config} {ac : ActionContext}
    (hcoe : ac.cfg.continueOnError = false) {x : Entry Event Reply} (hx : Failed x) :
    ∀ {as : List SyncAction} {withError : Bool} {o : Origin} {tr pre post : Trace Event Reply}
      {out : Option Work}, as ⊆ setupActions cfg →
      Prog.Runs (runActions ac as withError o) tr out → tr = pre ++ x :: post → post = []
  | [], _, _, _, _, _, _, _, h, htr => by
    obtain ⟨rfl, -⟩ := runs_runActions_nil.mp h
    simp at htr
  | a :: as, _, o, _, _, _, _, has, h, htr => by
    obtain ⟨ha, has'⟩ := List.cons_subset.mp has
    obtain ⟨q, henabled⟩ := exists_enabled ha
    have hstops := (henabled.staged ac o).stopsAt
    have hfatal : Fatal ac.cfg.continueOnError x := by
      refine ⟨hx, ?_⟩
      rw [hcoe]
      obtain ⟨e, reply⟩ := x
      cases e <;> simp [Strict]
    rcases runs_runActions_cons h with ⟨t₁, o', t₂, rfl, h₁, h₂⟩ |
      ⟨t₁, e, o', t₂, -, -, htrue, -⟩ | ⟨e, o', h₁, -, -⟩ | ⟨h₁, -⟩
    · have hnot : x ∉ t₁ := by
        cases hstops _ _ h₁ with
        | clean hgood _ => exact fun hmem => hgood x hmem hfatal
      obtain ⟨pre', -, ht₂⟩ := eq_append_of_notMem htr hnot
      exact runActions_halts hcoe hx has' h₂ ht₂
    · rw [hcoe] at htrue
      cases htrue
    · exact (hstops _ _ h₁).eq_nil htr hfatal
    · exact (hstops _ _ h₁).eq_nil htr hfatal

/-- A failure while the status is found out is the status before a setup, or the last call. -/
theorem Worker.Connected.eq_nil {r : AdGuardInstance} {t pre post : Trace Event Reply}
    {d : Except Err ServerStatus} (h : Connected r (.replica r) t d) {x : Entry Event Reply}
    (ht : t = pre ++ x :: post) (hx : Failed x) (hsetup : ¬SetupStatus r pre x) :
    post = [] ∧ ∃ e, d = .error e := by
  cases h with
  | answered st =>
    have hmem : x ∈ pre ++ x :: post := by simp
    rw [← ht, List.mem_singleton] at hmem
    rw [hmem] at hx
    exact hx.elim
  | failed he =>
    refine ⟨?_, _, rfl⟩
    cases pre with
    | nil => exact (List.cons.inj ht).2.symm
    | cons y pre => simp at ht
  | setupFailed cfg e hauto =>
    refine ⟨?_, _, rfl⟩
    match pre, ht with
    | [], ht =>
      obtain ⟨rfl, -⟩ := List.cons.inj ht
      exact absurd ⟨hauto, rfl, rfl⟩ hsetup
    | [_], ht => exact (List.cons.inj (List.cons.inj ht).2).2.symm
    | _ :: _ :: pre, ht => simp at ht
  | setUp cfg d hauto =>
    match pre, ht with
    | [], ht =>
      obtain ⟨rfl, -⟩ := List.cons.inj ht
      exact absurd ⟨hauto, rfl, rfl⟩ hsetup
    | [_], ht =>
      obtain ⟨rfl, -⟩ := List.cons.inj (List.cons.inj ht).2
      exact hx.elim
    | [_, _], ht =>
      obtain ⟨rfl, rfl⟩ := List.cons.inj (List.cons.inj (List.cons.inj ht).2).2
      cases d with
      | ok st => exact hx.elim
      | error e => exact ⟨rfl, e, rfl⟩
    | _ :: _ :: _ :: pre, ht => simp at ht

/-- The work on a replica ends with the first failure. -/
theorem work_halts {w : Worker} (hcoe : w.cfg.continueOnError = false) {r : AdGuardInstance}
    {o : Origin} {body pre post : Trace Event Reply} {done : Work} {x : Entry Event Reply}
    (h : Prog.Runs (w.work r (replicaClient r) o) body (some done))
    (hbody : body = pre ++ x :: post) (hx : Failed x) (hsetup : ¬SetupStatus r pre x) :
    post = [] := by
  rcases w.runs_work h with ⟨rs, t₁, t₂, rfl, hconn, -, hacts⟩ | ⟨d, hconn, -, -⟩
  · have hhalts : ∀ {pre' : Trace Event Reply}, t₂ = pre' ++ x :: post → post = [] :=
      runActions_halts hcoe hx (List.Subset.refl _) hacts
    rcases List.append_eq_append_iff.mp hbody with ⟨s, -, ht₂⟩ | ⟨s, rfl, hs⟩
    · exact hhalts ht₂
    · cases s with
      | nil =>
        have ht₂ : t₂ = [] ++ x :: post := hs.symm
        exact hhalts ht₂
      | cons y s =>
        obtain ⟨rfl, -⟩ := List.cons.inj hs
        obtain ⟨-, e, he⟩ := hconn.eq_nil rfl hx hsetup
        cases he
  · exact (hconn.eq_nil hbody hx hsetup).1

/-! ## A whole run -/

/-- What is about a replica, up to one of its calls that fails : its client was created, and the
call belongs to the work on it. -/
theorem exists_work {w : Worker} {r : AdGuardInstance} {o : Origin}
    {seg pre post : Trace Event Reply} {out : Option Origin} {x : Entry Event Reply}
    (h : Prog.Runs (w.syncTo r o) seg out)
    (hsplit : entriesOf (.replica r) seg = pre ++ x :: post) (hx : Failed x) :
    ∃ pre' done, pre = ⟨.createClient (.replica r), .ok ()⟩ :: pre' ∧
      Prog.Runs (w.work r (replicaClient r) o) (pre' ++ x :: post) (some done) := by
  rcases w.entriesOf_syncTo h with ⟨e, he, -⟩ | ⟨body, done, he, hbody, -⟩
  · rw [he] at hsplit
    rcases List.append_eq_cons_iff.mp hsplit.symm with ⟨-, hs⟩ | ⟨pre', -, hs⟩
    · obtain ⟨rfl, -⟩ := List.cons.inj hs
      exact hx.elim
    · simp at hs
  · rw [he] at hsplit
    rcases List.append_eq_cons_iff.mp hsplit.symm with ⟨-, hs⟩ | ⟨pre', rfl, rfl⟩
    · obtain ⟨rfl, -⟩ := List.cons.inj hs
      exact hx.elim
    · exact ⟨pre', done, rfl, hbody⟩

/-- Once a call to a replica has failed, the run is not about the replica any more. -/
theorem Worker.entriesOf_halts (w : Worker) (hcoe : w.cfg.continueOnError = false)
    {tr : Trace Event Reply} {out : Option Unit} (h : Prog.Runs w.sync tr out)
    {r : AdGuardInstance} {pre post : Trace Event Reply} {x : Entry Event Reply}
    (hsplit : entriesOf (.replica r) tr = pre ++ x :: post) (hx : Failed x)
    (hsetup : ¬SetupStatus r pre x) : post = [] := by
  have hmem : x ∈ entriesOf (.replica r) tr := by simp [hsplit]
  obtain ⟨hmem, hparty⟩ := List.mem_filter.mp hmem
  obtain ⟨_, _, _, _, _, _, -, -, -, hproc⟩ := w.exists_processing (fun _ _ => True)
    (fun _ => trivial) (fun _ _ _ _ _ _ _ => trivial) h hmem (by simpa using hparty)
  obtain ⟨_, hseg⟩ := hproc.runs
  rw [hproc.entriesOf_eq] at hsplit
  obtain ⟨pre', done, rfl, hbody⟩ := exists_work hseg hsplit hx
  exact work_halts hcoe hbody rfl hx hsetup

/-! ## A run without the failures -/

/-- A call to the replica fails, the status before a setup aside. -/
def FailsAt (r : AdGuardInstance) (tr : Trace Event Reply) : Prop :=
  ∃ pre x post, entriesOf (.replica r) tr = pre ++ x :: post ∧ Failed x ∧ ¬SetupStatus r pre x

/-- `tr'` is the run `tr` without its failures : the origin and every replica answer by `S` in
both, but in `tr` any call to a replica may fail instead. The flag is not set in `tr'`, the
replicas are processed in the same order, and the fields that an action dereferences are
there. -/
structure Worker.WithoutFailures (w : Worker) (S : Party → Strategy Event Reply)
    (tr tr' : Trace Event Reply) : Prop where
  runs : ∃ out, Prog.Runs w.sync tr' out
  enters : ⟨.readRunning, true⟩ ∉ tr'
  order : ∀ order order', ⟨.rangeReplicas, order⟩ ∈ tr → ⟨.rangeReplicas, order'⟩ ∈ tr' →
    order = order'
  origin : Answers (S .origin) [] (entriesOf .origin tr)
  origin' : Answers (S .origin) [] (entriesOf .origin tr')
  replica : ∀ r, AnswersBut (S (.replica r)) r (entriesOf (.replica r) tr)
  replica' : ∀ r, Answers (S (.replica r)) [] (entriesOf (.replica r) tr')
  supplied : ∀ x ∈ tr', Supplied w.cfg x

/-- No replica that is processed before `r` has a failing call. -/
def Worker.FirstToFail (w : Worker) (r : AdGuardInstance) (tr : Trace Event Reply) : Prop :=
  ∀ order rs₁ rs₂, ⟨.rangeReplicas, order⟩ ∈ tr →
    w.cfg.uniqueReplicas order = rs₁ ++ r :: rs₂ → ∀ r' ∈ rs₁, ¬FailsAt r' tr

/-- What fails nowhere is answered by the strategy. -/
theorem AnswersBut.answers {S : Strategy Event Reply} {r : AdGuardInstance}
    {tr : Trace Event Reply} (h : AnswersBut S r (entriesOf (.replica r) tr))
    (hnot : ¬FailsAt r tr) : Answers S [] (entriesOf (.replica r) tr) :=
  h.mono fun pre x post hsplit hx =>
    hx.resolve_right fun hbad => hnot ⟨pre, x, post, hsplit, hbad.1, hbad.2⟩

/-- Two runs which the origin answers alike : if one gets past it, so does the other, with the
same snapshot. -/
theorem Worker.Passed.of_alike {w : Worker} {S : Strategy Event Reply}
    {tr tr' : Trace Event Reply} {out out' : Option Unit} (h : Prog.Runs w.sync tr out)
    (h' : Prog.Runs w.sync tr' out') (a : Answers S [] (entriesOf .origin tr))
    (a' : Answers S [] (entriesOf .origin tr')) (henters : ⟨.readRunning, true⟩ ∉ tr')
    {x : Entry Event Reply} (hx : x ∈ tr) {r : AdGuardInstance}
    (hparty : x.1.party = some (.replica r)) :
    ∃ origin o order all tail order' all' tail', w.Passed tr origin o order all tail out ∧
      w.Passed tr' origin o order' all' tail' out' := by
  -- In the first run the replicas are asked for after the origin.
  rcases w.runs_sync h with ⟨rfl, -⟩ | ⟨body, tail, rfl, hbody, htail⟩
  · rw [List.mem_singleton.mp hx] at hparty
    cases hparty
  rcases w.runs_pass hbody with ⟨origin, o, order, all, rfl, hread, hall⟩ | ⟨-, d, t, rfl, ht⟩
  swap
  · simp only [List.cons_append, List.mem_cons, List.mem_append] at hx
    rcases hx with rfl | rfl | rfl | hx | hx
    · cases hparty
    · cases hparty
    · cases hparty
    · obtain ⟨q, hq⟩ := ht x hx
      rw [hq] at hparty
      cases hparty
    · rw [(htail.of_only w.only_finish x hx).party_eq] at hparty
      cases hparty
  have hpassed : w.Passed (⟨.readRunning, false⟩ :: ⟨.setRunning true, ()⟩ ::
      (⟨.createClient .origin, .ok ()⟩ :: (origin ++ ⟨.rangeReplicas, order⟩ :: all) ++ tail))
      origin o order all tail out := ⟨by simp, hread, hall, htail⟩
  rw [hpassed.entriesOf_origin] at a
  rcases w.runs_sync h' with ⟨rfl, -⟩ | ⟨body', tail', rfl, hbody', htail'⟩
  · exact absurd (List.mem_singleton_self _) henters
  rcases w.runs_pass hbody' with ⟨origin', o', order', all', rfl, hread', hall'⟩ |
    ⟨-, d, t, rfl, ht⟩
  · have hpassed' : w.Passed (⟨.readRunning, false⟩ :: ⟨.setRunning true, ()⟩ ::
        (⟨.createClient .origin, .ok ()⟩ :: (origin' ++ ⟨.rangeReplicas, order'⟩ :: all') ++
          tail')) origin' o' order' all' tail' out' := ⟨by simp, hread', hall', htail'⟩
    rw [hpassed'.entriesOf_origin] at a'
    obtain ⟨rfl, rfl⟩ := hread.unique hread' a.2 a'.2
    exact ⟨_, _, _, _, _, _, _, _, hpassed, hpassed'⟩
  · -- A run that stops at the origin asks for nothing else, the other one does.
    have hself : ∀ y ∈ (⟨.createClient .origin, d⟩ :: t : Trace Event Reply),
        y.1.party = some .origin := by
      intro y hy
      rcases List.mem_cons.mp hy with rfl | hy
      · rfl
      · obtain ⟨q, hq⟩ := ht y hy
        rw [hq]
        rfl
    have hentries : entriesOf .origin (⟨.readRunning, false⟩ :: ⟨.setRunning true, ()⟩ ::
        (⟨.createClient .origin, d⟩ :: t ++ tail') : Trace Event Reply) =
          ⟨.createClient .origin, d⟩ :: t := by
      calc entriesOf .origin _
          = entriesOf .origin ((⟨.createClient .origin, d⟩ :: t) ++ tail') := rfl
        _ = (⟨.createClient .origin, d⟩ :: t) ++ [] := by
            rw [entriesOf_append, entriesOf_eq_self hself, entriesOf_eq_nil fun y hy => by
              simp [(htail'.of_only w.only_finish y hy).party_eq]]
        _ = ⟨.createClient .origin, d⟩ :: t := List.append_nil _
    rw [hentries] at a'
    have hnext : Prog.Runs w.pass ((⟨.createClient .origin, .ok ()⟩ :: origin) ++
        ⟨.rangeReplicas, order⟩ :: all) out := hbody
    obtain ⟨s, hs⟩ := hnext.next_event hbody' a a'
    have hmem : Event.rangeReplicas ∈
        (⟨.createClient .origin, d⟩ :: t : Trace Event Reply).map Sigma.fst := by
      rw [← hs]
      simp
    obtain ⟨y, hy, he⟩ := List.mem_map.mp hmem
    have hparty' := hself y hy
    rw [he] at hparty'
    cases hparty'

/-- The first replica of a pass, then the others, unless it crashes. -/
theorem runs_syncAll_head {w : Worker} {r : AdGuardInstance} {rs : List AdGuardInstance}
    {o : Origin} {tr : Trace Event Reply} {out : Option Unit}
    (h : Prog.Runs (w.syncAll (r :: rs) o) tr out) :
    ∃ seg rest out₁, tr = seg ++ rest ∧ Prog.Runs (w.syncTo r o) seg out₁ ∧
      (out₁ = none → rest = []) ∧ ∀ o', out₁ = some o' → Prog.Runs (w.syncAll rs o') rest out := by
  rcases w.runs_syncAll_cons.mp h with ⟨t₁, o', t₂, rfl, h₁, h₂⟩ | ⟨h₁, -⟩
  · refine ⟨t₁, t₂, some o', rfl, h₁, fun ho => (Option.some_ne_none _ ho).elim, fun o'' ho => ?_⟩
    rwa [← Option.some.inj ho]
  · exact ⟨tr, [], none, by simp, h₁, fun _ => rfl,
      fun _ ho => (Option.some_ne_none _ ho.symm).elim⟩

/-- Processing one replica is not about another one. -/
theorem entriesOf_syncTo_of_ne {w : Worker} {r r' : AdGuardInstance} {o : Origin}
    {seg : Trace Event Reply} {out : Option Origin} (h : Prog.Runs (w.syncTo r' o) seg out)
    (hne : r ≠ r') : entriesOf (.replica r) seg = [] := by
  refine entriesOf_eq_nil fun x hx hp => hne ?_
  exact Party.replica.inj (h.of_only (w.only_syncTo r' o) x hx _ hp)

/-- The part of a pass that is left is not about a replica that it does not process. -/
theorem entriesOf_syncAll_of_notMem {w : Worker} {r : AdGuardInstance}
    {rs : List AdGuardInstance} {o : Origin} {tr : Trace Event Reply} {out : Option Unit}
    (h : Prog.Runs (w.syncAll rs o) tr out) (hr : r ∉ rs) : entriesOf (.replica r) tr = [] := by
  refine entriesOf_eq_nil fun x hx hp => hr ?_
  obtain ⟨r', hr', he⟩ := h.of_only (w.only_syncAll rs o) x hx _ hp
  rwa [Party.replica.inj he]

/-- What a pass has about its first replica. -/
theorem entriesOf_head {w : Worker} {r : AdGuardInstance} {rs : List AdGuardInstance}
    {seg rest : Trace Event Reply} {out₁ : Option Origin} {out : Option Unit} (hr : r ∉ rs)
    (hnone : out₁ = none → rest = [])
    (hsome : ∀ o', out₁ = some o' → Prog.Runs (w.syncAll rs o') rest out) :
    entriesOf (.replica r) (seg ++ rest) = entriesOf (.replica r) seg := by
  have hrest : entriesOf (.replica r) rest = [] := by
    cases out₁ with
    | none =>
      rw [hnone rfl]
      rfl
    | some o' => exact entriesOf_syncAll_of_notMem (hsome o' rfl) hr
  rw [entriesOf_append, hrest, List.append_nil]

/-- Two passes over the same replicas, answered alike up to `r` : both process `r` from one
snapshot. -/
theorem syncAll_alike {w : Worker} {S : Party → Strategy Event Reply} {r : AdGuardInstance}
    {rs₂ : List AdGuardInstance} : ∀ {rs₁ : List AdGuardInstance} {o : Origin}
    {tr tr' : Trace Event Reply} {out out' : Option Unit}, (rs₁ ++ r :: rs₂).Nodup →
    Prog.Runs (w.syncAll (rs₁ ++ r :: rs₂) o) tr out →
    Prog.Runs (w.syncAll (rs₁ ++ r :: rs₂) o) tr' out' →
    (∀ r' ∈ rs₁, Answers (S (.replica r')) [] (entriesOf (.replica r') tr) ∧
      Answers (S (.replica r')) [] (entriesOf (.replica r') tr')) →
    entriesOf (.replica r) tr ≠ [] →
      ∃ o' seg seg' out₁ out₁', Prog.Runs (w.syncTo r o') seg out₁ ∧
        Prog.Runs (w.syncTo r o') seg' out₁' ∧
        entriesOf (.replica r) tr = entriesOf (.replica r) seg ∧
        entriesOf (.replica r) tr' = entriesOf (.replica r) seg'
  | [], o, _, _, _, _, hnodup, h, h', _, _ => by
    have hr := (List.nodup_cons.mp hnodup).1
    obtain ⟨seg, rest, out₁, rfl, hseg, hnone, hsome⟩ := runs_syncAll_head h
    obtain ⟨seg', rest', out₁', rfl, hseg', hnone', hsome'⟩ := runs_syncAll_head h'
    exact ⟨o, seg, seg', out₁, out₁', hseg, hseg', entriesOf_head hr hnone hsome,
      entriesOf_head hr hnone' hsome'⟩
  | r₀ :: rs₁, o, _, _, _, _, hnodup, h, h', hanswers, hne => by
    obtain ⟨hr₀, hnodup'⟩ := List.nodup_cons.mp hnodup
    obtain ⟨seg, rest, out₁, rfl, hseg, hnone, hsome⟩ := runs_syncAll_head h
    obtain ⟨seg', rest', out₁', rfl, hseg', hnone', hsome'⟩ := runs_syncAll_head h'
    -- The first replica leaves the same snapshot in both.
    obtain ⟨a, a'⟩ := hanswers r₀ (by simp)
    rw [entriesOf_head hr₀ hnone hsome] at a
    rw [entriesOf_head hr₀ hnone' hsome'] at a'
    obtain ⟨-, rfl⟩ := w.entriesOf_syncTo_unique hseg hseg' a a'
    have hother : ∀ r', r' ≠ r₀ →
        entriesOf (.replica r') (seg ++ rest) = entriesOf (.replica r') rest ∧
        entriesOf (.replica r') (seg' ++ rest') = entriesOf (.replica r') rest' := by
      intro r' hr'
      rw [entriesOf_append, entriesOf_append, entriesOf_syncTo_of_ne hseg hr',
        entriesOf_syncTo_of_ne hseg' hr']
      exact ⟨rfl, rfl⟩
    have hneq : ∀ r' ∈ rs₁ ++ r :: rs₂, r' ≠ r₀ := fun r' hr' he => hr₀ (he ▸ hr')
    obtain ⟨he, he'⟩ := hother r (hneq r (by simp))
    rw [he] at hne
    cases out₁ with
    | none =>
      rw [hnone rfl] at hne
      exact absurd rfl hne
    | some o' =>
      rw [he, he']
      refine syncAll_alike (S := S) hnodup' (hsome o' rfl) (hsome' o' rfl) (fun r' hr' => ?_) hne
      obtain ⟨b, b'⟩ := hanswers r' (by simp [hr'])
      obtain ⟨hb, hb'⟩ := hother r' (hneq r' (by simp [hr']))
      exact ⟨hb ▸ b, hb' ▸ b'⟩

/-- On a settled origin every replica is processed from the snapshot that was read. -/
theorem Worker.Passed.processing {w : Worker} {tr origin all tail : Trace Event Reply}
    {o : Origin} {order : MapOrder String} {out : Option Unit}
    (h : w.Passed tr origin o order all tail out) (hs : SettledSnapshot w.cfg o)
    {r : AdGuardInstance} (hne : entriesOf (.replica r) all ≠ []) :
    ∃ seg out₁, Prog.Runs (w.syncTo r o) seg out₁ ∧
      entriesOf (.replica r) all = entriesOf (.replica r) seg := by
  obtain ⟨x, hx⟩ := List.exists_mem_of_ne_nil _ hne
  obtain ⟨hx, hparty⟩ := List.mem_filter.mp hx
  obtain ⟨pre, o', seg, out₁, _, _, post, _, hall, rfl, hseg, -, hpre, hpost⟩ :=
    w.exists_segment (I := (· = o))
      (fun r' o₁ t o₂ ho hsync =>
        ((actionsKeep_eq hs).syncTo (fun _ => trivial) ho hsync).2 o₂ rfl)
      (w.cfg.nodup_uniqueReplicas order) rfl h.replicas ⟨x, hx, by simpa using hparty⟩
  refine ⟨seg, out₁, hseg, ?_⟩
  rw [hall, entriesOf_append, entriesOf_append, entriesOf_eq_nil hpre, entriesOf_eq_nil hpost,
    List.nil_append, List.append_nil]

/-- From one snapshot, with the same answers before a call that fails, the calls up to it are
the first ones of the work without a failure. -/
theorem entriesOf_syncTo_prefix {w : Worker} {S : Strategy Event Reply} {r : AdGuardInstance}
    {o : Origin} {seg seg' pre post : Trace Event Reply} {out out' : Option Origin}
    {x : Entry Event Reply} (h : Prog.Runs (w.syncTo r o) seg out)
    (h' : Prog.Runs (w.syncTo r o) seg' out')
    (hsplit : entriesOf (.replica r) seg = pre ++ x :: post) (hx : Failed x)
    (hpre : Answers S [] pre) (hans : Answers S [] (entriesOf (.replica r) seg')) :
    (pre ++ [x]).map Sigma.fst <+: (entriesOf (.replica r) seg').map Sigma.fst := by
  obtain ⟨pre', done, rfl, hbody⟩ := exists_work h hsplit hx
  rcases w.entriesOf_syncTo h' with ⟨e, he, -⟩ | ⟨body', done', he, hbody', -⟩
  · rw [he] at hans
    cases hpre.1.trans hans.1.symm
  · rw [he] at hans ⊢
    obtain ⟨s, hs⟩ := Prog.Runs.next_event hbody hbody' hpre.2 hans.2
    exact ⟨s, congrArg (List.cons _) hs⟩

/-- The run and the run without its failures process a replica from one snapshot, where the
documents of the origin are settled or no replica before it has a failing call. -/
theorem Worker.WithoutFailures.exists_segments {w : Worker} {S : Party → Strategy Event Reply}
    {tr tr' : Trace Event Reply} (hfree : w.WithoutFailures S tr tr') {out : Option Unit}
    (h : Prog.Runs w.sync tr out) {r : AdGuardInstance} (hne : entriesOf (.replica r) tr ≠ [])
    (hcond : (∀ q d, ⟨.read .origin q, .ok d⟩ ∈ tr → Settled w.cfg q d) ∨ w.FirstToFail r tr) :
    ∃ o seg seg' out₁ out₁', Prog.Runs (w.syncTo r o) seg out₁ ∧
      Prog.Runs (w.syncTo r o) seg' out₁' ∧
      entriesOf (.replica r) tr = entriesOf (.replica r) seg ∧
      entriesOf (.replica r) tr' = entriesOf (.replica r) seg' := by
  obtain ⟨out', h'⟩ := hfree.runs
  obtain ⟨x, hx⟩ := List.exists_mem_of_ne_nil _ hne
  obtain ⟨hx, hparty⟩ := List.mem_filter.mp hx
  have hparty : x.1.party = some (.replica r) := by simpa using hparty
  obtain ⟨origin, o, order, all, tail, order', all', tail', hpassed, hpassed'⟩ :=
    Passed.of_alike h h' hfree.origin hfree.origin' hfree.enters hx hparty
  obtain rfl : order = order' :=
    hfree.order _ _ (hpassed.mem.mpr (by simp)) (hpassed'.mem.mpr (by simp))
  obtain ⟨r', hr, hr'⟩ := hpassed.party_all (hpassed.mem_all hx hparty) hparty
  obtain rfl := Party.replica.inj hr'
  rw [hpassed.entriesOf_replica] at hne ⊢
  rw [hpassed'.entriesOf_replica]
  rcases hcond with hsettled | hfirst
  · have hs : SettledSnapshot w.cfg o := hpassed.read.settled fun q d hd =>
      hsettled q d (hpassed.mem.mpr (by simp [hd]))
    have hne' : entriesOf (.replica r) all' ≠ [] := by
      have hcomplete := hpassed'.read.complete fun y hy =>
        hfree.supplied y (hpassed'.mem.mpr (by simp [hy]))
      obtain ⟨d, hd⟩ := created_of_complete hcomplete
        (fun y hy => hfree.supplied y (hpassed'.mem.mpr (by simp [hy]))) hpassed'.replicas r hr
      exact List.ne_nil_of_mem (List.mem_filter.mpr ⟨hd, by simp [Event.party]⟩)
    obtain ⟨seg, out₁, hseg, he⟩ := hpassed.processing hs hne
    obtain ⟨seg', out₁', hseg', he'⟩ := hpassed'.processing hs hne'
    exact ⟨o, seg, seg', out₁, out₁', hseg, hseg', he, he'⟩
  · obtain ⟨rs₁, rs₂, hrs⟩ := List.append_of_mem hr
    have hreplicas := hpassed.replicas
    have hreplicas' := hpassed'.replicas
    rw [hrs] at hreplicas hreplicas'
    refine syncAll_alike (S := S) (hrs ▸ w.cfg.nodup_uniqueReplicas order) hreplicas hreplicas'
      (fun r' hr' => ?_) hne
    have hnot := hfirst order rs₁ rs₂ (hpassed.mem.mpr (by simp)) hrs r' hr'
    rw [← hpassed.entriesOf_replica, ← hpassed'.entriesOf_replica]
    exact ⟨(hfree.replica r').answers hnot, hfree.replica' r'⟩

/-- Fail-stop. Without `continueOnError`, once a call to a replica has failed (the status
before a setup aside) the run is not about this replica any more. What it was asked up to then
is the beginning of what it is asked in the run without the failures, where the documents of
the origin are settled or no replica before it has a failing call. And all replicas are
processed, unless a field that is dereferenced is absent. -/
theorem Worker.sync_failStop (w : Worker) (hcoe : w.cfg.continueOnError = false)
    {tr : Trace Event Reply} {out : Option Unit} (h : Prog.Runs w.sync tr out) :
    (∀ r pre x post, entriesOf (.replica r) tr = pre ++ x :: post → Failed x →
      ¬SetupStatus r pre x → post = [] ∧
        ∀ S tr', w.WithoutFailures S tr tr' →
          ((∀ q d, ⟨.read .origin q, .ok d⟩ ∈ tr → Settled w.cfg q d) ∨ w.FirstToFail r tr) →
            (pre ++ [x]).map Sigma.fst <+: (entriesOf (.replica r) tr').map Sigma.fst) ∧
    ((∀ x ∈ tr, Supplied w.cfg x) → ∀ order, ⟨.rangeReplicas, order⟩ ∈ tr →
      ∀ r ∈ w.cfg.uniqueReplicas order, ∃ before seg after o,
        w.Processing r tr before seg after o) := by
  refine ⟨fun r pre x post hsplit hx hsetup => ⟨w.entriesOf_halts hcoe h hsplit hx hsetup,
    fun S tr' hfree hcond => ?_⟩,
    fun hsupplied order horder r hr => processing_of_supplied h hsupplied horder hr⟩
  obtain ⟨o, seg, seg', out₁, out₁', hseg, hseg', he, he'⟩ :=
    hfree.exists_segments h (by simp [hsplit]) hcond
  rw [he']
  refine entriesOf_syncTo_prefix hseg hseg' (he ▸ hsplit) hx ?_ (he' ▸ hfree.replica' r)
  -- The calls before the failure are answered by the strategy.
  have hfirst := hfree.replica r
  rw [AnswersBut, hsplit, always_append] at hfirst
  refine hfirst.1.mono fun p y q hpq hy => hy.resolve_right fun hbad => ?_
  have hsplit' : entriesOf (.replica r) tr = p ++ y :: (q ++ x :: post) := by
    rw [hsplit, hpq]
    simp
  have hpost := w.entriesOf_halts hcoe h hsplit' hbad.1 hbad.2
  simp at hpost

/-- A worker that syncs the blocked services and the access lists, to `/b` first. -/
def accessWorker : Worker :=
  sampleWorker { services := true, dns := { accessLists := true } } false ["/a", "/b"]

/-- The services `ids` are blocked at the origin and at `/a`, and none at `/b`. With `failing`
`/b` does not tell its services and `/a` not its access lists. -/
def blockedAt (ids : List String) (failing : Bool) : Scenario where
  doc p q := match p, q with
    | .origin, .blockedServicesGet => .ok { ids := some ids }
    | .replica r, .blockedServicesGet =>
      if r.apiPath = "/a" then .ok { ids := some ids }
      else if failing then .error (.other "unreachable") else .ok {}
    | .replica r, .accessList =>
      if failing ∧ r.apiPath = "/a" then .error (.other "unreachable")
      else .ok (blankDoc .accessList)
    | _, q => .ok (blankDoc q)

/-- The answers of the scenario without the failures. -/
def blockedStrategy (ids : List String) : Strategy Event Reply :=
  fun _ e => ((blockedAt ids false).answer e ()).1

theorem accessWorker_supplied (x : Entry Event Reply) : Supplied accessWorker.cfg x := by
  obtain ⟨e, reply⟩ := x
  cases e with
  | read p q =>
    rcases reply with e | d
    · trivial
    · rintro ⟨a, ha⟩
      cases ha with
      | blockedServicesSchedule | dnsAccessLists => trivial
      | _ h => cases h
  | _ => trivial

/-- The failures are the only difference, and they are at the replicas. -/
theorem blockedAt_doc (ids : List String) (p : Party) (q : Read) :
    (blockedAt ids true).doc p q = (blockedAt ids false).doc p q ∨
      p ≠ .origin ∧ (blockedAt ids true).doc p q = .error (.other "unreachable") := by
  cases p with
  | origin => exact Or.inl (by cases q <;> rfl)
  | replica r =>
    cases q with
    | blockedServicesGet =>
      by_cases ha : r.apiPath = "/a"
      · exact Or.inl (by simp [blockedAt, ha])
      · exact Or.inr ⟨nofun, by simp [blockedAt, ha]⟩
    | accessList =>
      by_cases ha : r.apiPath = "/a"
      · exact Or.inr ⟨nofun, by simp [blockedAt, ha]⟩
      · exact Or.inl (by simp [blockedAt, ha])
    | _ => exact Or.inl rfl

/-- No status of the scenario asks for the setup. -/
theorem not_setupStatus {ids : List String} {failing : Bool} {r : AdGuardInstance}
    {hist : Trace Event Reply} {x : Entry Event Reply}
    (hx : x ∈ (blockedAt ids failing).trace accessWorker.sync) : ¬SetupStatus r hist x := by
  rintro ⟨-, rfl, -⟩
  cases (blockedAt ids failing).reply_eq hx

theorem blockedAt_withoutFailures (ids : List String) :
    accessWorker.WithoutFailures (fun _ => blockedStrategy ids)
      ((blockedAt ids true).trace accessWorker.sync)
      ((blockedAt ids false).trace accessWorker.sync) where
  runs := ⟨_, (blockedAt ids false).runs _⟩
  enters h := by cases (blockedAt ids false).reply_eq h
  order order order' h h' :=
    ((blockedAt ids true).reply_eq h).trans ((blockedAt ids false).reply_eq h').symm
  origin := always_of_forall fun x hx _ => by
    obtain ⟨hx, hparty⟩ := List.mem_filter.mp hx
    have hreply := (blockedAt ids true).reply_eq hx
    obtain ⟨e, reply⟩ := x
    cases e with
    | read p q =>
      rcases blockedAt_doc ids p q with hdoc | ⟨hne, -⟩
      · exact hreply.trans hdoc
      · exact absurd (by simpa [Event.party] using hparty) hne
    | _ => exact hreply
  origin' := always_of_forall fun x hx _ =>
    (blockedAt ids false).reply_eq (List.mem_filter.mp hx).1
  replica r := always_of_forall fun x hx hist => by
    obtain ⟨hx, -⟩ := List.mem_filter.mp hx
    have hreply := (blockedAt ids true).reply_eq hx
    have hsetup : ¬SetupStatus r hist x := not_setupStatus hx
    obtain ⟨e, reply⟩ := x
    cases e with
    | read p q =>
      rcases blockedAt_doc ids p q with hdoc | ⟨-, hdoc⟩
      · exact Or.inl (hreply.trans hdoc)
      · obtain rfl : reply = .error _ := hreply.trans hdoc
        exact Or.inr ⟨trivial, hsetup⟩
    | _ => exact Or.inl hreply
  replica' r := always_of_forall fun x hx _ =>
    (blockedAt ids false).reply_eq (List.mem_filter.mp hx).1
  supplied x _ := accessWorker_supplied x

/-- No call fails in the run without the failures. -/
theorem blockedAt_not_failed {ids : List String} {x : Entry Event Reply}
    (hx : x ∈ (blockedAt ids false).trace accessWorker.sync) : ¬Failed x := by
  have hreply := (blockedAt ids false).reply_eq hx
  obtain ⟨e, reply⟩ := x
  cases e with
  | read p q =>
    have hdoc : ∃ d, (blockedAt ids false).doc p q = .ok d := by
      rcases p with _ | r <;> cases q <;> first
        | exact ⟨_, rfl⟩
        | exact ⟨_, (apply_ite Except.ok _ _ _).symm⟩
    obtain ⟨d, hd⟩ := hdoc
    obtain rfl : reply = .ok d := hreply.trans hd
    exact id
  | write p wr =>
    obtain rfl : reply = .ok () := hreply
    exact id
  | _ => exact id

/-- Both replicas fail, `/b` first, and the services are sorted : what `/a` is asked up to its
failure is the beginning of what it is asked without the failures, and it is left alone from
there. Both are processed. -/
theorem Worker.sync_failStop_sample : ∃ tr tr' out pre x, Prog.Runs accessWorker.sync tr out ∧
    FailsAt (sampleReplica "/b") tr ∧ Failed x ∧ (∀ y ∈ tr', ¬Failed y) ∧
    entriesOf (.replica (sampleReplica "/a")) tr = pre ++ [x] ∧
    (pre ++ [x]).map Sigma.fst <+:
      (entriesOf (.replica (sampleReplica "/a")) tr').map Sigma.fst ∧
    ∀ path ∈ ["/a", "/b"], ∃ before seg after o,
      accessWorker.Processing (sampleReplica path) tr before seg after o := by
  have hruns := (blockedAt ["a", "b"] true).runs accessWorker.sync
  obtain ⟨hhalts, hothers⟩ := accessWorker.sync_failStop rfl hruns
  have hb : (entriesOf (.replica (sampleReplica "/b"))
      ((blockedAt ["a", "b"] true).trace accessWorker.sync))[2]? =
      some (⟨.read (.replica (sampleReplica "/b")) .blockedServicesGet,
        .error (.other "unreachable")⟩ : Entry Event Reply) := rfl
  have ha : (entriesOf (.replica (sampleReplica "/a"))
      ((blockedAt ["a", "b"] true).trace accessWorker.sync))[3]? =
      some (⟨.read (.replica (sampleReplica "/a")) .accessList,
        .error (.other "unreachable")⟩ : Entry Event Reply) := rfl
  have hsplit := Scenario.split ha
  have hsetup : ∀ {r q pre}, ¬SetupStatus r pre
      (⟨.read (.replica r) q, .error (.other "unreachable")⟩ : Entry Event Reply) := by
    rintro r q pre ⟨-, he, -⟩
    cases he
  have hfailed : Failed (⟨.read (.replica (sampleReplica "/a")) .accessList,
      .error (.other "unreachable")⟩ : Entry Event Reply) := trivial
  obtain ⟨hpost, hfirst⟩ := hhalts _ _ _ _ hsplit hfailed hsetup
  have hprefix := hfirst _ _ (blockedAt_withoutFailures ["a", "b"]) <| Or.inl fun q d hd => by
    have hreply := (blockedAt ["a", "b"] true).reply_eq hd
    cases q with
    | blockedServicesGet =>
      obtain rfl := Except.ok.inj hreply
      rintro - l ⟨⟩
      decide
    | accessList =>
      obtain rfl := Except.ok.inj hreply
      exact fun _ => ⟨nofun, nofun, nofun⟩
    | clients => exact nofun
    | _ => trivial
  rw [hpost] at hsplit
  have horder : ((blockedAt ["a", "b"] true).trace accessWorker.sync)[16]? =
      some (⟨.rangeReplicas, .stored⟩ : Entry Event Reply) := rfl
  have hfails : FailsAt (sampleReplica "/b") ((blockedAt ["a", "b"] true).trace
      accessWorker.sync) := ⟨_, _, _, Scenario.split hb, trivial, hsetup⟩
  refine ⟨_, _, _, _, _, hruns, hfails, hfailed, fun y hy => blockedAt_not_failed hy, hsplit,
    hprefix, fun path hpath => ?_⟩
  refine hothers (fun x _ => accessWorker_supplied x) .stored (List.mem_of_getElem? horder) _ ?_
  revert path
  decide

/-- With unsorted services `/a` is not written to while `/b` fails before it, and written to
before its access lists where nothing fails : sending the services to `/b` sorts them at the
snapshot. -/
theorem Worker.exists_not_failStop : ∃ (w : Worker) (S : Party → Strategy Event Reply)
    (tr tr' : Trace Event Reply) (out : Option Unit) (r : AdGuardInstance)
    (pre : Trace Event Reply) (x : Entry Event Reply) (post : Trace Event Reply),
    w.cfg.continueOnError = false ∧ Prog.Runs w.sync tr out ∧ w.WithoutFailures S tr tr' ∧
      (∀ y ∈ tr', ¬Failed y) ∧ entriesOf (.replica r) tr = pre ++ x :: post ∧ Failed x ∧
      ¬SetupStatus r pre x ∧
      ¬(pre ++ [x]).map Sigma.fst <+: (entriesOf (.replica r) tr').map Sigma.fst := by
  have hruns := (blockedAt ["b", "a"] true).runs accessWorker.sync
  have ha : (entriesOf (.replica (sampleReplica "/a"))
      ((blockedAt ["b", "a"] true).trace accessWorker.sync))[3]? =
      some (⟨.read (.replica (sampleReplica "/a")) .accessList,
        .error (.other "unreachable")⟩ : Entry Event Reply) := rfl
  refine ⟨accessWorker, _, _, _, _, _, _, _, _, rfl, hruns, blockedAt_withoutFailures ["b", "a"],
    fun y hy => blockedAt_not_failed hy, Scenario.split ha, trivial, ?_, ?_⟩
  · rintro ⟨-, he, -⟩
    cases he
  · rintro ⟨s, hs⟩
    have hthird := congrArg (·[3]?) hs
    cases hthird

end AghSync
