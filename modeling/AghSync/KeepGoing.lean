import AghSync.Plan
import AghSync.Scenario

/-!
# Keeping on after a failure

With `continueOnError` a failed write should cost nothing but itself : what is issued when
writes fail is compared with what is issued when none does, from the same snapshot and with
the same script. An action is cut short by a failure that it does not pass over, unless that
was the last write of its plan (`issued_eq_iff`). The other actions are not affected
(`runActions_keeps`), so that all planned writes are issued if and only if the rewrites and the
filters are spared from such failures (`Spared`).
-/

open Interaction Interaction.Prog

namespace AghSync

open Model Worker

/-! ## Lists and traces -/

/-- Two lists with the same number of each element of the second, where the first parts
share nothing with the rest. -/
theorem count_append_iff {α : Type} [DecidableEq α] {A A₀ B B₀ : List α} (hA : A <+: A₀)
    (hB₀ : ∀ x ∈ A₀, x ∉ B₀) (hB : ∀ x ∈ A₀, x ∉ B) :
    (∀ x ∈ A₀ ++ B₀, (A ++ B).count x = (A₀ ++ B₀).count x) ↔
      A = A₀ ∧ ∀ x ∈ B₀, B.count x = B₀.count x := by
  constructor
  · intro h
    have hAeq : A = A₀ := by
      obtain ⟨C, rfl⟩ := hA
      cases C with
      | nil => simp
      | cons x C =>
        have hx := h x (by simp)
        rw [List.count_append, List.count_append, List.count_append,
          List.count_eq_zero_of_not_mem (hB x (by simp)), List.count_cons_self] at hx
        omega
    subst hAeq
    refine ⟨rfl, fun x hx => ?_⟩
    have hcount := h x (by simp [hx])
    rw [List.count_append, List.count_append] at hcount
    omega
  · rintro ⟨rfl, h⟩ x hx
    rw [List.count_append, List.count_append]
    rcases List.mem_append.mp hx with hx | hx
    · rw [List.count_eq_zero_of_not_mem (hB x hx), List.count_eq_zero_of_not_mem (hB₀ x hx)]
    · rw [h x hx]

/-! ## Sparing a plan -/

/-- The answer to the `n`-th issue of a write, given `n` and the write. -/
abbrev Answering := Write → ℕ → Except Err Unit

/-- The writes are answered by `reply`. -/
def Replied (reply : Answering) (hist : Trace Event Reply) : Entry Event Reply → Prop
  | ⟨.write _ wr, d⟩ => d = reply wr ((issued hist).count wr)
  | _ => True

/-- No failure ends the plan before its last write. -/
def Spares (reply : Answering) (P : List Write) : Prop :=
  ∀ pre wr post e, P = pre ++ wr :: post → wr.tolerable = false →
    reply wr (pre.count wr) = .error e → post = []

theorem spares_of_tolerable {reply : Answering} {P : List Write}
    (h : ∀ wr ∈ P.dropLast, wr.tolerable = true) : Spares reply P := by
  rintro pre wr post e rfl hstrict -
  cases post with
  | nil => rfl
  | cons wr' post =>
    have htolerable := h wr (by simp [List.dropLast_append_of_ne_nil])
    rw [hstrict] at htolerable
    cases htolerable

section Cut

variable {sc : Script} {reply : Answering} {hist t : Trace Event Reply} {P : List Write}

/-- The `n`-th issue of a write of a plan gets the `n`-th answer. -/
theorem reply_of_split {t₁ t₂ : Trace Event Reply} {p : Party} {wr : Write}
    {d : Except Err Unit} (hreply : Always (Replied reply) hist (t₁ ++ ⟨.write p wr, d⟩ :: t₂))
    (hfresh : wr ∉ issued hist) : d = reply wr ((issued t₁).count wr) := by
  have hd : d = reply wr ((issued (hist ++ t₁)).count wr) := hreply.at
  rw [issued_append, List.count_append, List.count_eq_zero_of_not_mem hfresh, zero_add] at hd
  exact hd

/-- Under a script only a write can be fatal. -/
theorem Fatal.exists_write {x : Entry Event Reply} (h : Fatal true x) (hs : Scripted sc hist x) :
    ∃ p wr e, x = ⟨.write p wr, .error e⟩ ∧ wr.tolerable = false := by
  obtain ⟨hfailed, hstrict⟩ := h
  obtain ⟨e, d⟩ := x
  cases e with
  | read p q =>
    obtain rfl : d = .ok _ := hs
    exact hfailed.elim
  | write p wr =>
    rcases d with e | _
    · exact ⟨p, wr, e, rfl, hstrict rfl⟩
    · exact hfailed.elim
  | _ => exact hfailed.elim

/-- What stops at the first failure it does not pass over issues its whole plan if and only if
the plan is spared. -/
theorem issued_eq_iff {out : Act.Outcome Origin Err Unit} (hstops : Act.Stopped (Fatal true) t out)
    (hs : Always (Scripted sc) hist t) (hreply : Always (Replied reply) hist t)
    (hfresh : ∀ wr ∈ P, wr ∉ issued hist)
    (hcases : issued t = P ∨ issued t <+: P ∧ ∃ e o, out = some (.error e, o)) :
    issued t = P ↔ Spares reply P := by
  constructor
  · rintro rfl pre wr post e hP hstrict herr
    obtain ⟨t₁, p, d, t₂, rfl, rfl, rfl⟩ := exists_entry_of_issued hP
    have hd := reply_of_split hreply (hfresh wr (by rw [hP]; simp))
    have hfatal : Fatal true (⟨.write p wr, d⟩ : Entry Event Reply) := by
      rw [hd, herr]
      exact ⟨trivial, fun _ => hstrict⟩
    rw [hstops.eq_nil rfl hfatal]
    rfl
  · intro hspares
    rcases hcases with hP | ⟨hP, e, o, rfl⟩
    · exact hP
    · cases hstops with
      | clean _ hout => exact absurd rfl (hout e o)
      | @failed t x _ _ _ hfatal =>
        obtain ⟨p, wr, e, rfl, hstrict⟩ := hfatal.exists_write hs.at
        rw [issued_append] at hP ⊢
        obtain ⟨post, hpost⟩ := hP
        have hsplit : P = issued t ++ wr :: post := by
          rw [← hpost, List.append_assoc]
          rfl
        have hd := reply_of_split hreply (hfresh wr (by rw [hsplit]; simp))
        rw [hsplit, hspares _ _ _ e hsplit hstrict hd.symm]
        rfl

end Cut

/-- Where the pass `tr` on `p` gets to the rewrites and to the filters, their plans are
spared. -/
structure Spared (reply : Answering) (sc : Script) (p : Party) (o : Origin)
    (tr : Trace Event Reply) : Prop where
  rewrites : ∀ d, (⟨.read p .rewriteList, .ok d⟩ : Entry Event Reply) ∈ tr →
    Spares reply (rewritesPlan d o.rewrites (sc.order .rewrites))
  filters : ∀ d, (⟨.read p .filteringStatus, .ok d⟩ : Entry Event Reply) ∈ tr →
    Spares reply (filtersPlan d o.filters fun whitelist => sc.order (.filters whitelist))

section Spared

variable {sc : Script} {reply : Answering} {p : Party} {o : Origin} {hist t : Trace Event Reply}

theorem spared_append {t₁ t₂ : Trace Event Reply} :
    Spared reply sc p o (t₁ ++ t₂) ↔ Spared reply sc p o t₁ ∧ Spared reply sc p o t₂ := by
  constructor
  · rintro ⟨hrewrites, hfilters⟩
    exact ⟨⟨fun d hd => hrewrites d (List.mem_append_left _ hd),
        fun d hd => hfilters d (List.mem_append_left _ hd)⟩,
      ⟨fun d hd => hrewrites d (List.mem_append_right _ hd),
        fun d hd => hfilters d (List.mem_append_right _ hd)⟩⟩
  · rintro ⟨⟨hrewrites₁, hfilters₁⟩, ⟨hrewrites₂, hfilters₂⟩⟩
    exact ⟨fun d hd => (List.mem_append.mp hd).elim (hrewrites₁ d) (hrewrites₂ d),
      fun d hd => (List.mem_append.mp hd).elim (hfilters₁ d) (hfilters₂ d)⟩

theorem spared_congr {o' : Origin} (hrewrites : o'.rewrites = o.rewrites)
    (hfilters : o'.filters = o.filters) :
    Spared reply sc p o' t ↔ Spared reply sc p o t := by
  constructor
  · rintro ⟨h₁, h₂⟩
    exact ⟨hrewrites ▸ h₁, hfilters ▸ h₂⟩
  · rintro ⟨h₁, h₂⟩
    exact ⟨hrewrites ▸ h₁, hfilters ▸ h₂⟩

/-- What is not about the rewrites or the filters is spared. -/
theorem spared_of_ne (h : ∀ q, (∃ p d, (⟨.read p q, d⟩ : Entry Event Reply) ∈ t) →
    q ≠ .rewriteList ∧ q ≠ .filteringStatus) : Spared reply sc p o t where
  rewrites _ hd := absurd rfl (h _ ⟨_, _, hd⟩).1
  filters _ hd := absurd rfl (h _ ⟨_, _, hd⟩).2

theorem spared_of_readings (h : readings t = []) : Spared reply sc p o t := by
  refine spared_of_ne fun q ⟨p', d, hd⟩ => ?_
  have hq : q ∈ readings t := List.mem_filterMap.mpr ⟨_, hd, rfl⟩
  rw [h] at hq
  cases hq

/-- A document that is read once is the one of the script. -/
theorem mem_reading_iff {name : String} {q : Read} {d : Doc q} (hreads : readings t = [q])
    (hown : ∀ x ∈ t, Own p name q x.1) (hs : Always (Scripted sc) hist t) :
    (⟨.read p q, .ok d⟩ : Entry Event Reply) ∈ t ↔ d = sc.doc q ((readings hist).count q) := by
  have hdoc : ∀ {d'}, (⟨.read p q, d'⟩ : Entry Event Reply) ∈ t →
      d' = .ok (sc.doc q ((readings hist).count q)) := by
    intro d' hd
    obtain ⟨pre, post, rfl⟩ := List.append_of_mem hd
    have hat : d' = .ok (sc.doc q ((readings (hist ++ pre)).count q)) := hs.at
    have hsplit : readings pre ++ q :: readings post = [q] := by
      rw [← hreads, readings_append]
      rfl
    cases hpre : readings pre with
    | nil => rw [hat, readings_append, hpre, List.append_nil]
    | cons q' qs =>
      rw [hpre] at hsplit
      simp at hsplit
  constructor
  · intro hd
    exact Except.ok.inj (hdoc hd)
  · rintro rfl
    have hq : q ∈ readings t := by simp [hreads]
    obtain ⟨⟨e, d'⟩, hmem, he⟩ := List.mem_filterMap.mp hq
    have hown' := hown _ hmem
    cases e with
    | read p' q' =>
      obtain ⟨rfl, rfl⟩ := hown'
      rw [← hdoc hmem]
      exact hmem
    | _ => cases he

/-- The trace of an action is spared if and only if its plan is. -/
theorem spared_iff {name : String} {q : Read} {reads : List Read} {P : List Write}
    (h : Planned sc (readings hist) o q reads P) (hreads : readings t = reads)
    (hown : ∀ x ∈ t, Own p name q x.1) (hs : Always (Scripted sc) hist t) :
    Spared reply sc p o t ↔ Spares reply P := by
  have hread : ∀ q', (∃ p d, (⟨.read p q', d⟩ : Entry Event Reply) ∈ t) → q' = q :=
    fun q' ⟨_, _, hd⟩ => (hown _ hd).2
  cases h with
  | rewrites =>
    constructor
    · intro hspared
      exact hspared.rewrites _ ((mem_reading_iff hreads hown hs).mpr rfl)
    · intro hspares
      refine ⟨fun d hd => ?_, fun d hd => (nomatch hread _ ⟨_, _, hd⟩)⟩
      rw [(mem_reading_iff hreads hown hs).mp hd]
      exact hspares
  | filters =>
    constructor
    · intro hspared
      exact hspared.filters _ ((mem_reading_iff hreads hown hs).mpr rfl)
    · intro hspares
      refine ⟨fun d hd => (nomatch hread _ ⟨_, _, hd⟩), fun d hd => ?_⟩
      rw [(mem_reading_iff hreads hown hs).mp hd]
      exact hspares
  | other hrewrites hfilters hP =>
    refine iff_of_true (spared_of_ne fun q' hq' => ?_) (spares_of_tolerable hP)
    rw [hread q' hq']
    exact ⟨hrewrites, hfilters⟩

end Spared

/-! ## The actions -/

/-- The writes of an action are its own. -/
theorem Enabled.action_eq {cfg : Config} {a : SyncAction} {q : Read} (h : Enabled cfg a q)
    {ac : ActionContext} {o : Origin} {t : Trace Event Reply} {out : Act.Outcome Origin Err Unit}
    (hrun : Prog.Runs (a.sync ac o) t out) : ∀ wr ∈ issued t, wr.action = a.name := by
  intro wr hwr
  obtain ⟨p, d, hmem⟩ := exists_mem_of_issued hwr
  exact (hrun.of_only (h.staged ac o).only _ hmem).2

/-- No action touches the rewrites and the filters of the snapshot. -/
theorem Enabled.lists_eq {cfg : Config} {a : SyncAction} {q : Read} (h : Enabled cfg a q)
    {ac : ActionContext} {o o' : Origin} {t : Trace Event Reply} {r : Except Err Unit}
    (hrun : Prog.Runs (a.sync ac o) t (some (r, o'))) :
    o'.rewrites = o.rewrites ∧ o'.filters = o.filters := by
  have hstaged := h.stagedIn ac o (fun q _ => q ≠ .rewriteList ∧ q ≠ .filteringStatus)
    (fun _ _ _ => ⟨nofun, nofun⟩) (fun _ _ _ _ _ _ _ _ => ⟨nofun, nofun⟩)
    fun _ _ _ _ => ⟨nofun, nofun⟩
  rcases hstaged.snapshot hrun with rfl | ⟨a, ⟨hrewrites, hfilters⟩, rfl⟩
  · exact ⟨rfl, rfl⟩
  · exact ⟨Origin.load_save_of_ne hrewrites.symm o a, Origin.load_save_of_ne hfilters.symm o a⟩

/-- An action with failing writes, beside the action without. -/
theorem Enabled.keeps {cfg : Config} {a : SyncAction} {q : Read} (henabled : Enabled cfg a q)
    {ac : ActionContext} (hcoe : ac.cfg.continueOnError = true) {sc : Script} {reply : Answering}
    {o : Origin} {hist₀ hist t₀ t : Trace Event Reply} {out₀ out : Act.Outcome Origin Err Unit}
    (hreads : readings hist₀ = readings hist) (hfresh : ∀ wr ∈ issued hist, wr.action ≠ a.name)
    (h₀ : Prog.Runs (a.sync ac o) t₀ out₀) (hs₀ : Always (Scripted sc) hist₀ t₀)
    (hgood : ∀ x ∈ t₀, ¬Failed x) (h : Prog.Runs (a.sync ac o) t out)
    (hs : Always (Scripted sc) hist t) (hreply : Always (Replied reply) hist t) :
    readings t₀ = readings t ∧ issued t <+: issued t₀ ∧
      (issued t = issued t₀ ↔ Spared reply sc ac.client.party o t₀) ∧
      ∀ r₀ o', out₀ = some (r₀, o') → ∃ r, out = some (r, o') := by
  obtain ⟨reads, P, fin, hfollows, hplanned⟩ := henabled.follows ac sc (readings hist) o
  have hstaged := henabled.staged ac o
  rw [hcoe] at hstaged
  obtain ⟨hr₀, ⟨rfl, ho₀⟩ | ⟨-, e, o', ho₀, -⟩⟩ := hfollows _ _ _ hreads h₀ hs₀
  · obtain ⟨hr, hcases⟩ := hfollows _ _ _ rfl h hs
    have hprefix : issued t <+: issued t₀ := by
      rcases hcases with ⟨hP, -⟩ | ⟨hP, -⟩
      · rw [hP]
      · exact hP
    have hspared : issued t = issued t₀ ↔ Spared reply sc ac.client.party o t₀ := by
      rw [← hreads] at hplanned
      rw [spared_iff hplanned hr₀ (h₀.of_only hstaged.only) hs₀]
      refine issued_eq_iff (hstaged.stopsAt _ _ h) hs hreply
        (fun wr hwr hmem => hfresh wr hmem (henabled.action_eq h₀ wr hwr)) ?_
      exact hcases.imp And.left fun ⟨hP, e, o', ho, _⟩ => ⟨hP, e, o', ho⟩
    have hsnapshot : ∀ r₀ o', out₀ = some (r₀, o') → ∃ r, out = some (r, o') := by
      intro r₀ o' ho'
      rw [ho₀] at ho'
      obtain ⟨o₁, rfl, hfin⟩ := Option.map_eq_some_iff.mp ho'
      obtain ⟨-, rfl⟩ := Prod.mk.inj hfin
      rcases hcases with ⟨-, ho⟩ | ⟨-, e, o₂, ho, hfin⟩
      · exact ⟨.ok (), ho⟩
      · obtain rfl := hfin o₁ rfl
        exact ⟨.error e, ho⟩
    exact ⟨hr₀.trans hr.symm, hprefix, hspared, hsnapshot⟩
  · exfalso
    subst ho₀
    cases hstaged.stopsAt _ _ h₀ with
    | clean _ hout => exact hout e o' rfl
    | @failed _ x _ _ _ hfatal => exact hgood x (by simp) hfatal.1

/-- What comes after an action with the outcome `r` : the other actions `as`, from the snapshot
it left, or nothing after a crash. -/
inductive Continued (ac : ActionContext) (as : List SyncAction) :
    Act.Outcome Origin Err Unit → Trace Event Reply → Option Work → Prop
  | next {res : Except Err Unit} {o : Origin} {withError : Bool} {tr : Trace Event Reply}
      {out : Option Work} (h : Prog.Runs (runActions ac as withError o) tr out) :
      Continued ac as (some (res, o)) tr out
  | crashed (out : Option Work) : Continued ac as none [] out

section Loop

variable {ac : ActionContext} (hcoe : ac.cfg.continueOnError = true)
include hcoe

/-- With `continueOnError` only a crash keeps the other actions from running. -/
theorem runs_runActions_of_continueOnError {a : SyncAction} {as : List SyncAction}
    {withError : Bool} {o : Origin} {tr : Trace Event Reply} {out : Option Work}
    (h : Prog.Runs (runActions ac (a :: as) withError o) tr out) :
    ∃ t₁ r t₂, tr = t₁ ++ t₂ ∧ Prog.Runs (a.sync ac o) t₁ r ∧ Continued ac as r t₂ out := by
  rcases runs_runActions_cons h with ⟨t₁, o', t₂, rfl, h₁, h₂⟩ |
    ⟨t₁, e, o', t₂, rfl, h₁, -, h₂⟩ | ⟨_, _, -, hfalse, -⟩ | ⟨h₁, -⟩
  · exact ⟨t₁, _, t₂, rfl, h₁, .next h₂⟩
  · exact ⟨t₁, _, t₂, rfl, h₁, .next h₂⟩
  · rw [hcoe] at hfalse
    cases hfalse
  · exact ⟨tr, _, [], (List.append_nil tr).symm, h₁, .crashed out⟩

/-- The actions only send their own writes. -/
theorem action_mem_of_issued {cfg : Config} : ∀ {as : List SyncAction} {withError : Bool}
    {o : Origin} {tr : Trace Event Reply} {out : Option Work}, as ⊆ setupActions cfg →
    Prog.Runs (runActions ac as withError o) tr out →
      ∀ wr ∈ issued tr, wr.action ∈ as.map SyncAction.name
  | [], _, _, _, _, _, h, wr, hwr => by
    obtain ⟨rfl, -⟩ := runs_runActions_nil.mp h
    cases hwr
  | a :: as, _, _, _, _, has, h, wr, hwr => by
    obtain ⟨ha, has'⟩ := List.cons_subset.mp has
    obtain ⟨q, henabled⟩ := exists_enabled ha
    obtain ⟨t₁, r, t₂, rfl, h₁, hrest⟩ := runs_runActions_of_continueOnError hcoe h
    rw [issued_append] at hwr
    rcases List.mem_append.mp hwr with hwr | hwr
    · simp [henabled.action_eq h₁ wr hwr]
    · cases hrest with
      | next h₂ => exact List.mem_cons_of_mem _ (action_mem_of_issued has' h₂ wr hwr)
      | crashed => cases hwr

/-- An action shares no write with those after it. -/
theorem Continued.notMem_issued {cfg : Config} {a : SyncAction} {as : List SyncAction} {q : Read}
    {o : Origin} {t t' : Trace Event Reply} {r r' : Act.Outcome Origin Err Unit}
    {out : Option Work} (h : Continued ac as r t' out) (has : as ⊆ setupActions cfg)
    (henabled : Enabled cfg a q) (hname : a.name ∉ as.map SyncAction.name)
    (hrun : Prog.Runs (a.sync ac o) t r') : ∀ wr ∈ issued t, wr ∉ issued t' := by
  intro wr hwr hwr'
  cases h with
  | next h' =>
    refine hname ?_
    rw [← henabled.action_eq hrun wr hwr]
    exact action_mem_of_issued hcoe has h' wr hwr'
  | crashed => cases hwr'

/-- The actions issue all writes of a run without failures if and only if that run is
spared. -/
theorem runActions_keeps {cfg : Config} {sc : Script} {reply : Answering} :
    ∀ {as : List SyncAction} {withError₀ withError : Bool} {o : Origin}
      {hist₀ hist tr₀ tr : Trace Event Reply} {out₀ out : Option Work}, as ⊆ setupActions cfg →
      (as.map SyncAction.name).Nodup → readings hist₀ = readings hist →
      (∀ wr ∈ issued hist, wr.action ∉ as.map SyncAction.name) →
      Prog.Runs (runActions ac as withError₀ o) tr₀ out₀ → Always (Scripted sc) hist₀ tr₀ →
      (∀ x ∈ tr₀, ¬Failed x) → Prog.Runs (runActions ac as withError o) tr out →
      Always (Scripted sc) hist tr → Always (Replied reply) hist tr →
        ((∀ wr ∈ issued tr₀, (issued tr).count wr = (issued tr₀).count wr) ↔
          Spared reply sc ac.client.party o tr₀)
  | [], _, _, _, _, _, _, _, _, _, _, _, _, _, h₀, _, _, _, _, _ => by
    obtain ⟨rfl, -⟩ := runs_runActions_nil.mp h₀
    exact iff_of_true (by simp [issued, sent]) (spared_of_readings rfl)
  | a :: as, _, _, o, hist₀, hist, _, _, _, _, has, hnodup, hreads, hfresh, h₀, hs₀, hgood, h, hs,
      hreply => by
    obtain ⟨ha, has'⟩ := List.cons_subset.mp has
    obtain ⟨q, henabled⟩ := exists_enabled ha
    obtain ⟨hname, hnodup'⟩ := List.nodup_cons.mp hnodup
    obtain ⟨t₀, r₀, t₀', rfl, h₀₁, hrest₀⟩ := runs_runActions_of_continueOnError hcoe h₀
    obtain ⟨t, r, t', rfl, h₁, hrest⟩ := runs_runActions_of_continueOnError hcoe h
    obtain ⟨hs₀₁, hs₀₂⟩ := always_append.mp hs₀
    obtain ⟨hs₁, hs₂⟩ := always_append.mp hs
    obtain ⟨hreply₁, hreply₂⟩ := always_append.mp hreply
    obtain ⟨hreads', hprefix, hiff, hout⟩ := henabled.keeps hcoe hreads
      (fun wr hwr heq => hfresh wr hwr (by simp [heq])) h₀₁ hs₀₁
      (fun x hx => hgood x (by simp [hx])) h₁ hs₁ hreply₁
    have hlater₀ := hrest₀.notMem_issued hcoe has' henabled hname h₀₁
    have hlater := hrest.notMem_issued hcoe has' henabled hname h₀₁
    have hfresh' : ∀ wr ∈ issued (hist ++ t), wr.action ∉ as.map SyncAction.name := by
      intro wr hwr hmem
      rw [issued_append] at hwr
      rcases List.mem_append.mp hwr with hwr | hwr
      · exact hfresh wr hwr (List.mem_cons_of_mem _ hmem)
      · rw [henabled.action_eq h₁ wr hwr] at hmem
        exact hname hmem
    have hrests : (∀ wr ∈ issued t₀', (issued t').count wr = (issued t₀').count wr) ↔
        Spared reply sc ac.client.party o t₀' := by
      cases hrest₀ with
      | next h₀₂ =>
        obtain ⟨res, rfl⟩ := hout _ _ rfl
        obtain ⟨hrewrites, hfilters⟩ := henabled.lists_eq h₀₁
        cases hrest with
        | next h₂ =>
          rw [← spared_congr hrewrites hfilters]
          refine runActions_keeps has' hnodup' ?_ hfresh' h₀₂ hs₀₂
            (fun x hx => hgood x (by simp [hx])) h₂ hs₂ hreply₂
          rw [readings_append, readings_append, hreads, hreads']
      | crashed => exact iff_of_true (by simp [issued, sent]) (spared_of_readings rfl)
    rw [issued_append, issued_append, count_append_iff hprefix hlater₀ hlater, hiff, hrests,
      spared_append]

end Loop

/-- All features are on. -/
def allFeatures : Features where
  dns := { accessLists := true, serverConfig := true, rewrites := true }
  dhcp := { serverConfig := true, staticLeases := true }
  generalSettings := true
  queryLogConfig := true
  statsConfig := true
  clientSettings := true
  services := true
  filters := true
  theme := true
  tlsConfig := true

/-- No two actions have one name. -/
theorem nodup_setupActions (cfg : Config) :
    ((setupActions cfg).map SyncAction.name).Nodup := by
  have hsublist :
      (setupActions cfg).Sublist (setupActions { origin := {}, features := allFeatures }) := by
    unfold setupActions
    repeat' refine List.Sublist.append ?_ ?_
    all_goals
      split
      · exact List.Sublist.refl _
      · exact List.nil_sublist _
  exact List.Nodup.sublist (hsublist.map SyncAction.name) (by decide)

/-! ## A replica -/

section Replica

variable (w : Worker) {sc : Script} {reply : Answering} {r : AdGuardInstance} {o : Origin}

/-- Under a script the status is read once. -/
theorem Worker.Connected.of_scripted {p : Party} {t : Trace Event Reply}
    {d : Except Err ServerStatus} (h : Connected r p t d) {hist : Trace Event Reply}
    (hs : Always (Scripted sc) hist t) :
    t = [⟨.read p .status, .ok (sc.doc .status ((readings hist).count .status))⟩] ∧
      d = .ok (sc.doc .status ((readings hist).count .status)) := by
  cases h with
  | answered st =>
    obtain rfl := Except.ok.inj hs.1
    exact ⟨rfl, rfl⟩
  | failed he => cases hs.1
  | setupFailed cfg e hauto => cases hs.1
  | setUp cfg d hauto => cases hs.1

/-- Under a script the work is the status, and the actions if the version is supported. -/
theorem Worker.runs_work_of_scripted {rc : Client} {hist tr : Trace Event Reply}
    {out : Option Work} (h : Prog.Runs (w.work r rc o) tr out)
    (hs : Always (Scripted sc) hist tr) {st : ServerStatus}
    (hst : st = sc.doc .status ((readings hist).count .status)) :
    ∃ t, tr = ⟨.read rc.party .status, .ok st⟩ :: t ∧
      if w.deps.tooOld st then t = [] else
        Prog.Runs (runActions (w.actionContext r rc st) (setupActions w.cfg) false o) t out := by
  rcases w.runs_work h with ⟨rs, t₁, t₂, rfl, hconn, hversion, hacts⟩ | ⟨d, hconn, hversion, -⟩
  · obtain ⟨rfl, hd⟩ := hconn.of_scripted (always_append.mp hs).1
    obtain rfl : rs = st := (Except.ok.inj hd).trans hst.symm
    refine ⟨t₂, by rw [hst]; rfl, ?_⟩
    rw [hversion]
    exact hacts
  · obtain ⟨rfl, hd⟩ := hconn.of_scripted hs
    refine ⟨[], by rw [hst], ?_⟩
    rw [hversion st (by rw [hd, hst])]
    exact rfl

/-- The work on a replica, without failures and with. -/
theorem Worker.work_keeps (hcoe : w.cfg.continueOnError = true) {rc : Client}
    {hist₀ hist tr₀ tr : Trace Event Reply} {out₀ out : Option Work}
    (hreads : readings hist₀ = readings hist) (hfresh : issued hist = [])
    (h₀ : Prog.Runs (w.work r rc o) tr₀ out₀) (hs₀ : Always (Scripted sc) hist₀ tr₀)
    (hgood : ∀ x ∈ tr₀, ¬Failed x) (h : Prog.Runs (w.work r rc o) tr out)
    (hs : Always (Scripted sc) hist tr) (hreply : Always (Replied reply) hist tr) :
    (∀ wr ∈ issued tr₀, (issued tr).count wr = (issued tr₀).count wr) ↔
      Spared reply sc rc.party o tr₀ := by
  obtain ⟨st, hst⟩ : ∃ st, st = sc.doc .status ((readings hist).count .status) := ⟨_, rfl⟩
  obtain ⟨t₀, rfl, hacts₀⟩ := w.runs_work_of_scripted h₀ hs₀ (hst.trans (by rw [hreads]))
  obtain ⟨t, rfl, hacts⟩ := w.runs_work_of_scripted h hs hst
  have hstatus : Spared reply sc rc.party o
      [(⟨.read rc.party .status, .ok st⟩ : Entry Event Reply)] := by
    refine spared_of_ne fun q ⟨p, d, hd⟩ => ?_
    cases List.mem_singleton.mp hd
    exact ⟨nofun, nofun⟩
  have hcons : Spared reply sc rc.party o ([⟨.read rc.party .status, .ok st⟩] ++ t₀) ↔
      Spared reply sc rc.party o t₀ := spared_append.trans (and_iff_right hstatus)
  refine Iff.trans ?_ hcons.symm
  show (∀ wr ∈ issued t₀, (issued t).count wr = (issued t₀).count wr) ↔ _
  have hreads' : readings (hist₀ ++ [⟨.read rc.party .status, .ok st⟩]) =
      readings (hist ++ [⟨.read rc.party .status, .ok st⟩]) := by
    rw [readings_append, readings_append, hreads]
  have hfresh' : issued (hist ++ [⟨.read rc.party .status, .ok st⟩]) = [] := by
    rw [issued_append, hfresh]
    rfl
  split_ifs at hacts₀ hacts
  · subst hacts₀
    exact iff_of_true (by simp [issued, sent]) (spared_of_readings rfl)
  · exact runActions_keeps hcoe (List.Subset.refl _) (nodup_setupActions w.cfg) hreads'
      (by simp [hfresh']) hacts₀ hs₀.2 (fun x hx => hgood x (by simp [hx])) hacts hs.2 hreply.2

/-- Keeping on. With `continueOnError` a pass whose writes may fail issues every write of the
pass without failures, as often as that does, if and only if the rewrites and the filters are
spared : no failure that ends them comes before the last write of their plan. -/
theorem Worker.syncTo_keepsGoing (hcoe : w.cfg.continueOnError = true)
    {tr₀ tr : Trace Event Reply} {out₀ out : Option Origin}
    (h₀ : Prog.Runs (w.syncTo r o) tr₀ out₀) (hs₀ : Always (Scripted sc) [] tr₀)
    (hgood : ∀ x ∈ tr₀, ¬Failed x) (h : Prog.Runs (w.syncTo r o) tr out)
    (hs : Always (Scripted sc) [] tr) (hreply : Always (Replied reply) [] tr) :
    (∀ wr ∈ issued tr₀, (issued tr).count wr = (issued tr₀).count wr) ↔
      Spared reply sc (.replica r) o tr₀ := by
  rcases w.runs_syncTo h₀ with ⟨e, rfl, -⟩ | ⟨start₀, stop₀, body₀, done₀, rfl, hbody₀, -⟩
  · exact iff_of_true (by simp [issued, sent]) (spared_of_readings rfl)
  · rcases w.runs_syncTo h with ⟨e, rfl, -⟩ | ⟨start, stop, body, done, rfl, hbody, -⟩
    · cases hs₀.1.trans hs.1.symm
    · have hissued : ∀ start stop body ok,
          issued (⟨.createClient (.replica r), .ok ()⟩ :: ⟨.now, start⟩ :: ⟨.now, stop⟩ ::
            (body ++ [⟨.updateResult r.host ok (stop - start), ()⟩])) = issued body := by
        intro start stop body ok
        show issued (body ++ _) = issued body
        rw [issued_append]
        exact List.append_nil _
      have hspared : Spared reply sc (.replica r) o
          ([⟨.createClient (.replica r), .ok ()⟩, ⟨.now, start₀⟩, ⟨.now, stop₀⟩] ++
            (body₀ ++ [⟨.updateResult r.host (!done₀.withError) (stop₀ - start₀), ()⟩])) ↔
          Spared reply sc (.replica r) o body₀ := by
        rw [spared_append, spared_append, and_iff_right (spared_of_readings rfl),
          and_iff_left (spared_of_readings rfl)]
      refine Iff.trans ?_ hspared.symm
      rw [hissued, hissued]
      exact w.work_keeps hcoe (by rfl) rfl hbody₀ (always_append.mp hs₀.2.2.2).1
        (fun x hx => hgood x (by simp [hx])) hbody (always_append.mp hs.2.2.2).1
        (always_append.mp hreply.2.2.2).1

end Replica

/-! ## Two rewrites, of which one is rejected -/

/-- A worker that syncs the rewrites, with `continueOnError`. -/
def rewritesWorker : Worker :=
  sampleWorker { dns := { rewrites := true } } true ["/a"]

/-- A rewrite of a domain. -/
def sampleRewrite (domain : String) : RewriteEntry where
  answer := some "10.0.0.1"
  domain := some domain

/-- The snapshot of an origin with two rewrites. -/
def rewritesOrigin : Origin :=
  let blank : Origin := (originReads rewritesWorker.cfg).foldl (fun o q => o.store q (blankDoc q))
    { status := some (blankDoc .status), profileInfo := some {} }
  { blank with rewrites := some [sampleRewrite "a.lan", sampleRewrite "b.lan"] }

/-- A replica without settings. -/
def blankScript : Script where
  created := .ok ()
  doc q _ := blankDoc q
  order _ := .stored

/-- The answer to a write where one is rejected. -/
def rejected (bad wr : Write) : Except Err Unit :=
  if wr = bad then .error (.other "rejected") else .ok ()

namespace Scenario

/-- One write is rejected. -/
def rejectingOne (bad : Write) : Scenario where
  write _ wr := rejected bad wr

theorem scripted {α : Type} (sc : Scenario) (hdoc : ∀ p q, sc.doc p q = .ok (blankDoc q))
    (p : Go α) : Always (Scripted blankScript) [] (sc.trace p) := by
  refine always_of_forall fun x hx hist => ?_
  have hreply := sc.reply_eq hx
  obtain ⟨e, d⟩ := x
  cases e with
  | read p q => exact hreply.trans (hdoc p q)
  | createClient | rangeMap => exact hreply
  | _ => trivial

theorem replied {α : Type} (bad : Write) (p : Go α) :
    Always (Replied fun wr _ => rejected bad wr) [] ((rejectingOne bad).trace p) := by
  refine always_of_forall fun x hx hist => ?_
  have hreply := (rejectingOne bad).reply_eq hx
  obtain ⟨e, d⟩ := x
  cases e with
  | write p wr => exact hreply
  | _ => trivial

/-- Nothing fails where every call succeeds. -/
theorem quiet {α : Type} {p : Go α} {x : Entry Event Reply}
    (hx : x ∈ ({} : Scenario).trace p) : ¬Failed x := by
  cases hparty : x.1.party with
  | some q => exact not_failed {} (fun _ => ⟨_, rfl⟩) (fun _ => rfl) hx hparty
  | none =>
    obtain ⟨e, d⟩ := x
    cases e with
    | read | write => cases hparty
    | _ => exact id

end Scenario

/-- The pass that syncs the two rewrites. -/
def rewritesPass : Go Origin :=
  rewritesWorker.syncTo (sampleReplica "/a") rewritesOrigin

/-- When the second rewrite is rejected, both have been issued. -/
theorem Worker.syncTo_keepsGoing_sample :
    let bad := Write.rewriteAdd (sampleRewrite "b.lan")
    ∀ wr ∈ issued (({} : Scenario).trace rewritesPass),
      (issued ((Scenario.rejectingOne bad).trace rewritesPass)).count wr =
        (issued (({} : Scenario).trace rewritesPass)).count wr := by
  intro bad
  have hreadings : readings (({} : Scenario).trace rewritesPass) = [.status, .rewriteList] := rfl
  refine (rewritesWorker.syncTo_keepsGoing rfl (Scenario.runs _ _)
    (Scenario.scripted _ (fun _ _ => rfl) _) (fun x hx => Scenario.quiet hx) (Scenario.runs _ _)
    (Scenario.scripted _ (fun _ _ => rfl) _) (Scenario.replied bad _)).mpr ⟨?_, ?_⟩
  · intro d hd
    obtain rfl : d = blankDoc .rewriteList := Except.ok.inj (Scenario.reply_eq _ hd)
    have hplan : rewritesPlan (blankDoc .rewriteList) rewritesOrigin.rewrites .stored =
        [.rewriteAdd (sampleRewrite "a.lan"), bad] := rfl
    rintro pre wr post e hsplit - he
    rw [show blankScript.order .rewrites = .stored from rfl, hplan] at hsplit
    match pre, hsplit with
    | [], hsplit =>
      obtain ⟨rfl, -⟩ := List.cons.inj hsplit
      cases he
    | [_], hsplit => exact (List.cons.inj (List.cons.inj hsplit).2).2.symm
    | _ :: _ :: pre, hsplit => simp at hsplit
  · intro d hd
    have hmem : .filteringStatus ∈ readings (({} : Scenario).trace rewritesPass) :=
      List.mem_filterMap.mpr ⟨_, hd, rfl⟩
    rw [hreadings] at hmem
    simp at hmem

/-- When the first rewrite is rejected, the second is not issued. -/
theorem Worker.exists_not_keepsGoing : ∃ (w : Worker) (r : AdGuardInstance) (o : Origin)
    (sc : Script) (reply : Answering) (tr₀ tr : Trace Event Reply) (out₀ out : Option Origin),
    w.cfg.continueOnError = true ∧ Prog.Runs (w.syncTo r o) tr₀ out₀ ∧
      Always (Scripted sc) [] tr₀ ∧ (∀ x ∈ tr₀, ¬Failed x) ∧ Prog.Runs (w.syncTo r o) tr out ∧
      Always (Scripted sc) [] tr ∧ Always (Replied reply) [] tr ∧
      ∃ wr ∈ issued tr₀, wr ∉ issued tr := by
  let bad := Write.rewriteAdd (sampleRewrite "a.lan")
  have hissued₀ : issued (({} : Scenario).trace rewritesPass) =
      [bad, .rewriteAdd (sampleRewrite "b.lan")] := rfl
  have hissued : issued ((Scenario.rejectingOne bad).trace rewritesPass) = [bad] := rfl
  refine ⟨rewritesWorker, sampleReplica "/a", rewritesOrigin, blankScript,
    fun wr _ => rejected bad wr, ({} : Scenario).trace rewritesPass,
    (Scenario.rejectingOne bad).trace rewritesPass, _, _, rfl, Scenario.runs _ _,
    Scenario.scripted _ (fun _ _ => rfl) _, fun x hx => Scenario.quiet hx, Scenario.runs _ _,
    Scenario.scripted _ (fun _ _ => rfl) _, Scenario.replied bad _,
    .rewriteAdd (sampleRewrite "b.lan"), ?_, ?_⟩
  · simp [hissued₀]
  · rw [hissued]
    decide

end AghSync
