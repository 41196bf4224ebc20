import AghSync.Mirror

/-!
# The tasks of a pass

The tasks of a pass run one after the other, each against the instance that the ones before it
left (`Passes`). A task brings the instance a stage further with itself (`Stage.advance`) and
leaves it where it is with the others (`Stage.frame`), so a whole pass brings it a stage
further with every task, and two passes bring it to the last stage.
-/

open Interaction Interaction.Prog

namespace AghSync

open Model

/-! ## The order of the tasks -/

namespace Config

/-- What is enabled keeps the order of the whole list. -/
theorem tasks_sublist (cfg : Config) : cfg.tasks.Sublist
    [.profileInfo, .protection, .parental, .document (.setting .safeSearch), .safeBrowsing,
      .document .dnsServer, .document (.setting .queryLog), .document (.setting .stats),
      .dnsRewrites, .filters, .document (.setting .blockedServices), .clientSettings,
      .document (.setting .accessLists), .document .dhcpServer, .dhcpStaticLeases,
      .document (.setting .tls)] := by
  have hite : ∀ (c : Bool) (Ts : List Task), (if c then Ts else []).Sublist Ts := fun c Ts => by
    split_ifs
    · exact .refl _
    · exact List.nil_sublist _
  exact ((((((((((((hite _ _).append (hite _ _)).append (hite _ _)).append (hite _ _)).append
    (hite _ _)).append (hite _ _)).append (hite _ _)).append (hite _ _)).append (hite _ _)).append
    (hite _ _)).append (hite _ _)).append (hite _ _))

/-- No task is there twice, and before the protection there is at most the profile. -/
theorem pairwise_tasks (cfg : Config) :
    cfg.tasks.Pairwise fun T T' => T ≠ T' ∧ (T' = .protection → T = .profileInfo) :=
  List.Pairwise.sublist cfg.tasks_sublist (by simp)

end Config

/-! ## One pass -/

/-- `Passes ac g Ts i ws` : the tasks `Ts` write `ws` to the instance `i`, one task after the
other. Each finds a snapshot of an origin like `g`. -/
inductive Passes (ac : ActionContext) (g : Instance) : List Task → Instance → List Write → Prop
  | nil (i : Instance) : Passes ac g [] i []
  | cons {T : Task} {Ts : List Task} {g' i : Instance} {ws ws' : List Write} (hlike : g'.Like g)
      (hplan : T.Plans ac g' i ws) (hrest : Passes ac g Ts (ws.foldl Instance.apply i) ws') :
      Passes ac g (T :: Ts) i (ws ++ ws')

/-- The tasks can run : the origin and the instance have what they need, and the status is still
that of the instance when the protection is compared. -/
structure Ready (ac : ActionContext) (g : Instance) (Ts : List Task) (i : Instance) : Prop where
  order : Ts.Pairwise fun T T' => T ≠ T' ∧ (T' = .protection → T = .profileInfo)
  sound : ∀ T ∈ Ts, T.Sound g
  fit : ∀ T ∈ Ts, T.Fit i
  status : .protection ∈ Ts → ac.replicaStatus.protectionEnabled = i.protectionEnabled

section Passes

variable {ac : ActionContext} {g g' i : Instance} {T : Task} {Ts : List Task}
  {ws : List Write} {n : ℕ}

/-- A task that does not write it leaves the protection alone. -/
theorem protectionEnabled_of_plans (hplan : T.Plans ac g i ws) (hT : .protection ∉ T.parts) :
    (ws.foldl Instance.apply i).protectionEnabled = i.protectionEnabled :=
  congrArg (Option.getD · false)
    (Task.get_foldl_apply (p := .protection) fun _ hw hp => hT (hplan.parts hw hp))

theorem Ready.head_status (h : Ready ac g (T :: Ts) i) :
    T = .protection → ac.replicaStatus.protectionEnabled = i.protectionEnabled := by
  rintro rfl
  exact h.status (by simp)

/-- After its first task the others can run. -/
theorem Ready.tail (h : Ready ac g (T :: Ts) i) (hplan : T.Plans ac g' i ws) :
    Ready ac g Ts (ws.foldl Instance.apply i) := by
  obtain ⟨hhead, hrest⟩ := List.pairwise_cons.mp h.order
  refine ⟨hrest, fun T' hT' => h.sound T' (by simp [hT']), fun T' hT' => ?_, fun hprotection => ?_⟩
  · exact Task.Stage.frame (n := 0) (h.fit T' (by simp [hT'])) hplan (hhead T' hT').1.symm
      h.head_status
  · obtain rfl := (hhead _ hprotection).2 rfl
    rw [protectionEnabled_of_plans hplan (by simp [Task.parts])]
    exact h.status (by simp [hprotection])

/-- Tasks that are not there leave an instance at its stage. -/
theorem Passes.frame (h : Passes ac g Ts i ws) (hready : Ready ac g Ts i) (hT : T ∉ Ts)
    (hi : T.Stage ac g i n) : T.Stage ac g (ws.foldl Instance.apply i) n := by
  induction h with
  | nil => exact hi
  | @cons T' Ts g' i ws ws' hlike hplan hrest ih =>
    rw [List.mem_cons, not_or] at hT
    rw [List.foldl_append]
    refine ih (hready.tail hplan) hT.2 ?_
    exact ((hi.congr hlike).frame hplan hT.1 hready.head_status).congr hlike.symm

/-- Tasks bring an instance a stage further. -/
theorem Passes.advance (h : Passes ac g Ts i ws) (hready : Ready ac g Ts i) (hT : T ∈ Ts)
    (hi : T.Stage ac g i n) : T.Stage ac g (ws.foldl Instance.apply i) (n + 1) := by
  induction h with
  | nil => cases hT
  | @cons T' Ts g' i ws ws' hlike hplan hrest ih =>
    have htail := hready.tail hplan
    rw [List.foldl_append]
    rcases List.mem_cons.mp hT with rfl | hT
    · have hnotMem : T ∉ Ts := fun hmem => ((List.pairwise_cons.mp hready.order).1 T hmem).1 rfl
      have hsound := (hready.sound T (by simp)).congr hlike
      refine hrest.frame htail hnotMem ?_
      exact ((hi.congr hlike).advance hsound hplan hready.head_status).congr hlike.symm
    · have hne : T ≠ T' := ((List.pairwise_cons.mp hready.order).1 T hT).1.symm
      refine ih htail hT ?_
      exact ((hi.congr hlike).frame hplan hne hready.head_status).congr hlike.symm

/-- Where an instance mirrors the origin the tasks change nothing. -/
theorem Passes.still (h : Passes ac g Ts i ws) (hready : Ready ac g Ts i)
    (hi : ∀ T ∈ Ts, T.Mirrors ac g i) : ws.foldl Instance.apply i = i := by
  induction h with
  | nil => rfl
  | @cons T Ts g' i ws ws' hlike hplan hrest ih =>
    have hsound := (hready.sound T (by simp)).congr hlike
    have hsame := ((hi T (by simp)).congr hlike).still hsound hplan hready.head_status
    have htail := hready.tail hplan
    rw [List.foldl_append]
    rw [hsame] at ih htail ⊢
    exact ih htail fun T' hT' => hi T' (by simp [hT'])

/-- There the tasks send two configurations at most. -/
theorem Passes.writes (h : Passes ac g Ts i ws) (hready : Ready ac g Ts i)
    (hi : ∀ T ∈ Ts, T.Mirrors ac g i) {w : Write} (hw : w ∈ ws) :
    (∃ c, w = .dnsConfig c) ∨ ∃ c, w = .dhcpSetConfig c := by
  induction h with
  | nil => cases hw
  | @cons T Ts g' i ws ws' hlike hplan hrest ih =>
    have hsound := (hready.sound T (by simp)).congr hlike
    have hmirrors := (hi T (by simp)).congr hlike
    rcases List.mem_append.mp hw with hw | hw
    · exact hmirrors.writes hsound hplan hready.head_status hw
    · have htail := hready.tail hplan
      rw [hmirrors.still hsound hplan hready.head_status] at ih htail
      exact ih htail (fun T' hT' => hi T' (by simp [hT'])) hw

/-- The tasks write nothing exactly if none of them has anything to do. -/
theorem Passes.eq_nil_iff (h : Passes ac g Ts i ws) (hready : Ready ac g Ts i) :
    ws = [] ↔ ∀ T ∈ Ts, T.Idle ac g i := by
  induction h with
  | nil => simp
  | @cons T Ts g' i ws ws' hlike hplan hrest ih =>
    have hsound := (hready.sound T (by simp)).congr hlike
    have hhead : ws = [] ↔ T.Idle ac g i := by
      refine (hplan.eq_nil_iff hsound (hready.fit T (by simp))).trans ?_
      exact ⟨fun hidle => hidle.congr hlike.symm, fun hidle => hidle.congr hlike⟩
    rw [List.append_eq_nil_iff, List.forall_mem_cons, ← hhead]
    refine and_congr_right fun hws => ?_
    subst hws
    exact ih (hready.tail hplan)

end Passes

end AghSync
