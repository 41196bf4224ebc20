import AghSync.Compare

/-!
# What comparing clients leaves behind

`Client.equals` sorts the lists of both clients and hides the time zone of a schedule without
days during the comparison. The time zone is put back into every schedule, and it was not
taken out of a schedule with days : that one loses it. A client without such a schedule
(`Client.KeepsTimeZone`) comes back sorted and otherwise unchanged.
-/

namespace AghSync

namespace Model.Client

/-- A schedule with days has no time zone. -/
def KeepsTimeZone (c : Client) : Prop :=
  ∀ s ∈ c.blockedServicesSchedule, s.noDays = false → s.timeZone = none

instance (c : Client) : Decidable c.KeepsTimeZone :=
  inferInstanceAs (Decidable (∀ s ∈ c.blockedServicesSchedule,
    s.noDays = false → s.timeZone = none))

/-- `c'` is `c`, with each of its lists as it was or sorted. -/
structure SortedFrom (c c' : Client) : Prop where
  rest : c' = { c with
    ids := c'.ids
    tags := c'.tags
    blockedServices := c'.blockedServices
    upstreams := c'.upstreams }
  ids : c'.ids = c.ids ∨ c'.ids = c.ids.map sortStrings
  tags : c'.tags = c.tags ∨ c'.tags = c.tags.map sortStrings
  blockedServices : c'.blockedServices = c.blockedServices ∨
    c'.blockedServices = c.blockedServices.map sortStrings
  upstreams : c'.upstreams = c.upstreams ∨ c'.upstreams = c.upstreams.map sortStrings

theorem sortedFrom_sort (c : Client) : SortedFrom c c.sort :=
  ⟨rfl, Or.inr rfl, Or.inr rfl, Or.inr rfl, Or.inr rfl⟩

@[simp] theorem sort_sort (c : Client) : c.sort.sort = c.sort := by
  have hmap : ∀ xs : Option (List String),
      (xs.map sortStrings).map sortStrings = xs.map sortStrings := by
    intro xs
    cases xs <;> simp
  simp only [sort, hmap]

/-- What a comparison makes of either client. -/
def compared (c : Client) : Client :=
  c.sort.prepareDiff.2.afterDiff c.sort.prepareDiff.1

theorem equals_snd (a b : Client) : (a.equals b).2 = (a.compared, b.compared) :=
  rfl

/-- The schedule afterwards : the time zone is only there without days. -/
theorem compared_schedule (c : Client) : c.compared.blockedServicesSchedule =
    c.blockedServicesSchedule.map fun s =>
      if s.noDays then s else { s with timeZone := none } := by
  have hsort : c.sort.blockedServicesSchedule = c.blockedServicesSchedule := rfl
  unfold compared prepareDiff afterDiff
  cases hs : c.blockedServicesSchedule with
  | none => simp [hsort, hs]
  | some s =>
    simp only [hsort, hs, Option.map_some]
    split_ifs
    · rfl
    · simp [hsort, hs]

/-- Apart from the schedule, a comparison only sorts. -/
theorem compared_eq (c : Client) :
    c.compared = { c.sort with blockedServicesSchedule := c.compared.blockedServicesSchedule } := by
  unfold compared prepareDiff afterDiff
  cases c.sort.blockedServicesSchedule with
  | none => rfl
  | some s =>
    simp only
    split_ifs <;> rfl

theorem KeepsTimeZone.compared_eq {c : Client} (h : c.KeepsTimeZone) : c.compared = c.sort := by
  have hschedule : c.compared.blockedServicesSchedule = c.blockedServicesSchedule := by
    rw [compared_schedule]
    cases hs : c.blockedServicesSchedule with
    | none => rfl
    | some s =>
      rw [Option.map_some]
      split_ifs with hdays
      · rfl
      · rw [← h s hs (by simpa using hdays)]
  rw [Client.compared_eq, hschedule]
  rfl

theorem keepsTimeZone_of_sortedFrom {c : Client} (h : SortedFrom c c.compared) :
    c.KeepsTimeZone := by
  intro s hs hdays
  have hschedule : c.compared.blockedServicesSchedule = c.blockedServicesSchedule := by
    rw [h.rest]
  rw [compared_schedule, Option.mem_def.mp hs, Option.map_some,
    if_neg (by simp [hdays])] at hschedule
  have hzone := congrArg Schedule.timeZone (Option.some.inj hschedule)
  exact hzone.symm

/-- The comparison of `a` with `b` changes nothing but the order of lists, and a second one
gives the same answer. -/
def Restores (a b : Client) : Prop :=
  SortedFrom a (a.equals b).2.1 ∧ SortedFrom b (a.equals b).2.2 ∧
    ((a.equals b).2.1.equals (a.equals b).2.2).1 = (a.equals b).1

/-- Exactly a schedule with a day and a time zone is not restored. -/
theorem restores_iff (a b : Client) : Restores a b ↔ a.KeepsTimeZone ∧ b.KeepsTimeZone := by
  rw [Restores, equals_snd]
  constructor
  · rintro ⟨ha, hb, -⟩
    exact ⟨keepsTimeZone_of_sortedFrom ha, keepsTimeZone_of_sortedFrom hb⟩
  · rintro ⟨ha, hb⟩
    simp only [ha.compared_eq, hb.compared_eq]
    refine ⟨sortedFrom_sort a, sortedFrom_sort b, ?_⟩
    unfold equals
    simp only [sort_sort]

/-- The time zone of a schedule with a day is lost. -/
theorem not_restores :
    let c : Client := { blockedServicesSchedule := some { mon := some {}, timeZone := some "UTC" } }
    (c.equals {}).2.1.blockedServicesSchedule = some { mon := some {}, timeZone := none } ∧
      ¬Restores c {} := by
  intro c
  refine ⟨rfl, ?_⟩
  rintro ⟨hc, -⟩
  exact absurd (keepsTimeZone_of_sortedFrom hc _ rfl rfl) (by decide)

end Model.Client

end AghSync
