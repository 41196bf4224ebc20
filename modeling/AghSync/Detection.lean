import AghSync.Discipline
import AghSync.Server
import AghSync.SliceCompare

/-!
# When a write is skipped

Six actions compare one settings document of the origin with the replica's and write the
origin's if they differ. A comparison that reports equal should leave nothing to write :
everything the write would have sent is there already (`Setting.Detects`).

Five comparisons see every field that is sent. The one of safe search leaves one switch out.
-/

open Interaction Interaction.Prog

namespace AghSync

open Model

/-- The settings documents that are compared as a whole and then written. -/
inductive Setting
  | safeSearch
  | queryLog
  | stats
  | blockedServices
  | accessLists
  | tls
  deriving DecidableEq

namespace Setting

/-- The request for the document. -/
abbrev read : Setting → Read
  | safeSearch => .safesearchStatus
  | queryLog => .querylogConfig
  | stats => .statsConfig
  | blockedServices => .blockedServicesGet
  | accessLists => .accessList
  | tls => .tlsStatus

/-- The action that keeps the document in sync. -/
def action : Setting → ActionContext → Call Origin Unit
  | safeSearch => actionSafeSearchConfig
  | queryLog => actionQueryLogConfig
  | stats => actionStatsConfig
  | blockedServices => actionBlockedServicesSchedule
  | accessLists => actionDNSAccessLists
  | tls => tlsConfig

/-- What the action's comparison reports of the origin's document `o` and the replica's. -/
def equals : (s : Setting) → (o d : Doc s.read) → Bool
  | safeSearch, o, d => SafeSearchConfig.equals o d
  | queryLog, o, d => QueryLogConfigWithIgnored.equals o d
  | stats, o, d => GetStatsConfigResponse.equals d o
  | blockedServices, o, d => BlockedServicesSchedule.equals o d
  | accessLists, o, d => (AccessList.equals d o).1
  | tls, o, d => TlsConfig.equals d o

/-- The document as it is sent. -/
def encode : (s : Setting) → Doc s.read → Json
  | safeSearch, d => marshal (α := SafeSearchConfig) d
  | queryLog, d => marshal (α := QueryLogConfigWithIgnored) d
  | stats, d => marshal (α := GetStatsConfigResponse) d
  | blockedServices, d => marshal (α := BlockedServicesSchedule) d
  | accessLists, d => marshal (α := AccessList) d
  | tls, d => marshal (α := TlsConfig) d

/-- The write of a document. -/
def write : (s : Setting) → Doc s.read → Write
  | safeSearch, d => .safesearchSettings d
  | queryLog, d => .querylogConfigUpdate d
  | stats, d => .statsConfigUpdate d
  | blockedServices, d => .blockedServicesUpdate d
  | accessLists, d => .accessSet d
  | tls, d => .tlsConfigure d

/-- The document that is sent when the comparison with `d` reports a difference : the lists of
the origin's document may have been sorted by then. -/
def sent : (s : Setting) → (o d : Doc s.read) → Doc s.read
  | blockedServices, o, _ => (BlockedServicesSchedule.servicesString o).2
  | accessLists, o, d => (AccessList.equals d o).2.2
  | safeSearch, o, _ | queryLog, o, _ | stats, o, _ | tls, o, _ => o

end Setting

/-! ## The runs of an action -/

/-- A computation that does nothing but send `w`, unless it fails. -/
def OneWrite {σ : Type} (cl : Client) (w : Write) (m : Call σ Unit) : Prop :=
  ∀ s tr s', Runs (m s) tr (some (.ok (), s')) → ∃ r, tr = [⟨.write cl.party w, r⟩]

namespace OneWrite

variable {σ : Type} {cl : Client}

theorem send (w : Write) : OneWrite cl w (cl.send w : Call σ Unit) := by
  intro s tr s' h
  obtain ⟨r, rfl, -⟩ := Client.runs_send.mp h
  exact ⟨r, rfl⟩

theorem tolerate (coe : Bool) (w : Write) :
    OneWrite cl w (Act.tolerate coe (cl.send w) : Call σ Unit) := by
  intro s tr s' h
  obtain ⟨r, rfl, -⟩ := Client.runs_tolerate_send.mp h
  exact ⟨r, rfl⟩

theorem modify {w : Write} {m : Call σ Unit} (f : σ → σ) (hm : OneWrite cl w m) :
    OneWrite cl w (Act.modify f >>= fun _ => m) :=
  fun s _ _ h => hm (f s) _ _ h

theorem deref {w : Write} {α : Type} {m : α → Call σ Unit} (x : Option α)
    (hm : ∀ a, OneWrite cl w (m a)) : OneWrite cl w (Act.deref x >>= m) := by
  intro s tr s' h
  cases x with
  | none => cases (runs_crash.mp h).2
  | some a => exact hm a s tr s' h

end OneWrite

namespace Setting

variable {ac : ActionContext} {org : Origin} {s : Setting} {o : Doc s.read}

/-- `s.Compares ac org o prep m` : from the snapshot `org` the action reads the replica's
document, changes the snapshot by `prep`, and runs `m` if the comparison reports a
difference. -/
structure Compares (s : Setting) (ac : ActionContext) (org : Origin) (o : Doc s.read)
    (prep : Doc s.read → Origin → Origin) (m : Doc s.read → Call Origin Unit) : Prop where
  action_eq : s.action ac org = (ac.client.doGet s.read >>= fun d =>
    Act.modify (prep d) >>= fun _ => if !s.equals o d then m d else pure ()) org
  write : ∀ d, OneWrite ac.client (s.write (s.sent o d)) (m d)

/-- An action that loads the origin's document after reading the replica's. -/
theorem doGet_fromOrigin_eq {q : Read} {cl : Client} {f : Origin → Option (Doc q)} {o : Doc q}
    (hf : f org = some o) (k : Doc q → Doc q → Call Origin Unit) :
    (cl.doGet q >>= fun d => fromOrigin f >>= fun o => k o d) org =
      (cl.doGet q >>= fun d => k o d) org := by
  refine congrArg (Prog.ask (Event.read cl.party q)) (funext fun r => ?_)
  cases r with
  | error e => rfl
  | ok d => exact fromOrigin_bind_apply hf _

theorem compares (ac : ActionContext) (hload : org.load s.read = (org.store s.read o).load s.read) :
    ∃ prep m, s.Compares ac org o prep m := by
  cases s with
  | safeSearch =>
    exact ⟨fun _ => id, _, doGet_fromOrigin_eq hload _, fun _ => .deref _ fun _ => .send _⟩
  | queryLog =>
    exact ⟨fun _ => id, _, doGet_fromOrigin_eq hload _, fun _ => .deref _ fun _ =>
      .deref _ fun _ => .deref _ fun _ => .send _⟩
  | stats => exact ⟨fun _ => id, _, doGet_fromOrigin_eq hload _, fun _ => .send _⟩
  | blockedServices =>
    exact ⟨fun _ => id, _, doGet_fromOrigin_eq hload _, fun _ => .modify _ (.send _)⟩
  | accessLists =>
    exact ⟨fun d org => { org with accessList := some (AccessList.equals d o).2.2 }, _,
      doGet_fromOrigin_eq hload _, fun _ => .send _⟩
  | tls => exact ⟨fun _ => id, _, doGet_fromOrigin_eq hload _, fun _ => .tolerate _ _⟩

/-- A run that succeeds has read a document. If the comparison reports equal that was all,
otherwise there was one write. -/
theorem runs_action (hload : org.load s.read = (org.store s.read o).load s.read)
    {tr : Trace Event Reply} {org' : Origin}
    (h : Runs (s.action ac org) tr (some (.ok (), org'))) :
    ∃ d t, tr = ⟨.read ac.client.party s.read, .ok d⟩ :: t ∧
      ((s.equals o d = true ∧ t = []) ∨
        s.equals o d = false ∧ ∃ r, t = [⟨.write ac.client.party (s.write (s.sent o d)), r⟩]) := by
  obtain ⟨prep, m, hcompares⟩ := compares ac hload
  rw [hcompares.action_eq] at h
  rcases Client.runs_doGet_bind.mp h with ⟨d, t, rfl, hk⟩ | ⟨e, -, ho⟩
  · refine ⟨d, t, rfl, ?_⟩
    simp only [Act.modify_bind_apply] at hk
    split_ifs at hk with hne
    · exact Or.inr ⟨by simpa using hne, hcompares.write d _ _ _ hk⟩
    · exact Or.inl ⟨by simpa using hne, (runs_ret.mp hk).1⟩
  · cases ho

/-- If the comparison reports equal, the action can run and writes nothing. -/
theorem runs_action_of_equals (ac : ActionContext)
    (hload : org.load s.read = (org.store s.read o).load s.read)
    {d : Doc s.read} (h : s.equals o d = true) :
    ∃ org', Runs (s.action ac org) [⟨.read ac.client.party s.read, .ok d⟩]
      (some (.ok (), org')) := by
  obtain ⟨prep, m, hcompares⟩ := compares ac hload
  refine ⟨prep d org, ?_⟩
  rw [hcompares.action_eq]
  refine Client.runs_doGet_bind.mpr (Or.inl ⟨d, [], rfl, ?_⟩)
  simp only [Act.modify_bind_apply, h, Bool.not_true, Bool.false_eq_true, if_false]
  exact .ret _

end Setting

/-! ## What a comparison sees -/

namespace Model

namespace SafeSearchConfig

/-- The switches that `equals` compares. -/
def compared (c : SafeSearchConfig) : List Bool :=
  [c.enabled, c.bing, c.duckduckgo, c.google, c.pixabay, c.yandex, c.youtube].map fun b =>
    b.getD false

theorem equals_iff {a b : SafeSearchConfig} : a.equals b = true ↔ a.compared = b.compared := by
  simp [equals, ptrEquals, compared, and_assoc]

/-- The switch of `b` that is not compared is as `a` sends it. -/
def EcosiaKept (a b : SafeSearchConfig) : Prop :=
  ∀ e ∈ a.ecosia, b.ecosia.getD false = e

instance (a b : SafeSearchConfig) : Decidable (EcosiaKept a b) :=
  inferInstanceAs (Decidable (∀ e ∈ a.ecosia, b.ecosia.getD false = e))

end SafeSearchConfig

end Model

theorem Json.same_of_kept {a b : Option Bool} {v : Json} (hv : a.map marshal = some v)
    (h : ∀ x ∈ a, b.getD false = x) : Json.Same v ((b.map marshal).getD v.zero) := by
  obtain ⟨x, rfl, rfl⟩ := Option.map_eq_some_iff.mp hv
  have hx := h x rfl
  cases b with
  | none => exact congrArg Json.bool hx.symm
  | some y => exact congrArg Json.bool hx.symm

theorem Json.same_of_equalsStringSlice {a b : Option (List String)} {v : Json}
    (hv : a.map marshal = some v) (h : (equalsStringSlice b a true).1 = true) :
    Json.Same v ((b.map marshal).getD v.zero) := by
  rcases map_sortStrings_inj.mp (equalsStringSlice_fst.mp h) with hperm | _
  · cases hv
    exact hperm.symm.map marshal
  · cases hv

namespace Model

/-- Access lists that compare equal have the same entries. -/
theorem AccessList.covers_of_equals {o d : AccessList} (h : (d.equals o).1 = true) :
    Json.Covers (marshal d) (marshal o) := by
  refine Json.covers_object (by simp [Json.omitEmpty]) ?_
  simp only [equals_fst, Bool.and_eq_true] at h
  obtain ⟨⟨hallowed, hdisallowed⟩, hhosts⟩ := h
  intro name v hv
  simp only [Json.omitEmpty, List.mem_cons, Prod.mk.injEq, List.not_mem_nil, or_false] at hv
  rcases hv with ⟨rfl, hv⟩ | ⟨rfl, hv⟩ | ⟨rfl, hv⟩
  · exact ⟨_, by simp [Json.omitEmpty], Json.same_of_equalsStringSlice hv.symm hallowed⟩
  · exact ⟨_, by simp [Json.omitEmpty], Json.same_of_equalsStringSlice hv.symm hhosts⟩
  · exact ⟨_, by simp [Json.omitEmpty], Json.same_of_equalsStringSlice hv.symm hdisallowed⟩

namespace SafeSearchConfig

variable {o d : SafeSearchConfig}

theorem ecosiaKept_of_covers (h : Json.Covers (marshal d) (marshal o)) : o.EcosiaKept d := by
  intro e he
  have hget : ∀ c : SafeSearchConfig, (marshal c).get "ecosia" = c.ecosia.map marshal := fun c =>
    Json.get_object (by simp [Json.omitEmpty]) (by simp [Json.omitEmpty])
  have he : o.ecosia = some e := he
  have hsame := h "ecosia" (.bool e) (by rw [hget, he]; rfl)
  rw [hget] at hsame
  cases hd : d.ecosia with
  | none =>
    rw [hd] at hsame
    exact (Json.bool.inj hsame).symm
  | some e' =>
    rw [hd] at hsame
    exact (Json.bool.inj hsame).symm

theorem covers_of_ecosiaKept (heq : o.compared = d.compared) (hecosia : o.EcosiaKept d) :
    Json.Covers (marshal d) (marshal o) := by
  refine Json.covers_object (by simp [Json.omitEmpty]) ?_
  simp only [compared, List.map_cons, List.cons.injEq] at heq
  obtain ⟨henabled, hbing, hduckduckgo, hgoogle, hpixabay, hyandex, hyoutube, -⟩ := heq
  have hkept : ∀ {a b : Option Bool}, a.getD false = b.getD false → ∀ x ∈ a, b.getD false = x := by
    rintro _ b hab x rfl
    exact hab.symm
  intro name v hv
  simp only [Json.omitEmpty, List.mem_cons, Prod.mk.injEq, List.not_mem_nil, or_false] at hv
  rcases hv with ⟨rfl, hv⟩ | ⟨rfl, hv⟩ | ⟨rfl, hv⟩ | ⟨rfl, hv⟩ | ⟨rfl, hv⟩ | ⟨rfl, hv⟩ |
    ⟨rfl, hv⟩ | ⟨rfl, hv⟩
  case inr.inr.inl =>
    exact ⟨_, by simp [Json.omitEmpty], Json.same_of_kept hv.symm hecosia⟩
  all_goals
    refine ⟨_, by simp [Json.omitEmpty]; rfl, Json.same_of_kept hv.symm (hkept ?_)⟩
    assumption

end SafeSearchConfig

end Model

namespace Setting

/-- What the comparison of `s` leaves out is as the origin sends it, if the rest is equal. -/
def Kept : (s : Setting) → (o d : Doc s.read) → Prop
  | safeSearch, o, d => o.compared = d.compared → o.EcosiaKept d
  | _, _, _ => True

/-- With equal documents, everything that would be sent is there exactly when the comparison
leaves nothing out. -/
theorem covers_iff_of_equals {s : Setting} {o d : Doc s.read} (h : s.equals o d = true) :
    Json.Covers (s.encode d) (s.encode o) ↔ s.Kept o d := by
  have of_eq : s.encode o = s.encode d → Json.Covers (s.encode d) (s.encode o) := by
    intro heq
    rw [heq]
    exact .refl _
  cases s with
  | queryLog => exact iff_of_true (of_eq (of_decide_eq_true h)) trivial
  | stats => exact iff_of_true (of_eq (of_decide_eq_true h).symm) trivial
  | blockedServices => exact iff_of_true (of_eq (of_decide_eq_true h)) trivial
  | tls => exact iff_of_true (of_eq (of_decide_eq_true h).symm) trivial
  | accessLists => exact iff_of_true (AccessList.covers_of_equals h) trivial
  | safeSearch =>
    have heq : SafeSearchConfig.compared o = SafeSearchConfig.compared d :=
      SafeSearchConfig.equals_iff.mp h
    exact ⟨fun hcovers _ => SafeSearchConfig.ecosiaKept_of_covers hcovers, fun hkept =>
      SafeSearchConfig.covers_of_ecosiaKept heq (hkept heq)⟩

/-- Whenever the action succeeds with these two documents and writes nothing, the replica
has everything that a write would have sent. -/
def Detects (s : Setting) (o d : Doc s.read) : Prop :=
  ∀ ac org tr org', org.load s.read = (org.store s.read o).load s.read →
    Runs (s.action ac org) tr (some (.ok (), org')) →
    ⟨.read ac.client.party s.read, .ok d⟩ ∈ tr → (∀ p w r, ⟨.write p w, r⟩ ∉ tr) →
    Json.Covers (s.encode d) (s.encode o)

theorem detects_iff_equals {s : Setting} {o d : Doc s.read} :
    s.Detects o d ↔ (s.equals o d = true → Json.Covers (s.encode d) (s.encode o)) := by
  constructor
  · intro h hequals
    have hload : ∀ org : Origin, (org.save s.read ((org.store s.read o).load s.read)).load s.read =
        ((org.save s.read ((org.store s.read o).load s.read)).store s.read o).load s.read := by
      intro org
      rw [Origin.load_save]
      cases s <;> rfl
    obtain ⟨org', hrun⟩ := runs_action_of_equals sampleContext (hload {}) hequals
    exact h _ _ _ _ (hload {}) hrun (by simp) (by simp)
  · intro h ac org tr org' hload hrun hread hquiet
    obtain ⟨d', t, rfl, ⟨hequals, rfl⟩ | ⟨-, r, rfl⟩⟩ := runs_action hload hrun
    · cases List.mem_singleton.mp hread
      exact h hequals
    · exact absurd (by simp) (hquiet ac.client.party (s.write (s.sent o d')) r)

theorem equals_of_not_kept {s : Setting} {o d : Doc s.read} (h : ¬s.Kept o d) :
    s.equals o d = true := by
  cases s with
  | safeSearch => exact SafeSearchConfig.equals_iff.mpr (Classical.not_imp.mp h).1
  | _ => exact absurd trivial h

/-- A skipped write would have changed nothing, except for the switch of safe search that is
not compared. -/
theorem detects_iff (s : Setting) (o d : Doc s.read) : s.Detects o d ↔ s.Kept o d := by
  rw [detects_iff_equals]
  constructor
  · intro h
    by_contra hkept
    have hequals := equals_of_not_kept hkept
    exact hkept ((covers_iff_of_equals hequals).mp (h hequals))
  · exact fun h hequals => (covers_iff_of_equals hequals).mpr h

/-- The origin has Ecosia on, the replica off : nothing is written. -/
theorem not_detects : Runs (actionSafeSearchConfig sampleContext
      { safeSearch := some { enabled := some true, ecosia := some true } })
      [⟨.read sampleContext.client.party .safesearchStatus,
        .ok { enabled := some true, ecosia := some false }⟩]
      (some (.ok (), { safeSearch := some { enabled := some true, ecosia := some true } })) ∧
    ¬Detects .safeSearch { enabled := some true, ecosia := some true }
      { enabled := some true, ecosia := some false } := by
  refine ⟨.ask (.ret _), fun h => ?_⟩
  have hequals : equals .safeSearch { enabled := some true, ecosia := some true }
      { enabled := some true, ecosia := some false } = true := rfl
  have hkept := (covers_iff_of_equals hequals).mp (detects_iff_equals.mp h hequals) rfl true rfl
  cases hkept

end Setting

end AghSync
