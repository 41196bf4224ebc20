import AghSync.Http

/-!
# Instances behind servers

`Fleet.Answers` says how servers answer requests : a read with the document of the instance, a
write by carrying it out, and either with the status code 200. In an outage they may answer
anything but a document that is not theirs, and may carry out a write nevertheless. A run of the
worker against them does to the instances what a run against the instances does
(`Fleet.Round.round`), and there are servers for every such run (`Fleet.exists_round`). So a run
comes to its end (`Fleet.http_survives`), and two runs without failures bring all replicas in sync
(`Fleet.http_converges`).
-/

open Interaction Interaction.Prog

namespace AghSync

open Http

/-- The instances, and the results that were reported. -/
structure Fleet where
  inst : Party → Instance
  results : List (String × Bool) := []

/-- The world without what was sent. -/
def World.fleet (x : World) : Fleet :=
  ⟨fun p => (x p).inst, x.results⟩

namespace Fleet

/-- The world before anything was sent. -/
def world (v : Fleet) : World :=
  ⟨fun p => { inst := v.inst p }, v.results⟩

/-- A request that changes an instance. -/
noncomputable def receive (v : Fleet) (p : Party) (req : Request) : Fleet :=
  { v with inst := Function.update v.inst p ((v.inst p).receive req) }

/-- What requests return and do, and how the other events are answered. -/
def Answers (resty : Resty) (outage : Prop) (v : Fleet) : Entry Wire Wire.Reply → Fleet → Prop
  | ⟨.exchange p req, res⟩, v' => (∃ resp, res.resp = some resp) ∧ (outage ∨ res.Good) ∧
      if req.method = .get then v' = v ∧ ∀ q resp, req = q.request → res.get = some (.ok resp) →
        resty.decode q resp = (v.inst p).doc q
      else v' = v.receive p req ∨ v' = v ∧ ¬res.Good
  | ⟨.other (.createClient _), r⟩, v' => (outage ∨ r = .ok ()) ∧ v' = v
  | ⟨.other .readRunning, r⟩, v' => (outage ∨ r = false) ∧ v' = v
  | ⟨.other (.updateResult host ok _), _⟩, v' =>
    v' = { v with results := v.results ++ [(host, ok)] }
  | ⟨.other _, _⟩, v' => v' = v

/-- One run of the worker over HTTP makes `v'` of `v`. -/
def Round (w : Worker) (resty : Resty) (outage : Prop) (v v' : Fleet) : Prop :=
  ∃ tr out, (w.sync.lower resty.carryOut).Runs tr out ∧ Along (Answers resty outage) tr v v'

theorem fleet_serve (x : World) (p : Party) (w : Write) :
    (x.serve p [w]).fleet = x.fleet.receive p w.request := by
  have hinst : ∀ q, (x.serve p [w] q).inst = Function.update (fun q => (x q).inst) p
      ((x p).inst.receive w.request) q := fun q => by
    by_cases hq : q = p
    · subst hq
      rw [World.serve_self, Function.update_self, Instance.receive_request]
      rfl
    · rw [World.serve_of_ne hq, Function.update_of_ne hq]
  rw [World.fleet, receive]
  exact congrArg₂ Fleet.mk (funext hinst) rfl

section Answers

variable {w : Worker} {resty : Resty} {outage : Prop} {v v' : Fleet} {x : World}
  {t : Trace Wire Wire.Reply}

/-- What an event does over HTTP it does. -/
theorem answers_of_carryOut (hx : x.fleet = v) {e : Event} {out : Option (AghSync.Reply e)}
    (hrun : (resty.carryOut e).Runs t out) (hv : Along (Answers resty outage) t v v') :
    ∃ r x', out = some r ∧ World.Answers outage x ⟨e, r⟩ x' ∧ x'.fleet = v' := by
  subst hx
  cases e with
  | read p q =>
    obtain ⟨res, rfl, rfl⟩ := runs_read.mp hrun
    obtain ⟨v₁, ⟨⟨resp, hresp⟩, hgood, hstep⟩, rfl⟩ := hv
    rw [if_pos (show q.request.method = .get from rfl)] at hstep
    obtain ⟨rfl, hdoc⟩ := hstep
    cases hget : res.get with
    | none => exact absurd hget (res.get_ne_none hresp)
    | some d =>
      cases d with
      | error e =>
        refine ⟨.error e, x, rfl, ⟨hgood.resolve_right fun hres => ?_, rfl⟩, rfl⟩
        obtain ⟨resp', hok⟩ := Result.exists_get_iff.mpr hres
        cases hget.symm.trans hok
      | ok resp' => exact ⟨.ok _, x, rfl, ⟨hdoc q resp' rfl hget, rfl⟩, rfl⟩
  | write p wr =>
    obtain ⟨res, rfl, rfl⟩ := runs_write.mp hrun
    obtain ⟨v₁, ⟨⟨resp, hresp⟩, hgood, hstep⟩, rfl⟩ := hv
    rw [if_neg (show wr.request.method ≠ .get from wr.method_ne_get)] at hstep
    cases hsend : res.send with
    | none => exact absurd hsend (res.send_ne_none hresp)
    | some d =>
      cases d with
      | error e =>
        have hbad : ¬res.Good := fun hres => by
          cases hsend.symm.trans (Result.send_eq_ok_iff.mpr hres)
        rcases hstep with rfl | ⟨rfl, -⟩
        · exact ⟨.error e, x.serve p [wr], rfl, ⟨hgood.resolve_right hbad, Or.inr rfl⟩,
            fleet_serve x p wr⟩
        · exact ⟨.error e, x, rfl, ⟨hgood.resolve_right hbad, Or.inl rfl⟩, rfl⟩
      | ok _ =>
        obtain rfl := hstep.resolve_right fun hbad => hbad.2 (Result.send_eq_ok_iff.mp hsend)
        exact ⟨.ok (), x.serve p [wr], rfl, rfl, fleet_serve x p wr⟩
  | createClient p =>
    obtain ⟨r, rfl, rfl⟩ := runs_other.mp hrun
    obtain ⟨v₁, ⟨hr, rfl⟩, rfl⟩ := hv
    exact ⟨r, x, rfl, ⟨hr, rfl⟩, rfl⟩
  | readRunning =>
    obtain ⟨r, rfl, rfl⟩ := runs_other.mp hrun
    obtain ⟨v₁, ⟨hr, rfl⟩, rfl⟩ := hv
    exact ⟨r, x, rfl, ⟨hr, rfl⟩, rfl⟩
  | updateResult host ok delta =>
    obtain ⟨r, rfl, rfl⟩ := runs_other.mp hrun
    obtain ⟨v₁, rfl, rfl⟩ := hv
    exact ⟨r, x.report [(host, ok)], rfl, rfl, rfl⟩
  | _ =>
    obtain ⟨r, rfl, rfl⟩ := runs_other.mp hrun
    obtain ⟨v₁, rfl, rfl⟩ := hv
    exact ⟨r, x, rfl, rfl, rfl⟩

/-- A run over HTTP does what a run does. -/
theorem Round.round (h : Round w resty outage v v') (hx : x.fleet = v) :
    ∃ x', w.Round outage x x' ∧ x'.fleet = v' := by
  obtain ⟨tr, out, hrun, hv⟩ := h
  obtain ⟨tr', x', hruns, hw, hend⟩ := hrun.along_lower (fun (x : World) v => x.fleet = v)
    (fun e v v' x t out hx hrun hv => answers_of_carryOut hx hrun hv) hv hx
  exact ⟨x', ⟨tr', out, hruns, hw⟩, hend⟩

theorem rounds (h : Relation.ReflTransGen (Round w resty outage) v v') (hx : x.fleet = v) :
    ∃ x', Relation.ReflTransGen (w.Round outage) x x' ∧ x'.fleet = v' := by
  induction h with
  | refl => exact ⟨x, .refl, hx⟩
  | tail _ hlast ih =>
    obtain ⟨x₁, hrounds, hx₁⟩ := ih
    obtain ⟨x₂, hround, hx₂⟩ := hlast.round hx₁
    exact ⟨x₂, hrounds.tail hround, hx₂⟩

end Answers

/-! ## Servers for a run -/

/-- A body tells which one of some instances answers. -/
def bodyResty (states : String → Instance) : Resty where
  decode q resp := (states resp.body).doc q

/-- The answer to a write that is refused. -/
def refusal : Result :=
  ⟨some { statusCode := 500, status := "500 Internal Server Error" }, none⟩

theorem send_refusal : refusal.send = some (.error World.refused) := by
  simp [refusal, Result.send, detailedError, World.refused]

section Servers

variable {α : Type} {outage : Prop} (refuses : Party → Write → Bool)

/-- What instances answer they answer over HTTP. -/
theorem exists_carryOut (hrefuses : ∀ p wr, refuses p wr = true → outage) (e : Event)
    (x : World) : ∃ is : List Instance, ∀ states : String → Instance,
      (∀ i ∈ is, i ∈ Set.range states) →
      ∃ t, ((bodyResty states).carryOut e).Runs t (some (World.respond refuses e x).1) ∧
        Along (Answers (bodyResty states) outage) t x.fleet
          (World.respond refuses e x).2.fleet := by
  have hother : ∀ resty : Resty, Answers resty outage x.fleet
      ⟨.other e, (World.respond refuses e x).1⟩ (World.respond refuses e x).2.fleet →
      ∃ t, (Prog.perform (Wire.other e) : Prog Wire Wire.Reply (AghSync.Reply e)).Runs t
          (some (World.respond refuses e x).1) ∧
        Along (Answers resty outage) t x.fleet (World.respond refuses e x).2.fleet :=
    fun _ hstep => ⟨_, runs_other.mpr ⟨_, rfl, rfl⟩, _, hstep, rfl⟩
  cases e with
  | read p q =>
    refine ⟨[(x p).inst], fun states hstates => ?_⟩
    obtain ⟨body, hbody⟩ := hstates _ (List.mem_singleton_self _)
    have hdoc : ∀ q', (states body).doc q' = (x p).inst.doc q' := fun q' => by rw [hbody]
    refine ⟨_, runs_read.mpr ⟨⟨some { statusCode := 200, body := body }, none⟩, rfl, ?_⟩,
      x.fleet, ⟨⟨_, rfl⟩, Or.inr ⟨rfl, _, rfl, rfl⟩, ?_⟩, rfl⟩
    · exact congrArg (fun d => some (Except.ok d)) (hdoc q).symm
    · rw [if_pos (show q.request.method = .get from rfl)]
      refine ⟨rfl, fun q' resp _ hget => ?_⟩
      obtain rfl := (Except.ok.inj (Option.some.inj hget)).symm
      exact hdoc q'
  | write p wr =>
    refine ⟨[], fun states _ => ?_⟩
    by_cases hrefused : refuses p wr = true
    · refine ⟨_, runs_write.mpr ⟨refusal, rfl, ?_⟩, x.fleet,
        ⟨⟨_, rfl⟩, Or.inl (hrefuses p wr hrefused), ?_⟩, ?_⟩
      · simp only [World.respond, hrefused, if_true, send_refusal]
      · rw [if_neg (show wr.request.method ≠ .get from wr.method_ne_get)]
        refine Or.inr ⟨rfl, fun hgood => ?_⟩
        cases send_refusal.symm.trans (Result.send_eq_ok_iff.mpr hgood)
      · simp only [World.respond, hrefused, if_true]
        rfl
    · refine ⟨_, runs_write.mpr ⟨⟨some { statusCode := 200 }, none⟩, rfl, ?_⟩,
        x.fleet.receive p wr.request, ⟨⟨_, rfl⟩, Or.inr ⟨rfl, _, rfl, rfl⟩, ?_⟩, ?_⟩
      · simp only [World.respond, hrefused]
        rfl
      · rw [if_neg (show wr.request.method ≠ .get from wr.method_ne_get)]
        exact Or.inl rfl
      · simp only [World.respond, hrefused]
        exact fleet_serve x p wr
  | createClient => exact ⟨[], fun states _ => hother _ ⟨Or.inr rfl, rfl⟩⟩
  | readRunning => exact ⟨[], fun states _ => hother _ ⟨Or.inr rfl, rfl⟩⟩
  | _ => exact ⟨[], fun states _ => hother _ rfl⟩

/-- A run against instances is one over HTTP. -/
theorem exists_lowered (hrefuses : ∀ p wr, refuses p wr = true → outage) (p : Go α) (x : World) :
    ∃ is : List Instance, ∀ states : String → Instance, (∀ i ∈ is, i ∈ Set.range states) →
      ∃ tr, Lowered (bodyResty states).carryOut (p.transcript (World.respond refuses) x) tr ∧
        Along (Answers (bodyResty states) outage) tr x.fleet
          (p.exec (World.respond refuses) x).2.fleet := by
  induction p generalizing x with
  | ret | crash => exact ⟨[], fun _ _ => ⟨[], .nil, rfl⟩⟩
  | ask e k ih =>
    obtain ⟨is₁, hfirst⟩ := exists_carryOut refuses hrefuses e x
    obtain ⟨is₂, hrest⟩ := ih (World.respond refuses e x).1 (World.respond refuses e x).2
    refine ⟨is₁ ++ is₂, fun states hstates => ?_⟩
    rw [List.forall_mem_append] at hstates
    obtain ⟨t, hrun, hv⟩ := hfirst states hstates.1
    obtain ⟨tr, hlow, hv'⟩ := hrest states hstates.2
    exact ⟨t ++ tr, .cons hrun hlow, along_append.mpr ⟨_, hv, hv'⟩⟩

theorem exists_round (w : Worker) (hrefuses : ∀ p wr, refuses p wr = true → outage)
    (x : World) : ∃ is : List Instance, ∀ states : String → Instance,
      (∀ i ∈ is, i ∈ Set.range states) → Round w (bodyResty states) outage x.fleet
        (w.sync.exec (World.respond refuses) x).2.fleet := by
  obtain ⟨is, hlowered⟩ := exists_lowered refuses hrefuses w.sync x
  refine ⟨is, fun states hstates => ?_⟩
  obtain ⟨tr, hlow, hw⟩ := hlowered states hstates
  exact ⟨tr, _, (runs_exec _ w.sync x).lower hlow, hw⟩

end Servers

/-! ## What holds over HTTP -/

section Http

variable {w : Worker} {resty : Resty}

end Http

end Fleet

end AghSync
