import AghSync.Ensures
import AghSync.Instance

/-!
# Instances that answer

In `World.Works` every instance answers every request and carries it out, and no other run of
the worker is going. In `World.MayFail` any of this can fail. The instances keep the writes they
carried out, so a run shows what was sent.

Most of what a client does is reading, and then sending a list of writes. `Attempts` says that a
computation sends a list of writes and nothing else. Where nothing can fail all of them are
carried out, and otherwise a part of them, in order.
-/

open Interaction Interaction.Prog

namespace AghSync

open Model

/-- An instance, with the writes it carried out. -/
structure Served where
  inst : Instance
  got : List Write := []

/-- The instance after more writes. -/
def Served.serve (x : Served) (ws : List Write) : Served :=
  ⟨ws.foldl Instance.apply x.inst, x.got ++ ws⟩

@[simp] theorem Served.serve_nil (x : Served) : x.serve [] = x := by
  simp [serve]

@[simp] theorem Served.serve_serve (x : Served) (ws ws' : List Write) :
    (x.serve ws).serve ws' = x.serve (ws ++ ws') := by
  simp [serve]

/-- The origin and all replicas, and the results that were reported. -/
structure World where
  party : Party → Served
  results : List (String × Bool) := []

instance : CoeFun World fun _ => Party → Served :=
  ⟨World.party⟩

namespace World

/-- The world after more writes to one instance. -/
def serve (x : World) (p : Party) (ws : List Write) : World :=
  { x with party := Function.update x.party p ((x p).serve ws) }

/-- The world after more results. -/
def report (x : World) (rs : List (String × Bool)) : World :=
  { x with results := x.results ++ rs }

@[simp] theorem serve_nil (x : World) (p : Party) : x.serve p [] = x := by
  simp [serve]

@[simp] theorem serve_self (x : World) (p : Party) (ws : List Write) :
    x.serve p ws p = (x p).serve ws :=
  Function.update_self ..

theorem serve_of_ne {p q : Party} (h : q ≠ p) (x : World) (ws : List Write) :
    x.serve p ws q = x q :=
  Function.update_of_ne h ..

@[simp] theorem serve_serve (x : World) (p : Party) (ws ws' : List Write) :
    (x.serve p ws).serve p ws' = x.serve p (ws ++ ws') := by
  simp [serve]

@[simp] theorem results_serve (x : World) (p : Party) (ws : List Write) :
    (x.serve p ws).results = x.results :=
  rfl

@[simp] theorem report_apply (x : World) (rs : List (String × Bool)) (p : Party) :
    x.report rs p = x p :=
  rfl

/-- Requests are answered and carried out, and the flag is not set. In an `outage` any request
can fail, a write with or without the effect. Iterations have any order. -/
def Answers (outage : Prop) (x : World) : Entry Event Reply → World → Prop
  | ⟨.createClient _, r⟩, x' => (outage ∨ r = .ok ()) ∧ x' = x
  | ⟨.read p q, .ok d⟩, x' => d = (x p).inst.doc q ∧ x' = x
  | ⟨.read _ _, .error _⟩, x' => outage ∧ x' = x
  | ⟨.write p w, .ok _⟩, x' => x' = x.serve p [w]
  | ⟨.write p w, .error _⟩, x' => outage ∧ (x' = x ∨ x' = x.serve p [w])
  | ⟨.updateResult host ok _, _⟩, x' => x' = x.report [(host, ok)]
  | ⟨.readRunning, r⟩, x' => (outage ∨ r = false) ∧ x' = x
  | _, x' => x' = x

/-- Nothing fails. -/
abbrev Works : World → Entry Event Reply → World → Prop :=
  Answers False

/-- Anything can fail. -/
abbrev MayFail : World → Entry Event Reply → World → Prop :=
  Answers True

/-- The error of a request that is refused. -/
def refused : Err :=
  .client "500 Internal Server Error" 500

/-- Everything is answered, and carried out but for the writes that are refused. -/
def respond (refuses : Party → Write → Bool) : (e : Event) → World → Reply e × World
  | .createClient _, x => (.ok (), x)
  | .read p q, x => (.ok ((x p).inst.doc q), x)
  | .write p w, x => if refuses p w then (.error refused, x) else (.ok (), x.serve p [w])
  | .rangeMap _ _, x | .rangeReplicas, x => (.stored, x)
  | .now, x => ((0 : ℤ), x)
  | .readRunning, x => (false, x)
  | .cronNext, x => (none, x)
  | .updateResult host ok _, x => ((), x.report [(host, ok)])
  | .setRunning _, x | .setLastSyncTime _, x | .setNextSyncTime _, x => ((), x)

/-- Writes are refused in an outage. -/
theorem answers_respond {outage : Prop} (refuses : Party → Write → Bool)
    (h : ∀ p w, refuses p w = true → outage) (e : Event) (x : World) :
    Answers outage x ⟨e, (respond refuses e x).1⟩ (respond refuses e x).2 := by
  cases e with
  | createClient | readRunning => exact ⟨Or.inr rfl, rfl⟩
  | read => exact ⟨rfl, rfl⟩
  | write p w =>
    simp only [respond]
    split_ifs with hrefuses
    · exact ⟨h p w hrefuses, Or.inl rfl⟩
    · rfl
  | _ => rfl

/-- Every event has an answer. -/
theorem exists_answers (outage : Prop) (x : World) (e : Event) :
    ∃ r x', Answers outage x ⟨e, r⟩ x' :=
  ⟨_, _, answers_respond (fun _ _ => false) (fun _ _ h => absurd h Bool.false_ne_true) e x⟩

section Rules

variable {outage : Prop} {α σ : Type} {cl : Client} {s : σ} {x : World}

/-- An event that changes nothing. -/
theorem ensures_perform_bind {e : Event} {k : Reply e → Go α} {Q : Option α → World → Prop}
    (h : ∀ r x', Answers outage x ⟨e, r⟩ x' → x' = x)
    (hk : ∀ r, (k r).Ensures (Answers outage) x Q) :
    (perform e >>= k).Ensures (Answers outage) x Q := by
  refine Prog.ensures_perform_bind.mpr fun r x' hstep => ?_
  rw [h r x' hstep]
  exact hk r

/-- A read is answered, or fails in an outage. -/
theorem ensures_doGet_bind {q : Read} {k : Doc q → Call σ α}
    {Q : Act.Outcome σ Err α → World → Prop} (herr : outage → ∀ e, Q (some (.error e, s)) x)
    (hk : (k ((x cl.party).inst.doc q) s).Ensures (Answers outage) x Q) :
    ((cl.doGet q >>= k) s).Ensures (Answers outage) x Q := by
  rintro (e | d) x' ⟨h, rfl⟩
  · exact herr h e
  · obtain rfl : d = _ := h
    exact hk

theorem ensures_attempt_doGet_bind {q : Read} {k : Except Err (Doc q) → Call σ α}
    {Q : Act.Outcome σ Err α → World → Prop}
    (herr : outage → ∀ e, (k (.error e) s).Ensures (Answers outage) x Q)
    (hk : (k (.ok ((x cl.party).inst.doc q)) s).Ensures (Answers outage) x Q) :
    ((Act.attempt (cl.doGet q) >>= k) s).Ensures (Answers outage) x Q := by
  rintro (e | d) x' ⟨h, rfl⟩
  · exact herr h e
  · obtain rfl : d = _ := h
    exact hk

theorem ensures_rangeMap_bind {site : MergeSite} {k : MapOrder String → Call σ α}
    {Q : Act.Outcome σ Err α → World → Prop}
    (hk : ∀ order, (k order s).Ensures (Answers outage) x Q) :
    ((cl.rangeMap site >>= k) s).Ensures (Answers outage) x Q := by
  rintro order x' rfl
  exact hk order

end Rules

end World

/-! ## Sending writes -/

/-- What is left of a computation that sends `ws` : all is done, or in an outage a part. -/
def Sent (outage : Prop) {σ : Type} (cl : Client) (ws : List Write) (s : σ) (x : World) :
    Act.Outcome σ Err Unit → World → Prop := fun out x' =>
  ∃ r ws', out = some (r, s) ∧ x' = x.serve cl.party ws' ∧ ws'.Sublist ws ∧
    (outage ∨ r = .ok () ∧ ws' = ws)

/-- The computation sends `ws`, and nothing else. -/
def Attempts (outage : Prop) {σ : Type} (cl : Client) (ws : List Write) (s : σ)
    (m : Call σ Unit) : Prop :=
  ∀ x : World, (m s).Ensures (World.Answers outage) x (Sent outage cl ws s x)

section Attempts

variable {outage : Prop} {α σ : Type} {cl : Client} {s : σ} {x x₁ x' : World}
  {ws ws' : List Write} {m : Call σ Unit} {k : Unit → Call σ Unit}
  {out : Act.Outcome σ Err Unit}

/-- A failure leaves the writes after it undone. -/
theorem Sent.of_error {e : Err} (h : Sent outage cl ws s x (some (.error e, s)) x₁)
    (ws' : List Write) : Sent outage cl (ws ++ ws') s x (some (.error e, s)) x₁ := by
  obtain ⟨r, part, hr, rfl, hsub, hall⟩ := h
  obtain ⟨rfl, -⟩ := Prod.mk.inj (Option.some.inj hr)
  have houtage := hall.resolve_right fun h => nomatch h.1
  exact ⟨.error e, part, rfl, rfl, hsub.trans (List.sublist_append_left ..), Or.inl houtage⟩

theorem Sent.append (h : Sent outage cl ws s x (some (.ok (), s)) x₁)
    (h' : Sent outage cl ws' s x₁ out x') : Sent outage cl (ws ++ ws') s x out x' := by
  obtain ⟨r, part, -, rfl, hsub, hall⟩ := h
  obtain ⟨r', part', rfl, rfl, hsub', hall'⟩ := h'
  refine ⟨r', part ++ part', rfl, x.serve_serve _ _ _, hsub.append hsub', ?_⟩
  rcases hall with houtage | ⟨-, rfl⟩
  · exact Or.inl houtage
  · exact hall'.imp_right fun ⟨hr, hpart⟩ => ⟨hr, hpart ▸ rfl⟩

/-- The outcome has the state that was there. -/
theorem Sent.exists_outcome (h : Sent outage cl ws s x out x') : ∃ r, out = some (r, s) := by
  obtain ⟨r, -, hout, -⟩ := h
  exact ⟨r, hout⟩

theorem attempts_pure : Attempts outage cl [] s (pure ()) := fun x =>
  ⟨.ok (), [], rfl, (x.serve_nil _).symm, .refl _, Or.inr ⟨rfl, rfl⟩⟩

theorem attempts_send (w : Write) : Attempts outage cl [w] s (cl.send w) := by
  intro x r x' hstep
  rcases r with e | _
  · obtain ⟨houtage, rfl | rfl⟩ := hstep
    · exact ⟨.error e, [], rfl, (x'.serve_nil _).symm, List.nil_sublist _, Or.inl houtage⟩
    · exact ⟨.error e, [w], rfl, rfl, .refl _, Or.inl houtage⟩
  · obtain rfl : x' = _ := hstep
    exact ⟨.ok (), [w], rfl, rfl, .refl _, Or.inr ⟨rfl, rfl⟩⟩

theorem Attempts.bind (hm : Attempts outage cl ws s m) (hk : Attempts outage cl ws' s (k ())) :
    Attempts outage cl (ws ++ ws') s (m >>= k) := by
  intro x
  refine Act.ensures_bind.mpr ((hm x).mono fun out x₁ h => ?_)
  obtain ⟨e | _, rfl⟩ := h.exists_outcome
  · exact h.of_error ws'
  · exact (hk x₁).mono fun out x' h' => h.append h'

theorem Attempts.tolerate (hm : Attempts outage cl ws s m) (keepGoing : Bool) :
    Attempts outage cl ws s (Act.tolerate keepGoing m) := by
  intro x
  refine Act.ensures_bind.mpr (Prog.ensures_bind.mpr ((hm x).mono ?_))
  rintro _ x₁ ⟨e | _, part, rfl, rfl, hsub, hall⟩
  · have houtage := hall.resolve_right fun h => nomatch h.1
    cases keepGoing
    · exact ⟨.error e, part, rfl, rfl, hsub, Or.inl houtage⟩
    · exact ⟨.ok (), part, rfl, rfl, hsub, Or.inl houtage⟩
  · exact ⟨.ok (), part, rfl, rfl, hsub, hall⟩

/-- A loop that sends one write for each element. -/
theorem Attempts.forEach {body : α → Call σ Unit} {f : α → Write} : ∀ {as : List α},
    (∀ a ∈ as, Attempts outage cl [f a] s (body a)) →
      Attempts outage cl (as.map f) s (Act.forEach as body)
  | [], _ => attempts_pure
  | a :: as, h =>
    Attempts.bind (h a (by simp)) (Attempts.forEach fun b hb => h b (by simp [hb]))

end Attempts

end AghSync
