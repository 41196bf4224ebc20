import AghSync.Pass
import AghSync.Server

/-!
# Runs with fixed answers

A `Scenario` answers all events of a run : each party has one document per read and one
answer per write, the replicas are visited in one order, and every other iteration keeps the
stored order. Running a worker against it gives one concrete run (`Scenario.runs`), so that
what holds of all runs can be looked at on one.
-/

open Interaction

namespace AghSync

open Model

/-- The packages of the worker, for examples. Versions of one length are compared as
strings. -/
def sampleDeps : Deps where
  semverCompare v₁ v₂ :=
    if v₁.toList = v₂.toList then 0 else if v₁.toList < v₂.toList then -1 else 1
  copierCopy := id

/-- A replica at a path of one host. -/
def sampleReplica (path : String) : AdGuardInstance where
  url := "r"
  apiPath := path
  host := "r"

/-- A worker with replicas on one host. -/
def sampleWorker (features : Features) (continueOnError : Bool) (paths : List String) :
    Worker where
  deps := sampleDeps
  cfg := {
    origin := {}
    replicas := paths.map sampleReplica
    continueOnError := continueOnError
    features := features }

/-- A document without settings, of an instance with a supported version. -/
def blankDoc : (q : Read) → Doc q
  | .status => { version := Versions.minAgh }
  | q => ({} : Server).doc q

/-- Answers that stay the same during a run. -/
structure Scenario where
  doc : Party → (q : Read) → Except Err (Doc q) := fun _ q => .ok (blankDoc q)
  write : Party → Write → Except Err Unit := fun _ _ => .ok ()
  replicas : MapOrder String := .stored

namespace Scenario

/-- The answer to an event. The clock stands still, and no run is under way. -/
def answer (sc : Scenario) : (e : Event) → Unit → Reply e × Unit
  | .read p q, s => (sc.doc p q, s)
  | .write p wr, s => (sc.write p wr, s)
  | .rangeReplicas, s => (sc.replicas, s)
  | .rangeMap _ _, s => (.stored, s)
  | .createClient _, s => (.ok (), s)
  | .now, s => ((0 : ℤ), s)
  | .readRunning, s => (false, s)
  | .cronNext, s => (none, s)
  | .updateResult _ _ _, s | .setRunning _, s | .setLastSyncTime _, s
  | .setNextSyncTime _, s => ((), s)

/-- The run of a program. -/
def trace {α : Type} (sc : Scenario) (p : Go α) : Trace Event Reply :=
  p.transcript sc.answer ()

theorem runs {α : Type} (sc : Scenario) (p : Go α) :
    Prog.Runs p (sc.trace p) (p.exec sc.answer ()).1 :=
  Prog.runs_exec sc.answer p ()

theorem reply_eq {α : Type} (sc : Scenario) {p : Go α} {x : Entry Event Reply}
    (hx : x ∈ sc.trace p) : x.2 = (sc.answer x.1 ()).1 := by
  unfold trace at hx
  induction p with
  | ret | crash => cases hx
  | ask e k ih =>
    rcases List.mem_cons.mp hx with rfl | hx
    · rfl
    · exact ih _ hx

/-- No call to a party fails that answers every request. -/
theorem not_failed {α : Type} (sc : Scenario) {p : Go α} {q : Party}
    (hdoc : ∀ r, ∃ d, sc.doc q r = .ok d) (hwrite : ∀ wr, sc.write q wr = .ok ())
    {x : Entry Event Reply} (hx : x ∈ sc.trace p) (hparty : x.1.party = some q) :
    ¬Failed x := by
  have hreply := sc.reply_eq hx
  obtain ⟨e, reply⟩ := x
  cases e with
  | read q' r =>
    obtain rfl := Option.some.inj hparty
    obtain ⟨d, hd⟩ := hdoc r
    obtain rfl : reply = .ok d := hreply.trans hd
    exact id
  | write q' wr =>
    obtain rfl := Option.some.inj hparty
    obtain rfl : reply = .ok () := hreply.trans (hwrite wr)
    exact id
  | _ => exact id

/-- A run up to one of its entries. -/
theorem split {tr : Trace Event Reply} {n : ℕ} {x : Entry Event Reply} (h : tr[n]? = some x) :
    tr = tr.take n ++ x :: tr.drop (n + 1) := by
  obtain ⟨hn, rfl⟩ := List.getElem?_eq_some_iff.mp h
  simp

/-- The TLS configuration of the origin differs, and every write is rejected. -/
def rejecting : Scenario where
  doc p q := match p, q with
    | .origin, .tlsStatus => .ok { enabled := some true }
    | _, q => .ok (blankDoc q)
  write _ _ := .error (.other "rejected")

end Scenario

end AghSync
