import AghSync.Authority
import AghSync.Lowering
import AghSync.Requests
import AghSync.Rounds

/-!
# The client over HTTP

What `doGet`, `doPost` and `doPut` make of the response to a request. Each read and write of the
sync is one exchange with a server (`Resty.carryOut`), so a run of the worker over HTTP is one of
the worker, taken apart. An instance that redirects a read to its setup needs the setup.

On the wire too a replica is only set up right after it redirected its status to the setup, and
only written while the latest response to a request for its status was good
(`Http.authorized`).
-/

open Interaction Interaction.Prog

namespace AghSync

namespace Http

/-! ## Responses -/

/-- The part of a response that the client uses. -/
structure Response where
  statusCode : ℕ
  status : String := ""
  body : String := ""
  location : String := ""
  deriving DecidableEq

/-- What a request returns : a response, an error, or both. -/
structure Result where
  resp : Option Response
  err : Option String
  deriving DecidableEq

/-- `detailedError`, if there is a response. -/
def detailedError (resp : Response) (err : Option String) : Err :=
  .client (resp.status ++ (if resp.body = "" then "" else "(" ++ resp.body ++ ")") ++
    (err.map (": " ++ ·)).getD "") resp.statusCode

/-- The response redirects to the setup of the instance. -/
def Response.redirectsToSetup (resp : Response) : Bool :=
  resp.statusCode = 302 &&
    (resp.location = "/install.html" || resp.location = "/control/install.html")

namespace Result

/-- `doGet`, after the request. Without a response it dereferences nil. -/
def get (res : Result) : Option (Except Err Response) :=
  match res.resp, res.err with
  | some resp, some err =>
    if resp.redirectsToSetup then some (.error .setupNeeded)
    else some (.error (detailedError resp (some err)))
  | some resp, none =>
    if resp.statusCode ≠ 200 then some (.error (detailedError resp none)) else some (.ok resp)
  | none, _ => none

/-- `doPost` and `doPut`, after the request. -/
def send (res : Result) : Option (Except Err Unit) :=
  match res.resp, res.err with
  | some resp, some err => some (.error (detailedError resp (some err)))
  | some resp, none =>
    if resp.statusCode ≠ 200 then some (.error (detailedError resp none)) else some (.ok ())
  | none, _ => none

/-- The request was answered as it should be. -/
def Good (res : Result) : Prop :=
  res.err = none ∧ ∃ resp, res.resp = some resp ∧ resp.statusCode = 200

variable {res : Result}

theorem get_eq_ok_iff {resp : Response} : res.get = some (.ok resp) ↔
    res = ⟨some resp, none⟩ ∧ resp.statusCode = 200 := by
  obtain ⟨_ | resp', _ | err⟩ := res
  · exact iff_of_false nofun (by simp)
  · exact iff_of_false nofun (by simp)
  · by_cases hcode : resp'.statusCode = 200
    · simp only [get, hcode, ne_eq, not_true_eq_false, if_false, Option.some.injEq,
        Except.ok.injEq, Result.mk.injEq, and_true]
      exact ⟨fun h => ⟨h, h ▸ hcode⟩, And.left⟩
    · simp only [get, ne_eq, hcode, not_false_eq_true, if_true, Option.some.injEq, reduceCtorEq,
        false_iff, Result.mk.injEq, and_true, not_and]
      rintro rfl
      exact hcode
  · simp only [get]
    split_ifs <;> simp

/-- An instance needs the setup if it redirects to it. -/
theorem get_eq_setupNeeded_iff : res.get = some (.error .setupNeeded) ↔
    ∃ resp err, res = ⟨some resp, some err⟩ ∧ resp.redirectsToSetup = true := by
  obtain ⟨_ | resp, _ | err⟩ := res
  · exact iff_of_false nofun (by simp)
  · exact iff_of_false nofun (by simp)
  · simp only [get]
    split_ifs <;> simp [detailedError]
  · simp only [get]
    split_ifs with hredirect <;> simp [detailedError, hredirect]

theorem send_eq_ok_iff : res.send = some (.ok ()) ↔ res.Good := by
  obtain ⟨_ | resp, _ | err⟩ := res
  · exact iff_of_false nofun (by simp [Good])
  · exact iff_of_false nofun (by simp [Good])
  · by_cases hcode : resp.statusCode = 200 <;> simp [send, Good, hcode]
  · exact iff_of_false (by simp [send]) (by simp [Good])

/-- With a response the client does not crash. -/
theorem get_ne_none {resp : Response} (h : res.resp = some resp) : res.get ≠ none := by
  obtain ⟨_ | resp', _ | err⟩ := res
  · cases h
  · cases h
  · simp only [get]
    split_ifs <;> nofun
  · simp only [get]
    split_ifs <;> nofun

theorem send_ne_none {resp : Response} (h : res.resp = some resp) : res.send ≠ none := by
  obtain ⟨_ | resp', _ | err⟩ := res
  · cases h
  · cases h
  · simp only [send]
    split_ifs <;> nofun
  · nofun

theorem exists_get_iff : (∃ resp, res.get = some (.ok resp)) ↔ res.Good := by
  simp only [get_eq_ok_iff]
  constructor
  · rintro ⟨resp, rfl, hcode⟩
    exact ⟨rfl, resp, rfl, hcode⟩
  · rintro ⟨herr, resp, hresp, hcode⟩
    exact ⟨resp, by rw [← hresp, ← herr], hcode⟩

end Result

/-! ## Exchanges -/

/-- An event on the wire : an exchange with an instance, or one that needs none. -/
inductive Wire
  | exchange (p : Party) (req : Request)
  | other (e : Event)

/-- The replies on the wire. -/
abbrev Wire.Reply : Wire → Type
  | .exchange _ _ => Result
  | .other e => AghSync.Reply e

/-- Send a request and go on with what `f` makes of its result, or crash. -/
def exchange {α : Type} (p : Party) (req : Request) (f : Result → Option α) :
    Prog Wire Wire.Reply α :=
  Prog.ask (Wire.exchange p req) fun res => (f res).elim .crash .ret

/-- `resty` : what it reads from the body of a response. -/
structure Resty where
  decode : (q : Read) → Response → Doc q

variable (resty : Resty)

/-- An event of the sync, over HTTP. -/
def Resty.carryOut : (e : Event) → Prog Wire Wire.Reply (AghSync.Reply e)
  | .read p q => exchange p q.request fun res => res.get.map (Except.map (resty.decode q))
  | .write p w => exchange p w.request Result.send
  | e => Prog.perform (Wire.other e)

instance (e : Event) : Nonempty (AghSync.Reply e) := by
  obtain ⟨r, -⟩ := World.exists_answers False ⟨fun _ => { inst := {} }, []⟩ e
  exact ⟨r⟩

section CarryOut

variable {resty} {p : Party} {t : Trace Wire Wire.Reply}

theorem runs_exchange {α : Type} {req : Request} {f : Result → Option α} {out : Option α} :
    (exchange p req f).Runs t out ↔
      ∃ res : Result, t = [⟨.exchange p req, res⟩] ∧ out = f res := by
  have hend : ∀ (o : Option α) (t : Trace Wire Wire.Reply),
      Prog.Runs (o.elim .crash .ret) t out ↔ t = [] ∧ out = o := by
    rintro (_ | a) t
    · exact runs_crash
    · exact runs_ret
  constructor
  · intro h
    obtain ⟨res, t, rfl, hk⟩ := runs_ask.mp h
    obtain ⟨rfl, rfl⟩ := (hend (f res) t).mp hk
    exact ⟨res, rfl, rfl⟩
  · rintro ⟨res, rfl, rfl⟩
    exact .ask ((hend (f res) []).mpr ⟨rfl, rfl⟩)

theorem runs_read {q : Read} {out : Option (Except Err (Doc q))} :
    (resty.carryOut (.read p q)).Runs t out ↔ ∃ res : Result,
      t = [⟨.exchange p q.request, res⟩] ∧ out = res.get.map (Except.map (resty.decode q)) :=
  runs_exchange

theorem runs_write {w : Write} {out : Option (Except Err Unit)} :
    (resty.carryOut (.write p w)).Runs t out ↔ ∃ res : Result,
      t = [⟨.exchange p w.request, res⟩] ∧ out = res.send :=
  runs_exchange

theorem runs_other {e : Event} {out : Option (AghSync.Reply e)} :
    (Prog.perform (Wire.other e) : Prog Wire Wire.Reply (AghSync.Reply e)).Runs t out ↔
      ∃ r, t = [⟨.other e, r⟩] ∧ out = some r := by
  constructor
  · intro h
    obtain ⟨r, t, rfl, hk⟩ := runs_ask.mp h
    obtain ⟨rfl, rfl⟩ := runs_ret.mp hk
    exact ⟨r, rfl, rfl⟩
  · rintro ⟨r, rfl, rfl⟩
    exact .ask (.ret r)

/-- An exchange is all that is done for a read or a write. -/
theorem request_of_runs {e : Event} {out : Option (AghSync.Reply e)} {req : Request}
    {res : Result} {t' : Trace Wire Wire.Reply}
    (h : (resty.carryOut e).Runs (t ++ ⟨.exchange p req, res⟩ :: t') out) :
    t = [] ∧ ((∃ q, e = .read p q ∧ req = q.request) ∨ ∃ w, e = .write p w ∧ req = w.request) := by
  have hsingle : ∀ y : Entry Wire Wire.Reply, t ++ ⟨.exchange p req, res⟩ :: t' = [y] →
      t = [] ∧ y = ⟨.exchange p req, res⟩ := fun y hy => by
    cases t with
    | nil => exact ⟨rfl, (List.cons.inj hy).1.symm⟩
    | cons z t => simp at hy
  cases e with
  | read p' q =>
    obtain ⟨res', ht, -⟩ := runs_read.mp h
    obtain ⟨hnil, hy⟩ := hsingle _ ht
    cases hy
    exact ⟨hnil, Or.inl ⟨q, rfl, rfl⟩⟩
  | write p' w =>
    obtain ⟨res', ht, -⟩ := runs_write.mp h
    obtain ⟨hnil, hy⟩ := hsingle _ ht
    cases hy
    exact ⟨hnil, Or.inr ⟨w, rfl, rfl⟩⟩
  | _ =>
    obtain ⟨r, ht, -⟩ := runs_other.mp h
    obtain ⟨-, hy⟩ := hsingle _ ht
    cases hy

end CarryOut

/-! ## The latest status -/

/-- What a request for the status of `p` returned. -/
def statusResult (p : Party) : Entry Wire Wire.Reply → Option Result
  | ⟨.exchange p' req, res⟩ => if p' = p ∧ req = Read.status.request then some res else none
  | _ => none

/-- What the latest request for the status of `p` returned. -/
def lastStatus (p : Party) (tr : Trace Wire Wire.Reply) : Option Result :=
  (tr.filterMap (statusResult p)).getLast?

variable {resty} {p : Party} {hist : Trace Event AghSync.Reply} {s : Trace Wire Wire.Reply}

/-- The requests for the status, over HTTP. -/
theorem map_statusReply (h : Lowered resty.carryOut hist s) :
    (hist.filterMap (statusReply p)).map some = (s.filterMap (statusResult p)).map fun res =>
      res.get.map (Except.map (resty.decode .status)) := by
  induction h with
  | nil => rfl
  | @cons e r t s hist hrun _ ih =>
    rw [List.filterMap_append, List.map_append, ← ih]
    cases e with
    | read p' q =>
      obtain ⟨res, rfl, hr⟩ := runs_read.mp hrun
      by_cases hq : p' = p ∧ q = .status
      · obtain ⟨rfl, rfl⟩ := hq
        rw [List.filterMap_cons_some (statusReply_status p' r), List.map_cons, hr]
        simp [statusResult]
      · have hnone : statusReply p ⟨.read p' q, r⟩ = none := by
          cases q with
          | status => exact if_neg fun hp => hq ⟨hp, rfl⟩
          | _ => rfl
        have hreq : ¬(p' = p ∧ q.request = Read.status.request) := fun hreq =>
          hq ⟨hreq.1, Read.request_injective hreq.2⟩
        rw [List.filterMap_cons_none hnone]
        simp [statusResult, hreq]
    | write p' w =>
      obtain ⟨res, rfl, hr⟩ := runs_write.mp hrun
      have hreq : w.request ≠ Read.status.request := fun hreq =>
        w.method_ne_get (congrArg Request.method hreq)
      rw [List.filterMap_cons_none rfl]
      simp [statusResult, hreq]
    | _ =>
      obtain ⟨r, rfl, -⟩ := runs_other.mp hrun
      rfl

/-- The latest status, over HTTP. -/
theorem exists_lastStatus (h : Lowered resty.carryOut hist s) {d : Except Err Model.ServerStatus}
    (hlast : AghSync.lastStatus p hist = some d) :
    ∃ res, lastStatus p s = some res ∧
      res.get.map (Except.map (resty.decode .status)) = some d := by
  have hmap := congrArg List.getLast? (map_statusReply (p := p) h)
  rw [List.getLast?_map, List.getLast?_map] at hmap
  have hlast : (hist.filterMap (statusReply p)).getLast? = some d := hlast
  rw [hlast, Option.map_some] at hmap
  exact Option.map_eq_some_iff.mp hmap.symm

/-- The last event, if it was a request for a document. -/
theorem exists_getLast (h : Lowered resty.carryOut hist s) {q : Read} {d : Except Err (Doc q)}
    (hlast : hist.getLast? = some ⟨.read p q, d⟩) :
    ∃ res, s.getLast? = some ⟨.exchange p q.request, res⟩ ∧
      res.get.map (Except.map (resty.decode q)) = some d := by
  obtain ⟨pre, rfl⟩ := List.getLast?_eq_some_iff.mp hlast
  obtain ⟨s₁, _, rfl, -, _ | ⟨hrun, _ | _⟩⟩ := lowered_append.mp h
  obtain ⟨res, rfl, hd⟩ := runs_read.mp hrun
  exact ⟨res, by simp, hd.symm⟩

/-! ## What a write needs -/

/-- No write without authority, on the wire. In every run of the worker over HTTP, whatever the
servers answer, every request that is not a `GET` goes to a replica. The setup is sent only if it is
to be automatic, right after a request for the status was redirected to it. Everything else is sent
only while the latest response to such a request is good, with a supported version. -/
theorem authorized {w : Worker} {pre post : Trace Wire Wire.Reply} {req : Request} {res : Result}
    {out : Option Unit}
    (h : (w.sync.lower resty.carryOut).Runs (pre ++ ⟨.exchange p req, res⟩ :: post) out)
    (hreq : req.method ≠ .get) : ∃ inst ∈ w.replicas, p = .replica inst ∧
      if req.path = "/install/configure" then
        inst.autoSetup = true ∧ ∃ resp err, pre.getLast? =
          some ⟨.exchange p Read.status.request, ⟨some resp, some err⟩⟩ ∧
            resp.redirectsToSetup = true
      else ∃ resp, lastStatus p pre = some ⟨some resp, none⟩ ∧ resp.statusCode = 200 ∧
        w.deps.tooOld (resty.decode .status resp) = false := by
  obtain ⟨hist, e, r, rest, out', s, t, hrun, hlow, rfl, t', o, hx⟩ := h.upper
  obtain ⟨rfl, ⟨q, rfl, rfl⟩ | ⟨wr, rfl, rfl⟩⟩ := request_of_runs hx
  · exact absurd rfl hreq
  rw [List.append_nil]
  obtain ⟨inst, hinst, hparty⟩ :=
    Worker.exists_replica_of_write hrun (List.mem_append_right _ List.mem_cons_self)
  have hcleared : Cleared w hist ⟨.write p wr, r⟩ := (w.always_cleared_sync hrun).at
  refine ⟨inst, hinst, hparty, ?_⟩
  split_ifs with hpath
  · obtain ⟨cfg, rfl⟩ := Write.path_eq_install_iff.mp hpath
    obtain ⟨inst', hparty', hauto, hlast⟩ := hcleared
    obtain rfl := Party.replica.inj (hparty.symm.trans hparty')
    obtain ⟨last, hs, hd⟩ := exists_getLast hlow hlast
    obtain ⟨d, hget, hd⟩ := Option.map_eq_some_iff.mp hd
    cases d with
    | ok resp => cases hd
    | error e =>
      obtain rfl := Except.error.inj hd
      obtain ⟨resp, err, rfl, hredirects⟩ := Result.get_eq_setupNeeded_iff.mp hget
      exact ⟨hauto, resp, err, hs, hredirects⟩
  · have hlast : ∃ st, AghSync.lastStatus p hist = some (.ok st) ∧ w.deps.tooOld st = false := by
      cases wr with
      | installConfigure cfg => exact absurd rfl hpath
      | _ =>
        obtain ⟨inst', st, -, hlast, hst⟩ := hcleared
        exact ⟨st, hlast, hst⟩
    obtain ⟨st, hlast, hst⟩ := hlast
    obtain ⟨last, hs, hd⟩ := exists_lastStatus hlow hlast
    obtain ⟨d, hget, hd⟩ := Option.map_eq_some_iff.mp hd
    cases d with
    | error e => cases hd
    | ok resp =>
      obtain rfl := Except.ok.inj hd
      obtain ⟨rfl, hcode⟩ := Result.get_eq_ok_iff.mp hget
      exact ⟨resp, hs, hcode, hst⟩

/-- A body is read as a document without settings. -/
def sampleResty : Resty where
  decode q _ := blankDoc q

/-- Every request is good, but replicas redirect their status to the setup. -/
def sampleAnswer : (e : Wire) → Unit → e.Reply × Unit
  | .exchange p req, s =>
    (if p ≠ .origin ∧ req = Read.status.request then
      ⟨some { statusCode := 302, location := "/install.html" }, some "auto redirect is disabled"⟩
    else ⟨some { statusCode := 200 }, none⟩, s)
  | .other e, s => ({} : Scenario).answer e s

/-- A replica that is set up. -/
theorem authorized_sample : ∃ w : Worker, ∃ tr pre post out inst,
    (w.sync.lower sampleResty.carryOut).Runs tr out ∧
      tr = pre ++ ⟨.exchange (.replica inst) ⟨.post, "/install/configure", some (marshal
        ({ web := ⟨"0.0.0.0", 3000, "", false⟩, dns := ⟨"0.0.0.0", 53, "", false⟩ } :
          InstallConfig))⟩, ⟨some { statusCode := 200 }, none⟩⟩ :: post ∧
      inst.autoSetup = true := by
  let inst : AdGuardInstance := { sampleReplica "/a" with autoSetup := true }
  let w : Worker := { deps := sampleDeps, cfg := { origin := {}, replicas := [inst] } }
  have hruns := runs_exec sampleAnswer (w.sync.lower sampleResty.carryOut) ()
  have hsetup : ((w.sync.lower sampleResty.carryOut).transcript sampleAnswer ())[21]? =
      some (⟨.exchange (.replica inst) ⟨.post, "/install/configure", some (marshal
        ({ web := ⟨"0.0.0.0", 3000, "", false⟩, dns := ⟨"0.0.0.0", 53, "", false⟩ } :
          InstallConfig))⟩, ⟨some { statusCode := 200 }, none⟩⟩ : Entry Wire Wire.Reply) := rfl
  obtain ⟨pre, post, hsplit⟩ := List.append_of_mem (List.mem_of_getElem? hsetup)
  obtain ⟨inst', -, hparty, hwrite⟩ := authorized (hsplit ▸ hruns) (by simp)
  obtain rfl := Party.replica.inj hparty
  rw [if_pos rfl] at hwrite
  exact ⟨w, _, pre, post, _, _, hruns, hsplit, hwrite.1⟩

end Http

end AghSync
