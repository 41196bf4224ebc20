import Mathlib.Data.List.DropRight
import Mathlib.Data.Nat.Notation

/-!
# The log history

The entries that are written to the log are kept as texts, the last `logHistorySize` of them.
All loggers come from one root and share the history. An entry that cannot be encoded is not
kept. `logs_run` : the history is the end of what has been written since it was last cleared.
-/

namespace AghSync.Log

/-- `logHistorySize`. -/
def logHistorySize : ℕ :=
  50

/-- How entries are encoded : an encoder has fields of its own, that are added to it. -/
structure Encoding (Enc Field Entry Err : Type) where
  clone : Enc → Enc
  addTo : Field → Enc → Enc
  encodeEntry : Enc → Entry → List Field → Except Err String

/-- `logList` : a logger that keeps what is written to it. -/
structure LogList (Enc Level : Type) where
  enabled : Level → Bool
  enc : Enc

variable {Enc Field Entry Level Err : Type} (z : Encoding Enc Field Entry Err)

/-- `addFields`. -/
def addFields (enc : Enc) (fields : List Field) : Enc :=
  fields.foldl (fun enc field => z.addTo field enc) enc

namespace LogList

/-- `logList.clone`. -/
def clone (l : LogList Enc Level) : LogList Enc Level :=
  { enabled := l.enabled, enc := z.clone l.enc }

/-- `logList.With`. -/
def withFields (l : LogList Enc Level) (fields : List Field) : LogList Enc Level :=
  let clone := l.clone z
  { clone with enc := addFields z clone.enc fields }

/-- `logList.Check` : the loggers an entry is written to. -/
def check (level : Entry → Level) (l : LogList Enc Level) (ent : Entry)
    (ce : List (LogList Enc Level)) : List (LogList Enc Level) :=
  if l.enabled (level ent) then ce ++ [l] else ce

/-- `logList.Write`, with the history afterwards. -/
def write (l : LogList Enc Level) (ent : Entry) (fields : List Field) (logs : List String) :
    Option Err × List String :=
  match z.encodeEntry l.enc ent fields with
  | .error err => (some err, logs)
  | .ok buf =>
    let logs := logs ++ [buf]
    (none, if logs.length > logHistorySize then logs.drop (logs.length - logHistorySize)
      else logs)

end LogList

/-- The loggers that are made of `root`. -/
inductive Derived (root : LogList Enc Level) : LogList Enc Level → Prop
  | root : Derived root root
  | withFields {l : LogList Enc Level} (h : Derived root l) (fields : List Field) :
    Derived root (l.withFields z fields)

/-- What is done to the history : an entry is written to some logger, or it is cleared. -/
inductive LogOp (root : LogList Enc Level)
  | write (l : LogList Enc Level) (derived : Derived z root l) (ent : Entry) (fields : List Field)
  | clear

namespace LogOp

variable {z} {root : LogList Enc Level}

/-- One step of the history. -/
def run (logs : List String) : LogOp z root → List String
  | write l _ ent fields => (l.write z ent fields logs).2
  | clear => []

/-- The history is not cleared. -/
def keeps : LogOp z root → Bool
  | write .. => true
  | clear => false

/-- The text that is written, if any. -/
def encoded : LogOp z root → Option String
  | write l _ ent fields => (z.encodeEntry l.enc ent fields).toOption
  | clear => none

/-- The texts that have been written since the history was cleared. -/
def encodedSinceClear (ops : List (LogOp z root)) : List String :=
  (ops.rtakeWhile keeps).filterMap encoded

theorem encodedSinceClear_concat (ops : List (LogOp z root)) (op : LogOp z root) :
    encodedSinceClear (ops ++ [op]) =
      if op.keeps then encodedSinceClear ops ++ op.encoded.toList else [] := by
  rw [encodedSinceClear, List.rtakeWhile_concat]
  split_ifs
  · rw [List.filterMap_append, List.filterMap_cons]
    cases op.encoded <;> rfl
  · rfl

end LogOp

/-! ## The history of a run -/

/-- What is cut off early would be cut off later. -/
theorem rtake_concat_rtake {α : Type} (n : ℕ) (xs : List α) (x : α) :
    (xs.rtake n ++ [x]).rtake n = (xs ++ [x]).rtake n := by
  simp only [List.rtake_eq_reverse_take_reverse, List.reverse_append, List.reverse_singleton,
    List.singleton_append, List.reverse_reverse]
  cases n with
  | zero => rfl
  | succ n => simp only [List.take_succ_cons, List.take_take, Nat.min_eq_left n.le_succ]

theorem length_rtake {α : Type} (n : ℕ) (xs : List α) :
    (xs.rtake n).length = min xs.length n := by
  rw [List.rtake, List.length_drop]
  omega

section Write

variable {z} {l : LogList Enc Level} {ent : Entry} {fields : List Field}

theorem LogList.write_of_error {err : Err} (h : z.encodeEntry l.enc ent fields = .error err)
    (logs : List String) : l.write z ent fields logs = (some err, logs) := by
  rw [write, h]

/-- The history is cut at its front. -/
theorem LogList.write_of_ok {buf : String} (h : z.encodeEntry l.enc ent fields = .ok buf)
    (logs : List String) :
    l.write z ent fields logs = (none, (logs ++ [buf]).rtake logHistorySize) := by
  rw [write, h]
  simp only [Prod.mk.injEq, true_and]
  split_ifs with hlength
  · rfl
  · rw [List.rtake, Nat.sub_eq_zero_of_le (Nat.le_of_not_lt hlength), List.drop_zero]

/-- One step keeps the history at the end of what has been written. -/
theorem LogOp.run_rtake {root : LogList Enc Level} (ops : List (LogOp z root))
    (op : LogOp z root) : op.run ((encodedSinceClear ops).rtake logHistorySize) =
      (encodedSinceClear (ops ++ [op])).rtake logHistorySize := by
  rw [encodedSinceClear_concat]
  cases op with
  | clear => rfl
  | write l derived ent fields =>
    have hkeeps : keeps (.write l derived ent fields) = true := rfl
    rw [if_pos hkeeps, run]
    cases hencode : z.encodeEntry l.enc ent fields with
    | error err =>
      have hencoded : encoded (.write l derived ent fields) = none := by
        rw [encoded, hencode]
        rfl
      rw [LogList.write_of_error hencode, hencoded, Option.toList_none, List.append_nil]
    | ok buf =>
      have hencoded : encoded (.write l derived ent fields) = some buf := by
        rw [encoded, hencode]
        rfl
      rw [LogList.write_of_ok hencode, hencoded, Option.toList_some, rtake_concat_rtake]

end Write

/-- After any writes through any loggers and any clears the history is the last fifty texts that
have been written since, and an entry that cannot be encoded leaves it as it is. -/
theorem logs_run {Enc Field Entry Level Err : Type} (z : Encoding Enc Field Entry Err)
    (root : LogList Enc Level) :
    (∀ ops : List (LogOp z root), ops.foldl LogOp.run [] =
      (LogOp.encodedSinceClear ops).rtake 50 ∧
      (ops.foldl LogOp.run []).length = min (LogOp.encodedSinceClear ops).length 50) ∧
    ∀ (l : LogList Enc Level) (ent : Entry) (fields : List Field) (logs : List String) (err : Err),
      z.encodeEntry l.enc ent fields = .error err →
        l.write z ent fields logs = (some err, logs) := by
  have hrun : ∀ ops : List (LogOp z root),
      ops.foldl LogOp.run [] = (LogOp.encodedSinceClear ops).rtake logHistorySize := by
    intro ops
    induction ops using List.reverseRecOn with
    | nil => rfl
    | append_singleton ops op ih =>
      rw [List.foldl_append, ih]
      exact LogOp.run_rtake ops op
  refine ⟨fun ops => ⟨hrun ops, ?_⟩, fun l ent fields logs err herr => ?_⟩
  · rw [hrun ops]
    exact length_rtake _ _
  · exact LogList.write_of_error herr logs

end AghSync.Log
