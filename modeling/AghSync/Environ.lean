import AghSync.Fields

/-!
# The environment

The variables of the process, and what they do to the configuration. The package that parses
them is a parameter : `EnvPackage.Overwrites` says what it does. `enrichReplicasFromEnv` first
collects the replicas whose URL is in a numbered variable, in the order of the environment, and
then parses the variables of each replica, with its place in the list as the number.
-/

open Layers

namespace AghSync

/-! ## Errors -/

/-- What can go wrong while the configuration is loaded. The errors of packages are texts. -/
inductive ConfigErr
  | package (text : String)
  | replicaNumber (v : String)
  | mixedReplicas
  deriving DecidableEq

/-- The text of an error. -/
def ConfigErr.text : ConfigErr → String
  | package text => text
  | replicaNumber v =>
    "numbered replica env variables must have a number id >= 1, got " ++ v.quote
  | mixedReplicas => "mixed replica config in use. " ++
    "Do not use single replica and numbered (list) replica config combined"

/-! ## Variables -/

/-- The environment of a process, in the order of `os.Environ`. -/
structure Environ where
  vars : List (String × String)
  nodup : (vars.map Prod.fst).Nodup

/-- The value of a variable that is set and not empty. -/
def Environ.value (env : Environ) (name : String) : Option String :=
  (env.vars.lookup name).filter (· ≠ "")

theorem Environ.value_eq_some {env : Environ} {name v : String} :
    env.value name = some v ↔ (name, v) ∈ env.vars ∧ v ≠ "" := by
  have hlookup : ∀ {vars : List (String × String)}, (vars.map Prod.fst).Nodup →
      (vars.lookup name = some v ↔ (name, v) ∈ vars) := by
    intro vars hnodup
    induction vars with
    | nil => simp
    | cons x vars ih =>
      obtain ⟨hx, hnodup⟩ := List.nodup_cons.mp hnodup
      rw [List.lookup_cons, List.mem_cons, Prod.ext_iff]
      by_cases hname : name = x.1
      · subst hname
        have hnot : (x.1, v) ∉ vars := fun hmem =>
          hx (List.mem_map_of_mem hmem : (x.1, v).1 ∈ vars.map Prod.fst)
        simp [hnot, eq_comm]
      · simp [hname, beq_eq_false_iff_ne.mpr hname, ih hnodup]
  simp [value, Option.filter_eq_some_iff, hlookup env.nodup]

/-- How values are read from texts. -/
structure Parsers where
  parseBool : String → Option Bool
  parseInt : String → Option ℤ
  parseDuration : String → Option ℤ
  parseMap : String → Option (List (String × String))

namespace Parsers

variable (ps : Parsers) (env : Environ)

/-- The value a text has in a field. -/
def read : (k : Kind) → String → Option k.Value
  | .string => some
  | .bool => ps.parseBool
  | .int => ps.parseInt
  | .duration => ps.parseDuration
  | .boolPointer => fun v => (ps.parseBool v).map some
  | .stringMap => ps.parseMap

/-- What the variables with a prefix say about an instance. -/
def instanceLayer (pre : String) : Layer InstanceField.Value := fun f =>
  f.env.bind fun name => (env.value (pre ++ name)).bind (ps.read f.kind)

/-- What the variables say about the configuration. -/
def rootLayer : Layer RootField.Value := fun f =>
  (env.value f.env).bind (ps.read f.kind)

/-- The variables with a prefix have values of the types of their fields. -/
def Parsable (pre : String) : Prop :=
  ∀ (f : InstanceField) name v, f.env = some name → env.value (pre ++ name) = some v →
    (ps.read f.kind v).isSome

/-- The variables of the configuration have values of the types of their fields. -/
def RootParsable : Prop :=
  ∀ (f : RootField) v, env.value f.env = some v → (ps.read f.kind v).isSome

/-- A variable for a pointer sets it to a value. -/
theorem instanceLayer_dhcpServerEnabled (pre : String) :
    ps.instanceLayer env pre .dhcpServerEnabled ≠ some none := by
  simp [instanceLayer, InstanceField.env, read, Option.bind_eq_some_iff]

end Parsers

/-- The package `env`. -/
structure EnvPackage extends Parsers where
  parse : Environ → Config → Except ConfigErr Config
  parseWithOptions : Environ → String → AdGuardInstance → Except ConfigErr AdGuardInstance

/-- Parsing overwrites the fields whose variables are set and not empty, and leaves the others,
if the pointers are nil. -/
structure EnvPackage.Overwrites (pkg : EnvPackage) (env : Environ) : Prop where
  parse : pkg.RootParsable env → ∀ cfg : Config, cfg.origin = {} → cfg.replica = none →
    cfg.replicas = [] → ∃ cfg', pkg.parse env cfg = .ok cfg' ∧
      ∀ f, cfg'.getRoot f = (pkg.rootLayer env).over cfg.getRoot f
  parseWithOptions : ∀ pre, pkg.Parsable env pre → ∀ i : AdGuardInstance,
    i.dhcpServerEnabled = none →
      pkg.parseWithOptions env pre i = .ok (i.overlay (pkg.instanceLayer env pre))

/-! ## Numbered replicas -/

/-- The prefix of the variables of a numbered replica. -/
def replicaPrefix (n : ℕ) : String :=
  "REPLICA" ++ toString n ++ "_"

/-- The digits in the name of a variable that matches `envReplicasURLPattern`. -/
def envReplicasURL (name : String) : Option (List Char) := do
  let rest ← "REPLICA".toList.isPrefixOf? name.toList
  let digits ← "_URL".toList.isSuffixOf? rest
  if digits ≠ [] ∧ digits.all Char.isDigit then some digits else none

/-- The part of a value that `(.*)` matches. -/
def firstLine (v : String) : String :=
  String.ofList (v.toList.takeWhile (· ≠ '\n'))

/-- The replicas with a URL in a numbered variable, in the order of the variables. -/
def collectReplicas (initialReplicas : List AdGuardInstance) :
    List (String × String) → List AdGuardInstance → Except ConfigErr (List AdGuardInstance)
  | [], replicas => .ok replicas
  | (name, v) :: vars, replicas =>
    match envReplicasURL name with
    | none => collectReplicas initialReplicas vars replicas
    | some digits =>
      let id := Nat.ofDigitChars 10 digits 0
      if id ≤ 0 then .error (.replicaNumber (name ++ "=" ++ v))
      else if id > initialReplicas.length then
        collectReplicas initialReplicas vars (replicas ++ [{ url := firstLine v }])
      else
        let re := initialReplicas[id - 1]?.getD {}
        collectReplicas initialReplicas vars (replicas ++ [{ re with url := firstLine v }])

/-- The saved value of the pointer, if it is nil now. -/
def AdGuardInstance.restoreDhcpServer (i : AdGuardInstance) (saved : Option Bool) :
    AdGuardInstance :=
  if i.dhcpServerEnabled.isNone then { i with dhcpServerEnabled := saved } else i

/-- The variables of the replica with the number `reID`. The pointer is nil while they are
parsed. -/
def enrichReplica (pkg : EnvPackage) (env : Environ) (reID : ℕ) (replica : AdGuardInstance) :
    Except ConfigErr AdGuardInstance := do
  let replicaDhcpServer := replica.dhcpServerEnabled
  let replica ← pkg.parseWithOptions env (replicaPrefix reID)
    { replica with dhcpServerEnabled := none }
  pure (replica.restoreDhcpServer replicaDhcpServer).withAPIPath

/-- The loop over the replicas, from the number `reID` on. -/
def enrichReplicas (pkg : EnvPackage) (env : Environ) :
    ℕ → List AdGuardInstance → Except ConfigErr (List AdGuardInstance)
  | _, [] => pure []
  | reID, replica :: replicas => do
    let replica ← enrichReplica pkg env reID replica
    let replicas ← enrichReplicas pkg env (reID + 1) replicas
    pure (replica :: replicas)

/-- `enrichReplicasFromEnv`. -/
def enrichReplicasFromEnv (pkg : EnvPackage) (env : Environ)
    (initialReplicas : List AdGuardInstance) : Except ConfigErr (List AdGuardInstance) := do
  let replicas ← collectReplicas initialReplicas env.vars []
  let replicas := if replicas.length = 0 then initialReplicas else replicas
  enrichReplicas pkg env 1 replicas

section Enrich

variable {pkg : EnvPackage} {env : Environ}

/-- A pointer that is nil while a layer is laid over, and then restored, is one that the layer
is laid over. -/
theorem restoreDhcpServer_overlay (i : AdGuardInstance) {l : Layer InstanceField.Value}
    (hl : l .dhcpServerEnabled ≠ some none) :
    (({ i with dhcpServerEnabled := none } : AdGuardInstance).overlay l).restoreDhcpServer
      i.dhcpServerEnabled = i.overlay l := by
  cases hdhcp : l .dhcpServerEnabled with
  | none =>
    simp [AdGuardInstance.restoreDhcpServer, AdGuardInstance.overlay, hdhcp, AdGuardInstance.get]
  | some v =>
    cases v with
    | none => exact absurd hdhcp hl
    | some b =>
      simp [AdGuardInstance.restoreDhcpServer, AdGuardInstance.overlay, hdhcp,
        AdGuardInstance.get]

/-- The variables of a replica lie over it, and an empty API path is the default. -/
theorem enrichReplica_eq (hpkg : pkg.Overwrites env) {reID : ℕ}
    (hparsable : pkg.Parsable env (replicaPrefix reID)) (replica : AdGuardInstance) :
    enrichReplica pkg env reID replica =
      .ok (replica.overlay (pkg.instanceLayer env (replicaPrefix reID))).withAPIPath := by
  have hrestored := restoreDhcpServer_overlay replica
    (pkg.instanceLayer_dhcpServerEnabled env (replicaPrefix reID))
  rw [enrichReplica, hpkg.parseWithOptions _ hparsable _ rfl, ← hrestored]
  rfl

/-- Every replica gets the variables with its place as the number. -/
theorem enrichReplicas_eq (hpkg : pkg.Overwrites env)
    (hparsable : ∀ n, pkg.Parsable env (replicaPrefix n)) :
    ∀ (reID : ℕ) (replicas : List AdGuardInstance), enrichReplicas pkg env reID replicas =
      .ok (replicas.mapIdx fun k replica => (replica.overlay
        (pkg.instanceLayer env (replicaPrefix (reID + k)))).withAPIPath)
  | _, [] => rfl
  | reID, replica :: replicas => by
    rw [enrichReplicas, enrichReplica_eq hpkg (hparsable _),
      enrichReplicas_eq hpkg hparsable (reID + 1) replicas]
    simp [List.mapIdx_cons, bind, Except.bind, pure, Except.pure, Nat.add_assoc, Nat.add_comm 1]

end Enrich

/-! ## An example of the package -/

/-- Parsers of truth values and numbers, for examples. -/
def sampleParsers : Parsers where
  parseBool v := if v = "true" then some true else if v = "false" then some false else none
  parseInt := String.toInt?
  parseDuration _ := none
  parseMap _ := none

/-- The package with these parsers, for examples. -/
def samplePackage : EnvPackage where
  toParsers := sampleParsers
  parse env cfg := readAll Config.rootRecord (fun f => .ok (sampleParsers.rootLayer env f))
    RootField.all cfg
  parseWithOptions env pre i := .ok (i.overlay (sampleParsers.instanceLayer env pre))

theorem samplePackage_overwrites (env : Environ) : samplePackage.Overwrites env where
  parse _ cfg _ _ _ := by
    obtain ⟨cfg', hcfg', hin, -⟩ := readAll_eq_ok (x := cfg) RootField.nodup_all
      fun f _ => (rfl : Except.ok _ = Except.ok (sampleParsers.rootLayer env f))
    exact ⟨cfg', hcfg', fun f => hin f (RootField.mem_all f)⟩
  parseWithOptions _ _ _ _ := rfl

end AghSync
