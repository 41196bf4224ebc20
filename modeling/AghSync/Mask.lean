import AghSync.Blocks
import AghSync.Config
import AghSync.Net
import Mathlib.Data.List.Forall2

/-!
# The logged configuration

The configuration is logged with the user names and passwords masked : of a text of three bytes or
more the first and the last are left, and stars for the others. `mask` works on a deep copy, whose
instances are new, so the configuration that is in use stays as it is (`LiveConfig.config_after`).

A cookie is not masked. So two configurations that differ in what is hidden are logged alike
exactly if their cookies are the same (`hidesSecrets_iff`).
-/

namespace AghSync

/-- The text of the character with the number of a byte. -/
def ofByte (b : UInt8) : String :=
  String.singleton (Char.ofNat b.toNat)

/-- `mask`. -/
def mask (s : String) : String :=
  let b := Net.bytes s
  if b.length < 3 then String.ofList (List.replicate b.length '*')
  else ofByte (b.headD 0) ++ String.ofList (List.replicate (b.length - 2) '*') ++
    ofByte (b.getLastD 0)

example : ["", "a", "ab", "abc", "pass"].map mask = ["", "*", "**", "a*c", "p**s"] := by
  decide

/-- `AdGuardInstance.Mask`. -/
def AdGuardInstance.mask (i : AdGuardInstance) : AdGuardInstance :=
  { i with username := AghSync.mask i.username, password := AghSync.mask i.password }

/-- `API.Mask`. -/
def API.mask (a : API) : API :=
  { a with username := AghSync.mask a.username, password := AghSync.mask a.password }

/-- `Config.mask`, by value. -/
def Config.mask (cfg : Config) : Config :=
  { cfg with
    origin := cfg.origin.mask
    replica := cfg.replica.bind fun r => if r.url = "" then none else some r.mask
    replicas := cfg.replicas.map AdGuardInstance.mask
    api := cfg.api.mask }

/-! ## Configurations in memory -/

/-- Where a configuration has its instances. -/
inductive Slot
  | origin
  | replica
  | replicas (i : ℕ)
  deriving DecidableEq

instance AdGuardInstance.instInhabited : Inhabited AdGuardInstance :=
  ⟨{}⟩

/-- A memory of instances. -/
abbrev Instances := Blocks Slot AdGuardInstance

/-- A configuration in memory. The instances of `rest` are not looked at. -/
structure ConfigPtr where
  rest : Config
  instances : Blocks.Record Slot
  /-- The length of the list of replicas. -/
  count : ℕ

namespace ConfigPtr

variable {c : ConfigPtr} {mem : Instances}

/-- The configuration with the instances `vals`. -/
def withValues (c : ConfigPtr) (vals : Slot → Option AdGuardInstance) : Config :=
  { c.rest with
    origin := (vals .origin).getD {}
    replica := vals .replica
    replicas := (List.range c.count).filterMap fun i => vals (.replicas i) }

/-- The configuration that is there. -/
def read (c : ConfigPtr) (mem : Instances) : Config :=
  c.withValues (mem.read c.instances)

/-- `Config.DeepCopy` : all instances are copied to new ones. -/
def deepCopy (c : ConfigPtr) (mem : Instances) : ConfigPtr × Instances :=
  let (instances, mem) := mem.alloc (mem.read c.instances)
  ({ c with instances := instances }, mem)

/-- Mask an instance in place. -/
def maskAt (c : ConfigPtr) (mem : Instances) (slot : Slot) : Instances :=
  match c.instances slot with
  | some a => mem.update a AdGuardInstance.mask
  | none => mem

/-- The part of `Config.mask` that masks the single replica, or leaves it out if it has no URL. -/
def maskReplica (c : ConfigPtr) (mem : Instances) : ConfigPtr × Instances :=
  match c.instances .replica with
  | none => (c, mem)
  | some a =>
    if (mem.cells a).url = "" then
      ({ c with instances := Function.update c.instances .replica none }, mem)
    else (c, c.maskAt mem .replica)

/-- The part of `Config.mask` that masks the list of replicas. -/
def maskReplicas (c : ConfigPtr) (mem : Instances) : Instances :=
  (List.range c.count).foldl (fun mem i => c.maskAt mem (.replicas i)) mem

/-- `Config.mask`. -/
def mask (c : ConfigPtr) (mem : Instances) : ConfigPtr × Instances :=
  let (c, mem) := c.deepCopy mem
  let mem := c.maskAt mem .origin
  let (c, mem) := c.maskReplica mem
  let mem := c.maskReplicas mem
  ({ c with rest := { c.rest with api := c.rest.api.mask } }, mem)

/-! ## What is masked -/

variable {n : ℕ}

theorem read_maskAt (h : Blocks.InBlock c.instances n) (mem : Instances) (slot : Slot) :
    (c.maskAt mem slot).read c.instances =
      Function.update (mem.read c.instances) slot
        ((mem.read c.instances slot).map AdGuardInstance.mask) := by
  unfold maskAt
  cases ha : c.instances slot with
  | some a => exact Blocks.read_update_of_inBlock _ h ha
  | none =>
    have hnone : mem.read c.instances slot = none := Blocks.read_of_eq_none ha
    rw [hnone, Option.map_none, ← hnone, Function.update_eq_self]

/-- What is in other blocks stays as it is. -/
theorem maskAt_frame (h : Blocks.InBlock c.instances n) (mem : Instances) (slot : Slot)
    {r : Blocks.Record Slot} (hr : ∀ f, ∀ a ∈ r f, a.1 ≠ n) :
    (c.maskAt mem slot).read r = mem.read r := by
  unfold maskAt
  cases ha : c.instances slot with
  | some a =>
    refine Blocks.read_update_of_ne _ fun f b hb => ?_
    rw [h slot a ha]
    exact hr f b hb
  | none => rfl

/-- The single replica is masked or left out, and nothing else changes. -/
theorem read_maskReplica (h : Blocks.InBlock c.instances n) (mem : Instances) :
    (c.maskReplica mem).2.read (c.maskReplica mem).1.instances =
      Function.update (mem.read c.instances) .replica
        ((mem.read c.instances .replica).bind fun r =>
          if r.url = "" then none else some r.mask) := by
  unfold maskReplica
  cases ha : c.instances .replica with
  | none =>
    have hnone : mem.read c.instances .replica = none := Blocks.read_of_eq_none ha
    rw [hnone, Option.bind_none, ← hnone, Function.update_eq_self]
  | some a =>
    have hsome : mem.read c.instances .replica = some (mem.cells a) := Blocks.read_of_eq_some ha
    rw [hsome, Option.bind_some]
    dsimp only
    split_ifs with hurl
    · exact Blocks.read_update_none mem c.instances .replica
    · rw [read_maskAt h, hsome, Option.map_some]

theorem inBlock_maskReplica (h : Blocks.InBlock c.instances n) (mem : Instances) :
    Blocks.InBlock (c.maskReplica mem).1.instances n := by
  unfold maskReplica
  split
  · exact h
  · split_ifs
    · exact h.update_none .replica
    · exact h

theorem maskReplica_rest (c : ConfigPtr) (mem : Instances) :
    (c.maskReplica mem).1.rest = c.rest ∧ (c.maskReplica mem).1.count = c.count := by
  unfold maskReplica
  split
  · exact ⟨rfl, rfl⟩
  · split_ifs <;> exact ⟨rfl, rfl⟩

theorem maskReplica_frame (h : Blocks.InBlock c.instances n) (mem : Instances)
    {r : Blocks.Record Slot} (hr : ∀ f, ∀ a ∈ r f, a.1 ≠ n) :
    (c.maskReplica mem).2.read r = mem.read r := by
  unfold maskReplica
  split
  · rfl
  · split_ifs
    · rfl
    · exact maskAt_frame h mem _ hr

/-- The loop masks the instances of the list, and no others. -/
theorem read_maskReplicas (h : Blocks.InBlock c.instances n) (mem : Instances) (slot : Slot) :
    (c.maskReplicas mem).read c.instances slot =
      if ∃ i < c.count, slot = .replicas i then
        (mem.read c.instances slot).map AdGuardInstance.mask
      else mem.read c.instances slot := by
  unfold maskReplicas
  generalize c.count = k
  induction k generalizing slot with
  | zero => simp
  | succ k ih =>
    rw [List.range_succ, List.foldl_append, List.foldl_cons, List.foldl_nil, read_maskAt h]
    by_cases hslot : slot = .replicas k
    · subst hslot
      rw [Function.update_self, ih, if_neg (by simp), if_pos ⟨k, k.lt_succ_self, rfl⟩]
    · rw [Function.update_of_ne hslot, ih]
      refine if_congr ⟨?_, ?_⟩ rfl rfl
      · rintro ⟨i, hi, rfl⟩
        exact ⟨i, Nat.lt_succ_of_lt hi, rfl⟩
      · rintro ⟨i, hi, rfl⟩
        have hik : i ≠ k := fun he => hslot (congrArg Slot.replicas he)
        exact ⟨i, by omega, rfl⟩

theorem maskReplicas_frame (h : Blocks.InBlock c.instances n) (mem : Instances)
    {r : Blocks.Record Slot} (hr : ∀ f, ∀ a ∈ r f, a.1 ≠ n) :
    (c.maskReplicas mem).read r = mem.read r := by
  unfold maskReplicas
  generalize c.count = k
  induction k with
  | zero => rfl
  | succ k ih =>
    rw [List.range_succ, List.foldl_append, List.foldl_cons, List.foldl_nil,
      maskAt_frame h _ _ hr, ih]

theorem inBlock_deepCopy (c : ConfigPtr) (mem : Instances) :
    Blocks.InBlock (c.deepCopy mem).1.instances mem.next :=
  Blocks.inBlock_alloc _

theorem read_deepCopy (c : ConfigPtr) (mem : Instances) :
    (c.deepCopy mem).2.read (c.deepCopy mem).1.instances = mem.read c.instances :=
  Blocks.read_alloc _

/-- The instances after masking. -/
theorem read_instances_mask (c : ConfigPtr) (mem : Instances) (slot : Slot) :
    (c.mask mem).2.read (c.mask mem).1.instances slot =
      match slot with
      | .origin => (mem.read c.instances .origin).map AdGuardInstance.mask
      | .replica => (mem.read c.instances .replica).bind fun r =>
        if r.url = "" then none else some r.mask
      | .replicas i =>
        if i < c.count then (mem.read c.instances (.replicas i)).map AdGuardInstance.mask
        else mem.read c.instances (.replicas i) := by
  have hblock := inBlock_deepCopy c mem
  let mem₁ := (c.deepCopy mem).1.maskAt (c.deepCopy mem).2 .origin
  have hmask : (c.mask mem).2.read (c.mask mem).1.instances =
      (((c.deepCopy mem).1.maskReplica mem₁).1.maskReplicas
        ((c.deepCopy mem).1.maskReplica mem₁).2).read
          ((c.deepCopy mem).1.maskReplica mem₁).1.instances := rfl
  rw [hmask, read_maskReplicas (inBlock_maskReplica hblock mem₁), read_maskReplica hblock,
    read_maskAt hblock, read_deepCopy, (maskReplica_rest _ _).2]
  cases slot with
  | origin => simp
  | replica => simp
  | replicas i => simp [deepCopy]

/-- In memory the configuration is masked as it is by value. -/
theorem read_mask (c : ConfigPtr) (mem : Instances) :
    (c.mask mem).1.read (c.mask mem).2 = (c.read mem).mask := by
  have hcount : (c.mask mem).1.count = c.count := (maskReplica_rest _ _).2
  have hrest : (c.mask mem).1.rest = { c.rest with api := c.rest.api.mask } :=
    congrArg (fun rest : Config => { rest with api := rest.api.mask }) (maskReplica_rest _ _).1
  have hmask : AdGuardInstance.mask {} = {} := by decide
  have hreplicas : ((List.range c.count).filterMap fun i =>
        if i < c.count then (mem.read c.instances (.replicas i)).map AdGuardInstance.mask
        else mem.read c.instances (.replicas i)) =
      ((List.range c.count).filterMap fun i => mem.read c.instances (.replicas i)).map
        AdGuardInstance.mask := by
    rw [List.map_filterMap]
    exact List.filterMap_congr fun i hi => if_pos (List.mem_range.mp hi)
  simp only [read, withValues, read_instances_mask, hcount, hrest, hreplicas, Config.mask,
    Config.mk.injEq, and_true]
  have horigin := Option.getD_map AdGuardInstance.mask {} (mem.read c.instances .origin)
  rwa [hmask] at horigin

/-- The instances from before stay as they are. -/
theorem mask_frame (h : mem.Allocated c.instances) : c.read (c.mask mem).2 = c.read mem := by
  have hblock := inBlock_deepCopy c mem
  have hframe : ∀ f, ∀ a ∈ c.instances f, a.1 ≠ mem.next := fun f a ha => Nat.ne_of_lt (h f a ha)
  let mem₁ := (c.deepCopy mem).1.maskAt (c.deepCopy mem).2 .origin
  refine congrArg c.withValues ?_
  calc (c.mask mem).2.read c.instances
      = (((c.deepCopy mem).1.maskReplica mem₁).1.maskReplicas
          ((c.deepCopy mem).1.maskReplica mem₁).2).read c.instances := rfl
    _ = ((c.deepCopy mem).1.maskReplica mem₁).2.read c.instances :=
      maskReplicas_frame (inBlock_maskReplica hblock mem₁) _ hframe
    _ = mem₁.read c.instances := maskReplica_frame hblock mem₁ hframe
    _ = (c.deepCopy mem).2.read c.instances := maskAt_frame hblock _ _ hframe
    _ = mem.read c.instances := Blocks.read_alloc_of_allocated _ h

end ConfigPtr

/-- A configuration in use : its instances are there, and the origin is one of them. -/
structure LiveConfig where
  ptr : ConfigPtr
  mem : Instances
  allocated : mem.Allocated ptr.instances
  origin : (ptr.instances .origin).isSome

/-- A log record with one field. -/
structure LogRecord where
  message : String
  key : String
  value : Config
  deriving DecidableEq

/-- The instances of a configuration. -/
def Config.slots (cfg : Config) : Slot → Option AdGuardInstance
  | .origin => some cfg.origin
  | .replica => cfg.replica
  | .replicas i => cfg.replicas[i]?

namespace LiveConfig

/-- The configuration. -/
def config (c : LiveConfig) : Config :=
  c.ptr.read c.mem

/-- What `Config.mask` returns. -/
def masked (c : LiveConfig) : Config :=
  (c.ptr.mask c.mem).1.read (c.ptr.mask c.mem).2

/-- The configuration after `Config.mask`. -/
def after (c : LiveConfig) : Config :=
  c.ptr.read (c.ptr.mask c.mem).2

/-- `Config.Log`. -/
def log (c : LiveConfig) : LogRecord :=
  { message := "Using config", key := "config", value := c.masked }

/-- The configuration `cfg` in a memory of its own. -/
def load (cfg : Config) : LiveConfig where
  ptr :=
    { rest := cfg
      instances := (Blocks.alloc ⟨fun _ => {}, 0⟩ cfg.slots).1
      count := cfg.replicas.length }
  mem := (Blocks.alloc ⟨fun _ => {}, 0⟩ cfg.slots).2
  allocated := .of_inBlock (Blocks.inBlock_alloc cfg.slots) Nat.zero_lt_one
  origin := rfl

/-- Every configuration can be in use. -/
theorem config_load (cfg : Config) : (load cfg).config = cfg := by
  have hmap : (List.range cfg.replicas.length).map (fun i => cfg.replicas[i]?) =
      cfg.replicas.map some := by
    refine List.ext_getElem (by simp) fun i hi _ => ?_
    rw [List.length_map, List.length_range] at hi
    simp [hi]
  have hreplicas : ((List.range cfg.replicas.length).filterMap fun i => cfg.replicas[i]?) =
      cfg.replicas := by
    calc (List.range cfg.replicas.length).filterMap (fun i => cfg.replicas[i]?)
        = ((List.range cfg.replicas.length).map fun i => cfg.replicas[i]?).filterMap id := by
          rw [List.filterMap_map, Function.id_comp]
      _ = cfg.replicas := by rw [hmap, List.filterMap_map, Function.id_comp, List.filterMap_some]
  simp [load, config, ConfigPtr.read, ConfigPtr.withValues, Config.slots, hreplicas]

/-- Masking leaves the configuration in use as it is. -/
theorem config_after (c : LiveConfig) : c.after = c.config :=
  ConfigPtr.mask_frame c.allocated

theorem masked_eq (c : LiveConfig) : c.masked = c.config.mask :=
  ConfigPtr.read_mask c.ptr c.mem

end LiveConfig

/-! ## What is hidden -/

/-- The texts have the same length, and the same ends if these are shown. -/
def SameShape (s t : String) : Prop :=
  (Net.bytes s).length = (Net.bytes t).length ∧
    (3 ≤ (Net.bytes s).length → (Net.bytes s).head? = (Net.bytes t).head? ∧
      (Net.bytes s).getLast? = (Net.bytes t).getLast?)

instance SameShape.instDecidable (s t : String) : Decidable (SameShape s t) :=
  inferInstanceAs (Decidable (_ ∧ (_ → _)))

/-- Only the shape of a text is shown. -/
theorem SameShape.mask_eq {s t : String} (h : SameShape s t) : mask s = mask t := by
  obtain ⟨hlength, hends⟩ := h
  simp only [mask, ← hlength, List.headD_eq_head?_getD, List.getLastD_eq_getLast?]
  split_ifs with hshort
  · rfl
  · obtain ⟨hhead, hlast⟩ := hends (by omega)
    rw [hhead, hlast]

namespace AdGuardInstance

/-- The instance without its credentials. -/
def withoutCredentials (i : AdGuardInstance) : AdGuardInstance :=
  { i with username := "", password := "", cookie := "" }

/-- The instances differ in the hidden part of their credentials only. -/
structure SameButSecrets (i j : AdGuardInstance) : Prop where
  rest : i.withoutCredentials = j.withoutCredentials
  username : SameShape i.username j.username
  password : SameShape i.password j.password
  cookie : SameShape i.cookie j.cookie

theorem SameButSecrets.url_eq {i j : AdGuardInstance} (h : SameButSecrets i j) :
    i.url = j.url := by
  have hurl : i.withoutCredentials.url = j.withoutCredentials.url := by rw [h.rest]
  exact hurl

theorem SameButSecrets.mask_eq_iff {i j : AdGuardInstance} (h : SameButSecrets i j) :
    i.mask = j.mask ↔ i.cookie = j.cookie := by
  have hmask : ∀ i : AdGuardInstance, i.mask = { i.withoutCredentials with
      username := AghSync.mask i.username, password := AghSync.mask i.password
      cookie := i.cookie } := fun _ => rfl
  constructor
  · exact congrArg AdGuardInstance.cookie
  · intro hcookie
    rw [hmask i, hmask j, h.rest, h.username.mask_eq, h.password.mask_eq, hcookie]

end AdGuardInstance

namespace API

/-- The API without its credentials. -/
def withoutCredentials (a : API) : API :=
  { a with username := "", password := "" }

/-- The APIs differ in the hidden part of their credentials only. -/
structure SameButSecrets (a b : API) : Prop where
  rest : a.withoutCredentials = b.withoutCredentials
  username : SameShape a.username b.username
  password : SameShape a.password b.password

theorem SameButSecrets.mask_eq {a b : API} (h : SameButSecrets a b) : a.mask = b.mask := by
  have hmask : ∀ a : API, a.mask = { a.withoutCredentials with
      username := AghSync.mask a.username, password := AghSync.mask a.password } := fun _ => rfl
  rw [hmask a, hmask b, h.rest, h.username.mask_eq, h.password.mask_eq]

end API

namespace Config

/-- The configuration without the parts that have credentials. -/
def withoutParties (cfg : Config) : Config :=
  { cfg with origin := {}, replica := none, replicas := [], api := {} }

/-- The configurations differ in the hidden part of their credentials only. -/
structure SameButSecrets (c d : Config) : Prop where
  rest : c.withoutParties = d.withoutParties
  origin : c.origin.SameButSecrets d.origin
  replica : Option.Rel AdGuardInstance.SameButSecrets c.replica d.replica
  replicas : List.Forall₂ AdGuardInstance.SameButSecrets c.replicas d.replicas
  api : c.api.SameButSecrets d.api

/-- The cookies that are logged are the same. A single replica without a URL is not logged. -/
structure SameCookies (c d : Config) : Prop where
  origin : c.origin.cookie = d.origin.cookie
  replica : ∀ r ∈ c.replica, ∀ r' ∈ d.replica, r.url ≠ "" → r.cookie = r'.cookie
  replicas : c.replicas.map AdGuardInstance.cookie = d.replicas.map AdGuardInstance.cookie

end Config

theorem mask_replica_eq_iff {r r' : Option AdGuardInstance}
    (h : Option.Rel AdGuardInstance.SameButSecrets r r') :
    (r.bind fun r => if r.url = "" then none else some r.mask) =
        (r'.bind fun r => if r.url = "" then none else some r.mask) ↔
      ∀ i ∈ r, ∀ j ∈ r', i.url ≠ "" → i.cookie = j.cookie := by
  cases h with
  | none => simp
  | @some i j hij =>
    by_cases hurl : i.url = ""
    · simp [hurl, hij.url_eq ▸ hurl]
    · have hurl' : j.url ≠ "" := hij.url_eq ▸ hurl
      simp [hurl, hurl', hij.mask_eq_iff]

theorem mask_replicas_eq_iff {rs rs' : List AdGuardInstance}
    (h : List.Forall₂ AdGuardInstance.SameButSecrets rs rs') :
    rs.map AdGuardInstance.mask = rs'.map AdGuardInstance.mask ↔
      rs.map AdGuardInstance.cookie = rs'.map AdGuardInstance.cookie := by
  induction h with
  | nil => simp
  | cons hij _ ih => simp only [List.map_cons, List.cons.injEq, ih, hij.mask_eq_iff]

/-- Two configurations that differ in secrets are masked alike if their cookies are the same. -/
theorem Config.SameButSecrets.mask_eq_iff {c d : Config} (h : c.SameButSecrets d) :
    c.mask = d.mask ↔ c.SameCookies d := by
  have hmask : ∀ c : Config, c.mask = { c.withoutParties with
      origin := c.origin.mask
      replica := c.replica.bind fun r => if r.url = "" then none else some r.mask
      replicas := c.replicas.map AdGuardInstance.mask
      api := c.api.mask } := fun _ => rfl
  constructor
  · intro heq
    exact ⟨h.origin.mask_eq_iff.mp (congrArg Config.origin heq),
      (mask_replica_eq_iff h.replica).mp (congrArg Config.replica heq),
      (mask_replicas_eq_iff h.replicas).mp (congrArg Config.replicas heq)⟩
  · rintro ⟨horigin, hreplica, hreplicas⟩
    rw [hmask c, hmask d, h.rest, h.origin.mask_eq_iff.mpr horigin,
      (mask_replica_eq_iff h.replica).mpr hreplica,
      (mask_replicas_eq_iff h.replicas).mpr hreplicas, h.api.mask_eq]

/-- The log does not show what two configurations differ in, and both stay as they are. -/
structure HidesSecrets (c d : LiveConfig) : Prop where
  masked : c.masked = d.masked
  log : c.log = d.log
  left : c.after = c.config
  right : d.after = d.config

/-- Secrets are hidden exactly if the cookies are the same. -/
theorem hidesSecrets_iff (c d : LiveConfig) (h : c.config.SameButSecrets d.config) :
    HidesSecrets c d ↔ c.config.SameCookies d.config := by
  rw [← h.mask_eq_iff, ← c.masked_eq, ← d.masked_eq]
  constructor
  · exact HidesSecrets.masked
  · intro hmasked
    exact ⟨hmasked, congrArg (LogRecord.mk _ _) hmasked, c.config_after, d.config_after⟩

/-- Two passwords with the same ends. -/
theorem hidesSecrets_iff_sample :
    let c : LiveConfig := .load { origin := { url := "http://a", password := "pass" } }
    let d : LiveConfig := .load { origin := { url := "http://a", password := "plus" } }
    HidesSecrets c d ↔ c.config.SameCookies d.config := by
  refine hidesSecrets_iff _ _ ?_
  rw [LiveConfig.config_load, LiveConfig.config_load]
  exact ⟨rfl, ⟨rfl, by decide, by decide, by decide⟩, .none, .nil, ⟨rfl, by decide, by decide⟩⟩

/-- Two cookies with the same ends. -/
theorem not_hidesSecrets :
    let c : LiveConfig := .load { origin := { url := "http://a", cookie := "id=secret" } }
    let d : LiveConfig := .load { origin := { url := "http://a", cookie := "id=closet" } }
    c.config.SameButSecrets d.config ∧ ¬HidesSecrets c d := by
  simp only [LiveConfig.config_load]
  refine ⟨⟨rfl, ⟨rfl, by decide, by decide, by decide⟩, .none, .nil, ⟨rfl, by decide, by decide⟩⟩,
    fun h => ?_⟩
  have hmasked := h.masked
  rw [LiveConfig.masked_eq, LiveConfig.masked_eq, LiveConfig.config_load,
    LiveConfig.config_load] at hmasked
  exact absurd (congrArg (fun c : Config => c.origin.cookie) hmasked) (by decide)

end AghSync
