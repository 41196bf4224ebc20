import AghSync.Environ
import Mathlib.Data.List.Perm.Basic
import Mathlib.Data.List.Perm.Subperm

/-!
# Numbered replicas

A numbered replica is what its variables say, over the entry of the configuration file with its
number. The replicas are collected in the order of the environment, and each gets the variables
of its place in this order instead of its number. So the result is right if the places can stand
for the numbers (`enrichReplicasFromEnv_numbered_iff`). With different URLs that is to say : a
place that is a number stands for itself, a place that is none for the number listed there, and
the options agree (`placeable_iff_of_distinct`).
-/

open Layers

namespace AghSync

/-- The variable with the URL of a numbered replica. -/
def replicaURL (n : ℕ) : String :=
  replicaPrefix n ++ "URL"

theorem toList_replicaURL (n : ℕ) :
    (replicaURL n).toList = "REPLICA".toList ++ Nat.toDigits 10 n ++ "_URL".toList := by
  simp [replicaURL, replicaPrefix, String.toList_append, List.append_assoc]

theorem envReplicasURL_eq_some {name : String} {digits : List Char} :
    envReplicasURL name = some digits ↔
      name.toList = "REPLICA".toList ++ digits ++ "_URL".toList ∧ digits ≠ [] ∧
        ∀ c ∈ digits, c.isDigit := by
  simp only [envReplicasURL, Option.bind_eq_bind, Option.bind_eq_some_iff,
    List.isPrefixOf?_eq_some_iff_append_eq, List.isSuffixOf?_eq_some_iff_append_eq,
    List.all_eq_true]
  constructor
  · rintro ⟨rest, hrest, digits', hdigits, hok⟩
    split_ifs at hok with hall
    obtain rfl := Option.some.inj hok
    exact ⟨by rw [← hrest, ← hdigits, List.append_assoc], hall⟩
  · rintro ⟨hname, hall⟩
    refine ⟨_, (hname.trans (List.append_assoc _ _ _)).symm, digits, rfl, if_pos hall⟩

theorem envReplicasURL_replicaURL (n : ℕ) :
    envReplicasURL (replicaURL n) = some (Nat.toDigits 10 n) :=
  envReplicasURL_eq_some.mpr ⟨toList_replicaURL n, Nat.toDigits_ne_nil, fun _ hc =>
    Nat.isDigit_of_mem_toDigits (by decide) (by decide) hc⟩

/-- The numbers and the first lines of the numbered URLs. -/
def numberedURLs (vars : List (String × String)) : List (ℕ × String) :=
  vars.filterMap fun x => (envReplicasURL x.1).map fun digits =>
    (Nat.ofDigitChars 10 digits 0, firstLine x.2)

theorem numberedURLs_cons_of_none {x : String × String} (h : envReplicasURL x.1 = none)
    (vars : List (String × String)) : numberedURLs (x :: vars) = numberedURLs vars := by
  simp [numberedURLs, h]

theorem numberedURLs_cons {x : String × String} {n : ℕ} (h : x.1 = replicaURL n)
    (vars : List (String × String)) :
    numberedURLs (x :: vars) = (n, firstLine x.2) :: numberedURLs vars := by
  simp [numberedURLs, h, envReplicasURL_replicaURL]

namespace Environ

/-- Every numbered URL has a positive number without leading zeros and is not empty. -/
def WellNumbered (env : Environ) : Prop :=
  ∀ x ∈ env.vars, ∀ digits, envReplicasURL x.1 = some digits →
    x.2 ≠ "" ∧ ∃ n, 1 ≤ n ∧ x.1 = replicaURL n

/-- The numbers with a URL, in the order of the environment, with the first lines of the URLs. -/
def listing (env : Environ) : List (ℕ × String) :=
  numberedURLs env.vars

/-- The numbers of the replicas that have a URL in the environment. -/
def Numbers (env : Environ) (numbers : List ℕ) : Prop :=
  numbers.Nodup ∧ ∀ n, n ∈ numbers ↔ 1 ≤ n ∧ (env.value (replicaURL n)).isSome

variable {env : Environ}

theorem Numbers.of_perm {numbers numbers' : List ℕ} (h : env.Numbers numbers)
    (hperm : numbers.Perm numbers') : env.Numbers numbers' :=
  ⟨hperm.nodup_iff.mp h.1, fun n => hperm.mem_iff.symm.trans (h.2 n)⟩

theorem Numbers.perm {numbers numbers' : List ℕ} (h : env.Numbers numbers)
    (h' : env.Numbers numbers') : numbers.Perm numbers' :=
  (List.perm_ext_iff_of_nodup h.1 h'.1).mpr fun n => (h.2 n).trans (h'.2 n).symm

theorem mem_listing (h : env.WellNumbered) {n : ℕ} {u : String} :
    (n, u) ∈ env.listing ↔ 1 ≤ n ∧ ∃ v, env.value (replicaURL n) = some v ∧ u = firstLine v := by
  simp only [listing, numberedURLs, List.mem_filterMap, Option.map_eq_some_iff, Prod.mk.injEq,
    value_eq_some]
  constructor
  · rintro ⟨⟨name, v⟩, hx, digits, hdigits, rfl, rfl⟩
    obtain ⟨hv, n, hn, rfl : name = _⟩ := h _ hx _ hdigits
    obtain rfl := Option.some.inj (hdigits.symm.trans (envReplicasURL_replicaURL n))
    rw [Nat.ofDigitChars_ten_toDigits]
    exact ⟨hn, v, ⟨hx, hv⟩, rfl⟩
  · rintro ⟨-, v, ⟨hx, -⟩, rfl⟩
    exact ⟨_, hx, _, envReplicasURL_replicaURL n, Nat.ofDigitChars_ten_toDigits, rfl⟩

theorem nodup_listing (h : env.WellNumbered) : (env.listing.map Prod.fst).Nodup := by
  have hsublist : ∀ vars : List (String × String), vars ⊆ env.vars →
      (((numberedURLs vars).map Prod.fst).map replicaURL).Sublist (vars.map Prod.fst) := by
    intro vars hvars
    induction vars with
    | nil => exact List.Sublist.refl []
    | cons x vars ih =>
      obtain ⟨hx, hvars⟩ := List.cons_subset.mp hvars
      cases hdigits : envReplicasURL x.1 with
      | none =>
        rw [numberedURLs_cons_of_none hdigits]
        exact (ih hvars).trans (List.sublist_cons_self _ _)
      | some digits =>
        obtain ⟨-, n, -, hname⟩ := h x hx digits hdigits
        rw [numberedURLs_cons hname, List.map_cons, List.map_cons, List.map_cons, hname]
        exact (ih hvars).cons_cons _
  exact List.Nodup.of_map replicaURL (env.nodup.sublist (hsublist env.vars (List.Subset.refl _)))

theorem numbers_listing (h : env.WellNumbered) : env.Numbers (env.listing.map Prod.fst) := by
  refine ⟨nodup_listing h, fun n => ?_⟩
  rw [Option.isSome_iff_exists, List.mem_map]
  constructor
  · rintro ⟨⟨n, u⟩, hmem, rfl⟩
    obtain ⟨hn, v, hv, -⟩ := (mem_listing h).mp hmem
    exact ⟨hn, v, hv⟩
  · rintro ⟨hn, v, hv⟩
    exact ⟨(n, firstLine v), (mem_listing h).mpr ⟨hn, v, hv, rfl⟩, rfl⟩

theorem length_listing {numbers : List ℕ} (h : env.WellNumbered) (hnumbers : env.Numbers numbers) :
    env.listing.length = numbers.length := by
  rw [← ((numbers_listing h).perm hnumbers).length_eq, List.length_map]

end Environ

/-! ## What is collected, and what it becomes -/

/-- The entry of the file for a number. -/
def fileReplica (files : List AdGuardInstance) (n : ℕ) : AdGuardInstance :=
  files[n - 1]?.getD {}

/-- What is collected for a number and a URL. -/
def collected (files : List AdGuardInstance) (e : ℕ × String) : AdGuardInstance :=
  { fileReplica files e.1 with url := e.2 }

theorem collectReplicas_eq (files : List AdGuardInstance) : ∀ {vars : List (String × String)}
    (replicas : List AdGuardInstance),
    (∀ x ∈ vars, ∀ digits, envReplicasURL x.1 = some digits → ∃ n, 1 ≤ n ∧ x.1 = replicaURL n) →
    collectReplicas files vars replicas =
      .ok (replicas ++ (numberedURLs vars).map (collected files))
  | [], replicas, _ => by simp [collectReplicas, numberedURLs]
  | (name, v) :: vars, replicas, h => by
    have hrest := fun replicas => collectReplicas_eq files replicas fun x hx =>
      h x (List.mem_cons_of_mem (name, v) hx)
    cases hdigits : envReplicasURL name with
    | none =>
      rw [collectReplicas, numberedURLs_cons_of_none hdigits]
      simp only [hdigits, hrest]
    | some digits =>
      obtain ⟨n, hn, rfl : name = _⟩ := h (name, v) List.mem_cons_self digits hdigits
      obtain rfl := Option.some.inj ((envReplicasURL_replicaURL n).symm.trans hdigits)
      have hfile : n > files.length → fileReplica files n = {} := fun hlong => by
        rw [fileReplica, List.getElem?_eq_none (by omega), Option.getD_none]
      rw [collectReplicas, numberedURLs_cons rfl]
      simp only [hdigits, Nat.ofDigitChars_ten_toDigits, hrest, List.map_cons]
      rw [if_neg (by omega)]
      split_ifs with hlong
      · simp [collected, hfile hlong]
      · simp [collected, fileReplica]

section Enrich

variable (pkg : EnvPackage) (env : Environ) (files : List AdGuardInstance)

/-- What the variables with the number `p` make of an entry of the listing. -/
def placed (p : ℕ) (e : ℕ × String) : AdGuardInstance :=
  ((collected files e).overlay (pkg.instanceLayer env (replicaPrefix p))).withAPIPath

/-- The replica with the number `n` as it is configured : its variables over its entry of the
file, and the default API path if there is none. -/
def configured (n : ℕ) : AdGuardInstance :=
  ((fileReplica files n).overlay (pkg.instanceLayer env (replicaPrefix n))).withAPIPath

variable {pkg env files}

theorem enrichReplicasFromEnv_eq (hpkg : pkg.Overwrites env)
    (hparsable : ∀ n, pkg.Parsable env (replicaPrefix n)) (hwell : env.WellNumbered)
    (hlisting : env.listing ≠ []) : enrichReplicasFromEnv pkg env files =
      .ok (env.listing.mapIdx fun k => placed pkg env files (k + 1)) := by
  have hcollected := collectReplicas_eq files [] fun x hx digits hdigits =>
    (hwell x hx digits hdigits).2
  have hsome : ((numberedURLs env.vars).map (collected files)).length ≠ 0 := by
    rw [List.length_map]
    exact List.length_eq_zero_iff.not.mpr hlisting
  rw [enrichReplicasFromEnv, hcollected, List.nil_append]
  simp only [bind, Except.bind, if_neg hsome]
  rw [enrichReplicas_eq hpkg hparsable]
  refine congrArg Except.ok ((List.mapIdx_eq_iff.mpr fun k => ?_).symm)
  simp only [List.getElem?_mapIdx, List.getElem?_map, Option.map_map, Function.comp_def,
    Nat.add_comm 1]
  rfl

end Enrich

/-! ## Places and numbers -/

/-- An empty API path counts as the default. -/
def InstanceField.normalize : (f : InstanceField) → f.Value → f.Value
  | .apiPath, v => if v = "" then defaultAPIPath else v
  | _, v => v

theorem get_withAPIPath (i : AdGuardInstance) (f : InstanceField) :
    i.withAPIPath.get f = f.normalize (i.get f) := by
  unfold AdGuardInstance.withAPIPath
  cases f <;> split_ifs with h <;> simp [AdGuardInstance.get, InstanceField.normalize, h]

section Places

variable (pkg : EnvPackage) (env : Environ) (files : List AdGuardInstance)

/-- The variables of `p` over the file's entry for `n`, and those of `m` over its own entry, give
the same options. -/
def SameOptions (p n m : ℕ) : Prop :=
  ∀ f : InstanceField, f ≠ .url →
    f.normalize ((pkg.instanceLayer env (replicaPrefix p)).over (fileReplica files n).get f) =
      f.normalize ((pkg.instanceLayer env (replicaPrefix m)).over (fileReplica files m).get f)

/-- The place `p`, with the entry `e` listed there, has the URL and the options of the number
`m`. -/
structure Stands (p : ℕ) (e : ℕ × String) (m : ℕ) : Prop where
  url : env.value (replicaURL m) = some ((env.value (replicaURL p)).getD e.2)
  options : SameOptions pkg env files p e.1 m

/-- The places can be given to the numbers, one to each, so that each stands for its number. -/
def Placeable (numbers : List ℕ) : Prop :=
  ∃ ms : List ℕ, ms.Perm numbers ∧ ∀ k e m, env.listing[k]? = some e → ms[k]? = some m →
    Stands pkg env files (k + 1) e m

/-- The replicas are the configured ones, in any order. -/
def EnrichesNumbered (numbers : List ℕ) : Prop :=
  ∃ replicas, enrichReplicasFromEnv pkg env files = .ok replicas ∧
    replicas.Perm (numbers.map (configured pkg env files))

variable {pkg env files} {p m : ℕ} {e : ℕ × String} {numbers : List ℕ}

theorem instanceLayer_url (n : ℕ) :
    pkg.instanceLayer env (replicaPrefix n) .url = env.value (replicaURL n) := by
  simp [Parsers.instanceLayer, InstanceField.env, Parsers.read, replicaURL]

/-- An entry becomes the configured replica exactly if its place stands for it. -/
theorem placed_eq_configured_iff (hm : (env.value (replicaURL m)).isSome) :
    placed pkg env files p e = configured pkg env files m ↔ Stands pkg env files p e m := by
  obtain ⟨u, hu⟩ := Option.isSome_iff_exists.mp hm
  have hcollected : ∀ f, f ≠ .url → (collected files e).get f = (fileReplica files e.1).get f := by
    intro f hf
    cases f <;> first | rfl | exact absurd rfl hf
  have hget : ∀ f, (placed pkg env files p e).get f =
      f.normalize ((pkg.instanceLayer env (replicaPrefix p)).over (collected files e).get f) :=
    fun f => (get_withAPIPath _ f).trans (congrArg f.normalize (AdGuardInstance.get_overlay _ _ f))
  have hget' : ∀ f, (configured pkg env files m).get f =
      f.normalize ((pkg.instanceLayer env (replicaPrefix m)).over (fileReplica files m).get f) :=
    fun f => (get_withAPIPath _ f).trans (congrArg f.normalize (AdGuardInstance.get_overlay _ _ f))
  have hurl : (placed pkg env files p e).get .url = (env.value (replicaURL p)).getD e.2 := by
    rw [hget, Layer.over_apply, instanceLayer_url]
    rfl
  have hurl' : (configured pkg env files m).get .url = u := by
    rw [hget', Layer.over_apply, instanceLayer_url, hu]
    rfl
  constructor
  · intro h
    refine ⟨?_, fun f hf => ?_⟩
    · rw [hu, ← hurl, h, hurl']
    · rw [← hget', ← h, hget, Layer.over_apply, Layer.over_apply, hcollected f hf]
  · rintro ⟨haddress, hoptions⟩
    refine AdGuardInstance.ext_get fun f => ?_
    by_cases hf : f = .url
    · subst hf
      rw [hurl, hurl']
      exact Option.some.inj (haddress.symm.trans hu)
    · rw [hget, hget', ← hoptions f hf, Layer.over_apply, Layer.over_apply, hcollected f hf]

end Places

/-- The numbered replicas are right exactly if the places of the environment can stand for their
numbers. -/
theorem enrichReplicasFromEnv_numbered_iff (pkg : EnvPackage) (env : Environ)
    (files : List AdGuardInstance) (numbers : List ℕ) (hpkg : pkg.Overwrites env)
    (hparsable : ∀ n, pkg.Parsable env (replicaPrefix n)) (hwell : env.WellNumbered)
    (hnumbers : env.Numbers numbers) (hsome : numbers ≠ []) :
    EnrichesNumbered pkg env files numbers ↔ Placeable pkg env files numbers := by
  have hplaces := Environ.length_listing hwell hnumbers
  have hlisting : env.listing ≠ [] := by
    rintro he
    rw [he] at hplaces
    exact hsome (List.length_eq_zero_iff.mp hplaces.symm)
  have hset : ∀ {ms : List ℕ}, ms.Perm numbers → ∀ k m, ms[k]? = some m →
      (env.value (replicaURL m)).isSome := fun hms k m hm =>
    ((hnumbers.2 m).mp (hms.mem_iff.mp (List.mem_of_getElem? hm))).2
  have hreplicas : EnrichesNumbered pkg env files numbers ↔ ∃ ms : List ℕ, ms.Perm numbers ∧
      (env.listing.mapIdx fun k => placed pkg env files (k + 1)) =
        ms.map (configured pkg env files) := by
    rw [EnrichesNumbered, enrichReplicasFromEnv_eq hpkg hparsable hwell hlisting]
    simp only [Except.ok.injEq, exists_eq_left']
    have hcomp := congrFun (congrFun (List.eq_map_comp_perm (configured pkg env files))
      (env.listing.mapIdx fun k => placed pkg env files (k + 1))) numbers
    exact (iff_of_eq hcomp).symm.trans (exists_congr fun ms => and_comm)
  rw [hreplicas]
  refine exists_congr fun ms => and_congr_right fun hms => ?_
  have hlength : ms.length = env.listing.length := hms.length_eq.trans hplaces.symm
  rw [List.mapIdx_eq_iff]
  constructor
  · intro h k e m he hm
    have hk := h k
    rw [List.getElem?_map, he, hm] at hk
    exact (placed_eq_configured_iff (hset hms k m hm)).mp (Option.some.inj hk).symm
  · intro h k
    rw [List.getElem?_map]
    cases he : env.listing[k]? with
    | none =>
      have hshort := List.getElem?_eq_none_iff.mp he
      rw [List.getElem?_eq_none (hlength ▸ hshort)]
      rfl
    | some e =>
      obtain ⟨hk, -⟩ := List.getElem?_eq_some_iff.mp he
      obtain ⟨m, hm⟩ : ∃ m, ms[k]? = some m := ⟨_, List.getElem?_eq_getElem (hlength ▸ hk)⟩
      rw [hm]
      exact congrArg some ((placed_eq_configured_iff (hset hms k m hm)).mpr (h k e m he hm)).symm

/-! ## Different URLs -/

/-- The URLs are different from each other, and each is one line. -/
structure Environ.Distinct (env : Environ) (numbers : List ℕ) : Prop where
  injective : ∀ n ∈ numbers, ∀ m ∈ numbers,
    env.value (replicaURL n) = env.value (replicaURL m) → n = m
  oneLine : ∀ n v, env.value (replicaURL n) = some v → firstLine v = v

section Distinct

variable {pkg : EnvPackage} {env : Environ} {files : List AdGuardInstance} {numbers : List ℕ}
  {k : ℕ} {e : ℕ × String}

theorem mem_numbers_of_listing (hwell : env.WellNumbered) (hnumbers : env.Numbers numbers)
    (hd : env.Distinct numbers) (he : env.listing[k]? = some e) :
    e.1 ∈ numbers ∧ env.value (replicaURL e.1) = some e.2 := by
  obtain ⟨hn, v, hv, hu⟩ := (Environ.mem_listing hwell).mp (List.mem_of_getElem? he)
  rw [hd.oneLine _ _ hv] at hu
  exact ⟨(hnumbers.2 _).mpr ⟨hn, by simp [hv]⟩, hu ▸ hv⟩

/-- The number that a place stands for : its own if that is one, else the one listed there. -/
def ownNumber (numbers : List ℕ) (k : ℕ) (e : ℕ × String) : ℕ :=
  if k + 1 ∈ numbers then k + 1 else e.1

theorem stands_iff (hwell : env.WellNumbered) (hnumbers : env.Numbers numbers)
    (hd : env.Distinct numbers) (he : env.listing[k]? = some e) {m : ℕ} (hm : m ∈ numbers) :
    Stands pkg env files (k + 1) e m ↔ m = ownNumber numbers k e ∧
      SameOptions pkg env files (k + 1) e.1 m := by
  obtain ⟨hlisted, hvalue⟩ := mem_numbers_of_listing hwell hnumbers hd he
  have hurl : env.value (replicaURL m) = some ((env.value (replicaURL (k + 1))).getD e.2) ↔
      m = ownNumber numbers k e := by
    unfold ownNumber
    split_ifs with hk
    · obtain ⟨v, hv⟩ := Option.isSome_iff_exists.mp ((hnumbers.2 _).mp hk).2
      rw [hv, Option.getD_some, ← hv]
      exact ⟨hd.injective m hm _ hk, fun h => h ▸ rfl⟩
    · have hnone : env.value (replicaURL (k + 1)) = none := by
        rw [Option.eq_none_iff_forall_ne_some]
        exact fun v hv => hk ((hnumbers.2 _).mpr ⟨by omega, by simp [hv]⟩)
      rw [hnone, Option.getD_none, ← hvalue]
      exact ⟨hd.injective m hm _ hlisted, fun h => h ▸ rfl⟩
  exact ⟨fun h => ⟨hurl.mp h.url, h.options⟩, fun h => ⟨hurl.mpr h.1, h.2⟩⟩

theorem ownNumber_mem (hwell : env.WellNumbered) (hnumbers : env.Numbers numbers)
    (hd : env.Distinct numbers) (he : env.listing[k]? = some e) :
    ownNumber numbers k e ∈ numbers := by
  unfold ownNumber
  split_ifs with hk
  · exact hk
  · exact (mem_numbers_of_listing hwell hnumbers hd he).1

/-- With different URLs there is one way to give the places to the numbers. -/
theorem placeable_iff_ownNumber (hwell : env.WellNumbered) (hnumbers : env.Numbers numbers)
    (hd : env.Distinct numbers) : Placeable pkg env files numbers ↔
      (env.listing.mapIdx (ownNumber numbers)).Perm numbers ∧ ∀ k e, env.listing[k]? = some e →
        SameOptions pkg env files (k + 1) e.1 (ownNumber numbers k e) := by
  constructor
  · rintro ⟨ms, hms, hstands⟩
    have hat : ∀ {k e}, env.listing[k]? = some e → ms[k]? = some (ownNumber numbers k e) ∧
        SameOptions pkg env files (k + 1) e.1 (ownNumber numbers k e) := by
      intro k e he
      have hk := (List.getElem?_eq_some_iff.mp he).1
      rw [Environ.length_listing hwell hnumbers, ← hms.length_eq] at hk
      obtain ⟨m, hm⟩ : ∃ m, ms[k]? = some m := ⟨_, List.getElem?_eq_getElem hk⟩
      obtain ⟨rfl, hoptions⟩ := (stands_iff hwell hnumbers hd he
        (hms.mem_iff.mp (List.mem_of_getElem? hm))).mp (hstands k e m he hm)
      exact ⟨hm, hoptions⟩
    have hplaces : ms = env.listing.mapIdx (ownNumber numbers) := by
      refine List.ext_getElem? fun k => ?_
      rw [List.getElem?_mapIdx]
      cases he : env.listing[k]? with
      | none =>
        have hshort := List.getElem?_eq_none_iff.mp he
        rw [Environ.length_listing hwell hnumbers, ← hms.length_eq] at hshort
        exact List.getElem?_eq_none hshort
      | some e => exact (hat he).1
    exact ⟨hplaces ▸ hms, fun k e he => (hat he).2⟩
  · rintro ⟨hperm, hoptions⟩
    refine ⟨_, hperm, fun k e m he hm => ?_⟩
    rw [List.getElem?_mapIdx, he] at hm
    obtain rfl := Option.some.inj hm
    exact (stands_iff hwell hnumbers hd he (ownNumber_mem hwell hnumbers hd he)).mpr
      ⟨rfl, hoptions k e he⟩

/-- If no place that is not a number has the number of another place, no two places have one
number. -/
theorem nodup_ownNumber (hwell : env.WellNumbered)
    (h : ∀ k e, env.listing[k]? = some e → k + 1 ∉ numbers → env.listing.length < e.1) :
    (env.listing.mapIdx (ownNumber numbers)).Nodup := by
  refine List.nodup_iff_getElem?_ne_getElem?.mpr fun i j hij hj hsame => ?_
  rw [List.length_mapIdx] at hj
  obtain ⟨a, ha⟩ : ∃ a, env.listing[i]? = some a := ⟨_, List.getElem?_eq_getElem (by omega)⟩
  obtain ⟨b, hb⟩ : ∃ b, env.listing[j]? = some b := ⟨_, List.getElem?_eq_getElem hj⟩
  have hown : ownNumber numbers i a = ownNumber numbers j b := by
    simpa only [List.getElem?_mapIdx, ha, hb, Option.map_some, Option.some_inj] using hsame
  have hplaceᵢ := h i a ha
  have hplaceⱼ := h j b hb
  unfold ownNumber at hown
  split_ifs at hown with hi hj
  · omega
  · have := hplaceⱼ hj
    omega
  · have := hplaceᵢ hi
    omega
  · have hlisted : (env.listing.map Prod.fst)[i]? = (env.listing.map Prod.fst)[j]? := by
      rw [List.getElem?_map, List.getElem?_map, ha, hb, Option.map_some, Option.map_some, hown]
    have hbound : i < (env.listing.map Prod.fst).length := by
      rw [List.length_map]
      omega
    have := (List.getElem?_inj hbound (Environ.nodup_listing hwell)).mp hlisted
    omega

/-- Every number has a place exactly if no place that is not a number has the number of another
place. -/
theorem ownNumber_perm_iff (hwell : env.WellNumbered) (hnumbers : env.Numbers numbers)
    (hd : env.Distinct numbers) : (env.listing.mapIdx (ownNumber numbers)).Perm numbers ↔
      ∀ k e, env.listing[k]? = some e → k + 1 ∉ numbers → numbers.length < e.1 := by
  have hlength := Environ.length_listing hwell hnumbers
  constructor
  · intro hperm k e he hk
    by_contra hshort
    obtain ⟨hlisted, -⟩ := mem_numbers_of_listing hwell hnumbers hd he
    have hpos := ((hnumbers.2 _).mp hlisted).1
    obtain ⟨e', he'⟩ : ∃ e', env.listing[e.1 - 1]? = some e' :=
      ⟨_, List.getElem?_eq_getElem (by omega)⟩
    have hfirst : (env.listing.mapIdx (ownNumber numbers))[k]? = some e.1 := by
      rw [List.getElem?_mapIdx, he, Option.map_some, ownNumber, if_neg hk]
    have hsecond : (env.listing.mapIdx (ownNumber numbers))[e.1 - 1]? = some e.1 := by
      rw [List.getElem?_mapIdx, he', Option.map_some, ownNumber, Nat.sub_add_cancel hpos,
        if_pos hlisted]
    have hbound := (List.getElem?_eq_some_iff.mp hfirst).1
    have hsame := (List.getElem?_inj hbound (hperm.nodup_iff.mpr hnumbers.1)).mp
      (hfirst.trans hsecond.symm)
    exact hk (by rwa [hsame, Nat.sub_add_cancel hpos])
  · intro h
    have hsubset : env.listing.mapIdx (ownNumber numbers) ⊆ numbers := by
      intro m hm
      obtain ⟨k, hk⟩ := List.getElem?_of_mem hm
      rw [List.getElem?_mapIdx, Option.map_eq_some_iff] at hk
      obtain ⟨e, he, rfl⟩ := hk
      exact ownNumber_mem hwell hnumbers hd he
    have hnodup : (env.listing.mapIdx (ownNumber numbers)).Nodup :=
      nodup_ownNumber hwell fun k e he hk => hlength ▸ h k e he hk
    refine (hnodup.subperm hsubset).perm_of_length_le ?_
    rw [List.length_mapIdx, hlength]

/-- With different URLs, the places can stand for the numbers exactly if at every place `p` the
options are right for `p` itself where it is a number, and where it is none, a number behind the
last place is listed and the options are right for that. -/
theorem placeable_iff_of_distinct (hwell : env.WellNumbered) (hnumbers : env.Numbers numbers)
    (hd : env.Distinct numbers) : Placeable pkg env files numbers ↔
      ∀ k e, env.listing[k]? = some e → if k + 1 ∈ numbers then
        SameOptions pkg env files (k + 1) e.1 (k + 1)
      else numbers.length < e.1 ∧ SameOptions pkg env files (k + 1) e.1 e.1 := by
  rw [placeable_iff_ownNumber hwell hnumbers hd, ownNumber_perm_iff hwell hnumbers hd]
  unfold ownNumber
  constructor
  · rintro ⟨hbehind, hoptions⟩ k e he
    have hat := hoptions k e he
    split_ifs at hat ⊢ with hk
    · exact hat
    · exact ⟨hbehind k e he hk, hat⟩
  · intro h
    refine ⟨fun k e he hk => ?_, fun k e he => ?_⟩
    · have hat := h k e he
      rw [if_neg hk] at hat
      exact hat.1
    · have hat := h k e he
      split_ifs at hat ⊢
      · exact hat
      · exact hat.2

end Distinct

/-- Numbers without gaps that are listed in their order stand for themselves. -/
theorem placeable_of_ordered {pkg : EnvPackage} {env : Environ} {files : List AdGuardInstance}
    (hwell : env.WellNumbered) (h : ∀ k e, env.listing[k]? = some e → e.1 = k + 1) :
    Placeable pkg env files (env.listing.map Prod.fst) := by
  refine ⟨_, .refl _, fun k e m he hm => ?_⟩
  rw [List.getElem?_map, he] at hm
  obtain rfl : e.1 = m := Option.some.inj hm
  obtain ⟨-, v, hv, -⟩ := (Environ.mem_listing hwell).mp (List.mem_of_getElem? he)
  rw [← h k e he]
  exact ⟨by rw [hv]; rfl, fun _ _ => rfl⟩

/-! ## Examples -/

/-- The last character of a variable is that of its tag. -/
theorem getLast?_append_toList (pre name : String) (h : name.toList ≠ []) :
    (pre ++ name).toList.getLast? = name.toList.getLast? := by
  rw [String.toList_append, List.getLast?_append]
  cases hlast : name.toList.getLast? with
  | none => exact absurd (List.getLast?_eq_none_iff.mp hlast) h
  | some c => rfl

/-- Variables of numbered replicas that are texts. -/
theorem sampleParsers_parsable {env : Environ} (h : ∀ x ∈ env.vars,
    x.1.toList.getLast? ∈ [some 'L', some 'E']) (pre : String) :
    sampleParsers.Parsable env pre := by
  intro f name v hname hv
  have hlast := h _ (Environ.value_eq_some.mp hv).1
  cases f <;> first | rfl | skip
  all_goals
    obtain rfl := Option.some.inj hname
    rw [getLast?_append_toList _ _ (by decide)] at hlast
    exact absurd hlast (by decide)

/-- Two replicas, and a user name for the second. -/
def twoReplicas : Environ where
  vars := [("REPLICA2_URL", "b"), ("REPLICA1_URL", "a"), ("REPLICA2_USERNAME", "u")]
  nodup := by decide

theorem twoReplicas_wellNumbered : twoReplicas.WellNumbered := by
  intro x hx digits hdigits
  simp only [twoReplicas, List.mem_cons, List.not_mem_nil, or_false] at hx
  rcases hx with rfl | rfl | rfl
  · exact ⟨by decide, 2, by decide, by decide⟩
  · exact ⟨by decide, 1, by decide, by decide⟩
  · cases (by decide : envReplicasURL "REPLICA2_USERNAME" = none).symm.trans hdigits

/-- The replicas are listed in the wrong order, and both are right. -/
theorem enrichReplicasFromEnv_numbered_iff_sample :
    EnrichesNumbered samplePackage twoReplicas [{ url := "c", username := "v" }] [1, 2] ↔
      Placeable samplePackage twoReplicas [{ url := "c", username := "v" }] [1, 2] :=
  enrichReplicasFromEnv_numbered_iff _ _ _ _ (samplePackage_overwrites _)
    (fun _ => sampleParsers_parsable (by decide) _) twoReplicas_wellNumbered
    ((Environ.numbers_listing twoReplicas_wellNumbered).of_perm (by decide)) (by decide)

/-- A gap in the numbers. -/
def withGap : Environ where
  vars := [("REPLICA3_URL", "c"), ("REPLICA1_URL", "a")]
  nodup := by decide

theorem withGap_wellNumbered : withGap.WellNumbered := by
  intro x hx digits hdigits
  simp only [withGap, List.mem_cons, List.not_mem_nil, or_false] at hx
  rcases hx with rfl | rfl
  · exact ⟨by decide, 3, by decide, by decide⟩
  · exact ⟨by decide, 1, by decide, by decide⟩

/-- The first replica is there twice, and the third is missing. -/
theorem not_enrichesNumbered :
    withGap.WellNumbered ∧ withGap.Numbers [3, 1] ∧
      (∀ n, samplePackage.Parsable withGap (replicaPrefix n)) ∧
      ¬EnrichesNumbered samplePackage withGap [] [3, 1] := by
  have hnumbers : withGap.listing.map Prod.fst = [3, 1] := by decide
  have hparsable : ∀ n, samplePackage.Parsable withGap (replicaPrefix n) :=
    fun _ => sampleParsers_parsable (by decide) _
  refine ⟨withGap_wellNumbered, hnumbers ▸ Environ.numbers_listing withGap_wellNumbered, hparsable,
    ?_⟩
  rintro ⟨replicas, hreplicas, hperm⟩
  rw [enrichReplicasFromEnv_eq (samplePackage_overwrites _) hparsable withGap_wellNumbered
    (by decide)] at hreplicas
  obtain rfl := Except.ok.inj hreplicas
  have hurls := hperm.map AdGuardInstance.url
  revert hurls
  decide

end AghSync
