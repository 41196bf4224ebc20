import AghSync.Connect
import Mathlib.Data.Set.Pairwise.List

/-!
# One instance per endpoint

`UniqueReplicas` tells replicas apart by a text, the URL and the API path with a `#` between
them, while a client cleans the two when it joins them. So `/control` and `control` are two
replicas that are one endpoint, and one text can stand for two endpoints if a URL has a `#` of its
own. `syncsOnce_iff` says for which configurations the two agree.
-/

open KeyedMap

namespace AghSync

/-- The URL the client of an instance sends its requests to, if there is one. -/
def AdGuardInstance.endpoint (i : AdGuardInstance) : Option Net.Bytes :=
  i.baseURL.toOption

/-- The key under which a replica is kept. -/
def AdGuardInstance.dedupKey (i : AdGuardInstance) : String :=
  i.withAPIPath.key

namespace Config

/-- The replicas that are configured, the single one first. -/
def configured (cfg : Config) : List AdGuardInstance :=
  (cfg.replica.toList ++ cfg.replicas).filter fun i => i.url ≠ ""

/-- Every endpoint is synced once, with the settings that were configured for it last. -/
structure SyncsOnce (cfg : Config) (o : MapOrder String) : Prop where
  once : ((cfg.uniqueReplicas o).filterMap AdGuardInstance.endpoint).Nodup
  served : ∀ r ∈ cfg.configured, ∀ u, r.endpoint = some u →
    ∃ i ∈ cfg.uniqueReplicas o, i.endpoint = some u ∧
      ∃ last, lastWith AdGuardInstance.endpoint cfg.configured (some u) = some last ∧
        i = last.withAPIPath

/-- Keys and endpoints agree, where a later replica stands for the earlier ones like it. -/
structure KeysAgree (cfg : Config) : Prop where
  /-- The last replicas of two keys are two endpoints. -/
  distinct : ∀ k k' r r', lastWith AdGuardInstance.dedupKey cfg.configured k = some r →
    lastWith AdGuardInstance.dedupKey cfg.configured k' = some r' → ∀ u,
    r.withAPIPath.endpoint = some u → r'.withAPIPath.endpoint = some u → k = k'
  /-- The last replica of an endpoint has it with the default API path too, and is the last with
  its key, up to this path. -/
  kept : ∀ u r, lastWith AdGuardInstance.endpoint cfg.configured (some u) = some r →
    r.withAPIPath.endpoint = some u ∧
      (lastWith AdGuardInstance.dedupKey cfg.configured r.dedupKey).map
        AdGuardInstance.withAPIPath = some r.withAPIPath

variable {cfg : Config} {o : MapOrder String} {i : AdGuardInstance}

/-- A replica is kept if it is the last with its key. -/
theorem lookup_dedup (cfg : Config) (k : String) : cfg.dedup.lookup k =
    (lastWith AdGuardInstance.dedupKey cfg.configured k).map AdGuardInstance.withAPIPath := by
  rw [dedup, lookup_collect_map, lookup_collect_eq_lastWith]
  rfl

theorem mem_uniqueReplicas_iff : i ∈ cfg.uniqueReplicas o ↔
    ∃ k r, lastWith AdGuardInstance.dedupKey cfg.configured k = some r ∧ r.withAPIPath = i := by
  rw [uniqueReplicas, mem_values]
  simp only [lookup_dedup, Option.map_eq_some_iff]

/-- An instance is among the replicas if it is what is kept under its own key. -/
theorem withAPIPath_mem_uniqueReplicas : i.withAPIPath ∈ cfg.uniqueReplicas o ↔
    (lastWith AdGuardInstance.dedupKey cfg.configured i.dedupKey).map
      AdGuardInstance.withAPIPath = some i.withAPIPath := by
  rw [mem_uniqueReplicas_iff, Option.map_eq_some_iff]
  constructor
  · rintro ⟨k, r, hr, heq⟩
    have hk : i.dedupKey = k := by
      rw [← (of_lastWith hr).2, AdGuardInstance.dedupKey, AdGuardInstance.dedupKey, heq]
    exact ⟨r, hk ▸ hr, heq⟩
  · rintro ⟨r, hr, heq⟩
    exact ⟨_, r, hr, heq⟩

/-- No endpoint comes twice if the last replicas of two keys are two endpoints. -/
theorem nodup_endpoints_iff : ((cfg.uniqueReplicas o).filterMap AdGuardInstance.endpoint).Nodup ↔
    ∀ k k' r r', lastWith AdGuardInstance.dedupKey cfg.configured k = some r →
      lastWith AdGuardInstance.dedupKey cfg.configured k' = some r' → ∀ u,
      r.withAPIPath.endpoint = some u → r'.withAPIPath.endpoint = some u → k = k' := by
  let differ (i j : AdGuardInstance) : Prop :=
    ∀ u, i.endpoint = some u → ∀ v, j.endpoint = some v → u ≠ v
  have hsymm : Std.Symm differ := ⟨fun i j h u hu v hv => (h v hv u hu).symm⟩
  rw [List.Nodup, List.pairwise_filterMap]
  refine (nodup_uniqueReplicas cfg o).pairwise_coe.symm.trans ?_
  constructor
  · intro h k k' r r' hr hr' u hu hu'
    by_contra hne
    have hmem : r.withAPIPath ∈ cfg.uniqueReplicas o := mem_uniqueReplicas_iff.mpr ⟨k, r, hr, rfl⟩
    have hmem' : r'.withAPIPath ∈ cfg.uniqueReplicas o :=
      mem_uniqueReplicas_iff.mpr ⟨k', r', hr', rfl⟩
    refine h hmem hmem' (fun heq => hne ?_) u hu u hu' rfl
    rw [← (of_lastWith hr).2, ← (of_lastWith hr').2]
    exact congrArg AdGuardInstance.key heq
  · rintro h i hi j hj hne u hu v hv rfl
    obtain ⟨k, r, hr, rfl⟩ := mem_uniqueReplicas_iff.mp hi
    obtain ⟨k', r', hr', rfl⟩ := mem_uniqueReplicas_iff.mp hj
    obtain rfl := h k k' r r' hr hr' u hu hv
    rw [hr, Option.some.injEq] at hr'
    exact hne (congrArg _ hr')

/-- An endpoint is synced with the settings that were configured last if its last replica is
kept. -/
theorem served_iff (cfg : Config) (o : MapOrder String) :
    (∀ r ∈ cfg.configured, ∀ u, r.endpoint = some u →
      ∃ i ∈ cfg.uniqueReplicas o, i.endpoint = some u ∧
        ∃ last, lastWith AdGuardInstance.endpoint cfg.configured (some u) = some last ∧
          i = last.withAPIPath) ↔
    ∀ u r, lastWith AdGuardInstance.endpoint cfg.configured (some u) = some r →
      r.withAPIPath.endpoint = some u ∧ r.withAPIPath ∈ cfg.uniqueReplicas o := by
  constructor
  · intro h u r hr
    obtain ⟨hmem, hu⟩ := of_lastWith hr
    obtain ⟨_, hi, hiu, last, hlast, rfl⟩ := h r hmem u hu
    rw [hr, Option.some.injEq] at hlast
    subst hlast
    exact ⟨hiu, hi⟩
  · intro h r hmem u hu
    obtain ⟨last, hlast⟩ : ∃ last,
        lastWith AdGuardInstance.endpoint cfg.configured r.endpoint = some last :=
      exists_lastWith hmem
    rw [hu] at hlast
    obtain ⟨hendpoint, hkept⟩ := h u last hlast
    exact ⟨_, hkept, hendpoint, last, hlast, rfl⟩

/-- Every endpoint is synced once exactly if keys and endpoints agree. -/
theorem syncsOnce_iff (cfg : Config) (o : MapOrder String) : cfg.SyncsOnce o ↔ cfg.KeysAgree := by
  have hserved := served_iff cfg o
  simp only [withAPIPath_mem_uniqueReplicas] at hserved
  constructor
  · rintro ⟨honce, hall⟩
    exact ⟨nodup_endpoints_iff.mp honce, hserved.mp hall⟩
  · rintro ⟨hdistinct, hkept⟩
    exact ⟨nodup_endpoints_iff.mpr hdistinct, hserved.mpr hkept⟩

/-- Two spellings of the default path. -/
theorem not_syncsOnce :
    let first : AdGuardInstance := { url := "http://a", apiPath := "/control" }
    let second : AdGuardInstance := { url := "http://a", apiPath := "control" }
    ¬SyncsOnce { origin := {}, replicas := [first, second] } .stored := by
  intro first second h
  have honce := h.once
  revert honce
  decide

end Config

end AghSync
