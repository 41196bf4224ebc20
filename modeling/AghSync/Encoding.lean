import AghSync.Compare
import Mathlib.Data.Multiset.Basic

/-!
# What a comparison of encodings sees

Two records have the same encoding only if they are equal : no member is dropped unless it is
nil. So a comparison by `jsonEquals` is exact, and what it does not see is what is changed
before it.
-/

open Json (omitEmpty always)

namespace AghSync

/-! ## Lists without their order -/

/-- The elements of an optional list, in any order. -/
def unordered (xs : Option (List String)) : Option (Multiset String) :=
  xs.map fun xs => (xs : Multiset String)

theorem unordered_inj {xs ys : Option (List String)} :
    unordered xs = unordered ys ↔ Option.Rel List.Perm xs ys := by
  cases xs <;> cases ys <;> simp [unordered]

@[simp] theorem unordered_eq_none {xs : Option (List String)} :
    unordered xs = none ↔ xs = none := by
  cases xs <;> simp [unordered]

namespace Model

/-! ## Records -/

instance : FaithfulMarshal DayRange where
  marshal_injective := Json.object_injective (fun _ => by simp [omitEmpty]) (fun _ _ => rfl)
    fun a b h => by
      cases a
      cases b
      simpa using h

instance : FaithfulMarshal Schedule where
  marshal_injective := Json.object_injective (fun _ => by simp [omitEmpty]) (fun _ _ => rfl)
    fun a b h => by
      cases a
      cases b
      simpa using h

instance : FaithfulMarshal SafeSearchConfig where
  marshal_injective := Json.object_injective (fun _ => by simp [omitEmpty]) (fun _ _ => rfl)
    fun a b h => by
      cases a
      cases b
      simpa using h

instance : FaithfulMarshal Client where
  marshal_injective := Json.object_injective (fun _ => by simp [omitEmpty]) (fun _ _ => rfl)
    fun a b h => by
      cases a
      cases b
      simpa using h

instance : FaithfulMarshal DNSConfig where
  marshal_injective a b h := by
    rw [← DNSConfig.unmarshal_marshal a, h, DNSConfig.unmarshal_marshal]

instance : FaithfulMarshal DhcpConfigV4 where
  marshal_injective := Json.object_injective (fun _ => by simp [omitEmpty]) (fun _ _ => rfl)
    fun a b h => by
      cases a
      cases b
      simpa using h

instance : FaithfulMarshal DhcpConfigV6 where
  marshal_injective := Json.object_injective (fun _ => by simp [omitEmpty]) (fun _ _ => rfl)
    fun a b h => by
      cases a
      cases b
      simpa using h

instance : FaithfulMarshal DhcpLease where
  marshal_injective := Json.object_injective (fun _ => by simp [always]) (fun _ _ => rfl)
    fun a b h => by
      cases a
      cases b
      simpa using h

instance : FaithfulMarshal DhcpStaticLease where
  marshal_injective := Json.object_injective (fun _ => by simp [always]) (fun _ _ => rfl)
    fun a b h => by
      cases a
      cases b
      simpa using h

instance : FaithfulMarshal DhcpStatus where
  marshal_injective := Json.object_injective (fun _ => by simp [omitEmpty, always])
    (fun _ _ => rfl) fun a b h => by
      cases a
      cases b
      simpa using h

end Model

end AghSync
