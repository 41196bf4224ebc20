import AghSync.Server

/-!
# Static leases

What `actionDHCPStaticLeases` makes of a replica whose calls all succeed. The merge goes by
the MAC : a lease whose MAC both sides have is neither removed nor added, so it keeps the
address and the name it has on the replica. The leases converge if and only if the leases of
the common MACs already agree.
-/

open Interaction KeyedMap

namespace AghSync

open Model

namespace Server

section Merge

variable {this other : Option (List DhcpStaticLease)} {o : MapOrder String}
  {l : DhcpStaticLease}

theorem mem_lease_adds (hother : ((other.getD []).map DhcpStaticLease.mac).Nodup) :
    l ∈ (mergeDhcpStaticLeases this other o).adds ↔
      l ∈ other.getD [] ∧ l.mac ∉ (this.getD []).map DhcpStaticLease.mac :=
  mem_misses_collect hother

theorem mem_lease_removes (hthis : ((this.getD []).map DhcpStaticLease.mac).Nodup) :
    l ∈ (mergeDhcpStaticLeases this other o).removes ↔
      l ∈ this.getD [] ∧ l.mac ∉ (other.getD []).map DhcpStaticLease.mac :=
  mem_values_rest_collect hthis

end Merge

theorem leases_removes (ls : List DhcpStaticLease) (sv : Server) :
    (ls.foldl (fun sv l => sv.apply (.dhcpRemoveStaticLease l)) sv).leases =
      sv.leases.filter (· ∉ ls) := by
  induction ls generalizing sv with
  | nil => simp
  | cons l ls ih =>
    have hone : (sv.apply (.dhcpRemoveStaticLease l)).leases = sv.leases.filter (· ≠ l) := rfl
    rw [List.foldl_cons, ih, hone, List.filter_filter]
    refine List.filter_congr fun x _ => ?_
    by_cases h : x = l <;> simp [h]

theorem leases_adds (ls : List DhcpStaticLease) (sv : Server) :
    (ls.foldl (fun sv l => sv.apply (.dhcpAddStaticLease l)) sv).leases = sv.leases ++ ls := by
  induction ls generalizing sv with
  | nil => simp
  | cons l ls ih =>
    have hone : (sv.apply (.dhcpAddStaticLease l)).leases = sv.leases ++ [l] := rfl
    rw [List.foldl_cons, ih, hone, List.append_assoc, List.singleton_append]

/-- `actionDHCPStaticLeases` succeeds, removes what the merge removes and adds what it
adds. -/
theorem exec_actionDHCPStaticLeases (orders : MergeSite → MapOrder String) (ac : ActionContext)
    {o : Origin} {c : DhcpStatus} (ho : o.dhcpServerConfig = some c) (sv : Server) :
    ∃ sv', (actionDHCPStaticLeases ac o).exec (answer orders) sv = (some (.ok (), o), sv') ∧
      sv'.leases =
        sv.leases.filter (· ∉
          (mergeDhcpStaticLeases sv.dhcp.staticLeases c.staticLeases (orders .leases)).removes) ++
        (mergeDhcpStaticLeases sv.dhcp.staticLeases c.staticLeases (orders .leases)).adds := by
  set m := mergeDhcpStaticLeases sv.dhcp.staticLeases c.staticLeases (orders .leases)
  refine ⟨m.adds.foldl (fun sv l => sv.apply (.dhcpAddStaticLease l))
    (m.removes.foldl (fun sv l => sv.apply (.dhcpRemoveStaticLease l)) sv), ?_, ?_⟩
  · have hloop := exec_forEach_tolerate_send orders ac.client o
    unfold actionDHCPStaticLeases Client.dhcpConfig
    rw [exec_doGet_bind]
    refine (exec_fromOrigin_bind orders sv ho).trans ?_
    exact (Act.exec_bind_of_ok (hloop sv _ .dhcpRemoveStaticLease m.removes)).trans
      (hloop _ _ .dhcpAddStaticLease m.adds)
  · rw [leases_adds, leases_removes]

end Server

/-- The leases converge if and only if those of the MACs that both sides have agree. -/
theorem actionDHCPStaticLeases_converges_iff (orders : MergeSite → MapOrder String)
    (ac : ActionContext) (o : Origin) (c : DhcpStatus) (ho : o.dhcpServerConfig = some c)
    (sv : Server) (hsv : (sv.leases.map DhcpStaticLease.mac).Nodup)
    (hc : ((c.staticLeases.getD []).map DhcpStaticLease.mac).Nodup) :
    ∃ sv', (actionDHCPStaticLeases ac o).exec (Server.answer orders) sv =
        (some (.ok (), o), sv') ∧
      ((∀ l, l ∈ sv'.leases ↔ l ∈ c.staticLeases.getD []) ↔
        ∀ l ∈ sv.leases, ∀ l' ∈ c.staticLeases.getD [], l.mac = l'.mac → l = l') := by
  obtain ⟨sv', hexec, hleases⟩ := Server.exec_actionDHCPStaticLeases orders ac ho sv
  refine ⟨sv', hexec, ?_⟩
  have hmem : ∀ l, l ∈ sv'.leases ↔
      (l ∈ sv.leases ∧ l.mac ∈ (c.staticLeases.getD []).map DhcpStaticLease.mac) ∨
        l ∈ c.staticLeases.getD [] ∧ l.mac ∉ sv.leases.map DhcpStaticLease.mac := by
    intro l
    rw [hleases, List.mem_append, List.mem_filter, decide_eq_true_eq,
      Server.mem_lease_adds hc, Server.mem_lease_removes hsv]
    have hstored : sv.dhcp.staticLeases.getD [] = sv.leases := rfl
    rw [hstored]
    tauto
  constructor
  · intro hsame l hl l' hl' hmac
    have hthere : l ∈ sv'.leases :=
      (hmem l).mpr (Or.inl ⟨hl, hmac ▸ List.mem_map_of_mem hl'⟩)
    exact List.inj_on_of_nodup_map hc ((hsame l).mp hthere) hl' hmac
  · intro hagree l
    rw [hmem]
    constructor
    · rintro (⟨hl, hmac⟩ | ⟨hl, -⟩)
      · obtain ⟨l', hl', hmac'⟩ := List.mem_map.mp hmac
        rwa [hagree l hl l' hl' hmac'.symm]
      · exact hl
    · intro hl
      by_cases hboth : l.mac ∈ sv.leases.map DhcpStaticLease.mac
      · obtain ⟨l', hl', hmac⟩ := List.mem_map.mp hboth
        rw [hagree l' hl' l hl hmac] at hl'
        exact Or.inl ⟨hl', List.mem_map_of_mem hl⟩
      · exact Or.inr ⟨hl, hboth⟩

/-- A lease to remove, one to add, and one that both sides have. -/
theorem actionDHCPStaticLeases_converges_iff_sample :
    let c : DhcpStatus := { staticLeases := some [{ mac := "a" }, { mac := "b", ip := "1" }] }
    let o : Origin := { dhcpServerConfig := some c }
    let sv : Server := { dhcp := { staticLeases := some [{ mac := "a" }, { mac := "c" }] } }
    ∃ sv', (actionDHCPStaticLeases sampleContext o).exec (Server.answer fun _ => .stored) sv =
        (some (.ok (), o), sv') ∧
      ((∀ l, l ∈ sv'.leases ↔ l ∈ c.staticLeases.getD []) ↔
        ∀ l ∈ sv.leases, ∀ l' ∈ c.staticLeases.getD [], l.mac = l'.mac → l = l') :=
  actionDHCPStaticLeases_converges_iff _ _ _ _ rfl _ (by decide) (by decide)

/-- A lease that got another address on the origin keeps the old one on the replica. -/
theorem actionDHCPStaticLeases_keeps_address :
    let c : DhcpStatus := { staticLeases := some [{ mac := "a", ip := "192.168.1.2" }] }
    let o : Origin := { dhcpServerConfig := some c }
    let old : DhcpStaticLease := { mac := "a", ip := "192.168.1.1" }
    let out := (actionDHCPStaticLeases sampleContext o).exec (Server.answer fun _ => .stored)
      { dhcp := { staticLeases := some [old] } }
    out.1 = some (.ok (), o) ∧ out.2.leases = [old] ∧ old ∉ c.staticLeases.getD [] := by
  decide

end AghSync
