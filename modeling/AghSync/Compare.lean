import AghSync.Model
import Mathlib.Data.List.Sort
import Mathlib.Data.String.Basic

/-!
# Comparing documents

The equality checks that decide whether a document is written. Several of them change what
they compare, and the change outlives the call : lists are sorted in place, a time zone is
taken out and put back, invalid DHCP sections are dropped. Such a check returns the answer
together with its arguments as they are afterwards.

A check that dereferences a field returns `none` where the field is nil.
-/

namespace AghSync

/-- `sort.Strings`. -/
def sortStrings (xs : List String) : List String :=
  xs.insertionSort (· ≤ ·)

theorem sortStrings_sorted (xs : List String) : (sortStrings xs).Pairwise (· ≤ ·) :=
  List.pairwise_insertionSort _ xs

@[simp] theorem sortStrings_sortStrings (xs : List String) :
    sortStrings (sortStrings xs) = sortStrings xs :=
  (sortStrings_sorted xs).insertionSort_eq

theorem sortStrings_perm (xs : List String) : (sortStrings xs).Perm xs :=
  List.perm_insertionSort _ xs

theorem sortStrings_inj {xs ys : List String} : sortStrings xs = sortStrings ys ↔ xs.Perm ys := by
  constructor
  · intro h
    exact (sortStrings_perm xs).symm.trans (h ▸ sortStrings_perm ys)
  · intro h
    have hperm := (sortStrings_perm xs).trans (h.trans (sortStrings_perm ys).symm)
    exact hperm.eq_of_pairwise' (sortStrings_sorted xs) (sortStrings_sorted ys)

/-- Sorting makes lists equal that differ in the order, and no others. -/
theorem map_sortStrings_inj {xs ys : Option (List String)} :
    xs.map sortStrings = ys.map sortStrings ↔ Option.Rel List.Perm xs ys := by
  cases xs <;> cases ys <;> simp [sortStrings_inj]

namespace Utils

/-- `utils.PtrToString` of a pointer to a slice. -/
def ptrToString : Option (List String) → String
  | none => ""
  | some xs => "&[" ++ " ".intercalate xs ++ "]"

/-- `utils.PtrEquals`. -/
def ptrEquals {α : Type} [DecidableEq α] : Option α → Option α → Bool
  | none, none => true
  | some a, some b => decide (a = b)
  | _, _ => false

@[simp] theorem ptrEquals_eq_true {α : Type} [DecidableEq α] {a b : Option α} :
    ptrEquals a b = true ↔ a = b := by
  cases a <;> cases b <;> simp [ptrEquals]

end Utils

namespace Model

/-- `ptrEquals` : a nil pointer counts as the zero value. -/
def ptrEquals {α : Type} [DecidableEq α] (zero : α) (a b : Option α) : Bool :=
  decide (a.getD zero = b.getD zero)

/-! ## Lists of strings -/

/-- `EqualsStringSlice`, with both slices as they are afterwards. -/
def equalsStringSlice (a b : Option (List String)) (sortIt : Bool) :
    Bool × Option (List String) × Option (List String) :=
  match a, b with
  | none, none => (true, none, none)
  | some aa, some bb =>
    let aa := if sortIt then sortStrings aa else aa
    let bb := if sortIt then sortStrings bb else bb
    let equal := aa.length = bb.length && (aa.zip bb).all fun p => p.1 = p.2
    (equal, some aa, some bb)
  | a, b => (false, a, b)

/-- `AccessList.Equals`. A later pair of lists is looked at, and sorted, only if the
earlier ones are equal. -/
def AccessList.equals (al o : AccessList) : Bool × AccessList × AccessList :=
  let allowed := equalsStringSlice al.allowedClients o.allowedClients true
  let al := { al with allowedClients := allowed.2.1 }
  let o := { o with allowedClients := allowed.2.2 }
  if !allowed.1 then (false, al, o) else
  let disallowed := equalsStringSlice al.disallowedClients o.disallowedClients true
  let al := { al with disallowedClients := disallowed.2.1 }
  let o := { o with disallowedClients := disallowed.2.2 }
  if !disallowed.1 then (false, al, o) else
  let hosts := equalsStringSlice al.blockedHosts o.blockedHosts true
  (hosts.1, { al with blockedHosts := hosts.2.1 }, { o with blockedHosts := hosts.2.2 })

/-- `ArrayString`, with the slice as it is afterwards : formatting sorts it in place. -/
def arrayString : Option (List String) → String × Option (List String)
  | none => ("[]", none)
  | some a =>
    let sorted := sortStrings a
    ("[" ++ ",".intercalate sorted ++ "]", some sorted)

/-! ## Clients -/

/-- `Client.Sort`. -/
def Client.sort (cl : Client) : Client :=
  { cl with
    ids := cl.ids.map sortStrings
    tags := cl.tags.map sortStrings
    blockedServices := cl.blockedServices.map sortStrings
    upstreams := cl.upstreams.map sortStrings }

/-- No day of the schedule is set. -/
def Schedule.noDays (s : Schedule) : Bool :=
  s.mon.isNone && s.tue.isNone && s.wed.isNone && s.thu.isNone && s.fri.isNone &&
    s.sat.isNone && s.sun.isNone

/-- `Client.PrepareDiff` : take the time zone out of a schedule without days. -/
def Client.prepareDiff (cl : Client) : Option String × Client :=
  match cl.blockedServicesSchedule with
  | some bss =>
    if bss.noDays then
      (bss.timeZone, { cl with blockedServicesSchedule := some { bss with timeZone := none } })
    else (none, cl)
  | none => (none, cl)

/-- `Client.AfterDiff` : set the time zone of a schedule, with or without days. -/
def Client.afterDiff (cl : Client) (tz : Option String) : Client :=
  { cl with
    blockedServicesSchedule := cl.blockedServicesSchedule.map fun bss =>
      { bss with timeZone := tz } }

/-- `Client.Equals`. -/
def Client.equals (cl o : Client) : Bool × Client × Client :=
  let bssCl := cl.sort.prepareDiff
  let bssO := o.sort.prepareDiff
  (jsonEquals bssCl.2 bssO.2, bssCl.2.afterDiff bssCl.1, bssO.2.afterDiff bssO.1)

/-! ## Settings documents -/

/-- `Filter.Equals`. -/
def Filter.equals (f o : Filter) : Bool :=
  f.enabled = o.enabled && f.url = o.url && f.name = o.name

/-- `QueryLogConfigWithIgnored.Equals`. -/
def QueryLogConfigWithIgnored.equals (qlc o : QueryLogConfigWithIgnored) : Bool :=
  jsonEquals qlc o

/-- `SafeSearchConfig.Equals`. -/
def SafeSearchConfig.equals (ssc o : SafeSearchConfig) : Bool :=
  ptrEquals false ssc.enabled o.enabled &&
    ptrEquals false ssc.bing o.bing &&
    ptrEquals false ssc.duckduckgo o.duckduckgo &&
    ptrEquals false ssc.google o.google &&
    ptrEquals false ssc.pixabay o.pixabay &&
    ptrEquals false ssc.yandex o.yandex &&
    ptrEquals false ssc.youtube o.youtube

/-- `ProfileInfo.Equals`. -/
def ProfileInfo.equals (pi o : ProfileInfo) (withTheme : Bool) : Bool :=
  pi.language = o.language && (!withTheme || pi.theme = o.theme)

/-- `ProfileInfo.ShouldSyncFor` : the profile to write, if any. -/
def ProfileInfo.shouldSyncFor (pi o : ProfileInfo) (withTheme : Bool) : Option ProfileInfo :=
  if pi.equals o withTheme then none else
  let merged : ProfileInfo := { name := pi.name, language := pi.language, theme := pi.theme }
  let merged := if o.language ≠ "" then { merged with language := o.language } else merged
  let merged :=
    if withTheme ∧ o.theme ≠ "" then { merged with theme := o.theme } else merged
  if merged.name = "" ∨ merged.language = "" ∨ merged.equals pi false then none else some merged

/-- `BlockedServicesSchedule.Equals`. -/
def BlockedServicesSchedule.equals (bss o : BlockedServicesSchedule) : Bool :=
  jsonEquals bss o

/-- `BlockedServicesSchedule.ServicesString`, with the schedule as it is afterwards. -/
def BlockedServicesSchedule.servicesString (bss : BlockedServicesSchedule) :
    String × BlockedServicesSchedule :=
  let services := arrayString bss.ids
  (services.1, { bss with ids := services.2 })

/-- `GetStatsConfigResponse.Equals`. -/
def GetStatsConfigResponse.equals (sc o : GetStatsConfigResponse) : Bool :=
  jsonEquals sc o

/-- `TlsConfig.Equals`. -/
def TlsConfig.equals (c config : TlsConfig) : Bool :=
  jsonEquals c config

/-! ## DNS and DHCP -/

/-- `DNSConfig.Clone`, through JSON. -/
def DNSConfig.clone (c : DNSConfig) : DNSConfig :=
  .unmarshal (marshal c)

/-- `DNSConfig.Sort`. All three lists are sorted when the first is there. -/
def DNSConfig.sort (c : DNSConfig) : Option DNSConfig :=
  match c.upstreamDns with
  | none => some c
  | some upstream => do
    let bootstrap ← c.bootstrapDns
    let localPtr ← c.localPtrUpstreams
    some { c with
      upstreamDns := some (sortStrings upstream)
      bootstrapDns := some (sortStrings bootstrap)
      localPtrUpstreams := some (sortStrings localPtr) }

/-- `DNSConfig.Equals`. The comparison is between clones. -/
def DNSConfig.equals (c o : DNSConfig) : Option Bool := do
  let cc ← c.clone.sort
  let oo ← o.clone.sort
  some (jsonEquals cc oo)

/-- The string is there and not empty. -/
def nonEmpty (s : Option String) : Bool :=
  s.any (· ≠ "")

/-- `DhcpConfigV4.isValid`. -/
def DhcpConfigV4.isValid (j : DhcpConfigV4) : Bool :=
  nonEmpty j.gatewayIp && nonEmpty j.subnetMask && nonEmpty j.rangeStart && nonEmpty j.rangeEnd

/-- `DhcpConfigV6.isValid`. -/
def DhcpConfigV6.isValid (j : DhcpConfigV6) : Bool :=
  nonEmpty j.rangeStart

/-- `DhcpStatus.HasConfig`. -/
def DhcpStatus.hasConfig (c : DhcpStatus) : Bool :=
  c.v4.any DhcpConfigV4.isValid || c.v6.any DhcpConfigV6.isValid

/-- `DhcpStatus.cleanV4V6` : drop the invalid sections. -/
def DhcpStatus.cleanV4V6 (c : DhcpStatus) : DhcpStatus :=
  { c with v4 := c.v4.filter DhcpConfigV4.isValid, v6 := c.v6.filter DhcpConfigV6.isValid }

/-- `DhcpStatus.Equals`. -/
def DhcpStatus.equals (c o : DhcpStatus) : Bool :=
  jsonEquals c o

/-- `DhcpStatus.CleanAndEquals`. -/
def DhcpStatus.cleanAndEquals (c o : DhcpStatus) : Bool × DhcpStatus × DhcpStatus :=
  (c.cleanV4V6.equals o.cleanV4V6, c.cleanV4V6, o.cleanV4V6)

end Model

end AghSync
