import AghSync.Actions

/-!
# An AdGuard Home instance

What the requests of the filter, rewrite and lease actions do to the instance that gets
them. A filter list has at most one entry per URL and adding a URL enables it, deleting a
rewrite deletes all its copies, and a lease is added and removed as it is.

`Server.answer` is an instance whose calls all succeed. Running an action against it is a
run of the action, and the state it ends in is what the action has made of the instance.
-/

open Interaction

namespace AghSync

open Model

/-- The domain and the answer of a rewrite, absent ones as the empty string. -/
def Model.RewriteEntry.pair (e : RewriteEntry) : String × String :=
  (e.domain.getD "", e.answer.getD "")

/-- The state of an instance. -/
structure Server where
  filtering : FilterStatus := {}
  rewrites : List RewriteEntry := []
  dhcp : DhcpStatus := {}

namespace Server

/-- A filter list as it is stored. -/
def filterList (sv : Server) (whitelist : Bool) : Option (List Filter) :=
  if whitelist then sv.filtering.whitelistFilters else sv.filtering.filters

/-- The filters of a list. -/
def filters (sv : Server) (whitelist : Bool) : List Filter :=
  (sv.filterList whitelist).getD []

/-- Change a filter list. -/
def mapFilters (sv : Server) (whitelist : Bool) (g : List Filter → List Filter) : Server :=
  if whitelist then
    { sv with filtering := { sv.filtering with whitelistFilters := some (g (sv.filters true)) } }
  else { sv with filtering := { sv.filtering with filters := some (g (sv.filters false)) } }

/-- The static leases. -/
def leases (sv : Server) : List DhcpStaticLease :=
  sv.dhcp.staticLeases.getD []

/-- The filter `set_url` makes of `f`. -/
def setUrl (url : String) (d : FilterSetUrlData) (f : Filter) : Filter :=
  if f.url = url then { f with name := d.name, enabled := d.enabled } else f

/-- What a write does to the instance. -/
def apply (sv : Server) : Write → Server
  | .filteringAddUrl b => sv.mapFilters (b.whitelist.getD false) fun fs =>
      fs ++ [{ enabled := true, name := b.name.getD "", url := b.url.getD "" }]
  | .filteringRemoveUrl b => sv.mapFilters (b.whitelist.getD false) fun fs =>
      fs.filter fun f => f.url ≠ b.url.getD ""
  | .filteringSetUrl b => sv.mapFilters (b.whitelist.getD false) fun fs =>
      fs.map (setUrl (b.url.getD "") (b.data.getD {}))
  | .filteringSetRules b => { sv with filtering := { sv.filtering with userRules := b.rules } }
  | .filteringConfig b =>
    { sv with filtering := { sv.filtering with enabled := b.enabled, interval := b.interval } }
  | .rewriteAdd e => { sv with rewrites := sv.rewrites ++ [e] }
  | .rewriteDelete e => { sv with rewrites := sv.rewrites.filter fun x => x.pair ≠ e.pair }
  | .dhcpAddStaticLease l =>
    { sv with dhcp := { sv.dhcp with staticLeases := some (sv.leases ++ [l]) } }
  | .dhcpRemoveStaticLease l =>
    { sv with dhcp := { sv.dhcp with staticLeases := some (sv.leases.filter (· ≠ l)) } }
  | _ => sv

/-- The document an instance answers a read with. -/
def doc (sv : Server) : (r : Read) → Doc r
  | .filteringStatus => sv.filtering
  | .rewriteList => some sv.rewrites
  | .dhcpStatus => sv.dhcp
  | .status => {}
  | .profile => {}
  | .parentalStatus => false
  | .safesearchStatus => {}
  | .safebrowsingStatus => false
  | .blockedServicesGet => {}
  | .clients => {}
  | .querylogConfig => {}
  | .statsConfig => {}
  | .accessList => {}
  | .dnsInfo => {}
  | .tlsStatus => {}

/-- An instance whose calls succeed, with the orders of the iterations over maps. -/
def answer (orders : MergeSite → MapOrder String) : (e : Event) → Server → Reply e × Server
  | .read _ r, sv => (.ok (sv.doc r), sv)
  | .write _ w, sv => (.ok (), sv.apply w)
  | .rangeMap _ site, sv => (orders site, sv)
  | .createClient _, sv => (.ok (), sv)
  | .rangeReplicas, sv => (.stored, sv)
  | .now, sv => ((0 : ℤ), sv)
  | .readRunning, sv => (false, sv)
  | .cronNext, sv => (none, sv)
  | .updateResult _ _ _, sv | .setRunning _, sv | .setLastSyncTime _, sv
  | .setNextSyncTime _, sv => ((), sv)

section Exec

variable {σ : Type} (orders : MergeSite → MapOrder String) (cl : Client) (s : σ) (sv : Server)

@[simp] theorem exec_tolerate_send (coe : Bool) (w : Write) :
    (Act.tolerate coe (cl.send w) s).exec (answer orders) sv =
      (some (.ok (), s), sv.apply w) := by
  cases coe <;> rfl

@[simp] theorem exec_rangeMap_bind {α : Type} (site : MergeSite)
    (k : MapOrder String → Call σ α) :
    ((cl.rangeMap site >>= k) s).exec (answer orders) sv =
      (k (orders site) s).exec (answer orders) sv :=
  rfl

@[simp] theorem exec_doGet_bind {α : Type} (r : Read) (k : Doc r → Call σ α) :
    ((cl.doGet r >>= k) s).exec (answer orders) sv =
      (k (sv.doc r) s).exec (answer orders) sv :=
  rfl

theorem exec_fromOrigin_bind {α β : Type} {f : Origin → Option α} {o : Origin} {a : α}
    {k : α → Call Origin β} (h : f o = some a) :
    ((fromOrigin f >>= k) o).exec (answer orders) sv = (k a o).exec (answer orders) sv := by
  rw [fromOrigin_bind_apply h]

/-- Sending a list of writes applies them in order. -/
theorem exec_forEach_send {α : Type} (f : α → Write) (xs : List α) :
    (Act.forEach xs (fun x => cl.send (f x)) s).exec (answer orders) sv =
      (some (.ok (), s), xs.foldl (fun sv x => sv.apply (f x)) sv) :=
  Act.exec_forEach _ _ (fun sv x => sv.apply (f x)) s (fun _ _ => rfl) xs sv

theorem exec_forEach_tolerate_send {α : Type} (coe : Bool) (f : α → Write) (xs : List α) :
    (Act.forEach xs (fun x => Act.tolerate coe (cl.send (f x))) s).exec (answer orders) sv =
      (some (.ok (), s), xs.foldl (fun sv x => sv.apply (f x)) sv) :=
  Act.exec_forEach _ _ (fun sv x => sv.apply (f x)) s
    (fun x sv => exec_tolerate_send orders cl s sv coe (f x)) xs sv

end Exec

/-! ## Filter lists -/

section Filters

variable (sv : Server) (whitelist : Bool)

@[simp] theorem filters_mapFilters (g : List Filter → List Filter) :
    (sv.mapFilters whitelist g).filters whitelist = g (sv.filters whitelist) := by
  cases whitelist <;> rfl

/-- The custom rules and the toggles. -/
def settings : Option (List String) × Option Bool × Option ℤ :=
  (sv.filtering.userRules, sv.filtering.enabled, sv.filtering.interval)

/-- Changing filter lists leaves the rules and the toggles. -/
@[simp] theorem settings_mapFilters (g : List Filter → List Filter) :
    (sv.mapFilters whitelist g).settings = sv.settings := by
  cases whitelist <;> rfl

end Filters

end Server

/-- A replica with nothing configured, for examples. -/
def sampleContext : ActionContext where
  deps := ⟨fun _ _ => 0, id⟩
  cfg := { origin := {} }
  client := Client.new (.replica {}) {}
  replicaStatus := {}
  replica := {}

end AghSync
