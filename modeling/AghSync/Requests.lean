import AghSync.Encoding
import AghSync.Instance

/-!
# HTTP requests

A read or a write becomes a request with a method, a path below the base URL of the instance and
perhaps a JSON body. A server that tells requests apart by method and path, and reads the body,
finds out which write was meant (`Write.write_request`). The one ambiguity is the protection,
which is toggled by a DNS configuration of this one field. So two writes are the same request
exactly if they are the same up to this (`Write.request_eq_iff`), and what a server makes of a
request is what the write was for (`Instance.receive_request`).
-/

open Json (omitEmpty always)

namespace AghSync

open Model

/-! ## Encodings of the bodies -/

instance : FaithfulMarshal UInt16 where
  marshal_injective a b h := by
    have h := Int.ofNat_inj.mp (Json.int.inj h)
    exact UInt16.toNat_inj.mp h

instance : FaithfulMarshal InstallPort where
  marshal_injective := Json.object_injective (fun _ => by simp [always]) (fun _ _ => rfl)
    fun a b h => by
      cases a
      cases b
      simpa using h

instance : FaithfulMarshal InstallConfig where
  marshal_injective := Json.object_injective (fun _ => by simp [always]) (fun _ _ => rfl)
    fun a b h => by
      cases a
      cases b
      simpa using h

instance : FaithfulMarshal ProfileInfo where
  marshal_injective := Json.object_injective (fun _ => by simp [always]) (fun _ _ => rfl)
    fun a b h => by
      cases a
      cases b
      simpa using h

instance : FaithfulMarshal QueryLogConfigWithIgnored where
  marshal_injective := Json.object_injective (fun _ => by simp [omitEmpty]) (fun _ _ => rfl)
    fun a b h => by
      have hsent : ∀ xs ys : List String, (if xs = [] then none else some xs) =
          (if ys = [] then none else some ys) → xs = ys := by
        intro xs ys hxs
        split_ifs at hxs with hx hy
        · exact hx.trans hy.symm
        · exact Option.some.inj hxs
      cases a
      cases b
      simp only [List.cons.injEq, Json.omitEmpty_inj, and_true] at h
      obtain ⟨rfl, rfl, rfl, h⟩ := h
      rw [hsent _ _ h]

instance : FaithfulMarshal GetStatsConfigResponse where
  marshal_injective := Json.object_injective (fun _ => by simp [always]) (fun _ _ => rfl)
    fun a b h => by
      cases a
      cases b
      simpa using h

instance : FaithfulMarshal RewriteEntry where
  marshal_injective := Json.object_injective (fun _ => by simp [omitEmpty]) (fun _ _ => rfl)
    fun a b h => by
      cases a
      cases b
      simpa using h

instance : FaithfulMarshal AddUrlRequest where
  marshal_injective := Json.object_injective (fun _ => by simp [omitEmpty]) (fun _ _ => rfl)
    fun a b h => by
      cases a
      cases b
      simpa using h

instance : FaithfulMarshal RemoveUrlRequest where
  marshal_injective := Json.object_injective (fun _ => by simp [omitEmpty]) (fun _ _ => rfl)
    fun a b h => by
      cases a
      cases b
      simpa using h

instance : FaithfulMarshal FilterSetUrlData where
  marshal_injective := Json.object_injective (fun _ => by simp [always]) (fun _ _ => rfl)
    fun a b h => by
      cases a
      cases b
      simpa using h

instance : FaithfulMarshal FilterSetUrl where
  marshal_injective := Json.object_injective (fun _ => by simp [omitEmpty]) (fun _ _ => rfl)
    fun a b h => by
      cases a
      cases b
      simpa using h

instance : FaithfulMarshal FilterRefreshRequest where
  marshal_injective := Json.object_injective (fun _ => by simp [omitEmpty]) (fun _ _ => rfl)
    fun a b h => by
      cases a
      cases b
      simpa using h

instance : FaithfulMarshal SetRulesRequest where
  marshal_injective := Json.object_injective (fun _ => by simp [omitEmpty]) (fun _ _ => rfl)
    fun a b h => by
      cases a
      cases b
      simpa using h

instance : FaithfulMarshal FilterConfig where
  marshal_injective := Json.object_injective (fun _ => by simp [omitEmpty]) (fun _ _ => rfl)
    fun a b h => by
      cases a
      cases b
      simpa using h

instance : FaithfulMarshal BlockedServicesSchedule where
  marshal_injective := Json.object_injective (fun _ => by simp [omitEmpty]) (fun _ _ => rfl)
    fun a b h => by
      cases a
      cases b
      simpa using h

instance : FaithfulMarshal ClientUpdate where
  marshal_injective := Json.object_injective (fun _ => by simp [omitEmpty]) (fun _ _ => rfl)
    fun a b h => by
      cases a
      cases b
      simpa using h

instance : FaithfulMarshal AccessList where
  marshal_injective := Json.object_injective (fun _ => by simp [omitEmpty]) (fun _ _ => rfl)
    fun a b h => by
      cases a
      cases b
      simpa using h

instance : FaithfulMarshal TlsConfig where
  marshal_injective := Json.object_injective (fun _ => by simp [omitEmpty]) (fun _ _ => rfl)
    fun a b h => by
      cases a
      cases b
      simpa using h

/-! ## Requests -/

namespace Http

/-- The methods of the requests. -/
inductive Method
  | get
  | post
  | put
  deriving DecidableEq

/-- A request to an instance. The path is below its base URL. -/
structure Request where
  method : Method
  path : String
  body : Option Json
  deriving DecidableEq

end Http

/-- The path of a read. -/
def Read.path : Read → String
  | status => "status"
  | profile => "/profile"
  | parentalStatus => "/parental/status"
  | safesearchStatus => "/safesearch/status"
  | safebrowsingStatus => "/safebrowsing/status"
  | rewriteList => "/rewrite/list"
  | blockedServicesGet => "/blocked_services/get"
  | filteringStatus => "/filtering/status"
  | clients => "/clients"
  | querylogConfig => "/querylog/config"
  | statsConfig => "/stats/config"
  | accessList => "/access/list"
  | dnsInfo => "/dns_info"
  | dhcpStatus => "/dhcp/status"
  | tlsStatus => "/tls/status"

/-- What `doGet` sends. -/
def Read.request (q : Read) : Http.Request :=
  ⟨.get, q.path, none⟩

/-- Whether a write goes through `doPost` or `doPut`. -/
def Write.method : Write → Http.Method
  | profileUpdate _ | safesearchSettings _ | blockedServicesUpdate _ | querylogConfigUpdate _
  | statsConfigUpdate _ => .put
  | _ => .post

/-- What `doPost` and `doPut` send. -/
def Write.request (w : Write) : Http.Request :=
  ⟨w.method, w.endpoint, w.body⟩

theorem Read.request_injective : Function.Injective Read.request := by
  intro q q' h
  have hpath : q.path = q'.path := congrArg Http.Request.path h
  cases q <;> cases q' <;> first | rfl | exact absurd hpath (by decide)

theorem Write.method_ne_get (w : Write) : w.method ≠ .get := by
  cases w <;> nofun

/-! ## What a server reads -/

namespace Http.Request

/-- The write with the body of the request. -/
noncomputable def reads {α : Type} [Marshal α] (req : Request) (f : α → Write) : Option Write :=
  (req.body.bind (Function.partialInv marshal)).map f

/-- The write a server makes of a request. -/
noncomputable def write (req : Request) : Option Write :=
  match req.method, req.path with
  | .put, "/profile/update" => req.reads .profileUpdate
  | .put, "/safesearch/settings" => req.reads .safesearchSettings
  | .put, "/blocked_services/update" => req.reads .blockedServicesUpdate
  | .put, "/querylog/config/update" => req.reads .querylogConfigUpdate
  | .put, "/stats/config/update" => req.reads .statsConfigUpdate
  | .post, "/install/configure" => req.reads .installConfigure
  | .post, "/parental/enable" => some (.parental true)
  | .post, "/parental/disable" => some (.parental false)
  | .post, "/safebrowsing/enable" => some (.safebrowsing true)
  | .post, "/safebrowsing/disable" => some (.safebrowsing false)
  | .post, "/dns_config" => req.reads .dnsConfig
  | .post, "/rewrite/add" => req.reads .rewriteAdd
  | .post, "/rewrite/delete" => req.reads .rewriteDelete
  | .post, "/filtering/add_url" => req.reads .filteringAddUrl
  | .post, "/filtering/remove_url" => req.reads .filteringRemoveUrl
  | .post, "/filtering/set_url" => req.reads .filteringSetUrl
  | .post, "/filtering/refresh" => req.reads .filteringRefresh
  | .post, "/filtering/set_rules" => req.reads .filteringSetRules
  | .post, "/filtering/config" => req.reads .filteringConfig
  | .post, "/clients/add" => req.reads .clientsAdd
  | .post, "/clients/update" => req.reads .clientsUpdate
  | .post, "/clients/delete" => req.reads .clientsDelete
  | .post, "/access/set" => req.reads .accessSet
  | .post, "/dhcp/set_config" => req.reads .dhcpSetConfig
  | .post, "/dhcp/add_static_lease" => req.reads .dhcpAddStaticLease
  | .post, "/dhcp/remove_static_lease" => req.reads .dhcpRemoveStaticLease
  | .post, "/tls/configure" => req.reads .tlsConfigure
  | _, _ => none

theorem reads_of_body {α : Type} [Marshal α] [FaithfulMarshal α] {req : Request} {a : α}
    (f : α → Write) (h : req.body = some (marshal a)) : req.reads f = some (f a) := by
  rw [reads, h, Option.bind_some, Function.partialInv_left FaithfulMarshal.marshal_injective,
    Option.map_some]

end Http.Request

/-- The write, where toggling the protection is a DNS configuration of this one field. -/
def Write.sent : Write → Write
  | protection b => dnsConfig { protectionEnabled := some b.protectionEnabled }
  | w => w

theorem marshal_protection (b : Protection) :
    marshal b = marshal ({ protectionEnabled := some b.protectionEnabled } : DNSConfig) :=
  rfl

/-- A server finds out which write was meant. -/
theorem Write.write_request (w : Write) : w.request.write = some w.sent := by
  cases w with
  | parental enable => cases enable <;> rfl
  | safebrowsing enable => cases enable <;> rfl
  | protection b => exact Http.Request.reads_of_body _ (congrArg some (marshal_protection b))
  | _ => exact Http.Request.reads_of_body _ rfl

theorem Write.request_sent (w : Write) : w.sent.request = w.request := by
  cases w <;> rfl

/-- Two writes are the same request exactly if they are the same, up to how the protection is
toggled. -/
theorem Write.request_eq_iff {w w' : Write} : w.request = w'.request ↔ w.sent = w'.sent := by
  constructor
  · intro h
    have hsame : some w.sent = some w'.sent := by
      rw [← w.write_request, ← w'.write_request, h]
    exact Option.some.inj hsame
  · intro h
    rw [← w.request_sent, h, w'.request_sent]

theorem Write.path_eq_install_iff {w : Write} :
    w.request.path = "/install/configure" ↔ ∃ cfg, w = .installConfigure cfg := by
  constructor
  · intro h
    cases w with
    | installConfigure cfg => exact ⟨cfg, rfl⟩
    | parental enable | safebrowsing enable => cases enable <;> exact absurd h (by decide)
    | _ => simp [request, endpoint] at h
  · rintro ⟨cfg, rfl⟩
    rfl

namespace Instance

/-- What a server does with a request. -/
noncomputable def receive (i : Instance) (req : Http.Request) : Instance :=
  req.write.elim i i.apply

theorem apply_sent (i : Instance) (w : Write) : i.apply w.sent = i.apply w := by
  cases w <;> rfl

/-- A server does what the write was for. -/
theorem receive_request (i : Instance) (w : Write) : i.receive w.request = i.apply w := by
  rw [receive, w.write_request, Option.elim_some, apply_sent]

end Instance

end AghSync
