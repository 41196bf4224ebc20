import AghSync.Client
import AghSync.Net

/-!
# Setting up a client

`client.New` : the URL the requests of an instance start with, and how they are authenticated. The
URL is that of the instance with its API path, cleaned. A cookie is a name and a value with one
`=` between them. Where the text of the cookie has no such form, the user name and the password
are used if there are both. So a value that has an `=` of its own is lost
(`parsesCookie_iff`).
-/

namespace AghSync

/-- What the HTTP client does with redirects. -/
inductive RedirectPolicy
  | noRedirect
  | flexible (noOfRedirects : ℤ)
  deriving DecidableEq

/-- The HTTP client of an instance. -/
structure RestyClient where
  baseURL : Net.Bytes
  headers : List (String × String)
  insecureSkipVerify : Bool
  cookies : List (String × String)
  userInfo : Option (String × String)
  redirectPolicy : RedirectPolicy
  deriving DecidableEq

/-- The errors of `client.New`. -/
inductive NewErr
  | parse (e : Net.ParseErr)
  | redirects
  deriving DecidableEq

/-- `envRedirectPolicyNoOfRedirects`. -/
def envRedirectPolicyNoOfRedirects : String :=
  "REDIRECT_POLICY_NO_OF_REDIRECTS"

/-- The text of an error. The text of a URL that is none is that of its package. -/
def NewErr.text (parseText : Net.ParseErr → String) : NewErr → String
  | parse e => parseText e
  | redirects =>
    "error parsing env var " ++ envRedirectPolicyNoOfRedirects.quote ++ " value must be an integer"

/-- `strconv.Atoi`. -/
def atoi (s : String) : Option ℤ :=
  let (negative, digits) := match s.toList with
    | '-' :: digits => (true, digits)
    | '+' :: digits => (false, digits)
    | digits => (false, digits)
  if digits = [] ∨ ¬digits.all Char.isDigit then none else
  let n : ℤ := Nat.ofDigitChars 10 digits 0
  let n := if negative then -n else n
  if -9223372036854775808 ≤ n ∧ n ≤ 9223372036854775807 then some n else none

namespace AdGuardInstance

/-- The URL of the API, as a text. -/
def apiURL (config : AdGuardInstance) : String :=
  if config.apiPath = "" then config.url ++ "/control" else config.url ++ "/" ++ config.apiPath

/-- The URL of the API, cleaned. -/
def baseURL (config : AdGuardInstance) : Except Net.ParseErr Net.Bytes := do
  let u ← Net.URL.parse (Net.bytes config.apiURL)
  pure { u with path := Net.Path.clean u.path }.string

end AdGuardInstance

/-- The part of `New` that chooses what to do with redirects. -/
def RedirectPolicy.ofEnv (lookupEnv : String → Option String) : Except NewErr RedirectPolicy :=
  match lookupEnv envRedirectPolicyNoOfRedirects with
  | some v =>
    match atoi v with
    | some nbr => .ok (.flexible nbr)
    | none => .error .redirects
  | none => .ok .noRedirect

/-- `New`, where `lookupEnv` is `os.LookupEnv`. -/
def RestyClient.new (lookupEnv : String → Option String) (config : AdGuardInstance) :
    Except NewErr RestyClient := do
  let u ← config.baseURL.mapError .parse
  let (cookies, userInfo) := config.credentials
  let policy ← RedirectPolicy.ofEnv lookupEnv
  pure {
    baseURL := u
    headers := config.requestHeaders
    insecureSkipVerify := config.insecureSkipVerify
    cookies := cookies
    userInfo := userInfo
    redirectPolicy := policy }

/-! ## Credentials -/

/-- The cookie is taken apart where it has a name without `=`, and without `=` it is not a
cookie : then the user name and the password are used if there are both. -/
structure ParsesCookie (config : AdGuardInstance) (c : RestyClient) : Prop where
  cookie : ∀ name value, '=' ∉ name.toList → config.cookie = name ++ "=" ++ value →
    c.cookies = [(name, value)] ∧ c.userInfo = none
  basicAuth : '=' ∉ config.cookie.toList → c.cookies = [] ∧ c.userInfo =
    if config.username ≠ "" ∧ config.password ≠ "" then some (config.username, config.password)
    else none

section New

variable {lookupEnv : String → Option String} {config : AdGuardInstance} {c : RestyClient}

/-- What a client is set up with. -/
theorem RestyClient.new_eq_ok (h : RestyClient.new lookupEnv config = .ok c) :
    config.baseURL = .ok c.baseURL ∧ c.headers = config.requestHeaders ∧
      c.insecureSkipVerify = config.insecureSkipVerify ∧
      (c.cookies, c.userInfo) = config.credentials ∧
      RedirectPolicy.ofEnv lookupEnv = .ok c.redirectPolicy := by
  simp only [new] at h
  cases hu : config.baseURL with
  | error e =>
    rw [hu] at h
    cases h
  | ok u =>
    cases hpolicy : RedirectPolicy.ofEnv lookupEnv with
    | error e =>
      rw [hu, hpolicy] at h
      cases h
    | ok policy =>
      rw [hu, hpolicy] at h
      cases h
      exact ⟨rfl, rfl, rfl, rfl, rfl⟩

theorem AdGuardInstance.credentials_of_notMem (h : '=' ∉ config.cookie.toList) :
    config.credentials = ([], if config.username ≠ "" ∧ config.password ≠ "" then
      some (config.username, config.password) else none) := by
  rw [credentials, List.splitOn_eq_singleton h]
  dsimp only
  split_ifs <;> rfl

/-- The name ends at the first `=`, if it is the only one. -/
theorem AdGuardInstance.credentials_of_append {name value : String} (hname : '=' ∉ name.toList)
    (hvalue : '=' ∉ value.toList) (h : config.cookie = name ++ "=" ++ value) :
    config.credentials = ([(name, value)], none) := by
  have hcookie : config.cookie.toList = name.toList ++ '=' :: value.toList := by
    rw [h]
    simp
  rw [credentials, hcookie, List.splitOn_append_cons_self, List.splitOn_eq_singleton hname,
    List.splitOn_eq_singleton hvalue]
  simp

/-- With a second `=` there is no cookie. -/
theorem AdGuardInstance.credentials_of_mem {name value : List Char} (hvalue : '=' ∈ value)
    (h : config.cookie.toList = name ++ '=' :: value) : config.credentials.1 = [] := by
  obtain ⟨pre, post, rfl⟩ := List.append_of_mem hvalue
  have hlength : 2 < (config.cookie.toList.splitOn '=').length := by
    have hne : ∀ xs : List Char, 0 < (xs.splitOn '=').length := fun xs =>
      List.length_pos_of_ne_nil (List.splitOn_ne_nil _ _)
    have h₁ := hne name
    have h₂ := hne pre
    have h₃ := hne post
    rw [h, List.splitOn_append_cons_self, List.splitOn_append_cons_self, List.length_append,
      List.length_append]
    omega
  rw [credentials]
  split
  · next heq =>
    rw [heq] at hlength
    simp at hlength
  · split_ifs <;> rfl

/-- A cookie is parsed exactly if its value has no `=`. -/
theorem parsesCookie_iff (lookupEnv : String → Option String) (config : AdGuardInstance)
    (c : RestyClient) (h : RestyClient.new lookupEnv config = .ok c) :
    ParsesCookie config c ↔ config.cookie.toList.count '=' ≤ 1 := by
  obtain ⟨-, -, -, hcredentials, -⟩ := RestyClient.new_eq_ok h
  by_cases hmem : '=' ∈ config.cookie.toList
  · obtain ⟨name, value, hcookie, hname⟩ := List.eq_append_cons_of_mem hmem
    have hsplit : config.cookie = String.ofList name ++ "=" ++ String.ofList value := by
      rw [← String.ofList_toList (s := config.cookie), hcookie]
      simp [String.ofList_append, String.append_assoc]
    constructor
    · intro hparses
      by_contra hcount
      have hvalue : '=' ∈ value := by
        rw [hcookie, List.count_append, List.count_cons_self,
          List.count_eq_zero.mpr hname] at hcount
        exact List.count_pos_iff.mp (by omega)
      have hnone := AdGuardInstance.credentials_of_mem hvalue hcookie
      obtain ⟨hcookies, -⟩ := hparses.cookie _ _ (by simpa using hname) hsplit
      rw [← hcredentials, hcookies] at hnone
      cases hnone
    · refine fun hcount => ⟨fun name' value' hname' hcookie' => ?_, fun hnot => absurd hmem hnot⟩
      have hvalue' : '=' ∉ value'.toList := by
        rw [hcookie', String.toList_append, String.toList_append, List.count_append,
          List.count_append] at hcount
        have hone : "=".toList.count '=' = 1 := rfl
        exact List.count_eq_zero.mp (by omega)
      rw [AdGuardInstance.credentials_of_append hname' hvalue' hcookie'] at hcredentials
      exact Prod.mk.inj hcredentials
  · refine iff_of_true ⟨fun name value hname hcookie => ?_, fun hnot => ?_⟩ ?_
    · rw [hcookie] at hmem
      simp at hmem
    · rw [AdGuardInstance.credentials_of_notMem hnot] at hcredentials
      exact Prod.mk.inj hcredentials
    · rw [List.count_eq_zero.mpr hmem]
      exact Nat.zero_le 1

end New

/-- A cookie that is parsed. -/
theorem parsesCookie_iff_sample : ∃ c,
    let config : AdGuardInstance := { url := "http://a", cookie := "id=1", username := "u" }
    ParsesCookie config c ↔ config.cookie.toList.count '=' ≤ 1 :=
  ⟨_, parsesCookie_iff (fun _ => none) _ _ rfl⟩

/-- A value that is padded. The user name and the password are used instead. -/
theorem not_parsesCookie : ∃ c,
    let config : AdGuardInstance :=
      { url := "http://a", cookie := "id=MQ==", username := "u", password := "p" }
    RestyClient.new (fun _ => none) config = .ok c ∧ c.userInfo = some ("u", "p") ∧
      ¬ParsesCookie config c := by
  refine ⟨_, rfl, rfl, fun h => ?_⟩
  obtain ⟨hcookies, -⟩ := h.cookie "id" "MQ==" (by decide) rfl
  cases hcookies

end AghSync
