import Mathlib.Data.List.Basic

/-!
# URLs

The packages `path` and `net/url`, on strings of bytes. `URL.parse` splits a text into the parts
of a URL and decodes them, `URL.string` puts the parts together again. A path is kept decoded,
and with its encoding where that is not the default one. `Path.clean` takes a path to the
shortest one that names the same place.
-/

namespace Net

/-- A string. -/
abbrev Bytes := List UInt8

/-- The bytes of a text. -/
def bytes (s : String) : Bytes :=
  s.toUTF8.data.toList

/-- The byte of an ASCII character. -/
abbrev byte (c : Char) : UInt8 :=
  c.toUInt8

/-- The byte is one of the characters. -/
def isOneOf (c : UInt8) (s : String) : Bool :=
  s.toList.any fun d => c = byte d

def isDigit (c : UInt8) : Bool :=
  byte '0' ≤ c && c ≤ byte '9'

def isAlpha (c : UInt8) : Bool :=
  (byte 'a' ≤ c && c ≤ byte 'z') || (byte 'A' ≤ c && c ≤ byte 'Z')

/-- `strings.Cut` : what is before and after the first separator. -/
def cut (s : Bytes) (sep : Char) : Bytes × Bytes :=
  (s.takeWhile (· ≠ byte sep), (s.dropWhile (· ≠ byte sep)).drop 1)

/-- What is before and after the last separator, as by `strings.LastIndex`. -/
def cutLast (s : Bytes) (sep : Char) : Option (Bytes × Bytes) :=
  if byte sep ∈ s then
    let (after, before) := cut s.reverse sep
    some (before.reverse, after.reverse)
  else none

/-! ## Paths -/

namespace Path

/-- One element of a path, after the elements that are kept, the last of them first. -/
def cleanStep (rooted : Bool) (kept : List Bytes) (elem : Bytes) : List Bytes :=
  if elem = [] ∨ elem = bytes "." then kept
  else if elem = bytes ".." then
    match kept with
    | [] => if rooted then [] else [elem]
    | last :: rest => if last = bytes ".." then elem :: kept else rest
  else elem :: kept

/-- `path.Clean`. -/
def clean (p : Bytes) : Bytes :=
  let rooted := p.head? = some (byte '/')
  let kept := (p.splitOn (byte '/')).foldl (cleanStep rooted) []
  let body := (bytes "/").intercalate kept.reverse
  if rooted then byte '/' :: body else if body = [] then bytes "." else body

end Path

/-! ## Escapes -/

/-- `encoding` : where in a URL a string stands. -/
inductive Mode
  | path
  | userPassword
  | host
  | zone
  | fragment
  deriving DecidableEq

/-- `shouldEscape`. -/
def shouldEscape (c : UInt8) (mode : Mode) : Bool :=
  if isAlpha c || isDigit c then false
  else if (mode = .host ∨ mode = .zone) ∧ isOneOf c "!$&'()*+,;=:[]<>\"" then false
  else if isOneOf c "-_.~" then false
  else if isOneOf c "$&+,/:;=?@" ∧ mode = .path then c = byte '?'
  else if isOneOf c "$&+,/:;=?@" ∧ mode = .userPassword then isOneOf c "@/?:"
  else if isOneOf c "$&+,/:;=?@" ∧ mode = .fragment then false
  else if mode = .fragment ∧ isOneOf c "!()*" then false
  else true

def hexDigit (n : UInt8) : UInt8 :=
  if n < 10 then byte '0' + n else byte 'A' + (n - 10)

/-- `unhex`, of a hexadecimal digit. -/
def unhex (c : UInt8) : Option UInt8 :=
  if isDigit c then some (c - byte '0')
  else if byte 'a' ≤ c ∧ c ≤ byte 'f' then some (c - byte 'a' + 10)
  else if byte 'A' ≤ c ∧ c ≤ byte 'F' then some (c - byte 'A' + 10)
  else none

/-- `escape`. -/
def escape (s : Bytes) (mode : Mode) : Bytes :=
  s.flatMap fun c =>
    if shouldEscape c mode then [byte '%', hexDigit (c / 16), hexDigit (c % 16)] else [c]

/-- What is wrong with a text that is no URL. -/
inductive ParseErr
  | control
  | missingScheme
  | colonInFirstSegment
  | userinfo
  | missingBracket
  | port (s : Bytes)
  | escape (s : Bytes)
  | hostCharacter (c : UInt8)
  deriving DecidableEq

/-- The escape `%` `h` `l` of the byte `v` may stand in the part of the URL. -/
def allowsEscape (mode : Mode) (h l v : UInt8) : Bool :=
  match mode with
  | .host => 128 ≤ v || [byte '%', h, l] = bytes "%25"
  | .zone => [byte '%', h, l] = bytes "%25" || v = byte ' ' || !shouldEscape v .host
  | _ => true

/-- `unescape`. -/
def unescape (mode : Mode) : Bytes → Except ParseErr Bytes
  | [] => .ok []
  | c :: s =>
    if c = byte '%' then
      match s with
      | h :: l :: s =>
        match unhex h, unhex l with
        | some h', some l' =>
          let v := h' * 16 + l'
          if allowsEscape mode h l v then (v :: ·) <$> unescape mode s
          else .error (.escape [c, h, l])
        | _, _ => .error (.escape [c, h, l])
      | s => .error (.escape (c :: s))
    else if (mode = .host ∨ mode = .zone) ∧ c < 128 ∧ shouldEscape c mode then
      .error (.hostCharacter c)
    else (c :: ·) <$> unescape mode s

/-- `validEncoded`. -/
def validEncoded (s : Bytes) (mode : Mode) : Bool :=
  s.all fun c => isOneOf c "!$&'()*+,;=:@[]%" || !shouldEscape c mode

/-! ## URLs -/

/-- `Userinfo`. -/
structure Userinfo where
  username : Bytes
  password : Option Bytes := none
  deriving DecidableEq

/-- `URL`. -/
structure URL where
  scheme : Bytes := []
  opaquePart : Bytes := []
  user : Option Userinfo := none
  host : Bytes := []
  path : Bytes := []
  rawPath : Bytes := []
  omitHost : Bool := false
  forceQuery : Bool := false
  rawQuery : Bytes := []
  fragment : Bytes := []
  rawFragment : Bytes := []
  deriving DecidableEq

namespace URL

/-- The loop of `getScheme`, after the bytes `seen`. -/
def getScheme.loop (rawURL : Bytes) : Bytes → Bytes → Except ParseErr (Bytes × Bytes)
  | _, [] => .ok ([], rawURL)
  | seen, c :: s =>
    if isAlpha c then loop rawURL (seen ++ [c]) s
    else if isDigit c || isOneOf c "+-." then
      if seen = [] then .ok ([], rawURL) else loop rawURL (seen ++ [c]) s
    else if c = byte ':' then if seen = [] then .error .missingScheme else .ok (seen, s)
    else .ok ([], rawURL)

/-- `getScheme` : the scheme and the rest. -/
def getScheme (rawURL : Bytes) : Except ParseErr (Bytes × Bytes) :=
  getScheme.loop rawURL [] rawURL

/-- `strings.ToLower`, of a scheme. -/
def toLower (s : Bytes) : Bytes :=
  s.map fun c => if byte 'A' ≤ c ∧ c ≤ byte 'Z' then c + 32 else c

/-- `validOptionalPort`. -/
def validOptionalPort : Bytes → Bool
  | [] => true
  | c :: s => c = byte ':' && s.all isDigit

/-- `validUserinfo`. -/
def validUserinfo (s : Bytes) : Bool :=
  s.all fun c => isAlpha c || isDigit c || isOneOf c "-._:~!$&'()*+,;=%@"

/-- The zone of an address : what is before and after the first `%25`. -/
def cutZone : Bytes → Option (Bytes × Bytes)
  | [] => none
  | c :: s =>
    if (bytes "%25").isPrefixOf (c :: s) then some ([], c :: s)
    else (cutZone s).map fun (before, zone) => (c :: before, zone)

/-- `parseHost`. -/
def parseHost (host : Bytes) : Except ParseErr Bytes :=
  if host.head? = some (byte '[') then
    match cutLast host ']' with
    | none => .error .missingBracket
    | some (address, colonPort) =>
      if !validOptionalPort colonPort then .error (.port colonPort)
      else
        match cutZone address with
        | some (before, zone) => do
          let host₁ ← unescape .host before
          let host₂ ← unescape .zone zone
          let host₃ ← unescape .host (byte ']' :: colonPort)
          pure (host₁ ++ host₂ ++ host₃)
        | none => unescape .host host
  else
    match cutLast host ':' with
    | some (_, port) =>
      if !validOptionalPort (byte ':' :: port) then .error (.port (byte ':' :: port))
      else unescape .host host
    | none => unescape .host host

/-- `parseAuthority`. -/
def parseAuthority (authority : Bytes) : Except ParseErr (Option Userinfo × Bytes) :=
  match cutLast authority '@' with
  | none => do
    let host ← parseHost authority
    pure (none, host)
  | some (userinfo, host) => do
    let host ← parseHost host
    if !validUserinfo userinfo then throw .userinfo
    else if byte ':' ∈ userinfo then
      let username ← unescape .userPassword (cut userinfo ':').1
      let password ← unescape .userPassword (cut userinfo ':').2
      pure (some { username := username, password := some password }, host)
    else
      let username ← unescape .userPassword userinfo
      pure (some { username := username }, host)

/-- `URL.setPath`. -/
def setPath (u : URL) (p : Bytes) : Except ParseErr URL := do
  let path ← unescape .path p
  pure { u with path := path, rawPath := if escape path .path = p then [] else p }

/-- `URL.setFragment`. -/
def setFragment (u : URL) (f : Bytes) : Except ParseErr URL := do
  let fragment ← unescape .fragment f
  pure { u with
    fragment := fragment
    rawFragment := if escape fragment .fragment = f then [] else f }

/-- The part of `parse` after the scheme and the query, of the rest that is left. -/
def parseRest (u : URL) (rest : Bytes) : Except ParseErr URL :=
  let slashed := rest.head? = some (byte '/')
  if ¬slashed ∧ u.scheme ≠ [] then .ok { u with opaquePart := rest }
  else if ¬slashed ∧ byte ':' ∈ (cut rest '/').1 then .error .colonInFirstSegment
  else if (u.scheme ≠ [] ∨ ¬(bytes "///").isPrefixOf rest) ∧ (bytes "//").isPrefixOf rest then do
    let authority := (rest.drop 2).takeWhile (· ≠ byte '/')
    let (user, host) ← parseAuthority authority
    { u with user := user, host := host }.setPath ((rest.drop 2).drop authority.length)
  else
    let omitHost := u.scheme ≠ [] ∧ slashed
    { u with omitHost := omitHost }.setPath rest

/-- The unexported `parse`, of a text without a fragment. -/
def parseWithoutFragment (rawURL : Bytes) : Except ParseErr URL :=
  if rawURL.any fun c => c < 32 || c = 127 then .error .control
  else if rawURL = bytes "*" then .ok { path := bytes "*" }
  else do
    let (scheme, rest) ← getScheme rawURL
    let scheme := toLower scheme
    if rest.getLast? = some (byte '?') ∧ rest.count (byte '?') = 1 then
      parseRest { scheme := scheme, forceQuery := true } rest.dropLast
    else
      parseRest { scheme := scheme, rawQuery := (cut rest '?').2 } (cut rest '?').1

/-- `Parse`. -/
def parse (rawURL : Bytes) : Except ParseErr URL := do
  let (u, frag) := cut rawURL '#'
  let url ← parseWithoutFragment u
  if frag = [] then pure url else url.setFragment frag

/-- `Userinfo.String`. -/
def userString (u : Userinfo) : Bytes :=
  if u.username ≠ [] ∨ u.password.getD [] ≠ [] then
    escape u.username .userPassword ++
      match u.password with
      | some password => byte ':' :: escape password .userPassword
      | none => []
  else []

/-- The encoding `raw` that was read, if it still is one of `s`, and else the default one. -/
def escaped (s raw : Bytes) (mode : Mode) : Bytes :=
  if raw ≠ [] ∧ validEncoded raw mode ∧ unescape mode raw = .ok s then raw
  else if mode = .path ∧ s = bytes "*" then bytes "*"
  else escape s mode

/-- The authority with the slashes before it, as `String` writes it. -/
def authority (u : URL) : Bytes :=
  if u.scheme = [] ∧ u.host = [] ∧ u.user = none then []
  else if u.omitHost ∧ u.host = [] ∧ u.user = none then []
  else
    (if u.host ≠ [] ∨ u.path ≠ [] ∨ u.user ≠ none then bytes "//" else []) ++
    (match u.user with
      | some user => userString user ++ bytes "@"
      | none => []) ++
    escape u.host .host

/-- `URL.String`. -/
def string (u : URL) : Bytes :=
  let start := if u.scheme = [] then [] else u.scheme ++ bytes ":"
  let body :=
    if u.opaquePart ≠ [] then u.opaquePart
    else
      let path := escaped u.path u.rawPath .path
      let slash :=
        if path ≠ [] ∧ path.head? ≠ some (byte '/') ∧ u.host ≠ [] then bytes "/" else []
      let before := u.authority ++ slash
      let dot :=
        if start ++ before = [] ∧ byte ':' ∈ (cut path '/').1 then bytes "./" else []
      before ++ dot ++ path
  let query := if u.forceQuery ∨ u.rawQuery ≠ [] then byte '?' :: u.rawQuery else []
  let fragment :=
    if u.fragment ≠ [] then byte '#' :: escaped u.fragment u.rawFragment .fragment else []
  start ++ body ++ query ++ fragment

end URL

end Net
