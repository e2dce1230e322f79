import Mathlib.Data.Prod.Lex
import Mathlib.Data.String.Basic
import Owney.Ids
import Owney.Lib.Tables

/-!
# Signed federation requests

A federation request is signed as one text: method, path and query, both servers, time,
nonce and the hash of the body, each on a line (`fed_sig.rs`). The client takes path and
query from the URL it is given, the server from the request target it receives, and both
decode the query, sort its pairs and join them again.
-/

namespace Owney

open Tables

/-! ## Code that is used -/

/-- `url::Url`, as far as it is read. -/
structure Url where
  scheme : String
  username : String
  password : Option String
  host : Option String
  path : String
  query : Option String
  deriving DecidableEq, Repr

/-- The scheme is `http` or `https`. -/
def Url.Web (u : Url) : Prop := u.scheme = "http" ∨ u.scheme = "https"

/-- Path and query as they stand in the URL. -/
def Url.target (u : Url) : String := u.path ++ (u.query.elim "" ("?" ++ ·))

/-- The crates the federation is built on, for certificates of type `Cert`. -/
structure FedCrates (Cert : Type) where
  /-- `url::Url::parse` -/
  parseUrl : String → Option Url
  /-- `form_urlencoded::parse` -/
  queryPairs : String → List (String × String)
  /-- `str::trim` and `str::to_lowercase` -/
  unicode : Unicode
  toUppercase : String → String
  /-- base64 with the standard alphabet -/
  b64Encode : List UInt8 → String
  b64Decode : String → Option (List UInt8)
  blake3 : List UInt8 → List UInt8
  /-- `Cert::from_bytes`, of a certificate in ASCII armor or in binary -/
  certFromBytes : List UInt8 → Except String Cert
  /-- `fingerprint().to_hex()` -/
  fingerprint : Cert → String
  /-- `strip_secret_key_material().to_vec()` -/
  stripped : Cert → Except String (List UInt8)
  verifyDetached : Cert → String → List UInt8 → Option Bool

/-- Methods that a federation route takes. -/
inductive Method where
  | get
  | head
  | post
  deriving DecidableEq, Repr

/-- `Method::as_str`. -/
def Method.asStr : Method → String
  | get => "GET"
  | head => "HEAD"
  | post => "POST"

/-! ## The text that is signed -/

/-- `SIG_VERSION`. -/
def sigVersion : String := "1"

section Texts

variable {Cert : Type} (P : FedCrates Cert)

/-- `query_pairs`. -/
def Url.pairs (u : Url) : List (String × String) := P.queryPairs (u.query.getD "")

/-- `pairs.sort()`. -/
def sortedPairs (pairs : List (String × String)) : List (String × String) :=
  orderBy (fun p => toLex p) pairs

/-- The pairs as `k=v`, joined with `&`. -/
def queryText (pairs : List (String × String)) : String :=
  joinWith "&" (pairs.map fun p => p.1 ++ "=" ++ p.2)

/-- `canonical_path`. -/
def canonicalPath (url : Url) : String :=
  let pairs := sortedPairs (url.pairs P)
  if pairs.isEmpty then url.path else url.path ++ "?" ++ queryText pairs

/-- `canonical_path_str`. -/
def canonicalPathStr (pathAndQuery : String) : String :=
  match P.parseUrl ("http://placeholder" ++ pathAndQuery) with
  | some url => canonicalPath P url
  | none => pathAndQuery

/-- `canonical_string`. -/
def canonicalString (method pathAndQuery senderDomain receiverHost : String) (timestamp : ℤ)
    (nonce : String) (body : List UInt8) : String :=
  joinWith "\n" ["owney-fed-v" ++ sigVersion, P.toUppercase method, pathAndQuery, senderDomain,
    receiverHost, timestamp.repr, nonce, P.b64Encode (P.blake3 body)]

end Texts

/-! ## The client -/

/-- `FederationClient`, without its certificate. -/
structure FederationClient where
  ourDomain : String
  allowPrivateIps : Bool
  urlOverrides : List (String × String)
  deriving DecidableEq, Repr

/-- What a client signs, and where it sends it. -/
structure Outgoing where
  pathAndQuery : String
  canonical : String
  target : Url
  deriving DecidableEq, Repr

/-- `trim_end_matches('/')`. -/
def trimEndSlash (s : String) : String := String.ofList (s.toList.rdropWhile (· = '/'))

namespace FederationClient

variable {Cert : Type} (P : FedCrates Cert) (c : FederationClient)

/-- The override for the host of a URL. -/
def override (u : Url) : Option String :=
  c.urlOverrides.lookup (P.unicode.toLowercase (u.host.getD ""))

/-- `override_target`. -/
def overrideTarget (u : Url) : Option Url :=
  match c.override P u with
  | some base => P.parseUrl (trimEndSlash base ++ u.target)
  | none => some u

/-- `guard_url`; `isPublic` is what DNS and `is_private` say of the host. -/
def guardUrl (isPublic : Bool) (u : Url) : Bool :=
  (u.scheme = "https" ∨ c.allowPrivateIps ∧ u.scheme = "http") ∧
    u.username = "" ∧ u.password = none ∧ (c.allowPrivateIps ∨ u.host.isSome ∧ isPublic)

/-- `send`, up to the signature; there is no `HEAD` request. -/
def send (method : Method) (url receiverHost : String) (body : List UInt8) (timestamp : ℤ)
    (nonce : String) (isPublic : Bool) : Option Outgoing := do
  let parsed ← P.parseUrl url
  let pathAndQuery := canonicalPath P parsed
  let target ← c.overrideTarget P parsed
  if c.guardUrl isPublic target ∧ method ≠ .head then
    some ⟨pathAndQuery, canonicalString P method.asStr pathAndQuery c.ourDomain receiverHost
      timestamp nonce body, target⟩
  else none

end FederationClient

/-! ## What the crates promise -/

section Laws

variable {Cert : Type}

/-- A scheme and an authority, and nothing after it. -/
def FedCrates.Origin (P : FedCrates Cert) (base : String) : Prop :=
  (P.parseUrl base).isSome ∧ ∃ scheme authority, base = scheme ++ "://" ++ authority ∧
    (scheme = "http" ∨ scheme = "https") ∧
    ∀ c ∈ authority.toList, c.isAlphanum ∨ c = '.' ∨ c = '-' ∨ c = ':'

/-- What is documented of URLs. -/
structure FedCrates.UrlLaws (P : FedCrates Cert) : Prop where
  /-- the query starts at the first `?` -/
  path : ∀ {s u}, P.parseUrl s = some u → u.Web → '?' ∉ u.path.toList
  /-- a URL starts with its scheme -/
  scheme : ∀ {t u}, P.parseUrl ("http://placeholder" ++ t) = some u → u.Web
  placeholder : (P.parseUrl "http://placeholder").isSome
  /-- what was written out is not encoded again, under any origin -/
  origin : ∀ {s u base}, P.parseUrl s = some u → u.Web → P.Origin base →
    ∃ v, P.parseUrl (base ++ u.target) = some v ∧ v.path = u.path ∧ v.query = u.query
  /-- `query_pairs_mut().clear().extend_pairs(pairs)` -/
  withPairs : ∀ {s u}, P.parseUrl s = some u → u.Web → ∀ pairs, ∃ s' v,
    P.parseUrl s' = some v ∧ v.Web ∧ v.path = u.path ∧ v.pairs P = pairs

/-- What is documented of the texts in a canonical string. -/
structure FedCrates.TextLaws (P : FedCrates Cert) : Prop where
  upper : ∀ m : Method, P.toUppercase m.asStr = m.asStr
  b64_line : ∀ bytes, '\n' ∉ (P.b64Encode bytes).toList
  b64_injective : Function.Injective P.b64Encode

end Laws

/-! ## Requests -/

/-- A text without line breaks: what `HeaderValue::to_str` lets through, and a host. -/
structure Line where
  text : String
  line : '\n' ∉ text.toList
  deriving DecidableEq

/-- A signed request as the server receives it: `target` is the request target, `url` what
`canonical_path_str` makes of it. -/
structure SignedRequest {Cert : Type} (P : FedCrates Cert) where
  method : Method
  target : String
  sender : Line
  host : Line
  timestamp : ℤ
  nonce : Line
  body : List UInt8
  url : Url
  parsed : P.parseUrl ("http://placeholder" ++ target) = some url

section Requests

variable {Cert : Type} {P : FedCrates Cert}

/-- The text that is verified. -/
def SignedRequest.canonical (r : SignedRequest P) : String :=
  canonicalString P r.method.asStr (canonicalPathStr P r.target) r.sender.text r.host.text
    r.timestamp r.nonce.text r.body

/-- The decoded query. -/
def SignedRequest.pairs (r : SignedRequest P) : List (String × String) := r.url.pairs P

/-- Two requests that say the same. -/
structure SameRequest (r r' : SignedRequest P) : Prop where
  method : r.method = r'.method
  path : r.url.path = r'.url.path
  pairs : r.pairs.Perm r'.pairs
  sender : r.sender = r'.sender
  host : r.host = r'.host
  timestamp : r.timestamp = r'.timestamp
  nonce : r.nonce = r'.nonce
  body : P.blake3 r.body = P.blake3 r'.body

/-- At most one `=` in the decoded query: no pair, or one with no `=` in key and value. -/
def OneEquals (pairs : List (String × String)) : Prop :=
  pairs = [] ∨ ∃ k v, pairs = [(k, v)] ∧ '=' ∉ k.toList ∧ '=' ∉ v.toList

/-- No `=` and no `&` that could be taken for a separator. -/
def Separated (pairs : List (String × String)) : Prop :=
  ∀ p ∈ pairs, '=' ∉ p.1.toList ∧ '&' ∉ p.1.toList ∧ '&' ∉ p.2.toList

end Requests

end Owney
