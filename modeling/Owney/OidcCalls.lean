import Owney.ChallengeStore
import Owney.Lib.Programs
import Owney.OAuthStore

/-!
# The calls of the OIDC provider

What the endpoints of `oidc/` share: the challenge store, where parked requests,
ceremonies, login markers, enrolments and authorization codes live side by side as bytes,
and the database. `OidcOp` are their calls on the two, `OidcOp.exec` says what a call does.
Everything random is drawn by the call that uses it and was never drawn before.
-/

namespace Owney

open ChallengeStore Programs

/-! ## What is parked -/

/-- `AuthRequest`: a validated `/authorize` request. -/
structure AuthRequest where
  clientId : String
  redirectUri : String
  scopes : List String
  state : Option String
  nonce : Option String
  codeChallenge : String
  deriving DecidableEq, Repr

/-- `CodeGrant`: the payload an authorization code stands for. -/
structure CodeGrant where
  accountId : String
  clientId : String
  redirectUri : String
  codeChallenge : String
  nonce : Option String
  scopes : List String
  deriving DecidableEq, Repr

/-- `PasskeyAuthentication` of webauthn-rs: the passkeys an assertion may come from, and
the challenge. -/
structure PasskeyAuthentication where
  passkeys : List Passkey
  challenge : Uuid
  deriving DecidableEq, Repr

/-- `LoginCeremony`: the state between login start and finish. -/
structure LoginCeremony where
  reqId : String
  accountId : String
  auth : PasskeyAuthentication
  deriving DecidableEq, Repr

/-- `EnrollState`: the state between enrolment start and finish. -/
structure EnrollState where
  accountId : String
  challenge : Uuid
  deriving DecidableEq, Repr

/-- The bytes in the store: the JSON of a structure, or an account id as it is. -/
inductive Parked where
  | authRequest (request : AuthRequest)
  | loginCeremony (ceremony : LoginCeremony)
  | accountText (text : String)
  | codeGrant (grant : CodeGrant)
  | enrollState (state : EnrollState)
  deriving DecidableEq, Repr

namespace Parked

/-- `serde_json::from_slice::<AuthRequest>`. Unknown fields are ignored and a missing
`Option` is `None`, so the JSON of a `CodeGrant` is read as well. -/
def asAuthRequest : Parked → Option AuthRequest
  | authRequest r => some r
  | codeGrant g => some ⟨g.clientId, g.redirectUri, g.scopes, none, g.nonce, g.codeChallenge⟩
  | _ => none

/-- `serde_json::from_slice::<CodeGrant>`. -/
def asCodeGrant : Parked → Option CodeGrant
  | codeGrant g => some g
  | _ => none

/-- `serde_json::from_slice::<LoginCeremony>`. -/
def asLoginCeremony : Parked → Option LoginCeremony
  | loginCeremony c => some c
  | _ => none

/-- `serde_json::from_slice::<EnrollState>`. -/
def asEnrollState : Parked → Option EnrollState
  | enrollState e => some e
  | _ => none

/-- The account `String::from_utf8` and `AccountId::from_str` make of the bytes, with its
text; the JSON of a structure is no account id. -/
def asAccount : Parked → Option (String × AccountId)
  | accountText s => (AccountId.fromStr s).map fun a => (s, a)
  | _ => none

/-! Each kind is read from its own bytes only, but for the codes that are read as requests. -/

variable {p : Parked}

theorem asAuthRequest_eq_some {r : AuthRequest} (h : p.asAuthRequest = some r) :
    p = authRequest r ∨ ∃ g, p = codeGrant g := by
  cases p with
  | authRequest r' => exact .inl (congrArg authRequest (Option.some.inj h))
  | codeGrant g => exact .inr ⟨g, rfl⟩
  | _ => cases h

theorem asCodeGrant_eq_some {g : CodeGrant} : p.asCodeGrant = some g ↔ p = codeGrant g := by
  cases p <;> simp [asCodeGrant]

theorem asLoginCeremony_eq_some {c : LoginCeremony} :
    p.asLoginCeremony = some c ↔ p = loginCeremony c := by
  cases p <;> simp [asLoginCeremony]

theorem asAccount_eq_some {text : String} {a : AccountId} :
    p.asAccount = some (text, a) ↔ p = accountText text ∧ AccountId.fromStr text = some a := by
  cases p <;> simp [asAccount]
  grind

end Parked

/-! ## The world -/

/-- `PublicKeyCredential`: an assertion, as far as webauthn-rs reads it. -/
structure PublicKeyCredential where
  rawId : CredentialId
  counter : ℕ
  challenge : Uuid
  signature : List UInt8
  deriving DecidableEq, Repr

/-- `AuthenticationResult`. -/
structure AuthenticationResult where
  credId : CredentialId
  counter : ℕ
  deriving DecidableEq, Repr

/-- `RegisterPublicKeyCredential`: the answer to a registration challenge. -/
structure RegisterPublicKeyCredential where
  passkey : Passkey
  challenge : Uuid
  attestation : List UInt8
  deriving DecidableEq, Repr

/-- `IdTokenClaims`. -/
structure IdTokenClaims where
  iss : String
  sub : String
  aud : String
  exp : ℤ
  iat : ℤ
  authTime : Option ℤ
  nonce : Option String
  email : Option String
  emailVerified : Option Bool
  name : Option String
  deriving DecidableEq, Repr

/-- The code the provider is built on, and its configuration. -/
structure Oidc where
  /-- the hexadecimal BLAKE3 hash -/
  blake3 : String → String
  /-- base64url of SHA-256 -/
  sha256 : String → String
  /-- `str::trim` and `str::to_lowercase` -/
  unicode : Unicode
  /-- `finish_passkey_authentication` -/
  finishAuthentication : PublicKeyCredential → PasskeyAuthentication → Option AuthenticationResult
  /-- `finish_passkey_registration` -/
  finishRegistration : RegisterPublicKeyCredential → Uuid → Option Passkey
  /-- `OidcSigningKey::sign` -/
  sign : IdTokenClaims → String
  issuer : String
  accessTokenTtlSecs : ℤ
  idTokenTtlSecs : ℤ
  refreshTokenTtlSecs : ℤ

/-- The challenge store, the database and the clock, in nanoseconds; `drawn` are the
random texts drawn so far, for a token its hash. -/
structure OidcWorld where
  now : ℤ
  challenges : ChallengeStore Parked
  db : OAuthDb
  drawn : List String
  deriving DecidableEq, Repr

/-- The first state: no rows, nothing parked, nothing drawn. -/
def OidcWorld.empty : OidcWorld := ⟨0, [], OAuthDb.empty, []⟩

/-- What the outside decides about one call: which statements SQLite fails, the random
draws, and whether cryptography that can fail does. -/
structure Choice where
  io : Io := Io.ok
  uuid : Uuid := 0
  secret : BitVec 256 := 0
  ok : Bool := true

namespace OidcWorld

/-- `unix_now` and `Utc::now().timestamp()`. -/
def unix (w : OidcWorld) : ℤ := w.now / 10 ^ 9

/-- One storage call. -/
def call {α : Type} (w : OidcWorld) (body : Tx OAuthDb α) : Except StorageError α × OidcWorld :=
  ((transaction body w.db).1, { w with db := (transaction body w.db).2 })

/-- Draw a text that was not drawn before. -/
def draw (w : OidcWorld) (text : String) : Option OidcWorld :=
  if text ∈ w.drawn then none else some { w with drawn := text :: w.drawn }

end OidcWorld

/-! ## The calls -/

/-- A call of an endpoint. -/
inductive OidcOp where
  | storeWithTtl (data : Parked) (ttl : ℤ)
  /-- `mint_code`: draw a code and store the grant under it -/
  | mintCode (grant : CodeGrant)
  | peek (id : String)
  | retrieve (id : String)
  | cleanupExpired
  | oauthClient (id : OAuthClientId)
  | verifySecret (id : OAuthClientId) (secret : String)
  | account (id : AccountId)
  | accountByEmail (email : String)
  | listPasskeys (accountId : String)
  | getPasskey (id : CredentialId)
  | updateCounter (id : CredentialId) (counter : ℕ)
  | savePasskey (row : PasskeyCredential)
  | oauthGrant (accountId : AccountId) (clientId : OAuthClientId)
  | upsertGrant (accountId : AccountId) (clientId : OAuthClientId) (scopes : List String)
  | createScopedToken (accountId : AccountId) (name : String) (scopes : List String)
      (expiresAt : ℤ) (clientId : OAuthClientId)
  /-- `create_refresh_token` with `family_id: None` -/
  | createRefreshToken (accountId : AccountId) (clientId : OAuthClientId) (scopes : List String)
      (accessTokenHash : Option String) (expiresAt : ℤ)
  | refreshByHash (hash : String)
  | rotate (oldHash : String) (accessTokenHash : Option String) (expiresAt : ℤ)
  | revokeFamily (familyId : String)
  | revokeByHash (hash : String)
  | accountByHash (hash : String)
  | accessByHash (hash : String)
  /-- `Utc::now().timestamp()` -/
  | timestamp
  /-- `start_passkey_authentication` -/
  | startAuthentication (passkeys : List Passkey)
  /-- `finish_passkey_authentication` -/
  | finishAuthentication (response : PublicKeyCredential) (state : PasskeyAuthentication)
  | startRegistration
  | sign (claims : IdTokenClaims)
  | createClient (row : OAuthClientsRow)
  | disableClient (id : OAuthClientId)
  | revokeGrant (accountId : AccountId) (clientId : OAuthClientId)
  | createToken (accountId : AccountId) (name : String)
  | disablePasskey (id : CredentialId)
  | setAccounts (accounts : List LoginAccount)
  | tick (now : ℤ)

/-- What a call returns. -/
@[reducible] def OidcOp.Ret : OidcOp → Type
  | storeWithTtl .. | mintCode _ => String
  | peek _ => Option Parked
  | retrieve _ => Except String Parked
  | cleanupExpired | tick _ => Unit
  | oauthClient _ => Except StorageError (Option OAuthClient)
  | verifySecret .. => Except StorageError Bool
  | account _ | accountByEmail _ | accountByHash _ => Except StorageError (Option AccountsRow)
  | listPasskeys _ => Except StorageError (List PasskeyCredential)
  | getPasskey _ => Except StorageError (Option PasskeyCredential)
  | oauthGrant .. => Except StorageError (Option OAuthGrant)
  | createScopedToken .. => Except StorageError (String × String)
  | createRefreshToken .. | rotate .. | createToken .. => Except StorageError String
  | refreshByHash _ => Except StorageError (Option RefreshTokenRow)
  | accessByHash _ => Except StorageError (Option (AccountsRow × TokenAccess))
  | updateCounter .. | savePasskey _ | upsertGrant .. | revokeFamily _ | revokeByHash _
  | createClient _ | disableClient _ | revokeGrant .. | disablePasskey _ | setAccounts _ =>
    Except StorageError Unit
  | timestamp => ℤ
  | startAuthentication _ => Option PasskeyAuthentication
  | finishAuthentication .. => Option AuthenticationResult
  | startRegistration => Uuid
  | sign _ => Option String

/-- `CODE_PREFIX`. -/
def codePrefix : String := "moc_"

/-- `TOKEN_PREFIX`. -/
def tokenPrefix : String := "msk_"

/-- `REFRESH_PREFIX`. -/
def refreshPrefix : String := "mrt_"

/-- `str::starts_with`. -/
def hasPrefix (pre s : String) : Bool := pre.toList.isPrefixOf s.toList

/-- 32 random bytes in hexadecimal after a prefix. -/
def secretText (pre : String) (secret : BitVec 256) : String :=
  pre ++ String.ofList (hexDigits 64 secret.toNat)

/-- `CODE_TTL`. -/
def codeTtl : ℤ := 60 * 10 ^ 9

/-- `AUTH_REQUEST_TTL`. -/
def authRequestTtl : ℤ := 600 * 10 ^ 9

/-- `AUTHOK_TTL`. -/
def authokTtl : ℤ := 300 * 10 ^ 9

/-- The TTL of an enrolment. -/
def enrollTtl : ℤ := 300 * 10 ^ 9

variable (P : Oidc)

/-- A call that stores a row under the hash of a new secret, and returns the secret. -/
def OidcWorld.mint (w : OidcWorld) (pre : String) (c : Choice) (body : String → Tx OAuthDb Unit) :
    Option (Except StorageError (String × String) × OidcWorld) :=
  let token := secretText pre c.secret
  let hash := P.blake3 token
  (w.draw hash).map fun w =>
    ((w.call (body hash)).1.map fun _ => (token, hash), (w.call (body hash)).2)

/-- What a call does; `none` if the draw is not new. -/
def OidcOp.exec : (o : OidcOp) → Choice → OidcWorld → Option (o.Ret × OidcWorld)
  | storeWithTtl data ttl, c, w => (w.draw c.uuid.toString).map fun w =>
    (c.uuid.toString,
      { w with challenges := w.challenges.storeKeyed w.now c.uuid.toString data ttl })
  | mintCode grant, c, w => (w.draw (secretText codePrefix c.secret)).map fun w =>
    let code := secretText codePrefix c.secret
    (code,
      { w with challenges := w.challenges.storeKeyed w.now code (.codeGrant grant) codeTtl })
  | peek id, _, w =>
    some ((w.challenges.peek w.now id).1,
      { w with challenges := (w.challenges.peek w.now id).2 })
  | retrieve id, _, w =>
    some ((w.challenges.retrieveChallenge w.now id).1,
      { w with challenges := (w.challenges.retrieveChallenge w.now id).2 })
  | cleanupExpired, _, w => some ((), { w with challenges := w.challenges.cleanupExpired w.now })
  | oauthClient id, c, w => some (w.call (oauthClientTx c.io id))
  | verifySecret id secret, c, w =>
    some (w.call (verifyOAuthClientSecretTx c.io id (P.blake3 secret)))
  | account id, c, w => some (w.call (accountTx c.io id))
  | accountByEmail email, c, w =>
    some (w.call (accountByEmailTx c.io (P.unicode.toLowercase (P.unicode.trim email))))
  | listPasskeys accountId, c, w => some (w.call (listPasskeysForAccountTx c.io accountId))
  | getPasskey id, c, w => some (w.call (getPasskeyCredentialTx c.io id))
  | updateCounter id counter, c, w => some (w.call (updatePasskeyCounterTx c.io id counter))
  | savePasskey row, c, w => some (w.call (savePasskeyCredentialTx c.io row))
  | oauthGrant accountId clientId, c, w => some (w.call (oauthGrantTx c.io accountId clientId))
  | upsertGrant accountId clientId scopes, c, w =>
    some (w.call (upsertOAuthGrantTx c.io accountId clientId scopes w.unix))
  | createScopedToken accountId name scopes expiresAt clientId, c, w =>
    w.mint P tokenPrefix c fun hash => createTokenTx c.io
      ⟨hash, accountId, name, w.unix, some expiresAt, some (joinWith " " scopes), some clientId⟩
  | createRefreshToken accountId clientId scopes accessTokenHash expiresAt, c, w =>
    ((w.draw c.uuid.toString).bind fun w => w.mint P refreshPrefix c fun hash =>
      createRefreshTokenTx c.io ⟨hash, c.uuid.toString, accountId, clientId, joinWith " " scopes,
        accessTokenHash, expiresAt, none, none, w.unix⟩).map fun x => (x.1.map (·.1), x.2)
  | refreshByHash hash, c, w => some (w.call (refreshTokenByHashTx c.io hash))
  | rotate oldHash accessTokenHash expiresAt, c, w =>
    (w.mint P refreshPrefix c fun hash =>
      rotateRefreshTokenTx c.io oldHash hash accessTokenHash expiresAt w.unix).map fun x =>
        (x.1.map (·.1), x.2)
  | revokeFamily familyId, c, w => some (w.call (revokeRefreshFamilyTx c.io familyId w.unix))
  | revokeByHash hash, c, w => some (w.call (revokeTokenByHashTx c.io hash))
  | accountByHash hash, c, w => some (w.call (accountByTokenTx c.io hash w.unix))
  | accessByHash hash, c, w => some (w.call (accountAndAccessByTokenTx c.io hash w.unix))
  | timestamp, _, w => some (w.unix, w)
  | startAuthentication passkeys, c, w =>
    some (if passkeys = [] ∨ c.ok = false then none else some ⟨passkeys, c.uuid⟩, w)
  | finishAuthentication response state, _, w => some (P.finishAuthentication response state, w)
  | startRegistration, c, w => some (c.uuid, w)
  | sign claims, c, w => some (if c.ok then some (P.sign claims) else none, w)
  | createClient row, c, w => some (w.call (createOAuthClientTx c.io row))
  | disableClient id, c, w => some (w.call (disableOAuthClientTx c.io id w.unix))
  | revokeGrant accountId clientId, c, w =>
    some (w.call (revokeOAuthGrantTx c.io accountId clientId w.unix))
  | createToken accountId name, c, w =>
    (w.mint P tokenPrefix c fun hash => createTokenTx c.io
      ⟨hash, accountId, name, w.unix, none, none, none⟩).map fun x => (x.1.map (·.1), x.2)
  | disablePasskey id, c, w => some (w.call (disablePasskeyTx c.io id))
  | setAccounts accounts, c, w => some (w.call (setAccountsTx c.io accounts))
  | tick now, _, w => some ((), { w with now := now })

end Owney
