import Owney.OidcCalls

/-!
# The endpoints of the OIDC provider

The handlers of `authorize.rs`, `consent.rs`, `token.rs` and `enroll.rs` as programs over
`OidcOp`, line by line, and the calls the administration and the sweeper make next to
them. `Provider` is the pool of all requests ever made: any number of browsers and
clients, each handler interrupted by the others at every call.
-/

namespace Owney

open Programs

/-! ## Requests and answers -/

/-- The query of `GET /oidc/authorize`. -/
structure AuthorizeParams where
  responseType : Option String
  clientId : Option String
  redirectUri : Option String
  scope : Option String
  state : Option String
  nonce : Option String
  codeChallenge : Option String
  codeChallengeMethod : Option String
  deriving DecidableEq, Repr

/-- The form of `POST /oidc/token`; `basic` is what `parse_basic_auth` finds. -/
structure TokenForm where
  grantType : Option String := none
  code : Option String := none
  redirectUri : Option String := none
  codeVerifier : Option String := none
  refreshToken : Option String := none
  scope : Option String := none
  clientId : Option String := none
  clientSecret : Option String := none
  basic : Option (String × String) := none
  deriving DecidableEq, Repr

/-- The form of `POST /oidc/revoke`. -/
structure RevokeForm where
  token : Option String := none
  clientId : Option String := none
  clientSecret : Option String := none
  basic : Option (String × String) := none
  deriving DecidableEq, Repr

/-- The form `revoke` authenticates the client with. -/
def RevokeForm.toTokenForm (form : RevokeForm) : TokenForm where
  clientId := form.clientId
  clientSecret := form.clientSecret
  basic := form.basic

/-- The body of a token response. -/
structure TokenBody where
  accessToken : String
  expiresIn : ℤ
  scope : String
  idToken : Option String
  refreshToken : Option String
  deriving DecidableEq, Repr

/-- What a request is answered. A redirect has the URI and the parameters that
`redirect_with` appends. -/
inductive Response where
  | ok
  | status (code : ℕ)
  | text (code : ℕ) (message : String)
  | errorPage (code : ℕ) (message : String)
  | jsonError (code : ℕ) (message : String)
  | oauthError (error : String)
  | redirect (base : String) (params : List (String × String))
  | jsonRedirect (base : String) (params : List (String × String))
  | loginPage (reqId clientName : String)
  | ceremony (id : String) (options : PasskeyAuthentication)
  | consentPage (clientName : String) (scopes : List String) (req auth : String)
  | tokens (body : TokenBody)
  | userinfo (sub : String) (email : Option String) (name : Option String)
  | enrollOptions (sessionId : String) (challenge : Uuid)
  | enrolled (deviceName : String)
  deriving DecidableEq, Repr

/-- A request, or a call of the administration, the sweeper or the clock. -/
inductive Request where
  | authorize (params : AuthorizeParams)
  | loginStart (req email : String)
  | loginFinish (req ceremony : String) (credential : Option PublicKeyCredential)
  | consentPage (req auth : String)
  | consentSubmit (req auth decision : String)
  | token (form : TokenForm)
  | revoke (form : RevokeForm)
  | userinfo (bearer : Option String)
  | enrollStart (bearer : Option String)
  | enrollFinish (bearer : Option String) (sessionId : String) (deviceName : Option String)
      (credential : Option RegisterPublicKeyCredential)
  | createClient (row : OAuthClientsRow)
  | disableClient (id : OAuthClientId)
  | revokeGrant (accountId : AccountId) (clientId : OAuthClientId)
  | createToken (accountId : AccountId) (name : String)
  | revokeFamily (familyId : String)
  | disablePasskey (id : CredentialId)
  | setAccounts (accounts : List LoginAccount)
  | sweep
  | tick (now : ℤ)
  deriving DecidableEq, Repr

/-! ## Scopes -/

/-- `SCOPE_OPENID`. -/
def scopeOpenid : String := "openid"

/-- `SCOPE_EMAIL`. -/
def scopeEmail : String := "email"

/-- `SCOPE_PROFILE`. -/
def scopeProfile : String := "profile"

/-- `SCOPE_OFFLINE`. -/
def scopeOffline : String := "offline_access"

/-- `SCOPE_MAIL`. -/
def scopeMail : String := "owney:mail"

/-- `SCOPE_MCP`. -/
def scopeMcp : String := "owney:mcp"

/-- `SUPPORTED_SCOPES`. -/
def supportedScopes : List String :=
  [scopeOpenid, scopeEmail, scopeProfile, scopeOffline, scopeMail, scopeMcp]

/-! ## Programs -/

/-- A program of the provider. -/
abbrev Handler (α : Type) : Type := Prog OidcOp.Ret α

/-- One call. -/
def ask (o : OidcOp) : Handler o.Ret := Prog.op o

/-- `error_redirect`. -/
def errorRedirect (redirectUri error : String) (state : Option String) : Response :=
  .redirect redirectUri (("error", error) :: (state.map fun s => ("state", s)).toList)

/-- The parameters of a redirect with a code. -/
def codeParams (code : String) (state : Option String) : List (String × String) :=
  ("code", code) :: (state.map fun s => ("state", s)).toList

/-- The grant that a code for a parked request stands for. -/
def AuthRequest.grant (r : AuthRequest) (accountId : String) : CodeGrant where
  accountId := accountId
  clientId := r.clientId
  redirectUri := r.redirectUri
  codeChallenge := r.codeChallenge
  nonce := r.nonce
  scopes := r.scopes

variable (P : Oidc)

/-! ### `authorize.rs` -/

/-- The checks of `authorize` after the redirect URI, and the request they admit. -/
def AuthorizeParams.validate (params : AuthorizeParams) (clientId : OAuthClientId)
    (redirectUri : String) : Except Response AuthRequest :=
  if params.responseType ≠ some "code" then
    .error (errorRedirect redirectUri "unsupported_response_type" params.state)
  else match params.codeChallenge.filter (· ≠ "") with
    | none => .error (errorRedirect redirectUri "invalid_request" params.state)
    | some codeChallenge =>
      let scopes := splitWhitespace (params.scope.getD "")
      if params.codeChallengeMethod ≠ some "S256" then
        .error (errorRedirect redirectUri "invalid_request" params.state)
      else if scopes = [] ∨ ¬(∀ s ∈ scopes, s ∈ supportedScopes) ∨ scopeOpenid ∉ scopes then
        .error (errorRedirect redirectUri "invalid_scope" params.state)
      else .ok ⟨clientId.text, redirectUri, scopes, params.state, params.nonce, codeChallenge⟩

/-- `GET /oidc/authorize`. -/
def authorize (params : AuthorizeParams) : Handler Response := do
  let some clientIdRaw := params.clientId | return .errorPage 400 "missing client_id"
  let some clientId := OAuthClientId.fromStr clientIdRaw
    | return .errorPage 400 "invalid client_id"
  match ← ask (.oauthClient clientId) with
  | .error _ => return .status 500
  | .ok none => return .errorPage 400 "unknown or disabled client"
  | .ok (some client) =>
    if client.disabled then return .errorPage 400 "unknown or disabled client"
    let some redirectUri := params.redirectUri | return .errorPage 400 "missing redirect_uri"
    if redirectUri ∉ client.redirectUris then
      return .errorPage 400 "redirect_uri not registered for this client"
    match params.validate clientId redirectUri with
    | .error response => return response
    | .ok request =>
      let reqId ← ask (.storeWithTtl (.authRequest request) authRequestTtl)
      return .loginPage reqId client.name

/-- `POST /oidc/authorize/login/start`. -/
def loginStart (req email : String) : Handler Response := do
  if (← ask (.peek req)).isNone then return .jsonError 400 "authorization request expired"
  let email := P.unicode.toLowercase (P.unicode.trim email)
  match ← ask (.accountByEmail email) with
  | .ok (some account) =>
    match ← ask (.listPasskeys account.id.text) with
    | .ok credentials =>
      if credentials = [] then return .jsonError 400 "no passkey for that account"
      let passkeys := (credentials.filter fun c => !c.disabled).map (·.publicKey)
      match ← ask (.startAuthentication passkeys) with
      | none => return .jsonError 400 "no passkey for that account"
      | some auth =>
        let ceremony := ⟨req, account.id.text, auth⟩
        let id ← ask (.storeWithTtl (.loginCeremony ceremony) authRequestTtl)
        return .ceremony id auth
    | .error _ => return .jsonError 400 "no passkey for that account"
  | _ => return .jsonError 400 "no passkey for that account"

/-- `finish_authentication` with the write-back of the counter: the account's credential
that signed, or the answer that refuses it. -/
def finishLogin (response : PublicKeyCredential) (ceremony : LoginCeremony) :
    Handler (Except Response Unit) := do
  match ← ask (.getPasskey response.rawId) with
  | .ok (some stored) =>
    if stored.accountId ≠ ceremony.accountId then
      return .error (.jsonError 403 "credential does not belong to this account")
    if stored.disabled then return .error (.jsonError 401 "assertion verification failed")
    match ← ask (.finishAuthentication response ceremony.auth) with
    | none => return .error (.jsonError 401 "assertion verification failed")
    | some result =>
      if result.credId ≠ stored.publicKey.credId then
        return .error (.jsonError 401 "assertion verification failed")
      match ← ask (.updateCounter response.rawId result.counter) with
      | .error _ => return .error (.status 500)
      | .ok _ => return .ok ()
  | _ => return .error (.jsonError 400 "credential not recognized")

/-- `POST /oidc/authorize/login/finish`. -/
def loginFinish (req ceremonyId : String) (credential : Option PublicKeyCredential) :
    Handler Response := do
  match ← ask (.retrieve ceremonyId) with
  | .error _ => return .jsonError 400 "login session expired"
  | .ok data =>
    let some ceremony := data.asLoginCeremony | return .jsonError 400 "corrupt login session"
    if ceremony.reqId ≠ req then return .jsonError 400 "login session mismatch"
    match ← ask (.peek req) with
    | none => return .jsonError 400 "authorization request expired"
    | some bytes =>
      let some request := bytes.asAuthRequest
        | return .jsonError 400 "corrupt authorization request"
      let some response := credential | return .jsonError 400 "invalid assertion"
      match ← finishLogin response ceremony with
      | .error response => return response
      | .ok _ =>
        let some accountId := AccountId.fromStr ceremony.accountId | return .status 500
        let some clientId := OAuthClientId.fromStr request.clientId | return .status 500
        match ← ask (.oauthGrant accountId clientId) with
        | .error _ => return .status 500
        | .ok grant =>
          if grant.any fun g => request.scopes.all (· ∈ g.scopes) then
            let _ ← ask (.retrieve req)
            let code ← ask (.mintCode (request.grant ceremony.accountId))
            return .jsonRedirect request.redirectUri (codeParams code request.state)
          else
            let authok ← ask (.storeWithTtl (.accountText ceremony.accountId) authokTtl)
            return .jsonRedirect (P.issuer ++ "/oidc/consent") [("req", req), ("auth", authok)]

/-! ### `consent.rs` -/

/-- `parked_request`. -/
def parkedRequest (req : String) : Handler (Option AuthRequest) := do
  return (← ask (.peek req)).bind Parked.asAuthRequest

/-- `GET /oidc/consent`. -/
def consentPage (req auth : String) : Handler Response := do
  if (← ask (.peek auth)).isNone then return .text 400 "login expired; start over"
  let some request ← parkedRequest req | return .text 400 "authorization request expired"
  match OAuthClientId.fromStr request.clientId with
  | some id =>
    match ← ask (.oauthClient id) with
    | .ok (some client) => return .consentPage client.name request.scopes req auth
    | _ => return .consentPage request.clientId request.scopes req auth
  | none => return .consentPage request.clientId request.scopes req auth

/-- `POST /oidc/consent`. -/
def consentSubmit (req auth decision : String) : Handler Response := do
  match ← ask (.retrieve auth) with
  | .error _ => return .text 400 "login expired; start over"
  | .ok data =>
    let some request ← parkedRequest req | return .text 400 "authorization request expired"
    let _ ← ask (.retrieve req)
    if decision ≠ "approve" then
      return errorRedirect request.redirectUri "access_denied" request.state
    match data.asAccount, OAuthClientId.fromStr request.clientId with
    | some (accountText, accountId), some clientId =>
      match ← ask (.upsertGrant accountId clientId request.scopes) with
      | .error _ => return .status 500
      | .ok _ =>
        let code ← ask (.mintCode (request.grant accountText))
        return .redirect request.redirectUri (codeParams code request.state)
    | _, _ => return .status 500

/-! ### `token.rs` -/

/-- The client id and the secret, from the Basic header or the form body. -/
def TokenForm.presented (form : TokenForm) : Option (String × Option String) :=
  match form.basic with
  | some (id, secret) => some (id, some secret)
  | none => form.clientId.map fun id => (id, form.clientSecret)

/-- `authenticate_client`. -/
def authenticateClient (form : TokenForm) : Handler (Except Response OAuthClient) := do
  let some (clientIdRaw, secret) := form.presented
    | return .error (.oauthError "invalid_client")
  let some clientId := OAuthClientId.fromStr clientIdRaw
    | return .error (.oauthError "invalid_client")
  match ← ask (.oauthClient clientId) with
  | .error _ => return .error (.status 500)
  | .ok none => return .error (.oauthError "invalid_client")
  | .ok (some client) =>
    if client.disabled then return .error (.oauthError "invalid_client")
    if client.isPublic then return .ok client
    let some secret := secret | return .error (.oauthError "invalid_client")
    match ← ask (.verifySecret clientId secret) with
    | .ok true => return .ok client
    | .ok false => return .error (.oauthError "invalid_client")
    | .error _ => return .error (.status 500)

/-- The claims `issue_tokens` signs. -/
def idTokenClaims (account : AccountsRow) (clientId : OAuthClientId) (scopes : List String)
    (nonce : Option String) (issued : ℤ) : IdTokenClaims where
  iss := P.issuer
  sub := account.id.text
  aud := clientId.text
  exp := issued + P.idTokenTtlSecs
  iat := issued
  authTime := some issued
  nonce := nonce
  email := if scopeEmail ∈ scopes then some account.email else none
  emailVerified := if scopeEmail ∈ scopes then some true else none
  name := if scopeProfile ∈ scopes then account.displayName else none

/-- The ID token, when the `openid` scope is present. -/
def issueIdToken (account : AccountsRow) (clientId : OAuthClientId) (scopes : List String)
    (nonce : Option String) : Handler (Except Response (Option String)) := do
  if scopeOpenid ∈ scopes then
    let issued ← ask .timestamp
    match ← ask (.sign (idTokenClaims P account clientId scopes nonce issued)) with
    | some idToken => return .ok (some idToken)
    | none => return .error (.status 500)
  else return .ok none

/-- The refresh token, when `offline_access` is present: the successor of `rotateFrom`,
or the first of a new family. Without it `rotateFrom` is to be retired. -/
def issueRefreshToken (accountId : AccountId) (clientId : OAuthClientId) (scopes : List String)
    (accessHash : String) (rotateFrom : Option String) :
    Handler (Except Response (Option String)) := do
  if scopeOffline ∈ scopes then
    let now ← ask .timestamp
    let refreshExpires := now + P.refreshTokenTtlSecs
    let refresh ← match rotateFrom with
      | some oldHash => ask (.rotate oldHash (some accessHash) refreshExpires)
      | none => ask (.createRefreshToken accountId clientId scopes (some accessHash) refreshExpires)
    match refresh with
    | .ok refreshToken => return .ok (some refreshToken)
    | .error _ => return .error (.status 500)
  else
    match rotateFrom with
    | some oldHash =>
      let _ ← ask (.revokeByHash oldHash)
      return .ok none
    | none => return .ok none

/-- `issue_tokens`. -/
def issueTokens (accountId : AccountId) (clientId : OAuthClientId) (scopes : List String)
    (nonce : Option String) (rotateFrom : Option String) : Handler Response := do
  match ← ask (.account accountId) with
  | .error _ => return .status 500
  | .ok none => return .oauthError "invalid_grant"
  | .ok (some account) =>
    let now ← ask .timestamp
    match ← ask (.createScopedToken accountId "oidc access" scopes (now + P.accessTokenTtlSecs)
      clientId) with
    | .error _ => return .status 500
    | .ok (accessToken, accessHash) =>
      match ← issueIdToken P account clientId scopes nonce with
      | .error response => return response
      | .ok idToken =>
        match ← issueRefreshToken P accountId clientId scopes accessHash rotateFrom with
        | .error response => return response
        | .ok refreshToken =>
          return .tokens
            ⟨accessToken, P.accessTokenTtlSecs, joinWith " " scopes, idToken, refreshToken⟩

/-- `verify_pkce_s256`. -/
def verifyPkceS256 (challenge verifier : String) : Bool := P.sha256 verifier = challenge

/-- `take_code`. -/
def takeCode (code : String) : Handler (Option CodeGrant) := do
  if hasPrefix codePrefix code then
    match ← ask (.retrieve code) with
    | .ok data => return data.asCodeGrant
    | .error _ => return none
  else return none

/-- `code_grant`. -/
def codeGrant (client : OAuthClient) (form : TokenForm) : Handler Response := do
  let some code := form.code | return .oauthError "invalid_request"
  let some verifier := form.codeVerifier | return .oauthError "invalid_request"
  let some grant ← takeCode code | return .oauthError "invalid_grant"
  if grant.clientId ≠ client.id.text then return .oauthError "invalid_grant"
  if form.redirectUri ≠ some grant.redirectUri then return .oauthError "invalid_grant"
  if ¬verifyPkceS256 P grant.codeChallenge verifier then return .oauthError "invalid_grant"
  let some accountId := AccountId.fromStr grant.accountId | return .status 500
  issueTokens P accountId client.id grant.scopes grant.nonce none

/-- `refresh_token_by_plaintext`. -/
def refreshTokenByPlaintext (token : String) :
    Handler (Except StorageError (Option RefreshTokenRow)) := do
  if hasPrefix refreshPrefix token then ask (.refreshByHash (P.blake3 token))
  else return .ok none

/-- The scopes a refresh may have: those of the token, or those requested of them. -/
def narrowScopes (requested : Option String) (scopes : List String) : Option (List String) :=
  match requested with
  | some text => if ∀ s ∈ splitWhitespace text, s ∈ scopes then some (splitWhitespace text) else none
  | none => some scopes

/-- `refresh_grant`. -/
def refreshGrant (client : OAuthClient) (form : TokenForm) : Handler Response := do
  let some token := form.refreshToken | return .oauthError "invalid_request"
  match ← refreshTokenByPlaintext P token with
  | .error _ => return .status 500
  | .ok none => return .oauthError "invalid_grant"
  | .ok (some row) =>
    if row.clientId ≠ client.id then return .oauthError "invalid_grant"
    if row.usedAt.isSome then
      let _ ← ask (.revokeFamily row.familyId)
      return .oauthError "invalid_grant"
    let now ← ask .timestamp
    if row.revokedAt.isSome ∨ row.expiresAt ≤ now then return .oauthError "invalid_grant"
    let some scopes := narrowScopes form.scope row.scopes | return .oauthError "invalid_scope"
    issueTokens P row.accountId client.id scopes none (some row.tokenHash)

/-- `POST /oidc/token`. -/
def token (form : TokenForm) : Handler Response := do
  match ← authenticateClient form with
  | .error response => return response
  | .ok client =>
    if form.grantType = some "authorization_code" then codeGrant P client form
    else if form.grantType = some "refresh_token" then refreshGrant P client form
    else return .oauthError "unsupported_grant_type"

/-- `POST /oidc/revoke`. -/
def revoke (form : RevokeForm) : Handler Response := do
  match ← authenticateClient form.toTokenForm with
  | .error response => return response
  | .ok client =>
    let some token := form.token | return .ok
    if hasPrefix refreshPrefix token then
      match ← refreshTokenByPlaintext P token with
      | .ok (some row) =>
        if row.clientId = client.id then
          let _ ← ask (.revokeFamily row.familyId)
          return .ok
        else return .ok
      | _ => return .ok
    else if hasPrefix tokenPrefix token then
      let _ ← ask (.revokeByHash (P.blake3 token))
      return .ok
    else return .ok

/-- `GET /oidc/userinfo`; `bearer` is the token of the Authorization header. -/
def userinfo (bearer : Option String) : Handler Response := do
  let some token := bearer | return .status 401
  if ¬hasPrefix tokenPrefix token then return .status 401
  match ← ask (.accessByHash (P.blake3 token)) with
  | .error _ => return .status 500
  | .ok none => return .status 401
  | .ok (some (account, access)) =>
    if ¬access.allows scopeOpenid then return .status 403
    return .userinfo account.id.text
      (if access.allows scopeEmail then some account.email else none)
      (if access.allows scopeProfile then account.displayName else none)

/-! ### `enroll.rs` -/

/-- `authenticate`. -/
def authenticate (bearer : Option String) : Handler (Except Response AccountsRow) := do
  let some token := bearer | return .error (.text 401 "authentication required")
  if ¬hasPrefix tokenPrefix token then return .error (.text 401 "authentication required")
  match ← ask (.accountByHash (P.blake3 token)) with
  | .ok (some account) => return .ok account
  | .ok none => return .error (.text 401 "authentication required")
  | .error _ => return .error (.status 500)

/-- `POST /oidc/enroll/start`. -/
def enrollStart (bearer : Option String) : Handler Response := do
  match ← authenticate P bearer with
  | .error response => return response
  | .ok account =>
    match ← ask (.listPasskeys account.id.text) with
    | .error _ => return .status 500
    | .ok _ =>
      let challenge ← ask .startRegistration
      let sessionId ← ask (.storeWithTtl (.enrollState ⟨account.id.text, challenge⟩) enrollTtl)
      return .enrollOptions sessionId challenge

/-- `POST /oidc/enroll/finish`. -/
def enrollFinish (bearer : Option String) (sessionId : String) (deviceName : Option String)
    (credential : Option RegisterPublicKeyCredential) : Handler Response := do
  match ← authenticate P bearer with
  | .error response => return response
  | .ok account =>
    match ← ask (.retrieve sessionId) with
    | .error _ => return .jsonError 400 "unknown or expired session"
    | .ok data =>
      let some stored := data.asEnrollState | return .jsonError 400 "corrupt session state"
      if stored.accountId ≠ account.id.text then
        return .jsonError 403 "session belongs to another account"
      let some response := credential | return .jsonError 400 "invalid credential"
      let deviceName := (deviceName.filter fun n => P.unicode.trim n ≠ "").getD "Passkey"
      let some passkey := P.finishRegistration response stored.challenge
        | return .jsonError 400 "registration verification failed"
      let now ← ask .timestamp
      match ← ask (.savePasskey
        ⟨passkey.credId, account.id.text, deviceName, passkey, 0, now, false⟩) with
      | .error _ => return .status 500
      | .ok _ => return .enrolled deviceName

/-! ### All of them -/

/-- A single call of the administration. -/
def administer (o : OidcOp) : Handler Response := do
  let _ ← ask o
  return .ok

/-- The program that answers a request. -/
def handle : Request → Handler Response
  | .authorize params => authorize params
  | .loginStart req email => loginStart P req email
  | .loginFinish req ceremony credential => loginFinish P req ceremony credential
  | .consentPage req auth => consentPage req auth
  | .consentSubmit req auth decision => consentSubmit req auth decision
  | .token form => token P form
  | .revoke form => revoke P form
  | .userinfo bearer => userinfo P bearer
  | .enrollStart bearer => enrollStart P bearer
  | .enrollFinish bearer sessionId deviceName credential =>
    enrollFinish P bearer sessionId deviceName credential
  | .createClient row => administer (.createClient row)
  | .disableClient id => administer (.disableClient id)
  | .revokeGrant accountId clientId => administer (.revokeGrant accountId clientId)
  | .createToken accountId name => administer (.createToken accountId name)
  | .revokeFamily familyId => administer (.revokeFamily familyId)
  | .disablePasskey id => administer (.disablePasskey id)
  | .setAccounts accounts => administer (.setAccounts accounts)
  | .sweep => administer .cleanupExpired
  | .tick now => administer (.tick now)

/-! ## The provider -/

/-- The provider with all requests ever made. -/
abbrev Provider : Type := Sys OidcOp.Ret Request Response Choice OidcWorld

/-- A call of an endpoint, with all around it. -/
abbrev OidcEvent : Type := Event OidcOp.Ret Request Choice OidcWorld

/-- A request arrives, or one makes its next call. -/
abbrev ProviderMove : Type := Move Request Choice

/-- No requests, no rows, nothing parked. -/
def Provider.empty : Provider := Sys.init OidcWorld.empty

/-- One move. -/
def Provider.step (s : Provider) (m : ProviderMove) : Provider :=
  Programs.step (handle P) (OidcOp.exec P) s m

/-- The provider after some moves. -/
def Provider.run (s : Provider) (ms : List ProviderMove) : Provider :=
  Runs.run (Provider.step P) s ms

end Owney
