import Owney.OidcEndpoints

/-!
# What the endpoints did before a call

Each handler is gone through once, and what it learned on the way is written down: `Before`
says for each call that writes something which calls its program made earlier, and with
which results, and `Answered` the same for a token response. `handle_spec` is the sum of
it; everything else about the provider is proved from there.
-/

namespace Owney

open Programs Parked

/-! ## Earlier calls -/

/-- The calls of one program, oldest first. -/
abbrev Calls : Type := List (Call OidcOp.Ret)

/-- The call was made and returned this. -/
def Did (cs : Calls) (o : OidcOp) (r : o.Ret) : Prop := (⟨o, r⟩ : Call OidcOp.Ret) ∈ cs

section Did

variable {cs cs' : Calls} {o o' : OidcOp} {r : o.Ret} {r' : o'.Ret}

theorem Did.append (h : Did cs o r) : Did (cs ++ cs') o r := List.mem_append_left _ h

@[simp] theorem did_last : Did (cs ++ [⟨o, r⟩]) o r := List.mem_append_right _ (by simp)

end Did

/-- The client the form names, after `authenticate_client` let it pass. -/
def ClientPassed (form : TokenForm) (cs : Calls) (client : OAuthClient) : Prop :=
  ∃ text secret id, form.presented = some (text, secret) ∧ OAuthClientId.fromStr text = some id ∧
    Did cs (.oauthClient id) (.ok (some client)) ∧ client.disabled = false ∧
      (client.isPublic = true ∨ ∃ s, secret = some s ∧ Did cs (.verifySecret id s) (.ok true))

/-- What `finish_authentication` let pass, and the counter written back. -/
structure LoginSigned (cs : Calls) (response : PublicKeyCredential) (ceremony : LoginCeremony)
    (result : AuthenticationResult) : Prop where
  credential : ∃ stored : PasskeyCredential, Did cs (.getPasskey response.rawId) (.ok (some stored)) ∧
    stored.accountId = ceremony.accountId ∧ result.credId = stored.publicKey.credId
  signed : Did cs (.finishAuthentication response ceremony.auth) (some result)
  written : Did cs (.updateCounter response.rawId result.counter) (.ok ())

/-- A login that passed, for the parked request it was started for. -/
structure LoginPassed (cs : Calls) (req ceremonyId : String) (response : PublicKeyCredential)
    (ceremony : LoginCeremony) (request : AuthRequest) : Prop where
  retrieved : Did cs (.retrieve ceremonyId) (.ok (.loginCeremony ceremony))
  reqId : ceremony.reqId = req
  parked : ∃ bytes, Did cs (.peek req) (some bytes) ∧ bytes.asAuthRequest = some request
  signed : ∃ result, LoginSigned cs response ceremony result

/-- An approved consent form, with the login marker and the parked request it names. -/
structure ConsentGiven (cs : Calls) (req auth : String) (accountText : String)
    (accountId : AccountId) (clientId : OAuthClientId) (request : AuthRequest) : Prop where
  marker : ∃ data, Did cs (.retrieve auth) (.ok data) ∧
    data.asAccount = some (accountText, accountId)
  parked : ∃ bytes, Did cs (.peek req) (some bytes) ∧ bytes.asAuthRequest = some request
  client : OAuthClientId.fromStr request.clientId = some clientId

/-- What a token exchange redeems. -/
inductive TokenSource where
  | code (code : String) (grant : CodeGrant)
  | refresh (row : RefreshTokenRow)
  deriving DecidableEq, Repr

/-- `rotate_from`. -/
def TokenSource.rotateFrom : TokenSource → Option String
  | code .. => none
  | refresh row => some row.tokenHash

variable (P : Oidc)

/-- The form redeems the source for these scopes of the account. -/
inductive Redeems (form : TokenForm) (cs : Calls) (client : OAuthClient) :
    TokenSource → AccountId → List String → Prop where
  | code {code verifier : String} {grant : CodeGrant} {accountId : AccountId}
      (type : form.grantType = some "authorization_code")
      (named : form.code = some code)
      (pre : hasPrefix codePrefix code = true)
      (taken : Did cs (.retrieve code) (.ok (.codeGrant grant)))
      (client_eq : grant.clientId = client.id.text)
      (redirect_eq : form.redirectUri = some grant.redirectUri)
      (verified : form.codeVerifier = some verifier)
      (pkce : P.sha256 verifier = grant.codeChallenge)
      (account : AccountId.fromStr grant.accountId = some accountId) :
      Redeems form cs client (.code code grant) accountId grant.scopes
  | refresh {token : String} {row : RefreshTokenRow} {scopes : List String}
      (type : form.grantType = some "refresh_token")
      (named : form.refreshToken = some token)
      (pre : hasPrefix refreshPrefix token = true)
      (found : Did cs (.refreshByHash (P.blake3 token)) (.ok (some row)))
      (client_eq : row.clientId = client.id)
      (unused : row.usedAt = none)
      (unrevoked : row.revokedAt = none)
      (narrowed : narrowScopes form.scope row.scopes = some scopes) :
      Redeems form cs client (.refresh row) row.accountId scopes

/-- An access token was minted for the client. -/
def Minted (cs : Calls) (client : OAuthClient) (accountId : AccountId) (scopes : List String)
    (token hash : String) : Prop :=
  ∃ name expiresAt,
    Did cs (.createScopedToken accountId name scopes expiresAt client.id) (.ok (token, hash))

/-- The right to a token exchange. -/
structure Entitled (form : TokenForm) (cs : Calls) (client : OAuthClient) (source : TokenSource)
    (accountId : AccountId) (scopes : List String) : Prop where
  passed : ClientPassed form cs client
  redeems : Redeems P form cs client source accountId scopes

/-- What an exchange does about refresh tokens. -/
inductive RefreshIssued (cs : Calls) (clientId : OAuthClientId) (accountId : AccountId)
    (scopes : List String) (accessHash : String) : TokenSource → Option String → Prop where
  | first {code token : String} {grant : CodeGrant} {expiresAt : ℤ} (offline : scopeOffline ∈ scopes)
      (created : Did cs (.createRefreshToken accountId clientId scopes (some accessHash) expiresAt)
        (.ok token)) :
      RefreshIssued cs clientId accountId scopes accessHash (.code code grant) (some token)
  | rotated {row : RefreshTokenRow} {token : String} {expiresAt : ℤ}
      (offline : scopeOffline ∈ scopes)
      (rotated : Did cs (.rotate row.tokenHash (some accessHash) expiresAt) (.ok token)) :
      RefreshIssued cs clientId accountId scopes accessHash (.refresh row) (some token)
  | none {code : String} {grant : CodeGrant} (offline : scopeOffline ∉ scopes) :
      RefreshIssued cs clientId accountId scopes accessHash (.code code grant) none
  | retired {row : RefreshTokenRow} {res : Except StorageError Unit}
      (offline : scopeOffline ∉ scopes) (retired : Did cs (.revokeByHash row.tokenHash) res) :
      RefreshIssued cs clientId accountId scopes accessHash (.refresh row) none

section Mono

theorem LoginSigned.append {cs cs' : Calls} {response : PublicKeyCredential}
    {ceremony : LoginCeremony} {result : AuthenticationResult}
    (h : LoginSigned cs response ceremony result) :
    LoginSigned (cs ++ cs') response ceremony result := by
  obtain ⟨⟨stored, hstored, hrest⟩, hsigned, hwritten⟩ := h
  exact ⟨⟨stored, hstored.append, hrest⟩, hsigned.append, hwritten.append⟩

theorem LoginPassed.append {cs cs' : Calls} {req ceremonyId : String}
    {response : PublicKeyCredential} {ceremony : LoginCeremony} {request : AuthRequest}
    (h : LoginPassed cs req ceremonyId response ceremony request) :
    LoginPassed (cs ++ cs') req ceremonyId response ceremony request := by
  obtain ⟨hretrieved, hreq, ⟨bytes, hbytes, hrequest⟩, ⟨result, hsigned⟩⟩ := h
  exact ⟨hretrieved.append, hreq, ⟨bytes, hbytes.append, hrequest⟩, ⟨result, hsigned.append⟩⟩

theorem ConsentGiven.append {cs cs' : Calls} {req auth text : String} {accountId : AccountId}
    {clientId : OAuthClientId} {request : AuthRequest}
    (h : ConsentGiven cs req auth text accountId clientId request) :
    ConsentGiven (cs ++ cs') req auth text accountId clientId request := by
  obtain ⟨⟨data, hdata, haccount⟩, ⟨bytes, hbytes, hrequest⟩, hclient⟩ := h
  exact ⟨⟨data, hdata.append, haccount⟩, ⟨bytes, hbytes.append, hrequest⟩, hclient⟩

variable {P} {form : TokenForm} {cs cs' : Calls} {client : OAuthClient}

theorem ClientPassed.append (h : ClientPassed form cs client) :
    ClientPassed form (cs ++ cs') client := by
  obtain ⟨text, secret, id, hp, hid, hdid, hen, hsec⟩ := h
  refine ⟨text, secret, id, hp, hid, hdid.append, hen, hsec.imp_right ?_⟩
  rintro ⟨s, hs, hv⟩
  exact ⟨s, hs, hv.append⟩

theorem Redeems.append {source : TokenSource} {accountId : AccountId} {scopes : List String}
    (h : Redeems P form cs client source accountId scopes) :
    Redeems P form (cs ++ cs') client source accountId scopes := by
  cases h with
  | code type named pre taken client_eq redirect_eq verified pkce account =>
    exact .code type named pre taken.append client_eq redirect_eq verified pkce account
  | refresh type named pre found client_eq unused unrevoked narrowed =>
    exact .refresh type named pre found.append client_eq unused unrevoked narrowed

theorem Entitled.append {source : TokenSource} {accountId : AccountId} {scopes : List String}
    (h : Entitled P form cs client source accountId scopes) :
    Entitled P form (cs ++ cs') client source accountId scopes :=
  ⟨h.passed.append, h.redeems.append⟩

theorem minted_last {accountId : AccountId} {name : String} {scopes : List String} {expiresAt : ℤ}
    {token hash : String} :
    Minted (cs ++ [⟨.createScopedToken accountId name scopes expiresAt client.id,
      .ok (token, hash)⟩]) client accountId scopes token hash :=
  ⟨name, expiresAt, did_last⟩

theorem Minted.append {accountId : AccountId} {scopes : List String} {token hash : String}
    (h : Minted cs client accountId scopes token hash) :
    Minted (cs ++ cs') client accountId scopes token hash := by
  obtain ⟨name, expiresAt, hdid⟩ := h
  exact ⟨name, expiresAt, hdid.append⟩

end Mono

/-! ## The promises -/

/-- The passkeys `start_authentication` offers. -/
def offered (credentials : List PasskeyCredential) : List Passkey :=
  (credentials.filter fun c => !c.disabled).map (·.publicKey)

/-- What a program did before it parks data under a drawn id. -/
def BeforePark (r : Request) (cs : Calls) : Parked → Prop
  | .authRequest request => ∃ params id client, r = .authorize params ∧
      Did cs (.oauthClient id) (.ok (some client)) ∧ client.disabled = false ∧
      request.clientId = id.text ∧ request.redirectUri ∈ client.redirectUris ∧
      ∀ s ∈ request.scopes, s ∈ supportedScopes
  | .loginCeremony ceremony => ∃ email account credentials,
      r = .loginStart ceremony.reqId email ∧ ceremony.accountId = AccountId.text account ∧
      (∃ bytes, Did cs (.peek ceremony.reqId) (some bytes)) ∧
      Did cs (.listPasskeys account.text) (.ok credentials) ∧
      Did cs (.startAuthentication (offered credentials)) (some ceremony.auth)
  | .accountText text => ∃ req ceremonyId response ceremony request,
      r = .loginFinish req ceremonyId (some response) ∧
      LoginPassed cs req ceremonyId response ceremony request ∧ text = ceremony.accountId
  | .codeGrant _ => False
  | .enrollState _ => True

/-- What a program did before each call that writes. -/
def Before (r : Request) (cs : Calls) : OidcOp → Prop
  | .storeWithTtl data _ => BeforePark r cs data
  | .mintCode grant =>
    (∃ req ceremonyId response ceremony request accountId clientId consent,
      r = .loginFinish req ceremonyId (some response) ∧
      LoginPassed cs req ceremonyId response ceremony request ∧ grant = request.grant ceremony.accountId ∧
      AccountId.fromStr ceremony.accountId = some accountId ∧
      OAuthClientId.fromStr request.clientId = some clientId ∧
      Did cs (.oauthGrant accountId clientId) (.ok (some consent)) ∧
      ∀ s ∈ request.scopes, s ∈ consent.scopes) ∨
    ∃ req auth text accountId clientId request, r = .consentSubmit req auth "approve" ∧
      ConsentGiven cs req auth text accountId clientId request ∧ grant = request.grant text ∧
      Did cs (.upsertGrant accountId clientId request.scopes) (.ok ())
  | .upsertGrant accountId clientId scopes => ∃ req auth text request,
      r = .consentSubmit req auth "approve" ∧
      ConsentGiven cs req auth text accountId clientId request ∧ scopes = request.scopes
  | .createScopedToken accountId _ scopes _ clientId => ∃ form client source, r = .token form ∧
      clientId = client.id ∧ Entitled P form cs client source accountId scopes
  | .createRefreshToken accountId clientId scopes access _ => ∃ form client code grant token hash,
      r = .token form ∧ clientId = client.id ∧ access = some hash ∧ scopeOffline ∈ scopes ∧
      Entitled P form cs client (.code code grant) accountId scopes ∧
      Minted cs client accountId scopes token hash
  | .rotate oldHash access _ => ∃ form client row scopes token hash,
      r = .token form ∧ oldHash = row.tokenHash ∧ access = some hash ∧ scopeOffline ∈ scopes ∧
      Entitled P form cs client (.refresh row) row.accountId scopes ∧
      Minted cs client row.accountId scopes token hash
  | .finishAuthentication response auth => ∃ req ceremonyId ceremony stored,
      r = .loginFinish req ceremonyId (some response) ∧ auth = ceremony.auth ∧
      Did cs (.retrieve ceremonyId) (.ok (.loginCeremony ceremony)) ∧
      Did cs (.getPasskey response.rawId) (.ok (some stored))
  | .updateCounter id counter => ∃ req ceremonyId ceremony response result,
      r = .loginFinish req ceremonyId (some response) ∧ id = response.rawId ∧
      counter = result.counter ∧
      Did cs (.retrieve ceremonyId) (.ok (.loginCeremony ceremony)) ∧
      Did cs (.finishAuthentication response ceremony.auth) (some result)
  | .revokeFamily familyId => ∀ form, r = .token form → ∃ hash row,
      Did cs (.refreshByHash hash) (.ok (some row)) ∧ row.familyId = familyId
  | .savePasskey row => row.id = row.publicKey.credId ∧ row.counter = 0
  | .createClient row => r = .createClient row
  | .disableClient id => r = .disableClient id
  | .revokeGrant accountId clientId => r = .revokeGrant accountId clientId
  | .createToken accountId name => r = .createToken accountId name
  | .setAccounts accounts => r = .setAccounts accounts
  | .tick now => r = .tick now
  | _ => True

/-- What a program did before it answers with tokens. -/
def Answered (r : Request) (cs : Calls) : Response → Prop
  | .tokens body => ∃ form client source accountId scopes hash, r = .token form ∧
      Entitled P form cs client source accountId scopes ∧
      Minted cs client accountId scopes body.accessToken hash ∧ body.scope = joinWith " " scopes ∧
      RefreshIssued cs client.id accountId scopes hash source body.refreshToken
  | _ => True

/-! ## The handlers, one by one -/

section Handlers

-- Otherwise the case splits below evaluate the text of an id.
attribute [local irreducible] hasPrefix Uuid.toString

variable {P} {cs : Calls} {r : Request}

@[simp] theorem spec_ask {α : Type} {G : Calls → OidcOp → Prop} {Q : Calls → α → Prop} {o : OidcOp}
    {f : o.Ret → Handler α} :
    (ask o >>= f).Spec G Q cs ↔ G cs o ∧ ∀ res, (f res).Spec G Q (cs ++ [⟨o, res⟩]) := Iff.rfl

/-- What `validate` admits. -/
theorem validate_eq_ok {params : AuthorizeParams} {clientId : OAuthClientId} {uri : String}
    {request : AuthRequest} (h : params.validate clientId uri = .ok request) :
    request.clientId = clientId.text ∧ request.redirectUri = uri ∧
      ∀ s ∈ request.scopes, s ∈ supportedScopes := by
  unfold AuthorizeParams.validate at h
  split at h
  · cases h
  split at h
  · cases h
  dsimp only at h
  split at h
  · cases h
  split at h
  · cases h
  · rename_i hscopes
    obtain rfl := Except.ok.inj h
    simp only [not_or, not_not] at hscopes
    exact ⟨rfl, rfl, hscopes.2.1⟩

/-- `validate` refuses with a redirect. -/
theorem validate_eq_error {params : AuthorizeParams} {clientId : OAuthClientId} {uri : String}
    {response : Response} (h : params.validate clientId uri = .error response) :
    ∃ error, response = errorRedirect uri error params.state := by
  unfold AuthorizeParams.validate at h
  split at h
  · exact ⟨_, (Except.error.inj h).symm⟩
  split at h
  · exact ⟨_, (Except.error.inj h).symm⟩
  dsimp only at h
  split at h
  · exact ⟨_, (Except.error.inj h).symm⟩
  split at h
  · exact ⟨_, (Except.error.inj h).symm⟩
  · cases h

theorem authorize_spec (params : AuthorizeParams) :
    (authorize params).Spec (Before P (.authorize params)) (Answered P (.authorize params)) [] := by
  unfold authorize
  split
  swap
  · trivial
  split
  swap
  · trivial
  rename_i clientId hid
  refine spec_ask.mpr ⟨trivial, ?_⟩
  rintro (e | _ | client)
  · trivial
  · trivial
  dsimp only
  split
  · trivial
  rename_i henabled
  split
  swap
  · trivial
  rename_i uri _
  split
  · trivial
  rename_i huri
  split
  · rename_i response hresponse
    obtain ⟨error, rfl⟩ := validate_eq_error hresponse
    trivial
  · rename_i request hrequest
    obtain ⟨hclient, rfl, hscopes⟩ := validate_eq_ok hrequest
    refine ⟨⟨params, clientId, client, rfl, did_last, ?_, hclient, ?_, hscopes⟩, fun _ => trivial⟩
    · simpa using henabled
    · simpa using huri

theorem loginStart_spec (req email : String) :
    (loginStart P req email).Spec (Before P (.loginStart req email))
      (Answered P (.loginStart req email)) [] := by
  unfold loginStart
  refine spec_ask.mpr ⟨trivial, ?_⟩
  rintro (_ | bytes)
  · trivial
  rw [if_neg (by simp)]
  refine spec_ask.mpr ⟨trivial, ?_⟩
  rintro (e | _ | account)
  · trivial
  · trivial
  refine spec_ask.mpr ⟨trivial, ?_⟩
  rintro (e | credentials)
  · trivial
  dsimp only
  split
  · trivial
  refine spec_ask.mpr ⟨trivial, ?_⟩
  rintro (_ | auth)
  · trivial
  exact ⟨⟨email, account.id, credentials, rfl, rfl, ⟨bytes, did_last.append.append.append⟩,
    did_last.append, did_last⟩, fun _ => trivial⟩

theorem finishLogin_spec {req ceremonyId : String} {response : PublicKeyCredential}
    {ceremony : LoginCeremony}
    (hretrieved : Did cs (.retrieve ceremonyId) (.ok (.loginCeremony ceremony))) :
    (finishLogin response ceremony).Spec (Before P (.loginFinish req ceremonyId (some response)))
      (fun cs' res => match res with
        | .ok _ => ∃ result, LoginSigned cs' response ceremony result
        | .error refused => Answered P (.loginFinish req ceremonyId (some response)) cs' refused)
      cs := by
  unfold finishLogin
  refine spec_ask.mpr ⟨trivial, ?_⟩
  rintro (e | _ | stored)
  · trivial
  · trivial
  dsimp only
  split
  · trivial
  rename_i haccount
  split
  · trivial
  refine spec_ask.mpr ⟨⟨req, ceremonyId, ceremony, stored, rfl, rfl, hretrieved.append, did_last⟩, ?_⟩
  rintro (_ | result)
  · trivial
  dsimp only
  split
  · trivial
  rename_i hcred
  refine spec_ask.mpr ⟨⟨req, ceremonyId, ceremony, response, result, rfl, rfl, rfl,
    hretrieved.append.append, did_last⟩, ?_⟩
  rintro (e | _)
  · trivial
  exact ⟨result, ⟨stored, did_last.append.append, not_not.mp haccount, not_not.mp hcred⟩,
    did_last.append, did_last⟩

theorem loginFinish_spec (req ceremonyId : String) (credential : Option PublicKeyCredential) :
    (loginFinish P req ceremonyId credential).Spec
      (Before P (.loginFinish req ceremonyId credential))
      (Answered P (.loginFinish req ceremonyId credential)) [] := by
  unfold loginFinish
  refine spec_ask.mpr ⟨trivial, ?_⟩
  rintro (e | data)
  · trivial
  dsimp only
  split
  swap
  · trivial
  rename_i ceremony hceremony
  obtain rfl := asLoginCeremony_eq_some.mp hceremony
  split
  · trivial
  rename_i hreq
  refine spec_ask.mpr ⟨trivial, ?_⟩
  rintro (_ | bytes)
  · trivial
  dsimp only
  split
  swap
  · trivial
  rename_i request hrequest
  split
  swap
  · trivial
  rename_i response
  refine (finishLogin_spec did_last.append).seq ?_
  rintro more (refused | _) hsigned
  · exact hsigned
  dsimp only
  have hpassed : LoginPassed _ req ceremonyId response ceremony request :=
    ⟨did_last.append.append, not_not.mp hreq, ⟨bytes, did_last.append, hrequest⟩, hsigned⟩
  split
  swap
  · trivial
  rename_i accountId haccount
  split
  swap
  · trivial
  rename_i clientId hclient
  refine spec_ask.mpr ⟨trivial, ?_⟩
  rintro (e | grant)
  · trivial
  dsimp only
  split
  · rename_i hgranted
    obtain ⟨consent, rfl, hscopes⟩ := (Option.any_eq_true _ _).mp hgranted
    refine spec_ask.mpr ⟨trivial, fun res => ?_⟩
    refine ⟨.inl ⟨req, ceremonyId, response, ceremony, request, accountId, clientId, consent, rfl,
      hpassed.append.append, rfl, haccount, hclient, did_last.append, ?_⟩, fun _ => trivial⟩
    simpa using hscopes
  · exact ⟨⟨req, ceremonyId, response, ceremony, request, rfl, hpassed.append, rfl⟩,
      fun _ => trivial⟩

theorem consentPage_spec (req auth : String) :
    (consentPage req auth).Spec (Before P (.consentPage req auth))
      (Answered P (.consentPage req auth)) [] := by
  unfold consentPage parkedRequest
  refine spec_ask.mpr ⟨trivial, ?_⟩
  rintro (_ | marker)
  · trivial
  rw [if_neg (by simp)]
  refine spec_ask.mpr ⟨trivial, fun bytes => ?_⟩
  dsimp only
  split
  swap
  · trivial
  split
  · refine spec_ask.mpr ⟨trivial, ?_⟩
    rintro (e | _ | client) <;> trivial
  · trivial

theorem consentSubmit_spec (req auth decision : String) :
    (consentSubmit req auth decision).Spec (Before P (.consentSubmit req auth decision))
      (Answered P (.consentSubmit req auth decision)) [] := by
  unfold consentSubmit parkedRequest
  refine spec_ask.mpr ⟨trivial, ?_⟩
  rintro (e | data)
  · trivial
  refine spec_ask.mpr ⟨trivial, fun bytes => ?_⟩
  dsimp only
  split
  swap
  · trivial
  rename_i request hrequest
  refine spec_ask.mpr ⟨trivial, fun res => ?_⟩
  split
  · trivial
  rename_i hdecision
  obtain rfl := not_not.mp hdecision
  split
  swap
  · trivial
  rename_i text accountId clientId haccount hclient
  obtain ⟨parked, hparked, hread⟩ := Option.bind_eq_some_iff.mp hrequest
  subst hparked
  have hgiven : ConsentGiven ([] ++ [⟨.retrieve auth, .ok data⟩] ++ [⟨.peek req, some parked⟩] ++
      [⟨.retrieve req, res⟩]) req auth text accountId clientId request :=
    ⟨⟨data, did_last.append.append, haccount⟩, ⟨parked, did_last.append, hread⟩, hclient⟩
  refine spec_ask.mpr ⟨⟨req, auth, text, request, rfl, hgiven, rfl⟩, ?_⟩
  rintro (e | _)
  · trivial
  exact ⟨.inr ⟨req, auth, text, accountId, clientId, request, rfl, hgiven.append, rfl, did_last⟩,
    fun _ => trivial⟩

theorem authenticateClient_spec {form : TokenForm} :
    (authenticateClient form).Spec (Before P r) (fun cs res => match res with
      | .ok client => ClientPassed form cs client
      | .error refused => Answered P r cs refused) cs := by
  unfold authenticateClient
  split
  swap
  · trivial
  rename_i text secret hpresented
  split
  swap
  · trivial
  rename_i clientId hid
  refine spec_ask.mpr ⟨trivial, ?_⟩
  rintro (e | _ | client)
  · trivial
  · trivial
  dsimp only
  split
  · trivial
  rename_i henabled
  have henabled' : client.disabled = false := by simpa using henabled
  split
  · rename_i hpublic
    exact ⟨text, secret, clientId, hpresented, hid, did_last, henabled', .inl hpublic⟩
  split
  swap
  · trivial
  rename_i secret
  refine spec_ask.mpr ⟨trivial, ?_⟩
  rintro (e | _ | _)
  · trivial
  · trivial
  · exact ⟨text, some secret, clientId, hpresented, hid, did_last.append, henabled',
      .inr ⟨secret, rfl, did_last⟩⟩

section Exchange

variable {form : TokenForm} {client : OAuthClient} {source : TokenSource} {accountId : AccountId}
  {scopes : List String}

theorem issueIdToken_spec {account : AccountsRow} {clientId : OAuthClientId}
    {nonce : Option String} :
    (issueIdToken P account clientId scopes nonce).Spec (Before P r) (fun cs res => match res with
      | .ok _ => True
      | .error refused => Answered P r cs refused) cs := by
  unfold issueIdToken
  split
  · refine spec_ask.mpr ⟨trivial, fun issued => spec_ask.mpr ⟨trivial, ?_⟩⟩
    rintro (_ | idToken) <;> trivial
  · trivial

theorem issueRefreshToken_spec {token hash : String}
    (hentitled : Entitled P form cs client source accountId scopes)
    (hminted : Minted cs client accountId scopes token hash) :
    (issueRefreshToken P accountId client.id scopes hash source.rotateFrom).Spec
      (Before P (.token form)) (fun cs res => match res with
        | .ok refreshToken =>
          RefreshIssued cs client.id accountId scopes hash source refreshToken
        | .error refused => Answered P (.token form) cs refused) cs := by
  unfold issueRefreshToken
  split
  · rename_i hoffline
    refine spec_ask.mpr ⟨trivial, fun now => ?_⟩
    cases source with
    | code code grant =>
      refine spec_ask.mpr ⟨⟨form, client, code, grant, token, hash, rfl, rfl, rfl, hoffline,
        hentitled.append, hminted.append⟩, ?_⟩
      rintro (e | refreshToken)
      · trivial
      · exact .first hoffline did_last
    | refresh row =>
      obtain ⟨hpassed, hredeems⟩ := hentitled
      obtain rfl : accountId = row.accountId := by
        cases hredeems
        rfl
      refine spec_ask.mpr ⟨⟨form, client, row, scopes, token, hash, rfl, rfl, rfl, hoffline,
        ⟨hpassed.append, hredeems.append⟩, hminted.append⟩, ?_⟩
      rintro (e | refreshToken)
      · trivial
      · exact .rotated hoffline did_last
  · rename_i hoffline
    cases source with
    | code code grant => exact .none hoffline
    | refresh row => exact spec_ask.mpr ⟨trivial, fun res => .retired hoffline did_last⟩

variable (source) in
theorem issueTokens_spec {nonce : Option String}
    (hentitled : Entitled P form cs client source accountId scopes) :
    (issueTokens P accountId client.id scopes nonce source.rotateFrom).Spec
      (Before P (.token form)) (Answered P (.token form)) cs := by
  unfold issueTokens
  refine spec_ask.mpr ⟨trivial, ?_⟩
  rintro (e | _ | account)
  · trivial
  · trivial
  refine spec_ask.mpr ⟨trivial, fun now => ?_⟩
  refine spec_ask.mpr ⟨⟨form, client, source, rfl, rfl, hentitled.append.append⟩, ?_⟩
  rintro (e | ⟨token, hash⟩)
  · trivial
  refine issueIdToken_spec.seq ?_
  rintro more (refused | idToken) hid
  · exact hid
  refine (issueRefreshToken_spec hentitled.append.append.append.append minted_last.append).seq ?_
  rintro more' (refused | refreshToken) hrefresh
  · exact hrefresh
  exact ⟨form, client, source, accountId, scopes, hash, rfl,
    hentitled.append.append.append.append.append, minted_last.append.append, rfl, hrefresh⟩

theorem takeCode_spec {code : String} :
    (takeCode code).Spec (Before P r) (fun cs found => ∀ grant, found = some grant →
      hasPrefix codePrefix code = true ∧ Did cs (.retrieve code) (.ok (.codeGrant grant))) cs := by
  unfold takeCode
  split
  · rename_i hpre
    refine spec_ask.mpr ⟨trivial, ?_⟩
    rintro (e | data) grant hgrant
    · cases hgrant
    · obtain rfl := asCodeGrant_eq_some.mp hgrant
      exact ⟨hpre, did_last⟩
  · rintro grant ⟨⟩

theorem codeGrant_spec (hpassed : ClientPassed form cs client)
    (htype : form.grantType = some "authorization_code") :
    (codeGrant P client form).Spec (Before P (.token form)) (Answered P (.token form)) cs := by
  unfold codeGrant
  split
  swap
  · trivial
  rename_i code hcode
  split
  swap
  · trivial
  rename_i verifier hverifier
  refine takeCode_spec.seq ?_
  rintro more (_ | grant) htaken
  · trivial
  have htaken := htaken grant rfl
  dsimp only
  split
  · trivial
  rename_i hclient
  split
  · trivial
  rename_i hredirect
  split
  · trivial
  rename_i hpkce
  split
  swap
  · trivial
  rename_i accountId haccount
  refine issueTokens_spec (.code code grant) ⟨hpassed.append, ?_⟩
  refine .code htype hcode htaken.1 htaken.2 (not_not.mp hclient) (not_not.mp hredirect) hverifier ?_
    haccount
  simpa [verifyPkceS256] using hpkce

theorem refreshTokenByPlaintext_spec {token : String} :
    (refreshTokenByPlaintext P token).Spec (Before P r) (fun cs found => ∀ row,
      found = .ok (some row) → hasPrefix refreshPrefix token = true ∧
        Did cs (.refreshByHash (P.blake3 token)) (.ok (some row))) cs := by
  unfold refreshTokenByPlaintext
  split
  · rename_i hpre
    refine ⟨trivial, fun found row hrow => ?_⟩
    subst hrow
    exact ⟨hpre, did_last⟩
  · rintro row ⟨⟩

theorem refreshGrant_spec (hpassed : ClientPassed form cs client)
    (htype : form.grantType = some "refresh_token") :
    (refreshGrant P client form).Spec (Before P (.token form)) (Answered P (.token form)) cs := by
  unfold refreshGrant
  split
  swap
  · trivial
  rename_i token htoken
  refine refreshTokenByPlaintext_spec.seq ?_
  rintro more (e | _ | row) hfound
  · trivial
  · trivial
  have hfound := hfound row rfl
  dsimp only
  split
  · trivial
  rename_i hclient
  split
  · exact spec_ask.mpr ⟨fun form' _ => ⟨_, _, hfound.2, rfl⟩, fun _ => trivial⟩
  rename_i hunused
  refine spec_ask.mpr ⟨trivial, fun now => ?_⟩
  split
  · trivial
  rename_i hlive
  split
  swap
  · trivial
  rename_i scopes hscopes
  refine issueTokens_spec (.refresh row) ⟨hpassed.append.append, ?_⟩
  refine .refresh htype htoken hfound.1 hfound.2.append (not_not.mp hclient) ?_ ?_ hscopes
  · simpa using hunused
  · simpa using (not_or.mp hlive).1

theorem token_spec (form : TokenForm) :
    (token P form).Spec (Before P (.token form)) (Answered P (.token form)) [] := by
  unfold token
  refine authenticateClient_spec.seq ?_
  rintro more (refused | client) hpassed
  · exact hpassed
  dsimp only
  split
  · rename_i htype
    exact codeGrant_spec hpassed htype
  split
  · rename_i htype
    exact refreshGrant_spec hpassed htype
  · trivial

end Exchange

theorem revoke_spec (form : RevokeForm) :
    (revoke P form).Spec (Before P (.revoke form)) (Answered P (.revoke form)) [] := by
  unfold revoke
  refine authenticateClient_spec.seq ?_
  rintro more (refused | client) hpassed
  · exact hpassed
  dsimp only
  split
  swap
  · trivial
  split
  · refine refreshTokenByPlaintext_spec.seq ?_
    rintro more (e | _ | row) -
    · trivial
    · trivial
    dsimp only
    split
    · exact spec_ask.mpr ⟨by rintro form' ⟨⟩, fun _ => trivial⟩
    · trivial
  split
  · exact spec_ask.mpr ⟨trivial, fun _ => trivial⟩
  · trivial

theorem userinfo_spec (bearer : Option String) :
    (userinfo P bearer).Spec (Before P (.userinfo bearer)) (Answered P (.userinfo bearer)) [] := by
  unfold userinfo
  split
  swap
  · trivial
  split
  · trivial
  refine spec_ask.mpr ⟨trivial, ?_⟩
  rintro (e | _ | ⟨account, access⟩)
  · trivial
  · trivial
  dsimp only
  split <;> trivial

theorem authenticate_spec {bearer : Option String} :
    (authenticate P bearer).Spec (Before P r) (fun cs res => match res with
      | .ok _ => True
      | .error refused => Answered P r cs refused) cs := by
  unfold authenticate
  split
  swap
  · trivial
  split
  · trivial
  refine spec_ask.mpr ⟨trivial, ?_⟩
  rintro (e | _ | account) <;> trivial

theorem enrollStart_spec (bearer : Option String) :
    (enrollStart P bearer).Spec (Before P (.enrollStart bearer))
      (Answered P (.enrollStart bearer)) [] := by
  unfold enrollStart
  refine authenticate_spec.seq ?_
  rintro more (refused | account) hauth
  · exact hauth
  refine spec_ask.mpr ⟨trivial, ?_⟩
  rintro (e | credentials)
  · trivial
  exact ⟨trivial, fun _ => ⟨trivial, fun _ => trivial⟩⟩

theorem enrollFinish_spec (bearer : Option String) (sessionId : String)
    (deviceName : Option String) (credential : Option RegisterPublicKeyCredential) :
    (enrollFinish P bearer sessionId deviceName credential).Spec
      (Before P (.enrollFinish bearer sessionId deviceName credential))
      (Answered P (.enrollFinish bearer sessionId deviceName credential)) [] := by
  unfold enrollFinish
  refine authenticate_spec.seq ?_
  rintro more (refused | account) hauth
  · exact hauth
  refine spec_ask.mpr ⟨trivial, ?_⟩
  rintro (e | data)
  · trivial
  dsimp only
  split
  swap
  · trivial
  split
  · trivial
  split
  swap
  · trivial
  split
  swap
  · trivial
  refine spec_ask.mpr ⟨trivial, fun now => spec_ask.mpr ⟨⟨rfl, rfl⟩, ?_⟩⟩
  rintro (e | _) <;> trivial

/-- **What each handler did before.** -/
theorem handle_spec (r : Request) : (handle P r).Spec (Before P r) (Answered P r) [] := by
  cases r with
  | authorize params => exact authorize_spec params
  | loginStart req email => exact loginStart_spec req email
  | loginFinish req ceremony credential => exact loginFinish_spec req ceremony credential
  | consentPage req auth => exact consentPage_spec req auth
  | consentSubmit req auth decision => exact consentSubmit_spec req auth decision
  | token form => exact token_spec form
  | revoke form => exact revoke_spec form
  | userinfo bearer => exact userinfo_spec bearer
  | enrollStart bearer => exact enrollStart_spec bearer
  | enrollFinish bearer sessionId deviceName credential =>
    exact enrollFinish_spec bearer sessionId deviceName credential
  | revokeFamily => exact ⟨by rintro form ⟨⟩, fun _ => trivial⟩
  | sweep | disablePasskey => exact ⟨trivial, fun _ => trivial⟩
  | _ => exact ⟨rfl, fun _ => trivial⟩

end Handlers

end Owney
