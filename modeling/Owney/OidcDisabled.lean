import Owney.OidcRefresh

/-!
# Disabled accounts

Whether an account that is disabled still gets codes and tokens. `login_start` looks the account
up by its address, which finds no disabled account. Nothing after it asks again: the ceremony, the
login marker, the code and the refresh token each carry the account's id, and `issue_tokens` looks
the account up by that id, which finds disabled accounts as well.

* `Issues` — a call that hands out a code or a token for an account.
* `Presents` — what a request presents is the account's, and still good.
* `disabledOut` — an account that is disabled gets nothing from the requests that start then, in
  every run in which none of them presents anything of its.
-/

namespace Owney

open Programs Tables

variable {P : Oidc} {past pre post : List OidcEvent} {w : OidcWorld} {e : OidcEvent}
  {a : AccountId}

/-! ## A third look at the token endpoint

An ID token is signed after an access token was minted, for the account that was found; and a
refresh token that tokens are issued for was in time. -/

/-- The refresh token that was looked up was in time. -/
def InTime (cs : Calls) : Prop :=
  ∀ hash row, Did cs (.refreshByHash hash) (.ok (some row)) →
    ∃ now, Did cs .timestamp now ∧ now < row.expiresAt

/-- What a program did before it signs, or mints an access token. -/
def BeforeIssue (cs : Calls) : OidcOp → Prop
  | .createScopedToken .. => InTime cs
  | .sign claims => ∃ accountId name scopes expiresAt clientId minted account,
      Did cs (.createScopedToken accountId name scopes expiresAt clientId) (.ok minted) ∧
      Did cs (.account accountId) (.ok (some account)) ∧ claims.sub = account.id.text
  | _ => True

/-- The program makes only calls that nothing needs to come before. -/
def Harmless {α : Type} (p : Handler α) : Prop :=
  ∀ cs, p.Spec BeforeIssue (fun _ _ => True) cs

section Harmless

variable {α β : Type} {cs : Calls} {o : OidcOp}

theorem Harmless.pure (a : α) : Harmless (Pure.pure a : Handler α) := fun _ => trivial

theorem Harmless.ask (ho : ∀ cs, BeforeIssue cs o) : Harmless (ask o) :=
  fun cs => ⟨ho cs, fun _ => trivial⟩

theorem Harmless.bind {p : Handler α} {f : α → Handler β} (hp : Harmless p)
    (hf : ∀ a, Harmless (f a)) : Harmless (p >>= f) :=
  fun cs => (hp cs).seq fun _ a _ => hf a _

theorem Harmless.ask_bind {f : o.Ret → Handler β} (ho : ∀ cs, BeforeIssue cs o)
    (hf : ∀ res, Harmless (f res)) : Harmless (Owney.ask o >>= f) :=
  (Harmless.ask ho).bind hf

end Harmless

/-! Walks through the handlers that issue nothing: they go from call to call. -/

section Walks

-- Otherwise the case splits below evaluate the text of an id.
attribute [local irreducible] hasPrefix Uuid.toString

theorem harmless_authorize (params : AuthorizeParams) : Harmless (authorize params) := by
  unfold authorize
  repeat' first
    | exact .pure _
    | refine .ask_bind (fun _ => trivial) fun _ => ?_
    | split

theorem harmless_loginStart (req email : String) : Harmless (loginStart P req email) := by
  unfold loginStart
  repeat' first
    | exact .pure _
    | refine .ask_bind (fun _ => trivial) fun _ => ?_
    | split

theorem harmless_loginFinish (req ceremonyId : String)
    (credential : Option PublicKeyCredential) : Harmless (loginFinish P req ceremonyId credential) := by
  have hfinish : ∀ response ceremony, Harmless (finishLogin response ceremony) := by
    intro response ceremony
    unfold finishLogin
    repeat' first
      | exact .pure _
      | refine .ask_bind (fun _ => trivial) fun _ => ?_
      | split
  unfold loginFinish
  repeat' first
    | exact .pure _
    | refine (hfinish _ _).bind fun _ => ?_
    | refine .ask_bind (fun _ => trivial) fun _ => ?_
    | split

theorem harmless_parkedRequest (req : String) : Harmless (parkedRequest req) :=
  .ask_bind (fun _ => trivial) fun _ => .pure _

theorem harmless_consentPage (req auth : String) : Harmless (consentPage req auth) := by
  unfold consentPage
  repeat' first
    | exact .pure _
    | refine (harmless_parkedRequest _).bind fun _ => ?_
    | refine .ask_bind (fun _ => trivial) fun _ => ?_
    | split

theorem harmless_consentSubmit (req auth decision : String) :
    Harmless (consentSubmit req auth decision) := by
  unfold consentSubmit
  repeat' first
    | exact .pure _
    | refine (harmless_parkedRequest _).bind fun _ => ?_
    | refine .ask_bind (fun _ => trivial) fun _ => ?_
    | split

theorem harmless_authenticateClient (form : TokenForm) : Harmless (authenticateClient form) := by
  unfold authenticateClient
  repeat' first
    | exact .pure _
    | refine .ask_bind (fun _ => trivial) fun _ => ?_
    | split

theorem harmless_refreshTokenByPlaintext (token : String) :
    Harmless (refreshTokenByPlaintext P token) := by
  unfold refreshTokenByPlaintext
  split
  · exact .ask fun _ => trivial
  · exact .pure _

theorem harmless_revoke (form : RevokeForm) : Harmless (revoke P form) := by
  unfold revoke
  repeat' first
    | exact .pure _
    | refine (harmless_authenticateClient _).bind fun _ => ?_
    | refine (harmless_refreshTokenByPlaintext _).bind fun _ => ?_
    | refine .ask_bind (fun _ => trivial) fun _ => ?_
    | split

theorem harmless_userinfo (bearer : Option String) : Harmless (userinfo P bearer) := by
  unfold userinfo
  repeat' first
    | exact .pure _
    | refine .ask_bind (fun _ => trivial) fun _ => ?_
    | split

theorem harmless_authenticate (bearer : Option String) : Harmless (authenticate P bearer) := by
  unfold authenticate
  repeat' first
    | exact .pure _
    | refine .ask_bind (fun _ => trivial) fun _ => ?_
    | split

theorem harmless_enrollStart (bearer : Option String) : Harmless (enrollStart P bearer) := by
  unfold enrollStart
  repeat' first
    | exact .pure _
    | refine (harmless_authenticate _).bind fun _ => ?_
    | refine .ask_bind (fun _ => trivial) fun _ => ?_
    | split

theorem harmless_enrollFinish (bearer : Option String) (sessionId : String)
    (deviceName : Option String) (credential : Option RegisterPublicKeyCredential) :
    Harmless (enrollFinish P bearer sessionId deviceName credential) := by
  unfold enrollFinish
  repeat' first
    | exact .pure _
    | refine (harmless_authenticate _).bind fun _ => ?_
    | refine .ask_bind (fun _ => trivial) fun _ => ?_
    | split

theorem harmless_issueRefreshToken (accountId : AccountId) (clientId : OAuthClientId)
    (scopes : List String) (accessHash : String) (rotateFrom : Option String) :
    Harmless (issueRefreshToken P accountId clientId scopes accessHash rotateFrom) := by
  unfold issueRefreshToken
  cases rotateFrom
  all_goals
    repeat' first
      | exact .pure _
      | refine .ask_bind (fun _ => trivial) fun _ => ?_
      | split
      | dsimp only

theorem harmless_takeCode (code : String) : Harmless (takeCode code) := by
  unfold takeCode
  repeat' first
    | exact .pure _
    | refine .ask_bind (fun _ => trivial) fun _ => ?_
    | split

theorem harmless_administer {o : OidcOp} (ho : ∀ cs, BeforeIssue cs o) : Harmless (administer o) :=
  .ask_bind ho fun _ => .pure _

/-! The token endpoint. -/

section Token

variable {cs more : Calls}

/-- Without a lookup nothing is out of time. -/
theorem NoLookup.inTime (h : NoLookup cs) : InTime cs :=
  fun _ _ hdid => absurd trivial (h _ hdid)

/-- Calls that look nothing up leave what was looked up in time. -/
theorem InTime.extend (h : InTime cs) (hmore : ∀ c ∈ cs ++ more, c ∈ cs ∨ ¬c.op.IsLookup) :
    InTime (cs ++ more) := by
  intro hash row hdid
  obtain ⟨now, hnow, hlt⟩ := h hash row
    ((hmore _ hdid).resolve_right fun hno => hno trivial)
  exact ⟨now, hnow.append, hlt⟩

theorem InTime.snoc {o : OidcOp} {res : o.Ret} (h : InTime cs) (ho : ¬o.IsLookup) :
    InTime (cs ++ [⟨o, res⟩]) := by
  refine h.extend fun c hc => ?_
  rcases List.mem_append.mp hc with hc | hc
  · exact .inl hc
  · obtain rfl := List.mem_singleton.mp hc
    exact .inr ho

/-- `issue_tokens`. -/
theorem issueTokens_beforeIssue {accountId : AccountId} {clientId : OAuthClientId}
    {scopes : List String} {nonce rotateFrom : Option String} (h : InTime cs) :
    (issueTokens P accountId clientId scopes nonce rotateFrom).Spec BeforeIssue
      (fun _ _ => True) cs := by
  unfold issueTokens
  refine spec_ask.mpr ⟨trivial, ?_⟩
  rintro (e | _ | account)
  · trivial
  · trivial
  refine spec_ask.mpr ⟨trivial, fun now => spec_ask.mpr ⟨(h.snoc id).snoc id, ?_⟩⟩
  rintro (e | ⟨token, hash⟩)
  · trivial
  refine Prog.Spec.seq (J := fun _ _ => True) ?_ ?_
  · unfold issueIdToken
    split
    · refine spec_ask.mpr ⟨trivial, fun issued => spec_ask.mpr ⟨?_, ?_⟩⟩
      · exact ⟨accountId, _, _, _, _, _, account, did_last.append, did_last.append.append.append,
          rfl⟩
      · rintro (_ | idToken) <;> trivial
    · trivial
  rintro more (refused | idToken) -
  · trivial
  · refine (harmless_issueRefreshToken _ _ _ _ _ _).seq ?_
    rintro more' (refused | refreshToken) - <;> trivial

theorem neverLooks_takeCode (code : String) : NeverLooks (takeCode code) := by
  unfold takeCode
  split
  · refine (NeverLooks.ask id).bind ?_
    rintro (e | data) <;> exact .pure _
  · exact .pure _

/-- `code_grant` looks nothing up. -/
theorem codeGrant_beforeIssue {client : OAuthClient} {form : TokenForm} (hcs : NoLookup cs) :
    (codeGrant P client form).Spec BeforeIssue (fun _ _ => True) cs := by
  unfold codeGrant
  split
  swap
  · trivial
  split
  swap
  · trivial
  refine ((harmless_takeCode _ cs).and ((neverLooks_takeCode _).frame cs)).mono
    (fun _ _ h => h.1) (fun _ _ h => h.2) |>.seq ?_
  rintro more (_ | grant) hframe
  · trivial
  have hcs' : NoLookup (cs ++ more) := fun c hc => (hframe c hc).elim (hcs c) id
  dsimp only
  split
  · trivial
  split
  · trivial
  split
  · trivial
  split
  · exact issueTokens_beforeIssue hcs'.inTime
  · trivial

/-- `refresh_grant` reads the clock before it issues anything. -/
theorem refreshGrant_beforeIssue {client : OAuthClient} {form : TokenForm} (hcs : NoLookup cs) :
    (refreshGrant P client form).Spec BeforeIssue (fun _ _ => True) cs := by
  unfold refreshGrant
  split
  swap
  · trivial
  refine ((harmless_refreshTokenByPlaintext _ cs).and
    (refreshTokenByPlaintext_reuse hcs)).mono (fun _ _ h => h.1) (fun _ _ h => h.2) |>.seq ?_
  rintro more (e | _ | row) hfound
  · trivial
  · trivial
  dsimp only
  split
  · trivial
  split
  · exact spec_ask.mpr ⟨trivial, fun _ => trivial⟩
  refine spec_ask.mpr ⟨trivial, fun now => ?_⟩
  split
  · trivial
  rename_i hlive
  split
  swap
  · trivial
  refine issueTokens_beforeIssue fun hash row' hdid => ?_
  rcases List.mem_append.mp hdid with hold | hnew
  · cases hfound hash row' hold
    exact ⟨now, did_last, not_le.mp fun hle => hlive (.inr hle)⟩
  · cases List.mem_singleton.mp hnew

theorem token_beforeIssue (form : TokenForm) :
    (token P form).Spec BeforeIssue (fun _ _ => True) [] := by
  refine ((harmless_authenticateClient form []).and
    ((neverLooks_authenticateClient form).frame [])).mono (fun _ _ h => h.1) (fun _ _ h => h.2)
    |>.seq ?_
  rintro more (e | client) hframe
  · trivial
  have hcs : NoLookup ([] ++ more) := fun c hc => (hframe c hc).elim (by rintro ⟨⟩) id
  dsimp only
  split
  · exact codeGrant_beforeIssue hcs
  split
  · exact refreshGrant_beforeIssue hcs
  · trivial

end Token

end Walks

/-- **What comes before a token.** -/
theorem handle_beforeIssue (r : Request) :
    (handle P r).Spec (fun cs o => BeforeIssue cs o) (fun _ _ => True) [] := by
  cases r with
  | authorize params => exact harmless_authorize params []
  | loginStart req email => exact harmless_loginStart req email []
  | loginFinish req ceremony credential => exact harmless_loginFinish req ceremony credential []
  | consentPage req auth => exact harmless_consentPage req auth []
  | consentSubmit req auth decision => exact harmless_consentSubmit req auth decision []
  | token form => exact token_beforeIssue form
  | revoke form => exact harmless_revoke form []
  | userinfo bearer => exact harmless_userinfo bearer []
  | enrollStart bearer => exact harmless_enrollStart bearer []
  | enrollFinish bearer sessionId deviceName credential =>
    exact harmless_enrollFinish bearer sessionId deviceName credential []
  | createClient | disableClient | revokeGrant | createToken | revokeFamily | disablePasskey
  | setAccounts | sweep | tick =>
    refine harmless_administer (fun _ => ?_) []
    trivial

/-! ## What is claimed -/

/-- The account is disabled. -/
def Blocked (w : OidcWorld) (a : AccountId) : Prop :=
  ∃ x ∈ w.db.accounts, x.id = a ∧ x.disabledAt ≠ none

/-- The call hands out a code or a token for the account. -/
def Issues (a : AccountId) (e : OidcEvent) : Prop :=
  match e.call with
  | ⟨.mintCode grant, _⟩ => AccountId.fromStr grant.accountId = some a
  | ⟨.createScopedToken a' .., .ok _⟩ => a' = a
  | ⟨.createRefreshToken a' .., .ok _⟩ => a' = a
  | ⟨.rotate oldHash .., .ok _⟩ =>
    ∃ r ∈ e.before.db.refreshTokens, r.tokenHash = oldHash ∧ r.accountId = a
  | ⟨.sign claims, some _⟩ => claims.sub = a.text
  | _ => False

variable (P) in
/-- **Disabled accounts cannot sign in.** A request that starts while the account is disabled
gets no code and no token of the account. -/
def DisabledOut (ms : List ProviderMove) : Prop :=
  ∀ before r rest, ms = before ++ .start r :: rest →
    ∀ a, Blocked (Provider.run P Provider.empty before).world a →
      ∀ e ∈ (Provider.run P Provider.empty ms).past,
        e.thread = (Provider.run P Provider.empty before).threads.length → ¬Issues a e

/-! ## When it holds -/

/-- The form names the client. -/
def TokenForm.Names (form : TokenForm) (c : OAuthClientId) : Prop :=
  ∃ text secret, form.presented = some (text, secret) ∧ OAuthClientId.fromStr text = some c

variable (P) in
/-- **What a request presents.** When the `i`-th request looks it up, it is the account's, it is
still good, and it is for this request. -/
inductive Presents (past : List OidcEvent) (i : ℕ) (a : AccountId) : Request → Prop where
  | ceremony {req ceremonyId : String} {response : PublicKeyCredential} {e : OidcEvent}
      {entry : ChallengeEntry Parked} {ceremony : LoginCeremony}
      (made : e ∈ past) (thread : e.thread = i) (op : e.call.op = .retrieve ceremonyId)
      (stored : entry ∈ e.before.challenges) (key : entry.key = ceremonyId)
      (inTime : e.before.now ≤ entry.expiresAt) (data : entry.data = .loginCeremony ceremony)
      (reqId : ceremony.reqId = req) (account : AccountId.fromStr ceremony.accountId = some a) :
      Presents past i a (.loginFinish req ceremonyId (some response))
  | marker {req auth text : String} {e : OidcEvent} {entry : ChallengeEntry Parked}
      (made : e ∈ past) (thread : e.thread = i) (op : e.call.op = .retrieve auth)
      (stored : entry ∈ e.before.challenges) (key : entry.key = auth)
      (inTime : e.before.now ≤ entry.expiresAt) (data : entry.data = .accountText text)
      (account : AccountId.fromStr text = some a) :
      Presents past i a (.consentSubmit req auth "approve")
  | code {form : TokenForm} {code verifier : String} {c : OAuthClientId} {e : OidcEvent}
      {entry : ChallengeEntry Parked} {grant : CodeGrant}
      (type : form.grantType = some "authorization_code") (named : form.code = some code)
      (pre : hasPrefix codePrefix code) (names : form.Names c) (made : e ∈ past)
      (thread : e.thread = i) (op : e.call.op = .retrieve code)
      (stored : entry ∈ e.before.challenges) (key : entry.key = code)
      (inTime : e.before.now ≤ entry.expiresAt) (data : entry.data = .codeGrant grant)
      (client_eq : grant.clientId = c.text)
      (redirect_eq : form.redirectUri = some grant.redirectUri)
      (verified : form.codeVerifier = some verifier)
      (pkce : P.sha256 verifier = grant.codeChallenge)
      (account : AccountId.fromStr grant.accountId = some a) :
      Presents past i a (.token form)
  | refresh {form : TokenForm} {token : String} {e e' : OidcEvent} {r : RefreshTokensRow}
      (type : form.grantType = some "refresh_token") (named : form.refreshToken = some token)
      (pre : hasPrefix refreshPrefix token) (names : form.Names r.clientId) (made : e ∈ past)
      (thread : e.thread = i) (op : e.call.op = .refreshByHash (P.blake3 token))
      (stored : r ∈ e.before.db.refreshTokens) (hash : r.tokenHash = P.blake3 token)
      (unused : r.usedAt = none) (unrevoked : r.revokedAt = none)
      (narrowed : narrowScopes form.scope (splitWhitespace r.scopes) ≠ none)
      -- the clock is read in a call of its own
      (made' : e' ∈ past) (thread' : e'.thread = i) (op' : e'.call.op = .timestamp)
      (inTime : e'.before.unix < r.expiresAt) (account : r.accountId = a) :
      Presents past i a (.token form)

variable (P) in
/-- No request that starts while an account is disabled presents anything of that account. -/
def NothingPresented (ms : List ProviderMove) : Prop :=
  ∀ before r rest, ms = before ++ .start r :: rest →
    ∀ a, Blocked (Provider.run P Provider.empty before).world a →
      ¬Presents P (Provider.run P Provider.empty ms).past
        (Provider.run P Provider.empty before).threads.length a r

/-! ## From a code or a token back to what was presented -/

theorem AccountId.text_injective : Function.Injective AccountId.text := by
  intro b c h
  have hparse := congrArg AccountId.fromStr h
  rwa [AccountId.fromStr_text, AccountId.fromStr_text, Option.some.injEq] at hparse

/-- `account` finds the account with the id. -/
theorem id_of_account {id : AccountId} {account : AccountsRow} (hat : OidcAt P pre e)
    (hcall : e.call = ⟨.account id, .ok (some account)⟩) : account.id = id := by
  have hexec := hat.possible
  rw [hcall] at hexec
  obtain ⟨-, ⟨_, herr⟩ | hok⟩ := OidcWorld.call_query (Option.some.inj hexec)
  · cases herr
  obtain ⟨x, hfind, rfl⟩ := Option.map_eq_some_iff.mp (Except.ok.inj hok).symm
  simpa using List.find?_some hfind

section Back

variable {s : Provider} {i : ℕ} {r : Request}
  (hs : s.Specified (OidcOp.exec P) (Before P) (Answered P) OidcWorld.empty)
  (hs' : s.Specified (OidcOp.exec P) (fun _ => BeforeIssue) (fun _ _ _ => True) OidcWorld.empty)
  (hreq : s.request i = some r)
include hs

/-- A call of the request, in the state in which it was made. -/
theorem made_of_did {pre post : List OidcEvent} {x : OidcEvent} {c : Call OidcOp.Ret}
    (hsplit : s.past = pre ++ x :: post) (hthread : x.thread = i)
    (hdid : c ∈ callsOf x.thread pre) :
    ∃ y ∈ s.past, y.thread = i ∧ y.call = c ∧ ∃ pre', OidcAt P pre' y := by
  obtain ⟨y, hy, hy', hcall⟩ := mem_callsOf.mp hdid
  have hmem : y ∈ s.past := hsplit ▸ List.mem_append_left _ hy
  obtain ⟨pre', -, -, hat⟩ := hs.past.exists_at hmem
  exact ⟨y, hmem, hy'.trans hthread, hcall, pre', hat⟩

include hreq

/-- A code is minted for the account of a ceremony or of a login marker. -/
theorem presents_of_code {grant : CodeGrant} {code : String} (he : e ∈ s.past)
    (hthread : e.thread = i) (hcall : e.call = ⟨.mintCode grant, code⟩)
    (haccount : AccountId.fromStr grant.accountId = some a) : Presents P s.past i a r := by
  obtain ⟨pre, post, hsplit, hat⟩ := hs.past.exists_at he
  have hguard := hat.guard
  rw [hcall, req_of_thread hs hreq he hthread] at hguard
  rcases hguard with
    ⟨req, ceremonyId, response, ceremony, request, -, -, -, rfl, hpassed, rfl, -⟩ |
    ⟨req, auth, text, accountId, clientId, request, rfl, hgiven, rfl, -⟩
  · obtain ⟨y, hy, hy', hcall', pre', hat'⟩ := made_of_did hs hsplit hthread hpassed.retrieved
    obtain ⟨entry, hentry, hkey, hdata, htime⟩ := entry_of_retrieve hat' hcall'
    exact .ceremony hy hy' (by rw [hcall']) hentry hkey htime hdata hpassed.reqId haccount
  · obtain ⟨data, hdid, hread⟩ := hgiven.marker
    obtain ⟨rfl, -⟩ := Parked.asAccount_eq_some.mp hread
    obtain ⟨y, hy, hy', hcall', pre', hat'⟩ := made_of_did hs hsplit hthread hdid
    obtain ⟨entry, hentry, hkey, hdata, htime⟩ := entry_of_retrieve hat' hcall'
    exact .marker hy hy' (by rw [hcall']) hentry hkey htime hdata haccount

include hs' in
/-- An access token is minted for the account of a code or of a refresh token. -/
theorem presents_of_token {name : String} {scopes : List String} {expiresAt : ℤ}
    {c : OAuthClientId} {minted : String × String} (he : e ∈ s.past) (hthread : e.thread = i)
    (hcall : e.call = ⟨.createScopedToken a name scopes expiresAt c, .ok minted⟩) :
    Presents P s.past i a r := by
  obtain ⟨pre, post, hsplit⟩ := List.append_of_mem he
  have hat := hs.past.at_of_split hsplit
  have hguard := hat.guard
  rw [hcall, req_of_thread hs hreq he hthread] at hguard
  obtain ⟨form, client, source, rfl, -, hpassed, hredeems⟩ := hguard
  have hnames : form.Names client.id := hpassed.presented hat.earlier
  cases hredeems with
  | code type named pre taken client_eq redirect_eq verified pkce account =>
    obtain ⟨y, hy, hy', hcall', pre', hat'⟩ := made_of_did hs hsplit hthread taken
    obtain ⟨entry, hentry, hkey, hdata, htime⟩ := entry_of_retrieve hat' hcall'
    exact .code type named pre hnames hy hy' (by rw [hcall']) hentry hkey htime hdata client_eq
      redirect_eq verified pkce account
  | refresh type named pre found client_eq unused unrevoked narrowed =>
    obtain ⟨y, hy, hy', hcall', pre', hat'⟩ := made_of_did hs hsplit hthread found
    obtain ⟨row, hrow, hhash, rfl⟩ := row_of_lookup hat' hcall'
    -- tokens are issued after the clock was read, before the expiry
    have htime := (hs'.past.at_of_split hsplit).guard
    rw [hcall] at htime
    obtain ⟨now, hdid, hlt⟩ := htime _ _ found
    obtain ⟨z, hz, hz', hcallz, pre'', hatz⟩ := made_of_did hs hsplit hthread hdid
    have hexec := hatz.possible
    rw [hcallz] at hexec
    obtain ⟨rfl, -⟩ := Prod.mk.inj (Option.some.inj hexec)
    have hclient : row.clientId = client.id := client_eq
    rw [← hclient] at hnames
    exact .refresh type named pre hnames hy hy' (by rw [hcall']) hrow hhash unused unrevoked
      (by rw [show splitWhitespace row.scopes = row.toRefresh.scopes from rfl, narrowed]; simp)
      hz hz' (by rw [hcallz]) hlt rfl

include hs' in
/-- **What is issued was presented.** -/
theorem presents_of_issues (he : e ∈ s.past) (hthread : e.thread = i) (h : Issues a e) :
    Presents P s.past i a r := by
  obtain ⟨pre, post, hsplit⟩ := List.append_of_mem he
  have hat := hs.past.at_of_split hsplit
  have hguard := hat.guard
  rw [req_of_thread hs hreq he hthread] at hguard
  -- every token goes with an access token that was minted for the same account
  have hminted : ∀ {name scopes expiresAt c minted},
      Did (callsOf e.thread pre) (.createScopedToken a name scopes expiresAt c) (.ok minted) →
        Presents P s.past i a r := by
    intro name scopes expiresAt c minted hdid
    obtain ⟨y, hy, hy', hcall', -⟩ := made_of_did hs hsplit hthread hdid
    exact presents_of_token hs hs' hreq hy hy' hcall'
  rw [Issues] at h
  split at h
  · rename_i grant code hcall
    exact presents_of_code hs hreq he hthread hcall h
  · rename_i a' name scopes expiresAt c minted hcall
    subst h
    exact presents_of_token hs hs' hreq he hthread hcall
  · rename_i a' c scopes access expiresAt token hcall
    subst h
    rw [hcall] at hguard
    obtain ⟨form, client, code, grant, tok, hash, rfl, rfl, -, -, -, name, expiresAt', hdid⟩ :=
      hguard
    exact hminted hdid
  · rename_i oldHash access expiresAt token hcall
    obtain ⟨old, hold, hhash, rfl⟩ := h
    rw [hcall] at hguard
    obtain ⟨form, client, row, scopes, tok, hash, rfl, rfl, -, -, hentitled, name, expiresAt',
      hdid⟩ := hguard
    obtain ⟨-, hredeems⟩ := hentitled
    generalize haccount : row.accountId = b at hredeems hdid
    cases hredeems with
    | refresh type named pre found =>
      obtain ⟨r₀, r', hr', hhash', rfl, hlater⟩ := row_later_of_refreshByHash hat.earlier found
      have hkey : old.tokenHash = r'.tokenHash := hhash.trans hlater.tokenHash.symm
      obtain rfl := refresh_eq_of_hash hat.earlier hold hr' hkey
      rw [hlater.accountId] at hminted ⊢
      exact hminted hdid
  · rename_i claims token hcall
    have hsign := (hs'.past.at_of_split hsplit).guard
    rw [hcall] at hsign
    obtain ⟨accountId, name, scopes, expiresAt, c, minted, account, hdid, hfound, hsub⟩ := hsign
    obtain ⟨y, -, -, hcall', pre', hat'⟩ := made_of_did hs hsplit hthread hfound
    rw [id_of_account hat' hcall', h] at hsub
    obtain rfl := AccountId.text_injective hsub
    exact hminted hdid
  · exact h.elim

end Back

/-- **Disabled accounts get nothing** from requests that present nothing of theirs. -/
theorem disabledOut (P : Oidc) (ms : List ProviderMove) (h : NothingPresented P ms) :
    DisabledOut P ms := by
  rintro before r rest rfl a hblocked e he hthread hissues
  refine h before r rest rfl a hblocked ?_
  have hs := Provider.run_specified (P := P) (before ++ .start r :: rest)
  have hs' : (Provider.run P Provider.empty (before ++ .start r :: rest)).Specified
      (OidcOp.exec P) (fun _ => BeforeIssue) (fun _ _ _ => True) OidcWorld.empty :=
    run_specified (fun r => handle_beforeIssue r) _ specified_init
  refine presents_of_issues hs hs' ?_ he hthread hissues
  rw [Provider.run, Runs.run_append]
  exact request_started _ _ _ _ _

/-! ### A disabled account -/

/-- The account of the samples is disabled. -/
def disableSample : Request :=
  .setAccounts [⟨⟨sampleAccount, "alice@example.com", none, 0⟩, some 0⟩]

/-- The account is disabled, and then somebody tries to log in to it. -/
def loginRefused : List ProviderMove :=
  setUp ++ serve 5 disableSample (plain 1) ++
  serve 6 sampleAuthorize (plain 1 ++ [{ uuid := 12 }]) ++
  serve 7 (.loginStart (12 : Uuid).toString "alice@example.com") (plain 2)

/-- The request presents a ceremony, a login marker, a code or a refresh token. -/
def Request.MayPresent : Request → Bool
  | .loginFinish .. | .consentSubmit .. | .token _ => true
  | _ => false

theorem disabledOut_loginRefused :
    (Provider.run sampleOidc Provider.empty loginRefused).answer 7 =
      some (.jsonError 400 "no passkey for that account") ∧
    DisabledOut sampleOidc loginRefused := by
  have hrun : (Provider.run sampleOidc Provider.empty loginRefused).answer 7 =
        some (.jsonError 400 "no passkey for that account") ∧
      ∀ m ∈ loginRefused, (match m with | .start r => r.MayPresent | .call .. => false) = false := by
    decide +kernel
  refine ⟨hrun.1, disabledOut sampleOidc loginRefused ?_⟩
  intro before r rest hsplit a _ hpresents
  have hnone := hrun.2 (.start r) (hsplit ▸ by simp)
  cases hpresents <;> cases hnone

/-- The account is disabled while the code is parked, and the code is exchanged. -/
def codeOutlivesAccount : List ProviderMove :=
  codeLogin ++ serve 9 disableSample (plain 1)

/-- The calls of the exchange. -/
def exchangeChoices : List Choice :=
  plain 4 ++ [{ secret := 3 }] ++ plain 3 ++ [{ uuid := 16, secret := 4 }]

/-- The call makes a device token for the account. -/
def MintsDevice (a : AccountId) (e : OidcEvent) : Bool :=
  match e.call with
  | ⟨.createScopedToken a' .., .ok _⟩ => decide (a' = a)
  | _ => false

theorem not_disabledOut_codeOutlivesAccount :
    ¬DisabledOut sampleOidc
      (codeOutlivesAccount ++ serve 10 (.token codeForm) exchangeChoices) := by
  have hrun : (Provider.run sampleOidc Provider.empty codeOutlivesAccount).threads.length = 10 ∧
      ((Provider.run sampleOidc Provider.empty codeOutlivesAccount).world.db.accounts.any fun x =>
        x.id = sampleAccount ∧ x.disabledAt ≠ none) = true ∧
      ((Provider.run sampleOidc Provider.empty
        (codeOutlivesAccount ++ serve 10 (.token codeForm) exchangeChoices)).past.any fun e =>
          e.thread = 10 ∧ MintsDevice sampleAccount e = true) = true := by
    decide +kernel
  obtain ⟨hlength, hblocked, hissued⟩ := hrun
  intro h
  obtain ⟨x, hx, hoff⟩ := List.any_eq_true.mp hblocked
  obtain ⟨e, he, hmint⟩ := List.any_eq_true.mp hissued
  obtain ⟨hthread, hcall⟩ := of_decide_eq_true hmint
  refine h codeOutlivesAccount _ _ rfl sampleAccount ⟨x, hx, of_decide_eq_true hoff⟩ e he
    (hthread.trans hlength.symm) ?_
  rw [MintsDevice] at hcall
  rw [Issues]
  split at hcall
  · rename_i a name scopes expiresAt c minted hmade
    rw [hmade]
    exact of_decide_eq_true hcall
  · cases hcall

end Owney
