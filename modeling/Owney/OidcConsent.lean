import Owney.OidcCodes

/-!
# Consent and login

A code is to be minted for a parked request only after a passkey ceremony that was started
for that very request. `login_finish` checks the request its ceremony was started for, but
the login marker it parks has the account id only, so `consent_submit` takes the marker of
one request together with another request. Both also read a code where a parked request is
meant, since a code's JSON has all fields of a request. `ConsentBound` holds in every run
without these two.
-/

namespace Owney

open Programs ChallengeStore Parked

variable {P : Oidc} {past pre post : List OidcEvent} {w : OidcWorld} {e : OidcEvent}

/-! ## What a code stands for -/

/-- The request was validated by `authorize` and parked under the id. -/
def ParkedRequest (past : List OidcEvent) (q : String) (request : AuthRequest) : Prop :=
  ∃ e ∈ past, ∃ params ttl, e.req = .authorize params ∧
    e.call = ⟨.storeWithTtl (.authRequest request) ttl, q⟩

/-- A passkey ceremony of the account that was started for the parked request succeeded. -/
def LoggedIn (past : List OidcEvent) (q accountId : String) : Prop :=
  ∃ start ∈ past, ∃ email auth ttl ceremonyId, start.req = .loginStart q email ∧
    start.call = ⟨.storeWithTtl (.loginCeremony ⟨q, accountId, auth⟩) ttl, ceremonyId⟩ ∧
    ∃ finish ∈ past, ∃ response result, finish.req = .loginFinish q ceremonyId (some response) ∧
      finish.call = ⟨.finishAuthentication response auth, some result⟩ ∧
      LoginSigned (callsOf finish.thread past) response ⟨q, accountId, auth⟩ result

/-- The code stands for a parked request that its account logged in for. -/
def Bound (past : List OidcEvent) (grant : CodeGrant) : Prop :=
  ∃ q request, ParkedRequest past q request ∧ grant = request.grant grant.accountId ∧
    LoggedIn past q grant.accountId

/-- Every code that was minted stands for a parked request its account logged in for. -/
def ConsentBound (s : Provider) : Prop :=
  Steps (fun pre e => ∀ grant code, e.call = ⟨.mintCode grant, code⟩ → Bound pre grant) s.past

/-! ## The two conditions -/

/-- An approved consent comes with a login marker that was parked for the request it names. -/
def OwnMarker (pre : List OidcEvent) (e : OidcEvent) : Prop :=
  match e.req, e.call.op with
  | .consentSubmit req auth "approve", .retrieve id => id = auth →
    ∀ e' ∈ pre, match e'.req, e'.call with
      | .loginFinish q _ _, ⟨.storeWithTtl _ _, key⟩ => key = auth → q = req
      | _, _ => True
  | _, _ => True

/-- The request that a login or an approved consent names is not a code. -/
def NotACode (pre : List OidcEvent) (e : OidcEvent) : Prop :=
  match e.req, e.call.op with
  | .loginFinish _ _ _, .peek id | .consentSubmit _ _ "approve", .peek id =>
    ∀ e' ∈ pre, match e'.call with
      | ⟨.mintCode _, code⟩ => code ≠ id
      | _ => True
  | _, _ => True

instance (pre : List OidcEvent) (e : OidcEvent) : Decidable (OwnMarker pre e) := by
  unfold OwnMarker
  split
  · refine @instDecidableForall _ _ _ (@List.decidableBAll _ _ ?_ _)
    intro e'
    dsimp only
    split <;> infer_instance
  · infer_instance

instance (pre : List OidcEvent) (e : OidcEvent) : Decidable (NotACode pre e) := by
  unfold NotACode
  split
  · refine @List.decidableBAll _ _ ?_ _
    intro e'
    dsimp only
    split <;> infer_instance
  · refine @List.decidableBAll _ _ ?_ _
    intro e'
    dsimp only
    split <;> infer_instance
  · infer_instance

/-! ## From the code back to the login -/

/-- What is no code was parked by `store_with_ttl`. -/
theorem stored_of_parkedBy {entry : ChallengeEntry Parked} {data : Parked} (h : OidcPast P past w)
    (hparked : ParkedBy past entry) (hdata : entry.data = data)
    (hcode : ∀ grant, data ≠ .codeGrant grant) :
    ∃ pre e post ttl, past = pre ++ e :: post ∧ e.call = ⟨.storeWithTtl data ttl, entry.key⟩ ∧
      BeforePark e.req (callsOf e.thread pre) data := by
  obtain ⟨e, he, ⟨data', ttl, hcall, hentry⟩ | ⟨grant, secret, -, -, hentry⟩⟩ := hparked
  · obtain ⟨pre, post, hsplit, hat⟩ := h.exists_at he
    have hguard := hat.guard
    obtain rfl : data' = data := by rw [← hdata, hentry]
    rw [hcall] at hguard
    exact ⟨pre, e, post, ttl, hsplit, hcall, hguard⟩
  · rw [hentry] at hdata
    exact absurd hdata.symm (hcode grant)

/-- A ceremony was parked by the `login_start` of its request. -/
theorem start_of_retrieve {i : ℕ} {ceremonyId : String} {ceremony : LoginCeremony}
    (h : OidcPast P past w)
    (hdid : Did (callsOf i past) (.retrieve ceremonyId) (.ok (.loginCeremony ceremony))) :
    ∃ start ∈ past, ∃ email ttl, start.req = .loginStart ceremony.reqId email ∧
      start.call = ⟨.storeWithTtl (.loginCeremony ceremony) ttl, ceremonyId⟩ := by
  obtain ⟨e, he, -, hcall⟩ := mem_callsOf.mp hdid
  obtain ⟨pre, post, entry, rfl, hparked, rfl, hdata, -⟩ := parked_of_retrieve h he hcall
  obtain ⟨pre', start, post', ttl, rfl, hstart, email, account, credentials, hreq, -⟩ :=
    stored_of_parkedBy (h.at_of_split rfl).earlier hparked hdata (by simp)
  exact ⟨start, by simp, email, ttl, hreq, hstart⟩

/-- A request that resolves a parked request into a code. -/
def Resolves (r : Request) : Prop :=
  (∃ req ceremonyId credential, r = .loginFinish req ceremonyId credential) ∨
    ∃ req auth, r = .consentSubmit req auth "approve"

theorem NotACode.ne {id : String} {bytes : Option Parked} (h : NotACode pre e)
    (hreq : Resolves e.req) (hcall : e.call = ⟨.peek id, bytes⟩) :
    ∀ e' ∈ pre, ∀ grant, e'.call ≠ ⟨.mintCode grant, id⟩ := by
  intro e' he' grant hmint
  rcases hreq with ⟨req, ceremonyId, credential, hreq⟩ | ⟨req, auth, hreq⟩
  · simp only [NotACode, hreq, hcall] at h
    have hne := h e' he'
    rw [hmint] at hne
    exact hne rfl
  · simp only [NotACode, hreq, hcall] at h
    have hne := h e' he'
    rw [hmint] at hne
    exact hne rfl

/-- A parked request that is no code was validated by `authorize`. -/
theorem parkedRequest_of_peek {i : ℕ} {req : String} {bytes : Parked} {request : AuthRequest}
    (h : OidcPast P past w) (hcode : Steps NotACode past)
    (hreq : ∀ e ∈ past, e.thread = i → Resolves e.req)
    (hdid : Did (callsOf i past) (.peek req) (some bytes))
    (hread : bytes.asAuthRequest = some request) : ParkedRequest past req request := by
  obtain ⟨e, he, hthread, hcall⟩ := mem_callsOf.mp hdid
  obtain ⟨pre, post, entry, rfl, hparked, rfl, hdata, -⟩ := parked_of_peek h he hcall
  have hpast := (h.at_of_split rfl).earlier
  rcases asAuthRequest_eq_some hread with rfl | ⟨grant, rfl⟩
  · obtain ⟨pre', park, post', ttl, rfl, hpark, params, id, client, hparkreq, -⟩ :=
      stored_of_parkedBy hpast hparked hdata (by simp)
    exact ⟨park, by simp, params, ttl, hparkreq, hpark⟩
  · obtain ⟨mint, hmint, hparks⟩ := hparked
    exact absurd (minted_of_parks hpast hmint hparks hdata).1
      ((hcode pre e post rfl).ne (hreq e he hthread) hcall mint hmint grant)

/-- A login that passed, passed for the request its ceremony was started for. -/
theorem loggedIn_of_passed {i : ℕ} {req ceremonyId : String} {response : PublicKeyCredential}
    {ceremony : LoginCeremony} {request : AuthRequest} (h : OidcPast P past w)
    (hreq : ∀ e ∈ past, e.thread = i → e.req = .loginFinish req ceremonyId (some response))
    (hpassed : LoginPassed (callsOf i past) req ceremonyId response ceremony request) :
    LoggedIn past req ceremony.accountId := by
  obtain ⟨hretrieved, rfl, -, result, hsigned⟩ := hpassed
  obtain ⟨start, hstart, email, ttl, hstartreq, hstartcall⟩ := start_of_retrieve h hretrieved
  obtain ⟨finish, hfinish, rfl, hfinishcall⟩ := mem_callsOf.mp hsigned.signed
  exact ⟨start, hstart, email, ceremony.auth, ttl, ceremonyId, hstartreq, hstartcall, finish,
    hfinish, response, result, hreq finish hfinish rfl, hfinishcall, hsigned⟩

/-- What happened stays so. -/
theorem LoggedIn.append {q accountId : String} (h : LoggedIn pre q accountId) :
    LoggedIn (pre ++ post) q accountId := by
  obtain ⟨start, hstart, email, auth, ttl, ceremonyId, hreq, hcall, finish, hfinish, response,
    result, hfreq, hfcall, hsigned⟩ := h
  refine ⟨start, List.mem_append_left _ hstart, email, auth, ttl, ceremonyId, hreq, hcall, finish,
    List.mem_append_left _ hfinish, response, result, hfreq, hfcall, ?_⟩
  rw [callsOf_append]
  exact hsigned.append

theorem OwnMarker.eq {req auth q ceremonyId : String} {credential : Option PublicKeyCredential}
    {res : Except String Parked} {data : Parked} {ttl : ℤ} {e' : OidcEvent} (h : OwnMarker pre e)
    (hreq : e.req = .consentSubmit req auth "approve") (hcall : e.call = ⟨.retrieve auth, res⟩)
    (he' : e' ∈ pre) (hreq' : e'.req = .loginFinish q ceremonyId credential)
    (hcall' : e'.call = ⟨.storeWithTtl data ttl, auth⟩) : q = req := by
  simp only [OwnMarker, hreq, hcall] at h
  have hown := h trivial e' he'
  rw [hreq', hcall'] at hown
  exact hown rfl

/-- A login marker was parked by a `login_finish` that passed for the same request. -/
theorem loggedIn_of_marker {i : ℕ} {req auth text : String} {accountId : AccountId} {data : Parked}
    (h : OidcPast P past w) (hmarker : Steps OwnMarker past)
    (hreq : ∀ e ∈ past, e.thread = i → e.req = .consentSubmit req auth "approve")
    (hdid : Did (callsOf i past) (.retrieve auth) (.ok data))
    (hread : data.asAccount = some (text, accountId)) : LoggedIn past req text := by
  obtain ⟨e, he, hthread, hcall⟩ := mem_callsOf.mp hdid
  obtain ⟨rfl, -⟩ := asAccount_eq_some.mp hread
  obtain ⟨pre, post, entry, rfl, hparked, rfl, hdata, -⟩ := parked_of_retrieve h he hcall
  have hpast := (h.at_of_split rfl).earlier
  obtain ⟨pre', park, post', ttl, rfl, hpark, q, ceremonyId, response, ceremony, request, hparkreq,
    hpassed, rfl⟩ := stored_of_parkedBy hpast hparked hdata (by simp)
  have hat := hpast.at_of_split rfl
  have hlogged := loggedIn_of_passed hat.earlier
    (fun x hx hx' => (hat.same x hx hx').trans hparkreq) hpassed
  obtain rfl : q = req :=
    (hmarker _ e post rfl).eq (hreq e he hthread) hcall (by simp) hparkreq hpark
  rw [List.append_assoc]
  exact hlogged.append

/-! ## Consent is bound to the login -/

/-- **One code.** -/
theorem bound_of_mint {grant : CodeGrant} {code : String} (h : OidcPast P past w)
    (hsplit : past = pre ++ e :: post) (hcall : e.call = ⟨.mintCode grant, code⟩)
    (hmarker : Steps OwnMarker pre) (hcode : Steps NotACode pre) : Bound pre grant := by
  have hat := h.at_of_split hsplit
  have hguard := hat.guard
  rw [hcall] at hguard
  rcases hguard with ⟨req, ceremonyId, response, ceremony, request, accountId, clientId, consent,
    hreq, hpassed, rfl, -⟩ | ⟨req, auth, text, accountId, clientId, request, hreq,
    ⟨⟨data, hdata, hread⟩, ⟨bytes, hbytes, hrequest⟩, -⟩, rfl, -⟩
  · have hsame : ∀ x ∈ pre, x.thread = e.thread → x.req = .loginFinish req ceremonyId (some response) :=
      fun x hx hthread => (hat.same x hx hthread).trans hreq
    obtain ⟨bytes, hbytes, hrequest⟩ := hpassed.parked
    refine ⟨req, request, ?_, rfl, loggedIn_of_passed hat.earlier hsame hpassed⟩
    exact parkedRequest_of_peek hat.earlier hcode
      (fun x hx hthread => .inl ⟨_, _, _, hsame x hx hthread⟩) hbytes hrequest
  · have hsame : ∀ x ∈ pre, x.thread = e.thread → x.req = .consentSubmit req auth "approve" :=
      fun x hx hthread => (hat.same x hx hthread).trans hreq
    refine ⟨req, request, ?_, rfl, loggedIn_of_marker hat.earlier hmarker hsame hdata hread⟩
    exact parkedRequest_of_peek hat.earlier hcode
      (fun x hx hthread => .inr ⟨_, _, hsame x hx hthread⟩) hbytes hrequest

/-- **Consent is bound to the login** in every run in which an approved consent comes with
the login marker of its own request, and no code is given for a request. -/
theorem consentBound (P : Oidc) (ms : List ProviderMove)
    (hmarker : Steps OwnMarker (Provider.run P Provider.empty ms).past)
    (hcode : Steps NotACode (Provider.run P Provider.empty ms).past) :
    ConsentBound (Provider.run P Provider.empty ms) := by
  intro pre e post hsplit grant code hcall
  have hpast := (Provider.run_specified (P := P) ms).past
  rw [hsplit] at hmarker hcode
  exact bound_of_mint hpast hsplit hcall hmarker.of_append hcode.of_append

theorem consentBound_codeLogin :
    (Provider.run sampleOidc Provider.empty codeLogin).answer 8 =
      some (.redirect "https://app.example/cb" [("code", secretText codePrefix 2)]) ∧
    ConsentBound (Provider.run sampleOidc Provider.empty codeLogin) :=
  ⟨by decide +kernel, consentBound sampleOidc codeLogin (by decide +kernel) (by decide +kernel)⟩

/-! ### A marker for another request -/

/-- A login was started for a parked request with the scopes of the code. -/
def LoginStarted (past : List OidcEvent) (grant : CodeGrant) : Prop :=
  ∃ park ∈ past, match park.call with
    | ⟨.storeWithTtl (.authRequest request) _, q⟩ => request.scopes = grant.scopes ∧
      ∃ start ∈ past, match start.req with
        | .loginStart q' _ => q' = q
        | _ => False
    | _ => False

theorem Bound.loginStarted {grant : CodeGrant} (h : Bound pre grant) :
    LoginStarted (pre ++ post) grant := by
  obtain ⟨q, request, ⟨park, hpark, params, ttl, -, hcall⟩, hgrant, start, hstart, email, -, -, -,
    hreq, -⟩ := h
  refine ⟨park, List.mem_append_left _ hpark, ?_⟩
  rw [hcall]
  refine ⟨by rw [hgrant]; rfl, start, List.mem_append_left _ hstart, ?_⟩
  rw [hreq]

instance (past : List OidcEvent) (grant : CodeGrant) : Decidable (LoginStarted past grant) := by
  refine @List.decidableBEx _ _ ?_ _
  intro park
  dsimp only
  split
  · refine @instDecidableAnd _ _ _ (@List.decidableBEx _ _ ?_ _)
    intro start
    dsimp only
    split <;> infer_instance
  · infer_instance

/-- What the codes minted so far stand for. -/
def mintedGrants (past : List OidcEvent) : List CodeGrant :=
  past.filterMap fun e => match e.call with
    | ⟨.mintCode grant, _⟩ => some grant
    | _ => none

theorem ConsentBound.loginStarted {s : Provider} (h : ConsentBound s) :
    ∀ grant ∈ mintedGrants s.past, LoginStarted s.past grant := by
  intro grant hgrant
  obtain ⟨e, he, hmint⟩ := List.mem_filterMap.mp hgrant
  obtain ⟨pre, post, hsplit⟩ := List.append_of_mem he
  split at hmint
  · rename_i grant' code hcall
    obtain rfl := Option.some.inj hmint
    rw [hsplit]
    exact (h pre e post hsplit grant' code hcall).loginStarted
  · cases hmint

/-- The authorization request of the samples, for the user's mail. -/
def mailAuthorize : Request :=
  .authorize ⟨some "code", some sampleClient.text, some "https://app.example/cb",
    some "openid owney:mail", none, none, some "verifier", some "S256"⟩

/-- Two authorization requests of one browser: the login is for the first, and its marker
goes with the second to the consent form. -/
def mixedConsent : List ProviderMove :=
  setUp ++
  serve 5 sampleAuthorize (plain 1 ++ [{ uuid := 12 }]) ++
  serve 6 mailAuthorize (plain 1 ++ [{ uuid := 17 }]) ++
  serve 7 (.loginStart (12 : Uuid).toString "alice@example.com")
    (plain 3 ++ [{ uuid := 13 }, { uuid := 14 }]) ++
  serve 8 (.loginFinish (12 : Uuid).toString (14 : Uuid).toString (some ⟨[1], 5, 13, []⟩))
    (plain 6 ++ [{ uuid := 15 }]) ++
  serve 9 (.consentSubmit (17 : Uuid).toString (15 : Uuid).toString "approve")
    (plain 4 ++ [{ secret := 2 }])

theorem not_consentBound_mixedConsent :
    ¬ConsentBound (Provider.run sampleOidc Provider.empty mixedConsent) := by
  intro h
  exact absurd h.loginStarted (by decide +kernel)

end Owney
