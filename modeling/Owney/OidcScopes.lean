import Owney.OidcTables

/-!
# Scopes

Scopes go from an authorization request through a parked request, a consent, a code, the
tokens and down-scoped refreshes, as lists and as texts. `ScopesApproved` says of each of
these places that what is in it was approved for its account and client by a consent form;
every call keeps it. A list that is stored as a text is read back as it was, since its
members are words.
-/

namespace Owney

open Programs Tables ChallengeStore Parked

variable {P : Oidc} {past pre mid post : List OidcEvent} {w w' : OidcWorld} {e : OidcEvent}

/-! ## Approval -/

/-- The scope was approved for the account and the client through `consent_submit`. -/
def Approved (past : List OidcEvent) (accountId : AccountId) (clientId : OAuthClientId)
    (scope : String) : Prop :=
  ∃ e ∈ past, ∃ req auth scopes, e.req = .consentSubmit req auth "approve" ∧
    e.call = ⟨.upsertGrant accountId clientId scopes, .ok ()⟩ ∧ scope ∈ scopes

theorem Approved.mono {accountId : AccountId} {clientId : OAuthClientId} {scope : String}
    (h : Approved pre accountId clientId scope) (hsub : pre ⊆ past) :
    Approved past accountId clientId scope := by
  obtain ⟨e, he, hrest⟩ := h
  exact ⟨e, hsub he, hrest⟩

/-- Every scope list and scope text has approved scopes only. -/
structure ScopesApproved (past : List OidcEvent) (w : OidcWorld) : Prop where
  words : ∀ entry ∈ w.challenges, ∀ request, entry.data.asAuthRequest = some request →
    ∀ s ∈ request.scopes, IsWord s
  codes : ∀ entry ∈ w.challenges, ∀ grant accountId clientId, entry.data = .codeGrant grant →
    AccountId.fromStr grant.accountId = some accountId →
    OAuthClientId.fromStr grant.clientId = some clientId →
    ∀ s ∈ grant.scopes, Approved past accountId clientId s
  grants : ∀ row ∈ w.db.grants, ∀ s ∈ splitWhitespace row.scopes,
    Approved past row.accountId row.clientId s
  refresh : ∀ row ∈ w.db.refreshTokens, ∀ s ∈ splitWhitespace row.scopes,
    Approved past row.accountId row.clientId s
  access : ∀ row ∈ w.db.appPasswords, ∀ text, row.scopes = some text →
    ∃ clientId, row.oauthClientId = some clientId ∧
      ∀ s ∈ splitWhitespace text, Approved past row.accountId clientId s

theorem ScopesApproved.empty : ScopesApproved [] OidcWorld.empty :=
  ⟨fun _ h => (nomatch h), fun _ h => (nomatch h), fun _ h => (nomatch h), fun _ h => (nomatch h),
    fun _ h => (nomatch h)⟩

/-! ## What was read -/

/-- Down-scoping only takes away. -/
theorem narrowScopes_subset {requested : Option String} {granted scopes : List String}
    (h : narrowScopes requested granted = some scopes) : ∀ s ∈ scopes, s ∈ granted := by
  unfold narrowScopes at h
  split at h
  · split at h
    · rename_i hall
      obtain rfl := Option.some.inj h
      exact hall
    · cases h
  · obtain rfl := Option.some.inj h
    exact fun _ hs => hs

section Read

-- The scopes were approved at all times before.
variable (hall : ∀ pre x post, past = pre ++ x :: post → ScopesApproved pre x.before)
include hall

/-- The scopes of a request that was peeked at are words. -/
theorem words_of_peek {i : ℕ} {req : String} {bytes : Parked} {request : AuthRequest}
    (h : OidcPast P past w) (hdid : Did (callsOf i past) (.peek req) (some bytes))
    (hread : bytes.asAuthRequest = some request) : ∀ s ∈ request.scopes, IsWord s := by
  obtain ⟨e, he, -, hcall⟩ := mem_callsOf.mp hdid
  obtain ⟨pre, post, hsplit, hat⟩ := h.exists_at he
  obtain ⟨entry, hentry, -, rfl, -⟩ := entry_of_peek hat hcall
  exact (hall pre e post hsplit).words entry hentry request hread

/-- The scopes of a code that was taken are approved words. -/
theorem approved_of_code {i : ℕ} {code : String} {grant : CodeGrant} {accountId : AccountId}
    {clientId : OAuthClientId} (h : OidcPast P past w)
    (hdid : Did (callsOf i past) (.retrieve code) (.ok (.codeGrant grant)))
    (haccount : AccountId.fromStr grant.accountId = some accountId)
    (hclient : OAuthClientId.fromStr grant.clientId = some clientId) :
    ∀ s ∈ grant.scopes, IsWord s ∧ Approved past accountId clientId s := by
  obtain ⟨e, he, -, hcall⟩ := mem_callsOf.mp hdid
  obtain ⟨pre, post, hsplit, hat⟩ := h.exists_at he
  obtain ⟨entry, hentry, -, hdata, -⟩ := entry_of_retrieve hat hcall
  have hinv := hall pre e post hsplit
  intro s hs
  refine ⟨hinv.words entry hentry _ (by rw [hdata]; rfl) s hs, ?_⟩
  refine (hinv.codes entry hentry grant accountId clientId hdata haccount hclient s hs).mono ?_
  rw [hsplit]
  exact List.subset_append_left _ _

/-- The scopes of a refresh token that was found are approved words. -/
theorem approved_of_row {i : ℕ} {hash : String} {row : RefreshTokenRow} (h : OidcPast P past w)
    (hdid : Did (callsOf i past) (.refreshByHash hash) (.ok (some row))) :
    ∀ s ∈ row.scopes, IsWord s ∧ Approved past row.accountId row.clientId s := by
  obtain ⟨pre, e, post, r, hsplit, -, hr, -, rfl⟩ := row_of_refreshByHash h hdid
  intro s hs
  refine ⟨isWord_of_mem_splitWhitespace hs, ?_⟩
  refine ((hall pre e post hsplit).refresh r hr s hs).mono ?_
  rw [hsplit]
  exact List.subset_append_left _ _

/-- The scopes of a consent that was found are approved. -/
theorem approved_of_grant {i : ℕ} {accountId : AccountId} {clientId : OAuthClientId}
    {consent : OAuthGrant} (h : OidcPast P past w)
    (hdid : Did (callsOf i past) (.oauthGrant accountId clientId) (.ok (some consent))) :
    ∀ s ∈ consent.scopes, Approved past accountId clientId s := by
  obtain ⟨e, he, -, hcall⟩ := mem_callsOf.mp hdid
  obtain ⟨pre, post, hsplit, hat⟩ := h.exists_at he
  obtain ⟨row, hrow, rfl, rfl, hscopes⟩ := row_of_oauthGrant hat hcall
  intro s hs
  refine ((hall pre e post hsplit).grants row hrow s (hscopes ▸ hs)).mono ?_
  rw [hsplit]
  exact List.subset_append_left _ _

/-- Whoever may exchange something for tokens, may do so for approved words only. -/
theorem approved_of_entitled {i : ℕ} {form : TokenForm} {client : OAuthClient}
    {source : TokenSource} {accountId : AccountId} {scopes : List String} (h : OidcPast P past w)
    (hentitled : Entitled P form (callsOf i past) client source accountId scopes) :
    ∀ s ∈ scopes, IsWord s ∧ Approved past accountId client.id s := by
  obtain ⟨-, hredeems⟩ := hentitled
  cases hredeems with
  | code _ _ _ taken client_eq _ _ _ account =>
    exact approved_of_code hall h taken account (by rw [client_eq, OAuthClientId.fromStr_text])
  | refresh _ _ _ found client_eq _ _ narrowed =>
    intro s hs
    obtain ⟨hword, happroved⟩ := approved_of_row hall h found s (narrowScopes_subset narrowed s hs)
    rw [client_eq] at happroved
    exact ⟨hword, happroved⟩

end Read

/-! ## What a call keeps -/

theorem isWord_of_supported : ∀ s ∈ supportedScopes, IsWord s := by decide +kernel

section Step

variable (hall : ∀ pre x post, past = pre ++ x :: post → ScopesApproved pre x.before)
include hall

/-- The scopes of a code that is minted are approved words. -/
theorem approved_of_mint {grant : CodeGrant} {code : String} (hat : OidcAt P past e)
    (hcall : e.call = ⟨.mintCode grant, code⟩) :
    (∀ s ∈ grant.scopes, IsWord s) ∧ ∀ accountId clientId,
      AccountId.fromStr grant.accountId = some accountId →
      OAuthClientId.fromStr grant.clientId = some clientId →
      ∀ s ∈ grant.scopes, Approved past accountId clientId s := by
  have hguard := hat.guard
  rw [hcall] at hguard
  rcases hguard with ⟨req, ceremonyId, response, ceremony, request, accountId, clientId, consent,
    hreq, hpassed, rfl, haccount, hclient, hconsent, hscopes⟩ | ⟨req, auth, text, accountId,
    clientId, request, hreq, ⟨⟨data, hdata, hmarker⟩, ⟨bytes, hbytes, hrequest⟩, hclient⟩, rfl,
    hupsert⟩
  · obtain ⟨bytes, hbytes, hrequest⟩ := hpassed.parked
    refine ⟨words_of_peek hall hat.earlier hbytes hrequest, ?_⟩
    intro accountId' clientId' haccount' hclient' s hs
    obtain rfl : accountId = accountId' := Option.some.inj (haccount.symm.trans haccount')
    obtain rfl : clientId = clientId' := Option.some.inj (hclient.symm.trans hclient')
    exact approved_of_grant hall hat.earlier hconsent s (hscopes s hs)
  · refine ⟨words_of_peek hall hat.earlier hbytes hrequest, ?_⟩
    intro accountId' clientId' haccount' hclient' s hs
    obtain ⟨-, hfrom⟩ := asAccount_eq_some.mp hmarker
    obtain rfl : accountId = accountId' := Option.some.inj (hfrom.symm.trans haccount')
    obtain rfl : clientId = clientId' := Option.some.inj (hclient.symm.trans hclient')
    obtain ⟨x, hx, hthread, hxcall⟩ := mem_callsOf.mp hupsert
    exact ⟨x, hx, req, auth, request.scopes, (hat.same x hx hthread).trans hreq, hxcall, hs⟩

/-- A request that is parked, or can be read from a code, has words. -/
theorem words_step (hat : OidcAt P past e) (ih : ScopesApproved past e.before) :
    ∀ entry ∈ e.after.challenges, ∀ request, entry.data.asAuthRequest = some request →
      ∀ s ∈ request.scopes, IsWord s := by
  intro entry hentry request hread
  rcases (at_store hat).entries hentry with hold | ⟨hparks, -, -⟩
  · exact ih.words entry hold request hread
  rcases hparks with ⟨data, ttl, hcall, hparked⟩ | ⟨grant, secret, hcall, -, hparked⟩
  · have hguard := hat.guard
    rw [hcall] at hguard
    rw [hparked] at hread
    rcases asAuthRequest_eq_some hread with rfl | ⟨grant, rfl⟩
    · obtain ⟨params, id, client, -, -, -, -, -, hsupported⟩ := hguard
      exact fun s hs => isWord_of_supported s (hsupported s hs)
    · exact absurd hguard id
  · rw [hparked] at hread
    obtain rfl := Option.some.inj hread
    exact (approved_of_mint hall hat hcall).1

/-- A code in the store has approved scopes. -/
theorem codes_step (hat : OidcAt P past e) (ih : ScopesApproved past e.before) :
    ∀ entry ∈ e.after.challenges, ∀ grant accountId clientId, entry.data = .codeGrant grant →
      AccountId.fromStr grant.accountId = some accountId →
      OAuthClientId.fromStr grant.clientId = some clientId →
      ∀ s ∈ grant.scopes, Approved (past ++ [e]) accountId clientId s := by
  intro entry hentry grant accountId clientId hdata haccount hclient s hs
  refine Approved.mono ?_ (List.subset_append_left past [e])
  rcases (at_store hat).entries hentry with hold | ⟨hparks, -, -⟩
  · exact ih.codes entry hold grant accountId clientId hdata haccount hclient s hs
  rcases hparks with ⟨data, ttl, hcall, hparked⟩ | ⟨grant', secret, hcall, -, hparked⟩
  · have hguard := hat.guard
    rw [hcall] at hguard
    rw [hparked] at hdata
    obtain rfl : data = .codeGrant grant := hdata
    exact absurd hguard id
  · rw [hparked] at hdata
    obtain rfl : grant' = grant := Parked.codeGrant.inj hdata
    exact (approved_of_mint hall hat hcall).2 accountId clientId haccount hclient s hs

omit hall in
/-- The scopes of a grant that an upsert merges with. -/
theorem approved_existing {rows : List OAuthGrantsRow} (accountId : AccountId)
    (clientId : OAuthClientId)
    (h : ∀ row ∈ rows, ∀ s ∈ splitWhitespace row.scopes, Approved past row.accountId row.clientId s) :
    ∀ s ∈ (((rows.find? fun r => r.accountId = accountId ∧ r.clientId = clientId).map
      (·.scopes)).map splitWhitespace).getD [], IsWord s ∧ Approved past accountId clientId s := by
  intro s hs
  rcases hfind : rows.find? fun r => r.accountId = accountId ∧ r.clientId = clientId with _ | row
  · rw [hfind] at hs
    cases hs
  · rw [hfind] at hs
    obtain ⟨rfl, rfl⟩ : row.accountId = accountId ∧ row.clientId = clientId := by
      simpa using List.find?_some hfind
    exact ⟨isWord_of_mem_splitWhitespace hs, h row (List.mem_of_find?_eq_some hfind) s hs⟩

/-- A consent that is recorded has the scopes from before, and those just approved. -/
theorem grants_step (hat : OidcAt P past e) (ih : ScopesApproved past e.before) :
    ∀ row ∈ e.after.db.grants, ∀ s ∈ splitWhitespace row.scopes,
      Approved (past ++ [e]) row.accountId row.clientId s := by
  have hold : ∀ row ∈ e.before.db.grants, ∀ s ∈ splitWhitespace row.scopes,
      Approved (past ++ [e]) row.accountId row.clientId s := fun row hrow s hs =>
    (ih.grants row hrow s hs).mono (List.subset_append_left past [e])
  intro row hrow s hs
  cases at_db hat with
  | @grantUpserted accountId clientId scopes text made merged db =>
    have hguard := hat.guard
    rw [made] at hguard
    obtain ⟨req, auth, account, request, hreq, ⟨-, ⟨bytes, hbytes, hrequest⟩, -⟩, rfl⟩ := hguard
    have happroved : ∀ s ∈ request.scopes, Approved (past ++ [e]) accountId clientId s :=
      fun s hs => ⟨e, by simp, req, auth, request.scopes, hreq, made, hs⟩
    have hexisting := approved_existing accountId clientId ih.grants
    have hwords := words_of_peek hall hat.earlier hbytes hrequest
    have hnew : ∀ s ∈ splitWhitespace text, Approved (past ++ [e]) accountId clientId s := by
      intro s hs
      rw [merged, splitWhitespace_joinWith] at hs
      · rcases mem_mergeScopes.mp (List.mem_insertionSort _ |>.mp hs) with hs | hs
        · exact (hexisting s hs).2.mono (List.subset_append_left past [e])
        · exact happroved s hs
      · intro s hs
        rcases mem_mergeScopes.mp (List.mem_insertionSort _ |>.mp hs) with hs | hs
        · exact (hexisting s hs).1
        · exact hwords s hs
    rw [db] at hrow
    rcases mem_upsert hrow with rfl | ⟨row₀, hrow₀, rfl⟩
    · exact hnew s hs
    · by_cases hkey : row₀.accountId = accountId ∧ row₀.clientId = clientId
      · rw [if_pos (by simpa using hkey)] at hs ⊢
        obtain ⟨rfl, rfl⟩ := hkey
        exact hnew s hs
      · rw [if_neg (by simpa using hkey)] at hs ⊢
        exact hold row₀ hrow₀ s hs
  | grantRevoked made db =>
    rw [db] at hrow
    exact hold row (List.mem_filter.mp hrow).1 s hs
  | kept _ db | clientCreated _ _ db | clientDisabled _ db | refreshCreated _ _ _ _ db
  | rotated _ _ _ _ _ db | familyRevoked _ db | tokenMinted _ _ _ db | tokenCreated _ _ _ db
  | tokenRevoked _ db | passkeySaved _ _ db | counterUpdated _ db | passkeyDisabled _ db
  | accountsSet _ db =>
    rw [db] at hrow
    exact hold row hrow s hs

/-- A refresh token has the scopes of a code, or of the token it succeeds. -/
theorem refresh_step (hat : OidcAt P past e) (ih : ScopesApproved past e.before) :
    ∀ row ∈ e.after.db.refreshTokens, ∀ s ∈ splitWhitespace row.scopes,
      Approved (past ++ [e]) row.accountId row.clientId s := by
  obtain ⟨f, added, hrows, hlater, hadded⟩ := (at_db hat).refreshTokens
  intro row hrow s hs
  refine Approved.mono ?_ (List.subset_append_left past [e])
  rw [hrows] at hrow
  rcases List.mem_append.mp hrow with hrow | hrow
  · obtain ⟨row₀, hrow₀, rfl⟩ := List.mem_map.mp hrow
    rw [(hlater row₀).scopes] at hs
    rw [(hlater row₀).accountId, (hlater row₀).clientId]
    exact ih.refresh row₀ hrow₀ s hs
  · cases hadded with
    | none => cases hrow
    | first made =>
      obtain rfl := List.mem_singleton.mp hrow
      have hguard := hat.guard
      rw [made] at hguard
      obtain ⟨form, client, code, grant, token, hash, -, rfl, -, -, hentitled, -⟩ := hguard
      have happroved := approved_of_entitled hall hat.earlier hentitled
      rw [splitWhitespace_joinWith fun s hs => (happroved s hs).1] at hs
      exact (happroved s hs).2
    | successor made found =>
      obtain rfl := List.mem_singleton.mp hrow
      rw [splitWhitespace_joinWith fun _ => isWord_of_mem_splitWhitespace] at hs
      exact ih.refresh _ (List.mem_of_find?_eq_some found) s hs

/-- An access token has the scopes of what it was exchanged for. -/
theorem access_step (hat : OidcAt P past e) (ih : ScopesApproved past e.before) :
    ∀ row ∈ e.after.db.appPasswords, ∀ text, row.scopes = some text →
      ∃ clientId, row.oauthClientId = some clientId ∧
        ∀ s ∈ splitWhitespace text, Approved (past ++ [e]) row.accountId clientId s := by
  obtain ⟨p, added, hrows, hadded⟩ := (at_db hat).appPasswords
  intro row hrow text htext
  rw [hrows] at hrow
  rcases List.mem_append.mp hrow with hrow | hrow
  · obtain ⟨clientId, hclient, happroved⟩ := ih.access row (List.mem_filter.mp hrow).1 text htext
    exact ⟨clientId, hclient, fun s hs =>
      (happroved s hs).mono (List.subset_append_left past [e])⟩
  · cases hadded with
    | none => cases hrow
    | created =>
      obtain rfl := List.mem_singleton.mp hrow
      cases htext
    | minted made =>
      obtain rfl := List.mem_singleton.mp hrow
      obtain rfl := Option.some.inj htext
      have hguard := hat.guard
      rw [made] at hguard
      obtain ⟨form, client, source, -, rfl, hentitled⟩ := hguard
      have happroved := approved_of_entitled hall hat.earlier hentitled
      refine ⟨client.id, rfl, fun s hs => ?_⟩
      rw [splitWhitespace_joinWith fun s hs => (happroved s hs).1] at hs
      exact (happroved s hs).2.mono (List.subset_append_left past [e])

end Step

/-- **Only approved scopes**, in every state. -/
theorem scopesApproved (h : OidcPast P past w) : ScopesApproved past w :=
  h.invariant ScopesApproved.empty fun _ _ hat hall ih =>
    ⟨words_step hall hat ih, codes_step hall hat ih, grants_step hall hat ih,
      refresh_step hall hat ih, access_step hall hat ih⟩

/-! ## Families -/

/-- All tokens of a family have the scopes it was started with. -/
theorem family_scopes (h : OidcPast P past w) : ∀ row ∈ w.db.refreshTokens,
    ∃ first ∈ past, StartsFamily P first row.familyId (splitWhitespace row.scopes) := by
  refine h.invariant (I := fun past w => ∀ row ∈ w.db.refreshTokens, ∃ first ∈ past,
    StartsFamily P first row.familyId (splitWhitespace row.scopes))
    (by rintro row ⟨⟩) ?_
  intro past e hat _ ih row hrow
  obtain ⟨f, added, hrows, hlater, hadded⟩ := (at_db hat).refreshTokens
  have hmem := hrow
  rw [hrows] at hrow
  rcases List.mem_append.mp hrow with hrow | hrow
  · obtain ⟨row₀, hrow₀, rfl⟩ := List.mem_map.mp hrow
    obtain ⟨first, hfirst, hstart⟩ := ih row₀ hrow₀
    rw [(hlater row₀).familyId, (hlater row₀).scopes]
    exact ⟨first, List.mem_append_left _ hfirst, hstart⟩
  · cases hadded with
    | none => cases hrow
    | first made =>
      obtain rfl := List.mem_singleton.mp hrow
      have hguard := hat.guard
      rw [made] at hguard
      obtain ⟨form, client, code, grant, token, hash, -, rfl, -, -, hentitled, -⟩ := hguard
      have hwords := approved_of_entitled (fun pre x post hsplit =>
        scopesApproved (hat.earlier.at_of_split hsplit).earlier) hat.earlier hentitled
      rw [splitWhitespace_joinWith fun s hs => (hwords s hs).1]
      exact ⟨e, by simp, _, _, _, _, _, made, _, hmem, rfl, rfl⟩
    | successor made found =>
      obtain rfl := List.mem_singleton.mp hrow
      obtain ⟨first, hfirst, hstart⟩ := ih _ (List.mem_of_find?_eq_some found)
      rw [splitWhitespace_joinWith fun _ => isWord_of_mem_splitWhitespace]
      exact ⟨first, List.mem_append_left _ hfirst, hstart⟩

/-- The access tokens of a refresh have scopes its family was started with. -/
theorem refresh_scopes {accountId : AccountId} {name : String} {scopes : List String}
    {expiresAt : ℤ} {clientId : OAuthClientId} {res : Except StorageError (String × String)}
    {form : TokenForm} (hat : OidcAt P past e)
    (hcall : e.call = ⟨.createScopedToken accountId name scopes expiresAt clientId, res⟩)
    (hreq : e.req = .token form) (htype : form.grantType = some "refresh_token") :
    ∃ presented row, form.refreshToken = some presented ∧ row ∈ e.before.db.refreshTokens ∧
      row.tokenHash = P.blake3 presented ∧ ∃ first ∈ past, ∃ original,
        StartsFamily P first row.familyId original ∧ ∀ s ∈ scopes, s ∈ original := by
  have hguard := hat.guard
  rw [hcall] at hguard
  obtain ⟨form', client, source, hreq', -, -, hredeems⟩ := hguard
  obtain rfl : form = form' := by simpa using hreq.symm.trans hreq'
  cases hredeems with
  | code type =>
    have hsame := htype.symm.trans type
    simp at hsame
  | @refresh presented row _ _ named _ found _ _ _ narrowed =>
    obtain ⟨r, r', hr', hhash, rfl, hlater⟩ := row_later_of_refreshByHash hat.earlier found
    obtain ⟨first, hfirst, hstart⟩ := family_scopes hat.earlier r' hr'
    refine ⟨presented, r', named, hr', hlater.tokenHash.trans hhash, first, hfirst, _, hstart, ?_⟩
    rw [hlater.scopes]
    exact narrowScopes_subset narrowed

/-! ## Acceptance -/

/-- An access token has the scopes it was minted with. -/
theorem access_minted (h : OidcPast P past w) : ∀ row ∈ w.db.appPasswords, ∀ text,
    row.scopes = some text → ∃ e ∈ past, ∃ name scopes expiresAt clientId token,
      e.call = ⟨.createScopedToken row.accountId name scopes expiresAt clientId,
        .ok (token, row.tokenHash)⟩ ∧ splitWhitespace text = scopes := by
  refine h.invariant (I := fun past w => ∀ row ∈ w.db.appPasswords, ∀ text,
    row.scopes = some text → ∃ e ∈ past, ∃ name scopes expiresAt clientId token,
      e.call = ⟨.createScopedToken row.accountId name scopes expiresAt clientId,
        .ok (token, row.tokenHash)⟩ ∧ splitWhitespace text = scopes) (by rintro row ⟨⟩) ?_
  intro past e hat _ ih row hrow text htext
  obtain ⟨p, added, hrows, hadded⟩ := (at_db hat).appPasswords
  rw [hrows] at hrow
  rcases List.mem_append.mp hrow with hrow | hrow
  · obtain ⟨e', he', hminted⟩ := ih row (List.mem_filter.mp hrow).1 text htext
    exact ⟨e', List.mem_append_left _ he', hminted⟩
  · cases hadded with
    | none => cases hrow
    | created =>
      obtain rfl := List.mem_singleton.mp hrow
      cases htext
    | minted made =>
      obtain rfl := List.mem_singleton.mp hrow
      obtain rfl := Option.some.inj htext
      have hguard := hat.guard
      rw [made] at hguard
      obtain ⟨form, client, source, -, rfl, hentitled⟩ := hguard
      have hwords := approved_of_entitled (fun pre x post hsplit =>
        scopesApproved (hat.earlier.at_of_split hsplit).earlier) hat.earlier hentitled
      exact ⟨e, by simp, _, _, _, _, _, made,
        splitWhitespace_joinWith fun s hs => (hwords s hs).1⟩

/-- What a provider promises about scopes. -/
structure ScopesContained (P : Oidc) (s : Provider) : Prop where
  access : ∀ row ∈ s.world.db.appPasswords, ∀ text, row.scopes = some text →
    ∃ clientId, row.oauthClientId = some clientId ∧
      ∀ scope ∈ splitWhitespace text, Approved s.past row.accountId clientId scope
  refresh : ∀ row ∈ s.world.db.refreshTokens, ∀ scope ∈ splitWhitespace row.scopes,
    Approved s.past row.accountId row.clientId scope
  family : ∀ {pre e post accountId name scopes expiresAt clientId res form},
    s.past = pre ++ e :: post →
    e.call = ⟨.createScopedToken accountId name scopes expiresAt clientId, res⟩ →
    e.req = .token form → form.grantType = some "refresh_token" →
    ∃ presented row, form.refreshToken = some presented ∧ row ∈ e.before.db.refreshTokens ∧
      row.tokenHash = P.blake3 presented ∧ ∃ first ∈ pre, ∃ original,
        StartsFamily P first row.familyId original ∧ ∀ scope ∈ scopes, scope ∈ original
  original : ∀ {e e' familyId scopes scopes'}, e ∈ s.past → e' ∈ s.past →
    StartsFamily P e familyId scopes → StartsFamily P e' familyId scopes' → e = e'
  refused : ∀ row ∈ s.world.db.appPasswords, row.scopes.isSome → ∀ io now account db,
    accountByTokenTx io row.tokenHash now s.world.db ≠ .ok (some account, db)
  granted : ∀ row ∈ s.world.db.appPasswords, ∀ text, row.scopes = some text →
    ∃ e ∈ s.past, ∃ name scopes expiresAt clientId token,
      e.call = ⟨.createScopedToken row.accountId name scopes expiresAt clientId,
        .ok (token, row.tokenHash)⟩ ∧ splitWhitespace text = scopes ∧
      ∀ io now account access db,
        accountAndAccessByTokenTx io row.tokenHash now s.world.db =
          .ok (some (account, access), db) → access = .scoped scopes

end Owney
