import Owney.OidcRefresh

/-!
# Revocation

`revoke_oauth_grant` and `disable_oauth_client` end all tokens there are. What else tokens
can come from they do not touch: codes wait in the challenge store, and requests that were
let through before go on. `GrantCut` and `ClientCut` say that neither is left, and that no
token is; every call keeps that, until the account consents anew.
-/

namespace Owney

open Programs Tables ChallengeStore

variable {P : Oidc} {past pre mid post : List OidcEvent} {w w' : OidcWorld} {e x y : OidcEvent}
  {a : AccountId} {c : OAuthClientId} {s : Provider}

/-! ## What tokens come from -/

/-- The code is for the account and the client. -/
def CodeGrant.IsFor (grant : CodeGrant) (a : AccountId) (c : OAuthClientId) : Prop :=
  AccountId.fromStr grant.accountId = some a ∧ OAuthClientId.fromStr grant.clientId = some c

instance (grant : CodeGrant) (a : AccountId) (c : OAuthClientId) : Decidable (grant.IsFor a c) :=
  inferInstanceAs (Decidable (_ ∧ _))

/-- What is parked is no code for the account and the client. -/
def Parked.NotFor (a : AccountId) (c : OAuthClientId) : Parked → Prop
  | .codeGrant grant => ¬grant.IsFor a c
  | _ => True

/-- With the result of the call its request may go on to a token or a code for the account and
the client: it took a code, found a live refresh token or a consent, or was given one. -/
def Opens (a : AccountId) (c : OAuthClientId) (e : OidcEvent) : Prop :=
  match e.req, e.call with
  | .token _, ⟨.retrieve _, .ok (.codeGrant grant)⟩ => grant.IsFor a c
  | .token _, ⟨.refreshByHash _, .ok (some row)⟩ =>
    row.accountId = a ∧ row.clientId = c ∧ row.usedAt = none ∧ row.revokedAt = none
  | .loginFinish _ _ _, ⟨.oauthGrant a' c', .ok (some _)⟩ => a' = a ∧ c' = c
  | .consentSubmit _ _ _, ⟨.upsertGrant a' c' _, .ok _⟩ => a' = a ∧ c' = c
  | _, _ => False

/-- With the call the client of a token request passes. -/
def Admits (c : OAuthClientId) (e : OidcEvent) : Prop :=
  match e.req, e.call with
  | .token _, ⟨.oauthClient c', .ok (some client)⟩ =>
    c' = c ∧ client.disabled = false ∧ client.isPublic = true
  | .token _, ⟨.verifySecret c' _, .ok true⟩ => c' = c
  | _, _ => False

/-- The account consents to the client. -/
def Consents (a : AccountId) (c : OAuthClientId) (e : OidcEvent) : Prop :=
  ∃ scopes, e.call = ⟨.upsertGrant a c scopes, .ok ()⟩

/-- Whoever exchanges something for tokens, opened it. -/
theorem Entitled.opens {i : ℕ} {form : TokenForm} {client : OAuthClient} {source : TokenSource}
    {scopes : List String} (h : Entitled P form (callsOf i past) client source a scopes)
    (hreq : ∀ y ∈ past, y.thread = i → y.req = .token form) :
    ∃ y ∈ past, y.thread = i ∧ Opens a client.id y := by
  obtain ⟨-, hredeems⟩ := h
  cases hredeems with
  | code type named pre taken client_eq redirect_eq verified pkce account =>
    obtain ⟨y, hy, hthread, hcall⟩ := mem_callsOf.mp taken
    refine ⟨y, hy, hthread, ?_⟩
    simp only [Opens, hreq y hy hthread, hcall]
    exact ⟨account, by rw [client_eq, OAuthClientId.fromStr_text]⟩
  | refresh type named pre found client_eq unused unrevoked narrowed =>
    obtain ⟨y, hy, hthread, hcall⟩ := mem_callsOf.mp found
    refine ⟨y, hy, hthread, ?_⟩
    simp only [Opens, hreq y hy hthread, hcall, client_eq, unused, unrevoked, and_self]

/-- The client of a token request that passed, was admitted. -/
theorem ClientPassed.admits {i : ℕ} {form : TokenForm} {client : OAuthClient} (h : OidcPast P past w)
    (hpassed : ClientPassed form (callsOf i past) client)
    (hreq : ∀ y ∈ past, y.thread = i → y.req = .token form) :
    ∃ y ∈ past, y.thread = i ∧ Admits client.id y := by
  obtain ⟨text, secret, id, -, -, hdid, henabled, hpublic | ⟨secret', -, hverified⟩⟩ := hpassed
  · obtain rfl := id_of_oauthClient h hdid
    obtain ⟨y, hy, hthread, hcall⟩ := mem_callsOf.mp hdid
    refine ⟨y, hy, hthread, ?_⟩
    simp only [Admits, hreq y hy hthread, hcall, henabled, hpublic, and_self]
  · obtain rfl := id_of_oauthClient h hdid
    obtain ⟨y, hy, hthread, hcall⟩ := mem_callsOf.mp hverified
    refine ⟨y, hy, hthread, ?_⟩
    simp only [Admits, hreq y hy hthread, hcall]

/-! ## Cut off -/

/-- Nothing is left of the grant of the account to the client: no codes, no consent, no live
refresh tokens, no access tokens. -/
structure GrantCut (a : AccountId) (c : OAuthClientId) (w : OidcWorld) : Prop where
  codes : ∀ entry ∈ w.challenges, entry.data.NotFor a c
  grants : ∀ r ∈ w.db.grants, ¬(r.accountId = a ∧ r.clientId = c)
  refresh : ∀ r ∈ w.db.refreshTokens, r.accountId = a → r.clientId = c → r.revokedAt.isSome
  access : ∀ r ∈ w.db.appPasswords, ¬(r.accountId = a ∧ r.oauthClientId = some c)

/-- The client is disabled, and has no live refresh tokens and no access tokens. -/
structure ClientCut (c : OAuthClientId) (w : OidcWorld) : Prop where
  known : ∃ r ∈ w.db.clients, r.id = c
  disabled : ∀ r ∈ w.db.clients, r.id = c → r.disabled = true
  refresh : ∀ r ∈ w.db.refreshTokens, r.clientId = c → r.revokedAt.isSome
  access : ∀ r ∈ w.db.appPasswords, r.oauthClientId ≠ some c

section GrantCut

-- A request that opened the grant makes no more calls.
variable (hat : OidcAt P past x) (hcut : GrantCut a c x.before)
  (hno : ∀ y ∈ past, y.thread = x.thread → ¬Opens a c y)
include hat hno

/-- A code that is minted is for other accounts or clients. -/
theorem notFor_of_mint {grant : CodeGrant} {code : String}
    (hcall : x.call = ⟨.mintCode grant, code⟩) : ¬grant.IsFor a c := by
  rintro ⟨haccount, hclient⟩
  have hguard := hat.guard
  rw [hcall] at hguard
  rcases hguard with ⟨req, ceremonyId, response, ceremony, request, a', c', consent, hreq, -, rfl,
    haccount', hclient', hconsent, -⟩ | ⟨req, auth, text, a', c', request, hreq,
    ⟨⟨data, -, hmarker⟩, -, hclient'⟩, rfl, hupsert⟩
  · obtain rfl : a' = a := Option.some.inj (haccount'.symm.trans haccount)
    obtain rfl : c' = c := Option.some.inj (hclient'.symm.trans hclient)
    obtain ⟨y, hy, hthread, hycall⟩ := mem_callsOf.mp hconsent
    refine hno y hy hthread ?_
    simp only [Opens, hat.same y hy hthread, hreq, hycall, and_self]
  · obtain ⟨-, haccount'⟩ := Parked.asAccount_eq_some.mp hmarker
    obtain rfl : a' = a := Option.some.inj (haccount'.symm.trans haccount)
    obtain rfl : c' = c := Option.some.inj (hclient'.symm.trans hclient)
    obtain ⟨y, hy, hthread, hycall⟩ := mem_callsOf.mp hupsert
    refine hno y hy hthread ?_
    simp only [Opens, hat.same y hy hthread, hreq, hycall, and_self]

/-- Tokens that are minted are for other accounts or clients. -/
theorem notFor_of_entitled {form : TokenForm} {client : OAuthClient} {source : TokenSource}
    {a' : AccountId} {scopes : List String} (hreq : x.req = .token form)
    (hentitled : Entitled P form (callsOf x.thread past) client source a' scopes) :
    ¬(a' = a ∧ client.id = c) := by
  rintro ⟨rfl, rfl⟩
  obtain ⟨y, hy, hthread, hopens⟩ :=
    hentitled.opens fun y hy hthread => (hat.same y hy hthread).trans hreq
  exact hno y hy hthread hopens

include hcut

theorem GrantCut.codes_step : ∀ entry ∈ x.after.challenges, entry.data.NotFor a c := by
  intro entry hentry
  rcases (at_store hat).entries hentry with hold | ⟨hparks, -, -⟩
  · exact hcut.codes entry hold
  rcases hparks with ⟨data, ttl, hcall, hparked⟩ | ⟨grant, secret, hcall, -, hparked⟩
  · have hguard := hat.guard
    rw [hcall] at hguard
    rw [hparked]
    cases data with
    | codeGrant grant => exact absurd hguard id
    | _ => trivial
  · rw [hparked]
    exact notFor_of_mint hat hno hcall

omit hno in
theorem GrantCut.grants_step (hconsent : ¬Consents a c x) :
    ∀ r ∈ x.after.db.grants, ¬(r.accountId = a ∧ r.clientId = c) := by
  intro r hr
  cases at_db hat with
  | grantUpserted made merged db =>
    rw [db] at hr
    rcases mem_upsert hr with rfl | ⟨r₀, hr₀, rfl⟩
    · rintro ⟨rfl, rfl⟩
      exact hconsent ⟨_, made⟩
    · have hold := hcut.grants r₀ hr₀
      split <;> exact hold
  | grantRevoked made db =>
    rw [db] at hr
    exact hcut.grants r (List.mem_filter.mp hr).1
  | kept _ db | clientCreated _ _ db | clientDisabled _ db | refreshCreated _ _ _ _ db
  | rotated _ _ _ _ _ db | familyRevoked _ db | tokenMinted _ _ _ db | tokenCreated _ _ _ db
  | tokenRevoked _ db | passkeySaved _ _ db | counterUpdated _ db | passkeyDisabled _ db
  | accountsSet _ db =>
    rw [db] at hr
    exact hcut.grants r hr

theorem GrantCut.refresh_step : ∀ r ∈ x.after.db.refreshTokens, r.accountId = a → r.clientId = c →
    r.revokedAt.isSome := by
  intro r hr haccount hclient
  obtain ⟨f, added, hrows, hlater, hadded⟩ := (at_db hat).refreshTokens
  rw [hrows] at hr
  rcases List.mem_append.mp hr with hr | hr
  · obtain ⟨r₀, hr₀, rfl⟩ := List.mem_map.mp hr
    rw [(hlater r₀).accountId] at haccount
    rw [(hlater r₀).clientId] at hclient
    exact (hlater r₀).revoked (hcut.refresh r₀ hr₀ haccount hclient)
  · cases hadded with
    | none => cases hr
    | first made =>
      obtain rfl := List.mem_singleton.mp hr
      have hguard := hat.guard
      rw [made] at hguard
      obtain ⟨form, client, code, grant, token, hash, hreq, rfl, -, -, hentitled, -⟩ := hguard
      exact absurd ⟨haccount, hclient⟩ (notFor_of_entitled hat hno hreq hentitled)
    | @successor _ _ _ _ old _ found live =>
      obtain rfl := List.mem_singleton.mp hr
      have hrevoked := hcut.refresh old (List.mem_of_find?_eq_some found) haccount hclient
      rw [show old.revokedAt = none from live.2.1] at hrevoked
      cases hrevoked

theorem GrantCut.access_step :
    ∀ r ∈ x.after.db.appPasswords, ¬(r.accountId = a ∧ r.oauthClientId = some c) := by
  intro r hr
  obtain ⟨p, added, hrows, hadded⟩ := (at_db hat).appPasswords
  rw [hrows] at hr
  rcases List.mem_append.mp hr with hr | hr
  · exact hcut.access r (List.mem_filter.mp hr).1
  · cases hadded with
    | none => cases hr
    | minted made =>
      obtain rfl := List.mem_singleton.mp hr
      have hguard := hat.guard
      rw [made] at hguard
      obtain ⟨form, client, source, hreq, rfl, hentitled⟩ := hguard
      rintro ⟨haccount, hclient⟩
      exact notFor_of_entitled hat hno hreq hentitled ⟨haccount, Option.some.inj hclient⟩
    | created =>
      obtain rfl := List.mem_singleton.mp hr
      rintro ⟨-, ⟨⟩⟩

/-- **What is cut off stays so**, until the account consents. -/
theorem GrantCut.step (hconsent : ¬Consents a c x) : GrantCut a c x.after :=
  ⟨hcut.codes_step hat hno, hcut.grants_step hat hconsent, hcut.refresh_step hat hno,
    hcut.access_step hat hno⟩

omit hno in
/-- Nothing opens a grant that is cut off. -/
theorem GrantCut.not_opens (hconsent : ¬Consents a c x) : ¬Opens a c x := by
  intro hopens
  unfold Opens at hopens
  split at hopens
  · rename_i hcall
    obtain ⟨entry, hentry, -, hdata, -⟩ := entry_of_retrieve hat hcall
    have hfor := hcut.codes entry hentry
    rw [hdata] at hfor
    exact hfor hopens
  · rename_i hcall
    obtain ⟨r, hr, -, rfl⟩ := row_of_lookup hat hcall
    obtain ⟨haccount, hclient, -, hlive⟩ := hopens
    have hrevoked := hcut.refresh r hr haccount hclient
    rw [show r.revokedAt = none from hlive] at hrevoked
    cases hrevoked
  · rename_i hcall
    obtain ⟨rfl, rfl⟩ := hopens
    obtain ⟨r, hr, haccount, hclient, -⟩ := row_of_oauthGrant hat hcall
    exact hcut.grants r hr ⟨haccount, hclient⟩
  · rename_i scopes _ _ hcall
    obtain ⟨rfl, rfl⟩ := hopens
    exact hconsent ⟨scopes, hcall⟩
  · exact hopens

end GrantCut

section ClientCut

variable (hat : OidcAt P past x) (hcut : ClientCut c x.before)
include hat

/-- Tokens that are minted are for other clients. -/
theorem ne_of_passed (hno : ∀ y ∈ past, y.thread = x.thread → ¬Admits c y) {form : TokenForm}
    {client : OAuthClient} (hreq : x.req = .token form)
    (hpassed : ClientPassed form (callsOf x.thread past) client) : client.id ≠ c := by
  rintro rfl
  obtain ⟨y, hy, hthread, hadmits⟩ :=
    hpassed.admits hat.earlier fun y hy hthread => (hat.same y hy hthread).trans hreq
  exact hno y hy hthread hadmits

include hcut

theorem ClientCut.clients_step : (∃ r ∈ x.after.db.clients, r.id = c) ∧
    ∀ r ∈ x.after.db.clients, r.id = c → r.disabled = true := by
  obtain ⟨⟨known, hknown, hid⟩, hdisabled, -, -⟩ := hcut
  cases at_db hat with
  | clientCreated made new db =>
    rw [db]
    refine ⟨⟨known, List.mem_append_left _ hknown, hid⟩, fun r hr hrid => ?_⟩
    rcases List.mem_append.mp hr with hr | hr
    · exact hdisabled r hr hrid
    · obtain rfl := List.mem_singleton.mp hr
      exact absurd (List.mem_map.mpr ⟨known, hknown, hid.trans hrid.symm⟩) new
  | clientDisabled made db =>
    rw [db]
    constructor
    · refine ⟨_, mem_update.mpr ⟨known, hknown, rfl⟩, ?_⟩
      split <;> exact hid
    · intro r hr hrid
      obtain ⟨r₀, hr₀, rfl⟩ := mem_update.mp hr
      split at hrid
      · rw [if_pos (by assumption)]
      · rename_i hother
        rw [if_neg hother]
        exact hdisabled r₀ hr₀ hrid
  | kept _ db | grantUpserted _ _ db | grantRevoked _ db | refreshCreated _ _ _ _ db
  | rotated _ _ _ _ _ db | familyRevoked _ db | tokenMinted _ _ _ db | tokenCreated _ _ _ db
  | tokenRevoked _ db | passkeySaved _ _ db | counterUpdated _ db | passkeyDisabled _ db
  | accountsSet _ db =>
    rw [db]
    exact ⟨⟨known, hknown, hid⟩, hdisabled⟩

theorem ClientCut.refresh_step (hno : ∀ y ∈ past, y.thread = x.thread → ¬Admits c y) :
    ∀ r ∈ x.after.db.refreshTokens, r.clientId = c → r.revokedAt.isSome := by
  intro r hr hclient
  obtain ⟨f, added, hrows, hlater, hadded⟩ := (at_db hat).refreshTokens
  rw [hrows] at hr
  rcases List.mem_append.mp hr with hr | hr
  · obtain ⟨r₀, hr₀, rfl⟩ := List.mem_map.mp hr
    rw [(hlater r₀).clientId] at hclient
    exact (hlater r₀).revoked (hcut.refresh r₀ hr₀ hclient)
  · cases hadded with
    | none => cases hr
    | first made =>
      obtain rfl := List.mem_singleton.mp hr
      have hguard := hat.guard
      rw [made] at hguard
      obtain ⟨form, client, code, grant, token, hash, hreq, rfl, -, -, hentitled, -⟩ := hguard
      exact absurd hclient (ne_of_passed hat hno hreq hentitled.passed)
    | @successor _ _ _ _ old _ found live =>
      obtain rfl := List.mem_singleton.mp hr
      have hrevoked := hcut.refresh old (List.mem_of_find?_eq_some found) hclient
      rw [show old.revokedAt = none from live.2.1] at hrevoked
      cases hrevoked

theorem ClientCut.access_step (hno : ∀ y ∈ past, y.thread = x.thread → ¬Admits c y) :
    ∀ r ∈ x.after.db.appPasswords, r.oauthClientId ≠ some c := by
  intro r hr
  obtain ⟨p, added, hrows, hadded⟩ := (at_db hat).appPasswords
  rw [hrows] at hr
  rcases List.mem_append.mp hr with hr | hr
  · exact hcut.access r (List.mem_filter.mp hr).1
  · cases hadded with
    | none => cases hr
    | minted made =>
      obtain rfl := List.mem_singleton.mp hr
      have hguard := hat.guard
      rw [made] at hguard
      obtain ⟨form, client, source, hreq, rfl, hentitled⟩ := hguard
      exact fun hclient => ne_of_passed hat hno hreq hentitled.passed (Option.some.inj hclient)
    | created =>
      obtain rfl := List.mem_singleton.mp hr
      rintro ⟨⟩

/-- **A client that is cut off stays so.** -/
theorem ClientCut.step (hno : ∀ y ∈ past, y.thread = x.thread → ¬Admits c y) :
    ClientCut c x.after :=
  ⟨(hcut.clients_step hat).1, (hcut.clients_step hat).2, hcut.refresh_step hat hno,
    hcut.access_step hat hno⟩

/-- A disabled client is not admitted. -/
theorem ClientCut.not_admits : ¬Admits c x := by
  intro hadmits
  unfold Admits at hadmits
  split at hadmits
  · rename_i hcall
    obtain ⟨rfl, henabled, -⟩ := hadmits
    obtain ⟨r, hr, hid, rfl⟩ := row_of_oauthClient hat hcall
    have hdisabled := hcut.disabled r hr hid
    rw [show r.disabled = false from henabled] at hdisabled
    cases hdisabled
  · rename_i hcall
    obtain rfl := hadmits
    obtain ⟨r, hr, hid, henabled⟩ := row_of_verifySecret hat hcall
    have hdisabled := hcut.disabled r hr hid
    rw [henabled] at hdisabled
    cases hdisabled
  · exact hadmits

end ClientCut

/-! ## The revocations -/

/-- A revoked grant is cut off, if no code is left of it. -/
theorem grantCut_of_revoke (hat : OidcAt P past x) (hcall : x.call = ⟨.revokeGrant a c, .ok ()⟩)
    (hcodes : ∀ entry ∈ x.before.challenges, entry.data.NotFor a c) : GrantCut a c x.after := by
  have hstore := at_store hat
  have heffect := at_db hat
  rw [hcall] at hstore heffect
  cases heffect with
  | grantRevoked made db =>
    cases made
    refine ⟨?_, ?_, ?_, ?_⟩
    · intro entry hentry
      rcases hstore.entries hentry with hold | ⟨⟨data, ttl, hstored, -⟩ | ⟨grant, secret, hmint, -⟩, -⟩
      · exact hcodes entry hold
      · cases hstored
      · cases hmint
    · intro r hr
      rw [db] at hr
      exact of_decide_eq_true (List.mem_filter.mp hr).2
    · intro r hr haccount hclient
      rw [db] at hr
      obtain ⟨r₀, hr₀, rfl⟩ := mem_update.mp hr
      by_cases hlive : r₀.accountId = a ∧ r₀.clientId = c ∧ r₀.revokedAt = none
      · rw [if_pos (by simpa using hlive)]
        rfl
      · rw [if_neg (by simpa using hlive)] at haccount hclient ⊢
        exact Option.isSome_iff_ne_none.mpr fun hnone => hlive ⟨haccount, hclient, hnone⟩
    · intro r hr
      rw [db] at hr
      exact of_decide_eq_true (List.mem_filter.mp hr).2
  | kept quiet => cases quiet
  | clientCreated made | clientDisabled made | grantUpserted made | familyRevoked made
  | refreshCreated made | rotated made | tokenMinted made | tokenCreated made
  | tokenRevoked made | passkeySaved made | counterUpdated made | passkeyDisabled made
  | accountsSet made => cases made

/-- A disabled client is cut off. -/
theorem clientCut_of_disable (hat : OidcAt P past x) (hcall : x.call = ⟨.disableClient c, .ok ()⟩) :
    ClientCut c x.after := by
  have hexec := hat.possible
  have heffect := at_db hat
  rw [hcall] at hexec heffect
  obtain ⟨known, hknown, hid⟩ : ∃ r ∈ x.before.db.clients, r.id = c := by
    rcases OidcWorld.call_cases (Option.some.inj hexec) with ⟨e, herr, -⟩ | ⟨⟨⟩, db, hok, -, -⟩
    · cases herr
    · exact disableOAuthClientTx_found hok
  cases heffect with
  | clientDisabled made db =>
    cases made
    refine ⟨?_, ?_, ?_, ?_⟩
    · rw [db]
      refine ⟨_, mem_update.mpr ⟨known, hknown, rfl⟩, ?_⟩
      split <;> exact hid
    · intro r hr hrid
      rw [db] at hr
      obtain ⟨r₀, hr₀, rfl⟩ := mem_update.mp hr
      split at hrid
      · rw [if_pos (by assumption)]
      · rename_i hother
        exact absurd (by simpa using hrid) hother
    · intro r hr hclient
      rw [db] at hr
      obtain ⟨r₀, hr₀, rfl⟩ := mem_update.mp hr
      by_cases hlive : r₀.clientId = c ∧ r₀.revokedAt = none
      · rw [if_pos (by simpa using hlive)]
        rfl
      · rw [if_neg (by simpa using hlive)] at hclient ⊢
        exact Option.isSome_iff_ne_none.mpr fun hnone => hlive ⟨hclient, hnone⟩
    · intro r hr
      rw [db] at hr
      simpa using (List.mem_filter.mp hr).2
  | kept quiet => cases quiet
  | clientCreated made | grantRevoked made | grantUpserted made | familyRevoked made
  | refreshCreated made | rotated made | tokenMinted made | tokenCreated made
  | tokenRevoked made | passkeySaved made | counterUpdated made | passkeyDisabled made
  | accountsSet made => cases made

/-! ## Runs -/

/-- No token of these accounts and clients is accepted: no access token is found, whenever it
is presented, and no refresh token is live. -/
structure Refused (s : Provider) (q : AccountId → OAuthClientId → Prop) : Prop where
  access : ∀ {hash now p account row c}, s.world.db.bearer hash now p = some (account, row) →
    row.oauthClientId = some c → ¬q row.accountId c
  refresh : ∀ r ∈ s.world.db.refreshTokens, q r.accountId r.clientId → ∀ now,
    ¬r.toRefresh.Live now

/-- After a revocation nothing is accepted that was revoked, until the account consents anew. -/
structure RevocationFinal (s : Provider) : Prop where
  grant : ∀ {pre e post a c}, s.past = pre ++ e :: post → e.call = ⟨.revokeGrant a c, .ok ()⟩ →
    (∀ x ∈ post, ¬Consents a c x) → Refused s fun a' c' => a' = a ∧ c' = c
  client : ∀ {pre e post a c}, s.past = pre ++ e :: post → e.call = ⟨.disableClient c, .ok ()⟩ →
    (∀ x ∈ post, ¬Consents a c x) → Refused s fun a' c' => a' = a ∧ c' = c

/-! ### The condition -/

/-- Nothing of the grant is outstanding: no code is parked, and who opened it has answered. -/
structure GrantSettled (a : AccountId) (c : OAuthClientId) (s : Provider) : Prop where
  codes : ∀ entry ∈ s.world.challenges, entry.data.NotFor a c
  answered : ∀ e ∈ s.past, Opens a c e → (s.answer e.thread).isSome

/-- All token requests that the client was admitted to have answered. -/
def ClientSettled (c : OAuthClientId) (s : Provider) : Prop :=
  ∀ e ∈ s.past, Admits c e → (s.answer e.thread).isSome

/-- Grants and clients are revoked when nothing of theirs is outstanding. -/
def RevokesSettled (s : Provider) : ProviderMove → Prop
  | .start _ => True
  | .call i _ => s.answer i = none → match s.request i with
    | some (.revokeGrant a c) => GrantSettled a c s
    | some (.disableClient c) => ClientSettled c s
    | _ => True

/-- What holds since each revocation. -/
structure Settled (s : Provider) : Prop where
  grant : ∀ {pre e post a c}, s.past = pre ++ e :: post → e.call = ⟨.revokeGrant a c, .ok ()⟩ →
    (∀ x ∈ post, ¬Consents a c x) →
    GrantCut a c s.world ∧ ∀ e ∈ s.past, Opens a c e → (s.answer e.thread).isSome
  client : ∀ {pre e post c}, s.past = pre ++ e :: post → e.call = ⟨.disableClient c, .ok ()⟩ →
    ClientCut c s.world ∧ ClientSettled c s

theorem GrantCut.refused (h : GrantCut a c s.world) :
    Refused s fun a' c' => a' = a ∧ c' = c := by
  constructor
  · rintro hash now p account row c' hbearer hclient ⟨haccount, rfl⟩
    obtain ⟨hrow, -⟩ := OAuthDb.bearer_eq_some hbearer
    exact h.access row hrow ⟨haccount, hclient⟩
  · rintro r hr ⟨haccount, hclient⟩ now ⟨-, hlive, -⟩
    have hrevoked := h.refresh r hr haccount hclient
    rw [show r.revokedAt = none from hlive] at hrevoked
    cases hrevoked

theorem ClientCut.refused (h : ClientCut c s.world) :
    Refused s fun a' c' => a' = a ∧ c' = c := by
  constructor
  · rintro hash now p account row c' hbearer hclient ⟨-, rfl⟩
    obtain ⟨hrow, -⟩ := OAuthDb.bearer_eq_some hbearer
    exact h.access row hrow hclient
  · rintro r hr ⟨-, hclient⟩ now ⟨-, hlive, -⟩
    have hrevoked := h.refresh r hr hclient
    rw [show r.revokedAt = none from hlive] at hrevoked
    cases hrevoked

/-- A move makes at most one call, and for a request that has not answered. -/
theorem Provider.step_past (s : Provider) (m : ProviderMove) :
    ((Provider.step P s m).past = s.past ∧ (Provider.step P s m).world = s.world) ∨
    ∃ x : OidcEvent, (Provider.step P s m).past = s.past ++ [x] ∧
      (Provider.step P s m).world = x.after ∧ x.before = s.world ∧ s.answer x.thread = none ∧
      s.request x.thread = some x.req ∧ ∃ choice, m = .call x.thread choice := by
  rcases step_cases (handle P) (OidcOp.exec P) s m with
    hm | ⟨r, -, hm⟩ | ⟨i, choice, t, o, k, r, w, hcall, ht, hp, -, hm⟩
  · exact .inl ⟨by rw [Provider.step, hm], by rw [Provider.step, hm]⟩
  · exact .inl ⟨by rw [Provider.step, hm], by rw [Provider.step, hm]⟩
  · refine .inr ⟨⟨i, t.req, ⟨o, r⟩, choice, s.world, w⟩, by rw [Provider.step, hm],
      by rw [Provider.step, hm], rfl, answer_eq_none ht hp, ?_, choice, hcall⟩
    rw [Sys.request, ht, Option.map_some]

/-- Who has answered, still has after the move. -/
theorem answered_move {F : OidcEvent → Prop} {m : ProviderMove}
    (h : ∀ e ∈ s.past, F e → (s.answer e.thread).isSome) :
    ∀ e ∈ s.past, F e → ((Provider.step P s m).answer e.thread).isSome := by
  intro e he hF
  obtain ⟨response, hresponse⟩ := Option.isSome_iff_exists.mp (h e he hF)
  exact Option.isSome_iff_exists.mpr ⟨response, answer_step hresponse⟩

/-- Who makes a call, has not answered. -/
theorem not_of_answered {F : OidcEvent → Prop}
    (h : ∀ e ∈ s.past, F e → (s.answer e.thread).isSome) (hx : s.answer x.thread = none) :
    ∀ y ∈ s.past, y.thread = x.thread → ¬F y := by
  intro y hy hthread hF
  have hsome := h y hy hF
  rw [hthread, hx] at hsome
  cases hsome

/-- **One move.** -/
theorem Settled.move {m : ProviderMove}
    (hs : s.Specified (OidcOp.exec P) (Before P) (Answered P) OidcWorld.empty) (h : Settled s)
    (hm : RevokesSettled s m) : Settled (Provider.step P s m) := by
  have hs' : (Provider.step P s m).Specified (OidcOp.exec P) (Before P) (Answered P)
      OidcWorld.empty := hs.move (handle_spec (P := P)) m
  rcases Provider.step_past (P := P) s m with
    ⟨hpast, hworld⟩ | ⟨x, hpast, hworld, hbefore, hnone, hreq, choice, rfl⟩
  · constructor
    · intro pre e post a c hsplit hcall hno
      rw [hpast] at hsplit
      obtain ⟨hcut, hanswered⟩ := h.grant hsplit hcall hno
      rw [hworld, hpast]
      exact ⟨hcut, answered_move hanswered⟩
    · intro pre e post c hsplit hcall
      rw [hpast] at hsplit
      obtain ⟨hcut, hanswered⟩ := h.client hsplit hcall
      rw [hworld, ClientSettled, hpast]
      exact ⟨hcut, answered_move hanswered⟩
  have hat : OidcAt P s.past x := hs'.past.at_of_split hpast
  rw [RevokesSettled, hreq] at hm
  have hm := hm hnone
  constructor
  · intro pre e post a c hsplit hcall hno
    rw [hworld, hpast]
    -- The revocation is the call itself, or was before it.
    have hnow : GrantCut a c x.after ∧ (∀ e ∈ s.past, Opens a c e → (s.answer e.thread).isSome) ∧
        ¬Opens a c x := by
      rcases split_last (hpast.symm.trans hsplit) with ⟨-, -, rfl⟩ | ⟨post', rfl, hsplit'⟩
      · have hguard := hat.guard
        rw [hcall] at hguard
        rw [show x.req = .revokeGrant a c from hguard] at hm
        refine ⟨grantCut_of_revoke hat hcall (hbefore ▸ hm.codes), hm.answered, ?_⟩
        rw [Opens, hguard]
        exact id
      · have hconsent : ¬Consents a c x := hno x (by simp)
        obtain ⟨hcut, hanswered⟩ :=
          h.grant hsplit' hcall fun y hy => hno y (List.mem_append_left _ hy)
        rw [← hbefore] at hcut
        exact ⟨hcut.step hat (not_of_answered hanswered hnone) hconsent, hanswered,
          hcut.not_opens hat hconsent⟩
    obtain ⟨hcut, hanswered, hopens⟩ := hnow
    refine ⟨hcut, fun e he hF => ?_⟩
    rcases List.mem_append.mp he with he | he
    · exact answered_move hanswered e he hF
    · obtain rfl := List.mem_singleton.mp he
      exact absurd hF hopens
  · intro pre e post c hsplit hcall
    rw [hworld, ClientSettled, hpast]
    have hnow : ClientCut c x.after ∧ ClientSettled c s ∧ ¬Admits c x := by
      rcases split_last (hpast.symm.trans hsplit) with ⟨-, -, rfl⟩ | ⟨post', rfl, hsplit'⟩
      · have hguard := hat.guard
        rw [hcall] at hguard
        rw [show x.req = .disableClient c from hguard] at hm
        refine ⟨clientCut_of_disable hat hcall, hm, ?_⟩
        rw [Admits, hguard]
        exact id
      · obtain ⟨hcut, hanswered⟩ := h.client hsplit' hcall
        rw [← hbefore] at hcut
        exact ⟨hcut.step hat (not_of_answered hanswered hnone), hanswered, hcut.not_admits hat⟩
    obtain ⟨hcut, hanswered, hadmits⟩ := hnow
    refine ⟨hcut, fun e he hF => ?_⟩
    rcases List.mem_append.mp he with he | he
    · exact answered_move hanswered e he hF
    · obtain rfl := List.mem_singleton.mp he
      exact absurd hF hadmits

/-- **Revocation is final** in every run in which nothing is outstanding when it happens. -/
theorem revocationFinal (P : Oidc) (ms : List ProviderMove)
    (hms : Runs.Meets (Provider.step P) RevokesSettled Provider.empty ms) :
    RevocationFinal (Provider.run P Provider.empty ms) := by
  obtain ⟨-, hsettled⟩ := Runs.run_invariant_of_meets
    (I := fun s => s.Specified (OidcOp.exec P) (Before P) (Answered P) OidcWorld.empty ∧ Settled s)
    (fun s m hs hm => ⟨hs.1.move (handle_spec (P := P)) m, hs.2.move hs.1 hm⟩) ms
    ⟨specified_init, ⟨fun hsplit => by simp [Provider.empty, Sys.init] at hsplit,
      fun hsplit => by simp [Provider.empty, Sys.init] at hsplit⟩⟩ hms
  exact ⟨fun hsplit hcall hno => (hsettled.grant hsplit hcall hno).1.refused,
    fun hsplit hcall _ => (hsettled.client hsplit hcall).1.refused⟩

/-! ### A code that outlives its grant -/

instance (a : AccountId) (c : OAuthClientId) (data : Parked) : Decidable (data.NotFor a c) := by
  unfold Parked.NotFor
  split <;> infer_instance

instance (a : AccountId) (c : OAuthClientId) (e : OidcEvent) : Decidable (Opens a c e) := by
  unfold Opens
  generalize e.req = req
  generalize e.call = call
  obtain ⟨op, res⟩ := call
  cases_type Request <;> try infer_instance
  · -- a login that finds the grant
    cases_type OidcOp <;> try infer_instance
    rcases res with _ | _ | grant <;> infer_instance
  · -- a consent
    cases_type OidcOp <;> try infer_instance
    rcases res with _ | _ <;> infer_instance
  · -- a code, or a refresh token
    cases_type OidcOp <;> try infer_instance
    · rcases res with _ | ⟨_ | _ | _ | _ | _⟩ <;> infer_instance
    · rcases res with _ | _ | row <;> infer_instance

instance (c : OAuthClientId) (e : OidcEvent) : Decidable (Admits c e) := by
  unfold Admits
  generalize e.req = req
  generalize e.call = call
  obtain ⟨op, res⟩ := call
  cases_type Request <;> try infer_instance
  cases_type OidcOp <;> try infer_instance
  · rcases res with _ | _ | client <;> infer_instance
  · rcases res with _ | _ | _ <;> infer_instance

instance (a : AccountId) (c : OAuthClientId) (s : Provider) : Decidable (GrantSettled a c s) :=
  decidable_of_iff ((∀ entry ∈ s.world.challenges, entry.data.NotFor a c) ∧
    ∀ e ∈ s.past, Opens a c e → (s.answer e.thread).isSome)
    ⟨fun h => ⟨h.1, h.2⟩, fun h => ⟨h.codes, h.answered⟩⟩

instance (c : OAuthClientId) (s : Provider) : Decidable (ClientSettled c s) :=
  inferInstanceAs (Decidable (∀ e ∈ s.past, _))

instance (s : Provider) (m : ProviderMove) : Decidable (RevokesSettled s m) := by
  unfold RevokesSettled
  split
  · infer_instance
  · refine @instDecidableForall _ _ _ ?_
    split <;> infer_instance

instance (a : AccountId) (c : OAuthClientId) (e : OidcEvent) : Decidable (Consents a c e) :=
  decidable_of_iff ((match e.call with
    | ⟨.upsertGrant a' c' _, .ok _⟩ => decide (a' = a ∧ c' = c)
    | _ => false) = true) <| by
      unfold Consents
      split
      · rename_i a' c' scopes hcall
        simp [hcall]
      · rename_i hother
        simpa using fun scopes hcall => hother a c scopes () hcall

/-- The call revokes the grant. -/
def RevokesGrant (a : AccountId) (c : OAuthClientId) (e : OidcEvent) : Prop :=
  e.call = ⟨.revokeGrant a c, .ok ()⟩

instance (a : AccountId) (c : OAuthClientId) (e : OidcEvent) : Decidable (RevokesGrant a c e) :=
  decidable_of_iff ((match e.call with
    | ⟨.revokeGrant a' c', .ok _⟩ => decide (a' = a ∧ c' = c)
    | _ => false) = true) <| by
      unfold RevokesGrant
      split
      · rename_i a' c' hcall
        simp [hcall]
      · rename_i hother
        simpa using fun hcall => hother a c () hcall

/-- The grant is revoked after the exchange of the code, and a refresh is refused. -/
def grantRevoked : List ProviderMove :=
  codeExchange ++ serve 10 (.revokeGrant sampleAccount sampleClient) (plain 1) ++
  serve 11 (.token (refreshForm none)) (plain 3)

theorem revocationFinal_grantRevoked :
    (Provider.run sampleOidc Provider.empty grantRevoked).answer 11 =
      some (.oauthError "invalid_grant") ∧
    RevocationFinal (Provider.run sampleOidc Provider.empty grantRevoked) := by
  have hrun : (Provider.run sampleOidc Provider.empty grantRevoked).answer 11 =
        some (.oauthError "invalid_grant") ∧
      Runs.Meets (Provider.step sampleOidc) RevokesSettled Provider.empty grantRevoked := by
    decide +kernel
  exact ⟨hrun.1, revocationFinal sampleOidc grantRevoked hrun.2⟩

/-- The grant is revoked while the code is parked, and the code is exchanged. -/
def codeOutlives : List ProviderMove :=
  codeLogin ++ serve 9 (.revokeGrant sampleAccount sampleClient) (plain 1) ++
  serve 10 (.token codeForm) (plain 4 ++ [{ secret := 3 }] ++ plain 3 ++ [{ uuid := 16, secret := 4 }])

theorem not_revocationFinal_codeOutlives :
    ¬RevocationFinal (Provider.run sampleOidc Provider.empty codeOutlives) := by
  have hrun : ((Provider.run sampleOidc Provider.empty codeOutlives).past[30]?.any fun e =>
        RevokesGrant sampleAccount sampleClient e) = true ∧
      (∀ x ∈ (Provider.run sampleOidc Provider.empty codeOutlives).past.drop 31,
        ¬Consents sampleAccount sampleClient x) ∧
      (((Provider.run sampleOidc Provider.empty codeOutlives).world.db.bearer
        (secretText tokenPrefix 3) 0 fun _ => true).any fun found =>
          found.2.accountId = sampleAccount ∧ found.2.oauthClientId = some sampleClient) = true := by
    decide +kernel
  generalize Provider.run sampleOidc Provider.empty codeOutlives = s at hrun
  obtain ⟨hrevoked, hno, hbearer⟩ := hrun
  intro hfinal
  obtain ⟨e, he, hrevoked⟩ := (Option.any_eq_true _ _).mp hrevoked
  obtain ⟨⟨account, row⟩, hfound, hrow⟩ := (Option.any_eq_true _ _).mp hbearer
  obtain ⟨haccount, hclient⟩ := of_decide_eq_true hrow
  have hcall : RevokesGrant sampleAccount sampleClient e := of_decide_eq_true hrevoked
  exact (hfinal.grant (split_at he) hcall hno).access hfound hclient ⟨haccount, rfl⟩

end Owney
