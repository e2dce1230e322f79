import Owney.OidcRefresh

/-!
# The revocation endpoint

`POST /oidc/revoke` ends a refresh token with its family, after the row of the token has told
whose client it is. A bearer token it ends by its hash alone, and nothing asks whose that is.

* `RevokeFrame` — what one call of a revocation leaves as it was.
* `revocationLaw` — the law of a run in which clients present bearer tokens of their own
  (`OwnBearer`), SQLite fails no revocation, and no refresh drops `offline_access`.
* `not_revocationLaw_personalToken` — a client that ends a personal token.
-/

namespace Owney

open Programs Tables

variable {P : Oidc} {past pre mid post : List OidcEvent} {w w' : OidcWorld} {e e' : OidcEvent}

/-! ## The calls of a revocation -/

/-- The client that a revocation names. -/
def RevokeForm.client (form : RevokeForm) : Option OAuthClientId :=
  form.toTokenForm.presented.bind fun x => OAuthClientId.fromStr x.1

/-- A call of `authenticate_client`. -/
def OidcOp.Authenticates : OidcOp → Prop
  | .oauthClient _ | .verifySecret .. => True
  | _ => False

variable (P) in
/-- What a revocation did before each of its calls. -/
def BeforeRevoke (r : Request) (cs : Calls) (o : OidcOp) : Prop :=
  ∀ form, r = .revoke form → o.Authenticates ∨
    ∃ client token, ClientPassed form.toTokenForm cs client ∧ form.token = some token ∧
      (o = .refreshByHash (P.blake3 token) ∨ o = .revokeByHash (P.blake3 token) ∨
        ∃ row, Did cs (.refreshByHash (P.blake3 token)) (.ok (some row)) ∧
          row.clientId = client.id ∧ o = .revokeFamily row.familyId)

variable (P) in
/-- What a revocation of a refresh token did before it answered that all is well. -/
def RevokeAnswered (r : Request) (cs : Calls) (answer : Response) : Prop :=
  ∀ form token, r = .revoke form → answer = .ok → form.token = some token →
    hasPrefix refreshPrefix token → ∃ client res, ClientPassed form.toTokenForm cs client ∧
      Did cs (.refreshByHash (P.blake3 token)) res ∧
        ∀ row, res = .ok (some row) → row.clientId = client.id →
          ∃ done, Did cs (.revokeFamily row.familyId) done

theorem authenticateClient_calls (form : TokenForm) :
    (authenticateClient form).Spec (fun _ o => o.Authenticates) (fun cs res => match res with
      | .ok client => ClientPassed form cs client
      | .error refused => refused ≠ .ok) [] := by
  unfold authenticateClient
  split
  swap
  · rintro ⟨⟩
  rename_i text secret hpresented
  split
  swap
  · rintro ⟨⟩
  rename_i clientId hid
  refine spec_ask.mpr ⟨trivial, ?_⟩
  rintro (e | _ | client)
  · rintro ⟨⟩
  · rintro ⟨⟩
  dsimp only
  split
  · rintro ⟨⟩
  rename_i henabled
  have henabled' : client.disabled = false := by simpa using henabled
  split
  · rename_i hpublic
    exact ⟨text, secret, clientId, hpresented, hid, did_last, henabled', .inl hpublic⟩
  split
  swap
  · rintro ⟨⟩
  rename_i secret
  refine spec_ask.mpr ⟨trivial, ?_⟩
  rintro (e | _ | _)
  · rintro ⟨⟩
  · rintro ⟨⟩
  · exact ⟨text, some secret, clientId, hpresented, hid, did_last.append, henabled',
      .inr ⟨secret, rfl, did_last⟩⟩

/-- The endpoint, gone through once. -/
theorem revoke_calls (form : RevokeForm) :
    (revoke P form).Spec (BeforeRevoke P (.revoke form)) (RevokeAnswered P (.revoke form)) [] := by
  have hbefore : ∀ (cs : Calls) (o : OidcOp), o.Authenticates → BeforeRevoke P (.revoke form) cs o :=
    fun _ _ ho _ _ => .inl ho
  have hauth := (authenticateClient_calls form.toTokenForm).mono hbefore fun _ _ h => h
  refine hauth.seq ?_
  rintro more (refused | client) hclient
  · exact fun _ _ _ hok => absurd hok hclient
  dsimp only at hclient ⊢
  split
  swap
  · -- nothing is presented
    rename_i hnone
    rintro _ token ⟨⟩ - htoken
    rw [htoken] at hnone
    exact absurd rfl (hnone token)
  rename_i token htoken
  split
  · rename_i hpre
    unfold refreshTokenByPlaintext
    rw [if_pos hpre]
    refine spec_ask.mpr ⟨?_, ?_⟩
    · rintro _ ⟨⟩
      exact .inr ⟨client, token, hclient, htoken, .inl rfl⟩
    rintro (e | _ | row)
    · rintro _ token' ⟨⟩ - htoken' -
      obtain rfl := Option.some.inj (htoken.symm.trans htoken')
      exact ⟨client, _, hclient.append, did_last, fun _ h => nomatch h⟩
    · rintro _ token' ⟨⟩ - htoken' -
      obtain rfl := Option.some.inj (htoken.symm.trans htoken')
      exact ⟨client, _, hclient.append, did_last, fun _ h => nomatch h⟩
    dsimp only
    split
    · rename_i hown
      refine spec_ask.mpr ⟨?_, fun done => ?_⟩
      · rintro _ ⟨⟩
        exact .inr ⟨client, token, hclient.append, htoken, .inr (.inr ⟨row, did_last, hown, rfl⟩)⟩
      rintro _ token' ⟨⟩ - htoken' -
      obtain rfl := Option.some.inj (htoken.symm.trans htoken')
      refine ⟨client, _, hclient.append.append, did_last.append, ?_⟩
      rintro row' hrow -
      obtain rfl : row = row' := by simpa using hrow
      exact ⟨done, did_last⟩
    · rename_i hforeign
      rintro _ token' ⟨⟩ - htoken' -
      obtain rfl := Option.some.inj (htoken.symm.trans htoken')
      refine ⟨client, _, hclient.append, did_last, ?_⟩
      rintro row' hrow hown
      obtain rfl : row = row' := by simpa using hrow
      exact absurd hown hforeign
  · rename_i hother
    have hnot : ∀ cs, RevokeAnswered P (.revoke form) cs .ok := by
      rintro cs _ token' ⟨⟩ - htoken' hpre
      obtain rfl := Option.some.inj (htoken.symm.trans htoken')
      exact absurd hpre hother
    split
    · refine spec_ask.mpr ⟨?_, fun _ => hnot _⟩
      rintro _ ⟨⟩
      exact .inr ⟨client, token, hclient, htoken, .inr (.inl rfl)⟩
    · exact hnot _

/-- Of every handler: what a revocation did. -/
theorem handle_revoke (r : Request) :
    (handle P r).Spec (BeforeRevoke P r) (RevokeAnswered P r) [] := by
  cases r with
  | revoke form => exact revoke_calls form
  | _ =>
    refine (handle_spec (P := P) _).mono ?_ ?_
    · rintro cs o - form ⟨⟩
    · rintro cs answer - form token ⟨⟩

/-! ## Whose tokens are in a family

All refresh tokens of a family are of one account and one client, and so are the access tokens
that are linked to them. -/

/-- The bearer token with the hash is the account's, issued to the client. -/
def IssuedTo (hash : String) (a : AccountId) (c : OAuthClientId) (w : OidcWorld) : Prop :=
  hash ∈ w.drawn ∧ ∀ p ∈ w.db.appPasswords, p.tokenHash = hash →
    p.accountId = a ∧ p.oauthClientId = some c

theorem IssuedTo.step {hash : String} {a : AccountId} {c : OAuthClientId}
    {call : Call OidcOp.Ret} (h : IssuedTo hash a c w) (heffect : DbEffect P w call w')
    (hdrawn : w.drawn ⊆ w'.drawn) : IssuedTo hash a c w' := by
  obtain ⟨p, added, hrows, hadded⟩ := heffect.appPasswords
  refine ⟨hdrawn h.1, fun r hr hhash => ?_⟩
  rw [hrows] at hr
  rcases List.mem_append.mp hr with hr | hr
  · exact h.2 r (List.mem_filter.mp hr).1 hhash
  · exact absurd (hhash ▸ h.1) (hadded.fresh.2 r hr).1

/-- Whom an access token was minted for, it is issued to. -/
theorem Minted.issuedTo {i : ℕ} {client : OAuthClient} {a : AccountId} {scopes : List String}
    {token hash : String} (h : OidcPast P past w)
    (hminted : Minted (callsOf i past) client a scopes token hash) :
    IssuedTo hash a client.id w := by
  obtain ⟨name, expiresAt, hdid⟩ := hminted
  obtain ⟨e, he, -, hcall⟩ := mem_callsOf.mp hdid
  obtain ⟨pre, post, hsplit, hat⟩ := h.exists_at he
  refine h.persists (J := IssuedTo hash a client.id) hsplit
    (fun _ _ _ _ hat hissued => hissued.step (at_db hat) (at_drawn hat)) ?_
  have heffect := at_db hat
  rw [hcall] at heffect
  cases heffect with
  | tokenMinted made fresh drawn db =>
    cases made
    refine ⟨drawn, fun p hp hhash => ?_⟩
    rw [db] at hp
    rcases List.mem_append.mp hp with hp | hp
    · exact absurd (hhash ▸ (hashesDrawn hat.earlier).app_drawn p hp) fresh
    · obtain rfl := List.mem_singleton.mp hp
      exact ⟨rfl, rfl⟩
  | kept quiet => cases quiet
  | clientCreated made | clientDisabled made | grantUpserted made | grantRevoked made
  | refreshCreated made | familyRevoked made | rotated made | tokenCreated made
  | tokenRevoked made | passkeySaved made | counterUpdated made | passkeyDisabled made
  | accountsSet made => cases made

/-- One owner and one client for each family and its access tokens. -/
structure FamiliesOwned (w : OidcWorld) : Prop where
  family : ∀ r ∈ w.db.refreshTokens, ∀ r' ∈ w.db.refreshTokens, r.familyId = r'.familyId →
    r.accountId = r'.accountId ∧ r.clientId = r'.clientId
  linked : ∀ r ∈ w.db.refreshTokens, ∀ a, r.accessTokenHash = some a →
    IssuedTo a r.accountId r.clientId w

/-- A refresh token that a call adds: it starts a family, or has an older one of its account and
client in it; and its access token was minted for both. -/
theorem owned_of_added {added : List RefreshTokensRow} (hat : OidcAt P past e)
    (hadded : RefreshAdded P e.before e.call e.after added) {r : RefreshTokensRow}
    (hr : r ∈ added) :
    (r.familyId ∉ e.before.drawn ∨ ∃ old ∈ e.before.db.refreshTokens,
      old.familyId = r.familyId ∧ old.accountId = r.accountId ∧ old.clientId = r.clientId) ∧
    ∀ a, r.accessTokenHash = some a → IssuedTo a r.accountId r.clientId e.before := by
  have hguard := hat.guard
  cases hadded with
  | none => cases hr
  | first made fresh freshFamily =>
    obtain rfl := List.mem_singleton.mp hr
    refine ⟨.inl freshFamily, fun a ha => ?_⟩
    rw [made] at hguard
    obtain ⟨form, client, code, grant, token, hash, -, rfl, rfl, -, -, hminted⟩ := hguard
    obtain rfl : hash = a := Option.some.inj ha
    exact hminted.issuedTo hat.earlier
  | @successor _ _ _ _ old made found =>
    obtain rfl := List.mem_singleton.mp hr
    have hold := List.mem_of_find?_eq_some found
    refine ⟨.inr ⟨old, hold, rfl, rfl, rfl⟩, fun a ha => ?_⟩
    rw [made] at hguard
    obtain ⟨form, client, row, scopes, token, hash, -, rfl, rfl, -, ⟨-, hredeems⟩, hminted⟩ := hguard
    obtain rfl : hash = a := Option.some.inj ha
    cases hredeems with
    | refresh type named pre hfound client_eq =>
      -- the row that was looked up is the one that is rotated
      obtain ⟨r, r', hr', -, rfl, hlater⟩ := row_later_of_refreshByHash hat.earlier hfound
      have hhash : old.tokenHash = r.toRefresh.tokenHash := by simpa using List.find?_some found
      obtain rfl := refresh_eq_of_hash hat.earlier hold hr' (hhash.trans hlater.tokenHash.symm)
      have hissued := hminted.issuedTo hat.earlier
      rw [← client_eq] at hissued
      change IssuedTo hash old.accountId old.clientId e.before
      rw [hlater.accountId, hlater.clientId]
      exact hissued

theorem familiesOwned (h : OidcPast P past w) : FamiliesOwned w := by
  refine h.invariant (I := fun _ w => FamiliesOwned w)
    ⟨by rintro r ⟨⟩, by rintro r ⟨⟩⟩ ?_
  intro past e hat _ ih
  obtain ⟨f, added, hrows, hf, hadded⟩ := (at_db hat).refreshTokens
  -- each row comes from an older one, or starts a family
  have horigin : ∀ r ∈ e.after.db.refreshTokens,
      (∃ old ∈ e.before.db.refreshTokens, old.familyId = r.familyId ∧
        old.accountId = r.accountId ∧ old.clientId = r.clientId) ∨
      r.familyId ∉ e.before.drawn ∧ r ∈ added := by
    intro r hr
    rw [hrows] at hr
    rcases List.mem_append.mp hr with hr | hr
    · obtain ⟨old, hold, rfl⟩ := List.mem_map.mp hr
      exact .inl ⟨old, hold, (hf old).familyId.symm, (hf old).accountId.symm,
        (hf old).clientId.symm⟩
    · rcases (owned_of_added hat hadded hr).1 with hfresh | hold
      · exact .inr ⟨hfresh, hr⟩
      · exact .inl hold
  have hdrawn := (hashesDrawn hat.earlier).refresh_drawn
  refine ⟨fun r hr r' hr' hfamily => ?_, fun r hr a ha => ?_⟩
  · rcases horigin r hr, horigin r' hr' with
      ⟨⟨old, hold, hf₁, ha₁, hc₁⟩ | ⟨hfresh, hadd⟩, ⟨old', hold', hf₂, ha₂, hc₂⟩ | ⟨hfresh', hadd'⟩⟩
    · rw [← ha₁, ← hc₁, ← ha₂, ← hc₂]
      exact ih.family old hold old' hold' (by rw [hf₁, hf₂, hfamily])
    · exact absurd (hfamily ▸ hf₁ ▸ (hdrawn old hold).2) hfresh'
    · exact absurd (hfamily ▸ hf₂ ▸ (hdrawn old' hold').2) hfresh
    · -- a call adds one row at most
      have heq : r = r' := by cases hadded <;> simp_all
      rw [heq]
      exact ⟨rfl, rfl⟩
  · rw [hrows] at hr
    rcases List.mem_append.mp hr with hr | hr
    · obtain ⟨old, hold, rfl⟩ := List.mem_map.mp hr
      rw [(hf old).accessTokenHash] at ha
      rw [(hf old).accountId, (hf old).clientId]
      exact (ih.linked old hold a ha).step (at_db hat) (at_drawn hat)
    · exact ((owned_of_added hat hadded hr).2 a ha).step (at_db hat) (at_drawn hat)

/-! ## The frame -/

variable (P) in
/-- The account of a token. -/
def AccountOf (w : OidcWorld) (token : String) (a : AccountId) : Prop :=
  (∃ r ∈ w.db.appPasswords, r.tokenHash = P.blake3 token ∧ r.accountId = a) ∨
    ∃ r ∈ w.db.refreshTokens, r.tokenHash = P.blake3 token ∧ r.accountId = a

variable (P) in
/-- What a call for the revocation of a token leaves: everything that decides whether a token
is accepted, but for tokens that were issued to the client for the account of the token. -/
structure RevokeFrame (e : OidcEvent) (c : OAuthClientId) (token : String) : Prop where
  bearer : ∀ r : AppPasswordsRow, (r ∈ e.after.db.appPasswords ↔ r ∈ e.before.db.appPasswords) ∨
    r.oauthClientId = some c ∧ AccountOf P e.before token r.accountId
  refresh : ∀ r : RefreshTokensRow,
    (r ∈ e.after.db.refreshTokens ↔ r ∈ e.before.db.refreshTokens) ∨
      r.clientId = c ∧ AccountOf P e.before token r.accountId
  accounts : e.after.db.accounts = e.before.db.accounts
  clients : e.after.db.clients = e.before.db.clients
  now : e.after.now = e.before.now

/-- A call that writes nothing. -/
theorem RevokeFrame.of_eq {c : OAuthClientId} {token : String} (hdb : e.after.db = e.before.db)
    (hnow : e.after.now = e.before.now) : RevokeFrame P e c token := by
  refine ⟨fun r => .inl ?_, fun r => .inl ?_, ?_, ?_, hnow⟩ <;> rw [hdb]

theorem DbEffect.db_eq {call : Call OidcOp.Ret} (h : DbEffect P w call w')
    (hquiet : Wrote call = false) : w'.db = w.db := by
  cases h with
  | kept _ db => exact db
  | clientCreated made | clientDisabled made | grantUpserted made | grantRevoked made
  | refreshCreated made | rotated made | familyRevoked made | tokenMinted made
  | tokenCreated made | tokenRevoked made | passkeySaved made | counterUpdated made
  | passkeyDisabled made | accountsSet made =>
    rw [made] at hquiet
    cases hquiet

theorem StoreEffect.now_eq {call : Call OidcOp.Ret} (h : StoreEffect w call w')
    (hop : ∀ now, call.op ≠ .tick now) : w'.now = w.now := by
  cases h with
  | ticked made => exact absurd (by rw [made]) (hop _)
  | kept _ now | stored _ _ _ _ now | minted _ _ _ _ now | peeked _ _ now | retrieved _ _ now
  | cleaned _ now => exact now

section Frame

variable {form : RevokeForm} {client : OAuthClient} {token : String}

/-- **A family that is revoked** is the client's, and all of one account. -/
theorem revokeFrame_family (hat : OidcAt P past e) {row : RefreshTokenRow}
    (hfound : Did (callsOf e.thread past) (.refreshByHash (P.blake3 token)) (.ok (some row)))
    (hown : row.clientId = client.id) (hcall : e.call = ⟨.revokeFamily row.familyId, .ok ()⟩)
    (hnow : e.after.now = e.before.now) : RevokeFrame P e client.id token := by
  obtain ⟨r₀, r, hr, hhash, rfl, hlater⟩ := row_later_of_refreshByHash hat.earlier hfound
  change e.call = ⟨.revokeFamily r₀.familyId, .ok ()⟩ at hcall
  have howned := familiesOwned hat.earlier
  have haccount : ∀ r' ∈ e.before.db.refreshTokens, r'.familyId = r₀.familyId →
      r'.clientId = client.id ∧ AccountOf P e.before token r'.accountId := by
    intro r' hr' hfamily
    obtain ⟨ha, hc⟩ := howned.family r' hr' r hr (hfamily.trans hlater.familyId.symm)
    refine ⟨hc.trans (hlater.clientId.trans hown), .inr ⟨r, hr, hlater.tokenHash.trans hhash, ?_⟩⟩
    exact ha.symm
  have heffect := at_db hat
  rw [hcall] at heffect
  cases heffect with
  | familyRevoked made db =>
    cases made
    refine ⟨fun p => ?_, fun r' => ?_, by rw [db], by rw [db], hnow⟩
    · rw [db]
      by_cases hlinked : ∃ r' ∈ e.before.db.refreshTokens, r'.familyId = r₀.familyId ∧
          r'.accessTokenHash = some p.tokenHash
      · obtain ⟨r', hr', hfamily, hlink⟩ := hlinked
        by_cases hp : p ∈ e.before.db.appPasswords
        · obtain ⟨hc, ha⟩ := haccount r' hr' hfamily
          obtain ⟨ha', hc'⟩ := (howned.linked r' hr' _ hlink).2 p hp rfl
          exact .inr ⟨by rw [hc', hc], by rw [ha']; exact ha⟩
        · exact .inl ⟨fun h => absurd (List.mem_filter.mp h).1 hp, fun h => absurd h hp⟩
      · refine .inl ⟨fun h => (List.mem_filter.mp h).1, fun h => List.mem_filter.mpr ⟨h, ?_⟩⟩
        simpa using fun r' hr' hfamily hlink => hlinked ⟨r', hr', hfamily, hlink⟩
    · by_cases hfamily : r'.familyId = r₀.familyId
      · -- a row of the family, as it was or as it is
        by_cases hr' : r' ∈ e.before.db.refreshTokens
        · exact .inr (haccount r' hr' hfamily)
        by_cases hafter : r' ∈ e.after.db.refreshTokens
        · rw [db] at hafter
          obtain ⟨old, hold, hupdated⟩ := List.mem_map.mp hafter
          have hlater := RefreshTokensRow.later_revoke
            (fun r => r.familyId = r₀.familyId ∧ r.revokedAt = none) e.before.unix old
          rw [hupdated] at hlater
          obtain ⟨hc, ha⟩ := haccount old hold (hlater.familyId.symm.trans hfamily)
          exact .inr ⟨by rw [hlater.clientId, hc], by rw [hlater.accountId]; exact ha⟩
        · exact .inl ⟨fun h => absurd h hafter, fun h => absurd h hr'⟩
      · refine .inl ?_
        rw [db]
        refine ⟨fun h => ?_, fun h => ?_⟩
        · obtain ⟨old, hold, rfl⟩ := mem_update.mp h
          by_cases hlive : old.familyId = r₀.familyId ∧ old.revokedAt = none
          · rw [if_pos (by simpa using hlive)] at hfamily
            exact absurd hlive.1 hfamily
          · rwa [if_neg (by simpa using hlive)]
        · exact mem_update.mpr ⟨r', h, if_neg (by simp [hfamily])⟩
  | kept quiet => cases quiet
  | clientCreated made | clientDisabled made | grantUpserted made | grantRevoked made
  | refreshCreated made | rotated made | tokenMinted made | tokenCreated made
  | tokenRevoked made | passkeySaved made | counterUpdated made | passkeyDisabled made
  | accountsSet made => cases made

/-- **A bearer token that is revoked** may be anyone's. -/
theorem revokeFrame_bearer (hat : OidcAt P past e)
    (hown : ∀ r ∈ e.before.db.appPasswords, r.tokenHash = P.blake3 token →
      r.oauthClientId = some client.id)
    (hcall : e.call = ⟨.revokeByHash (P.blake3 token), .ok ()⟩)
    (hnow : e.after.now = e.before.now) : RevokeFrame P e client.id token := by
  have heffect := at_db hat
  rw [hcall] at heffect
  cases heffect with
  | tokenRevoked made db =>
    cases made
    refine ⟨fun p => ?_, fun r => .inl (by rw [db]), by rw [db], by rw [db], hnow⟩
    rw [db]
    by_cases hp : p ∈ e.before.db.appPasswords ∧ p.tokenHash = P.blake3 token
    · exact .inr ⟨hown p hp.1 hp.2, .inl ⟨p, hp.1, hp.2, rfl⟩⟩
    · refine .inl ⟨fun h => (List.mem_filter.mp h).1, fun h => List.mem_filter.mpr ⟨h, ?_⟩⟩
      simpa using fun hhash => hp ⟨h, hhash⟩
  | kept quiet => cases quiet
  | clientCreated made | clientDisabled made | grantUpserted made | grantRevoked made
  | refreshCreated made | rotated made | familyRevoked made | tokenMinted made
  | tokenCreated made | passkeySaved made | counterUpdated made | passkeyDisabled made
  | accountsSet made => cases made

end Frame

/-! ## The law -/

variable (P) in
/-- The token was a refresh token of the family, issued to the client, at each call of the
`i`-th request. -/
def Presented (s : Provider) (i : ℕ) (c : OAuthClientId) (token familyId : String) : Prop :=
  hasPrefix refreshPrefix token ∧ ∀ e ∈ s.past, e.thread = i →
    ∃ r ∈ e.before.db.refreshTokens, r.tokenHash = P.blake3 token ∧ r.clientId = c ∧
      r.familyId = familyId

variable (P) in
/-- A revocation changes what is accepted of its client's tokens for one account only, and the
revocation of a refresh token ends the access tokens of the family. -/
structure RevocationLaw (s : Provider) : Prop where
  frame : ∀ {e form c token}, e ∈ s.past → e.req = .revoke form → form.client = some c →
    form.token = some token → RevokeFrame P e c token
  family : ∀ {i form c token familyId}, s.request i = some (.revoke form) →
    s.answer i = some .ok → form.client = some c → form.token = some token →
    Presented P s i c token familyId → ∀ {j accessToken}, Granted P s j familyId accessToken →
    ∀ now p, s.world.db.bearer (P.blake3 accessToken) now p = none

/-- A bearer token that is presented for revocation was issued to the client that presents
it. -/
def OwnBearer (_ : List OidcEvent) (e : OidcEvent) : Prop :=
  match e.req, e.call.op with
  | .revoke form, .revokeByHash hash => ∀ r ∈ e.before.db.appPasswords, r.tokenHash = hash →
    r.oauthClientId = form.client
  | _, _ => True

/-- SQLite does not fail in a revocation. -/
def RevocationSafe (_ : List OidcEvent) (e : OidcEvent) : Prop :=
  match e.req with
  | .revoke _ => e.choice.io 0 = true ∧ e.choice.io 1 = true
  | _ => True

instance (pre : List OidcEvent) (e : OidcEvent) : Decidable (OwnBearer pre e) := by
  unfold OwnBearer
  generalize e.req = req
  generalize e.call.op = op
  cases_type Request <;> try infer_instance
  cases_type OidcOp <;> infer_instance

instance (pre : List OidcEvent) (e : OidcEvent) : Decidable (RevocationSafe pre e) := by
  unfold RevocationSafe
  generalize e.req = req
  cases_type Request <;> infer_instance

/-- The client that passed is the one that is named. -/
theorem ClientPassed.client_eq {form : RevokeForm} {i : ℕ} {client : OAuthClient}
    {c : OAuthClientId} (h : OidcPast P past w)
    (hpassed : ClientPassed form.toTokenForm (callsOf i past) client) (hc : form.client = some c) :
    client.id = c := by
  obtain ⟨text, secret, hpresented, hid⟩ := hpassed.presented h
  rw [RevokeForm.client, hpresented, Option.bind_some, hid] at hc
  exact Option.some.inj hc

/-- A call of `authenticate_client` changes nothing. -/
theorem OidcOp.Authenticates.quiet {o : OidcOp} (h : o.Authenticates) (res : o.Ret) :
    Wrote ⟨o, res⟩ = false ∧ ∀ now, o ≠ .tick now := by
  cases o with
  | oauthClient id | verifySecret id secret => exact ⟨rfl, fun _ h => nomatch h⟩
  | _ => exact absurd h id

/-- **The frame of one call.** -/
theorem revokeFrame {form : RevokeForm} {c : OAuthClientId} {token : String}
    (hat : OidcAt P past e) (hguard : BeforeRevoke P e.req (callsOf e.thread past) e.call.op)
    (hreq : e.req = .revoke form) (hc : form.client = some c) (htoken : form.token = some token)
    (hown : OwnBearer past e) : RevokeFrame P e c token := by
  have hquiet : Wrote e.call = false → (∀ now, e.call.op ≠ .tick now) → RevokeFrame P e c token :=
    fun hwrote htick => .of_eq ((at_db hat).db_eq hwrote) ((at_store hat).now_eq htick)
  have hnow := (at_store hat).now_eq
  rcases hcall : e.call with ⟨o, res⟩
  rw [hcall] at hguard hquiet hnow
  rcases hguard form hreq with hauth | ⟨client, token', hpassed, htoken', hop⟩
  · obtain ⟨hwrote, htick⟩ := hauth.quiet res
    exact hquiet hwrote htick
  obtain rfl := Option.some.inj (htoken.symm.trans htoken')
  obtain rfl := hpassed.client_eq hat.earlier hc
  rcases hop with rfl | rfl | ⟨row, hfound, hrow, rfl⟩
  · exact hquiet rfl fun _ h => nomatch h
  · rcases res with err | ⟨⟩
    · exact hquiet rfl fun _ h => nomatch h
    refine revokeFrame_bearer hat (fun r hr hhash => ?_) hcall (hnow fun _ h => nomatch h)
    simp only [OwnBearer, hreq, hcall] at hown
    rw [hown r hr hhash, hc]
  · rcases res with err | ⟨⟩
    · exact hquiet rfl fun _ h => nomatch h
    · exact revokeFrame_family hat hfound hrow hcall (hnow fun _ h => nomatch h)

/-- When SQLite does not fail, a refresh token is found. -/
theorem refreshByHash_ok {hash : String} {res : Except StorageError (Option RefreshTokenRow)}
    (hat : OidcAt P past e) (hcall : e.call = ⟨.refreshByHash hash, res⟩)
    (hio : e.choice.io 0 = true) {r : RefreshTokensRow} (hr : r ∈ e.before.db.refreshTokens)
    (hhash : r.tokenHash = hash) : res = .ok (some r.toRefresh) := by
  have hexec := hat.possible
  rw [hcall] at hexec
  obtain ⟨hres, -⟩ := Prod.mk.inj (Option.some.inj hexec)
  obtain ⟨r', hfind⟩ : ∃ r', e.before.db.refreshTokens.find? (·.tokenHash = hash) = some r' :=
    Option.isSome_iff_exists.mp (List.find?_isSome.mpr ⟨r, hr, by simpa using hhash⟩)
  have hhash' : r'.tokenHash = hash := by simpa using List.find?_some hfind
  obtain rfl := refresh_eq_of_hash hat.earlier hr (List.mem_of_find?_eq_some hfind)
    (hhash.trans hhash'.symm)
  have hbody : refreshTokenByHashTx e.choice.io hash e.before.db =
      .ok (some r.toRefresh, e.before.db) := by
    refine Tx.query_eq_ok.mpr ⟨hio, ?_, rfl⟩
    rw [hfind, Option.map_some]
  exact hres.symm.trans (congrArg Prod.fst (transaction_eq_ok.mpr hbody))

/-- **The revocations of a run** in which clients present their own bearer tokens, SQLite
fails no revocation, and no refresh drops `offline_access`. -/
theorem revocationLaw (P : Oidc) (ms : List ProviderMove)
    (hown : Steps OwnBearer (Provider.run P Provider.empty ms).past)
    (hsafe : Steps RevocationSafe (Provider.run P Provider.empty ms).past)
    (hretired : Steps NotRetired (Provider.run P Provider.empty ms).past) :
    RevocationLaw P (Provider.run P Provider.empty ms) := by
  have hs := Provider.run_specified (P := P) ms
  have hrevoke : (Provider.run P Provider.empty ms).Specified (OidcOp.exec P) (BeforeRevoke P)
      (RevokeAnswered P) OidcWorld.empty :=
    Programs.run_specified (handle_revoke (P := P)) ms specified_init
  refine ⟨?_, ?_⟩
  · intro e form c token he hreq hc htoken
    obtain ⟨pre, post, hsplit, hat⟩ := hs.past.exists_at he
    exact revokeFrame hat (hrevoke.past.at_of_split hsplit).guard hreq hc htoken
      (hown pre e post hsplit)
  · intro i form c token familyId hreq hanswer hc htoken hpresented j accessToken hgranted
    obtain ⟨r, hr, hanswered⟩ := hrevoke.answered hanswer
    obtain rfl : .revoke form = r := Option.some.inj (hreq.symm.trans hr)
    obtain ⟨client, res, hpassed, hlookup, hrevoked⟩ :=
      hanswered form token rfl rfl htoken hpresented.1
    obtain rfl := hpassed.client_eq hs.past hc
    -- the token is found
    obtain ⟨e, he, rfl, hcall⟩ := mem_callsOf.mp hlookup
    obtain ⟨pre, post, hsplit, hat⟩ := hs.past.exists_at he
    have hio := hsafe pre e post hsplit
    simp only [RevocationSafe, req_of_thread hs hreq he rfl] at hio
    obtain ⟨row, hrow, hhash, hclient, rfl⟩ := hpresented.2 e he rfl
    obtain rfl := refreshByHash_ok hat hcall hio.1 hrow hhash
    -- its family is revoked
    obtain ⟨done, hdone⟩ := hrevoked _ rfl hclient
    obtain ⟨x, hx, hthread, hxcall⟩ := mem_callsOf.mp hdone
    obtain ⟨pre', post', hsplit', hat'⟩ := hs.past.exists_at hx
    have hio' := hsafe pre' x post' hsplit'
    simp only [RevocationSafe, req_of_thread hs hreq hx hthread] at hio'
    obtain rfl := revokeFamily_ok hat' hxcall hio'
    obtain ⟨r', hr', -, -, hfamily⟩ := hpresented.2 x hx hthread
    exact hgranted.gone hs hretired (closed_after hs.past hsplit' ⟨hxcall, r', hr', hfamily⟩)

/-! ### Whose token it is -/

/-- The client of the samples revokes the token. -/
def revokeForm (token : String) : RevokeForm where
  token := some token
  clientId := some sampleClient.text

/-- The client revokes its access token, and then its refresh token. -/
def ownRevoked : List ProviderMove :=
  codeExchange ++
  serve 10 (.revoke (revokeForm (secretText tokenPrefix 3))) (plain 2) ++
  serve 11 (.revoke (revokeForm (secretText refreshPrefix 4))) (plain 3)

theorem revocationLaw_ownRevoked :
    (Provider.run sampleOidc Provider.empty ownRevoked).answer 10 = some .ok ∧
    (Provider.run sampleOidc Provider.empty ownRevoked).answer 11 = some .ok ∧
    RevocationLaw sampleOidc (Provider.run sampleOidc Provider.empty ownRevoked) := by
  have hrun : ((Provider.run sampleOidc Provider.empty ownRevoked).answer 10 = some .ok ∧
      (Provider.run sampleOidc Provider.empty ownRevoked).answer 11 = some .ok) ∧
      Steps OwnBearer (Provider.run sampleOidc Provider.empty ownRevoked).past ∧
      Steps RevocationSafe (Provider.run sampleOidc Provider.empty ownRevoked).past ∧
      Steps NotRetired (Provider.run sampleOidc Provider.empty ownRevoked).past := by
    decide +kernel
  obtain ⟨⟨hfirst, hsecond⟩, hown, hsafe, hretired⟩ := hrun
  exact ⟨hfirst, hsecond, revocationLaw sampleOidc ownRevoked hown hsafe hretired⟩

/-- The client revokes the personal token with which the account enrolled its passkey. -/
def personalRevoked : List ProviderMove :=
  setUp ++ serve 5 (.revoke (revokeForm (secretText tokenPrefix 1))) (plain 2)

/-- **A personal token** ends, though it was issued to no client. -/
theorem not_revocationLaw_personalToken :
    ¬RevocationLaw sampleOidc (Provider.run sampleOidc Provider.empty personalRevoked) := by
  intro hlaw
  have hended : ∃ e ∈ (Provider.run sampleOidc Provider.empty personalRevoked).past,
      e.req = .revoke (revokeForm (secretText tokenPrefix 1)) ∧
      ∃ r ∈ e.before.db.appPasswords, r ∉ e.after.db.appPasswords ∧
        r.oauthClientId = none := by decide +kernel
  obtain ⟨e, he, hreq, r, hbefore, hafter, hnone⟩ := hended
  have hclient : (revokeForm (secretText tokenPrefix 1)).client = some sampleClient := by
    decide +kernel
  rcases (hlaw.frame he hreq hclient rfl).bearer r with hsame | ⟨hissued, -⟩
  · exact hafter (hsame.mpr hbefore)
  · rw [hnone] at hissued
    cases hissued

end Owney
