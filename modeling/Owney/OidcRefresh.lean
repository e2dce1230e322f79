import Owney.OidcTables

/-!
# Refresh-token families

A refresh token is rotated at most once, since a rotation needs it unused and leaves it
used. Whoever presents it again closes its family (`FamilyClosed`): all refresh tokens of
the family are revoked, and the access tokens linked to them are deleted, for good. This
covers all exchanges but one kind: a refresh that asks for less than `offline_access` is
not rotated. It retires the token with `revoke_token_by_hash`, which deletes bearer tokens
and leaves refresh tokens alone, so the token stays live and the new access token is
linked to nothing.
-/

namespace Owney

open Programs Tables

variable {P : Oidc} {past pre mid post : List OidcEvent} {w w' : OidcWorld} {e e' : OidcEvent}

/-! ## A second look at the token endpoint

A token request looks up one refresh token, and if that is used, and its own, it revokes
the family before it answers. -/

/-- The call looks up a refresh token. -/
def OidcOp.IsLookup : OidcOp → Prop
  | .refreshByHash _ => True
  | _ => False

/-- No refresh token was looked up. -/
def NoLookup (cs : Calls) : Prop := ∀ c ∈ cs, ¬c.op.IsLookup

/-- When a used token is found that belongs to the client that passed, its family is revoked
before the answer. -/
def ReuseHandled (r : Request) (cs : Calls) : Prop :=
  ∀ form hash row, r = .token form → Did cs (.refreshByHash hash) (.ok (some row)) →
    row.usedAt.isSome → ∃ client, ClientPassed form cs client ∧
      (row.clientId = client.id → ∃ res, Did cs (.revokeFamily row.familyId) res)

/-- The program makes no lookups. -/
def NeverLooks {α : Type} (p : Handler α) : Prop :=
  ∀ cs, p.Spec (fun _ o => ¬o.IsLookup) (fun _ _ => True) cs

section NeverLooks

variable {α β : Type} {cs : Calls}

theorem NeverLooks.pure (a : α) : NeverLooks (Pure.pure a : Handler α) := fun _ => trivial

theorem NeverLooks.ask {o : OidcOp} (ho : ¬o.IsLookup) : NeverLooks (ask o) := fun _ => ⟨ho, fun _ => trivial⟩

theorem NeverLooks.bind {p : Handler α} {f : α → Handler β} (hp : NeverLooks p) (hf : ∀ a, NeverLooks (f a)) :
    NeverLooks (p >>= f) := fun cs => (hp cs).seq fun _ a _ => hf a _

/-- What a program without lookups leaves: the calls from before, and no lookups. -/
theorem NeverLooks.frame {p : Handler α} (hp : NeverLooks p) (cs : Calls) :
    p.Spec (fun _ _ => True) (fun cs' _ => ∀ c ∈ cs', c ∈ cs ∨ ¬c.op.IsLookup) cs :=
  (hp cs).frame fun _ hc => .inl hc

/-- Without a lookup there is no reuse. -/
theorem NoLookup.reuseHandled {r : Request} (h : NoLookup cs) : ReuseHandled r cs :=
  fun _ _ _ _ hdid => absurd trivial (h _ hdid)

theorem NeverLooks.reuse {p : Handler Response} {r : Request} (hp : NeverLooks p) (hcs : NoLookup cs) :
    p.Spec (fun _ _ => True) (fun cs' _ => ReuseHandled r cs') cs :=
  (hp.frame cs).mono (fun _ _ h => h) fun _ _ hframe =>
    NoLookup.reuseHandled fun c hc => (hframe c hc).elim (hcs c) id

end NeverLooks

theorem neverLooks_authenticateClient (form : TokenForm) : NeverLooks (authenticateClient form) := by
  unfold authenticateClient
  split
  swap
  · exact .pure _
  split
  swap
  · exact .pure _
  refine (NeverLooks.ask id).bind ?_
  rintro (e | _ | client)
  · exact .pure _
  · exact .pure _
  dsimp only
  split
  · exact .pure _
  split
  · exact .pure _
  split
  swap
  · exact .pure _
  refine (NeverLooks.ask id).bind ?_
  rintro (e | _ | _) <;> exact .pure _

theorem neverLooks_issueTokens (accountId : AccountId) (clientId : OAuthClientId) (scopes : List String)
    (nonce rotateFrom : Option String) :
    NeverLooks (issueTokens P accountId clientId scopes nonce rotateFrom) := by
  unfold issueTokens issueIdToken issueRefreshToken
  refine (NeverLooks.ask id).bind ?_
  rintro (e | _ | account)
  · exact .pure _
  · exact .pure _
  refine (NeverLooks.ask id).bind fun now => (NeverLooks.ask id).bind ?_
  rintro (e | ⟨token, hash⟩)
  · exact .pure _
  refine NeverLooks.bind ?_ ?_
  · split
    · refine (NeverLooks.ask id).bind fun issued => (NeverLooks.ask id).bind ?_
      rintro (_ | idToken) <;> exact .pure _
    · exact .pure _
  rintro (refused | idToken)
  · exact .pure _
  refine NeverLooks.bind ?_ ?_
  · split
    · refine (NeverLooks.ask id).bind fun issued => ?_
      cases rotateFrom with
      | none => exact (NeverLooks.ask id).bind (by rintro (e | refreshToken) <;> exact .pure _)
      | some oldHash => exact (NeverLooks.ask id).bind (by rintro (e | refreshToken) <;> exact .pure _)
    · cases rotateFrom with
      | none => exact .pure _
      | some oldHash => exact (NeverLooks.ask id).bind fun _ => .pure _
  · rintro (refused | refreshToken) <;> exact .pure _

theorem neverLooks_codeGrant (client : OAuthClient) (form : TokenForm) :
    NeverLooks (codeGrant P client form) := by
  unfold codeGrant takeCode
  split
  swap
  · exact .pure _
  split
  swap
  · exact .pure _
  refine NeverLooks.bind ?_ ?_
  · split
    · refine (NeverLooks.ask id).bind ?_
      rintro (e | data) <;> exact .pure _
    · exact .pure _
  rintro (_ | grant)
  · exact .pure _
  dsimp only
  split
  · exact .pure _
  split
  · exact .pure _
  split
  · exact .pure _
  split
  · exact neverLooks_issueTokens _ _ _ _ _
  · exact .pure _

theorem authenticateClient_reuse (P : Oidc) {form : TokenForm} :
    (authenticateClient form).Spec (fun _ _ => True) (fun cs res => NoLookup cs ∧ match res with
      | .ok client => ClientPassed form cs client
      | .error _ => True) [] := by
  have hspec : (authenticateClient form).Spec (Before P (.token form)) _ [] :=
    authenticateClient_spec
  have hpassed : (authenticateClient form).Spec (fun _ _ => True) _ [] :=
    hspec.mono (fun _ _ _ => trivial) fun _ _ h => h
  refine (((neverLooks_authenticateClient form).frame []).and hpassed).mono (fun _ _ h => h.1) ?_
  rintro cs res ⟨hframe, h⟩
  refine ⟨fun c hc => (hframe c hc).elim (by rintro ⟨⟩) id, ?_⟩
  cases res with
  | error e => trivial
  | ok client => exact h

/-- The lookup is the only one. -/
theorem refreshTokenByPlaintext_reuse {cs : Calls} {token : String} (hcs : NoLookup cs) :
    (refreshTokenByPlaintext P token).Spec (fun _ _ => True) (fun cs' found => ∀ hash row,
      Did cs' (.refreshByHash hash) (.ok (some row)) → found = .ok (some row)) cs := by
  unfold refreshTokenByPlaintext
  split
  · refine ⟨trivial, fun found hash row hdid => ?_⟩
    rcases List.mem_append.mp hdid with hold | hnew
    · exact absurd trivial (hcs _ hold)
    · cases List.mem_singleton.mp hnew
      rfl
  · exact fun hash row hdid => absurd trivial (hcs _ hdid)

/-- **The lookup of a refresh exchange.** A used token that belongs to the client has its
family revoked. -/
theorem refreshGrant_reuse {cs : Calls} {client : OAuthClient} {form : TokenForm}
    (hcs : NoLookup cs) (hpassed : ClientPassed form cs client) :
    (refreshGrant P client form).Spec (fun _ _ => True)
      (fun cs' _ => ReuseHandled (.token form) cs') cs := by
  unfold refreshGrant
  split
  swap
  · exact hcs.reuseHandled
  refine (refreshTokenByPlaintext_reuse hcs).seq ?_
  rintro more (e | _ | row) hfound
  · exact fun _ hash row _ hdid => by cases hfound hash row hdid
  · exact fun _ hash row _ hdid => by cases hfound hash row hdid
  dsimp only
  split
  · rename_i hclient
    rintro _ hash row' ⟨⟩ hdid -
    cases hfound hash row' hdid
    exact ⟨client, hpassed.append, fun heq => absurd heq hclient⟩
  split
  · refine ⟨trivial, fun res => ?_⟩
    rintro _ hash row' ⟨⟩ hdid -
    rcases List.mem_append.mp hdid with hold | hnew
    · cases hfound hash row' hold
      exact ⟨client, hpassed.append.append, fun _ => ⟨res, did_last⟩⟩
    · cases List.mem_singleton.mp hnew
  · -- The token is not used, and nothing else is looked up.
    rename_i hunused
    refine (NeverLooks.frame ?_ _).mono (fun _ _ h => h) ?_
    · refine (NeverLooks.ask id).bind fun now => ?_
      split
      · exact .pure _
      split
      · exact neverLooks_issueTokens _ _ _ _ _
      · exact .pure _
    · rintro cs' response hframe _ hash row' - hdid hused
      rcases hframe _ hdid with hold | hno
      · cases hfound hash row' hold
        exact absurd hused hunused
      · exact absurd trivial hno

/-- A used token that is presented has its family revoked, before the answer. -/
theorem handle_reuse (r : Request) :
    (handle P r).Spec (fun _ _ => True) (fun cs _ => ReuseHandled r cs) [] := by
  rcases r with _ | _ | _ | _ | _ | form
  case token =>
    refine (authenticateClient_reuse P).seq ?_
    rintro more (e | client) ⟨hcs, hpassed⟩
    · exact hcs.reuseHandled
    dsimp only
    split
    · exact (neverLooks_codeGrant client form).reuse hcs
    split
    · exact refreshGrant_reuse hcs hpassed
    · exact hcs.reuseHandled
  all_goals
    refine (handle_spec (P := P) _).mono (fun _ _ _ => trivial) ?_
    rintro cs response - form hash row ⟨⟩

/-! ## Rotation -/

section Rotation

variable {hash familyId : String} {access access' : Option String} {expiresAt expiresAt' : ℤ}
  {token token' : String}

/-- What a successful `rotate_refresh_token` found, and left. -/
theorem rows_of_rotate (hat : OidcAt P past e)
    (hcall : e.call = ⟨.rotate hash access expiresAt, .ok token⟩) :
    ∃ old ∈ e.before.db.refreshTokens, old.tokenHash = hash ∧ old.toRefresh.Live e.before.unix ∧
      (∃ used ∈ e.after.db.refreshTokens, used.tokenHash = hash ∧
        used.familyId = old.familyId ∧ used.usedAt.isSome) ∧
      ∃ new ∈ e.after.db.refreshTokens, new.tokenHash = P.blake3 token ∧
        new.familyId = old.familyId ∧ new.accessTokenHash = access := by
  have heffect := at_db hat
  rw [hcall] at heffect
  cases heffect with
  | rotated made found live fresh drawn db =>
    cases made
    have hmem := List.mem_of_find?_eq_some found
    have hhash := List.find?_some found
    refine ⟨_, hmem, by simpa using hhash, live, ?_, ?_⟩
    · rw [db]
      refine ⟨_, List.mem_append_left _ (List.mem_map_of_mem hmem), ?_⟩
      rw [if_pos hhash]
      exact ⟨by simpa using hhash, rfl, rfl⟩
    · rw [db]
      exact ⟨_, List.mem_append_right _ (List.mem_singleton_self _), rfl, rfl, rfl⟩
  | kept quiet => cases quiet
  | clientCreated made | clientDisabled made | grantUpserted made | grantRevoked made
  | refreshCreated made | familyRevoked made | tokenMinted made | tokenCreated made
  | tokenRevoked made | passkeySaved made | counterUpdated made | passkeyDisabled made
  | accountsSet made => cases made

/-- **A refresh token is rotated once.** -/
theorem rotate_unique (h : OidcPast P past w) (he : e ∈ past) (he' : e' ∈ past)
    (hcall : e.call = ⟨.rotate hash access expiresAt, .ok token⟩)
    (hcall' : e'.call = ⟨.rotate hash access' expiresAt', .ok token'⟩) : e = e' := by
  have hno : ∀ {e e' : OidcEvent} {access access' expiresAt expiresAt' token token' pre mid post},
      past = pre ++ e :: mid ++ e' :: post →
        e.call = ⟨.rotate hash access expiresAt, .ok token⟩ →
        e'.call ≠ ⟨.rotate hash access' expiresAt', .ok token'⟩ := by
    intro e e' access access' expiresAt expiresAt' token token' pre mid post hsplit hcall hcall'
    have hat' := h.at_of_split hsplit
    obtain ⟨-, -, -, -, ⟨used, hused, hhash, -, hsome⟩, -⟩ :=
      rows_of_rotate (hat'.earlier.at_of_split rfl) hcall
    obtain ⟨now, hnow, hlater⟩ := refresh_later hat'.earlier rfl hused
    obtain ⟨old, hold, hhash', ⟨hunused, -, -⟩, -, -⟩ := rows_of_rotate hat' hcall'
    obtain rfl := refresh_eq_of_hash hat'.earlier hnow hold
      (by rw [hlater.tokenHash, hhash, hhash'])
    have hsome' := hlater.used hsome
    rw [show now.usedAt = none from hunused] at hsome'
    cases hsome'
  by_contra hne
  rcases before_or_after he he' hne with ⟨pre, mid, post, hsplit⟩ | ⟨pre, mid, post, hsplit⟩
  · exact hno hsplit hcall hcall'
  · exact hno hsplit hcall' hcall

end Rotation

/-! ## Linked access tokens -/

/-- An access token that was minted was drawn. -/
theorem Minted.drawn {i : ℕ} {client : OAuthClient} {accountId : AccountId} {scopes : List String}
    {token hash : String} (h : OidcPast P past w)
    (hminted : Minted (callsOf i past) client accountId scopes token hash) :
    hash = P.blake3 token ∧ hash ∈ w.drawn := by
  obtain ⟨name, expiresAt, hdid⟩ := hminted
  obtain ⟨e, he, -, hcall⟩ := mem_callsOf.mp hdid
  obtain ⟨pre, post, hsplit, hat⟩ := h.exists_at he
  have heffect := at_db hat
  rw [hcall] at heffect
  cases heffect with
  | tokenMinted made fresh drawn db =>
    cases made
    exact ⟨rfl, drawn_subset h hsplit drawn⟩
  | kept quiet => cases quiet
  | clientCreated made | clientDisabled made | grantUpserted made | grantRevoked made
  | refreshCreated made | familyRevoked made | rotated made | tokenCreated made
  | tokenRevoked made | passkeySaved made | counterUpdated made | passkeyDisabled made
  | accountsSet made => cases made

/-- Every access token that a refresh token is linked to was drawn. -/
theorem linked_drawn (h : OidcPast P past w) : ∀ r ∈ w.db.refreshTokens, ∀ a,
    r.accessTokenHash = some a → a ∈ w.drawn := by
  refine h.invariant (I := fun _ w => ∀ r ∈ w.db.refreshTokens, ∀ a,
    r.accessTokenHash = some a → a ∈ w.drawn) (by rintro r ⟨⟩) ?_
  intro past e hat _ ih r hr a ha
  have hguard := hat.guard
  obtain ⟨f, added, hrows, hf, hadded⟩ := (at_db hat).refreshTokens
  refine at_drawn hat ?_
  rw [hrows] at hr
  rcases List.mem_append.mp hr with hr | hr
  · obtain ⟨r₀, hr₀, rfl⟩ := List.mem_map.mp hr
    rw [(hf r₀).accessTokenHash] at ha
    exact ih r₀ hr₀ a ha
  · cases hadded with
    | none => cases hr
    | first made =>
      obtain rfl := List.mem_singleton.mp hr
      rw [made] at hguard
      obtain ⟨form, client, code, grant, token, hash, -, -, rfl, -, -, hminted⟩ := hguard
      obtain rfl : hash = a := Option.some.inj ha
      exact (hminted.drawn hat.earlier).2
    | successor made =>
      obtain rfl := List.mem_singleton.mp hr
      rw [made] at hguard
      obtain ⟨form, client, row, scopes, token, hash, -, -, rfl, -, -, hminted⟩ := hguard
      obtain rfl : hash = a := Option.some.inj ha
      exact (hminted.drawn hat.earlier).2

/-! ## Closed families -/

/-- All refresh tokens of the family are revoked, and the access tokens linked to them are gone. -/
structure FamilyClosed (familyId : String) (w : OidcWorld) : Prop where
  drawn : familyId ∈ w.drawn
  revoked : ∀ r ∈ w.db.refreshTokens, r.familyId = familyId → r.revokedAt.isSome
  linked : ∀ r ∈ w.db.refreshTokens, r.familyId = familyId → ∀ a, r.accessTokenHash = some a →
    a ∈ w.drawn ∧ ∀ p ∈ w.db.appPasswords, p.tokenHash ≠ a

/-- **A closed family stays closed.** -/
theorem FamilyClosed.step {familyId : String} {call : Call OidcOp.Ret}
    (hw : FamilyClosed familyId w) (h : DbEffect P w call w') (hdrawn : w.drawn ⊆ w'.drawn) :
    FamilyClosed familyId w' := by
  obtain ⟨f, added, hrows, hf, hadded⟩ := h.refreshTokens
  obtain ⟨p, added', hrows', hadded'⟩ := h.appPasswords
  -- The family gets no new tokens: a new family is drawn, and a successor has a live one before it.
  have hold : ∀ r ∈ w'.db.refreshTokens, r.familyId = familyId →
      ∃ r₀ ∈ w.db.refreshTokens, r₀.Later r ∧ r₀.familyId = familyId := by
    intro r hr hfamily
    rw [hrows] at hr
    rcases List.mem_append.mp hr with hr | hr
    · obtain ⟨r₀, hr₀, rfl⟩ := List.mem_map.mp hr
      exact ⟨r₀, hr₀, hf r₀, (hf r₀).familyId ▸ hfamily⟩
    · cases hadded with
      | none => cases hr
      | first _ _ freshFamily =>
        obtain rfl := List.mem_singleton.mp hr
        cases hfamily
        exact absurd hw.drawn freshFamily
      | @successor _ _ _ _ old _ found live =>
        obtain rfl := List.mem_singleton.mp hr
        have hrevoked := hw.revoked old (List.mem_of_find?_eq_some found) hfamily
        rw [show old.revokedAt = none from live.2.1] at hrevoked
        cases hrevoked
  refine ⟨hdrawn hw.drawn, fun r hr hfamily => ?_, fun r hr hfamily a ha => ?_⟩
  · obtain ⟨r₀, hr₀, hlater, hfamily₀⟩ := hold r hr hfamily
    exact hlater.revoked (hw.revoked r₀ hr₀ hfamily₀)
  · obtain ⟨r₀, hr₀, hlater, hfamily₀⟩ := hold r hr hfamily
    obtain ⟨hmem, hgone⟩ := hw.linked r₀ hr₀ hfamily₀ a (hlater.accessTokenHash ▸ ha)
    refine ⟨hdrawn hmem, fun q hq => ?_⟩
    rw [hrows'] at hq
    rcases List.mem_append.mp hq with hq | hq
    · exact hgone q (List.mem_filter.mp hq).1
    · exact fun heq => (hadded'.fresh.2 q hq).1 (heq ▸ hmem)

/-- `revoke_refresh_family` closes a family that there is. -/
theorem closed_of_revoke {familyId : String} (hat : OidcAt P past e)
    (hcall : e.call = ⟨.revokeFamily familyId, .ok ()⟩)
    (hmember : ∃ r ∈ e.before.db.refreshTokens, r.familyId = familyId) :
    FamilyClosed familyId e.after := by
  obtain ⟨member, hmember, rfl⟩ := hmember
  have hdrawn := at_drawn hat
  have heffect := at_db hat
  rw [hcall] at heffect
  cases heffect with
  | familyRevoked made db =>
    cases made
    refine ⟨hdrawn ((hashesDrawn hat.earlier).refresh_drawn member hmember).2, ?_, ?_⟩
    · intro r hr hfamily
      rw [db] at hr
      obtain ⟨r₀, hr₀, rfl⟩ := mem_update.mp hr
      by_cases hlive : r₀.familyId = member.familyId ∧ r₀.revokedAt = none
      · rw [if_pos (by simpa using hlive)]
        rfl
      · rw [if_neg (by simpa using hlive)] at hfamily ⊢
        exact Option.isSome_iff_ne_none.mpr fun hnone => hlive ⟨hfamily, hnone⟩
    · intro r hr hfamily a ha
      rw [db] at hr
      obtain ⟨r₀, hr₀, rfl⟩ := mem_update.mp hr
      have hlater := RefreshTokensRow.later_revoke
        (fun r => r.familyId = member.familyId ∧ r.revokedAt = none) e.before.unix r₀
      rw [hlater.familyId] at hfamily
      rw [hlater.accessTokenHash] at ha
      refine ⟨hdrawn (linked_drawn hat.earlier r₀ hr₀ a ha), fun q hq => ?_⟩
      rw [db] at hq
      have hkept := (List.mem_filter.mp hq).2
      simp only [List.any_eq_true, decide_eq_true_eq, not_exists, not_and] at hkept
      exact fun heq => hkept r₀ hr₀ hfamily (heq ▸ ha)
  | kept quiet => cases quiet
  | clientCreated made | clientDisabled made | grantUpserted made | grantRevoked made
  | refreshCreated made | rotated made | tokenMinted made | tokenCreated made
  | tokenRevoked made | passkeySaved made | counterUpdated made | passkeyDisabled made
  | accountsSet made => cases made

/-! ## Token families in a run -/

/-- The `i`-th request refreshed the token: it presented it, and was answered with tokens. -/
def Refreshed (s : Provider) (i : ℕ) (token : String) : Prop :=
  ∃ form body, s.request i = some (.token form) ∧ form.grantType = some "refresh_token" ∧
    form.refreshToken = some token ∧ s.answer i = some (.tokens body)

/-- A refresh token of the family. -/
def InFamily (P : Oidc) (s : Provider) (token familyId : String) : Prop :=
  ∃ r ∈ s.world.db.refreshTokens, r.tokenHash = P.blake3 token ∧ r.familyId = familyId

/-- The `i`-th request was answered with an access token of the family: it was given a refresh
token of the family with it, or it presented one. -/
def Granted (P : Oidc) (s : Provider) (i : ℕ) (familyId accessToken : String) : Prop :=
  ∃ form body token, s.request i = some (.token form) ∧ s.answer i = some (.tokens body) ∧
    body.accessToken = accessToken ∧ InFamily P s token familyId ∧
    (body.refreshToken = some token ∨
      form.grantType = some "refresh_token" ∧ form.refreshToken = some token)

/-- The call revokes a family that there is. -/
def RevokesFamily (e : OidcEvent) (familyId : String) : Prop :=
  e.call = ⟨.revokeFamily familyId, .ok ()⟩ ∧
    ∃ r ∈ e.before.db.refreshTokens, r.familyId = familyId

/-- Nothing of the family is accepted any more: its refresh tokens are revoked, whoever
refreshed one of them did so before the revocation, and its access tokens are gone. -/
structure FamilyFinal (P : Oidc) (s : Provider) (pre : List OidcEvent) (familyId : String) :
    Prop where
  revoked : ∀ r ∈ s.world.db.refreshTokens, r.familyId = familyId → r.revokedAt.isSome
  refused : ∀ {i token}, Refreshed s i token → InFamily P s token familyId → ∃ e ∈ pre,
    e.thread = i ∧ ∃ access expiresAt new,
      e.call = ⟨.rotate (P.blake3 token) access expiresAt, .ok new⟩
  gone : ∀ {i accessToken}, Granted P s i familyId accessToken → ∀ now p,
    s.world.db.bearer (P.blake3 accessToken) now p = none

/-- Refresh tokens are used once, and their reuse or revocation is the end of the family. -/
structure FamilyLaw (P : Oidc) (s : Provider) : Prop where
  once : ∀ {i j token}, Refreshed s i token → Refreshed s j token → i = j
  reuse : ∀ {e form hash row response}, e ∈ s.past → e.req = .token form →
    e.call = ⟨.refreshByHash hash, .ok (some row)⟩ → row.usedAt.isSome →
    s.answer e.thread = some response →
    ∃ x ∈ s.past, x.thread = e.thread ∧ RevokesFamily x row.familyId
  final : ∀ {pre x post familyId}, s.past = pre ++ x :: post → RevokesFamily x familyId →
    FamilyFinal P s pre familyId

/-! ### The conditions -/

/-- No token request retires its token, which is what one for less than `offline_access` does. -/
def NotRetired (_ : List OidcEvent) (e : OidcEvent) : Prop :=
  match e.req, e.call.op with
  | .token _, .revokeByHash _ => False
  | _, _ => True

/-- SQLite does not fail when a token request revokes a family. -/
def RevokesSafely (_ : List OidcEvent) (e : OidcEvent) : Prop :=
  match e.req, e.call.op with
  | .token _, .revokeFamily _ => e.choice.io 0 = true ∧ e.choice.io 1 = true
  | _, _ => True

/-- A used token is presented by the client it belongs to. -/
def OwnToken (_ : List OidcEvent) (e : OidcEvent) : Prop :=
  match e.req, e.call with
  | .token form, ⟨.refreshByHash _, .ok (some row)⟩ => row.usedAt.isSome →
    (form.presented.bind fun x => OAuthClientId.fromStr x.1) = some row.clientId
  | _, _ => True

instance (pre : List OidcEvent) (e : OidcEvent) : Decidable (NotRetired pre e) := by
  unfold NotRetired
  generalize e.req = req
  generalize e.call.op = op
  cases_type Request <;> try infer_instance
  cases_type OidcOp <;> infer_instance

instance (pre : List OidcEvent) (e : OidcEvent) : Decidable (RevokesSafely pre e) := by
  unfold RevokesSafely
  generalize e.req = req
  generalize e.call.op = op
  cases_type Request <;> try infer_instance
  cases_type OidcOp <;> infer_instance

instance (pre : List OidcEvent) (e : OidcEvent) : Decidable (OwnToken pre e) := by
  unfold OwnToken
  generalize e.req = req
  generalize e.call = call
  obtain ⟨op, res⟩ := call
  cases_type Request <;> try infer_instance
  cases_type OidcOp <;> try infer_instance
  rcases res with _ | _ | row <;> infer_instance

/-! ### What a token answer rests on -/

/-- The request of a thread is that of its calls. -/
theorem req_of_thread {s : Provider} {i : ℕ} {r : Request} {e : OidcEvent}
    (hs : s.Specified (OidcOp.exec P) (Before P) (Answered P) OidcWorld.empty)
    (hreq : s.request i = some r) (he : e ∈ s.past) (hthread : e.thread = i) : e.req = r := by
  have hstarted := hs.started e he
  rw [hthread, hreq] at hstarted
  exact (Option.some.inj hstarted).symm

/-- The row after a call is still there. -/
theorem later_of_mem (h : OidcPast P past w) (he : e ∈ past) {r : RefreshTokensRow}
    (hr : r ∈ e.after.db.refreshTokens) : ∃ r' ∈ w.db.refreshTokens, r.Later r' := by
  obtain ⟨pre, post, rfl⟩ := List.append_of_mem he
  exact refresh_later h rfl hr

section Answer

variable {s : Provider} {i j : ℕ} {token familyId accessToken : String}
  (hs : s.Specified (OidcOp.exec P) (Before P) (Answered P) OidcWorld.empty)
include hs

/-- The family of a row is that of its token. -/
theorem InFamily.eq {r : RefreshTokensRow} (h : InFamily P s token familyId)
    (hr : r ∈ s.world.db.refreshTokens) (hhash : r.tokenHash = P.blake3 token) :
    r.familyId = familyId := by
  obtain ⟨r', hr', hhash', rfl⟩ := h
  rw [refresh_eq_of_hash hs.past hr hr' (hhash.trans hhash'.symm)]

variable (hretired : Steps NotRetired s.past)
include hretired

/-- A token request that refreshes, rotates. -/
theorem rotated_of_answer {form : TokenForm} {body : TokenBody}
    (hreq : s.request i = some (.token form)) (hanswer : s.answer i = some (.tokens body))
    (htype : form.grantType = some "refresh_token") :
    ∃ presented new expiresAt, form.refreshToken = some presented ∧ body.refreshToken = some new ∧
      ∃ e ∈ s.past, e.thread = i ∧ e.call = ⟨.rotate (P.blake3 presented)
        (some (P.blake3 body.accessToken)) expiresAt, .ok new⟩ := by
  obtain ⟨r, hr, form', client, source, accountId, scopes, hash, rfl, ⟨-, hredeems⟩, hminted, -,
    hrefresh⟩ := hs.answered hanswer
  obtain rfl : form = form' := by simpa using hreq.symm.trans hr
  obtain ⟨rfl, -⟩ := hminted.drawn hs.past
  generalize hnew : body.refreshToken = new at hrefresh
  cases hredeems with
  | code type =>
    have hsame := htype.symm.trans type
    simp at hsame
  | @refresh presented row _ _ named _ found =>
    obtain ⟨r, r', hr', hhash, rfl, hlater⟩ := row_later_of_refreshByHash hs.past found
    have hhash : r.toRefresh.tokenHash = P.blake3 presented := hhash
    cases hrefresh with
    | @rotated _ new expiresAt _ rotated =>
      obtain ⟨e, he, hthread, hcall⟩ := mem_callsOf.mp rotated
      rw [hhash] at hcall
      exact ⟨presented, new, expiresAt, named, rfl, e, he, hthread, hcall⟩
    | retired _ retired =>
      obtain ⟨e, he, hthread, hcall⟩ := mem_callsOf.mp retired
      obtain ⟨pre, post, hsplit⟩ := List.append_of_mem he
      have hno := hretired pre e post hsplit
      simp only [NotRetired, req_of_thread hs hreq he hthread, hcall] at hno

theorem Refreshed.rotated (h : Refreshed s i token) : ∃ e ∈ s.past, e.thread = i ∧
    ∃ access expiresAt new, e.call = ⟨.rotate (P.blake3 token) access expiresAt, .ok new⟩ := by
  obtain ⟨form, body, hreq, htype, htoken, hanswer⟩ := h
  obtain ⟨presented, new, expiresAt, hpresented, -, e, he, hthread, hcall⟩ :=
    rotated_of_answer hs hretired hreq hanswer htype
  obtain rfl : token = presented := by simpa using htoken.symm.trans hpresented
  exact ⟨e, he, hthread, _, _, _, hcall⟩

/-- **Access tokens are linked.** The access token of an answer is linked to the family. -/
theorem Granted.linked (h : Granted P s i familyId accessToken) :
    ∃ r ∈ s.world.db.refreshTokens, r.familyId = familyId ∧
      r.accessTokenHash = some (P.blake3 accessToken) := by
  obtain ⟨form, body, token, hreq, hanswer, rfl, hfamily, htoken⟩ := h
  by_cases htype : form.grantType = some "refresh_token"
  · obtain ⟨presented, new, expiresAt, hpresented, hnew, e, he, hthread, hcall⟩ :=
      rotated_of_answer hs hretired hreq hanswer htype
    obtain ⟨pre, post, -, hat⟩ := hs.past.exists_at he
    obtain ⟨old, -, -, -, ⟨used, hused, husedhash, husedfamily, -⟩, row, hrow, hrowhash,
      hrowfamily, hlink⟩ := rows_of_rotate hat hcall
    obtain ⟨row', hrow', hlater⟩ := later_of_mem hs.past he hrow
    refine ⟨row', hrow', ?_, hlater.accessTokenHash.trans hlink⟩
    rcases htoken with hgiven | ⟨-, hgiven⟩
    · obtain rfl : token = new := by simpa using hgiven.symm.trans hnew
      exact hfamily.eq hs hrow' (hlater.tokenHash.trans hrowhash)
    · obtain rfl : token = presented := by simpa using hgiven.symm.trans hpresented
      obtain ⟨used', hused', hlater'⟩ := later_of_mem hs.past he hused
      have hfam := hfamily.eq hs hused' (hlater'.tokenHash.trans husedhash)
      rw [← hfam, hlater'.familyId, husedfamily, hlater.familyId, hrowfamily]
  · obtain ⟨r, hr, form', client, source, accountId, scopes, hash, rfl, ⟨-, hredeems⟩, hminted, -,
      hrefresh⟩ := hs.answered hanswer
    obtain rfl : form = form' := by simpa using hreq.symm.trans hr
    obtain ⟨rfl, -⟩ := hminted.drawn hs.past
    obtain hgiven | ⟨hrefresh', -⟩ := htoken
    swap
    · exact absurd hrefresh' htype
    rw [hgiven] at hrefresh
    cases hrefresh with
    | first _ created =>
      obtain ⟨e, he, -, hcall⟩ := mem_callsOf.mp created
      obtain ⟨pre, post, -, hat⟩ := hs.past.exists_at he
      obtain ⟨-, newFamily, -, -, hrows⟩ := row_of_createRefreshToken hat hcall
      obtain ⟨r, hr, hlater⟩ := later_of_mem hs.past he
        (hrows ▸ List.mem_append_right _ (List.mem_singleton_self _))
      exact ⟨r, hr, hfamily.eq hs hr hlater.tokenHash, hlater.accessTokenHash⟩
    | rotated =>
      cases hredeems with
      | refresh type => exact absurd type htype

/-- The access tokens of a closed family are gone. -/
theorem Granted.gone (h : Granted P s i familyId accessToken)
    (hclosed : FamilyClosed familyId s.world) (now : ℤ) (p : AppPasswordsRow → Bool) :
    s.world.db.bearer (P.blake3 accessToken) now p = none := by
  obtain ⟨r, hr, hfamily, hlink⟩ := h.linked hs hretired
  obtain ⟨-, hgone⟩ := hclosed.linked r hr hfamily _ hlink
  rw [Option.eq_none_iff_forall_ne_some]
  rintro ⟨account, q⟩ hfound
  obtain ⟨hq, hhash, -⟩ := OAuthDb.bearer_eq_some hfound
  exact hgone q hq hhash

end Answer

/-! ### The law -/

/-- After its revocation a family is closed. -/
theorem closed_after {familyId : String} (h : OidcPast P past w) (hsplit : past = pre ++ e :: post)
    (hrevokes : RevokesFamily e familyId) : FamilyClosed familyId w :=
  h.persists (J := FamilyClosed familyId) hsplit
    (fun _ _ _ _ hat hclosed => hclosed.step (at_db hat) (at_drawn hat))
    (closed_of_revoke (h.at_of_split hsplit) hrevokes.1 hrevokes.2)

/-- When SQLite does not fail, a family is revoked. -/
theorem revokeFamily_ok {familyId : String} {res : Except StorageError Unit} (hat : OidcAt P past e)
    (hcall : e.call = ⟨.revokeFamily familyId, res⟩)
    (hio : e.choice.io 0 = true ∧ e.choice.io 1 = true) : res = .ok () := by
  have hexec := hat.possible
  rw [hcall] at hexec
  obtain ⟨hres, -⟩ := Prod.mk.inj (Option.some.inj hexec)
  have hbody : ∃ db, revokeRefreshFamilyTx e.choice.io familyId e.before.unix e.before.db =
      .ok (⟨⟩, db) :=
    ⟨_, Tx.bind_eq_ok.mpr ⟨⟨⟩, _, Tx.exec_eq_ok.mpr ⟨hio.1, rfl⟩, Tx.exec_eq_ok.mpr ⟨hio.2, rfl⟩⟩⟩
  obtain ⟨db, hbody⟩ := hbody
  exact Eq.trans (Eq.symm hres) (congrArg Prod.fst (transaction_eq_ok.mpr hbody))

/-- **The families of a run** whose token requests retire nothing, whose reuses are by the
owner, and whose revocations SQLite does not fail. -/
theorem familyLaw (P : Oidc) (ms : List ProviderMove)
    (hretired : Steps NotRetired (Provider.run P Provider.empty ms).past)
    (hsafe : Steps RevokesSafely (Provider.run P Provider.empty ms).past)
    (hown : Steps OwnToken (Provider.run P Provider.empty ms).past) :
    FamilyLaw P (Provider.run P Provider.empty ms) := by
  have hs := Provider.run_specified (P := P) ms
  have hreuse : (Provider.run P Provider.empty ms).Specified (OidcOp.exec P) (fun _ _ _ => True)
      (fun r cs _ => ReuseHandled r cs) OidcWorld.empty :=
    Programs.run_specified (handle_reuse (P := P)) ms specified_init
  refine ⟨?_, ?_, ?_⟩
  · intro i j token hi hj
    obtain ⟨e, he, rfl, _, _, _, hcall⟩ := hi.rotated hs hretired
    obtain ⟨e', he', rfl, _, _, _, hcall'⟩ := hj.rotated hs hretired
    rw [rotate_unique hs.past he he' hcall hcall']
  · intro e form hash row response he hreq hcall hused hanswer
    obtain ⟨r, hr, hhandled⟩ := hreuse.answered hanswer
    obtain rfl : .token form = r := by rw [← hreq, req_of_thread hs hr he rfl]
    obtain ⟨client, hpassed, hrevoke⟩ := hhandled form hash row rfl
      (mem_callsOf.mpr ⟨e, he, rfl, hcall⟩) hused
    obtain ⟨text, secret, hpresented, hid⟩ := hpassed.presented hs.past
    obtain ⟨pre, post, hsplit⟩ := List.append_of_mem he
    have howned := hown pre e post hsplit
    simp only [OwnToken, hreq, hcall, hpresented, Option.bind_some, hid] at howned
    obtain ⟨res, hdid⟩ := hrevoke (Option.some.inj (howned hused)).symm
    obtain ⟨x, hx, hthread, hxcall⟩ := mem_callsOf.mp hdid
    have hxreq := req_of_thread hs hr hx hthread
    obtain ⟨pre, post, hsplit, hat⟩ := hs.past.exists_at hx
    have hio := hsafe pre x post hsplit
    simp only [RevokesSafely, hxreq, hxcall] at hio
    obtain rfl := revokeFamily_ok hat hxcall hio
    have hguard := hat.guard
    rw [hxcall] at hguard
    obtain ⟨hash', row', hfound, hfamily⟩ := hguard form hxreq
    obtain ⟨r, r', hr', -, rfl, hlater⟩ := row_later_of_refreshByHash hat.earlier hfound
    exact ⟨x, hx, hthread, hxcall, r', hr', hlater.familyId.trans hfamily⟩
  · intro pre x post familyId hsplit hrevokes
    have hat := hs.past.at_of_split hsplit
    have hclosed := closed_after hs.past hsplit hrevokes
    refine ⟨hclosed.revoked, ?_, ?_⟩
    · intro i token hrefreshed hfamily
      obtain ⟨e, he, hthread, access, expiresAt, new, hcall⟩ := hrefreshed.rotated hs hretired
      refine ⟨e, ?_, hthread, access, expiresAt, new, hcall⟩
      rw [hsplit] at he
      rcases List.mem_append.mp he with hpre | hrest
      · exact hpre
      exfalso
      rcases List.mem_cons.mp hrest with rfl | hpost
      · rw [hrevokes.1] at hcall
        cases hcall
      -- A rotation after the revocation would have found a live token of the closed family.
      obtain ⟨mid, post, rfl⟩ := List.append_of_mem hpost
      have hsplit' : (Provider.run P Provider.empty ms).past = (pre ++ x :: mid) ++ e :: post := by
        rw [hsplit, List.append_assoc, List.cons_append]
      have hat := hs.past.at_of_split hsplit'
      obtain ⟨old, hold, hhash, hlive, -, -⟩ := rows_of_rotate hat hcall
      obtain ⟨r₁, hr₁, hlater⟩ := (at_db hat).refresh_later hold
      obtain ⟨r₂, hr₂, hlater'⟩ := refresh_later hs.past hsplit' hr₁
      have hlater := hlater.trans hlater'
      have hfam := hfamily.eq hs hr₂ (hlater.tokenHash.trans hhash)
      have hrevoked := (closed_after hat.earlier rfl hrevokes).revoked old hold
        (hlater.familyId.symm.trans hfam)
      rw [show old.revokedAt = none from hlive.2.1] at hrevoked
      cases hrevoked
    · exact fun hgranted => hgranted.gone hs hretired hclosed

/-! ### Two refreshes of one token -/

instance (s : Provider) (i : ℕ) (token : String) : Decidable (Refreshed s i token) :=
  decidable_of_iff (((s.request i).any fun
      | .token form => form.grantType = some "refresh_token" ∧ form.refreshToken = some token
      | _ => false) = true ∧
    ((s.answer i).any fun | .tokens _ => true | _ => false) = true) <| by
      unfold Refreshed
      rcases s.request i with _ | r
      · simp
      · rcases s.answer i with _ | a
        · simp
        · cases r <;> cases a <;> simp

/-- The form that refreshes the token of the samples. -/
def refreshForm (scope : Option String) : TokenForm where
  grantType := some "refresh_token"
  refreshToken := some (secretText refreshPrefix 4)
  scope := scope
  clientId := some sampleClient.text

/-- The token is refreshed, and presented again. -/
def tokenReused : List ProviderMove :=
  codeExchange ++
  serve 10 (.token (refreshForm none))
    (plain 5 ++ [{ secret := 5 }] ++ plain 3 ++ [{ secret := 6 }]) ++
  serve 11 (.token (refreshForm none)) (plain 3)

theorem familyLaw_tokenReused :
    Refreshed (Provider.run sampleOidc Provider.empty tokenReused) 10 (secretText refreshPrefix 4) ∧
    (Provider.run sampleOidc Provider.empty tokenReused).answer 11 =
      some (.oauthError "invalid_grant") ∧
    FamilyLaw sampleOidc (Provider.run sampleOidc Provider.empty tokenReused) := by
  -- One evaluation of the run for all facts about it.
  have hrun : (Refreshed (Provider.run sampleOidc Provider.empty tokenReused) 10
        (secretText refreshPrefix 4) ∧
      (Provider.run sampleOidc Provider.empty tokenReused).answer 11 =
        some (.oauthError "invalid_grant")) ∧
      Steps NotRetired (Provider.run sampleOidc Provider.empty tokenReused).past ∧
      Steps RevokesSafely (Provider.run sampleOidc Provider.empty tokenReused).past ∧
      Steps OwnToken (Provider.run sampleOidc Provider.empty tokenReused).past := by decide +kernel
  obtain ⟨⟨hrefreshed, hanswer⟩, hretired, hsafe, hown⟩ := hrun
  exact ⟨hrefreshed, hanswer, familyLaw sampleOidc tokenReused hretired hsafe hown⟩

/-- The token is refreshed twice, for less than `offline_access`. -/
def downScoped : List ProviderMove :=
  codeExchange ++
  serve 10 (.token (refreshForm (some "openid"))) (plain 5 ++ [{ secret := 5 }] ++ plain 3) ++
  serve 11 (.token (refreshForm (some "openid"))) (plain 5 ++ [{ secret := 6 }] ++ plain 3)

theorem not_familyLaw_downScoped :
    ¬FamilyLaw sampleOidc (Provider.run sampleOidc Provider.empty downScoped) := by
  intro hlaw
  have hboth : Refreshed (Provider.run sampleOidc Provider.empty downScoped) 10
        (secretText refreshPrefix 4) ∧
      Refreshed (Provider.run sampleOidc Provider.empty downScoped) 11
        (secretText refreshPrefix 4) := by decide +kernel
  exact absurd (hlaw.once hboth.1 hboth.2) (by decide)

end Owney
