import Owney.OidcCodes

/-!
# The tables of the provider

What every call keeps of the tables: hashes and ids are unique, a refresh token is never
deleted and only ever goes from unused to used and from live to revoked (`Later`), and a
bearer token is never changed.
-/

namespace Owney

open Programs Tables

variable {P : Oidc} {past pre mid post : List OidcEvent} {w w' : OidcWorld} {e : OidcEvent}
  {call : Call OidcOp.Ret}

/-! ## Refresh tokens -/

/-- A refresh token at a later time. -/
structure RefreshTokensRow.Later (r r' : RefreshTokensRow) : Prop where
  tokenHash : r'.tokenHash = r.tokenHash
  familyId : r'.familyId = r.familyId
  accountId : r'.accountId = r.accountId
  clientId : r'.clientId = r.clientId
  scopes : r'.scopes = r.scopes
  accessTokenHash : r'.accessTokenHash = r.accessTokenHash
  used : r.usedAt.isSome → r'.usedAt.isSome
  revoked : r.revokedAt.isSome → r'.revokedAt.isSome

namespace RefreshTokensRow

variable {r r' r'' : RefreshTokensRow}

theorem Later.refl (r : RefreshTokensRow) : r.Later r := ⟨rfl, rfl, rfl, rfl, rfl, rfl, id, id⟩

theorem Later.trans (h : r.Later r') (h' : r'.Later r'') : r.Later r'' :=
  ⟨h'.tokenHash.trans h.tokenHash, h'.familyId.trans h.familyId, h'.accountId.trans h.accountId,
    h'.clientId.trans h.clientId, h'.scopes.trans h.scopes,
    h'.accessTokenHash.trans h.accessTokenHash, fun hr => h'.used (h.used hr),
    fun hr => h'.revoked (h.revoked hr)⟩

theorem later_revoke (p : RefreshTokensRow → Bool) (now : ℤ) (r : RefreshTokensRow) :
    r.Later (if p r then { r with revokedAt := some now } else r) := by
  split
  · exact ⟨rfl, rfl, rfl, rfl, rfl, rfl, id, fun _ => rfl⟩
  · exact .refl r

theorem later_use (p : RefreshTokensRow → Bool) (now : ℤ) (r : RefreshTokensRow) :
    r.Later (if p r then { r with usedAt := some now } else r) := by
  split
  · exact ⟨rfl, rfl, rfl, rfl, rfl, rfl, fun _ => rfl, id⟩
  · exact .refl r

end RefreshTokensRow

variable (P) in
/-- The rows a call adds to the refresh tokens. -/
inductive RefreshAdded (w : OidcWorld) (call : Call OidcOp.Ret) (w' : OidcWorld) :
    List RefreshTokensRow → Prop where
  | none : RefreshAdded w call w' []
  | first {accountId : AccountId} {clientId : OAuthClientId} {scopes : List String}
      {access : Option String} {expiresAt : ℤ} {token familyId : String}
      (made : call = ⟨.createRefreshToken accountId clientId scopes access expiresAt, .ok token⟩)
      (fresh : P.blake3 token ∉ w.drawn) (freshFamily : familyId ∉ w.drawn)
      (drawn : P.blake3 token ∈ w'.drawn ∧ familyId ∈ w'.drawn) :
      RefreshAdded w call w' [⟨P.blake3 token, familyId, accountId, clientId, joinWith " " scopes,
        access, expiresAt, .none, .none, w.unix⟩]
  | successor {oldHash : String} {access : Option String} {expiresAt : ℤ} {token : String}
      {old : RefreshTokensRow} (made : call = ⟨.rotate oldHash access expiresAt, .ok token⟩)
      (found : w.db.refreshTokens.find? (·.tokenHash = oldHash) = some old)
      (live : old.toRefresh.Live w.unix) (fresh : P.blake3 token ∉ w.drawn)
      (drawn : P.blake3 token ∈ w'.drawn) :
      RefreshAdded w call w' [⟨P.blake3 token, old.familyId, old.accountId, old.clientId,
        joinWith " " (splitWhitespace old.scopes), access, expiresAt, .none, .none, w.unix⟩]

/-- **The refresh tokens after a call**: those from before, later, and at most one more. -/
theorem DbEffect.refreshTokens (h : DbEffect P w call w') : ∃ f added,
    w'.db.refreshTokens = w.db.refreshTokens.map f ++ added ∧
      (∀ r : RefreshTokensRow, r.Later (f r)) ∧ RefreshAdded P w call w' added := by
  cases h with
  | clientDisabled _ db | grantRevoked _ db | familyRevoked _ db =>
    exact ⟨_, [], by rw [db, List.append_nil]; rfl, RefreshTokensRow.later_revoke _ _, .none⟩
  | refreshCreated made fresh freshFamily drawn db =>
    exact ⟨id, _, by rw [db, List.map_id], RefreshTokensRow.Later.refl,
      .first made fresh freshFamily drawn⟩
  | rotated made found live fresh drawn db =>
    exact ⟨_, _, by rw [db]; rfl, RefreshTokensRow.later_use _ _,
      .successor made found live fresh drawn⟩
  | kept _ db | clientCreated _ _ db | grantUpserted _ _ db | tokenMinted _ _ _ db
  | tokenCreated _ _ _ db | tokenRevoked _ db | passkeySaved _ _ db | counterUpdated _ db
  | passkeyDisabled _ db | accountsSet _ db =>
    exact ⟨id, [], by rw [db, List.map_id, List.append_nil], RefreshTokensRow.Later.refl, .none⟩

/-- A refresh token is never deleted. -/
theorem DbEffect.refresh_later (h : DbEffect P w call w') {r : RefreshTokensRow}
    (hr : r ∈ w.db.refreshTokens) : ∃ r' ∈ w'.db.refreshTokens, r.Later r' := by
  obtain ⟨f, added, hrows, hf, -⟩ := h.refreshTokens
  refine ⟨f r, ?_, hf r⟩
  rw [hrows]
  exact List.mem_append_left _ (List.mem_map_of_mem hr)

theorem refresh_later (h : OidcPast P past w) (hsplit : past = pre ++ e :: post)
    {r : RefreshTokensRow} (hr : r ∈ e.after.db.refreshTokens) :
    ∃ r' ∈ w.db.refreshTokens, r.Later r' := by
  refine h.persists (J := fun w => ∃ r' ∈ w.db.refreshTokens, r.Later r') hsplit ?_
    ⟨r, hr, .refl r⟩
  rintro mid x rest - hat ⟨r₁, hr₁, hlater⟩
  obtain ⟨r₂, hr₂, hlater'⟩ := (at_db hat).refresh_later hr₁
  exact ⟨r₂, hr₂, hlater.trans hlater'⟩

/-! ## Bearer tokens -/

variable (P) in
/-- The rows a call adds to the bearer tokens. -/
inductive TokenAdded (w : OidcWorld) (call : Call OidcOp.Ret) (w' : OidcWorld) :
    List AppPasswordsRow → Prop where
  | none : TokenAdded w call w' []
  | minted {accountId : AccountId} {name : String} {scopes : List String} {expiresAt : ℤ}
      {clientId : OAuthClientId} {token : String}
      (made : call = ⟨.createScopedToken accountId name scopes expiresAt clientId,
        .ok (token, P.blake3 token)⟩)
      (fresh : P.blake3 token ∉ w.drawn) (drawn : P.blake3 token ∈ w'.drawn) :
      TokenAdded w call w' [⟨P.blake3 token, accountId, name, w.unix, some expiresAt,
        some (joinWith " " scopes), some clientId⟩]
  | created {accountId : AccountId} {name token : String}
      (made : call = ⟨.createToken accountId name, .ok token⟩)
      (fresh : P.blake3 token ∉ w.drawn) (drawn : P.blake3 token ∈ w'.drawn) :
      TokenAdded w call w' [⟨P.blake3 token, accountId, name, w.unix, .none, .none, .none⟩]

/-- **The bearer tokens after a call**: some of those from before, and at most one more. -/
theorem DbEffect.appPasswords (h : DbEffect P w call w') : ∃ p added,
    w'.db.appPasswords = w.db.appPasswords.filter p ++ added ∧ TokenAdded P w call w' added := by
  cases h with
  | clientDisabled _ db | grantRevoked _ db | familyRevoked _ db | tokenRevoked _ db =>
    exact ⟨_, [], by rw [db, List.append_nil], .none⟩
  | tokenMinted made fresh drawn db =>
    exact ⟨fun _ => true, _, by rw [db, List.filter_true], .minted made fresh drawn⟩
  | tokenCreated made fresh drawn db =>
    exact ⟨fun _ => true, _, by rw [db, List.filter_true], .created made fresh drawn⟩
  | kept _ db | clientCreated _ _ db | grantUpserted _ _ db | refreshCreated _ _ _ _ db
  | rotated _ _ _ _ _ db | passkeySaved _ _ db | counterUpdated _ db | passkeyDisabled _ db
  | accountsSet _ db =>
    exact ⟨fun _ => true, [], by rw [db, List.filter_true, List.append_nil], .none⟩

/-! ## Keys -/

/-- Hashes are unique, and were drawn. -/
structure HashesDrawn (w : OidcWorld) : Prop where
  refresh : (w.db.refreshTokens.map (·.tokenHash)).Nodup
  refresh_drawn : ∀ r ∈ w.db.refreshTokens, r.tokenHash ∈ w.drawn ∧ r.familyId ∈ w.drawn
  app : (w.db.appPasswords.map (·.tokenHash)).Nodup
  app_drawn : ∀ r ∈ w.db.appPasswords, r.tokenHash ∈ w.drawn

theorem RefreshAdded.fresh {added : List RefreshTokensRow} (h : RefreshAdded P w call w' added) :
    (added.map (·.tokenHash)).Nodup ∧
      ∀ r ∈ added, r.tokenHash ∉ w.drawn ∧ r.tokenHash ∈ w'.drawn := by
  cases h with
  | none => simp
  | first _ fresh _ drawn => simpa using ⟨fresh, drawn.1⟩
  | successor _ _ _ fresh drawn => simpa using ⟨fresh, drawn⟩

theorem TokenAdded.fresh {added : List AppPasswordsRow} (h : TokenAdded P w call w' added) :
    (added.map (·.tokenHash)).Nodup ∧
      ∀ r ∈ added, r.tokenHash ∉ w.drawn ∧ r.tokenHash ∈ w'.drawn := by
  cases h with
  | none => simp
  | minted _ fresh drawn => simpa using ⟨fresh, drawn⟩
  | created _ fresh drawn => simpa using ⟨fresh, drawn⟩

/-- The family of a new row was drawn by the call, or is that of an older row. -/
theorem RefreshAdded.family {added : List RefreshTokensRow} (h : RefreshAdded P w call w' added)
    {r : RefreshTokensRow} (hr : r ∈ added) :
    r.familyId ∈ w'.drawn ∨ ∃ old ∈ w.db.refreshTokens, old.familyId = r.familyId := by
  cases h with
  | none => cases hr
  | first _ _ _ drawn =>
    obtain rfl := List.mem_singleton.mp hr
    exact .inl drawn.2
  | successor _ found =>
    obtain rfl := List.mem_singleton.mp hr
    exact .inr ⟨_, List.mem_of_find?_eq_some found, rfl⟩

theorem HashesDrawn.step (hw : HashesDrawn w) (h : DbEffect P w call w')
    (hdrawn : w.drawn ⊆ w'.drawn) : HashesDrawn w' := by
  obtain ⟨f, added, hrows, hf, hadded⟩ := h.refreshTokens
  obtain ⟨p, added', hrows', hadded'⟩ := h.appPasswords
  have hmap : (w.db.refreshTokens.map f).map (·.tokenHash) =
      w.db.refreshTokens.map (·.tokenHash) := by
    rw [List.map_map]
    exact List.map_congr_left fun r _ => (hf r).tokenHash
  refine ⟨?_, ?_, ?_, ?_⟩
  · rw [hrows, List.map_append, hmap]
    refine hw.refresh.append hadded.fresh.1 ?_
    intro t ht ht'
    obtain ⟨r, hr, rfl⟩ := List.mem_map.mp ht
    obtain ⟨r', hr', heq⟩ := List.mem_map.mp ht'
    exact (hadded.fresh.2 r' hr').1 (heq ▸ (hw.refresh_drawn r hr).1)
  · intro r hr
    rw [hrows] at hr
    rcases List.mem_append.mp hr with hr | hr
    · obtain ⟨r₀, hr₀, rfl⟩ := List.mem_map.mp hr
      obtain ⟨hhash, hfamily⟩ := hw.refresh_drawn r₀ hr₀
      rw [(hf r₀).tokenHash, (hf r₀).familyId]
      exact ⟨hdrawn hhash, hdrawn hfamily⟩
    · refine ⟨(hadded.fresh.2 r hr).2, ?_⟩
      rcases hadded.family hr with hfamily | ⟨old, hold, hfamily⟩
      · exact hfamily
      · rw [← hfamily]
        exact hdrawn (hw.refresh_drawn old hold).2
  · rw [hrows', List.map_append]
    refine (hw.app.sublist (List.filter_sublist.map _)).append hadded'.fresh.1 ?_
    intro t ht ht'
    obtain ⟨r, hr, rfl⟩ := List.mem_map.mp ht
    obtain ⟨r', hr', heq⟩ := List.mem_map.mp ht'
    exact (hadded'.fresh.2 r' hr').1 (heq ▸ hw.app_drawn r (List.mem_filter.mp hr).1)
  · intro r hr
    rw [hrows'] at hr
    rcases List.mem_append.mp hr with hr | hr
    · exact hdrawn (hw.app_drawn r (List.mem_filter.mp hr).1)
    · exact (hadded'.fresh.2 r hr).2

/-- **Hashes are unique** in every state. -/
theorem hashesDrawn (h : OidcPast P past w) : HashesDrawn w := by
  induction h with
  | nil => exact ⟨by simp [OidcWorld.empty, OAuthDb.empty], fun r hr => (nomatch hr),
      by simp [OidcWorld.empty, OAuthDb.empty], fun r hr => (nomatch hr)⟩
  | snoc earlier possible guard same ih =>
    exact ih.step (exec_db possible) (exec_store possible).2

/-- Two refresh tokens with one hash are one. -/
theorem refresh_eq_of_hash (h : OidcPast P past w) {r r' : RefreshTokensRow}
    (hr : r ∈ w.db.refreshTokens) (hr' : r' ∈ w.db.refreshTokens)
    (hhash : r.tokenHash = r'.tokenHash) : r = r' :=
  eq_of_key_eq (hashesDrawn h).refresh hr hr' hhash

/-- Two bearer tokens with one hash are one. -/
theorem appPassword_eq_of_hash (h : OidcPast P past w) {r r' : AppPasswordsRow}
    (hr : r ∈ w.db.appPasswords) (hr' : r' ∈ w.db.appPasswords)
    (hhash : r.tokenHash = r'.tokenHash) : r = r' :=
  eq_of_key_eq (hashesDrawn h).app hr hr' hhash

/-! ## What was read is still there -/

/-- The row that `refresh_token_by_plaintext` found. -/
theorem row_of_refreshByHash {i : ℕ} {hash : String} {row : RefreshTokenRow} (h : OidcPast P past w)
    (hdid : Did (callsOf i past) (.refreshByHash hash) (.ok (some row))) :
    ∃ pre e post r, past = pre ++ e :: post ∧ e.thread = i ∧ r ∈ e.before.db.refreshTokens ∧
      r.tokenHash = hash ∧ row = r.toRefresh := by
  obtain ⟨e, he, hthread, hcall⟩ := mem_callsOf.mp hdid
  obtain ⟨pre, post, hsplit, hat⟩ := h.exists_at he
  obtain ⟨r, hr, hhash, hrow⟩ := row_of_lookup hat hcall
  exact ⟨pre, e, post, r, hsplit, hthread, hr, hhash, hrow⟩

/-- The same, as the row is now. -/
theorem row_later_of_refreshByHash {i : ℕ} {hash : String} {row : RefreshTokenRow}
    (h : OidcPast P past w)
    (hdid : Did (callsOf i past) (.refreshByHash hash) (.ok (some row))) :
    ∃ r r' : RefreshTokensRow, r' ∈ w.db.refreshTokens ∧ r.tokenHash = hash ∧ row = r.toRefresh ∧ r.Later r' := by
  obtain ⟨pre, e, post, r, hsplit, -, hr, hhash, rfl⟩ := row_of_refreshByHash h hdid
  obtain ⟨r₁, hr₁, hlater⟩ := (at_db (h.at_of_split hsplit)).refresh_later hr
  obtain ⟨r₂, hr₂, hlater'⟩ := refresh_later h hsplit hr₁
  exact ⟨r, r₂, hr₂, hhash, rfl, hlater.trans hlater'⟩

/-! ## Families -/

variable (P) in
/-- The call starts a family of refresh tokens, with these scopes. -/
def StartsFamily (e : OidcEvent) (familyId : String) (scopes : List String) : Prop :=
  ∃ accountId clientId access expiresAt token,
    e.call = ⟨.createRefreshToken accountId clientId scopes access expiresAt, .ok token⟩ ∧
    ∃ row ∈ e.after.db.refreshTokens, row.tokenHash = P.blake3 token ∧ row.familyId = familyId

/-- The row that `create_refresh_token` inserts. -/
theorem row_of_createRefreshToken {accountId : AccountId} {clientId : OAuthClientId}
    {scopes : List String} {access : Option String} {expiresAt : ℤ} {token : String}
    (hat : OidcAt P past e)
    (hcall : e.call = ⟨.createRefreshToken accountId clientId scopes access expiresAt, .ok token⟩) :
    P.blake3 token ∉ e.before.drawn ∧ ∃ familyId, familyId ∉ e.before.drawn ∧
      familyId ∈ e.after.drawn ∧
      e.after.db.refreshTokens = e.before.db.refreshTokens ++ [⟨P.blake3 token, familyId, accountId,
        clientId, joinWith " " scopes, access, expiresAt, none, none, e.before.unix⟩] := by
  have heffect := at_db hat
  rw [hcall] at heffect
  cases heffect with
  | refreshCreated made fresh freshFamily drawn db =>
    cases made
    exact ⟨fresh, _, freshFamily, drawn.2, by rw [db]⟩
  | kept quiet => cases quiet
  | clientCreated made | clientDisabled made | grantUpserted made | grantRevoked made
  | rotated made | familyRevoked made | tokenMinted made | tokenCreated made | tokenRevoked made
  | passkeySaved made | counterUpdated made | passkeyDisabled made | accountsSet made => cases made

/-- A family is drawn by the call that starts it. -/
theorem StartsFamily.drawn {familyId : String} {scopes : List String} (hat : OidcAt P past e)
    (h : StartsFamily P e familyId scopes) :
    familyId ∉ e.before.drawn ∧ familyId ∈ e.after.drawn := by
  obtain ⟨accountId, clientId, access, expiresAt, token, hcall, row, hrow, hhash, rfl⟩ := h
  obtain ⟨hfresh, familyId, hnew, hdrawn, hrows⟩ := row_of_createRefreshToken hat hcall
  rw [hrows] at hrow
  rcases List.mem_append.mp hrow with hold | hadded
  · exact absurd (hhash ▸ ((hashesDrawn hat.earlier).refresh_drawn row hold).1) hfresh
  · obtain rfl := List.mem_singleton.mp hadded
    exact ⟨hnew, hdrawn⟩

/-- A family is started once. -/
theorem startsFamily_unique {familyId : String} {scopes scopes' : List String}
    (h : OidcPast P past w) {e e' : OidcEvent} (he : e ∈ past) (he' : e' ∈ past)
    (hstart : StartsFamily P e familyId scopes) (hstart' : StartsFamily P e' familyId scopes') :
    e = e' := by
  have hno : ∀ {e e' : OidcEvent} {scopes scopes' pre mid post},
      past = pre ++ e :: mid ++ e' :: post → StartsFamily P e familyId scopes →
        ¬StartsFamily P e' familyId scopes' := by
    intro e e' scopes scopes' pre mid post hsplit hstart hstart'
    have hat' := h.at_of_split hsplit
    have hat := hat'.earlier.at_of_split rfl
    exact (hstart'.drawn hat').1 (drawn_subset hat'.earlier rfl (hstart.drawn hat).2)
  by_contra hne
  rcases before_or_after he he' hne with ⟨pre, mid, post, hsplit⟩ | ⟨pre, mid, post, hsplit⟩
  · exact hno hsplit hstart hstart'
  · exact hno hsplit hstart' hstart

end Owney
