import Owney.OidcSpecs

/-!
# What one call of the provider does

`exec_db`, `exec_challenges` and `exec_drawn` say once what any call can do to the
database, to the challenge store and to the random texts drawn so far. The invariants of
the provider are proved by case analysis on them.
-/

namespace Owney

open Programs Tables ChallengeStore

variable {P : Oidc}

/-! ## The building blocks -/

namespace OidcWorld

variable {w w' : OidcWorld}

theorem draw_eq_some {text : String} :
    w.draw text = some w' ↔ text ∉ w.drawn ∧ w' = { w with drawn := text :: w.drawn } := by
  unfold draw
  split
  · rename_i h
    simp [h]
  · rename_i h
    simp [h, eq_comm]

/-- A storage call fails without effect, or its body succeeded. -/
theorem call_cases {α : Type} {body : Tx OAuthDb α} {res : Except StorageError α}
    (h : w.call body = (res, w')) :
    (∃ e, res = .error e ∧ w' = w) ∨
      ∃ a db, body w.db = .ok (a, db) ∧ res = .ok a ∧ w' = { w with db := db } := by
  obtain ⟨rfl, rfl⟩ := Prod.mk.inj h
  rcases transaction_cases body w.db with ⟨e, hbody⟩ | ⟨a, db, hok, hbody⟩
  · exact .inl ⟨e, by rw [hbody], by rw [hbody]⟩
  · exact .inr ⟨a, db, hok, by rw [hbody], by rw [hbody]⟩

/-- A query changes nothing. -/
theorem call_query {α : Type} {io : Io} {n : ℕ} {f : OAuthDb → α} {res : Except StorageError α}
    (h : w.call (Tx.query io n f) = (res, w')) :
    w' = w ∧ ((∃ e, res = .error e) ∨ res = .ok (f w.db)) := by
  rcases call_cases h with ⟨e, rfl, rfl⟩ | ⟨a, db, hok, rfl, rfl⟩
  · exact ⟨rfl, .inl ⟨e, rfl⟩⟩
  · obtain ⟨-, rfl, rfl⟩ := Tx.query_eq_ok.mp hok
    exact ⟨rfl, .inr rfl⟩

/-- A minting call draws a new hash, and fails or stores it. -/
theorem mint_cases {pre : String} {c : Choice} {body : String → Tx OAuthDb Unit}
    {res : Except StorageError (String × String)} (h : w.mint P pre c body = some (res, w')) :
    ∃ token hash, token = secretText pre c.secret ∧ hash = P.blake3 token ∧ hash ∉ w.drawn ∧
      ((∃ e, res = .error e ∧ w' = { w with drawn := hash :: w.drawn }) ∨
        ∃ db, body hash w.db = .ok (⟨⟩, db) ∧ res = .ok (token, hash) ∧
          w' = { w with db := db, drawn := hash :: w.drawn }) := by
  obtain ⟨w₁, hdraw, hw⟩ := Option.map_eq_some_iff.mp h
  obtain ⟨hnew, rfl⟩ := draw_eq_some.mp hdraw
  refine ⟨_, _, rfl, rfl, hnew, ?_⟩
  rcases hcall : OidcWorld.call { w with drawn := P.blake3 (secretText pre c.secret) :: w.drawn }
    (body (P.blake3 (secretText pre c.secret))) with ⟨res₁, w₁⟩
  rw [hcall] at hw
  obtain ⟨rfl, rfl⟩ := Prod.mk.inj hw
  rcases call_cases hcall with ⟨e, rfl, rfl⟩ | ⟨⟨⟩, db, hok, rfl, rfl⟩
  · exact .inl ⟨e, rfl, rfl⟩
  · exact .inr ⟨db, hok, rfl, rfl⟩

end OidcWorld

/-! ## The database -/

/-- The call changed the database. -/
def Wrote : Call OidcOp.Ret → Bool
  | ⟨.createClient _, .ok _⟩ | ⟨.disableClient _, .ok _⟩ | ⟨.upsertGrant .., .ok _⟩
  | ⟨.revokeGrant .., .ok _⟩ | ⟨.createRefreshToken .., .ok _⟩ | ⟨.rotate .., .ok _⟩
  | ⟨.revokeFamily _, .ok _⟩ | ⟨.createScopedToken .., .ok _⟩ | ⟨.createToken .., .ok _⟩
  | ⟨.revokeByHash _, .ok _⟩ | ⟨.savePasskey _, .ok _⟩ | ⟨.updateCounter .., .ok _⟩
  | ⟨.disablePasskey _, .ok _⟩ | ⟨.setAccounts _, .ok _⟩ => true
  | _ => false

variable (P) in
/-- What a call does to the database. -/
inductive DbEffect (w : OidcWorld) (call : Call OidcOp.Ret) (w' : OidcWorld) : Prop where
  | kept (quiet : Wrote call = false) (db : w'.db = w.db)
  | clientCreated {row : OAuthClientsRow} (made : call = ⟨.createClient row, .ok ()⟩)
      (new : row.id ∉ w.db.clients.map (·.id))
      (db : w'.db = { w.db with clients := w.db.clients ++ [row] })
  | clientDisabled {id : OAuthClientId} (made : call = ⟨.disableClient id, .ok ()⟩)
      (db : w'.db = { w.db with
        clients := update (·.id = id) (fun r => { r with disabled := true }) w.db.clients
        refreshTokens := update (fun r => r.clientId = id ∧ r.revokedAt = none)
          (fun r => { r with revokedAt := some w.unix }) w.db.refreshTokens
        appPasswords := w.db.appPasswords.filter (·.oauthClientId ≠ some id) })
  | grantUpserted {accountId : AccountId} {clientId : OAuthClientId} {scopes : List String}
      {text : String} (made : call = ⟨.upsertGrant accountId clientId scopes, .ok ()⟩)
      (merged : text = joinWith " " ((mergeScopes ((((w.db.grants.find? fun r =>
        r.accountId = accountId ∧ r.clientId = clientId).map (·.scopes)).map
          splitWhitespace).getD []) scopes).insertionSort (· ≤ ·)))
      (db : w'.db = { w.db with
        grants := upsert (fun r => r.accountId = accountId ∧ r.clientId = clientId)
          (fun r => { r with scopes := text, updatedAt := w.unix })
          ⟨accountId, clientId, text, w.unix, w.unix⟩ w.db.grants })
  | grantRevoked {accountId : AccountId} {clientId : OAuthClientId}
      (made : call = ⟨.revokeGrant accountId clientId, .ok ()⟩)
      (db : w'.db = { w.db with
        grants := w.db.grants.filter fun r => ¬(r.accountId = accountId ∧ r.clientId = clientId)
        refreshTokens := update
          (fun r => r.accountId = accountId ∧ r.clientId = clientId ∧ r.revokedAt = none)
          (fun r => { r with revokedAt := some w.unix }) w.db.refreshTokens
        appPasswords := w.db.appPasswords.filter fun r =>
          ¬(r.accountId = accountId ∧ r.oauthClientId = some clientId) })
  | refreshCreated {accountId : AccountId} {clientId : OAuthClientId} {scopes : List String}
      {access : Option String} {expiresAt : ℤ} {token familyId : String}
      (made : call = ⟨.createRefreshToken accountId clientId scopes access expiresAt, .ok token⟩)
      (fresh : P.blake3 token ∉ w.drawn) (freshFamily : familyId ∉ w.drawn)
      (drawn : P.blake3 token ∈ w'.drawn ∧ familyId ∈ w'.drawn)
      (db : w'.db = { w.db with
        refreshTokens := w.db.refreshTokens ++ [⟨P.blake3 token, familyId, accountId, clientId,
          joinWith " " scopes, access, expiresAt, none, none, w.unix⟩] })
  | rotated {oldHash : String} {access : Option String} {expiresAt : ℤ} {token : String}
      {old : RefreshTokensRow} (made : call = ⟨.rotate oldHash access expiresAt, .ok token⟩)
      (found : w.db.refreshTokens.find? (·.tokenHash = oldHash) = some old)
      (live : old.toRefresh.Live w.unix) (fresh : P.blake3 token ∉ w.drawn)
      (drawn : P.blake3 token ∈ w'.drawn)
      (db : w'.db = { w.db with
        refreshTokens :=
          update (·.tokenHash = oldHash) (fun r => { r with usedAt := some w.unix })
            w.db.refreshTokens ++
          [⟨P.blake3 token, old.familyId, old.accountId, old.clientId,
            joinWith " " (splitWhitespace old.scopes), access, expiresAt, none, none, w.unix⟩] })
  | familyRevoked {familyId : String} (made : call = ⟨.revokeFamily familyId, .ok ()⟩)
      (db : w'.db = { w.db with
        appPasswords := w.db.appPasswords.filter fun p =>
          ¬(w.db.refreshTokens.any fun r =>
            r.familyId = familyId ∧ r.accessTokenHash = some p.tokenHash)
        refreshTokens := update (fun r => r.familyId = familyId ∧ r.revokedAt = none)
          (fun r => { r with revokedAt := some w.unix }) w.db.refreshTokens })
  | tokenMinted {accountId : AccountId} {name : String} {scopes : List String} {expiresAt : ℤ}
      {clientId : OAuthClientId} {token : String}
      (made : call = ⟨.createScopedToken accountId name scopes expiresAt clientId,
        .ok (token, P.blake3 token)⟩)
      (fresh : P.blake3 token ∉ w.drawn) (drawn : P.blake3 token ∈ w'.drawn)
      (db : w'.db = { w.db with
        appPasswords := w.db.appPasswords ++ [⟨P.blake3 token, accountId, name, w.unix,
          some expiresAt, some (joinWith " " scopes), some clientId⟩] })
  | tokenCreated {accountId : AccountId} {name token : String}
      (made : call = ⟨.createToken accountId name, .ok token⟩)
      (fresh : P.blake3 token ∉ w.drawn) (drawn : P.blake3 token ∈ w'.drawn)
      (db : w'.db = { w.db with
        appPasswords := w.db.appPasswords ++
          [⟨P.blake3 token, accountId, name, w.unix, none, none, none⟩] })
  | tokenRevoked {hash : String} (made : call = ⟨.revokeByHash hash, .ok ()⟩)
      (db : w'.db = { w.db with
        appPasswords := w.db.appPasswords.filter (·.tokenHash ≠ hash) })
  | passkeySaved {row : PasskeyCredential} (made : call = ⟨.savePasskey row, .ok ()⟩)
      (new : row.id ∉ w.db.passkeys.map (·.id))
      (db : w'.db = { w.db with passkeys := w.db.passkeys ++ [row] })
  | counterUpdated {id : CredentialId} {counter : ℕ}
      (made : call = ⟨.updateCounter id counter, .ok ()⟩)
      (db : w'.db = { w.db with
        passkeys := update (·.id = id) (fun r => { r with counter := counter }) w.db.passkeys })
  | passkeyDisabled {id : CredentialId} (made : call = ⟨.disablePasskey id, .ok ()⟩)
      (db : w'.db = { w.db with
        passkeys := update (·.id = id) (fun r => { r with disabled := true }) w.db.passkeys })
  | accountsSet {accounts : List LoginAccount} (made : call = ⟨.setAccounts accounts, .ok ()⟩)
      (db : w'.db = { w.db with accounts := accounts })

/-- **The database after a call.** -/
theorem exec_db {o : OidcOp} {c : Choice} {w w' : OidcWorld} {res : o.Ret}
    (h : OidcOp.exec P o c w = some (res, w')) : DbEffect P w ⟨o, res⟩ w' := by
  cases o with
  | storeWithTtl data ttl =>
    obtain ⟨w₁, hdraw, hw⟩ := Option.map_eq_some_iff.mp h
    obtain ⟨-, rfl⟩ := OidcWorld.draw_eq_some.mp hdraw
    obtain ⟨-, rfl⟩ := Prod.mk.inj hw
    exact .kept rfl rfl
  | mintCode grant =>
    obtain ⟨w₁, hdraw, hw⟩ := Option.map_eq_some_iff.mp h
    obtain ⟨-, rfl⟩ := OidcWorld.draw_eq_some.mp hdraw
    obtain ⟨-, rfl⟩ := Prod.mk.inj hw
    exact .kept rfl rfl
  | createClient row =>
    rcases OidcWorld.call_cases (Option.some.inj h) with ⟨e, rfl, rfl⟩ | ⟨⟨⟩, db, hok, rfl, rfl⟩
    · exact .kept rfl rfl
    · obtain ⟨hnew, rfl⟩ := createOAuthClientTx_ok hok
      exact .clientCreated rfl hnew rfl
  | disableClient id =>
    rcases OidcWorld.call_cases (Option.some.inj h) with ⟨e, rfl, rfl⟩ | ⟨⟨⟩, db, hok, rfl, rfl⟩
    · exact .kept rfl rfl
    · exact .clientDisabled rfl (disableOAuthClientTx_ok hok)
  | upsertGrant accountId clientId scopes =>
    rcases OidcWorld.call_cases (Option.some.inj h) with ⟨e, rfl, rfl⟩ | ⟨⟨⟩, db, hok, rfl, rfl⟩
    · exact .kept rfl rfl
    · obtain ⟨text, htext, hdb⟩ := upsertOAuthGrantTx_ok hok
      exact .grantUpserted rfl htext hdb
  | revokeGrant accountId clientId =>
    rcases OidcWorld.call_cases (Option.some.inj h) with ⟨e, rfl, rfl⟩ | ⟨⟨⟩, db, hok, rfl, rfl⟩
    · exact .kept rfl rfl
    · exact .grantRevoked rfl (revokeOAuthGrantTx_ok hok)
  | revokeFamily familyId =>
    rcases OidcWorld.call_cases (Option.some.inj h) with ⟨e, rfl, rfl⟩ | ⟨⟨⟩, db, hok, rfl, rfl⟩
    · exact .kept rfl rfl
    · exact .familyRevoked rfl (revokeRefreshFamilyTx_ok hok)
  | revokeByHash hash =>
    rcases OidcWorld.call_cases (Option.some.inj h) with ⟨e, rfl, rfl⟩ | ⟨⟨⟩, db, hok, rfl, rfl⟩
    · exact .kept rfl rfl
    · exact .tokenRevoked rfl (Tx.exec_eq_ok.mp hok).2.symm
  | updateCounter id counter =>
    rcases OidcWorld.call_cases (Option.some.inj h) with ⟨e, rfl, rfl⟩ | ⟨⟨⟩, db, hok, rfl, rfl⟩
    · exact .kept rfl rfl
    · exact .counterUpdated rfl (Tx.exec_eq_ok.mp hok).2.symm
  | disablePasskey id =>
    rcases OidcWorld.call_cases (Option.some.inj h) with ⟨e, rfl, rfl⟩ | ⟨⟨⟩, db, hok, rfl, rfl⟩
    · exact .kept rfl rfl
    · exact .passkeyDisabled rfl (Tx.exec_eq_ok.mp hok).2.symm
  | setAccounts accounts =>
    rcases OidcWorld.call_cases (Option.some.inj h) with ⟨e, rfl, rfl⟩ | ⟨⟨⟩, db, hok, rfl, rfl⟩
    · exact .kept rfl rfl
    · exact .accountsSet rfl (Tx.exec_eq_ok.mp hok).2.symm
  | savePasskey row =>
    rcases OidcWorld.call_cases (Option.some.inj h) with ⟨e, rfl, rfl⟩ | ⟨⟨⟩, db, hok, rfl, rfl⟩
    · exact .kept rfl rfl
    · simp only [savePasskeyCredentialTx, Tx.bind_eq_ok, Tx.get_eq_ok, Tx.require_eq_ok,
        Tx.exec_eq_ok] at hok
      obtain ⟨_, _, ⟨rfl, rfl⟩, _, _, ⟨hnew, rfl⟩, -, rfl⟩ := hok
      exact .passkeySaved rfl hnew rfl
  | createScopedToken accountId name scopes expiresAt clientId =>
    rw [OidcOp.exec] at h
    obtain ⟨token, hash, -, rfl, hnew, ⟨e, rfl, rfl⟩ | ⟨db, hok, rfl, rfl⟩⟩ :=
      OidcWorld.mint_cases h
    · exact .kept rfl rfl
    · exact .tokenMinted rfl hnew (by simp) (Tx.exec_eq_ok.mp hok).2.symm
  | createToken accountId name =>
    obtain ⟨⟨res₁, w₁⟩, hmint, hw⟩ := Option.map_eq_some_iff.mp h
    obtain ⟨rfl, rfl⟩ := Prod.mk.inj hw
    obtain ⟨token, hash, -, rfl, hnew, ⟨e, rfl, rfl⟩ | ⟨db, hok, rfl, rfl⟩⟩ :=
      OidcWorld.mint_cases hmint
    · exact .kept rfl rfl
    · exact .tokenCreated rfl hnew (by simp) (Tx.exec_eq_ok.mp hok).2.symm
  | rotate oldHash access expiresAt =>
    obtain ⟨⟨res₁, w₁⟩, hmint, hw⟩ := Option.map_eq_some_iff.mp h
    obtain ⟨rfl, rfl⟩ := Prod.mk.inj hw
    obtain ⟨token, hash, -, rfl, hnew, ⟨e, rfl, rfl⟩ | ⟨db, hok, rfl, rfl⟩⟩ :=
      OidcWorld.mint_cases hmint
    · exact .kept rfl rfl
    · obtain ⟨old, hfound, hlive, hdb⟩ := rotateRefreshTokenTx_ok hok
      exact .rotated rfl hfound hlive hnew (by simp) hdb
  | createRefreshToken accountId clientId scopes access expiresAt =>
    obtain ⟨⟨res₁, w₁⟩, hbind, hw⟩ := Option.map_eq_some_iff.mp h
    obtain ⟨rfl, rfl⟩ := Prod.mk.inj hw
    obtain ⟨w₂, hdraw, hmint⟩ := Option.bind_eq_some_iff.mp hbind
    obtain ⟨hfamily, rfl⟩ := OidcWorld.draw_eq_some.mp hdraw
    obtain ⟨token, hash, -, rfl, hnew, ⟨e, rfl, rfl⟩ | ⟨db, hok, rfl, rfl⟩⟩ :=
      OidcWorld.mint_cases hmint
    · exact .kept rfl rfl
    · refine .refreshCreated rfl
        (fun hmem => hnew (List.mem_cons_of_mem _ hmem)) hfamily (by simp)
        (Tx.exec_eq_ok.mp hok).2.symm
  | accountByHash hash =>
    rcases OidcWorld.call_cases (Option.some.inj h) with ⟨e, rfl, rfl⟩ | ⟨_, db, hok, rfl, rfl⟩
    · exact .kept rfl rfl
    · exact .kept rfl (accountByTokenTx_ok hok).2
  | accessByHash hash =>
    rcases OidcWorld.call_cases (Option.some.inj h) with ⟨e, rfl, rfl⟩ | ⟨_, db, hok, rfl, rfl⟩
    · exact .kept rfl rfl
    · exact .kept rfl (accountAndAccessByTokenTx_ok hok).2
  | oauthClient | verifySecret | account | accountByEmail | listPasskeys | getPasskey | oauthGrant
  | refreshByHash =>
    obtain ⟨rfl, -⟩ := OidcWorld.call_query (Option.some.inj h)
    exact .kept rfl rfl
  | peek | retrieve | cleanupExpired | timestamp | startAuthentication | finishAuthentication
  | startRegistration | sign | tick =>
    obtain ⟨rfl, rfl⟩ := Prod.mk.inj (Option.some.inj h)
    exact .kept rfl rfl

/-! ## The challenge store -/

/-- What a call does to the challenge store and the clock. -/
inductive StoreEffect (w : OidcWorld) (call : Call OidcOp.Ret) (w' : OidcWorld) : Prop where
  | kept (challenges : w'.challenges = w.challenges) (now : w'.now = w.now)
  | stored {data : Parked} {ttl : ℤ} {key : String} (made : call = ⟨.storeWithTtl data ttl, key⟩)
      (fresh : key ∉ w.drawn) (drawn : key ∈ w'.drawn)
      (challenges : w'.challenges = w.challenges.storeKeyed w.now key data ttl)
      (now : w'.now = w.now)
  | minted {grant : CodeGrant} {secret : BitVec 256}
      (made : call = ⟨.mintCode grant, secretText codePrefix secret⟩)
      (fresh : secretText codePrefix secret ∉ w.drawn)
      (drawn : secretText codePrefix secret ∈ w'.drawn)
      (challenges : w'.challenges =
        w.challenges.storeKeyed w.now (secretText codePrefix secret) (.codeGrant grant) codeTtl)
      (now : w'.now = w.now)
  | peeked {id : String} (made : call = ⟨.peek id, (w.challenges.peek w.now id).1⟩)
      (challenges : w'.challenges = (w.challenges.peek w.now id).2) (now : w'.now = w.now)
  | retrieved {id : String}
      (made : call = ⟨.retrieve id, (w.challenges.retrieveChallenge w.now id).1⟩)
      (challenges : w'.challenges = (w.challenges.retrieveChallenge w.now id).2)
      (now : w'.now = w.now)
  | cleaned (challenges : w'.challenges = w.challenges.cleanupExpired w.now) (now : w'.now = w.now)
  | ticked {now : ℤ} (made : call = ⟨.tick now, ()⟩) (challenges : w'.challenges = w.challenges)
      (now : w'.now = now)

/-- A storage call leaves everything but the database alone. -/
theorem OidcWorld.call_frame {α : Type} {w w' : OidcWorld} {body : Tx OAuthDb α}
    {res : Except StorageError α} (h : w.call body = (res, w')) :
    w'.challenges = w.challenges ∧ w'.now = w.now ∧ w'.drawn = w.drawn := by
  obtain ⟨-, rfl⟩ := Prod.mk.inj h
  exact ⟨rfl, rfl, rfl⟩

/-- A minting call leaves the challenge store and the clock alone. -/
theorem OidcWorld.mint_frame {w w' : OidcWorld} {pre : String} {c : Choice}
    {body : String → Tx OAuthDb Unit} {res : Except StorageError (String × String)}
    (h : w.mint P pre c body = some (res, w')) :
    w'.challenges = w.challenges ∧ w'.now = w.now ∧ w.drawn ⊆ w'.drawn := by
  obtain ⟨token, hash, -, -, -, ⟨e, -, rfl⟩ | ⟨db, -, -, rfl⟩⟩ := mint_cases h
  · exact ⟨rfl, rfl, List.subset_cons_self _ _⟩
  · exact ⟨rfl, rfl, List.subset_cons_self _ _⟩

/-- **The challenge store after a call**, and the texts drawn. -/
theorem exec_store {o : OidcOp} {c : Choice} {w w' : OidcWorld} {res : o.Ret}
    (h : OidcOp.exec P o c w = some (res, w')) :
    StoreEffect w ⟨o, res⟩ w' ∧ w.drawn ⊆ w'.drawn := by
  cases o with
  | storeWithTtl data ttl =>
    obtain ⟨w₁, hdraw, hw⟩ := Option.map_eq_some_iff.mp h
    obtain ⟨hnew, rfl⟩ := OidcWorld.draw_eq_some.mp hdraw
    obtain ⟨rfl, rfl⟩ := Prod.mk.inj hw
    exact ⟨.stored rfl hnew (by simp) rfl rfl, List.subset_cons_self _ _⟩
  | mintCode grant =>
    obtain ⟨w₁, hdraw, hw⟩ := Option.map_eq_some_iff.mp h
    obtain ⟨hnew, rfl⟩ := OidcWorld.draw_eq_some.mp hdraw
    obtain ⟨rfl, rfl⟩ := Prod.mk.inj hw
    exact ⟨.minted rfl hnew (by simp) rfl rfl, List.subset_cons_self _ _⟩
  | peek id =>
    obtain ⟨rfl, rfl⟩ := Prod.mk.inj (Option.some.inj h)
    exact ⟨.peeked rfl rfl rfl, List.Subset.refl _⟩
  | retrieve id =>
    obtain ⟨rfl, rfl⟩ := Prod.mk.inj (Option.some.inj h)
    exact ⟨.retrieved rfl rfl rfl, List.Subset.refl _⟩
  | cleanupExpired =>
    obtain ⟨-, rfl⟩ := Prod.mk.inj (Option.some.inj h)
    exact ⟨.cleaned rfl rfl, List.Subset.refl _⟩
  | tick now =>
    obtain ⟨-, rfl⟩ := Prod.mk.inj (Option.some.inj h)
    exact ⟨.ticked rfl rfl rfl, List.Subset.refl _⟩
  | timestamp | startAuthentication | finishAuthentication | startRegistration | sign =>
    obtain ⟨-, rfl⟩ := Prod.mk.inj (Option.some.inj h)
    exact ⟨.kept rfl rfl, List.Subset.refl _⟩
  | createScopedToken accountId name scopes expiresAt clientId =>
    rw [OidcOp.exec] at h
    obtain ⟨hchallenges, hnow, hdrawn⟩ := OidcWorld.mint_frame h
    exact ⟨.kept hchallenges hnow, hdrawn⟩
  | createToken | rotate =>
    obtain ⟨⟨res₁, w₁⟩, hmint, hw⟩ := Option.map_eq_some_iff.mp h
    obtain ⟨-, rfl⟩ := Prod.mk.inj hw
    obtain ⟨hchallenges, hnow, hdrawn⟩ := OidcWorld.mint_frame hmint
    exact ⟨.kept hchallenges hnow, hdrawn⟩
  | createRefreshToken =>
    obtain ⟨⟨res₁, w₁⟩, hbind, hw⟩ := Option.map_eq_some_iff.mp h
    obtain ⟨-, rfl⟩ := Prod.mk.inj hw
    obtain ⟨w₂, hdraw, hmint⟩ := Option.bind_eq_some_iff.mp hbind
    obtain ⟨-, rfl⟩ := OidcWorld.draw_eq_some.mp hdraw
    obtain ⟨hchallenges, hnow, hdrawn⟩ := OidcWorld.mint_frame hmint
    exact ⟨.kept hchallenges hnow, List.Subset.trans (List.subset_cons_self _ _) hdrawn⟩
  | _ =>
    obtain ⟨hchallenges, hnow, hdrawn⟩ := OidcWorld.call_frame (Option.some.inj h)
    exact ⟨.kept hchallenges hnow, fun _ ht => hdrawn ▸ ht⟩

/-! ### The provider runs the store

Seen from the challenge store, a call of the provider is one call of the store, or none. -/

/-- The clock and the map. -/
def OidcWorld.store (w : OidcWorld) : StoreState Parked := ⟨w.now, w.challenges⟩

/-- What a call of the provider is to the store. -/
def storeOp : Call OidcOp.Ret → Option (StoreOp Parked)
  | ⟨.storeWithTtl data ttl, key⟩ => some (.store key data ttl)
  | ⟨.mintCode grant, code⟩ => some (.store code (.codeGrant grant) codeTtl)
  | ⟨.peek id, _⟩ => some (.peek id)
  | ⟨.retrieve id, _⟩ => some (.retrieve id)
  | ⟨.cleanupExpired, _⟩ => some .cleanup
  | ⟨.tick now, _⟩ => some (.tick now)
  | _ => none

/-- **The provider runs the store.** -/
theorem exec_storeOp {o : OidcOp} {c : Choice} {w w' : OidcWorld} {res : o.Ret}
    (h : OidcOp.exec P o c w = some (res, w')) :
    w'.store = ((storeOp ⟨o, res⟩).elim w.store (storeStep w.store)) := by
  cases o with
  | storeWithTtl data ttl | mintCode grant =>
    obtain ⟨w₁, hdraw, hw⟩ := Option.map_eq_some_iff.mp h
    obtain ⟨-, rfl⟩ := OidcWorld.draw_eq_some.mp hdraw
    obtain ⟨rfl, rfl⟩ := Prod.mk.inj hw
    rfl
  | peek | retrieve | cleanupExpired | tick | timestamp | startAuthentication
  | finishAuthentication | startRegistration | sign =>
    obtain ⟨-, rfl⟩ := Prod.mk.inj (Option.some.inj h)
    rfl
  | createScopedToken accountId name scopes expiresAt clientId =>
    rw [OidcOp.exec] at h
    obtain ⟨hchallenges, hnow, -⟩ := OidcWorld.mint_frame h
    rw [OidcWorld.store, hchallenges, hnow]
    rfl
  | createToken | rotate =>
    obtain ⟨⟨res₁, w₁⟩, hmint, hw⟩ := Option.map_eq_some_iff.mp h
    obtain ⟨-, rfl⟩ := Prod.mk.inj hw
    obtain ⟨hchallenges, hnow, -⟩ := OidcWorld.mint_frame hmint
    rw [OidcWorld.store, hchallenges, hnow]
    rfl
  | createRefreshToken =>
    obtain ⟨⟨res₁, w₁⟩, hbind, hw⟩ := Option.map_eq_some_iff.mp h
    obtain ⟨-, rfl⟩ := Prod.mk.inj hw
    obtain ⟨w₂, hdraw, hmint⟩ := Option.bind_eq_some_iff.mp hbind
    obtain ⟨-, rfl⟩ := OidcWorld.draw_eq_some.mp hdraw
    obtain ⟨hchallenges, hnow, -⟩ := OidcWorld.mint_frame hmint
    rw [OidcWorld.store, hchallenges, hnow]
    rfl
  | _ =>
    obtain ⟨hchallenges, hnow, -⟩ := OidcWorld.call_frame (Option.some.inj h)
    rw [OidcWorld.store, hchallenges, hnow]
    rfl

/-! ## The past of the provider -/

variable (P) in
/-- A past of the provider. -/
abbrev OidcPast : List OidcEvent → OidcWorld → Prop :=
  Past (OidcOp.exec P) (Before P) OidcWorld.empty

variable (P) in
/-- What was the case when a call was made. -/
abbrev OidcAt : List OidcEvent → OidcEvent → Prop :=
  Past.At (OidcOp.exec P) (Before P) OidcWorld.empty

theorem at_db {past : List OidcEvent} {e : OidcEvent} (hat : OidcAt P past e) :
    DbEffect P e.before e.call e.after := exec_db hat.possible

theorem at_store {past : List OidcEvent} {e : OidcEvent} (hat : OidcAt P past e) :
    StoreEffect e.before e.call e.after := (exec_store hat.possible).1

theorem at_drawn {past : List OidcEvent} {e : OidcEvent} (hat : OidcAt P past e) :
    e.before.drawn ⊆ e.after.drawn := (exec_store hat.possible).2

/-! ### What a query found -/

section Found

variable {past : List OidcEvent} {e : OidcEvent} (hat : OidcAt P past e)
include hat

/-- `oauth_client` returns the row of the client. -/
theorem row_of_oauthClient {id : OAuthClientId} {client : OAuthClient}
    (hcall : e.call = ⟨.oauthClient id, .ok (some client)⟩) :
    ∃ r ∈ e.before.db.clients, r.id = id ∧ client = r.toClient := by
  have hexec := hat.possible
  rw [hcall] at hexec
  obtain ⟨-, ⟨_, herr⟩ | hok⟩ := OidcWorld.call_query (Option.some.inj hexec)
  · cases herr
  obtain ⟨r, hfind, hclient⟩ := Option.map_eq_some_iff.mp (Except.ok.inj hok).symm
  exact ⟨r, List.mem_of_find?_eq_some hfind, by simpa using List.find?_some hfind, hclient.symm⟩

/-- `oauth_grant` returns the consent of the account to the client. -/
theorem row_of_oauthGrant {a : AccountId} {c : OAuthClientId} {consent : OAuthGrant}
    (hcall : e.call = ⟨.oauthGrant a c, .ok (some consent)⟩) :
    ∃ r ∈ e.before.db.grants, r.accountId = a ∧ r.clientId = c ∧
      consent.scopes = splitWhitespace r.scopes := by
  have hexec := hat.possible
  rw [hcall] at hexec
  obtain ⟨-, ⟨_, herr⟩ | hok⟩ := OidcWorld.call_query (Option.some.inj hexec)
  · cases herr
  obtain ⟨r, hfind, rfl⟩ := Option.map_eq_some_iff.mp (Except.ok.inj hok).symm
  obtain ⟨haccount, hclient⟩ : r.accountId = a ∧ r.clientId = c := by
    simpa using List.find?_some hfind
  exact ⟨r, List.mem_of_find?_eq_some hfind, haccount, hclient, rfl⟩

/-- `refresh_token_by_plaintext` returns the row of the token. -/
theorem row_of_lookup {hash : String} {row : RefreshTokenRow}
    (hcall : e.call = ⟨.refreshByHash hash, .ok (some row)⟩) :
    ∃ r ∈ e.before.db.refreshTokens, r.tokenHash = hash ∧ row = r.toRefresh := by
  have hexec := hat.possible
  rw [hcall] at hexec
  obtain ⟨-, ⟨_, herr⟩ | hok⟩ := OidcWorld.call_query (Option.some.inj hexec)
  · cases herr
  obtain ⟨r, hfind, hrow⟩ := Option.map_eq_some_iff.mp (Except.ok.inj hok).symm
  exact ⟨r, List.mem_of_find?_eq_some hfind, by simpa using List.find?_some hfind, hrow.symm⟩

/-- `verify_oauth_client_secret` lets no disabled client pass. -/
theorem row_of_verifySecret {id : OAuthClientId} {secret : String}
    (hcall : e.call = ⟨.verifySecret id secret, .ok true⟩) :
    ∃ r ∈ e.before.db.clients, r.id = id ∧ r.disabled = false := by
  have hexec := hat.possible
  rw [hcall] at hexec
  obtain ⟨-, ⟨_, herr⟩ | hok⟩ := OidcWorld.call_query (Option.some.inj hexec)
  · cases herr
  obtain ⟨r, hfind, -⟩ := (Option.any_eq_true _ _).mp (Except.ok.inj hok).symm
  obtain ⟨hid, henabled⟩ : r.id = id ∧ r.disabled = false := by simpa using List.find?_some hfind
  exact ⟨r, List.mem_of_find?_eq_some hfind, hid, henabled⟩

end Found

/-- **Every run of the provider** has a past, in which every handler kept its promises. -/
theorem Provider.run_specified (ms : List ProviderMove) :
    (Provider.run P Provider.empty ms).Specified (OidcOp.exec P) (Before P) (Answered P)
      OidcWorld.empty :=
  Programs.run_specified (handle_spec (P := P)) ms specified_init

end Owney
