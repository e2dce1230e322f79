import Owney.MailStore

/-!
# Clients, grants and tokens

The tables of the OAuth provider (`oauth.rs`), the bearer tokens (`tokens.rs`) and the
passkeys of the login page (`passwordless.rs`), with the calls on them. A secret is drawn
outside and arrives as an argument; only its BLAKE3 hash is stored, and `blake3` is a
parameter. A scope list is stored as one text, its words joined by blanks, and read back
with `split_whitespace`.
-/

namespace Owney

open Tables

/-! ## Scope texts -/

/-- `char::is_whitespace`: the Unicode property `White_Space`. -/
def isWhitespace (c : Char) : Bool :=
  let n := c.toNat
  (9 ≤ n ∧ n ≤ 13) ∨ n = 32 ∨ n = 0x85 ∨ n = 0xA0 ∨ n = 0x1680 ∨ (0x2000 ≤ n ∧ n ≤ 0x200A) ∨
    n = 0x2028 ∨ n = 0x2029 ∨ n = 0x202F ∨ n = 0x205F ∨ n = 0x3000

/-- `str::split_whitespace`, as a list. -/
def splitWhitespace (s : String) : List String :=
  ((s.toList.splitOnP isWhitespace).filter (· ≠ [])).map String.ofList

/-- A word is not empty and has no blank in it. -/
def IsWord (s : String) : Prop := s ≠ "" ∧ ∀ c ∈ s.toList, isWhitespace c = false

instance (s : String) : Decidable (IsWord s) := inferInstanceAs (Decidable (_ ∧ _))

/-- **Scope texts.** Words joined by blanks are read back as the same words. -/
theorem splitWhitespace_joinWith {ws : List String} (h : ∀ w ∈ ws, IsWord w) :
    splitWhitespace (joinWith " " ws) = ws := by
  have hword : ∀ w, IsWord w → w.toList ≠ [] := by
    intro w hw hnil
    exact hw.1 (String.toList_inj.mp hnil)
  induction ws with
  | nil => rfl
  | cons w ws ih =>
    obtain ⟨hw, hws⟩ := List.forall_mem_cons.mp h
    cases ws with
    | nil =>
      rw [joinWith, splitWhitespace, List.splitOnP_eq_singleton hw.2,
        List.filter_cons_of_pos (by simpa using hword w hw)]
      simp
    | cons w' ws =>
      have htext : (joinWith " " (w :: w' :: ws)).toList =
          w.toList ++ ' ' :: (joinWith " " (w' :: ws)).toList := by
        rw [joinWith, String.toList_append, String.toList_append]
        · rfl
        · simp
      have hrest := ih hws
      rw [splitWhitespace] at hrest
      rw [splitWhitespace, htext, List.splitOnP_append_cons_of_forall_mem hw.2 _ (by decide),
        List.filter_cons_of_pos (by simpa using hword w hw), List.map_cons, hrest,
        String.ofList_toList]

/-- What `split_whitespace` returns are words. -/
theorem isWord_of_mem_splitWhitespace {s text : String} (h : s ∈ splitWhitespace text) :
    IsWord s := by
  obtain ⟨piece, hpiece, rfl⟩ := List.mem_map.mp h
  obtain ⟨hmem, hne⟩ := List.mem_filter.mp hpiece
  refine ⟨?_, ?_⟩
  · intro hempty
    have hnil := congrArg String.toList hempty
    rw [String.toList_ofList] at hnil
    simp [hnil] at hne
  · rw [String.toList_ofList]
    exact CharLists.not_mem_of_mem_splitOnP hmem

/-! ## Rows -/

/-- A client registered with the provider. -/
structure OAuthClientId where
  uuid : Uuid
  deriving DecidableEq, Repr

/-- `AccountId::from_str`. -/
def AccountId.fromStr (s : String) : Option AccountId := (Uuid.parseStr s).map AccountId.mk

/-- `OAuthClientId::from_str`. -/
def OAuthClientId.fromStr (s : String) : Option OAuthClientId :=
  (Uuid.parseStr s).map OAuthClientId.mk

/-- `id.to_string()`. -/
def AccountId.text (a : AccountId) : String := a.uuid.toString

/-- `id.to_string()`. -/
def OAuthClientId.text (c : OAuthClientId) : String := c.uuid.toString

@[simp] theorem AccountId.fromStr_text (a : AccountId) : AccountId.fromStr a.text = some a := by
  rw [AccountId.fromStr, AccountId.text, Uuid.parseStr_toString]
  rfl

@[simp] theorem OAuthClientId.fromStr_text (c : OAuthClientId) :
    OAuthClientId.fromStr c.text = some c := by
  rw [OAuthClientId.fromStr, OAuthClientId.text, Uuid.parseStr_toString]
  rfl

/-- A row of `accounts` with the column that blocks logins. -/
structure LoginAccount extends AccountsRow where
  disabledAt : Option ℤ
  deriving DecidableEq, Repr

/-- A row of `oauth_clients`. -/
structure OAuthClientsRow where
  id : OAuthClientId
  name : String
  redirectUris : List String
  secretHash : Option String
  disabled : Bool
  createdAt : ℤ
  deriving DecidableEq, Repr

/-- What the code reads of a client. -/
structure OAuthClient where
  id : OAuthClientId
  name : String
  redirectUris : List String
  isPublic : Bool
  disabled : Bool
  createdAt : ℤ
  deriving DecidableEq, Repr

/-- `row_to_client`. -/
def OAuthClientsRow.toClient (r : OAuthClientsRow) : OAuthClient where
  id := r.id
  name := r.name
  redirectUris := r.redirectUris
  isPublic := r.secretHash.isNone
  disabled := r.disabled
  createdAt := r.createdAt

/-- A row of `oauth_grants`; the pair of ids is unique. -/
structure OAuthGrantsRow where
  accountId : AccountId
  clientId : OAuthClientId
  scopes : String
  createdAt : ℤ
  updatedAt : ℤ
  deriving DecidableEq, Repr

/-- A grant as it is read. -/
structure OAuthGrant where
  accountId : AccountId
  clientId : OAuthClientId
  scopes : List String
  createdAt : ℤ
  updatedAt : ℤ
  deriving DecidableEq, Repr

/-- A row of `oauth_refresh_tokens`. -/
structure RefreshTokensRow where
  tokenHash : String
  familyId : String
  accountId : AccountId
  clientId : OAuthClientId
  scopes : String
  accessTokenHash : Option String
  expiresAt : ℤ
  usedAt : Option ℤ
  revokedAt : Option ℤ
  createdAt : ℤ
  deriving DecidableEq, Repr

/-- `RefreshTokenRow`: a refresh token as it is read. -/
structure RefreshTokenRow where
  tokenHash : String
  familyId : String
  accountId : AccountId
  clientId : OAuthClientId
  scopes : List String
  accessTokenHash : Option String
  expiresAt : ℤ
  usedAt : Option ℤ
  revokedAt : Option ℤ
  createdAt : ℤ
  deriving DecidableEq, Repr

/-- `row_to_refresh`. -/
def RefreshTokensRow.toRefresh (r : RefreshTokensRow) : RefreshTokenRow where
  tokenHash := r.tokenHash
  familyId := r.familyId
  accountId := r.accountId
  clientId := r.clientId
  scopes := splitWhitespace r.scopes
  accessTokenHash := r.accessTokenHash
  expiresAt := r.expiresAt
  usedAt := r.usedAt
  revokedAt := r.revokedAt
  createdAt := r.createdAt

/-- A row of `app_passwords`, without `last_used_at`, which nothing reads. -/
structure AppPasswordsRow where
  tokenHash : String
  accountId : AccountId
  name : String
  createdAt : ℤ
  expiresAt : Option ℤ
  scopes : Option String
  oauthClientId : Option OAuthClientId
  deriving DecidableEq, Repr

/-- The id of a WebAuthn credential. -/
abbrev CredentialId : Type := List UInt8

/-- A `Passkey` of webauthn-rs: its credential, the public key, and the signature
counter it was last updated with. -/
structure Passkey where
  credId : CredentialId
  publicKey : List UInt8
  counter : ℕ
  deriving DecidableEq, Repr

/-- A row of `passkey_credentials`; the column `public_key` has the serialised `Passkey`. -/
structure PasskeyCredential where
  id : CredentialId
  accountId : String
  deviceName : String
  publicKey : Passkey
  counter : ℕ
  createdAt : ℤ
  disabled : Bool
  deriving DecidableEq, Repr

/-- The tables. -/
structure OAuthDb where
  accounts : List LoginAccount
  clients : List OAuthClientsRow
  grants : List OAuthGrantsRow
  refreshTokens : List RefreshTokensRow
  appPasswords : List AppPasswordsRow
  passkeys : List PasskeyCredential
  deriving DecidableEq, Repr

/-- The tables of a new installation. -/
def OAuthDb.empty : OAuthDb := ⟨[], [], [], [], [], []⟩

/-! ## Clients -/

/-- The `INSERT` of `create_oauth_client`. -/
def createOAuthClientTx (io : Io) (row : OAuthClientsRow) : Tx OAuthDb PUnit := do
  let db ← Tx.get
  Tx.require (row.id ∉ db.clients.map (·.id)) .sqlite
  Tx.exec io 0 fun db => { db with clients := db.clients ++ [row] }

/-- `Storage::oauth_client`. -/
def oauthClientTx (io : Io) (id : OAuthClientId) : Tx OAuthDb (Option OAuthClient) :=
  Tx.query io 0 fun db => (db.clients.find? (·.id = id)).map (·.toClient)

/-- `Storage::verify_oauth_client_secret`; `candidate` is the hash of the secret. -/
def verifyOAuthClientSecretTx (io : Io) (id : OAuthClientId) (candidate : String) :
    Tx OAuthDb Bool :=
  Tx.query io 0 fun db =>
    (db.clients.find? fun r => r.id = id ∧ r.disabled = false).any fun r =>
      r.secretHash = some candidate

/-- `Storage::disable_oauth_client`. -/
def disableOAuthClientTx (io : Io) (id : OAuthClientId) (now : ℤ) : Tx OAuthDb PUnit := do
  let db ← Tx.get
  Tx.exec io 0 fun db =>
    { db with clients := update (·.id = id) (fun r => { r with disabled := true }) db.clients }
  Tx.require (db.clients.any (·.id = id)) (.badInput "no such client")
  Tx.exec io 1 fun db =>
    { db with
      refreshTokens := update (fun r => r.clientId = id ∧ r.revokedAt = none)
        (fun r => { r with revokedAt := some now }) db.refreshTokens }
  Tx.exec io 2 fun db =>
    { db with appPasswords := db.appPasswords.filter (·.oauthClientId ≠ some id) }

/-! ## Grants -/

/-- Scopes after those already there. -/
def mergeScopes (existing scopes : List String) : List String :=
  scopes.foldl (fun merged scope => if scope ∈ merged then merged else merged ++ [scope]) existing

theorem mem_mergeScopes {existing scopes : List String} {s : String} :
    s ∈ mergeScopes existing scopes ↔ s ∈ existing ∨ s ∈ scopes := by
  induction scopes generalizing existing with
  | nil => simp [mergeScopes]
  | cons scope scopes ih =>
    rw [mergeScopes, List.foldl_cons, ← mergeScopes, ih]
    split
    · rename_i hmem
      constructor
      · rintro (h | h)
        · exact .inl h
        · exact .inr (List.mem_cons_of_mem _ h)
      · rintro (h | h)
        · exact .inl h
        · rcases List.mem_cons.mp h with rfl | h
          · exact .inl hmem
          · exact .inr h
    · simp [or_assoc]

/-- `Storage::upsert_oauth_grant`. -/
def upsertOAuthGrantTx (io : Io) (accountId : AccountId) (clientId : OAuthClientId)
    (scopes : List String) (now : ℤ) : Tx OAuthDb PUnit := do
  let existing ← Tx.query io 0 fun db =>
    (db.grants.find? fun r => r.accountId = accountId ∧ r.clientId = clientId).map (·.scopes)
  let merged := mergeScopes ((existing.map splitWhitespace).getD []) scopes
  let text := joinWith " " (merged.insertionSort (· ≤ ·))
  Tx.exec io 1 fun db =>
    { db with
      grants := upsert (fun r => r.accountId = accountId ∧ r.clientId = clientId)
        (fun r => { r with scopes := text, updatedAt := now })
        ⟨accountId, clientId, text, now, now⟩ db.grants }

/-- `Storage::oauth_grant`. -/
def oauthGrantTx (io : Io) (accountId : AccountId) (clientId : OAuthClientId) :
    Tx OAuthDb (Option OAuthGrant) :=
  Tx.query io 0 fun db =>
    (db.grants.find? fun r => r.accountId = accountId ∧ r.clientId = clientId).map fun r =>
      ⟨accountId, clientId, splitWhitespace r.scopes, r.createdAt, r.updatedAt⟩

/-- `Storage::revoke_oauth_grant`. -/
def revokeOAuthGrantTx (io : Io) (accountId : AccountId) (clientId : OAuthClientId) (now : ℤ) :
    Tx OAuthDb PUnit := do
  let db ← Tx.get
  Tx.exec io 0 fun db =>
    { db with
      grants := db.grants.filter fun r => ¬(r.accountId = accountId ∧ r.clientId = clientId) }
  Tx.require (db.grants.any fun r => r.accountId = accountId ∧ r.clientId = clientId)
    (.badInput "no such grant")
  Tx.exec io 1 fun db =>
    { db with
      refreshTokens :=
        update (fun r => r.accountId = accountId ∧ r.clientId = clientId ∧ r.revokedAt = none)
          (fun r => { r with revokedAt := some now }) db.refreshTokens }
  Tx.exec io 2 fun db =>
    { db with
      appPasswords := db.appPasswords.filter fun r =>
        ¬(r.accountId = accountId ∧ r.oauthClientId = some clientId) }

/-! ## Refresh tokens -/

/-- The `INSERT` of `create_refresh_token`. -/
def createRefreshTokenTx (io : Io) (row : RefreshTokensRow) : Tx OAuthDb PUnit :=
  Tx.exec io 0 fun db => { db with refreshTokens := db.refreshTokens ++ [row] }

/-- `Storage::refresh_token_by_plaintext`, for a token with the prefix. -/
def refreshTokenByHashTx (io : Io) (hash : String) : Tx OAuthDb (Option RefreshTokenRow) :=
  Tx.query io 0 fun db => (db.refreshTokens.find? (·.tokenHash = hash)).map (·.toRefresh)

/-- A refresh token that may be used: not used, not revoked, not expired. -/
def RefreshTokenRow.Live (r : RefreshTokenRow) (now : ℤ) : Prop :=
  r.usedAt = none ∧ r.revokedAt = none ∧ now < r.expiresAt

instance (r : RefreshTokenRow) (now : ℤ) : Decidable (r.Live now) :=
  inferInstanceAs (Decidable (_ ∧ _ ∧ _))

/-- `Storage::rotate_refresh_token`; `newHash` is the hash of the successor. -/
def rotateRefreshTokenTx (io : Io) (oldHash newHash : String) (accessTokenHash : Option String)
    (expiresAt now : ℤ) : Tx OAuthDb PUnit := do
  let found ← Tx.query io 0 fun db =>
    (db.refreshTokens.find? (·.tokenHash = oldHash)).map (·.toRefresh)
  let old ← Tx.okOr found (.badInput "no such refresh token")
  Tx.require (old.Live now) (.conflict "refresh token not live")
  Tx.exec io 1 fun db =>
    { db with
      refreshTokens := update (·.tokenHash = oldHash) (fun r => { r with usedAt := some now })
        db.refreshTokens }
  Tx.exec io 2 fun db =>
    { db with
      refreshTokens := db.refreshTokens ++ [⟨newHash, old.familyId, old.accountId, old.clientId,
        joinWith " " old.scopes, accessTokenHash, expiresAt, none, none, now⟩] }

/-- `Storage::revoke_refresh_family`. -/
def revokeRefreshFamilyTx (io : Io) (familyId : String) (now : ℤ) : Tx OAuthDb PUnit := do
  Tx.exec io 0 fun db =>
    { db with
      appPasswords := db.appPasswords.filter fun p =>
        ¬(db.refreshTokens.any fun r =>
          r.familyId = familyId ∧ r.accessTokenHash = some p.tokenHash) }
  Tx.exec io 1 fun db =>
    { db with
      refreshTokens := update (fun r => r.familyId = familyId ∧ r.revokedAt = none)
        (fun r => { r with revokedAt := some now }) db.refreshTokens }

/-! ## Bearer tokens -/

/-- The `INSERT` of `create_token` and of `create_scoped_token`. -/
def createTokenTx (io : Io) (row : AppPasswordsRow) : Tx OAuthDb PUnit :=
  Tx.exec io 0 fun db => { db with appPasswords := db.appPasswords ++ [row] }

/-- `Storage::revoke_token_by_hash`. -/
def revokeTokenByHashTx (io : Io) (hash : String) : Tx OAuthDb PUnit :=
  Tx.exec io 0 fun db => { db with appPasswords := db.appPasswords.filter (·.tokenHash ≠ hash) }

/-- What a bearer token is allowed to do. -/
inductive TokenAccess where
  /-- admin-minted: everything -/
  | full
  /-- OIDC-minted: the granted scopes -/
  | scoped (scopes : List String)
  deriving DecidableEq, Repr

/-- `TokenAccess::allows`. -/
def TokenAccess.allows (scope : String) : TokenAccess → Bool
  | .full => true
  | .scoped scopes => scope ∈ scopes

/-- The join of a live token with its account, which is not disabled. -/
def OAuthDb.bearer (db : OAuthDb) (hash : String) (now : ℤ) (p : AppPasswordsRow → Bool) :
    Option (AccountsRow × AppPasswordsRow) :=
  db.appPasswords.findSome? fun r =>
    if r.tokenHash = hash ∧ (∀ t ∈ r.expiresAt, now < t) ∧ p r then
      (db.accounts.find? fun a => a.id = r.accountId ∧ a.disabledAt = none).map fun a =>
        (a.toAccountsRow, r)
    else none

/-- The token that the join finds is there, not expired, and its account is not disabled. -/
theorem OAuthDb.bearer_eq_some {db : OAuthDb} {hash : String} {now : ℤ}
    {p : AppPasswordsRow → Bool} {account : AccountsRow} {r : AppPasswordsRow}
    (h : db.bearer hash now p = some (account, r)) :
    r ∈ db.appPasswords ∧ r.tokenHash = hash ∧ (∀ t ∈ r.expiresAt, now < t) ∧ p r = true := by
  obtain ⟨r', hr', hfound⟩ := List.exists_of_findSome?_eq_some h
  split at hfound
  · rename_i hr
    obtain ⟨a, -, heq⟩ := Option.map_eq_some_iff.mp hfound
    obtain ⟨-, rfl⟩ := Prod.mk.inj heq
    exact ⟨hr', hr⟩
  · cases hfound

/-- `Storage::account_by_token`, for a token with the prefix. -/
def accountByTokenTx (io : Io) (hash : String) (now : ℤ) : Tx OAuthDb (Option AccountsRow) := do
  let account ← Tx.query io 0 fun db =>
    (db.bearer hash now fun r => r.scopes.isNone).map (·.1)
  if account.isSome then Tx.exec io 1 id
  return account

/-- `Storage::account_and_access_by_token`, for a token with the prefix. -/
def accountAndAccessByTokenTx (io : Io) (hash : String) (now : ℤ) :
    Tx OAuthDb (Option (AccountsRow × TokenAccess)) := do
  let found ← Tx.query io 0 fun db =>
    (db.bearer hash now fun _ => true).map fun x =>
      (x.1, match x.2.scopes with
        | none => TokenAccess.full
        | some scopes => .scoped (splitWhitespace scopes))
  if found.isSome then Tx.exec io 1 id
  return found

/-! ## Passkeys and accounts -/

/-- `Storage::save_passkey_credential`. -/
def savePasskeyCredentialTx (io : Io) (row : PasskeyCredential) : Tx OAuthDb PUnit := do
  let db ← Tx.get
  Tx.require (row.id ∉ db.passkeys.map (·.id)) (.corrupt "UNIQUE constraint failed")
  Tx.exec io 0 fun db => { db with passkeys := db.passkeys ++ [row] }

/-- `Storage::get_passkey_credential`. -/
def getPasskeyCredentialTx (io : Io) (id : CredentialId) :
    Tx OAuthDb (Option PasskeyCredential) :=
  Tx.query io 0 fun db => db.passkeys.find? (·.id = id)

/-- `Storage::list_passkeys_for_account`. -/
def listPasskeysForAccountTx (io : Io) (accountId : String) :
    Tx OAuthDb (List PasskeyCredential) :=
  Tx.query io 0 fun db => orderBy (fun r => -r.createdAt)
    (db.passkeys.filter fun r => r.accountId = accountId ∧ r.disabled = false)

/-- `Storage::update_passkey_counter`. -/
def updatePasskeyCounterTx (io : Io) (id : CredentialId) (counter : ℕ) : Tx OAuthDb PUnit :=
  Tx.exec io 0 fun db =>
    { db with passkeys := update (·.id = id) (fun r => { r with counter := counter }) db.passkeys }

/-- `Storage::disable_passkey`. -/
def disablePasskeyTx (io : Io) (id : CredentialId) : Tx OAuthDb PUnit :=
  Tx.exec io 0 fun db =>
    { db with passkeys := update (·.id = id) (fun r => { r with disabled := true }) db.passkeys }

/-- `Storage::account`. -/
def accountTx (io : Io) (id : AccountId) : Tx OAuthDb (Option AccountsRow) :=
  Tx.query io 0 fun db => (db.accounts.find? (·.id = id)).map (·.toAccountsRow)

/-- `Storage::account_by_email`, for an address in lower case. -/
def accountByEmailTx (io : Io) (email : String) : Tx OAuthDb (Option AccountsRow) :=
  Tx.query io 0 fun db =>
    (db.accounts.find? fun a => a.email = email ∧ a.disabledAt = none).map (·.toAccountsRow)

/-- Account administration (`create_account`, `disable_account` and the like), which may
leave any accounts behind. -/
def setAccountsTx (io : Io) (accounts : List LoginAccount) : Tx OAuthDb PUnit :=
  Tx.exec io 0 fun db => { db with accounts := accounts }

/-! ## What a successful call did -/

section Ok

variable {io : Io} {db db' : OAuthDb} {u : PUnit}

theorem createOAuthClientTx_ok {row : OAuthClientsRow}
    (h : createOAuthClientTx io row db = .ok (u, db')) :
    row.id ∉ db.clients.map (·.id) ∧ db' = { db with clients := db.clients ++ [row] } := by
  simp only [createOAuthClientTx, Tx.bind_eq_ok, Tx.get_eq_ok, Tx.require_eq_ok,
    Tx.exec_eq_ok] at h
  obtain ⟨_, _, ⟨rfl, rfl⟩, _, _, ⟨hnew, rfl⟩, -, rfl⟩ := h
  exact ⟨hnew, rfl⟩

theorem disableOAuthClientTx_ok {id : OAuthClientId} {now : ℤ}
    (h : disableOAuthClientTx io id now db = .ok (u, db')) :
    db' = { db with
      clients := update (·.id = id) (fun r => { r with disabled := true }) db.clients
      refreshTokens := update (fun r => r.clientId = id ∧ r.revokedAt = none)
        (fun r => { r with revokedAt := some now }) db.refreshTokens
      appPasswords := db.appPasswords.filter (·.oauthClientId ≠ some id) } := by
  simp only [disableOAuthClientTx, Tx.bind_eq_ok, Tx.get_eq_ok, Tx.require_eq_ok,
    Tx.exec_eq_ok] at h
  obtain ⟨_, _, ⟨rfl, rfl⟩, _, _, ⟨-, rfl⟩, _, _, ⟨-, rfl⟩, _, _, ⟨-, rfl⟩, -, rfl⟩ := h
  rfl

theorem disableOAuthClientTx_found {id : OAuthClientId} {now : ℤ}
    (h : disableOAuthClientTx io id now db = .ok (u, db')) : ∃ r ∈ db.clients, r.id = id := by
  simp only [disableOAuthClientTx, Tx.bind_eq_ok, Tx.get_eq_ok, Tx.require_eq_ok,
    Tx.exec_eq_ok] at h
  obtain ⟨_, _, ⟨rfl, rfl⟩, _, _, ⟨-, rfl⟩, _, _, ⟨hfound, rfl⟩, -⟩ := h
  simpa using hfound

theorem upsertOAuthGrantTx_ok {accountId : AccountId} {clientId : OAuthClientId}
    {scopes : List String} {now : ℤ}
    (h : upsertOAuthGrantTx io accountId clientId scopes now db = .ok (u, db')) :
    ∃ text, text = joinWith " " ((mergeScopes ((((db.grants.find? fun r => r.accountId = accountId ∧
        r.clientId = clientId).map (·.scopes)).map splitWhitespace).getD [])
        scopes).insertionSort (· ≤ ·)) ∧
      db' = { db with
        grants := upsert (fun r => r.accountId = accountId ∧ r.clientId = clientId)
          (fun r => { r with scopes := text, updatedAt := now })
          ⟨accountId, clientId, text, now, now⟩ db.grants } := by
  simp only [upsertOAuthGrantTx, Tx.bind_eq_ok, Tx.query_eq_ok, Tx.exec_eq_ok] at h
  obtain ⟨_, _, ⟨-, rfl, rfl⟩, -, rfl⟩ := h
  exact ⟨_, rfl, rfl⟩

theorem revokeOAuthGrantTx_ok {accountId : AccountId} {clientId : OAuthClientId} {now : ℤ}
    (h : revokeOAuthGrantTx io accountId clientId now db = .ok (u, db')) :
    db' = { db with
      grants := db.grants.filter fun r => ¬(r.accountId = accountId ∧ r.clientId = clientId)
      refreshTokens :=
        update (fun r => r.accountId = accountId ∧ r.clientId = clientId ∧ r.revokedAt = none)
          (fun r => { r with revokedAt := some now }) db.refreshTokens
      appPasswords := db.appPasswords.filter fun r =>
        ¬(r.accountId = accountId ∧ r.oauthClientId = some clientId) } := by
  simp only [revokeOAuthGrantTx, Tx.bind_eq_ok, Tx.get_eq_ok, Tx.require_eq_ok,
    Tx.exec_eq_ok] at h
  obtain ⟨_, _, ⟨rfl, rfl⟩, _, _, ⟨-, rfl⟩, _, _, ⟨-, rfl⟩, _, _, ⟨-, rfl⟩, -, rfl⟩ := h
  rfl

theorem rotateRefreshTokenTx_ok {oldHash newHash : String} {access : Option String}
    {expiresAt now : ℤ}
    (h : rotateRefreshTokenTx io oldHash newHash access expiresAt now db = .ok (u, db')) :
    ∃ old, db.refreshTokens.find? (·.tokenHash = oldHash) = some old ∧ old.toRefresh.Live now ∧
      db' = { db with
        refreshTokens :=
          update (·.tokenHash = oldHash) (fun r => { r with usedAt := some now }) db.refreshTokens ++
            [⟨newHash, old.familyId, old.accountId, old.clientId,
              joinWith " " (splitWhitespace old.scopes), access, expiresAt, none, none, now⟩] } := by
  simp only [rotateRefreshTokenTx, Tx.bind_eq_ok, Tx.query_eq_ok, Tx.okOr_eq_ok, Tx.require_eq_ok,
    Tx.exec_eq_ok] at h
  obtain ⟨_, _, ⟨-, rfl, rfl⟩, _, _, ⟨hold, rfl⟩, _, _, ⟨hlive, rfl⟩, _, _, ⟨-, rfl⟩, -, rfl⟩ := h
  obtain ⟨old, hfind, rfl⟩ := Option.map_eq_some_iff.mp hold
  exact ⟨old, hfind, hlive, rfl⟩

theorem revokeRefreshFamilyTx_ok {familyId : String} {now : ℤ}
    (h : revokeRefreshFamilyTx io familyId now db = .ok (u, db')) :
    db' = { db with
      appPasswords := db.appPasswords.filter fun p =>
        ¬(db.refreshTokens.any fun r =>
          r.familyId = familyId ∧ r.accessTokenHash = some p.tokenHash)
      refreshTokens := update (fun r => r.familyId = familyId ∧ r.revokedAt = none)
        (fun r => { r with revokedAt := some now }) db.refreshTokens } := by
  simp only [revokeRefreshFamilyTx, Tx.bind_eq_ok, Tx.exec_eq_ok] at h
  obtain ⟨_, _, ⟨-, rfl⟩, -, rfl⟩ := h
  rfl

theorem accountByTokenTx_ok {hash : String} {now : ℤ} {account : Option AccountsRow}
    (h : accountByTokenTx io hash now db = .ok (account, db')) :
    account = (db.bearer hash now fun r => r.scopes.isNone).map (·.1) ∧ db' = db := by
  simp only [accountByTokenTx, Tx.bind_eq_ok, Tx.query_eq_ok] at h
  obtain ⟨_, _, ⟨-, rfl, rfl⟩, hrest⟩ := h
  split at hrest
  · obtain ⟨_, _, hexec, hret⟩ := Tx.bind_eq_ok.mp hrest
    obtain ⟨rfl, rfl⟩ := Tx.pure_eq_ok.mp hret
    exact ⟨rfl, (Tx.exec_eq_ok.mp hexec).2.symm⟩
  · obtain ⟨rfl, rfl⟩ := Tx.pure_eq_ok.mp hrest
    exact ⟨rfl, rfl⟩

theorem accountAndAccessByTokenTx_ok {hash : String} {now : ℤ}
    {found : Option (AccountsRow × TokenAccess)}
    (h : accountAndAccessByTokenTx io hash now db = .ok (found, db')) :
    found = (db.bearer hash now fun _ => true).map (fun x =>
      (x.1, match x.2.scopes with
        | none => TokenAccess.full
        | some scopes => .scoped (splitWhitespace scopes))) ∧ db' = db := by
  simp only [accountAndAccessByTokenTx, Tx.bind_eq_ok, Tx.query_eq_ok] at h
  obtain ⟨_, _, ⟨-, rfl, rfl⟩, hrest⟩ := h
  split at hrest
  · obtain ⟨_, _, hexec, hret⟩ := Tx.bind_eq_ok.mp hrest
    obtain ⟨rfl, rfl⟩ := Tx.pure_eq_ok.mp hret
    exact ⟨rfl, (Tx.exec_eq_ok.mp hexec).2.symm⟩
  · obtain ⟨rfl, rfl⟩ := Tx.pure_eq_ok.mp hrest
    exact ⟨rfl, rfl⟩

end Ok

end Owney
