import Owney.OpenConnections

/-!
# Access and its token

Whether access ends with the token. A WebSocket, an EventSource stream and, for the moment
between its two parts, an HTTP request go on with the account they were opened for, and nothing
looks at the token again.

* `Good` — the token is there, not expired, carries the scope, and its account is not disabled.
* `AccessEnds` — what is processed or pushed is for the account of a token that is good then.
* `Undisturbed` — between the opening of a connection and what it does later, nothing ends its
  token: no revocation of its row, no disabling of its account, and not the clock.
* `accessEnds_iff` — access ends with the token exactly in the runs that are undisturbed.
-/

namespace Owney.Access

open Programs Tables

variable {σ : Type} {S : Endpoint σ} {w w' : World σ} {e : Event}

/-! ## What is claimed -/

/-- What a row lets its bearer do. -/
def access (r : AppPasswordsRow) : TokenAccess :=
  match r.scopes with
  | none => .full
  | some scopes => .scoped (splitWhitespace scopes)

/-- The account is there, and not disabled. -/
def Enabled (w : World σ) (id : AccountId) : Prop :=
  ∃ a ∈ w.oidc.db.accounts, a.id = id ∧ a.disabledAt = none

/-- A token of the account: present, unexpired, with the mail scope, the account not disabled. -/
structure Good (S : Endpoint σ) (w : World σ) (token : String) (id : AccountId) : Prop where
  row : ∃ r ∈ w.oidc.db.appPasswords, r.tokenHash = S.oidc.blake3 token ∧ r.accountId = id ∧
    (∀ t ∈ r.expiresAt, w.oidc.unix < t) ∧ (access r).allows scopeMail
  enabled : Enabled w id

/-- The connection the step is about. -/
def Event.connection : Event → Option ℕ
  | .connect k .. | .proceed k | .frame k _ | .receive k | .lagged k _ | .close k => some k
  | _ => none

variable (S) in
/-- In the state `w`, the step processes or pushes for the account `id`, on connection `k`. -/
def Acts (w : World σ) (e : Event) (k : ℕ) (id : AccountId) : Prop :=
  e.connection = some k ∧ ∃ out, (step S w e).2 = some out ∧ out.account = some id

variable (S) in
/-- **Access ends with the token.** Whatever is processed or pushed on a connection is for the
account of a token that was presented on it and is good at that moment. -/
def AccessEnds (mail : σ) (ops : List Event) : Prop :=
  ∀ pre e post, ops = pre ++ e :: post →
    ∀ out id, (step S (after S (.start mail) pre) e).2 = some out → out.account = some id →
      ∃ k c token, e.connection = some k ∧ (after S (.start mail) pre).conns k = some c ∧
        bearerToken c.authorization = some token ∧ Good S (after S (.start mail) pre) token id

/-! ## When it holds -/

/-- The step opens connection `k`, for the account of the row `r`. -/
structure Opened (S : Endpoint σ) (w : World σ) (e : Event) (k : ℕ) (authorization : Option String)
    (account : AccountsRow) (r : AppPasswordsRow) : Prop where
  connect : ∃ transport io, e = .connect k transport authorization io ∧
    authenticateScoped S w authorization scopeMail io = .ok account
  unused : k ∉ w.used
  token : ∃ token, bearerToken authorization = some token ∧
    w.oidc.db.bearer (S.oidc.blake3 token) w.oidc.unix (fun _ => true) = some (account, r)

/-- A call that deletes a row of `app_passwords`. -/
def Revokes (w : OidcWorld) (r : AppPasswordsRow) : Call OidcOp.Ret → Prop
  | ⟨.disableClient id, .ok _⟩ => r.oauthClientId = some id
  | ⟨.revokeGrant accountId clientId, .ok _⟩ =>
    r.accountId = accountId ∧ r.oauthClientId = some clientId
  | ⟨.revokeFamily familyId, .ok _⟩ =>
    ∃ t ∈ w.db.refreshTokens, t.familyId = familyId ∧ t.accessTokenHash = some r.tokenHash
  | ⟨.revokeByHash hash, .ok _⟩ => r.tokenHash = hash
  | _ => False

variable (S) in
/-- A step that revokes a token or disables its account. -/
def Ends (r : AppPasswordsRow) (w : World σ) : Event → Prop
  | .table o c => ∃ res w', o.exec S.oidc c w.oidc = some (res, w') ∧ Revokes w.oidc r ⟨o, res⟩
  | .disableAccount id io => r.accountId = id ∧ io 0
  | _ => False

variable (S) in
/-- **An undisturbed run.** From the opening of a connection to whatever is done on it, no step
revokes its token or disables its account, and the token does not expire. -/
def Undisturbed (mail : σ) (ops : List Event) : Prop :=
  ∀ pre e mid e' post, ops = pre ++ e :: (mid ++ e' :: post) →
    ∀ k authorization account r id,
      Opened S (after S (.start mail) pre) e k authorization account r →
      Acts S (after S (.start mail) (pre ++ e :: mid)) e' k id →
        Runs.Meets (next S) (fun w x => ¬Ends S r w x) (after S (.start mail) (pre ++ [e])) mid ∧
          ∀ t ∈ r.expiresAt, (after S (.start mail) (pre ++ e :: mid)).oidc.unix < t

/-! ## Runs -/

theorem after_append (w : World σ) (xs ys : List Event) :
    after S w (xs ++ ys) = after S (after S w xs) ys :=
  Runs.run_append w xs ys

theorem after_snoc (w : World σ) (xs : List Event) (e : Event) :
    after S w (xs ++ [e]) = next S (after S w xs) e :=
  after_append w xs [e]

/-! ## The tables -/

/-- What a step does to the tables. -/
inductive TableEffect (S : Endpoint σ) (w : World σ) : Event → OidcWorld → Prop where
  | kept {e : Event} (quiet : ∀ r, ¬Ends S r w e) : TableEffect S w e w.oidc
  | called {o : OidcOp} {c : Choice} {res : o.Ret} {w' : OidcWorld}
      (exec : o.exec S.oidc c w.oidc = some (res, w')) (tokens : OfTokens o) :
      TableEffect S w (.table o c) w'
  | created {row : AccountsRow} {io : Io} (new : ∀ a ∈ w.oidc.db.accounts, a.id ≠ row.id) :
      TableEffect S w (.createAccount row io)
        { w.oidc with
          db := { w.oidc.db with
            accounts := w.oidc.db.accounts ++ [⟨row, none⟩] } }
  | disabled {id : AccountId} {io : Io} (done : io 0) :
      TableEffect S w (.disableAccount id io)
        { w.oidc with
          db := { w.oidc.db with
            accounts := update (·.id = id) (fun a => { a with disabledAt := some w.oidc.unix })
              w.oidc.db.accounts } }

theorem oidc_process (k : ℕ) (account : AccountsRow) (request : Jmap.Request)
    (requestId : Option Jmap.Value) (c : Option Connection) :
    (process S w k account request requestId c).1.oidc = w.oidc := by
  unfold process
  split <;> rfl

theorem oidc_api (k : ℕ) (account : AccountsRow) (body : String) :
    (api S w k account body).1.oidc = w.oidc := by
  unfold api
  split
  · rfl
  · split
    · rfl
    · exact oidc_process ..

/-- A statement with as many values as parameters disables the account. -/
theorem disableAccountTx_eq_ok {io : Io} {id : AccountId} {now : ℤ} {db db' : OAuthDb}
    {u : PUnit} : disableAccountTx io id now db = .ok (u, db') ↔ io 0 ∧
      { db with
        accounts := update (·.id = id) (fun a => { a with disabledAt := some now })
          db.accounts } = db' := by
  simp [disableAccountTx, bindParameters]

/-- The statement of `enable_account` has two parameters and is given one value. -/
theorem enableAccountTx_fails (io : Io) (id : AccountId) (db : OAuthDb) :
    (transaction (enableAccountTx io id) db).2 = db := by
  rcases transaction_cases (enableAccountTx io id) db with ⟨e, h⟩ | ⟨a, db', hok, -⟩
  · rw [h]
  · simp [enableAccountTx, bindParameters] at hok

/-- **The tables after a step.** -/
theorem tableEffect (w : World σ) (e : Event) : TableEffect S w e (next S w e).oidc := by
  have hkept : ∀ {e : Event}, (∀ r, ¬Ends S r w e) → (next S w e).oidc = w.oidc →
      TableEffect S w e (next S w e).oidc := fun hquiet heq => heq ▸ .kept hquiet
  cases e with
  | table o c =>
    by_cases htokens : OfTokens o
    · rcases hexec : o.exec S.oidc c w.oidc with _ | ⟨res, w'⟩
      · refine hkept ?_ (by simp [next, step, htokens, hexec])
        rintro r ⟨res, w', h, -⟩
        simp [hexec] at h
      · simpa [next, step, htokens, hexec] using TableEffect.called hexec htokens
    · refine hkept ?_ (by simp [next, step, htokens])
      rintro r ⟨res, w', -, hrevokes⟩
      cases o <;> simp [OfTokens, Revokes] at htokens hrevokes
  | createAccount row io =>
    rcases transaction_cases (createAccountTx io row) w.oidc.db with ⟨e, h⟩ | ⟨a, db, hok, h⟩
    · exact hkept (fun _ => id) (by simp [next, step, World.accounts, h])
    · simp only [createAccountTx, Tx.bind_eq_ok, Tx.get_eq_ok, Tx.require_eq_ok,
        Tx.exec_eq_ok] at hok
      obtain ⟨_, _, ⟨rfl, rfl⟩, _, _, ⟨hnew, rfl⟩, -, rfl⟩ := hok
      have hcreated : TableEffect S w (.createAccount row io) _ :=
        .created fun a ha => (hnew a ha).1
      simpa [next, step, World.accounts, h] using hcreated
  | disableAccount id io =>
    rcases transaction_cases (disableAccountTx io id w.oidc.unix) w.oidc.db with
      ⟨e, h⟩ | ⟨a, db, hok, h⟩
    · refine hkept ?_ (by simp [next, step, World.accounts, h])
      rintro r ⟨-, hio⟩
      have hdone : disableAccountTx io id w.oidc.unix w.oidc.db = .ok (⟨⟩, _) :=
        disableAccountTx_eq_ok.mpr ⟨hio, rfl⟩
      rw [transaction_eq_ok.mpr hdone] at h
      cases h
    · obtain ⟨hio, rfl⟩ := disableAccountTx_eq_ok.mp hok
      simpa [next, step, World.accounts, h] using TableEffect.disabled (S := S) hio
  | enableAccount id io =>
    exact hkept (fun _ h => h) (by simp [next, step, World.accounts, enableAccountTx_fails])
  | connect k transport authorization io =>
    refine hkept (fun _ => id) ?_
    simp only [next, step]
    split
    · rfl
    · split <;> rfl
  | proceed k =>
    refine hkept (fun _ => id) ?_
    simp only [next, step]
    split
    · exact oidc_api ..
    all_goals rfl
  | frame k text =>
    refine hkept (fun _ => id) ?_
    simp only [next, step]
    split
    · split
      · exact oidc_process ..
      all_goals rfl
    · rfl
  | receive k | lagged k missed =>
    refine hkept (fun _ => id) ?_
    simp only [next, step]
    split <;> rfl
  | close k | publish event => exact hkept (fun _ => id) rfl

/-- The other tables and the texts drawn, at most longer. -/
theorem TableEffect.hashes {w' : OidcWorld} (h : TableEffect S w e w')
    (hw : HashesDrawn w.oidc) : HashesDrawn w' ∧ w.oidc.drawn ⊆ w'.drawn := by
  cases h with
  | kept | created | disabled => exact ⟨⟨hw.1, hw.2, hw.3, hw.4⟩, List.Subset.refl _⟩
  | called exec =>
    have hdrawn := (exec_store exec).2
    exact ⟨hw.step (exec_db exec) hdrawn, hdrawn⟩

/-! ## A row -/

/-- The row is there, and its account is not disabled. -/
def Alive (r : AppPasswordsRow) (w : World σ) : Prop :=
  r ∈ w.oidc.db.appPasswords ∧ Enabled w r.accountId

/-- The row is gone, or its account is disabled; neither comes back. -/
def Lost (r : AppPasswordsRow) (w : World σ) : Prop :=
  (r.tokenHash ∈ w.oidc.drawn ∧ ∀ r' ∈ w.oidc.db.appPasswords, r'.tokenHash ≠ r.tokenHash) ∨
    ((∃ a ∈ w.oidc.db.accounts, a.id = r.accountId) ∧
      ∀ a ∈ w.oidc.db.accounts, a.id = r.accountId → a.disabledAt ≠ none)

section Rows

variable {P : Oidc} {v v' : OidcWorld} {call : Call OidcOp.Ret} {r : AppPasswordsRow}

theorem Revokes.wrote (h : Revokes v r call) : Wrote call = true := by
  unfold Revokes at h
  split at h
  · rfl
  · rfl
  · rfl
  · rfl
  · exact h.elim

/-- A call that does not revoke a row leaves it. -/
theorem row_kept (h : DbEffect P v call v') (hr : r ∈ v.db.appPasswords)
    (hrevokes : ¬Revokes v r call) : r ∈ v'.db.appPasswords := by
  cases h with
  | clientDisabled made db | grantRevoked made db | tokenRevoked made db =>
    rw [db]
    subst made
    exact List.mem_filter.mpr ⟨hr, decide_eq_true hrevokes⟩
  | familyRevoked made db =>
    rw [db]
    subst made
    refine List.mem_filter.mpr ⟨hr, ?_⟩
    simpa [Revokes] using hrevokes
  | tokenMinted _ _ _ db | tokenCreated _ _ _ db =>
    rw [db]
    exact List.mem_append_left _ hr
  | kept _ db | clientCreated _ _ db | grantUpserted _ _ db | refreshCreated _ _ _ _ db
  | rotated _ _ _ _ _ db | passkeySaved _ _ db | counterUpdated _ db | passkeyDisabled _ db
  | accountsSet _ db =>
    rw [db]
    exact hr

/-- A call that revokes a row leaves none with its hash. -/
theorem row_gone (h : DbEffect P v call v') (hw : HashesDrawn v) (hr : r ∈ v.db.appPasswords)
    (hrevokes : Revokes v r call) : ∀ r' ∈ v'.db.appPasswords, r'.tokenHash ≠ r.tokenHash := by
  have hsame : ∀ r' ∈ v.db.appPasswords, r'.tokenHash = r.tokenHash → r' = r :=
    fun r' hr' => eq_of_key_eq hw.app hr' hr
  cases h with
  | clientDisabled made db | grantRevoked made db | familyRevoked made db | tokenRevoked made db =>
    rw [db]
    subst made
    simp only [Revokes] at hrevokes
    intro r' hr' heq
    obtain ⟨hmem, hp⟩ := List.mem_filter.mp hr'
    obtain rfl := hsame r' hmem heq
    simp at hp
    grind
  | tokenMinted made | tokenCreated made | clientCreated made | grantUpserted made
  | refreshCreated made | rotated made | passkeySaved made | counterUpdated made
  | passkeyDisabled made | accountsSet made =>
    subst made
    exact hrevokes.elim
  | kept quiet =>
    rw [hrevokes.wrote] at quiet
    cases quiet

/-- A call on the other tables leaves the accounts. -/
theorem accounts_kept {o : OidcOp} {res : o.Ret} (h : DbEffect P v ⟨o, res⟩ v')
    (htokens : OfTokens o) : v'.db.accounts = v.db.accounts := by
  cases h with
  | accountsSet made =>
    cases made
    cases htokens
  | kept _ db | clientCreated _ _ db | clientDisabled _ db | grantUpserted _ _ db
  | grantRevoked _ db | refreshCreated _ _ _ _ db | rotated _ _ _ _ _ db | familyRevoked _ db
  | tokenMinted _ _ _ db | tokenCreated _ _ _ db | tokenRevoked _ db | passkeySaved _ _ db
  | counterUpdated _ db | passkeyDisabled _ db =>
    rw [db]

/-- The hash of no new row was drawn before. -/
theorem row_old (h : DbEffect P v call v') {r' : AppPasswordsRow}
    (hr' : r' ∈ v'.db.appPasswords) (hdrawn : r'.tokenHash ∈ v.drawn) :
    r' ∈ v.db.appPasswords := by
  obtain ⟨p, added, hrows, hadded⟩ := h.appPasswords
  rw [hrows] at hr'
  rcases List.mem_append.mp hr' with hr' | hr'
  · exact (List.mem_filter.mp hr').1
  · exact absurd hdrawn (hadded.fresh.2 r' hr').1

end Rows

section Fates

variable {r : AppPasswordsRow} (hw : HashesDrawn w.oidc)

/-- A step that does not end a token leaves it alive. -/
theorem alive_next (h : Alive r w) (hends : ¬Ends S r w e) : Alive r (next S w e) := by
  obtain ⟨hr, a, ha, hid, henabled⟩ := h
  have heffect := tableEffect (S := S) w e
  rw [Alive, Enabled]
  generalize (next S w e).oidc = v at heffect
  cases heffect with
  | kept => exact ⟨hr, a, ha, hid, henabled⟩
  | called exec tokens =>
    have hdb := exec_db exec
    rw [accounts_kept hdb tokens]
    exact ⟨row_kept hdb hr fun hrevokes => hends ⟨_, _, exec, hrevokes⟩, a, ha, hid, henabled⟩
  | created new => exact ⟨hr, a, List.mem_append_left _ ha, hid, henabled⟩
  | @disabled id io done =>
    have hne : r.accountId ≠ id := fun heq => hends ⟨heq, done⟩
    refine ⟨hr, a, mem_update.mpr ⟨a, ha, if_neg ?_⟩, hid, henabled⟩
    simpa [hid] using hne

include hw in
/-- A step that ends a token makes it lost. -/
theorem lost_of_ends (h : Alive r w) (hends : Ends S r w e) : Lost r (next S w e) := by
  obtain ⟨hr, a, ha, hid, -⟩ := h
  have heffect := tableEffect (S := S) w e
  rw [Lost]
  generalize (next S w e).oidc = v at heffect
  cases heffect with
  | kept quiet => exact absurd hends (quiet r)
  | created => exact hends.elim
  | @called o c res v exec tokens =>
    obtain ⟨res', v', hexec, hrevokes⟩ := hends
    obtain ⟨rfl, rfl⟩ := Prod.mk.inj (Option.some.inj (exec.symm.trans hexec))
    have hdrawn := (exec_store exec).2 (hw.app_drawn r hr)
    exact .inl ⟨hdrawn, row_gone (exec_db exec) hw hr hrevokes⟩
  | @disabled id io done =>
    obtain ⟨rfl, -⟩ := hends
    refine .inr ⟨⟨_, mem_update.mpr ⟨a, ha, rfl⟩, by simp [hid]⟩, fun b hb hbid => ?_⟩
    rcases update_cases hb with ⟨b₀, -, -, rfl⟩ | ⟨-, hne⟩
    · simp
    · simp [hbid] at hne

/-- What is lost stays so. -/
theorem lost_next (h : Lost r w) : Lost r (next S w e) := by
  have heffect := tableEffect (S := S) w e
  rw [Lost]
  generalize (next S w e).oidc = v at heffect
  cases heffect with
  | kept => exact h
  | called exec tokens =>
    have hdb := exec_db exec
    rw [accounts_kept hdb tokens]
    refine h.imp_left fun ⟨hdrawn, hgone⟩ => ⟨(exec_store exec).2 hdrawn, fun r' hr' heq => ?_⟩
    exact hgone r' (row_old hdb hr' (heq ▸ hdrawn)) heq
  | created new =>
    refine h.imp_right fun ⟨⟨a, ha, hid⟩, hoff⟩ => ⟨⟨a, List.mem_append_left _ ha, hid⟩, ?_⟩
    intro b hb hbid
    rcases List.mem_append.mp hb with hb | hb
    · exact hoff b hb hbid
    · obtain rfl := List.mem_singleton.mp hb
      exact absurd (hid.trans hbid.symm) (new a ha)
  | @disabled id io done =>
    refine h.imp_right fun ⟨⟨a, ha, hid⟩, hoff⟩ => ⟨⟨_, mem_update.mpr ⟨a, ha, rfl⟩, ?_⟩, ?_⟩
    · split <;> exact hid
    · intro b hb hbid
      rcases update_cases hb with ⟨b₀, -, -, rfl⟩ | ⟨hb, -⟩
      · simp
      · exact hoff b hb hbid

/-- A good token is not lost. -/
theorem Good.not_lost {token : String} (h : Good S w token r.accountId)
    (hhash : r.tokenHash = S.oidc.blake3 token) : ¬Lost r w := by
  obtain ⟨r', hr', hhash', -⟩ := h.row
  obtain ⟨a, ha, hid, henabled⟩ := h.enabled
  rintro (⟨-, hgone⟩ | ⟨-, hoff⟩)
  · exact hgone r' hr' (hhash'.trans hhash.symm)
  · exact hoff a ha hid henabled

end Fates

/-! ## Connections -/

/-- The open connections after a step are some of those before it, for the same requests and
accounts. -/
structure Follows (w w' : World σ) : Prop where
  conns : ∀ k c', w'.conns k = some c' →
    ∃ c, w.conns k = some c ∧ c'.authorization = c.authorization ∧ c'.account = c.account
  used : w.used ⊆ w'.used

/-- A step that leaves the connections alone. -/
theorem Follows.of_eq (hconns : w'.conns = w.conns) (hused : w.used ⊆ w'.used) :
    Follows w w' :=
  ⟨fun _ c h => ⟨c, hconns ▸ h, rfl, rfl⟩, hused⟩

theorem Follows.refl (w : World σ) : Follows w w := .of_eq rfl (List.Subset.refl _)

theorem conns_set (w : World σ) (k j : ℕ) (c : Option Connection) :
    (w.set k c).conns j = if j = k then c else w.conns j :=
  Function.update_apply ..

/-- A connection is closed. -/
theorem follows_close (w : World σ) (k : ℕ) : Follows w (w.set k none) := by
  refine ⟨fun j c h => ?_, List.Subset.refl _⟩
  rw [conns_set] at h
  split at h
  · cases h
  · exact ⟨c, h, rfl, rfl⟩

/-- A connection goes on. -/
theorem follows_set {k : ℕ} {c c' : Connection} (hc : w.conns k = some c)
    (hauthorization : c'.authorization = c.authorization) (haccount : c'.account = c.account) :
    Follows w (w.set k (some c')) := by
  refine ⟨fun j d h => ?_, List.Subset.refl _⟩
  rw [conns_set] at h
  split at h
  · rename_i hj
    obtain rfl := Option.some.inj h
    exact ⟨c, hj ▸ hc, hauthorization, haccount⟩
  · exact ⟨d, h, rfl, rfl⟩

theorem follows_process {k : ℕ} {account : AccountsRow} {request : Jmap.Request}
    {requestId : Option Jmap.Value} {c : Option Connection} (h : Follows w (w.set k c)) :
    Follows w (process S w k account request requestId c).1 := by
  unfold process
  split
  · exact follows_close w k
  · exact ⟨h.conns, h.used⟩

theorem follows_api (k : ℕ) (account : AccountsRow) (body : String) :
    Follows w (api S w k account body).1 := by
  unfold api
  split
  · exact follows_close w k
  · split
    · exact follows_close w k
    · exact follows_process (follows_close w k)

/-- Whatever `authenticate_scoped` lets in has a row with the scope. -/
theorem authenticateScoped_ok {authorization : Option String} {io : Io} {account : AccountsRow}
    (h : authenticateScoped S w authorization scopeMail io = .ok account) :
    ∃ token r, bearerToken authorization = some token ∧
      w.oidc.db.bearer (S.oidc.blake3 token) w.oidc.unix (fun _ => true) = some (account, r) ∧
        (access r).allows scopeMail := by
  unfold authenticateScoped at h
  split at h
  · cases h
  · rename_i token htoken
    split at h
    · split at h
      · rename_i account' granted hcall
        split at h
        · rename_i hallows
          obtain rfl := Except.ok.inj h
          rcases transaction_cases (accountAndAccessByTokenTx io (S.oidc.blake3 token) w.oidc.unix)
            w.oidc.db with ⟨e, hfail⟩ | ⟨found, db, hok, hdone⟩
          · rw [hfail] at hcall
            cases hcall
          · rw [hdone] at hcall
            obtain rfl := Except.ok.inj hcall
            have hfound := (accountAndAccessByTokenTx_ok hok).1
            obtain ⟨⟨account'', r⟩, hbearer, heq⟩ := Option.map_eq_some_iff.mp hfound.symm
            obtain ⟨rfl, rfl⟩ := Prod.mk.inj heq
            exact ⟨token, r, htoken, hbearer, hallows⟩
        · cases h
      · cases h
      · cases h
    · cases h

/-- A step opens a connection, or goes on with those there are. -/
theorem conns_next (w : World σ) (e : Event) :
    Follows w (next S w e) ∨ ∃ k authorization account r, Opened S w e k authorization account r ∧
      (access r).allows scopeMail ∧ ∃ transport, next S w e =
        { w.set k (some ⟨transport, authorization, account, .accepted⟩) with
          used := k :: w.used } := by
  cases e with
  | connect k transport authorization io =>
    simp only [next, step]
    split
    · exact .inl (.refl w)
    · rename_i hunused
      split
      · exact .inl (.of_eq rfl (List.subset_cons_self _ _))
      · rename_i account hok
        obtain ⟨token, r, htoken, hbearer, hallows⟩ := authenticateScoped_ok hok
        exact .inr ⟨k, authorization, account, r,
          ⟨⟨transport, io, rfl, hok⟩, hunused, token, htoken, hbearer⟩, hallows, transport, rfl⟩
  | proceed k =>
    refine .inl ?_
    simp only [next, step]
    split
    · exact follows_api ..
    · rename_i hc
      exact follows_set hc rfl rfl
    · rename_i hc
      exact follows_set hc rfl rfl
    · exact .refl w
  | frame k text =>
    refine .inl ?_
    simp only [next, step]
    split
    · rename_i hc
      split
      · exact follows_process (follows_set hc rfl rfl)
      · exact follows_set hc rfl rfl
      · exact follows_set hc rfl rfl
      · exact .refl w
    · exact .refl w
  | receive k | lagged k missed =>
    refine .inl ?_
    simp only [next, step]
    split
    · rename_i hc
      exact follows_set hc rfl rfl
    · rename_i hc
      exact follows_set hc rfl rfl
    · exact .refl w
  | close k => exact .inl (follows_close w k)
  | publish event =>
    refine .inl ⟨fun k c' h => ?_, List.Subset.refl _⟩
    obtain ⟨c, hc, rfl⟩ := Option.map_eq_some_iff.mp h
    refine ⟨c, hc, ?_⟩
    unfold Connection.hear
    split <;> exact ⟨rfl, rfl⟩
  | table o c =>
    refine .inl ?_
    simp only [next, step]
    split
    · split <;> exact .of_eq rfl (List.Subset.refl _)
    · exact .refl w
  | createAccount row io | disableAccount id io | enableAccount id io =>
    exact .inl (.of_eq rfl (List.Subset.refl _))

/-! ## The opening of a connection -/

/-- The invariant of the runs. -/
structure Inv (w : World σ) : Prop where
  hashes : HashesDrawn w.oidc
  numbered : ∀ k c, w.conns k = some c → k ∈ w.used

theorem Inv.start (mail : σ) : Inv (World.start mail) where
  hashes := ⟨List.nodup_nil, fun _ h => (nomatch h), List.nodup_nil, fun _ h => (nomatch h)⟩
  numbered _ _ h := (nomatch h)

theorem Inv.next (w : World σ) (e : Event) (h : Inv w) : Inv (next S w e) := by
  refine ⟨((tableEffect w e).hashes h.hashes).1, fun k c hc => ?_⟩
  rcases conns_next (S := S) w e with hfollows | ⟨j, authorization, account, r, -, -, t, heq⟩
  · obtain ⟨c₀, hc₀, -⟩ := hfollows.conns k c hc
    exact hfollows.used (h.numbered k c₀ hc₀)
  · rw [heq] at hc ⊢
    rcases eq_or_ne k j with rfl | hne
    · exact List.mem_cons_self
    · refine List.mem_cons_of_mem _ (h.numbered k c ?_)
      rw [← hc]
      exact (Function.update_of_ne hne _ _).symm

theorem Inv.after (h : Inv w) (ops : List Event) : Inv (after S w ops) :=
  Runs.run_invariant Inv.next ops h

/-- The account the join finds is that of the row, and it is not disabled. -/
theorem bearer_account {db : OAuthDb} {hash : String} {now : ℤ} {p : AppPasswordsRow → Bool}
    {account : AccountsRow} {r : AppPasswordsRow} (h : db.bearer hash now p = some (account, r)) :
    account.id = r.accountId ∧
      ∃ a ∈ db.accounts, a.id = r.accountId ∧ a.disabledAt = none := by
  obtain ⟨r', -, hfound⟩ := List.exists_of_findSome?_eq_some h
  split at hfound
  · obtain ⟨a, hfind, heq⟩ := Option.map_eq_some_iff.mp hfound
    obtain ⟨rfl, rfl⟩ := Prod.mk.inj heq
    have hp := List.find?_some hfind
    obtain ⟨hid, henabled⟩ := of_decide_eq_true hp
    exact ⟨hid, a, List.mem_of_find?_eq_some hfind, hid, henabled⟩
  · cases hfound

section Opened

variable {k : ℕ} {authorization : Option String} {account : AccountsRow} {r : AppPasswordsRow}

/-- What an opened connection presented is the secret of its row. -/
theorem Opened.presented (h : Opened S w e k authorization account r) :
    ∃ token, bearerToken authorization = some token ∧ r.tokenHash = S.oidc.blake3 token := by
  obtain ⟨token, htoken, hbearer⟩ := h.token
  exact ⟨token, htoken, (OAuthDb.bearer_eq_some hbearer).2.1⟩

/-- The row of a connection that is opened is alive, and the account is its own. -/
theorem Opened.alive (h : Opened S w e k authorization account r) :
    account.id = r.accountId ∧ Alive r (Access.next S w e) := by
  obtain ⟨token, -, hbearer⟩ := h.token
  obtain ⟨hid, henabled⟩ := bearer_account hbearer
  refine ⟨hid, alive_next ⟨(OAuthDb.bearer_eq_some hbearer).1, henabled⟩ ?_⟩
  obtain ⟨transport, io, rfl, -⟩ := h.connect
  exact fun hends => hends

theorem Opened.next_eq (h : Opened S w e k authorization account r) : ∃ transport,
    Access.next S w e = { w.set k (some ⟨transport, authorization, account, .accepted⟩) with
      used := k :: w.used } := by
  obtain ⟨transport, io, rfl, hok⟩ := h.connect
  exact ⟨transport, by simp [Access.next, step, h.unused, hok]⟩

/-- After a connection was opened, its number has no other. -/
theorem Opened.later (h : Opened S w e k authorization account r) (mid : List Event)
    {c : Connection} (hc : (Access.after S w (e :: mid)).conns k = some c) :
    c.authorization = authorization ∧ c.account = account := by
  let I := fun w : World σ => k ∈ w.used ∧
    ∀ c, w.conns k = some c → c.authorization = authorization ∧ c.account = account
  have hstep : ∀ w x, I w → I (Access.next S w x) := by
    rintro w x ⟨hused, hsame⟩
    rcases conns_next (S := S) w x with hfollows | ⟨j, auth, acc, r', hopened, -, t, heq⟩
    · refine ⟨hfollows.used hused, fun c hc => ?_⟩
      obtain ⟨c₀, hc₀, hauth, hacc⟩ := hfollows.conns k c hc
      rw [hauth, hacc]
      exact hsame c₀ hc₀
    · have hne : k ≠ j := fun hkj => hopened.unused (hkj ▸ hused)
      rw [heq]
      refine ⟨List.mem_cons_of_mem _ hused, fun c hc => hsame c ?_⟩
      rw [← hc]
      exact (Function.update_of_ne hne _ _).symm
  have hopen : I (Access.next S w e) := by
    obtain ⟨t, heq⟩ := h.next_eq
    rw [heq]
    refine ⟨List.mem_cons_self, fun c hc => ?_⟩
    have hself := conns_set w k k (some ⟨t, authorization, account, .accepted⟩)
    rw [if_pos rfl] at hself
    obtain rfl := Option.some.inj (hc.symm.trans hself)
    exact ⟨rfl, rfl⟩
  exact (Runs.run_invariant hstep mid hopen).2 c hc

end Opened

/-- Every connection was opened. -/
theorem exists_opened {mail : σ} {ops : List Event} {k : ℕ} {c : Connection}
    (hc : (Access.after S (.start mail) ops).conns k = some c) :
    ∃ pre e mid r, ops = pre ++ e :: mid ∧
      Opened S (Access.after S (.start mail) pre) e k c.authorization c.account r ∧
        (access r).allows scopeMail := by
  induction ops using List.reverseRecOn generalizing c with
  | nil => cases hc
  | append_singleton ops x ih =>
    have hkeep : ∀ c₀, (Access.after S (.start mail) ops).conns k = some c₀ →
        c.authorization = c₀.authorization → c.account = c₀.account → ∃ pre e mid r,
          ops ++ [x] = pre ++ e :: mid ∧
            Opened S (Access.after S (.start mail) pre) e k c.authorization c.account r ∧
              (access r).allows scopeMail := by
      intro c₀ hc₀ hauth hacc
      obtain ⟨pre, e, mid, r, rfl, hopened, hallows⟩ := ih hc₀
      rw [← hauth, ← hacc] at hopened
      exact ⟨pre, e, mid ++ [x], r, by simp, hopened, hallows⟩
    rw [after_snoc] at hc
    rcases conns_next (S := S) (Access.after S (.start mail) ops) x with
      hfollows | ⟨j, auth, acc, r, hopened, hallows, t, heq⟩
    · obtain ⟨c₀, hc₀, hauth, hacc⟩ := hfollows.conns k c hc
      exact hkeep c₀ hc₀ hauth hacc
    · rw [heq] at hc
      by_cases hkj : k = j
      · subst hkj
        have hself := conns_set (Access.after S (.start mail) ops) k k
          (some ⟨t, auth, acc, .accepted⟩)
        rw [if_pos rfl] at hself
        obtain rfl := Option.some.inj (hc.symm.trans hself)
        exact ⟨ops, x, [], r, rfl, hopened, hallows⟩
      · refine hkeep c ?_ rfl rfl
        rw [← hc]
        exact (Function.update_of_ne hkj _ _).symm

/-! ## What a connection does -/

theorem account_process {k : ℕ} {account : AccountsRow} {request : Jmap.Request}
    {requestId : Option Jmap.Value} {c : Option Connection} {out : Output} {id : AccountId}
    (h : (process S w k account request requestId c).2 = some out) (hout : out.account = some id) :
    account.id = id := by
  unfold process at h
  split at h
  · obtain rfl := Option.some.inj h
    exact Option.some.inj hout
  · obtain rfl := Option.some.inj h
    exact Option.some.inj hout

theorem account_pushed {accountId id : AccountId} {enabled : Bool} {event : BusEvent}
    {out : Output} (h : pushed accountId enabled event = some out)
    (hout : out.account = some id) : accountId = id := by
  unfold pushed at h
  split at h
  · split at h
    · obtain rfl := Option.some.inj h
      exact Option.some.inj hout
    · cases h
  · cases h

/-- A refusal is about no account. -/
theorem account_refused {authorization : Option String} {scope : String} {io : Io} {out : Output}
    (h : authenticateScoped S w authorization scope io = .error out) : out.account = none := by
  unfold authenticateScoped at h
  split at h
  · exact Except.error.inj h ▸ rfl
  · split at h
    · split at h
      · split at h
        · cases h
        · exact Except.error.inj h ▸ rfl
      · exact Except.error.inj h ▸ rfl
      · exact Except.error.inj h ▸ rfl
    · exact Except.error.inj h ▸ rfl

/-- **What is processed or pushed** is for the account that the connection was opened for. -/
theorem acts_account {out : Output} {id : AccountId} (h : (step S w e).2 = some out)
    (hout : out.account = some id) :
    ∃ k c, e.connection = some k ∧ w.conns k = some c ∧ c.account.id = id := by
  cases e with
  | connect k transport authorization io =>
    simp only [step] at h
    split at h
    · cases h
    · split at h
      · rename_i hrefused
        obtain rfl := Option.some.inj h
        rw [account_refused hrefused] at hout
        cases hout
      · cases h
  | proceed k =>
    simp only [step] at h
    split at h
    · rename_i body authorization account hc
      refine ⟨k, _, rfl, hc, ?_⟩
      unfold api at h
      split at h
      · obtain rfl := Option.some.inj h
        cases hout
      · split at h
        · obtain rfl := Option.some.inj h
          cases hout
        · exact account_process h hout
    all_goals cases h
  | frame k text =>
    simp only [step] at h
    split at h
    · rename_i hc
      refine ⟨k, _, rfl, hc, ?_⟩
      split at h
      · exact account_process h hout
      · cases h
      · cases h
      · obtain rfl := Option.some.inj h
        cases hout
    · cases h
  | receive k =>
    simp only [step] at h
    split at h
    · rename_i hc
      exact ⟨k, _, rfl, hc, account_pushed h hout⟩
    · rename_i hc
      exact ⟨k, _, rfl, hc, account_pushed h hout⟩
    · cases h
  | lagged k missed =>
    simp only [step] at h
    split at h <;> cases h
  | table o c =>
    simp only [step] at h
    split at h
    · split at h <;> cases h
    · cases h
  | close k | publish event | createAccount row io | disableAccount id' io
  | enableAccount id' io => cases h

/-! ## The claim -/

/-- From the opening of a connection its row is alive as long as no step ends it, and after that
it is lost. -/
theorem opened_fate {mail : σ} {pre : List Event} {k : ℕ} {authorization : Option String}
    {account : AccountsRow} {r : AppPasswordsRow}
    (hopened : Opened S (after S (.start mail) pre) e k authorization account r)
    (mid : List Event) :
    let meets := Runs.Meets (next S) (fun w x => ¬Ends S r w x)
      (after S (.start mail) (pre ++ [e])) mid
    (meets ∧ Alive r (after S (.start mail) (pre ++ e :: mid))) ∨
      (¬meets ∧ Lost r (after S (.start mail) (pre ++ e :: mid))) := by
  have hrun : after S (.start mail) (pre ++ e :: mid) =
      Runs.run (next S) (after S (.start mail) (pre ++ [e])) mid := by
    rw [← after, ← after_append, List.append_assoc]
    rfl
  rw [hrun]
  refine Runs.run_fate (I := Inv) Inv.next (fun w x _ ha hends => alive_next ha hends)
    (fun w x hinv ha hends => lost_of_ends hinv.hashes ha (not_not.mp hends))
    (fun w x _ hl => lost_next hl) mid ((Inv.start mail).after _) ?_
  rw [after_snoc]
  exact hopened.alive.2

variable (S) in
/-- **Access ends with the token** exactly in the runs in which nothing ends a token between the
opening of a connection and what is done on it later. -/
theorem accessEnds_iff (mail : σ) (ops : List Event) :
    AccessEnds S mail ops ↔ Undisturbed S mail ops := by
  constructor
  · rintro h pre e mid e' post rfl k authorization account r id hopened ⟨hk, out, hout, hid⟩
    obtain ⟨j, c, token, hj, hc, htoken, hgood⟩ :=
      h (pre ++ e :: mid) e' post (by simp) out id hout hid
    obtain rfl : k = j := Option.some.inj (hk.symm.trans hj)
    -- the connection is the one that was opened, so the token is the secret of its row
    rw [after_append] at hc
    obtain ⟨rfl, rfl⟩ := hopened.later mid hc
    obtain ⟨token', htoken', hhash⟩ := hopened.presented
    obtain rfl := Option.some.inj (htoken.symm.trans htoken')
    obtain ⟨j, c', hj, hc', rfl⟩ := acts_account hout hid
    obtain rfl : k = j := Option.some.inj (hk.symm.trans hj)
    rw [after_append, hc] at hc'
    obtain rfl := Option.some.inj hc'
    rw [hopened.alive.1] at hgood
    rcases opened_fate hopened mid with ⟨hmeets, hr, -⟩ | ⟨-, hlost⟩
    · refine ⟨hmeets, ?_⟩
      obtain ⟨r', hr', hhash', -, htime, -⟩ := hgood.row
      have hinv := (Inv.start mail).after (S := S) (pre ++ e :: mid)
      obtain rfl := eq_of_key_eq hinv.hashes.app hr' hr (hhash'.trans hhash.symm)
      exact htime
    · exact absurd hlost (hgood.not_lost hhash)
  · rintro h pre e' post rfl out id hout hid
    obtain ⟨k, c, hk, hc, rfl⟩ := acts_account hout hid
    obtain ⟨pre, e, mid, r, rfl, hopened, hallows⟩ := exists_opened hc
    obtain ⟨hmeets, htime⟩ := h pre e mid e' post (by simp) k _ _ r c.account.id hopened
      ⟨hk, out, hout, hid⟩
    obtain ⟨token, htoken, hhash⟩ := hopened.presented
    rcases opened_fate hopened mid with ⟨-, hr, henabled⟩ | ⟨hends, -⟩
    · refine ⟨k, c, token, hk, hc, htoken, ⟨r, hr, hhash, ?_, htime, hallows⟩, ?_⟩
      · exact hopened.alive.1.symm
      · rw [hopened.alive.1]
        exact henabled
    · exact absurd hmeets hends

/-! ## A stream that outlives its token -/

/-- A server with no methods of its own. -/
def sampleEndpoint : Endpoint Unit where
  oidc := sampleOidc
  parse _ := none
  readRequest _ := none
  parseRequest _ := none
  maxSizeRequest := 10000000
  dispatcher := Jmap.Dispatcher.new "0"
  referenceError _ := ""

/-- Alice opens a stream, her token is revoked, and then mail arrives for her. -/
def revokedStream : List Event :=
  [.createAccount ⟨⟨1⟩, "alice@example.com", none, 0⟩ .ok, .table (.createToken ⟨1⟩ "phone") {},
    .connect 0 .eventSource (some ("Bearer " ++ secretText tokenPrefix 0)) .ok, .proceed 0,
    .table (.revokeByHash (secretText tokenPrefix 0)) {}, .publish (.stateChange ⟨1⟩ []),
    .receive 0]

/-- The change is pushed although the token is gone. -/
theorem not_accessEnds_revokedStream : ¬AccessEnds sampleEndpoint () revokedStream := by
  intro h
  obtain ⟨k, c, token, -, -, -, hgood⟩ :=
    h (revokedStream.dropLast) (.receive 0) [] rfl (.stateChange ⟨1⟩ []) ⟨1⟩ rfl rfl
  obtain ⟨r, hr, -⟩ := hgood.row
  have hnone : (after sampleEndpoint (.start ()) revokedStream.dropLast).oidc.db.appPasswords =
      [] := rfl
  rw [hnone] at hr
  cases hr

end Owney.Access
