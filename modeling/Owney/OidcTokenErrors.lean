import Owney.OidcRevoke

/-!
# Token requests that are refused

`issue_tokens` mints the access token first. It signs the ID token after that, and last of all it
rotates the refresh token or starts a family. Each of the three commits on its own, and the
answer to a failure of a later one is an error that leaves the access token behind.

* `TokenOutcome` — the calls of a token request, by its answer.
* `FailureLaw` — a request that is refused takes back what it added, and leaves the refresh
  token it presented usable.
* `failureLaw_iff` — a request meets the law exactly if none of its signatures fails, SQLite does
  not fail where it issues the refresh token, and the token to rotate is live (`MintsWhole`).
* `not_failureLaw_rotationLost` — an access token that was minted before the rotation was lost to
  another request.
-/

namespace Owney

open Programs Tables

variable {P : Oidc} {past pre mid post : List OidcEvent} {w w' : OidcWorld} {e e' : OidcEvent}

/-! ## The calls of a token request -/

/-- The call added a token. -/
def AddsToken : Call OidcOp.Ret → Prop
  | ⟨.createScopedToken .., .ok _⟩ | ⟨.createRefreshToken .., .ok _⟩ | ⟨.rotate .., .ok _⟩ => True
  | _ => False

/-- A call after the access token was minted, which failed. -/
def FailsMint : Call OidcOp.Ret → Prop
  | ⟨.sign _, none⟩ | ⟨.createRefreshToken .., .error _⟩ | ⟨.rotate .., .error _⟩ => True
  | _ => False

/-- The call added an access token. -/
def MintsAccess : Call OidcOp.Ret → Prop
  | ⟨.createScopedToken .., .ok _⟩ => True
  | _ => False

/-- A call that ends tokens. -/
def OidcOp.Ends : OidcOp → Prop
  | .revokeFamily _ | .revokeByHash _ => True
  | _ => False

/-- A call of `issue_tokens` that mints or signs, or that ends tokens. -/
def OidcOp.Issues : OidcOp → Prop
  | .createScopedToken .. | .createRefreshToken .. | .rotate .. | .sign _ => True
  | .revokeFamily _ | .revokeByHash _ => True
  | _ => False

/-- The calls of a token request, by its answer. -/
inductive TokenOutcome (cs : Calls) : Response → Prop where
  /-- refused before anything was minted -/
  | refused {answer : Response} (error : ∀ body, answer ≠ .tokens body)
      (idle : ∀ c ∈ cs, ¬AddsToken c ∧ ¬FailsMint c) : TokenOutcome cs answer
  /-- refused after the access token was minted, and nothing else -/
  | broken {answer : Response} (error : ∀ body, answer ≠ .tokens body)
      (minted : ∃ c ∈ cs, MintsAccess c) (failed : ∃ c ∈ cs, FailsMint c)
      (only : ∀ c ∈ cs, ¬c.op.Ends ∧ (AddsToken c → MintsAccess c)) : TokenOutcome cs answer
  /-- all was issued -/
  | issued {body : TokenBody} (whole : ∀ c ∈ cs, ¬FailsMint c) : TokenOutcome cs (.tokens body)

variable (P) in
/-- A token request revokes a family only after it found the presented token used. -/
def BeforeBurn (r : Request) (cs : Calls) (o : OidcOp) : Prop :=
  ∀ form familyId, r = .token form → o = .revokeFamily familyId → ∃ token row,
    form.refreshToken = some token ∧ Did cs (.refreshByHash (P.blake3 token)) (.ok (some row)) ∧
      row.usedAt.isSome

/-- What is said of the answer to a token request. -/
def TokenAnswered (r : Request) (cs : Calls) (answer : Response) : Prop :=
  ∀ form, r = .token form → TokenOutcome cs answer

theorem BeforeBurn.of_ne {r : Request} {cs : Calls} {o : OidcOp}
    (ho : ∀ familyId, o ≠ .revokeFamily familyId) : BeforeBurn P r cs o :=
  fun _ familyId _ h => absurd h (ho familyId)

section Walk

-- Otherwise the case splits below evaluate the text of an id.
attribute [local irreducible] hasPrefix Uuid.toString

variable {r : Request} {cs : Calls} {form : TokenForm} {client : OAuthClient}

/-- A call that neither mints nor ends a token. -/
def Idle (cs : Calls) : Prop := ∀ c ∈ cs, ¬c.op.Issues

theorem Idle.snoc {c : Call OidcOp.Ret} (h : Idle cs) (hc : ¬c.op.Issues) : Idle (cs ++ [c]) := by
  intro x hx
  rcases List.mem_append.mp hx with hx | hx
  · exact h x hx
  · obtain rfl := List.mem_singleton.mp hx
    exact hc

theorem AddsToken.issues {c : Call OidcOp.Ret} (h : AddsToken c) : c.op.Issues := by
  rcases c with ⟨o, res⟩
  cases o with
  | createScopedToken | createRefreshToken | rotate => trivial
  | _ => exact h.elim

theorem FailsMint.issues {c : Call OidcOp.Ret} (h : FailsMint c) : c.op.Issues := by
  rcases c with ⟨o, res⟩
  cases o with
  | createRefreshToken | rotate | sign => trivial
  | _ => exact h.elim

theorem OidcOp.Ends.issues {o : OidcOp} (h : o.Ends) : o.Issues := by
  cases o with
  | revokeFamily | revokeByHash => trivial
  | _ => exact h.elim

theorem Idle.refused {answer : Response} (h : Idle cs) (error : ∀ body, answer ≠ .tokens body) :
    TokenOutcome cs answer :=
  .refused error fun c hc => ⟨fun ha => h c hc ha.issues, fun hf => h c hc hf.issues⟩

/-- Of the calls after the mint: so far the access token alone was added, and nothing ended. -/
structure MintedOnly (cs : Calls) : Prop where
  minted : ∃ c ∈ cs, MintsAccess c
  only : ∀ c ∈ cs, ¬c.op.Ends ∧ (AddsToken c → MintsAccess c)
  whole : ∀ c ∈ cs, ¬FailsMint c

theorem MintedOnly.snoc {c : Call OidcOp.Ret} (h : MintedOnly cs) (hends : ¬c.op.Ends)
    (hadds : AddsToken c → MintsAccess c) (hfails : ¬FailsMint c) : MintedOnly (cs ++ [c]) := by
  obtain ⟨⟨m, hm, hmints⟩, honly, hwhole⟩ := h
  refine ⟨⟨m, List.mem_append_left _ hm, hmints⟩, fun x hx => ?_, fun x hx => ?_⟩
  · rcases List.mem_append.mp hx with hx | hx
    · exact honly x hx
    · obtain rfl := List.mem_singleton.mp hx
      exact ⟨hends, hadds⟩
  · rcases List.mem_append.mp hx with hx | hx
    · exact hwhole x hx
    · obtain rfl := List.mem_singleton.mp hx
      exact hfails

/-- A call that fails after the mint. -/
theorem MintedOnly.broken {c : Call OidcOp.Ret} {answer : Response} (h : MintedOnly cs)
    (hends : ¬c.op.Ends) (hadds : ¬AddsToken c) (hfails : FailsMint c)
    (error : ∀ body, answer ≠ .tokens body) : TokenOutcome (cs ++ [c]) answer := by
  obtain ⟨⟨m, hm, hmints⟩, honly, -⟩ := h
  refine .broken error ⟨m, List.mem_append_left _ hm, hmints⟩
    ⟨c, List.mem_append_right _ (List.mem_singleton_self _), hfails⟩ fun x hx => ?_
  rcases List.mem_append.mp hx with hx | hx
  · exact honly x hx
  · obtain rfl := List.mem_singleton.mp hx
    exact ⟨hends, fun ha => absurd ha hadds⟩

theorem issueIdToken_outcome {account : AccountsRow} {clientId : OAuthClientId}
    {scopes : List String} {nonce : Option String} (h : MintedOnly cs) :
    (issueIdToken P account clientId scopes nonce).Spec (BeforeBurn P r)
      (fun cs res => match res with
        | .ok _ => MintedOnly cs
        | .error answer => TokenOutcome cs answer) cs := by
  unfold issueIdToken
  split
  swap
  · exact h
  refine spec_ask.mpr ⟨.of_ne nofun, fun issued => ?_⟩
  have h := h.snoc (c := ⟨.timestamp, issued⟩) id False.elim id
  refine spec_ask.mpr ⟨.of_ne nofun, ?_⟩
  rintro (_ | idToken)
  · exact h.broken id id trivial fun _ hb => nomatch hb
  · exact h.snoc id False.elim id

/-- The last part: the refresh token, or the end of the old one. -/
theorem issueRefreshToken_outcome {accountId : AccountId} {clientId : OAuthClientId}
    {scopes : List String} {hash : String} {rotateFrom : Option String} (h : MintedOnly cs) :
    (issueRefreshToken P accountId clientId scopes hash rotateFrom).Spec (BeforeBurn P r)
      (fun cs res => match res with
        | .ok _ => ∀ c ∈ cs, ¬FailsMint c
        | .error answer => TokenOutcome cs answer) cs := by
  have hlast : ∀ {c : Call OidcOp.Ret} {cs : Calls}, (∀ c ∈ cs, ¬FailsMint c) → ¬FailsMint c →
      ∀ x ∈ cs ++ [c], ¬FailsMint x := by
    intro c cs hcs hc x hx
    rcases List.mem_append.mp hx with hx | hx
    · exact hcs x hx
    · obtain rfl := List.mem_singleton.mp hx
      exact hc
  unfold issueRefreshToken
  split
  · refine spec_ask.mpr ⟨.of_ne nofun, fun now => ?_⟩
    have h := h.snoc (c := ⟨.timestamp, now⟩) id False.elim id
    cases rotateFrom with
    | none =>
      refine spec_ask.mpr ⟨.of_ne nofun, ?_⟩
      rintro (e | token)
      · exact h.broken id id trivial fun _ hb => nomatch hb
      · exact hlast h.whole id
    | some oldHash =>
      refine spec_ask.mpr ⟨.of_ne nofun, ?_⟩
      rintro (e | token)
      · exact h.broken id id trivial fun _ hb => nomatch hb
      · exact hlast h.whole id
  · cases rotateFrom with
    | none => exact h.whole
    | some oldHash =>
      exact spec_ask.mpr ⟨.of_ne nofun, fun res => hlast h.whole id⟩

/-- **The calls of `issue_tokens`.** -/
theorem issueTokens_outcome {accountId : AccountId} {clientId : OAuthClientId}
    {scopes : List String} {nonce rotateFrom : Option String} (h : Idle cs) :
    (issueTokens P accountId clientId scopes nonce rotateFrom).Spec (BeforeBurn P r)
      (fun cs answer => TokenOutcome cs answer) cs := by
  unfold issueTokens
  refine spec_ask.mpr ⟨.of_ne nofun, ?_⟩
  rintro (e | _ | account)
  · exact (h.snoc id).refused fun _ hb => nomatch hb
  · exact (h.snoc id).refused fun _ hb => nomatch hb
  refine spec_ask.mpr ⟨.of_ne nofun, fun now => ?_⟩
  have h := (h.snoc (c := ⟨.account accountId, .ok (some account)⟩) id).snoc
    (c := ⟨.timestamp, now⟩) id
  refine spec_ask.mpr ⟨.of_ne nofun, ?_⟩
  rintro (e | ⟨token, hash⟩)
  · -- the mint itself failed
    refine .refused (fun _ hb => nomatch hb) fun c hc => ?_
    rcases List.mem_append.mp hc with hc | hc
    · exact ⟨fun ha => h c hc ha.issues, fun hf => h c hc hf.issues⟩
    · obtain rfl := List.mem_singleton.mp hc
      exact ⟨id, id⟩
  have hminted : MintedOnly (cs ++ [⟨.account accountId, .ok (some account)⟩] ++
      [⟨.timestamp, now⟩] ++ [⟨.createScopedToken accountId "oidc access" scopes
        (now + P.accessTokenTtlSecs) clientId, .ok (token, hash)⟩]) := by
    refine ⟨⟨_, List.mem_append_right _ (List.mem_singleton_self _), trivial⟩, ?_, ?_⟩ <;>
    · intro c hc
      rcases List.mem_append.mp hc with hc | hc
      · first
        | exact ⟨fun he => h c hc he.issues, fun ha => absurd ha.issues (h c hc)⟩
        | exact fun hf => h c hc hf.issues
      · obtain rfl := List.mem_singleton.mp hc
        first
        | exact ⟨id, fun _ => trivial⟩
        | exact id
  refine (issueIdToken_outcome hminted).seq ?_
  rintro more (answer | idToken) hid
  · exact hid
  refine (issueRefreshToken_outcome hid).seq ?_
  rintro more' (answer | refreshToken) hrefresh
  · exact hrefresh
  · exact .issued hrefresh

/-- A call of `authenticate_client` mints and ends nothing. -/
theorem authenticateClient_idle :
    (authenticateClient form).Spec (BeforeBurn P r) (fun cs res => Idle cs ∧ match res with
      | .ok _ => True
      | .error answer => ∀ body, answer ≠ .tokens body) [] := by
  have hcalls : (authenticateClient form).Spec (fun _ o => o.Authenticates) (fun _ _ => True) [] :=
    (authenticateClient_calls form).mono (fun _ _ h => h) fun _ _ _ => trivial
  have hanswered : (authenticateClient form).Spec (Before P (.token form)) _ [] :=
    authenticateClient_spec
  have hframe := hcalls.frame (fun c (hc : c ∈ []) => Or.inl hc)
  refine (hframe.and (hcalls.and hanswered)).mono ?_ ?_
  · rintro cs o ⟨-, ho, -⟩
    refine .of_ne ?_
    rintro familyId rfl
    exact ho
  · rintro cs res ⟨hframe, -, hres⟩
    have hidle : Idle cs := by
      intro c hc
      have hauth : c.op.Authenticates := (hframe c hc).resolve_left (by rintro ⟨⟩)
      rcases c with ⟨o, res⟩
      cases o with
      | oauthClient | verifySecret => exact id
      | _ => exact hauth.elim
    refine ⟨hidle, ?_⟩
    cases res with
    | ok client => trivial
    | error answer =>
      -- tokens are answered only after a mint
      rintro body rfl
      obtain ⟨_, _, _, _, _, _, -, -, ⟨_, _, hminted⟩, -⟩ := hres
      exact hidle _ hminted trivial

theorem takeCode_idle {code : String} (h : Idle cs) :
    (takeCode code).Spec (BeforeBurn P r) (fun cs _ => Idle cs) cs := by
  unfold takeCode
  split
  · refine spec_ask.mpr ⟨.of_ne nofun, ?_⟩
    rintro (e | data) <;> exact h.snoc id
  · exact h

theorem codeGrant_outcome (h : Idle cs) :
    (codeGrant P client form).Spec (BeforeBurn P r)
      (fun cs answer => TokenOutcome cs answer) cs := by
  have herror : ∀ {cs : Calls} {error : String}, Idle cs → TokenOutcome cs (.oauthError error) :=
    fun hcs => hcs.refused nofun
  unfold codeGrant
  split
  swap
  · exact herror h
  split
  swap
  · exact herror h
  refine (takeCode_idle h).seq ?_
  rintro more (_ | grant) htaken
  · exact herror htaken
  dsimp only
  split
  · exact herror htaken
  split
  · exact herror htaken
  split
  · exact herror htaken
  split
  · exact issueTokens_outcome htaken
  · exact htaken.refused nofun

theorem refreshTokenByPlaintext_idle {token : String} (h : Idle cs) :
    (refreshTokenByPlaintext P token).Spec (BeforeBurn P r) (fun cs found => Idle cs ∧
      ∀ row, found = .ok (some row) → Did cs (.refreshByHash (P.blake3 token)) (.ok (some row)))
      cs := by
  unfold refreshTokenByPlaintext
  split
  · refine ⟨.of_ne nofun, fun found => ⟨h.snoc id, ?_⟩⟩
    rintro row rfl
    exact did_last
  · exact ⟨h, nofun⟩

/-- A refresh: a family is revoked only if the token that was presented is used. -/
theorem refreshGrant_outcome (h : Idle cs) :
    (refreshGrant P client form).Spec (BeforeBurn P (.token form))
      (fun cs answer => TokenOutcome cs answer) cs := by
  have herror : ∀ {cs : Calls} {error : String}, Idle cs → TokenOutcome cs (.oauthError error) :=
    fun hcs => hcs.refused nofun
  unfold refreshGrant
  split
  swap
  · exact herror h
  rename_i token htoken
  refine (refreshTokenByPlaintext_idle h).seq ?_
  rintro more (e | _ | row) ⟨hidle, hfound⟩
  · exact hidle.refused nofun
  · exact herror hidle
  dsimp only
  split
  · exact herror hidle
  split
  · rename_i hused
    refine spec_ask.mpr ⟨?_, fun res => ?_⟩
    · rintro _ familyId ⟨⟩ -
      exact ⟨token, row, htoken, hfound row rfl, hused⟩
    · -- the end of a family is no mint
      refine .refused nofun fun c hc => ?_
      rcases List.mem_append.mp hc with hc | hc
      · exact ⟨fun ha => hidle c hc ha.issues, fun hf => hidle c hc hf.issues⟩
      · obtain rfl := List.mem_singleton.mp hc
        exact ⟨id, id⟩
  refine spec_ask.mpr ⟨.of_ne nofun, fun now => ?_⟩
  have hidle := hidle.snoc (c := ⟨.timestamp, now⟩) id
  split
  · exact herror hidle
  split
  · exact issueTokens_outcome hidle
  · exact herror hidle

/-- **A token request**, gone through once. -/
theorem token_outcome :
    (token P form).Spec (BeforeBurn P (.token form)) (TokenAnswered (.token form)) [] := by
  have hanswered : ∀ (cs : Calls) (answer : Response), TokenOutcome cs answer →
      TokenAnswered (.token form) cs answer := fun _ _ h _ _ => h
  refine Prog.Spec.mono (fun _ _ h => h) hanswered ?_
  unfold token
  refine authenticateClient_idle.seq ?_
  rintro more (answer | client) ⟨hidle, herror⟩
  · exact hidle.refused herror
  dsimp only
  split
  · exact codeGrant_outcome hidle
  split
  · exact refreshGrant_outcome hidle
  · exact hidle.refused nofun

/-- Of every handler: what a token request did. -/
theorem handle_outcome (r : Request) :
    (handle P r).Spec (BeforeBurn P r) (TokenAnswered r) [] := by
  cases r with
  | token form => exact token_outcome
  | _ =>
    refine (handle_spec (P := P) _).mono ?_ ?_
    · rintro cs o - form familyId ⟨⟩
    · rintro cs answer - form ⟨⟩

end Walk

/-! ## When the mint fails -/

/-- The call of a token request is not one that fails after the access token was minted: the
signature is made, SQLite works, and a token that is rotated is live. -/
def MintsWhole (e : OidcEvent) : Prop :=
  match e.call.op with
  | .sign _ => e.choice.ok = true
  | .createRefreshToken .. => e.choice.io 0 = true
  | .rotate oldHash .. => (e.choice.io 0 = true ∧ e.choice.io 1 = true ∧ e.choice.io 2 = true) ∧
      ∃ r ∈ e.before.db.refreshTokens, r.tokenHash = oldHash ∧ r.toRefresh.Live e.before.unix
  | _ => True

instance (e : OidcEvent) : Decidable (MintsWhole e) := by
  unfold MintsWhole
  generalize e.call.op = op
  cases_type OidcOp <;> infer_instance

/-- A call that mints succeeds exactly if its statements do. -/
theorem OidcWorld.mint_isOk {secretPrefix : String} {c : Choice} {body : String → Tx OAuthDb Unit}
    {res : Except StorageError (String × String)}
    (h : w.mint P secretPrefix c body = some (res, w')) :
    (∃ minted, res = .ok minted) ↔
      ∃ hash db, hash = P.blake3 (secretText secretPrefix c.secret) ∧
        body hash w.db = .ok (⟨⟩, db) := by
  obtain ⟨w₁, hdraw, hw⟩ := Option.map_eq_some_iff.mp h
  obtain ⟨-, rfl⟩ := draw_eq_some.mp hdraw
  obtain ⟨rfl, -⟩ := Prod.mk.inj hw
  rcases hbody : body (P.blake3 (secretText secretPrefix c.secret)) w.db with err | ⟨⟨⟩, db⟩
  · have hnone : (transaction (body (P.blake3 (secretText secretPrefix c.secret))) w.db).1 =
        .error err := by rw [transaction, hbody]
    simp [OidcWorld.call, hnone, Except.map, hbody]
  · have hsome := transaction_eq_ok.mpr hbody
    simp [OidcWorld.call, hsome, Except.map, hbody]

/-- `rotate_refresh_token` succeeds exactly if its statements do, and the token is live. -/
theorem rotateRefreshTokenTx_isOk {io : Io} {oldHash newHash : String} {access : Option String}
    {expiresAt now : ℤ} {db : OAuthDb} :
    (∃ db', rotateRefreshTokenTx io oldHash newHash access expiresAt now db = .ok (⟨⟩, db')) ↔
      (io 0 = true ∧ io 1 = true ∧ io 2 = true) ∧
        ∃ old, db.refreshTokens.find? (·.tokenHash = oldHash) = some old ∧
          old.toRefresh.Live now := by
  simp only [rotateRefreshTokenTx, Tx.bind_eq_ok, Tx.query_eq_ok, Tx.okOr_eq_ok, Tx.require_eq_ok,
    Tx.exec_eq_ok]
  constructor
  · rintro ⟨_, _, _, ⟨hio₀, rfl, rfl⟩, _, _, ⟨hold, rfl⟩, _, _, ⟨hlive, rfl⟩, _, _, ⟨hio₁, rfl⟩,
      hio₂, -⟩
    obtain ⟨old, hfind, rfl⟩ := Option.map_eq_some_iff.mp hold
    exact ⟨⟨hio₀, hio₁, hio₂⟩, old, hfind, hlive⟩
  · rintro ⟨⟨hio₀, hio₁, hio₂⟩, old, hfind, hlive⟩
    refine ⟨_, _, _, ⟨hio₀, rfl, rfl⟩, _, _, ⟨?_, rfl⟩, ⟨⟩, _, ⟨hlive, rfl⟩, ⟨⟩, _, ⟨hio₁, rfl⟩,
      hio₂, rfl⟩
    rw [hfind, Option.map_some]

/-- **A call fails after the mint** exactly if a signature, SQLite or the token to rotate
fails it. -/
theorem failsMint_iff (hat : OidcAt P past e) : FailsMint e.call ↔ ¬MintsWhole e := by
  obtain ⟨thread, req, ⟨o, res⟩, c, w, w'⟩ := e
  have hexec : o.exec P c w = some (res, w') := hat.possible
  cases o with
  | sign claims =>
    obtain ⟨rfl, -⟩ := Prod.mk.inj (Option.some.inj hexec)
    change FailsMint ⟨.sign claims, if c.ok then some (P.sign claims) else none⟩ ↔ ¬c.ok = true
    split
    · rename_i hok
      simp [FailsMint, hok]
    · rename_i hok
      simp [FailsMint, hok]
  | createRefreshToken accountId clientId scopes access expiresAt =>
    obtain ⟨⟨res₁, w₁⟩, hbind, hw⟩ := Option.map_eq_some_iff.mp hexec
    obtain ⟨w₂, hdraw, hmint⟩ := Option.bind_eq_some_iff.mp hbind
    obtain ⟨-, rfl⟩ := OidcWorld.draw_eq_some.mp hdraw
    have hiff := OidcWorld.mint_isOk hmint
    simp only [createRefreshTokenTx, Tx.exec_eq_ok] at hiff
    obtain ⟨rfl, -⟩ := Prod.mk.inj hw
    change FailsMint ⟨.createRefreshToken accountId clientId scopes access expiresAt, _⟩ ↔
      ¬c.io 0 = true
    rcases res₁ with err | minted
    · simp_all [FailsMint, Except.map]
    · simp_all [FailsMint, Except.map]
  | rotate oldHash access expiresAt =>
    obtain ⟨⟨res₁, w₁⟩, hmint, hw⟩ := Option.map_eq_some_iff.mp hexec
    have hiff := OidcWorld.mint_isOk hmint
    obtain ⟨rfl, -⟩ := Prod.mk.inj hw
    have hfound : (∃ r ∈ w.db.refreshTokens, r.tokenHash = oldHash ∧ r.toRefresh.Live w.unix) ↔
        ∃ old, w.db.refreshTokens.find? (·.tokenHash = oldHash) = some old ∧
          old.toRefresh.Live w.unix := by
      constructor
      · rintro ⟨r, hr, hhash, hlive⟩
        obtain ⟨old, hfind⟩ : ∃ old, w.db.refreshTokens.find? (·.tokenHash = oldHash) = some old :=
          Option.isSome_iff_exists.mp (List.find?_isSome.mpr ⟨r, hr, by simpa using hhash⟩)
        have hold : old.tokenHash = oldHash := by simpa using List.find?_some hfind
        obtain rfl := refresh_eq_of_hash hat.earlier hr (List.mem_of_find?_eq_some hfind)
          (hhash.trans hold.symm)
        exact ⟨r, hfind, hlive⟩
      · rintro ⟨old, hfind, hlive⟩
        exact ⟨old, List.mem_of_find?_eq_some hfind, by simpa using List.find?_some hfind, hlive⟩
    have hbody : (∃ minted, res₁ = .ok minted) ↔
        (c.io 0 = true ∧ c.io 1 = true ∧ c.io 2 = true) ∧
          ∃ r ∈ w.db.refreshTokens, r.tokenHash = oldHash ∧ r.toRefresh.Live w.unix := by
      rw [hfound, hiff]
      constructor
      · rintro ⟨hash, db, -, hok⟩
        exact rotateRefreshTokenTx_isOk.mp ⟨db, hok⟩
      · intro h
        obtain ⟨db, hok⟩ := rotateRefreshTokenTx_isOk.mpr h
        exact ⟨_, db, rfl, hok⟩
    change FailsMint ⟨.rotate oldHash access expiresAt, _⟩ ↔ ¬((_ ∧ _ ∧ _) ∧ ∃ r, _)
    rw [← hbody]
    rcases res₁ with err | minted
    · simp [FailsMint, Except.map]
    · simp [FailsMint, Except.map]
  | _ => simp [FailsMint, MintsWhole]

/-! ## The law -/

variable (P) in
/-- A request that is refused grants nothing: a token that one of its calls added, a later one
took back. And it leaves the refresh token it presented as it was, unless that had been used or
revoked. -/
structure FailureLaw (s : Provider) (i : ℕ) (form : TokenForm) : Prop where
  bearer : ∀ {pre e post r}, s.past = pre ++ e :: post → e.thread = i →
    r ∈ e.after.db.appPasswords → r ∉ e.before.db.appPasswords →
    ∃ x ∈ post, x.thread = i ∧ r ∈ x.before.db.appPasswords ∧ r ∉ x.after.db.appPasswords
  refresh : ∀ {pre e post r}, s.past = pre ++ e :: post → e.thread = i →
    r ∈ e.after.db.refreshTokens →
    (∀ r₀ ∈ e.before.db.refreshTokens, r₀.tokenHash ≠ r.tokenHash) →
    ∃ x ∈ post, x.thread = i ∧
      ∀ r₁ ∈ x.after.db.refreshTokens, r₁.tokenHash = r.tokenHash → r₁.revokedAt.isSome
  usable : ∀ {e token r}, e ∈ s.past → e.thread = i → form.refreshToken = some token →
    r ∈ e.before.db.refreshTokens → r.tokenHash = P.blake3 token → r.usedAt = none →
    r.revokedAt = none → r ∈ e.after.db.refreshTokens

section Calls

variable {form : TokenForm}

/-- A call of a token request that adds no token, adds no row to the bearer tokens. -/
theorem bearer_old (hat : OidcAt P past e) (hreq : e.req = .token form)
    (hadds : ¬AddsToken e.call) {r : AppPasswordsRow} (hr : r ∈ e.after.db.appPasswords) :
    r ∈ e.before.db.appPasswords := by
  have hguard := hat.guard
  obtain ⟨p, added, hrows, hadded⟩ := (at_db hat).appPasswords
  rw [hrows] at hr
  rcases List.mem_append.mp hr with hr | hr
  · exact (List.mem_filter.mp hr).1
  · cases hadded with
    | none => cases hr
    | minted made =>
      rw [made] at hadds
      exact absurd trivial hadds
    | created made =>
      rw [made, hreq] at hguard
      cases hguard

/-- Nor to the refresh tokens. -/
theorem refresh_old (hat : OidcAt P past e) (hadds : ¬AddsToken e.call) {r : RefreshTokensRow}
    (hr : r ∈ e.after.db.refreshTokens) :
    ∃ r₀ ∈ e.before.db.refreshTokens, r₀.tokenHash = r.tokenHash := by
  obtain ⟨f, added, hrows, hf, hadded⟩ := (at_db hat).refreshTokens
  rw [hrows] at hr
  rcases List.mem_append.mp hr with hr | hr
  · obtain ⟨r₀, hr₀, rfl⟩ := List.mem_map.mp hr
    exact ⟨r₀, hr₀, (hf r₀).tokenHash.symm⟩
  · cases hadded with
    | none => cases hr
    | first made | successor made =>
      rw [made] at hadds
      exact absurd trivial hadds

/-- A bearer token that a call of a token request removes, it ended. -/
theorem ends_of_removed (hat : OidcAt P past e) (hreq : e.req = .token form)
    {r : AppPasswordsRow} (hbefore : r ∈ e.before.db.appPasswords)
    (hafter : r ∉ e.after.db.appPasswords) : e.call.op.Ends := by
  have hguard := hat.guard
  have heffect := at_db hat
  rw [hreq] at hguard
  cases heffect with
  | familyRevoked made | tokenRevoked made =>
    rw [made]
    trivial
  | clientDisabled made | grantRevoked made =>
    rw [made] at hguard
    cases hguard
  | tokenMinted made _ _ db | tokenCreated made _ _ db =>
    rw [db] at hafter
    exact absurd (List.mem_append_left _ hbefore) hafter
  | kept _ db | clientCreated _ _ db | grantUpserted _ _ db | refreshCreated _ _ _ _ db
  | rotated _ _ _ _ _ db | passkeySaved _ _ db | counterUpdated _ db | passkeyDisabled _ db
  | accountsSet _ db =>
    rw [db] at hafter
    exact absurd hbefore hafter

/-- A call that mints an access token adds a row. -/
theorem bearer_of_mint (hat : OidcAt P past e) (hmints : MintsAccess e.call) :
    ∃ r ∈ e.after.db.appPasswords, r ∉ e.before.db.appPasswords := by
  have heffect := at_db hat
  cases heffect with
  | tokenMinted made fresh _ db =>
    rw [db]
    refine ⟨_, List.mem_append_right _ (List.mem_singleton_self _), fun hr => ?_⟩
    exact fresh ((hashesDrawn hat.earlier).app_drawn _ hr)
  | kept quiet =>
    rcases hcall : e.call with ⟨o, res⟩
    rw [hcall] at hmints quiet
    cases o with
    | createScopedToken =>
      rcases res with err | minted
      · exact hmints.elim
      · cases quiet
    | _ => exact hmints.elim
  | clientCreated made | clientDisabled made | grantUpserted made | grantRevoked made
  | refreshCreated made | rotated made | familyRevoked made | tokenCreated made
  | tokenRevoked made | passkeySaved made | counterUpdated made | passkeyDisabled made
  | accountsSet made =>
    rw [made] at hmints
    exact hmints.elim

/-- **The presented token** is left as it was by a call that does not add a token, unless it
was used or revoked before. -/
theorem presented_kept (hat : OidcAt P past e)
    (hburn : BeforeBurn P e.req (callsOf e.thread past) e.call.op) (hreq : e.req = .token form)
    (hadds : AddsToken e.call → MintsAccess e.call) {token : String}
    (hpresented : form.refreshToken = some token) {r : RefreshTokensRow}
    (hr : r ∈ e.before.db.refreshTokens) (hhash : r.tokenHash = P.blake3 token)
    (hunused : r.usedAt = none) : r ∈ e.after.db.refreshTokens := by
  have hguard := hat.guard
  have heffect := at_db hat
  rw [hreq] at hguard
  cases heffect with
  | familyRevoked made =>
    -- the token was found used, and a used token stays used
    rw [made] at hburn
    obtain ⟨token', row, hpresented', hfound, hused⟩ := hburn form _ hreq rfl
    obtain rfl := Option.some.inj (hpresented.symm.trans hpresented')
    obtain ⟨r₁, r₂, hr₂, hhash₁, rfl, hlater⟩ := row_later_of_refreshByHash hat.earlier hfound
    obtain rfl := refresh_eq_of_hash hat.earlier hr hr₂
      (hhash.trans (hhash₁.symm.trans hlater.tokenHash.symm))
    have hused' := hlater.used hused
    rw [hunused] at hused'
    cases hused'
  | clientDisabled made | grantRevoked made =>
    rw [made] at hguard
    cases hguard
  | refreshCreated made | rotated made =>
    rw [made] at hadds
    exact (hadds trivial).elim
  | kept _ db | clientCreated _ _ db | grantUpserted _ _ db | tokenMinted _ _ _ db
  | tokenCreated _ _ _ db | tokenRevoked _ db | passkeySaved _ _ db | counterUpdated _ db
  | passkeyDisabled _ db | accountsSet _ db =>
    rw [db]
    exact hr

end Calls

/-- **The token requests that are refused** grant nothing exactly when nothing fails after the
access token is minted. -/
theorem failureLaw_iff (P : Oidc) (ms : List ProviderMove) {i : ℕ} {form : TokenForm}
    {answer : Response} (hreq : (Provider.run P Provider.empty ms).request i = some (.token form))
    (hanswer : (Provider.run P Provider.empty ms).answer i = some answer) :
    ((∀ body, answer ≠ .tokens body) →
      FailureLaw P (Provider.run P Provider.empty ms) i form) ↔
    ∀ e ∈ (Provider.run P Provider.empty ms).past, e.thread = i → MintsWhole e := by
  have hs := Provider.run_specified (P := P) ms
  have houtcomes : (Provider.run P Provider.empty ms).Specified (OidcOp.exec P) (BeforeBurn P)
      TokenAnswered OidcWorld.empty :=
    Programs.run_specified (handle_outcome (P := P)) ms specified_init
  obtain ⟨r, hr, hanswered⟩ := houtcomes.answered hanswer
  obtain rfl : .token form = r := Option.some.inj (hreq.symm.trans hr)
  have houtcome := hanswered form rfl
  have hwhole : (∀ c ∈ callsOf i (Provider.run P Provider.empty ms).past, ¬FailsMint c) →
      ∀ e ∈ (Provider.run P Provider.empty ms).past, e.thread = i → MintsWhole e := by
    intro hno e he hthread
    obtain ⟨pre, post, -, hat⟩ := hs.past.exists_at he
    by_contra hbad
    exact hno e.call (mem_callsOf.mpr ⟨e, he, hthread, rfl⟩) ((failsMint_iff hat).mpr hbad)
  -- every call of the request, where it stands
  have hcalls : ∀ {e}, e ∈ (Provider.run P Provider.empty ms).past → e.thread = i →
      e.req = .token form ∧ e.call ∈ callsOf i (Provider.run P Provider.empty ms).past ∧
        ∃ pre, OidcAt P pre e ∧ BeforeBurn P e.req (callsOf e.thread pre) e.call.op := by
    intro e he hthread
    obtain ⟨pre, post, hsplit, hat⟩ := hs.past.exists_at he
    exact ⟨req_of_thread hs hreq he hthread, mem_callsOf.mpr ⟨e, he, hthread, rfl⟩, pre, hat,
      (houtcomes.past.at_of_split hsplit).guard⟩
  constructor
  · intro hlaw
    cases houtcome with
    | refused error idle => exact hwhole fun c hc => (idle c hc).2
    | issued whole => exact hwhole whole
    | broken error minted failed only =>
      -- the access token stays
      exfalso
      obtain ⟨c, hc, hmints⟩ := minted
      obtain ⟨e, he, hthread, rfl⟩ := mem_callsOf.mp hc
      obtain ⟨pre, post, hsplit, hat⟩ := hs.past.exists_at he
      obtain ⟨row, hafter, hbefore⟩ := bearer_of_mint hat hmints
      obtain ⟨x, hx, hxthread, hxbefore, hxafter⟩ :=
        (hlaw error).bearer hsplit hthread hafter hbefore
      have hxpast : x ∈ (Provider.run P Provider.empty ms).past := by
        rw [hsplit]
        exact List.mem_append_right _ (List.mem_cons_of_mem _ hx)
      obtain ⟨hxreq, hxcall, pre', hxat, -⟩ := hcalls hxpast hxthread
      exact (only x.call hxcall).1 (ends_of_removed hxat hxreq hxbefore hxafter)
  · intro hall error
    have hnone : ∀ c ∈ callsOf i (Provider.run P Provider.empty ms).past, ¬AddsToken c := by
      cases houtcome with
      | refused _ idle => exact fun c hc => (idle c hc).1
      | issued whole => exact absurd rfl (error _)
      | broken _ minted failed only =>
        obtain ⟨c, hc, hfails⟩ := failed
        obtain ⟨e, he, hthread, rfl⟩ := mem_callsOf.mp hc
        obtain ⟨-, -, pre, hat, -⟩ := hcalls he hthread
        exact absurd (hall e he hthread) ((failsMint_iff hat).mp hfails)
    refine ⟨?_, ?_, ?_⟩
    · intro pre e post row hsplit hthread hafter hbefore
      have he : e ∈ (Provider.run P Provider.empty ms).past := by simp [hsplit]
      obtain ⟨hereq, hecall, _, hat, -⟩ := hcalls he hthread
      exact absurd (bearer_old hat hereq (hnone _ hecall) hafter) hbefore
    · intro pre e post row hsplit hthread hafter hbefore
      have he : e ∈ (Provider.run P Provider.empty ms).past := by simp [hsplit]
      obtain ⟨hereq, hecall, _, hat, -⟩ := hcalls he hthread
      obtain ⟨r₀, hr₀, hhash⟩ := refresh_old hat (hnone _ hecall) hafter
      exact absurd hhash (hbefore r₀ hr₀)
    · rintro e token row he hthread hpresented hrow hhash hunused -
      obtain ⟨hereq, hecall, _, hat, hburn⟩ := hcalls he hthread
      exact presented_kept hat hburn hereq (fun ha => absurd ha (hnone _ hecall)) hpresented hrow
        hhash hunused

/-! ### A rotation that is lost -/

/-- The code is exchanged, and then presented once more. -/
def codePresentedTwice : List ProviderMove :=
  codeExchange ++ serve 10 (.token codeForm) (plain 3)

theorem failureLaw_codePresentedTwice :
    FailureLaw sampleOidc (Provider.run sampleOidc Provider.empty codePresentedTwice) 10
      codeForm := by
  have hrun : (Provider.run sampleOidc Provider.empty codePresentedTwice).request 10 =
        some (.token codeForm) ∧
      (Provider.run sampleOidc Provider.empty codePresentedTwice).answer 10 =
        some (.oauthError "invalid_grant") ∧
      ∀ e ∈ (Provider.run sampleOidc Provider.empty codePresentedTwice).past,
        e.thread = 10 → MintsWhole e := by decide +kernel
  obtain ⟨hreq, hanswer, hwhole⟩ := hrun
  exact (failureLaw_iff sampleOidc codePresentedTwice hreq hanswer).mpr hwhole nofun

/-- Two requests present a refresh token at once, and the second rotates it while the first signs
its ID token. -/
def rotationLost : List ProviderMove :=
  codeExchange ++
  serve 10 (.token (refreshForm none)) (plain 5 ++ [{ secret := 5 }] ++ plain 3) ++
  serve 11 (.token (refreshForm none))
    (plain 5 ++ [{ secret := 7 }] ++ plain 3 ++ [{ secret := 8 }]) ++
  [.call 10 { secret := 6 }]

/-- **The access token stays**, though the answer is an error and names no token. -/
theorem not_failureLaw_rotationLost :
    (Provider.run sampleOidc Provider.empty rotationLost).request 10 =
      some (.token (refreshForm none)) ∧
    (Provider.run sampleOidc Provider.empty rotationLost).answer 10 = some (.status 500) ∧
    ((Provider.run sampleOidc Provider.empty rotationLost).world.db.bearer
      (secretText tokenPrefix 5) 0 fun _ => true).isSome ∧
    ¬FailureLaw sampleOidc (Provider.run sampleOidc Provider.empty rotationLost) 10
      (refreshForm none) := by
  have hrun : ((Provider.run sampleOidc Provider.empty rotationLost).request 10 =
        some (.token (refreshForm none)) ∧
      (Provider.run sampleOidc Provider.empty rotationLost).answer 10 = some (.status 500) ∧
      ((Provider.run sampleOidc Provider.empty rotationLost).world.db.bearer
        (secretText tokenPrefix 5) 0 fun _ => true).isSome) ∧
      ∃ e ∈ (Provider.run sampleOidc Provider.empty rotationLost).past, e.thread = 10 ∧
        ∃ r ∈ e.after.db.appPasswords, r ∉ e.before.db.appPasswords ∧
          ∀ x ∈ (Provider.run sampleOidc Provider.empty rotationLost).past,
            r ∈ x.before.db.appPasswords → r ∈ x.after.db.appPasswords := by decide +kernel
  obtain ⟨⟨hreq, hanswer, haccepted⟩, e, he, hthread, r, hafter, hbefore, hkept⟩ := hrun
  refine ⟨hreq, hanswer, haccepted, fun hlaw => ?_⟩
  obtain ⟨pre, post, hsplit⟩ := List.append_of_mem he
  obtain ⟨x, hx, -, hxbefore, hxafter⟩ := hlaw.bearer hsplit hthread hafter hbefore
  have hxpast : x ∈ (Provider.run sampleOidc Provider.empty rotationLost).past := by
    rw [hsplit]
    exact List.mem_append_right _ (List.mem_cons_of_mem _ hx)
  exact hxafter (hkept x hxpast hxbefore)

end Owney
