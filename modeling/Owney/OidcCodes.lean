import Owney.OidcEffects

/-!
# Authorization codes

A code is a key of the challenge store that was drawn for it. `ParkedBy` says that what is
in the store was put there by the one call that drew its key, and `Consumed` that what was
taken out does not come back. A code is therefore redeemed once, in time, and for what it
was minted for.
-/

namespace Owney

open Programs ChallengeStore

variable {P : Oidc} {past pre mid post : List OidcEvent} {w : OidcWorld} {e e' : OidcEvent}

/-! ## What is parked, and by whom -/

/-- The call parks the entry at this time. -/
def Parks (call : Call OidcOp.Ret) (now : ℤ) (entry : ChallengeEntry Parked) : Prop :=
  (∃ data ttl, call = ⟨.storeWithTtl data ttl, entry.key⟩ ∧ entry = ⟨entry.key, data, now + ttl⟩) ∨
  ∃ grant secret, call = ⟨.mintCode grant, entry.key⟩ ∧ entry.key = secretText codePrefix secret ∧
    entry = ⟨entry.key, .codeGrant grant, now + codeTtl⟩

/-- An entry was parked by a call of the past. -/
def ParkedBy (past : List OidcEvent) (entry : ChallengeEntry Parked) : Prop :=
  ∃ e ∈ past, Parks e.call e.before.now entry

/-- The entries after a call. -/
theorem StoreEffect.entries {w w' : OidcWorld} {call : Call OidcOp.Ret}
    (h : StoreEffect w call w') {entry : ChallengeEntry Parked} (he : entry ∈ w'.challenges) :
    entry ∈ w.challenges ∨
      (Parks call w.now entry ∧ entry.key ∉ w.drawn ∧ entry.key ∈ w'.drawn) := by
  cases h with
  | kept challenges | ticked _ challenges => exact .inl (challenges ▸ he)
  | stored made fresh drawn challenges =>
    rw [challenges] at he
    rcases mem_storeKeyed.mp he with ⟨hold, -⟩ | rfl
    · exact .inl hold
    · exact .inr ⟨.inl ⟨_, _, made, rfl⟩, fresh, drawn⟩
  | minted made fresh drawn challenges =>
    rw [challenges] at he
    rcases mem_storeKeyed.mp he with ⟨hold, -⟩ | rfl
    · exact .inl hold
    · exact .inr ⟨.inr ⟨_, _, made, rfl, rfl⟩, fresh, drawn⟩
  | peeked _ challenges => exact .inl (mem_of_mem_peek (challenges ▸ he))
  | retrieved _ challenges => exact .inl (mem_retrieveChallenge.mp (challenges ▸ he)).1
  | cleaned challenges => exact .inl (mem_cleanupExpired.mp (challenges ▸ he)).1

theorem drawn_subset (h : OidcPast P past w) (hsplit : past = pre ++ e :: post) :
    e.after.drawn ⊆ w.drawn :=
  h.rel (ρ := fun a b => a.drawn ⊆ b.drawn) (fun _ => List.Subset.refl _) List.Subset.trans hsplit
    fun _ _ _ _ hat => at_drawn hat

/-- **Everything in the store was parked**, and its key was drawn. -/
theorem parked (h : OidcPast P past w) :
    ∀ entry ∈ w.challenges, ParkedBy past entry ∧ entry.key ∈ w.drawn := by
  induction h with
  | nil =>
    intro entry hentry
    cases hentry
  | @snoc past e earlier possible guard same ih =>
    intro entry hentry
    obtain ⟨hstore, hdrawn⟩ := exec_store possible
    rcases hstore.entries hentry with hold | ⟨hparks, -, hkey⟩
    · obtain ⟨⟨e', he', hparks⟩, hkey⟩ := ih entry hold
      exact ⟨⟨e', List.mem_append_left _ he', hparks⟩, hdrawn hkey⟩
    · exact ⟨⟨e, List.mem_append_right _ (by simp), hparks⟩, hkey⟩

/-- What `peek` and `retrieve_challenge` return is in the store, and in time. -/
theorem entry_of_peek {id : String} {data : Parked} (hat : OidcAt P pre e)
    (hcall : e.call = ⟨.peek id, some data⟩) :
    ∃ entry ∈ e.before.challenges, entry.key = id ∧ entry.data = data ∧
      e.before.now ≤ entry.expiresAt := by
  have hexec := hat.possible
  rw [hcall] at hexec
  exact peek_eq_some (Prod.mk.inj (Option.some.inj hexec)).1

theorem entry_of_retrieve {id : String} {data : Parked} (hat : OidcAt P pre e)
    (hcall : e.call = ⟨.retrieve id, .ok data⟩) :
    ∃ entry ∈ e.before.challenges, entry.key = id ∧ entry.data = data ∧
      e.before.now ≤ entry.expiresAt := by
  have hexec := hat.possible
  rw [hcall] at hexec
  exact retrieveChallenge_eq_ok (Prod.mk.inj (Option.some.inj hexec)).1

/-- It was parked. -/
theorem parked_of_peek {id : String} {data : Parked} (h : OidcPast P past w) (he : e ∈ past)
    (hcall : e.call = ⟨.peek id, some data⟩) :
    ∃ pre post entry, past = pre ++ e :: post ∧ ParkedBy pre entry ∧ entry.key = id ∧
      entry.data = data ∧ e.before.now ≤ entry.expiresAt := by
  obtain ⟨pre, post, hsplit, hat⟩ := h.exists_at he
  obtain ⟨entry, hentry, hrest⟩ := entry_of_peek hat hcall
  exact ⟨pre, post, entry, hsplit, (parked hat.earlier entry hentry).1, hrest⟩

theorem parked_of_retrieve {id : String} {data : Parked} (h : OidcPast P past w) (he : e ∈ past)
    (hcall : e.call = ⟨.retrieve id, .ok data⟩) :
    ∃ pre post entry, past = pre ++ e :: post ∧ ParkedBy pre entry ∧ entry.key = id ∧
      entry.data = data ∧ e.before.now ≤ entry.expiresAt := by
  obtain ⟨pre, post, hsplit, hat⟩ := h.exists_at he
  obtain ⟨entry, hentry, hrest⟩ := entry_of_retrieve hat hcall
  exact ⟨pre, post, entry, hsplit, (parked hat.earlier entry hentry).1, hrest⟩

/-- A key is drawn by the call that parks under it. -/
theorem drawn_of_parks {o : OidcOp} {c : Choice} {w w' : OidcWorld} {res : o.Ret} {now : ℤ}
    {entry : ChallengeEntry Parked} (h : OidcOp.exec P o c w = some (res, w'))
    (hparks : Parks ⟨o, res⟩ now entry) : entry.key ∉ w.drawn ∧ entry.key ∈ w'.drawn := by
  rcases hparks with ⟨data, ttl, hcall, -⟩ | ⟨grant, secret, hcall, -, -⟩
  · cases hcall
    obtain ⟨w₁, hdraw, hw⟩ := Option.map_eq_some_iff.mp h
    obtain ⟨hnew, rfl⟩ := OidcWorld.draw_eq_some.mp hdraw
    obtain ⟨hkey, rfl⟩ := Prod.mk.inj hw
    rw [← hkey]
    exact ⟨hnew, List.mem_cons_self⟩
  · cases hcall
    obtain ⟨w₁, hdraw, hw⟩ := Option.map_eq_some_iff.mp h
    obtain ⟨hnew, rfl⟩ := OidcWorld.draw_eq_some.mp hdraw
    obtain ⟨hkey, rfl⟩ := Prod.mk.inj hw
    rw [← hkey]
    exact ⟨hnew, List.mem_cons_self⟩

/-- No two calls park under one key. -/
theorem parks_key_ne {entry entry' : ChallengeEntry Parked} {now now' : ℤ}
    (h : OidcPast P past w) (hsplit : past = pre ++ e :: mid ++ e' :: post)
    (hparks : Parks e.call now entry) (hparks' : Parks e'.call now' entry') :
    entry.key ≠ entry'.key := by
  intro hkey
  have hat' := h.at_of_split hsplit
  have hat := hat'.earlier.at_of_split rfl
  have hdrawn := drawn_subset hat'.earlier rfl (drawn_of_parks hat.possible hparks).2
  rw [hkey] at hdrawn
  exact (drawn_of_parks hat'.possible hparks').1 hdrawn

/-- The call that parked under a key is the only one. -/
theorem parks_unique {entry entry' : ChallengeEntry Parked} {now now' : ℤ}
    (h : OidcPast P past w) (he : e ∈ past) (he' : e' ∈ past) (hparks : Parks e.call now entry)
    (hparks' : Parks e'.call now' entry') (hkey : entry.key = entry'.key) : e = e' := by
  by_contra hne
  rcases before_or_after he he' hne with ⟨pre, mid, post, hsplit⟩ | ⟨pre, mid, post, hsplit⟩
  · exact parks_key_ne h hsplit hparks hparks' hkey
  · exact parks_key_ne h hsplit hparks' hparks hkey.symm

/-! ## What was taken out does not come back -/

/-- The key was drawn, and nothing is parked under it. -/
def Consumed (id : String) (w : OidcWorld) : Prop :=
  id ∈ w.drawn ∧ ∀ entry ∈ w.challenges, entry.key ≠ id

theorem Consumed.step {id : String} {o : OidcOp} {c : Choice} {w w' : OidcWorld} {res : o.Ret}
    (h : OidcOp.exec P o c w = some (res, w')) (hc : Consumed id w) : Consumed id w' := by
  obtain ⟨hstore, hdrawn⟩ := exec_store h
  refine ⟨hdrawn hc.1, fun entry hentry hkey => ?_⟩
  rcases hstore.entries hentry with hold | ⟨-, hfresh, -⟩
  · exact hc.2 entry hold hkey
  · exact hfresh (hkey ▸ hc.1)

/-- A successful `retrieve_challenge` consumes the key. -/
theorem consumed_of_retrieve {id : String} {data : Parked} (h : OidcPast P past w)
    (hsplit : past = pre ++ e :: post) (hcall : e.call = ⟨.retrieve id, .ok data⟩) :
    Consumed id w := by
  have hat := h.at_of_split hsplit
  refine h.persists hsplit (fun _ _ _ _ hat => Consumed.step hat.possible) ?_
  have hexec := hat.possible
  rw [hcall] at hexec
  obtain ⟨hres, hafter⟩ := Prod.mk.inj (Option.some.inj hexec)
  obtain ⟨entry, hentry, rfl, -, -⟩ := retrieveChallenge_eq_ok hres
  rw [← hafter]
  refine ⟨(parked hat.earlier entry hentry).2, fun entry' hentry' => ?_⟩
  exact (mem_retrieveChallenge.mp hentry').2

/-- **Single use.** Of all calls that take an entry out of the store, each key has one. -/
theorem retrieve_unique {id : String} {data data' : Parked} (h : OidcPast P past w)
    (he : e ∈ past) (he' : e' ∈ past) (hcall : e.call = ⟨.retrieve id, .ok data⟩)
    (hcall' : e'.call = ⟨.retrieve id, .ok data'⟩) : e = e' := by
  have hno : ∀ {e e' : OidcEvent} {data data' : Parked} {pre mid post},
      past = pre ++ e :: mid ++ e' :: post → e.call = ⟨.retrieve id, .ok data⟩ →
        e'.call ≠ ⟨.retrieve id, .ok data'⟩ := by
    intro e e' data data' pre mid post hsplit hcall hcall'
    have hat' := h.at_of_split hsplit
    have hconsumed := consumed_of_retrieve hat'.earlier rfl hcall
    have hexec := hat'.possible
    rw [hcall'] at hexec
    obtain ⟨entry, hentry, hkey, -, -⟩ :=
      retrieveChallenge_eq_ok (Prod.mk.inj (Option.some.inj hexec)).1
    exact hconsumed.2 entry hentry hkey
  by_contra hne
  rcases before_or_after he he' hne with ⟨pre, mid, post, hsplit⟩ | ⟨pre, mid, post, hsplit⟩
  · exact hno hsplit hcall hcall'
  · exact hno hsplit hcall' hcall

/-- A store in which an entry is gone does not return it, until it is stored anew. -/
theorem gone_stays {id : String} (h : OidcPast P past w)
    (hsplit : past = pre ++ e :: mid ++ e' :: post) (hgone : e.after.store.Gone id)
    (hmid : ∀ x ∈ mid, ∀ o, storeOp x.call = some o → o.Keeps id x.before.store) :
    (∀ data, e'.call ≠ ⟨.retrieve id, .ok data⟩) ∧ ∀ data, e'.call ≠ ⟨.peek id, some data⟩ := by
  have hat := h.at_of_split hsplit
  have hgone' : e'.before.store.Gone id := by
    refine hat.earlier.persists (J := fun w => w.store.Gone id) rfl ?_ hgone
    intro mid' x rest hx hatx hbefore
    have hstore := exec_storeOp hatx.possible
    rcases ho : storeOp x.call with _ | o
    · rw [ho] at hstore
      rwa [hstore]
    · rw [ho] at hstore
      rw [hstore]
      exact hbefore.step (hmid x (by simp [hx]) o ho)
  obtain ⟨hpeek, hretrieve⟩ := hgone'.not_returned
  constructor
  · intro data hcall
    have hexec := hat.possible
    rw [hcall] at hexec
    exact hretrieve data (Prod.mk.inj (Option.some.inj hexec)).1
  · intro data hcall
    have hexec := hat.possible
    rw [hcall] at hexec
    have hsome : (e'.before.challenges.peek e'.before.now id).1 = some data :=
      (Prod.mk.inj (Option.some.inj hexec)).1
    rw [show (e'.before.challenges.peek e'.before.now id).1 = none from hpeek] at hsome
    cases hsome

/-! ## Redeeming a code -/

/-- The `i`-th request exchanged the code for tokens. -/
def Exchanged (s : Provider) (i : ℕ) (code : String) (form : TokenForm) : Prop :=
  s.request i = some (.token form) ∧ form.grantType = some "authorization_code" ∧
    form.code = some code ∧ ∃ body, s.answer i = some (.tokens body)

/-- What an exchange of a code needs: the one call that minted it, the call that took it
out of the store while it was in time, the client it was minted for, its redirect URI,
and its verifier. -/
structure Redeemed (P : Oidc) (s : Provider) (i : ℕ) (code : String) (form : TokenForm)
    (mint : OidcEvent) (grant : CodeGrant) : Prop where
  minted : mint ∈ s.past ∧ mint.call = ⟨.mintCode grant, code⟩
  only : ∀ e ∈ s.past, ∀ other, e.call = ⟨.mintCode other, code⟩ → e = mint
  taken : ∃ pre take post, s.past = pre ++ take :: post ∧ mint ∈ pre ∧ take.thread = i ∧
    take.call = ⟨.retrieve code, .ok (.codeGrant grant)⟩ ∧
    take.before.now ≤ mint.before.now + codeTtl
  client : ∃ client text secret, ClientPassed form (callsOf i s.past) client ∧
    form.presented = some (text, secret) ∧ OAuthClientId.fromStr text = some client.id ∧
    grant.clientId = client.id.text
  redirectUri : form.redirectUri = some grant.redirectUri
  verifier : ∃ verifier, form.codeVerifier = some verifier ∧
    ∀ other, P.sha256 other = grant.codeChallenge → other = verifier

/-- A code is exchanged at most once, in time, and for what it was minted for, and what is
gone from the store is not returned. -/
structure CodesSafe (P : Oidc) (s : Provider) : Prop where
  once : ∀ {code i j form form'}, Exchanged s i code form → Exchanged s j code form' → i = j
  redeemed : ∀ {code i form}, Exchanged s i code form →
    ∃ mint grant, Redeemed P s i code form mint grant
  consumed : ∀ {id res}, ∀ e ∈ s.past, e.call = ⟨.retrieve id, res⟩ → e.after.store.Gone id
  gone : ∀ {id pre e mid e' post}, s.past = pre ++ e :: mid ++ e' :: post →
    e.after.store.Gone id →
    (∀ x ∈ mid, ∀ o, storeOp x.call = some o → o.Keeps id x.before.store) →
    (∀ data, e'.call ≠ ⟨.retrieve id, .ok data⟩) ∧ ∀ data, e'.call ≠ ⟨.peek id, some data⟩

/-- `oauth_client` returns the client it was asked for. -/
theorem id_of_oauthClient {i : ℕ} {id : OAuthClientId} {client : OAuthClient} (h : OidcPast P past w)
    (hdid : Did (callsOf i past) (.oauthClient id) (.ok (some client))) : client.id = id := by
  obtain ⟨e, he, -, hcall⟩ := mem_callsOf.mp hdid
  obtain ⟨pre, post, -, hat⟩ := h.exists_at he
  obtain ⟨row, -, hid, rfl⟩ := row_of_oauthClient hat hcall
  exact hid

/-- The client that passed is the one the form names. -/
theorem ClientPassed.presented {form : TokenForm} {i : ℕ} {client : OAuthClient}
    (h : OidcPast P past w) (hpassed : ClientPassed form (callsOf i past) client) :
    ∃ text secret, form.presented = some (text, secret) ∧
      OAuthClientId.fromStr text = some client.id := by
  obtain ⟨text, secret, id, hpresented, hid, hdid, -, -⟩ := hpassed
  rw [← id_of_oauthClient h hdid] at hid
  exact ⟨text, secret, hpresented, hid⟩

/-- A request has one answer. -/
theorem Exchanged.entitled {s : Provider} {i : ℕ} {code : String} {form : TokenForm}
    (hs : s.Specified (OidcOp.exec P) (Before P) (Answered P) OidcWorld.empty)
    (h : Exchanged s i code form) :
    ∃ client grant accountId, ClientPassed form (callsOf i s.past) client ∧
      Redeems P form (callsOf i s.past) client (.code code grant) accountId grant.scopes := by
  obtain ⟨hreq, htype, hcode, body, hanswer⟩ := h
  obtain ⟨r, hr, form', client, source, accountId, scopes, hash, rfl, ⟨hpassed, hredeems⟩, -⟩ :=
    hs.answered hanswer
  obtain rfl : form = form' := by
    have hsame := hreq.symm.trans hr
    simpa using hsame
  cases hredeems with
  | @code code' verifier grant accountId type named pre taken client_eq redirect_eq verified pkce
      account =>
    obtain rfl : code = code' := by
      have hsame := hcode.symm.trans named
      simpa using hsame
    exact ⟨client, grant, accountId, hpassed,
      .code type named pre taken client_eq redirect_eq verified pkce account⟩
  | refresh type =>
    have hsame := htype.symm.trans type
    simp at hsame

/-- Only `mint_code` parks a code. -/
theorem minted_of_parks {entry : ChallengeEntry Parked} {grant : CodeGrant}
    (h : OidcPast P past w) (he : e ∈ past) (hparks : Parks e.call e.before.now entry)
    (hdata : entry.data = .codeGrant grant) :
    e.call = ⟨.mintCode grant, entry.key⟩ ∧ entry.expiresAt = e.before.now + codeTtl := by
  rcases hparks with ⟨data, ttl, hcall, hentry⟩ | ⟨grant', secret, hcall, -, hentry⟩
  · obtain ⟨pre, post, -, hat⟩ := h.exists_at he
    have hguard := hat.guard
    rw [hentry] at hdata
    obtain rfl : data = .codeGrant grant := hdata
    rw [hcall] at hguard
    exact absurd hguard id
  · rw [hentry] at hdata
    obtain rfl : grant' = grant := Parked.codeGrant.inj hdata
    exact ⟨hcall, by rw [hentry]⟩

theorem parks_of_mint {code : String} {grant : CodeGrant} (h : OidcPast P past w) (he : e ∈ past)
    (hcall : e.call = ⟨.mintCode grant, code⟩) :
    Parks e.call e.before.now ⟨code, .codeGrant grant, e.before.now + codeTtl⟩ := by
  obtain ⟨pre, post, -, hat⟩ := h.exists_at he
  have hexec := hat.possible
  rw [hcall] at hexec
  obtain ⟨w₁, -, hw⟩ := Option.map_eq_some_iff.mp hexec
  obtain ⟨hkey, -⟩ := Prod.mk.inj hw
  exact .inr ⟨grant, e.choice.secret, hcall, hkey.symm, rfl⟩

/-- **Codes are safe** in every run. -/
theorem run_codesSafe (hinj : Function.Injective P.sha256) (ms : List ProviderMove) :
    CodesSafe P (Provider.run P Provider.empty ms) := by
  have hs := Provider.run_specified (P := P) ms
  have hpast := hs.past
  refine ⟨?_, ?_, ?_, fun hsplit => gone_stays hpast hsplit⟩
  · intro code i j form form' hi hj
    obtain ⟨client, grant, accountId, -, hredeems⟩ := hi.entitled hs
    obtain ⟨client', grant', accountId', -, hredeems'⟩ := hj.entitled hs
    cases hredeems with
    | code _ _ _ taken =>
      cases hredeems' with
      | code _ _ _ taken' =>
        obtain ⟨e, he, rfl, hcall⟩ := mem_callsOf.mp taken
        obtain ⟨e', he', rfl, hcall'⟩ := mem_callsOf.mp taken'
        rw [retrieve_unique hpast he he' hcall hcall']
  · intro code i form hi
    obtain ⟨client, grant, accountId, hpassed, hredeems⟩ := hi.entitled hs
    cases hredeems with
    | code _ _ _ taken client_eq redirect_eq verified pkce =>
      obtain ⟨take, htake, hthread, hcall⟩ := mem_callsOf.mp taken
      obtain ⟨pre, post, entry, hsplit, ⟨mint, hmint, hparks⟩, rfl, hdata, htime⟩ :=
        parked_of_retrieve hpast htake hcall
      have hmem : mint ∈ (Provider.run P Provider.empty ms).past := by
        rw [hsplit]
        exact List.mem_append_left _ hmint
      obtain ⟨hminted, hexpires⟩ := minted_of_parks hpast hmem hparks hdata
      obtain ⟨text, secret, hpresented, hid⟩ := hpassed.presented hpast
      refine ⟨mint, grant, ⟨hmem, hminted⟩, ?_, ⟨pre, take, post, hsplit, hmint, hthread, hcall, ?_⟩,
        ⟨client, text, secret, hpassed, hpresented, hid, client_eq⟩, redirect_eq, ?_⟩
      · intro e he other hother
        exact parks_unique hpast he hmem (parks_of_mint hpast he hother) hparks rfl
      · rwa [← hexpires]
      · refine ⟨_, verified, fun other hother => hinj ?_⟩
        rw [hother, pkce]
  · intro id res e he hcall
    obtain ⟨pre, post, -, hat⟩ := hpast.exists_at he
    have hstore := exec_storeOp hat.possible
    rw [hcall] at hstore
    rw [hstore]
    exact StoreState.gone_retrieve _ id

/-- **Single use, bound and short-lived.** -/
theorem codesSingleUse (P : Oidc) (hinj : Function.Injective P.sha256) :
    (∀ ms, CodesSafe P (Provider.run P Provider.empty ms)) ∧
    ∀ {δ : Type} (s : StoreState δ) (id : String) (ops : List (StoreOp δ)),
      Runs.Meets storeStep (fun s o => o.Keeps id s) s ops → s.Gone id →
      ((Runs.run storeStep s ops).entries.peek (Runs.run storeStep s ops).now id).1 = none ∧
      ∀ data, ((Runs.run storeStep s ops).entries.retrieveChallenge
        (Runs.run storeStep s ops).now id).1 ≠ .ok data :=
  ⟨run_codesSafe hinj, fun _ _ _ hops hgone => (StoreState.gone_run hgone hops).not_returned⟩

/-! ### A provider at work -/

/-- A provider with hashes that keep their text, and authenticators that sign by counting. -/
def sampleOidc : Oidc where
  blake3 s := s
  sha256 s := s
  unicode := Unicode.ascii
  finishAuthentication response state :=
    if state.challenge = response.challenge ∧ (state.passkeys.any fun p =>
      p.credId = response.rawId ∧
        (p.counter < response.counter ∨ p.counter = 0 ∧ response.counter = 0))
    then some ⟨response.rawId, response.counter⟩ else none
  finishRegistration response challenge :=
    if response.challenge = challenge then some response.passkey else none
  sign claims := claims.sub
  issuer := "https://mail.example.org"
  accessTokenTtlSecs := 3600
  idTokenTtlSecs := 3600
  refreshTokenTtlSecs := 2592000

/-- The `i`-th request, with what is decided about each of its calls. -/
def serve (i : ℕ) (r : Request) (cs : List Choice) : List ProviderMove :=
  .start r :: cs.map (Move.call i)

/-- Calls that draw nothing. -/
def plain (n : ℕ) : List Choice := List.replicate n {}

/-- The account of the samples. -/
def sampleAccount : AccountId := ⟨1⟩

/-- The client of the samples. -/
def sampleClient : OAuthClientId := ⟨2⟩

/-- An account, a client, and a passkey of the account. -/
def setUp : List ProviderMove :=
  serve 0 (.setAccounts [⟨⟨sampleAccount, "alice@example.com", none, 0⟩, none⟩]) (plain 1) ++
  serve 1 (.createClient ⟨sampleClient, "App", ["https://app.example/cb"], none, false, 0⟩)
    (plain 1) ++
  serve 2 (.createToken sampleAccount "enrol") [{ secret := 1 }] ++
  serve 3 (.enrollStart (some (secretText tokenPrefix 1)))
    (plain 2 ++ [{ uuid := 10 }, { uuid := 11 }]) ++
  serve 4 (.enrollFinish (some (secretText tokenPrefix 1)) (11 : Uuid).toString none
    (some ⟨⟨[1], [2], 0⟩, 10, []⟩)) (plain 4)

/-- The authorization request of the samples. -/
def sampleAuthorize : Request :=
  .authorize ⟨some "code", some sampleClient.text, some "https://app.example/cb",
    some "openid offline_access", none, none, some "verifier", some "S256"⟩

/-- A login with a consent, up to the code. -/
def codeLogin : List ProviderMove :=
  setUp ++
  serve 5 sampleAuthorize (plain 1 ++ [{ uuid := 12 }]) ++
  serve 6 (.loginStart (12 : Uuid).toString "alice@example.com")
    (plain 3 ++ [{ uuid := 13 }, { uuid := 14 }]) ++
  serve 7 (.loginFinish (12 : Uuid).toString (14 : Uuid).toString (some ⟨[1], 5, 13, []⟩))
    (plain 6 ++ [{ uuid := 15 }]) ++
  serve 8 (.consentSubmit (12 : Uuid).toString (15 : Uuid).toString "approve")
    (plain 4 ++ [{ secret := 2 }])

/-- The form that redeems the code. -/
def codeForm : TokenForm where
  grantType := some "authorization_code"
  code := some (secretText codePrefix 2)
  redirectUri := some "https://app.example/cb"
  codeVerifier := some "verifier"
  clientId := some sampleClient.text

/-- The exchange of the code. -/
def codeExchange : List ProviderMove :=
  codeLogin ++ serve 9 (.token codeForm)
    (plain 4 ++ [{ secret := 3 }] ++ plain 3 ++ [{ uuid := 16, secret := 4 }])

instance (s : Provider) (i : ℕ) (code : String) (form : TokenForm) :
    Decidable (Exchanged s i code form) :=
  decidable_of_iff (s.request i = some (.token form) ∧
    form.grantType = some "authorization_code" ∧ form.code = some code ∧
    ((s.answer i).any fun | .tokens _ => true | _ => false) = true) <| by
      unfold Exchanged
      rcases s.answer i with _ | r
      · simp
      · cases r <;> simp

theorem codesSingleUse_sample :
    Exchanged (Provider.run sampleOidc Provider.empty codeExchange) 9 (secretText codePrefix 2)
      codeForm ∧
    ∀ j form, Exchanged (Provider.run sampleOidc Provider.empty codeExchange) j
      (secretText codePrefix 2) form → j = 9 := by
  have hex : Exchanged (Provider.run sampleOidc Provider.empty codeExchange) 9
      (secretText codePrefix 2) codeForm := by decide +kernel
  exact ⟨hex, fun j form hj =>
    ((codesSingleUse sampleOidc fun _ _ h => h).1 codeExchange).once hj hex⟩

end Owney
