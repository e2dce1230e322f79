import Owney.OidcRevocation

/-!
# Signature counters

The counter of a passkey is stored twice: in the column `counter`, which every login writes,
and inside the serialised `Passkey`, which no login writes and every ceremony is started
with. So an assertion is checked against the counter of the enrolment. Where the column
would let it through as well (`Ahead`), and overlapping logins write in the order of their
counters (`InOrder`), the column only grows and clones are noticed.
-/

namespace Owney

open Programs Tables ChallengeStore

variable {P : Oidc} {past pre mid post : List OidcEvent} {w w' : OidcWorld} {e f u : OidcEvent}
  {id : CredentialId} {counter : ℕ}

/-! ## The rule and the law -/

/-- A counter that webauthn-rs accepts after another: greater, or neither one counts. -/
def Counts (old new : ℕ) : Prop := old < new ∨ old = 0 ∧ new = 0

instance (old new : ℕ) : Decidable (Counts old new) := inferInstanceAs (Decidable (_ ∨ _))

/-- webauthn-rs checks the counter against the passkey the ceremony was started with, and
returns it. -/
def CounterRule (P : Oidc) : Prop :=
  ∀ response state result, P.finishAuthentication response state = some result →
    result.counter = response.counter ∧
      ∃ p ∈ state.passkeys, p.credId = response.rawId ∧ Counts p.counter response.counter

/-- The call accepts the login of the ceremony, with this counter of the credential. -/
def AcceptsLogin (e : OidcEvent) (ceremonyId : String) (id : CredentialId) (counter : ℕ) : Prop :=
  ∃ req response written, e.req = .loginFinish req ceremonyId (some response) ∧
    response.rawId = id ∧ response.counter = counter ∧ e.call = ⟨.updateCounter id written, .ok ()⟩

/-- The call parks the ceremony, at the end of `login_start`. -/
def StartsLogin (e : OidcEvent) (ceremonyId : String) : Prop :=
  ∃ ceremony ttl, e.call = ⟨.storeWithTtl (.loginCeremony ceremony) ttl, ceremonyId⟩

/-- Clones are noticed: after an accepted login, no login that was started later is accepted
with a counter that is not greater. And the column never decreases. -/
structure CountersRise (s : Provider) : Prop where
  cloned : ∀ {pre u mid start mid' u' post ceremonyId ceremonyId' id c c'},
    s.past = pre ++ u :: mid ++ start :: mid' ++ u' :: post →
    AcceptsLogin u ceremonyId id c → 0 < c → StartsLogin start ceremonyId' →
    (∀ y ∈ pre, y.thread ≠ start.thread) →
    AcceptsLogin u' ceremonyId' id c' → c < c'
  column : ∀ e ∈ s.past, ∀ r ∈ e.before.db.passkeys, ∃ r' ∈ e.after.db.passkeys,
    r'.id = r.id ∧ r.counter ≤ r'.counter

/-! ### The conditions -/

/-- An assertion whose counter passes after the enrolled one, passes after the column. -/
def Ahead (_ : List OidcEvent) (e : OidcEvent) : Prop :=
  match e.call.op with
  | .finishAuthentication response auth => ∀ p ∈ auth.passkeys, p.credId = response.rawId →
    Counts p.counter response.counter → ∀ r ∈ e.before.db.passkeys, r.id = response.rawId →
      Counts r.counter response.counter
  | _ => True

/-- The call checks an assertion. -/
def OidcOp.IsCheck : OidcOp → Bool
  | .finishAuthentication .. => true
  | _ => false

/-- No login writes a counter after one has written a greater one that was checked later. -/
def InOrder (pre : List OidcEvent) (e : OidcEvent) : Prop :=
  match e.call.op with
  | .updateCounter id counter => Steps (fun pre' y => match y.call with
    | ⟨.updateCounter id' counter', .ok _⟩ => id' = id → counter' ≤ counter ∨
      ∀ f ∈ pre', f.thread = e.thread → f.call.op.IsCheck = false
    | _ => True) pre
  | _ => True

/-! ## The column -/

/-- The passkeys after a call: those from before, with the counter that the call wrote, and at
most one that was just enrolled. -/
theorem DbEffect.passkeys {call : Call OidcOp.Ret} (h : DbEffect P w call w') :
    (∃ f, w'.db.passkeys = w.db.passkeys.map f ∧ ∀ r : PasskeyCredential, (f r).id = r.id ∧
      ((f r).counter = r.counter ∨ call = ⟨.updateCounter r.id (f r).counter, .ok ()⟩)) ∨
    ∃ row, call = ⟨.savePasskey row, .ok ()⟩ ∧ row.id ∉ w.db.passkeys.map (·.id) ∧
      w'.db.passkeys = w.db.passkeys ++ [row] := by
  cases h with
  | passkeySaved made new db => exact .inr ⟨_, made, new, by rw [db]⟩
  | @counterUpdated id counter made db =>
    refine .inl ⟨_, by rw [db]; rfl, fun r => ?_⟩
    by_cases hid : r.id = id
    · subst hid
      rw [if_pos (by simp)]
      exact ⟨rfl, .inr made⟩
    · rw [if_neg (by simpa using hid)]
      exact ⟨rfl, .inl rfl⟩
  | passkeyDisabled made db =>
    refine .inl ⟨_, by rw [db]; rfl, fun r => ?_⟩
    split <;> exact ⟨rfl, .inl rfl⟩
  | kept _ db | clientCreated _ _ db | clientDisabled _ db | grantUpserted _ _ db
  | grantRevoked _ db | refreshCreated _ _ _ _ db | rotated _ _ _ _ _ db | familyRevoked _ db
  | tokenMinted _ _ _ db | tokenCreated _ _ _ db | tokenRevoked _ db | accountsSet _ db =>
    exact .inl ⟨fun r => r, by rw [db]; exact (List.map_id' _).symm, fun r => ⟨rfl, .inl rfl⟩⟩

/-- A passkey is never deleted. -/
theorem DbEffect.passkey_kept {call : Call OidcOp.Ret} (h : DbEffect P w call w')
    (hid : ∃ r ∈ w.db.passkeys, r.id = id) : ∃ r ∈ w'.db.passkeys, r.id = id := by
  obtain ⟨r, hr, rfl⟩ := hid
  rcases h.passkeys with ⟨f, hrows, hf⟩ | ⟨row, -, -, hrows⟩
  · exact ⟨f r, hrows ▸ List.mem_map_of_mem hr, (hf r).1⟩
  · exact ⟨r, hrows ▸ List.mem_append_left _ hr, rfl⟩

/-- The passkey that `get_passkey_credential` returned is there. -/
theorem passkey_of_get {i : ℕ} {stored : PasskeyCredential} (h : OidcPast P past w)
    (hdid : Did (callsOf i past) (.getPasskey id) (.ok (some stored))) :
    ∃ r ∈ w.db.passkeys, r.id = id := by
  obtain ⟨e, he, -, hcall⟩ := mem_callsOf.mp hdid
  obtain ⟨pre, post, hsplit, hat⟩ := h.exists_at he
  have hexec := hat.possible
  rw [hcall] at hexec
  obtain ⟨-, ⟨_, herr⟩ | hok⟩ := OidcWorld.call_query (Option.some.inj hexec)
  · cases herr
  have hfind := (Except.ok.inj hok).symm
  refine h.persists (J := fun w => ∃ r ∈ w.db.passkeys, r.id = id) hsplit
    (fun _ _ _ _ hat hr => (at_db hat).passkey_kept hr) ((at_db hat).passkey_kept ?_)
  exact ⟨stored, List.mem_of_find?_eq_some hfind, by simpa using List.find?_some hfind⟩

/-- The column of the credential is at most the counter. -/
def Below (id : CredentialId) (counter : ℕ) (w : OidcWorld) : Prop :=
  ∀ r ∈ w.db.passkeys, r.id = id → r.counter ≤ counter

/-- The column of the credential is at least the counter. -/
def Reaches (id : CredentialId) (counter : ℕ) (w : OidcWorld) : Prop :=
  ∃ r ∈ w.db.passkeys, r.id = id ∧ counter ≤ r.counter

/-- A call that writes no greater counter leaves the column below. -/
theorem Below.step (hat : OidcAt P past e) (hb : Below id counter e.before)
    (hwrite : ∀ c, e.call = ⟨.updateCounter id c, .ok ()⟩ → c ≤ counter) :
    Below id counter e.after := by
  intro r hr hid
  rcases (at_db hat).passkeys with ⟨f, hrows, hf⟩ | ⟨row, hcall, -, hrows⟩
  · rw [hrows] at hr
    obtain ⟨r₀, hr₀, rfl⟩ := List.mem_map.mp hr
    obtain ⟨hid₀, hkept | hwrote⟩ := hf r₀
    · rw [hkept]
      exact hb r₀ hr₀ (hid₀.symm.trans hid)
    · rw [← hid₀, hid] at hwrote
      exact hwrite _ hwrote
  · rw [hrows] at hr
    rcases List.mem_append.mp hr with hr | hr
    · exact hb r hr hid
    · obtain rfl := List.mem_singleton.mp hr
      have hguard := hat.guard
      rw [hcall] at hguard
      rw [hguard.2]
      exact Nat.zero_le _

section Clean

variable (hrule : CounterRule P) (hahead : Steps Ahead past)
include hrule hahead

/-- **The write-back of a login** finds a column that is not above its counter. -/
theorem below_of_write (hat : OidcAt P past u) (horder : InOrder past u)
    (hcall : u.call = ⟨.updateCounter id counter, .ok ()⟩) : Below id counter u.before := by
  have hguard := hat.guard
  rw [hcall] at hguard
  obtain ⟨req, ceremonyId, ceremony, response, result, -, rfl, rfl, -, hdid⟩ := hguard
  obtain ⟨f, hf, hthread, hfcall⟩ := mem_callsOf.mp hdid
  obtain ⟨pre, mid, rfl, hatf⟩ := hat.earlier.exists_at hf
  -- At the check the column would have let the assertion pass.
  have hresult : P.finishAuthentication response ceremony.auth = some result := by
    have hexec := hatf.possible
    rw [hfcall] at hexec
    exact (Prod.mk.inj (Option.some.inj hexec)).1
  obtain ⟨hcounter, p, hp, hcred, hcounts⟩ := hrule _ _ _ hresult
  have hcheck := hahead pre f mid rfl
  simp only [Ahead, hfcall] at hcheck
  have hbefore : Below response.rawId result.counter f.before := by
    intro r hr hid
    rw [hcounter]
    rcases hcheck p hp hcred hcounts r hr hid with hlt | ⟨hzero, -⟩
    · exact hlt.le
    · rw [hzero]
      exact Nat.zero_le _
  -- No greater counter was written since.
  refine hat.earlier.persists (J := Below response.rawId result.counter) rfl ?_
    (hbefore.step hatf fun c hc => by rw [hfcall] at hc; cases hc)
  rintro mid' y rest rfl haty hb
  refine hb.step haty fun c hc => ?_
  simp only [InOrder, hcall] at horder
  have hy := horder (pre ++ f :: mid') y rest (by simp)
  simp only [hc, forall_const] at hy
  rcases hy with hle | hno
  · exact hle
  · have hcheck := hno f (by simp) hthread
    rw [hfcall] at hcheck
    cases hcheck

/-- **The column never decreases.** -/
theorem column_step (hat : OidcAt P past e) (horder : InOrder past e) :
    ∀ r ∈ e.before.db.passkeys, ∃ r' ∈ e.after.db.passkeys, r'.id = r.id ∧ r.counter ≤ r'.counter := by
  intro r hr
  rcases (at_db hat).passkeys with ⟨f, hrows, hf⟩ | ⟨row, -, -, hrows⟩
  · refine ⟨f r, hrows ▸ List.mem_map_of_mem hr, (hf r).1, ?_⟩
    rcases (hf r).2 with hkept | hwrote
    · exact hkept.ge
    · exact below_of_write hrule hahead hat horder hwrote r hr rfl
  · exact ⟨r, hrows ▸ List.mem_append_left _ hr, rfl, le_rfl⟩

theorem Reaches.step (hat : OidcAt P past e) (horder : InOrder past e)
    (h : Reaches id counter e.before) : Reaches id counter e.after := by
  obtain ⟨r, hr, rfl, hle⟩ := h
  obtain ⟨r', hr', hid, hle'⟩ := column_step hrule hahead hat horder r hr
  exact ⟨r', hr', hid, hle.trans hle'⟩

/-- What the column reached, it reaches later. -/
theorem Reaches.persists (h : OidcPast P past w) (horder : Steps InOrder past)
    (hsplit : past = pre ++ e :: post) (hr : Reaches id counter e.after) : Reaches id counter w := by
  refine h.persists (J := Reaches id counter) hsplit ?_ hr
  rintro mid x rest rfl hat hr
  subst hsplit
  have hall : Steps Ahead ((pre ++ e :: mid) ++ x :: rest) := by simpa using hahead
  exact hr.step hrule hall.of_append hat (horder (pre ++ e :: mid) x rest (by simp))

end Clean

/-! ## Logins -/

section Logins

variable {ceremonyId : String} (hrule : CounterRule P)
include hrule

/-- An accepted login was checked, for its ceremony. -/
theorem checked_of_accepts (hat : OidcAt P past u) (h : AcceptsLogin u ceremonyId id counter) :
    ∃ pre f rest response auth stored, past = pre ++ f :: rest ∧ response.rawId = id ∧
      response.counter = counter ∧ u.call = ⟨.updateCounter id counter, .ok ()⟩ ∧
      (∃ ceremony, Did (callsOf f.thread pre) (.retrieve ceremonyId) (.ok (.loginCeremony ceremony))) ∧
      Did (callsOf f.thread pre) (.getPasskey id) (.ok (some stored)) ∧
      f.call.op = .finishAuthentication response auth ∧
      ∃ p ∈ auth.passkeys, p.credId = id ∧ Counts p.counter counter := by
  obtain ⟨req, response, written, hreq, rfl, rfl, hcall⟩ := h
  have hguard := hat.guard
  rw [hcall] at hguard
  obtain ⟨req', ceremonyId', ceremony, response', result, hreq', hid, rfl, -, hdid⟩ := hguard
  obtain ⟨rfl, rfl, rfl⟩ : req = req' ∧ ceremonyId = ceremonyId' ∧ response = response' := by
    simpa using hreq.symm.trans hreq'
  obtain ⟨f, hf, hthread, hfcall⟩ := mem_callsOf.mp hdid
  obtain ⟨pre, rest, hsplit, hatf⟩ := hat.earlier.exists_at hf
  have hresult : P.finishAuthentication response ceremony.auth = some result := by
    have hexec := hatf.possible
    rw [hfcall] at hexec
    exact (Prod.mk.inj (Option.some.inj hexec)).1
  obtain ⟨hcounter, hpasskey⟩ := hrule _ _ _ hresult
  have hfguard := hatf.guard
  rw [hfcall] at hfguard
  obtain ⟨req'', ceremonyId'', ceremony', stored, hfreq, -, hretrieved, hget⟩ := hfguard
  obtain ⟨rfl, rfl⟩ : req = req'' ∧ ceremonyId = ceremonyId'' := by
    simpa using (hreq.symm.trans (hat.same f hf hthread).symm).trans hfreq
  exact ⟨pre, f, rest, response, ceremony.auth, stored, hsplit, rfl, rfl, by rw [hcall, hcounter],
    ⟨ceremony', hretrieved⟩, hget, by rw [hfcall], hpasskey⟩

/-- After an accepted login the column has reached its counter. -/
theorem reaches_of_accepts (hat : OidcAt P past u) (h : AcceptsLogin u ceremonyId id counter) :
    Reaches id counter u.after := by
  obtain ⟨pre, f, rest, response, auth, stored, rfl, -, -, hcall, -, hget, -⟩ :=
    checked_of_accepts hrule hat h
  have hget' : Did (callsOf f.thread (pre ++ f :: rest)) (.getPasskey id) (.ok (some stored)) := by
    rw [callsOf_append]
    exact hget.append
  obtain ⟨r, hr, hid⟩ := passkey_of_get hat.earlier hget'
  have heffect := at_db hat
  rw [hcall] at heffect
  cases heffect with
  | counterUpdated made db =>
    cases made
    rw [Reaches, db]
    refine ⟨_, mem_update.mpr ⟨r, hr, rfl⟩, ?_⟩
    rw [if_pos (by simpa using hid)]
    exact ⟨hid, le_rfl⟩
  | kept quiet => cases quiet
  | clientCreated made | clientDisabled made | grantUpserted made | grantRevoked made
  | refreshCreated made | rotated made | familyRevoked made | tokenMinted made
  | tokenCreated made | tokenRevoked made | passkeySaved made | passkeyDisabled made
  | accountsSet made => cases made

omit hrule in
/-- A check comes after the start of its ceremony. -/
theorem start_of_checked {i : ℕ} {ceremony' : LoginCeremony} {start : OidcEvent}
    (h : OidcPast P past w) (hsplit : past = pre ++ f :: post) (hmem : start ∈ past)
    (hstart : StartsLogin start ceremonyId)
    (hdid : Did (callsOf i pre) (.retrieve ceremonyId) (.ok (.loginCeremony ceremony'))) :
    start ∈ pre := by
  obtain ⟨ceremony, ttl, hcall⟩ := hstart
  obtain ⟨t, ht, -, htcall⟩ := mem_callsOf.mp hdid
  obtain ⟨pre', post', entry, rfl, ⟨park, hpark, hparks⟩, hkey, -, -⟩ :=
    parked_of_retrieve (h.at_of_split hsplit).earlier ht htcall
  have hpark' : park ∈ past := by
    rw [hsplit]
    simp [hpark]
  obtain rfl : park = start := parks_unique h hpark' hmem hparks
    (.inl ⟨_, _, hcall, rfl⟩ : Parks start.call start.before.now ⟨ceremonyId, _, _⟩) hkey
  exact List.mem_append_left _ hpark

end Logins

/-- **Counters rise** in every run in which the column would reject no assertion that the
enrolled counter lets pass, and overlapping logins write in order. -/
theorem countersRise (P : Oidc) (hrule : CounterRule P) (ms : List ProviderMove)
    (hahead : Steps Ahead (Provider.run P Provider.empty ms).past)
    (horder : Steps InOrder (Provider.run P Provider.empty ms).past) :
    CountersRise (Provider.run P Provider.empty ms) := by
  have hpast := (Provider.run_specified (P := P) ms).past
  generalize Provider.run P Provider.empty ms = s at hahead horder hpast
  -- The conditions hold of every prefix.
  have hprior : ∀ {l l' : List OidcEvent}, s.past = l ++ l' → Steps Ahead l ∧ Steps InOrder l := by
    intro l l' hl
    rw [hl] at hahead horder
    exact ⟨hahead.of_append, horder.of_append⟩
  constructor
  · intro pre u mid start mid' u' post ceremonyId ceremonyId' id c c' hsplit haccepts
      hpos hstart _ haccepts'
    have hsplit₁ : s.past = pre ++ u :: (mid ++ start :: mid' ++ u' :: post) := by simp [hsplit]
    have hsplit₂ : s.past = (pre ++ u :: mid) ++ start :: (mid' ++ u' :: post) := by simp [hsplit]
    have hatu' := hpast.at_of_split hsplit
    obtain ⟨prf, f, rest, response, auth, stored, hf, rfl, rfl, -, ⟨ceremony', hretrieved⟩, -, hop, p,
      hp, hcred, hcounts⟩ := checked_of_accepts hrule hatu' haccepts'
    have hsplitf : s.past = prf ++ f :: (rest ++ u' :: post) := by
      rw [hsplit, hf, List.append_assoc, List.cons_append]
    have hatf := hpast.at_of_split hsplitf
    -- From the login to the start of the ceremony, and on to its check.
    have hats := hpast.at_of_split hsplit₂
    have hreached : Reaches response.rawId c start.before :=
      (reaches_of_accepts hrule (hpast.at_of_split hsplit₁) haccepts).persists hrule
        (hprior hsplit₂).1 hats.earlier (hprior hsplit₂).2 rfl
    have hreached' := hreached.step hrule (hprior hsplit₂).1 hats (horder _ _ _ hsplit₂)
    obtain ⟨pre', post', rfl⟩ :=
      List.append_of_mem (start_of_checked hatu'.earlier hf (by simp) hstart hretrieved)
    obtain ⟨r, hr, hid, hle⟩ :=
      hreached'.persists hrule (hprior hsplitf).1 hatf.earlier (hprior hsplitf).2 rfl
    have hcheck := hahead _ f _ hsplitf
    simp only [Ahead, hop] at hcheck
    rcases hcheck p hp hcred hcounts r hr hid with hlt | ⟨hzero, -⟩
    · exact lt_of_le_of_lt hle hlt
    · omega
  · intro e he
    obtain ⟨pre, post, hsplit, hat⟩ := hpast.exists_at he
    exact column_step hrule (hprior hsplit).1 hat (horder pre e post hsplit)

/-! ### A clone that passes -/

instance (e : OidcEvent) (ceremonyId : String) (id : CredentialId) (counter : ℕ) :
    Decidable (AcceptsLogin e ceremonyId id counter) :=
  decidable_of_iff ((match e.req, e.call with
    | .loginFinish _ k (some response), ⟨.updateCounter id' _, .ok _⟩ =>
      decide (k = ceremonyId ∧ response.rawId = id ∧ response.counter = counter ∧ id' = id)
    | _, _ => false) = true) <| by
      unfold AcceptsLogin
      split
      · rename_i req k response id' written hreq hcall
        simp [hreq, hcall]
      · rename_i hother
        simpa using fun req response hreq hid hcounter written hcall =>
          hother req ceremonyId response id written () hreq hcall

instance (e : OidcEvent) (ceremonyId : String) : Decidable (StartsLogin e ceremonyId) :=
  decidable_of_iff ((match e.call with
    | ⟨.storeWithTtl (.loginCeremony _) _, key⟩ => decide (key = ceremonyId)
    | _ => false) = true) <| by
      unfold StartsLogin
      split
      · rename_i ceremony ttl key hcall
        simp [hcall]
      · rename_i hother
        simpa using fun ceremony ttl hcall => hother ceremony ttl ceremonyId hcall

instance (pre : List OidcEvent) (e : OidcEvent) : Decidable (Ahead pre e) := by
  unfold Ahead
  generalize e.call.op = op
  cases_type OidcOp <;> infer_instance

instance (pre : List OidcEvent) (e : OidcEvent) : Decidable (InOrder pre e) := by
  unfold InOrder
  generalize e.call.op = op
  cases_type OidcOp <;> try infer_instance
  refine @Steps.decidable _ _ ?_ _
  intro pre' y
  generalize y.call = call
  obtain ⟨op, res⟩ := call
  cases_type OidcOp <;> try infer_instance
  rcases res with _ | _ <;> infer_instance

/-- A login with the counter 5, and one with another counter after it. -/
def secondLogin (counter : ℕ) : List ProviderMove :=
  codeLogin ++
  serve 9 sampleAuthorize (plain 1 ++ [{ uuid := 17 }]) ++
  serve 10 (.loginStart (17 : Uuid).toString "alice@example.com")
    (plain 3 ++ [{ uuid := 18 }, { uuid := 19 }]) ++
  serve 11 (.loginFinish (17 : Uuid).toString (19 : Uuid).toString (some ⟨[1], counter, 18, []⟩))
    (plain 7 ++ [{ secret := 7 }])

theorem counterRule_sampleOidc : CounterRule sampleOidc := by
  intro response state result h
  simp only [sampleOidc] at h
  split at h
  · rename_i hpassed
    obtain rfl := Option.some.inj h
    obtain ⟨p, hp, hpassed⟩ := List.any_eq_true.mp hpassed.2
    obtain ⟨hcred, hcounts⟩ := of_decide_eq_true hpassed
    exact ⟨rfl, p, hp, hcred, hcounts⟩
  · cases h

theorem countersRise_secondLogin :
    (Provider.run sampleOidc Provider.empty (secondLogin 6)).answer 11 =
      some (.jsonRedirect "https://app.example/cb" [("code", secretText codePrefix 7)]) ∧
    CountersRise (Provider.run sampleOidc Provider.empty (secondLogin 6)) := by
  have hrun : (Provider.run sampleOidc Provider.empty (secondLogin 6)).answer 11 =
        some (.jsonRedirect "https://app.example/cb" [("code", secretText codePrefix 7)]) ∧
      Steps Ahead (Provider.run sampleOidc Provider.empty (secondLogin 6)).past ∧
      Steps InOrder (Provider.run sampleOidc Provider.empty (secondLogin 6)).past := by
    decide +kernel
  exact ⟨hrun.1, countersRise sampleOidc counterRule_sampleOidc (secondLogin 6) hrun.2.1 hrun.2.2⟩

theorem not_countersRise_clone :
    ¬CountersRise (Provider.run sampleOidc Provider.empty (secondLogin 5)) := by
  have hrun : ((Provider.run sampleOidc Provider.empty (secondLogin 5)).past[22]?.any fun e =>
        AcceptsLogin e (14 : Uuid).toString [1] 5) = true ∧
      (((Provider.run sampleOidc Provider.empty (secondLogin 5)).past.drop 23)[13]?.any fun e =>
        StartsLogin e (19 : Uuid).toString ∧ e.thread = 10) = true ∧
      ((((Provider.run sampleOidc Provider.empty (secondLogin 5)).past.drop 23).drop 14)[4]?.any
        fun e => AcceptsLogin e (19 : Uuid).toString [1] 5) = true ∧
      ∀ y ∈ (Provider.run sampleOidc Provider.empty (secondLogin 5)).past.take 22,
        y.thread ≠ 10 := by decide +kernel
  generalize Provider.run sampleOidc Provider.empty (secondLogin 5) = s at hrun
  obtain ⟨hfirst, hstart, hsecond, hbefore⟩ := hrun
  intro hrise
  obtain ⟨u, hu, hfirst⟩ := (Option.any_eq_true _ _).mp hfirst
  obtain ⟨start, hs, hstart⟩ := (Option.any_eq_true _ _).mp hstart
  obtain ⟨u', hu', hsecond⟩ := (Option.any_eq_true _ _).mp hsecond
  obtain ⟨hstarts, hthread⟩ := of_decide_eq_true hstart
  have hsplit : s.past = s.past.take 22 ++ u :: (s.past.drop 23).take 13 ++
      start :: ((s.past.drop 23).drop 14).take 4 ++ u' :: ((s.past.drop 23).drop 14).drop 5 := by
    rw [List.append_assoc, List.cons_append, List.append_assoc, List.cons_append,
      ← split_at hu', ← split_at hs, ← split_at hu]
  have hless := hrise.cloned hsplit (of_decide_eq_true hfirst) (by decide) hstarts
    (by rwa [hthread]) (of_decide_eq_true hsecond)
  exact absurd hless (by decide)

end Owney
