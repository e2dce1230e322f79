import Owney.FederationPins

/-!
# Replays

The nonce of an accepted request is remembered until the receiver's clock at acceptance
plus the window, but its timestamp stays fresh until the timestamp plus the window. So a
stamp from the receiver's present second, or from its future, is still fresh when its nonce
is pruned, and the request is accepted again. Where each prune only forgets nonces whose
timestamp is stale from then on, no signed request is accepted twice.
-/

namespace Owney

open Programs Tables

variable {Cert : Type} {P : FedCrates Cert} {past pre mid post : List FedEvent} {w w' : FedWorld}
  {e y g : FedEvent}

/-! ## The law and the conditions -/

variable (P) in
/-- The request of the program, from this sender with this nonce, was accepted. -/
def AcceptedAs (s : FedServer) (i : ℕ) (sender nonce : String) : Prop :=
  ∃ request signed peer, s.request i = some request ∧ request.signed P = some signed ∧
    signed.senderDomain = sender ∧ signed.nonce = nonce ∧
    s.answer i = some (.verified (.ok peer))

variable (P) in
/-- No signed request is accepted twice. -/
def ReplayFree (s : FedServer) : Prop :=
  ∀ i j sender nonce, AcceptedAs P s i sender nonce → AcceptedAs P s j sender nonce → i = j

variable (P) in
/-- What the call accepts, and until when it is remembered. -/
def accepted (e : FedEvent) : Option (SignedHeaders × ℤ) :=
  match e.call with
  | ⟨.checkAndRecordNonce _ _ expiresAt, .ok true⟩ =>
    (e.req.signed P).map fun signed => (signed, expiresAt)
  | _ => none

/-- From now on the timestamp is not fresh. -/
def Lapsed (timestamp now : ℤ) : Prop :=
  ∀ later, now ≤ later → later < 2 ^ 63 → ¬Fresh later timestamp

variable (P) in
/-- A prune forgets accepted requests only when their timestamps are stale for good. -/
def PrunesLapsed (pre : List FedEvent) (e : FedEvent) : Prop :=
  match e.call with
  | ⟨.pruneExpiredNonces now, .ok _⟩ => ∀ y ∈ pre, match accepted P y with
    | some (signed, expiresAt) => expiresAt ≤ now → Lapsed signed.timestamp now
    | none => True
  | _ => True

variable (P) in
/-- A request that uses the nonce of an accepted request again, after a prune has forgotten
it, has its timestamp and did not start its checks before the prune. -/
def ReusesForgotten (pre : List FedEvent) (e : FedEvent) : Prop :=
  match accepted P e with
  | some (signed, _) => Steps (fun pre' g => match g.call with
    | ⟨.pruneExpiredNonces now, .ok _⟩ => ∀ y ∈ pre', match accepted P y with
      | some (signed', expiresAt') => signed'.senderDomain = signed.senderDomain →
        signed'.nonce = signed.nonce → expiresAt' ≤ now →
          signed'.timestamp = signed.timestamp ∧ ∀ f ∈ pre', f.thread ≠ e.thread
      | none => True
    | _ => True) pre
  | none => True

/-! ## What is remembered -/

/-- The nonces after a call: those from before, one more, or those that a prune leaves. -/
theorem FedEffect.nonces {call : Call FedOp.Ret} (h : FedEffect P w call w') :
    (∀ r ∈ w.db.nonces, r ∈ w'.db.nonces) ∨ ∃ now count,
      call = ⟨.pruneExpiredNonces now, .ok count⟩ ∧
      ∀ r ∈ w.db.nonces, now < r.expiresAt → r ∈ w'.db.nonces := by
  cases h with
  | kept _ db | pinned _ db => exact .inl fun r hr => by rwa [db]
  | recorded _ _ db => exact .inl fun r hr => by rw [db]; exact List.mem_append_left _ hr
  | pruned made db =>
    refine .inr ⟨_, _, made, fun r hr hlater => ?_⟩
    rw [db]
    exact List.mem_filter.mpr ⟨hr, by simpa using hlater⟩

/-- What an accepting call knew and did. -/
theorem of_accepted (hat : FedAt P past e) {signed : SignedHeaders} {expiresAt : ℤ}
    (h : accepted P e = some (signed, expiresAt)) :
    ∃ peer now, e.req.signed P = some signed ∧
      e.call = ⟨.checkAndRecordNonce peer.fingerprint signed.nonce expiresAt, .ok true⟩ ∧
      Made (callsOf e.thread past) .nowSecs now ∧ Fresh now signed.timestamp ∧
      Made (callsOf e.thread past) (.federationPeer signed.senderDomain) (.ok (some peer)) ∧
      e.before.db.hasNonce peer.fingerprint signed.nonce = false ∧
      ⟨peer.fingerprint, signed.nonce, expiresAt⟩ ∈ e.after.db.nonces := by
  unfold accepted at h
  split at h
  swap
  · cases h
  rename_i senderFp nonce expires hcall
  obtain ⟨signed₀, hsigned, hpair⟩ := Option.map_eq_some_iff.mp h
  obtain ⟨rfl, rfl⟩ := Prod.mk.inj hpair
  have hguard := hat.guard
  rw [hcall] at hguard
  obtain ⟨signed', peer, cert, now, hsigned', rfl, hnow, hfresh, hpeer, rfl, -⟩ := hguard
  obtain rfl := Option.some.inj (hsigned.symm.trans hsigned')
  have heffect := at_effect hat
  rw [hcall] at heffect
  cases heffect with
  | kept quiet => cases quiet
  | pruned made | pinned made => cases made
  | recorded made new db =>
    cases made
    exact ⟨peer, now, hsigned, hcall, hnow, hfresh, hpeer, new, by rw [db]; simp⟩

/-- The pinned fingerprint a program was told is pinned. -/
theorem peer_of_made {i : ℕ} (h : FedPast P past w) (hkeeps : Steps (KeepsPin P) past)
    {domain : String} {peer : PeerServer}
    (hmade : Made (callsOf i past) (.federationPeer domain) (.ok (some peer))) :
    ∃ r ∈ w.db.peers, r.domain = P.domainKey domain ∧ r.fingerprint = peer.fingerprint := by
  obtain ⟨f, hf, -, hcall⟩ := mem_callsOf.mp hmade
  obtain ⟨pre, post, hsplit, hat⟩ := h.exists_at hf
  have hfind := peer_of_lookup hat hcall
  obtain ⟨r, hr, hdomain, hprint⟩ :=
    keptIn_of_past h hkeeps hf peer (List.mem_of_find?_eq_some hfind)
  exact ⟨r, hr, hdomain.trans (by simpa using List.find?_some hfind), hprint⟩

/-- **No replay.** Two calls do not accept requests with one sender and one nonce. -/
theorem accepted_once (h : FedPast P past w) (hkeeps : Steps (KeepsPin P) past)
    (hlapsed : Steps (PrunesLapsed P) past) (hreuse : Steps (ReusesForgotten P) past)
    {signed signed' : SignedHeaders} {expiresAt expiresAt' : ℤ}
    (hsplit : past = pre ++ y :: mid ++ e :: post) (hy : accepted P y = some (signed, expiresAt))
    (he : accepted P e = some (signed', expiresAt'))
    (hsender : signed.senderDomain = signed'.senderDomain) (hnonce : signed.nonce = signed'.nonce) :
    False := by
  have hsplit₁ : past = pre ++ y :: (mid ++ e :: post) := by simp [hsplit]
  have hsplit₂ : past = (pre ++ y :: mid) ++ e :: post := by simp [hsplit]
  have haty := h.at_of_split hsplit₁
  have hate := h.at_of_split hsplit₂
  obtain ⟨peer, now, -, -, -, -, hpeer, -, hrow⟩ := of_accepted haty hy
  obtain ⟨peer', now', -, -, hnow', hfresh', hpeer', hnew, -⟩ := of_accepted hate he
  -- Both requests were looked up under one fingerprint.
  have hkeeps' : Steps (KeepsPin P) (pre ++ y :: mid) := by
    rw [hsplit₂] at hkeeps
    exact hkeeps.of_append
  have hprint : peer.fingerprint = peer'.fingerprint := by
    have hmade : Made (callsOf y.thread (pre ++ y :: mid)) (.federationPeer signed.senderDomain)
        (.ok (some peer)) := by
      rw [callsOf_append]
      exact hpeer.append
    obtain ⟨r, hr, hdomain, hr'⟩ := peer_of_made hate.earlier hkeeps' hmade
    obtain ⟨r₂, hr₂, hdomain₂, hr₂'⟩ := peer_of_made hate.earlier hkeeps' hpeer'
    rw [← hr', ← hr₂', eq_of_key_eq (peers_nodup hate.earlier) hr hr₂
      (by rw [hdomain, hdomain₂, hsender])]
  -- So a prune in between has forgotten the nonce.
  have hpruned : ∃ mid₁ g mid₂ p count, mid = mid₁ ++ g :: mid₂ ∧
      g.call = ⟨.pruneExpiredNonces p, .ok count⟩ ∧ expiresAt ≤ p := by
    by_contra hnone
    have hkept := hate.earlier.persists
      (J := fun w => ⟨peer.fingerprint, signed.nonce, expiresAt⟩ ∈ w.db.nonces) rfl ?_ hrow
    · rw [Bool.eq_false_iff] at hnew
      exact hnew (List.any_eq_true.mpr ⟨_, hkept, by simp [hprint, hnonce]⟩)
    · rintro mid₁ g mid₂ hmid hatg hmem
      rcases (at_effect hatg).nonces with hall | ⟨p, count, hcall, hall⟩
      · exact hall _ hmem
      · exact hall _ hmem (not_le.mp fun hle => hnone ⟨mid₁, g, mid₂, p, count, hmid, hcall, hle⟩)
  obtain ⟨mid₁, g, mid₂, p, count, rfl, hgcall, hexpired⟩ := hpruned
  have hsplit₃ : past = (pre ++ y :: mid₁) ++ g :: (mid₂ ++ e :: post) := by simp [hsplit]
  -- The later request has the timestamp of the earlier one, and was checked after the prune.
  have hsame := hreuse _ e post hsplit₂
  simp only [ReusesForgotten, he] at hsame
  have hsame := hsame (pre ++ y :: mid₁) g mid₂ (by simp)
  simp only [hgcall] at hsame
  have hsame := hsame y (by simp)
  simp only [hy] at hsame
  obtain ⟨htime, hlater⟩ := hsame hsender hnonce hexpired
  have hstale := hlapsed (pre ++ y :: mid₁) g (mid₂ ++ e :: post) hsplit₃
  simp only [PrunesLapsed, hgcall] at hstale
  have hstale := hstale y (by simp)
  simp only [hy] at hstale
  -- But then its timestamp was not fresh.
  have hatg := h.at_of_split hsplit₃
  have hguard := hatg.guard
  rw [hgcall] at hguard
  obtain ⟨prg, c, restg, hc, -, rfl, -⟩ := now_of_made hatg.earlier hguard
  have hread : c.before.now ≤ g.before.now := now_le hatg.earlier hc
  obtain ⟨prf, f, restf, hf, hthread, rfl, hatf⟩ := now_of_made hate.earlier hnow'
  have hchecked : g.before.now ≤ f.before.now := by
    have hboth : (pre ++ y :: mid₁) ++ g :: mid₂ = prf ++ f :: restf := by
      rw [← hf]
      simp
    rcases split_cases hboth with hbefore | ⟨-, rfl⟩ | ⟨m, rfl⟩
    · exact absurd hthread (hlater f hbefore)
    · exact le_rfl
    · exact now_le hatf.earlier rfl
  refine hstale hexpired f.before.now (by exact_mod_cast hread.trans hchecked)
    (by exact_mod_cast f.before.now_lt) ?_
  rw [htime]
  exact hfresh'

/-- **Replay protection** in every run in which a prune only forgets nonces whose timestamp is
stale for good, forgotten nonces are used for the same request, which is checked after the
prune, and pins do not change. -/
theorem replayFree (P : FedCrates Cert) (ms : List FedMove)
    (hlapsed : Steps (PrunesLapsed P) (FedServer.run P FedServer.empty ms).past)
    (hreuse : Steps (ReusesForgotten P) (FedServer.run P FedServer.empty ms).past)
    (hkeeps : Steps (KeepsPin P) (FedServer.run P FedServer.empty ms).past) :
    ReplayFree P (FedServer.run P FedServer.empty ms) := by
  have hspec := FedServer.run_specified (P := P) ms
  generalize FedServer.run P FedServer.empty ms = s at hlapsed hreuse hkeeps hspec
  -- An accepted request has its call.
  have hcall : ∀ {i sender nonce}, AcceptedAs P s i sender nonce → ∃ e ∈ s.past, e.thread = i ∧
      ∃ signed expiresAt, accepted P e = some (signed, expiresAt) ∧
        signed.senderDomain = sender ∧ signed.nonce = nonce := by
    rintro i sender nonce ⟨request, signed, peer, hrequest, hsigned, rfl, rfl, hanswer⟩
    obtain ⟨r, hr, signed', expiresAt, hsigned', -, hmade⟩ := hspec.answered hanswer
    obtain rfl := Option.some.inj (hrequest.symm.trans hr)
    obtain rfl := Option.some.inj (hsigned.symm.trans hsigned')
    obtain ⟨e, he, hthread, hecall⟩ := mem_callsOf.mp hmade
    have hreq : e.req = request := by
      have hstarted := hspec.started e he
      rw [hthread, hrequest] at hstarted
      exact (Option.some.inj hstarted).symm
    refine ⟨e, he, hthread, signed, expiresAt, ?_, rfl, rfl⟩
    simp only [accepted, hecall, hreq, hsigned, Option.map_some]
  intro i j sender nonce hi hj
  obtain ⟨e, he, rfl, signed, expiresAt, hacc, hsender, hnonce⟩ := hcall hi
  obtain ⟨e', he', rfl, signed', expiresAt', hacc', hsender', hnonce'⟩ := hcall hj
  by_contra hne
  rcases before_or_after he he' (fun heq => hne (by rw [heq])) with
    ⟨pre, mid, post, hsplit⟩ | ⟨pre, mid, post, hsplit⟩
  · exact accepted_once hspec.past hkeeps hlapsed hreuse hsplit hacc hacc'
      (hsender.trans hsender'.symm) (hnonce.trans hnonce'.symm)
  · exact accepted_once hspec.past hkeeps hlapsed hreuse hsplit hacc' hacc
      (hsender'.trans hsender.symm) (hnonce'.trans hnonce.symm)

/-! ## Stamps of the past -/

theorem wrap64_of_bounds {n : ℤ} (hlow : -2 ^ 63 ≤ n) (hhigh : n < 2 ^ 63) : wrap64 n = n := by
  rw [wrap64, Int.bmod_eq_of_le] <;> omega

/-- A timestamp after 1970 is stale once the window is over. -/
theorem lapsed_of_lt {timestamp now : ℤ} (hpos : 0 ≤ timestamp)
    (hover : timestamp + timestampSkewSecs < now) : Lapsed timestamp now := by
  intro later hle hlt hfresh
  rw [timestampSkewSecs] at hover
  have hinner : wrap64 (later - timestamp) = later - timestamp :=
    wrap64_of_bounds (by omega) (by omega)
  rw [Fresh, hinner, abs_of_nonneg (by omega), hinner, timestampSkewSecs] at hfresh
  omega

/-! ### A stamp of the present second -/

instance (pre : List FedEvent) (e : FedEvent) : Decidable (ReusesForgotten P pre e) := by
  unfold ReusesForgotten
  split
  · refine @Steps.decidable _ _ ?_ _
    intro pre' g
    generalize g.call = call
    obtain ⟨op, res⟩ := call
    cases_type FedOp <;> try infer_instance
    rcases res with _ | _
    · infer_instance
    · refine @List.decidableBAll _ _ ?_ _
      intro y
      dsimp only
      rcases accepted P y with _ | _ <;> infer_instance
  · infer_instance

instance (pre : List FedEvent) (e : FedEvent) : Decidable (KeepsPin P pre e) := by
  unfold KeepsPin
  generalize e.call = call
  obtain ⟨op, res⟩ := call
  cases_type FedOp <;> try infer_instance
  rcases res with _ | _ <;> infer_instance

/-- Accepted requests are forgotten when their stamps, from after 1970, are out of the window. -/
def PrunesLate (pre : List FedEvent) (e : FedEvent) : Prop :=
  match e.call with
  | ⟨.pruneExpiredNonces now, .ok _⟩ => ∀ y ∈ pre, match accepted FedCrates.sample y with
    | some (signed, expiresAt) =>
      expiresAt ≤ now → 0 ≤ signed.timestamp ∧ signed.timestamp + timestampSkewSecs < now
    | none => True
  | _ => True

theorem PrunesLate.lapsed (h : PrunesLate pre e) : PrunesLapsed FedCrates.sample pre e := by
  unfold PrunesLate at h
  unfold PrunesLapsed
  split at h
  · intro y hy
    have hlate := h y hy
    split at hlate
    · exact fun hle => lapsed_of_lt (hlate hle).1 (hlate hle).2
    · trivial
  · trivial

instance (pre : List FedEvent) (e : FedEvent) : Decidable (PrunesLate pre e) := by
  unfold PrunesLate
  generalize e.call = call
  obtain ⟨op, res⟩ := call
  cases_type FedOp <;> try infer_instance
  rcases res with _ | _
  · infer_instance
  · refine @List.decidableBAll _ _ ?_ _
    intro y
    dsimp only
    rcases accepted FedCrates.sample y with _ | _ <;> infer_instance

/-- A request from `a.test`, signed with the certificate `[1]`. -/
def sampleSigned (timestamp : ℤ) : FedRequest :=
  .verify "https://b.test" .get "/sync" ⟨some "1", some "a.test", some timestamp.repr, some "n",
    some (sampleEncode ([1] ++ (canonicalString FedCrates.sample "GET" "/sync" "a.test" "b.test"
      timestamp "n" []).toList.map fun c => UInt8.ofNat c.toNat))⟩ []

/-- At 1000, a pin and a request with this stamp; at 1300 a prune, and the request again. -/
def replayRun (timestamp : ℤ) : List FedMove :=
  [.start (.tick 1000)] ++ fedCalls 0 [{}] ++
  [.start (.discover "a.test" none)] ++ fedCalls 1 [sampleMetadata [1], {}, {}, {}] ++
  [.start (sampleSigned timestamp)] ++ fedCalls 2 [{}, {}, {}, {}] ++
  [.start (.tick 300)] ++ fedCalls 3 [{}] ++
  [.start .prune] ++ fedCalls 4 [{}, {}] ++
  [.start (sampleSigned timestamp)] ++ fedCalls 5 [{}, {}, {}, {}]

theorem replayFree_pastStamp :
    ReplayFree FedCrates.sample
      (FedServer.run FedCrates.sample FedServer.empty (replayRun 999)) := by
  have hrun : Steps PrunesLate
        (FedServer.run FedCrates.sample FedServer.empty (replayRun 999)).past ∧
      Steps (ReusesForgotten FedCrates.sample)
        (FedServer.run FedCrates.sample FedServer.empty (replayRun 999)).past ∧
      Steps (KeepsPin FedCrates.sample)
        (FedServer.run FedCrates.sample FedServer.empty (replayRun 999)).past := by
    decide +kernel
  exact replayFree FedCrates.sample (replayRun 999)
    (fun pre e post hsplit => (hrun.1 pre e post hsplit).lapsed) hrun.2.1 hrun.2.2

theorem not_replayFree_presentStamp :
    ¬ReplayFree FedCrates.sample
      (FedServer.run FedCrates.sample FedServer.empty (replayRun 1000)) := by
  have hrun : ∀ i ∈ [2, 5],
      (FedServer.run FedCrates.sample FedServer.empty (replayRun 1000)).request i =
        some (sampleSigned 1000) ∧
      (FedServer.run FedCrates.sample FedServer.empty (replayRun 1000)).answer i =
        some (.verified (.ok ⟨"a.test", sampleEncode [1]⟩)) ∧
      ((sampleSigned 1000).signed FedCrates.sample).map (fun s => (s.senderDomain, s.nonce)) =
        some ("a.test", "n") := by decide +kernel
  have haccepted : ∀ i ∈ [2, 5], AcceptedAs FedCrates.sample
      (FedServer.run FedCrates.sample FedServer.empty (replayRun 1000)) i "a.test" "n" := by
    intro i hi
    obtain ⟨hrequest, hanswer, hsigned⟩ := hrun i hi
    obtain ⟨signed, hsigned, hpair⟩ := Option.map_eq_some_iff.mp hsigned
    obtain ⟨hsender, hnonce⟩ := Prod.mk.inj hpair
    exact ⟨_, signed, _, hrequest, hsigned, hsender, hnonce, hanswer⟩
  intro hfree
  exact absurd (hfree 2 5 _ _ (haccepted 2 (by simp)) (haccepted 5 (by simp))) (by decide)

end Owney
