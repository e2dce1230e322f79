import Owney.FederationReplay

/-!
# The clock of a signed request

`verify_request` subtracts a timestamp that the sender chose from the receiver's clock, takes the
absolute value, and later adds the window to the clock again, all in `i64`. A release build wraps
a result that is out of range, a debug build panics (`Build`).

* `verifyExact` is the program with integers that have no range.
* `verifyRequest?_eq_iff` — both builds behave as it does exactly while the distance of the two
  times and the end of the window are in range.
-/

namespace Owney

open Programs

/-! ## Builds -/

/-- How the crate was built. -/
inductive Build where
  | release
  | debug
  deriving DecidableEq, Repr

/-- The result of an operation on `i64`s; none is a panic. -/
def Build.i64 : Build → ℤ → Option ℤ
  | release, n => some (wrap64 n)
  | debug, n => if wrap64 n = n then some n else none

/-- `(now - timestamp).abs() > TIMESTAMP_SKEW_SECS`. -/
def Build.stale (b : Build) (now timestamp : ℤ) : Option Bool := do
  let distance ← b.i64 (now - timestamp)
  let size ← b.i64 |distance|
  return decide (size > timestampSkewSecs)

/-- `now_secs() + TIMESTAMP_SKEW_SECS`. -/
def Build.expiresAt (b : Build) (now : ℤ) : Option ℤ := b.i64 (now + timestampSkewSecs)

/-- Whether a timestamp is stale, over integers without a range. -/
def exactStale (now timestamp : ℤ) : Option Bool :=
  some (decide (timestampSkewSecs < |now - timestamp|))

/-- The end of the window, over integers without a range. -/
def exactExpiry (now : ℤ) : Option ℤ := some (now + timestampSkewSecs)

/-! ## Results in range -/

/-- An `i64` can hold it. -/
def IsI64 (n : ℤ) : Prop := -2 ^ 63 ≤ n ∧ n < 2 ^ 63

theorem wrap64_eq_iff {n : ℤ} : wrap64 n = n ↔ IsI64 n := by
  refine ⟨fun h => ?_, fun h => wrap64_of_bounds h.1 h.2⟩
  have hlow := @Int.le_bmod n (2 ^ 64) (by decide)
  have hhigh := @Int.bmod_lt n (2 ^ 64) (by decide)
  rw [wrap64] at h
  rw [h] at hlow hhigh
  exact ⟨by omega, by omega⟩

theorem Build.i64_eq (b : Build) {n : ℤ} (h : IsI64 n) : b.i64 n = some n := by
  cases b with
  | release => rw [Build.i64, wrap64_eq_iff.mpr h]
  | debug => rw [Build.i64, if_pos (wrap64_eq_iff.mpr h)]

theorem Build.i64_debug {n : ℤ} (h : ¬IsI64 n) : Build.debug.i64 n = none := by
  rw [Build.i64, if_neg fun he => h (wrap64_eq_iff.mp he)]

/-- While the distance is in range, every build compares it. -/
theorem Build.stale_eq (b : Build) {now timestamp : ℤ} (h : |now - timestamp| < 2 ^ 63) :
    b.stale now timestamp = exactStale now timestamp := by
  obtain ⟨hlow, hhigh⟩ := abs_lt.mp h
  have hsize : IsI64 |now - timestamp| := ⟨by have := abs_nonneg (now - timestamp); omega, h⟩
  simp [Build.stale, exactStale, b.i64_eq ⟨hlow.le, hhigh⟩, b.i64_eq hsize]

theorem exactStale_of_le {now timestamp : ℤ} (h : |now - timestamp| ≤ timestampSkewSecs) :
    exactStale now timestamp = some false := by
  rw [exactStale, decide_eq_false (not_lt.mpr h)]

theorem exactStale_of_lt {now timestamp : ℤ} (h : timestampSkewSecs < |now - timestamp|) :
    exactStale now timestamp = some true := by
  rw [exactStale, decide_eq_true h]

/-- Out of range, a debug build panics: in the subtraction, or in the absolute value of
`i64::MIN`. -/
theorem Build.stale_debug {now timestamp : ℤ} (h : ¬|now - timestamp| < 2 ^ 63) :
    Build.debug.stale now timestamp = none := by
  by_cases hd : IsI64 (now - timestamp)
  · simp [Build.stale, Build.i64_eq _ hd, Build.i64_debug fun hs : IsI64 _ => h hs.2]
  · simp [Build.stale, Build.i64_debug hd]

section Verify

variable {Cert : Type} (P : FedCrates Cert)

/-- The last part of `verify_request`, which records the nonce; the answer is none where the end
of the window panics. -/
def recordNonce (expires : ℤ → Option ℤ) (signed : SignedHeaders) (fingerprint : String) :
    FedProg (Option (Except Rejection VerifiedPeer)) := do
  let now ← fed .nowSecs
  match expires now with
  | none => return none
  | some expiresAt =>
    match ← fed (.checkAndRecordNonce fingerprint signed.nonce expiresAt) with
    | .error _ => return some (.error .malformed)
    | .ok false => return some (.error .replay)
    | .ok true => return some (.ok ⟨signed.senderDomain, fingerprint⟩)

/-- The part before it, which looks up the peer and checks the signature. -/
def checkPeer (expires : ℤ → Option ℤ) (publicUrl : String) (method : Method)
    (pathAndQuery : String) (body : List UInt8) (signed : SignedHeaders) :
    FedProg (Option (Except Rejection VerifiedPeer)) := do
  match ← fed (.federationPeer signed.senderDomain) with
  | .error _ => return some (.error .malformed)
  | .ok none => return some (.error .unknownPeer)
  | .ok (some peer) =>
    match P.certFromBytes peer.cert with
    | .error _ => return some (.error .unknownPeer)
    | .ok cert =>
      let canonical := canonicalString P method.asStr pathAndQuery signed.senderDomain
        (hostOf P publicUrl) signed.timestamp signed.nonce body
      if (P.verifyDetached cert canonical signed.signature).getD false = false then
        return some (.error .badSignature)
      recordNonce expires signed peer.fingerprint

/-- `verify_request` with its test of the timestamp and its end of the window. -/
def verifyWith (stale : ℤ → ℤ → Option Bool) (expires : ℤ → Option ℤ) (publicUrl : String)
    (method : Method) (pathAndQuery : String) (headers : FedHeaders) (body : List UInt8) :
    FedProg (Option (Except Rejection VerifiedPeer)) :=
  match headers.check P with
  | .error rejection => return some (.error rejection)
  | .ok signed => do
    let now ← fed .nowSecs
    match stale now signed.timestamp with
    | none => return none
    | some true => return some (.error .staleTimestamp)
    | some false => checkPeer P expires publicUrl method pathAndQuery body signed

variable (publicUrl : String) (method : Method) (pathAndQuery : String) (headers : FedHeaders)
  (body : List UInt8)

/-- `verify_request` as a build runs it. -/
def verifyRequest? (b : Build) : FedProg (Option (Except Rejection VerifiedPeer)) :=
  verifyWith P b.stale b.expiresAt publicUrl method pathAndQuery headers body

/-- `verify_request` over integers without a range: a request is stale when its timestamp is
more than the window away from the clock. -/
def verifyExact : FedProg (Option (Except Rejection VerifiedPeer)) :=
  verifyWith P exactStale exactExpiry publicUrl method pathAndQuery headers body

/-! ## Runs -/

section Runs

variable {W : Type} (exec : (o : FedOp) → W → o.Ret × W) (w : W)

/-- The request is signed by the peer that the store returns for its server. -/
def SignedBy (signed : SignedHeaders) (found : Except StorageError (Option PeerServer)) : Prop :=
  ∃ peer cert, found = .ok (some peer) ∧ P.certFromBytes peer.cert = .ok cert ∧
    P.verifyDetached cert (canonicalString P method.asStr pathAndQuery signed.senderDomain
      (hostOf P publicUrl) signed.timestamp signed.nonce body) signed.signature = some true

/-- Recording a nonce is exact where the window can be added to the clock. -/
theorem recordNonce_eq_iff {signed : SignedHeaders} {fingerprint : String} :
    (∀ b : Build, (recordNonce b.expiresAt signed fingerprint).alone exec w =
      (recordNonce exactExpiry signed fingerprint).alone exec w) ↔
      IsI64 ((exec .nowSecs w).1 + timestampSkewSecs) := by
  simp only [recordNonce, fed, Prog.alone_bind, Prog.alone_op, exactExpiry, Build.expiresAt]
  refine ⟨fun h => ?_, fun h b => by rw [b.i64_eq h]; simp only [Prog.alone_bind, Prog.alone_op]⟩
  by_contra hout
  have hdebug := congrArg Prod.fst (h .debug)
  rw [Build.i64_debug hout] at hdebug
  revert hdebug
  rcases (exec (.checkAndRecordNonce fingerprint signed.nonce
    ((exec .nowSecs w).1 + timestampSkewSecs)) (exec .nowSecs w).2).1 with error | _ | _
  · exact nofun
  · exact nofun
  · exact nofun

/-- Checking the peer is exact unless that fails for a request the peer has signed. -/
theorem checkPeer_eq_iff {signed : SignedHeaders} :
    (∀ b : Build,
      (checkPeer P b.expiresAt publicUrl method pathAndQuery body signed).alone exec w =
        (checkPeer P exactExpiry publicUrl method pathAndQuery body signed).alone exec w) ↔
      (SignedBy P publicUrl method pathAndQuery body signed
          (exec (.federationPeer signed.senderDomain) w).1 →
        IsI64 ((exec .nowSecs (exec (.federationPeer signed.senderDomain) w).2).1 +
          timestampSkewSecs)) := by
  simp only [checkPeer, fed, Prog.alone_bind, Prog.alone_op]
  rcases (exec (.federationPeer signed.senderDomain) w).1 with error | _ | peer
  · simp [SignedBy]
  · simp [SignedBy]
  rcases hcert : P.certFromBytes peer.cert with error | cert
  · simp [SignedBy, hcert]
  have hsigned : SignedBy P publicUrl method pathAndQuery body signed (.ok (some peer)) ↔
      P.verifyDetached cert (canonicalString P method.asStr pathAndQuery signed.senderDomain
        (hostOf P publicUrl) signed.timestamp signed.nonce body) signed.signature = some true := by
    simp [SignedBy, hcert]
  rw [hsigned]
  simp only [hcert]
  rcases P.verifyDetached cert (canonicalString P method.asStr pathAndQuery signed.senderDomain
    (hostOf P publicUrl) signed.timestamp signed.nonce body) signed.signature with _ | _ | _
  · simp
  · simp
  · simpa using recordNonce_eq_iff exec _

/-- What the clock must show in a run, which starts at `w`: a time whose distance to the timestamp
is in range; and, when the request is fresh and signed by a pinned peer, so that the clock is read
again, a time to which the window can be added. -/
def ClockInRange : Prop :=
  ∀ signed, headers.check P = .ok signed →
    let now := exec .nowSecs w
    let found := exec (.federationPeer signed.senderDomain) now.2
    let later := exec .nowSecs found.2
    |now.1 - signed.timestamp| < 2 ^ 63 ∧
      (|now.1 - signed.timestamp| ≤ timestampSkewSecs →
        SignedBy P publicUrl method pathAndQuery body signed found.1 →
        IsI64 (later.1 + timestampSkewSecs))

/-- **Exact freshness.** Both builds do what the program over unbounded integers does exactly
while the clock is in range. -/
theorem verifyRequest?_eq_iff :
    (∀ b, (verifyRequest? P publicUrl method pathAndQuery headers body b).alone exec w =
      (verifyExact P publicUrl method pathAndQuery headers body).alone exec w) ↔
      ClockInRange P publicUrl method pathAndQuery headers body exec w := by
  simp only [verifyRequest?, verifyExact, verifyWith, ClockInRange]
  rcases headers.check P with rejection | signed
  · simp
  simp only [fed, Prog.alone_bind, Prog.alone_op, Except.ok.injEq, forall_eq']
  by_cases hrange : |(exec .nowSecs w).1 - signed.timestamp| < 2 ^ 63
  · simp only [Build.stale_eq _ hrange, hrange, true_and]
    by_cases hfresh : |(exec .nowSecs w).1 - signed.timestamp| ≤ timestampSkewSecs
    · rw [exactStale_of_le hfresh]
      simpa [hfresh] using checkPeer_eq_iff P publicUrl method pathAndQuery body exec _
    · rw [exactStale_of_lt (not_le.mp hfresh)]
      simp [hfresh]
  · refine ⟨fun h => ?_, fun h => absurd h.1 hrange⟩
    have hdebug := congrArg Prod.fst (h .debug)
    rw [Build.stale_debug hrange, exactStale_of_lt (lt_of_lt_of_le (by decide) (not_lt.mp hrange))]
      at hdebug
    exact absurd hdebug nofun

end Runs

end Verify

/-! ## The wrapped distance -/

/-- A request that is stamped 2^63 seconds before the clock. -/
def farStamp : FedHeaders :=
  ⟨some "1", some "a.test", some "-9223372035154775808", some "n", some ""⟩

/-- A server without peers, in November 2023. -/
def noPeers : (o : FedOp) → Unit → o.Ret × Unit
  | .nowSecs, _ => (1700000000, ())
  | .federationPeer _, _ => (.ok none, ())
  | .checkAndRecordNonce .., _ => (.ok true, ())
  | .upsertFederationPeer .., _ => (.ok false, ())
  | .pruneExpiredNonces _, _ => (.ok 0, ())
  | .getUnsigned _, _ => (none, ())
  | .tick _, _ => ((), ())

/-- The release build goes on to look for its sender, and the debug build panics. -/
theorem not_exact_farStamp :
    ¬∀ b, (verifyRequest? FedCrates.sample "https://b.test" .get "/sync" farStamp [] b).alone
        noPeers () =
      (verifyExact FedCrates.sample "https://b.test" .get "/sync" farStamp []).alone
        noPeers () := by
  intro h
  have hrelease := congrArg Prod.fst (h .release)
  exact absurd hrelease (by decide +kernel)

end Owney
