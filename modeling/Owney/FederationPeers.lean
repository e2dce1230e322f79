import Owney.FedRequest
import Owney.Lib.Programs
import Owney.Lib.Tables
import Owney.Transaction

/-!
# Pinned peers and seen nonces

What the programs of the federation share: the certificates pinned for peer domains, the
nonces seen so far (`federation_store.rs`), the clock and the network. `verifyRequest` and
`discoverAndPin` are the programs (`fed_sig.rs`, `federation.rs`); between two of their
calls any other may make any number of theirs.
-/

namespace Owney

open Programs Tables

/-! ## The store -/

/-- `PeerServer`: a row of `federation_peers`, without `last_seen`, which nothing reads. -/
structure PeerServer where
  domain : String
  serverUrl : String
  cert : List UInt8
  fingerprint : String
  pinnedAt : ℤ
  deriving DecidableEq, Repr

/-- A row of `federation_replay_nonce`. -/
structure ReplayNonceRow where
  senderFp : String
  nonce : String
  expiresAt : ℤ
  deriving DecidableEq, Repr

/-- The two tables. -/
structure FederationDb where
  peers : List PeerServer
  nonces : List ReplayNonceRow
  deriving DecidableEq, Repr

/-- `Storage::upsert_federation_peer`: whether the fingerprint changed. -/
def upsertFederationPeerTx (io : Io) (domain serverUrl : String) (cert : List UInt8)
    (fingerprint : String) (now : ℤ) : Tx FederationDb Bool := do
  let previous ← Tx.query io 0 fun db => (db.peers.find? (·.domain = domain)).map (·.fingerprint)
  let changed := previous.any (· ≠ fingerprint)
  Tx.exec io 1 fun db =>
    { db with
      peers := upsert (·.domain = domain) (fun r => { r with serverUrl, cert, fingerprint })
        ⟨domain, serverUrl, cert, fingerprint, now⟩ db.peers }
  return changed

/-- `Storage::federation_peer`. -/
def federationPeerTx (io : Io) (domain : String) : Tx FederationDb (Option PeerServer) :=
  Tx.query io 0 fun db => db.peers.find? (·.domain = domain)

/-- The nonce of the sender is in the table. -/
def FederationDb.hasNonce (db : FederationDb) (senderFp nonce : String) : Bool :=
  db.nonces.any fun r => r.senderFp = senderFp ∧ r.nonce = nonce

/-- `Storage::check_and_record_nonce`: whether the row was inserted. -/
def checkAndRecordNonceTx (io : Io) (senderFp nonce : String) (expiresAt : ℤ) :
    Tx FederationDb Bool := do
  let db ← Tx.get
  Tx.exec io 0 fun db =>
    if db.hasNonce senderFp nonce then db
    else { db with nonces := db.nonces ++ [⟨senderFp, nonce, expiresAt⟩] }
  return !db.hasNonce senderFp nonce

/-- `Storage::prune_expired_nonces`: the number of rows deleted. -/
def pruneExpiredNoncesTx (io : Io) (now : ℤ) : Tx FederationDb ℕ := do
  let db ← Tx.get
  Tx.exec io 0 fun db => { db with nonces := db.nonces.filter fun r => ¬r.expiresAt ≤ now }
  return (db.nonces.filter (·.expiresAt ≤ now)).length

/-! ## The calls -/

/-- `ServerMetadata`, as far as it is read; the certificate as the bytes of its text. -/
structure ServerMetadata where
  serverUrl : String
  publicCert : Option (List UInt8)
  deriving DecidableEq, Repr

/-- The clock in seconds, which fits an `i64`, and the tables. -/
structure FedWorld where
  now : ℕ
  now_lt : now < 2 ^ 63
  db : FederationDb
  deriving DecidableEq, Repr

/-- No peers and no nonces. -/
def FedWorld.empty : FedWorld := ⟨0, by decide, [], []⟩

/-- What the outside decides about a call: the statements SQLite fails, and the metadata
that is fetched, if any is. -/
structure FedChoice where
  io : Io := Io.ok
  metadata : Option ServerMetadata := none

/-- A call of a federation program. -/
inductive FedOp where
  /-- `now_secs` -/
  | nowSecs
  | federationPeer (domain : String)
  | checkAndRecordNonce (senderFp nonce : String) (expiresAt : ℤ)
  | pruneExpiredNonces (now : ℤ)
  | upsertFederationPeer (domain serverUrl : String) (cert : List UInt8) (fingerprint : String)
  /-- `get_unsigned`, and reading the answer as metadata -/
  | getUnsigned (url : String)
  | tick (secs : ℕ)
  deriving DecidableEq, Repr

/-- What a call returns. -/
@[reducible] def FedOp.Ret : FedOp → Type
  | nowSecs => ℤ
  | federationPeer _ => Except StorageError (Option PeerServer)
  | checkAndRecordNonce .. | upsertFederationPeer .. => Except StorageError Bool
  | pruneExpiredNonces _ => Except StorageError ℕ
  | getUnsigned _ => Option ServerMetadata
  | tick _ => Unit

/-- One storage call. -/
def FedWorld.call {α : Type} (w : FedWorld) (body : Tx FederationDb α) :
    Except StorageError α × FedWorld :=
  ((transaction body w.db).1, { w with db := (transaction body w.db).2 })

variable {Cert : Type} (P : FedCrates Cert)

/-- The key of a domain: trimmed and in lower case. -/
def FedCrates.domainKey (domain : String) : String := P.unicode.toLowercase (P.unicode.trim domain)

/-- What a call does; the clock stops at the end of time. -/
def FedOp.exec : (o : FedOp) → FedChoice → FedWorld → Option (o.Ret × FedWorld)
  | nowSecs, _, w => some (w.now, w)
  | federationPeer domain, c, w => some (w.call (federationPeerTx c.io (P.domainKey domain)))
  | checkAndRecordNonce senderFp nonce expiresAt, c, w =>
    some (w.call (checkAndRecordNonceTx c.io senderFp nonce expiresAt))
  | pruneExpiredNonces now, c, w => some (w.call (pruneExpiredNoncesTx c.io now))
  | upsertFederationPeer domain serverUrl cert fingerprint, c, w =>
    some (w.call (upsertFederationPeerTx c.io (P.domainKey domain) serverUrl cert fingerprint w.now))
  | getUnsigned _, c, w => some (c.metadata, w)
  | tick secs, _, w =>
    if h : w.now + secs < 2 ^ 63 then some ((), { w with now := w.now + secs, now_lt := h })
    else none

/-! ## Signed requests -/

/-- `TIMESTAMP_SKEW_SECS`. -/
def timestampSkewSecs : ℤ := 300

/-- An `i64` that overflowed. -/
def wrap64 (n : ℤ) : ℤ := n.bmod (2 ^ 64)

/-- The negation of `(now_secs() - timestamp).abs() > TIMESTAMP_SKEW_SECS`. -/
def Fresh (now timestamp : ℤ) : Prop :=
  ¬wrap64 |wrap64 (now - timestamp)| > timestampSkewSecs

instance (now timestamp : ℤ) : Decidable (Fresh now timestamp) :=
  inferInstanceAs (Decidable (¬_))

/-- `str::parse::<i64>`. -/
def parseI64 (s : String) : Option ℤ :=
  let value (sign : ℤ) (digits : List Char) : Option ℤ :=
    let n := sign * Nat.ofDigitChars 10 digits 0
    if digits ≠ [] ∧ digits.all Char.isDigit ∧ -2 ^ 63 ≤ n ∧ n < 2 ^ 63 then some n else none
  match s.toList with
  | '-' :: digits => value (-1) digits
  | '+' :: digits => value 1 digits
  | digits => value 1 digits

/-- The headers of a request, those that `to_str` lets through. -/
structure FedHeaders where
  version : Option String
  server : Option String
  timestamp : Option String
  nonce : Option String
  signature : Option String
  deriving DecidableEq, Repr

/-- `Rejection`. -/
inductive Rejection where
  | missingSignature
  | unknownPeer
  | badSignature
  | staleTimestamp
  | replay
  | malformed
  deriving DecidableEq, Repr

/-- `Rejection::status`. -/
def Rejection.status : Rejection → ℕ
  | missingSignature | badSignature | unknownPeer => 401
  | staleTimestamp | replay | malformed => 400

/-- `Rejection::as_str`. -/
def Rejection.asStr : Rejection → String
  | missingSignature => "missing signature"
  | unknownPeer => "unknown peer"
  | badSignature => "bad signature"
  | staleTimestamp => "stale timestamp"
  | replay => "replay"
  | malformed => "malformed"

/-- What the headers say. -/
structure SignedHeaders where
  senderDomain : String
  timestamp : ℤ
  nonce : String
  signature : List UInt8
  deriving DecidableEq, Repr

/-- The checks of the headers. -/
def FedHeaders.check (headers : FedHeaders) : Except Rejection SignedHeaders := do
  let some version := headers.version | throw .missingSignature
  if version ≠ sigVersion then throw .malformed
  let some server := headers.server | throw .missingSignature
  let some timestamp := headers.timestamp.bind parseI64 | throw .malformed
  let some nonce := headers.nonce | throw .missingSignature
  let some signature := headers.signature | throw .missingSignature
  let some signature := P.b64Decode signature | throw .malformed
  return ⟨P.domainKey server, timestamp, nonce, signature⟩

/-- `VerifiedPeer`. -/
structure VerifiedPeer where
  domain : String
  fingerprint : String
  deriving DecidableEq, Repr

/-- `host_of`. -/
def hostOf (publicUrl : String) : String :=
  ((P.parseUrl publicUrl).bind (·.host)).getD publicUrl

/-- A program of the federation. -/
abbrev FedProg (α : Type) : Type := Prog FedOp.Ret α

/-- One call. -/
def fed (o : FedOp) : FedProg o.Ret := Prog.op o

/-- `verify_request`. -/
def verifyRequest (publicUrl : String) (method : Method) (pathAndQuery : String)
    (headers : FedHeaders) (body : List UInt8) : FedProg (Except Rejection VerifiedPeer) :=
  match headers.check P with
  | .error rejection => return .error rejection
  | .ok signed => do
    let now ← fed .nowSecs
    if ¬Fresh now signed.timestamp then return .error .staleTimestamp
    match ← fed (.federationPeer signed.senderDomain) with
    | .error _ => return .error .malformed
    | .ok none => return .error .unknownPeer
    | .ok (some peer) =>
      match P.certFromBytes peer.cert with
      | .error _ => return .error .unknownPeer
      | .ok cert =>
        let canonical := canonicalString P method.asStr pathAndQuery signed.senderDomain
          (hostOf P publicUrl) signed.timestamp signed.nonce body
        if (P.verifyDetached cert canonical signed.signature).getD false = false then
          return .error .badSignature
        let now ← fed .nowSecs
        let expiresAt := wrap64 (now + timestampSkewSecs)
        match ← fed (.checkAndRecordNonce peer.fingerprint signed.nonce expiresAt) with
        | .error _ => return .error .malformed
        | .ok false => return .error .replay
        | .ok true => return .ok ⟨signed.senderDomain, peer.fingerprint⟩

/-! ## Discovery -/

/-- `DiscoveryError`, as far as it arises here; `storage` is a `NetworkError` with the text
of a storage error. -/
inductive DiscoveryError where
  | notFound (text : String)
  | invalidMetadata (text : String)
  | networkError (text : String)
  | storage (error : StorageError)
  deriving DecidableEq, Repr

/-- `FederationConfig::domain_allowed`. -/
def domainAllowed (allowlist : Option (List String)) (domain : String) : Bool :=
  match allowlist with
  | some list => list.any (· = P.domainKey domain)
  | none => true

/-- `server_candidates`. -/
def serverCandidates (domain : String) : List String :=
  ["https://" ++ domain ++ "/.well-known/owney/server",
    "https://mail." ++ domain ++ "/.well-known/owney/server",
    "https://owney." ++ domain ++ "/.well-known/owney/server"]

/-- The body of the loop of `discover_and_pin`, once metadata was fetched. -/
def pinPeer (domain : String) (metadata : ServerMetadata) :
    FedProg (Except DiscoveryError PeerServer) :=
  match metadata.publicCert with
  | none => return .error (.invalidMetadata "peer has no public_cert")
  | some armored =>
    match P.certFromBytes armored with
    | .error text => return .error (.invalidMetadata text)
    | .ok cert => do
      match ← fed (.federationPeer domain) with
      | .error e => return .error (.storage e)
      | .ok existing =>
        if existing.any (·.fingerprint ≠ P.fingerprint cert) then
          return .error (.invalidMetadata "peer cert fingerprint changed")
        match P.stripped cert with
        | .error text => return .error (.invalidMetadata text)
        | .ok bin =>
          match ← fed (.upsertFederationPeer domain metadata.serverUrl bin (P.fingerprint cert)) with
          | .error e => return .error (.storage e)
          | .ok _ =>
            match ← fed (.federationPeer domain) with
            | .error e => return .error (.storage e)
            | .ok none => return .error (.networkError "pin vanished")
            | .ok (some peer) => return .ok peer

/-- The loop over the candidates. -/
def tryCandidates (domain : String) : List String → FedProg (Except DiscoveryError PeerServer)
  | [] => return .error (.notFound domain)
  | url :: urls => do
    match ← fed (.getUnsigned url) with
    | none => tryCandidates domain urls
    | some metadata => pinPeer P domain metadata

/-- `discover_and_pin`. -/
def discoverAndPin (domain : String) (allowlist : Option (List String)) :
    FedProg (Except DiscoveryError PeerServer) :=
  if domainAllowed P allowlist domain then tryCandidates P domain (serverCandidates domain)
  else return .error (.notFound (domain ++ " not allowlisted"))

/-! ## The server -/

/-- What starts a program. -/
inductive FedRequest where
  /-- a signed request, with its target as it was received -/
  | verify (publicUrl : String) (method : Method) (target : String) (headers : FedHeaders)
      (body : List UInt8)
  | prune
  | discover (domain : String) (allowlist : Option (List String))
  | tick (secs : ℕ)
  deriving DecidableEq, Repr

/-- What a program answers. -/
inductive FedAnswer where
  | verified (result : Except Rejection VerifiedPeer)
  | pruned (result : Except StorageError ℕ)
  | discovered (result : Except DiscoveryError PeerServer)
  | ticked
  deriving DecidableEq

/-- The program of a request. -/
def fedHandle : FedRequest → FedProg FedAnswer
  | .verify publicUrl method target headers body => do
    let result ← verifyRequest P publicUrl method (canonicalPathStr P target) headers body
    return .verified result
  | .prune => do
    let now ← fed .nowSecs
    let result ← fed (.pruneExpiredNonces now)
    return .pruned result
  | .discover domain allowlist => do
    let result ← discoverAndPin P domain allowlist
    return .discovered result
  | .tick secs => do
    let _ ← fed (.tick secs)
    return .ticked

/-- The server with all programs ever started. -/
abbrev FedServer : Type := Sys FedOp.Ret FedRequest FedAnswer FedChoice FedWorld

/-- A call of a program, with all around it. -/
abbrev FedEvent : Type := Event FedOp.Ret FedRequest FedChoice FedWorld

/-- A program starts, or one makes its next call. -/
abbrev FedMove : Type := Move FedRequest FedChoice

/-- No programs, no peers, no nonces. -/
def FedServer.empty : FedServer := Sys.init FedWorld.empty

/-- The server after some moves. -/
def FedServer.run (s : FedServer) (ms : List FedMove) : FedServer :=
  Runs.run (Programs.step (fedHandle P) (FedOp.exec P)) s ms

end Owney
