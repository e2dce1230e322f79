import Owney.FederationPeers

/-!
# What the federation programs did before a call

* `fedHandle_spec` goes through each program once: a nonce is recorded after the timestamp
  was found fresh, the peer was looked up and its certificate verified the signature; a
  peer is pinned after no other fingerprint was found for its domain.
* `FedEffect` says what a call does to the tables.
* `FedServer.run_specified` has both of every call of every interleaving.
-/

namespace Owney

open Programs Tables

variable {Cert : Type} {P : FedCrates Cert}

/-! ## Earlier calls -/

/-- The call was made and returned this. -/
def Made (cs : List (Call FedOp.Ret)) (o : FedOp) (r : o.Ret) : Prop :=
  (⟨o, r⟩ : Call FedOp.Ret) ∈ cs

section Made

variable {cs cs' : List (Call FedOp.Ret)} {o : FedOp} {r : o.Ret}

theorem Made.append (h : Made cs o r) : Made (cs ++ cs') o r := List.mem_append_left _ h

@[simp] theorem made_last : Made (cs ++ [⟨o, r⟩]) o r := List.mem_append_right _ (by simp)

end Made

variable (P) in
/-- What the headers of a signed request say, if they pass the checks. -/
def FedRequest.signed : FedRequest → Option SignedHeaders
  | .verify _ _ _ headers _ => (headers.check P).toOption
  | _ => none

variable (P) in
/-- The certificate verifies the signature over the canonical string of the request. -/
def FedRequest.SignedBy (cert : Cert) : FedRequest → Prop
  | .verify publicUrl method target headers body => ∃ signed, headers.check P = .ok signed ∧
    P.verifyDetached cert (canonicalString P method.asStr (canonicalPathStr P target)
      signed.senderDomain (hostOf P publicUrl) signed.timestamp signed.nonce body)
        signed.signature = some true
  | _ => False

variable (P) in
/-- What was learned before a call that writes. -/
def FedBefore (r : FedRequest) (cs : List (Call FedOp.Ret)) : FedOp → Prop
  | .checkAndRecordNonce senderFp nonce _ => ∃ signed peer cert now,
    r.signed P = some signed ∧ signed.nonce = nonce ∧
    Made cs .nowSecs now ∧ Fresh now signed.timestamp ∧
    Made cs (.federationPeer signed.senderDomain) (.ok (some peer)) ∧
    peer.fingerprint = senderFp ∧ P.certFromBytes peer.cert = .ok cert ∧ r.SignedBy P cert
  | .pruneExpiredNonces now => Made cs .nowSecs now
  | .upsertFederationPeer domain _ bin fingerprint => ∃ cert existing,
    P.stripped cert = .ok bin ∧ P.fingerprint cert = fingerprint ∧
    Made cs (.federationPeer domain) (.ok existing) ∧
    ∀ peer, existing = some peer → peer.fingerprint = fingerprint
  | _ => True

variable (P) in
/-- What was learned before an answer. -/
def FedAnswered (r : FedRequest) (cs : List (Call FedOp.Ret)) : FedAnswer → Prop
  | .verified (.ok peer) => ∃ signed expiresAt, r.signed P = some signed ∧
    peer.domain = signed.senderDomain ∧
    Made cs (.checkAndRecordNonce peer.fingerprint signed.nonce expiresAt) (.ok true)
  | .discovered (.ok peer) => ∃ domain allowlist, r = .discover domain allowlist ∧
    Made cs (.federationPeer domain) (.ok (some peer))
  | _ => True

/-! ## The programs -/

section Programs

variable {r : FedRequest} {cs : List (Call FedOp.Ret)}

theorem spec_fed {α : Type} {G : List (Call FedOp.Ret) → FedOp → Prop}
    {Q : List (Call FedOp.Ret) → α → Prop} {o : FedOp} {f : o.Ret → FedProg α} :
    (fed o >>= f).Spec G Q cs ↔ G cs o ∧ ∀ r, (f r).Spec G Q (cs ++ [⟨o, r⟩]) := Iff.rfl

theorem verifyRequest_spec {publicUrl : String} {method : Method} {target : String}
    {headers : FedHeaders} {body : List UInt8}
    (hr : r = .verify publicUrl method target headers body) :
    (verifyRequest P publicUrl method (canonicalPathStr P target) headers body).Spec
      (FedBefore P r) (fun cs result => FedAnswered P r cs (.verified result)) cs := by
  unfold verifyRequest
  split
  · trivial
  rename_i signed hcheck
  have hsigned : r.signed P = some signed := by
    rw [hr, FedRequest.signed, hcheck]
    rfl
  refine spec_fed.mpr ⟨trivial, fun now => ?_⟩
  dsimp only
  split
  · trivial
  rename_i hfresh
  refine spec_fed.mpr ⟨trivial, ?_⟩
  rintro (e | _ | peer)
  · trivial
  · trivial
  dsimp only
  split
  · trivial
  rename_i cert hcert
  split
  · trivial
  rename_i hvalid
  refine spec_fed.mpr ⟨trivial, fun now' => ?_⟩
  refine spec_fed.mpr ⟨⟨signed, peer, cert, now, hsigned, rfl, made_last.append.append,
    not_not.mp hfresh, made_last.append, rfl, hcert, ?_⟩, ?_⟩
  · rw [hr]
    refine ⟨signed, hcheck, ?_⟩
    rcases hverify : P.verifyDetached cert _ signed.signature with _ | valid
    · rw [hverify] at hvalid
      exact absurd rfl hvalid
    · rw [hverify, Option.getD_some, Bool.not_eq_false] at hvalid
      rw [hvalid]
  rintro (e | _ | _)
  · trivial
  · trivial
  · exact ⟨signed, _, hsigned, rfl, made_last⟩

theorem pinPeer_spec {domain : String} {metadata : ServerMetadata}
    {allowlist : Option (List String)} (hr : r = .discover domain allowlist) :
    (pinPeer P domain metadata).Spec (FedBefore P r)
      (fun cs result => FedAnswered P r cs (.discovered result)) cs := by
  unfold pinPeer
  split
  · trivial
  split
  · trivial
  rename_i cert hcert
  refine spec_fed.mpr ⟨trivial, ?_⟩
  rintro (e | existing)
  · trivial
  dsimp only
  split
  · trivial
  rename_i hsame
  split
  · trivial
  rename_i bin hbin
  refine spec_fed.mpr ⟨⟨cert, existing, hbin, rfl, made_last, ?_⟩, ?_⟩
  · rintro peer rfl
    simpa using hsame
  rintro (e | changed)
  · trivial
  refine spec_fed.mpr ⟨trivial, ?_⟩
  rintro (e | _ | peer)
  · trivial
  · trivial
  · exact ⟨domain, allowlist, hr, made_last⟩

theorem tryCandidates_spec {domain : String} {allowlist : Option (List String)}
    (hr : r = .discover domain allowlist) (urls : List String) :
    (tryCandidates P domain urls).Spec (FedBefore P r)
      (fun cs result => FedAnswered P r cs (.discovered result)) cs := by
  induction urls generalizing cs with
  | nil => trivial
  | cons url urls ih =>
    refine spec_fed.mpr ⟨trivial, ?_⟩
    rintro (_ | metadata)
    · exact ih
    · exact pinPeer_spec hr

/-- **Every program of the federation** learns these things before it writes or answers. -/
theorem fedHandle_spec (r : FedRequest) :
    (fedHandle P r).Spec (FedBefore P r) (FedAnswered P r) [] := by
  cases r with
  | verify publicUrl method target headers body =>
    exact (verifyRequest_spec rfl).seq fun _ _ h => h
  | prune =>
    refine spec_fed.mpr ⟨trivial, fun now => spec_fed.mpr ⟨made_last, fun result => trivial⟩⟩
  | discover domain allowlist =>
    refine Prog.Spec.seq (J := fun cs result =>
      FedAnswered P (.discover domain allowlist) cs (.discovered result)) ?_ fun _ _ h => h
    unfold discoverAndPin
    split
    · exact tryCandidates_spec rfl _
    · trivial
  | tick secs => exact spec_fed.mpr ⟨trivial, fun _ => trivial⟩

end Programs

/-! ## What a call does -/

/-- The call changed a table. -/
def FedWrote : Call FedOp.Ret → Bool
  | ⟨.checkAndRecordNonce .., .ok true⟩ | ⟨.pruneExpiredNonces _, .ok _⟩
  | ⟨.upsertFederationPeer .., .ok _⟩ => true
  | _ => false

variable (P) in
/-- What a call does to the tables. -/
inductive FedEffect (w : FedWorld) (call : Call FedOp.Ret) (w' : FedWorld) : Prop where
  | kept (quiet : FedWrote call = false) (db : w'.db = w.db)
  | recorded {senderFp nonce : String} {expiresAt : ℤ}
      (made : call = ⟨.checkAndRecordNonce senderFp nonce expiresAt, .ok true⟩)
      (new : w.db.hasNonce senderFp nonce = false)
      (db : w'.db = { w.db with nonces := w.db.nonces ++ [⟨senderFp, nonce, expiresAt⟩] })
  | pruned {now : ℤ} {count : ℕ} (made : call = ⟨.pruneExpiredNonces now, .ok count⟩)
      (db : w'.db = { w.db with nonces := w.db.nonces.filter fun r => ¬r.expiresAt ≤ now })
  | pinned {domain serverUrl : String} {cert : List UInt8} {fingerprint : String} {changed : Bool}
      (made : call = ⟨.upsertFederationPeer domain serverUrl cert fingerprint, .ok changed⟩)
      (db : w'.db = { w.db with
        peers := upsert (·.domain = P.domainKey domain)
          (fun r => { r with serverUrl, cert, fingerprint })
          ⟨P.domainKey domain, serverUrl, cert, fingerprint, w.now⟩ w.db.peers })

section Exec

variable {w w' : FedWorld} {c : FedChoice}

/-- A storage call fails without effect, or its body succeeded. -/
theorem FedWorld.call_cases {α : Type} {body : Tx FederationDb α} {res : Except StorageError α}
    (h : w.call body = (res, w')) :
    (∃ e, res = .error e ∧ w' = w) ∨
      ∃ a db, body w.db = .ok (a, db) ∧ res = .ok a ∧ w' = { w with db := db } := by
  obtain ⟨rfl, rfl⟩ := Prod.mk.inj h
  rcases transaction_cases body w.db with ⟨e, hbody⟩ | ⟨a, db, hok, hbody⟩
  · exact .inl ⟨e, by rw [hbody], by rw [hbody]⟩
  · exact .inr ⟨a, db, hok, by rw [hbody], by rw [hbody]⟩

theorem FedWorld.call_now {α : Type} {body : Tx FederationDb α} {res : Except StorageError α}
    (h : w.call body = (res, w')) : w'.now = w.now := by
  obtain ⟨-, rfl⟩ := Prod.mk.inj h
  rfl

/-- **One call.** What it does to the tables. -/
theorem fed_effect {o : FedOp} {res : o.Ret} (h : o.exec P c w = some (res, w')) :
    FedEffect P w ⟨o, res⟩ w' := by
  cases o with
  | nowSecs | getUnsigned url =>
    obtain ⟨-, rfl⟩ := Prod.mk.inj (Option.some.inj h)
    exact .kept rfl rfl
  | tick secs =>
    rw [FedOp.exec] at h
    split at h
    · obtain ⟨-, rfl⟩ := Prod.mk.inj (Option.some.inj h)
      exact .kept rfl rfl
    · cases h
  | federationPeer domain =>
    rcases FedWorld.call_cases (Option.some.inj h) with ⟨e, rfl, rfl⟩ | ⟨a, db, hok, rfl, rfl⟩
    · exact .kept rfl rfl
    · obtain ⟨-, -, rfl⟩ := Tx.query_eq_ok.mp hok
      exact .kept rfl rfl
  | checkAndRecordNonce senderFp nonce expiresAt =>
    rcases FedWorld.call_cases (Option.some.inj h) with ⟨e, rfl, rfl⟩ | ⟨a, db, hok, rfl, rfl⟩
    · exact .kept rfl rfl
    · simp only [checkAndRecordNonceTx, Tx.bind_eq_ok, Tx.get_eq_ok, Tx.exec_eq_ok,
        Tx.pure_eq_ok] at hok
      obtain ⟨_, _, ⟨rfl, rfl⟩, _, _, ⟨-, rfl⟩, rfl, rfl⟩ := hok
      by_cases hseen : w.db.hasNonce senderFp nonce = true
      · rw [hseen]
        exact .kept rfl rfl
      · rw [Bool.not_eq_true] at hseen
        rw [hseen]
        exact .recorded rfl hseen rfl
  | pruneExpiredNonces now =>
    rcases FedWorld.call_cases (Option.some.inj h) with ⟨e, rfl, rfl⟩ | ⟨a, db, hok, rfl, rfl⟩
    · exact .kept rfl rfl
    · simp only [pruneExpiredNoncesTx, Tx.bind_eq_ok, Tx.get_eq_ok, Tx.exec_eq_ok,
        Tx.pure_eq_ok] at hok
      obtain ⟨_, _, ⟨rfl, rfl⟩, _, _, ⟨-, rfl⟩, rfl, rfl⟩ := hok
      exact .pruned rfl rfl
  | upsertFederationPeer domain serverUrl cert fingerprint =>
    rcases FedWorld.call_cases (Option.some.inj h) with ⟨e, rfl, rfl⟩ | ⟨a, db, hok, rfl, rfl⟩
    · exact .kept rfl rfl
    · simp only [upsertFederationPeerTx, Tx.bind_eq_ok, Tx.query_eq_ok, Tx.exec_eq_ok,
        Tx.pure_eq_ok] at hok
      obtain ⟨_, _, ⟨-, -, rfl⟩, _, _, ⟨-, rfl⟩, -, rfl⟩ := hok
      exact .pinned rfl rfl

/-- **The clock** only advances. -/
theorem fed_now {o : FedOp} {res : o.Ret} (h : o.exec P c w = some (res, w')) :
    w.now ≤ w'.now := by
  cases o with
  | nowSecs | getUnsigned url =>
    obtain ⟨-, rfl⟩ := Prod.mk.inj (Option.some.inj h)
    exact le_rfl
  | tick secs =>
    rw [FedOp.exec] at h
    split at h
    · obtain ⟨-, rfl⟩ := Prod.mk.inj (Option.some.inj h)
      exact Nat.le_add_right _ _
    · cases h
  | federationPeer domain | checkAndRecordNonce senderFp nonce expiresAt
  | pruneExpiredNonces now | upsertFederationPeer domain serverUrl cert fingerprint =>
    exact (FedWorld.call_now (Option.some.inj h)).ge

end Exec

/-! ## The past of the server -/

variable (P) in
/-- A past of the server. -/
abbrev FedPast : List FedEvent → FedWorld → Prop :=
  Past (FedOp.exec P) (FedBefore P) FedWorld.empty

variable (P) in
/-- What was the case when a call was made. -/
abbrev FedAt : List FedEvent → FedEvent → Prop :=
  Past.At (FedOp.exec P) (FedBefore P) FedWorld.empty

section Past

variable {past : List FedEvent} {w : FedWorld} {e : FedEvent} {i : ℕ}

theorem at_effect (hat : FedAt P past e) : FedEffect P e.before e.call e.after :=
  fed_effect hat.possible

theorem at_now (hat : FedAt P past e) : e.before.now ≤ e.after.now := fed_now hat.possible

/-- `federation_peer` returns the row of the domain. -/
theorem peer_of_lookup (hat : FedAt P past e) {domain : String} {peer : Option PeerServer}
    (hcall : e.call = ⟨.federationPeer domain, .ok peer⟩) :
    e.before.db.peers.find? (·.domain = P.domainKey domain) = peer := by
  have hexec := hat.possible
  rw [hcall] at hexec
  rcases FedWorld.call_cases (Option.some.inj hexec) with ⟨e, herr, -⟩ | ⟨a, db, hok, hres, -⟩
  · cases herr
  · obtain ⟨-, rfl, -⟩ := Tx.query_eq_ok.mp hok
    exact (Except.ok.inj hres).symm

/-- What a clock reading of a program was, and where. -/
theorem now_of_made (h : FedPast P past w) {now : ℤ} (hmade : Made (callsOf i past) .nowSecs now) :
    ∃ pre f post, past = pre ++ f :: post ∧ f.thread = i ∧ now = f.before.now ∧
      FedAt P pre f := by
  obtain ⟨f, hf, hthread, hcall⟩ := mem_callsOf.mp hmade
  obtain ⟨pre, post, rfl, hat⟩ := h.exists_at hf
  have hexec := hat.possible
  rw [hcall] at hexec
  obtain ⟨hnow, -⟩ := Prod.mk.inj (Option.some.inj hexec)
  exact ⟨pre, f, post, rfl, hthread, hnow.symm, hat⟩

/-- The clock at a call is at most the clock later. -/
theorem now_le {pre post : List FedEvent} (h : FedPast P past w) (hsplit : past = pre ++ e :: post) :
    e.before.now ≤ w.now :=
  (at_now (h.at_of_split hsplit)).trans
    (h.rel (ρ := fun a b => a.now ≤ b.now) (fun _ => le_rfl) (fun hab hbc => hab.trans hbc) hsplit
      fun _ _ _ _ hat => at_now hat)

/-- **Every run of the server** has a past, in which every program kept its promises. -/
theorem FedServer.run_specified (ms : List FedMove) :
    (FedServer.run P FedServer.empty ms).Specified (FedOp.exec P) (FedBefore P) (FedAnswered P)
      FedWorld.empty :=
  Programs.run_specified (fedHandle_spec (P := P)) ms specified_init

end Past

end Owney
