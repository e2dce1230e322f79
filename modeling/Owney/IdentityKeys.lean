import Owney.Lib.Programs
import Owney.Lib.Tables
import Owney.Transaction

/-!
# Identity keys

Every account has a certificate of its own, and so does the server. `own_cert` and
`server_cert` of `owney-pgp` load it, or make one on first use: they look for the row, generate a
certificate, store its secret part as a blob, and write the row.

* `OpenPgp` — the certificates, which are the crate's own.
* `KeyOp`, `KeyWorld` — the steps a program takes, each on its own: other programs come in
  between.
* `ownCert`, `serverCert` — the programs.
* `keyHandle_spec` — what was the case before a row is written, and what is returned.
-/

namespace Owney.Keys

open Programs Tables

/-! ## Certificates -/

/-- What the crate and the blob store provide: certificates with secrets, their fingerprints as
text, their bytes, and the digest a blob is named by. -/
structure OpenPgp where
  Cert : Type
  fingerprint : Cert → String
  /-- `as_tsk().to_vec()` -/
  asTsk : Cert → Except String (List UInt8)
  /-- `Cert::from_bytes` -/
  fromBytes : List UInt8 → Except String Cert
  digest : List UInt8 → BlobId
  /-- the bytes of a certificate are read back as that certificate -/
  load : ∀ {cert : Cert} {bytes : List UInt8}, asTsk cert = .ok bytes →
    ∃ cert', fromBytes bytes = .ok cert' ∧ fingerprint cert' = fingerprint cert

/-! ## Tables -/

/-- A row of `pgp_own_keys`. -/
structure OwnKey where
  accountId : AccountId
  fingerprint : String
  blobId : BlobId
  createdAt : ℤ
  deriving DecidableEq, Repr

/-- The row of `server_identity`. -/
structure ServerIdentity where
  fingerprint : String
  blobId : BlobId
  createdAt : ℤ
  deriving DecidableEq, Repr

/-- The tables. -/
structure KeyDb where
  pgpOwnKeys : List OwnKey
  serverIdentity : Option ServerIdentity

/-- `Storage::pgp_own_key`. -/
def pgpOwnKeyTx (io : Io) (accountId : AccountId) : Tx KeyDb (Option (String × BlobId)) :=
  Tx.query io 0 fun db =>
    (db.pgpOwnKeys.find? fun k => k.accountId = accountId).map fun k => (k.fingerprint, k.blobId)

/-- `Storage::set_pgp_own_key`: a row that is there is overwritten. -/
def setPgpOwnKeyTx (io : Io) (accountId : AccountId) (fingerprint : String) (blobId : BlobId)
    (now : ℤ) : Tx KeyDb Unit :=
  Tx.exec io 0 fun db =>
    { db with
      pgpOwnKeys := upsert (fun k => k.accountId = accountId)
        (fun k => { k with fingerprint, blobId }) ⟨accountId, fingerprint, blobId, now⟩
        db.pgpOwnKeys }

/-- `Storage::server_identity`. -/
def serverIdentityTx (io : Io) : Tx KeyDb (Option (String × BlobId)) :=
  Tx.query io 0 fun db => db.serverIdentity.map fun k => (k.fingerprint, k.blobId)

/-- `Storage::set_server_identity`. -/
def setServerIdentityTx (io : Io) (fingerprint : String) (blobId : BlobId) (now : ℤ) :
    Tx KeyDb Unit :=
  Tx.exec io 0 fun db =>
    { db with
      serverIdentity := match db.serverIdentity with
        | some k => some { k with fingerprint, blobId }
        | none => some ⟨fingerprint, blobId, now⟩ }

/-! ## Calls -/

/-- `PgpError`. -/
inductive PgpError where
  | openPgp (msg : String)
  | storage (e : StorageError)
  | noEncryptionKey (email : String)
  deriving DecidableEq, Repr

/-- A step of a program. -/
inductive KeyOp where
  | pgpOwnKey (accountId : AccountId)
  | setPgpOwnKey (accountId : AccountId) (fingerprint : String) (blobId : BlobId)
  | serverIdentity
  | setServerIdentity (fingerprint : String) (blobId : BlobId)
  | account (accountId : AccountId)
  | getBlob (blobId : BlobId)
  | putBlob (bytes : List UInt8)
  | generateCert (userid : String)
  deriving DecidableEq

/-- What a successful step returns; of the account, the columns that are read. -/
abbrev KeyOp.Val (P : OpenPgp) : KeyOp → Type
  | .pgpOwnKey _ | .serverIdentity => Option (String × BlobId)
  | .setPgpOwnKey .. | .setServerIdentity .. => Unit
  | .account _ => Option (String × Option String)
  | .getBlob _ => List UInt8
  | .putBlob _ => BlobId
  | .generateCert _ => P.Cert

/-- What a step returns. -/
abbrev KeyOp.Ret (P : OpenPgp) (o : KeyOp) : Type := Except PgpError (o.Val P)

/-- What a step meets: statements and files that fail, the clock, the account it finds, and the
certificate that is drawn. -/
structure KeyChoice (P : OpenPgp) where
  io : Io := .ok
  now : ℤ := 0
  account : Option (String × Option String) := some ("", none)
  cert : Except String P.Cert := .error "no entropy"

/-- The state: the tables, the blobs, and the fingerprints ever drawn. -/
structure KeyWorld where
  db : KeyDb
  blobs : List (BlobId × List UInt8)
  drawn : List String

/-- No keys. -/
def KeyWorld.init : KeyWorld := ⟨⟨[], none⟩, [], []⟩

/-- A call on the tables. -/
def KeyWorld.call {α : Type} (w : KeyWorld) (body : Tx KeyDb α) : Except PgpError α × KeyWorld :=
  ((transaction body w.db).1.mapError .storage, { w with db := (transaction body w.db).2 })

variable (P : OpenPgp)

/-- Make a step. A certificate is drawn afresh, and no two contents have one digest. -/
def KeyOp.exec : (o : KeyOp) → KeyChoice P → KeyWorld → Option (o.Ret P × KeyWorld)
  | .pgpOwnKey accountId, c, w => some (w.call (pgpOwnKeyTx c.io accountId))
  | .setPgpOwnKey accountId fingerprint blobId, c, w =>
    some (w.call (setPgpOwnKeyTx c.io accountId fingerprint blobId c.now))
  | .serverIdentity, c, w => some (w.call (serverIdentityTx c.io))
  | .setServerIdentity fingerprint blobId, c, w =>
    some (w.call (setServerIdentityTx c.io fingerprint blobId c.now))
  | .account _, c, w => some (if c.io 0 then .ok c.account else .error (.storage .sqlite), w)
  | .getBlob blobId, c, w =>
    if c.io 0 then
      match w.blobs.find? fun b => b.1 = blobId with
      | some b => some (.ok b.2, w)
      | none => some (.error (.storage (.blobNotFound blobId)), w)
    else some (.error (.storage .io), w)
  | .putBlob bytes, c, w =>
    if c.io 0 then
      match w.blobs.find? fun b => b.1 = P.digest bytes with
      | some b => if b.2 = bytes then some (.ok (P.digest bytes), w) else none
      | none => some (.ok (P.digest bytes),
          { w with blobs := w.blobs ++ [(P.digest bytes, bytes)] })
    else some (.error (.storage .io), w)
  | .generateCert _, c, w =>
    match c.cert with
    | .error msg => some (.error (.openPgp msg), w)
    | .ok cert =>
      if P.fingerprint cert ∈ w.drawn then none
      else some (.ok cert, { w with drawn := P.fingerprint cert :: w.drawn })

/-! ## Programs -/

/-- A program. -/
abbrev KeyProg (α : Type) : Type := ExceptT PgpError (Prog (KeyOp.Ret P)) α

variable {P}

/-- One step; its error ends the program. -/
def keys (o : KeyOp) : KeyProg P (o.Val P) := Prog.ask o

/-- What the crate returns; its error ends the program. -/
def openPgp {α : Type} : Except String α → KeyProg P α
  | .ok a => pure a
  | .error msg => throw (.openPgp msg)

/-- The user id of `generate_cert`. -/
def userId (email : String) : Option String → String
  | some name => name ++ " <" ++ email ++ ">"
  | none => "<" ++ email ++ ">"

/-- The certificate of a row. -/
def loadCert (blobId : BlobId) : KeyProg P P.Cert := do
  let tskBytes ← keys (.getBlob blobId)
  openPgp (P.fromBytes tskBytes)

/-- A certificate made on first use; `store` writes the row. -/
def makeCert (userid : String) (store : String → BlobId → KeyProg P Unit) : KeyProg P P.Cert := do
  let cert ← keys (.generateCert userid)
  let tskBytes ← openPgp (P.asTsk cert)
  let blobId ← keys (.putBlob tskBytes)
  store (P.fingerprint cert) blobId
  return cert

/-- `own_cert`. -/
def ownCert (accountId : AccountId) : KeyProg P P.Cert := do
  match ← keys (.pgpOwnKey accountId) with
  | some (_, blobId) => loadCert blobId
  | none => do
    match ← keys (.account accountId) with
    | none => throw (.openPgp "no such account")
    | some (email, displayName) =>
      makeCert (userId email displayName) fun fingerprint blobId =>
        keys (.setPgpOwnKey accountId fingerprint blobId)

/-- `server_cert`. -/
def serverCert (domain : String) : KeyProg P P.Cert := do
  match ← keys .serverIdentity with
  | some (_, blobId) => loadCert blobId
  | none =>
    makeCert (userId ("federation@" ++ domain) (some (domain ++ " federation")))
      fun fingerprint blobId => keys (.setServerIdentity fingerprint blobId)

/-- What starts a program. -/
inductive KeyRequest where
  | own (accountId : AccountId)
  | server (domain : String)

/-- What a program answers. -/
abbrev KeyAnswer (P : OpenPgp) : Type := Except PgpError P.Cert

/-- The program of a request. -/
def keyHandle : KeyRequest → Prog (KeyOp.Ret P) (KeyAnswer P)
  | .own accountId => (ownCert accountId).run
  | .server domain => (serverCert domain).run

variable (P)

/-- The server, with all calls that were ever made. -/
abbrev KeySys : Type := Sys (KeyOp.Ret P) KeyRequest (KeyAnswer P) (KeyChoice P) KeyWorld

/-- A program starts, or takes its next step. -/
abbrev KeyMove : Type := Move KeyRequest (KeyChoice P)

variable {P}

/-- A server without keys, after some moves. -/
def keyRun (moves : List (KeyMove P)) : KeySys P :=
  Runs.run (step keyHandle (KeyOp.exec P)) (Sys.init .init) moves

/-! ## Identities -/

/-- Who has a key. -/
inductive Identity where
  | account (accountId : AccountId)
  | server
  deriving DecidableEq, Repr

namespace Identity

/-- The step that looks for its row. -/
def lookup : Identity → KeyOp
  | .account accountId => .pgpOwnKey accountId
  | .server => .serverIdentity

/-- The step that writes its row. -/
def store : Identity → String → BlobId → KeyOp
  | .account accountId, fingerprint, blobId => .setPgpOwnKey accountId fingerprint blobId
  | .server, fingerprint, blobId => .setServerIdentity fingerprint blobId

end Identity

/-- Whose certificate is asked for. -/
def KeyRequest.identity : KeyRequest → Identity
  | .own accountId => .account accountId
  | .server _ => .server

/-- The row of an identity. -/
def KeyDb.stored (db : KeyDb) : Identity → Option (String × BlobId)
  | .account accountId => (db.pgpOwnKeys.find? fun k => k.accountId = accountId).map
      fun k => (k.fingerprint, k.blobId)
  | .server => db.serverIdentity.map fun k => (k.fingerprint, k.blobId)

/-! ## Before a step, and at the end -/

/-- The steps of a program. -/
abbrev KeyCalls (P : OpenPgp) : Type := List (Call (KeyOp.Ret P))

/-- The row of the identity was written. -/
inductive Wrote (d : Identity) (fingerprint : String) (blobId : BlobId) :
    Call (KeyOp.Ret P) → Prop where
  | own {accountId : AccountId} (hd : d = .account accountId) :
      Wrote d fingerprint blobId ⟨.setPgpOwnKey accountId fingerprint blobId, .ok ()⟩
  | server (hd : d = .server) :
      Wrote d fingerprint blobId ⟨.setServerIdentity fingerprint blobId, .ok ()⟩

/-- The row of the identity was looked for. -/
inductive Looked (d : Identity) (found : Option (String × BlobId)) :
    Call (KeyOp.Ret P) → Prop where
  | own {accountId : AccountId} (hd : d = .account accountId) :
      Looked d found ⟨.pgpOwnKey accountId, .ok found⟩
  | server (hd : d = .server) : Looked d found ⟨.serverIdentity, .ok found⟩

/-- The program found no row, generated a certificate, and stored its bytes. -/
structure Ready (d : Identity) (cs : KeyCalls P) (cert : P.Cert) (blobId : BlobId) : Prop where
  looked : ∃ c ∈ cs, Looked d none c
  generated : ∃ userid, ⟨.generateCert userid, .ok cert⟩ ∈ cs
  stored : ∃ bytes, P.asTsk cert = .ok bytes ∧ ⟨.putBlob bytes, .ok blobId⟩ ∈ cs

/-- No row was written. -/
def NoWrites (cs : KeyCalls P) : Prop := ∀ c ∈ cs, ∀ d fp b, ¬Wrote d fp b c

/-- What was the case before a step: the program has written nothing yet. -/
def KeyBefore (r : KeyRequest) (cs : KeyCalls P) (o : KeyOp) : Prop :=
  NoWrites cs ∧ ∀ d fp b, o = d.store fp b →
    d = r.identity ∧ ∃ cert, Ready d cs cert b ∧ fp = P.fingerprint cert

/-- What is the case when the program returns: it wrote the certificate that it returns, or it
loaded it, or it failed. -/
def KeyAnswered (r : KeyRequest) (cs : KeyCalls P) (a : KeyAnswer P) : Prop :=
  (∃ cert b, a = .ok cert ∧ ∃ c ∈ cs, Wrote r.identity (P.fingerprint cert) b c) ∨
    NoWrites cs ∧ ∀ cert, a = .ok cert → ∃ fp b bytes,
      (∃ c ∈ cs, Looked r.identity (some (fp, b)) c) ∧ ⟨.getBlob b, .ok bytes⟩ ∈ cs ∧
        P.fromBytes bytes = .ok cert

section Specs

variable {r : KeyRequest} {cs : KeyCalls P}

theorem NoWrites.append (h : NoWrites cs) {c : Call (KeyOp.Ret P)}
    (hc : ∀ d fp b, ¬Wrote d fp b c) : NoWrites (cs ++ [c]) := by
  intro c' hc'
  rcases List.mem_append.mp hc' with hc' | hc'
  · exact h c' hc'
  · rw [List.mem_singleton.mp hc']
    exact hc

/-- A step that failed wrote nothing. -/
theorem NoWrites.failed (h : NoWrites cs) {o : KeyOp} {e : PgpError} :
    NoWrites (cs ++ [⟨o, .error e⟩]) :=
  h.append (by rintro d fp b ⟨⟩)

theorem NoWrites.answered (h : NoWrites cs) {e : PgpError} :
    KeyAnswered r cs (.error e : KeyAnswer P) :=
  .inr ⟨h, fun _ hcert => nomatch hcert⟩

/-- A step other than writing a row. -/
theorem NoWrites.before (h : NoWrites cs) {o : KeyOp} (ho : ∀ (d : Identity) fp b, o ≠ d.store fp b) :
    KeyBefore r cs o :=
  ⟨h, fun d fp b heq => absurd heq (ho d fp b)⟩

theorem openPgp_spec {α β : Type} {x : Except String α} {f : α → KeyProg P β}
    {G : KeyCalls P → KeyOp → Prop} {Q : KeyCalls P → Except PgpError β → Prop}
    (hok : ∀ a, x = .ok a → (f a).run.Spec G Q cs)
    (herror : ∀ msg, Q cs (.error (.openPgp msg))) : (openPgp x >>= f).run.Spec G Q cs := by
  rcases x with msg | a
  · exact herror msg
  · exact hok a rfl

/-- Loading the certificate of a row that was found. -/
theorem loadCert_spec {fp : String} {b : BlobId} (h : NoWrites cs)
    (hlooked : ∃ c ∈ cs, Looked r.identity (some (fp, b)) c) :
    (loadCert b : KeyProg P P.Cert).run.Spec (KeyBefore r) (KeyAnswered r) cs := by
  refine Prog.spec_ask_bind.mpr ⟨h.before (by rintro (_ | _) fp b ⟨⟩), fun bytes => ?_,
    fun e => h.failed.answered⟩
  have hread := h.append (c := ⟨.getBlob b, .ok bytes⟩) (by rintro d fp b ⟨⟩)
  rcases hbytes : P.fromBytes bytes with msg | cert
  · exact hread.answered
  · refine .inr ⟨hread, ?_⟩
    rintro cert' ⟨⟩
    obtain ⟨c, hc, hlooked⟩ := hlooked
    exact ⟨fp, b, bytes, ⟨c, List.mem_append_left _ hc, hlooked⟩, by simp, hbytes⟩

/-- Making a certificate, when no row was found. -/
theorem makeCert_spec {userid : String} {store : String → BlobId → KeyProg P Unit}
    (h : NoWrites cs) (hlooked : ∃ c ∈ cs, Looked r.identity none c)
    (hstore : ∀ (cs : KeyCalls P) cert b, NoWrites cs → Ready r.identity cs cert b →
      (do store (P.fingerprint cert) b; return cert : KeyProg P P.Cert).run.Spec (KeyBefore r)
        (KeyAnswered r) cs) :
    (makeCert userid store).run.Spec (KeyBefore r) (KeyAnswered r) cs := by
  refine Prog.spec_ask_bind.mpr ⟨h.before (by rintro (_ | _) fp b ⟨⟩), fun cert => ?_,
    fun e => h.failed.answered⟩
  have hgenerated := h.append (c := ⟨.generateCert userid, .ok cert⟩) (by rintro d fp b ⟨⟩)
  refine openPgp_spec (fun bytes hbytes => ?_) fun msg => hgenerated.answered
  refine Prog.spec_ask_bind.mpr ⟨hgenerated.before (by rintro (_ | _) fp b ⟨⟩), fun b => ?_,
    fun e => hgenerated.failed.answered⟩
  obtain ⟨c, hc, hlooked⟩ := hlooked
  refine hstore _ cert b (hgenerated.append (by rintro d fp b ⟨⟩)) ⟨?_, ?_, ?_⟩
  · exact ⟨c, List.mem_append_left _ (List.mem_append_left _ hc), hlooked⟩
  · exact ⟨userid, by simp⟩
  · exact ⟨bytes, hbytes, by simp⟩

theorem ownCert_spec (accountId : AccountId) :
    (ownCert accountId : KeyProg P P.Cert).run.Spec (KeyBefore (.own accountId))
      (KeyAnswered (.own accountId)) [] := by
  have hnil : NoWrites ([] : KeyCalls P) := fun c hc => absurd hc List.not_mem_nil
  refine Prog.spec_ask_bind.mpr ⟨hnil.before (by rintro (_ | _) fp b ⟨⟩), fun found => ?_,
    fun e => hnil.failed.answered⟩
  have hlook := hnil.append (c := ⟨.pgpOwnKey accountId, .ok found⟩) (by rintro d fp b ⟨⟩)
  have hlooked : ∃ c ∈ ([] ++ [⟨.pgpOwnKey accountId, .ok found⟩] : KeyCalls P),
      Looked (.account accountId) found c := ⟨_, by simp, .own rfl⟩
  rcases found with _ | ⟨fp, b⟩
  · refine Prog.spec_ask_bind.mpr ⟨hlook.before (by rintro (_ | _) fp b ⟨⟩), fun account => ?_,
      fun e => hlook.failed.answered⟩
    have hread := hlook.append (c := ⟨.account accountId, .ok account⟩) (by rintro d fp b ⟨⟩)
    obtain ⟨c, hc, hlooked⟩ := hlooked
    rcases account with _ | ⟨email, displayName⟩
    · exact hread.answered
    · refine makeCert_spec hread ⟨c, List.mem_append_left _ hc, hlooked⟩ fun cs cert b hno hready => ?_
      refine Prog.spec_ask_bind.mpr ⟨⟨hno, ?_⟩, fun _ => ?_, fun e => hno.failed.answered⟩
      · rintro (_ | _) fp b ⟨⟩
        exact ⟨rfl, cert, hready, rfl⟩
      · exact .inl ⟨cert, b, rfl, _, by simp, .own rfl⟩
  · exact loadCert_spec hlook hlooked

theorem serverCert_spec (domain : String) :
    (serverCert domain : KeyProg P P.Cert).run.Spec (KeyBefore (.server domain))
      (KeyAnswered (.server domain)) [] := by
  have hnil : NoWrites ([] : KeyCalls P) := fun c hc => absurd hc List.not_mem_nil
  refine Prog.spec_ask_bind.mpr ⟨hnil.before (by rintro (_ | _) fp b ⟨⟩), fun found => ?_,
    fun e => hnil.failed.answered⟩
  have hlook := hnil.append (c := ⟨.serverIdentity, .ok found⟩) (by rintro d fp b ⟨⟩)
  have hlooked : ∃ c ∈ ([] ++ [⟨.serverIdentity, .ok found⟩] : KeyCalls P),
      Looked .server found c := ⟨_, by simp, .server rfl⟩
  rcases found with _ | ⟨fp, b⟩
  · refine makeCert_spec hlook hlooked fun cs cert b hno hready => ?_
    refine Prog.spec_ask_bind.mpr ⟨⟨hno, ?_⟩, fun _ => ?_, fun e => hno.failed.answered⟩
    · rintro (_ | _) fp b ⟨⟩
      exact ⟨rfl, cert, hready, rfl⟩
    · exact .inl ⟨cert, b, rfl, _, by simp, .server rfl⟩
  · exact loadCert_spec hlook hlooked

/-- **Both programs** meet their specification. -/
theorem keyHandle_spec (r : KeyRequest) :
    (keyHandle r : Prog (KeyOp.Ret P) (KeyAnswer P)).Spec (KeyBefore r) (KeyAnswered r) [] := by
  cases r with
  | own accountId => exact ownCert_spec accountId
  | server domain => exact serverCert_spec domain

end Specs

end Owney.Keys
