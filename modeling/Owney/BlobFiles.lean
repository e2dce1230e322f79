import Owney.BlobNames
import Owney.Lib.Programs
import Owney.MailSpec
import Owney.SchemaUpgrades

/-!
# The blob store

`owney-storage/src/blob.rs`, and the calls of `Storage` and the endpoints that use it. A blob
is a file, named by the digest of its content and encrypted with a key of its own, and a row
of `blobs` with the number of emails that refer to it.

* `Primitives` — the AEAD and the hash, which are the crates' own.
* `BlobStore.encode`, `BlobStore.decode` — the bytes of a file. `decode_encode` is the round trip.
* `BlobOp`, `BlobWorld` — the steps a program takes: it looks for a file, writes one under
  its final name, reads one, or makes a call on the database.
* `blobHandle` — the programs: `put_blob`, `get_blob`, `ingest_email_into`,
  `delete_account`, and the upload and download endpoints.
-/

namespace Owney

open Programs Tables

/-! ## Files -/

/-- `n` bytes. -/
abbrev Bytes (n : ℕ) : Type := { b : List UInt8 // b.length = n }

/-- What the store takes from `blake3` and `chacha20poly1305`. -/
structure Primitives where
  hash : List UInt8 → BlobId
  /-- `encrypt`: key, nonce, associated data, message; a message that is too long fails -/
  encrypt : List UInt8 → List UInt8 → List UInt8 → List UInt8 → Option (List UInt8)
  /-- `decrypt`: key, nonce, associated data, ciphertext -/
  decrypt : List UInt8 → List UInt8 → List UInt8 → List UInt8 → Option (List UInt8)
  /-- the length of the longest message -/
  maxLength : ℕ

/-- The AEAD is correct: it decrypts what it encrypted, and adds a tag of 16 bytes. -/
structure Primitives.Correct (P : Primitives) : Prop where
  decrypt_encrypt : ∀ {k n a m c}, P.encrypt k n a m = some c → P.decrypt k n a c = some m
  length_encrypt : ∀ {k n a m c}, P.encrypt k n a m = some c → c.length = m.length + 16
  encrypt_some : ∀ k n a m, m.length ≤ P.maxLength → (P.encrypt k n a m).isSome
  key_fits : 32 ≤ P.maxLength

/-- `MAGIC`. -/
def MAGIC : List UInt8 := "MSB1".toUTF8.data.toList

/-- `NONCE_LEN`. -/
def NONCE_LEN : ℕ := 24

/-- `WRAPPED_KEY_LEN`. -/
def WRAPPED_KEY_LEN : ℕ := 32 + 16

/-- `HEADER_LEN`. -/
def HEADER_LEN : ℕ := 4 + NONCE_LEN + WRAPPED_KEY_LEN + NONCE_LEN

/-- The random bytes of a file. -/
structure Draws where
  blobKey : Bytes 32
  wrapNonce : Bytes 24
  dataNonce : Bytes 24

/-- `BlobStore`, without the directory of its files. -/
structure BlobStore where
  crypto : Primitives
  master : List UInt8

/-- The text of an error about one blob. -/
def corruptBlob (id : BlobId) (what : String) : StorageError :=
  .corrupt ("blob " ++ id.toHex ++ ": " ++ what)

/-- The value, or an error of the cryptography. -/
def cryptoOr {α : Type} (o : Option α) (what : String) : Except StorageError α :=
  match o with
  | some a => .ok a
  | none => .error (.crypto what)

/-- The parts of a file after its magic number. -/
structure FileParts where
  wrapNonce : List UInt8
  wrappedKey : List UInt8
  dataNonce : List UInt8
  ciphertext : List UInt8

/-- The cuts `get` makes. -/
def fileParts (raw : List UInt8) : FileParts :=
  let (wrapNonce, rest) := (raw.drop 4).splitAt NONCE_LEN
  let (wrappedKey, rest) := rest.splitAt WRAPPED_KEY_LEN
  let (dataNonce, ciphertext) := rest.splitAt NONCE_LEN
  ⟨wrapNonce, wrappedKey, dataNonce, ciphertext⟩

theorem length_MAGIC : MAGIC.length = 4 := by decide

theorem fileParts_append {n w m c : List UInt8} (hn : n.length = NONCE_LEN)
    (hw : w.length = WRAPPED_KEY_LEN) (hm : m.length = NONCE_LEN) :
    fileParts (MAGIC ++ (n ++ (w ++ (m ++ c)))) = ⟨n, w, m, c⟩ := by
  unfold fileParts
  rw [List.drop_left' length_MAGIC]
  simp only [List.splitAt_eq]
  rw [List.take_left' hn, List.drop_left' hn, List.take_left' hw, List.drop_left' hw,
    List.take_left' hm, List.drop_left' hm]

namespace BlobStore

variable (S : BlobStore)

/-- The bytes `put` writes: the key of the file, wrapped by the master key, and the content. -/
def encode (d : Draws) (plaintext : List UInt8) : Except StorageError (List UInt8) := do
  let wrappedKey ← cryptoOr (S.crypto.encrypt S.master d.wrapNonce.1 [] d.blobKey.1) "wrap blob key"
  let ciphertext ←
    cryptoOr (S.crypto.encrypt d.blobKey.1 d.dataNonce.1 (S.crypto.hash plaintext).asBytes plaintext)
      "encrypt blob"
  return MAGIC ++ d.wrapNonce.1 ++ wrappedKey ++ d.dataNonce.1 ++ ciphertext

/-- What `get` makes of the bytes of a file. -/
def decode (id : BlobId) (raw : List UInt8) : Except StorageError (List UInt8) :=
  if raw.length < HEADER_LEN ∨ raw.take 4 ≠ MAGIC then .error (corruptBlob id "bad header")
  else
    let file := fileParts raw
    match S.crypto.decrypt S.master file.wrapNonce [] file.wrappedKey with
    | none => .error (.crypto "unwrap blob key")
    | some blobKey =>
      if blobKey.length ≠ 32 then .error (corruptBlob id "bad key length")
      else
        match S.crypto.decrypt blobKey file.dataNonce id.asBytes file.ciphertext with
        | none => .error (.crypto "decrypt blob")
        | some plaintext =>
          if S.crypto.hash plaintext ≠ id then .error (corruptBlob id "content hash mismatch")
          else .ok plaintext

/-- What is read out of a file has the file's name as its digest. -/
theorem hash_of_decode {id : BlobId} {raw x : List UInt8} (h : S.decode id raw = .ok x) :
    S.crypto.hash x = id := by
  unfold decode at h
  split at h
  · cases h
  · dsimp only at h
    split at h
    · cases h
    split at h
    · cases h
    split at h
    · cases h
    split at h
    · cases h
    · rename_i hhash
      cases h
      simpa using hhash

variable {S}

/-- The parts of a file. -/
theorem encode_eq_ok {d : Draws} {x raw : List UInt8} (h : S.encode d x = .ok raw) :
    ∃ w c, S.crypto.encrypt S.master d.wrapNonce.1 [] d.blobKey.1 = some w ∧
      S.crypto.encrypt d.blobKey.1 d.dataNonce.1 (S.crypto.hash x).asBytes x = some c ∧
      raw = MAGIC ++ (d.wrapNonce.1 ++ (w ++ (d.dataNonce.1 ++ c))) := by
  unfold encode at h
  rcases hw : S.crypto.encrypt S.master d.wrapNonce.1 [] d.blobKey.1 with _ | w
  · rw [hw] at h
    cases h
  rcases hc : S.crypto.encrypt d.blobKey.1 d.dataNonce.1 (S.crypto.hash x).asBytes x with _ | c
  · rw [hw, hc] at h
    cases h
  rw [hw, hc] at h
  cases h
  exact ⟨w, c, rfl, rfl, by simp⟩

/-- **The round trip.** What is written is what is read. -/
theorem decode_encode (hP : S.crypto.Correct) {d : Draws} {x raw : List UInt8}
    (h : S.encode d x = .ok raw) : S.decode (S.crypto.hash x) raw = .ok x := by
  obtain ⟨w, c, hw, hc, rfl⟩ := encode_eq_ok h
  obtain ⟨⟨key, hkey⟩, ⟨wrapNonce, hwrap⟩, ⟨dataNonce, hdata⟩⟩ := d
  have hwlen : w.length = 48 := by rw [hP.length_encrypt hw, hkey]
  have hheader : ¬((MAGIC ++ (wrapNonce ++ (w ++ (dataNonce ++ c)))).length < HEADER_LEN ∨
      (MAGIC ++ (wrapNonce ++ (w ++ (dataNonce ++ c)))).take 4 ≠ MAGIC) := by
    rw [List.take_left' length_MAGIC]
    simp only [List.length_append, length_MAGIC, hwrap, hwlen, hdata, HEADER_LEN, NONCE_LEN,
      WRAPPED_KEY_LEN, ne_eq, not_true_eq_false, or_false]
    omega
  unfold decode
  rw [if_neg hheader, fileParts_append hwrap hwlen hdata]
  simp [hP.decrypt_encrypt hw, hP.decrypt_encrypt hc, hkey]

/-- A content that is not too long can be written. -/
theorem exists_encode (hP : S.crypto.Correct) (d : Draws) {x : List UInt8}
    (hx : x.length ≤ S.crypto.maxLength) : ∃ raw, S.encode d x = .ok raw := by
  obtain ⟨w, hw⟩ := Option.isSome_iff_exists.mp
    (hP.encrypt_some S.master d.wrapNonce.1 [] d.blobKey.1 (by rw [d.blobKey.2]; exact hP.key_fits))
  obtain ⟨c, hc⟩ := Option.isSome_iff_exists.mp
    (hP.encrypt_some d.blobKey.1 d.dataNonce.1 (S.crypto.hash x).asBytes x hx)
  exact ⟨MAGIC ++ d.wrapNonce.1 ++ w ++ d.dataNonce.1 ++ c, by rw [encode, hw, hc]; rfl⟩

end BlobStore

/-! ## Deleting an account -/

/-- The tables `delete_account` empties, in order. -/
def deletedTables : List String :=
  ["oauth_refresh_tokens", "oauth_grants", "approval_requests", "device_pairings",
    "passkey_credentials", "recovery_codes", "bookings", "scheduling_pages", "aliases",
    "submissions", "queue", "app_passwords", "pgp_peers", "pgp_own_keys", "ai_actions",
    "ai_annotations", "email_attributes", "email_keyword", "email_mailbox", "emails", "threads",
    "mailboxes", "states"]

/-- The schema the storage runs on. -/
def currentSchema : Relational.Schema := Migrations.schemaAt Migrations.MIGRATIONS.length

/-- `DELETE FROM table WHERE account_id = ?1`, on the mail tables that have the column. -/
def MailDb.deleteFrom (a : AccountId) (table : String) (db : MailDb) : MailDb :=
  match table with
  | "email_attributes" =>
    { db with emailAttributes := db.emailAttributes.filter fun r => r.accountId ≠ a }
  | "emails" => { db with emails := db.emails.filter fun r => r.accountId ≠ a }
  | "threads" => { db with threads := db.threads.filter fun r => r.accountId ≠ a }
  | "mailboxes" => { db with mailboxes := db.mailboxes.filter fun r => r.accountId ≠ a }
  | "states" => { db with states := db.states.filter fun r => r.accountId ≠ a }
  | _ => db

/-- The loop over the tables. SQLite compiles each statement against the schema. -/
def deleteTables (io : Io) (a : AccountId) : ℕ → List String → Tx MailDb Unit
  | _, [] => pure ()
  | n, table :: tables => do
    Tx.require (currentSchema.hasColumn table "account_id" = true) .sqlite
    Tx.exec io n (MailDb.deleteFrom a table)
    deleteTables io a (n + 1) tables

/-- `Storage::delete_account`, its transaction. It returns the blobs whose files to remove. -/
def deleteAccountTx (io : Io) (a : AccountId) : Tx MailDb (List BlobId) := do
  let blobIds ← Tx.query io 0 fun db =>
    ((db.blobs.filter fun b => db.emails.any fun e => e.blobId = b.id ∧ e.accountId = a).map
      (·.id)).eraseDups
  deleteTables io a 1 deletedTables
  Tx.exec io 24 fun db => { db with accounts := db.accounts.filter fun r => r.id ≠ a }
  Tx.exec io 25 id
  return blobIds

theorem deleteTables_ok {io : Io} {a : AccountId} {tables : List String} {n : ℕ} {u : Unit}
    {db db' : MailDb} (h : deleteTables io a n tables db = .ok (u, db')) :
    ∀ t ∈ tables, currentSchema.hasColumn t "account_id" = true := by
  induction tables generalizing n db with
  | nil => exact fun t ht => absurd ht List.not_mem_nil
  | cons t tables ih =>
    simp only [deleteTables, Tx.bind_eq_ok, Tx.require_eq_ok, Tx.exec_eq_ok] at h
    obtain ⟨_, _, ⟨hcolumn, rfl⟩, _, _, ⟨-, rfl⟩, hrest⟩ := h
    exact List.forall_mem_cons.mpr ⟨hcolumn, ih hrest⟩

/-- **No account is deleted.** The loop names a table that no migration creates, so the
transaction never comes to its end. -/
theorem deleteAccountTx_ne_ok {io : Io} {a : AccountId} {db db' : MailDb} {ids : List BlobId} :
    deleteAccountTx io a db ≠ .ok (ids, db') := by
  intro h
  simp only [deleteAccountTx, Tx.bind_eq_ok, Tx.query_eq_ok] at h
  obtain ⟨_, _, -, _, _, hloop, -⟩ := h
  have hsubmissions : currentSchema.hasColumn "submissions" "account_id" = false := by
    decide +kernel
  have hcolumn := deleteTables_ok hloop "submissions" (by decide)
  rw [hsubmissions] at hcolumn
  cases hcolumn

/-! ## The steps -/

/-- A call that writes the mail tables, other than those that store a blob or an email. -/
abbrev OtherMailOp : Type :=
  { op : MailOp // (∀ io b size now, op ≠ .putBlob io b size now) ∧ ∀ io g, op ≠ .ingest io g }

/-- A step of a program. -/
inductive BlobOp where
  /-- `path.exists()` -/
  | pathExists (id : BlobId)
  /-- `getrandom::fill`, of the key and the nonces -/
  | random
  /-- `write_atomically`: a file gets its final name at once, or not at all -/
  | writeAtomically (id : BlobId) (contents : List UInt8)
  /-- `std::fs::read` -/
  | read (id : BlobId)
  /-- the call of `put_blob` on the database -/
  | recordBlob (id : BlobId) (size : ℕ) (now : ℤ)
  | ingest (g : IngestArgs)
  | linkContact (a : AccountId) (fromAddr : String) (id : ContactId) (now : ℤ)
  | deleteAccount (a : AccountId)
  /-- `std::fs::remove_file` of `blobs/<hex>`, relative to the working directory -/
  | removeFile (id : BlobId)
  | mail (op : OtherMailOp)

/-- The value of a step. -/
abbrev BlobOp.Val : BlobOp → Type
  | .pathExists _ => Bool
  | .random => Draws
  | .read _ => List UInt8
  | .ingest _ => Ingested
  | .deleteAccount _ => List BlobId
  | _ => Unit

/-- What a step returns. -/
abbrev BlobOp.Ret (o : BlobOp) : Type := Except StorageError o.Val

/-- How `write_atomically` ends: the file is renamed, another writer was first, or an error. -/
inductive WriteOutcome where
  | renamed
  | kept
  | failed (e : StorageError)

/-- What the outside world decides about a step. -/
structure BlobChoice where
  draws : Option Draws
  outcome : WriteOutcome
  readable : Bool
  io : Io

/-- A file below the directory of the store: its directory and its name. -/
abbrev BlobPath : Type := String × String

/-- `path_for`. -/
def pathFor (id : BlobId) : BlobPath := (String.ofList (id.toHex.toList.take 2), id.toHex)

theorem pathFor_injective : Function.Injective pathFor := by
  intro a b h
  unfold pathFor at h
  exact BlobId.toHex_injective (Prod.mk.inj h).2

/-- The files of the store, and the mail tables. -/
structure BlobWorld where
  files : List (BlobPath × List UInt8)
  db : MailDb

namespace BlobWorld

/-- The bytes of a blob's file. -/
def file (w : BlobWorld) (id : BlobId) : Option (List UInt8) :=
  (w.files.find? fun f => f.1 = pathFor id).map (·.2)

/-- A file of a name. -/
def writeFile (w : BlobWorld) (id : BlobId) (contents : List UInt8) : BlobWorld :=
  { w with
    files := upsert (fun f => f.1 = pathFor id) (fun f => (f.1, contents)) (pathFor id, contents)
      w.files }

/-- The file of a path is removed. -/
def removeFile (w : BlobWorld) (path : BlobPath) : BlobWorld :=
  { w with files := w.files.filter fun f => f.1 ≠ path }

/-- A call on the database. -/
def call {α : Type} (w : BlobWorld) (body : Tx MailDb α) : Except StorageError α × BlobWorld :=
  let (r, db) := transaction body w.db
  (r, { w with db := db })

/-- Make a step. -/
def exec (U : Unicode) (c : BlobChoice) : (o : BlobOp) → BlobWorld → o.Ret × BlobWorld
  | .pathExists id, w => (.ok (c.readable && (w.file id).isSome), w)
  | .random, w => (cryptoOr c.draws "os rng", w)
  | .writeAtomically id contents, w =>
    match c.outcome with
    | .renamed => (.ok (), w.writeFile id contents)
    | .kept => (if (w.file id).isSome then .ok () else .error .io, w)
    | .failed e => (.error e, w)
  | .read id, w =>
    match w.file id with
    | none => (.error (.blobNotFound id), w)
    | some raw => (if c.readable then .ok raw else .error .io, w)
  | .recordBlob id size now, w => w.call (putBlobTx c.io id size now)
  | .ingest g, w => w.call (ingestTx c.io g)
  | .linkContact a fromAddr id now, w => w.call (linkContactTx U c.io a fromAddr id now)
  | .deleteAccount a, w => w.call (deleteAccountTx c.io a)
  | .removeFile id, w => (.ok (), w.removeFile ("", id.toHex))
  | .mail op, w => (.ok (), { w with db := mailStep U w.db op.1 })

end BlobWorld

/-! ## The programs -/

namespace Blobs

/-- A program; `throw` is `return Err`. -/
abbrev BlobProg (α : Type) : Type := ExceptT StorageError (Prog BlobOp.Ret) α

/-- One step; its error ends the program. -/
def ask (o : BlobOp) : BlobProg o.Val := ExceptT.mk (Prog.op o)

/-- A result. -/
def lift {α : Type} (r : Except StorageError α) : BlobProg α := ExceptT.mk (pure r)

/-- An error of the program is let go. -/
def ignore (p : BlobProg Unit) : BlobProg Unit := ExceptT.mk (p.run >>= fun _ => pure (.ok ()))

/-- The storage and what it takes from outside. -/
structure BlobCrates where
  store : BlobStore
  /-- `mail_parser` -/
  parse : List UInt8 → Option ParsedMessage
  unicode : Unicode
  /-- `limits().max_size_upload` -/
  maxSizeUpload : ℕ

variable (C : BlobCrates)

/-- Write the file of a blob that has none. -/
def writeNew (plaintext : List UInt8) : BlobProg Unit := do
  let draws ← ask .random
  let file ← lift (C.store.encode draws plaintext)
  ask (.writeAtomically (C.store.crypto.hash plaintext) file)

/-- `BlobStore::put`. -/
def put (plaintext : List UInt8) : BlobProg BlobId := do
  let id := C.store.crypto.hash plaintext
  let there ← ask (.pathExists id)
  if there then return id
  else do
    writeNew C plaintext
    return id

/-- `BlobStore::get`. -/
def get (id : BlobId) : BlobProg (List UInt8) := do
  let raw ← ask (.read id)
  lift (C.store.decode id raw)

/-- `Storage::put_blob`. -/
def putBlob (plaintext : List UInt8) (now : ℤ) : BlobProg BlobId := do
  let id ← put C plaintext
  ask (.recordBlob id plaintext.length now)
  return id

/-- A message to ingest. -/
structure IngestRequest where
  accountId : AccountId
  raw : List UInt8
  target : MailboxTarget
  authResults : Option String
  chatMode : Bool
  emailId : EmailId
  threadId : ThreadId
  contactId : ContactId
  now : ℤ

/-- The arguments of the transaction. -/
def ingestArgs (g : IngestRequest) (blobId : BlobId) : IngestArgs where
  accountId := g.accountId
  raw := ⟨C.parse g.raw, g.raw.length, blobId⟩
  target := g.target
  authResults := g.authResults
  chatMode := g.chatMode
  emailId := g.emailId
  threadId := g.threadId
  now := g.now

/-- The auto-link of the sender. -/
def linkSender (g : IngestRequest) : BlobProg Unit :=
  match (parseMeta (C.parse g.raw)).fromAddr with
  | none => pure ()
  | some fromAddr => ignore (ask (.linkContact g.accountId fromAddr g.contactId g.now))

/-- `Storage::ingest_email_into`. -/
def ingestEmailInto (g : IngestRequest) : BlobProg Ingested := do
  let blobId ← putBlob C g.raw g.now
  let ingested ← ask (.ingest (ingestArgs C g blobId))
  linkSender C g
  return ingested

/-- The removal of the files, whose errors are let go. -/
def removeFiles : List BlobId → BlobProg Unit
  | [] => pure ()
  | id :: ids => do
    ignore (ask (.removeFile id))
    removeFiles ids

/-- `Storage::delete_account`. -/
def deleteAccount (a : AccountId) : BlobProg Unit := do
  let blobIds ← ask (.deleteAccount a)
  removeFiles blobIds

/-! ### The endpoints -/

/-- An upload: who is authenticated, or the status that refuses them; and the account of the path. -/
structure UploadRequest where
  caller : Except ℕ AccountId
  accountId : String
  contentType : Option String
  body : List UInt8
  now : ℤ

/-- A download, with the account and the blob of the path. -/
structure DownloadRequest where
  caller : Except ℕ AccountId
  accountId : String
  blobId : String

/-- What a program answers. -/
inductive BlobReply where
  | stored (r : Except StorageError BlobId)
  | contents (r : Except StorageError (List UInt8))
  | ingested (r : Except StorageError Ingested)
  | deleted (r : Except StorageError Unit)
  | uploaded (accountId blobId contentType : String) (size : ℕ)
  | downloaded (bytes : List UInt8)
  | refused (status : ℕ)
  /-- the program ended in a panic: there is no answer -/
  | panicked
  | done

/-- The reply to an upload. -/
def uploadReply (u : UploadRequest) : Except StorageError BlobId → BlobReply
  | .ok id =>
    .uploaded u.accountId id.toHex (u.contentType.getD "application/octet-stream") u.body.length
  | .error _ => .refused 500

/-- The authenticated account, which must be that of the path; or the status that refuses. -/
def pathAccount (caller : Except ℕ AccountId) (accountId : String) : Except ℕ AccountId :=
  match caller with
  | .error status => .error status
  | .ok account => if accountId ≠ account.uuid.toString then .error 404 else .ok account

/-- `upload`. -/
def upload (u : UploadRequest) : Prog BlobOp.Ret BlobReply :=
  match pathAccount u.caller u.accountId with
  | .error status => pure (.refused status)
  | .ok _ =>
    if C.maxSizeUpload < u.body.length then pure (.refused 413)
    else (putBlob C u.body u.now).run >>= fun r => pure (uploadReply u r)

/-- The reply to a download. -/
def downloadReply : Except StorageError (List UInt8) → BlobReply
  | .ok bytes => .downloaded bytes
  | .error (.blobNotFound _) => .refused 404
  | .error _ => .refused 500

/-- `download`. -/
def download (d : DownloadRequest) : Prog BlobOp.Ret BlobReply :=
  match pathAccount d.caller d.accountId, BlobId.parse d.blobId.toList with
  | .error status, _ => pure (.refused status)
  | .ok _, none => pure .panicked
  | .ok _, some (.error _) => pure (.refused 404)
  | .ok _, some (.ok id) => (get C id).run >>= fun r => pure (downloadReply r)

/-- What the storage is asked to do. -/
inductive BlobRequest where
  | putBlob (plaintext : List UInt8) (now : ℤ)
  | getBlob (id : BlobId)
  | ingest (g : IngestRequest)
  | deleteAccount (a : AccountId)
  | upload (u : UploadRequest)
  | download (d : DownloadRequest)
  | mail (op : OtherMailOp)

/-- The content a request stores. -/
def BlobRequest.content : BlobRequest → Option (List UInt8)
  | .putBlob plaintext _ => some plaintext
  | .ingest g => some g.raw
  | .upload u => some u.body
  | _ => none

/-- The program of a request. -/
def blobHandle : BlobRequest → Prog BlobOp.Ret BlobReply
  | .putBlob plaintext now => (putBlob C plaintext now).run >>= fun r => pure (.stored r)
  | .getBlob id => (get C id).run >>= fun r => pure (.contents r)
  | .ingest g => (ingestEmailInto C g).run >>= fun r => pure (.ingested r)
  | .deleteAccount a => (deleteAccount a).run >>= fun r => pure (.deleted r)
  | .upload u => upload C u
  | .download d => download C d
  | .mail op => Prog.op (.mail op) >>= fun _ => pure .done

/-- A step of the installation. -/
abbrev BlobMove : Type := Move BlobRequest BlobChoice

/-- The requests, their programs and all steps so far. -/
abbrev BlobSys : Type := Sys BlobOp.Ret BlobRequest BlobReply BlobChoice BlobWorld

/-- A new installation, after some moves. -/
def blobRun (moves : List BlobMove) : BlobSys :=
  Runs.run (step (blobHandle C) fun o c w => some (w.exec C.unicode c o))
    (Sys.init ⟨[], MailDb.empty⟩) moves

end Blobs

end Owney
