import Owney.Lib.Tables
import Owney.Transaction

/-!
# The mail tables and the calls that write them

The part of the schema JMAP mail is served from (`emails`, `threads`,
`mailboxes` with their membership, keyword and attribute rows, and the
`states` table of modseqs), and every call of the storage crate that writes one
of these tables. A call takes what it draws from outside as arguments: the
clock, fresh identifiers, and which of its statements SQLite fails (`Io`).

`ingest_email_into` is three calls on the writer thread (`put_blob`, the ingest
transaction, the contact upsert), so it is three functions here.
-/

namespace Owney

open Tables

/-! ## Rows -/

/-- A row of `accounts`. -/
structure AccountsRow where
  id : AccountId
  email : String
  displayName : Option String
  createdAt : ℤ
  deriving DecidableEq, Repr

/-- A row of `mailboxes`. -/
structure MailboxesRow where
  id : MailboxId
  accountId : AccountId
  parentId : Option MailboxId
  name : String
  role : Option String
  sortOrder : ℤ
  createdModseq : ModSeq
  updatedModseq : ModSeq
  deriving DecidableEq, Repr

/-- A row of `threads`. -/
structure ThreadsRow where
  id : ThreadId
  accountId : AccountId
  createdModseq : ModSeq
  updatedModseq : ModSeq
  deriving DecidableEq, Repr

/-- A row of `emails`. -/
structure EmailsRow where
  id : EmailId
  accountId : AccountId
  threadId : ThreadId
  blobId : BlobId
  messageId : Option String
  subject : Option String
  fromAddr : Option String
  receivedAt : ℤ
  size : ℕ
  createdModseq : ModSeq
  updatedModseq : ModSeq
  authResults : Option String
  pgpStatus : Option String
  spamResults : Option String
  chatMode : Bool
  searchIndexed : Bool
  deriving DecidableEq, Repr

/-- A row of `email_mailbox`. -/
structure EmailMailboxRow where
  emailId : EmailId
  mailboxId : MailboxId
  deriving DecidableEq, Repr

/-- A row of `email_keyword`. -/
structure EmailKeywordRow where
  emailId : EmailId
  keyword : String
  deriving DecidableEq, Repr

/-- A row of `email_attributes`; `(emailId, kind)` is unique. -/
structure EmailAttributesRow where
  id : Uuid
  accountId : AccountId
  emailId : EmailId
  kind : String
  content : String
  dismissedAt : Option ℤ
  createdAt : ℤ
  updatedAt : ℤ
  deriving DecidableEq, Repr

/-- A row of `blobs`. -/
structure BlobsRow where
  id : BlobId
  size : ℕ
  refcount : ℤ
  createdAt : ℤ
  deriving DecidableEq, Repr

/-- A row of `contacts`; `(accountId, email)` is unique without regard to ASCII case. -/
structure ContactsRow where
  id : ContactId
  accountId : AccountId
  email : String
  createdAt : ℤ
  updatedAt : ℤ
  deriving DecidableEq, Repr

/-- A row of `states`. -/
structure StatesRow where
  accountId : AccountId
  dataType : DataType
  modseq : ModSeq
  deriving DecidableEq, Repr

/-- The mail tables. -/
structure MailDb where
  accounts : List AccountsRow
  mailboxes : List MailboxesRow
  threads : List ThreadsRow
  emails : List EmailsRow
  emailMailbox : List EmailMailboxRow
  emailKeyword : List EmailKeywordRow
  emailAttributes : List EmailAttributesRow
  blobs : List BlobsRow
  contacts : List ContactsRow
  states : List StatesRow
  deriving DecidableEq, Repr

/-- The tables after `migrations::apply` on a new file. -/
def MailDb.empty : MailDb := ⟨[], [], [], [], [], [], [], [], [], []⟩

/-- `i64::MAX`. -/
def i64Max : ℕ := 2 ^ 63 - 1

/-- Equality under `COLLATE NOCASE`, which folds ASCII letters. -/
def nocaseEq (s t : String) : Bool := asciiLower s = asciiLower t

namespace MailDb

/-! ## The modseq counters -/

/-- `Storage::state`: zero if the type was never bumped. -/
def modseq (db : MailDb) (a : AccountId) (t : DataType) : ModSeq :=
  ((db.states.find? fun r => r.accountId = a ∧ r.dataType = t).map (·.modseq)).getD 0

/-- The upsert of `bump`: the counter's row with the new value. -/
def setModseq (db : MailDb) (a : AccountId) (t : DataType) (m : ModSeq) : MailDb :=
  { db with
    states := upsert (fun r => r.accountId = a ∧ r.dataType = t) ({ · with modseq := m })
      ⟨a, t, m⟩ db.states }

/-- The counter one step on. -/
def bumped (db : MailDb) (a : AccountId) (t : DataType) : MailDb :=
  db.setModseq a t (db.modseq a t + 1)

end MailDb

/-- `bump`: `INSERT .. ON CONFLICT DO UPDATE SET modseq = modseq + 1 RETURNING modseq`.
Past `i64::MAX` the sum is a REAL, which the STRICT column refuses. -/
def bump (io : Io) (n : ℕ) (a : AccountId) (t : DataType) : Tx MailDb ModSeq := do
  let m ← Tx.query io n (·.modseq a t)
  Tx.require (m < i64Max) .sqlite
  Tx.exec io n (·.bumped a t)
  return m + 1

/-! ## Accounts -/

/-- The mailboxes every account starts with: name, role, sort order. -/
def defaultMailboxes : List (String × String × ℤ) :=
  [("Inbox", "inbox", 0), ("Screener", "screener", 1), ("Drafts", "drafts", 2),
    ("Sent", "sent", 3), ("Archive", "archive", 4), ("Junk", "junk", 5), ("Trash", "trash", 6)]

/-- The default mailboxes' rows, with ids drawn from `newId`. -/
def defaultMailboxRows (a : AccountId) (newId : ℕ → MailboxId) (m : ModSeq) : List MailboxesRow :=
  defaultMailboxes.zipIdx.map fun ⟨⟨name, role, sortOrder⟩, i⟩ =>
    ⟨newId i, a, none, name, some role, sortOrder, m, m⟩

/-- `Storage::create_account`, its transaction. -/
def createAccountTx (U : Unicode) (io : Io) (email : String) (displayName : Option String)
    (a : AccountId) (newId : ℕ → MailboxId) (now : ℤ) : Tx MailDb (List (DataType × ModSeq)) := do
  let email := U.toLowercase (U.trim email)
  let db ← Tx.query io 0 id
  Tx.require (∀ r ∈ db.accounts, r.id ≠ a ∧ nocaseEq r.email email = false) .sqlite
  Tx.exec io 1 fun db => { db with accounts := db.accounts ++ [⟨a, email, displayName, now⟩] }
  let m ← bump io 2 a .mailbox
  let rows := defaultMailboxRows a newId m
  Tx.require ((db.mailboxes ++ rows).map (·.id)).Nodup .sqlite
  Tx.exec io 3 fun db => { db with mailboxes := db.mailboxes ++ rows }
  Tx.exec io 4 id
  return [(.mailbox, m)]

/-! ## Ingest -/

/-- `Storage::put_blob`, the call that records the blob the file store now holds. -/
def putBlobTx (io : Io) (b : BlobId) (size : ℕ) (now : ℤ) : Tx MailDb PUnit :=
  Tx.exec io 0 fun db =>
    if db.blobs.any (·.id = b) then db else { db with blobs := db.blobs ++ [⟨b, size, 0, now⟩] }

/-- What `mail_parser` finds in a raw message. -/
structure ParsedMessage where
  messageId : Option String
  subject : Option String
  fromAddr : Option String
  /-- the `References` header's entries, in order -/
  references : List String
  /-- the `In-Reply-To` header, when it is one text -/
  inReplyTo : Option String

/-- `ParsedMeta`, without the fields that only the search index reads. -/
structure ParsedMeta where
  messageId : Option String
  subject : Option String
  fromAddr : Option String
  references : List String

/-- `parse_meta`: a message that defeats the parser is stored with no metadata. -/
def parseMeta : Option ParsedMessage → ParsedMeta
  | none => ⟨none, none, none, []⟩
  | some m => ⟨m.messageId, m.subject, m.fromAddr, m.references ++ m.inReplyTo.toList⟩

/-- Where an ingested message lands. -/
inductive MailboxTarget where
  | role (role : String)
  | id (id : MailboxId)

/-- `resolve_thread`: the thread of the newest message of the account that the
first matching reference names. -/
def resolveThread (db : MailDb) (a : AccountId) (refs : List String) : Option ThreadId :=
  refs.findSome? fun ref =>
    ((orderBy (fun r => -r.receivedAt)
      (db.emails.filter fun r => r.accountId = a ∧ r.messageId = some ref)).head?).map (·.threadId)

namespace MailDb

/-- The mailbox an ingest goes to. -/
def targetMailbox (db : MailDb) (a : AccountId) : MailboxTarget → Option MailboxId
  | .role role => (db.mailboxes.find? fun r => r.accountId = a ∧ r.role = some role).map (·.id)
  | .id m => (db.mailboxes.find? fun r => r.accountId = a ∧ r.id = m).map (·.id)

/-- The thread row of an ingest: a new one, or the old one's modseq. -/
def touchThread (db : MailDb) (a : AccountId) (found : Option ThreadId) (fresh : ThreadId)
    (m : ModSeq) : MailDb :=
  match found with
  | some t =>
    { db with threads := update (fun r => r.id = t) ({ · with updatedModseq := m }) db.threads }
  | none => { db with threads := db.threads ++ [⟨fresh, a, m, m⟩] }

/-- `UPDATE blobs SET refcount = refcount + 1 WHERE id = ?1`. -/
def linkBlob (db : MailDb) (b : BlobId) : MailDb :=
  let blobs := update (fun r => r.id = b) (fun r => { r with refcount := r.refcount + 1 }) db.blobs
  { db with blobs := blobs }

end MailDb

/-- The text of the error for a target that is not there. -/
def MailboxTarget.missing (a : AccountId) : MailboxTarget → StorageError
  | .role r => .corrupt ("account " ++ a.uuid.toString ++ " has no " ++ r ++ " mailbox")
  | .id m => .corrupt ("no mailbox " ++ m.uuid.toString)

/-- A raw message as `ingest_email_into` takes it: what the parser makes of it,
its length and its digest. -/
structure RawMessage where
  parsed : Option ParsedMessage
  size : ℕ
  blobId : BlobId

/-- The arguments of the ingest transaction. -/
structure IngestArgs where
  accountId : AccountId
  raw : RawMessage
  target : MailboxTarget
  authResults : Option String
  chatMode : Bool
  /-- `EmailId::new()` -/
  emailId : EmailId
  /-- `ThreadId::new()`, used when no reference matches -/
  threadId : ThreadId
  now : ℤ

/-- The row an ingest adds to `emails`. -/
def IngestArgs.row (g : IngestArgs) (t : ThreadId) (m : ModSeq) : EmailsRow where
  id := g.emailId
  accountId := g.accountId
  threadId := t
  blobId := g.raw.blobId
  messageId := (parseMeta g.raw.parsed).messageId
  subject := (parseMeta g.raw.parsed).subject
  fromAddr := (parseMeta g.raw.parsed).fromAddr
  receivedAt := g.now
  size := g.raw.size
  createdModseq := m
  updatedModseq := m
  authResults := g.authResults
  pgpStatus := none
  spamResults := none
  chatMode := g.chatMode
  searchIndexed := false

/-- What an ingest returns: the `IngestedEmail` and the state changes. -/
abbrev Ingested : Type := (EmailId × ThreadId × BlobId) × List (DataType × ModSeq)

/-- `Storage::ingest_email_into`, its transaction. -/
def ingestTx (io : Io) (g : IngestArgs) : Tx MailDb Ingested := do
  let mailbox ← Tx.query io 0 (·.targetMailbox g.accountId g.target)
  let mailboxId ← Tx.okOr mailbox (g.target.missing g.accountId)
  let found ← Tx.query io 1 (resolveThread · g.accountId (parseMeta g.raw.parsed).references)
  let emailSeq ← bump io 2 g.accountId .email
  let threadSeq ← bump io 3 g.accountId .thread
  let mailboxSeq ← bump io 4 g.accountId .mailbox
  let threadId := found.getD g.threadId
  let db ← Tx.query io 5 id
  Tx.require (found = none → g.threadId ∉ db.threads.map (·.id)) .sqlite
  Tx.exec io 5 (·.touchThread g.accountId found g.threadId threadSeq)
  Tx.require (g.emailId ∉ db.emails.map (·.id)) .sqlite
  Tx.exec io 6 fun db => { db with emails := db.emails ++ [g.row threadId emailSeq] }
  Tx.exec io 7 fun db =>
    { db with emailMailbox := db.emailMailbox ++ [⟨g.emailId, mailboxId⟩] }
  Tx.exec io 8 (·.linkBlob g.raw.blobId)
  Tx.exec io 9 id
  return ((g.emailId, threadId, g.raw.blobId),
    [(.email, emailSeq), (.thread, threadSeq), (.mailbox, mailboxSeq)])

/-- The auto-link of the sender: `INSERT OR IGNORE INTO contacts`. -/
def linkContactTx (U : Unicode) (io : Io) (a : AccountId) (fromAddr : String) (id : ContactId)
    (now : ℤ) : Tx MailDb PUnit :=
  Tx.exec io 0 fun db =>
    let email := U.toLowercase fromAddr
    if db.contacts.any (fun r => r.id = id ∨ (r.accountId = a ∧ nocaseEq r.email email)) then db
    else { db with contacts := db.contacts ++ [⟨id, a, email, now, now⟩] }

/-! ## Email/set -/

namespace MailDb

/-- `SELECT 1 FROM emails WHERE account_id = ?1 AND id = ?2`. -/
def ownsEmail (db : MailDb) (a : AccountId) (e : EmailId) : Bool :=
  db.emails.any fun r => r.accountId = a ∧ r.id = e

/-- `SELECT 1 FROM mailboxes WHERE account_id = ?1 AND id = ?2`. -/
def ownsMailbox (db : MailDb) (a : AccountId) (m : MailboxId) : Bool :=
  db.mailboxes.any fun r => r.accountId = a ∧ r.id = m

/-- `DELETE FROM email_keyword` and one `INSERT OR IGNORE` for each keyword, lower-cased. -/
def replaceKeywords (db : MailDb) (U : Unicode) (e : EmailId) (keywords : List String) : MailDb :=
  { db with
    emailKeyword := (db.emailKeyword.filter fun r => ¬r.emailId = e) ++
      ((keywords.map U.toLowercase).eraseDups.map fun k => ⟨e, k⟩) }

/-- `DELETE FROM email_mailbox` and one `INSERT` for each mailbox. -/
def replaceMailboxes (db : MailDb) (e : EmailId) (mailboxIds : List MailboxId) : MailDb :=
  { db with
    emailMailbox := (db.emailMailbox.filter fun r => ¬r.emailId = e) ++
      (mailboxIds.map fun m => ⟨e, m⟩) }

/-- `UPDATE emails SET updated_modseq = ?2 WHERE id = ?1`. -/
def touchEmail (db : MailDb) (e : EmailId) (m : ModSeq) : MailDb :=
  { db with emails := update (fun r => r.id = e) ({ · with updatedModseq := m }) db.emails }

end MailDb

/-- The keyword half of `update_email`. -/
def setKeywords (U : Unicode) (io : Io) (e : EmailId) : Option (List String) → Tx MailDb PUnit
  | none => Tx.pure ⟨⟩
  | some keywords => Tx.exec io 1 (·.replaceKeywords U e keywords)

/-- The mailbox half of `update_email`: a target that cannot be read counts as missing. -/
def setMailboxes (io : Io) (a : AccountId) (e : EmailId) :
    Option (List MailboxId) → Tx MailDb PUnit
  | none => Tx.pure ⟨⟩
  | some mailboxIds => do
    Tx.require (mailboxIds ≠ []) (.corrupt "an email must belong to at least one mailbox")
    let db ← Tx.get
    let missing := mailboxIds.find? fun m => ¬(io 2 ∧ db.ownsMailbox a m)
    Tx.require (missing = none)
      (.corrupt ("no mailbox " ++ (missing.map (·.uuid.toString)).getD ""))
    -- `(email_id, mailbox_id)` is the primary key
    Tx.require mailboxIds.Nodup .sqlite
    Tx.exec io 3 (·.replaceMailboxes e mailboxIds)

/-- `Storage::update_email`. -/
def updateEmailTx (U : Unicode) (io : Io) (a : AccountId) (e : EmailId)
    (keywords : Option (List String)) (mailboxIds : Option (List MailboxId)) :
    Tx MailDb (List (DataType × ModSeq)) := do
  let db ← Tx.get
  Tx.require (io 0 ∧ db.ownsEmail a e) (.corrupt ("no email " ++ e.uuid.toString))
  setKeywords U io e keywords
  setMailboxes io a e mailboxIds
  let emailSeq ← bump io 4 a .email
  let mailboxSeq ← bump io 5 a .mailbox
  Tx.exec io 6 (·.touchEmail e emailSeq)
  Tx.exec io 7 id
  return [(.email, emailSeq), (.mailbox, mailboxSeq)]

/-! ## Attributes -/

/-- `owned_email_check`. -/
def ownedEmailCheck (io : Io) (a : AccountId) (e : EmailId) : Tx MailDb PUnit := do
  let db ← Tx.get
  Tx.require (io 0 ∧ db.ownsEmail a e) .notAuthorized

namespace MailDb

/-- The upsert of one attribute; dismissal is sticky. -/
def upsertAttribute (db : MailDb) (a : AccountId) (e : EmailId) (kind content : String)
    (newId : Uuid) (now : ℤ) : MailDb :=
  { db with
    emailAttributes := upsert (fun r => r.emailId = e ∧ r.kind = kind)
      ({ · with content := content, updatedAt := now })
      ⟨newId, a, e, kind, content, none, now, now⟩ db.emailAttributes }

/-- The rows a dismissal updates: the owner's, not yet dismissed. -/
def dismissible (a : AccountId) (e : EmailId) (kind : String) (r : EmailAttributesRow) : Bool :=
  r.accountId = a ∧ r.emailId = e ∧ r.kind = kind ∧ r.dismissedAt = none

/-- `UPDATE email_attributes SET dismissed_at = ?4, updated_at = ?4`. -/
def dismissAttribute (db : MailDb) (a : AccountId) (e : EmailId) (kind : String) (now : ℤ) : MailDb :=
  { db with
    emailAttributes := update (dismissible a e kind)
      ({ · with dismissedAt := some now, updatedAt := now }) db.emailAttributes }

end MailDb

/-- `Storage::set_email_attribute`. -/
def setEmailAttributeTx (io : Io) (a : AccountId) (e : EmailId) (kind content : String)
    (newId : Uuid) (now : ℤ) : Tx MailDb (List (DataType × ModSeq)) := do
  ownedEmailCheck io a e
  let db ← Tx.query io 1 id
  Tx.require (newId ∉ db.emailAttributes.map (·.id)) .sqlite
  Tx.exec io 1 (·.upsertAttribute a e kind content newId now)
  let seq ← bump io 2 a .email
  Tx.exec io 3 (·.touchEmail e seq)
  Tx.exec io 4 id
  return [(.email, seq)]

/-- `Storage::dismiss_email_attribute`. -/
def dismissEmailAttributeTx (io : Io) (a : AccountId) (e : EmailId) (kind : String) (now : ℤ) :
    Tx MailDb (List (DataType × ModSeq)) := do
  ownedEmailCheck io a e
  let db ← Tx.query io 1 id
  Tx.exec io 1 (·.dismissAttribute a e kind now)
  Tx.require (db.emailAttributes.any (MailDb.dismissible a e kind))
    (.badInput ("no active attribute " ++ kind ++ " on email " ++ e.uuid.toString))
  let seq ← bump io 2 a .email
  Tx.exec io 3 (·.touchEmail e seq)
  Tx.exec io 4 id
  return [(.email, seq)]

/-! ## Single-column writes -/

/-- `Storage::set_pgp_status`. -/
def setPgpStatusTx (io : Io) (e : EmailId) (status : String) : Tx MailDb PUnit :=
  Tx.exec io 0 fun db =>
    { db with emails := update (fun r => r.id = e) ({ · with pgpStatus := some status }) db.emails }

/-- `Storage::set_spam_verdict`. -/
def setSpamVerdictTx (io : Io) (e : EmailId) (verdict : String) : Tx MailDb PUnit :=
  Tx.exec io 0 fun db =>
    { db with emails := update (fun r => r.id = e) ({ · with spamResults := some verdict }) db.emails }

/-- The background indexer's `UPDATE emails SET search_indexed = 1`. -/
def markIndexedTx (io : Io) (e : EmailId) : Tx MailDb PUnit :=
  Tx.exec io 0 fun db =>
    { db with emails := update (fun r => r.id = e) ({ · with searchIndexed := true }) db.emails }

/-! ## Calls -/

/-- One call that writes the mail tables, with everything it draws from outside. -/
inductive MailOp where
  | createAccount (io : Io) (email : String) (displayName : Option String) (a : AccountId)
      (newId : ℕ → MailboxId) (now : ℤ)
  | putBlob (io : Io) (b : BlobId) (size : ℕ) (now : ℤ)
  | ingest (io : Io) (g : IngestArgs)
  | linkContact (io : Io) (a : AccountId) (fromAddr : String) (id : ContactId) (now : ℤ)
  | updateEmail (io : Io) (a : AccountId) (e : EmailId) (keywords : Option (List String))
      (mailboxIds : Option (List MailboxId))
  | setEmailAttribute (io : Io) (a : AccountId) (e : EmailId) (kind content : String)
      (newId : Uuid) (now : ℤ)
  | dismissEmailAttribute (io : Io) (a : AccountId) (e : EmailId) (kind : String) (now : ℤ)
  | setPgpStatus (io : Io) (e : EmailId) (status : String)
  | setSpamVerdict (io : Io) (e : EmailId) (verdict : String)
  | markIndexed (io : Io) (e : EmailId)

/-- The database after a call, whatever it returned. -/
def mailStep (U : Unicode) (db : MailDb) : MailOp → MailDb
  | .createAccount io email displayName a newId now =>
    (transaction (createAccountTx U io email displayName a newId now) db).2
  | .putBlob io b size now => (transaction (putBlobTx io b size now) db).2
  | .ingest io g => (transaction (ingestTx io g) db).2
  | .linkContact io a fromAddr id now => (transaction (linkContactTx U io a fromAddr id now) db).2
  | .updateEmail io a e keywords mailboxIds =>
    (transaction (updateEmailTx U io a e keywords mailboxIds) db).2
  | .setEmailAttribute io a e kind content newId now =>
    (transaction (setEmailAttributeTx io a e kind content newId now) db).2
  | .dismissEmailAttribute io a e kind now =>
    (transaction (dismissEmailAttributeTx io a e kind now) db).2
  | .setPgpStatus io e status => (transaction (setPgpStatusTx io e status) db).2
  | .setSpamVerdict io e verdict => (transaction (setSpamVerdictTx io e verdict) db).2
  | .markIndexed io e => (transaction (markIndexedTx io e) db).2

end Owney
