import Mathlib.Data.Prod.Lex
import Mathlib.Data.String.Basic
import Owney.MailStore

/-!
# The reads behind `Foo/get` and `Foo/changes`

The `SELECT`s of `mail_queries` and `attributes`, as functions of the mail
tables. `changesSince` is the one with machine arithmetic in it: `max + 1` on
`usize`, and two casts to `i64`.
-/

namespace Owney

open Tables

/-! ## Emails -/

/-- `EmailRow`: what `emails_by_ids` returns for one email. -/
structure EmailRow where
  id : EmailId
  threadId : ThreadId
  blobId : BlobId
  messageId : Option String
  subject : Option String
  fromAddr : Option String
  receivedAt : ℤ
  size : ℕ
  mailboxIds : List MailboxId
  keywords : List String
  pgpStatus : Option String
  chatMode : Bool
  deriving DecidableEq, Repr

/-- `EmailAttribute`. -/
structure EmailAttribute where
  kind : String
  content : String
  dismissedAt : Option ℤ
  createdAt : ℤ
  updatedAt : ℤ
  deriving DecidableEq, Repr

namespace MailDb

/-- `SELECT mailbox_id FROM email_mailbox WHERE email_id = ?1`. -/
def mailboxIdsOf (db : MailDb) (e : EmailId) : List MailboxId :=
  (db.emailMailbox.filter (·.emailId = e)).map (·.mailboxId)

/-- `SELECT keyword FROM email_keyword WHERE email_id = ?1`. -/
def keywordsOf (db : MailDb) (e : EmailId) : List String :=
  (db.emailKeyword.filter (·.emailId = e)).map (·.keyword)

/-- The row of an email the account owns. -/
def findEmail (db : MailDb) (a : AccountId) (e : EmailId) : Option EmailsRow :=
  db.emails.find? fun r => r.accountId = a ∧ r.id = e

/-- An `emails` row with its two lists. -/
def toEmailRow (db : MailDb) (r : EmailsRow) : EmailRow :=
  ⟨r.id, r.threadId, r.blobId, r.messageId, r.subject, r.fromAddr, r.receivedAt, r.size,
    db.mailboxIdsOf r.id, db.keywordsOf r.id, r.pgpStatus, r.chatMode⟩

/-- One round of the loop of `emails_by_ids`. -/
def emailById (db : MailDb) (a : AccountId) (e : EmailId) : Option EmailRow :=
  (db.findEmail a e).map db.toEmailRow

/-- `Storage::emails_by_ids`: unknown ids are skipped. -/
def emailsByIds (db : MailDb) (a : AccountId) (ids : List EmailId) : List EmailRow :=
  ids.filterMap (db.emailById a)

/-- `Storage::list_email_attributes`. -/
def listEmailAttributes (db : MailDb) (a : AccountId) (e : EmailId) : List EmailAttribute :=
  orderBy (·.kind) ((db.emailAttributes.filter fun r => r.accountId = a ∧ r.emailId = e).map
    fun r => ⟨r.kind, r.content, r.dismissedAt, r.createdAt, r.updatedAt⟩)

end MailDb

/-! ## The email object -/

/-- What `email_json` takes from `serde_json`, over its type `J` of values. -/
structure JsonReader (J : Type) where
  /-- `Value::Null` -/
  null : J
  /-- `Value::String` -/
  string : String → J
  /-- `serde_json::from_str::<Value>`, without its error -/
  fromStr : String → Option J

/-- A value of `serverAttributes`. -/
structure AttributeObject (J : Type) where
  kind : String
  value : J
  dismissed : Bool
  createdAt : ℤ
  updatedAt : ℤ

/-- The members of an email object that come from the tables. -/
structure EmailObject (J : Type) where
  id : EmailId
  blobId : BlobId
  threadId : ThreadId
  mailboxIds : List MailboxId
  keywords : List String
  size : ℕ
  receivedAt : ℤ
  messageId : Option String
  subject : Option String
  pgpStatus : J
  chatMode : Bool
  serverAttributes : List (AttributeObject J)

section EmailJson

variable {J : Type} (R : JsonReader J)

/-- The `pgpStatus` shown for a stored text: null for a text that is not JSON. -/
def JsonReader.pgpStatus (stored : Option String) : J := (stored.bind R.fromStr).getD R.null

/-- A server attribute; a content that is not JSON is shown as a string. -/
def attributeJson (attr : EmailAttribute) : AttributeObject J :=
  ⟨attr.kind, (R.fromStr attr.content).getD (R.string attr.content), attr.dismissedAt.isSome,
    attr.createdAt, attr.updatedAt⟩

/-- `email_json`, without the members it reads from the blob. -/
def emailJson (row : EmailRow) (attributes : List EmailAttribute) : EmailObject J :=
  ⟨row.id, row.blobId, row.threadId, row.mailboxIds, row.keywords, row.size, row.receivedAt,
    row.messageId, row.subject, R.pgpStatus row.pgpStatus, row.chatMode,
    attributes.map (attributeJson R)⟩

/-- All of an email that `Email/get` shows and that can change. -/
def MailDb.emailContents (db : MailDb) (a : AccountId) (e : EmailId) : Option (EmailObject J) :=
  (db.emailById a e).map fun row => emailJson R row (db.listEmailAttributes a e)

end EmailJson

/-! ## Mailboxes and threads -/

/-- `MailboxRow`: what `mailboxes` returns for one mailbox. -/
structure MailboxRow where
  id : MailboxId
  parentId : Option MailboxId
  name : String
  role : Option String
  sortOrder : ℤ
  totalEmails : ℕ
  unreadEmails : ℕ
  updatedModseq : ModSeq
  deriving DecidableEq, Repr

namespace MailDb

/-- The count of `email_mailbox` rows of a mailbox. -/
def totalEmails (db : MailDb) (m : MailboxId) : ℕ :=
  (db.emailMailbox.filter (·.mailboxId = m)).length

/-- The count of those without a `$seen` keyword. -/
def unreadEmails (db : MailDb) (m : MailboxId) : ℕ :=
  (db.emailMailbox.filter fun r =>
    r.mailboxId = m ∧ (⟨r.emailId, "$seen"⟩ : EmailKeywordRow) ∉ db.emailKeyword).length

/-- A `mailboxes` row with its two counters. -/
def toMailboxRow (db : MailDb) (r : MailboxesRow) : MailboxRow :=
  ⟨r.id, r.parentId, r.name, r.role, r.sortOrder, db.totalEmails r.id, db.unreadEmails r.id,
    r.updatedModseq⟩

/-- `Storage::mailboxes`. -/
def mailboxRows (db : MailDb) (a : AccountId) : List MailboxRow :=
  (orderBy (fun r => toLex (r.sortOrder, r.name))
    (db.mailboxes.filter (·.accountId = a))).map db.toMailboxRow

/-- The emails of one thread, in arrival order. -/
def threadEmailIds (db : MailDb) (a : AccountId) (t : ThreadId) : List EmailId :=
  (orderBy (fun r => toLex (r.receivedAt, r.id.uuid.toNat))
    (db.emails.filter fun r => r.accountId = a ∧ r.threadId = t)).map (·.id)

/-- `Storage::thread_emails`: threads without emails are skipped. -/
def threadEmails (db : MailDb) (a : AccountId) (ts : List ThreadId) :
    List (ThreadId × List EmailId) :=
  ts.filterMap fun t =>
    match db.threadEmailIds a t with
    | [] => none
    | ids => some (t, ids)

end MailDb

/-! ## Changes -/

/-- The columns `changes_since` reads, of any of its three tables. -/
structure TrackedRow where
  id : Uuid
  accountId : AccountId
  createdModseq : ModSeq
  updatedModseq : ModSeq
  deriving DecidableEq, Repr

/-- `ChangesResult`. -/
structure ChangesResult where
  created : List Uuid
  updated : List Uuid
  newState : ModSeq
  hasMore : Bool
  deriving DecidableEq, Repr

/-- All the ids of a page. -/
def ChangesResult.ids (r : ChangesResult) : List Uuid := r.created ++ r.updated

namespace MailDb

/-- The rows of the table a data type is tracked in. -/
def trackedRows (db : MailDb) : DataType → List TrackedRow
  | .email => db.emails.map fun r => ⟨r.id.uuid, r.accountId, r.createdModseq, r.updatedModseq⟩
  | .mailbox => db.mailboxes.map fun r => ⟨r.id.uuid, r.accountId, r.createdModseq, r.updatedModseq⟩
  | .thread => db.threads.map fun r => ⟨r.id.uuid, r.accountId, r.createdModseq, r.updatedModseq⟩
  | .emailSubmission => []

end MailDb

/-- `x as i64` on an unsigned 64-bit word. -/
def asI64 (n : ℕ) : ℤ := if n < 2 ^ 63 then n else (n : ℤ) - 2 ^ 64

/-- `x + 1` on a 64-bit `usize`. With overflow checks the maximum panics, and the
caller of the job sees `Closed`; without them it wraps to zero. -/
def usizeSucc (checked : Bool) (max : UInt64) : Except StorageError ℕ :=
  if max.toNat + 1 < 2 ^ 64 then .ok (max.toNat + 1)
  else if checked then .error .closed else .ok 0

namespace MailDb

/-- `WHERE account_id = ?1 AND updated_modseq > ?2 ORDER BY updated_modseq`. -/
def changedRows (db : MailDb) (a : AccountId) (t : DataType) (since : ℤ) : List TrackedRow :=
  orderBy (·.updatedModseq)
    ((db.trackedRows t).filter fun r => r.accountId = a ∧ since < r.updatedModseq)

/-- The page `changes_since` cuts, once `LIMIT` is known. -/
def changesPage (db : MailDb) (a : AccountId) (t : DataType) (since max lim : ℕ) : ChangesResult :=
  let rows := limit (asI64 lim) (db.changedRows a t (asI64 since))
  let shown := rows.take max
  { created := (shown.filter fun r => since < r.createdModseq).map (·.id)
    updated := (shown.filter fun r => ¬since < r.createdModseq).map (·.id)
    newState := db.modseq a t
    hasMore := max < rows.length }

/-- `Storage::changes_since`. -/
def changesSince (checked : Bool) (db : MailDb) (a : AccountId) (t : DataType) (since : ℕ)
    (max : UInt64) : Except StorageError ChangesResult :=
  match t with
  | .emailSubmission => .error (.corrupt "submission changes not tracked yet")
  | t => (usizeSucc checked max).map fun lim => db.changesPage a t since max.toNat lim

end MailDb

end Owney
