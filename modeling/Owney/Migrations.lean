import Owney.Lib.Relational
import Owney.Transaction

/-!
# The schema and its migrations

`owney-storage/src/migrations.rs`: the statements of every migration, in order, and
`apply`, which brings a database to the newest version. Each migration runs in a
transaction of its own, which also writes `PRAGMA user_version`.

All tables are `STRICT`, so the columns of a primary key are `NOT NULL`.
-/

namespace Owney.Migrations

open Relational

/-! ## Columns and indexes -/

/-- A `TEXT` column. -/
def text (name : String) : Column := ⟨name, .text, false, .null, false, none⟩

/-- An `INTEGER` column. -/
def integer (name : String) : Column := ⟨name, .integer, false, .null, false, none⟩

/-- A `BLOB` column. -/
def blob (name : String) : Column := ⟨name, .blob, false, .null, false, none⟩

end Owney.Migrations

namespace Relational.Column

/-- `NOT NULL` -/
def notNull (c : Column) : Column := { c with required := true }

/-- `DEFAULT v` -/
def default (c : Column) (v : Value) : Column := { c with dflt := v }

/-- `COLLATE NOCASE` -/
def collateNocase (c : Column) : Column := { c with nocase := true }

/-- `REFERENCES table(column)` -/
def refs (c : Column) (table column : String) : Column := { c with parent := some (table, column) }

end Relational.Column

namespace Owney.Migrations

open Relational

/-- `CREATE INDEX name ON table (terms) WHERE filter` -/
def index (name table : String) (terms : List Term) (filter : Option Condition) : Statement :=
  .createIndex ⟨name, table, false, ⟨terms, filter⟩⟩

/-- `CREATE UNIQUE INDEX name ON table (terms) WHERE filter` -/
def uniqueIndex (name table : String) (terms : List Term) (filter : Option Condition) :
    Statement :=
  .createIndex ⟨name, table, true, ⟨terms, filter⟩⟩

/-! ## The migrations -/

/-- 0 -> 1: initial JMAP-shaped core schema. -/
def coreSchema : List Statement := [
  .createTable ⟨"accounts",
    [text "id", (text "email").notNull.collateNocase, text "display_name",
     (integer "created_at").notNull],
    ["id"], [["email"]], [], false⟩,
  .createTable ⟨"mailboxes",
    [text "id", (text "account_id").notNull.refs "accounts" "id",
     (text "parent_id").refs "mailboxes" "id", (text "name").notNull, text "role",
     (integer "sort_order").notNull.default (.integer 0), (integer "created_modseq").notNull,
     (integer "updated_modseq").notNull],
    ["id"], [], [], false⟩,
  uniqueIndex "mailboxes_by_name" "mailboxes"
    [.column "account_id", .ifnull "parent_id" (.text ""), .column "name"] none,
  uniqueIndex "mailboxes_by_role" "mailboxes"
    [.column "account_id", .column "role"] (some (.isNotNull "role")),
  .createTable ⟨"threads",
    [text "id", (text "account_id").notNull.refs "accounts" "id",
     (integer "created_modseq").notNull, (integer "updated_modseq").notNull],
    ["id"], [], [], false⟩,
  .createTable ⟨"emails",
    [text "id", (text "account_id").notNull.refs "accounts" "id",
     (text "thread_id").notNull.refs "threads" "id", (text "blob_id").notNull,
     text "message_id", text "subject", text "from_addr", (integer "received_at").notNull,
     (integer "size").notNull, (integer "created_modseq").notNull,
     (integer "updated_modseq").notNull],
    ["id"], [], [], false⟩,
  index "emails_by_arrival" "emails" [.column "account_id", .descending "received_at"] none,
  index "emails_by_thread" "emails" [.column "thread_id"] none,
  index "emails_by_message_id" "emails" [.column "account_id", .column "message_id"] none,
  .createTable ⟨"email_mailbox",
    [(text "email_id").notNull.refs "emails" "id",
     (text "mailbox_id").notNull.refs "mailboxes" "id"],
    ["email_id", "mailbox_id"], [], [], true⟩,
  index "email_mailbox_by_mailbox" "email_mailbox" [.column "mailbox_id"] none,
  .createTable ⟨"email_keyword",
    [(text "email_id").notNull.refs "emails" "id", (text "keyword").notNull],
    ["email_id", "keyword"], [], [], true⟩,
  .createTable ⟨"blobs",
    [text "id", (integer "size").notNull, (integer "refcount").notNull.default (.integer 0),
     (integer "created_at").notNull],
    ["id"], [], [], false⟩,
  .createTable ⟨"states",
    [(text "account_id").notNull.refs "accounts" "id", (text "data_type").notNull,
     (integer "modseq").notNull],
    ["account_id", "data_type"], [], [], true⟩]

/-- 1 -> 2: per-message authentication verdicts. -/
def authResults : List Statement := [
  .addColumn "emails" (text "auth_results")]

/-- 2 -> 3: durable outbound delivery queue, one row per recipient. -/
def queue : List Statement := [
  .createTable ⟨"queue",
    [text "id", (text "account_id").notNull.refs "accounts" "id", (text "blob_id").notNull,
     (text "mail_from").notNull, (text "recipient").notNull, (text "domain").notNull,
     (integer "attempts").notNull.default (.integer 0), (integer "next_attempt").notNull,
     (text "status").notNull.default (.text "queued"), text "last_error",
     (integer "created_at").notNull, (integer "updated_at").notNull],
    ["id"], [], [], false⟩,
  index "queue_due" "queue" [.column "status", .column "next_attempt"] none]

/-- 3 -> 4: API bearer tokens. -/
def appPasswords : List Statement := [
  .createTable ⟨"app_passwords",
    [text "token_hash", (text "account_id").notNull.refs "accounts" "id",
     (text "name").notNull, (integer "created_at").notNull, integer "last_used_at"],
    ["token_hash"], [], [], false⟩]

/-- 4 -> 5: PGP. -/
def pgp : List Statement := [
  .createTable ⟨"pgp_own_keys",
    [(text "account_id").refs "accounts" "id", (text "fingerprint").notNull,
     (text "blob_id").notNull, (integer "created_at").notNull],
    ["account_id"], [], [], false⟩,
  .createTable ⟨"pgp_peers",
    [(text "account_id").notNull.refs "accounts" "id", (text "address").notNull,
     (blob "cert").notNull, (text "fingerprint").notNull, text "prefer_encrypt",
     (integer "last_seen").notNull],
    ["account_id", "address"], [], [], true⟩,
  .addColumn "emails" (text "pgp_status")]

/-- `CREATE TABLE ai_annotations` -/
def aiAnnotations : Table :=
  ⟨"ai_annotations",
    [text "id", (text "account_id").notNull.refs "accounts" "id",
     (text "email_id").notNull.refs "emails" "id", (text "kind").notNull,
     (text "content").notNull, (integer "created_at").notNull],
    ["id"], [], [], false⟩

/-- 5 -> 6: the AI layer. -/
def ai : List Statement := [
  .createTable aiAnnotations,
  index "ai_annotations_by_email" "ai_annotations" [.column "email_id", .column "kind"] none,
  .createTable ⟨"ai_actions",
    [text "id", (text "account_id").notNull.refs "accounts" "id",
     (text "email_id").refs "emails" "id", (text "skill").notNull,
     (text "description").notNull, text "inverse_patch",
     (integer "undone").notNull.default (.integer 0), (integer "created_at").notNull],
    ["id"], [], [], false⟩,
  index "ai_actions_by_account" "ai_actions"
    [.column "account_id", .descending "created_at"] none,
  .createTable ⟨"ai_cursor",
    [(text "account_id").refs "accounts" "id", (integer "last_modseq").notNull],
    ["account_id"], [], [], true⟩]

/-- 6 -> 7: DMARC reporting. -/
def dmarc : List Statement := [
  .createTable ⟨"dmarc_reports",
    [text "id", (text "account_id").notNull.refs "accounts" "id",
     (integer "received_at").notNull, (text "reporter").notNull, (text "domain").notNull,
     (integer "date_range_start").notNull, (integer "date_range_end").notNull,
     (integer "dmarc_pass_count").notNull.default (.integer 0),
     (integer "dmarc_fail_count").notNull.default (.integer 0), text "policy_sent",
     text "policy_evaluated", text "raw_json", (integer "created_at").notNull],
    ["id"], [], [], false⟩,
  index "dmarc_reports_by_domain" "dmarc_reports"
    [.column "account_id", .column "domain", .descending "received_at"] none]

/-- 7 -> 8: soft-disable of accounts. -/
def disabledAccounts : List Statement := [
  .addColumn "accounts" (integer "disabled_at")]

/-- 8 -> 9: email aliases. -/
def aliases : List Statement := [
  .createTable ⟨"aliases",
    [text "id", (text "account_id").notNull.refs "accounts" "id",
     (text "alias_email").notNull.collateNocase, text "label", (integer "created_at").notNull,
     integer "expires_at", (integer "active").notNull.default (.integer 1)],
    ["id"], [["alias_email"]], [], false⟩,
  index "aliases_by_account" "aliases"
    [.column "account_id", .column "active"] (some (.equals "active" (.integer 1)))]

/-- 9 -> 10: spam filtering verdicts per message. -/
def spam : List Statement := [
  .addColumn "emails" (text "spam_results"),
  .createTable ⟨"spam_tokens",
    [(text "account_id").notNull.refs "accounts" "id", (text "token").notNull,
     (integer "spam_count").notNull.default (.integer 0),
     (integer "ham_count").notNull.default (.integer 0)],
    ["account_id", "token"], [], [], true⟩]

/-- 10 -> 11: chat mode. -/
def chat : List Statement := [
  .addColumn "emails" ((integer "chat_mode").default (.integer 0)),
  .createTable ⟨"chat_preferences",
    [(text "account_id").notNull.refs "accounts" "id",
     (text "contact_email").notNull.collateNocase, (text "preference").notNull,
     (integer "created_at").notNull, (integer "updated_at").notNull],
    ["account_id", "contact_email"], [], [], false⟩,
  index "chat_preferences_by_account" "chat_preferences" [.column "account_id"] none]

/-- 11 -> 12: queue priority for chat mode delivery. -/
def queuePriority : List Statement := [
  .addColumn "queue" ((integer "priority").default (.integer 0))]

/-- 12 -> 13: full-text search index tracking. -/
def searchIndexed : List Statement := [
  .addColumn "emails" ((integer "search_indexed").default (.integer 0))]

/-- 13 -> 14: calendar support. -/
def calendars : List Statement := [
  .createTable ⟨"calendars",
    [text "id", (text "account_id").notNull.refs "accounts" "id", (text "name").notNull,
     text "description", (integer "created_at").notNull, (integer "updated_at").notNull],
    ["id"], [], [], false⟩,
  index "calendars_by_account" "calendars" [.column "account_id"] none,
  .createTable ⟨"calendar_events",
    [text "id", (text "calendar_id").notNull.refs "calendars" "id", (text "title").notNull,
     text "description", (integer "start").notNull, (integer "end").notNull, text "rrule",
     (integer "created_at").notNull, (integer "updated_at").notNull],
    ["id"], [], [], false⟩,
  index "calendar_events_by_calendar" "calendar_events" [.column "calendar_id"] none,
  index "calendar_events_by_time" "calendar_events" [.column "start", .column "end"] none]

/-- 14 -> 15: contacts with auto-linking from email senders. -/
def contacts : List Statement := [
  .createTable ⟨"contacts",
    [text "id", (text "account_id").notNull.refs "accounts" "id",
     (text "email").notNull.collateNocase, text "name", text "phone",
     (integer "created_at").notNull, (integer "updated_at").notNull],
    ["id"], [["account_id", "email"]], [], false⟩,
  index "contacts_by_account" "contacts" [.column "account_id"] none]

/-- 15 -> 16: calendar sharing. -/
def calendarSharing : List Statement := [
  .createTable ⟨"calendar_sharing",
    [text "id", (text "calendar_id").notNull.refs "calendars" "id",
     (text "shared_with_account_id").notNull.refs "accounts" "id",
     (text "sharing_type").notNull, (text "permissions").notNull, (text "status").notNull,
     (integer "created_at").notNull, integer "accepted_at"],
    ["id"], [["calendar_id", "shared_with_account_id"]], [], false⟩,
  index "calendar_sharing_by_account" "calendar_sharing" [.column "shared_with_account_id"] none,
  index "calendar_sharing_by_calendar" "calendar_sharing" [.column "calendar_id"] none,
  .createTable ⟨"calendar_invitations",
    [text "id", (text "calendar_id").notNull.refs "calendars" "id",
     (text "inviter_account_id").notNull.refs "accounts" "id", (text "invitee_email").notNull,
     text "invitee_server_url", (text "sharing_type").notNull, (text "status").notNull,
     text "message", (integer "created_at").notNull],
    ["id"], [], [], false⟩,
  index "calendar_invitations_by_invitee" "calendar_invitations" [.column "invitee_email"] none,
  index "calendar_invitations_by_calendar" "calendar_invitations" [.column "calendar_id"] none]

/-- 16 -> 17: cross-server calendar federation. -/
def calendarFederation : List Statement := [
  .createTable ⟨"calendar_federation",
    [text "id", (text "calendar_id").notNull.refs "calendars" "id",
     (text "target_email").notNull, (text "target_server_url").notNull,
     (text "sharing_type").notNull, (text "permissions").notNull, (text "status").notNull,
     text "sync_token", integer "last_sync_at", (integer "created_at").notNull],
    ["id"], [["calendar_id", "target_email"]], [], false⟩,
  index "calendar_federation_by_calendar" "calendar_federation" [.column "calendar_id"] none,
  index "calendar_federation_by_status" "calendar_federation" [.column "status"] none]

/-- 17 -> 18: passwordless authentication. -/
def passwordless : List Statement := [
  .createTable ⟨"passkey_credentials",
    [blob "id", (text "account_id").notNull.refs "accounts" "id", (text "device_name").notNull,
     (blob "public_key").notNull, (integer "counter").notNull.default (.integer 0),
     (integer "backup_eligible").default (.integer 0),
     (integer "backup_state").default (.integer 0), blob "aaguid",
     (integer "created_at").notNull, integer "last_used_at",
     (integer "disabled").default (.integer 0)],
    ["id"], [], [], false⟩,
  index "passkey_by_account" "passkey_credentials" [.column "account_id"] none,
  index "passkey_by_disabled" "passkey_credentials" [.column "disabled"] none,
  .createTable ⟨"recovery_codes",
    [text "id", (text "account_id").notNull.refs "accounts" "id", (text "code_hash").notNull,
     (text "display_code").notNull, (integer "used").default (.integer 0), integer "used_at",
     (integer "created_at").notNull],
    ["id"], [], [], false⟩,
  index "recovery_by_account" "recovery_codes" [.column "account_id"] none,
  index "recovery_by_used" "recovery_codes" [.column "used"] none,
  .createTable ⟨"device_pairings",
    [text "id", (text "account_id").notNull.refs "accounts" "id", (text "device_name").notNull,
     (text "device_type").notNull, (blob "public_key").notNull,
     (integer "can_approve").default (.integer 1), text "push_token",
     (integer "paired_at").notNull, integer "last_used_at",
     (integer "disabled").default (.integer 0)],
    ["id"], [], [], false⟩,
  index "pairing_by_account" "device_pairings" [.column "account_id"] none,
  .createTable ⟨"approval_requests",
    [text "id", (text "account_id").notNull.refs "accounts" "id",
     (text "source_device").notNull, (text "request_type").notNull, (text "challenge").notNull,
     (integer "created_at").notNull, (integer "expires_at").notNull, (text "status").notNull,
     (text "approved_by_device").refs "device_pairings" "id", integer "approved_at"],
    ["id"], [], [], false⟩,
  index "approval_by_account" "approval_requests" [.column "account_id"] none,
  index "approval_by_expires" "approval_requests" [.column "expires_at"] none,
  index "approval_by_status" "approval_requests" [.column "status"] none]

/-- 18 -> 19: secure calendar federation. -/
def secureFederation : List Statement := [
  .createTable ⟨"server_identity",
    [integer "id", (text "fingerprint").notNull, (text "blob_id").notNull,
     (integer "created_at").notNull],
    ["id"], [], [.equals "id" (.integer 1)], false⟩,
  .createTable ⟨"federation_peers",
    [text "domain", (text "server_url").notNull, (blob "cert").notNull,
     (text "fingerprint").notNull, (integer "pinned_at").notNull, integer "last_seen"],
    ["domain"], [], [], false⟩,
  .createTable ⟨"federation_replay_nonce",
    [(text "sender_fp").notNull, (text "nonce").notNull, (integer "expires_at").notNull],
    ["sender_fp", "nonce"], [], [], true⟩,
  index "federation_nonce_gc" "federation_replay_nonce" [.column "expires_at"] none,
  .addColumn "calendar_federation" (text "peer_domain"),
  .addColumn "calendar_federation" (text "peer_fingerprint"),
  .addColumn "calendar_federation" (text "capability_secret"),
  .addColumn "calendar_federation" (text "direction"),
  .createTable ⟨"federation_event_map",
    [(text "federation_id").notNull.refs "calendar_federation" "id",
     (text "remote_uid").notNull, (text "local_event_id").notNull.refs "calendar_events" "id",
     (text "author_email").notNull, (integer "updated_at").notNull],
    ["federation_id", "remote_uid"], [], [], false⟩,
  index "federation_event_map_by_local" "federation_event_map" [.column "local_event_id"] none,
  .addColumn "calendar_events" (text "origin"),
  .addColumn "calendar_events" (text "origin_federation"),
  .createTable ⟨"federation_outbox",
    [text "id", (text "federation_id").notNull.refs "calendar_federation" "id",
     (text "peer_domain").notNull, (blob "payload").notNull,
     (integer "attempts").notNull.default (.integer 0), (integer "next_attempt").notNull,
     (text "status").notNull.default (.text "queued"), text "last_error",
     (integer "created_at").notNull, (integer "updated_at").notNull],
    ["id"], [], [], false⟩,
  index "federation_outbox_due" "federation_outbox"
    [.column "status", .column "next_attempt"] none]

/-- `CREATE TABLE email_attributes` -/
def attributes : Table :=
  ⟨"email_attributes",
    [text "id", (text "account_id").notNull.refs "accounts" "id",
     (text "email_id").notNull.refs "emails" "id", (text "kind").notNull,
     (text "content").notNull, integer "dismissed_at", (integer "created_at").notNull,
     (integer "updated_at").notNull],
    ["id"], [["email_id", "kind"]], [], false⟩

/-- `WHERE a.id = (SELECT b.id FROM ai_annotations b WHERE b.email_id = a.email_id AND
b.kind = a.kind ORDER BY b.created_at DESC, b.id DESC LIMIT 1)`. -/
def newestRemark : Latest := ⟨"id", ["email_id", "kind"], ["created_at", "id"]⟩

/-- The columns `email_attributes` is filled with. -/
def annotationItems : List Item :=
  [.column "id", .column "account_id", .column "email_id", .column "kind", .column "content", .null,
    .column "created_at", .column "created_at"]

/-- The copy of the annotations: the old table allowed duplicates per `(email_id, kind)`, so
only the newest is kept. -/
def copyAnnotations : Statement :=
  .insertSelect "email_attributes" "ai_annotations" annotationItems newestRemark

/-- 19 -> 20: server-added email attributes, with the newest annotation of each email and kind. -/
def emailAttributes : List Statement := [
  .createTable attributes,
  index "email_attributes_by_email" "email_attributes" [.column "email_id"] none,
  index "email_attributes_by_account" "email_attributes"
    [.column "account_id", .column "kind"] none,
  copyAnnotations]

/-- 20 -> 21: public scheduling pages and bookings. -/
def scheduling : List Statement := [
  .createTable ⟨"scheduling_pages",
    [text "id", (text "account_id").notNull.refs "accounts" "id", (text "slug").notNull,
     (text "title").notNull, text "description",
     (text "calendar_id").notNull.refs "calendars" "id", (text "timezone").notNull,
     (text "availability").notNull, (text "durations_mins").notNull,
     (integer "buffer_before_mins").notNull.default (.integer 0),
     (integer "buffer_after_mins").notNull.default (.integer 0),
     (integer "min_notice_mins").notNull.default (.integer 0), integer "max_per_day",
     text "valid_from", text "valid_until", (text "status").notNull.default (.text "active"),
     (integer "created_at").notNull, (integer "updated_at").notNull],
    ["id"], [], [], false⟩,
  uniqueIndex "scheduling_pages_by_slug" "scheduling_pages" [.column "slug"] none,
  index "scheduling_pages_by_account" "scheduling_pages" [.column "account_id"] none,
  .createTable ⟨"bookings",
    [text "id", (text "page_id").notNull.refs "scheduling_pages" "id",
     (text "account_id").notNull.refs "accounts" "id",
     (text "event_id").notNull.refs "calendar_events" "id", (text "visitor_name").notNull,
     (text "visitor_email").notNull, text "note", (integer "start").notNull,
     (integer "end").notNull, (text "status").notNull.default (.text "confirmed"),
     (text "cancel_token").notNull, (integer "created_at").notNull],
    ["id"], [], [], false⟩,
  index "bookings_by_page" "bookings" [.column "page_id", .column "start"] none,
  index "bookings_by_account_time" "bookings"
    [.column "account_id", .column "start", .column "end"] none]

/-- 21 -> 22: OIDC identity provider. -/
def oidc : List Statement := [
  .createTable ⟨"oauth_clients",
    [text "id", (text "name").notNull, (text "redirect_uris").notNull, text "secret_hash",
     (integer "disabled").notNull.default (.integer 0), (integer "created_at").notNull],
    ["id"], [], [], false⟩,
  .createTable ⟨"oauth_grants",
    [text "id", (text "account_id").notNull.refs "accounts" "id",
     (text "client_id").notNull.refs "oauth_clients" "id", (text "scopes").notNull,
     (integer "created_at").notNull, (integer "updated_at").notNull],
    ["id"], [["account_id", "client_id"]], [], false⟩,
  index "oauth_grants_by_account" "oauth_grants" [.column "account_id"] none,
  .createTable ⟨"oauth_refresh_tokens",
    [text "token_hash", (text "family_id").notNull,
     (text "account_id").notNull.refs "accounts" "id",
     (text "client_id").notNull.refs "oauth_clients" "id", (text "scopes").notNull,
     text "access_token_hash", (integer "expires_at").notNull, integer "used_at",
     integer "revoked_at", (integer "created_at").notNull],
    ["token_hash"], [], [], false⟩,
  index "oauth_refresh_by_family" "oauth_refresh_tokens" [.column "family_id"] none,
  index "oauth_refresh_by_account" "oauth_refresh_tokens"
    [.column "account_id", .column "client_id"] none,
  .addColumn "app_passwords" (integer "expires_at"),
  .addColumn "app_passwords" (text "scopes"),
  .addColumn "app_passwords" ((text "oauth_client_id").refs "oauth_clients" "id")]

/-- `MIGRATIONS[n]` upgrades the schema from `user_version` `n` to `n + 1`. -/
def MIGRATIONS : List (List Statement) :=
  [coreSchema, authResults, queue, appPasswords, pgp, ai, dmarc, disabledAccounts, aliases, spam,
    chat, queuePriority, searchIndexed, calendars, contacts, calendarSharing, calendarFederation,
    passwordless, secureFederation, emailAttributes, scheduling, oidc]

/-! ## apply -/

/-- One statement of `execute_batch`. -/
def runStatement (io : Io) (n : ℕ) (st : Statement) : Tx Db Unit := fun db =>
  match exec db st with
  | some db' => if io n then .ok (⟨⟩, db') else .error .sqlite
  | none => .error .sqlite

/-- `execute_batch`: the statements one after the other. -/
def executeBatch (io : Io) : ℕ → List Statement → Tx Db Unit
  | _, [] => pure ⟨⟩
  | n, st :: sts => do
    runStatement io n st
    executeBatch io (n + 1) sts

/-- The transaction of one migration, to version `version`. -/
def migrationTx (io : Io) (version : ℕ) (sql : List Statement) : Tx Db Unit := do
  Tx.exec io 0 id
  executeBatch io 3 sql
  Tx.exec io 1 fun db => { db with userVersion := version }
  Tx.exec io 2 id

/-- The loop of `apply`; `n` is the version the database has. -/
def applyLoop (io : ℕ → Io) : ℕ → List (List Statement) → Db → Except StorageError Unit × Db
  | _, [], db => (.ok ⟨⟩, db)
  | n, sql :: rest, db =>
    match transaction (migrationTx (io n) (n + 1) sql) db with
    | (.ok _, db') => applyLoop io (n + 1) rest db'
    | (.error e, db') => (.error e, db')

/-- `as usize` of an `i64`. -/
def asUsize (v : ℤ) : ℕ := (v % 2 ^ 64).toNat

/-- The text of the error for a database from a newer release. -/
def tooNew (current known : ℕ) : StorageError :=
  .corrupt ("database schema version " ++ toString current ++
    " is newer than this binary understands (" ++ toString known ++ "); refusing to open")

/-- `apply`, of a release that knows the migrations; `read` is whether `PRAGMA user_version`
could be read. -/
def apply (migrations : List (List Statement)) (read : Bool) (io : ℕ → Io) (db : Db) :
    Except StorageError Unit × Db :=
  if ¬read then (.error .sqlite, db)
  else if asUsize db.userVersion > migrations.length then
    (.error (tooNew (asUsize db.userVersion) migrations.length), db)
  else applyLoop io (asUsize db.userVersion) (migrations.drop (asUsize db.userVersion)) db

end Owney.Migrations
