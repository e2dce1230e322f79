import Owney.Lib.SqlEval
import Owney.MailQueries

/-!
# `Email/query`

`email_query` picks one of three paths: a text search whose hits go through
`filter_emails`, the filters of `query_emails_with_filters`, or the plain
`query_emails`. The plain path binds its parameters. The other two build SQL with
`format!`, so what they do is up to SQLite: `Sqlite` is the engine, and `Conforms` what
is assumed of it, on the fragment of SQL that the code itself writes.
-/

namespace Owney

open Tables

/-! ## The engine -/

/-- The names the generated SQL uses. -/
def vocabulary : List String :=
  ["emails", "e", "id", "account_id", "thread_id", "received_at", "email_mailbox", "em",
    "email_id", "mailbox_id", "email_keyword", "ek", "keyword"]

/-- The columns of the three tables, as far as the vocabulary names them. -/
def mailColumns : String → Option (List String)
  | "emails" => some ["id", "account_id", "thread_id", "received_at"]
  | "email_mailbox" => some ["email_id", "mailbox_id"]
  | "email_keyword" => some ["email_id", "keyword"]
  | _ => none

/-- A row of `emails` in SQL. -/
def EmailsRow.toSql (r : EmailsRow) : Sql.Row
  | "id" => .text r.id.uuid.toString
  | "account_id" => .text r.accountId.uuid.toString
  | "thread_id" => .text r.threadId.uuid.toString
  | "received_at" => .int r.receivedAt
  | _ => .null

/-- A row of `email_mailbox` in SQL. -/
def EmailMailboxRow.toSql (r : EmailMailboxRow) : Sql.Row
  | "email_id" => .text r.emailId.uuid.toString
  | "mailbox_id" => .text r.mailboxId.uuid.toString
  | _ => .null

/-- A row of `email_keyword` in SQL. -/
def EmailKeywordRow.toSql (r : EmailKeywordRow) : Sql.Row
  | "email_id" => .text r.emailId.uuid.toString
  | "keyword" => .text r.keyword
  | _ => .null

/-- The mail tables as SQL sees them. -/
def MailDb.toSql (db : MailDb) : Sql.Database where
  columns := mailColumns
  rows
    | "emails" => db.emails.map (·.toSql)
    | "email_mailbox" => db.emailMailbox.map (·.toSql)
    | "email_keyword" => db.emailKeyword.map (·.toSql)
    | _ => []

/-- Prepare a text, bind parameters, and collect the first column. -/
structure Sqlite where
  query : MailDb → String → List Sql.Value → Except StorageError (List Sql.Value)

/-- What is relied on: a text with an open string literal is refused, and a statement
of the fragment either is refused whatever the tables hold (a limit on its length), or
gives the rows it means. Nothing is assumed of other texts. -/
structure Sqlite.Conforms (S : Sqlite) : Prop where
  unterminated : ∀ text, Sql.lex vocabulary text = .unterminated →
    ∀ db ps, S.query db text ps = .error .sqlite
  statement : ∀ text ts stmt, Sql.lex vocabulary text = .tokens ts → Sql.parse ts = some stmt →
    (∀ db ps, S.query db text ps = .error .sqlite) ∨
      ∀ (db : MailDb) ps out, stmt.eval db.toSql ps = some out → S.query db text ps = .ok out

/-- The engine that knows the fragment and nothing else. -/
def Sqlite.fragment : Sqlite where
  query db text ps :=
    match Sql.lex vocabulary text with
    | .tokens ts =>
      match (Sql.parse ts).bind fun stmt => stmt.eval db.toSql ps with
      | some out => .ok out
      | none => .error .sqlite
    | _ => .error .sqlite

theorem Sqlite.fragment_conforms : Sqlite.fragment.Conforms where
  unterminated text h db ps := by
    simp only [Sqlite.fragment, h]
  statement text ts stmt h hparse := by
    refine .inr fun db ps out hout => ?_
    simp only [Sqlite.fragment, h, hparse, Option.bind_some, hout]

/-! ## The filter -/

/-- The filter object of `Email/query`. -/
structure EmailFilter where
  inMailbox : Option String := none
  hasKeyword : Option String := none
  notKeyword : Option String := none
  text : Option String := none
  after : Option Int64 := none
  before : Option Int64 := none
  allInThread : Option String := none
  isFlagged : Option Bool := none
  isUnread : Option Bool := none
  deriving DecidableEq, Repr

/-- One element of `where_parts`. -/
inductive WherePart where
  /-- the account as a parameter -/
  | accountParam
  /-- the account in the text -/
  | account (a : AccountId)
  | idIn (ids : List EmailId)
  | inMailbox (m : String)
  | keyword (present : Bool) (k : String)
  | after (n : Int64)
  | before (n : Int64)
  | thread (t : String)
  deriving DecidableEq, Repr

/-- The SQL text of a part. -/
def WherePart.text : WherePart → String
  | .accountParam => "e.account_id = ?1"
  | .account a => "e.account_id = '" ++ (a.uuid.toString ++ "'")
  | .idIn ids =>
    "e.id IN (" ++ (joinWith "," (ids.map fun id => "'" ++ (id.uuid.toString ++ "'")) ++ ")")
  | .inMailbox m =>
    "EXISTS (SELECT 1 FROM email_mailbox em WHERE em.email_id = e.id AND em.mailbox_id = '" ++
      (m ++ "')")
  | .keyword true k =>
    "EXISTS (SELECT 1 FROM email_keyword ek WHERE ek.email_id = e.id AND ek.keyword = '" ++
      (k ++ "')")
  | .keyword false k =>
    "NOT EXISTS (SELECT 1 FROM email_keyword ek WHERE ek.email_id = e.id AND ek.keyword = '" ++
      (k ++ "')")
  | .after n => "e.received_at > " ++ toString n.toInt
  | .before n => "e.received_at < " ++ toString n.toInt
  | .thread t => "e.thread_id = '" ++ (t ++ "'")

/-- The parts of `isFlagged` and `isUnread`. -/
def EmailFilter.flagParts (f : EmailFilter) : List WherePart :=
  (f.isFlagged.map fun flagged => .keyword flagged "$Flagged").toList ++
    (f.isUnread.map fun unread => .keyword (!unread) "$Seen").toList

/-- The `where_parts` of `filter_emails`. -/
def EmailFilter.filterParts (f : EmailFilter) (ids : List EmailId) : List WherePart :=
  .idIn ids ::
    (f.inMailbox.map .inMailbox).toList ++ (f.hasKeyword.map (.keyword true)).toList ++
    (f.notKeyword.map (.keyword false)).toList ++ (f.after.map .after).toList ++
    (f.before.map .before).toList ++ (f.allInThread.map .thread).toList ++ f.flagParts

/-- The `where_parts` of `query_emails_with_filters`, after the account. -/
def EmailFilter.queryParts (f : EmailFilter) : List WherePart :=
  (f.inMailbox.map .inMailbox).toList ++ (f.after.map .after).toList ++
    (f.before.map .before).toList ++ (f.allInThread.map .thread).toList ++ f.flagParts

/-- `where_parts.join(" AND ")`. -/
def whereClause (parts : List WherePart) : String := joinWith " AND " (parts.map (·.text))

/-- `ORDER BY e.received_at DESC, e.id DESC`. -/
def orderClause : String := " ORDER BY e.received_at DESC, e.id DESC"

/-- The query of `filter_emails`. -/
def filterSql (parts : List WherePart) : String :=
  "SELECT e.id FROM emails e WHERE " ++ (whereClause parts ++ orderClause)

/-- The query of `query_emails_with_filters`. -/
def querySql (parts : List WherePart) (limit position : ℕ) : String :=
  "SELECT id FROM emails e WHERE " ++ (whereClause parts ++ (orderClause ++
    (" LIMIT " ++ (toString limit ++ (" OFFSET " ++ toString position)))))

/-- The count of `query_emails_with_filters`. -/
def countSql (parts : List WherePart) : String :=
  "SELECT count(*) FROM emails e WHERE " ++ whereClause parts

/-! ## The three paths -/

/-- `r.get::<_, String>(0)` on every row. -/
def textRows (rows : List Sql.Value) : Except StorageError (List String) :=
  rows.mapM fun
    | .text s => .ok s
    | _ => .error .sqlite

/-- `query_row(.., |r| r.get::<_, i64>(0))`. -/
def countRow : List Sql.Value → Except StorageError ℤ
  | .int n :: _ => .ok n
  | _ => .error .sqlite

/-- `id.parse().unwrap_or_else(|_| EmailId::new())`. -/
def parseEmailId (fresh : EmailId) (s : String) : EmailId :=
  match Uuid.parseStr s with
  | some u => ⟨u⟩
  | none => fresh

/-- The value of a printed account id. -/
def accountText (a : AccountId) : Sql.Value := .text a.uuid.toString

/-- `Storage::filter_emails`; `fresh` is the id drawn for a text that is none. -/
def filterEmails (S : Sqlite) (fresh : EmailId) (db : MailDb) (a : AccountId)
    (ids : List EmailId) (f : EmailFilter) : Except StorageError (List EmailId) :=
  if ids = [] then .ok []
  else do
    let rows ← S.query db (filterSql (.accountParam :: f.filterParts ids)) [accountText a]
    let texts ← textRows rows
    return texts.map (parseEmailId fresh)

/-- `Storage::query_emails_with_filters`. -/
def queryEmailsWithFilters (S : Sqlite) (db : MailDb) (a : AccountId) (f : EmailFilter)
    (position limit : ℕ) : Except StorageError (List String × ℤ × ModSeq) := do
  let parts := .account a :: f.queryParts
  let rows ← S.query db (querySql parts limit position) []
  let ids ← textRows rows
  let counts ← S.query db (countSql parts) []
  let total ← countRow counts
  return (ids, total, db.modseq a .email)

/-- `ORDER BY received_at DESC, id DESC`; printed ids sort as numbers. -/
def newestFirst (rows : List EmailsRow) : List EmailsRow :=
  orderBy (fun r => toLex (-r.receivedAt, -(r.id.uuid.toNat : ℤ))) rows

/-- The rows `query_emails` selects: all of the account's, or one for each of their
memberships in a mailbox. -/
def MailDb.plainRows (db : MailDb) (a : AccountId) (inMailbox : Option String) :
    List EmailsRow :=
  let own := db.emails.filter (·.accountId = a)
  match inMailbox with
  | none => own
  | some m => own.flatMap fun r =>
    (db.emailMailbox.filter fun em =>
      em.emailId = r.id ∧ em.mailboxId.uuid.toString = m).map fun _ => r

/-- `Storage::query_emails`. -/
def queryEmails (db : MailDb) (a : AccountId) (inMailbox : Option String)
    (position limit : ℕ) : List String × ℤ × ModSeq :=
  let rows := db.plainRows a inMailbox
  ((((newestFirst rows).drop position).take limit).map (·.id.uuid.toString), rows.length,
    db.modseq a .email)

/-! ## The method -/

/-- The arguments of `Email/query`, after the check of the account. -/
structure QueryArgs where
  position : Option Int64 := none
  limit : Option ℕ := none
  filter : Option EmailFilter := none
  deriving DecidableEq, Repr

namespace QueryArgs

/-- `position.unwrap_or(0).max(0)`. -/
def start (args : QueryArgs) : ℕ := (args.position.getD 0).toInt.toNat

/-- `limit.unwrap_or(50).min(500)`. -/
def upTo (args : QueryArgs) : ℕ := min (args.limit.getD 50) 500

/-- The filter, empty if there is none. -/
def theFilter (args : QueryArgs) : EmailFilter := args.filter.getD {}

end QueryArgs

/-- Whether the filter needs `query_emails_with_filters`. -/
def EmailFilter.enhanced (f : EmailFilter) : Bool :=
  f.after.isSome || f.before.isSome || f.allInThread.isSome || f.isFlagged.isSome ||
    f.isUnread.isSome

/-- What `Email/query` answers. -/
structure QueryResult where
  ids : List String
  total : ℤ
  queryState : ModSeq
  position : ℕ
  deriving DecidableEq, Repr

/-- `email_query`. `hits` are the ids the account's own search index has for the text of
the filter, best first. -/
def emailQuery (S : Sqlite) (fresh : EmailId) (db : MailDb) (a : AccountId) (args : QueryArgs)
    (hits : List EmailId) : Except StorageError QueryResult :=
  let f := args.theFilter
  if f.text.isSome then do
    let filtered ← filterEmails S fresh db a hits f
    return ⟨((filtered.drop args.start).take args.upTo).map (·.uuid.toString), filtered.length,
      db.modseq a .email, args.start⟩
  else if f.enhanced then do
    let (ids, total, state) ← queryEmailsWithFilters S db a f args.start args.upTo
    return ⟨ids, total, state, args.start⟩
  else
    let (ids, total, state) := queryEmails db a f.inMailbox args.start args.upTo
    .ok ⟨ids, total, state, args.start⟩

end Owney
