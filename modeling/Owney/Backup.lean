import Owney.SchemaUpgrades

/-!
# Backups of the database

`dump_database` and `restore_database` of `owney-backup`: the database becomes the text of a
batch, which the restore runs on a new file. SQLite itself is a parameter (`Engine`).

A dump has the schema and the texts of the rows. What else a database is made of is lost: a value
that is not `TEXT` becomes `NULL`, and `user_version` is left out, so that no database comes back
as it was (`not_roundTrips`).
-/

namespace Owney.Backup

open Tables Migrations

/-! ## Databases -/

/-- What SQLite reads as a name although it is not quoted, and as one `CREATE` statement. -/
structure Grammar where
  isName : String → Bool
  isCreate : String → Bool

/-- A value. -/
inductive Value where
  | null
  | integer (n : ℤ)
  | real (bits : BitVec 64)
  | text (s : String)
  | blob (b : List UInt8)
  deriving DecidableEq, Repr

/-- The `type` of a row of `sqlite_master`. -/
inductive ObjectType where
  | index | table | trigger | view
  deriving DecidableEq, Repr

/-- Its text. -/
def ObjectType.text : ObjectType → String
  | index => "index"
  | table => "table"
  | trigger => "trigger"
  | view => "view"

variable (G : Grammar)

/-- A name of a table, a column, an index. -/
abbrev Name : Type := { s : String // G.isName s }

/-- A row of `sqlite_master`; the index of a constraint has no text. -/
structure MasterRow where
  type : ObjectType
  name : Name G
  tblName : Name G
  sql : Option { s : String // G.isCreate s }

/-- A database file. -/
structure Database where
  master : List (MasterRow G)
  columns : Name G → List (Name G)
  rows : Name G → List (List Value)
  userVersion : ℤ

/-- A new file. -/
def Database.empty : Database G := ⟨[], fun _ => [], fun _ => [], 0⟩

variable {G}

/-! ## The dump -/

/-- `row.get::<_, String>`. -/
def Value.getString : Value → Option String
  | .text s => some s
  | _ => none

variable (G) in
/-- A statement of a dump. -/
inductive Statement where
  | create (sql : { s : String // G.isCreate s })
  | insert (table : Name G) (columns : List (Name G)) (values : List (Option String))

/-- `'{}'`, with every quote doubled, or `NULL`. -/
def literal : Option String → String
  | some v =>
    let doubled := v.toList.flatMap fun c => if c = '\'' then ['\'', '\''] else [c]
    "'" ++ (String.ofList doubled ++ "'")
  | none => "NULL"

/-- The text of a statement, with its end. -/
def Statement.text : Statement G → String
  | create sql => sql.1 ++ ";\n"
  | insert table columns values =>
    "INSERT INTO " ++ (table.1 ++ (" (" ++ (joinWith ", " (columns.map (·.1)) ++ (") VALUES (" ++
      (joinWith ", " (values.map literal) ++ ");\n")))))

/-- The text of a batch. -/
def batch (statements : List (Statement G)) : String := joinWith "" (statements.map (·.text))

/-- `dump_table`. -/
def dumpTable (db : Database G) (table : Name G) : List (Statement G) :=
  (db.rows table).map fun row => .insert table (db.columns table) (row.map (·.getString))

/-- The `CREATE` statements, `ORDER BY tbl_name, type DESC, name`. -/
def dumpSchema (db : Database G) : List (Statement G) :=
  let objects := orderBy
    (fun o => toLex (o.tblName.1, toLex (OrderDual.toDual o.type.text, o.name.1)))
    (db.master.filter fun o => o.type ≠ .view ∧ o.sql.isSome)
  objects.filterMap fun o => o.sql.map .create

/-- The tables, `ORDER BY name`. -/
def tableNames (db : Database G) : List (Name G) :=
  (orderBy (fun o => o.name.1)
    (db.master.filter fun o => o.type = .table ∧ o.sql.isSome)).map (·.name)

/-- `dump_database`. -/
def dumpDatabase (db : Database G) : String :=
  batch (dumpSchema db ++ (tableNames db).flatMap (dumpTable db))

/-! ## The restore -/

variable (G) in
/-- SQLite, as far as a restore uses it. -/
structure Engine where
  /-- one statement -/
  execute : Statement G → Database G → Except String (Database G)
  executeBatch : String → Database G → Except String (Database G)
  /-- a batch that succeeds has run its statements, in order -/
  batch_ok : ∀ statements db db', executeBatch (batch statements) db = .ok db' →
    statements.foldlM (fun db st => execute st db) db = .ok db'
  /-- only `PRAGMA user_version` writes the version -/
  execute_userVersion : ∀ st db db', execute st db = .ok db' → db'.userVersion = db.userVersion

variable (E : Engine G)

/-- `restore_database`, on an empty target. -/
def restoreDatabase (sql : String) : Except String (Database G) :=
  E.executeBatch sql (.empty G)

/-- **A database comes back as it was**: the restore succeeds, with the same schema, the same
rows and the same version, and the next `Storage::open` runs no migration. -/
def RoundTrips (db : Database G) : Prop :=
  ∃ db', restoreDatabase E (dumpDatabase db) = .ok db' ∧ db'.master.Perm db.master ∧
    (∀ table ∈ tableNames db, db'.columns table = db.columns table ∧
      (db'.rows table).Perm (db.rows table)) ∧
    db'.userVersion = db.userVersion ∧ MIGRATIONS.length ≤ asUsize db'.userVersion

/-! ## What is lost -/

variable {E}

/-- Statements keep the version, by induction on the batch. -/
theorem userVersion_of_run {statements : List (Statement G)} {db db' : Database G}
    (h : statements.foldlM (fun db st => E.execute st db) db = .ok db') :
    db'.userVersion = db.userVersion := by
  induction statements generalizing db with
  | nil =>
    obtain rfl := Except.ok.inj h
    rfl
  | cons st statements ih =>
    rw [List.foldlM_cons] at h
    cases hst : E.execute st db with
    | error e =>
      rw [hst] at h
      cases h
    | ok db₁ =>
      rw [hst] at h
      rw [ih h, E.execute_userVersion st db db₁ hst]

/-- **A restored database has version 0.** -/
theorem userVersion_restored {db db' : Database G}
    (h : restoreDatabase E (dumpDatabase db) = .ok db') : db'.userVersion = 0 :=
  userVersion_of_run (E.batch_ok _ _ _ h)

/-- **No database comes back as it was**: the next open starts the migrations at the first. -/
theorem not_roundTrips (E : Engine G) (db : Database G) : ¬RoundTrips E db := by
  rintro ⟨db', hrestore, -, -, -, hcurrent⟩
  rw [userVersion_restored hrestore] at hcurrent
  exact absurd hcurrent (by decide)

/-! ## A database with one account -/

/-- Names of letters and underscores, and texts that start as a `CREATE` does. -/
def simpleGrammar : Grammar where
  isName s := s.toList.all fun c => c.isAlpha || c = '_'
  isCreate s := "CREATE ".toList.isPrefixOf s.toList

/-- The table of the accounts, in a shorter form, and Alice's row. -/
def oneAccount : Database simpleGrammar where
  master := [⟨.table, ⟨"accounts", by decide⟩, ⟨"accounts", by decide⟩,
    some ⟨"CREATE TABLE accounts (id TEXT PRIMARY KEY, created_at INTEGER NOT NULL) STRICT",
      by decide⟩⟩]
  columns _ := [⟨"id", by decide⟩, ⟨"created_at", by decide⟩]
  rows _ := [[.text "a", .integer 1700000000]]
  userVersion := 22

/-- Every statement has a text. -/
theorem eq_nil_of_batch {statements : List (Statement G)} (h : batch statements = "") :
    statements = [] := by
  have hne : ∀ st : Statement G, st.text.toList ≠ [] := by
    rintro (sql | _) <;> simp [Statement.text, String.toList_append]
  have htext := congrArg String.toList h
  match statements, htext with
  | [], _ => rfl
  | [st], htext => exact absurd htext (hne st)
  | st :: st' :: rest, htext =>
    rw [batch, List.map_cons, List.map_cons, joinWith, String.toList_append] at htext
    · exact absurd (List.append_eq_nil_iff.mp htext).1 (hne st)
    · exact fun h => nomatch h

/-- SQLite on the dump of that database, and on an empty one. -/
def constraintEngine : Engine simpleGrammar where
  execute _ _ := .error "NOT NULL constraint failed: accounts.created_at"
  executeBatch sql db :=
    if sql = "" then .ok db else .error "NOT NULL constraint failed: accounts.created_at"
  batch_ok statements db db' h := by
    split at h
    · rename_i hempty
      rw [eq_nil_of_batch hempty]
      exact h
    · cases h
  execute_userVersion _ _ _ h := nomatch h

/-- The dump has `NULL` for the time of the account's creation. -/
theorem not_roundTrips_oneAccount : ¬RoundTrips constraintEngine oneAccount := by
  rintro ⟨db', hrestore, -⟩
  have hfails : (restoreDatabase constraintEngine (dumpDatabase oneAccount)).isOk = false := by
    decide +kernel
  rw [hrestore] at hfails
  cases hfails

end Owney.Backup
