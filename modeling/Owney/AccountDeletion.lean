import Owney.BlobFiles

/-!
# Deleting an account

`Storage::delete_account` over all tables of the schema: the rows that belong to an account are
those with its id, and those that refer to such a row. `Owney.deleteAccountTx` is its part on
the mail tables.

The list of tables to empty has one that no migration creates, so SQLite refuses a statement of
every deletion, whatever is stored (`not_deletesAccount`).
-/

namespace Owney.Deletion

open Relational Migrations

/-! ## delete_account -/

/-- The tables, and the files below the directory of the blob store. -/
structure Installation where
  db : Db
  files : BlobPath → Option (List UInt8)

/-- `DELETE FROM table WHERE column = v`; `none` where SQLite refuses it: without the table or
the column, or if a row that is left would refer to one that is gone. -/
def deleteWhere (table column : String) (v : Value) (db : Db) : Option Db :=
  match db.schema.table? table with
  | none => none
  | some t =>
    let left := (db.rows table).filter fun r => t.value r column ≠ v
    let db' : Db := { db with rows := Function.update db.rows table left }
    if column ∈ t.columnNames ∧ ∀ u ∈ db'.schema.tables, ∀ r ∈ db'.rows u.name, db'.Refers u r then
      some db'
    else none

/-- The `n`-th statement. -/
def execDelete (io : Io) (n : ℕ) (table column : String) (v : Value) : Tx Db Unit := fun db =>
  match deleteWhere table column v db with
  | some db' => if io n then .ok (⟨⟩, db') else .error .sqlite
  | none => .error .sqlite

/-- The loop over the tables, from the `n`-th statement on. -/
def emptyTables (io : Io) (a : Value) : ℕ → List String → Tx Db Unit
  | _, [] => pure ⟨⟩
  | n, table :: tables => do
    execDelete io n table "account_id" a
    emptyTables io a (n + 1) tables

/-- The blobs of the account's emails, each once. -/
def blobsOf (a : Value) (db : Db) : List Value :=
  match db.schema.table? "blobs", db.schema.table? "emails" with
  | some blobs, some emails =>
    (((db.rows "blobs").map (blobs.value · "id")).filter fun id =>
      (db.rows "emails").any fun e =>
        emails.value e "blob_id" = id && emails.value e "account_id" = a).eraseDups
  | _, _ => []

/-- The transaction. -/
def deleteAccountTx (io : Io) (a : Value) : Tx Db (List Value) := do
  let blobIds ← Tx.query io 0 (blobsOf a)
  emptyTables io a 1 deletedTables
  execDelete io 24 "accounts" "id" a
  Tx.exec io 25 id
  return blobIds

/-- `std::fs::remove_file` of `blobs/<id>`. -/
def removeBlobs (ids : List Value) (files : BlobPath → Option (List UInt8)) :
    BlobPath → Option (List UInt8) := fun path =>
  if ids.any fun id => id = .text path.2 && path.1 = "" then none else files path

/-- `Storage::delete_account`. -/
def deleteAccount (io : Io) (a : Value) (s : Installation) :
    Except StorageError Unit × Installation :=
  match transaction (deleteAccountTx io a) s.db with
  | (.ok ids, db) => (.ok (), ⟨db, removeBlobs ids s.files⟩)
  | (.error e, db) => (.error e, { s with db := db })

/-! ## What is asked of it -/

/-- **The rows that belong to an account**: the account's own, those with its id, and those that
refer to a row that belongs to it. -/
inductive Belongs (db : Db) (a : Value) : Table → Row → Prop where
  | account {t : Table} {r : Row} : t.name = "accounts" → t.value r "id" = a → Belongs db a t r
  | owned {t : Table} {r : Row} : t.value r "account_id" = a → Belongs db a t r
  | through {t u : Table} {r p : Row} {c : Column} {column : String} : c ∈ t.columns →
      c.parent = some (u.name, column) → u ∈ db.schema.tables → p ∈ db.rows u.name →
      t.value r c.name = u.value p column → Belongs db a u p → Belongs db a t r

/-- `path_for`, of the text of a blob's id. -/
def filePath (id : String) : BlobPath := (String.ofList (id.toList.take 2), id)

/-- **An account is deleted**: the call succeeds, no row that belonged to the account remains,
every other row does, and so do the files of the blobs that emails of others refer to. -/
structure DeletesAccount (io : Io) (a : Value) (s : Installation) : Prop where
  ok : (deleteAccount io a s).1 = .ok ()
  complete : ∀ t ∈ s.db.schema.tables, ∀ r ∈ (deleteAccount io a s).2.db.rows t.name,
    ¬Belongs s.db a t r
  contained : ∀ t ∈ s.db.schema.tables, ∀ r ∈ s.db.rows t.name, ¬Belongs s.db a t r →
    r ∈ (deleteAccount io a s).2.db.rows t.name
  readable : ∀ t ∈ s.db.schema.tables, t.name = "emails" → ∀ r ∈ s.db.rows "emails",
    ¬Belongs s.db a t r → ∀ id, t.value r "blob_id" = .text id →
      (deleteAccount io a s).2.files (filePath id) = s.files (filePath id)

/-- A storage after `apply`: any data that the current schema allows. -/
def Installation.Current (s : Installation) : Prop := AtVersion MIGRATIONS.length s.db

/-- The account exists. -/
def Installation.HasAccount (s : Installation) (a : Value) : Prop :=
  s.db.HasValue "accounts" "id" a

instance (s : Installation) (a : Value) : Decidable (s.HasAccount a) :=
  inferInstanceAs (Decidable (s.db.HasValue _ _ _))

/-! ## What it does -/

theorem deleteWhere_schema {table column : String} {v : Value} {db db' : Db}
    (h : deleteWhere table column v db = some db') :
    db'.schema = db.schema ∧ db.schema.hasColumn table column = true := by
  rw [deleteWhere] at h
  cases htable : db.schema.table? table with
  | none => simp [htable] at h
  | some t =>
    simp only [htable, Option.ite_none_right_eq_some, Option.some.injEq] at h
    obtain ⟨⟨hcolumn, -⟩, rfl⟩ := h
    exact ⟨rfl, by simpa [Schema.hasColumn, htable] using hcolumn⟩

/-- A loop that comes to its end has found every table, with its column. -/
theorem emptyTables_ok {io : Io} {a : Value} {tables : List String} {n : ℕ} {u : Unit}
    {db db' : Db} (h : emptyTables io a n tables db = .ok (u, db')) :
    ∀ t ∈ tables, db.schema.hasColumn t "account_id" = true := by
  induction tables generalizing n db with
  | nil => exact fun t ht => absurd ht List.not_mem_nil
  | cons table tables ih =>
    simp only [emptyTables, Tx.bind_eq_ok, execDelete] at h
    obtain ⟨_, db₁, hdelete, hrest⟩ := h
    split at hdelete
    · rename_i hwhere
      split at hdelete
      · obtain ⟨-, rfl⟩ := Prod.mk.inj (Except.ok.inj hdelete)
        obtain ⟨hschema, hcolumn⟩ := deleteWhere_schema hwhere
        refine List.forall_mem_cons.mpr ⟨hcolumn, ?_⟩
        rw [← hschema]
        exact ih hrest
      · cases hdelete
    · cases hdelete

/-- **A deletion fails and leaves everything as it was**: there is no table `submissions`. -/
theorem deleteAccount_fails {s : Installation} (h : s.Current) (io : Io) (a : Value) :
    ∃ e, deleteAccount io a s = (.error e, s) := by
  rcases transaction_cases (deleteAccountTx io a) s.db with ⟨e, htx⟩ | ⟨ids, db', hok, -⟩
  · exact ⟨e, by rw [deleteAccount, htx]⟩
  · simp only [deleteAccountTx, Tx.bind_eq_ok, Tx.query_eq_ok] at hok
    obtain ⟨_, _, ⟨-, -, rfl⟩, _, _, hloop, -⟩ := hok
    have hcolumn := emptyTables_ok hloop "submissions" (by decide)
    have hsubmissions : currentSchema.hasColumn "submissions" "account_id" = false := by
      decide +kernel
    rw [h.schema, ← currentSchema, hsubmissions] at hcolumn
    cases hcolumn

/-- **No account of any storage is deleted.** -/
theorem not_deletesAccount (s : Installation) (h : s.Current) (a : Value) (_ha : s.HasAccount a)
    (io : Io) : ¬DeletesAccount io a s := by
  intro hdeletes
  obtain ⟨e, hfails⟩ := deleteAccount_fails h io a
  have hok := hdeletes.ok
  rw [hfails] at hok
  cases hok

/-! ## A storage with one account -/

/-- A new storage after the creation of an account, with nothing in it. -/
def aliceOnly : Installation where
  db :=
    { (apply MIGRATIONS true (fun _ => .ok) Db.empty).2 with
      rows := fun
        | "accounts" => [[.text "a", .text "alice@example.com", .null, .integer 1, .null]]
        | _ => [] }
  files _ := none

theorem current_aliceOnly : aliceOnly.Current :=
  ⟨by decide +kernel, by decide +kernel, by decide +kernel⟩

theorem not_deletesAccount_alice : ¬DeletesAccount .ok (.text "a") aliceOnly :=
  not_deletesAccount aliceOnly current_aliceOnly (.text "a") (by decide +kernel) .ok

/-- **Alice's account stays**, although nothing belongs to it. -/
theorem not_deleted_alice :
    ¬∀ s : Installation, s.Current → ∀ a, s.HasAccount a → DeletesAccount .ok a s := by
  intro h
  have hdeletes := h aliceOnly current_aliceOnly (.text "a") (by decide +kernel)
  obtain ⟨e, hfails⟩ := deleteAccount_fails current_aliceOnly .ok (.text "a")
  have hok := hdeletes.ok
  rw [hfails] at hok
  cases hok

end Owney.Deletion
