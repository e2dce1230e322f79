import Mathlib.Data.List.Lex
import Mathlib.Data.Prod.Lex
import Mathlib.Order.OrderDual
import Mathlib.Data.String.Basic
import Owney.Lib.Tables

/-!
# A relational database with a schema

The part of SQLite a schema migration uses: `STRICT` tables with their columns and
constraints, indexes, rows, and the statements that change a schema with data in it.

* `Schema`, `Db` — what tables and indexes there are, and the rows of each table.
* `Db.Valid` — the rows meet every constraint of the schema: types, `NOT NULL`, `CHECK`,
  the keys and the foreign keys.
* `exec` — one statement; `none` where SQLite refuses it. `Valid.exec` says that it keeps
  the constraints, `schema_exec` that the schema after it depends on the schema alone.
* `Known` — what is known of a database before its data is seen: the schema, and tables
  that were just created. `exec_known` says when a statement cannot be refused.
-/

namespace Relational

open Tables

/-! ## Values -/

/-- A stored value. -/
inductive Value where
  | null
  | integer (n : ℤ)
  | text (s : String)
  | blob (b : List UInt8)
  deriving DecidableEq, Repr

namespace Value

/-- The position of a value in the order of SQLite: `NULL` first, then integers, texts and
blobs. -/
def rank : Value → ℕ ×ₗ ℤ ×ₗ String ×ₗ List ℕ
  | null => toLex (0, toLex (0, toLex ("", [])))
  | integer n => toLex (1, toLex (n, toLex ("", [])))
  | text s => toLex (2, toLex (0, toLex (s, [])))
  | blob b => toLex (3, toLex (0, toLex ("", b.map UInt8.toNat)))

theorem rank_injective : Function.Injective rank := by
  intro v w h
  cases v <;> cases w <;> simp_all [rank]
  exact List.map_injective_iff.mpr (fun x y hxy => UInt8.toNat_inj.mp hxy) h

instance : LinearOrder Value := LinearOrder.lift' rank rank_injective

/-- The value under `COLLATE NOCASE`, which folds ASCII letters. -/
def fold : Value → Value
  | text s => text (String.ofList (s.toList.map Char.toLower))
  | v => v

end Value

/-- A row: its values, in the order of the columns. -/
abbrev Row : Type := List Value

/-! ## Schemas -/

/-- The column types of a `STRICT` table. -/
inductive ColumnType where
  | integer
  | text
  | blob
  deriving DecidableEq, Repr

/-- Whether a value that is not `NULL` has the type. -/
def ColumnType.accepts : ColumnType → Value → Bool
  | .integer, .integer _ => true
  | .text, .text _ => true
  | .blob, .blob _ => true
  | _, _ => false

/-- A column. -/
structure Column where
  name : String
  type : ColumnType
  /-- `NOT NULL` -/
  required : Bool
  /-- `DEFAULT` -/
  dflt : Value
  /-- `COLLATE NOCASE` -/
  nocase : Bool
  /-- `REFERENCES table(column)` -/
  parent : Option (String × String)
  deriving DecidableEq, Repr

/-- Whether the column can hold the value. -/
def Column.accepts (c : Column) : Value → Bool
  | .null => !c.required
  | v => c.type.accepts v

/-- A condition on a row, as a `CHECK` or the `WHERE` of a partial index. -/
inductive Condition where
  | isNotNull (column : String)
  | equals (column : String) (v : Value)
  deriving DecidableEq, Repr

/-- The column a condition reads. -/
def Condition.column : Condition → String
  | isNotNull c => c
  | equals c _ => c

/-- A term of a key. -/
inductive Term where
  | column (name : String)
  | descending (name : String)
  | ifnull (name : String) (v : Value)
  deriving DecidableEq, Repr

/-- The column a term reads. -/
def Term.name : Term → String
  | column n => n
  | descending n => n
  | ifnull n _ => n

/-- What no two rows may share: the terms of a key, on the rows that meet the condition. -/
structure Key where
  terms : List Term
  filter : Option Condition
  deriving DecidableEq, Repr

/-- The columns a key reads. -/
def Key.columns (k : Key) : List String :=
  k.terms.map (·.name) ++ (k.filter.map (·.column)).toList

/-- A `STRICT` table. -/
structure Table where
  name : String
  columns : List Column
  primaryKey : List String
  /-- `UNIQUE (..)`, of one column or several -/
  uniques : List (List String)
  checks : List Condition
  withoutRowid : Bool
  deriving DecidableEq, Repr

/-- An index. -/
structure Index where
  name : String
  table : String
  unique : Bool
  key : Key
  deriving DecidableEq, Repr

/-- The tables and the indexes of a database, in the order they were created. -/
structure Schema where
  tables : List Table
  indexes : List Index
  deriving DecidableEq, Repr

namespace Table

variable (t : Table)

/-- The names of the columns. -/
def columnNames : List String := t.columns.map (·.name)

/-- The value of a row in a column. -/
def value (r : Row) (c : String) : Value :=
  (((t.columns.zip r).find? fun p => p.1.name = c).map (·.2)).getD .null

/-- Whether the column's texts are compared without regard to case. -/
def isNocase (c : String) : Bool := ((t.columns.find? fun p => p.name = c).map (·.nocase)).getD false

/-- The value of a row in a column, as a key compares it. -/
def keyValue (r : Row) (c : String) : Value :=
  if t.isNocase c then (t.value r c).fold else t.value r c

/-- The value of a term of a key. -/
def termValue (r : Row) : Term → Value
  | .column c => t.keyValue r c
  | .descending c => t.keyValue r c
  | .ifnull c v => if t.keyValue r c = .null then v else t.keyValue r c

/-- A condition on a row: `none` where it is `NULL`. -/
def test (r : Row) : Condition → Option Bool
  | .isNotNull c => some (t.value r c ≠ .null)
  | .equals c v => if t.value r c = .null then none else some (t.value r c = v)

/-- Whether a partial index has the row. -/
def covered (r : Row) (k : Key) : Bool :=
  match k.filter with
  | none => true
  | some c => t.test r c = some true

/-- What a row may not share with another one. Two `NULL`s are different. -/
def keyOf (k : Key) (r : Row) : Option (List Value) :=
  if t.covered r k ∧ .null ∉ k.terms.map (t.termValue r) then some (k.terms.map (t.termValue r))
  else none

/-- Whether a row can be in the table. The columns of the primary key are `NOT NULL`. -/
def RowOk (r : Row) : Prop :=
  r.length = t.columns.length ∧
    (∀ p ∈ t.columns.zip r, p.1.accepts p.2 ∧ (p.1.name ∈ t.primaryKey → p.2 ≠ .null)) ∧
    ∀ c ∈ t.checks, t.test r c ≠ some false

instance : DecidablePred t.RowOk := fun _ => inferInstanceAs (Decidable (_ ∧ _ ∧ _))

/-- The keys of the table itself. -/
def ownKeys : List Key :=
  ⟨t.primaryKey.map .column, none⟩ :: t.uniques.map fun u => ⟨u.map .column, none⟩

/-- Every column that is named exists. -/
def Named : Prop :=
  (∀ k ∈ t.ownKeys, ∀ c ∈ k.columns, c ∈ t.columnNames) ∧
    ∀ c ∈ t.checks, c.column ∈ t.columnNames

instance : Decidable t.Named := inferInstanceAs (Decidable (_ ∧ _))

/-- The table with one more column. -/
def addColumn (c : Column) : Table := { t with columns := t.columns ++ [c] }

end Table

namespace Schema

variable (s : Schema)

/-- The names that are taken: those of tables and of indexes. -/
def names : List String := s.tables.map (·.name) ++ s.indexes.map (·.name)

/-- The table of a name. -/
def table? (name : String) : Option Table := s.tables.find? fun t => t.name = name

/-- The keys of a table: its own, and the unique indexes on it. -/
def keys (t : Table) : List Key :=
  t.ownKeys ++ (s.indexes.filter fun i => i.table = t.name ∧ i.unique).map (·.key)

/-- Whether the table has the column. -/
def hasColumn (table column : String) : Bool :=
  ((s.table? table).map fun t => decide (column ∈ t.columnNames)).getD false

/-- One more column in the tables of a name. -/
def addColumn (table : String) (c : Column) : Schema :=
  { s with tables := s.tables.map fun t => if t.name = table then t.addColumn c else t }

end Schema

/-! ## Databases -/

/-- A database: its schema, the rows of each table, and `PRAGMA user_version`. -/
structure Db where
  schema : Schema
  rows : String → List Row
  userVersion : ℤ

namespace Db

/-- A new database file. -/
def empty : Db := ⟨⟨[], []⟩, fun _ => [], 0⟩

variable (db : Db)

/-- Whether a row of the table has the value in the column. -/
def HasValue (table column : String) (v : Value) : Prop :=
  ∃ p ∈ db.schema.tables, p.name = table ∧ ∃ r ∈ db.rows table, p.value r column = v

instance (table column : String) (v : Value) : Decidable (db.HasValue table column v) :=
  inferInstanceAs (Decidable (∃ p ∈ _, _))

/-- The rows a row refers to are there. -/
def Refers (t : Table) (r : Row) : Prop :=
  ∀ c ∈ t.columns, ∀ p ∈ c.parent, t.value r c.name = .null ∨
    db.HasValue p.1 p.2 (t.value r c.name)

instance (t : Table) (r : Row) : Decidable (db.Refers t r) :=
  inferInstanceAs (Decidable (∀ c ∈ _, _))

/-- The rows of a table meet its constraints. -/
def TableOk (t : Table) : Prop :=
  (∀ r ∈ db.rows t.name, t.RowOk r ∧ db.Refers t r) ∧
    ∀ k ∈ db.schema.keys t, ((db.rows t.name).filterMap (t.keyOf k)).Nodup

instance (t : Table) : Decidable (db.TableOk t) := inferInstanceAs (Decidable (_ ∧ _))

/-- All constraints of the schema are met. -/
structure Valid : Prop where
  distinct : (db.schema.tables.map (·.name)).Nodup
  /-- keys and checks name columns that exist -/
  named : ∀ t ∈ db.schema.tables, t.Named
  /-- an index is on a table that exists, and names its columns -/
  indexed : ∀ i ∈ db.schema.indexes, i.table ∈ db.schema.tables.map (·.name) ∧
    ∀ t ∈ db.schema.tables, t.name = i.table → ∀ c ∈ i.key.columns, c ∈ t.columnNames
  tables : ∀ t ∈ db.schema.tables, db.TableOk t

theorem valid_iff : db.Valid ↔ (db.schema.tables.map (·.name)).Nodup ∧
    (∀ t ∈ db.schema.tables, t.Named) ∧
    (∀ i ∈ db.schema.indexes, i.table ∈ db.schema.tables.map (·.name) ∧
      ∀ t ∈ db.schema.tables, t.name = i.table → ∀ c ∈ i.key.columns, c ∈ t.columnNames) ∧
    ∀ t ∈ db.schema.tables, db.TableOk t :=
  ⟨fun h => ⟨h.distinct, h.named, h.indexed, h.tables⟩, fun h => ⟨h.1, h.2.1, h.2.2.1, h.2.2.2⟩⟩

instance : Decidable db.Valid := decidable_of_iff _ (valid_iff db).symm

end Db

/-! ## Statements -/

/-- A column of a `SELECT`. -/
inductive Item where
  | column (name : String)
  | null
  deriving DecidableEq, Repr

/-- `WHERE a.id = (SELECT b.id FROM t b WHERE b.c = a.c AND .. ORDER BY b.o DESC, .. LIMIT 1)`:
the conditions name the columns in `same`, the order those in `order`. -/
structure Latest where
  id : String
  same : List String
  order : List String
  deriving DecidableEq, Repr

/-- A statement of a migration. -/
inductive Statement where
  | createTable (t : Table)
  | createIndex (i : Index)
  /-- `ALTER TABLE table ADD COLUMN c` -/
  | addColumn (table : String) (c : Column)
  /-- `INSERT INTO target SELECT items FROM source WHERE ..`, with an item for each column -/
  | insertSelect (target source : String) (items : List Item) (latest : Latest)
  deriving DecidableEq, Repr

namespace Table

variable (t : Table) (rows : List Row) (l : Latest)

/-- Whether two rows agree in the columns. A `NULL` agrees with nothing. -/
def agree (cs : List String) (a b : Row) : Bool :=
  cs.all fun c => t.value a c ≠ .null ∧ t.value b c = t.value a c

/-- What the rows are ordered by. -/
def orderKey (b : Row) : List Value := l.order.map (t.value b)

/-- The rows that agree with one, the last first. -/
def ordered (a : Row) : List Row :=
  orderBy (fun b => OrderDual.toDual (t.orderKey l b)) (rows.filter (t.agree l.same a))

/-- The row's id is that of the last of the rows that agree with it. -/
def isLatest (a : Row) : Bool :=
  ((t.ordered rows l a).head?).any fun b => t.value a l.id ≠ .null ∧ t.value a l.id = t.value b l.id

/-- The row a `SELECT` makes of a row. -/
def select (items : List Item) (r : Row) : Row :=
  items.map fun
    | .column c => t.value r c
    | .null => .null

end Table

namespace Db

variable (db : Db)

/-- After `CREATE TABLE`. -/
def created (t : Table) : Db :=
  ⟨⟨db.schema.tables ++ [t], db.schema.indexes⟩, Function.update db.rows t.name [], db.userVersion⟩

/-- After `CREATE INDEX`. -/
def withIndex (i : Index) : Db :=
  ⟨⟨db.schema.tables, db.schema.indexes ++ [i]⟩, db.rows, db.userVersion⟩

/-- After `ALTER TABLE table ADD COLUMN c`. -/
def withColumn (table : String) (c : Column) : Db :=
  ⟨db.schema.addColumn table c,
    Function.update db.rows table ((db.rows table).map (· ++ [c.dflt])), db.userVersion⟩

/-- After the rows of a table were copied to another one. -/
def copied (target source : String) (u : Table) (items : List Item) (l : Latest) : Db :=
  let rows := (db.rows source).filter (u.isLatest (db.rows source) l)
  ⟨db.schema, Function.update db.rows target (db.rows target ++ rows.map (u.select items)),
    db.userVersion⟩

section Rows

variable {db} {t u : Table} {i : Index} {c : Column} {n target source : String}
  {items : List Item} {l : Latest}

@[simp] theorem created_tables : (db.created t).schema.tables = db.schema.tables ++ [t] := rfl

@[simp] theorem created_rows_self : (db.created t).rows t.name = [] := Function.update_self ..

theorem created_rows_of_ne (h : n ≠ t.name) : (db.created t).rows n = db.rows n :=
  Function.update_of_ne h ..

@[simp] theorem withIndex_rows : (db.withIndex i).rows n = db.rows n := rfl

@[simp] theorem withColumn_rows_self :
    (db.withColumn n c).rows n = (db.rows n).map (· ++ [c.dflt]) := Function.update_self ..

theorem withColumn_rows_of_ne (h : n ≠ target) : (db.withColumn target c).rows n = db.rows n :=
  Function.update_of_ne h ..

@[simp] theorem copied_rows_self : (db.copied target source u items l).rows target =
    db.rows target ++
      ((db.rows source).filter (u.isLatest (db.rows source) l)).map (u.select items) :=
  Function.update_self ..

theorem copied_rows_of_ne (h : n ≠ target) :
    (db.copied target source u items l).rows n = db.rows n := Function.update_of_ne h ..

end Rows

end Db

/-- One statement; `none` where it fails. -/
def exec (db : Db) : Statement → Option Db
  | .createTable t => if t.name ∉ db.schema.names ∧ t.Named then some (db.created t) else none
  | .createIndex i =>
    match db.schema.table? i.table with
    | none => none
    | some t =>
      if i.name ∉ db.schema.names ∧ (∀ c ∈ i.key.columns, c ∈ t.columnNames) ∧
          (i.unique → ((db.rows t.name).filterMap (t.keyOf i.key)).Nodup) then
        some (db.withIndex i)
      else none
  | .addColumn table c =>
    match db.schema.table? table with
    | none => none
    | some t =>
      -- a new column that refers to another table must start as `NULL`
      if c.name ∉ t.columnNames ∧ c.accepts c.dflt ∧ (c.parent ≠ none → c.dflt = .null) then
        some (db.withColumn table c)
      else none
  | .insertSelect target source items latest =>
    match db.schema.table? target, db.schema.table? source with
    | some t, some u =>
      let db' := db.copied target source u items latest
      if db'.TableOk t then some db' else none
    | _, _ => none

/-! ### What a statement does -/

/-- The schema after a statement. -/
def Schema.after (s : Schema) : Statement → Schema
  | .createTable t => { s with tables := s.tables ++ [t] }
  | .createIndex i => { s with indexes := s.indexes ++ [i] }
  | .addColumn table c => s.addColumn table c
  | .insertSelect .. => s

section Exec

variable {db db' : Db}

theorem exec_createTable {t : Table} :
    exec db (.createTable t) = some db' ↔ (t.name ∉ db.schema.names ∧ t.Named) ∧
      db' = db.created t := by
  rw [exec, Option.ite_none_right_eq_some, Option.some.injEq]
  exact and_congr Iff.rfl eq_comm

theorem exec_createIndex {i : Index} :
    exec db (.createIndex i) = some db' ↔ ∃ t, db.schema.table? i.table = some t ∧
      (i.name ∉ db.schema.names ∧ (∀ c ∈ i.key.columns, c ∈ t.columnNames) ∧
        (i.unique → ((db.rows t.name).filterMap (t.keyOf i.key)).Nodup)) ∧
      db' = db.withIndex i := by
  rw [exec]
  rcases db.schema.table? i.table with _ | t
  · simp
  · simp only [Option.ite_none_right_eq_some, Option.some.injEq, exists_eq_left']
    exact and_congr Iff.rfl eq_comm

theorem exec_addColumn {table : String} {c : Column} :
    exec db (.addColumn table c) = some db' ↔ ∃ t, db.schema.table? table = some t ∧
      (c.name ∉ t.columnNames ∧ c.accepts c.dflt ∧ (c.parent ≠ none → c.dflt = .null)) ∧
      db' = db.withColumn table c := by
  rw [exec]
  rcases db.schema.table? table with _ | t
  · simp
  · simp only [Option.ite_none_right_eq_some, Option.some.injEq, exists_eq_left']
    exact and_congr Iff.rfl eq_comm

theorem exec_insertSelect {target source : String} {items : List Item} {l : Latest} :
    exec db (.insertSelect target source items l) = some db' ↔
      ∃ t u, db.schema.table? target = some t ∧ db.schema.table? source = some u ∧
        (db.copied target source u items l).TableOk t ∧
        db' = db.copied target source u items l := by
  rw [exec]
  rcases db.schema.table? target with _ | t
  · simp
  rcases db.schema.table? source with _ | u
  · simp
  simp only [Option.ite_none_right_eq_some, Option.some.injEq]
  constructor
  · rintro ⟨hok, rfl⟩
    exact ⟨t, u, rfl, rfl, hok, rfl⟩
  · rintro ⟨_, _, rfl, rfl, hok, rfl⟩
    exact ⟨hok, rfl⟩

/-- **The schema.** What a statement makes of it does not depend on the data. -/
theorem schema_exec {st : Statement} (h : exec db st = some db') :
    db'.schema = db.schema.after st := by
  cases st with
  | createTable t =>
    obtain ⟨-, rfl⟩ := exec_createTable.mp h
    rfl
  | createIndex i =>
    obtain ⟨t, -, -, rfl⟩ := exec_createIndex.mp h
    rfl
  | addColumn table c =>
    obtain ⟨t, -, -, rfl⟩ := exec_addColumn.mp h
    rfl
  | insertSelect target source items l =>
    obtain ⟨t, u, -, -, -, rfl⟩ := exec_insertSelect.mp h
    rfl

end Exec

/-! ### A table with one more column -/

namespace Table

variable {t : Table} {c : Column} {r : Row} {v : Value} {n : String}

/-- The rows of a table, with the value of one more column. -/
theorem zip_addColumn (hlen : r.length = t.columns.length) :
    (t.addColumn c).columns.zip (r ++ [v]) = t.columns.zip r ++ [(c, v)] := by
  rw [addColumn, List.zip_append hlen.symm]
  rfl

/-- The old columns have their values. -/
theorem value_addColumn (hlen : r.length = t.columns.length) (hn : n ≠ c.name) :
    (t.addColumn c).value (r ++ [v]) n = t.value r n := by
  rw [value, zip_addColumn hlen, List.find?_append, List.find?_cons_of_neg (by simpa using hn.symm),
    List.find?_nil, Option.or_none]
  rfl

/-- A value that is there stays. -/
theorem value_addColumn_of_ne_null (hlen : r.length = t.columns.length)
    (hv : t.value r n ≠ .null) : (t.addColumn c).value (r ++ [v]) n = t.value r n := by
  rw [value] at hv ⊢
  rw [value, zip_addColumn hlen, List.find?_append]
  rcases hfind : (t.columns.zip r).find? fun p => p.1.name = n with _ | p
  · rw [hfind] at hv
    exact absurd rfl hv
  · rw [hfind]
    rfl

/-- The new column has the new value. -/
theorem value_addColumn_self (hlen : r.length = t.columns.length) (hc : c.name ∉ t.columnNames) :
    (t.addColumn c).value (r ++ [v]) c.name = v := by
  have hnone : (t.columns.zip r).find? (fun p => p.1.name = c.name) = none := by
    rw [List.find?_eq_none]
    intro p hp hname
    have hmem : p.1 ∈ t.columns := (List.of_mem_zip hp).1
    exact hc (List.mem_map.mpr ⟨p.1, hmem, by simpa using hname⟩)
  rw [value, zip_addColumn hlen, List.find?_append, hnone, Option.none_or,
    List.find?_cons_of_pos (by simp)]
  rfl

theorem isNocase_addColumn (hn : n ≠ c.name) : (t.addColumn c).isNocase n = t.isNocase n := by
  rw [isNocase, addColumn, List.find?_append, List.find?_cons_of_neg (by simpa using hn.symm),
    List.find?_nil, Option.or_none]
  rfl

theorem keyValue_addColumn (hlen : r.length = t.columns.length) (hn : n ≠ c.name) :
    (t.addColumn c).keyValue (r ++ [v]) n = t.keyValue r n := by
  rw [keyValue, keyValue, isNocase_addColumn hn, value_addColumn hlen hn]

theorem test_addColumn (hlen : r.length = t.columns.length) {x : Condition}
    (hx : x.column ≠ c.name) : (t.addColumn c).test (r ++ [v]) x = t.test r x := by
  cases x with
  | isNotNull n => rw [test, test, value_addColumn hlen (show n ≠ c.name from hx)]
  | equals n w => rw [test, test, value_addColumn hlen (show n ≠ c.name from hx)]

theorem termValue_addColumn (hlen : r.length = t.columns.length) {x : Term}
    (hx : x.name ≠ c.name) : (t.addColumn c).termValue (r ++ [v]) x = t.termValue r x := by
  cases x with
  | column n => exact keyValue_addColumn hlen hx
  | descending n => exact keyValue_addColumn hlen hx
  | ifnull n w => rw [termValue, termValue, keyValue_addColumn hlen (show n ≠ c.name from hx)]

/-- A key that does not read the new column is as it was. -/
theorem keyOf_addColumn (hlen : r.length = t.columns.length) {k : Key}
    (hk : ∀ n ∈ k.columns, n ≠ c.name) : (t.addColumn c).keyOf k (r ++ [v]) = t.keyOf k r := by
  have hterms : k.terms.map ((t.addColumn c).termValue (r ++ [v])) = k.terms.map (t.termValue r) := by
    refine List.map_congr_left fun x hx => termValue_addColumn hlen (hk _ ?_)
    exact List.mem_append_left _ (List.mem_map_of_mem hx)
  have hcovered : (t.addColumn c).covered (r ++ [v]) k = t.covered r k := by
    rw [covered, covered]
    cases hfilter : k.filter with
    | none => rfl
    | some x =>
      have hx : x.column ∈ k.columns := by simp [Key.columns, hfilter]
      simp only [test_addColumn hlen (hk _ hx)]
  rw [keyOf, keyOf, hterms, hcovered]

/-- The default makes a row of the longer table. -/
theorem RowOk.addColumn (h : t.RowOk r) (hnamed : t.Named) (hc : c.name ∉ t.columnNames)
    (hdflt : c.accepts c.dflt) : (t.addColumn c).RowOk (r ++ [c.dflt]) := by
  obtain ⟨hlen, hcols, hchecks⟩ := h
  refine ⟨by simp [Table.addColumn, hlen], ?_, ?_⟩
  · intro p hp
    rw [zip_addColumn hlen] at hp
    rcases List.mem_append.mp hp with hp | hp
    · exact hcols p hp
    · obtain rfl := List.mem_singleton.mp hp
      refine ⟨hdflt, fun hpk => absurd ?_ hc⟩
      refine hnamed.1 _ List.mem_cons_self _ ?_
      have hpk : c.name ∈ t.primaryKey := hpk
      simpa [Key.columns, Term.name] using hpk
  · intro x hx
    have hx' : x.column ≠ c.name := fun heq => hc (heq ▸ hnamed.2 x hx)
    rw [test_addColumn hlen hx']
    exact hchecks x hx

end Table

/-! ### The constraints -/

theorem Schema.table?_eq_some {s : Schema} {n : String} {t : Table} (h : s.table? n = some t) :
    t ∈ s.tables ∧ t.name = n :=
  ⟨List.mem_of_find?_eq_some h, by simpa using List.find?_some h⟩

theorem Schema.mem_keys {s : Schema} {t : Table} {k : Key} :
    k ∈ s.keys t ↔ k ∈ t.ownKeys ∨ ∃ i ∈ s.indexes, (i.table = t.name ∧ i.unique) ∧ i.key = k := by
  simp [Schema.keys, and_assoc]

namespace Db

variable {db db' : Db} {t u : Table} {r : Row}

/-- A row that is referred to stays when there are more rows and tables. -/
theorem Refers.mono (h : db.Refers t r)
    (hval : ∀ n c v, v ≠ .null → db.HasValue n c v → db'.HasValue n c v) : db'.Refers t r := by
  intro c hc p hp
  by_cases hnull : t.value r c.name = .null
  · exact .inl hnull
  · exact (h c hc p hp).imp_right (hval _ _ _ hnull)

/-- The constraints of a table whose rows and keys are as they were. -/
theorem TableOk.mono (h : db.TableOk t) (hrows : db'.rows t.name = db.rows t.name)
    (hkeys : ∀ k ∈ db'.schema.keys t, k ∈ db.schema.keys t)
    (hval : ∀ n c v, v ≠ .null → db.HasValue n c v → db'.HasValue n c v) : db'.TableOk t := by
  rw [TableOk, hrows]
  exact ⟨fun r hr => ⟨(h.1 r hr).1, (h.1 r hr).2.mono hval⟩, fun k hk => h.2 k (hkeys k hk)⟩

/-- The values that were there before a copy are there after it. -/
theorem HasValue.copied {n c target source : String} {v : Value} {items : List Item} {l : Latest}
    (h : db.HasValue n c v) : (db.copied target source u items l).HasValue n c v := by
  obtain ⟨p, hp, rfl, r, hr, hv⟩ := h
  refine ⟨p, hp, rfl, r, ?_, hv⟩
  by_cases hp' : p.name = target
  · rw [hp', copied_rows_self]
    exact List.mem_append_left _ (hp' ▸ hr)
  · rwa [copied_rows_of_ne hp']

namespace Valid

/-- There is one table of a name. -/
theorem eq_of_name (h : db.Valid) (ht : t ∈ db.schema.tables) (hu : u ∈ db.schema.tables)
    (hname : t.name = u.name) : t = u :=
  eq_of_key_eq h.distinct ht hu hname

/-- A key names columns that exist. -/
theorem key_named (h : db.Valid) (ht : t ∈ db.schema.tables) {k : Key} (hk : k ∈ db.schema.keys t) :
    ∀ c ∈ k.columns, c ∈ t.columnNames := by
  rcases Schema.mem_keys.mp hk with hk | ⟨i, hi, ⟨hname, -⟩, rfl⟩
  · exact (h.named t ht).1 k hk
  · exact (h.indexed i hi).2 t ht hname.symm

theorem createTable (h : db.Valid) (hexec : Relational.exec db (.createTable t) = some db') :
    db'.Valid := by
  obtain ⟨⟨hfresh, hnamed⟩, rfl⟩ := exec_createTable.mp hexec
  have hnew : t.name ∉ db.schema.tables.map (·.name) :=
    fun hmem => hfresh (List.mem_append_left _ hmem)
  have hold : ∀ u ∈ db.schema.tables, u.name ≠ t.name :=
    fun u hu hname => hnew (hname ▸ List.mem_map_of_mem hu)
  refine ⟨nodup_map_insert h.distinct hnew, ?_, ?_, ?_⟩
  · intro u hu
    rcases List.mem_append.mp hu with hu | hu
    · exact h.named u hu
    · obtain rfl := List.mem_singleton.mp hu
      exact hnamed
  · intro i hi
    obtain ⟨hon, hcols⟩ := h.indexed i hi
    refine ⟨by simpa using .inl (by simpa using hon), ?_⟩
    intro u hu hname
    rcases List.mem_append.mp hu with hu | hu
    · exact hcols u hu hname
    · obtain rfl := List.mem_singleton.mp hu
      exact absurd (hname ▸ hon) hnew
  · intro u hu
    rcases List.mem_append.mp hu with hu | hu
    · refine (h.tables u hu).mono (created_rows_of_ne (hold u hu)) (fun k hk => hk) ?_
      rintro n c v - ⟨p, hp, rfl, r, hr, hv⟩
      refine ⟨p, List.mem_append_left _ hp, rfl, r, ?_, hv⟩
      rwa [created_rows_of_ne (hold p hp)]
    · obtain rfl := List.mem_singleton.mp hu
      rw [TableOk, created_rows_self]
      exact ⟨fun r hr => absurd hr List.not_mem_nil, fun k _ => List.nodup_nil⟩

theorem createIndex (h : db.Valid) {i : Index}
    (hexec : Relational.exec db (.createIndex i) = some db') : db'.Valid := by
  obtain ⟨t, ht, ⟨-, hcols, hunique⟩, rfl⟩ := exec_createIndex.mp hexec
  obtain ⟨hmem, hname⟩ := Schema.table?_eq_some ht
  have hone : ∀ u ∈ db.schema.tables, u.name = i.table → u = t :=
    fun u hu hu' => h.eq_of_name hu hmem (hu'.trans hname.symm)
  refine ⟨h.distinct, h.named, ?_, ?_⟩
  · intro j hj
    rcases List.mem_append.mp hj with hj | hj
    · exact h.indexed j hj
    · obtain rfl := List.mem_singleton.mp hj
      refine ⟨hname ▸ List.mem_map_of_mem hmem, fun u hu hu' => ?_⟩
      rw [hone u hu hu']
      exact hcols
  · intro u hu
    have hok := h.tables u hu
    refine ⟨hok.1, fun k hk => ?_⟩
    rcases Schema.mem_keys.mp hk with hk | ⟨j, hj, ⟨hon, huniq⟩, rfl⟩
    · exact hok.2 k (Schema.mem_keys.mpr (.inl hk))
    rcases List.mem_append.mp hj with hj | hj
    · exact hok.2 _ (Schema.mem_keys.mpr (.inr ⟨j, hj, ⟨hon, huniq⟩, rfl⟩))
    · obtain rfl := List.mem_singleton.mp hj
      rw [hone u hu hon.symm]
      exact hunique huniq

theorem insertSelect (h : db.Valid) {target source : String} {items : List Item} {l : Latest}
    (hexec : Relational.exec db (.insertSelect target source items l) = some db') :
    db'.Valid := by
  obtain ⟨t, u, ht, -, hok, rfl⟩ := exec_insertSelect.mp hexec
  obtain ⟨hmem, hname⟩ := Schema.table?_eq_some ht
  refine ⟨h.distinct, h.named, h.indexed, fun w hw => ?_⟩
  by_cases hne : w.name = target
  · rw [h.eq_of_name hw hmem (hne.trans hname.symm)]
    exact hok
  · exact (h.tables w hw).mono (copied_rows_of_ne hne) (fun k hk => hk)
      fun _ _ _ _ hval => hval.copied

/-- The tables of a schema with one more column. -/
theorem mem_addColumn {s : Schema} {n : String} {c : Column} {w : Table} :
    w ∈ (s.addColumn n c).tables ↔
      ∃ t ∈ s.tables, (t.name = n ∧ w = t.addColumn c) ∨ (t.name ≠ n ∧ w = t) := by
  rw [Schema.addColumn, List.mem_map]
  refine exists_congr fun t => and_congr Iff.rfl ?_
  by_cases hname : t.name = n
  · simp [hname, eq_comm]
  · simp [hname, eq_comm]

/-- The values that were there before a new column are there after it. -/
theorem hasValue_withColumn (h : db.Valid) {n m x : String} {c : Column} {v : Value} (hv : v ≠ .null)
    (hval : db.HasValue m x v) : (db.withColumn n c).HasValue m x v := by
  obtain ⟨p, hp, rfl, r, hr, rfl⟩ := hval
  by_cases hname : p.name = n
  · have hlen : r.length = p.columns.length := ((h.tables p hp).1 r hr).1.1
    refine ⟨p.addColumn c, mem_addColumn.mpr ⟨p, hp, .inl ⟨hname, rfl⟩⟩, rfl, r ++ [c.dflt], ?_, ?_⟩
    · rw [hname, withColumn_rows_self]
      exact List.mem_map.mpr ⟨r, hname ▸ hr, rfl⟩
    · exact Table.value_addColumn_of_ne_null hlen hv
  · refine ⟨p, mem_addColumn.mpr ⟨p, hp, .inr ⟨hname, rfl⟩⟩, rfl, r, ?_, rfl⟩
    rwa [withColumn_rows_of_ne hname]

/-- The table that got the column. -/
theorem tableOk_addColumn (h : db.Valid) {c : Column} (ht : t ∈ db.schema.tables)
    (hc : c.name ∉ t.columnNames) (hdflt : c.accepts c.dflt)
    (hparent : c.parent ≠ none → c.dflt = .null) :
    (db.withColumn t.name c).TableOk (t.addColumn c) := by
  obtain ⟨hrows, hkeys⟩ := h.tables t ht
  have hname : (db.withColumn t.name c).rows (t.addColumn c).name =
      (db.rows t.name).map (· ++ [c.dflt]) := withColumn_rows_self
  rw [TableOk, hname]
  refine ⟨?_, fun k hk => ?_⟩
  · intro w hw
    obtain ⟨r, hr, rfl⟩ := List.mem_map.mp hw
    obtain ⟨hok, hrefers⟩ := hrows r hr
    refine ⟨hok.addColumn (h.named t ht) hc hdflt, ?_⟩
    intro x hx p hp
    rcases List.mem_append.mp hx with hx | hx
    · have hne : x.name ≠ c.name := fun heq => hc (heq ▸ List.mem_map_of_mem hx)
      rw [Table.value_addColumn hok.1 hne]
      exact (hrefers.mono fun _ _ _ hv hval => h.hasValue_withColumn hv hval) x hx p hp
    · obtain rfl := List.mem_singleton.mp hx
      refine .inl ?_
      rw [Table.value_addColumn_self hok.1 hc]
      exact hparent fun hnone => by simp [hnone] at hp
  · have hk : k ∈ db.schema.keys t := hk
    have hnamed := h.key_named ht hk
    have hsame : (db.rows t.name).filterMap ((t.addColumn c).keyOf k ∘ (· ++ [c.dflt])) =
        (db.rows t.name).filterMap (t.keyOf k) := by
      refine List.filterMap_congr fun r hr => ?_
      exact Table.keyOf_addColumn (hrows r hr).1.1 fun n hn heq => hc (heq ▸ hnamed n hn)
    rw [List.filterMap_map, hsame]
    exact hkeys k hk

theorem addColumn (h : db.Valid) {n : String} {c : Column}
    (hexec : Relational.exec db (.addColumn n c) = some db') : db'.Valid := by
  obtain ⟨t, ht, ⟨hc, hdflt, hparent⟩, rfl⟩ := exec_addColumn.mp hexec
  obtain ⟨hmem, rfl⟩ := Schema.table?_eq_some ht
  have hnames : (db.withColumn t.name c).schema.tables.map (·.name) =
      db.schema.tables.map (·.name) := by
    rw [withColumn, Schema.addColumn, List.map_map]
    refine List.map_congr_left fun u _ => ?_
    by_cases hu : u.name = t.name
    · simp [hu, Table.addColumn]
    · simp [hu]
  refine ⟨hnames ▸ h.distinct, ?_, ?_, ?_⟩
  · intro w hw
    obtain ⟨u, hu, ⟨-, rfl⟩ | ⟨-, rfl⟩⟩ := mem_addColumn.mp hw
    · obtain ⟨hown, hchecks⟩ := h.named u hu
      refine ⟨fun k hk x hx => ?_, fun x hx => ?_⟩
      · rw [Table.columnNames, Table.addColumn, List.map_append]
        exact List.mem_append_left _ (hown k hk x hx)
      · rw [Table.columnNames, Table.addColumn, List.map_append]
        exact List.mem_append_left _ (hchecks x hx)
    · exact h.named w hu
  · intro i hi
    obtain ⟨hon, hcols⟩ := h.indexed i hi
    refine ⟨hnames ▸ hon, fun w hw hname x hx => ?_⟩
    obtain ⟨u, hu, ⟨-, rfl⟩ | ⟨-, rfl⟩⟩ := mem_addColumn.mp hw
    · rw [Table.columnNames, Table.addColumn, List.map_append]
      exact List.mem_append_left _ (hcols u hu hname x hx)
    · exact hcols w hu hname x hx
  · intro w hw
    obtain ⟨u, hu, ⟨hname, rfl⟩ | ⟨hname, rfl⟩⟩ := mem_addColumn.mp hw
    · obtain rfl := h.eq_of_name hu hmem hname
      exact h.tableOk_addColumn hmem hc hdflt hparent
    · exact (h.tables w hu).mono (withColumn_rows_of_ne hname) (fun k hk => hk)
        fun _ _ _ hv hval => h.hasValue_withColumn hv hval

/-- **The constraints.** A statement keeps them. -/
theorem exec (h : db.Valid) {st : Statement} (hexec : Relational.exec db st = some db') :
    db'.Valid := by
  cases st with
  | createTable t => exact h.createTable hexec
  | createIndex i => exact h.createIndex hexec
  | addColumn n c => exact h.addColumn hexec
  | insertSelect target source items l => exact h.insertSelect hexec

end Valid

end Db

/-! ### What cannot fail -/

/-- What is known of a database whose data was not seen: its schema, and tables that have
just been created, so that they are empty. -/
structure Known where
  schema : Schema
  created : List String
  deriving DecidableEq, Repr

/-- The database is as is known. -/
structure Known.Of (k : Known) (db : Db) : Prop where
  schema : db.schema = k.schema
  created : ∀ n ∈ k.created, db.rows n = []

/-- What is known after a statement; `none` where the data could make it fail. -/
def Known.after (k : Known) (st : Statement) : Option Known :=
  match st with
  | .createTable t =>
    if t.name ∉ k.schema.names ∧ t.Named then
      some ⟨k.schema.after st, t.name :: k.created⟩
    else none
  | .createIndex i =>
    match k.schema.table? i.table with
    | none => none
    | some t =>
      if i.name ∉ k.schema.names ∧ (∀ c ∈ i.key.columns, c ∈ t.columnNames) ∧
          (i.unique → t.name ∈ k.created) then
        some ⟨k.schema.after st, k.created⟩
      else none
  | .addColumn table c =>
    match k.schema.table? table with
    | none => none
    | some t =>
      if c.name ∉ t.columnNames ∧ c.accepts c.dflt ∧ (c.parent ≠ none → c.dflt = .null) then
        some ⟨k.schema.after st, k.created⟩
      else none
  | .insertSelect .. => none

/-- **No failure.** A statement that the data cannot make fail succeeds. -/
theorem exec_known {k k' : Known} {db : Db} {st : Statement} (hk : k.Of db)
    (hafter : k.after st = some k') : ∃ db', exec db st = some db' ∧ k'.Of db' := by
  obtain ⟨s, made⟩ := k
  obtain ⟨rfl, hcreated⟩ := hk
  cases st with
  | createTable t =>
    obtain ⟨hguard, hk'⟩ := Option.ite_none_right_eq_some.mp hafter
    obtain rfl := Option.some.inj hk'
    refine ⟨_, exec_createTable.mpr ⟨hguard, rfl⟩, rfl, fun n hn => ?_⟩
    rcases List.mem_cons.mp hn with rfl | hn
    · exact Db.created_rows_self
    · by_cases hname : n = t.name
      · rw [hname, Db.created_rows_self]
      · rw [Db.created_rows_of_ne hname]
        exact hcreated n hn
  | createIndex i =>
    simp only [Known.after] at hafter
    split at hafter
    · cases hafter
    · rename_i t ht
      obtain ⟨⟨hfresh, hcols, hunique⟩, hk'⟩ := Option.ite_none_right_eq_some.mp hafter
      obtain rfl := Option.some.inj hk'
      refine ⟨_, exec_createIndex.mpr ⟨t, ht, ⟨hfresh, hcols, fun hu => ?_⟩, rfl⟩, rfl, hcreated⟩
      rw [hcreated _ (hunique hu)]
      exact List.nodup_nil
  | addColumn n c =>
    simp only [Known.after] at hafter
    split at hafter
    · cases hafter
    · rename_i t ht
      obtain ⟨hguard, hk'⟩ := Option.ite_none_right_eq_some.mp hafter
      obtain rfl := Option.some.inj hk'
      refine ⟨_, exec_addColumn.mpr ⟨t, ht, hguard, rfl⟩, rfl, fun m hm => ?_⟩
      by_cases hname : m = n
      · rw [hname, Db.withColumn_rows_self, hcreated _ (hname ▸ hm), List.map_nil]
      · rw [Db.withColumn_rows_of_ne hname]
        exact hcreated m hm
  | insertSelect target source items l => cases hafter

/-- What is known after several statements. -/
def Known.afterAll : Known → List Statement → Option Known
  | k, [] => some k
  | k, st :: sts => (k.after st).bind fun k' => k'.afterAll sts

/-! ## The last of the rows that agree -/

namespace Table

variable {t : Table} {rows : List Row} {l : Latest} {a b x : Row} {cs : List String}

theorem agree_iff : t.agree cs a b ↔ ∀ c ∈ cs, t.value a c ≠ .null ∧ t.value b c = t.value a c := by
  simp [agree]

theorem agree_self (h : ∀ c ∈ cs, t.value a c ≠ .null) : t.agree cs a a :=
  agree_iff.mpr fun c hc => ⟨h c hc, rfl⟩

/-- Rows that agree agree with the same rows. -/
theorem agree_congr (h : t.agree cs a b) : t.agree cs b = t.agree cs a := by
  funext x
  rw [Bool.eq_iff_iff, agree_iff, agree_iff]
  refine forall₂_congr fun c hc => ?_
  rw [(agree_iff.mp h c hc).2]

/-- A key of plain columns, on a row that has a value in each. -/
theorem keyOf_columns (h : ∀ c ∈ cs, t.isNocase c = false ∧ t.value a c ≠ .null) :
    t.keyOf ⟨cs.map .column, none⟩ a = some (cs.map (t.value a)) := by
  have hterms : (cs.map Term.column).map (t.termValue a) = cs.map (t.value a) := by
    rw [List.map_map]
    refine List.map_congr_left fun c hc => ?_
    simp [termValue, keyValue, (h c hc).1]
  have hnull : Value.null ∉ cs.map (t.value a) := by
    rintro hmem
    obtain ⟨c, hc, hv⟩ := List.mem_map.mp hmem
    exact (h c hc).2 hv
  simp [keyOf, covered, hterms, hnull]

/-- The rows have an id each, and the order ends with it. -/
structure Identified (t : Table) (rows : List Row) (l : Latest) : Prop where
  present : ∀ r ∈ rows, t.value r l.id ≠ .null ∧ ∀ c ∈ l.same, t.value r c ≠ .null
  unique : ∀ r ∈ rows, ∀ r' ∈ rows, t.value r l.id = t.value r' l.id → r = r'
  ordered : l.id ∈ l.order

namespace Identified

variable (h : t.Identified rows l)

include h

/-- The first of the ordered rows: none that agrees comes after it. -/
theorem exists_head (ha : a ∈ rows) : ∃ b, (t.ordered rows l a).head? = some b ∧ b ∈ rows ∧
    t.agree l.same a b ∧ ∀ x ∈ rows, t.agree l.same a x → t.orderKey l x ≤ t.orderKey l b := by
  have hmem : ∀ x, x ∈ t.ordered rows l a ↔ x ∈ rows ∧ t.agree l.same a x := by
    simp [Table.ordered]
  have hself : a ∈ t.ordered rows l a :=
    (hmem a).mpr ⟨ha, agree_self (h.present a ha).2⟩
  rcases hlist : t.ordered rows l a with _ | ⟨b, rest⟩
  · rw [hlist] at hself
    cases hself
  have hb := (hmem b).mp (hlist ▸ List.mem_cons_self)
  refine ⟨b, rfl, hb.1, hb.2, fun x hx hax => ?_⟩
  have hpair : (b :: rest).Pairwise fun r s =>
      OrderDual.toDual (t.orderKey l r) ≤ OrderDual.toDual (t.orderKey l s) :=
    hlist ▸ pairwise_orderBy _ _
  rcases List.mem_cons.mp (hlist ▸ (hmem x).mpr ⟨hx, hax⟩) with rfl | hx
  · exact le_rfl
  · exact List.rel_of_pairwise_cons hpair hx

/-- **The last row.** It is the one that no row that agrees with it comes after. -/
theorem isLatest_iff (ha : a ∈ rows) : t.isLatest rows l a ↔
    ∀ x ∈ rows, t.agree l.same a x → t.orderKey l x ≤ t.orderKey l a := by
  obtain ⟨b, hhead, hb, hab, hlast⟩ := h.exists_head ha
  have hlatest : t.isLatest rows l a ↔ t.value a l.id = t.value b l.id := by
    simp [isLatest, hhead, (h.present a ha).1]
  rw [hlatest]
  constructor
  · intro hid
    obtain rfl := h.unique a ha b hb hid
    exact hlast
  · intro hall
    have heq : t.orderKey l a = t.orderKey l b :=
      le_antisymm (hlast a ha (agree_self (h.present a ha).2)) (hall b hb hab)
    exact List.map_inj_left.mp heq _ h.ordered

/-- Every row agrees with one that is the last. -/
theorem exists_latest (ha : a ∈ rows) :
    ∃ b ∈ rows, t.agree l.same a b ∧ t.isLatest rows l b := by
  obtain ⟨b, -, hb, hab, hlast⟩ := h.exists_head ha
  refine ⟨b, hb, hab, (h.isLatest_iff hb).mpr fun x hx hbx => hlast x hx ?_⟩
  rwa [← agree_congr hab]

/-- Two last rows that agree are one. -/
theorem latest_unique (ha : a ∈ rows) (hb : b ∈ rows) (hab : t.agree l.same a b)
    (hla : t.isLatest rows l a) (hlb : t.isLatest rows l b) : a = b := by
  have hba : t.agree l.same b a := by
    rw [agree_congr hab]
    exact agree_self (h.present a ha).2
  have heq : t.orderKey l a = t.orderKey l b :=
    le_antisymm ((h.isLatest_iff hb).mp hlb a ha hba) ((h.isLatest_iff ha).mp hla b hb hab)
  exact h.unique a ha b hb (List.map_inj_left.mp heq _ h.ordered)

end Identified

end Table

end Relational
