import Owney.Migrations

/-!
# Upgrades of the schema

What `apply` leaves, whatever version and data it started from and whatever failed.

* `schemaAt` — the schema after the first migrations, computed from them alone.
* `AtVersion` — a database at a version: its schema is that of the version, and its data
  meets the constraints.
* `exists_migrated` — a migration fails on no data: the statements cannot, by what is known
  of the schema, and the copied annotations meet the constraints of the new table.
* `applyLoop_spec` — the loop, with any failures: where it stops, the database is at the
  version of the last completed migration.
-/

namespace Owney.Migrations

open Relational Tables

/-- The schema after the first migrations. -/
def schemaAt (n : ℕ) : Schema := (MIGRATIONS.take n).flatten.foldl Schema.after ⟨[], []⟩

/-- A database at a version, with any data the schema allows. -/
structure AtVersion (n : ℕ) (db : Db) : Prop where
  version : db.userVersion = n
  schema : db.schema = schemaAt n
  valid : db.Valid

theorem atVersion_empty : AtVersion 0 Db.empty := by
  refine ⟨rfl, rfl, List.nodup_nil, ?_, ?_, ?_⟩
  · exact fun t ht => absurd ht List.not_mem_nil
  · exact fun i hi => absurd hi List.not_mem_nil
  · exact fun t ht => absurd ht List.not_mem_nil

theorem schemaAt_succ {n : ℕ} (h : n < MIGRATIONS.length) :
    schemaAt (n + 1) = MIGRATIONS[n].foldl Schema.after (schemaAt n) := by
  rw [schemaAt, List.take_succ_eq_append_getElem h, List.flatten_append, List.foldl_append]
  simp [schemaAt]

/-! ## One migration -/

section Batch

variable {io : Io} {db db' : Db} {n : ℕ}

theorem runStatement_eq_ok {st : Statement} {u : Unit} :
    runStatement io n st db = .ok (u, db') ↔ io n ∧ exec db st = some db' := by
  rw [runStatement]
  rcases exec db st with _ | x
  · simp
  · cases io n <;> simp

theorem executeBatch_singleton {st : Statement} {u : Unit} :
    executeBatch io n [st] db = .ok (u, db') ↔ io n ∧ exec db st = some db' := by
  simp [executeBatch, runStatement_eq_ok]

/-- What the statements leave that succeed. -/
theorem executeBatch_ok {sts : List Statement} {u : Unit}
    (h : executeBatch io n sts db = .ok (u, db')) :
    db'.schema = sts.foldl Schema.after db.schema ∧ (db.Valid → db'.Valid) := by
  induction sts generalizing n db with
  | nil =>
    obtain ⟨-, rfl⟩ := Tx.pure_eq_ok.mp h
    exact ⟨rfl, id⟩
  | cons st sts ih =>
    obtain ⟨_, x, hst, hrest⟩ := Tx.bind_eq_ok.mp h
    obtain ⟨-, hexec⟩ := runStatement_eq_ok.mp hst
    obtain ⟨hschema, hvalid⟩ := ih hrest
    refine ⟨?_, fun hdb => hvalid (hdb.exec hexec)⟩
    rw [hschema, schema_exec hexec, List.foldl_cons]

/-- Statements the data cannot make fail succeed. -/
theorem executeBatch_known {sts : List Statement} {k k' : Known} (hk : k.Of db)
    (hafter : k.afterAll sts = some k') :
    ∃ db', executeBatch .ok n sts db = .ok (⟨⟩, db') ∧ k'.Of db' := by
  induction sts generalizing n db k with
  | nil =>
    obtain rfl := Option.some.inj hafter
    exact ⟨db, rfl, hk⟩
  | cons st sts ih =>
    obtain ⟨x, hst, hrest⟩ := Option.bind_eq_some_iff.mp hafter
    obtain ⟨d, hexec, hd⟩ := exec_known hk hst
    obtain ⟨db', hbatch, hdb'⟩ := ih hd hrest
    exact ⟨db', Tx.bind_eq_ok.mpr ⟨⟨⟩, d, runStatement_eq_ok.mpr ⟨rfl, hexec⟩, hbatch⟩, hdb'⟩

theorem executeBatch_append {xs ys : List Statement} {u : Unit} :
    executeBatch io n (xs ++ ys) db = .ok (u, db') ↔
      ∃ d, executeBatch io n xs db = .ok (⟨⟩, d) ∧
        executeBatch io (n + xs.length) ys d = .ok (u, db') := by
  induction xs generalizing n db with
  | nil =>
    constructor
    · exact fun h => ⟨db, rfl, h⟩
    · rintro ⟨d, hd, h⟩
      obtain ⟨-, rfl⟩ := Tx.pure_eq_ok.mp hd
      exact h
  | cons st xs ih =>
    simp only [List.cons_append, executeBatch, Tx.bind_eq_ok, ih, List.length_cons,
      Nat.add_right_comm n 1, ← Nat.add_assoc]
    constructor
    · rintro ⟨v, x, hst, d, hxs, hys⟩
      exact ⟨d, ⟨v, x, hst, hxs⟩, hys⟩
    · rintro ⟨d, ⟨v, x, hst, hxs⟩, hys⟩
      exact ⟨v, x, hst, d, hxs, hys⟩

theorem migrationTx_eq_ok {v : ℕ} {sql : List Statement} {u : Unit} :
    migrationTx io v sql db = .ok (u, db') ↔ io 0 ∧ io 1 ∧ io 2 ∧
      ∃ d, executeBatch io 3 sql db = .ok (⟨⟩, d) ∧ db' = { d with userVersion := v } := by
  simp only [migrationTx, Tx.bind_eq_ok, Tx.exec_eq_ok, id]
  constructor
  · rintro ⟨_, _, ⟨h₀, rfl⟩, _, d, hbatch, _, _, ⟨h₁, rfl⟩, h₂, rfl⟩
    exact ⟨h₀, h₁, h₂, d, hbatch, rfl⟩
  · rintro ⟨h₀, h₁, h₂, d, hbatch, rfl⟩
    exact ⟨⟨⟩, db, ⟨h₀, rfl⟩, ⟨⟩, d, hbatch, ⟨⟩, _, ⟨h₁, rfl⟩, h₂, rfl⟩

/-- **A completed migration.** The database is at the next version. -/
theorem AtVersion.migrated (h : AtVersion n db) (hn : n < MIGRATIONS.length) {u : Unit}
    (htx : migrationTx io (n + 1) MIGRATIONS[n] db = .ok (u, db')) : AtVersion (n + 1) db' := by
  obtain ⟨-, -, -, d, hbatch, rfl⟩ := migrationTx_eq_ok.mp htx
  obtain ⟨hschema, hvalid⟩ := executeBatch_ok hbatch
  obtain ⟨hdistinct, hnamed, hindexed, htables⟩ := hvalid h.valid
  refine ⟨rfl, ?_, hdistinct, hnamed, hindexed, htables⟩
  rw [schemaAt_succ hn, ← h.schema, ← hschema]

end Batch

/-! ## The copy of the annotations -/

section Copy

/-- An annotation: six values, none of them missing. -/
theorem annotation_cases {r : Row} (h : aiAnnotations.RowOk r) : ∃ i a e k c t,
    r = [i, a, e, k, c, t] ∧ i ≠ .null ∧ e ≠ .null ∧ k ≠ .null := by
  have hlen : r.length = 6 := h.1
  obtain ⟨i, a, e, k, c, t, rfl⟩ : ∃ i a e k c t, r = [i, a, e, k, c, t] := by
    rcases r with _ | ⟨i, _ | ⟨a, _ | ⟨e, _ | ⟨k, _ | ⟨c, _ | ⟨t, _ | ⟨x, r⟩⟩⟩⟩⟩⟩⟩ <;> simp at hlen
    exact ⟨i, a, e, k, c, t, rfl⟩
  refine ⟨i, a, e, k, c, t, rfl, ?_, ?_, ?_⟩ <;> rintro rfl <;>
    simp [Table.RowOk, aiAnnotations, text, integer, Column.notNull, Column.refs,
      Column.accepts] at h

variable {i a e k c t : Value}

theorem select_annotated : aiAnnotations.select annotationItems [i, a, e, k, c, t] =
    [i, a, e, k, c, .null, t, t] := by
  simp [Table.select, annotationItems, Table.value, aiAnnotations, text, integer, Column.notNull,
    Column.refs]

/-- The copy of an annotation can be in the new table. -/
theorem rowOk_copy (h : aiAnnotations.RowOk [i, a, e, k, c, t]) :
    attributes.RowOk [i, a, e, k, c, .null, t, t] := by
  simp [Table.RowOk, attributes, aiAnnotations, text, integer, Column.notNull, Column.refs,
    Column.accepts] at h ⊢
  exact h

/-- The copy refers to what the annotation refers to. -/
theorem refers_copy {db db' : Db} (h : db.Refers aiAnnotations [i, a, e, k, c, t])
    (hval : ∀ n x v, db.HasValue n x v → db'.HasValue n x v) :
    db'.Refers attributes [i, a, e, k, c, .null, t, t] := by
  simp [Db.Refers, attributes, aiAnnotations, text, integer, Column.notNull, Column.refs,
    Table.value] at h ⊢
  exact ⟨h.1.imp_right (hval _ _ _), h.2.imp_right (hval _ _ _)⟩

end Copy

/-- The primary key of both tables. -/
def idKey : Key := ⟨["id"].map .column, none⟩

/-- `UNIQUE (email_id, kind)`. -/
def kindKey : Key := ⟨["email_id", "kind"].map .column, none⟩

/-- The rows of `ai_annotations` of a database that meets its constraints. -/
structure Annotations (rows : List Row) : Prop where
  ok : ∀ r ∈ rows, aiAnnotations.RowOk r
  unique : (rows.filterMap (aiAnnotations.keyOf idKey)).Nodup

namespace Annotations

variable {rows : List Row} {r r' : Row}

theorem value_ne_null (h : aiAnnotations.RowOk r) {n : String}
    (hn : n = "id" ∨ n = "email_id" ∨ n = "kind") : aiAnnotations.value r n ≠ .null := by
  obtain ⟨i, a, e, k, c, t, rfl, hi, he, hk⟩ := annotation_cases h
  rcases hn with rfl | rfl | rfl <;>
    simpa [Table.value, aiAnnotations, text, integer, Column.notNull, Column.refs]

theorem keyOf_id (h : aiAnnotations.RowOk r) :
    aiAnnotations.keyOf idKey r = some [aiAnnotations.value r "id"] := by
  refine Table.keyOf_columns fun c hc => ?_
  obtain rfl := List.mem_singleton.mp hc
  exact ⟨by decide, value_ne_null h (.inl rfl)⟩

/-- The copy has the annotation's values. -/
theorem value_copy (h : aiAnnotations.RowOk r) {n : String}
    (hn : n = "id" ∨ n = "email_id" ∨ n = "kind") :
    attributes.value (aiAnnotations.select annotationItems r) n = aiAnnotations.value r n := by
  obtain ⟨i, a, e, k, c, t, rfl, -⟩ := annotation_cases h
  rw [select_annotated]
  rcases hn with rfl | rfl | rfl <;>
    simp [Table.value, attributes, aiAnnotations, text, integer, Column.notNull, Column.refs]

/-- The key of a copy. -/
theorem keyOf_copy (h : aiAnnotations.RowOk r) {ns : List String}
    (hns : ∀ n ∈ ns, n = "id" ∨ n = "email_id" ∨ n = "kind") :
    attributes.keyOf ⟨ns.map .column, none⟩ (aiAnnotations.select annotationItems r) =
      some (ns.map (aiAnnotations.value r)) := by
  rw [Table.keyOf_columns]
  · rw [List.map_congr_left fun n hn => value_copy h (hns n hn)]
  · intro n hn
    rw [value_copy h (hns n hn)]
    refine ⟨?_, value_ne_null h (hns n hn)⟩
    rcases hns n hn with rfl | rfl | rfl <;> decide

theorem pairwise_id (h : Annotations rows) :
    rows.Pairwise fun r r' => aiAnnotations.value r "id" ≠ aiAnnotations.value r' "id" := by
  refine (List.pairwise_filterMap.mp h.unique).imp_of_mem fun {r r'} hr hr' hne heq => ?_
  exact hne _ (keyOf_id (h.ok r hr)) _ (keyOf_id (h.ok r' hr')) (by rw [heq])

theorem identified (h : Annotations rows) : aiAnnotations.Identified rows newestRemark := by
  refine ⟨fun r hr => ⟨value_ne_null (h.ok r hr) (.inl rfl), fun c hc => ?_⟩, ?_, by decide⟩
  · exact value_ne_null (h.ok r hr) (.inr (by simpa [newestRemark] using hc))
  · intro r hr r' hr' hid
    refine eq_of_partial_key_eq h.unique hr hr' (keyOf_id (h.ok r hr)) ?_
    rw [keyOf_id (h.ok r' hr')]
    exact congrArg (fun v => some [v]) hid.symm

/-- Annotations of one email and kind agree. -/
theorem agree_of_eq (h : aiAnnotations.RowOk r)
    (heq : ["email_id", "kind"].map (aiAnnotations.value r) =
      ["email_id", "kind"].map (aiAnnotations.value r')) :
    aiAnnotations.agree newestRemark.same r r' := by
  refine Table.agree_iff.mpr fun c hc => ⟨?_, ?_⟩
  · exact value_ne_null h (.inr (by simpa [newestRemark] using hc))
  · exact (List.map_inj_left.mp heq c hc).symm

/-- **The keys of the copies.** No two have one id, or one email and kind. -/
theorem nodup_copies (h : Annotations rows) {k : Key} (hk : k ∈ attributes.ownKeys) :
    (((rows.filter (aiAnnotations.isLatest rows newestRemark)).map
      (aiAnnotations.select annotationItems)).filterMap (attributes.keyOf k)).Nodup := by
  rw [List.filterMap_map, List.Nodup, List.pairwise_filterMap]
  refine (h.pairwise_id.filter _).imp_of_mem fun {r r'} hr hr' hid x hx y hy => ?_
  obtain ⟨hmem, hlatest⟩ := List.mem_filter.mp hr
  obtain ⟨hmem', hlatest'⟩ := List.mem_filter.mp hr'
  have hok := h.ok r hmem
  have hok' := h.ok r' hmem'
  rintro rfl
  have hkeys : k = idKey ∨ k = kindKey := by
    simpa [Table.ownKeys, attributes, idKey, kindKey] using hk
  rcases hkeys with rfl | rfl
  · have hx := Option.some.inj ((keyOf_copy hok (by decide)).symm.trans hx)
    have hy := Option.some.inj ((keyOf_copy hok' (by decide)).symm.trans hy)
    exact hid (List.map_inj_left.mp (hx.trans hy.symm) "id" (by decide))
  · have hx := Option.some.inj ((keyOf_copy hok (by decide)).symm.trans hx)
    have hy := Option.some.inj ((keyOf_copy hok' (by decide)).symm.trans hy)
    have hagree := agree_of_eq hok (hx.trans hy.symm)
    exact hid (by rw [h.identified.latest_unique hmem hmem' hagree hlatest hlatest'])

end Annotations

/-- The annotations of a database. -/
def annotations (db : Db) : List Row := db.rows "ai_annotations"

/-- The attributes of a database. -/
def attributeRows (db : Db) : List Row := db.rows "email_attributes"

/-- The annotations are as their table wants them. -/
theorem annotations_of_valid {db : Db} (h : db.Valid) (hmem : aiAnnotations ∈ db.schema.tables) :
    Annotations (annotations db) := by
  obtain ⟨hrows, hkeys⟩ := h.tables _ hmem
  refine ⟨fun r hr => (hrows r hr).1, hkeys idKey ?_⟩
  exact Schema.mem_keys.mpr (.inl List.mem_cons_self)

/-- **The copy.** It meets the constraints of the new table. -/
theorem tableOk_copied {db : Db} (h : db.Valid) (hmem : aiAnnotations ∈ db.schema.tables)
    (hempty : attributeRows db = []) (hkeys : db.schema.keys attributes = attributes.ownKeys) :
    (db.copied "email_attributes" "ai_annotations" aiAnnotations annotationItems
      newestRemark).TableOk attributes := by
  have hann := annotations_of_valid h hmem
  have hempty : db.rows "email_attributes" = [] := hempty
  have hrows : (db.copied "email_attributes" "ai_annotations" aiAnnotations annotationItems
      newestRemark).rows attributes.name =
        ((annotations db).filter (aiAnnotations.isLatest (annotations db) newestRemark)).map
          (aiAnnotations.select annotationItems) := by
    rw [show attributes.name = "email_attributes" from rfl, Db.copied_rows_self, hempty,
      List.nil_append]
    rfl
  rw [Db.TableOk, hrows]
  refine ⟨fun r hr => ?_, fun k hk => hann.nodup_copies (hkeys ▸ hk)⟩
  obtain ⟨x, hx, rfl⟩ := List.mem_map.mp hr
  have hx := (List.mem_filter.mp hx).1
  have hrefers : db.Refers aiAnnotations x := ((h.tables _ hmem).1 x hx).2
  have hok := hann.ok x hx
  obtain ⟨i, a, e, k, c, t, rfl, -⟩ := annotation_cases hok
  rw [select_annotated]
  exact ⟨rowOk_copy hok, refers_copy hrefers fun _ _ _ hval => hval.copied⟩

/-! ## No migration fails on data -/

/-- The migrations whose statements the data cannot make fail: all but the one that copies. -/
theorem known_migrations : ∀ n (h : n < MIGRATIONS.length), n ≠ 19 →
    ((⟨schemaAt n, []⟩ : Known).afterAll MIGRATIONS[n]).isSome := by
  decide +kernel

/-- What is known before the copy. -/
theorem known_copy : ∃ k : Known,
    (⟨schemaAt 19, []⟩ : Known).afterAll emailAttributes.dropLast = some k ∧
      "email_attributes" ∈ k.created ∧ k.schema.table? "email_attributes" = some attributes ∧
      k.schema.table? "ai_annotations" = some aiAnnotations ∧
      k.schema.keys attributes = attributes.ownKeys := by
  refine ⟨((⟨schemaAt 19, []⟩ : Known).afterAll emailAttributes.dropLast).getD ⟨⟨[], []⟩, []⟩, ?_⟩
  decide +kernel

/-- The migration that copies does not fail either. -/
theorem exists_copied {db : Db} (h : AtVersion 19 db) :
    ∃ db', executeBatch .ok 3 emailAttributes db = .ok (⟨⟩, db') := by
  obtain ⟨k, hk, hcreated, ht, hu, hkeys⟩ := known_copy
  have hof : (⟨schemaAt 19, []⟩ : Known).Of db :=
    ⟨h.schema, fun n hn => absurd hn List.not_mem_nil⟩
  obtain ⟨d, hbatch, hd⟩ := executeBatch_known (n := 3) hof hk
  obtain ⟨-, hvalid⟩ := executeBatch_ok hbatch
  rw [← hd.schema] at ht hu hkeys
  have hok := tableOk_copied (hvalid h.valid) (Schema.table?_eq_some hu).1
    (hd.created _ hcreated) hkeys
  have hexec := exec_insertSelect.mpr ⟨attributes, aiAnnotations, ht, hu, hok, rfl⟩
  exact ⟨_, executeBatch_append.mpr ⟨d, hbatch, executeBatch_singleton.mpr ⟨rfl, hexec⟩⟩⟩

/-- **No failure.** A migration completes on any data of the version before it. -/
theorem exists_migrated {db : Db} {n : ℕ} (h : AtVersion n db) (hn : n < MIGRATIONS.length) :
    ∃ db', migrationTx .ok (n + 1) MIGRATIONS[n] db = .ok (⟨⟩, db') := by
  have hbatch : ∃ d, executeBatch .ok 3 MIGRATIONS[n] db = .ok (⟨⟩, d) := by
    by_cases hcopy : n = 19
    · subst hcopy
      exact exists_copied h
    · obtain ⟨k, hk⟩ := Option.isSome_iff_exists.mp (known_migrations n hn hcopy)
      have hof : (⟨schemaAt n, []⟩ : Known).Of db :=
        ⟨h.schema, fun m hm => absurd hm List.not_mem_nil⟩
      obtain ⟨d, hd, -⟩ := executeBatch_known hof hk
      exact ⟨d, hd⟩
  obtain ⟨d, hd⟩ := hbatch
  exact ⟨_, migrationTx_eq_ok.mpr ⟨rfl, rfl, rfl, d, hd, rfl⟩⟩

/-! ## The loop -/

section Loop

variable {db db' : Db} {io : ℕ → Io} {n N j : ℕ}

theorem drop_take_cons (hn : n < j) (hj : j ≤ MIGRATIONS.length) :
    (MIGRATIONS.take j).drop n = MIGRATIONS[n] :: (MIGRATIONS.take j).drop (n + 1) := by
  have hlen : n < (MIGRATIONS.take j).length := by
    rw [List.length_take]
    omega
  rw [List.drop_eq_getElem_cons hlen, List.getElem_take]

theorem applyLoop_self : applyLoop io n ((MIGRATIONS.take n).drop n) db = (.ok ⟨⟩, db) := by
  rw [List.drop_of_length_le (List.length_take_le n _)]
  rfl

theorem applyLoop_of_ok (hn : n < j) (hj : j ≤ MIGRATIONS.length) {u : Unit}
    (h : transaction (migrationTx (io n) (n + 1) MIGRATIONS[n]) db = (.ok u, db')) :
    applyLoop io n ((MIGRATIONS.take j).drop n) db =
      applyLoop io (n + 1) ((MIGRATIONS.take j).drop (n + 1)) db' := by
  rw [drop_take_cons hn hj, applyLoop, h]

/-- **The loop.** Where it stops, the database is what the migrations before leave that
completed; it is finished when no migration is left. -/
theorem applyLoop_spec (hN : N ≤ MIGRATIONS.length) (h : AtVersion n db) (hn : n ≤ N)
    {r : Except StorageError Unit × Db}
    (hr : applyLoop io n ((MIGRATIONS.take N).drop n) db = r) :
    ∃ j, n ≤ j ∧ j ≤ N ∧ AtVersion j r.2 ∧ (r.1 = .ok ⟨⟩ → j = N) ∧
      applyLoop io n ((MIGRATIONS.take j).drop n) db = (.ok ⟨⟩, r.2) := by
  induction hm : N - n generalizing n db with
  | zero =>
    obtain rfl : n = N := by omega
    obtain rfl := hr.symm.trans applyLoop_self
    exact ⟨n, le_rfl, le_rfl, h, fun _ => rfl, applyLoop_self⟩
  | succ m ih =>
    have hlt : n < N := by omega
    rcases transaction_cases (migrationTx (io n) (n + 1) MIGRATIONS[n]) db with
      ⟨e, he⟩ | ⟨u, db', hbody, hok⟩
    · -- the migration fails, and nothing after it is tried
      rw [drop_take_cons hlt hN, applyLoop, he] at hr
      obtain rfl : (.error e, db) = r := hr
      exact ⟨n, le_rfl, hn, h, fun hok => (by cases hok), applyLoop_self⟩
    · rw [applyLoop_of_ok hlt hN hok] at hr
      obtain ⟨j, hnj, hjN, hat, hfin, hsame⟩ :=
        ih (h.migrated (by omega) hbody) hlt hr (by omega)
      refine ⟨j, by omega, hjN, hat, hfin, ?_⟩
      rw [applyLoop_of_ok (by omega) (by omega) hok, hsame]

/-- When no statement fails for a reason of its own, all migrations complete. -/
theorem applyLoop_ok (hN : N ≤ MIGRATIONS.length) (h : AtVersion n db) (hn : n ≤ N) :
    (applyLoop (fun _ => .ok) n ((MIGRATIONS.take N).drop n) db).1 = .ok ⟨⟩ := by
  induction hm : N - n generalizing n db with
  | zero =>
    obtain rfl : n = N := by omega
    rw [applyLoop_self]
  | succ m ih =>
    have hlt : n < N := by omega
    obtain ⟨db', hdb'⟩ := exists_migrated h (by omega)
    rw [applyLoop_of_ok hlt hN (transaction_eq_ok.mpr hdb')]
    exact ih (h.migrated (by omega) hdb') hlt (by omega)

/-- `apply` on a database that is not from a newer release. -/
theorem apply_eq (hN : N ≤ MIGRATIONS.length) (hv : db.userVersion = n) (hn : n ≤ N) :
    apply (MIGRATIONS.take N) true io db =
      applyLoop io n ((MIGRATIONS.take N).drop n) db := by
  have hlen : MIGRATIONS.length = 22 := rfl
  have husize : asUsize db.userVersion = n := by
    rw [hv, asUsize]
    omega
  rw [apply, husize, if_neg (by simp), if_neg]
  rw [List.length_take]
  omega

end Loop

/-! ## Databases of earlier releases -/

/-- The databases that releases make: a new one; what any release's `apply` leaves, whatever
failed; and any data its schema allows. -/
inductive Produced : Db → Prop where
  | empty : Produced Db.empty
  | apply {db : Db} (N : ℕ) (read : Bool) (io : ℕ → Io) (known : N ≤ MIGRATIONS.length)
      (earlier : Produced db) : Produced (Migrations.apply (MIGRATIONS.take N) read io db).2
  | write {db : Db} (rows : String → List Row) (earlier : Produced db)
      (valid : Db.Valid { db with rows := rows }) : Produced { db with rows := rows }

/-- What `apply` leaves of a database at some version. -/
theorem AtVersion.apply {db : Db} {n N : ℕ} (h : AtVersion n db) (hlen : n ≤ MIGRATIONS.length)
    (hN : N ≤ MIGRATIONS.length) (read : Bool) (io : ℕ → Io) :
    ∃ j ≤ MIGRATIONS.length, AtVersion j (Migrations.apply (MIGRATIONS.take N) read io db).2 := by
  cases read with
  | false => exact ⟨n, hlen, h⟩
  | true =>
    by_cases hn : n ≤ N
    · rw [apply_eq hN h.version hn]
      obtain ⟨j, -, hj, hat, -⟩ := applyLoop_spec hN h hn rfl
      exact ⟨j, hj.trans hN, hat⟩
    · have husize : asUsize db.userVersion = n := by
        have hcount : MIGRATIONS.length = 22 := rfl
        rw [h.version, asUsize]
        omega
      have hnew : asUsize db.userVersion > (MIGRATIONS.take N).length := by
        rw [husize, List.length_take]
        omega
      rw [Migrations.apply, if_neg (by simp), if_pos hnew]
      exact ⟨n, hlen, h⟩

theorem Produced.atVersion {db : Db} (h : Produced db) :
    ∃ n ≤ MIGRATIONS.length, AtVersion n db := by
  induction h with
  | empty => exact ⟨0, Nat.zero_le _, atVersion_empty⟩
  | apply N read io known _ ih =>
    obtain ⟨n, hlen, hn⟩ := ih
    exact hn.apply hlen known read io
  | write rows _ valid ih =>
    obtain ⟨n, hlen, hn⟩ := ih
    exact ⟨n, hlen, hn.version, hn.schema, valid⟩

/-! ## The deduplication -/

/-- The first annotation is newer than the second; ids are time-ordered, and break ties. -/
def Newer (b a : Row) : Prop :=
  aiAnnotations.value a "created_at" < aiAnnotations.value b "created_at" ∨
    aiAnnotations.value a "created_at" = aiAnnotations.value b "created_at" ∧
      aiAnnotations.value a "id" < aiAnnotations.value b "id"

/-- The annotations are of one email and one kind. -/
def SameSubject (a b : Row) : Prop :=
  aiAnnotations.value b "email_id" = aiAnnotations.value a "email_id" ∧
    aiAnnotations.value b "kind" = aiAnnotations.value a "kind"

/-- The attributes are those of the newest annotations. -/
structure Deduplicated (annotations attributeRows : List Row) : Prop where
  /-- an attribute is the copy of an annotation than which none of its email and kind is newer -/
  mem_iff : ∀ r, r ∈ attributeRows ↔ ∃ a ∈ annotations,
    (∀ b ∈ annotations, SameSubject a b → ¬Newer b a) ∧
      r = aiAnnotations.select annotationItems a
  /-- each email and kind that has annotations has one attribute -/
  one : ∀ a ∈ annotations, ∃! r, r ∈ attributeRows ∧
    attributes.value r "email_id" = aiAnnotations.value a "email_id" ∧
      attributes.value r "kind" = aiAnnotations.value a "kind"
  nodup : attributeRows.Nodup

namespace Annotations

variable {rows : List Row} {a b : Row}

theorem agree_iff_sameSubject (h : aiAnnotations.RowOk a) :
    aiAnnotations.agree newestRemark.same a b ↔ SameSubject a b := by
  rw [Table.agree_iff, SameSubject]
  simp [newestRemark, value_ne_null h]

theorem orderKey_le_iff : aiAnnotations.orderKey newestRemark b ≤
    aiAnnotations.orderKey newestRemark a ↔ ¬Newer b a := by
  rw [← not_lt, not_iff_not, Newer]
  simp [Table.orderKey, newestRemark, List.cons_lt_cons_iff]

/-- The copies are as they should be. -/
theorem deduplicated (h : Annotations rows) : Deduplicated rows
    ((rows.filter (aiAnnotations.isLatest rows newestRemark)).map
      (aiAnnotations.select annotationItems)) := by
  have hlatest : ∀ a ∈ rows, aiAnnotations.isLatest rows newestRemark a ↔
      ∀ b ∈ rows, SameSubject a b → ¬Newer b a := by
    intro a ha
    rw [h.identified.isLatest_iff ha]
    refine forall₂_congr fun b _ => ?_
    rw [agree_iff_sameSubject (h.ok a ha), orderKey_le_iff]
  refine ⟨fun r => ?_, fun a ha => ?_, ?_⟩
  · constructor
    · intro hr
      obtain ⟨a, ha, rfl⟩ := List.mem_map.mp hr
      obtain ⟨ha, hl⟩ := List.mem_filter.mp ha
      exact ⟨a, ha, (hlatest a ha).mp hl, rfl⟩
    · rintro ⟨a, ha, hl, rfl⟩
      exact List.mem_map_of_mem (List.mem_filter.mpr ⟨ha, (hlatest a ha).mpr hl⟩)
  · obtain ⟨b, hb, hab, hl⟩ := h.identified.exists_latest ha
    have hsame := (agree_iff_sameSubject (h.ok a ha)).mp hab
    refine ⟨_, ⟨List.mem_map_of_mem (List.mem_filter.mpr ⟨hb, hl⟩), ?_, ?_⟩, ?_⟩
    · rw [value_copy (h.ok b hb) (.inr (.inl rfl)), hsame.1]
    · rw [value_copy (h.ok b hb) (.inr (.inr rfl)), hsame.2]
    · rintro _ ⟨hr, hemail, hkind⟩
      obtain ⟨x, hx, rfl⟩ := List.mem_map.mp hr
      obtain ⟨hx, hlx⟩ := List.mem_filter.mp hx
      rw [value_copy (h.ok x hx) (.inr (.inl rfl))] at hemail
      rw [value_copy (h.ok x hx) (.inr (.inr rfl))] at hkind
      have hxb : SameSubject x b := ⟨hsame.1.trans hemail.symm, hsame.2.trans hkind.symm⟩
      rw [h.identified.latest_unique hx hb ((agree_iff_sameSubject (h.ok x hx)).mpr hxb) hlx hl]
  · refine List.pairwise_map.mpr ((h.pairwise_id.filter _).imp_of_mem fun {a b} ha hb hid heq => ?_)
    have hval := congrArg (fun r => attributes.value r "id") heq
    simp only [value_copy (h.ok a (List.mem_filter.mp ha).1) (.inl rfl),
      value_copy (h.ok b (List.mem_filter.mp hb).1) (.inl rfl)] at hval
    exact hid hval

end Annotations

/-- **The deduplicating migration.** It keeps exactly the newest annotation of each email and
kind. -/
theorem AtVersion.deduplicated {db db' : Db} (h : AtVersion 19 db) {io : Io} {u : Unit}
    (htx : migrationTx io 20 emailAttributes db = .ok (u, db')) :
    Deduplicated (annotations db) (attributeRows db') := by
  obtain ⟨-, -, -, d, hbatch, rfl⟩ := migrationTx_eq_ok.mp htx
  simp only [emailAttributes, executeBatch, Tx.bind_eq_ok, runStatement_eq_ok, Tx.pure_eq_ok,
    index, copyAnnotations, exec_createTable, exec_createIndex, exec_insertSelect] at hbatch
  obtain ⟨_, _, ⟨-, -, rfl⟩, _, _, ⟨-, _, -, -, rfl⟩, _, _, ⟨-, _, -, -, rfl⟩, _, _,
    ⟨-, t, u, -, hu, -, rfl⟩, -, rfl⟩ := hbatch
  have hsource : (schemaAt 19).table? "ai_annotations" = some aiAnnotations := by decide +kernel
  have hmem : aiAnnotations ∈ db.schema.tables :=
    (Schema.table?_eq_some (h.schema ▸ hsource)).1
  obtain rfl : u = aiAnnotations := by
    have hlater : ((schemaAt 19).after (.createTable attributes)).table? "ai_annotations" =
      some aiAnnotations := by decide +kernel
    rw [← h.schema] at hlater
    exact Option.some.inj (hu.symm.trans hlater)
  have hrows : ∀ n, n ≠ "email_attributes" → (db.created attributes).rows n = db.rows n :=
    fun n hn => Db.created_rows_of_ne hn
  have hnone : (db.created attributes).rows "email_attributes" = [] := Db.created_rows_self
  have hcopied := (annotations_of_valid h.valid hmem).deduplicated
  simpa [attributeRows, annotations, hnone, hrows] using hcopied

/-! ## Resuming -/

/-- **Migrations are resumable.** A database of an earlier release, at version `k` and with any
data, comes to the schema that a new database has, and to version `N`, unless a statement
fails for a reason of its own. Whatever fails, the database is what the last completed
migration left: its version and schema are those after it. At version `N` nothing changes.
The migration to version 20 keeps exactly the newest annotations. -/
theorem migrations_resumable {db : Db} (h : Produced db) {k N : ℕ} (hk : db.userVersion = k)
    (hkN : k ≤ N) (hN : N ≤ MIGRATIONS.length) :
    ((apply (MIGRATIONS.take N) true (fun _ => .ok) db).1 = .ok () ∧
      (apply (MIGRATIONS.take N) true (fun _ => .ok) db).2.userVersion = N ∧
      (apply (MIGRATIONS.take N) true (fun _ => .ok) db).2.schema =
        (apply (MIGRATIONS.take N) true (fun _ => .ok) Db.empty).2.schema) ∧
    (∀ read io, ∃ j, k ≤ j ∧ j ≤ N ∧
      (apply (MIGRATIONS.take N) read io db).2.userVersion = j ∧
      (apply (MIGRATIONS.take N) read io db).2.schema =
        (apply (MIGRATIONS.take j) true (fun _ => .ok) Db.empty).2.schema ∧
      ((apply (MIGRATIONS.take N) read io db).1 = .ok () → j = N) ∧
      apply (MIGRATIONS.take j) true io db = (.ok (), (apply (MIGRATIONS.take N) read io db).2)) ∧
    (k = N → ∀ read io, (apply (MIGRATIONS.take N) read io db).2 = db ∧
      apply (MIGRATIONS.take N) true io db = (.ok (), db)) ∧
    ∀ (hlt : k < MIGRATIONS.length) (io : Io) (u : Unit) (db' : Db), k = 19 →
      migrationTx io (k + 1) MIGRATIONS[k] db = .ok (u, db') →
        Deduplicated (annotations db) (attributeRows db') := by
  obtain ⟨n, hlen, hat⟩ := h.atVersion
  obtain rfl : n = k := by exact_mod_cast hat.version.symm.trans hk
  -- the schema of a new database at any version
  have hempty : ∀ j ≤ MIGRATIONS.length,
      (apply (MIGRATIONS.take j) true (fun _ => .ok) Db.empty).2.schema = schemaAt j := by
    intro j hj
    rw [apply_eq hj rfl (Nat.zero_le j)]
    obtain ⟨i, -, -, hi, hfin, -⟩ :=
      applyLoop_spec hj atVersion_empty (Nat.zero_le j)
        (rfl : applyLoop (fun _ => .ok) 0 ((MIGRATIONS.take j).drop 0) Db.empty = _)
    rw [hi.schema, hfin (applyLoop_ok hj atVersion_empty (Nat.zero_le j))]
  -- a run with any failures
  have hspec := fun (io : Nat → Io) =>
    applyLoop_spec hN hat hkN (apply_eq hN hk hkN : apply (MIGRATIONS.take N) true io db = _).symm
  refine ⟨?_, ?_, ?_, ?_⟩
  · have hok : (apply (MIGRATIONS.take N) true (fun _ => .ok) db).1 = .ok () := by
      rw [apply_eq hN hk hkN]
      exact applyLoop_ok hN hat hkN
    obtain ⟨j, -, -, hj, hfin, -⟩ := hspec fun _ => .ok
    obtain rfl := hfin hok
    exact ⟨hok, hj.version, by rw [hj.schema, hempty j hN]⟩
  · intro read io
    cases read with
    | false =>
      refine ⟨n, le_rfl, hkN, hk, hat.schema.trans (hempty n hlen).symm, fun hok => (by cases hok), ?_⟩
      rw [apply_eq hlen hk le_rfl]
      exact applyLoop_self
    | true =>
      obtain ⟨j, hnj, hjN, hj, hfin, hsame⟩ := hspec io
      refine ⟨j, hnj, hjN, hj.version, by rw [hj.schema, hempty j (hjN.trans hN)], hfin, ?_⟩
      rw [apply_eq (hjN.trans hN) hk hnj, hsame]
  · rintro rfl read io
    have hself : apply (MIGRATIONS.take n) true io db = (.ok (), db) := by
      rw [apply_eq hN hk le_rfl]
      exact applyLoop_self
    refine ⟨?_, hself⟩
    cases read with
    | false => rfl
    | true => rw [hself]
  · rintro hlt io u db' rfl htx
    exact hat.deduplicated htx

/-- A database at version 19, with two annotations of one email and kind. -/
def annotated : Db :=
  { (apply (MIGRATIONS.take 19) true (fun _ => .ok) Db.empty).2 with
    rows := fun
      | "accounts" => [[.text "a", .text "alice@x", .null, .integer 1, .null]]
      | "threads" => [[.text "t", .text "a", .integer 1, .integer 1]]
      | "emails" => [[.text "e", .text "a", .text "t", .text "b", .null, .null, .null, .integer 5,
          .integer 9, .integer 1, .integer 1, .null, .null, .null, .integer 0, .integer 0]]
      | "ai_annotations" =>
        [[.text "1", .text "a", .text "e", .text "summary", .text "old", .integer 6],
          [.text "2", .text "a", .text "e", .text "summary", .text "new", .integer 7]]
      | _ => [] }

theorem produced_annotated : Produced annotated :=
  .write _ (.apply 19 true (fun _ => .ok) (by decide) .empty) (by decide +kernel)

theorem migrations_resumable_annotated :
    (apply (MIGRATIONS.take 22) true (fun _ => .ok) annotated).2.userVersion = 22 :=
  (migrations_resumable produced_annotated (k := 19) (N := 22) (by decide +kernel) (by decide)
    (by decide)).1.2.1

/-- Of the two annotations the newer one is kept. -/
example : attributeRows (apply MIGRATIONS true (fun _ => .ok) annotated).2 =
    [[.text "2", .text "a", .text "e", .text "summary", .text "new", .null, .integer 7,
      .integer 7]] := by decide +kernel

end Owney.Migrations
