import Owney.BlobFiles

/-!
# Runs of the blob store

What every interleaving of the programs keeps.

* `Guarded` — when a program takes a step: a file is written under the digest of the
  request's content, a row is recorded when the file is there, an email is inserted when the
  row is recorded. `blobHandle_spec` goes through the programs once.
* `BlobInv` — every file holds the content of its name, and every row counts the emails that
  refer to it. `blobInv_step` is the step, `blobInv_past` the run.
-/

namespace Owney.Blobs

open Programs Tables

/-! ## The programs -/

/-- The steps a program made. -/
abbrev BlobCalls : Type := List (Call BlobOp.Ret)

/-- The blob's file was there, or the program wrote it. -/
def FileSeen (cs : BlobCalls) (id : BlobId) : Prop :=
  ⟨.pathExists id, .ok true⟩ ∈ cs ∨ ∃ file, ⟨.writeAtomically id file, .ok ()⟩ ∈ cs

/-- The program recorded the blob. -/
def Recorded (cs : BlobCalls) (id : BlobId) : Prop :=
  ∃ size now, ⟨.recordBlob id size now, .ok ()⟩ ∈ cs

section Guards

variable (C : BlobCrates) (r : BlobRequest)

/-- The blob is that of the request's content. -/
def OfContent (id : BlobId) : Prop := ∃ x, r.content = some x ∧ C.store.crypto.hash x = id

/-- When a program takes a step. -/
def Guarded (cs : BlobCalls) : BlobOp → Prop
  | .writeAtomically id file =>
    ∃ x d, r.content = some x ∧ C.store.crypto.hash x = id ∧ C.store.encode d x = .ok file
  | .recordBlob id _ _ => OfContent C r id ∧ FileSeen cs id
  | .ingest g => OfContent C r g.raw.blobId ∧ Recorded cs g.raw.blobId
  | .removeFile _ => ∃ a ids, ⟨.deleteAccount a, .ok ids⟩ ∈ cs
  | _ => True

/-- What the program read, and what came out of it. -/
def GotFrom (cs : BlobCalls) (id : BlobId) (y : List UInt8) : Prop :=
  ∃ raw, ⟨.read id, .ok raw⟩ ∈ cs ∧ C.store.decode id raw = .ok y

/-- What a program answers. -/
def Answered (cs : BlobCalls) : BlobReply → Prop
  | .stored (.ok id) => OfContent C r id ∧ Recorded cs id
  | .ingested (.ok i) => ∃ g, ⟨.ingest g, .ok i⟩ ∈ cs ∧ OfContent C r g.raw.blobId ∧
    Recorded cs g.raw.blobId
  | .uploaded _ blobId _ _ => ∃ id, blobId = id.toHex ∧ OfContent C r id ∧ Recorded cs id
  | .contents (.ok y) => ∃ id, r = .getBlob id ∧ GotFrom C cs id y
  | .downloaded y => ∃ d a id, r = .download d ∧ pathAccount d.caller d.accountId = .ok a ∧
    BlobId.parse d.blobId.toList = some (.ok id) ∧ GotFrom C cs id y
  | _ => True

end Guards

section Specs

variable {C : BlobCrates} {r : BlobRequest} {cs : BlobCalls} {x : List UInt8}

theorem spec_ask {o : BlobOp} {J : BlobCalls → o.Val → Prop} :
    (ask o).run.Spec (Guarded C r) (Prog.IfOk J) cs ↔
      Guarded C r cs o ∧ ∀ v, J (cs ++ [⟨o, .ok v⟩]) v := by
  refine and_congr Iff.rfl ⟨fun h v => Prog.ifOk_ok.mp (h (.ok v)), ?_⟩
  rintro h (e | v)
  · exact Prog.ifOk_error
  · exact Prog.ifOk_ok.mpr (h v)

theorem spec_lift {α : Type} {J : BlobCalls → α → Prop} {res : Except StorageError α} :
    (lift res).run.Spec (Guarded C r) (Prog.IfOk J) cs ↔ ∀ v, res = .ok v → J cs v := Iff.rfl

theorem spec_return {α : Type} {J : BlobCalls → α → Prop} {v : α} :
    (pure v : BlobProg α).run.Spec (Guarded C r) (Prog.IfOk J) cs ↔ J cs v := Prog.ifOk_ok

/-- A failure that is let go. -/
theorem spec_ignore {p : BlobProg Unit} {J : BlobCalls → Prop}
    (hp : p.run.Spec (Guarded C r) (fun cs' _ => J cs') cs) :
    (ignore p).run.Spec (Guarded C r) (Prog.IfOk fun cs' _ => J cs') cs :=
  Prog.Spec.seq hp fun _ _ h => Prog.ifOk_ok.mpr h

theorem writeNew_spec (hx : r.content = some x) : (writeNew C x).run.Spec (Guarded C r)
    (Prog.IfOk fun cs' _ => FileSeen cs' (C.store.crypto.hash x)) cs := by
  refine Prog.spec_bind_ifOk (J := fun _ _ => True) ?_ fun more draws _ => ?_
  · exact spec_ask.mpr ⟨trivial, fun _ => trivial⟩
  refine Prog.spec_bind_ifOk (J := fun _ file => C.store.encode draws x = .ok file)
    (spec_lift.mpr fun _ h => h) fun more file hfile => ?_
  refine spec_ask.mpr ⟨?_, fun _ => ?_⟩
  · exact ⟨x, draws, hx, rfl, hfile⟩
  · exact .inr ⟨file, by simp⟩

theorem put_spec (hx : r.content = some x) : (put C x).run.Spec (Guarded C r)
    (Prog.IfOk fun cs' id => id = C.store.crypto.hash x ∧ FileSeen cs' id) cs := by
  refine Prog.spec_bind_ifOk (J := fun cs' there => there = true →
    FileSeen cs' (C.store.crypto.hash x)) ?_ fun more there hthere => ?_
  · refine ⟨trivial, ?_⟩
    rintro (e | there)
    · exact Prog.ifOk_error
    · exact Prog.ifOk_ok.mpr fun h => .inl (by simp [h])
  cases there with
  | true => exact spec_return.mpr ⟨rfl, hthere rfl⟩
  | false =>
    refine Prog.spec_bind_ifOk (writeNew_spec hx) fun more _ h => ?_
    exact spec_return.mpr ⟨rfl, h⟩

/-- **A put.** The row is recorded when the file is there. -/
theorem putBlob_spec (hx : r.content = some x) {now : ℤ} : (putBlob C x now).run.Spec (Guarded C r)
    (Prog.IfOk fun cs' id => OfContent C r id ∧ Recorded cs' id) cs := by
  refine Prog.spec_bind_ifOk (put_spec hx) fun more id hput => ?_
  obtain ⟨rfl, hseen⟩ := hput
  have hof : OfContent C r (C.store.crypto.hash x) := ⟨x, hx, rfl⟩
  refine Prog.spec_bind_ifOk (J := fun cs' _ => Recorded cs' (C.store.crypto.hash x)) ?_ ?_
  · exact spec_ask.mpr ⟨⟨hof, hseen⟩, fun _ => ⟨x.length, now, by simp⟩⟩
  · exact fun more _ hrec => spec_return.mpr ⟨hof, hrec⟩

/-- **An ingest.** The email is inserted when the row is recorded. -/
theorem ingestEmailInto_spec {g : IngestRequest} (hx : r.content = some g.raw) :
    (ingestEmailInto C g).run.Spec (Guarded C r) (Prog.IfOk fun cs' i => ∃ g,
      ⟨.ingest g, .ok i⟩ ∈ cs' ∧ OfContent C r g.raw.blobId ∧ Recorded cs' g.raw.blobId) cs := by
  refine Prog.spec_bind_ifOk (putBlob_spec hx) fun more id hput => ?_
  obtain ⟨hof, size, now, hrec⟩ := hput
  refine Prog.spec_bind_ifOk (J := fun cs' i => ⟨.ingest (ingestArgs C g id), .ok i⟩ ∈ cs' ∧
    ⟨.recordBlob id size now, .ok ()⟩ ∈ cs') ?_ fun more i hi => ?_
  · exact spec_ask.mpr ⟨⟨hof, size, now, hrec⟩, fun i => ⟨by simp, List.mem_append_left _ hrec⟩⟩
  refine Prog.spec_bind_ifOk (J := fun cs' _ => ⟨.ingest (ingestArgs C g id), .ok i⟩ ∈ cs' ∧
    ⟨.recordBlob id size now, .ok ()⟩ ∈ cs') ?_ fun more _ h => ?_
  · unfold linkSender
    split
    · exact spec_return.mpr hi
    · exact spec_ignore ⟨trivial, fun _ =>
        ⟨List.mem_append_left _ hi.1, List.mem_append_left _ hi.2⟩⟩
  · exact spec_return.mpr ⟨ingestArgs C g id, h.1, hof, size, now, h.2⟩

theorem removeFiles_spec (ids : List BlobId) (hdel : ∃ a ids, ⟨.deleteAccount a, .ok ids⟩ ∈ cs) :
    (removeFiles ids).run.Spec (Guarded C r) (Prog.IfOk fun _ _ => True) cs := by
  induction ids generalizing cs with
  | nil => exact spec_return.mpr trivial
  | cons id ids ih =>
    refine Prog.spec_bind_ifOk (J := fun cs' _ => ∃ a ids, ⟨.deleteAccount a, .ok ids⟩ ∈ cs') ?_ ?_
    · obtain ⟨a, ids, hmem⟩ := hdel
      exact spec_ignore ⟨⟨a, ids, hmem⟩, fun _ => ⟨a, ids, List.mem_append_left _ hmem⟩⟩
    · exact fun more _ h => ih h

/-- **A delete.** Files are removed when the transaction committed. -/
theorem deleteAccount_spec {a : AccountId} : (deleteAccount a).run.Spec (Guarded C r)
    (Prog.IfOk fun _ _ => True) cs := by
  refine Prog.spec_bind_ifOk (J := fun cs' ids => ⟨.deleteAccount a, .ok ids⟩ ∈ cs') ?_ ?_
  · exact spec_ask.mpr ⟨trivial, fun ids => by simp⟩
  · exact fun more ids h => removeFiles_spec ids ⟨a, ids, h⟩

/-- **A get.** What is got comes out of the bytes that were read. -/
theorem get_spec {id : BlobId} : (get C id).run.Spec (Guarded C r)
    (Prog.IfOk fun cs' y => GotFrom C cs' id y) cs := by
  refine Prog.spec_bind_ifOk (J := fun cs' raw => ⟨.read id, .ok raw⟩ ∈ cs') ?_ ?_
  · exact spec_ask.mpr ⟨trivial, fun raw => by simp⟩
  · exact fun more raw h => spec_lift.mpr fun y hy => ⟨raw, h, hy⟩

end Specs

/-- A refusal. -/
theorem spec_refused (C : BlobCrates) (r : BlobRequest) {cs : BlobCalls} {status : ℕ} :
    (pure (.refused status) : Prog BlobOp.Ret BlobReply).Spec (Guarded C r) (Answered C r) cs :=
  Prog.spec_pure.mpr trivial

theorem upload_spec (C : BlobCrates) (u : UploadRequest) :
    (upload C u).Spec (Guarded C (.upload u)) (Answered C (.upload u)) [] := by
  unfold upload
  rcases pathAccount u.caller u.accountId with status | account
  · exact spec_refused C _
  refine Prog.spec_ite.mpr ⟨fun _ => spec_refused C _, fun _ => ?_⟩
  refine Prog.Spec.seq (putBlob_spec rfl) fun more res h => ?_
  rcases res with e | id
  · exact spec_refused C _
  · exact Prog.spec_pure.mpr ⟨id, rfl, h id rfl⟩

theorem download_spec (C : BlobCrates) (d : DownloadRequest) :
    (download C d).Spec (Guarded C (.download d)) (Answered C (.download d)) [] := by
  unfold download
  rcases haccount : pathAccount d.caller d.accountId with status | account
  · exact spec_refused C _
  rcases hid : BlobId.parse d.blobId.toList with _ | e | id
  · exact Prog.spec_pure.mpr trivial
  · exact spec_refused C _
  refine Prog.Spec.seq get_spec fun more res h => ?_
  rcases res with e | y
  · cases e <;> exact spec_refused C _
  · exact Prog.spec_pure.mpr ⟨d, account, id, rfl, haccount, hid, h y rfl⟩

/-- The programs meet their specification. -/
theorem blobHandle_spec (C : BlobCrates) (r : BlobRequest) :
    (blobHandle C r).Spec (Guarded C r) (Answered C r) [] := by
  cases r with
  | putBlob plaintext now =>
    refine Prog.Spec.seq (putBlob_spec rfl) fun more res h => ?_
    rcases res with e | id
    · exact Prog.spec_pure.mpr trivial
    · exact Prog.spec_pure.mpr (h id rfl)
  | getBlob id =>
    refine Prog.Spec.seq get_spec fun more res h => ?_
    rcases res with e | y
    · exact Prog.spec_pure.mpr trivial
    · exact Prog.spec_pure.mpr ⟨id, rfl, h y rfl⟩
  | ingest g =>
    refine Prog.Spec.seq (ingestEmailInto_spec rfl) fun more res h => ?_
    rcases res with e | i
    · exact Prog.spec_pure.mpr trivial
    · exact Prog.spec_pure.mpr (h i rfl)
  | deleteAccount a =>
    refine Prog.Spec.seq deleteAccount_spec fun more res h => ?_
    exact Prog.spec_pure.mpr trivial
  | upload u => exact upload_spec C u
  | download d => exact download_spec C d
  | mail op => exact ⟨trivial, fun _ => trivial⟩

/-! ## The steps -/

/-- The blobs the emails refer to, one for each email. -/
def refs (db : MailDb) : List BlobId := db.emails.map (·.blobId)

/-- The blobs that have a row. -/
def rowIds (db : MailDb) : List BlobId := db.blobs.map (·.id)

/-- The step leaves the files, the rows and the references as they are. -/
structure Untouched (w w' : BlobWorld) : Prop where
  files : w'.files = w.files
  blobs : w'.db.blobs = w.db.blobs
  refs : refs w'.db = refs w.db

section Steps

variable {U : Unicode} {w : BlobWorld} {db db' : MailDb}

/-- An update of other columns. -/
theorem refs_update {p : EmailsRow → Bool} {f : EmailsRow → EmailsRow}
    (hf : ∀ r, (f r).blobId = r.blobId) (rows : List EmailsRow) :
    (update p f rows).map (·.blobId) = rows.map (·.blobId) := map_update _ hf rows

/-- The other calls on the mail tables. -/
theorem mailStep_other (op : OtherMailOp) : (mailStep U db op.1).blobs = db.blobs ∧
    refs (mailStep U db op.1) = refs db := by
  obtain ⟨op, hput, hingest⟩ := op
  rcases mailStep_spec U db op with hsame | heffect
  · rw [hsame]
    exact ⟨rfl, rfl⟩
  generalize mailStep U db op = db' at heffect
  cases heffect with
  | createAccount | linkContact => exact ⟨rfl, rfl⟩
  | putBlob => exact absurd rfl (hput _ _ _ _)
  | ingest => exact absurd rfl (hingest _ _)
  | @updateEmail io a e keywords mailboxIds =>
    refine ⟨?_, ?_⟩
    · cases keywords <;> cases mailboxIds <;> rfl
    · refine (refs_update (by intro r; rfl) _).trans ?_
      simp [refs]
  | setEmailAttribute => exact ⟨rfl, refs_update (by intro r; rfl) _⟩
  | dismissEmailAttribute => exact ⟨rfl, refs_update (by intro r; rfl) _⟩
  | setPgpStatus => exact ⟨rfl, refs_update (by intro r; rfl) _⟩
  | setSpamVerdict => exact ⟨rfl, refs_update (by intro r; rfl) _⟩
  | markIndexed => exact ⟨rfl, refs_update (by intro r; rfl) _⟩

/-- The ingest transaction adds an email, and counts it. -/
theorem ingestTx_refs {io : Io} {g : IngestArgs} {i : Ingested}
    (h : ingestTx io g db = .ok (i, db')) : refs db' = refs db ++ [g.raw.blobId] ∧
      db'.blobs = update (fun b => b.id = g.raw.blobId)
        (fun b => { b with refcount := b.refcount + 1 }) db.blobs := by
  cases ingestTx_ok (U := .ascii) h with
  | @ingest _ _ mailboxId =>
    refine ⟨by simp [refs, MailDb.ingested, MailDb.linkBlob, MailDb.newEmail, IngestArgs.row], ?_⟩
    rw [MailDb.ingested]
    cases db.joinedThread g <;> rfl

/-- A call on the database either fails without effect or its body succeeded. -/
theorem call_cases {α : Type} (w : BlobWorld) (body : Tx MailDb α) :
    (∃ e, w.call body = (.error e, w)) ∨
      ∃ v db', body w.db = .ok (v, db') ∧ w.call body = (.ok v, { w with db := db' }) := by
  rcases transaction_cases body w.db with ⟨e, h⟩ | ⟨v, db', hbody, h⟩
  · exact .inl ⟨e, by rw [BlobWorld.call, h]⟩
  · exact .inr ⟨v, db', hbody, by rw [BlobWorld.call, h]⟩

/-- **One step.** What it can do to the files, the rows and the references. -/
theorem exec_cases (U : Unicode) (c : BlobChoice) (o : BlobOp) (w : BlobWorld) :
    Untouched w (w.exec U c o).2 ∨
    (∃ id file, o = .writeAtomically id file ∧ (w.exec U c o).2 = w.writeFile id file) ∨
    (∃ id size now, o = .recordBlob id size now ∧ id ∉ rowIds w.db ∧ (w.exec U c o).2 =
      { w with db := { w.db with blobs := w.db.blobs ++ [⟨id, size, 0, now⟩] } }) ∨
    (∃ g, o = .ingest g ∧ (w.exec U c o).2.files = w.files ∧
      refs (w.exec U c o).2.db = refs w.db ++ [g.raw.blobId] ∧
      (w.exec U c o).2.db.blobs = update (fun b => b.id = g.raw.blobId)
        (fun b => { b with refcount := b.refcount + 1 }) w.db.blobs) ∨
    ∃ id, o = .removeFile id := by
  cases o with
  | pathExists id => exact .inl ⟨rfl, rfl, rfl⟩
  | random => exact .inl ⟨rfl, rfl, rfl⟩
  | writeAtomically id file =>
    simp only [BlobWorld.exec]
    cases c.outcome with
    | renamed => exact .inr (.inl ⟨id, file, rfl, rfl⟩)
    | kept => exact .inl ⟨rfl, rfl, rfl⟩
    | failed e => exact .inl ⟨rfl, rfl, rfl⟩
  | read id =>
    simp only [BlobWorld.exec]
    cases w.file id with
    | none => exact .inl ⟨rfl, rfl, rfl⟩
    | some raw => exact .inl ⟨rfl, rfl, rfl⟩
  | recordBlob id size now =>
    rcases call_cases w (putBlobTx c.io id size now) with ⟨e, h⟩ | ⟨v, db', hbody, h⟩
    · simp only [BlobWorld.exec, h]
      exact .inl ⟨rfl, rfl, rfl⟩
    · simp only [BlobWorld.exec, h]
      rw [putBlobTx, Tx.exec_eq_ok] at hbody
      obtain ⟨-, rfl⟩ := hbody
      by_cases hany : w.db.blobs.any (·.id = id)
      · rw [if_pos hany]
        exact .inl ⟨rfl, rfl, rfl⟩
      · rw [if_neg hany]
        refine .inr (.inr (.inl ⟨id, size, now, rfl, ?_, rfl⟩))
        simpa [rowIds] using hany
  | ingest g =>
    rcases call_cases w (ingestTx c.io g) with ⟨e, h⟩ | ⟨v, db', hbody, h⟩
    · simp only [BlobWorld.exec, h]
      exact .inl ⟨rfl, rfl, rfl⟩
    · rw [show w.exec U c (.ingest g) = (.ok v, { w with db := db' }) from h]
      exact .inr (.inr (.inr (.inl ⟨g, rfl, rfl, ingestTx_refs hbody⟩)))
  | linkContact a fromAddr id now =>
    let op : OtherMailOp :=
      ⟨.linkContact c.io a fromAddr id now, (by rintro _ _ _ _ ⟨⟩), (by rintro _ _ ⟨⟩)⟩
    exact .inl ⟨rfl, (mailStep_other op).1, (mailStep_other op).2⟩
  | deleteAccount a =>
    rcases call_cases w (deleteAccountTx c.io a) with ⟨e, h⟩ | ⟨ids, db', hbody, h⟩
    · simp only [BlobWorld.exec, h]
      exact .inl ⟨rfl, rfl, rfl⟩
    · exact absurd hbody deleteAccountTx_ne_ok
  | removeFile id => exact .inr (.inr (.inr (.inr ⟨id, rfl⟩)))
  | mail op => exact .inl ⟨rfl, (mailStep_other op).1, (mailStep_other op).2⟩

end Steps

/-! ### Files -/

section Files

variable {w w' : BlobWorld} {id id' : BlobId} {file : List UInt8}

theorem file_congr (h : w'.files = w.files) (id : BlobId) : w'.file id = w.file id := by
  rw [BlobWorld.file, h]
  rfl

@[simp] theorem file_writeFile_self : (w.writeFile id file).file id = some file := by
  rw [BlobWorld.file, BlobWorld.writeFile, find?_upsert_self (by intro r; rfl) (by simp)]
  cases w.files.find? fun f => f.1 = pathFor id <;> rfl

theorem file_writeFile_of_ne (h : id' ≠ id) : (w.writeFile id file).file id' = w.file id' := by
  have hne : pathFor id ≠ pathFor id' := fun heq => h (pathFor_injective heq).symm
  rw [BlobWorld.file, BlobWorld.writeFile, find?_upsert_of_disjoint (by intro r; rfl)]
  · rfl
  · intro r hr
    simp only [decide_eq_true_eq] at hr
    simp [hr, hne]
  · simp [hne]

end Files

/-! ## The invariant -/

/-- A step that was taken. -/
abbrev BlobEvent : Type := Event BlobOp.Ret BlobRequest BlobChoice BlobWorld

/-- The past of the installation. -/
abbrev BlobPast (C : BlobCrates) : List BlobEvent → BlobWorld → Prop :=
  Past (fun o c w => some (w.exec C.unicode c o)) (Guarded C) ⟨[], MailDb.empty⟩

/-- What was the case when a step was taken. -/
abbrev BlobAt (C : BlobCrates) : List BlobEvent → BlobEvent → Prop :=
  Past.At (fun o c w => some (w.exec C.unicode c o)) (Guarded C) ⟨[], MailDb.empty⟩

/-- **The invariant.** The contents are among `K`. -/
structure BlobInv (C : BlobCrates) (K : Set (List UInt8)) (past : List BlobEvent)
    (w : BlobWorld) : Prop where
  /-- a file holds the content of its name -/
  files : ∀ id raw, w.file id = some raw →
    ∃ x ∈ K, C.store.crypto.hash x = id ∧ C.store.decode id raw = .ok x
  nodup : (rowIds w.db).Nodup
  /-- a row counts the emails that refer to it -/
  counts : ∀ b ∈ w.db.blobs, b.refcount = (refs w.db).count b.id
  linked : ∀ id ∈ refs w.db, id ∈ rowIds w.db
  rows : ∀ id ∈ rowIds w.db, (w.file id).isSome
  seen : ∀ e ∈ past, ∀ id, FileSeen [e.call] id → (w.file id).isSome
  recorded : ∀ e ∈ past, ∀ id, Recorded [e.call] id → id ∈ rowIds w.db

section Invariant

variable {C : BlobCrates} {K : Set (List UInt8)} {past : List BlobEvent} {e : BlobEvent}
  {w : BlobWorld} {id : BlobId}

theorem FileSeen.exists_call {cs : BlobCalls} (h : FileSeen cs id) :
    ∃ c ∈ cs, FileSeen [c] id := by
  rcases h with h | ⟨file, h⟩
  · exact ⟨_, h, .inl (List.mem_singleton_self _)⟩
  · exact ⟨_, h, .inr ⟨file, List.mem_singleton_self _⟩⟩

theorem Recorded.exists_call {cs : BlobCalls} (h : Recorded cs id) : ∃ c ∈ cs, Recorded [c] id := by
  obtain ⟨size, now, h⟩ := h
  exact ⟨_, h, size, now, List.mem_singleton_self _⟩

theorem at_eq (hat : BlobAt C past e) :
    e.before.exec C.unicode e.choice e.call.op = (e.call.res, e.after) :=
  Option.some.inj hat.possible

/-- What a step returned, when the step is known. -/
theorem at_call (hat : BlobAt C past e) {o : BlobOp} {res : o.Ret} (hcall : e.call = ⟨o, res⟩) :
    e.before.exec C.unicode e.choice o = (res, e.after) := by
  have heq := at_eq hat
  rw [hcall] at heq
  exact heq

/-- No step removes a file: no account was deleted. -/
theorem op_ne_removeFile (hat : BlobAt C past e) : e.call.op ≠ .removeFile id := by
  intro hop
  have hguard := hat.guard
  rw [hop] at hguard
  obtain ⟨a, ids, hdel⟩ := hguard
  obtain ⟨e', he', -, -, hcall⟩ := hat.earlier_call hdel
  obtain ⟨pre, post, -, hat'⟩ := hat.earlier.exists_at he'
  have heq := at_call hat' hcall
  rcases call_cases e'.before (deleteAccountTx e'.choice.io a) with ⟨err, h⟩ | ⟨v, db', hbody, h⟩
  · have hres := congrArg Prod.fst (h.symm.trans heq)
    cases hres
  · exact deleteAccountTx_ne_ok hbody

/-- What is there stays. -/
theorem at_mono (hat : BlobAt C past e) :
    (∀ id, (e.before.file id).isSome → (e.after.file id).isSome) ∧
      ∀ id ∈ rowIds e.before.db, id ∈ rowIds e.after.db := by
  have hafter : (e.before.exec C.unicode e.choice e.call.op).2 = e.after := by rw [at_eq hat]
  rcases exec_cases C.unicode e.choice e.call.op e.before with
    ⟨hfiles, hblobs, -⟩ | ⟨id', file, -, hw⟩ | ⟨id', size, now, -, -, hw⟩ |
      ⟨g, -, hfiles, -, hblobs⟩ | ⟨id', hop⟩
  · rw [hafter] at hfiles hblobs
    refine ⟨fun id h => by rwa [file_congr hfiles], fun id h => ?_⟩
    rwa [rowIds, hblobs]
  · rw [hafter] at hw
    rw [hw]
    refine ⟨fun id h => ?_, fun id h => h⟩
    by_cases hid : id = id'
    · rw [hid, file_writeFile_self]
      rfl
    · rwa [file_writeFile_of_ne hid]
  · rw [hafter] at hw
    rw [hw]
    refine ⟨fun id h => h, fun id h => ?_⟩
    rw [rowIds, List.map_append]
    exact List.mem_append_left _ h
  · rw [hafter] at hfiles hblobs
    refine ⟨fun id h => by rwa [file_congr hfiles], fun id h => ?_⟩
    rw [rowIds, hblobs, map_update _ (by intro r; rfl)]
    exact h
  · exact absurd hop (op_ne_removeFile hat)

/-- A file that was seen is there. -/
theorem at_seen (hat : BlobAt C past e) (h : FileSeen [e.call] id) : (e.after.file id).isSome := by
  rcases h with h | ⟨file, h⟩
  · have heq := at_call hat (List.mem_singleton.mp h).symm
    obtain ⟨hres, hw⟩ := Prod.mk.inj heq
    have hthere := Except.ok.inj hres
    rw [← hw]
    exact (Bool.and_eq_true_iff.mp hthere).2
  · have heq := at_call hat (List.mem_singleton.mp h).symm
    simp only [BlobWorld.exec] at heq
    cases hout : e.choice.outcome with
    | renamed =>
      rw [hout] at heq
      rw [← (Prod.mk.inj heq).2, file_writeFile_self]
      rfl
    | kept =>
      rw [hout] at heq
      obtain ⟨hres, hw⟩ := Prod.mk.inj heq
      rw [← hw]
      by_contra hnone
      rw [if_neg hnone] at hres
      cases hres
    | failed err =>
      rw [hout] at heq
      cases (Prod.mk.inj heq).1

/-- A row that was recorded is there. -/
theorem at_recorded (hat : BlobAt C past e) (h : Recorded [e.call] id) :
    id ∈ rowIds e.after.db := by
  obtain ⟨size, now, h⟩ := h
  have heq := at_call hat (List.mem_singleton.mp h).symm
  rcases call_cases e.before (putBlobTx e.choice.io id size now) with
    ⟨err, hc⟩ | ⟨v, db', hbody, hc⟩
  · cases (Prod.mk.inj (hc.symm.trans heq)).1
  · rw [← (Prod.mk.inj (hc.symm.trans heq)).2]
    rw [putBlobTx, Tx.exec_eq_ok] at hbody
    obtain ⟨-, rfl⟩ := hbody
    split
    · rename_i hany
      simpa [rowIds] using hany
    · simp [rowIds]

/-- **One step.** -/
theorem blobInv_step (hP : C.store.crypto.Correct) (hat : BlobAt C past e)
    (hK : ∀ x, e.req.content = some x → x ∈ K) (h : BlobInv C K past e.before) :
    BlobInv C K (past ++ [e]) e.after := by
  obtain ⟨hmonoFile, hmonoRow⟩ := at_mono hat
  -- what was seen and recorded, and what this step saw or recorded
  have hseen : ∀ e' ∈ past ++ [e], ∀ id, FileSeen [e'.call] id → (e.after.file id).isSome := by
    intro e' he' id hs
    rcases List.mem_append.mp he' with he' | he'
    · exact hmonoFile id (h.seen e' he' id hs)
    · obtain rfl := List.mem_singleton.mp he'
      exact at_seen hat hs
  have hrecorded : ∀ e' ∈ past ++ [e], ∀ id, Recorded [e'.call] id → id ∈ rowIds e.after.db := by
    intro e' he' id hr
    rcases List.mem_append.mp he' with he' | he'
    · exact hmonoRow id (h.recorded e' he' id hr)
    · obtain rfl := List.mem_singleton.mp he'
      exact at_recorded hat hr
  have hguard := hat.guard
  have hafter : (e.before.exec C.unicode e.choice e.call.op).2 = e.after := by rw [at_eq hat]
  rcases exec_cases C.unicode e.choice e.call.op e.before with
    ⟨hfiles, hblobs, hrefs⟩ | ⟨id, file, hop, hw⟩ | ⟨id, size, now, hop, hnew, hw⟩ |
      ⟨g, hop, hfiles, hrefs, hblobs⟩ | ⟨id, hop⟩
  · rw [hafter] at hfiles hblobs hrefs
    have hrows : rowIds e.after.db = rowIds e.before.db := by rw [rowIds, hblobs]; rfl
    refine ⟨?_, hrows ▸ h.nodup, ?_, ?_, ?_, hseen, hrecorded⟩
    · intro id raw hraw
      exact h.files id raw (by rwa [file_congr hfiles] at hraw)
    · rw [hblobs, hrefs]
      exact h.counts
    · rw [hrefs, hrows]
      exact h.linked
    · intro id hid
      rw [file_congr hfiles]
      exact h.rows id (hrows ▸ hid)
  · -- a file is written under the digest of the request's content
    rw [hafter] at hw
    rw [hop] at hguard
    obtain ⟨x, d, hx, rfl, hfile⟩ := hguard
    rw [hw] at hseen hrecorded ⊢
    refine ⟨?_, h.nodup, h.counts, h.linked, ?_, hseen, hrecorded⟩
    · intro id raw hraw
      by_cases hid : id = C.store.crypto.hash x
      · rw [hid, file_writeFile_self] at hraw
        obtain rfl := Option.some.inj hraw
        exact ⟨x, hK x hx, hid.symm, hid ▸ BlobStore.decode_encode hP hfile⟩
      · rw [file_writeFile_of_ne hid] at hraw
        exact h.files id raw hraw
    · exact fun id hid => hw ▸ hmonoFile id (h.rows id hid)
  · -- a row is recorded; no email refers to it yet
    rw [hafter] at hw
    rw [hop] at hguard
    obtain ⟨-, hfile⟩ := hguard
    obtain ⟨c, hc, hfile⟩ := hfile.exists_call
    obtain ⟨e', he', -, -, rfl⟩ := hat.earlier_call hc
    rw [hw] at hseen hrecorded ⊢
    refine ⟨h.files, ?_, ?_, ?_, ?_, hseen, hrecorded⟩
    · exact nodup_map_insert h.nodup hnew
    · intro b hb
      rcases List.mem_append.mp hb with hb | hb
      · exact h.counts b hb
      · obtain rfl := List.mem_singleton.mp hb
        have hzero : (refs e.before.db).count id = 0 :=
          List.count_eq_zero.mpr fun hmem => hnew (h.linked id hmem)
        exact (congrArg Nat.cast hzero).symm
    · intro id' hid'
      rw [rowIds, List.map_append]
      exact List.mem_append_left _ (h.linked id' hid')
    · intro id' hid'
      rw [rowIds, List.map_append, List.mem_append] at hid'
      rcases hid' with hid' | hid'
      · exact h.rows id' hid'
      · obtain rfl := List.mem_singleton.mp hid'
        exact h.seen e' he' _ hfile
  · -- an email is inserted, and its blob's row counts it
    rw [hafter] at hfiles hrefs hblobs
    rw [hop] at hguard
    obtain ⟨-, hrec⟩ := hguard
    obtain ⟨c, hc, hrec⟩ := hrec.exists_call
    obtain ⟨e', he', -, -, rfl⟩ := hat.earlier_call hc
    have hrow : g.raw.blobId ∈ rowIds e.before.db := h.recorded e' he' _ hrec
    have hrows : rowIds e.after.db = rowIds e.before.db := by
      rw [rowIds, hblobs, map_update _ (by intro r; rfl)]
      rfl
    refine ⟨?_, hrows ▸ h.nodup, ?_, ?_, ?_, hseen, hrecorded⟩
    · intro id raw hraw
      exact h.files id raw (by rwa [file_congr hfiles] at hraw)
    · intro b hb
      rw [hblobs] at hb
      obtain ⟨b₀, hb₀, rfl⟩ := mem_update.mp hb
      rw [hrefs, List.count_append, List.count_singleton]
      by_cases hid : b₀.id = g.raw.blobId
      · simp [hid, h.counts b₀ hb₀]
      · simp [hid, Ne.symm hid, h.counts b₀ hb₀]
    · intro id hid
      rw [hrows]
      rw [hrefs] at hid
      rcases List.mem_append.mp hid with hid | hid
      · exact h.linked id hid
      · obtain rfl := List.mem_singleton.mp hid
        exact hrow
    · intro id hid
      rw [file_congr hfiles]
      exact h.rows id (hrows ▸ hid)
  · exact absurd hop (op_ne_removeFile hat)

/-- **Every past.** -/
theorem blobInv_past (hP : C.store.crypto.Correct) (h : BlobPast C past w)
    (hK : ∀ e ∈ past, ∀ x, e.req.content = some x → x ∈ K) : BlobInv C K past w := by
  revert hK
  refine h.invariant (I := fun past w =>
    (∀ e ∈ past, ∀ x, e.req.content = some x → x ∈ K) → BlobInv C K past w) ?_ ?_
  · intro _
    refine ⟨?_, List.nodup_nil, ?_, ?_, ?_, ?_, ?_⟩
    · exact fun id raw hraw => (by cases hraw)
    · exact fun b hb => absurd hb List.not_mem_nil
    · exact fun id hid => absurd hid List.not_mem_nil
    · exact fun id hid => absurd hid List.not_mem_nil
    · exact fun e he => absurd he List.not_mem_nil
    · exact fun e he => absurd he List.not_mem_nil
  · intro past e hat _ ih hK
    exact blobInv_step hP hat (hK e (by simp)) (ih fun e' he' => hK e' (by simp [he']))

end Invariant

end Owney.Blobs
