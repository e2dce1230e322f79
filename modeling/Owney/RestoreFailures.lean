import Mathlib.Data.List.Basic
import Mathlib.Logic.Function.Basic

/-!
# Restores that fail

`restore_backup` unpacks an archive into a temporary directory, and then writes to the target
one thing after the other: the blobs, the database. Only then it looks at the master key.

* `restoreBackup` — with the target directory, and what the file system does at each step.
* `failed_restore` — what the target has after an error, by the step that failed.
* `not_untouched_otherKey` — an archive of another master key is restored, and refused.
-/

namespace Owney.Backup

/-! ## Files -/

/-- `BackupManifest`. -/
structure BackupManifest where
  version : String
  createdAt : String
  masterKeyHash : String
  uncompressedSize : ℕ
  archiveHash : String
  deriving DecidableEq, Repr

/-- `BackupError`. -/
inductive BackupError where
  | io (text : String)
  | serialization (text : String)
  | other (text : String)
  deriving DecidableEq, Repr

/-- The files of a directory, by their paths in it. -/
abbrev Files : Type := String → Option (List UInt8)

/-- The target: `blobs`, `mail.db` and `master.key`. -/
structure DataDir (Db : Type) where
  blobs : Files
  database : Option Db
  masterKey : Option (List UInt8)

/-- How the extraction of one file goes. -/
inductive Extracted where
  | done
  /-- what was there is left -/
  | kept
  /-- what was there is removed, and nothing written -/
  | removed
  /-- the write ends after so many bytes -/
  | cut (bytes : ℕ)

/-- The files of a tar, extracted one after the other from the `i`th on, until one fails. -/
def extractEach (goes : ℕ → Extracted) : ℕ → List (String × List UInt8) → Files → Bool × Files
  | _, [], files => (true, files)
  | i, (path, content) :: entries, files =>
    match goes i with
    | .done => extractEach goes (i + 1) entries (Function.update files path (some content))
    | .kept => (false, files)
    | .removed => (false, Function.update files path none)
    | .cut bytes => (false, Function.update files path (some (content.take bytes)))

/-- What a restore takes from `tar`, `zstd`, `serde_json`, `blake3` and SQLite. `Fs` is what the
file system makes of an unpacking. -/
structure RestoreCrates (Db Fs : Type) where
  /-- the files of an archive, unpacked into a directory of its own -/
  unpackArchive : List UInt8 → Option Files
  /-- `Archive::unpack` into the blobs of the directory, and whether it succeeds -/
  unpack : Fs → List UInt8 → DataDir Db → Bool × DataDir Db
  /-- a tar of files and directories, without links -/
  linkless : List UInt8 → Bool
  /-- the files of a tar that stay below the target, in order and up to where it is damaged, and
  whether it is not -/
  tarEntries : List UInt8 → List (String × List UInt8) × Bool
  /-- without links, each file in turn goes to the path it names in the blobs -/
  unpack_linkless : ∀ fs tar dir, linkless tar = true → ∃ goes : ℕ → Extracted,
    (unpack fs tar dir).2 =
        { dir with blobs := (extractEach goes 0 (tarEntries tar).1 dir.blobs).2 } ∧
      ((unpack fs tar dir).1 = true →
        (extractEach goes 0 (tarEntries tar).1 dir.blobs).1 = true ∧ (tarEntries tar).2 = true)
  /-- text in UTF-8 -/
  utf8 : List UInt8 → Option String
  manifestOf : String → Option BackupManifest
  blake3 : List UInt8 → String
  newDatabase : Db
  /-- `execute_batch` on the database of the directory, and whether it succeeds -/
  executeBatch : String → DataDir Db → Bool × DataDir Db
  /-- a script that attaches or writes other files than its database -/
  namesFiles : String → Bool
  /-- any other script writes its database only -/
  executeBatch_confined : ∀ sql dir, namesFiles sql = false →
    (executeBatch sql dir).2 = { dir with database := (executeBatch sql dir).2.database }

/-- What the file system does. -/
structure RestoreIo (Fs : Type) where
  unpacking : Fs
  tempDir : Except String Unit := .ok ()
  decompresses : Bool := true
  readsManifest : Bool := true
  opensTar : Bool := true
  opensDatabase : Bool := true
  readsSchema : Bool := true
  readsKey : Bool := true
  rereadsArchive : Bool := true

section Restore

variable {Db Fs : Type} (C : RestoreCrates Db Fs) (io : RestoreIo Fs)

/-! ## The restore -/

/-- The file, if it can be read. -/
def readFile {α : Type} (reads : Bool) (decode : List UInt8 → Option α) (bytes : List UInt8) :
    Option α :=
  if reads then decode bytes else none

/-- The part of `restore_backup` before anything is written: the unpacked files with the
manifest. -/
def loadArchive (archivePath : String) (archive : Option (List UInt8)) :
    Except BackupError (Files × BackupManifest) :=
  match archive with
  | none => .error (.other ("backup archive not found: " ++ archivePath))
  | some bytes =>
    match io.tempDir with
    | .error e => .error (.other ("creating temp dir: " ++ e))
    | .ok _ =>
      match readFile io.decompresses C.unpackArchive bytes with
      | none => .error (.other "decompressing backup")
      | some temp =>
        match temp "manifest.json" with
        | none => .error (.other "backup archive missing manifest.json")
        | some manifestJson =>
          match readFile io.readsManifest C.utf8 manifestJson with
          | none => .error (.other "reading manifest.json")
          | some text =>
            match C.manifestOf text with
            | none => .error (.other "parsing manifest.json")
            | some manifest => .ok (temp, manifest)

/-- `extract_blobs`. -/
def extractBlobs (tar : List UInt8) (dir : DataDir Db) : Bool × DataDir Db :=
  if io.opensTar then C.unpack io.unpacking tar dir else (false, dir)

/-- `restore_database`; opening it makes a new database if there is none. -/
def restoreDatabaseInto (schema : List UInt8) (dir : DataDir Db) : Bool × DataDir Db :=
  if io.opensDatabase then
    let dir := { dir with database := some (dir.database.getD C.newDatabase) }
    match readFile io.readsSchema C.utf8 schema with
    | none => (false, dir)
    | some sql => C.executeBatch sql dir
  else (false, dir)

/-- The blobs of the unpacked archive, if it has any. -/
def extractStep (temp : Files) (dir : DataDir Db) : Bool × DataDir Db :=
  match temp "blobs.tar" with
  | none => (true, dir)
  | some tar => extractBlobs C io tar dir

/-- The database of the unpacked archive, if it has one. -/
def databaseStep (temp : Files) (dir : DataDir Db) : Bool × DataDir Db :=
  match temp "schema.sql" with
  | none => (true, dir)
  | some schema => restoreDatabaseInto C io schema dir

/-- The check of the master key, if there is one. -/
def checkMasterKey (manifest : BackupManifest) (dir : DataDir Db) : Except BackupError Unit :=
  match dir.masterKey with
  | none => .ok ()
  | some key =>
    if ¬io.readsKey then .error (.other "reading master key")
    else if C.blake3 key ≠ manifest.masterKeyHash then
      .error (.other "master key has changed; restore may be incomplete")
    else .ok ()

/-- The part of `restore_backup` from the first write on. -/
def restoreUnpacked (archive : List UInt8) (temp : Files) (manifest : BackupManifest)
    (dir : DataDir Db) : Except BackupError BackupManifest × DataDir Db :=
  match extractStep C io temp dir with
  | (false, dir) => (.error (.other "extracting blobs"), dir)
  | (true, dir) =>
    match databaseStep C io temp dir with
    | (false, dir) => (.error (.other "restoring database"), dir)
    | (true, dir) =>
      match checkMasterKey C io manifest dir with
      | .error e => (.error e, dir)
      | .ok _ =>
        if io.rereadsArchive then (.ok { manifest with archiveHash := C.blake3 archive }, dir)
        else (.error (.other "reading archive"), dir)

/-- `restore_backup`. -/
def restoreBackup (archivePath : String) (archive : Option (List UInt8)) (dir : DataDir Db) :
    Except BackupError BackupManifest × DataDir Db :=
  match loadArchive C io archivePath archive with
  | .error e => (.error e, dir)
  | .ok (temp, manifest) => restoreUnpacked C io (archive.getD []) temp manifest dir

/-! ## What an error leaves behind -/

/-- The blobs that the unpacked archive has. -/
def blobEntries (temp : Files) : List (String × List UInt8) :=
  (temp "blobs.tar").elim [] fun tar => (C.tarEntries tar).1

/-- The files once these are written. -/
def written (entries : List (String × List UInt8)) (files : Files) : Files :=
  entries.foldl (fun files entry => Function.update files entry.1 (some entry.2)) files

/-- The unpacked archive stays where it belongs: its blobs are no links, and its script writes its
database only. -/
structure Confined (temp : Files) : Prop where
  blobs : ∀ tar, temp "blobs.tar" = some tar → C.linkless tar = true
  script : ∀ schema sql, temp "schema.sql" = some schema → C.utf8 schema = some sql →
    C.namesFiles sql = false

/-- **What the target has** after an error, once the archive was unpacked. -/
structure LeftBehind (temp : Files) (dir dir' : DataDir Db) (e : BackupError) : Prop where
  masterKey : Confined C temp → dir'.masterKey = dir.masterKey
  /-- a blob is as it was, or of those in the archive: then it is gone, or has the beginning of
  what the archive has for it -/
  blobs : Confined C temp → ∀ path, dir'.blobs path = dir.blobs path ∨
    ∃ content, (path, content) ∈ blobEntries C temp ∧
      (dir'.blobs path = none ∨ ∃ n, dir'.blobs path = some (content.take n))
  /-- an error at the blobs -/
  database : e = .other "extracting blobs" → Confined C temp → dir'.database = dir.database
  /-- an error after the blobs -/
  extracted : e ≠ .other "extracting blobs" → Confined C temp →
    dir'.blobs = written (blobEntries C temp) dir.blobs
  /-- an error after the database -/
  finished : e ≠ .other "extracting blobs" → e ≠ .other "restoring database" →
    ∃ dir₁, extractStep C io temp dir = (true, dir₁) ∧ databaseStep C io temp dir₁ = (true, dir')

variable {C io} {temp : Files} {dir dir' : DataDir Db} {e : BackupError}

/-! ### The blobs -/

/-- Each file is as it was, or one of the entries: then it is gone, or begins as the entry says. -/
theorem extractEach_file (goes : ℕ → Extracted) (i : ℕ) (entries : List (String × List UInt8))
    (files : Files) (path : String) :
    (extractEach goes i entries files).2 path = files path ∨
      ∃ content, (path, content) ∈ entries ∧ ((extractEach goes i entries files).2 path = none ∨
        ∃ n, (extractEach goes i entries files).2 path = some (content.take n)) := by
  induction entries generalizing i files with
  | nil => exact .inl rfl
  | cons entry entries ih =>
    obtain ⟨name, content⟩ := entry
    rw [extractEach]
    split
    · rcases ih (i + 1) (Function.update files name (some content)) with hsame | hentry
      · rw [hsame]
        by_cases hpath : path = name
        · subst hpath
          refine .inr ⟨content, List.mem_cons_self, .inr ⟨content.length, ?_⟩⟩
          rw [Function.update_self, List.take_length]
        · exact .inl (Function.update_of_ne hpath _ _)
      · obtain ⟨content', hmem, hcontent⟩ := hentry
        exact .inr ⟨content', List.mem_cons_of_mem _ hmem, hcontent⟩
    · exact .inl rfl
    · by_cases hpath : path = name
      · subst hpath
        exact .inr ⟨content, List.mem_cons_self, .inl (Function.update_self _ _ _)⟩
      · exact .inl (Function.update_of_ne hpath _ _)
    · rename_i bytes hcut
      by_cases hpath : path = name
      · subst hpath
        exact .inr ⟨content, List.mem_cons_self, .inr ⟨bytes, Function.update_self _ _ _⟩⟩
      · exact .inl (Function.update_of_ne hpath _ _)

/-- Where no extraction fails, every entry is written. -/
theorem extractEach_written {goes : ℕ → Extracted} {i : ℕ} {entries : List (String × List UInt8)}
    {files : Files} (h : (extractEach goes i entries files).1 = true) :
    (extractEach goes i entries files).2 = written entries files := by
  induction entries generalizing i files with
  | nil => rfl
  | cons entry entries ih =>
    obtain ⟨name, content⟩ := entry
    rw [extractEach] at h ⊢
    split at h
    · rename_i hdone
      rw [ih h]
      rfl
    · cases h
    · cases h
    · cases h

/-- What the step did to the blobs of a tar without links; and nothing else. -/
theorem extractStep_cases (hconfined : Confined C temp) : ∃ goes : ℕ → Extracted,
    ((extractStep C io temp dir).2 = dir ∨ (extractStep C io temp dir).2 =
        { dir with blobs := (extractEach goes 0 (blobEntries C temp) dir.blobs).2 }) ∧
      ((extractStep C io temp dir).1 = true → (extractStep C io temp dir).2 =
          { dir with blobs := (extractEach goes 0 (blobEntries C temp) dir.blobs).2 } ∧
        (extractEach goes 0 (blobEntries C temp) dir.blobs).1 = true) := by
  unfold extractStep extractBlobs blobEntries
  rcases htar : temp "blobs.tar" with _ | tar
  · exact ⟨fun _ => .done, .inl rfl, fun _ => ⟨rfl, rfl⟩⟩
  · obtain ⟨goes, hdir, hok⟩ :=
      C.unpack_linkless io.unpacking tar dir (hconfined.blobs tar htar)
    refine ⟨goes, ?_⟩
    dsimp only [Option.elim_some]
    split_ifs
    · exact ⟨.inr hdir, fun h => ⟨hdir, (hok h).1⟩⟩
    · exact ⟨.inl rfl, fun h => by cases h⟩

/-- The step writes blobs only. -/
theorem extractStep_frame (hconfined : Confined C temp) :
    (extractStep C io temp dir).2.masterKey = dir.masterKey ∧
      (extractStep C io temp dir).2.database = dir.database := by
  obtain ⟨goes, hsame | hdir, -⟩ := @extractStep_cases _ _ C io temp dir hconfined
  · rw [hsame]
    exact ⟨rfl, rfl⟩
  · rw [hdir]
    exact ⟨rfl, rfl⟩

theorem extractStep_file (hconfined : Confined C temp) (path : String) :
    (extractStep C io temp dir).2.blobs path = dir.blobs path ∨
      ∃ content, (path, content) ∈ blobEntries C temp ∧
        ((extractStep C io temp dir).2.blobs path = none ∨
          ∃ n, (extractStep C io temp dir).2.blobs path = some (content.take n)) := by
  obtain ⟨goes, hsame | hdir, -⟩ := @extractStep_cases _ _ C io temp dir hconfined
  · exact .inl (by rw [hsame])
  · rw [hdir]
    exact extractEach_file goes 0 _ dir.blobs path

theorem extractStep_written (hconfined : Confined C temp)
    (h : (extractStep C io temp dir).1 = true) :
    (extractStep C io temp dir).2.blobs = written (blobEntries C temp) dir.blobs := by
  obtain ⟨goes, -, hok⟩ := @extractStep_cases _ _ C io temp dir hconfined
  obtain ⟨hdir, hdone⟩ := hok h
  rw [hdir]
  exact extractEach_written hdone

/-! ### The database -/

/-- The step writes the database only, if the script does. -/
theorem databaseStep_frame (hconfined : Confined C temp) :
    (databaseStep C io temp dir).2.masterKey = dir.masterKey ∧
      (databaseStep C io temp dir).2.blobs = dir.blobs := by
  unfold databaseStep restoreDatabaseInto readFile
  rcases hschema : temp "schema.sql" with _ | schema
  · exact ⟨rfl, rfl⟩
  · dsimp only
    split_ifs
    · split
      · exact ⟨rfl, rfl⟩
      · rename_i sql hsql
        rw [C.executeBatch_confined sql _ (hconfined.script schema sql hschema hsql)]
        exact ⟨rfl, rfl⟩
    · exact ⟨rfl, rfl⟩
    · exact ⟨rfl, rfl⟩

/-! ### The restore -/

theorem checkMasterKey_error {manifest : BackupManifest}
    (h : checkMasterKey C io manifest dir = .error e) :
    e ≠ .other "extracting blobs" ∧ e ≠ .other "restoring database" := by
  unfold checkMasterKey at h
  split at h
  · cases h
  · split_ifs at h
    · obtain rfl := Except.error.inj h
      exact ⟨by decide, by decide⟩
    · obtain rfl := Except.error.inj h
      exact ⟨by decide, by decide⟩

/-- After an error at the blobs. -/
theorem leftBehind_extracting (hextract : (extractStep C io temp dir).2 = dir') :
    LeftBehind C io temp dir dir' (.other "extracting blobs") := by
  subst hextract
  exact {
    masterKey hconfined := (extractStep_frame hconfined).1
    blobs hconfined path := extractStep_file hconfined path
    database _ hconfined := (extractStep_frame hconfined).2
    extracted hne := absurd rfl hne
    finished hne := absurd rfl hne }

/-- After an error past the blobs. -/
theorem leftBehind_extracted {dir₁ : DataDir Db}
    (hextract : extractStep C io temp dir = (true, dir₁))
    (hdatabase : (databaseStep C io temp dir₁).2 = dir') (he : e ≠ .other "extracting blobs")
    (hfinished : e ≠ .other "restoring database" → (databaseStep C io temp dir₁).1 = true) :
    LeftBehind C io temp dir dir' e := by
  have hfirst : (extractStep C io temp dir).2 = dir₁ := congrArg Prod.snd hextract
  subst hdatabase
  refine ⟨fun hconfined => ?_, fun hconfined path => ?_, fun hextracting _ =>
    absurd hextracting he, fun _ hconfined => ?_, fun _ hne => ?_⟩
  · rw [(databaseStep_frame hconfined).1, ← hfirst, (extractStep_frame hconfined).1]
  · rw [(databaseStep_frame hconfined).2, ← hfirst]
    exact extractStep_file hconfined path
  · rw [(databaseStep_frame hconfined).2, ← hfirst,
      extractStep_written hconfined (congrArg Prod.fst hextract)]
  · exact ⟨dir₁, hextract, Prod.ext (hfinished hne) rfl⟩

theorem restoreUnpacked_error {archive : List UInt8} {manifest : BackupManifest}
    (h : restoreUnpacked C io archive temp manifest dir = (.error e, dir')) :
    LeftBehind C io temp dir dir' e := by
  unfold restoreUnpacked at h
  rcases hextract : extractStep C io temp dir with ⟨_ | _, dir₁⟩
  · simp only [hextract] at h
    obtain ⟨⟨⟩, rfl⟩ := Prod.mk.inj h
    exact leftBehind_extracting (by rw [hextract])
  simp only [hextract] at h
  rcases hdatabase : databaseStep C io temp dir₁ with ⟨_ | _, dir₂⟩
  · simp only [hdatabase] at h
    obtain ⟨⟨⟩, rfl⟩ := Prod.mk.inj h
    exact leftBehind_extracted hextract (by rw [hdatabase]) (by decide) (fun hne => absurd rfl hne)
  simp only [hdatabase] at h
  have hfinished : (databaseStep C io temp dir₁).1 = true := by rw [hdatabase]
  rcases hkey : checkMasterKey C io manifest dir₂ with e' | _
  · simp only [hkey] at h
    obtain ⟨⟨⟩, rfl⟩ := Prod.mk.inj h
    exact leftBehind_extracted hextract (by rw [hdatabase]) (checkMasterKey_error hkey).1
      fun _ => hfinished
  · simp only [hkey] at h
    split_ifs at h
    · cases h
    · obtain ⟨⟨⟩, rfl⟩ := Prod.mk.inj h
      exact leftBehind_extracted hextract (by rw [hdatabase]) (by decide) fun _ => hfinished

/-- **A failed restore.** Before the archive is unpacked and its manifest is read, nothing is
written; afterwards nothing is undone. -/
theorem failed_restore {archivePath : String} {archive : Option (List UInt8)}
    (h : restoreBackup C io archivePath archive dir = (.error e, dir')) :
    match loadArchive C io archivePath archive with
    | .error _ => dir' = dir
    | .ok (temp, _) => LeftBehind C io temp dir dir' e := by
  unfold restoreBackup at h
  split
  · rename_i e' hload
    rw [hload] at h
    exact (Prod.mk.inj h).2.symm
  · rename_i temp manifest hload
    rw [hload] at h
    exact restoreUnpacked_error h

end Restore

/-! ## Another master key -/

/-- The bytes of a text. -/
def bytesOf (text : String) : List UInt8 := text.toUTF8.data.toList

def sampleManifest : String :=
  "\x7b\"version\":\"0.1.0\",\"created_at\":\"2026-07-12T00:00:00Z\",\"master_key_hash\":\"b3\"," ++
    "\"uncompressed_size\":0,\"archive_hash\":\"\"\x7d"

def sampleScript : String := "CREATE TABLE t (x);\n"

/-- The archive, and the tar of its one blob, by their first bytes. -/
def sampleArchive : List UInt8 := [0x28, 0xb5, 0x2f, 0xfd]

def sampleTar : List UInt8 := bytesOf "ab/cd"

/-- The archive's files: one blob, and a script with one table. -/
def sampleFiles : Files := fun path =>
  if path = "manifest.json" then some (bytesOf sampleManifest)
  else if path = "blobs.tar" then some sampleTar
  else if path = "schema.sql" then some (bytesOf sampleScript)
  else none

/-- The files of that tar; any other is damaged. -/
def sampleEntries (tar : List UInt8) : List (String × List UInt8) × Bool :=
  if tar = sampleTar then ([("ab/cd", [7])], true) else ([], false)

theorem extractEach_done (i : ℕ) (entries : List (String × List UInt8)) (files : Files) :
    extractEach (fun _ => .done) i entries files = (true, written entries files) := by
  induction entries generalizing i files with
  | nil => rfl
  | cons entry entries ih => exact ih (i + 1) (Function.update files entry.1 (some entry.2))

/-- A file system on which nothing fails; a database is the list of the scripts that were run on
it. -/
def RestoreCrates.sample : RestoreCrates (List String) Unit where
  unpackArchive bytes := if bytes = sampleArchive then some sampleFiles else none
  unpack _ tar dir :=
    ((sampleEntries tar).2, { dir with blobs := written (sampleEntries tar).1 dir.blobs })
  linkless _ := true
  tarEntries := sampleEntries
  unpack_linkless _ tar dir _ :=
    ⟨fun _ => .done, by rw [extractEach_done], fun h => ⟨by rw [extractEach_done], h⟩⟩
  utf8 bytes :=
    if bytes = bytesOf sampleManifest then some sampleManifest
    else if bytes = bytesOf sampleScript then some sampleScript
    else none
  manifestOf text :=
    if text = sampleManifest then some ⟨"0.1.0", "2026-07-12T00:00:00Z", "b3", 0, ""⟩ else none
  blake3 _ := "a1"
  newDatabase := []
  executeBatch sql dir := (true, { dir with database := dir.database.map (· ++ [sql]) })
  namesFiles _ := false
  executeBatch_confined _ _ _ := rfl

/-- A server that has a key, and nothing else. -/
def keyOnly : DataDir (List String) := ⟨fun _ => none, none, some [1, 2, 3]⟩

/-- The archive, restored there. -/
def otherKeyRun : Except BackupError BackupManifest × DataDir (List String) :=
  restoreBackup .sample { unpacking := () } "backup.tar.zst" (some sampleArchive) keyOnly

theorem otherKeyRun_error :
    otherKeyRun.1 = .error (.other "master key has changed; restore may be incomplete") := by
  decide +kernel

/-- **A refused restore** is there all the same. -/
theorem not_untouched_otherKey : ¬∀ e, otherKeyRun.1 = .error e → otherKeyRun.2 = keyOnly := by
  intro hclaim
  have hblob : otherKeyRun.2.blobs "ab/cd" = some [7] := by decide +kernel
  rw [hclaim _ otherKeyRun_error] at hblob
  cases hblob

/-- What the refused restore left. -/
theorem failed_restore_otherKey :
    LeftBehind .sample { unpacking := () } sampleFiles keyOnly otherKeyRun.2
      (.other "master key has changed; restore may be incomplete") := by
  have hrun : restoreBackup .sample { unpacking := () } "backup.tar.zst" (some sampleArchive)
      keyOnly = (.error (.other "master key has changed; restore may be incomplete"),
        otherKeyRun.2) := Prod.ext otherKeyRun_error rfl
  exact failed_restore hrun

end Owney.Backup
