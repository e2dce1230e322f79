import Owney.BlobRuns

/-!
# The blob store is correct, and who can read it

Two results about every run of the programs of `BlobFiles`, from a new installation.

* `blobs_correct` — the store keeps contents. `K` is a set of contents with different
  digests, among them those of the run: the collision-freedom the store relies on.
* `isolated_iff` — a download asks for no ownership: it stays with the caller's own blobs
  exactly when there are no others in the store.
-/

namespace Owney.Blobs

open Programs Tables

/-! ## Programs alone -/

section Alone

variable (C : BlobCrates) (c : BlobChoice)

/-- The answer of a program while no other one is running, and the installation then. -/
def perform {α : Type} (p : BlobProg α) (w : BlobWorld) : Except StorageError α × BlobWorld :=
  p.run.alone (fun o w => w.exec C.unicode c o) w

/-- Nothing fails. -/
structure Smooth (c : BlobChoice) : Prop where
  draws : c.draws.isSome
  outcome : c.outcome = .renamed
  readable : c.readable
  io : ∀ n, c.io n

variable {C c} {α β : Type} {w : BlobWorld}

theorem perform_bind {p : BlobProg α} {f : α → BlobProg β} {a : α} {w' : BlobWorld}
    (h : perform C c p w = (.ok a, w')) : perform C c (p >>= f) w = perform C c (f a) w' := by
  unfold perform at h ⊢
  rw [ExceptT.run_bind, Prog.alone_bind, h]

theorem perform_lift {res : Except StorageError α} : perform C c (lift res) w = (res, w) := rfl

theorem perform_bind_error {p : BlobProg α} {f : α → BlobProg β} {e : StorageError}
    {w' : BlobWorld} (h : perform C c p w = (.error e, w')) :
    perform C c (p >>= f) w = (.error e, w') := by
  unfold perform at h ⊢
  rw [ExceptT.run_bind, Prog.alone_bind, h]
  rfl

variable (C c w) in
/-- Reading a file, in the cases the outside world makes. -/
theorem perform_get_eq (id : BlobId) : perform C c (get C id) w =
    (match w.file id with
      | none => .error (.blobNotFound id)
      | some raw => if c.readable then C.store.decode id raw else .error .io, w) := by
  have hread : perform C c (ask (.read id)) w = w.exec C.unicode c (.read id) := rfl
  rcases hfile : w.file id with _ | raw
  · refine perform_bind_error (hread.trans ?_)
    simp [BlobWorld.exec, hfile]
  · by_cases hc : c.readable
    · have hread' : perform C c (ask (.read id)) w = (.ok raw, w) := by
        simp [hread, BlobWorld.exec, hfile, hc]
      rw [get, perform_bind hread', perform_lift]
      simp [hc]
    · simp only [if_neg hc]
      refine perform_bind_error (hread.trans ?_)
      simp [BlobWorld.exec, hfile, hc]

/-- Reading a file that is there. -/
theorem perform_get {id : BlobId} {raw : List UInt8} (hfile : w.file id = some raw)
    (hreadable : c.readable) : perform C c (get C id) w = (C.store.decode id raw, w) := by
  rw [perform_get_eq, hfile]
  simp only [if_pos hreadable]

/-- A file that is there is not written again. -/
theorem perform_put {x : List UInt8} (hfile : (w.file (C.store.crypto.hash x)).isSome)
    (hreadable : c.readable) : perform C c (put C x) w = (.ok (C.store.crypto.hash x), w) := by
  have hexists : perform C c (ask (.pathExists (C.store.crypto.hash x))) w = (.ok true, w) := by
    change w.exec C.unicode c (.pathExists _) = _
    simp [BlobWorld.exec, hfile, hreadable]
  rw [put, perform_bind hexists]
  rfl

/-- A new file is written. -/
theorem perform_put_new (hP : C.store.crypto.Correct) (hc : Smooth c) {x : List UInt8}
    (hfile : w.file (C.store.crypto.hash x) = none) (hlen : x.length ≤ C.store.crypto.maxLength) :
    ∃ file, C.store.decode (C.store.crypto.hash x) file = .ok x ∧
      perform C c (put C x) w =
        (.ok (C.store.crypto.hash x), w.writeFile (C.store.crypto.hash x) file) := by
  obtain ⟨d, hd⟩ := Option.isSome_iff_exists.mp hc.draws
  obtain ⟨file, hencode⟩ := BlobStore.exists_encode hP d hlen
  refine ⟨file, BlobStore.decode_encode hP hencode, ?_⟩
  have hexists : perform C c (ask (.pathExists (C.store.crypto.hash x))) w = (.ok false, w) := by
    change w.exec C.unicode c (.pathExists _) = _
    simp [BlobWorld.exec, hfile]
  have hrandom : perform C c (ask .random) w = (.ok d, w) := by
    change w.exec C.unicode c .random = _
    simp [BlobWorld.exec, hd, cryptoOr]
  have hwrite : perform C c (writeNew C x) w =
      (.ok (), w.writeFile (C.store.crypto.hash x) file) := by
    rw [writeNew, perform_bind hrandom, hencode, perform_bind perform_lift]
    change w.exec C.unicode c (.writeAtomically _ file) = _
    simp [BlobWorld.exec, hc.outcome]
  rw [put, perform_bind hexists]
  exact perform_bind hwrite

/-- The rows after a blob was recorded. -/
def recordedDb (db : MailDb) (id : BlobId) (size : ℕ) (now : ℤ) : MailDb :=
  if db.blobs.any (·.id = id) then db else { db with blobs := db.blobs ++ [⟨id, size, 0, now⟩] }

theorem perform_record {id : BlobId} {size : ℕ} {now : ℤ} (hio : c.io 0) :
    perform C c (ask (.recordBlob id size now)) w =
      (.ok (), { w with db := recordedDb w.db id size now }) := by
  change w.call (putBlobTx c.io id size now) = _
  simp only [BlobWorld.call, transaction, putBlobTx, Tx.exec, hio, if_pos]
  rfl

theorem recordedDb_of_mem {db : MailDb} {id : BlobId} {size : ℕ} {now : ℤ}
    (h : id ∈ rowIds db) : recordedDb db id size now = db :=
  if_pos (by simpa [rowIds] using h)

theorem mem_rowIds_recordedDb (db : MailDb) (id : BlobId) (size : ℕ) (now : ℤ) :
    id ∈ rowIds (recordedDb db id size now) := by
  unfold recordedDb
  split
  · rename_i hany
    simpa [rowIds] using hany
  · simp [rowIds]

/-- The rows of the other blobs. -/
theorem filter_recordedDb (db : MailDb) {id id' : BlobId} (size : ℕ) (now : ℤ) (hne : id' ≠ id) :
    (recordedDb db id size now).blobs.filter (·.id = id') = db.blobs.filter (·.id = id') := by
  unfold recordedDb
  split
  · rfl
  · simp [List.filter_append, hne.symm]

/-- **A put of what is stored changes nothing.** -/
theorem perform_putBlob {x : List UInt8} {now : ℤ}
    (hfile : (w.file (C.store.crypto.hash x)).isSome)
    (hrow : C.store.crypto.hash x ∈ rowIds w.db) (hreadable : c.readable) (hio : c.io 0) :
    perform C c (putBlob C x now) w = (.ok (C.store.crypto.hash x), w) := by
  rw [putBlob, perform_bind (perform_put hfile hreadable), perform_bind (perform_record hio),
    recordedDb_of_mem hrow]
  rfl

end Alone

/-! ## The laws of the store -/

/-- The program stored its content, under a blob's id. -/
def BlobReply.StoredAs (id : BlobId) : BlobReply → Prop
  | .stored (.ok id') => id' = id
  | .ingested (.ok i) => i.1.2.2 = id
  | .uploaded _ text _ _ => text = id.toHex
  | _ => False

/-- The program stored its content. -/
def BlobReply.isStored : BlobReply → Bool
  | .stored (.ok _) => true
  | .ingested (.ok _) => true
  | .uploaded .. => true
  | _ => false

/-- What a program got: the blob that was asked for, and the bytes. -/
def Got (r : BlobRequest) (id : BlobId) (y : List UInt8) (reply : BlobReply) : Prop :=
  (r = .getBlob id ∧ reply = .contents (.ok y)) ∨
    ∃ d, r = .download d ∧ BlobId.parse d.blobId.toList = some (.ok id) ∧ reply = .downloaded y

section Laws

variable (C : BlobCrates) (K : Set (List UInt8)) (moves : List BlobMove)

/-- The `i`-th program of the run stored a content. -/
def StoredBy (i : ℕ) (r : BlobRequest) (x : List UInt8) (reply : BlobReply) : Prop :=
  (blobRun C moves).request i = some r ∧ r.content = some x ∧
    (blobRun C moves).answer i = some reply ∧ reply.isStored

/-- What the store promises after a run. -/
structure BlobsCorrect : Prop where
  /-- what a program stored is got from then on, under the id it answered -/
  get_stored : ∀ i r x reply, StoredBy C moves i r x reply →
    reply.StoredAs (C.store.crypto.hash x) ∧ ∀ c : BlobChoice, c.readable →
      perform C c (get C (C.store.crypto.hash x)) (blobRun C moves).world =
        (.ok x, (blobRun C moves).world)
  /-- to put it again changes nothing -/
  put_stored : ∀ i r x reply, StoredBy C moves i r x reply → ∀ (c : BlobChoice) (now : ℤ),
    c.readable → c.io 0 → perform C c (putBlob C x now) (blobRun C moves).world =
      (.ok (C.store.crypto.hash x), (blobRun C moves).world)
  /-- a content that is not too long can be put now, and got then; other blobs stay -/
  put_get : ∀ x ∈ K, x.length ≤ C.store.crypto.maxLength → ∀ (c : BlobChoice) (now : ℤ),
    Smooth c → ∃ w, perform C c (putBlob C x now) (blobRun C moves).world =
        (.ok (C.store.crypto.hash x), w) ∧
      perform C c (get C (C.store.crypto.hash x)) w = (.ok x, w) ∧
      perform C c (putBlob C x now) w = (.ok (C.store.crypto.hash x), w) ∧
      ∀ id, id ≠ C.store.crypto.hash x → w.file id = (blobRun C moves).world.file id ∧
        w.db.blobs.filter (·.id = id) = (blobRun C moves).world.db.blobs.filter (·.id = id)
  /-- no step touches the blob of another content -/
  others : ∀ e ∈ (blobRun C moves).past, ∀ id, ¬OfContent C e.req id →
    e.after.file id = e.before.file id ∧
      e.after.db.blobs.filter (·.id = id) = e.before.db.blobs.filter (·.id = id)
  /-- what is got has the digest that was asked for -/
  hash_got : ∀ i r id y reply, (blobRun C moves).request i = some r →
    (blobRun C moves).answer i = some reply → Got r id y reply → C.store.crypto.hash y = id
  /-- the counts are those of the emails -/
  counts : ∀ b ∈ (blobRun C moves).world.db.blobs,
    b.refcount = ((blobRun C moves).world.db.emails.filter (·.blobId = b.id)).length

end Laws

section Correct

variable {C : BlobCrates} {K : Set (List UInt8)} {moves : List BlobMove}

/-- The contents of the requests of a run. -/
def Contents (K : Set (List UInt8)) (moves : List BlobMove) : Prop :=
  ∀ r, .start r ∈ moves → ∀ x, r.content = some x → x ∈ K

theorem specified_run (C : BlobCrates) (moves : List BlobMove) :
    (blobRun C moves).Specified (fun o c w => some (w.exec C.unicode c o)) (Guarded C) (Answered C)
      ⟨[], MailDb.empty⟩ :=
  run_specified (blobHandle_spec C) moves specified_init

theorem content_mem (hcontents : Contents K moves) {i : ℕ} {r : BlobRequest} {x : List UInt8}
    (hr : (blobRun C moves).request i = some r) (hx : r.content = some x) : x ∈ K := by
  rcases request_run hr with h | h
  · cases h
  · exact hcontents r h x hx

theorem blobInv_run (hP : C.store.crypto.Correct) (hcontents : Contents K moves) :
    BlobInv C K (blobRun C moves).past (blobRun C moves).world := by
  have hspec := specified_run C moves
  exact blobInv_past hP hspec.past fun e he x hx => content_mem hcontents (hspec.started e he) hx

/-- The file of a blob holds its only content in `K`. -/
theorem BlobInv.decode (hK : K.InjOn C.store.crypto.hash) {past : List BlobEvent} {w : BlobWorld}
    (h : BlobInv C K past w) {x raw : List UInt8} (hx : x ∈ K)
    (hraw : w.file (C.store.crypto.hash x) = some raw) :
    C.store.decode (C.store.crypto.hash x) raw = .ok x := by
  obtain ⟨y, hy, hhash, hdecode⟩ := h.files _ raw hraw
  rwa [hK hy hx hhash] at hdecode

/-- What a program stored has its row. -/
theorem storedBy_recorded {i : ℕ} {r : BlobRequest} {x : List UInt8} {reply : BlobReply}
    (h : StoredBy C moves i r x reply) : reply.StoredAs (C.store.crypto.hash x) ∧
      Recorded (callsOf i (blobRun C moves).past) (C.store.crypto.hash x) := by
  obtain ⟨hr, hx, hanswer, hstored⟩ := h
  have hspec := specified_run C moves
  obtain ⟨r', hr', hq⟩ := hspec.answered hanswer
  obtain rfl := Option.some.inj (hr'.symm.trans hr)
  have hid : ∀ {id}, OfContent C r' id → id = C.store.crypto.hash x := by
    rintro id ⟨y, hy, rfl⟩
    rw [Option.some.inj (hx.symm.trans hy)]
  rcases reply with ⟨e | id⟩ | res | ⟨e | i'⟩ | res | ⟨a, text, ty, size⟩ | bytes | status | _
  case stored.ok =>
    obtain ⟨hof, hrec⟩ := hq
    obtain rfl := hid hof
    exact ⟨rfl, hrec⟩
  case ingested.ok =>
    obtain ⟨g, hmem, hof, hrec⟩ := hq
    obtain ⟨e, he, -, hcall⟩ := mem_callsOf.mp hmem
    obtain ⟨pre, post, -, hat⟩ := hspec.past.exists_at he
    have heq := at_call hat hcall
    rcases call_cases e.before (ingestTx e.choice.io g) with ⟨err, hc⟩ | ⟨v, db', hbody, hc⟩
    · cases (Prod.mk.inj (hc.symm.trans heq)).1
    · obtain rfl := Except.ok.inj (Prod.mk.inj (hc.symm.trans heq)).1
      rw [← hid hof]
      exact ⟨ingestTx_blobId hbody, hrec⟩
  case uploaded =>
    obtain ⟨id, rfl, hof, hrec⟩ := hq
    rw [← hid hof]
    exact ⟨rfl, hrec⟩
  all_goals cases hstored

/-- So it has its file. -/
theorem storedBy_there (hP : C.store.crypto.Correct) (hcontents : Contents K moves) {i : ℕ}
    {r : BlobRequest} {x : List UInt8} {reply : BlobReply} (h : StoredBy C moves i r x reply) :
    C.store.crypto.hash x ∈ rowIds (blobRun C moves).world.db ∧
      ((blobRun C moves).world.file (C.store.crypto.hash x)).isSome := by
  obtain ⟨c, hc, hrec⟩ := (storedBy_recorded h).2.exists_call
  obtain ⟨e, he, -, rfl⟩ := mem_callsOf.mp hc
  have hinv := blobInv_run hP hcontents
  have hrow := hinv.recorded e he _ hrec
  exact ⟨hrow, hinv.rows _ hrow⟩

/-- A step and the blob of another content. -/
theorem at_others {past : List BlobEvent} {e : BlobEvent} (hat : BlobAt C past e) {id : BlobId}
    (hid : ¬OfContent C e.req id) : e.after.file id = e.before.file id ∧
      e.after.db.blobs.filter (·.id = id) = e.before.db.blobs.filter (·.id = id) := by
  have hguard := hat.guard
  have hafter : (e.before.exec C.unicode e.choice e.call.op).2 = e.after := by rw [at_eq hat]
  rcases exec_cases C.unicode e.choice e.call.op e.before with
    ⟨hfiles, hblobs, -⟩ | ⟨id', file, hop, hw⟩ | ⟨id', size, now, hop, -, hw⟩ |
      ⟨g, hop, hfiles, -, hblobs⟩ | ⟨id', hop⟩
  · rw [hafter] at hfiles hblobs
    rw [file_congr hfiles, hblobs]
    exact ⟨rfl, rfl⟩
  · rw [hafter] at hw
    rw [hop] at hguard
    obtain ⟨x, d, hx, hhash, -⟩ := hguard
    have hne : id ≠ id' := fun h => hid ⟨x, hx, hhash.trans h.symm⟩
    rw [hw]
    exact ⟨file_writeFile_of_ne hne, rfl⟩
  · rw [hafter] at hw
    rw [hop] at hguard
    have hne : id' ≠ id := fun h => hid (h ▸ hguard.1)
    rw [hw]
    exact ⟨rfl, by simp [List.filter_append, hne]⟩
  · rw [hafter] at hfiles hblobs
    rw [hop] at hguard
    have hne : g.raw.blobId ≠ id := fun h => hid (h ▸ hguard.1)
    refine ⟨file_congr hfiles id, ?_⟩
    rw [hblobs]
    refine filter_update (by intro r; rfl) (fun b hb => ?_) _
    simp only [decide_eq_true_eq] at hb
    simpa [hb] using hne
  · exact absurd hop (op_ne_removeFile hat)

end Correct

/-- **The blob store is correct.** The AEAD is, and the contents of the run, and others we may
think of, have different digests. Then after any moves of any programs, in any order and with
any failures, the store keeps its promises. -/
theorem blobs_correct (C : BlobCrates) (hP : C.store.crypto.Correct) {K : Set (List UInt8)}
    (hK : K.InjOn C.store.crypto.hash) {moves : List BlobMove} (hcontents : Contents K moves) :
    BlobsCorrect C K moves := by
  have hspec := specified_run C moves
  have hinv := blobInv_run hP hcontents
  refine ⟨?_, ?_, ?_, ?_, ?_, ?_⟩
  · intro i r x reply h
    refine ⟨(storedBy_recorded h).1, fun c hc => ?_⟩
    obtain ⟨raw, hraw⟩ := Option.isSome_iff_exists.mp (storedBy_there hP hcontents h).2
    rw [perform_get hraw hc, hinv.decode hK (content_mem hcontents h.1 h.2.1) hraw]
  · intro i r x reply h c now hreadable hio
    obtain ⟨hrow, hfile⟩ := storedBy_there hP hcontents h
    exact perform_putBlob hfile hrow hreadable hio
  · intro x hx hlen c now hc
    -- the file after the put is the old one, or a new one
    obtain ⟨w, hput, raw, hraw, hdecode, hdb, hothers⟩ :
        ∃ w, perform C c (put C x) (blobRun C moves).world = (.ok (C.store.crypto.hash x), w) ∧
          ∃ raw, w.file (C.store.crypto.hash x) = some raw ∧
            C.store.decode (C.store.crypto.hash x) raw = .ok x ∧
            w.db = (blobRun C moves).world.db ∧
            ∀ id, id ≠ C.store.crypto.hash x → w.file id = (blobRun C moves).world.file id := by
      rcases hfile : (blobRun C moves).world.file (C.store.crypto.hash x) with _ | raw
      · obtain ⟨file, hdecode, hput⟩ := perform_put_new hP hc hfile hlen
        exact ⟨_, hput, file, file_writeFile_self, hdecode, rfl, fun id hid =>
          file_writeFile_of_ne hid⟩
      · exact ⟨_, perform_put (by rw [hfile]; rfl) hc.readable, raw, hfile,
          hinv.decode hK hx hfile, rfl, fun id _ => rfl⟩
    have hraw' : BlobWorld.file
        { w with db := recordedDb w.db (C.store.crypto.hash x) x.length now }
        (C.store.crypto.hash x) = some raw := hraw
    refine ⟨{ w with db := recordedDb w.db (C.store.crypto.hash x) x.length now }, ?_, ?_, ?_, ?_⟩
    · rw [putBlob, perform_bind hput, perform_bind (perform_record (hc.io 0))]
      rfl
    · rw [perform_get hraw' hc.readable, hdecode]
    · refine perform_putBlob ?_ (mem_rowIds_recordedDb ..) hc.readable (hc.io 0)
      rw [hraw']
      rfl
    · intro id hid
      refine ⟨hothers id hid, ?_⟩
      rw [← hdb]
      exact filter_recordedDb w.db x.length now hid
  · intro e he id hid
    obtain ⟨pre, post, -, hat⟩ := hspec.past.exists_at he
    exact at_others hat hid
  · intro i r id y reply hr hanswer hgot
    obtain ⟨r', hr', hq⟩ := hspec.answered hanswer
    obtain rfl := Option.some.inj (hr'.symm.trans hr)
    rcases hgot with ⟨rfl, rfl⟩ | ⟨d, rfl, hid, rfl⟩
    · obtain ⟨id', heq, raw, -, hdecode⟩ := hq
      cases heq
      exact BlobStore.hash_of_decode _ hdecode
    · obtain ⟨d', a, id', heq, -, hid', raw, -, hdecode⟩ := hq
      cases heq
      obtain rfl := Except.ok.inj (Option.some.inj (hid'.symm.trans hid))
      exact BlobStore.hash_of_decode _ hdecode
  · intro b hb
    rw [hinv.counts b hb, refs, List.count_eq_countP, List.countP_map, List.countP_eq_length_filter]
    congr 2

/-! ## A small installation -/

/-- A cipher that adds an empty tag, and the first byte as the digest. -/
def sampleCrypto : Primitives where
  hash x := ⟨BitVec.ofNat 256 (x.headD 0).toNat⟩
  encrypt _ _ _ m := some (m ++ List.replicate 16 0)
  decrypt _ _ _ c := some (c.take (c.length - 16))
  maxLength := 2 ^ 38

theorem sampleCrypto_correct : sampleCrypto.Correct where
  decrypt_encrypt := by
    rintro k n a m c ⟨⟩
    simp [sampleCrypto]
  length_encrypt := by
    rintro k n a m c ⟨⟩
    simp
  encrypt_some := fun _ _ _ _ _ => rfl
  key_fits := by decide

/-- A storage with that cipher, and a parser that reads nothing. -/
def sampleBlobs : BlobCrates where
  store := ⟨sampleCrypto, List.replicate 32 7⟩
  parse _ := none
  unicode := .ascii
  maxSizeUpload := 100

/-- Two contents. -/
def sampleContents : Set (List UInt8) := {[1], [2]}

theorem sampleContents_injOn : sampleContents.InjOn sampleBlobs.store.crypto.hash := by
  rintro x (rfl | rfl) y (rfl | rfl) h
  · rfl
  · exact absurd h (by decide)
  · exact absurd h (by decide)
  · rfl

/-- Nothing fails, and the random bytes are zero. -/
def smoothly : BlobChoice where
  draws := some ⟨⟨List.replicate 32 0, rfl⟩, ⟨List.replicate 24 0, rfl⟩, ⟨List.replicate 24 0, rfl⟩⟩
  outcome := .renamed
  readable := true
  io _ := true

/-- One content is put. -/
def putMoves : List BlobMove := .start (.putBlob [1] 0) :: List.replicate 4 (.call 0 smoothly)

theorem contents_putMoves : Contents sampleContents putMoves := by
  intro r hr x hx
  rcases List.mem_cons.mp hr with hr | hr
  · cases hr
    cases hx
    exact .inl rfl
  · cases List.eq_of_mem_replicate hr

/-- What was put is got. -/
theorem blobs_correct_put :
    StoredBy sampleBlobs putMoves 0 (.putBlob [1] 0) [1] (.stored (.ok ⟨1⟩)) ∧
      BlobsCorrect sampleBlobs sampleContents putMoves ∧
      perform sampleBlobs smoothly (get sampleBlobs ⟨1⟩) (blobRun sampleBlobs putMoves).world =
        (.ok [1], (blobRun sampleBlobs putMoves).world) := by
  have hstored : StoredBy sampleBlobs putMoves 0 (.putBlob [1] 0) [1] (.stored (.ok ⟨1⟩)) :=
    ⟨rfl, rfl, rfl, rfl⟩
  have hcorrect := blobs_correct sampleBlobs sampleCrypto_correct sampleContents_injOn
    contents_putMoves
  exact ⟨hstored, hcorrect, (hcorrect.get_stored 0 _ [1] _ hstored).2 smoothly rfl⟩

/-! ## Downloads -/

section Downloads

variable (C : BlobCrates)

/-- An upload of the account stored the blob, or found it stored. -/
def Uploaded (s : BlobSys) (a : AccountId) (id : BlobId) : Prop :=
  ∃ e ∈ s.past, ∃ u, e.req = .upload u ∧ pathAccount u.caller u.accountId = .ok a ∧
    C.store.crypto.hash u.body = id ∧ FileSeen [e.call] id

/-- An email of the account refers to the blob, or the account uploaded it. -/
def Owned (s : BlobSys) (a : AccountId) (id : BlobId) : Prop :=
  (∃ m ∈ s.world.db.emails, m.accountId = a ∧ m.blobId = id) ∨ Uploaded C s a id

/-- The answer to a download now. -/
def downloadNow (s : BlobSys) (c : BlobChoice) (d : DownloadRequest) : BlobReply :=
  ((download C d).alone (fun o w => w.exec C.unicode c o) s.world).1

/-- The account gets no bytes but those of its own blobs. -/
def GetsOwn (s : BlobSys) (a : AccountId) : Prop :=
  ∀ c d bytes, pathAccount d.caller d.accountId = .ok a →
    downloadNow C s c d = .downloaded bytes →
    ∃ id, BlobId.parse d.blobId.toList = some (.ok id) ∧ Owned C s a id

/-- **Isolation of downloads**, in two installations. The account gets its own blobs, and where
it owns the same blobs in both, it gets the same answers. -/
structure Isolated (s s' : BlobSys) (a : AccountId) : Prop where
  own : GetsOwn C s a
  own' : GetsOwn C s' a
  same : (∀ id, Owned C s a id ↔ Owned C s' a id) →
    ∀ c d, pathAccount d.caller d.accountId = .ok a → downloadNow C s c d = downloadNow C s' c d

/-- There are no blobs but those of the account. -/
def OnlyOwned (s : BlobSys) (a : AccountId) : Prop :=
  ∀ id, (s.world.file id).isSome → Owned C s a id

variable {C} {K : Set (List UInt8)} {moves moves' : List BlobMove} {a : AccountId}

/-- A download of the account, by the name of the blob. -/
def downloadOf (a : AccountId) (id : BlobId) : DownloadRequest := ⟨.ok a, a.uuid.toString, id.toHex⟩

theorem pathAccount_downloadOf (a : AccountId) (id : BlobId) :
    pathAccount (downloadOf a id).caller (downloadOf a id).accountId = .ok a := by
  simp [pathAccount, downloadOf]

theorem parse_downloadOf (a : AccountId) (id : BlobId) :
    BlobId.parse (downloadOf a id).blobId.toList = some (.ok id) := BlobId.parse_toHex id

/-- The answer is what is got, of the blob of the path. -/
theorem downloadNow_eq {s : BlobSys} {c : BlobChoice} {d : DownloadRequest} {id : BlobId}
    (haccount : pathAccount d.caller d.accountId = .ok a)
    (hid : BlobId.parse d.blobId.toList = some (.ok id)) :
    downloadNow C s c d = downloadReply (perform C c (get C id) s.world).1 := by
  rw [downloadNow, download, haccount, hid]
  dsimp only
  rw [Prog.alone_bind]
  rfl

/-- What an account owns is stored. -/
theorem owned_isSome (hP : C.store.crypto.Correct) (hcontents : Contents K moves) {id : BlobId}
    (h : Owned C (blobRun C moves) a id) : ((blobRun C moves).world.file id).isSome := by
  have hinv := blobInv_run hP hcontents
  rcases h with ⟨m, hm, -, rfl⟩ | ⟨e, he, u, -, -, -, hseen⟩
  · exact hinv.rows _ (hinv.linked _ (List.mem_map_of_mem hm))
  · exact hinv.seen e he id hseen

/-- What a download of a stored blob answers. -/
theorem exists_downloaded (hP : C.store.crypto.Correct) (hcontents : Contents K moves)
    {id : BlobId} (hfile : ((blobRun C moves).world.file id).isSome) {c : BlobChoice}
    (hc : c.readable) :
    ∃ bytes, downloadNow C (blobRun C moves) c (downloadOf a id) = .downloaded bytes := by
  obtain ⟨raw, hraw⟩ := Option.isSome_iff_exists.mp hfile
  obtain ⟨x, -, -, hdecode⟩ := (blobInv_run hP hcontents).files id raw hraw
  refine ⟨x, ?_⟩
  rw [downloadNow_eq (pathAccount_downloadOf a id) (parse_downloadOf a id), perform_get hraw hc,
    hdecode]
  rfl

/-- Only own blobs are got when there are no others, and else others are. -/
theorem getsOwn_iff (hP : C.store.crypto.Correct) (hcontents : Contents K moves) :
    GetsOwn C (blobRun C moves) a ↔ OnlyOwned C (blobRun C moves) a := by
  constructor
  · intro h id hfile
    let c : BlobChoice := ⟨none, .renamed, true, fun _ => true⟩
    obtain ⟨bytes, hdown⟩ := exists_downloaded (a := a) hP hcontents hfile (c := c) rfl
    obtain ⟨id', hid, howned⟩ := h c _ bytes (pathAccount_downloadOf a id) hdown
    rw [parse_downloadOf] at hid
    rwa [Except.ok.inj (Option.some.inj hid)]
  · intro h c d bytes haccount hdown
    rcases hid : BlobId.parse d.blobId.toList with _ | e | id
    · rw [downloadNow, download, haccount, hid] at hdown
      cases hdown
    · rw [downloadNow, download, haccount, hid] at hdown
      cases hdown
    refine ⟨id, rfl, h id ?_⟩
    rw [downloadNow_eq haccount hid, perform_get_eq] at hdown
    rcases hfile : (blobRun C moves).world.file id with _ | raw
    · rw [hfile] at hdown
      cases hdown
    · rfl

/-- **Downloads are isolated exactly when there is nothing to isolate.** The account is told
apart from nobody: whatever is stored is read by whoever knows its name. -/
theorem isolated_iff (hP : C.store.crypto.Correct) (hK : K.InjOn C.store.crypto.hash)
    (hcontents : Contents K moves) (hcontents' : Contents K moves') :
    Isolated C (blobRun C moves) (blobRun C moves') a ↔
      OnlyOwned C (blobRun C moves) a ∧ OnlyOwned C (blobRun C moves') a := by
  constructor
  · exact fun h => ⟨(getsOwn_iff hP hcontents).mp h.own, (getsOwn_iff hP hcontents').mp h.own'⟩
  rintro ⟨h, h'⟩
  refine ⟨(getsOwn_iff hP hcontents).mpr h, (getsOwn_iff hP hcontents').mpr h', ?_⟩
  intro hsame c d haccount
  rcases hid : BlobId.parse d.blobId.toList with _ | e | id
  · rw [downloadNow, downloadNow, download, haccount, hid]
    rfl
  · rw [downloadNow, downloadNow, download, haccount, hid]
    rfl
  rw [downloadNow_eq haccount hid, downloadNow_eq haccount hid, perform_get_eq, perform_get_eq]
  rcases hfile : (blobRun C moves).world.file id with _ | raw <;>
    rcases hfile' : (blobRun C moves').world.file id with _ | raw'
  · rfl
  · -- owned in the second, so in the first, so it is there
    have howned := (hsame id).mpr (h' id (by rw [hfile']; rfl))
    have hsome := owned_isSome hP hcontents howned
    rw [hfile] at hsome
    cases hsome
  · have howned := (hsame id).mp (h id (by rw [hfile]; rfl))
    have hsome := owned_isSome hP hcontents' howned
    rw [hfile'] at hsome
    cases hsome
  · -- the two files hold the same content
    obtain ⟨x, hx, hhash, hdecode⟩ := (blobInv_run hP hcontents).files id raw hfile
    obtain ⟨y, hy, hhash', hdecode'⟩ := (blobInv_run hP hcontents').files id raw' hfile'
    obtain rfl := hK hx hy (hhash.trans hhash'.symm)
    simp only [hdecode, hdecode']

/-- The second account uploads. -/
def uploadMoves : List BlobMove :=
  .start (.upload ⟨.ok ⟨2⟩, (AccountId.mk 2).uuid.toString, none, [1], 0⟩) ::
    List.replicate 4 (.call 0 smoothly)

theorem contents_uploadMoves : Contents sampleContents uploadMoves := by
  intro r hr x hx
  rcases List.mem_cons.mp hr with hr | hr
  · cases hr
    cases hx
    exact .inl rfl
  · cases List.eq_of_mem_replicate hr

theorem not_owned_uploadMoves (id : BlobId) :
    ¬Owned sampleBlobs (blobRun sampleBlobs uploadMoves) ⟨1⟩ id := by
  rintro (⟨m, hm, -⟩ | ⟨e, he, u, hu, haccount, -⟩)
  · exact absurd hm List.not_mem_nil
  · rcases request_run ((specified_run sampleBlobs uploadMoves).started e he) with h | h
    · cases h
    rcases List.mem_cons.mp h with h | h
    · rw [hu] at h
      cases h
      exact absurd haccount (by decide +kernel)
    · cases List.eq_of_mem_replicate h

/-- **Who knows the name reads the blob.** The second account uploads, the first downloads. -/
theorem not_isolated_uploadMoves :
    ¬Isolated sampleBlobs (blobRun sampleBlobs uploadMoves) (blobRun sampleBlobs []) ⟨1⟩ := by
  intro h
  have hfile : ((blobRun sampleBlobs uploadMoves).world.file ⟨1⟩).isSome := by decide +kernel
  obtain ⟨bytes, hdown⟩ := exists_downloaded (a := ⟨1⟩) sampleCrypto_correct contents_uploadMoves
    hfile (c := smoothly) rfl
  obtain ⟨id, -, howned⟩ := h.own smoothly _ bytes (pathAccount_downloadOf _ _) hdown
  exact not_owned_uploadMoves id howned

/-- The first account reads what it uploaded itself, and nothing of an empty installation. -/
theorem isolated_iff_uploadMoves :
    Isolated sampleBlobs (blobRun sampleBlobs uploadMoves) (blobRun sampleBlobs []) ⟨2⟩ ↔
      OnlyOwned sampleBlobs (blobRun sampleBlobs uploadMoves) ⟨2⟩ ∧
        OnlyOwned sampleBlobs (blobRun sampleBlobs []) ⟨2⟩ :=
  isolated_iff sampleCrypto_correct sampleContents_injOn contents_uploadMoves
    fun _ h => absurd h List.not_mem_nil

end Downloads

end Owney.Blobs
