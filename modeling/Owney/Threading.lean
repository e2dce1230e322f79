import Owney.Get

/-!
# Threads

An ingest joins the thread of the first reference that names a stored message, or starts one.
Nothing else writes the thread of an email, so each thread is of one account, has an email, and is
stamped no earlier than its newest email. An ingest that fails leaves all of it as it was.

* `MailDb.placements` — which email is in which thread; only ingests add to it
  (`placements_step`).
* `ingestTx_joins` — the thread of an ingest, from the messages stored before it.
* `threaded_run` — what holds of the threads after every run of calls.
* `IngestCall.run_failed` — an ingest that fails changes neither a message nor a count.
-/

namespace Owney

open Tables

/-! ## Which email is in which thread -/

namespace MailDb

/-- The emails, each with its account and its thread. -/
def placements (db : MailDb) : List (EmailId × AccountId × ThreadId) :=
  db.emails.map fun r => (r.id, r.accountId, r.threadId)

theorem mem_placements {db : MailDb} {e : EmailsRow} (he : e ∈ db.emails) :
    (e.id, e.accountId, e.threadId) ∈ db.placements :=
  List.mem_map.mpr ⟨e, he, rfl⟩

theorem placements_update {db db' : MailDb} {p : EmailsRow → Bool} {f : EmailsRow → EmailsRow}
    (hemails : db'.emails = update p f db.emails)
    (hf : ∀ r, ((f r).id, (f r).accountId, (f r).threadId) = (r.id, r.accountId, r.threadId)) :
    db'.placements = db.placements := by
  rw [placements, hemails]
  exact map_update (fun r => (r.id, r.accountId, r.threadId)) hf db.emails

theorem placements_ingested (db : MailDb) (g : IngestArgs) (m : MailboxId) :
    (db.ingested g m).placements =
      db.placements ++ [(g.emailId, g.accountId, (db.joinedThread g).getD g.threadId)] :=
  List.map_append

/-- An ingest adds a row to `threads` if it joins none. -/
theorem threadIds_ingested (db : MailDb) (g : IngestArgs) (m : MailboxId) :
    (db.ingested g m).threads.map (·.id) = match db.joinedThread g with
      | some _ => db.threads.map (·.id)
      | none => db.threads.map (·.id) ++ [g.threadId] := by
  let db₁ := db.bumpedForIngest g.accountId
  change (db₁.touchThread g.accountId (db.joinedThread g) g.threadId _).threads.map (·.id) = _
  cases db.joinedThread g with
  | none => exact List.map_append
  | some t =>
    exact map_update (·.id)
      (f := ({ · with updatedModseq := db.modseq g.accountId .thread + 1 })) (fun _ => rfl)
      db.threads

end MailDb

section Steps

variable {U : Unicode} {db db' : MailDb} {op : MailOp}

/-- What an ingest returns, and what it needed. -/
theorem ingestTx_result {io : Io} {g : IngestArgs} {r : Ingested}
    (h : ingestTx io g db = .ok (r, db')) :
    r.1 = (g.emailId, (db.joinedThread g).getD g.threadId, g.raw.blobId) ∧
      (∀ m, (.thread, m) ∈ r.2 → m = db.modseq g.accountId .thread + 1) ∧
      (∃ m, db.targetMailbox g.accountId g.target = some m) ∧ ∀ n < 10, io n := by
  simp only [ingestTx, Tx.bind_eq_ok, Tx.query_eq_ok, Tx.require_eq_ok, bump_eq_ok,
    Tx.exec_eq_ok, Tx.pure_eq_ok, Tx.okOr_eq_ok] at h
  obtain ⟨_, _, ⟨h0, rfl, rfl⟩, mailboxId, _, ⟨hmb, rfl⟩, _, _, ⟨h1, rfl, rfl⟩, h⟩ := h
  obtain ⟨_, _, ⟨h2, -, rfl, rfl⟩, _, _, ⟨h3, -, rfl, rfl⟩, _, _, ⟨h4, -, rfl, rfl⟩, h⟩ := h
  obtain ⟨_, _, ⟨h5, rfl, rfl⟩, _, _, ⟨-, rfl⟩, _, _, ⟨-, rfl⟩, _, _, ⟨-, rfl⟩, h⟩ := h
  obtain ⟨_, _, ⟨h6, rfl⟩, _, _, ⟨h7, rfl⟩, _, _, ⟨h8, rfl⟩, _, _, ⟨h9, rfl⟩, rfl, rfl⟩ := h
  refine ⟨rfl, fun m hm => ?_, ⟨mailboxId, hmb⟩, fun n hn => ?_⟩
  · have hm : m = (db.bumped g.accountId .email).modseq g.accountId .thread + 1 := by
      simpa using hm
    rw [hm, MailDb.modseq_bumped_of_ne _ (by decide)]
  · interval_cases n <;> assumption

/-- A call other than an ingest leaves the placements and the ids of the threads. -/
theorem placements_effect (h : MailEffect U db op db') :
    (∃ io g m, op = .ingest io g ∧ db' = db.ingested g m) ∨
      db'.placements = db.placements ∧ db'.threads = db.threads := by
  cases h with
  | @ingest io g m _ _ _ _ _ _ => exact .inl ⟨io, g, m, rfl, rfl⟩
  | setPgpStatus _ => exact .inr ⟨MailDb.placements_update rfl fun _ => rfl, rfl⟩
  | setSpamVerdict => exact .inr ⟨MailDb.placements_update rfl fun _ => rfl, rfl⟩
  | markIndexed => exact .inr ⟨MailDb.placements_update rfl fun _ => rfl, rfl⟩
  | @updateEmail io a e ks ms _ _ _ _ =>
    refine .inr ⟨?_, ?_⟩
    · refine MailDb.placements_update (f := ({ · with updatedModseq := db.modseq a .email + 1 }))
        (p := fun r => r.id = e) ?_ fun _ => rfl
      exact congrArg (update _ _) (MailDb.edited_emails db U e ks ms)
    · cases ks <;> cases ms <;> rfl
  | setEmailAttribute _ _ => exact .inr ⟨MailDb.placements_update rfl fun _ => rfl, rfl⟩
  | dismissEmailAttribute _ _ => exact .inr ⟨MailDb.placements_update rfl fun _ => rfl, rfl⟩
  | createAccount _ _ _ => exact .inr ⟨rfl, rfl⟩
  | putBlob _ => exact .inr ⟨rfl, rfl⟩
  | linkContact _ => exact .inr ⟨rfl, rfl⟩

end Steps

/-! ## The thread of an ingest -/

section Joining

variable {U : Unicode} {db db' : MailDb} {g : IngestArgs}

/-- The account has a message of that Message-ID. -/
def MailDb.HasMessage (db : MailDb) (a : AccountId) (ref : String) : Prop :=
  ∃ e ∈ db.emails, e.accountId = a ∧ e.messageId = some ref

/-- **The thread of a new message**: the one of a message that the first matching reference names,
and a new one exactly if no reference matches. -/
structure JoinsFirst (db : MailDb) (g : IngestArgs) (t : ThreadId) : Prop where
  joins : ∀ before ref after, (parseMeta g.raw.parsed).references = before ++ ref :: after →
    (∀ r ∈ before, ¬db.HasMessage g.accountId r) → db.HasMessage g.accountId ref →
    ∃ e ∈ db.emails, e.accountId = g.accountId ∧ e.messageId = some ref ∧ e.threadId = t
  starts : t ∉ db.threads.map (·.id) ↔
    ∀ ref ∈ (parseMeta g.raw.parsed).references, ¬db.HasMessage g.accountId ref

/-- The newest message that a reference names. -/
def MailDb.namedBy (db : MailDb) (a : AccountId) (ref : String) : Option EmailsRow :=
  (orderBy (fun r => -r.receivedAt)
    (db.emails.filter fun r => r.accountId = a ∧ r.messageId = some ref)).head?

theorem joinedThread_eq (db : MailDb) (g : IngestArgs) : db.joinedThread g =
    (parseMeta g.raw.parsed).references.findSome? fun ref =>
      (db.namedBy g.accountId ref).map (·.threadId) := rfl

theorem mem_of_namedBy {a : AccountId} {ref : String} {e : EmailsRow}
    (h : db.namedBy a ref = some e) :
    e ∈ db.emails ∧ e.accountId = a ∧ e.messageId = some ref := by
  have hmem := mem_orderBy.mp (List.mem_of_head? h)
  simpa [List.mem_filter] using hmem

theorem namedBy_eq_none {a : AccountId} {ref : String} :
    db.namedBy a ref = none ↔ ¬db.HasMessage a ref := by
  constructor
  · rintro hnone ⟨e, he, hown, hid⟩
    have hempty := List.head?_eq_none_iff.mp hnone
    have hmem : e ∈ orderBy (fun r => -r.receivedAt)
        (db.emails.filter fun r => r.accountId = a ∧ r.messageId = some ref) :=
      mem_orderBy.mpr (List.mem_filter.mpr ⟨he, decide_eq_true ⟨hown, hid⟩⟩)
    rw [hempty] at hmem
    cases hmem
  · intro hnot
    rcases hnamed : db.namedBy a ref with _ | e
    · rfl
    · obtain ⟨he, hown, hid⟩ := mem_of_namedBy hnamed
      exact absurd ⟨e, he, hown, hid⟩ hnot

/-- The first reference that matches decides. -/
theorem joinedThread_of_first {before after : List String} {ref : String} {e : EmailsRow}
    (hrefs : (parseMeta g.raw.parsed).references = before ++ ref :: after)
    (hbefore : ∀ r ∈ before, ¬db.HasMessage g.accountId r)
    (hnamed : db.namedBy g.accountId ref = some e) : db.joinedThread g = some e.threadId := by
  rw [joinedThread_eq, hrefs, List.findSome?_append, List.findSome?_eq_none_iff.mpr,
    Option.none_or, List.findSome?_cons, hnamed]
  · rfl
  · intro r hr
    rw [namedBy_eq_none.mpr (hbefore r hr)]
    rfl

/-- An ingest joins no thread if no reference matches. -/
theorem joinedThread_eq_none : db.joinedThread g = none ↔
    ∀ ref ∈ (parseMeta g.raw.parsed).references, ¬db.HasMessage g.accountId ref := by
  rw [joinedThread_eq, List.findSome?_eq_none_iff]
  simp only [Option.map_eq_none_iff, namedBy_eq_none]

/-- **The thread of an ingest**, from the messages stored before it. -/
theorem ingestTx_joins {io : Io} {r : Ingested} (h : MailInv U db)
    (hrun : ingestTx io g db = .ok (r, db')) : JoinsFirst db g r.1.2.1 := by
  obtain ⟨hr, -⟩ := ingestTx_result hrun
  rw [hr]
  refine ⟨fun before ref after hrefs hbefore hmatch => ?_, ?_⟩
  · rcases hnamed : db.namedBy g.accountId ref with _ | e
    · exact absurd hmatch (namedBy_eq_none.mp hnamed)
    · obtain ⟨he, hown, hid⟩ := mem_of_namedBy hnamed
      rw [joinedThread_of_first hrefs hbefore hnamed]
      exact ⟨e, he, hown, hid, rfl⟩
  · rw [← joinedThread_eq_none]
    cases hjoined : db.joinedThread g with
    | none =>
      cases ingestTx_ok (U := U) hrun with
      | ingest _ _ _ _ hthread _ => exact iff_of_true (hthread hjoined) rfl
    | some t =>
      obtain ⟨s, hs, rfl, -⟩ := h.resolveThread_owned hjoined
      exact iff_of_false (fun hnot => hnot (List.mem_map.mpr ⟨s, hs, rfl⟩)) nofun

end Joining

/-! ## Runs -/

section Histories

variable (U : Unicode)

/-- The tables after a run of calls from a new file. -/
def MailDb.afterCalls (ops : List MailOp) : MailDb := Runs.run (mailStep U) .empty ops

/-- An ingest of a run that went through: the tables before it, and what it returned. -/
def IngestedIn (ops : List MailOp) (before : MailDb) (g : IngestArgs) (r : Ingested) : Prop :=
  ∃ pre io post db', ops = pre ++ .ingest io g :: post ∧ MailDb.afterCalls U pre = before ∧
    ingestTx io g before = .ok (r, db')

/-- **Threads after a run of calls.** -/
structure Threaded (ops : List MailOp) : Prop where
  /-- each ingest joined the thread of the first match, or started one -/
  joins : ∀ before g r, IngestedIn U ops before g r → JoinsFirst before g r.1.2.1
  /-- the emails are those that were ingested, in the threads they were put in -/
  ingested : ∀ e ∈ (MailDb.afterCalls U ops).emails, ∃ before g r, IngestedIn U ops before g r ∧
    r.1.1 = e.id ∧ g.accountId = e.accountId ∧ r.1.2.1 = e.threadId
  /-- threads never mix accounts -/
  apart : ∀ e ∈ (MailDb.afterCalls U ops).emails, ∀ e' ∈ (MailDb.afterCalls U ops).emails,
    e.threadId = e'.threadId → e.accountId = e'.accountId
  /-- every thread has an email -/
  used : ∀ t ∈ (MailDb.afterCalls U ops).threads,
    ∃ e ∈ (MailDb.afterCalls U ops).emails, e.threadId = t.id
  /-- every email's thread is there, stamped no earlier than by any ingest into it -/
  stamped : ∀ e ∈ (MailDb.afterCalls U ops).emails, ∃ t ∈ (MailDb.afterCalls U ops).threads,
    t.id = e.threadId ∧ t.accountId = e.accountId ∧
    ∀ before g r, IngestedIn U ops before g r → r.1.2.1 = t.id →
      ∀ m, (.thread, m) ∈ r.2 → m ≤ t.updatedModseq

variable {U} {ops : List MailOp} {op : MailOp} {before : MailDb} {g : IngestArgs} {r : Ingested}

theorem mailInv_afterCalls (ops : List MailOp) : MailInv U (MailDb.afterCalls U ops) :=
  MailInv.empty.run ops

theorem afterCalls_concat (ops : List MailOp) (op : MailOp) :
    MailDb.afterCalls U (ops ++ [op]) = mailStep U (MailDb.afterCalls U ops) op :=
  Runs.run_append _ ops [op]

theorem IngestedIn.concat (h : IngestedIn U ops before g r) (op : MailOp) :
    IngestedIn U (ops ++ [op]) before g r := by
  obtain ⟨pre, io, post, db', rfl, hbefore, hrun⟩ := h
  exact ⟨pre, io, post ++ [op], db', by simp, hbefore, hrun⟩

/-- A call leaves the placements and the ids of the threads, or is an ingest that goes through. -/
theorem placements_step (db : MailDb) (op : MailOp) :
    (∃ io g m r, op = .ingest io g ∧ ingestTx io g db = .ok (r, mailStep U db op) ∧
      mailStep U db op = db.ingested g m) ∨
    (mailStep U db op).placements = db.placements ∧
      (mailStep U db op).threads = db.threads := by
  rcases mailStep_spec U db op with heq | heff
  · rw [heq]
    exact .inr ⟨rfl, rfl⟩
  rcases placements_effect heff with ⟨io, g, m, rfl, hdb⟩ | hsame
  · rcases hrun : ingestTx io g db with e | ⟨r, db'⟩
    · have hstep : mailStep U db (.ingest io g) = db := by
        simp [mailStep, transaction, hrun]
      rw [hstep]
      exact .inr ⟨rfl, rfl⟩
    · have hstep : mailStep U db (.ingest io g) = db' := by
        simp [mailStep, transaction, hrun]
      exact .inl ⟨io, g, m, r, rfl, by rw [hstep, hrun], hdb⟩
  · exact .inr hsame

/-- The placements are those of the ingests that went through. -/
theorem placements_ingestedIn (ops : List MailOp) :
    ∀ x ∈ (MailDb.afterCalls U ops).placements, ∃ before g r, IngestedIn U ops before g r ∧
      x = (r.1.1, g.accountId, r.1.2.1) := by
  induction ops using List.reverseRecOn with
  | nil => exact fun _ hx => nomatch hx
  | append_singleton ops op ih =>
    intro x hx
    rw [afterCalls_concat] at hx
    have hold : x ∈ (MailDb.afterCalls U ops).placements → ∃ before g r,
        IngestedIn U (ops ++ [op]) before g r ∧ x = (r.1.1, g.accountId, r.1.2.1) := by
      intro hx
      obtain ⟨before, g, r, hin, rfl⟩ := ih x hx
      exact ⟨before, g, r, hin.concat op, rfl⟩
    rcases placements_step (U := U) (MailDb.afterCalls U ops) op with
      ⟨io, g, m, r, rfl, hrun, hdb⟩ | ⟨hsame, -⟩
    · rw [hdb, MailDb.placements_ingested] at hx
      rcases List.mem_append.mp hx with hx | hx
      · exact hold hx
      · obtain rfl := List.mem_singleton.mp hx
        refine ⟨_, g, r, ⟨ops, io, [], _, rfl, rfl, hrun⟩, ?_⟩
        rw [(ingestTx_result hrun).1]
    · rw [hsame] at hx
      exact hold hx

/-- Every thread of the run has an email. -/
theorem thread_used (ops : List MailOp) : ∀ t ∈ (MailDb.afterCalls U ops).threads.map (·.id),
    ∃ x ∈ (MailDb.afterCalls U ops).placements, x.2.2 = t := by
  induction ops using List.reverseRecOn with
  | nil => exact fun _ ht => nomatch ht
  | append_singleton ops op ih =>
    rw [afterCalls_concat]
    intro t ht
    rcases placements_step (U := U) (MailDb.afterCalls U ops) op with
      ⟨io, g, m, r, rfl, -, hdb⟩ | ⟨hsame, hthreads⟩
    · have hold : t ∈ (MailDb.afterCalls U ops).threads.map (·.id) →
          ∃ x ∈ ((MailDb.afterCalls U ops).ingested g m).placements, x.2.2 = t := by
        intro ht
        obtain ⟨x, hx, hxt⟩ := ih t ht
        rw [MailDb.placements_ingested]
        exact ⟨x, List.mem_append_left _ hx, hxt⟩
      rw [hdb, MailDb.threadIds_ingested] at ht
      rw [hdb]
      cases hjoined : (MailDb.afterCalls U ops).joinedThread g with
      | some s =>
        rw [hjoined] at ht
        exact hold ht
      | none =>
        rw [hjoined] at ht
        rcases List.mem_append.mp ht with ht | ht
        · exact hold ht
        -- the thread the email starts
        · rw [MailDb.placements_ingested, hjoined]
          exact ⟨_, List.mem_append_right _ (List.mem_singleton_self _),
            (List.mem_singleton.mp ht).symm⟩
    · rw [hthreads] at ht
      rw [hsame]
      exact ih t ht

/-- **The thread of an ingest** is stamped no earlier than by it, ever after. -/
theorem IngestedIn.stamped (h : IngestedIn U ops before g r) :
    ∃ t ∈ (MailDb.afterCalls U ops).threads, t.id = r.1.2.1 ∧ t.accountId = g.accountId ∧
      ∀ m, (.thread, m) ∈ r.2 → m ≤ t.updatedModseq := by
  obtain ⟨pre, io, post, db', rfl, rfl, hrun⟩ := h
  obtain ⟨hr, hseq, -⟩ := ingestTx_result hrun
  have hinv : MailInv U (MailDb.afterCalls U pre) := mailInv_afterCalls pre
  have hstep : mailStep U (MailDb.afterCalls U pre) (.ingest io g) = db' := by
    simp [mailStep, transaction, hrun]
  have hafter : MailDb.afterCalls U (pre ++ .ingest io g :: post) =
      Runs.run (mailStep U) db' post := by
    rw [MailDb.afterCalls, Runs.run_append, Runs.run_cons]
    exact congrArg (Runs.run (mailStep U) · post) hstep
  have hinv' : MailInv U db' := hstep ▸ hinv.step (.ingest io g)
  cases ingestTx_ok (U := U) hrun with
  | @ingest _ _ m _ _ _ _ _ _ =>
    obtain ⟨-, s, hs, hid, hown, hup⟩ := stamped_thread hinv g m
    obtain ⟨s', hs', hid', hown', hle⟩ := RowsLe.run hinv' post .thread s hs
    obtain ⟨t, ht, rfl⟩ := List.mem_map.mp hs'
    rw [hafter]
    refine ⟨t, ht, ?_, hown'.trans hown, fun m' hm' => ?_⟩
    · rw [hr]
      exact congrArg ThreadId.mk (hid'.trans hid)
    · rw [hseq m' hm']
      rw [hup, MailDb.modseq_ingested, MailDb.modseq_bumpedForIngest _ _ (by decide)] at hle
      exact hle

/-- **Threads are sound** after every run of calls. -/
theorem threaded_run (ops : List MailOp) : Threaded U ops := by
  have hinv : MailInv U (MailDb.afterCalls U ops) := mailInv_afterCalls ops
  have hkeys : ((MailDb.afterCalls U ops).threads.map (·.id)).Nodup := by
    have hnd := hinv.keys .thread
    rw [MailDb.ids_thread] at hnd
    refine List.Nodup.of_map ThreadId.uuid ?_
    rw [List.map_map]
    exact hnd
  refine ⟨fun before g r h => ?_, fun e he => ?_, fun e he e' he' hthread => ?_, fun t ht => ?_,
    fun e he => ?_⟩
  · obtain ⟨pre, io, post, db', rfl, rfl, hrun⟩ := h
    exact ingestTx_joins (mailInv_afterCalls pre) hrun
  · obtain ⟨before, g, r, hin, hx⟩ := placements_ingestedIn ops _ (MailDb.mem_placements he)
    simp only [Prod.mk.injEq] at hx
    exact ⟨before, g, r, hin, hx.1.symm, hx.2.1.symm, hx.2.2.symm⟩
  · obtain ⟨t, ht, hid, hown⟩ := hinv.emailThread e he
    obtain ⟨t', ht', hid', hown'⟩ := hinv.emailThread e' he'
    obtain rfl := eq_of_key_eq hkeys ht ht' (hid.trans (hthread.trans hid'.symm))
    exact hown.symm.trans hown'
  · obtain ⟨x, hx, hxt⟩ := thread_used ops t.id (List.mem_map.mpr ⟨t, ht, rfl⟩)
    obtain ⟨e, he, rfl⟩ := List.mem_map.mp hx
    exact ⟨e, he, hxt⟩
  · obtain ⟨t, ht, hid, hown⟩ := hinv.emailThread e he
    refine ⟨t, ht, hid, hown, fun before g r hin hthread m hm => ?_⟩
    obtain ⟨t', ht', hid', -, hle⟩ := hin.stamped
    obtain rfl := eq_of_key_eq hkeys ht ht' (hthread.symm.trans hid'.symm)
    exact hle m hm

end Histories

/-! ## An ingest that fails -/

/-- An `ingest_email_into`, with what is decided outside about each of its storage calls. -/
structure IngestCall where
  args : IngestArgs
  putIo : Io
  io : Io
  linkIo : Io
  contactId : ContactId

namespace MailDb

/-- How often a blob is used; zero if it was never stored. -/
def useCount (db : MailDb) (b : BlobId) : ℤ :=
  ((db.blobs.find? (·.id = b)).map (·.refcount)).getD 0

/-- The messages, the states and the counts of the blobs are the same. -/
structure SameMail (db db' : MailDb) : Prop where
  emails : db'.emails = db.emails
  threads : db'.threads = db.threads
  emailKeyword : db'.emailKeyword = db.emailKeyword
  emailMailbox : db'.emailMailbox = db.emailMailbox
  modseq : ∀ a t, db'.modseq a t = db.modseq a t
  useCount : ∀ b, db'.useCount b = db.useCount b

theorem SameMail.refl (db : MailDb) : db.SameMail db :=
  ⟨rfl, rfl, rfl, rfl, fun _ _ => rfl, fun _ => rfl⟩

end MailDb

section Failing

variable (U : Unicode)

/-- The blob of an ingest is recorded. -/
def IngestCall.put (c : IngestCall) : Tx MailDb Unit :=
  putBlobTx c.putIo c.args.raw.blobId c.args.raw.size c.args.now

/-- The sender of an ingest becomes a contact; a failure is only logged. -/
def IngestCall.link (c : IngestCall) (db : MailDb) : MailDb :=
  match (parseMeta c.args.raw.parsed).fromAddr with
  | none => db
  | some fromAddr =>
    let body : Tx MailDb Unit :=
      linkContactTx U c.linkIo c.args.accountId fromAddr c.contactId c.args.now
    (transaction body db).2

/-- `Storage::ingest_email_into`. -/
def IngestCall.run (c : IngestCall) (db : MailDb) :
    Except StorageError (EmailId × ThreadId × BlobId) × MailDb :=
  match transaction c.put db with
  | (.error e, db₁) => (.error e, db₁)
  | (.ok _, db₁) =>
    match transaction (ingestTx c.io c.args) db₁ with
    | (.error e, db₂) => (.error e, db₂)
    | (.ok (ingested, _), db₂) => (.ok ingested, c.link U db₂)

/-- The storage calls of an ingest. -/
def IngestCall.calls (c : IngestCall) : List MailOp :=
  [.putBlob c.putIo c.args.raw.blobId c.args.raw.size c.args.now, .ingest c.io c.args] ++
    ((parseMeta c.args.raw.parsed).fromAddr.map fun fromAddr =>
      .linkContact c.linkIo c.args.accountId fromAddr c.contactId c.args.now).toList

/-- **Atomic ingest.** An ingest is its storage calls up to the first that fails; without its
mailbox, or with a statement of its transaction that fails, it fails; and if it fails, it changes
no message, no state and no count. -/
structure AtomicIngest : Prop where
  calls : ∀ (c : IngestCall) db, ∃ n, Runs.run (mailStep U) db (c.calls.take n) = (c.run U db).2
  fails : ∀ (c : IngestCall) db,
    db.targetMailbox c.args.accountId c.args.target = none ∨ (∃ n < 10, ¬c.io n) →
    ∃ e, (c.run U db).1 = .error e
  unchanged : ∀ (c : IngestCall) db e, (c.run U db).1 = .error e → db.SameMail (c.run U db).2

variable {U} {db db' : MailDb} {c : IngestCall}

/-- A blob that was put is not used yet. -/
theorem put_ok {u : Unit} (h : c.put db = .ok (u, db')) :
    db.SameMail db' ∧ db'.mailboxes = db.mailboxes := by
  rw [IngestCall.put, putBlobTx, Tx.exec_eq_ok] at h
  obtain ⟨-, rfl⟩ := h
  split
  · exact ⟨.refl db, rfl⟩
  · refine ⟨⟨rfl, rfl, rfl, rfl, fun _ _ => rfl, fun b => ?_⟩, rfl⟩
    unfold MailDb.useCount
    dsimp only
    rw [List.find?_append]
    rcases hfind : db.blobs.find? (·.id = b) with _ | r
    · rw [hfind, Option.none_or, List.find?_singleton]
      split <;> rfl
    · rw [hfind, Option.some_or]

/-- An ingest is its storage calls, up to the first that fails. -/
theorem IngestCall.run_calls (U : Unicode) (c : IngestCall) (db : MailDb) :
    ∃ n, Runs.run (mailStep U) db (c.calls.take n) = (c.run U db).2 := by
  have hstep : mailStep U db (.putBlob c.putIo c.args.raw.blobId c.args.raw.size c.args.now) =
      (transaction c.put db).2 := by
    by_cases hio : c.putIo 0 = true <;>
      simp [mailStep, transaction, IngestCall.put, putBlobTx, Tx.exec, hio]
  rcases hput : c.put db with e | ⟨u, db₁⟩
  · refine ⟨1, ?_⟩
    simp [IngestCall.calls, IngestCall.run, hstep, transaction, hput]
  have hfirst : mailStep U db
      (.putBlob c.putIo c.args.raw.blobId c.args.raw.size c.args.now) = db₁ := by
    rw [hstep, transaction, hput]
  rcases hingest : ingestTx c.io c.args db₁ with e | ⟨r, db₂⟩
  · have hsecond : mailStep U db₁ (.ingest c.io c.args) = db₁ := by
      simp [mailStep, transaction, hingest]
    refine ⟨2, ?_⟩
    simp [IngestCall.calls, IngestCall.run, hfirst, hsecond, transaction, hput, hingest]
  · have hsecond : mailStep U db₁ (.ingest c.io c.args) = db₂ := by
      simp [mailStep, transaction, hingest]
    have hlink : c.link U db₂ = match (parseMeta c.args.raw.parsed).fromAddr with
        | none => db₂
        | some fromAddr => mailStep U db₂
            (.linkContact c.linkIo c.args.accountId fromAddr c.contactId c.args.now) := by
      unfold IngestCall.link
      split
      · rfl
      · by_cases hio : c.linkIo 0 = true <;>
          simp [mailStep, transaction, linkContactTx, Tx.exec, hio]
    refine ⟨3, ?_⟩
    have hrun : (c.run U db).2 = c.link U db₂ := by
      simp [IngestCall.run, transaction, hput, hingest]
    rw [hrun, hlink]
    unfold IngestCall.calls
    cases (parseMeta c.args.raw.parsed).fromAddr with
    | none => simp [hfirst, hsecond]
    | some fromAddr => simp [hfirst, hsecond]

/-- An ingest fails and changes nothing, or its transaction goes through. -/
theorem IngestCall.run_cases (U : Unicode) (c : IngestCall) (db : MailDb) :
    (∃ e, (c.run U db).1 = .error e ∧ db.SameMail (c.run U db).2) ∨
    ∃ r db₁ db₂, (c.run U db).1 = .ok r.1 ∧ db₁.mailboxes = db.mailboxes ∧
      ingestTx c.io c.args db₁ = .ok (r, db₂) := by
  rcases hput : c.put db with e | ⟨u, db₁⟩
  · have hrun : c.run U db = (.error e, db) := by
      simp [IngestCall.run, transaction, hput]
    rw [hrun]
    exact .inl ⟨e, rfl, .refl db⟩
  obtain ⟨hsame, hmailboxes⟩ := put_ok hput
  rcases hingest : ingestTx c.io c.args db₁ with e | ⟨r, db₂⟩
  · have hrun : c.run U db = (.error e, db₁) := by
      simp [IngestCall.run, transaction, hput, hingest]
    rw [hrun]
    exact .inl ⟨e, rfl, hsame⟩
  · have hrun : c.run U db = (.ok r.1, c.link U db₂) := by
      simp [IngestCall.run, transaction, hput, hingest]
    rw [hrun]
    exact .inr ⟨r, db₁, db₂, rfl, hmailboxes, hingest⟩

/-- **An ingest that fails** changes no message, no state and no count. -/
theorem atomicIngest (U : Unicode) : AtomicIngest U := by
  refine ⟨fun c db => c.run_calls U db, fun c db hbad => ?_, fun c db e herr => ?_⟩
  · rcases c.run_cases U db with ⟨e, herr, -⟩ | ⟨r, db₁, db₂, -, hmailboxes, hingest⟩
    · exact ⟨e, herr⟩
    · obtain ⟨-, -, ⟨m, hm⟩, hio⟩ := ingestTx_result hingest
      have htarget : db₁.targetMailbox c.args.accountId c.args.target =
          db.targetMailbox c.args.accountId c.args.target := by
        unfold MailDb.targetMailbox
        rw [hmailboxes]
      rcases hbad with hnone | ⟨n, hn, hfail⟩
      · rw [htarget, hnone] at hm
        cases hm
      · exact absurd (hio n hn) hfail
  · rcases c.run_cases U db with ⟨_, -, hsame⟩ | ⟨r, _, _, hok, -⟩
    · exact hsame
    · rw [hok] at herr
      cases herr

end Failing

/-- **Threading and atomic ingest**, for every run of calls. -/
theorem threading_and_atomicity (U : Unicode) (ops : List MailOp) :
    Threaded U ops ∧ AtomicIngest U :=
  ⟨threaded_run ops, atomicIngest U⟩

end Owney
