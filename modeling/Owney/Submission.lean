import Owney.Lib.Attempts
import Owney.Lib.Runs
import Owney.MailSpec
import Owney.PgpPipeline
import Owney.Queue

/-!
# Submitting a message

`DeliveryService::submit_with_priority` of the crate `owney-delivery`: the message goes
through PGP and DKIM, its Sent copy through the ordinary ingest, and one row for each
recipient into the queue. Each storage call is committed on its own, so a call that fails
leaves behind what was done before it.

A submission is all or nothing exactly if, once its Sent copy is stored, every recipient can
be queued (`submittedOnce_iff`).
-/

namespace Owney

open Tables Attempts

/-! ## The service -/

/-- The tables a submission writes. -/
structure SubmitDb where
  mail : MailDb
  queue : QueueDb

/-- `DeliveryError`, as far as a submission returns it. -/
inductive DeliveryError where
  | temporary (msg : String)
  | dkim (msg : String)
  | storage (e : StorageError)
  deriving DecidableEq

/-- The arguments. -/
structure Submission where
  accountId : AccountId
  mailFrom : String
  recipients : List String
  raw : List UInt8
  chatMode : Bool

/-- What a submission draws from outside; `others n` is what other tasks do to the tables
before its `n`-th storage call, and what its PGP step does before the first. -/
structure SubmitCalls where
  unicode : Unicode
  /-- `pgp::pipeline::outbound` -/
  pgp : Submission → Except String (List UInt8)
  /-- `DkimKeys::sign` -/
  sign : List UInt8 → Except String String
  rawMessage : List UInt8 → RawMessage
  /-- whether the file store took the blob -/
  blobStored : Bool
  others : ℕ → SubmitDb → SubmitDb
  io : ℕ → Io
  emailId : EmailId
  threadId : ThreadId
  contactId : ContactId
  queueId : ℕ → Uuid
  now : ℤ

/-- A submission, or a part of it. -/
abbrev SubmitAttempt (α : Type) : Type := Attempt SubmitDb DeliveryError α

namespace SubmitCalls

variable (x : SubmitCalls) (g : Submission)

/-- The `n`-th storage call, on the mail tables. -/
def mailCall {α : Type} (n : ℕ) (body : Tx MailDb α) : SubmitAttempt α :=
  Attempt.call (x.others n) fun s =>
    ((transaction body s.mail).1.mapError .storage, { s with mail := (transaction body s.mail).2 })

/-- The `n`-th storage call, on the queue. -/
def queueCall {α : Type} (n : ℕ) (body : Tx QueueDb α) : SubmitAttempt α :=
  Attempt.call (x.others n) fun s =>
    ((transaction body s.queue).1.mapError .storage,
      { s with queue := (transaction body s.queue).2 })

/-- The bytes that are stored and sent: the signature's header, then the message. -/
def signed (header : String) (raw : List UInt8) : List UInt8 :=
  header.toUTF8.data.toList ++ raw

/-- The arguments of the ingest of the Sent copy. -/
def ingestArgs (bytes : List UInt8) : IngestArgs where
  accountId := g.accountId
  raw := x.rawMessage bytes
  target := .role "sent"
  authResults := none
  chatMode := false
  emailId := x.emailId
  threadId := x.threadId
  now := x.now

/-- The auto-link of the sender, whose failure is only logged. -/
def linkContact (a : IngestArgs) : SubmitAttempt PUnit :=
  match (parseMeta a.raw.parsed).fromAddr with
  | none => pure ⟨⟩
  | some fromAddr =>
    (x.mailCall 2 (linkContactTx x.unicode (x.io 2) a.accountId fromAddr x.contactId x.now)).ignore

/-- `Storage::ingest_email`: the blob, the ingest transaction, the contact. -/
def ingestEmail (a : IngestArgs) : SubmitAttempt BlobId := do
  Attempt.ofExcept (if x.blobStored then .ok ⟨⟩ else .error (.storage .io))
  x.mailCall 0 (putBlobTx (x.io 0) a.raw.blobId a.raw.size x.now)
  let ingested ← x.mailCall 1 (ingestTx (x.io 1) a)
  x.linkContact a
  return ingested.1.2.2

/-- The arguments of the `n`-th recipient's `enqueue_with_priority`. -/
def enqueueArgs (blobId : BlobId) (n : ℕ) (recipient : String) : EnqueueArgs where
  accountId := g.accountId
  blobId := blobId
  mailFrom := g.mailFrom
  recipient := recipient
  priority := if g.chatMode then 1 else 0
  id := x.queueId n
  now := x.now

/-- The `n`-th recipient. -/
def enqueue (blobId : BlobId) (n : ℕ) (recipient : String) : SubmitAttempt QueueItem :=
  x.queueCall (n + 3) (enqueueTx x.unicode (x.io (n + 3)) (x.enqueueArgs g blobId n recipient))

/-- The loop from the `n`-th recipient on. -/
def enqueueAll (blobId : BlobId) : ℕ → List String → SubmitAttempt (List Uuid)
  | _, [] => pure []
  | n, recipient :: recipients => do
    let item ← x.enqueue g blobId n recipient
    let queued ← enqueueAll blobId (n + 1) recipients
    return item.id :: queued

/-- `DeliveryService::submit_with_priority`. -/
def submitWithPriority : SubmitAttempt (List Uuid) := do
  let raw ← Attempt.ofExcept ((x.pgp g).mapError fun e => .temporary ("pgp: " ++ e))
  let header ← Attempt.ofExcept ((x.sign raw).mapError .dkim)
  let blobId ← x.ingestEmail (x.ingestArgs g (signed header raw))
  x.enqueueAll g blobId 0 g.recipients

end SubmitCalls

/-! ## All or nothing -/

/-- The rows that the effects added to the queue. -/
def newRows (effects : List (Effect SubmitDb)) : List QueueRow :=
  effects.flatMap fun e => e.after.queue.filter fun r => r.id ∉ e.before.queue.map (·.id)

/-- No effect changed the queue or the messages. -/
def NothingSent (effects : List (Effect SubmitDb)) : Prop :=
  ∀ e ∈ effects, e.after.queue = e.before.queue ∧ e.after.mail.emails = e.before.mail.emails

/-- One of the effects stored a message with the blob in the account's Sent mailbox. -/
def SentCopy (effects : List (Effect SubmitDb)) (a : AccountId) (blobId : BlobId) : Prop :=
  ∃ e ∈ effects, ∃ row mailbox, row ∈ e.after.mail.emails ∧
    row.id ∉ e.before.mail.emails.map (·.id) ∧ row.accountId = a ∧ row.blobId = blobId ∧
    e.before.mail.targetMailbox a (.role "sent") = some mailbox ∧
    ⟨row.id, mailbox⟩ ∈ e.after.mail.emailMailbox

section Tries

variable (g : Submission)

/-- The state after a try. -/
def submitStep (s : SubmitDb) (x : SubmitCalls) : SubmitDb := last s (x.submitWithPriority g s).2

/-- The effects of some tries, in order. -/
def submitEffects : SubmitDb → List SubmitCalls → List (Effect SubmitDb)
  | _, [] => []
  | s, x :: xs => (x.submitWithPriority g s).2 ++ submitEffects (submitStep g s x) xs

/-- **One try.** If it fails, nothing was queued and no copy stored. If it succeeds, the signed
message is stored, and there is one new row for each recipient in the list, with the id that is
returned for it and the message's blob. -/
structure AllOrNothing (s : SubmitDb) (x : SubmitCalls) : Prop where
  nothing : ∀ e effects, x.submitWithPriority g s = (.error e, effects) → NothingSent effects
  all : ∀ ids effects, x.submitWithPriority g s = (.ok ids, effects) →
    ∃ raw header, x.pgp g = .ok raw ∧ x.sign raw = .ok header ∧
      SentCopy effects g.accountId (x.rawMessage (SubmitCalls.signed header raw)).blobId ∧
      (newRows effects).map (·.recipient) = g.recipients ∧ (newRows effects).map (·.id) = ids ∧
      ∀ r ∈ newRows effects, r.accountId = g.accountId ∧ r.mailFrom = g.mailFrom ∧
        r.blobId = (x.rawMessage (SubmitCalls.signed header raw)).blobId

/-- A try that failed. -/
def SubmitFailed (s : SubmitDb) (x : SubmitCalls) : Prop :=
  ∃ e, (x.submitWithPriority g s).1 = .error e

/-- **Submitted once.** Each try is all or nothing; and a client that tries again until it
succeeds has queued the message once for each recipient. -/
def SubmittedOnce (s : SubmitDb) (tries : List SubmitCalls) : Prop :=
  Runs.Meets (submitStep g) (AllOrNothing g) s tries ∧
  ∀ failed x rest ids, tries = failed ++ x :: rest →
    Runs.Meets (submitStep g) (SubmitFailed g) s failed →
    (x.submitWithPriority g (Runs.run (submitStep g) s failed)).1 = .ok ids →
    (newRows (submitEffects g s (failed ++ [x]))).map (·.recipient) = g.recipients

/-- Each recipient can be queued, from the `n`-th on: it has an `@`, its insert does not fail,
and its id is not taken. -/
def QueuesAll (x : SubmitCalls) (blobId : BlobId) : ℕ → List String → SubmitDb → Prop
  | _, [], _ => True
  | n, recipient :: recipients, s =>
    ('@' ∈ recipient.toList ∧ x.io (n + 3) 0 ∧
      x.queueId n ∉ (x.others (n + 3) s).queue.map (·.id)) ∧
    QueuesAll x blobId (n + 1) recipients (last s (x.enqueue g blobId n recipient s).2)

/-- **When a try is all or nothing**: if the message can be signed and its Sent copy stored,
then every recipient can be queued. -/
def QueuesStored (s : SubmitDb) (x : SubmitCalls) : Prop :=
  ∀ raw header blobId effects, x.pgp g = .ok raw → x.sign raw = .ok header →
    x.ingestEmail (x.ingestArgs g (SubmitCalls.signed header raw)) s = (.ok blobId, effects) →
    QueuesAll g x blobId 0 g.recipients (last s effects)

end Tries

/-! ## What the calls did -/

theorem NothingSent.nil : NothingSent [] := fun _ he => absurd he List.not_mem_nil

theorem NothingSent.append {l l' : List (Effect SubmitDb)} (h : NothingSent l)
    (h' : NothingSent l') : NothingSent (l ++ l') := by
  intro e he
  rcases List.mem_append.mp he with he | he
  · exact h e he
  · exact h' e he

@[simp] theorem newRows_nil : newRows [] = [] := rfl

@[simp] theorem newRows_append (l l' : List (Effect SubmitDb)) :
    newRows (l ++ l') = newRows l ++ newRows l' := List.flatMap_append

/-- Effects that leave the queue alone add no row. -/
theorem newRows_of_same {effects : List (Effect SubmitDb)}
    (h : ∀ e ∈ effects, e.after.queue = e.before.queue) : newRows effects = [] := by
  refine List.flatMap_eq_nil_iff.mpr fun e he => List.filter_eq_nil_iff.mpr fun r hr => ?_
  rw [h e he] at hr
  simpa using ⟨r, hr, rfl⟩

/-- An effect that added a row with a fresh id. -/
theorem newRows_insert {s : SubmitDb} {row : QueueRow} (h : row.id ∉ s.queue.map (·.id)) :
    newRows [⟨s, { s with queue := s.queue ++ [row] }⟩] = [row] := by
  have hold : (s.queue.filter fun r => r.id ∉ s.queue.map (·.id)) = [] :=
    List.filter_eq_nil_iff.mpr fun r hr => by simpa using ⟨r, hr, rfl⟩
  have hnew : ([row].filter fun r => r.id ∉ s.queue.map (·.id)) = [row] := by
    simpa using h
  simp only [newRows, List.flatMap_cons, List.flatMap_nil, List.append_nil, List.filter_append]
  rw [hold, hnew, List.nil_append]

theorem rsplitOnce_eq_none {c : Char} {s : String} : rsplitOnce c s = none ↔ c ∉ s.toList := by
  simp [rsplitOnce]

/-- When a recipient is queued, and what its row is. -/
theorem enqueueTx_eq_ok {U : Unicode} {io : Io} {g : EnqueueArgs} {queue queue' : QueueDb}
    {item : QueueItem} : enqueueTx U io g queue = .ok (item, queue') ↔
      ∃ parts, rsplitOnce '@' g.recipient = some parts ∧ io 0 ∧ g.id ∉ queue.map (·.id) ∧
        (g.row (U.toLowercase parts.2)).item = item ∧
        queue ++ [g.row (U.toLowercase parts.2)] = queue' := by
  simp only [enqueueTx, Tx.bind_eq_ok, Tx.okOr_eq_ok, Tx.query_eq_ok, Tx.require_eq_ok,
    Tx.exec_eq_ok, Tx.pure_eq_ok]
  constructor
  · rintro ⟨parts, _, ⟨hparts, rfl⟩, _, _, ⟨hio, rfl, rfl⟩, _, _, ⟨hid, rfl⟩, _, _, ⟨-, rfl⟩,
      hitem, hqueue⟩
    exact ⟨parts, hparts, hio, hid, hitem, hqueue⟩
  · rintro ⟨parts, hparts, hio, hid, hitem, hqueue⟩
    exact ⟨parts, _, ⟨hparts, rfl⟩, _, _, ⟨hio, rfl, rfl⟩, ⟨⟩, _, ⟨hid, rfl⟩, ⟨⟩, _,
      ⟨hio, rfl⟩, hitem, hqueue⟩

namespace SubmitCalls

variable {x : SubmitCalls} {g : Submission} {s : SubmitDb} {effects : List (Effect SubmitDb)}

section Calls

variable {α : Type} {n : ℕ}

/-- A call on the mail tables commits what its body did or changes nothing. -/
theorem mailCall_cases (x : SubmitCalls) (n : ℕ) (body : Tx MailDb α) (s : SubmitDb) :
    (∃ e, x.mailCall n body s = (.error e, [⟨x.others n s, x.others n s⟩])) ∨
      ∃ v mail, body (x.others n s).mail = .ok (v, mail) ∧
        x.mailCall n body s = (.ok v, [⟨x.others n s, { x.others n s with mail := mail }⟩]) := by
  rcases transaction_cases body (x.others n s).mail with ⟨e, h⟩ | ⟨v, mail, hbody, h⟩
  · left
    refine ⟨.storage e, ?_⟩
    simp [mailCall, Attempt.call, h, Except.mapError]
  · right
    refine ⟨v, mail, hbody, ?_⟩
    simp [mailCall, Attempt.call, h, Except.mapError]

/-- A call whose body keeps the messages sends nothing, whether it fails or not. -/
theorem mailCall_nothing {body : Tx MailDb α}
    (hbody : ∀ db v db', body db = .ok (v, db') → db'.emails = db.emails) (s : SubmitDb) :
    NothingSent (x.mailCall n body s).2 := by
  rcases x.mailCall_cases n body s with ⟨_, h⟩ | ⟨v, mail, hok, h⟩ <;> rw [h]
  · intro e he
    rw [List.mem_singleton.mp he]
    exact ⟨rfl, rfl⟩
  · intro e he
    rw [List.mem_singleton.mp he]
    exact ⟨rfl, hbody _ _ _ hok⟩

/-- A call on the queue commits what its body did or changes nothing. -/
theorem queueCall_cases (x : SubmitCalls) (n : ℕ) (body : Tx QueueDb α) (s : SubmitDb) :
    (∃ e, x.queueCall n body s = (.error e, [⟨x.others n s, x.others n s⟩]) ∧
      ∀ v queue, body (x.others n s).queue ≠ .ok (v, queue)) ∨
      ∃ v queue, body (x.others n s).queue = .ok (v, queue) ∧
        x.queueCall n body s = (.ok v, [⟨x.others n s, { x.others n s with queue := queue }⟩]) := by
  rcases hbody : body (x.others n s).queue with e | ⟨v, queue⟩
  · left
    refine ⟨.storage e, ?_, by simp⟩
    simp [queueCall, Attempt.call, transaction, hbody, Except.mapError]
  · right
    refine ⟨v, queue, rfl, ?_⟩
    simp [queueCall, Attempt.call, transaction, hbody, Except.mapError]

end Calls

/-! ### The Sent copy -/

theorem putBlob_nothing (x : SubmitCalls) (b : BlobId) (size : ℕ) (s : SubmitDb) :
    NothingSent (x.mailCall 0 (putBlobTx (x.io 0) b size x.now) s).2 := by
  refine mailCall_nothing (fun db v db' h => ?_) s
  rw [putBlobTx, Tx.exec_eq_ok] at h
  rw [← h.2]
  split <;> rfl

theorem linkContact_nothing (x : SubmitCalls) (a : IngestArgs) (s : SubmitDb) :
    NothingSent (x.linkContact a s).2 := by
  rcases hfrom : (parseMeta a.raw.parsed).fromAddr with _ | fromAddr
  · simp only [linkContact, hfrom]
    exact .nil
  · simp only [linkContact, hfrom]
    refine mailCall_nothing (fun db v db' h => ?_) s
    rw [linkContactTx, Tx.exec_eq_ok] at h
    rw [← h.2]
    dsimp only
    split <;> rfl

/-- The contact is never what fails. -/
theorem linkContact_ok (x : SubmitCalls) (a : IngestArgs) (s : SubmitDb) :
    x.linkContact a s = (.ok ⟨⟩, (x.linkContact a s).2) := by
  rcases hfrom : (parseMeta a.raw.parsed).fromAddr with _ | fromAddr
  · simp only [linkContact, hfrom]
    rfl
  · simp only [linkContact, hfrom]
    rfl

/-- An ingest that fails has stored no copy. -/
theorem ingestEmail_error {a : IngestArgs} {e : DeliveryError}
    (h : x.ingestEmail a s = (.error e, effects)) : NothingSent effects := by
  unfold ingestEmail at h
  rcases Attempt.error_bind.mp h with hfile | ⟨_, file, _, hfile, h₁, rfl⟩
  · obtain ⟨-, rfl⟩ := Attempt.ofExcept_eq.mp hfile
    exact .nil
  obtain ⟨-, rfl⟩ := Attempt.ofExcept_eq.mp hfile
  rw [last_nil] at h₁
  have hput := x.putBlob_nothing a.raw.blobId a.raw.size s
  rcases Attempt.error_bind.mp h₁ with hfail | ⟨_, put, _, hok, h₂, rfl⟩
  · rwa [hfail] at hput
  rw [hok] at hput
  rcases x.mailCall_cases 1 (ingestTx (x.io 1) a) (last s put) with ⟨e', hcall⟩ | ⟨v, db, -, hcall⟩
  · rw [Attempt.bind_of_error _ hcall] at h₂
    cases h₂
    refine hput.append fun e he => ?_
    rw [List.mem_singleton.mp he]
    exact ⟨rfl, rfl⟩
  · rw [Attempt.bind_of_ok _ hcall, Attempt.bind_of_ok _ (x.linkContact_ok a _)] at h₂
    cases h₂

/-- An ingest that succeeds has stored the copy, and left the queue alone. -/
theorem ingestEmail_ok {bytes : List UInt8} {blobId : BlobId}
    (h : x.ingestEmail (x.ingestArgs g bytes) s = (.ok blobId, effects)) :
    blobId = (x.rawMessage bytes).blobId ∧ SentCopy effects g.accountId blobId ∧
      ∀ e ∈ effects, e.after.queue = e.before.queue := by
  unfold ingestEmail at h
  obtain ⟨_, _, _, hfile, h₁, rfl⟩ := Attempt.ok_bind.mp h
  obtain ⟨-, rfl⟩ := Attempt.ofExcept_eq.mp hfile
  obtain ⟨_, put, _, hput, h₂, rfl⟩ := Attempt.ok_bind.mp h₁
  obtain ⟨ingested, ingest, _, hingest, h₃, rfl⟩ := Attempt.ok_bind.mp h₂
  obtain ⟨_, link, _, hlink, h₄, rfl⟩ := Attempt.ok_bind.mp h₃
  obtain ⟨rfl, rfl⟩ := Attempt.ok_pure.mp h₄
  rw [last_nil] at hput hingest hlink
  have hput0 : ∀ e ∈ put, e.after.queue = e.before.queue := by
    have := x.putBlob_nothing (x.ingestArgs g bytes).raw.blobId (x.ingestArgs g bytes).raw.size s
    rw [hput] at this
    exact fun e he => (this e he).1
  have hlink0 : ∀ e ∈ link, e.after.queue = e.before.queue := by
    have := x.linkContact_nothing (x.ingestArgs g bytes) (last (last s put) ingest)
    rw [hlink] at this
    exact fun e he => (this e he).1
  rcases x.mailCall_cases 1 (ingestTx (x.io 1) (x.ingestArgs g bytes)) (last s put) with
    ⟨e, hcall⟩ | ⟨v, db, hbody, hcall⟩
  · cases hcall.symm.trans hingest
  cases hcall.symm.trans hingest
  refine ⟨ingestTx_blobId hbody, ?_, ?_⟩
  · cases ingestTx_ok (U := x.unicode) hbody with
    | @ingest _ _ mailbox hmailbox _ _ _ _ hfresh =>
      refine ⟨_, List.mem_append_right _ (List.mem_append_right _ (List.mem_append_left _
        (List.mem_singleton.mpr rfl))), _, mailbox, List.mem_append_right _
        (List.mem_singleton.mpr rfl), hfresh, rfl, (ingestTx_blobId hbody).symm, hmailbox,
        List.mem_append_right _ (List.mem_singleton.mpr rfl)⟩
  · simp only [List.nil_append, List.append_nil, List.forall_mem_append, List.forall_mem_singleton]
    exact ⟨hput0, trivial, hlink0⟩

end SubmitCalls
/-! ### The queue -/

namespace SubmitCalls

section Queue

variable (x : SubmitCalls) (g : Submission) (blobId : BlobId)

/-- What is asked of a recipient's row. -/
structure RowFor (n : ℕ) (recipient : String) (r : QueueRow) : Prop where
  id : r.id = x.queueId n
  recipient : r.recipient = recipient
  accountId : r.accountId = g.accountId
  mailFrom : r.mailFrom = g.mailFrom
  blobId : r.blobId = blobId

/-- One recipient is queued, with one row, or the call fails. -/
theorem enqueue_cases (n : ℕ) (recipient : String) (s : SubmitDb) :
    ((∃ item row effects, x.enqueue g blobId n recipient s = (.ok item, effects) ∧
        item.id = x.queueId n ∧ newRows effects = [row] ∧ x.RowFor g blobId n recipient row) ∧
      '@' ∈ recipient.toList ∧ x.io (n + 3) 0 ∧
      x.queueId n ∉ (x.others (n + 3) s).queue.map (·.id)) ∨
    ((∃ e effects, x.enqueue g blobId n recipient s = (.error e, effects)) ∧
      ¬('@' ∈ recipient.toList ∧ x.io (n + 3) 0 ∧
        x.queueId n ∉ (x.others (n + 3) s).queue.map (·.id))) := by
  rcases x.queueCall_cases (n + 3) (enqueueTx x.unicode (x.io (n + 3))
    (x.enqueueArgs g blobId n recipient)) s with ⟨e, hcall, hno⟩ | ⟨item, queue, hbody, hcall⟩
  · refine .inr ⟨⟨e, _, hcall⟩, ?_⟩
    rintro ⟨hat, hio, hid⟩
    obtain ⟨parts, hparts⟩ :=
      Option.ne_none_iff_exists'.mp (rsplitOnce_eq_none.not.mpr (not_not.mpr hat))
    exact hno _ _ (enqueueTx_eq_ok.mpr ⟨parts, hparts, hio, hid, rfl, rfl⟩)
  · obtain ⟨parts, hparts, hio, hid, rfl, rfl⟩ := enqueueTx_eq_ok.mp hbody
    refine .inl ⟨⟨_, (x.enqueueArgs g blobId n recipient).row (x.unicode.toLowercase parts.2), _,
      hcall, rfl, ?_, ⟨rfl, rfl, rfl, rfl, rfl⟩⟩, ?_, hio, hid⟩
    · exact newRows_insert hid
    · by_contra hat
      cases (rsplitOnce_eq_none.mpr hat).symm.trans hparts

/-- The loop fails or goes through as its first recipient does, and then the rest. -/
theorem enqueueAll_cons (n : ℕ) (recipient : String) (recipients : List String) (s : SubmitDb) :
    (∃ e l, x.enqueue g blobId n recipient s = (.error e, l) ∧
      x.enqueueAll g blobId n (recipient :: recipients) s = (.error e, l)) ∨
    ∃ item l, x.enqueue g blobId n recipient s = (.ok item, l) ∧
      x.enqueueAll g blobId n (recipient :: recipients) s =
        ((x.enqueueAll g blobId (n + 1) recipients (last s l)).1.map (item.id :: ·),
          l ++ (x.enqueueAll g blobId (n + 1) recipients (last s l)).2) := by
  rw [enqueueAll]
  rcases hfirst : x.enqueue g blobId n recipient s with ⟨e | item, l⟩
  · exact .inl ⟨e, l, rfl, Attempt.bind_of_error _ hfirst⟩
  · refine .inr ⟨item, l, rfl, ?_⟩
    rw [Attempt.bind_of_ok _ hfirst]
    rcases hrest : x.enqueueAll g blobId (n + 1) recipients (last s l) with ⟨e | rest, l'⟩
    · rw [Attempt.bind_of_error _ hrest]
      rfl
    · rw [Attempt.bind_of_ok _ hrest]
      have hpure : ((pure (item.id :: rest) : SubmitAttempt (List Uuid)) (last (last s l) l')) =
          (.ok (item.id :: rest), []) := rfl
      rw [hpure]
      simp [Except.map]

/-- If every recipient can be queued the loop goes through, with one row for each. -/
theorem enqueueAll_of_queuesAll : ∀ (recipients : List String) {n : ℕ} {s : SubmitDb},
    QueuesAll g x blobId n recipients s →
    ∃ ids effects, x.enqueueAll g blobId n recipients s = (.ok ids, effects) ∧
      (newRows effects).map (·.recipient) = recipients ∧ (newRows effects).map (·.id) = ids ∧
      ∀ r ∈ newRows effects,
        r.accountId = g.accountId ∧ r.mailFrom = g.mailFrom ∧ r.blobId = blobId
  | [], _, _, _ => ⟨[], [], rfl, rfl, rfl, fun _ hr => absurd hr List.not_mem_nil⟩
  | recipient :: recipients, n, s, ⟨hfirst, hrest⟩ => by
    rcases x.enqueue_cases g blobId n recipient s with
      ⟨⟨item, row, l, hcall, hitem, hrow, hfor⟩, -⟩ | ⟨-, hno⟩
    · rw [hcall] at hrest
      obtain ⟨ids, effects, hall, hrecipients, hids, hrows⟩ :=
        enqueueAll_of_queuesAll recipients hrest
      rcases x.enqueueAll_cons g blobId n recipient recipients s with
        ⟨e, _, herr, -⟩ | ⟨_, _, hok, hcons⟩
      · cases hcall.symm.trans herr
      cases hcall.symm.trans hok
      rw [hall] at hcons
      refine ⟨item.id :: ids, l ++ effects, hcons, ?_, ?_, ?_⟩
      · simp [hrow, hrecipients, hfor.recipient]
      · simp [hrow, hids, hfor.id, hitem]
      · rw [newRows_append, hrow]
        intro r hr
        rcases List.mem_cons.mp hr with rfl | hr
        · exact ⟨hfor.accountId, hfor.mailFrom, hfor.blobId⟩
        · exact hrows r hr
    · exact absurd hfirst hno

/-- If a recipient cannot be queued the loop fails. -/
theorem enqueueAll_of_not_queuesAll : ∀ (recipients : List String) {n : ℕ} {s : SubmitDb},
    ¬QueuesAll g x blobId n recipients s →
    ∃ e effects, x.enqueueAll g blobId n recipients s = (.error e, effects)
  | [], _, _, h => absurd trivial h
  | recipient :: recipients, n, s, h => by
    rcases x.enqueueAll_cons g blobId n recipient recipients s with
      ⟨e, l, -, hall⟩ | ⟨item, l, hok, hcons⟩
    · exact ⟨e, l, hall⟩
    rcases x.enqueue_cases g blobId n recipient s with ⟨-, hfirst⟩ | ⟨⟨e, _, herr⟩, -⟩
    · have hrest : ¬QueuesAll g x blobId (n + 1) recipients (last s l) := by
        intro hrest
        refine h ⟨hfirst, ?_⟩
        rwa [hok]
      obtain ⟨e, effects, hall⟩ := enqueueAll_of_not_queuesAll recipients hrest
      rw [hall] at hcons
      exact ⟨e, _, hcons⟩
    · cases hok.symm.trans herr

end Queue

end SubmitCalls

/-! ## One try -/

section OneTry

variable (g : Submission)

/-- **One try is all or nothing if and only if** what is stored can be queued. -/
theorem allOrNothing_iff (s : SubmitDb) (x : SubmitCalls) :
    AllOrNothing g s x ↔ QueuesStored g s x := by
  rcases hpgp : x.pgp g with e | raw
  · -- no message to store
    have hsubmit : x.submitWithPriority g s = (.error (.temporary ("pgp: " ++ e)), []) := by
      refine Attempt.bind_of_error _ (Attempt.ofExcept_eq.mpr ⟨?_, rfl⟩)
      rw [hpgp]
      rfl
    refine iff_of_true ⟨?_, ?_⟩ fun raw _ _ _ h => by rw [hpgp] at h; cases h
    · intro e' effects h
      cases hsubmit.symm.trans h
      exact .nil
    · intro ids effects h
      cases hsubmit.symm.trans h
  have hpgp' : (Attempt.ofExcept ((x.pgp g).mapError fun e => .temporary ("pgp: " ++ e)) :
      SubmitAttempt (List UInt8)) s = (.ok raw, []) := by
    rw [hpgp]
    rfl
  rcases hsign : x.sign raw with e | header
  · have hsubmit : x.submitWithPriority g s = (.error (.dkim e), []) := by
      unfold SubmitCalls.submitWithPriority
      rw [Attempt.bind_of_ok _ hpgp', Attempt.bind_of_error _
        (Attempt.ofExcept_eq.mpr ⟨by rw [hsign]; rfl, rfl⟩)]
      rfl
    refine iff_of_true ⟨?_, ?_⟩ fun raw' header _ _ h h' => ?_
    · intro e' effects h
      cases hsubmit.symm.trans h
      exact .nil
    · intro ids effects h
      cases hsubmit.symm.trans h
    · cases hpgp.symm.trans h
      rw [hsign] at h'
      cases h'
  have hsign' : (Attempt.ofExcept ((x.sign raw).mapError .dkim) :
      SubmitAttempt String) s = (.ok header, []) := by
    rw [hsign]
    rfl
  have hsubmit : x.submitWithPriority g s =
      (do
        let blobId ← x.ingestEmail (x.ingestArgs g (SubmitCalls.signed header raw))
        x.enqueueAll g blobId 0 g.recipients : SubmitAttempt (List Uuid)) s := by
    unfold SubmitCalls.submitWithPriority
    rw [Attempt.bind_of_ok _ hpgp', last_nil, Attempt.bind_of_ok _ hsign']
    rfl
  rcases hingest : x.ingestEmail (x.ingestArgs g (SubmitCalls.signed header raw)) s with
    ⟨e | blobId, l⟩
  · -- no copy is stored
    rw [Attempt.bind_of_error _ hingest] at hsubmit
    refine iff_of_true ⟨?_, ?_⟩ fun raw' header' _ _ h h' hstored => ?_
    · intro e' effects h
      cases hsubmit.symm.trans h
      exact SubmitCalls.ingestEmail_error hingest
    · intro ids effects h
      cases hsubmit.symm.trans h
    · cases hpgp.symm.trans h
      cases hsign.symm.trans h'
      cases hingest.symm.trans hstored
  obtain ⟨hblob, hcopy, hqueue⟩ := SubmitCalls.ingestEmail_ok hingest
  rw [Attempt.bind_of_ok _ hingest] at hsubmit
  have hstored : QueuesStored g s x ↔ QueuesAll g x blobId 0 g.recipients (last s l) := by
    refine ⟨fun h => h raw header blobId l hpgp hsign hingest, ?_⟩
    intro h raw' header' blobId' l' h₁ h₂ h₃
    cases hpgp.symm.trans h₁
    cases hsign.symm.trans h₂
    cases hingest.symm.trans h₃
    exact h
  have hcopied : ∀ l', SentCopy (l ++ l') g.accountId blobId := by
    obtain ⟨e, he, row, mailbox, h⟩ := hcopy
    exact fun l' => ⟨e, List.mem_append_left _ he, row, mailbox, h⟩
  rw [hstored]
  by_cases hall : QueuesAll g x blobId 0 g.recipients (last s l)
  · refine iff_of_true ?_ hall
    obtain ⟨ids, effects, hloop, hrecipients, hids, hrows⟩ :=
      x.enqueueAll_of_queuesAll g blobId g.recipients hall
    rw [hloop] at hsubmit
    refine ⟨fun e effects' h => (by cases hsubmit.symm.trans h), fun ids' effects' h => ?_⟩
    cases hsubmit.symm.trans h
    have hnew : newRows (l ++ effects) = newRows effects := by
      rw [newRows_append, newRows_of_same hqueue, List.nil_append]
    rw [hnew]
    exact ⟨raw, header, hpgp, hsign, hblob ▸ hcopied effects, hrecipients, hids, hblob ▸ hrows⟩
  · -- the copy is stored, and the call fails
    refine iff_of_false (fun h => ?_) hall
    obtain ⟨e, effects, hloop⟩ := x.enqueueAll_of_not_queuesAll g blobId g.recipients hall
    rw [hloop] at hsubmit
    obtain ⟨c, hc, row, _, hrow, hfresh, -⟩ := hcopied effects
    rw [(h.nothing e _ hsubmit c hc).2] at hrow
    exact hfresh (List.mem_map_of_mem hrow)

end OneTry

/-! ## Any number of tries -/

section Runs

variable (g : Submission)

theorem submitEffects_append (s : SubmitDb) (xs xs' : List SubmitCalls) :
    submitEffects g s (xs ++ xs') =
      submitEffects g s xs ++ submitEffects g (Runs.run (submitStep g) s xs) xs' := by
  induction xs generalizing s with
  | nil => rfl
  | cons x xs ih => simp [submitEffects, ih]

/-- Failed tries that are nothing have sent nothing. -/
theorem nothingSent_submitEffects {xs : List SubmitCalls} {s : SubmitDb}
    (hfailed : Runs.Meets (submitStep g) (SubmitFailed g) s xs)
    (honce : Runs.Meets (submitStep g) (AllOrNothing g) s xs) :
    NothingSent (submitEffects g s xs) := by
  induction xs generalizing s with
  | nil => exact .nil
  | cons x xs ih =>
    obtain ⟨⟨e, he⟩, hfailed⟩ := hfailed
    exact (honce.1.nothing e _ (Prod.ext he rfl)).append (ih hfailed honce.2)

/-- **Once, exactly when.** A submission with any number of tries is all or nothing in each of
them, and queued once for each recipient over all of them, if and only if in every try that
stores the Sent copy every recipient can be queued. -/
theorem submittedOnce_iff (s : SubmitDb) (tries : List SubmitCalls) :
    SubmittedOnce g s tries ↔ Runs.Meets (submitStep g) (QueuesStored g) s tries := by
  have hiff : Runs.Meets (submitStep g) (AllOrNothing g) s tries ↔
      Runs.Meets (submitStep g) (QueuesStored g) s tries :=
    Runs.meets_congr (I := fun _ => True) (fun _ _ _ => trivial)
      (fun s x _ => allOrNothing_iff g s x) trivial
  rw [← hiff]
  refine ⟨And.left, fun h => ⟨h, ?_⟩⟩
  rintro failed x rest ids rfl hfailed hok
  obtain ⟨honce, hlast⟩ := Runs.Meets.append.mp h
  have hnothing := nothingSent_submitEffects g hfailed honce
  obtain ⟨_, _, -, -, -, hrecipients, -⟩ := hlast.1.all ids _ (Prod.ext hok rfl)
  rw [submitEffects_append, newRows_append, newRows_of_same fun e he => (hnothing e he).1]
  simpa [submitEffects] using hrecipients

end Runs

/-! ## A recipient without a domain -/

/-- Calls in which nothing fails. -/
def smoothCalls : SubmitCalls where
  unicode := .ascii
  pgp g := .ok g.raw
  sign _ := .ok "DKIM-Signature: v=1\r\n"
  rawMessage := Pipeline.readMessage
  blobStored := true
  others _ s := s
  io _ := .ok
  emailId := ⟨1⟩
  threadId := ⟨1⟩
  contactId := ⟨1⟩
  queueId n := BitVec.ofNat 128 (n + 1)
  now := 0

/-- Anna's installation, with nothing queued. -/
def annaSubmits : SubmitDb :=
  ⟨MailDb.empty.createdAccount .ascii "anna@example.org" none ⟨1⟩
    (fun i => ⟨BitVec.ofNat 128 (i + 1)⟩) 0, []⟩

/-- A message to two recipients, the second of which has no domain. -/
def toBobAndCarol : Submission where
  accountId := ⟨1⟩
  mailFrom := "anna@example.org"
  recipients := ["bob@remote.test", "carol"]
  raw := Utf8.encode (Headers.unlines (["From: <anna@example.org>", "Message-ID: <1@example.org>",
    "", "Lunch at noon?"].map String.toList))
  chatMode := false

/-- **Bob gets it, and Anna is told that it failed.** -/
theorem not_submittedOnce_toBobAndCarol :
    ¬SubmittedOnce toBobAndCarol annaSubmits [smoothCalls] := by
  intro h
  have hrun : ((smoothCalls.submitWithPriority toBobAndCarol annaSubmits).1.isOk = false) ∧
      (newRows (smoothCalls.submitWithPriority toBobAndCarol annaSubmits).2).length = 1 := by
    decide +kernel
  rcases hsubmit : smoothCalls.submitWithPriority toBobAndCarol annaSubmits with ⟨e | ids, effects⟩
  · rw [hsubmit] at hrun
    have hnothing := h.1.1.nothing e effects hsubmit
    rw [newRows_of_same fun c hc => (hnothing c hc).1] at hrun
    exact absurd hrun.2 Nat.zero_ne_one
  · rw [hsubmit] at hrun
    cases hrun.1

end Owney
