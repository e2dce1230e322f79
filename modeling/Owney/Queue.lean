import Mathlib.Data.Prod.Lex
import Mathlib.Order.Basic
import Owney.Lib.Runs
import Owney.Lib.Tables
import Owney.Transaction

/-!
# The outbound queue

The four calls of `queue.rs` on the `queue` table, one row for each recipient:

* `enqueueTx` adds a row in status `queued`;
* `dueQueueItemsTx` claims due rows, `queued` to `sending`;
* `recordAttemptTx` writes the outcome of an attempt, addressed by id alone;
* `resetStaleClaimsTx` returns every `sending` row to `queued`.

What a call does to one row is read off the `*_ok` lemmas.
-/

namespace Owney

open Tables

/-! ## Rows and items -/

/-- The `status` column. -/
inductive QueueStatus where
  | queued
  | sending
  | delivered
  | failed
  deriving DecidableEq, Repr

/-- `delivered` and `failed` are final. -/
def QueueStatus.terminal : QueueStatus → Bool
  | .delivered | .failed => true
  | _ => false

/-- A row of `queue`. -/
structure QueueRow where
  id : Uuid
  accountId : AccountId
  blobId : BlobId
  mailFrom : String
  recipient : String
  domain : String
  attempts : ℕ
  nextAttempt : ℤ
  status : QueueStatus
  priority : ℕ
  lastError : Option String
  createdAt : ℤ
  updatedAt : ℤ
  deriving DecidableEq, Repr

/-- `QueueItem`: what a worker holds of a claimed row. -/
structure QueueItem where
  id : Uuid
  accountId : AccountId
  blobId : BlobId
  mailFrom : String
  recipient : String
  domain : String
  attempts : ℕ
  nextAttempt : ℤ
  priority : ℕ
  deriving DecidableEq, Repr

/-- The columns the claim returns; `attempts as u32`, `(priority as u8).min(1)`. -/
def QueueRow.item (r : QueueRow) : QueueItem :=
  ⟨r.id, r.accountId, r.blobId, r.mailFrom, r.recipient, r.domain, r.attempts % 2 ^ 32,
    r.nextAttempt, min (r.priority % 2 ^ 8) 1⟩

/-- `AttemptOutcome`. -/
inductive AttemptOutcome where
  | delivered
  | retry (error : String) (nextAttempt : ℤ)
  | failed (error : String)
  deriving DecidableEq, Repr

/-- The `queue` table. -/
abbrev QueueDb : Type := List QueueRow

/-! ## Calls -/

/-- `str::rsplit_once`: split at the last occurrence. -/
def rsplitOnce (c : Char) (s : String) : Option (String × String) :=
  let rev := s.toList.reverse
  if c ∈ rev then
    some (String.ofList (rev.dropWhile (· ≠ c)).tail.reverse,
      String.ofList (rev.takeWhile (· ≠ c)).reverse)
  else none

/-- The arguments of `enqueue_with_priority`, with the fresh id and the clock. -/
structure EnqueueArgs where
  accountId : AccountId
  blobId : BlobId
  mailFrom : String
  recipient : String
  /-- a `u8` -/
  priority : ℕ
  id : Uuid
  now : ℤ

/-- The row an enqueue adds. -/
def EnqueueArgs.row (g : EnqueueArgs) (domain : String) : QueueRow where
  id := g.id
  accountId := g.accountId
  blobId := g.blobId
  mailFrom := g.mailFrom
  recipient := g.recipient
  domain := domain
  attempts := 0
  nextAttempt := g.now
  status := .queued
  priority := min g.priority 1
  lastError := none
  createdAt := g.now
  updatedAt := g.now

/-- `Storage::enqueue_with_priority`; `enqueue` is priority 0. -/
def enqueueTx (U : Unicode) (io : Io) (g : EnqueueArgs) : Tx QueueDb QueueItem := do
  let (_, domain) ← Tx.okOr (rsplitOnce '@' g.recipient)
    (.badInput ("recipient " ++ g.recipient ++ " has no domain"))
  let row := g.row (U.toLowercase domain)
  let queue ← Tx.query io 0 id
  Tx.require (g.id ∉ queue.map (·.id)) .sqlite
  Tx.exec io 0 (· ++ [row])
  return row.item

/-- The ids the claim's subquery selects. -/
def dueIds (queue : QueueDb) (limit : ℤ) (now : ℤ) : List Uuid :=
  (Tables.limit limit (orderBy (fun r => toLex (-(r.priority : ℤ), r.nextAttempt))
    (queue.filter fun r => r.status = .queued ∧ r.nextAttempt ≤ now))).map (·.id)

/-- The claim of some ids. -/
def claim (ids : List Uuid) (now : ℤ) (queue : QueueDb) : QueueDb :=
  update (fun r => r.id ∈ ids) ({ · with status := .sending, updatedAt := now }) queue

/-- `Storage::due_queue_items`: one `UPDATE .. RETURNING`. -/
def dueQueueItemsTx (io : Io) (limit : ℤ) (now : ℤ) : Tx QueueDb (List QueueItem) := do
  let queue ← Tx.query io 0 id
  let ids := dueIds queue limit now
  Tx.exec io 0 (claim ids now)
  return ((claim ids now queue).filter (·.id ∈ ids)).map (·.item)

/-- The status an outcome leads to. -/
def AttemptOutcome.status : AttemptOutcome → QueueStatus
  | .delivered => .delivered
  | .retry .. => .queued
  | .failed _ => .failed

/-- The error text of an outcome. -/
def AttemptOutcome.error : AttemptOutcome → Option String
  | .delivered => none
  | .retry error _ => some error
  | .failed error => some error

/-- When the next attempt is due. -/
def AttemptOutcome.nextAttempt : AttemptOutcome → Option ℤ
  | .retry _ nextAttempt => some nextAttempt
  | _ => none

/-- The row after an attempt. -/
def QueueRow.attempted (r : QueueRow) (outcome : AttemptOutcome) (now : ℤ) : QueueRow :=
  { r with
    status := outcome.status
    attempts := r.attempts + 1
    lastError := outcome.error.or r.lastError
    nextAttempt := outcome.nextAttempt.getD r.nextAttempt
    updatedAt := now }

/-- `Storage::record_attempt`. -/
def recordAttemptTx (io : Io) (id : Uuid) (outcome : AttemptOutcome) (now : ℤ) :
    Tx QueueDb PUnit :=
  Tx.exec io 0 (update (fun r => r.id = id) (·.attempted outcome now))

/-- `Storage::reset_stale_claims`. -/
def resetStaleClaimsTx (io : Io) (now : ℤ) : Tx QueueDb PUnit :=
  Tx.exec io 0
    (update (fun r => r.status = .sending) ({ · with status := .queued, updatedAt := now }))

/-! ## What the calls did -/

section Calls

variable {U : Unicode} {io : Io} {queue queue' : QueueDb}

theorem enqueueTx_ok {g : EnqueueArgs} {item : QueueItem}
    (h : enqueueTx U io g queue = .ok (item, queue')) :
    ∃ domain, queue' = queue ++ [g.row domain] ∧ g.id ∉ queue.map (·.id) := by
  simp only [enqueueTx, Tx.bind_eq_ok, Tx.okOr_eq_ok, Tx.query_eq_ok, Tx.require_eq_ok,
    Tx.exec_eq_ok, Tx.pure_eq_ok] at h
  obtain ⟨_, _, ⟨-, rfl⟩, _, _, ⟨-, rfl, rfl⟩, _, _, ⟨hid, rfl⟩, _, _, ⟨-, rfl⟩, -, rfl⟩ := h
  exact ⟨_, rfl, hid⟩

theorem dueQueueItemsTx_ok {limit now : ℤ} {items : List QueueItem}
    (h : dueQueueItemsTx io limit now queue = .ok (items, queue')) :
    queue' = claim (dueIds queue limit now) now queue ∧
      items = (queue'.filter (·.id ∈ dueIds queue limit now)).map (·.item) := by
  simp only [dueQueueItemsTx, Tx.bind_eq_ok, Tx.query_eq_ok, Tx.exec_eq_ok, Tx.pure_eq_ok] at h
  obtain ⟨_, _, ⟨-, rfl, rfl⟩, _, _, ⟨-, rfl⟩, rfl, rfl⟩ := h
  exact ⟨rfl, rfl⟩

/-- Only rows in status `queued` are due. -/
theorem status_of_mem_dueIds {limit now : ℤ} {id : Uuid} (h : id ∈ dueIds queue limit now) :
    ∃ r ∈ queue, r.id = id ∧ r.status = .queued := by
  obtain ⟨r, hr, rfl⟩ := List.mem_map.mp h
  have hmem : r ∈ orderBy (fun r => toLex (-(r.priority : ℤ), r.nextAttempt))
      (queue.filter fun r => r.status = .queued ∧ r.nextAttempt ≤ now) := by
    unfold Tables.limit at hr
    split at hr
    · exact hr
    · exact List.mem_of_mem_take hr
  rw [mem_orderBy, List.mem_filter] at hmem
  simp only [decide_eq_true_eq] at hmem
  exact ⟨r, hmem.1, rfl, hmem.2.1⟩

end Calls

end Owney
