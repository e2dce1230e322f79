import Owney.Worker

/-!
# The retry schedule

One worker on the queue, with all that `process_item` does: it attempts an item it claimed,
records the outcome, and ingests a bounce for an item that failed. The state remembers all
attempts that were made (`Try`), so that what a row shows can be compared with what happened to
its item.

* `RowLaw` — a row, by the attempts of its item: `attempts` counts them, all but the last failed
  for the time being, and after the `k`-th of these the row waits for the `k`-th delay of its
  schedule, give or take a tenth.
* `RetryLaw` — the law of a run: of each attempt, of each row, of the rows that are final, and of
  the bounces.
* `retryLaw` — every run in which storage works meets it.
-/

namespace Owney

open Tables

/-! ## One worker -/

/-- The schedule of a priority. -/
def schedule (priority : ℕ) : List ℤ := if priority = 1 then chatBackoff else backoff

/-- `frac` of `process_item`; `hash` is the `DefaultHasher` of an id. -/
def jitterFrac (hash : Uuid → ℕ) (id : Uuid) : ℤ := (hash id % 21 : ℕ) - 10

/-- Where the worker is in its program. -/
inductive LonePhase where
  /-- before `reset_stale_claims` -/
  | starting
  /-- in the loop, with the items of the current batch still to be processed -/
  | looping (held : List QueueItem)
  /-- the failure of the item is recorded, and `bounce` is next -/
  | bouncing (item : QueueItem) (error : String) (rest : List QueueItem)
  deriving DecidableEq, Repr

/-- The items that are still to be processed. -/
def LonePhase.held : LonePhase → List QueueItem
  | .starting => []
  | .looping held | .bouncing _ _ held => held

/-- The item that is about to be bounced. -/
def LonePhase.bounced : LonePhase → Option Uuid
  | .bouncing item _ _ => some item.id
  | _ => none

/-- An attempt that was made, and when. -/
structure Try where
  id : Uuid
  result : DeliveryResult
  now : ℤ

/-- A DSN in the inbox of the account whose message failed. -/
structure Bounce where
  id : Uuid
  accountId : AccountId
  error : String
  deriving DecidableEq, Repr

/-- The queue with its worker, and what the worker did so far. -/
structure Lone where
  queue : QueueDb
  phase : LonePhase
  tries : List Try
  bounces : List Bounce

/-- No rows, and a worker that starts. -/
def Lone.empty : Lone := ⟨[], .starting, [], []⟩

/-- The attempts of one item, oldest first. -/
def Lone.triesOf (s : Lone) (id : Uuid) : List Try := s.tries.filter (·.id = id)

/-- The bounces of one item. -/
def Lone.bouncesOf (s : Lone) (id : Uuid) : List Bounce := s.bounces.filter (·.id = id)

/-- One step of the system. -/
inductive LoneOp where
  | enqueue (io : Io) (g : EnqueueArgs)
  | reset (io : Io) (now : ℤ)
  | poll (io : Io) (now : ℤ)
  | attempt (io : Io) (result : DeliveryResult) (now recorded : ℤ)
  | bounce (stored : Bool)

/-- What a step does; a worker that is elsewhere in its program does nothing. -/
def loneStep (U : Unicode) (hash : Uuid → ℕ) (s : Lone) : LoneOp → Lone
  | .enqueue io g => { s with queue := (transaction (enqueueTx U io g) s.queue).2 }
  | .reset io now =>
    match s.phase with
    | .starting =>
      { s with
        queue := (transaction (resetStaleClaimsTx io now) s.queue).2
        phase := .looping [] }
    | _ => s
  | .poll io now =>
    match s.phase with
    | .looping [] =>
      match transaction (dueQueueItemsTx io batch now) s.queue with
      | (.ok due, queue) => { s with queue := queue, phase := .looping due }
      | (.error _, _) => s
    | _ => s
  | .attempt io result now recorded =>
    match s.phase with
    | .looping (item :: rest) =>
      let outcome := attemptOutcome item now (jitterFrac hash item.id) result
      let tries := s.tries ++ [⟨item.id, result, now⟩]
      match transaction (recordAttemptTx io item.id outcome recorded) s.queue with
      -- an outcome that cannot be recorded is logged, and the item is left
      | (.error _, _) => { s with phase := .looping rest, tries := tries }
      | (.ok _, queue) =>
        match outcome with
        | .failed error => ⟨queue, .bouncing item error rest, tries, s.bounces⟩
        | _ => ⟨queue, .looping rest, tries, s.bounces⟩
    | _ => s
  | .bounce stored =>
    match s.phase with
    | .bouncing item error rest =>
      { s with
        phase := .looping rest
        bounces := if stored then s.bounces ++ [⟨item.id, item.accountId, error⟩] else s.bounces }
    | _ => s

/-- Storage works in the step. -/
def StorageWorks (_ : Lone) : LoneOp → Prop
  | .attempt io .. => io 0 = true
  | .bounce stored => stored = true
  | _ => True

instance (s : Lone) (op : LoneOp) : Decidable (StorageWorks s op) := by
  unfold StorageWorks
  split <;> infer_instance

/-! ## The law of a row -/

/-- A temporary failure. -/
def DeliveryResult.Temporary : DeliveryResult → Prop
  | .other _ => True
  | _ => False

/-- A permanent failure. -/
def DeliveryResult.Fatal : DeliveryResult → Prop
  | .permanent _ => True
  | _ => False

/-- The next attempt is after the delay, give or take a tenth, and not before now. -/
structure DueWithin (delay now next : ℤ) : Prop where
  future : now ≤ next
  early : 10 * (now + delay - next) ≤ delay
  late : 10 * (next - (now + delay)) ≤ delay

/-- What the attempts of an item, all temporary failures, leave of its row. -/
structure Waiting (tries : List Try) (r : QueueRow) : Prop where
  temporary : ∀ t ∈ tries, t.result.Temporary
  within : tries.length ≤ 9
  due : ∀ init t, tries = init ++ [t] → ∃ delay, (schedule r.priority)[init.length]? = some delay ∧
    DueWithin delay t.now r.nextAttempt

/-- A row, by the attempts of its item. -/
structure RowLaw (tries : List Try) (r : QueueRow) : Prop where
  priority : r.priority ≤ 1
  attempts : r.attempts = tries.length
  waiting : r.status.terminal = false → Waiting tries r
  delivered : r.status = .delivered → ∃ init t, tries = init ++ [t] ∧ init.length ≤ 9 ∧
    (∀ u ∈ init, u.result.Temporary) ∧ t.result = .ok
  failed : r.status = .failed → ∃ init t, tries = init ++ [t] ∧ init.length ≤ 9 ∧
    (∀ u ∈ init, u.result.Temporary) ∧
      (t.result.Fatal ∨ t.result.Temporary ∧ init.length = 9)

/-- The jitter is a tenth at most. -/
theorem dueWithin_jitter {delay now frac : ℤ} (hdelay : 0 ≤ delay) (hlow : -10 ≤ frac)
    (hhigh : frac ≤ 10) : DueWithin delay now (now + delay + (delay * frac).tdiv 100) := by
  have hmost : delay * frac ≤ delay * 10 := Int.mul_le_mul_of_nonneg_left hhigh hdelay
  have hleast : delay * -10 ≤ delay * frac := Int.mul_le_mul_of_nonneg_left hlow hdelay
  have hquot : ((delay * frac).tdiv 100).natAbs = (delay * frac).natAbs / 100 := Int.natAbs_tdiv ..
  constructor <;> omega

theorem schedule_length (priority : ℕ) : (schedule priority).length = 9 := by
  unfold schedule
  split <;> rfl

theorem schedule_nonneg (priority : ℕ) : ∀ delay ∈ schedule priority, 0 ≤ delay := by
  unfold schedule
  split <;> decide

theorem jitterFrac_bounds (hash : Uuid → ℕ) (id : Uuid) :
    -10 ≤ jitterFrac hash id ∧ jitterFrac hash id ≤ 10 := by
  unfold jitterFrac
  omega

namespace RowLaw

variable {tries : List Try} {r : QueueRow}

/-- A new row. -/
theorem enqueued (g : EnqueueArgs) (domain : String) : RowLaw [] (g.row domain) where
  priority := Nat.min_le_right _ _
  attempts := rfl
  waiting _ := ⟨by rintro t ⟨⟩, Nat.zero_le _, fun init t h => by simp at h⟩
  delivered h := nomatch h
  failed h := nomatch h

/-- A claim, or a claim that is taken back. -/
theorem claimed {status : QueueStatus} {now : ℤ} (h : RowLaw tries r)
    (hr : r.status.terminal = false) (hstatus : status.terminal = false) :
    RowLaw tries { r with status := status, updatedAt := now } where
  priority := h.priority
  attempts := h.attempts
  waiting _ := ⟨(h.waiting hr).temporary, (h.waiting hr).within, (h.waiting hr).due⟩
  delivered := by
    rintro rfl
    cases hstatus
  failed := by
    rintro rfl
    cases hstatus

/-- The copy that a worker holds shows the attempts and the schedule of the row. -/
theorem item_eq (h : RowLaw tries r) (hr : r.status.terminal = false) :
    r.item.attempts = tries.length ∧ schedule r.item.priority = schedule r.priority := by
  have hwithin := (h.waiting hr).within
  have hattempts := h.attempts
  have hpriority := h.priority
  refine ⟨?_, ?_⟩
  · change r.attempts % 2 ^ 32 = tries.length
    omega
  · change schedule (min (r.priority % 2 ^ 8) 1) = schedule r.priority
    congr 1
    omega

/-- The delay after a temporary failure. -/
theorem delay (h : RowLaw tries r) (hr : r.status.terminal = false) (text : String)
    (now frac : ℤ) (hshort : tries.length < 9) :
    ∃ delay, (schedule r.priority)[tries.length]? = some delay ∧ 0 ≤ delay ∧
      attemptOutcome r.item now frac (.other text) =
        .retry text (now + delay + (delay * frac).tdiv 100) := by
  obtain ⟨hattempts, hschedule⟩ := h.item_eq hr
  have hlt : tries.length < (schedule r.priority).length := by
    rw [schedule_length]
    exact hshort
  refine ⟨(schedule r.priority)[tries.length], List.getElem?_eq_getElem hlt,
    schedule_nonneg _ _ (List.getElem_mem hlt), ?_⟩
  have hdelay : (schedule r.item.priority)[r.item.attempts]? =
      some (schedule r.priority)[tries.length] := by
    rw [hattempts, hschedule, List.getElem?_eq_getElem hlt]
  rw [schedule] at hdelay
  simp only [attemptOutcome, hdelay]

/-- After the tenth there is none. -/
theorem exhausted (h : RowLaw tries r) (hr : r.status.terminal = false) {text : String}
    {now frac : ℤ} (hlong : tries.length = 9) :
    attemptOutcome r.item now frac (.other text) = .failed ("retries exhausted: " ++ text) := by
  obtain ⟨hattempts, hschedule⟩ := h.item_eq hr
  have hnone : (schedule r.item.priority)[r.item.attempts]? = none := by
    rw [hattempts, hlong, List.getElem?_eq_none (by rw [schedule_length])]
  rw [schedule] at hnone
  simp only [attemptOutcome, hnone]

/-- **One attempt more.** -/
theorem attempted (h : RowLaw tries r) (hr : r.status.terminal = false) {id : Uuid}
    {result : DeliveryResult} {now recorded frac : ℤ} (hlow : -10 ≤ frac) (hhigh : frac ≤ 10) :
    RowLaw (tries ++ [⟨id, result, now⟩])
      (r.attempted (attemptOutcome r.item now frac result) recorded) := by
  obtain ⟨htemporary, hwithin, -⟩ := h.waiting hr
  have hcount : r.attempts + 1 = (tries ++ [Try.mk id result now]).length := by
    rw [List.length_append, h.attempts]
    rfl
  cases result with
  | ok =>
    exact ⟨h.priority, hcount, nofun, fun _ => ⟨tries, _, rfl, hwithin, htemporary, rfl⟩, nofun⟩
  | permanent error =>
    exact ⟨h.priority, hcount, nofun, nofun,
      fun _ => ⟨tries, _, rfl, hwithin, htemporary, .inl trivial⟩⟩
  | other text =>
    by_cases hshort : tries.length < 9
    · obtain ⟨delay, hdelay, hnonneg, houtcome⟩ := h.delay hr text now frac hshort
      rw [houtcome]
      refine ⟨h.priority, hcount, fun _ => ⟨?_, ?_, ?_⟩, nofun, nofun⟩
      · intro t ht
        rcases List.mem_append.mp ht with ht | ht
        · exact htemporary t ht
        · obtain rfl := List.mem_singleton.mp ht
          trivial
      · rw [List.length_append]
        exact hshort
      · intro init t hlast
        obtain ⟨rfl, hsingle⟩ := List.append_inj' hlast rfl
        obtain rfl := (List.cons.inj hsingle).1
        exact ⟨delay, hdelay, dueWithin_jitter hnonneg hlow hhigh⟩
    · have hlong : tries.length = 9 := by omega
      rw [h.exhausted hr hlong]
      exact ⟨h.priority, hcount, nofun, nofun,
        fun _ => ⟨tries, _, rfl, hwithin, htemporary, .inr ⟨trivial, hlong⟩⟩⟩

end RowLaw

/-! ## The invariant -/

/-- Held items are claimed, each once, and every row shows what happened to its item. -/
structure LoneInv (s : Lone) : Prop where
  keys : (s.queue.map (·.id)).Nodup
  law : ∀ r ∈ s.queue, RowLaw (s.triesOf r.id) r
  held : ∀ i ∈ s.phase.held, ∃ r ∈ s.queue, r.item = i ∧ r.status = .sending
  once : (s.phase.held.map (·.id)).Nodup
  bouncing : ∀ id, s.phase.bounced = some id → ∃ r ∈ s.queue, r.id = id ∧ r.status = .failed
  bounces : ∀ r ∈ s.queue, (s.bouncesOf r.id).length =
    if r.status = .failed ∧ s.phase.bounced ≠ some r.id then 1 else 0
  known : ∀ id, (∀ r ∈ s.queue, r.id ≠ id) → s.triesOf id = [] ∧ s.bouncesOf id = []

/-- The entries of a key, with one entry more. -/
theorem filter_snoc_key {β κ : Type} [DecidableEq κ] {key : β → κ} {k : κ} {l : List β} {b : β} :
    (l ++ [b]).filter (fun a => key a = k) =
      l.filter (fun a => key a = k) ++ if key b = k then [b] else [] := by
  rw [List.filter_append]
  by_cases hb : key b = k
  · simp [hb]
  · simp [hb]

namespace LoneInv

variable {s : Lone}

theorem empty : LoneInv .empty where
  keys := List.nodup_nil
  law _ hr := nomatch hr
  held _ hi := nomatch hi
  once := List.nodup_nil
  bouncing _ h := nomatch h
  bounces _ hr := nomatch hr
  known _ _ := ⟨rfl, rfl⟩

theorem enqueue (h : LoneInv s) {g : EnqueueArgs} {domain : String}
    (hid : g.id ∉ s.queue.map (·.id)) : LoneInv { s with queue := s.queue ++ [g.row domain] } := by
  have hnew : ∀ r ∈ s.queue, r.id ≠ g.id := by
    rintro r hr rid
    exact hid (List.mem_map.mpr ⟨r, hr, rid⟩)
  obtain ⟨htries, hbounces⟩ := h.known g.id hnew
  refine ⟨nodup_map_insert h.keys hid, ?_, ?_, h.once, ?_, ?_, ?_⟩
  · intro r hr
    rcases List.mem_append.mp hr with hr | hr
    · exact h.law r hr
    · obtain rfl := List.mem_singleton.mp hr
      change RowLaw (s.triesOf g.id) _
      rw [htries]
      exact .enqueued g domain
  · intro i hi
    obtain ⟨r, hr, hitem, hst⟩ := h.held i hi
    exact ⟨r, List.mem_append_left _ hr, hitem, hst⟩
  · intro id hphase
    obtain ⟨r, hr, hrid, hst⟩ := h.bouncing id hphase
    exact ⟨r, List.mem_append_left _ hr, hrid, hst⟩
  · intro r hr
    rcases List.mem_append.mp hr with hr | hr
    · exact h.bounces r hr
    · obtain rfl := List.mem_singleton.mp hr
      change (s.bouncesOf g.id).length = _
      rw [hbounces]
      rfl
  · intro id hnone
    exact h.known id fun r hr => hnone r (List.mem_append_left _ hr)

/-- Rows that are claimed, or whose claims are taken back. -/
theorem reclaim (h : LoneInv s) {p : QueueRow → Bool} {status : QueueStatus} {now : ℤ}
    {phase : LonePhase} (hp : ∀ r ∈ s.queue, p r → r.status.terminal = false)
    (hstatus : status.terminal = false) (hphase : s.phase.bounced = none)
    (hnext : phase.bounced = none)
    (hheld : ∀ i ∈ phase.held,
      ∃ r ∈ update p ({ · with status := status, updatedAt := now }) s.queue,
        r.item = i ∧ r.status = .sending)
    (honce : (phase.held.map (·.id)).Nodup) :
    LoneInv { s with
      queue := update p ({ · with status := status, updatedAt := now }) s.queue
      phase := phase } := by
  refine ⟨?_, ?_, hheld, honce, ?_, ?_, ?_⟩
  · rw [map_update]
    · exact h.keys
    · exact fun _ => rfl
  · intro r hr
    obtain ⟨r₀, hr₀, rfl⟩ := mem_update.mp hr
    split
    · rename_i hpr
      exact (h.law r₀ hr₀).claimed (hp r₀ hr₀ hpr) hstatus
    · exact h.law r₀ hr₀
  · intro id hid
    rw [hnext] at hid
    cases hid
  · intro r hr
    obtain ⟨r₀, hr₀, rfl⟩ := mem_update.mp hr
    have hold := h.bounces r₀ hr₀
    rw [hphase] at hold
    rw [hnext]
    split
    · -- neither status is final
      rename_i hpr
      have hne : r₀.status ≠ .failed := by
        intro hfailed
        have hfinal := hp r₀ hr₀ hpr
        rw [hfailed] at hfinal
        cases hfinal
      have hne' : status ≠ .failed := by
        rintro rfl
        cases hstatus
      rw [if_neg (fun hc => hne hc.1)] at hold
      rw [if_neg (fun hc => hne' hc.1)]
      exact hold
    · exact hold
  · intro id hnone
    refine h.known id fun r hr hid => ?_
    refine hnone _ (mem_update.mpr ⟨r, hr, rfl⟩) ?_
    split <;> exact hid

theorem reset (h : LoneInv s) {now : ℤ} (hphase : s.phase = .starting) :
    LoneInv { s with
      queue := update (fun r => r.status = .sending)
        ({ · with status := .queued, updatedAt := now }) s.queue
      phase := .looping [] } := by
  refine h.reclaim ?_ rfl ?_ rfl nofun List.nodup_nil
  · intro r _ hp
    have hst : r.status = .sending := of_decide_eq_true hp
    rw [hst]
    rfl
  · rw [hphase]
    rfl

/-- The worker claims what is due. -/
theorem poll (h : LoneInv s) {now : ℤ} (hphase : s.phase = .looping []) :
    let ids := dueIds s.queue batch now
    let queue := claim ids now s.queue
    LoneInv { s with
      queue := queue
      phase := .looping ((queue.filter (·.id ∈ ids)).map (·.item)) } := by
  intro ids queue
  refine h.reclaim ?_ rfl ?_ rfl ?_ ?_
  · intro r hr hp
    obtain ⟨r', hr', hid, hst⟩ := status_of_mem_dueIds (of_decide_eq_true hp)
    rw [← eq_of_key_eq h.keys hr' hr hid, hst]
    rfl
  · rw [hphase]
    rfl
  · intro i hi
    obtain ⟨r, hr, rfl⟩ := List.mem_map.mp hi
    obtain ⟨hr, hid⟩ := List.mem_filter.mp hr
    refine ⟨r, hr, rfl, ?_⟩
    obtain ⟨r₀, -, rfl⟩ := mem_update.mp hr
    by_cases hp : r₀.id ∈ ids
    · rw [if_pos (by simpa using hp)]
    · rw [if_neg (by simpa using hp)] at hid
      exact absurd (by simpa using hid) hp
  · have hitems : ((queue.filter (·.id ∈ ids)).map (·.item)).map (·.id) =
        (queue.filter (·.id ∈ ids)).map (·.id) := by
      rw [List.map_map]
      rfl
    change (((queue.filter (·.id ∈ ids)).map (·.item)).map (·.id)).Nodup
    rw [hitems]
    refine List.Nodup.sublist (List.filter_sublist.map _) ?_
    change ((update _ _ s.queue).map _).Nodup
    rw [map_update]
    · exact h.keys
    · exact fun _ => rfl

section Attempt

variable {item : QueueItem} {rest : List QueueItem} {result : DeliveryResult}
  {now recorded frac : ℤ}

/-- The row of the item that is attempted. -/
theorem current (h : LoneInv s) (hphase : s.phase = .looping (item :: rest)) :
    ∃ r ∈ s.queue, r.item = item ∧ r.status = .sending ∧ RowLaw (s.triesOf item.id) r ∧
      (∀ q ∈ s.queue, q.id = item.id → q = r) := by
  obtain ⟨r, hr, rfl, hst⟩ := h.held item (by rw [hphase]; exact List.mem_cons_self)
  exact ⟨r, hr, rfl, hst, h.law r hr, fun q hq hid => eq_of_key_eq h.keys hq hr hid⟩

/-- **An attempt is recorded.** -/
theorem attempt (h : LoneInv s) (hphase : s.phase = .looping (item :: rest)) {phase : LonePhase}
    (hlow : -10 ≤ frac) (hhigh : frac ≤ 10) (hheld : phase.held = rest)
    (hbounced : phase.bounced = match attemptOutcome item now frac result with
      | .failed _ => some item.id
      | _ => none) :
    LoneInv ⟨update (fun r => r.id = item.id)
        (·.attempted (attemptOutcome item now frac result) recorded) s.queue,
      phase, s.tries ++ [⟨item.id, result, now⟩], s.bounces⟩ := by
  obtain ⟨row, hrow, rfl, hst, hlaw, huniq⟩ := h.current hphase
  have hrun : row.status.terminal = false := by
    rw [hst]
    rfl
  have honce := h.once
  rw [hphase] at honce
  obtain ⟨hfresh, honce⟩ := List.nodup_cons.mp honce
  have hidle : s.phase.bounced = none := by
    rw [hphase]
    rfl
  -- the tries of an item, with the new one
  have htries : ∀ id, (s.tries ++ [Try.mk row.item.id result now]).filter (·.id = id) =
      s.triesOf id ++ if row.id = id then [Try.mk row.item.id result now] else [] :=
    fun id => filter_snoc_key
  refine ⟨?_, ?_, ?_, ?_, ?_, ?_, ?_⟩
  · rw [map_update]
    · exact h.keys
    · exact fun _ => rfl
  · intro r hr
    obtain ⟨r₀, hr₀, rfl⟩ := mem_update.mp hr
    change RowLaw ((s.tries ++ [Try.mk row.item.id result now]).filter _) _
    rw [htries]
    split
    · rename_i hid
      obtain rfl := huniq r₀ hr₀ (of_decide_eq_true hid)
      change RowLaw (s.triesOf r₀.id ++ if r₀.id = r₀.id then _ else _) _
      rw [if_pos rfl]
      exact hlaw.attempted hrun hlow hhigh
    · rename_i hid
      rw [if_neg, List.append_nil]
      · exact h.law r₀ hr₀
      · intro heq
        exact hid (decide_eq_true heq.symm)
  · intro i hi
    change i ∈ phase.held at hi
    rw [hheld] at hi
    obtain ⟨r, hr, rfl, hst'⟩ := h.held i (by rw [hphase]; exact List.mem_cons_of_mem _ hi)
    refine ⟨r, mem_update.mpr ⟨r, hr, if_neg ?_⟩, rfl, hst'⟩
    intro hid
    refine hfresh (List.mem_map.mpr ⟨r.item, hi, ?_⟩)
    exact of_decide_eq_true hid
  · change (phase.held.map _).Nodup
    rw [hheld]
    exact honce
  · intro id hid
    change phase.bounced = some id at hid
    rw [hbounced] at hid
    refine ⟨_, mem_update.mpr ⟨row, hrow, if_pos (decide_eq_true rfl)⟩, ?_⟩
    rcases houtcome : attemptOutcome row.item now frac result with _ | _ | error
    · rw [houtcome] at hid
      cases hid
    · rw [houtcome] at hid
      cases hid
    · rw [houtcome] at hid
      exact ⟨Option.some.inj hid, rfl⟩
  · intro r hr
    obtain ⟨r₀, hr₀, rfl⟩ := mem_update.mp hr
    have hold := h.bounces r₀ hr₀
    rw [hidle] at hold
    change (s.bouncesOf _).length = if _ ∧ phase.bounced ≠ _ then 1 else 0
    rw [hbounced]
    split
    · rename_i hid
      obtain rfl := huniq r₀ hr₀ (of_decide_eq_true hid)
      rw [if_neg (by rw [hst]; rintro ⟨⟨⟩, -⟩)] at hold
      refine hold.trans (if_neg ?_).symm
      rintro ⟨hfailed, hne⟩
      rcases houtcome : attemptOutcome r₀.item now frac result with _ | _ | error
      · rw [houtcome] at hfailed
        cases hfailed
      · rw [houtcome] at hfailed
        cases hfailed
      · rw [houtcome] at hne
        exact hne rfl
    · rename_i hid
      refine hold.trans (if_congr (and_congr_right fun _ => ?_) rfl rfl)
      refine ⟨fun _ hc => ?_, fun _ => nofun⟩
      rcases houtcome : attemptOutcome row.item now frac result with _ | _ | error
      · rw [houtcome] at hc
        cases hc
      · rw [houtcome] at hc
        cases hc
      · rw [houtcome] at hc
        exact hid (decide_eq_true (Option.some.inj hc).symm)
  · intro id hnone
    have hold : ∀ r ∈ s.queue, r.id ≠ id := by
      intro r hr hid
      refine hnone _ (mem_update.mpr ⟨r, hr, rfl⟩) ?_
      split <;> exact hid
    obtain ⟨hno, hnob⟩ := h.known id hold
    refine ⟨?_, hnob⟩
    change (s.tries ++ [Try.mk row.item.id result now]).filter _ = []
    rw [htries, hno, if_neg (hold row hrow)]
    rfl

end Attempt

/-- The bounce is ingested. -/
theorem bounce (h : LoneInv s) {item : QueueItem} {error : String} {rest : List QueueItem}
    (hphase : s.phase = .bouncing item error rest) :
    LoneInv { s with
      phase := .looping rest
      bounces := s.bounces ++ [⟨item.id, item.accountId, error⟩] } := by
  have hbounced : s.phase.bounced = some item.id := by
    rw [hphase]
    rfl
  obtain ⟨row, hrow, hid, hfailed⟩ := h.bouncing item.id hbounced
  have hcount : ∀ id, (s.bounces ++ [Bounce.mk item.id item.accountId error]).filter (·.id = id) =
      s.bouncesOf id ++ if item.id = id then [Bounce.mk item.id item.accountId error] else [] :=
    fun id => filter_snoc_key
  have hheld := h.held
  have honce := h.once
  rw [hphase] at hheld honce
  refine ⟨h.keys, h.law, hheld, honce, nofun, ?_, ?_⟩
  · intro r hr
    have hold := h.bounces r hr
    rw [hbounced] at hold
    change ((s.bounces ++ [Bounce.mk item.id item.accountId error]).filter _).length = _
    rw [hcount, List.length_append, hold]
    by_cases hitem : item.id = r.id
    · obtain rfl := eq_of_key_eq h.keys hrow hr (hid.trans hitem)
      rw [if_pos hitem, if_neg (by simp [hitem]), if_pos ⟨hfailed, nofun⟩]
      rfl
    · rw [if_neg hitem]
      refine Eq.trans (Nat.add_zero _) (if_congr (and_congr_right fun _ => ?_) rfl rfl)
      exact ⟨fun _ => nofun, fun _ hc => hitem (Option.some.inj hc)⟩
  · intro id hnone
    obtain ⟨hno, hnob⟩ := h.known id hnone
    refine ⟨hno, ?_⟩
    change (s.bounces ++ [Bounce.mk item.id item.accountId error]).filter _ = []
    rw [hcount, hnob, if_neg fun hc => hnone row hrow (hid.trans hc)]
    rfl

end LoneInv

/-! ## Steps -/

section Steps

variable {U : Unicode} {hash : Uuid → ℕ} {s : Lone}

/-- Where the worker goes on after an outcome that was recorded. -/
def AttemptOutcome.next (outcome : AttemptOutcome) (item : QueueItem) (rest : List QueueItem) :
    LonePhase :=
  match outcome with
  | .failed error => .bouncing item error rest
  | _ => .looping rest

theorem AttemptOutcome.next_held (outcome : AttemptOutcome) (item : QueueItem)
    (rest : List QueueItem) : (outcome.next item rest).held = rest := by
  cases outcome <;> rfl

/-- An attempt, when its outcome is recorded. -/
theorem loneStep_attempt {io : Io} {result : DeliveryResult} {now recorded : ℤ}
    {item : QueueItem} {rest : List QueueItem} (hio : io 0 = true)
    (hphase : s.phase = .looping (item :: rest)) :
    loneStep U hash s (.attempt io result now recorded) =
      ⟨update (fun r => r.id = item.id) (·.attempted
          (attemptOutcome item now (jitterFrac hash item.id) result) recorded) s.queue,
        (attemptOutcome item now (jitterFrac hash item.id) result).next item rest,
        s.tries ++ [⟨item.id, result, now⟩], s.bounces⟩ := by
  have hrecorded : transaction (recordAttemptTx io item.id
      (attemptOutcome item now (jitterFrac hash item.id) result) recorded) s.queue =
      (.ok ⟨⟩, update (fun r => r.id = item.id) (·.attempted
        (attemptOutcome item now (jitterFrac hash item.id) result) recorded) s.queue) :=
    transaction_eq_ok.mpr (Tx.exec_eq_ok.mpr ⟨hio, rfl⟩)
  simp only [loneStep, hphase, hrecorded]
  cases attemptOutcome item now (jitterFrac hash item.id) result <;> rfl

theorem LoneInv.attempt_step (h : LoneInv s) {io : Io} {result : DeliveryResult}
    {now recorded : ℤ} {item : QueueItem} {rest : List QueueItem} (hio : io 0 = true)
    (hphase : s.phase = .looping (item :: rest)) :
    LoneInv (loneStep U hash s (.attempt io result now recorded)) := by
  obtain ⟨hlow, hhigh⟩ := jitterFrac_bounds hash item.id
  rw [loneStep_attempt hio hphase]
  refine h.attempt hphase hlow hhigh (AttemptOutcome.next_held ..) ?_
  cases attemptOutcome item now (jitterFrac hash item.id) result <;> rfl

/-- **Every step in which storage works keeps the invariant.** -/
theorem LoneInv.step (h : LoneInv s) {op : LoneOp} (hop : StorageWorks s op) :
    LoneInv (loneStep U hash s op) := by
  cases op with
  | enqueue io g =>
    rcases transaction_cases (enqueueTx U io g) s.queue with ⟨err, ht⟩ | ⟨item, queue, hok, ht⟩
    · simpa only [loneStep, ht] using h
    · obtain ⟨domain, rfl, hid⟩ := enqueueTx_ok hok
      simpa only [loneStep, ht] using h.enqueue hid
  | reset io now =>
    simp only [loneStep]
    split
    · rename_i hphase
      rcases transaction_cases (resetStaleClaimsTx io now) s.queue with
        ⟨err, ht⟩ | ⟨_, queue, hok, ht⟩
      · rw [ht]
        have hbounces := h.bounces
        rw [hphase] at hbounces
        exact ⟨h.keys, h.law, nofun, List.nodup_nil, nofun, hbounces, h.known⟩
      · rw [ht]
        obtain ⟨-, rfl⟩ := Tx.exec_eq_ok.mp hok
        exact h.reset hphase
    · exact h
  | poll io now =>
    simp only [loneStep]
    split
    · rename_i hphase
      rcases transaction_cases (dueQueueItemsTx io batch now) s.queue with
        ⟨err, ht⟩ | ⟨items, queue, hok, ht⟩
      · rw [ht]
        exact h
      · rw [ht]
        obtain ⟨rfl, rfl⟩ := dueQueueItemsTx_ok hok
        exact h.poll hphase
    · exact h
  | attempt io result now recorded =>
    rcases hphase : s.phase with _ | (_ | ⟨item, rest⟩) | ⟨item, error, rest⟩
    · simpa only [loneStep, hphase] using h
    · simpa only [loneStep, hphase] using h
    · exact h.attempt_step hop hphase
    · simpa only [loneStep, hphase] using h
  | bounce stored =>
    obtain rfl : stored = true := hop
    rcases hphase : s.phase with _ | held | ⟨item, error, rest⟩
    · simpa only [loneStep, hphase] using h
    · simpa only [loneStep, hphase] using h
    · simpa only [loneStep, hphase, if_true] using h.bounce hphase

/-- **No step changes a final row.** -/
theorem LoneInv.final_kept (h : LoneInv s) (op : LoneOp) {r : QueueRow} (hr : r ∈ s.queue)
    (hfinal : r.status.terminal = true) : r ∈ (loneStep U hash s op).queue := by
  have hupdate : ∀ {p : QueueRow → Bool} {f : QueueRow → QueueRow},
      (p r = true → r.status.terminal = false) → r ∈ update p f s.queue := by
    intro p f hp
    refine mem_update.mpr ⟨r, hr, if_neg fun hc => ?_⟩
    rw [hp hc] at hfinal
    cases hfinal
  cases op with
  | enqueue io g =>
    rcases transaction_cases (enqueueTx U io g) s.queue with ⟨err, ht⟩ | ⟨item, queue, hok, ht⟩
    · simpa only [loneStep, ht] using hr
    · obtain ⟨domain, rfl, -⟩ := enqueueTx_ok hok
      simpa only [loneStep, ht] using List.mem_append_left _ hr
  | reset io now =>
    simp only [loneStep]
    split
    · rcases transaction_cases (resetStaleClaimsTx io now) s.queue with
        ⟨err, ht⟩ | ⟨_, queue, hok, ht⟩
      · rw [ht]
        exact hr
      · rw [ht, ← (Tx.exec_eq_ok.mp hok).2]
        refine hupdate fun hp => ?_
        rw [show r.status = .sending from of_decide_eq_true hp]
        rfl
    · exact hr
  | poll io now =>
    simp only [loneStep]
    split
    · rcases transaction_cases (dueQueueItemsTx io batch now) s.queue with
        ⟨err, ht⟩ | ⟨items, queue, hok, ht⟩
      · rw [ht]
        exact hr
      · rw [ht]
        obtain ⟨rfl, -⟩ := dueQueueItemsTx_ok hok
        refine hupdate fun hp => ?_
        obtain ⟨r', hr', hid, hst⟩ := status_of_mem_dueIds (of_decide_eq_true hp)
        rw [← eq_of_key_eq h.keys hr' hr hid, hst]
        rfl
    · exact hr
  | attempt io result now recorded =>
    rcases hphase : s.phase with _ | (_ | ⟨item, rest⟩) | ⟨item, error, rest⟩
    · simpa only [loneStep, hphase] using hr
    · simpa only [loneStep, hphase] using hr
    · obtain ⟨row, -, -, hst, -, huniq⟩ := h.current hphase
      have hqueue : (loneStep U hash s (.attempt io result now recorded)).queue =
          (transaction (recordAttemptTx io item.id
            (attemptOutcome item now (jitterFrac hash item.id) result) recorded) s.queue).2 := by
        simp only [loneStep, hphase]
        rcases transaction_cases (recordAttemptTx io item.id
          (attemptOutcome item now (jitterFrac hash item.id) result) recorded) s.queue with
          ⟨err, ht⟩ | ⟨_, queue, -, ht⟩
        · simp only [ht]
        · simp only [ht]
          cases attemptOutcome item now (jitterFrac hash item.id) result <;> rfl
      rw [hqueue]
      rcases transaction_cases (recordAttemptTx io item.id
        (attemptOutcome item now (jitterFrac hash item.id) result) recorded) s.queue with
        ⟨err, ht⟩ | ⟨_, queue, hok, ht⟩
      · rw [ht]
        exact hr
      · rw [ht, ← (Tx.exec_eq_ok.mp hok).2]
        refine hupdate fun hp => ?_
        rw [huniq r hr (of_decide_eq_true hp), hst]
        rfl
    · simpa only [loneStep, hphase] using hr
  | bounce stored =>
    simp only [loneStep]
    split <;> exact hr

end Steps

/-! ## The law of a run -/

/-- What an attempt makes of the row of its item, from `r` to `r'`. -/
structure AttemptLaw (s s' : Lone) (item : QueueItem) (result : DeliveryResult) (now : ℤ)
    (r r' : QueueRow) : Prop where
  found : r ∈ s.queue ∧ r.id = item.id
  left : r' ∈ s'.queue ∧ r'.id = item.id
  /-- the attempts before were all temporary failures, and the row counts them -/
  before : (∀ t ∈ s.triesOf item.id, t.result.Temporary) ∧
    r.attempts = (s.triesOf item.id).length
  counted : r'.attempts = r.attempts + 1
  delivered : result = .ok → r'.status = .delivered
  fatal : result.Fatal → r'.status = .failed
  retried : result.Temporary → r'.attempts ≤ 9 → r'.status = .queued ∧
    ∃ delay, (schedule r.priority)[r.attempts]? = some delay ∧ DueWithin delay now r'.nextAttempt
  exhausted : result.Temporary → 9 < r'.attempts → r'.attempts = 10 ∧ r'.status = .failed

/-- The retry schedule is kept: by each attempt, in each row, for rows that are final, and with
one bounce for each item that failed. -/
structure RetryLaw (U : Unicode) (hash : Uuid → ℕ) (ops : List LoneOp) : Prop where
  attempt : ∀ {pre io result now recorded post item rest},
    ops = pre ++ .attempt io result now recorded :: post →
    (Runs.run (loneStep U hash) .empty pre).phase = .looping (item :: rest) →
    ∃ r r', AttemptLaw (Runs.run (loneStep U hash) .empty pre)
      (Runs.run (loneStep U hash) .empty (pre ++ [.attempt io result now recorded])) item result
      now r r'
  row : ∀ {pre post}, ops = pre ++ post →
    ∀ r ∈ (Runs.run (loneStep U hash) .empty pre).queue,
      RowLaw ((Runs.run (loneStep U hash) .empty pre).triesOf r.id) r
  final : ∀ {pre mid post}, ops = pre ++ mid ++ post →
    ∀ r ∈ (Runs.run (loneStep U hash) .empty pre).queue, r.status.terminal = true →
      r ∈ (Runs.run (loneStep U hash) .empty (pre ++ mid)).queue ∧
        ∀ i ∈ (Runs.run (loneStep U hash) .empty (pre ++ mid)).phase.held, i.id ≠ r.id
  bounces : ∀ {pre post}, ops = pre ++ post →
    ∀ r ∈ (Runs.run (loneStep U hash) .empty pre).queue,
      ((Runs.run (loneStep U hash) .empty pre).bouncesOf r.id).length =
        if r.status = .failed ∧
          (Runs.run (loneStep U hash) .empty pre).phase.bounced ≠ some r.id then 1 else 0

/-- What an attempt does, in every state of the invariant. -/
theorem LoneInv.attemptLaw {U : Unicode} {hash : Uuid → ℕ} {s : Lone} (h : LoneInv s) {io : Io}
    {result : DeliveryResult} {now recorded : ℤ} {item : QueueItem} {rest : List QueueItem}
    (hio : io 0 = true) (hphase : s.phase = .looping (item :: rest)) :
    ∃ r r', AttemptLaw s (loneStep U hash s (.attempt io result now recorded)) item result now
      r r' := by
  obtain ⟨r, hr, rfl, hst, hlaw, -⟩ := h.current hphase
  have hrun : r.status.terminal = false := by
    rw [hst]
    rfl
  obtain ⟨htemporary, hwithin, -⟩ := hlaw.waiting hrun
  have hcount := hlaw.attempts
  obtain ⟨hlow, hhigh⟩ := jitterFrac_bounds hash r.id
  rw [loneStep_attempt hio hphase]
  refine ⟨r, r.attempted (attemptOutcome r.item now (jitterFrac hash r.id) result) recorded,
    ⟨hr, rfl⟩, ⟨mem_update.mpr ⟨r, hr, if_pos (decide_eq_true rfl)⟩, rfl⟩,
    ⟨htemporary, hcount⟩, rfl, ?_, ?_, ?_, ?_⟩
  · rintro rfl
    rfl
  · intro hfatal
    cases result with
    | permanent error => rfl
    | ok | other => exact hfatal.elim
  · intro htemp hle
    cases result with
    | ok | permanent => exact htemp.elim
    | other text =>
      change r.attempts + 1 ≤ 9 at hle
      obtain ⟨delay, hdelay, hnonneg, houtcome⟩ := hlaw.delay hrun text now
        (jitterFrac hash r.id) (by omega)
      rw [houtcome]
      refine ⟨rfl, delay, ?_, dueWithin_jitter hnonneg hlow hhigh⟩
      rw [hcount]
      exact hdelay
  · intro htemp hgt
    cases result with
    | ok | permanent => exact htemp.elim
    | other text =>
      change 9 < r.attempts + 1 at hgt
      refine ⟨?_, ?_⟩
      · change r.attempts + 1 = 10
        omega
      · rw [hlaw.exhausted hrun (by omega)]
        rfl

/-- **The retry schedule** of every run in which storage works. -/
theorem retryLaw {U : Unicode} {hash : Uuid → ℕ} {ops : List LoneOp}
    (h : Runs.Meets (loneStep U hash) StorageWorks .empty ops) : RetryLaw U hash ops := by
  have hinv : ∀ {pre post}, ops = pre ++ post →
      LoneInv (Runs.run (loneStep U hash) .empty pre) := by
    rintro pre post rfl
    exact Runs.run_invariant_of_meets (fun _ _ hs hop => hs.step hop) pre LoneInv.empty
      (Runs.Meets.append.mp h).1
  refine ⟨?_, ?_, ?_, ?_⟩
  · intro pre io result now recorded post item rest hops hphase
    have hio := Runs.meets_iff.mp h pre _ post hops
    rw [Runs.run_append]
    exact (hinv hops).attemptLaw (U := U) hio hphase
  · intro pre post hops
    exact (hinv hops).law
  · intro pre mid post hops r hr hfinal
    have hmeets := h
    rw [hops] at hmeets
    have hmid := (Runs.Meets.append.mp (Runs.Meets.append.mp hmeets).1).2
    have hkept : ∀ {s s' : Lone}, s' = Runs.run (loneStep U hash) s mid → LoneInv s →
        Runs.Meets (loneStep U hash) StorageWorks s mid → r ∈ s.queue → r ∈ s'.queue := by
      rintro s s' rfl hs hm hrow
      exact Runs.run_rel_of_meets (I := LoneInv)
        (R := fun s s' => r ∈ s.queue → r ∈ s'.queue)
        (fun _ _ hs hop => hs.step hop) (fun _ hr => hr) (fun h₁ h₂ hr => h₂ (h₁ hr))
        (fun _ op hs _ hr => hs.final_kept op hr hfinal) mid hs hm hrow
    have hstays := hkept (Runs.run_append Lone.empty pre mid)
      (@hinv pre (mid ++ post) (by rw [hops, List.append_assoc])) hmid hr
    refine ⟨hstays, ?_⟩
    -- what is held is being sent
    intro i hi hid
    obtain ⟨row, hrow, rfl, hst⟩ := (hinv hops).held i hi
    rw [← eq_of_key_eq (hinv hops).keys hrow hstays hid, hst] at hfinal
    cases hfinal
  · intro pre post hops
    exact (hinv hops).bounces

/-- A message that is put off once, and then refused for good. -/
def refusedLater : List LoneOp :=
  [.enqueue Io.ok oneRecipient, .reset Io.ok 1, .poll Io.ok 1, .attempt Io.ok (.other "busy") 2 2,
    .poll Io.ok 80, .attempt Io.ok (.permanent "no such user") 81 81, .bounce true]

theorem retryLaw_refusedLater : RetryLaw .ascii (fun _ => 0) refusedLater :=
  retryLaw (by decide)

example : ((Runs.run (loneStep .ascii fun _ => 0) .empty refusedLater).queue.map
    fun r => (r.status, r.attempts, r.nextAttempt)) = [(.failed, 2, 56)] := by decide

end Owney
