import Owney.Queue

/-!
# Delivery workers

A worker (`spawn_worker`) resets stale claims once, and then claims up to sixteen
due items at a time, attempts each and records the outcome. Any number of them run
on one queue: the server's, a CLI process next to it, one that was restarted. A
worker can be aborted at any point.

`reset_stale_claims` cannot tell an abandoned claim from a live one, and
`record_attempt` takes any id. `queueSafe` says what saves the queue: no reset takes
effect while a live worker holds an item. `not_queueSafe_twoWorkers` is the run of a
second worker that starts while the first one is delivering.
-/

namespace Owney

open Tables

/-! ## Outcomes -/

/-- `BACKOFF`, in seconds. -/
def backoff : List ℤ := [60, 300, 1800, 7200, 14400, 14400, 28800, 43200, 61200]

/-- `CHAT_BACKOFF`, in seconds. -/
def chatBackoff : List ℤ := [30, 120, 600, 3600, 3600, 3600, 3600, 3600, 3600]

/-- What came of `attempt`: success, `DeliveryError::Permanent`, or another error
with its text. -/
inductive DeliveryResult where
  | ok
  | permanent (error : String)
  | other (text : String)

/-- The outcome `process_item` decides on; `frac` is the jitter of the item's hash. -/
def attemptOutcome (item : QueueItem) (now frac : ℤ) : DeliveryResult → AttemptOutcome
  | .ok => .delivered
  | .permanent error => .failed error
  | .other text =>
    let schedule := if item.priority = 1 then chatBackoff else backoff
    match schedule[item.attempts]? with
    | some delay => .retry text (now + delay + (delay * frac).tdiv 100)
    | none => .failed ("retries exhausted: " ++ text)

/-! ## The system -/

/-- Where a worker is in its program. -/
inductive Worker where
  | absent
  /-- spawned, before `reset_stale_claims` -/
  | starting
  /-- in the loop, with the items of the current batch still to be processed -/
  | looping (held : List QueueItem)
  deriving DecidableEq, Repr

/-- The items a worker holds. -/
def Worker.held : Worker → List QueueItem
  | .looping held => held
  | _ => []

/-- The queue and the workers on it. -/
structure Delivery where
  queue : QueueDb
  workers : ℕ → Worker

/-- No rows and no workers. -/
def Delivery.empty : Delivery := ⟨[], fun _ => .absent⟩

namespace Delivery

/-- A storage call by worker `w`, and where it is after it. -/
def set (s : Delivery) (w : ℕ) (queue : QueueDb) (next : Worker) : Delivery where
  queue := queue
  workers v := if v = w then next else s.workers v

/-- The items worker `w` holds. -/
def held (s : Delivery) (w : ℕ) : List QueueItem := (s.workers w).held

theorem held_set (s : Delivery) (w v : ℕ) (queue : QueueDb) (next : Worker) :
    (s.set w queue next).held v = if v = w then next.held else s.held v := by
  unfold held set
  dsimp only
  split <;> rfl

end Delivery

/-- `BATCH`. -/
def batch : ℤ := 16

/-- One step of the system. -/
inductive DeliveryOp where
  | enqueue (io : Io) (g : EnqueueArgs)
  | spawn (w : ℕ)
  | reset (w : ℕ) (io : Io) (now : ℤ)
  | poll (w : ℕ) (io : Io) (now : ℤ)
  | record (w : ℕ) (io : Io) (result : DeliveryResult) (now frac : ℤ)
  | stop (w : ℕ)

/-- What a step does; a worker that is elsewhere in its program does nothing. -/
def deliveryStep (U : Unicode) (s : Delivery) : DeliveryOp → Delivery
  | .enqueue io g => { s with queue := (transaction (enqueueTx U io g) s.queue).2 }
  | .spawn w =>
    match s.workers w with
    | .absent => s.set w s.queue .starting
    | _ => s
  | .reset w io now =>
    match s.workers w with
    -- a reset that fails is logged
    | .starting => s.set w (transaction (resetStaleClaimsTx io now) s.queue).2 (.looping [])
    | _ => s
  | .poll w io now =>
    match s.workers w with
    | .looping [] =>
      match transaction (dueQueueItemsTx io batch now) s.queue with
      | (.ok due, queue) => s.set w queue (.looping due)
      | (.error _, _) => s
    | _ => s
  | .record w io result now frac =>
    match s.workers w with
    | .looping (item :: rest) =>
      let outcome := attemptOutcome item now frac result
      -- an outcome that cannot be recorded is logged
      s.set w (transaction (recordAttemptTx io item.id outcome now) s.queue).2 (.looping rest)
    | _ => s
  | .stop w => s.set w s.queue .absent

/-! ## Safety -/

/-- No row is held by two workers. -/
def NoDoubleHold (s : Delivery) : Prop :=
  ∀ w v, w ≠ v → ∀ i ∈ s.held w, ∀ j ∈ s.held v, i.id ≠ j.id

/-- In every state of a run no row is held twice, and a row that reached a final
status keeps it, and its attempts, for the rest of the run. -/
structure QueueSafe (U : Unicode) (ops : List DeliveryOp) : Prop where
  noDoubleHold : ∀ pre post, ops = pre ++ post →
    NoDoubleHold (Runs.run (deliveryStep U) .empty pre)
  final : ∀ pre mid post, ops = pre ++ mid ++ post →
    ∀ r ∈ (Runs.run (deliveryStep U) .empty pre).queue, r.status.terminal →
      ∀ r' ∈ (Runs.run (deliveryStep U) .empty (pre ++ mid)).queue, r'.id = r.id →
        r'.status = r.status ∧ r'.attempts = r.attempts

/-- A reset that takes effect finds no live worker holding an item. -/
def ResetSafe (s : Delivery) : DeliveryOp → Prop
  | .reset w io _ => s.workers w = .starting → io 0 → ∀ v, s.held v = []
  | _ => True

/-! ## The invariant -/

/-- Held items are claimed, each by one worker once. -/
structure DeliveryInv (s : Delivery) : Prop where
  keys : (s.queue.map (·.id)).Nodup
  claimed : ∀ w, ∀ i ∈ s.held w, ∃ r ∈ s.queue, r.id = i.id ∧ r.status = .sending
  once : ∀ w, ((s.held w).map (·.id)).Nodup
  apart : NoDoubleHold s

/-- Rows in a final status stay as they are. -/
def FinalKept (s s' : Delivery) : Prop := ∀ r ∈ s.queue, r.status.terminal → r ∈ s'.queue

namespace DeliveryInv

variable {U : Unicode} {s : Delivery} {w : ℕ}

theorem empty : DeliveryInv .empty where
  keys := List.nodup_nil
  claimed _ _ hi := nomatch hi
  once _ := List.nodup_nil
  apart _ _ _ _ hi := nomatch hi

/-- A step that lets `w` hold fewer items, and leaves the rows of the items still held. -/
theorem release (h : DeliveryInv s) {queue : QueueDb} {next : Worker}
    (hkeys : (queue.map (·.id)).Nodup) (hsub : next.held.Sublist (s.held w))
    (hrows : ∀ r ∈ s.queue, r.status = .sending →
      (∃ v, ∃ i ∈ (s.set w queue next).held v, i.id = r.id) → r ∈ queue) :
    DeliveryInv (s.set w queue next) := by
  have hheld : ∀ v, ((s.set w queue next).held v).Sublist (s.held v) := by
    intro v
    rw [Delivery.held_set]
    split
    · rename_i hv
      rw [hv]
      exact hsub
    · exact List.Sublist.refl _
  refine ⟨hkeys, fun v i hi => ?_, fun v => (h.once v).sublist ((hheld v).map _), ?_⟩
  · obtain ⟨r, hr, hid, hst⟩ := h.claimed v i ((hheld v).subset hi)
    exact ⟨r, hrows r hr hst ⟨v, i, hi, hid.symm⟩, hid, hst⟩
  · exact fun v v' hne i hi j hj =>
      h.apart v v' hne i ((hheld v).subset hi) j ((hheld v').subset hj)

/-- A step that leaves the queue alone and lets `w` hold nothing. -/
theorem drop (h : DeliveryInv s) {next : Worker} (hnext : next.held = []) :
    DeliveryInv (s.set w s.queue next) :=
  h.release h.keys (by rw [hnext]; exact List.nil_sublist _) fun _ hr _ _ => hr

/-! ### Enqueue -/

theorem enqueue (h : DeliveryInv s) {r : QueueRow} (hid : r.id ∉ s.queue.map (·.id)) :
    DeliveryInv { s with queue := s.queue ++ [r] } where
  keys := nodup_map_insert h.keys hid
  claimed w i hi := by
    obtain ⟨r', hr', hid', hst⟩ := h.claimed w i hi
    exact ⟨r', List.mem_append_left _ hr', hid', hst⟩
  once := h.once
  apart := h.apart

/-! ### Claims -/

theorem mem_claim_items {ids : List Uuid} {now : ℤ} {queue : QueueDb} {i : QueueItem}
    (h : i ∈ ((claim ids now queue).filter (·.id ∈ ids)).map (·.item)) :
    i.id ∈ ids ∧ ∃ r ∈ claim ids now queue, r.id = i.id ∧ r.status = .sending := by
  obtain ⟨r, hr, rfl⟩ := List.mem_map.mp h
  obtain ⟨hr, hid⟩ := List.mem_filter.mp hr
  refine ⟨of_decide_eq_true hid, r, hr, rfl, ?_⟩
  obtain ⟨r₀, -, rfl⟩ := mem_update.mp hr
  by_cases hp : r₀.id ∈ ids
  · rw [if_pos (by simpa using hp)]
  · rw [if_neg (by simpa using hp)] at hid
    exact absurd (by simpa using hid) hp

/-- A worker claims what is due. -/
theorem poll (h : DeliveryInv s) {limit now : ℤ} :
    let ids := dueIds s.queue limit now
    let queue := claim ids now s.queue
    DeliveryInv (s.set w queue (.looping ((queue.filter (·.id ∈ ids)).map (·.item)))) := by
  intro ids queue
  have hkeys : (queue.map (·.id)).Nodup := by
    change ((update _ _ s.queue).map _).Nodup
    rw [map_update]
    · exact h.keys
    · exact fun _ => rfl
  -- due rows are nobody's
  have hfree : ∀ id ∈ ids, ∀ v, ∀ j ∈ s.held v, id ≠ j.id := by
    rintro id hid v j hj rfl
    obtain ⟨r, hr, hrid, hst⟩ := status_of_mem_dueIds hid
    obtain ⟨r', hr', hrid', hst'⟩ := h.claimed v j hj
    rw [eq_of_key_eq h.keys hr hr' (hrid.trans hrid'.symm), hst'] at hst
    cases hst
  refine ⟨hkeys, fun v i hi => ?_, fun v => ?_, fun v v' hne i hi j hj => ?_⟩
  · rw [Delivery.held_set] at hi
    split at hi
    · exact (mem_claim_items hi).2
    · obtain ⟨r, hr, hid, hst⟩ := h.claimed v i hi
      refine ⟨_, mem_update.mpr ⟨r, hr, rfl⟩, ?_⟩
      split
      · exact ⟨hid, rfl⟩
      · exact ⟨hid, hst⟩
  · rw [Delivery.held_set]
    split
    · have hitems : ((queue.filter (·.id ∈ ids)).map (·.item)).map (·.id) =
          (queue.filter (·.id ∈ ids)).map (·.id) := by
        rw [List.map_map]
        rfl
      change (((queue.filter (·.id ∈ ids)).map (·.item)).map (·.id)).Nodup
      rw [hitems]
      exact hkeys.sublist (List.filter_sublist.map _)
    · exact h.once v
  · rw [Delivery.held_set] at hi hj
    split at hi <;> split at hj
    · exact absurd (by simp_all) hne
    · exact hfree i.id (mem_claim_items hi).1 v' j hj
    · exact (hfree j.id (mem_claim_items hj).1 v i hi).symm
    · exact h.apart v v' hne i hi j hj

/-! ### Outcomes -/

/-- An outcome is written to the row of the item, which nobody else holds. -/
theorem record (h : DeliveryInv s) {item : QueueItem} {rest : List QueueItem}
    (hw : s.workers w = .looping (item :: rest)) {outcome : AttemptOutcome} {now : ℤ} :
    DeliveryInv (s.set w (update (fun r => r.id = item.id) (·.attempted outcome now) s.queue)
      (.looping rest)) := by
  have hheld : s.held w = item :: rest := by rw [Delivery.held, hw]; rfl
  refine h.release ?_ (by rw [hheld]; exact List.sublist_cons_self item rest) ?_
  · rw [map_update]
    · exact h.keys
    · exact fun _ => rfl
  · rintro r hr - ⟨v, i, hi, hid⟩
    have hne : r.id ≠ item.id := by
      rw [Delivery.held_set] at hi
      split at hi
      · have honce := h.once w
        rw [hheld, List.map_cons, List.nodup_cons] at honce
        intro hc
        exact honce.1 (List.mem_map.mpr ⟨i, hi, hid.trans hc⟩)
      · rename_i hv
        rw [← hid]
        exact h.apart v w hv i hi item (by rw [hheld]; exact List.mem_cons_self)
    exact mem_update.mpr ⟨r, hr, if_neg (by simpa using hne)⟩

/-! ### Steps -/

/-- **Every step but an unsafe reset keeps the invariant.** -/
theorem step (h : DeliveryInv s) {op : DeliveryOp} (hop : ResetSafe s op) :
    DeliveryInv (deliveryStep U s op) := by
  cases op with
  | enqueue io g =>
    rcases transaction_cases (enqueueTx U io g) s.queue with ⟨err, ht⟩ | ⟨item, queue, hok, ht⟩
    · simpa only [deliveryStep, ht] using h
    · obtain ⟨domain, rfl, hid⟩ := enqueueTx_ok hok
      simpa only [deliveryStep, ht] using h.enqueue (r := g.row domain) hid
  | spawn v =>
    simp only [deliveryStep]
    split
    · exact h.drop rfl
    · exact h
  | reset v io now =>
    simp only [deliveryStep]
    split
    · rename_i hv
      rcases transaction_cases (resetStaleClaimsTx io now) s.queue with
        ⟨err, ht⟩ | ⟨_, queue, hok, ht⟩
      · rw [ht]
        exact h.drop rfl
      · rw [ht]
        obtain ⟨hio, rfl⟩ := Tx.exec_eq_ok.mp hok
        refine h.release ?_ (List.nil_sublist _) ?_
        · rw [map_update]
          · exact h.keys
          · exact fun _ => rfl
        · rintro r - - ⟨v', i, hi, -⟩
          rw [Delivery.held_set, hop hv hio v'] at hi
          split at hi <;> cases hi
    · exact h
  | poll v io now =>
    simp only [deliveryStep]
    split
    · rcases transaction_cases (dueQueueItemsTx io batch now) s.queue with
        ⟨err, ht⟩ | ⟨items, queue, hok, ht⟩
      · rw [ht]
        exact h
      · rw [ht]
        obtain ⟨rfl, rfl⟩ := dueQueueItemsTx_ok hok
        exact h.poll
    · exact h
  | record v io result now frac =>
    simp only [deliveryStep]
    split
    · rename_i item rest hv
      rcases transaction_cases
        (recordAttemptTx io item.id (attemptOutcome item now frac result) now) s.queue with
        ⟨err, ht⟩ | ⟨_, queue, hok, ht⟩
      · rw [ht]
        have hheld : s.held v = item :: rest := by rw [Delivery.held, hv]; rfl
        exact h.release h.keys (by rw [hheld]; exact List.sublist_cons_self item rest)
          fun _ hr _ _ => hr
      · rw [ht]
        obtain ⟨-, rfl⟩ := Tx.exec_eq_ok.mp hok
        exact h.record hv
    · exact h
  | stop v => exact h.drop rfl

end DeliveryInv

/-! ## Final rows -/

/-- An update of rows that are not final. -/
theorem finalKept_update {s s' : Delivery} {p : QueueRow → Bool} {f : QueueRow → QueueRow}
    (hqueue : s'.queue = update p f s.queue) (hp : ∀ r ∈ s.queue, p r → ¬r.status.terminal) :
    FinalKept s s' := by
  intro r hr hterm
  rw [hqueue]
  exact mem_update.mpr ⟨r, hr, if_neg fun hc => hp r hr hc hterm⟩

/-- **No step changes a final row**: claims take queued rows, resets sending ones,
and a worker holds items whose rows are sending. -/
theorem finalKept_step {U : Unicode} {s : Delivery} (h : DeliveryInv s) (op : DeliveryOp) :
    FinalKept s (deliveryStep U s op) := by
  have hsame : ∀ {s'}, s'.queue = s.queue → FinalKept s s' := by
    intro s' heq r hr _
    rw [heq]
    exact hr
  cases op with
  | enqueue io g =>
    rcases transaction_cases (enqueueTx U io g) s.queue with ⟨err, ht⟩ | ⟨item, queue, hok, ht⟩
    · exact hsame (by simp only [deliveryStep, ht])
    · obtain ⟨domain, rfl, -⟩ := enqueueTx_ok hok
      intro r hr _
      simpa only [deliveryStep, ht] using List.mem_append_left _ hr
  | spawn v =>
    simp only [deliveryStep]
    split <;> exact hsame rfl
  | reset v io now =>
    simp only [deliveryStep]
    split
    · rcases transaction_cases (resetStaleClaimsTx io now) s.queue with
        ⟨err, ht⟩ | ⟨_, queue, hok, ht⟩
      · exact hsame (by rw [ht]; rfl)
      · refine finalKept_update (by rw [ht, ← (Tx.exec_eq_ok.mp hok).2]; rfl) fun r _ hp => ?_
        have hst : r.status = .sending := of_decide_eq_true hp
        rw [hst]
        decide
    · exact hsame rfl
  | poll v io now =>
    simp only [deliveryStep]
    split
    · rcases transaction_cases (dueQueueItemsTx io batch now) s.queue with
        ⟨err, ht⟩ | ⟨items, queue, hok, ht⟩
      · rw [ht]
        exact hsame rfl
      · rw [ht]
        obtain ⟨rfl, -⟩ := dueQueueItemsTx_ok hok
        refine finalKept_update rfl fun r hr hp => ?_
        obtain ⟨r', hr', hid, hst⟩ := status_of_mem_dueIds (of_decide_eq_true hp)
        rw [← eq_of_key_eq h.keys hr' hr hid, hst]
        decide
    · exact hsame rfl
  | record v io result now frac =>
    simp only [deliveryStep]
    split
    · rename_i item rest hv
      rcases transaction_cases
        (recordAttemptTx io item.id (attemptOutcome item now frac result) now) s.queue with
        ⟨err, ht⟩ | ⟨_, queue, hok, ht⟩
      · exact hsame (by rw [ht]; rfl)
      · refine finalKept_update (by rw [ht, ← (Tx.exec_eq_ok.mp hok).2]; rfl) fun r hr hp => ?_
        have hmem : item ∈ s.held v := by
          rw [Delivery.held, hv]
          exact List.mem_cons_self
        obtain ⟨r', hr', hid, hst⟩ := h.claimed v item hmem
        rw [← eq_of_key_eq h.keys hr' hr (hid.trans (of_decide_eq_true hp).symm), hst]
        decide
    · exact hsame rfl
  | stop v => exact hsame rfl

/-- **The queue is safe in a run without unsafe resets**: `reset_stale_claims` takes
effect only while no live worker holds an item. -/
theorem queueSafe {U : Unicode} {ops : List DeliveryOp}
    (h : Runs.Meets (deliveryStep U) ResetSafe .empty ops) : QueueSafe U ops := by
  have hinv : ∀ pre post, ops = pre ++ post →
      DeliveryInv (Runs.run (deliveryStep U) .empty pre) := by
    rintro pre post rfl
    exact Runs.run_invariant_of_meets (fun _ _ hs hop => hs.step hop) pre DeliveryInv.empty
      (Runs.Meets.append.mp h).1
  refine ⟨fun pre post hops => (hinv pre post hops).apart, ?_⟩
  intro pre mid post hops r hr hterm r' hr' hid
  have hsplit : ops = pre ++ (mid ++ post) := by rw [hops, List.append_assoc]
  rw [hops] at h
  have hmid := (Runs.Meets.append.mp (Runs.Meets.append.mp h).1).2
  have hkept : FinalKept (Runs.run (deliveryStep U) .empty pre)
      (Runs.run (deliveryStep U) .empty (pre ++ mid)) := by
    rw [Runs.run_append]
    exact Runs.run_rel_of_meets (I := DeliveryInv) (R := FinalKept)
      (fun _ _ hs hop => hs.step hop) (fun _ _ hr _ => hr)
      (fun h₁ h₂ r hr hterm => h₂ r (h₁ r hr hterm) hterm)
      (fun _ op hs _ => finalKept_step hs op) mid (hinv pre _ hsplit) hmid
  have heq := eq_of_key_eq (hinv (pre ++ mid) post hops).keys hr' (hkept r hr hterm) hid
  rw [heq]
  exact ⟨rfl, rfl⟩

/-! ## A second worker -/

/-- One message to one recipient. -/
def oneRecipient : EnqueueArgs :=
  ⟨⟨1⟩, ⟨7⟩, "a@x.org", "b@y.org", 0, 50, 0⟩

/-- A worker starts and claims the message. -/
def firstWorker : List DeliveryOp :=
  [.enqueue Io.ok oneRecipient, .spawn 1, .reset 1 Io.ok 1, .poll 1 Io.ok 1]

/-- The second worker starts after the first one has delivered. -/
theorem queueSafe_oneAfterTheOther : QueueSafe .ascii
    (firstWorker ++ [.record 1 Io.ok .ok 2 0, .spawn 2, .reset 2 Io.ok 3]) := by
  refine queueSafe ⟨trivial, trivial, fun _ _ v => ?_, trivial, trivial, trivial,
    fun _ _ v => ?_, trivial⟩
  · change Worker.held (if v = 1 then .starting else .absent) = []
    split <;> rfl
  · change Worker.held (if v = 2 then .starting else if v = 1 then .looping [] else
      if v = 1 then _ else if v = 1 then _ else if v = 1 then _ else .absent) = []
    by_cases hv : v = 1
    · rw [if_neg (by omega), if_pos hv]
      rfl
    · simp only [if_neg hv]
      split <;> rfl

/-- The second worker starts while the first one is delivering. -/
def secondWorker : List DeliveryOp :=
  firstWorker ++ [.spawn 2, .reset 2 Io.ok 2, .poll 2 Io.ok 2]

/-- Both hold the message. The first delivers it, the second fails, and the row that
was `delivered` is `queued` again with one attempt more. -/
theorem not_queueSafe_twoWorkers :
    ¬QueueSafe .ascii secondWorker ∧
      ¬QueueSafe .ascii (secondWorker ++ [.record 1 Io.ok .ok 3 0, .record 2 Io.ok (.other "") 4 0]) := by
  constructor
  · intro h
    have hapart := h.noDoubleHold secondWorker [] rfl 1 2 (by decide)
    let item : QueueItem := ⟨50, ⟨1⟩, ⟨7⟩, "a@x.org", "b@y.org", "y.org", 0, 0, 0⟩
    exact hapart item (by decide) item (by decide) rfl
  · intro h
    let before : QueueRow :=
      ⟨50, ⟨1⟩, ⟨7⟩, "a@x.org", "b@y.org", "y.org", 1, 0, .delivered, 0, none, 0, 3⟩
    let after : QueueRow :=
      ⟨50, ⟨1⟩, ⟨7⟩, "a@x.org", "b@y.org", "y.org", 2, 64, .queued, 0, some "", 0, 4⟩
    have hfinal := h.final (secondWorker ++ [.record 1 Io.ok .ok 3 0])
      [.record 2 Io.ok (.other "") 4 0] [] rfl before (by decide) rfl after (by decide) rfl
    cases hfinal.1

end Owney
