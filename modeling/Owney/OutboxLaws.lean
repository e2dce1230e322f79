import Owney.FedOutbox

/-!
# What a drain leaves behind

The federation outbox over every run of enqueues and drains, in any order, with calls that
fail at any point.

* `OutboxInv` — a row that is `sending` belongs to exactly one drain that has claimed it and
  not recorded its attempt yet; the counter of a row counts the failures recorded for it.
* `OutboxLaws` — what the outbox promises: claimed items are settled when the drain returns, no
  item is lost, the counters are right and the delays grow.
* `outboxLaws_iff` — all of it holds exactly if no drain is cut short: an error after the
  claim leaves the rest of the batch `sending`, and nothing but a restart looks at it again.
-/

namespace Owney.Outbox

open Programs Tables

/-! ## What a call does -/

/-- What a call does to the table. -/
inductive OutboxEffect (w : OutboxWorld) (c : OutboxChoice) (call : Call OutboxOp.Ret)
    (w' : OutboxWorld) : Prop where
  | quiet (unclaimed : ∀ limit items, call ≠ ⟨.fedDueItems limit, .ok items⟩)
      (unrecorded : recordedId call = none)
      (unmade : ∀ f p b id, call ≠ ⟨.fedEnqueue f p b, .ok id⟩) (rows : w'.rows = w.rows)
  | enqueued {federationId peerDomain : String} {payload : List UInt8} {id : Uuid}
      (made : call = ⟨.fedEnqueue federationId peerDomain payload, .ok id⟩) (fresh : id ∉ w.drawn)
      (rows : w'.rows = w.rows ++
        [⟨id, federationId, peerDomain, payload, 0, c.now, .queued, none, c.now, c.now⟩])
      (drawn : w'.drawn = id :: w.drawn)
  | claimed {limit : ℕ}
      (made : call = ⟨.fedDueItems limit, .ok ((dueRows w.rows limit c.now).map (·.item))⟩)
      (rows : w'.rows = update (fun r => r.id ∈ (dueRows w.rows limit c.now).map (·.id))
        (fun r => { r with status := .sending, updatedAt := c.now }) w.rows)
  | delivered {id : Uuid} {error : Option String} {m : ℕ}
      (made : call = ⟨.fedRecordAttempt id true error m, .ok ()⟩)
      (rows : w'.rows = w.rows.filter fun r => r.id ≠ id)
  | attempted {id : Uuid} {error : Option String} {m : ℕ}
      (made : call = ⟨.fedRecordAttempt id false error m, .ok ()⟩)
      (rows : w'.rows = update (·.id = id) (·.attempted error m c.now) w.rows)

section Exec

variable {w w' : OutboxWorld} {c : OutboxChoice}

/-- A call on the table fails without effect, or its body succeeded. -/
theorem OutboxWorld.call_cases {α : Type} {body : Tx OutboxDb α} {res : Except DrainError α}
    (h : w.call body = (res, w')) :
    (∃ e, res = .error e ∧ w' = w) ∨
      ∃ a rows, body w.rows = .ok (a, rows) ∧ res = .ok a ∧ w' = { w with rows := rows } := by
  obtain ⟨rfl, rfl⟩ := Prod.mk.inj h
  rcases transaction_cases body w.rows with ⟨e, hbody⟩ | ⟨a, rows, hok, hbody⟩
  · exact .inl ⟨.storage e, by rw [hbody]; rfl, by rw [hbody]⟩
  · exact .inr ⟨a, rows, hok, by rw [hbody]; rfl, by rw [hbody]⟩

/-- **One call.** -/
theorem outboxEffect {o : OutboxOp} {res : o.Ret} (h : o.exec c w = some (res, w')) :
    OutboxEffect w c ⟨o, res⟩ w' ∧ w.drawn ⊆ w'.drawn := by
  cases o with
  | fedEnqueue federationId peerDomain payload =>
    simp only [OutboxOp.exec, Option.ite_none_left_eq_some] at h
    obtain ⟨hfresh, h⟩ := h
    rcases OutboxWorld.call_cases (Option.some.inj h) with ⟨e, rfl, rfl⟩ | ⟨a, rows, hok, rfl, rfl⟩
    · exact ⟨.quiet (by rintro l i ⟨⟩) rfl (by rintro f p b id ⟨⟩) rfl, List.subset_cons_self _ _⟩
    · simp only [fedEnqueueTx, Tx.bind_eq_ok, Tx.get_eq_ok, Tx.require_eq_ok, Tx.exec_eq_ok,
        Tx.pure_eq_ok] at hok
      obtain ⟨_, _, ⟨rfl, rfl⟩, _, _, ⟨-, rfl⟩, _, _, ⟨-, rfl⟩, rfl, rfl⟩ := hok
      exact ⟨.enqueued rfl hfresh rfl rfl, List.subset_cons_self _ _⟩
  | fedDueItems limit =>
    rcases OutboxWorld.call_cases (Option.some.inj h) with ⟨e, rfl, rfl⟩ | ⟨a, rows, hok, rfl, rfl⟩
    · exact ⟨.quiet (by rintro l i ⟨⟩) rfl (by rintro f p b id ⟨⟩) rfl, List.Subset.refl _⟩
    · simp only [fedDueItemsTx, Tx.bind_eq_ok, Tx.get_eq_ok, Tx.exec_eq_ok, Tx.pure_eq_ok] at hok
      obtain ⟨_, _, ⟨rfl, rfl⟩, _, _, ⟨-, rfl⟩, rfl, rfl⟩ := hok
      exact ⟨.claimed rfl rfl, List.Subset.refl _⟩
  | buildClient | federationPeer domain | postJson url peerDomain payload =>
    obtain ⟨rfl, rfl⟩ := Prod.mk.inj (Option.some.inj h)
    exact ⟨.quiet (by rintro l i ⟨⟩) rfl (by rintro f p b id ⟨⟩) rfl, List.Subset.refl _⟩
  | fedRecordAttempt id success error m =>
    rcases OutboxWorld.call_cases (Option.some.inj h) with ⟨e, rfl, rfl⟩ | ⟨a, rows, hok, rfl, rfl⟩
    · exact ⟨.quiet (by rintro l i ⟨⟩) rfl (by rintro f p b id ⟨⟩) rfl, List.Subset.refl _⟩
    · cases success with
      | true =>
        simp only [fedRecordAttemptTx, if_pos, Tx.exec_eq_ok] at hok
        obtain ⟨-, rfl⟩ := hok
        exact ⟨.delivered rfl rfl, List.Subset.refl _⟩
      | false =>
        simp only [fedRecordAttemptTx, Bool.false_eq_true, if_false, Tx.bind_eq_ok, Tx.get_eq_ok,
          Tx.require_eq_ok, Tx.exec_eq_ok] at hok
        obtain ⟨_, _, ⟨rfl, rfl⟩, _, _, ⟨-, rfl⟩, -, rfl⟩ := hok
        exact ⟨.attempted rfl rfl, List.Subset.refl _⟩

end Exec

/-! ## The laws -/

/-- A call that was made. -/
abbrev OutboxEvent : Type := Event OutboxOp.Ret OutboxRequest OutboxChoice OutboxWorld

/-- The drain claimed the item. -/
def Claimed (past : List OutboxEvent) (i : ℕ) (id : Uuid) : Prop :=
  ∃ items, Took (callsOf i past) items ∧ id ∈ items.map (·.id)

/-- The row is claimed. -/
def Sending (w : OutboxWorld) (id : Uuid) : Prop := ∃ r ∈ w.rows, r.id = id ∧ r.status = .sending

/-- After the claim the row was deleted, parked as `failed` or put back. -/
def Settled (past : List OutboxEvent) (i : ℕ) (id : Uuid) : Prop :=
  ∃ pre x post, past = pre ++ x :: post ∧ Claimed pre i id ∧ ¬Sending x.after id

/-- The item whose failure was recorded. -/
def failedId : Call OutboxOp.Ret → Option Uuid
  | ⟨.fedRecordAttempt id false _ _, .ok _⟩ => some id
  | _ => none

/-- How many failures were recorded for an item. -/
def failures (past : List OutboxEvent) (id : Uuid) : ℕ :=
  (past.filterMap fun e => failedId e.call).count id

/-- A drain recorded the item as delivered, after the peer answered its request with success. -/
def Delivered (past : List OutboxEvent) (id : Uuid) : Prop :=
  ∃ e ∈ past, ∃ error m, e.call = ⟨.fedRecordAttempt id true error m, .ok ()⟩ ∧
    ∃ items, Took (callsOf e.thread past) items ∧ ∃ item ∈ items, item.id = id ∧
      ∃ url status, ⟨.postJson url item.peerDomain item.payload, .ok (.ok status)⟩ ∈
        callsOf e.thread past ∧ 200 ≤ status ∧ status < 300

/-- The attempt put the item back, to be tried again after so many seconds. -/
def Requeued (e : OutboxEvent) (id : Uuid) (delay : ℤ) : Prop :=
  failedId e.call = some id ∧ ∃ r ∈ e.after.rows, r.id = id ∧ r.status = .queued ∧
    r.nextAttempt = e.choice.now + delay

/-- What the outbox promises. -/
structure OutboxLaws (s : OutboxSys) : Prop where
  settled : ∀ i a, s.answer i = some a → ∀ id, Claimed s.past i id → Settled s.past i id
  kept : ∀ e ∈ s.past, ∀ f p b id, e.call = ⟨.fedEnqueue f p b, .ok id⟩ →
    id ∈ s.world.rows.map (·.id) ∨ Delivered s.past id
  counted : ∀ r ∈ s.world.rows, r.attempts = failures s.past r.id ∧ r.attempts ≤ MAX_ATTEMPTS ∧
    (r.status = .failed ↔ r.attempts = MAX_ATTEMPTS)
  delays : ∀ pre x mid y post id d d', s.past = pre ++ x :: (mid ++ y :: post) →
    Requeued x id d → Requeued y id d' → d ≤ d' ∧ d' ≤ 3600

/-- No drain is cut short: in a drain that claimed items and has returned, no call failed. -/
def NoneCut (s : OutboxSys) : Prop :=
  ∀ i a, s.answer i = some a → ∀ items, Took (callsOf i s.past) items →
    ∀ c ∈ callsOf i s.past, ¬failed c

/-! ## The invariant -/

/-- A past of the outbox. -/
abbrev OutboxPast : List OutboxEvent → OutboxWorld → Prop :=
  Past OutboxOp.exec OutboxBefore ⟨[], []⟩

/-- What was the case when a call was made. -/
abbrev OutboxAt : List OutboxEvent → OutboxEvent → Prop :=
  Past.At OutboxOp.exec OutboxBefore ⟨[], []⟩

/-- The drain has claimed the item and not recorded its attempt. -/
def Owns (past : List OutboxEvent) (i : ℕ) (id : Uuid) : Prop :=
  Claimed past i id ∧ id ∉ recordedIds (callsOf i past)

/-- **The invariant.** -/
structure OutboxInv (past : List OutboxEvent) (w : OutboxWorld) : Prop where
  nodup : (w.rows.map (·.id)).Nodup
  items : ∀ i items, Took (callsOf i past) items → (items.map (·.id)).Nodup
  drawn : ∀ r ∈ w.rows, r.id ∈ w.drawn
  used : ∀ i id, Claimed past i id → id ∈ w.drawn
  sending : ∀ i id, Owns past i id → Sending w id
  unique : ∀ i j id, Owns past i id → Owns past j id → i = j
  counted : ∀ r ∈ w.rows, r.attempts = failures past r.id ∧ r.attempts ≤ MAX_ATTEMPTS ∧
    (r.status = .failed ↔ r.attempts = MAX_ATTEMPTS)
  kept : ∀ e ∈ past, ∀ f p b id, e.call = ⟨.fedEnqueue f p b, .ok id⟩ →
    id ∈ w.rows.map (·.id) ∨ Delivered past id
  failing : ∀ id, failures past id ≠ 0 → id ∈ w.drawn

/-! ### Histories -/

section Histories

variable {past : List OutboxEvent} {e : OutboxEvent} {i : ℕ} {id : Uuid}
  {items : List FederationOutboxItem}

theorem Claimed.append {more : List OutboxEvent} (h : Claimed past i id) :
    Claimed (past ++ more) i id := by
  obtain ⟨items, htook, hid⟩ := h
  refine ⟨items, ?_, hid⟩
  rw [callsOf_append]
  exact htook.append

theorem took_snoc (h : Took (callsOf i (past ++ [e])) items) :
    Took (callsOf i past) items ∨
      e.thread = i ∧ ∃ limit, e.call = ⟨.fedDueItems limit, .ok items⟩ := by
  obtain ⟨limit, rest, h⟩ := h
  rw [callsOf_append] at h
  by_cases hi : e.thread = i
  · subst hi
    rw [callsOf_self] at h
    rcases hcs : callsOf e.thread past with _ | ⟨c, cs⟩
    · rw [hcs] at h
      exact .inr ⟨rfl, limit, (List.cons.inj h).1⟩
    · rw [hcs] at h
      exact .inl ⟨limit, cs, by rw [(List.cons.inj h).1]⟩
  · rw [callsOf_ne hi, List.append_nil] at h
    exact .inl ⟨limit, rest, h⟩

theorem claimed_snoc (h : Claimed (past ++ [e]) i id) :
    Claimed past i id ∨ e.thread = i ∧
      ∃ limit items, e.call = ⟨.fedDueItems limit, .ok items⟩ ∧ id ∈ items.map (·.id) := by
  obtain ⟨items, htook, hid⟩ := h
  rcases took_snoc htook with htook | ⟨hi, limit, hcall⟩
  · exact .inl ⟨items, htook, hid⟩
  · exact .inr ⟨hi, limit, items, hcall, hid⟩

theorem mem_recordedIds_append (h : id ∈ recordedIds (callsOf i past)) (more : List OutboxEvent) :
    id ∈ recordedIds (callsOf i (past ++ more)) := by
  rw [callsOf_append, recordedIds, List.filterMap_append]
  exact List.mem_append_left _ h

/-- An owner after a call was one before, and did not record; or it has just claimed. -/
theorem owns_snoc (h : Owns (past ++ [e]) i id) :
    (Owns past i id ∧ (e.thread = i → recordedId e.call ≠ some id)) ∨ e.thread = i ∧
      ∃ limit items, e.call = ⟨.fedDueItems limit, .ok items⟩ ∧ id ∈ items.map (·.id) := by
  obtain ⟨hclaimed, hnot⟩ := h
  rcases claimed_snoc hclaimed with hclaimed | hnew
  · refine .inl ⟨⟨hclaimed, fun hmem => hnot (mem_recordedIds_append hmem _)⟩, ?_⟩
    rintro rfl hrec
    refine hnot ?_
    rw [callsOf_append, callsOf_self, recordedIds, List.filterMap_append]
    exact List.mem_append_right _ (by simp [hrec])
  · exact .inr hnew

theorem recordedId_of_failedId {call : Call OutboxOp.Ret} (h : failedId call = some id) :
    recordedId call = some id := by
  unfold failedId at h
  split at h
  · exact h
  · cases h

theorem failures_snoc : failures (past ++ [e]) id =
    failures past id + if failedId e.call = some id then 1 else 0 := by
  rw [failures, List.filterMap_append, List.count_append, ← failures]
  congr 1
  rcases hf : failedId e.call with _ | id'
  · simp [hf]
  · by_cases hid : id' = id
    · simp [hf, hid]
    · simp [hf, hid]

theorem Delivered.append {more : List OutboxEvent} (h : Delivered past id) :
    Delivered (past ++ more) id := by
  obtain ⟨e, he, error, m, hcall, items, htook, item, hitem, hid, url, status, hpost, hstatus⟩ := h
  refine ⟨e, List.mem_append_left _ he, error, m, hcall, items, ?_, item, hitem, hid, url, status,
    ?_, hstatus⟩
  · rw [callsOf_append]
    exact htook.append
  · rw [callsOf_append]
    exact List.mem_append_left _ hpost

end Histories

/-! ### Rows -/

section Rows

variable {rows : OutboxDb} {r : OutboxRow} {limit : ℕ} {now : ℤ} {id : Uuid}

theorem mem_dueRows (h : r ∈ dueRows rows limit now) : r ∈ rows ∧ r.status = .queued := by
  have hmem := (mem_orderBy.mp (List.mem_of_mem_take h))
  obtain ⟨hr, hdue⟩ := List.mem_filter.mp hmem
  exact ⟨hr, (of_decide_eq_true hdue).1⟩

theorem nodup_dueRows (hnd : (rows.map (·.id)).Nodup) :
    ((dueRows rows limit now).map (·.id)).Nodup := by
  have hfilter : ((rows.filter fun r => r.status = .queued ∧ r.nextAttempt ≤ now).map
      (·.id)).Nodup := hnd.sublist (List.filter_sublist.map _)
  have hsorted := ((orderBy_perm OutboxRow.nextAttempt _).map OutboxRow.id).nodup_iff.mpr hfilter
  exact hsorted.sublist ((List.take_sublist _ _).map _)

theorem attempted_id (r : OutboxRow) (error : Option String) (m : ℕ) (now : ℤ) :
    (r.attempted error m now).id = r.id := by
  unfold OutboxRow.attempted
  split <;> rfl

theorem attempted_attempts (r : OutboxRow) (error : Option String) (m : ℕ) (now : ℤ) :
    (r.attempted error m now).attempts = r.attempts + 1 := by
  unfold OutboxRow.attempted
  split <;> rfl

theorem attempted_status (r : OutboxRow) (error : Option String) (m : ℕ) (now : ℤ) :
    (r.attempted error m now).status = if m ≤ r.attempts + 1 then .failed else .queued := by
  unfold OutboxRow.attempted
  split <;> rfl

/-- A claimed row is not due. -/
theorem not_due_of_sending (hnd : (rows.map (·.id)).Nodup) (hr : r ∈ rows)
    (hsending : r.status = .sending) : r.id ∉ (dueRows rows limit now).map (·.id) := by
  intro hmem
  obtain ⟨r', hr', hid⟩ := List.mem_map.mp hmem
  obtain ⟨hr'mem, hqueued⟩ := mem_dueRows hr'
  obtain rfl := eq_of_key_eq hnd hr'mem hr hid
  rw [hsending] at hqueued
  cases hqueued

end Rows

/-! ### One step -/

section Step

variable {past : List OutboxEvent} {e : OutboxEvent} {i j : ℕ} {id : Uuid}

theorem outboxAt_effect (hat : OutboxAt past e) :
    OutboxEffect e.before e.choice e.call e.after ∧ e.before.drawn ⊆ e.after.drawn :=
  outboxEffect hat.possible

/-- Who records an attempt owns the item. -/
theorem owns_of_records (hat : OutboxAt past e) (h : OutboxInv past e.before) {success : Bool}
    {error : Option String} {m : ℕ} (hop : e.call.op = .fedRecordAttempt id success error m) :
    m = MAX_ATTEMPTS ∧ Owns past e.thread id := by
  have hguard := hat.guard
  rw [hop] at hguard
  obtain ⟨hm, item, rfl, ⟨done, rest, htook, hrec⟩, -⟩ := hguard
  refine ⟨hm, ⟨done ++ item :: rest, htook, by simp⟩, ?_⟩
  have hnd := h.items _ _ htook
  rw [hrec]
  simp only [List.map_append, List.map_cons, List.nodup_append, List.mem_cons] at hnd
  exact fun hmem => hnd.2.2 item.id hmem item.id (.inl rfl) rfl

theorem nodup_step (hat : OutboxAt past e) (h : OutboxInv past e.before) :
    (e.after.rows.map (·.id)).Nodup := by
  cases (outboxAt_effect hat).1 with
  | quiet unclaimed unrecorded unmade rows => rw [rows]; exact h.nodup
  | enqueued made fresh rows drawn =>
    rw [rows]
    refine nodup_map_insert h.nodup fun hmem => fresh ?_
    obtain ⟨r, hr, hid⟩ := List.mem_map.mp hmem
    have hdrawn := h.drawn r hr
    rwa [show r.id = _ from hid] at hdrawn
  | claimed made rows =>
    rw [rows, map_update _ (by intro r; rfl)]
    exact h.nodup
  | delivered made rows =>
    rw [rows]
    exact h.nodup.sublist (List.filter_sublist.map _)
  | attempted made rows =>
    rw [rows, map_update _ (fun r => attempted_id r _ _ _)]
    exact h.nodup

theorem items_step (hat : OutboxAt past e) (h : OutboxInv past e.before) :
    ∀ i items, Took (callsOf i (past ++ [e])) items → (items.map (·.id)).Nodup := by
  intro i items htook
  rcases took_snoc htook with htook | ⟨-, limit, hcall⟩
  · exact h.items i items htook
  cases (outboxAt_effect hat).1 with
  | quiet unclaimed unrecorded unmade rows => exact absurd hcall (unclaimed limit items)
  | enqueued made fresh rows drawn => cases hcall.symm.trans made
  | claimed made rows =>
    cases hcall.symm.trans made
    rw [List.map_map]
    exact nodup_dueRows h.nodup
  | delivered made rows => cases hcall.symm.trans made
  | attempted made rows => cases hcall.symm.trans made

/-- What a claim returns are rows of the table, and they are claimed then. -/
theorem claims (hat : OutboxAt past e) {limit : ℕ} {items : List FederationOutboxItem}
    (hcall : e.call = ⟨.fedDueItems limit, .ok items⟩) (hid : id ∈ items.map (·.id)) :
    (∃ r ∈ e.before.rows, r.id = id ∧ r.status = .queued) ∧ Sending e.after id := by
  cases (outboxAt_effect hat).1 with
  | quiet unclaimed unrecorded unmade rows => exact absurd hcall (unclaimed limit items)
  | enqueued made fresh rows drawn => cases hcall.symm.trans made
  | claimed made rows =>
    cases hcall.symm.trans made
    rw [List.map_map] at hid
    obtain ⟨r, hr, rfl⟩ := List.mem_map.mp hid
    obtain ⟨hmem, hqueued⟩ := mem_dueRows hr
    refine ⟨⟨r, hmem, rfl, hqueued⟩, ?_⟩
    rw [Sending, rows]
    exact ⟨_, mem_update.mpr ⟨r, hmem, if_pos (decide_eq_true (List.mem_map_of_mem hr))⟩, rfl, rfl⟩
  | delivered made rows => cases hcall.symm.trans made
  | attempted made rows => cases hcall.symm.trans made

theorem drawn_step (hat : OutboxAt past e) (h : OutboxInv past e.before) :
    ∀ r ∈ e.after.rows, r.id ∈ e.after.drawn := by
  obtain ⟨heffect, hmono⟩ := outboxAt_effect hat
  intro r hr
  cases heffect with
  | quiet unclaimed unrecorded unmade rows => exact hmono (h.drawn r (rows ▸ hr))
  | enqueued made fresh rows drawn =>
    rw [rows] at hr
    rcases List.mem_append.mp hr with hr | hr
    · exact hmono (h.drawn r hr)
    · rw [List.mem_singleton.mp hr, drawn]
      exact List.mem_cons_self
  | claimed made rows =>
    rw [rows] at hr
    rcases update_cases hr with ⟨r₀, hr₀, -, rfl⟩ | ⟨hr, -⟩
    · exact hmono (h.drawn r₀ hr₀)
    · exact hmono (h.drawn r hr)
  | delivered made rows =>
    rw [rows] at hr
    exact hmono (h.drawn r (List.mem_filter.mp hr).1)
  | attempted made rows =>
    rw [rows] at hr
    rcases update_cases hr with ⟨r₀, hr₀, -, rfl⟩ | ⟨hr, -⟩
    · rw [attempted_id]
      exact hmono (h.drawn r₀ hr₀)
    · exact hmono (h.drawn r hr)

theorem used_step (hat : OutboxAt past e) (h : OutboxInv past e.before) :
    ∀ i id, Claimed (past ++ [e]) i id → id ∈ e.after.drawn := by
  intro i id hclaimed
  have hmono := (outboxAt_effect hat).2
  rcases claimed_snoc hclaimed with hclaimed | ⟨-, limit, items, hcall, hid⟩
  · exact hmono (h.used i id hclaimed)
  · obtain ⟨⟨r, hr, rfl, -⟩, -⟩ := claims hat hcall hid
    exact hmono (h.drawn r hr)

/-- A row that is claimed stays so, until its owner records the attempt. -/
theorem sending_step (hat : OutboxAt past e) (h : OutboxInv past e.before) :
    ∀ i id, Owns (past ++ [e]) i id → Sending e.after id := by
  intro i id howns
  rcases owns_snoc howns with ⟨howned, hnot⟩ | ⟨-, limit, items, hcall, hid⟩
  swap
  · exact (claims hat hcall hid).2
  obtain ⟨r, hr, rfl, hsending⟩ := h.sending i id howned
  have hother : ∀ {id' success error m}, e.call = ⟨.fedRecordAttempt id' success error m, .ok ()⟩ →
      r.id ≠ id' := by
    rintro id' success error m hcall rfl
    have howner := (owns_of_records hat h (congrArg Call.op hcall)).2
    exact hnot (h.unique _ _ _ howner howned) (by rw [hcall]; rfl)
  cases (outboxAt_effect hat).1 with
  | quiet unclaimed unrecorded unmade rows => exact ⟨r, rows ▸ hr, rfl, hsending⟩
  | enqueued made fresh rows drawn =>
    rw [Sending, rows]
    exact ⟨r, List.mem_append_left _ hr, rfl, hsending⟩
  | claimed made rows =>
    rw [Sending, rows]
    refine ⟨r, mem_update.mpr ⟨r, hr, if_neg ?_⟩, rfl, hsending⟩
    simpa using not_due_of_sending h.nodup hr hsending
  | delivered made rows =>
    rw [Sending, rows]
    exact ⟨r, List.mem_filter.mpr ⟨hr, decide_eq_true (hother made)⟩, rfl, hsending⟩
  | attempted made rows =>
    rw [Sending, rows]
    exact ⟨r, mem_update.mpr ⟨r, hr, if_neg (by simpa using hother made)⟩, rfl, hsending⟩

theorem unique_step (hat : OutboxAt past e) (h : OutboxInv past e.before) :
    ∀ i j id, Owns (past ++ [e]) i id → Owns (past ++ [e]) j id → i = j := by
  -- what is owned is not due
  have hnew : ∀ {i id limit items}, Owns past i id → e.call = ⟨.fedDueItems limit, .ok items⟩ →
      id ∈ items.map (·.id) → False := by
    intro i id limit items howned hcall hid
    obtain ⟨r, hr, rfl, hsending⟩ := h.sending i id howned
    obtain ⟨⟨r', hr', hid', hqueued⟩, -⟩ := claims hat hcall hid
    obtain rfl := eq_of_key_eq h.nodup hr' hr hid'
    rw [hsending] at hqueued
    cases hqueued
  intro i j id hi hj
  rcases owns_snoc hi with ⟨hi, -⟩ | ⟨hti, limit, items, hcall, hid⟩ <;>
    rcases owns_snoc hj with ⟨hj, -⟩ | ⟨htj, limit', items', hcall', hid'⟩
  · exact h.unique i j id hi hj
  · exact (hnew hi hcall' hid').elim
  · exact (hnew hj hcall hid).elim
  · exact hti.symm.trans htj

theorem counted_step (hat : OutboxAt past e) (h : OutboxInv past e.before) :
    ∀ r ∈ e.after.rows, r.attempts = failures (past ++ [e]) r.id ∧ r.attempts ≤ MAX_ATTEMPTS ∧
      (r.status = .failed ↔ r.attempts = MAX_ATTEMPTS) := by
  have hkept : ∀ r ∈ e.before.rows, failedId e.call ≠ some r.id →
      r.attempts = failures (past ++ [e]) r.id ∧ r.attempts ≤ MAX_ATTEMPTS ∧
        (r.status = .failed ↔ r.attempts = MAX_ATTEMPTS) := by
    intro r hr hne
    rw [failures_snoc, if_neg hne]
    exact h.counted r hr
  intro r hr
  cases (outboxAt_effect hat).1 with
  | quiet unclaimed unrecorded unmade rows =>
    refine hkept r (rows ▸ hr) fun hf => ?_
    rw [recordedId_of_failedId hf] at unrecorded
    cases unrecorded
  | @enqueued f p b id made fresh rows drawn =>
    rw [rows] at hr
    rcases List.mem_append.mp hr with hr | hr
    · exact hkept r hr (by simp [made, failedId])
    · obtain rfl := List.mem_singleton.mp hr
      have hzero : failures past id = 0 := by
        by_contra hne
        exact fresh (h.failing id hne)
      rw [failures_snoc, made]
      simp [failedId, hzero, MAX_ATTEMPTS]
  | claimed made rows =>
    rw [rows] at hr
    have hnone : ∀ id, failedId e.call ≠ some id := by simp [made, failedId]
    rcases update_cases hr with ⟨r₀, hr₀, hdue, rfl⟩ | ⟨hr, -⟩
    · obtain ⟨hcount, hle, hfailed⟩ := hkept r₀ hr₀ (hnone _)
      refine ⟨hcount, hle, fun hs => absurd hs (by simp), fun hmax => ?_⟩
      obtain ⟨r₁, hr₁, hid⟩ := List.mem_map.mp (of_decide_eq_true hdue)
      obtain ⟨hr₁mem, hqueued⟩ := mem_dueRows hr₁
      obtain rfl := eq_of_key_eq h.nodup hr₁mem hr₀ hid
      rw [hfailed.mpr hmax] at hqueued
      cases hqueued
    · exact hkept r hr (hnone _)
  | delivered made rows =>
    rw [rows] at hr
    exact hkept r (List.mem_filter.mp hr).1 (by simp [made, failedId])
  | @attempted id error m made rows =>
    rw [rows] at hr
    rcases update_cases hr with ⟨r₀, hr₀, hid, rfl⟩ | ⟨hr, hid⟩
    · obtain rfl := of_decide_eq_true hid
      obtain ⟨rfl, howns⟩ := owns_of_records hat h (congrArg Call.op made)
      obtain ⟨r₁, hr₁, hid₁, hsending⟩ := h.sending _ _ howns
      obtain rfl := eq_of_key_eq h.nodup hr₁ hr₀ hid₁
      obtain ⟨hcount, hle, hfailed⟩ := h.counted r₁ hr₀
      -- it was claimed, so it had not failed for good
      have hlt : r₁.attempts ≠ MAX_ATTEMPTS := fun hmax => by
        rw [hfailed.mpr hmax] at hsending
        cases hsending
      have hone : failedId e.call = some r₁.id := by rw [made]; rfl
      rw [attempted_id, attempted_attempts, attempted_status, failures_snoc, if_pos hone]
      refine ⟨by rw [hcount], by omega, ?_⟩
      split
      · simp
        omega
      · simp
        omega
    · refine hkept r hr ?_
      rw [made]
      simpa [failedId, eq_comm] using hid

theorem failing_step (hat : OutboxAt past e) (h : OutboxInv past e.before) :
    ∀ id, failures (past ++ [e]) id ≠ 0 → id ∈ e.after.drawn := by
  intro id hne
  obtain ⟨heffect, hmono⟩ := outboxAt_effect hat
  by_cases hf : failedId e.call = some id
  · cases heffect with
    | quiet unclaimed unrecorded unmade rows =>
      rw [recordedId_of_failedId hf] at unrecorded
      cases unrecorded
    | enqueued made fresh rows drawn => simp [made, failedId] at hf
    | claimed made rows => simp [made, failedId] at hf
    | delivered made rows => simp [made, failedId] at hf
    | attempted made rows =>
      obtain rfl : _ = id := by simpa [made, failedId] using hf
      exact hmono (h.used _ _ (owns_of_records hat h (congrArg Call.op made)).2.1)
  · rw [failures_snoc, if_neg hf] at hne
    exact hmono (h.failing id hne)

theorem kept_step (hat : OutboxAt past e) (h : OutboxInv past e.before) :
    ∀ x ∈ past ++ [e], ∀ f p b id, x.call = ⟨.fedEnqueue f p b, .ok id⟩ →
      id ∈ e.after.rows.map (·.id) ∨ Delivered (past ++ [e]) id := by
  -- rows go only when they are delivered
  have hstay : ∀ id ∈ e.before.rows.map (·.id),
      id ∈ e.after.rows.map (·.id) ∨ Delivered (past ++ [e]) id := by
    intro id hid
    cases (outboxAt_effect hat).1 with
    | quiet unclaimed unrecorded unmade rows => exact .inl (rows ▸ hid)
    | enqueued made fresh rows drawn =>
      rw [rows, List.map_append]
      exact .inl (List.mem_append_left _ hid)
    | claimed made rows =>
      rw [rows, map_update _ (by intro r; rfl)]
      exact .inl hid
    | attempted made rows =>
      rw [rows, map_update _ (fun r => attempted_id r _ _ _)]
      exact .inl hid
    | @delivered id' error m made rows =>
      by_cases heq : id = id'
      · subst heq
        have hguard := hat.guard
        rw [show e.call.op = _ from congrArg Call.op made] at hguard
        obtain ⟨-, item, hitem, ⟨done, rest, htook, -⟩, hposted⟩ := hguard
        obtain ⟨url, status, hpost, hstatus⟩ := hposted rfl
        refine .inr ⟨e, by simp, error, m, made, done ++ item :: rest, ?_, item, by simp, hitem, url,
          status, ?_, hstatus⟩
        · rw [callsOf_append]
          exact htook.append
        · rw [callsOf_append]
          exact List.mem_append_left _ hpost
      · rw [rows]
        obtain ⟨r, hr, rfl⟩ := List.mem_map.mp hid
        exact .inl (List.mem_map.mpr ⟨r, List.mem_filter.mpr ⟨hr, decide_eq_true heq⟩, rfl⟩)
  intro x hx f p b id hcall
  rcases List.mem_append.mp hx with hx | hx
  · rcases h.kept x hx f p b id hcall with hid | hdelivered
    · exact hstay id hid
    · exact .inr hdelivered.append
  · obtain rfl := List.mem_singleton.mp hx
    cases (outboxAt_effect hat).1 with
    | quiet unclaimed unrecorded unmade rows => exact absurd hcall (unmade f p b id)
    | enqueued made fresh rows drawn =>
      cases hcall.symm.trans made
      rw [rows, List.map_append]
      exact .inl (List.mem_append_right _ (List.mem_singleton_self _))
    | claimed made rows => cases hcall.symm.trans made
    | delivered made rows => cases hcall.symm.trans made
    | attempted made rows => cases hcall.symm.trans made

/-- **One step.** -/
theorem outboxInv_step (hat : OutboxAt past e) (h : OutboxInv past e.before) :
    OutboxInv (past ++ [e]) e.after :=
  ⟨nodup_step hat h, items_step hat h, drawn_step hat h, used_step hat h, sending_step hat h,
    unique_step hat h, counted_step hat h, kept_step hat h, failing_step hat h⟩

end Step

/-! ## Runs -/

section Runs

variable {past pre post : List OutboxEvent} {w : OutboxWorld} {e x : OutboxEvent} {i : ℕ} {id : Uuid}

/-- **Every past.** -/
theorem outboxInv_past (h : OutboxPast past w) : OutboxInv past w := by
  refine h.invariant (I := OutboxInv) ?_ fun past e hat _ ih => outboxInv_step hat ih
  refine ⟨List.nodup_nil, ?_, ?_, ?_, ?_, ?_, ?_, ?_, ?_⟩
  · rintro i items ⟨limit, rest, h⟩
    cases h
  · exact fun r hr => absurd hr List.not_mem_nil
  · rintro i id ⟨items, ⟨limit, rest, h⟩, -⟩
    cases h
  · rintro i id ⟨⟨items, ⟨limit, rest, h⟩, -⟩, -⟩
    cases h
  · rintro i j id ⟨⟨items, ⟨limit, rest, h⟩, -⟩, -⟩
    cases h
  · exact fun r hr => absurd hr List.not_mem_nil
  · exact fun e he => absurd he List.not_mem_nil
  · exact fun id hne => absurd rfl hne

theorem outboxPast_at (h : OutboxPast past w) (hsplit : past = pre ++ x :: post) :
    OutboxAt pre x ∧ OutboxPast (pre ++ [x]) x.after := by
  have hat := h.at_of_split hsplit
  exact ⟨hat, .snoc hat.earlier hat.possible hat.guard hat.same⟩

/-- A recorded attempt settles the item. -/
theorem settled_of_recorded (h : OutboxPast past w) (hrec : id ∈ recordedIds (callsOf i past)) :
    Settled past i id := by
  obtain ⟨c, hc, hcid⟩ := List.mem_filterMap.mp hrec
  obtain ⟨x, hx, rfl, rfl⟩ := mem_callsOf.mp hc
  obtain ⟨pre, post, hsplit⟩ := List.append_of_mem hx
  obtain ⟨hat, -⟩ := outboxPast_at h hsplit
  have hinv := outboxInv_past hat.earlier
  refine ⟨pre, x, post, hsplit, ?_, ?_⟩
  · unfold recordedId at hcid
    split at hcid
    · rename_i id' success error m u hcall
      cases hcid
      exact (owns_of_records hat hinv (congrArg Call.op hcall)).2.1
    · cases hcid
  · rintro ⟨r, hr, rfl, hsending⟩
    cases (outboxAt_effect hat).1 with
    | quiet unclaimed unrecorded unmade rows =>
      rw [unrecorded] at hcid
      cases hcid
    | enqueued made fresh rows drawn => simp [made, recordedId] at hcid
    | claimed made rows => simp [made, recordedId] at hcid
    | @delivered id' error m made rows =>
      obtain rfl : id' = r.id := by simpa [made, recordedId] using hcid
      rw [rows] at hr
      simpa using (List.mem_filter.mp hr).2
    | @attempted id' error m made rows =>
      have hid : id' = r.id := by simpa [made, recordedId] using hcid
      rw [rows] at hr
      rcases update_cases hr with ⟨r₀, -, -, rfl⟩ | ⟨-, hne⟩
      · rw [attempted_status] at hsending
        split at hsending <;> cases hsending
      · exact hne (decide_eq_true hid.symm)

/-- What a drain still owns is not settled. -/
theorem not_settled_of_owns (h : OutboxPast past w) (howns : Owns past i id) :
    ¬Settled past i id := by
  rintro ⟨pre, x, post, hsplit, hclaimed, hnot⟩
  obtain ⟨-, hpast⟩ := outboxPast_at h hsplit
  refine hnot ((outboxInv_past hpast).sending i id ⟨hclaimed.append, fun hmem => howns.2 ?_⟩)
  have hmore := mem_recordedIds_append hmem post
  rwa [List.append_assoc, List.singleton_append, ← hsplit] at hmore

theorem backoff_mono {m n : ℕ} (h : m ≤ n) : backoff m ≤ backoff n := by
  have hmin : min m 12 ≤ min n 12 := by omega
  have hpow : 2 ^ min m 12 ≤ 2 ^ min n 12 := Nat.pow_le_pow_right (by decide) hmin
  unfold backoff
  omega

/-- The delay goes by the number of failures. -/
theorem delay_eq (hat : OutboxAt past e) {d : ℤ} (h : Requeued e id d) :
    d = backoff (failures (past ++ [e]) id) := by
  obtain ⟨hfailed, r, hr, rfl, hqueued, hnext⟩ := h
  have hinv := outboxInv_past hat.earlier
  have hcount := (counted_step hat hinv r hr).1
  cases (outboxAt_effect hat).1 with
  | quiet unclaimed unrecorded unmade rows =>
    rw [recordedId_of_failedId hfailed] at unrecorded
    cases unrecorded
  | enqueued made fresh rows drawn => simp [made, failedId] at hfailed
  | claimed made rows => simp [made, failedId] at hfailed
  | delivered made rows => simp [made, failedId] at hfailed
  | @attempted id' error m made rows =>
    have hid : id' = r.id := by simpa [made, failedId] using hfailed
    rw [← hcount]
    rw [rows] at hr
    rcases update_cases hr with ⟨r₀, -, -, rfl⟩ | ⟨-, hne⟩
    · rw [attempted_status] at hqueued
      rw [attempted_attempts]
      unfold OutboxRow.attempted at hnext
      split at hqueued
      · cases hqueued
      · rename_i hlt
        rw [if_neg hlt] at hnext
        dsimp only at hnext
        omega
    · exact absurd (decide_eq_true hid.symm) hne

theorem failures_mono (past more : List OutboxEvent) (id : Uuid) :
    failures past id ≤ failures (past ++ more) id := by
  rw [failures, failures, List.filterMap_append, List.count_append]
  exact Nat.le_add_right _ _

theorem delays_of_past (h : OutboxPast past w) {mid : List OutboxEvent} {y : OutboxEvent} {d d' : ℤ}
    (hsplit : past = pre ++ x :: (mid ++ y :: post)) (hx : Requeued x id d)
    (hy : Requeued y id d') : d ≤ d' ∧ d' ≤ 3600 := by
  have hxat := (outboxPast_at h hsplit).1
  have hysplit : past = (pre ++ x :: mid) ++ y :: post := by rw [hsplit]; simp
  have hyat := (outboxPast_at h hysplit).1
  rw [delay_eq hxat hx, delay_eq hyat hy]
  have hmono := failures_mono (pre ++ [x]) (mid ++ [y]) id
  rw [show pre ++ [x] ++ (mid ++ [y]) = pre ++ x :: mid ++ [y] by simp] at hmono
  have hle := backoff_mono hmono
  have hmax : backoff (failures (pre ++ x :: mid ++ [y]) id) ≤ 3600 := Nat.min_le_right ..
  exact ⟨by exact_mod_cast hle, by exact_mod_cast hmax⟩

end Runs

theorem outboxRun_specified (moves : List OutboxMove) :
    (outboxRun moves).Specified OutboxOp.exec OutboxBefore OutboxAnswered ⟨[], []⟩ :=
  run_specified outboxHandle_spec moves specified_init

theorem noneCut_of_laws {moves : List OutboxMove} (h : OutboxLaws (outboxRun moves)) :
    NoneCut (outboxRun moves) := by
  have hspec := outboxRun_specified moves
  intro i a ha items htook c hc hfailed
  obtain ⟨r, -, hanswered⟩ := hspec.answered ha
  rcases hanswered items htook with ⟨-, hfine⟩ | ⟨item, ⟨done, rest, htook', hrec⟩, -⟩
  · exact hfine c hc hfailed
  · -- the item that was not attempted is still claimed
    have hclaimed : Claimed (outboxRun moves).past i item.id := ⟨_, htook', by simp⟩
    have hnd := (outboxInv_past hspec.past).items i _ htook'
    have howns : Owns (outboxRun moves).past i item.id := by
      refine ⟨hclaimed, ?_⟩
      rw [hrec]
      simp only [List.map_append, List.map_cons, List.nodup_append, List.mem_cons] at hnd
      exact fun hmem => hnd.2.2 item.id hmem item.id (.inl rfl) rfl
    exact not_settled_of_owns hspec.past howns (h.settled i a ha item.id hclaimed)

/-- **The outbox keeps its promises exactly if no drain is cut short**: in every run of enqueues
and drains, in any order, with any failures. -/
theorem outboxLaws_iff (moves : List OutboxMove) :
    OutboxLaws (outboxRun moves) ↔ NoneCut (outboxRun moves) := by
  refine ⟨noneCut_of_laws, fun hcut => ?_⟩
  have hspec := outboxRun_specified moves
  have hinv := outboxInv_past hspec.past
  refine ⟨?_, hinv.kept, hinv.counted, ?_⟩
  · rintro i a ha id ⟨items, htook, hid⟩
    obtain ⟨r, -, hanswered⟩ := hspec.answered ha
    rcases hanswered items htook with ⟨hrec, -⟩ | ⟨item, -, c, hc, hfailed⟩
    · exact settled_of_recorded hspec.past (hrec ▸ hid)
    · exact absurd hfailed (hcut i a ha items htook c hc)
  · intro pre x mid y post id d d' hsplit hx hy
    exact delays_of_past hspec.past hsplit hx hy

/-! ## One pass without a client -/

/-- One notification is enqueued; the worker claims it, and has no client. -/
def noClient : List OutboxMove :=
  [.start (.enqueue "f" "a.test" []), .call 0 { id := 1 }, .start (.drain 32), .call 1 {},
    .call 1 { client := .error "no server key" }]

/-- **The claimed row stays claimed.** -/
theorem not_outboxLaws_noClient : ¬OutboxLaws (outboxRun noClient) := by
  intro h
  refine noneCut_of_laws h 1 (.error (.client "no server key")) rfl
    [⟨1, "f", "a.test", [], 0⟩] ⟨32, [⟨.buildClient, .error (.client "no server key")⟩], rfl⟩
    ⟨.buildClient, .error (.client "no server key")⟩ ?_ rfl
  exact List.mem_cons_of_mem _ (List.mem_singleton_self _)

end Owney.Outbox
