import Owney.Lib.Programs
import Owney.Lib.Tables
import Owney.Transaction

/-!
# The federation outbox

`federation_outbox` of `owney-storage/src/federation_store.rs`, and the worker of
`owney-api/src/fed_worker.rs` that drains it.

* `fedEnqueueTx`, `fedDueItemsTx`, `fedRecordAttemptTx` — the calls on the table. A claim flips
  due rows from `queued` to `sending`; an attempt deletes its row, queues it again with a
  delay, or parks it as `failed`.
* `drainOnce` — claim a batch, build the client, then attempt the items one after the other.
* `OutboxBefore`, `OutboxAnswered` — what the worker did before a call and when it returns,
  from one pass through the program.
-/

namespace Owney.Outbox

open Programs Tables

/-! ## The table -/

/-- The `status` column. -/
inductive OutboxStatus where
  | queued
  | sending
  | failed
  deriving DecidableEq, Repr

/-- A row of `federation_outbox`. -/
structure OutboxRow where
  id : Uuid
  federationId : String
  peerDomain : String
  payload : List UInt8
  attempts : ℕ
  nextAttempt : ℤ
  status : OutboxStatus
  lastError : Option String
  createdAt : ℤ
  updatedAt : ℤ
  deriving DecidableEq, Repr

/-- `FederationOutboxItem`. -/
structure FederationOutboxItem where
  id : Uuid
  federationId : String
  peerDomain : String
  payload : List UInt8
  attempts : ℕ
  deriving DecidableEq, Repr

/-- The columns a claim returns. -/
def OutboxRow.item (r : OutboxRow) : FederationOutboxItem :=
  ⟨r.id, r.federationId, r.peerDomain, r.payload, r.attempts⟩

/-- The table. -/
abbrev OutboxDb : Type := List OutboxRow

/-- `Storage::fed_enqueue`. -/
def fedEnqueueTx (io : Io) (federationId peerDomain : String) (payload : List UInt8) (id : Uuid)
    (now : ℤ) : Tx OutboxDb Uuid := do
  let db ← Tx.get
  Tx.require (id ∉ db.map (·.id)) .sqlite
  Tx.exec io 0 (· ++ [⟨id, federationId, peerDomain, payload, 0, now, .queued, none, now, now⟩])
  return id

/-- The rows a claim takes. -/
def dueRows (db : OutboxDb) (limit : ℕ) (now : ℤ) : List OutboxRow :=
  (orderBy (·.nextAttempt) (db.filter fun r => r.status = .queued ∧ r.nextAttempt ≤ now)).take limit

/-- `Storage::fed_due_items`. -/
def fedDueItemsTx (io : Io) (limit : ℕ) (now : ℤ) : Tx OutboxDb (List FederationOutboxItem) := do
  let db ← Tx.get
  let due := dueRows db limit now
  Tx.exec io 0 (update (fun r => r.id ∈ due.map (·.id))
    (fun r => { r with status := .sending, updatedAt := now }))
  return due.map (·.item)

/-- `2_i64.saturating_pow(attempts.min(12)).min(3600)`, in seconds. -/
def backoff (attempts : ℕ) : ℕ := min (2 ^ min attempts 12) 3600

/-- What a failed attempt makes of a row. -/
def OutboxRow.attempted (r : OutboxRow) (error : Option String) (maxAttempts : ℕ) (now : ℤ) :
    OutboxRow :=
  if maxAttempts ≤ r.attempts + 1 then
    { r with status := .failed, attempts := r.attempts + 1, lastError := error, updatedAt := now }
  else
    { r with
      status := .queued
      attempts := r.attempts + 1
      lastError := error
      nextAttempt := now + backoff (r.attempts + 1)
      updatedAt := now }

/-- `Storage::fed_record_attempt`. -/
def fedRecordAttemptTx (io : Io) (id : Uuid) (success : Bool) (error : Option String)
    (maxAttempts : ℕ) (now : ℤ) : Tx OutboxDb PUnit :=
  if success then Tx.exec io 0 (·.filter fun r => r.id ≠ id)
  else do
    let db ← Tx.get
    Tx.require (io 0 ∧ id ∈ db.map (·.id)) .sqlite
    Tx.exec io 1 (update (·.id = id) (·.attempted error maxAttempts now))

/-! ## The worker -/

/-- A call of the worker, or of the code that enqueues. -/
inductive OutboxOp where
  | fedEnqueue (federationId peerDomain : String) (payload : List UInt8)
  | fedDueItems (limit : ℕ)
  /-- `federation::build_client` -/
  | buildClient
  /-- `Storage::federation_peer`; of the row, the URL of the server is used -/
  | federationPeer (domain : String)
  | postJson (url peerDomain : String) (payload : List UInt8)
  | fedRecordAttempt (id : Uuid) (success : Bool) (error : Option String) (maxAttempts : ℕ)

/-- What a call returns when it succeeds. A request that fails is no error of the worker. -/
abbrev OutboxOp.Val : OutboxOp → Type
  | .fedEnqueue .. => Uuid
  | .fedDueItems _ => List FederationOutboxItem
  | .buildClient | .fedRecordAttempt .. => Unit
  | .federationPeer _ => Option String
  | .postJson .. => Except String ℕ

/-- What ends the worker's pass. -/
inductive DrainError where
  | storage (e : StorageError)
  | client (text : String)
  deriving DecidableEq, Repr

/-- What a call returns. -/
abbrev OutboxOp.Ret (o : OutboxOp) : Type := Except DrainError o.Val

/-- What the outside world decides about a call. -/
structure OutboxChoice where
  io : Io := Io.ok
  id : Uuid := 0
  now : ℤ := 0
  client : Except String Unit := .ok ()
  peer : Except StorageError (Option String) := .ok none
  /-- the status of the response, or no response -/
  reply : Except String ℕ := .error ""

/-- The table, and the ids that were drawn for it. -/
structure OutboxWorld where
  rows : OutboxDb
  drawn : List Uuid

/-- A call on the table. -/
def OutboxWorld.call {α : Type} (w : OutboxWorld) (body : Tx OutboxDb α) :
    Except DrainError α × OutboxWorld :=
  ((transaction body w.rows).1.mapError .storage, { w with rows := (transaction body w.rows).2 })

/-- Make a call. Ids are fresh. -/
def OutboxOp.exec : (o : OutboxOp) → OutboxChoice → OutboxWorld → Option (o.Ret × OutboxWorld)
  | .fedEnqueue federationId peerDomain payload, c, w =>
    if c.id ∈ w.drawn then none
    else some ({ w with drawn := c.id :: w.drawn }.call
      (fedEnqueueTx c.io federationId peerDomain payload c.id c.now))
  | .fedDueItems limit, c, w => some (w.call (fedDueItemsTx c.io limit c.now))
  | .buildClient, c, w => some (c.client.mapError .client, w)
  | .federationPeer _, c, w => some (c.peer.mapError .storage, w)
  | .postJson .., c, w => some (.ok c.reply, w)
  | .fedRecordAttempt id success error maxAttempts, c, w =>
    some (w.call (fedRecordAttemptTx c.io id success error maxAttempts c.now))

/-- A program. -/
abbrev OutboxProg (α : Type) : Type := ExceptT DrainError (Prog OutboxOp.Ret) α

/-- One call; its error ends the program. -/
def outbox (o : OutboxOp) : OutboxProg o.Val := Prog.ask o

/-- `MAX_ATTEMPTS`. -/
def MAX_ATTEMPTS : ℕ := 8

/-- The outcome of a request: whether it was a success, and the text that is stored. -/
def postOutcome : Except String ℕ → Bool × Option String
  | .ok status => if 200 ≤ status ∧ status < 300 then (true, none)
    else (false, some ("status " ++ toString status))
  | .error e => (false, some e)

/-- One round of the loop: whether the item was delivered. -/
def deliverItem (item : FederationOutboxItem) : OutboxProg Bool := do
  match ← outbox (.federationPeer item.peerDomain) with
  | none =>
    outbox (.fedRecordAttempt item.id false (some "peer not pinned") MAX_ATTEMPTS)
    return false
  | some serverUrl =>
    let reply ← outbox (.postJson (serverUrl ++ "/.well-known/owney/calendar/notify")
      item.peerDomain item.payload)
    outbox (.fedRecordAttempt item.id (postOutcome reply).1 (postOutcome reply).2 MAX_ATTEMPTS)
    return (postOutcome reply).1

/-- The loop of `drain_once`. -/
def deliverItems : List FederationOutboxItem → ℕ → OutboxProg ℕ
  | [], delivered => return delivered
  | item :: items, delivered => do
    let ok ← deliverItem item
    deliverItems items (if ok then delivered + 1 else delivered)

/-- `NotifyWorker::drain_once`; `batch` is 32. -/
def drainOnce (batch : ℕ) : OutboxProg ℕ := do
  let items ← outbox (.fedDueItems batch)
  if items.isEmpty then return 0
  else do
    outbox .buildClient
    deliverItems items 0

/-- What starts a program. -/
inductive OutboxRequest where
  | enqueue (federationId peerDomain : String) (payload : List UInt8)
  | drain (batch : ℕ)

/-- What a program answers. -/
abbrev OutboxAnswer : Type := Except DrainError ℕ

/-- The program of a request. -/
def outboxHandle : OutboxRequest → Prog OutboxOp.Ret OutboxAnswer
  | .enqueue federationId peerDomain payload =>
    (do let _ ← outbox (.fedEnqueue federationId peerDomain payload); return 0 : OutboxProg ℕ).run
  | .drain batch => (drainOnce batch).run

/-- The worker with all that was ever enqueued. -/
abbrev OutboxSys : Type := Sys OutboxOp.Ret OutboxRequest OutboxAnswer OutboxChoice OutboxWorld

/-- A program starts, or makes its next call. -/
abbrev OutboxMove : Type := Move OutboxRequest OutboxChoice

/-- An empty outbox, after some moves. -/
def outboxRun (moves : List OutboxMove) : OutboxSys :=
  Runs.run (step outboxHandle OutboxOp.exec) (Sys.init ⟨[], []⟩) moves

/-! ## Before a call, and at the end -/

/-- The calls of a program. -/
abbrev OutboxCalls : Type := List (Call OutboxOp.Ret)

/-- The call returned an error. -/
def failed (c : Call OutboxOp.Ret) : Bool :=
  match c.res with
  | .ok _ => false
  | .error _ => true

/-- The item whose attempt was recorded. -/
def recordedId : Call OutboxOp.Ret → Option Uuid
  | ⟨.fedRecordAttempt id _ _ _, .ok _⟩ => some id
  | _ => none

/-- The items whose attempts were recorded, in order. -/
def recordedIds (cs : OutboxCalls) : List Uuid := cs.filterMap recordedId

/-- The program claimed the items, first of all. -/
def Took (cs : OutboxCalls) (items : List FederationOutboxItem) : Prop :=
  ∃ limit rest, cs = ⟨.fedDueItems limit, .ok items⟩ :: rest

/-- The attempts of the items up to this one were recorded, and no others. -/
def UpTo (cs : OutboxCalls) (item : FederationOutboxItem) : Prop :=
  ∃ done rest, Took cs (done ++ item :: rest) ∧ recordedIds cs = done.map (·.id)

/-- What was the case before a call. -/
def OutboxBefore (r : OutboxRequest) (cs : OutboxCalls) : OutboxOp → Prop
  | .fedEnqueue .. => cs = []
  | .fedDueItems _ => cs = []
  | .fedRecordAttempt id success _ maxAttempts => maxAttempts = MAX_ATTEMPTS ∧
    ∃ item, item.id = id ∧ UpTo cs item ∧ (success → ∃ url status,
      ⟨.postJson url item.peerDomain item.payload, .ok (.ok status)⟩ ∈ cs ∧ 200 ≤ status ∧
        status < 300)
  | _ => ∃ batch, r = .drain batch

/-- What is the case when the program returns: all claimed items were attempted, or a call
failed and some item was not. -/
def OutboxAnswered (_ : OutboxRequest) (cs : OutboxCalls) (_ : OutboxAnswer) : Prop :=
  ∀ items, Took cs items → (recordedIds cs = items.map (·.id) ∧ ∀ c ∈ cs, ¬failed c) ∨
    ∃ item, UpTo cs item ∧ ∃ c ∈ cs, failed c

section Specs

variable {r : OutboxRequest} {cs : OutboxCalls} {items done : List FederationOutboxItem}
  {item : FederationOutboxItem}

theorem Took.append {more : OutboxCalls} (h : Took cs items) : Took (cs ++ more) items := by
  obtain ⟨limit, rest, rfl⟩ := h
  exact ⟨limit, rest ++ more, rfl⟩

theorem Took.unique {items' : List FederationOutboxItem} (h : Took cs items)
    (h' : Took cs items') : items = items' := by
  obtain ⟨limit, rest, rfl⟩ := h
  obtain ⟨limit', rest', heq⟩ := h'
  cases (List.cons.inj heq).1
  rfl

/-- Where the loop is: all went well so far. -/
structure InLoop (cs : OutboxCalls) (done rest : List FederationOutboxItem) : Prop where
  took : Took cs (done ++ rest)
  recorded : recordedIds cs = done.map (·.id)
  fine : ∀ c ∈ cs, ¬failed c

/-- A call of the loop that records nothing. -/
theorem InLoop.append {rest : List FederationOutboxItem} (h : InLoop cs done rest)
    {o : OutboxOp} {v : o.Val} (hnone : recordedId ⟨o, .ok v⟩ = none) :
    InLoop (cs ++ [⟨o, .ok v⟩]) done rest := by
  refine ⟨h.took.append, ?_, ?_⟩
  · rw [recordedIds, List.filterMap_append, ← recordedIds, h.recorded]
    simp [hnone]
  · rintro x hx
    rcases List.mem_append.mp hx with hx | hx
    · exact h.fine x hx
    · rw [List.mem_singleton.mp hx]
      exact Bool.false_ne_true

/-- A call of the loop that fails ends the program before the item was recorded. -/
theorem InLoop.answered {rest : List FederationOutboxItem} (h : InLoop cs done (item :: rest))
    {o : OutboxOp} {e : DrainError} {a : OutboxAnswer} :
    OutboxAnswered r (cs ++ [⟨o, .error e⟩]) a := by
  intro items htook
  refine .inr ⟨item, ⟨done, rest, h.took.append, ?_⟩, ⟨o, .error e⟩, by simp, rfl⟩
  rw [recordedIds, List.filterMap_append, ← recordedIds, h.recorded]
  cases o <;> simp [recordedId]

/-- After a round of the loop: it goes on, or the program has ended. -/
def AfterRound {α : Type} (r : OutboxRequest) (done rest : List FederationOutboxItem)
    (cs : OutboxCalls) : Except DrainError α → Prop
  | .ok _ => InLoop cs done rest
  | .error e => OutboxAnswered r cs (.error e)

/-- Recording the attempt of an item. -/
theorem record_spec {α : Type} {rest : List FederationOutboxItem}
    (h : InLoop cs done (item :: rest)) {success : Bool} {error : Option String} {a : α}
    (hposted : success → ∃ url status,
      ⟨.postJson url item.peerDomain item.payload, .ok (.ok status)⟩ ∈ cs ∧ 200 ≤ status ∧
        status < 300) :
    (do outbox (.fedRecordAttempt item.id success error MAX_ATTEMPTS); return a :
      OutboxProg α).run.Spec (OutboxBefore r) (AfterRound r (done ++ [item]) rest) cs := by
  refine Prog.spec_ask_bind.mpr ⟨⟨rfl, item, rfl, ⟨done, rest, h.took, h.recorded⟩, hposted⟩,
    fun _ => ?_, fun e => h.answered (r := r) (a := .error e)⟩
  refine ⟨?_, ?_, ?_⟩
  · rw [List.append_assoc]
    exact h.took.append
  · rw [recordedIds, List.filterMap_append, ← recordedIds, h.recorded, List.map_append]
    rfl
  · rintro x hx
    rcases List.mem_append.mp hx with hx | hx
    · exact h.fine x hx
    · rw [List.mem_singleton.mp hx]
      exact Bool.false_ne_true

theorem postOutcome_true {reply : Except String ℕ} (h : (postOutcome reply).1) :
    ∃ status, reply = .ok status ∧ 200 ≤ status ∧ status < 300 := by
  rcases reply with e | status
  · cases h
  · simp only [postOutcome] at h
    split at h
    · rename_i hstatus
      exact ⟨status, rfl, hstatus⟩
    · cases h

theorem deliverItem_spec {batch : ℕ} (hr : r = .drain batch) {rest : List FederationOutboxItem}
    (h : InLoop cs done (item :: rest)) :
    (deliverItem item).run.Spec (OutboxBefore r) (AfterRound r (done ++ [item]) rest) cs := by
  refine Prog.spec_ask_bind.mpr ⟨⟨batch, hr⟩, ?_, fun e => h.answered (r := r) (a := .error e)⟩
  rintro (_ | serverUrl)
  · have hpeer := h.append (o := .federationPeer item.peerDomain) (v := none) rfl
    exact record_spec hpeer fun hfalse => absurd hfalse Bool.false_ne_true
  · have hpeer := h.append (o := .federationPeer item.peerDomain) (v := some serverUrl) rfl
    refine Prog.spec_ask_bind.mpr ⟨⟨batch, hr⟩, fun reply => ?_,
      fun e => hpeer.answered (r := r) (a := .error e)⟩
    have hposted := hpeer.append (v := reply)
      (o := .postJson (serverUrl ++ "/.well-known/owney/calendar/notify") item.peerDomain
        item.payload) rfl
    refine record_spec hposted fun hok => ?_
    obtain ⟨status, rfl, hstatus⟩ := postOutcome_true hok
    exact ⟨_, status, List.mem_append_right _ (List.mem_singleton_self _), hstatus⟩

theorem deliverItems_spec {batch : ℕ} (hr : r = .drain batch)
    (rest : List FederationOutboxItem) (h : InLoop cs done rest) (delivered : ℕ) :
    (deliverItems rest delivered).run.Spec (OutboxBefore r) (OutboxAnswered r) cs := by
  induction rest generalizing cs done delivered with
  | nil =>
    refine Prog.spec_return.mpr fun items htook => .inl ⟨?_, h.fine⟩
    rw [htook.unique h.took, List.append_nil, h.recorded]
  | cons item rest ih =>
    refine Prog.spec_bind_except (deliverItem_spec hr h) (fun more ok hloop => ?_)
      fun more e hanswered => hanswered
    exact ih hloop _

theorem drainOnce_spec {batch : ℕ} (hr : r = .drain batch) :
    (drainOnce batch).run.Spec (OutboxBefore r) (OutboxAnswered r) [] := by
  refine Prog.spec_ask_bind.mpr ⟨rfl, fun items => ?_, fun e => ?_⟩
  · have hloop : InLoop [⟨.fedDueItems batch, .ok items⟩] [] items :=
      ⟨⟨batch, [], rfl⟩, rfl, by simp [failed]⟩
    rcases items with _ | ⟨item, items⟩
    · refine Prog.spec_return.mpr fun items htook => .inl ⟨?_, hloop.fine⟩
      rw [htook.unique hloop.took]
      rfl
    · refine Prog.spec_ask_bind.mpr ⟨⟨batch, hr⟩, fun _ => ?_, fun e => hloop.answered⟩
      exact deliverItems_spec hr _ (hloop.append rfl) 0
  · rintro items ⟨limit, rest, heq⟩
    cases (List.cons.inj heq).1

/-- **Both programs** meet their specification. -/
theorem outboxHandle_spec (r : OutboxRequest) :
    (outboxHandle r).Spec (OutboxBefore r) (OutboxAnswered r) [] := by
  cases r with
  | enqueue federationId peerDomain payload =>
    refine Prog.spec_ask_bind.mpr ⟨rfl, fun id => ?_, fun e => ?_⟩
    · rintro items ⟨limit, rest, heq⟩
      cases (List.cons.inj heq).1
    · rintro items ⟨limit, rest, heq⟩
      cases (List.cons.inj heq).1
  | drain batch => exact drainOnce_spec rfl

end Specs

end Owney.Outbox
