import Mathlib.Data.Prod.Lex
import Mathlib.Data.String.Basic
import Mathlib.Order.WithBot
import Owney.Scheduling

/-!
# Federated calendars in the store

A federation shares a calendar of one server with another server. The subscribing side
keeps a mirror: a calendar of its own, filled with events of origin `remote`, and a map
from the event ids of its peer to local ones. The calls of `calendar_sharing.rs` and
`federation_store.rs` on both, next to all calendar calls of `SchedulingStore`, and the
page of events the serving side sends (`list_calendar_events_page`).
-/

namespace Owney

open Tables

/-! ## Rows -/

/-- The `status` column of a federation. -/
inductive FederationStatus where
  | pending
  | accepted
  | rejected
  | syncing
  | error
  deriving DecidableEq, Repr

/-- The `direction` column of a federation. -/
inductive FederationDirection where
  | outbound
  | inbound
  deriving DecidableEq, Repr

/-- A row of `calendar_federation`, without the columns a pull does not read. -/
structure CalendarFederation where
  id : String
  calendarId : CalendarId
  targetEmail : String
  targetServerUrl : String
  status : FederationStatus
  /-- `since|after`, where the last pull ended -/
  syncToken : Option String
  lastSyncAt : Option ℤ
  peerDomain : Option String
  peerFingerprint : Option String
  capabilitySecret : Option String
  direction : Option FederationDirection
  deriving DecidableEq, Repr

/-- A row of `federation_event_map`. -/
structure FederationEventRow where
  federationId : String
  remoteUid : String
  localEventId : EventId
  authorEmail : String
  updatedAt : ℤ
  deriving DecidableEq, Repr

/-- The tables of the subscribing side. -/
structure MirrorDb extends SchedulingDb where
  federations : List CalendarFederation
  eventMap : List FederationEventRow

/-- No federations. -/
def MirrorDb.empty : MirrorDb := ⟨.empty, [], []⟩

/-! ## Federation calls -/

/-- A row as it is inserted: nothing was pulled yet. -/
def CalendarFederation.unsynced (row : CalendarFederation) : CalendarFederation :=
  { row with syncToken := none, lastSyncAt := none }

/-- `create_outbound_federation` and `create_inbound_federation`: the key and the pair of
calendar and address are new, and the calendar exists. -/
def insertFederationTx (io : Io) (row : CalendarFederation) : Tx MirrorDb PUnit := do
  let db ← Tx.get
  Tx.require (row.id ∉ db.federations.map (·.id)) .sqlite
  Tx.require ((row.calendarId, row.targetEmail) ∉
    db.federations.map fun f => (f.calendarId, f.targetEmail)) .sqlite
  Tx.require (row.calendarId ∈ db.calendars.map (·.id)) .sqlite
  Tx.exec io 0 fun db => { db with federations := db.federations ++ [row.unsynced] }

/-- A pending invitation to a calendar of the account. -/
def MirrorDb.invited (db : MirrorDb) (accountId : AccountId) (f : CalendarFederation) : Bool :=
  f.direction = some .inbound ∧ f.status = .pending ∧
    db.calendars.any fun c => c.id = f.calendarId ∧ c.accountId = accountId

/-- `accept_inbound_federation` and `reject_inbound_federation`. -/
def answerFederationTx (io : Io) (id : String) (accountId : AccountId)
    (status : FederationStatus) : Tx MirrorDb PUnit := do
  let db ← Tx.get
  Tx.require (db.federations.any fun f => f.id = id ∧ db.invited accountId f) .notAuthorized
  Tx.exec io 0 fun db =>
    { db with
      federations := update (fun f => f.id = id ∧ db.invited accountId f)
        (fun f => { f with status }) db.federations }

/-- `Storage::get_federation`. -/
def getFederationTx (io : Io) (id : String) : Tx MirrorDb (Option CalendarFederation) :=
  Tx.query io 0 fun db => db.federations.find? (·.id = id)

/-- An accepted federation that we subscribe to. -/
def CalendarFederation.Active (f : CalendarFederation) : Prop :=
  f.direction = some .inbound ∧ (f.status = .accepted ∨ f.status = .syncing)

instance (f : CalendarFederation) : Decidable f.Active := inferInstanceAs (Decidable (_ ∧ _))

/-- `last_sync_at ASC NULLS FIRST`. -/
def CalendarFederation.lastSync (f : CalendarFederation) : WithBot ℤ :=
  f.lastSyncAt.elim ⊥ fun t => t

/-- `Storage::list_active_federations`: those never pulled come first. -/
def listActiveFederationsTx (io : Io) : Tx MirrorDb (List CalendarFederation) :=
  Tx.query io 0 fun db => orderBy (·.lastSync) (db.federations.filter (·.Active))

/-- `Storage::update_federation_sync_token`. -/
def updateFederationSyncTokenTx (io : Io) (id : String) (token : Option String) (now : ℤ) :
    Tx MirrorDb PUnit :=
  Tx.exec io 0 fun db =>
    { db with
      federations := update (·.id = id)
        (fun f => { f with syncToken := token, lastSyncAt := some now, status := .syncing })
        db.federations }

/-- `Storage::mark_federation_error`. -/
def markFederationErrorTx (io : Io) (id : String) : Tx MirrorDb PUnit :=
  Tx.exec io 0 fun db =>
    { db with
      federations := update (·.id = id) (fun f => { f with status := .error }) db.federations }

/-! ## The event map -/

/-- `Storage::federation_local_event`. -/
def federationLocalEventTx (io : Io) (federationId remoteUid : String) :
    Tx MirrorDb (Option EventId) :=
  Tx.query io 0 fun db =>
    (db.eventMap.find? fun m => m.federationId = federationId ∧ m.remoteUid = remoteUid).map
      (·.localEventId)

/-- `Storage::set_federation_event_map`; the foreign keys ask for both rows. -/
def setFederationEventMapTx (io : Io) (federationId remoteUid : String)
    (localEventId : EventId) (authorEmail : String) (now : ℤ) : Tx MirrorDb PUnit := do
  let db ← Tx.get
  Tx.require (federationId ∈ db.federations.map (·.id)) .sqlite
  Tx.require (localEventId ∈ db.events.map (·.id)) .sqlite
  Tx.exec io 0 fun db =>
    { db with
      eventMap := upsert (fun m => m.federationId = federationId ∧ m.remoteUid = remoteUid)
        (fun m => { m with localEventId, authorEmail, updatedAt := now })
        ⟨federationId, remoteUid, localEventId, authorEmail, now⟩ db.eventMap }

/-! ## Calendar calls -/

/-- The body of a calendar call, on the larger database. -/
def onScheduling {α : Type} (body : Tx SchedulingDb α) : Tx MirrorDb α := fun db =>
  (body db.toSchedulingDb).map fun r => (r.1, { db with toSchedulingDb := r.2 })

/-- What a calendar call does to the larger database. The foreign key of the map keeps a
mapped event. -/
def MirrorDb.schedulingStep (L : Locale) (db : MirrorDb) (o : SchedulingOp) : MirrorDb :=
  let next := { db with toSchedulingDb := Owney.schedulingStep L db.toSchedulingDb o }
  match o with
  | .deleteCalendarEvent _ id => if id ∈ db.eventMap.map (·.localEventId) then db else next
  | _ => next

/-- The fresh event id of a calendar call. -/
def SchedulingOp.freshEvent : SchedulingOp → Option EventId
  | .createCalendarEvent _ new | .createRemoteCalendarEvent _ _ new => some new.id
  | .bookSlot _ _ fresh => some fresh.eventId
  | _ => none

/-- A call that is made for a local user: none of those for events from a peer. -/
def SchedulingOp.Local : SchedulingOp → Prop
  | .createRemoteCalendarEvent .. | .updateRemoteCalendarEvent .. => False
  | _ => True

instance (o : SchedulingOp) : Decidable o.Local := by
  unfold SchedulingOp.Local
  split <;> infer_instance

/-! ## Serving -/

/-- The printed form. -/
def EventId.text (id : EventId) : String := id.uuid.toString

/-- A place in the order of `list_calendar_events_page`: by time, then by id. -/
abbrev Position : Type := ℤ ×ₗ String

/-- The place of an event. -/
def CalendarEvent.position (e : CalendarEvent) : Position := toLex (e.updatedAt, e.id.text)

/-- An event that is served: on the calendar, and not synced in itself. -/
def CalendarEvent.Served (calendarId : CalendarId) (e : CalendarEvent) : Prop :=
  e.calendarId = calendarId ∧ e.origin ≠ some "remote"

instance (calendarId : CalendarId) (e : CalendarEvent) : Decidable (e.Served calendarId) :=
  inferInstanceAs (Decidable (_ ∧ _))

/-- `Storage::list_calendar_events_page`. -/
def listCalendarEventsPage (db : SchedulingDb) (calendarId : CalendarId)
    (afterUpdatedAt : ℤ) (afterId : String) (limit : ℕ) (excludeRemote : Bool) :
    List CalendarEvent :=
  (orderBy (·.position) (db.events.filter fun e =>
    e.calendarId = calendarId ∧ (excludeRemote = false ∨ e.origin ≠ some "remote") ∧
      (e.updatedAt > afterUpdatedAt ∨
        (e.updatedAt = afterUpdatedAt ∧ e.id.text > afterId)))).take limit

end Owney
