import Owney.Lib.Runs
import Owney.Lib.Tables
import Owney.SchedulingPages

/-!
# Calendars, events and bookings

The calls of `calendar.rs` and `scheduling.rs` that write, over the tables
`calendars`, `calendar_events`, `scheduling_pages` and `bookings`, and the step of a
system that runs them one after the other on the writer thread.

`bookSlotTx` is `Storage::book_slot`: the page must be active, no event on any
calendar of its owner and no confirmed booking of the owner may overlap the busy
interval, and the day's quota must not be used up. `bookSlotTx_ok` says all of it at
once.
-/

namespace Owney

open Tables

/-! ## Rows -/

/-- A row of `calendars`. -/
structure Calendar where
  id : CalendarId
  accountId : AccountId
  name : String
  description : Option String
  createdAt : ℤ
  updatedAt : ℤ
  deriving DecidableEq, Repr

/-- A row of `calendar_events`; `stop` is the column `end`. -/
structure CalendarEvent where
  id : EventId
  calendarId : CalendarId
  title : String
  description : Option String
  start : ℤ
  stop : ℤ
  rrule : Option String
  createdAt : ℤ
  updatedAt : ℤ
  /-- `remote` for an event synced in from a peer -/
  origin : Option String := none
  originFederation : Option String := none
  deriving DecidableEq, Repr

/-- The `status` column of a booking. -/
inductive BookingStatus where
  | confirmed
  | cancelled
  deriving DecidableEq, Repr

/-- What a call returns of a booking. -/
structure Booking where
  id : BookingId
  pageId : SchedulingPageId
  accountId : AccountId
  eventId : EventId
  visitorName : String
  visitorEmail : String
  note : Option String
  start : ℤ
  stop : ℤ
  status : BookingStatus
  createdAt : ℤ
  deriving DecidableEq, Repr

/-- A row of `bookings`. -/
structure BookingRow extends Booking where
  cancelToken : String
  deriving DecidableEq, Repr

/-- The interval of an event. -/
def CalendarEvent.span (e : CalendarEvent) : ℤ × ℤ := (e.start, e.stop)

/-- The interval of a booking. -/
def Booking.span (b : Booking) : ℤ × ℤ := (b.start, b.stop)

/-- The tables. -/
structure SchedulingDb where
  calendars : List Calendar
  events : List CalendarEvent
  pages : List SchedulingPage
  bookings : List BookingRow

namespace SchedulingDb

/-- No calendars, and so nothing on them. -/
def empty : SchedulingDb := ⟨[], [], [], []⟩

/-- The events on the calendars of an account (the join of the busy check). -/
def eventsOf (db : SchedulingDb) (accountId : AccountId) : List CalendarEvent :=
  db.events.filter fun e =>
    db.calendars.any fun c => c.id = e.calendarId ∧ c.accountId = accountId

/-- The confirmed bookings of an account. -/
def confirmedOf (db : SchedulingDb) (accountId : AccountId) : List BookingRow :=
  db.bookings.filter fun b => b.accountId = accountId ∧ b.status = .confirmed

end SchedulingDb

/-! ## Calendar calls -/

/-- The arguments of `create_calendar`, with the fresh id and the clock. -/
structure NewCalendar where
  accountId : AccountId
  name : String
  description : Option String
  id : CalendarId
  now : ℤ

/-- `Storage::create_calendar`. -/
def createCalendarTx (io : Io) (new : NewCalendar) : Tx SchedulingDb Calendar := do
  let db ← Tx.get
  Tx.require (new.id ∉ db.calendars.map (·.id)) .sqlite
  let calendar : Calendar :=
    ⟨new.id, new.accountId, new.name, new.description, new.now, new.now⟩
  Tx.exec io 0 fun db => { db with calendars := db.calendars ++ [calendar] }
  return calendar

/-- The arguments of the calls that create an event, with the fresh id and the clock. -/
structure NewEvent where
  calendarId : CalendarId
  title : String
  description : Option String
  start : ℤ
  stop : ℤ
  rrule : Option String
  id : EventId
  now : ℤ

/-- The row that is inserted. -/
def NewEvent.row (new : NewEvent) (origin originFederation : Option String) : CalendarEvent where
  id := new.id
  calendarId := new.calendarId
  title := new.title
  description := new.description
  start := new.start
  stop := new.stop
  rrule := new.rrule
  createdAt := new.now
  updatedAt := new.now
  origin := origin
  originFederation := originFederation

/-- `INSERT INTO calendar_events`: the key is new and the calendar exists. -/
def insertEventTx (io : Io) (n : ℕ) (event : CalendarEvent) : Tx SchedulingDb PUnit := do
  let db ← Tx.get
  Tx.require (event.id ∉ db.events.map (·.id)) .sqlite
  Tx.require (event.calendarId ∈ db.calendars.map (·.id)) .sqlite
  Tx.exec io n fun db => { db with events := db.events ++ [event] }

/-- `Storage::create_calendar_event`. -/
def createCalendarEventTx (io : Io) (new : NewEvent) : Tx SchedulingDb CalendarEvent := do
  insertEventTx io 0 (new.row none none)
  return new.row none none

/-- `Storage::create_remote_calendar_event`. -/
def createRemoteCalendarEventTx (io : Io) (federationId : String) (new : NewEvent) :
    Tx SchedulingDb EventId := do
  insertEventTx io 0 (new.row (some "remote") (some federationId))
  return new.id

/-- The optional columns of `update_calendar_event`. -/
structure EventPatch where
  title : Option String := none
  description : Option String := none
  start : Option ℤ := none
  stop : Option ℤ := none
  rrule : Option String := none

/-- An event with a patch applied. -/
def CalendarEvent.patch (e : CalendarEvent) (patch : EventPatch) (now : ℤ) : CalendarEvent :=
  { e with
    title := patch.title.getD e.title
    description := patch.description.or e.description
    start := patch.start.getD e.start
    stop := patch.stop.getD e.stop
    rrule := patch.rrule.or e.rrule
    updatedAt := now }

/-- `Storage::update_calendar_event`. -/
def updateCalendarEventTx (io : Io) (id : EventId) (patch : EventPatch) (now : ℤ) :
    Tx SchedulingDb PUnit :=
  Tx.exec io 0 fun db =>
    { db with events := update (fun e => e.id = id) (·.patch patch now) db.events }

/-- An event with everything a peer sent. -/
def CalendarEvent.synced (e : CalendarEvent) (new : NewEvent) : CalendarEvent :=
  { e with
    title := new.title
    description := new.description
    start := new.start
    stop := new.stop
    rrule := new.rrule
    updatedAt := new.now }

/-- `Storage::update_remote_calendar_event`: only events from a peer, every column. -/
def updateRemoteCalendarEventTx (io : Io) (new : NewEvent) : Tx SchedulingDb PUnit :=
  Tx.exec io 0 fun db =>
    { db with
      events := update (fun e => e.id = new.id ∧ e.origin = some "remote")
        (·.synced new) db.events }

/-- `Storage::delete_calendar_event`; a booking's foreign key keeps its event. -/
def deleteCalendarEventTx (io : Io) (id : EventId) : Tx SchedulingDb PUnit := do
  let db ← Tx.get
  Tx.require (id ∉ db.bookings.map (·.eventId)) .sqlite
  Tx.exec io 0 fun db => { db with events := db.events.filter fun e => e.id ≠ id }

/-! ## Page calls -/

/-- Run a check before a call. -/
def checked {σ α : Type} (c : Check α) : Tx σ α :=
  match c with
  | .ok a => pure a
  | .error msg => Tx.throw (.badInput msg)

/-- `Storage::create_scheduling_page`. -/
def createSchedulingPageTx (L : Locale) (io : Io) (accountId : AccountId)
    (new : NewSchedulingPage) (id : SchedulingPageId) (now : ℤ) :
    Tx SchedulingDb SchedulingPage := do
  checked (new.validate L)
  let owns ← Tx.query io 0 fun db =>
    db.calendars.any fun c => c.id = new.calendarId ∧ c.accountId = accountId
  Tx.require (owns = true) .notAuthorized
  let db ← Tx.get
  Tx.require (id ∉ db.pages.map (·.id)) .sqlite
  Tx.require (new.slug ∉ db.pages.map (·.slug))
    (.badInput ("slug " ++ debug L new.slug ++ " is already in use"))
  Tx.exec io 1 fun db => { db with pages := db.pages ++ [new.row id accountId now] }
  let page ← Tx.query io 2 fun db => db.pages.find? fun p => p.id = id
  Tx.okOr page .sqlite

/-- The columns the update writes; owner, slug, calendar and creation time stay. -/
def SchedulingPage.overwrite (p patched : SchedulingPage) (now : ℤ) : SchedulingPage :=
  { patched with
    id := p.id
    accountId := p.accountId
    slug := p.slug
    calendarId := p.calendarId
    createdAt := p.createdAt
    updatedAt := now }

/-- `Storage::update_scheduling_page`. -/
def updateSchedulingPageTx (L : Locale) (io : Io) (accountId : AccountId)
    (pageId : SchedulingPageId) (patch : SchedulingPagePatch) (now : ℤ) :
    Tx SchedulingDb SchedulingPage := do
  let row ← Tx.query io 0 fun db =>
    db.pages.find? fun p => p.id = pageId ∧ p.accountId = accountId
  let current ← Tx.okOr row .notAuthorized
  let patched := current.patch patch
  checked (patched.validate L)
  Tx.exec io 1 fun db =>
    { db with pages := update (fun p => p.id = pageId) (·.overwrite patched now) db.pages }
  let page ← Tx.query io 2 fun db => db.pages.find? fun p => p.id = pageId
  Tx.okOr page .sqlite

/-! ## Booking -/

/-- `BookSlotRequest`. -/
structure BookSlotRequest where
  pageId : SchedulingPageId
  visitorName : String
  visitorEmail : String
  note : Option String
  start : ℤ
  stop : ℤ
  /-- the busy interval, the slot widened by the buffers -/
  busyFrom : ℤ
  busyTo : ℤ
  eventTitle : String
  eventDescription : Option String
  /-- bounds of the local day, for `max_per_day` -/
  dayBounds : ℤ × ℤ
  deriving DecidableEq, Repr

namespace BookSlotRequest

/-- The slot. -/
def span (req : BookSlotRequest) : ℤ × ℤ := (req.start, req.stop)

/-- The busy interval. -/
def busy (req : BookSlotRequest) : ℤ × ℤ := (req.busyFrom, req.busyTo)

/-- The slot is not empty and lies inside the busy interval. -/
def WellFormed (req : BookSlotRequest) : Prop :=
  req.busyFrom ≤ req.start ∧ req.start < req.stop ∧ req.stop ≤ req.busyTo

end BookSlotRequest

/-- The fresh values of a booking, and the clock. -/
structure BookingFresh where
  eventId : EventId
  bookingId : BookingId
  cancelToken : String
  now : ℤ

/-- The event of a booking. -/
def BookSlotRequest.event (req : BookSlotRequest) (page : SchedulingPage)
    (fresh : BookingFresh) : CalendarEvent where
  id := fresh.eventId
  calendarId := page.calendarId
  title := req.eventTitle
  description := req.eventDescription
  start := req.start
  stop := req.stop
  rrule := none
  createdAt := fresh.now
  updatedAt := fresh.now

/-- The row of a booking. -/
def BookSlotRequest.row (req : BookSlotRequest) (page : SchedulingPage)
    (fresh : BookingFresh) : BookingRow where
  id := fresh.bookingId
  pageId := req.pageId
  accountId := page.accountId
  eventId := fresh.eventId
  visitorName := req.visitorName
  visitorEmail := req.visitorEmail
  note := req.note
  start := req.start
  stop := req.stop
  status := .confirmed
  createdAt := fresh.now
  cancelToken := fresh.cancelToken

/-- How many confirmed bookings of a page start in `[lo, hi)`. -/
def SchedulingDb.bookedOn (db : SchedulingDb) (pageId : SchedulingPageId) (day : ℤ × ℤ) : ℕ :=
  (db.bookings.filter fun b =>
    b.pageId = pageId ∧ b.status = .confirmed ∧ day.1 ≤ b.start ∧ b.start < day.2).length

/-- The check against `max_per_day`. -/
def quotaTx (io : Io) (req : BookSlotRequest) : Option ℕ → Tx SchedulingDb PUnit
  | some limit => do
    let count ← Tx.query io 3 (·.bookedOn req.pageId req.dayBounds)
    Tx.require (count < limit) (.conflict "no more bookings that day")
  | none => pure ⟨⟩

/-- The checks of `book_slot`; the page that takes the slot. -/
def checkSlotTx (io : Io) (req : BookSlotRequest) : Tx SchedulingDb SchedulingPage := do
  -- 1. the page must still exist and be active
  let row ← Tx.query io 0 fun db =>
    db.pages.find? fun p => p.id = req.pageId ∧ p.status = .active
  let page ← Tx.okOr row (.conflict "page unavailable")
  -- 2. all the owner's calendar events
  let busy ← Tx.query io 1 fun db =>
    (db.eventsOf page.accountId).any fun e => e.start < req.busyTo ∧ req.busyFrom < e.stop
  Tx.require (busy = false) (.conflict "slot no longer available")
  -- 3. the owner's confirmed bookings
  let double ← Tx.query io 2 fun db =>
    (db.confirmedOf page.accountId).any fun b => b.start < req.busyTo ∧ req.busyFrom < b.stop
  Tx.require (double = false) (.conflict "slot no longer available")
  -- 4. the day quota
  quotaTx io req page.maxPerDay
  return page

/-- The inserts of `book_slot`: the event and the booking. -/
def insertBookingTx (io : Io) (req : BookSlotRequest) (fresh : BookingFresh)
    (page : SchedulingPage) : Tx SchedulingDb Booking := do
  insertEventTx io 4 (req.event page fresh)
  let db ← Tx.get
  Tx.require (fresh.bookingId ∉ db.bookings.map (·.id)) .sqlite
  Tx.exec io 5 fun db => { db with bookings := db.bookings ++ [req.row page fresh] }
  let row ← Tx.query io 6 fun db => db.bookings.find? fun b => b.id = fresh.bookingId
  let booking ← Tx.okOr row .sqlite
  return booking.toBooking

/-- `Storage::book_slot`. -/
def bookSlotTx (io : Io) (req : BookSlotRequest) (fresh : BookingFresh) :
    Tx SchedulingDb Booking := do
  Tx.require (¬req.stop ≤ req.start) (.badInput "slot must end after start")
  let page ← checkSlotTx io req
  insertBookingTx io req fresh page

end Owney
