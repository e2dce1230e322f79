import Owney.Lib.Programs
import Owney.Scheduling
import Owney.ScheduleSlots

/-!
# The public booking endpoints

`slots_json` and `book` of `owney-api/src/schedule/mod.rs`, as programs over the storage calls
they make, and the pool in which they run next to each other and to the calls of the owners.

A request carries what its handler reads besides the tables: whether the rate limiter lets it
through, the clock, and the body or query as `axum` has taken it apart. The mails that follow a
booking change nothing of what is answered.
-/

namespace Owney.Schedule

open Programs

/-- What the handlers take from `chrono`, `chrono_tz` and the Unicode tables of `std`. -/
structure ScheduleCrates where
  locale : Locale
  /-- `timezone.parse::<Tz>().ok()` -/
  zone : String → Option Zone
  /-- `format("%Y-%m-%d")` -/
  formatDate : ℤ → String
  /-- `parse::<NaiveDate>().ok()` -/
  parseDate : String → Option ℤ
  isControl : Char → Bool
  isWhitespace : Char → Bool

/-! ## The tables and the calls -/

/-- The columns of `accounts` that are read here. -/
structure OwnerRow where
  id : AccountId
  email : String
  displayName : Option String
  deriving DecidableEq, Repr

/-- The tables. -/
structure ScheduleDb where
  accounts : List OwnerRow
  tables : SchedulingDb

/-- A new file. -/
def ScheduleDb.empty : ScheduleDb := ⟨[], .empty⟩

/-- A call on the tables. -/
inductive ScheduleOp where
  | pageBySlug (slug : String)
  | account (id : AccountId)
  | eventsOverlapping (a : AccountId) (lo hi : ℤ)
  | confirmedBookings (page : SchedulingPageId) (lo hi : ℤ)
  | bookSlot (req : BookSlotRequest)
  | createAccount (row : OwnerRow)
  | store (op : SchedulingOp)

/-- What a call returns when it succeeds. -/
abbrev ScheduleOp.Val : ScheduleOp → Type
  | .pageBySlug _ => Option SchedulingPage
  | .account _ => Option OwnerRow
  | .eventsOverlapping .. => List (ℤ × ℤ)
  | .confirmedBookings .. => List Booking
  | .bookSlot _ => Booking
  | .createAccount _ | .store _ => Unit

/-- What a call returns. -/
abbrev ScheduleOp.Ret (o : ScheduleOp) : Type := Except StorageError o.Val

/-- What the outside world decides about a call. -/
structure ScheduleChoice where
  io : Io
  fresh : BookingFresh

namespace ScheduleDb

/-- `get_scheduling_page_by_slug`. -/
def pageBySlug (db : ScheduleDb) (slug : String) : Option SchedulingPage :=
  db.tables.pages.find? fun p => p.slug = slug

/-- `Storage::account`. -/
def account (db : ScheduleDb) (id : AccountId) : Option OwnerRow :=
  db.accounts.find? fun a => a.id = id

/-- `events_overlapping`. -/
def eventsOverlapping (db : ScheduleDb) (a : AccountId) (lo hi : ℤ) : List (ℤ × ℤ) :=
  ((db.tables.eventsOf a).filter fun e => e.start < hi ∧ lo < e.stop).map (·.span)

/-- `list_confirmed_bookings_in_range`. -/
def confirmedBookings (db : ScheduleDb) (page : SchedulingPageId) (lo hi : ℤ) : List Booking :=
  (db.tables.bookings.filter fun b =>
    b.pageId = page ∧ b.status = .confirmed ∧ lo ≤ b.start ∧ b.start < hi).map (·.toBooking)

/-- A call on the scheduling tables. A calendar needs its owner's account (the foreign key), and
a booking is made by `bookSlot`. -/
def store (L : Locale) (db : ScheduleDb) : SchedulingOp → ScheduleDb
  | .bookSlot .. => db
  | .createCalendar io new =>
    if (db.account new.accountId).isSome then
      { db with tables := schedulingStep L db.tables (.createCalendar io new) }
    else db
  | op => { db with tables := schedulingStep L db.tables op }

/-- Make a call. -/
def exec (L : Locale) (c : ScheduleChoice) :
    (o : ScheduleOp) → ScheduleDb → o.Ret × ScheduleDb
  | .pageBySlug slug, db => (read (db.pageBySlug slug), db)
  | .account id, db => (read (db.account id), db)
  | .eventsOverlapping a lo hi, db => (read (db.eventsOverlapping a lo hi), db)
  | .confirmedBookings page lo hi, db => (read (db.confirmedBookings page lo hi), db)
  | .bookSlot req, db =>
    let (res, tables) := db.tables.bookSlot c.io req c.fresh
    (res, { db with tables := tables })
  | .createAccount row, db =>
    if c.io 0 ∧ db.account row.id = none then
      (.ok (), { db with accounts := db.accounts ++ [row] })
    else (.error .sqlite, db)
  | .store op, db => (.ok (), db.store L op)
where
  /-- A call that reads. -/
  read {α : Type} (x : α) : Except StorageError α := if c.io 0 then .ok x else .error .sqlite

end ScheduleDb

/-! ## Replies -/

/-- A refusal: a status and a text. -/
structure Refusal where
  status : ℕ
  text : String
  deriving DecidableEq, Repr

/-- A reply: the offered slots, `201` with the booking, or a refusal. -/
inductive ScheduleReply where
  | slots (timezone : String) (durationMins : ℕ) (slots : List Slot)
  | booked (booking : Booking) (timezone : String)
  | refused (r : Refusal)
  | done

/-- `not_found`. -/
def notFound : Refusal := ⟨404, "no such page"⟩

/-- `bad_request`. -/
def badRequest (msg : String) : Refusal := ⟨400, msg⟩

/-- `server_fail`. -/
def serverFail : Refusal := ⟨500, "internal error"⟩

/-- The reply of the rate limiter. -/
def slowDown : Refusal := ⟨429, "slow down"⟩

/-- A program of the endpoints; `throw` is `return` with a refusal. -/
abbrev ScheduleProg (α : Type) : Type := ExceptT Refusal (Prog ScheduleOp.Ret) α

/-- One call, with its result. -/
def ask (o : ScheduleOp) : ScheduleProg o.Ret :=
  ExceptT.mk (Prog.op o >>= fun r => pure (.ok r))

/-- The value of a result; an error is an internal one. -/
def valueOf {α : Type} : Except StorageError α → ScheduleProg α
  | .ok v => return v
  | .error _ => throw serverFail

/-- One call; an error of it is an internal one. -/
def fetch (o : ScheduleOp) : ScheduleProg o.Val := ask o >>= valueOf

/-- The value, if there is one. -/
def valueOr {α : Type} (v : Option α) (r : Refusal) : ScheduleProg α :=
  match v with
  | some a => return a
  | none => throw r

/-- Go on only if the condition holds. -/
def demand (c : Prop) [Decidable c] (r : Refusal) : ScheduleProg Unit :=
  if c then return () else throw r

/-! ## The handlers -/

section Handlers

variable (C : ScheduleCrates)

/-- `active_page`. -/
def activePage (slug : String) : ScheduleProg SchedulingPage := do
  let page ← fetch (.pageBySlug slug)
  valueOr (page.filter (·.status = .active)) notFound

/-- `page_tz`. -/
def pageTz (page : SchedulingPage) : ScheduleProg Zone :=
  valueOr (C.zone page.timezone) serverFail

/-- The `SlotParams` of a page. -/
def slotParams (page : SchedulingPage) (tz : Zone) (durationMins : ℕ) (maxPerDay : Option ℕ)
    (now : ℤ) : SlotParams where
  tz := tz
  availability := page.availability
  durationMins := durationMins
  bufferBeforeMins := page.bufferBeforeMins
  bufferAfterMins := page.bufferAfterMins
  minNoticeMins := page.minNoticeMins
  maxPerDay := maxPerDay
  validFrom := page.validFrom.bind C.parseDate
  validUntil := page.validUntil.bind C.parseDate
  now := now

/-- By how much the busy fetch is widened: the longest meeting and the longer buffer. -/
def widen (page : SchedulingPage) : ℤ :=
  60 * (page.durationsMins.max?.getD 30 : ℕ) +
    60 * (max page.bufferBeforeMins page.bufferAfterMins : ℕ)

/-- `slots_for_range`. -/
def slotsForRange (page : SchedulingPage) (tz : Zone) (durationMins : ℕ) (first last now : ℤ) :
    ScheduleProg (List Slot) := do
  let lo := (tz.localDayBounds first).1 - widen page
  let hi := (tz.localDayBounds last).2 + widen page
  let events ← fetch (.eventsOverlapping page.accountId lo hi)
  let bookings ← fetch (.confirmedBookings page.id lo hi)
  let busy := events ++ bookings.map (·.span)
  let bookedPerDay := fun date => bookings.countP fun b => tz.todayIn b.start = date
  let params := slotParams C page tz durationMins page.maxPerDay now
  return params.computeSlots C.locale C.formatDate first last busy bookedPerDay

/-- `MAX_RANGE_DAYS`. -/
def maxRangeDays : ℤ := 31

/-- `MAX_HORIZON_DAYS`. -/
def maxHorizonDays : ℤ := 60

/-- `{:?}` of the durations of a page. -/
def debugDurations (durations : List ℕ) : String :=
  "[" ++ ", ".intercalate (durations.map toString) ++ "]"

/-- A request for slots. A date is absent, unreadable, or a day. -/
structure SlotsQuery where
  allowed : Bool
  now : ℤ
  first : Option (Option ℤ)
  last : Option (Option ℤ)
  duration : Option ℕ

/-- A date of the query. -/
def queryDate (date : Option (Option ℤ)) (default : ℤ) (msg : String) : ScheduleProg ℤ :=
  valueOr (date.getD (some default)) (badRequest msg)

/-- `slots_json`. -/
def slotsJson (slug : String) (query : SlotsQuery) : ScheduleProg ScheduleReply := do
  demand query.allowed slowDown
  let page ← activePage slug
  let tz ← pageTz C page
  let today := tz.todayIn query.now
  let duration := query.duration.getD (page.durationsMins.headD 0)
  demand (duration ∈ page.durationsMins)
    (badRequest ("duration must be one of " ++ debugDurations page.durationsMins))
  let first ← queryDate query.first today "bad `from` date (want YYYY-MM-DD)"
  let last ← queryDate query.last (first + 13) "bad `to` date (want YYYY-MM-DD)"
  demand (¬(last < first ∨ maxRangeDays ≤ last - first))
    (badRequest ("range must be 1..=" ++ toString maxRangeDays ++ " days"))
  demand (¬today + maxHorizonDays < last)
    (badRequest ("horizon is " ++ toString maxHorizonDays ++ " days"))
  let slots ← slotsForRange C page tz duration first last query.now
  return .slots page.timezone duration slots

/-- `BookBody`. -/
structure BookBody where
  start : ℤ
  durationMins : ℕ
  name : String
  email : String
  note : Option String
  deriving DecidableEq, Repr

/-- `validate_visitor`; the text of the refusal. -/
def validateVisitor (body : BookBody) : Option String :=
  if body.name.toList = [] ∨ 200 < body.name.toList.length then
    some "name must be 1-200 chars"
  else if ¬(body.email.utf8ByteSize ≤ 254 ∧ body.email.toList.count '@' = 1 ∧
      body.email.toList.head? ≠ some '@' ∧ body.email.toList.getLast? ≠ some '@' ∧
      ∀ c ∈ body.email.toList, ¬(C.isControl c ∨ C.isWhitespace c)) then
    some "bad email address"
  else if ∃ note ∈ body.note, 2000 < note.toList.length then
    some "note must be <= 2000 chars"
  else none

/-- A request to book; a body that could not be read is the text of its rejection. -/
structure BookPost where
  allowed : Bool
  now : ℤ
  body : Except String BookBody

/-- The request `book` makes of the storage. -/
def bookRequest (page : SchedulingPage) (tz : Zone) (owner : OwnerRow) (body : BookBody)
    (slot : Slot) : BookSlotRequest where
  pageId := page.id
  visitorName := body.name
  visitorEmail := body.email
  note := body.note
  start := slot.start
  stop := slot.stop
  busyFrom := slot.start - 60 * page.bufferBeforeMins
  busyTo := slot.stop + 60 * page.bufferAfterMins
  eventTitle := "Meeting: " ++ body.name ++ " & " ++ owner.displayName.getD owner.email
  eventDescription := body.note
  dayBounds := tz.localDayBounds (tz.todayIn body.start)

/-- The slot of the day's grid that was picked. -/
def pickSlot (page : SchedulingPage) (tz : Zone) (body : BookBody) (now : ℤ) : Option Slot :=
  let day := tz.todayIn body.start
  let params := slotParams C page tz body.durationMins none now
  (params.computeSlots C.locale C.formatDate day day [] fun _ => 0).find? fun slot =>
    slot.start = body.start

/-- The refusal of a booking. -/
def bookRefusal : StorageError → Refusal
  | .conflict msg => ⟨409, msg⟩
  | .badInput msg => badRequest msg
  | _ => serverFail

/-- The reply to a booking. -/
def bookReply (page : SchedulingPage) : Except StorageError Booking → ScheduleProg ScheduleReply
  | .ok booking => return .booked booking page.timezone
  | .error e => throw (bookRefusal e)

/-- `book`. -/
def book (slug : String) (post : BookPost) : ScheduleProg ScheduleReply := do
  demand post.allowed slowDown
  let body ← ExceptT.mk (pure (post.body.mapError fun err =>
    badRequest ("bad request body: " ++ err)))
  demand (validateVisitor C body = none) (badRequest ((validateVisitor C body).getD ""))
  let page ← activePage slug
  let tz ← pageTz C page
  demand (body.durationMins ∈ page.durationsMins)
    (badRequest ("duration must be one of " ++ debugDurations page.durationsMins))
  let slot ← valueOr (pickSlot C page tz body post.now)
    (badRequest "that time is not an available slot")
  let account ← fetch (.account page.accountId)
  let owner ← valueOr account notFound
  let booking ← ask (.bookSlot (bookRequest page tz owner body slot))
  bookReply page booking

end Handlers

/-! ## The pool -/

/-- What comes in: requests of visitors, and the calls of the owners. -/
inductive ScheduleRequest where
  | slots (slug : String) (query : SlotsQuery)
  | book (slug : String) (post : BookPost)
  | createAccount (row : OwnerRow)
  | store (op : SchedulingOp)

/-- The reply a program sends. -/
def ScheduleProg.reply (p : ScheduleProg ScheduleReply) : Prog ScheduleOp.Ret ScheduleReply :=
  p.run >>= fun
    | .ok reply => pure reply
    | .error r => pure (.refused r)

/-- The program that answers a request. -/
def scheduleHandle (C : ScheduleCrates) : ScheduleRequest → Prog ScheduleOp.Ret ScheduleReply
  | .slots slug query => (slotsJson C slug query).reply
  | .book slug post => (book C slug post).reply
  | .createAccount row => Prog.op (.createAccount row) >>= fun _ => pure .done
  | .store op => Prog.op (.store op) >>= fun _ => pure .done

/-- All programs next to each other, from a new file. -/
def scheduleRun (C : ScheduleCrates) (moves : List (Move ScheduleRequest ScheduleChoice)) :
    Sys ScheduleOp.Ret ScheduleRequest ScheduleReply ScheduleChoice ScheduleDb :=
  Runs.run (step (scheduleHandle C) fun o c db => some (ScheduleDb.exec C.locale c o db))
    (.init .empty) moves

end Owney.Schedule
