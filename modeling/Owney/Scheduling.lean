import Owney.Lib.Intervals
import Owney.SchedulingStore

/-!
# No double booking

A run of the scheduling system is any sequence of the calls of `SchedulingStore`.
`schedulingStep_effect` says what one call can do; from it follow the invariant
`SchedulingInv` (the confirmed bookings of an account are `Apart`, and a page sits on
a calendar of its owner) and `noDoubleBooking`, for every run whose requests are
`WellFormed`.

Recurrence rules play no part: the store keeps them as text, and only the base
occurrence of an event blocks time.
-/

namespace Owney

open Tables Intervals

/-! ## The system -/

/-- One call. -/
inductive SchedulingOp where
  | createCalendar (io : Io) (new : NewCalendar)
  | createCalendarEvent (io : Io) (new : NewEvent)
  | createRemoteCalendarEvent (io : Io) (federationId : String) (new : NewEvent)
  | updateCalendarEvent (io : Io) (id : EventId) (patch : EventPatch) (now : ℤ)
  | updateRemoteCalendarEvent (io : Io) (new : NewEvent)
  | deleteCalendarEvent (io : Io) (id : EventId)
  | createSchedulingPage (io : Io) (accountId : AccountId) (new : NewSchedulingPage)
      (id : SchedulingPageId) (now : ℤ)
  | updateSchedulingPage (io : Io) (accountId : AccountId) (pageId : SchedulingPageId)
      (patch : SchedulingPagePatch) (now : ℤ)
  | bookSlot (io : Io) (req : BookSlotRequest) (fresh : BookingFresh)

/-- The answer of `book_slot`, and the database after it. -/
def SchedulingDb.bookSlot (db : SchedulingDb) (io : Io) (req : BookSlotRequest) (fresh : BookingFresh) :
    Except StorageError Booking × SchedulingDb :=
  transaction (bookSlotTx io req fresh) db

/-- What a call does to the database. -/
def schedulingStep (L : Locale) (db : SchedulingDb) : SchedulingOp → SchedulingDb
  | .createCalendar io new => (transaction (createCalendarTx io new) db).2
  | .createCalendarEvent io new => (transaction (createCalendarEventTx io new) db).2
  | .createRemoteCalendarEvent io federationId new =>
    (transaction (createRemoteCalendarEventTx io federationId new) db).2
  | .updateCalendarEvent io id patch now =>
    (transaction (updateCalendarEventTx io id patch now) db).2
  | .updateRemoteCalendarEvent io new => (transaction (updateRemoteCalendarEventTx io new) db).2
  | .deleteCalendarEvent io id => (transaction (deleteCalendarEventTx io id) db).2
  | .createSchedulingPage io accountId new id now =>
    (transaction (createSchedulingPageTx L io accountId new id now) db).2
  | .updateSchedulingPage io accountId pageId patch now =>
    (transaction (updateSchedulingPageTx L io accountId pageId patch now) db).2
  | .bookSlot io req fresh => (db.bookSlot io req fresh).2

/-- The database after a run from the empty one. -/
def SchedulingDb.after (L : Locale) (ops : List SchedulingOp) : SchedulingDb :=
  Runs.run (schedulingStep L) .empty ops

/-- A booking request is well formed; nothing is asked of the other calls. -/
def SchedulingOp.WellFormed : SchedulingOp → Prop
  | .bookSlot _ req _ => req.WellFormed
  | _ => True

/-- The booking a call answers `Ok` with. -/
def SchedulingOp.won (db : SchedulingDb) : SchedulingOp → Option (BookSlotRequest × Booking)
  | .bookSlot io req fresh =>
    match (db.bookSlot io req fresh).1 with
    | .ok booking => some (req, booking)
    | .error _ => none
  | _ => none

/-- The bookings the calls of a run answer `Ok` with, each with its request. -/
def winners (L : Locale) : SchedulingDb → List SchedulingOp → List (BookSlotRequest × Booking)
  | _, [] => []
  | db, o :: ops => (o.won db).toList ++ winners L (schedulingStep L db o) ops

/-! ## What is promised -/

/-- What `Ok` means: the page was active, nothing of its owner overlaps the busy
interval, and the event and the booking are the only rows that were added. -/
structure Booked (db db' : SchedulingDb) (req : BookSlotRequest) (b : Booking) : Prop where
  page : ∃ p ∈ db.pages, p.id = req.pageId ∧ p.status = .active ∧ p.accountId = b.accountId
  slot : b.span = req.span ∧ b.status = .confirmed
  events : ∀ e ∈ db.eventsOf b.accountId, Separate req.busy e.span
  bookings : ∀ b' ∈ db.confirmedOf b.accountId, Separate req.busy b'.span
  rows : ∃ e row, db'.events = db.events ++ [e] ∧ db'.bookings = db.bookings ++ [row] ∧
    row.toBooking = b ∧ row.eventId = e.id ∧ e.span = req.span ∧ e ∈ db'.eventsOf b.accountId

/-- No double booking, over a run from the empty database. -/
structure NoDoubleBooking (L : Locale) (ops : List SchedulingOp) : Prop where
  /-- the confirmed bookings of an account are pairwise disjoint -/
  apart : ∀ a, ((SchedulingDb.after L ops).confirmedOf a).Pairwise fun b b' =>
    Separate b.span b'.span
  /-- a booking that is made finds its busy interval free, and adds both rows -/
  booked : ∀ pre io req fresh post b, ops = pre ++ .bookSlot io req fresh :: post →
    ((SchedulingDb.after L pre).bookSlot io req fresh).1 = .ok b →
      Booked (SchedulingDb.after L pre) ((SchedulingDb.after L pre).bookSlot io req fresh).2 req b
  /-- a booking that is refused leaves the database as it was -/
  refused : ∀ pre io req fresh post e, ops = pre ++ .bookSlot io req fresh :: post →
    ((SchedulingDb.after L pre).bookSlot io req fresh).1 = .error e →
      ((SchedulingDb.after L pre).bookSlot io req fresh).2 = SchedulingDb.after L pre
  /-- of requests to one account that overlap each other at most one is answered `Ok` -/
  oneWinner : ∀ (a : AccountId) (S : BookSlotRequest → Bool),
    (∀ r r', S r → S r' → r ≠ r' → ¬Separate r.span r'.span) →
      ((winners L .empty ops).filter fun w => w.2.accountId = a ∧ S w.1).length ≤ 1

/-! ## What a call can do -/

section Calls

variable {L : Locale} {io : Io} {db db' : SchedulingDb}

theorem checked_eq_ok {σ α : Type} {c : Check α} {s s' : σ} {a : α} :
    (checked c : Tx σ α) s = .ok (a, s') ↔ c = .ok a ∧ s = s' := by
  cases c with
  | ok b => simp [checked]
  | error msg => simp [checked]

theorem insertEventTx_ok {n : ℕ} {e : CalendarEvent} {u : PUnit}
    (h : insertEventTx io n e db = .ok (u, db')) :
    e.id ∉ db.events.map (·.id) ∧ e.calendarId ∈ db.calendars.map (·.id) ∧
      db' = { db with events := db.events ++ [e] } := by
  simp only [insertEventTx, Tx.bind_eq_ok, Tx.get_eq_ok, Tx.require_eq_ok, Tx.exec_eq_ok] at h
  obtain ⟨_, _, ⟨rfl, rfl⟩, _, _, ⟨hid, rfl⟩, _, _, ⟨hcal, rfl⟩, -, rfl⟩ := h
  exact ⟨hid, hcal, rfl⟩

theorem quotaTx_ok {req : BookSlotRequest} {maxPerDay : Option ℕ} {u : PUnit}
    (h : quotaTx io req maxPerDay db = .ok (u, db')) :
    (∀ limit, maxPerDay = some limit → db.bookedOn req.pageId req.dayBounds < limit) ∧
      db = db' := by
  cases maxPerDay with
  | none =>
    simp only [quotaTx, Tx.pure_eq_ok] at h
    exact ⟨fun _ hl => absurd hl.symm (Option.some_ne_none _), h.2⟩
  | some limit =>
    simp only [quotaTx, Tx.bind_eq_ok, Tx.query_eq_ok, Tx.require_eq_ok] at h
    obtain ⟨_, _, ⟨-, rfl, rfl⟩, hlt, hdb⟩ := h
    exact ⟨fun _ hl => by rw [← Option.some.inj hl]; exact hlt, hdb⟩

theorem checkSlotTx_ok {req : BookSlotRequest} {page : SchedulingPage}
    (h : checkSlotTx io req db = .ok (page, db')) :
    (page ∈ db.pages ∧ page.id = req.pageId ∧ page.status = .active) ∧
      (∀ e ∈ db.eventsOf page.accountId, ¬Overlaps req.busy e.span) ∧
      (∀ b ∈ db.confirmedOf page.accountId, ¬Overlaps req.busy b.span) ∧
      (∀ limit, page.maxPerDay = some limit → db.bookedOn req.pageId req.dayBounds < limit) ∧
      db = db' := by
  simp only [checkSlotTx, Tx.bind_eq_ok, Tx.require_eq_ok, Tx.query_eq_ok, Tx.okOr_eq_ok,
    Tx.pure_eq_ok] at h
  obtain ⟨_, _, ⟨-, rfl, rfl⟩, p, _, ⟨hpage, rfl⟩, _, _, ⟨-, rfl, rfl⟩, _, _, ⟨hbusy, rfl⟩,
    _, _, ⟨-, rfl, rfl⟩, _, _, ⟨hdouble, rfl⟩, _, _, hquota, rfl, rfl⟩ := h
  obtain ⟨hlimit, rfl⟩ := quotaTx_ok hquota
  have hsel := List.find?_some hpage
  rw [decide_eq_true_eq] at hsel
  rw [List.any_eq_false] at hbusy hdouble
  exact ⟨⟨List.mem_of_find?_eq_some hpage, hsel⟩,
    fun e he ho => hbusy e he (decide_eq_true ⟨ho.2, ho.1⟩),
    fun b hb ho => hdouble b hb (decide_eq_true ⟨ho.2, ho.1⟩), hlimit, rfl⟩

theorem insertBookingTx_ok {req : BookSlotRequest} {fresh : BookingFresh}
    {page : SchedulingPage} {b : Booking}
    (h : insertBookingTx io req fresh page db = .ok (b, db')) :
    page.calendarId ∈ db.calendars.map (·.id) ∧ b = (req.row page fresh).toBooking ∧
      db' = { db with
        events := db.events ++ [req.event page fresh]
        bookings := db.bookings ++ [req.row page fresh] } := by
  simp only [insertBookingTx, Tx.bind_eq_ok, Tx.require_eq_ok, Tx.query_eq_ok, Tx.okOr_eq_ok,
    Tx.get_eq_ok, Tx.exec_eq_ok, Tx.pure_eq_ok] at h
  obtain ⟨_, _, hinsert, _, _, ⟨rfl, rfl⟩, _, _, ⟨hid, rfl⟩, _, _, ⟨-, rfl⟩,
    _, _, ⟨-, rfl, rfl⟩, row, _, ⟨hrow, rfl⟩, rfl, rfl⟩ := h
  obtain ⟨-, hcal, rfl⟩ := insertEventTx_ok hinsert
  have hold : db.bookings.find? (fun r => decide (r.id = fresh.bookingId)) = none := by
    refine List.find?_eq_none.mpr fun r hr he => hid (List.mem_map.mpr ⟨r, hr, ?_⟩)
    exact of_decide_eq_true he
  rw [List.find?_append, hold, Option.none_or, List.find?_cons_of_pos] at hrow
  · exact ⟨hcal, by rw [Option.some.inj hrow], rfl⟩
  · exact decide_eq_true rfl

/-- **Booking.** Everything a successful `book_slot` found and did. -/
theorem bookSlotTx_ok {req : BookSlotRequest} {fresh : BookingFresh} {b : Booking}
    (h : bookSlotTx io req fresh db = .ok (b, db')) :
    ∃ page, (page ∈ db.pages ∧ page.id = req.pageId ∧ page.status = .active) ∧
      (∀ e ∈ db.eventsOf page.accountId, ¬Overlaps req.busy e.span) ∧
      (∀ b' ∈ db.confirmedOf page.accountId, ¬Overlaps req.busy b'.span) ∧
      (∀ limit, page.maxPerDay = some limit → db.bookedOn req.pageId req.dayBounds < limit) ∧
      b = (req.row page fresh).toBooking ∧
      db' = { db with
        events := db.events ++ [req.event page fresh]
        bookings := db.bookings ++ [req.row page fresh] } := by
  simp only [bookSlotTx, Tx.bind_eq_ok, Tx.require_eq_ok] at h
  obtain ⟨_, _, ⟨-, rfl⟩, page, _, hcheck, hinsert⟩ := h
  obtain ⟨hpage, hevents, hbookings, hlimit, rfl⟩ := checkSlotTx_ok hcheck
  obtain ⟨-, hb, hdb⟩ := insertBookingTx_ok hinsert
  exact ⟨page, hpage, hevents, hbookings, hlimit, hb, hdb⟩

/-! ### When a booking goes through -/

/-- The event and the booking get ids no row has. -/
def BookingFresh.NotIn (fresh : BookingFresh) (db : SchedulingDb) : Prop :=
  fresh.eventId ∉ db.events.map (·.id) ∧ fresh.bookingId ∉ db.bookings.map (·.id)

theorem checkSlotTx_of_free {req : BookSlotRequest} {page : SchedulingPage}
    (hpage : db.pages.find? (fun p => p.id = req.pageId ∧ p.status = .active) = some page)
    (hevents : ∀ e ∈ db.eventsOf page.accountId, ¬Overlaps req.busy e.span)
    (hbookings : ∀ b ∈ db.confirmedOf page.accountId, ¬Overlaps req.busy b.span)
    (hquota : ∀ limit, page.maxPerDay = some limit → db.bookedOn req.pageId req.dayBounds < limit) :
    checkSlotTx .ok req db = .ok (page, db) := by
  have hbusy : ((db.eventsOf page.accountId).any fun e =>
      e.start < req.busyTo ∧ req.busyFrom < e.stop) = false :=
    List.any_eq_false.mpr fun e he h =>
      hevents e he ⟨(of_decide_eq_true h).2, (of_decide_eq_true h).1⟩
  have hdouble : ((db.confirmedOf page.accountId).any fun b =>
      b.start < req.busyTo ∧ req.busyFrom < b.stop) = false :=
    List.any_eq_false.mpr fun b hb h =>
      hbookings b hb ⟨(of_decide_eq_true h).2, (of_decide_eq_true h).1⟩
  have hlimit : quotaTx .ok req page.maxPerDay db = .ok (⟨⟩, db) := by
    cases hmax : page.maxPerDay with
    | none => rfl
    | some limit =>
      simp only [quotaTx, Tx.bind_eq_ok, Tx.query_eq_ok, Tx.require_eq_ok]
      exact ⟨_, _, ⟨rfl, rfl, rfl⟩, hquota limit hmax, rfl⟩
  simp only [checkSlotTx, Tx.bind_eq_ok, Tx.require_eq_ok, Tx.query_eq_ok, Tx.okOr_eq_ok,
    Tx.pure_eq_ok]
  exact ⟨_, _, ⟨rfl, rfl, rfl⟩, page, db, ⟨hpage, rfl⟩, _, _, ⟨rfl, rfl, rfl⟩, ⟨⟩, _, ⟨hbusy, rfl⟩,
    _, _, ⟨rfl, rfl, rfl⟩, ⟨⟩, _, ⟨hdouble, rfl⟩, ⟨⟩, _, hlimit, rfl, rfl⟩

theorem insertBookingTx_of_fresh {req : BookSlotRequest} {fresh : BookingFresh}
    {page : SchedulingPage} (hfresh : fresh.NotIn db)
    (hcalendar : page.calendarId ∈ db.calendars.map (·.id)) :
    ∃ db', insertBookingTx .ok req fresh page db = .ok ((req.row page fresh).toBooking, db') := by
  have hold : db.bookings.find? (fun r => decide (r.id = fresh.bookingId)) = none := by
    refine List.find?_eq_none.mpr fun r hr he => hfresh.2 (List.mem_map.mpr ⟨r, hr, ?_⟩)
    exact of_decide_eq_true he
  simp only [insertBookingTx, insertEventTx, Tx.bind_eq_ok, Tx.require_eq_ok, Tx.query_eq_ok,
    Tx.okOr_eq_ok, Tx.get_eq_ok, Tx.exec_eq_ok, Tx.pure_eq_ok]
  refine ⟨_, ⟨⟩, _, ⟨_, _, ⟨rfl, rfl⟩, ⟨⟩, _, ⟨hfresh.1, rfl⟩, ⟨⟩, _, ⟨hcalendar, rfl⟩, rfl, rfl⟩,
    _, _, ⟨rfl, rfl⟩, ⟨⟩, _, ⟨hfresh.2, rfl⟩, ⟨⟩, _, ⟨rfl, rfl⟩, _, _, ⟨rfl, rfl, rfl⟩,
    req.row page fresh, _, ⟨?_, rfl⟩, rfl, rfl⟩
  rw [List.find?_append, hold, Option.none_or, List.find?_cons_of_pos]
  exact decide_eq_true rfl

/-- A free slot is booked, when no statement fails. -/
theorem bookSlotTx_of_free {req : BookSlotRequest} {fresh : BookingFresh} {page : SchedulingPage}
    (hstop : req.start < req.stop)
    (hpage : db.pages.find? (fun p => p.id = req.pageId ∧ p.status = .active) = some page)
    (hevents : ∀ e ∈ db.eventsOf page.accountId, ¬Overlaps req.busy e.span)
    (hbookings : ∀ b ∈ db.confirmedOf page.accountId, ¬Overlaps req.busy b.span)
    (hquota : ∀ limit, page.maxPerDay = some limit → db.bookedOn req.pageId req.dayBounds < limit)
    (hfresh : fresh.NotIn db) (hcalendar : page.calendarId ∈ db.calendars.map (·.id)) :
    ∃ db', bookSlotTx .ok req fresh db = .ok ((req.row page fresh).toBooking, db') := by
  obtain ⟨db', hinsert⟩ : ∃ db', insertBookingTx .ok req fresh page db =
      .ok ((req.row page fresh).toBooking, db') := insertBookingTx_of_fresh hfresh hcalendar
  refine ⟨db', ?_⟩
  simp only [bookSlotTx, Tx.bind_eq_ok, Tx.require_eq_ok]
  exact ⟨⟨⟩, _, ⟨by omega, rfl⟩, page, db,
    checkSlotTx_of_free hpage hevents hbookings hquota, hinsert⟩

end Calls

/-- What one call can do to the tables. -/
inductive SchedulingEffect (db : SchedulingDb) : SchedulingOp → SchedulingDb → Prop
  | refused {o} : SchedulingEffect db o db
  | calendar {o} (c : Calendar) (fresh : c.id ∉ db.calendars.map (·.id)) :
      SchedulingEffect db o { db with calendars := db.calendars ++ [c] }
  /-- events are added, moved and deleted freely, but a booking's event is not deleted -/
  | events {o} (events : List CalendarEvent)
      (kept : ∀ b ∈ db.bookings, ∀ e ∈ db.events, e.id = b.eventId →
        ∃ e' ∈ events, e'.id = e.id ∧ e'.calendarId = e.calendarId) :
      SchedulingEffect db o { db with events := events }
  | page {o} (p : SchedulingPage) (fresh : p.id ∉ db.pages.map (·.id))
      (slug : p.slug ∉ db.pages.map (·.slug))
      (owned : ∃ c ∈ db.calendars, c.id = p.calendarId ∧ c.accountId = p.accountId) :
      SchedulingEffect db o { db with pages := db.pages ++ [p] }
  | pagePatched {o} (id : SchedulingPageId) (patched : SchedulingPage) (now : ℤ) :
      SchedulingEffect db o
        { db with pages := update (fun p => p.id = id) (·.overwrite patched now) db.pages }
  | booked {io req fresh} (page : SchedulingPage)
      (active : page ∈ db.pages ∧ page.id = req.pageId ∧ page.status = .active)
      (events : ∀ e ∈ db.eventsOf page.accountId, ¬Overlaps req.busy e.span)
      (bookings : ∀ b ∈ db.confirmedOf page.accountId, ¬Overlaps req.busy b.span)
      (quota : ∀ limit, page.maxPerDay = some limit →
        db.bookedOn req.pageId req.dayBounds < limit) :
      SchedulingEffect db (.bookSlot io req fresh)
        { db with
          events := db.events ++ [req.event page fresh]
          bookings := db.bookings ++ [req.row page fresh] }

/-- A call either changes nothing or does what its body does when it succeeds. -/
theorem effect_of_ok {α : Type} {o : SchedulingOp} {body : Tx SchedulingDb α}
    {db : SchedulingDb} (h : ∀ a db', body db = .ok (a, db') → SchedulingEffect db o db') :
    SchedulingEffect db o (transaction body db).2 := by
  rcases transaction_cases body db with ⟨e, he⟩ | ⟨a, db', hok, he⟩
  · rw [he]
    exact .refused
  · rw [he]
    exact h a db' hok

/-- Adding an event. -/
theorem effect_insertEvent {o : SchedulingOp} {io : Io} {n : ℕ} {e : CalendarEvent} {u : PUnit}
    {db db' : SchedulingDb} (h : insertEventTx io n e db = .ok (u, db')) :
    SchedulingEffect db o db' := by
  obtain ⟨-, -, rfl⟩ := insertEventTx_ok h
  exact .events _ fun _ _ e' he' _ => ⟨e', List.mem_append_left _ he', rfl, rfl⟩

/-- Changing events that keep their ids and calendars. -/
theorem effect_updateEvents {o : SchedulingOp} {db : SchedulingDb} {p : CalendarEvent → Bool}
    {f : CalendarEvent → CalendarEvent}
    (hf : ∀ e, (f e).id = e.id ∧ (f e).calendarId = e.calendarId) :
    SchedulingEffect db o { db with events := update p f db.events } := by
  refine .events _ fun _ _ e he _ => ⟨_, mem_update.mpr ⟨e, he, rfl⟩, ?_⟩
  split
  · exact hf e
  · exact ⟨rfl, rfl⟩

/-- **The step lemma.** -/
theorem schedulingStep_effect (L : Locale) (db : SchedulingDb) (o : SchedulingOp) :
    SchedulingEffect db o (schedulingStep L db o) := by
  cases o with
  | createCalendar io new =>
    refine effect_of_ok fun c db' h => ?_
    simp only [createCalendarTx, Tx.bind_eq_ok, Tx.get_eq_ok, Tx.require_eq_ok, Tx.exec_eq_ok,
      Tx.pure_eq_ok] at h
    obtain ⟨_, _, ⟨rfl, rfl⟩, _, _, ⟨hid, rfl⟩, _, _, ⟨-, rfl⟩, -, rfl⟩ := h
    exact .calendar _ hid
  | createCalendarEvent io new =>
    refine effect_of_ok fun e db' h => ?_
    simp only [createCalendarEventTx, Tx.bind_eq_ok, Tx.pure_eq_ok] at h
    obtain ⟨_, _, hinsert, -, rfl⟩ := h
    exact effect_insertEvent hinsert
  | createRemoteCalendarEvent io federationId new =>
    refine effect_of_ok fun e db' h => ?_
    simp only [createRemoteCalendarEventTx, Tx.bind_eq_ok, Tx.pure_eq_ok] at h
    obtain ⟨_, _, hinsert, -, rfl⟩ := h
    exact effect_insertEvent hinsert
  | updateCalendarEvent io id patch now =>
    refine effect_of_ok fun e db' h => ?_
    rw [updateCalendarEventTx, Tx.exec_eq_ok] at h
    obtain ⟨-, rfl⟩ := h
    exact effect_updateEvents fun _ => ⟨rfl, rfl⟩
  | updateRemoteCalendarEvent io new =>
    refine effect_of_ok fun e db' h => ?_
    rw [updateRemoteCalendarEventTx, Tx.exec_eq_ok] at h
    obtain ⟨-, rfl⟩ := h
    exact effect_updateEvents fun _ => ⟨rfl, rfl⟩
  | deleteCalendarEvent io id =>
    refine effect_of_ok fun e db' h => ?_
    simp only [deleteCalendarEventTx, Tx.bind_eq_ok, Tx.get_eq_ok, Tx.require_eq_ok,
      Tx.exec_eq_ok] at h
    obtain ⟨_, _, ⟨rfl, rfl⟩, _, _, ⟨hid, rfl⟩, -, rfl⟩ := h
    refine .events _ fun b hb e he heb => ⟨e, List.mem_filter.mpr ⟨he, ?_⟩, rfl, rfl⟩
    -- the foreign key: no booking has this event
    exact decide_eq_true fun hide => hid (List.mem_map.mpr ⟨b, hb, heb.symm.trans hide⟩)
  | createSchedulingPage io accountId new id now =>
    refine effect_of_ok fun p db' h => ?_
    simp only [createSchedulingPageTx, Tx.bind_eq_ok, checked_eq_ok, Tx.query_eq_ok,
      Tx.require_eq_ok, Tx.get_eq_ok, Tx.exec_eq_ok, Tx.okOr_eq_ok] at h
    obtain ⟨_, _, ⟨-, rfl⟩, _, _, ⟨-, rfl, rfl⟩, _, _, ⟨howns, rfl⟩, _, _, ⟨rfl, rfl⟩,
      _, _, ⟨hid, rfl⟩, _, _, ⟨hslug, rfl⟩, _, _, ⟨-, rfl⟩, _, _, ⟨-, -, rfl⟩, -, rfl⟩ := h
    obtain ⟨c, hc, hown⟩ := List.any_eq_true.mp howns
    exact .page _ hid hslug ⟨c, hc, of_decide_eq_true hown⟩
  | updateSchedulingPage io accountId pageId patch now =>
    refine effect_of_ok fun p db' h => ?_
    simp only [updateSchedulingPageTx, Tx.bind_eq_ok, checked_eq_ok, Tx.query_eq_ok,
      Tx.exec_eq_ok, Tx.okOr_eq_ok] at h
    obtain ⟨_, _, ⟨-, rfl, rfl⟩, current, _, ⟨-, rfl⟩, _, _, ⟨-, rfl⟩, _, _, ⟨-, rfl⟩,
      _, _, ⟨-, -, rfl⟩, -, rfl⟩ := h
    exact .pagePatched _ _ _
  | bookSlot io req fresh =>
    refine effect_of_ok fun b db' h => ?_
    obtain ⟨page, hpage, hevents, hbookings, hquota, -, rfl⟩ := bookSlotTx_ok h
    exact .booked page hpage hevents hbookings hquota

/-! ## The invariant -/

/-- The confirmed bookings of an account are apart, and every page sits on a calendar
of its owner. -/
structure SchedulingInv (db : SchedulingDb) : Prop where
  apart : ∀ a, Apart (fun b => b.span) (db.confirmedOf a)
  owned : ∀ p ∈ db.pages, ∃ c ∈ db.calendars, c.id = p.calendarId ∧ c.accountId = p.accountId

namespace SchedulingInv

variable {L : Locale} {db db' : SchedulingDb} {o : SchedulingOp}

theorem empty : SchedulingInv .empty where
  apart _ := Apart.nil _
  owned _ hp := nomatch hp

theorem effect (h : SchedulingInv db) (ho : o.WellFormed) (he : SchedulingEffect db o db') :
    SchedulingInv db' := by
  cases he with
  | refused => exact h
  | calendar c _ =>
    refine ⟨h.apart, fun p hp => ?_⟩
    obtain ⟨c', hc', hown⟩ := h.owned p hp
    exact ⟨c', List.mem_append_left _ hc', hown⟩
  | events _ _ => exact ⟨h.apart, h.owned⟩
  | page p _ _ howned =>
    refine ⟨h.apart, fun p' hp' => ?_⟩
    rcases List.mem_append.mp hp' with hp' | hp'
    · exact h.owned p' hp'
    · rw [List.mem_singleton.mp hp']
      exact howned
  | pagePatched id patched now =>
    refine ⟨h.apart, fun p hp => ?_⟩
    obtain ⟨p₀, hp₀, rfl⟩ := mem_update.mp hp
    -- owner and calendar are not among the columns written
    have hown := h.owned p₀ hp₀
    split
    · exact hown
    · exact hown
  | @booked io req fresh page _ _ hbookings _ =>
    refine ⟨fun a => ?_, h.owned⟩
    change Apart _ ((db.bookings ++ [req.row page fresh]).filter _)
    rw [List.filter_append]
    by_cases ha : page.accountId = a
    · have hrow : [req.row page fresh].filter (fun b => b.accountId = a ∧ b.status = .confirmed)
          = [req.row page fresh] := List.filter_cons_of_pos (decide_eq_true ⟨ha, rfl⟩)
      rw [hrow]
      exact (h.apart a).concat (b := req.busy) ho.1 ho.2.2 (ha ▸ hbookings)
    · have hrow : [req.row page fresh].filter (fun b => b.accountId = a ∧ b.status = .confirmed)
          = [] := List.filter_cons_of_neg fun hs => ha (of_decide_eq_true hs).1
      rw [hrow, List.append_nil]
      exact h.apart a

theorem step (h : SchedulingInv db) (ho : o.WellFormed) :
    SchedulingInv (schedulingStep L db o) :=
  h.effect ho (schedulingStep_effect L db o)

/-- The invariant holds after every run with well formed requests. -/
theorem run {ops : List SchedulingOp} (h : SchedulingInv db) (hops : ∀ o ∈ ops, o.WellFormed) :
    SchedulingInv (Runs.run (schedulingStep L) db ops) :=
  Runs.run_invariant_of_meets (C := fun _ o => o.WellFormed) (fun _ _ h ho => h.step ho) ops h
    (Runs.meets_iff.mpr fun pre o post he => hops o (by rw [he]; simp))

end SchedulingInv

/-! ## Winners -/

section Winners

variable {L : Locale} {db : SchedulingDb}

/-- What a call answered `Ok` with: the booking it added, on the slot of the request. -/
theorem SchedulingOp.won_eq_some {o : SchedulingOp} {w : BookSlotRequest × Booking}
    (h : o.won db = some w) : ∃ io fresh page, o = .bookSlot io w.1 fresh ∧
      w.2 = (w.1.row page fresh).toBooking := by
  cases o with
  | bookSlot io req fresh =>
    rw [SchedulingOp.won] at h
    rcases transaction_cases (bookSlotTx io req fresh) db with ⟨e, he⟩ | ⟨b, db', hok, he⟩
    · rw [SchedulingDb.bookSlot, he] at h
      cases h
    · rw [SchedulingDb.bookSlot, he] at h
      obtain ⟨page, -, -, -, -, hb, -⟩ := bookSlotTx_ok hok
      obtain rfl := Option.some.inj h
      exact ⟨io, fresh, page, rfl, hb⟩
  | _ => cases h

/-- Only `book_slot` writes bookings. -/
theorem SchedulingEffect.bookings_eq {o : SchedulingOp} {db' : SchedulingDb}
    (h : SchedulingEffect db o db') (ho : ∀ io req fresh, o ≠ .bookSlot io req fresh) :
    db'.bookings = db.bookings := by
  cases h with
  | booked => exact absurd rfl (ho _ _ _)
  | _ => rfl

/-- A call adds the booking it answers with, and no other. -/
theorem bookings_step (L : Locale) (db : SchedulingDb) (o : SchedulingOp) :
    (schedulingStep L db o).bookings.map (·.toBooking) =
      db.bookings.map (·.toBooking) ++ (o.won db).toList.map (·.2) := by
  cases o with
  | bookSlot io req fresh =>
    rw [schedulingStep, SchedulingOp.won]
    rcases transaction_cases (bookSlotTx io req fresh) db with ⟨e, he⟩ | ⟨b, db', hok, he⟩
    · rw [SchedulingDb.bookSlot, he]
      simp
    · rw [SchedulingDb.bookSlot, he]
      obtain ⟨page, -, -, -, -, rfl, rfl⟩ := bookSlotTx_ok hok
      simp
  | _ =>
    rw [(schedulingStep_effect L db _).bookings_eq (by rintro _ _ _ ⟨⟩)]
    exact (List.append_nil _).symm

/-- The bookings a run adds are the ones its calls answer with. -/
theorem bookings_run (L : Locale) : ∀ (ops : List SchedulingOp) (db : SchedulingDb),
    (Runs.run (schedulingStep L) db ops).bookings.map (·.toBooking) =
      db.bookings.map (·.toBooking) ++ (winners L db ops).map (·.2)
  | [], db => (List.append_nil _).symm
  | o :: ops, db => by
    rw [Runs.run_cons, bookings_run L ops, bookings_step, winners, List.map_append,
      List.append_assoc]

/-- A winner is the booking of one of the calls, on the slot of its request. -/
theorem mem_winners {ops : List SchedulingOp} {w : BookSlotRequest × Booking}
    (h : w ∈ winners L db ops) :
    ∃ io fresh page, .bookSlot io w.1 fresh ∈ ops ∧ w.2 = (w.1.row page fresh).toBooking := by
  induction ops generalizing db with
  | nil => cases h
  | cons o ops ih =>
    rcases List.mem_append.mp h with h | h
    · obtain ⟨io, fresh, page, rfl, hw⟩ := SchedulingOp.won_eq_some (Option.mem_toList.mp h)
      exact ⟨io, fresh, page, List.mem_cons_self, hw⟩
    · obtain ⟨io, fresh, page, hmem, hw⟩ := ih h
      exact ⟨io, fresh, page, List.mem_cons_of_mem _ hmem, hw⟩

/-- The winners of one account are apart. -/
theorem winners_apart {ops : List SchedulingOp} (hops : ∀ o ∈ ops, o.WellFormed)
    (a : AccountId) :
    Apart (fun w => w.2.span) ((winners L .empty ops).filter fun w => w.2.accountId = a) := by
  have hinv : Apart (fun b => b.span) ((SchedulingDb.after L ops).confirmedOf a) :=
    (SchedulingInv.empty.run hops).apart a
  -- every booking of the account is a confirmed one, so none is left out on either side
  have hrun : (SchedulingDb.after L ops).bookings.map (·.toBooking)
      = (winners L .empty ops).map (·.2) := bookings_run L ops .empty
  have hconf : ∀ b ∈ (winners L .empty ops).map (·.2), b.status = .confirmed := by
    intro b hb
    obtain ⟨w, hw, rfl⟩ := List.mem_map.mp hb
    obtain ⟨_, _, _, -, hw⟩ := mem_winners hw
    rw [hw]
    rfl
  have hsame : ((SchedulingDb.after L ops).confirmedOf a).map (·.toBooking)
      = ((winners L .empty ops).filter fun w => w.2.accountId = a).map (·.2) := by
    calc ((SchedulingDb.after L ops).confirmedOf a).map (·.toBooking)
        = ((SchedulingDb.after L ops).bookings.map (·.toBooking)).filter
            fun b => b.accountId = a ∧ b.status = .confirmed := by
          rw [List.filter_map]
          rfl
      _ = ((winners L .empty ops).map (·.2)).filter fun b => b.accountId = a := by
          rw [hrun]
          refine List.filter_congr fun b hb => ?_
          simp [hconf b hb]
      _ = ((winners L .empty ops).filter fun w => w.2.accountId = a).map (·.2) :=
          List.filter_map ..
  have happart : Apart Booking.span (((SchedulingDb.after L ops).confirmedOf a).map (·.toBooking)) :=
    apart_map.mpr hinv
  rw [hsame] at happart
  exact apart_map.mp happart

end Winners

/-! ## The result -/

/-- An event whose calendar belongs to an account is one of the account's events. -/
theorem mem_eventsOf {db : SchedulingDb} {a : AccountId} {e : CalendarEvent} :
    e ∈ db.eventsOf a ↔ e ∈ db.events ∧
      ∃ c ∈ db.calendars, c.id = e.calendarId ∧ c.accountId = a := by
  simp [SchedulingDb.eventsOf]

/-- **One booking.** In a state of the invariant `Ok` means what it should. -/
theorem SchedulingInv.booked {db : SchedulingDb} (h : SchedulingInv db) {io : Io}
    {req : BookSlotRequest} {fresh : BookingFresh} {b : Booking}
    (hok : (db.bookSlot io req fresh).1 = .ok b) :
    Booked db (db.bookSlot io req fresh).2 req b := by
  have htx : bookSlotTx io req fresh db = .ok (b, (db.bookSlot io req fresh).2) :=
    transaction_eq_ok.mp (Prod.ext hok rfl)
  obtain ⟨page, ⟨hpage, hid, hactive⟩, hevents, hbookings, -, rfl, hdb⟩ := bookSlotTx_ok htx
  rw [hdb]
  refine ⟨⟨page, hpage, hid, hactive, rfl⟩, ⟨rfl, rfl⟩,
    fun e he => separate_of_not_overlaps (hevents e he),
    fun b' hb' => separate_of_not_overlaps (hbookings b' hb'),
    ⟨req.event page fresh, req.row page fresh, rfl, rfl, rfl, rfl, rfl, ?_⟩⟩
  obtain ⟨c, hc, hown⟩ := h.owned page hpage
  exact mem_eventsOf.mpr ⟨List.mem_append_right _ List.mem_cons_self, c, hc, hown⟩

/-- **No double booking**, in every run whose requests are well formed. -/
theorem noDoubleBooking (L : Locale) (ops : List SchedulingOp)
    (hops : ∀ o ∈ ops, o.WellFormed) : NoDoubleBooking L ops where
  apart a := (SchedulingInv.empty.run hops).apart a
  booked pre io req fresh post b he hok := by
    refine SchedulingInv.booked (SchedulingInv.empty.run fun o ho => hops o ?_) hok
    rw [he]
    exact List.mem_append_left _ ho
  refused pre io req fresh post e _ herr := transaction_of_error herr
  oneWinner a S hS := by
    have happart : Apart (fun w => w.2.span)
        ((winners L .empty ops).filter fun w => w.2.accountId = a ∧ S w.1) := by
      refine List.Pairwise.sublist ?_ (winners_apart (L := L) hops a)
      exact List.monotone_filter_right _ fun w hw => decide_eq_true (of_decide_eq_true hw).1
    -- a winner keeps the slot of its request, and that slot is not empty
    have hslot : ∀ w ∈ (winners L .empty ops).filter fun w => w.2.accountId = a ∧ S w.1,
        w.2.span = w.1.span ∧ S w.1 ∧ w.1.start < w.1.stop := by
      intro w hw
      obtain ⟨hw, hsel⟩ := List.mem_filter.mp hw
      obtain ⟨io, fresh, page, hmem, hb⟩ := mem_winners hw
      have hwf : w.1.WellFormed := hops _ hmem
      exact ⟨by rw [hb]; rfl, (of_decide_eq_true hsel).2, hwf.2.1⟩
    refine happart.length_le_one fun w hw w' hw' => ?_
    obtain ⟨hspan, hS₁, hlt⟩ := hslot w hw
    obtain ⟨hspan', hS₂, -⟩ := hslot w' hw'
    rw [hspan, hspan']
    by_cases heq : w.1 = w'.1
    · rw [← heq]
      exact not_separate_self hlt
    · exact hS _ _ hS₁ hS₂ heq

/-! ## A race -/

/-- A locale that knows one timezone. -/
def denver : Locale where
  isTimezone s := s = "America/Denver"
  printable c := 32 ≤ c.toNat ∧ c.toNat < 127

/-- The owner of the page. -/
def alice : AccountId := ⟨1⟩

/-- Her page, `meet-alice`, on her calendar. -/
def meetAlice : NewSchedulingPage where
  slug := "meet-alice"
  title := "Meet with Alice"
  description := none
  calendarId := ⟨2⟩
  timezone := "America/Denver"
  availability := .defaultBusinessHours
  durationsMins := [30]
  bufferBeforeMins := 10
  bufferAfterMins := 0
  minNoticeMins := 0
  maxPerDay := some 3
  validFrom := none
  validUntil := none

/-- A half-hour slot from the given minute, with ten minutes before it. -/
def slotAt (minute : ℤ) : BookSlotRequest where
  pageId := ⟨3⟩
  visitorName := "Bob"
  visitorEmail := "bob@remote.test"
  note := none
  start := 60 * minute
  stop := 60 * (minute + 30)
  busyFrom := 60 * (minute - 10)
  busyTo := 60 * (minute + 30)
  eventTitle := "Meeting: Bob & Alice"
  eventDescription := none
  dayBounds := (0, 86400)

/-- Two visitors want the same slot, a third one the slot right after it. -/
def raceRun : List SchedulingOp :=
  [.createCalendar .ok ⟨alice, "Personal", none, ⟨2⟩, 0⟩,
    .createSchedulingPage .ok alice meetAlice ⟨3⟩ 0,
    .bookSlot .ok (slotAt 600) ⟨⟨4⟩, ⟨5⟩, "t5", 0⟩,
    .bookSlot .ok (slotAt 600) ⟨⟨6⟩, ⟨7⟩, "t7", 0⟩,
    .bookSlot .ok (slotAt 640) ⟨⟨8⟩, ⟨9⟩, "t9", 0⟩]

theorem noDoubleBooking_raceRun : NoDoubleBooking denver raceRun :=
  noDoubleBooking denver raceRun (by
    simp [raceRun, SchedulingOp.WellFormed, BookSlotRequest.WellFormed, slotAt])

example : (winners denver .empty raceRun).map (·.2.id) = [⟨5⟩, ⟨9⟩] := by decide +kernel

end Owney
