import Owney.SchedulePublic

/-!
# What is offered and what can be booked

`slots_json` lists the slots of a page, and `book` takes one of them. Both look at the page's
grid, but not at the same dates, bookings and day bounds:

* the list ends at the horizon, `book` knows none;
* the list leaves out what meets an event or a booking of the page, `book` refuses what meets
  an event or any booking of the owner;
* the list counts the bookings of a date by the date of their start, `book` between the date's
  two midnights.

`offered_iff` and `bookable_iff` say what each of them answers. `coincide_iff` puts the two next
to each other, on days whose two readings agree (`DayHolds`).
-/

namespace Owney.Schedule

open Programs Programs.Prog Intervals

/-! ## The state -/

/-- What every state of the tables has. -/
structure PagesInv (db : ScheduleDb) : Prop where
  ids : (db.tables.pages.map (·.id)).Nodup
  owned : ∀ p ∈ db.tables.pages, ∃ c ∈ db.tables.calendars, c.id = p.calendarId ∧
    c.accountId = p.accountId
  accounts : ∀ c ∈ db.tables.calendars, ∃ a, db.account c.accountId = some a
  bookings : ∀ b ∈ db.tables.bookings, ∃ p ∈ db.tables.pages, p.id = b.pageId ∧
    p.accountId = b.accountId

namespace PagesInv

variable {db : ScheduleDb}

theorem empty : PagesInv .empty where
  ids := List.nodup_nil
  owned _ h := nomatch h
  accounts _ h := nomatch h
  bookings _ h := nomatch h

/-- A page is known by its id. -/
theorem eq_of_id (h : PagesInv db) {p p' : SchedulingPage} (hp : p ∈ db.tables.pages)
    (hp' : p' ∈ db.tables.pages) (hid : p.id = p'.id) : p = p' :=
  List.inj_on_of_nodup_map h.ids hp hp' hid

/-- The owner of a page has an account. -/
theorem account (h : PagesInv db) {p : SchedulingPage} (hp : p ∈ db.tables.pages) :
    ∃ a, db.account p.accountId = some a := by
  obtain ⟨c, hc, -, howner⟩ := h.owned p hp
  exact howner ▸ h.accounts c hc

/-- The bookings of a page are its owner's. -/
theorem booking (h : PagesInv db) {p : SchedulingPage} (hp : p ∈ db.tables.pages)
    {b : BookingRow} (hb : b ∈ db.tables.bookings) (hpage : b.pageId = p.id) :
    b.accountId = p.accountId := by
  obtain ⟨p', hp', hid, howner⟩ := h.bookings b hb
  rw [← howner, h.eq_of_id hp' hp (hid.trans hpage)]

/-- What a call can do keeps the invariant, if the owners of the calendars have accounts. -/
theorem effect (h : PagesInv db) {o : SchedulingOp} {tables : SchedulingDb}
    (he : SchedulingEffect db.tables o tables)
    (hc : ∀ c ∈ tables.calendars, ∃ a, db.account c.accountId = some a) :
    PagesInv { db with tables := tables } := by
  cases he with
  | refused => exact h
  | calendar c _ =>
    refine ⟨h.ids, fun p hp => ?_, hc, h.bookings⟩
    obtain ⟨c', hc', hid⟩ := h.owned p hp
    exact ⟨c', List.mem_append_left _ hc', hid⟩
  | events _ _ => exact ⟨h.ids, h.owned, h.accounts, h.bookings⟩
  | page p hfresh _ howned =>
    refine ⟨?_, ?_, h.accounts, ?_⟩
    · rw [List.map_append]
      exact List.nodup_append.mpr ⟨h.ids, List.nodup_singleton _, by
        rintro x hx y hy rfl
        obtain rfl : x = p.id := List.mem_singleton.mp hy
        exact hfresh hx⟩
    · intro p' hp'
      rcases List.mem_append.mp hp' with hp' | hp'
      · exact h.owned p' hp'
      · rw [List.mem_singleton.mp hp']
        exact howned
    · intro b hb
      obtain ⟨p', hp', hid⟩ := h.bookings b hb
      exact ⟨p', List.mem_append_left _ hp', hid⟩
  | pagePatched id patched now =>
    -- id, owner and calendar are not among the columns written
    have hkept : ∀ p : SchedulingPage, (if decide (p.id = id) then p.overwrite patched now else p).id = p.id ∧
        (if decide (p.id = id) then p.overwrite patched now else p).accountId = p.accountId ∧
        (if decide (p.id = id) then p.overwrite patched now else p).calendarId =
          p.calendarId := by
      intro p
      split <;> exact ⟨rfl, rfl, rfl⟩
    refine ⟨?_, ?_, h.accounts, ?_⟩
    · have hids : (Tables.update (fun p => p.id = id) (·.overwrite patched now)
          db.tables.pages).map (·.id) = db.tables.pages.map (·.id) := by
        rw [Tables.update, List.map_map]
        exact List.map_congr_left fun p _ => (hkept p).1
      exact hids ▸ h.ids
    · intro p' hp'
      obtain ⟨p, hp, rfl⟩ := Tables.mem_update.mp hp'
      obtain ⟨c, hc, hid, howner⟩ := h.owned p hp
      exact ⟨c, hc, hid.trans (hkept p).2.2.symm, howner.trans (hkept p).2.1.symm⟩
    · intro b hb
      obtain ⟨p, hp, hid, howner⟩ := h.bookings b hb
      exact ⟨_, Tables.mem_update.mpr ⟨p, hp, rfl⟩, (hkept p).1.trans hid,
        (hkept p).2.1.trans howner⟩
  | @booked io req fresh page hactive _ _ _ =>
    refine ⟨h.ids, h.owned, h.accounts, ?_⟩
    intro b hb
    rcases List.mem_append.mp hb with hb | hb
    · exact h.bookings b hb
    · rw [List.mem_singleton.mp hb]
      exact ⟨page, hactive.1, hactive.2.1, rfl⟩

end PagesInv

/-- A call whose body leaves the calendars alone. -/
theorem calendars_of_ok {α : Type} {body : Tx SchedulingDb α} {db : SchedulingDb}
    (h : ∀ a db', body db = .ok (a, db') → db'.calendars = db.calendars) :
    (transaction body db).2.calendars = db.calendars := by
  rcases transaction_cases body db with ⟨e, he⟩ | ⟨a, db', hok, he⟩
  · rw [he]
  · rw [he]
    exact h a db' hok

theorem calendars_insertEvent {io : Io} {n : ℕ} {e : CalendarEvent} {u : PUnit}
    {db db' : SchedulingDb} (h : insertEventTx io n e db = .ok (u, db')) :
    db'.calendars = db.calendars := by
  rw [(insertEventTx_ok h).2.2]

/-- Only `create_calendar` writes calendars. -/
theorem calendars_step (L : Locale) (db : SchedulingDb) {o : SchedulingOp}
    (ho : ∀ io new, o ≠ .createCalendar io new) :
    (schedulingStep L db o).calendars = db.calendars := by
  cases o with
  | createCalendar io new => exact absurd rfl (ho io new)
  | createCalendarEvent io new =>
    refine calendars_of_ok fun e db' h => ?_
    simp only [createCalendarEventTx, Tx.bind_eq_ok, Tx.pure_eq_ok] at h
    obtain ⟨_, _, hinsert, -, rfl⟩ := h
    exact calendars_insertEvent hinsert
  | createRemoteCalendarEvent io federationId new =>
    refine calendars_of_ok fun e db' h => ?_
    simp only [createRemoteCalendarEventTx, Tx.bind_eq_ok, Tx.pure_eq_ok] at h
    obtain ⟨_, _, hinsert, -, rfl⟩ := h
    exact calendars_insertEvent hinsert
  | updateCalendarEvent io id patch now =>
    refine calendars_of_ok fun e db' h => ?_
    rw [updateCalendarEventTx, Tx.exec_eq_ok] at h
    rw [← h.2]
  | updateRemoteCalendarEvent io new =>
    refine calendars_of_ok fun e db' h => ?_
    rw [updateRemoteCalendarEventTx, Tx.exec_eq_ok] at h
    rw [← h.2]
  | deleteCalendarEvent io id =>
    refine calendars_of_ok fun e db' h => ?_
    simp only [deleteCalendarEventTx, Tx.bind_eq_ok, Tx.get_eq_ok, Tx.require_eq_ok,
      Tx.exec_eq_ok] at h
    obtain ⟨_, _, ⟨rfl, rfl⟩, _, _, ⟨-, rfl⟩, -, rfl⟩ := h
    rfl
  | createSchedulingPage io accountId new id now =>
    refine calendars_of_ok fun p db' h => ?_
    simp only [createSchedulingPageTx, Tx.bind_eq_ok, checked_eq_ok, Tx.query_eq_ok,
      Tx.require_eq_ok, Tx.get_eq_ok, Tx.exec_eq_ok, Tx.okOr_eq_ok] at h
    obtain ⟨_, _, ⟨-, rfl⟩, _, _, ⟨-, rfl, rfl⟩, _, _, ⟨-, rfl⟩, _, _, ⟨rfl, rfl⟩,
      _, _, ⟨-, rfl⟩, _, _, ⟨-, rfl⟩, _, _, ⟨-, rfl⟩, _, _, ⟨-, -, rfl⟩, -, rfl⟩ := h
    rfl
  | updateSchedulingPage io accountId pageId patch now =>
    refine calendars_of_ok fun p db' h => ?_
    simp only [updateSchedulingPageTx, Tx.bind_eq_ok, checked_eq_ok, Tx.query_eq_ok,
      Tx.exec_eq_ok, Tx.okOr_eq_ok] at h
    obtain ⟨_, _, ⟨-, rfl, rfl⟩, current, _, ⟨-, rfl⟩, _, _, ⟨-, rfl⟩, _, _, ⟨-, rfl⟩,
      _, _, ⟨-, -, rfl⟩, -, rfl⟩ := h
    rfl
  | bookSlot io req fresh =>
    refine calendars_of_ok fun b db' h => ?_
    obtain ⟨page, -, -, -, -, -, rfl⟩ := bookSlotTx_ok h
    rfl

/-- A created calendar is of the account that was named. -/
theorem mem_createCalendar {L : Locale} {db : SchedulingDb} {io : Io} {new : NewCalendar}
    {c : Calendar} (h : c ∈ (schedulingStep L db (.createCalendar io new)).calendars) :
    c ∈ db.calendars ∨ c.accountId = new.accountId := by
  rw [schedulingStep] at h
  rcases transaction_cases (createCalendarTx io new) db with ⟨e, he⟩ | ⟨c', db', hok, he⟩
  · rw [he] at h
    exact .inl h
  · rw [he] at h
    simp only [createCalendarTx, Tx.bind_eq_ok, Tx.get_eq_ok, Tx.require_eq_ok, Tx.exec_eq_ok,
      Tx.pure_eq_ok] at hok
    obtain ⟨_, _, ⟨rfl, rfl⟩, _, _, ⟨-, rfl⟩, _, _, ⟨-, rfl⟩, -, rfl⟩ := hok
    rcases List.mem_append.mp h with h | h
    · exact .inl h
    · rw [List.mem_singleton.mp h]
      exact .inr rfl

/-- Every call keeps the invariant. -/
theorem PagesInv.exec {db : ScheduleDb} (h : PagesInv db) (L : Locale) (c : ScheduleChoice)
    (o : ScheduleOp) : PagesInv (db.exec L c o).2 := by
  have hstep : ∀ op, (∀ io new, op ≠ .createCalendar io new) →
      PagesInv { db with tables := schedulingStep L db.tables op } := by
    intro op hop
    refine h.effect (schedulingStep_effect L db.tables op) ?_
    rw [calendars_step L db.tables hop]
    exact h.accounts
  cases o with
  | pageBySlug | account | eventsOverlapping | confirmedBookings => exact h
  | bookSlot req => exact hstep (.bookSlot c.io req c.fresh) (by rintro _ _ ⟨⟩)
  | createAccount row =>
    simp only [ScheduleDb.exec]
    split
    · refine ⟨h.ids, h.owned, fun c' hc' => ?_, h.bookings⟩
      obtain ⟨a, ha⟩ := h.accounts c' hc'
      refine ⟨a, ?_⟩
      rw [ScheduleDb.account, List.find?_append]
      exact Option.or_eq_some_iff.mpr (.inl ha)
    · exact h
  | store op =>
    cases op with
    | bookSlot => exact h
    | createCalendar io new =>
      simp only [ScheduleDb.exec, ScheduleDb.store]
      split
      · rename_i hsome
        refine h.effect (schedulingStep_effect L db.tables (.createCalendar io new)) fun c' hc' => ?_
        rcases mem_createCalendar hc' with hc' | hc'
        · exact h.accounts c' hc'
        · rw [hc']
          exact Option.isSome_iff_exists.mp hsome
      · exact h
    | _ => exact hstep _ (by rintro _ _ ⟨⟩)

/-- The invariant holds whatever the programs do. -/
theorem pagesInv_run (C : ScheduleCrates) (moves : List (Move ScheduleRequest ScheduleChoice)) :
    PagesInv (scheduleRun C moves).world := by
  refine world_invariant (I := PagesInv) (fun o c db r db' hexec h => ?_) moves .empty
  obtain rfl : (db.exec C.locale c o).2 = db' := congrArg Prod.snd (Option.some.inj hexec)
  exact h.exec C.locale c o

/-! ## One request at a time -/

section Alone

variable {exec : (o : ScheduleOp) → ScheduleDb → o.Ret × ScheduleDb} {w w' : ScheduleDb} {α : Type}

theorem alone_return {a b : α} :
    (pure a : ScheduleProg α).run.alone exec w = (.ok b, w') ↔ a = b ∧ w = w' := by
  simp

theorem alone_valueOr {v : Option α} {r : Refusal} {a : α} :
    (valueOr v r).run.alone exec w = (.ok a, w') ↔ v = some a ∧ w = w' := by
  cases v <;> simp [valueOr]

theorem alone_demand {c : Prop} [Decidable c] {r : Refusal} {u : Unit} :
    (demand c r).run.alone exec w = (.ok u, w') ↔ c ∧ w = w' := by
  unfold demand
  split <;> simp_all

theorem alone_ask {o : ScheduleOp} {v : o.Ret} :
    (ask o).run.alone exec w = (.ok v, w') ↔ exec o w = (v, w') := by
  simp [ask, Prod.ext_iff]

theorem alone_fetch {o : ScheduleOp} {v : o.Val} :
    (fetch o).run.alone exec w = (.ok v, w') ↔ exec o w = (.ok v, w') := by
  simp only [fetch, alone_bind_eq_ok, alone_ask]
  constructor
  · rintro ⟨e | a, w'', hexec, hvalue⟩
    · simp [valueOf] at hvalue
    · obtain ⟨rfl, rfl⟩ := alone_return.mp hvalue
      exact hexec
  · exact fun h => ⟨.ok v, w', h, by simp [valueOf]⟩

end Alone

section Reply

variable (C : ScheduleCrates) (db : ScheduleDb) (fresh : BookingFresh)

/-- The calls of a program that nothing disturbs: no statement fails. -/
def calm : (o : ScheduleOp) → ScheduleDb → o.Ret × ScheduleDb :=
  ScheduleDb.exec C.locale ⟨.ok, fresh⟩

/-- The reply to a request that nothing disturbs. -/
def reply (r : ScheduleRequest) : ScheduleReply := ((scheduleHandle C r).alone (calm C fresh) db).1

variable (slug : String) (duration : ℕ) (now : ℤ)

/-- Some request lists the start. -/
def Offered (start : ℤ) : Prop :=
  ∃ query timezone slots, query.now = now ∧
    reply C db fresh (.slots slug query) = .slots timezone duration slots ∧
    start ∈ slots.map (·.start)

/-- The request to book is answered `201`. -/
def Bookable (body : BookBody) : Prop :=
  ∃ booking timezone, reply C db fresh (.book slug ⟨true, now, .ok body⟩) = .booked booking timezone

/-- The visitor can book what is offered, and only that. -/
def Coincide (visitor : BookBody) : Prop :=
  ∀ start, Offered C db fresh slug visitor.durationMins now start ↔
    Bookable C db fresh slug now { visitor with start := start }

/-! ## What stands in the way -/

/-- The slug names an active page with a known timezone, and the page has the duration. -/
structure Shown (page : SchedulingPage) (tz : Zone) : Prop where
  found : db.pageBySlug slug = some page
  active : page.status = .active
  zone : C.zone page.timezone = some tz
  duration : duration ∈ page.durationsMins

variable (page : SchedulingPage) (tz : Zone) (date : ℤ) (s : Slot)

/-- The slot is on the page's grid of the date. -/
def OnGrid : Prop := s ∈ (slotParams C page tz duration none now).grid C.locale C.formatDate date

/-- The slot with the page's buffers around it. -/
def withBuffers : ℤ × ℤ :=
  (s.start - 60 * page.bufferBeforeMins, s.stop + 60 * page.bufferAfterMins)

/-- An event of the owner is in the way. -/
def EventInWay : Prop :=
  ∃ e ∈ db.tables.eventsOf page.accountId, Overlaps (withBuffers page s) e.span

/-- A confirmed booking of the owner is in the way. -/
def BookingInWay : Prop :=
  ∃ b ∈ db.tables.confirmedOf page.accountId, Overlaps (withBuffers page s) b.span

/-- A booking is in the way that the list of the date fetches: one of the page, which starts
not too far from the date. -/
def PageBookingInWay : Prop :=
  ∃ b ∈ db.confirmedBookings page.id ((tz.localDayBounds date).1 - widen page)
    ((tz.localDayBounds date).2 + widen page), Overlaps (withBuffers page s) b.span

/-- The page takes no more bookings between the date's two midnights. -/
def QuotaUsed : Prop :=
  ∃ limit ∈ page.maxPerDay, limit ≤ db.tables.bookedOn page.id (tz.localDayBounds date)

/-- The date of the slot, read off its start, is the date it is on the grid of, and agrees with
the date's two midnights; so do the starts of the page's bookings. -/
structure DayHolds : Prop where
  day : tz.todayIn s.start = date
  inside : (tz.localDayBounds date).1 ≤ s.start ∧ s.stop ≤ (tz.localDayBounds date).2
  counted : ∀ b ∈ db.tables.bookings, b.pageId = page.id →
    ((tz.localDayBounds date).1 ≤ b.start ∧ b.start < (tz.localDayBounds date).2 ↔
      tz.todayIn b.start = date)
  ordered : ∀ first last, first ≤ date → date ≤ last → last - first < maxRangeDays →
    (tz.localDayBounds first).1 ≤ (tz.localDayBounds date).1 ∧
      (tz.localDayBounds date).2 ≤ (tz.localDayBounds last).2

end Reply

/-! ### Regular timezones -/

section Lemmas

variable {C : ScheduleCrates} {db : ScheduleDb} {fresh : BookingFresh} {slug : String}
  {duration : ℕ} {now : ℤ} {page : SchedulingPage} {tz : Zone} {date : ℤ} {s : Slot}

/-- In a regular timezone every slot of the grid is on its day. -/
theorem OnGrid.dayHolds (h : OnGrid C duration now page tz date s) (htz : tz.Regular) :
    DayHolds db page tz date s := by
  obtain ⟨⟨wall, hwall, rfl⟩, -, stop, hstop, hle⟩ := SlotParams.of_mem_grid h
  have hday : tz.todayIn (tz.minute date wall) = date := htz.minute_day date wall hwall
  have hstart := (htz.bounds date _).mpr hday
  have hend := (htz.bounds date _).mpr (htz.minute_day date stop hstop)
  refine ⟨hday, ⟨hstart.1, hle.trans hend.2.le⟩, fun b _ _ => htz.bounds date b.start, ?_⟩
  intro first last hfirst hlast _
  have hlate : date + 1 ≤ last + 1 := by omega
  exact ⟨htz.mono hfirst, htz.mono hlate⟩

/-- A slot of the grid is not empty. -/
theorem OnGrid.lt (h : OnGrid C duration now page tz date s) : s.start < s.stop := by
  obtain ⟨-, window, -, hs⟩ := SlotParams.mem_grid.mp h
  simp only [SlotParams.windowSlots, List.mem_filter, List.mem_map] at hs
  obtain ⟨⟨start, hstart, rfl⟩, -⟩ := hs
  obtain ⟨wall, hwall, -⟩ := SlotParams.mem_slotStarts hstart
  have hdur : 0 < duration := by
    rcases Nat.eq_zero_or_pos duration with rfl | hpos
    · simp [walls, slotParams] at hwall
    · exact hpos
  simp only [SlotParams.slot, slotParams]
  omega

/-! ### The list -/

/-- A reply that is no refusal comes out of a program that went through. -/
theorem reply_eq {exec : (o : ScheduleOp) → ScheduleDb → o.Ret × ScheduleDb}
    {p : ScheduleProg ScheduleReply} {x : ScheduleReply} (hx : ∀ r, x ≠ .refused r) :
    (p.reply.alone exec db).1 = x ↔ ∃ db', p.run.alone exec db = (.ok x, db') := by
  rw [ScheduleProg.reply, alone_bind]
  rcases hrun : p.run.alone exec db with ⟨r | y, db'⟩
  · simpa using fun h => hx r h.symm
  · simp

variable (C db page tz duration now) in
/-- The slots a list of the dates holds. -/
def rangeSlots (first last : ℤ) : List Slot :=
  let lo := (tz.localDayBounds first).1 - widen page
  let hi := (tz.localDayBounds last).2 + widen page
  let bookings := db.confirmedBookings page.id lo hi
  (slotParams C page tz duration page.maxPerDay now).computeSlots C.locale C.formatDate first last
    (db.eventsOverlapping page.accountId lo hi ++ bookings.map (·.span))
    fun date => bookings.countP fun b => tz.todayIn b.start = date

theorem alone_slotsForRange {first last : ℤ} {slots : List Slot} {db' : ScheduleDb} :
    (slotsForRange C page tz duration first last now).run.alone (calm C fresh) db =
        (.ok slots, db') ↔
      rangeSlots C db duration now page tz first last = slots ∧ db = db' := by
  simp only [slotsForRange, alone_bind_eq_ok, alone_return]
  constructor
  · rintro ⟨events, _, hevents, bookings, _, hbookings, hslots, rfl⟩
    cases hevents
    cases hbookings
    exact ⟨hslots, rfl⟩
  · rintro ⟨rfl, rfl⟩
    exact ⟨_, _, rfl, _, _, rfl, rfl, rfl⟩

theorem alone_activePage {db' : ScheduleDb} :
    (activePage slug).run.alone (calm C fresh) db = (.ok page, db') ↔
      (db.pageBySlug slug = some page ∧ page.status = .active) ∧ db = db' := by
  simp only [activePage, alone_bind_eq_ok, alone_valueOr]
  constructor
  · rintro ⟨found, _, hfound, hpage, rfl⟩
    cases hfound
    obtain ⟨hpage, hactive⟩ := Option.filter_eq_some_iff.mp hpage
    exact ⟨⟨hpage, of_decide_eq_true hactive⟩, rfl⟩
  · rintro ⟨⟨hpage, hactive⟩, rfl⟩
    exact ⟨_, _, rfl, Option.filter_eq_some_iff.mpr ⟨hpage, decide_eq_true hactive⟩, rfl⟩

theorem slots_reply {query : SlotsQuery} {timezone : String} {slots : List Slot} :
    reply C db fresh (.slots slug query) = .slots timezone duration slots ↔
      ∃ page tz first last, query.allowed = true ∧ Shown C db slug duration page tz ∧
        query.duration.getD (page.durationsMins.headD 0) = duration ∧
        query.first.getD (some (tz.todayIn query.now)) = some first ∧
        query.last.getD (some (first + 13)) = some last ∧
        ¬(last < first ∨ maxRangeDays ≤ last - first) ∧
        ¬tz.todayIn query.now + maxHorizonDays < last ∧ page.timezone = timezone ∧
        rangeSlots C db duration query.now page tz first last = slots := by
  rw [reply, scheduleHandle, reply_eq (by rintro _ ⟨⟩)]
  simp only [slotsJson, alone_bind_eq_ok, alone_demand, alone_activePage, pageTz, queryDate,
    alone_valueOr, alone_slotsForRange, alone_return]
  constructor
  · rintro ⟨_, _, _, ⟨hallowed, rfl⟩, page, _, ⟨⟨hpage, hactive⟩, rfl⟩, tz, _, ⟨htz, rfl⟩,
      _, _, ⟨hduration, rfl⟩, first, _, ⟨hfirst, rfl⟩, last, _, ⟨hlast, rfl⟩, _, _, ⟨hrange, rfl⟩,
      _, _, ⟨hhorizon, rfl⟩, _, _, ⟨rfl, rfl⟩, hreply, -⟩
    cases hreply
    exact ⟨page, tz, first, last, hallowed, ⟨hpage, hactive, htz, hduration⟩, rfl, hfirst, hlast,
      hrange, hhorizon, rfl, rfl⟩
  · rintro ⟨page, tz, first, last, hallowed, ⟨hpage, hactive, htz, hduration⟩, rfl, hfirst, hlast,
      hrange, hhorizon, rfl, rfl⟩
    exact ⟨db, (), db, ⟨hallowed, rfl⟩, page, db, ⟨⟨hpage, hactive⟩, rfl⟩, tz, db, ⟨htz, rfl⟩,
      (), db, ⟨hduration, rfl⟩, first, db, ⟨hfirst, rfl⟩, last, db, ⟨hlast, rfl⟩, (), db,
      ⟨hrange, rfl⟩, (), db, ⟨hhorizon, rfl⟩, _, db, ⟨rfl, rfl⟩, rfl, rfl⟩

theorem widen_ge : 60 * (page.bufferBeforeMins : ℤ) ≤ widen page ∧
    60 * (page.bufferAfterMins : ℤ) ≤ widen page := by
  unfold widen
  omega

section Range

variable {first last : ℤ} (hold : DayHolds db page tz date s) (hfirst : first ≤ date)
  (hlast : date ≤ last) (hrange : last - first < maxRangeDays)
include hold hfirst hlast hrange

/-- The list counts the bookings that `book` counts. -/
theorem countP_fetched :
    (db.confirmedBookings page.id ((tz.localDayBounds first).1 - widen page)
        ((tz.localDayBounds last).2 + widen page)).countP (fun b => tz.todayIn b.start = date) =
      db.tables.bookedOn page.id (tz.localDayBounds date) := by
  obtain ⟨hlo, hhi⟩ := hold.ordered first last hfirst hlast hrange
  obtain ⟨hbefore, hafter⟩ : 60 * (page.bufferBeforeMins : ℤ) ≤ widen page ∧
      60 * (page.bufferAfterMins : ℤ) ≤ widen page := widen_ge
  rw [ScheduleDb.confirmedBookings, SchedulingDb.bookedOn, List.countP_map, List.countP_filter,
    ← List.countP_eq_length_filter]
  refine List.countP_congr fun b hb => ?_
  simp only [Function.comp_apply, Bool.and_eq_true, decide_eq_true_eq]
  constructor
  · rintro ⟨hday, hpage, hconfirmed, -, -⟩
    exact ⟨hpage, hconfirmed, (hold.counted b hb hpage).mpr hday⟩
  · rintro ⟨hpage, hconfirmed, hin⟩
    exact ⟨(hold.counted b hb hpage).mp hin, hpage, hconfirmed, by omega, by omega⟩

/-- An event that is in the way is fetched. -/
theorem mem_eventsOverlapping {e : CalendarEvent} (he : e ∈ db.tables.eventsOf page.accountId)
    (hover : Overlaps (withBuffers page s) e.span) :
    e.span ∈ db.eventsOverlapping page.accountId ((tz.localDayBounds first).1 - widen page)
      ((tz.localDayBounds last).2 + widen page) := by
  obtain ⟨hlo, hhi⟩ := hold.ordered first last hfirst hlast hrange
  obtain ⟨hstart, hstop⟩ := hold.inside
  obtain ⟨hbefore, hafter⟩ : 60 * (page.bufferBeforeMins : ℤ) ≤ widen page ∧
      60 * (page.bufferAfterMins : ℤ) ≤ widen page := widen_ge
  obtain ⟨hleft, hright⟩ := hover
  simp only [withBuffers, CalendarEvent.span] at hleft hright
  refine List.mem_map.mpr ⟨e, List.mem_filter.mpr ⟨he, decide_eq_true ?_⟩, rfl⟩
  omega

/-- A booking of the page that the list of the date fetches, is fetched. -/
theorem mem_confirmedBookings {b : Booking}
    (hb : b ∈ db.confirmedBookings page.id ((tz.localDayBounds date).1 - widen page)
      ((tz.localDayBounds date).2 + widen page)) :
    b ∈ db.confirmedBookings page.id ((tz.localDayBounds first).1 - widen page)
      ((tz.localDayBounds last).2 + widen page) := by
  obtain ⟨hlo, hhi⟩ := hold.ordered first last hfirst hlast hrange
  obtain ⟨row, hrow, rfl⟩ := List.mem_map.mp hb
  obtain ⟨hmem, hrow⟩ := List.mem_filter.mp hrow
  obtain ⟨hpage, hconfirmed, hge, hlt⟩ := of_decide_eq_true hrow
  refine List.mem_map.mpr ⟨row, List.mem_filter.mpr ⟨hmem, decide_eq_true ?_⟩, rfl⟩
  exact ⟨hpage, hconfirmed, by omega, by omega⟩

end Range

/-- A slot that is listed under a date. -/
theorem mem_rangeSlots {first last : ℤ} :
    s ∈ rangeSlots C db duration now page tz first last ↔
      ∃ date, (first ≤ date ∧ date ≤ last) ∧
        (¬∃ limit ∈ page.maxPerDay, limit ≤ (db.confirmedBookings page.id
          ((tz.localDayBounds first).1 - widen page)
          ((tz.localDayBounds last).2 + widen page)).countP fun b => tz.todayIn b.start = date) ∧
        OnGrid C duration now page tz date s ∧
        ∀ b ∈ db.eventsOverlapping page.accountId ((tz.localDayBounds first).1 - widen page)
            ((tz.localDayBounds last).2 + widen page) ++
          (db.confirmedBookings page.id ((tz.localDayBounds first).1 - widen page)
            ((tz.localDayBounds last).2 + widen page)).map (·.span),
          ¬Overlaps (withBuffers page s) b :=
  SlotParams.mem_computeSlots

variable (C db slug duration now) in
/-- On every day the list can show, the date and its midnights agree. -/
def DaysHold : Prop :=
  ∀ page tz, Shown C db slug duration page tz → ∀ date s, OnGrid C duration now page tz date s →
    DayHolds db page tz date s

/-- **The list.** -/
theorem offered_iff (hdays : DaysHold C db slug duration now) {start : ℤ} :
    Offered C db fresh slug duration now start ↔
      ∃ page tz date s, Shown C db slug duration page tz ∧
        date ≤ tz.todayIn now + maxHorizonDays ∧ OnGrid C duration now page tz date s ∧
        s.start = start ∧ ¬EventInWay db page s ∧ ¬PageBookingInWay db page tz date s ∧
        ¬QuotaUsed db page tz date := by
  constructor
  · rintro ⟨query, timezone, slots, rfl, hreply, hstart⟩
    -- what is listed was listed for the duration asked for
    obtain ⟨page, tz, first, last, -, hshown, -, -, -, hrange, hhorizon, -, rfl⟩ :=
      slots_reply.mp hreply
    obtain ⟨s, hs, rfl⟩ := List.mem_map.mp hstart
    obtain ⟨date, ⟨hfirst, hlast⟩, hfull, hgrid, hfree⟩ := mem_rangeSlots.mp hs
    have hold := hdays page tz hshown date s hgrid
    have hshort : last - first < maxRangeDays := by omega
    refine ⟨page, tz, date, s, hshown, by omega, hgrid, rfl, ?_, ?_, ?_⟩
    · rintro ⟨e, he, hover⟩
      have hmem := mem_eventsOverlapping hold hfirst hlast hshort he hover
      exact hfree _ (List.mem_append_left _ hmem) hover
    · rintro ⟨b, hb, hover⟩
      have hmem := mem_confirmedBookings hold hfirst hlast hshort hb
      exact hfree _ (List.mem_append_right _ (List.mem_map_of_mem hmem)) hover
    · rintro ⟨limit, hlimit, hle⟩
      exact hfull ⟨limit, hlimit, (countP_fetched hold hfirst hlast hshort).symm ▸ hle⟩
  · rintro ⟨page, tz, date, s, hshown, hhorizon, hgrid, rfl, hevent, hbooking, hquota⟩
    have hold := hdays page tz hshown date s hgrid
    have hshort : date - date < maxRangeDays := by rw [sub_self]; decide
    refine ⟨⟨true, now, some (some date), some (some date), some duration⟩, page.timezone,
      rangeSlots C db duration now page tz date date, rfl, ?_, List.mem_map.mpr ⟨s, ?_, rfl⟩⟩
    · exact slots_reply.mpr ⟨page, tz, date, date, rfl, hshown, rfl, rfl, rfl, by omega,
        by simpa using hhorizon, rfl, rfl⟩
    · refine mem_rangeSlots.mpr ⟨date, ⟨le_rfl, le_rfl⟩, ?_, hgrid, ?_⟩
      · rintro ⟨limit, hlimit, hle⟩
        exact hquota ⟨limit, hlimit, countP_fetched hold le_rfl le_rfl hshort ▸ hle⟩
      · intro b hb hover
        rcases List.mem_append.mp hb with hb | hb
        · obtain ⟨e, he, rfl⟩ := List.mem_map.mp hb
          exact hevent ⟨e, List.mem_of_mem_filter he, hover⟩
        · obtain ⟨row, hrow, rfl⟩ := List.mem_map.mp hb
          exact hbooking ⟨row, hrow, hover⟩

/-! ### The booking -/

/-- A slot of the day's grid from the start that was picked. -/
theorem pickSlot_eq_some {body : BookBody} {s : Slot}
    (h : pickSlot C page tz body now = some s) :
    OnGrid C body.durationMins now page tz (tz.todayIn body.start) s ∧ s.start = body.start := by
  have hstart : decide (s.start = body.start) = true :=
    List.find?_some (p := fun slot : Slot => decide (slot.start = body.start)) h
  exact ⟨List.mem_of_find?_eq_some h, of_decide_eq_true hstart⟩

/-- Slots of one duration are known by their start. -/
theorem OnGrid.stop_eq (h : OnGrid C duration now page tz date s) :
    s.stop = s.start + 60 * duration := by
  obtain ⟨⟨wall, -, rfl⟩, -⟩ := SlotParams.of_mem_grid h
  rfl

theorem pickSlot_of_onGrid {body : BookBody}
    (h : OnGrid C body.durationMins now page tz (tz.todayIn body.start) s)
    (hstart : s.start = body.start) : pickSlot C page tz body now = some s := by
  rcases hpick : pickSlot C page tz body now with _ | s'
  · exact absurd (decide_eq_true hstart) (List.find?_eq_none.mp hpick s h)
  · obtain ⟨hgrid, hstart'⟩ := pickSlot_eq_some hpick
    have hsame : s'.start = s.start := hstart'.trans hstart.symm
    obtain ⟨start, stop⟩ := s
    obtain ⟨start', stop'⟩ := s'
    obtain rfl : start' = start := hsame
    obtain rfl : stop' = stop := hgrid.stop_eq.trans h.stop_eq.symm
    rfl

theorem alone_body {exec : (o : ScheduleOp) → ScheduleDb → o.Ret × ScheduleDb} {db' : ScheduleDb}
    {post : BookPost} {body : BookBody} {f : String → Refusal} :
    (ExceptT.mk (pure (post.body.mapError f)) : ScheduleProg BookBody).run.alone exec db =
      (.ok body, db') ↔ post.body = .ok body ∧ db = db' := by
  cases post.body <;> simp [Except.mapError]

theorem alone_bookReply {exec : (o : ScheduleOp) → ScheduleDb → o.Ret × ScheduleDb}
    {db' : ScheduleDb} {res : Except StorageError Booking} {booking : Booking}
    {timezone : String} :
    (bookReply page res).run.alone exec db = (.ok (.booked booking timezone), db') ↔
      res = .ok booking ∧ page.timezone = timezone ∧ db = db' := by
  cases res <;> simp [bookReply, and_assoc]

theorem book_reply {post : BookPost} {booking : Booking} {timezone : String} :
    reply C db fresh (.book slug post) = .booked booking timezone ↔
      ∃ body page tz s owner, post.allowed = true ∧ post.body = .ok body ∧
        validateVisitor C body = none ∧ Shown C db slug body.durationMins page tz ∧
        pickSlot C page tz body post.now = some s ∧ db.account page.accountId = some owner ∧
        (db.tables.bookSlot .ok (bookRequest page tz owner body s) fresh).1 = .ok booking ∧
        page.timezone = timezone := by
  rw [reply, scheduleHandle, reply_eq (by rintro _ ⟨⟩)]
  simp only [book, alone_bind_eq_ok, alone_demand, alone_activePage, pageTz, alone_valueOr]
  constructor
  · rintro ⟨_, _, _, ⟨hallowed, rfl⟩, body, _, hbody, _, _, ⟨hvisitor, rfl⟩, page, _,
      ⟨⟨hpage, hactive⟩, rfl⟩, tz, _, ⟨htz, rfl⟩, _, _, ⟨hduration, rfl⟩, s, _, ⟨hpick, rfl⟩,
      found, _, hfound, owner, _, ⟨howner, rfl⟩, res, _, hask, hreply⟩
    cases hfound
    obtain ⟨rfl, rfl⟩ := Prod.ext_iff.mp (alone_ask.mp hask)
    obtain ⟨hread, rfl⟩ := alone_body.mp hbody
    obtain ⟨hres, rfl, -⟩ := alone_bookReply.mp hreply
    exact ⟨body, page, tz, s, owner, hallowed, hread, hvisitor, ⟨hpage, hactive, htz, hduration⟩,
      hpick, howner, hres, rfl⟩
  · rintro ⟨body, page, tz, s, owner, hallowed, hbody, hvisitor,
      ⟨hpage, hactive, htz, hduration⟩, hpick, howner, hres, rfl⟩
    exact ⟨_, (), db, ⟨hallowed, rfl⟩, body, db, alone_body.mpr ⟨hbody, rfl⟩, (), db,
      ⟨hvisitor, rfl⟩, page, db, ⟨⟨hpage, hactive⟩, rfl⟩, tz, db, ⟨htz, rfl⟩, (), db,
      ⟨hduration, rfl⟩, s, db, ⟨hpick, rfl⟩, _, db, rfl, owner, db, ⟨howner, rfl⟩, _, _, rfl,
      alone_bookReply.mpr ⟨hres, rfl, rfl⟩⟩

/-- The page `book` finds is the page `book_slot` finds. -/
theorem Shown.find_id (hshown : Shown C db slug duration page tz) (inv : PagesInv db) :
    db.tables.pages.find? (fun p => p.id = page.id ∧ p.status = .active) = some page := by
  have hmem : page ∈ db.tables.pages := List.mem_of_find?_eq_some hshown.found
  rcases hfind : db.tables.pages.find? fun p => p.id = page.id ∧ p.status = .active with _ | p
  · exact absurd (decide_eq_true ⟨rfl, hshown.active⟩) (List.find?_eq_none.mp hfind page hmem)
  · have hp : decide (p.id = page.id ∧ p.status = .active) = true := List.find?_some
      (p := fun p : SchedulingPage => decide (p.id = page.id ∧ p.status = .active)) hfind
    refine hfind.trans (congrArg some ?_)
    exact inv.eq_of_id (List.mem_of_find?_eq_some hfind) hmem (of_decide_eq_true hp).1

/-- **The booking.** -/
theorem bookable_iff (inv : PagesInv db) (hfresh : fresh.NotIn db.tables) {body : BookBody}
    (hvisitor : validateVisitor C body = none) :
    Bookable C db fresh slug now body ↔
      ∃ page tz s, Shown C db slug body.durationMins page tz ∧
        OnGrid C body.durationMins now page tz (tz.todayIn body.start) s ∧ s.start = body.start ∧
        ¬EventInWay db page s ∧ ¬BookingInWay db page s ∧
        ¬QuotaUsed db page tz (tz.todayIn body.start) := by
  constructor
  · rintro ⟨booking, timezone, hreply⟩
    obtain ⟨_, page, tz, s, owner, -, hbody, -, hshown, hpick, -, hres, -⟩ := book_reply.mp hreply
    obtain rfl := Except.ok.inj hbody
    obtain ⟨hgrid, hstart⟩ := pickSlot_eq_some hpick
    have hmem : page ∈ db.tables.pages := List.mem_of_find?_eq_some hshown.found
    have hok := transaction_eq_ok.mp (Prod.ext hres rfl)
    obtain ⟨p, ⟨hp, hid, -⟩, hevents, hbookings, hquota, -⟩ := bookSlotTx_ok hok
    obtain rfl : p = page := inv.eq_of_id hp hmem hid
    refine ⟨p, tz, s, hshown, hgrid, hstart, ?_, ?_, ?_⟩
    · exact fun ⟨e, he, hover⟩ => hevents e he hover
    · exact fun ⟨b, hb, hover⟩ => hbookings b hb hover
    · exact fun ⟨limit, hlimit, hle⟩ => absurd (hquota limit hlimit) (Nat.not_lt.mpr hle)
  · rintro ⟨page, tz, s, hshown, hgrid, hstart, hevent, hbooking, hquota⟩
    have hmem : page ∈ db.tables.pages := List.mem_of_find?_eq_some hshown.found
    obtain ⟨owner, howner⟩ := inv.account hmem
    obtain ⟨c, hc, hcalendar, -⟩ := inv.owned page hmem
    let req := bookRequest page tz owner body s
    obtain ⟨tables, hok⟩ : ∃ tables, bookSlotTx .ok req fresh db.tables =
        .ok ((req.row page fresh).toBooking, tables) := bookSlotTx_of_free
      hgrid.lt (hshown.find_id inv) (fun e he hover => hevent ⟨e, he, hover⟩)
      (fun b hb hover => hbooking ⟨b, hb, hover⟩)
      (fun limit hlimit => Nat.not_le.mp fun hle => hquota ⟨limit, hlimit, hle⟩) hfresh
      (List.mem_map.mpr ⟨c, hc, hcalendar⟩)
    have hres := congrArg Prod.fst (transaction_eq_ok.mpr hok)
    exact ⟨_, _, book_reply.mpr ⟨body, page, tz, s, owner, rfl, rfl, hvisitor, hshown,
      pickSlot_of_onGrid hgrid hstart, howner, hres, rfl⟩⟩

/-- A visitor's request, by its start. -/
theorem bookable_at_iff (inv : PagesInv db) (hfresh : fresh.NotIn db.tables) {visitor : BookBody}
    (hvisitor : validateVisitor C visitor = none) {start : ℤ} :
    Bookable C db fresh slug now { visitor with start := start } ↔
      ∃ page tz s, Shown C db slug visitor.durationMins page tz ∧
        OnGrid C visitor.durationMins now page tz (tz.todayIn start) s ∧ s.start = start ∧
        ¬EventInWay db page s ∧ ¬BookingInWay db page s ∧
        ¬QuotaUsed db page tz (tz.todayIn start) := by
  have hbody : validateVisitor C { visitor with start := start } = none := by
    rw [← hvisitor]
    rfl
  exact bookable_iff inv hfresh hbody

/-! ## Side by side -/

section Coincide

variable (C db slug duration now)

/-- On the days past the horizon no slot is left. -/
def HorizonClosed : Prop :=
  ∀ page tz date s, Shown C db slug duration page tz → OnGrid C duration now page tz date s →
    tz.todayIn now + maxHorizonDays < date →
      EventInWay db page s ∨ BookingInWay db page s ∨ QuotaUsed db page tz date

/-- Whatever booking of the owner is in the way of a slot, the list has its own reason to leave
the slot out. -/
def BookingsShown : Prop :=
  ∀ page tz date s, Shown C db slug duration page tz → OnGrid C duration now page tz date s →
    date ≤ tz.todayIn now + maxHorizonDays → BookingInWay db page s →
      EventInWay db page s ∨ PageBookingInWay db page tz date s ∨ QuotaUsed db page tz date

end Coincide

theorem Shown.unique {page' : SchedulingPage} {tz' : Zone}
    (h : Shown C db slug duration page tz) (h' : Shown C db slug duration page' tz') :
    page' = page ∧ tz' = tz := by
  obtain rfl : page = page' := Option.some.inj (h.found.symm.trans h'.found)
  exact ⟨rfl, Option.some.inj (h'.zone.symm.trans h.zone)⟩

/-- A slot is known by its start and its duration. -/
theorem OnGrid.eq {date' : ℤ} {s' : Slot} (h : OnGrid C duration now page tz date s)
    (h' : OnGrid C duration now page tz date' s') (hstart : s'.start = s.start) : s' = s := by
  obtain ⟨start, stop⟩ := s
  obtain ⟨start', stop'⟩ := s'
  obtain rfl : start' = start := hstart
  obtain rfl : stop' = stop := h'.stop_eq.trans h.stop_eq.symm
  rfl

/-- A booking of the page is one of the owner. -/
theorem PageBookingInWay.bookingInWay (inv : PagesInv db) (hpage : page ∈ db.tables.pages)
    (h : PageBookingInWay db page tz date s) : BookingInWay db page s := by
  obtain ⟨b, hb, hover⟩ := h
  obtain ⟨row, hrow, rfl⟩ := List.mem_map.mp hb
  obtain ⟨hmem, hrow⟩ := List.mem_filter.mp hrow
  obtain ⟨hid, hconfirmed, -⟩ := of_decide_eq_true hrow
  have howner := inv.booking hpage hmem hid
  exact ⟨row, List.mem_filter.mpr ⟨hmem, decide_eq_true ⟨howner, hconfirmed⟩⟩, hover⟩

/-- What coincides leaves nothing to book past the horizon. -/
theorem Coincide.horizonClosed (inv : PagesInv db) (hfresh : fresh.NotIn db.tables)
    {visitor : BookBody} (hvisitor : validateVisitor C visitor = none)
    (hdays : DaysHold C db slug visitor.durationMins now)
    (h : Coincide C db fresh slug now visitor) :
    HorizonClosed C db slug visitor.durationMins now := by
  intro page tz date s hshown hgrid hpast
  by_contra hfree
  rw [not_or, not_or] at hfree
  obtain ⟨hevent, hbooking, hquota⟩ := hfree
  have hday := (hdays page tz hshown date s hgrid).day
  have hbookable : Bookable C db fresh slug now { visitor with start := s.start } :=
    (bookable_at_iff inv hfresh hvisitor).mpr
      ⟨page, tz, s, hshown, hday.symm ▸ hgrid, rfl, hevent, hbooking, hday.symm ▸ hquota⟩
  obtain ⟨page', tz', date', s', hshown', hhorizon, hgrid', hstart, -⟩ :=
    (offered_iff hdays).mp ((h s.start).mpr hbookable)
  obtain ⟨rfl, rfl⟩ := hshown.unique hshown'
  have hday' := (hdays _ _ hshown' date' s' hgrid').day
  rw [hstart, hday] at hday'
  omega

/-- What coincides lists nothing that a booking of the owner bars. -/
theorem Coincide.bookingsShown (inv : PagesInv db) (hfresh : fresh.NotIn db.tables)
    {visitor : BookBody} (hvisitor : validateVisitor C visitor = none)
    (hdays : DaysHold C db slug visitor.durationMins now)
    (h : Coincide C db fresh slug now visitor) :
    BookingsShown C db slug visitor.durationMins now := by
  intro page tz date s hshown hgrid hhorizon hbooking
  by_contra hlisted
  rw [not_or, not_or] at hlisted
  obtain ⟨hevent, hpage, hquota⟩ := hlisted
  have hoffered : Offered C db fresh slug visitor.durationMins now s.start :=
    (offered_iff hdays).mpr
      ⟨page, tz, date, s, hshown, hhorizon, hgrid, rfl, hevent, hpage, hquota⟩
  obtain ⟨page', tz', s', hshown', hgrid', hstart, -, hfree, -⟩ :=
    (bookable_at_iff inv hfresh hvisitor).mp ((h s.start).mp hoffered)
  obtain ⟨rfl, rfl⟩ := hshown.unique hshown'
  exact hfree (hgrid.eq hgrid' hstart ▸ hbooking)

/-- Past a closed horizon, and with all bookings shown, the list is what can be booked. -/
theorem coincide_of_closed (inv : PagesInv db) (hfresh : fresh.NotIn db.tables)
    {visitor : BookBody} (hvisitor : validateVisitor C visitor = none)
    (hdays : DaysHold C db slug visitor.durationMins now)
    (hclosed : HorizonClosed C db slug visitor.durationMins now)
    (hshowing : BookingsShown C db slug visitor.durationMins now) :
    Coincide C db fresh slug now visitor := by
  intro start
  rw [offered_iff hdays, bookable_at_iff inv hfresh hvisitor]
  constructor
  · rintro ⟨page, tz, date, s, hshown, hhorizon, hgrid, rfl, hevent, hpage, hquota⟩
    have hday := (hdays page tz hshown date s hgrid).day
    refine ⟨page, tz, s, hshown, hday.symm ▸ hgrid, rfl, hevent, fun hbooking => ?_,
      hday.symm ▸ hquota⟩
    rcases hshowing page tz date s hshown hgrid hhorizon hbooking with h | h | h
    · exact hevent h
    · exact hpage h
    · exact hquota h
  · rintro ⟨page, tz, s, hshown, hgrid, hstart, hevent, hbooking, hquota⟩
    obtain rfl : s.start = start := hstart
    refine ⟨page, tz, _, s, hshown, Int.not_lt.mp fun hpast => ?_, hgrid, rfl, hevent,
      fun hpage => ?_, hquota⟩
    · rcases hclosed page tz _ s hshown hgrid hpast with h | h | h
      · exact hevent h
      · exact hbooking h
      · exact hquota h
    · exact hbooking (hpage.bookingInWay inv (List.mem_of_find?_eq_some hshown.found))

end Lemmas

/-! ## The result -/

/-- The tables after any requests of visitors and calls of owners, in any interleaving. -/
abbrev ScheduleDb.after (C : ScheduleCrates) (moves : List (Move ScheduleRequest ScheduleChoice)) :
    ScheduleDb :=
  (scheduleRun C moves).world

/-- **Offered and bookable.** On days whose date and midnights agree, the list and `book` say the
same exactly when nothing is left past the horizon and the list has its own reason for every slot
that a booking of the owner bars. -/
theorem coincide_iff (C : ScheduleCrates) (moves : List (Move ScheduleRequest ScheduleChoice))
    (fresh : BookingFresh) (slug : String) (now : ℤ) (visitor : BookBody)
    (hvisitor : validateVisitor C visitor = none)
    (hfresh : fresh.NotIn (ScheduleDb.after C moves).tables)
    (hdays : DaysHold C (ScheduleDb.after C moves) slug visitor.durationMins now) :
    Coincide C (ScheduleDb.after C moves) fresh slug now visitor ↔
      HorizonClosed C (ScheduleDb.after C moves) slug visitor.durationMins now ∧
        BookingsShown C (ScheduleDb.after C moves) slug visitor.durationMins now := by
  have inv : PagesInv (ScheduleDb.after C moves) := pagesInv_run C moves
  constructor
  · intro h
    exact ⟨h.horizonClosed inv hfresh hvisitor hdays, h.bookingsShown inv hfresh hvisitor hdays⟩
  · rintro ⟨hclosed, hshowing⟩
    exact coincide_of_closed inv hfresh hvisitor hdays hclosed hshowing

/-! ### A page without an end -/

/-- `YYYY-MM-DD` of a day since 1970-01-01, counted in eras of 400 years from 0000-03-01. -/
def isoDate (date : ℤ) : String :=
  let z := date + 719468
  let era := z / 146097
  let doe := z % 146097
  let yoe := (doe - doe / 1460 + doe / 36524 - doe / 146096) / 365
  let doy := doe - (365 * yoe + yoe / 4 - yoe / 100)
  let mp := (5 * doy + 2) / 153
  let day := doy - (153 * mp + 2) / 5 + 1
  let month := if mp < 10 then mp + 3 else mp - 9
  let year := yoe + era * 400 + (if month ≤ 2 then 1 else 0)
  pad 4 year ++ "-" ++ pad 2 month ++ "-" ++ pad 2 day
where
  /-- A number with leading zeros. -/
  pad (width : ℕ) (n : ℤ) : String :=
    let digits := toString n.toNat
    String.ofList (List.replicate (width - digits.length) '0') ++ digits

example : isoDate 0 = "1970-01-01" ∧ isoDate 20654 = "2026-07-20" := by decide +kernel

/-- A server that knows UTC. -/
def utcCrates : ScheduleCrates where
  locale := ⟨fun s => s = "UTC", fun c => 32 ≤ c.toNat ∧ c.toNat < 127⟩
  zone name := if name = "UTC" then some (.fixed 0) else none
  formatDate := isoDate
  parseDate text := (List.range 3000).map Int.ofNat |>.find? fun date => isoDate date = text
  isControl c := c.toNat < 32 ∨ c.toNat = 127
  isWhitespace c := c.isWhitespace

/-- Every zone of that server is regular. -/
theorem daysHold_utc (db : ScheduleDb) (slug : String) (duration : ℕ) (now : ℤ) :
    DaysHold utcCrates db slug duration now := by
  intro page tz hshown date s hgrid
  have hzone := hshown.zone
  simp only [utcCrates] at hzone
  split at hzone
  · obtain rfl := Option.some.inj hzone
    exact hgrid.dayHolds (Zone.regular_fixed 0)
  · cases hzone

/-- Alice's page, weekdays from nine to five, without an end. -/
def weekdays : NewSchedulingPage where
  slug := "meet-alice"
  title := "Meet with Alice"
  description := none
  calendarId := ⟨2⟩
  timezone := "UTC"
  availability := .defaultBusinessHours
  durationsMins := [30]
  bufferBeforeMins := 0
  bufferAfterMins := 0
  minNoticeMins := 0
  maxPerDay := none
  validFrom := none
  validUntil := none

/-- Alice sets up her page. -/
def openingMoves : List (Move ScheduleRequest ScheduleChoice) :=
  let c : ScheduleChoice := ⟨.ok, ⟨⟨0⟩, ⟨0⟩, "", 0⟩⟩
  [.start (.createAccount ⟨alice, "alice@example.com", none⟩), .call 0 c,
    .start (.store (.createCalendar .ok ⟨alice, "Personal", none, ⟨2⟩, 0⟩)), .call 1 c,
    .start (.store (.createSchedulingPage .ok alice weekdays ⟨3⟩ 0)), .call 2 c]

/-- Bob, who wants half an hour. -/
def bob : BookBody := ⟨0, 30, "Bob", "bob@remote.test", none⟩

theorem coincide_iff_openingMoves :
    Coincide utcCrates (ScheduleDb.after utcCrates openingMoves) ⟨⟨4⟩, ⟨5⟩, "t5", 0⟩ "meet-alice" 0
        bob ↔
      HorizonClosed utcCrates (ScheduleDb.after utcCrates openingMoves) "meet-alice" 30 0 ∧
        BookingsShown utcCrates (ScheduleDb.after utcCrates openingMoves) "meet-alice" 30 0 :=
  coincide_iff utcCrates openingMoves ⟨⟨4⟩, ⟨5⟩, "t5", 0⟩ "meet-alice" 0 bob (by decide +kernel)
    (by unfold BookingFresh.NotIn; decide +kernel) (daysHold_utc _ _ _ _)

/-- Tuesday, 3 March 1970, at nine: 61 days ahead. -/
def pastHorizon : Slot := ⟨61 * 86400 + 9 * 3600, 61 * 86400 + 9 * 3600 + 1800⟩

/-- **Past the horizon.** The slot is not on any list, and `book` takes it. -/
theorem not_coincide_pastHorizon :
    ¬Coincide utcCrates (ScheduleDb.after utcCrates openingMoves) ⟨⟨4⟩, ⟨5⟩, "t5", 0⟩ "meet-alice"
      0 bob := by
  intro h
  have hclosed := h.horizonClosed (pagesInv_run utcCrates openingMoves)
    (by unfold BookingFresh.NotIn; decide +kernel) (by decide +kernel) (daysHold_utc _ _ _ _)
  have hfound : (ScheduleDb.after utcCrates openingMoves).pageBySlug "meet-alice" =
      some (weekdays.row ⟨3⟩ alice 0) := by decide +kernel
  have hshown : Shown utcCrates (ScheduleDb.after utcCrates openingMoves) "meet-alice" 30
      (weekdays.row ⟨3⟩ alice 0) (.fixed 0) := ⟨hfound, rfl, rfl, List.mem_singleton.mpr rfl⟩
  have hgrid : OnGrid utcCrates 30 0 (weekdays.row ⟨3⟩ alice 0) (.fixed 0) 61 pastHorizon := by
    unfold OnGrid
    decide +kernel
  have hnone : (ScheduleDb.after utcCrates openingMoves).tables.events = [] ∧
      (ScheduleDb.after utcCrates openingMoves).tables.bookings = [] := by decide +kernel
  rcases hclosed _ _ 61 pastHorizon hshown hgrid (by decide) with
    ⟨e, he, -⟩ | ⟨b, hb, -⟩ | ⟨limit, hlimit, -⟩
  · have hmem := List.mem_of_mem_filter he
    rw [hnone.1] at hmem
    cases hmem
  · have hmem := List.mem_of_mem_filter hb
    rw [hnone.2] at hmem
    cases hmem
  · cases hlimit

end Owney.Schedule
