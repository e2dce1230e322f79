import Owney.Lib.Gregorian
import Owney.ScheduleOffers

/-!
# The dates a page is accepted with

`validate_common` reads the dates of a page with a parser of its own (`parse_date`), the slot
computation with `chrono`: it drops a bound that `chrono` does not read, and looks overrides up
by the text that `chrono` prints for a date. A page's dates are honoured if both agree on them.

* `Chrono` — how `chrono` reads and prints dates.
* `Honoured` — every slot and every booking is between the bounds, every override counts.
* `honoured_iff` — the pages with a set of dates are honoured exactly if the dates are plain.
-/

namespace Owney.Schedule

open Programs Programs.Prog Intervals Gregorian

/-! ## What `chrono` does -/

/-- `%Y`: at least four digits, with a sign unless there are just four. -/
def yearText (y : ℤ) : String :=
  if 0 ≤ y ∧ y ≤ 9999 then isoDate.pad 4 y
  else (if y < 0 then "-" else "+") ++ isoDate.pad 4 y.natAbs

/-- `%Y-%m-%d`. -/
def ymdText : Ymd → String
  | (y, m, d) => yearText y ++ "-" ++ isoDate.pad 2 m ++ "-" ++ isoDate.pad 2 d

/-- The day of a date, if there is such a day. -/
def dayOf (t : Ymd) : Option ℤ := if Valid t then some (dayNumber t) else none

/-- `chrono` prints a date with `%Y-%m-%d`, and reads a text of this form if there is such a day;
only a year may have a sign. The names of the timezones have UTC among them. -/
structure Chrono (C : ScheduleCrates) : Prop where
  format : ∀ date, C.formatDate date = ymdText (civil date)
  parse : ∀ text t, parseDate text = some t →
    C.parseDate text = if '+' ∈ text.toList.drop 5 then none else dayOf t
  utc : C.zone "UTC" = some (.fixed 0) ∧ C.locale.isTimezone "UTC" = true

/-! ## Honoured dates -/

variable (C : ScheduleCrates) (page : SchedulingPage)

/-- A page as `validate_common` lets it through; the overrides are a map. -/
structure PageChecked : Prop where
  common : validateCommon C.locale page.timezone page.availability page.durationsMins
    page.bufferBeforeMins page.bufferAfterMins page.minNoticeMins page.validFrom
    page.validUntil = .ok ()
  keys : (page.availability.overrides.map (·.1)).Nodup

/-- A date between the bounds of a page. -/
structure Within (date : ℤ) : Prop where
  first : ∀ text ∈ page.validFrom, ∀ t, parseDate text = some t → ¬Earlier (civil date) t
  last : ∀ text ∈ page.validUntil, ∀ t, parseDate text = some t → ¬Earlier t (civil date)

/-- A wall-clock time of a window is not moved across a bound when its minute does not exist. -/
def SlotsStay : Prop :=
  ∀ tz ∈ C.zone page.timezone, ∀ date, Within page date →
    ∀ window ∈ windowsForDate C.locale C.formatDate page.availability date,
      ∀ wall, window.1 ≤ wall → wall < window.2 → Within page (tz.todayIn (tz.minute date wall))

/-- Whatever the calls of a handler that has found the page return: the slots it lists and the
booking it makes are between the page's bounds, and each override is what counts on its date. -/
structure Honoured : Prop where
  offers : ∀ (exec : (o : ScheduleOp) → ScheduleDb → o.Ret × ScheduleDb) (db : ScheduleDb)
    (slug : String) (query : SlotsQuery) (timezone : String) (duration : ℕ) (slots : List Slot),
    (exec (.pageBySlug slug) db).1 = .ok (some page) →
      ((slotsJson C slug query).reply.alone exec db).1 = .slots timezone duration slots →
        ∀ s ∈ slots, ∀ tz ∈ C.zone page.timezone, Within page (tz.todayIn s.start)
  bookings : ∀ (exec : (o : ScheduleOp) → ScheduleDb → o.Ret × ScheduleDb) (db : ScheduleDb)
    (slug : String) (post : BookPost) (body : BookBody) (booking : Booking) (timezone : String),
    (exec (.pageBySlug slug) db).1 = .ok (some page) → post.body = .ok body →
      ((book C slug post).reply.alone exec db).1 = .booked booking timezone →
        ∀ tz ∈ C.zone page.timezone, Within page (tz.todayIn body.start)
  overrides : ∀ key windows, (key, windows) ∈ page.availability.overrides →
    ∃ date, parseDate key = some (civil date) ∧
      windowsForDate C.locale C.formatDate page.availability date =
        windows.filterMap fun w => (w.parseMinutes C.locale).toOption

/-- Pages with the same dates: bounds, and keys of overrides. -/
structure SameDates (page' : SchedulingPage) : Prop where
  validFrom : page'.validFrom = page.validFrom
  validUntil : page'.validUntil = page.validUntil
  keys : page'.availability.overrides.map (·.1) = page.availability.overrides.map (·.1)

/-- There is such a day, and its month and day have no sign. -/
def PlainDate (text : String) : Prop :=
  (∃ t, parseDate text = some t ∧ Valid t) ∧ '+' ∉ text.toList.drop 5

/-- The text is the one that is printed for the day it names. -/
def PrintedDate (text : String) : Prop :=
  ∃ date, parseDate text = some (civil date) ∧ ymdText (civil date) = text

/-- The bounds are plain dates, and the keys of the overrides are written as they are printed. -/
structure PlainDates : Prop where
  first : ∀ text ∈ page.validFrom, PlainDate text
  last : ∀ text ∈ page.validUntil, PlainDate text
  keys : ∀ key ∈ page.availability.overrides.map (·.1), PrintedDate key


/-! ## What passes the checks -/

section Checks

theorem check_bind {α : Type} {c : Check α} {β : Type} {f : α → Check β} {b : β} :
    (c >>= f) = .ok b ↔ ∃ a, c = .ok a ∧ f a = .ok b := by
  cases c <;> simp [bind, Except.bind]

/-- A loop of checks. -/
theorem forIn_check {α : Type} {xs : List α} {f : α → Check Unit} {u : PUnit} :
    (forIn xs PUnit.unit fun x _ => do
      f x
      pure (ForInStep.yield PUnit.unit) : Check PUnit) = .ok u ↔ ∀ x ∈ xs, f x = .ok () := by
  induction xs with
  | nil => simp [pure, Except.pure]
  | cons x xs ih =>
    rw [List.forIn_cons, List.forall_mem_cons, ← ih]
    cases h : f x with
    | error e => simp [bind, Except.bind]
    | ok u => simp [bind, Except.bind, pure, Except.pure]

variable {L : Locale}

theorem validate_eq_ok {a : Availability} {u : Unit} : a.validate L = .ok u ↔
    a.version = 1 ∧ (∀ x ∈ a.weekly, x.1 ∈ weekdayKeys) ∧
      (∀ x ∈ a.overrides, (parseDate x.1).isSome = true) ∧
      ∀ x ∈ a.weekly ++ a.overrides, validateWindows L 0 x.2 = .ok () := by
  simp only [Availability.validate, check_bind, check_eq_ok, forIn_check]
  simp [pure, Except.pure]

theorem validateCommon_eq_ok {timezone : String} {availability : Availability}
    {durations : List ℕ} {bufferBefore bufferAfter minNotice : ℕ}
    {validFrom validUntil : Option String} {u : Unit} :
    validateCommon L timezone availability durations bufferBefore bufferAfter minNotice validFrom
        validUntil = .ok u ↔
      L.isTimezone timezone = true ∧ availability.validate L = .ok () ∧
        (durations ≠ [] ∧ ∀ d ∈ durations, 5 ≤ d ∧ d ≤ 480) ∧
        (bufferBefore ≤ 24 * 60 ∧ bufferAfter ≤ 24 * 60 ∧ minNotice ≤ 90 * 24 * 60) ∧
        ((∀ text ∈ validFrom, (parseDate text).isSome = true) ∧
          ∀ text ∈ validUntil, (parseDate text).isSome = true) ∧
        ∀ text ∈ validFrom, ∀ text' ∈ validUntil, ¬text' < text := by
  simp only [validateCommon, check_bind, check_eq_ok, forIn_check]
  cases validFrom <;> cases validUntil <;> simp [Unique.exists_iff]

end Checks

/-! ## Plain dates are honoured -/

section Plain

variable {C : ScheduleCrates} {page : SchedulingPage} {tz : Zone} {duration : ℕ}
  {maxPerDay : Option ℕ} {now date : ℤ}

/-- A map has what is listed in it. -/
theorem lookup_of_mem {α β : Type} [BEq α] [LawfulBEq α] {xs : List (α × β)}
    (h : (xs.map (·.1)).Nodup) {a : α} {b : β} (hmem : (a, b) ∈ xs) : xs.lookup a = some b := by
  induction xs with
  | nil => cases hmem
  | cons x xs ih =>
    obtain ⟨hx, hxs⟩ := List.nodup_cons.mp h
    rcases List.mem_cons.mp hmem with rfl | hmem
    · exact List.lookup_cons_self
    · have hne : (a == x.1) = false :=
        beq_eq_false_iff_ne.mpr fun heq => hx (List.mem_map.mpr ⟨_, hmem, heq⟩)
      rw [List.lookup_cons, hne]
      exact ih hxs hmem

/-- Both parsers read a plain date. -/
theorem Chrono.parse_plain (hC : Chrono C) {text : String} (h : PlainDate text) : ∃ t, Valid t ∧
    parseDate text = some t ∧ C.parseDate text = some (dayNumber t) := by
  obtain ⟨⟨t, ht, hvalid⟩, hplain⟩ := h
  refine ⟨t, hvalid, ht, ?_⟩
  rw [hC.parse text t ht, if_neg hplain, dayOf, if_pos hvalid]

theorem PlainDates.within (h : PlainDates page) (hC : Chrono C)
    (hdate : ¬(slotParams C page tz duration maxPerDay now).Invalid date) : Within page date := by
  rw [SlotParams.Invalid, not_or] at hdate
  refine ⟨fun text htext t ht => ?_, fun text htext t ht => ?_⟩
  · obtain ⟨t', hvalid, ht', hread⟩ := hC.parse_plain (h.first text htext)
    obtain rfl := Option.some.inj (ht.symm.trans ht')
    rw [not_civil_earlier hvalid]
    by_contra hlt
    exact hdate.1 ⟨_, Option.mem_bind_iff.mpr ⟨text, htext, hread⟩, not_le.mp hlt⟩
  · obtain ⟨t', hvalid, ht', hread⟩ := hC.parse_plain (h.last text htext)
    obtain rfl := Option.some.inj (ht.symm.trans ht')
    rw [not_earlier_civil hvalid]
    by_contra hlt
    exact hdate.2 ⟨_, Option.mem_bind_iff.mpr ⟨text, htext, hread⟩, not_le.mp hlt⟩

/-- A slot starts at a minute of one of its date's windows. -/
theorem OnGrid.minute {s : Slot} (h : OnGrid C duration now page tz date s) :
    ¬(slotParams C page tz duration none now).Invalid date ∧
      ∃ window ∈ windowsForDate C.locale C.formatDate page.availability date,
        ∃ wall, window.1 ≤ wall ∧ wall < window.2 ∧ s.start = tz.minute date wall := by
  obtain ⟨hvalid, window, hwindow, hs⟩ := SlotParams.mem_grid.mp h
  simp only [SlotParams.windowSlots, List.mem_filter, List.mem_map] at hs
  obtain ⟨⟨start, hstart, rfl⟩, -⟩ := hs
  obtain ⟨wall, hwall, rfl⟩ := SlotParams.mem_slotStarts hstart
  obtain ⟨hle, hfits⟩ := SlotParams.mem_walls hwall
  have hdur : duration ≠ 0 := by
    rintro rfl
    simp [walls, slotParams] at hwall
  refine ⟨hvalid, window, hwindow, wall, hle, ?_, rfl⟩
  simp only [slotParams] at hfits
  omega

section Replies

variable {exec : (o : ScheduleOp) → ScheduleDb → o.Ret × ScheduleDb} {db : ScheduleDb}
  {slug timezone : String}

theorem alone_found {p : SchedulingPage} {db' : ScheduleDb}
    (hpage : (exec (.pageBySlug slug) db).1 = .ok (some page))
    (h : (activePage slug).run.alone exec db = (.ok p, db')) : p = page := by
  simp only [activePage, alone_bind_eq_ok, alone_valueOr] at h
  obtain ⟨found, db₁, hfound, hp, -⟩ := h
  rw [alone_fetch.mp hfound] at hpage
  obtain rfl := Except.ok.inj hpage
  exact (Option.some.inj (Option.filter_eq_some_iff.mp hp).1).symm

/-- **What is listed** is what is computed for the page, whatever the calls return. -/
theorem of_slots_reply {query : SlotsQuery} {slots : List Slot}
    (hpage : (exec (.pageBySlug slug) db).1 = .ok (some page))
    (h : ((slotsJson C slug query).reply.alone exec db).1 = .slots timezone duration slots) :
    ∃ tz ∈ C.zone page.timezone, ∃ first last busy bookedPerDay,
      slots = (slotParams C page tz duration page.maxPerDay query.now).computeSlots C.locale
        C.formatDate first last busy bookedPerDay := by
  rw [reply_eq (by rintro _ ⟨⟩)] at h
  simp only [slotsJson, alone_bind_eq_ok, alone_demand, pageTz, queryDate, alone_valueOr,
    slotsForRange, alone_return] at h
  obtain ⟨_, _, _, ⟨-, rfl⟩, p, _, hp, tz, _, ⟨htz, rfl⟩, _, _, ⟨-, rfl⟩, first, _, ⟨-, rfl⟩,
    last, _, ⟨-, rfl⟩, _, _, ⟨-, rfl⟩, _, _, ⟨-, rfl⟩, slots', _, hslots, hreply, -⟩ := h
  obtain rfl := alone_found hpage hp
  obtain ⟨events, _, -, bookings, _, -, rfl, -⟩ := hslots
  cases hreply
  exact ⟨tz, htz, first, last, _, _, rfl⟩

/-- **What is booked** is on the grid of its date. -/
theorem of_book_reply {post : BookPost} {body : BookBody} {booking : Booking}
    (hpage : (exec (.pageBySlug slug) db).1 = .ok (some page)) (hbody : post.body = .ok body)
    (h : ((book C slug post).reply.alone exec db).1 = .booked booking timezone) :
    ∃ tz ∈ C.zone page.timezone, ∃ s,
      OnGrid C body.durationMins post.now page tz (tz.todayIn body.start) s := by
  rw [reply_eq (by rintro _ ⟨⟩)] at h
  simp only [book, alone_bind_eq_ok, alone_demand, pageTz, alone_valueOr] at h
  obtain ⟨_, _, _, ⟨-, rfl⟩, body', _, hread, _, _, ⟨-, rfl⟩, p, _, hp, tz, _, ⟨htz, rfl⟩,
    _, _, ⟨-, rfl⟩, s, _, ⟨hpick, rfl⟩, -⟩ := h
  obtain ⟨hbody', rfl⟩ := alone_body.mp hread
  obtain rfl := Except.ok.inj (hbody.symm.trans hbody')
  obtain rfl := alone_found hpage hp
  exact ⟨tz, htz, s, (pickSlot_eq_some hpick).1⟩

end Replies

/-- **Pages with plain dates** are honoured. -/
theorem PlainDates.honoured (h : PlainDates page) (hC : Chrono C) (hpage : PageChecked C page)
    (hstay : SlotsStay C page) : Honoured C page where
  offers exec db slug query timezone duration slots hfound hreply s hs tz htz := by
    obtain ⟨tz', htz', first, last, busy, bookedPerDay, rfl⟩ := of_slots_reply hfound hreply
    obtain rfl := Option.some.inj (htz.symm.trans htz')
    obtain ⟨date, -, -, hgrid, -⟩ := SlotParams.mem_computeSlots.mp hs
    obtain ⟨hvalid, window, hwindow, wall, hle, hlt, hstart⟩ := OnGrid.minute hgrid
    rw [hstart]
    exact hstay tz htz date (h.within hC hvalid) window hwindow wall hle hlt
  bookings exec db slug post body booking timezone hfound hbody hreply tz htz := by
    obtain ⟨tz', htz', s, hgrid⟩ := of_book_reply hfound hbody hreply
    obtain rfl := Option.some.inj (htz.symm.trans htz')
    exact h.within hC hgrid.minute.1
  overrides key windows hmem := by
    obtain ⟨date, hparse, htext⟩ := h.keys key (List.mem_map.mpr ⟨_, hmem, rfl⟩)
    refine ⟨date, hparse, ?_⟩
    have hlookup : page.availability.overrides.lookup (C.formatDate date) = some windows := by
      rw [hC.format, htext]
      exact lookup_of_mem hpage.keys hmem
    rw [windowsForDate, hlookup]
    rfl

end Plain

/-! ## What other dates do -/

/-- The whole day. -/
def allDay : List TimeWindow := [⟨"00:00", "23:59"⟩]

/-- The page with its dates kept, in UTC and open all day, for meetings of five minutes; the
overrides have the windows they are given. -/
def openPage (page : SchedulingPage) (windows : String → List TimeWindow) : SchedulingPage :=
  { page with
    timezone := "UTC"
    availability := ⟨1, weekdayKeys.map fun day => (day, allDay),
      page.availability.overrides.map fun o => (o.1, windows o.1)⟩
    durationsMins := [5]
    bufferBeforeMins := 0
    bufferAfterMins := 0
    minNoticeMins := 0
    maxPerDay := none
    status := .active }

/-- The tables with this page only. -/
def soleDb (page : SchedulingPage) : ScheduleDb := ⟨[], { SchedulingDb.empty with pages := [page] }⟩

section Open

variable {C : ScheduleCrates} {page : SchedulingPage} {windows : String → List TimeWindow} {z : ℤ}

theorem openPage_sameDates : SameDates page (openPage page windows) where
  validFrom := rfl
  validUntil := rfl
  keys := by simp [openPage, Function.comp_def]

theorem openPage_checked (hC : Chrono C) (h : PageChecked C page)
    (hwindows : ∀ key, validateWindows C.locale 0 (windows key) = .ok ()) :
    PageChecked C (openPage page windows) := by
  obtain ⟨-, havailability, -, -, hbounds, horder⟩ := validateCommon_eq_ok.mp h.common
  obtain ⟨-, -, hdates, -⟩ := validate_eq_ok.mp havailability
  refine ⟨validateCommon_eq_ok.mpr ⟨hC.utc.2, validate_eq_ok.mpr ⟨rfl, ?_, ?_, ?_⟩,
    ⟨by simp [openPage], by simp [openPage]⟩,
    ⟨by simp [openPage], by simp [openPage], by simp [openPage]⟩, hbounds, horder⟩, ?_⟩
  · simp [openPage]
  · simp only [openPage, List.forall_mem_map]
    exact hdates
  · intro x hx
    rcases List.mem_append.mp hx with hx | hx
    · obtain ⟨day, -, rfl⟩ := List.mem_map.mp hx
      rfl
    · obtain ⟨o, -, rfl⟩ := List.mem_map.mp hx
      exact hwindows o.1
  · rw [openPage_sameDates.keys]
    exact h.keys

variable (windows) in
/-- In UTC no minute is moved. -/
theorem openPage_stays (hC : Chrono C) : SlotsStay C (openPage page windows) := by
  intro tz htz date hdate window hwindow wall _ hlt
  obtain rfl := Option.some.inj (hC.utc.1.symm.trans htz)
  have hwall : wall < 1440 := hlt.trans (SlotParams.window_lt hwindow)
  rw [(Zone.regular_fixed 0).minute_day date wall hwall]
  exact hdate

/-- The windows of a date whose text is no key, or the key of an override that is open all day. -/
theorem windowsForDate_openPage (h : windows (C.formatDate z) = allDay) :
    windowsForDate C.locale C.formatDate (openPage page windows).availability z = [(0, 1439)] := by
  have hoverride : ∀ os : List (String × List TimeWindow), ∀ key,
      (os.map fun o => (o.1, windows o.1)).lookup key = none ∨
        (os.map fun o => (o.1, windows o.1)).lookup key = some (windows key) := by
    intro os key
    induction os with
    | nil => exact .inl rfl
    | cons o os ih =>
      rw [List.map_cons, List.lookup_cons]
      cases hkey : key == o.1 with
      | true => exact .inr (by rw [beq_iff_eq.mp hkey])
      | false => exact ih
  have hweekly : (weekdayKeys.map fun day => (day, allDay)).lookup (weekdayKey z) =
      some allDay := by
    have hlt : ((z + 3) % 7).toNat < weekdayKeys.length := by
      simp only [weekdayKeys, List.length_cons, List.length_nil]
      omega
    refine lookup_of_mem (by decide) (List.mem_map.mpr ⟨weekdayKey z, ?_, rfl⟩)
    rw [weekdayKey, List.getD_eq_getElem?_getD, List.getElem?_eq_getElem hlt]
    exact List.getElem_mem hlt
  have hday : allDay.filterMap (fun w => (w.parseMinutes C.locale).toOption) = [(0, 1439)] := rfl
  rw [windowsForDate]
  rcases hoverride page.availability.overrides (C.formatDate z) with hkey | hkey
  · simp only [openPage, hkey, hweekly, Option.none_or, Option.getD_some]
    exact hday
  · simp only [openPage, hkey, h, Option.some_or, Option.getD_some]
    exact hday

/-- **The first slot of a day** is offered, on every day that the bounds are not read to
exclude. -/
theorem openPage_offered (hC : Chrono C)
    (h : Honoured C (openPage page fun _ => allDay))
    (hvalid : ¬(slotParams C page (.fixed 0) 5 none 0).Invalid z) : Within page z := by
  -- at the first second of the day, with nothing else in the tables
  have hminute : ∀ mins : ℕ, (Zone.fixed 0).minute z mins = 86400 * z + 60 * mins := fun mins => by
    simp [Zone.minute, Zone.resolveLocal, Zone.fixed, LocalResult.earliest]
  have hday : (Zone.fixed 0).todayIn (86400 * z) = z := by
    simp only [Zone.todayIn, Zone.fixed]
    omega
  have hgrid : OnGrid C 5 (86400 * z) (openPage page fun _ => allDay) (.fixed 0) z
      ⟨86400 * z, 86400 * z + 300⟩ := by
    refine SlotParams.mem_grid.mpr ⟨hvalid, (0, 1439), ?_, ?_⟩
    · rw [slotParams, windowsForDate_openPage rfl]
      exact List.mem_singleton_self _
    · simp only [SlotParams.windowSlots, List.mem_filter, List.mem_map]
      refine ⟨⟨86400 * z, ?_, rfl⟩, decide_eq_true ⟨?_, ?_, List.forall_mem_nil _⟩⟩
      · rw [slotParams, walls_eq (Nat.succ_pos 4), if_pos (show 0 + 5 ≤ 1439 by decide), slotStarts,
          if_neg (Option.some_ne_none _).symm, hminute]
        simp
      · simp only [slotParams, hminute]
        omega
      · simp [slotParams, openPage]
  have hfound : (soleDb (openPage page fun _ => allDay)).pageBySlug page.slug =
      some (openPage page fun _ => allDay) :=
    List.find?_cons_of_pos (decide_eq_true rfl)
  have hrange : ¬(z < z ∨ maxRangeDays ≤ z - z) := by
    simp [maxRangeDays]
  have hhorizon : ¬(Zone.fixed 0).todayIn (86400 * z) + maxHorizonDays < z := by
    rw [hday, maxHorizonDays]
    omega
  have hreply : reply C (soleDb (openPage page fun _ => allDay)) ⟨⟨0⟩, ⟨0⟩, "", 0⟩
      (.slots page.slug ⟨true, 86400 * z, some (some z), some (some z), some 5⟩) =
        .slots "UTC" 5 (rangeSlots C (soleDb (openPage page fun _ => allDay)) 5 (86400 * z)
          (openPage page fun _ => allDay) (.fixed 0) z z) :=
    slots_reply.mpr ⟨openPage page fun _ => allDay, .fixed 0, z, z, rfl,
      ⟨hfound, rfl, hC.utc.1, List.mem_singleton_self 5⟩, rfl, rfl, rfl, hrange, hhorizon, rfl,
      rfl⟩
  have hoffer := h.offers _ _ _ _ _ _ _ (congrArg Except.ok hfound) hreply
    ⟨86400 * z, 86400 * z + 300⟩ ?_ _ hC.utc.1
  · rw [hday] at hoffer
    exact ⟨hoffer.first, hoffer.last⟩
  · refine mem_rangeSlots.mpr ⟨z, ⟨le_rfl, le_rfl⟩, ?_, hgrid, ?_⟩
    · rintro ⟨limit, hlimit, -⟩
      cases hlimit
    · intro b hb
      simp [ScheduleDb.eventsOverlapping, ScheduleDb.confirmedBookings, SchedulingDb.eventsOf,
        SchedulingDb.empty, soleDb] at hb

/-- A date that is not plain is no bound. -/
theorem Chrono.parse_of_not_plain (hC : Chrono C) {text : String} {t : Ymd}
    (ht : parseDate text = some t) (h : ¬PlainDate text) : C.parseDate text = none := by
  rw [hC.parse text t ht]
  split
  · rfl
  · rename_i hplain
    rw [dayOf, if_neg fun hvalid => h ⟨⟨t, ht, hvalid⟩, hplain⟩]

/-- **Pages that are honoured** have plain dates, if all pages with these dates are. -/
theorem plainDates_of_honoured (hC : Chrono C) (hpage : PageChecked C page)
    (h : ∀ page', PageChecked C page' → SameDates page page' → SlotsStay C page' →
      Honoured C page') : PlainDates page := by
  obtain ⟨-, -, -, -, ⟨hfirst, hlast⟩, -⟩ := validateCommon_eq_ok.mp hpage.common
  have hopen := h _ (openPage_checked hC hpage fun _ => rfl) openPage_sameDates
    (openPage_stays (fun _ => allDay) hC)
  refine ⟨fun text htext => ?_, fun text htext => ?_, fun key hkey => ?_⟩
  · by_contra hplain
    obtain ⟨t, ht⟩ := Option.isSome_iff_exists.mp (hfirst text htext)
    have hnone := hC.parse_of_not_plain ht hplain
    obtain ⟨z, hz, hearlier⟩ := exists_earlier t ((page.validUntil.bind C.parseDate).getD 0)
    refine (openPage_offered hC hopen ?_).first text htext t ht hearlier
    rintro (⟨v, hv, -⟩ | ⟨v, hv, hlt⟩)
    · obtain ⟨text', htext', hv⟩ := Option.mem_bind_iff.mp hv
      obtain rfl := Option.some.inj (htext.symm.trans htext')
      exact absurd (hnone.symm.trans hv) nofun
    · rw [show page.validUntil.bind C.parseDate = some v from hv] at hz
      exact absurd hlt (not_lt.mpr hz)
  · by_contra hplain
    obtain ⟨t, ht⟩ := Option.isSome_iff_exists.mp (hlast text htext)
    have hnone := hC.parse_of_not_plain ht hplain
    obtain ⟨z, hz, hlater⟩ := exists_later t ((page.validFrom.bind C.parseDate).getD 0)
    refine (openPage_offered hC hopen ?_).last text htext t ht hlater
    rintro (⟨v, hv, hlt⟩ | ⟨v, hv, -⟩)
    · rw [show page.validFrom.bind C.parseDate = some v from hv] at hz
      exact absurd hlt (not_lt.mpr hz)
    · obtain ⟨text', htext', hv⟩ := Option.mem_bind_iff.mp hv
      obtain rfl := Option.some.inj (htext.symm.trans htext')
      exact absurd (hnone.symm.trans hv) nofun
  · -- one minute for this key, and the whole day for every other
    let windows : String → List TimeWindow := fun k =>
      if k = key then [⟨"00:01", "00:02"⟩] else allDay
    have hwindows : ∀ k, validateWindows C.locale 0 (windows k) = .ok () := by
      intro k
      simp only [windows]
      split <;> rfl
    have hhonoured := h _ (openPage_checked hC hpage hwindows) openPage_sameDates
      (openPage_stays windows hC)
    obtain ⟨o, ho, rfl⟩ := List.mem_map.mp hkey
    obtain ⟨date, hparse, hwindow⟩ := hhonoured.overrides o.1 (windows o.1)
      (List.mem_map.mpr ⟨o, ho, rfl⟩)
    refine ⟨date, hparse, ?_⟩
    rw [← hC.format]
    by_contra hne
    rw [windowsForDate_openPage (if_neg hne),
      show windows o.1 = [⟨"00:01", "00:02"⟩] from if_pos rfl] at hwindow
    have hone : [(0, 1439)] = [(1, 2)] := hwindow
    exact absurd hone (by decide)

end Open

/-- **Accepted dates are honoured**, on every page that has them, exactly if they are plain. -/
theorem honoured_iff {C : ScheduleCrates} (hC : Chrono C) {page : SchedulingPage}
    (hpage : PageChecked C page) :
    (∀ page', PageChecked C page' → SameDates page page' → SlotsStay C page' →
      Honoured C page') ↔ PlainDates page := by
  refine ⟨plainDates_of_honoured hC hpage, fun h page' hpage' hsame hstay => ?_⟩
  have h' : PlainDates page' := by
    refine ⟨?_, ?_, ?_⟩
    · rw [hsame.validFrom]
      exact h.first
    · rw [hsame.validUntil]
      exact h.last
    · rw [hsame.keys]
      exact h.keys
  exact h'.honoured hC hpage' hstay
/-! ## Dates that are stored -/

section Stored

variable {C : ScheduleCrates} {io : Io} {db db' : SchedulingDb} {accountId : AccountId}
  {page : SchedulingPage} {now : ℤ}

end Stored

/-! ## A date that is none -/

/-- A server whose dates are read and printed as `chrono` does. -/
def calendarCrates : ScheduleCrates :=
  { utcCrates with
    formatDate := fun date => ymdText (civil date)
    parseDate := fun text =>
      if '+' ∈ text.toList.drop 5 then none else (parseDate text).bind dayOf }

theorem chrono_calendarCrates : Chrono calendarCrates where
  format _ := rfl
  parse text t ht := by
    simp [calendarCrates, ht]
  utc := ⟨rfl, by decide⟩

/-- A page for July 2026, with an exception on the 20th. -/
def july : SchedulingPage :=
  { weekdays.row ⟨3⟩ alice 0 with
    availability := ⟨1, [], [("2026-07-20", [])]⟩
    validFrom := some "2026-07-01"
    validUntil := some "2026-07-31" }

theorem plainDates_july : PlainDates july where
  first := by
    rintro _ ⟨⟩
    exact ⟨⟨(2026, 7, 1), by decide +kernel, by decide⟩, by decide⟩
  last := by
    rintro _ ⟨⟩
    exact ⟨⟨(2026, 7, 31), by decide +kernel, by decide⟩, by decide⟩
  keys := by
    intro key hkey
    obtain rfl := List.mem_singleton.mp hkey
    exact ⟨20654, by decide +kernel, by decide +kernel⟩

theorem honoured_july : Honoured calendarCrates (openPage july fun _ => allDay) :=
  (honoured_iff chrono_calendarCrates ⟨rfl, by decide⟩).mpr plainDates_july _
    (openPage_checked chrono_calendarCrates ⟨rfl, by decide⟩ fun _ => rfl) openPage_sameDates
    (openPage_stays _ chrono_calendarCrates)

/-- A page that is open all day and is to end with February, by a date that is none. -/
def february : SchedulingPage :=
  openPage { weekdays.row ⟨3⟩ alice 0 with validUntil := some "2026-02-31" } fun _ => allDay

/-- **It does not end**: there are slots in March. -/
theorem not_honoured_february : PageChecked calendarCrates february ∧
    SlotsStay calendarCrates february ∧ ¬Honoured calendarCrates february := by
  refine ⟨openPage_checked chrono_calendarCrates ⟨rfl, by decide⟩ fun _ => rfl,
    openPage_stays _ chrono_calendarCrates, fun h => ?_⟩
  have hmarch := openPage_offered chrono_calendarCrates (z := 20517) h (by decide +kernel)
  exact hmarch.last "2026-02-31" rfl (2026, 2, 31) (by decide +kernel) (by decide +kernel)

end Owney.Schedule
