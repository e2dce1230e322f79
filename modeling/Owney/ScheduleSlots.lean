import Owney.Lib.Intervals
import Owney.SchedulingPages

/-!
# Slots

A page's availability windows, expanded into slots for a range of dates
(`owney-api/src/schedule/slots.rs`).

Instants are unix seconds. A date is the number of days since 1970-01-01, and a wall-clock
time the number of seconds on the clock since then, so that the day of a wall-clock time is a
division. A timezone is known by two readings: the clock at an instant, and the instants that
show a given time.

* `resolveLocal` — the instant of a wall-clock time, with the rules for gaps and overlaps.
* `computeSlots` — the slots of a range of dates; `mem_computeSlots` says which they are.
* `Zone.Regular` — every date's wall-clock times fall between that date's two midnights.
-/

namespace Owney.Schedule

open Intervals

/-! ## Timezones -/

/-- `chrono::LocalResult`: the instants at which a clock shows a given time. -/
inductive LocalResult where
  | none
  | single (t : ℤ)
  | ambiguous (earliest latest : ℤ)
  deriving DecidableEq, Repr

/-- The first of the instants. -/
def LocalResult.earliest : LocalResult → Option ℤ
  | .none => Option.none
  | .single t => some t
  | .ambiguous t _ => some t

/-- A timezone of `chrono_tz`. -/
structure Zone where
  /-- the wall clock at an instant -/
  localOf : ℤ → ℤ
  /-- `from_local_datetime` -/
  fromLocal : ℤ → LocalResult
  /-- every instant it names shows the time asked for -/
  shows : ∀ w t, (fromLocal w).earliest = some t → localOf t = w
  /-- a time it names no instant for is never shown -/
  skipped : ∀ w, fromLocal w = .none → ∀ t, localOf t ≠ w

namespace Zone

/-- The date at an instant (`today_in`). -/
def todayIn (tz : Zone) (now : ℤ) : ℤ := tz.localOf now / 86400

/-- `resolve_local`: in a gap the clock is moved on in steps of 15 minutes. -/
def resolveLocal (tz : Zone) (w : ℤ) : ℤ :=
  match (tz.fromLocal w).earliest with
  | some t => t
  | none =>
    let probe := fun n : ℕ => (tz.fromLocal (w + 900 * (n + 1))).earliest
    ((List.range 16).findSome? probe).getD w

/-- `local_day_bounds`. -/
def localDayBounds (tz : Zone) (date : ℤ) : ℤ × ℤ :=
  (tz.resolveLocal (86400 * date), tz.resolveLocal (86400 * (date + 1)))

/-- `minutes_to_local`, resolved: a minute of a date. -/
def minute (tz : Zone) (date : ℤ) (mins : ℕ) : ℤ := tz.resolveLocal (86400 * date + 60 * mins)

/-- Every minute of a date is shown on it, and a date is what is between two midnights. -/
structure Regular (tz : Zone) : Prop where
  minute_day : ∀ date mins, mins < 1440 → tz.todayIn (tz.minute date mins) = date
  bounds : ∀ date t, (tz.localDayBounds date).1 ≤ t ∧ t < (tz.localDayBounds date).2 ↔
    tz.todayIn t = date

/-- A clock that is always ahead by the same number of seconds. -/
def fixed (offset : ℤ) : Zone where
  localOf t := t + offset
  fromLocal w := .single (w - offset)
  shows w t h := by
    rw [LocalResult.earliest, Option.some.injEq] at h
    omega
  skipped w h := by cases h

theorem regular_fixed (offset : ℤ) : (fixed offset).Regular where
  minute_day date mins hmins := by
    simp only [todayIn, minute, resolveLocal, fixed, LocalResult.earliest]
    omega
  bounds date t := by
    simp only [todayIn, localDayBounds, resolveLocal, fixed, LocalResult.earliest]
    omega

section Regular

variable {tz : Zone}

theorem minute_zero (date : ℤ) : tz.minute date 0 = (tz.localDayBounds date).1 := by
  simp [minute, localDayBounds]

theorem Regular.lt_succ (h : tz.Regular) (date : ℤ) :
    (tz.localDayBounds date).1 < (tz.localDayBounds (date + 1)).1 := by
  have hday := h.minute_day date 0 (by omega)
  rw [minute_zero] at hday
  exact ((h.bounds date _).mpr hday).2

/-- Midnights come in the order of their dates. -/
theorem Regular.mono (h : tz.Regular) {d d' : ℤ} (hd : d ≤ d') :
    (tz.localDayBounds d).1 ≤ (tz.localDayBounds d').1 := by
  induction d', hd using Int.leInduction with
  | base => exact le_rfl
  | succ d' _ ih => exact ih.trans (h.lt_succ d').le

end Regular

end Zone

/-! ## Windows -/

/-- `weekday_key`: the key of a date's weekday; day 0 was a Thursday. -/
def weekdayKey (date : ℤ) : String := weekdayKeys.getD ((date + 3) % 7).toNat "mon"

/-- `windows_for_date`: an override replaces the weekly rule for its date. -/
def windowsForDate (L : Locale) (formatDate : ℤ → String) (availability : Availability)
    (date : ℤ) : List (ℕ × ℕ) :=
  let windows := (availability.overrides.lookup (formatDate date)).or
    (availability.weekly.lookup (weekdayKey date))
  (windows.getD []).filterMap fun w => (w.parseMinutes L).toOption

/-! ## Slots -/

/-- `SlotParams`. -/
structure SlotParams where
  tz : Zone
  availability : Availability
  durationMins : ℕ
  bufferBeforeMins : ℕ
  bufferAfterMins : ℕ
  minNoticeMins : ℕ
  maxPerDay : Option ℕ
  validFrom : Option ℤ
  validUntil : Option ℤ
  now : ℤ

/-- A slot; `stop` is the field `end`. -/
structure Slot where
  start : ℤ
  stop : ℤ
  deriving DecidableEq, Repr

/-- The dates of a range. -/
def dates (first last : ℤ) : List ℤ :=
  (List.range (last + 1 - first).toNat).map fun k : ℕ => first + k

@[simp] theorem mem_dates {first last date : ℤ} :
    date ∈ dates first last ↔ first ≤ date ∧ date ≤ last := by
  simp only [dates, List.mem_map, List.mem_range]
  constructor
  · rintro ⟨k, hk, rfl⟩
    omega
  · rintro ⟨hfirst, hlast⟩
    exact ⟨(date - first).toNat, by omega, by omega⟩

/-- The values of `wall`: from the window's start, as long as a meeting fits. -/
def walls (start stop duration : ℕ) : List ℕ :=
  (List.range ((stop - start) / duration)).map fun k => start + duration * k

/-- The loop of the source. -/
theorem walls_eq {start stop duration : ℕ} (hd : 0 < duration) :
    walls start stop duration =
      if start + duration ≤ stop then start :: walls (start + duration) stop duration else [] := by
  unfold walls
  split
  · rename_i hle
    have hcount : (stop - start) / duration = (stop - (start + duration)) / duration + 1 := by
      rw [← Nat.add_div_right _ hd]
      congr 1
      omega
    rw [hcount, List.range_succ_eq_map, List.map_cons, List.map_map]
    refine congrArg₂ _ (by simp) (List.map_congr_left fun k _ => ?_)
    simp only [Function.comp_apply, Nat.succ_eq_add_one, Nat.mul_add]
    omega
  · rename_i hlt
    rw [Nat.div_eq_of_lt (by omega)]
    rfl

/-- The starts of a window: two wall times that hit one instant give one start. -/
def slotStarts (minute : ℕ → ℤ) : Option ℤ → List ℕ → List ℤ
  | _, [] => []
  | last, wall :: walls =>
    if last = some (minute wall) then slotStarts minute last walls
    else minute wall :: slotStarts minute (some (minute wall)) walls

namespace SlotParams

variable (p : SlotParams)

/-- The slot from a start. -/
def slot (start : ℤ) : Slot := ⟨start, start + 60 * p.durationMins⟩

/-- A slot with the buffers around it. -/
def widened (s : Slot) : ℤ × ℤ :=
  (s.start - 60 * p.bufferBeforeMins, s.stop + 60 * p.bufferAfterMins)

/-- A date outside the validity range. -/
def Invalid (date : ℤ) : Prop :=
  (∃ v ∈ p.validFrom, date < v) ∨ ∃ v ∈ p.validUntil, v < date

/-- A date on which no more bookings are taken. -/
def Full (bookedPerDay : ℤ → ℕ) (date : ℤ) : Prop :=
  ∃ limit ∈ p.maxPerDay, limit ≤ bookedPerDay date

instance (date : ℤ) : Decidable (p.Invalid date) := by unfold Invalid; infer_instance

instance (bookedPerDay : ℤ → ℕ) (date : ℤ) : Decidable (p.Full bookedPerDay date) := by
  unfold Full; infer_instance

variable (L : Locale) (formatDate : ℤ → String)

/-- The slots of one window of a date. -/
def windowSlots (date : ℤ) (busy : List (ℤ × ℤ)) (window : ℕ × ℕ) : List Slot :=
  let windowEnd := p.tz.minute date window.2
  let starts := slotStarts (p.tz.minute date) none (walls window.1 window.2 p.durationMins)
  (starts.map p.slot).filter fun s =>
    s.stop ≤ windowEnd ∧ p.now + 60 * p.minNoticeMins ≤ s.start ∧
      ∀ b ∈ busy, ¬Overlaps (p.widened s) b

/-- The slots of one date. -/
def dateSlots (busy : List (ℤ × ℤ)) (bookedPerDay : ℤ → ℕ) (date : ℤ) : List Slot :=
  if p.Invalid date then []
  else if p.Full bookedPerDay date then []
  else (windowsForDate L formatDate p.availability date).flatMap (p.windowSlots date busy)

/-- `compute_slots`. -/
def computeSlots (first last : ℤ) (busy : List (ℤ × ℤ)) (bookedPerDay : ℤ → ℕ) : List Slot :=
  (dates first last).flatMap (p.dateSlots L formatDate busy bookedPerDay)

/-- The slot grid of a date: windows, notice and validity range, and nothing else. -/
def grid (date : ℤ) : List Slot :=
  { p with maxPerDay := none }.computeSlots L formatDate date date [] fun _ => 0

variable {p L formatDate}

theorem mem_windowSlots {date : ℤ} {busy : List (ℤ × ℤ)} {window : ℕ × ℕ} {s : Slot} :
    s ∈ p.windowSlots date busy window ↔
      s ∈ p.windowSlots date [] window ∧ ∀ b ∈ busy, ¬Overlaps (p.widened s) b := by
  simp [windowSlots]
  tauto

theorem mem_grid {date : ℤ} {s : Slot} :
    s ∈ p.grid L formatDate date ↔ ¬p.Invalid date ∧
      ∃ window ∈ windowsForDate L formatDate p.availability date,
        s ∈ p.windowSlots date [] window := by
  have hdate : { p with maxPerDay := none }.dateSlots L formatDate [] (fun _ => 0) date =
      if p.Invalid date then []
      else (windowsForDate L formatDate p.availability date).flatMap (p.windowSlots date []) :=
    congrArg (ite _ _) (if_neg (by simp [Full]))
  have hone : s ∈ p.grid L formatDate date ↔
      s ∈ { p with maxPerDay := none }.dateSlots L formatDate [] (fun _ => 0) date := by
    simp only [grid, computeSlots, List.mem_flatMap, mem_dates]
    constructor
    · rintro ⟨date', ⟨hle, hge⟩, hs⟩
      rwa [le_antisymm hge hle] at hs
    · exact fun hs => ⟨date, ⟨le_rfl, le_rfl⟩, hs⟩
  rw [hone, hdate]
  split
  · simp_all
  · simp_all

theorem mem_dateSlots {busy : List (ℤ × ℤ)} {bookedPerDay : ℤ → ℕ} {date : ℤ} {s : Slot} :
    s ∈ p.dateSlots L formatDate busy bookedPerDay date ↔
      ¬p.Full bookedPerDay date ∧ s ∈ p.grid L formatDate date ∧
        ∀ b ∈ busy, ¬Overlaps (p.widened s) b := by
  rw [mem_grid]
  unfold dateSlots
  by_cases hinvalid : p.Invalid date
  · simp [hinvalid]
  by_cases hfull : p.Full bookedPerDay date
  · simp [hinvalid, hfull]
  · simp only [hinvalid, hfull, if_false, List.mem_flatMap, not_false_eq_true, true_and]
    constructor
    · rintro ⟨window, hwindow, hs⟩
      obtain ⟨hs, hfree⟩ := mem_windowSlots.mp hs
      exact ⟨⟨window, hwindow, hs⟩, hfree⟩
    · rintro ⟨⟨window, hwindow, hs⟩, hfree⟩
      exact ⟨window, hwindow, mem_windowSlots.mpr ⟨hs, hfree⟩⟩

/-- **What is computed.** The slots of the grids of the dates that are not full, as far as
nothing busy is in their way. -/
theorem mem_computeSlots {first last : ℤ} {busy : List (ℤ × ℤ)} {bookedPerDay : ℤ → ℕ}
    {s : Slot} :
    s ∈ p.computeSlots L formatDate first last busy bookedPerDay ↔
      ∃ date, (first ≤ date ∧ date ≤ last) ∧ ¬p.Full bookedPerDay date ∧
        s ∈ p.grid L formatDate date ∧ ∀ b ∈ busy, ¬Overlaps (p.widened s) b := by
  simp only [computeSlots, List.mem_flatMap, mem_dates, mem_dateSlots]

/-! ### A slot of the grid -/

theorem mem_slotStarts {minute : ℕ → ℤ} {start : ℤ} :
    ∀ {ws : List ℕ} {last : Option ℤ}, start ∈ slotStarts minute last ws →
      ∃ wall ∈ ws, start = minute wall
  | wall :: ws, last, h => by
    unfold slotStarts at h
    split at h
    · obtain ⟨w, hw, hstart⟩ := mem_slotStarts h
      exact ⟨w, List.mem_cons_of_mem _ hw, hstart⟩
    · rcases List.mem_cons.mp h with rfl | h
      · exact ⟨wall, List.mem_cons_self, rfl⟩
      · obtain ⟨w, hw, hstart⟩ := mem_slotStarts h
        exact ⟨w, List.mem_cons_of_mem _ hw, hstart⟩

/-- A wall time at which a meeting still fits. -/
theorem mem_walls {start stop duration wall : ℕ} (h : wall ∈ walls start stop duration) :
    start ≤ wall ∧ wall + duration ≤ stop := by
  simp only [walls, List.mem_map, List.mem_range] at h
  obtain ⟨k, hk, rfl⟩ := h
  have hmul := Nat.mul_le_of_le_div duration _ _ (Nat.succ_le_of_lt hk)
  rw [Nat.succ_eq_add_one, Nat.add_mul, Nat.mul_comm k] at hmul
  have hdur : duration ≠ 0 := by
    rintro rfl
    simp at hk
  omega

theorem parseTime_lt {value : String} {mins : ℕ} (h : parseTime L value = .ok mins) :
    mins < 1440 := by
  unfold parseTime at h
  split at h
  · cases h
  · split at h
    · split at h
      · obtain rfl := Except.ok.inj h
        omega
      · cases h
    · cases h

/-- A window ends on its date. -/
theorem window_lt {date : ℤ} {availability : Availability} {window : ℕ × ℕ}
    (h : window ∈ windowsForDate L formatDate availability date) : window.2 < 1440 := by
  obtain ⟨w, -, hw⟩ := List.mem_filterMap.mp h
  unfold TimeWindow.parseMinutes at hw
  rcases hstart : parseTime L w.start with e | start
  · rw [hstart] at hw
    cases hw
  rcases hstop : parseTime L w.stop with e | stop
  · rw [hstart, hstop] at hw
    cases hw
  · rw [hstart, hstop] at hw
    obtain rfl : (start, stop) = window := Option.some.inj hw
    exact parseTime_lt hstop

/-- A slot of the grid starts at a minute of its date, after the notice, and ends before a
minute of its date. -/
theorem of_mem_grid {date : ℤ} {s : Slot} (h : s ∈ p.grid L formatDate date) :
    (∃ wall < 1440, s = p.slot (p.tz.minute date wall)) ∧
      p.now + 60 * p.minNoticeMins ≤ s.start ∧
      ∃ stop < 1440, s.stop ≤ p.tz.minute date stop := by
  obtain ⟨-, window, hwindow, hs⟩ := mem_grid.mp h
  simp only [windowSlots, List.mem_filter, List.mem_map, decide_eq_true_eq] at hs
  obtain ⟨⟨start, hstart, rfl⟩, hstop, hnotice, -⟩ := hs
  obtain ⟨wall, hwall, rfl⟩ := mem_slotStarts hstart
  have hlt := window_lt hwindow
  have hfits := (mem_walls hwall).2
  exact ⟨⟨wall, by omega, rfl⟩, hnotice, window.2, hlt, hstop⟩

end SlotParams

end Owney.Schedule
