import Mathlib.Tactic.Linarith
import Owney.AcceptedDates

/-!
# Dates that `chrono` cannot count

The public handlers again, with what their arithmetic does at its limits: a date or a wall-clock
time that leaves `chrono`'s calendar, an instant whose local time does, and a sum that leaves
`i64` are panics (`none` in the functions, `Stop.panic` in the programs).

* `computeSlots?_eq`, `resolveLocal?_eq` — what does not panic computes what it did before.
* `computeSlots?_eq_none` — when a list of slots is not computed: its last date is the last of
  the calendar, or the notice does not fit behind the clock.
* `answers_iff` — when a request is answered.
-/

namespace Owney.Schedule

open Programs Programs.Prog Intervals Gregorian

/-! ## The ranges of `chrono` -/

/-- `NaiveDate::MIN`. -/
def minDate : ℤ := dayNumber (-262143, 1, 1)

/-- `NaiveDate::MAX`. -/
def maxDate : ℤ := dayNumber (262142, 12, 31)

theorem minDate_eq : minDate = -96465292 := by decide +kernel

theorem maxDate_eq : maxDate = 95026236 := by decide +kernel

/-- A `NaiveDate`. -/
def IsDate (date : ℤ) : Prop := minDate ≤ date ∧ date ≤ maxDate

/-- The seconds of a `NaiveDateTime`, on a wall clock or in UTC. -/
def IsTime (w : ℤ) : Prop := 86400 * minDate ≤ w ∧ w < 86400 * (maxDate + 1)

instance (date : ℤ) : Decidable (IsDate date) := inferInstanceAs (Decidable (_ ∧ _))

instance (w : ℤ) : Decidable (IsTime w) := inferInstanceAs (Decidable (_ ∧ _))

/-- `NaiveDate + Duration::days(_)`. -/
def addDays? (date days : ℤ) : Option ℤ :=
  if IsDate (date + days) then some (date + days) else none

/-- `NaiveDateTime + Duration`. -/
def addSeconds? (w secs : ℤ) : Option ℤ := if IsTime (w + secs) then some (w + secs) else none

/-- The result of a sum in `i64`. -/
def i64? (x : ℤ) : Option ℤ := if -2 ^ 63 ≤ x ∧ x < 2 ^ 63 then some x else none

/-- What is computed from a time of the calendar and a few days fits into `i64`. -/
theorem i64?_some {w x : ℤ} (h : IsTime w) (hle : w - 10 ^ 9 ≤ x) (hge : x ≤ w + 10 ^ 9) :
    i64? x = some x := by
  obtain ⟨hw, hw'⟩ := h
  rw [minDate_eq] at hw
  rw [maxDate_eq] at hw'
  refine if_pos ⟨?_, ?_⟩ <;> omega

/-! ## Instants and wall-clock times -/

namespace Zone

variable (tz : Zone)

/-- Every instant it names is a `DateTime`. -/
def Ranged : Prop := ∀ w t, (tz.fromLocal w).earliest = some t → IsTime t

/-- An instant is no `DateTime`, or its local time is a `NaiveDateTime`. -/
def Shown (t : ℤ) : Prop := IsTime t → IsTime (tz.localOf t)

/-- `today_in`: what is no `DateTime` is on 1970-01-01. -/
def todayIn? (t : ℤ) : Option ℤ :=
  if IsTime t then if IsTime (tz.localOf t) then some (tz.todayIn t) else none else some 0

/-- The loop of `resolve_local` over the steps of 15 minutes. -/
def probe? (w : ℤ) : ℕ → ℤ → Option ℤ
  | 0, _ => some w
  | n + 1, probe => do
    let probe ← addSeconds? probe 900
    match (tz.fromLocal probe).earliest with
    | some t => return t
    | none => probe? w n probe

/-- `resolve_local`. -/
def resolveLocal? (w : ℤ) : Option ℤ :=
  match (tz.fromLocal w).earliest with
  | some t => some t
  | none => tz.probe? w 16 w

/-- `local_day_bounds`. -/
def localDayBounds? (date : ℤ) : Option (ℤ × ℤ) := do
  let lo ← tz.resolveLocal? (86400 * date)
  let next ← addDays? date 1
  let hi ← tz.resolveLocal? (86400 * next)
  return (lo, hi)

/-- `minutes_to_local`, resolved. -/
def minute? (date : ℤ) (mins : ℕ) : Option ℤ := tz.resolveLocal? (86400 * date + 60 * mins)

variable {tz}

theorem probe?_eq {w t : ℤ} {n : ℕ} {p : ℤ} (h : tz.probe? w n p = some t) :
    ((List.range n).findSome? fun k : ℕ => (tz.fromLocal (p + 900 * (k + 1))).earliest).getD w =
      t := by
  induction n generalizing p with
  | zero => exact Option.some.inj h
  | succ n ih =>
    rw [probe?, addSeconds?] at h
    split_ifs at h
    swap
    · cases h
    · rw [List.range_succ_eq_map, List.findSome?_cons, List.findSome?_map]
      simp only [Option.bind_eq_bind, Option.bind_some] at h
      have hfirst : (p + 900 * (((0 : ℕ) : ℤ) + 1)) = p + 900 := by simp
      rw [hfirst]
      cases hp : (tz.fromLocal (p + 900)).earliest with
      | some t' =>
        rw [hp] at h
        exact Option.some.inj h
      | none =>
        rw [hp] at h
        rw [← ih h]
        refine congrArg (fun f => ((List.range n).findSome? f).getD w) (funext fun k => ?_)
        simp only [Function.comp_apply, Nat.succ_eq_add_one, Nat.cast_add, Nat.cast_one]
        congr 2
        omega

/-- What does not panic is what was computed before. -/
theorem resolveLocal?_eq {w t : ℤ} (h : tz.resolveLocal? w = some t) : tz.resolveLocal w = t := by
  rw [resolveLocal?] at h
  rw [resolveLocal]
  cases hw : (tz.fromLocal w).earliest with
  | some t' =>
    rw [hw] at h
    exact Option.some.inj h
  | none =>
    rw [hw] at h
    exact probe?_eq h

/-- Four hours before its end every time of the calendar is resolved. -/
theorem probe?_some (htz : tz.Ranged) {w : ℤ} (hw : IsTime w) {n : ℕ} {p : ℤ} (hp : IsTime p)
    (hend : p + 900 * n < 86400 * (maxDate + 1)) : ∃ t, tz.probe? w n p = some t ∧ IsTime t := by
  induction n generalizing p with
  | zero => exact ⟨w, rfl, hw⟩
  | succ n ih =>
    push_cast at hend
    have hnext : IsTime (p + 900) := by
      have hstart := hp.1
      exact ⟨by omega, by omega⟩
    rw [probe?, addSeconds?, if_pos hnext]
    cases hfound : (tz.fromLocal (p + 900)).earliest with
    | some t => exact ⟨t, by simp [hfound], htz _ _ hfound⟩
    | none =>
      obtain ⟨t, ht, htime⟩ := ih hnext (by omega)
      exact ⟨t, by simp [hfound, ht], htime⟩

theorem resolveLocal?_some (htz : tz.Ranged) {w : ℤ} (hw : IsTime w)
    (hend : w + 14400 < 86400 * (maxDate + 1)) : ∃ t, tz.resolveLocal? w = some t ∧ IsTime t := by
  rw [resolveLocal?]
  cases hfound : (tz.fromLocal w).earliest with
  | some t => exact ⟨t, rfl, htz _ _ hfound⟩
  | none => exact probe?_some htz hw hw (by simpa using hend)

/-- A minute of a date before the last one. -/
theorem minute?_some (htz : tz.Ranged) {date : ℤ} {mins : ℕ} (hdate : minDate ≤ date)
    (hlast : date < maxDate) (hmins : mins < 1440) :
    ∃ t, tz.minute? date mins = some t ∧ IsTime t := by
  refine resolveLocal?_some htz ⟨?_, ?_⟩ ?_ <;> omega

/-- The bounds of a date before the last one. -/
theorem localDayBounds?_some (htz : tz.Ranged) {date : ℤ} (hdate : minDate ≤ date)
    (hlast : date < maxDate) :
    ∃ lo hi, tz.localDayBounds? date = some (lo, hi) ∧ IsTime lo ∧ IsTime hi := by
  obtain ⟨lo, hlo, hlot⟩ := @resolveLocal?_some tz htz (86400 * date)
    ⟨by omega, by omega⟩ (by omega)
  obtain ⟨hi, hhi, hhit⟩ := @resolveLocal?_some tz htz (86400 * (date + 1))
    ⟨by omega, by omega⟩ (by omega)
  refine ⟨lo, hi, ?_, hlot, hhit⟩
  have hnext : IsDate (date + 1) := ⟨by omega, by omega⟩
  simp [localDayBounds?, addDays?, hlo, hnext, hhi]

theorem localDayBounds?_eq {date : ℤ} {bounds : ℤ × ℤ}
    (h : tz.localDayBounds? date = some bounds) : tz.localDayBounds date = bounds := by
  simp only [localDayBounds?, addDays?, Option.bind_eq_bind, Option.bind_eq_some_iff] at h
  obtain ⟨lo, hlo, next, hnext, hi, hhi, h⟩ := h
  split_ifs at hnext
  obtain rfl := Option.some.inj hnext
  rw [← Option.some.inj h, localDayBounds, resolveLocal?_eq hlo, resolveLocal?_eq hhi]

/-- The last date has no end. -/
theorem localDayBounds?_maxDate : tz.localDayBounds? maxDate = none := by
  have hnext : ¬IsDate (maxDate + 1) := fun h => absurd h.2 (by omega)
  rw [localDayBounds?]
  cases tz.resolveLocal? (86400 * maxDate) with
  | none => rfl
  | some lo => simp [addDays?, hnext]

theorem minute?_eq {date t : ℤ} {mins : ℕ} (h : tz.minute? date mins = some t) :
    tz.minute date mins = t :=
  resolveLocal?_eq h

theorem todayIn?_eq_none {t : ℤ} : tz.todayIn? t = none ↔ ¬tz.Shown t := by
  rw [todayIn?, Shown]
  split_ifs <;> simp_all

end Zone


/-! ## Slots -/

/-- The lists of all elements, one after the other. -/
def collect? {α β : Type} (f : α → Option (List β)) : List α → Option (List β)
  | [] => some []
  | x :: xs => do
    let ys ← f x
    let rest ← collect? f xs
    return ys ++ rest

theorem collect?_some {α β : Type} {f : α → Option (List β)} {xs : List α}
    (h : ∀ x ∈ xs, ∃ ys, f x = some ys) : ∃ ys, collect? f xs = some ys := by
  induction xs with
  | nil => exact ⟨[], rfl⟩
  | cons x xs ih =>
    rw [List.forall_mem_cons] at h
    obtain ⟨ys, hys⟩ := h.1
    obtain ⟨rest, hrest⟩ := ih h.2
    exact ⟨ys ++ rest, by simp [collect?, hys, hrest]⟩

theorem collect?_eq {α β : Type} {f : α → Option (List β)} {g : α → List β} {xs : List α}
    {ys : List β} (h : collect? f xs = some ys) (hfg : ∀ x ys, f x = some ys → g x = ys) :
    xs.flatMap g = ys := by
  induction xs generalizing ys with
  | nil => exact Option.some.inj h
  | cons x xs ih =>
    simp only [collect?, Option.bind_eq_bind, Option.bind_eq_some_iff] at h
    obtain ⟨first, hfirst, rest, hrest, hys⟩ := h
    rw [List.flatMap_cons, hfg x first hfirst, ih hrest]
    exact Option.some.inj hys

namespace SlotParams

variable (p : SlotParams) (L : Locale) (formatDate : ℤ → String)

/-- The loop over the wall times of a window. -/
def wallLoop? (date windowEnd : ℤ) (busy : List (ℤ × ℤ)) : Option ℤ → List ℕ → Option (List Slot)
  | _, [] => some []
  | lastStart, wall :: walls => do
    let start ← p.tz.minute? date wall
    if lastStart = some start then wallLoop? date windowEnd busy lastStart walls
    else
      let stop ← i64? (start + 60 * p.durationMins)
      if windowEnd < stop then wallLoop? date windowEnd busy (some start) walls
      else
        let lo ← i64? (start - 60 * p.bufferBeforeMins)
        let hi ← i64? (stop + 60 * p.bufferAfterMins)
        let rest ← wallLoop? date windowEnd busy (some start) walls
        if p.now + 60 * p.minNoticeMins ≤ start ∧ ∀ b ∈ busy, ¬Overlaps (lo, hi) b then
          return ⟨start, stop⟩ :: rest
        else return rest

/-- One window of a date. -/
def windowSlots? (date : ℤ) (busy : List (ℤ × ℤ)) (window : ℕ × ℕ) : Option (List Slot) := do
  let windowEnd ← p.tz.minute? date window.2
  p.wallLoop? date windowEnd busy none (walls window.1 window.2 p.durationMins)

/-- One date. -/
def dateSlots? (busy : List (ℤ × ℤ)) (bookedPerDay : ℤ → ℕ) (date : ℤ) : Option (List Slot) :=
  if p.Invalid date then some []
  else if p.Full bookedPerDay date then some []
  else collect? (p.windowSlots? date busy) (windowsForDate L formatDate p.availability date)

/-- The loop over the dates; there are `n` of them from `date` on. -/
def dateLoop? (busy : List (ℤ × ℤ)) (bookedPerDay : ℤ → ℕ) : ℕ → ℤ → Option (List Slot)
  | 0, _ => some []
  | n + 1, date => do
    let slots ← p.dateSlots? L formatDate busy bookedPerDay date
    let next ← addDays? date 1
    let rest ← dateLoop? busy bookedPerDay n next
    return slots ++ rest

/-- `compute_slots`. -/
def computeSlots? (first last : ℤ) (busy : List (ℤ × ℤ)) (bookedPerDay : ℤ → ℕ) :
    Option (List Slot) := do
  let _earliestStart ← i64? (p.now + 60 * p.minNoticeMins)
  p.dateLoop? L formatDate busy bookedPerDay (last + 1 - first).toNat first

/-- The checks on a page's durations and buffers, for one of its durations. -/
structure Checked : Prop where
  duration : p.durationMins ≤ 480
  bufferBefore : p.bufferBeforeMins ≤ 1440
  bufferAfter : p.bufferAfterMins ≤ 1440

variable {p L formatDate} {date first last windowEnd : ℤ} {busy : List (ℤ × ℤ)}
  {bookedPerDay : ℤ → ℕ} {window : ℕ × ℕ} {lastStart : Option ℤ} {ws : List ℕ} {slots : List Slot}

/-! ### What was computed before -/

theorem i64?_eq {x y : ℤ} (h : i64? x = some y) : x = y := by
  rw [i64?] at h
  split_ifs at h
  exact Option.some.inj h

theorem wallLoop?_eq (h : p.wallLoop? date windowEnd busy lastStart ws = some slots) :
    ((slotStarts (p.tz.minute date) lastStart ws).map p.slot).filter (fun s =>
      decide (s.stop ≤ windowEnd ∧ p.now + 60 * p.minNoticeMins ≤ s.start ∧
        ∀ b ∈ busy, ¬Overlaps (p.widened s) b)) = slots := by
  induction ws generalizing lastStart slots with
  | nil => exact Option.some.inj h
  | cons wall ws ih =>
    simp only [wallLoop?, Option.bind_eq_bind, Option.bind_eq_some_iff] at h
    obtain ⟨start, hstart, h⟩ := h
    obtain rfl := Zone.minute?_eq hstart
    rw [slotStarts]
    split_ifs at h ⊢
    · exact ih h
    · -- a start that is not the one before
      simp only [Option.bind_eq_some_iff] at h
      obtain ⟨stop, hstop, h⟩ := h
      obtain rfl := i64?_eq hstop
      rw [List.map_cons]
      split_ifs at h with hend
      · rw [List.filter_cons_of_neg, ih h]
        exact fun h => absurd (of_decide_eq_true h).1 (not_le.mpr hend)
      · simp only [Option.bind_eq_some_iff] at h
        obtain ⟨lo, hlo, hi, hhi, rest, hrest, h⟩ := h
        obtain rfl := i64?_eq hlo
        obtain rfl := i64?_eq hhi
        split_ifs at h with hkeep
        · rw [List.filter_cons_of_pos, ih hrest]
          · exact Option.some.inj h
          · exact decide_eq_true ⟨not_lt.mp hend, hkeep⟩
        · rw [List.filter_cons_of_neg, ih hrest]
          · exact Option.some.inj h
          · exact fun h => hkeep (of_decide_eq_true h).2

theorem windowSlots?_eq (h : p.windowSlots? date busy window = some slots) :
    p.windowSlots date busy window = slots := by
  simp only [windowSlots?, Option.bind_eq_bind, Option.bind_eq_some_iff] at h
  obtain ⟨windowEnd, hend, hloop⟩ := h
  obtain rfl := Zone.minute?_eq hend
  exact wallLoop?_eq hloop

theorem dateSlots?_eq (h : p.dateSlots? L formatDate busy bookedPerDay date = some slots) :
    p.dateSlots L formatDate busy bookedPerDay date = slots := by
  rw [dateSlots?] at h
  rw [dateSlots]
  split_ifs at h ⊢
  · exact Option.some.inj h
  · exact Option.some.inj h
  · exact collect?_eq h fun _ _ => windowSlots?_eq

theorem dateLoop?_eq {n : ℕ} (h : p.dateLoop? L formatDate busy bookedPerDay n date = some slots) :
    ((List.range n).map fun k : ℕ => date + k).flatMap
      (p.dateSlots L formatDate busy bookedPerDay) = slots := by
  induction n generalizing date slots with
  | zero => exact Option.some.inj h
  | succ n ih =>
    simp only [dateLoop?, addDays?, Option.bind_eq_bind, Option.bind_eq_some_iff] at h
    obtain ⟨head, hhead, next, hnext, rest, hrest, h⟩ := h
    split_ifs at hnext
    obtain rfl := Option.some.inj hnext
    rw [List.range_succ_eq_map, List.map_cons, List.flatMap_cons, List.map_map, Nat.cast_zero,
      Int.add_zero, dateSlots?_eq hhead, ← Option.some.inj h, ← ih hrest]
    refine congrArg (fun f => head ++ ((List.range n).map f).flatMap _) (funext fun k => ?_)
    simp only [Function.comp_apply, Nat.succ_eq_add_one, Nat.cast_add, Nat.cast_one]
    omega

/-- **What is computed** without a panic is what was computed before. -/
theorem computeSlots?_eq
    (h : p.computeSlots? L formatDate first last busy bookedPerDay = some slots) :
    p.computeSlots L formatDate first last busy bookedPerDay = slots := by
  simp only [computeSlots?, Option.bind_eq_bind, Option.bind_eq_some_iff] at h
  obtain ⟨-, -, hloop⟩ := h
  exact dateLoop?_eq hloop

/-! ### What panics -/

variable (windowEnd busy lastStart ws) in
theorem wallLoop?_some (htz : p.tz.Ranged) (hp : p.Checked) (hdate : minDate ≤ date)
    (hlast : date < maxDate) (hws : ∀ wall ∈ ws, wall < 1440) :
    ∃ slots, p.wallLoop? date windowEnd busy lastStart ws = some slots := by
  induction ws generalizing lastStart with
  | nil => exact ⟨[], rfl⟩
  | cons wall ws ih =>
    rw [List.forall_mem_cons] at hws
    obtain ⟨start, hstart, htime⟩ := Zone.minute?_some htz hdate hlast hws.1
    obtain ⟨hduration, hbefore, hafter⟩ := hp
    have hstop : i64? (start + 60 * p.durationMins) = some (start + 60 * p.durationMins) :=
      i64?_some htime (by omega) (by omega)
    have hlo : i64? (start - 60 * p.bufferBeforeMins) = some (start - 60 * p.bufferBeforeMins) :=
      i64?_some htime (by omega) (by omega)
    have hhi : i64? (start + 60 * p.durationMins + 60 * p.bufferAfterMins) =
        some (start + 60 * p.durationMins + 60 * p.bufferAfterMins) :=
      i64?_some htime (by omega) (by omega)
    obtain ⟨same, hsame⟩ := @ih lastStart hws.2
    obtain ⟨rest, hrest⟩ := @ih (some start) hws.2
    simp only [wallLoop?, Option.bind_eq_bind, hstart, hstop, hlo, hhi, hsame, hrest,
      Option.bind_some]
    split_ifs <;> exact ⟨_, rfl⟩

variable (L formatDate busy bookedPerDay) in
theorem dateSlots?_some (htz : p.tz.Ranged) (hp : p.Checked) (hdate : minDate ≤ date)
    (hlast : date < maxDate) :
    ∃ slots, p.dateSlots? L formatDate busy bookedPerDay date = some slots := by
  rw [dateSlots?]
  split_ifs
  · exact ⟨[], rfl⟩
  · exact ⟨[], rfl⟩
  · refine collect?_some fun window hwindow => ?_
    have hlt := window_lt hwindow
    obtain ⟨windowEnd, hend, -⟩ := Zone.minute?_some htz hdate hlast hlt
    obtain ⟨slots, hslots⟩ := wallLoop?_some windowEnd busy none
      (walls window.1 window.2 p.durationMins) htz hp hdate hlast
      fun wall hwall => by
        have hfits := (mem_walls hwall).2
        omega
    exact ⟨slots, by simp [windowSlots?, hend, hslots]⟩

variable (L formatDate busy bookedPerDay) in
/-- Dates before the last one of the calendar, -/
theorem dateLoop?_some (htz : p.tz.Ranged) (hp : p.Checked) (n : ℕ) (hdate : minDate ≤ date)
    (hlast : date + n ≤ maxDate) :
    ∃ slots, p.dateLoop? L formatDate busy bookedPerDay n date = some slots := by
  induction n generalizing date with
  | zero => exact ⟨[], rfl⟩
  | succ n ih =>
    push_cast at hlast
    have hnext : IsDate (date + 1) := ⟨by omega, by omega⟩
    obtain ⟨head, hhead⟩ := dateSlots?_some L formatDate busy bookedPerDay htz hp hdate
      (by omega)
    obtain ⟨rest, hrest⟩ := @ih (date + 1) (by omega) (by omega)
    exact ⟨head ++ rest, by simp [dateLoop?, addDays?, hhead, hnext, hrest]⟩

/-- and dates up to the last one. -/
theorem dateLoop?_none {n : ℕ} (hlast : maxDate < date + n) (hdate : date ≤ maxDate) :
    p.dateLoop? L formatDate busy bookedPerDay n date = none := by
  induction n generalizing date with
  | zero =>
    push_cast at hlast
    omega
  | succ n ih =>
    push_cast at hlast
    rw [dateLoop?]
    cases p.dateSlots? L formatDate busy bookedPerDay date with
    | none => rfl
    | some head =>
      by_cases hnext : IsDate (date + 1)
      · simp [addDays?, hnext, @ih (date + 1) (by omega) hnext.2]
      · simp [addDays?, hnext]

/-- **What panics.** The list ends at the last date of the calendar, or the notice leaves `i64`. -/
theorem computeSlots?_eq_none (htz : p.tz.Ranged) (hp : p.Checked) (hfirst : minDate ≤ first)
    (hle : first ≤ last) (hlast : last ≤ maxDate) (hnow : 0 ≤ p.now) :
    p.computeSlots? L formatDate first last busy bookedPerDay = none ↔
      2 ^ 63 ≤ p.now + 60 * p.minNoticeMins ∨ last = maxDate := by
  rw [computeSlots?, i64?]
  by_cases hnotice : p.now + 60 * p.minNoticeMins < 2 ^ 63
  · rw [if_pos ⟨by omega, hnotice⟩, or_iff_right (not_le.mpr hnotice)]
    by_cases hend : last = maxDate
    · refine iff_of_true ?_ hend
      exact dateLoop?_none (by omega) (by omega)
    · refine iff_of_false ?_ hend
      obtain ⟨slots, hslots⟩ := dateLoop?_some L formatDate busy bookedPerDay htz hp
        (last + 1 - first).toNat hfirst (by omega)
      simp [hslots]
  · rw [if_neg fun h => hnotice h.2]
    exact iff_of_true rfl (.inl (not_lt.mp hnotice))

end SlotParams


/-! ## The handlers -/

/-- How a handler ends before its last line. -/
inductive Stop where
  | refused (r : Refusal)
  | panic

/-- A program of the endpoints in which arithmetic can panic. -/
abbrev RiskyProg (α : Type) : Type := ExceptT Stop (Prog ScheduleOp.Ret) α

/-- A step without arithmetic. -/
def calmly {α : Type} (p : ScheduleProg α) : RiskyProg α :=
  ExceptT.mk (p.run >>= fun res => pure (res.mapError .refused))

/-- The result of a step that can panic. -/
def orPanic {α : Type} (v : Option α) : RiskyProg α :=
  match v with
  | some a => return a
  | none => throw .panic

section Handlers

variable (C : ScheduleCrates)

/-- The dates of the bookings. -/
def bookedDays? (tz : Zone) (bookings : List Booking) : Option (List ℤ) :=
  collect? (fun b => (tz.todayIn? b.start).map ([·])) bookings

/-- `slots_for_range`. -/
def slotsForRange? (page : SchedulingPage) (tz : Zone) (durationMins : ℕ) (first last now : ℤ) :
    RiskyProg (List Slot) := do
  let (rangeLo, _) ← orPanic (tz.localDayBounds? first)
  let (_, rangeHi) ← orPanic (tz.localDayBounds? last)
  let lo ← orPanic (i64? (rangeLo - widen page))
  let hi ← orPanic (i64? (rangeHi + widen page))
  let events ← calmly (fetch (.eventsOverlapping page.accountId lo hi))
  let bookings ← calmly (fetch (.confirmedBookings page.id lo hi))
  let days ← orPanic (bookedDays? tz bookings)
  let params := slotParams C page tz durationMins page.maxPerDay now
  orPanic (params.computeSlots? C.locale C.formatDate first last
    (events ++ bookings.map (·.span)) fun date => days.count date)

/-- The last date of the query; two weeks by default. -/
def queryLast? (last : Option (Option ℤ)) (first : ℤ) : RiskyProg ℤ :=
  match last with
  | none => orPanic (addDays? first 13)
  | some last => calmly (valueOr last (badRequest "bad `to` date (want YYYY-MM-DD)"))

/-- `slots_json` from the check of the range on. -/
def listRange? (page : SchedulingPage) (tz : Zone) (duration : ℕ) (today first last now : ℤ) :
    RiskyProg ScheduleReply := do
  calmly (demand (¬(last < first ∨ maxRangeDays ≤ last - first))
    (badRequest ("range must be 1..=" ++ toString maxRangeDays ++ " days")))
  let horizon ← orPanic (addDays? today maxHorizonDays)
  calmly (demand (¬horizon < last)
    (badRequest ("horizon is " ++ toString maxHorizonDays ++ " days")))
  let slots ← slotsForRange? C page tz duration first last now
  return .slots page.timezone duration slots

/-- `slots_json`. -/
def slotsJson? (slug : String) (query : SlotsQuery) : RiskyProg ScheduleReply := do
  calmly (demand query.allowed slowDown)
  let page ← calmly (activePage slug)
  let tz ← calmly (pageTz C page)
  let today ← orPanic (tz.todayIn? query.now)
  -- `durations_mins[0]`
  let default ← orPanic page.durationsMins.head?
  let duration := query.duration.getD default
  calmly (demand (duration ∈ page.durationsMins)
    (badRequest ("duration must be one of " ++ debugDurations page.durationsMins)))
  let first ← calmly (queryDate query.first today "bad `from` date (want YYYY-MM-DD)")
  let last ← queryLast? query.last first
  listRange? C page tz duration today first last query.now

/-- The request `book` makes of the storage. -/
def bookRequest? (page : SchedulingPage) (tz : Zone) (owner : OwnerRow) (body : BookBody)
    (day : ℤ) (slot : Slot) : Option BookSlotRequest := do
  let busyFrom ← i64? (slot.start - 60 * page.bufferBeforeMins)
  let busyTo ← i64? (slot.stop + 60 * page.bufferAfterMins)
  let dayBounds ← tz.localDayBounds? day
  return { bookRequest page tz owner body slot with
    busyFrom := busyFrom
    busyTo := busyTo
    dayBounds := dayBounds }

/-- `book`. -/
def book? (slug : String) (post : BookPost) : RiskyProg ScheduleReply := do
  calmly (demand post.allowed slowDown)
  let body ← calmly (ExceptT.mk (pure (post.body.mapError fun err =>
    badRequest ("bad request body: " ++ err))))
  calmly (demand (validateVisitor C body = none) (badRequest ((validateVisitor C body).getD "")))
  let page ← calmly (activePage slug)
  let tz ← calmly (pageTz C page)
  calmly (demand (body.durationMins ∈ page.durationsMins)
    (badRequest ("duration must be one of " ++ debugDurations page.durationsMins)))
  let day ← orPanic (tz.todayIn? body.start)
  let params := slotParams C page tz body.durationMins none post.now
  let valid ← orPanic (params.computeSlots? C.locale C.formatDate day day [] fun _ => 0)
  let slot ← calmly (valueOr (valid.find? fun slot => slot.start = body.start)
    (badRequest "that time is not an available slot"))
  let account ← calmly (fetch (.account page.accountId))
  let owner ← calmly (valueOr account notFound)
  let req ← orPanic (bookRequest? page tz owner body day slot)
  let booking ← calmly (ask (.bookSlot req))
  calmly (bookReply page booking)

/-- The handler of a visitor's request. -/
def publicHandle? : ScheduleRequest → RiskyProg ScheduleReply
  | .slots slug query => slotsJson? C slug query
  | .book slug post => book? C slug post
  | _ => return .done

end Handlers

/-! ### Panics of a handler that is alone -/

section Panics

variable {α β : Type} (exec : (o : ScheduleOp) → ScheduleDb → o.Ret × ScheduleDb)

/-- The program panics, from a state and with the answers it is given. -/
def Panics (p : RiskyProg α) (db : ScheduleDb) : Prop := (p.run.alone exec db).1 = .error .panic

variable {exec} {db db' : ScheduleDb} {p : RiskyProg α} {f : α → RiskyProg β} {a : α}

theorem panics_bind : Panics exec (p >>= f) db ↔
    Panics exec p db ∨ ∃ a v, p.run.alone exec db = (.ok a, v) ∧ Panics exec (f a) v := by
  rw [Panics, Panics, ExceptT.run_bind, alone_bind]
  rcases p.run.alone exec db with ⟨e | a, v⟩
  · simp
  · simp [Panics]

theorem panics_orPanic {v : Option α} : Panics exec (orPanic v) db ↔ v = none := by
  cases v <;> simp [Panics, orPanic]

theorem alone_orPanic {v : Option α} :
    (orPanic v).run.alone exec db = (.ok a, db') ↔ v = some a ∧ db = db' := by
  cases v <;> simp [orPanic]

theorem panics_calmly {q : ScheduleProg α} : Panics exec (calmly q) db ↔ False := by
  rw [iff_false, Panics, calmly, ExceptT.run_mk, alone_bind]
  rcases q.run.alone exec db with ⟨e | a, v⟩ <;> simp [Except.mapError]

theorem alone_calmly {q : ScheduleProg α} :
    (calmly q).run.alone exec db = (.ok a, db') ↔ q.run.alone exec db = (.ok a, db') := by
  rw [calmly, ExceptT.run_mk, alone_bind]
  rcases q.run.alone exec db with ⟨e | a, v⟩ <;> simp [Except.mapError]

theorem panics_return {b : α} : Panics exec (pure b : RiskyProg α) db ↔ False := by
  simp [Panics]

end Panics

/-! ## When a request is answered -/

section Answers

variable (C : ScheduleCrates) (exec : (o : ScheduleOp) → ScheduleDb → o.Ret × ScheduleDb)
  (db : ScheduleDb)

/-- The handler has found the page, in the state after. -/
structure Finds (slug : String) (page : SchedulingPage) (tz : Zone) (db' : ScheduleDb) : Prop where
  found : exec (.pageBySlug slug) db = (.ok (some page), db')
  active : page.status = .active
  zone : C.zone page.timezone = some tz

/-- The clock and the last date of a range are far enough from the end of the calendar. -/
structure RangeSafe (page : SchedulingPage) (tz : Zone) (db₁ : ScheduleDb)
    (today first last now : ℤ) : Prop where
  horizon : today + maxHorizonDays ≤ maxDate
  before : last ≤ today + maxHorizonDays → last < maxDate
  fetched : last ≤ today + maxHorizonDays → ∀ events bookings db₂ db₃,
    exec (.eventsOverlapping page.accountId ((tz.localDayBounds first).1 - widen page)
      ((tz.localDayBounds last).2 + widen page)) db₁ = (.ok events, db₂) →
    exec (.confirmedBookings page.id ((tz.localDayBounds first).1 - widen page)
      ((tz.localDayBounds last).2 + widen page)) db₂ = (.ok bookings, db₃) →
    (∀ b ∈ bookings, tz.Shown b.start) ∧ now + 60 * page.minNoticeMins < 2 ^ 63

/-- The dates and the clock of a request for slots can be counted with. -/
def SlotsSafe (slug : String) (query : SlotsQuery) : Prop :=
  query.allowed = true → ∀ page tz db₁, Finds C exec db slug page tz db₁ →
    tz.Shown query.now ∧ ∀ today, tz.todayIn? query.now = some today →
      query.duration.getD (page.durationsMins.headD 0) ∈ page.durationsMins →
        ∀ first, query.first.getD (some today) = some first →
          (query.last = none → first + 13 ≤ maxDate) ∧
            ∀ last, query.last.getD (some (first + 13)) = some last →
              first ≤ last → last - first < maxRangeDays →
                RangeSafe exec page tz db₁ today first last query.now

/-- The start and the clock of a request to book can be counted with: the local time of the
start is before the last date of the calendar. -/
def BookSafe (slug : String) (post : BookPost) : Prop :=
  post.allowed = true → ∀ body, post.body = .ok body → validateVisitor C body = none →
    ∀ page tz db₁, Finds C exec db slug page tz db₁ → body.durationMins ∈ page.durationsMins →
      (IsTime body.start → 86400 * minDate ≤ tz.localOf body.start ∧
        tz.localOf body.start < 86400 * maxDate) ∧
        post.now + 60 * page.minNoticeMins < 2 ^ 63

/-- The request can be counted with. -/
def Safe : ScheduleRequest → Prop
  | .slots slug query => SlotsSafe C exec db slug query
  | .book slug post => BookSafe C exec db slug post
  | _ => True

/-- The clock is after 1970 and in `i64`, and the dates of a query are `NaiveDate`s. -/
def Typed : ScheduleRequest → Prop
  | .slots _ query => 0 ≤ query.now ∧ (∀ date, query.first = some (some date) → IsDate date) ∧
    ∀ date, query.last = some (some date) → IsDate date
  | .book _ post => 0 ≤ post.now
  | _ => True

variable {C exec db}

theorem alone_activePage? {slug : String} {page : SchedulingPage} {db' : ScheduleDb} :
    (activePage slug).run.alone exec db = (.ok page, db') ↔
      exec (.pageBySlug slug) db = (.ok (some page), db') ∧ page.status = .active := by
  simp only [activePage, alone_bind_eq_ok, alone_valueOr]
  constructor
  · rintro ⟨found, _, hfound, hpage, rfl⟩
    obtain ⟨rfl, hactive⟩ := Option.filter_eq_some_iff.mp hpage
    exact ⟨alone_fetch.mp hfound, of_decide_eq_true hactive⟩
  · rintro ⟨hfound, hactive⟩
    exact ⟨some page, db', alone_fetch.mpr hfound,
      Option.filter_eq_some_iff.mpr ⟨rfl, decide_eq_true hactive⟩, rfl⟩

theorem isDate_todayIn? {tz : Zone} {t today : ℤ} (h : tz.todayIn? t = some today) :
    IsDate today := by
  rw [Zone.todayIn?] at h
  split_ifs at h with ht hlocal
  · obtain rfl := Option.some.inj h
    obtain ⟨hle, hlt⟩ := hlocal
    rw [Zone.todayIn]
    exact ⟨by omega, by omega⟩
  · obtain rfl := Option.some.inj h
    rw [IsDate, minDate_eq, maxDate_eq]
    decide

theorem bookedDays?_eq_none {tz : Zone} {bookings : List Booking} :
    bookedDays? tz bookings = none ↔ ∃ b ∈ bookings, ¬tz.Shown b.start := by
  induction bookings with
  | nil => simp [bookedDays?, collect?]
  | cons b bs ih =>
    rw [bookedDays?, collect?]
    cases hday : tz.todayIn? b.start with
    | none => simp [Zone.todayIn?_eq_none.mp hday]
    | some day =>
      have hshown : tz.Shown b.start := by
        by_contra hno
        rw [Zone.todayIn?_eq_none.mpr hno] at hday
        cases hday
      rw [bookedDays?] at ih
      cases hrest : collect? (fun b => (tz.todayIn? b.start).map ([·])) bs with
      | none => simpa [hrest, hshown] using ih.mp hrest
      | some days => simpa [hrest, hshown] using ih

/-- What the checks say of the slots of a page. -/
theorem PageChecked.checked {page : SchedulingPage} (h : PageChecked C page) {tz : Zone}
    {duration : ℕ} (hduration : duration ∈ page.durationsMins) {maxPerDay : Option ℕ} {now : ℤ} :
    (slotParams C page tz duration maxPerDay now).Checked := by
  obtain ⟨-, -, ⟨-, hdurations⟩, ⟨hbefore, hafter, -⟩, -⟩ := validateCommon_eq_ok.mp h.common
  exact ⟨(hdurations duration hduration).2, hbefore, hafter⟩

/-- The busy fetch is widened by two days at most. -/
theorem PageChecked.widen_le {page : SchedulingPage} (h : PageChecked C page) :
    0 ≤ widen page ∧ widen page ≤ 172800 := by
  obtain ⟨-, -, ⟨hne, hdurations⟩, ⟨hbefore, hafter, -⟩, -⟩ := validateCommon_eq_ok.mp h.common
  have hlongest : page.durationsMins.max?.getD 30 ≤ 480 := by
    cases hmax : page.durationsMins.max? with
    | none => exact absurd (List.max?_eq_none_iff.mp hmax) hne
    | some longest => exact (hdurations longest (List.max?_mem hmax)).2
  rw [widen]
  omega

/-- The bounds of a date before the last one are the ones that were computed before. -/
theorem bounds_eq {tz : Zone} (htz : tz.Ranged) {date : ℤ} (hdate : minDate ≤ date)
    (hlast : date < maxDate) : tz.localDayBounds? date = some (tz.localDayBounds date) ∧
      IsTime (tz.localDayBounds date).1 ∧ IsTime (tz.localDayBounds date).2 := by
  obtain ⟨lo, hi, hbounds, hlo, hhi⟩ := Zone.localDayBounds?_some htz hdate hlast
  have hsame : tz.localDayBounds date = (lo, hi) := Zone.localDayBounds?_eq hbounds
  rw [hsame]
  exact ⟨hbounds, hlo, hhi⟩

section Range

variable {page : SchedulingPage} {tz : Zone} {duration : ℕ} {first last now : ℤ}

variable (exec db last now) in
theorem panics_slotsForRange? (htz : tz.Ranged) (hpage : PageChecked C page)
    (hduration : duration ∈ page.durationsMins) (hfirst : minDate ≤ first) (hle : first ≤ last)
    (hlast : last ≤ maxDate) (hnow : 0 ≤ now) :
    Panics exec (slotsForRange? C page tz duration first last now) db ↔
      last = maxDate ∨ ∃ events bookings db₂ db₃,
        exec (.eventsOverlapping page.accountId ((tz.localDayBounds first).1 - widen page)
          ((tz.localDayBounds last).2 + widen page)) db = (.ok events, db₂) ∧
        exec (.confirmedBookings page.id ((tz.localDayBounds first).1 - widen page)
          ((tz.localDayBounds last).2 + widen page)) db₂ = (.ok bookings, db₃) ∧
        ((∃ b ∈ bookings, ¬tz.Shown b.start) ∨ 2 ^ 63 ≤ now + 60 * page.minNoticeMins) := by
  simp only [slotsForRange?, panics_bind, panics_orPanic, alone_orPanic, panics_calmly,
    alone_calmly, false_or]
  by_cases hend : last = maxDate
  · refine iff_of_true ?_ (.inl hend)
    subst hend
    rw [Zone.localDayBounds?_maxDate]
    cases tz.localDayBounds? first with
    | none => exact .inl rfl
    | some bounds => exact .inr ⟨bounds, db, ⟨rfl, rfl⟩, .inl rfl⟩
  · rw [or_iff_right hend]
    obtain ⟨hbounds, hlo, -⟩ := bounds_eq htz hfirst (by omega)
    obtain ⟨hbounds', -, hhi⟩ := bounds_eq htz (hfirst.trans hle) (by omega)
    obtain ⟨hwiden, hwiden'⟩ := hpage.widen_le
    have hlo' := i64?_some (x := (tz.localDayBounds first).1 - widen page) hlo (by omega) (by omega)
    have hhi' := i64?_some (x := (tz.localDayBounds last).2 + widen page) hhi (by omega) (by omega)
    have hslots : ∀ busy bookedPerDay,
        (slotParams C page tz duration page.maxPerDay now).computeSlots? C.locale C.formatDate first
          last busy bookedPerDay = none ↔ 2 ^ 63 ≤ now + 60 * page.minNoticeMins := by
      intro busy bookedPerDay
      rw [SlotParams.computeSlots?_eq_none htz (hpage.checked hduration) hfirst hle hlast hnow,
        or_iff_left hend]
      rfl
    simp only [hbounds, hbounds', hlo', hhi', hslots, reduceCtorEq, false_or, Option.some.injEq,
      ↓existsAndEq, true_and]
    constructor
    · rintro ⟨events, db₂, hevents, bookings, db₃, hbookings, hday⟩
      refine ⟨events, bookings, db₂, db₃, alone_fetch.mp hevents, alone_fetch.mp hbookings, ?_⟩
      rcases hday with hday | ⟨_, -, hnotice⟩
      · exact .inl (bookedDays?_eq_none.mp hday)
      · exact .inr hnotice
    · rintro ⟨events, bookings, db₂, db₃, hevents, hbookings, hday⟩
      refine ⟨events, db₂, alone_fetch.mpr hevents, bookings, db₃, alone_fetch.mpr hbookings, ?_⟩
      cases hdays : bookedDays? tz bookings with
      | none => exact .inl rfl
      | some days =>
        rcases hday with hday | hnotice
        · rw [bookedDays?_eq_none.mpr hday] at hdays
          cases hdays
        · exact .inr ⟨days, ⟨rfl, trivial⟩, hnotice⟩

end Range

theorem addDays?_eq_none {date days : ℤ} : addDays? date days = none ↔ ¬IsDate (date + days) := by
  rw [addDays?]
  split_ifs <;> simp_all

theorem addDays?_eq_some {date days next : ℤ} :
    addDays? date days = some next ↔ IsDate (date + days) ∧ date + days = next := by
  rw [addDays?]
  split_ifs <;> simp_all

theorem panics_listRange? {page : SchedulingPage} {tz : Zone} {duration : ℕ}
    {today first last now : ℤ} (htz : tz.Ranged) (hpage : PageChecked C page)
    (hduration : duration ∈ page.durationsMins) (htoday : IsDate today) (hfirst : IsDate first)
    (hlast : IsDate last) (hnow : 0 ≤ now) :
    Panics exec (listRange? C page tz duration today first last now) db ↔
      first ≤ last ∧ last - first < maxRangeDays ∧
        ¬RangeSafe exec page tz db today first last now := by
  simp only [listRange?, panics_bind, panics_orPanic, alone_orPanic, panics_calmly, alone_calmly,
    false_or, alone_demand, panics_return, and_false, exists_false, or_false, addDays?_eq_none,
    addDays?_eq_some]
  have hhorizon : IsDate (today + maxHorizonDays) ↔ today + maxHorizonDays ≤ maxDate := by
    refine ⟨fun h => h.2, fun h => ⟨?_, h⟩⟩
    have hstart := htoday.1
    rw [maxHorizonDays]
    omega
  have hslots := panics_slotsForRange? exec db last now htz hpage hduration hfirst.1
  constructor
  · rintro ⟨_, _, ⟨hrange, rfl⟩, hpanic⟩
    rw [not_or, not_lt, not_le] at hrange
    refine ⟨hrange.1, hrange.2, fun hsafe => ?_⟩
    rcases hpanic with hfar | ⟨horizon, _, ⟨⟨-, rfl⟩, rfl⟩, _, _, ⟨hle, rfl⟩, hpanic⟩
    · exact hfar (hhorizon.mpr hsafe.horizon)
    · rcases (hslots hrange.1 hlast.2 hnow).mp hpanic with
        rfl | ⟨events, bookings, db₂, db₃, hevents, hbookings, hday⟩
      · exact absurd (hsafe.before (not_lt.mp hle)) (lt_irrefl _)
      · obtain ⟨hshown, hnotice⟩ := hsafe.fetched (not_lt.mp hle) _ _ _ _ hevents hbookings
        rcases hday with ⟨b, hb, hno⟩ | hlate
        · exact hno (hshown b hb)
        · exact absurd hnotice (not_lt.mpr hlate)
  · rintro ⟨hle, hrange, hunsafe⟩
    refine ⟨(), db, ⟨not_or.mpr ⟨not_lt.mpr hle, not_le.mpr hrange⟩, rfl⟩, ?_⟩
    by_cases hnear : IsDate (today + maxHorizonDays)
    swap
    · exact .inl hnear
    refine .inr ⟨_, db, ⟨⟨hnear, rfl⟩, rfl⟩, (), db, ⟨?_, rfl⟩, ?_⟩
    · intro hlate
      exact hunsafe ⟨hnear.2, fun h => absurd h (not_le.mpr hlate),
        fun h => absurd h (not_le.mpr hlate)⟩
    · refine (hslots hle hlast.2 hnow).mpr (by_contra fun h => hunsafe ?_)
      rw [not_or] at h
      refine ⟨hnear.2, fun _ => lt_of_le_of_ne hlast.2 h.1, ?_⟩
      intro _ events bookings db₂ db₃ hevents hbookings
      refine ⟨fun b hb => ?_, ?_⟩
      · by_contra hno
        exact h.2 ⟨events, bookings, db₂, db₃, hevents, hbookings, .inl ⟨b, hb, hno⟩⟩
      · by_contra hlate
        exact h.2 ⟨events, bookings, db₂, db₃, hevents, hbookings, .inr (not_lt.mp hlate)⟩

theorem panics_queryLast? {query : Option (Option ℤ)} {first : ℤ} (hfirst : IsDate first) :
    Panics exec (queryLast? query first) db ↔ query = none ∧ maxDate < first + 13 := by
  cases query with
  | none =>
    rw [queryLast?, panics_orPanic, addDays?_eq_none, IsDate, and_iff_right rfl]
    have hstart := hfirst.1
    omega
  | some last =>
    rw [queryLast?, panics_calmly]
    simp

theorem alone_queryLast? {query : Option (Option ℤ)} {first last : ℤ} {db' : ScheduleDb}
    (hfirst : IsDate first) (hend : query = none → first + 13 ≤ maxDate) :
    (queryLast? query first).run.alone exec db = (.ok last, db') ↔
      query.getD (some (first + 13)) = some last ∧ db = db' := by
  cases query with
  | none =>
    have hdate : IsDate (first + 13) := by
      have hstart := hfirst.1
      exact ⟨by omega, hend rfl⟩
    simp [queryLast?, alone_orPanic, addDays?_eq_some, hdate]
  | some last' => simp [queryLast?, alone_calmly, alone_valueOr]

/-- A page has a first duration. -/
theorem PageChecked.head? {page : SchedulingPage} (h : PageChecked C page) :
    page.durationsMins.head? = some (page.durationsMins.headD 0) := by
  obtain ⟨-, -, ⟨hne, -⟩, -⟩ := validateCommon_eq_ok.mp h.common
  cases hdurations : page.durationsMins with
  | nil => exact absurd hdurations hne
  | cons d ds => rfl

theorem isDate_of_query {query : Option (Option ℤ)} {default date : ℤ}
    (hquery : ∀ d, query = some (some d) → IsDate d) (hdefault : query = none → IsDate default)
    (h : query.getD (some default) = some date) : IsDate date := by
  cases query with
  | none =>
    obtain rfl := Option.some.inj h
    exact hdefault rfl
  | some d =>
    obtain rfl : d = some date := h
    exact hquery date rfl

/-- **The list of slots** panics exactly if its dates and the clock are not safe. -/
theorem panics_slotsJson? (hzones : ∀ name, ∀ tz ∈ C.zone name, tz.Ranged) {slug : String}
    (hpages : ∀ page db', exec (.pageBySlug slug) db = (.ok (some page), db') → PageChecked C page)
    {query : SlotsQuery} (hquery : Typed (.slots slug query)) :
    Panics exec (slotsJson? C slug query) db ↔ ¬SlotsSafe C exec db slug query := by
  obtain ⟨hnow, hfirsts, hlasts⟩ := hquery
  simp only [slotsJson?, panics_bind, panics_orPanic, alone_orPanic, panics_calmly,
    alone_calmly, false_or, alone_demand, alone_activePage?, pageTz, queryDate, alone_valueOr]
  constructor
  · rintro ⟨_, _, ⟨hallowed, rfl⟩, page, db₁, ⟨hfound, hactive⟩, tz, _, ⟨hzone, rfl⟩, hpanic⟩
    intro hsafe
    have hpage := hpages page db₁ hfound
    obtain ⟨hshown, hsafe⟩ := hsafe hallowed page tz db₁ ⟨hfound, hactive, hzone⟩
    rcases hpanic with hno | ⟨today, _, ⟨htoday, rfl⟩, hno | ⟨d, _, ⟨hhead, rfl⟩, _, _,
      ⟨hduration, rfl⟩, first, _, ⟨hfirst, rfl⟩, hpanic⟩⟩
    · exact Zone.todayIn?_eq_none.mp hno hshown
    · rw [hpage.head?] at hno
      cases hno
    · obtain rfl := Option.some.inj (hpage.head?.symm.trans hhead)
      obtain ⟨hend, hsafe⟩ := hsafe today htoday hduration first hfirst
      have hday := isDate_todayIn? htoday
      have hfirst' := isDate_of_query hfirsts (fun _ => hday) hfirst
      rcases hpanic with hpanic | ⟨last, _, hread, hpanic⟩
      · obtain ⟨hnone, hlate⟩ := (panics_queryLast? hfirst').mp hpanic
        exact absurd (hend hnone) (not_le.mpr hlate)
      · obtain ⟨hlast, rfl⟩ := (alone_queryLast? hfirst' hend).mp hread
        have hlast' := isDate_of_query hlasts
          (fun hnone => ⟨by linarith [hfirst'.1], hend hnone⟩) hlast
        obtain ⟨hle, hrange, hunsafe⟩ := (panics_listRange? (hzones _ tz hzone) hpage hduration hday
          hfirst' hlast' hnow).mp hpanic
        exact hunsafe (hsafe last hlast hle hrange)
  · intro hunsafe
    by_contra hno
    refine hunsafe fun hallowed page tz db₁ hfinds => ?_
    have hpage := hpages page db₁ hfinds.found
    -- the way to the arithmetic
    have hway := fun h => hno ⟨(), db, ⟨hallowed, rfl⟩, page, db₁, ⟨hfinds.found, hfinds.active⟩, tz,
      db₁, ⟨hfinds.zone, rfl⟩, h⟩
    refine ⟨?_, fun today htoday hduration first hfirst => ?_⟩
    · by_contra hhidden
      exact hway (.inl (Zone.todayIn?_eq_none.mpr hhidden))
    have hday := isDate_todayIn? htoday
    have hfirst' := isDate_of_query hfirsts (fun _ => hday) hfirst
    have hway' := fun h => hway (.inr ⟨today, db₁, ⟨htoday, rfl⟩, .inr ⟨_, db₁, ⟨hpage.head?, rfl⟩,
      (), db₁, ⟨hduration, rfl⟩, first, db₁, ⟨hfirst, rfl⟩, h⟩⟩)
    have hend : query.last = none → first + 13 ≤ maxDate := by
      intro hnone
      by_contra hlate
      exact hway' (.inl ((panics_queryLast? hfirst').mpr ⟨hnone, not_le.mp hlate⟩))
    refine ⟨hend, fun last hlast hle hrange => ?_⟩
    have hlast' := isDate_of_query hlasts
      (fun hnone => ⟨by linarith [hfirst'.1], hend hnone⟩) hlast
    by_contra hunsafe'
    exact hway' (.inr ⟨last, db₁, (alone_queryLast? hfirst' hend).mpr ⟨hlast, rfl⟩,
      (panics_listRange? (hzones _ tz hfinds.zone) hpage hduration hday hfirst' hlast' hnow).mpr
        ⟨hle, hrange, hunsafe'⟩⟩)

/-! ### The booking -/

section Booking

variable {page : SchedulingPage} {tz : Zone}

/-- A slot of a date before the last one starts in the calendar. -/
theorem isTime_of_onGrid (htz : tz.Ranged) {duration : ℕ} {now date : ℤ} {s : Slot}
    (hdate : minDate ≤ date) (hlast : date < maxDate) (h : OnGrid C duration now page tz date s) :
    IsTime s.start := by
  obtain ⟨-, window, hwindow, wall, -, hwall, hstart⟩ := h.minute
  obtain ⟨t, ht, htime⟩ := Zone.minute?_some htz hdate hlast
    (hwall.trans (SlotParams.window_lt hwindow))
  rw [hstart, Zone.minute?_eq ht]
  exact htime

theorem bookRequest?_some (htz : tz.Ranged) (hpage : PageChecked C page) (owner : OwnerRow)
    (body : BookBody) (slot : Slot) {day : ℤ} (hday : minDate ≤ day) (hlast : day < maxDate)
    (hstart : IsTime slot.start) (hle : slot.start ≤ slot.stop)
    (hstop : slot.stop ≤ slot.start + 28800) :
    ∃ req, bookRequest? page tz owner body day slot = some req := by
  obtain ⟨-, -, -, ⟨hbefore, hafter, -⟩, -⟩ := validateCommon_eq_ok.mp hpage.common
  have hlo := i64?_some (x := slot.start - 60 * page.bufferBeforeMins) hstart (by omega) (by omega)
  have hhi := i64?_some (x := slot.stop + 60 * page.bufferAfterMins) hstart (by omega) (by omega)
  obtain ⟨hbounds, -⟩ := bounds_eq htz hday hlast
  simp only [bookRequest?, Option.bind_eq_bind, hlo, hhi, hbounds, Option.bind_some]
  exact ⟨_, rfl⟩

/-- The start of a booking is on a date before the last one. -/
theorem startSafe_iff {start : ℤ} :
    (IsTime start → 86400 * minDate ≤ tz.localOf start ∧ tz.localOf start < 86400 * maxDate) ↔
      tz.Shown start ∧ ∀ day, tz.todayIn? start = some day → day < maxDate := by
  rw [Zone.todayIn?, Zone.Shown]
  by_cases htime : IsTime start
  · rw [if_pos htime]
    constructor
    · intro h
      obtain ⟨hlo, hhi⟩ := h htime
      have hlocal : IsTime (tz.localOf start) := ⟨hlo, by omega⟩
      refine ⟨fun _ => hlocal, fun day hday => ?_⟩
      rw [if_pos hlocal, Zone.todayIn] at hday
      obtain rfl := Option.some.inj hday
      omega
    · rintro ⟨hshown, hday⟩ _
      have hlocal := hshown htime
      have hlt := hday _ (if_pos hlocal)
      rw [Zone.todayIn] at hlt
      exact ⟨hlocal.1, by omega⟩
  · refine iff_of_true (fun h => absurd h htime) ⟨fun h => absurd h htime, fun day hday => ?_⟩
    rw [if_neg htime] at hday
    obtain rfl := Option.some.inj hday
    rw [maxDate_eq]
    decide

/-- **The booking** panics exactly if its start and the clock are not safe. -/
theorem panics_book? (hzones : ∀ name, ∀ tz ∈ C.zone name, tz.Ranged) {slug : String}
    (hpages : ∀ page db', exec (.pageBySlug slug) db = (.ok (some page), db') → PageChecked C page)
    {post : BookPost} (hpost : Typed (.book slug post)) :
    Panics exec (book? C slug post) db ↔ ¬BookSafe C exec db slug post := by
  simp only [book?, panics_bind, panics_orPanic, alone_orPanic, panics_calmly,
    alone_calmly, false_or, alone_demand, alone_activePage?, pageTz, alone_valueOr, alone_body,
    or_false, and_false, exists_false]
  constructor
  · rintro ⟨_, _, ⟨hallowed, rfl⟩, body, _, ⟨hbody, rfl⟩, _, _, ⟨hvisitor, rfl⟩, page, db₁,
      ⟨hfound, hactive⟩, tz, _, ⟨hzone, rfl⟩, _, _, ⟨hduration, rfl⟩, hpanic⟩ hsafe
    have hpage := hpages page db₁ hfound
    have htz := hzones _ tz hzone
    obtain ⟨hstart, hnotice⟩ := hsafe hallowed body hbody hvisitor page tz db₁
      ⟨hfound, hactive, hzone⟩ hduration
    obtain ⟨hshown, hbefore⟩ := startSafe_iff.mp hstart
    rcases hpanic with hno | ⟨day, _, ⟨hday, rfl⟩, hpanic⟩
    · exact Zone.todayIn?_eq_none.mp hno hshown
    have hdate := isDate_todayIn? hday
    have hlast := hbefore day hday
    rcases hpanic with hpanic | ⟨valid, _, ⟨hvalid, rfl⟩, slot, _, ⟨hpick, rfl⟩, _, _, -, owner, _,
      ⟨-, rfl⟩, hpanic⟩
    · rcases (SlotParams.computeSlots?_eq_none htz (hpage.checked hduration) hdate.1 le_rfl hdate.2
        hpost).mp hpanic with hlate | hend
      · exact absurd hnotice (not_lt.mpr hlate)
      · exact absurd hlast (not_lt.mpr hend.ge)
    · have hgrid : OnGrid C body.durationMins post.now page tz day slot := by
        have hmem := List.mem_of_find?_eq_some hpick
        rwa [← SlotParams.computeSlots?_eq hvalid] at hmem
      have hlong := (validateCommon_eq_ok.mp hpage.common).2.2.1.2 body.durationMins hduration
      have hstop := hgrid.stop_eq
      have htime := isTime_of_onGrid htz hdate.1 hlast hgrid
      obtain ⟨req, hreq⟩ := bookRequest?_some htz hpage owner body slot hdate.1 hlast htime
        (by omega) (by omega)
      rw [hreq] at hpanic
      cases hpanic
  · intro hunsafe
    by_contra hno
    refine hunsafe fun hallowed body hbody hvisitor page tz db₁ hfinds hduration => ?_
    have hpage := hpages page db₁ hfinds.found
    have htz := hzones _ tz hfinds.zone
    have hway := fun h => hno ⟨(), db, ⟨hallowed, rfl⟩, body, db, ⟨hbody, rfl⟩, (), db,
      ⟨hvisitor, rfl⟩, page, db₁, ⟨hfinds.found, hfinds.active⟩, tz, db₁, ⟨hfinds.zone, rfl⟩, (),
      db₁, ⟨hduration, rfl⟩, h⟩
    have hshown : tz.Shown body.start := by
      by_contra hhidden
      exact hway (.inl (Zone.todayIn?_eq_none.mpr hhidden))
    have hslots : ∀ day, tz.todayIn? body.start = some day →
        ¬(2 ^ 63 ≤ post.now + 60 * (page.minNoticeMins : ℤ) ∨ day = maxDate) := by
      intro day hday hlate
      have hdate := isDate_todayIn? hday
      refine hway (.inr ⟨day, db₁, ⟨hday, rfl⟩, .inl ?_⟩)
      exact (SlotParams.computeSlots?_eq_none htz (hpage.checked hduration) hdate.1 le_rfl hdate.2
        hpost).mpr hlate
    refine ⟨startSafe_iff.mpr ⟨hshown, fun day hday => ?_⟩, ?_⟩
    · have hend := (not_or.mp (hslots day hday)).2
      exact lt_of_le_of_ne (isDate_todayIn? hday).2 hend
    · cases hday : tz.todayIn? body.start with
      | none => exact absurd hshown (Zone.todayIn?_eq_none.mp hday)
      | some day => exact not_le.mp (not_or.mp (hslots day hday)).1

end Booking

/-- **A request is answered** exactly if it can be counted with. -/
theorem answers_iff (hzones : ∀ name, ∀ tz ∈ C.zone name, tz.Ranged)
    (hpages : ∀ slug page db', exec (.pageBySlug slug) db = (.ok (some page), db') →
      PageChecked C page) (r : ScheduleRequest) (hr : Typed r) :
    ¬Panics exec (publicHandle? C r) db ↔ Safe C exec db r := by
  cases r with
  | slots slug query =>
    rw [publicHandle?, panics_slotsJson? hzones (hpages slug) hr, not_not]
    rfl
  | book slug post =>
    rw [publicHandle?, panics_book? hzones (hpages slug) hr, not_not]
    rfl
  | createAccount row => exact iff_of_true (fun h => panics_return.mp h) trivial
  | store op => exact iff_of_true (fun h => panics_return.mp h) trivial

end Answers


/-! ## Requests at the end of the calendar -/

/-- A clock with a fixed offset, on the instants and times of `chrono`. -/
def Zone.ranged (offset : ℤ) : Zone where
  localOf t := if IsTime t then t + offset else offset
  fromLocal w := if IsTime (w - offset) then .single (w - offset) else .none
  shows w t h := by
    split_ifs at h with hw
    · obtain rfl : w - offset = t := Option.some.inj h
      rw [if_pos hw]
      omega
    · cases h
  skipped w h t := by
    have hzero : IsTime 0 := by decide +kernel
    split_ifs at h with hw
    split_ifs with ht
    · rintro rfl
      exact hw (by rwa [Int.add_sub_cancel])
    · rintro rfl
      exact hw (by rwa [Int.sub_self])

theorem Zone.ranged_ranged (offset : ℤ) : (Zone.ranged offset).Ranged := by
  intro w t h
  simp only [Zone.ranged] at h
  split_ifs at h with hw
  · obtain rfl : w - offset = t := Option.some.inj h
    exact hw
  · cases h

/-- A server that knows UTC and Tokyo. -/
def tokyoCrates : ScheduleCrates :=
  { calendarCrates with
    zone := fun name =>
      if name = "UTC" then some (.ranged 0)
      else if name = "Asia/Tokyo" then some (.ranged 32400) else none
    locale := ⟨fun s => s = "UTC" ∨ s = "Asia/Tokyo", utcCrates.locale.printable⟩ }

theorem ranged_tokyoCrates : ∀ name, ∀ tz ∈ tokyoCrates.zone name, tz.Ranged := by
  intro name tz htz
  simp only [tokyoCrates] at htz
  split_ifs at htz
  · obtain rfl := Option.some.inj htz
    exact Zone.ranged_ranged 0
  · obtain rfl := Option.some.inj htz
    exact Zone.ranged_ranged 32400
  · cases htz

/-- Alice's page in Tokyo. -/
def tokyoPage : SchedulingPage := { weekdays.row ⟨3⟩ alice 0 with timezone := "Asia/Tokyo" }

theorem checked_tokyoPage (fresh : BookingFresh) : ∀ slug page db',
    calm tokyoCrates fresh (.pageBySlug slug) (soleDb tokyoPage) = (.ok (some page), db') →
      PageChecked tokyoCrates page := by
  intro slug page db' h
  have hfound : (soleDb tokyoPage).pageBySlug slug = some page :=
    Except.ok.inj (congrArg Prod.fst h)
  obtain rfl := List.mem_singleton.mp (List.mem_of_find?_eq_some hfound)
  exact ⟨rfl, by decide⟩

theorem answers_iff_tokyoPage :
    ¬Panics (calm tokyoCrates ⟨⟨0⟩, ⟨0⟩, "", 0⟩)
        (publicHandle? tokyoCrates (.slots "meet-alice" ⟨true, 0, none, none, none⟩))
        (soleDb tokyoPage) ↔
      Safe tokyoCrates (calm tokyoCrates ⟨⟨0⟩, ⟨0⟩, "", 0⟩) (soleDb tokyoPage)
        (.slots "meet-alice" ⟨true, 0, none, none, none⟩) :=
  answers_iff ranged_tokyoCrates (checked_tokyoPage _) _ ⟨le_rfl, nofun, nofun⟩

/-- **Two requests that panic**: the list from the last date on, and a booking of the last second,
which is a date later in Tokyo. -/
theorem panics_tokyoPage :
    Panics (calm tokyoCrates ⟨⟨0⟩, ⟨0⟩, "", 0⟩)
        (publicHandle? tokyoCrates (.slots "meet-alice" ⟨true, 0, some (some maxDate), none, none⟩))
        (soleDb tokyoPage) ∧
      Panics (calm tokyoCrates ⟨⟨0⟩, ⟨0⟩, "", 0⟩)
        (publicHandle? tokyoCrates (.book "meet-alice" ⟨true, 0, .ok ⟨8210266876799, 30, "Bob",
          "bob@remote.test", none⟩⟩)) (soleDb tokyoPage) :=
  ⟨rfl, rfl⟩

theorem not_answers : ¬∀ (C : ScheduleCrates)
    (exec : (o : ScheduleOp) → ScheduleDb → o.Ret × ScheduleDb) (db : ScheduleDb),
    (∀ name, ∀ tz ∈ C.zone name, tz.Ranged) →
    (∀ slug page db', exec (.pageBySlug slug) db = (.ok (some page), db') → PageChecked C page) →
    ∀ r, Typed r → ¬Panics exec (publicHandle? C r) db := by
  intro h
  refine h tokyoCrates _ (soleDb tokyoPage) ranged_tokyoCrates (checked_tokyoPage _) _ ?_
    panics_tokyoPage.1
  refine ⟨le_rfl, fun date hdate => ?_, nofun⟩
  obtain rfl := Option.some.inj (Option.some.inj hdate)
  exact ⟨by rw [minDate_eq, maxDate_eq]; decide, le_rfl⟩
end Owney.Schedule
