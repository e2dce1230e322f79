import Owney.AcceptedDates
import Owney.Lib.Repeats

/-!
# The grid of a page

What `compute_slots` should return is a proper grid (`Proper`): starts that increase, meetings
that do not overlap, each inside one of its date's windows, and nothing left out. The walk goes
by wall-clock minutes, though, and what it returns are instants.

* `pairwise_computeSlots` — the order of the slots, from the room between the times on offer.
* `Paced` — the clock keeps pace with the grids: where it skips a time, the times of the grid
  around it are resolved to one instant.
* `proper_of_paced` — the grid is proper if it does, and where it does not from one time on offer
  to the next, the grid is not proper.
-/

namespace Owney.Schedule

open Intervals Repeats

namespace SlotParams

variable (p : SlotParams) (L : Locale) (formatDate : ℤ → String) (first last : ℤ)
  (busy : List (ℤ × ℤ)) (bookedPerDay : ℤ → ℕ)

/-! ## Proper grids -/

/-- A slot inside one of the windows of a date. -/
def Inside (date : ℤ) (s : Slot) : Prop :=
  ∃ window ∈ windowsForDate L formatDate p.availability date,
    p.tz.minute date window.1 ≤ s.start ∧ s.stop ≤ p.tz.minute date window.2

/-- A time of the dates' grids at which a meeting can be: it ends with its window, it respects
the notice, and nothing busy is in its way. -/
structure Offered (date : ℤ) (window : ℕ × ℕ) (wall : ℕ) : Prop where
  first_le : first ≤ date
  le_last : date ≤ last
  valid : ¬p.Invalid date
  notFull : ¬p.Full bookedPerDay date
  window_mem : window ∈ windowsForDate L formatDate p.availability date
  wall_mem : wall ∈ walls window.1 window.2 p.durationMins
  ends : (p.slot (p.tz.minute date wall)).stop ≤ p.tz.minute date window.2
  notice : p.now + 60 * p.minNoticeMins ≤ p.tz.minute date wall
  free : ∀ b ∈ busy, ¬Overlaps (p.widened (p.slot (p.tz.minute date wall))) b

/-- A proper grid for the dates of a range; the date of a slot is the one it starts on. -/
structure Proper (slots : List Slot) : Prop where
  increasing : (slots.map (·.start)).Pairwise (· < ·)
  apart : ∀ s ∈ slots, ∀ s' ∈ slots, s ≠ s' → p.tz.todayIn s.start = p.tz.todayIn s'.start →
    ¬Overlaps (s.start, s.stop) (s'.start, s'.stop)
  length : ∀ s ∈ slots, s.stop - s.start = 60 * p.durationMins
  inside : ∀ s ∈ slots, p.Inside L formatDate (p.tz.todayIn s.start) s
  notice : ∀ s ∈ slots, p.now + 60 * p.minNoticeMins ≤ s.start
  valid : ∀ s ∈ slots, ¬p.Invalid (p.tz.todayIn s.start)
  free : ∀ s ∈ slots, ∀ b ∈ busy, ¬Overlaps (p.widened s) b
  complete : ∀ date window wall,
    p.Offered L formatDate first last busy bookedPerDay date window wall →
      p.tz.fromLocal (86400 * date + 60 * wall) ≠ .none → p.slot (p.tz.minute date wall) ∈ slots

/-! ## Room between the times -/

/-- From one time of a window to another, the clock is moved to one instant. -/
def Together (date : ℤ) (window : ℕ × ℕ) (wall wall' : ℕ) : Prop :=
  ∀ z ∈ walls window.1 window.2 p.durationMins, wall ≤ z → z ≤ wall' →
    p.tz.minute date z = p.tz.minute date wall

/-- From one wall-clock time to another, as the clock shows it. -/
def between (date : ℤ) (wall : ℕ) (date' : ℤ) (wall' : ℕ) : ℤ :=
  86400 * date' + 60 * wall' - (86400 * date + 60 * wall)

/-- How much of that the clock skips, by its gaps and by the moves out of them. -/
def skip (date : ℤ) (wall : ℕ) (date' : ℤ) (wall' : ℕ) : ℤ :=
  between date wall date' wall' - (p.tz.minute date' wall' - p.tz.minute date wall)

/-- Every time on offer is resolved into a window of a valid date; and from one time on offer to
a later one the clock does not skip all the time there is, and on one date no more than the time
from the end of the first meeting on, unless the two are resolved together. -/
structure Roomy : Prop where
  home : ∀ date window wall,
    p.Offered L formatDate first last busy bookedPerDay date window wall →
      ¬p.Invalid (p.tz.todayIn (p.tz.minute date wall)) ∧
        p.Inside L formatDate (p.tz.todayIn (p.tz.minute date wall))
          (p.slot (p.tz.minute date wall))
  room : ∀ date window wall date' window' wall',
    p.Offered L formatDate first last busy bookedPerDay date window wall →
      p.Offered L formatDate first last busy bookedPerDay date' window' wall' →
        date < date' ∨ date = date' ∧ wall < wall' →
          (date = date' ∧ window = window' ∧ p.Together date window wall wall') ∨
            p.skip date wall date' wall' < between date wall date' wall' ∧
              (p.tz.todayIn (p.tz.minute date wall) = p.tz.todayIn (p.tz.minute date' wall') →
                p.skip date wall date' wall' ≤
                  between date wall date' wall' - 60 * p.durationMins)

/-- One slot before another, and on one date over before it. -/
def Before (s s' : Slot) : Prop :=
  s.start < s'.start ∧ (p.tz.todayIn s.start = p.tz.todayIn s'.start → s.stop ≤ s'.start)

variable {p L formatDate first last busy bookedPerDay} {date date' : ℤ} {window window' : ℕ × ℕ}
  {wall wall' : ℕ}

/-- The room between two times, read off the instants. -/
theorem before_iff : p.Before (p.slot (p.tz.minute date wall)) (p.slot (p.tz.minute date' wall')) ↔
    p.skip date wall date' wall' < between date wall date' wall' ∧
      (p.tz.todayIn (p.tz.minute date wall) = p.tz.todayIn (p.tz.minute date' wall') →
        p.skip date wall date' wall' ≤ between date wall date' wall' - 60 * p.durationMins) := by
  simp only [Before, slot, skip]
  refine and_congr ?_ (imp_congr_right fun _ => ?_)
  · omega
  · omega

/-! ## Walls and windows -/

theorem pairwise_walls {start stop duration : ℕ} (hd : 0 < duration) :
    (walls start stop duration).Pairwise (· < ·) := by
  rw [walls, List.pairwise_map]
  refine List.pairwise_lt_range.imp fun {i j} hij => ?_
  have hmul := Nat.mul_lt_mul_of_pos_left hij hd
  omega

theorem slotStarts_eq (minute : ℕ → ℤ) (last : Option ℤ) (ws : List ℕ) :
    slotStarts minute last ws = (kept minute last ws).map minute := by
  induction ws generalizing last with
  | nil => rfl
  | cons wall ws ih =>
    rw [slotStarts, kept, ih, ih]
    split_ifs <;> rfl

/-- The windows of a day, once they are checked, come one after the other. -/
theorem validateWindows_sorted {previousEnd : ℕ} {ws : List TimeWindow} {u : Unit}
    (h : validateWindows L previousEnd ws = .ok u) :
    (ws.filterMap fun w => (w.parseMinutes L).toOption).Pairwise (fun w w' => w.2 ≤ w'.1) ∧
      ∀ w ∈ ws.filterMap fun w => (w.parseMinutes L).toOption, previousEnd ≤ w.1 ∧ w.1 < w.2 := by
  induction ws generalizing previousEnd with
  | nil => simp
  | cons w ws ih =>
    rw [validateWindows, check_bind] at h
    obtain ⟨⟨start, stop⟩, hparse, h⟩ := h
    simp only [check_bind, check_eq_ok] at h
    obtain ⟨_, hlt, _, hle, hrest⟩ := h
    obtain ⟨hsorted, hbounds⟩ := ih hrest
    rw [List.filterMap_cons_some (b := (start, stop)) (by rw [hparse]; rfl)]
    refine ⟨List.pairwise_cons.mpr ⟨fun w' hw' => (hbounds w' hw').1, hsorted⟩, ?_⟩
    rw [List.forall_mem_cons]
    refine ⟨⟨hle, hlt⟩, fun w' hw' => ?_⟩
    obtain ⟨hge, hlt'⟩ := hbounds w' hw'
    exact ⟨by omega, hlt'⟩

theorem windows_sorted {availability : Availability} {u : Unit}
    (h : availability.validate L = .ok u) (date : ℤ) :
    (windowsForDate L formatDate availability date).Pairwise fun w w' => w.2 ≤ w'.1 := by
  obtain ⟨-, -, -, hwindows⟩ := validate_eq_ok.mp h
  simp only [windowsForDate]
  cases hfound : (availability.overrides.lookup (formatDate date)).or
      (availability.weekly.lookup (weekdayKey date)) with
  | none => exact List.Pairwise.nil
  | some ws =>
    have hmem : ∃ key, (key, ws) ∈ availability.weekly ++ availability.overrides := by
      rcases Option.or_eq_some_iff.mp hfound with h | ⟨-, h⟩
      · obtain ⟨as, bs, hsplit, -⟩ := List.lookup_eq_some_iff.mp h
        exact ⟨formatDate date, by simp [hsplit]⟩
      · obtain ⟨as, bs, hsplit, -⟩ := List.lookup_eq_some_iff.mp h
        exact ⟨weekdayKey date, by simp [hsplit]⟩
    obtain ⟨key, hmem⟩ := hmem
    exact (validateWindows_sorted (hwindows _ hmem)).1

/-- Of two windows of a date, the one that starts first is over when the other one starts. -/
theorem stop_le_start (hvalid : p.availability.validate L = .ok ())
    (hwindow : window ∈ windowsForDate L formatDate p.availability date)
    (hwindow' : window' ∈ windowsForDate L formatDate p.availability date)
    (hne : window ≠ window') (hlt : window.1 < window'.2) : window.2 ≤ window'.1 := by
  have hsorted : (windowsForDate L formatDate p.availability date).Pairwise _ :=
    windows_sorted hvalid date
  exact List.pairwise_iff_forall_sublist.mp hsorted
    (pair_sublist hsorted hwindow hwindow' hne (not_le.mpr hlt))

theorem pairwise_dates : (dates first last).Pairwise (· < ·) := by
  rw [dates, List.pairwise_map]
  refine List.pairwise_lt_range.imp fun {i j} hij => ?_
  omega

theorem mem_slotStarts_iff {minute : ℕ → ℤ} {start : ℤ} {ws : List ℕ} :
    start ∈ slotStarts minute none ws ↔ ∃ wall ∈ ws, start = minute wall := by
  refine ⟨mem_slotStarts, ?_⟩
  rintro ⟨wall, hwall, rfl⟩
  have hmem : minute wall ∈ (none : Option ℤ).toList ++ (kept minute none ws).map minute :=
    value_mem hwall
  rwa [slotStarts_eq]

section Open

variable (hfirst : first ≤ date) (hlast : date ≤ last) (hvalid : ¬p.Invalid date)
  (hfull : ¬p.Full bookedPerDay date)
  (hwindow : window ∈ windowsForDate L formatDate p.availability date)

include hfirst hlast hvalid hfull hwindow in
/-- The checks of the loop, on a date that is not left out. -/
theorem offered_iff (hwall : wall ∈ walls window.1 window.2 p.durationMins) :
    ((p.slot (p.tz.minute date wall)).stop ≤ p.tz.minute date window.2 ∧
        p.now + 60 * p.minNoticeMins ≤ (p.slot (p.tz.minute date wall)).start ∧
          ∀ b ∈ busy, ¬Overlaps (p.widened (p.slot (p.tz.minute date wall))) b) ↔
      p.Offered L formatDate first last busy bookedPerDay date window wall := by
  constructor
  · rintro ⟨hends, hnotice, hfree⟩
    exact ⟨hfirst, hlast, hvalid, hfull, hwindow, hwall, hends, hnotice, hfree⟩
  · exact fun h => ⟨h.ends, h.notice, h.free⟩

include hfirst hlast hvalid hfull hwindow in
theorem mem_windowSlots_iff {s : Slot} : s ∈ p.windowSlots date busy window ↔
    ∃ wall, p.Offered L formatDate first last busy bookedPerDay date window wall ∧
      s = p.slot (p.tz.minute date wall) := by
  simp only [windowSlots, List.mem_filter, List.mem_map, mem_slotStarts_iff, decide_eq_true_eq]
  constructor
  · rintro ⟨⟨_, ⟨wall, hwall, rfl⟩, rfl⟩, hs⟩
    exact ⟨wall, (offered_iff hfirst hlast hvalid hfull hwindow hwall).mp hs, rfl⟩
  · rintro ⟨wall, h, rfl⟩
    exact ⟨⟨_, ⟨wall, h.wall_mem, rfl⟩, rfl⟩, h.ends, h.notice, h.free⟩

include hfirst hlast in
theorem mem_dateSlots_iff {s : Slot} :
    s ∈ p.dateSlots L formatDate busy bookedPerDay date ↔ ∃ window wall,
      p.Offered L formatDate first last busy bookedPerDay date window wall ∧
        s = p.slot (p.tz.minute date wall) := by
  rw [dateSlots]
  split_ifs with hvalid hfull
  · exact iff_of_false List.not_mem_nil fun ⟨_, _, h, _⟩ => h.valid hvalid
  · exact iff_of_false List.not_mem_nil fun ⟨_, _, h, _⟩ => h.notFull hfull
  · rw [List.mem_flatMap]
    refine exists_congr fun window => ?_
    constructor
    · rintro ⟨hwindow, hs⟩
      exact (mem_windowSlots_iff hfirst hlast hvalid hfull hwindow).mp hs
    · rintro ⟨wall, h, hs⟩
      have hwindow := h.window_mem
      exact ⟨hwindow, (mem_windowSlots_iff hfirst hlast hvalid hfull hwindow).mpr ⟨wall, h, hs⟩⟩

end Open

/-- **The slots** are the meetings at the times on offer. -/
theorem mem_computeSlots_iff {s : Slot} :
    s ∈ p.computeSlots L formatDate first last busy bookedPerDay ↔
      ∃ date window wall, p.Offered L formatDate first last busy bookedPerDay date window wall ∧
        s = p.slot (p.tz.minute date wall) := by
  rw [computeSlots, List.mem_flatMap]
  refine exists_congr fun date => ?_
  rw [mem_dates]
  constructor
  · rintro ⟨⟨hfirst, hlast⟩, hs⟩
    exact (mem_dateSlots_iff hfirst hlast).mp hs
  · rintro ⟨window, wall, h, hs⟩
    exact ⟨⟨h.first_le, h.le_last⟩, (mem_dateSlots_iff h.first_le h.le_last).mpr ⟨_, _, h, hs⟩⟩

/-! ## The order of the slots -/

section Order

variable (hvalid : p.availability.validate L = .ok ()) (hd : 0 < p.durationMins)
  (h : p.Roomy L formatDate first last busy bookedPerDay)

include h in
/-- Two times on offer that are not resolved together. -/
theorem Roomy.before
    (hx : p.Offered L formatDate first last busy bookedPerDay date window wall)
    (hy : p.Offered L formatDate first last busy bookedPerDay date' window' wall')
    (hlt : date < date' ∨ date = date' ∧ wall < wall')
    (hne : ¬(date = date' ∧ window = window' ∧ p.Together date window wall wall')) :
    p.Before (p.slot (p.tz.minute date wall)) (p.slot (p.tz.minute date' wall')) :=
  before_iff.mpr ((h.room _ _ _ _ _ _ hx hy hlt).resolve_left hne)

include hd h in
theorem pairwise_windowSlots (hnotFull : ¬p.Full bookedPerDay date) (hdate : ¬p.Invalid date)
    (hfirst : first ≤ date) (hlast : date ≤ last)
    (hwindow : window ∈ windowsForDate L formatDate p.availability date) :
    (p.windowSlots date busy window).Pairwise p.Before := by
  rw [windowSlots, List.pairwise_filter, List.pairwise_map, slotStarts_eq, List.pairwise_map]
  refine (kept_pairwise (pairwise_walls hd)).imp_of_mem ?_
  rintro x y hx hy ⟨hlt, z, hz, hxz, hzy, hne⟩ hsx hsy
  rw [decide_eq_true_eq] at hsx hsy
  have hx := (kept_sublist _ _).subset hx
  have hy := (kept_sublist _ _).subset hy
  refine h.before ((offered_iff hfirst hlast hdate hnotFull hwindow hx).mp hsx)
    ((offered_iff hfirst hlast hdate hnotFull hwindow hy).mp hsy) (.inr ⟨rfl, hlt⟩) ?_
  rintro ⟨-, -, htogether⟩
  have hyx := htogether y hy hlt.le le_rfl
  exact hne ((htogether z hz hxz hzy.le).trans hyx.symm)

include hvalid hd h in
theorem pairwise_dateSlots (hfirst : first ≤ date) (hlast : date ≤ last) :
    (p.dateSlots L formatDate busy bookedPerDay date).Pairwise p.Before := by
  rw [dateSlots]
  split_ifs with hdate hfull
  · exact List.Pairwise.nil
  · exact List.Pairwise.nil
  · refine List.pairwise_flatMap.mpr ⟨fun window hwindow =>
      pairwise_windowSlots hd h hfull hdate hfirst hlast hwindow, ?_⟩
    refine (windows_sorted hvalid date).imp_of_mem ?_
    intro window window' hwindow hwindow' hle s hs s' hs'
    obtain ⟨wall, hx, rfl⟩ := (mem_windowSlots_iff hfirst hlast hdate hfull hwindow).mp hs
    obtain ⟨wall', hy, rfl⟩ := (mem_windowSlots_iff hfirst hlast hdate hfull hwindow').mp hs'
    obtain ⟨-, hstop⟩ := mem_walls hx.wall_mem
    obtain ⟨hstart', hstop'⟩ := mem_walls hy.wall_mem
    refine h.before hx hy (.inr ⟨rfl, by omega⟩) ?_
    rintro ⟨-, rfl, -⟩
    omega

include hvalid hd h in
/-- **The order of the slots.** -/
theorem pairwise_computeSlots :
    (p.computeSlots L formatDate first last busy bookedPerDay).Pairwise p.Before := by
  refine List.pairwise_flatMap.mpr ⟨fun date hdate => ?_, ?_⟩
  · obtain ⟨hfirst, hlast⟩ := mem_dates.mp hdate
    exact pairwise_dateSlots hvalid hd h hfirst hlast
  · refine pairwise_dates.imp_of_mem ?_
    intro date date' hdate hdate' hlt s hs s' hs'
    obtain ⟨hfirst, hlast⟩ := mem_dates.mp hdate
    obtain ⟨hfirst', hlast'⟩ := mem_dates.mp hdate'
    obtain ⟨window, wall, hx, rfl⟩ := (mem_dateSlots_iff hfirst hlast).mp hs
    obtain ⟨window', wall', hy, rfl⟩ := (mem_dateSlots_iff hfirst' hlast').mp hs'
    exact h.before hx hy (.inl hlt) fun heq => hlt.ne heq.1

end Order

/-! ## Two times on offer -/

section Pairs

variable (hvalid : p.availability.validate L = .ok ()) (hd : 0 < p.durationMins)
  (hx : p.Offered L formatDate first last busy bookedPerDay date window wall)

include hd hx in
/-- Two times of one window that are not resolved together are both listed. -/
theorem pair_sublist_windowSlots
    (hy : p.Offered L formatDate first last busy bookedPerDay date window wall')
    (hlt : wall < wall') (hne : ¬p.Together date window wall wall') :
    [p.slot (p.tz.minute date wall), p.slot (p.tz.minute date wall')].Sublist
      (p.windowSlots date busy window) := by
  simp only [Together, not_forall, exists_prop] at hne
  obtain ⟨z, hz, hxz, hzy, hne⟩ := hne
  have hpair : List.Sublist _ (Option.toList none ++ _) :=
    pair_sublist_kept (pairwise_walls hd) hx.wall_mem hy.wall_mem hz hlt hxz hzy hne
  have hslots := (hpair.map p.slot).filter fun s => decide (s.stop ≤ p.tz.minute date window.2 ∧
    p.now + 60 * p.minNoticeMins ≤ s.start ∧ ∀ b ∈ busy, ¬Overlaps (p.widened s) b)
  rw [List.filter_eq_self.mpr] at hslots
  · simpa [windowSlots, slotStarts_eq] using hslots
  · simp only [List.map_cons, List.map_nil, List.forall_mem_cons, decide_eq_true_eq]
    exact ⟨⟨hx.ends, hx.notice, hx.free⟩, ⟨hy.ends, hy.notice, hy.free⟩,
      List.forall_mem_nil _⟩

include hvalid hd hx in
/-- **Two times on offer** that are not resolved together are both listed, in their order. -/
theorem pair_sublist_computeSlots
    (hy : p.Offered L formatDate first last busy bookedPerDay date' window' wall')
    (hlt : date < date' ∨ date = date' ∧ wall < wall')
    (hne : ¬(date = date' ∧ window = window' ∧ p.Together date window wall wall')) :
    [p.slot (p.tz.minute date wall), p.slot (p.tz.minute date' wall')].Sublist
      (p.computeSlots L formatDate first last busy bookedPerDay) := by
  have hxdate := mem_dates.mpr ⟨hx.first_le, hx.le_last⟩
  have hydate := mem_dates.mpr ⟨hy.first_le, hy.le_last⟩
  rcases hlt with hlt | ⟨rfl, hlt⟩
  · refine pair_sublist_flatMap (pair_sublist pairwise_dates hxdate hydate hlt.ne hlt.asymm)
      ?_ ?_
    · exact (mem_dateSlots_iff hx.first_le hx.le_last).mpr ⟨window, wall, hx, rfl⟩
    · exact (mem_dateSlots_iff hy.first_le hy.le_last).mpr ⟨window', wall', hy, rfl⟩
  · refine List.Sublist.trans ?_ (sublist_flatMap hxdate)
    rw [dateSlots, if_neg hx.valid, if_neg hx.notFull]
    by_cases hwindow : window = window'
    · subst hwindow
      have hapart : ¬p.Together date window wall wall' := fun h => hne ⟨rfl, rfl, h⟩
      exact (pair_sublist_windowSlots hd hx hy hlt hapart).trans (sublist_flatMap hx.window_mem)
    · -- the windows come in the order of their walls
      have hstart := (mem_walls hx.wall_mem).1
      have hstop' := (mem_walls hy.wall_mem).2
      refine pair_sublist_flatMap (pair_sublist (windows_sorted hvalid date) hx.window_mem
        hy.window_mem hwindow (by omega)) ?_ ?_
      · exact (mem_windowSlots_iff hx.first_le hx.le_last hx.valid hx.notFull hx.window_mem).mpr
          ⟨wall, hx, rfl⟩
      · exact (mem_windowSlots_iff hy.first_le hy.le_last hy.valid hy.notFull hy.window_mem).mpr
          ⟨wall', hy, rfl⟩

end Pairs

/-! ## When the grid is proper -/

theorem Roomy.proper (h : p.Roomy L formatDate first last busy bookedPerDay)
    (hvalid : p.availability.validate L = .ok ()) (hd : 0 < p.durationMins) :
    p.Proper L formatDate first last busy bookedPerDay
      (p.computeSlots L formatDate first last busy bookedPerDay) where
  increasing :=
    List.pairwise_map.mpr ((pairwise_computeSlots hvalid hd h).imp fun hbefore => hbefore.1)
  apart s hs s' hs' hne hday := by
    have hsorted := pairwise_computeSlots hvalid hd h
    rcases pair_sublist_or hs hs' hne with hpair | hpair
    · have hstop := (List.pairwise_iff_forall_sublist.mp hsorted hpair).2 hday
      exact fun hover => absurd hover.2 (not_lt.mpr hstop)
    · have hstop := (List.pairwise_iff_forall_sublist.mp hsorted hpair).2 hday.symm
      exact fun hover => absurd hover.1 (not_lt.mpr hstop)
  length s hs := by
    obtain ⟨date, window, wall, -, rfl⟩ := mem_computeSlots_iff.mp hs
    simp [slot]
  inside s hs := by
    obtain ⟨date, window, wall, hx, rfl⟩ := mem_computeSlots_iff.mp hs
    exact (h.home _ _ _ hx).2
  notice s hs := by
    obtain ⟨date, window, wall, hx, rfl⟩ := mem_computeSlots_iff.mp hs
    exact hx.notice
  valid s hs := by
    obtain ⟨date, window, wall, hx, rfl⟩ := mem_computeSlots_iff.mp hs
    exact (h.home _ _ _ hx).1
  free s hs := by
    obtain ⟨date, window, wall, hx, rfl⟩ := mem_computeSlots_iff.mp hs
    exact hx.free
  complete date window wall hx _ := mem_computeSlots_iff.mpr ⟨date, window, wall, hx, rfl⟩

theorem Proper.roomy (h : p.Proper L formatDate first last busy bookedPerDay
      (p.computeSlots L formatDate first last busy bookedPerDay))
    (hvalid : p.availability.validate L = .ok ()) (hd : 0 < p.durationMins) :
    p.Roomy L formatDate first last busy bookedPerDay where
  home date window wall hx := by
    have hs := mem_computeSlots_iff.mpr ⟨date, window, wall, hx, rfl⟩
    exact ⟨h.valid _ hs, h.inside _ hs⟩
  room date window wall date' window' wall' hx hy hlt := by
    refine or_iff_not_imp_left.mpr fun hne => before_iff.mp ?_
    have hpair := pair_sublist_computeSlots hvalid hd hx hy hlt hne
    have hstart : p.tz.minute date wall < p.tz.minute date' wall' :=
      List.pairwise_iff_forall_sublist.mp h.increasing (hpair.map Slot.start)
    refine ⟨hstart, fun hday => ?_⟩
    have hapart := h.apart _ (hpair.subset List.mem_cons_self) _
      (hpair.subset (List.mem_cons_of_mem _ List.mem_cons_self))
      (fun heq => hstart.ne (congrArg Slot.start heq)) hday
    simp only [Overlaps, slot, not_and, not_lt] at hapart ⊢
    exact hapart (by omega)

/-! ## Clocks that keep pace -/

variable (p L formatDate first last bookedPerDay)

/-- A window of a date that the walk goes through. -/
structure Open (date : ℤ) (window : ℕ × ℕ) : Prop where
  first_le : first ≤ date
  le_last : date ≤ last
  valid : ¬p.Invalid date
  notFull : ¬p.Full bookedPerDay date
  window_mem : window ∈ windowsForDate L formatDate p.availability date

/-- From a time of a grid to the next one the clock skips nothing, or it resolves both to one
instant. -/
def Keeps (date : ℤ) (wall : ℕ) : Prop :=
  p.tz.minute date (wall + p.durationMins) = p.tz.minute date wall ∨
    p.skip date wall date (wall + p.durationMins) ≤ 0

instance (date : ℤ) (wall : ℕ) : Decidable (p.Keeps date wall) :=
  inferInstanceAs (Decidable (_ ∨ _))

/-- **The clock keeps pace** with the grids of the open windows, resolves each time of a grid on
its date, and the windows in their order. -/
structure Paced : Prop where
  keeps : ∀ date window, p.Open L formatDate first last bookedPerDay date window →
    ∀ wall ∈ walls window.1 window.2 p.durationMins,
      wall + p.durationMins ∈ walls window.1 window.2 p.durationMins → p.Keeps date wall
  onDate : ∀ date window, p.Open L formatDate first last bookedPerDay date window →
    ∀ wall ∈ walls window.1 window.2 p.durationMins, p.tz.todayIn (p.tz.minute date wall) = date
  inOrder : ∀ date window date' window', p.Open L formatDate first last bookedPerDay date window →
    p.Open L formatDate first last bookedPerDay date' window' →
      date < date' ∨ date = date' ∧ window.2 ≤ window'.1 →
        p.tz.minute date window.2 ≤ p.tz.minute date' window'.1

variable {p L formatDate first last bookedPerDay}

theorem Offered.isOpen (h : p.Offered L formatDate first last busy bookedPerDay date window wall) :
    p.Open L formatDate first last bookedPerDay date window :=
  ⟨h.first_le, h.le_last, h.valid, h.notFull, h.window_mem⟩

section Paced

variable (hpaced : p.Paced L formatDate first last bookedPerDay)
  (hopen : p.Open L formatDate first last bookedPerDay date window)

include hpaced hopen in
/-- From one time of a grid to a later one the clock shows one instant, or at least a meeting
passes. -/
theorem Paced.together_or {i j : ℕ} (hij : i ≤ j)
    (hj : j < (window.2 - window.1) / p.durationMins) :
    (∀ k, i ≤ k → k ≤ j → p.tz.minute date (window.1 + p.durationMins * k) =
        p.tz.minute date (window.1 + p.durationMins * i)) ∨
      p.tz.minute date (window.1 + p.durationMins * i) + 60 * p.durationMins ≤
        p.tz.minute date (window.1 + p.durationMins * j) := by
  refine eq_or_add_le (f := fun k => p.tz.minute date (window.1 + p.durationMins * k))
    (by positivity) hij fun k _ hkj => ?_
  have hnext : window.1 + p.durationMins * (k + 1) =
      window.1 + p.durationMins * k + p.durationMins := by ring
  have hmem : ∀ n ≤ j, window.1 + p.durationMins * n ∈ walls window.1 window.2 p.durationMins :=
    fun n hn => List.mem_map.mpr ⟨n, List.mem_range.mpr (by omega), rfl⟩
  have hkeeps := hpaced.keeps _ _ hopen _ (hmem k hkj.le) (hnext ▸ hmem (k + 1) hkj)
  simp only [Keeps, skip, between, hnext] at hkeeps ⊢
  refine hkeeps.imp_right fun hskip => ?_
  push_cast at hskip
  omega

include hpaced hopen in
/-- No time of a grid is resolved before the start of its window. -/
theorem Paced.start_le (hwall : wall ∈ walls window.1 window.2 p.durationMins) :
    p.tz.minute date window.1 ≤ p.tz.minute date wall := by
  obtain ⟨k, hk, rfl⟩ := List.mem_map.mp hwall
  rcases hpaced.together_or hopen (Nat.zero_le k) (List.mem_range.mp hk) with hsame | hadd
  · exact (hsame k (Nat.zero_le k) le_rfl).ge
  · simp only [Nat.mul_zero, Nat.add_zero] at hadd
    omega

end Paced

/-- Two times on offer in one window. -/
theorem Paced.together_or_before (h : p.Paced L formatDate first last bookedPerDay)
    (hd : 0 < p.durationMins)
    (hx : p.Offered L formatDate first last busy bookedPerDay date window wall)
    (hy : p.Offered L formatDate first last busy bookedPerDay date window wall')
    (hlt : wall < wall') :
    p.Together date window wall wall' ∨
      p.Before (p.slot (p.tz.minute date wall)) (p.slot (p.tz.minute date wall')) := by
  obtain ⟨i, -, rfl⟩ := List.mem_map.mp hx.wall_mem
  obtain ⟨j, hj, rfl⟩ := List.mem_map.mp hy.wall_mem
  have hcount : ∀ {m n : ℕ}, window.1 + p.durationMins * m ≤ window.1 + p.durationMins * n →
      m ≤ n := fun hle => Nat.le_of_mul_le_mul_left (Nat.le_of_add_le_add_left hle) hd
  refine (h.together_or hx.isOpen (hcount hlt.le) (List.mem_range.mp hj)).imp ?_ ?_
  · intro hsame z hz hxz hzy
    obtain ⟨k, -, rfl⟩ := List.mem_map.mp hz
    exact hsame k (hcount hxz) (hcount hzy)
  · intro hadd
    simp only [Before, slot]
    exact ⟨by omega, fun _ => hadd⟩

/-- A meeting of one window is over when one of a later window starts. -/
theorem Paced.before (h : p.Paced L formatDate first last bookedPerDay) (hd : 0 < p.durationMins)
    (hx : p.Offered L formatDate first last busy bookedPerDay date window wall)
    (hy : p.Offered L formatDate first last busy bookedPerDay date' window' wall')
    (hlt : date < date' ∨ date = date' ∧ window.2 ≤ window'.1) :
    p.Before (p.slot (p.tz.minute date wall)) (p.slot (p.tz.minute date' wall')) := by
  have hends := hx.ends
  have horder := h.inOrder _ _ _ _ hx.isOpen hy.isOpen hlt
  have hstart := h.start_le hy.isOpen hy.wall_mem
  simp only [Before, slot] at hends ⊢
  exact ⟨by omega, fun _ => by omega⟩

theorem Paced.roomy (h : p.Paced L formatDate first last bookedPerDay)
    (hvalid : p.availability.validate L = .ok ()) (hd : 0 < p.durationMins) :
    p.Roomy L formatDate first last busy bookedPerDay where
  home date window wall hx := by
    rw [h.onDate _ _ hx.isOpen _ hx.wall_mem]
    exact ⟨hx.valid, window, hx.window_mem, h.start_le hx.isOpen hx.wall_mem, hx.ends⟩
  room date window wall date' window' wall' hx hy hlt := by
    rw [← before_iff]
    by_cases hsame : date = date' ∧ window = window'
    · obtain ⟨rfl, rfl⟩ := hsame
      have hwall : wall < wall' := by omega
      exact (h.together_or_before hd hx hy hwall).imp (⟨rfl, rfl, ·⟩) id
    · -- windows of one date do not overlap, so the later one starts where the other has ended
      refine .inr (h.before hd hx hy (hlt.imp_right ?_))
      rintro ⟨rfl, hwall⟩
      have hstart := (mem_walls hx.wall_mem).1
      have hstop' := (mem_walls hy.wall_mem).2
      exact ⟨rfl, stop_le_start hvalid hx.window_mem hy.window_mem (fun heq => hsame ⟨rfl, heq⟩)
        (by omega)⟩

/-- In a proper grid the clock keeps pace from one time on offer to the next one of the date. -/
theorem Proper.keeps (h : p.Proper L formatDate first last busy bookedPerDay
      (p.computeSlots L formatDate first last busy bookedPerDay))
    (hvalid : p.availability.validate L = .ok ()) (hd : 0 < p.durationMins)
    (hx : p.Offered L formatDate first last busy bookedPerDay date window wall)
    (hy : p.Offered L formatDate first last busy bookedPerDay date window (wall + p.durationMins))
    (hday : p.tz.todayIn (p.tz.minute date wall) =
      p.tz.todayIn (p.tz.minute date (wall + p.durationMins))) : p.Keeps date wall := by
  have hroom := (h.roomy hvalid hd).room _ _ _ _ _ _ hx hy (.inr ⟨rfl, by omega⟩)
  rcases hroom with ⟨-, -, htogether⟩ | ⟨-, hapart⟩
  · exact .inl (htogether _ hy.wall_mem (by omega) le_rfl)
  · refine .inr ((hapart hday).trans ?_)
    simp only [between]
    push_cast
    omega

/-- **When the slots are a proper grid.** They are if the clock keeps pace with the grids of the
open windows, whatever is busy and whatever the notice; where it does not, from a time on offer to
the next one of the date, they are not. -/
theorem proper_of_paced (hvalid : p.availability.validate L = .ok ())
    (hd : 5 ≤ p.durationMins ∧ p.durationMins ≤ 480) :
    (p.Paced L formatDate first last bookedPerDay →
      p.Proper L formatDate first last busy bookedPerDay
        (p.computeSlots L formatDate first last busy bookedPerDay)) ∧
    ∀ date window wall, p.Offered L formatDate first last busy bookedPerDay date window wall →
      p.Offered L formatDate first last busy bookedPerDay date window (wall + p.durationMins) →
        p.tz.todayIn (p.tz.minute date wall) =
            p.tz.todayIn (p.tz.minute date (wall + p.durationMins)) →
          ¬p.Keeps date wall →
            ¬p.Proper L formatDate first last busy bookedPerDay
              (p.computeSlots L formatDate first last busy bookedPerDay) := by
  have hpos : 0 < p.durationMins := by omega
  refine ⟨fun h => (h.roomy hvalid hpos).proper hvalid hpos, ?_⟩
  intro date window wall hx hy hday hnot hproper
  exact hnot (hproper.keeps hvalid hpos hx hy hday)

end SlotParams

/-! ## A Sunday in March -/

/-- A clock that is moved on by `jump` seconds at the instant `change`. -/
def Zone.springForward (change offset : ℤ) (jump : ℕ) : Zone where
  localOf t := if t < change then t + offset else t + offset + jump
  fromLocal w :=
    if w < change + offset then .single (w - offset)
    else if w < change + offset + jump then .none
    else .single (w - offset - jump)
  shows w t h := by
    split_ifs at h with hbefore hgap
    · obtain rfl : w - offset = t := Option.some.inj h
      rw [if_pos (by omega)]
      omega
    · cases h
    · obtain rfl : w - offset - jump = t := Option.some.inj h
      rw [if_neg (by omega)]
      omega
  skipped w h t := by
    split_ifs at h ⊢ <;> omega

/-- America/Denver up to its change on 2026-03-08. -/
def denver : Zone := .springForward (86400 * 20520 + 3600 * 9) (-25200) 3600

namespace SlotParams

/-- Meetings of 20 minutes on the Sundays of a page, from ten past midnight on. -/
def sundays (tz : Zone) : SlotParams where
  tz := tz
  availability := ⟨1, [("sun", [⟨"00:10", "04:10"⟩])], []⟩
  durationMins := 20
  bufferBeforeMins := 0
  bufferAfterMins := 0
  minNoticeMins := 0
  maxPerDay := none
  validFrom := none
  validUntil := none
  now := 0

/-- Meetings of 30 minutes on the same page: 10 past 2 and 20 to 3 are moved to 10 past 3, which
is then on offer once. -/
def sundays30 : SlotParams := { sundays denver with durationMins := 30 }

theorem paced_sundays30 : sundays30.Paced calendarCrates.locale calendarCrates.formatDate 20520
    20520 fun _ => 0 := by
  have hopen : ∀ date window, sundays30.Open calendarCrates.locale calendarCrates.formatDate 20520
      20520 (fun _ => 0) date window → date = 20520 ∧ window = (10, 250) := by
    intro date window h
    obtain rfl : 20520 = date := le_antisymm h.first_le h.le_last
    have hwindows : windowsForDate calendarCrates.locale calendarCrates.formatDate
        sundays30.availability 20520 = [(10, 250)] := by decide +kernel
    exact ⟨rfl, List.mem_singleton.mp (hwindows ▸ h.window_mem)⟩
  constructor
  · intro date window h
    obtain ⟨rfl, rfl⟩ := hopen date window h
    decide +kernel
  · intro date window h
    obtain ⟨rfl, rfl⟩ := hopen date window h
    decide +kernel
  · intro date window date' window' h h' hlt
    obtain ⟨rfl, rfl⟩ := hopen date window h
    obtain ⟨rfl, rfl⟩ := hopen date' window' h'
    omega

/-- On the day of the change they are a proper grid. -/
theorem proper_sundays30 : sundays30.Proper calendarCrates.locale calendarCrates.formatDate 20520
    20520 [] (fun _ => 0) (sundays30.computeSlots calendarCrates.locale calendarCrates.formatDate
      20520 20520 [] fun _ => 0) :=
  (proper_of_paced (by decide +kernel) (by decide)).1 paced_sundays30

/-- **On the day of the change** the slots go back in time, overlap, and one is listed twice:
10 past 2 is moved out of the gap to 10 past 3, half past 2 to 3. -/
theorem not_proper : ¬∀ p : SlotParams, p.availability.validate calendarCrates.locale = .ok () →
    5 ≤ p.durationMins ∧ p.durationMins ≤ 480 → ∀ first last busy bookedPerDay,
      p.Proper calendarCrates.locale calendarCrates.formatDate first last busy bookedPerDay
        (p.computeSlots calendarCrates.locale calendarCrates.formatDate first last busy
          bookedPerDay) := by
  intro h
  have hproper := h (sundays denver) (by decide +kernel) (by decide) 20520 20520 [] fun _ => 0
  exact absurd hproper.increasing (by decide +kernel)

end SlotParams

end Owney.Schedule
