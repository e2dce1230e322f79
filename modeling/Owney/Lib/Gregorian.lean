import Mathlib.Data.List.Basic
import Mathlib.Tactic.Ring

/-!
# The Gregorian calendar

A day is a number, counted from 1970-01-01, and has a year, a month and a day of the month, for
the past before the calendar was introduced too.

* `valid_civil`, `dayNumber_civil` — a day's year, month and day are a date, and name the day.
* `civil_dayNumber` — every date names a day.
* `earlier_iff` — the order of the dates is the order of their days.
-/

namespace Gregorian

/-- A year, a month and a day of the month. -/
abbrev Ymd := ℤ × ℕ × ℕ

/-- A year with a 29th of February. -/
def isLeap (y : ℤ) : Bool := y % 4 = 0 ∧ (y % 100 ≠ 0 ∨ y % 400 = 0)

/-- The first day of a year. -/
def yearStart (y : ℤ) : ℤ :=
  365 * (y - 1970) + (y - 1) / 4 - (y - 1) / 100 + (y - 1) / 400 - 477

/-- How long a year is. -/
def yearLength (y : ℤ) : ℕ := if isLeap y then 366 else 365

/-- How long the months of a year are. -/
def monthLengths (y : ℤ) : List ℕ :=
  [31, if isLeap y then 29 else 28, 31, 30, 31, 30, 31, 31, 30, 31, 30, 31]

/-- There is such a day. -/
def Valid : Ymd → Prop
  | (y, m, d) => 1 ≤ m ∧ m ≤ 12 ∧ 1 ≤ d ∧ d ≤ (monthLengths y).getD (m - 1) 0

instance (t : Ymd) : Decidable (Valid t) := inferInstanceAs (Decidable (_ ∧ _))

/-- The day of a date. -/
def dayNumber : Ymd → ℤ
  | (y, m, d) => yearStart y + (((monthLengths y).take (m - 1)).sum : ℕ) + d - 1

/-- The year of a day. -/
def yearOf (z : ℤ) : ℤ :=
  let y := 400 * z / 146097 + 1970
  if yearStart (y + 1) ≤ z then y + 1 else if z < yearStart y then y - 1 else y

/-- The number of whole months in a number of days, and the days left. -/
def monthDay : List ℕ → ℕ → ℕ × ℕ
  | [], n => (0, n)
  | l :: ls, n =>
    if n < l then (0, n)
    else
      let (m, d) := monthDay ls (n - l)
      (m + 1, d)

/-- The date of a day. -/
def civil (z : ℤ) : Ymd :=
  let (m, d) := monthDay (monthLengths (yearOf z)) (z - yearStart (yearOf z)).toNat
  (yearOf z, m + 1, d + 1)

/-- A date before another. -/
def Earlier : Ymd → Ymd → Prop
  | (y, m, d), (y', m', d') => y < y' ∨ y = y' ∧ (m < m' ∨ m = m' ∧ d < d')

instance (t t' : Ymd) : Decidable (Earlier t t') := inferInstanceAs (Decidable (_ ∨ _))

/-! ## Years -/

theorem yearStart_succ (y : ℤ) : yearStart (y + 1) = yearStart y + yearLength y := by
  have h4 : y / 4 = (y - 1) / 4 + if y % 4 = 0 then 1 else 0 := by split <;> omega
  have h100 : y / 100 = (y - 1) / 100 + if y % 100 = 0 then 1 else 0 := by split <;> omega
  have h400 : y / 400 = (y - 1) / 400 + if y % 400 = 0 then 1 else 0 := by split <;> omega
  simp only [yearStart, yearLength, isLeap, Int.add_sub_cancel, decide_eq_true_eq]
  rw [h4, h100, h400]
  split_ifs <;> omega

theorem yearStart_le {y y' : ℤ} (h : y ≤ y') : yearStart y ≤ yearStart y' := by
  induction y', h using Int.leInduction with
  | base => exact le_rfl
  | succ y' _ ih =>
    rw [yearStart_succ]
    omega

theorem yearOf_spec (z : ℤ) : yearStart (yearOf z) ≤ z ∧ z < yearStart (yearOf z + 1) := by
  simp only [yearOf]
  split_ifs with hnext hprev
  · refine ⟨hnext, ?_⟩
    simp only [yearStart]
    omega
  · rw [Int.sub_add_cancel]
    refine ⟨?_, hprev⟩
    simp only [yearStart]
    omega
  · exact ⟨not_lt.mp hprev, not_le.mp hnext⟩

/-! ## Months -/

theorem sum_monthLengths (y : ℤ) : (monthLengths y).sum = yearLength y := by
  cases h : isLeap y <;> simp [monthLengths, yearLength, h]

theorem monthDay_spec {ls : List ℕ} {n : ℕ} (h : n < ls.sum) :
    (monthDay ls n).1 < ls.length ∧ (monthDay ls n).2 < ls.getD (monthDay ls n).1 0 ∧
      (ls.take (monthDay ls n).1).sum + (monthDay ls n).2 = n := by
  induction ls generalizing n with
  | nil => simp at h
  | cons l ls ih =>
    rw [monthDay]
    split
    · simp_all
    · rw [List.sum_cons] at h
      obtain ⟨hlt, hd, hsum⟩ := ih (n := n - l) (by omega)
      refine ⟨by simpa using hlt, by simpa using hd, ?_⟩
      simp only [List.take_succ_cons, List.sum_cons]
      omega

/-! ## Days and dates -/

/-- The days of a year before a day are days of its months. -/
theorem monthDay_civil (z : ℤ) :
    (z - yearStart (yearOf z)).toNat < (monthLengths (yearOf z)).sum := by
  obtain ⟨hle, hlt⟩ := yearOf_spec z
  rw [yearStart_succ] at hlt
  rw [sum_monthLengths]
  omega

/-- **The date of a day** is one that there is, -/
theorem valid_civil (z : ℤ) : Valid (civil z) := by
  obtain ⟨hm, hd, -⟩ := monthDay_spec (monthDay_civil z)
  refine ⟨Nat.le_add_left _ _, ?_, Nat.le_add_left _ _, ?_⟩
  · exact hm
  · rw [Nat.add_sub_cancel]
    exact hd

/-- and names the day. -/
theorem dayNumber_civil (z : ℤ) : dayNumber (civil z) = z := by
  obtain ⟨hle, -⟩ := yearOf_spec z
  obtain ⟨-, -, hsum⟩ := monthDay_spec (monthDay_civil z)
  simp only [civil, dayNumber, Nat.add_sub_cancel]
  omega

/-- The days before a month and the first days of it are no more than the days before the next. -/
theorem sum_take_add_le {ls : List ℕ} {m m' d : ℕ} (hm : m < m') (hm' : m' ≤ ls.length)
    (hd : d ≤ ls.getD m 0) : (ls.take m).sum + d ≤ (ls.take m').sum := by
  induction ls generalizing m m' with
  | nil => simp at hm'; omega
  | cons l ls ih =>
    obtain ⟨m', rfl⟩ : ∃ k, m' = k + 1 := ⟨m' - 1, by omega⟩
    cases m with
    | zero =>
      simp at hd ⊢
      omega
    | succ m =>
      simp only [List.length_cons, Nat.add_le_add_iff_right] at hm'
      have := ih (Nat.lt_of_succ_lt_succ hm) hm' (by simpa using hd)
      simp only [List.take_succ_cons, List.sum_cons]
      omega

/-- A date is in its year. -/
theorem dayNumber_year {y : ℤ} {m d : ℕ} (h : Valid (y, m, d)) :
    yearStart y ≤ dayNumber (y, m, d) ∧ dayNumber (y, m, d) < yearStart (y + 1) := by
  obtain ⟨hm, hm', hd, hd'⟩ := h
  have hsum := @sum_take_add_le (monthLengths y) (m - 1) 12 d (by omega) le_rfl hd'
  have hall : ((monthLengths y).take 12).sum = yearLength y := sum_monthLengths y
  rw [hall] at hsum
  rw [yearStart_succ, dayNumber]
  omega

/-- A later date is a later day. -/
theorem dayNumber_lt {t t' : Ymd} (ht : Valid t) (ht' : Valid t') (h : Earlier t t') :
    dayNumber t < dayNumber t' := by
  obtain ⟨y, m, d⟩ := t
  obtain ⟨y', m', d'⟩ := t'
  rcases h with hy | ⟨rfl, hm | ⟨rfl, hd⟩⟩
  · have hle := yearStart_le (Int.add_one_le_of_lt hy)
    have hlt := (dayNumber_year ht).2
    have hge := (dayNumber_year ht').1
    omega
  · obtain ⟨hm₁, hm₂, hd₁, hd₂⟩ := ht
    obtain ⟨hm₁', hm₂', hd₁', -⟩ := ht'
    have hsum := @sum_take_add_le (monthLengths y) (m - 1) (m' - 1) d (by omega)
      (by simp [monthLengths]; omega) hd₂
    simp only [dayNumber]
    omega
  · simp only [dayNumber]
    omega

theorem earlier_or_eq_or_earlier (t t' : Ymd) : Earlier t t' ∨ t = t' ∨ Earlier t' t := by
  obtain ⟨y, m, d⟩ := t
  obtain ⟨y', m', d'⟩ := t'
  simp only [Earlier, Prod.mk.injEq]
  omega

/-- **The order of the dates** is the order of their days. -/
theorem earlier_iff {t t' : Ymd} (ht : Valid t) (ht' : Valid t') :
    Earlier t t' ↔ dayNumber t < dayNumber t' := by
  refine ⟨dayNumber_lt ht ht', fun hlt => ?_⟩
  rcases earlier_or_eq_or_earlier t t' with h | rfl | h
  · exact h
  · exact absurd hlt (lt_irrefl _)
  · exact absurd (dayNumber_lt ht' ht h) hlt.asymm

/-- **Every date** is the date of its day. -/
theorem civil_dayNumber {t : Ymd} (ht : Valid t) : civil (dayNumber t) = t := by
  have hsame := dayNumber_civil (dayNumber t)
  rcases earlier_or_eq_or_earlier (civil (dayNumber t)) t with h | h | h
  · exact absurd hsame (dayNumber_lt (valid_civil _) ht h).ne
  · exact h
  · exact absurd hsame (dayNumber_lt ht (valid_civil _) h).ne'

/-- The date of a day is not before another date exactly if the day is not. -/
theorem not_civil_earlier {t : Ymd} (ht : Valid t) {z : ℤ} :
    ¬Earlier (civil z) t ↔ dayNumber t ≤ z := by
  rw [earlier_iff (valid_civil z) ht, dayNumber_civil, not_lt]

theorem not_earlier_civil {t : Ymd} (ht : Valid t) {z : ℤ} :
    ¬Earlier t (civil z) ↔ z ≤ dayNumber t := by
  rw [earlier_iff ht (valid_civil z), dayNumber_civil, not_lt]

/-- There are earlier dates, as early as one likes, -/
theorem exists_earlier (t : Ymd) (b : ℤ) : ∃ z ≤ b, Earlier (civil z) t := by
  refine ⟨min b (yearStart t.1 - 1), min_le_left _ _, .inl ?_⟩
  have hle := (yearOf_spec (min b (yearStart t.1 - 1))).1
  by_contra hge
  have hstart := yearStart_le (not_lt.mp hge)
  omega

/-- and later ones. -/
theorem exists_later (t : Ymd) (b : ℤ) : ∃ z, b ≤ z ∧ Earlier t (civil z) := by
  refine ⟨max b (yearStart (t.1 + 1)), le_max_left _ _, .inl ?_⟩
  have hlt := (yearOf_spec (max b (yearStart (t.1 + 1)))).2
  by_contra hge
  have hstart := yearStart_le (Int.add_le_add_right (not_lt.mp hge) 1)
  omega

end Gregorian
