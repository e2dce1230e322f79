import Owney.Invites
import Owney.SmtpSession

/-!
# Civil dates

A time is written with the date of its day (`owney-core/src/time.rs`), and the stamps of an invite
are read with the day of a date (`owney-ai/src/ics.rs`): two closed formulas, in `i64`, over eras
of 400 years that start on the 1st of March.

* `civilFromDays?_eq`, `daysFromCivil?_eq` — as long as nothing overflows, they are the date of a
  day and the day of a date.
* `calendar_arithmetic` — what they compute, and the texts that are made of it.
-/

namespace Owney.Time

open Gregorian Smtp Invites Schedule

/-! ## The formulas -/

/-- `civil_from_days`, in `i64`: none if a sum or a product leaves it. -/
def civilFromDays? (z : ℤ) : Option Ymd := do
  let z ← i64? (z + 719468)
  let era := z / 146097
  let doe := z % 146097
  let yoe := (doe - doe / 1460 + doe / 36524 - doe / 146096) / 365
  let years ← i64? (era * 400)
  let y ← i64? (yoe + years)
  let doy := doe - (365 * yoe + yoe / 4 - yoe / 100)
  let mp := (5 * doy + 2) / 153
  let d := (doy - (153 * mp + 2) / 5 + 1).toNat
  let m := (if mp < 10 then mp + 3 else mp - 9).toNat
  let year ← i64? (if m ≤ 2 then y + 1 else y)
  return (year, m, d)

/-- `days_from_civil`, in `i64`. Rust's division of the days before a month rounds to zero. -/
def daysFromCivil? (y m d : ℤ) : Option ℤ := do
  let y ← i64? (if m ≤ 2 then y - 1 else y)
  let era := y / 400
  let yoe := y % 400
  let mp ← i64? (if m > 2 then m - 3 else m + 9)
  let scaled ← i64? (153 * mp)
  let scaled ← i64? (scaled + 2)
  let doy ← i64? (scaled.tdiv 5 + d)
  let doy ← i64? (doy - 1)
  let doe ← i64? (yoe * 365 + yoe / 4 - yoe / 100 + doy)
  let days ← i64? (era * 146097)
  let days ← i64? (days + doe)
  i64? (days - 719468)

/-- `{:04}` of an `i64`: the sign counts. -/
def fourDigits (n : ℤ) : String :=
  if n < 0 then "-" ++ isoDate.pad 3 n.natAbs else isoDate.pad 4 n.natAbs

/-- `iso8601_utc`. -/
def iso8601Utc (unix : ℤ) : String :=
  let days := unix / 86400
  let secs := unix % 86400
  let (year, month, day) := civilFromDays days
  fourDigits year ++ "-" ++ twoDigits month ++ "-" ++ twoDigits day ++ "T" ++
    twoDigits (secs / 3600) ++ ":" ++ twoDigits (secs % 3600 / 60) ++ ":" ++
    twoDigits (secs % 60) ++ "Z"

/-! ## The date of a day -/

/-- The year of an era of the day that is the day `doy` of the year `100 * c + 4 * a + b`. -/
theorem yearOfEra_eq {c a b doy : ℤ} (hc : 0 ≤ c ∧ c ≤ 3) (ha : 0 ≤ a ∧ a ≤ 24)
    (hb : 0 ≤ b ∧ b ≤ 3) (hdoy : 0 ≤ doy)
    (hdoy' : doy ≤ 364 ∨ doy = 365 ∧ b = 3 ∧ (a < 24 ∨ c = 3)) {doe : ℤ}
    (h : doe = 36524 * c + 1461 * a + 365 * b + doy) :
    (doe - doe / 1460 + doe / 36524 - doe / 146096) / 365 = 100 * c + 4 * a + b := by
  have hlast : 36524 * c ≤ doe ∧ doe < 36524 * (c + 1) ∨ doe = 146096 ∧ c = 3 := by omega
  have h4 : doe / 36524 - doe / 146096 = c := by
    rcases hlast with ⟨hlo, hhi⟩ | ⟨rfl, rfl⟩
    · have hsmall : doe / 146096 = 0 := by omega
      omega
    · rfl
  have h1 : doe / 1460 = 25 * c + a + (24 * c + a + 365 * b + doy) / 1460 := by omega
  have hx : doe - doe / 1460 + doe / 36524 - doe / 146096 =
      365 * (100 * c + 4 * a + b) + (doy - (24 * c + a + 365 * b + doy) / 1460) := by omega
  have hover : (24 * c + a + 365 * b + doy) / 1460 = 0 ∧ doy ≤ 364 ∨
      (24 * c + a + 365 * b + doy) / 1460 = 1 ∧ 1 ≤ doy ∧ doy ≤ 365 := by omega
  rw [hx]
  omega

/-- The month and the day of a date, in numbers. -/
theorem Valid.cases {y : ℤ} {m d : ℕ} (h : Valid (y, m, d)) : 1 ≤ m ∧ m ≤ 12 ∧ 1 ≤ d ∧ d ≤ 31 ∧
    ((m = 4 ∨ m = 6 ∨ m = 9 ∨ m = 11) → d ≤ 30) ∧
      (m = 2 → d ≤ 28 ∨ d = 29 ∧ isLeap y = true) := by
  obtain ⟨hm, hm', hd, hd'⟩ := h
  refine ⟨hm, hm', hd, ?_⟩
  cases hl : isLeap y <;> interval_cases m <;> simp [monthLengths, hl] at hd' ⊢ <;> omega

/-- The month and the day of the year, counted from March. -/
theorem monthOfYear_eq {y : ℤ} {m d : ℕ} (h : Valid (y, m, d)) {mp doy : ℤ}
    (hmp : mp = if (m : ℤ) > 2 then (m : ℤ) - 3 else m + 9)
    (hdoy : doy = (153 * mp + 2) / 5 + d - 1) :
    0 ≤ doy ∧ (5 * doy + 2) / 153 = mp ∧ doy - (153 * mp + 2) / 5 + 1 = d ∧
      (if mp < 10 then mp + 3 else mp - 9) = m ∧ (doy ≤ 364 ∨ doy = 365 ∧ m = 2 ∧ d = 29) := by
  obtain ⟨hm, hm', hd, hd', hshort, hfeb⟩ := Valid.cases h
  have hfeb' : m = 2 → d ≤ 29 := fun h2 => by
    rcases hfeb h2 with hle | ⟨rfl, -⟩ <;> omega
  clear hfeb h
  interval_cases m <;> simp at hmp <;> omega

theorem civilFromDays_daysFromCivil {y : ℤ} {m d : ℕ} (h : Valid (y, m, d)) :
    civilFromDays (daysFromCivil y m d) = (y, (m : ℤ), (d : ℤ)) := by
  obtain ⟨mp, hmp⟩ : ∃ mp : ℤ, mp = if (m : ℤ) > 2 then (m : ℤ) - 3 else m + 9 := ⟨_, rfl⟩
  obtain ⟨doy, hdoy⟩ : ∃ doy : ℤ, doy = (153 * mp + 2) / 5 + (d : ℤ) - 1 := ⟨_, rfl⟩
  obtain ⟨hdoy₀, hmp', hd', hm', hdoy'⟩ := monthOfYear_eq h hmp hdoy
  obtain ⟨Y, hY⟩ : ∃ Y : ℤ, Y = if (m : ℤ) ≤ 2 then y - 1 else y := ⟨_, rfl⟩
  obtain ⟨doe, hdoe⟩ : ∃ doe, doe = Y % 400 * 365 + Y % 400 / 4 - Y % 400 / 100 + doy := ⟨_, rfl⟩
  have hleap : doy = 365 → (Y + 1) % 4 = 0 ∧ ((Y + 1) % 100 ≠ 0 ∨ (Y + 1) % 400 = 0) := by
    intro hlast
    obtain ⟨-, rfl, rfl⟩ := hdoy'.resolve_left (by omega)
    have hl := (Valid.cases h).2.2.2.2.2 rfl
    simpa [hY, isLeap] using hl
  have hyoe : (doe - doe / 1460 + doe / 36524 - doe / 146096) / 365 = Y % 400 := by
    have hsplit : Y % 400 = 100 * (Y % 400 / 100) + 4 * (Y % 400 % 100 / 4) + Y % 4 := by omega
    rw [yearOfEra_eq (c := Y % 400 / 100) (a := Y % 400 % 100 / 4) (b := Y % 4) (by omega)
      (by omega) (by omega) hdoy₀ (by omega) (by omega)]
    exact hsplit.symm
  have hz : daysFromCivil y m d + 719468 = Y / 400 * 146097 + doe := by
    simp only [daysFromCivil, ← hmp, ← hY, ← hdoy, ← hdoe]
    omega
  have hrange : 0 ≤ doe ∧ doe < 146097 := by omega
  have hera : (daysFromCivil y m d + 719468) / 146097 = Y / 400 := by omega
  have hrest : (daysFromCivil y m d + 719468) % 146097 = doe := by omega
  have hdoy : doe - (365 * (Y % 400) + Y % 400 / 4 - Y % 400 / 100) = doy := by omega
  simp only [civilFromDays, hera, hrest, hyoe, hdoy, hmp', hd', hm']
  refine Prod.ext ?_ rfl
  simp only [hY]
  split_ifs <;> omega

theorem civilFromDays_eq (z : ℤ) :
    civilFromDays z = ((civil z).1, ((civil z).2.1 : ℤ), ((civil z).2.2 : ℤ)) := by
  rcases hcivil : civil z with ⟨y, m, d⟩
  have hvalid := valid_civil z
  have hday := dayNumber_civil z
  rw [hcivil] at hvalid hday
  rw [← hday, ← daysFromCivil_eq hvalid.1 hvalid.2.1, civilFromDays_daysFromCivil hvalid]

/-! ## Overflow -/

theorem i64?_eq {x : ℤ} (hlo : -2 ^ 63 ≤ x) (hhi : x < 2 ^ 63) : i64? x = some x :=
  if_pos ⟨hlo, hhi⟩

theorem i64?_eq_some {x y : ℤ} : i64? x = some y ↔ (-2 ^ 63 ≤ x ∧ x < 2 ^ 63) ∧ x = y := by
  simp [i64?]

/-- The date of a day is computed as long as the first sum fits. -/
theorem civilFromDays?_eq {z : ℤ} (hlo : -2 ^ 63 ≤ z + 719468) (hhi : z + 719468 < 2 ^ 63) :
    civilFromDays? z = some (civil z) := by
  have hdate := civilFromDays_eq z
  simp only [civilFromDays, Prod.mk.injEq] at hdate
  simp only [civilFromDays?, i64?_eq hlo hhi, Option.bind_eq_bind, Option.bind_some]
  generalize hdoe : (z + 719468) % 146097 = doe at hdate ⊢
  generalize hera : (z + 719468) / 146097 = era at hdate ⊢
  generalize hyoe : (doe - doe / 1460 + doe / 36524 - doe / 146096) / 365 = yoe at hdate ⊢
  have hyoe : 0 ≤ yoe ∧ yoe ≤ 400 := by omega
  generalize doe - (365 * yoe + yoe / 4 - yoe / 100) = doy at hdate ⊢
  obtain ⟨hyear, hmonth, hday⟩ := hdate
  rw [i64?_eq (x := era * 400) (by omega) (by omega), Option.bind_some,
    i64?_eq (x := yoe + era * 400) (by omega) (by omega), Option.bind_some]
  rw [hmonth] at hyear
  simp only [hmonth, hday, Int.toNat_natCast]
  have hsame : (if (civil z).2.1 ≤ 2 then yoe + era * 400 + 1 else yoe + era * 400) =
      (civil z).1 := by
    rw [← hyear]
    exact if_congr Nat.cast_le_ofNat.symm rfl rfl
  rw [hsame, i64?_eq (x := (civil z).1) (by split_ifs at hyear <;> omega)
    (by split_ifs at hyear <;> omega), Option.bind_some]
  rfl

theorem civilFromDays?_eq_some {z : ℤ} {t : Ymd} : civilFromDays? z = some t ↔
    (-2 ^ 63 ≤ z + 719468 ∧ z + 719468 < 2 ^ 63) ∧ t = civil z := by
  constructor
  · intro h
    have hfits : -2 ^ 63 ≤ z + 719468 ∧ z + 719468 < 2 ^ 63 := by
      simp only [civilFromDays?, Option.bind_eq_bind, Option.bind_eq_some_iff] at h
      obtain ⟨x, hx, -⟩ := h
      exact (i64?_eq_some.mp hx).1
    rw [civilFromDays?_eq hfits.1 hfits.2] at h
    exact ⟨hfits, (Option.some.inj h).symm⟩
  · rintro ⟨hfits, rfl⟩
    exact civilFromDays?_eq hfits.1 hfits.2

/-- The day of a date is computed as long as it fits, and what is left of the 1st of March 0000
does. -/
theorem daysFromCivil?_eq_some {y : ℤ} {m d : ℕ} (h : Valid (y, m, d)) {z : ℤ} :
    daysFromCivil? y m d = some z ↔
      -2 ^ 63 ≤ z ∧ z + 719468 < 2 ^ 63 ∧ z = dayNumber (y, m, d) := by
  obtain ⟨hm, hm', hd, hd', -, -⟩ := Valid.cases h
  have hvalue := daysFromCivil_eq (y := y) (d := d) hm hm'
  simp only [daysFromCivil] at hvalue
  simp only [daysFromCivil?, Option.bind_eq_bind]
  generalize hmp : (if (m : ℤ) > 2 then (m : ℤ) - 3 else m + 9) = mp at hvalue ⊢
  have hmp : 0 ≤ mp ∧ mp ≤ 11 := by
    split_ifs at hmp <;> omega
  have hshift : ∀ {x : ℤ}, -2 ^ 62 ≤ x → x ≤ 2 ^ 62 → i64? x = some x := fun hlo hhi =>
    i64?_eq (by omega) (by omega)
  generalize hY : (if (m : ℤ) ≤ 2 then y - 1 else y) = Y at hvalue ⊢
  have hdoy : 0 ≤ (153 * mp + 2) / 5 ∧ (153 * mp + 2) / 5 ≤ 337 := by omega
  rw [hshift (x := mp) (by omega) (by omega)]
  simp only [Option.bind_some]
  rw [hshift (x := 153 * mp) (by omega) (by omega)]
  simp only [Option.bind_some]
  rw [hshift (x := 153 * mp + 2) (by omega) (by omega)]
  simp only [Option.bind_some]
  rw [Int.tdiv_eq_ediv_of_nonneg (by omega), hshift (x := (153 * mp + 2) / 5 + d) (by omega)
    (by omega)]
  simp only [Option.bind_some]
  rw [hshift (x := (153 * mp + 2) / 5 + d - 1) (by omega) (by omega)]
  simp only [Option.bind_some, Option.bind_eq_some_iff, i64?_eq_some, ← hvalue]
  constructor
  · rintro ⟨_, ⟨-, rfl⟩, _, ⟨-, rfl⟩, _, ⟨-, rfl⟩, _, ⟨hsum, rfl⟩, hlast, rfl⟩
    exact ⟨hlast.1, by omega, rfl⟩
  · rintro ⟨hlo, hhi, rfl⟩
    exact ⟨_, ⟨by omega, rfl⟩, _, ⟨by omega, rfl⟩, _, ⟨by omega, rfl⟩, _, ⟨by omega, rfl⟩,
      by omega, rfl⟩

/-! ## Texts -/

theorem bounds_of_valid {t : Ymd} (h : Valid t) :
    1 ≤ t.2.1 ∧ t.2.1 ≤ 12 ∧ 1 ≤ t.2.2 ∧ t.2.2 ≤ 31 := by
  obtain ⟨y, m, d⟩ := t
  obtain ⟨hm, hm', hd, hd', -⟩ := Valid.cases h
  exact ⟨hm, hm', hd, hd'⟩

theorem twoDigits_eq {n : ℕ} (h : n < 100) : twoDigits n = isoDate.pad 2 n := by
  have hall : ∀ k : ℕ, k < 100 → twoDigits k = isoDate.pad 2 k := by decide +kernel
  exact hall n h

theorem fourDigits_eq {y : ℤ} (h : 0 ≤ y) : fourDigits y = isoDate.pad 4 y := by
  rw [fourDigits, if_neg (by omega), Int.natAbs_of_nonneg h]

/-- The name of the weekday of a day. -/
def dayName (z : ℤ) : String := weekdays.getD ((z + 4) % 7).toNat ""

/-- The weekdays come one after the other. -/
theorem dayName_succ (z : ℤ) : ∃ i < 7, dayName z = weekdays.getD i "" ∧
    dayName (z + 1) = weekdays.getD ((i + 1) % 7) "" := by
  refine ⟨((z + 4) % 7).toNat, by omega, rfl, ?_⟩
  rw [dayName]
  congr 1
  omega

/-- The clock of the second `n` of a day. -/
def clockText (n : ℕ) : String :=
  isoDate.pad 2 (n / 3600 : ℕ) ++ ":" ++ isoDate.pad 2 (n / 60 % 60 : ℕ) ++ ":" ++
    isoDate.pad 2 (n % 60 : ℕ)

/-- The three texts of a time have one date and one clock in them. -/
structure Written (unix : ℤ) (y : ℤ) (m d n : ℕ) : Prop where
  stamp : utcStamp unix = stampText (y, m, d) n
  iso : iso8601Utc unix = isoDate.pad 4 y ++ "-" ++ isoDate.pad 2 m ++ "-" ++ isoDate.pad 2 d ++
    "T" ++ clockText n ++ "Z"
  rfc : rfc2822Utc unix = dayName (unix / 86400) ++ ", " ++ isoDate.pad 2 d ++ " " ++
    months.getD (m - 1) "" ++ " " ++ toString y ++ " " ++ clockText n ++ " +0000"

theorem written {unix : ℤ} (h : InYears unix) :
    Written unix (civil (unix / 86400)).1 (civil (unix / 86400)).2.1 (civil (unix / 86400)).2.2
      (unix % 86400).toNat := by
  obtain ⟨hm, hm', hd, hd'⟩ := bounds_of_valid (valid_civil (unix / 86400))
  obtain ⟨n, hn⟩ := Int.eq_ofNat_of_zero_le (Int.emod_nonneg unix (b := 86400) (by decide))
  have hlt : n < 86400 := by omega
  have hhour : twoDigits ((n : ℤ) / 3600) = isoDate.pad 2 (n / 3600 : ℕ) :=
    twoDigits_eq (n := n / 3600) (by omega)
  have hminute : twoDigits ((n : ℤ) % 3600 / 60) = isoDate.pad 2 (n / 60 % 60 : ℕ) := by
    rw [show (n : ℤ) % 3600 / 60 = ((n / 60 % 60 : ℕ) : ℤ) by omega, twoDigits_eq (by omega)]
  have hsecond : twoDigits ((n : ℤ) % 60) = isoDate.pad 2 (n % 60 : ℕ) :=
    twoDigits_eq (n := n % 60) (by omega)
  constructor
  · rw [utcStamp, if_pos (isTime_of_inYears h)]
  · simp only [iso8601Utc, civilFromDays_eq, hn, hhour, hminute, hsecond, fourDigits_eq h.1,
      twoDigits_eq (n := (civil (unix / 86400)).2.1) (by omega),
      twoDigits_eq (n := (civil (unix / 86400)).2.2) (by omega), clockText, Int.toNat_natCast,
      String.append_assoc]
  · have hmonth : (((civil (unix / 86400)).2.1 : ℤ) - 1).toNat = (civil (unix / 86400)).2.1 - 1 := by
      omega
    simp only [rfc2822Utc, civilFromDays_eq, hn, hhour, hminute, hsecond, dayName, hmonth,
      twoDigits_eq (n := (civil (unix / 86400)).2.2) (by omega), clockText, Int.toNat_natCast,
      String.append_assoc]

/-! ## The two formulas and the texts -/

/-- **Calendar arithmetic.** Where nothing overflows, `civil_from_days` gives the dates that there
are, each for its day and in their order, and `days_from_civil` is its inverse. The stamp of a time
in the years 0 to 9999 is read back, the other texts have the same date, and the weekdays go round,
from a Thursday. -/
theorem calendar_arithmetic :
    (∀ z t, -2 ^ 63 ≤ z → civilFromDays? z = some t →
      Valid t ∧ daysFromCivil? t.1 t.2.1 t.2.2 = some z) ∧
    (∀ z z' t t', civilFromDays? z = some t → civilFromDays? z' = some t' →
      (z < z' ↔ Earlier t t')) ∧
    (∀ t z, Valid t → daysFromCivil? t.1 t.2.1 t.2.2 = some z → civilFromDays? z = some t) ∧
    (∀ unix, InYears unix → utcEpoch (utcStamp unix) = some unix ∧
      ∃ y m d, civilFromDays? (unix / 86400) = some (y, m, d) ∧
        Written unix y m d (unix % 86400).toNat) ∧
    dayName 0 = "Thu" ∧
    ∀ z, ∃ i < 7, dayName z = weekdays.getD i "" ∧
      dayName (z + 1) = weekdays.getD ((i + 1) % 7) "" := by
  refine ⟨fun z t hz ht => ?_, fun z z' t t' ht ht' => ?_, fun t z hvalid hz => ?_,
    fun unix h => ?_, rfl, dayName_succ⟩
  · obtain ⟨hfits, rfl⟩ := civilFromDays?_eq_some.mp ht
    exact ⟨valid_civil z, (daysFromCivil?_eq_some (valid_civil z)).mpr
      ⟨hz, hfits.2, (dayNumber_civil z).symm⟩⟩
  · obtain ⟨-, rfl⟩ := civilFromDays?_eq_some.mp ht
    obtain ⟨-, rfl⟩ := civilFromDays?_eq_some.mp ht'
    rw [earlier_iff (valid_civil z) (valid_civil z'), dayNumber_civil, dayNumber_civil]
  · obtain ⟨hlo, hhi, rfl⟩ := (daysFromCivil?_eq_some hvalid).mp hz
    exact civilFromDays?_eq_some.mpr ⟨⟨by omega, hhi⟩, (civil_dayNumber hvalid).symm⟩
  · refine ⟨utcEpoch_utcStamp h, _, _, _, civilFromDays?_eq_some.mpr ⟨?_, rfl⟩, written h⟩
    obtain ⟨hlo, hhi⟩ := isTime_of_inYears h
    rw [minDate_eq] at hlo
    rw [maxDate_eq] at hhi
    omega

end Owney.Time
