import Owney.Transaction

/-!
# Scheduling pages

The availability document of a page and the checks every page passes before it is
stored (`validate_common`, `validate_slug`): a weekly table of wall-clock windows,
overrides for single dates, durations, buffers, notice and a validity range.

Two things come from outside: which names are IANA timezones, and which characters
`{:?}` prints as they are.
-/

namespace Owney

/-- What the checks take from `chrono_tz` and from the Unicode tables of `std`. -/
structure Locale where
  /-- `timezone.parse::<chrono_tz::Tz>().is_ok()` -/
  isTimezone : String → Bool
  /-- printed as it is by `{:?}` -/
  printable : Char → Bool

/-! ## Text -/

/-- One character of a `{:?}` of a string. -/
def debugChar (L : Locale) (c : Char) : List Char :=
  match c with
  | '\x00' => ['\\', '0']
  | '\t' => ['\\', 't']
  | '\r' => ['\\', 'r']
  | '\n' => ['\\', 'n']
  | '"' => ['\\', '"']
  | '\\' => ['\\', '\\']
  | c =>
    if L.printable c then [c]
    else "\\u\x7b".toList ++ Nat.toDigits 16 c.toNat ++ ['\x7d']

/-- `format!("{s:?}")`. -/
def debug (L : Locale) (s : String) : String :=
  String.ofList ('"' :: (s.toList.flatMap (debugChar L) ++ ['"']))

/-- A non-empty list of decimal digits as a number. -/
def parseDigits (cs : List Char) : Option ℕ :=
  if cs ≠ [] ∧ cs.all Char.isDigit then
    some (cs.foldl (fun n c => 10 * n + (c.toNat - 48)) 0)
  else none

/-- `str::parse::<u32>`. -/
def parseU32 (cs : List Char) : Option ℕ :=
  let digits := match cs with
    | '+' :: cs => cs
    | cs => cs
  (parseDigits digits).filter (· < 2 ^ 32)

/-- `str::parse::<i32>`. -/
def parseI32 (cs : List Char) : Option ℤ :=
  match cs with
  | '-' :: cs => ((parseDigits cs).filter (· ≤ 2 ^ 31)).map fun n => -(n : ℤ)
  | '+' :: cs => ((parseDigits cs).filter (· < 2 ^ 31)).map Int.ofNat
  | cs => ((parseDigits cs).filter (· < 2 ^ 31)).map Int.ofNat

/-- `str::split_once`: split at the first occurrence. -/
def splitOnce (c : Char) (cs : List Char) : Option (List Char × List Char) :=
  if c ∈ cs then some (cs.takeWhile (· ≠ c), (cs.dropWhile (· ≠ c)).tail) else none

/-- `parse_date`: `YYYY-MM-DD` with range checks. The source counts bytes; a character
of more than one byte fails to parse wherever it stands. -/
def parseDate (value : String) : Option (ℤ × ℕ × ℕ) := do
  let cs := value.toList
  if cs.length ≠ 10 ∨ cs[4]? ≠ some '-' ∨ cs[7]? ≠ some '-' then
    none
  let year ← parseI32 (cs.take 4)
  let month ← parseU32 ((cs.take 7).drop 5)
  let day ← parseU32 ((cs.take 10).drop 8)
  if 1 ≤ month ∧ month ≤ 12 ∧ 1 ≤ day ∧ day ≤ 31 then some (year, month, day) else none

/-! ## Availability -/

/-- `WEEKDAY_KEYS`. -/
def weekdayKeys : List String := ["mon", "tue", "wed", "thu", "fri", "sat", "sun"]

/-- One wall-clock window within a day, `"HH:MM".."HH:MM"`. -/
structure TimeWindow where
  start : String
  stop : String
  deriving DecidableEq, Repr

/-- The availability document; the tables are in the order of their keys. -/
structure Availability where
  version : ℕ
  weekly : List (String × List TimeWindow)
  overrides : List (String × List TimeWindow)
  deriving DecidableEq, Repr

/-- `Availability::default_business_hours`. -/
def Availability.defaultBusinessHours : Availability where
  version := 1
  weekly := ["fri", "mon", "thu", "tue", "wed"].map fun day => (day, [⟨"09:00", "17:00"⟩])
  overrides := []

/-- A check: nothing, or the text of a `BadInput`. -/
abbrev Check (α : Type) : Type := Except String α

/-- Fail with the text unless the condition holds. -/
def check (c : Prop) [Decidable c] (msg : String) : Check Unit :=
  if c then .ok () else .error msg

@[simp] theorem check_eq_ok {c : Prop} [Decidable c] {msg : String} {u : Unit} :
    check c msg = .ok u ↔ c := by
  unfold check
  split <;> simp_all

/-- One end of a window, in minutes since midnight. -/
def parseTime (L : Locale) (value : String) : Check ℕ :=
  match splitOnce ':' value.toList with
  | none => .error ("bad time " ++ debug L value)
  | some (h, m) =>
    match parseU32 h, parseU32 m with
    | some h, some m =>
      if h < 24 ∧ m < 60 ∧ h < 100 then .ok (h * 60 + m)
      else .error ("bad time " ++ debug L value)
    | _, _ => .error ("bad time " ++ debug L value)

/-- `TimeWindow::parse_minutes`. -/
def TimeWindow.parseMinutes (L : Locale) (w : TimeWindow) : Check (ℕ × ℕ) := do
  let start ← parseTime L w.start
  let stop ← parseTime L w.stop
  return (start, stop)

/-- The windows of one day: not empty, sorted, and not overlapping. -/
def validateWindows (L : Locale) : ℕ → List TimeWindow → Check Unit
  | _, [] => .ok ()
  | previousEnd, w :: ws => do
    let (start, stop) ← w.parseMinutes L
    check (start < stop) ("window " ++ w.start ++ "-" ++ w.stop ++ " is empty or reversed")
    check (previousEnd ≤ start) "windows must be sorted and non-overlapping"
    validateWindows L stop ws

/-- `Availability::validate`. -/
def Availability.validate (L : Locale) (a : Availability) : Check Unit := do
  check (a.version = 1) ("unsupported availability version " ++ toString a.version)
  for (day, _) in a.weekly do
    check (day ∈ weekdayKeys) ("unknown weekday " ++ debug L day)
  for (date, _) in a.overrides do
    check ((parseDate date).isSome)
      ("bad override date " ++ debug L date ++ " (want YYYY-MM-DD)")
  for (_, windows) in a.weekly ++ a.overrides do
    validateWindows L 0 windows

/-! ## Pages -/

/-- The `status` column of a page. -/
inductive PageStatus where
  | active
  | paused
  deriving DecidableEq, Repr

/-- A row of `scheduling_pages`. -/
structure SchedulingPage where
  id : SchedulingPageId
  accountId : AccountId
  slug : String
  title : String
  description : Option String
  calendarId : CalendarId
  timezone : String
  availability : Availability
  durationsMins : List ℕ
  bufferBeforeMins : ℕ
  bufferAfterMins : ℕ
  minNoticeMins : ℕ
  maxPerDay : Option ℕ
  validFrom : Option String
  validUntil : Option String
  status : PageStatus
  createdAt : ℤ
  updatedAt : ℤ
  deriving DecidableEq, Repr

/-- Creation input. -/
structure NewSchedulingPage where
  slug : String
  title : String
  description : Option String
  calendarId : CalendarId
  timezone : String
  availability : Availability
  durationsMins : List ℕ
  bufferBeforeMins : ℕ
  bufferAfterMins : ℕ
  minNoticeMins : ℕ
  maxPerDay : Option ℕ
  validFrom : Option String
  validUntil : Option String
  deriving DecidableEq, Repr

/-- Partial update; `none` fields are left unchanged. -/
structure SchedulingPagePatch where
  title : Option String := none
  description : Option (Option String) := none
  timezone : Option String := none
  availability : Option Availability := none
  durationsMins : Option (List ℕ) := none
  bufferBeforeMins : Option ℕ := none
  bufferAfterMins : Option ℕ := none
  minNoticeMins : Option ℕ := none
  maxPerDay : Option (Option ℕ) := none
  validFrom : Option (Option String) := none
  validUntil : Option (Option String) := none
  status : Option PageStatus := none
  deriving DecidableEq, Repr

/-- `validate_slug`. -/
def validateSlug (L : Locale) (slug : String) : Check Unit :=
  let okLen := 2 ≤ slug.utf8ByteSize ∧ slug.utf8ByteSize ≤ 64
  let okChars := slug.toList.all fun c =>
    ('a' ≤ c ∧ c ≤ 'z') ∨ ('0' ≤ c ∧ c ≤ '9') ∨ c = '-'
  check (okLen ∧ okChars ∧ slug.toList.head? ≠ some '-' ∧ slug.toList.getLast? ≠ some '-')
    ("slug " ++ debug L slug ++ " must be 2-64 chars of [a-z0-9-], not edged with '-'")

/-- The check on a title. -/
def validateTitle (title : String) : Check Unit :=
  check (title.utf8ByteSize ≠ 0 ∧ title.utf8ByteSize ≤ 200) "title must be 1-200 chars"

/-- `validate_common`. -/
def validateCommon (L : Locale) (timezone : String) (availability : Availability)
    (durations : List ℕ) (bufferBefore bufferAfter minNotice : ℕ)
    (validFrom validUntil : Option String) : Check Unit := do
  check (L.isTimezone timezone) ("unknown IANA timezone " ++ debug L timezone)
  availability.validate L
  check (durations ≠ [] ∧ ∀ d ∈ durations, 5 ≤ d ∧ d ≤ 480)
    "durations must be 1+ values between 5 and 480 minutes"
  check (bufferBefore ≤ 24 * 60 ∧ bufferAfter ≤ 24 * 60 ∧ minNotice ≤ 90 * 24 * 60)
    "buffers must be <= 24h and notice <= 90 days"
  for date in validFrom.toList ++ validUntil.toList do
    check ((parseDate date).isSome) ("bad date " ++ debug L date ++ " (want YYYY-MM-DD)")
  match validFrom, validUntil with
  | some from', some until' => check (¬until' < from') "validFrom must not be after validUntil"
  | _, _ => .ok ()

/-- The checks of a new page, in their order. -/
def NewSchedulingPage.validate (L : Locale) (new : NewSchedulingPage) : Check Unit := do
  validateSlug L new.slug
  validateCommon L new.timezone new.availability new.durationsMins new.bufferBeforeMins
    new.bufferAfterMins new.minNoticeMins new.validFrom new.validUntil
  validateTitle new.title

/-- The row a creation inserts. -/
def NewSchedulingPage.row (new : NewSchedulingPage) (id : SchedulingPageId)
    (accountId : AccountId) (now : ℤ) : SchedulingPage where
  id := id
  accountId := accountId
  slug := new.slug
  title := new.title
  description := new.description
  calendarId := new.calendarId
  timezone := new.timezone
  availability := new.availability
  durationsMins := new.durationsMins
  bufferBeforeMins := new.bufferBeforeMins
  bufferAfterMins := new.bufferAfterMins
  minNoticeMins := new.minNoticeMins
  maxPerDay := new.maxPerDay
  validFrom := new.validFrom
  validUntil := new.validUntil
  status := .active
  createdAt := now
  updatedAt := now

/-- A page with a patch applied. Owner, slug and calendar cannot be patched. -/
def SchedulingPage.patch (page : SchedulingPage) (patch : SchedulingPagePatch) :
    SchedulingPage :=
  { page with
    title := patch.title.getD page.title
    description := patch.description.getD page.description
    timezone := patch.timezone.getD page.timezone
    availability := patch.availability.getD page.availability
    durationsMins := patch.durationsMins.getD page.durationsMins
    bufferBeforeMins := patch.bufferBeforeMins.getD page.bufferBeforeMins
    bufferAfterMins := patch.bufferAfterMins.getD page.bufferAfterMins
    minNoticeMins := patch.minNoticeMins.getD page.minNoticeMins
    maxPerDay := patch.maxPerDay.getD page.maxPerDay
    validFrom := patch.validFrom.getD page.validFrom
    validUntil := patch.validUntil.getD page.validUntil
    status := patch.status.getD page.status }

/-- The checks of a patched page, in their order. -/
def SchedulingPage.validate (L : Locale) (page : SchedulingPage) : Check Unit := do
  validateTitle page.title
  validateCommon L page.timezone page.availability page.durationsMins page.bufferBeforeMins
    page.bufferAfterMins page.minNoticeMins page.validFrom page.validUntil

end Owney
