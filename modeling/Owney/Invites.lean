import Owney.Lib.Folding
import Owney.OAuthStore
import Owney.SchedulePanics

/-!
# Invites

A booking is confirmed with an invite (`owney-api/src/schedule/ics.rs`), which the detector of
another mailbox reads with a parser of its own (`owney-ai/src/ics.rs`). Texts are lists of
characters.

* `unfolded_render_iff` — the lines of an invite are the intended ones exactly if no name, no
  address and no id has a line break in it.
* `parseInvite_of_lines` — what the parser finds in the intended lines.
* `roundTrips_iff` — which bookings get an invite that is read back.
-/

namespace Owney.Invites

open Schedule Gregorian Folding Programs Programs.Prog

/-! ## Writing -/

/-- `IcsInvite`; `stop` is the field `end`. -/
structure IcsInvite where
  uid : List Char
  dtstamp : ℤ
  start : ℤ
  stop : ℤ
  summary : List Char
  description : Option (List Char)
  organizerName : List Char
  organizerEmail : List Char
  attendeeName : List Char
  attendeeEmail : List Char
  deriving DecidableEq, Repr

/-- A number with leading zeros. -/
def pad (width n : ℕ) : List Char := (isoDate.pad width n).toList

/-- `%Y%m%dT%H%M%SZ`, for the date `t` and the second `n` of the day. -/
def stampText : Ymd → ℕ → List Char
  | (y, m, d), n =>
    (yearText y).toList ++ pad 2 m ++ pad 2 d ++ 'T' :: pad 2 (n / 3600) ++ pad 2 (n / 60 % 60) ++
      pad 2 (n % 60) ++ ['Z']

/-- `utc_stamp`. -/
def utcStamp (unix : ℤ) : List Char :=
  if IsTime unix then stampText (civil (unix / 86400)) (unix % 86400).toNat
  else "19700101T000000Z".toList

/-- The text of one character. -/
def escapeChar : Char → List Char
  | '\\' => ['\\', '\\']
  | ';' => ['\\', ';']
  | ',' => ['\\', ',']
  | '\n' => ['\\', 'n']
  | '\r' => []
  | c => [c]

/-- `escape_text`. -/
def escapeText (value : List Char) : List Char := value.flatMap escapeChar

/-- `quote_param`. -/
def quoteParam (value : List Char) : List Char :=
  let cleaned := value.filter (· ≠ '"')
  if ∃ c ∈ cleaned, c = ';' ∨ c = ':' ∨ c = ',' then '"' :: cleaned ++ ['"'] else cleaned

/-- `fold`. -/
def fold (line : List Char) : List Char := foldLine Char.utf8Size 75 74 line

/-- The lines that are written. -/
def contents (invite : IcsInvite) : List (List Char) :=
  ["BEGIN:VCALENDAR".toList, "VERSION:2.0".toList, "PRODID:-//Owney//Scheduling//EN".toList,
    "METHOD:REQUEST".toList, "BEGIN:VEVENT".toList, "UID:".toList ++ invite.uid,
    "DTSTAMP:".toList ++ utcStamp invite.dtstamp, "DTSTART:".toList ++ utcStamp invite.start,
    "DTEND:".toList ++ utcStamp invite.stop, "SUMMARY:".toList ++ escapeText invite.summary] ++
  (invite.description.toList.map fun text => "DESCRIPTION:".toList ++ escapeText text) ++
  ["ORGANIZER;CN=".toList ++ quoteParam invite.organizerName ++ ":mailto:".toList ++
      invite.organizerEmail,
    "ATTENDEE;CN=".toList ++ quoteParam invite.attendeeName ++
      ";ROLE=REQ-PARTICIPANT;PARTSTAT=ACCEPTED:mailto:".toList ++ invite.attendeeEmail,
    "END:VEVENT".toList, "END:VCALENDAR".toList]

/-- `render`. -/
def render (invite : IcsInvite) : List Char :=
  (contents invite).flatMap fun line => fold line ++ ['\r', '\n']

/-- The invite of `send_confirmations`. -/
def confirmationInvite (host : String) (owner : OwnerRow) (booking : Booking) : IcsInvite :=
  let ownerLabel := owner.displayName.getD owner.email
  { uid := booking.id.uuid.toString.toList ++ '@' :: host.toList
    dtstamp := booking.createdAt
    start := booking.start
    stop := booking.stop
    summary := ("Meeting: " ++ booking.visitorName ++ " & " ++ ownerLabel).toList
    description := booking.note.map String.toList
    organizerName := ownerLabel.toList
    organizerEmail := owner.email.toList
    attendeeName := booking.visitorName.toList
    attendeeEmail := booking.visitorEmail.toList }

/-! ## Reading -/

/-- `str::trim`. -/
def trim (text : List Char) : List Char := trimList isWhitespace text

/-- `to_ascii_uppercase`. -/
def upper (text : List Char) : List Char := text.map Char.toUpper

/-- The text before the first colon outside of quotes, and the text after it. -/
def splitColon : Bool → List Char → Option (List Char × List Char)
  | _, [] => none
  | inQuotes, c :: cs =>
    if c = ':' ∧ inQuotes = false then some ([], cs)
    else (splitColon (inQuotes ^^ (c = '"')) cs).map fun (head, value) => (c :: head, value)

/-- `split_property`: name, parameters and value. -/
def splitProperty (line : List Char) : Option (List Char × List Char × List Char) :=
  (splitColon false line).map fun (head, value) =>
    let (name, params) := (splitOnce ';' head).getD (head, [])
    (upper (trim name), params, trim value)

/-- `unescape`. -/
def unescape : List Char → List Char
  | [] => []
  | ['\\'] => ['\\']
  | '\\' :: c :: cs => (if c = 'n' ∨ c = 'N' then '\n' else c) :: unescape cs
  | c :: cs => c :: unescape cs

/-- `days_from_civil`. -/
def daysFromCivil (y m d : ℤ) : ℤ :=
  let y := if m ≤ 2 then y - 1 else y
  let era := y / 400
  let yoe := y % 400
  let doy := (153 * (if m > 2 then m - 3 else m + 9) + 2) / 5 + d - 1
  let doe := yoe * 365 + yoe / 4 - yoe / 100 + doy
  era * 146097 + doe - 719468

/-- The date and the time of a value. The source counts bytes; where it goes on, all characters
but the `T` and the `Z` are digits. -/
def dateAndTime (value : List Char) : Option (List Char × List Char) :=
  let len := (value.map Char.utf8Size).sum
  if len = 8 then some (value, "000000".toList)
  else if len = 16 ∧ value[8]? = some 'T' ∧ value.getLast? = some 'Z' then
    some (value.take 8, (value.drop 9).take 6)
  else none

/-- `utc_epoch`. -/
def utcEpoch (value : List Char) : Option ℤ := do
  let (date, time) ← dateAndTime value
  if ¬(date.all Char.isDigit ∧ time.all Char.isDigit) then
    none
  let year ← parseDigits (date.take 4)
  let month ← parseDigits ((date.take 6).drop 4)
  let day ← parseDigits ((date.take 8).drop 6)
  let hour ← parseDigits (time.take 2)
  let minute ← parseDigits ((time.take 4).drop 2)
  let second ← parseDigits ((time.take 6).drop 4)
  if ¬(1 ≤ month ∧ month ≤ 12) ∨ ¬(1 ≤ day ∧ day ≤ 31) ∨ 23 < hour ∨ 59 < minute then
    none
  return daysFromCivil year month day * 86400 + hour * 3600 + minute * 60 + second

/-- What has been read of an invite. -/
structure Scan where
  inEvent : Bool := false
  sawEvent : Bool := false
  method : Option (List Char) := none
  uid : Option (List Char) := none
  summary : Option (List Char) := none
  location : Option (List Char) := none
  organizer : Option (List Char) := none
  dtstart : Option (List Char × List Char) := none
  dtend : Option (List Char × List Char) := none

/-- `eq_ignore_ascii_case`. -/
def eqIgnoreAsciiCase (a b : List Char) : Bool := a.map Char.toLower = b.map Char.toLower

/-- A property that is not the start of an event. -/
def Scan.property (s : Scan) (name params value : List Char) : Scan :=
  match s.inEvent, String.ofList name with
  | false, "METHOD" => { s with method := some (upper value) }
  | true, "END" =>
    if eqIgnoreAsciiCase value "VEVENT".toList then { s with inEvent := false } else s
  | true, "UID" => { s with uid := some value }
  | true, "SUMMARY" => { s with summary := some (unescape value) }
  | true, "LOCATION" => { s with location := some (unescape value) }
  | true, "ORGANIZER" => { s with organizer := some value }
  | true, "DTSTART" => { s with dtstart := some (value, params) }
  | true, "DTEND" => { s with dtend := some (value, params) }
  | _, _ => s

/-- The lines of a text, up to a second event. -/
def scan (s : Scan) : List (List Char) → Scan
  | [] => s
  | line :: lines =>
    match splitProperty line with
    | none => scan s lines
    | some (name, params, value) =>
      if s.inEvent = false ∧ name = "BEGIN".toList ∧ eqIgnoreAsciiCase value "VEVENT".toList then
        if s.sawEvent then s
        else scan { s with inEvent := true, sawEvent := true } lines
      else scan (s.property name params value) lines

/-- The invite that was read; `stop` and `stopAt` are `end` and `endAt`. -/
structure Invite where
  method : Option (List Char)
  uid : Option (List Char)
  summary : Option (List Char)
  location : Option (List Char)
  organizer : Option (List Char)
  start : Option (List Char)
  stop : Option (List Char)
  startAt : Option ℤ
  stopAt : Option ℤ
  deriving DecidableEq, Repr

/-- `parse_invite`. -/
def parseInvite (ics : List Char) : Option Invite :=
  let s := scan {} (unfolded ics)
  if s.sawEvent then
    some {
      method := s.method
      uid := s.uid
      summary := s.summary
      location := s.location
      organizer := s.organizer
      start := s.dtstart.map (·.1)
      stop := s.dtend.map (·.1)
      startAt := s.dtstart.bind fun v => utcEpoch v.1
      stopAt := s.dtend.bind fun v => utcEpoch v.1 }
  else none

/-! ## Times -/

theorem pad_eq (width n : ℕ) :
    pad width n = List.replicate (width - (Nat.toDigits 10 n).length) '0' ++ Nat.toDigits 10 n := by
  have hdigits : (toString n).toList = Nat.toDigits 10 n := Nat.toList_repr
  rw [pad, isoDate.pad, String.toList_append, String.toList_ofList, Int.toNat_natCast, hdigits,
    ← String.length_toList, hdigits]

/-- A number that fits is written with all its digits, and read back. -/
theorem pad_spec {width n : ℕ} (hwidth : 0 < width) (h : n < 10 ^ width) :
    (pad width n).length = width ∧ (∀ c ∈ pad width n, c.isDigit = true) ∧
      parseDigits (pad width n) = some n := by
  have hlength := (Nat.length_toDigits_le_iff (by decide) hwidth).mpr h
  have hdigits : ∀ c ∈ pad width n, c.isDigit = true := by
    intro c hc
    rw [pad_eq, List.mem_append] at hc
    rcases hc with hc | hc
    · rw [List.eq_of_mem_replicate hc]
      rfl
    · exact Nat.isDigit_of_mem_toDigits (by decide) (by decide) hc
  have hlen : (pad width n).length = width := by
    rw [pad_eq, List.length_append, List.length_replicate]
    omega
  refine ⟨hlen, hdigits, ?_⟩
  have hne : pad width n ≠ [] := List.ne_nil_of_length_pos (by omega)
  have hvalue : Nat.ofDigitChars 10 (pad width n) 0 = n := by
    rw [pad_eq, Nat.ofDigitChars_append, Nat.ofDigitChars_replicate_zero, Nat.mul_zero,
      Nat.ofDigitChars_ten_toDigits]
  rw [parseDigits, if_pos ⟨hne, List.all_eq_true.mpr hdigits⟩]
  exact congrArg some (Nat.ofDigitChars_eq_foldl.symm.trans hvalue)

/-- The leap years of the eras before, and of the era of a year. -/
theorem div_era (y : ℤ) :
    y / 4 = 100 * (y / 400) + y % 400 / 4 ∧ y / 100 = 4 * (y / 400) + y % 400 / 100 := by
  constructor <;> omega

/-- Two ways to count the days of a calendar. -/
theorem daysFromCivil_eq {y : ℤ} {m d : ℕ} (hm : 1 ≤ m) (hm' : m ≤ 12) :
    daysFromCivil y m d = dayNumber (y, m, d) := by
  obtain ⟨h4, h100⟩ := div_era y
  obtain ⟨h4', h100'⟩ := div_era (y - 1)
  have hnext := yearStart_succ y
  simp only [yearStart, yearLength] at hnext
  rw [Int.add_sub_cancel] at hnext
  cases h : isLeap y with
  | false =>
    simp only [h, Bool.false_eq_true, if_false] at hnext
    interval_cases m <;> simp [daysFromCivil, dayNumber, yearStart, monthLengths, h] <;> omega
  | true =>
    simp only [h, if_true] at hnext
    interval_cases m <;> simp [daysFromCivil, dayNumber, yearStart, monthLengths, h] <;> omega

/-- A number of two digits, or of four. -/
theorem pad_two {n : ℕ} (h : n < 100) : ∃ a b, pad 2 n = [a, b] ∧
    (a.isDigit = true ∧ b.isDigit = true) ∧ parseDigits [a, b] = some n := by
  obtain ⟨hlen, hdigits, hvalue⟩ := @pad_spec 2 n (by decide) h
  obtain ⟨a, b, heq⟩ := List.length_eq_two.mp hlen
  rw [heq] at hdigits hvalue
  exact ⟨a, b, heq, by simpa using hdigits, hvalue⟩

theorem pad_four {n : ℕ} (h : n < 10000) : ∃ a b c d, pad 4 n = [a, b, c, d] ∧
    (a.isDigit = true ∧ b.isDigit = true ∧ c.isDigit = true ∧ d.isDigit = true) ∧
      parseDigits [a, b, c, d] = some n := by
  obtain ⟨hlen, hdigits, hvalue⟩ := @pad_spec 4 n (by decide) h
  obtain ⟨a, cs, heq⟩ := List.exists_cons_of_length_eq_add_one hlen
  rw [heq, List.length_cons] at hlen
  obtain ⟨b, c, d, rfl⟩ := List.length_eq_three.mp (Nat.succ.inj hlen)
  rw [heq] at hdigits hvalue
  exact ⟨a, b, c, d, heq, by simpa using hdigits, hvalue⟩

theorem utf8Size_of_isDigit {c : Char} (h : c.isDigit = true) : c.utf8Size = 1 := by
  simp only [Char.isDigit, Bool.and_eq_true, decide_eq_true_eq] at h
  exact Char.utf8Size_eq_one_iff.mpr (UInt32.le_trans h.2 (by decide))

theorem sum_utf8Size {cs : List Char} (h : ∀ c ∈ cs, c.isDigit = true) :
    (cs.map Char.utf8Size).sum = cs.length := by
  induction cs with
  | nil => rfl
  | cons c cs ih =>
    rw [List.forall_mem_cons] at h
    rw [List.map_cons, List.sum_cons, ih h.2, utf8Size_of_isDigit h.1, List.length_cons,
      Nat.add_comm]

theorem dateAndTime_eq {date time : List Char} (hdate : date.length = 8) (htime : time.length = 6)
    (hdigits : ∀ c ∈ date ++ time, c.isDigit = true) :
    dateAndTime (date ++ 'T' :: (time ++ ['Z'])) = some (date, time) := by
  rw [List.forall_mem_append] at hdigits
  have hlen : ((date ++ 'T' :: (time ++ ['Z'])).map Char.utf8Size).sum = 16 := by
    rw [List.map_append, List.sum_append, List.map_cons, List.sum_cons, List.map_append,
      List.sum_append, sum_utf8Size hdigits.1, sum_utf8Size hdigits.2, hdate, htime]
    rfl
  have hT : (date ++ 'T' :: (time ++ ['Z']))[8]? = some 'T' := by
    rw [List.getElem?_append_right hdate.le, hdate]
    rfl
  have hZ : (date ++ 'T' :: (time ++ ['Z'])).getLast? = some 'Z' := by
    simp [List.getLast?_append, List.getLast?_cons]
  have hrest : (date ++ 'T' :: (time ++ ['Z'])).drop 9 = time ++ ['Z'] := by
    rw [List.drop_append, List.drop_eq_nil_of_le (by omega), hdate]
    rfl
  simp only [dateAndTime, hlen, hT, hZ, hrest]
  rw [List.take_left' hdate, List.take_left' htime]
  rfl

/-- **A time that is written** is read back. -/
theorem utcEpoch_stampText {y : ℤ} {m d n : ℕ} (hy : 0 ≤ y ∧ y ≤ 9999) (ht : Valid (y, m, d))
    (hn : n < 86400) :
    utcEpoch (stampText (y, m, d) n) = some (86400 * dayNumber (y, m, d) + n) := by
  obtain ⟨hm, hm', hd, hd'⟩ := ht
  have hday : d ≤ 31 := by
    refine hd'.trans ?_
    interval_cases m <;> simp [monthLengths]
    split_ifs <;> decide
  have hyear : (yearText y).toList = pad 4 y.toNat := by
    rw [yearText, if_pos hy, pad, Int.toNat_of_nonneg hy.1]
  obtain ⟨y₀, y₁, y₂, y₃, hpady, ⟨hy₀, hy₁, hy₂, hy₃⟩, hvaly⟩ := pad_four (n := y.toNat) (by omega)
  obtain ⟨m₀, m₁, hpadm, ⟨hm₀, hm₁⟩, hvalm⟩ := pad_two (n := m) (by omega)
  obtain ⟨d₀, d₁, hpadd, ⟨hd₀, hd₁⟩, hvald⟩ := pad_two (n := d) (by omega)
  obtain ⟨h₀, h₁, hpadh, ⟨hh₀, hh₁⟩, hvalh⟩ := pad_two (n := n / 3600) (by omega)
  obtain ⟨i₀, i₁, hpadi, ⟨hi₀, hi₁⟩, hvali⟩ := pad_two (n := n / 60 % 60) (by omega)
  obtain ⟨s₀, s₁, hpads, ⟨hs₀, hs₁⟩, hvals⟩ := pad_two (n := n % 60) (by omega)
  have hparts : dateAndTime (stampText (y, m, d) n) =
      some ([y₀, y₁, y₂, y₃, m₀, m₁, d₀, d₁], [h₀, h₁, i₀, i₁, s₀, s₁]) := by
    simp only [stampText, hyear, hpady, hpadm, hpadd, hpadh, hpadi, hpads]
    exact @dateAndTime_eq [y₀, y₁, y₂, y₃, m₀, m₁, d₀, d₁] [h₀, h₁, i₀, i₁, s₀, s₁] rfl rfl
      (by simp_all)
  have hdays := daysFromCivil_eq (y := y) (d := d) hm hm'
  have hydays : ((y.toNat : ℕ) : ℤ) = y := Int.toNat_of_nonneg hy.1
  have hall : ([y₀, y₁, y₂, y₃, m₀, m₁, d₀, d₁].all Char.isDigit ∧
      [h₀, h₁, i₀, i₁, s₀, s₁].all Char.isDigit) := by simp_all
  simp only [utcEpoch, hparts, Option.bind_eq_bind, Option.bind_some, hall]
  simp only [List.take, List.drop, hvaly, hvalm, hvald, hvalh, hvali, hvals, Option.bind_some]
  rw [if_neg (by simp), if_neg (by omega), hydays, hdays]
  exact congrArg some (by omega)

/-- An instant of a year that has four digits. -/
def InYears (unix : ℤ) : Prop := 0 ≤ (civil (unix / 86400)).1 ∧ (civil (unix / 86400)).1 ≤ 9999

theorem isTime_of_inYears {unix : ℤ} (h : InYears unix) : IsTime unix := by
  obtain ⟨hle, hlt⟩ := yearOf_spec (unix / 86400)
  have hfirst := (yearStart_le h.1).trans hle
  have hlast := hlt.trans_le (yearStart_le (Int.add_le_add_right h.2 1))
  rw [show yearStart 0 = -719528 by rfl] at hfirst
  rw [show yearStart (9999 + 1) = 2932897 by rfl] at hlast
  rw [IsTime, minDate_eq, maxDate_eq]
  omega

theorem utcEpoch_utcStamp {unix : ℤ} (h : InYears unix) : utcEpoch (utcStamp unix) = some unix := by
  have hvalid := valid_civil (unix / 86400)
  have hday := dayNumber_civil (unix / 86400)
  rw [utcStamp, if_pos (isTime_of_inYears h)]
  rcases hcivil : civil (unix / 86400) with ⟨y, m, d⟩
  rw [InYears, hcivil] at h
  rw [hcivil] at hvalid hday
  rw [utcEpoch_stampText h hvalid (by omega), hday]
  exact congrArg some (by omega)

/-- The characters of a time, whatever it is. -/
theorem mem_utcStamp {unix : ℤ} {c : Char} (h : c ∈ utcStamp unix) :
    c.isDigit = true ∨ c = '-' ∨ c = '+' ∨ c = 'T' ∨ c = 'Z' := by
  have hpad : ∀ {width : ℕ} {n : ℤ}, c ∈ (isoDate.pad width n).toList → c.isDigit = true := by
    intro width n hc
    rw [isoDate.pad, String.toList_append, String.toList_ofList, List.mem_append] at hc
    rcases hc with hc | hc
    · rw [List.eq_of_mem_replicate hc]
      rfl
    · exact Nat.isDigit_of_mem_toDigits (by decide) (by decide) (Nat.toList_repr ▸ hc)
  have hyear : ∀ {y : ℤ}, c ∈ (yearText y).toList → c.isDigit = true ∨ c = '-' ∨ c = '+' := by
    intro y hc
    rw [yearText] at hc
    split_ifs at hc
    · exact .inl (hpad hc)
    all_goals
      rw [String.toList_append, List.mem_append] at hc
      rcases hc with hc | hc
      · simp_all
      · exact .inl (hpad hc)
  rw [utcStamp] at h
  split_ifs at h
  · rcases hcivil : civil (unix / 86400) with ⟨y, m, d⟩
    rw [hcivil] at h
    simp only [stampText, pad, List.mem_append, List.mem_cons, List.not_mem_nil, or_false] at h
    rcases h with (((((h | h) | h) | (rfl | h)) | h) | h) | rfl
    · rcases hyear h with h | rfl | rfl <;> simp [h]
    · exact .inl (hpad h)
    · exact .inl (hpad h)
    · simp
    · exact .inl (hpad h)
    · exact .inl (hpad h)
    · exact .inl (hpad h)
    · simp
  · have hall : ∀ b ∈ "19700101T000000Z".toList,
        b.isDigit = true ∨ b = '-' ∨ b = '+' ∨ b = 'T' ∨ b = 'Z' := by decide
    exact hall c h

/-! ## Blanks and line breaks -/

theorem isBreak_of_not_isWhitespace {c : Char} (h : isWhitespace c = false) :
    isBreak c = false := by
  rw [isBreak, Bool.or_eq_false_iff, decide_eq_false_iff_not, decide_eq_false_iff_not]
  constructor
  · rintro rfl
    exact absurd h (by decide)
  · rintro rfl
    exact absurd h (by decide)

/-- A stamp has no blank in it. -/
theorem not_isWhitespace_utcStamp (unix : ℤ) : ∀ c ∈ utcStamp unix, isWhitespace c = false := by
  intro c hc
  rcases mem_utcStamp hc with hdigit | rfl | rfl | rfl | rfl
  · have hcode := Char.isDigit_iff_toNat.mp hdigit
    rw [show '0'.toNat = 48 from rfl, show '9'.toNat = 57 from rfl] at hcode
    simp only [isWhitespace, decide_eq_false_iff_not]
    omega
  all_goals decide

theorem trim_of_forall {text : List Char} (h : ∀ c ∈ text, isWhitespace c = false) :
    trim text = text := by
  have hdrop : ∀ l : List Char, (∀ c ∈ l, isWhitespace c = false) →
      l.dropWhile isWhitespace = l := by
    intro l hl
    cases l with
    | nil => rfl
    | cons c l => rw [List.dropWhile_cons_of_neg (by simp [hl c List.mem_cons_self])]
  rw [trim, trimList, hdrop text h, List.rdropWhile, hdrop _ (by simpa using h),
    List.reverse_reverse]

/-- A text on one line. -/
def OneLine (text : List Char) : Prop := ∀ c ∈ text, isBreak c = false

@[simp] theorem oneLine_append {a b : List Char} : OneLine (a ++ b) ↔ OneLine a ∧ OneLine b :=
  List.forall_mem_append

instance (text : List Char) : Decidable (OneLine text) :=
  inferInstanceAs (Decidable (∀ c ∈ text, isBreak c = false))

theorem oneLine_utcStamp (unix : ℤ) : OneLine (utcStamp unix) := fun c hc =>
  isBreak_of_not_isWhitespace (not_isWhitespace_utcStamp unix c hc)

theorem oneLine_escapeChar (c : Char) : OneLine (escapeChar c) := by
  fun_cases escapeChar c with
  | case1 => decide
  | case2 => decide
  | case3 => decide
  | case4 => decide
  | case5 => decide
  | case6 _ _ _ _ hlf hcr =>
    have hne : isBreak c = false := by
      rw [isBreak, Bool.or_eq_false_iff, decide_eq_false_iff_not, decide_eq_false_iff_not]
      exact ⟨hcr, hlf⟩
    simpa [OneLine] using hne

/-- What is escaped is on one line, -/
theorem oneLine_escapeText (text : List Char) : OneLine (escapeText text) := by
  intro c hc
  obtain ⟨b, -, hc⟩ := List.mem_flatMap.mp hc
  exact oneLine_escapeChar b c hc

/-- and what is quoted is if it was. -/
theorem oneLine_quoteParam {text : List Char} : OneLine (quoteParam text) ↔ OneLine text := by
  have hclean : OneLine (text.filter (· ≠ '"')) ↔ OneLine text := by
    constructor
    · intro h c hc
      by_cases hquote : c = '"'
      · rw [hquote]
        rfl
      · exact h c (List.mem_filter.mpr ⟨hc, by simpa using hquote⟩)
    · exact fun h c hc => h c (List.mem_of_mem_filter hc)
  rw [← hclean, quoteParam]
  split_ifs
  · simp [OneLine, isBreak, or_imp, forall_and]
  · rfl

/-! ## Escapes -/

theorem escapeText_cons (c : Char) (text : List Char) :
    escapeText (c :: text) = escapeChar c ++ escapeText text := List.flatMap_cons

/-- Carriage returns are dropped. -/
theorem escapeText_filter (text : List Char) :
    escapeText (text.filter (· ≠ '\r')) = escapeText text := by
  induction text with
  | nil => rfl
  | cons c text ih =>
    by_cases hc : c = '\r'
    · rw [List.filter_cons_of_neg (by simpa using hc), ih, hc, escapeText_cons]
      rfl
    · rw [List.filter_cons_of_pos (by simpa using hc), escapeText_cons, ih, escapeText_cons]

/-- A character that is no line break is written as it is, or behind a backslash. -/
theorem escapeChar_cases {c : Char} (hlf : c ≠ '\n') (hcr : c ≠ '\r') :
    c ≠ '\\' ∧ escapeChar c = [c] ∨
      (isWhitespace c = false ∧ c ≠ 'n' ∧ c ≠ 'N') ∧ escapeChar c = ['\\', c] := by
  fun_cases escapeChar c with
  | case1 => exact .inr ⟨by decide, rfl⟩
  | case2 => exact .inr ⟨by decide, rfl⟩
  | case3 => exact .inr ⟨by decide, rfl⟩
  | case4 => exact absurd rfl hlf
  | case5 => exact absurd rfl hcr
  | case6 _ hbackslash => exact .inl ⟨hbackslash, rfl⟩

theorem unescape_cons {c : Char} (hc : c ≠ '\\') (cs : List Char) :
    unescape (c :: cs) = c :: unescape cs := by
  rw [unescape]
  · exact fun h _ => hc h
  · exact fun _ _ h _ => hc h

/-- **What is escaped** is read back. -/
theorem unescape_escapeText {text : List Char} (h : '\r' ∉ text) :
    unescape (escapeText text) = text := by
  induction text with
  | nil => rfl
  | cons c text ih =>
    rw [List.mem_cons, not_or] at h
    rw [escapeText_cons]
    by_cases hlf : c = '\n'
    · subst hlf
      exact congrArg _ (ih h.2)
    · rcases escapeChar_cases hlf (Ne.symm h.1) with ⟨hc, hone⟩ | ⟨⟨-, hn, hN⟩, htwo⟩
      · rw [hone, List.singleton_append, unescape_cons hc, ih h.2]
      · rw [htwo, List.cons_append, List.cons_append, List.nil_append, unescape, ih h.2,
          if_neg (by simp [hn, hN])]

/-- Leaving out what a text starts with, when every such character stands for itself. -/
theorem dropWhile_flatMap {p : Char → Bool} {f : Char → List Char} {text : List Char}
    (hself : ∀ c ∈ text, p c = true → f c = [c])
    (hother : ∀ c ∈ text, p c = false → ∃ b bs, f c = b :: bs ∧ p b = false) :
    (text.flatMap f).dropWhile p = (text.dropWhile p).flatMap f := by
  induction text with
  | nil => rfl
  | cons c text ih =>
    rw [List.forall_mem_cons] at hself hother
    cases hc : p c with
    | true =>
      rw [List.flatMap_cons, hself.1 hc, List.singleton_append, List.dropWhile_cons_of_pos hc,
        List.dropWhile_cons_of_pos hc, ih hself.2 hother.2]
    | false =>
      obtain ⟨b, bs, hf, hb⟩ := hother.1 hc
      rw [List.dropWhile_cons_of_neg (by simp [hc]), List.flatMap_cons, hf, List.cons_append,
        List.dropWhile_cons_of_neg (by simp [hb])]

/-- The blanks around a text are the blanks around what is written for it. -/
theorem trim_escapeText {text : List Char} (hlf : '\n' ∉ text) (hcr : '\r' ∉ text) :
    trim (escapeText text) = escapeText (trim text) := by
  have hcases : ∀ c ∈ text, c ≠ '\\' ∧ escapeChar c = [c] ∨
      (isWhitespace c = false ∧ c ≠ 'n' ∧ c ≠ 'N') ∧ escapeChar c = ['\\', c] :=
    fun c hc => escapeChar_cases (ne_of_mem_of_not_mem hc hlf) (ne_of_mem_of_not_mem hc hcr)
  have hself : ∀ c ∈ text, isWhitespace c = true → escapeChar c = [c] := by
    intro c hc hblank
    rcases hcases c hc with ⟨-, hone⟩ | ⟨⟨hno, -⟩, -⟩
    · exact hone
    · rw [hblank] at hno
      cases hno
  have hdrop : (escapeText text).dropWhile isWhitespace =
      escapeText (text.dropWhile isWhitespace) := by
    refine dropWhile_flatMap hself fun c hc hno => ?_
    rcases hcases c hc with ⟨-, hone⟩ | ⟨-, htwo⟩
    · exact ⟨c, [], hone, hno⟩
    · exact ⟨'\\', [c], htwo, by decide⟩
  have hsub : ∀ c ∈ (text.dropWhile isWhitespace).reverse, c ∈ text := fun c hc =>
    (List.dropWhile_sublist _).subset (List.mem_reverse.mp hc)
  rw [trim, trimList, hdrop, List.rdropWhile, escapeText, List.reverse_flatMap, dropWhile_flatMap,
    List.reverse_flatMap, trim, trimList, List.rdropWhile, escapeText]
  · refine congrArg (List.flatMap · _) ?_
    funext c
    simp
  · intro c hc hblank
    rw [Function.comp_apply, hself c (hsub c hc) hblank, List.reverse_singleton]
  · intro c hc hno
    rcases hcases c (hsub c hc) with ⟨-, hone⟩ | ⟨-, htwo⟩
    · exact ⟨c, [], by simp [hone], hno⟩
    · exact ⟨c, ['\\'], by simp [htwo], hno⟩

theorem mem_of_mem_trim {text : List Char} {c : Char} (h : c ∈ trim text) : c ∈ text :=
  (List.dropWhile_sublist _).subset ((List.rdropWhile_prefix _ _).subset h)

/-- A text without carriage returns and outer blanks. -/
def tidy (text : List Char) : List Char := trim (text.filter (· ≠ '\r'))

theorem unescape_trim_escapeText {text : List Char} (hlf : '\n' ∉ text) :
    unescape (trim (escapeText text)) = tidy text := by
  have hcr : '\r' ∉ text.filter (· ≠ '\r') := by simp
  have hlf' : '\n' ∉ text.filter (· ≠ '\r') := fun h => hlf (List.mem_of_mem_filter h)
  rw [← escapeText_filter, trim_escapeText hlf' hcr, tidy,
    unescape_escapeText fun h => hcr (mem_of_mem_trim h)]

/-! ## The lines of an invite -/

section Lines

/-- Nothing ends the search for the colon, or starts a quoted part. -/
theorem splitColon_append {text : List Char} (hcolon : ':' ∉ text) (hquote : '"' ∉ text)
    (rest : List Char) : splitColon false (text ++ rest) =
      (splitColon false rest).map fun (head, value) => (text ++ head, value) := by
  induction text with
  | nil => simp
  | cons c text ih =>
    rw [List.mem_cons, not_or] at hcolon hquote
    rw [List.cons_append, splitColon, if_neg fun h => hcolon.1 h.1.symm,
      decide_eq_false (Ne.symm hquote.1), Bool.xor_false, ih hcolon.2 hquote.2, Option.map_map]
    rfl

theorem splitColon_quoted {text : List Char} (hquote : '"' ∉ text) (rest : List Char) :
    splitColon true (text ++ '"' :: rest) =
      (splitColon false rest).map fun (head, value) => (text ++ '"' :: head, value) := by
  induction text with
  | nil =>
    rw [List.nil_append, splitColon, if_neg (by simp)]
    rfl
  | cons c text ih =>
    rw [List.mem_cons, not_or] at hquote
    rw [List.cons_append, splitColon, if_neg (by simp), decide_eq_false (Ne.symm hquote.1),
      Bool.xor_false, ih hquote.2, Option.map_map]
    rfl

/-- **No colon of a quoted parameter** ends the search. -/
theorem splitColon_quoteParam (text rest : List Char) : splitColon false (quoteParam text ++ rest) =
    (splitColon false rest).map fun (head, value) => (quoteParam text ++ head, value) := by
  have hquote : '"' ∉ text.filter (· ≠ '"') := by simp
  rw [quoteParam]
  split_ifs with h
  · simp only [List.cons_append, List.append_assoc, List.nil_append]
    rw [splitColon, if_neg (by simp), show (false ^^ decide ('"' = '"')) = true from rfl,
      splitColon_quoted hquote, Option.map_map]
    refine congrArg (Option.map · _) ?_
    funext ⟨head, value⟩
    simp
  · refine splitColon_append (fun hcolon => h ⟨':', hcolon, by simp⟩) hquote rest

/-- A property without parameters. -/
theorem splitProperty_value {name : List Char} (hcolon : ':' ∉ name) (hquote : '"' ∉ name)
    (hsemi : ';' ∉ name) (value : List Char) :
    splitProperty (name ++ ':' :: value) = some (upper (trim name), [], trim value) := by
  have hrest : splitColon false (':' :: value) = some ([], value) := rfl
  rw [splitProperty, splitColon_append hcolon hquote, hrest]
  simp [splitOnce, hsemi]

/-- The first occurrence is where a text without one ends. -/
theorem splitOnce_append {c : Char} {a : List Char} (h : c ∉ a) (b : List Char) :
    splitOnce c (a ++ c :: b) = some (a, b) := by
  have ha : ∀ d ∈ a, decide (d ≠ c) = true := fun d hd => by
    simpa using ne_of_mem_of_not_mem hd h
  rw [splitOnce, if_pos (List.mem_append_right _ List.mem_cons_self),
    List.takeWhile_append_of_pos ha, List.dropWhile_append_of_pos ha,
    List.takeWhile_cons_of_neg (by simp), List.dropWhile_cons_of_neg (by simp), List.append_nil]
  rfl

/-- A property with a quoted parameter. -/
theorem splitProperty_param (name more : List Char) (hcolon : ':' ∉ name) (hquote : '"' ∉ name)
    (hsemi : ';' ∉ name) (hmore : ':' ∉ more) (hmore' : '"' ∉ more) (text value : List Char) :
    ∃ params, splitProperty
        (name ++ (";CN=".toList ++ (quoteParam text ++ (more ++ ':' :: value)))) =
      some (upper (trim name), params, trim value) := by
  have hrest : splitColon false (':' :: value) = some ([], value) := rfl
  rw [splitProperty, splitColon_append hcolon hquote, splitColon_append (by decide) (by decide),
    splitColon_quoteParam, splitColon_append hmore hmore', hrest]
  have hname : ∀ rest, splitOnce ';' (name ++ (";CN=".toList ++ rest)) =
      some (name, "CN=".toList ++ rest) := fun rest => splitOnce_append hsemi _
  simp only [Option.map_some, hname, Option.getD_some, List.append_nil]
  exact ⟨_, rfl⟩

end Lines

section Scanning

variable {s : Scan} {name params value line : List Char} {lines : List (List Char)}

theorem scan_property (h : splitProperty line = some (name, params, value))
    (hno : ¬(s.inEvent = false ∧ name = "BEGIN".toList ∧
      eqIgnoreAsciiCase value "VEVENT".toList = true)) :
    scan s (line :: lines) = scan (s.property name params value) lines := by
  rw [scan, h]
  exact if_neg hno

theorem scan_event (h : splitProperty line = some (name, params, value))
    (hyes : s.inEvent = false ∧ name = "BEGIN".toList ∧
      eqIgnoreAsciiCase value "VEVENT".toList = true) (hfirst : s.sawEvent = false) :
    scan s (line :: lines) = scan { s with inEvent := true, sawEvent := true } lines := by
  rw [scan, h]
  simp only
  rw [if_pos hyes, hfirst]
  rfl

end Scanning

/-- What is found in the intended lines. -/
def found (invite : IcsInvite) : Scan where
  sawEvent := true
  method := some "REQUEST".toList
  uid := some (trim invite.uid)
  summary := some (unescape (trim (escapeText invite.summary)))
  organizer := some (trim ("mailto:".toList ++ invite.organizerEmail))
  dtstart := some (trim (utcStamp invite.start), [])
  dtend := some (trim (utcStamp invite.stop), [])

/-- The plain lines, -/
theorem splitProperty_plain (start name : String) (hstart : start.toList = name.toList ++ [':'])
    (hname : ':' ∉ name.toList ∧ '"' ∉ name.toList ∧ ';' ∉ name.toList)
    (hupper : upper (trim name.toList) = name.toList) (value : List Char) :
    splitProperty (start.toList ++ value) = some (name.toList, [], trim value) := by
  rw [hstart, List.append_assoc, List.singleton_append,
    splitProperty_value hname.1 hname.2.1 hname.2.2, hupper]

/-- the line of the organizer, -/
theorem splitProperty_organizer (text email : List Char) :
    ∃ params, splitProperty
        ("ORGANIZER;CN=".toList ++ quoteParam text ++ ":mailto:".toList ++ email) =
      some ("ORGANIZER".toList, params, trim ("mailto:".toList ++ email)) := by
  obtain ⟨params, h⟩ := splitProperty_param "ORGANIZER".toList [] (by decide) (by decide)
    (by decide) (by decide) (by decide) text ("mailto:".toList ++ email)
  refine ⟨params, ?_⟩
  rw [show upper (trim "ORGANIZER".toList) = "ORGANIZER".toList by decide] at h
  rw [← h, show "ORGANIZER;CN=".toList = "ORGANIZER".toList ++ ";CN=".toList by decide,
    show ":mailto:".toList = ':' :: "mailto:".toList by decide]
  simp only [List.append_assoc, List.cons_append, List.nil_append]

/-- and the line of the attendee. -/
theorem splitProperty_attendee (text email : List Char) :
    ∃ params value, splitProperty ("ATTENDEE;CN=".toList ++ quoteParam text ++
        ";ROLE=REQ-PARTICIPANT;PARTSTAT=ACCEPTED:mailto:".toList ++ email) =
      some ("ATTENDEE".toList, params, value) := by
  obtain ⟨params, h⟩ := splitProperty_param "ATTENDEE".toList
    ";ROLE=REQ-PARTICIPANT;PARTSTAT=ACCEPTED".toList (by decide) (by decide) (by decide) (by decide)
    (by decide) text ("mailto:".toList ++ email)
  refine ⟨params, trim ("mailto:".toList ++ email), ?_⟩
  rw [show upper (trim "ATTENDEE".toList) = "ATTENDEE".toList by decide] at h
  rw [← h, show "ATTENDEE;CN=".toList = "ATTENDEE".toList ++ ";CN=".toList by decide,
    show ";ROLE=REQ-PARTICIPANT;PARTSTAT=ACCEPTED:mailto:".toList =
      ";ROLE=REQ-PARTICIPANT;PARTSTAT=ACCEPTED".toList ++ ':' :: "mailto:".toList by decide]
  simp only [List.append_assoc, List.cons_append]

/-- The lines up to the event, -/
theorem scan_opening (lines : List (List Char)) :
    scan {} ("BEGIN:VCALENDAR".toList :: "VERSION:2.0".toList ::
      "PRODID:-//Owney//Scheduling//EN".toList :: "METHOD:REQUEST".toList ::
        "BEGIN:VEVENT".toList :: lines) =
      scan { inEvent := true, sawEvent := true, method := some "REQUEST".toList } lines := by
  have hcalendar : splitProperty "BEGIN:VCALENDAR".toList =
      some ("BEGIN".toList, [], "VCALENDAR".toList) := by decide +kernel
  have hversion : splitProperty "VERSION:2.0".toList =
      some ("VERSION".toList, [], "2.0".toList) := by decide +kernel
  have hprodid : splitProperty "PRODID:-//Owney//Scheduling//EN".toList =
      some ("PRODID".toList, [], "-//Owney//Scheduling//EN".toList) := by decide +kernel
  have hmethod : splitProperty "METHOD:REQUEST".toList =
      some ("METHOD".toList, [], "REQUEST".toList) := by decide +kernel
  have hevent : splitProperty "BEGIN:VEVENT".toList =
      some ("BEGIN".toList, [], "VEVENT".toList) := by decide +kernel
  rw [scan_property hcalendar (by decide), scan_property hversion (by decide),
    scan_property hprodid (by decide), scan_property hmethod (by decide),
    scan_event hevent (by decide) rfl]
  rfl

/-- the description, -/
theorem scan_description {s : Scan} (h : s.inEvent = true) (description : Option (List Char))
    (lines : List (List Char)) :
    scan s ((description.toList.map fun text => "DESCRIPTION:".toList ++ escapeText text) ++
      lines) = scan s lines := by
  cases description with
  | none => rfl
  | some text =>
    have hline := splitProperty_plain "DESCRIPTION:" "DESCRIPTION" (by decide)
      (by decide) (by decide) (escapeText text)
    refine (scan_property hline (by simp [h])).trans ?_
    rw [Scan.property, h]
    rfl

/-- and the lines from the organizer on. -/
theorem scan_closing {s : Scan} (h : s.inEvent = true) (invite : IcsInvite) :
    scan s ["ORGANIZER;CN=".toList ++ quoteParam invite.organizerName ++ ":mailto:".toList ++
        invite.organizerEmail,
      "ATTENDEE;CN=".toList ++ quoteParam invite.attendeeName ++
        ";ROLE=REQ-PARTICIPANT;PARTSTAT=ACCEPTED:mailto:".toList ++ invite.attendeeEmail,
      "END:VEVENT".toList, "END:VCALENDAR".toList] =
      { s with
        inEvent := false
        organizer := some (trim ("mailto:".toList ++ invite.organizerEmail)) } := by
  obtain ⟨_, horganizer⟩ := splitProperty_organizer invite.organizerName invite.organizerEmail
  obtain ⟨_, _, hattendee⟩ := splitProperty_attendee invite.attendeeName invite.attendeeEmail
  have hend : splitProperty "END:VEVENT".toList =
      some ("END".toList, [], "VEVENT".toList) := by decide +kernel
  have hlast : splitProperty "END:VCALENDAR".toList =
      some ("END".toList, [], "VCALENDAR".toList) := by decide +kernel
  obtain ⟨inEvent, sawEvent, method, uid, summary, location, organizer, dtstart, dtend⟩ := s
  obtain rfl : inEvent = true := h
  rw [scan_property horganizer nofun, scan_property hattendee nofun, scan_property hend nofun,
    scan_property hlast (by simp), scan]
  rfl

/-- **What is found** in the intended lines, -/
theorem scan_contents (invite : IcsInvite) : scan {} (contents invite) = found invite := by
  have huid := splitProperty_plain "UID:" "UID" (by decide) (by decide)
    (by decide) invite.uid
  have hdtstamp := splitProperty_plain "DTSTAMP:" "DTSTAMP" (by decide)
    (by decide) (by decide) (utcStamp invite.dtstamp)
  have hdtstart := splitProperty_plain "DTSTART:" "DTSTART" (by decide)
    (by decide) (by decide) (utcStamp invite.start)
  have hdtend := splitProperty_plain "DTEND:" "DTEND" (by decide) (by decide)
    (by decide) (utcStamp invite.stop)
  have hsummary := splitProperty_plain "SUMMARY:" "SUMMARY" (by decide)
    (by decide) (by decide) (escapeText invite.summary)
  simp only [contents, List.cons_append, List.nil_append]
  rw [scan_opening, scan_property huid nofun, scan_property hdtstamp nofun,
    scan_property hdtstart nofun, scan_property hdtend nofun, scan_property hsummary nofun,
    scan_description rfl, scan_closing rfl]
  rfl

/-- and what the parser makes of them. -/
theorem parseInvite_of_lines {ics : List Char} {invite : IcsInvite}
    (h : unfolded ics = contents invite) :
    parseInvite ics = some {
      method := some "REQUEST".toList
      uid := some (trim invite.uid)
      summary := some (unescape (trim (escapeText invite.summary)))
      location := none
      organizer := some (trim ("mailto:".toList ++ invite.organizerEmail))
      start := some (utcStamp invite.start)
      stop := some (utcStamp invite.stop)
      startAt := utcEpoch (utcStamp invite.start)
      stopAt := utcEpoch (utcStamp invite.stop) } := by
  have hstart := trim_of_forall (not_isWhitespace_utcStamp invite.start)
  have hstop := trim_of_forall (not_isWhitespace_utcStamp invite.stop)
  rw [parseInvite, h, scan_contents]
  simp [found, hstart, hstop]

/-! ## When an invite is read back -/

section RoundTrip

/-- A text on one line that does not end in a blank. -/
def Ended (text : List Char) : Prop :=
  OneLine text ∧ ∀ c ∈ text.getLast?, isWhitespace c = false

/-- An invite that is written as it is intended and read as it is meant: method, id, summary
without carriage returns and outer blanks, organizer, and times. -/
structure RoundTrips (invite : IcsInvite) : Prop where
  lines : unfolded (render invite) = contents invite
  parsed : ∃ read, parseInvite (render invite) = some read ∧
    read.method = some "REQUEST".toList ∧ read.uid = some invite.uid ∧
    read.summary = some (tidy invite.summary) ∧
    read.organizer = some ("mailto:".toList ++ invite.organizerEmail) ∧
    read.startAt = some invite.start ∧ read.stopAt = some invite.stop

variable {invite : IcsInvite}

/-- The fields that are written without escapes. -/
theorem oneLine_contents : (∀ line ∈ contents invite, OneLine line) ↔
    OneLine invite.uid ∧ (OneLine invite.organizerName ∧ OneLine invite.organizerEmail) ∧
      OneLine invite.attendeeName ∧ OneLine invite.attendeeEmail := by
  have hdescription : ∀ line ∈ invite.description.toList.map fun text =>
      "DESCRIPTION:".toList ++ escapeText text, OneLine line := by
    intro line hline
    obtain ⟨text, -, rfl⟩ := List.mem_map.mp hline
    exact oneLine_append.mpr ⟨by decide, oneLine_escapeText text⟩
  simp +decide only [contents, List.forall_mem_append, List.forall_mem_cons, oneLine_append,
    oneLine_quoteParam, oneLine_escapeText, oneLine_utcStamp, and_true, true_and]
  rw [and_iff_left hdescription]

/-- A line that does not look like more of the line before. -/
def Starts (line : List Char) : Prop := ∃ c ∈ line.head?, isBlank c = false

instance (line : List Char) : Decidable (Starts line) :=
  inferInstanceAs (Decidable (∃ c ∈ line.head?, isBlank c = false))

theorem starts_append {a b : List Char} (h : Starts a) : Starts (a ++ b) := by
  obtain ⟨c, hc, hblank⟩ := h
  exact ⟨c, by simp [List.head?_append, Option.mem_def.mp hc], hblank⟩

theorem starts_contents : ∀ line ∈ contents invite, Starts line := by
  have hdescription : ∀ line ∈ invite.description.toList.map fun text =>
      "DESCRIPTION:".toList ++ escapeText text, Starts line := by
    intro line hline
    obtain ⟨text, -, rfl⟩ := List.mem_map.mp hline
    exact starts_append (by decide)
  simp +decide only [contents, List.forall_mem_append, List.forall_mem_cons, starts_append,
    and_true, true_and]
  have hparam : ∀ {a b c d : List Char}, Starts a → Starts (a ++ b ++ c ++ d) := fun h =>
    starts_append (starts_append (starts_append h))
  exact ⟨hdescription, hparam (by decide), hparam (by decide)⟩

/-- **The lines that are read** are the intended ones exactly if no name, no address and no id
has a line break in it. -/
theorem unfolded_render_iff : unfolded (render invite) = contents invite ↔
    OneLine invite.uid ∧ (OneLine invite.organizerName ∧ OneLine invite.organizerEmail) ∧
      OneLine invite.attendeeName ∧ OneLine invite.attendeeEmail := by
  rw [← oneLine_contents]
  constructor
  · intro h line hline
    rw [← h] at hline
    exact of_mem_unfolded hline
  · intro h
    refine unfolded_lines (fun line hline => ⟨h line hline, starts_contents line hline⟩) fun c => ?_
    exact (Char.utf8Size_le_four c).trans (by decide)

/-- Nothing is trimmed off a text that starts without a blank and does not end in one. -/
theorem trim_append_eq_self {a b : List Char} (ha : ∀ c ∈ a, isWhitespace c = false)
    (hne : a ≠ []) : trim (a ++ b) = a ++ b ↔ ∀ c ∈ b.getLast?, isWhitespace c = false := by
  have hdrop : (a ++ b).dropWhile isWhitespace = a ++ b := by
    cases a with
    | nil => exact absurd rfl hne
    | cons c a => rw [List.cons_append, List.dropWhile_cons_of_neg (by simp [ha])]
  rw [trim, trimList, hdrop, List.rdropWhile_eq_self_iff]
  rcases b.eq_nil_or_concat' with rfl | ⟨bs, c, rfl⟩
  · simp only [List.append_nil, List.getLast?_nil, Option.not_mem_none, false_imp_iff, implies_true,
      iff_true]
    exact fun _ => by simp [ha _ (List.getLast_mem hne)]
  · simp [← List.append_assoc]

/-- **Invites that are read back**, when the summary has no line break in it. -/
theorem roundTrips_invite_iff (hsummary : '\n' ∉ invite.summary) (hstart : InYears invite.start)
    (hstop : InYears invite.stop) : RoundTrips invite ↔
      (OneLine invite.uid ∧ (OneLine invite.organizerName ∧ OneLine invite.organizerEmail) ∧
        OneLine invite.attendeeName ∧ OneLine invite.attendeeEmail) ∧
      trim invite.uid = invite.uid ∧
      trim ("mailto:".toList ++ invite.organizerEmail) =
        "mailto:".toList ++ invite.organizerEmail := by
  rw [← unfolded_render_iff]
  constructor
  · rintro ⟨hlines, read, hread, -, huid, -, horganizer, -⟩
    rw [parseInvite_of_lines hlines] at hread
    obtain rfl := Option.some.inj hread
    exact ⟨hlines, Option.some.inj huid, Option.some.inj horganizer⟩
  · rintro ⟨hlines, huid, horganizer⟩
    refine ⟨hlines, _, parseInvite_of_lines hlines, rfl, congrArg some huid,
      congrArg some (unescape_trim_escapeText hsummary), congrArg some horganizer,
      utcEpoch_utcStamp hstart, utcEpoch_utcStamp hstop⟩

end RoundTrip

/-! ## Bookings -/

section Bookings

/-- Line breaks are control characters. -/
def ControlsBreaks (C : ScheduleCrates) : Prop := ∀ c, isBreak c = true → C.isControl c = true

/-- A booking that is made has what was asked for. -/
def Books (exec : (o : ScheduleOp) → ScheduleDb → o.Ret × ScheduleDb) : Prop :=
  ∀ req db b db', exec (.bookSlot req) db = (.ok b, db') →
    b.visitorName = req.visitorName ∧ b.visitorEmail = req.visitorEmail

theorem books_exec (L : Locale) (c : ScheduleChoice) : Books (ScheduleDb.exec L c) := by
  intro req db b db' h
  rcases transaction_cases (bookSlotTx c.io req c.fresh) db.tables with
    ⟨e, he⟩ | ⟨b', tables, hok, he⟩
  · rw [ScheduleDb.exec, SchedulingDb.bookSlot, he] at h
    cases h
  · rw [ScheduleDb.exec, SchedulingDb.bookSlot, he] at h
    obtain rfl : b' = b := Except.ok.inj (congrArg Prod.fst h)
    obtain ⟨page, -, -, -, -, rfl, -⟩ := bookSlotTx_ok hok
    exact ⟨rfl, rfl⟩

variable {C : ScheduleCrates} {exec : (o : ScheduleOp) → ScheduleDb → o.Ret × ScheduleDb}
  {db : ScheduleDb} {slug timezone : String} {post : BookPost} {booking : Booking}

/-- The visitor of a booking has been validated. -/
theorem visitor_of_booked (hexec : Books exec)
    (h : ((book C slug post).reply.alone exec db).1 = .booked booking timezone) :
    ∃ body, validateVisitor C body = none ∧ booking.visitorName = body.name ∧
      booking.visitorEmail = body.email := by
  rw [reply_eq (by rintro _ ⟨⟩)] at h
  simp only [book, alone_bind_eq_ok, alone_demand, pageTz, alone_valueOr] at h
  obtain ⟨_, _, _, ⟨-, rfl⟩, body, _, -, _, _, ⟨hvisitor, rfl⟩, page, _, -, tz, _, ⟨-, rfl⟩,
    _, _, ⟨-, rfl⟩, s, _, ⟨-, rfl⟩, found, db₁, -, owner, _, ⟨-, rfl⟩, res, db₂, hask, hreply⟩ := h
  obtain ⟨rfl, -, rfl⟩ := alone_bookReply.mp hreply
  obtain ⟨hname, hemail⟩ := hexec _ _ _ _ (alone_ask.mp hask)
  exact ⟨body, hvisitor, hname, hemail⟩

theorem oneLine_visitorEmail (hC : ControlsBreaks C) {body : BookBody}
    (h : validateVisitor C body = none) : OneLine body.email.toList := by
  rw [validateVisitor] at h
  split_ifs at h with hname hemail hnote
  obtain ⟨-, -, -, -, hchars⟩ := hemail
  intro c hc
  refine Bool.eq_false_iff.mpr fun hbreak => hchars c hc (.inl (hC c hbreak))

/-- An id has no blank in it. -/
theorem not_isWhitespace_uuid (u : Uuid) : ∀ c ∈ u.toString.toList, isWhitespace c = false := by
  intro c hc
  rcases Uuid.mem_toString hc with rfl | hhex
  · rfl
  · have hcode : 48 ≤ c.toNat ∧ c.toNat ≤ 102 := by
      simp only [hexValue] at hhex
      split_ifs at hhex with h h h
      · have hnine : '9' ≤ 'f' := by decide
        exact ⟨h.1, h.2.trans hnine⟩
      · have hzero : '0' ≤ 'a' := by decide
        exact ⟨hzero.trans h.1, h.2⟩
      · have hzero : '0' ≤ 'A' := by decide
        have hF : 'F' ≤ 'f' := by decide
        exact ⟨hzero.trans h.1, h.2.trans hF⟩
      · cases hhex
    simp only [isWhitespace, decide_eq_false_iff_not]
    omega

/-- **Invites that are read back.** The invite of a booking round-trips exactly if the names of
the visitor and the owner have no line break in them, and the owner's address and the host have
none either and do not end in a blank. -/
theorem roundTrips_iff (hC : ControlsBreaks C) (hexec : Books exec)
    (hbooked : ((book C slug post).reply.alone exec db).1 = .booked booking timezone)
    (hstart : InYears booking.start) (hstop : InYears booking.stop) (owner : OwnerRow)
    (host : String) : RoundTrips (confirmationInvite host owner booking) ↔
      OneLine booking.visitorName.toList ∧
        OneLine (owner.displayName.getD owner.email).toList ∧ Ended owner.email.toList ∧
          Ended host.toList := by
  obtain ⟨body, hvisitor, -, hemail⟩ := visitor_of_booked hexec hbooked
  have hattendee : OneLine booking.visitorEmail.toList := by
    rw [hemail]
    exact oneLine_visitorEmail hC hvisitor
  have hid : ∀ c ∈ booking.id.uuid.toString.toList ++ ['@'], isWhitespace c = false := by
    simpa [or_imp, forall_and] using ⟨not_isWhitespace_uuid _, rfl⟩
  have huid : (confirmationInvite host owner booking).uid =
      (booking.id.uuid.toString.toList ++ ['@']) ++ host.toList := by
    simp [confirmationInvite]
  have huidLine : OneLine (confirmationInvite host owner booking).uid ↔ OneLine host.toList := by
    rw [huid, oneLine_append]
    exact and_iff_right fun c hc => isBreak_of_not_isWhitespace (hid c hc)
  have hsummary : OneLine booking.visitorName.toList →
      OneLine (owner.displayName.getD owner.email).toList →
        '\n' ∉ (confirmationInvite host owner booking).summary := by
    intro hname howner hmem
    simp only [confirmationInvite, String.toList_append, List.mem_append] at hmem
    rcases hmem with ((hmem | hmem) | hmem) | hmem
    · exact absurd hmem (by decide)
    · exact absurd (hname _ hmem) (by decide)
    · exact absurd hmem (by decide)
    · exact absurd (howner _ hmem) (by decide)
  have htrim := @trim_append_eq_self _ host.toList hid (by simp)
  have htrim' := @trim_append_eq_self "mailto:".toList owner.email.toList (by decide) (by decide)
  constructor
  · intro h
    obtain ⟨hhost, ⟨howner, hmail⟩, hname, -⟩ := unfolded_render_iff.mp h.lines
    obtain ⟨-, hends, hends'⟩ :=
      (roundTrips_invite_iff (hsummary hname howner) hstart hstop).mp h
    rw [huid] at hends
    exact ⟨hname, howner, ⟨hmail, htrim'.mp hends'⟩, huidLine.mp hhost, htrim.mp hends⟩
  · rintro ⟨hname, howner, ⟨hmail, hends'⟩, hhost, hends⟩
    refine (roundTrips_invite_iff (hsummary hname howner) hstart hstop).mpr
      ⟨⟨huidLine.mpr hhost, ⟨howner, hmail⟩, hname, hattendee⟩, ?_, htrim'.mpr hends'⟩
    rw [huid]
    exact htrim.mpr hends

end Bookings

/-! ## A name with a line break -/

/-- The server after Alice has set up her page. -/
def aliceDb : ScheduleDb := ScheduleDb.after utcCrates openingMoves

/-- A visitor who wants the half hour from nine on, on the first day. -/
def visit (name : String) : BookPost :=
  ⟨true, 0, .ok ⟨32400, 30, name, "bob@remote.test", some "Hello; see you,\nBob"⟩⟩

/-- The booking. -/
def visitBooking (name : String) : Booking where
  id := ⟨5⟩
  pageId := ⟨3⟩
  accountId := alice
  eventId := ⟨4⟩
  visitorName := name
  visitorEmail := "bob@remote.test"
  note := some "Hello; see you,\nBob"
  start := 32400
  stop := 34200
  status := .confirmed
  createdAt := 0

theorem controlsBreaks_utc : ControlsBreaks utcCrates := by
  intro c hc
  simp only [isBreak, Bool.or_eq_true, decide_eq_true_eq] at hc
  rcases hc with rfl | rfl <;> decide

theorem booked_visit (name : String)
    (hname : name = "Bob \"B\" Ray; Sr." ∨ name = "Bob\nSUMMARY:Free") :
    ((book utcCrates "meet-alice" (visit name)).reply.alone
      (ScheduleDb.exec utcCrates.locale ⟨.ok, ⟨⟨4⟩, ⟨5⟩, "t5", 0⟩⟩) aliceDb).1 =
        .booked (visitBooking name) "UTC" := by
  rcases hname with rfl | rfl
  · rfl
  · rfl

/-- Alice. -/
def aliceRow : OwnerRow := ⟨alice, "alice@example.com", some "Alice"⟩

theorem roundTrips_visit : RoundTrips
    (confirmationInvite "mail.example" aliceRow (visitBooking "Bob \"B\" Ray; Sr.")) := by
  refine (roundTrips_iff controlsBreaks_utc (books_exec _ _) (booked_visit _ (.inl rfl)) ?_ ?_ _
    _).mpr ⟨by decide, by decide, ⟨by decide, by decide⟩, ⟨by decide, by decide⟩⟩
  · exact ⟨by decide, by decide⟩
  · exact ⟨by decide, by decide⟩

/-- **A name with a line break** adds a line to the invite, here with another summary. -/
theorem not_roundTrips_visit : ¬∀ (C : ScheduleCrates)
    (exec : (o : ScheduleOp) → ScheduleDb → o.Ret × ScheduleDb) (db : ScheduleDb)
    (slug timezone : String) (post : BookPost) (booking : Booking) (owner : OwnerRow)
    (host : String), ControlsBreaks C → Books exec →
      ((book C slug post).reply.alone exec db).1 = .booked booking timezone →
        InYears booking.start → InYears booking.stop → Ended owner.email.toList →
          Ended host.toList → RoundTrips (confirmationInvite host owner booking) := by
  intro h
  have hround := h utcCrates _ aliceDb "meet-alice" "UTC" _ _ aliceRow "mail.example"
    controlsBreaks_utc (books_exec _ _) (booked_visit "Bob\nSUMMARY:Free" (.inr rfl))
    ⟨by decide, by decide⟩ ⟨by decide, by decide⟩ ⟨by decide, by decide⟩ ⟨by decide, by decide⟩
  obtain ⟨-, -, hname, -⟩ := unfolded_render_iff.mp hround.lines
  exact absurd hname (by decide)

end Owney.Invites
