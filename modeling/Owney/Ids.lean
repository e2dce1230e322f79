import Owney.Lib.CharLists
import Mathlib.Data.List.Basic
import Mathlib.Data.List.DropRight
import Mathlib.Algebra.Order.Group.Nat
import Mathlib.Tactic.IntervalCases
import Mathlib.Tactic.Ring

/-!
# Identifiers and text

The identifier newtypes of `owney-core`: record ids are UUIDs, blob ids are
BLAKE3 digests, and the modification sequence numbers are `u64` counters, one
for each account and `DataType`. The database keys are the printed forms, so
the one fact that matters about printing is that it can be read back
(`Uuid.parseStr_toString`).
-/

namespace Owney

/-- A UUID: 128 bits. -/
abbrev Uuid : Type := BitVec 128

instance : LawfulBEq Uuid := inferInstance

/-! ## Hexadecimal text -/

/-- The lower-case digit of a nibble. -/
def hexDigit (n : ℕ) : Char := "0123456789abcdef".toList.getD n '0'

/-- The nibble of a digit, in either case. -/
def hexValue (c : Char) : Option ℕ :=
  if '0' ≤ c ∧ c ≤ '9' then some (c.toNat - 48)
  else if 'a' ≤ c ∧ c ≤ 'f' then some (c.toNat - 87)
  else if 'A' ≤ c ∧ c ≤ 'F' then some (c.toNat - 55)
  else none

/-- The last `k` hexadecimal digits of a number, most significant first. -/
def hexDigits : ℕ → ℕ → List Char
  | 0, _ => []
  | k + 1, n => hexDigits k (n / 16) ++ [hexDigit (n % 16)]

/-- Read a list of hexadecimal digits after the digits read so far. -/
def readHex : List Char → ℕ → Option ℕ
  | [], acc => some acc
  | c :: cs, acc => (hexValue c).bind fun d => readHex cs (16 * acc + d)

theorem hexValue_hexDigit {n : ℕ} (hn : n < 16) : hexValue (hexDigit n) = some n := by
  interval_cases n <;> decide

theorem length_hexDigits : ∀ k n : ℕ, (hexDigits k n).length = k
  | 0, _ => rfl
  | k + 1, n => by rw [hexDigits, List.length_append, length_hexDigits k]; rfl

theorem readHex_append :
    ∀ (xs ys : List Char) (acc : ℕ), readHex (xs ++ ys) acc = (readHex xs acc).bind (readHex ys)
  | [], _, _ => rfl
  | c :: xs, ys, acc => by
    simp only [List.cons_append, readHex]
    cases hexValue c with
    | none => rfl
    | some d => exact readHex_append xs ys _

/-- Reading the printed digits gives the number back. -/
theorem readHex_hexDigits :
    ∀ k n acc : ℕ, readHex (hexDigits k n) acc = some (16 ^ k * acc + n % 16 ^ k)
  | 0, n, acc => by simp [hexDigits, readHex, Nat.mod_one]
  | k + 1, n, acc => by
    have hlt : n % 16 < 16 := Nat.mod_lt _ (by decide)
    have hsplit : n % 16 ^ (k + 1) = 16 * (n / 16 % 16 ^ k) + n % 16 := by
      rw [pow_succ', Nat.mod_mul, Nat.add_comm]
    rw [hexDigits, readHex_append, readHex_hexDigits k, Option.bind_some]
    simp only [readHex, hexValue_hexDigit hlt, Option.bind_some, Option.some.injEq]
    rw [hsplit, pow_succ]
    ring

/-- No printed digit is one of the characters outside the digits. -/
theorem mem_hexDigits {c : Char} : ∀ {k n : ℕ}, c ∈ hexDigits k n → (hexValue c).isSome
  | k + 1, n, h => by
    rcases List.mem_append.mp h with h | h
    · exact mem_hexDigits h
    · rw [List.mem_singleton.mp h, hexValue_hexDigit (Nat.mod_lt _ (by decide))]
      rfl

/-- Insert a hyphen after each group of the given lengths. -/
def hyphenate : List ℕ → List Char → List Char
  | [], cs => cs
  | n :: ns, cs => cs.take n ++ '-' :: hyphenate ns (cs.drop n)

/-- Remove the hyphens again; `none` if one is not where it belongs. -/
def unhyphenate : List ℕ → List Char → Option (List Char)
  | [], cs => some cs
  | n :: ns, cs =>
    if cs[n]? = some '-' then (unhyphenate ns (cs.drop (n + 1))).map (cs.take n ++ ·) else none

theorem length_hyphenate :
    ∀ (ns : List ℕ) (cs : List Char), ns.sum ≤ cs.length →
      (hyphenate ns cs).length = cs.length + ns.length
  | [], _, _ => rfl
  | n :: ns, cs, h => by
    rw [List.sum_cons] at h
    have hd : ns.sum ≤ (cs.drop n).length := by rw [List.length_drop]; omega
    rw [hyphenate, List.length_append, List.length_cons, length_hyphenate ns _ hd,
      List.length_take, List.length_drop, List.length_cons]
    omega

theorem unhyphenate_hyphenate :
    ∀ (ns : List ℕ) (cs : List Char), ns.sum ≤ cs.length →
      unhyphenate ns (hyphenate ns cs) = some cs
  | [], _, _ => rfl
  | n :: ns, cs, h => by
    rw [List.sum_cons] at h
    have hlen : (cs.take n).length = n := by rw [List.length_take]; omega
    have hd : ns.sum ≤ (cs.drop n).length := by rw [List.length_drop]; omega
    have hget : (cs.take n ++ '-' :: hyphenate ns (cs.drop n))[n]? = some '-' := by
      rw [List.getElem?_append_right (by omega), hlen, Nat.sub_self]
      rfl
    have htake : (cs.take n ++ '-' :: hyphenate ns (cs.drop n)).take n = cs.take n := by
      rw [List.take_append_of_le_length (by omega), List.take_of_length_le (by omega)]
    have hdrop : (cs.take n ++ '-' :: hyphenate ns (cs.drop n)).drop (n + 1)
        = hyphenate ns (cs.drop n) := by
      rw [List.drop_append, List.drop_of_length_le (by omega), hlen, Nat.add_sub_cancel_left]
      rfl
    rw [unhyphenate, hyphenate, if_pos hget, hdrop, htake, unhyphenate_hyphenate ns _ hd,
      Option.map_some, List.take_append_drop]

theorem mem_hyphenate {c : Char} :
    ∀ {ns : List ℕ} {cs : List Char}, c ∈ hyphenate ns cs → c = '-' ∨ c ∈ cs
  | [], _, h => Or.inr h
  | _ :: _, _, h => by
    rcases List.mem_append.mp h with h | h
    · exact Or.inr (List.mem_of_mem_take h)
    · rcases List.mem_cons.mp h with h | h
      · exact Or.inl h
      · exact (mem_hyphenate h).imp id List.mem_of_mem_drop

/-! ## UUIDs -/

namespace Uuid

/-- The lengths of the first four groups of the hyphenated form. -/
def groups : List ℕ := [8, 4, 4, 4]

/-- `Display for Uuid`: the lower-case hyphenated form. -/
def toString (u : Uuid) : String := String.ofList (hyphenate groups (hexDigits 32 u.toNat))

/-- 32 digits without hyphens. -/
def parseSimple (cs : List Char) : Option Uuid :=
  if cs.length = 32 then (readHex cs 0).map (BitVec.ofNat 128) else none

/-- The 36 characters of the hyphenated form. -/
def parseHyphenated (cs : List Char) : Option Uuid := (unhyphenate groups cs).bind parseSimple

/-- `Uuid::parse_str`: simple, hyphenated, braced and URN forms, digits in either case. -/
def parseStr (s : String) : Option Uuid :=
  let cs := s.toList
  match cs.length with
  | 32 => parseSimple cs
  | 36 => parseHyphenated cs
  | 38 => if cs.head? = some '\x7b' ∧ cs.getLast? = some '\x7d'
    then parseHyphenated (cs.drop 1).dropLast else none
  | 45 => if cs.take 9 = "urn:uuid:".toList then parseHyphenated (cs.drop 9) else none
  | _ => none

/-- **Round trip.** A printed UUID is read back. -/
theorem parseStr_toString (u : Uuid) : parseStr u.toString = some u := by
  have hsum : groups.sum ≤ (hexDigits 32 u.toNat).length := by
    rw [length_hexDigits]; decide
  have hlen : (hyphenate groups (hexDigits 32 u.toNat)).length = 36 := by
    rw [length_hyphenate _ _ hsum, length_hexDigits]; rfl
  have hsimple : parseSimple (hexDigits 32 u.toNat) = some u := by
    have hlt : u.toNat < 16 ^ 32 := u.isLt
    rw [parseSimple, if_pos (length_hexDigits ..), readHex_hexDigits, Nat.mul_zero, Nat.zero_add,
      Nat.mod_eq_of_lt hlt, Option.map_some, BitVec.ofNat_toNat, BitVec.setWidth_eq]
  simp only [parseStr, toString, String.toList_ofList, hlen]
  rw [parseHyphenated, unhyphenate_hyphenate _ _ hsum, Option.bind_some, hsimple]

theorem toString_injective : Function.Injective toString := by
  intro u v h
  have := congrArg parseStr h
  rwa [parseStr_toString, parseStr_toString, Option.some.injEq] at this

/-- The printed form has digits and hyphens only. -/
theorem mem_toString {u : Uuid} {c : Char} (h : c ∈ u.toString.toList) :
    c = '-' ∨ (hexValue c).isSome := by
  rw [toString, String.toList_ofList] at h
  exact (mem_hyphenate h).imp id mem_hexDigits

end Uuid

/-! ## The newtypes -/

/-- A user account (one mailbox owner; a server hosts many). -/
structure AccountId where
  uuid : Uuid
  deriving DecidableEq, Repr

/-- A mailbox (folder/label) within an account. -/
structure MailboxId where
  uuid : Uuid
  deriving DecidableEq, Repr

/-- A single immutable email message. -/
structure EmailId where
  uuid : Uuid
  deriving DecidableEq, Repr

/-- A conversation thread grouping emails. -/
structure ThreadId where
  uuid : Uuid
  deriving DecidableEq, Repr

/-- A calendar collection. -/
structure CalendarId where
  uuid : Uuid
  deriving DecidableEq, Repr

instance : LawfulBEq (CalendarId × String) := inferInstance

/-- A single calendar event. -/
structure EventId where
  uuid : Uuid
  deriving DecidableEq, Repr

/-- A contact in the address book. -/
structure ContactId where
  uuid : Uuid
  deriving DecidableEq, Repr

/-- A public "schedule a meeting" booking page. -/
structure SchedulingPageId where
  uuid : Uuid
  deriving DecidableEq, Repr

/-- A visitor booking made through a scheduling page. -/
structure BookingId where
  uuid : Uuid
  deriving DecidableEq, Repr

/-- BLAKE3 digest of a blob's plaintext content. -/
structure BlobId where
  digest : BitVec 256
  deriving DecidableEq, Repr

theorem EmailId.uuid_injective : Function.Injective EmailId.uuid := by
  rintro ⟨_⟩ ⟨_⟩ rfl
  rfl

theorem ThreadId.uuid_injective : Function.Injective ThreadId.uuid := by
  rintro ⟨_⟩ ⟨_⟩ rfl
  rfl

theorem MailboxId.uuid_injective : Function.Injective MailboxId.uuid := by
  rintro ⟨_⟩ ⟨_⟩ rfl
  rfl

/-- Per-account, per-type modification sequence number. -/
abbrev ModSeq : Type := ℕ

/-- The synchronizable data types tracked by modseq state. -/
inductive DataType where
  | email
  | mailbox
  | thread
  | emailSubmission
  deriving DecidableEq, Repr

/-! ## Joined text -/

/-- `[T]::join`. -/
def joinWith (sep : String) : List String → String
  | [] => ""
  | [s] => s
  | s :: ss => s ++ (sep ++ joinWith sep ss)

/-! ## Unicode text -/

/-- The Unicode-aware `str` functions the code uses, with the one law of
`to_lowercase` it relies on: lower-casing twice changes nothing more. -/
structure Unicode where
  /-- `str::to_lowercase` -/
  toLowercase : String → String
  /-- `str::trim` -/
  trim : String → String
  /-- lower-cased text is its own lower case -/
  toLowercase_idem : ∀ s, toLowercase (toLowercase s) = toLowercase s

theorem toLower_toLower (c : Char) : c.toLower.toLower = c.toLower := by
  by_cases h : c.val ≥ 'A'.val ∧ c.val ≤ 'Z'.val
  · have hval : c.toLower.val = c.val + ('a'.val - 'A'.val) := by
      rw [Char.toLower, dif_pos h]
    have hup : ¬(c.toLower.val ≥ 'A'.val ∧ c.toLower.val ≤ 'Z'.val) := by
      rw [hval]
      simp only [ge_iff_le, UInt32.le_iff_toNat_le, not_and, not_le] at h ⊢
      intro _
      have : (c.val + ('a'.val - 'A'.val)).toNat = c.val.toNat + 32 := by
        rw [UInt32.toNat_add]
        have : ('a'.val - 'A'.val).toNat = 32 := by decide
        have : 'Z'.val.toNat = 90 := by decide
        omega
      have : 'Z'.val.toNat = 90 := by decide
      have : 'A'.val.toNat = 65 := by decide
      omega
    conv_lhs => rw [Char.toLower, dif_neg hup]
  · have hc : c.toLower = c := by rw [Char.toLower, dif_neg h]
    rw [hc, hc]

/-- ASCII letters in lower case, other characters as they are. -/
def asciiLower (s : String) : String := String.ofList (s.toList.map Char.toLower)

/-- The functions on ASCII text. -/
def Unicode.ascii : Unicode where
  toLowercase := asciiLower
  trim s := String.ofList ((s.toList.dropWhile Char.isWhitespace).rdropWhile Char.isWhitespace)
  toLowercase_idem s := by
    rw [asciiLower, asciiLower, String.toList_ofList, List.map_map]
    congr 1
    exact List.map_congr_left fun c _ => toLower_toLower c

/-! ### ASCII text that is trimmed -/

theorem toNat_toLower {c : Char} (h : c.val ≥ 'A'.val ∧ c.val ≤ 'Z'.val) :
    c.toLower.toNat = c.toNat + 32 := by
  have hval : c.toLower.val = c.val + ('a'.val - 'A'.val) := by
    rw [Char.toLower, dif_pos h]
  have hup : c.val.toNat ≤ 'Z'.val.toNat := UInt32.le_iff_toNat_le.mp h.2
  have hdiff : ('a'.val - 'A'.val).toNat = 32 := by decide
  have hZ : 'Z'.val.toNat = 90 := by decide
  rw [Char.toNat, Char.toNat, hval, UInt32.toNat_add, hdiff]
  omega

theorem not_isWhitespace {c : Char} (h : 'A'.toNat ≤ c.toNat) : c.isWhitespace = false := by
  have hne : ∀ d : Char, d.toNat < 'A'.toNat → c ≠ d := by
    rintro d hd rfl
    exact absurd h (not_le.mpr hd)
  simp [Char.isWhitespace, hne ' ' (by decide), hne '\t' (by decide), hne '\r' (by decide),
    hne '\n' (by decide)]

theorem isWhitespace_toLower (c : Char) : c.toLower.isWhitespace = c.isWhitespace := by
  by_cases h : c.val ≥ 'A'.val ∧ c.val ≤ 'Z'.val
  · have hc : 'A'.toNat ≤ c.toNat := UInt32.le_iff_toNat_le.mp h.1
    rw [not_isWhitespace hc, not_isWhitespace]
    rw [toNat_toLower h]
    omega
  · rw [Char.toLower, dif_neg h]

/-- `str::trim`, on a list of characters. -/
def trimList (p : Char → Bool) (cs : List Char) : List Char := (cs.dropWhile p).rdropWhile p

theorem trimList_idem (p : Char → Bool) (cs : List Char) :
    trimList p (trimList p cs) = trimList p cs := by
  have hhead : (trimList p cs).dropWhile p = trimList p cs := by
    refine List.dropWhile_eq_self_iff.mpr fun hl => ?_
    have hpre : trimList p cs <+: cs.dropWhile p := List.rdropWhile_prefix p _
    have hne : cs.dropWhile p ≠ [] := by
      intro hnil
      rw [hnil, List.prefix_nil] at hpre
      rw [hpre] at hl
      exact absurd hl (Nat.lt_irrefl 0)
    have hfirst : (trimList p cs)[0] = (cs.dropWhile p).head hne := by
      rw [List.head_eq_getElem]
      exact List.IsPrefix.getElem hpre hl
    rw [hfirst]
    exact Bool.eq_false_iff.mp (List.head_dropWhile_not p hne)
  rw [trimList, hhead]
  exact List.rdropWhile_idempotent p _

theorem trimList_map {p : Char → Bool} {f : Char → Char} (hf : ∀ c, p (f c) = p c)
    (cs : List Char) : trimList p (cs.map f) = (trimList p cs).map f := by
  have hcomp : p ∘ f = p := funext hf
  rw [trimList, List.dropWhile_map, hcomp, List.rdropWhile, ← List.map_reverse,
    List.dropWhile_map, hcomp, ← List.map_reverse, trimList, List.rdropWhile]

theorem ascii_trim (s : String) :
    Unicode.ascii.trim s = String.ofList (trimList Char.isWhitespace s.toList) := rfl

theorem ascii_toLowercase (s : String) : Unicode.ascii.toLowercase s = asciiLower s := rfl

/-- Trimmed text stays trimmed in lower case. -/
theorem ascii_trim_toLowercase (s : String) : Unicode.ascii.trim (Unicode.ascii.toLowercase
    (Unicode.ascii.trim s)) = Unicode.ascii.toLowercase (Unicode.ascii.trim s) := by
  simp only [ascii_trim, ascii_toLowercase, asciiLower, String.toList_ofList]
  rw [trimList_map isWhitespace_toLower, trimList_idem]

end Owney
