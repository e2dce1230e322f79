import Owney.Lib.CharLists
import Mathlib.Data.List.Basic
import Mathlib.Data.String.Basic

/-!
# Bytes read as text

`fromUtf8Lossy` reads bytes as UTF-8 and puts U+FFFD where they are none, one for each
longest beginning of a character, as the standard library of Rust does
(`String::from_utf8_lossy`). What is encoded text at the front of the bytes is read back
whatever follows (`fromUtf8Lossy_append`).
-/

namespace Utf8

/-- The UTF-8 bytes of a text. -/
def encode (cs : List Char) : List UInt8 := cs.flatMap String.utf8EncodeChar

@[simp] theorem encode_append (cs ds : List Char) : encode (cs ++ ds) = encode cs ++ encode ds :=
  List.flatMap_append

/-- The bytes of a string. -/
theorem toUTF8_eq_encode (s : String) : s.toUTF8.data.toList = encode s.toList := by
  rw [String.toUTF8_eq_toByteArray, ← String.utf8Encode_toList, List.utf8Encode,
    List.data_toByteArray]
  rfl

/-- A byte below 128 is a character of its own. -/
theorem toNat_of_mem_utf8EncodeChar {c : Char} {b : UInt8} (h : b ∈ String.utf8EncodeChar c)
    (hb : b.toNat < 128) : c.toNat = b.toNat := by
  have hmod : ∀ n : ℕ, n.toUInt8.toNat = n % 256 := fun n => by simp
  simp only [String.utf8EncodeChar] at h
  change c.val.toNat = _
  split_ifs at h <;> simp only [List.mem_cons, List.not_mem_nil, or_false] at h
  · subst h
    rw [hmod]
    omega
  · rcases h with rfl | rfl <;> rw [hmod] at hb <;> omega
  · rcases h with rfl | rfl | rfl <;> rw [hmod] at hb <;> omega
  · rcases h with rfl | rfl | rfl | rfl <;> rw [hmod] at hb <;> omega

/-- The character some bytes start with, if they do. -/
def decodeChar? (bs : List UInt8) : Option Char := bs.toByteArray.utf8DecodeChar? 0

/-- Whether a second byte may follow the first byte of a character of three or four bytes. -/
def follows (b c : UInt8) : Bool :=
  (b = 0xE0 && 0xA0 ≤ c && c ≤ 0xBF) || (0xE1 ≤ b && b ≤ 0xEC && 0x80 ≤ c && c ≤ 0xBF) ||
    (b = 0xED && 0x80 ≤ c && c ≤ 0x9F) || (0xEE ≤ b && b ≤ 0xEF && 0x80 ≤ c && c ≤ 0xBF) ||
    (b = 0xF0 && 0x90 ≤ c && c ≤ 0xBF) || (0xF1 ≤ b && b ≤ 0xF3 && 0x80 ≤ c && c ≤ 0xBF) ||
    (b = 0xF4 && 0x80 ≤ c && c ≤ 0x8F)

/-- How many bytes one U+FFFD stands for, at the start of bytes that are no character. -/
def invalidLength : List UInt8 → ℕ
  | b :: c :: bs =>
    if follows b c then
      match bs with
      | d :: _ => if 0xF0 ≤ b && 0x80 ≤ d && d ≤ 0xBF then 3 else 2
      | [] => 2
    else 1
  | _ => 1

/-- The text of the bytes; the number bounds the characters. -/
def lossyFrom : ℕ → List UInt8 → List Char
  | 0, _ => []
  | _, [] => []
  | n + 1, bs =>
    match decodeChar? bs with
    | some c => c :: lossyFrom n (bs.drop c.utf8Size)
    | none => '\uFFFD' :: lossyFrom n (bs.drop (invalidLength bs))

/-- `String::from_utf8_lossy`. -/
def fromUtf8Lossy (bs : List UInt8) : List Char := lossyFrom bs.length bs

theorem decodeChar?_encode (c : Char) (bs : List UInt8) :
    decodeChar? (String.utf8EncodeChar c ++ bs) = some c := by
  rw [decodeChar?, List.toByteArray_append]
  exact ByteArray.utf8DecodeChar?_utf8EncodeChar_append

theorem invalidLength_pos (bs : List UInt8) : 0 < invalidLength bs := by
  unfold invalidLength
  split
  · split
    · split
      · split <;> decide
      · decide
    · decide
  · decide

/-- The bound does not matter once it is as large as the bytes. -/
theorem lossyFrom_congr {n m : ℕ} {bs : List UInt8} (hn : bs.length ≤ n) (hm : bs.length ≤ m) :
    lossyFrom n bs = lossyFrom m bs := by
  induction n generalizing m bs with
  | zero =>
    obtain rfl := List.eq_nil_of_length_eq_zero (Nat.le_zero.mp hn)
    cases m <;> rfl
  | succ n ih =>
    cases bs with
    | nil => cases m <;> rfl
    | cons b bs =>
      cases m with
      | zero => simp at hm
      | succ m =>
        simp only [List.length_cons] at hn hm
        have hrest : ∀ k, 0 < k →
            lossyFrom n ((b :: bs).drop k) = lossyFrom m ((b :: bs).drop k) := by
          intro k hk
          have hlen : ((b :: bs).drop k).length ≤ bs.length := by
            simp only [List.length_drop, List.length_cons]
            omega
          exact ih (by omega) (by omega)
        simp only [lossyFrom]
        cases decodeChar? (b :: bs) with
        | some c => simp only [hrest _ c.utf8Size_pos]
        | none => simp only [hrest _ (invalidLength_pos (b :: bs))]

theorem fromUtf8Lossy_cons (c : Char) (bs : List UInt8) :
    fromUtf8Lossy (String.utf8EncodeChar c ++ bs) = c :: fromUtf8Lossy bs := by
  have hsize := String.length_utf8EncodeChar c
  have hpos := c.utf8Size_pos
  cases hbytes : String.utf8EncodeChar c ++ bs with
  | nil =>
    have hlen := congrArg List.length hbytes
    simp only [List.length_append, List.length_nil] at hlen
    omega
  | cons b rest =>
    have hdecode : decodeChar? (b :: rest) = some c := by
      rw [← hbytes, decodeChar?_encode]
    have hdrop : (b :: rest).drop c.utf8Size = bs := by
      rw [← hbytes, ← hsize, List.drop_left]
    have hlen : bs.length ≤ rest.length := by
      have := congrArg List.length hbytes
      simp only [List.length_append, List.length_cons] at this
      omega
    rw [fromUtf8Lossy, List.length_cons, lossyFrom, hdecode]
    · simp only [hdrop]
      rw [fromUtf8Lossy, lossyFrom_congr hlen le_rfl]
    · exact List.cons_ne_nil _ _

/-- **Encoded text is read back**, whatever follows it. -/
theorem fromUtf8Lossy_append (cs : List Char) (bs : List UInt8) :
    fromUtf8Lossy (encode cs ++ bs) = cs ++ fromUtf8Lossy bs := by
  induction cs with
  | nil => rfl
  | cons c cs ih =>
    rw [encode, List.flatMap_cons, List.append_assoc, fromUtf8Lossy_cons, ← encode, ih,
      List.cons_append]

end Utf8
