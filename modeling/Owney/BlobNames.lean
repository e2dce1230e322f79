import Owney.Ids
import Owney.Lib.ByteSlices

/-!
# The names of blobs

The id of a blob is read from text of the outside, as in the URL of a download
(`owney-core/src/id.rs`). The parser counts bytes, cuts the text at every second one, and leaves
what is between the cuts to `u8::from_str_radix`.

* `parse` — the parser; none is a panic. `parse_toHex` is the round trip.
* `parsesExactly_iff` — the texts for which it does what its errors say.
-/

namespace Owney

open ByteSlices

/-- `InvalidBlobId`. -/
inductive InvalidBlobId where
  | wrongLength (bytes : ℕ)
  | invalidChar (offset : ℕ)
  deriving DecidableEq, Repr

namespace BlobId

/-! ## Names -/

/-- `as_bytes`, the most significant first. -/
def asBytes (id : BlobId) : List UInt8 :=
  (List.range 32).map fun i => UInt8.ofNat (id.digest.toNat / 256 ^ (31 - i))

/-- `to_hex`. -/
def toHex (id : BlobId) : String := String.ofList (hexDigits 64 id.digest.toNat)

theorem toNat_readHex (id : BlobId) : readHex (hexDigits 64 id.digest.toNat) 0 =
    some id.digest.toNat := by
  have hlt : id.digest.toNat < 16 ^ 64 := by
    have h := id.digest.isLt
    norm_num at h ⊢
    exact h
  rw [readHex_hexDigits, Nat.mod_eq_of_lt hlt, Nat.mul_zero, Nat.zero_add]

theorem toHex_injective : Function.Injective toHex := by
  intro a b h
  have hdigits : hexDigits 64 a.digest.toNat = hexDigits 64 b.digest.toNat :=
    String.ofList_injective h
  have hread := toNat_readHex a
  rw [hdigits, toNat_readHex b] at hread
  obtain ⟨x⟩ := a
  obtain ⟨y⟩ := b
  exact congrArg BlobId.mk (BitVec.eq_of_toNat_eq (Option.some.inj hread).symm)

/-! ## The parser -/

/-- `u8::from_str_radix(_, 16)`. -/
def fromStrRadix : List Char → Option ℕ
  | [] => none
  | ['+'] => none
  | '+' :: ds => (readHex ds 0).filter (· < 256)
  | ds => (readHex ds 0).filter (· < 256)

/-- The loop over the bytes of the id, of which `n` are left. -/
def parseLoop (cs : List Char) : ℕ → ℕ → Option (Except InvalidBlobId ℕ)
  | 0, acc => some (.ok acc)
  | n + 1, acc =>
    let start := 2 * (31 - n)
    (slice? cs start (start + 2)).bind fun pair =>
      match fromStrRadix pair with
      | some b => parseLoop cs n (256 * acc + b)
      | none => some (.error (.invalidChar start))

/-- `from_str`. -/
def parse (cs : List Char) : Option (Except InvalidBlobId BlobId) :=
  if byteLength cs ≠ 64 then some (.error (.wrongLength (byteLength cs)))
  else (parseLoop cs 32 0).map fun r => r.map fun n => ⟨BitVec.ofNat 256 n⟩

/-! ## Pairs -/

/-- `u8::from_str_radix` of two characters; a leading plus sign is let through. -/
def hexPair (a b : Char) : Option ℕ :=
  if a = '+' then hexValue b else (hexValue a).bind fun x => (hexValue b).map (16 * x + ·)

/-- The pairs of characters, one byte after the other. -/
def readPairs : List Char → ℕ → Option ℕ
  | a :: b :: cs, acc => (hexPair a b).bind fun d => readPairs cs (256 * acc + d)
  | _, acc => some acc

/-- Pair by pair, or digit by digit. -/
theorem readPairs_eq_readHex : ∀ (cs : List Char) (acc : ℕ), cs.length % 2 = 0 → '+' ∉ cs →
    readPairs cs acc = readHex cs acc
  | [], _, _, _ => rfl
  | [_], _, hlen, _ => by cases hlen
  | a :: b :: cs, acc, hlen, hplus => by
    simp only [List.mem_cons, not_or] at hplus
    have heven : cs.length % 2 = 0 := by
      simp only [List.length_cons] at hlen
      omega
    simp only [readPairs, readHex, hexPair, if_neg (Ne.symm hplus.1)]
    rcases hexValue a with _ | x
    · rfl
    rcases hexValue b with _ | y
    · rfl
    simp only [Option.bind_some, Option.map_some]
    rw [readPairs_eq_readHex cs _ heven hplus.2.2]
    congr 1
    omega

/-- Pairs that `u8::from_str_radix` reads: a digit, or a plus sign, and a digit. -/
def Paired : List Char → Prop
  | [] => True
  | [_] => False
  | a :: b :: cs => (hexPair a b).isSome ∧ Paired cs

/-- The first cut of two bytes is inside a character. -/
def Cuts : List Char → Prop
  | [] => False
  | [c] => 3 ≤ c.utf8Size
  | c :: d :: _ => 3 ≤ c.utf8Size ∨ c.utf8Size = 1 ∧ 2 ≤ d.utf8Size

/-- Behind pairs that are read, a cut is inside a character. -/
def CutsChar (cs : List Char) : Prop := ∃ pairs rest, cs = pairs ++ rest ∧ Paired pairs ∧ Cuts rest

theorem utf8Size_of_hexValue {c : Char} (h : (hexValue c).isSome) : c.utf8Size = 1 := by
  have hle : c.toNat ≤ 127 := by
    unfold hexValue at h
    split_ifs at h with h₁ h₂ h₃
    · exact (Char.le_def.mp h₁.2).trans (by decide)
    · exact (Char.le_def.mp h₂.2).trans (by decide)
    · exact (Char.le_def.mp h₃.2).trans (by decide)
    · cases h
  exact Char.utf8Size_eq_one_iff.mpr hle

theorem utf8Size_of_hexPair {a b : Char} (h : (hexPair a b).isSome) :
    a.utf8Size = 1 ∧ b.utf8Size = 1 := by
  unfold hexPair at h
  split_ifs at h with hplus
  · exact ⟨hplus ▸ rfl, utf8Size_of_hexValue h⟩
  · obtain ⟨n, hn⟩ := Option.isSome_iff_exists.mp h
    obtain ⟨x, hx, hmap⟩ := Option.bind_eq_some_iff.mp hn
    obtain ⟨y, hy, -⟩ := Option.map_eq_some_iff.mp hmap
    exact ⟨utf8Size_of_hexValue (by rw [hx]; rfl), utf8Size_of_hexValue (by rw [hy]; rfl)⟩

theorem hexValue_lt {c : Char} {d : ℕ} (h : hexValue c = some d) :
    d < 16 ∧ hexDigit d = c.toLower := by
  obtain ⟨n, hn⟩ : ∃ n, c.toNat = n := ⟨_, rfl⟩
  have hc : Char.ofNat n = c := hn ▸ Char.ofNat_toNat c
  unfold hexValue at h
  rw [hn] at h
  split_ifs at h with h₁ h₂ h₃ <;> obtain rfl := Option.some.inj h
  · have hlo : 48 ≤ n := hn ▸ Char.le_def.mp h₁.1
    have hhi : n ≤ 57 := hn ▸ Char.le_def.mp h₁.2
    rw [← hc]
    clear * - hlo hhi
    interval_cases n <;> exact ⟨by decide, rfl⟩
  · have hlo : 97 ≤ n := hn ▸ Char.le_def.mp h₂.1
    have hhi : n ≤ 102 := hn ▸ Char.le_def.mp h₂.2
    rw [← hc]
    clear * - hlo hhi
    interval_cases n <;> exact ⟨by decide, rfl⟩
  · have hlo : 65 ≤ n := hn ▸ Char.le_def.mp h₃.1
    have hhi : n ≤ 70 := hn ▸ Char.le_def.mp h₃.2
    rw [← hc]
    clear * - hlo hhi
    interval_cases n <;> exact ⟨by decide, rfl⟩

theorem fromStrRadix_pair (a b : Char) : fromStrRadix [a, b] = hexPair a b := by
  have hsmall : ∀ {n : ℕ}, n < 256 → (some n).filter (· < 256) = some n := fun h => by simp [h]
  unfold hexPair
  split_ifs with hplus
  · subst hplus
    cases hb : hexValue b with
    | none => simp [fromStrRadix, readHex, hb]
    | some y =>
      have := (hexValue_lt hb).1
      simp only [fromStrRadix, readHex, hb, Option.bind_some, Nat.mul_zero, Nat.zero_add]
      exact hsmall (by omega)
  · have hdigits : fromStrRadix [a, b] = (readHex [a, b] 0).filter (· < 256) := by
      rw [fromStrRadix] <;> simp [hplus]
    rw [hdigits]
    cases ha : hexValue a with
    | none => simp [readHex, ha]
    | some x =>
      cases hb : hexValue b with
      | none => simp [readHex, ha, hb]
      | some y =>
        have := (hexValue_lt ha).1
        have := (hexValue_lt hb).1
        simp only [readHex, ha, hb, Option.bind_some, Option.map_some, Nat.mul_zero, Nat.zero_add]
        exact hsmall (by omega)

/-- A character of two bytes is no number. -/
theorem fromStrRadix_wide {c : Char} (h : c.utf8Size ≠ 1) : fromStrRadix [c] = none := by
  have hvalue : hexValue c = none := by
    by_contra hsome
    exact h (utf8Size_of_hexValue (Option.isSome_iff_ne_none.mpr hsome))
  have hplus : c ≠ '+' := fun hc => h (hc ▸ rfl)
  rw [fromStrRadix] <;> simp [hplus, readHex, hvalue]

theorem Paired.utf8Size : ∀ {cs : List Char}, Paired cs → ∀ c ∈ cs, c.utf8Size = 1
  | [], _, _, h => nomatch h
  | a :: b :: cs, ⟨hab, hcs⟩, c, h => by
    obtain ⟨ha, hb⟩ := utf8Size_of_hexPair hab
    rcases List.mem_cons.mp h with rfl | h
    · exact ha
    · rcases List.mem_cons.mp h with rfl | h
      · exact hb
      · exact Paired.utf8Size hcs c h

theorem Paired.append : ∀ {as : List Char}, Paired as → ∀ {bs}, Paired bs → Paired (as ++ bs)
  | [], _, _, hbs => hbs
  | _ :: _ :: _, ⟨hab, has⟩, _, hbs => ⟨hab, Paired.append has hbs⟩

/-- Behind a pair that is read. -/
theorem cutsChar_cons {a b : Char} (ha : a.utf8Size = 1) (hb : b.utf8Size = 1) (cs : List Char) :
    CutsChar (a :: b :: cs) ↔ (hexPair a b).isSome ∧ CutsChar cs := by
  constructor
  · rintro ⟨pairs, rest, heq, hpairs, hcuts⟩
    match pairs, hpairs with
    | [], _ =>
      obtain rfl : a :: b :: cs = rest := heq
      rcases hcuts with h | h <;> omega
    | x :: y :: pairs, ⟨hxy, hpairs⟩ =>
      obtain ⟨rfl, rfl, rfl⟩ : a = x ∧ b = y ∧ cs = pairs ++ rest := by simpa using heq
      exact ⟨hxy, pairs, rest, rfl, hpairs, hcuts⟩
  · rintro ⟨hab, pairs, rest, rfl, hpairs, hcuts⟩
    exact ⟨a :: b :: pairs, rest, rfl, ⟨hab, hpairs⟩, hcuts⟩

/-! ## The loop -/

/-- What two bytes of a text are: two characters, one character, or no text. -/
theorem split_two {cs : List Char} (h : 2 ≤ byteLength cs) :
    (∃ a b rest, cs = a :: b :: rest ∧ (a.utf8Size = 1 ∧ b.utf8Size = 1) ∧
      split? cs 2 = some ([a, b], rest)) ∨
    (∃ c rest, cs = c :: rest ∧ c.utf8Size = 2 ∧ split? cs 2 = some ([c], rest)) ∨
    (Cuts cs ∧ split? cs 2 = none) := by
  cases cs with
  | nil => cases h
  | cons c cs =>
    have hpos := c.utf8Size_pos
    have hfour := c.utf8Size_le_four
    by_cases hwide : 3 ≤ c.utf8Size
    · refine .inr (.inr ⟨?_, by rw [split?, if_neg (by omega)]⟩)
      cases cs with
      | nil => exact hwide
      | cons d cs => exact .inl hwide
    · by_cases htwo : c.utf8Size = 2
      · refine .inr (.inl ⟨c, cs, rfl, htwo, split?_eq_some.mpr ⟨rfl, ?_⟩⟩)
        rw [byteLength_cons, htwo, byteLength_nil]
      · have hone : c.utf8Size = 1 := by omega
        cases cs with
        | nil =>
          rw [byteLength_cons, byteLength_nil] at h
          omega
        | cons d cs =>
          by_cases hd : d.utf8Size = 1
          · refine .inl ⟨c, d, cs, rfl, ⟨hone, hd⟩, split?_eq_some.mpr ⟨rfl, ?_⟩⟩
            rw [byteLength_cons, byteLength_cons, hone, hd, byteLength_nil]
          · have hd' : 2 ≤ d.utf8Size := by have := d.utf8Size_pos; omega
            refine .inr (.inr ⟨.inr ⟨hone, hd'⟩, ?_⟩)
            rw [split?, if_pos (by omega), hone, split?, if_neg (by omega)]
            rfl

/-- **The loop**, with `n` bytes to come. -/
theorem parseLoop_spec {n : ℕ} (hn : n ≤ 32) {pairs : List Char} (hpairs : Paired pairs)
    (hlen : pairs.length = 2 * (32 - n)) {rest : List Char} (hrest : byteLength rest = 2 * n)
    (acc : ℕ) :
    (parseLoop (pairs ++ rest) n acc = none ↔ CutsChar rest) ∧
      ∀ m, parseLoop (pairs ++ rest) n acc = some (.ok m) ↔
        Paired rest ∧ readPairs rest acc = some m := by
  induction n generalizing pairs rest acc with
  | zero =>
    obtain rfl := byteLength_eq_zero.mp hrest
    refine ⟨?_, fun m => ?_⟩
    · simp only [parseLoop, reduceCtorEq, false_iff]
      rintro ⟨as, bs, heq, -, hcuts⟩
      rw [(List.append_eq_nil_iff.mp heq.symm).2] at hcuts
      exact hcuts
    · simp [parseLoop, Paired, readPairs]
  | succ n ih =>
    have hstart : 2 * (31 - n) = byteLength pairs := by
      rw [byteLength_eq_length hpairs.utf8Size, hlen]
      omega
    simp only [parseLoop, hstart, slice?_append]
    rcases @split_two rest (by omega) with
      ⟨a, b, rest, rfl, ⟨ha, hb⟩, hsplit⟩ | ⟨c, rest, rfl, hc, hsplit⟩ | ⟨hcuts, hsplit⟩
    · rw [hsplit, Option.map_some, Option.bind_some, fromStrRadix_pair, cutsChar_cons ha hb]
      cases hpair : hexPair a b with
      | none => simp [Paired, hpair]
      | some d =>
        have hread : Paired (pairs ++ [a, b]) := hpairs.append ⟨by rw [hpair]; rfl, trivial⟩
        rw [byteLength_cons, byteLength_cons, ha, hb] at hrest
        have hlast : byteLength rest = 2 * n := by omega
        have hnext := ih (by omega) hread (by simp [hlen]; omega) hlast (256 * acc + d)
        rw [List.append_assoc, List.cons_append, List.cons_append, List.nil_append] at hnext
        simpa [Paired, hpair, readPairs] using hnext
    · have hno : ∀ {d : Char} {cs : List Char}, rest = d :: cs → ¬(hexPair c d).isSome := by
        intro d cs _ hpair
        have := (utf8Size_of_hexPair hpair).1
        omega
      rw [hsplit, Option.map_some, Option.bind_some, fromStrRadix_wide (by omega)]
      refine ⟨?_, fun m => ?_⟩
      · simp only [reduceCtorEq, false_iff]
        rintro ⟨as, bs, heq, has, hcuts⟩
        rcases as with _ | ⟨x, _ | ⟨y, as⟩⟩
        · obtain rfl : c :: rest = bs := heq
          cases rest with
          | nil => rw [Cuts] at hcuts; omega
          | cons d rest => rcases hcuts with h | h <;> omega
        · exact has
        · obtain ⟨rfl, hrest'⟩ : c = x ∧ rest = y :: (as ++ bs) := by simpa using heq
          exact hno hrest' has.1
      · simp only [Option.some.injEq, reduceCtorEq, false_iff, not_and]
        intro hpaired
        cases rest with
        | nil => exact absurd hpaired id
        | cons d rest => exact absurd hpaired.1 (hno rfl)
    · rw [hsplit, Option.map_none, Option.bind_none]
      refine ⟨⟨fun _ => ⟨[], rest, rfl, trivial, hcuts⟩, fun _ => rfl⟩, fun m => ?_⟩
      simp only [reduceCtorEq, false_iff, not_and]
      intro hpaired
      rcases rest with _ | ⟨x, _ | ⟨y, rest⟩⟩
      · exact absurd hcuts id
      · exact absurd hpaired id
      · have := utf8Size_of_hexPair hpaired.1
        rcases hcuts with h | h <;> omega

/-! ## What is read -/

theorem paired_iff {cs : List Char} (hlen : cs.length % 2 = 0) (acc : ℕ) :
    Paired cs ↔ (readPairs cs acc).isSome := by
  fun_induction readPairs cs acc with
  | case1 a b cs acc ih =>
    have heven : cs.length % 2 = 0 := by
      simp only [List.length_cons] at hlen
      omega
    cases hpair : hexPair a b with
    | none => simp [Paired, hpair]
    | some d => simpa [Paired, hpair] using ih d heven
  | case2 cs acc hno =>
    match cs, hno with
    | [], _ => simp [Paired]
    | [_], _ => cases hlen
    | a :: b :: cs, hno => exact absurd rfl (hno a b cs)

theorem Paired.length : ∀ {cs : List Char}, Paired cs → cs.length % 2 = 0
  | [], _ => rfl
  | _ :: _ :: cs, ⟨_, hcs⟩ => by
    have := Paired.length hcs
    simp only [List.length_cons]
    omega

/-- **What the parser does** with a text of 64 bytes. -/
theorem parse_spec {cs : List Char} (h : byteLength cs = 64) :
    (parse cs = none ↔ CutsChar cs) ∧ ∀ id, parse cs = some (.ok id) ↔
      Paired cs ∧ ∃ n, readPairs cs 0 = some n ∧ id = ⟨BitVec.ofNat 256 n⟩ := by
  obtain ⟨hnone, hok⟩ := @parseLoop_spec 32 le_rfl [] trivial rfl cs h 0
  rw [List.nil_append] at hnone hok
  rw [parse, if_neg (not_not.mpr h)]
  refine ⟨by rw [Option.map_eq_none_iff, hnone], fun id => ?_⟩
  constructor
  · intro hsome
    obtain ⟨r, hr, hid⟩ := Option.map_eq_some_iff.mp hsome
    match r with
    | .error e => cases hid
    | .ok n =>
      obtain ⟨hpaired, hread⟩ := (hok n).mp hr
      exact ⟨hpaired, n, hread, (Except.ok.inj hid).symm⟩
  · rintro ⟨hpaired, n, hread, rfl⟩
    rw [(hok n).mpr ⟨hpaired, hread⟩]
    rfl

theorem parse_short {cs : List Char} (h : byteLength cs ≠ 64) :
    parse cs = some (.error (.wrongLength (byteLength cs))) := if_pos h

/-! ## Exactness -/

/-- 64 hexadecimal digits. -/
def IsHexName (cs : List Char) : Prop := cs.length = 64 ∧ ∀ c ∈ cs, (hexValue c).isSome

/-- The parser does not panic; it reads 64 hexadecimal digits and nothing else, and the name of
what it reads is the text in lower case. -/
structure ParsesExactly (cs : List Char) : Prop where
  total : parse cs ≠ none
  exact : (∃ id, parse cs = some (.ok id)) ↔ IsHexName cs
  name : ∀ id, parse cs = some (.ok id) → id.toHex.toList = cs.map Char.toLower

theorem paired_of_hex : ∀ {cs : List Char}, cs.length % 2 = 0 → (∀ c ∈ cs, (hexValue c).isSome) →
    Paired cs
  | [], _, _ => trivial
  | a :: b :: cs, hlen, h => by
    simp only [List.forall_mem_cons] at h
    obtain ⟨ha, hb, hcs⟩ := h
    simp only [List.length_cons] at hlen
    refine ⟨?_, paired_of_hex (by omega) hcs⟩
    obtain ⟨x, hx⟩ := Option.isSome_iff_exists.mp ha
    obtain ⟨y, hy⟩ := Option.isSome_iff_exists.mp hb
    unfold hexPair
    split_ifs <;> simp [hx, hy]

/-- Pairs without a plus sign are digits. -/
theorem hex_of_paired : ∀ {cs : List Char}, Paired cs → '+' ∉ cs → ∀ c ∈ cs, (hexValue c).isSome
  | [], _, _, _, h => nomatch h
  | a :: b :: cs, ⟨hab, hcs⟩, hplus, c, h => by
    simp only [List.mem_cons, not_or] at hplus
    rw [hexPair, if_neg (Ne.symm hplus.1)] at hab
    obtain ⟨n, hn⟩ := Option.isSome_iff_exists.mp hab
    obtain ⟨x, hx, hmap⟩ := Option.bind_eq_some_iff.mp hn
    obtain ⟨y, hy, -⟩ := Option.map_eq_some_iff.mp hmap
    rcases List.mem_cons.mp h with rfl | h
    · rw [hx]
      rfl
    · rcases List.mem_cons.mp h with rfl | h
      · rw [hy]
        rfl
      · exact hex_of_paired hcs hplus.2.2 c h

/-- The digits of the number that digits stand for. -/
theorem hexDigits_readHex {cs : List Char} {n : ℕ} (h : readHex cs 0 = some n) :
    hexDigits cs.length n = cs.map Char.toLower ∧ n < 16 ^ cs.length := by
  induction cs using List.reverseRecOn generalizing n with
  | nil =>
    obtain rfl := Option.some.inj h
    exact ⟨rfl, by decide⟩
  | append_singleton cs c ih =>
    rw [readHex_append] at h
    obtain ⟨m, hm, hc⟩ := Option.bind_eq_some_iff.mp h
    obtain ⟨d, hd, hn⟩ := Option.bind_eq_some_iff.mp hc
    obtain rfl : 16 * m + d = n := Option.some.inj hn
    obtain ⟨hlt, hdigit⟩ := hexValue_lt hd
    obtain ⟨hdigits, hle⟩ := ih hm
    rw [List.length_append, List.length_singleton, List.map_append, hexDigits,
      show (16 * m + d) / 16 = m by omega, show (16 * m + d) % 16 = d by omega, hdigits, hdigit,
      pow_succ]
    exact ⟨rfl, by omega⟩

/-- **The round trip of a name.** -/
theorem parse_toHex (id : BlobId) : parse id.toHex.toList = some (.ok id) := by
  rw [toHex, String.toList_ofList]
  have hread := toNat_readHex id
  have hlength : (hexDigits 64 id.digest.toNat).length = 64 := length_hexDigits ..
  have hhex : ∀ c ∈ hexDigits 64 id.digest.toNat, (hexValue c).isSome := fun c => mem_hexDigits
  generalize hexDigits 64 id.digest.toNat = cs at hread hlength hhex ⊢
  have hlen : byteLength cs = 64 :=
    (byteLength_eq_length fun c hc => utf8Size_of_hexValue (hhex c hc)).trans hlength
  have hplus : '+' ∉ cs := fun hc => absurd (hhex '+' hc) (by decide)
  have heven : cs.length % 2 = 0 := by rw [hlength]
  refine ((parse_spec hlen).2 id).mpr ⟨paired_of_hex heven hhex, id.digest.toNat, ?_, ?_⟩
  · rw [readPairs_eq_readHex cs 0 heven hplus, hread]
  · rw [BitVec.ofNat_toNat, BitVec.setWidth_eq]

/-- **The names that are read as they should be.** A text of another length is refused. One of 64
bytes is read exactly unless, behind pairs that are read, a cut is inside a character, or the text
is made of pairs and a plus sign is in one. The name of an id is read back. -/
theorem parsesExactly_iff (cs : List Char) (name : BlobId) :
    (ParsesExactly cs ↔ (byteLength cs = 64 → ¬CutsChar cs ∧ ¬(Paired cs ∧ '+' ∈ cs))) ∧
      parse name.toHex.toList = some (.ok name) := by
  refine ⟨⟨fun h hlen => ?_, fun h => ?_⟩, parse_toHex name⟩
  · obtain ⟨hnone, hok⟩ := parse_spec hlen
    refine ⟨fun hcuts => h.total (hnone.mpr hcuts), ?_⟩
    rintro ⟨hpaired, hplus⟩
    obtain ⟨n, hn⟩ := Option.isSome_iff_exists.mp ((paired_iff hpaired.length 0).mp hpaired)
    obtain ⟨-, hhex⟩ := h.exact.mp ⟨_, (hok _).mpr ⟨hpaired, n, hn, rfl⟩⟩
    exact absurd (hhex '+' hplus) (by decide)
  · by_cases hlen : byteLength cs = 64
    · obtain ⟨hnone, hok⟩ := parse_spec hlen
      obtain ⟨hcuts, hplus⟩ := h hlen
      have hplain : Paired cs → '+' ∉ cs := fun hpaired hmem => hplus ⟨hpaired, hmem⟩
      refine ⟨fun h => hcuts (hnone.mp h), ⟨?_, ?_⟩, ?_⟩
      · rintro ⟨id, hid⟩
        obtain ⟨hpaired, -⟩ := (hok id).mp hid
        refine ⟨(byteLength_eq_length hpaired.utf8Size).symm.trans hlen, ?_⟩
        exact hex_of_paired hpaired (hplain hpaired)
      · rintro ⟨hlength, hhex⟩
        have hpaired := paired_of_hex (by rw [hlength]) hhex
        obtain ⟨n, hn⟩ := Option.isSome_iff_exists.mp ((paired_iff hpaired.length 0).mp hpaired)
        exact ⟨_, (hok _).mpr ⟨hpaired, n, hn, rfl⟩⟩
      · intro id hid
        obtain ⟨hpaired, n, hn, rfl⟩ := (hok id).mp hid
        rw [readPairs_eq_readHex cs 0 hpaired.length (hplain hpaired)] at hn
        obtain ⟨hdigits, hlt⟩ := hexDigits_readHex hn
        have hlength := (byteLength_eq_length hpaired.utf8Size).symm.trans hlen
        rw [hlength] at hdigits hlt
        have hsmall : (BitVec.ofNat 256 n).toNat = n :=
          Nat.mod_eq_of_lt (hlt.trans_le (by norm_num))
        rw [toHex, String.toList_ofList, hsmall, hdigits]
    · have hshort := parse_short hlen
      refine ⟨by simp [hshort], ⟨?_, ?_⟩, ?_⟩
      · rintro ⟨id, hid⟩
        rw [hshort] at hid
        cases hid
      · rintro ⟨hlength, hhex⟩
        exact absurd ((byteLength_eq_length fun c hc => utf8Size_of_hexValue (hhex c hc)).trans
          hlength) hlen
      · intro id hid
        rw [hshort] at hid
        cases hid

/-- A plus sign in each pair, and a letter of two bytes behind the first character. -/
theorem not_parsesExactly :
    ¬ParsesExactly (List.replicate 32 ['+', '0']).flatten ∧
      ¬ParsesExactly ('a' :: 'é' :: List.replicate 61 'a') := by
  have hplus : parse (List.replicate 32 ['+', '0']).flatten = some (.ok ⟨0⟩) := by decide +kernel
  have hcut : parse ('a' :: 'é' :: List.replicate 61 'a') = none := by decide +kernel
  refine ⟨fun h => ?_, fun h => h.total hcut⟩
  obtain ⟨-, hhex⟩ := h.exact.mp ⟨_, hplus⟩
  exact absurd (hhex '+' (by decide)) (by decide)

end BlobId

end Owney
