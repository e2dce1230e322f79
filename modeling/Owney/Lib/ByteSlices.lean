import Mathlib

/-!
# Slices of text

Where a text is cut at a byte, the byte has to be the first of a character or the end
(`split?`, `slice?`).

* `split?_eq_some` — a cut is a way to write the text as two.
-/

namespace ByteSlices

/-- How many bytes a text takes. -/
def byteLength (cs : List Char) : ℕ := (cs.map Char.utf8Size).sum

@[simp] theorem byteLength_nil : byteLength [] = 0 := rfl

@[simp] theorem byteLength_cons (c : Char) (cs : List Char) :
    byteLength (c :: cs) = c.utf8Size + byteLength cs := by
  rw [byteLength, List.map_cons, List.sum_cons, byteLength]

@[simp] theorem byteLength_append (a b : List Char) :
    byteLength (a ++ b) = byteLength a + byteLength b := by
  rw [byteLength, List.map_append, List.sum_append, byteLength, byteLength]

theorem byteLength_eq_zero {cs : List Char} : byteLength cs = 0 ↔ cs = [] := by
  cases cs with
  | nil => simp
  | cons c cs =>
    have := c.utf8Size_pos
    simp only [byteLength_cons, reduceCtorEq, iff_false]
    omega

theorem length_le_byteLength (cs : List Char) : cs.length ≤ byteLength cs := by
  induction cs with
  | nil => exact Nat.le_refl 0
  | cons c cs ih =>
    have := c.utf8Size_pos
    rw [List.length_cons, byteLength_cons]
    omega

/-- A text of characters of one byte. -/
theorem byteLength_eq_length {cs : List Char} (h : ∀ c ∈ cs, c.utf8Size = 1) :
    byteLength cs = cs.length := by
  induction cs with
  | nil => rfl
  | cons c cs ih =>
    rw [List.forall_mem_cons] at h
    rw [byteLength_cons, h.1, ih h.2, List.length_cons, Nat.add_comm]

/-- `str::split_at`: a text cut at a byte; none is a panic. -/
def split? : List Char → ℕ → Option (List Char × List Char)
  | cs, 0 => some ([], cs)
  | [], _ + 1 => none
  | c :: cs, n + 1 =>
    if c.utf8Size ≤ n + 1 then
      (split? cs (n + 1 - c.utf8Size)).map fun (a, b) => (c :: a, b)
    else none

/-- `&s[lo..hi]`. -/
def slice? (cs : List Char) (lo hi : ℕ) : Option (List Char) :=
  if lo ≤ hi then (split? cs lo).bind fun (_, rest) => (split? rest (hi - lo)).map (·.1) else none

theorem split?_cons (c : Char) (cs : List Char) {n : ℕ} (h : c.utf8Size ≤ n) :
    split? (c :: cs) n = (split? cs (n - c.utf8Size)).map fun (a, b) => (c :: a, b) := by
  obtain ⟨k, rfl⟩ : ∃ k, n = k + 1 := ⟨n - 1, by have := c.utf8Size_pos; omega⟩
  rw [split?, if_pos h]

/-- Before the byte is a text of that length. -/
theorem split?_append (a b : List Char) : split? (a ++ b) (byteLength a) = some (a, b) := by
  induction a with
  | nil => cases b <;> rfl
  | cons c a ih =>
    rw [List.cons_append, byteLength_cons, split?_cons c _ (Nat.le_add_right ..),
      Nat.add_sub_cancel_left, ih]
    rfl

/-- **A cut.** -/
theorem split?_eq_some {cs a b : List Char} {n : ℕ} :
    split? cs n = some (a, b) ↔ a ++ b = cs ∧ byteLength a = n := by
  constructor
  · intro h
    fun_induction split? cs n generalizing a with
    | case1 cs =>
      obtain ⟨rfl, rfl⟩ := Prod.mk.inj (Option.some.inj h)
      exact ⟨rfl, rfl⟩
    | case2 => cases h
    | case3 c cs n hle ih =>
      obtain ⟨⟨a', b'⟩, ha, heq⟩ := Option.map_eq_some_iff.mp h
      obtain ⟨rfl, rfl⟩ := Prod.mk.inj heq
      obtain ⟨rfl, hlen⟩ := ih ha
      exact ⟨rfl, by rw [byteLength_cons]; omega⟩
    | case4 => cases h
  · rintro ⟨rfl, rfl⟩
    exact split?_append a b

/-- A cut in the first of two texts. -/
theorem split?_append_right {cs : List Char} {n : ℕ} (h : n ≤ byteLength cs) (ds : List Char) :
    split? (cs ++ ds) n = (split? cs n).map fun (a, b) => (a, b ++ ds) := by
  induction cs generalizing n with
  | nil =>
    obtain rfl : n = 0 := by simpa using h
    cases ds <;> rfl
  | cons c cs ih =>
    cases n with
    | zero => rfl
    | succ n =>
      rw [byteLength_cons] at h
      rw [List.cons_append, split?, split?]
      split_ifs
      · rw [ih (by omega), Option.map_map, Option.map_map]
        rfl
      · rfl

/-- A piece behind a text. -/
theorem slice?_append (a b : List Char) (n : ℕ) :
    slice? (a ++ b) (byteLength a) (byteLength a + n) = (split? b n).map (·.1) := by
  rw [slice?, if_pos (Nat.le_add_right ..), split?_append, Nat.add_sub_cancel_left]
  rfl

end ByteSlices
