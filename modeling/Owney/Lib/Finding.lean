import Mathlib.Data.List.Infix

/-!
# Finding a text in a text

What is behind the first place where a needle stands (`findAfter`).

* `findAfter_append` — what comes later does not matter.
* `findAfter_first` — a needle whose first symbol does not come again in it is found where it was
  put, if it was not there before.
-/

namespace Finding

variable {α : Type} [DecidableEq α]

/-- What is behind the first place where the needle stands. -/
def findAfter (needle : List α) : List α → Option (List α)
  | [] => if needle = [] then some [] else none
  | a :: text =>
    if needle <+: a :: text then some ((a :: text).drop needle.length) else findAfter needle text

/-- `str::contains`. -/
def contains (needle text : List α) : Bool := (findAfter needle text).isSome

theorem findAfter_of_prefix (needle rest : List α) : findAfter needle (needle ++ rest) = some rest := by
  cases hn : needle ++ rest with
  | nil =>
    obtain ⟨rfl, rfl⟩ := List.append_eq_nil_iff.mp hn
    rfl
  | cons a text =>
    rw [findAfter, if_pos (hn ▸ List.prefix_append needle rest), ← hn, List.drop_left]

theorem findAfter_cons {needle : List α} {a : α} {text : List α} (h : ¬needle <+: a :: text) :
    findAfter needle (a :: text) = findAfter needle text := if_neg h

/-- What is found stands in the text. -/
theorem eq_of_findAfter {needle text rest : List α} (h : findAfter needle text = some rest) :
    ∃ before, text = before ++ (needle ++ rest) := by
  induction text with
  | nil =>
    rw [findAfter] at h
    split_ifs at h with hnil
    obtain rfl := Option.some.inj h
    exact ⟨[], by rw [hnil]; rfl⟩
  | cons a text ih =>
    by_cases hpre : needle <+: a :: text
    · obtain ⟨tail, htail⟩ := hpre
      rw [← htail, findAfter_of_prefix] at h
      obtain rfl := Option.some.inj h
      exact ⟨[], htail.symm⟩
    · rw [findAfter_cons hpre] at h
      obtain ⟨before, rfl⟩ := ih h
      exact ⟨a :: before, rfl⟩

theorem findAfter_eq_none {needle text : List α} :
    findAfter needle text = none ↔ ¬needle <:+: text := by
  constructor
  · rintro h ⟨before, rest, rfl⟩
    induction before with
    | nil =>
      rw [List.nil_append, findAfter_of_prefix] at h
      cases h
    | cons a before ih =>
      rw [List.cons_append, List.cons_append, findAfter] at h
      split_ifs at h
      exact ih h
  · intro h
    cases hfind : findAfter needle text with
    | none => rfl
    | some rest =>
      obtain ⟨before, rfl⟩ := eq_of_findAfter hfind
      exact absurd ⟨before, rest, List.append_assoc ..⟩ h

theorem contains_iff {needle text : List α} : contains needle text = true ↔ needle <:+: text := by
  rw [contains, ← Option.ne_none_iff_isSome, Ne, findAfter_eq_none, not_not]

/-- **More text** behind a needle that is found. -/
theorem findAfter_append {needle text rest : List α} (h : findAfter needle text = some rest)
    (more : List α) : findAfter needle (text ++ more) = some (rest ++ more) := by
  induction text with
  | nil =>
    rw [findAfter] at h
    split_ifs at h with hnil
    obtain rfl := Option.some.inj h
    rw [hnil]
    exact findAfter_of_prefix [] more
  | cons a text ih =>
    by_cases hpre : needle <+: a :: text
    · obtain ⟨tail, htail⟩ := hpre
      rw [← htail, findAfter_of_prefix] at h
      obtain rfl := Option.some.inj h
      rw [← htail, List.append_assoc, findAfter_of_prefix]
    · rw [findAfter_cons hpre] at h
      by_cases hlong : needle <+: a :: (text ++ more)
      · -- a needle that comes earlier ends earlier
        obtain ⟨before, rfl⟩ := eq_of_findAfter h
        have hfits : needle.length ≤ (a :: (before ++ (needle ++ rest))).length := by
          simp only [List.length_cons, List.length_append]
          omega
        exact absurd (List.prefix_of_prefix_length_le hlong ⟨more, rfl⟩ hfits) hpre
      · rw [List.cons_append, findAfter_cons hlong, ih h]

/-- A needle that is found before a last symbol that is not its own. -/
theorem findAfter_of_concat {needle text rest : List α} {x : α} (hne : needle ≠ [])
    (hlast : ∀ a ∈ needle.getLast?, a ≠ x) (h : findAfter needle (text ++ [x]) = some rest) :
    ∃ rest', rest = rest' ++ [x] ∧ findAfter needle text = some rest' := by
  obtain ⟨before, hbefore⟩ := eq_of_findAfter h
  have hrest : rest ≠ [] := by
    rintro rfl
    have hx : (needle.getLast hne) = x := by
      have hends := congrArg List.getLast? hbefore
      rw [List.getLast?_concat, List.append_nil, List.getLast?_append_of_ne_nil _ hne,
        List.getLast?_eq_some_getLast hne] at hends
      exact (Option.some.inj hends).symm
    exact hlast _ (List.getLast?_eq_some_getLast hne) hx
  obtain ⟨rest', y, rfl⟩ := rest.eq_nil_or_concat'.resolve_left hrest
  rw [← List.append_assoc, ← List.append_assoc] at hbefore
  obtain ⟨rfl, hy⟩ := List.append_inj' hbefore rfl
  obtain rfl : x = y := by simpa using hy
  have hsome : findAfter needle (before ++ needle ++ rest') ≠ none := by
    rw [Ne, findAfter_eq_none, not_not]
    exact ⟨before, rest', rfl⟩
  obtain ⟨found, hfound⟩ := Option.ne_none_iff_exists'.mp hsome
  have hsame := Option.some.inj ((findAfter_append hfound [x]).symm.trans h)
  exact ⟨rest', rfl, by rw [hfound, List.append_cancel_right hsame]⟩

/-- **A needle that is put behind a text** in which it is not. -/
theorem findAfter_first {a : α} {tail text : List α} (ha : a ∉ tail)
    (hno : ¬(a :: tail) <:+: text) (rest : List α) :
    findAfter (a :: tail) (text ++ (a :: tail ++ rest)) = some rest := by
  induction text with
  | nil => exact findAfter_of_prefix _ _
  | cons b text ih =>
    have hnot : ¬a :: tail <+: b :: (text ++ (a :: tail ++ rest)) := by
      intro hpre
      obtain ⟨rfl, htail⟩ := List.cons_prefix_cons.mp hpre
      rcases List.prefix_or_prefix_of_prefix htail (List.prefix_append text _) with h | h
      · exact hno (List.prefix_cons_inj a |>.mpr h).isInfix
      · -- the needle would start again in its tail
        obtain ⟨more, rfl⟩ := h
        rw [List.prefix_append_right_inj] at htail
        cases more with
        | nil => exact hno ⟨[], [], by simp⟩
        | cons c more =>
          obtain ⟨rfl, -⟩ := List.cons_prefix_cons.mp htail
          exact ha (by simp)
    rw [List.cons_append, findAfter_cons hnot]
    exact ih fun h => hno (h.trans (List.suffix_cons b text).isInfix)

end Finding
