import Mathlib

/-!
# Properties of the characters of a text

That all characters of a text are of a kind, or that one of them is, is decided by going
through the text; the same for the one character there may be. The priority is for where the
properties of all characters there are can be decided too: these take a walk through all of
Unicode.
-/

namespace CharLists

section Decidable

variable {p : Char → Prop} [DecidablePred p]

instance (priority := high) decidableBAll (cs : List Char) : Decidable (∀ c ∈ cs, p c) :=
  cs.decidableBAll p

instance (priority := high) decidableBEx (cs : List Char) : Decidable (∃ c ∈ cs, p c) :=
  cs.decidableBEx p

instance (priority := high) decidableOptionBAll : (c? : Option Char) → Decidable (∀ c ∈ c?, p c)
  | none => .isTrue nofun
  | some c => decidable_of_iff (p c) (by simp)

instance (priority := high) decidableOptionBEx : (c? : Option Char) → Decidable (∃ c ∈ c?, p c)
  | none => .isFalse nofun
  | some c => decidable_of_iff (p c) (by simp)

end Decidable

/-- The pieces between separators have no separator in them. -/
theorem not_mem_of_mem_splitOnP {p : Char → Bool} {l piece : List Char}
    (h : piece ∈ l.splitOnP p) : ∀ c ∈ piece, p c = false := by
  induction l generalizing piece with
  | nil =>
    obtain rfl : piece = [] := by simpa using h
    simp
  | cons c l ih =>
    rw [List.splitOnP_cons_eq_if_modifyHead] at h
    by_cases hp : p c
    · rw [if_pos hp] at h
      rcases List.mem_cons.mp h with rfl | h
      · simp
      · exact ih h
    · rw [if_neg hp] at h
      rcases hsplit : l.splitOnP p with _ | ⟨first, rest⟩
      · exact absurd hsplit (List.splitOnP_ne_nil p l)
      · rw [hsplit, List.modifyHead_cons] at h
        rcases List.mem_cons.mp h with rfl | h
        · intro d hd
          rcases List.mem_cons.mp hd with rfl | hd
          · simpa using hp
          · exact ih (by rw [hsplit]; simp) d hd
        · exact ih (by rw [hsplit]; exact List.mem_cons_of_mem _ h)

end CharLists
