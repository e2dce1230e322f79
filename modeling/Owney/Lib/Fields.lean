import Mathlib.Data.List.Basic

/-!
# Fields between separators

A text of fields joined by a separator is read back where the separator cannot occur in a
field. `cut_left` reads the first field off, `cut_right` the last one, whatever the rest is;
`intercalate_injective` reads them all.
-/

namespace Fields

universe u

variable {α : Type u} {sep : α} {l l' r r' : List α}

/-- **The first field.** It ends at the first separator. -/
theorem cut_left (hl : sep ∉ l) (hl' : sep ∉ l') (h : l ++ sep :: r = l' ++ sep :: r') :
    l = l' ∧ r = r' := by
  induction l generalizing l' with
  | nil =>
    cases l' with
    | nil => exact ⟨rfl, (List.cons.inj h).2⟩
    | cons a l' => exact absurd (List.cons.inj h).1 (List.ne_of_not_mem_cons hl')
  | cons a l ih =>
    cases l' with
    | nil => exact absurd (List.cons.inj h).1.symm (List.ne_of_not_mem_cons hl)
    | cons b l' =>
      obtain ⟨rfl, htail⟩ := List.cons.inj h
      obtain ⟨rfl, hr⟩ :=
        ih (List.not_mem_of_not_mem_cons hl) (List.not_mem_of_not_mem_cons hl') htail
      exact ⟨rfl, hr⟩

/-- **The last field.** It starts after the last separator. -/
theorem cut_right (hr : sep ∉ r) (hr' : sep ∉ r') (h : l ++ sep :: r = l' ++ sep :: r') :
    l = l' ∧ r = r' := by
  have hreverse := congrArg List.reverse h
  simp only [List.reverse_append, List.reverse_cons, List.append_assoc, List.singleton_append]
    at hreverse
  obtain ⟨hright, hleft⟩ := cut_left (by simpa using hr) (by simpa using hr') hreverse
  exact ⟨List.reverse_injective hleft, List.reverse_injective hright⟩

/-- Texts without the separator are not texts with it. -/
theorem not_cut (hl : sep ∉ l) : l ≠ l' ++ sep :: r := by
  rintro rfl
  simp at hl

/-- **All fields.** -/
theorem intercalate_injective [DecidableEq α] {ls ls' : List (List α)} (hls : ∀ l ∈ ls, sep ∉ l)
    (hls' : ∀ l ∈ ls', sep ∉ l) (hne : ls ≠ []) (hne' : ls' ≠ [])
    (h : [sep].intercalate ls = [sep].intercalate ls') : ls = ls' := by
  rw [← List.splitOn_intercalate sep hls hne, h, List.splitOn_intercalate sep hls' hne']

/-- Fields that are written differently one by one. -/
theorem map_injOn {β : Type u} {f : β → List α} {ps ps' : List β}
    (hf : ∀ p ∈ ps, ∀ q ∈ ps', f p = f q → p = q) (h : ps.map f = ps'.map f) : ps = ps' := by
  induction ps generalizing ps' with
  | nil => exact (List.map_eq_nil_iff.mp h.symm).symm
  | cons p ps ih =>
    cases ps' with
    | nil => cases h
    | cons q ps' =>
      obtain ⟨hhead, htail⟩ := List.cons.inj h
      rw [hf p (by simp) q (by simp) hhead,
        ih (fun p hp q hq => hf p (by simp [hp]) q (by simp [hq])) htail]

end Fields
