import Mathlib

/-!
# Half-open intervals

What a reservation system needs to know about intervals `[a, b)` in a linear order.
A conflict check compares end points (`Overlaps`); what it buys is that
the sets are disjoint (`separate_of_not_overlaps`). A list of reservations stays pairwise disjoint when
the new one lies inside an interval that overlaps none of the old ones (`Apart.concat`).
-/

namespace Intervals

universe u v

variable {τ : Type u} [LinearOrder τ] {ρ : Type v}

/-- The conflict check: each interval starts before the other one ends. -/
def Overlaps (a b : τ × τ) : Prop := a.1 < b.2 ∧ b.1 < a.2

instance (a b : τ × τ) : Decidable (Overlaps a b) := inferInstanceAs (Decidable (_ ∧ _))

/-- Two intervals that share no point. -/
def Separate (a b : τ × τ) : Prop := Disjoint (Set.Ico a.1 a.2) (Set.Ico b.1 b.2)

theorem Separate.symm {a b : τ × τ} (h : Separate a b) : Separate b a := Disjoint.symm h

/-- An interval that is not empty is not separate from itself. -/
theorem not_separate_self {a : τ × τ} (h : a.1 < a.2) : ¬Separate a a := fun hs =>
  Set.disjoint_left.mp hs ⟨le_rfl, h⟩ ⟨le_rfl, h⟩

/-- Intervals that pass the check share no point. -/
theorem separate_of_not_overlaps {a b : τ × τ} (h : ¬Overlaps a b) : Separate a b := by
  unfold Separate
  rw [Set.disjoint_left]
  rintro x ⟨ha, ha'⟩ ⟨hb, hb'⟩
  exact h ⟨ha.trans_lt hb', hb.trans_lt ha'⟩

/-- Reservations no two of which share a point. `span r` is the interval of `r`. -/
def Apart (span : ρ → τ × τ) (rs : List ρ) : Prop :=
  rs.Pairwise fun r r' => Separate (span r) (span r')

theorem Apart.nil (span : ρ → τ × τ) : Apart span [] := List.Pairwise.nil

/-- The intervals may be read off an image of the reservations. -/
theorem apart_map {σ : Type v} {span : ρ → τ × τ} {f : σ → ρ} {rs : List σ} :
    Apart span (rs.map f) ↔ Apart (fun r => span (f r)) rs :=
  List.pairwise_map

/-- **One more reservation**, inside an interval that overlaps none of the old ones. -/
theorem Apart.concat {span : ρ → τ × τ} {rs : List ρ} {r : ρ} {b : τ × τ}
    (h : Apart span rs) (hfrom : b.1 ≤ (span r).1) (hto : (span r).2 ≤ b.2)
    (hfree : ∀ r' ∈ rs, ¬Overlaps b (span r')) : Apart span (rs ++ [r]) := by
  refine List.pairwise_append.mpr ⟨h, List.pairwise_singleton _ _, fun r' hr' s hs => ?_⟩
  rw [List.mem_singleton.mp hs]
  have hbusy : Separate b (span r') := separate_of_not_overlaps (hfree r' hr')
  exact Separate.symm (hbusy.mono_left (Set.Ico_subset_Ico hfrom hto))

/-- Of reservations that all overlap each other only one is in such a list. -/
theorem Apart.length_le_one {span : ρ → τ × τ} {rs : List ρ} (h : Apart span rs)
    (hover : ∀ r ∈ rs, ∀ r' ∈ rs, ¬Separate (span r) (span r')) : rs.length ≤ 1 := by
  match rs, h with
  | [], _ => exact Nat.zero_le 1
  | [_], _ => exact le_rfl
  | r :: r' :: rs, h =>
    have hmem' : r' ∈ r :: r' :: rs := List.mem_cons_of_mem _ List.mem_cons_self
    exact absurd (List.rel_of_pairwise_cons h List.mem_cons_self)
      (hover r List.mem_cons_self r' hmem')

end Intervals
