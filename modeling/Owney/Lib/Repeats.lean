import Mathlib

/-!
# Leaving out repeats

A walk over a sorted list that leaves out an element whose value is the value of the element
before it (`kept`).

* `kept_pairwise` — between two elements that are kept the value changes.
* `pair_sublist_kept` — where the value changes, both values are kept, in their order.
* `eq_or_add_le` — a sequence that repeats its value or goes up by a step at least.
-/

namespace Repeats

variable {α β : Type*}

/-! ## Pairs of a list -/

/-- Two different elements of a list stand in one of the two orders. -/
theorem pair_sublist_or {as : List α} {a b : α} (ha : a ∈ as) (hb : b ∈ as) (hne : a ≠ b) :
    [a, b].Sublist as ∨ [b, a].Sublist as := by
  induction as with
  | nil => cases ha
  | cons c as ih =>
    rcases List.mem_cons.mp ha with rfl | ha'
    · have hb' := (List.mem_cons.mp hb).resolve_left hne.symm
      exact .inl ((List.singleton_sublist.mpr hb').cons_cons a)
    · rcases List.mem_cons.mp hb with rfl | hb'
      · exact .inr ((List.singleton_sublist.mpr ha').cons_cons b)
      · exact (ih ha' hb').imp (·.cons c) (·.cons c)

/-- In a list that is sorted by a relation, they stand in the order that does not go against it. -/
theorem pair_sublist {r : α → α → Prop} {as : List α} (hsorted : as.Pairwise r) {a b : α}
    (ha : a ∈ as) (hb : b ∈ as) (hne : a ≠ b) (hno : ¬r b a) : [a, b].Sublist as := by
  refine (pair_sublist_or ha hb hne).resolve_right fun h => hno ?_
  exact List.pairwise_iff_forall_sublist.mp hsorted h

/-- Elements of two lists, when the lists come one after the other. -/
theorem pair_sublist_flatMap {as : List α} {f : α → List β} {a b : α} {x y : β}
    (h : [a, b].Sublist as) (hx : x ∈ f a) (hy : y ∈ f b) : [x, y].Sublist (as.flatMap f) := by
  refine List.Sublist.trans ?_ (h.flatMap f)
  simp only [List.flatMap_cons, List.flatMap_nil, List.append_nil]
  exact (List.singleton_sublist.mpr hx).append (List.singleton_sublist.mpr hy)

theorem sublist_flatMap {as : List α} {f : α → List β} {a : α} (h : a ∈ as) :
    (f a).Sublist (as.flatMap f) := by
  have hone := (List.singleton_sublist.mpr h).flatMap f
  simpa using hone

/-! ## Steps -/

/-- From one place of a sequence to a later one, when each step repeats the value or adds at
least `c`: nothing has changed, or at least `c` was added. -/
theorem eq_or_add_le {f : ℕ → ℤ} {c : ℤ} (hc : 0 ≤ c) {i j : ℕ} (hij : i ≤ j)
    (hstep : ∀ k, i ≤ k → k < j → f (k + 1) = f k ∨ f k + c ≤ f (k + 1)) :
    (∀ k, i ≤ k → k ≤ j → f k = f i) ∨ f i + c ≤ f j := by
  induction j, hij using Nat.le_induction with
  | base => exact .inl fun k hik hki => by rw [le_antisymm hki hik]
  | succ j hij ih =>
    have hlast := hstep j hij (Nat.lt_succ_self j)
    rcases ih fun k hik hkj => hstep k hik (by omega) with hsame | hadd
    · rcases hlast with hlast | hlast
      · refine .inl fun k hik hkj => ?_
        rcases Nat.le_succ_iff.mp hkj with hkj | rfl
        · exact hsame k hik hkj
        · rw [hlast, hsame j hij le_rfl]
      · rw [hsame j hij le_rfl] at hlast
        exact .inr hlast
    · exact .inr (by omega)

/-! ## The walk -/

section Walk

variable [DecidableEq β] (f : α → β)

/-- The elements whose value is not the last one; `last` is the last value. -/
def kept : Option β → List α → List α
  | _, [] => []
  | last, a :: as => if last = some (f a) then kept last as else a :: kept (some (f a)) as

variable {f}

theorem kept_sublist (last : Option β) (as : List α) : (kept f last as).Sublist as := by
  induction as generalizing last with
  | nil => exact List.Sublist.refl _
  | cons a as ih =>
    rw [kept]
    split_ifs
    · exact (ih last).cons a
    · exact (ih (some (f a))).cons_cons a

/-- Every value is kept, or is the one before all. -/
theorem value_mem {last : Option β} {as : List α} {a : α} (ha : a ∈ as) :
    f a ∈ last.toList ++ (kept f last as).map f := by
  induction as generalizing last with
  | nil => cases ha
  | cons b as ih =>
    rw [kept]
    split_ifs with hlast
    · rcases List.mem_cons.mp ha with rfl | ha
      · simp [hlast]
      · exact ih ha
    · rcases List.mem_cons.mp ha with rfl | ha
      · simp
      · have hmem := @ih (some (f b)) ha
        simp only [Option.toList_some, List.singleton_append, List.map_cons] at hmem ⊢
        exact List.mem_append_right _ hmem

section Sorted

variable [LinearOrder α] {as : List α} {last : Option β} {x y z : α}

/-- A value that is kept after another one. -/
theorem value_mem_of_ne (hsorted : as.Pairwise (· < ·)) {t : β} (hy : y ∈ as) (hz : z ∈ as)
    (hle : z ≤ y) (hne : f z ≠ t) : f y ∈ (kept f (some t) as).map f := by
  induction as with
  | nil => cases hy
  | cons b as ih =>
    obtain ⟨hb, hsorted⟩ := List.pairwise_cons.mp hsorted
    rw [kept]
    split_ifs with hlast
    · have hbz : z ≠ b := by
        rintro rfl
        exact hne (Option.some.inj hlast).symm
      have hz' := (List.mem_cons.mp hz).resolve_left hbz
      have hyb : y ≠ b := by
        rintro rfl
        exact absurd (hb z hz') (not_lt.mpr hle)
      exact ih hsorted ((List.mem_cons.mp hy).resolve_left hyb) hz'
    · rcases List.mem_cons.mp hy with rfl | hy
      · simp
      · have hmem : f y ∈ (some (f b)).toList ++ (kept f (some (f b)) as).map f := value_mem hy
        simpa using hmem

/-- **Where the value changes** from one element to a later one, both values are kept. -/
theorem pair_sublist_kept (hsorted : as.Pairwise (· < ·)) (hx : x ∈ as) (hy : y ∈ as) (hz : z ∈ as)
    (hlt : x < y) (hxz : x ≤ z) (hzy : z ≤ y) (hne : f z ≠ f x) :
    [f x, f y].Sublist (last.toList ++ (kept f last as).map f) := by
  induction as generalizing last with
  | nil => cases hx
  | cons b as ih =>
    obtain ⟨hb, hsorted'⟩ := List.pairwise_cons.mp hsorted
    have hyb : y ∈ as := by
      refine (List.mem_cons.mp hy).resolve_left ?_
      rintro rfl
      rcases List.mem_cons.mp hx with rfl | hx
      · exact lt_irrefl _ hlt
      · exact absurd (hb x hx) hlt.asymm
    by_cases hxb : x = b
    · subst hxb
      have hz' : z ∈ as := by
        refine (List.mem_cons.mp hz).resolve_left ?_
        rintro rfl
        exact hne rfl
      have hpair : [f x, f y].Sublist (f x :: (kept f (some (f x)) as).map f) :=
        (List.singleton_sublist.mpr (value_mem_of_ne hsorted' hyb hz' hzy hne)).cons_cons _
      rw [kept]
      split_ifs with hlast
      · rw [hlast]
        exact hpair
      · exact hpair.trans (List.sublist_append_right _ _)
    · have hx' := (List.mem_cons.mp hx).resolve_left hxb
      have hz' : z ∈ as := by
        refine (List.mem_cons.mp hz).resolve_left ?_
        rintro rfl
        exact absurd (hb x hx') (not_lt.mpr hxz)
      rw [kept]
      split_ifs with hlast
      · exact ih hsorted' hx' hyb hz'
      · exact (@ih (some (f b)) hsorted' hx' hyb hz').trans (List.sublist_append_right _ _)

theorem of_mem_kept (hsorted : as.Pairwise (· < ·)) {t : β} (hy : y ∈ kept f (some t) as) :
    f y ≠ t ∨ ∃ z ∈ as, z < y ∧ f z ≠ f y := by
  induction as generalizing t with
  | nil => cases hy
  | cons b as ih =>
    obtain ⟨hb, hsorted⟩ := List.pairwise_cons.mp hsorted
    rw [kept] at hy
    split_ifs at hy with hlast
    · exact (ih hsorted hy).imp_right fun ⟨z, hz, hlt, hne⟩ =>
        ⟨z, List.mem_cons_of_mem _ hz, hlt, hne⟩
    · rcases List.mem_cons.mp hy with rfl | hy
      · exact .inl fun h => hlast (congrArg some h.symm)
      · rcases ih hsorted hy with hne | ⟨z, hz, hlt, hne⟩
        · exact .inr ⟨b, List.mem_cons_self, hb y ((kept_sublist _ _).subset hy), hne.symm⟩
        · exact .inr ⟨z, List.mem_cons_of_mem _ hz, hlt, hne⟩

/-- **Between two elements that are kept** the value changes. -/
theorem kept_pairwise (hsorted : as.Pairwise (· < ·)) :
    (kept f last as).Pairwise fun x y => x < y ∧ ∃ z ∈ as, x ≤ z ∧ z < y ∧ f z ≠ f y := by
  induction as generalizing last with
  | nil => exact List.Pairwise.nil
  | cons b as ih =>
    obtain ⟨hb, hsorted'⟩ := List.pairwise_cons.mp hsorted
    have hrest : ∀ last', (kept f last' as).Pairwise fun x y =>
        x < y ∧ ∃ z ∈ b :: as, x ≤ z ∧ z < y ∧ f z ≠ f y := by
      intro last'
      refine (@ih last' hsorted').imp ?_
      rintro x y ⟨hlt, z, hz, hzs⟩
      exact ⟨hlt, z, List.mem_cons_of_mem _ hz, hzs⟩
    rw [kept]
    split_ifs
    · exact hrest last
    · refine List.pairwise_cons.mpr ⟨fun y hy => ?_, hrest _⟩
      have hlt := hb y ((kept_sublist _ _).subset hy)
      refine ⟨hlt, ?_⟩
      rcases of_mem_kept hsorted' hy with hne | ⟨z, hz, hzy, hne⟩
      · exact ⟨b, List.mem_cons_self, le_rfl, hlt, hne.symm⟩
      · exact ⟨z, List.mem_cons_of_mem _ hz, (hb z hz).le, hzy, hne⟩

end Sorted

end Walk

end Repeats
