import Mathlib.Data.Int.LeastGreatest
import Mathlib.Order.Basic

/-!
# Clocks

A clock shows a time at each instant. It may be put forward, and then times are passed over, or
back, and then times are shown again; all that is asked of it is that it drifts from the instants
by a bounded amount.

* `First` — the first instant that shows a time; `Reached` — the first that shows it or a later
  one; `Past` — the first that shows a later one.
* `Reached.le` — a later time is reached later, whatever the clock does.
* `divides_iff` — marks divide the instants as the dates of a clock do exactly if each mark is
  where its date or a later one begins.
-/

namespace Clocks

variable {f : ℤ → ℤ} {w v s t : ℤ}

/-! ## Instants of a time -/

/-- The clock shows the time at some instant. -/
def Shown (f : ℤ → ℤ) (w : ℤ) : Prop := ∃ t, f t = w

/-- The first instant that shows the time. -/
def First (f : ℤ → ℤ) (w t : ℤ) : Prop := f t = w ∧ ∀ s < t, f s ≠ w

/-- The first instant that shows the time or a later one. -/
def Reached (f : ℤ → ℤ) (w t : ℤ) : Prop := w ≤ f t ∧ ∀ s < t, f s < w

/-- The first instant that shows a later time. -/
def Past (f : ℤ → ℤ) (w t : ℤ) : Prop := w < f t ∧ ∀ s < t, f s ≤ w

/-- A later time is shown before this one is. -/
def PassedOver (f : ℤ → ℤ) (w : ℤ) : Prop := ∃ s, w < f s ∧ ∀ r ≤ s, f r ≠ w

/-- The clock is never off by more than a bound. -/
def Bounded (f : ℤ → ℤ) (bound : ℤ) : Prop := ∀ t, t - bound ≤ f t ∧ f t ≤ t + bound

theorem First.unique (h : First f w s) (h' : First f w t) : s = t := by
  rcases lt_trichotomy s t with hlt | heq | hlt
  · exact absurd h.1 (h'.2 s hlt)
  · exact heq
  · exact absurd h'.1 (h.2 t hlt)

/-- A later time is reached later. -/
theorem Reached.le (h : Reached f w s) (h' : Reached f v t) (hle : w ≤ v) : s ≤ t := by
  by_contra hlt
  have hbefore := h.2 t (not_le.mp hlt)
  exact absurd h'.1 (not_le.mpr (hbefore.trans_le hle))

theorem Reached.unique (h : Reached f w s) (h' : Reached f w t) : s = t :=
  le_antisymm (h.le h' le_rfl) (h'.le h le_rfl)

theorem Past.reached (h : Past f w t) (hnever : ¬Shown f w) : Reached f w t :=
  ⟨h.1.le, fun s hs => lt_of_le_of_ne (h.2 s hs) fun heq => hnever ⟨s, heq⟩⟩

theorem Reached.past (h : Reached f w t) (hnever : ¬Shown f w) : Past f w t :=
  ⟨lt_of_le_of_ne h.1 fun heq => hnever ⟨t, heq.symm⟩, fun s hs => (h.2 s hs).le⟩

/-- A time that is not passed over is reached when it is first shown. -/
theorem First.reached (h : First f w t) (hnot : ¬PassedOver f w) : Reached f w t := by
  refine ⟨h.1.ge, fun s hs => ?_⟩
  by_contra hle
  have hlater : w < f s := lt_of_le_of_ne (not_lt.mp hle) (Ne.symm (h.2 s hs))
  exact hnot ⟨s, hlater, fun r hr => h.2 r (hr.trans_lt hs)⟩

section Bounded

variable {bound : ℤ} (hf : Bounded f bound)

include hf

theorem exists_first (h : Shown f w) : ∃ t, First f w t := by
  have hbelow : ∃ b : ℤ, ∀ z, f z = w → b ≤ z :=
    ⟨w - bound, fun z hz => by have := (hf z).2; omega⟩
  obtain ⟨t, ht, hleast⟩ := Int.exists_least_of_bdd hbelow h
  exact ⟨t, ht, fun s hs hshow => absurd (hleast s hshow) (not_le.mpr hs)⟩

theorem exists_reached (w : ℤ) : ∃ t, Reached f w t := by
  have hbelow : ∃ b : ℤ, ∀ z, w ≤ f z → b ≤ z :=
    ⟨w - bound, fun z hz => by have := (hf z).2; omega⟩
  have hsome : ∃ z, w ≤ f z := ⟨w + bound, by have := (hf (w + bound)).1; omega⟩
  obtain ⟨t, ht, hleast⟩ := Int.exists_least_of_bdd hbelow hsome
  exact ⟨t, ht, fun s hs => not_le.mp fun hle => absurd (hleast s hle) (not_le.mpr hs)⟩

theorem First.bounded (h : First f w t) : w - bound ≤ t ∧ t ≤ w + bound := by
  have hbound := hf t
  rw [h.1] at hbound
  omega

end Bounded

/-! ## Clocks that only repeat themselves -/

/-- What is shown after a later time was shown before it too: the clock is put back only over
times that it has shown. -/
def Repeating (f : ℤ → ℤ) : Prop := ∀ s t, s < t → f t < f s → ∃ r < s, f r = f t

/-- Such a clock passes over no time that it shows. -/
theorem Repeating.not_passedOver (hf : Repeating f) (h : Shown f w) : ¬PassedOver f w := by
  rintro ⟨s, hlater, hnot⟩
  obtain ⟨t, rfl⟩ := h
  have hst : s < t := lt_of_not_ge fun hle => hnot t hle rfl
  obtain ⟨r, hr, hshow⟩ := hf s t hst hlater
  exact hnot r hr.le hshow

/-! ## Dates -/

/-- The marks divide the instants by their dates. -/
def Divides (date mark : ℤ → ℤ) : Prop :=
  ∀ d t, mark d ≤ t ∧ t < mark (d + 1) ↔ date t = d

/-- There are marks before and after each instant. -/
def Cofinal (mark : ℤ → ℤ) : Prop :=
  ∀ t, ∃ low high, (∀ d ≤ low, mark d ≤ t) ∧ ∀ d, high ≤ d → t < mark d

/-- Marks divide the instants exactly if each is where its date or a later one begins. -/
theorem divides_iff {date mark : ℤ → ℤ} (hmark : Cofinal mark) :
    Divides date mark ↔ ∀ d t, mark d ≤ t ↔ d ≤ date t := by
  constructor
  · intro h d t
    obtain ⟨low, high, hlow, hhigh⟩ := hmark t
    constructor
    · -- the last mark that is not behind the instant, from `d` on
      intro hd
      obtain ⟨e, ⟨hde, he⟩, hlast⟩ := Int.exists_greatest_of_bdd
        (P := fun e => d ≤ e ∧ mark e ≤ t)
        ⟨high, fun e he => le_of_not_gt fun hlt => absurd he.2 (not_le.mpr (hhigh e hlt.le))⟩
        ⟨d, le_rfl, hd⟩
      have hnext : t < mark (e + 1) := by
        by_contra hle
        have := hlast (e + 1) ⟨by omega, not_lt.mp hle⟩
        omega
      rw [(h e t).mp ⟨he, hnext⟩]
      exact hde
    · -- the first mark behind the instant, up to `d`
      intro hdate
      by_contra hd
      obtain ⟨e, ⟨hed, he⟩, hfirst⟩ := Int.exists_least_of_bdd
        (P := fun e => e ≤ d ∧ t < mark e)
        ⟨low, fun e he => le_of_not_gt fun hlt => absurd he.2 (not_lt.mpr (hlow e hlt.le))⟩
        ⟨d, le_rfl, not_le.mp hd⟩
      have hprevious : mark (e - 1) ≤ t := by
        by_contra hlt
        have := hfirst (e - 1) ⟨by omega, not_le.mp hlt⟩
        omega
      have := (h (e - 1) t).mp ⟨hprevious, by rwa [sub_add_cancel]⟩
      omega
  · intro h d t
    have hd := h d t
    have hnext := h (d + 1) t
    omega

end Clocks
