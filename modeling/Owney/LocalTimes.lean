import Mathlib.Data.List.Pairwise
import Owney.Lib.Clocks
import Owney.ScheduleSlots

/-!
# Local times

`resolve_local`, `local_day_bounds` and `today_in`, over every timezone: a finite table of the
instants at which the offset of a clock changes. A time that the clock passes over is moved on by
quarters of an hour until there is one that exists, and taken for UTC after sixteen of them; so
where it ends up depends on how far it is from the end of the gap.

* `TimeZone` — the table, and the lookup in it.
* `TimeZone.Ends` — the times in a gap that end up where the gap ends.
* `localTimes_iff` — the timezones for which the rules hold for every time and every date.
-/

namespace Owney.Schedule

open Clocks

/-! ## Tables -/

/-- The offset at an instant: `o` at first, and from each instant of a change on the next. -/
def offsetAt (o : ℤ) : List (ℤ × ℤ) → ℤ → ℤ
  | [], _ => o
  | (change, next) :: rest, t => if t < change then o else offsetAt next rest t

/-- The instants that show a time, in order. -/
def instantsOf (o : ℤ) : List (ℤ × ℤ) → ℤ → List ℤ
  | [], w => [w - o]
  | (change, next) :: rest, w =>
    (if w - o < change then [w - o] else []) ++ (instantsOf next rest w).filter (change ≤ ·)

/-- A timezone: its first offset, and the changes of it. -/
structure TimeZone where
  first : ℤ
  changes : List (ℤ × ℤ)
  ascending : changes.Pairwise (·.1 < ·.1)

section Tables

variable {o w t : ℤ} {changes : List (ℤ × ℤ)}

theorem mem_instantsOf : t ∈ instantsOf o changes w ↔ t + offsetAt o changes t = w := by
  induction changes generalizing o with
  | nil =>
    rw [instantsOf, offsetAt, List.mem_singleton]
    omega
  | cons c rest ih =>
    obtain ⟨change, next⟩ := c
    rw [instantsOf, offsetAt, List.mem_append, List.mem_filter, ih, decide_eq_true_eq]
    split_ifs with hinstant hbefore hbefore
    · simp only [List.mem_singleton]
      omega
    · simp only [List.mem_singleton]
      omega
    · simp only [List.not_mem_nil, false_or]
      omega
    · simp only [List.not_mem_nil, false_or]
      omega

theorem instantsOf_sorted : (instantsOf o changes w).Pairwise (· < ·) := by
  induction changes generalizing o with
  | nil => exact List.pairwise_singleton _ _
  | cons c rest ih =>
    obtain ⟨change, next⟩ := c
    rw [instantsOf]
    have hrest := (ih (o := next)).filter (change ≤ ·)
    split_ifs with hinstant
    · refine List.pairwise_cons.mpr ⟨fun t ht => ?_, hrest⟩
      exact lt_of_lt_of_le hinstant (of_decide_eq_true (List.mem_filter.mp ht).2)
    · exact hrest

theorem offsetAt_bounded (o : ℤ) (changes : List (ℤ × ℤ)) :
    ∃ bound, ∀ t, -bound ≤ offsetAt o changes t ∧ offsetAt o changes t ≤ bound := by
  induction changes generalizing o with
  | nil => exact ⟨|o|, fun t => abs_le.mp le_rfl⟩
  | cons c rest ih =>
    obtain ⟨change, next⟩ := c
    obtain ⟨bound, hbound⟩ := ih next
    refine ⟨max |o| bound, fun t => ?_⟩
    have ho := abs_le.mp (le_max_left |o| bound)
    have hrest := le_max_right |o| bound
    have ht := hbound t
    rw [offsetAt]
    split_ifs <;> omega

/-- After all changes the offset stays. -/
theorem offsetAt_last (o : ℤ) (changes : List (ℤ × ℤ)) :
    ∃ last from', ∀ t, from' ≤ t → offsetAt o changes t = last := by
  induction changes generalizing o with
  | nil => exact ⟨o, 0, fun _ _ => rfl⟩
  | cons c rest ih =>
    obtain ⟨change, next⟩ := c
    obtain ⟨last, from', hlast⟩ := ih next
    refine ⟨last, max change from', fun t ht => ?_⟩
    rw [offsetAt, if_neg (not_lt.mpr ((le_max_left _ _).trans ht))]
    exact hlast t ((le_max_right _ _).trans ht)

end Tables

namespace TimeZone

variable (z : TimeZone)

/-- The wall clock at an instant. -/
def localOf (t : ℤ) : ℤ := t + offsetAt z.first z.changes t

/-- `from_local_datetime`. -/
def fromLocal (w : ℤ) : LocalResult :=
  match instantsOf z.first z.changes w with
  | [] => .none
  | [t] => .single t
  | t :: next :: rest => .ambiguous t (rest.getLastD next)

theorem earliest_fromLocal (w : ℤ) :
    (z.fromLocal w).earliest = (instantsOf z.first z.changes w).head? := by
  unfold fromLocal
  split
  · next h => rw [h]; rfl
  · next h => rw [h]; rfl
  · next h => rw [h]; rfl

theorem earliest_eq_some_iff {w t : ℤ} :
    (z.fromLocal w).earliest = some t ↔ First z.localOf w t := by
  have hsorted : (instantsOf z.first z.changes w).Pairwise (· < ·) := instantsOf_sorted
  have hmem : ∀ s, s ∈ instantsOf z.first z.changes w ↔ z.localOf s = w :=
    fun s => mem_instantsOf
  rw [earliest_fromLocal]
  cases hlist : instantsOf z.first z.changes w with
  | nil =>
    rw [hlist] at hmem
    constructor
    · intro h
      cases h
    · intro h
      cases (hmem t).mpr h.1
  | cons first rest =>
    rw [hlist] at hsorted hmem
    have hrest := (List.pairwise_cons.mp hsorted).1
    have hfirst : First z.localOf w first := by
      refine ⟨(hmem first).mp List.mem_cons_self, fun s hs hshow => ?_⟩
      rcases List.mem_cons.mp ((hmem s).mpr hshow) with rfl | hs'
      · exact absurd hs (lt_irrefl _)
      · exact absurd hs (not_lt.mpr (hrest s hs').le)
    rw [List.head?_cons, Option.some.injEq]
    exact ⟨fun h => h ▸ hfirst, fun h => hfirst.unique h⟩

theorem localOf_bounded : ∃ bound, Bounded z.localOf bound := by
  obtain ⟨bound, hbound⟩ := offsetAt_bounded z.first z.changes
  refine ⟨bound, fun t => ?_⟩
  have ht := hbound t
  unfold localOf
  omega

theorem earliest_eq_none_iff {w : ℤ} :
    (z.fromLocal w).earliest = none ↔ ¬Shown z.localOf w := by
  obtain ⟨bound, hbound⟩ := z.localOf_bounded
  rw [Option.eq_none_iff_forall_ne_some]
  constructor
  · intro h hshown
    obtain ⟨t, ht⟩ := exists_first hbound hshown
    exact h t (z.earliest_eq_some_iff.mpr ht)
  · intro h t ht
    exact h ⟨t, (z.earliest_eq_some_iff.mp ht).1⟩

/-- The timezone as `chrono_tz` gives it. -/
def zone : Zone where
  localOf := z.localOf
  fromLocal := z.fromLocal
  shows _ _ h := (z.earliest_eq_some_iff.mp h).1
  skipped w h t hshow := z.earliest_eq_none_iff.mp (by rw [h]; rfl) ⟨t, hshow⟩

/-! ## The rules -/

/-- No time of the date is shown twice. -/
def WithoutRepeats (date : ℤ) : Prop :=
  ∀ s t, z.zone.todayIn s = date → z.localOf s = z.localOf t → s = t

/-- **The rules.** A time that exists is taken at its first instant and one that does not where
its gap ends; on a date without repeated times later times are later; and the bounds of the dates
divide the instants. -/
structure LocalTimes : Prop where
  existing : ∀ w t, First z.localOf w t → z.zone.resolveLocal w = t
  gap : ∀ w t, ¬Shown z.localOf w → Past z.localOf w t → z.zone.resolveLocal w = t
  monotone : ∀ date, z.WithoutRepeats date → ∀ w v, 86400 * date ≤ w → w ≤ v →
    v < 86400 * (date + 1) → z.zone.resolveLocal w ≤ z.zone.resolveLocal v
  adjacent : ∀ date, (z.zone.localDayBounds date).2 = (z.zone.localDayBounds (date + 1)).1
  partition : ∀ date t, (z.zone.localDayBounds date).1 ≤ t ∧ t < (z.zone.localDayBounds date).2 ↔
    z.zone.todayIn t = date

/-- A quarter of an hour after the time, up to the sixteenth. -/
def Probed (w : ℤ) (k : ℕ) : Prop := k < 16 ∧ Shown z.localOf (w + 900 * (k + 1))

/-- A time that ends up where its gap ends: the clock goes on with a quarter after the time, and
shows none of the quarters before that one elsewhere; or no quarter is shown at all, and the end of
the gap is the time in UTC. -/
def Ends (w : ℤ) : Prop :=
  ∃ g, Past z.localOf w g ∧
    ((∃ k : ℕ, k < 16 ∧ z.localOf g = w + 900 * (k + 1) ∧ ∀ j < k, ¬z.Probed w j) ∨
      (∀ k, ¬z.Probed w k) ∧ g = w)

/-- **When the rules hold.** Each time that does not exist ends up where its gap does; no time of
a date without repeated times, and no midnight, is passed over before it is shown; and the date
never goes back. -/
structure Ordered : Prop where
  ends : ∀ w, ¬Shown z.localOf w → z.Ends w
  inOrder : ∀ date, z.WithoutRepeats date → ∀ w, 86400 * date ≤ w → w < 86400 * (date + 1) →
    Shown z.localOf w → ¬PassedOver z.localOf w
  midnights : ∀ date, Shown z.localOf (86400 * date) → ¬PassedOver z.localOf (86400 * date)
  ascending : ∀ s t, s ≤ t → z.zone.todayIn s ≤ z.zone.todayIn t

/-! ## What `resolve_local` does -/

theorem findSome_range_eq_some {α : Type} {n : ℕ} {f : ℕ → Option α} {a : α}
    (h : (List.range n).findSome? f = some a) : ∃ k < n, f k = some a ∧ ∀ j < k, f j = none := by
  induction n with
  | zero => cases h
  | succ n ih =>
    rw [List.range_succ, List.findSome?_append] at h
    cases hn : (List.range n).findSome? f with
    | some b =>
      rw [hn] at h
      obtain rfl := Option.some.inj h
      obtain ⟨k, hk, hfound, hbefore⟩ := ih hn
      exact ⟨k, hk.trans n.lt_succ_self, hfound, hbefore⟩
    | none =>
      rw [hn] at h
      rw [List.findSome?_eq_none_iff] at hn
      refine ⟨n, n.lt_succ_self, ?_, fun j hj => hn j (List.mem_range.mpr hj)⟩
      simpa using h

section Resolve

variable {z} {w t g : ℤ}

theorem resolveLocal_of_first (h : First z.localOf w t) : z.zone.resolveLocal w = t := by
  have hfound : (z.zone.fromLocal w).earliest = some t := z.earliest_eq_some_iff.mpr h
  rw [Zone.resolveLocal, hfound]

/-- A time that does not exist is moved on to the first quarter that does, or kept as it is. -/
theorem resolveLocal_of_not_shown (h : ¬Shown z.localOf w) :
    (∃ k : ℕ, k < 16 ∧ First z.localOf (w + 900 * (k + 1)) (z.zone.resolveLocal w) ∧
      ∀ j < k, ¬z.Probed w j) ∨
    (∀ k, ¬z.Probed w k) ∧ z.zone.resolveLocal w = w := by
  have hnone : (z.zone.fromLocal w).earliest = none := z.earliest_eq_none_iff.mpr h
  have hprobe : ∀ k : ℕ, (z.zone.fromLocal (w + 900 * (k + 1))).earliest = none →
      ¬z.Probed w k := fun k hk hprobed => z.earliest_eq_none_iff.mp hk hprobed.2
  rw [Zone.resolveLocal, hnone]
  simp only
  cases hfound : (List.range 16).findSome? fun n : ℕ =>
      (z.zone.fromLocal (w + 900 * (n + 1))).earliest with
  | some t =>
    obtain ⟨k, hk, hat, hbefore⟩ := findSome_range_eq_some hfound
    exact .inl ⟨k, hk, z.earliest_eq_some_iff.mp hat, fun j hj => hprobe j (hbefore j hj)⟩
  | none =>
    rw [List.findSome?_eq_none_iff] at hfound
    refine .inr ⟨fun k hprobed => ?_, rfl⟩
    exact hprobe k (hfound k (List.mem_range.mpr hprobed.1)) hprobed

/-- What is moved on to is always one and the same quarter. -/
theorem probe_unique {k k' : ℕ} (hk : z.Probed w k) (hbefore : ∀ j < k, ¬z.Probed w j)
    (hk' : z.Probed w k') (hbefore' : ∀ j < k', ¬z.Probed w j) : k = k' := by
  rcases lt_trichotomy k k' with hlt | heq | hlt
  · exact absurd hk (hbefore' k hlt)
  · exact heq
  · exact absurd hk' (hbefore k' hlt)

/-- **In a gap.** A time that does not exist ends up where its gap ends in the cases of `Ends`,
and in no other. -/
theorem resolveLocal_past_iff (h : ¬Shown z.localOf w) :
    (∀ g, Past z.localOf w g → z.zone.resolveLocal w = g) ↔ z.Ends w := by
  obtain ⟨bound, hbound⟩ := z.localOf_bounded
  obtain ⟨g, hreached⟩ := exists_reached hbound w
  have hpast := hreached.past h
  constructor
  · intro hresolve
    refine ⟨g, hpast, ?_⟩
    have hg := hresolve g hpast
    rcases resolveLocal_of_not_shown h with ⟨k, hk, hfirst, hbefore⟩ | ⟨hnone, hsame⟩
    · rw [hg] at hfirst
      exact .inl ⟨k, hk, hfirst.1, hbefore⟩
    · exact .inr ⟨hnone, hg.symm.trans hsame⟩
  · rintro ⟨g', hpast', hends⟩ g'' hpast''
    obtain rfl := (hpast'.reached h).unique (hpast''.reached h)
    rcases hends with ⟨k, hk, hshow, hbefore⟩ | ⟨hnone, hsame⟩
    · have hprobed : z.Probed w k := ⟨hk, g', hshow⟩
      rcases resolveLocal_of_not_shown h with ⟨k', hk', hfirst, hbefore'⟩ | ⟨hnone, -⟩
      · obtain rfl := probe_unique hprobed hbefore ⟨hk', _, hfirst.1⟩ hbefore'
        refine hfirst.unique ⟨hshow, fun s hs heq => ?_⟩
        have hbehind := hpast'.2 s hs
        omega
      · exact absurd hprobed (hnone k)
    · rcases resolveLocal_of_not_shown h with ⟨k, hk, hfirst, -⟩ | ⟨-, hkept⟩
      · exact absurd ⟨hk, _, hfirst.1⟩ (hnone k)
      · rw [hkept, hsame]

/-- Where a time ends up is never far from it. -/
theorem resolveLocal_bounded (z : TimeZone) : ∃ bound, ∀ w,
    w - bound ≤ z.zone.resolveLocal w ∧ z.zone.resolveLocal w ≤ w + bound := by
  obtain ⟨bound, hbound⟩ := z.localOf_bounded
  refine ⟨bound + 14400, fun w => ?_⟩
  have hzero := hbound 0
  by_cases h : Shown z.localOf w
  · obtain ⟨t, ht⟩ := exists_first hbound h
    rw [resolveLocal_of_first ht]
    have := ht.bounded hbound
    omega
  · rcases resolveLocal_of_not_shown h with ⟨k, hk, hfirst, -⟩ | ⟨-, hkept⟩
    · have := hfirst.bounded hbound
      omega
    · omega

end Resolve

/-! ## When the rules hold -/

section Ordered

variable {z} {w t date : ℤ}

theorem cofinal_midnights (z : TimeZone) :
    Cofinal fun date => z.zone.resolveLocal (86400 * date) := by
  obtain ⟨bound, hbound⟩ := resolveLocal_bounded z
  intro t
  refine ⟨(t - bound) / 86400, (t + bound) / 86400 + 1, fun d hd => ?_, fun d hd => ?_⟩
  · have := (hbound (86400 * d)).2
    dsimp only
    omega
  · have := (hbound (86400 * d)).1
    dsimp only
    omega

theorem partition_iff (z : TimeZone) :
    (∀ date t, (z.zone.localDayBounds date).1 ≤ t ∧ t < (z.zone.localDayBounds date).2 ↔
      z.zone.todayIn t = date) ↔
    ∀ date t, z.zone.resolveLocal (86400 * date) ≤ t ↔ date ≤ z.zone.todayIn t :=
  divides_iff z.cofinal_midnights

/-- The date is not behind a given one exactly if the clock is not behind its midnight. -/
theorem le_todayIn_iff : date ≤ z.zone.todayIn t ↔ 86400 * date ≤ z.localOf t := by
  have htoday : z.zone.todayIn t = z.localOf t / 86400 := rfl
  rw [htoday]
  omega

/-- A time that ends up right ends up where the clock reaches it. -/
theorem reached_of_ends (h : ¬Shown z.localOf w) (hends : z.Ends w) :
    Reached z.localOf w (z.zone.resolveLocal w) := by
  have hresolve := (resolveLocal_past_iff h).mpr hends
  obtain ⟨g, hpast, -⟩ := hends
  rw [hresolve g hpast]
  exact hpast.reached h

theorem reached_of_not_passedOver (h : Shown z.localOf w) (hnot : ¬PassedOver z.localOf w) :
    Reached z.localOf w (z.zone.resolveLocal w) := by
  obtain ⟨bound, hbound⟩ := z.localOf_bounded
  obtain ⟨t, ht⟩ := exists_first hbound h
  rw [resolveLocal_of_first ht]
  exact ht.reached hnot

theorem LocalTimes.of_ordered (h : z.Ordered) : z.LocalTimes where
  existing _ _ := resolveLocal_of_first
  gap w t hnever := (resolveLocal_past_iff hnever).mpr (h.ends w hnever) t
  monotone date hdate w v hw hle hv := by
    have hreached : ∀ u, 86400 * date ≤ u → u < 86400 * (date + 1) →
        Reached z.localOf u (z.zone.resolveLocal u) := fun u hlow hhigh => by
      by_cases hshown : Shown z.localOf u
      · exact reached_of_not_passedOver hshown (h.inOrder date hdate u hlow hhigh hshown)
      · exact reached_of_ends hshown (h.ends u hshown)
    exact (hreached w hw (hle.trans_lt hv)).le (hreached v (hw.trans hle) hv) hle
  adjacent _ := rfl
  partition := by
    rw [partition_iff]
    intro date t
    have hreached : Reached z.localOf (86400 * date) (z.zone.resolveLocal (86400 * date)) := by
      by_cases hshown : Shown z.localOf (86400 * date)
      · exact reached_of_not_passedOver hshown (h.midnights date hshown)
      · exact reached_of_ends hshown (h.ends _ hshown)
    constructor
    · intro hle
      exact (le_todayIn_iff.mpr hreached.1).trans (h.ascending _ _ hle)
    · intro hle
      by_contra hlt
      exact absurd (le_todayIn_iff.mp hle) (not_le.mpr (hreached.2 t (not_le.mp hlt)))

theorem Ordered.of_localTimes (h : z.LocalTimes) : z.Ordered := by
  have hpartition := (partition_iff z).mp h.partition
  obtain ⟨bound, hbound⟩ := z.localOf_bounded
  have hascending : ∀ s t, s ≤ t → z.zone.todayIn s ≤ z.zone.todayIn t := fun s t hle =>
    (hpartition _ t).mp (((hpartition _ s).mpr le_rfl).trans hle)
  refine ⟨fun w hnever => (resolveLocal_past_iff hnever).mp (h.gap w · hnever), ?_, ?_, hascending⟩
  · rintro date hdate w hlow hhigh hshown ⟨s, hlater, hnot⟩
    obtain ⟨t, ht⟩ := exists_first hbound hshown
    have hst : s < t := lt_of_not_ge fun hle => hnot t hle ht.1
    by_cases hday : z.localOf s < 86400 * (date + 1)
    · -- the later time is of the same date, and ends up before the earlier one
      obtain ⟨r, hr⟩ := exists_first hbound ⟨s, rfl⟩
      have hrs : r ≤ s := le_of_not_gt fun hlt => hr.2 s hlt rfl
      have hle := h.monotone date hdate w (z.localOf s) hlow hlater.le hday
      rw [resolveLocal_of_first ht, resolveLocal_of_first hr] at hle
      omega
    · -- the later time is of a later date, and the date goes back
      have hnext : date + 1 ≤ z.zone.todayIn s := le_todayIn_iff.mpr (not_lt.mp hday)
      have hle := le_todayIn_iff.mp (hnext.trans (hascending s t hst.le))
      rw [ht.1] at hle
      omega
  · rintro date hshown ⟨s, hlater, hnot⟩
    obtain ⟨t, ht⟩ := exists_first hbound hshown
    have hle := (hpartition date s).mpr (le_todayIn_iff.mpr hlater.le)
    rw [resolveLocal_of_first ht] at hle
    exact hnot t hle ht.1

/-- **Local times.** For every timezone, each time that does not exist ends up where its gap ends
exactly in the cases of `Ends`, and the rules hold of all times and dates exactly if the timezone
is ordered. -/
theorem localTimes_iff (z : TimeZone) :
    (∀ w, ¬Shown z.localOf w →
      ((∀ g, Past z.localOf w g → z.zone.resolveLocal w = g) ↔ z.Ends w)) ∧
    (z.LocalTimes ↔ z.Ordered) :=
  ⟨fun _ => resolveLocal_past_iff, .of_localTimes, .of_ordered⟩

/-- After the last change every time is shown. -/
theorem shown_from (z : TimeZone) : ∃ from', ∀ w, from' ≤ w → Shown z.localOf w := by
  obtain ⟨last, from', hlast⟩ := offsetAt_last z.first z.changes
  refine ⟨from' + last, fun w hw => ⟨w - last, ?_⟩⟩
  rw [localOf, hlast _ (by omega)]
  omega

/-- **A clock that is put back only over times that it has shown**: the rules hold exactly if it is
never put forward and never goes back to an earlier date. -/
theorem ordered_iff_of_repeating (hrepeats : Repeating z.localOf) :
    z.Ordered ↔ (∀ w, Shown z.localOf w) ∧
      ∀ s t, s ≤ t → z.zone.todayIn s ≤ z.zone.todayIn t := by
  constructor
  · intro h
    refine ⟨?_, h.ascending⟩
    by_contra hgap
    obtain ⟨w₀, hw₀⟩ := not_forall.mp hgap
    obtain ⟨from', hfrom⟩ := shown_from z
    -- the last time that is not shown
    obtain ⟨w, hw, hlast⟩ := Int.exists_greatest_of_bdd (P := fun w => ¬Shown z.localOf w)
      ⟨from', fun w hw => le_of_not_gt fun hlt => hw (hfrom w hlt.le)⟩ ⟨w₀, hw₀⟩
    have hshown : ∀ v, w < v → Shown z.localOf v := fun v hv => by
      by_contra hnever
      exact absurd (hlast v hnever) (not_le.mpr hv)
    obtain ⟨g, hpast, hends⟩ := h.ends w hw
    have hnext : z.localOf g = w + 1 := by
      by_contra hne
      have hlater : w + 1 < z.localOf g := by
        have := hpast.1
        omega
      refine hrepeats.not_passedOver (hshown (w + 1) (by omega)) ⟨g, hlater, fun r hr heq => ?_⟩
      rcases hr.lt_or_eq with hlt | rfl
      · have := hpast.2 r hlt
        omega
      · exact hne heq
    rcases hends with ⟨k, -, hshow, -⟩ | ⟨hnone, -⟩
    · omega
    · exact hnone 0 ⟨by decide, hshown _ (by omega)⟩
  · rintro ⟨hall, hascending⟩
    exact ⟨fun w hw => absurd (hall w) hw,
      fun _ _ _ _ _ hshown => hrepeats.not_passedOver hshown,
      fun _ hshown => hrepeats.not_passedOver hshown, hascending⟩

end Ordered

/-! ## Ten past two -/

/-- America/Denver around its change on 2026-03-08. -/
def denverTable : TimeZone where
  first := -25200
  changes := [(86400 * 20520 + 3600 * 9, -21600)]
  ascending := List.pairwise_singleton _ _

/-- Ten past two on the day of the change does not end up where the gap ends, at three. -/
theorem not_localTimes_denver : ¬∀ z : TimeZone, z.LocalTimes := by
  intro h
  have hlist : instantsOf denverTable.first denverTable.changes (86400 * 20520 + 7800) = [] := by
    decide +kernel
  have hnever : ¬Shown denverTable.localOf (86400 * 20520 + 7800) := by
    rintro ⟨t, ht⟩
    have hmem := mem_instantsOf.mpr ht
    rw [hlist] at hmem
    cases hmem
  have hpast : Past denverTable.localOf (86400 * 20520 + 7800) (86400 * 20520 + 3600 * 9) := by
    refine ⟨by decide, fun s hs => ?_⟩
    have hbefore : denverTable.localOf s = s + -25200 := congrArg (s + ·) (if_pos hs)
    omega
  exact absurd ((h denverTable).gap _ _ hnever hpast) (by decide +kernel)

end TimeZone

end Owney.Schedule
