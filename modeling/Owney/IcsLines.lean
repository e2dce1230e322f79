import Owney.Invites
import Owney.Lib.Utf8Text

/-!
# The lines of an invite

The writer of invites folds its lines in octets (`owney-api/src/schedule/ics.rs`), the reader puts
them together again in characters (`owney-ai/src/ics.rs`).

* `octets_fold` — the physical lines of a folded line.
* `ics_line_layer` — they are short enough, and what was folded or escaped is read back.
-/

namespace Owney.Invites

open Folding

/-- The physical lines of some octets: what is between CR LF and CR LF. -/
def physicalLines : List UInt8 → List (List UInt8)
  | [] => [[]]
  | 13 :: 10 :: bs => [] :: physicalLines bs
  | b :: bs => (physicalLines bs).modifyHead (b :: ·)

theorem physicalLines_cons {b : UInt8} (hb : b ≠ 13) (bs : List UInt8) :
    physicalLines (b :: bs) = (physicalLines bs).modifyHead (b :: ·) := by
  rw [physicalLines]
  exact fun _ h _ => hb h

/-- Octets without a CR in them stand at the front of the first line. -/
theorem physicalLines_append {as : List UInt8} (h : 13 ∉ as) (bs : List UInt8) :
    physicalLines (as ++ bs) = (physicalLines bs).modifyHead (as ++ ·) := by
  induction as with
  | nil =>
    rw [List.nil_append]
    cases physicalLines bs <;> rfl
  | cons a as ih =>
    rw [List.mem_cons, not_or] at h
    rw [List.cons_append, physicalLines_cons (Ne.symm h.1), ih h.2, List.modifyHead_modifyHead]
    rfl

theorem length_encode (cs : List Char) : (Utf8.encode cs).length = (cs.map Char.utf8Size).sum := by
  rw [Utf8.encode, List.length_flatMap]
  exact congrArg List.sum (List.map_congr_left fun c _ => String.length_utf8EncodeChar c)

/-- The octets of a text without line breaks have no CR in them. -/
theorem cr_not_mem_encode {cs : List Char} (h : OneLine cs) : 13 ∉ Utf8.encode cs := by
  intro hmem
  obtain ⟨c, hc, hb⟩ := List.mem_flatMap.mp hmem
  have hcr : c = '\r' := Char.toNat_inj.mp (Utf8.toNat_of_mem_utf8EncodeChar hb (by decide))
  have hplain := h c hc
  rw [hcr] at hplain
  cases hplain

/-- **The physical lines** of a folded line are its pieces, all but the first behind a blank. -/
theorem octets_fold {s : List Char} (h : OneLine s) : ∃ (first : List Char)
    (more : List (List Char)), first ++ more.flatten = s ∧
      physicalLines (Utf8.encode (fold s)) =
        (first :: more.map (' ' :: ·)).map Utf8.encode ∧
      (Utf8.encode first).length ≤ 75 ∧ ∀ l ∈ more, (Utf8.encode (' ' :: l)).length ≤ 75 := by
  have hplain : ∀ l : List Char, OneLine l → physicalLines (Utf8.encode l) = [Utf8.encode l] := by
    intro l hl
    have happend := physicalLines_append (cr_not_mem_encode hl) []
    rwa [List.append_nil, physicalLines, List.modifyHead_cons, List.append_nil] at happend
  have hcut : ∀ (more : List (List Char)) (l : List Char), (∀ m ∈ l :: more, OneLine m) →
      physicalLines (Utf8.encode (l ++ more.flatMap ('\r' :: '\n' :: ' ' :: ·))) =
        (l :: more.map (' ' :: ·)).map Utf8.encode := by
    intro more
    induction more with
    | nil =>
      intro l hl
      rw [List.flatMap_nil, List.append_nil, hplain l (hl l List.mem_cons_self)]
      rfl
    | cons m more ih =>
      intro l hl
      rw [List.forall_mem_cons, List.forall_mem_cons] at hl
      obtain ⟨hl, hm, hmore⟩ := hl
      have hblank : OneLine (' ' :: m) := List.forall_mem_cons.mpr ⟨rfl, hm⟩
      have hnext := ih (' ' :: m) (List.forall_mem_cons.mpr ⟨hblank, hmore⟩)
      have hcrlf : ∀ text, physicalLines (Utf8.encode ('\r' :: '\n' :: text)) =
          [] :: physicalLines (Utf8.encode text) := fun _ => rfl
      rw [List.flatMap_cons, List.cons_append, List.cons_append, Utf8.encode_append,
        physicalLines_append (cr_not_mem_encode hl), hcrlf, hnext]
      simp
  rw [fold, foldLine]
  split_ifs with hshort
  · exact ⟨s, [], by simp, hplain s h, by rwa [length_encode], List.forall_mem_nil _⟩
  · obtain ⟨first, more, hfold, rfl, hfirst, hmore⟩ := @foldLoop_lines Char.utf8Size
      74 (fun c => c.utf8Size_le_four.trans (by decide)) 75 0 (Nat.zero_le 75) s
    rw [oneLine_append] at h
    have hparts : ∀ m ∈ first :: more, OneLine m := by
      refine List.forall_mem_cons.mpr ⟨h.1, fun m hm c hc => h.2 c ?_⟩
      exact List.mem_flatten.mpr ⟨m, hm, hc⟩
    refine ⟨first, more, rfl, by rw [hfold, hcut more first hparts], ?_, fun l hl => ?_⟩
    · rw [length_encode]
      omega
    · have hblank : ' '.utf8Size = 1 := rfl
      have := hmore l hl
      rw [length_encode, List.map_cons, List.sum_cons, hblank]
      omega

/-- **The line layer.** A line without line breaks that does not start with a blank is folded into
physical lines of at most 75 octets, each of them text, and it is read back; so are many of them.
An escaped text is read back without its carriage returns. -/
theorem ics_line_layer :
    (∀ s, Content s → (∀ line ∈ physicalLines (Utf8.encode (fold s)),
        line.length ≤ 75 ∧ ∃ text, line = Utf8.encode text) ∧
      unfolded (fold s ++ ['\r', '\n']) = [s]) ∧
    (∀ ss : List (List Char), (∀ s ∈ ss, Content s) →
      unfolded (ss.flatMap fun s => fold s ++ ['\r', '\n']) = ss) ∧
    ∀ v, unescape (escapeText v) = v.filter (· ≠ '\r') := by
  have hwidth : ∀ c : Char, c.utf8Size ≤ 75 := fun c => c.utf8Size_le_four.trans (by decide)
  have hlines : ∀ ss : List (List Char), (∀ s ∈ ss, Content s) →
      unfolded (ss.flatMap fun s => fold s ++ ['\r', '\n']) = ss := fun ss hss =>
    unfolded_lines hss hwidth
  refine ⟨fun s hs => ⟨fun line hline => ?_, ?_⟩, hlines, fun v => ?_⟩
  · obtain ⟨first, more, -, hphysical, hfirst, hmore⟩ := octets_fold hs.plain
    rw [hphysical, List.map_cons, List.mem_cons, List.map_map, List.mem_map] at hline
    rcases hline with rfl | ⟨l, hl, rfl⟩
    · exact ⟨hfirst, first, rfl⟩
    · exact ⟨hmore l hl, ' ' :: l, rfl⟩
  · have hone := hlines [s] (by simpa using hs)
    rwa [List.flatMap_singleton] at hone
  · rw [← escapeText_filter, unescape_escapeText (by simp)]

end Owney.Invites
