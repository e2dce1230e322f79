import Mathlib.Data.List.ModifyLast
import Owney.Lib.CharLists

/-!
# Folded lines

A content line that is too long is cut: what is over goes to lines that start with a blank
(`foldLine`). To read the text, its lines are put together again (`unfolded`).

* `foldLoop_lines` — the lines that a line is cut into, and how wide they are.
* `unfolded_lines` — the lines that were folded are read back.
* `of_mem_unfolded` — no line that is read has a line break in it, whatever the text is.
-/

namespace Folding

open List

/-- A character that ends a line. -/
def isBreak (c : Char) : Bool := c = '\r' || c = '\n'

/-- A character that makes a line go on. -/
def isBlank (c : Char) : Bool := c = ' ' || c = '\t'

/-! ## Folding -/

/-- The characters of a line; `used` is how wide what stands on the line is. -/
def foldLoop (width : Char → ℕ) (next : ℕ) : ℕ → ℕ → List Char → List Char
  | _, _, [] => []
  | budget, used, c :: cs =>
    if budget < used + width c then
      '\r' :: '\n' :: ' ' :: c :: foldLoop width next next (width c) cs
    else c :: foldLoop width next budget (used + width c) cs

/-- A line, cut where it is wider than `limit`, and then wherever what is left is wider than
`next`. -/
def foldLine (width : Char → ℕ) (limit next : ℕ) (line : List Char) : List Char :=
  if (line.map width).sum ≤ limit then line else foldLoop width next limit 0 line

/-- What is folded is cut into lines that start with a blank, but for the first; each is as wide as
the budget allows. -/
theorem foldLoop_lines {width : Char → ℕ} {next : ℕ} (hwidth : ∀ c, width c ≤ next)
    {budget used : ℕ} (hused : used ≤ budget) (cs : List Char) :
    ∃ (first : List Char) (more : List (List Char)),
      foldLoop width next budget used cs = first ++ more.flatMap ('\r' :: '\n' :: ' ' :: ·) ∧
        first ++ more.flatten = cs ∧ used + (first.map width).sum ≤ budget ∧
          ∀ l ∈ more, (l.map width).sum ≤ next := by
  induction cs generalizing budget used with
  | nil => exact ⟨[], [], rfl, rfl, by simpa using hused, nofun⟩
  | cons c cs ih =>
    rw [foldLoop]
    split_ifs with hover
    · obtain ⟨first, more, hfold, hsum, hfirst, hmore⟩ := ih (hwidth c)
      refine ⟨[], (c :: first) :: more, ?_, by simpa using hsum, by simpa using hused, ?_⟩
      · rw [hfold]
        rfl
      · rw [forall_mem_cons]
        exact ⟨by simpa using hfirst, hmore⟩
    · obtain ⟨first, more, hfold, hsum, hfirst, hmore⟩ := ih (Nat.le_of_not_lt hover)
      refine ⟨c :: first, more, by rw [hfold, cons_append], by rw [cons_append, hsum], ?_, hmore⟩
      rw [map_cons, sum_cons]
      omega

/-! ## Unfolding -/

/-- What is between the line breaks, as far as there is something. -/
def pieces (t : List Char) : List (List Char) := (t.splitOnP isBreak).filter (· ≠ [])

/-- The next piece: it goes on with the last line, or it starts a new one. -/
def addPiece (lines : List (List Char)) : List Char → List (List Char)
  | [] => lines ++ [[]]
  | c :: piece =>
    if isBlank c ∧ lines ≠ [] then lines.modifyLast (· ++ piece) else lines ++ [c :: piece]

/-- The lines of a text. -/
def unfolded (t : List Char) : List (List Char) := (pieces t).foldl addPiece []

/-- A line without breaks in it, that does not look like more of the line before. -/
structure Content (line : List Char) : Prop where
  plain : ∀ c ∈ line, isBreak c = false
  starts : ∃ c ∈ line.head?, isBlank c = false

theorem Content.ne_nil {line : List Char} (h : Content line) : line ≠ [] := by
  rintro rfl
  simpa using h.starts

/-! ## Lines that are read -/

theorem of_mem_pieces {t piece : List Char} (h : piece ∈ pieces t) :
    ∀ c ∈ piece, isBreak c = false :=
  CharLists.not_mem_of_mem_splitOnP (mem_of_mem_filter h)

theorem plain_addPiece {lines : List (List Char)} {piece : List Char}
    (hlines : ∀ l ∈ lines, ∀ c ∈ l, isBreak c = false) (hpiece : ∀ c ∈ piece, isBreak c = false) :
    ∀ l ∈ addPiece lines piece, ∀ c ∈ l, isBreak c = false := by
  cases piece with
  | nil => simpa [addPiece, or_imp, forall_and] using hlines
  | cons b piece =>
    rw [addPiece]
    split_ifs with hmore
    · obtain ⟨ls, l, rfl⟩ := lines.eq_nil_or_concat'.resolve_left hmore.2
      simp only [forall_mem_append, forall_mem_singleton, forall_mem_cons,
        modifyLast_concat] at hlines hpiece ⊢
      exact ⟨hlines.1, hlines.2, hpiece.2⟩
    · simp only [forall_mem_append, forall_mem_singleton]
      exact ⟨hlines, hpiece⟩

/-- **No line that is read** has a break in it. -/
theorem of_mem_unfolded {t line : List Char} (h : line ∈ unfolded t) :
    ∀ c ∈ line, isBreak c = false := by
  have hfold : ∀ (ps lines : List (List Char)), (∀ p ∈ ps, ∀ c ∈ p, isBreak c = false) →
      (∀ l ∈ lines, ∀ c ∈ l, isBreak c = false) →
        ∀ l ∈ ps.foldl addPiece lines, ∀ c ∈ l, isBreak c = false := by
    intro ps
    induction ps with
    | nil => exact fun lines _ hlines => hlines
    | cons p ps ih =>
      intro lines hps hlines
      rw [forall_mem_cons] at hps
      exact ih _ hps.2 (plain_addPiece hlines hps.1)
  exact hfold _ _ (fun p hp => of_mem_pieces hp) (by simp) line h

/-! ## Folded lines are read back -/

section Lines

variable {width : Char → ℕ} {limit next : ℕ}

/-- The first line of a text. -/
theorem pieces_line {l : List Char} (hplain : ∀ c ∈ l, isBreak c = false) (hne : l ≠ [])
    (rest : List Char) : pieces (l ++ '\r' :: '\n' :: rest) = l :: pieces rest := by
  have hrest : ('\n' :: rest).splitOnP isBreak = [] :: rest.splitOnP isBreak :=
    @splitOnP_append_cons_of_forall_mem _ isBreak [] (by simp) '\n' rfl rest
  rw [pieces, splitOnP_append_cons_of_forall_mem hplain '\r' rfl, hrest]
  simp [pieces, hne]

/-- A line of which `cur` is there, and `cs` is still to come: what is over goes to pieces that
start with a blank. -/
theorem pieces_foldLoop {cs : List Char} (hcs : ∀ c ∈ cs, isBreak c = false) {cur : List Char}
    (hcur : ∀ c ∈ cur, isBreak c = false) (hne : cur ≠ []) (budget used : ℕ) (rest : List Char) :
    ∃ (first : List Char) (more : List (List Char)), first ++ more.flatten = cs ∧
      pieces (cur ++ (foldLoop width next budget used cs ++ '\r' :: '\n' :: rest)) =
        (cur ++ first) :: (more.map (' ' :: ·) ++ pieces rest) := by
  induction cs generalizing cur budget used with
  | nil => exact ⟨[], [], rfl, by simpa [foldLoop] using pieces_line hcur hne rest⟩
  | cons c cs ih =>
    rw [forall_mem_cons] at hcs
    rw [foldLoop]
    split_ifs with hover
    · have hblank : ∀ b ∈ [' ', c], isBreak b = false := by
        simpa using ⟨rfl, hcs.1⟩
      obtain ⟨first, more, hsum, hpieces⟩ := ih hcs.2 hblank (by simp) next (width c)
      refine ⟨[], (c :: first) :: more, by simpa using hsum, ?_⟩
      have hcut := pieces_line hcur hne
        (' ' :: c :: (foldLoop width next next (width c) cs ++ '\r' :: '\n' :: rest))
      simp only [cons_append, nil_append, append_nil, map_cons] at hpieces hcut ⊢
      rw [hcut, hpieces]
    · have hlonger : ∀ b ∈ cur ++ [c], isBreak b = false := by
        simpa [or_imp, forall_and] using ⟨hcur, hcs.1⟩
      obtain ⟨first, more, hsum, hpieces⟩ := ih hcs.2 hlonger (by simp) budget (used + width c)
      refine ⟨c :: first, more, by simpa using hsum, ?_⟩
      simpa using hpieces

/-- The pieces of a line that start with a blank. -/
theorem foldl_addPiece (lines : List (List Char)) (l : List Char) (more : List (List Char)) :
    (more.map (' ' :: ·)).foldl addPiece (lines ++ [l]) = lines ++ [l ++ more.flatten] := by
  induction more generalizing l with
  | nil => simp
  | cons piece more ih =>
    have hadd : addPiece (lines ++ [l]) (' ' :: piece) = lines ++ [l ++ piece] := by
      rw [addPiece, if_pos ⟨rfl, by simp⟩, modifyLast_concat]
    rw [map_cons, foldl_cons, hadd, ih, flatten_cons, append_assoc]

theorem addPiece_starts {l : List Char} (h : ∃ c ∈ l.head?, isBlank c = false)
    (lines : List (List Char)) : addPiece lines l = lines ++ [l] := by
  obtain ⟨c, hc, hblank⟩ := h
  cases l with
  | nil => cases hc
  | cons b l =>
    obtain rfl : b = c := Option.some.inj hc
    rw [addPiece, if_neg (by simp [hblank])]

/-- A folded line, and what comes after it. -/
theorem foldl_foldLine {l : List Char} (h : Content l) (hwidth : ∀ c, width c ≤ limit)
    (lines : List (List Char)) (rest : List Char) :
    (pieces (foldLine width limit next l ++ '\r' :: '\n' :: rest)).foldl addPiece lines =
      (pieces rest).foldl addPiece (lines ++ [l]) := by
  rw [foldLine]
  split_ifs
  · rw [pieces_line h.plain h.ne_nil, foldl_cons, addPiece_starts h.starts]
  · cases l with
    | nil => exact absurd rfl h.ne_nil
    | cons c cs =>
      have hplain := h.plain
      rw [forall_mem_cons] at hplain
      have hone : ∀ b ∈ [c], isBreak b = false := by simpa using hplain.1
      obtain ⟨first, more, rfl, hpieces⟩ :=
        pieces_foldLoop hplain.2 hone (by simp) limit (0 + width c) rest
      rw [foldLoop, if_neg (by simpa using hwidth c)]
      simp only [cons_append, nil_append] at hpieces ⊢
      have hstart : ∃ b ∈ (c :: first).head?, isBlank b = false := h.starts
      rw [hpieces, foldl_cons, foldl_append, addPiece_starts hstart, foldl_addPiece, cons_append]

/-- **Folded lines are read back.** -/
theorem unfolded_lines {contents : List (List Char)} (h : ∀ l ∈ contents, Content l)
    (hwidth : ∀ c, width c ≤ limit) :
    unfolded (contents.flatMap fun l => foldLine width limit next l ++ ['\r', '\n']) =
      contents := by
  have hfold : ∀ lines, (pieces (contents.flatMap fun l =>
      foldLine width limit next l ++ ['\r', '\n'])).foldl addPiece lines = lines ++ contents := by
    induction contents with
    | nil => simp [pieces]
    | cons l contents ih =>
      intro lines
      rw [forall_mem_cons] at h
      rw [flatMap_cons, append_assoc, cons_append, cons_append, nil_append,
        foldl_foldLine h.1 hwidth, ih h.2, append_assoc, singleton_append]
  simpa [unfolded] using hfold []

end Lines

end Folding
