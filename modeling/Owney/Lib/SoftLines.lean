import Owney.Lib.HeaderLines

/-!
# Lines that end in a bare line feed

Some writers end the lines of a message in LF instead of CRLF. `softLines` reads both, and
`headLines` is the header of a message in this reading. What `keepFields` copies from the text
before the first CRLFCRLF is then compared with the fields of that header.

* `keepFields_softLines` — the copy has the lines it should have exactly if the CRLF lines are
  `CrispLines`: those with a bare line feed in them have no part in a copied field.
* `copy_of_crisp` — the copy from a `Crisp` text, whatever body is put behind its header.
* `exists_leak` — a header that does not end in CRLFCRLF lets lines of a body into the copy.
-/

namespace Headers

/-- The lines of a text whose lines end in CRLF or in a bare line feed. -/
def softLines : List Char → List TextLine
  | [] => [[]]
  | '\r' :: '\n' :: cs => [] :: softLines cs
  | '\n' :: cs => [] :: softLines cs
  | c :: cs => (softLines cs).modifyHead (c :: ·)

/-- The lines before the first empty one, in this reading. -/
def headLines (t : List Char) : List TextLine := (softLines t).takeWhile (· ≠ [])

/-! ## Reading lines -/

theorem softLines_crlf (cs : List Char) :
    softLines ('\r' :: '\n' :: cs) = [] :: softLines cs := rfl

theorem softLines_lf (cs : List Char) : softLines ('\n' :: cs) = [] :: softLines cs := by
  rw [softLines]

/-- Any character that is no line feed and starts no line end belongs to the first line. -/
theorem softLines_cons {c : Char} {cs : List Char} (hc : c ≠ '\n')
    (h : ∀ ds, c = '\r' → cs = '\n' :: ds → False) :
    softLines (c :: cs) = (softLines cs).modifyHead (c :: ·) := by
  rw [softLines]
  · exact h
  · exact hc

/-- Induction along `softLines`. -/
@[elab_as_elim]
theorem softLines_induction {motive : List Char → Prop} (cs : List Char) (nil : motive [])
    (crlf : ∀ cs, motive cs → motive ('\r' :: '\n' :: cs))
    (lf : ∀ cs, motive cs → motive ('\n' :: cs))
    (cons : ∀ c cs, (∀ ds, c = '\r' → cs = '\n' :: ds → False) → c ≠ '\n' → motive cs →
      motive (c :: cs)) :
    motive cs := by
  induction cs using softLines.induct with
  | case1 => exact nil
  | case2 cs ih => exact crlf cs ih
  | case3 cs ih => exact lf cs ih
  | case4 c cs h hc ih => exact cons c cs h hc ih

theorem softLines_ne_nil (t : List Char) : softLines t ≠ [] := by
  induction t using softLines_induction with
  | nil => exact List.cons_ne_nil _ _
  | crlf cs _ => exact List.cons_ne_nil _ _
  | lf cs _ =>
    rw [softLines_lf]
    exact List.cons_ne_nil _ _
  | cons c cs h hc ih =>
    rw [softLines_cons hc h]
    simp [List.modifyHead_eq_nil_iff, ih]

/-- No line has a line feed in it. -/
theorem not_mem_softLines (t : List Char) : ∀ l ∈ softLines t, '\n' ∉ l := by
  induction t using softLines_induction with
  | nil => simp [softLines]
  | crlf cs ih => simpa [softLines_crlf] using ih
  | lf cs ih => simpa [softLines_lf] using ih
  | cons c cs h hc ih =>
    rw [softLines_cons hc h]
    cases hlines : softLines cs with
    | nil => exact absurd hlines (softLines_ne_nil cs)
    | cons l ls =>
      rw [hlines, List.forall_mem_cons] at ih
      rw [List.modifyHead_cons, List.forall_mem_cons]
      refine ⟨?_, ih.2⟩
      rw [List.mem_cons, not_or]
      exact ⟨fun heq => hc heq.symm, ih.1⟩

/-- A text without line feeds is one line. -/
theorem softLines_plain {l : TextLine} (h : '\n' ∉ l) : softLines l = [l] := by
  induction l with
  | nil => rfl
  | cons c l ih =>
    rw [List.mem_cons, not_or] at h
    rw [softLines_cons (fun hc => h.1 hc.symm), ih h.2, List.modifyHead_cons]
    rintro ds - rfl
    exact h.2 List.mem_cons_self

theorem softLines_eq_singleton {t : List Char} (h : softLines t = [[]]) : t = [] := by
  cases t with
  | nil => rfl
  | cons c cs =>
    exfalso
    by_cases hc : c = '\n'
    · subst hc
      rw [softLines_lf] at h
      exact softLines_ne_nil cs (List.cons.inj h).2
    · by_cases hend : ∃ ds, c = '\r' ∧ cs = '\n' :: ds
      · obtain ⟨ds, rfl, rfl⟩ := hend
        rw [softLines_crlf] at h
        exact softLines_ne_nil ds (List.cons.inj h).2
      · rw [softLines_cons hc fun ds h₁ h₂ => hend ⟨ds, h₁, h₂⟩] at h
        cases hlines : softLines cs with
        | nil => exact softLines_ne_nil cs hlines
        | cons l ls =>
          rw [hlines] at h
          cases h

/-- **A CRLF in a text** ends a line, whatever is before it. -/
theorem lines_crlf_append (a b : List Char) : lines (a ++ (crlf ++ b)) = lines a ++ lines b := by
  induction a using lines_induction with
  | nil => rfl
  | crlf cs ih =>
    rw [List.cons_append, List.cons_append, lines_crlf, ih, lines_crlf]
    rfl
  | cons c cs h ih =>
    have h' : ∀ ds, c = '\r' → cs ++ (crlf ++ b) = '\n' :: ds → False := by
      rintro ds rfl hds
      cases cs with
      | nil => cases hds
      | cons d cs =>
        obtain ⟨rfl, -⟩ := List.cons.inj hds
        exact h cs rfl rfl
    rw [List.cons_append, lines_cons h', ih, lines_cons h]
    cases hlines : lines cs with
    | nil => exact absurd hlines (lines_ne_nil cs)
    | cons l ls => rfl

theorem softLines_crlf_append (a b : List Char) :
    softLines (a ++ (crlf ++ b)) = softLines a ++ softLines b := by
  induction a using softLines_induction with
  | nil => rfl
  | crlf cs ih =>
    rw [List.cons_append, List.cons_append, softLines_crlf, ih, softLines_crlf]
    rfl
  | lf cs ih =>
    rw [List.cons_append, softLines_lf, ih, softLines_lf]
    rfl
  | cons c cs h hc ih =>
    have h' : ∀ ds, c = '\r' → cs ++ (crlf ++ b) = '\n' :: ds → False := by
      rintro ds rfl hds
      cases cs with
      | nil => cases hds
      | cons d cs =>
        obtain ⟨rfl, -⟩ := List.cons.inj hds
        exact h cs rfl rfl
    rw [List.cons_append, softLines_cons hc h', ih, softLines_cons hc h]
    cases hlines : softLines cs with
    | nil => exact absurd hlines (softLines_ne_nil cs)
    | cons l ls => rfl

/-- The same after a text that ends a line already. -/
theorem softLines_append {a : List Char} {xs : List TextLine} (h : softLines a = xs ++ [[]])
    (b : List Char) : softLines (a ++ b) = xs ++ softLines b := by
  induction a using softLines_induction generalizing xs with
  | nil =>
    obtain rfl : xs = [] := by simpa [softLines] using h.symm
    rfl
  | crlf cs ih =>
    rw [softLines_crlf] at h
    obtain ⟨ys, rfl⟩ : ∃ ys, xs = [] :: ys := by
      rcases xs with _ | ⟨x, ys⟩
      · exact absurd (List.cons.inj h).2 (softLines_ne_nil cs)
      · obtain ⟨rfl, -⟩ := List.cons.inj h
        exact ⟨ys, rfl⟩
    rw [List.cons_append, List.cons_append, softLines_crlf, ih (List.cons.inj h).2]
    rfl
  | lf cs ih =>
    rw [softLines_lf] at h
    obtain ⟨ys, rfl⟩ : ∃ ys, xs = [] :: ys := by
      rcases xs with _ | ⟨x, ys⟩
      · exact absurd (List.cons.inj h).2 (softLines_ne_nil cs)
      · obtain ⟨rfl, -⟩ := List.cons.inj h
        exact ⟨ys, rfl⟩
    rw [List.cons_append, softLines_lf, ih (List.cons.inj h).2]
    rfl
  | cons c cs hcr hc ih =>
    rw [softLines_cons hc hcr] at h
    cases hlines : softLines cs with
    | nil => exact absurd hlines (softLines_ne_nil cs)
    | cons l ls =>
      rw [hlines, List.modifyHead_cons] at h
      rcases xs with _ | ⟨x, ys⟩
      · cases h
      · obtain ⟨rfl, rfl⟩ := List.cons.inj h
        have hcs : cs ≠ [] := by
          rintro rfl
          simp [softLines] at hlines
        have hcr' : ∀ ds, c = '\r' → cs ++ b = '\n' :: ds → False := by
          rintro ds rfl hds
          rcases cs with _ | ⟨d, cs⟩
          · exact hcs rfl
          · obtain ⟨rfl, -⟩ := List.cons.inj hds
            exact hcr cs rfl rfl
        have hsoft : softLines cs = (l :: ys) ++ [[]] := hlines
        rw [List.cons_append, softLines_cons hc hcr', ih hsoft]
        rfl

/-- **Both readings.** The lines that end in CRLF, each cut at its bare line feeds. -/
theorem softLines_eq_flatMap (t : List Char) : softLines t = (lines t).flatMap softLines := by
  induction t using lines_induction with
  | nil => rfl
  | crlf cs ih =>
    rw [softLines_crlf, ih, lines_crlf]
    rfl
  | cons c cs h ih =>
    rw [lines_cons h]
    cases hlines : lines cs with
    | nil => exact absurd hlines (lines_ne_nil cs)
    | cons l ls =>
      rw [hlines] at ih
      rw [List.modifyHead_cons, List.flatMap_cons]
      by_cases hc : c = '\n'
      · subst hc
        rw [softLines_lf, softLines_lf, ih]
        rfl
      · have hl : ∀ ds, c = '\r' → l = '\n' :: ds → False := by
          rintro ds rfl rfl
          obtain ⟨rest, hrest⟩ := prefix_of_lines hlines
          exact h _ rfl hrest.symm
        rw [softLines_cons hc h, ih, softLines_cons hc hl, List.flatMap_cons]
        cases hsoft : softLines l with
        | nil => exact absurd hsoft (softLines_ne_nil l)
        | cons q qs => rfl

/-- Without a line feed no line ends. -/
theorem whole_of_not_mem_lf {l : TextLine} (h : '\n' ∉ l) : Whole l := by
  induction l with
  | nil => exact whole_nil
  | cons c l ih =>
    rw [List.mem_cons, not_or] at h
    refine whole_cons.mpr ⟨?_, ih h.2⟩
    rintro ds - rfl
    exact h.2 List.mem_cons_self

/-- A line with a bare line feed, up to the first. -/
theorem softLines_whole {l : TextLine} (hwhole : Whole l) (h : '\n' ∈ l) :
    ∃ q rest, l = q ++ '\n' :: rest ∧ '\n' ∉ q ∧ softLines l = q :: softLines rest := by
  induction l with
  | nil => cases h
  | cons c l ih =>
    obtain ⟨hc, hl⟩ := whole_cons.mp hwhole
    by_cases hlf : c = '\n'
    · subst hlf
      exact ⟨[], l, rfl, by simp, softLines_lf l⟩
    · have hmem : '\n' ∈ l := by
        rcases List.mem_cons.mp h with heq | hmem
        · exact absurd heq.symm hlf
        · exact hmem
      obtain ⟨q, rest, rfl, hq, hsoft⟩ := ih hl hmem
      refine ⟨c :: q, rest, rfl, ?_, ?_⟩
      · rw [List.mem_cons, not_or]
        exact ⟨fun heq => hlf heq.symm, hq⟩
      · rw [softLines_cons hlf hc, hsoft]
        rfl

theorem softLines_unlines {ls : List TextLine} (h : ∀ l ∈ ls, '\n' ∉ l) :
    softLines (unlines ls) = ls ++ [[]] := by
  induction ls with
  | nil => rfl
  | cons l ls ih =>
    rw [List.forall_mem_cons] at h
    rw [unlines, List.flatMap_cons, List.append_assoc, softLines_crlf_append,
      softLines_plain h.1, ← unlines, ih h.2]
    rfl

/-! ## What is copied -/

/-- Whether a line starts a field that is copied. -/
def starts (p : TextLine → Bool) (l : TextLine) : Bool := !continues l && p l

/-- Whether the field of the last line is being copied. -/
def copying (p : TextLine → Bool) : Bool → List TextLine → Bool
  | keeping, [] => keeping
  | keeping, l :: ls => copying p (if continues l then keeping else p l) ls

/-- CRLF lines, none of which loses or adds a line of a copied field by a bare line feed: a line
with one in it is not copied, and what follows the line feed starts no such field. -/
def CrispLines (p : TextLine → Bool) : Bool → List TextLine → Prop
  | _, [] => True
  | keeping, l :: ls =>
    if '\n' ∈ l then
      (if continues l then keeping else p l) = false ∧
        (∀ part ∈ (softLines l).tail, starts p part = false) ∧ CrispLines p false ls
    else CrispLines p (if continues l then keeping else p l) ls

instance decidableCrispLines (p : TextLine → Bool) : (keeping : Bool) → (ls : List TextLine) →
    Decidable (CrispLines p keeping ls)
  | _, [] => .isTrue trivial
  | keeping, l :: ls =>
    have := decidableCrispLines p false ls
    have := decidableCrispLines p (if continues l then keeping else p l) ls
    inferInstanceAs (Decidable (ite _ _ _))

/-- What a predicate on the first line of a field is: it is about the text before the line feed,
and no empty line meets it. -/
structure OfName (p : TextLine → Bool) : Prop where
  nil : p [] = false
  cut : ∀ q rest, '\n' ∉ q → p (q ++ '\n' :: rest) = p q

section Copy

variable {p : TextLine → Bool}

theorem keepFields_cons (keeping : Bool) (l : TextLine) (ls : List TextLine) :
    keepFields p keeping (l :: ls) =
      (if (if continues l then keeping else p l) then [l] else []) ++
        keepFields p (if continues l then keeping else p l) ls := by
  rw [keepFields]
  cases continues l <;> cases keeping <;> cases hp : p l <;> simp

theorem keepFields_append (keeping : Bool) (xs ys : List TextLine) :
    keepFields p keeping (xs ++ ys) =
      keepFields p keeping xs ++ keepFields p (copying p keeping xs) ys := by
  induction xs generalizing keeping with
  | nil => rfl
  | cons l ls ih =>
    rw [List.cons_append, keepFields_cons, keepFields_cons, ih, copying, List.append_assoc]

theorem keepFields_false_eq_nil {ls : List TextLine} :
    keepFields p false ls = [] ↔ ∀ l ∈ ls, starts p l = false := by
  induction ls with
  | nil => simp [keepFields]
  | cons l ls ih =>
    rw [keepFields_cons, List.forall_mem_cons, ← ih, starts]
    cases continues l <;> cases hp : p l <;> simp

/-- Lines without bare line feeds are crisp. -/
theorem crispLines_of_plain {ls : List TextLine} (h : ∀ l ∈ ls, '\n' ∉ l) (keeping : Bool) :
    CrispLines p keeping ls := by
  induction ls generalizing keeping with
  | nil => trivial
  | cons l ls ih =>
    rw [List.forall_mem_cons] at h
    rw [CrispLines, if_neg h.1]
    exact ih h.2 _

/-- Without the start of a copied field nothing is being copied. -/
theorem copying_of_starts {ls : List TextLine} (h : ∀ l ∈ ls, starts p l = false) :
    copying p false ls = false := by
  induction ls with
  | nil => rfl
  | cons l ls ih =>
    rw [List.forall_mem_cons] at h
    have hflag : (if continues l then false else p l) = false := by
      have hstart := h.1
      rw [starts] at hstart
      cases hl : continues l <;> simp_all
    rw [copying, hflag]
    exact ih h.2

/-- What begins with no continuation line is copied alike in both states. -/
theorem keepFields_congr {ls : List TextLine} (h : ls.takeWhile continues = []) (keeping : Bool) :
    keepFields p keeping ls = keepFields p false ls := by
  cases ls with
  | nil => rfl
  | cons l ls =>
    have hl : continues l = false := by
      by_contra hc
      rw [Bool.not_eq_false] at hc
      rw [List.takeWhile_cons_of_pos hc] at h
      cases h
    rw [keepFields_cons, keepFields_cons, hl]
    rfl

/-- Copied lines are copied again. -/
theorem keepFields_keepFields (keeping : Bool) (ls : List TextLine) :
    keepFields p keeping (keepFields p keeping ls) = keepFields p keeping ls := by
  induction ls generalizing keeping with
  | nil => rfl
  | cons l ls ih =>
    have hfalse := keepFields_congr (p := p) (takeWhile_keepFields p ls).2
    rw [keepFields_cons]
    cases hl : continues l <;> cases hk : keeping <;> cases hp : p l <;>
      simp [keepFields_cons, hl, hp, ih, hfalse]

end Copy

section Cut

variable {p : TextLine → Bool} {ls : List TextLine}

/-- The first part of a line with a bare line feed starts a field as the line does. -/
theorem head_softLines (hp : OfName p) {l : TextLine} (hwhole : Whole l) (hlf : '\n' ∈ l) :
    ∃ q qs, softLines l = q :: qs ∧ continues q = continues l ∧ p q = p l := by
  obtain ⟨q, rest, rfl, hq, hsoft⟩ := softLines_whole hwhole hlf
  refine ⟨q, _, hsoft, ?_, (hp.cut q rest hq).symm⟩
  cases q with
  | nil => rfl
  | cons c q => rfl

/-- Cut at its bare line feeds, a text has no fewer lines in its copy, if the copy is without
line feeds. -/
theorem length_keepFields_le (hwhole : ∀ l ∈ ls, Whole l) {f g : Bool} (hfg : f = true → g = true)
    (hplain : ∀ l ∈ keepFields p f ls, '\n' ∉ l) :
    (keepFields p f ls).length ≤ (keepFields p g (ls.flatMap softLines)).length := by
  induction ls generalizing f g with
  | nil => simp [keepFields]
  | cons l ls ih =>
    rw [List.forall_mem_cons] at hwhole
    rw [keepFields_cons] at hplain ⊢
    rw [List.flatMap_cons, keepFields_append]
    have hrest : ∀ x ∈ keepFields p (if continues l then f else p l) ls, '\n' ∉ x :=
      fun x hx => hplain x (List.mem_append_right _ hx)
    by_cases hlf : '\n' ∈ l
    · have hcopied : (if continues l then f else p l) = false := by
        by_contra hc
        rw [Bool.not_eq_false] at hc
        rw [hc] at hplain
        exact hplain l (List.mem_append_left _ List.mem_cons_self) hlf
      rw [hcopied] at hrest ⊢
      have hle := ih hwhole.2 (f := false) (g := copying p g (softLines l))
        (absurd · Bool.false_ne_true) hrest
      simp only [List.length_append, Bool.false_eq_true, if_false, List.length_nil]
      omega
    · have hflags : (if continues l then f else p l) = true →
          (if continues l then g else p l) = true := by
        cases continues l <;> simp_all
      have hle := ih hwhole.2 hflags hrest
      have hone : (if (if continues l then f else p l) then [l] else []).length ≤
          (if (if continues l then g else p l) then [l] else []).length := by
        cases hf : (if continues l then f else p l) with
        | false => exact Nat.zero_le _
        | true => rw [hflags hf]
      rw [softLines_plain hlf, keepFields_cons, copying, copying]
      simp only [List.length_append, keepFields, List.length_nil, Nat.add_zero]
      omega

/-- **The copy of CRLF lines** is the copy of their parts exactly if the lines are crisp. -/
theorem keepFields_softLines (hp : OfName p) (hwhole : ∀ l ∈ ls, Whole l) (keeping : Bool) :
    keepFields p keeping ls = keepFields p keeping (ls.flatMap softLines) ↔
      CrispLines p keeping ls := by
  induction ls generalizing keeping with
  | nil => exact iff_of_true rfl trivial
  | cons l ls ih =>
    rw [List.forall_mem_cons] at hwhole
    have hnone : ∀ x ∈ keepFields p keeping ((l :: ls).flatMap softLines), '\n' ∉ x := by
      intro x hx
      obtain ⟨y, -, hxy⟩ := List.mem_flatMap.mp (keepFields_subset _ _ _ hx)
      exact not_mem_softLines y x hxy
    rw [CrispLines]
    split
    swap
    · -- a line without a bare line feed is read alike
      rename_i hlf
      rw [List.flatMap_cons, softLines_plain hlf, List.singleton_append, keepFields_cons,
        keepFields_cons, List.append_cancel_left_eq]
      exact ih hwhole.2 _
    rename_i hlf
    by_cases hcopied : (if continues l then keeping else p l) = true
    · -- the line feed would be copied
      refine iff_of_false (fun heq => ?_) fun hc => ?_
      · refine hnone l ?_ hlf
        rw [← heq, keepFields_cons, hcopied]
        exact List.mem_append_left _ List.mem_cons_self
      · rw [hcopied] at hc
        cases hc.1
    rw [Bool.not_eq_true] at hcopied
    obtain ⟨q, qs, hsoft, hcont, hpq⟩ := head_softLines hp hwhole.1 hlf
    have hleft : keepFields p keeping (l :: ls) = keepFields p false ls := by
      rw [keepFields_cons, hcopied]
      rfl
    have hright : keepFields p keeping ((l :: ls).flatMap softLines) =
        keepFields p false qs ++ keepFields p (copying p false qs) (ls.flatMap softLines) := by
      rw [List.flatMap_cons, hsoft, List.cons_append, keepFields_cons, hcont, hpq, hcopied,
        keepFields_append]
      rfl
    rw [hsoft, List.tail_cons, and_iff_right hcopied]
    by_cases hstarts : ∀ part ∈ qs, starts p part = false
    · rw [hleft, hright, keepFields_false_eq_nil.mpr hstarts, copying_of_starts hstarts,
        List.nil_append, and_iff_right hstarts]
      exact ih hwhole.2 false
    · -- a field that starts after the line feed is missing in the copy
      refine iff_of_false (fun heq => ?_) fun hc => hstarts hc.1
      have hplain : ∀ x ∈ keepFields p false ls, '\n' ∉ x := by
        rw [← hleft, heq]
        exact hnone
      have hle := length_keepFields_le hwhole.2 (f := false) (g := copying p false qs) nofun hplain
      have hlength := congrArg List.length (hleft.symm.trans (heq.trans hright))
      rw [List.length_append] at hlength
      have hnil : keepFields p false qs = [] := by
        refine List.eq_nil_of_length_eq_zero ?_
        omega
      exact hstarts (keepFields_false_eq_nil.mp hnil)

end Cut

/-! ## The end of the header -/

theorem headerSection_cases (t : List Char) :
    headerSection t = t ∨ ∃ rest, t = headerSection t ++ (crlf ++ (crlf ++ rest)) := by
  induction t using headerSection.induct with
  | case1 => exact .inl rfl
  | case2 cs => exact .inr ⟨cs, rfl⟩
  | case3 c cs h ih =>
    rw [headerSection_cons h]
    rcases ih with ih | ⟨rest, ih⟩
    · exact .inl (by rw [ih])
    · exact .inr ⟨rest, congrArg (c :: ·) ih⟩

/-- What is behind the first CRLFCRLF does not matter. -/
theorem headerSection_swap {a y : List Char} (h : headerSection (a ++ (crlf ++ (crlf ++ y))) = a)
    (z : List Char) : headerSection (a ++ (crlf ++ (crlf ++ z))) = a := by
  induction a with
  | nil => rfl
  | cons c a ih =>
    have hno : ∀ w ds, c = '\r' → a ++ (crlf ++ (crlf ++ w)) = '\n' :: '\r' :: '\n' :: ds →
        False := by
      rintro w ds rfl hds
      -- the first three characters are the same whatever follows
      have hsame : ∃ ds', a ++ (crlf ++ (crlf ++ y)) = '\n' :: '\r' :: '\n' :: ds' := by
        rcases a with _ | ⟨a₁, _ | ⟨a₂, _ | ⟨a₃, a⟩⟩⟩
        · cases hds
        · simp only [crlf, List.cons_append, List.nil_append, List.cons.injEq] at hds
          obtain ⟨rfl, -⟩ := hds
          exact ⟨_, rfl⟩
        · simp only [crlf, List.cons_append, List.nil_append, List.cons.injEq] at hds
          exact absurd hds.2.2.1 (by decide)
        · simp only [List.cons_append, List.cons.injEq] at hds
          obtain ⟨rfl, rfl, rfl, -⟩ := hds
          exact ⟨_, rfl⟩
      obtain ⟨ds', hds'⟩ := hsame
      rw [List.cons_append, hds'] at h
      cases h
    rw [List.cons_append, headerSection_cons (hno y)] at h
    rw [List.cons_append, headerSection_cons (hno z), ih (List.cons.inj h).2]

/-- The lines of the header, and none if an empty one is among them: when the header ends at a
CRLFCRLF, the text before; when the text ends before the header does, all lines but the last. -/
def headParts (t : List Char) : List TextLine :=
  if headerSection t = t then (softLines t).dropLast else softLines (headerSection t)

/-- The first empty line of the text, if it has one, ends in the first CRLFCRLF, and no bare line
feed in the header has to do with a field that is copied. -/
def Crisp (p : TextLine → Bool) (t : List Char) : Prop :=
  [] ∉ headParts t ∧ CrispLines p false (lines (headerSection t))

instance (p : TextLine → Bool) (t : List Char) : Decidable (Crisp p t) :=
  inferInstanceAs (Decidable (_ ∧ _))

/-- A header with the empty line behind it. -/
structure HeaderBlock (block : List Char) (xs : List TextLine) : Prop where
  split : ∃ before ending, block = before ++ ending ∧ (ending = ['\n'] ∨ ending = crlf) ∧
    softLines before = xs ++ [[]]
  full : [] ∉ xs

/-- The texts have the same header: one is the other with another body, or they are the same. -/
inductive SameHead (t : List Char) : List Char → Prop where
  | same : SameHead t t
  | body {block rest rest' : List Char} {xs : List TextLine} (hblock : HeaderBlock block xs)
      (split : t = block ++ rest) : SameHead t (block ++ rest')

section End

variable {p : TextLine → Bool} {t block : List Char} {xs : List TextLine}

/-- The lines of a text that begins with a header. -/
theorem HeaderBlock.softLines_append (h : HeaderBlock block xs) (rest : List Char) :
    softLines (block ++ rest) = xs ++ [] :: softLines rest := by
  obtain ⟨⟨before, ending, rfl, hending, hsoft⟩, -⟩ := h
  rw [List.append_assoc, Headers.softLines_append hsoft]
  rcases hending with rfl | rfl
  · rw [List.singleton_append, softLines_lf]
  · rfl

/-- The lists before the first empty line are the same. -/
theorem eq_of_split {xs ys zs ws : List TextLine} (hxs : [] ∉ xs) (hys : [] ∉ ys)
    (h : xs ++ [] :: zs = ys ++ [] :: ws) : xs = ys ∧ zs = ws := by
  induction xs generalizing ys with
  | nil =>
    cases ys with
    | nil => exact ⟨rfl, (List.cons.inj h).2⟩
    | cons y ys =>
      obtain ⟨rfl, -⟩ := List.cons.inj h
      exact absurd List.mem_cons_self hys
  | cons x xs ih =>
    cases ys with
    | nil =>
      obtain ⟨rfl, -⟩ := List.cons.inj h
      exact absurd List.mem_cons_self hxs
    | cons y ys =>
      obtain ⟨rfl, htail⟩ := List.cons.inj h
      rw [List.mem_cons, not_or] at hxs hys
      obtain ⟨rfl, rfl⟩ := ih hxs.2 hys.2 htail
      exact ⟨rfl, rfl⟩

/-- **A header that ends in CRLFCRLF** is the text before, with these two line ends. -/
theorem HeaderBlock.eq_section (h : HeaderBlock block xs) {a rest y : List Char}
    (hsplit : block ++ rest = a ++ (crlf ++ (crlf ++ y))) (ha : [] ∉ softLines a) :
    block = a ++ (crlf ++ crlf) ∧ softLines a = xs := by
  have hsection : ∀ z, softLines (a ++ (crlf ++ (crlf ++ z))) = softLines a ++ [] :: softLines z :=
    fun z => (softLines_crlf_append a _).trans rfl
  have hlines := congrArg softLines hsplit
  rw [h.softLines_append, hsection] at hlines
  obtain ⟨rfl, -⟩ := eq_of_split h.full ha hlines
  refine ⟨?_, rfl⟩
  have hblock := h.softLines_append []
  rw [List.append_nil] at hblock
  -- both are where the text begins
  have hpre : block <+: a ++ (crlf ++ (crlf ++ y)) := ⟨rest, hsplit⟩
  have hpre' : a ++ (crlf ++ crlf) <+: a ++ (crlf ++ (crlf ++ y)) :=
    ⟨y, by simp only [List.append_assoc]⟩
  rcases List.prefix_or_prefix_of_prefix hpre hpre' with ⟨z, hz⟩ | ⟨z, hz⟩
  · have hsame := congrArg softLines hz
    rw [h.softLines_append, show a ++ (crlf ++ crlf) = a ++ (crlf ++ (crlf ++ [])) by simp,
      hsection, List.append_cancel_left_eq] at hsame
    obtain rfl := softLines_eq_singleton (List.cons.inj hsame).2
    rw [← hz, List.append_nil]
  · have hsame := congrArg softLines hz
    rw [List.append_assoc, List.append_assoc, hsection, hblock, List.append_cancel_left_eq] at hsame
    obtain rfl := softLines_eq_singleton (List.cons.inj hsame).2
    rw [← hz, List.append_nil]

end End

/-- An empty line that is not the last ends a header. -/
theorem exists_block {t : List Char} {xs zs : List TextLine} (h : softLines t = xs ++ [] :: zs)
    (hzs : zs ≠ []) : ∃ before ending rest, t = before ++ (ending ++ rest) ∧
      (ending = ['\n'] ∨ ending = crlf) ∧ softLines before = xs ++ [[]] := by
  induction t using softLines_induction generalizing xs with
  | nil =>
    rcases xs with _ | ⟨x, xs⟩
    · obtain ⟨-, rfl⟩ := List.cons.inj h
      exact absurd rfl hzs
    · have hnil := (List.cons.inj h).2
      simp at hnil
  | crlf cs ih =>
    rw [softLines_crlf] at h
    rcases xs with _ | ⟨x, xs⟩
    · exact ⟨[], crlf, cs, rfl, .inr rfl, rfl⟩
    · obtain ⟨rfl, htail⟩ := List.cons.inj h
      obtain ⟨before, ending, rest, rfl, hending, hsoft⟩ := ih htail
      refine ⟨'\r' :: '\n' :: before, ending, rest, rfl, hending, ?_⟩
      rw [softLines_crlf, hsoft]
      rfl
  | lf cs ih =>
    rw [softLines_lf] at h
    rcases xs with _ | ⟨x, xs⟩
    · exact ⟨[], ['\n'], cs, rfl, .inl rfl, rfl⟩
    · obtain ⟨rfl, htail⟩ := List.cons.inj h
      obtain ⟨before, ending, rest, rfl, hending, hsoft⟩ := ih htail
      refine ⟨'\n' :: before, ending, rest, rfl, hending, ?_⟩
      rw [softLines_lf, hsoft]
      rfl
  | cons c cs hcr hc ih =>
    rw [softLines_cons hc hcr] at h
    cases hlines : softLines cs with
    | nil => exact absurd hlines (softLines_ne_nil cs)
    | cons l ls =>
      rw [hlines, List.modifyHead_cons] at h
      rcases xs with _ | ⟨x, xs⟩
      · cases (List.cons.inj h).1
      · obtain ⟨rfl, rfl⟩ := List.cons.inj h
        have hcs : softLines cs = (l :: xs) ++ [] :: zs := hlines
        obtain ⟨before, ending, rest, rfl, hending, hsoft⟩ := ih hcs
        refine ⟨c :: before, ending, rest, rfl, hending, ?_⟩
        rw [softLines_cons hc, hsoft]
        · rfl
        · rintro ds hr rfl
          exact hcr _ hr rfl

/-- The parts of the header section are in front of the lines of the text. -/
theorem headParts_split {t : List Char} (h : [] ∈ headParts t) :
    ∃ xs zs, softLines t = xs ++ [] :: zs ∧ zs ≠ [] ∧ [] ∉ xs := by
  rcases headerSection_cases t with hall | ⟨rest, hsplit⟩
  · rw [headParts, if_pos hall] at h
    obtain ⟨xs, ds, hds, hxs⟩ := List.eq_append_cons_of_mem h
    have hlast := List.dropLast_concat_getLast (softLines_ne_nil t)
    rw [hds, List.append_assoc, List.cons_append] at hlast
    exact ⟨xs, _, hlast.symm, by simp, hxs⟩
  · have hne : headerSection t ≠ t := by
      intro heq
      rw [heq] at hsplit
      have hlength := congrArg List.length hsplit
      simp [crlf] at hlength
    rw [headParts, if_neg hne] at h
    obtain ⟨xs, ds, hds, hxs⟩ := List.eq_append_cons_of_mem h
    have hlines : softLines t = softLines (headerSection t) ++ [] :: softLines rest := by
      conv_lhs => rw [hsplit]
      exact (softLines_crlf_append _ _).trans rfl
    refine ⟨xs, ds ++ [] :: softLines rest, ?_, by simp, hxs⟩
    rw [hlines, hds, List.append_assoc, List.cons_append]

section Copied

variable {p : TextLine → Bool} {t : List Char}

/-- The copy from a text whose header is found. -/
theorem keepFields_headLines (hp : OfName p) (h : [] ∉ headParts t) :
    keepFields p false (headLines t) = keepFields p false (softLines (headerSection t)) := by
  by_cases hall : headerSection t = t
  · rw [headParts, if_pos hall] at h
    have hlast := List.dropLast_concat_getLast (softLines_ne_nil t)
    have hpos : ∀ l ∈ (softLines t).dropLast, decide (l ≠ []) = true := by
      intro l hl
      refine decide_eq_true ?_
      rintro rfl
      exact h hl
    rw [hall, headLines]
    conv_lhs => rw [← hlast]
    conv_rhs => rw [← hlast]
    rw [List.takeWhile_append_of_pos hpos]
    by_cases hnil : (softLines t).getLast (softLines_ne_nil t) = []
    · rw [hnil, List.takeWhile_cons_of_neg (by simp), List.append_nil, keepFields_append,
        keepFields_cons]
      simp [continues, hp.nil, keepFields]
    · rw [List.takeWhile_cons_of_pos (by simpa using hnil), List.takeWhile_nil]
  · rw [headParts, if_neg hall] at h
    obtain ⟨rest, hsplit⟩ := (headerSection_cases t).resolve_left hall
    have hlines : softLines t = softLines (headerSection t) ++ [] :: softLines rest := by
      conv_lhs => rw [hsplit]
      exact (softLines_crlf_append _ _).trans rfl
    have hpos : ∀ l ∈ softLines (headerSection t), decide (l ≠ []) = true := by
      intro l hl
      refine decide_eq_true ?_
      rintro rfl
      exact h hl
    rw [headLines, hlines, List.takeWhile_append_of_pos hpos,
      List.takeWhile_cons_of_neg (by simp), List.append_nil]

/-- **The copy, when the header is found**, has the lines it should have exactly if the CRLF lines
are crisp. -/
theorem copy_iff (hp : OfName p) (h : [] ∉ headParts t) :
    keepFields p false (lines (headerSection t)) = keepFields p false (headLines t) ↔
      CrispLines p false (lines (headerSection t)) := by
  rw [keepFields_headLines hp h, softLines_eq_flatMap]
  exact keepFields_softLines hp (fun _ hl => whole_of_mem_lines hl) false

/-- **The copy from a crisp text** is the fields of its header, whatever its body is. -/
theorem copy_of_crisp (hp : OfName p) (h : Crisp p t) {t' : List Char} (hsame : SameHead t t') :
    keepFields p false (lines (headerSection t')) = keepFields p false (headLines t) := by
  rw [← (copy_iff hp h.1).mpr h.2]
  cases hsame with
  | same => rfl
  | @body block rest rest' xs hblock split =>
    have hlines := hblock.softLines_append rest
    rw [← split] at hlines
    have hne : headerSection t ≠ t := by
      intro hall
      have hparts := h.1
      rw [headParts, if_pos hall, hlines, List.dropLast_append_of_ne_nil (by simp),
        List.dropLast_cons_of_ne_nil (softLines_ne_nil rest)] at hparts
      exact hparts (by simp)
    have hparts := h.1
    rw [headParts, if_neg hne] at hparts
    obtain ⟨y, hy⟩ := (headerSection_cases t).resolve_left hne
    obtain ⟨hblock', -⟩ := hblock.eq_section (split.symm.trans hy) hparts
    have hsection : headerSection (headerSection t ++ (crlf ++ (crlf ++ y))) = headerSection t := by
      rw [← hy]
    rw [hblock', List.append_assoc, List.append_assoc, headerSection_swap hsection rest']

/-- **A header that is not found** in time lets the last line of a body into the copy. -/
theorem exists_leak (hp : OfName p) (h : [] ∈ headParts t) : ∃ block xs rest,
    HeaderBlock block xs ∧ t = block ++ rest ∧ ∀ l, '\n' ∉ l → starts p l = true →
      ∃ copied, keepFields p false (lines (headerSection (block ++ ('x' :: (crlf ++ l))))) =
        copied ++ [l] := by
  obtain ⟨xs, zs, hlines, hzs, hxs⟩ := headParts_split h
  obtain ⟨block, rest, hsplit, hblock⟩ : ∃ block rest, t = block ++ rest ∧
      HeaderBlock block xs := by
    obtain ⟨before, ending, rest, hsplit, hending, hsoft⟩ := exists_block hlines hzs
    rw [← List.append_assoc] at hsplit
    exact ⟨_, rest, hsplit, ⟨before, ending, rfl, hending, hsoft⟩, hxs⟩
  refine ⟨block, xs, rest, hblock, hsplit, fun l hl hstarts => ?_⟩
  obtain ⟨hcont, hpl⟩ : continues l = false ∧ p l = true := by
    rw [starts] at hstarts
    simpa using hstarts
  have hne : l ≠ [] := by
    rintro rfl
    rw [hp.nil] at hpl
    cases hpl
  have hbody : softLines ('x' :: (crlf ++ l)) = [['x'], l] := by
    have hx := softLines_crlf_append ['x'] l
    rw [softLines_plain hl] at hx
    exact hx
  -- nothing in the new text is CRLFCRLF
  have hall : headerSection (block ++ ('x' :: (crlf ++ l))) = block ++ ('x' :: (crlf ++ l)) := by
    refine (headerSection_cases _).resolve_right ?_
    rintro ⟨y, hy⟩
    have hplain : [] ∉ softLines (headerSection (block ++ ('x' :: (crlf ++ l)))) := by
      have hleft := hblock.softLines_append ('x' :: (crlf ++ l))
      rw [hbody] at hleft
      have hright := congrArg softLines hy
      rw [hleft, softLines_crlf_append, show softLines (crlf ++ y) = [] :: softLines y from rfl]
        at hright
      intro hmem
      have hpos := List.count_pos_iff.mpr hmem
      have hcount := congrArg (List.count []) hright
      rw [List.count_append, List.count_append, List.count_eq_zero.mpr hxs] at hcount
      simp [hne] at hcount
      omega
    obtain ⟨hend, hxs'⟩ := hblock.eq_section hy hplain
    have hswap := headerSection_swap (congrArg headerSection hy).symm rest
    have hfound : headerSection t = headerSection (block ++ ('x' :: (crlf ++ l))) := by
      rw [hsplit]
      conv_lhs => rw [hend, List.append_assoc, List.append_assoc]
      exact hswap
    have hne' : headerSection t ≠ t := by
      rw [hfound, hsplit]
      conv_rhs => rw [hend]
      intro heq
      have hlength := congrArg List.length heq
      simp [crlf] at hlength
    rw [headParts, if_neg hne', hfound, hxs'] at h
    exact hxs h
  have hlast : lines (block ++ ('x' :: (crlf ++ l))) = lines (block ++ ['x']) ++ [l] := by
    have hcut := lines_crlf_append (block ++ ['x']) l
    rw [show lines l = [l] from whole_of_not_mem_lf hl] at hcut
    rw [← hcut]
    simp
  refine ⟨keepFields p false (lines (block ++ ['x'])), ?_⟩
  rw [hall, hlast, keepFields_append, keepFields_cons, hcont, hpl]
  rfl

end Copied

end Headers
