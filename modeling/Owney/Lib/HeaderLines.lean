import Owney.Lib.CharLists
import Mathlib.Data.List.Basic
import Mathlib.Data.List.DropRight
import Mathlib.Tactic.Common

/-!
# The header of a message

A message is text in lines that end in CRLF; its header is the lines before the first empty
one. A field is a line that starts with its name, with the continuation lines after it, which
start with a blank.

* `header_append` — a line in front of a text is the first of its header.
* `header_headerSection` — the text before the first CRLFCRLF has the same header.
* `fields_keepFields` — copying some fields of a header adds none.
* `fields_cons_field` — a field in front of a header.
-/

namespace Headers

/-- A line, without its end. -/
abbrev TextLine : Type := List Char

/-- `split("\r\n")`. -/
def lines : List Char → List TextLine
  | [] => [[]]
  | '\r' :: '\n' :: cs => [] :: lines cs
  | c :: cs => (lines cs).modifyHead (c :: ·)

/-- The end of a line. -/
def crlf : List Char := ['\r', '\n']

/-- The lines of a header, each with its end. -/
def unlines (ls : List TextLine) : List Char := ls.flatMap (· ++ crlf)

/-- The header of a text: its lines before the first empty one. -/
def header (text : List Char) : List TextLine := (lines text).takeWhile (· ≠ [])

/-- `split("\r\n\r\n").next()`. -/
def headerSection : List Char → List Char
  | [] => []
  | '\r' :: '\n' :: '\r' :: '\n' :: _ => []
  | c :: cs => c :: headerSection cs

/-- Whether a line continues the field before it. -/
def continues : TextLine → Bool
  | c :: _ => c = ' ' || c = '\t'
  | [] => false

/-- The fields whose first line meets `p`, each with its continuation lines. -/
def fields (p : TextLine → Bool) : List TextLine → List (List TextLine)
  | [] => []
  | l :: ls =>
    if !continues l && p l then (l :: ls.takeWhile continues) :: fields p ls else fields p ls

/-- Whether a line starts a field of this name, in any case of ASCII. -/
def named (name : String) (l : TextLine) : Bool :=
  (name ++ ":").toList.isPrefixOf (l.map Char.toLower)

/-- Copy the fields whose first line meets `p`; the flag says whether the field before the
first of these lines is being copied. -/
def keepFields (p : TextLine → Bool) : Bool → List TextLine → List TextLine
  | _, [] => []
  | keeping, l :: ls =>
    if continues l then
      if keeping then l :: keepFields p keeping ls else keepFields p keeping ls
    else if p l then l :: keepFields p true ls else keepFields p false ls

/-! ## Lines -/

/-- A text without a line end in it. -/
def Whole (l : TextLine) : Prop := lines l = [l]

theorem lines_crlf (cs : List Char) : lines ('\r' :: '\n' :: cs) = [] :: lines cs := rfl

/-- Any character but the start of a line end belongs to the first line. -/
theorem lines_cons {c : Char} {cs : List Char} (h : ∀ ds, c = '\r' → cs = '\n' :: ds → False) :
    lines (c :: cs) = (lines cs).modifyHead (c :: ·) := by
  rw [lines]
  exact h

/-- Induction along `lines`: a text starts with a line end, or with a character of its first
line. -/
@[elab_as_elim]
theorem lines_induction {motive : List Char → Prop} (cs : List Char) (nil : motive [])
    (crlf : ∀ cs, motive cs → motive ('\r' :: '\n' :: cs))
    (cons : ∀ c cs, (∀ ds, c = '\r' → cs = '\n' :: ds → False) → motive cs → motive (c :: cs)) :
    motive cs := by
  induction cs using lines.induct with
  | case1 => exact nil
  | case2 cs ih => exact crlf cs ih
  | case3 c cs h ih => exact cons c cs h ih

theorem lines_ne_nil (cs : List Char) : lines cs ≠ [] := by
  induction cs using lines_induction with
  | nil => exact List.cons_ne_nil _ _
  | crlf cs _ => exact List.cons_ne_nil _ _
  | cons c cs h ih =>
    rw [lines_cons h]
    simp [List.modifyHead_eq_nil_iff, ih]

theorem whole_nil : Whole [] := rfl

theorem whole_cons {c : Char} {cs : List Char} :
    Whole (c :: cs) ↔ (∀ ds, c = '\r' → cs = '\n' :: ds → False) ∧ Whole cs := by
  by_cases h : ∃ ds, c = '\r' ∧ cs = '\n' :: ds
  · obtain ⟨ds, rfl, rfl⟩ := h
    simp [Whole, lines_crlf]
  · have h' : ∀ ds, c = '\r' → cs = '\n' :: ds → False := fun ds hc hcs => h ⟨ds, hc, hcs⟩
    rw [Whole, Whole, lines_cons h', and_iff_right h']
    cases hlines : lines cs with
    | nil => exact absurd hlines (lines_ne_nil cs)
    | cons l ls => simp

/-- Without a carriage return no line ends. -/
theorem whole_of_not_mem {l : TextLine} (h : '\r' ∉ l) : Whole l := by
  induction l with
  | nil => exact whole_nil
  | cons c l ih =>
    rw [List.mem_cons, not_or] at h
    exact whole_cons.mpr ⟨fun _ hc _ => h.1 hc.symm, ih h.2⟩

/-- A text in which no line ends, be it with CRLF or with a bare line feed. -/
def Unbroken (l : List Char) : Prop := '\r' ∉ l ∧ '\n' ∉ l

instance (l : List Char) : Decidable (Unbroken l) := inferInstanceAs (Decidable (_ ∧ _))

theorem Unbroken.whole {l : TextLine} (h : Unbroken l) : Whole l := whole_of_not_mem h.1

theorem unbroken_cons {c : Char} {l : List Char} :
    Unbroken (c :: l) ↔ c ≠ '\r' ∧ c ≠ '\n' ∧ Unbroken l := by
  simp only [Unbroken, List.mem_cons, not_or]
  grind

@[simp] theorem unbroken_append {l l' : List Char} :
    Unbroken (l ++ l') ↔ Unbroken l ∧ Unbroken l' := by
  simp only [Unbroken, List.mem_append, not_or]
  exact and_and_and_comm

/-- The first line is where the text begins. -/
theorem prefix_of_lines {cs : List Char} {l : TextLine} {ls : List TextLine} (h : lines cs = l :: ls) :
    l <+: cs := by
  induction cs using lines_induction generalizing l ls with
  | nil =>
    obtain ⟨rfl, -⟩ := List.cons.inj h
    exact List.nil_prefix
  | crlf cs _ =>
    obtain ⟨rfl, -⟩ := List.cons.inj h
    exact List.nil_prefix
  | cons c cs hc ih =>
    rw [lines_cons hc] at h
    cases hlines : lines cs with
    | nil => exact absurd hlines (lines_ne_nil cs)
    | cons l' ls' =>
      rw [hlines, List.modifyHead_cons] at h
      obtain ⟨rfl, -⟩ := List.cons.inj h
      exact (List.prefix_cons_inj c).mpr (ih hlines)

/-- The lines of a text are whole. -/
theorem whole_of_mem_lines {cs : List Char} {l : TextLine} (h : l ∈ lines cs) : Whole l := by
  induction cs using lines_induction generalizing l with
  | nil =>
    obtain rfl := List.mem_singleton.mp h
    exact whole_nil
  | crlf cs ih =>
    rcases List.mem_cons.mp h with rfl | h
    · exact whole_nil
    · exact ih h
  | cons c cs hc ih =>
    rw [lines_cons hc] at h
    cases hlines : lines cs with
    | nil => exact absurd hlines (lines_ne_nil cs)
    | cons l' ls =>
      rw [hlines] at h ih
      rcases List.mem_cons.mp h with rfl | h
      · refine whole_cons.mpr ⟨fun ds hr hn => ?_, ih List.mem_cons_self⟩
        -- a line feed here would have ended the line before `c`
        obtain ⟨rest, hrest⟩ := prefix_of_lines hlines
        rw [hn, List.cons_append] at hrest
        exact hc _ hr hrest.symm
      · exact ih (List.mem_cons_of_mem _ h)

/-- **A whole line in front**, with its end. -/
theorem lines_append {l : TextLine} (h : Whole l) (cs : List Char) :
    lines (l ++ (crlf ++ cs)) = l :: lines cs := by
  induction l with
  | nil => rfl
  | cons c l ih =>
    obtain ⟨hc, hl⟩ := whole_cons.mp h
    have hc' : ∀ ds, c = '\r' → l ++ (crlf ++ cs) = '\n' :: ds → False := by
      intro ds hr hn
      cases l with
      | nil => exact absurd (List.cons.inj hn).1 (by decide)
      | cons d l =>
        obtain ⟨rfl, -⟩ := List.cons.inj hn
        exact hc _ hr rfl
    rw [List.cons_append, lines_cons hc', ih hl, List.modifyHead_cons]

theorem lines_unlines {ls : List TextLine} (h : ∀ l ∈ ls, Whole l) (cs : List Char) :
    lines (unlines ls ++ cs) = ls ++ lines cs := by
  induction ls with
  | nil => rfl
  | cons l ls ih =>
    rw [unlines, List.flatMap_cons, List.append_assoc, List.append_assoc,
      lines_append (h l List.mem_cons_self), ← unlines,
      ih fun l' hl' => h l' (List.mem_cons_of_mem _ hl'), List.cons_append]

@[simp] theorem unlines_append (ls ls' : List TextLine) :
    unlines (ls ++ ls') = unlines ls ++ unlines ls' := List.flatMap_append

/-! ## The header -/

/-- **Lines in front of a text** are the first of its header. -/
theorem header_unlines {ls : List TextLine} (h : ∀ l ∈ ls, Whole l ∧ l ≠ []) (cs : List Char) :
    header (unlines ls ++ cs) = ls ++ header cs := by
  rw [header, lines_unlines (fun l hl => (h l hl).1), List.takeWhile_append_of_pos, header]
  exact fun l hl => by simpa using (h l hl).2

/-- A header ends at the first empty line. -/
theorem header_unlines_crlf {ls : List TextLine} (h : ∀ l ∈ ls, Whole l) (cs : List Char) :
    header (unlines ls ++ (crlf ++ cs)) = ls.takeWhile (· ≠ []) := by
  have hlines : lines (crlf ++ cs) = [] :: lines cs := rfl
  rw [header, lines_unlines h, hlines, List.takeWhile_append]
  split
  · rename_i hall
    rw [List.takeWhile_cons_of_neg (by simp), List.append_nil]
    exact ((List.takeWhile_prefix _).eq_of_length hall).symm
  · rfl

/-- The first line of a text, and the lines after it up to the first empty one. -/
def opening (cs : List Char) : TextLine × List TextLine :=
  ((lines cs).headD [], (lines cs).tail.takeWhile (· ≠ []))

theorem opening_crlf (cs : List Char) : opening ('\r' :: '\n' :: cs) = ([], header cs) := rfl

theorem opening_cons {c : Char} {cs : List Char} (h : ∀ ds, c = '\r' → cs = '\n' :: ds → False) :
    opening (c :: cs) = (c :: (opening cs).1, (opening cs).2) := by
  rw [opening, opening, lines_cons h]
  cases hlines : lines cs with
  | nil => exact absurd hlines (lines_ne_nil cs)
  | cons l ls => rfl

theorem header_eq_opening (cs : List Char) :
    header cs = if (opening cs).1 = [] then [] else (opening cs).1 :: (opening cs).2 := by
  rw [header, opening]
  cases hlines : lines cs with
  | nil => exact absurd hlines (lines_ne_nil cs)
  | cons l ls =>
    rw [List.takeWhile_cons, List.headD_cons, List.tail_cons]
    by_cases hl : l = [] <;> simp [hl]

theorem headerSection_cons {c : Char} {cs : List Char}
    (h : ∀ ds, c = '\r' → cs = '\n' :: '\r' :: '\n' :: ds → False) :
    headerSection (c :: cs) = c :: headerSection cs := by
  rw [headerSection]
  exact h

/-- A text and its header section open alike. -/
theorem opening_headerSection (cs : List Char) : opening (headerSection cs) = opening cs := by
  induction cs using headerSection.induct with
  | case1 => rfl
  | case2 cs => rfl
  | case3 c cs hc ih =>
    rw [headerSection_cons hc]
    by_cases hend : ∃ ds, c = '\r' ∧ cs = '\n' :: ds
    · obtain ⟨ds, rfl, rfl⟩ := hend
      have hn : ∀ ds', '\n' = '\r' → ds = '\n' :: '\r' :: '\n' :: ds' → False :=
        fun _ h => absurd h (by decide)
      have hn' : ∀ {es : List Char} ds', '\n' = '\r' → es = '\n' :: ds' → False :=
        fun _ h => absurd h (by decide)
      rw [headerSection_cons hn, opening_cons hn', opening_cons hn', Prod.mk.injEq,
        List.cons.injEq] at ih
      have heq : opening (headerSection ds) = opening ds := Prod.ext ih.1.2 ih.2
      rw [headerSection_cons hn, opening_crlf, opening_crlf, header_eq_opening, heq,
        ← header_eq_opening]
    · have hcs : ∀ ds, c = '\r' → cs = '\n' :: ds → False := fun ds h h' => hend ⟨ds, h, h'⟩
      have hsec : ∀ ds, c = '\r' → headerSection cs = '\n' :: ds → False := by
        rintro ds rfl hds
        cases cs with
        | nil => cases hds
        | cons d cs =>
          by_cases hd : ∃ es, d = '\r' ∧ cs = '\n' :: '\r' :: '\n' :: es
          · obtain ⟨es, rfl, rfl⟩ := hd
            cases hds
          · rw [headerSection_cons fun es h h' => hd ⟨es, h, h'⟩] at hds
            exact hcs cs rfl (by rw [(List.cons.inj hds).1])
      rw [opening_cons hsec, opening_cons hcs, ih]

/-- **The text before the first CRLFCRLF** has the same header. -/
theorem header_headerSection (cs : List Char) : header (headerSection cs) = header cs := by
  rw [header_eq_opening, opening_headerSection, ← header_eq_opening]

/-! ## Fields -/

theorem ne_nil_of_continues {l : TextLine} (h : continues l) : l ≠ [] := by
  rintro rfl
  cases h

theorem fields_cons_of_not {p : TextLine → Bool} {l : TextLine} (h : ¬p l) (ls : List TextLine) :
    fields p (l :: ls) = fields p ls := by
  rw [fields, if_neg (by simp [h])]

/-- The fields of a header are fields of all the lines. -/
theorem fields_takeWhile (p : TextLine → Bool) (ls : List TextLine) :
    fields p (ls.takeWhile (· ≠ [])) ⊆ fields p ls := by
  have hrest : ∀ ls : List TextLine,
      (ls.takeWhile (· ≠ [])).takeWhile continues = ls.takeWhile continues := by
    intro ls
    rw [List.takeWhile_takeWhile]
    refine congrArg (List.takeWhile · ls) (funext fun l => ?_)
    by_cases h : continues l
    · simp [h, ne_nil_of_continues h]
    · simp [h]
  induction ls with
  | nil => exact List.Subset.refl _
  | cons l ls ih =>
    rw [List.takeWhile_cons]
    split
    · rw [fields, fields, hrest]
      split
      · exact List.cons_subset_cons _ ih
      · exact ih
    · exact List.nil_subset _

/-- What continues a copied field is copied. -/
theorem takeWhile_keepFields (q : TextLine → Bool) (ls : List TextLine) :
    (keepFields q true ls).takeWhile continues = ls.takeWhile continues ∧
      (keepFields q false ls).takeWhile continues = [] := by
  induction ls with
  | nil => exact ⟨rfl, rfl⟩
  | cons l ls ih =>
    by_cases hl : continues l
    · simp [keepFields, hl, ih]
    · by_cases hq : q l <;> simp [keepFields, hl, hq, ih]

/-- **Copying some fields adds none.** -/
theorem fields_keepFields (p q : TextLine → Bool) (keeping : Bool) (ls : List TextLine) :
    fields p (keepFields q keeping ls) ⊆ fields p ls := by
  induction ls generalizing keeping with
  | nil => exact List.Subset.refl _
  | cons l ls ih =>
    by_cases hl : continues l
    · cases keeping
      · simpa [keepFields, fields, hl] using ih false
      · simpa [keepFields, fields, hl] using ih true
    · by_cases hq : q l
      · have hrest := (takeWhile_keepFields q ls).1
        by_cases hp : p l
        · simpa [keepFields, fields, hl, hq, hp, hrest] using
            List.subset_cons_of_subset _ (ih true)
        · simpa [keepFields, fields, hl, hq, hp] using ih true
      · by_cases hp : p l
        · simpa [keepFields, fields, hl, hq, hp] using List.subset_cons_of_subset _ (ih false)
        · simpa [keepFields, fields, hl, hq, hp] using ih false

/-- Fields do not reach over a line that continues nothing. -/
theorem fields_append (p : TextLine → Bool) (ls : List TextLine) {l : TextLine} (h : ¬continues l)
    (rest : List TextLine) : fields p (ls ++ l :: rest) = fields p ls ++ fields p (l :: rest) := by
  induction ls with
  | nil => rfl
  | cons l' ls ih =>
    have htake : (ls ++ l :: rest).takeWhile continues = ls.takeWhile continues := by
      rw [List.takeWhile_append]
      split
      · rename_i hall
        simp [h, (List.takeWhile_prefix continues).eq_of_length hall]
      · rfl
    rw [List.cons_append, fields, fields, ih, htake]
    split <;> rfl

/-- What no line of a list starts is none of its fields. -/
theorem fields_eq_nil {p : TextLine → Bool} {ls : List TextLine} (h : ∀ l ∈ ls, ¬p l) :
    fields p ls = [] := by
  induction ls with
  | nil => rfl
  | cons l ls ih =>
    rw [fields_cons_of_not (h l List.mem_cons_self)]
    exact ih fun l' hl' => h l' (List.mem_cons_of_mem _ hl')

/-- A copied line continues a field or starts one that is copied. -/
theorem of_mem_keepFields {q : TextLine → Bool} {keeping : Bool} {ls : List TextLine} {l : TextLine}
    (h : l ∈ keepFields q keeping ls) : continues l ∨ q l := by
  induction ls generalizing keeping with
  | nil => cases h
  | cons l' ls ih =>
    rw [keepFields] at h
    split_ifs at h with hl hk hq
    · rcases List.mem_cons.mp h with rfl | h
      · exact .inl hl
      · exact ih h
    · exact ih h
    · rcases List.mem_cons.mp h with rfl | h
      · exact .inr hq
      · exact ih h
    · exact ih h

/-- Copied lines are lines of the text. -/
theorem keepFields_subset (q : TextLine → Bool) (keeping : Bool) (ls : List TextLine) :
    keepFields q keeping ls ⊆ ls := by
  induction ls generalizing keeping with
  | nil => exact List.Subset.refl _
  | cons l ls ih =>
    rw [keepFields]
    split_ifs
    · exact List.cons_subset_cons _ (ih keeping)
    · exact List.subset_cons_of_subset _ (ih keeping)
    · exact List.cons_subset_cons _ (ih true)
    · exact List.subset_cons_of_subset _ (ih false)

/-- Continuation lines that continue nothing start no field. -/
theorem fields_append_of_continues {p : TextLine → Bool} {conts : List TextLine}
    (h : ∀ l ∈ conts, continues l) (ls : List TextLine) : fields p (conts ++ ls) = fields p ls := by
  induction conts with
  | nil => rfl
  | cons l conts ih =>
    rw [List.cons_append, fields, if_neg (by simp [h l List.mem_cons_self])]
    exact ih fun l' hl' => h l' (List.mem_cons_of_mem _ hl')

/-- **A field in front** takes the continuation lines that the rest begins with. -/
theorem fields_cons_field {p : TextLine → Bool} {l : TextLine} {conts : List TextLine} (hp : p l)
    (hl : ¬continues l) (hconts : ∀ l' ∈ conts, continues l') (ls : List TextLine) :
    fields p (l :: conts ++ ls) = (l :: conts ++ ls.takeWhile continues) :: fields p ls := by
  rw [List.cons_append, fields, if_pos (by simp [hp, hl]), fields_append_of_continues hconts,
    List.takeWhile_append_of_pos hconts, List.cons_append]

/-! ## Folded fields -/

/-- A line and further parts of a field, each on a line of its own, with a separator where a
line is folded. -/
def folded (sep : List Char) : TextLine → List TextLine → List TextLine
  | l, [] => [l]
  | l, part :: parts => (l ++ sep) :: folded sep ('\t' :: part) parts

/-- A folded field is one line that starts as the first part does, and continuation lines. -/
theorem folded_eq (sep : List Char) (l : TextLine) (parts : List TextLine) :
    ∃ first conts, folded sep l parts = first :: conts ∧ l <+: first ∧
      ∀ l' ∈ conts, continues l' := by
  induction parts generalizing l with
  | nil => exact ⟨l, [], rfl, List.prefix_refl l, by simp⟩
  | cons part parts ih =>
    obtain ⟨first, conts, hfolded, hstart, hconts⟩ := ih ('\t' :: part)
    refine ⟨l ++ sep, first :: conts, by rw [folded, hfolded], List.prefix_append l sep, ?_⟩
    rw [List.forall_mem_cons]
    obtain ⟨rest, rfl⟩ := hstart
    exact ⟨rfl, hconts⟩

/-- Unbroken parts fold to unbroken lines. -/
theorem folded_unbroken {sep : List Char} (hsep : Unbroken sep) {l : TextLine}
    {parts : List TextLine} (hl : Unbroken l) (hne : l ≠ [])
    (hparts : ∀ part ∈ parts, Unbroken part) :
    ∀ l' ∈ folded sep l parts, Unbroken l' ∧ l' ≠ [] := by
  induction parts generalizing l with
  | nil => simpa [folded] using ⟨hl, hne⟩
  | cons part parts ih =>
    rw [List.forall_mem_cons] at hparts
    rw [folded, List.forall_mem_cons]
    refine ⟨⟨unbroken_append.mpr ⟨hl, hsep⟩, by simp [hne]⟩, ih ?_ (by simp) hparts.2⟩
    exact unbroken_cons.mpr ⟨by decide, by decide, hparts.1⟩

end Headers
