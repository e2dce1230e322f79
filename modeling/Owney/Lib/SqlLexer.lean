import Owney.Lib.CharLists
import Mathlib.Data.Int.Notation
import Mathlib.Data.List.Basic

/-!
# Reading SQL text

The lexer of a fragment of SQLite's SQL, one character at a time. The fragment is
fixed by a vocabulary of names; whatever is outside it (another word, a comment, a
quoted identifier, an operator of two characters) makes the text `other`, about which
nothing is said. Inside a string literal every character is allowed: a quote ends the
literal unless a second one follows it, and a NUL ends the whole text.

* `lexFrom_append` — the lexer may stop and go on, so a text is read piece by piece.
* `lexFrom_splice` — what becomes of a string spliced between two quotes: if it is
  `contained` it stays inside the literal, and a NUL in it leaves the literal open.
-/

namespace Sql

/-- The keywords of the fragment. -/
inductive Keyword where
  | select | «from» | where | and | or | not | exists | in | order | by | desc | limit | offset
  | count
  deriving DecidableEq, Repr

/-- How the keywords are written. -/
def keywords : List (String × Keyword) :=
  [("SELECT", .select), ("FROM", .from), ("WHERE", .where), ("AND", .and), ("OR", .or),
    ("NOT", .not), ("EXISTS", .exists), ("IN", .in), ("ORDER", .order), ("BY", .by),
    ("DESC", .desc), ("LIMIT", .limit), ("OFFSET", .offset), ("count", .count)]

/-- A token. -/
inductive Token where
  | kw (k : Keyword)
  | name (s : String)
  | text (s : String)
  | num (n : ℕ)
  | param (n : ℕ)
  | eq | lt | gt | lparen | rparen | comma | dot | star | minus
  deriving DecidableEq, Repr

/-- Where in a token the lexer is. -/
inductive Mode where
  | start
  | word (acc : List Char)
  | num (acc : List Char)
  | param (acc : List Char)
  /-- inside a string literal -/
  | text (acc : List Char)
  /-- after a quote inside a string literal -/
  | quote (acc : List Char)
  /-- after one of `. < > = -` -/
  | dot | lt | gt | eq | minus
  /-- after the NUL -/
  | ended
  /-- after a NUL inside a string literal -/
  | unterminated
  /-- outside the fragment -/
  | other
  deriving DecidableEq, Repr

/-- The outcome for a text. -/
inductive Lexed where
  | tokens (ts : List Token)
  /-- a string literal is not closed -/
  | unterminated
  /-- outside the fragment -/
  | other
  deriving DecidableEq, Repr

/-- Put tokens in front. -/
def Lexed.prepend (ts : List Token) : Lexed → Lexed
  | .tokens us => .tokens (ts ++ us)
  | l => l

@[simp] theorem Lexed.prepend_nil (l : Lexed) : l.prepend [] = l := by cases l <;> rfl

theorem Lexed.prepend_prepend (ts us : List Token) (l : Lexed) :
    (l.prepend us).prepend ts = l.prepend (ts ++ us) := by
  cases l <;> simp [Lexed.prepend]

/-! ## The lexer -/

/-- The characters of a word. -/
def isWordChar (c : Char) : Bool := c.isAlphanum || c = '_'

section Lexer

variable (V : List String)

/-- A whole word: a keyword or a name of the vocabulary. -/
def classify (acc : List Char) : Option Token :=
  let w := String.ofList acc
  match keywords.find? (·.1 = w) with
  | some (_, k) => some (.kw k)
  | none => if w ∈ V then some (.name w) else none

/-- The characters that are no part of a word or a number. -/
def symbol : Char → List Token × Mode
  | '\'' => ([], .text [])
  | '(' => ([.lparen], .start)
  | ')' => ([.rparen], .start)
  | ',' => ([.comma], .start)
  | '*' => ([.star], .start)
  | '?' => ([], .param [])
  | '.' => ([], .dot)
  | '<' => ([], .lt)
  | '>' => ([], .gt)
  | '=' => ([], .eq)
  | '-' => ([], .minus)
  | _ => ([], .other)

/-- The first character of a token. -/
def begin (c : Char) : List Token × Mode :=
  if c = '\x00' then ([], .ended)
  else if c = ' ' ∨ c = '\t' ∨ c = '\n' ∨ c = '\x0c' ∨ c = '\r' then ([], .start)
  else if c.isAlpha ∨ c = '_' then ([], .word [c])
  else if c.isDigit then ([], .num [c])
  else symbol c

/-- A character that belongs to the token so far, or spoils it. -/
def extend : Mode → Char → Option Mode
  | .start, _ => none
  | .word acc, c =>
    if isWordChar c then some (.word (acc ++ [c]))
    else if c = '\'' ∨ c = '$' ∨ 128 ≤ c.toNat then some .other
    else none
  | .num acc, c =>
    if c.isDigit then some (.num (acc ++ [c]))
    else if isWordChar c ∨ c = '.' ∨ c = '$' ∨ 128 ≤ c.toNat then some .other
    else none
  | .param acc, c => if c.isDigit then some (.param (acc ++ [c])) else none
  | .text acc, c =>
    if c = '\'' then some (.quote acc)
    else if c = '\x00' then some .unterminated
    else some (.text (acc ++ [c]))
  | .quote acc, c => if c = '\'' then some (.text (acc ++ ['\''])) else none
  | .dot, c => if c.isDigit then some .other else none
  | .lt, c | .gt, c => if c = '=' ∨ c = '<' ∨ c = '>' then some .other else none
  | .eq, c => if c = '=' then some .other else none
  | .minus, c => if c = '-' ∨ c = '>' then some .other else none
  | .ended, _ => some .ended
  | .unterminated, _ => some .unterminated
  | .other, _ => some .other

/-- The token that is complete when the next one begins. -/
def flush : Mode → Option (List Token)
  | .start | .ended => some []
  | .word acc => (classify V acc).map ([·])
  | .num acc => some [.num (Nat.ofDigitChars 10 acc 0)]
  | .param acc => if acc = [] then none else some [.param (Nat.ofDigitChars 10 acc 0)]
  | .quote acc => some [.text (String.ofList acc)]
  | .dot => some [.dot]
  | .lt => some [.lt]
  | .gt => some [.gt]
  | .eq => some [.eq]
  | .minus => some [.minus]
  | .text _ | .unterminated | .other => none

/-- One character. -/
def lexStep (m : Mode) (c : Char) : List Token × Mode :=
  match extend m c with
  | some m' => ([], m')
  | none =>
    match flush V m with
    | some ts => (ts ++ (begin c).1, (begin c).2)
    | none => ([], .other)

/-- The end of the text. -/
def finish (m : Mode) : Lexed :=
  match m with
  | .text _ | .unterminated => .unterminated
  | m =>
    match flush V m with
    | some ts => .tokens ts
    | none => .other

/-- Read a piece of text: the tokens completed in it, and where it leaves the lexer. -/
def scan : Mode → List Char → List Token × Mode
  | m, [] => ([], m)
  | m, c :: cs => ((lexStep V m c).1 ++ (scan (lexStep V m c).2 cs).1, (scan (lexStep V m c).2 cs).2)

/-- Read the rest of a text. -/
def lexFrom (m : Mode) (cs : List Char) : Lexed :=
  (finish V (scan V m cs).2).prepend (scan V m cs).1

/-- The tokens of a text. -/
def lex (s : String) : Lexed := lexFrom V .start s.toList

variable {V}

/-! ## Piece by piece -/

theorem scan_nil (m : Mode) : scan V m [] = ([], m) := rfl

theorem scan_cons (m : Mode) (c : Char) (cs : List Char) :
    scan V m (c :: cs) =
      ((lexStep V m c).1 ++ (scan V (lexStep V m c).2 cs).1, (scan V (lexStep V m c).2 cs).2) :=
  rfl

theorem scan_append (m : Mode) (xs ys : List Char) :
    scan V m (xs ++ ys) =
      ((scan V m xs).1 ++ (scan V (scan V m xs).2 ys).1, (scan V (scan V m xs).2 ys).2) := by
  induction xs generalizing m with
  | nil => rfl
  | cons c xs ih =>
    simp only [List.cons_append, scan_cons, ih, List.append_assoc]

/-- **Piece by piece.** -/
theorem lexFrom_append (m : Mode) (xs ys : List Char) :
    lexFrom V m (xs ++ ys) = (lexFrom V (scan V m xs).2 ys).prepend (scan V m xs).1 := by
  rw [lexFrom, scan_append, lexFrom, Lexed.prepend_prepend]

theorem lexFrom_append_of_scan {m m' : Mode} {xs : List Char} {ts : List Token}
    (h : scan V m xs = (ts, m')) (ys : List Char) :
    lexFrom V m (xs ++ ys) = (lexFrom V m' ys).prepend ts := by
  rw [lexFrom_append, h]

theorem scan_unterminated (cs : List Char) : scan V .unterminated cs = ([], .unterminated) := by
  induction cs with
  | nil => rfl
  | cons c cs ih =>
    change ([] ++ (scan V .unterminated cs).1, (scan V .unterminated cs).2) = _
    rw [ih]
    rfl

/-- A text that is left open stays so. -/
theorem lexFrom_unterminated (cs : List Char) : lexFrom V .unterminated cs = .unterminated := by
  rw [lexFrom, scan_unterminated]
  rfl

/-- The token of a mode is complete when a blank follows, or nothing. -/
structure Closes (V : List String) (m : Mode) (ts : List Token) : Prop where
  flush_eq : flush V m = some ts
  extend_eq : extend m ' ' = none
  finish_eq : finish V m = .tokens ts

/-- Between two tokens. -/
theorem Closes.lexFrom {m : Mode} {ts : List Token} (h : Closes V m ts) {cs : List Char}
    (hcs : cs = [] ∨ ∃ ds, cs = ' ' :: ds) :
    lexFrom V m cs = (lexFrom V .start cs).prepend ts := by
  rcases hcs with rfl | ⟨ds, rfl⟩
  · rw [Sql.lexFrom, scan_nil, h.finish_eq]
    exact congrArg Lexed.tokens (List.append_nil ts).symm
  · have hm : lexStep V m ' ' = (ts, .start) := by
      rw [lexStep, h.extend_eq, h.flush_eq]
      exact Prod.ext (List.append_nil ts) rfl
    have hs : lexStep V .start ' ' = ([], .start) := rfl
    simp only [Sql.lexFrom, scan_cons, hm, hs, List.nil_append, Lexed.prepend_prepend]

theorem closes_quote (acc : List Char) :
    Closes V (.quote acc) [.text (String.ofList acc)] := ⟨rfl, rfl, rfl⟩

theorem closes_num (acc : List Char) :
    Closes V (.num acc) [.num (Nat.ofDigitChars 10 acc 0)] := ⟨rfl, rfl, rfl⟩

/-! ## Numbers -/

theorem begin_digit {c : Char} (hc : c.isDigit) : begin c = ([], .num [c]) := by
  have hnot : ∀ d : Char, d.isDigit = false → c ≠ d := by
    rintro d hd rfl
    rw [hc] at hd
    cases hd
  have halpha : c.isAlpha = false := by
    simp only [Char.isDigit, Bool.and_eq_true, decide_eq_true_eq, ge_iff_le,
      UInt32.le_iff_toNat_le] at hc
    simp only [Char.isAlpha, Char.isUpper, Char.isLower, Bool.or_eq_false_iff,
      Bool.and_eq_false_iff, decide_eq_false_iff_not, ge_iff_le, UInt32.le_iff_toNat_le]
    have h9 : '9'.val.toNat = 57 := rfl
    have hA : 'A'.val.toNat = 65 := rfl
    have ha : 'a'.val.toNat = 97 := rfl
    omega
  rw [begin, if_neg (hnot _ rfl), if_neg, if_neg, if_pos hc]
  · rintro (h | h)
    · rw [halpha] at h
      cases h
    · exact hnot _ rfl h
  · rintro (h | h | h | h | h) <;> exact hnot _ rfl h

theorem scan_num {cs : List Char} (hcs : ∀ c ∈ cs, c.isDigit) (acc : List Char) :
    scan V (.num acc) cs = ([], .num (acc ++ cs)) := by
  induction cs generalizing acc with
  | nil => rw [scan_nil, List.append_nil]
  | cons c cs ih =>
    have hx : extend (.num acc) c = some (.num (acc ++ [c])) := if_pos (hcs c List.mem_cons_self)
    have hrest := ih (fun d hd => hcs d (List.mem_cons_of_mem _ hd)) (acc ++ [c])
    rw [scan_cons, lexStep, hx, hrest, List.append_assoc]
    rfl

/-- Digits after a mode whose token they complete. -/
theorem scan_digits {m : Mode} {ts : List Token} {cs : List Char} (hcs : ∀ c ∈ cs, c.isDigit)
    (hne : cs ≠ []) (hflush : flush V m = some ts) (hm : ∀ c, c.isDigit → extend m c = none) :
    scan V m cs = (ts, .num cs) := by
  obtain ⟨c, cs, rfl⟩ := List.exists_cons_of_ne_nil hne
  have hc := hcs c List.mem_cons_self
  have hrest : scan V (.num [c]) cs = ([], .num ([c] ++ cs)) :=
    scan_num (fun d hd => hcs d (List.mem_cons_of_mem _ hd)) [c]
  rw [scan_cons, lexStep, hm c hc, hflush, begin_digit hc, hrest]
  simp

/-- The tokens of a printed integer. -/
def intTokens : ℤ → List Token
  | .ofNat n => [.num n]
  | .negSucc n => [.minus, .num (n + 1)]

/-- **Numbers.** A printed natural number is read back. -/
theorem lexFrom_nat (n : ℕ) {c : List Char} (hcs : c = [] ∨ ∃ ds, c = ' ' :: ds) :
    lexFrom V .start ((toString n).toList ++ c) = (lexFrom V .start c).prepend [.num n] := by
  have hscan : scan V .start (toString n).toList = ([], .num (Nat.toDigits 10 n)) := by
    rw [Nat.toString_eq_ofList_toDigits, String.toList_ofList]
    exact scan_digits (fun c hc => Nat.isDigit_of_mem_toDigits (by decide) (by decide) hc)
      Nat.toDigits_ne_nil rfl fun _ _ => rfl
  rw [lexFrom_append_of_scan hscan, (closes_num _).lexFrom hcs, Lexed.prepend_nil,
    Nat.ofDigitChars_ten_toDigits]

/-- A printed integer is read back. -/
theorem lexFrom_int (n : ℤ) {cs : List Char} (hcs : cs = [] ∨ ∃ ds, cs = ' ' :: ds) :
    lexFrom V .start ((toString n).toList ++ cs) = (lexFrom V .start cs).prepend (intTokens n) := by
  cases n with
  | ofNat n => exact lexFrom_nat n hcs
  | negSucc n =>
    have htext : (toString (Int.negSucc n)).toList = '-' :: Nat.toDigits 10 (n + 1) := by
      change ("-" ++ Nat.repr (n + 1)).toList = _
      rw [String.toList_append, Nat.repr_eq_ofList_toDigits]
      exact congrArg ('-' :: ·) String.toList_ofList
    have hdigits : scan V .minus (Nat.toDigits 10 (n + 1))
        = ([.minus], .num (Nat.toDigits 10 (n + 1))) := by
      refine scan_digits (fun c hc => Nat.isDigit_of_mem_toDigits (by decide) (by decide) hc)
        Nat.toDigits_ne_nil rfl fun c hc => ?_
      refine if_neg ?_
      rintro (rfl | rfl) <;> cases hc
    have hscan : scan V .start (toString (Int.negSucc n)).toList
        = ([.minus], .num (Nat.toDigits 10 (n + 1))) := by
      rw [htext, scan_cons, show lexStep V .start '-' = ([], .minus) from rfl, hdigits]
      rfl
    rw [lexFrom_append_of_scan hscan, (closes_num _).lexFrom hcs, Lexed.prepend_prepend,
      Nat.ofDigitChars_ten_toDigits]
    rfl

end Lexer

/-! ## Splices -/

/-- A string that cannot end the literal it is spliced into: up to the first NUL its
quotes come in adjacent pairs. -/
def contained : List Char → Bool
  | [] => true
  | '\x00' :: _ => true
  | '\'' :: '\'' :: cs => contained cs
  | '\'' :: _ => false
  | _ :: cs => contained cs

/-- What a literal holds: each pair of quotes is one. -/
def unquote : List Char → List Char
  | [] => []
  | '\'' :: '\'' :: cs => '\'' :: unquote cs
  | c :: cs => c :: unquote cs

section Splices

variable {V : List String}

/-- **Splicing.** A contained string is read as a part of the literal it stands in. -/
theorem scan_text {cs : List Char} (h : contained cs) (hnul : '\x00' ∉ cs) (acc : List Char) :
    scan V (.text acc) cs = ([], .text (acc ++ unquote cs)) := by
  induction cs using contained.induct generalizing acc with
  | case1 => rw [scan_nil, unquote, List.append_nil]
  | case2 cs => exact absurd List.mem_cons_self hnul
  | case3 cs ih =>
    -- a pair of quotes: out of the literal and in again
    have hrest := ih h (fun hmem => hnul (List.mem_cons_of_mem _ (List.mem_cons_of_mem _ hmem)))
    change scan V (.text (acc ++ ['\''])) cs = _
    rw [hrest, unquote, List.append_assoc, List.singleton_append]
  | case4 cs hpair =>
    rw [contained] at h
    · cases h
    · exact hpair
  | case5 c cs hnul' hpair hquote ih =>
    rw [contained] at h
    · have hx : extend (.text acc) c = some (.text (acc ++ [c])) :=
        (if_neg hquote).trans (if_neg hnul')
      have hrest := ih h (fun hmem => hnul (List.mem_cons_of_mem _ hmem)) (acc ++ [c])
      rw [scan_cons, lexStep, hx, hrest, unquote, List.append_assoc, List.singleton_append,
        List.nil_append]
      exact hpair
    · exact hnul'
    · exact hpair
    · exact hquote

/-- With a NUL in it the literal is never closed. -/
theorem scan_text_of_nul {cs : List Char} (h : contained cs) (hnul : '\x00' ∈ cs)
    (acc : List Char) : scan V (.text acc) cs = ([], .unterminated) := by
  induction cs using contained.induct generalizing acc with
  | case1 => cases hnul
  | case2 cs => exact scan_unterminated cs
  | case3 cs ih =>
    change scan V (.text (acc ++ ['\''])) cs = _
    exact ih h (by simpa using hnul) _
  | case4 cs hpair =>
    rw [contained] at h
    · cases h
    · exact hpair
  | case5 c cs hnul' hpair hquote ih =>
    rw [contained] at h
    · have hx : extend (.text acc) c = some (.text (acc ++ [c])) :=
        (if_neg hquote).trans (if_neg hnul')
      have hmem : '\x00' ∈ cs := (List.mem_cons.mp hnul).resolve_left fun he => hnul' he.symm
      rw [scan_cons, lexStep, hx, ih h hmem]
      rfl
    · exact hnul'
    · exact hpair
    · exact hquote

/-- A literal around a contained string. -/
theorem lexFrom_splice {m : Mode} {pre cs : List Char} {ts : List Token}
    (hpre : scan V m pre = (ts, .text [])) (h : contained cs) (hnul : '\x00' ∉ cs)
    (post : List Char) :
    lexFrom V m (pre ++ (cs ++ '\'' :: post)) =
      (lexFrom V (.quote (unquote cs)) post).prepend ts := by
  have hquote : scan V (.text ([] ++ unquote cs)) ['\''] = ([], .quote (unquote cs)) := rfl
  rw [lexFrom_append_of_scan hpre, lexFrom_append_of_scan (scan_text h hnul []),
    ← List.singleton_append, lexFrom_append_of_scan hquote, Lexed.prepend_nil, Lexed.prepend_nil]

theorem lexFrom_splice_of_nul {m : Mode} {pre cs : List Char} {ts : List Token}
    (hpre : scan V m pre = (ts, .text [])) (h : contained cs) (hnul : '\x00' ∈ cs)
    (post : List Char) : lexFrom V m (pre ++ (cs ++ post)) = .unterminated := by
  rw [lexFrom_append_of_scan hpre, lexFrom_append_of_scan (scan_text_of_nul h hnul []),
    lexFrom_unterminated]
  rfl

/-- Text without quotes and NULs is contained, and stands for itself. -/
theorem contained_of_plain {cs : List Char} (h : ∀ c ∈ cs, c ≠ '\'' ∧ c ≠ '\x00') :
    contained cs ∧ unquote cs = cs := by
  induction cs with
  | nil => exact ⟨rfl, rfl⟩
  | cons c cs ih =>
    obtain ⟨hquote, hnul⟩ := h c List.mem_cons_self
    obtain ⟨hc, hu⟩ := ih fun d hd => h d (List.mem_cons_of_mem _ hd)
    constructor
    · rw [contained]
      · exact hc
      · exact hnul
      · exact fun _ he => absurd he hquote
      · exact hquote
    · rw [unquote, hu]
      exact fun _ he => absurd he hquote

/-! ## Fragments of a text -/

/-- A piece of text that stands for the tokens wherever a blank or the end follows. -/
def Lexes (V : List String) (text : List Char) (ts : List Token) : Prop :=
  ∀ rest, (rest = [] ∨ ∃ ds, rest = ' ' :: ds) →
    lexFrom V .start (text ++ rest) = (lexFrom V .start rest).prepend ts

/-- A piece of text that leaves a literal open. -/
def Opens (V : List String) (text : List Char) : Prop :=
  ∀ rest, lexFrom V .start (text ++ rest) = .unterminated

theorem scan_and : scan V .start " AND ".toList = ([.kw .and], .start) := by
  have hclosed : scan [] .start " AND ".toList = ([.kw .and], .start) := by decide +kernel
  exact hclosed

theorem Lexes.and {x y : List Char} {ts us : List Token} (hx : Lexes V x ts)
    (hy : Lexes V y us) : Lexes V (x ++ (" AND ".toList ++ y)) (ts ++ .kw .and :: us) := by
  intro rest hrest
  rw [List.append_assoc, List.append_assoc, hx (" AND ".toList ++ (y ++ rest)) (.inr ⟨_, rfl⟩),
    lexFrom_append_of_scan scan_and, hy rest hrest, Lexed.prepend_prepend, Lexed.prepend_prepend,
    List.append_assoc, List.singleton_append]

theorem Opens.append {x : List Char} (hx : Opens V x) (y : List Char) : Opens V (x ++ y) := by
  intro rest
  rw [List.append_assoc, hx]

theorem Lexes.opens {x y : List Char} {ts : List Token} (hx : Lexes V x ts) (hy : Opens V y) :
    Opens V (x ++ (" AND ".toList ++ y)) := by
  intro rest
  rw [List.append_assoc, List.append_assoc, hx (" AND ".toList ++ (y ++ rest)) (.inr ⟨_, rfl⟩),
    lexFrom_append_of_scan scan_and, hy rest]
  rfl

end Splices

end Sql
