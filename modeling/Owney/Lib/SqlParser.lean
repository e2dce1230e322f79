import Owney.Lib.SqlLexer

/-!
# Parsing SQL

The statements of the fragment: one `SELECT` of a column or `count(*)` from one table,
a `WHERE` expression with `AND`, `OR`, `NOT`, comparisons, `IN` a list of strings and
`EXISTS` of another such `SELECT`, and at the end of the statement `ORDER BY .. DESC`
with `LIMIT` and `OFFSET`.

The parser shifts one token at a time onto a stack and reduces by precedence, as SQLite
does: `OR`, `AND`, `NOT`, then `=` and `IN`, then `<` and `>`. A prefix of a text leaves
it in a state, and what follows is parsed from that state (`parseFrom_append`).
-/

namespace Sql

/-! ## Syntax -/

/-- A comparison. -/
inductive Op where
  | eq | lt | gt
  deriving DecidableEq, Repr

/-- What is selected. -/
inductive Column where
  | one
  | count
  | col (table : Option String) (name : String)
  deriving DecidableEq, Repr

/-- `SELECT column FROM table name`. -/
structure Head where
  column : Column
  table : String
  name : String
  deriving DecidableEq, Repr

/-- Expressions. -/
inductive Expr where
  | col (table : Option String) (name : String)
  | text (s : String)
  | int (n : ℤ)
  | param (n : ℕ)
  | cmp (op : Op) (l r : Expr)
  | and (l r : Expr)
  | or (l r : Expr)
  | not (e : Expr)
  | inList (e : Expr) (items : List String)
  | exists (h : Head) (cond : Expr)
  deriving DecidableEq, Repr

/-- A statement; the sort terms are all `DESC`, `limit` is `LIMIT` and `OFFSET`. -/
structure Stmt where
  head : Head
  cond : Expr
  order : List (String × String)
  limit : Option (ℕ × ℕ)
  deriving DecidableEq, Repr

/-! ## The stack -/

/-- An unfinished construct. -/
inductive Frame where
  | main (h : Head)
  | sub (h : Head)
  | subOpen
  | paren
  | not
  | and (l : Expr)
  | or (l : Expr)
  | cmp (op : Op) (l : Expr)
  deriving DecidableEq, Repr

/-- What comes next. -/
inductive Expect where
  /-- an operand -/
  | want
  /-- after an operand -/
  | have (e : Expr)
  /-- after a name: a dot, or whatever follows an operand -/
  | name (s : String)
  | field (table : String)
  | minus
  | exists
  | select
  | column (acc : List Token)
  | from (c : Column)
  | as (c : Column) (table : String)
  | where (h : Head)
  | inOpen (e : Expr)
  | inItem (e : Expr) (items : List String)
  | inNext (e : Expr) (items : List String)
  | tail (h : Head) (cond : Expr) (acc : List Token)
  deriving DecidableEq, Repr

/-- The state of the parser. -/
abbrev PState : Type := List Frame × Expect

/-- How tightly a comparison binds. -/
def Op.prec : Op → ℕ
  | .eq => 4
  | .lt | .gt => 5

/-- Complete the constructs on the stack that bind at least as tightly as what follows. -/
def reduce (prec : ℕ) : Expr → List Frame → Expr × List Frame
  | e, .or l :: st => if prec ≤ 1 then reduce prec (.or l e) st else (e, .or l :: st)
  | e, .and l :: st => if prec ≤ 2 then reduce prec (.and l e) st else (e, .and l :: st)
  | e, .not :: st => if prec ≤ 3 then reduce prec (.not e) st else (e, .not :: st)
  | e, .cmp op l :: st =>
    if prec ≤ op.prec then reduce prec (.cmp op l e) st else (e, .cmp op l :: st)
  | e, st => (e, st)

/-- The column after `SELECT`. -/
def parseColumn : List Token → Option Column
  | [.num 1] => some .one
  | [.kw .count, .lparen, .star, .rparen] => some .count
  | [.name c] => some (.col none c)
  | [.name t, .dot, .name c] => some (.col (some t) c)
  | _ => none

/-- The terms after `ORDER BY`, and what follows them. -/
def parseTerms : List Token → Option (List (String × String) × Option (ℕ × ℕ))
  | [.name t, .dot, .name c, .kw .desc] => some ([(t, c)], none)
  | [.name t, .dot, .name c, .kw .desc, .kw .limit, .num n, .kw .offset, .num m] =>
    if n < 2 ^ 63 ∧ m < 2 ^ 63 then some ([(t, c)], some (n, m)) else none
  | .name t :: .dot :: .name c :: .kw .desc :: .comma :: rest =>
    (parseTerms rest).map fun r => ((t, c) :: r.1, r.2)
  | _ => none

/-- The end of a statement. -/
def parseTail : List Token → Option (List (String × String) × Option (ℕ × ℕ))
  | .kw .order :: .kw .by :: rest => parseTerms rest
  | _ => none

/-- A token after an operand. -/
def afterOperand (st : List Frame) (e : Expr) : Token → Option PState
  | .kw .and => some (.and (reduce 2 e st).1 :: (reduce 2 e st).2, .want)
  | .kw .or => some (.or (reduce 1 e st).1 :: (reduce 1 e st).2, .want)
  | .eq => some (.cmp .eq (reduce 4 e st).1 :: (reduce 4 e st).2, .want)
  | .lt => some (.cmp .lt (reduce 5 e st).1 :: (reduce 5 e st).2, .want)
  | .gt => some (.cmp .gt (reduce 5 e st).1 :: (reduce 5 e st).2, .want)
  | .kw .in => some ((reduce 4 e st).2, .inOpen (reduce 4 e st).1)
  | .rparen =>
    match reduce 0 e st with
    | (e, .paren :: st) => some (st, .have e)
    | (e, .sub h :: st) => some (st, .have (.exists h e))
    | _ => none
  | .kw .order =>
    match reduce 0 e st with
    | (e, [.main h]) => some ([], .tail h e [.kw .order])
    | _ => none
  | _ => none

/-- A token where an operand is expected. -/
def operand (st : List Frame) : Token → Option PState
  | .text s => some (st, .have (.text s))
  | .num n => if n < 2 ^ 63 then some (st, .have (.int n)) else none
  | .minus => some (st, .minus)
  | .param n => some (st, .have (.param n))
  | .name s => some (st, .name s)
  | .kw .not => some (.not :: st, .want)
  | .lparen => some (.paren :: st, .want)
  | .kw .exists => some (st, .exists)
  | _ => none

/-- One token. -/
def parseStep : PState → Token → Option PState
  | (st, .want), t => operand st t
  | (st, .have e), t => afterOperand st e t
  | (st, .name s), .dot => some (st, .field s)
  | (st, .name s), t => afterOperand st (.col none s) t
  | (st, .field s), .name c => some (st, .have (.col (some s) c))
  | (st, .minus), .num n => if n ≤ 2 ^ 63 then some (st, .have (.int (-n))) else none
  | (st, .exists), .lparen => some (.subOpen :: st, .select)
  | (st, .select), .kw .select => some (st, .column [])
  | (st, .column acc), .kw .from => (parseColumn acc).map fun c => (st, .from c)
  | (st, .column acc), t => some (st, .column (acc ++ [t]))
  | (st, .from c), .name t => some (st, .as c t)
  | (st, .as c t), .name n => some (st, .where ⟨c, t, n⟩)
  | ([], .where h), .kw .where => some ([.main h], .want)
  | (.subOpen :: st, .where h), .kw .where => some (.sub h :: st, .want)
  | (st, .inOpen e), .lparen => some (st, .inItem e [])
  | (st, .inItem e items), .text s => some (st, .inNext e (items ++ [s]))
  | (st, .inNext e items), .comma => some (st, .inItem e items)
  | (st, .inNext e items), .rparen => some (st, .have (.inList e items))
  | (st, .tail h e acc), t => some (st, .tail h e (acc ++ [t]))
  | _, _ => none

/-- Several tokens. -/
def parseFrom : PState → List Token → Option PState
  | s, [] => some s
  | s, t :: ts => (parseStep s t).bind fun s' => parseFrom s' ts

/-- The statement, when all tokens are read. -/
def complete : PState → Option Stmt
  | (st, .have e) =>
    match reduce 0 e st with
    | (e, [.main h]) => some ⟨h, e, [], none⟩
    | _ => none
  | (_, .tail h e acc) => (parseTail acc).map fun r => ⟨h, e, r.1, r.2⟩
  | _ => none

/-- Parse a statement. -/
def parse (ts : List Token) : Option Stmt := (parseFrom ([], .select) ts).bind complete

theorem parseFrom_append (s : PState) (xs ys : List Token) :
    parseFrom s (xs ++ ys) = (parseFrom s xs).bind fun s' => parseFrom s' ys := by
  induction xs generalizing s with
  | nil => rfl
  | cons t xs ih =>
    rw [List.cons_append, parseFrom, parseFrom, Option.bind_assoc]
    exact congrArg _ (funext fun s' => ih s')

theorem parseFrom_append_of_eq {s s' : PState} {xs : List Token} (h : parseFrom s xs = some s')
    (ys : List Token) : parseFrom s (xs ++ ys) = parseFrom s' ys := by
  rw [parseFrom_append, h, Option.bind_some]

/-! ## Conditions -/

/-- The tokens, parsed as an operand on `st`, stand for `e` to whatever follows and binds
no tighter than `AND`. -/
def Reads (st : List Frame) (ts : List Token) (e : Expr) : Prop :=
  ∃ st' x, parseFrom (st, .want) ts = some (st', .have x) ∧
    ∀ prec ≤ 2, reduce prec x st' = reduce prec e st

/-- Nothing on top of the stack that binds tighter than `AND`. -/
def Loose (st : List Frame) : Prop := ∀ prec e, 2 < prec → reduce prec e st = (e, st)

/-- Nothing on top of the stack that an `AND` would complete. -/
def Bottom (st : List Frame) : Prop := ∀ e, reduce 2 e st = (e, st)

theorem bottom_main (h : Head) : Bottom [.main h] := fun _ => rfl

theorem loose_main (h : Head) : Loose [.main h] := fun _ _ _ => rfl

theorem loose_and (e : Expr) (st : List Frame) : Loose (.and e :: st) := fun prec e' hprec => by
  rw [reduce, if_neg (Nat.not_le.mpr hprec)]

/-- The tokens are read as the expression wherever a member of a conjunction may stand. -/
def Condition (ts : List Token) (e : Expr) : Prop := ∀ st, Loose st → Reads st ts e

/-- The tokens of an operand. -/
def Operand (ts : List Token) (e : Expr) : Prop :=
  ∀ st, parseFrom (st, .want) ts = some (st, .have e)

theorem operand_col (t c : String) : Operand [.name t, .dot, .name c] (.col (some t) c) :=
  fun _ => rfl

theorem operand_text (s : String) : Operand [.text s] (.text s) := fun _ => rfl

theorem operand_param (n : ℕ) : Operand [.param n] (.param n) := fun _ => rfl

theorem operand_int {n : ℤ} (hlo : -2 ^ 63 ≤ n) (hhi : n < 2 ^ 63) :
    Operand (intTokens n) (.int n) := by
  intro st
  cases n with
  | ofNat n =>
    have hn : n < 2 ^ 63 := by
      have : (n : ℤ) < 2 ^ 63 := hhi
      omega
    rw [intTokens, parseFrom, parseStep, operand, if_pos hn]
    rfl
  | negSucc n =>
    have hn : n + 1 ≤ 2 ^ 63 := by omega
    change (parseStep (st, .minus) (.num (n + 1))).bind _ = _
    rw [parseStep, if_pos hn]
    rfl

/-- The token of a comparison. -/
def Op.token : Op → Token
  | .eq => .eq
  | .lt => .lt
  | .gt => .gt

theorem condition_cmp {o : Op} {ts us : List Token} {l r : Expr} (hl : Operand ts l)
    (hr : Operand us r) : Condition (ts ++ o.token :: us) (.cmp o l r) := by
  intro st hst
  have hprec : 2 < o.prec := by cases o <;> decide
  have hop : parseStep (st, .have l) o.token = some (.cmp o l :: st, .want) := by
    cases o <;> simp only [Op.token, parseStep, afterOperand, hst 4 l (by decide),
      hst 5 l (by decide)]
  refine ⟨.cmp o l :: st, r, ?_, fun prec hle => ?_⟩
  · rw [parseFrom_append_of_eq (hl st), parseFrom, hop, Option.bind_some, hr]
  · rw [reduce, if_pos (Nat.le_trans hle (Nat.le_of_lt hprec))]

/-- The items of a list, each after a comma. -/
theorem parseFrom_items (st : List Frame) (e : Expr) (items ss : List String) :
    parseFrom (st, .inNext e items) (ss.flatMap fun s => [.comma, .text s]) =
      some (st, .inNext e (items ++ ss)) := by
  induction ss generalizing items with
  | nil => rw [List.append_nil]; rfl
  | cons s ss ih =>
    have hitem : parseFrom (st, .inNext e items) [.comma, .text s]
        = some (st, .inNext e (items ++ [s])) := rfl
    rw [List.flatMap_cons, parseFrom_append_of_eq hitem, ih, List.append_assoc, List.singleton_append]

theorem condition_inList {ts : List Token} {e : Expr} (he : Operand ts e) (s : String)
    (ss : List String) :
    Condition (ts ++ .kw .in :: .lparen :: .text s ::
      ((ss.flatMap fun s => [.comma, .text s]) ++ [.rparen])) (.inList e (s :: ss)) := by
  intro st hst
  refine ⟨st, .inList e (s :: ss), ?_, fun _ _ => rfl⟩
  have hin : parseStep (st, .have e) (.kw .in) = some (st, .inOpen e) := by
    rw [parseStep, afterOperand, hst 4 e (by decide)]
  rw [parseFrom_append_of_eq (he st), parseFrom, hin, Option.bind_some]
  change parseFrom (st, .inNext e [s]) _ = _
  rw [parseFrom_append_of_eq (parseFrom_items st e [s] ss)]
  rfl

theorem condition_exists {ts : List Token} {e : Expr}
    (h : ∀ st, parseFrom (st, .want) ts = some (st, .have e)) : Condition ts e :=
  fun st _ => ⟨st, e, h st, fun _ _ => rfl⟩

theorem condition_not {ts : List Token} {e : Expr}
    (h : ∀ st, parseFrom (st, .want) ts = some (st, .have e)) :
    Condition (.kw .not :: ts) (.not e) := by
  refine fun st _ => ⟨.not :: st, e, h (.not :: st), fun prec hprec => ?_⟩
  rw [reduce, if_pos (Nat.le_trans hprec (by decide))]

/-! ## Conjunctions -/

/-- `a AND b AND ..`, as the parser builds it. -/
def conj : Expr → List Expr → Expr
  | e, [] => e
  | e, e' :: es => conj (.and e e') es

/-- The tokens of a conjunction after its first member. -/
def andTokens (tss : List (List Token)) : List Token :=
  tss.flatMap fun ts => .kw .and :: ts

/-- One more member. -/
theorem Reads.and {st : List Frame} {ts us : List Token} {e e' : Expr} (hst : Bottom st)
    (h : Reads st ts e) (h' : Condition us e') :
    Reads st (ts ++ .kw .and :: us) (.and e e') := by
  obtain ⟨st', x, hparse, hred⟩ := h
  obtain ⟨st'', x', hparse', hred'⟩ := h' (.and e :: st) (loose_and e st)
  refine ⟨st'', x', ?_, fun prec hprec => ?_⟩
  · -- the `AND` completes the operand before it and goes on the stack
    have hand : parseStep (st', .have x) (.kw .and) = some (.and e :: st, .want) := by
      rw [parseStep, afterOperand, hred 2 (Nat.le_refl 2), hst]
    rw [parseFrom_append_of_eq hparse, parseFrom, hand, Option.bind_some, hparse']
  · rw [hred' prec hprec, reduce, if_pos hprec]

/-- **Conjunctions.** Conditions joined by `AND` are read as their conjunction. -/
theorem Reads.conj {st : List Frame} {ts : List Token} {e : Expr} {tss : List (List Token)}
    {es : List Expr} (hst : Bottom st) (h : Reads st ts e) (hs : List.Forall₂ Condition tss es) :
    Reads st (ts ++ andTokens tss) (Sql.conj e es) := by
  induction hs generalizing ts e with
  | nil => rwa [andTokens, List.flatMap_nil, List.append_nil]
  | @cons us e' tss es hu _ ih =>
    have hassoc : ts ++ andTokens (us :: tss) = (ts ++ .kw .and :: us) ++ andTokens tss := by
      simp [andTokens]
    rw [hassoc]
    exact ih (h.and hst hu)

theorem parseFrom_tail (h : Head) (e : Expr) (acc ts : List Token) :
    parseFrom ([], .tail h e acc) ts = some ([], .tail h e (acc ++ ts)) := by
  induction ts generalizing acc with
  | nil => rw [parseFrom, List.append_nil]
  | cons t ts ih =>
    have hstep : parseStep ([], .tail h e acc) t = some ([], .tail h e (acc ++ [t])) := by
      cases t <;> rfl
    rw [parseFrom, hstep, Option.bind_some, ih, List.append_assoc, List.singleton_append]

/-- The whole statement: its head, a conjunction, and the tail. -/
theorem parse_of_reads {hs ts tail : List Token} {h : Head} {e : Expr}
    {order : List (String × String)} {limit : Option (ℕ × ℕ)}
    (hhead : parseFrom ([], .select) hs = some ([.main h], .want))
    (hreads : Reads [.main h] ts e)
    (htail : parseTail (.kw .order :: tail) = some (order, limit)) :
    parse (hs ++ (ts ++ .kw .order :: tail)) = some ⟨h, e, order, limit⟩ := by
  obtain ⟨st', x, hparse, hred⟩ := hreads
  have horder : parseStep (st', .have x) (.kw .order)
      = some ([], .tail h e [.kw .order]) := by
    rw [parseStep, afterOperand, hred 0 (Nat.zero_le 2)]
    rfl
  rw [parse, parseFrom_append_of_eq hhead, parseFrom_append_of_eq hparse, parseFrom, horder,
    Option.bind_some, parseFrom_tail, Option.bind_some, complete, List.singleton_append, htail]
  rfl

/-- The same without a tail. -/
theorem parse_of_reads_end {hs ts : List Token} {h : Head} {e : Expr}
    (hhead : parseFrom ([], .select) hs = some ([.main h], .want))
    (hreads : Reads [.main h] ts e) : parse (hs ++ ts) = some ⟨h, e, [], none⟩ := by
  obtain ⟨st', x, hparse, hred⟩ := hreads
  rw [parse, parseFrom_append_of_eq hhead, hparse, Option.bind_some, complete,
    hred 0 (Nat.zero_le 2)]
  rfl

end Sql
