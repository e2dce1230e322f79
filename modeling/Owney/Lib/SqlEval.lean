import Mathlib.Data.List.Sort
import Mathlib.Data.String.Basic
import Owney.Lib.SqlParser

/-!
# What a statement means

The value of a statement of the fragment over a database of named tables, with SQL's
three-valued logic. `none` is for what the fragment does not cover: a table or column
that does not exist, and comparisons between values of different types, which depend
on column affinities.
-/

namespace Sql

/-- A value. -/
inductive Value where
  | null
  | int (n : ℤ)
  | text (s : String)
  deriving DecidableEq, Repr

/-- A row, as the values of its columns. -/
abbrev Row : Type := String → Value

/-- Tables with their columns. -/
structure Database where
  columns : String → Option (List String)
  rows : String → List Row

/-- A row that is in scope under a name. -/
structure Binding where
  name : String
  columns : List String
  row : Row

/-! ## Three-valued logic -/

/-- `AND`; `none` is unknown. -/
def and3 : Option Bool → Option Bool → Option Bool
  | some false, _ => some false
  | _, some false => some false
  | some true, some true => some true
  | _, _ => none

/-- `OR`. -/
def or3 : Option Bool → Option Bool → Option Bool
  | some true, _ => some true
  | _, some true => some true
  | some false, some false => some false
  | _, _ => none

@[simp] theorem and3_some (a b : Bool) : and3 (some a) (some b) = some (a && b) := by
  cases a <;> cases b <;> rfl

/-- A comparison; with `NULL` it is unknown. -/
def Op.eval : Op → Value → Value → Option (Option Bool)
  | _, .null, _ => some none
  | _, _, .null => some none
  | .eq, .int a, .int b => some (some (a = b))
  | .lt, .int a, .int b => some (some (a < b))
  | .gt, .int a, .int b => some (some (b < a))
  | .eq, .text a, .text b => some (some (a = b))
  | .lt, .text a, .text b => some (some (a < b))
  | .gt, .text a, .text b => some (some (b < a))
  | _, .int _, .text _ => none
  | _, .text _, .int _ => none

/-! ## Expressions -/

/-- Whether every table and column of an expression exists. -/
def Expr.inScope (columns : String → Option (List String)) :
    List (String × List String) → Expr → Bool
  | sc, .col (some t) c =>
    match sc.find? (·.1 = t) with
    | some s => c ∈ s.2
    | none => false
  | sc, .col none c => sc.any (c ∈ ·.2)
  | _, .text _ | _, .int _ => true
  | _, .param n => 0 < n
  | sc, .cmp _ l r => l.inScope columns sc && r.inScope columns sc
  | sc, .and l r => l.inScope columns sc && r.inScope columns sc
  | sc, .or l r => l.inScope columns sc && r.inScope columns sc
  | sc, .not e => e.inScope columns sc
  | sc, .inList e _ => e.inScope columns sc
  | sc, .exists h cond =>
    match columns h.table with
    | some cols => h.column = .one && cond.inScope columns ((h.name, cols) :: sc)
    | none => false

/-- The number of parameters an expression has. -/
def Expr.params : Expr → ℕ
  | .param n => n
  | .cmp _ l r | .and l r | .or l r => max l.params r.params
  | .not e | .inList e _ | .exists _ e => e.params
  | _ => 0

section Eval

variable (D : Database) (ps : List Value)

/-- The value of an operand. -/
def value (env : List Binding) : Expr → Option Value
  | .text s => some (.text s)
  | .int n => some (.int n)
  | .param n => ps[n - 1]?
  | .col (some t) c => (env.find? (·.name = t)).map (·.row c)
  | .col none c => (env.find? (c ∈ ·.columns)).map (·.row c)
  | _ => none

/-- The rows a condition is true of, if it is covered on all of them. -/
def selectRows (f : Row → Option (Option Bool)) : List Row → Option (List Row)
  | [] => some []
  | r :: rs =>
    match f r, selectRows f rs with
    | some b, some out => some (if b = some true then r :: out else out)
    | _, _ => none

/-- The truth of a condition. -/
def truth : List Binding → Expr → Option (Option Bool)
  | env, .cmp op l r => (value ps env l).bind fun a => (value ps env r).bind fun b => op.eval a b
  | env, .and l r => (truth env l).bind fun a => (truth env r).map fun b => and3 a b
  | env, .or l r => (truth env l).bind fun a => (truth env r).map fun b => or3 a b
  | env, .not e => (truth env e).map fun a => a.map (! ·)
  | env, .inList e items =>
    match value ps env e with
    | some (.text s) => some (some (s ∈ items))
    | some .null => some none
    | _ => none
  | env, .exists h cond =>
    match D.columns h.table with
    | some cols =>
      (selectRows (fun r => truth (⟨h.name, cols, r⟩ :: env) cond) (D.rows h.table)).map
        fun rows => some (! rows.isEmpty)
    | none => none
  | _, _ => none

end Eval

/-! ## Statements -/

/-- The order of values: `NULL`, numbers, text. -/
def Value.compare : Value → Value → Ordering
  | .null, .null => .eq
  | .null, _ => .lt
  | _, .null => .gt
  | .int a, .int b => Ord.compare a b
  | .int _, .text _ => .lt
  | .text _, .int _ => .gt
  | .text a, .text b => Ord.compare a b

/-- Whether a row may stand before another one: every column `DESC`. -/
def before : List String → Row → Row → Bool
  | [], _, _ => true
  | c :: cs, r, r' =>
    match (r c).compare (r' c) with
    | .gt => true
    | .lt => false
    | .eq => before cs r r'

/-- The result rows, one value each. -/
def project : Column → List Row → List Value
  | .one, rows => rows.map fun _ => .int 1
  | .count, rows => [.int rows.length]
  | .col _ c, rows => rows.map fun r => r c

/-- `LIMIT n OFFSET m`. -/
def cut : Option (ℕ × ℕ) → List Value → List Value
  | none, out => out
  | some (n, m), out => (out.drop m).take n

/-- Whether the result column and the sort terms exist. -/
def Stmt.named (s : Stmt) (cols : List String) : Bool :=
  (s.order.all fun t => t.1 = s.head.name && t.2 ∈ cols) &&
    match s.head.column with
    | .col t c => (t = none || t = some s.head.name) && c ∈ cols
    | _ => true

/-- Whether a statement names only what exists, and all its parameters are given. -/
def Stmt.inScope (D : Database) (params : ℕ) (s : Stmt) (cols : List String) : Bool :=
  s.cond.params = params && s.cond.inScope D.columns [(s.head.name, cols)] && s.named cols

/-- What the selected rows become. -/
def Stmt.output (s : Stmt) (rows : List Row) : List Value :=
  cut s.limit (project s.head.column
    (rows.insertionSort fun r r' => before (s.order.map (·.2)) r r'))

/-- The result of a statement. -/
def Stmt.eval (D : Database) (ps : List Value) (s : Stmt) : Option (List Value) :=
  match D.columns s.head.table with
  | some cols =>
    if s.inScope D ps.length cols then
      (selectRows (fun r => truth D ps [⟨s.head.name, cols, r⟩] s.cond) (D.rows s.head.table)).map
        s.output
    else none
  | none => none

/-! ## Decided conditions -/

section Decides

variable {ρ : Type} {xs : List ρ} {toRow : ρ → Row} {p : ρ → Bool}

theorem selectRows_map {f : Row → Option (Option Bool)}
    (h : ∀ x ∈ xs, f (toRow x) = some (some (p x))) :
    selectRows f (xs.map toRow) = some ((xs.filter p).map toRow) := by
  induction xs with
  | nil => rfl
  | cons x xs ih =>
    rw [List.map_cons, selectRows, h x List.mem_cons_self,
      ih fun y hy => h y (List.mem_cons_of_mem _ hy)]
    cases hp : p x with
    | true => rw [List.filter_cons_of_pos hp]; rfl
    | false => rw [List.filter_cons_of_neg (by rw [hp]; exact Bool.false_ne_true)]; rfl

variable {D : Database} {ps : List Value} {env : List Binding}

/-- The condition is true or false, not unknown. -/
def Decides (D : Database) (ps : List Value) (env : List Binding) (e : Expr) (b : Bool) : Prop :=
  truth D ps env e = some (some b)

theorem Decides.and {l r : Expr} {a b : Bool} (hl : Decides D ps env l a)
    (hr : Decides D ps env r b) : Decides D ps env (.and l r) (a && b) := by
  rw [Decides, truth, hl, hr]
  exact congrArg some (and3_some a b)

theorem Decides.not {e : Expr} {b : Bool} (h : Decides D ps env e b) :
    Decides D ps env (.not e) (!b) := by
  rw [Decides, truth, h]
  rfl

/-- A comparison of two values that are known. -/
theorem Decides.cmp {o : Op} {l r : Expr} {a b : Value} {c : Bool} (hl : value ps env l = some a)
    (hr : value ps env r = some b) (heval : o.eval a b = some (some c)) :
    Decides D ps env (.cmp o l r) c := by
  rw [Decides, truth, hl, hr, Option.bind_some, Option.bind_some, heval]

theorem Decides.inList {e : Expr} {s : String} {items : List String}
    (he : value ps env e = some (.text s)) :
    Decides D ps env (.inList e items) (s ∈ items) := by
  rw [Decides, truth, he]

/-- A subquery over a table whose rows are the images of `xs`. -/
theorem Decides.exists {h : Head} {cond : Expr} {cols : List String}
    (hcols : D.columns h.table = some cols) (hrows : D.rows h.table = xs.map toRow)
    (hcond : ∀ x ∈ xs, Decides D ps (⟨h.name, cols, toRow x⟩ :: env) cond (p x)) :
    Decides D ps env (.exists h cond) (xs.any p) := by
  have hsel : selectRows (fun r => truth D ps (⟨h.name, cols, r⟩ :: env) cond) (xs.map toRow)
      = some ((xs.filter p).map toRow) := selectRows_map hcond
  rw [Decides, truth, hcols]
  simp only [hrows, hsel, Option.map_some, Option.some.injEq]
  rw [Bool.eq_iff_iff]
  simp [List.any_eq_true]

/-- **Conjunctions.** The truth of a conjunction of decided conditions. -/
theorem Decides.conj {e : Expr} {b : Bool} {κ : Type} {qs : List κ} {g : κ → Expr} {f : κ → Bool}
    (h : Decides D ps env e b) (hs : ∀ q ∈ qs, Decides D ps env (g q) (f q)) :
    Decides D ps env (Sql.conj e (qs.map g)) (b && qs.all f) := by
  induction qs generalizing e b with
  | nil => rwa [List.all_nil, Bool.and_true]
  | cons q qs ih =>
    rw [List.map_cons, Sql.conj, List.all_cons, ← Bool.and_assoc]
    exact ih (h.and (hs q List.mem_cons_self)) fun q' hq' => hs q' (List.mem_cons_of_mem _ hq')

theorem inScope_conj {columns : String → Option (List String)}
    {sc : List (String × List String)} {e : Expr} {es : List Expr}
    (h : e.inScope columns sc) (hs : ∀ e' ∈ es, e'.inScope columns sc) :
    (Sql.conj e es).inScope columns sc := by
  induction es generalizing e with
  | nil => exact h
  | cons e' es ih =>
    refine ih ?_ fun e'' he'' => hs e'' (List.mem_cons_of_mem _ he'')
    rw [Expr.inScope, h, hs e' List.mem_cons_self]
    rfl

theorem params_conj {e : Expr} {es : List Expr} (hs : ∀ e' ∈ es, e'.params = 0) :
    (Sql.conj e es).params = e.params := by
  induction es generalizing e with
  | nil => rfl
  | cons e' es ih =>
    rw [Sql.conj, ih fun e'' he'' => hs e'' (List.mem_cons_of_mem _ he''), Expr.params,
      hs e' List.mem_cons_self]
    exact Nat.max_zero _

/-- The result of a statement whose condition is decided on every row. -/
theorem Stmt.eval_eq {s : Stmt} {c : List String}
    (hcols : D.columns s.head.table = some c) (hrows : D.rows s.head.table = xs.map toRow)
    (hscope : s.inScope D ps.length c)
    (hcond : ∀ x ∈ xs, Decides D ps [⟨s.head.name, c, toRow x⟩] s.cond (p x)) :
    s.eval D ps = some (s.output ((xs.filter p).map toRow)) := by
  have hsel : selectRows (fun r => truth D ps [⟨s.head.name, c, r⟩] s.cond) (xs.map toRow)
      = some ((xs.filter p).map toRow) := selectRows_map hcond
  rw [Stmt.eval, hcols]
  simp only [hscope, if_true, hrows, hsel, Option.map_some]

end Decides

end Sql
