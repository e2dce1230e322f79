import Owney.Lib.CharLists
import Mathlib.Data.List.Basic

/-!
# Scanners

A scanner is given its input piece by piece. Each piece either leaves it wanting more, or
yields a result and leaves a rest of the piece, which is shorter. `ChunkFree` says that
only the input matters, not its pieces; a scanner that looks at one symbol at a time
(`Scanner.ofStep`) is of that kind.
-/

namespace Scanning

variable {σ ρ α : Type}

/-- What a scanner makes of a piece of input. -/
inductive Scan (σ ρ α : Type) where
  | more (state : σ)
  | done (result : ρ) (state : σ) (rest : List α)

/-- The same with more input behind it. -/
def Scan.then (scan : σ → List α → Scan σ ρ α) (more : List α) : Scan σ ρ α → Scan σ ρ α
  | .more s => scan s more
  | .done result s rest => .done result s (rest ++ more)

/-- A scanner. -/
structure Scanner (σ ρ α : Type) where
  init : σ
  scan : σ → List α → Scan σ ρ α
  progress : ∀ {s input result s' rest}, scan s input = .done result s' rest →
    rest.length < input.length

namespace Scanner

/-- Only the input matters, not its pieces. -/
def ChunkFree (S : Scanner σ ρ α) : Prop :=
  ∀ s input more, S.scan s (input ++ more) = (S.scan s input).then S.scan more

section OfStep

variable (step : σ → α → σ × Option ρ)

/-- Symbol by symbol, up to the first result. -/
def scanSteps (s : σ) : List α → Scan σ ρ α
  | [] => .more s
  | a :: rest =>
    match step s a with
    | (s, none) => scanSteps s rest
    | (s, some result) => .done result s rest

theorem scanSteps_progress {s s' : σ} {input rest : List α} {result : ρ}
    (h : scanSteps step s input = .done result s' rest) : rest.length < input.length := by
  induction input generalizing s with
  | nil => cases h
  | cons a input ih =>
    rw [scanSteps] at h
    split at h
    · exact Nat.lt_succ_of_lt (ih h)
    · cases h
      exact Nat.lt_succ_self _

/-- The scanner that takes one step for each symbol. -/
def ofStep (init : σ) : Scanner σ ρ α where
  init := init
  scan := scanSteps step
  progress := scanSteps_progress step

/-- **Steps do not see the pieces.** -/
theorem ofStep_chunkFree (init : σ) : (ofStep step init).ChunkFree := by
  intro s input more
  change scanSteps step s (input ++ more) = (scanSteps step s input).then (scanSteps step) more
  induction input generalizing s with
  | nil => rfl
  | cons a input ih =>
    rw [List.cons_append, scanSteps, scanSteps]
    split
    · exact ih _
    · rfl

end OfStep

end Scanner

end Scanning
