import Mathlib.Data.List.Basic

/-!
# Runs of a step function

A system that takes one step at a time: a type `σ` of states, a type `ω` of
steps (each with everything the outside world chooses for it), and a total
`step : σ → ω → σ`. A step the system refuses returns the state it was given.

* `run` — the state after a list of steps.
* `Meets` — every step of a run meets a condition on the state it starts from.
* `run_invariant` — an invariant kept by every step holds after every run.
* `exists_step_of_run_ne` — what a run changed, one of its steps changed.
-/

namespace Runs

universe u v w

variable {σ : Type u} {ω : Type v} {α : Type w} {step : σ → ω → σ}

/-- The state after the steps of a list, taken in order. -/
def run (step : σ → ω → σ) (s : σ) (ops : List ω) : σ := ops.foldl step s

@[simp] theorem run_nil (s : σ) : run step s [] = s := rfl

@[simp] theorem run_cons (s : σ) (o : ω) (ops : List ω) :
    run step s (o :: ops) = run step (step s o) ops := rfl

theorem run_append (s : σ) (xs ys : List ω) :
    run step s (xs ++ ys) = run step (run step s xs) ys :=
  List.foldl_append

/-- A state that some run from `init` ends in. -/
def Reachable (step : σ → ω → σ) (init s : σ) : Prop := ∃ ops, run step init ops = s

theorem Reachable.init {init : σ} : Reachable step init init := ⟨[], rfl⟩

theorem Reachable.run {init s : σ} (h : Reachable step init s) (ops : List ω) :
    Reachable step init (Runs.run step s ops) := by
  obtain ⟨pre, rfl⟩ := h
  exact ⟨pre ++ ops, run_append init pre ops⟩

theorem Reachable.next {init s : σ} (h : Reachable step init s) (o : ω) :
    Reachable step init (step s o) :=
  h.run [o]

/-! ## Invariants -/

/-- **Invariant rule.** What every step keeps, every run keeps. -/
theorem run_invariant {I : σ → Prop} (hstep : ∀ s o, I s → I (step s o)) :
    ∀ (ops : List ω) {s : σ}, I s → I (run step s ops)
  | [], _, h => h
  | o :: ops, s, h => run_invariant hstep ops (hstep s o h)

theorem Reachable.invariant {I : σ → Prop} {init s : σ} (h : Reachable step init s)
    (h₀ : I init) (hstep : ∀ s o, I s → I (step s o)) : I s := by
  obtain ⟨ops, rfl⟩ := h
  exact run_invariant hstep ops h₀

/-! ## Conditions on the steps of a run -/

/-- Every step of the run meets `C` in the state it is taken from. -/
def Meets (step : σ → ω → σ) (C : σ → ω → Prop) : σ → List ω → Prop
  | _, [] => True
  | s, o :: ops => C s o ∧ Meets step C (step s o) ops

instance Meets.decidable {C : σ → ω → Prop} [∀ s o, Decidable (C s o)] :
    ∀ (ops : List ω) (s : σ), Decidable (Meets step C s ops)
  | [], _ => .isTrue trivial
  | o :: ops, s => @instDecidableAnd _ _ _ (decidable ops (step s o))

theorem Meets.append {C : σ → ω → Prop} :
    ∀ {l m : List ω} {s : σ}, Meets step C s (l ++ m) ↔
      Meets step C s l ∧ Meets step C (run step s l) m
  | [], _, _ => by simp [Meets]
  | _ :: l, _, _ => by
    simp only [List.cons_append, Meets, run_cons, and_assoc]
    rw [Meets.append (l := l)]

/-- Every step meets `C`, stated for the step between any two parts of the run. -/
theorem meets_iff {C : σ → ω → Prop} {s : σ} {ops : List ω} :
    Meets step C s ops ↔
      ∀ pre o post, ops = pre ++ o :: post → C (run step s pre) o := by
  constructor
  · rintro h pre o post rfl
    exact (Meets.append.mp h).2.1
  · intro h
    induction ops generalizing s with
    | nil => trivial
    | cons o ops ih =>
      refine ⟨h [] o ops rfl, ih fun pre o' post he => ?_⟩
      exact h (o :: pre) o' post (by rw [he]; rfl)

/-- Two conditions that agree in every state of the invariant agree on runs. -/
theorem meets_congr {I : σ → Prop} {C D : σ → ω → Prop} (hI : ∀ s o, I s → I (step s o))
    (hCD : ∀ s o, I s → (C s o ↔ D s o)) :
    ∀ {ops : List ω} {s : σ}, I s → (Meets step C s ops ↔ Meets step D s ops)
  | [], _, _ => Iff.rfl
  | o :: _, s, h => and_congr (hCD s o h) (meets_congr hI hCD (hI s o h))

/-- **Invariant rule, conditional form.** What every step meeting `C` keeps, a
run whose steps all meet `C` keeps. -/
theorem run_invariant_of_meets {I : σ → Prop} {C : σ → ω → Prop}
    (hstep : ∀ s o, I s → C s o → I (step s o)) :
    ∀ (ops : List ω) {s : σ}, I s → Meets step C s ops → I (run step s ops)
  | [], _, h, _ => h
  | o :: ops, s, h, hC => run_invariant_of_meets hstep ops (hstep s o h hC.1) hC.2

/-- **Two fates.** If steps meeting `C` keep `A`, another step leads from `A` to `L`, and every
step keeps `L`, then a run from `A` ends in `A` if all its steps meet `C`, and in `L` otherwise. -/
theorem run_fate {I A L : σ → Prop} {C : σ → ω → Prop} (hI : ∀ s o, I s → I (step s o))
    (hA : ∀ s o, I s → A s → C s o → A (step s o))
    (hAL : ∀ s o, I s → A s → ¬C s o → L (step s o)) (hL : ∀ s o, I s → L s → L (step s o)) :
    ∀ (ops : List ω) {s : σ}, I s → A s →
      (Meets step C s ops ∧ A (run step s ops)) ∨ (¬Meets step C s ops ∧ L (run step s ops))
  | [], _, _, h => .inl ⟨trivial, h⟩
  | o :: ops, s, hi, h => by
    by_cases hC : C s o
    · rcases run_fate hI hA hAL hL ops (hI s o hi) (hA s o hi h hC) with ⟨hm, ha⟩ | ⟨hm, hl⟩
      · exact .inl ⟨⟨hC, hm⟩, ha⟩
      · exact .inr ⟨fun hm' => hm hm'.2, hl⟩
    · refine .inr ⟨fun hm => hC hm.1, ?_⟩
      have hstep : ∀ s o, I s ∧ L s → I (step s o) ∧ L (step s o) :=
        fun s o hs => ⟨hI s o hs.1, hL s o hs.1 hs.2⟩
      exact (run_invariant hstep ops ⟨hI s o hi, hAL s o hi h hC⟩).2

/-- A reflexive and transitive relation that every step meeting `C` respects relates
the two ends of a run whose steps all meet `C`, whatever invariant the steps need for it. -/
theorem run_rel_of_meets {I : σ → Prop} {R : σ → σ → Prop} {C : σ → ω → Prop}
    (hI : ∀ s o, I s → C s o → I (step s o)) (hrefl : ∀ s, R s s)
    (htrans : ∀ {s t r}, R s t → R t r → R s r) (hstep : ∀ s o, I s → C s o → R s (step s o)) :
    ∀ (ops : List ω) {s : σ}, I s → Meets step C s ops → R s (run step s ops)
  | [], s, _, _ => hrefl s
  | o :: ops, s, h, hC =>
    htrans (hstep s o h hC.1) (run_rel_of_meets hI hrefl htrans hstep ops (hI s o h hC.1) hC.2)

/-- The same for a relation that every step respects. -/
theorem run_rel {I : σ → Prop} {R : σ → σ → Prop} (hI : ∀ s o, I s → I (step s o))
    (hrefl : ∀ s, R s s) (htrans : ∀ {s t r}, R s t → R t r → R s r)
    (hstep : ∀ s o, I s → R s (step s o)) (ops : List ω) {s : σ} (h : I s) :
    R s (run step s ops) :=
  run_rel_of_meets (C := fun _ _ => True) (fun s o hs _ => hI s o hs) hrefl htrans
    (fun s o hs _ => hstep s o hs) ops h (meets_iff.mpr fun _ _ _ _ => trivial)

/-! ## Observations -/

/-- What a run changed, one of its steps changed. -/
theorem exists_step_of_run_ne (f : σ → α) :
    ∀ {ops : List ω} {s : σ}, f (run step s ops) ≠ f s →
      ∃ pre o post, ops = pre ++ o :: post ∧
        f (step (run step s pre) o) ≠ f (run step s pre)
  | [], _, h => absurd rfl h
  | o :: ops, s, h => by
    by_cases ho : f (step s o) = f s
    · obtain ⟨pre, o', post, rfl, hne⟩ :=
        exists_step_of_run_ne f
          (show f (run step (step s o) ops) ≠ f (step s o) by rw [ho]; exact h)
      exact ⟨o :: pre, o', post, rfl, hne⟩
    · exact ⟨[], o, ops, rfl, ho⟩

end Runs
