import Owney.Lib.Programs

/-!
# Runs of one program

What a program can come to when nothing disturbs it, over all that the outside decides about its
calls (`Ran`): the calls with their results, the answer, and the state then.

* `ran_ret`, `ran_bind`, `ran_op` — the runs of a program are made of the runs of its parts.
* `Ran.spec` — what is specified of a program holds of each of its runs.
* `Calls` — the calls of a run alone, for what they do to the state (`Ran.calls`).
* `play` — one run, by the choices of the outside (`ran_of_play`).
-/

namespace Programs.Prog

universe u v w x z

variable {O : Type u} {Ret : O → Type v} {α β : Type w} {W : Type x} {C : Type z}

/-- A run of a program. -/
inductive Ran (exec : (o : O) → C → W → Option (Ret o × W)) :
    Prog Ret α → W → List (Call Ret) → α → W → Prop where
  | ret (a : α) (s : W) : Ran exec (.ret a) s [] a s
  | call {o : O} {k : Ret o → Prog Ret α} {r : Ret o} {s s₁ s' : W} {cs : List (Call Ret)} {a : α}
      (c : C) (made : exec o c s = some (r, s₁)) (after : Ran exec (k r) s₁ cs a s') :
      Ran exec (.call o k) s (⟨o, r⟩ :: cs) a s'

variable {exec : (o : O) → C → W → Option (Ret o × W)} {s s' : W} {cs : List (Call Ret)}

@[simp] theorem ran_ret {a b : α} :
    Ran exec (ret b : Prog Ret α) s cs a s' ↔ cs = [] ∧ a = b ∧ s' = s := by
  constructor
  · intro h
    cases h
    exact ⟨rfl, rfl, rfl⟩
  · rintro ⟨rfl, rfl, rfl⟩
    exact .ret _ _

@[simp] theorem ran_pure {a b : α} :
    Ran exec (pure b : Prog Ret α) s cs a s' ↔ cs = [] ∧ a = b ∧ s' = s := ran_ret

/-- The runs of a sequence. -/
theorem ran_bind {p : Prog Ret α} {f : α → Prog Ret β} {b : β} :
    Ran exec (p >>= f) s cs b s' ↔ ∃ cs₁ cs₂ a s₁, cs = cs₁ ++ cs₂ ∧
      Ran exec p s cs₁ a s₁ ∧ Ran exec (f a) s₁ cs₂ b s' := by
  change Ran exec (p.bind f) s cs b s' ↔ _
  induction p generalizing s cs with
  | ret a =>
    constructor
    · exact fun h => ⟨[], cs, a, s, rfl, .ret a s, h⟩
    · rintro ⟨cs₁, cs₂, a', s₁, rfl, hret, h⟩
      obtain ⟨rfl, rfl, rfl⟩ := ran_ret.mp hret
      exact h
  | call o k ih =>
    constructor
    · rintro (_ | ⟨c, hmade, hafter⟩)
      obtain ⟨cs₁, cs₂, a, s₁, rfl, hp, hf⟩ := (ih _).mp hafter
      exact ⟨_ :: cs₁, cs₂, a, s₁, rfl, .call c hmade hp, hf⟩
    · rintro ⟨cs₁, cs₂, a, s₁, rfl, hp, hf⟩
      obtain _ | ⟨c, hmade, hafter⟩ := hp
      exact .call c hmade ((ih _).mpr ⟨_, cs₂, a, s₁, rfl, hafter, hf⟩)

/-- The runs of one call. -/
theorem ran_op {o : O} {r : Ret o} :
    Ran exec (op o) s cs r s' ↔ cs = [⟨o, r⟩] ∧ ∃ c, exec o c s = some (r, s') := by
  constructor
  · rintro (_ | ⟨c, hmade, hafter⟩)
    obtain ⟨rfl, rfl, rfl⟩ := ran_ret.mp hafter
    exact ⟨rfl, c, hmade⟩
  · rintro ⟨rfl, c, hmade⟩
    exact .call c hmade (.ret _ _)

/-- **What is specified holds.** -/
theorem Ran.spec {G : List (Call Ret) → O → Prop} {Q : List (Call Ret) → α → Prop}
    {p : Prog Ret α} {a : α} (h : Ran exec p s cs a s') :
    ∀ {before : List (Call Ret)}, p.Spec G Q before → Q (before ++ cs) a := by
  induction h with
  | ret a s =>
    intro before hspec
    rw [List.append_nil]
    exact hspec
  | call c hmade hafter ih =>
    intro before hspec
    have hq := ih (hspec.2 _)
    rwa [List.append_assoc] at hq

/-! ## The calls of a run -/

/-- Calls that are made one after the other. -/
inductive Calls (exec : (o : O) → C → W → Option (Ret o × W)) : W → List (Call Ret) → W → Prop where
  | nil (s : W) : Calls exec s [] s
  | cons {o : O} {r : Ret o} {s s₁ s' : W} {cs : List (Call Ret)} (c : C)
      (made : exec o c s = some (r, s₁)) (after : Calls exec s₁ cs s') :
      Calls exec s (⟨o, r⟩ :: cs) s'

theorem Ran.calls {p : Prog Ret α} {a : α} (h : Ran exec p s cs a s') : Calls exec s cs s' := by
  induction h with
  | ret a s => exact .nil s
  | call c hmade hafter ih => exact .cons c hmade ih

/-! ## One run -/

/-- The run in which the outside decides so, while there are choices for its calls. -/
def play (exec : (o : O) → C → W → Option (Ret o × W)) :
    Prog Ret α → List C → W → Option (List (Call Ret) × α × W)
  | ret a, _, s => some ([], a, s)
  | call _ _, [], _ => none
  | call o k, c :: choices, s =>
    match exec o c s with
    | none => none
    | some (r, s₁) => ((k r).play exec choices s₁).map fun run => (⟨o, r⟩ :: run.1, run.2)

theorem ran_of_play {p : Prog Ret α} {a : α} (choices : List C)
    (h : p.play exec choices s = some (cs, a, s')) : Ran exec p s cs a s' := by
  induction p generalizing choices s cs with
  | ret b =>
    obtain ⟨rfl, rfl, rfl⟩ : [] = cs ∧ b = a ∧ s = s' := by simpa [play] using h
    exact .ret _ _
  | call o k ih =>
    obtain _ | ⟨c, choices⟩ := choices
    · cases h
    rw [play] at h
    split at h
    · cases h
    · rename_i r s₁ hmade
      obtain ⟨⟨cs', b, t⟩, hrest, hrun⟩ := Option.map_eq_some_iff.mp h
      obtain ⟨rfl, rfl, rfl⟩ : ⟨o, r⟩ :: cs' = cs ∧ b = a ∧ t = s' := by simpa using hrun
      exact .call c hmade (ih _ _ hrest)

end Programs.Prog
