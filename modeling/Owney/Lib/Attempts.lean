import Mathlib.Algebra.BigOperators.Group.List.Basic

/-!
# Attempts

A procedure that makes several atomic calls on a shared state and can give up between two
of them. Unlike a transaction it has no way back: what its calls did stays done. Others
may change the state between two of its calls.

* `Effect` — one call of the procedure, as the states around it.
* `Attempt σ ε α` — from a state, the outcome and the effects of all calls made, in order.
* `ok_bind`, `error_bind` — what a sequence did, by what its parts did.
* `Each` — what every call of a procedure does.
* `total` — a quantity added up over the effects. Only the attempt's own calls count, so it
  says what the attempt did whatever others did meanwhile.
-/

namespace Attempts

universe u v w

/-- One call: the state it found and the state it left. -/
structure Effect (σ : Type u) where
  before : σ
  after : σ

/-- The state after some effects that started from `s`. -/
def last {σ : Type u} (s : σ) (effects : List (Effect σ)) : σ :=
  (effects.getLast?.map (·.after)).getD s

@[simp] theorem last_nil {σ : Type u} (s : σ) : last s [] = s := rfl

/-- A procedure of calls on `σ`, with errors `ε`. -/
def Attempt (σ : Type u) (ε : Type v) (α : Type w) : Type (max u v w) :=
  σ → Except ε α × List (Effect σ)

namespace Attempt

variable {σ : Type u} {ε : Type v} {α β : Type w}

/-- Answer without a call. -/
protected def pure (a : α) : Attempt σ ε α := fun _ => (.ok a, [])

/-- One part after the other; an error ends the attempt, with what was done so far. -/
protected def bind (x : Attempt σ ε α) (f : α → Attempt σ ε β) : Attempt σ ε β := fun s =>
  match x s with
  | (.error e, effects) => (.error e, effects)
  | (.ok a, effects) => ((f a (last s effects)).1, effects ++ (f a (last s effects)).2)

instance : Monad (Attempt σ ε) where
  pure := Attempt.pure
  bind := Attempt.bind

/-- Give up. -/
def throw (e : ε) : Attempt σ ε α := fun _ => (.error e, [])

/-- An outcome that is there without a call. -/
def ofExcept (x : Except ε α) : Attempt σ ε α := fun _ => (x, [])

/-- One atomic call, after what `others` did. -/
def call (others : σ → σ) (body : σ → Except ε α × σ) : Attempt σ ε α := fun s =>
  ((body (others s)).1, [⟨others s, (body (others s)).2⟩])

/-- The same attempt, whose error does not matter (`let _ = ..`). -/
def ignore (x : Attempt σ ε α) : Attempt σ ε PUnit := fun s => (.ok ⟨⟩, (x s).2)

variable {s : σ} {effects : List (Effect σ)} {a b : α} {e : ε}

@[simp] theorem ok_pure :
    (pure a : Attempt σ ε α) s = (.ok b, effects) ↔ a = b ∧ effects = [] := by
  change (Except.ok a, []) = (Except.ok b, effects) ↔ _
  simp [eq_comm]

@[simp] theorem error_pure :
    (pure a : Attempt σ ε α) s = (.error e, effects) ↔ False := by
  change (Except.ok a, []) = (Except.error e, effects) ↔ _
  simp

@[simp] theorem ofExcept_eq {x y : Except ε α} :
    (ofExcept x : Attempt σ ε α) s = (y, effects) ↔ x = y ∧ effects = [] := by
  simp [ofExcept, eq_comm]

theorem bind_of_ok {x : Attempt σ ε α} (f : α → Attempt σ ε β) (h : x s = (.ok a, effects)) :
    (x >>= f) s = ((f a (last s effects)).1, effects ++ (f a (last s effects)).2) := by
  change Attempt.bind x f s = _
  simp [Attempt.bind, h]

theorem bind_of_error {x : Attempt σ ε α} (f : α → Attempt σ ε β)
    (h : x s = (.error e, effects)) : (x >>= f) s = (.error e, effects) := by
  change Attempt.bind x f s = _
  simp [Attempt.bind, h]

/-- A sequence answers if both parts do. -/
theorem ok_bind {x : Attempt σ ε α} {f : α → Attempt σ ε β} {c : β} :
    (x >>= f) s = (.ok c, effects) ↔
      ∃ a l l', x s = (.ok a, l) ∧ f a (last s l) = (.ok c, l') ∧ effects = l ++ l' := by
  constructor
  · intro h
    rcases hx : x s with ⟨e | a, l⟩
    · simp [bind_of_error f hx] at h
    · rw [bind_of_ok f hx, Prod.mk.injEq] at h
      exact ⟨a, l, _, rfl, Prod.ext h.1 rfl, h.2.symm⟩
  · rintro ⟨a, l, l', hx, hf, rfl⟩
    rw [bind_of_ok f hx, hf]

/-- A sequence fails in its first part or in its second. -/
theorem error_bind {x : Attempt σ ε α} {f : α → Attempt σ ε β} :
    (x >>= f) s = (.error e, effects) ↔
      x s = (.error e, effects) ∨
        ∃ a l l', x s = (.ok a, l) ∧ f a (last s l) = (.error e, l') ∧ effects = l ++ l' := by
  constructor
  · intro h
    rcases hx : x s with ⟨e' | a, l⟩
    · rw [bind_of_error f hx, Prod.mk.injEq, Except.error.injEq] at h
      exact .inl (by rw [h.1, h.2])
    · rw [bind_of_ok f hx, Prod.mk.injEq] at h
      exact .inr ⟨a, l, _, rfl, Prod.ext h.1 rfl, h.2.symm⟩
  · rintro (hx | ⟨a, l, l', hx, hf, rfl⟩)
    · exact bind_of_error f hx
    · rw [bind_of_ok f hx, hf]

/-! ## What each call does -/

/-- Every effect of the attempt, from any state, meets `P`. -/
def Each (P : Effect σ → Prop) (x : Attempt σ ε α) : Prop := ∀ s, ∀ c ∈ (x s).2, P c

variable {P : Effect σ → Prop}

theorem each_pure (a : α) : Each P (pure a : Attempt σ ε α) :=
  fun _ _ hc => absurd hc List.not_mem_nil

theorem each_ofExcept (x : Except ε α) : Each P (ofExcept x : Attempt σ ε α) :=
  fun _ _ hc => absurd hc List.not_mem_nil

theorem each_call {others : σ → σ} {body : σ → Except ε α × σ} (h : ∀ s, P ⟨s, (body s).2⟩) :
    Each P (call others body : Attempt σ ε α) := by
  intro s c hc
  rw [List.mem_singleton.mp hc]
  exact h (others s)

theorem Each.ignore {x : Attempt σ ε α} (h : Each P x) : Each P x.ignore := h

/-- A sequence of which each part meets `P`. -/
theorem Each.bind {x : Attempt σ ε α} {f : α → Attempt σ ε β} (hx : Each P x)
    (hf : ∀ a, Each P (f a)) : Each P (x >>= f) := by
  intro s c hc
  rcases h : x s with ⟨e | a, l⟩
  · rw [bind_of_error f h] at hc
    exact hx s c (by rwa [h])
  · rw [bind_of_ok f h] at hc
    rcases List.mem_append.mp hc with hc | hc
    · exact hx s c (by rwa [h])
    · exact hf a _ c hc

end Attempt

/-! ## Totals -/

section Total

variable {σ : Type u} {A : Type v} [AddCommGroup A]

/-- What the effects added to a quantity. -/
def total (f : σ → A) (effects : List (Effect σ)) : A :=
  (effects.map fun c => f c.after - f c.before).sum

@[simp] theorem total_nil (f : σ → A) : total f [] = 0 := rfl

@[simp] theorem total_cons (f : σ → A) (c : Effect σ) (effects : List (Effect σ)) :
    total f (c :: effects) = f c.after - f c.before + total f effects := by
  simp [total]

@[simp] theorem total_append (f : σ → A) (l l' : List (Effect σ)) :
    total f (l ++ l') = total f l + total f l' := by
  simp [total]

/-- Effects that leave a quantity alone add nothing to it. -/
theorem total_of_same {f : σ → A} {effects : List (Effect σ)}
    (h : ∀ c ∈ effects, f c.after = f c.before) : total f effects = 0 := by
  refine List.sum_eq_zero fun x hx => ?_
  obtain ⟨c, hc, rfl⟩ := List.mem_map.mp hx
  rw [h c hc, sub_self]

end Total

end Attempts
