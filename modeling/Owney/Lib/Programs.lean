import Mathlib.Data.List.Induction
import Owney.Lib.Runs

/-!
# Programs that share a state

A server answers each request with a program of its own: it makes calls on a state all
programs share, one call at a time, and between two of its calls any other program may
make any number of theirs.

* `Prog Ret α` — the free monad over calls: an answer, or a call `o` and what follows on
  each of its results in `Ret o`.
* `Sys`, `step` — a pool of programs over one state. A move starts a program or lets one
  program make its next call; `past` has all calls so far, with the states around them.
* `Prog.Spec G Q` — whatever the calls return, each of them is made after calls that meet
  `G`, and the answer after calls that meet `Q`. It is proved by going through the
  program once (`spec_bind`, `spec_call`). `Prog.alone` runs a program that no other one
  disturbs.
* `Past` — what a list of calls must be to be the past of a pool. `run_past` says that the
  past of every interleaving is one; laws about all interleavings are then inductions on
  `Past`, where each step is one call.
-/

namespace Programs

universe u v w x y z

/-! ## Programs -/

/-- A program: an answer, or a call and what follows each of its results. -/
inductive Prog {O : Type u} (Ret : O → Type v) (α : Type w) : Type (max u v w) where
  /-- the answer -/
  | ret (a : α) : Prog Ret α
  /-- one call -/
  | call (o : O) (k : Ret o → Prog Ret α) : Prog Ret α

/-- A call that was made, with its result. -/
structure Call {O : Type u} (Ret : O → Type v) where
  op : O
  res : Ret op

variable {O : Type u} {Ret : O → Type v}

namespace Prog

/-- Go on with the answer. -/
protected def bind {α β : Type w} : Prog Ret α → (α → Prog Ret β) → Prog Ret β
  | ret a, f => f a
  | call o k, f => call o fun r => (k r).bind f

instance : Monad (Prog Ret) where
  pure := ret
  bind := Prog.bind

/-- The program of one call. -/
def op (o : O) : Prog Ret (Ret o) := call o ret

/-- Each call is made after calls that meet `G`, and the answer after calls that meet
`Q`; the list has the calls made so far. -/
def Spec {α : Type w} (G : List (Call Ret) → O → Prop) (Q : List (Call Ret) → α → Prop) :
    Prog Ret α → List (Call Ret) → Prop
  | ret a, cs => Q cs a
  | call o k, cs => G cs o ∧ ∀ r, (k r).Spec G Q (cs ++ [⟨o, r⟩])

section Rules

variable {α β : Type w} {G : List (Call Ret) → O → Prop} {Q : List (Call Ret) → β → Prop}
  {cs : List (Call Ret)}

@[simp] theorem spec_pure {b : β} : (pure b : Prog Ret β).Spec G Q cs ↔ Q cs b := Iff.rfl

@[simp] theorem spec_call {o : O} {k : Ret o → Prog Ret β} :
    (call o k).Spec G Q cs ↔ G cs o ∧ ∀ r, (k r).Spec G Q (cs ++ [⟨o, r⟩]) := Iff.rfl

/-- The rule of sequencing. -/
@[simp] theorem spec_bind {p : Prog Ret α} {f : α → Prog Ret β} :
    (p >>= f).Spec G Q cs ↔ p.Spec G (fun cs' a => (f a).Spec G Q cs') cs := by
  change (p.bind f).Spec G Q cs ↔ _
  induction p generalizing cs with
  | ret a => rfl
  | call o k ih => exact and_congr Iff.rfl (forall_congr' fun r => ih r)

/-- The rule of a condition. -/
theorem spec_ite {c : Prop} [Decidable c] {p q : Prog Ret β} :
    (if c then p else q).Spec G Q cs ↔ (c → p.Spec G Q cs) ∧ (¬c → q.Spec G Q cs) := by
  split
  · rename_i h
    simp [h]
  · rename_i h
    simp [h]

/-- The rule of consequence. -/
theorem Spec.mono {G' : List (Call Ret) → O → Prop} {Q' : List (Call Ret) → β → Prop}
    (hG : ∀ cs o, G cs o → G' cs o) (hQ : ∀ cs b, Q cs b → Q' cs b) {p : Prog Ret β} :
    ∀ {cs}, p.Spec G Q cs → p.Spec G' Q' cs := by
  induction p with
  | ret b => exact fun h => hQ _ _ h
  | call o k ih => exact fun h => ⟨hG _ _ h.1, fun r => ih r (h.2 r)⟩

/-- The rule of sequencing, for a program whose specification is known. What was known of
the calls before it is still known of them after it. -/
theorem Spec.seq {p : Prog Ret α} {f : α → Prog Ret β} {J : List (Call Ret) → α → Prop}
    (hp : p.Spec G J cs)
    (hf : ∀ more a, J (cs ++ more) a → (f a).Spec G Q (cs ++ more)) : (p >>= f).Spec G Q cs := by
  induction p generalizing cs with
  | ret a =>
    have hret := hf [] a
    rw [List.append_nil] at hret
    exact hret hp
  | call o k ih =>
    refine ⟨hp.1, fun r => ih r (hp.2 r) ?_⟩
    intro more a
    rw [List.append_assoc]
    exact hf (⟨o, r⟩ :: more) a

/-- Two specifications at once. -/
theorem Spec.and {G' : List (Call Ret) → O → Prop} {Q' : List (Call Ret) → β → Prop}
    {p : Prog Ret β} : ∀ {cs}, p.Spec G Q cs → p.Spec G' Q' cs →
      p.Spec (fun cs o => G cs o ∧ G' cs o) (fun cs b => Q cs b ∧ Q' cs b) cs := by
  induction p with
  | ret b => exact fun h h' => ⟨h, h'⟩
  | call o k ih => exact fun h h' => ⟨⟨h.1, h'.1⟩, fun r => ih r (h.2 r) (h'.2 r)⟩

/-- When every call meets `N`, the calls at the end are those of the beginning and calls
that meet `N`. -/
theorem Spec.frame {N : O → Prop} {p : Prog Ret β} {cs₀ : List (Call Ret)} :
    ∀ {cs}, p.Spec (fun _ o => N o) (fun _ _ => True) cs → (∀ c ∈ cs, c ∈ cs₀ ∨ N c.op) →
      p.Spec (fun _ _ => True) (fun cs' _ => ∀ c ∈ cs', c ∈ cs₀ ∨ N c.op) cs := by
  induction p with
  | ret b => exact fun _ hcs => hcs
  | call o k ih =>
    refine fun h hcs => ⟨trivial, fun r => ih r (h.2 r) ?_⟩
    intro c hc
    rcases List.mem_append.mp hc with hc | hc
    · exact hcs c hc
    · obtain rfl := List.mem_singleton.mp hc
      exact .inr h.1

end Rules

/-! ### A program alone -/

/-- The answer of a program between whose calls nothing else happens, and the state then. -/
def alone {α : Type w} {W : Type x} (exec : (o : O) → W → Ret o × W) : Prog Ret α → W → α × W
  | ret a, w => (a, w)
  | call o k, w => (k (exec o w).1).alone exec (exec o w).2

section Alone

variable {α β : Type w} {W : Type x} {exec : (o : O) → W → Ret o × W} {w : W}

@[simp] theorem alone_pure {a : α} : (pure a : Prog Ret α).alone exec w = (a, w) := rfl

@[simp] theorem alone_bind {p : Prog Ret α} {f : α → Prog Ret β} :
    (p >>= f).alone exec w = (f (p.alone exec w).1).alone exec (p.alone exec w).2 := by
  change (p.bind f).alone exec w = _
  induction p generalizing w with
  | ret a => rfl
  | call o k ih => exact ih _

end Alone

/-- A program that can fail succeeds alone if its parts do, one after the other. -/
theorem alone_bind_eq_ok {E : Type w} {α β : Type w} {W : Type x}
    {exec : (o : O) → W → Ret o × W} {w w' : W} {p : ExceptT E (Prog Ret) α}
    {f : α → ExceptT E (Prog Ret) β} {b : β} :
    (p >>= f).run.alone exec w = (.ok b, w') ↔
      ∃ a v, p.run.alone exec w = (.ok a, v) ∧ (f a).run.alone exec v = (.ok b, w') := by
  rw [ExceptT.run_bind, alone_bind]
  rcases p.run.alone exec w with ⟨e | a, v⟩
  · simp
  · simp

/-! ### Programs that can fail -/

/-- What is said of a success only. -/
def IfOk {E : Type w} {α : Type w} (J : List (Call Ret) → α → Prop) (cs : List (Call Ret))
    (res : Except E α) : Prop := ∀ a, res = .ok a → J cs a

section Failing

variable {E : Type w} {α β : Type w} {G : List (Call Ret) → O → Prop} {cs : List (Call Ret)}
  {J : List (Call Ret) → α → Prop} {P : List (Call Ret) → β → Prop}

@[simp] theorem ifOk_ok {a : α} : IfOk J cs (.ok a : Except E α) ↔ J cs a :=
  ⟨fun h => h a rfl, fun h _ ha => Except.ok.inj ha ▸ h⟩

@[simp] theorem ifOk_error {e : E} : IfOk J cs (.error e : Except E α) := fun _ h => nomatch h

/-- One part after the other: an error of the first is the error of both. -/
theorem spec_bind_ifOk {p : ExceptT E (Prog Ret) α} {f : α → ExceptT E (Prog Ret) β}
    (hp : p.run.Spec G (IfOk J) cs)
    (hf : ∀ more a, J (cs ++ more) a → (f a).run.Spec G (IfOk P) (cs ++ more)) :
    (p >>= f).run.Spec G (IfOk P) cs := by
  rw [ExceptT.run_bind]
  refine Spec.seq hp ?_
  rintro more (e | a) h
  · exact ifOk_error
  · exact hf more a (ifOk_ok.mp h)

/-- One part after the other, when something is said of the first one's error too. -/
theorem spec_bind_except {R : List (Call Ret) → Except E α → Prop}
    {Q : List (Call Ret) → Except E β → Prop} {p : ExceptT E (Prog Ret) α}
    {f : α → ExceptT E (Prog Ret) β} (hp : p.run.Spec G R cs)
    (hok : ∀ more a, R (cs ++ more) (.ok a) → (f a).run.Spec G Q (cs ++ more))
    (herr : ∀ more e, R (cs ++ more) (.error e) → Q (cs ++ more) (.error e)) :
    (p >>= f).run.Spec G Q cs := by
  rw [ExceptT.run_bind]
  refine Spec.seq hp ?_
  rintro more (e | a) h
  · exact herr more e h
  · exact hok more a h

end Failing

/-! ### Calls that can fail -/

section Asking

variable {E : Type} {Val : O → Type}

/-- One call; its error ends the program. -/
def ask (o : O) : ExceptT E (Prog fun o => Except E (Val o)) (Val o) := ExceptT.mk (Prog.op o)

variable {α : Type} {G : List (Call fun o => Except E (Val o)) → O → Prop}
  {Q : List (Call fun o => Except E (Val o)) → Except E α → Prop}
  {cs : List (Call fun o => Except E (Val o))}

/-- A call, what follows its success, and what is said of its error. -/
theorem spec_ask_bind {o : O} {f : Val o → ExceptT E (Prog fun o => Except E (Val o)) α} :
    (ask o >>= f).run.Spec G Q cs ↔ G cs o ∧
      (∀ v, (f v).run.Spec G Q (cs ++ [⟨o, .ok v⟩])) ∧
        ∀ e, Q (cs ++ [⟨o, .error e⟩]) (.error e) := by
  change (G cs o ∧ ∀ r : Except E (Val o), _) ↔ _
  refine and_congr Iff.rfl ⟨fun h => ⟨fun v => h (.ok v), fun e => h (.error e)⟩, ?_⟩
  rintro ⟨hok, herr⟩ (e | v)
  · exact herr e
  · exact hok v

theorem spec_return {a : α} :
    (pure a : ExceptT E (Prog fun o => Except E (Val o)) α).run.Spec G Q cs ↔ Q cs (.ok a) :=
  Iff.rfl

theorem spec_throw {e : E} :
    (throw e : ExceptT E (Prog fun o => Except E (Val o)) α).run.Spec G Q cs ↔ Q cs (.error e) :=
  Iff.rfl

end Asking

/-- One call. -/
@[simp] theorem alone_op {W : Type x} {exec : (o : O) → W → Ret o × W} {o : O} {w : W} :
    (op o : Prog Ret (Ret o)).alone exec w = exec o w := rfl

end Prog

/-! ## The pool -/

/-- A program on its way: the request it answers, and what is left of it. -/
structure Thread {O : Type u} (Ret : O → Type v) (R : Type y) (α : Type w) where
  req : R
  prog : Prog Ret α

/-- A call that was made: by which program and for which request, what the outside decided
about it, and the states before and after it. -/
structure Event {O : Type u} (Ret : O → Type v) (R : Type y) (C : Type z) (W : Type x) where
  thread : ℕ
  req : R
  call : Call Ret
  choice : C
  before : W
  after : W

/-- The shared state, all programs that were ever started, and their calls, oldest first. -/
structure Sys {O : Type u} (Ret : O → Type v) (R : Type y) (α : Type w) (C : Type z)
    (W : Type x) where
  world : W
  threads : List (Thread Ret R α)
  past : List (Event Ret R C W)

/-- A request comes in, or the `i`-th program makes its next call; `c` has what the
outside world decides about the call. -/
inductive Move (R : Type y) (C : Type z) where
  | start (r : R)
  | call (i : ℕ) (c : C)

variable {R : Type y} {α : Type w} {C : Type z} {W : Type x}

/-- A state in which no program was started. -/
def Sys.init (w : W) : Sys Ret R α C W := ⟨w, [], []⟩

/-- What a move does. A program that gave its answer makes no call, and a call whose
outside decisions are not possible is not made. -/
def step (handler : R → Prog Ret α) (exec : (o : O) → C → W → Option (Ret o × W))
    (s : Sys Ret R α C W) : Move R C → Sys Ret R α C W
  | .start r => { s with threads := s.threads ++ [⟨r, handler r⟩] }
  | .call i c =>
    match s.threads[i]? with
    | none => s
    | some t =>
      match t.prog with
      | .ret _ => s
      | .call o k =>
        match exec o c s.world with
        | none => s
        | some (r, w) =>
          ⟨w, s.threads.set i ⟨t.req, k r⟩, s.past ++ [⟨i, t.req, ⟨o, r⟩, c, s.world, w⟩]⟩

variable {handler : R → Prog Ret α} {exec : (o : O) → C → W → Option (Ret o × W)}

variable (handler exec) in
/-- **One move.** Nothing, a new program, or one call of one program. -/
theorem step_cases (s : Sys Ret R α C W) (m : Move R C) :
    step handler exec s m = s ∨
    (∃ r, m = .start r ∧
      step handler exec s m = { s with threads := s.threads ++ [⟨r, handler r⟩] }) ∨
    ∃ i c t o k r w, m = .call i c ∧ s.threads[i]? = some t ∧ t.prog = .call o k ∧
      exec o c s.world = some (r, w) ∧
      step handler exec s m =
        ⟨w, s.threads.set i ⟨t.req, k r⟩, s.past ++ [⟨i, t.req, ⟨o, r⟩, c, s.world, w⟩]⟩ := by
  cases m with
  | start r => exact .inr (.inl ⟨r, rfl, rfl⟩)
  | call i c =>
    rcases ht : s.threads[i]? with _ | t
    · exact .inl (by rw [step, ht])
    rcases hp : t.prog with a | ⟨o, k⟩
    · exact .inl (by simp only [step, ht, hp])
    rcases he : exec o c s.world with _ | ⟨r, w⟩
    · exact .inl (by simp only [step, ht, hp, he])
    · exact .inr (.inr ⟨i, c, t, o, k, r, w, rfl, ht, hp, he, by simp only [step, ht, hp, he]⟩)

/-- What no call ends, holds of the state after every interleaving. -/
theorem world_invariant {I : W → Prop}
    (hexec : ∀ o c w r w', exec o c w = some (r, w') → I w → I w') (ms : List (Move R C))
    {s : Sys Ret R α C W} (h : I s.world) : I (Runs.run (step handler exec) s ms).world := by
  refine Runs.run_invariant (I := fun s : Sys Ret R α C W => I s.world) (fun s m hs => ?_) ms h
  rcases step_cases handler exec s m with
    hm | ⟨r, -, hm⟩ | ⟨i, c, t, o, k, r, w, -, -, -, he, hm⟩
  · rwa [hm]
  · rwa [hm]
  · rw [hm]
    exact hexec o c s.world r w he hs

/-- What the `i`-th program answered. -/
def Sys.answer (s : Sys Ret R α C W) (i : ℕ) : Option α :=
  match s.threads[i]? with
  | some ⟨_, .ret a⟩ => some a
  | _ => none

/-- **The past of one move.** It has at most one call more. -/
theorem past_step (handler : R → Prog Ret α)
    (exec : (o : O) → C → W → Option (Ret o × W)) (s : Sys Ret R α C W) (m : Move R C) :
    ((step handler exec s m).past = s.past ∧ (step handler exec s m).world = s.world) ∨
      ∃ e, (step handler exec s m).past = s.past ++ [e] ∧
        (step handler exec s m).world = e.after := by
  rcases step_cases handler exec s m with
    hm | ⟨r, -, hm⟩ | ⟨i, c, t, o, k, r, w, -, -, -, -, hm⟩
  · exact .inl ⟨by rw [hm], by rw [hm]⟩
  · exact .inl ⟨by rw [hm], by rw [hm]⟩
  · exact .inr ⟨_, by rw [hm], by rw [hm]⟩

/-- The request of the `i`-th program. -/
def Sys.request (s : Sys Ret R α C W) (i : ℕ) : Option R := (s.threads[i]?).map (·.req)

/-- An answer stays. -/
theorem answer_step {s : Sys Ret R α C W} {m : Move R C} {i : ℕ} {a : α}
    (h : s.answer i = some a) : (step handler exec s m).answer i = some a := by
  have hlt : i < s.threads.length := by
    by_contra hge
    rw [Sys.answer, List.getElem?_eq_none (Nat.not_lt.mp hge)] at h
    cases h
  rcases step_cases handler exec s m with
    hm | ⟨r, -, hm⟩ | ⟨j, c, t, o, k, r, w, -, ht, hp, -, hm⟩
  · rwa [hm]
  · rw [hm, Sys.answer, List.getElem?_append_left hlt]
    exact h
  · have hne : j ≠ i := by
      rintro rfl
      rw [Sys.answer, ht] at h
      obtain ⟨q, p⟩ := t
      obtain rfl : p = .call o k := hp
      cases h
    rw [hm, Sys.answer, List.getElem?_set_ne hne]
    exact h

/-- A program that makes a call has not answered. -/
theorem answer_eq_none {s : Sys Ret R α C W} {i : ℕ} {t : Thread Ret R α} {o : O}
    {k : Ret o → Prog Ret α} (ht : s.threads[i]? = some t) (hp : t.prog = .call o k) :
    s.answer i = none := by
  obtain ⟨q, p⟩ := t
  obtain rfl : p = .call o k := hp
  rw [Sys.answer, ht]

/-- A request stays. -/
theorem request_kept {s : Sys Ret R α C W} {m : Move R C} {i : ℕ} {r : R}
    (h : s.request i = some r) : (step handler exec s m).request i = some r := by
  obtain ⟨t, ht, rfl⟩ := Option.map_eq_some_iff.mp h
  obtain ⟨hlt, -⟩ := List.getElem?_eq_some_iff.mp ht
  rcases step_cases handler exec s m with
    hm | ⟨q, rfl, hm⟩ | ⟨j, c, t', o, k, x, w, -, ht', -, -, hm⟩
  · rwa [hm]
  · rw [hm, Sys.request, List.getElem?_append_left hlt, ht, Option.map_some]
  · rw [hm, Sys.request]
    rcases eq_or_ne j i with rfl | hne
    · obtain rfl := Option.some.inj (ht.symm.trans ht')
      rw [List.getElem?_set_self hlt, Option.map_some]
    · rw [List.getElem?_set_ne hne, ht, Option.map_some]

/-- The request that a program was started for, in every later state. -/
theorem request_started (handler : R → Prog Ret α) (exec : (o : O) → C → W → Option (Ret o × W))
    (s : Sys Ret R α C W) (r : R) (rest : List (Move R C)) :
    (Runs.run (step handler exec) s (.start r :: rest)).request s.threads.length = some r := by
  refine Runs.run_invariant (I := fun s' : Sys Ret R α C W => s'.request s.threads.length = some r)
    (fun _ _ h => request_kept h) rest ?_
  simp [step, Sys.request]

/-- A request came in, or was there before. -/
theorem request_step {s : Sys Ret R α C W} {m : Move R C} {i : ℕ} {r : R}
    (h : (step handler exec s m).request i = some r) : s.request i = some r ∨ m = .start r := by
  rcases step_cases handler exec s m with
    hm | ⟨q, rfl, hm⟩ | ⟨j, c, t, o, k, x, w, -, ht, -, -, hm⟩
  · rw [hm] at h
    exact .inl h
  · rw [hm, Sys.request, List.getElem?_append] at h
    split at h
    · exact .inl h
    · rw [List.getElem?_singleton] at h
      split at h
      · exact .inr (congrArg Move.start (Option.some.inj h))
      · cases h
  · rw [hm, Sys.request, List.getElem?_set] at h
    split at h
    · rename_i hji
      subst hji
      split at h
      · refine .inl ?_
        rw [Sys.request, ht]
        exact h
      · cases h
    · exact .inl h

/-- The requests of a run came in with its moves. -/
theorem request_run {s : Sys Ret R α C W} {ms : List (Move R C)} {i : ℕ} {r : R}
    (h : (Runs.run (step handler exec) s ms).request i = some r) :
    s.request i = some r ∨ .start r ∈ ms := by
  induction ms generalizing s with
  | nil => exact .inl h
  | cons m ms ih =>
    rcases ih h with h | h
    · rcases request_step h with h | rfl
      · exact .inl h
      · exact .inr List.mem_cons_self
    · exact .inr (List.mem_cons_of_mem _ h)

/-! ## Pasts -/

/-- What a split of a list says about its last member. -/
theorem split_last {β : Type u} {l pre post : List β} {a b : β} (h : l ++ [a] = pre ++ b :: post) :
    (post = [] ∧ l = pre ∧ a = b) ∨ ∃ post', post = post' ++ [a] ∧ l = pre ++ b :: post' := by
  rcases List.eq_nil_or_concat post with rfl | ⟨post, c, rfl⟩
  · obtain ⟨rfl, hlast⟩ := List.append_inj' h rfl
    exact .inl ⟨rfl, rfl, by simpa using hlast⟩
  · rw [List.concat_eq_append, ← List.cons_append, ← List.append_assoc] at h
    obtain ⟨rfl, hlast⟩ := List.append_inj' h rfl
    obtain rfl : a = c := by simpa using hlast
    exact .inr ⟨post, List.concat_eq_append, rfl⟩

/-- Two splits of one list: the second member is before the first, is the first, or is after
it. -/
theorem split_cases {β : Type u} {l r l' r' : List β} {a b : β} (h : l ++ a :: r = l' ++ b :: r') :
    b ∈ l ∨ (l' = l ∧ b = a) ∨ ∃ m, l' = l ++ a :: m := by
  rcases List.append_eq_append_iff.mp h with ⟨m, rfl, hm⟩ | ⟨m, rfl, hm⟩
  · cases m with
    | nil => exact .inr (.inl ⟨List.append_nil l, (List.cons.inj hm).1.symm⟩)
    | cons c m =>
      obtain ⟨rfl, -⟩ := List.cons.inj hm
      exact .inr (.inr ⟨m, rfl⟩)
  · cases m with
    | nil => exact .inr (.inl ⟨(List.append_nil l').symm, (List.cons.inj hm).1⟩)
    | cons c m =>
      obtain ⟨rfl, -⟩ := List.cons.inj hm
      exact .inl (by simp)

/-- The past of a part of a run is the beginning of its past. -/
theorem past_run (handler : R → Prog Ret α) (exec : (o : O) → C → W → Option (Ret o × W))
    (s : Sys Ret R α C W) (part rest : List (Move R C)) :
    ∃ more, (Runs.run (step handler exec) s (part ++ rest)).past =
      (Runs.run (step handler exec) s part).past ++ more := by
  rw [Runs.run_append]
  generalize Runs.run (step handler exec) s part = s
  induction rest generalizing s with
  | nil => exact ⟨[], (List.append_nil _).symm⟩
  | cons m rest ih =>
    obtain ⟨more, hmore⟩ := ih (step handler exec s m)
    rw [Runs.run_cons, hmore]
    rcases past_step handler exec s m with ⟨hpast, -⟩ | ⟨e, hpast, -⟩
    · exact ⟨more, by rw [hpast]⟩
    · exact ⟨e :: more, by rw [hpast, List.append_assoc, List.singleton_append]⟩

/-- Every call of a run is the last one of a part of the run. -/
theorem exists_part_of_past {s : Sys Ret R α C W} (hs : s.past = []) (ms : List (Move R C))
    {pre post : List (Event Ret R C W)} {e : Event Ret R C W}
    (h : (Runs.run (step handler exec) s ms).past = pre ++ e :: post) :
    ∃ part rest, ms = part ++ rest ∧ (Runs.run (step handler exec) s part).past = pre ++ [e] ∧
      (Runs.run (step handler exec) s part).world = e.after := by
  induction ms using List.reverseRecOn generalizing post with
  | nil => simp [hs] at h
  | append_singleton ms m ih =>
    have hrun : Runs.run (step handler exec) s (ms ++ [m]) =
        step handler exec (Runs.run (step handler exec) s ms) m := Runs.run_append s ms [m]
    rw [hrun] at h
    rcases past_step handler exec (Runs.run (step handler exec) s ms) m with ⟨hpast, -⟩ | ⟨x, hpast, hworld⟩
    · rw [hpast] at h
      obtain ⟨part, rest, rfl, hpart⟩ := ih h
      exact ⟨part, rest ++ [m], by simp, hpart⟩
    · rcases split_last (hpast.symm.trans h) with ⟨rfl, hpre, rfl⟩ | ⟨post', rfl, hpre⟩
      · exact ⟨ms ++ [m], [], by simp, by rw [hrun, hpast, hpre], by rw [hrun, hworld]⟩
      · obtain ⟨part, rest, rfl, hpart⟩ := ih hpre
        exact ⟨part, rest ++ [m], by simp, hpart⟩

/-- A list, split at one of its members. -/
theorem split_at {β : Type u} {l : List β} {n : ℕ} {a : β} (h : l[n]? = some a) :
    l = l.take n ++ a :: l.drop (n + 1) := by
  obtain ⟨hlt, rfl⟩ := List.getElem?_eq_some_iff.mp h
  rw [← List.drop_eq_getElem_cons hlt, List.take_append_drop]

/-- The calls of one program. -/
def callsOf (i : ℕ) (past : List (Event Ret R C W)) : List (Call Ret) :=
  (past.filter (·.thread = i)).map (·.call)

section CallsOf

variable {past past' : List (Event Ret R C W)} {e : Event Ret R C W} {i : ℕ}

@[simp] theorem callsOf_nil : callsOf i ([] : List (Event Ret R C W)) = [] := rfl

theorem callsOf_append : callsOf i (past ++ past') = callsOf i past ++ callsOf i past' := by
  rw [callsOf, List.filter_append, List.map_append]
  rfl

theorem callsOf_self : callsOf e.thread [e] = [e.call] := by
  rw [callsOf, List.filter_cons_of_pos (by simp)]
  rfl

theorem callsOf_ne (h : e.thread ≠ i) : callsOf i [e] = [] := by
  rw [callsOf, List.filter_cons_of_neg (by simpa using h)]
  rfl

/-- Where a program made one of its calls. -/
theorem split_of_callsOf {cs cs' : List (Call Ret)} {c : Call Ret}
    (h : callsOf i past = cs ++ c :: cs') :
    ∃ pre e post, past = pre ++ e :: post ∧ e.thread = i ∧ e.call = c ∧
      callsOf i pre = cs ∧ callsOf i post = cs' := by
  induction past generalizing cs with
  | nil => simp at h
  | cons x past ih =>
    have hcons : callsOf i (x :: past) = callsOf i [x] ++ callsOf i past :=
      (callsOf_append : callsOf i ([x] ++ past) = _)
    rw [hcons] at h
    by_cases hi : x.thread = i
    · subst hi
      rw [callsOf_self] at h
      rcases cs with _ | ⟨c', cs⟩
      · obtain ⟨hc, hcs⟩ := List.cons.inj h
        exact ⟨[], x, past, rfl, rfl, hc, rfl, hcs⟩
      · obtain ⟨rfl, hcs⟩ := List.cons.inj h
        obtain ⟨pre, e, post, rfl, he, hc, hpre, hpost⟩ := ih hcs
        refine ⟨x :: pre, e, post, rfl, he, hc, ?_, hpost⟩
        rw [show x :: pre = [x] ++ pre from rfl, callsOf_append, callsOf_self, hpre]
        rfl
    · rw [callsOf_ne hi, List.nil_append] at h
      obtain ⟨pre, e, post, rfl, he, hc, hpre, hpost⟩ := ih h
      refine ⟨x :: pre, e, post, rfl, he, hc, ?_, hpost⟩
      rw [show x :: pre = [x] ++ pre from rfl, callsOf_append, callsOf_ne hi, hpre]
      rfl

theorem mem_callsOf {c : Call Ret} :
    c ∈ callsOf i past ↔ ∃ e ∈ past, e.thread = i ∧ e.call = c := by
  simp [callsOf, and_assoc]

end CallsOf

/-- A past that leads from the first state to the second: each call is possible where the
calls before it ended, its program made it after calls that meet `G`, and a program has
one request. -/
inductive Past (exec : (o : O) → C → W → Option (Ret o × W))
    (G : R → List (Call Ret) → O → Prop) (w₀ : W) : List (Event Ret R C W) → W → Prop where
  | nil : Past exec G w₀ [] w₀
  | snoc {past : List (Event Ret R C W)} {e : Event Ret R C W}
      (earlier : Past exec G w₀ past e.before)
      (possible : exec e.call.op e.choice e.before = some (e.call.res, e.after))
      (guard : G e.req (callsOf e.thread past) e.call.op)
      (same : ∀ e' ∈ past, e'.thread = e.thread → e'.req = e.req) :
      Past exec G w₀ (past ++ [e]) e.after

namespace Past

variable {G : R → List (Call Ret) → O → Prop} {w₀ w : W} {past pre post : List (Event Ret R C W)}
  {e : Event Ret R C W}

/-- What was the case when a call was made. -/
structure At (exec : (o : O) → C → W → Option (Ret o × W)) (G : R → List (Call Ret) → O → Prop)
    (w₀ : W) (past : List (Event Ret R C W)) (e : Event Ret R C W) : Prop where
  earlier : Past exec G w₀ past e.before
  possible : exec e.call.op e.choice e.before = some (e.call.res, e.after)
  guard : G e.req (callsOf e.thread past) e.call.op
  same : ∀ e' ∈ past, e'.thread = e.thread → e'.req = e.req

/-- A past can be cut at any of its calls. -/
theorem at_of_split (h : Past exec G w₀ past w) :
    ∀ {pre e post}, past = pre ++ e :: post → At exec G w₀ pre e := by
  induction h with
  | nil =>
    intro pre e post hsplit
    simp at hsplit
  | @snoc past e earlier possible guard same ih =>
    intro pre e' post hsplit
    rcases split_last hsplit with ⟨-, rfl, rfl⟩ | ⟨post, -, rfl⟩
    · exact ⟨earlier, possible, guard, same⟩
    · exact ih rfl

theorem exists_at (h : Past exec G w₀ past w) (he : e ∈ past) :
    ∃ pre post, past = pre ++ e :: post ∧ At exec G w₀ pre e := by
  obtain ⟨pre, post, rfl⟩ := List.append_of_mem he
  exact ⟨pre, post, rfl, h.at_of_split rfl⟩

/-- **Invariant rule.** What holds at the start, and after a call when it held at all times
before. -/
theorem invariant {I : List (Event Ret R C W) → W → Prop} (h₀ : I [] w₀)
    (hstep : ∀ past e, At exec G w₀ past e →
      (∀ pre x post, past = pre ++ x :: post → I pre x.before) → I past e.before →
      I (past ++ [e]) e.after)
    (h : Past exec G w₀ past w) : I past w := by
  have hall : (∀ pre x post, past = pre ++ x :: post → I pre x.before) ∧ I past w := by
    induction h with
    | nil => exact ⟨fun pre x post hsplit => by simp at hsplit, h₀⟩
    | @snoc past e earlier possible guard same ih =>
      refine ⟨?_, hstep past e ⟨earlier, possible, guard, same⟩ ih.1 ih.2⟩
      intro pre x post hsplit
      rcases split_last hsplit with ⟨-, rfl, rfl⟩ | ⟨post, -, hpast⟩
      · exact ih.2
      · exact ih.1 pre x post hpast
  exact hall.2

/-- A relation the calls after `e` respect holds between the state after `e` and the last. -/
theorem rel {ρ : W → W → Prop} (hrefl : ∀ w, ρ w w) (htrans : ∀ {a b c}, ρ a b → ρ b c → ρ a c)
    (h : Past exec G w₀ past w) : ∀ {pre e post}, past = pre ++ e :: post →
      (∀ mid x rest, post = mid ++ x :: rest → At exec G w₀ (pre ++ e :: mid) x →
        ρ x.before x.after) → ρ e.after w := by
  induction h with
  | nil =>
    intro pre e post hsplit
    simp at hsplit
  | @snoc past e earlier possible guard same ih =>
    intro pre e' post hsplit hstep
    rcases split_last hsplit with ⟨-, -, rfl⟩ | ⟨post, rfl, rfl⟩
    · exact hrefl _
    · refine htrans (ih rfl fun mid x rest hx => hstep mid x (rest ++ [e]) (by simp [hx])) ?_
      exact hstep post e [] rfl ⟨earlier, possible, guard, same⟩

/-- What the calls after `e` keep, holds from `e` on. -/
theorem persists {J : W → Prop} (h : Past exec G w₀ past w) (hsplit : past = pre ++ e :: post)
    (hstep : ∀ mid x rest, post = mid ++ x :: rest → At exec G w₀ (pre ++ e :: mid) x →
      J x.before → J x.after) (hJ : J e.after) : J w :=
  h.rel (ρ := fun a b => J a → J b) (fun _ => id) (fun hab hbc ha => hbc (hab ha)) hsplit hstep hJ

/-- An earlier call of the same program, with its time. -/
theorem At.earlier_call (h : At exec G w₀ past e) {c : Call Ret}
    (hc : c ∈ callsOf e.thread past) :
    ∃ e' ∈ past, e'.thread = e.thread ∧ e'.req = e.req ∧ e'.call = c := by
  obtain ⟨e', he', hthread, hcall⟩ := mem_callsOf.mp hc
  exact ⟨e', he', hthread, h.same e' he' hthread, hcall⟩

end Past

/-- Of two different members of a list, one is before the other. -/
theorem before_or_after {β : Type u} {l : List β} {a b : β} (ha : a ∈ l) (hb : b ∈ l)
    (hne : a ≠ b) :
    (∃ pre mid post, l = pre ++ a :: mid ++ b :: post) ∨
      ∃ pre mid post, l = pre ++ b :: mid ++ a :: post := by
  obtain ⟨pre, post, rfl⟩ := List.append_of_mem ha
  rcases List.mem_append.mp hb with hb | hb
  · obtain ⟨pre', mid, rfl⟩ := List.append_of_mem hb
    exact .inr ⟨pre', mid, post, by simp⟩
  · rcases List.mem_cons.mp hb with rfl | hb
    · exact absurd rfl hne
    · obtain ⟨mid, post', rfl⟩ := List.append_of_mem hb
      exact .inl ⟨pre, mid, post', by simp⟩

/-- Every call of the past, with those before it, meets the condition. -/
def Steps {β : Type u} (D : List β → β → Prop) (l : List β) : Prop :=
  ∀ pre e post, l = pre ++ e :: post → D pre e

theorem steps_iff {β : Type u} {D : List β → β → Prop} {l : List β} :
    Steps D l ↔ ∀ n, ∀ h : n < l.length, D (l.take n) l[n] := by
  constructor
  · intro hsteps n hn
    exact hsteps (l.take n) l[n] (l.drop (n + 1)) (by simp)
  · rintro hall pre e post rfl
    simpa using hall pre.length (by simp)

instance Steps.decidable {β : Type u} (D : List β → β → Prop) [∀ pre e, Decidable (D pre e)]
    (l : List β) : Decidable (Steps D l) :=
  decidable_of_iff _ steps_iff.symm

/-- The calls of a prefix of the past meet what those of the past meet. -/
theorem Steps.of_append {β : Type u} {D : List β → β → Prop} {l l' : List β}
    (h : Steps D (l ++ l')) : Steps D l := by
  rintro pre e post rfl
  exact h pre e (post ++ l') (by simp)

/-! ## The past of a pool -/

/-- Every program is where its specification is met, and the past is one. -/
structure Sys.Specified (exec : (o : O) → C → W → Option (Ret o × W))
    (G : R → List (Call Ret) → O → Prop) (Q : R → List (Call Ret) → α → Prop) (w₀ : W)
    (s : Sys Ret R α C W) : Prop where
  past : Past exec G w₀ s.past s.world
  started : ∀ e ∈ s.past, s.request e.thread = some e.req
  spec : ∀ (i : ℕ) (t : Thread Ret R α), s.threads[i]? = some t →
    t.prog.Spec (G t.req) (Q t.req) (callsOf i s.past)

section Specified

variable {G : R → List (Call Ret) → O → Prop} {Q : R → List (Call Ret) → α → Prop} {w₀ : W}
  {s : Sys Ret R α C W}

theorem specified_init : (Sys.init w₀ : Sys Ret R α C W).Specified exec G Q w₀ := by
  refine ⟨.nil, fun e he => (nomatch he), ?_⟩
  intro i t ht
  simp [Sys.init] at ht

/-- A new program starts its specification. -/
theorem Sys.Specified.start (h : s.Specified exec G Q w₀) {r : R}
    (hr : (handler r).Spec (G r) (Q r) []) :
    Sys.Specified exec G Q w₀ { s with threads := s.threads ++ [⟨r, handler r⟩] } := by
  refine ⟨h.past, ?_, ?_⟩
  · intro e he
    obtain ⟨t, ht, hreq⟩ := Option.map_eq_some_iff.mp (h.started e he)
    obtain ⟨hlt, -⟩ := List.getElem?_eq_some_iff.mp ht
    rw [Sys.request, List.getElem?_append_left hlt, ht, Option.map_some, hreq]
  · intro i t ht
    rcases Nat.lt_or_ge i s.threads.length with hlt | hge
    · rw [List.getElem?_append_left hlt] at ht
      exact h.spec i t ht
    · rw [List.getElem?_append_right hge, List.getElem?_singleton] at ht
      split at ht
      · obtain rfl := Option.some.inj ht
        have hnone : callsOf i s.past = [] := by
          rw [List.eq_nil_iff_forall_not_mem]
          intro c hc
          obtain ⟨e, he, rfl, -⟩ := mem_callsOf.mp hc
          obtain ⟨t, ht, -⟩ := Option.map_eq_some_iff.mp (h.started e he)
          exact absurd (List.getElem?_eq_some_iff.mp ht).1 (Nat.not_lt.mpr hge)
        rw [hnone]
        exact hr
      · cases ht

/-- A call goes on with the specification of its program. -/
theorem Sys.Specified.call (h : s.Specified exec G Q w₀) {i : ℕ} {c : C} {t : Thread Ret R α}
    {o : O} {k : Ret o → Prog Ret α} {r : Ret o} {w : W} (ht : s.threads[i]? = some t)
    (hp : t.prog = .call o k) (he : exec o c s.world = some (r, w)) :
    Sys.Specified exec G Q w₀
      ⟨w, s.threads.set i ⟨t.req, k r⟩, s.past ++ [⟨i, t.req, ⟨o, r⟩, c, s.world, w⟩]⟩ := by
  obtain ⟨hlt, -⟩ := List.getElem?_eq_some_iff.mp ht
  have hspec := h.spec i t ht
  rw [hp] at hspec
  have hreq : s.request i = some t.req := by rw [Sys.request, ht, Option.map_some]
  have hsame : ∀ j, (Sys.request ⟨w, s.threads.set i ⟨t.req, k r⟩,
      s.past ++ [⟨i, t.req, ⟨o, r⟩, c, s.world, w⟩]⟩ j : Option R) = s.request j := by
    intro j
    rw [Sys.request]
    by_cases hij : i = j
    · subst hij
      rw [List.getElem?_set_self hlt, Option.map_some, hreq]
    · rw [List.getElem?_set_ne hij]
      rfl
  refine ⟨.snoc (e := ⟨i, t.req, ⟨o, r⟩, c, s.world, w⟩) h.past he hspec.1 ?_, ?_, ?_⟩
  · intro e he' hthread
    have hstarted := h.started e he'
    rw [hthread, hreq] at hstarted
    exact (Option.some.inj hstarted).symm
  · intro e he'
    rw [hsame]
    rcases List.mem_append.mp he' with he' | he'
    · exact h.started e he'
    · obtain rfl := List.mem_singleton.mp he'
      exact hreq
  · intro j t' ht'
    rw [callsOf_append]
    by_cases hij : i = j
    · subst hij
      rw [List.getElem?_set_self hlt] at ht'
      obtain rfl := Option.some.inj ht'
      rw [callsOf_self (e := ⟨i, t.req, ⟨o, r⟩, c, s.world, w⟩)]
      exact hspec.2 r
    · rw [List.getElem?_set_ne hij] at ht'
      rw [callsOf_ne hij, List.append_nil]
      exact h.spec j t' ht'

/-- A move goes on with the specifications. -/
theorem Sys.Specified.move (hs : s.Specified exec G Q w₀)
    (hG : ∀ r, (handler r).Spec (G r) (Q r) []) (m : Move R C) :
    (step handler exec s m).Specified exec G Q w₀ := by
  rcases step_cases handler exec s m with
    hm | ⟨r, -, hm⟩ | ⟨i, c, t, o, k, r, w, -, ht, hp, he, hm⟩
  · rwa [hm]
  · rw [hm]
    exact hs.start (hG r)
  · rw [hm]
    exact hs.call ht hp he

/-- **The past of every interleaving.** From programs that meet their specifications. -/
theorem run_specified (hG : ∀ r, (handler r).Spec (G r) (Q r) []) (ms : List (Move R C))
    (h : s.Specified exec G Q w₀) :
    (Runs.run (step handler exec) s ms).Specified exec G Q w₀ :=
  Runs.run_invariant (I := fun s => Sys.Specified exec G Q w₀ s)
    (fun _ m hs => hs.move hG m) ms h

/-- An answer is given after calls that meet `Q`. -/
theorem Sys.Specified.answered (h : s.Specified exec G Q w₀) {i : ℕ} {a : α}
    (ha : s.answer i = some a) : ∃ r, s.request i = some r ∧ Q r (callsOf i s.past) a := by
  rcases ht : s.threads[i]? with _ | ⟨q, p⟩
  · rw [Sys.answer, ht] at ha
    cases ha
  · rcases p with b | ⟨o, k⟩
    · simp only [Sys.answer, ht, Option.some.injEq] at ha
      subst ha
      exact ⟨q, by rw [Sys.request, ht]; rfl, h.spec i _ ht⟩
    · simp only [Sys.answer, ht] at ha
      cases ha

end Specified

end Programs
