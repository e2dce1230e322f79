import Owney.Ids

/-!
# Storage calls

All access to SQLite goes through one writer thread (`Db::call`), so a call is
a function of the database that no other call interleaves with. Inside a call
a `Transaction` runs its statements one by one; each of them can fail (`Io`),
and a `Transaction` that is dropped without `commit` rolls back.

`Tx` is that body as a state monad with failure, and `transaction` the call
around it: on success the new database, on any error the old one.
-/

namespace Owney

universe u v w

/-- `StorageError`, with the texts the code puts into it. -/
inductive StorageError where
  | io
  | sqlite
  | database (msg : String)
  | crypto (msg : String)
  | corrupt (msg : String)
  | badInput (msg : String)
  | blobNotFound (id : BlobId)
  | accountNotFound
  | notAuthorized
  | conflict (msg : String)
  | closed
  | writerPanicked (msg : String)
  deriving DecidableEq, Repr

/-- Whether the `n`-th SQL statement of a call succeeds. `false` stands for every
failure SQLite can report there: I/O, a full disk, a corrupt file. -/
abbrev Io : Type := ℕ → Bool

/-- Every statement succeeds. -/
def Io.ok : Io := fun _ => true

/-- The body of a transaction over a database `σ`. -/
def Tx (σ : Type u) (α : Type v) : Type (max u v) := σ → Except StorageError (α × σ)

namespace Tx

variable {σ : Type u} {α β : Type u}

/-- Return without touching the database. -/
protected def pure (a : α) : Tx σ α := fun s => .ok (a, s)

/-- Sequencing; an error ends the body. -/
protected def bind (x : Tx σ α) (f : α → Tx σ β) : Tx σ β := fun s =>
  match x s with
  | .ok (a, s') => f a s'
  | .error e => .error e

instance : Monad (Tx σ) where
  pure := Tx.pure
  bind := Tx.bind

/-- `return Err(e)`. -/
def throw (e : StorageError) : Tx σ α := fun _ => .error e

/-- The database as it is. -/
def get : Tx σ σ := fun s => .ok (s, s)

/-- A statement that reads. -/
def query (io : Io) (n : ℕ) (f : σ → α) : Tx σ α := fun s =>
  if io n then .ok (f s, s) else .error .sqlite

/-- A statement that writes. -/
def exec (io : Io) (n : ℕ) (f : σ → σ) : Tx σ PUnit := fun s =>
  if io n then .ok (⟨⟩, f s) else .error .sqlite

/-- Go on only if the condition holds. -/
def require (c : Prop) [Decidable c] (e : StorageError) : Tx σ PUnit :=
  if c then Tx.pure ⟨⟩ else throw e

/-- The value, if there is one (`.optional()?.ok_or(e)?`). -/
def okOr (o : Option α) (e : StorageError) : Tx σ α :=
  match o with
  | some a => Tx.pure a
  | none => throw e

/-! ### Inversion

What a successful body did, one lemma for each way to build it. -/

variable {s s' : σ}

@[simp] theorem pure_eq_ok {a b : α} :
    (pure a : Tx σ α) s = .ok (b, s') ↔ a = b ∧ s = s' := by
  change Except.ok (a, s) = Except.ok (b, s') ↔ _
  rw [Except.ok.injEq, Prod.mk.injEq]

@[simp] theorem bind_eq_ok {x : Tx σ α} {f : α → Tx σ β} {b : β} :
    (x >>= f) s = .ok (b, s') ↔ ∃ a t, x s = .ok (a, t) ∧ f a t = .ok (b, s') := by
  change Tx.bind x f s = _ ↔ _
  unfold Tx.bind
  rcases x s with e | ⟨a, t⟩
  · simp
  · simp

@[simp] theorem throw_eq_ok {e : StorageError} {a : α} :
    (throw e : Tx σ α) s = .ok (a, s') ↔ False := by
  simp [throw]

@[simp] theorem get_eq_ok {t : σ} : (get : Tx σ σ) s = .ok (t, s') ↔ s = t ∧ s = s' := by
  unfold get
  simp

@[simp] theorem query_eq_ok {io : Io} {n : ℕ} {f : σ → α} {a : α} :
    query io n f s = .ok (a, s') ↔ io n ∧ f s = a ∧ s = s' := by
  unfold query
  split <;> simp_all

@[simp] theorem exec_eq_ok {io : Io} {n : ℕ} {f : σ → σ} {a : PUnit} :
    exec io n f s = .ok (a, s') ↔ io n ∧ f s = s' := by
  unfold exec
  split <;> simp_all

@[simp] theorem require_eq_ok {c : Prop} [Decidable c] {e : StorageError} {a : PUnit} :
    (require c e : Tx σ PUnit) s = .ok (a, s') ↔ c ∧ s = s' := by
  unfold require
  by_cases hc : c
  · rw [if_pos hc]
    change Except.ok (_, s) = Except.ok (a, s') ↔ _
    simp [hc]
  · rw [if_neg hc]
    simp [throw, hc]

@[simp] theorem okOr_eq_ok {o : Option α} {e : StorageError} {a : α} :
    (okOr o e : Tx σ α) s = .ok (a, s') ↔ o = some a ∧ s = s' := by
  cases o with
  | none => simp [okOr]
  | some b =>
    change Except.ok (b, s) = Except.ok (a, s') ↔ _
    simp

/-! ### Errors

Where the error of a failed body came from. -/

@[simp] theorem pure_eq_error {a : α} {e : StorageError} :
    (pure a : Tx σ α) s = .error e ↔ False := by
  change Except.ok (a, s) = .error e ↔ _
  simp

@[simp] theorem bind_eq_error {x : Tx σ α} {f : α → Tx σ β} {e : StorageError} :
    (x >>= f) s = .error e ↔ x s = .error e ∨ ∃ a t, x s = .ok (a, t) ∧ f a t = .error e := by
  change Tx.bind x f s = _ ↔ _
  unfold Tx.bind
  rcases x s with e' | ⟨a, t⟩
  · simp
  · simp

@[simp] theorem get_eq_error {e : StorageError} : (get : Tx σ σ) s = .error e ↔ False := by
  simp [get]

@[simp] theorem query_eq_error {io : Io} {n : ℕ} {f : σ → α} {e : StorageError} :
    query io n f s = .error e ↔ ¬io n ∧ .sqlite = e := by
  unfold query
  split <;> simp_all

@[simp] theorem exec_eq_error {io : Io} {n : ℕ} {f : σ → σ} {e : StorageError} :
    exec io n f s = .error e ↔ ¬io n ∧ .sqlite = e := by
  unfold exec
  split <;> simp_all

@[simp] theorem require_eq_error {c : Prop} [Decidable c] {e e' : StorageError} :
    (require c e : Tx σ PUnit) s = .error e' ↔ ¬c ∧ e = e' := by
  unfold require
  by_cases hc : c
  · rw [if_pos hc]
    change Except.ok (_, s) = .error e' ↔ _
    simp [hc]
  · rw [if_neg hc]
    simp [throw, hc]

@[simp] theorem okOr_eq_error {o : Option α} {e e' : StorageError} :
    (okOr o e : Tx σ α) s = .error e' ↔ o = none ∧ e = e' := by
  cases o with
  | none => simp [okOr, throw]
  | some b =>
    change Except.ok (b, s) = .error e' ↔ _
    simp

end Tx

/-! ## The call -/

section Call

variable {σ α : Type u}

/-- One call: `commit` keeps what a successful body wrote, an error drops the
transaction and leaves the database as it was. -/
def transaction (body : Tx σ α) (s : σ) : Except StorageError α × σ :=
  match body s with
  | .ok (a, s') => (.ok a, s')
  | .error e => (.error e, s)

theorem transaction_eq_ok {body : Tx σ α} {s s' : σ} {a : α} :
    transaction body s = (.ok a, s') ↔ body s = .ok (a, s') := by
  unfold transaction
  rcases body s with e | ⟨b, t⟩ <;> simp

/-- **Atomicity.** A call that returns an error leaves the database unchanged. -/
theorem transaction_of_error {body : Tx σ α} {s : σ} {e : StorageError}
    (h : (transaction body s).1 = .error e) : (transaction body s).2 = s := by
  rcases hb : body s with e' | ⟨b, t⟩
  · rw [transaction, hb]
  · rw [transaction, hb] at h
    cases h

/-- A call either fails without effect or its body succeeded. -/
theorem transaction_cases (body : Tx σ α) (s : σ) :
    (∃ e, transaction body s = (.error e, s)) ∨
      ∃ a s', body s = .ok (a, s') ∧ transaction body s = (.ok a, s') := by
  rcases h : body s with e | ⟨a, s'⟩
  · exact Or.inl ⟨e, by rw [transaction, h]⟩
  · exact Or.inr ⟨a, s', rfl, by rw [transaction, h]⟩

end Call

end Owney
