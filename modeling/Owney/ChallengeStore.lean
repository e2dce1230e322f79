import Mathlib.Algebra.Order.Ring.Int
import Owney.Lib.Runs

/-!
# The challenge store

`ChallengeStore` keeps data under a key until an instant of the clock. It is one map
behind a lock, so each of its calls is a function of the map and the time. Three places
look at the time: `peek` and `retrieve_challenge` let an entry through at the very instant
it expires, `cleanup_expired` drops it then.

`Gone` is what the first two make of an entry that is missing or past its time, and
`gone_run` says it lasts: as long as the clock does not go back, only storing under the
same key brings an entry back.
-/

namespace Owney

universe u

variable {δ : Type u}

/-! ## The map -/

/-- `ChallengeEntry`, with its key. Instants are nanoseconds. -/
structure ChallengeEntry (δ : Type u) where
  key : String
  data : δ
  expiresAt : ℤ
  deriving DecidableEq, Repr

/-- The map; a key has one entry. -/
abbrev ChallengeStore (δ : Type u) : Type u := List (ChallengeEntry δ)

namespace ChallengeStore

/-- `store_keyed`: insert, in place of what the key had. -/
def storeKeyed (now : ℤ) (key : String) (data : δ) (ttl : ℤ) (entries : ChallengeStore δ) :
    ChallengeStore δ :=
  entries.filter (·.key ≠ key) ++ [⟨key, data, now + ttl⟩]

/-- `HashMap::remove`. -/
def remove (id : String) (entries : ChallengeStore δ) : ChallengeStore δ :=
  entries.filter (·.key ≠ id)

/-- `peek`: read, and evict what has expired. -/
def peek (now : ℤ) (id : String) (entries : ChallengeStore δ) : Option δ × ChallengeStore δ :=
  match entries.find? (·.key = id) with
  | some entry => if now ≤ entry.expiresAt then (some entry.data, entries) else
    (none, entries.remove id)
  | none => (none, entries)

/-- `retrieve_challenge`: read and consume. -/
def retrieveChallenge (now : ℤ) (id : String) (entries : ChallengeStore δ) :
    Except String δ × ChallengeStore δ :=
  match entries.find? (·.key = id) with
  | some entry =>
    (if entry.expiresAt < now then .error "Challenge expired" else .ok entry.data,
      entries.remove id)
  | none => (.error "Challenge not found", entries)

/-- `cleanup_expired`. -/
def cleanupExpired (now : ℤ) (entries : ChallengeStore δ) : ChallengeStore δ :=
  entries.filter (now < ·.expiresAt)

/-! ### What the calls leave -/

variable {now : ℤ} {id : String} {entries : ChallengeStore δ} {e : ChallengeEntry δ}

theorem mem_storeKeyed {key : String} {data : δ} {ttl : ℤ} :
    e ∈ entries.storeKeyed now key data ttl ↔
      (e ∈ entries ∧ e.key ≠ key) ∨ e = ⟨key, data, now + ttl⟩ := by
  simp [storeKeyed]

theorem mem_remove : e ∈ entries.remove id ↔ e ∈ entries ∧ e.key ≠ id := by
  simp [remove]

/-- What `peek` returns was there, and in time. -/
theorem peek_eq_some {data : δ} (h : (entries.peek now id).1 = some data) :
    ∃ e ∈ entries, e.key = id ∧ e.data = data ∧ now ≤ e.expiresAt := by
  rw [peek] at h
  rcases hfind : entries.find? (·.key = id) with _ | e
  · rw [hfind] at h
    cases h
  · simp only [hfind] at h
    split at h
    · rename_i hle
      have hkey : e.key = id := by simpa using List.find?_some hfind
      exact ⟨e, List.mem_of_find?_eq_some hfind, hkey, Option.some.inj h, hle⟩
    · cases h

theorem mem_of_mem_peek (h : e ∈ (entries.peek now id).2) : e ∈ entries := by
  rw [peek] at h
  split at h
  · split at h
    · exact h
    · exact (mem_remove.mp h).1
  · exact h

/-- What `retrieve_challenge` returns was there, and in time. -/
theorem retrieveChallenge_eq_ok {data : δ} (h : (entries.retrieveChallenge now id).1 = .ok data) :
    ∃ e ∈ entries, e.key = id ∧ e.data = data ∧ now ≤ e.expiresAt := by
  rw [retrieveChallenge] at h
  rcases hfind : entries.find? (·.key = id) with _ | e
  · rw [hfind] at h
    cases h
  · simp only [hfind] at h
    split at h
    · cases h
    · rename_i hlt
      have hkey : e.key = id := by simpa using List.find?_some hfind
      exact ⟨e, List.mem_of_find?_eq_some hfind, hkey, Except.ok.inj h, not_lt.mp hlt⟩

/-- After `retrieve_challenge` the key is free, whatever it returned. -/
theorem mem_retrieveChallenge :
    e ∈ (entries.retrieveChallenge now id).2 ↔ e ∈ entries ∧ e.key ≠ id := by
  rcases hfind : entries.find? (·.key = id) with _ | e'
  · simp only [retrieveChallenge, hfind]
    refine ⟨fun h => ⟨h, fun hkey => ?_⟩, fun h => h.1⟩
    exact List.find?_eq_none.mp hfind e h (decide_eq_true hkey)
  · simp only [retrieveChallenge, hfind]
    exact mem_remove

theorem mem_cleanupExpired : e ∈ entries.cleanupExpired now ↔ e ∈ entries ∧ now < e.expiresAt := by
  simp [cleanupExpired]

end ChallengeStore

/-! ## Runs of the store -/

/-- One call on the store, or the clock. The keys of `store_with_ttl`, `store_challenge`
and `store_pairing_code` are drawn, so each of them is a `store` under some key. -/
inductive StoreOp (δ : Type u) where
  | tick (now : ℤ)
  | store (key : String) (data : δ) (ttl : ℤ)
  | peek (id : String)
  /-- `retrieve_challenge`, or `retrieve_pairing_code`, which does the same to the map -/
  | retrieve (id : String)
  | cleanup

/-- The clock and the map. -/
structure StoreState (δ : Type u) where
  now : ℤ
  entries : ChallengeStore δ

/-- What a call does. -/
def storeStep (s : StoreState δ) : StoreOp δ → StoreState δ
  | .tick now => { s with now := now }
  | .store key data ttl => { s with entries := s.entries.storeKeyed s.now key data ttl }
  | .peek id => { s with entries := (s.entries.peek s.now id).2 }
  | .retrieve id => { s with entries := (s.entries.retrieveChallenge s.now id).2 }
  | .cleanup => { s with entries := s.entries.cleanupExpired s.now }

/-- The clock does not go back, and nothing is stored under the key. -/
def StoreOp.Keeps (id : String) (s : StoreState δ) : StoreOp δ → Prop
  | .tick now => s.now ≤ now
  | .store key _ _ => key ≠ id
  | _ => True

/-- No entry under the key is in time. -/
def StoreState.Gone (s : StoreState δ) (id : String) : Prop :=
  ∀ e ∈ s.entries, e.key = id → e.expiresAt < s.now

namespace StoreState

variable {s : StoreState δ} {id : String}

/-- A consumed entry is gone. -/
theorem gone_retrieve (s : StoreState δ) (id : String) :
    (storeStep s (.retrieve id)).Gone id := fun _ he hkey =>
  absurd hkey (ChallengeStore.mem_retrieveChallenge.mp he).2

/-- Nothing that is gone is returned. -/
theorem Gone.not_returned (h : s.Gone id) :
    (s.entries.peek s.now id).1 = none ∧
      ∀ data, (s.entries.retrieveChallenge s.now id).1 ≠ .ok data := by
  constructor
  · rw [Option.eq_none_iff_forall_ne_some]
    intro data hdata
    obtain ⟨e, he, hkey, -, hle⟩ := ChallengeStore.peek_eq_some hdata
    exact absurd hle (not_le.mpr (h e he hkey))
  · intro data hdata
    obtain ⟨e, he, hkey, -, hle⟩ := ChallengeStore.retrieveChallenge_eq_ok hdata
    exact absurd hle (not_le.mpr (h e he hkey))

theorem Gone.step (h : s.Gone id) {o : StoreOp δ} (ho : o.Keeps id s) :
    (storeStep s o).Gone id := by
  intro e he hkey
  cases o with
  | tick now => exact lt_of_lt_of_le (h e he hkey) ho
  | store key data ttl =>
    rcases ChallengeStore.mem_storeKeyed.mp he with ⟨hmem, -⟩ | rfl
    · exact h e hmem hkey
    · exact absurd hkey ho
  | peek id' => exact h e (ChallengeStore.mem_of_mem_peek he) hkey
  | retrieve id' => exact h e (ChallengeStore.mem_retrieveChallenge.mp he).1 hkey
  | cleanup => exact h e (ChallengeStore.mem_cleanupExpired.mp he).1 hkey

/-- **Gone stays gone**, until the key is stored anew. -/
theorem gone_run {ops : List (StoreOp δ)} (h : s.Gone id)
    (hops : Runs.Meets storeStep (fun s o => o.Keeps id s) s ops) :
    (Runs.run storeStep s ops).Gone id :=
  Runs.run_invariant_of_meets (I := fun s => s.Gone id) (fun _ _ h ho => h.step ho) ops h hops

end StoreState

end Owney
