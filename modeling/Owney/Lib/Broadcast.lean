import Mathlib
import Owney.Lib.Runs

/-!
# A broadcast channel

A channel that keeps the last `cap` of the values sent on it. A receiver has a position of its
own: it reads the values one by one, and when the one it is at is no longer kept, it is told so
and moves on to the oldest that is.

* `Channel` — a channel by what its receivers do; `Channel.ring` is one.
* `span log a b` — the values from position `a` to position `b`.
* `Reading` — what a reader has of the channel: a part of what was sent since it subscribed, in
  order, and with nothing missing since it was last told that it is behind.
* `caughtUp` — how many receives it takes until nothing is left to read.
-/

namespace Broadcast

universe u v

variable {ε : Type u} {β : Type v}

/-- The values between two positions. -/
def span (log : List ε) (a b : ℕ) : List ε := (log.take b).drop a

theorem span_self (log : List ε) (a : ℕ) : span log a a = [] := by
  rw [span, List.drop_eq_nil_of_le (List.length_take_le a log)]

theorem span_append {log : List ε} {b : ℕ} (hb : b ≤ log.length) (a : ℕ) (more : List ε) :
    span (log ++ more) a b = span log a b := by
  rw [span, List.take_append_of_le_length hb, span]

theorem span_succ {log : List ε} {a b : ℕ} {e : ε} (hab : a ≤ b) (he : log[b]? = some e) :
    span log a (b + 1) = span log a b ++ [e] := by
  obtain ⟨hlt, hget⟩ := List.getElem?_eq_some_iff.mp he
  have hlen : a ≤ (log.take b).length := by
    rw [List.length_take]
    omega
  rw [span, span, List.take_add_one, he, Option.toList_some, List.drop_append_of_le_length hlen]

theorem span_mono (log : List ε) (a : ℕ) {b c : ℕ} (hbc : b ≤ c) :
    (span log a b).Sublist (span log a c) := by
  apply List.Sublist.drop
  exact (List.take_prefix_take_left hbc).sublist

theorem span_length (log : List ε) (a : ℕ) : span log a log.length = log.drop a := by
  rw [span, List.take_length]

/-- What a receive finds. -/
inductive Recv (ε : Type u) where
  | value (e : ε)
  | lagged
  | empty

/-- **A channel** of a capacity, by the positions of its receivers among all that was sent. -/
structure Channel (ε : Type u) (cap : ℕ) where
  /-- where a new receiver is -/
  subscribe : List ε → ℕ
  /-- a receive at a position, and the position after it -/
  recv : List ε → ℕ → Recv ε × ℕ
  /-- a new receiver gets what is sent from then on -/
  subscribe_eq : ∀ log, subscribe log = log.length
  /-- a value that is still kept, or a jump to the oldest one that is, or nothing -/
  recv_cases : ∀ log pos,
    (∃ e, recv log pos = (.value e, pos + 1) ∧ log[pos]? = some e ∧ log.length ≤ pos + cap) ∨
    (recv log pos = (.lagged, log.length - cap) ∧ pos + cap < log.length) ∨
    (recv log pos = (.empty, pos) ∧ log.length ≤ pos)

/-- The channel that looks at its positions. -/
def Channel.ring (ε : Type u) (cap : ℕ) : Channel ε cap where
  subscribe := List.length
  recv log pos :=
    if pos + cap < log.length then (.lagged, log.length - cap)
    else match log[pos]? with
      | some e => (.value e, pos + 1)
      | none => (.empty, pos)
  subscribe_eq _ := rfl
  recv_cases log pos := by
    by_cases hlag : pos + cap < log.length
    · exact .inr (.inl ⟨by rw [if_pos hlag], hlag⟩)
    rcases he : log[pos]? with _ | e
    · exact .inr (.inr ⟨by rw [if_neg hlag], List.getElem?_eq_none_iff.mp he⟩)
    · exact .inl ⟨e, by rw [if_neg hlag], rfl, Nat.not_lt.mp hlag⟩

/-- A reader: where it subscribed, where it is, since where it was never told that it is behind,
and what it made of the values it read. -/
structure Reader (β : Type v) where
  start : ℕ
  pos : ℕ
  since : ℕ
  got : List β

section Reader

variable {cap : ℕ} (C : Channel ε cap)

/-- A new reader. -/
def Reader.subscribe (log : List ε) : Reader β :=
  ⟨C.subscribe log, C.subscribe log, C.subscribe log, []⟩

/-- One receive of a reader that makes something of some values. -/
def Reader.poll (f : ε → Option β) (log : List ε) (r : Reader β) : Reader β :=
  match C.recv log r.pos with
  | (.value e, pos) => { r with pos, got := r.got ++ (f e).toList }
  | (.lagged, pos) => { r with pos, since := pos }
  | (.empty, _) => r

end Reader

variable {cap : ℕ} {C : Channel ε cap} {f : ε → Option β} {log : List ε} {r : Reader β}

variable (C f) in
/-- A receive of a reader. -/
theorem Reader.poll_cases (log : List ε) (r : Reader β) :
    (∃ e, r.poll C f log = { r with pos := r.pos + 1, got := r.got ++ (f e).toList } ∧
      log[r.pos]? = some e ∧ log.length ≤ r.pos + cap) ∨
    (r.poll C f log = { r with pos := log.length - cap, since := log.length - cap } ∧
      r.pos + cap < log.length) ∨
    (r.poll C f log = r ∧ log.length ≤ r.pos) := by
  rcases C.recv_cases log r.pos with ⟨e, hrecv, he, hle⟩ | ⟨hrecv, hlt⟩ | ⟨hrecv, hle⟩
  · exact .inl ⟨e, by simp only [poll, hrecv], he, hle⟩
  · exact .inr (.inl ⟨by simp only [poll, hrecv], hlt⟩)
  · exact .inr (.inr ⟨by simp only [poll, hrecv], hle⟩)

variable (cap f log) in
/-- What a reader has of a channel. -/
structure Reading (r : Reader β) : Prop where
  start_le : r.start ≤ r.since
  since_le : r.since ≤ r.pos
  pos_le : r.pos ≤ log.length
  /-- what was skipped is no longer kept -/
  skipped : r.since ≤ max r.start (log.length - cap)
  /-- values sent since it subscribed, in order, each at most once -/
  ordered : r.got.Sublist ((span log r.start r.pos).filterMap f)
  /-- and all of them since it was last behind -/
  complete : (span log r.since r.pos).filterMap f <:+ r.got

namespace Reading

theorem subscribe (C : Channel ε cap) (f : ε → Option β) (log : List ε) :
    Reading cap f log (Reader.subscribe C log) where
  start_le := le_rfl
  since_le := le_rfl
  pos_le := (C.subscribe_eq log).le
  skipped := le_max_left _ _
  ordered := List.nil_sublist _
  complete := by simp [Reader.subscribe, span_self]

/-- More is sent. -/
theorem append (h : Reading cap f log r) (more : List ε) : Reading cap f (log ++ more) r where
  start_le := h.start_le
  since_le := h.since_le
  pos_le := h.pos_le.trans (by simp)
  skipped := h.skipped.trans (max_le_max le_rfl (Nat.sub_le_sub_right (by simp) cap))
  ordered := by
    rw [span_append h.pos_le]
    exact h.ordered
  complete := by
    rw [span_append h.pos_le]
    exact h.complete

theorem poll (h : Reading cap f log r) : Reading cap f log (r.poll C f log) := by
  have hstart := h.start_le
  have hsince := h.since_le
  have hskipped := h.skipped
  rcases Reader.poll_cases C f log r with
    ⟨e, hpoll, he, -⟩ | ⟨hpoll, hlt⟩ | ⟨hpoll, -⟩
  · obtain ⟨hlt, -⟩ := List.getElem?_eq_some_iff.mp he
    rw [hpoll]
    refine ⟨hstart, hsince.trans (Nat.le_succ _), hlt, hskipped, ?_, ?_⟩
    · rw [span_succ (hstart.trans hsince) he, List.filterMap_append]
      refine h.ordered.append ?_
      cases hf : f e <;> simp [hf]
    · rw [span_succ hsince he, List.filterMap_append]
      obtain ⟨before, hbefore⟩ := h.complete
      refine ⟨before, ?_⟩
      rw [← List.append_assoc, hbefore]
      cases hf : f e <;> simp [hf]
  · -- it was behind: what is no longer kept is skipped
    rw [hpoll]
    have hle : r.pos ≤ log.length - cap := by omega
    refine ⟨hstart.trans (hsince.trans hle), le_rfl, Nat.sub_le _ _, le_max_right _ _, ?_, ?_⟩
    · exact h.ordered.trans ((span_mono log r.start hle).filterMap f)
    · simp [span_self]
  · rwa [hpoll]

/-- A reader that was never behind has everything. -/
theorem all (h : Reading cap f log r) (hnever : r.since = r.start) :
    r.got = (span log r.start r.pos).filterMap f := by
  have hcomplete := h.complete
  rw [hnever] at hcomplete
  exact h.ordered.eq_of_length (le_antisymm h.ordered.length_le hcomplete.length_le)

/-- A reader with nothing left to read has all that was sent among the last values, or since it
subscribed. -/
theorem recent (h : Reading cap f log r) (hend : r.pos = log.length) :
    (log.drop (max r.start (log.length - cap))).filterMap f <:+ r.got := by
  refine List.IsSuffix.trans ?_ h.complete
  rw [hend, span_length]
  exact (List.drop_suffix_drop_left log h.skipped).filterMap f

end Reading

/-- Some receives in a row. -/
def Reader.polls (C : Channel ε cap) (f : ε → Option β) (log : List ε) (n : ℕ) (r : Reader β) :
    Reader β :=
  (fun r => r.poll C f log)^[n] r

/-- Of the values that are left, each takes a receive. -/
theorem caughtUp_near {n : ℕ} (hn : log.length ≤ r.pos + n) (hnear : log.length ≤ r.pos + cap)
    (hpos : r.pos ≤ log.length) : (r.polls C f log n).pos = log.length := by
  induction n generalizing r with
  | zero => exact le_antisymm hpos hn
  | succ n ih =>
    rw [Reader.polls, Function.iterate_succ_apply]
    rcases Reader.poll_cases C f log r with ⟨e, hpoll, he, -⟩ | ⟨-, hlt⟩ | ⟨hpoll, hle⟩
    · obtain ⟨hlt, -⟩ := List.getElem?_eq_some_iff.mp he
      rw [hpoll]
      exact ih (by simp only; omega) (by simp only; omega) hlt
    · omega
    · rw [hpoll]
      exact ih (by omega) hnear hpos

/-- **Catching up.** One receive more than there are values kept, and nothing is left to read. -/
theorem caughtUp (h : Reading cap f log r) :
    (r.polls C f log (cap + 1)).pos = log.length := by
  have hpos := h.pos_le
  rw [Reader.polls, Function.iterate_succ_apply]
  rcases Reader.poll_cases C f log r with ⟨e, hpoll, he, hle⟩ | ⟨hpoll, hlt⟩ | ⟨hpoll, hle⟩
  · obtain ⟨hlt, -⟩ := List.getElem?_eq_some_iff.mp he
    rw [hpoll]
    exact caughtUp_near (by simp only; omega) (by simp only; omega) hlt
  · rw [hpoll]
    exact caughtUp_near (by simp only; omega) (by simp only; omega) (Nat.sub_le _ _)
  · rw [hpoll]
    exact caughtUp_near (by omega) (by omega) hpos

theorem Reading.polls (h : Reading cap f log r) (n : ℕ) :
    Reading cap f log (r.polls C f log n) := by
  induction n generalizing r with
  | zero => exact h
  | succ n ih =>
    rw [Reader.polls, Function.iterate_succ_apply]
    exact ih h.poll

end Broadcast
