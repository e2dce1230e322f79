import Owney.Lib.Broadcast
import Owney.OpenConnections

/-!
# The event bus

The bus of `owney-events` is one broadcast channel that keeps the last 1024 events (`tokio`'s, of
which only what its receivers do is known, `Channel`). Publishing
never waits for a reader, so that a slow one is told that it is behind and loses events; an
EventSource stream of the JMAP endpoint skips that and goes on. What a client can rely on is
`stream_ordered` and `stream_caughtUp`: a stream sends changes of its own account only, in the
order they were published and none twice, and when it has read all there is, nothing of the last
1024 events is missing.
-/

namespace Owney.Access

open Broadcast

/-- `EventBus::default`. -/
def busCapacity : ℕ := 1024

/-- The stream of `eventsource`: its account, its receiver with what it sent, and whether the
client has gone. -/
structure EventStream where
  accountId : AccountId
  reader : Reader Output
  closed : Bool

/-- The bus: all events that were published, and the streams that were ever opened. -/
structure Bus where
  log : List BusEvent
  streams : List EventStream

/-- A bus that nothing was published on. -/
def Bus.empty : Bus := ⟨[], []⟩

/-- A step of the bus or of one stream. -/
inductive BusMove where
  | publish (event : BusEvent)
  | subscribe (accountId : AccountId)
  /-- the stream `i` takes the next item of its receiver -/
  | poll (i : ℕ)
  | close (i : ℕ)

section Moves

variable (C : Channel BusEvent busCapacity)

/-- A receive of a stream, which has `filter_map` drop all but the changes of its account. -/
def EventStream.poll (log : List BusEvent) (s : EventStream) : EventStream :=
  if s.closed then s
  else { s with reader := s.reader.poll C (pushed s.accountId true) log }

/-- What a move does. -/
def Bus.step (b : Bus) : BusMove → Bus
  | .publish event => { b with log := b.log ++ [event] }
  | .subscribe accountId =>
    { b with streams := b.streams ++ [⟨accountId, .subscribe C b.log, false⟩] }
  | .poll i => { b with streams := b.streams.modify i (·.poll C b.log) }
  | .close i => { b with streams := b.streams.modify i ({ · with closed := true }) }

/-- A bus after some moves. -/
def Bus.after (moves : List BusMove) : Bus := Runs.run (Bus.step C) Bus.empty moves

end Moves

/-- Every stream reads the bus. -/
def Bus.Read (b : Bus) : Prop :=
  ∀ s ∈ b.streams, Reading busCapacity (pushed s.accountId true) b.log s.reader

variable {C : Channel BusEvent busCapacity}

theorem EventStream.poll_read {log : List BusEvent} {s : EventStream}
    (h : Reading busCapacity (pushed s.accountId true) log s.reader) :
    Reading busCapacity (pushed (s.poll C log).accountId true) log (s.poll C log).reader := by
  unfold poll
  split
  · exact h
  · exact h.poll

namespace Bus

/-- A stream of a list with one changed is that one or another. -/
theorem mem_modify {streams : List EventStream} {f : EventStream → EventStream} {i : ℕ}
    {s : EventStream} (hs : s ∈ streams.modify i f) : s ∈ streams ∨ ∃ t ∈ streams, s = f t := by
  obtain ⟨j, hj⟩ := List.mem_iff_getElem?.mp hs
  rw [List.getElem?_modify] at hj
  obtain ⟨t, ht, hst⟩ := Option.map_eq_some_iff.mp hj
  have hmem := List.mem_iff_getElem?.mpr ⟨j, ht⟩
  split at hst
  · exact .inr ⟨t, hmem, hst.symm⟩
  · exact .inl (hst ▸ hmem)

theorem Read.step {b : Bus} (h : b.Read) (move : BusMove) : (b.step C move).Read := by
  intro s hs
  cases move with
  | publish event => exact (h s hs).append [event]
  | subscribe accountId =>
    rcases List.mem_append.mp hs with hs | hs
    · exact h s hs
    · rw [List.mem_singleton.mp hs]
      exact .subscribe _ _ _
  | poll i =>
    rcases mem_modify hs with hs | ⟨t, ht, rfl⟩
    · exact h s hs
    · exact EventStream.poll_read (h t ht)
  | close i =>
    rcases mem_modify hs with hs | ⟨t, ht, rfl⟩
    · exact h s hs
    · exact h t ht

theorem read_after (C : Channel BusEvent busCapacity) (moves : List BusMove) :
    (after C moves).Read :=
  Runs.run_invariant (fun _ move h => h.step move) moves (by simp [Read, empty])

theorem pushed_account {accountId : AccountId} {event : BusEvent} {out : Output}
    (h : pushed accountId true event = some out) : out.account = some accountId := by
  cases event with
  | other => cases h
  | stateChange changedAccount changed =>
    rw [pushed] at h
    split at h
    · cases h
      rfl
    · cases h

/-- **What a stream sends.** In every run: changes of its own account that were published since it
was opened, in their order and none twice; and if it was never behind, all those up to where it
is. -/
theorem stream_ordered (C : Channel BusEvent busCapacity) (moves : List BusMove) (s : EventStream)
    (hs : s ∈ (after C moves).streams) :
    (∀ out ∈ s.reader.got, out.account = some s.accountId) ∧
    s.reader.got.Sublist
      (((after C moves).log.drop s.reader.start).filterMap (pushed s.accountId true)) ∧
    (s.reader.since = s.reader.start → s.reader.got =
      (span (after C moves).log s.reader.start s.reader.pos).filterMap
        (pushed s.accountId true)) := by
  have h := read_after C moves s hs
  have hsub := h.ordered.trans ((span_mono _ s.reader.start h.pos_le).filterMap _)
  rw [span_length] at hsub
  refine ⟨fun out hout => ?_, hsub, h.all⟩
  obtain ⟨event, -, hpushed⟩ := List.mem_filterMap.mp (hsub.subset hout)
  exact pushed_account hpushed

/-- The event of a message for the account 1. -/
def newMessage : BusEvent := .stateChange ⟨1⟩ [(.email, 1)]

/-- Two clients; a message for the first comes, and both receive. -/
def toldMoves : List BusMove :=
  [.subscribe ⟨1⟩, .subscribe ⟨2⟩, .publish newMessage, .poll 0, .poll 1]

/-- The stream of the account 1 after it was told of the message. -/
def toldStream : EventStream := ⟨⟨1⟩, ⟨0, 1, 0, [.stateChange ⟨1⟩ [(.email, 1)]]⟩, false⟩

theorem toldStream_mem : toldStream ∈ (after (.ring _ _) toldMoves).streams := by
  simp [after, Runs.run, empty, step, EventStream.poll, Reader.poll, Reader.subscribe, Channel.ring,
    busCapacity, newMessage, pushed, toldMoves, toldStream]

/-- One of the two clients is told of the message. -/
theorem stream_ordered_told :
    (∀ out ∈ toldStream.reader.got, out.account = some ⟨1⟩) ∧
    toldStream.reader.got.Sublist
      (((after (.ring _ _) toldMoves).log.drop 0).filterMap (pushed ⟨1⟩ true)) ∧
    (0 = 0 → toldStream.reader.got =
      (span (after (.ring _ _) toldMoves).log 0 1).filterMap (pushed ⟨1⟩ true)) :=
  stream_ordered (.ring _ _) toldMoves toldStream toldStream_mem

/-! ## Catching up -/

theorem polls_open (C : Channel BusEvent busCapacity) (b : Bus) {i n : ℕ} {s : EventStream}
    (hs : b.streams[i]? = some s) (hopen : s.closed = false) :
    (Runs.run (Bus.step C) b (List.replicate n (.poll i))).log = b.log ∧
    (Runs.run (Bus.step C) b (List.replicate n (.poll i))).streams[i]? = some { s with
      reader := s.reader.polls C (pushed s.accountId true) b.log n } := by
  induction n generalizing b s with
  | zero => exact ⟨rfl, hs⟩
  | succ n ih =>
    have hnext : (b.step C (.poll i)).streams[i]? = some (s.poll C b.log) := by
      simp [step, hs]
    rw [List.replicate_succ, Runs.run_cons]
    have hpoll : s.poll C b.log =
        { s with reader := s.reader.poll C (pushed s.accountId true) b.log } := by
      rw [EventStream.poll, if_neg (by simp [hopen])]
    rw [hpoll] at hnext
    exact ih (b.step C (.poll i)) hnext hopen

/-- **Nothing recent is missed.** Wherever a run leads, 1025 receives take a stream that is open to
the end of the bus, and then the last changes it sent are all those of its account among the last
1024 events, or since it was opened. -/
theorem stream_caughtUp (C : Channel BusEvent busCapacity) (moves : List BusMove) (i : ℕ)
    (s : EventStream) (hs : (after C moves).streams[i]? = some s) (hopen : s.closed = false) :
    ∃ reader : Reader Output,
      (after C (moves ++ List.replicate (busCapacity + 1) (.poll i))).streams[i]? =
        some { s with reader } ∧
      reader.pos = (after C moves).log.length ∧
      ((after C moves).log.drop
        (max reader.start ((after C moves).log.length - busCapacity))).filterMap
          (pushed s.accountId true) <:+ reader.got := by
  have h := read_after C moves s (List.mem_iff_getElem?.mpr ⟨i, hs⟩)
  have hend := caughtUp (C := C) h
  refine ⟨_, ?_, hend, (h.polls _).recent hend⟩
  rw [after, Runs.run_append]
  exact (polls_open C _ hs hopen).2

/-- A stream that was opened before a message came. -/
theorem stream_caughtUp_told : ∃ reader : Reader Output,
    (after (.ring _ _) ([.subscribe ⟨1⟩, .publish newMessage] ++
      List.replicate (busCapacity + 1) (.poll 0))).streams[0]? = some ⟨⟨1⟩, reader, false⟩ ∧
    reader.pos = (after (.ring _ _) [.subscribe ⟨1⟩, .publish newMessage]).log.length ∧
    ((after (.ring _ _) [.subscribe ⟨1⟩, .publish newMessage]).log.drop
      (max reader.start ((after (.ring _ _) [.subscribe ⟨1⟩, .publish newMessage]).log.length -
        busCapacity))).filterMap (pushed ⟨1⟩ true) <:+ reader.got :=
  stream_caughtUp (.ring _ _) [.subscribe ⟨1⟩, .publish newMessage] 0
    ⟨⟨1⟩, .subscribe (.ring _ _) [], false⟩ rfl rfl

end Bus

end Owney.Access
