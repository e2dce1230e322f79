import Owney.SmtpSession
import Mathlib.Order.Basic
import Mathlib.Tactic.SplitIfs

/-!
# Chunks of an SMTP stream

The bytes of a client arrive in reads of any sizes. If the parsers do not see the pieces,
neither does the session: a turn on some bytes, with more behind them, is the turn on the
bytes alone, unless it waits, and then the rest of the bytes are as good later
(`drain_append`). The one thing that is checked once for each read, the size of a message,
only ever grows, and a message found too large stays so.

What came before, replies and the log, has no part in what a turn does
(`turn_behind`); the same holds of the errors counted before, until there are too many.
-/

namespace Owney.Smtp

open Scanning

variable {R D W : Type}

/-! ## What came before -/

/-- What a connection may have behind it: errors counted, replies, things that happened. -/
structure Past where
  errors : ℕ
  out : String
  replies : String
  log : List Happened

/-- The same connection with something behind it. -/
abbrev Conn.behind (c : Conn R D W) (p : Past) : Conn R D W :=
  { c with
    session := { c.session with errors := p.errors + c.session.errors }
    out := p.out ++ c.out
    replies := p.replies ++ c.replies
    log := p.log ++ c.log }

namespace Conn

variable (c : Conn R D W) (p : Past)

theorem behind_reply (line : String) : (c.behind p).reply line = (c.reply line).behind p := by
  simp [behind, reply, String.append_assoc]

theorem behind_note (h : Happened) : (c.behind p).note h = (c.note h).behind p := by
  simp [behind, note]

end Conn

namespace Server

variable (S : Server R D W) (c : Conn R D W) (p : Past)

theorem applyMail_behind (address : String) (size : ℕ) :
    S.applyMail (c.behind p) address size = (S.applyMail c address size).behind p := by
  simp only [applyMail]
  by_cases hnested : c.session.mailFrom.isSome
  · rw [if_pos hnested, if_pos hnested, Conn.behind_reply]
  · rw [if_neg hnested, if_neg hnested]
    split_ifs
    · exact c.behind_reply p _
    · rw [← Conn.behind_reply, ← Conn.behind_note]
      rfl

theorem applyRcpt_behind (address : String) :
    S.applyRcpt (c.behind p) address = (S.applyRcpt c address).behind p := by
  unfold applyRcpt
  by_cases hsender : c.session.mailFrom.isNone
  · rw [if_pos hsender, if_pos hsender, Conn.behind_reply]
  · rw [if_neg hsender, if_neg hsender]
    split_ifs
    · exact c.behind_reply p _
    · rcases S.handler.rcpt c.world address with ⟨verdict, world⟩
      dsimp only
      rw [← Conn.behind_reply]
      have hnote := Conn.behind_note { c with world := world } p (.rcpt address verdict)
      cases verdict with
      | accept =>
        exact congrArg (fun c : Conn R D W => Conn.reply
          (c.onSession fun s => { s with recipients := s.recipients ++ [address] }) _) hnote
      | unknownUser | notLocal | tryAgainLater => exact congrArg (Conn.reply · _) hnote

theorem apply_behind (request : Request) :
    S.apply (c.behind p) request = ((S.apply c request).1.behind p, (S.apply c request).2) := by
  cases request with
  | ehlo | helo | rset =>
    simp only [apply]
    rw [← Conn.behind_reply, ← Conn.behind_note]
    rfl
  | mail address size => rw [apply, applyMail_behind, apply]
  | rcpt address => rw [apply, applyRcpt_behind, apply]
  | data =>
    simp only [apply, applyData]
    split_ifs
    · rw [← Conn.behind_reply]
    · rw [Conn.behind_reply]
      rfl
  | startTls =>
    simp only [apply, Conn.behind_reply]
    by_cases hactive : c.session.tlsActive
    · rw [if_pos hactive, if_pos hactive]
    · rw [if_neg hactive, if_neg hactive]
      split_ifs <;> rfl
  | noop | quit | vrfy | expn | auth | bdat | lhlo | help | etrn | atrn | burl =>
    rw [apply, Conn.behind_reply, apply]

/-- The errors counted before have no part in it, as long as there are not too many. -/
theorem protocolError_behind (e : SmtpError)
    (h : p.errors = 0 ∨
      (S.protocolError (c.behind p) e).1.session.errors < S.params.maxErrors) :
    S.protocolError (c.behind p) e =
      ((S.protocolError c e).1.behind p, (S.protocolError c e).2) := by
  unfold protocolError at h ⊢
  by_cases hlong : e = .responseTooLong
  · rw [if_pos hlong, if_pos hlong, Conn.behind_reply]
  · rw [if_neg hlong] at h ⊢
    rw [if_neg hlong]
    have hcount : ((c.behind p).onSession fun s => { s with errors := s.errors + 1 }) =
        (c.onSession fun s => { s with errors := s.errors + 1 }).behind p := rfl
    rw [hcount] at h ⊢
    have hiff : p.errors + (c.session.errors + 1) ≥ S.params.maxErrors ↔
        c.session.errors + 1 ≥ S.params.maxErrors := by
      rcases h with h | h
      · omega
      · have hlt : p.errors + (c.session.errors + 1) < S.params.maxErrors := by
          dsimp only at h
          split_ifs at h <;> exact h
        omega
    dsimp only [Conn.onSession]
    by_cases hmax : c.session.errors + 1 ≥ S.params.maxErrors
    · rw [if_pos (hiff.mpr hmax), if_pos hmax, ← Conn.behind_reply]
    · rw [if_neg (fun h => hmax (hiff.mp h)), if_neg hmax, ← Conn.behind_reply]

theorem finishData_behind : S.finishData (c.behind p) = (S.finishData c).behind p := by
  unfold finishData
  rcases c.session.mode with _ | ⟨receiver, data, discarding⟩
  · exact c.behind_reply p _
  · dsimp only
    split_ifs
    · rw [← Conn.behind_reply, ← Conn.behind_note]
      rfl
    · rw [← Conn.behind_reply, ← Conn.behind_note]
      rfl

/-- **One turn** does not see what came before. -/
theorem turn_behind (bytes : List UInt8)
    (h : p.errors = 0 ∨ (S.turn (c.behind p) bytes).1.session.errors < S.params.maxErrors) :
    S.turn (c.behind p) bytes = ((S.turn c bytes).1.behind p, (S.turn c bytes).2) := by
  rcases hmode : c.session.mode with _ | ⟨receiver, data, discarding⟩
  · rw [S.turn_of_command hmode, S.turn_of_command (c := c.behind p) hmode] at *
    unfold turnCommand at h ⊢
    dsimp only at h ⊢
    rcases hscan : S.requests.scan c.receiver bytes with
      receiver | ⟨e | request, receiver, rest⟩
    · rfl
    · rw [hscan] at h
      have herror := S.protocolError_behind { c with receiver := receiver } p e h
      dsimp only at herror ⊢
      rw [herror]
    · have happly := S.apply_behind { c with receiver := receiver } p request
      dsimp only at happly ⊢
      rw [happly]
  · rw [S.turn_of_data hmode, S.turn_of_data (c := c.behind p) hmode]
    unfold turnData
    rcases (S.data.ingest receiver bytes data).rest with _ | rest
    · rfl
    · exact congrArg (Prod.mk · (Next.drain rest))
        (S.finishData_behind (S.collect c receiver data discarding bytes) p)

theorem apply_keeps (request : Request) :
    (S.apply c request).1.replies = c.replies ∧
      (S.apply c request).1.session.errors = c.session.errors := by
  cases request with
  | mail address size =>
    simp only [apply, applyMail]
    split_ifs <;> exact ⟨rfl, rfl⟩
  | rcpt address =>
    simp only [apply]
    unfold applyRcpt
    split_ifs
    · exact ⟨rfl, rfl⟩
    · exact ⟨rfl, rfl⟩
    · rcases S.handler.rcpt c.world address with ⟨_ | _ | _ | _, world⟩ <;> exact ⟨rfl, rfl⟩
  | data =>
    simp only [apply, applyData]
    split_ifs <;> exact ⟨rfl, rfl⟩
  | startTls =>
    simp only [apply]
    split_ifs <;> exact ⟨rfl, rfl⟩
  | ehlo | helo | rset | noop | quit | vrfy | expn | auth | bdat | lhlo | help | etrn | atrn
  | burl => exact ⟨rfl, rfl⟩

theorem protocolError_keeps (e : SmtpError) :
    (S.protocolError c e).1.replies = c.replies ∧
      c.session.errors ≤ (S.protocolError c e).1.session.errors := by
  unfold protocolError
  dsimp only
  split_ifs
  · exact ⟨rfl, Nat.le_refl _⟩
  · exact ⟨rfl, Nat.le_succ _⟩
  · exact ⟨rfl, Nat.le_succ _⟩

theorem finishData_keeps :
    (S.finishData c).replies = c.replies ∧
      (S.finishData c).session.errors = c.session.errors := by
  unfold finishData
  rcases c.session.mode with _ | ⟨receiver, data, discarding⟩
  · exact ⟨rfl, rfl⟩
  · dsimp only
    split_ifs <;> exact ⟨rfl, rfl⟩

/-- A turn writes nothing, and forgets no error. -/
theorem turn_keeps (bytes : List UInt8) :
    (S.turn c bytes).1.replies = c.replies ∧
      c.session.errors ≤ (S.turn c bytes).1.session.errors := by
  rcases hmode : c.session.mode with _ | ⟨receiver, data, discarding⟩
  · rw [S.turn_of_command hmode, turnCommand]
    split
    · exact ⟨rfl, Nat.le_refl _⟩
    · next request receiver rest _ =>
      obtain ⟨hreplies, herrors⟩ := S.apply_keeps { c with receiver := receiver } request
      exact ⟨hreplies, herrors.ge⟩
    · next e receiver rest _ => exact S.protocolError_keeps { c with receiver := receiver } e
  · rw [S.turn_of_data hmode, turnData]
    split
    · exact ⟨rfl, Nat.le_refl _⟩
    · obtain ⟨hreplies, herrors⟩ :=
        S.finishData_keeps (S.collect c receiver data discarding bytes)
      exact ⟨hreplies, herrors.ge⟩

theorem drain_keeps (bytes : List UInt8) :
    (S.drain c bytes).1.replies = c.replies ∧
      c.session.errors ≤ (S.drain c bytes).1.session.errors := by
  induction hn : bytes.length using Nat.strong_induction_on generalizing c bytes with
  | _ n ih =>
    have hturn := S.turn_keeps c bytes
    rcases S.drain_cases c bytes with ⟨c', rest, heq, hdrain, hlt⟩ | ⟨c', stop, heq, hdrain⟩
    · rw [heq] at hturn
      obtain ⟨hreplies, herrors⟩ := ih rest.length (hn ▸ hlt) c' rest rfl
      rw [hdrain]
      exact ⟨hreplies.trans hturn.1, hturn.2.trans herrors⟩
    · rw [heq] at hturn
      rw [hdrain]
      exact hturn

/-- **The bytes of a read** are gone through without a look at what came before. -/
theorem drain_behind (bytes : List UInt8)
    (h : p.errors = 0 ∨ (S.drain (c.behind p) bytes).1.session.errors < S.params.maxErrors) :
    S.drain (c.behind p) bytes = ((S.drain c bytes).1.behind p, (S.drain c bytes).2) := by
  induction hn : bytes.length using Nat.strong_induction_on generalizing c bytes with
  | _ n ih =>
    have hturn := S.turn_behind c p bytes (h.imp_right fun hlt => ?_)
    · rcases S.drain_cases c bytes with ⟨c', rest, heq, hdrain, hlt⟩ | ⟨c', stop, heq, hdrain⟩
      · rw [heq] at hturn
        have hnext := S.drain_of_drain hturn
        rw [hnext] at h
        rw [hnext, hdrain]
        exact ih rest.length (hn ▸ hlt) c' rest h rfl
      · rw [heq] at hturn
        rw [hdrain]
        exact S.drain_of_stop hturn
    · rcases S.drain_cases (c.behind p) bytes with
        ⟨c', rest, heq, hdrain, -⟩ | ⟨c', stop, heq, hdrain⟩
      · rw [heq]
        exact lt_of_le_of_lt (S.drain_keeps c' rest).2 (hdrain ▸ hlt)
      · rw [heq]
        rwa [hdrain] at hlt

/-- It is the same whether the replies so far are written or not. -/
theorem drain_flush (bytes : List UInt8) :
    (S.drain c.flush bytes).1.flush = (S.drain c bytes).1.flush ∧
      (S.drain c.flush bytes).2 = (S.drain c bytes).2 := by
  let fresh : Conn R D W := { c with out := "", replies := "", log := [] }
  have hself : c = fresh.behind ⟨0, c.out, c.replies, c.log⟩ := by simp [fresh, Conn.behind]
  have hflush : c.flush = fresh.behind ⟨0, "", c.replies ++ c.out, c.log⟩ := by
    simp [fresh, Conn.behind, Conn.flush]
  have h₁ := S.drain_behind fresh ⟨0, c.out, c.replies, c.log⟩ bytes (.inl rfl)
  have h₂ := S.drain_behind fresh ⟨0, "", c.replies ++ c.out, c.log⟩ bytes (.inl rfl)
  rw [← hself] at h₁
  rw [← hflush] at h₂
  have hreplies : (S.drain fresh bytes).1.replies = "" := (S.drain_keeps fresh bytes).1
  rw [h₁, h₂]
  exact ⟨by simp [Conn.flush, hreplies, String.append_assoc], rfl⟩

end Server

/-! ## Pieces -/

/-- The parser of messages adds to its buffer what it reads, without a look at it or at the
pieces it reads. -/
structure DataReceiver.ChunkFree {D : Type} (A : DataReceiver D) : Prop where
  appends : ∀ d bytes buffer, A.ingest d bytes buffer =
    { A.ingest d bytes [] with buffer := buffer ++ (A.ingest d bytes []).buffer }
  more : ∀ d bytes more buffer, (A.ingest d bytes buffer).rest = none →
    A.ingest d (bytes ++ more) buffer =
      A.ingest (A.ingest d bytes buffer).state more (A.ingest d bytes buffer).buffer
  done : ∀ d bytes more buffer rest, (A.ingest d bytes buffer).rest = some rest →
    A.ingest d (bytes ++ more) buffer =
      { A.ingest d bytes buffer with rest := some (rest ++ more) }

section OfStep

variable {D : Type} (step : D → UInt8 → D × List UInt8 × Bool)

/-- Byte by byte: what is added to the buffer, and whether that was the end. -/
def ingestSteps (d : D) (buffer : List UInt8) : List UInt8 → Ingested D
  | [] => ⟨d, buffer, none⟩
  | byte :: rest =>
    match step d byte with
    | (d, added, true) => ⟨d, buffer ++ added, some rest⟩
    | (d, added, false) => ingestSteps d (buffer ++ added) rest

theorem ingestSteps_progress {d : D} {bytes buffer rest : List UInt8}
    (h : (ingestSteps step d buffer bytes).rest = some rest) : rest.length < bytes.length := by
  induction bytes generalizing d buffer with
  | nil => cases h
  | cons byte bytes ih =>
    rw [ingestSteps] at h
    split at h
    · cases h
      exact Nat.lt_succ_self _
    · exact Nat.lt_succ_of_lt (ih h)

/-- The parser of messages that takes one step for each byte. -/
def DataReceiver.ofStep (new : D) : DataReceiver D where
  new := new
  ingest d bytes buffer := ingestSteps step d buffer bytes
  progress := ingestSteps_progress step

theorem ingestSteps_buffer (d : D) (bytes buffer : List UInt8) :
    ingestSteps step d buffer bytes =
      { ingestSteps step d [] bytes with
        buffer := buffer ++ (ingestSteps step d [] bytes).buffer } := by
  induction bytes generalizing d buffer with
  | nil => simp [ingestSteps]
  | cons byte bytes ih =>
    rw [ingestSteps, ingestSteps]
    rcases step d byte with ⟨d', added, _ | _⟩
    · simp only [List.nil_append]
      rw [ih d' (buffer ++ added), ih d' added, List.append_assoc]
    · simp

theorem DataReceiver.ofStep_chunkFree (new : D) : (ofStep step new).ChunkFree where
  appends d bytes buffer := ingestSteps_buffer step d bytes buffer
  more d bytes more buffer h := by
    change (ingestSteps step d buffer bytes).rest = none at h
    change ingestSteps step d buffer (bytes ++ more) = ingestSteps step _ _ more
    induction bytes generalizing d buffer with
    | nil => rfl
    | cons byte bytes ih =>
      rw [ingestSteps] at h
      rw [List.cons_append, ingestSteps]
      change _ = ingestSteps step (ingestSteps step d buffer (byte :: bytes)).state
        (ingestSteps step d buffer (byte :: bytes)).buffer more
      rw [ingestSteps]
      rcases hstep : step d byte with ⟨d', added, _ | _⟩
      · rw [hstep] at h
        exact ih d' (buffer ++ added) h
      · rw [hstep] at h
        cases h
  done d bytes more buffer rest h := by
    change (ingestSteps step d buffer bytes).rest = some rest at h
    change ingestSteps step d buffer (bytes ++ more) =
      { ingestSteps step d buffer bytes with rest := some (rest ++ more) }
    induction bytes generalizing d buffer with
    | nil => cases h
    | cons byte bytes ih =>
      rw [ingestSteps] at h
      rw [List.cons_append, ingestSteps, ingestSteps]
      rcases hstep : step d byte with ⟨d', added, _ | _⟩
      · rw [hstep] at h
        exact ih d' (buffer ++ added) h
      · rw [hstep] at h
        cases h
        rfl

end OfStep

/-- The same with more bytes behind it. -/
def Next.append (more : List UInt8) : Next → Next
  | .drain rest => .drain (rest ++ more)
  | next => next

namespace Server

variable (S : Server R D W)

/-- The server's parsers do not see the pieces. -/
structure ChunkFree : Prop where
  requests : S.requests.ChunkFree
  data : S.data.ChunkFree

variable {S} {c : Conn R D W}

theorem turnCommand_append (hfree : S.ChunkFree) (hmode : c.session.mode = .command)
    (bytes more : List UInt8) :
    ((S.turnCommand c bytes).2 = .wait →
      S.turnCommand c (bytes ++ more) = S.turn (S.turnCommand c bytes).1 more) ∧
    ((S.turnCommand c bytes).2 ≠ .wait → S.turnCommand c (bytes ++ more) =
      ((S.turnCommand c bytes).1, (S.turnCommand c bytes).2.append more)) := by
  have happend := hfree.requests c.receiver bytes more
  unfold turnCommand
  rw [happend]
  rcases S.requests.scan c.receiver bytes with receiver | ⟨e | request, receiver, rest⟩
  · refine ⟨fun _ => ?_, fun h => absurd rfl h⟩
    rw [S.turn_of_command (c := { c with receiver := receiver }) hmode]
    rfl
  · simp only [Scan.then]
    rcases S.protocolError { c with receiver := receiver } e with ⟨c', _ | _⟩
    all_goals exact ⟨nofun, fun _ => rfl⟩
  · simp only [Scan.then]
    rcases S.apply { c with receiver := receiver } request with ⟨c', _ | _ | _⟩
    all_goals exact ⟨nofun, fun _ => rfl⟩

theorem turnData_wait {receiver : D} {data bytes : List UInt8} {discarding : Bool}
    (h : (S.data.ingest receiver bytes data).rest = none) :
    S.turnData c receiver data discarding bytes =
      (S.collect c receiver data discarding bytes, .wait) := by
  rw [turnData, h]

theorem turnData_done {receiver : D} {data bytes rest : List UInt8} {discarding : Bool}
    (h : (S.data.ingest receiver bytes data).rest = some rest) :
    S.turnData c receiver data discarding bytes =
      (S.finishData (S.collect c receiver data discarding bytes), .drain rest) := by
  rw [turnData, h]

/-- Some bytes of a message and then some more: a message found too large stays so. -/
theorem turnData_more (hfree : S.ChunkFree) (c : Conn R D W) {receiver : D}
    {data bytes : List UInt8} (discarding : Bool) (more : List UInt8)
    (h : (S.data.ingest receiver bytes data).rest = none) :
    S.turnData c receiver data discarding (bytes ++ more) =
      S.turn (S.collect c receiver data discarding bytes) more := by
  let ingested := S.data.ingest receiver bytes data
  have hmore : S.data.ingest receiver (bytes ++ more) data =
      S.data.ingest ingested.state more ingested.buffer :=
    hfree.data.more receiver bytes more data h
  -- What is kept of the first bytes, and what the two runs make of the others.
  suffices hsame : ∀ buffer keep, S.collected ingested discarding =
      .data ingested.state buffer keep →
      S.collected (S.data.ingest ingested.state more ingested.buffer) discarding =
        S.collected (S.data.ingest ingested.state more buffer) keep ∧
      (S.data.ingest ingested.state more ingested.buffer).rest =
        (S.data.ingest ingested.state more buffer).rest by
    have hmode : ∃ buffer keep, S.collected ingested discarding =
        .data ingested.state buffer keep := by
      unfold collected
      split_ifs
      · exact ⟨_, _, rfl⟩
      · exact ⟨_, _, rfl⟩
    obtain ⟨buffer, keep, hmode⟩ := hmode
    obtain ⟨hcollected, hrest⟩ := hsame buffer keep hmode
    rw [S.turn_of_data (c := S.collect c receiver data discarding bytes) hmode, turnData, turnData,
      collect, collect, hmore, hcollected, hrest]
    rfl
  intro buffer keep hkept
  have happends := hfree.data.appends ingested.state more
  unfold collected at hkept
  split_ifs at hkept with hlarge
  · -- Too large already: with what is added it is too large as well.
    obtain ⟨-, rfl, rfl⟩ := Mode.data.inj hkept
    rw [happends ingested.buffer]
    refine ⟨?_, rfl⟩
    rw [collected, collected, if_pos, if_pos (.inl rfl)]
    refine hlarge.imp_right fun hlt => ?_
    rw [List.length_append]
    omega
  · obtain ⟨-, rfl, rfl⟩ := Mode.data.inj hkept
    refine ⟨?_, rfl⟩
    have hdiscarding : discarding = false := Bool.eq_false_iff.mpr fun h => hlarge (.inl h)
    rw [hdiscarding]

/-- **One turn**, with more bytes behind. -/
theorem turn_append (hfree : S.ChunkFree) (c : Conn R D W) (bytes more : List UInt8) :
    ((S.turn c bytes).2 = .wait →
      S.turn c (bytes ++ more) = S.turn (S.turn c bytes).1 more) ∧
    ((S.turn c bytes).2 ≠ .wait →
      S.turn c (bytes ++ more) = ((S.turn c bytes).1, (S.turn c bytes).2.append more)) := by
  rcases hmode : c.session.mode with _ | ⟨receiver, data, discarding⟩
  · rw [S.turn_of_command hmode, S.turn_of_command hmode]
    exact turnCommand_append hfree hmode bytes more
  · rw [S.turn_of_data hmode, S.turn_of_data hmode]
    rcases hrest : (S.data.ingest receiver bytes data).rest with _ | rest
    · rw [turnData_wait hrest]
      exact ⟨fun _ => turnData_more hfree c discarding more hrest, fun h => absurd rfl h⟩
    · rw [turnData_done hrest]
      refine ⟨nofun, fun _ => ?_⟩
      have hdone := hfree.data.done receiver bytes more data rest hrest
      have hrest' : (S.data.ingest receiver (bytes ++ more) data).rest = some (rest ++ more) := by
        rw [hdone]
      rw [turnData_done hrest', collect, hdone]
      rfl

/-- **A read**, with more bytes behind: it goes on with them where it waits. -/
theorem drain_append (hfree : S.ChunkFree) (c : Conn R D W) (bytes more : List UInt8) :
    ((S.drain c bytes).2 = .wait →
      S.drain c (bytes ++ more) = S.drain (S.drain c bytes).1 more) ∧
    ((S.drain c bytes).2 ≠ .wait → S.drain c (bytes ++ more) = S.drain c bytes) := by
  induction hn : bytes.length using Nat.strong_induction_on generalizing c bytes with
  | _ n ih =>
    obtain ⟨hwait, hdone⟩ := turn_append hfree c bytes more
    rcases S.drain_cases c bytes with ⟨c', rest, heq, hdrain, hlt⟩ | ⟨c', stop, heq, hdrain⟩
    · rw [heq] at hdone
      rw [S.drain_of_drain (hdone (by simp)), hdrain]
      exact ih rest.length (hn ▸ hlt) c' rest rfl
    · rw [heq] at hwait hdone
      rw [hdrain]
      cases stop with
      | wait =>
        refine ⟨fun _ => ?_, fun h => absurd rfl h⟩
        rw [drain, drain, hwait rfl]
      | close => exact ⟨by simp, fun _ => S.drain_of_stop (hdone (by simp [Stop.next]))⟩
      | startTls => exact ⟨by simp, fun _ => S.drain_of_stop (hdone (by simp [Stop.next]))⟩

/-! ## Reads -/

/-- The reads of a stream, in these pieces. -/
def reads (chunks : List (List UInt8)) : List Event := chunks.map (Event.read · true)

theorem onEvent_read (S : Server R D W) {c : Conn R D W} (hout : c.out = "")
    (bytes : List UInt8) :
    S.onEvent c (.read bytes true) = ((S.drain c bytes).1.flush, (S.drain c bytes).2) := by
  have hself : { c with out := "" } = c := by rw [← hout]
  rw [onEvent, hself]
  rcases S.drain c bytes with ⟨c', _ | _ | _⟩ <;> simp [settle]

/-- The reads of a stream come to what one read of all of it comes to. -/
theorem runProtocol_reads (hfree : S.ChunkFree) (hout : c.out = "") (bytes : List UInt8)
    (chunks : List (List UInt8)) :
    S.runProtocol c (reads (bytes :: chunks)) =
      ((S.drain c (bytes :: chunks).flatten).1.flush,
        (S.drain c (bytes :: chunks).flatten).2) := by
  induction chunks generalizing c bytes with
  | nil =>
    rw [reads, List.map_singleton, runProtocol, onEvent_read S hout, List.flatten_singleton]
    rcases S.drain c bytes with ⟨c', _ | _ | _⟩ <;> rfl
  | cons more chunks ih =>
    obtain ⟨hwait, hdone⟩ := drain_append hfree c bytes (more :: chunks).flatten
    rw [List.flatten_cons, reads, List.map_cons, runProtocol, onEvent_read S hout]
    rcases hdrain : S.drain c bytes with ⟨c', _ | _ | _⟩
    · rw [hdrain] at hwait
      obtain ⟨hflush, hstop⟩ := S.drain_flush c' (more :: chunks).flatten
      rw [hwait rfl, ← hflush, ← hstop]
      exact ih (c := c'.flush) rfl more
    · rw [hdrain] at hdone
      rw [hdone nofun]
    · rw [hdrain] at hdone
      rw [hdone nofun]

/-- Two ways to read one stream. -/
theorem runProtocol_chunks (hfree : S.ChunkFree) (hout : c.out = "")
    {chunks₁ chunks₂ : List (List UInt8)} (h₁ : [] ∉ chunks₁) (h₂ : [] ∉ chunks₂)
    (h : chunks₁.flatten = chunks₂.flatten) :
    S.runProtocol c (reads chunks₁) = S.runProtocol c (reads chunks₂) := by
  cases chunks₁ with
  | nil =>
    cases chunks₂ with
    | nil => rfl
    | cons bytes chunks =>
      obtain rfl : bytes = [] := (List.append_eq_nil_iff.mp h.symm).1
      exact absurd List.mem_cons_self h₂
  | cons bytes chunks =>
    cases chunks₂ with
    | nil =>
      obtain rfl : bytes = [] := (List.append_eq_nil_iff.mp h).1
      exact absurd List.mem_cons_self h₁
    | cons bytes' chunks' => rw [runProtocol_reads hfree hout, runProtocol_reads hfree hout, h]

/-- **The pieces do not matter**: in whatever non-empty reads the bytes of a client arrive,
before a handshake and after one, what the session does and what it replies is the same. -/
theorem serveConnection_chunks (hfree : S.ChunkFree) {plain₁ plain₂ tls₁ tls₂ : List (List UInt8)}
    (hplain₁ : [] ∉ plain₁) (hplain₂ : [] ∉ plain₂) (hplain : plain₁.flatten = plain₂.flatten)
    (htls₁ : [] ∉ tls₁) (htls₂ : [] ∉ tls₂) (htls : tls₁.flatten = tls₂.flatten)
    (world : W) (handshake : Option W) :
    S.serveConnection world (reads plain₁) handshake (reads tls₁) =
      S.serveConnection world (reads plain₂) handshake (reads tls₂) := by
  unfold serveConnection
  rw [runProtocol_chunks (c := S.greet world) hfree rfl hplain₁ hplain₂ hplain]
  split
  · next c world _ =>
    rw [runProtocol_chunks (c := S.upgrade c world) hfree rfl htls₁ htls₂ htls]
  · rfl

end Server

/-! ## A server -/

/-- The bytes of an ASCII text. -/
def ascii (text : String) : List UInt8 := text.toList.map fun c => UInt8.ofNat c.toNat

/-- A parser of commands that knows the commands of one mail. -/
def sampleRequests : RequestReceiver (List UInt8) :=
  .ofStep (fun line byte =>
    let line := line ++ [byte]
    if byte ≠ 10 then (line, none)
    else if line = ascii "MAIL FROM:<a@a.test>\r\n" then ([], some (.ok (.mail "a@a.test" 0)))
    else if line = ascii "RCPT TO:<b@b.test>\r\n" then ([], some (.ok (.rcpt "b@b.test")))
    else if line = ascii "DATA\r\n" then ([], some (.ok .data))
    else ([], some (.error .unknownCommand))) []

/-- The dots of a message: what is held back at the start of a line, or `none` within one. -/
def dotStep : Option (List UInt8) → UInt8 → Option (List UInt8) × List UInt8 × Bool
  | some [], 46 => (some [46], [], false)
  | some [46], 13 => (some [46, 13], [], false)
  | some [46, 13], 10 => (some [], [], true)
  | held, byte => (if byte = 10 then some [] else none, (held.getD []).drop 1 ++ [byte], false)

/-- A server that takes every mail. -/
def sampleServer : Server (List UInt8) (Option (List UInt8)) Unit where
  params := ⟨"mx.b.test", 1000, 10, 10, false⟩
  requests := sampleRequests
  data := .ofStep dotStep (some [])
  handler :=
    { rcpt := fun _ _ => (.accept, ())
      deliver := fun _ _ => (.ok (), ())
      unixNow := fun _ => (0, ()) }
  remote := "192.0.2.7"

theorem sampleServer_chunkFree : sampleServer.ChunkFree where
  requests := Scanner.ofStep_chunkFree _ _
  data := DataReceiver.ofStep_chunkFree _ _

/-- A mail, in one read and in three. -/
def sampleChunks : List (List UInt8) × List (List UInt8) :=
  ([ascii "MAIL FROM:<a@a.test>\r\nRCPT TO:<b@b.test>\r\nDATA\r\nhi\r\n.\r\n"],
    [ascii "MAIL FROM:<a@a.test>\r\nRCPT TO:<b@b.t", ascii "est>\r\nDATA\r\nhi\r\n.",
      ascii "\r\n"])

/-- One mail in two ways. -/
theorem sampleServer_chunks :
    sampleServer.serveConnection () (Server.reads sampleChunks.1) none (Server.reads []) =
      sampleServer.serveConnection () (Server.reads sampleChunks.2) none (Server.reads []) :=
  Server.serveConnection_chunks sampleServer_chunkFree (by decide) (by decide) (by decide)
    (by decide) (by decide) rfl () none

end Owney.Smtp
