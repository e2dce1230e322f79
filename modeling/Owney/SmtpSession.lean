import Owney.Lib.Scanning
import Mathlib.Data.Int.Basic
import Mathlib.Tactic.SplitIfs

/-!
# An inbound SMTP session

`serve_connection` and `run_protocol`: the bytes of a client go through the mode the
session is in, command parsing or the collection of a message, until they are used up;
then the replies are written and the next bytes are read.

The parsers are from outside: `RequestReceiver` yields requests, `DataReceiver` the bytes
of a message up to the final dot. So is the handler, which knows the recipients and takes
the mails; it answers by a state of its own, which also says what the clock shows.

`Conn.log` is there for the statements about a session: what it did, in order.
-/

namespace Owney.Smtp

open Scanning

/-! ## Dates -/

/-- `civil_from_days`. -/
def civilFromDays (z : ℤ) : ℤ × ℤ × ℤ :=
  let z := z + 719468
  let era := z / 146097
  let doe := z % 146097
  let yoe := (doe - doe / 1460 + doe / 36524 - doe / 146096) / 365
  let y := yoe + era * 400
  let doy := doe - (365 * yoe + yoe / 4 - yoe / 100)
  let mp := (5 * doy + 2) / 153
  let d := doy - (153 * mp + 2) / 5 + 1
  let m := if mp < 10 then mp + 3 else mp - 9
  (if m ≤ 2 then y + 1 else y, m, d)

/-- `{:02}`. -/
def twoDigits (n : ℤ) : String := if 0 ≤ n ∧ n < 10 then "0" ++ toString n else toString n

/-- `WEEKDAYS`. -/
def weekdays : List String := ["Sun", "Mon", "Tue", "Wed", "Thu", "Fri", "Sat"]

/-- `MONTHS`. -/
def months : List String :=
  ["Jan", "Feb", "Mar", "Apr", "May", "Jun", "Jul", "Aug", "Sep", "Oct", "Nov", "Dec"]

/-- `rfc2822_utc`. -/
def rfc2822Utc (unix : ℤ) : String :=
  let days := unix / 86400
  let secs := unix % 86400
  let (year, month, day) := civilFromDays days
  let weekday := weekdays.getD ((days + 4) % 7).toNat ""
  let monthName := months.getD (month - 1).toNat ""
  weekday ++ ", " ++ twoDigits day ++ " " ++ monthName ++ " " ++ toString year ++ " " ++
    twoDigits (secs / 3600) ++ ":" ++ twoDigits (secs % 3600 / 60) ++ ":" ++
    twoDigits (secs % 60) ++ " +0000"

/-! ## Requests and parsers -/

/-- The parser's errors other than the wish for more data. -/
inductive SmtpError where
  | responseTooLong
  | unknownCommand
  | invalidSenderAddress
  | invalidRecipientAddress
  | other
  deriving DecidableEq

/-- A parsed command, with what the session reads of it. -/
inductive Request where
  | ehlo (host : String)
  | helo (host : String)
  | mail (address : String) (size : ℕ)
  | rcpt (address : String)
  | data
  | rset
  | noop
  | quit
  | vrfy
  | expn
  | startTls
  | auth
  | bdat
  | lhlo
  | help
  | etrn
  | atrn
  | burl
  deriving DecidableEq

/-- The parser of commands: wanting more is its `NeedsMoreData`. -/
abbrev RequestReceiver (R : Type) : Type := Scanner R (Except SmtpError Request) UInt8

/-- What the parser of messages makes of some bytes: the buffer with what was added to it,
and the unread rest once the final dot is there. -/
structure Ingested (D : Type) where
  state : D
  buffer : List UInt8
  rest : Option (List UInt8)

/-- The parser of messages. -/
structure DataReceiver (D : Type) where
  new : D
  ingest : D → List UInt8 → List UInt8 → Ingested D
  progress : ∀ {d bytes buffer rest}, (ingest d bytes buffer).rest = some rest →
    rest.length < bytes.length

/-! ## The handler -/

/-- Outcome of recipient validation. -/
inductive RcptVerdict where
  | accept
  | unknownUser
  | notLocal
  | tryAgainLater
  deriving DecidableEq

/-- Why a delivery failed. -/
inductive DeliverError where
  | temporary
  | permanent
  deriving DecidableEq

/-- A fully received message. -/
structure InboundMail where
  remote : String
  helo : String
  mailFrom : String
  recipients : List String
  raw : List UInt8
  deriving DecidableEq

/-- The server's policy and clock. -/
structure MailHandler (W : Type) where
  rcpt : W → String → RcptVerdict × W
  deliver : W → InboundMail → Except DeliverError Unit × W
  unixNow : W → ℤ × W

/-- The settings of a listener; `tls` says whether STARTTLS is configured. -/
structure SmtpParams where
  hostname : String
  maxMessageSize : ℕ
  maxRecipients : ℕ
  maxErrors : ℕ
  tls : Bool

/-! ## Sessions -/

/-- What the bytes of the client are for. -/
inductive Mode (D : Type) where
  | command
  | data (receiver : D) (data : List UInt8) (discarding : Bool)

/-- The state of a session. -/
structure Session (D : Type) where
  mode : Mode D
  helo : String
  mailFrom : Option String
  recipients : List String
  errors : ℕ
  tlsActive : Bool

/-- What a session did. -/
inductive Happened where
  /-- A sender was accepted. -/
  | mail (address : String)
  /-- The handler was asked about a recipient. -/
  | rcpt (address : String) (verdict : RcptVerdict)
  /-- EHLO, HELO or RSET. -/
  | reset
  /-- The handshake after STARTTLS. -/
  | upgraded
  /-- A message was handed to the handler: the mail, and its body. -/
  | delivered (mail : InboundMail) (data : List UInt8) (result : Except DeliverError Unit)
  /-- A message was too large. -/
  | discarded

/-- A connection: the session, the command parser, the replies not yet written, the
handler's state, the replies written and what happened. -/
structure Conn (R D W : Type) where
  session : Session D
  receiver : R
  out : String
  world : W
  replies : String
  log : List Happened

/-- `Flow`. -/
inductive Flow where
  | continue
  | quit
  | startTls
  deriving DecidableEq

/-- What a turn of the inner loop is followed by. -/
inductive Next where
  | drain (rest : List UInt8)
  | wait
  | close
  | startTls

/-- What follows a command. -/
def Flow.next (rest : List UInt8) : Flow → Next
  | .continue => .drain rest
  | .quit => .close
  | .startTls => .startTls

/-- A server: its settings, parsers and handler, and the client's address. -/
structure Server (R D W : Type) where
  params : SmtpParams
  requests : RequestReceiver R
  data : DataReceiver D
  handler : MailHandler W
  remote : String

/-- `reset_transaction`. -/
def Session.resetTransaction {D : Type} (s : Session D) : Session D :=
  { s with mailFrom := none, recipients := [] }

variable {R D W : Type}

namespace Conn

/-- `reply`. -/
def reply (c : Conn R D W) (line : String) : Conn R D W :=
  { c with out := c.out ++ (line ++ "\r\n") }

/-- Note what happened. -/
def note (c : Conn R D W) (h : Happened) : Conn R D W := { c with log := c.log ++ [h] }

/-- Change the session. -/
def onSession (c : Conn R D W) (f : Session D → Session D) : Conn R D W :=
  { c with session := f c.session }

/-- Write the replies. -/
def flush (c : Conn R D W) : Conn R D W := { c with out := "", replies := c.replies ++ c.out }

@[simp] theorem reply_session (c : Conn R D W) (line : String) :
    (c.reply line).session = c.session := rfl
@[simp] theorem reply_log (c : Conn R D W) (line : String) : (c.reply line).log = c.log := rfl
@[simp] theorem note_session (c : Conn R D W) (h : Happened) :
    (c.note h).session = c.session := rfl
@[simp] theorem note_log (c : Conn R D W) (h : Happened) : (c.note h).log = c.log ++ [h] := rfl
@[simp] theorem onSession_session (c : Conn R D W) (f : Session D → Session D) :
    (c.onSession f).session = f c.session := rfl
@[simp] theorem onSession_log (c : Conn R D W) (f : Session D → Session D) :
    (c.onSession f).log = c.log := rfl
@[simp] theorem flush_session (c : Conn R D W) : c.flush.session = c.session := rfl
@[simp] theorem flush_log (c : Conn R D W) : c.flush.log = c.log := rfl

end Conn

namespace Server

variable (S : Server R D W)

/-- The value of a character in a header: control characters are blanked. -/
def headerChar (c : Char) : Char :=
  if c = '\r' ∨ c = '\n' ∨ c.toNat < 0x20 ∨ c.toNat = 0x7f then ' ' else c

/-- `received_header`. -/
def receivedHeader (s : Session D) (now : ℤ) : String :=
  let helo := if s.helo = "" then "unknown" else String.ofList (s.helo.toList.map headerChar)
  let protocol := if s.tlsActive then "ESMTPS" else "ESMTP"
  "Received: from " ++ helo ++ " ([" ++ S.remote ++ "])\r\n\tby " ++ S.params.hostname ++
    " with " ++ protocol ++ ";\r\n\t" ++ rfc2822Utc now ++ "\r\n"

/-- The greeting of EHLO. -/
def ehloText (s : Session D) : String :=
  let starttls := if S.params.tls ∧ !s.tlsActive then "250-STARTTLS\r\n" else ""
  "250-" ++ S.params.hostname ++ " greets you\r\n250-PIPELINING\r\n250-SIZE " ++
    toString S.params.maxMessageSize ++ "\r\n" ++ starttls ++
    "250-8BITMIME\r\n250-ENHANCEDSTATUSCODES\r\n250 SMTPUTF8"

/-- The reply to a recipient. -/
def rcptText : RcptVerdict → String
  | .accept => "250 2.1.5 OK"
  | .unknownUser => "550 5.1.1 no such user here"
  | .notLocal => "550 5.7.1 relaying denied"
  | .tryAgainLater => "451 4.3.0 temporary lookup failure, try again"

/-- `apply`: MAIL. -/
def applyMail (c : Conn R D W) (address : String) (size : ℕ) : Conn R D W :=
  if c.session.mailFrom.isSome then c.reply "503 5.5.1 nested MAIL command"
  else if size ≠ 0 ∧ size > S.params.maxMessageSize then
    c.reply "552 5.3.4 message size exceeds limit"
  else
    ((c.onSession fun s => { s with mailFrom := some address }).note (.mail address)).reply
      "250 2.1.0 OK"

/-- `apply`: RCPT. -/
def applyRcpt (c : Conn R D W) (address : String) : Conn R D W :=
  if c.session.mailFrom.isNone then c.reply "503 5.5.1 MAIL first"
  else if c.session.recipients.length ≥ S.params.maxRecipients then
    c.reply "452 4.5.3 too many recipients"
  else
    let (verdict, world) := S.handler.rcpt c.world address
    let c := { c with world := world }.note (.rcpt address verdict)
    let c := match verdict with
      | .accept => c.onSession fun s => { s with recipients := s.recipients ++ [address] }
      | _ => c
    c.reply (rcptText verdict)

/-- `apply`: DATA. -/
def applyData (c : Conn R D W) : Conn R D W :=
  if c.session.recipients = [] then c.reply "503 5.5.1 RCPT first"
  else
    (c.reply "354 go ahead, end with <CRLF>.<CRLF>").onSession fun s =>
      { s with mode := .data S.data.new [] false }

/-- `apply`. -/
def apply (c : Conn R D W) : Request → Conn R D W × Flow
  | .ehlo host =>
    ((((c.onSession fun s => { s with helo := host }.resetTransaction).note .reset).reply
      (S.ehloText c.session)), .continue)
  | .helo host =>
    ((((c.onSession fun s => { s with helo := host }.resetTransaction).note .reset).reply
      ("250 " ++ S.params.hostname)), .continue)
  | .mail address size => (S.applyMail c address size, .continue)
  | .rcpt address => (S.applyRcpt c address, .continue)
  | .data => (S.applyData c, .continue)
  | .rset => (((c.onSession Session.resetTransaction).note .reset).reply "250 2.0.0 OK", .continue)
  | .noop => (c.reply "250 2.0.0 OK", .continue)
  | .quit => (c.reply "221 2.0.0 bye", .quit)
  | .vrfy | .expn =>
    (c.reply "252 2.5.2 cannot verify, send some mail and find out", .continue)
  | .startTls =>
    if c.session.tlsActive then (c.reply "503 5.5.1 already in TLS", .continue)
    else if S.params.tls then (c.reply "220 2.0.0 ready to start TLS", .startTls)
    else (c.reply "502 5.5.1 STARTTLS not available", .continue)
  | .auth | .bdat | .lhlo | .help | .etrn | .atrn | .burl =>
    (c.reply "502 5.5.1 command not implemented", .continue)

/-- The reply to a command that does not parse. -/
def errorText : SmtpError → String
  | .unknownCommand => "500 5.5.2 command not recognized"
  | .invalidSenderAddress => "501 5.1.7 invalid sender address"
  | .invalidRecipientAddress => "501 5.1.3 invalid recipient address"
  | _ => "501 5.5.4 syntax error"

/-- `protocol_error`: whether the connection goes on. -/
def protocolError (c : Conn R D W) (e : SmtpError) : Conn R D W × Bool :=
  if e = .responseTooLong then (c.reply "500 5.5.2 line too long, closing", false)
  else
    let c := c.onSession fun s => { s with errors := s.errors + 1 }
    if c.session.errors ≥ S.params.maxErrors then
      (c.reply "421 4.7.0 too many errors, closing", false)
    else (c.reply (errorText e), true)

/-- The reply to a delivery. -/
def deliverText : Except DeliverError Unit → String
  | .ok () => "250 2.0.0 accepted for delivery"
  | .error .temporary => "451 4.3.0 temporary delivery failure, try again"
  | .error .permanent => "550 5.7.1 message rejected"

/-- The mail that a session hands over. -/
def inboundMail (s : Session D) (now : ℤ) (data : List UInt8) : InboundMail :=
  { remote := S.remote
    helo := s.helo
    mailFrom := s.mailFrom.getD ""
    recipients := s.recipients
    raw := (S.receivedHeader s now).toUTF8.toList ++ data }

/-- `finish_data`. -/
def finishData (c : Conn R D W) : Conn R D W :=
  match c.session.mode with
  | .command => c.reply "451 4.3.0 internal error"
  | .data _ data discarding =>
    let c := c.onSession fun s => { s with mode := .command }
    if discarding then
      ((c.onSession Session.resetTransaction).note .discarded).reply
        "552 5.3.4 message size exceeds limit"
    else
      let (now, world) := S.handler.unixNow c.world
      let mail := S.inboundMail c.session now data
      let (result, world) := S.handler.deliver world mail
      let c := { c with world := world }.onSession Session.resetTransaction
      (c.note (.delivered mail data result)).reply (deliverText result)

/-- A turn of the inner loop of `run_protocol` in command mode. -/
def turnCommand (c : Conn R D W) (bytes : List UInt8) : Conn R D W × Next :=
  match S.requests.scan c.receiver bytes with
  | .more receiver => ({ c with receiver := receiver }, .wait)
  | .done (.ok request) receiver rest =>
    let (c, flow) := S.apply { c with receiver := receiver } request
    (c, flow.next rest)
  | .done (.error e) receiver rest =>
    let (c, goesOn) := S.protocolError { c with receiver := receiver } e
    (c, bif goesOn then .drain rest else .close)

/-- The mode after some bytes of a message: one that is too large is not kept. -/
def collected (ingested : Ingested D) (discarding : Bool) : Mode D :=
  if discarding ∨ ingested.buffer.length > S.params.maxMessageSize then
    .data ingested.state [] true
  else .data ingested.state ingested.buffer false

/-- The connection after some bytes of a message. -/
def collect (c : Conn R D W) (receiver : D) (data : List UInt8) (discarding : Bool)
    (bytes : List UInt8) : Conn R D W :=
  c.onSession fun s =>
    { s with mode := S.collected (S.data.ingest receiver bytes data) discarding }

/-- A turn of the inner loop of `run_protocol` in data mode. -/
def turnData (c : Conn R D W) (receiver : D) (data : List UInt8) (discarding : Bool)
    (bytes : List UInt8) : Conn R D W × Next :=
  let c := S.collect c receiver data discarding bytes
  match (S.data.ingest receiver bytes data).rest with
  | none => (c, .wait)
  | some rest => (S.finishData c, .drain rest)

/-- One turn of the inner loop of `run_protocol`. -/
def turn (c : Conn R D W) (bytes : List UInt8) : Conn R D W × Next :=
  match c.session.mode with
  | .command => S.turnCommand c bytes
  | .data receiver data discarding => S.turnData c receiver data discarding bytes

theorem turn_of_command {c : Conn R D W} {bytes : List UInt8} (h : c.session.mode = .command) :
    S.turn c bytes = S.turnCommand c bytes := by
  rw [turn, h]

theorem turn_of_data {c : Conn R D W} {bytes data : List UInt8} {receiver : D} {discarding : Bool}
    (h : c.session.mode = .data receiver data discarding) :
    S.turn c bytes = S.turnData c receiver data discarding bytes := by
  rw [turn, h]

/-- Each turn takes bytes, or is the last. -/
theorem turn_progress {c c' : Conn R D W} {bytes rest : List UInt8}
    (h : S.turn c bytes = (c', .drain rest)) : rest.length < bytes.length := by
  rcases hmode : c.session.mode with _ | ⟨receiver, data, discarding⟩
  · rw [S.turn_of_command hmode, turnCommand] at h
    split at h
    · cases h
    · next request receiver rest' hscan =>
      generalize S.apply { c with receiver := receiver } request = answer at h
      obtain ⟨c₁, _ | _ | _⟩ := answer <;> cases h
      exact S.requests.progress hscan
    · next e receiver rest' hscan =>
      generalize S.protocolError { c with receiver := receiver } e = answer at h
      obtain ⟨c₁, _ | _⟩ := answer <;> cases h
      exact S.requests.progress hscan
  · rw [S.turn_of_data hmode, turnData] at h
    split at h
    · cases h
    · next hrest =>
      cases h
      exact S.data.progress hrest

/-- How the bytes of a read, or a connection, come to an end. -/
inductive Stop where
  | wait
  | close
  | startTls
  deriving DecidableEq

/-- What comes next once the bytes of a read are used up. -/
def Stop.next : Stop → Next
  | .wait => .wait
  | .close => .close
  | .startTls => .startTls

/-- The inner loop of `run_protocol`: drain the bytes through the current mode. -/
def drain (c : Conn R D W) (bytes : List UInt8) : Conn R D W × Stop :=
  match h : S.turn c bytes with
  | (c, .drain rest) => drain c rest
  | (c, .wait) => (c, .wait)
  | (c, .close) => (c, .close)
  | (c, .startTls) => (c, .startTls)
termination_by bytes.length
decreasing_by exact S.turn_progress h

theorem drain_of_drain {c c' : Conn R D W} {bytes rest : List UInt8}
    (h : S.turn c bytes = (c', .drain rest)) : S.drain c bytes = S.drain c' rest := by
  rw [drain]
  split <;> next heq => cases heq.symm.trans h <;> rfl

theorem drain_of_stop {c c' : Conn R D W} {bytes : List UInt8} {stop : Stop}
    (h : S.turn c bytes = (c', stop.next)) : S.drain c bytes = (c', stop) := by
  rw [drain]
  cases stop <;> split <;> next heq => cases heq.symm.trans h <;> rfl

/-- Another turn, on fewer bytes, or the end. -/
theorem drain_cases (c : Conn R D W) (bytes : List UInt8) :
    (∃ c' rest, S.turn c bytes = (c', .drain rest) ∧ S.drain c bytes = S.drain c' rest ∧
      rest.length < bytes.length) ∨
    ∃ c' stop, S.turn c bytes = (c', Stop.next stop) ∧ S.drain c bytes = (c', stop) := by
  rcases h : S.turn c bytes with ⟨c', rest | _ | _ | _⟩
  · exact .inl ⟨c', rest, rfl, S.drain_of_drain h, S.turn_progress h⟩
  · exact .inr ⟨c', .wait, rfl, S.drain_of_stop h⟩
  · exact .inr ⟨c', .close, rfl, S.drain_of_stop h⟩
  · exact .inr ⟨c', .startTls, rfl, S.drain_of_stop h⟩

/-- What becomes of a connection from outside: bytes are read, with whether the replies to
them can be written; the client is gone or silent; the session has lasted too long. -/
inductive Event where
  | read (bytes : List UInt8) (written : Bool)
  | closed
  | failed
  | idle
  | expired

/-- The replies to a read are written, or cannot be. -/
def settle (written : Bool) : Conn R D W × Stop → Conn R D W × Stop
  | (c, .wait) => if c.out = "" ∨ written then (c.flush, .wait) else (c, .close)
  | (c, .close) => (if written then c.flush else c, .close)
  | (c, .startTls) => if written then (c.flush, .startTls) else (c, .close)

/-- One turn of the outer loop of `run_protocol`. -/
def onEvent (c : Conn R D W) : Event → Conn R D W × Stop
  | .read bytes written => settle written (S.drain { c with out := "" } bytes)
  | .closed | .failed => (c, .close)
  | .idle => ((({ c with out := "" } : Conn R D W).reply
      "421 4.4.2 idle timeout, closing").flush, .close)
  | .expired => ((({ c with out := "" } : Conn R D W).reply
      "421 4.4.2 session expired, closing").flush, .close)

/-- `run_protocol`, up to the last of the events: it may then wait for more. -/
def runProtocol (c : Conn R D W) : List Event → Conn R D W × Stop
  | [] => (c, .wait)
  | e :: events =>
    match S.onEvent c e with
    | (c, .wait) => runProtocol c events
    | stopped => stopped

/-- A fresh session, after the greeting. -/
def greet (world : W) : Conn R D W :=
  { session :=
      { mode := .command, helo := "", mailFrom := none, recipients := [], errors := 0
        tlsActive := false }
    receiver := S.requests.init
    out := ""
    world := world
    replies := "220 " ++ S.params.hostname ++ " ESMTP ready\r\n"
    log := [] }

/-- The session after the handshake; by then other connections may have been at the
handler. -/
def upgrade (c : Conn R D W) (world : W) : Conn R D W :=
  ({ c with
      session :=
        { { c.session with helo := "" }.resetTransaction with mode := .command, tlsActive := true }
      receiver := S.requests.init
      out := ""
      world := world } : Conn R D W).note .upgraded

/-- `serve_connection`: the plaintext part, and the part after the handshake if it comes to
one and it succeeds. -/
def serveConnection (world : W) (plain : List Event) (handshake : Option W) (tls : List Event) :
    Conn R D W :=
  match S.runProtocol (S.greet world) plain, handshake with
  | (c, .startTls), some world => (S.runProtocol (S.upgrade c world) tls).1
  | (c, _), _ => c

end Server

end Owney.Smtp
