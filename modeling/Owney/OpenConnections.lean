import Owney.OidcTables
import Owney.JmapDispatch
import Owney.Edits

/-!
# Open connections

The transports of the JMAP endpoint (`push.rs`, and `api` of `lib.rs`): an HTTP request, a
WebSocket and an EventSource stream. Each begins with `authenticate_scoped`, which looks the
bearer token up, and goes on with the account that this found; a WebSocket goes on for as many
frames as the client sends, and a stream for as many changes as the server publishes.

A step is one thing that happens: a connection is opened, or does the next thing it has to do, or
a call is made on the tables of tokens and accounts. What a JMAP request does to the mail is the
dispatcher's; it does not touch those tables.
-/

namespace Owney.Access

open Tables

/-! ## Accounts -/

/-- The check of `rusqlite` that a statement has as many parameters as it is given values. -/
def bindParameters (parameters values : ℕ) : Tx OAuthDb PUnit :=
  Tx.require (values = parameters) .sqlite

/-- `Storage::create_account`, as far as it is about the row. -/
def createAccountTx (io : Io) (row : AccountsRow) : Tx OAuthDb PUnit := do
  let db ← Tx.get
  Tx.require (∀ a ∈ db.accounts, a.id ≠ row.id ∧ nocaseEq a.email row.email = false) .sqlite
  Tx.exec io 0 fun db => { db with accounts := db.accounts ++ [⟨row, none⟩] }

/-- `Storage::disable_account`:
`UPDATE accounts SET disabled_at = ?1 WHERE id = ?2` with the time and the id. -/
def disableAccountTx (io : Io) (id : AccountId) (now : ℤ) : Tx OAuthDb PUnit := do
  bindParameters 2 2
  Tx.exec io 0 fun db =>
    { db with
      accounts := update (·.id = id) (fun a => { a with disabledAt := some now }) db.accounts }

/-- `Storage::enable_account`:
`UPDATE accounts SET disabled_at = NULL WHERE id = ?2` with the id alone. -/
def enableAccountTx (io : Io) (id : AccountId) : Tx OAuthDb PUnit := do
  bindParameters 2 1
  Tx.exec io 0 fun db =>
    { db with accounts := update (·.id = id) (fun a => { a with disabledAt := none }) db.accounts }

/-! ## Connections -/

/-- An event on the bus; the push transports only look at the first kind. -/
inductive BusEvent where
  | stateChange (accountId : AccountId) (changed : List (DataType × ModSeq))
  | other
  deriving DecidableEq

/-- A request to one of the endpoints; for `POST /jmap/api` with its body. -/
inductive Transport where
  | http (body : String)
  | webSocket
  | eventSource
  deriving DecidableEq

/-- How far a connection is. -/
inductive Stage where
  /-- authenticated; the handler has yet to go on -/
  | accepted
  /-- an EventSource stream, and what waits in its receiver -/
  | stream (bus : List BusEvent)
  /-- the loop of `handle_socket`, what waits in its receiver, and `push_enabled` -/
  | socket (bus : List BusEvent) (pushEnabled : Bool)
  deriving DecidableEq

/-- A connection: the request that opened it, the account it was authenticated for. -/
structure Connection where
  transport : Transport
  authorization : Option String
  account : AccountsRow
  stage : Stage
  deriving DecidableEq

/-- The receiver of a connection gets an event. -/
def Connection.hear (event : BusEvent) (c : Connection) : Connection :=
  match c.stage with
  | .accepted => c
  | .stream bus => { c with stage := .stream (bus ++ [event]) }
  | .socket bus pushEnabled => { c with stage := .socket (bus ++ [event]) pushEnabled }

/-- The code the endpoints are built on, and the configuration. -/
structure Endpoint (σ : Type) where
  oidc : Oidc
  /-- `serde_json::from_str::<Value>` -/
  parse : String → Option Jmap.Json
  /-- `serde_json::from_value::<Request>` -/
  readRequest : Jmap.Json → Option Jmap.Request
  /-- `serde_json::from_str::<Request>` -/
  parseRequest : String → Option Jmap.Request
  maxSizeRequest : ℕ
  dispatcher : Jmap.Dispatcher AccountsRow σ
  referenceError : Jmap.Value → String

/-- The tables, the mail, the open connections, and the numbers given to connections so far. -/
structure World (σ : Type) where
  oidc : OidcWorld
  mail : σ
  conns : ℕ → Option Connection
  used : List ℕ

/-- The first state. -/
def World.start {σ : Type} (mail : σ) : World σ := ⟨OidcWorld.empty, mail, fun _ => none, []⟩

/-- What the server sends or does on a connection. -/
inductive Output where
  | unauthorized
  | insufficientScope (scope : String)
  | internalError
  | badRequest (error : Jmap.RequestError)
  /-- a frame that is no request -/
  | notRequest (detail : String)
  /-- a request is processed for an account; a panic has no answer -/
  | processed (accountId : AccountId) (request : Jmap.Request)
      (answer : Option (Except Jmap.RequestError Jmap.Response)) (requestId : Option Jmap.Value)
  /-- a `StateChange` is pushed for an account -/
  | stateChange (accountId : AccountId) (changed : List (DataType × ModSeq))

/-- The account whose mail the output is about. -/
def Output.account : Output → Option AccountId
  | processed accountId .. | stateChange accountId _ => some accountId
  | _ => none

/-- A step. -/
inductive Event where
  /-- connection `k` is opened: `authenticate_scoped` -/
  | connect (k : ℕ) (transport : Transport) (authorization : Option String) (io : Io)
  /-- the handler of `k` goes on: `api` to the end, the others to their subscription -/
  | proceed (k : ℕ)
  /-- a text frame arrives on WebSocket `k` -/
  | frame (k : ℕ) (text : String)
  /-- the next event of the receiver of `k` -/
  | receive (k : ℕ)
  /-- `RecvError::Lagged`: the oldest events are lost -/
  | lagged (k : ℕ) (missed : ℕ)
  | close (k : ℕ)
  | publish (event : BusEvent)
  /-- a call on the tables of tokens, or the clock -/
  | table (o : OidcOp) (c : Choice)
  | createAccount (row : AccountsRow) (io : Io)
  | disableAccount (id : AccountId) (io : Io)
  | enableAccount (id : AccountId) (io : Io)

/-- A call on the tables other than accounts. -/
def OfTokens : OidcOp → Bool
  | .setAccounts _ => false
  | _ => true

section Step

variable {σ : Type} (S : Endpoint σ) (w : World σ)

/-- The token of `Authorization: Bearer …`. -/
def bearerToken (authorization : Option String) : Option String :=
  authorization.bind (stripPrefix "Bearer ")

/-- `authenticate_scoped`. -/
def authenticateScoped (authorization : Option String) (scope : String) (io : Io) :
    Except Output AccountsRow :=
  match bearerToken authorization with
  | none => .error .unauthorized
  | some token =>
    if hasPrefix tokenPrefix token then
      match (transaction
        (accountAndAccessByTokenTx io (S.oidc.blake3 token) w.oidc.unix) w.oidc.db).1 with
      | .ok (some (account, access)) =>
        if access.allows scope then .ok account else .error (.insufficientScope scope)
      | .ok none => .error .unauthorized
      | .error _ => .error .internalError
    else .error .unauthorized

/-- What `handle_frame` reads in a text. -/
inductive Frame where
  | request (request : Jmap.Request) (id : Option Jmap.Value)
  | pushEnable
  | pushDisable
  | refused (detail : String)

/-- `Value::get` with a key. -/
def member (value : Jmap.Json) (key : String) : Option Jmap.Value :=
  match value.value with
  | .object members => Jmap.Members.get members key
  | _ => none

/-- The reading part of `handle_frame`. -/
def readFrame (text : String) : Frame :=
  match S.parse text with
  | none => .refused "frame is not JSON"
  | some value =>
    match member value "@type" with
    | some (.string "Request") =>
      match S.readRequest value with
      | none => .refused "not a JMAP request"
      | some request => .request request (member value "id")
    | some (.string "WebSocketPushEnable") => .pushEnable
    | some (.string "WebSocketPushDisable") => .pushDisable
    | _ => .refused "unknown @type"

/-- The open connections with another at `k`. -/
def World.set (k : ℕ) (c : Option Connection) : World σ :=
  { w with conns := Function.update w.conns k c }

/-- `dispatcher.process` in the context of connection `k`; a panic ends its task, and the
connection `c` is what remains otherwise. -/
def process (k : ℕ) (account : AccountsRow) (request : Jmap.Request)
    (requestId : Option Jmap.Value) (c : Option Connection) : World σ × Option Output :=
  match S.dispatcher.process S.referenceError account request w.mail with
  | none => (w.set k none, some (.processed account.id request none requestId))
  | some (answer, mail) =>
    ({ w.set k c with mail }, some (.processed account.id request (some answer) requestId))

/-- The rest of `api`, after authentication. -/
def api (k : ℕ) (account : AccountsRow) (body : String) : World σ × Option Output :=
  if body.utf8ByteSize > S.maxSizeRequest then
    (w.set k none, some (.badRequest (.limit "maxSizeRequest")))
  else match S.parseRequest body with
  | none => (w.set k none, some (.badRequest .notRequest))
  | some request => process S w k account request none none

/-- The next event of a receiver; the account of a connection is the one it was opened for. -/
def pushed (accountId : AccountId) (enabled : Bool) : BusEvent → Option Output
  | .stateChange changedAccount changed =>
    if enabled ∧ changedAccount = accountId then some (.stateChange accountId changed) else none
  | .other => none

/-- A call on the account table. -/
def World.accounts (body : Tx OAuthDb PUnit) : World σ :=
  { w with oidc := { w.oidc with db := (transaction body w.oidc.db).2 } }

/-- A step: the next state, and what the server does on the connection. -/
def step : Event → World σ × Option Output
  | .connect k transport authorization io =>
    if k ∈ w.used then (w, none)
    else match authenticateScoped S w authorization scopeMail io with
    | .error out => ({ w with used := k :: w.used }, some out)
    | .ok account =>
      ({ w.set k (some ⟨transport, authorization, account, .accepted⟩) with used := k :: w.used },
        none)
  | .proceed k =>
    match w.conns k with
    | some ⟨.http body, _, account, .accepted⟩ => api S w k account body
    | some ⟨.webSocket, authorization, account, .accepted⟩ =>
      (w.set k (some ⟨.webSocket, authorization, account, .socket [] false⟩), none)
    | some ⟨.eventSource, authorization, account, .accepted⟩ =>
      (w.set k (some ⟨.eventSource, authorization, account, .stream []⟩), none)
    | _ => (w, none)
  | .frame k text =>
    match w.conns k with
    | some ⟨transport, authorization, account, .socket bus pushEnabled⟩ =>
      let next pushEnabled := some ⟨transport, authorization, account, .socket bus pushEnabled⟩
      match readFrame S text with
      | .request request id => process S w k account request id (next pushEnabled)
      | .pushEnable => (w.set k (next true), none)
      | .pushDisable => (w.set k (next false), none)
      | .refused detail => (w, some (.notRequest detail))
    | _ => (w, none)
  | .receive k =>
    match w.conns k with
    | some ⟨transport, authorization, account, .stream (event :: bus)⟩ =>
      (w.set k (some ⟨transport, authorization, account, .stream bus⟩),
        pushed account.id true event)
    | some ⟨transport, authorization, account, .socket (event :: bus) pushEnabled⟩ =>
      (w.set k (some ⟨transport, authorization, account, .socket bus pushEnabled⟩),
        pushed account.id pushEnabled event)
    | _ => (w, none)
  | .lagged k missed =>
    match w.conns k with
    | some ⟨transport, authorization, account, .stream bus⟩ =>
      (w.set k (some ⟨transport, authorization, account, .stream (bus.drop missed)⟩), none)
    | some ⟨transport, authorization, account, .socket bus pushEnabled⟩ =>
      (w.set k (some ⟨transport, authorization, account, .socket (bus.drop missed) pushEnabled⟩),
        none)
    | _ => (w, none)
  | .close k => (w.set k none, none)
  | .publish event => ({ w with conns := fun k => (w.conns k).map (·.hear event) }, none)
  | .table o c =>
    if OfTokens o then
      match o.exec S.oidc c w.oidc with
      | none => (w, none)
      | some (_, oidc) => ({ w with oidc }, none)
    else (w, none)
  | .createAccount row io => (w.accounts (createAccountTx io row), none)
  | .disableAccount id io => (w.accounts (disableAccountTx io id w.oidc.unix), none)
  | .enableAccount id io => (w.accounts (enableAccountTx io id), none)

/-- The state after a step. -/
def next (e : Event) : World σ := (step S w e).1

/-- The state after a list of steps. -/
def after (ops : List Event) : World σ := Runs.run (next S) w ops

end Step

end Owney.Access
