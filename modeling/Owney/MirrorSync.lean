import Owney.FederationPeers
import Owney.MirrorStore

/-!
# Pulling a federated calendar

The programs of the subscribing side: `applyPage` turns a page of sealed items into events
of the mirror (`fed_apply.rs`), `syncFederation` pulls page after page from where the last
pull ended (`calendar_sync.rs`), and the periodic pass and the notifications of a peer start
pulls of their own. Between two calls of a pull any other program may make any number of
theirs, and a pull may stop after any of its calls.

A peer may answer with any page. The answer of a peer that runs the code is `calendarSync`.
-/

namespace Owney

open Programs Tables

/-! ## Code that is used -/

/-- `EventPayload`; `stop` is the field `end`. -/
structure EventPayload where
  title : String
  description : Option String
  start : ℤ
  stop : ℤ
  rrule : Option String
  authorEmail : String
  deriving DecidableEq, Repr

/-- The crates and the parts of `owney-pgp` that seal and open events. -/
structure MirrorCrates (Cert : Type) where
  /-- `str::to_lowercase` -/
  unicode : Unicode
  b64Encode : List UInt8 → String
  b64Decode : String → Except String (List UInt8)
  /-- `Cert::from_bytes` of armored text -/
  certFromBytes : String → Except String Cert
  publicArmored : Cert → Option String
  /-- the user ids of a certificate, as text -/
  userids : Cert → List String
  /-- `open_event`: own secret, author, ciphertext -/
  openEvent : Cert → Cert → List UInt8 → Except String (List UInt8)
  /-- `seal_event`: the randomness it draws, author secret, receiver, plaintext -/
  sealEvent : ℕ → Cert → Cert → List UInt8 → Option (List UInt8)
  /-- `serde_json::from_slice` -/
  fromSlice : List UInt8 → Except String EventPayload
  /-- `json!({..}).to_string()`, as bytes -/
  toJson : EventPayload → List UInt8

/-! ## Pages -/

/-- `SealedItem`. -/
structure SealedItem where
  remoteUid : String
  updatedAt : ℤ
  sealed : String
  deriving DecidableEq, Repr

/-- `SyncPage`. -/
structure SyncPage where
  authorCert : Option String := none
  items : List SealedItem := []
  nextSince : ℤ := 0
  nextAfter : String := ""
  hasMore : Bool := false
  deriving DecidableEq, Repr

/-- What a request to a peer came to. -/
inductive PeerReply where
  /-- no answer, or one that is not a page -/
  | network (text : String)
  /-- a status that is no success -/
  | status (code : ℕ)
  | page (page : SyncPage)
  deriving DecidableEq, Repr

/-! ## The serving side -/

/-- `MAX_EVENTS_PER_PAGE`. -/
def maxEventsPerPage : ℕ := 500

/-- A calendar that is shared: its outbound federation, its owner and the peer. -/
structure Share (Cert : Type) where
  federationId : String
  calendarId : CalendarId
  authorEmail : String
  authorSecret : Cert
  peerCert : Cert

variable {Cert : Type} (M : MirrorCrates Cert)

/-- What is sealed of an event. -/
def CalendarEvent.payload (e : CalendarEvent) (authorEmail : String) : EventPayload :=
  ⟨e.title, e.description, e.start, e.stop, e.rrule, authorEmail⟩

/-- One item of a page. -/
def Share.item (S : Share Cert) (seed : ℕ) (e : CalendarEvent) : Option SealedItem :=
  (M.sealEvent seed S.authorSecret S.peerCert (M.toJson (e.payload S.authorEmail))).map
    fun sealed => ⟨e.id.text, e.updatedAt, M.b64Encode sealed⟩

/-- `calendar_sync`, once all its checks have passed. -/
def calendarSync (S : Share Cert) (seed : ℕ) (db : SchedulingDb) (since : ℤ) (after : String) :
    PeerReply :=
  let events := listCalendarEventsPage db S.calendarId since after maxEventsPerPage true
  match events.mapM (S.item M seed) with
  | none => .status 500
  | some items =>
    .page
      { authorCert := M.publicArmored S.authorSecret
        items := items
        nextSince := (events.getLast?.map (·.updatedAt)).getD since
        nextAfter := (events.getLast?.map (·.id.text)).getD ""
        hasMore := events.length = maxEventsPerPage }

/-! ## Calls -/

/-- Both sides: the subscriber's tables with all event ids it ever drew, and the tables and
the clock of the server that serves the calendar. -/
structure MirrorWorld where
  db : MirrorDb
  drawn : List EventId
  serving : SchedulingDb
  now : ℕ

/-- No federations, no events. -/
def MirrorWorld.empty : MirrorWorld := ⟨.empty, [], .empty, 0⟩

/-- What the outside decides about a call: the statements SQLite fails, a fresh event id,
the subscriber's clock, the server's keys and the reply of a peer that does not serve. -/
structure MirrorChoice (Cert : Type) where
  io : Io := Io.ok
  eventId : EventId := ⟨0⟩
  now : ℤ := 0
  keys : Except String Cert := .error ""
  seed : ℕ := 0
  reply : Option PeerReply := none

/-- A call of a program. -/
inductive MirrorOp where
  | getFederation (id : String)
  | listActiveFederations
  /-- `build_client` and `server_cert` -/
  | serverKeys
  /-- `get_capable` on the sync URL of a federation, and reading the answer -/
  | getCapable (federation : CalendarFederation) (since : ℤ) (after : String)
  | federationLocalEvent (federationId remoteUid : String)
  | updateRemoteCalendarEvent (id : EventId) (payload : EventPayload)
  | createRemoteCalendarEvent (calendarId : CalendarId) (federationId : String)
      (payload : EventPayload)
  | setFederationEventMap (federationId remoteUid : String) (localEventId : EventId)
      (authorEmail : String)
  | updateFederationSyncToken (id : String) (token : Option String)
  | markFederationError (id : String)
  | insertFederation (row : CalendarFederation)
  | answerFederation (id : String) (accountId : AccountId) (status : FederationStatus)
  /-- any calendar call of the subscriber -/
  | scheduling (o : SchedulingOp)
  /-- any calendar call of the serving side -/
  | serving (o : SchedulingOp)
  /-- time passes on the serving side -/
  | tick (secs : ℕ)

/-- What a call returns. -/
@[reducible] def MirrorOp.Ret (Cert : Type) : MirrorOp → Type
  | getFederation _ => Except StorageError (Option CalendarFederation)
  | listActiveFederations => Except StorageError (List CalendarFederation)
  | serverKeys => Except String Cert
  | getCapable .. => PeerReply
  | federationLocalEvent .. => Except StorageError (Option EventId)
  | createRemoteCalendarEvent .. => Except StorageError EventId
  | updateRemoteCalendarEvent .. | setFederationEventMap .. | updateFederationSyncToken ..
  | markFederationError .. | insertFederation .. | answerFederation .. => Except StorageError PUnit
  | scheduling _ | serving _ | tick _ => PUnit

/-- One storage call of the subscriber. -/
def MirrorWorld.call {α : Type} (w : MirrorWorld) (body : Tx MirrorDb α) :
    Except StorageError α × MirrorWorld :=
  ((transaction body w.db).1, { w with db := (transaction body w.db).2 })

/-- The columns a peer sends; an update reads no calendar. -/
def EventPayload.new (p : EventPayload) (calendarId : CalendarId) (id : EventId) (now : ℤ) :
    NewEvent :=
  ⟨calendarId, p.title, p.description, p.start, p.stop, p.rrule, id, now⟩

/-- The clock a calendar call writes. -/
def SchedulingOp.clock : SchedulingOp → Option ℤ
  | .createCalendar _ new => some new.now
  | .createCalendarEvent _ new | .createRemoteCalendarEvent _ _ new
  | .updateRemoteCalendarEvent _ new => some new.now
  | .updateCalendarEvent _ _ _ now | .createSchedulingPage _ _ _ _ now
  | .updateSchedulingPage _ _ _ _ now => some now
  | .deleteCalendarEvent .. => none
  | .bookSlot _ _ fresh => some fresh.now

variable (L : Locale) (S : Share Cert)

/-- What a call does. Event ids are drawn fresh, and the serving side writes its clock, which
fits an `i64`. -/
def MirrorOp.exec : (o : MirrorOp) → MirrorChoice Cert → MirrorWorld →
    Option (o.Ret Cert × MirrorWorld)
  | getFederation id, c, w => some (w.call (getFederationTx c.io id))
  | listActiveFederations, c, w => some (w.call (listActiveFederationsTx c.io))
  | serverKeys, c, w => some (c.keys, w)
  | getCapable federation since after, c, w =>
    some (c.reply.getD (if federation.id = S.federationId
      then calendarSync M S c.seed w.serving since after else .status 404), w)
  | federationLocalEvent federationId remoteUid, c, w =>
    some (w.call (federationLocalEventTx c.io federationId remoteUid))
  | updateRemoteCalendarEvent id payload, c, w =>
    some (w.call (onScheduling (updateRemoteCalendarEventTx c.io (payload.new ⟨0⟩ id c.now))))
  | createRemoteCalendarEvent calendarId federationId payload, c, w =>
    if c.eventId ∈ w.drawn then none
    else
      some ({ w with drawn := c.eventId :: w.drawn }.call (onScheduling
        (createRemoteCalendarEventTx c.io federationId (payload.new calendarId c.eventId c.now))))
  | setFederationEventMap federationId remoteUid localEventId authorEmail, c, w =>
    some (w.call (setFederationEventMapTx c.io federationId remoteUid localEventId authorEmail c.now))
  | updateFederationSyncToken id token, c, w =>
    some (w.call (updateFederationSyncTokenTx c.io id token c.now))
  | markFederationError id, c, w => some (w.call (markFederationErrorTx c.io id))
  | insertFederation row, c, w => some (w.call (insertFederationTx c.io row))
  | answerFederation id accountId status, c, w =>
    some (w.call (answerFederationTx c.io id accountId status))
  | scheduling o, _, w =>
    if ∃ id ∈ o.freshEvent, id ∈ w.drawn then none
    else some (⟨⟩, { w with
      db := w.db.schedulingStep L o
      drawn := o.freshEvent.toList ++ w.drawn })
  | serving o, _, w =>
    if ∀ now ∈ o.clock, now = w.now then
      some (⟨⟩, { w with serving := schedulingStep L w.serving o })
    else none
  | tick secs, _, w =>
    if w.now + secs < 2 ^ 63 then some (⟨⟩, { w with now := w.now + secs }) else none

/-! ## Applying a page -/

/-- `ApplyError`. -/
inductive ApplyError where
  | crypto (text : String)
  | storage (e : StorageError)
  | untrusted (text : String)
  deriving DecidableEq, Repr

/-- A program of the subscriber. -/
abbrev MirrorProg (Cert α : Type) : Type := Prog (MirrorOp.Ret Cert) α

/-- One call. -/
def mirror (o : MirrorOp) : MirrorProg Cert (o.Ret Cert) := Prog.op o

/-- `domain_of`. -/
def domainOf (email : String) : Option String :=
  if '@' ∈ email.toList then
    some (M.unicode.toLowercase (String.ofList (email.toList.rtakeWhile (· ≠ '@'))))
  else none

/-- The checks of `apply_one`: what an item says, if it can be trusted. -/
def openItem (serverSecret : Cert) (peerDomain : String) (authorCert : Cert)
    (item : SealedItem) : Except ApplyError EventPayload :=
  match M.b64Decode item.sealed with
  | .error e => .error (.crypto e)
  | .ok ciphertext =>
    match M.openEvent serverSecret authorCert ciphertext with
    | .error e => .error (.crypto e)
    | .ok plaintext =>
      match M.fromSlice plaintext with
      | .error e => .error (.crypto e)
      | .ok payload =>
        match domainOf M payload.authorEmail with
        | none => .error (.untrusted "bad author")
        | some authorDomain =>
          if authorDomain ≠ peerDomain then
            .error (.untrusted ("author domain " ++ authorDomain ++
              " is not the federating peer " ++ peerDomain))
          else if (M.userids authorCert).any (payload.authorEmail.toList <:+: ·.toList) then
            .ok payload
          else .error (.untrusted "author cert does not match author email")

/-- The result of a storage call while an item is applied. -/
def ApplyError.ofStorage {α : Type} (r : Except StorageError α) : Except ApplyError α :=
  r.mapError .storage

/-- What `apply_one` does with an item that can be trusted. -/
def storeItem (f : CalendarFederation) (remoteUid : String) (payload : EventPayload) :
    MirrorProg Cert (Except ApplyError PUnit) := do
  match ← mirror (.federationLocalEvent f.id remoteUid) with
  | .error e => return .error (.storage e)
  | .ok (some localId) =>
    let updated ← mirror (.updateRemoteCalendarEvent localId payload)
    return ApplyError.ofStorage updated
  | .ok none =>
    match ← mirror (.createRemoteCalendarEvent f.calendarId f.id payload) with
    | .error e => return .error (.storage e)
    | .ok localId =>
      let mapped ← mirror (.setFederationEventMap f.id remoteUid localId payload.authorEmail)
      return ApplyError.ofStorage mapped

/-- `apply_one`. -/
def applyOne (serverSecret : Cert) (f : CalendarFederation) (peerDomain : String)
    (authorCert : Cert) (item : SealedItem) : MirrorProg Cert (Except ApplyError PUnit) :=
  match openItem M serverSecret peerDomain authorCert item with
  | .error e => return .error e
  | .ok payload => storeItem f item.remoteUid payload

/-- The loop of `apply_page`; a bad item is skipped. -/
def applyItems (serverSecret : Cert) (f : CalendarFederation) (peerDomain : String)
    (authorCert : Cert) : List SealedItem → ℕ → MirrorProg Cert ℕ
  | [], applied => return applied
  | item :: items, applied => do
    match ← applyOne M serverSecret f peerDomain authorCert item with
    | .ok _ => applyItems serverSecret f peerDomain authorCert items (applied + 1)
    | .error _ => applyItems serverSecret f peerDomain authorCert items applied

/-- `apply_page`. -/
def applyPage (serverSecret : Cert) (f : CalendarFederation) (page : SyncPage) :
    MirrorProg Cert (Except ApplyError ℕ) :=
  match f.peerDomain with
  | none => return .error (.untrusted "federation has no peer domain")
  | some peerDomain =>
    match page.authorCert with
    | none =>
      if page.items.isEmpty then return .ok 0
      else return .error (.untrusted "page missing author_cert")
    | some armored =>
      match M.certFromBytes armored with
      | .error e => return .error (.crypto e)
      | .ok authorCert => do
        let applied ← applyItems M serverSecret f peerDomain authorCert page.items 0
        return .ok applied

/-! ## Pulls -/

/-- `SyncError`. -/
inductive SyncError where
  | network (text : String)
  | remote (code : ℕ)
  | storage (e : StorageError)
  | crypto (text : String)
  | apply (e : ApplyError)
  | misconfigured (text : String)
  | federationNotFound
  deriving DecidableEq, Repr

/-- `parse_cursor`. -/
def parseCursor (token : Option String) : ℤ × String :=
  match token.bind fun t => splitOnce '|' t.toList with
  | some (since, after) => ((parseI64 (String.ofList since)).getD 0, String.ofList after)
  | none => (0, "")

/-- The token that is stored. -/
def cursorText (since : ℤ) (after : String) : String := since.repr ++ "|" ++ after

/-- The loop of `sync_federation` and what follows it. A peer decides how many rounds there
are; a pull that is not done after `rounds` of them has no answer yet. -/
def pullFrom (serverSecret : Cert) (f : CalendarFederation) :
    ℕ → ℤ → String → ℕ → MirrorProg Cert (Option (Except SyncError ℕ))
  | 0, _, _, _ => return none
  | rounds + 1, since, after, applied => do
    match ← mirror (.getCapable f since after) with
    | .network text => return some (.error (.network text))
    | .status code =>
      if code = 404 then return some (.error .federationNotFound)
      else return some (.error (.remote code))
    | .page page =>
      match ← applyPage M serverSecret f page with
      | .error e => return some (.error (.apply e))
      | .ok n =>
        if page.hasMore then
          pullFrom serverSecret f rounds page.nextSince page.nextAfter (applied + n)
        else
          match ← mirror (.updateFederationSyncToken f.id
              (some (cursorText page.nextSince page.nextAfter))) with
          | .error e => return some (.error (.storage e))
          | .ok _ => return some (.ok (applied + n))

/-- `sync_federation`. -/
def syncFederation (rounds : ℕ) (f : CalendarFederation) :
    MirrorProg Cert (Option (Except SyncError ℕ)) :=
  match f.capabilitySecret, f.peerDomain with
  | none, _ => return some (.error (.misconfigured "no capability secret"))
  | some _, none => return some (.error (.misconfigured "no peer domain"))
  | some _, some _ => do
    match ← mirror .serverKeys with
    | .error e => return some (.error (.crypto e))
    | .ok serverSecret =>
      pullFrom M serverSecret f rounds (parseCursor f.syncToken).1 (parseCursor f.syncToken).2 0

/-- `sync_one`. -/
def syncOne (rounds : ℕ) (federationId : String) :
    MirrorProg Cert (Option (Except SyncError ℕ)) := do
  match ← mirror (.getFederation federationId) with
  | .error e => return some (.error (.storage e))
  | .ok none => return some (.error .federationNotFound)
  | .ok (some f) =>
    if f.Active then syncFederation M rounds f
    else return some (.error (.misconfigured "not an active inbound federation"))

/-- `SyncRunStats`. -/
structure SyncRunStats where
  total : ℕ := 0
  succeeded : ℕ := 0
  failed : ℕ := 0
  applied : ℕ := 0
  deriving DecidableEq, Repr

/-- The loop of `sync_all`. -/
def syncEach (rounds : ℕ) : List CalendarFederation → SyncRunStats →
    MirrorProg Cert (Option SyncRunStats)
  | [], run => return some run
  | f :: fs, run => do
    match ← syncFederation M rounds f with
    | none => return none
    | some (.ok n) =>
      syncEach rounds fs { run with
        total := run.total + 1
        succeeded := run.succeeded + 1
        applied := run.applied + n }
    | some (.error _) =>
      -- a failure of this call is only logged
      let _ ← mirror (.markFederationError f.id)
      syncEach rounds fs { run with total := run.total + 1, failed := run.failed + 1 }

/-- `sync_all`. -/
def syncAll (rounds : ℕ) : MirrorProg Cert (Option (Except SyncError SyncRunStats)) := do
  match ← mirror .listActiveFederations with
  | .error e => return some (.error (.storage e))
  | .ok fs =>
    let run ← syncEach M rounds fs {}
    return run.map .ok

/-- `receive_notify`, once the signature of the peer was verified; the pull it starts. -/
def receiveNotify (rounds : ℕ) (peer : VerifiedPeer) (federationId : String) :
    MirrorProg Cert (Option (Except SyncError ℕ)) := do
  match ← mirror (.getFederation federationId) with
  | .ok (some f) =>
    if f.direction = some .inbound ∧ f.peerDomain = some peer.domain ∧
        f.peerFingerprint = some peer.fingerprint then
      syncOne M rounds federationId
    else return some (.error (.remote 403))
  | _ => return some (.error (.remote 403))

/-! ## The system -/

/-- What starts a program. -/
inductive MirrorRequest where
  /-- one periodic pass -/
  | poll (rounds : ℕ)
  | notify (rounds : ℕ) (peer : VerifiedPeer) (federationId : String)
  | insertFederation (row : CalendarFederation)
  | answerFederation (id : String) (accountId : AccountId) (status : FederationStatus)
  | scheduling (o : SchedulingOp) (isLocal : o.Local)
  | serving (o : SchedulingOp)
  | tick (secs : ℕ)

/-- What a program answers, as far as pulls go. -/
inductive MirrorAnswer where
  | polled (result : Option (Except SyncError SyncRunStats))
  | notified (result : Option (Except SyncError ℕ))
  | done

/-- The program of a request. -/
def mirrorHandle : MirrorRequest → MirrorProg Cert MirrorAnswer
  | .poll rounds => do
    let result ← syncAll M rounds
    return .polled result
  | .notify rounds peer federationId => do
    let result ← receiveNotify M rounds peer federationId
    return .notified result
  | .insertFederation row => do
    let _ ← mirror (.insertFederation row)
    return .done
  | .answerFederation id accountId status => do
    let _ ← mirror (.answerFederation id accountId status)
    return .done
  | .scheduling o _ => do
    let _ ← mirror (.scheduling o)
    return .done
  | .serving o => do
    let _ ← mirror (.serving o)
    return .done
  | .tick secs => do
    let _ ← mirror (.tick secs)
    return .done

/-- Both sides with all programs ever started. -/
abbrev MirrorSys (Cert : Type) : Type :=
  Sys (MirrorOp.Ret Cert) MirrorRequest MirrorAnswer (MirrorChoice Cert) MirrorWorld

/-- A call of a program, with all around it. -/
abbrev MirrorEvent (Cert : Type) : Type :=
  Event (MirrorOp.Ret Cert) MirrorRequest (MirrorChoice Cert) MirrorWorld

/-- A program starts, or one makes its next call. -/
abbrev MirrorMove (Cert : Type) : Type := Move MirrorRequest (MirrorChoice Cert)

/-- No programs and nothing stored. -/
def MirrorSys.empty : MirrorSys Cert := Sys.init MirrorWorld.empty

/-- The system after some moves. -/
def MirrorSys.run (s : MirrorSys Cert) (ms : List (MirrorMove Cert)) : MirrorSys Cert :=
  Runs.run (Programs.step (mirrorHandle M) (MirrorOp.exec M L S)) s ms

end Owney
