import Owney.FederatedShares

/-!
# Receiving the invitation of another server

Another server that shares a calendar posts an invitation (`owney-api/src/wellknown.rs`). The
receiver makes a mirror of the calendar first and then inserts the federation under the id that the
other server has chosen; each is a storage call of its own.

* `receiveInvitation` — the endpoint, one call after the other.
* `deliver_cases` — what one request does: nothing, a mirror with its federation, or a mirror alone.
* `invitationLaw_iff` — over any sequence of requests, the refused ones leave nothing behind and
  the accepted ids have one federation and one mirror exactly if the federation fits whenever a
  mirror is made.
-/

namespace Owney.Receiving

open Programs Tables Sharing

/-! ## Calls -/

/-- A call of the endpoint. -/
inductive InviteOp where
  /-- `federation::build_client` -/
  | buildClient
  /-- `federation::discover_and_pin` -/
  | discoverAndPin (domain : String)
  /-- `verify`, of the request that is being answered -/
  | verify
  | accountByEmail (email : String)
  | createCalendar (accountId : AccountId) (name : String) (description : Option String)
  | federationPeer (domain : String)
  | createInboundFederation (federationId : String) (calendarId : CalendarId)
      (sourceEmail sourceServerUrl : String) (ty : SharingType)
      (peerDomain peerFingerprint capabilitySecret : String)

/-- What a call returns. -/
abbrev InviteOp.Ret : InviteOp → Type
  | buildClient | discoverAndPin _ => Bool
  | verify => Except Rejection VerifiedPeer
  | accountByEmail _ => Except StorageError (Option AccountsRow)
  | createCalendar .. => Except StorageError Calendar
  | federationPeer _ => Except StorageError (Option PeerServer)
  | createInboundFederation .. => Except StorageError PUnit

/-- What the outside decides while a request is answered; each call is made once at most. -/
structure Outside where
  built : Bool
  discovered : Bool
  verified : Except Rejection VerifiedPeer
  accountIo : Io
  calendarIo : Io
  /-- `CalendarId::new` -/
  calendarId : CalendarId
  /-- `unix_now`, at the calendar and at the federation -/
  calendarNow : ℤ
  peer : Except StorageError (Option PeerServer)
  federationIo : Io
  federationNow : ℤ

/-- `Storage::create_calendar`, with the fresh id and the clock. -/
def createCalendarTx (io : Io) (accountId : AccountId) (name : String)
    (description : Option String) (id : CalendarId) (now : ℤ) : Tx ShareDb Calendar := do
  let db ← Tx.get
  Tx.require (id ∉ db.calendars.map (·.id)) .sqlite
  Tx.require (accountId ∈ db.accounts.map (·.id)) .sqlite
  let calendar : Calendar := ⟨id, accountId, name, description, now, now⟩
  Tx.exec io 0 fun db => { db with calendars := db.calendars ++ [calendar] }
  return calendar

/-- A federation that is pulled from another server, as it is inserted. -/
def inboundRow (federationId : String) (calendarId : CalendarId)
    (sourceEmail sourceServerUrl : String) (ty : SharingType)
    (peerDomain peerFingerprint capabilitySecret : String) (now : ℤ) : FederationRow where
  id := federationId
  calendarId := calendarId
  targetEmail := sourceEmail
  targetServerUrl := sourceServerUrl
  status := .pending
  syncToken := none
  lastSyncAt := none
  peerDomain := some peerDomain
  peerFingerprint := some peerFingerprint
  capabilitySecret := some capabilitySecret
  direction := some .inbound
  sharingType := ty
  permissions := ty.permissions
  createdAt := now

/-- `Storage::create_inbound_federation`, with the clock. -/
def createInboundFederationTx (io : Io) (federationId : String) (calendarId : CalendarId)
    (sourceEmail sourceServerUrl : String) (ty : SharingType)
    (peerDomain peerFingerprint capabilitySecret : String) (now : ℤ) : Tx ShareDb PUnit := do
  let db ← Tx.get
  Tx.require (federationId ∉ db.federations.map (·.id)) .sqlite
  Tx.require ((calendarId, sourceEmail) ∉
    db.federations.map fun f => (f.calendarId, f.targetEmail)) .sqlite
  Tx.require (calendarId ∈ db.calendars.map (·.id)) .sqlite
  Tx.exec io 0 fun db => { db with federations := db.federations ++ [inboundRow federationId
    calendarId sourceEmail sourceServerUrl ty peerDomain peerFingerprint capabilitySecret now] }

section Endpoint

variable (U : Unicode)

/-- Make a call. -/
def InviteOp.exec (w : Outside) : (o : InviteOp) → ShareDb → o.Ret × ShareDb
  | buildClient, db => (w.built, db)
  | discoverAndPin _, db => (w.discovered, db)
  | verify, db => (w.verified, db)
  | accountByEmail email, db => transaction (Sharing.accountByEmailTx U w.accountIo email) db
  | createCalendar accountId name description, db =>
    transaction (createCalendarTx w.calendarIo accountId name description w.calendarId
      w.calendarNow) db
  | federationPeer _, db => (w.peer, db)
  | createInboundFederation federationId calendarId sourceEmail sourceServerUrl ty peerDomain
      peerFingerprint capabilitySecret, db =>
    transaction (createInboundFederationTx w.federationIo federationId calendarId sourceEmail
      sourceServerUrl ty peerDomain peerFingerprint capabilitySecret w.federationNow) db

/-! ## The endpoint -/

/-- What the endpoint answers. -/
inductive InviteAnswer where
  | pending (federationId : String)
  | deny (status : ℕ) (text : String)
  deriving DecidableEq, Repr

/-- The status of the response. -/
def InviteAnswer.status : InviteAnswer → ℕ
  | pending _ => 200
  | deny status _ => status

/-- A request: its body, if it can be read, and the header that names the sender. -/
structure InviteRequest where
  invitation : Option FederationInvitation
  server : Option String

/-- `rsplit_once('@')`, what is behind the `@`. -/
def behindLastAt (email : String) : Option String :=
  if '@' ∈ email.toList then
    some (String.ofList (email.toList.reverse.takeWhile (· ≠ '@')).reverse)
  else none

/-- A program of the endpoint. -/
abbrev InviteProg (α : Type) : Type := Prog InviteOp.Ret α

/-- One call. -/
def invite (o : InviteOp) : InviteProg o.Ret := Prog.op o

/-- The name of the mirror of a calendar. -/
def mirrorName (invitation : FederationInvitation) : String :=
  invitation.calendarName ++ " (shared)"

/-- The description of the mirror of a calendar. -/
def mirrorDescription (invitation : FederationInvitation) : String :=
  "Shared by " ++ invitation.inviterEmail

/-- The url of the peer as it is pinned. -/
def peerUrl : Except StorageError (Option PeerServer) → String
  | .ok (some peer) => peer.serverUrl
  | _ => ""

/-- The calls that write. -/
def storeInvitation (invitation : FederationInvitation) (peer : VerifiedPeer)
    (target : AccountsRow) : InviteProg InviteAnswer := do
  match ← invite (.createCalendar target.id (mirrorName invitation)
      (some (mirrorDescription invitation))) with
  | .error _ => return .deny 500 "server error"
  | .ok mirror =>
    let found ← invite (.federationPeer peer.domain)
    match ← invite (.createInboundFederation invitation.federationId mirror.id
        invitation.inviterEmail (peerUrl found) (sharingTypeOf invitation.sharingType) peer.domain
        peer.fingerprint invitation.capabilitySecret) with
    | .error _ => return .deny 500 "server error"
    | .ok _ => return .pending invitation.federationId

/-- The checks behind the signature. -/
def acceptInvitation (invitation : FederationInvitation) (peer : VerifiedPeer) :
    InviteProg InviteAnswer :=
  if (behindLastAt invitation.inviterEmail).map U.toLowercase ≠ some peer.domain then
    return .deny 400 "inviter/sender mismatch"
  else do
    match ← invite (.accountByEmail invitation.targetEmail) with
    | .ok (some target) => storeInvitation invitation peer target
    | _ => return .deny 404 "not found"

/-- `receive_invitation`. -/
def receiveInvitation (req : InviteRequest) : InviteProg InviteAnswer :=
  match req.invitation, req.server with
  | none, _ => return .deny 400 "malformed"
  | some _, none => return .deny 401 "missing signature"
  | some invitation, some server => do
    if ← invite .buildClient then
      if ← invite (.discoverAndPin (U.toLowercase (U.trim server))) then
        match ← invite .verify with
        | .error rejection => return .deny rejection.status rejection.asStr
        | .ok peer => acceptInvitation U invitation peer
      else return .deny 401 "unknown peer"
    else return .deny 500 "server error"

/-! ## A sequence of requests -/

/-- A request, and what the outside decides while it is answered. -/
structure Delivery where
  request : InviteRequest
  outside : Outside

/-- Answer a request. -/
def deliver (db : ShareDb) (d : Delivery) : InviteAnswer × ShareDb :=
  (receiveInvitation U d.request).alone (InviteOp.exec U d.outside) db

/-- The requests, each with the tables it finds. -/
def history (db : ShareDb) : List Delivery → List (ShareDb × Delivery)
  | [] => []
  | d :: ds => (db, d) :: history (deliver U db d).2 ds

/-- The tables in the end. -/
def final (db : ShareDb) : List Delivery → ShareDb
  | [] => db
  | d :: ds => final (deliver U db d).2 ds

/-! ## What is meant -/

/-- The federation id that a request names. -/
def Delivery.federationId (d : Delivery) : Option String :=
  d.request.invitation.map (·.federationId)

/-- The ids of the calendars. -/
def calendarIds (db : ShareDb) : List CalendarId := db.calendars.map (·.id)

/-- The ids of the federations. -/
def federationIds (db : ShareDb) : List String := db.federations.map (·.id)

/-- The federations with an id that are pulled from another server. -/
def inboundOf (federationId : String) (db : ShareDb) : List FederationRow :=
  db.federations.filter fun f => f.id = federationId ∧ f.direction = some .inbound

/-- The calendar was made by one of the requests with the federation id. -/
def MadeFor (db : ShareDb) (ds : List Delivery) (federationId : String) (id : CalendarId) : Prop :=
  ∃ p ∈ history U db ds, p.2.federationId = some federationId ∧ id ∉ calendarIds p.1 ∧
    id ∈ calendarIds (deliver U p.1 p.2).2

instance (db : ShareDb) (ds : List Delivery) (federationId : String) (id : CalendarId) :
    Decidable (MadeFor U db ds federationId id) := inferInstanceAs (Decidable (∃ p ∈ _, _))

/-- The mirrors of a federation id in the end. -/
def mirrorsOf (db : ShareDb) (ds : List Delivery) (federationId : String) : List Calendar :=
  (final U db ds).calendars.filter fun c => MadeFor U db ds federationId c.id

/-- **What is meant.** A refused request leaves the calendars and the federations as they were,
and an id that was ever accepted has one federation and one mirror. -/
structure InvitationLaw (db : ShareDb) (ds : List Delivery) : Prop where
  atomic : ∀ p ∈ history U db ds, (deliver U p.1 p.2).1.status ≠ 200 →
    (deliver U p.1 p.2).2.calendars = p.1.calendars ∧
      (deliver U p.1 p.2).2.federations = p.1.federations
  once : ∀ p ∈ history U db ds, (deliver U p.1 p.2).1.status = 200 →
    ∀ federationId, p.2.federationId = some federationId →
      (inboundOf federationId (final U db ds)).length = 1 ∧
        (mirrorsOf U db ds federationId).length = 1

/-! ## When it holds -/

/-- The request passes every check before the mirror is made, and the mirror is made. -/
structure Passes (db : ShareDb) (d : Delivery) (invitation : FederationInvitation)
    (peer : VerifiedPeer) (target : AccountsRow) : Prop where
  named : d.request.invitation = some invitation
  server : d.request.server.isSome
  built : d.outside.built
  discovered : d.outside.discovered
  verified : d.outside.verified = .ok peer
  inviter : (behindLastAt invitation.inviterEmail).map U.toLowercase = some peer.domain
  found : (transaction (Sharing.accountByEmailTx U d.outside.accountIo invitation.targetEmail)
    db).1 = .ok (some target)
  fresh : d.outside.calendarId ∉ calendarIds db
  io : d.outside.calendarIo 0

/-- The federation can be inserted: its id is free, the mirror has no federation of the same
address, and the storage does not fail. -/
structure Fits (db : ShareDb) (d : Delivery) (invitation : FederationInvitation) : Prop where
  free : invitation.federationId ∉ federationIds db
  unpaired : (d.outside.calendarId, invitation.inviterEmail) ∉
    db.federations.map fun f => (f.calendarId, f.targetEmail)
  io : d.outside.federationIo 0

/-- Whenever the mirror is made, the federation fits. -/
def AllFit (db : ShareDb) (ds : List Delivery) : Prop :=
  ∀ p ∈ history U db ds, ∀ invitation peer target, Passes U p.1 p.2 invitation peer target →
    Fits p.1 p.2 invitation

/-! ## One request -/

section Laws

variable {U} {db : ShareDb} {d : Delivery} {invitation : FederationInvitation}
  {peer : VerifiedPeer} {target : AccountsRow}

/-- The mirror that a request makes. -/
def Delivery.mirror (d : Delivery) (invitation : FederationInvitation) (target : AccountsRow) :
    Calendar :=
  ⟨d.outside.calendarId, target.id, mirrorName invitation, some (mirrorDescription invitation),
    d.outside.calendarNow, d.outside.calendarNow⟩

/-- The tables with a calendar more. -/
def withCalendar (db : ShareDb) (calendar : Calendar) : ShareDb :=
  { db with calendars := db.calendars ++ [calendar] }

theorem createCalendarTx_ok {io : Io} {accountId : AccountId} {name : String}
    {description : Option String} {id : CalendarId} {now : ℤ} {calendar : Calendar} {db' : ShareDb} :
    createCalendarTx io accountId name description id now db = .ok (calendar, db') ↔
      id ∉ calendarIds db ∧ accountId ∈ db.accounts.map (·.id) ∧ io 0 ∧
        calendar = ⟨id, accountId, name, description, now, now⟩ ∧
        db' = withCalendar db calendar := by
  simp only [createCalendarTx, Tx.bind_eq_ok, Tx.get_eq_ok, Tx.require_eq_ok, Tx.exec_eq_ok,
    Tx.pure_eq_ok]
  constructor
  · rintro ⟨_, _, ⟨rfl, rfl⟩, _, _, ⟨hfresh, rfl⟩, _, _, ⟨howner, rfl⟩, _, _, ⟨hio, rfl⟩, rfl, rfl⟩
    exact ⟨hfresh, howner, hio, rfl, rfl⟩
  · rintro ⟨hfresh, howner, hio, rfl, rfl⟩
    exact ⟨_, _, ⟨rfl, rfl⟩, ⟨⟩, _, ⟨hfresh, rfl⟩, ⟨⟩, _, ⟨howner, rfl⟩, ⟨⟩, _, ⟨hio, rfl⟩, rfl, rfl⟩

theorem createInboundFederationTx_ok {io : Io} {federationId : String} {calendarId : CalendarId}
    {sourceEmail sourceServerUrl peerDomain peerFingerprint capabilitySecret : String}
    {ty : SharingType} {now : ℤ} {u : PUnit} {db' : ShareDb} :
    createInboundFederationTx io federationId calendarId sourceEmail sourceServerUrl ty peerDomain
        peerFingerprint capabilitySecret now db = .ok (u, db') ↔
      federationId ∉ federationIds db ∧
        (calendarId, sourceEmail) ∉ db.federations.map (fun f => (f.calendarId, f.targetEmail)) ∧
        calendarId ∈ calendarIds db ∧ io 0 ∧
        db' = { db with federations := db.federations ++ [inboundRow federationId calendarId
          sourceEmail sourceServerUrl ty peerDomain peerFingerprint capabilitySecret now] } := by
  simp only [createInboundFederationTx, Tx.bind_eq_ok, Tx.get_eq_ok, Tx.require_eq_ok,
    Tx.exec_eq_ok]
  constructor
  · rintro ⟨_, _, ⟨rfl, rfl⟩, _, _, ⟨hfree, rfl⟩, _, _, ⟨hpair, rfl⟩, _, _, ⟨hmirror, rfl⟩, hio,
      rfl⟩
    exact ⟨hfree, hpair, hmirror, hio, rfl⟩
  · rintro ⟨hfree, hpair, hmirror, hio, rfl⟩
    exact ⟨_, _, ⟨rfl, rfl⟩, ⟨⟩, _, ⟨hfree, rfl⟩, ⟨⟩, _, ⟨hpair, rfl⟩, ⟨⟩, _, ⟨hmirror, rfl⟩, hio,
      rfl⟩

/-- A lookup that found a row left the tables alone, and the row is one of them. -/
theorem accountByEmail_ok {io : Io} {email : String} {db' : ShareDb}
    (h : Sharing.accountByEmailTx U io email db = .ok (some target, db')) :
    db' = db ∧ target.id ∈ db.accounts.map (·.id) := by
  obtain ⟨-, hfound, rfl⟩ := Tx.query_eq_ok.mp h
  obtain ⟨account, haccount, rfl⟩ := Option.map_eq_some_iff.mp hfound
  exact ⟨rfl, List.mem_map_of_mem (List.mem_of_find?_eq_some haccount)⟩

/-- The federation that a request inserts. -/
def Delivery.row (d : Delivery) (invitation : FederationInvitation) (peer : VerifiedPeer) :
    FederationRow :=
  inboundRow invitation.federationId d.outside.calendarId invitation.inviterEmail
    (peerUrl d.outside.peer) (sharingTypeOf invitation.sharingType) peer.domain peer.fingerprint
    invitation.capabilitySecret d.outside.federationNow

/-- The tables with a federation more. -/
def withFederation (db : ShareDb) (row : FederationRow) : ShareDb :=
  { db with federations := db.federations ++ [row] }

/-- A request that passes the checks makes the mirror, and what follows is the insert. -/
theorem deliver_of_passes (h : Passes U db d invitation peer target) :
    (Fits db d invitation →
      deliver U db d = (.pending invitation.federationId,
        withFederation (withCalendar db (d.mirror invitation target)) (d.row invitation peer))) ∧
    (¬Fits db d invitation →
      deliver U db d = (.deny 500 "server error",
        withCalendar db (d.mirror invitation target))) := by
  obtain ⟨server, hserver⟩ := Option.isSome_iff_exists.mp h.server
  obtain ⟨hdb, howner⟩ : (transaction (Sharing.accountByEmailTx U d.outside.accountIo
      invitation.targetEmail) db).2 = db ∧ target.id ∈ db.accounts.map (·.id) := by
    rcases transaction_cases (Sharing.accountByEmailTx U d.outside.accountIo
      invitation.targetEmail) db with ⟨e, he⟩ | ⟨a, db', hbody, hok⟩
    · have hfound := h.found
      rw [he] at hfound
      cases hfound
    · have hfound := h.found
      rw [hok] at hfound ⊢
      cases hfound
      exact accountByEmail_ok hbody
  have hmirror : transaction (createCalendarTx d.outside.calendarIo target.id
      (mirrorName invitation) (some (mirrorDescription invitation)) d.outside.calendarId
      d.outside.calendarNow) db = (.ok (d.mirror invitation target),
        withCalendar db (d.mirror invitation target)) :=
    transaction_eq_ok.mpr (createCalendarTx_ok.mpr ⟨h.fresh, howner, h.io, rfl, rfl⟩)
  have hdeliver : deliver U db d = (storeInvitation invitation peer target).alone
      (InviteOp.exec U d.outside) db := by
    simp only [deliver, receiveInvitation, h.named, hserver, invite, Prog.alone_bind,
      Prog.alone_op, InviteOp.exec, h.built, h.discovered, h.verified, acceptInvitation,
      h.inviter, ne_eq, not_true_eq_false, ite_false, ite_true, h.found, hdb]
  have hin : d.outside.calendarId ∈ calendarIds (withCalendar db (d.mirror invitation target)) :=
    List.mem_map.mpr ⟨_, List.mem_append_right _ (List.mem_singleton_self _), rfl⟩
  constructor
  · intro hfits
    have hinsert : transaction (createInboundFederationTx d.outside.federationIo
        invitation.federationId (d.mirror invitation target).id invitation.inviterEmail
        (peerUrl d.outside.peer) (sharingTypeOf invitation.sharingType) peer.domain
        peer.fingerprint invitation.capabilitySecret d.outside.federationNow)
        (withCalendar db (d.mirror invitation target)) = (.ok ⟨⟩, _) :=
      transaction_eq_ok.mpr (createInboundFederationTx_ok.mpr
        ⟨hfits.free, hfits.unpaired, hin, hfits.io, rfl⟩)
    rw [hdeliver]
    simp only [storeInvitation, invite, Prog.alone_bind, Prog.alone_op, InviteOp.exec, hmirror,
      hinsert]
    rfl
  · intro hfits
    rw [hdeliver]
    rcases transaction_cases (createInboundFederationTx d.outside.federationIo
        invitation.federationId (d.mirror invitation target).id invitation.inviterEmail
        (peerUrl d.outside.peer) (sharingTypeOf invitation.sharingType) peer.domain
        peer.fingerprint invitation.capabilitySecret d.outside.federationNow)
        (withCalendar db (d.mirror invitation target)) with ⟨e, hinsert⟩ | ⟨u, db', hbody, -⟩
    · simp only [storeInvitation, invite, Prog.alone_bind, Prog.alone_op, InviteOp.exec, hmirror,
        hinsert]
      rfl
    · obtain ⟨hfree, hpair, -, hio, -⟩ := createInboundFederationTx_ok.mp hbody
      exact absurd ⟨hfree, hpair, hio⟩ hfits

theorem Rejection.status_ne (rejection : Rejection) : rejection.status ≠ 200 := by
  cases rejection <;> decide

/-- A request that does not pass the checks is refused and leaves the tables as they were. -/
theorem deliver_of_refused (h : ∀ invitation peer target, ¬Passes U db d invitation peer target) :
    (deliver U db d).1.status ≠ 200 ∧ (deliver U db d).2 = db := by
  have hdeny : ∀ status text, deliver U db d = (.deny status text, db) → status ≠ 200 →
      (deliver U db d).1.status ≠ 200 ∧ (deliver U db d).2 = db := by
    intro status text hdeliver hstatus
    rw [hdeliver]
    exact ⟨hstatus, rfl⟩
  rcases hnamed : d.request.invitation with _ | invitation
  · refine hdeny 400 "malformed" ?_ (by decide)
    simp only [deliver, receiveInvitation, hnamed, Prog.alone_pure]
  rcases hserver : d.request.server with _ | server
  · refine hdeny 401 "missing signature" ?_ (by decide)
    simp only [deliver, receiveInvitation, hnamed, hserver, Prog.alone_pure]
  by_cases hbuilt : d.outside.built
  case neg =>
    refine hdeny 500 "server error" ?_ (by decide)
    simp only [deliver, receiveInvitation, hnamed, hserver, invite, Prog.alone_bind,
      Prog.alone_op, InviteOp.exec, hbuilt, Bool.false_eq_true, ite_false, Prog.alone_pure]
  by_cases hdiscovered : d.outside.discovered
  case neg =>
    refine hdeny 401 "unknown peer" ?_ (by decide)
    simp only [deliver, receiveInvitation, hnamed, hserver, invite, Prog.alone_bind,
      Prog.alone_op, InviteOp.exec, hbuilt, hdiscovered, Bool.false_eq_true, ite_false, ite_true,
      Prog.alone_pure]
  rcases hverified : d.outside.verified with rejection | peer
  · refine hdeny rejection.status rejection.asStr ?_ (Rejection.status_ne rejection)
    simp only [deliver, receiveInvitation, hnamed, hserver, invite, Prog.alone_bind,
      Prog.alone_op, InviteOp.exec, hbuilt, hdiscovered, hverified, ite_true, Prog.alone_pure]
  -- from here on the checks of `acceptInvitation`
  have haccept : deliver U db d =
      (acceptInvitation U invitation peer).alone (InviteOp.exec U d.outside) db := by
    simp only [deliver, receiveInvitation, hnamed, hserver, invite, Prog.alone_bind,
      Prog.alone_op, InviteOp.exec, hbuilt, hdiscovered, hverified, ite_true]
  by_cases hinviter : (behindLastAt invitation.inviterEmail).map U.toLowercase = some peer.domain
  case neg =>
    refine hdeny 400 "inviter/sender mismatch" ?_ (by decide)
    rw [haccept, acceptInvitation, if_pos hinviter, Prog.alone_pure]
  rw [acceptInvitation, if_neg (not_not.mpr hinviter)] at haccept
  rcases transaction_cases (Sharing.accountByEmailTx U d.outside.accountIo
      invitation.targetEmail) db with ⟨e, hfound⟩ | ⟨found, db', hbody, hfound⟩
  · refine hdeny 404 "not found" ?_ (by decide)
    rw [haccept]
    simp only [invite, Prog.alone_bind, Prog.alone_op, InviteOp.exec, hfound, Prog.alone_pure]
  obtain ⟨-, -, rfl⟩ := Tx.query_eq_ok.mp hbody
  rcases found with _ | target
  · refine hdeny 404 "not found" ?_ (by decide)
    rw [haccept]
    simp only [invite, Prog.alone_bind, Prog.alone_op, InviteOp.exec, hfound, Prog.alone_pure]
  rcases transaction_cases (createCalendarTx d.outside.calendarIo target.id
      (mirrorName invitation) (some (mirrorDescription invitation)) d.outside.calendarId
      d.outside.calendarNow) db with ⟨e, hmirror⟩ | ⟨mirror, db', hbody, hmirror⟩
  · refine hdeny 500 "server error" ?_ (by decide)
    rw [haccept]
    simp only [invite, Prog.alone_bind, Prog.alone_op, InviteOp.exec, hfound, storeInvitation,
      hmirror, Prog.alone_pure]
  · obtain ⟨hfresh, -, hio, -, -⟩ := createCalendarTx_ok.mp hbody
    exact absurd ⟨hnamed, by rw [hserver]; rfl, hbuilt, hdiscovered, hverified, hinviter,
      by rw [hfound], hfresh, hio⟩ (h invitation peer target)

/-- Nothing was stored. -/
def Refused (db : ShareDb) (r : InviteAnswer × ShareDb) : Prop := r.1.status ≠ 200 ∧ r.2 = db

variable (U db d) in
/-- **One request.** It is refused without a trace, or it makes the mirror and the federation, or
it makes the mirror alone and fails. -/
theorem deliver_cases :
    (Refused db (deliver U db d) ∧ ∀ invitation peer target, ¬Passes U db d invitation peer target) ∨
    ∃ invitation peer target, Passes U db d invitation peer target ∧
      ((Fits db d invitation ∧ deliver U db d = (.pending invitation.federationId,
          withFederation (withCalendar db (d.mirror invitation target)) (d.row invitation peer))) ∨
        ¬Fits db d invitation ∧ deliver U db d = (.deny 500 "server error",
          withCalendar db (d.mirror invitation target))) := by
  by_cases h : ∃ invitation peer target, Passes U db d invitation peer target
  · obtain ⟨invitation, peer, target, hpasses⟩ := h
    refine .inr ⟨invitation, peer, target, hpasses, ?_⟩
    by_cases hfits : Fits db d invitation
    · exact .inl ⟨hfits, (deliver_of_passes hpasses).1 hfits⟩
    · exact .inr ⟨hfits, (deliver_of_passes hpasses).2 hfits⟩
  · have hnone : ∀ invitation peer target, ¬Passes U db d invitation peer target :=
      fun invitation peer target hpasses => h ⟨invitation, peer, target, hpasses⟩
    exact .inl ⟨deliver_of_refused hnone, hnone⟩

/-! ## A sequence of requests -/

variable {ds : List Delivery} {federationId : String}

/-- Requests only add calendars, with ids that are new. -/
theorem calendars_deliver : ∃ more, (deliver U db d).2.calendars = db.calendars ++ more ∧
    ∀ c ∈ more, c.id ∉ calendarIds db := by
  have hone : ∀ invitation peer target, Passes U db d invitation peer target →
      ∀ c ∈ [d.mirror invitation target], c.id ∉ calendarIds db := by
    intro invitation peer target hpasses c hc
    rw [List.mem_singleton.mp hc]
    exact hpasses.fresh
  rcases deliver_cases U db d with ⟨⟨-, hsame⟩, -⟩ | ⟨i, p, t, hpasses, ⟨-, heq⟩ | ⟨-, heq⟩⟩
  · exact ⟨[], by rw [hsame, List.append_nil], fun c hc => nomatch hc⟩
  · exact ⟨_, by rw [heq]; rfl, hone i p t hpasses⟩
  · exact ⟨_, by rw [heq]; rfl, hone i p t hpasses⟩

theorem calendars_final : ∃ more, (final U db ds).calendars = db.calendars ++ more ∧
    ∀ c ∈ more, c.id ∉ calendarIds db := by
  induction ds generalizing db with
  | nil => exact ⟨[], (List.append_nil _).symm, fun c hc => nomatch hc⟩
  | cons d ds ih =>
    obtain ⟨more, hmore, hnew⟩ := @calendars_deliver U db d
    obtain ⟨rest, hrest, hfresh⟩ := @ih (deliver U db d).2
    refine ⟨more ++ rest, by rw [final, hrest, hmore, List.append_assoc], ?_⟩
    intro c hc hin
    rcases List.mem_append.mp hc with hc | hc
    · exact hnew c hc hin
    · refine hfresh c hc ?_
      rw [calendarIds, hmore, List.map_append]
      exact List.mem_append_left _ hin

theorem madeFor_cons {id : CalendarId} : MadeFor U db (d :: ds) federationId id ↔
    (d.federationId = some federationId ∧ id ∉ calendarIds db ∧
      id ∈ calendarIds (deliver U db d).2) ∨ MadeFor U (deliver U db d).2 ds federationId id := by
  simp only [MadeFor, history, List.mem_cons, exists_eq_or_imp]

theorem AllFit.head (h : AllFit U db (d :: ds)) {i : FederationInvitation} {p : VerifiedPeer}
    {t : AccountsRow} (hpasses : Passes U db d i p t) : Fits db d i :=
  h (db, d) List.mem_cons_self i p t hpasses

theorem AllFit.tail (h : AllFit U db (d :: ds)) : AllFit U (deliver U db d).2 ds :=
  fun p hp => h p (List.mem_cons_of_mem _ hp)

/-- If the federation fits, a request is refused without a trace or stores both rows. -/
theorem deliver_of_fit (h : ∀ i p t, Passes U db d i p t → Fits db d i) :
    Refused db (deliver U db d) ∨ ∃ i p t, Passes U db d i p t ∧ Fits db d i ∧
      deliver U db d = (.pending i.federationId,
        withFederation (withCalendar db (d.mirror i t)) (d.row i p)) := by
  rcases deliver_cases U db d with ⟨hrefused, -⟩ | ⟨i, p, t, hpasses, ⟨hfits, heq⟩ | ⟨hfits, -⟩⟩
  · exact .inl hrefused
  · exact .inr ⟨i, p, t, hpasses, hfits, heq⟩
  · exact absurd (h i p t hpasses) hfits

theorem Passes.names {i : FederationInvitation} {p : VerifiedPeer} {t : AccountsRow}
    (h : Passes U db d i p t) : d.federationId = some i.federationId := by
  rw [Delivery.federationId, h.named]
  rfl

/-- **An id that is taken stays as it is.** Each request that names it is refused without a
trace. -/
theorem refused_of_taken (h : AllFit U db ds) (hin : federationId ∈ federationIds db) :
    (∀ p ∈ history U db ds, p.2.federationId = some federationId →
      Refused p.1 (deliver U p.1 p.2)) ∧
    inboundOf federationId (final U db ds) = inboundOf federationId db := by
  induction ds generalizing db with
  | nil => exact ⟨fun p hp => (List.not_mem_nil hp).elim, rfl⟩
  | cons d ds ih =>
    rcases deliver_of_fit fun i p t hpasses => h.head hpasses with
      hrefused | ⟨i, p, t, hpasses, hfits, heq⟩
    · have hsame := hrefused.2
      have htail := h.tail
      rw [hsame] at htail
      obtain ⟨hrest, hinbound⟩ := ih htail hin
      rw [final, hsame]
      refine ⟨?_, hinbound⟩
      intro q hq hname
      rw [history, hsame] at hq
      rcases List.mem_cons.mp hq with rfl | hq
      · exact hrefused
      · exact hrest q hq hname
    · have hne : i.federationId ≠ federationId := by
        rintro rfl
        exact hfits.free hin
      have hin' : federationId ∈ federationIds (deliver U db d).2 := by
        rw [heq, federationIds]
        exact List.mem_map.mpr ((List.mem_map.mp hin).imp fun f hf =>
          ⟨List.mem_append_left _ hf.1, hf.2⟩)
      obtain ⟨hrest, hinbound⟩ := ih h.tail hin'
      refine ⟨?_, ?_⟩
      · intro q hq hname
        rcases List.mem_cons.mp hq with rfl | hq
        · rw [hpasses.names, Option.some.injEq] at hname
          exact absurd hname hne
        · exact hrest q hq hname
      · rw [final, hinbound, heq, inboundOf, inboundOf]
        refine (List.filter_append _ _).trans ?_
        rw [List.filter_cons_of_neg, List.filter_nil, List.append_nil]
        · rfl
        · simpa [Delivery.row, inboundRow] using hne

/-- The id that was just inserted is taken. -/
theorem taken_of_fits {i : FederationInvitation} {p : VerifiedPeer} {t : AccountsRow}
    (heq : deliver U db d = (.pending i.federationId,
      withFederation (withCalendar db (d.mirror i t)) (d.row i p))) :
    i.federationId ∈ federationIds (deliver U db d).2 := by
  rw [heq]
  exact List.mem_map.mpr ⟨_, List.mem_append_right _ (List.mem_singleton_self _), rfl⟩

/-- One federation, once the request is accepted. -/
theorem inboundOf_head {i : FederationInvitation} {p : VerifiedPeer} {t : AccountsRow}
    (hfits : Fits db d i) : inboundOf i.federationId
      (withFederation (withCalendar db (d.mirror i t)) (d.row i p)) = [d.row i p] := by
  have hnone : inboundOf i.federationId db = [] := by
    refine List.filter_eq_nil_iff.mpr fun f hf hid => ?_
    exact hfits.free (List.mem_map.mpr ⟨f, hf, (of_decide_eq_true hid).1⟩)
  refine (List.filter_append _ _).trans ?_
  rw [List.filter_cons_of_pos (by simp [Delivery.row, inboundRow]), List.filter_nil]
  exact congrArg (· ++ [d.row i p]) hnone

/-- One mirror, once the request is accepted. -/
theorem mirrorsOf_head {i : FederationInvitation} {p : VerifiedPeer} {t : AccountsRow}
    (h : AllFit U db (d :: ds)) (hpasses : Passes U db d i p t)
    (heq : deliver U db d = (.pending i.federationId,
      withFederation (withCalendar db (d.mirror i t)) (d.row i p))) :
    mirrorsOf U db (d :: ds) i.federationId = [d.mirror i t] := by
  have hcalendars : (deliver U db d).2.calendars = db.calendars ++ [d.mirror i t] := by
    rw [heq]
    rfl
  have hmade : ∀ id, MadeFor U db (d :: ds) i.federationId id ↔ id = d.outside.calendarId := by
    intro id
    rw [madeFor_cons, calendarIds, calendarIds, hcalendars, List.map_append, List.mem_append]
    constructor
    · rintro (⟨-, hnew, hold | hmirror⟩ | ⟨q, hq, hname, hnew, hmade⟩)
      · exact absurd hold hnew
      · exact List.mem_singleton.mp hmirror
      · rw [((refused_of_taken h.tail (taken_of_fits heq)).1 q hq hname).2] at hmade
        exact absurd hmade hnew
    · rintro rfl
      exact .inl ⟨hpasses.names, hpasses.fresh, .inr (List.mem_singleton_self _)⟩
  obtain ⟨more, hmore, hnew⟩ := @calendars_final U (deliver U db d).2 ds
  rw [mirrorsOf, final, hmore, hcalendars, List.filter_append, List.filter_append,
    List.filter_eq_nil_iff.mpr, List.filter_cons_of_pos, List.filter_nil,
    List.filter_eq_nil_iff.mpr, List.nil_append, List.append_nil]
  · intro c hc hmade'
    refine hnew c hc ?_
    rw [(hmade c.id).mp (of_decide_eq_true hmade'), calendarIds, hcalendars, List.map_append]
    exact List.mem_append_right _ (List.mem_singleton_self _)
  · exact decide_eq_true ((hmade _).mpr rfl)
  · intro c hc hmade'
    refine hpasses.fresh ?_
    rw [← (hmade c.id).mp (of_decide_eq_true hmade')]
    exact List.mem_map_of_mem hc

/-- An id that is accepted has one federation and one mirror in the end. -/
theorem once_of_allFit (h : AllFit U db ds) {q : ShareDb × Delivery} (hq : q ∈ history U db ds)
    (hstatus : (deliver U q.1 q.2).1.status = 200)
    (hname : q.2.federationId = some federationId) :
    (inboundOf federationId (final U db ds)).length = 1 ∧
      (mirrorsOf U db ds federationId).length = 1 := by
  induction ds generalizing db with
  | nil => exact (List.not_mem_nil hq).elim
  | cons d ds ih =>
    have hhead := deliver_of_fit fun i p t hpasses => h.head hpasses
    rcases List.mem_cons.mp hq with rfl | hq
    · rcases hhead with hrefused | ⟨i, p, t, hpasses, hfits, heq⟩
      · exact absurd hstatus hrefused.1
      rw [hpasses.names, Option.some.injEq] at hname
      subst hname
      rw [mirrorsOf_head h hpasses heq, final,
        (refused_of_taken h.tail (taken_of_fits heq)).2, heq, inboundOf_head hfits]
      exact ⟨rfl, rfl⟩
    · obtain ⟨hinbound, hmirrors⟩ := ih h.tail hq
      refine ⟨hinbound, ?_⟩
      -- the first request made nothing for this id, for else the later one was refused
      have hnot : ∀ id, ¬(d.federationId = some federationId ∧ id ∉ calendarIds db ∧
          id ∈ calendarIds (deliver U db d).2) := by
        rintro id ⟨hfirst, hnew, hmade⟩
        rcases hhead with hrefused | ⟨i, p, t, hpasses, hfits, heq⟩
        · rw [hrefused.2] at hmade
          exact hnew hmade
        · rw [hpasses.names, Option.some.injEq] at hfirst
          subst hfirst
          exact ((refused_of_taken h.tail (taken_of_fits heq)).1 q hq hname).1 hstatus
      have hsame : mirrorsOf U db (d :: ds) federationId =
          mirrorsOf U (deliver U db d).2 ds federationId := by
        refine List.filter_congr fun c _ => decide_eq_decide.mpr ?_
        exact madeFor_cons.trans (or_iff_right (hnot c.id))
      rw [hsame]
      exact hmirrors

end Laws

/-- **Invitations are received atomically and once exactly if the federation fits** whenever a
mirror is made. -/
theorem invitationLaw_iff (db : ShareDb) (ds : List Delivery) :
    InvitationLaw U db ds ↔ AllFit U db ds := by
  constructor
  · intro hlaw q hq i p t hpasses
    by_contra hfits
    have heq := (deliver_of_passes hpasses).2 hfits
    have hstatus : (deliver U q.1 q.2).1.status ≠ 200 := by
      rw [heq]
      exact of_decide_eq_true rfl
    have hsame := (hlaw.atomic q hq hstatus).1
    rw [heq] at hsame
    exact List.cons_ne_nil _ _ (List.append_right_eq_self.mp hsame)
  · intro h
    refine ⟨?_, fun q hq hstatus federationId hname => once_of_allFit h hq hstatus hname⟩
    intro q hq hstatus
    rcases deliver_of_fit (h q hq) with hrefused | ⟨i, p, t, -, -, heq⟩
    · rw [hrefused.2]
      exact ⟨rfl, rfl⟩
    · rw [heq] at hstatus
      exact absurd rfl hstatus

end Endpoint

/-! ### A delivery that is repeated -/

/-- An account that is invited. -/
def invitee : LoginAccount where
  id := ⟨1⟩
  email := "bob@here.example"
  displayName := none
  createdAt := 0
  disabledAt := none

def oneAccount : ShareDb where
  calendars := []
  sharing := []
  accounts := [invitee]
  federations := []

def teamInvitation : FederationInvitation where
  federationId := "f-1"
  capabilitySecret := "secret"
  calendarName := "Team"
  inviterEmail := "ann@there.example"
  targetEmail := "bob@here.example"
  sharingType := "sharing"
  createdAt := 0

/-- The invitation as it is delivered; the mirror gets this id. -/
def teamDelivery (id : CalendarId) : Delivery where
  request := ⟨some teamInvitation, some "there.example"⟩
  outside :=
    { built := true
      discovered := true
      verified := .ok ⟨"there.example", "AA"⟩
      accountIo := Io.ok
      calendarIo := Io.ok
      calendarId := id
      calendarNow := 0
      peer := .ok none
      federationIo := Io.ok
      federationNow := 0 }

/-- The second delivery of an accepted invitation is answered with an error, and its mirror
stays. -/
theorem not_invitationLaw_repeated :
    ¬InvitationLaw Unicode.ascii oneAccount [teamDelivery ⟨⟨1⟩⟩, teamDelivery ⟨⟨2⟩⟩] := by
  intro hlaw
  have hsame := (hlaw.atomic
    ((deliver Unicode.ascii oneAccount (teamDelivery ⟨⟨1⟩⟩)).2, teamDelivery ⟨⟨2⟩⟩)
    (List.mem_cons_of_mem _ List.mem_cons_self) (by decide +kernel)).1
  exact absurd hsame (by decide +kernel)

end Owney.Receiving
