import Owney.CalendarSharing
import Owney.FederationPeers
import Owney.Lib.ProgramRuns
import Owney.MirrorStore
import Owney.OAuthStore
import Owney.SchedulingMethods

/-!
# Sharing a calendar with another server

`Calendar/share` for an address that is no account of the server looks up the other server,
inserts a federation, which is served from then on, and then posts the invitation.

* `calendarShare` — `calendar_share` of `calendar_methods.rs`, one call after the other.
* `federations_of_calls` — a run only adds federations, each of them served.
* `leavesNoGrant_iff` — a run that fails adds none exactly if the other server accepts the
  invitation of each federation that the run adds.
-/

namespace Owney.Sharing

open Programs Tables
open Owney.Jmap (MethodError Value jsonObject)

/-! ## Rows -/

/-- A row of `calendar_federation`. -/
structure FederationRow extends CalendarFederation where
  sharingType : SharingType
  permissions : Permissions
  createdAt : ℤ
  deriving DecidableEq, Repr

/-- The tables that sharing reads and writes. -/
structure ShareDb extends SharingDb where
  accounts : List LoginAccount
  federations : List FederationRow

/-- The calendar of a federation that this server serves (`calendar_sync` of `wellknown.rs`). -/
def FederationRow.serves (f : FederationRow) : Bool :=
  f.direction = some .outbound ∧ (f.status = .accepted ∨ f.status = .syncing)

/-- The federations that are served for a calendar. -/
def ShareDb.served (db : ShareDb) (calendarId : CalendarId) : List FederationRow :=
  db.federations.filter fun f => f.calendarId = calendarId ∧ f.serves

/-- `Storage::outbound_federations_for_calendar`: whom to notify, each federation with its peer. -/
def ShareDb.outboundFederationsForCalendar (db : ShareDb) (calendarId : CalendarId) :
    List (String × String) :=
  (db.served calendarId).filterMap fun f => f.peerDomain.map fun domain => (f.id, domain)

/-! ## Calls -/

/-- A call on the tables of local sharing. -/
def onSharing {α : Type} (body : Tx SharingDb α) : Tx ShareDb α := fun db =>
  (body db.toSharingDb).map fun r => (r.1, { db with toSharingDb := r.2 })

/-- `Storage::get_calendar`. -/
def getCalendarTx (io : Io) (accountId : AccountId) (calendarId : CalendarId) :
    Tx ShareDb (Option Calendar) :=
  Tx.query io 0 fun db => db.calendars.find? fun c => c.id = calendarId ∧ c.accountId = accountId

/-- `Storage::account_by_email`. -/
def accountByEmailTx (U : Unicode) (io : Io) (email : String) : Tx ShareDb (Option AccountsRow) :=
  Tx.query io 0 fun db =>
    (db.accounts.find? fun a => nocaseEq a.email (U.toLowercase (U.trim email)) ∧
      a.disabledAt = none).map (·.toAccountsRow)

/-- `Storage::create_outbound_federation`, with the id and the secret it draws and the clock. -/
def createOutboundFederationTx (io : Io) (calendarId : CalendarId) (targetEmail : String)
    (targetServerUrl : String) (ty : SharingType) (peerDomain peerFingerprint : String)
    (id capability : String) (now : ℤ) : Tx ShareDb (String × String) := do
  let db ← Tx.get
  Tx.require (id ∉ db.federations.map (·.id)) .sqlite
  Tx.require ((calendarId, targetEmail) ∉
    db.federations.map fun f => (f.calendarId, f.targetEmail)) .sqlite
  Tx.require (calendarId ∈ db.calendars.map (·.id)) .sqlite
  let row : FederationRow :=
    { id, calendarId, targetEmail, targetServerUrl
      status := .accepted
      syncToken := none
      lastSyncAt := none
      peerDomain := some peerDomain
      peerFingerprint := some peerFingerprint
      capabilitySecret := some capability
      direction := some .outbound
      sharingType := ty
      permissions := ty.permissions
      createdAt := now }
  Tx.exec io 0 fun db => { db with federations := db.federations ++ [row] }
  return (id, capability)

/-- `FederationInvitation`. -/
structure FederationInvitation where
  federationId : String
  capabilitySecret : String
  calendarName : String
  inviterEmail : String
  targetEmail : String
  sharingType : String
  createdAt : ℤ

/-- `CalendarShareArgs`. -/
structure CalendarShareArgs where
  accountId : String
  calendarId : String
  inviteeEmail : String
  sharingType : String

/-- What the method takes from `serde_json`, `std` and the texts of errors. -/
structure ShareCrates where
  unicode : Unicode
  /-- `serde_json::from_value::<CalendarShareArgs>` -/
  argsOf : Value → Option CalendarShareArgs
  /-- `serde_json::to_vec` -/
  toVec : FederationInvitation → Except String (List UInt8)
  /-- `to_string` of a storage error -/
  storageText : StorageError → String
  /-- `to_string` of a status -/
  statusText : ℕ → String

/-- A call of the method. -/
inductive ShareOp where
  | getCalendar (accountId : AccountId) (calendarId : CalendarId)
  | accountByEmail (email : String)
  | shareCalendar (calendarId : CalendarId) (owner target : AccountId) (ty : SharingType)
  /-- `federation::build_client` -/
  | buildClient
  /-- `federation::discover_and_pin` -/
  | discoverAndPin (domain : String)
  | createOutboundFederation (calendarId : CalendarId) (targetEmail targetServerUrl : String)
      (ty : SharingType) (peerDomain peerFingerprint : String)
  /-- `FederationClient::post_json` -/
  | postJson (url receiverHost : String) (body : List UInt8)

/-- What a call returns; an answer of the other server is its status. -/
abbrev ShareOp.Val : ShareOp → Type
  | getCalendar .. => Option Calendar
  | accountByEmail _ => Option AccountsRow
  | shareCalendar .. => CalendarSharing
  | buildClient => PUnit
  | discoverAndPin _ => PeerServer
  | createOutboundFederation .. => String × String
  | postJson .. => ℕ

/-- The result of a call, with its error as the method reports it. -/
abbrev ShareOp.Ret (o : ShareOp) : Type := Except MethodError o.Val

/-- What the outside decides about one call. -/
structure ShareChoice where
  io : Io := Io.ok
  id : String := ""
  capability : String := ""
  now : ℤ := 0
  built : Except String PUnit := .ok ⟨⟩
  discovered : Except String PeerServer := .error ""
  posted : Except String ℕ := .error ""

section Method

variable (C : ShareCrates)

/-- `storage_err` of `calendar_methods.rs`. -/
def shareErr : StorageError → MethodError
  | .notAuthorized => .forbidden
  | e => .serverFail (C.storageText e)

/-- One storage call, with what is made of its error. -/
def ShareDb.call {α : Type} (db : ShareDb) (err : StorageError → MethodError)
    (body : Tx ShareDb α) : Option (Except MethodError α × ShareDb) :=
  some ((transaction body db).1.mapError err, (transaction body db).2)

/-- Make a call. -/
def ShareOp.exec : (o : ShareOp) → ShareChoice → ShareDb → Option (o.Ret × ShareDb)
  | getCalendar accountId calendarId, c, db =>
    db.call (shareErr C) (getCalendarTx c.io accountId calendarId)
  | accountByEmail email, c, db =>
    db.call (fun e => .serverFail (C.storageText e)) (accountByEmailTx C.unicode c.io email)
  | shareCalendar calendarId owner target ty, c, db =>
    db.call (shareErr C) (onSharing (shareCalendarTx c.io calendarId owner target ty c.id c.now))
  | buildClient, c, db => some (c.built.mapError .serverFail, db)
  | discoverAndPin _, c, db => some (c.discovered.mapError .serverFail, db)
  | createOutboundFederation calendarId targetEmail targetServerUrl ty peerDomain peerFingerprint,
      c, db =>
    db.call (shareErr C) (createOutboundFederationTx c.io calendarId targetEmail targetServerUrl ty
      peerDomain peerFingerprint c.id c.capability c.now)
  | postJson .., c, db => some (c.posted.mapError .serverFail, db)

/-! ## The method -/

/-- A program of the method. -/
abbrev ShareProg (α : Type) : Type := ExceptT MethodError (Prog ShareOp.Ret) α

/-- One call; its error ends the method. -/
def share (o : ShareOp) : ShareProg o.Val := Prog.ask o

/-- The type that the arguments name. -/
def sharingTypeOf (sharingType : String) : SharingType :=
  if sharingType = "delegation" then .delegation else .sharing

/-- `is_success`. -/
def isSuccess (status : ℕ) : Bool := 200 ≤ status ∧ status < 300

variable (caller : Jmap.Caller) (now : ℤ)

/-- The federated branch of `calendar_share`. -/
def shareFederated (args : CalendarShareArgs) (calendarId : CalendarId) (domain : String) :
    ShareProg Value := do
  match ← share (.getCalendar caller.id calendarId) with
  | none => throw (.invalidArguments "calendar not found")
  | some calendar =>
    share .buildClient
    let peer ← share (.discoverAndPin domain)
    let (federationId, capabilitySecret) ← share (.createOutboundFederation calendarId
      args.inviteeEmail peer.serverUrl (sharingTypeOf args.sharingType) peer.domain
      peer.fingerprint)
    match C.toVec ⟨federationId, capabilitySecret, calendar.name, caller.email,
      args.inviteeEmail, args.sharingType, now⟩ with
    | .error e => throw (.serverFail e)
    | .ok body =>
      let status ← share (.postJson (peer.serverUrl ++ "/.well-known/owney/calendar/invite")
        peer.domain body)
      if isSuccess status then
        return jsonObject [("invitationId", .string federationId), ("status", .string "pending"),
          ("federated", .bool true)]
      else throw (.serverFail ("peer rejected invitation: " ++ C.statusText status))

/-- What stands after the first `@`. -/
def domainAfter (email : String) : String :=
  String.ofList ((email.toList.dropWhile (· ≠ '@')).drop 1)

/-- The checks of `calendar_share` that need no call. -/
def readShareArgs (args : Value) : Except MethodError (CalendarShareArgs × CalendarId) :=
  match C.argsOf args with
  | none => .error (.invalidArguments "invalid arguments")
  | some args =>
    if args.accountId ≠ caller.id.uuid.toString then .error .accountNotFound
    else
      match Uuid.parseStr args.calendarId with
      | none => .error (.invalidArguments "invalid arguments")
      | some calendarId => .ok (args, ⟨calendarId⟩)

/-- The calls of `calendar_share`. -/
def shareTo (args : CalendarShareArgs) (calendarId : CalendarId) : ShareProg Value := do
  match ← share (.getCalendar caller.id calendarId) with
  | none => throw .forbidden
  | some _ =>
    if '@' ∈ args.inviteeEmail.toList then
      match ← share (.accountByEmail args.inviteeEmail) with
      | some target =>
        let sharing ← share (.shareCalendar calendarId caller.id target.id
          (sharingTypeOf args.sharingType))
        return jsonObject [("invitationId", .string sharing.id), ("status", .string "pending"),
          ("createdAt", .number (toString sharing.createdAt))]
      | none => shareFederated C caller now args calendarId (domainAfter args.inviteeEmail)
    else throw (.invalidArguments "invitee email must contain '@'")

/-- `calendar_share`, at a time. -/
def calendarShare (args : Value) : ShareProg Value :=
  match readShareArgs C caller args with
  | .error e => throw e
  | .ok (args, calendarId) => shareTo C caller now args calendarId

end Method

/-! ## What is meant -/

/-- The federations served and notified are the same, for each calendar. -/
def SameGrants (db db' : ShareDb) : Prop :=
  ∀ calendarId, db'.served calendarId = db.served calendarId ∧
    db'.outboundFederationsForCalendar calendarId = db.outboundFederationsForCalendar calendarId

/-- The federation that a call inserted. -/
def inserted : Call ShareOp.Ret → Option String
  | ⟨.createOutboundFederation .., .ok created⟩ => some created.1
  | _ => none

/-- The other server accepted an invitation. -/
def accepted : Call ShareOp.Ret → Bool
  | ⟨.postJson .., .ok status⟩ => isSuccess status
  | _ => false

/-- Whatever federation was inserted, the other server accepted the invitation. -/
def Taken (cs : List (Call ShareOp.Ret)) : Prop :=
  ∀ call ∈ cs, (inserted call).isSome → ∃ posted ∈ cs, accepted posted

section Laws

variable {C : ShareCrates} {caller : Jmap.Caller} {now : ℤ} {db db' : ShareDb}
  {cs : List (Call ShareOp.Ret)}

/-! ## What a run adds -/

/-- A federation as it is inserted. -/
def FederationRow.Granted (f : FederationRow) : Prop := f.serves ∧ f.peerDomain.isSome

theorem ShareDb.call_cases {α : Type} {err : StorageError → MethodError} {body : Tx ShareDb α}
    {r : Except MethodError α} (h : db.call err body = some (r, db')) :
    (∃ e, r = .error e ∧ db' = db) ∨ ∃ a, r = .ok a ∧ body db = .ok (a, db') := by
  obtain ⟨rfl, rfl⟩ := Prod.mk.inj (Option.some.inj h)
  rcases hbody : body db with e | ⟨a, t⟩
  · exact .inl ⟨err e, by simp [transaction, hbody, Except.mapError], by simp [transaction, hbody]⟩
  · exact .inr ⟨a, by simp [transaction, hbody, Except.mapError], by simp [transaction, hbody]⟩

/-- A call that does not write federations. -/
theorem ShareDb.call_frame {α : Type} {err : StorageError → MethodError} {body : Tx ShareDb α}
    {r : Except MethodError α} (h : db.call err body = some (r, db'))
    (hbody : ∀ a, body db = .ok (a, db') → db'.federations = db.federations) :
    db'.federations = db.federations := by
  rcases db.call_cases h with ⟨e, -, rfl⟩ | ⟨a, -, hok⟩
  · rfl
  · exact hbody a hok

theorem createOutboundFederationTx_ok {io : Io} {calendarId : CalendarId}
    {targetEmail targetServerUrl peerDomain peerFingerprint id capability : String}
    {ty : SharingType} {at' : ℤ} {a : String × String}
    (h : createOutboundFederationTx io calendarId targetEmail targetServerUrl ty peerDomain
      peerFingerprint id capability at' db = .ok (a, db')) :
    ∃ row, db'.federations = db.federations ++ [row] ∧ row.id = a.1 ∧ row.Granted := by
  simp only [createOutboundFederationTx, Tx.bind_eq_ok, Tx.get_eq_ok, Tx.require_eq_ok,
    Tx.exec_eq_ok, Tx.pure_eq_ok] at h
  obtain ⟨_, _, ⟨rfl, rfl⟩, _, _, ⟨-, rfl⟩, _, _, ⟨-, rfl⟩, _, _, ⟨-, rfl⟩, _, _, ⟨-, rfl⟩,
    rfl, rfl⟩ := h
  exact ⟨_, rfl, rfl, by simp [FederationRow.serves], rfl⟩

theorem onSharing_ok {α : Type} {body : Tx SharingDb α} {a : α}
    (h : onSharing body db = .ok (a, db')) : db'.federations = db.federations := by
  unfold onSharing at h
  rcases hbody : body db.toSharingDb with e | ⟨b, t⟩
  · rw [hbody] at h
    cases h
  · rw [hbody] at h
    cases h
    rfl

/-- One call adds the federation it inserts, and no other call changes the federations. -/
theorem federations_exec {o : ShareOp} {c : ShareChoice} {r : o.Ret}
    (h : o.exec C c db = some (r, db')) :
    ∃ rows, db'.federations = db.federations ++ rows ∧
      rows.map (·.id) = (inserted ⟨o, r⟩).toList ∧ ∀ f ∈ rows, f.Granted := by
  have hquiet : db'.federations = db.federations → inserted ⟨o, r⟩ = none →
      ∃ rows, db'.federations = db.federations ++ rows ∧
        rows.map (·.id) = (inserted ⟨o, r⟩).toList ∧ ∀ f ∈ rows, f.Granted := by
    intro hsame hnone
    exact ⟨[], by rw [hsame, List.append_nil], by rw [hnone]; rfl, fun _ hf => nomatch hf⟩
  cases o with
  | getCalendar | accountByEmail =>
    refine hquiet (db.call_frame h fun a hok => ?_) rfl
    obtain ⟨-, -, rfl⟩ := Tx.query_eq_ok.mp hok
    rfl
  | shareCalendar =>
    refine hquiet (db.call_frame h fun a hok => ?_) rfl
    exact onSharing_ok hok
  | buildClient | discoverAndPin | postJson =>
    obtain ⟨-, rfl⟩ := Prod.mk.inj (Option.some.inj h)
    exact hquiet rfl rfl
  | createOutboundFederation =>
    rcases db.call_cases h with ⟨e, rfl, rfl⟩ | ⟨a, rfl, hok⟩
    · exact hquiet rfl rfl
    · obtain ⟨row, hrows, hid, hgranted⟩ := createOutboundFederationTx_ok hok
      refine ⟨[row], hrows, by rw [List.map_singleton, hid]; rfl, ?_⟩
      rintro f hf
      rwa [List.mem_singleton.mp hf]

/-- **A run only adds federations**, each of them granted. -/
theorem federations_of_calls (h : Prog.Calls (ShareOp.exec C) db cs db') :
    ∃ rows, db'.federations = db.federations ++ rows ∧
      rows.map (·.id) = cs.filterMap inserted ∧ ∀ f ∈ rows, f.Granted := by
  induction h with
  | nil db => exact ⟨[], (List.append_nil _).symm, rfl, fun _ hf => nomatch hf⟩
  | cons c hmade hafter ih =>
    rename_i o r _ _ _ calls
    obtain ⟨rows, hrows, hids, hgranted⟩ := federations_exec hmade
    obtain ⟨rows', hrows', hids', hgranted'⟩ := ih
    refine ⟨rows ++ rows', by rw [hrows', hrows, List.append_assoc], ?_, ?_⟩
    · rw [List.map_append, hids, hids', List.filterMap_cons]
      cases inserted ⟨o, r⟩ <;> rfl
    · intro f hf
      exact (List.mem_append.mp hf).elim (hgranted f) (hgranted' f)

/-- Federations that are added and granted change what is served. -/
theorem sameGrants_iff {rows : List FederationRow}
    (h : db'.federations = db.federations ++ rows) (hrows : ∀ f ∈ rows, f.Granted) :
    SameGrants db db' ↔ rows = [] := by
  have hserved : ∀ calendarId, db'.served calendarId = db.served calendarId ++
      rows.filter fun f => f.calendarId = calendarId ∧ f.serves := by
    intro calendarId
    rw [ShareDb.served, h, List.filter_append]
    rfl
  constructor
  · intro hsame
    by_contra hne
    obtain ⟨f, hf⟩ := List.exists_mem_of_ne_nil rows hne
    have hnone := hserved f.calendarId
    rw [(hsame f.calendarId).1, List.self_eq_append_right, List.filter_eq_nil_iff] at hnone
    exact hnone f hf (decide_eq_true ⟨rfl, (hrows f hf).1⟩)
  · rintro rfl calendarId
    have hserved := hserved calendarId
    rw [List.filter_nil, List.append_nil] at hserved
    refine ⟨hserved, ?_⟩
    rw [ShareDb.outboundFederationsForCalendar, ShareDb.outboundFederationsForCalendar, hserved]

/-! ## What a run says -/

/-- Once a federation is inserted, the answer is a success exactly if the other server accepts. -/
def Says (cs : List (Call ShareOp.Ret)) (answer : Except MethodError Value) : Prop :=
  (∃ call ∈ cs, (inserted call).isSome) → ((∃ a, answer = .ok a) ↔ ∃ posted ∈ cs, accepted posted)

/-- No invitation was accepted. -/
def Unaccepted (cs : List (Call ShareOp.Ret)) : Prop := ∀ call ∈ cs, accepted call = false

theorem Unaccepted.snoc (h : Unaccepted cs) (call : Call ShareOp.Ret)
    (hcall : accepted call = false) : Unaccepted (cs ++ [call]) := by
  intro call' hcall'
  rcases List.mem_append.mp hcall' with hold | hnew
  · exact h call' hold
  · rwa [List.mem_singleton.mp hnew]

theorem Unaccepted.told {e : MethodError} (h : Unaccepted cs) : Says cs (.error e) := by
  rintro -
  constructor
  · rintro ⟨_, ⟨⟩⟩
  · rintro ⟨call, hcall, haccepted⟩
    rw [h call hcall] at haccepted
    cases haccepted

/-- Nothing was inserted, and nothing accepted. -/
structure Quiet (cs : List (Call ShareOp.Ret)) : Prop where
  unaccepted : Unaccepted cs
  inserted : ∀ call ∈ cs, inserted call = none

theorem Quiet.nil : Quiet [] := ⟨fun _ h => (nomatch h), fun _ h => (nomatch h)⟩

theorem Quiet.snoc (h : Quiet cs) (call : Call ShareOp.Ret)
    (hinserted : Sharing.inserted call = none) (haccepted : accepted call = false) :
    Quiet (cs ++ [call]) := by
  refine ⟨h.unaccepted.snoc call haccepted, fun call' hcall' => ?_⟩
  rcases List.mem_append.mp hcall' with hold | hnew
  · exact h.inserted call' hold
  · rwa [List.mem_singleton.mp hnew]

theorem Quiet.told {answer : Except MethodError Value} (h : Quiet cs) : Says cs answer := by
  rintro ⟨call, hcall, hinserted⟩
  rw [h.inserted call hcall] at hinserted
  cases hinserted

/-- The federated branch, call by call: from the insertion on, only the answer to the invitation
decides. -/
theorem spec_shareFederated {args : CalendarShareArgs} {calendarId : CalendarId} {domain : String}
    (h : Quiet cs) :
    (shareFederated C caller now args calendarId domain).run.Spec (fun _ _ => True) Says cs := by
  refine Prog.spec_ask_bind.mpr ⟨trivial, ?_, fun e => (h.snoc _ rfl rfl).told⟩
  rintro (_ | calendar)
  · exact (h.snoc _ rfl rfl).told
  have h := h.snoc ⟨.getCalendar caller.id calendarId, .ok (some calendar)⟩ rfl rfl
  refine Prog.spec_ask_bind.mpr ⟨trivial, fun _ => ?_, fun e => (h.snoc _ rfl rfl).told⟩
  have h := h.snoc ⟨.buildClient, .ok ⟨⟩⟩ rfl rfl
  refine Prog.spec_ask_bind.mpr ⟨trivial, fun peer => ?_, fun e => (h.snoc _ rfl rfl).told⟩
  have h := h.snoc ⟨.discoverAndPin domain, .ok peer⟩ rfl rfl
  refine Prog.spec_ask_bind.mpr ⟨trivial, fun created => ?_, fun e => (h.snoc _ rfl rfl).told⟩
  -- the row is there now
  have h := h.unaccepted.snoc ⟨.createOutboundFederation calendarId args.inviteeEmail
    peer.serverUrl (sharingTypeOf args.sharingType) peer.domain peer.fingerprint, .ok created⟩ rfl
  dsimp only
  split
  · exact h.told
  rename_i body hbody
  refine Prog.spec_ask_bind.mpr ⟨trivial, fun status => ?_, fun e => (h.snoc _ rfl).told⟩
  split
  · rename_i hsuccess
    rintro -
    exact ⟨fun _ => ⟨_, List.mem_append_right _ List.mem_cons_self, hsuccess⟩, fun _ => ⟨_, rfl⟩⟩
  · rename_i hfailure
    exact (h.snoc _ (Bool.not_eq_true _ ▸ hfailure)).told

theorem spec_shareTo {args : CalendarShareArgs} {calendarId : CalendarId} (h : Quiet cs) :
    (shareTo C caller now args calendarId).run.Spec (fun _ _ => True) Says cs := by
  refine Prog.spec_ask_bind.mpr ⟨trivial, ?_, fun e => (h.snoc _ rfl rfl).told⟩
  rintro (_ | calendar)
  · exact (h.snoc _ rfl rfl).told
  have h := h.snoc ⟨.getCalendar caller.id calendarId, .ok (some calendar)⟩ rfl rfl
  dsimp only
  split
  · refine Prog.spec_ask_bind.mpr ⟨trivial, ?_, fun e => (h.snoc _ rfl rfl).told⟩
    rintro (_ | target)
    · exact spec_shareFederated (h.snoc _ rfl rfl)
    have h := h.snoc ⟨.accountByEmail args.inviteeEmail, .ok (some target)⟩ rfl rfl
    refine Prog.spec_ask_bind.mpr ⟨trivial, fun sharing => ?_, fun e => (h.snoc _ rfl rfl).told⟩
    exact (h.snoc _ rfl rfl).told
  · exact h.told

theorem spec_calendarShare {args : Value} (h : Quiet cs) :
    (calendarShare C caller now args).run.Spec (fun _ _ => True) Says cs := by
  unfold calendarShare
  split
  · exact h.told
  · exact spec_shareTo h

/-- **A failed share** leaves what is served and notified as it was exactly if the other server
accepted the invitation of whatever federation was inserted. -/
theorem leavesNoGrant_iff {args : Value} {answer : Except MethodError Value}
    (h : (calendarShare C caller now args).run.Ran (ShareOp.exec C) db cs answer db') :
    ((∃ e, answer = .error e) → SameGrants db db') ↔ Taken cs := by
  have hknown := h.spec (spec_calendarShare Quiet.nil)
  rw [List.nil_append] at hknown
  obtain ⟨rows, hrows, hids, hgranted⟩ := federations_of_calls h.calls
  rw [sameGrants_iff hrows hgranted]
  constructor
  · intro hleaves call hcall hinserted
    refine (hknown ⟨call, hcall, hinserted⟩).mp ?_
    rcases answer with e | a
    · obtain rfl := hleaves ⟨e, rfl⟩
      obtain ⟨id, hid⟩ := Option.isSome_iff_exists.mp hinserted
      have hmem : id ∈ cs.filterMap inserted := List.mem_filterMap.mpr ⟨call, hcall, hid⟩
      rw [← hids] at hmem
      cases hmem
    · exact ⟨a, rfl⟩
  · rintro htaken ⟨e, rfl⟩
    by_contra hne
    obtain ⟨f, hf⟩ := List.exists_mem_of_ne_nil rows hne
    have hmem : f.id ∈ cs.filterMap inserted := hids ▸ List.mem_map_of_mem hf
    obtain ⟨call, hcall, hid⟩ := List.mem_filterMap.mp hmem
    have hinserted : (inserted call).isSome := by rw [hid]; rfl
    obtain ⟨a, ⟨⟩⟩ := (hknown ⟨call, hcall, hinserted⟩).mpr (htaken call hcall hinserted)

end Laws

/-! ## An invitation that is refused -/

/-- Alice's account. -/
def alice : Jmap.Caller := ⟨⟨⟨1⟩⟩, "alice@a.test", none, "https://a.test"⟩

/-- She shares calendar 7 with Bob, whose server is another one. -/
def ShareCrates.sample : ShareCrates where
  unicode := .ascii
  argsOf _ := some ⟨Uuid.toString ⟨1⟩, Uuid.toString ⟨7⟩, "bob@b.test", "sharing"⟩
  toVec invitation := .ok (invitation.federationId.toList.map fun c => UInt8.ofNat c.toNat)
  storageText _ := "storage error"
  statusText := toString

/-- Alice has the calendar, and nobody else has an account. -/
def aliceDb : ShareDb where
  calendars := [⟨⟨7⟩, ⟨⟨1⟩⟩, "Work", none, 0, 0⟩]
  sharing := []
  accounts := []
  federations := []

/-- Everything succeeds up to the invitation, which the other server answers so. -/
def answeredWith (posted : Except String ℕ) : List ShareChoice :=
  [{}, {}, {}, {}, { discovered := .ok ⟨"b.test", "https://b.test", [], "fp", 0⟩ },
    { id := "f", capability := "secret" }, { posted }]

theorem readShareArgs_sample :
    readShareArgs .sample alice .null =
      .ok (⟨Uuid.toString ⟨1⟩, Uuid.toString ⟨7⟩, "bob@b.test", "sharing"⟩, ⟨⟨7⟩⟩) := by
  simp [readShareArgs, ShareCrates.sample, alice, Uuid.parseStr_toString]

/-- **A refused invitation** leaves the federation behind. -/
theorem not_leavesNoGrant_refused :
    ¬∀ cs answer db', (calendarShare .sample alice 0 .null).run.Ran (ShareOp.exec .sample) aliceDb
      cs answer db' → (∃ e, answer = .error e) → SameGrants aliceDb db' := by
  intro hclaim
  have hran : ∃ cs e db', (calendarShare .sample alice 0 .null).run.Ran (ShareOp.exec .sample)
      aliceDb cs (.error e) db' ∧ (db'.served ⟨⟨7⟩⟩).length = 1 := by
    rw [calendarShare, readShareArgs_sample]
    exact ⟨_, _, _, Prog.ran_of_play (answeredWith (.ok 503)) rfl, by decide +kernel⟩
  obtain ⟨cs, e, db', hran, hserved⟩ := hran
  rw [(hclaim cs _ db' hran ⟨e, rfl⟩ ⟨⟨7⟩⟩).1] at hserved
  cases hserved

/-- An invitation that is accepted. -/
theorem leavesNoGrant_accepted :
    ∃ cs answer db', (calendarShare .sample alice 0 .null).run.Ran (ShareOp.exec .sample) aliceDb
      cs answer db' ∧ (((∃ e, answer = .error e) → SameGrants aliceDb db') ↔ Taken cs) := by
  have hran : ∃ cs answer db', (calendarShare .sample alice 0 .null).run.Ran (ShareOp.exec .sample)
      aliceDb cs answer db' := by
    rw [calendarShare, readShareArgs_sample]
    exact ⟨_, _, _, Prog.ran_of_play (answeredWith (.ok 200)) rfl⟩
  obtain ⟨cs, answer, db', hran⟩ := hran
  exact ⟨cs, answer, db', hran, leavesNoGrant_iff hran⟩

end Owney.Sharing
