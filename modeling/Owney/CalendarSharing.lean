import Owney.Lib.Programs
import Owney.SchedulingStore

/-!
# Shared calendars

An account can share a calendar of its own with another account of the server; the other one
accepts or rejects the invitation. `calendar_access` decides from the rows what an account may
do, and `Calendar/get` lists what it may see.

* `SharingOp` — the storage calls of `calendar.rs` and `calendar_sharing.rs`;
  `calendarGet` is `calendar_get` of `calendar_methods.rs`, which makes several of them.
* `Granted` — the owner shared the calendar with the account, and the account's last word on
  that share was to accept it.
* `sharingEffect` — what one call does to the rows.
-/

namespace Owney.Sharing

open Programs Tables

/-! ## Rows -/

/-- `SharingType`. -/
inductive SharingType where
  | sharing
  | delegation
  deriving DecidableEq, Repr

/-- `Permissions`. -/
structure Permissions where
  viewCalendar : Bool
  viewEvents : Bool
  editEvents : Bool
  deleteEvents : Bool
  changeSharing : Bool
  admin : Bool
  deriving DecidableEq, Repr

/-- `Permissions::sharing`: read only. -/
def Permissions.sharing : Permissions := ⟨true, true, false, false, false, false⟩

/-- `Permissions::delegation`. -/
def Permissions.delegation : Permissions := ⟨true, true, true, true, true, true⟩

/-- `Permissions::owner`. -/
def Permissions.owner : Permissions := .delegation

/-- What a share of this type grants. -/
def SharingType.permissions : SharingType → Permissions
  | .sharing => .sharing
  | .delegation => .delegation

@[simp] theorem SharingType.permissions_viewCalendar (ty : SharingType) :
    ty.permissions.viewCalendar = true := by
  cases ty <;> rfl

/-- The `status` column. -/
inductive SharingStatus where
  | pending
  | accepted
  | rejected
  deriving DecidableEq, Repr

/-- A row of `calendar_sharing`. -/
structure CalendarSharing where
  id : String
  calendarId : CalendarId
  sharedWithAccountId : AccountId
  sharingType : SharingType
  permissions : Permissions
  status : SharingStatus
  createdAt : ℤ
  acceptedAt : Option ℤ
  deriving DecidableEq, Repr

/-- The tables. -/
structure SharingDb where
  calendars : List Calendar
  sharing : List CalendarSharing

/-- `SELECT EXISTS(SELECT 1 FROM calendars WHERE id = ?1 AND account_id = ?2)`. -/
def SharingDb.owns (db : SharingDb) (accountId : AccountId) (calendarId : CalendarId) : Bool :=
  db.calendars.any fun c => c.id = calendarId ∧ c.accountId = accountId

/-- The row selected by `calendar_id`, `shared_with_account_id` and `status = 'accepted'`. -/
def CalendarSharing.grants (s : CalendarSharing) (accountId : AccountId) (calendarId : CalendarId) :
    Bool :=
  s.calendarId = calendarId ∧ s.sharedWithAccountId = accountId ∧ s.status = .accepted

/-! ## Storage calls -/

/-- `Storage::create_calendar`. -/
def createCalendarTx (io : Io) (new : NewCalendar) : Tx SharingDb Calendar := do
  let db ← Tx.get
  Tx.require (new.id ∉ db.calendars.map (·.id)) .sqlite
  let calendar : Calendar :=
    ⟨new.id, new.accountId, new.name, new.description, new.now, new.now⟩
  Tx.exec io 0 fun db => { db with calendars := db.calendars ++ [calendar] }
  return calendar

/-- `Storage::share_calendar`, with the fresh id and the clock. The table has a primary key and
one row for each calendar and account. -/
def shareCalendarTx (io : Io) (calendarId : CalendarId) (owner target : AccountId)
    (ty : SharingType) (id : String) (now : ℤ) : Tx SharingDb CalendarSharing := do
  let owns ← Tx.query io 0 (·.owns owner calendarId)
  Tx.require (owns = true) .notAuthorized
  let db ← Tx.get
  Tx.require (id ∉ db.sharing.map (·.id)) .sqlite
  Tx.require ((calendarId, target) ∉
    db.sharing.map fun s => (s.calendarId, s.sharedWithAccountId)) .sqlite
  let row : CalendarSharing := ⟨id, calendarId, target, ty, ty.permissions, .pending, now, none⟩
  Tx.exec io 1 fun db => { db with sharing := db.sharing ++ [row] }
  return row

/-- The row addressed to the account. -/
def CalendarSharing.addressed (s : CalendarSharing) (id : String) (accountId : AccountId) : Bool :=
  s.id = id ∧ s.sharedWithAccountId = accountId

/-- `Storage::accept_sharing`: whatever the status was before. -/
def acceptSharingTx (io : Io) (id : String) (accountId : AccountId) (now : ℤ) :
    Tx SharingDb Unit := do
  let db ← Tx.get
  Tx.exec io 0 fun db => { db with
    sharing := update (·.addressed id accountId)
      (fun s => { s with status := .accepted, acceptedAt := some now }) db.sharing }
  Tx.require (db.sharing.any (·.addressed id accountId) = true) .notAuthorized

/-- `Storage::reject_sharing`. -/
def rejectSharingTx (io : Io) (id : String) (accountId : AccountId) : Tx SharingDb Unit := do
  let db ← Tx.get
  Tx.exec io 0 fun db => { db with
    sharing := update (·.addressed id accountId) (fun s => { s with status := .rejected })
      db.sharing }
  Tx.require (db.sharing.any (·.addressed id accountId) = true) .notAuthorized

/-- `Storage::calendar_access`. -/
def calendarAccessTx (io : Io) (accountId : AccountId) (calendarId : CalendarId) :
    Tx SharingDb (Option Permissions) := do
  let isOwner ← Tx.query io 0 (·.owns accountId calendarId)
  if isOwner then return some .owner
  else do
    let row ← Tx.query io 1 fun db => db.sharing.find? (·.grants accountId calendarId)
    return row.map (·.permissions)

/-- `Storage::list_calendars`. -/
def listCalendarsTx (io : Io) (accountId : AccountId) : Tx SharingDb (List Calendar) :=
  Tx.query io 0 fun db =>
    orderBy (·.createdAt) (db.calendars.filter fun c => c.accountId = accountId)

/-- `Storage::list_accepted_shared_calendar_ids`. -/
def listAcceptedSharedCalendarIdsTx (io : Io) (accountId : AccountId) :
    Tx SharingDb (List (CalendarId × Permissions)) :=
  Tx.query io 0 fun db =>
    (db.sharing.filter fun s => s.sharedWithAccountId = accountId ∧ s.status = .accepted).map
      fun s => (s.calendarId, s.permissions)

/-- `Storage::get_calendar_by_id`. -/
def getCalendarByIdTx (io : Io) (calendarId : CalendarId) : Tx SharingDb (Option Calendar) :=
  Tx.query io 0 fun db => db.calendars.find? fun c => c.id = calendarId

/-! ## Calls -/

/-- Why a method failed. -/
inductive SharingError where
  | accountNotFound
  | storage (e : StorageError)
  deriving DecidableEq, Repr

/-- A storage call. -/
inductive SharingOp where
  | createCalendar (accountId : AccountId) (name : String) (description : Option String)
  | shareCalendar (calendarId : CalendarId) (owner target : AccountId) (ty : SharingType)
  | acceptSharing (id : String) (accountId : AccountId)
  | rejectSharing (id : String) (accountId : AccountId)
  | calendarAccess (accountId : AccountId) (calendarId : CalendarId)
  | listCalendars (accountId : AccountId)
  | listAcceptedSharedCalendarIds (accountId : AccountId)
  | getCalendarById (calendarId : CalendarId)

/-- What a successful call returns. -/
abbrev SharingOp.Val : SharingOp → Type
  | .createCalendar .. => Calendar
  | .shareCalendar .. => CalendarSharing
  | .acceptSharing .. | .rejectSharing .. => Unit
  | .calendarAccess .. => Option Permissions
  | .listCalendars _ => List Calendar
  | .listAcceptedSharedCalendarIds _ => List (CalendarId × Permissions)
  | .getCalendarById _ => Option Calendar

/-- What a call returns. -/
abbrev SharingOp.Ret (o : SharingOp) : Type := Except SharingError o.Val

/-- What a call meets: statements that fail, the clock and the ids it draws. -/
structure SharingChoice where
  io : Io := .ok
  now : ℤ := 0
  calendarId : CalendarId := ⟨0⟩
  sharingId : String := ""

/-- The body of a call. -/
def SharingOp.body (c : SharingChoice) : (o : SharingOp) → Tx SharingDb o.Val
  | .createCalendar accountId name description =>
    createCalendarTx c.io ⟨accountId, name, description, c.calendarId, c.now⟩
  | .shareCalendar calendarId owner target ty =>
    shareCalendarTx c.io calendarId owner target ty c.sharingId c.now
  | .acceptSharing id accountId => acceptSharingTx c.io id accountId c.now
  | .rejectSharing id accountId => rejectSharingTx c.io id accountId
  | .calendarAccess accountId calendarId => calendarAccessTx c.io accountId calendarId
  | .listCalendars accountId => listCalendarsTx c.io accountId
  | .listAcceptedSharedCalendarIds accountId => listAcceptedSharedCalendarIdsTx c.io accountId
  | .getCalendarById calendarId => getCalendarByIdTx c.io calendarId

/-- Make a call. -/
def SharingOp.exec (o : SharingOp) (c : SharingChoice) (db : SharingDb) :
    Option (o.Ret × SharingDb) :=
  some ((transaction (o.body c) db).1.mapError .storage, (transaction (o.body c) db).2)

/-! ## Programs -/

/-- A program. -/
abbrev SharingProg (α : Type) : Type := ExceptT SharingError (Prog SharingOp.Ret) α

/-- One call; its error ends the program. -/
def sharing (o : SharingOp) : SharingProg o.Val := Prog.ask o

/-- The object `rights_json` makes. -/
structure Rights where
  mayReadItems : Bool
  mayWriteItems : Bool
  mayDeleteItems : Bool
  mayAdmin : Bool
  mayShare : Bool
  deriving DecidableEq, Repr

/-- `rights_json`. -/
def rightsJson (perms : Permissions) : Rights :=
  ⟨perms.viewEvents, perms.editEvents, perms.deleteEvents, perms.admin, perms.changeSharing⟩

/-- An entry of the list `Calendar/get` answers. -/
structure CalendarValue where
  id : CalendarId
  name : String
  description : Option String
  isSubscribed : Bool
  myRights : Rights
  deriving DecidableEq, Repr

/-- The entry of a calendar on which the account holds these permissions. -/
def calendarValue (perms : Permissions) (c : Calendar) : CalendarValue :=
  ⟨c.id, c.name, c.description, true, rightsJson perms⟩

/-- The loop of `calendar_get` over the accepted shares. -/
def addShared : List (CalendarId × Permissions) → List CalendarValue →
    SharingProg (List CalendarValue)
  | [], values => return values
  | (calendarId, perms) :: shared, values =>
    if !perms.viewCalendar then addShared shared values
    else do
      let c ← sharing (.getCalendarById calendarId)
      addShared shared (values ++ (c.map (calendarValue perms)).toList)

/-- `calendar_get` for the signed in account; the arguments name an account too. -/
def calendarGet (account argsAccountId : AccountId) : SharingProg (List CalendarValue) :=
  if argsAccountId ≠ account then throw .accountNotFound
  else do
    let owned ← sharing (.listCalendars account)
    let shared ← sharing (.listAcceptedSharedCalendarIds account)
    addShared shared (owned.map (calendarValue .owner))

/-- What starts a program. -/
inductive SharingRequest where
  | call (o : SharingOp)
  | get (account argsAccountId : AccountId)

/-- What a program answers: the list, for `Calendar/get`. -/
abbrev SharingAnswer : Type := Except SharingError (List CalendarValue)

/-- The program of a request. -/
def sharingHandle : SharingRequest → Prog SharingOp.Ret SharingAnswer
  | .call o => (do let _ ← sharing o; return [] : SharingProg (List CalendarValue)).run
  | .get account argsAccountId => (calendarGet account argsAccountId).run

/-- The server with all that was ever shared. -/
abbrev SharingSys : Type := Sys SharingOp.Ret SharingRequest SharingAnswer SharingChoice SharingDb

/-- A program starts, or makes its next call. -/
abbrev SharingMove : Type := Move SharingRequest SharingChoice

/-- No calendars, after some moves. -/
def sharingRun (moves : List SharingMove) : SharingSys :=
  Runs.run (step sharingHandle SharingOp.exec) (Sys.init ⟨[], []⟩) moves

/-! ## The history -/

/-- A call that was made. -/
abbrev SharingEvent : Type := Event SharingOp.Ret SharingRequest SharingChoice SharingDb

/-- The account created the calendar. -/
def Owns (past : List SharingEvent) (account : AccountId) (cal : CalendarId) : Prop :=
  ∃ e ∈ past, ∃ name description c,
    e.call = ⟨.createCalendar account name description, .ok c⟩ ∧ c.id = cal

/-- The share with this id was made by the calendar's owner; `since` is what happened after. -/
def SharedBy (past : List SharingEvent) (id : String) (cal : CalendarId) (account : AccountId)
    (ty : SharingType) (since : List SharingEvent) : Prop :=
  ∃ pre e owner s, past = pre ++ e :: since ∧
    e.call = ⟨.shareCalendar cal owner account ty, .ok s⟩ ∧ s.id = id ∧ Owns pre owner cal

/-- The account accepted the share, and has not rejected it since. -/
def Standing (since : List SharingEvent) (id : String) (account : AccountId) : Prop :=
  ∃ pre e post, since = pre ++ e :: post ∧ e.call = ⟨.acceptSharing id account, .ok ()⟩ ∧
    ∀ x ∈ post, x.call ≠ ⟨.rejectSharing id account, .ok ()⟩

/-- A share of the calendar stands, and this is what it grants. -/
def Granted (past : List SharingEvent) (account : AccountId) (cal : CalendarId)
    (p : Permissions) : Prop :=
  ∃ id ty since, SharedBy past id cal account ty since ∧ Standing since id account ∧
    p = ty.permissions

/-- What the account may do, by the history. -/
def Decision (past : List SharingEvent) (account : AccountId) (cal : CalendarId) :
    Option Permissions → Prop
  | some p => Owns past account cal ∧ p = .owner ∨
      ¬Owns past account cal ∧ Granted past account cal p
  | none => ¬Owns past account cal ∧ ∀ p, ¬Granted past account cal p

/-- The program made this read after the calls `pre`. -/
def ReadAt (past : List SharingEvent) (i : ℕ) (o : SharingOp) (pre : List SharingEvent) : Prop :=
  ∃ e post, past = pre ++ e :: post ∧ e.thread = i ∧ e.call.op = o

/-- The list shows what the account may view, with its rights: the calendars of its own that
were there at the first read, and the shared ones as of the second. -/
structure Lists (pre₀ pre : List SharingEvent) (account : AccountId)
    (values : List CalendarValue) : Prop where
  owned : ∀ cal, Owns pre₀ account cal →
    ∃ v ∈ values, v.id = cal ∧ v.myRights = rightsJson .owner
  shared : ∀ cal, ¬Owns pre account cal →
    ((∃ v ∈ values, v.id = cal) ↔ ∃ p, Decision pre account cal (some p) ∧ p.viewCalendar)
  rights : ∀ v ∈ values, ¬Owns pre account v.id →
    ∃ p, Decision pre account v.id (some p) ∧ v.myRights = rightsJson p

/-- **What the server promises**: the decision goes by the history, and the list by the decision,
with each calendar once. -/
structure SharingLaws (s : SharingSys) : Prop where
  access : ∀ pre e post account cal res, s.past = pre ++ e :: post →
    e.call = ⟨.calendarAccess account cal, .ok res⟩ → Decision pre account cal res
  lists : ∀ i account args values, s.request i = some (.get account args) →
    s.answer i = some (.ok values) → ∃ pre₀ pre, ReadAt s.past i (.listCalendars account) pre₀ ∧
      ReadAt s.past i (.listAcceptedSharedCalendarIds account) pre ∧
        Lists pre₀ pre account values
  once : ∀ i account args values, s.request i = some (.get account args) →
    s.answer i = some (.ok values) → (values.map (·.id)).Nodup

/-- No account that lists its calendars has accepted a share of one of its own. -/
def NoneOwn (s : SharingSys) : Prop :=
  ∀ i account args values, s.request i = some (.get account args) →
    s.answer i = some (.ok values) → ∀ pre₀ pre, ReadAt s.past i (.listCalendars account) pre₀ →
      ReadAt s.past i (.listAcceptedSharedCalendarIds account) pre →
        ∀ cal p, Owns pre₀ account cal → ¬Granted pre account cal p

section Histories

variable {past since : List SharingEvent} {e : SharingEvent} {id : String} {cal : CalendarId}
  {account : AccountId} {ty : SharingType}

theorem owns_snoc : Owns (past ++ [e]) account cal ↔ Owns past account cal ∨
    ∃ name description c, e.call = ⟨.createCalendar account name description, .ok c⟩ ∧
      c.id = cal := by
  simp only [Owns, List.mem_append, List.mem_singleton, or_and_right, exists_or, exists_eq_left]

theorem Owns.append {more : List SharingEvent} (h : Owns past account cal) :
    Owns (past ++ more) account cal := by
  obtain ⟨e, he, hcall⟩ := h
  exact ⟨e, List.mem_append_left _ he, hcall⟩

theorem not_standing_nil : ¬Standing [] id account := by
  rintro ⟨pre, e, post, h, -⟩
  simp at h

theorem standing_snoc : Standing (since ++ [e]) id account ↔
    e.call = ⟨.acceptSharing id account, .ok ()⟩ ∨
      Standing since id account ∧ e.call ≠ ⟨.rejectSharing id account, .ok ()⟩ := by
  constructor
  · rintro ⟨pre, x, post, hsplit, hcall, hpost⟩
    rcases split_last hsplit with ⟨rfl, rfl, rfl⟩ | ⟨post, rfl, rfl⟩
    · exact .inl hcall
    · refine .inr ⟨⟨pre, x, post, rfl, hcall, fun y hy => hpost y (by simp [hy])⟩, ?_⟩
      exact hpost e (by simp)
  · rintro (hcall | ⟨⟨pre, x, post, rfl, hcall, hpost⟩, hnot⟩)
    · exact ⟨since, e, [], rfl, hcall, by simp⟩
    · refine ⟨pre, x, post ++ [e], by simp, hcall, fun y hy => ?_⟩
      rcases List.mem_append.mp hy with hy | hy
      · exact hpost y hy
      · rw [List.mem_singleton.mp hy]
        exact hnot

/-- A call that is neither an acceptance nor a rejection leaves what stands. -/
theorem standing_snoc_of_ne (haccept : e.call ≠ ⟨.acceptSharing id account, .ok ()⟩)
    (hreject : e.call ≠ ⟨.rejectSharing id account, .ok ()⟩) :
    Standing (since ++ [e]) id account ↔ Standing since id account := by
  rw [standing_snoc]
  simp [haccept, hreject]

theorem sharedBy_snoc (h : SharedBy (past ++ [e]) id cal account ty since) :
    (since = [] ∧ ∃ owner s, e.call = ⟨.shareCalendar cal owner account ty, .ok s⟩ ∧ s.id = id) ∨
      ∃ since₀, since = since₀ ++ [e] ∧ SharedBy past id cal account ty since₀ := by
  obtain ⟨pre, x, owner, s, hsplit, hcall, hid, howns⟩ := h
  rcases split_last hsplit with ⟨rfl, rfl, rfl⟩ | ⟨post, rfl, rfl⟩
  · exact .inl ⟨rfl, owner, s, hcall, hid⟩
  · exact .inr ⟨post, rfl, pre, x, owner, s, rfl, hcall, hid, howns⟩

theorem SharedBy.snoc (h : SharedBy past id cal account ty since) :
    SharedBy (past ++ [e]) id cal account ty (since ++ [e]) := by
  obtain ⟨pre, x, owner, s, rfl, hcall, hid, howns⟩ := h
  exact ⟨pre, x, owner, s, by simp, hcall, hid, howns⟩

end Histories

/-! ## What a call does -/

/-- What a call does to the tables. -/
inductive SharingEffect (db : SharingDb) (call : Call SharingOp.Ret) (db' : SharingDb) : Prop where
  | quiet (unmade : ∀ account name description c,
        call ≠ ⟨.createCalendar account name description, .ok c⟩)
      (unshared : ∀ cal owner account ty s, call ≠ ⟨.shareCalendar cal owner account ty, .ok s⟩)
      (unaccepted : ∀ id account, call ≠ ⟨.acceptSharing id account, .ok ()⟩)
      (unrejected : ∀ id account, call ≠ ⟨.rejectSharing id account, .ok ()⟩) (same : db' = db)
  | created {name : String} {description : Option String} {c : Calendar}
      (made : call = ⟨.createCalendar c.accountId name description, .ok c⟩)
      (fresh : c.id ∉ db.calendars.map (·.id))
      (rows : db' = { db with calendars := db.calendars ++ [c] })
  | shared {owner : AccountId} {s : CalendarSharing}
      (made : call = ⟨.shareCalendar s.calendarId owner s.sharedWithAccountId s.sharingType, .ok s⟩)
      (owns : db.owns owner s.calendarId) (fresh : s.id ∉ db.sharing.map (·.id))
      (unique : (s.calendarId, s.sharedWithAccountId) ∉
        db.sharing.map fun s => (s.calendarId, s.sharedWithAccountId))
      (pending : s.status = .pending) (permissions : s.permissions = s.sharingType.permissions)
      (rows : db' = { db with sharing := db.sharing ++ [s] })
  | accepted {id : String} {account : AccountId} {now : ℤ}
      (made : call = ⟨.acceptSharing id account, .ok ()⟩)
      (rows : db' = { db with
        sharing := update (·.addressed id account)
          (fun s => { s with status := .accepted, acceptedAt := some now }) db.sharing })
  | rejected {id : String} {account : AccountId}
      (made : call = ⟨.rejectSharing id account, .ok ()⟩)
      (rows : db' = { db with
        sharing := update (·.addressed id account) (fun s => { s with status := .rejected })
          db.sharing })

section Exec

variable {db db' : SharingDb} {c : SharingChoice}

/-- A call fails without effect, or its body succeeded. -/
theorem SharingOp.exec_cases {o : SharingOp} {res : o.Ret} (h : o.exec c db = some (res, db')) :
    (∃ e, res = .error (.storage e) ∧ db' = db) ∨
      ∃ a, o.body c db = .ok (a, db') ∧ res = .ok a := by
  obtain ⟨rfl, rfl⟩ := Prod.mk.inj (Option.some.inj h)
  rcases transaction_cases (o.body c) db with ⟨e, hbody⟩ | ⟨a, db', hok, hbody⟩
  · exact .inl ⟨e, by rw [hbody]; rfl, by rw [hbody]⟩
  · exact .inr ⟨a, by rw [hbody, hok], by rw [hbody]; rfl⟩

theorem calendarAccessTx_ok {io : Io} {account : AccountId} {cal : CalendarId}
    {res : Option Permissions} (h : calendarAccessTx io account cal db = .ok (res, db')) :
    res = (if db.owns account cal then some .owner
      else (db.sharing.find? (·.grants account cal)).map (·.permissions)) ∧ db' = db := by
  obtain ⟨isOwner, _, hquery, h⟩ := Tx.bind_eq_ok.mp h
  obtain ⟨-, rfl, rfl⟩ := Tx.query_eq_ok.mp hquery
  cases hown : db.owns account cal with
  | true =>
    rw [hown] at h
    obtain ⟨rfl, rfl⟩ := Tx.pure_eq_ok.mp h
    exact ⟨rfl, rfl⟩
  | false =>
    rw [hown] at h
    obtain ⟨row, _, hrow, h⟩ := Tx.bind_eq_ok.mp h
    obtain ⟨-, rfl, rfl⟩ := Tx.query_eq_ok.mp hrow
    obtain ⟨rfl, rfl⟩ := Tx.pure_eq_ok.mp h
    exact ⟨rfl, rfl⟩

theorem listCalendarsTx_ok {io : Io} {account : AccountId} {res : List Calendar}
    (h : listCalendarsTx io account db = .ok (res, db')) :
    res = orderBy (·.createdAt) (db.calendars.filter fun c => c.accountId = account) ∧
      db' = db := by
  obtain ⟨-, rfl, rfl⟩ := Tx.query_eq_ok.mp h
  exact ⟨rfl, rfl⟩

theorem listAcceptedSharedCalendarIdsTx_ok {io : Io} {account : AccountId}
    {res : List (CalendarId × Permissions)}
    (h : listAcceptedSharedCalendarIdsTx io account db = .ok (res, db')) :
    res = (db.sharing.filter fun s => s.sharedWithAccountId = account ∧ s.status = .accepted).map
      (fun s => (s.calendarId, s.permissions)) ∧ db' = db := by
  obtain ⟨-, rfl, rfl⟩ := Tx.query_eq_ok.mp h
  exact ⟨rfl, rfl⟩

theorem getCalendarByIdTx_ok {io : Io} {cal : CalendarId} {res : Option Calendar}
    (h : getCalendarByIdTx io cal db = .ok (res, db')) :
    res = db.calendars.find? (fun c => c.id = cal) ∧ db' = db := by
  obtain ⟨-, rfl, rfl⟩ := Tx.query_eq_ok.mp h
  exact ⟨rfl, rfl⟩

/-- **One call.** -/
theorem sharingEffect {o : SharingOp} {res : o.Ret} (h : o.exec c db = some (res, db')) :
    SharingEffect db ⟨o, res⟩ db' := by
  rcases SharingOp.exec_cases h with ⟨e, rfl, rfl⟩ | ⟨a, hok, rfl⟩
  · exact .quiet (by rintro _ _ _ _ ⟨⟩) (by rintro _ _ _ _ _ ⟨⟩) (by rintro _ _ ⟨⟩)
      (by rintro _ _ ⟨⟩) rfl
  cases o with
  | createCalendar account name description =>
    simp only [SharingOp.body, createCalendarTx, Tx.bind_eq_ok, Tx.get_eq_ok, Tx.require_eq_ok,
      Tx.exec_eq_ok, Tx.pure_eq_ok] at hok
    obtain ⟨_, _, ⟨rfl, rfl⟩, _, _, ⟨hfresh, rfl⟩, _, _, ⟨-, rfl⟩, rfl, rfl⟩ := hok
    exact @SharingEffect.created _ _ _ name description _ rfl hfresh rfl
  | shareCalendar calendarId owner target ty =>
    simp only [SharingOp.body, shareCalendarTx, Tx.bind_eq_ok, Tx.query_eq_ok, Tx.get_eq_ok,
      Tx.require_eq_ok, Tx.exec_eq_ok, Tx.pure_eq_ok] at hok
    obtain ⟨_, _, ⟨-, rfl, rfl⟩, _, _, ⟨howns, rfl⟩, _, _, ⟨rfl, rfl⟩, _, _, ⟨hfresh, rfl⟩, _, _,
      ⟨hunique, rfl⟩, _, _, ⟨-, rfl⟩, rfl, rfl⟩ := hok
    exact .shared rfl howns hfresh hunique rfl rfl rfl
  | acceptSharing id account =>
    simp only [SharingOp.body, acceptSharingTx, Tx.bind_eq_ok, Tx.get_eq_ok, Tx.exec_eq_ok,
      Tx.require_eq_ok] at hok
    obtain ⟨_, _, ⟨rfl, rfl⟩, _, _, ⟨-, rfl⟩, -, rfl⟩ := hok
    exact .accepted rfl rfl
  | rejectSharing id account =>
    simp only [SharingOp.body, rejectSharingTx, Tx.bind_eq_ok, Tx.get_eq_ok, Tx.exec_eq_ok,
      Tx.require_eq_ok] at hok
    obtain ⟨_, _, ⟨rfl, rfl⟩, _, _, ⟨-, rfl⟩, -, rfl⟩ := hok
    exact .rejected rfl rfl
  | calendarAccess account cal =>
    exact .quiet (by rintro _ _ _ _ ⟨⟩) (by rintro _ _ _ _ _ ⟨⟩) (by rintro _ _ ⟨⟩)
      (by rintro _ _ ⟨⟩) (calendarAccessTx_ok hok).2
  | listCalendars account =>
    exact .quiet (by rintro _ _ _ _ ⟨⟩) (by rintro _ _ _ _ _ ⟨⟩) (by rintro _ _ ⟨⟩)
      (by rintro _ _ ⟨⟩) (listCalendarsTx_ok hok).2
  | listAcceptedSharedCalendarIds account =>
    exact .quiet (by rintro _ _ _ _ ⟨⟩) (by rintro _ _ _ _ _ ⟨⟩) (by rintro _ _ ⟨⟩)
      (by rintro _ _ ⟨⟩) (listAcceptedSharedCalendarIdsTx_ok hok).2
  | getCalendarById cal =>
    exact .quiet (by rintro _ _ _ _ ⟨⟩) (by rintro _ _ _ _ _ ⟨⟩) (by rintro _ _ ⟨⟩)
      (by rintro _ _ ⟨⟩) (getCalendarByIdTx_ok hok).2

end Exec

end Owney.Sharing
