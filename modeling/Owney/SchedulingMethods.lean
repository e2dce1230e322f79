import Owney.JmapReferences
import Owney.Scheduling

/-!
# SchedulingPage/set

`scheduling_page_set` of `scheduling_methods.rs`: the objects to create and the pages to update
are taken one by one, each with a storage call of its own. A failure is put down under the
object's name, but a page or calendar of another account ends the method with an error, and so
does a list of pages to destroy, once everything else is done.
-/

namespace Owney.Jmap

/-- What the method takes from `serde_json`, from `std` and from the texts of storage errors. -/
structure PageCrates where
  locale : Locale
  unicode : Unicode
  /-- `serde_json::from_value::<Availability>` -/
  availabilityOf : Value → Except String Availability
  /-- `serde_json::from_value::<Vec<u32>>` -/
  durationsOf : Value → Except String (List ℕ)
  /-- `serde_json::to_value` of the availability -/
  availabilityJson : Availability → Value
  /-- `as_u64` of a number -/
  asU64 : String → Option ℕ
  /-- `to_string` of a storage error -/
  storageText : StorageError → String

/-- Who calls: the account of the session, and the server's address. -/
structure Caller where
  id : AccountId
  email : String
  displayName : Option String
  publicUrl : String

/-! ## Values -/

namespace Value

/-- `as_str`. -/
def asStr : Value → Option String
  | .string s => some s
  | _ => none

/-- `as_object`. -/
def asObject : Value → Option Members
  | .object members => some members
  | _ => none

/-- A value that is a `u32`. -/
def asU32 (C : PageCrates) : Value → Option ℕ
  | .number text => (C.asU64 text).filter (· < 2 ^ 32)
  | _ => none

end Value

/-- A member that is there and not null. -/
def Members.given (members : Members) (key : String) : Option Value :=
  match members.get key with
  | none | some .null => none
  | some value => some value

/-- An object with the given members. -/
def jsonObject (members : List (String × Value)) : Value :=
  .object (members.foldl (fun object member => Members.insert member.1 member.2 object) [])

/-- A text, or null. -/
def optString (s : Option String) : Value := s.elim .null .string

/-- A number. -/
def natJson (n : ℕ) : Value := .number (toString n)

section Method

variable (C : PageCrates) (caller : Caller)

/-- `page_json`. -/
def pageJson (page : SchedulingPage) : Value :=
  let url := String.ofList (caller.publicUrl.toList.rdropWhile (· = '/'))
  jsonObject
    [("id", .string page.id.uuid.toString),
      ("slug", .string page.slug),
      ("url", .string (url ++ "/schedule/" ++ page.slug)),
      ("title", .string page.title),
      ("description", optString page.description),
      ("calendarId", .string page.calendarId.uuid.toString),
      ("timezone", .string page.timezone),
      ("availability", C.availabilityJson page.availability),
      ("durationsMins", .array (page.durationsMins.map natJson)),
      ("bufferBeforeMins", natJson page.bufferBeforeMins),
      ("bufferAfterMins", natJson page.bufferAfterMins),
      ("minNoticeMins", natJson page.minNoticeMins),
      ("maxPerDay", page.maxPerDay.elim .null natJson),
      ("validFrom", optString page.validFrom),
      ("validUntil", optString page.validUntil),
      ("status", .string (match page.status with | .active => "active" | .paused => "paused"))]

/-! ## Reading an object -/

/-- The value, or `invalidArguments`. -/
def orInvalid {α : Type} (v : Option α) (msg : String) : Except MethodError α :=
  match v with
  | some a => .ok a
  | none => .error (.invalidArguments msg)

/-- A result of `serde_json`, or `invalidArguments`. -/
def orBad {α : Type} (what : String) (v : Except String α) : Except MethodError α :=
  v.mapError fun err => .invalidArguments ("bad " ++ what ++ ": " ++ err)

/-- A member that `serde_json` reads, or its default. -/
def givenOr {α : Type} (object : Members) (key : String) (default : α)
    (read : Value → Except String α) : Except MethodError α :=
  match object.given key with
  | none => .ok default
  | some value => orBad key (read value)

/-- The slug of an address: its local part in small letters, digits and hyphens. -/
def defaultSlug : String :=
  let localpart := String.ofList (caller.email.toList.takeWhile (· ≠ '@'))
  String.ofList ((C.unicode.toLowercase localpart).toList.map fun c =>
    if c.isLower ∨ c.isDigit then c else '-')

/-- `get_u32`. -/
def getU32 (object : Members) (key : String) : Except MethodError (Option ℕ) :=
  match object.given key with
  | none => .ok none
  | some value => (orInvalid (value.asU32 C) ("bad " ++ key)).map some

/-- `parse_create`. -/
def parseCreate (object : Members) : Except MethodError NewSchedulingPage := do
  let calendar ← orInvalid ((object.get "calendarId").bind Value.asStr) "calendarId is required"
  let calendarId ← orInvalid (Uuid.parseStr calendar) "bad calendarId"
  let availability ← givenOr object "availability" .defaultBusinessHours C.availabilityOf
  let durations ← givenOr object "durationsMins" [30] C.durationsOf
  let getStr := fun key => (object.get key).bind Value.asStr
  let bufferBefore ← getU32 C object "bufferBeforeMins"
  let bufferAfter ← getU32 C object "bufferAfterMins"
  let minNotice ← getU32 C object "minNoticeMins"
  let maxPerDay ← getU32 C object "maxPerDay"
  return {
    slug := (getStr "slug").getD (defaultSlug C caller)
    title := (getStr "title").getD ("Meet with " ++ caller.displayName.getD caller.email)
    description := getStr "description"
    calendarId := ⟨calendarId⟩
    timezone := (getStr "timezone").getD "UTC"
    availability := availability
    durationsMins := durations
    bufferBeforeMins := bufferBefore.getD 0
    bufferAfterMins := bufferAfter.getD 0
    minNoticeMins := minNotice.getD 0
    maxPerDay := maxPerDay
    validFrom := getStr "validFrom"
    validUntil := getStr "validUntil" }

/-- `status`. -/
def parseStatus : Value → Except MethodError PageStatus
  | .string "active" => .ok .active
  | .string "paused" => .ok .paused
  | _ => .error (.invalidArguments "status must be active|paused")

/-- One member of a patch. -/
def patchMember (patch : SchedulingPagePatch) (member : String × Value) :
    Except MethodError SchedulingPagePatch :=
  let value := member.2
  match member.1 with
  | "title" => .ok { patch with title := value.asStr }
  | "description" => .ok { patch with description := some value.asStr }
  | "timezone" => .ok { patch with timezone := value.asStr }
  | "availability" => do
    let availability ← orBad "availability" (C.availabilityOf value)
    return { patch with availability := some availability }
  | "durationsMins" => do
    let durations ← orBad "durationsMins" (C.durationsOf value)
    return { patch with durationsMins := some durations }
  | "bufferBeforeMins" => do
    let mins ← orInvalid (value.asU32 C) "bad bufferBeforeMins"
    return { patch with bufferBeforeMins := some mins }
  | "bufferAfterMins" => do
    let mins ← orInvalid (value.asU32 C) "bad bufferAfterMins"
    return { patch with bufferAfterMins := some mins }
  | "minNoticeMins" => do
    let mins ← orInvalid (value.asU32 C) "bad minNoticeMins"
    return { patch with minNoticeMins := some mins }
  | "maxPerDay" =>
    match value with
    | .null => .ok { patch with maxPerDay := some none }
    | value => do
      let limit ← orInvalid (value.asU32 C) "bad maxPerDay"
      return { patch with maxPerDay := some (some limit) }
  | "validFrom" => .ok { patch with validFrom := some value.asStr }
  | "validUntil" => .ok { patch with validUntil := some value.asStr }
  | "status" => do
    let status ← parseStatus value
    return { patch with status := some status }
  | other => .error (.invalidArguments ("unknown property " ++ debug C.locale other))

/-- `parse_patch`. -/
def parsePatch (object : Members) : Except MethodError SchedulingPagePatch :=
  object.foldlM (patchMember C) {}

/-! ## The objects of a call -/

/-- An object to create, or a page to update. -/
inductive PageEntry where
  | create (creationId : String) (object : Value)
  | update (id : String) (object : Value)

/-- What the outside world decides about one storage call. -/
structure PageEnv where
  io : Io
  newId : SchedulingPageId
  now : ℤ

/-- How an object fared. -/
inductive PageOutcome where
  | done (page : SchedulingPage)
  | failed (description : String)
  | forbidden

/-- The object ends the method. -/
def PageOutcome.isForbidden : PageOutcome → Bool
  | .forbidden => true
  | _ => false

/-- `storage_err`. -/
def storageErr : StorageError → MethodError
  | .notAuthorized => .forbidden
  | .badInput msg => .invalidArguments msg
  | e => .serverFail (C.storageText e)

/-- What is made of the result of an object. -/
def PageOutcome.of : Except MethodError SchedulingPage → PageOutcome
  | .ok page => .done page
  | .error .forbidden => .forbidden
  | .error e => .failed e.text

/-- The storage call of an object that was read, if it could be. -/
def runCall (body : Except MethodError (Tx SchedulingDb SchedulingPage)) (db : SchedulingDb) :
    PageOutcome × SchedulingDb :=
  match body with
  | .error e => (.of (.error e), db)
  | .ok body =>
    let (res, db') := transaction body db
    (.of (res.mapError (storageErr C)), db')

/-- The storage call that creates a page. -/
def createCall (env : PageEnv) (object : Members) :
    Except MethodError (Tx SchedulingDb SchedulingPage) :=
  (parseCreate C caller object).map fun new =>
    createSchedulingPageTx C.locale env.io caller.id new env.newId env.now

/-- The storage call that updates a page. -/
def updateCall (env : PageEnv) (id : String) (object : Value) :
    Except MethodError (Tx SchedulingDb SchedulingPage) := do
  let pageId ← orInvalid (Uuid.parseStr id) "bad page id"
  let members ← orInvalid object.asObject "not an object"
  let patch ← parsePatch C members
  return updateSchedulingPageTx C.locale env.io caller.id ⟨pageId⟩ patch env.now

/-- One object. -/
def attempt (env : PageEnv) (entry : PageEntry) (db : SchedulingDb) :
    PageOutcome × SchedulingDb :=
  match entry with
  | .create _ object =>
    match object.asObject with
    | none => (.failed "not an object", db)
    | some members => runCall C (createCall C caller env members) db
  | .update id object => runCall C (updateCall C caller env id object) db

/-- The objects one after the other, up to the first that is forbidden: how those fared that were
tried, and the tables then. -/
def process : List (PageEntry × PageEnv) → SchedulingDb →
    List (PageEntry × PageOutcome) × SchedulingDb
  | [], db => ([], db)
  | (entry, env) :: rest, db =>
    match attempt C caller env entry db with
    | (.forbidden, db') => ([(entry, .forbidden)], db')
    | (outcome, db') =>
      let (tried, db'') := process rest db'
      ((entry, outcome) :: tried, db'')

/-! ## The method -/

/-- The members of an object argument. -/
def Members.objects (args : Members) (key : String) : Members :=
  ((args.get key).bind Value.asObject).getD []

/-- The objects of a call, in their order, each with what is decided about its storage call. -/
def entriesOf (args : Members) (env : ℕ → PageEnv) : List (PageEntry × PageEnv) :=
  ((args.objects "create").map (fun m => PageEntry.create m.1 m.2) ++
    (args.objects "update").map fun m => PageEntry.update m.1 m.2).mapIdx fun n e => (e, env n)

/-- The pages that were created, or the failures of creation, by creation id; and so on. -/
def report (tried : List (PageEntry × PageOutcome))
    (pick : PageEntry × PageOutcome → Option (String × Value)) : Value :=
  .object (tried.filterMap pick)

/-- A failure, as it is put down. -/
def failure (description : String) : Value :=
  jsonObject [("type", .string "invalidProperties"), ("description", .string description)]

/-- A member of `created`. -/
def createdMember : PageEntry × PageOutcome → Option (String × Value)
  | (.create id _, .done page) => some (id, pageJson C caller page)
  | _ => none

/-- A member of `notCreated`. -/
def notCreatedMember : PageEntry × PageOutcome → Option (String × Value)
  | (.create id _, .failed description) => some (id, failure description)
  | _ => none

/-- A member of `updated`. -/
def updatedMember : PageEntry × PageOutcome → Option (String × Value)
  | (.update id _, .done page) => some (id, pageJson C caller page)
  | _ => none

/-- A member of `notUpdated`. -/
def notUpdatedMember : PageEntry × PageOutcome → Option (String × Value)
  | (.update id _, .failed description) => some (id, failure description)
  | _ => none

/-- The response. -/
def setResponse (accountId : Value) (tried : List (PageEntry × PageOutcome)) : Members :=
  [("accountId", accountId),
    ("created", report tried (createdMember C caller)),
    ("notCreated", report tried notCreatedMember),
    ("notUpdated", report tried notUpdatedMember),
    ("updated", report tried (updatedMember C caller))]

/-- An object was forbidden. -/
def GaveUp (tried : List (PageEntry × PageOutcome)) : Bool :=
  tried.any fun t => t.2.isForbidden

/-- There are pages to destroy. -/
def wantsDestroy (args : Members) : Bool :=
  match args.get "destroy" with
  | some (.array (_ :: _)) => true
  | _ => false

/-- `check_account`. -/
def checkAccount (args : Members) : Except MethodError Unit :=
  match (args.get "accountId").bind Value.asStr with
  | none => .error (.invalidArguments "accountId required")
  | some id => if id = caller.id.uuid.toString then .ok () else .error .accountNotFound

/-- `scheduling_page_set`. -/
def schedulingPageSet (args : Members) (env : ℕ → PageEnv) (db : SchedulingDb) :
    Except MethodError Members × SchedulingDb :=
  match checkAccount caller args with
  | .error e => (.error e, db)
  | .ok () =>
    let (tried, db') := process C caller (entriesOf args env) db
    if GaveUp tried then (.error .forbidden, db')
    else if wantsDestroy args then
      (.error (.invalidArguments "destroy is not supported; pause the page instead"), db')
    else (.ok (setResponse C caller ((args.get "accountId").getD .null) tried), db')

end Method

end Owney.Jmap
