import Owney.SchedulingErrors

/-!
# What a patch of a scheduling page changes

A patch names properties of a page; each has a type, and a value of its type says what the
property is to be (`PropertyType.read`). `parse_patch` reads texts with `as_str`: a `title` that is
no text is passed over, a `description` that is no text is taken for `null`.

* `Patched` — the page has what the patch says, and is otherwise as before.
* `returned_isKept` — what the server returned for a page changes nothing in it but `updatedAt`.
* `patchesExactly_iff` — an update does as the object says, or nothing, exactly if the object is
  not accepted, or no text is given in another type.
-/

namespace Owney.Jmap

open Tables

/-! ## Properties -/

/-- The types of the properties that a patch can name. -/
inductive PropertyType where
  | text
  | optText
  | mins
  | optMins
  | availability
  | durations
  | status
  deriving DecidableEq, Repr

/-- What a property of a page can be. -/
inductive PropertyValue where
  | text (s : Option String)
  | mins (n : Option ℕ)
  | availability (a : Availability)
  | durations (ds : List ℕ)
  | status (s : PageStatus)
  deriving DecidableEq, Repr

/-- The type of a property. -/
def propertyType : String → Option PropertyType
  | "title" | "timezone" => some .text
  | "description" | "validFrom" | "validUntil" => some .optText
  | "bufferBeforeMins" | "bufferAfterMins" | "minNoticeMins" => some .mins
  | "maxPerDay" => some .optMins
  | "availability" => some .availability
  | "durationsMins" => some .durations
  | "status" => some .status
  | _ => none

/-- The property of a page. -/
def pageProperty (page : SchedulingPage) : String → Option PropertyValue
  | "title" => some (.text (some page.title))
  | "description" => some (.text page.description)
  | "timezone" => some (.text (some page.timezone))
  | "availability" => some (.availability page.availability)
  | "durationsMins" => some (.durations page.durationsMins)
  | "bufferBeforeMins" => some (.mins (some page.bufferBeforeMins))
  | "bufferAfterMins" => some (.mins (some page.bufferAfterMins))
  | "minNoticeMins" => some (.mins (some page.minNoticeMins))
  | "maxPerDay" => some (.mins page.maxPerDay)
  | "validFrom" => some (.text page.validFrom)
  | "validUntil" => some (.text page.validUntil)
  | "status" => some (.status page.status)
  | _ => none

variable (C : PageCrates)

/-- What a value says of a property, if it has its type. -/
def PropertyType.read : PropertyType → Value → Option PropertyValue
  | text, .string s => some (.text (some s))
  | text, _ => none
  | optText, .string s => some (.text (some s))
  | optText, .null => some (.text none)
  | optText, _ => none
  | mins, value => (value.asU32 C).map fun n => .mins (some n)
  | optMins, .null => some (.mins none)
  | optMins, value => (value.asU32 C).map fun n => .mins (some n)
  | availability, value => (C.availabilityOf value).toOption.map .availability
  | durations, value => (C.durationsOf value).toOption.map .durations
  | status, .string "active" => some (.status .active)
  | status, .string "paused" => some (.status .paused)
  | status, _ => none

/-- What a member of a patch says. -/
def readMember (member : String × Value) : Option PropertyValue :=
  (propertyType member.1).bind fun type => type.read C member.2

/-- A text that is given as something else. -/
def Mistyped (member : String × Value) : Prop :=
  match propertyType member.1 with
  | some .text => member.2.asStr = none
  | some .optText => member.2.asStr = none ∧ member.2 ≠ .null
  | _ => False

variable {C}

/-- A text that is given as something else says nothing. -/
theorem readMember_of_mistyped {member : String × Value} (h : Mistyped member) :
    readMember C member = none := by
  obtain ⟨key, value⟩ := member
  unfold Mistyped at h
  unfold readMember
  split at h
  · rename_i htype
    simp only [htype, Option.bind_some]
    cases value with
    | string s => cases h
    | _ => rfl
  · rename_i htype
    simp only [htype, Option.bind_some]
    cases value with
    | string s => cases h.1
    | null => exact absurd rfl h.2
    | _ => rfl
  · exact h.elim

/-! ## Reading a patch -/

section Reading

variable {patch patch' : SchedulingPagePatch} {value : Value} {msg what : String}

/-- A number of minutes that was read. -/
theorem orInvalid_bind_ok {f : ℕ → SchedulingPagePatch} {v : Option ℕ}
    (h : (orInvalid v msg >>= fun n => return f n) = .ok patch') :
    ∃ n, v = some n ∧ f n = patch' := by
  rcases v with _ | n
  · cases h
  · exact ⟨n, rfl, Except.ok.inj h⟩

/-- A document that was read. -/
theorem orBad_bind_ok {α : Type} {f : α → SchedulingPagePatch} {v : Except String α}
    (h : (orBad what v >>= fun a => return f a) = .ok patch') : ∃ a, v = .ok a ∧ f a = patch' := by
  rcases v with e | a
  · cases h
  · exact ⟨a, rfl, Except.ok.inj h⟩

theorem parseStatus_ok {status : PageStatus} (h : parseStatus value = .ok status) :
    PropertyType.status.read C value = some (.status status) := by
  unfold parseStatus at h
  split at h
  · obtain rfl := Except.ok.inj h
    rfl
  · obtain rfl := Except.ok.inj h
    rfl
  · cases h

theorem read_availability {a : Availability} (h : C.availabilityOf value = .ok a) :
    readMember C ("availability", value) = some (.availability a) := by
  change (C.availabilityOf value).toOption.map _ = _
  rw [h]
  rfl

theorem read_durations {ds : List ℕ} (h : C.durationsOf value = .ok ds) :
    readMember C ("durationsMins", value) = some (.durations ds) := by
  change (C.durationsOf value).toOption.map _ = _
  rw [h]
  rfl

theorem read_mins {name : String} {n : ℕ} (hname : propertyType name = some .mins)
    (h : value.asU32 C = some n) : readMember C (name, value) = some (.mins (some n)) := by
  rw [readMember, hname, Option.bind_some, PropertyType.read, h]
  rfl

theorem read_optMins {n : ℕ} (h : value.asU32 C = some n) (hnull : value ≠ .null) :
    PropertyType.optMins.read C value = some (.mins (some n)) := by
  cases value with
  | null => exact absurd rfl hnull
  | _ => simp only [PropertyType.read, h, Option.map_some]

/-- **A member of a patch** leaves the other properties as they are. -/
theorem patchMember_other {member : String × Value} (h : patchMember C patch member = .ok patch')
    (page : SchedulingPage) {key : String} (hkey : key ≠ member.1) :
    pageProperty (page.patch patch') key = pageProperty (page.patch patch) key := by
  obtain ⟨name, value⟩ := member
  unfold patchMember at h
  dsimp only at h hkey
  -- the branch of a name writes the field of that name
  split at h
  case h_1 | h_2 | h_3 | h_10 | h_11 =>
    obtain rfl := Except.ok.inj h
    unfold pageProperty
    split <;> first | rfl | exact absurd rfl hkey
  case h_4 | h_5 =>
    obtain ⟨_, -, rfl⟩ := orBad_bind_ok h
    unfold pageProperty
    split <;> first | rfl | exact absurd rfl hkey
  case h_6 | h_7 | h_8 =>
    obtain ⟨_, -, rfl⟩ := orInvalid_bind_ok h
    unfold pageProperty
    split <;> first | rfl | exact absurd rfl hkey
  case h_9 =>
    split at h
    · obtain rfl := Except.ok.inj h
      unfold pageProperty
      split <;> first | rfl | exact absurd rfl hkey
    · obtain ⟨_, -, rfl⟩ := orInvalid_bind_ok h
      unfold pageProperty
      split <;> first | rfl | exact absurd rfl hkey
  case h_12 =>
    rcases hstatus : parseStatus value with e | status
    · rw [hstatus] at h
      cases h
    · rw [hstatus] at h
      obtain rfl := Except.ok.inj h
      unfold pageProperty
      split <;> first | rfl | exact absurd rfl hkey
  case h_13 => cases h

/-- **A member of a patch** says what its property is to be, if it has its type. -/
theorem patchMember_given {member : String × Value} (h : patchMember C patch member = .ok patch')
    (htyped : ¬Mistyped member) (page : SchedulingPage) :
    ∃ value, readMember C member = some value ∧
      pageProperty (page.patch patch') member.1 = some value := by
  obtain ⟨name, value⟩ := member
  unfold patchMember at h
  dsimp only at h
  split at h
  case h_1 | h_3 =>
    obtain rfl := Except.ok.inj h
    cases value with
    | string s => exact ⟨_, rfl, rfl⟩
    | _ => exact absurd rfl htyped
  case h_2 | h_10 | h_11 =>
    obtain rfl := Except.ok.inj h
    cases value with
    | string s => exact ⟨_, rfl, rfl⟩
    | null => exact ⟨_, rfl, rfl⟩
    | _ => exact absurd ⟨rfl, nofun⟩ htyped
  case h_4 =>
    obtain ⟨_, hread, rfl⟩ := orBad_bind_ok h
    exact ⟨_, read_availability hread, rfl⟩
  case h_5 =>
    obtain ⟨_, hread, rfl⟩ := orBad_bind_ok h
    exact ⟨_, read_durations hread, rfl⟩
  case h_6 | h_7 | h_8 =>
    obtain ⟨_, hread, rfl⟩ := orInvalid_bind_ok h
    exact ⟨_, read_mins rfl hread, rfl⟩
  case h_9 =>
    split at h
    · obtain rfl := Except.ok.inj h
      exact ⟨_, rfl, rfl⟩
    · rename_i hnull
      obtain ⟨_, hread, rfl⟩ := orInvalid_bind_ok h
      exact ⟨_, read_optMins hread hnull, rfl⟩
  case h_12 =>
    rcases hstatus : parseStatus value with e | status
    · rw [hstatus] at h
      cases h
    · rw [hstatus] at h
      obtain rfl := Except.ok.inj h
      exact ⟨_, parseStatus_ok hstatus, rfl⟩
  case h_13 => cases h

/-- **A patch**, member after member: each says what its property is to be. -/
theorem parsePatch_ok {members : Members} (hkeys : members.keys.Nodup)
    (h : members.foldlM (patchMember C) patch = .ok patch') (page : SchedulingPage) :
    (∀ key, key ∉ members.keys →
      pageProperty (page.patch patch') key = pageProperty (page.patch patch) key) ∧
    ((∀ m ∈ members, ¬Mistyped m) → ∀ m ∈ members, ∃ value, readMember C m = some value ∧
      pageProperty (page.patch patch') m.1 = some value) := by
  induction members generalizing patch with
  | nil =>
    obtain rfl := Except.ok.inj h
    exact ⟨fun _ _ => rfl, fun _ m hm => (nomatch hm)⟩
  | cons member members ih =>
    rw [List.foldlM_cons] at h
    rcases hfirst : patchMember C patch member with e | first
    · rw [hfirst] at h
      cases h
    rw [hfirst] at h
    obtain ⟨hfresh, hkeys⟩ := List.nodup_cons.mp hkeys
    obtain ⟨hother, hgiven⟩ := ih hkeys h
    refine ⟨fun key hkey => ?_, fun htyped m hm => ?_⟩
    · obtain ⟨hne, hkey⟩ := not_or.mp fun hmem => hkey (List.mem_cons.mpr hmem)
      rw [hother key hkey, patchMember_other hfirst page hne]
    · rcases List.mem_cons.mp hm with rfl | hm
      · obtain ⟨value, hread, hvalue⟩ :=
          patchMember_given hfirst (htyped m List.mem_cons_self) page
        exact ⟨value, hread, (hother m.1 hfresh).trans hvalue⟩
      · exact hgiven (fun m hm => htyped m (List.mem_cons_of_mem _ hm)) m hm

end Reading

/-! ## What is meant -/

/-- The page in the place of the one with its id. -/
def withPage (page : SchedulingPage) (db : SchedulingDb) : SchedulingDb :=
  { db with pages := update (fun p => p.id = page.id) (fun _ => page) db.pages }

section Meaning

variable (C) (caller : Caller)

/-- **A page that was patched** has what the members say, and is otherwise the page before. -/
structure Patched (members : Members) (page page' : SchedulingPage) : Prop where
  given : ∀ m ∈ members, ∃ value, readMember C m = some value ∧
    pageProperty page' m.1 = some value
  other : ∀ key, key ∉ members.keys → pageProperty page' key = pageProperty page key
  kept : page'.id = page.id ∧ page'.accountId = page.accountId ∧ page'.slug = page.slug ∧
    page'.calendarId = page.calendarId ∧ page'.createdAt = page.createdAt

/-- The settable members of what the server returns for a page. -/
def settable (page : SchedulingPage) : Members :=
  ((pageJson C caller page).asObject.getD []).filter fun m => (propertyType m.1).isSome

/-- `serde_json` reads back what it wrote of the page. -/
structure ReadsBack (page : SchedulingPage) : Prop where
  availability : C.availabilityOf (C.availabilityJson page.availability) = .ok page.availability
  durations : C.durationsOf (.array (page.durationsMins.map natJson)) = .ok page.durationsMins
  bufferBefore : (natJson page.bufferBeforeMins).asU32 C = some page.bufferBeforeMins
  bufferAfter : (natJson page.bufferAfterMins).asU32 C = some page.bufferAfterMins
  minNotice : (natJson page.minNoticeMins).asU32 C = some page.minNoticeMins
  maxPerDay : ∀ n ∈ page.maxPerDay, (natJson n).asU32 C = some n

variable (env : PageEnv) (id : String) (object : Value) (db : SchedulingDb)

/-- **An update is exact**: the page is updated as the object says, or nothing changes; the pages
of the caller are never forbidden. -/
def ExactUpdate : Prop :=
  match attempt C caller env (.update id object) db with
  | (.done page', db') => ∃ members page, object.asObject = some members ∧ page ∈ db.pages ∧
      Uuid.parseStr id = some page.id.uuid ∧ page.accountId = caller.id ∧
      Patched C members page page' ∧ db' = withPage page' db
  | (.failed _, db') => db' = db
  | (.forbidden, db') => db' = db ∧
      ∀ page ∈ db.pages, Uuid.parseStr id = some page.id.uuid → page.accountId ≠ caller.id

/-- Patching a page with what the server returned for it changes nothing but `updatedAt`. -/
def ReturnedIsKept : Prop :=
  ∀ page ∈ db.pages, page.accountId = caller.id → ReadsBack C page →
    let db' := (attempt C caller env (.update page.id.uuid.toString
      (.object (settable C caller page))) db).2
    db' = db ∨ db' = withPage { page with updatedAt := env.now } db

/-- **Patches are exact**: an update is, and what was returned for a page changes nothing in it. -/
structure PatchesExactly : Prop where
  exact : ExactUpdate C caller env id object db
  returned : ReturnedIsKept C caller env db

end Meaning

/-! ## The update -/

section Stored

variable {C : PageCrates} {caller : Caller} {env : PageEnv} {db db' : SchedulingDb}
  {page : SchedulingPage}

/-- Only the overwritten row has the id. -/
theorem update_eq_withPage (hids : (db.pages.map (·.id)).Nodup) {current : SchedulingPage}
    (hmem : current ∈ db.pages) (patched : SchedulingPage) (now : ℤ) :
    { db with pages := update (fun p => p.id = current.id) (·.overwrite patched now) db.pages } =
      withPage (current.overwrite patched now) db := by
  rw [withPage]
  refine congrArg (fun pages => { db with pages := pages }) (List.map_congr_left fun p hp => ?_)
  by_cases hid : p.id = current.id
  · rw [eq_of_key_eq hids hp hmem hid, if_pos (decide_eq_true rfl)]
    exact (if_pos (decide_eq_true rfl)).symm
  · rw [if_neg (by simpa using hid)]
    exact (if_neg fun h => hid (of_decide_eq_true h)).symm

/-- **What an update does** to the pages. -/
theorem updatePage_ok {L : Locale} {io : Io} {a : AccountId} {id : SchedulingPageId}
    {patch : SchedulingPagePatch} {now : ℤ} (hids : (db.pages.map (·.id)).Nodup)
    (h : updateSchedulingPageTx L io a id patch now db = .ok (page, db')) :
    ∃ current ∈ db.pages, current.id = id ∧ current.accountId = a ∧
      page = current.overwrite (current.patch patch) now ∧ db' = withPage page db := by
  simp only [updateSchedulingPageTx, Tx.bind_eq_ok, checked_eq_ok, Tx.query_eq_ok,
    Tx.exec_eq_ok, Tx.okOr_eq_ok] at h
  obtain ⟨_, _, ⟨-, rfl, rfl⟩, current, _, ⟨hfound, rfl⟩, _, _, ⟨-, rfl⟩, _, _, ⟨-, rfl⟩,
    _, _, ⟨-, hagain, rfl⟩, hpage, rfl⟩ := h
  have hmem : current ∈ db.pages := List.mem_of_find?_eq_some hfound
  obtain ⟨hid, hown⟩ : current.id = id ∧ current.accountId = a :=
    of_decide_eq_true
      (List.find?_some (p := fun p : SchedulingPage => decide (p.id = id ∧ p.accountId = a)) hfound)
  subst hid
  -- the row is found again, as it was overwritten
  have hwritten : page = current.overwrite (current.patch patch) now := by
    have hfind : db.pages.find? (fun p => p.id = current.id) = some current :=
      find?_eq_some_of_key hids hmem (decide_eq_true rfl) fun r' hr' => of_decide_eq_true hr'
    have hfind' := find?_update (q := fun p => decide (p.id = current.id))
      (p := fun p => decide (p.id = current.id))
      (f := (·.overwrite (current.patch patch) now)) (fun _ => rfl) db.pages
    rw [hagain, hfind, Option.map_some, if_pos (decide_eq_true rfl)] at hfind'
    exact Option.some.inj (hpage.symm.trans hfind')
  refine ⟨current, hmem, rfl, hown, hwritten, ?_⟩
  rw [hwritten]
  exact update_eq_withPage hids hmem _ _

theorem runCall_eq_done {body : Except MethodError (Tx SchedulingDb SchedulingPage)} :
    runCall C body db = (.done page, db') ↔
      ∃ call, body = .ok call ∧ call db = .ok (page, db') := by
  rcases body with e | call
  · simp [runCall, of_done]
  · rcases hcall : call db with e | ⟨page, db'⟩
    · simp [runCall, of_done, transaction, hcall, Except.mapError]
    · simp [runCall, of_done, transaction, hcall, Except.mapError]

/-- An update that is done, from the id and the object. -/
theorem attempt_update_done {id : String} {object : Value} (hids : (db.pages.map (·.id)).Nodup)
    (h : attempt C caller env (.update id object) db = (.done page, db')) :
    ∃ members patch current, object.asObject = some members ∧
      parsePatch C members = .ok patch ∧ Uuid.parseStr id = some current.id.uuid ∧
      current ∈ db.pages ∧ current.accountId = caller.id ∧
      page = current.overwrite (current.patch patch) env.now ∧ db' = withPage page db := by
  obtain ⟨call, hcall, hrun⟩ := runCall_eq_done.mp h
  obtain ⟨pageId, members, patch, hid, hobject, hpatch, rfl⟩ := updateCall_eq_ok.mp hcall
  obtain ⟨current, hmem, hcurrent, hown, hpage, hdb⟩ := updatePage_ok hids hrun
  exact ⟨members, patch, current, hobject, hpatch, by rw [hid, hcurrent], hmem, hown, hpage, hdb⟩

/-- A page that is overwritten with what was read of a patch is patched. -/
theorem patched_overwrite {members : Members} {patch : SchedulingPagePatch}
    (hkeys : members.keys.Nodup) (htyped : ∀ m ∈ members, ¬Mistyped m)
    (hpatch : parsePatch C members = .ok patch) (now : ℤ) :
    Patched C members page (page.overwrite (page.patch patch) now) := by
  have hsame : ∀ key, pageProperty (page.overwrite (page.patch patch) now) key =
      pageProperty (page.patch patch) key := by
    intro key
    unfold pageProperty
    split <;> rfl
  obtain ⟨hother, hgiven⟩ := parsePatch_ok hkeys hpatch page
  refine ⟨fun m hm => ?_, fun key hkey => ?_, rfl, rfl, rfl, rfl, rfl⟩
  · obtain ⟨value, hread, hvalue⟩ := hgiven htyped m hm
    exact ⟨value, hread, (hsame m.1).trans hvalue⟩
  · exact (hsame key).trans (hother key hkey)

end Stored

/-! ## What the server returned -/

section Returned

variable (C : PageCrates) (caller : Caller) (page : SchedulingPage)

/-- The text of a status. -/
def statusText : PageStatus → String
  | .active => "active"
  | .paused => "paused"

/-- What the server returns for a page, in the order of the keys. -/
theorem pageJson_eq : pageJson C caller page = .object
    [("availability", C.availabilityJson page.availability),
      ("bufferAfterMins", natJson page.bufferAfterMins),
      ("bufferBeforeMins", natJson page.bufferBeforeMins),
      ("calendarId", .string page.calendarId.uuid.toString),
      ("description", optString page.description),
      ("durationsMins", .array (page.durationsMins.map natJson)),
      ("id", .string page.id.uuid.toString),
      ("maxPerDay", page.maxPerDay.elim .null natJson),
      ("minNoticeMins", natJson page.minNoticeMins),
      ("slug", .string page.slug),
      ("status", .string (statusText page.status)),
      ("timezone", .string page.timezone),
      ("title", .string page.title),
      ("url", .string (String.ofList (caller.publicUrl.toList.rdropWhile (· = '/')) ++
        "/schedule/" ++ page.slug)),
      ("validFrom", optString page.validFrom),
      ("validUntil", optString page.validUntil)] := by
  simp (disch := decide +kernel) only [pageJson, jsonObject, List.foldl_cons, List.foldl_nil,
    Members.insert, if_pos, if_neg]
  rfl

theorem settable_eq : settable C caller page =
    [("availability", C.availabilityJson page.availability),
      ("bufferAfterMins", natJson page.bufferAfterMins),
      ("bufferBeforeMins", natJson page.bufferBeforeMins),
      ("description", optString page.description),
      ("durationsMins", .array (page.durationsMins.map natJson)),
      ("maxPerDay", page.maxPerDay.elim .null natJson),
      ("minNoticeMins", natJson page.minNoticeMins),
      ("status", .string (statusText page.status)),
      ("timezone", .string page.timezone),
      ("title", .string page.title),
      ("validFrom", optString page.validFrom),
      ("validUntil", optString page.validUntil)] := by
  rw [settable, pageJson_eq]
  rfl

variable {C page}

theorem keys_settable : (settable C caller page).keys.Nodup := by
  rw [settable_eq]
  change ["availability", "bufferAfterMins", "bufferBeforeMins", "description", "durationsMins",
    "maxPerDay", "minNoticeMins", "status", "timezone", "title", "validFrom", "validUntil"].Nodup
  decide +kernel

theorem read_optString {name : String} (hname : propertyType name = some .optText)
    (text : Option String) : ¬Mistyped (name, optString text) ∧
      readMember C (name, optString text) = some (.text text) := by
  unfold Mistyped readMember
  simp only [hname, Option.bind_some]
  cases text with
  | none => exact ⟨fun h => h.2 rfl, rfl⟩
  | some s => exact ⟨nofun, rfl⟩

/-- What the server returned says of each property what it is. -/
theorem settable_reads (h : ReadsBack C page) :
    ∀ m ∈ settable C caller page, ¬Mistyped m ∧ readMember C m = pageProperty page m.1 := by
  intro m hm
  rw [settable_eq] at hm
  simp only [List.mem_cons, List.not_mem_nil, or_false] at hm
  obtain rfl | rfl | rfl | rfl | rfl | rfl | rfl | rfl | rfl | rfl | rfl | rfl := hm
  · exact ⟨id, read_availability h.availability⟩
  · exact ⟨id, read_mins rfl h.bufferAfter⟩
  · exact ⟨id, read_mins rfl h.bufferBefore⟩
  · exact read_optString rfl page.description
  · exact ⟨id, read_durations h.durations⟩
  · refine ⟨id, ?_⟩
    unfold pageProperty
    rcases hmax : page.maxPerDay with _ | n
    · rfl
    · exact read_optMins (h.maxPerDay n hmax) nofun
  · exact ⟨id, read_mins rfl h.minNotice⟩
  · refine ⟨id, ?_⟩
    unfold pageProperty
    cases page.status <;> rfl
  · exact ⟨nofun, rfl⟩
  · exact ⟨nofun, rfl⟩
  · exact read_optString rfl page.validFrom
  · exact read_optString rfl page.validUntil

variable {page' : SchedulingPage}

/-- A page that was patched with what it is is as it was, updated later. -/
theorem Patched.eq_of_reads {members : Members} (h : Patched C members page page')
    (hsame : ∀ m ∈ members, readMember C m = pageProperty page m.1) :
    page' = { page with updatedAt := page'.updatedAt } := by
  have hall : ∀ key, pageProperty page' key = pageProperty page key := by
    intro key
    by_cases hkey : key ∈ members.keys
    · obtain ⟨m, hm, rfl⟩ := List.mem_map.mp hkey
      obtain ⟨value, hread, hvalue⟩ := h.given m hm
      rw [hvalue, ← hread, hsame m hm]
    · exact h.other key hkey
  have htitle := hall "title"
  have hdescription := hall "description"
  have htimezone := hall "timezone"
  have havailability := hall "availability"
  have hdurations := hall "durationsMins"
  have hbefore := hall "bufferBeforeMins"
  have hafter := hall "bufferAfterMins"
  have hnotice := hall "minNoticeMins"
  have hmax := hall "maxPerDay"
  have hfrom := hall "validFrom"
  have huntil := hall "validUntil"
  have hstatus := hall "status"
  obtain ⟨hid, howner, hslug, hcalendar, hcreated⟩ := h.kept
  cases page
  cases page'
  simp only [pageProperty, Option.some.injEq, PropertyValue.text.injEq, PropertyValue.mins.injEq,
    PropertyValue.availability.injEq, PropertyValue.durations.injEq,
    PropertyValue.status.injEq] at *
  subst_vars
  rfl

end Returned

/-! ## Exact updates -/

section Exact

variable {C : PageCrates} {caller : Caller} {env : PageEnv} {db : SchedulingDb} {id : String}
  {object : Value}

theorem keys_nodup {members : Members} (h : (Value.object members).Valid) :
    members.keys.Nodup := by
  have hsorted : members.Pairwise (·.1 < ·.1) := h.members.sorted
  exact List.pairwise_map.mpr (hsorted.imp fun hlt => ne_of_lt hlt)

/-- **Patching a page with what the server returned for it** changes nothing but `updatedAt`. -/
theorem returned_isKept (hids : (db.pages.map (·.id)).Nodup) :
    ReturnedIsKept C caller env db := by
  intro page hpage hown hreads
  dsimp only
  rcases hrun : attempt C caller env (.update page.id.uuid.toString
    (.object (settable C caller page))) db with ⟨outcome, db'⟩
  by_cases hdone : ∃ page', outcome = .done page'
  · obtain ⟨page', rfl⟩ := hdone
    obtain ⟨members, patch, current, hobject, hpatch, hid, hcurrent, -, hpage', hdb⟩ :=
      attempt_update_done hids hrun
    obtain rfl := Option.some.inj hobject
    rw [Uuid.parseStr_toString] at hid
    obtain rfl : page = current := by
      refine eq_of_key_eq hids hpage hcurrent ?_
      exact congrArg SchedulingPageId.mk (Option.some.inj hid)
    have hgiven := settable_reads caller hreads
    have hpatched : Patched C (settable C caller page) page page' := by
      rw [hpage']
      exact patched_overwrite (keys_settable caller) (fun m hm => (hgiven m hm).1) hpatch env.now
    have hsame := hpatched.eq_of_reads fun m hm => (hgiven m hm).2
    have hnow : page'.updatedAt = env.now := by rw [hpage']; rfl
    rw [hnow] at hsame
    rw [← hsame]
    exact .inr hdb
  · have hfailed := @attempt_unchanged C caller env db
      (.update page.id.uuid.toString (.object (settable C caller page)))
      (by rw [hrun]; exact fun page' h => hdone ⟨page', h⟩)
    rw [hrun] at hfailed
    exact .inl hfailed

/-- An accepted update with a text in another type is not exact. -/
theorem not_patchesExactly_of_mistyped {members : Members} {m : String × Value}
    (hmembers : object.asObject = some members)
    (haccept : Acceptable C caller env db (.update id object)) (hm : m ∈ members)
    (hmistyped : Mistyped m) : ¬PatchesExactly C caller env id object db := by
  rintro ⟨hexact, -⟩
  obtain ⟨page', hdone⟩ := attempt_done.mpr haccept
  unfold ExactUpdate at hexact
  rcases hrun : attempt C caller env (.update id object) db with ⟨outcome, db'⟩
  rw [hrun] at hexact hdone
  obtain rfl : outcome = .done page' := hdone
  obtain ⟨members', page, hmembers', -, -, -, hpatched, -⟩ := hexact
  obtain rfl := Option.some.inj (hmembers.symm.trans hmembers')
  obtain ⟨value, hread, -⟩ := hpatched.given m hm
  rw [readMember_of_mistyped hmistyped] at hread
  cases hread

/-- **Patches are exact** exactly if the object is not accepted, or no text is given in another
type. -/
theorem patchesExactly_iff (hobject : object.Valid) (hids : (db.pages.map (·.id)).Nodup) :
    PatchesExactly C caller env id object db ↔ ∀ members, object.asObject = some members →
      Acceptable C caller env db (.update id object) → ∀ m ∈ members, ¬Mistyped m := by
  constructor
  · intro hexact members hmembers haccept m hm hmistyped
    exact not_patchesExactly_of_mistyped hmembers haccept hm hmistyped hexact
  · intro htyped
    refine ⟨?_, returned_isKept hids⟩
    unfold ExactUpdate
    rcases hrun : attempt C caller env (.update id object) db with ⟨page' | description | _, db'⟩
    · obtain ⟨members, patch, page, hmembers, hpatch, hid, hpage, hown, hpage', hdb⟩ :=
        attempt_update_done hids hrun
      have haccept : Acceptable C caller env db (.update id object) :=
        attempt_done.mp ⟨page', congrArg Prod.fst hrun⟩
      refine ⟨members, page, hmembers, hpage, hid, hown, ?_, hdb⟩
      rw [hpage']
      refine patched_overwrite ?_ (htyped members hmembers haccept) hpatch env.now
      cases object <;> cases hmembers
      exact keys_nodup hobject
    · have hfailed := @attempt_unchanged C caller env db (.update id object)
        (by rw [hrun]; nofun)
      rw [hrun] at hfailed
      exact hfailed
    · have hfailed := @attempt_unchanged C caller env db (.update id object)
        (by rw [hrun]; nofun)
      obtain ⟨pageId, _, _, hid, -, -, -, hforeign⟩ : Foreign C caller env db (.update id object) :=
        attempt_forbidden.mp (congrArg Prod.fst hrun)
      rw [hrun] at hfailed
      refine ⟨hfailed, fun page hpage hpageId hown => hforeign ⟨page, hpage, ?_, hown⟩⟩
      exact congrArg SchedulingPageId.mk (Option.some.inj (hpageId.symm.trans hid))

end Exact

/-! ## A description that is a number -/

/-- A window of a day. -/
def readWindow (value : Value) : Option TimeWindow := do
  let members ← value.asObject
  let start ← (members.get "start").bind Value.asStr
  let stop ← (members.get "end").bind Value.asStr
  if members.length = 2 then some ⟨start, stop⟩ else none

/-- The windows of each day. -/
def readDays (value : Value) : Option (List (String × List TimeWindow)) := do
  let days ← value.asObject
  days.mapM fun day =>
    match day.2 with
    | .array windows => (windows.mapM readWindow).map fun windows => (day.1, windows)
    | _ => none

/-- An availability, with all its members. -/
def readAvailability (value : Value) : Option Availability := do
  let members ← value.asObject
  let version ← (members.get "version").bind (Value.asU32 .plain)
  let weekly ← (members.get "weekly").bind readDays
  let overrides ← (members.get "overrides").bind readDays
  if members.length = 3 then some ⟨version, weekly, overrides⟩ else none

/-- Lists of numbers. -/
def readDurations : Value → Option (List ℕ)
  | .array items => items.mapM (Value.asU32 .plain)
  | _ => none

/-- Crates that read what they write of a page. -/
def PageCrates.reading : PageCrates :=
  { PageCrates.plain with
    availabilityOf := fun value => (readAvailability value).elim (.error "unsupported") .ok
    durationsOf := fun value => (readDurations value).elim (.error "unsupported") .ok }

/-- Alice's page, described. -/
def described : SchedulingPage :=
  { meetAlice.row ⟨10⟩ alice 0 with description := some "Coffee and cake" }

/-- The page on her calendar. -/
def onePage : SchedulingDb := { twoCalendars with pages := [described] }

example : ReadsBack .reading described where
  availability := by rfl
  durations := by rfl
  bufferBefore := by decide +kernel
  bufferAfter := by decide +kernel
  minNotice := by decide +kernel
  maxPerDay := by decide +kernel

/-- The description as a number. -/
def numbered : Value := .object [("description", .number "5")]

theorem numbered_accepted : Acceptable .reading aliceCalls (pageEnvs 0) onePage
    (.update described.id.uuid.toString numbered) := by
  refine ⟨_, _, _, Uuid.parseStr_toString _, rfl, rfl, ⟨rfl, rfl, rfl⟩, described, ?_⟩
  decide +kernel

/-- Her page under another title. -/
theorem patchesExactly_renamed :
    PatchesExactly .reading aliceCalls (pageEnvs 1) described.id.uuid.toString
      (.object [("title", .string "Cake")]) onePage ↔
    ∀ members, (Value.object [("title", .string "Cake")]).asObject = some members →
      Acceptable .reading aliceCalls (pageEnvs 1) onePage
        (.update described.id.uuid.toString (.object [("title", .string "Cake")])) →
      ∀ m ∈ members, ¬Mistyped m :=
  patchesExactly_iff
    (.object (List.pairwise_singleton _ _) fun m hm => by
      obtain rfl := List.mem_singleton.mp hm
      exact .string _)
    (List.nodup_singleton _)

/-- A number is no text. -/
theorem numbered_mistyped : Mistyped ("description", .number "5") := ⟨rfl, nofun⟩

/-- **A description that is a number** clears the description. -/
theorem not_patchesExactly_numbered :
    ¬PatchesExactly .reading aliceCalls (pageEnvs 0) described.id.uuid.toString numbered onePage :=
  not_patchesExactly_of_mistyped rfl numbered_accepted List.mem_cons_self numbered_mistyped

end Owney.Jmap
