import Owney.SchedulingMethods

/-!
# Method-level errors of SchedulingPage/set

An object is `Foreign` if its calendar or its page is not the caller's, and `Acceptable` if its
storage call goes through. Both are read off the object and the tables it finds.

* `attempt_forbidden`, `attempt_done`, `attempt_unchanged` — how one object fares.
* `SamePages.foreign_iff` — the call's own writes make no object foreign, and none familiar.
* `gaveUp_process`, `refusedFirst_iff` — whether the method gives up, and whether it did anything.
* `setReports_iff` — the method reports what it did exactly when it ends well, or what comes
  before the first foreign object was all refused.
-/

namespace Owney.Jmap

open Tables

section Calls

variable {L : Locale} {io : Io} {db db' : SchedulingDb} {a : AccountId}

theorem checked_eq_error {σ α : Type} {c : Check α} {s : σ} {e : StorageError} :
    (checked c : Tx σ α) s = .error e ↔ ∃ msg, c = .error msg ∧ .badInput msg = e := by
  cases c with
  | ok b => simp [checked, Tx.pure_eq_error]
  | error msg => simp [checked, Tx.throw]

/-- The account has the calendar. -/
def Owns (db : SchedulingDb) (a : AccountId) (calendarId : CalendarId) : Prop :=
  ∃ c ∈ db.calendars, c.id = calendarId ∧ c.accountId = a

/-- The account has the page. -/
def Has (db : SchedulingDb) (a : AccountId) (pageId : SchedulingPageId) : Prop :=
  ∃ p ∈ db.pages, p.id = pageId ∧ p.accountId = a

theorem createPage_forbidden {new : NewSchedulingPage} {id : SchedulingPageId} {now : ℤ} :
    createSchedulingPageTx L io a new id now db = .error .notAuthorized ↔
      new.validate L = .ok () ∧ io 0 ∧ ¬Owns db a new.calendarId := by
  simp [createSchedulingPageTx, checked_eq_error, checked_eq_ok, Tx.bind_eq_error,
    Tx.query_eq_error, Tx.require_eq_error, Tx.get_eq_error, Tx.exec_eq_error, Tx.okOr_eq_error,
    Owns, Unique.exists_iff]

theorem createPage_done {new : NewSchedulingPage} {id : SchedulingPageId} {now : ℤ} :
    (∃ page db', createSchedulingPageTx L io a new id now db = .ok (page, db')) ↔
      new.validate L = .ok () ∧ (io 0 ∧ io 1 ∧ io 2) ∧ Owns db a new.calendarId ∧
        id ∉ db.pages.map (·.id) ∧ new.slug ∉ db.pages.map (·.slug) := by
  simp only [createSchedulingPageTx, Tx.bind_eq_ok, checked_eq_ok, Tx.query_eq_ok,
    Tx.require_eq_ok, Tx.get_eq_ok, Tx.exec_eq_ok, Tx.okOr_eq_ok]
  constructor
  · rintro ⟨page, db', _, _, ⟨hvalid, rfl⟩, _, _, ⟨h0, rfl, rfl⟩, _, _, ⟨howns, rfl⟩, _, _,
      ⟨rfl, rfl⟩, _, _, ⟨hid, rfl⟩, _, _, ⟨hslug, rfl⟩, _, _, ⟨h1, rfl⟩, _, _, ⟨h2, -, rfl⟩, -⟩
    obtain ⟨c, hc, hown⟩ := List.any_eq_true.mp howns
    exact ⟨hvalid, ⟨h0, h1, h2⟩, ⟨c, hc, of_decide_eq_true hown⟩, hid, hslug⟩
  · rintro ⟨hvalid, ⟨h0, h1, h2⟩, ⟨c, hc, hown⟩, hid, hslug⟩
    have howns : (db.calendars.any fun c => c.id = new.calendarId ∧ c.accountId = a) = true :=
      List.any_eq_true.mpr ⟨c, hc, decide_eq_true hown⟩
    have hfind : (db.pages ++ [new.row id a now]).find? (fun p => p.id = id) =
        some (new.row id a now) := by
      have hnone : db.pages.find? (fun p => p.id = id) = none :=
        List.find?_eq_none.mpr fun p hp h =>
          hid (List.mem_map.mpr ⟨p, hp, of_decide_eq_true h⟩)
      rw [List.find?_append, hnone, Option.none_or, List.find?_cons_of_pos]
      exact decide_eq_true rfl
    exact ⟨_, _, (), db, ⟨hvalid, rfl⟩, true, db, ⟨h0, howns, rfl⟩, ⟨⟩, db, ⟨rfl, rfl⟩, db, db,
      ⟨rfl, rfl⟩, ⟨⟩, db, ⟨hid, rfl⟩, ⟨⟩, db, ⟨hslug, rfl⟩, ⟨⟩, _, ⟨h1, rfl⟩, _, _,
      ⟨h2, hfind, rfl⟩, rfl, rfl⟩

theorem updatePage_forbidden {id : SchedulingPageId} {patch : SchedulingPagePatch} {now : ℤ} :
    updateSchedulingPageTx L io a id patch now db = .error .notAuthorized ↔
      io 0 ∧ ¬Has db a id := by
  simp [updateSchedulingPageTx, checked_eq_error, checked_eq_ok, Tx.bind_eq_error,
    Tx.query_eq_error, Tx.exec_eq_error, Tx.okOr_eq_error, Has]

theorem updatePage_done {id : SchedulingPageId} {patch : SchedulingPagePatch} {now : ℤ} :
    (∃ page db', updateSchedulingPageTx L io a id patch now db = .ok (page, db')) ↔
      (io 0 ∧ io 1 ∧ io 2) ∧ ∃ current,
        db.pages.find? (fun p => p.id = id ∧ p.accountId = a) = some current ∧
          (current.patch patch).validate L = .ok () := by
  simp only [updateSchedulingPageTx, Tx.bind_eq_ok, checked_eq_ok, Tx.query_eq_ok,
    Tx.exec_eq_ok, Tx.okOr_eq_ok]
  constructor
  · rintro ⟨page, db', _, _, ⟨h0, rfl, rfl⟩, current, _, ⟨hfound, rfl⟩, _, _, ⟨hvalid, rfl⟩, _, _,
      ⟨h1, rfl⟩, _, _, ⟨h2, -, rfl⟩, -⟩
    exact ⟨⟨h0, h1, h2⟩, current, hfound, hvalid⟩
  · rintro ⟨⟨h0, h1, h2⟩, current, hfound, hvalid⟩
    have hcurrent : decide (current.id = id ∧ current.accountId = a) = true :=
      List.find?_some (p := fun p : SchedulingPage => decide (p.id = id ∧ p.accountId = a)) hfound
    -- the updated row is found again under its id
    rcases hfind : (update (fun p => p.id = id) (·.overwrite (current.patch patch) now)
        db.pages).find? (fun p => p.id = id) with _ | page
    · have hmem : _ ∈ update (fun p => p.id = id) (·.overwrite (current.patch patch) now)
          db.pages := mem_update.mpr ⟨current, List.mem_of_find?_eq_some hfound, rfl⟩
      refine absurd ?_ (List.find?_eq_none.mp hfind _ hmem)
      rw [if_pos (decide_eq_true (of_decide_eq_true hcurrent).1)]
      exact decide_eq_true (of_decide_eq_true hcurrent).1
    · exact ⟨page, _, _, db, ⟨h0, rfl, rfl⟩, current, db, ⟨hfound, rfl⟩, (), db, ⟨hvalid, rfl⟩, ⟨⟩,
        _, ⟨h1, rfl⟩, _, _, ⟨h2, hfind, rfl⟩, rfl, rfl⟩

end Calls

/-! ## One object -/

section Objects

variable (C : PageCrates) (caller : Caller) (env : PageEnv) (db : SchedulingDb)

/-- The object can be read, and its calendar or its page is not the caller's. -/
def Foreign : PageEntry → Prop
  | .create _ object => ∃ members new, object.asObject = some members ∧
    parseCreate C caller members = .ok new ∧ new.validate C.locale = .ok () ∧ env.io 0 ∧
    ¬Owns db caller.id new.calendarId
  | .update id object => ∃ pageId members patch, Uuid.parseStr id = some pageId ∧
    object.asObject = some members ∧ parsePatch C members = .ok patch ∧ env.io 0 ∧
    ¬Has db caller.id ⟨pageId⟩

/-- The object can be read and passes the checks, its calendar or page is the caller's, the new id
and slug are not taken, and no statement fails. -/
def Acceptable : PageEntry → Prop
  | .create _ object => ∃ members new, object.asObject = some members ∧
    parseCreate C caller members = .ok new ∧ new.validate C.locale = .ok () ∧
    (env.io 0 ∧ env.io 1 ∧ env.io 2) ∧ Owns db caller.id new.calendarId ∧
    env.newId ∉ db.pages.map (·.id) ∧ new.slug ∉ db.pages.map (·.slug)
  | .update id object => ∃ pageId members patch, Uuid.parseStr id = some pageId ∧
    object.asObject = some members ∧ parsePatch C members = .ok patch ∧
    (env.io 0 ∧ env.io 1 ∧ env.io 2) ∧ ∃ current,
      db.pages.find? (fun p => p.id = ⟨pageId⟩ ∧ p.accountId = caller.id) = some current ∧
        (current.patch patch).validate C.locale = .ok ()

variable {C caller env db}

theorem storageErr_forbidden {e : StorageError} :
    storageErr C e = .forbidden ↔ e = .notAuthorized := by
  cases e <;> simp [storageErr]

theorem of_forbidden {res : Except MethodError SchedulingPage} :
    PageOutcome.of res = .forbidden ↔ res = .error .forbidden := by
  rcases res with (_ | _) | page <;> simp [PageOutcome.of]

theorem of_done {res : Except MethodError SchedulingPage} {page : SchedulingPage} :
    PageOutcome.of res = .done page ↔ res = .ok page := by
  rcases res with (_ | _) | page <;> simp [PageOutcome.of]

theorem runCall_forbidden {body : Except MethodError (Tx SchedulingDb SchedulingPage)} :
    (runCall C body db).1 = .forbidden ↔ body = .error .forbidden ∨
      ∃ call, body = .ok call ∧ call db = .error .notAuthorized := by
  rcases body with e | call
  · simp [runCall, of_forbidden]
  · rcases hcall : call db with e | ⟨page, db'⟩
    · simp [runCall, of_forbidden, transaction, hcall, Except.mapError, storageErr_forbidden]
    · simp [runCall, of_forbidden, transaction, hcall, Except.mapError]

theorem runCall_done {body : Except MethodError (Tx SchedulingDb SchedulingPage)} :
    (∃ page, (runCall C body db).1 = .done page) ↔
      ∃ call, body = .ok call ∧ ∃ page db', call db = .ok (page, db') := by
  rcases body with e | call
  · simp [runCall, of_done]
  · rcases hcall : call db with e | ⟨page, db'⟩
    · simp [runCall, of_done, transaction, hcall, Except.mapError]
    · simp [runCall, of_done, transaction, hcall, Except.mapError]

/-- A call that does not go through leaves the tables as they are. -/
theorem runCall_unchanged {body : Except MethodError (Tx SchedulingDb SchedulingPage)}
    (h : ∀ page, (runCall C body db).1 ≠ .done page) : (runCall C body db).2 = db := by
  rcases body with e | call
  · rfl
  · rcases hcall : call db with e | ⟨page, db'⟩
    · simp [runCall, transaction, hcall]
    · exact absurd (by simp [runCall, of_done, transaction, hcall, Except.mapError]) (h page)

end Objects

/-! ### Reading an object -/

section Reading

variable {C : PageCrates} {caller : Caller} {α β : Type}

/-- Whatever the error, it is not `forbidden`. -/
def NotForbidden (x : Except MethodError α) : Prop := x ≠ .error .forbidden

theorem NotForbidden.pure {a : α} : NotForbidden (pure a : Except MethodError α) := nofun

theorem NotForbidden.bind {x : Except MethodError α} {f : α → Except MethodError β}
    (hx : NotForbidden x) (hf : ∀ a, NotForbidden (f a)) : NotForbidden (x >>= f) := by
  rcases x with e | a
  · intro h
    exact hx (congrArg Except.error (Except.error.inj h))
  · exact hf a

theorem notForbidden_orInvalid {v : Option α} {msg : String} : NotForbidden (orInvalid v msg) := by
  cases v <;> nofun

theorem notForbidden_orBad {what : String} {v : Except String α} : NotForbidden (orBad what v) := by
  cases v <;> nofun

theorem notForbidden_givenOr {object : Members} {key : String} {default : α}
    {read : Value → Except String α} : NotForbidden (givenOr object key default read) := by
  unfold givenOr
  split
  · nofun
  · exact notForbidden_orBad

theorem notForbidden_getU32 {object : Members} {key : String} :
    NotForbidden (getU32 C object key) := by
  unfold getU32
  split
  · nofun
  · rename_i value _
    cases hvalue : value.asU32 C <;> simp [NotForbidden, orInvalid, Except.map]

theorem notForbidden_parseCreate {members : Members} :
    NotForbidden (parseCreate C caller members) := by
  unfold parseCreate
  refine notForbidden_orInvalid.bind fun _ => notForbidden_orInvalid.bind fun _ => ?_
  refine notForbidden_givenOr.bind fun _ => notForbidden_givenOr.bind fun _ => ?_
  refine notForbidden_getU32.bind fun _ => notForbidden_getU32.bind fun _ => ?_
  exact notForbidden_getU32.bind fun _ => notForbidden_getU32.bind fun _ => .pure

theorem notForbidden_parseStatus {value : Value} : NotForbidden (parseStatus value) := by
  unfold parseStatus
  split <;> nofun

theorem notForbidden_patchMember {patch : SchedulingPagePatch} {member : String × Value} :
    NotForbidden (patchMember C patch member) := by
  unfold patchMember
  dsimp only
  split
  case h_9 =>
    split
    · nofun
    · exact notForbidden_orInvalid.bind fun _ => .pure
  all_goals first
    | simp [NotForbidden]; done
    | exact notForbidden_orBad.bind fun _ => .pure
    | exact notForbidden_orInvalid.bind fun _ => .pure
    | exact notForbidden_parseStatus.bind fun _ => .pure

theorem notForbidden_foldlM {members : Members} : ∀ {patch : SchedulingPagePatch},
    NotForbidden (members.foldlM (patchMember C) patch) := by
  induction members with
  | nil => exact .pure
  | cons member members ih => exact notForbidden_patchMember.bind fun _ => ih

end Reading

/-! ### How an object fares -/

section Attempts

variable {C : PageCrates} {caller : Caller} {env : PageEnv} {db : SchedulingDb} {entry : PageEntry}

theorem createCall_eq_ok {members : Members} {call : Tx SchedulingDb SchedulingPage} :
    createCall C caller env members = .ok call ↔ ∃ new, parseCreate C caller members = .ok new ∧
      createSchedulingPageTx C.locale env.io caller.id new env.newId env.now = call := by
  unfold createCall
  cases parseCreate C caller members <;> simp [Except.map]

theorem updateCall_eq_ok {id : String} {object : Value} {call : Tx SchedulingDb SchedulingPage} :
    updateCall C caller env id object = .ok call ↔ ∃ pageId members patch,
      Uuid.parseStr id = some pageId ∧ object.asObject = some members ∧
      parsePatch C members = .ok patch ∧
      updateSchedulingPageTx C.locale env.io caller.id ⟨pageId⟩ patch env.now = call := by
  unfold updateCall
  rcases Uuid.parseStr id with _ | pageId
  · simp [orInvalid, Bind.bind, Except.bind]
  rcases object.asObject with _ | members
  · simp [orInvalid, Bind.bind, Except.bind]
  rcases hpatch : parsePatch C members with e | patch
  · simp [orInvalid, Bind.bind, Except.bind, hpatch]
  · simp [orInvalid, Bind.bind, Except.bind, hpatch, Pure.pure, Except.pure]

theorem notForbidden_createCall {members : Members} :
    NotForbidden (createCall C caller env members) := by
  have hparse : NotForbidden (parseCreate C caller members) := notForbidden_parseCreate
  unfold createCall
  rcases hres : parseCreate C caller members with e | new
  · intro h
    exact hparse (hres.trans (congrArg Except.error (Except.error.inj h)))
  · nofun

theorem notForbidden_updateCall {id : String} {object : Value} :
    NotForbidden (updateCall C caller env id object) := by
  unfold updateCall
  refine notForbidden_orInvalid.bind fun _ => notForbidden_orInvalid.bind fun _ => ?_
  exact notForbidden_foldlM.bind fun _ => .pure

/-- An object is forbidden if it is foreign. -/
theorem attempt_forbidden :
    (attempt C caller env entry db).1 = .forbidden ↔ Foreign C caller env db entry := by
  cases entry with
  | create creationId object =>
    rcases hobject : object.asObject with _ | members
    · simp [attempt, Foreign, hobject]
    · simp only [attempt, hobject, runCall_forbidden, Foreign, createCall_eq_ok]
      constructor
      · rintro (h | ⟨call, ⟨new, hnew, rfl⟩, hcall⟩)
        · exact absurd h notForbidden_createCall
        · obtain ⟨hvalid, h0, howns⟩ := createPage_forbidden.mp hcall
          exact ⟨members, new, rfl, hnew, hvalid, h0, howns⟩
      · rintro ⟨_, new, ⟨⟩, hnew, hvalid, h0, howns⟩
        exact .inr ⟨_, ⟨new, hnew, rfl⟩, createPage_forbidden.mpr ⟨hvalid, h0, howns⟩⟩
  | update id object =>
    simp only [attempt, runCall_forbidden, Foreign, updateCall_eq_ok]
    constructor
    · rintro (h | ⟨call, ⟨pageId, members, patch, hid, hobject, hpatch, rfl⟩, hcall⟩)
      · exact absurd h notForbidden_updateCall
      · obtain ⟨h0, hhas⟩ := updatePage_forbidden.mp hcall
        exact ⟨pageId, members, patch, hid, hobject, hpatch, h0, hhas⟩
    · rintro ⟨pageId, members, patch, hid, hobject, hpatch, h0, hhas⟩
      exact .inr ⟨_, ⟨pageId, members, patch, hid, hobject, hpatch, rfl⟩,
        updatePage_forbidden.mpr ⟨h0, hhas⟩⟩

/-- An object is done if it is acceptable. -/
theorem attempt_done : (∃ page, (attempt C caller env entry db).1 = .done page) ↔
    Acceptable C caller env db entry := by
  cases entry with
  | create creationId object =>
    rcases hobject : object.asObject with _ | members
    · simp [attempt, Acceptable, hobject]
    · simp only [attempt, hobject, runCall_done, Acceptable, createCall_eq_ok]
      constructor
      · rintro ⟨call, ⟨new, hnew, rfl⟩, hcall⟩
        exact ⟨members, new, rfl, hnew, createPage_done.mp hcall⟩
      · rintro ⟨_, new, ⟨⟩, hnew, h⟩
        exact ⟨_, ⟨new, hnew, rfl⟩, createPage_done.mpr h⟩
  | update id object =>
    simp only [attempt, runCall_done, Acceptable, updateCall_eq_ok]
    constructor
    · rintro ⟨call, ⟨pageId, members, patch, hid, hobject, hpatch, rfl⟩, hcall⟩
      exact ⟨pageId, members, patch, hid, hobject, hpatch, updatePage_done.mp hcall⟩
    · rintro ⟨pageId, members, patch, hid, hobject, hpatch, h⟩
      exact ⟨_, ⟨pageId, members, patch, hid, hobject, hpatch, rfl⟩, updatePage_done.mpr h⟩

/-- An object that is not done leaves the tables as they are. -/
theorem attempt_unchanged (h : ∀ page, (attempt C caller env entry db).1 ≠ .done page) :
    (attempt C caller env entry db).2 = db := by
  cases entry with
  | create creationId object =>
    rcases hobject : object.asObject with _ | members
    · simp only [attempt, hobject]
    · simp only [attempt, hobject] at h ⊢
      exact runCall_unchanged h
  | update id object => exact runCall_unchanged h

end Attempts


/-! ### What one object does to the others -/

/-- The tables of pages have the same owners, up to a new page. -/
structure SamePages (newId : SchedulingPageId) (db db' : SchedulingDb) : Prop where
  calendars : db'.calendars = db.calendars
  has : ∀ a id, id ≠ newId → (Has db' a id ↔ Has db a id)

theorem SamePages.refl {newId : SchedulingPageId} {db : SchedulingDb} : SamePages newId db db :=
  ⟨rfl, fun _ _ _ => Iff.rfl⟩

section Effects

variable {C : PageCrates} {caller : Caller} {env : PageEnv} {db db' : SchedulingDb}
  {entry : PageEntry} {L : Locale} {io : Io} {a : AccountId} {page : SchedulingPage}

theorem createPage_samePages {new : NewSchedulingPage} {id : SchedulingPageId} {now : ℤ}
    (h : createSchedulingPageTx L io a new id now db = .ok (page, db')) : SamePages id db db' := by
  simp only [createSchedulingPageTx, Tx.bind_eq_ok, checked_eq_ok, Tx.query_eq_ok,
    Tx.require_eq_ok, Tx.get_eq_ok, Tx.exec_eq_ok, Tx.okOr_eq_ok] at h
  obtain ⟨_, _, ⟨-, rfl⟩, _, _, ⟨-, rfl, rfl⟩, _, _, ⟨-, rfl⟩, _, _, ⟨rfl, rfl⟩,
    _, _, ⟨-, rfl⟩, _, _, ⟨-, rfl⟩, _, _, ⟨-, rfl⟩, _, _, ⟨-, -, rfl⟩, -, rfl⟩ := h
  refine ⟨rfl, fun a' id' hne => ⟨?_, ?_⟩⟩
  · rintro ⟨p, hp, hid, hown⟩
    rcases List.mem_append.mp hp with hp | hp
    · exact ⟨p, hp, hid, hown⟩
    · rw [List.mem_singleton.mp hp] at hid
      exact absurd hid.symm hne
  · rintro ⟨p, hp, h⟩
    exact ⟨p, List.mem_append_left _ hp, h⟩

theorem updatePage_samePages {newId id : SchedulingPageId} {patch : SchedulingPagePatch} {now : ℤ}
    (h : updateSchedulingPageTx L io a id patch now db = .ok (page, db')) :
    SamePages newId db db' := by
  simp only [updateSchedulingPageTx, Tx.bind_eq_ok, checked_eq_ok, Tx.query_eq_ok,
    Tx.exec_eq_ok, Tx.okOr_eq_ok] at h
  obtain ⟨_, _, ⟨-, rfl, rfl⟩, current, _, ⟨-, rfl⟩, _, _, ⟨-, rfl⟩, _, _, ⟨-, rfl⟩,
    _, _, ⟨-, -, rfl⟩, -, rfl⟩ := h
  -- id and owner are not among the columns written
  have hkept : ∀ p : SchedulingPage,
      (if decide (p.id = id) then p.overwrite (current.patch patch) now else p).id = p.id ∧
      (if decide (p.id = id) then p.overwrite (current.patch patch) now else p).accountId =
        p.accountId := by
    intro p
    split <;> exact ⟨rfl, rfl⟩
  refine ⟨rfl, fun a' id' _ => ⟨?_, ?_⟩⟩
  · rintro ⟨p', hp', hid, hown⟩
    obtain ⟨p, hp, rfl⟩ := mem_update.mp hp'
    exact ⟨p, hp, (hkept p).1.symm.trans hid, (hkept p).2.symm.trans hown⟩
  · rintro ⟨p, hp, hid, hown⟩
    exact ⟨_, mem_update.mpr ⟨p, hp, rfl⟩, (hkept p).1.trans hid, (hkept p).2.trans hown⟩

theorem runCall_samePages {body : Except MethodError (Tx SchedulingDb SchedulingPage)}
    {newId : SchedulingPageId} (h : ∀ call, body = .ok call → ∀ page db',
      call db = .ok (page, db') → SamePages newId db db') :
    SamePages newId db (runCall C body db).2 := by
  rcases body with e | call
  · exact .refl
  · rcases hcall : call db with e | ⟨page, db'⟩
    · simp only [runCall, transaction, hcall]
      exact .refl
    · simp only [runCall, transaction, hcall]
      exact h call rfl page db' hcall

theorem attempt_samePages : SamePages env.newId db (attempt C caller env entry db).2 := by
  cases entry with
  | create creationId object =>
    rcases hobject : object.asObject with _ | members
    · simp only [attempt, hobject]
      exact .refl
    · simp only [attempt, hobject]
      refine runCall_samePages fun call hread page db' hcall => ?_
      obtain ⟨new, -, rfl⟩ := createCall_eq_ok.mp hread
      exact createPage_samePages hcall
  | update id object =>
    refine runCall_samePages fun call hread page db' hcall => ?_
    obtain ⟨pageId, members, patch, -, -, -, rfl⟩ := updateCall_eq_ok.mp hread
    exact updatePage_samePages hcall

/-- The entry updates a page other than the new one. -/
def PageEntry.Avoids (newId : SchedulingPageId) : PageEntry → Prop
  | .create .. => True
  | .update id _ => ∀ pageId, Uuid.parseStr id = some pageId → (⟨pageId⟩ : SchedulingPageId) ≠ newId

theorem SamePages.foreign_iff {newId : SchedulingPageId} (h : SamePages newId db db')
    (havoids : entry.Avoids newId) :
    Foreign C caller env db' entry ↔ Foreign C caller env db entry := by
  cases entry with
  | create creationId object => simp only [Foreign, Owns, h.calendars]
  | update id object =>
    constructor
    · rintro ⟨pageId, members, patch, hid, hobject, hpatch, h0, hhas⟩
      exact ⟨pageId, members, patch, hid, hobject, hpatch, h0,
        fun hold => hhas ((h.has _ _ (havoids pageId hid)).mpr hold)⟩
    · rintro ⟨pageId, members, patch, hid, hobject, hpatch, h0, hhas⟩
      exact ⟨pageId, members, patch, hid, hobject, hpatch, h0,
        fun hnew => hhas ((h.has _ _ (havoids pageId hid)).mp hnew)⟩

end Effects

/-! ## The objects of a call -/

section Process

variable {C : PageCrates} {caller : Caller} {db : SchedulingDb}
  {entries : List (PageEntry × PageEnv)}

/-- No page that is updated has an id that is only given to a new one. -/
def NewIds (entries : List (PageEntry × PageEnv)) : Prop :=
  ∀ x ∈ entries, ∀ y ∈ entries, x.1.Avoids y.2.newId

theorem process_cons {entry : PageEntry} {env : PageEnv} :
    process C caller ((entry, env) :: entries) db =
      if (attempt C caller env entry db).1.isForbidden then
        ([(entry, .forbidden)], (attempt C caller env entry db).2)
      else
        ((entry, (attempt C caller env entry db).1) ::
          (process C caller entries (attempt C caller env entry db).2).1,
          (process C caller entries (attempt C caller env entry db).2).2) := by
  rcases hattempt : attempt C caller env entry db with ⟨_ | _ | _, db'⟩ <;>
    simp [process, hattempt, PageOutcome.isForbidden]

theorem isForbidden_attempt {entry : PageEntry} {env : PageEnv} :
    (attempt C caller env entry db).1.isForbidden ↔ Foreign C caller env db entry := by
  rw [← attempt_forbidden]
  cases (attempt C caller env entry db).1 <;> simp [PageOutcome.isForbidden]

theorem process_foreign {entry : PageEntry} {env : PageEnv} (h : Foreign C caller env db entry) :
    process C caller ((entry, env) :: entries) db =
      ([(entry, .forbidden)], (attempt C caller env entry db).2) := by
  rw [process_cons, if_pos (isForbidden_attempt.mpr h)]

theorem process_tried {entry : PageEntry} {env : PageEnv} (h : ¬Foreign C caller env db entry) :
    process C caller ((entry, env) :: entries) db =
      ((entry, (attempt C caller env entry db).1) ::
        (process C caller entries (attempt C caller env entry db).2).1,
        (process C caller entries (attempt C caller env entry db).2).2) := by
  rw [process_cons, if_neg (isForbidden_attempt.not.mpr h)]

/-- The method gives up if one of the objects is foreign to begin with. -/
theorem gaveUp_process (hnew : NewIds entries) :
    GaveUp (process C caller entries db).1 ↔ ∃ x ∈ entries, Foreign C caller x.2 db x.1 := by
  induction entries generalizing db with
  | nil => simp [process, GaveUp]
  | cons x entries ih =>
    obtain ⟨entry, env⟩ := x
    have hrest : NewIds entries := fun x hx y hy =>
      hnew x (List.mem_cons_of_mem _ hx) y (List.mem_cons_of_mem _ hy)
    by_cases hforeign : Foreign C caller env db entry
    · rw [process_foreign hforeign]
      exact iff_of_true rfl ⟨(entry, env), List.mem_cons_self, hforeign⟩
    · have hsame : ∀ x ∈ entries, Foreign C caller x.2 (attempt C caller env entry db).2 x.1 ↔
          Foreign C caller x.2 db x.1 := fun x hx =>
        attempt_samePages.foreign_iff (hnew x (List.mem_cons_of_mem _ hx) _ List.mem_cons_self)
      have hhead : (attempt C caller env entry db).1.isForbidden = false :=
        Bool.eq_false_iff.mpr (isForbidden_attempt.not.mpr hforeign)
      rw [process_tried hforeign, GaveUp, List.any_cons, hhead, Bool.false_or]
      refine (ih hrest).trans ⟨?_, ?_⟩
      · rintro ⟨x, hx, h⟩
        exact ⟨x, List.mem_cons_of_mem _ hx, (hsame x hx).mp h⟩
      · rintro ⟨x, hx, h⟩
        rcases List.mem_cons.mp hx with rfl | hx
        · exact absurd h hforeign
        · exact ⟨x, hx, (hsame x hx).mpr h⟩

variable (C caller db entries) in
/-- Of the objects before the first foreign one none is acceptable, nor is that one. -/
def RefusedFirst : Prop :=
  ∀ pre x post, entries = pre ++ x :: post → (∀ y ∈ pre, ¬Foreign C caller y.2 db y.1) →
    ¬Acceptable C caller x.2 db x.1

theorem refusedFirst_cons {x : PageEntry × PageEnv} :
    RefusedFirst C caller db (x :: entries) ↔ ¬Acceptable C caller x.2 db x.1 ∧
      (¬Foreign C caller x.2 db x.1 → RefusedFirst C caller db entries) := by
  constructor
  · intro h
    refine ⟨h [] x entries rfl (by simp), fun hforeign pre y post hsplit hpre => ?_⟩
    refine h (x :: pre) y post (by rw [hsplit]; rfl) fun z hz => ?_
    rcases List.mem_cons.mp hz with rfl | hz
    · exact hforeign
    · exact hpre z hz
  · rintro ⟨hx, hrest⟩ pre y post hsplit hpre
    rcases pre with _ | ⟨z, pre⟩
    · obtain ⟨rfl, -⟩ := List.cons.inj hsplit
      exact hx
    · obtain ⟨rfl, htail⟩ := List.cons.inj hsplit
      exact hrest (hpre x List.mem_cons_self) pre y post htail
        fun w hw => hpre w (List.mem_cons_of_mem _ hw)

/-- **The objects that are tried.** None of them is done exactly if those up to the first foreign
one are all refused. -/
theorem refusedFirst_iff : RefusedFirst C caller db entries ↔
    ∀ t ∈ (process C caller entries db).1, ∀ page, t.2 ≠ .done page := by
  induction entries generalizing db with
  | nil => exact iff_of_true (fun pre x post h => by simp at h) (by simp [process])
  | cons x entries ih =>
    obtain ⟨entry, env⟩ := x
    rw [refusedFirst_cons]
    by_cases hforeign : Foreign C caller env db entry
    · rw [process_foreign hforeign]
      refine iff_of_true ⟨fun hacc => ?_, fun h => absurd hforeign h⟩ (by simp)
      obtain ⟨page, hpage⟩ := attempt_done.mpr hacc
      rw [attempt_forbidden.mpr hforeign] at hpage
      cases hpage
    · rw [process_tried hforeign, List.forall_mem_cons]
      constructor
      · rintro ⟨hhead, htail⟩
        have hfailed : ∀ page, (attempt C caller env entry db).1 ≠ .done page :=
          not_exists.mp (attempt_done.not.mpr hhead)
        rw [attempt_unchanged hfailed]
        exact ⟨hfailed, ih.mp (htail hforeign)⟩
      · rintro ⟨hfailed, htail⟩
        rw [attempt_unchanged hfailed] at htail
        exact ⟨attempt_done.not.mp (not_exists.mpr hfailed), fun _ => ih.mpr htail⟩

/-- If none of the objects is done, the tables are as before. -/
theorem process_unchanged (h : ∀ t ∈ (process C caller entries db).1, ∀ page, t.2 ≠ .done page) :
    (process C caller entries db).2 = db := by
  induction entries generalizing db with
  | nil => rfl
  | cons x entries ih =>
    obtain ⟨entry, env⟩ := x
    by_cases hforeign : Foreign C caller env db entry
    · rw [process_foreign hforeign]
      refine attempt_unchanged fun page hpage => ?_
      rw [attempt_forbidden.mpr hforeign] at hpage
      cases hpage
    · rw [process_tried hforeign, List.forall_mem_cons] at h
      rw [process_tried hforeign]
      have hsame := attempt_unchanged h.1
      exact (ih h.2).trans hsame

/-- If the method does not give up, every object was tried. -/
theorem process_all (h : ¬GaveUp (process C caller entries db).1) :
    (process C caller entries db).1.map (·.1) = entries.map (·.1) := by
  induction entries generalizing db with
  | nil => rfl
  | cons x entries ih =>
    obtain ⟨entry, env⟩ := x
    by_cases hforeign : Foreign C caller env db entry
    · rw [process_foreign hforeign] at h
      exact absurd rfl h
    · rw [process_tried hforeign, GaveUp, List.any_cons, Bool.or_eq_true, not_or] at h
      rw [process_tried hforeign, List.map_cons, List.map_cons, ih h.2]

end Process

/-! ## The response -/

namespace Members

theorem get_of_mem {members : Members} {key : String} {value : Value} (hkeys : members.keys.Nodup)
    (h : (key, value) ∈ members) : members.get key = some value := by
  obtain ⟨found, hget, hmem⟩ := get_of_mem_keys (List.mem_map_of_mem (f := Prod.fst) h)
  have hsame : (key, found) = (key, value) :=
    List.inj_on_of_nodup_map (f := Prod.fst) hkeys hmem h rfl
  rw [hget, (Prod.mk.inj hsame).2]

/-- The members of an object argument have distinct names. -/
theorem Valid.objects_nodup {args : Members} (h : args.Valid) (key : String) :
    (args.objects key).keys.Nodup := by
  unfold objects
  rcases hget : args.get key with _ | value
  · exact List.nodup_nil
  · rcases hobject : value.asObject with _ | members
    · simp [keys, hobject]
    · obtain rfl : value = .object members := by
        cases value <;> simp_all [Value.asObject]
      simpa [hobject] using keys_nodup (h.each _ (mem_of_get hget)).members.sorted

end Members

section Response

variable {C : PageCrates} {caller : Caller} {args : Members} {env : ℕ → PageEnv}
  {tried : List (PageEntry × PageOutcome)}

/-- The name of an object to create. -/
def PageEntry.createId : PageEntry → Option String
  | .create id _ => some id
  | .update .. => none

/-- The name of a page to update. -/
def PageEntry.updateId : PageEntry → Option String
  | .create .. => none
  | .update id _ => some id

theorem map_entriesOf : (entriesOf args env).map (·.1) =
    (args.objects "create").map (fun m => PageEntry.create m.1 m.2) ++
      (args.objects "update").map fun m => PageEntry.update m.1 m.2 := by
  refine List.ext_getElem (by simp [entriesOf]) fun n h h' => ?_
  simp [entriesOf]

theorem createIds_entriesOf : ((entriesOf args env).map (·.1)).filterMap PageEntry.createId =
    (args.objects "create").keys := by
  simp [map_entriesOf, List.filterMap_map, Function.comp_def, PageEntry.createId, Members.keys]

theorem updateIds_entriesOf : ((entriesOf args env).map (·.1)).filterMap PageEntry.updateId =
    (args.objects "update").keys := by
  simp [map_entriesOf, List.filterMap_map, Function.comp_def, PageEntry.updateId, Members.keys]

/-- The members that a report picks are named after the objects they are about. -/
theorem keys_filterMap {pick : PageEntry × PageOutcome → Option (String × Value)}
    {name : PageEntry → Option String}
    (hname : ∀ t m, pick t = some m → name t.1 = some m.1) :
    (Members.keys (tried.filterMap pick)).Sublist ((tried.map (·.1)).filterMap name) := by
  induction tried with
  | nil => exact List.Sublist.slnil
  | cons t tried ih =>
    rw [List.map_cons]
    rcases hpick : pick t with _ | m
    · rw [List.filterMap_cons_none hpick]
      refine ih.trans ?_
      rcases hn : name t.1 with _ | id
      · rw [List.filterMap_cons_none hn]
      · rw [List.filterMap_cons_some hn]
        exact List.sublist_cons_self ..
    · rw [List.filterMap_cons_some hpick, List.filterMap_cons_some (hname t m hpick)]
      exact ih.cons_cons m.1

/-- A report has the member it picks for an object. -/
theorem get_filterMap {pick : PageEntry × PageOutcome → Option (String × Value)}
    {name : PageEntry → Option String} {t : PageEntry × PageOutcome} {m : String × Value}
    (hname : ∀ t m, pick t = some m → name t.1 = some m.1)
    (hnodup : ((tried.map (·.1)).filterMap name).Nodup) (ht : t ∈ tried) (hpick : pick t = some m) :
    Members.get (tried.filterMap pick) m.1 = some m.2 :=
  Members.get_of_mem ((keys_filterMap hname).nodup hnodup)
    (List.mem_filterMap.mpr ⟨t, ht, hpick⟩)

theorem createdMember_name (t : PageEntry × PageOutcome) (m : String × Value)
    (h : createdMember C caller t = some m) : t.1.createId = some m.1 := by
  rcases t with ⟨_ | _, _ | _ | _⟩ <;> simp_all [createdMember, PageEntry.createId]
  exact h ▸ rfl

theorem notCreatedMember_name (t : PageEntry × PageOutcome) (m : String × Value)
    (h : notCreatedMember t = some m) : t.1.createId = some m.1 := by
  rcases t with ⟨_ | _, _ | _ | _⟩ <;> simp_all [notCreatedMember, PageEntry.createId]
  exact h ▸ rfl

theorem updatedMember_name (t : PageEntry × PageOutcome) (m : String × Value)
    (h : updatedMember C caller t = some m) : t.1.updateId = some m.1 := by
  rcases t with ⟨_ | _, _ | _ | _⟩ <;> simp_all [updatedMember, PageEntry.updateId]
  exact h ▸ rfl

theorem notUpdatedMember_name (t : PageEntry × PageOutcome) (m : String × Value)
    (h : notUpdatedMember t = some m) : t.1.updateId = some m.1 := by
  rcases t with ⟨_ | _, _ | _ | _⟩ <;> simp_all [notUpdatedMember, PageEntry.updateId]
  exact h ▸ rfl

/-- A part of the response has a value under an object's name. -/
def Members.Names (response : Members) (part id : String) (value : Value) : Prop :=
  ∃ members : Members, response.get part = some (.object members) ∧ members.get id = some value

variable (C caller) in
/-- The response lists the outcome under the object's own name. -/
def Listed (response : Members) : PageEntry × PageOutcome → Prop
  | (.create id _, .done page) => response.Names "created" id (pageJson C caller page)
  | (.create id _, .failed description) => response.Names "notCreated" id (failure description)
  | (.update id _, .done page) => response.Names "updated" id (pageJson C caller page)
  | (.update id _, .failed description) => response.Names "notUpdated" id (failure description)
  | (_, .forbidden) => False

theorem listed_setResponse {accountId : Value} {t : PageEntry × PageOutcome}
    (hcreate : ((tried.map (·.1)).filterMap PageEntry.createId).Nodup)
    (hupdate : ((tried.map (·.1)).filterMap PageEntry.updateId).Nodup)
    (ht : t ∈ tried) (hallowed : t.2.isForbidden = false) :
    Listed C caller (setResponse C caller accountId tried) t := by
  obtain ⟨⟨id, object⟩ | ⟨id, object⟩, page | description | _⟩ := t
  case create.forbidden | update.forbidden => cases hallowed
  case create.done =>
    exact ⟨_, by simp [setResponse, Members.get, report],
      get_filterMap createdMember_name hcreate ht rfl⟩
  case create.failed =>
    exact ⟨_, by simp [setResponse, Members.get, report],
      get_filterMap notCreatedMember_name hcreate ht rfl⟩
  case update.done =>
    exact ⟨_, by simp [setResponse, Members.get, report],
      get_filterMap updatedMember_name hupdate ht rfl⟩
  case update.failed =>
    exact ⟨_, by simp [setResponse, Members.get, report],
      get_filterMap notUpdatedMember_name hupdate ht rfl⟩

end Response
/-! ## The method -/

section Method

variable (C : PageCrates) (caller : Caller) (args : Members) (env : ℕ → PageEnv) (db : SchedulingDb)

/-- The objects that the call tries, and how each fares. -/
def triedObjects : List (PageEntry × PageOutcome) :=
  match checkAccount caller args with
  | .error _ => []
  | .ok () => (process C caller (entriesOf args env) db).1

/-- **What a call reports.** After an error nothing was created or changed, and no statement that
creates or changes a page went through; otherwise each object was tried, and the response lists
how it fared. -/
structure SetReports : Prop where
  error : ∀ e db', schedulingPageSet C caller args env db = (.error e, db') →
    db' = db ∧ ∀ t ∈ triedObjects C caller args env db, ∀ page, t.2 ≠ .done page
  listed : ∀ response db', schedulingPageSet C caller args env db = (.ok response, db') →
    ∀ x ∈ entriesOf args env, ∃ outcome, (x.1, outcome) ∈ triedObjects C caller args env db ∧
      Listed C caller response (x.1, outcome)

/-- If the call has pages to destroy or a foreign object, then no object is acceptable up to the
first foreign one. -/
def NothingToHide : Prop :=
  checkAccount caller args = .ok () →
    (wantsDestroy args ∨ ∃ x ∈ entriesOf args env, Foreign C caller x.2 db x.1) →
    RefusedFirst C caller db (entriesOf args env)

variable {C caller args env db}

theorem listed_of_process {response : Members} (hargs : args.Valid)
    (hall : ¬GaveUp (process C caller (entriesOf args env) db).1)
    (hres : response = setResponse C caller ((args.get "accountId").getD .null)
      (process C caller (entriesOf args env) db).1) :
    ∀ x ∈ entriesOf args env, ∃ outcome,
      (x.1, outcome) ∈ (process C caller (entriesOf args env) db).1 ∧
        Listed C caller response (x.1, outcome) := by
  intro x hx
  have hentries := process_all hall
  have hmem : x.1 ∈ (process C caller (entriesOf args env) db).1.map (·.1) :=
    hentries ▸ List.mem_map_of_mem hx
  obtain ⟨⟨entry, outcome⟩, ht, rfl⟩ := List.mem_map.mp hmem
  have hallowed : outcome.isForbidden = false := by
    refine Bool.eq_false_iff.mpr fun h => hall ?_
    exact List.any_eq_true.mpr ⟨_, ht, h⟩
  refine ⟨outcome, ht, hres ▸ listed_setResponse ?_ ?_ ht hallowed⟩
  · rw [hentries, createIds_entriesOf]
    exact hargs.objects_nodup "create"
  · rw [hentries, updateIds_entriesOf]
    exact hargs.objects_nodup "update"

/-- **Method-level errors.** The call reports what it did exactly if it has nothing to hide. -/
theorem setReports_iff (hargs : args.Valid) (hnew : NewIds (entriesOf args env)) :
    SetReports C caller args env db ↔ NothingToHide C caller args env db := by
  rcases haccount : checkAccount caller args with e | ⟨⟨⟩⟩
  · -- the account is checked before anything is done
    refine iff_of_true ⟨?_, ?_⟩ fun h => by rw [haccount] at h; cases h
    · intro e' db' h
      simp only [schedulingPageSet, haccount, Prod.mk.injEq] at h
      exact ⟨h.2.symm, by simp [triedObjects, haccount]⟩
    · intro response db' h
      simp only [schedulingPageSet, haccount, Prod.mk.injEq, reduceCtorEq, false_and] at h
  have hfail : ∀ e, schedulingPageSet C caller args env db =
      (.error e, (process C caller (entriesOf args env) db).2) →
      (SetReports C caller args env db ↔ RefusedFirst C caller db (entriesOf args env)) := by
    intro e hset
    rw [refusedFirst_iff]
    constructor
    · intro h
      simpa [triedObjects, haccount] using (h.error e _ hset).2
    · intro h
      refine ⟨fun e' db' hset' => ?_, fun response db' hset' => by rw [hset] at hset'; cases hset'⟩
      obtain ⟨-, rfl⟩ := Prod.mk.inj (hset.symm.trans hset')
      exact ⟨process_unchanged h, by simpa [triedObjects, haccount] using h⟩
  have hcond : NothingToHide C caller args env db ↔
      ((wantsDestroy args ∨ ∃ x ∈ entriesOf args env, Foreign C caller x.2 db x.1) →
        RefusedFirst C caller db (entriesOf args env)) :=
    ⟨fun h => h haccount, fun h _ => h⟩
  rw [hcond, ← gaveUp_process hnew]
  by_cases hgave : GaveUp (process C caller (entriesOf args env) db).1
  · rw [hfail .forbidden (by simp [schedulingPageSet, haccount, hgave])]
    exact ⟨fun h _ => h, fun h => h (.inr hgave)⟩
  by_cases hdestroy : wantsDestroy args
  · rw [hfail (.invalidArguments "destroy is not supported; pause the page instead")
      (by simp [schedulingPageSet, haccount, hgave, hdestroy])]
    exact ⟨fun h _ => h, fun h => h (.inl hdestroy)⟩
  · have hset : schedulingPageSet C caller args env db =
        (.ok (setResponse C caller ((args.get "accountId").getD .null)
          (process C caller (entriesOf args env) db).1),
          (process C caller (entriesOf args env) db).2) := by
      simp [schedulingPageSet, haccount, hgave, hdestroy]
    refine iff_of_true ⟨?_, ?_⟩ fun h => absurd h (not_or.mpr ⟨hdestroy, hgave⟩)
    · intro e db' h
      rw [hset] at h
      cases h
    · intro response db' h
      rw [hset, Prod.mk.injEq, Except.ok.injEq] at h
      simpa only [triedObjects, haccount] using listed_of_process hargs hgave h.1.symm

end Method
/-! ## A page of one's own, and one on another account's calendar -/

/-- Crates that read no availability and no durations, and plain numbers. -/
def PageCrates.plain : PageCrates where
  locale := denver
  unicode := .ascii
  availabilityOf _ := .error "unsupported"
  durationsOf _ := .error "unsupported"
  availabilityJson availability :=
    let days := fun (table : List (String × List TimeWindow)) => jsonObject <| table.map fun day =>
      (day.1, .array (day.2.map fun window =>
        jsonObject [("start", .string window.start), ("end", .string window.stop)]))
    jsonObject [("version", natJson availability.version), ("weekly", days availability.weekly),
      ("overrides", days availability.overrides)]
  asU64 text := (parseDigits text.toList).filter (· < 2 ^ 64)
  storageText
    | .notAuthorized => "not authorized"
    | _ => "database error"

/-- Alice's session. -/
def aliceCalls : Caller := ⟨alice, "alice@example.com", none, "https://mail.example.com"⟩

/-- A page on the calendar. -/
def pageOn (calendar : Uuid) (slug : String) : Value :=
  .object [("calendarId", .string calendar.toString), ("slug", .string slug),
    ("timezone", .string "America/Denver")]

/-- Two pages to create; the second calendar is not Alice's. -/
def oneOfTwo : Members :=
  [("accountId", .string alice.uuid.toString),
    ("create", .object [("first", pageOn 2 "meet-alice"), ("second", pageOn 3 "meet-bob")])]

/-- The calendars of Alice and of another account. -/
def twoCalendars : SchedulingDb :=
  { SchedulingDb.empty with
    calendars := [⟨⟨2⟩, alice, "Personal", none, 0, 0⟩, ⟨⟨3⟩, ⟨4⟩, "Personal", none, 0, 0⟩] }

/-- No statement fails, and the pages get the ids from 10 on. -/
def pageEnvs (n : ℕ) : PageEnv := ⟨.ok, ⟨BitVec.ofNat 128 (10 + n)⟩, 0⟩

theorem pageOn_valid (calendar : Uuid) (slug : String) : (pageOn calendar slug).Valid := by
  have hkeys : ["calendarId", "slug", "timezone"].Pairwise (· < ·) := by decide
  refine .object (List.pairwise_map.mp hkeys) fun m hm => ?_
  simp only [List.mem_cons, List.not_mem_nil, or_false] at hm
  rcases hm with rfl | rfl | rfl <;> exact .string _

theorem oneOfTwo_valid : oneOfTwo.Valid := by
  refine ⟨by simp +decide [Members.Sorted], fun m hm => ?_⟩
  simp only [oneOfTwo, List.mem_cons, List.not_mem_nil, or_false] at hm
  rcases hm with rfl | rfl
  · exact .string _
  · refine .object (by simp +decide [Members.Sorted]) fun m hm => ?_
    simp only [List.mem_cons, List.not_mem_nil, or_false] at hm
    rcases hm with rfl | rfl <;> exact pageOn_valid _ _

theorem newIds_oneOfTwo : NewIds (entriesOf oneOfTwo pageEnvs) := by
  simp [NewIds, entriesOf, Members.objects, oneOfTwo, Members.get, Value.asObject,
    PageEntry.Avoids]

theorem setReports_oneOfTwo :
    SetReports .plain aliceCalls oneOfTwo pageEnvs twoCalendars ↔
      NothingToHide .plain aliceCalls oneOfTwo pageEnvs twoCalendars :=
  setReports_iff oneOfTwo_valid newIds_oneOfTwo

/-- **A page behind an error.** The first page is created, and the call ends with `forbidden`. -/
theorem not_setReports_oneOfTwo :
    ¬SetReports .plain aliceCalls oneOfTwo pageEnvs twoCalendars := by
  intro h
  have hrun : (schedulingPageSet .plain aliceCalls oneOfTwo pageEnvs twoCalendars).1.isOk = false ∧
      (schedulingPageSet .plain aliceCalls oneOfTwo pageEnvs twoCalendars).2.pages.length = 1 := by
    decide +kernel
  rcases hset : schedulingPageSet .plain aliceCalls oneOfTwo pageEnvs twoCalendars with ⟨e | r, db'⟩
  · obtain ⟨rfl, -⟩ := h.error e db' hset
    rw [hset] at hrun
    exact absurd hrun.2 Nat.zero_ne_one
  · rw [hset] at hrun
    cases hrun.1
end Owney.Jmap
