import Owney.CalendarSharing

/-!
# Who sees a shared calendar

Calendar sharing over every run of calls, in any order.

* `SharingInv` — the rows are what the history says.
* `decision_of_access`, `lists_of_past` — so the decision goes by the history, and the list by
  the decision.
* `sharingLaws_iff` — all of it, in every run. The list names a calendar twice exactly if an
  account accepted a share of a calendar of its own: nothing keeps an owner from sharing with
  itself.
-/

namespace Owney.Sharing

open Programs Tables

/-! ## The invariant -/

/-- A past of the server. -/
abbrev SharingPast : List SharingEvent → SharingDb → Prop :=
  Past SharingOp.exec (fun _ _ _ => True) ⟨[], []⟩

/-- What was the case when a call was made. -/
abbrev SharingAt : List SharingEvent → SharingEvent → Prop :=
  Past.At SharingOp.exec (fun _ _ _ => True) ⟨[], []⟩

/-- **The invariant.** The rows are what the history says. -/
structure SharingInv (past : List SharingEvent) (db : SharingDb) : Prop where
  calendars : (db.calendars.map (·.id)).Nodup
  ids : (db.sharing.map (·.id)).Nodup
  pairs : (db.sharing.map fun s => (s.calendarId, s.sharedWithAccountId)).Nodup
  owns : ∀ account cal, db.owns account cal ↔ Owns past account cal
  rows : ∀ s ∈ db.sharing, s.permissions = s.sharingType.permissions ∧
    ∃ since, SharedBy past s.id s.calendarId s.sharedWithAccountId s.sharingType since
  kept : ∀ id cal account ty since, SharedBy past id cal account ty since →
    ∃ s ∈ db.sharing, s.id = id ∧ s.calendarId = cal ∧ s.sharedWithAccountId = account ∧
      s.sharingType = ty ∧ (s.status = .accepted ↔ Standing since id account)

theorem SharingDb.owns_iff {db : SharingDb} {account : AccountId} {cal : CalendarId} :
    db.owns account cal ↔ ∃ c ∈ db.calendars, c.id = cal ∧ c.accountId = account := by
  simp [SharingDb.owns]

@[simp] theorem CalendarSharing.grants_iff {s : CalendarSharing} {account : AccountId}
    {cal : CalendarId} : s.grants account cal ↔
      s.calendarId = cal ∧ s.sharedWithAccountId = account ∧ s.status = .accepted := by
  simp [CalendarSharing.grants]

@[simp] theorem CalendarSharing.addressed_iff {s : CalendarSharing} {id : String}
    {account : AccountId} :
    s.addressed id account ↔ s.id = id ∧ s.sharedWithAccountId = account := by
  simp [CalendarSharing.addressed]

section Step

variable {past : List SharingEvent} {e : SharingEvent}

theorem sharingAt_effect (hat : SharingAt past e) : SharingEffect e.before e.call e.after :=
  sharingEffect hat.possible

theorem calendars_step (hat : SharingAt past e) (h : SharingInv past e.before) :
    (e.after.calendars.map (·.id)).Nodup := by
  cases sharingAt_effect hat with
  | quiet unmade unshared unaccepted unrejected same => exact same ▸ h.calendars
  | created made fresh rows =>
    rw [rows]
    exact nodup_map_insert h.calendars fresh
  | shared made owns fresh unique pending permissions rows => exact rows ▸ h.calendars
  | accepted made rows => exact rows ▸ h.calendars
  | rejected made rows => exact rows ▸ h.calendars

theorem ids_step (hat : SharingAt past e) (h : SharingInv past e.before) :
    (e.after.sharing.map (·.id)).Nodup := by
  cases sharingAt_effect hat with
  | quiet unmade unshared unaccepted unrejected same => exact same ▸ h.ids
  | created made fresh rows => exact rows ▸ h.ids
  | shared made owns fresh unique pending permissions rows =>
    rw [rows]
    exact nodup_map_insert h.ids fresh
  | accepted made rows =>
    rw [rows]
    exact nodup_map_update (by intro r; rfl) h.ids
  | rejected made rows =>
    rw [rows]
    exact nodup_map_update (by intro r; rfl) h.ids

theorem pairs_step (hat : SharingAt past e) (h : SharingInv past e.before) :
    (e.after.sharing.map fun s => (s.calendarId, s.sharedWithAccountId)).Nodup := by
  cases sharingAt_effect hat with
  | quiet unmade unshared unaccepted unrejected same => exact same ▸ h.pairs
  | created made fresh rows => exact rows ▸ h.pairs
  | shared made owns fresh unique pending permissions rows =>
    rw [rows]
    exact nodup_map_insert h.pairs unique
  | accepted made rows =>
    rw [rows]
    exact nodup_map_update (by intro r; rfl) h.pairs
  | rejected made rows =>
    rw [rows]
    exact nodup_map_update (by intro r; rfl) h.pairs

theorem owns_step (hat : SharingAt past e) (h : SharingInv past e.before) (account : AccountId)
    (cal : CalendarId) : e.after.owns account cal ↔ Owns (past ++ [e]) account cal := by
  rw [owns_snoc, ← h.owns]
  cases sharingAt_effect hat with
  | quiet unmade unshared unaccepted unrejected same =>
    rw [same]
    refine ⟨.inl, ?_⟩
    rintro (howns | ⟨name, description, c, hcall, -⟩)
    · exact howns
    · exact absurd hcall (unmade _ _ _ _)
  | @created name description c made fresh rows =>
    simp only [SharingDb.owns_iff, rows, List.mem_append, List.mem_singleton, or_and_right,
      exists_or, exists_eq_left]
    refine or_congr_right ⟨?_, ?_⟩
    · rintro ⟨hid, rfl⟩
      exact ⟨name, description, c, made, hid⟩
    · rintro ⟨name', description', c', hcall, hid⟩
      cases made.symm.trans hcall
      exact ⟨hid, rfl⟩
  | shared made owns fresh unique pending permissions rows => simp [made, rows, SharingDb.owns]
  | accepted made rows => simp [made, rows, SharingDb.owns]
  | rejected made rows => simp [made, rows, SharingDb.owns]

theorem rows_step (hat : SharingAt past e) (h : SharingInv past e.before) :
    ∀ s ∈ e.after.sharing, s.permissions = s.sharingType.permissions ∧
      ∃ since,
        SharedBy (past ++ [e]) s.id s.calendarId s.sharedWithAccountId s.sharingType since := by
  have hold : ∀ s ∈ e.before.sharing, s.permissions = s.sharingType.permissions ∧
      ∃ since,
        SharedBy (past ++ [e]) s.id s.calendarId s.sharedWithAccountId s.sharingType since := by
    intro s hs
    obtain ⟨hperm, since, hshared⟩ := h.rows s hs
    exact ⟨hperm, _, hshared.snoc⟩
  intro s hs
  cases sharingAt_effect hat with
  | quiet unmade unshared unaccepted unrejected same => exact hold s (same ▸ hs)
  | created made fresh rows => exact hold s (by rwa [rows] at hs)
  | @shared owner s' made owns fresh unique pending permissions rows =>
    rw [rows] at hs
    rcases List.mem_append.mp hs with hs | hs
    · exact hold s hs
    · obtain rfl := List.mem_singleton.mp hs
      exact ⟨permissions, [], past, e, owner, s, rfl, made, rfl, (h.owns _ _).mp owns⟩
  | accepted made rows =>
    rw [rows] at hs
    rcases update_cases hs with ⟨s₀, hs₀, -, rfl⟩ | ⟨hs₀, -⟩
    · exact hold s₀ hs₀
    · exact hold s hs₀
  | rejected made rows =>
    rw [rows] at hs
    rcases update_cases hs with ⟨s₀, hs₀, -, rfl⟩ | ⟨hs₀, -⟩
    · exact hold s₀ hs₀
    · exact hold s hs₀

/-- A share that was made is a row, accepted exactly if it stands. -/
theorem kept_step (hat : SharingAt past e) (h : SharingInv past e.before) {id : String}
    {cal : CalendarId} {account : AccountId} {ty : SharingType} {since : List SharingEvent}
    (hshared : SharedBy (past ++ [e]) id cal account ty since) :
    ∃ s ∈ e.after.sharing, s.id = id ∧ s.calendarId = cal ∧ s.sharedWithAccountId = account ∧
      s.sharingType = ty ∧ (s.status = .accepted ↔ Standing since id account) := by
  rcases sharedBy_snoc hshared with ⟨rfl, owner, s, hcall, rfl⟩ | ⟨since, rfl, hbefore⟩
  · -- the share was made by this call
    cases sharingAt_effect hat with
    | quiet unmade unshared unaccepted unrejected same => exact absurd hcall (unshared _ _ _ _ _)
    | created made fresh rows => cases made.symm.trans hcall
    | @shared owner' s' made owns fresh unique pending permissions rows =>
      cases made.symm.trans hcall
      refine ⟨s', by simp [rows], rfl, rfl, rfl, rfl, ?_⟩
      simp [pending, not_standing_nil]
    | accepted made rows => cases made.symm.trans hcall
    | rejected made rows => cases made.symm.trans hcall
  · obtain ⟨s, hs, rfl, rfl, rfl, rfl, hstatus⟩ := h.kept _ _ _ _ _ hbefore
    cases sharingAt_effect hat with
    | quiet unmade unshared unaccepted unrejected same =>
      rw [standing_snoc_of_ne (unaccepted _ _) (unrejected _ _)]
      exact ⟨s, same ▸ hs, rfl, rfl, rfl, rfl, hstatus⟩
    | created made fresh rows =>
      rw [standing_snoc_of_ne (by simp [made]) (by simp [made])]
      exact ⟨s, rows ▸ hs, rfl, rfl, rfl, rfl, hstatus⟩
    | shared made owns fresh unique pending permissions rows =>
      rw [standing_snoc_of_ne (by simp [made]) (by simp [made])]
      exact ⟨s, rows ▸ List.mem_append_left _ hs, rfl, rfl, rfl, rfl, hstatus⟩
    | @accepted id account now made rows =>
      rw [rows]
      refine ⟨_, mem_update.mpr ⟨s, hs, rfl⟩, ?_⟩
      by_cases hto : s.addressed id account
      · obtain ⟨rfl, rfl⟩ := CalendarSharing.addressed_iff.mp hto
        rw [standing_snoc]
        simp [made]
      · have hne : e.call ≠ ⟨.acceptSharing s.id s.sharedWithAccountId, .ok ()⟩ := by
          intro hcall
          cases made.symm.trans hcall
          exact hto (CalendarSharing.addressed_iff.mpr ⟨rfl, rfl⟩)
        rw [standing_snoc_of_ne hne (by simp [made]), if_neg hto]
        exact ⟨rfl, rfl, rfl, rfl, hstatus⟩
    | @rejected id account made rows =>
      rw [rows]
      refine ⟨_, mem_update.mpr ⟨s, hs, rfl⟩, ?_⟩
      by_cases hto : s.addressed id account
      · obtain ⟨rfl, rfl⟩ := CalendarSharing.addressed_iff.mp hto
        rw [standing_snoc]
        simp [made]
      · have hne : e.call ≠ ⟨.rejectSharing s.id s.sharedWithAccountId, .ok ()⟩ := by
          intro hcall
          cases made.symm.trans hcall
          exact hto (CalendarSharing.addressed_iff.mpr ⟨rfl, rfl⟩)
        rw [standing_snoc_of_ne (by simp [made]) hne, if_neg hto]
        exact ⟨rfl, rfl, rfl, rfl, hstatus⟩

/-- **One step.** -/
theorem sharingInv_step (hat : SharingAt past e) (h : SharingInv past e.before) :
    SharingInv (past ++ [e]) e.after :=
  ⟨calendars_step hat h, ids_step hat h, pairs_step hat h, owns_step hat h, rows_step hat h,
    fun _ _ _ _ _ hshared => kept_step hat h hshared⟩

end Step

section Runs

variable {past : List SharingEvent} {db : SharingDb} {e : SharingEvent} {account : AccountId}
  {cal : CalendarId} {p : Permissions}

/-- **Every past.** -/
theorem sharingInv_past (h : SharingPast past db) : SharingInv past db := by
  refine h.invariant (I := SharingInv) ?_ fun past e hat _ ih => sharingInv_step hat ih
  refine ⟨List.nodup_nil, List.nodup_nil, List.nodup_nil, ?_, ?_, ?_⟩
  · intro account cal
    simp [SharingDb.owns, Owns]
  · exact fun s hs => absurd hs List.not_mem_nil
  · rintro id cal account ty since ⟨pre, e, owner, s, hsplit, -⟩
    simp at hsplit

/-- **What is granted** is what an accepted row says. -/
theorem SharingInv.granted_iff (h : SharingInv past db) :
    Granted past account cal p ↔ ∃ s ∈ db.sharing, s.grants account cal ∧ s.permissions = p := by
  constructor
  · rintro ⟨id, ty, since, hshared, hstanding, rfl⟩
    obtain ⟨s, hs, -, hcal, haccount, rfl, hstatus⟩ := h.kept _ _ _ _ _ hshared
    exact ⟨s, hs, CalendarSharing.grants_iff.mpr ⟨hcal, haccount, hstatus.mpr hstanding⟩,
      (h.rows s hs).1⟩
  · rintro ⟨s, hs, hgrants, rfl⟩
    obtain ⟨rfl, rfl, haccepted⟩ := CalendarSharing.grants_iff.mp hgrants
    obtain ⟨hperm, since, hshared⟩ := h.rows s hs
    obtain ⟨s', hs', hid, -, -, -, hstatus⟩ := h.kept _ _ _ _ _ hshared
    obtain rfl := eq_of_key_eq h.ids hs' hs hid
    exact ⟨s'.id, s'.sharingType, since, hshared, hstatus.mp haccepted, hperm⟩

/-- At most one share of a calendar stands for an account. -/
theorem SharingInv.grants_unique (h : SharingInv past db) {s s' : CalendarSharing}
    (hs : s ∈ db.sharing) (hs' : s' ∈ db.sharing) (hgrants : s.grants account cal)
    (hgrants' : s'.grants account cal) : s = s' := by
  obtain ⟨hcal, haccount, -⟩ := CalendarSharing.grants_iff.mp hgrants
  obtain ⟨hcal', haccount', -⟩ := CalendarSharing.grants_iff.mp hgrants'
  exact eq_of_key_eq h.pairs hs hs' (by rw [hcal, hcal', haccount, haccount'])

/-- **The decision** goes by the history. -/
theorem decision_of_access (hat : SharingAt past e) {res : Option Permissions}
    (hcall : e.call = ⟨.calendarAccess account cal, .ok res⟩) : Decision past account cal res := by
  have hinv := sharingInv_past hat.earlier
  have hpossible := hat.possible
  rw [hcall] at hpossible
  rcases SharingOp.exec_cases hpossible with ⟨e, he, -⟩ | ⟨a, hok, ha⟩
  · cases he
  obtain rfl := Except.ok.inj ha
  rw [(calendarAccessTx_ok hok).1]
  by_cases hown : e.before.owns account cal
  · rw [if_pos hown]
    exact .inl ⟨(hinv.owns _ _).mp hown, rfl⟩
  · rw [if_neg hown]
    have hnot : ¬Owns past account cal := fun h => hown ((hinv.owns _ _).mpr h)
    cases hfind : e.before.sharing.find? (·.grants account cal) with
    | none =>
      refine ⟨hnot, fun p hgranted => ?_⟩
      obtain ⟨s, hs, hgrants, -⟩ := hinv.granted_iff.mp hgranted
      exact List.find?_eq_none.mp hfind s hs hgrants
    | some s =>
      refine Or.inr ⟨hnot, hinv.granted_iff.mpr ⟨s, List.mem_of_find?_eq_some hfind, ?_, rfl⟩⟩
      exact List.find?_some (p := fun s : CalendarSharing => s.grants account cal) hfind

end Runs

/-! ## The list -/

/-- The calls of a program. -/
abbrev SharingCalls : Type := List (Call SharingOp.Ret)

/-- The shares that grant a view. -/
def visible (shared : List (CalendarId × Permissions)) : List (CalendarId × Permissions) :=
  shared.filter (·.2.viewCalendar)

/-- The calls that fetch the shared calendars. -/
def fetches (shared : List (CalendarId × Permissions)) (found : List (Option Calendar)) :
    SharingCalls :=
  (shared.zip found).map fun x => ⟨.getCalendarById x.1.1, .ok x.2⟩

/-- The entries of the calendars that were found. -/
def entries (shared : List (CalendarId × Permissions)) (found : List (Option Calendar)) :
    List CalendarValue :=
  (shared.zip found).flatMap fun x => (x.2.map (calendarValue x.1.2)).toList

/-- The calls of a `Calendar/get` that succeeded, and what it lists. -/
def ListedBy (account : AccountId) (cs : SharingCalls) (values : List CalendarValue) : Prop :=
  ∃ owned shared found, found.length = (visible shared).length ∧
    cs = [⟨.listCalendars account, .ok owned⟩,
      ⟨.listAcceptedSharedCalendarIds account, .ok shared⟩] ++ fetches (visible shared) found ∧
    values = owned.map (calendarValue .owner) ++ entries (visible shared) found

/-- What is the case when a program returns. -/
def SharingAnswered (r : SharingRequest) (cs : SharingCalls) (a : SharingAnswer) : Prop :=
  ∀ account args values, r = .get account args → a = .ok values → ListedBy account cs values

section Specs

variable {cs : SharingCalls}

theorem addShared_spec (shared : List (CalendarId × Permissions)) (values : List CalendarValue) :
    (addShared shared values).run.Spec (fun _ _ => True)
      (Prog.IfOk fun cs' listed => ∃ found, found.length = (visible shared).length ∧
        cs' = cs ++ fetches (visible shared) found ∧
          listed = values ++ entries (visible shared) found) cs := by
  induction shared generalizing values cs with
  | nil =>
    refine Prog.spec_return.mpr (Prog.ifOk_ok.mpr ⟨[], rfl, ?_, ?_⟩)
    · exact (List.append_nil cs).symm
    · exact (List.append_nil values).symm
  | cons v shared ih =>
    obtain ⟨calendarId, perms⟩ := v
    cases hview : perms.viewCalendar with
    | false =>
      have hvisible : visible ((calendarId, perms) :: shared) = visible shared :=
        List.filter_cons_of_neg (by simp [hview])
      rw [hvisible, addShared, if_pos (by simp [hview])]
      exact ih values
    | true =>
      have hvisible : visible ((calendarId, perms) :: shared) =
          (calendarId, perms) :: visible shared := List.filter_cons_of_pos hview
      rw [hvisible, addShared, if_neg (by simp [hview])]
      refine Prog.spec_ask_bind.mpr ⟨trivial, fun c => ?_, fun e => Prog.ifOk_error⟩
      refine (ih _).mono (fun _ _ h => h) fun cs' res h listed hlisted => ?_
      obtain ⟨found, hlength, rfl, rfl⟩ := h listed hlisted
      refine ⟨c :: found, by simp [hlength], ?_, ?_⟩
      · simp [fetches]
      · simp [entries]

theorem calendarGet_spec (account args : AccountId) :
    (calendarGet account args).run.Spec (fun _ _ => True) (Prog.IfOk (ListedBy account)) [] := by
  unfold calendarGet
  refine Prog.spec_ite.mpr ⟨fun _ => Prog.spec_throw.mpr Prog.ifOk_error, fun _ => ?_⟩
  refine Prog.spec_ask_bind.mpr ⟨trivial, fun owned => ?_, fun e => Prog.ifOk_error⟩
  refine Prog.spec_ask_bind.mpr ⟨trivial, fun shared => ?_, fun e => Prog.ifOk_error⟩
  refine (addShared_spec shared _).mono (fun _ _ h => h) fun cs' res h listed hlisted => ?_
  obtain ⟨found, hlength, rfl, rfl⟩ := h listed hlisted
  exact ⟨owned, shared, found, hlength, rfl, rfl⟩

/-- **Every program** meets its specification. -/
theorem sharingHandle_spec (r : SharingRequest) :
    (sharingHandle r).Spec (fun _ _ => True) (SharingAnswered r) [] := by
  cases r with
  | call o =>
    refine Prog.spec_ask_bind.mpr ⟨trivial, fun v => ?_, fun e => ?_⟩
    · rintro account args values ⟨⟩
    · rintro account args values ⟨⟩
  | get account args =>
    refine (calendarGet_spec account args).mono (fun _ _ h => h) fun cs' res h => ?_
    rintro account' args' values ⟨⟩ rfl
    exact h values rfl

end Specs

section Reads

variable {past pre pre₀ : List SharingEvent} {db : SharingDb} {i : ℕ} {account : AccountId}
  {owned : List Calendar} {shared : List (CalendarId × Permissions)}
  {found : List (Option Calendar)} {values : List CalendarValue}

/-- The calls of a `Calendar/get`. -/
abbrev getCalls (account : AccountId) (owned : List Calendar)
    (shared : List (CalendarId × Permissions)) (found : List (Option Calendar)) : SharingCalls :=
  [⟨.listCalendars account, .ok owned⟩, ⟨.listAcceptedSharedCalendarIds account, .ok shared⟩] ++
    fetches (visible shared) found

theorem mem_getCalls {c : Call SharingOp.Ret} (h : c ∈ getCalls account owned shared found) :
    c = ⟨.listCalendars account, .ok owned⟩ ∨
      c = ⟨.listAcceptedSharedCalendarIds account, .ok shared⟩ ∨
        ∃ cal, c.op = .getCalendarById cal := by
  rcases List.mem_append.mp h with h | h
  · rcases List.mem_cons.mp h with h | h
    · exact .inl h
    · exact .inr (.inl (List.mem_singleton.mp h))
  · obtain ⟨x, -, rfl⟩ := List.mem_map.mp h
    exact .inr (.inr ⟨x.1.1, rfl⟩)

/-- **The first read** shows the account's calendars. -/
theorem owned_of_read (h : SharingPast past db)
    (hcs : callsOf i past = getCalls account owned shared found)
    (hread : ReadAt past i (.listCalendars account) pre) :
    (owned.map (·.id)).Nodup ∧ ∀ cal, cal ∈ owned.map (·.id) ↔ Owns pre account cal := by
  obtain ⟨e, post, hsplit, hthread, hop⟩ := hread
  have hat := h.at_of_split hsplit
  have hinv := sharingInv_past hat.earlier
  have hcall : e.call = ⟨.listCalendars account, .ok owned⟩ := by
    have hmem := hcs ▸ mem_callsOf.mpr ⟨e, by simp [hsplit], hthread, rfl⟩
    rcases mem_getCalls hmem with hcall | hcall | ⟨cal, hfetch⟩
    · exact hcall
    · rw [hcall] at hop
      cases hop
    · rw [hfetch] at hop
      cases hop
  have hpossible := hat.possible
  rw [hcall] at hpossible
  rcases SharingOp.exec_cases hpossible with ⟨e, he, -⟩ | ⟨a, hok, ha⟩
  · cases he
  obtain rfl := Except.ok.inj ha
  rw [(listCalendarsTx_ok hok).1]
  constructor
  · have hperm := (orderBy_perm (·.createdAt)
      (e.before.calendars.filter fun c => c.accountId = account)).map (·.id)
    exact hperm.nodup_iff.mpr (hinv.calendars.sublist (List.filter_sublist.map _))
  · intro cal
    rw [← hinv.owns, SharingDb.owns_iff]
    simp only [List.mem_map, mem_orderBy, List.mem_filter, decide_eq_true_eq]
    constructor
    · rintro ⟨c, ⟨hc, haccount⟩, hid⟩
      exact ⟨c, hc, hid, haccount⟩
    · rintro ⟨c, hc, hid, haccount⟩
      exact ⟨c, ⟨hc, haccount⟩, hid⟩

/-- **The second read** shows what is granted. -/
theorem shared_of_read (h : SharingPast past db)
    (hcs : callsOf i past = getCalls account owned shared found)
    (hread : ReadAt past i (.listAcceptedSharedCalendarIds account) pre) :
    (shared.map (·.1)).Nodup ∧ ∀ cal p, (cal, p) ∈ shared ↔ Granted pre account cal p := by
  obtain ⟨e, post, hsplit, hthread, hop⟩ := hread
  have hat := h.at_of_split hsplit
  have hinv := sharingInv_past hat.earlier
  have hcall : e.call = ⟨.listAcceptedSharedCalendarIds account, .ok shared⟩ := by
    have hmem := hcs ▸ mem_callsOf.mpr ⟨e, by simp [hsplit], hthread, rfl⟩
    rcases mem_getCalls hmem with hcall | hcall | ⟨cal, hfetch⟩
    · rw [hcall] at hop
      cases hop
    · exact hcall
    · rw [hfetch] at hop
      cases hop
  have hpossible := hat.possible
  rw [hcall] at hpossible
  rcases SharingOp.exec_cases hpossible with ⟨e, he, -⟩ | ⟨a, hok, ha⟩
  · cases he
  obtain rfl := Except.ok.inj ha
  rw [(listAcceptedSharedCalendarIdsTx_ok hok).1]
  constructor
  · rw [List.map_map]
    refine List.Nodup.map_on ?_ ((List.Nodup.of_map _ hinv.ids).filter _)
    intro s hs s' hs' hcal
    obtain ⟨hs, hto⟩ := List.mem_filter.mp hs
    obtain ⟨hs', hto'⟩ := List.mem_filter.mp hs'
    simp only [decide_eq_true_eq] at hto hto'
    exact hinv.grants_unique hs hs' (CalendarSharing.grants_iff.mpr ⟨rfl, hto⟩)
      (CalendarSharing.grants_iff.mpr ⟨hcal.symm, hto'⟩)
  · intro cal p
    rw [hinv.granted_iff]
    simp only [List.mem_map, List.mem_filter, decide_eq_true_eq, CalendarSharing.grants_iff,
      Prod.mk.injEq]
    constructor
    · rintro ⟨s, ⟨hs, hto⟩, hcal, hp⟩
      exact ⟨s, hs, ⟨hcal, hto⟩, hp⟩
    · rintro ⟨s, hs, ⟨hcal, hto⟩, hp⟩
      exact ⟨s, ⟨hs, hto⟩, hcal, hp⟩

/-- Where the two reads were made, and where the fetches. -/
theorem reads_of_calls (hcs : callsOf i past = getCalls account owned shared found) :
    ∃ pre₀ pre e post, ReadAt past i (.listCalendars account) pre₀ ∧ past = pre ++ e :: post ∧
      e.thread = i ∧ e.call.op = .listAcceptedSharedCalendarIds account ∧ pre₀ <+: pre ∧
        callsOf i post = fetches (visible shared) found := by
  have hfirst : callsOf i past = [] ++ ⟨.listCalendars account, .ok owned⟩ ::
      (⟨.listAcceptedSharedCalendarIds account, .ok shared⟩ ::
        fetches (visible shared) found) := hcs
  obtain ⟨pre₀, e₀, post₀, hsplit₀, hthread₀, hcall₀, -, hpost₀⟩ := split_of_callsOf hfirst
  have hsecond : callsOf i post₀ = [] ++ ⟨.listAcceptedSharedCalendarIds account, .ok shared⟩ ::
      fetches (visible shared) found := hpost₀
  obtain ⟨mid, e, post, rfl, hthread, hcall, -, hpost⟩ := split_of_callsOf hsecond
  refine ⟨pre₀, pre₀ ++ e₀ :: mid, e, post, ⟨e₀, _, hsplit₀, hthread₀, by rw [hcall₀]⟩, ?_, hthread,
    by rw [hcall], List.prefix_append _ _, hpost⟩
  rw [hsplit₀, List.append_assoc, List.cons_append]

end Reads
section Entries

variable {shared : List (CalendarId × Permissions)} {found : List (Option Calendar)}

/-- The entries, when every fetch found its calendar. -/
theorem map_entries (hlength : found.length = shared.length)
    (hfound : ∀ v c, (v, c) ∈ shared.zip found → ∃ k, c = some k ∧ k.id = v.1) :
    (entries shared found).map (fun v => (v.id, v.myRights)) =
      shared.map fun v => (v.1, rightsJson v.2) := by
  induction shared generalizing found with
  | nil => rfl
  | cons v shared ih =>
    rcases found with _ | ⟨c, found⟩
    · simp at hlength
    obtain ⟨k, rfl, hid⟩ := hfound v c (by simp)
    have hrest := ih (by simpa using hlength) fun v c hvc => hfound v c (by simp [hvc])
    rw [List.map_cons, ← hrest, ← hid]
    rfl

end Entries

section Answers

variable {past : List SharingEvent} {db : SharingDb} {i : ℕ} {account : AccountId}
  {owned : List Calendar} {shared : List (CalendarId × Permissions)}
  {found : List (Option Calendar)}

/-- Every fetch finds its calendar: its owner shared it, and calendars stay. -/
theorem entries_of_calls (h : SharingPast past db)
    (hcs : callsOf i past = getCalls account owned shared found)
    (hlength : found.length = (visible shared).length) :
    (entries (visible shared) found).map (fun v => (v.id, v.myRights)) =
      (visible shared).map fun v => (v.1, rightsJson v.2) := by
  obtain ⟨-, pre, e, post, -, hsplit, hthread, hop, -, hfetches⟩ := reads_of_calls hcs
  refine map_entries hlength fun v c hvc => ?_
  have hgranted : Granted pre account v.1 v.2 := by
    refine ((shared_of_read h hcs ⟨e, post, hsplit, hthread, hop⟩).2 _ _).mp ?_
    exact (List.mem_filter.mp (List.of_mem_zip hvc).1).1
  have hmem : (⟨.getCalendarById v.1, .ok c⟩ : Call SharingOp.Ret) ∈ callsOf i post :=
    hfetches ▸ List.mem_map.mpr ⟨(v, c), hvc, rfl⟩
  obtain ⟨x, hx, -, hcall⟩ := mem_callsOf.mp hmem
  obtain ⟨mid, rest, rfl⟩ := List.append_of_mem hx
  have hfetch : past = (pre ++ e :: mid) ++ x :: rest := by rw [hsplit]; simp
  have hat := h.at_of_split hfetch
  have hpossible := hat.possible
  rw [hcall] at hpossible
  rcases SharingOp.exec_cases hpossible with ⟨e, he, -⟩ | ⟨a, hok, ha⟩
  · cases he
  obtain rfl := Except.ok.inj ha
  rw [(getCalendarByIdTx_ok hok).1]
  -- the owner still has it when it is fetched
  obtain ⟨id, ty, since, ⟨pre', x', owner, s, rfl, -, -, howner⟩, -⟩ := hgranted
  have howns : Owns ((pre' ++ x' :: since) ++ e :: mid) owner v.1 := howner.append.append
  have hinv := sharingInv_past hat.earlier
  obtain ⟨k, hk, hid, -⟩ := SharingDb.owns_iff.mp ((hinv.owns _ _).mpr howns)
  have hkeyed := hinv.calendars
  have hfind := find?_eq_some_of_key hkeyed hk (q := fun c => c.id = v.1) (decide_eq_true hid)
    fun k' hk' => (of_decide_eq_true hk').trans hid.symm
  exact ⟨k, hfind, hid⟩

/-- What a successful `Calendar/get` lists, and its rights. -/
theorem values_of_calls (h : SharingPast past db) {values : List CalendarValue}
    (hlisted : ListedBy account (callsOf i past) values) :
    ∃ owned shared found, callsOf i past = getCalls account owned shared found ∧
      values.map (fun v => (v.id, v.myRights)) =
        owned.map (fun c => (c.id, rightsJson .owner)) ++
          (visible shared).map fun v => (v.1, rightsJson v.2) := by
  obtain ⟨owned, shared, found, hlength, hcs, rfl⟩ := hlisted
  refine ⟨owned, shared, found, hcs, ?_⟩
  rw [List.map_append, entries_of_calls h hcs hlength, List.map_map]
  rfl

end Answers

/-! ## The laws -/

theorem sharingRun_specified (moves : List SharingMove) :
    (sharingRun moves).Specified SharingOp.exec (fun _ _ _ => True) SharingAnswered ⟨[], []⟩ :=
  run_specified sharingHandle_spec moves specified_init

section Laws

variable {past : List SharingEvent} {db : SharingDb} {i : ℕ} {account : AccountId}
  {values : List CalendarValue}

/-- **The list agrees with the decision.** -/
theorem lists_of_past (h : SharingPast past db)
    (hlisted : ListedBy account (callsOf i past) values) :
    ∃ pre₀ pre, ReadAt past i (.listCalendars account) pre₀ ∧
      ReadAt past i (.listAcceptedSharedCalendarIds account) pre ∧
        Lists pre₀ pre account values := by
  obtain ⟨owned, shared, found, hcs, hvalues⟩ := values_of_calls h hlisted
  obtain ⟨pre₀, pre, e, post, hread₀, hsplit, hthread, hop, ⟨mid, rfl⟩, -⟩ := reads_of_calls hcs
  have hread : ReadAt past i (.listAcceptedSharedCalendarIds account) (pre₀ ++ mid) :=
    ⟨e, post, hsplit, hthread, hop⟩
  obtain ⟨-, howned⟩ := owned_of_read h hcs hread₀
  obtain ⟨-, hshared⟩ := shared_of_read h hcs hread
  have hmem : ∀ cal rights, (∃ v ∈ values, v.id = cal ∧ v.myRights = rights) ↔
      (Owns pre₀ account cal ∧ rights = rightsJson .owner) ∨
        ∃ p, Granted (pre₀ ++ mid) account cal p ∧ p.viewCalendar ∧ rights = rightsJson p := by
    intro cal rights
    have hin : (∃ v ∈ values, v.id = cal ∧ v.myRights = rights) ↔
        (cal, rights) ∈ values.map fun v => (v.id, v.myRights) := by simp
    rw [hin, hvalues, List.mem_append, ← howned]
    refine or_congr ?_ ?_
    · simp only [List.mem_map, Prod.mk.injEq]
      constructor
      · rintro ⟨c, hc, hid, hr⟩
        exact ⟨⟨c, hc, hid⟩, hr.symm⟩
      · rintro ⟨⟨c, hc, hid⟩, hr⟩
        exact ⟨c, hc, hid, hr.symm⟩
    · simp only [visible, List.mem_map, List.mem_filter, Prod.mk.injEq, Prod.exists, ← hshared]
      constructor
      · rintro ⟨_, p, ⟨hp, hview⟩, rfl, hr⟩
        exact ⟨p, hp, hview, hr.symm⟩
      · rintro ⟨p, hp, hview, hr⟩
        exact ⟨cal, p, ⟨hp, hview⟩, rfl, hr.symm⟩
  refine ⟨pre₀, pre₀ ++ mid, hread₀, hread, ?_, ?_, ?_⟩
  · exact fun cal hcal => (hmem cal _).mpr (.inl ⟨hcal, rfl⟩)
  · intro cal hnot
    constructor
    · rintro ⟨v, hv, hid⟩
      rcases (hmem cal v.myRights).mp ⟨v, hv, hid, rfl⟩ with ⟨hown, -⟩ | ⟨p, hp, hview, -⟩
      · exact absurd hown.append hnot
      · exact ⟨p, .inr ⟨hnot, hp⟩, hview⟩
    · rintro ⟨p, ⟨hown, -⟩ | ⟨-, hp⟩, hview⟩
      · exact absurd hown hnot
      · obtain ⟨v, hv, hid, -⟩ := (hmem cal (rightsJson p)).mpr (.inr ⟨p, hp, hview, rfl⟩)
        exact ⟨v, hv, hid⟩
  · intro v hv hnot
    rcases (hmem v.id v.myRights).mp ⟨v, hv, rfl, rfl⟩ with ⟨hown, -⟩ | ⟨p, hp, -, hr⟩
    · exact absurd hown.append hnot
    · exact ⟨p, .inr ⟨hnot, hp⟩, hr⟩

/-- **Each calendar once**: exactly if the account has accepted no share of its own. -/
theorem nodup_iff_of_past (h : SharingPast past db)
    (hlisted : ListedBy account (callsOf i past) values) :
    (values.map (·.id)).Nodup ↔ ∀ pre₀ pre, ReadAt past i (.listCalendars account) pre₀ →
      ReadAt past i (.listAcceptedSharedCalendarIds account) pre →
        ∀ cal p, Owns pre₀ account cal → ¬Granted pre account cal p := by
  obtain ⟨owned, shared, found, hcs, hvalues⟩ := values_of_calls h hlisted
  have hids : values.map (·.id) = owned.map (·.id) ++ (visible shared).map (·.1) := by
    have hfst := congrArg (List.map Prod.fst) hvalues
    simpa [Function.comp_def] using hfst
  rw [hids]
  constructor
  · intro hnd pre₀ pre hread₀ hread cal p hown hgranted
    have hmem₀ := ((owned_of_read h hcs hread₀).2 cal).mpr hown
    have hmem := ((shared_of_read h hcs hread).2 cal p).mpr hgranted
    obtain ⟨-, ty, -, -, -, rfl⟩ := hgranted
    refine (List.nodup_append.mp hnd).2.2 cal hmem₀ cal ?_ rfl
    exact List.mem_map.mpr ⟨_, List.mem_filter.mpr ⟨hmem, ty.permissions_viewCalendar⟩, rfl⟩
  · intro hnone
    obtain ⟨pre₀, pre, e, post, hread₀, hsplit, hthread, hop, -, -⟩ := reads_of_calls hcs
    have hread : ReadAt past i (.listAcceptedSharedCalendarIds account) pre :=
      ⟨e, post, hsplit, hthread, hop⟩
    obtain ⟨hnd₀, howned⟩ := owned_of_read h hcs hread₀
    obtain ⟨hnd, hshared⟩ := shared_of_read h hcs hread
    refine List.nodup_append.mpr ⟨hnd₀, hnd.sublist (List.filter_sublist.map _), ?_⟩
    rintro cal hcal _ hcal' rfl
    obtain ⟨⟨_, p⟩, hp, rfl⟩ := List.mem_map.mp hcal'
    exact hnone pre₀ pre hread₀ hread _ p ((howned _).mp hcal)
      ((hshared _ _).mp (List.mem_filter.mp hp).1)

end Laws

/-- **Calendar access is decided by what owner and recipient did**, and the list agrees, in
every run; each calendar is listed once exactly if no account has accepted a share of its own. -/
theorem sharingLaws_iff (moves : List SharingMove) :
    SharingLaws (sharingRun moves) ↔ NoneOwn (sharingRun moves) := by
  have hspec := sharingRun_specified moves
  have hlisted : ∀ i account args values,
      (sharingRun moves).request i = some (.get account args) →
        (sharingRun moves).answer i = some (.ok values) →
          ListedBy account (callsOf i (sharingRun moves).past) values := by
    intro i account args values hr ha
    obtain ⟨r, hr', hanswered⟩ := hspec.answered ha
    obtain rfl := Option.some.inj (hr.symm.trans hr')
    exact hanswered account args values rfl rfl
  constructor
  · intro hlaws i account args values hr ha
    exact (nodup_iff_of_past hspec.past (hlisted i account args values hr ha)).mp
      (hlaws.once i account args values hr ha)
  · intro hnone
    refine ⟨?_, ?_, ?_⟩
    · intro pre e post account cal res hsplit hcall
      exact decision_of_access (hspec.past.at_of_split hsplit) hcall
    · intro i account args values hr ha
      exact lists_of_past hspec.past (hlisted i account args values hr ha)
    · intro i account args values hr ha
      exact (nodup_iff_of_past hspec.past (hlisted i account args values hr ha)).mpr
        (hnone i account args values hr ha)

/-! ## A share with oneself -/

/-- An account creates a calendar, shares it with itself, accepts, and lists its calendars. -/
def selfShare : List SharingMove :=
  [.start (.call (.createCalendar ⟨1⟩ "Work" none)), .call 0 { calendarId := ⟨2⟩ },
    .start (.call (.shareCalendar ⟨2⟩ ⟨1⟩ ⟨1⟩ .sharing)), .call 1 { sharingId := "s" },
    .start (.call (.acceptSharing "s" ⟨1⟩)), .call 2 {},
    .start (.get ⟨1⟩ ⟨1⟩), .call 3 {}, .call 3 {}, .call 3 {}]

/-- **The calendar is listed twice.** -/
theorem not_sharingLaws_selfShare : ¬SharingLaws (sharingRun selfShare) := by
  intro h
  have hnd := h.once 3 ⟨1⟩ ⟨1⟩ [calendarValue .owner ⟨⟨2⟩, ⟨1⟩, "Work", none, 0, 0⟩,
    calendarValue .sharing ⟨⟨2⟩, ⟨1⟩, "Work", none, 0, 0⟩] rfl rfl
  exact absurd hnd (by decide)

end Owney.Sharing
