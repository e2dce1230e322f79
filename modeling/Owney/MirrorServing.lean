import Owney.MirrorCopies

/-!
# What a page of a federated calendar has

`calendarSync_page`: the reply of the serving side lists the events of one page, and the position
it ends with.
-/

namespace Owney

open Programs Tables

variable {Cert : Type} {M : MirrorCrates Cert} {L : Locale} {S : Share Cert}

/-! ## Positions -/

/-- Where a page says that the next one begins. -/
def SyncPage.position (page : SyncPage) : Position := toLex (page.nextSince, page.nextAfter)

/-- Where a stored token says that the next pull begins. -/
def cursor (token : Option String) : Position := toLex (parseCursor token)

/-! ## The events of a page -/

section Page

variable {db : SchedulingDb} {calendarId : CalendarId} {since : ℤ} {after : String} {n : ℕ}
  {e : CalendarEvent}

theorem mem_servedAfter :
    (e ∈ db.events.filter fun e => e.calendarId = calendarId ∧
      (true = false ∨ e.origin ≠ some "remote") ∧
        (e.updatedAt > since ∨ (e.updatedAt = since ∧ e.id.text > after))) ↔
      e ∈ db.events ∧ e.Served calendarId ∧ toLex (since, after) < e.position := by
  rw [List.mem_filter, decide_eq_true_eq, CalendarEvent.Served, CalendarEvent.position,
    Prod.Lex.toLex_lt_toLex]
  simp only [Bool.true_eq_false, false_or, gt_iff_lt, @eq_comm _ e.updatedAt since, and_assoc]

theorem of_mem_page (h : e ∈ listCalendarEventsPage db calendarId since after n true) :
    e ∈ db.events ∧ e.Served calendarId ∧ toLex (since, after) < e.position := by
  have hmem := (@mem_orderBy _ Position _ _ _ _).mp (List.mem_of_mem_take h)
  exact mem_servedAfter.mp hmem

/-- The last event of a page stands after the others. -/
theorem le_last {l : CalendarEvent}
    (hlast : (listCalendarEventsPage db calendarId since after n true).getLast? = some l)
    (he : e ∈ listCalendarEventsPage db calendarId since after n true) :
    e.position ≤ l.position := by
  have hpair := (pairwise_orderBy (fun e : CalendarEvent => e.position) (db.events.filter
    fun e => e.calendarId = calendarId ∧ (true = false ∨ e.origin ≠ some "remote") ∧
      (e.updatedAt > since ∨ (e.updatedAt = since ∧ e.id.text > after)))).sublist
        (List.take_sublist n _)
  obtain ⟨init, hinit⟩ := List.getLast?_eq_some_iff.mp hlast
  rw [hinit] at he
  rw [show List.take n _ = init ++ [l] from hinit, List.pairwise_append] at hpair
  rcases List.mem_append.mp he with he | he
  · exact hpair.2.2 e he l List.mem_cons_self
  · rw [List.mem_singleton.mp he]

end Page

/-! ## The reply -/

theorem remoteUids_of_mapM {seed : ℕ} {events : List CalendarEvent} {items : List SealedItem}
    (h : events.mapM (S.item M seed) = some items) :
    items.map (·.remoteUid) = events.map (·.id.text) := by
  induction events generalizing items with
  | nil =>
    obtain rfl := Option.some.inj h
    rfl
  | cons e events ih =>
    rw [List.mapM_cons] at h
    simp only [Option.bind_eq_bind, Option.bind_eq_some_iff, Option.pure_def,
      Option.some.injEq] at h
    obtain ⟨item, hitem, rest, hrest, rfl⟩ := h
    obtain ⟨sealed, -, rfl⟩ := Option.map_eq_some_iff.mp hitem
    rw [List.map_cons, List.map_cons, ih hrest]

/-- The events that a page lists, in order, and the position it ends with. -/
structure PageLists (db : SchedulingDb) (S : Share Cert) (since : ℤ) (after : String)
    (page : SyncPage) (events : List CalendarEvent) : Prop where
  events_eq : events = listCalendarEventsPage db S.calendarId since after maxEventsPerPage true
  uids : page.items.map (·.remoteUid) = events.map (·.id.text)
  position : page.position = (events.getLast?.map (·.position)).getD (toLex (since, ""))
  hasMore : page.hasMore = decide (events.length = maxEventsPerPage)

/-- **A page of the serving side.** -/
theorem calendarSync_page {seed : ℕ} {db : SchedulingDb} {since : ℤ} {after : String}
    {page : SyncPage} (h : calendarSync M S seed db since after = .page page) :
    ∃ events, PageLists db S since after page events := by
  unfold calendarSync at h
  dsimp only at h
  split at h
  · cases h
  · rename_i items hitems
    obtain rfl := PeerReply.page.inj h
    refine ⟨_, rfl, remoteUids_of_mapM hitems, ?_, rfl⟩
    rcases hlast : (listCalendarEventsPage db S.calendarId since after maxEventsPerPage true).getLast?
      with _ | l
    · simp [SyncPage.position]
    · simp [SyncPage.position, CalendarEvent.position]

section PageLists

variable {db : SchedulingDb} {since : ℤ} {after : String} {page : SyncPage}
  {events : List CalendarEvent} {e : CalendarEvent}

/-- The items are those of the events. -/
theorem PageLists.item_of_event (h : PageLists db S since after page events) (he : e ∈ events) :
    ∃ item ∈ page.items, item.remoteUid = e.id.text := by
  have hmem : e.id.text ∈ events.map (·.id.text) := List.mem_map_of_mem he
  rw [← h.uids] at hmem
  exact List.mem_map.mp hmem

/-- The position is after every event of the page. -/
theorem PageLists.le_position (h : PageLists db S since after page events) (he : e ∈ events) :
    e.position ≤ page.position := by
  rcases hlast : events.getLast? with _ | l
  · rw [List.getLast?_eq_none_iff.mp hlast] at he
    cases he
  · rw [h.position, hlast, Option.map_some, Option.getD_some]
    rw [h.events_eq] at hlast he
    exact le_last hlast he

/-- A page that is not empty ends after the position asked for, and an empty one drops the id
of that position. -/
theorem PageLists.position_cases (h : PageLists db S since after page events) :
    (page.items ≠ [] ∧ toLex (since, after) < page.position) ∨
      (page.items = [] ∧ page.hasMore = false ∧ page.position = toLex (since, "")) := by
  have huids := h.uids
  rcases hlast : events.getLast? with _ | l
  · have hnil := List.getLast?_eq_none_iff.mp hlast
    rw [hnil, List.map_nil, List.map_eq_nil_iff] at huids
    refine .inr ⟨huids, ?_, ?_⟩
    · rw [h.hasMore, hnil]
      rfl
    · rw [h.position, hlast]
      rfl
  · have hl := List.mem_of_getLast? hlast
    refine .inl ⟨?_, ?_⟩
    · obtain ⟨item, hitem, -⟩ := h.item_of_event hl
      exact List.ne_nil_of_mem hitem
    · rw [h.position, hlast, Option.map_some, Option.getD_some]
      exact (of_mem_page (h.events_eq ▸ hl)).2.2

end PageLists

/-! ## Stored positions -/

end Owney
