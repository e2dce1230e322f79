import Owney.MirrorSpecs

/-!
# A peer touches only its own mirror

An event is tagged with its id, its calendar and where it came from; no call changes the
tag of an event, and a new event has a new id (`kept_of_effect`). So what an applier looked
up or created is still in the mirror of its federation when it writes
(`owned_of_looked`, `owned_of_created`), whatever other programs did in between, and
`mirrorOnly` follows for every call of every interleaving.
-/

namespace Owney

open Programs Tables

variable {Cert : Type} {M : MirrorCrates Cert} {L : Locale} {S : Share Cert}

/-! ## What is promised -/

/-- The event was synced in through the federation, into its calendar. -/
def CalendarFederation.Mirrors (f : CalendarFederation) (e : CalendarEvent) : Prop :=
  e.origin = some "remote" ∧ e.originFederation = some f.id ∧ e.calendarId = f.calendarId

instance (f : CalendarFederation) (e : CalendarEvent) : Decidable (f.Mirrors e) :=
  inferInstanceAs (Decidable (_ ∧ _))

/-- The call is one of `apply_one`. -/
def MirrorOp.Applies : MirrorOp → Prop
  | .federationLocalEvent .. | .updateRemoteCalendarEvent .. | .createRemoteCalendarEvent ..
  | .setFederationEventMap .. => True
  | _ => False

/-- The call is one of `apply_one` for a federation; an update is for the federation the
event was just looked up in. -/
def MirrorOp.AppliesFor (cs : MirrorCalls Cert) (federationId : String) : MirrorOp → Prop
  | .federationLocalEvent id _ | .createRemoteCalendarEvent _ id _
  | .setFederationEventMap id .. => id = federationId
  | .updateRemoteCalendarEvent id _ => ∃ remoteUid, JustLooked cs federationId remoteUid (some id)
  | _ => False

/-- Nothing but events in the mirror and entries of the federation's map was changed. -/
structure MirrorOnly (f : CalendarFederation) (db db' : MirrorDb) : Prop where
  events : (db'.events.filter fun e => ¬f.Mirrors e) = db.events.filter fun e => ¬f.Mirrors e
  eventMap : (db'.eventMap.filter fun m => m.federationId ≠ f.id) =
    db.eventMap.filter fun m => m.federationId ≠ f.id
  federations : db'.federations = db.federations
  calendars : db'.calendars = db.calendars
  pages : db'.pages = db.pages
  bookings : db'.bookings = db.bookings

/-- Appliers stay in the mirror of their federation, and so does the map. -/
structure MirrorSys.StaysInMirror (s : MirrorSys Cert) : Prop where
  applied : ∀ pre e post, s.past = pre ++ e :: post → e.call.op.Applies →
    ∃ f ∈ e.before.db.federations, e.call.op.AppliesFor (callsOf e.thread pre) f.id ∧
      MirrorOnly f e.before.db e.after.db
  mapped : ∀ m ∈ s.world.db.eventMap, ∃ f ∈ s.world.db.federations, f.id = m.federationId ∧
    ∃ e ∈ s.world.db.events, e.id = m.localEventId ∧ f.Mirrors e

/-! ## Tags -/

/-- What no call changes of an event. -/
def CalendarEvent.tag (e : CalendarEvent) : EventId × CalendarId × Option String × Option String :=
  (e.id, e.calendarId, e.origin, e.originFederation)

@[simp] theorem CalendarEvent.tag_patch (e : CalendarEvent) (patch : EventPatch) (now : ℤ) :
    (e.patch patch now).tag = e.tag := rfl

@[simp] theorem CalendarEvent.tag_synced (e : CalendarEvent) (new : NewEvent) :
    (e.synced new).tag = e.tag := rfl

theorem CalendarFederation.Mirrors.of_tag {f f' : CalendarFederation} {e e' : CalendarEvent}
    (h : f.Mirrors e) (htag : e'.tag = e.tag) (hid : f'.id = f.id)
    (hcal : f'.calendarId = f.calendarId) : f'.Mirrors e' := by
  simp only [CalendarEvent.tag, Prod.mk.injEq] at htag
  obtain ⟨-, hcalendar, horigin, hfederation⟩ := htag
  obtain ⟨h₁, h₂, h₃⟩ := h
  exact ⟨horigin.trans h₁, by rw [hfederation, h₂, hid], by rw [hcalendar, h₃, hcal]⟩

/-- Every event was there before or has a new id, mapped events are still there, and so are
the federations with their calendars. -/
structure EventsKept (w w' : MirrorWorld) : Prop where
  old : ∀ e' ∈ w'.db.events, (∃ e ∈ w.db.events, e.tag = e'.tag) ∨
    e'.id ∉ w.drawn ∧ e'.id ∈ w'.drawn
  mapped : ∀ e ∈ w.db.events, e.id ∈ w.db.eventMap.map (·.localEventId) →
    ∃ e' ∈ w'.db.events, e'.tag = e.tag
  rows : ∀ f ∈ w.db.federations, ∃ f' ∈ w'.db.federations,
    f'.id = f.id ∧ f'.calendarId = f.calendarId

theorem map_tag_update {p : CalendarEvent → Bool} {g : CalendarEvent → CalendarEvent}
    (hg : ∀ e, (g e).tag = e.tag) (events : List CalendarEvent) :
    (update p g events).map (·.tag) = events.map (·.tag) :=
  map_update _ hg events

theorem exists_of_map_tag {events events' : List CalendarEvent}
    (h : events'.map (·.tag) = events.map (·.tag)) {e : CalendarEvent} (he : e ∈ events') :
    ∃ e₀ ∈ events, e₀.tag = e.tag := by
  have hmem : e.tag ∈ events'.map (·.tag) := List.mem_map_of_mem he
  rw [h] at hmem
  exact List.mem_map.mp hmem

/-- A row of an updated table of federations. -/
theorem exists_of_update {p : CalendarFederation → Bool}
    {g : CalendarFederation → CalendarFederation}
    (hg : ∀ f, (g f).id = f.id ∧ (g f).calendarId = f.calendarId)
    {federations : List CalendarFederation} {f : CalendarFederation} (hf : f ∈ federations) :
    ∃ f' ∈ update p g federations, f'.id = f.id ∧ f'.calendarId = f.calendarId := by
  refine ⟨_, mem_update.mpr ⟨f, hf, rfl⟩, ?_⟩
  split
  · exact hg f
  · exact ⟨rfl, rfl⟩

/-- A calendar call on the larger database. -/
theorem schedulingStep_cases (L : Locale) (db : MirrorDb) (o : SchedulingOp) :
    (db.schedulingStep L o).federations = db.federations ∧
      (db.schedulingStep L o).eventMap = db.eventMap ∧
      EventsChange o db.events (db.schedulingStep L o).events ∧
      ∀ io id, o = .deleteCalendarEvent io id → id ∈ db.eventMap.map (·.localEventId) →
        (db.schedulingStep L o).events = db.events := by
  have hchange := schedulingStep_events L db.toSchedulingDb o
  cases o with
  | deleteCalendarEvent io id =>
    by_cases hid : id ∈ db.eventMap.map (·.localEventId)
    · rw [MirrorDb.schedulingStep, if_pos hid]
      exact ⟨rfl, rfl, .same, fun _ _ _ _ => rfl⟩
    · rw [MirrorDb.schedulingStep, if_neg hid]
      refine ⟨rfl, rfl, hchange, fun io' id' ho hmem => absurd hmem ?_⟩
      obtain ⟨-, rfl⟩ := SchedulingOp.deleteCalendarEvent.inj ho
      exact hid
  | createCalendar | createCalendarEvent | createRemoteCalendarEvent | updateCalendarEvent
  | updateRemoteCalendarEvent | createSchedulingPage | updateSchedulingPage | bookSlot =>
    exact ⟨rfl, rfl, hchange, fun _ _ ho => nomatch ho⟩

/-- **One call.** It keeps tags. -/
theorem kept_of_effect {w w' : MirrorWorld} {call : Call (MirrorOp.Ret Cert)}
    (h : MirrorEffect L w call w') : EventsKept w w' := by
  have hsame : ∀ l : List CalendarEvent, w'.db.events = l →
      l.map (·.tag) = w.db.events.map (·.tag) →
      (∀ e' ∈ w'.db.events, ∃ e ∈ w.db.events, e.tag = e'.tag) ∧
        ∀ e ∈ w.db.events, ∃ e' ∈ w'.db.events, e'.tag = e.tag := by
    rintro l rfl htags
    exact ⟨fun e' => exists_of_map_tag htags, fun e => exists_of_map_tag htags.symm⟩
  cases h with
  | kept quiet db =>
    obtain ⟨hold, hmapped⟩ := hsame w.db.events (by rw [db]) rfl
    exact ⟨fun e' he' => .inl (hold e' he'), fun e he _ => hmapped e he,
      fun f hf => ⟨f, by rwa [db], rfl, rfl⟩⟩
  | mapped made event db =>
    obtain ⟨hold, hmapped⟩ := hsame w.db.events (by rw [db]) rfl
    exact ⟨fun e' he' => .inl (hold e' he'), fun e he _ => hmapped e he,
      fun f hf => ⟨f, by rwa [db], rfl, rfl⟩⟩
  | created made undrawn new db drawn =>
    refine ⟨fun e' he' => ?_, fun e he _ => ⟨e, ?_, rfl⟩, fun f hf => ⟨f, by rwa [db], rfl, rfl⟩⟩
    · rw [db] at he'
      rcases List.mem_append.mp he' with he' | he'
      · exact .inl ⟨e', he', rfl⟩
      · obtain rfl := List.mem_singleton.mp he'
        exact .inr ⟨undrawn, by rw [drawn]; exact List.mem_cons_self⟩
    · rw [db]
      exact List.mem_append_left _ he
  | updated made db =>
    obtain ⟨hold, hmapped⟩ := hsame _ (congrArg (·.events) db)
      (map_tag_update (fun e => e.tag_synced _) _)
    exact ⟨fun e' he' => .inl (hold e' he'), fun e he _ => hmapped e he,
      fun f hf => ⟨f, by rwa [db], rfl, rfl⟩⟩
  | stored made db =>
    obtain ⟨hold, hmapped⟩ := hsame w.db.events (by rw [db]) rfl
    refine ⟨fun e' he' => .inl (hold e' he'), fun e he _ => hmapped e he, fun f hf => ?_⟩
    rw [db]
    dsimp only
    refine exists_of_update (fun f => ?_) hf
    exact ⟨rfl, rfl⟩
  | answered made db =>
    obtain ⟨hold, hmapped⟩ := hsame w.db.events (by rw [db]) rfl
    refine ⟨fun e' he' => .inl (hold e' he'), fun e he _ => hmapped e he, fun f hf => ?_⟩
    rw [db]
    dsimp only
    refine exists_of_update (fun f => ?_) hf
    exact ⟨rfl, rfl⟩
  | inserted made new calendar db =>
    obtain ⟨hold, hmapped⟩ := hsame w.db.events (by rw [db]) rfl
    refine ⟨fun e' he' => .inl (hold e' he'), fun e he _ => hmapped e he, fun f hf => ⟨f, ?_, rfl, rfl⟩⟩
    rw [db]
    exact List.mem_append_left _ hf
  | @scheduled o made undrawn db drawn =>
    obtain ⟨hfeds, -, hchange, hdelete⟩ := schedulingStep_cases L w.db o
    rw [← db] at hfeds hchange hdelete
    refine ⟨?_, ?_, fun f hf => ⟨f, by rwa [hfeds], rfl, rfl⟩⟩
    · intro e' he'
      generalize hevents : w'.db.events = events' at hchange he'
      cases hchange with
      | same => exact .inl ⟨e', he', rfl⟩
      | added fresh new origin clock =>
        rcases List.mem_append.mp he' with he' | he'
        · exact .inl ⟨e', he', rfl⟩
        · obtain rfl := List.mem_singleton.mp he'
          exact .inr ⟨undrawn _ fresh, by simp [drawn, fresh]⟩
      | patched made =>
        exact .inl (exists_of_map_tag (map_tag_update (fun e => e.tag_patch _ _) _) he')
      | synced made =>
        exact .inl (exists_of_map_tag (map_tag_update (fun e => e.tag_synced _) _) he')
      | deleted made => exact .inl ⟨e', (List.mem_filter.mp he').1, rfl⟩
    · intro e he hmap
      generalize hevents : w'.db.events = events' at hchange hdelete
      cases hchange with
      | same => exact ⟨e, he, rfl⟩
      | added fresh new origin clock => exact ⟨e, List.mem_append_left _ he, rfl⟩
      | patched made =>
        exact exists_of_map_tag (map_tag_update (fun e => e.tag_patch _ _) _).symm he
      | synced made =>
        exact exists_of_map_tag (map_tag_update (fun e => e.tag_synced _) _).symm he
      | @deleted io id made =>
        by_cases hid : e.id = id
        · rw [hid] at hmap
          rw [hdelete io id made hmap]
          exact ⟨e, he, rfl⟩
        · exact ⟨e, List.mem_filter.mpr ⟨he, by simpa using hid⟩, rfl⟩

/-! ## What stays known of an event and of a row -/

/-- Wherever an event has this id, it is in the mirror of the federation. -/
def OwnMirror (f : CalendarFederation) (id : EventId) (w : MirrorWorld) : Prop :=
  id ∈ w.drawn ∧ ∀ e ∈ w.db.events, e.id = id → f.Mirrors e

/-- The row is still there, with its calendar. -/
def RowKept (f : CalendarFederation) (w : MirrorWorld) : Prop :=
  ∃ f' ∈ w.db.federations, f'.id = f.id ∧ f'.calendarId = f.calendarId

theorem OwnMirror.step {f : CalendarFederation} {id : EventId} {w w' : MirrorWorld}
    (h : OwnMirror f id w) (hkept : EventsKept w w') (hdrawn : w.drawn ⊆ w'.drawn) :
    OwnMirror f id w' := by
  refine ⟨hdrawn h.1, ?_⟩
  rintro e' he' rfl
  rcases hkept.old e' he' with ⟨e, he, htag⟩ | ⟨hnew, -⟩
  · exact (h.2 e he (congrArg Prod.fst htag)).of_tag htag.symm rfl rfl
  · exact absurd h.1 hnew

theorem RowKept.step {f : CalendarFederation} {w w' : MirrorWorld} (h : RowKept f w)
    (hkept : EventsKept w w') : RowKept f w' := by
  obtain ⟨f₁, hf₁, hid₁, hcal₁⟩ := h
  obtain ⟨f₂, hf₂, hid₂, hcal₂⟩ := hkept.rows f₁ hf₁
  exact ⟨f₂, hf₂, hid₂.trans hid₁, hcal₂.trans hcal₁⟩

/-! ## The invariant -/

/-- Ids are unique and drawn, and the map leads into the mirrors. -/
structure MirrorInv (w : MirrorWorld) : Prop where
  drawn : ∀ e ∈ w.db.events, e.id ∈ w.drawn
  events : (w.db.events.map (·.id)).Nodup
  federations : (w.db.federations.map (·.id)).Nodup
  mapped : ∀ m ∈ w.db.eventMap, ∃ f ∈ w.db.federations, f.id = m.federationId ∧
    ∃ e ∈ w.db.events, e.id = m.localEventId ∧ f.Mirrors e

namespace MirrorInv

variable {w w' : MirrorWorld} {call : Call (MirrorOp.Ret Cert)}

theorem empty : MirrorInv MirrorWorld.empty :=
  ⟨fun _ he => absurd he List.not_mem_nil, List.nodup_nil, List.nodup_nil,
    fun _ hm => absurd hm List.not_mem_nil⟩

theorem events_step (h : MirrorInv w) (he : MirrorEffect L w call w') :
    (w'.db.events.map (·.id)).Nodup := by
  cases he with
  | kept quiet db | mapped made event db | stored made db | answered made db | inserted made new calendar db =>
    rw [db]
    exact h.events
  | created made undrawn new db drawn =>
    rw [db]
    exact nodup_map_insert h.events new
  | updated made db =>
    rw [db]
    dsimp only
    rw [map_update]
    · exact h.events
    · exact fun _ => rfl
  | @scheduled o made undrawn db drawn =>
    obtain ⟨-, -, hchange, -⟩ := schedulingStep_cases L w.db o
    rw [← db] at hchange
    generalize w'.db.events = events' at hchange
    cases hchange with
    | same => exact h.events
    | added fresh new origin clock => exact nodup_map_insert h.events new
    | patched made =>
      rw [map_update]
      · exact h.events
      · exact fun _ => rfl
    | synced made =>
      rw [map_update]
      · exact h.events
      · exact fun _ => rfl
    | deleted made => exact h.events.sublist (List.filter_sublist.map _)

theorem federations_step (h : MirrorInv w) (he : MirrorEffect L w call w') :
    (w'.db.federations.map (·.id)).Nodup := by
  cases he with
  | kept quiet db | mapped made event db | created made undrawn new db drawn | updated made db =>
    rw [db]
    exact h.federations
  | stored made db | answered made db =>
    rw [db]
    dsimp only
    rw [map_update]
    · exact h.federations
    · exact fun _ => rfl
  | inserted made new calendar db =>
    rw [db]
    exact nodup_map_insert h.federations new
  | @scheduled o made undrawn db drawn =>
    rw [db, (schedulingStep_cases L w.db o).1]
    exact h.federations

/-- Entries that were there still lead into the mirrors. -/
theorem mapped_kept (h : MirrorInv w) (hkept : EventsKept w w') :
    ∀ m ∈ w.db.eventMap, ∃ f ∈ w'.db.federations, f.id = m.federationId ∧
      ∃ e ∈ w'.db.events, e.id = m.localEventId ∧ f.Mirrors e := by
  intro m hm
  obtain ⟨f, hf, hfid, e, he, heid, hmirror⟩ := h.mapped m hm
  obtain ⟨f', hf', hid, hcal⟩ := hkept.rows f hf
  obtain ⟨e', he', htag⟩ := hkept.mapped e he (List.mem_map.mpr ⟨m, hm, heid.symm⟩)
  exact ⟨f', hf', hid.trans hfid, e', he', (congrArg Prod.fst htag).trans heid,
    hmirror.of_tag htag hid hcal⟩

end MirrorInv

section Past

variable {past : List (MirrorEvent Cert)} {w : MirrorWorld} {e : MirrorEvent Cert} {i : ℕ}
  {f : CalendarFederation} {federationId remoteUid : String} {id : EventId}

theorem at_mirrorEffect (hat : MirrorAt M L S past e) :
    MirrorEffect L e.before e.call e.after := mirror_effect hat.possible

theorem at_kept (hat : MirrorAt M L S past e) :
    EventsKept e.before e.after ∧ e.before.drawn ⊆ e.after.drawn :=
  ⟨kept_of_effect (mirror_effect hat.possible), drawn_mono hat.possible⟩

theorem rowKept_of_mem (hf : f ∈ w.db.federations) : RowKept f w := ⟨f, hf, rfl, rfl⟩

/-- A row that a program read is still there. -/
theorem rowKept_of_read (h : MirrorPast M L S past w) (hread : RowRead (callsOf i past) f) :
    RowKept f w := by
  have hlater : ∀ x ∈ past, f ∈ x.before.db.federations → RowKept f w := by
    intro x hx hf
    obtain ⟨pre, post, rfl, hat⟩ := h.exists_at hx
    exact h.persists rfl (fun _ _ _ _ hat hrow => hrow.step (at_kept hat).1)
      ((rowKept_of_mem hf).step (at_kept hat).1)
  rcases hread with ⟨id, hcall⟩ | ⟨fs, hcall, hf⟩
  · obtain ⟨x, hx, -, hxc⟩ := mem_callsOf.mp hcall
    obtain ⟨pre, post, -, hat⟩ := h.exists_at hx
    have hexec := hat.possible
    rw [hxc] at hexec
    have hfind := (MirrorWorld.call_query (Option.some.inj hexec)).2 _ rfl
    exact hlater x hx (List.mem_of_find?_eq_some hfind)
  · obtain ⟨x, hx, -, hxc⟩ := mem_callsOf.mp hcall
    obtain ⟨pre, post, -, hat⟩ := h.exists_at hx
    have hexec := hat.possible
    rw [hxc] at hexec
    have hlist := (MirrorWorld.call_query (Option.some.inj hexec)).2 _ rfl
    rw [← hlist, mem_orderBy] at hf
    exact hlater x hx (List.mem_filter.mp hf).1

/-- What an applier found is in the mirror, now as then. -/
theorem owned_of_looked (h : MirrorPast M L S past w)
    (hinv : ∀ pre x post, past = pre ++ x :: post → MirrorInv x.before)
    (hcall : ⟨.federationLocalEvent federationId remoteUid, .ok (some id)⟩ ∈ callsOf i past) :
    ∃ f, f.id = federationId ∧ RowKept f w ∧ OwnMirror f id w := by
  obtain ⟨x, hx, -, hxc⟩ := mem_callsOf.mp hcall
  obtain ⟨pre, post, rfl, hat⟩ := h.exists_at hx
  have hxinv := hinv pre x post rfl
  have hexec := hat.possible
  rw [hxc] at hexec
  have hfind := (MirrorWorld.call_query (Option.some.inj hexec)).2 _ rfl
  obtain ⟨m, hm, rfl⟩ := Option.map_eq_some_iff.mp hfind
  have hkey := List.find?_some hm
  rw [decide_eq_true_eq] at hkey
  obtain ⟨f, hf, hfid, ev, hev, hevid, hmirror⟩ := hxinv.mapped m (List.mem_of_find?_eq_some hm)
  have hown : OwnMirror f m.localEventId x.before := by
    refine ⟨hevid ▸ hxinv.drawn ev hev, fun e' he' hid => ?_⟩
    rwa [eq_of_key_eq hxinv.events he' hev (hid.trans hevid.symm)]
  obtain ⟨hkept, hdrawn⟩ := at_kept hat
  refine ⟨f, hfid.trans hkey.1, ?_, ?_⟩
  · exact h.persists rfl (fun _ _ _ _ hat hrow => hrow.step (at_kept hat).1)
      ((rowKept_of_mem hf).step hkept)
  · exact h.persists (J := OwnMirror f m.localEventId) rfl
      (fun _ _ _ _ hat ho => ho.step (at_kept hat).1 (at_kept hat).2) (hown.step hkept hdrawn)

/-- What an applier created is in the mirror, now as then. -/
theorem owned_of_created (h : MirrorPast M L S past w) {payload : EventPayload}
    (hcall : ⟨.createRemoteCalendarEvent f.calendarId f.id payload, .ok id⟩ ∈ callsOf i past) :
    OwnMirror f id w := by
  obtain ⟨x, hx, -, hxc⟩ := mem_callsOf.mp hcall
  obtain ⟨pre, post, rfl, hat⟩ := h.exists_at hx
  refine h.persists (J := OwnMirror f id) rfl
    (fun _ _ _ _ hat ho => ho.step (at_kept hat).1 (at_kept hat).2) ?_
  have hexec := hat.possible
  rw [hxc] at hexec
  simp only [MirrorOp.exec, Option.ite_none_left_eq_some] at hexec
  rcases MirrorWorld.call_cases (Option.some.inj hexec.2) with ⟨err, herr, -⟩ | ⟨a, db, hok, ha, hdb⟩
  · cases herr
  simp only [onScheduling_eq_ok, createRemoteCalendarEventTx, Tx.bind_eq_ok, Tx.pure_eq_ok] at hok
  obtain ⟨_, ⟨_, _, hinsert, rfl, rfl⟩, rfl⟩ := hok
  obtain ⟨hnew, -, rfl⟩ := insertEventTx_ok hinsert
  obtain rfl := Except.ok.inj ha
  rw [hdb]
  refine ⟨List.mem_cons_self, fun e' he' hid => ?_⟩
  rcases List.mem_append.mp he' with he' | he'
  · exact absurd (List.mem_map.mpr ⟨e', he', hid⟩) hnew
  · obtain rfl := List.mem_singleton.mp he'
    exact ⟨rfl, rfl, rfl⟩

/-- What stands last stands in the list. -/
theorem mem_of_justLooked {cs : MirrorCalls Cert} {found : Option EventId}
    (h : JustLooked cs federationId remoteUid found) :
    ⟨.federationLocalEvent federationId remoteUid, .ok found⟩ ∈ cs :=
  List.mem_of_getLast? h

/-- **The invariant** of every interleaving. -/
theorem mirrorInv_of_past (h : MirrorPast M L S past w) : MirrorInv w := by
  refine h.invariant (I := fun _ w => MirrorInv w) MirrorInv.empty fun past e hat hprior hinv => ?_
  have heffect := at_mirrorEffect hat
  obtain ⟨hkept, hdrawn⟩ := at_kept hat
  refine ⟨fun e' he' => ?_, hinv.events_step heffect, hinv.federations_step heffect, ?_⟩
  · rcases hkept.old e' he' with ⟨e₀, he₀, htag⟩ | ⟨-, hnew⟩
    · have hid : e₀.id = e'.id := congrArg Prod.fst htag
      exact hdrawn (hid ▸ hinv.drawn e₀ he₀)
    · exact hnew
  have hold := hinv.mapped_kept hkept
  cases heffect with
  | kept quiet db | created made undrawn new db drawn | updated made db | stored made db
  | answered made db | inserted made new calendar db =>
    intro m hm
    refine hold m ?_
    rw [db] at hm
    exact hm
  | @scheduled o made undrawn db drawn =>
    intro m hm
    rw [db, (schedulingStep_cases L e.before.db o).2.1] at hm
    exact hold m hm
  | @mapped federationId remoteUid id authorEmail now made event db =>
    have hguard := hat.guard
    rw [made] at hguard
    obtain ⟨f, hread, rfl, cs', payload, hcs, -⟩ := hguard
    have hown : OwnMirror f id e.before :=
      owned_of_created hat.earlier (hcs ▸ List.mem_append_right _ List.mem_cons_self)
    obtain ⟨f', hf', hid, hcal⟩ := rowKept_of_read hat.earlier hread
    obtain ⟨ev, hev, hevid⟩ := List.mem_map.mp event
    intro m hm
    have hmapped : ∀ m : FederationEventRow, m.federationId = f.id → m.localEventId = id →
        ∃ f ∈ e.after.db.federations, f.id = m.federationId ∧
          ∃ e' ∈ e.after.db.events, e'.id = m.localEventId ∧ f.Mirrors e' := by
      intro m hfed hlocal
      refine ⟨f', by rwa [db], hid.trans hfed.symm, ev, by rwa [db], hevid.trans hlocal.symm, ?_⟩
      exact (hown.2 ev hev hevid).of_tag rfl hid hcal
    rw [db] at hm
    rcases mem_upsert hm with rfl | ⟨m₀, hm₀, rfl⟩
    · exact hmapped _ rfl rfl
    · split
      · rename_i hkey
        rw [decide_eq_true_eq] at hkey
        exact hmapped _ hkey.1 rfl
      · exact hold m₀ hm₀

theorem MirrorOnly.refl (f : CalendarFederation) (db : MirrorDb) : MirrorOnly f db db :=
  ⟨rfl, rfl, rfl, rfl, rfl, rfl⟩

/-- An applier has read the row of its federation. -/
theorem appliesFor_of_before {r : MirrorRequest} {cs : MirrorCalls Cert} {o : MirrorOp}
    (h : MirrorBefore r cs o) (happlies : o.Applies) :
    ∃ f, RowRead cs f ∧ o.AppliesFor cs f.id := by
  cases o with
  | federationLocalEvent federationId remoteUid =>
    obtain ⟨f, hread, rfl⟩ := h
    exact ⟨f, hread, rfl⟩
  | updateRemoteCalendarEvent id payload =>
    obtain ⟨f, remoteUid, hread, hlook⟩ := h
    exact ⟨f, hread, remoteUid, hlook⟩
  | createRemoteCalendarEvent calendarId federationId payload =>
    obtain ⟨f, remoteUid, hread, -, rfl, -⟩ := h
    exact ⟨f, hread, rfl⟩
  | setFederationEventMap federationId remoteUid id authorEmail =>
    obtain ⟨f, hread, rfl, -⟩ := h
    exact ⟨f, hread, rfl⟩
  | _ => exact happlies.elim

/-- Two rows with one id have one calendar. -/
theorem mirrors_of_rows {f f' : CalendarFederation} {w : MirrorWorld} (hinv : MirrorInv w)
    (hkept : RowKept f w) (hf' : f' ∈ w.db.federations) (hid : f'.id = f.id) {ev : CalendarEvent}
    (h : f.Mirrors ev) : f'.Mirrors ev := by
  obtain ⟨f₀, hf₀, hid₀, hcal₀⟩ := hkept
  rw [eq_of_key_eq hinv.federations hf' hf₀ (hid.trans hid₀.symm)]
  exact h.of_tag rfl hid₀ hcal₀

/-- **One call of an applier** stays in the mirror of its federation. -/
theorem applied_mirrorOnly (hat : MirrorAt M L S past e) (happlies : e.call.op.Applies) :
    ∃ f ∈ e.before.db.federations, e.call.op.AppliesFor (callsOf e.thread past) f.id ∧
      MirrorOnly f e.before.db e.after.db := by
  have hinv := mirrorInv_of_past hat.earlier
  obtain ⟨f, hread, hfor⟩ := appliesFor_of_before hat.guard happlies
  obtain ⟨f', hf', hid, hcal⟩ := rowKept_of_read hat.earlier hread
  refine ⟨f', hf', hid ▸ hfor, ?_⟩
  cases at_mirrorEffect hat with
  | stored made db | scheduled made undrawn db drawn | inserted made new calendar db =>
    rw [made] at happlies
    exact happlies.elim
  | answered made db =>
    rcases made with ⟨id, made⟩ | ⟨id, accountId, status, made⟩ <;>
      · rw [made] at happlies
        exact happlies.elim
  | kept quiet db =>
    rw [db]
    exact MirrorOnly.refl _ _
  | @created calendarId federationId payload id now made undrawn new db drawn =>
    have hguard := hat.guard
    rw [made] at hguard hfor
    obtain ⟨g, remoteUid, hg, rfl, hgid, -⟩ := hguard
    obtain rfl : federationId = f.id := hfor
    have hmirror : f'.Mirrors
        ((payload.new g.calendarId id now).row (some "remote") (some f.id)) :=
      mirrors_of_rows hinv (rowKept_of_read hat.earlier hg) hf' (hid.trans hgid.symm)
        ⟨rfl, congrArg some hgid.symm, rfl⟩
    rw [db]
    refine ⟨?_, rfl, rfl, rfl, rfl, rfl⟩
    dsimp only
    rw [List.filter_append, List.filter_cons_of_neg (by simpa using hmirror), List.filter_nil,
      List.append_nil]
  | @updated id payload now made db =>
    rw [made] at hfor
    obtain ⟨remoteUid, hlook⟩ := hfor
    obtain ⟨g, hgid, hgrow, hown⟩ := owned_of_looked hat.earlier
      (fun pre x post hsplit => mirrorInv_of_past (hat.earlier.at_of_split hsplit).earlier)
      (mem_of_justLooked hlook)
    rw [db]
    refine ⟨?_, rfl, rfl, rfl, rfl, rfl⟩
    refine filter_update_of_mem ?_ fun ev hev hsel => ?_
    · exact fun ev => rfl
    have hsame : ev.id = id := (of_decide_eq_true hsel).1
    have hmirror := mirrors_of_rows hinv hgrow hf' (hid.trans hgid.symm) (hown.2 ev hev hsame)
    simpa using hmirror
  | @mapped federationId remoteUid id authorEmail now made event db =>
    rw [made] at hfor
    obtain rfl : federationId = f.id := hfor
    rw [db]
    refine ⟨rfl, ?_, rfl, rfl, rfl, rfl⟩
    refine filter_upsert_of_disjoint ?_ (fun m hm => ?_) ?_ _
    · exact fun m => rfl
    · have hfed : m.federationId = f.id := (of_decide_eq_true hm).1
      simpa using hfed.trans hid.symm
    · simpa using hid.symm

end Past

end Owney
