import Owney.MirrorSync

/-!
# What the programs of a mirror did before a call, and what a call does

* `mirrorHandle_spec` goes through each program once: an applier updates the event it has
  just looked up, creates one after it has just found none, and maps the one it has just
  created, always for a federation whose row it has read.
* `MirrorEffect` says what a call does to the tables of the subscriber.
-/

namespace Owney

open Programs Tables

variable {Cert : Type} {M : MirrorCrates Cert} {L : Locale} {S : Share Cert}

/-! ## Earlier calls -/

/-- The calls of a program. -/
abbrev MirrorCalls (Cert : Type) : Type := List (Call (MirrorOp.Ret Cert))

/-- The program read this row. -/
def RowRead (cs : MirrorCalls Cert) (f : CalendarFederation) : Prop :=
  (∃ id, ⟨.getFederation id, .ok (some f)⟩ ∈ cs) ∨
    ∃ fs, ⟨.listActiveFederations, .ok fs⟩ ∈ cs ∧ f ∈ fs

theorem RowRead.append {cs cs' : MirrorCalls Cert} {f : CalendarFederation} (h : RowRead cs f) :
    RowRead (cs ++ cs') f := by
  rcases h with ⟨id, h⟩ | ⟨fs, h, hf⟩
  · exact .inl ⟨id, List.mem_append_left _ h⟩
  · exact .inr ⟨fs, List.mem_append_left _ h, hf⟩

/-- The last call looked up the local event of `remoteUid`, with this result. -/
def JustLooked (cs : MirrorCalls Cert) (federationId remoteUid : String)
    (found : Option EventId) : Prop :=
  cs.getLast? = some ⟨.federationLocalEvent federationId remoteUid, .ok found⟩

/-- The last call created the event, after none was found for `remoteUid`. -/
def JustCreated (cs : MirrorCalls Cert) (f : CalendarFederation) (remoteUid : String)
    (id : EventId) : Prop :=
  ∃ cs' payload, cs = cs' ++ [⟨.createRemoteCalendarEvent f.calendarId f.id payload, .ok id⟩] ∧
    JustLooked cs' f.id remoteUid none

/-- What was learned before a call that writes. -/
def MirrorBefore (_ : MirrorRequest) (cs : MirrorCalls Cert) : MirrorOp → Prop
  | .federationLocalEvent federationId _ => ∃ f, RowRead cs f ∧ f.id = federationId
  | .updateRemoteCalendarEvent id _ => ∃ f remoteUid, RowRead cs f ∧
    JustLooked cs f.id remoteUid (some id)
  | .createRemoteCalendarEvent calendarId federationId _ => ∃ f remoteUid, RowRead cs f ∧
    f.calendarId = calendarId ∧ f.id = federationId ∧ JustLooked cs f.id remoteUid none
  | .setFederationEventMap federationId remoteUid id _ => ∃ f, RowRead cs f ∧
    f.id = federationId ∧ JustCreated cs f remoteUid id
  | .scheduling o => o.Local
  | _ => True

/-! ## The programs -/

section Specs

variable {r : MirrorRequest} {cs : MirrorCalls Cert} {f : CalendarFederation}

theorem spec_mirror {α : Type} {G : MirrorCalls Cert → MirrorOp → Prop}
    {Q : MirrorCalls Cert → α → Prop} {o : MirrorOp} {k : o.Ret Cert → MirrorProg Cert α} :
    (mirror o >>= k).Spec G Q cs ↔ G cs o ∧ ∀ r, (k r).Spec G Q (cs ++ [⟨o, r⟩]) := Iff.rfl

/-- The program keeps the promises of `MirrorBefore`. -/
abbrev KeepsOrder {α : Type} (r : MirrorRequest) (p : MirrorProg Cert α)
    (cs : MirrorCalls Cert) : Prop :=
  p.Spec (MirrorBefore r) (fun _ _ => True) cs

theorem storeItem_spec (hf : RowRead cs f) (remoteUid : String) (payload : EventPayload) :
    KeepsOrder r (storeItem f remoteUid payload) cs := by
  refine spec_mirror.mpr ⟨⟨f, hf, rfl⟩, ?_⟩
  rintro (e | _ | id)
  · trivial
  · refine spec_mirror.mpr ⟨⟨f, remoteUid, hf.append, rfl, rfl, by simp [JustLooked]⟩, ?_⟩
    rintro (e | id)
    · trivial
    · exact spec_mirror.mpr ⟨⟨f, hf.append.append, rfl, _, payload, rfl, by simp [JustLooked]⟩,
        fun _ => trivial⟩
  · exact spec_mirror.mpr ⟨⟨f, remoteUid, hf.append, by simp [JustLooked]⟩, fun _ => trivial⟩

theorem applyItems_spec {serverSecret : Cert} {peerDomain : String} {authorCert : Cert}
    (items : List SealedItem) (hf : RowRead cs f) (applied : ℕ) :
    KeepsOrder r (applyItems M serverSecret f peerDomain authorCert items applied) cs := by
  induction items generalizing cs applied with
  | nil => trivial
  | cons item items ih =>
    have hone : KeepsOrder r (applyOne M serverSecret f peerDomain authorCert item) cs := by
      unfold applyOne
      split
      · trivial
      · exact storeItem_spec hf _ _
    refine Prog.Spec.seq (J := fun _ _ => True) hone fun more result _ => ?_
    rcases result with e | _
    · exact ih hf.append applied
    · exact ih hf.append (applied + 1)

theorem applyPage_spec {serverSecret : Cert} (page : SyncPage) (hf : RowRead cs f) :
    KeepsOrder r (applyPage M serverSecret f page) cs := by
  unfold applyPage
  split
  · trivial
  split
  · split <;> trivial
  split
  · trivial
  · exact Prog.Spec.seq (J := fun _ _ => True) (applyItems_spec _ hf 0) fun _ _ _ => trivial

theorem pullFrom_spec {serverSecret : Cert} (rounds : ℕ) (hf : RowRead cs f) (since : ℤ)
    (after : String) (applied : ℕ) :
    KeepsOrder r (pullFrom M serverSecret f rounds since after applied) cs := by
  induction rounds generalizing cs since after applied with
  | zero => trivial
  | succ rounds ih =>
    refine spec_mirror.mpr ⟨trivial, ?_⟩
    rintro (text | code | page)
    · trivial
    · dsimp only
      split <;> trivial
    · refine Prog.Spec.seq (J := fun _ _ => True) (applyPage_spec page hf.append) ?_
      intro more result _
      rcases result with e | n
      · trivial
      dsimp only
      split
      · exact ih hf.append.append _ _ _
      · refine spec_mirror.mpr ⟨trivial, ?_⟩
        rintro (e | _) <;> trivial

theorem syncFederation_spec (rounds : ℕ) (hf : RowRead cs f) :
    KeepsOrder r (syncFederation M rounds f) cs := by
  unfold syncFederation
  split
  · trivial
  · trivial
  · refine spec_mirror.mpr ⟨trivial, ?_⟩
    rintro (e | serverSecret)
    · trivial
    · exact pullFrom_spec rounds hf.append _ _ _

/-- A call that is made inside `sync_federation`, or of a local user. -/
def MirrorOp.Bound : MirrorOp → Prop
  | .serverKeys | .getCapable .. | .federationLocalEvent .. | .updateRemoteCalendarEvent ..
  | .createRemoteCalendarEvent .. | .setFederationEventMap .. | .updateFederationSyncToken .. =>
    True
  | .scheduling o => ¬o.Local
  | _ => False

section Handle

variable {G : MirrorCalls Cert → MirrorOp → Prop}
  (hsync : ∀ (rounds : ℕ) {cs : MirrorCalls Cert} {f : CalendarFederation}, RowRead cs f →
    (syncFederation M rounds f).Spec G (fun _ _ => True) cs)
  (hfree : ∀ cs o, ¬MirrorOp.Bound o → G cs o)

include hsync hfree

theorem syncOne_of_sync (rounds : ℕ) (federationId : String) :
    (syncOne M rounds federationId).Spec G (fun _ _ => True) cs := by
  refine spec_mirror.mpr ⟨hfree _ _ id, ?_⟩
  rintro (e | _ | f)
  · trivial
  · trivial
  dsimp only
  split
  · exact hsync rounds (.inl ⟨federationId, List.mem_append_right _ (by simp)⟩)
  · trivial

theorem syncEach_of_sync (rounds : ℕ) (fs : List CalendarFederation)
    (hfs : ∀ f ∈ fs, RowRead cs f) (run : SyncRunStats) :
    (syncEach M rounds fs run).Spec G (fun _ _ => True) cs := by
  induction fs generalizing cs run with
  | nil => trivial
  | cons f fs ih =>
    have hrest : ∀ more, ∀ g ∈ fs, RowRead (cs ++ more) g := fun more g hg =>
      (hfs g (List.mem_cons_of_mem _ hg)).append
    refine Prog.Spec.seq (J := fun _ _ => True) (hsync rounds (hfs f List.mem_cons_self))
      fun more result _ => ?_
    rcases result with _ | e | n
    · trivial
    · refine spec_mirror.mpr ⟨hfree _ _ id, fun _ => ?_⟩
      rw [List.append_assoc]
      exact ih (hrest _) _
    · exact ih (hrest _) _

/-- What `sync_federation` keeps, every program keeps. -/
theorem mirrorHandle_of_sync (r : MirrorRequest) :
    (mirrorHandle M r).Spec G (fun _ _ => True) [] := by
  cases r with
  | poll rounds =>
    refine Prog.Spec.seq (J := fun _ _ => True) ?_ fun _ _ _ => trivial
    refine spec_mirror.mpr ⟨hfree _ _ id, ?_⟩
    rintro (e | fs)
    · trivial
    · refine Prog.Spec.seq (J := fun _ _ => True) ?_ fun _ _ _ => trivial
      exact syncEach_of_sync hsync hfree rounds fs
        (fun f hf => .inr ⟨fs, List.mem_append_right _ (by simp), hf⟩) _
  | notify rounds peer federationId =>
    refine Prog.Spec.seq (J := fun _ _ => True) ?_ fun _ _ _ => trivial
    refine spec_mirror.mpr ⟨hfree _ _ id, ?_⟩
    rintro (e | _ | f)
    · trivial
    · trivial
    · dsimp only
      split
      · exact syncOne_of_sync hsync hfree rounds federationId
      · trivial
  | scheduling o isLocal =>
    exact spec_mirror.mpr ⟨hfree _ _ fun h => h isLocal, fun _ => trivial⟩
  | insertFederation row | answerFederation id accountId status | serving o | tick secs =>
    exact spec_mirror.mpr ⟨hfree _ _ fun h => h, fun _ => trivial⟩

end Handle

/-- **Every program** keeps the order of its calls. -/
theorem mirrorHandle_spec (r : MirrorRequest) : KeepsOrder r (mirrorHandle M r) [] := by
  refine mirrorHandle_of_sync (fun rounds _ _ => syncFederation_spec rounds) (fun cs o ho => ?_) r
  cases o with
  | scheduling o => exact not_not.mp ho
  | federationLocalEvent | updateRemoteCalendarEvent | createRemoteCalendarEvent
  | setFederationEventMap => exact absurd trivial ho
  | _ => trivial

end Specs

/-! ## Calendar calls -/

/-- What a calendar call does to the events. -/
inductive EventsChange (o : SchedulingOp) (events : List CalendarEvent) :
    List CalendarEvent → Prop where
  | same : EventsChange o events events
  | added {e : CalendarEvent} (fresh : o.freshEvent = some e.id)
      (new : e.id ∉ events.map (·.id)) (origin : o.Local → e.origin = none)
      (clock : o.clock = some e.updatedAt) : EventsChange o events (events ++ [e])
  | patched {io : Io} {id : EventId} {patch : EventPatch} {now : ℤ}
      (made : o = .updateCalendarEvent io id patch now) :
      EventsChange o events (update (fun e => e.id = id) (·.patch patch now) events)
  | synced {io : Io} {new : NewEvent} (made : o = .updateRemoteCalendarEvent io new) :
      EventsChange o events
        (update (fun e => e.id = new.id ∧ e.origin = some "remote") (·.synced new) events)
  | deleted {io : Io} {id : EventId} (made : o = .deleteCalendarEvent io id) :
      EventsChange o events (events.filter fun e => e.id ≠ id)

theorem eventsChange_of_ok {α : Type} {o : SchedulingOp} {body : Tx SchedulingDb α}
    {db : SchedulingDb}
    (h : ∀ a db', body db = .ok (a, db') → EventsChange o db.events db'.events) :
    EventsChange o db.events (transaction body db).2.events := by
  rcases transaction_cases body db with ⟨e, he⟩ | ⟨a, db', hok, he⟩
  · rw [he]
    exact .same
  · rw [he]
    exact h a db' hok

theorem bookSlotTx_fresh {io : Io} {req : BookSlotRequest} {fresh : BookingFresh} {b : Booking}
    {db db' : SchedulingDb} (h : bookSlotTx io req fresh db = .ok (b, db')) :
    fresh.eventId ∉ db.events.map (·.id) := by
  simp only [bookSlotTx, insertBookingTx, Tx.bind_eq_ok, Tx.require_eq_ok] at h
  obtain ⟨_, _, ⟨-, rfl⟩, page, _, hcheck, _, _, hinsert, -⟩ := h
  obtain ⟨-, -, -, -, rfl⟩ := checkSlotTx_ok hcheck
  exact (insertEventTx_ok hinsert).1

theorem schedulingStep_events (L : Locale) (db : SchedulingDb) (o : SchedulingOp) :
    EventsChange o db.events (schedulingStep L db o).events := by
  cases o with
  | createCalendar io new =>
    refine eventsChange_of_ok fun c db' h => ?_
    simp only [createCalendarTx, Tx.bind_eq_ok, Tx.get_eq_ok, Tx.require_eq_ok, Tx.exec_eq_ok,
      Tx.pure_eq_ok] at h
    obtain ⟨_, _, ⟨rfl, rfl⟩, _, _, ⟨-, rfl⟩, _, _, ⟨-, rfl⟩, -, rfl⟩ := h
    exact .same
  | createCalendarEvent io new =>
    refine eventsChange_of_ok fun e db' h => ?_
    simp only [createCalendarEventTx, Tx.bind_eq_ok, Tx.pure_eq_ok] at h
    obtain ⟨_, _, hinsert, -, rfl⟩ := h
    obtain ⟨hnew, -, rfl⟩ := insertEventTx_ok hinsert
    exact .added rfl hnew (fun _ => rfl) rfl
  | createRemoteCalendarEvent io federationId new =>
    refine eventsChange_of_ok fun e db' h => ?_
    simp only [createRemoteCalendarEventTx, Tx.bind_eq_ok, Tx.pure_eq_ok] at h
    obtain ⟨_, _, hinsert, -, rfl⟩ := h
    obtain ⟨hnew, -, rfl⟩ := insertEventTx_ok hinsert
    exact .added rfl hnew False.elim rfl
  | updateCalendarEvent io id patch now =>
    refine eventsChange_of_ok fun e db' h => ?_
    rw [updateCalendarEventTx, Tx.exec_eq_ok] at h
    obtain ⟨-, rfl⟩ := h
    exact .patched rfl
  | updateRemoteCalendarEvent io new =>
    refine eventsChange_of_ok fun e db' h => ?_
    rw [updateRemoteCalendarEventTx, Tx.exec_eq_ok] at h
    obtain ⟨-, rfl⟩ := h
    exact .synced rfl
  | deleteCalendarEvent io id =>
    refine eventsChange_of_ok fun e db' h => ?_
    simp only [deleteCalendarEventTx, Tx.bind_eq_ok, Tx.get_eq_ok, Tx.require_eq_ok,
      Tx.exec_eq_ok] at h
    obtain ⟨_, _, ⟨rfl, rfl⟩, _, _, ⟨-, rfl⟩, -, rfl⟩ := h
    exact .deleted rfl
  | createSchedulingPage io accountId new id now =>
    refine eventsChange_of_ok fun p db' h => ?_
    simp only [createSchedulingPageTx, Tx.bind_eq_ok, checked_eq_ok, Tx.query_eq_ok,
      Tx.require_eq_ok, Tx.get_eq_ok, Tx.exec_eq_ok, Tx.okOr_eq_ok] at h
    obtain ⟨_, _, ⟨-, rfl⟩, _, _, ⟨-, rfl, rfl⟩, _, _, ⟨-, rfl⟩, _, _, ⟨rfl, rfl⟩,
      _, _, ⟨-, rfl⟩, _, _, ⟨-, rfl⟩, _, _, ⟨-, rfl⟩, _, _, ⟨-, -, rfl⟩, -, rfl⟩ := h
    exact .same
  | updateSchedulingPage io accountId pageId patch now =>
    refine eventsChange_of_ok fun p db' h => ?_
    simp only [updateSchedulingPageTx, Tx.bind_eq_ok, checked_eq_ok, Tx.query_eq_ok,
      Tx.exec_eq_ok, Tx.okOr_eq_ok] at h
    obtain ⟨_, _, ⟨-, -, rfl⟩, _, _, ⟨-, rfl⟩, _, _, ⟨-, rfl⟩, _, _, ⟨-, rfl⟩,
      _, _, ⟨-, -, rfl⟩, -, rfl⟩ := h
    exact .same
  | bookSlot io req fresh =>
    refine eventsChange_of_ok fun b db' h => ?_
    obtain ⟨page, -, -, -, -, -, hdb⟩ := bookSlotTx_ok h
    rw [hdb]
    exact .added rfl (bookSlotTx_fresh h) (fun _ => rfl) rfl

/-! ## What a call does -/

/-- The call is one of a pull, and it wrote. -/
def MirrorWrote : Call (MirrorOp.Ret Cert) → Bool
  | ⟨.createRemoteCalendarEvent .., .ok _⟩ | ⟨.updateRemoteCalendarEvent .., .ok _⟩
  | ⟨.setFederationEventMap .., .ok _⟩ | ⟨.updateFederationSyncToken .., .ok _⟩ => true
  | _ => false

variable (L) in
/-- What a call does to the tables of the subscriber. -/
inductive MirrorEffect (w : MirrorWorld) (call : Call (MirrorOp.Ret Cert)) (w' : MirrorWorld) :
    Prop where
  | kept (quiet : MirrorWrote call = false) (db : w'.db = w.db)
  | created {calendarId : CalendarId} {federationId : String} {payload : EventPayload}
      {id : EventId} {now : ℤ}
      (made : call = ⟨.createRemoteCalendarEvent calendarId federationId payload, .ok id⟩)
      (undrawn : id ∉ w.drawn) (new : id ∉ w.db.events.map (·.id))
      (db : w'.db = { w.db with
        events := w.db.events ++
          [(payload.new calendarId id now).row (some "remote") (some federationId)] })
      (drawn : w'.drawn = id :: w.drawn)
  | updated {id : EventId} {payload : EventPayload} {now : ℤ}
      (made : call = ⟨.updateRemoteCalendarEvent id payload, .ok ⟨⟩⟩)
      (db : w'.db = { w.db with
        events := update (fun e => e.id = id ∧ e.origin = some "remote")
          (·.synced (payload.new ⟨0⟩ id now)) w.db.events })
  | mapped {federationId remoteUid : String} {id : EventId} {authorEmail : String} {now : ℤ}
      (made : call = ⟨.setFederationEventMap federationId remoteUid id authorEmail, .ok ⟨⟩⟩)
      (event : id ∈ w.db.events.map (·.id))
      (db : w'.db = { w.db with
        eventMap := upsert (fun m => m.federationId = federationId ∧ m.remoteUid = remoteUid)
          (fun m => { m with localEventId := id, authorEmail := authorEmail, updatedAt := now })
          ⟨federationId, remoteUid, id, authorEmail, now⟩ w.db.eventMap })
  | stored {id : String} {token : Option String} {now : ℤ}
      (made : call = ⟨.updateFederationSyncToken id token, .ok ⟨⟩⟩)
      (db : w'.db = { w.db with
        federations := update (·.id = id)
          (fun f => { f with syncToken := token, lastSyncAt := some now, status := .syncing })
          w.db.federations })
  | answered {p : CalendarFederation → Bool} {status : FederationStatus}
      (made : (∃ id, call.op = .markFederationError id) ∨
        ∃ id accountId status, call.op = .answerFederation id accountId status)
      (db : w'.db = { w.db with
        federations := update p (fun f => { f with status := status }) w.db.federations })
  | inserted {row : CalendarFederation} (made : call = ⟨.insertFederation row, .ok ⟨⟩⟩)
      (new : row.id ∉ w.db.federations.map (·.id))
      (calendar : row.calendarId ∈ w.db.calendars.map (·.id))
      (db : w'.db = { w.db with federations := w.db.federations ++ [row.unsynced] })
  | scheduled {o : SchedulingOp} (made : call = ⟨.scheduling o, ⟨⟩⟩)
      (undrawn : ∀ id ∈ o.freshEvent, id ∉ w.drawn) (db : w'.db = w.db.schedulingStep L o)
      (drawn : w'.drawn = o.freshEvent.toList ++ w.drawn)

section Exec

variable {w w' : MirrorWorld} {c : MirrorChoice Cert}

/-- A storage call fails without effect, or its body succeeded. -/
theorem MirrorWorld.call_cases {α : Type} {body : Tx MirrorDb α} {res : Except StorageError α}
    (h : w.call body = (res, w')) :
    (∃ e, res = .error e ∧ w' = w) ∨
      ∃ a db, body w.db = .ok (a, db) ∧ res = .ok a ∧ w' = { w with db := db } := by
  obtain ⟨rfl, rfl⟩ := Prod.mk.inj h
  rcases transaction_cases body w.db with ⟨e, hbody⟩ | ⟨a, db, hok, hbody⟩
  · exact .inl ⟨e, by rw [hbody], by rw [hbody]⟩
  · exact .inr ⟨a, db, hok, by rw [hbody], by rw [hbody]⟩

theorem MirrorWorld.call_query {α : Type} {io : Io} {g : MirrorDb → α}
    {res : Except StorageError α} (h : w.call (Tx.query io 0 g) = (res, w')) :
    w' = w ∧ ∀ a, res = .ok a → g w.db = a := by
  rcases MirrorWorld.call_cases h with ⟨e, rfl, rfl⟩ | ⟨a, db, hok, rfl, rfl⟩
  · exact ⟨rfl, fun _ ha => nomatch ha⟩
  · obtain ⟨-, ha, rfl⟩ := Tx.query_eq_ok.mp hok
    exact ⟨rfl, fun b hb => ha.trans (Except.ok.inj hb)⟩

@[simp] theorem onScheduling_eq_ok {α : Type} {body : Tx SchedulingDb α} {db db' : MirrorDb}
    {a : α} : onScheduling body db = .ok (a, db') ↔
      ∃ s, body db.toSchedulingDb = .ok (a, s) ∧ { db with toSchedulingDb := s } = db' := by
  unfold onScheduling
  rcases body db.toSchedulingDb with e | ⟨b, s⟩
  · simp [Except.map]
  · simp [Except.map, and_assoc]

/-- **One call.** What it does to the tables of the subscriber. -/
theorem mirror_effect {o : MirrorOp} {res : o.Ret Cert}
    (h : o.exec M L S c w = some (res, w')) : MirrorEffect L w ⟨o, res⟩ w' := by
  cases o with
  | getFederation id | listActiveFederations | federationLocalEvent federationId remoteUid =>
    obtain ⟨rfl, -⟩ := MirrorWorld.call_query (Option.some.inj h)
    exact .kept rfl rfl
  | serverKeys | getCapable f since after =>
    obtain ⟨-, rfl⟩ := Prod.mk.inj (Option.some.inj h)
    exact .kept rfl rfl
  | tick secs =>
    simp only [MirrorOp.exec, Option.ite_none_right_eq_some] at h
    obtain ⟨-, rfl⟩ := Prod.mk.inj (Option.some.inj h.2)
    exact .kept rfl rfl
  | serving o =>
    simp only [MirrorOp.exec, Option.ite_none_right_eq_some] at h
    obtain ⟨-, rfl⟩ := Prod.mk.inj (Option.some.inj h.2)
    exact .kept rfl rfl
  | updateRemoteCalendarEvent id payload =>
    rcases MirrorWorld.call_cases (Option.some.inj h) with ⟨e, rfl, rfl⟩ | ⟨a, db, hok, rfl, rfl⟩
    · exact .kept rfl rfl
    · simp only [onScheduling_eq_ok, updateRemoteCalendarEventTx, Tx.exec_eq_ok] at hok
      obtain ⟨_, ⟨-, rfl⟩, rfl⟩ := hok
      exact .updated rfl rfl
  | createRemoteCalendarEvent calendarId federationId payload =>
    simp only [MirrorOp.exec, Option.ite_none_left_eq_some] at h
    obtain ⟨hdrawn, h⟩ := h
    rcases MirrorWorld.call_cases (Option.some.inj h) with ⟨e, rfl, rfl⟩ | ⟨a, db, hok, rfl, rfl⟩
    · exact .kept rfl rfl
    · simp only [onScheduling_eq_ok, createRemoteCalendarEventTx, Tx.bind_eq_ok,
        Tx.pure_eq_ok] at hok
      obtain ⟨_, ⟨_, _, hinsert, rfl, rfl⟩, rfl⟩ := hok
      obtain ⟨hnew, -, rfl⟩ := insertEventTx_ok hinsert
      exact .created rfl hdrawn hnew rfl rfl
  | setFederationEventMap federationId remoteUid id authorEmail =>
    rcases MirrorWorld.call_cases (Option.some.inj h) with ⟨e, rfl, rfl⟩ | ⟨a, db, hok, rfl, rfl⟩
    · exact .kept rfl rfl
    · simp only [setFederationEventMapTx, Tx.bind_eq_ok, Tx.get_eq_ok, Tx.require_eq_ok,
        Tx.exec_eq_ok] at hok
      obtain ⟨_, _, ⟨rfl, rfl⟩, _, _, ⟨-, rfl⟩, _, _, ⟨hevent, rfl⟩, -, rfl⟩ := hok
      exact .mapped rfl hevent rfl
  | updateFederationSyncToken id token =>
    rcases MirrorWorld.call_cases (Option.some.inj h) with ⟨e, rfl, rfl⟩ | ⟨a, db, hok, rfl, rfl⟩
    · exact .kept rfl rfl
    · simp only [updateFederationSyncTokenTx, Tx.exec_eq_ok] at hok
      obtain ⟨-, rfl⟩ := hok
      exact .stored rfl rfl
  | markFederationError id =>
    rcases MirrorWorld.call_cases (Option.some.inj h) with ⟨e, rfl, rfl⟩ | ⟨a, db, hok, rfl, rfl⟩
    · exact .kept rfl rfl
    · simp only [markFederationErrorTx, Tx.exec_eq_ok] at hok
      obtain ⟨-, rfl⟩ := hok
      exact .answered (.inl ⟨id, rfl⟩) rfl
  | insertFederation row =>
    rcases MirrorWorld.call_cases (Option.some.inj h) with ⟨e, rfl, rfl⟩ | ⟨a, db, hok, rfl, rfl⟩
    · exact .kept rfl rfl
    · simp only [insertFederationTx, Tx.bind_eq_ok, Tx.get_eq_ok, Tx.require_eq_ok,
        Tx.exec_eq_ok] at hok
      obtain ⟨_, _, ⟨rfl, rfl⟩, _, _, ⟨hnew, rfl⟩, _, _, ⟨-, rfl⟩, _, _, ⟨hcal, rfl⟩, -, rfl⟩ := hok
      exact .inserted rfl hnew hcal rfl
  | answerFederation id accountId status =>
    rcases MirrorWorld.call_cases (Option.some.inj h) with ⟨e, rfl, rfl⟩ | ⟨a, db, hok, rfl, rfl⟩
    · exact .kept rfl rfl
    · simp only [answerFederationTx, Tx.bind_eq_ok, Tx.get_eq_ok, Tx.require_eq_ok,
        Tx.exec_eq_ok] at hok
      obtain ⟨_, _, ⟨rfl, rfl⟩, _, _, ⟨-, rfl⟩, -, rfl⟩ := hok
      exact .answered (.inr ⟨id, accountId, status, rfl⟩) rfl
  | scheduling o =>
    simp only [MirrorOp.exec, Option.ite_none_left_eq_some] at h
    obtain ⟨hdrawn, h⟩ := h
    obtain ⟨-, rfl⟩ := Prod.mk.inj (Option.some.inj h)
    exact .scheduled rfl (fun id hid hmem => hdrawn ⟨id, hid, hmem⟩) rfl rfl

/-- Ids are only drawn. -/
theorem drawn_mono {o : MirrorOp} {res : o.Ret Cert} (h : o.exec M L S c w = some (res, w')) :
    w.drawn ⊆ w'.drawn := by
  cases o with
  | getFederation id | listActiveFederations | federationLocalEvent federationId remoteUid
  | updateRemoteCalendarEvent id payload
  | setFederationEventMap federationId remoteUid id authorEmail
  | updateFederationSyncToken id token | markFederationError id | insertFederation row
  | answerFederation id accountId status | serverKeys | getCapable f since after =>
    obtain ⟨-, rfl⟩ := Prod.mk.inj (Option.some.inj h)
    exact List.Subset.refl _
  | serving o | tick secs =>
    simp only [MirrorOp.exec, Option.ite_none_right_eq_some] at h
    obtain ⟨-, rfl⟩ := Prod.mk.inj (Option.some.inj h.2)
    exact List.Subset.refl _
  | createRemoteCalendarEvent calendarId federationId payload =>
    simp only [MirrorOp.exec, Option.ite_none_left_eq_some] at h
    obtain ⟨-, rfl⟩ := Prod.mk.inj (Option.some.inj h.2)
    exact List.subset_cons_self _ _
  | scheduling o =>
    simp only [MirrorOp.exec, Option.ite_none_left_eq_some] at h
    obtain ⟨-, rfl⟩ := Prod.mk.inj (Option.some.inj h.2)
    exact List.subset_append_right _ _

end Exec

/-! ## The past of the system -/

variable (M L S) in
/-- A past of the system. -/
abbrev MirrorPast : List (MirrorEvent Cert) → MirrorWorld → Prop :=
  Past (MirrorOp.exec M L S) MirrorBefore MirrorWorld.empty

variable (M L S) in
/-- What was the case when a call was made. -/
abbrev MirrorAt : List (MirrorEvent Cert) → MirrorEvent Cert → Prop :=
  Past.At (MirrorOp.exec M L S) MirrorBefore MirrorWorld.empty

/-- **Every run of the system** has a past, in which every program kept its order. -/
theorem MirrorSys.run_specified (ms : List (MirrorMove Cert)) :
    (MirrorSys.run M L S MirrorSys.empty ms).Specified (MirrorOp.exec M L S) MirrorBefore
      (fun _ _ _ => True) MirrorWorld.empty :=
  Programs.run_specified (mirrorHandle_spec (M := M)) ms specified_init

end Owney
