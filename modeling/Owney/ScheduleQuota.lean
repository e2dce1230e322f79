import Owney.ScheduleOffers

/-!
# The daily quota

`book` takes the date of a slot from its start, and `book_slot` counts the bookings that start
between the two midnights of that date. A booking whose start is not between them is of a date
under which it is never counted.

* `book_spec` — what a program has read when it asks for a slot.
* `booked_mono` — what a call can do to the bookings of a page.
* `quotaKept_of_dayBounds` — every date keeps its quota in a run in which each booking starts
  between the midnights of its date. In a regular timezone all of them do.
* `not_quotaKept_apia` — the date before one that the clock skipped altogether: its second
  midnight is resolved to an instant ten hours early.
-/

namespace Owney.Schedule

open Programs

/-! ## What a program has read -/

/-- The calls of a program. -/
abbrev ScheduleCalls : Type := List (Call ScheduleOp.Ret)

section Spec

variable {G : ScheduleCalls → ScheduleOp → Prop} {cs : ScheduleCalls} {α β : Type}

theorem spec_ask {o : ScheduleOp} {f : o.Ret → ScheduleProg β} (h : G cs o)
    (hf : ∀ res, (f res).run.Spec G (fun _ _ => True) (cs ++ [⟨o, res⟩])) :
    (ask o >>= f).run.Spec G (fun _ _ => True) cs := ⟨h, hf⟩

theorem spec_fetch {o : ScheduleOp} {f : o.Val → ScheduleProg β} (h : G cs o)
    (hf : ∀ v, (f v).run.Spec G (fun _ _ => True) (cs ++ [⟨o, .ok v⟩])) :
    (fetch o >>= f).run.Spec G (fun _ _ => True) cs := by
  refine ⟨h, ?_⟩
  rintro (e | v)
  · trivial
  · exact hf v

theorem spec_valueOr {v : Option α} {r : Refusal} {f : α → ScheduleProg β}
    (hf : ∀ a, v = some a → (f a).run.Spec G (fun _ _ => True) cs) :
    (valueOr v r >>= f).run.Spec G (fun _ _ => True) cs := by
  cases v with
  | none => trivial
  | some a => exact hf a rfl

theorem spec_demand {c : Prop} [Decidable c] {r : Refusal} {f : Unit → ScheduleProg β}
    (hf : c → (f ()).run.Spec G (fun _ _ => True) cs) :
    (demand c r >>= f).run.Spec G (fun _ _ => True) cs := by
  by_cases hc : c
  · rw [demand, if_pos hc]
    exact hf hc
  · rw [demand, if_neg hc]
    trivial

end Spec

/-- Who asks for a slot has read the page, and gives the midnights of the slot's date. -/
def AskedAfter (C : ScheduleCrates) (cs : ScheduleCalls) : ScheduleOp → Prop
  | .bookSlot req => ∃ slug page tz, ⟨.pageBySlug slug, .ok (some page)⟩ ∈ cs ∧
    C.zone page.timezone = some tz ∧ req.pageId = page.id ∧
    req.dayBounds = tz.localDayBounds (tz.todayIn req.start)
  | _ => True

section Spec

variable {C : ScheduleCrates} {cs : ScheduleCalls} {β : Type} {slug : String}

theorem spec_activePage {f : SchedulingPage → ScheduleProg β}
    (hf : ∀ page, (f page).run.Spec (AskedAfter C) (fun _ _ => True)
      (cs ++ [⟨.pageBySlug slug, .ok (some page)⟩])) :
    (activePage slug >>= f).run.Spec (AskedAfter C) (fun _ _ => True) cs := by
  refine ⟨trivial, ?_⟩
  rintro (e | page)
  · trivial
  rcases page with _ | page
  · trivial
  · by_cases hactive : page.status = .active
    · have hsome : (some page).filter (fun p => decide (p.status = .active)) = some page := by
        simp [hactive]
      have hrun := hf page
      change ((valueOr ((some page).filter fun p => decide (p.status = .active)) notFound >>=
        f).run).Spec _ _ _
      rw [hsome]
      exact hrun
    · have hnone : (some page).filter (fun p => decide (p.status = .active)) = none := by
        simp [hactive]
      change ((valueOr ((some page).filter fun p => decide (p.status = .active)) notFound >>=
        f).run).Spec _ _ _
      rw [hnone]
      trivial

theorem spec_slotsForRange {page : SchedulingPage} {tz : Zone} {duration : ℕ} {first last now : ℤ}
    {f : List Slot → ScheduleProg β}
    (hf : ∀ slots cs', (f slots).run.Spec (AskedAfter C) (fun _ _ => True) cs') :
    (slotsForRange C page tz duration first last now >>= f).run.Spec (AskedAfter C)
      (fun _ _ => True) cs := by
  refine ⟨trivial, ?_⟩
  rintro (e | events)
  · trivial
  refine ⟨trivial, ?_⟩
  rintro (e | bookings)
  · trivial
  · exact hf _ _

end Spec

/-- The list asks for no slot. -/
theorem slotsJson_spec (C : ScheduleCrates) (slug : String) (query : SlotsQuery) :
    (slotsJson C slug query).run.Spec (AskedAfter C) (fun _ _ => True) [] := by
  unfold slotsJson
  refine spec_demand fun _ => spec_activePage fun page => spec_valueOr fun tz _ => ?_
  refine spec_demand fun _ => spec_valueOr fun first _ => spec_valueOr fun last _ => ?_
  exact spec_demand fun _ => spec_demand fun _ => spec_slotsForRange fun _ _ => trivial

theorem book_spec (C : ScheduleCrates) (slug : String) (post : BookPost) :
    (book C slug post).run.Spec (AskedAfter C) (fun _ _ => True) [] := by
  unfold book
  refine spec_demand fun _ => ?_
  rcases post.body with err | body
  · trivial
  refine spec_demand (β := ScheduleReply) fun _ => spec_activePage fun page => ?_
  refine spec_valueOr fun tz htz => spec_demand fun _ => spec_valueOr fun s hpick => ?_
  refine spec_fetch trivial fun account => spec_valueOr fun owner _ => ?_
  refine spec_ask ⟨slug, page, tz, by simp, htz, rfl, ?_⟩ fun res => ?_
  · -- the midnights are of the date of the start that was asked for, which is the slot's
    have hstart : s.start = body.start := of_decide_eq_true
      (List.find?_some (p := fun slot : Slot => decide (slot.start = body.start)) hpick)
    exact congrArg (fun start => tz.localDayBounds (tz.todayIn start)) hstart.symm
  · cases res <;> trivial

/-- Every program reads the page before it asks for a slot. -/
theorem scheduleHandle_spec (C : ScheduleCrates) (r : ScheduleRequest) :
    (scheduleHandle C r).Spec (AskedAfter C) (fun _ _ => True) [] := by
  have hreply : ∀ p : ScheduleProg ScheduleReply, p.run.Spec (AskedAfter C) (fun _ _ => True) [] →
      p.reply.Spec (AskedAfter C) (fun _ _ => True) [] := by
    intro p hp
    refine Prog.Spec.seq hp fun more res _ => ?_
    cases res <;> trivial
  cases r with
  | slots slug query => exact hreply _ (slotsJson_spec C slug query)
  | book slug post => exact hreply _ (book_spec C slug post)
  | createAccount row => exact ⟨trivial, fun _ => trivial⟩
  | store op => exact ⟨trivial, fun _ => trivial⟩

/-! ## Bookings -/

/-- A call that was made. -/
abbrev ScheduleEvent : Type := Event ScheduleOp.Ret ScheduleRequest ScheduleChoice ScheduleDb

/-- The past of the pool. -/
abbrev SchedulePast (C : ScheduleCrates) : List ScheduleEvent → ScheduleDb → Prop :=
  Past (fun o c db => some (ScheduleDb.exec C.locale c o db)) (fun _ => AskedAfter C) .empty

/-- What was the case when a call was made. -/
abbrev ScheduleAt (C : ScheduleCrates) : List ScheduleEvent → ScheduleEvent → Prop :=
  Past.At (fun o c db => some (ScheduleDb.exec C.locale c o db)) (fun _ => AskedAfter C) .empty

theorem schedulePast_run (C : ScheduleCrates) (moves : List (Move ScheduleRequest ScheduleChoice)) :
    SchedulePast C (scheduleRun C moves).past (scheduleRun C moves).world :=
  (run_specified (scheduleHandle_spec C) moves specified_init).past

/-- **One call.** It leaves the bookings alone, or adds one that its page had room for. -/
theorem bookings_exec (L : Locale) (c : ScheduleChoice) (o : ScheduleOp) (db : ScheduleDb) :
    (db.exec L c o).2.tables.bookings = db.tables.bookings ∨
      ∃ req page, o = .bookSlot req ∧ page ∈ db.tables.pages ∧ page.id = req.pageId ∧
        (∀ limit, page.maxPerDay = some limit →
          db.tables.bookedOn req.pageId req.dayBounds < limit) ∧
        (db.exec L c o).2.tables.bookings = db.tables.bookings ++ [req.row page c.fresh] := by
  have hstore : ∀ op, (∀ io req fresh, op ≠ .bookSlot io req fresh) →
      (schedulingStep L db.tables op).bookings = db.tables.bookings := fun op hop =>
    (schedulingStep_effect L db.tables op).bookings_eq hop
  cases o with
  | pageBySlug | account | eventsOverlapping | confirmedBookings => exact .inl rfl
  | bookSlot req =>
    rcases transaction_cases (bookSlotTx c.io req c.fresh) db.tables with
      ⟨e, he⟩ | ⟨b, tables, hok, he⟩
    · refine .inl ?_
      simp only [ScheduleDb.exec, SchedulingDb.bookSlot, he]
    · obtain ⟨page, ⟨hpage, hid, -⟩, -, -, hquota, -, rfl⟩ := bookSlotTx_ok hok
      refine .inr ⟨req, page, rfl, hpage, hid, hquota, ?_⟩
      simp only [ScheduleDb.exec, SchedulingDb.bookSlot, he]
  | createAccount row =>
    simp only [ScheduleDb.exec]
    split <;> exact .inl rfl
  | store op =>
    cases op with
    | bookSlot => exact .inl rfl
    | createCalendar io new =>
      simp only [ScheduleDb.exec, ScheduleDb.store]
      split
      · exact .inl (hstore _ (by rintro _ _ _ ⟨⟩))
      · exact .inl rfl
    | _ => exact .inl (hstore _ (by rintro _ _ _ ⟨⟩))

/-! ## The quota -/

section Quota

variable (pageId : SchedulingPageId) (timezone : String) (tz : Zone) (limit : ℕ)

/-- The slot that a call asks for. -/
def ScheduleOp.asked : ScheduleOp → Option BookSlotRequest
  | .bookSlot req => some req
  | _ => none

/-- How many confirmed bookings of a page start on a date. -/
def bookedOnDate (db : ScheduleDb) (date : ℤ) : ℕ :=
  (db.tables.bookings.filter fun b =>
    b.pageId = pageId ∧ b.status = .confirmed ∧ tz.todayIn b.start = date).length

/-- The quota is kept in every state of the run. -/
def QuotaKept (C : ScheduleCrates) (moves : List (Move ScheduleRequest ScheduleChoice)) : Prop :=
  ∀ part rest, moves = part ++ rest →
    ∀ date, bookedOnDate pageId tz (scheduleRun C part).world date ≤ limit

/-- The page has the timezone and the quota when a call is made. -/
def Settled : List ScheduleEvent → ScheduleEvent → Prop := fun _ e =>
  ∀ p ∈ e.before.tables.pages, p.id = pageId → p.timezone = timezone ∧ p.maxPerDay = some limit

/-- An instant between the two midnights of its date. -/
def Zone.InDay (t : ℤ) : Prop :=
  (tz.localDayBounds (tz.todayIn t)).1 ≤ t ∧ t < (tz.localDayBounds (tz.todayIn t)).2

/-- A slot of the page that is asked for starts between the midnights of its date. -/
def AsksInDay : List ScheduleEvent → ScheduleEvent → Prop := fun _ e =>
  ∀ req ∈ e.call.op.asked, req.pageId = pageId → tz.InDay req.start

instance (past : List ScheduleEvent) (e : ScheduleEvent) :
    Decidable (Settled pageId timezone limit past e) := by unfold Settled; infer_instance

instance (past : List ScheduleEvent) (e : ScheduleEvent) :
    Decidable (AsksInDay pageId tz past e) := by
  unfold AsksInDay Zone.InDay
  infer_instance

end Quota

section Kept

variable {C : ScheduleCrates} {pageId : SchedulingPageId} {timezone : String} {tz : Zone}
  {limit : ℕ} {past : List ScheduleEvent} {e : ScheduleEvent} {w : ScheduleDb}

/-- The midnights that `book` gives are those of the page's timezone. -/
theorem dayBounds_of_at (hat : ScheduleAt C past e) (htz : C.zone timezone = some tz)
    (hsettled : Steps (Settled pageId timezone limit) past) {req : BookSlotRequest}
    (hop : e.call.op = .bookSlot req) (hpage : req.pageId = pageId) :
    req.dayBounds = tz.localDayBounds (tz.todayIn req.start) := by
  have hguard := hat.guard
  rw [hop] at hguard
  obtain ⟨slug, page, tz', hread, htz', hid, hbounds⟩ := hguard
  obtain ⟨e', he', -, -, hcall⟩ := hat.earlier_call hread
  obtain ⟨pre, post, hsplit, hat'⟩ := hat.earlier.exists_at he'
  -- the page that was read was in the table then
  have hpossible := hat'.possible
  rw [hcall] at hpossible
  have hres : ScheduleDb.exec.read e'.choice (e'.before.pageBySlug slug) = .ok (some page) :=
    congrArg Prod.fst (Option.some.inj hpossible)
  rw [ScheduleDb.exec.read] at hres
  split at hres
  · have hmem := List.mem_of_find?_eq_some (Except.ok.inj hres)
    have hzone := (hsettled pre e' post hsplit page hmem (hid.symm.trans hpage)).1
    rw [hzone] at htz'
    rw [hbounds, Option.some.inj (htz'.symm.trans htz)]
  · cases hres

/-- One booking more. -/
theorem bookedOnDate_concat (pageId : SchedulingPageId) (tz : Zone) {w w' : ScheduleDb}
    {row : BookingRow} (hnew : w'.tables.bookings = w.tables.bookings ++ [row]) (date : ℤ) :
    bookedOnDate pageId tz w' date ≤ bookedOnDate pageId tz w date + 1 ∧
      (¬(row.pageId = pageId ∧ tz.todayIn row.start = date) →
        bookedOnDate pageId tz w' date = bookedOnDate pageId tz w date) := by
  simp only [bookedOnDate, hnew, List.filter_append, List.length_append]
  refine ⟨Nat.add_le_add_left (List.length_filter_le _ [row]) _, fun hother => ?_⟩
  rw [List.filter_cons_of_neg fun h => hother ⟨(of_decide_eq_true h).1, (of_decide_eq_true h).2.2⟩]
  rfl

/-- The bookings of a date are counted between its midnights. -/
theorem bookedOnDate_le (hin : ∀ b ∈ w.tables.bookings, b.pageId = pageId → tz.InDay b.start)
    (date : ℤ) :
    bookedOnDate pageId tz w date ≤ w.tables.bookedOn pageId (tz.localDayBounds date) := by
  rw [bookedOnDate, SchedulingDb.bookedOn, ← List.countP_eq_length_filter,
    ← List.countP_eq_length_filter]
  refine List.countP_mono_left fun b hb h => ?_
  obtain ⟨hpage, hconfirmed, rfl⟩ := of_decide_eq_true h
  exact decide_eq_true ⟨hpage, hconfirmed, hin b hb hpage⟩

/-- **The invariant.** Every booking of the page starts between the midnights of its date, and no
date has more bookings than the quota. -/
theorem quota_invariant (htz : C.zone timezone = some tz) (h : SchedulePast C past w)
    (hsettled : Steps (Settled pageId timezone limit) past)
    (hasks : Steps (AsksInDay pageId tz) past) :
    (∀ b ∈ w.tables.bookings, b.pageId = pageId → tz.InDay b.start) ∧
      ∀ date, bookedOnDate pageId tz w date ≤ limit := by
  revert hsettled hasks
  refine h.invariant (I := fun past w => Steps (Settled pageId timezone limit) past →
    Steps (AsksInDay pageId tz) past →
      (∀ b ∈ w.tables.bookings, b.pageId = pageId → tz.InDay b.start) ∧
        ∀ date, bookedOnDate pageId tz w date ≤ limit) ?_ fun past e hat _ ih hsettled hasks => ?_
  · exact fun _ _ => ⟨fun b hb => (nomatch hb), fun date => Nat.zero_le _⟩
  obtain ⟨hin, hcount⟩ := ih hsettled.of_append hasks.of_append
  have hafter : (e.before.exec C.locale e.choice e.call.op).2 = e.after :=
    congrArg Prod.snd (Option.some.inj hat.possible)
  rcases bookings_exec C.locale e.choice e.call.op e.before with
    hsame | ⟨req, page, hop, hpage, hid, hquota, hnew⟩
  · rw [hafter] at hsame
    refine ⟨fun b hb => hin b (hsame ▸ hb), fun date => ?_⟩
    rw [bookedOnDate, hsame]
    exact hcount date
  rw [hafter] at hnew
  have hasked : req.pageId = pageId → tz.InDay req.start :=
    hasks past e [] rfl req (by rw [hop]; rfl)
  constructor
  · intro b hb hbpage
    rw [hnew] at hb
    rcases List.mem_append.mp hb with hb | hb
    · exact hin b hb hbpage
    · obtain rfl := List.mem_singleton.mp hb
      exact hasked hbpage
  · intro date
    obtain ⟨hone, hother⟩ := bookedOnDate_concat pageId tz hnew date
    by_cases hthis : req.pageId = pageId ∧ tz.todayIn req.start = date
    · -- the new booking is of the date, and the date had room
      obtain ⟨hmine, rfl⟩ := hthis
      have hroom := hquota limit (hsettled past e [] rfl page hpage (hid.trans hmine)).2
      rw [dayBounds_of_at hat htz hsettled.of_append hop hmine, hmine] at hroom
      have hle := bookedOnDate_le hin (tz.todayIn req.start)
      omega
    · rw [hother hthis]
      exact hcount date

end Kept

/-! ## The result -/

/-- **The quota.** A page whose timezone and quota stay as they are keeps the quota on every date
of a run in which every slot that is asked for starts between the midnights of its date. -/
theorem quotaKept_of_dayBounds (C : ScheduleCrates)
    (moves : List (Move ScheduleRequest ScheduleChoice)) (pageId : SchedulingPageId)
    (timezone : String) (tz : Zone) (limit : ℕ) (htz : C.zone timezone = some tz)
    (hsettled : Steps (Settled pageId timezone limit) (scheduleRun C moves).past)
    (hasks : Steps (AsksInDay pageId tz) (scheduleRun C moves).past) :
    QuotaKept pageId tz limit C moves := by
  rintro part rest rfl date
  obtain ⟨more, hmore⟩ := past_run (scheduleHandle C)
    (fun o c db => some (ScheduleDb.exec C.locale c o db)) (.init .empty) part rest
  rw [scheduleRun, hmore] at hsettled hasks
  exact (quota_invariant htz (schedulePast_run C part) hsettled.of_append hasks.of_append).2 date

/-! ### A date that was skipped -/

theorem Zone.jump_shows (instant offset : ℤ) (ahead : ℕ) : ∀ w t : ℤ,
    (if w < instant + offset then LocalResult.single (w - offset)
      else if w < instant + offset + ahead then .none
      else .single (w - offset - ahead)).earliest = some t →
    (if t < instant then t + offset else t + offset + ahead) = w := by
  intro w t ht
  split at ht
  · obtain rfl : w - offset = t := Option.some.inj ht
    rw [if_pos (by omega)]
    omega
  · split at ht
    · cases ht
    · obtain rfl : w - offset - ahead = t := Option.some.inj ht
      rw [if_neg (by omega)]
      omega

theorem Zone.jump_skipped (instant offset : ℤ) (ahead : ℕ) : ∀ w : ℤ,
    (if w < instant + offset then LocalResult.single (w - offset)
      else if w < instant + offset + ahead then .none
      else .single (w - offset - ahead)) = .none →
    ∀ t : ℤ, (if t < instant then t + offset else t + offset + ahead) ≠ w := by
  intro w hw t
  split at hw
  · cases hw
  · split at hw
    · split <;> omega
    · cases hw

/-- A clock with an offset, that is put ahead once, at an instant. -/
def Zone.jump (instant offset : ℤ) (ahead : ℕ) : Zone where
  localOf t := if t < instant then t + offset else t + offset + ahead
  fromLocal w :=
    if w < instant + offset then .single (w - offset)
    else if w < instant + offset + ahead then .none
    else .single (w - offset - ahead)
  shows := jump_shows instant offset ahead
  skipped := jump_skipped instant offset ahead

/-- `Pacific/Apia` around the end of 2011: at the end of 29 December the clock was put ahead by a
day, to 31 December. -/
def apia : Zone := .jump (15338 * 86400 + 36000) (-36000) 86400

/-- A server that knows Apia. -/
def apiaCrates : ScheduleCrates :=
  { utcCrates with
    locale := ⟨fun s => s = "Pacific/Apia", utcCrates.locale.printable⟩
    zone := fun name => if name = "Pacific/Apia" then some apia else none }

/-- Alice's page there takes one booking a day. -/
def oncePerDay : NewSchedulingPage :=
  { weekdays with timezone := "Pacific/Apia", maxPerDay := some 1 }

/-- On 28 December a visitor asks for a slot of the next day, from the given minute. -/
def asksFor (minute : ℕ) : ScheduleRequest :=
  .book "meet-alice" ⟨true, 15336 * 86400 + 36000,
    .ok { bob with start := apia.minute 15337 minute }⟩

/-- Alice sets up her page, and two visitors ask for slots from the given minutes. -/
def apiaMoves (first second : ℕ) : List (Move ScheduleRequest ScheduleChoice) :=
  let c (n : ℕ) : ScheduleChoice := ⟨.ok, ⟨⟨n⟩, ⟨n⟩, "token", 0⟩⟩
  [.start (.createAccount ⟨alice, "alice@example.com", none⟩), .call 0 (c 0),
    .start (.store (.createCalendar .ok ⟨alice, "Personal", none, ⟨2⟩, 0⟩)), .call 1 (c 0),
    .start (.store (.createSchedulingPage .ok alice oncePerDay ⟨3⟩ 0)), .call 2 (c 0),
    .start (asksFor first), .call 3 (c 10), .call 3 (c 10), .call 3 (c 10),
    .start (asksFor second), .call 4 (c 11), .call 4 (c 11), .call 4 (c 11)]

/-- Before two in the afternoon the second visitor is refused. -/
theorem quotaKept_apiaMorning : QuotaKept ⟨3⟩ apia 1 apiaCrates (apiaMoves 540 600) := by
  have hsteps : Steps (Settled ⟨3⟩ "Pacific/Apia" 1) (scheduleRun apiaCrates (apiaMoves 540 600)).past ∧
      Steps (AsksInDay ⟨3⟩ apia) (scheduleRun apiaCrates (apiaMoves 540 600)).past := by
    decide +kernel
  exact quotaKept_of_dayBounds apiaCrates (apiaMoves 540 600) ⟨3⟩ "Pacific/Apia" apia 1 rfl
    hsteps.1 hsteps.2

/-- **After two in the afternoon** both are booked on the one date. -/
theorem not_quotaKept_apia :
    Steps (Settled ⟨3⟩ "Pacific/Apia" 1) (scheduleRun apiaCrates (apiaMoves 900 960)).past ∧
      ¬QuotaKept ⟨3⟩ apia 1 apiaCrates (apiaMoves 900 960) := by
  have hrun : Steps (Settled ⟨3⟩ "Pacific/Apia" 1)
        (scheduleRun apiaCrates (apiaMoves 900 960)).past ∧
      bookedOnDate ⟨3⟩ apia (scheduleRun apiaCrates (apiaMoves 900 960)).world 15337 = 2 := by
    decide +kernel
  refine ⟨hrun.1, fun h => ?_⟩
  have hkept := h _ [] (List.append_nil _).symm 15337
  rw [hrun.2] at hkept
  exact absurd hkept (by decide)

end Owney.Schedule
