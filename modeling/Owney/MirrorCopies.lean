import Owney.MirrorFrame

/-!
# One local copy of a remote event

An applier looks up the local event of a remote id, creates one if there is none, and then
enters it into the map: three calls, and between them any other applier may make its own, or
the process may end. `Copy` is an event that was created for a remote id, known from the
look before it.

There is at most one copy of each remote event in every state of a run if and only if
whoever creates one looked after every other copy that is still there had been entered into
the map (`oneCopy_iff`).
-/

namespace Owney

open Programs Tables

variable {Cert : Type} {M : MirrorCrates Cert} {L : Locale} {S : Share Cert}

/-! ## Copies -/

/-- A local event with the remote event it was created for. -/
structure Copy where
  federationId : String
  remoteUid : String
  id : EventId
  deriving DecidableEq, Repr

/-- They were created for the same remote event. -/
def Copy.SameRemote (c c' : Copy) : Prop :=
  c.federationId = c'.federationId ∧ c.remoteUid = c'.remoteUid

instance (c c' : Copy) : Decidable (c.SameRemote c') := inferInstanceAs (Decidable (_ ∧ _))

/-- The copy a call made, when its program has made these calls before. -/
def copyOf (cs : MirrorCalls Cert) (call : Call (MirrorOp.Ret Cert)) : Option Copy :=
  match call, cs.getLast? with
  | ⟨.createRemoteCalendarEvent .., .ok id⟩, some ⟨.federationLocalEvent federationId uid, _⟩ =>
    some ⟨federationId, uid, id⟩
  | _, _ => none

/-- The copies the calls of a list made, after those of another. -/
def copiesAfter (seen : List (MirrorEvent Cert)) : List (MirrorEvent Cert) → List Copy
  | [] => []
  | e :: es =>
    (copyOf (callsOf e.thread seen) e.call).toList ++ copiesAfter (seen ++ [e]) es

/-- All copies that were ever made. -/
def copies (past : List (MirrorEvent Cert)) : List Copy := copiesAfter [] past

/-- At most one copy of each remote event is there. -/
def MirrorSys.OneCopy (s : MirrorSys Cert) : Prop :=
  ∀ c ∈ copies s.past, ∀ c' ∈ copies s.past, c.SameRemote c' →
    c.id ∈ s.world.db.events.map (·.id) → c'.id ∈ s.world.db.events.map (·.id) → c.id = c'.id

instance (s : MirrorSys Cert) : Decidable s.OneCopy := inferInstanceAs (Decidable (∀ _ ∈ _, _))

/-! ## When there is one copy -/

/-- The call entered the copy into the map. -/
def Enters (c : Copy) (e : MirrorEvent Cert) : Bool :=
  match e.call with
  | ⟨.setFederationEventMap federationId remoteUid id _, .ok _⟩ =>
    federationId = c.federationId ∧ remoteUid = c.remoteUid ∧ id = c.id
  | _ => false

/-- The calls before the last call of a program. -/
def beforeLast (i : ℕ) (past : List (MirrorEvent Cert)) : List (MirrorEvent Cert) :=
  (past.rdropWhile (·.thread ≠ i)).dropLast

/-- Whoever makes a copy looked after every other copy of the remote event that is still
there had been entered into the map: no other applier is between its look and its entry, and
none stopped there. -/
def CreatesKnowingly (pre : List (MirrorEvent Cert)) (x : MirrorEvent Cert) : Prop :=
  ∀ c ∈ copyOf (callsOf x.thread pre) x.call, ∀ c' ∈ copies pre, c'.SameRemote c →
    c'.id ∈ x.before.db.events.map (·.id) → (beforeLast x.thread pre).any (Enters c')

instance (pre : List (MirrorEvent Cert)) (x : MirrorEvent Cert) :
    Decidable (CreatesKnowingly pre x) := inferInstanceAs (Decidable (∀ _ ∈ _, _))

/-! ## Lists of copies -/

theorem copiesAfter_append (seen es es' : List (MirrorEvent Cert)) :
    copiesAfter seen (es ++ es') = copiesAfter seen es ++ copiesAfter (seen ++ es) es' := by
  induction es generalizing seen with
  | nil => simp [copiesAfter]
  | cons e es ih =>
    rw [List.cons_append, copiesAfter, copiesAfter, ih, List.append_assoc, List.append_assoc]
    rfl

theorem copies_concat (past : List (MirrorEvent Cert)) (e : MirrorEvent Cert) :
    copies (past ++ [e]) = copies past ++ (copyOf (callsOf e.thread past) e.call).toList := by
  rw [copies, copiesAfter_append, List.nil_append, copiesAfter, copiesAfter, List.append_nil]
  rfl

theorem copyOf_eq_some {cs : MirrorCalls Cert} {call : Call (MirrorOp.Ret Cert)} {c : Copy}
    (h : copyOf cs call = some c) :
    ∃ calendarId federationId payload found,
      call = ⟨.createRemoteCalendarEvent calendarId federationId payload, .ok c.id⟩ ∧
        cs.getLast? = some ⟨.federationLocalEvent c.federationId c.remoteUid, found⟩ := by
  unfold copyOf at h
  split at h
  · rename_i calendarId federationId payload id uid remoteUid found hlast
    obtain rfl := Option.some.inj h
    exact ⟨_, _, _, _, rfl, hlast⟩
  · cases h

/-- The last call of a program splits the past. -/
theorem split_beforeLast {past : List (MirrorEvent Cert)} {i : ℕ}
    {call : Call (MirrorOp.Ret Cert)} (h : (callsOf i past).getLast? = some call) :
    ∃ look post, past = beforeLast i past ++ look :: post ∧ look.thread = i ∧ look.call = call := by
  induction past using List.reverseRecOn with
  | nil => cases h
  | append_singleton past e ih =>
    rw [callsOf_append] at h
    by_cases hi : e.thread = i
    · subst hi
      rw [callsOf_self, List.getLast?_concat] at h
      refine ⟨e, [], ?_, rfl, Option.some.inj h⟩
      rw [beforeLast, List.rdropWhile_concat_neg _ _ _ (by simp), List.dropLast_concat]
    · rw [callsOf_ne hi, List.append_nil] at h
      obtain ⟨look, post, hsplit, hthread, hcall⟩ := ih h
      refine ⟨look, post ++ [e], ?_, hthread, hcall⟩
      rw [beforeLast, List.rdropWhile_concat_pos _ _ _ (by simpa using hi), ← List.cons_append,
        ← List.append_assoc]
      exact congrArg (· ++ [e]) hsplit

/-! ## Copies and the map -/

/-- The remote event has an entry. -/
def HasEntry (federationId remoteUid : String) (w : MirrorWorld) : Prop :=
  ∃ m ∈ w.db.eventMap, m.federationId = federationId ∧ m.remoteUid = remoteUid

section Past

variable {past : List (MirrorEvent Cert)} {w : MirrorWorld} {e : MirrorEvent Cert}
  {federationId remoteUid : String} {c : Copy}

/-- An entry stays. -/
theorem HasEntry.step (h : HasEntry federationId remoteUid e.before)
    (hat : MirrorAt M L S past e) : HasEntry federationId remoteUid e.after := by
  obtain ⟨m, hm, hkey⟩ := h
  cases at_mirrorEffect hat with
  | kept quiet db | created made undrawn new db drawn | updated made db | stored made db
  | answered made db | inserted made new calendar db =>
    exact ⟨m, by rwa [db], hkey⟩
  | @scheduled o made undrawn db drawn =>
    exact ⟨m, by rwa [db, (schedulingStep_cases L e.before.db o).2.1], hkey⟩
  | mapped made event db =>
    refine ⟨_, by rw [db]; exact mem_upsert_of_mem hm, ?_⟩
    split
    · exact hkey
    · exact hkey

theorem hasEntry_upsert {f : FederationEventRow → FederationEventRow} {new : FederationEventRow}
    {t : List FederationEventRow} (hnew : new.federationId = federationId ∧ new.remoteUid = remoteUid)
    (hf : ∀ m, (f m).federationId = m.federationId ∧ (f m).remoteUid = m.remoteUid) :
    ∃ m ∈ upsert (fun m => m.federationId = federationId ∧ m.remoteUid = remoteUid) f new t,
      m.federationId = federationId ∧ m.remoteUid = remoteUid := by
  by_cases hentry : ∃ m ∈ t, m.federationId = federationId ∧ m.remoteUid = remoteUid
  · obtain ⟨m, hm, hkey⟩ := hentry
    refine ⟨_, mem_upsert_of_mem hm, ?_⟩
    rw [if_pos (decide_eq_true hkey), (hf m).1, (hf m).2]
    exact hkey
  · refine ⟨new, ?_, hnew⟩
    rw [upsert, if_neg]
    · exact List.mem_append_right _ List.mem_cons_self
    · intro hany
      obtain ⟨m, hm, hkey⟩ := List.any_eq_true.mp hany
      exact hentry ⟨m, hm, of_decide_eq_true hkey⟩

/-- Who enters a copy into the map leaves an entry. -/
theorem hasEntry_of_enters (hat : MirrorAt M L S past e) (h : Enters c e) :
    HasEntry c.federationId c.remoteUid e.after := by
  have heffect := at_mirrorEffect hat
  rcases hcall : e.call with ⟨o, res⟩
  rw [Enters, hcall] at h
  rw [hcall] at heffect
  split at h
  · rename_i federationId remoteUid id authorEmail u hmade
    obtain ⟨rfl, rfl, rfl⟩ := of_decide_eq_true h
    cases heffect with
    | kept quiet db =>
      rw [hmade] at quiet
      cases quiet
    | mapped made event db =>
      cases hmade.symm.trans made
      rw [HasEntry, db]
      dsimp only
      refine hasEntry_upsert ⟨rfl, rfl⟩ fun m => ?_
      exact ⟨rfl, rfl⟩
    | created made | updated made | stored made | inserted made | scheduled made =>
      cases hmade.symm.trans made
    | answered made =>
      rw [hmade] at made
      rcases made with ⟨_, ⟨⟩⟩ | ⟨_, _, _, ⟨⟩⟩
  · cases h

/-- A copy had a new id. -/
theorem new_of_copyOf (hat : MirrorAt M L S past e)
    (h : copyOf (callsOf e.thread past) e.call = some c) :
    c.id ∉ e.before.drawn ∧ c.id ∈ e.after.drawn ∧
      e.after.db.events.map (·.id) = e.before.db.events.map (·.id) ++ [c.id] := by
  obtain ⟨calendarId, federationId, payload, found, hcall, -⟩ := copyOf_eq_some h
  cases at_mirrorEffect hat with
  | kept quiet db =>
    rw [hcall] at quiet
    cases quiet
  | created made undrawn new db drawn =>
    cases hcall.symm.trans made
    refine ⟨undrawn, by rw [drawn]; exact List.mem_cons_self, ?_⟩
    rw [db]
    exact List.map_append
  | mapped made | updated made | stored made | inserted made | scheduled made =>
    cases hcall.symm.trans made
  | answered made =>
    rw [hcall] at made
    rcases made with ⟨_, ⟨⟩⟩ | ⟨_, _, _, ⟨⟩⟩

/-- The ids of copies were drawn. -/
theorem drawn_of_copies (h : MirrorPast M L S past w) : ∀ c ∈ copies past, c.id ∈ w.drawn := by
  refine h.invariant (I := fun past w => ∀ c ∈ copies past, c.id ∈ w.drawn)
    (fun c hc => absurd hc List.not_mem_nil) fun past e hat _ ih c hc => ?_
  rw [copies_concat] at hc
  rcases List.mem_append.mp hc with hc | hc
  · exact (at_kept hat).2 (ih c hc)
  · exact (new_of_copyOf hat (Option.mem_toList.mp hc)).2.1

/-- A copy that is there after a call was there before it, or is new. -/
theorem there_before (hat : MirrorAt M L S past e) (hc : c ∈ copies past)
    (hthere : c.id ∈ e.after.db.events.map (·.id)) : c.id ∈ e.before.db.events.map (·.id) := by
  obtain ⟨e', he', hid⟩ := List.mem_map.mp hthere
  rcases (at_kept hat).1.old e' he' with ⟨e₀, he₀, htag⟩ | ⟨hnew, -⟩
  · exact List.mem_map.mpr ⟨e₀, he₀, (congrArg Prod.fst htag).trans hid⟩
  · rw [hid] at hnew
    exact absurd (drawn_of_copies hat.earlier c hc) hnew

/-- Who looked and found nothing looked before any copy of the remote event was entered. -/
theorem not_entered (hat : MirrorAt M L S past e)
    (h : copyOf (callsOf e.thread past) e.call = some c) {c' : Copy} (hsame : c'.SameRemote c) :
    ¬(beforeLast e.thread past).any (Enters c') := by
  intro hany
  obtain ⟨m, hm, henters⟩ := List.any_eq_true.mp hany
  obtain ⟨calendarId, federationId, payload, found, hcall, hlast⟩ := copyOf_eq_some h
  obtain ⟨look, post, hsplit, -, hlook⟩ := split_beforeLast hlast
  have hlookAt : MirrorAt M L S (beforeLast e.thread past) look :=
    hat.earlier.at_of_split hsplit
  obtain ⟨pre, mid, hm', hmAt⟩ := hlookAt.earlier.exists_at hm
  have hentry : HasEntry c'.federationId c'.remoteUid look.before :=
    hlookAt.earlier.persists hm' (fun _ _ _ _ hat hentry => hentry.step hat)
      (hasEntry_of_enters hmAt henters)
  -- So the look found an entry.
  have hexec := hlookAt.possible
  rw [hlook] at hexec
  have hguard := hat.guard
  rw [hcall] at hguard
  obtain ⟨f, remoteUid, -, -, -, hjust⟩ := hguard
  rw [JustLooked, hlast] at hjust
  generalize f.id = looked at hjust
  cases hjust
  have hfind := (MirrorWorld.call_query (Option.some.inj hexec)).2 _ rfl
  rw [Option.map_eq_none_iff, List.find?_eq_none] at hfind
  obtain ⟨entry, hmem, hfed, huid⟩ := hentry
  refine hfind entry hmem (decide_eq_true ?_)
  exact ⟨hfed.trans hsame.1, huid.trans hsame.2⟩

/-- At most one copy of each remote event is there. -/
def OneCopyIn (past : List (MirrorEvent Cert)) (w : MirrorWorld) : Prop :=
  ∀ c ∈ copies past, ∀ c' ∈ copies past, c.SameRemote c' →
    c.id ∈ w.db.events.map (·.id) → c'.id ∈ w.db.events.map (·.id) → c.id = c'.id

/-- **Creating knowingly** is enough. -/
theorem oneCopy_of_steps (h : MirrorPast M L S past w) (hsteps : Steps CreatesKnowingly past) :
    OneCopyIn past w := by
  induction h with
  | nil => exact fun c hc => absurd hc List.not_mem_nil
  | @snoc past e earlier possible guard same ih =>
    have hat : MirrorAt M L S past e := ⟨earlier, possible, guard, same⟩
    have hold := ih hsteps.of_append
    have hlone : ∀ c ∈ copyOf (callsOf e.thread past) e.call, ∀ c' ∈ copies past,
        c'.SameRemote c → c'.id ∉ e.after.db.events.map (·.id) := by
      intro c hc c' hc' hsame hthere
      refine not_entered hat hc hsame ?_
      exact hsteps past e [] rfl c hc c' hc' hsame (there_before hat hc' hthere)
    intro c hc c' hc' hsame hthere hthere'
    rw [copies_concat] at hc hc'
    rcases List.mem_append.mp hc with hc | hc
    · rcases List.mem_append.mp hc' with hc' | hc'
      · exact hold c hc c' hc' hsame (there_before hat hc hthere) (there_before hat hc' hthere')
      · exact absurd hthere (hlone c' (Option.mem_toList.mp hc') c hc hsame)
    · have hc := Option.mem_toList.mp hc
      rcases List.mem_append.mp hc' with hc' | hc'
      · exact absurd hthere' (hlone c hc c' hc' ⟨hsame.1.symm, hsame.2.symm⟩)
      · have hc' := Option.mem_toList.mp hc'
        rw [Option.mem_unique hc hc']

/-- Creating knowingly is needed. -/
theorem creates_of_oneCopy (hat : MirrorAt M L S past e) (h : OneCopyIn (past ++ [e]) e.after) :
    CreatesKnowingly past e := by
  intro c hc c' hc' hsame hthere
  obtain ⟨hnew, -, hids⟩ := new_of_copyOf hat hc
  have hmem : c ∈ copies (past ++ [e]) := by
    rw [copies_concat]
    exact List.mem_append_right _ (Option.mem_toList.mpr hc)
  have hmem' : c' ∈ copies (past ++ [e]) := by
    rw [copies_concat]
    exact List.mem_append_left _ hc'
  have hid : c'.id = c.id := by
    refine h c' hmem' c hmem hsame ?_ ?_
    · rw [hids]
      exact List.mem_append_left _ hthere
    · rw [hids]
      exact List.mem_append_right _ List.mem_cons_self
  exact absurd (hid ▸ drawn_of_copies hat.earlier c' hc') hnew

end Past

/-- **One copy of each remote event** is there in every state of a run if and only if every
copy of the run was made knowingly. -/
theorem oneCopy_iff (ms : List (MirrorMove Cert)) :
    (∀ part rest, ms = part ++ rest → (MirrorSys.run M L S MirrorSys.empty part).OneCopy) ↔
      Steps CreatesKnowingly (MirrorSys.run M L S MirrorSys.empty ms).past := by
  have hpast := fun ms => (MirrorSys.run_specified (M := M) (L := L) (S := S) ms).past
  constructor
  · intro hone pre e post hsplit
    obtain ⟨part, rest, hms, hpart, hworld⟩ := exists_part_of_past rfl ms hsplit
    have hpartOne := hone part rest hms
    rw [MirrorSys.OneCopy, MirrorSys.run, hpart, hworld] at hpartOne
    exact creates_of_oneCopy ((hpast ms).at_of_split hsplit) hpartOne
  · rintro hsteps part rest rfl
    obtain ⟨more, hmore⟩ := past_run (mirrorHandle M) (MirrorOp.exec M L S)
      MirrorSys.empty part rest
    rw [MirrorSys.run, hmore] at hsteps
    exact oneCopy_of_steps (hpast part) hsteps.of_append

/-! ## Two copies -/

/-- Seals nothing; a payload is its title, by one author. -/
def MirrorCrates.sample : MirrorCrates Unit where
  unicode := .ascii
  b64Encode bytes := String.ofList (bytes.map fun b => Char.ofNat b.toNat)
  b64Decode text := .ok (text.toList.map fun c => UInt8.ofNat c.toNat)
  certFromBytes _ := .ok ()
  publicArmored _ := some ""
  userids _ := ["Alice <alice@a.test>"]
  openEvent _ _ ciphertext := .ok ciphertext
  sealEvent _ _ _ plaintext := some plaintext
  fromSlice bytes :=
    .ok ⟨String.ofList (bytes.map fun b => Char.ofNat b.toNat), none, 0, 0, none, "alice@a.test"⟩
  toJson payload := payload.title.toList.map fun c => UInt8.ofNat c.toNat

/-- The calendar that is shared. -/
def Share.sample : Share Unit := ⟨"f", ⟨1⟩, "alice@a.test", (), ()⟩

/-- The subscriber's row, accepted. -/
def CalendarFederation.sample : CalendarFederation where
  id := "f"
  calendarId := ⟨7⟩
  targetEmail := "bob@b.test"
  targetServerUrl := "https://a.test"
  status := .accepted
  syncToken := none
  lastSyncAt := none
  peerDomain := some "a.test"
  peerFingerprint := some "fp"
  capabilitySecret := some "secret"
  direction := some .inbound

/-- A run of the sample. -/
def MirrorSys.sample (ms : List (MirrorMove Unit)) : MirrorSys Unit :=
  MirrorSys.run .sample denver .sample MirrorSys.empty ms

/-- The subscriber has a mirror calendar and an accepted federation. -/
def subscribed : List (MirrorMove Unit) :=
  [.start (.scheduling (.createCalendar Io.ok ⟨⟨0⟩, "Work (shared)", none, ⟨7⟩, 0⟩) trivial),
    .call 0 {}, .start (.insertFederation .sample), .call 1 {}]

/-- A page with one event. -/
def onePage : PeerReply :=
  .page
    { authorCert := some "", items := [⟨"uid", 5, "standup"⟩], nextSince := 5, nextAfter := "uid" }

/-- A periodic pull and one that the peer asked for, both look before either creates. -/
def twoPulls : List (MirrorMove Unit) :=
  subscribed ++ [.start (.poll 1), .start (.notify 1 ⟨"a.test", "fp"⟩ "f"),
    .call 2 {}, .call 2 { keys := .ok () }, .call 2 { reply := some onePage }, .call 2 {},
    .call 3 {}, .call 3 {}, .call 3 { keys := .ok () }, .call 3 { reply := some onePage },
    .call 3 {},
    .call 2 { eventId := ⟨21⟩ }, .call 3 { eventId := ⟨22⟩ }]

/-- **Two pulls at a time** leave two copies of one remote event. -/
theorem not_oneCopy_twoPulls : ¬(MirrorSys.sample twoPulls).OneCopy := by
  decide +kernel

end Owney
