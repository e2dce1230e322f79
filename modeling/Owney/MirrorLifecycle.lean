import Owney.MirrorCopies

/-!
# The life of a subscription

An inbound federation starts as an invitation. The owner of the mirror calendar accepts it
or rejects it, pulls of an accepted one set its status to `syncing`, and a pull of the periodic
pass that fails sets it to `error`.

* `LifeBefore` — a program pulls a federation, and writes the result, after it has read an
  active row of it.
* `pulled_accepted` — so what is pulled was accepted by the owner.
* `lifecycle_iff` — an accepted federation stays in the set that is pulled exactly as long as no
  failure is recorded: `error` is in none of the lists, and nothing leads out of it but a
  pull that had started before.
-/

namespace Owney

open Programs Tables

variable {Cert : Type} {M : MirrorCrates Cert} {L : Locale} {S : Share Cert}

/-! ## The promise -/

/-- The owner of the mirror calendar accepted the invitation. -/
def AcceptedBy (past : List (MirrorEvent Cert)) (id : String) : Prop :=
  ∃ e ∈ past, ∃ a, e.call = ⟨.answerFederation id a .accepted, .ok ⟨⟩⟩ ∧
    ∃ f ∈ e.before.db.federations, f.id = id ∧ e.before.db.invited a f

/-- The federation is in `list_active_federations`, and `sync_one` does not refuse it. -/
def Eligible (w : MirrorWorld) (id : String) : Prop :=
  (∃ f ∈ orderBy (·.lastSync) (w.db.federations.filter (·.Active)), f.id = id) ∧
    ∃ f, w.db.federations.find? (·.id = id) = some f ∧ f.Active

/-- Only accepted federations are pulled, and they stay in the set that is pulled. -/
structure Lifecycle (past : List (MirrorEvent Cert)) : Prop where
  pulled : ∀ pre e post f since after, past = pre ++ e :: post →
    e.call.op = .getCapable f since after → f.direction = some .inbound ∧ AcceptedBy pre f.id
  eligible : ∀ pre e post id, past = pre ++ e :: post → AcceptedBy (pre ++ [e]) id →
    Eligible e.after id

/-- The requests the code makes: an invitation of a peer is stored as pending, and it is
accepted or rejected. -/
def MirrorRequest.Made : MirrorRequest → Prop
  | .insertFederation row => row.direction = some .inbound → row.status = .pending
  | .answerFederation _ _ status => status = .accepted ∨ status = .rejected
  | _ => True

/-! ## Before a call -/

/-- The program read this row, and it was active. -/
def ActiveRead (cs : MirrorCalls Cert) (f : CalendarFederation) : Prop :=
  (∃ id, ⟨.getFederation id, .ok (some f)⟩ ∈ cs ∧ f.Active) ∨
    ∃ fs, ⟨.listActiveFederations, .ok fs⟩ ∈ cs ∧ f ∈ fs

theorem ActiveRead.append {cs cs' : MirrorCalls Cert} {f : CalendarFederation}
    (h : ActiveRead cs f) : ActiveRead (cs ++ cs') f := by
  rcases h with ⟨id, h, hf⟩ | ⟨fs, h, hf⟩
  · exact .inl ⟨id, List.mem_append_left _ h, hf⟩
  · exact .inr ⟨fs, List.mem_append_left _ h, hf⟩

/-- What was the case before a call that has to do with a federation's row. -/
def LifeBefore (r : MirrorRequest) (cs : MirrorCalls Cert) : MirrorOp → Prop
  | .getCapable f _ _ => ActiveRead cs f
  | .updateFederationSyncToken id _ | .markFederationError id => ∃ f, ActiveRead cs f ∧ f.id = id
  | .insertFederation row => r = .insertFederation row
  | .answerFederation id a status => r = .answerFederation id a status
  | _ => True

/-- The program keeps the promises of `LifeBefore`. -/
abbrev KeepsLife {α : Type} (r : MirrorRequest) (p : MirrorProg Cert α)
    (cs : MirrorCalls Cert) : Prop :=
  p.Spec (LifeBefore r) (fun _ _ => True) cs

section Specs

variable {r : MirrorRequest} {cs : MirrorCalls Cert} {f : CalendarFederation}

theorem storeItem_life (remoteUid : String) (payload : EventPayload) :
    KeepsLife r (@storeItem Cert f remoteUid payload) cs := by
  refine spec_mirror.mpr ⟨trivial, ?_⟩
  rintro (e | _ | id)
  · trivial
  · refine spec_mirror.mpr ⟨trivial, ?_⟩
    rintro (e | id)
    · trivial
    · exact spec_mirror.mpr ⟨trivial, fun _ => trivial⟩
  · exact spec_mirror.mpr ⟨trivial, fun _ => trivial⟩

theorem applyItems_life {serverSecret : Cert} {peerDomain : String} {authorCert : Cert}
    (items : List SealedItem) (applied : ℕ) :
    KeepsLife r (applyItems M serverSecret f peerDomain authorCert items applied) cs := by
  induction items generalizing cs applied with
  | nil => trivial
  | cons item items ih =>
    have hone : KeepsLife r (applyOne M serverSecret f peerDomain authorCert item) cs := by
      unfold applyOne
      split
      · trivial
      · exact storeItem_life _ _
    refine Prog.Spec.seq (J := fun _ _ => True) hone fun more result _ => ?_
    rcases result with e | _
    · exact ih applied
    · exact ih (applied + 1)

theorem applyPage_life {serverSecret : Cert} (page : SyncPage) :
    KeepsLife r (applyPage M serverSecret f page) cs := by
  unfold applyPage
  split
  · trivial
  split
  · split <;> trivial
  split
  · trivial
  · exact Prog.Spec.seq (J := fun _ _ => True) (applyItems_life _ 0) fun _ _ _ => trivial

theorem pullFrom_life {serverSecret : Cert} (rounds : ℕ) (hf : ActiveRead cs f) (since : ℤ)
    (after : String) (applied : ℕ) :
    KeepsLife r (pullFrom M serverSecret f rounds since after applied) cs := by
  induction rounds generalizing cs since after applied with
  | zero => trivial
  | succ rounds ih =>
    refine spec_mirror.mpr ⟨hf, ?_⟩
    rintro (text | code | page)
    · trivial
    · dsimp only
      split <;> trivial
    · refine Prog.Spec.seq (J := fun _ _ => True) (applyPage_life page) fun more result _ => ?_
      rcases result with e | n
      · trivial
      dsimp only
      split
      · exact ih hf.append.append _ _ _
      · refine spec_mirror.mpr ⟨⟨f, hf.append.append, rfl⟩, ?_⟩
        rintro (e | _) <;> trivial

theorem syncFederation_life (rounds : ℕ) (hf : ActiveRead cs f) :
    KeepsLife r (syncFederation M rounds f) cs := by
  unfold syncFederation
  split
  · trivial
  · trivial
  · refine spec_mirror.mpr ⟨trivial, ?_⟩
    rintro (e | serverSecret)
    · trivial
    · exact pullFrom_life rounds hf.append _ _ _

theorem syncOne_life (rounds : ℕ) (federationId : String) :
    KeepsLife r (syncOne M rounds federationId) cs := by
  refine spec_mirror.mpr ⟨trivial, ?_⟩
  rintro (e | _ | f)
  · trivial
  · trivial
  dsimp only
  split
  · rename_i hactive
    exact syncFederation_life rounds (.inl ⟨federationId, List.mem_append_right _ (by simp), hactive⟩)
  · trivial

theorem syncEach_life (rounds : ℕ) (fs : List CalendarFederation)
    (hfs : ∀ f ∈ fs, ActiveRead cs f) (run : SyncRunStats) :
    KeepsLife r (syncEach M rounds fs run) cs := by
  induction fs generalizing cs run with
  | nil => trivial
  | cons f fs ih =>
    have hf : ActiveRead cs f := hfs f List.mem_cons_self
    have hrest : ∀ more, ∀ g ∈ fs, ActiveRead (cs ++ more) g := fun more g hg =>
      (hfs g (List.mem_cons_of_mem _ hg)).append
    refine Prog.Spec.seq (J := fun _ _ => True) (syncFederation_life rounds hf)
      fun more result _ => ?_
    rcases result with _ | e | n
    · trivial
    · refine spec_mirror.mpr ⟨⟨f, hf.append, rfl⟩, fun _ => ?_⟩
      rw [List.append_assoc]
      exact ih (hrest _) _
    · exact ih (hrest _) _

/-- **Every program** pulls and writes after it has read an active row. -/
theorem mirrorHandle_life (r : MirrorRequest) : KeepsLife r (mirrorHandle M r) [] := by
  cases r with
  | poll rounds =>
    refine Prog.Spec.seq (J := fun _ _ => True) ?_ fun _ _ _ => trivial
    refine spec_mirror.mpr ⟨trivial, ?_⟩
    rintro (e | fs)
    · trivial
    · refine Prog.Spec.seq (J := fun _ _ => True) ?_ fun _ _ _ => trivial
      exact syncEach_life rounds fs (fun f hf => .inr ⟨fs, List.mem_append_right _ (by simp), hf⟩) _
  | notify rounds peer federationId =>
    refine Prog.Spec.seq (J := fun _ _ => True) ?_ fun _ _ _ => trivial
    refine spec_mirror.mpr ⟨trivial, ?_⟩
    rintro (e | _ | f)
    · trivial
    · trivial
    dsimp only
    split
    · exact syncOne_life rounds federationId
    · trivial
  | insertFederation row => exact spec_mirror.mpr ⟨rfl, fun _ => trivial⟩
  | answerFederation id accountId status => exact spec_mirror.mpr ⟨rfl, fun _ => trivial⟩
  | scheduling o hlocal => exact spec_mirror.mpr ⟨trivial, fun _ => trivial⟩
  | serving o => exact spec_mirror.mpr ⟨trivial, fun _ => trivial⟩
  | tick secs => exact spec_mirror.mpr ⟨trivial, fun _ => trivial⟩

end Specs

/-! ## What a call does to the rows -/

/-- The change of the federations by a call. -/
inductive RowsChange (w : MirrorWorld) (call : Call (MirrorOp.Ret Cert)) (w' : MirrorWorld) :
    Prop where
  | kept (unmarked : ∀ id, call ≠ ⟨.markFederationError id, .ok ⟨⟩⟩)
      (unanswered : ∀ id a status, call ≠ ⟨.answerFederation id a status, .ok ⟨⟩⟩)
      (rows : w'.db.federations = w.db.federations)
  | stored {id : String} {token : Option String} {now : ℤ}
      (made : call.op = .updateFederationSyncToken id token)
      (rows : w'.db.federations = update (·.id = id)
        (fun f => { f with syncToken := token, lastSyncAt := some now, status := .syncing })
        w.db.federations)
  | failed {id : String} (made : call = ⟨.markFederationError id, .ok ⟨⟩⟩)
      (rows : w'.db.federations =
        update (·.id = id) (fun f => { f with status := .error }) w.db.federations)
  | answered {id : String} {a : AccountId} {status : FederationStatus}
      (made : call = ⟨.answerFederation id a status, .ok ⟨⟩⟩)
      (there : ∃ f ∈ w.db.federations, f.id = id ∧ w.db.invited a f)
      (rows : w'.db.federations = update (fun f => f.id = id ∧ w.db.invited a f)
        (fun f => { f with status := status }) w.db.federations)
  | inserted {row : CalendarFederation} (made : call.op = .insertFederation row)
      (new : row.id ∉ w.db.federations.map (·.id))
      (rows : w'.db.federations = w.db.federations ++ [row.unsynced])

theorem rowsChange {w w' : MirrorWorld} {c : MirrorChoice Cert} {o : MirrorOp} {res : o.Ret Cert}
    (h : o.exec M L S c w = some (res, w')) : RowsChange w ⟨o, res⟩ w' := by
  have heffect := mirror_effect h
  cases o with
  | updateFederationSyncToken id token =>
    rcases MirrorWorld.call_cases (Option.some.inj h) with ⟨e, rfl, rfl⟩ | ⟨a, db, hok, rfl, rfl⟩
    · exact .kept (by rintro id ⟨⟩) (by rintro id a status ⟨⟩) rfl
    · simp only [updateFederationSyncTokenTx, Tx.exec_eq_ok] at hok
      obtain ⟨-, rfl⟩ := hok
      exact .stored rfl rfl
  | markFederationError id =>
    rcases MirrorWorld.call_cases (Option.some.inj h) with ⟨e, rfl, rfl⟩ | ⟨a, db, hok, rfl, rfl⟩
    · exact .kept (by rintro id ⟨⟩) (by rintro id a status ⟨⟩) rfl
    · simp only [markFederationErrorTx, Tx.exec_eq_ok] at hok
      obtain ⟨-, rfl⟩ := hok
      exact .failed rfl rfl
  | insertFederation row =>
    rcases MirrorWorld.call_cases (Option.some.inj h) with ⟨e, rfl, rfl⟩ | ⟨a, db, hok, rfl, rfl⟩
    · exact .kept (by rintro id ⟨⟩) (by rintro id a status ⟨⟩) rfl
    · simp only [insertFederationTx, Tx.bind_eq_ok, Tx.get_eq_ok, Tx.require_eq_ok,
        Tx.exec_eq_ok] at hok
      obtain ⟨_, _, ⟨rfl, rfl⟩, _, _, ⟨hnew, rfl⟩, _, _, ⟨-, rfl⟩, _, _, ⟨-, rfl⟩, -, rfl⟩ := hok
      exact .inserted rfl hnew rfl
  | answerFederation id accountId status =>
    rcases MirrorWorld.call_cases (Option.some.inj h) with ⟨e, rfl, rfl⟩ | ⟨a, db, hok, rfl, rfl⟩
    · exact .kept (by rintro id ⟨⟩) (by rintro id a status ⟨⟩) rfl
    · simp only [answerFederationTx, Tx.bind_eq_ok, Tx.get_eq_ok, Tx.require_eq_ok,
        Tx.exec_eq_ok] at hok
      obtain ⟨_, _, ⟨rfl, rfl⟩, _, _, ⟨hany, rfl⟩, -, rfl⟩ := hok
      refine .answered rfl ?_ rfl
      obtain ⟨f, hf, hinvited⟩ := List.any_eq_true.mp hany
      exact ⟨f, hf, of_decide_eq_true hinvited⟩
  | getFederation id | listActiveFederations | federationLocalEvent federationId remoteUid
  | serverKeys | getCapable f since after | tick secs | serving o
  | updateRemoteCalendarEvent id payload | createRemoteCalendarEvent calendarId federationId payload
  | setFederationEventMap federationId remoteUid id authorEmail | scheduling o =>
    refine .kept (by rintro id ⟨⟩) (by rintro id a status ⟨⟩) ?_
    cases heffect with
    | kept quiet db | mapped made event db | created made undrawn new db drawn | updated made db =>
      rw [db]
    | stored made db => cases made
    | inserted made new calendar db => cases made
    | answered made db =>
      rcases made with ⟨id, made⟩ | ⟨id, a, status, made⟩ <;> cases made
    | @scheduled o made undrawn db drawn => rw [db, (schedulingStep_cases L w.db o).1]

/-! ## The past -/

variable (M L S) in
/-- A past of the system. -/
abbrev LifePast : List (MirrorEvent Cert) → MirrorWorld → Prop :=
  Past (MirrorOp.exec M L S) LifeBefore MirrorWorld.empty

variable (M L S) in
/-- What was the case when a call was made. -/
abbrev LifeAt : List (MirrorEvent Cert) → MirrorEvent Cert → Prop :=
  Past.At (MirrorOp.exec M L S) LifeBefore MirrorWorld.empty

/-- Ids are unique, and an inbound federation that is not pending was answered. -/
structure LifeInv (past : List (MirrorEvent Cert)) (w : MirrorWorld) : Prop where
  nodup : (w.db.federations.map (·.id)).Nodup
  answered : ∀ f ∈ w.db.federations, f.direction = some .inbound →
    f.status = .pending ∨ f.status = .rejected ∨ AcceptedBy past f.id

section Past

variable {past pre post : List (MirrorEvent Cert)} {w : MirrorWorld} {e : MirrorEvent Cert} {i : ℕ}
  {f : CalendarFederation} {id : String}

theorem AcceptedBy.append {more : List (MirrorEvent Cert)} (h : AcceptedBy past id) :
    AcceptedBy (past ++ more) id := by
  obtain ⟨e, he, h⟩ := h
  exact ⟨e, List.mem_append_left _ he, h⟩

theorem LifeInv.of_active (h : LifeInv past w) (hf : f ∈ w.db.federations) (hactive : f.Active) :
    AcceptedBy past f.id := by
  obtain ⟨hinbound, hstatus⟩ := hactive
  rcases h.answered f hf hinbound with hp | hr | hacc
  · rcases hstatus with hs | hs <;> rw [hs] at hp <;> cases hp
  · rcases hstatus with hs | hs <;> rw [hs] at hr <;> cases hr
  · exact hacc

/-- A row that was read as active was accepted. -/
theorem accepted_of_read (h : LifePast M L S past w)
    (hinv : ∀ pre x post, past = pre ++ x :: post → LifeInv pre x.before)
    (hread : ActiveRead (callsOf i past) f) :
    f.direction = some .inbound ∧ AcceptedBy past f.id := by
  obtain ⟨x, hx, hf, hactive⟩ : ∃ x ∈ past, f ∈ x.before.db.federations ∧ f.Active := by
    rcases hread with ⟨id, hcall, hactive⟩ | ⟨fs, hcall, hmem⟩
    · obtain ⟨x, hx, -, hxc⟩ := mem_callsOf.mp hcall
      obtain ⟨pre, post, -, hat⟩ := h.exists_at hx
      have hexec := hat.possible
      rw [hxc] at hexec
      have hfind := (MirrorWorld.call_query (Option.some.inj hexec)).2 _ rfl
      exact ⟨x, hx, List.mem_of_find?_eq_some hfind, hactive⟩
    · obtain ⟨x, hx, -, hxc⟩ := mem_callsOf.mp hcall
      obtain ⟨pre, post, -, hat⟩ := h.exists_at hx
      have hexec := hat.possible
      rw [hxc] at hexec
      have hlist := (MirrorWorld.call_query (Option.some.inj hexec)).2 _ rfl
      rw [← hlist, mem_orderBy] at hmem
      obtain ⟨hf, hactive⟩ := List.mem_filter.mp hmem
      exact ⟨x, hx, hf, of_decide_eq_true hactive⟩
  obtain ⟨pre, post, rfl⟩ := List.append_of_mem hx
  exact ⟨hactive.1, ((hinv pre x post rfl).of_active hf hactive).append⟩

theorem lifeInv_step (hat : LifeAt M L S past e) (hmade : e.req.Made)
    (hinv : ∀ pre x post, past = pre ++ x :: post → LifeInv pre x.before)
    (h : LifeInv past e.before) : LifeInv (past ++ [e]) e.after := by
  have hkept : ∀ f ∈ e.before.db.federations, f.direction = some .inbound →
      f.status = .pending ∨ f.status = .rejected ∨ AcceptedBy (past ++ [e]) f.id :=
    fun f hf hin => (h.answered f hf hin).imp_right (Or.imp_right (·.append))
  have hguard := hat.guard
  have hchange := rowsChange hat.possible
  refine ⟨?_, ?_⟩
  · cases hchange with
    | kept unmarked unanswered rows => exact rows ▸ h.nodup
    | stored made rows | failed made rows | answered made there rows =>
      rw [rows, map_update _ (by intro r; rfl)]
      exact h.nodup
    | inserted made new rows =>
      rw [rows]
      exact nodup_map_insert h.nodup new
  · intro f hf hin
    cases hchange with
    | kept unmarked unanswered rows => exact hkept f (rows ▸ hf) hin
    | @stored id token now made rows =>
      rw [rows] at hf
      rcases update_cases hf with ⟨f₀, hf₀, hid, rfl⟩ | ⟨hf, -⟩
      · rw [show e.call.op = _ from made] at hguard
        obtain ⟨g, hread, hg⟩ := hguard
        have hacc := (accepted_of_read hat.earlier hinv hread).2
        rw [hg.trans (of_decide_eq_true hid).symm] at hacc
        exact .inr (.inr hacc.append)
      · exact hkept f hf hin
    | @failed id made rows =>
      rw [rows] at hf
      rcases update_cases hf with ⟨f₀, hf₀, hid, rfl⟩ | ⟨hf, -⟩
      · rw [show e.call.op = _ from congrArg Call.op made] at hguard
        obtain ⟨g, hread, hg⟩ := hguard
        have hacc := (accepted_of_read hat.earlier hinv hread).2
        rw [hg.trans (of_decide_eq_true hid).symm] at hacc
        exact .inr (.inr hacc.append)
      · exact hkept f hf hin
    | @answered id a status made there rows =>
      rw [rows] at hf
      rcases update_cases hf with ⟨f₀, hf₀, hp, rfl⟩ | ⟨hf, -⟩
      · obtain ⟨hid, hinvited⟩ := of_decide_eq_true hp
        rw [show e.call.op = _ from congrArg Call.op made] at hguard
        rw [show e.req = _ from hguard] at hmade
        rcases hmade with rfl | rfl
        · refine .inr (.inr ⟨e, List.mem_append_right _ (List.mem_singleton_self e), a, ?_⟩)
          exact ⟨hid ▸ made, f₀, hf₀, rfl, hinvited⟩
        · exact .inr (.inl rfl)
      · exact hkept f hf hin
    | @inserted row made new rows =>
      rw [rows] at hf
      rcases List.mem_append.mp hf with hf | hf
      · exact hkept f hf hin
      · obtain rfl := List.mem_singleton.mp hf
        rw [show e.call.op = _ from made] at hguard
        rw [show e.req = _ from hguard] at hmade
        exact .inl (hmade hin)

theorem lifeInv_past (h : LifePast M L S past w) (hmade : ∀ e ∈ past, e.req.Made) :
    LifeInv past w := by
  revert hmade
  refine h.invariant (I := fun past w => (∀ e ∈ past, e.req.Made) → LifeInv past w) ?_ ?_
  · exact fun _ => ⟨List.nodup_nil, fun f hf => absurd hf List.not_mem_nil⟩
  · intro past e hat hall ih hmade
    have hpast : ∀ x ∈ past, x.req.Made := fun x hx => hmade x (List.mem_append_left _ hx)
    refine lifeInv_step hat (hmade e (by simp)) ?_ (ih hpast)
    rintro pre x post rfl
    exact hall pre x post rfl fun y hy => hpast y (by simp [hy])

/-- **Only what was accepted is pulled.** -/
theorem pulled_accepted (h : LifePast M L S past w) (hmade : ∀ e ∈ past, e.req.Made) {since : ℤ}
    {after : String} (hsplit : past = pre ++ e :: post) (hop : e.call.op = .getCapable f since after) :
    f.direction = some .inbound ∧ AcceptedBy pre f.id := by
  have hat := h.at_of_split hsplit
  have hread := hat.guard
  rw [hop] at hread
  refine accepted_of_read hat.earlier ?_ hread
  rintro pre' x post' rfl
  have hcut := (hat.earlier.at_of_split rfl).earlier
  exact lifeInv_past hcut fun y hy => hmade y (by rw [hsplit]; simp [hy])

/-! ## Staying eligible -/

/-- A failed pull is recorded: `mark_federation_error` succeeds. -/
def RecordsFailure : Call (MirrorOp.Ret Cert) → Bool
  | ⟨.markFederationError _, .ok _⟩ => true
  | _ => false

theorem recordsFailure_iff {call : Call (MirrorOp.Ret Cert)} :
    RecordsFailure call ↔ ∃ id, call = ⟨.markFederationError id, .ok ⟨⟩⟩ := by
  constructor
  · intro h
    unfold RecordsFailure at h
    split at h
    · rename_i id u
      exact ⟨id, rfl⟩
    · cases h
  · rintro ⟨id, rfl⟩
    rfl

/-- No failure is recorded. -/
def NoneFailed (past : List (MirrorEvent Cert)) : Prop := ∀ e ∈ past, ¬RecordsFailure e.call

instance (past : List (MirrorEvent Cert)) : Decidable (NoneFailed past) :=
  inferInstanceAs (Decidable (∀ e ∈ past, ¬RecordsFailure e.call))

/-- There is an active row. -/
def HasActive (w : MirrorWorld) (id : String) : Prop :=
  ∃ f ∈ w.db.federations, f.id = id ∧ f.Active

theorem HasActive.eligible (h : HasActive w id) (hnd : (w.db.federations.map (·.id)).Nodup) :
    Eligible w id := by
  obtain ⟨f, hf, rfl, hactive⟩ := h
  refine ⟨⟨f, mem_orderBy.mpr (List.mem_filter.mpr ⟨hf, decide_eq_true hactive⟩), rfl⟩, f, ?_, hactive⟩
  exact find?_eq_some_of_key hnd hf (decide_eq_true rfl) fun g hg => of_decide_eq_true hg

/-- One step that records no failure. -/
theorem HasActive.step (hat : LifeAt M L S past e)
    (hok : ¬RecordsFailure e.call) (h : HasActive e.before id) :
    HasActive e.after id := by
  obtain ⟨f, hf, rfl, hactive⟩ := h
  cases rowsChange hat.possible with
  | kept unmarked unanswered rows => exact ⟨f, rows ▸ hf, rfl, hactive⟩
  | @stored id' token now made rows =>
    rw [HasActive, rows]
    by_cases hid : f.id = id'
    · exact ⟨_, mem_update.mpr ⟨f, hf, if_pos (decide_eq_true hid)⟩, rfl, hactive.1, .inr rfl⟩
    · exact ⟨f, mem_update.mpr ⟨f, hf, if_neg (by simpa using hid)⟩, rfl, hactive⟩
  | failed made rows => exact absurd (recordsFailure_iff.mpr ⟨_, made⟩) hok
  | @answered id' a status made there rows =>
    -- an active row is no invitation
    rw [HasActive, rows]
    refine ⟨f, mem_update.mpr ⟨f, hf, if_neg ?_⟩, rfl, hactive⟩
    intro hp
    obtain ⟨-, hinvited⟩ := of_decide_eq_true hp
    have hpending : f.status = .pending := (of_decide_eq_true hinvited).2.1
    rcases hactive.2 with hs | hs <;> rw [hs] at hpending <;> cases hpending
  | inserted made new rows =>
    rw [HasActive, rows]
    exact ⟨f, List.mem_append_left _ hf, rfl, hactive⟩

/-- Acceptance makes the row active. -/
theorem hasActive_of_accepts (hat : LifeAt M L S past e) {a : AccountId}
    (hcall : e.call = ⟨.answerFederation id a .accepted, .ok ⟨⟩⟩) : HasActive e.after id := by
  have hchange := rowsChange hat.possible
  cases hchange with
  | kept unmarked unanswered rows => exact absurd hcall (unanswered id a .accepted)
  | stored made rows =>
    rw [show e.call.op = _ from congrArg Call.op hcall] at made
    cases made
  | failed made rows => cases hcall.symm.trans made
  | @answered id' a' status made there rows =>
    cases hcall.symm.trans made
    obtain ⟨f, hf, rfl, hinvited⟩ := there
    rw [HasActive, rows]
    refine ⟨_, mem_update.mpr ⟨f, hf, if_pos (decide_eq_true ⟨rfl, hinvited⟩)⟩, rfl, ?_⟩
    exact ⟨(of_decide_eq_true hinvited).1, .inl rfl⟩
  | inserted made new rows =>
    rw [show e.call.op = _ from congrArg Call.op hcall] at made
    cases made

/-- **Every past** that records no failure. -/
theorem hasActive_of_accepted (h : LifePast M L S past w) (hnone : NoneFailed past)
    (hacc : AcceptedBy past id) : HasActive w id := by
  obtain ⟨e, he, a, hcall, -⟩ := hacc
  obtain ⟨pre, post, rfl, hat⟩ := h.exists_at he
  refine h.persists (J := (HasActive · id)) rfl (fun mid x rest hpost hx hactive => ?_)
    (hasActive_of_accepts hat hcall)
  exact hactive.step hx (hnone x (by simp [hpost]))

/-- A recorded failure takes the federation out. -/
theorem not_eligible_of_failed (hat : LifeAt M L S past e)
    (hcall : e.call = ⟨.markFederationError id, .ok ⟨⟩⟩) : ¬Eligible e.after id := by
  rintro ⟨-, f, hfind, -, hstatus⟩
  have hf := List.mem_of_find?_eq_some hfind
  have hid : f.id = id := by simpa using List.find?_some hfind
  have herror : f.status = .error := by
    cases rowsChange hat.possible with
    | kept unmarked unanswered rows => exact absurd hcall (unmarked id)
    | stored made rows =>
      rw [show e.call.op = _ from congrArg Call.op hcall] at made
      cases made
    | failed made rows =>
      cases hcall.symm.trans made
      rw [rows] at hf
      rcases update_cases hf with ⟨f₀, -, -, rfl⟩ | ⟨-, hp⟩
      · rfl
      · exact absurd (decide_eq_true hid) hp
    | answered made there rows => cases hcall.symm.trans made
    | inserted made new rows =>
      rw [show e.call.op = _ from congrArg Call.op hcall] at made
      cases made
  rcases hstatus with hs | hs <;> rw [hs] at herror <;> cases herror

/-- A failure is recorded of a federation that had been accepted. -/
theorem noneFailed_of_lifecycle (h : LifePast M L S past w) (hmade : ∀ e ∈ past, e.req.Made)
    (hlife : Lifecycle past) : NoneFailed past := by
  intro e he hfailed
  obtain ⟨id, hcall⟩ := recordsFailure_iff.mp hfailed
  obtain ⟨pre, post, hsplit, hat⟩ := h.exists_at he
  have hguard := hat.guard
  rw [show e.call.op = _ from congrArg Call.op hcall] at hguard
  obtain ⟨f, hread, rfl⟩ := hguard
  have hinv : ∀ pre' x post', pre = pre' ++ x :: post' → LifeInv pre' x.before := by
    intro pre' x post' hpre
    exact lifeInv_past (hat.earlier.at_of_split hpre).earlier
      fun y hy => hmade y (by simp [hsplit, hpre, hy])
  have hacc := (accepted_of_read hat.earlier hinv hread).2
  exact not_eligible_of_failed hat hcall (hlife.eligible pre e post f.id hsplit hacc.append)

theorem lifecycle_of_noneFailed (h : LifePast M L S past w) (hmade : ∀ e ∈ past, e.req.Made)
    (hnone : NoneFailed past) : Lifecycle past := by
  refine ⟨fun pre e post f since after hsplit hop => pulled_accepted h hmade hsplit hop, ?_⟩
  intro pre e post id hsplit hacc
  have hat := h.at_of_split hsplit
  have hpast : LifePast M L S (pre ++ [e]) e.after :=
    .snoc hat.earlier hat.possible hat.guard hat.same
  have hsub : pre ++ [e] ⊆ past := by
    rw [hsplit]
    exact List.append_subset.mpr ⟨List.subset_append_left .., by simp⟩
  have hactive := hasActive_of_accepted hpast (fun x hx => hnone x (hsub hx)) hacc
  exact hactive.eligible (lifeInv_past hpast fun x hx => hmade x (hsub hx)).nodup

end Past

/-- The past of a run, and the requests in it. -/
theorem lifePast_run (moves : List (MirrorMove Cert)) (hmade : ∀ r, .start r ∈ moves → r.Made) :
    LifePast M L S (MirrorSys.run M L S MirrorSys.empty moves).past
        (MirrorSys.run M L S MirrorSys.empty moves).world ∧
      ∀ e ∈ (MirrorSys.run M L S MirrorSys.empty moves).past, e.req.Made := by
  have hspec : (MirrorSys.run M L S MirrorSys.empty moves).Specified (MirrorOp.exec M L S)
      LifeBefore (fun _ _ _ => True) MirrorWorld.empty :=
    Programs.run_specified (mirrorHandle_life (M := M)) moves specified_init
  refine ⟨hspec.past, fun e he => ?_⟩
  rcases request_run (hspec.started e he) with h | h
  · cases h
  · exact hmade _ h

/-- **The life of a subscription.** In every run, only what the owner accepted is pulled; and an
accepted federation stays eligible at all times exactly if no failure is recorded. -/
theorem lifecycle_iff (moves : List (MirrorMove Cert))
    (hmade : ∀ r, .start r ∈ moves → r.Made) :
    Lifecycle (MirrorSys.run M L S MirrorSys.empty moves).past ↔
      NoneFailed (MirrorSys.run M L S MirrorSys.empty moves).past := by
  obtain ⟨hpast, hreal⟩ := lifePast_run (M := M) (L := L) (S := S) moves hmade
  exact ⟨noneFailed_of_lifecycle hpast hreal, lifecycle_of_noneFailed hpast hreal⟩

/-! ## One failure -/

/-- An invitation to a mirror calendar is stored and accepted. -/
def acceptedMoves : List (MirrorMove Unit) :=
  [.start (.scheduling (.createCalendar Io.ok ⟨⟨0⟩, "Work (shared)", none, ⟨7⟩, 0⟩) trivial),
    .call 0 {}, .start (.insertFederation { CalendarFederation.sample with status := .pending }),
    .call 1 {}, .start (.answerFederation "f" ⟨0⟩ .accepted), .call 2 {}]

/-- Then the periodic pass finds the peer down, once. -/
def peerDown : List (MirrorMove Unit) :=
  acceptedMoves ++ [.start (.poll 1), .call 3 {}, .call 3 { keys := .ok () },
    .call 3 { reply := some (.network "connection refused") }, .call 3 {}]

theorem made_peerDown : ∀ r, .start r ∈ peerDown → r.Made := by
  intro r hr
  simp only [peerDown, acceptedMoves, List.cons_append, List.nil_append, List.mem_cons,
    List.not_mem_nil, or_false, Move.start.injEq, reduceCtorEq, false_or] at hr
  rcases hr with rfl | rfl | rfl | rfl
  · trivial
  · exact fun _ => rfl
  · exact .inl rfl
  · trivial

/-- **One failed pull** takes an accepted federation out of the set. -/
theorem not_lifecycle_peerDown : ¬Lifecycle (MirrorSys.sample peerDown).past := by
  intro h
  obtain ⟨hpast, hreal⟩ := lifePast_run (M := .sample) (L := denver) (S := .sample) peerDown
    made_peerDown
  exact absurd (noneFailed_of_lifecycle hpast hreal h) (by decide +kernel)

/-- The pass finds the peer up. -/
def peerUp : List (MirrorMove Unit) :=
  acceptedMoves ++ [.start (.poll 1), .call 3 {}, .call 3 { keys := .ok () },
    .call 3 { reply := some (.page {}) }, .call 3 {}]

theorem made_peerUp : ∀ r, .start r ∈ peerUp → r.Made := by
  intro r hr
  simp only [peerUp, acceptedMoves, List.cons_append, List.nil_append, List.mem_cons,
    List.not_mem_nil, or_false, Move.start.injEq, reduceCtorEq, false_or] at hr
  rcases hr with rfl | rfl | rfl | rfl
  · trivial
  · exact fun _ => rfl
  · exact .inl rfl
  · trivial

/-- A pull that succeeds leaves the federation where it is. -/
theorem lifecycle_peerUp : Lifecycle (MirrorSys.sample peerUp).past :=
  (lifecycle_iff peerUp made_peerUp).mpr (by decide +kernel)

end Owney
