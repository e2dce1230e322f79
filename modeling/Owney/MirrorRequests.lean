import Mathlib.Data.List.Chain
import Owney.Lib.ProgramRuns
import Owney.MirrorServing

/-!
# How many pages a pull asks for

`sync_federation` goes on while the peer says that there is more, from where the peer says that
the next page begins.

* `Pulls` — the requests of a pull with their answers: each one after the first asks for the
  position that the page before it ends with.
* `not_boundedPull_more` — a peer that always has more is asked without end.
* `pulls_bounded` — a pull ends exactly if the peer at some time gives an answer that ends it;
  one that serves an unchanging calendar does so, and soon.
-/

namespace Owney

open Programs Tables

section Requests

variable {Cert : Type} (M : MirrorCrates Cert) (L : Locale) (S : Share Cert)

/-! ## Requests -/

/-- A request of a pull, by the position it asks for, and its answer. -/
abbrev Exchange : Type := Position × PeerReply

/-- The request that a call makes. -/
def exchange : Call (MirrorOp.Ret Cert) → Option Exchange
  | ⟨.getCapable _ since after, reply⟩ => some (toLex (since, after), reply)
  | _ => none

/-- The requests of a run. -/
def exchanges (cs : List (Call (MirrorOp.Ret Cert))) : List Exchange := cs.filterMap exchange

/-- The page can be applied: it has a certificate, or needs none. -/
def SyncPage.Applicable (page : SyncPage) : Prop :=
  match page.authorCert with
  | none => page.items = []
  | some armored => ∃ authorCert, M.certFromBytes armored = .ok authorCert

/-- An answer after which a pull goes on. -/
def PeerReply.Continues (reply : PeerReply) : Prop :=
  ∃ page, reply = .page page ∧ page.hasMore = true ∧ page.Applicable M

/-- **The requests of a pull**, from a position on. -/
inductive Pulls : Position → List Exchange → Prop where
  | nil (p : Position) : Pulls p []
  | last (p : Position) {reply : PeerReply} (ends : ¬reply.Continues M) : Pulls p [(p, reply)]
  | more (p : Position) {page : SyncPage} {xs : List Exchange} (hasMore : page.hasMore = true)
      (applicable : page.Applicable M) (next : Pulls page.position xs) :
      Pulls p ((p, .page page) :: xs)

/-- The answers are the first ones of these. -/
def Answers (answers : ℕ → PeerReply) (xs : List Exchange) : Prop :=
  ∀ i x, xs[i]? = some x → x.2 = answers i

/-- However long a pull from a peer with these answers goes on, its requests are bounded. -/
def BoundedPull (f : CalendarFederation) (answers : ℕ → PeerReply) : Prop :=
  ∃ n, ∀ rounds w cs result w',
    (syncFederation M rounds f).Ran (MirrorOp.exec M L S) w cs result w' →
    Answers answers (exchanges cs) → (exchanges cs).length ≤ n

/-- The answer of a peer that serves these events. -/
def Exchange.Served (db : SchedulingDb) (x : Exchange) : Prop :=
  ∃ seed, x.2 = calendarSync M S seed db (ofLex x.1).1 (ofLex x.1).2

/-- The served events after a position. -/
def eventsAfter (db : SchedulingDb) (calendarId : CalendarId) (p : Position) :
    List CalendarEvent :=
  db.events.filter fun e => e.Served calendarId ∧ p < e.position

variable {M L S} {serverSecret authorCert : Cert} {f : CalendarFederation} {peerDomain : String}
  {w w' : MirrorWorld} {cs : List (Call (MirrorOp.Ret Cert))} {page : SyncPage}

/-! ## What a run asks for -/

theorem exchanges_append (cs cs' : List (Call (MirrorOp.Ret Cert))) :
    exchanges (cs ++ cs') = exchanges cs ++ exchanges cs' :=
  List.filterMap_append

theorem exchanges_snoc {call : Call (MirrorOp.Ret Cert)} (h : exchanges cs = [])
    (hcall : exchange call = none) : exchanges (cs ++ [call]) = [] := by
  rw [exchanges_append, h, exchanges, List.filterMap_cons_none hcall]
  rfl

/-- Applying an item asks for nothing. -/
theorem spec_applyOne {item : SealedItem} (h : exchanges cs = []) :
    (applyOne M serverSecret f peerDomain authorCert item).Spec (fun _ _ => True)
      (fun cs _ => exchanges cs = []) cs := by
  unfold applyOne
  split
  · exact h
  refine ⟨trivial, ?_⟩
  rintro (e | _ | localId)
  · exact exchanges_snoc h rfl
  · refine ⟨trivial, ?_⟩
    rintro (e | localId)
    · exact exchanges_snoc (exchanges_snoc h rfl) rfl
    · exact ⟨trivial, fun r => exchanges_snoc (exchanges_snoc (exchanges_snoc h rfl) rfl) rfl⟩
  · exact ⟨trivial, fun r => exchanges_snoc (exchanges_snoc h rfl) rfl⟩

theorem spec_applyItems {items : List SealedItem} {n : ℕ} (h : exchanges cs = []) :
    (applyItems M serverSecret f peerDomain authorCert items n).Spec (fun _ _ => True)
      (fun cs _ => exchanges cs = []) cs := by
  induction items generalizing n cs with
  | nil => exact h
  | cons item items ih =>
    refine Prog.Spec.seq (spec_applyOne h) ?_
    rintro more (e | _) hmore
    · exact ih hmore
    · exact ih hmore

/-- Applying a page asks for nothing, and succeeds if the page is applicable. -/
theorem spec_applyPage (hf : f.peerDomain ≠ none) :
    (applyPage M serverSecret f page).Spec (fun _ _ => True)
      (fun cs result => exchanges cs = [] ∧ ((∃ n, result = .ok n) ↔ page.Applicable M)) [] := by
  unfold applyPage SyncPage.Applicable
  rcases hpeer : f.peerDomain with _ | peerDomain
  · exact absurd hpeer hf
  rcases hcert : page.authorCert with _ | armored
  · dsimp only
    split_ifs with hempty
    · exact ⟨rfl, fun _ => List.isEmpty_iff.mp hempty, fun _ => ⟨0, rfl⟩⟩
    · refine ⟨rfl, nofun, fun h => absurd (List.isEmpty_iff.mpr h) hempty⟩
  · dsimp only
    split
    · rename_i e hbytes
      refine ⟨rfl, nofun, ?_⟩
      rintro ⟨authorCert, hok⟩
      cases hbytes.symm.trans hok
    · rename_i authorCert hbytes
      refine Prog.Spec.seq (spec_applyItems rfl) ?_
      intro more n hmore
      exact ⟨hmore, fun _ => ⟨authorCert, hbytes⟩, fun _ => ⟨n, rfl⟩⟩

theorem exchanges_ask {since : ℤ} {after : String} {reply : PeerReply} :
    exchanges (⟨.getCapable f since after, reply⟩ :: cs : List (Call (MirrorOp.Ret Cert))) =
      (toLex (since, after), reply) :: exchanges cs := rfl

theorem PeerReply.continues_page :
    (PeerReply.page page).Continues M ↔ page.hasMore = true ∧ page.Applicable M := by
  constructor
  · rintro ⟨_, ⟨⟩, h⟩
    exact h
  · exact fun h => ⟨page, rfl, h⟩

/-- **The loop asks** for where the page before ended, as long as an answer continues it. -/
theorem pulls_of_pullFrom (hf : f.peerDomain ≠ none) {rounds : ℕ} {since : ℤ} {after : String}
    {applied : ℕ} {result : Option (Except SyncError ℕ)}
    (h : (pullFrom M serverSecret f rounds since after applied).Ran (MirrorOp.exec M L S) w cs
      result w') : Pulls M (toLex (since, after)) (exchanges cs) := by
  induction rounds generalizing since after applied w cs with
  | zero =>
    obtain ⟨rfl, -, -⟩ := Prog.ran_pure.mp h
    exact .nil _
  | succ rounds ih =>
    rw [pullFrom] at h
    obtain ⟨_, cs, reply, w₁, rfl, hask, hreply⟩ := Prog.ran_bind.mp h
    clear h
    obtain ⟨rfl, -⟩ := Prog.ran_op.mp hask
    rw [List.singleton_append, exchanges_ask]
    rcases reply with text | code | page
    · obtain ⟨rfl, -, -⟩ := Prog.ran_pure.mp hreply
      exact .last _ (by rintro ⟨_, ⟨⟩, -⟩)
    · have hends : exchanges cs = [] := by
        dsimp only at hreply
        split_ifs at hreply
        · obtain ⟨rfl, -, -⟩ := Prog.ran_pure.mp hreply
          rfl
        · obtain ⟨rfl, -, -⟩ := Prog.ran_pure.mp hreply
          rfl
      rw [hends]
      exact .last _ (by rintro ⟨_, ⟨⟩, -⟩)
    obtain ⟨cs₁, cs₂, answer, w₂, rfl, happly, hanswer⟩ := Prog.ran_bind.mp hreply
    clear hreply
    obtain ⟨hsilent, happlicable⟩ := happly.spec (spec_applyPage hf)
    rw [List.nil_append] at hsilent
    rw [exchanges_append, hsilent, List.nil_append]
    rcases answer with e | n
    · obtain ⟨rfl, -, -⟩ := Prog.ran_pure.mp hanswer
      refine .last _ fun hcontinues => ?_
      obtain ⟨n, ⟨⟩⟩ := happlicable.mpr (PeerReply.continues_page.mp hcontinues).2
    dsimp only at hanswer
    split_ifs at hanswer with hmore
    · exact .more _ hmore (happlicable.mp ⟨n, rfl⟩) (ih hanswer)
    · have hends : exchanges cs₂ = [] := by
        obtain ⟨_, cs₃, r, w₃, rfl, hupdate, hstored⟩ := Prog.ran_bind.mp hanswer
        clear hanswer
        obtain ⟨rfl, -⟩ := Prog.ran_op.mp hupdate
        rcases r with e | _
        · obtain ⟨rfl, -, -⟩ := Prog.ran_pure.mp hstored
          rfl
        · obtain ⟨rfl, -, -⟩ := Prog.ran_pure.mp hstored
          rfl
      rw [hends]
      exact .last _ fun hcontinues => hmore (PeerReply.continues_page.mp hcontinues).1

/-- **The requests of `sync_federation`** start where the stored token says. -/
theorem pulls_of_syncFederation {rounds : ℕ} {result : Option (Except SyncError ℕ)}
    (h : (syncFederation M rounds f).Ran (MirrorOp.exec M L S) w cs result w') :
    Pulls M (cursor f.syncToken) (exchanges cs) := by
  unfold syncFederation at h
  split at h
  · obtain ⟨rfl, -, -⟩ := Prog.ran_pure.mp h
    exact .nil _
  · obtain ⟨rfl, -, -⟩ := Prog.ran_pure.mp h
    exact .nil _
  · rename_i secret peerDomain hsecret hpeer
    obtain ⟨_, cs, keys, w₁, rfl, hkeys, hpull⟩ := Prog.ran_bind.mp h
    clear h
    obtain ⟨rfl, -⟩ := Prog.ran_op.mp hkeys
    rcases keys with e | serverSecret
    · obtain ⟨rfl, -, -⟩ := Prog.ran_pure.mp hpull
      exact .nil _
    · have hne : f.peerDomain ≠ none := by rw [hpeer]; exact Option.some_ne_none _
      have hpulls := pulls_of_pullFrom hne hpull
      exact hpulls

/-! ## Peers that end a pull -/

/-- Before an answer that ends it, a pull asks no more than once for each answer. -/
theorem Pulls.length_le {p : Position} {xs : List Exchange} (h : Pulls M p xs)
    (answers : ℕ → PeerReply) (hanswers : Answers answers xs) {i : ℕ}
    (hi : ¬(answers i).Continues M) : xs.length ≤ i + 1 := by
  induction h generalizing answers i with
  | nil => exact Nat.zero_le _
  | last p hends => exact Nat.succ_le_succ (Nat.zero_le i)
  | more p hmore happlicable hnext ih =>
    have hfirst := hanswers 0 _ rfl
    rcases i with _ | i
    · exact absurd (hfirst ▸ PeerReply.continues_page.mpr ⟨hmore, happlicable⟩) hi
    · exact Nat.succ_le_succ (ih (fun i => answers (i + 1))
        (fun i x hx => hanswers (i + 1) x hx) hi)

/-! ## Peers that never do -/

variable (M L S serverSecret f peerDomain authorCert w) in
/-- Items are passed over where the storage fails. -/
theorem ran_applyItems (items : List SealedItem) (n : ℕ) :
    ∃ cs n', (applyItems M serverSecret f peerDomain authorCert items n).Ran (MirrorOp.exec M L S) w
      cs n' w := by
  induction items generalizing n with
  | nil => exact ⟨[], n, .ret _ _⟩
  | cons item items ih =>
    obtain ⟨cs, n', hrest⟩ := ih n
    rw [applyItems, applyOne]
    rcases openItem M serverSecret peerDomain authorCert item with e | payload
    · exact ⟨cs, n', hrest⟩
    · have hfails : MirrorOp.exec M L S (.federationLocalEvent f.id item.remoteUid)
          { io := fun _ => false } w = some (.error .sqlite, w) := by
        simp [MirrorOp.exec, MirrorWorld.call, transaction, federationLocalEventTx, Tx.query]
      exact ⟨_, n', .call _ hfails hrest⟩

variable (L S serverSecret w) in
theorem ran_applyPage (hf : f.peerDomain ≠ none) (happlicable : page.Applicable M) :
    ∃ cs n, (applyPage M serverSecret f page).Ran (MirrorOp.exec M L S) w cs (.ok n) w := by
  unfold applyPage
  unfold SyncPage.Applicable at happlicable
  rcases hpeer : f.peerDomain with _ | peerDomain
  · exact absurd hpeer hf
  rcases hcert : page.authorCert with _ | armored
  · rw [hcert] at happlicable
    dsimp only at happlicable ⊢
    rw [happlicable]
    exact ⟨[], 0, .ret _ _⟩
  · rw [hcert] at happlicable
    obtain ⟨authorCert, hbytes⟩ := happlicable
    obtain ⟨cs, n, hran⟩ := ran_applyItems M L S serverSecret authorCert f peerDomain w page.items 0
    dsimp only
    rw [hbytes]
    exact ⟨_, n, Prog.ran_bind.mpr ⟨cs, [], n, w, rfl, hran, .ret _ _⟩⟩

variable (L S serverSecret w) in
/-- **A peer that always has more** is asked in every round. -/
theorem ran_pullFrom (hf : f.peerDomain ≠ none) (answers : ℕ → PeerReply)
    (hanswers : ∀ i, (answers i).Continues M) (rounds : ℕ) (since : ℤ) (after : String)
    (applied : ℕ) :
    ∃ cs result, (pullFrom M serverSecret f rounds since after applied).Ran (MirrorOp.exec M L S) w
      cs result w ∧ Answers answers (exchanges cs) ∧ (exchanges cs).length = rounds := by
  induction rounds generalizing answers since after applied with
  | zero => exact ⟨[], none, .ret _ _, fun i x hx => (nomatch hx), rfl⟩
  | succ rounds ih =>
    obtain ⟨page, hpage, hmore, happlicable⟩ := hanswers 0
    obtain ⟨cs₁, n, happly⟩ := ran_applyPage L S serverSecret w hf happlicable
    obtain ⟨cs₂, result, hpull, hrest, hlength⟩ := ih (fun i => answers (i + 1))
      (fun i => hanswers (i + 1)) page.nextSince page.nextAfter (applied + n)
    have hsilent := (happly.spec (spec_applyPage hf)).1
    rw [List.nil_append] at hsilent
    refine ⟨⟨.getCapable f since after, .page page⟩ :: (cs₁ ++ cs₂), result, ?_, ?_, ?_⟩
    · rw [pullFrom]
      have hask : MirrorOp.exec M L S (.getCapable f since after) { reply := some (.page page) } w =
          some (.page page, w) := rfl
      refine Prog.ran_bind.mpr ⟨[_], _, _, w, rfl, Prog.ran_op.mpr ⟨rfl, _, hask⟩, ?_⟩
      refine Prog.ran_bind.mpr ⟨cs₁, cs₂, .ok n, w, rfl, happly, ?_⟩
      dsimp only
      rwa [if_pos hmore]
    · rw [exchanges_ask, exchanges_append, hsilent, List.nil_append]
      rintro (_ | i) x hx
      · obtain rfl := Option.some.inj hx
        exact hpage.symm
      · exact hrest i x hx
    · rw [exchanges_ask, exchanges_append, hsilent, List.nil_append, List.length_cons, hlength]

/-- A federation that is not configured is not pulled. -/
theorem exchanges_misconfigured (hf : f.capabilitySecret = none ∨ f.peerDomain = none) {rounds : ℕ}
    {result : Option (Except SyncError ℕ)}
    (h : (syncFederation M rounds f).Ran (MirrorOp.exec M L S) w cs result w') :
    exchanges cs = [] := by
  unfold syncFederation at h
  split at h
  · obtain ⟨rfl, -, -⟩ := Prog.ran_pure.mp h
    rfl
  · obtain ⟨rfl, -, -⟩ := Prog.ran_pure.mp h
    rfl
  · rename_i secret peerDomain hsecret hpeer
    rw [hsecret, hpeer] at hf
    simp at hf

theorem not_boundedPull {answers : ℕ → PeerReply} (hsecret : f.capabilitySecret ≠ none)
    (hpeer : f.peerDomain ≠ none) (hanswers : ∀ i, (answers i).Continues M) :
    ¬BoundedPull M L S f answers := by
  rintro ⟨n, hn⟩
  obtain ⟨cs, result, hpull, hfollows, hlength⟩ := ran_pullFrom L S S.authorSecret
    MirrorWorld.empty hpeer answers hanswers (n + 1) (parseCursor f.syncToken).1
    (parseCursor f.syncToken).2 0
  have hran : (syncFederation M (n + 1) f).Ran (MirrorOp.exec M L S) MirrorWorld.empty
      (⟨.serverKeys, .ok S.authorSecret⟩ :: cs) result MirrorWorld.empty := by
    obtain ⟨secret, hsecret⟩ := Option.ne_none_iff_exists'.mp hsecret
    obtain ⟨peerDomain, hpeer⟩ := Option.ne_none_iff_exists'.mp hpeer
    have hkeys : MirrorOp.exec M L S .serverKeys { keys := .ok S.authorSecret } MirrorWorld.empty =
        some (.ok S.authorSecret, MirrorWorld.empty) := rfl
    unfold syncFederation
    rw [hsecret, hpeer]
    exact Prog.ran_bind.mpr ⟨[_], cs, _, _, rfl, Prog.ran_op.mpr ⟨rfl, _, hkeys⟩, hpull⟩
  have hle := hn _ _ (⟨.serverKeys, .ok S.authorSecret⟩ :: cs) _ _ hran hfollows
  change (exchanges cs).length ≤ n at hle
  omega

/-! ## Peers that serve -/

section Serving

variable {db : SchedulingDb} {calendarId : CalendarId} {since : ℤ} {after : String} {n : ℕ}

theorem listCalendarEventsPage_eq :
    listCalendarEventsPage db calendarId since after n true =
      (orderBy (·.position) (eventsAfter db calendarId (toLex (since, after)))).take n := by
  unfold listCalendarEventsPage eventsAfter
  congr 2
  refine List.filter_congr fun e he => ?_
  have hiff := @mem_servedAfter db calendarId since after e
  rw [List.mem_filter] at hiff
  rw [Bool.eq_iff_iff, decide_eq_true_eq]
  simpa [he] using hiff

/-- **A full page** leaves fewer events after it, by as many as it has. -/
theorem eventsAfter_of_full {p p' : Position} {events : List CalendarEvent} (hle : p ≤ p')
    (hevents : events = (orderBy (·.position) (eventsAfter db calendarId p)).take n)
    (hlength : events.length = n) (hpage : ∀ e ∈ events, e.position ≤ p') :
    (eventsAfter db calendarId p').length + n ≤ (eventsAfter db calendarId p).length := by
  set sorted := orderBy (·.position) (eventsAfter db calendarId p)
  have hperm : sorted.Perm (eventsAfter db calendarId p) := orderBy_perm _ _
  have hsplit : events ++ sorted.drop n = sorted := by rw [hevents, List.take_append_drop]
  have hlater : eventsAfter db calendarId p' =
      (eventsAfter db calendarId p).filter fun e => p' < e.position := by
    rw [eventsAfter, eventsAfter, List.filter_filter]
    refine List.filter_congr fun e he => ?_
    rw [Bool.eq_iff_iff]
    simp only [decide_eq_true_eq, Bool.and_eq_true]
    exact ⟨fun h => ⟨h.2, h.1, hle.trans_lt h.2⟩, fun h => ⟨h.2.1, h.1⟩⟩
  have hnone : events.filter (fun e => p' < e.position) = [] := by
    rw [List.filter_eq_nil_iff]
    intro e he
    simpa using hpage e he
  have hcount : (eventsAfter db calendarId p').length ≤ (sorted.drop n).length := by
    rw [hlater, ← (hperm.filter _).length_eq, ← hsplit, List.filter_append, hnone,
      List.nil_append, hsplit]
    exact List.length_filter_le _ _
  have htotal : events.length + (sorted.drop n).length = (eventsAfter db calendarId p).length := by
    rw [← List.length_append, hsplit, hperm.length_eq]
  omega

/-- The first request asks for the position that the pull begins at. -/
theorem Pulls.head {p : Position} {xs : List Exchange} (h : Pulls M p xs) :
    ∀ q ∈ (xs.map (·.1)).head?, q = p := by
  cases h with
  | nil => simp
  | last hends => simp
  | more hmore happlicable hnext => simp

/-- **A peer that serves**: each request is after the one before, and the pull ends once every
event was served. -/
theorem Pulls.served {p : Position} {xs : List Exchange} (h : Pulls M p xs)
    (hserved : ∀ x ∈ xs, x.Served M S db) :
    (xs.map (·.1)).IsChain (· < ·) ∧
      xs.length ≤ (eventsAfter db S.calendarId p).length / maxEventsPerPage + 1 := by
  induction h with
  | nil p => exact ⟨.nil, Nat.zero_le _⟩
  | last p hends => exact ⟨.singleton _, Nat.succ_le_succ (Nat.zero_le _)⟩
  | more p hmore happlicable hnext ih =>
    rename_i page xs
    obtain ⟨hchain, hlength⟩ := ih fun x hx => hserved x (List.mem_cons_of_mem _ hx)
    obtain ⟨seed, hpage⟩ := hserved _ List.mem_cons_self
    obtain ⟨events, hlists⟩ := calendarSync_page hpage.symm
    have hadvance : p < page.position := by
      rcases hlists.position_cases with ⟨-, hlt⟩ | ⟨-, hlast, -⟩
      · exact hlt
      · rw [hmore] at hlast
        cases hlast
    refine ⟨List.isChain_cons.mpr ⟨fun q hq => hnext.head q hq ▸ hadvance, hchain⟩, ?_⟩
    have hfull : events.length = maxEventsPerPage :=
      of_decide_eq_true (hlists.hasMore.symm.trans hmore)
    have hevents := hlists.events_eq
    rw [listCalendarEventsPage_eq] at hevents
    have hfewer := eventsAfter_of_full hadvance.le hevents hfull fun e he => hlists.le_position he
    rw [List.length_cons]
    unfold maxEventsPerPage at hfewer hlength ⊢
    omega

end Serving

variable (M L S f) in
/-- **How long a pull is.** Each request asks for the position that the page before ended with. The
requests are bounded exactly if some answer ends the pull, whatever positions a peer answers with.
If the peer serves events that do not change, the positions ascend and each page but the last
takes as many events as a page can have. -/
theorem pulls_bounded :
    (∀ rounds w cs result w',
      (syncFederation M rounds f).Ran (MirrorOp.exec M L S) w cs result w' →
      Pulls M (cursor f.syncToken) (exchanges cs) ∧
        ∀ db, (∀ x ∈ exchanges cs, x.Served M S db) →
          ((exchanges cs).map (·.1)).IsChain (· < ·) ∧
          (exchanges cs).length ≤
            (eventsAfter db S.calendarId (cursor f.syncToken)).length / maxEventsPerPage + 1) ∧
    ∀ answers, BoundedPull M L S f answers ↔
      f.capabilitySecret = none ∨ f.peerDomain = none ∨ ∃ i, ¬(answers i).Continues M := by
  refine ⟨fun rounds w cs result w' h => ?_, fun answers => ⟨fun hbounded => ?_, ?_⟩⟩
  · have hpulls := pulls_of_syncFederation h
    exact ⟨hpulls, fun db hserved => hpulls.served hserved⟩
  · by_contra hnever
    push Not at hnever
    exact not_boundedPull hnever.1 hnever.2.1 hnever.2.2 hbounded
  · intro hends
    rw [← or_assoc] at hends
    rcases hends with hf | ⟨i, hi⟩
    · refine ⟨0, fun rounds w cs result w' h _ => ?_⟩
      rw [exchanges_misconfigured hf h]
      exact le_rfl
    · refine ⟨i + 1, fun rounds w cs result w' h hanswers => ?_⟩
      exact (pulls_of_syncFederation h).length_le answers hanswers hi

end Requests

/-- **A peer that always has more**, from the same position, is asked without end. -/
theorem not_boundedPull_more :
    ¬∀ answers, BoundedPull .sample denver .sample .sample answers := by
  intro hbounded
  refine not_boundedPull (Option.some_ne_none _) (Option.some_ne_none _) (fun i => ?_)
    (hbounded fun _ => .page { hasMore := true, nextSince := 0, nextAfter := "" })
  exact PeerReply.continues_page.mpr ⟨rfl, rfl⟩

end Owney
