import Owney.MailSpec

/-!
# Invariants of the mail tables

What holds of the mail tables after every run of calls (`MailInv`): primary
keys are unique, every row's modseqs lie below its account's counter, an email
and its thread have one account, stored keywords are lower-case. An email is stored
in a mailbox once (`Memberships`). The counters themselves only grow (`modseq_le_run`).
-/

namespace Owney

open Tables

/-! ## Modseqs of rows -/

/-- Every row was created before it was last updated, and both lie below the
counter of its account. -/
def SeqOk (ms : AccountId → ModSeq) (rows : List TrackedRow) : Prop :=
  ∀ r ∈ rows, r.createdModseq ≤ r.updatedModseq ∧ r.updatedModseq ≤ ms r.accountId

namespace SeqOk

variable {ms ms' : AccountId → ModSeq} {rows rows' : List TrackedRow}

theorem mono (h : SeqOk ms rows) (hle : ∀ a, ms a ≤ ms' a) : SeqOk ms' rows :=
  fun r hr => ⟨(h r hr).1, (h r hr).2.trans (hle r.accountId)⟩

theorem append (h : SeqOk ms rows) (h' : SeqOk ms rows') : SeqOk ms (rows ++ rows') := by
  intro r hr
  rcases List.mem_append.mp hr with hr | hr
  · exact h r hr
  · exact h' r hr

theorem update {p : TrackedRow → Bool} {m : ModSeq} (h : SeqOk ms rows)
    (hm : ∀ r ∈ rows, p r → r.updatedModseq ≤ m ∧ m ≤ ms r.accountId) :
    SeqOk ms (Tables.update p ({ · with updatedModseq := m }) rows) := by
  intro r hr
  obtain ⟨r₀, hr₀, rfl⟩ := mem_update.mp hr
  by_cases hp : p r₀
  · rw [if_pos hp]
    exact ⟨(h r₀ hr₀).1.trans (hm r₀ hr₀ hp).1, (hm r₀ hr₀ hp).2⟩
  · rw [if_neg hp]
    exact h r₀ hr₀

end SeqOk

namespace MailDb

/-! ## The tracked rows after a write -/

theorem ids_email (db : MailDb) :
    (db.trackedRows .email).map (·.id) = db.emails.map (·.id.uuid) := by
  rw [trackedRows, List.map_map]
  rfl

theorem ids_thread (db : MailDb) :
    (db.trackedRows .thread).map (·.id) = db.threads.map (·.id.uuid) := by
  rw [trackedRows, List.map_map]
  rfl

theorem ids_mailbox (db : MailDb) :
    (db.trackedRows .mailbox).map (·.id) = db.mailboxes.map (·.id.uuid) := by
  rw [trackedRows, List.map_map]
  rfl

theorem trackedRows_bumped (db : MailDb) (a : AccountId) (t t' : DataType) :
    (db.bumped a t).trackedRows t' = db.trackedRows t' := by
  cases t' <;> rfl

/-- A write to columns of `emails` that change tracking does not read. -/
theorem trackedRows_updateEmails (db : MailDb) {p : EmailsRow → Bool} {f : EmailsRow → EmailsRow}
    (hf : ∀ r, (f r).id = r.id ∧ (f r).accountId = r.accountId ∧
      (f r).createdModseq = r.createdModseq ∧ (f r).updatedModseq = r.updatedModseq)
    (t : DataType) :
    ({ db with emails := update p f db.emails } : MailDb).trackedRows t = db.trackedRows t := by
  cases t with
  | email =>
    refine map_update _ (fun r => ?_) db.emails
    obtain ⟨hi, ha, hc, hu⟩ := hf r
    rw [hi, ha, hc, hu]
  | _ => rfl

theorem trackedRows_touchEmail (db : MailDb) (e : EmailId) (m : ModSeq) :
    (db.touchEmail e m).trackedRows .email =
      update (fun r => r.id = e.uuid) ({ · with updatedModseq := m }) (db.trackedRows .email) := by
  simp only [trackedRows, touchEmail, update, List.map_map]
  refine List.map_congr_left fun r _ => ?_
  by_cases he : r.id = e
  · simp [he]
  · have : ¬r.id.uuid = e.uuid := fun hc => he (EmailId.uuid_injective hc)
    simp [he, this]

theorem trackedRows_touchEmail_of_ne (db : MailDb) (e : EmailId) (m : ModSeq) {t : DataType}
    (ht : t ≠ .email) : (db.touchEmail e m).trackedRows t = db.trackedRows t := by
  cases t <;> first | rfl | exact absurd rfl ht

theorem trackedRows_touchThread_of_ne (db : MailDb) (a : AccountId) (f : Option ThreadId)
    (n : ThreadId) (m : ModSeq) {t : DataType} (ht : t ≠ .thread) :
    (db.touchThread a f n m).trackedRows t = db.trackedRows t := by
  cases t with
  | thread => exact absurd rfl ht
  | _ => cases f <;> rfl

theorem trackedRows_touchThread_some (db : MailDb) (a : AccountId) (s n : ThreadId) (m : ModSeq) :
    (db.touchThread a (some s) n m).trackedRows .thread =
      update (fun r => r.id = s.uuid) ({ · with updatedModseq := m })
        (db.trackedRows .thread) := by
  simp only [trackedRows, touchThread, update, List.map_map]
  refine List.map_congr_left fun r _ => ?_
  by_cases hs : r.id = s
  · simp [hs]
  · have : ¬r.id.uuid = s.uuid := fun hc => hs (ThreadId.uuid_injective hc)
    simp [hs, this]

end MailDb

/-! ## The invariant -/

/-- What every run of calls keeps. -/
structure MailInv (U : Unicode) (db : MailDb) : Prop where
  /-- primary keys -/
  keys : ∀ t, ((db.trackedRows t).map (·.id)).Nodup
  /-- `created_modseq <= updated_modseq <= state` -/
  seqs : ∀ t, SeqOk (db.modseq · t) (db.trackedRows t)
  /-- a counter is a SQLite integer -/
  capped : ∀ a t, db.modseq a t ≤ i64Max
  /-- an email's thread is its account's -/
  emailThread : ∀ r ∈ db.emails, ∃ s ∈ db.threads, s.id = r.threadId ∧ s.accountId = r.accountId
  /-- keywords are stored lower-case -/
  keywordsLower : ∀ r ∈ db.emailKeyword, U.toLowercase r.keyword = r.keyword

namespace MailInv

variable {U : Unicode} {db db' : MailDb} {a : AccountId} {e : EmailId}

theorem empty : MailInv U MailDb.empty where
  keys t := by cases t <;> exact List.nodup_nil
  seqs t := by cases t <;> exact fun _ hr => nomatch hr
  capped _ _ := Nat.zero_le _
  emailThread _ hr := nomatch hr
  keywordsLower _ hr := nomatch hr

/-- The owner of a row is found by its id. -/
theorem account_of_mem (h : MailInv U db) (hown : db.ownsEmail a e) {r : TrackedRow}
    (hr : r ∈ db.trackedRows .email) (hid : r.id = e.uuid) : r.accountId = a := by
  obtain ⟨r₀, hr₀, hr₀'⟩ := List.any_eq_true.mp hown
  simp only [decide_eq_true_eq] at hr₀'
  have hmem : (⟨r₀.id.uuid, r₀.accountId, r₀.createdModseq, r₀.updatedModseq⟩ : TrackedRow) ∈
      db.trackedRows .email := List.mem_map.mpr ⟨r₀, hr₀, rfl⟩
  have heq := eq_of_key_eq (h.keys .email) hr hmem (by rw [hid, ← hr₀'.2])
  rw [heq]
  exact hr₀'.1

/-- A write that touches no tracked column. -/
theorem frame (h : MailInv U db) (hstates : db'.states = db.states)
    (htracked : ∀ t, db'.trackedRows t = db.trackedRows t) (hthreads : db'.threads = db.threads)
    (hemails : ∀ r ∈ db'.emails, ∃ r₀ ∈ db.emails,
      r.threadId = r₀.threadId ∧ r.accountId = r₀.accountId)
    (hkeywords : ∀ r ∈ db'.emailKeyword, U.toLowercase r.keyword = r.keyword) :
    MailInv U db' where
  keys t := by rw [htracked]; exact h.keys t
  seqs t := by
    rw [htracked]
    exact (h.seqs t).mono fun a => (MailDb.modseq_congr hstates a t).ge
  capped a t := by rw [MailDb.modseq_congr hstates]; exact h.capped a t
  emailThread r hr := by
    obtain ⟨r₀, hr₀, ht, ha⟩ := hemails r hr
    rw [hthreads, ht, ha]
    exact h.emailThread r₀ hr₀
  keywordsLower := hkeywords

/-- A write to single columns of `emails` that no index reads. -/
theorem updateEmails (h : MailInv U db) {p : EmailsRow → Bool} {f : EmailsRow → EmailsRow}
    (hf : ∀ r, (f r).id = r.id ∧ (f r).accountId = r.accountId ∧ (f r).threadId = r.threadId ∧
      (f r).createdModseq = r.createdModseq ∧ (f r).updatedModseq = r.updatedModseq) :
    MailInv U { db with emails := update p f db.emails } := by
  refine h.frame rfl (MailDb.trackedRows_updateEmails db fun r => ?_) rfl (fun r hr => ?_)
    h.keywordsLower
  · exact ⟨(hf r).1, (hf r).2.1, (hf r).2.2.2⟩
  · obtain ⟨r₀, hr₀, rfl⟩ := mem_update.mp hr
    refine ⟨r₀, hr₀, ?_⟩
    split
    · exact ⟨(hf r₀).2.2.1, (hf r₀).2.1⟩
    · exact ⟨rfl, rfl⟩

theorem bumped (h : MailInv U db) {t : DataType} (hlt : db.modseq a t < i64Max) :
    MailInv U (db.bumped a t) where
  keys t' := by rw [MailDb.trackedRows_bumped]; exact h.keys t'
  seqs t' := by
    rw [MailDb.trackedRows_bumped]
    exact (h.seqs t').mono fun a' => MailDb.le_modseq_bumped ..
  capped a' t' := by
    rw [MailDb.modseq_bumped]
    split
    · exact hlt
    · exact h.capped a' t'
  emailThread := h.emailThread
  keywordsLower := h.keywordsLower

/-- Stamping an owned email with its account's counter. -/
theorem touchEmail (h : MailInv U db) (hown : db.ownsEmail a e) :
    MailInv U (db.touchEmail e (db.modseq a .email)) where
  keys t := by
    by_cases ht : t = .email
    · rw [ht, MailDb.trackedRows_touchEmail, map_update]
      · exact h.keys .email
      · exact fun _ => rfl
    · rw [MailDb.trackedRows_touchEmail_of_ne _ _ _ ht]
      exact h.keys t
  seqs t := by
    by_cases ht : t = .email
    · rw [ht, MailDb.trackedRows_touchEmail]
      refine (h.seqs .email).update fun r hr hp => ?_
      have ha := h.account_of_mem hown hr (by simpa using hp)
      exact ⟨by rw [← ha]; exact (h.seqs .email r hr).2, by rw [ha]⟩
    · rw [MailDb.trackedRows_touchEmail_of_ne _ _ _ ht]
      exact h.seqs t
  capped := h.capped
  emailThread r hr := by
    obtain ⟨r₀, hr₀, rfl⟩ := mem_update.mp hr
    obtain ⟨s, hs, hid, ha⟩ := h.emailThread r₀ hr₀
    refine ⟨s, hs, ?_⟩
    split <;> exact ⟨hid, ha⟩
  keywordsLower := h.keywordsLower

/-- Joining a thread of the account, or opening one. -/
theorem touchThread (h : MailInv U db) {f : Option ThreadId} {n : ThreadId}
    (hf : ∀ s, f = some s → ∃ r ∈ db.threads, r.id = s ∧ r.accountId = a)
    (hn : f = none → n ∉ db.threads.map (·.id)) :
    MailInv U (db.touchThread a f n (db.modseq a .thread)) := by
  have hstates := MailDb.touchThread_states db a (db.modseq a .thread) f n
  have hseq : ∀ a' t', (db.touchThread a f n (db.modseq a .thread)).modseq a' t' = db.modseq a' t' :=
    MailDb.modseq_congr hstates
  have hof : ∀ t ≠ .thread, (db.touchThread a f n (db.modseq a .thread)).trackedRows t =
      db.trackedRows t := fun t ht => MailDb.trackedRows_touchThread_of_ne _ _ _ _ _ ht
  refine ⟨fun t => ?_, fun t => ?_, fun a' t' => by rw [hseq]; exact h.capped a' t', ?_, ?_⟩
  · by_cases ht : t = .thread
    · subst ht
      cases f with
      | some s =>
        rw [MailDb.trackedRows_touchThread_some, map_update]
        · exact h.keys .thread
        · exact fun _ => rfl
      | none =>
        have hkeys := h.keys .thread
        rw [MailDb.ids_thread] at hkeys ⊢
        refine nodup_map_insert hkeys fun hmem => ?_
        obtain ⟨r, hr, hid⟩ := List.mem_map.mp hmem
        exact hn rfl (List.mem_map.mpr ⟨r, hr, ThreadId.uuid_injective hid⟩)
    · rw [hof t ht]
      exact h.keys t
  · simp only [hseq]
    by_cases ht : t = .thread
    · subst ht
      cases f with
      | some s =>
        obtain ⟨r₀, hr₀, hid₀, ha₀⟩ := hf s rfl
        rw [MailDb.trackedRows_touchThread_some]
        refine (h.seqs .thread).update fun r hr hp => ?_
        have hmem : (⟨r₀.id.uuid, r₀.accountId, r₀.createdModseq, r₀.updatedModseq⟩ : TrackedRow) ∈
            db.trackedRows .thread := List.mem_map.mpr ⟨r₀, hr₀, rfl⟩
        have hr' := eq_of_key_eq (h.keys .thread) hr hmem (by
          rw [hid₀]
          simpa using hp)
        have ha : r.accountId = a := by rw [hr']; exact ha₀
        exact ⟨by rw [← ha]; exact (h.seqs .thread r hr).2, by rw [ha]⟩
      | none =>
        simp only [MailDb.trackedRows, MailDb.touchThread, List.map_append]
        refine SeqOk.append (h.seqs .thread) fun r hr => ?_
        rw [List.map_singleton, List.mem_singleton] at hr
        subst hr
        exact ⟨le_refl _, le_refl _⟩
    · rw [hof t ht]
      exact h.seqs t
  · intro r hr
    rw [MailDb.touchThread_emails] at hr
    obtain ⟨s, hs, hid, hacc⟩ := h.emailThread r hr
    cases f with
    | some s' =>
      refine ⟨_, mem_update.mpr ⟨s, hs, rfl⟩, ?_⟩
      split <;> exact ⟨hid, hacc⟩
    | none => exact ⟨s, List.mem_append_left _ hs, hid, hacc⟩
  · rw [MailDb.touchThread_emailKeyword]
    exact h.keywordsLower

/-- A new email with a fresh id, stamped with its account's counter. -/
theorem addEmail (h : MailInv U db) {r : EmailsRow} (hid : r.id ∉ db.emails.map (·.id))
    (hc : r.createdModseq = db.modseq r.accountId .email)
    (hu : r.updatedModseq = db.modseq r.accountId .email)
    (ht : ∃ s ∈ db.threads, s.id = r.threadId ∧ s.accountId = r.accountId) :
    MailInv U { db with emails := db.emails ++ [r] } where
  keys t := by
    cases t with
    | email =>
      have hkeys := h.keys .email
      rw [MailDb.ids_email] at hkeys ⊢
      refine nodup_map_insert hkeys fun hmem => ?_
      obtain ⟨r', hr', he⟩ := List.mem_map.mp hmem
      exact hid (List.mem_map.mpr ⟨r', hr', EmailId.uuid_injective he⟩)
    | mailbox => exact h.keys .mailbox
    | thread => exact h.keys .thread
    | emailSubmission => exact h.keys .emailSubmission
  seqs t := by
    cases t with
    | email =>
      simp only [MailDb.trackedRows, List.map_append]
      refine SeqOk.append (h.seqs .email) fun r' hr' => ?_
      rw [List.map_singleton, List.mem_singleton] at hr'
      subst hr'
      exact ⟨by rw [hc, hu], hu.le⟩
    | mailbox => exact h.seqs .mailbox
    | thread => exact h.seqs .thread
    | emailSubmission => exact h.seqs .emailSubmission
  capped := h.capped
  emailThread r' hr' := by
    rcases List.mem_append.mp hr' with hr' | hr'
    · exact h.emailThread r' hr'
    · rw [List.mem_singleton.mp hr']
      exact ht
  keywordsLower := h.keywordsLower

/-- The default mailboxes of a new account. -/
theorem addMailboxes (h : MailInv U db) {rows : List MailboxesRow}
    (hnd : ((db.mailboxes ++ rows).map (·.id)).Nodup)
    (hrows : ∀ r ∈ rows, r.createdModseq = r.updatedModseq ∧
      r.updatedModseq ≤ db.modseq r.accountId .mailbox) :
    MailInv U { db with mailboxes := db.mailboxes ++ rows } where
  keys t := by
    cases t with
    | mailbox =>
      rw [MailDb.ids_mailbox]
      have := hnd.map MailboxId.uuid_injective
      rwa [List.map_map] at this
    | email => exact h.keys .email
    | thread => exact h.keys .thread
    | emailSubmission => exact h.keys .emailSubmission
  seqs t := by
    cases t with
    | mailbox =>
      simp only [MailDb.trackedRows, List.map_append]
      refine SeqOk.append (h.seqs .mailbox) fun r' hr' => ?_
      obtain ⟨r, hr, rfl⟩ := List.mem_map.mp hr'
      exact ⟨(hrows r hr).1.le, (hrows r hr).2⟩
    | email => exact h.seqs .email
    | thread => exact h.seqs .thread
    | emailSubmission => exact h.seqs .emailSubmission
  capped := h.capped
  emailThread := h.emailThread
  keywordsLower := h.keywordsLower

/-- The thread an email of the account was resolved to is the account's. -/
theorem resolveThread_owned (h : MailInv U db) {refs : List String} {s : ThreadId}
    (hs : resolveThread db a refs = some s) :
    ∃ r ∈ db.threads, r.id = s ∧ r.accountId = a := by
  obtain ⟨ref, -, href⟩ := List.exists_of_findSome?_eq_some hs
  obtain ⟨r, hr, rfl⟩ := Option.map_eq_some_iff.mp href
  have hmem := mem_orderBy.mp (List.mem_of_head? hr)
  rw [List.mem_filter] at hmem
  simp only [decide_eq_true_eq] at hmem
  obtain ⟨t, ht, hid, hacc⟩ := h.emailThread r hmem.1
  exact ⟨t, ht, hid, hacc.trans hmem.2.1⟩

/-- The halves of `update_email` touch no tracked column. -/
theorem edited (h : MailInv U db) (keywords : Option (List String))
    (mailboxIds : Option (List MailboxId)) : MailInv U (db.edited U e keywords mailboxIds) := by
  have hstates : (db.edited U e keywords mailboxIds).states = db.states := by
    cases keywords <;> cases mailboxIds <;> rfl
  have hemails : (db.edited U e keywords mailboxIds).emails = db.emails := by
    cases keywords <;> cases mailboxIds <;> rfl
  refine h.frame hstates (fun t => ?_) ?_ (fun r hr => ?_) fun r hr => ?_
  · cases keywords <;> cases mailboxIds <;> cases t <;> rfl
  · cases keywords <;> cases mailboxIds <;> rfl
  · rw [hemails] at hr
    exact ⟨r, hr, rfl, rfl⟩
  · cases keywords with
    | none => exact h.keywordsLower r (by cases mailboxIds <;> exact hr)
    | some ks =>
      have hr' : r ∈ (db.replaceKeywords U e ks).emailKeyword := by cases mailboxIds <;> exact hr
      rcases List.mem_append.mp hr' with hr' | hr'
      · exact h.keywordsLower r (List.mem_of_mem_filter hr')
      · obtain ⟨k, hk, rfl⟩ := List.mem_map.mp hr'
        obtain ⟨k', -, rfl⟩ := List.mem_map.mp (List.mem_eraseDups.mp hk)
        exact U.toLowercase_idem k'

theorem updatedEmail (h : MailInv U db) {keywords : Option (List String)}
    {mailboxIds : Option (List MailboxId)} (hown : db.ownsEmail a e)
    (hlt₁ : db.modseq a .email < i64Max) (hlt₂ : db.modseq a .mailbox < i64Max) :
    MailInv U (db.updatedEmail U a e keywords mailboxIds) := by
  let db₁ := db.edited U e keywords mailboxIds
  have hseq : ∀ t, db₁.modseq a t = db.modseq a t := fun t =>
    MailDb.modseq_edited db U a e keywords mailboxIds t
  have hne : DataType.mailbox ≠ .email := by decide
  have h₂ : MailInv U (db₁.bumped a .email) := (h.edited keywords mailboxIds).bumped (by
    rw [hseq]
    exact hlt₁)
  have h₃ : MailInv U ((db₁.bumped a .email).bumped a .mailbox) := h₂.bumped (by
    rw [MailDb.modseq_bumped_of_ne _ hne, hseq]
    exact hlt₂)
  have hown' : ((db₁.bumped a .email).bumped a .mailbox).ownsEmail a e := by
    rw [← hown]
    exact congrArg (List.any · _) (MailDb.edited_emails db U e keywords mailboxIds)
  have := h₃.touchEmail hown'
  rwa [MailDb.modseq_bumped_of_ne _ hne.symm, MailDb.modseq_bumped_self, hseq] at this

theorem ingested (h : MailInv U db) {g : IngestArgs} {mailboxId : MailboxId}
    (hlt₁ : db.modseq g.accountId .email < i64Max)
    (hlt₂ : db.modseq g.accountId .thread < i64Max)
    (hlt₃ : db.modseq g.accountId .mailbox < i64Max)
    (hthread : db.joinedThread g = none → g.threadId ∉ db.threads.map (·.id))
    (hfresh : g.emailId ∉ db.emails.map (·.id)) : MailInv U (db.ingested g mailboxId) := by
  let f := db.joinedThread g
  let db₁ := db.bumpedForIngest g.accountId
  let db₂ := db₁.touchThread g.accountId f g.threadId (db.modseq g.accountId .thread + 1)
  have hseq : ∀ t ≠ .emailSubmission, db₁.modseq g.accountId t = db.modseq g.accountId t + 1 :=
    fun t ht => MailDb.modseq_bumpedForIngest db g.accountId ht
  have h₁ : MailInv U db₁ := by
    refine ((h.bumped hlt₁).bumped ?_).bumped ?_
    · rw [MailDb.modseq_bumped_of_ne _ (by decide)]
      exact hlt₂
    · rw [MailDb.modseq_bumped_of_ne _ (by decide), MailDb.modseq_bumped_of_ne _ (by decide)]
      exact hlt₃
  have hjoined : ∀ s, f = some s → ∃ r ∈ db.threads, r.id = s ∧ r.accountId = g.accountId :=
    fun s hs => h.resolveThread_owned hs
  have h₂ : MailInv U db₂ := by
    have := h₁.touchThread (f := f) (n := g.threadId) (a := g.accountId) hjoined hthread
    rwa [hseq .thread (by decide)] at this
  have hseq₂ : db₂.modseq g.accountId .email = db.modseq g.accountId .email + 1 := by
    rw [← hseq .email (by decide)]
    exact MailDb.modseq_congr (MailDb.touchThread_states ..) _ _
  have hrow : ∃ s ∈ db₂.threads, s.id = (db.newEmail g).threadId ∧
      s.accountId = (db.newEmail g).accountId := by
    change ∃ s ∈ db₂.threads, s.id = f.getD g.threadId ∧ s.accountId = g.accountId
    cases hf : f with
    | none =>
      simp only [db₂, hf]
      exact ⟨_, List.mem_append_right _ (List.mem_singleton_self _), rfl, rfl⟩
    | some s =>
      obtain ⟨r, hr, hid, ha⟩ := hjoined s hf
      simp only [db₂, hf]
      refine ⟨_, mem_update.mpr ⟨r, hr, rfl⟩, ?_⟩
      split <;> exact ⟨hid, ha⟩
  have hemails : db₂.emails = db.emails := MailDb.touchThread_emails ..
  have h₃ := h₂.addEmail (r := db.newEmail g) (by rw [hemails]; exact hfresh) hseq₂.symm
    hseq₂.symm hrow
  refine h₃.frame rfl (fun t => ?_) rfl (fun r hr => ⟨r, ?_, rfl, rfl⟩) h₃.keywordsLower
  · cases t with
    | email => simp only [MailDb.trackedRows, hemails]; rfl
    | _ => rfl
  · rw [hemails]
    exact hr

/-- Every effect keeps the invariant. -/
theorem effect (h : MailInv U db) {op : MailOp} (heff : MailEffect U db op db') : MailInv U db' := by
  cases heff with
  | @createAccount io email displayName a newId now hfresh hlt hnd =>
    have hrows : ∀ r ∈ defaultMailboxRows a newId (db.modseq a .mailbox + 1),
        r.createdModseq = r.updatedModseq ∧
          r.updatedModseq ≤ (db.bumped a .mailbox).modseq r.accountId .mailbox := by
      intro r hr
      obtain ⟨x, -, rfl⟩ := List.mem_map.mp hr
      exact ⟨rfl, (MailDb.modseq_bumped_self db a .mailbox).ge⟩
    exact ((h.bumped hlt).addMailboxes hnd hrows).frame rfl (fun t => by cases t <;> rfl) rfl
      (fun r hr => ⟨r, hr, rfl, rfl⟩) h.keywordsLower
  | putBlob blobs =>
    exact h.frame rfl (fun t => by cases t <;> rfl) rfl (fun r hr => ⟨r, hr, rfl, rfl⟩)
      h.keywordsLower
  | @ingest io g mailboxId hmb hlt₁ hlt₂ hlt₃ hthread hfresh => exact h.ingested hlt₁ hlt₂ hlt₃ hthread hfresh
  | linkContact contacts =>
    exact h.frame rfl (fun t => by cases t <;> rfl) rfl (fun r hr => ⟨r, hr, rfl, rfl⟩)
      h.keywordsLower
  | @updateEmail io a e keywords mailboxIds hown hms hlt₁ hlt₂ => exact h.updatedEmail hown hlt₁ hlt₂
  | @setEmailAttribute io a e kind content newId now hown hlt =>
    have h' : MailInv U (db.upsertAttribute a e kind content newId now) :=
      h.frame rfl (fun t => by cases t <;> rfl) rfl (fun r hr => ⟨r, hr, rfl, rfl⟩)
        h.keywordsLower
    have hseq := MailDb.modseq_bumped_self (db.upsertAttribute a e kind content newId now) a .email
    have := (h'.bumped (a := a) (t := .email) hlt).touchEmail (a := a) (e := e) hown
    rwa [hseq] at this
  | @dismissEmailAttribute io a e kind now hown hlt =>
    have h' : MailInv U (db.dismissAttribute a e kind now) :=
      h.frame rfl (fun t => by cases t <;> rfl) rfl (fun r hr => ⟨r, hr, rfl, rfl⟩)
        h.keywordsLower
    have hseq := MailDb.modseq_bumped_self (db.dismissAttribute a e kind now) a .email
    have := (h'.bumped (a := a) (t := .email) hlt).touchEmail (a := a) (e := e) hown
    rwa [hseq] at this
  | setPgpStatus => exact h.updateEmails fun _ => ⟨rfl, rfl, rfl, rfl, rfl⟩
  | setSpamVerdict => exact h.updateEmails fun _ => ⟨rfl, rfl, rfl, rfl, rfl⟩
  | markIndexed => exact h.updateEmails fun _ => ⟨rfl, rfl, rfl, rfl, rfl⟩

theorem step (h : MailInv U db) (op : MailOp) : MailInv U (mailStep U db op) := by
  rcases mailStep_spec U db op with heq | heff
  · rw [heq]
    exact h
  · exact h.effect heff

/-- **The invariant holds after every run of calls.** -/
theorem run (h : MailInv U db) (ops : List MailOp) : MailInv U (Runs.run (mailStep U) db ops) :=
  Runs.run_invariant (fun _ op hdb => hdb.step op) ops h

theorem reachable (h : Runs.Reachable (mailStep U) MailDb.empty db) : MailInv U db :=
  h.invariant empty fun _ op hdb => hdb.step op

end MailInv

/-! ## Memberships -/

/-- No membership is stored twice, and only emails have them. -/
structure Memberships (db : MailDb) : Prop where
  nodup : db.emailMailbox.Nodup
  stored : ∀ em ∈ db.emailMailbox, em.emailId ∈ db.emails.map (·.id)

namespace Memberships

variable {U : Unicode} {db db' : MailDb}

/-- A write to other tables, or to other columns of `emails`. -/
theorem frame (h : Memberships db) (hrows : db'.emailMailbox = db.emailMailbox)
    (hids : db'.emails.map (·.id) = db.emails.map (·.id)) : Memberships db' where
  nodup := by rw [hrows]; exact h.nodup
  stored := by rw [hrows, hids]; exact h.stored

theorem edited (h : Memberships db) {e : EmailId} {keywords : Option (List String)}
    {mailboxIds : Option (List MailboxId)} (he : e ∈ db.emails.map (·.id))
    (hnd : ∀ ms, mailboxIds = some ms → ms.Nodup) :
    Memberships (db.edited U e keywords mailboxIds) := by
  have hkeywords : ∀ ks, Memberships (db.edited U e ks none) := by
    intro ks
    cases ks <;> exact h.frame rfl rfl
  cases mailboxIds with
  | none => exact hkeywords keywords
  | some ms =>
    have hrows : (db.edited U e keywords (some ms)).emailMailbox =
        (db.emailMailbox.filter fun r => ¬r.emailId = e) ++ ms.map fun m => ⟨e, m⟩ := by
      cases keywords <;> rfl
    constructor
    · rw [hrows, List.nodup_append]
      refine ⟨h.nodup.filter _, ?_, ?_⟩
      · exact (hnd ms rfl).map fun m m' hm => (EmailMailboxRow.mk.inj hm).2
      · rintro em hem em' hem' rfl
        obtain ⟨m, -, rfl⟩ := List.mem_map.mp hem'
        simp at hem
    · intro em hem
      rw [MailDb.edited_emails]
      rw [hrows] at hem
      rcases List.mem_append.mp hem with hem | hem
      · exact h.stored em (List.mem_of_mem_filter hem)
      · obtain ⟨m, -, rfl⟩ := List.mem_map.mp hem
        exact he

theorem ingested (h : Memberships db) {g : IngestArgs} {m : MailboxId}
    (hfresh : g.emailId ∉ db.emails.map (·.id)) : Memberships (db.ingested g m) where
  nodup := by
    refine List.nodup_append.mpr ⟨h.nodup, List.nodup_singleton _, ?_⟩
    rintro em hem em' hem' rfl
    obtain rfl := List.mem_singleton.mp hem'
    exact hfresh (h.stored _ hem)
  stored em hem := by
    have hids : (db.ingested g m).emails.map (·.id) = db.emails.map (·.id) ++ [g.emailId] := by
      simp [MailDb.ingested, MailDb.linkBlob, MailDb.newEmail, IngestArgs.row]
    rw [hids]
    rcases List.mem_append.mp hem with hem | hem
    · exact List.mem_append_left _ (h.stored em hem)
    · obtain rfl := List.mem_singleton.mp hem
      exact List.mem_append_right _ List.mem_cons_self

/-- Every effect keeps the memberships. -/
theorem effect (h : Memberships db) {op : MailOp} (heff : MailEffect U db op db') :
    Memberships db' := by
  cases heff with
  | ingest _ _ _ _ _ hfresh => exact h.ingested hfresh
  | updateEmail hown hms =>
    obtain ⟨r, hr, hr'⟩ := List.any_eq_true.mp hown
    simp only [decide_eq_true_eq] at hr'
    have he := List.mem_map.mpr ⟨r, hr, hr'.2⟩
    refine (h.edited (U := U) he fun ms heq => (hms ms heq).2.2).frame rfl ?_
    refine map_update EmailsRow.id ?_ _
    exact fun _ => rfl
  | createAccount | putBlob | linkContact => exact h.frame rfl rfl
  | _ =>
    -- the other calls set columns of rows that are there
    refine h.frame rfl ?_
    refine map_update EmailsRow.id ?_ _
    exact fun _ => rfl

theorem run (U : Unicode) (ops : List MailOp) :
    Memberships (Runs.run (mailStep U) MailDb.empty ops) := by
  refine Runs.run_invariant (fun db op h => ?_) ops ⟨List.nodup_nil, fun _ h => nomatch h⟩
  rcases mailStep_spec U db op with heq | heff
  · rw [heq]
    exact h
  · exact h.effect heff

/-- An email lists a mailbox once. -/
theorem nodup_mailboxIdsOf (h : Memberships db) (e : EmailId) : (db.mailboxIdsOf e).Nodup := by
  refine (h.nodup.filter _).map_on fun em hem em' hem' heq => ?_
  have he : em.emailId = e := by simpa using (List.mem_filter.mp hem).2
  have he' : em'.emailId = e := by simpa using (List.mem_filter.mp hem').2
  cases em
  cases em'
  simp only at he he' heq
  rw [he, he', heq]

end Memberships

/-! ## Counters only grow -/

theorem modseq_le_effect {U : Unicode} {db db' : MailDb} {op : MailOp}
    (h : MailEffect U db op db') (a : AccountId) (t : DataType) :
    db.modseq a t ≤ db'.modseq a t := by
  cases h with
  | @createAccount io email displayName a' newId now _ _ _ => exact db.le_modseq_bumped a' a .mailbox t
  | @ingest io g mailboxId _ _ _ _ _ _ => exact db.modseq_le_ingested g mailboxId a t
  | @updateEmail io a' e keywords mailboxIds _ _ _ _ =>
    exact db.modseq_le_updatedEmail U a' e keywords mailboxIds a t
  | @setEmailAttribute io a' e kind content newId now _ _ => exact db.le_modseq_bumped a' a .email t
  | @dismissEmailAttribute io a' e kind now _ _ => exact db.le_modseq_bumped a' a .email t
  | _ => exact le_refl _

/-- **The state never decreases.** -/
theorem modseq_le_run (U : Unicode) (db : MailDb) (ops : List MailOp) (a : AccountId)
    (t : DataType) : db.modseq a t ≤ (Runs.run (mailStep U) db ops).modseq a t := by
  let R (s s' : MailDb) : Prop := s.modseq a t ≤ s'.modseq a t
  refine Runs.run_rel (I := fun _ => True) (R := R) (fun _ _ _ => trivial) (fun _ => le_refl _)
    (fun h₁ h₂ => h₁.trans h₂) (fun s o _ => ?_) ops trivial
  change s.modseq a t ≤ _
  rcases mailStep_spec U s o with heq | heff
  · rw [heq]
  · exact modseq_le_effect heff a t

end Owney
