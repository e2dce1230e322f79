import Owney.Lib.Runs
import Owney.MailQueries

/-!
# What a call does to the mail tables

`MailEffect` says it once: a call that succeeds leaves one of ten databases,
each written out from the old one, under the guards the call checked.
`mailStep_spec` is the only proof that opens the calls; every invariant is a
case analysis over the effects.

The frame lemmas before it say which tables each write leaves alone.
-/

namespace Owney

open Tables

namespace MailDb

/-! ## The counters -/

theorem modseq_setModseq (db : MailDb) (a a' : AccountId) (t t' : DataType) (m : ModSeq) :
    (db.setModseq a t m).modseq a' t' = if a' = a ∧ t' = t then m else db.modseq a' t' := by
  unfold setModseq modseq
  by_cases h : a' = a ∧ t' = t
  · obtain ⟨rfl, rfl⟩ := h
    rw [if_pos ⟨rfl, rfl⟩, find?_upsert_self]
    · cases db.states.find? fun r => r.accountId = a' ∧ r.dataType = t' <;> rfl
    · exact fun _ => rfl
    · simp
  · rw [if_neg h, find?_upsert_of_disjoint]
    · exact fun _ => rfl
    · intro r hr
      simp only [decide_eq_true_eq] at hr
      simp only [decide_eq_false_iff_not, hr]
      exact fun hc => h ⟨hc.1.symm, hc.2.symm⟩
    · simp only [decide_eq_false_iff_not]
      exact fun hc => h ⟨hc.1.symm, hc.2.symm⟩

/-- A bump moves one counter, by one. -/
theorem modseq_bumped (db : MailDb) (a a' : AccountId) (t t' : DataType) :
    (db.bumped a t).modseq a' t' =
      if a' = a ∧ t' = t then db.modseq a t + 1 else db.modseq a' t' :=
  modseq_setModseq ..

@[simp] theorem modseq_bumped_self (db : MailDb) (a : AccountId) (t : DataType) :
    (db.bumped a t).modseq a t = db.modseq a t + 1 := by
  rw [modseq_bumped, if_pos ⟨rfl, rfl⟩]

theorem modseq_bumped_of_ne (db : MailDb) {a a' : AccountId} {t t' : DataType} (h : t' ≠ t) :
    (db.bumped a t).modseq a' t' = db.modseq a' t' := by
  rw [modseq_bumped, if_neg fun hc => h hc.2]

theorem le_modseq_bumped (db : MailDb) (a a' : AccountId) (t t' : DataType) :
    db.modseq a' t' ≤ (db.bumped a t).modseq a' t' := by
  rw [modseq_bumped]
  split
  · rename_i h
    rw [h.1, h.2]
    exact Nat.le_succ _
  · exact le_refl _

/-- The counters are read from `states` alone. -/
theorem modseq_congr {db db' : MailDb} (h : db'.states = db.states) (a : AccountId)
    (t : DataType) : db'.modseq a t = db.modseq a t := by
  unfold modseq
  rw [h]

/-! ## Frames -/

section Frames

variable (db : MailDb) (a : AccountId) (t : DataType) (e : EmailId) (m : ModSeq)

@[simp] theorem bumped_emails : (db.bumped a t).emails = db.emails := rfl
@[simp] theorem bumped_threads : (db.bumped a t).threads = db.threads := rfl
@[simp] theorem bumped_mailboxes : (db.bumped a t).mailboxes = db.mailboxes := rfl
@[simp] theorem bumped_emailMailbox : (db.bumped a t).emailMailbox = db.emailMailbox := rfl
@[simp] theorem bumped_emailKeyword : (db.bumped a t).emailKeyword = db.emailKeyword := rfl
@[simp] theorem bumped_emailAttributes :
    (db.bumped a t).emailAttributes = db.emailAttributes := rfl

@[simp] theorem touchEmail_threads : (db.touchEmail e m).threads = db.threads := rfl
@[simp] theorem touchEmail_mailboxes : (db.touchEmail e m).mailboxes = db.mailboxes := rfl
@[simp] theorem touchEmail_emailMailbox : (db.touchEmail e m).emailMailbox = db.emailMailbox := rfl
@[simp] theorem touchEmail_emailKeyword : (db.touchEmail e m).emailKeyword = db.emailKeyword := rfl
@[simp] theorem touchEmail_emailAttributes :
    (db.touchEmail e m).emailAttributes = db.emailAttributes := rfl
@[simp] theorem touchEmail_states : (db.touchEmail e m).states = db.states := rfl
@[simp] theorem modseq_touchEmail (a' : AccountId) (t' : DataType) :
    (db.touchEmail e m).modseq a' t' = db.modseq a' t' := rfl

@[simp] theorem touchThread_emails (f : Option ThreadId) (n : ThreadId) :
    (db.touchThread a f n m).emails = db.emails := by cases f <;> rfl
@[simp] theorem touchThread_mailboxes (f : Option ThreadId) (n : ThreadId) :
    (db.touchThread a f n m).mailboxes = db.mailboxes := by cases f <;> rfl
@[simp] theorem touchThread_emailMailbox (f : Option ThreadId) (n : ThreadId) :
    (db.touchThread a f n m).emailMailbox = db.emailMailbox := by cases f <;> rfl
@[simp] theorem touchThread_emailKeyword (f : Option ThreadId) (n : ThreadId) :
    (db.touchThread a f n m).emailKeyword = db.emailKeyword := by cases f <;> rfl
@[simp] theorem touchThread_emailAttributes (f : Option ThreadId) (n : ThreadId) :
    (db.touchThread a f n m).emailAttributes = db.emailAttributes := by cases f <;> rfl
@[simp] theorem touchThread_states (f : Option ThreadId) (n : ThreadId) :
    (db.touchThread a f n m).states = db.states := by cases f <;> rfl

end Frames

/-! ## The databases the calls leave -/

/-- After `create_account`. -/
def createdAccount (db : MailDb) (U : Unicode) (email : String) (displayName : Option String)
    (a : AccountId) (newId : ℕ → MailboxId) (now : ℤ) : MailDb :=
  { db.bumped a .mailbox with
    accounts := db.accounts ++ [⟨a, U.toLowercase (U.trim email), displayName, now⟩]
    mailboxes := db.mailboxes ++ defaultMailboxRows a newId (db.modseq a .mailbox + 1) }

/-- The three counters of an ingest. -/
def bumpedForIngest (db : MailDb) (a : AccountId) : MailDb :=
  ((db.bumped a .email).bumped a .thread).bumped a .mailbox

/-- The thread an ingest joins, if any. -/
def joinedThread (db : MailDb) (g : IngestArgs) : Option ThreadId :=
  resolveThread db g.accountId (parseMeta g.raw.parsed).references

/-- The row an ingest adds. -/
def newEmail (db : MailDb) (g : IngestArgs) : EmailsRow :=
  g.row ((db.joinedThread g).getD g.threadId) (db.modseq g.accountId .email + 1)

/-- After the ingest transaction. -/
def ingested (db : MailDb) (g : IngestArgs) (mailboxId : MailboxId) : MailDb :=
  let db₁ := (db.bumpedForIngest g.accountId).touchThread g.accountId (db.joinedThread g) g.threadId
    (db.modseq g.accountId .thread + 1)
  ({ db₁ with
    emails := db.emails ++ [db.newEmail g]
    emailMailbox := db.emailMailbox ++ [⟨g.emailId, mailboxId⟩] } : MailDb).linkBlob g.raw.blobId

/-- The keyword and mailbox halves of `update_email`. -/
def edited (db : MailDb) (U : Unicode) (e : EmailId) (keywords : Option (List String))
    (mailboxIds : Option (List MailboxId)) : MailDb :=
  let db₁ := match keywords with
    | none => db
    | some ks => db.replaceKeywords U e ks
  match mailboxIds with
  | none => db₁
  | some ms => db₁.replaceMailboxes e ms

/-- After `update_email`. -/
def updatedEmail (db : MailDb) (U : Unicode) (a : AccountId) (e : EmailId)
    (keywords : Option (List String)) (mailboxIds : Option (List MailboxId)) : MailDb :=
  (((db.edited U e keywords mailboxIds).bumped a .email).bumped a .mailbox).touchEmail e
    (db.modseq a .email + 1)

/-! ### Their counters and frames -/

section PostStates

variable (db : MailDb) (U : Unicode) (a : AccountId) (e : EmailId)
  (keywords : Option (List String)) (mailboxIds : Option (List MailboxId))

@[simp] theorem edited_emails : (db.edited U e keywords mailboxIds).emails = db.emails := by
  cases keywords <;> cases mailboxIds <;> rfl

@[simp] theorem edited_emailAttributes :
    (db.edited U e keywords mailboxIds).emailAttributes = db.emailAttributes := by
  cases keywords <;> cases mailboxIds <;> rfl

@[simp] theorem edited_states : (db.edited U e keywords mailboxIds).states = db.states := by
  cases keywords <;> cases mailboxIds <;> rfl

theorem modseq_edited (t : DataType) :
    (db.edited U e keywords mailboxIds).modseq a t = db.modseq a t :=
  modseq_congr (edited_states ..) a t

theorem modseq_le_updatedEmail (a' : AccountId) (t : DataType) :
    db.modseq a' t ≤ (db.updatedEmail U a e keywords mailboxIds).modseq a' t := by
  refine le_trans ?_ (le_modseq_bumped _ a a' .mailbox t)
  refine le_trans ?_ (le_modseq_bumped _ a a' .email t)
  rw [modseq_edited]

theorem modseq_bumpedForIngest {t : DataType} (ht : t ≠ .emailSubmission) :
    (db.bumpedForIngest a).modseq a t = db.modseq a t + 1 := by
  unfold bumpedForIngest
  cases t with
  | email =>
    rw [modseq_bumped_of_ne _ (by decide), modseq_bumped_of_ne _ (by decide), modseq_bumped_self]
  | thread =>
    rw [modseq_bumped_of_ne _ (by decide), modseq_bumped_self, modseq_bumped_of_ne _ (by decide)]
  | mailbox =>
    rw [modseq_bumped_self, modseq_bumped_of_ne _ (by decide), modseq_bumped_of_ne _ (by decide)]
  | emailSubmission => exact absurd rfl ht

theorem modseq_ingested (g : IngestArgs) (m : MailboxId) (a' : AccountId) (t : DataType) :
    (db.ingested g m).modseq a' t = (db.bumpedForIngest g.accountId).modseq a' t :=
  modseq_congr (touchThread_states ..) a' t

theorem modseq_le_ingested (g : IngestArgs) (m : MailboxId) (a' : AccountId) (t : DataType) :
    db.modseq a' t ≤ (db.ingested g m).modseq a' t := by
  rw [modseq_ingested]
  refine le_trans ?_ (le_modseq_bumped _ g.accountId a' .mailbox t)
  refine le_trans ?_ (le_modseq_bumped _ g.accountId a' .thread t)
  exact le_modseq_bumped _ g.accountId a' .email t

end PostStates

end MailDb

/-- What a successful call does: its guards and the database it leaves. -/
inductive MailEffect (U : Unicode) (db : MailDb) : MailOp → MailDb → Prop where
  | createAccount {io email displayName a newId now} :
      (∀ r ∈ db.accounts, r.id ≠ a) → db.modseq a .mailbox < i64Max →
      ((db.mailboxes ++ defaultMailboxRows a newId (db.modseq a .mailbox + 1)).map (·.id)).Nodup →
      MailEffect U db (.createAccount io email displayName a newId now)
        (db.createdAccount U email displayName a newId now)
  | putBlob {io b size now} (blobs) :
      MailEffect U db (.putBlob io b size now) { db with blobs := blobs }
  | ingest {io g mailboxId} :
      db.targetMailbox g.accountId g.target = some mailboxId →
      db.modseq g.accountId .email < i64Max → db.modseq g.accountId .thread < i64Max →
      db.modseq g.accountId .mailbox < i64Max →
      (db.joinedThread g = none → g.threadId ∉ db.threads.map (·.id)) →
      g.emailId ∉ db.emails.map (·.id) →
      MailEffect U db (.ingest io g) (db.ingested g mailboxId)
  | linkContact {io a fromAddr id now} (contacts) :
      MailEffect U db (.linkContact io a fromAddr id now) { db with contacts := contacts }
  | updateEmail {io a e keywords mailboxIds} :
      db.ownsEmail a e →
      (∀ ms, mailboxIds = some ms → ms ≠ [] ∧ (∀ m ∈ ms, db.ownsMailbox a m) ∧ ms.Nodup) →
      db.modseq a .email < i64Max → db.modseq a .mailbox < i64Max →
      MailEffect U db (.updateEmail io a e keywords mailboxIds)
        (db.updatedEmail U a e keywords mailboxIds)
  | setEmailAttribute {io a e kind content newId now} :
      db.ownsEmail a e → db.modseq a .email < i64Max →
      MailEffect U db (.setEmailAttribute io a e kind content newId now)
        (((db.upsertAttribute a e kind content newId now).bumped a .email).touchEmail e
          (db.modseq a .email + 1))
  | dismissEmailAttribute {io a e kind now} :
      db.ownsEmail a e → db.modseq a .email < i64Max →
      MailEffect U db (.dismissEmailAttribute io a e kind now)
        (((db.dismissAttribute a e kind now).bumped a .email).touchEmail e
          (db.modseq a .email + 1))
  | setPgpStatus {io e status} : io 0 →
      MailEffect U db (.setPgpStatus io e status)
        { db with emails := update (·.id = e) ({ · with pgpStatus := some status }) db.emails }
  | setSpamVerdict {io e verdict} :
      MailEffect U db (.setSpamVerdict io e verdict)
        { db with emails := update (·.id = e) ({ · with spamResults := some verdict }) db.emails }
  | markIndexed {io e} :
      MailEffect U db (.markIndexed io e)
        { db with emails := update (·.id = e) ({ · with searchIndexed := true }) db.emails }

/-! ## The calls, opened once -/

section Calls

variable {U : Unicode} {db db' : MailDb} {io : Io} {a : AccountId} {e : EmailId}

theorem bump_eq_ok {n : ℕ} {t : DataType} {m : ModSeq} :
    bump io n a t db = .ok (m, db') ↔
      io n ∧ db.modseq a t < i64Max ∧ m = db.modseq a t + 1 ∧ db' = db.bumped a t := by
  simp only [bump, Tx.bind_eq_ok, Tx.query_eq_ok, Tx.require_eq_ok, Tx.exec_eq_ok, Tx.pure_eq_ok]
  constructor
  · rintro ⟨_, _, ⟨hio, rfl, rfl⟩, _, _, ⟨hlt, rfl⟩, _, _, ⟨-, rfl⟩, rfl, rfl⟩
    exact ⟨hio, hlt, rfl, rfl⟩
  · rintro ⟨hio, hlt, rfl, rfl⟩
    exact ⟨_, _, ⟨hio, rfl, rfl⟩, ⟨⟩, _, ⟨hlt, rfl⟩, ⟨⟩, _, ⟨hio, rfl⟩, rfl, rfl⟩

theorem setKeywords_eq_ok {keywords : Option (List String)} {u : PUnit} :
    setKeywords U io e keywords db = .ok (u, db') ↔
      (keywords ≠ none → io 1) ∧ db' = db.edited U e keywords none := by
  cases keywords with
  | none =>
    constructor
    · rintro ⟨⟩
      exact ⟨absurd rfl, rfl⟩
    · rintro ⟨-, rfl⟩
      rfl
  | some ks =>
    rw [setKeywords, Tx.exec_eq_ok, forall_prop_of_true (Option.some_ne_none ks)]
    exact and_congr_right' eq_comm

theorem setMailboxes_eq_ok {mailboxIds : Option (List MailboxId)} {u : PUnit} :
    setMailboxes io a e mailboxIds db = .ok (u, db') ↔
      (∀ ms, mailboxIds = some ms →
        ms ≠ [] ∧ (∀ m ∈ ms, io 2 ∧ db.ownsMailbox a m) ∧ ms.Nodup ∧ io 3) ∧
      db' = db.edited U e none mailboxIds := by
  cases mailboxIds with
  | none =>
    constructor
    · rintro ⟨⟩
      exact ⟨fun _ h => absurd h (Option.some_ne_none _).symm, rfl⟩
    · rintro ⟨-, rfl⟩
      rfl
  | some ms =>
    simp only [setMailboxes, Tx.bind_eq_ok, Tx.get_eq_ok, Tx.require_eq_ok, Tx.exec_eq_ok,
      Option.some.injEq, forall_eq', List.find?_eq_none, decide_eq_true_eq, not_not]
    constructor
    · rintro ⟨_, _, ⟨hne, rfl⟩, _, _, ⟨rfl, rfl⟩, _, _, ⟨howned, rfl⟩, _, _, ⟨hnd, rfl⟩, hio, rfl⟩
      exact ⟨⟨hne, howned, hnd, hio⟩, rfl⟩
    · rintro ⟨⟨hne, howned, hnd, hio⟩, rfl⟩
      exact ⟨⟨⟩, _, ⟨hne, rfl⟩, _, _, ⟨rfl, rfl⟩, ⟨⟩, _, ⟨howned, rfl⟩, ⟨⟩, _, ⟨hnd, rfl⟩, hio, rfl⟩

/-- **When `update_email` writes**, and what. -/
theorem updateEmailTx_eq_ok {keywords : Option (List String)}
    {mailboxIds : Option (List MailboxId)} {changed : List (DataType × ModSeq)} :
    updateEmailTx U io a e keywords mailboxIds db = .ok (changed, db') ↔
      (db.ownsEmail a e ∧ (keywords ≠ none → io 1) ∧
        (∀ ms, mailboxIds = some ms →
          ms ≠ [] ∧ (∀ m ∈ ms, io 2 ∧ db.ownsMailbox a m) ∧ ms.Nodup ∧ io 3) ∧
        db.modseq a .email < i64Max ∧ db.modseq a .mailbox < i64Max ∧
          ∀ n ∈ [0, 4, 5, 6, 7], io n) ∧
      changed = [(.email, db.modseq a .email + 1), (.mailbox, db.modseq a .mailbox + 1)] ∧
      db' = db.updatedEmail U a e keywords mailboxIds := by
  have hst : ∀ t, ((db.edited U e keywords none).edited U e none mailboxIds).modseq a t =
      db.modseq a t := by
    intro t
    cases keywords <;> cases mailboxIds <;> rfl
  have hed : (db.edited U e keywords none).edited U e none mailboxIds =
      db.edited U e keywords mailboxIds := by
    cases keywords <;> cases mailboxIds <;> rfl
  have hmb : ∀ m, (db.edited U e keywords none).ownsMailbox a m = db.ownsMailbox a m := by
    intro m
    cases keywords <;> rfl
  have hseq : ∀ d : MailDb, (d.bumped a .email).modseq a .mailbox = d.modseq a .mailbox :=
    fun d => d.modseq_bumped_of_ne (by decide)
  simp only [updateEmailTx, Tx.bind_eq_ok, Tx.get_eq_ok, Tx.require_eq_ok, bump_eq_ok,
    Tx.exec_eq_ok, Tx.pure_eq_ok, setKeywords_eq_ok, setMailboxes_eq_ok (U := U),
    List.forall_mem_cons]
  constructor
  · rintro ⟨_, _, ⟨rfl, rfl⟩, _, _, ⟨hown, rfl⟩, _, _, ⟨hk, rfl⟩, _, _, ⟨hm, rfl⟩, h⟩
    obtain ⟨_, _, ⟨h4, hlt₁, rfl, rfl⟩, _, _, ⟨h5, hlt₂, rfl, rfl⟩, _, _, ⟨h6, rfl⟩, _, _,
      ⟨h7, rfl⟩, rfl, rfl⟩ := h
    simp only [hseq, hst, hmb] at hlt₁ hlt₂ hm
    refine ⟨⟨hown.2, hk, hm, hlt₁, hlt₂, hown.1, h4, h5, h6, h7, by simp⟩, ?_, ?_⟩
    · rw [hseq, hst, hst]
    · rw [hst, hed]
      rfl
  · rintro ⟨⟨hown, hk, hm, hlt₁, hlt₂, h0, h4, h5, h6, h7, -⟩, rfl, rfl⟩
    refine ⟨_, _, ⟨rfl, rfl⟩, ⟨⟩, _, ⟨⟨h0, hown⟩, rfl⟩, ⟨⟩, _, ⟨hk, rfl⟩, ⟨⟩, _, ⟨?_, rfl⟩,
      _, _, ⟨h4, ?_, rfl, rfl⟩, _, _, ⟨h5, ?_, rfl, rfl⟩, ⟨⟩, _, ⟨h6, rfl⟩, ⟨⟩, _, ⟨h7, rfl⟩, ?_,
      ?_⟩
    · simpa only [hmb] using hm
    · rwa [hst]
    · rwa [hseq, hst]
    · rw [hseq, hst, hst]
    · rw [hst, hed]
      rfl

theorem updateEmailTx_ok {keywords : Option (List String)} {mailboxIds : Option (List MailboxId)}
    {changed : List (DataType × ModSeq)}
    (h : updateEmailTx U io a e keywords mailboxIds db = .ok (changed, db')) :
    MailEffect U db (.updateEmail io a e keywords mailboxIds) db' := by
  obtain ⟨⟨hown, -, hms, hlt₁, hlt₂, -⟩, -, rfl⟩ := updateEmailTx_eq_ok.mp h
  refine .updateEmail hown (fun ms hms' => ?_) hlt₁ hlt₂
  obtain ⟨hne, howned, hnd, -⟩ := hms ms hms'
  exact ⟨hne, fun m hm => (howned m hm).2, hnd⟩

theorem createAccountTx_ok {email : String} {displayName : Option String}
    {newId : ℕ → MailboxId} {now : ℤ} {changed : List (DataType × ModSeq)}
    (h : createAccountTx U io email displayName a newId now db = .ok (changed, db')) :
    MailEffect U db (.createAccount io email displayName a newId now) db' := by
  simp only [createAccountTx, Tx.bind_eq_ok, Tx.query_eq_ok, Tx.require_eq_ok, bump_eq_ok,
    Tx.exec_eq_ok, Tx.pure_eq_ok] at h
  obtain ⟨_, _, ⟨-, rfl, rfl⟩, _, _, ⟨hacc, rfl⟩, _, _, ⟨-, rfl⟩, h⟩ := h
  obtain ⟨_, _, ⟨-, hlt, rfl, rfl⟩, _, _, ⟨hnd, rfl⟩, _, _, ⟨-, rfl⟩, _, _, ⟨-, rfl⟩, -, rfl⟩ := h
  exact .createAccount (fun r hr => (hacc r hr).1) hlt hnd

theorem ingestTx_ok {g : IngestArgs} {r : Ingested} (h : ingestTx io g db = .ok (r, db')) :
    MailEffect U db (.ingest io g) db' := by
  simp only [ingestTx, Tx.bind_eq_ok, Tx.query_eq_ok, Tx.require_eq_ok, bump_eq_ok,
    Tx.exec_eq_ok, Tx.pure_eq_ok, Tx.okOr_eq_ok] at h
  obtain ⟨_, _, ⟨-, rfl, rfl⟩, mailboxId, _, ⟨hmb, rfl⟩, _, _, ⟨-, rfl, rfl⟩, h⟩ := h
  obtain ⟨_, _, ⟨-, hlt₁, rfl, rfl⟩, _, _, ⟨-, hlt₂, rfl, rfl⟩, _, _, ⟨-, hlt₃, rfl, rfl⟩, h⟩ := h
  obtain ⟨_, _, ⟨-, rfl, rfl⟩, _, _, ⟨hthread, rfl⟩, _, _, ⟨-, rfl⟩, _, _, ⟨hfresh, rfl⟩, h⟩ := h
  obtain ⟨_, _, ⟨-, rfl⟩, _, _, ⟨-, rfl⟩, _, _, ⟨-, rfl⟩, _, _, ⟨-, rfl⟩, -, rfl⟩ := h
  rw [MailDb.modseq_bumped_of_ne _ (show DataType.thread ≠ .email by decide)] at hlt₂ ⊢
  rw [MailDb.modseq_bumped_of_ne _ (show DataType.mailbox ≠ .thread by decide),
    MailDb.modseq_bumped_of_ne _ (show DataType.mailbox ≠ .email by decide)] at hlt₃
  have heffect : MailEffect U db (.ingest io g) _ :=
    .ingest hmb hlt₁ hlt₂ hlt₃ hthread hfresh
  simpa [MailDb.ingested, MailDb.newEmail, MailDb.bumpedForIngest, MailDb.joinedThread]
    using heffect

/-- An ingest returns the blob it was given. -/
theorem ingestTx_blobId {g : IngestArgs} {r : Ingested}
    (h : ingestTx io g db = .ok (r, db')) : r.1.2.2 = g.raw.blobId := by
  simp only [ingestTx, Tx.bind_eq_ok, Tx.query_eq_ok, Tx.require_eq_ok, Tx.exec_eq_ok,
    Tx.pure_eq_ok, Tx.okOr_eq_ok] at h
  obtain ⟨_, _, -, _, _, -, _, _, -, _, _, -, _, _, -, _, _, -, _, _, -, h⟩ := h
  obtain ⟨_, _, -, _, _, -, _, _, -, _, _, -, _, _, -, _, _, -, _, _, -, rfl, -⟩ := h
  rfl

theorem ownedEmailCheck_eq_ok {u : PUnit} :
    ownedEmailCheck io a e db = .ok (u, db') ↔ (io 0 ∧ db.ownsEmail a e) ∧ db = db' := by
  simp only [ownedEmailCheck, Tx.bind_eq_ok, Tx.get_eq_ok, Tx.require_eq_ok]
  constructor
  · rintro ⟨_, _, ⟨rfl, rfl⟩, hown, rfl⟩
    exact ⟨hown, rfl⟩
  · rintro ⟨hown, rfl⟩
    exact ⟨_, _, ⟨rfl, rfl⟩, hown, rfl⟩

theorem setEmailAttributeTx_ok {kind content : String} {newId : Uuid} {now : ℤ}
    {changed : List (DataType × ModSeq)}
    (h : setEmailAttributeTx io a e kind content newId now db = .ok (changed, db')) :
    MailEffect U db (.setEmailAttribute io a e kind content newId now) db' := by
  simp only [setEmailAttributeTx, Tx.bind_eq_ok, ownedEmailCheck_eq_ok, Tx.query_eq_ok,
    Tx.require_eq_ok, bump_eq_ok, Tx.exec_eq_ok, Tx.pure_eq_ok] at h
  obtain ⟨_, _, ⟨hown, rfl⟩, _, _, ⟨-, rfl, rfl⟩, _, _, ⟨-, rfl⟩, _, _, ⟨-, rfl⟩, h⟩ := h
  obtain ⟨_, _, ⟨-, hlt, rfl, rfl⟩, _, _, ⟨-, rfl⟩, _, _, ⟨-, rfl⟩, -, rfl⟩ := h
  exact .setEmailAttribute hown.2 hlt

theorem dismissEmailAttributeTx_ok {kind : String} {now : ℤ} {changed : List (DataType × ModSeq)}
    (h : dismissEmailAttributeTx io a e kind now db = .ok (changed, db')) :
    MailEffect U db (.dismissEmailAttribute io a e kind now) db' := by
  simp only [dismissEmailAttributeTx, Tx.bind_eq_ok, ownedEmailCheck_eq_ok, Tx.query_eq_ok,
    Tx.require_eq_ok, bump_eq_ok, Tx.exec_eq_ok, Tx.pure_eq_ok] at h
  obtain ⟨_, _, ⟨hown, rfl⟩, _, _, ⟨-, rfl, rfl⟩, _, _, ⟨-, rfl⟩, _, _, ⟨-, rfl⟩, h⟩ := h
  obtain ⟨_, _, ⟨-, hlt, rfl, rfl⟩, _, _, ⟨-, rfl⟩, _, _, ⟨-, rfl⟩, -, rfl⟩ := h
  exact .dismissEmailAttribute hown.2 hlt

end Calls

/-- **Every call either leaves the tables alone or has its effect.** -/
theorem mailStep_spec (U : Unicode) (db : MailDb) (op : MailOp) :
    mailStep U db op = db ∨ MailEffect U db op (mailStep U db op) := by
  have key : ∀ {α : Type} (body : Tx MailDb α),
      (∀ r db', body db = .ok (r, db') → MailEffect U db op db') →
      (transaction body db).2 = db ∨ MailEffect U db op (transaction body db).2 := by
    intro α body hbody
    rcases transaction_cases body db with ⟨err, h⟩ | ⟨r, db', hok, h⟩
    · exact Or.inl (by rw [h])
    · exact Or.inr (by rw [h]; exact hbody r db' hok)
  cases op with
  | createAccount => exact key _ fun _ _ => createAccountTx_ok
  | putBlob io b size now =>
    refine key _ fun _ db' h => ?_
    rw [putBlobTx, Tx.exec_eq_ok] at h
    rw [← h.2]
    split
    · exact .putBlob db.blobs
    · exact .putBlob _
  | ingest => exact key _ fun _ _ => ingestTx_ok
  | linkContact =>
    refine key _ fun _ db' h => ?_
    rw [linkContactTx, Tx.exec_eq_ok] at h
    rw [← h.2]
    dsimp only
    split
    · exact .linkContact db.contacts
    · exact .linkContact _
  | updateEmail => exact key _ fun _ _ => updateEmailTx_ok
  | setEmailAttribute => exact key _ fun _ _ => setEmailAttributeTx_ok
  | dismissEmailAttribute => exact key _ fun _ _ => dismissEmailAttributeTx_ok
  | setPgpStatus =>
    refine key _ fun _ db' h => ?_
    obtain ⟨hio, rfl⟩ := Tx.exec_eq_ok.mp h
    exact .setPgpStatus hio
  | setSpamVerdict =>
    refine key _ fun _ db' h => ?_
    rw [← (Tx.exec_eq_ok.mp h).2]
    exact .setSpamVerdict
  | markIndexed =>
    refine key _ fun _ db' h => ?_
    rw [← (Tx.exec_eq_ok.mp h).2]
    exact .markIndexed

end Owney
