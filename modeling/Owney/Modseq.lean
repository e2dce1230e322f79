import Owney.JmapReferences
import Owney.Stamps

/-!
# What `Foo/changes` tells about a write

Change tracking is by hand: a write of the mail tables has to bump the counter
of the data type and to stamp the row. Whether a client that polls
`changes_since` hears of every write is a property of runs.

* Emails: every write does both, but `set_pgp_status`. A run keeps its clients
  up to date exactly when no stored PGP status comes to read as another JSON value
  (`emailChangesComplete_iff`).
* Mailboxes: a delivery or an edit bumps the Mailbox counter and stamps no
  mailbox, so the mailboxes whose counts it changed are never listed
  (`not_mailboxChangeSeen`).
-/

namespace Owney

open Tables

/-! ## Emails -/

section Emails

variable {J : Type} (R : JsonReader J) (U : Unicode) (checked : Bool)

/-- `Email/changes` is complete over a run from the empty database. -/
structure EmailChangesComplete (ops : List MailOp) : Prop where
  /-- a write that changes an email bumps the state and stamps the email -/
  stamped : ∀ pre op post, ops = pre ++ op :: post → ∀ a e,
    let db := Runs.run (mailStep U) .empty pre
    (mailStep U db op).emailContents R a e ≠ db.emailContents R a e →
      Stamped db (mailStep U db op) a .email e.uuid
  /-- and from every state recorded before it the email is listed, ever after -/
  listed : ∀ pre op mid post, ops = pre ++ op :: mid ++ post → ∀ a e,
    let db := Runs.run (mailStep U) .empty pre
    (mailStep U db op).emailContents R a e ≠ db.emailContents R a e → ∀ m ≤ db.modseq a .email,
      Listed checked (Runs.run (mailStep U) .empty (pre ++ op :: mid)) a .email m e.uuid
  /-- `created_modseq <= updated_modseq <= state` in every state of the run -/
  ordered : ∀ pre post, ops = pre ++ post →
    let db := Runs.run (mailStep U) .empty pre
    ∀ r ∈ db.emails, r.createdModseq ≤ r.updatedModseq ∧
      r.updatedModseq ≤ db.modseq r.accountId .email
  /-- the state never decreases -/
  monotone : ∀ pre mid post, ops = pre ++ mid ++ post → ∀ a,
    (Runs.run (mailStep U) .empty pre).modseq a .email ≤
      (Runs.run (mailStep U) .empty (pre ++ mid)).modseq a .email

end Emails

/-- A PGP status with another value changes what `Email/get` returns, without a bump. -/
theorem emailContents_of_changesPgp {J : Type} {R : JsonReader J} {U : Unicode} {db : MailDb}
    {op : MailOp} (h : MailInv U db) (hop : ChangesPgp R db op) :
    ∃ a e, (mailStep U db op).emailContents R a e ≠ db.emailContents R a e ∧
      (mailStep U db op).modseq a .email = db.modseq a .email := by
  cases op with
  | setPgpStatus io e status =>
    obtain ⟨hio, r, hr, rfl, hne⟩ := hop
    let setStatus : EmailsRow → EmailsRow := ({ · with pgpStatus := some status })
    have hstep : mailStep U db (.setPgpStatus io r.id status) =
        { db with emails := update (·.id = r.id) setStatus db.emails } := by
      simp only [mailStep, transaction, setPgpStatusTx, Tx.exec, hio, if_true]
      rfl
    have hkeys := h.keys .email
    rw [MailDb.ids_email] at hkeys
    have hfind : db.findEmail r.accountId r.id = some r :=
      find?_eq_some_of_key hkeys hr (by simp) fun r' hr' => by
        simp only [decide_eq_true_eq] at hr'
        rw [hr'.2]
    refine ⟨r.accountId, r.id, ?_, by rw [hstep]; rfl⟩
    have hfind' : (mailStep U db (.setPgpStatus io r.id status)).findEmail r.accountId r.id =
        some { r with pgpStatus := some status } := by
      rw [hstep, MailDb.findEmail_update (f := setStatus) rfl fun _ => ⟨rfl, rfl⟩, hfind]
      simp [setStatus]
    intro hc
    simp only [MailDb.emailContents, MailDb.emailById, hfind, hfind', Option.map_some,
      Option.some.injEq] at hc
    exact hne (congrArg EmailObject.pgpStatus hc).symm
  | _ => exact hop.elim

/-- **When `Email/changes` is complete over a run**: exactly when no step of it
stores a PGP status that reads as another JSON value. -/
theorem emailChangesComplete_iff {J : Type} (R : JsonReader J) (U : Unicode) (checked : Bool)
    (ops : List MailOp) :
    EmailChangesComplete R U checked ops ↔
      Runs.Meets (mailStep U) (fun db op => ¬ChangesPgp R db op) MailDb.empty ops := by
  have hinv : ∀ ops, MailInv U (Runs.run (mailStep U) .empty ops) := MailInv.empty.run
  rw [Runs.meets_iff]
  constructor
  · intro h pre op post hops hpgp
    obtain ⟨a, e, hne, hseq⟩ := emailContents_of_changesPgp (hinv pre) hpgp
    have hlt := (h.stamped pre op post hops a e hne).1
    rw [hseq] at hlt
    exact lt_irrefl _ hlt
  · intro h
    have hstamped : ∀ pre op post, ops = pre ++ op :: post → ∀ a e,
        let db := Runs.run (mailStep U) .empty pre
        (mailStep U db op).emailContents R a e ≠ db.emailContents R a e →
          Stamped db (mailStep U db op) a .email e.uuid := by
      intro pre op post hops a e db hne
      exact (emailContents_step (hinv pre) hne).resolve_right (h pre op post hops)
    refine ⟨hstamped, ?_, ?_, ?_⟩
    · intro pre op mid post hops a e db hne m hm
      rw [List.append_assoc, List.cons_append] at hops
      have hst := hstamped pre op _ hops a e hne
      have hlater : Runs.run (mailStep U) .empty (pre ++ op :: mid) =
          Runs.run (mailStep U) (mailStep U db op) mid := Runs.run_append ..
      rw [hlater]
      have hop := (hinv pre).step op
      exact listed_of_stamped (hop.run mid) (by decide) hst (RowsLe.run hop mid .email) hm
        (hst.1.le.trans (modseq_le_run U _ mid a .email))
    · intro pre post _ db r hr
      exact (hinv pre).seqs .email _ (List.mem_map.mpr ⟨r, hr, rfl⟩)
    · intro pre mid post _ a
      rw [Runs.run_append]
      exact modseq_le_run U _ mid a .email

/-- A first message to the account, from an unparsed source. -/
def firstMessage : IngestArgs where
  accountId := ⟨1⟩
  raw := ⟨none, 3, ⟨7⟩⟩
  target := .role "inbox"
  authResults := none
  chatMode := false
  emailId := ⟨100⟩
  threadId := ⟨200⟩
  now := 5

/-- What `process_inbound` stores for a message it cannot decrypt. -/
def undecryptable : String :=
  "\x7b\"encrypted\":true,\"signature\":\"none\",\"undecryptable\":true\x7d"

/-- Its value. -/
def undecryptableJson : Jmap.Value :=
  .object [("encrypted", .bool true), ("signature", .string "none"), ("undecryptable", .bool true)]

/-- `serde_json`, of that text. -/
def statusReader : JsonReader Jmap.Value where
  null := .null
  string := .string
  fromStr text := if text = undecryptable then some undecryptableJson else none

/-- An account, its first message, and the status of the message, which the delivery stores in a
call of its own. -/
def pgpRun : List MailOp :=
  [createFreshAccount, .ingest Io.ok firstMessage, .setPgpStatus Io.ok ⟨100⟩ undecryptable]

/-- The status of the first message changes and no state does. -/
theorem not_emailChangesComplete_pgpRun :
    ¬EmailChangesComplete statusReader Unicode.ascii true pgpRun := by
  intro h
  let db := Runs.run (mailStep Unicode.ascii) .empty
    [createFreshAccount, .ingest Io.ok firstMessage]
  let db' := mailStep Unicode.ascii db (.setPgpStatus Io.ok ⟨100⟩ undecryptable)
  have hshown : (db.emailContents statusReader ⟨1⟩ ⟨100⟩).map (·.pgpStatus) = some .null := by rfl
  have hshown' : (db'.emailContents statusReader ⟨1⟩ ⟨100⟩).map (·.pgpStatus) =
      some undecryptableJson := by rfl
  have hst := h.stamped [createFreshAccount, .ingest Io.ok firstMessage] _ [] rfl ⟨1⟩ ⟨100⟩
    fun hsame => by
      have hsame' : db'.emailContents statusReader ⟨1⟩ ⟨100⟩ =
        db.emailContents statusReader ⟨1⟩ ⟨100⟩ := hsame
      rw [hsame', hshown] at hshown'
      cases hshown'
  exact absurd hst.1 (by decide)

/-! ## Mailboxes -/

/-- The calls that add, move or re-flag messages. -/
def MailOp.EditsMessages : MailOp → Prop
  | .ingest .. | .updateEmail .. => True
  | _ => False

namespace MailDb

/-- The counters `mailboxes()` reports for a mailbox. -/
def counters (db : MailDb) (m : MailboxId) : ℕ × ℕ := (db.totalEmails m, db.unreadEmails m)

end MailDb

/-- A call that changes the counters of `m` is seen by a client of the account
that held the Mailbox state, with some page size. -/
def MailboxChangeSeen (U : Unicode) (checked : Bool) (db : MailDb) (op : MailOp) (a : AccountId)
    (m : MailboxId) : Prop :=
  (mailStep U db op).counters m ≠ db.counters m → ∃ max page,
    (mailStep U db op).changesSince checked a .mailbox (db.modseq a .mailbox) max = .ok page ∧
      m.uuid ∈ page.ids

/-- Deliveries and edits leave the rows of `mailboxes` as they are. -/
theorem mailboxes_step (U : Unicode) (db : MailDb) {op : MailOp} (hop : op.EditsMessages) :
    (mailStep U db op).mailboxes = db.mailboxes := by
  have heffect : ∀ {op db'}, MailEffect U db op db' → op.EditsMessages →
      db'.mailboxes = db.mailboxes := by
    intro op db' h hop
    cases h with
    | @ingest io g m _ _ _ _ _ _ => exact MailDb.touchThread_mailboxes ..
    | @updateEmail io a e ks ms _ _ _ _ => cases ks <;> cases ms <;> rfl
    | _ => exact hop.elim
  rcases mailStep_spec U db op with heq | heff
  · rw [heq]
  · exact heffect heff hop

/-- **No client hears of new mailbox counts.** In every reachable state, when a
delivery or an edit changes the counters of a mailbox, no page from the Mailbox
state before it names the mailbox. -/
theorem not_mailboxChangeSeen {U : Unicode} {db : MailDb}
    (hdb : Runs.Reachable (mailStep U) MailDb.empty db) (checked : Bool) {op : MailOp}
    (hop : op.EditsMessages) (a : AccountId) {m : MailboxId}
    (hm : (mailStep U db op).counters m ≠ db.counters m) :
    ¬MailboxChangeSeen U checked db op a m := by
  intro hseen
  obtain ⟨max, page, hpage, hmem⟩ := hseen hm
  have h := MailInv.reachable hdb
  have hrows : (mailStep U db op).changedRows a .mailbox (asI64 (db.modseq a .mailbox)) = [] := by
    rw [← MailDb.changedRows_modseq h (a := a) (t := .mailbox)]
    simp only [MailDb.changedRows, MailDb.trackedRows, mailboxes_step U db hop]
  rw [MailDb.changesSince_eq (by decide)] at hpage
  rcases hs : usizeSucc checked max with err | lim
  · rw [hs] at hpage
    cases hpage
  · rw [hs] at hpage
    cases hpage
    simp [MailDb.changesPage, hrows, ChangesResult.ids] at hmem

/-- The first message of an account. -/
theorem not_mailboxChangeSeen_firstMessage :
    (mailStep Unicode.ascii freshAccount (.ingest Io.ok firstMessage)).counters ⟨10⟩ ≠
        freshAccount.counters ⟨10⟩ ∧
      ¬MailboxChangeSeen Unicode.ascii true freshAccount (.ingest Io.ok firstMessage) ⟨1⟩ ⟨10⟩ := by
  have hop : MailOp.EditsMessages (.ingest Io.ok firstMessage) := trivial
  exact ⟨by decide, not_mailboxChangeSeen reachable_freshAccount true hop ⟨1⟩ (by decide)⟩

/-- It raises the count of the Inbox, one of seven mailboxes, which a page of the
default size does not list. -/
theorem not_mailboxChangeListed_firstMessage :
    ∃ db, Runs.Reachable (mailStep Unicode.ascii) MailDb.empty db ∧ db.mailboxes.length ≤ 256 ∧
      (mailStep Unicode.ascii db (.ingest Io.ok firstMessage)).counters ⟨10⟩ ≠ db.counters ⟨10⟩ ∧
      ¬∃ page, (mailStep Unicode.ascii db (.ingest Io.ok firstMessage)).changesSince true ⟨1⟩
        .mailbox (db.modseq ⟨1⟩ .mailbox) 256 = .ok page ∧ (10 : Uuid) ∈ page.ids := by
  refine ⟨freshAccount, reachable_freshAccount, by decide, by decide, ?_⟩
  rintro ⟨page, hpage, hmem⟩
  have hempty : (mailStep Unicode.ascii freshAccount (.ingest Io.ok firstMessage)).changesSince true
      ⟨1⟩ .mailbox (freshAccount.modseq ⟨1⟩ .mailbox) 256 = .ok ⟨[], [], 2, false⟩ := by rfl
  cases hempty.symm.trans hpage
  cases hmem

end Owney
