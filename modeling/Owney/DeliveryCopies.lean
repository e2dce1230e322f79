import Owney.Lib.Runs
import Owney.InboundDelivery

/-!
# Copies of a delivered message

What a delivery leaves in the mailboxes, over any number of tries with the same message.
Each recipient's part either stores nothing or one copy (`ServerCore.deliverTo_cases`), and
the copy stays when a later step fails. So a delivery is exactly once if every recipient
goes through and no two of them are one account, or if it fails at the first recipient with
nothing stored; in every other case an account has two copies, or has one although the
sender was told to try again (`deliveredOnce_iff`).
-/

namespace Owney

open Tables Attempts

/-- The number of messages of an account. -/
def MailDb.copies (db : MailDb) (a : AccountId) : ℤ :=
  (db.emails.filter fun r => r.accountId = a).length

/-- The copies that the effects of a delivery added to an account. -/
def copiesAdded (effects : List (Effect MailDb)) (a : AccountId) : ℤ := total (·.copies a) effects

/-- No effect changed a mailbox. -/
def Untouched (effects : List (Effect MailDb)) : Prop :=
  ∀ e ∈ effects, e.after.emails = e.before.emails ∧ e.after.emailMailbox = e.before.emailMailbox

/-! ## Tries -/

/-- What one try draws from outside. -/
structure DeliveryTry where
  auth : AuthVerdict
  scan : ScanCalls
  recipients : ℕ → RecipientCalls

section Tries

variable {F : Type} (c : ServerCore F) (mail : InboundMail)

/-- The outcome of a try and its effects. -/
def tryDelivery (db : MailDb) (t : DeliveryTry) :
    Except DeliverError (List AccountId) × List (Effect MailDb) :=
  c.deliver t.auth t.scan t.recipients mail db

/-- The mail tables after a try. -/
def tryStep (db : MailDb) (t : DeliveryTry) : MailDb := last db (tryDelivery c mail db t).2

/-- The effects of some tries, in order. -/
def triesEffects : MailDb → List DeliveryTry → List (Effect MailDb)
  | _, [] => []
  | db, t :: ts => (tryDelivery c mail db t).2 ++ triesEffects (tryStep c mail db t) ts

/-- **One try.** If it succeeds, each account it delivered to has received exactly one copy
and no other account any; if it fails, no mailbox has changed. -/
def OnceOrNothing (db : MailDb) (t : DeliveryTry) : Prop :=
  (∀ accounts, (tryDelivery c mail db t).1 = .ok accounts →
    ∀ a, copiesAdded (tryDelivery c mail db t).2 a = if a ∈ accounts then 1 else 0) ∧
  (∀ e, (tryDelivery c mail db t).1 = .error e → Untouched (tryDelivery c mail db t).2)

/-- A try that failed. -/
def Failed (db : MailDb) (t : DeliveryTry) : Prop := ∃ e, (tryDelivery c mail db t).1 = .error e

/-- **Delivered once.** Each try is exactly once or nothing, and any number of failed tries
with a successful one after them leave exactly one copy in each account. -/
def DeliveredOnce (db : MailDb) (tries : List DeliveryTry) : Prop :=
  Runs.Meets (tryStep c mail) (OnceOrNothing c mail) db tries ∧
  ∀ failed t rest accounts, tries = failed ++ t :: rest →
    Runs.Meets (tryStep c mail) (Failed c mail) db failed →
    (tryDelivery c mail (Runs.run (tryStep c mail) db failed) t).1 = .ok accounts →
    ∀ a, copiesAdded (triesEffects c mail db (failed ++ [t])) a = if a ∈ accounts then 1 else 0

end Tries

/-! ## The condition -/

namespace ServerCore

variable {F : Type} (c : ServerCore F) (auth : AuthVerdict) (spam : SpamVerdict F)
  (raw : List UInt8)

/-- The recipient's copy is stored: the lookup finds an account, the PGP pipeline accepts the
message for it, and the ingest succeeds; `status` is the PGP status to record. -/
def Stores (x : RecipientCalls) (recipient : String) (db : MailDb) (account : AccountId)
    (status : Option String) : Prop :=
  ∃ row pgp e effects, c.target x recipient = .ok row ∧ row.id = account ∧
    decrypted x row raw = .ok pgp ∧ pgp.pgpStatus = status ∧
    c.ingestEmail x (c.ingestArgs auth spam x row pgp.raw) db = (.ok e, effects)

/-- Each recipient's copy is stored and its PGP status written, from the `n`-th on; the list
has their accounts. -/
def StoresAll (xs : ℕ → RecipientCalls) : ℕ → List String → MailDb → List AccountId → Prop
  | _, [], _, accounts => accounts = []
  | n, recipient :: recipients, db, accounts =>
    ∃ account status rest, accounts = account :: rest ∧
      c.Stores auth spam raw (xs n) recipient db account status ∧
      (status = none ∨ (xs n).io 4 0) ∧
      StoresAll xs (n + 1) recipients
        (last db (c.deliverTo auth spam raw (xs n) recipient db).2) rest

end ServerCore

section Condition

variable {F : Type} (c : ServerCore F) (mail : InboundMail)

/-- **When a try is exactly once**: the message is rejected as spam; or nothing is stored for
the first recipient, so that the try ends there; or every recipient's copy and PGP status
are written and no two recipients are the same account. -/
def GoesThrough (db : MailDb) (t : DeliveryTry) : Prop :=
  let spam := c.spamVerdict t.scan mail.raw
  let raw := c.stamped t.auth mail.raw
  c.rejects spam ∨
  (∃ recipient rest, mail.recipients = recipient :: rest ∧
    ∀ account status, ¬c.Stores t.auth spam raw (t.recipients 0) recipient db account status) ∨
  ∃ accounts, c.StoresAll t.auth spam raw t.recipients 0 mail.recipients db accounts ∧
    accounts.Nodup

end Condition

/-! ## What the calls add -/

@[simp] theorem copiesAdded_nil (a : AccountId) : copiesAdded [] a = 0 := rfl

@[simp] theorem copiesAdded_append (l l' : List (Effect MailDb)) (a : AccountId) :
    copiesAdded (l ++ l') a = copiesAdded l a + copiesAdded l' a := total_append ..

theorem Untouched.copiesAdded {effects : List (Effect MailDb)} (h : Untouched effects)
    (a : AccountId) : copiesAdded effects a = 0 :=
  total_of_same fun e he => by rw [MailDb.copies, MailDb.copies, (h e he).1]

theorem Untouched.append {l l' : List (Effect MailDb)} (h : Untouched l) (h' : Untouched l') :
    Untouched (l ++ l') := by
  intro e he
  rcases List.mem_append.mp he with he | he
  · exact h e he
  · exact h' e he

namespace MailDb

variable (db : MailDb) (a : AccountId)

/-- An update that keeps the owners of the messages keeps the copies. -/
theorem copies_update {p : EmailsRow → Bool} {f : EmailsRow → EmailsRow}
    (hf : ∀ r, (f r).accountId = r.accountId) :
    ({ db with emails := update p f db.emails } : MailDb).copies a = db.copies a := by
  have hsel : ∀ r, decide ((f r).accountId = a) = decide (r.accountId = a) := by
    intro r
    rw [hf]
  simp only [copies]
  rw [filter_update_of_congr hsel, update, List.length_map]

/-- An ingest adds one message to its account. -/
theorem copies_ingested (g : IngestArgs) (m : MailboxId) :
    (db.ingested g m).copies a = db.copies a + if a = g.accountId then 1 else 0 := by
  have hemails : (db.ingested g m).emails = db.emails ++ [db.newEmail g] := rfl
  have hrow : (db.newEmail g).accountId = g.accountId := rfl
  simp only [copies, hemails, List.filter_append, List.length_append]
  by_cases h : g.accountId = a
  · simp [hrow, h]
  · simp [hrow, h, Ne.symm h]

end MailDb

namespace ServerCore

variable {F : Type} {c : ServerCore F} {x : RecipientCalls} {s : MailDb}
  {effects : List (Effect MailDb)}

section Calls

variable {α : Type} {n : ℕ} {body : Tx MailDb α}

/-- A storage call commits what its body did or changes nothing. -/
theorem storageCall_cases (c : ServerCore F) (x : RecipientCalls) (n : ℕ) (body : Tx MailDb α)
    (s : MailDb) :
    (∃ e, c.storageCall x n body s = (.error e, [⟨x.others n s, x.others n s⟩])) ∨
      ∃ v db', body (x.others n s) = .ok (v, db') ∧
        c.storageCall x n body s = (.ok v, [⟨x.others n s, db'⟩]) := by
  rcases transaction_cases body (x.others n s) with ⟨e, h⟩ | ⟨v, db', hbody, h⟩
  · left
    refine ⟨.temporary (c.storageText e), ?_⟩
    simp [storageCall, Attempt.call, h, temporarily, Except.mapError]
  · right
    refine ⟨v, db', hbody, ?_⟩
    simp [storageCall, Attempt.call, h, temporarily, Except.mapError]

/-- What a storage call that failed did: nothing. -/
theorem storageCall_error {e : DeliverError} (h : c.storageCall x n body s = (.error e, effects)) :
    Untouched effects := by
  rcases c.storageCall_cases x n body s with ⟨_, hcall⟩ | ⟨v, db', _, hcall⟩
  · cases hcall.symm.trans h
    intro e he
    rw [List.mem_singleton.mp he]
    exact ⟨rfl, rfl⟩
  · cases hcall.symm.trans h

/-- What a storage call that succeeded did: its body. -/
theorem storageCall_ok {v : α} (h : c.storageCall x n body s = (.ok v, effects)) :
    ∃ db', body (x.others n s) = .ok (v, db') ∧ effects = [⟨x.others n s, db'⟩] := by
  rcases c.storageCall_cases x n body s with ⟨_, hcall⟩ | ⟨v', db', hbody, hcall⟩
  · cases hcall.symm.trans h
  · cases hcall.symm.trans h
    exact ⟨db', hbody, rfl⟩

theorem exists_storageCall_ok :
    (∃ v l, c.storageCall x n body s = (.ok v, l)) ↔
      ∃ v db', body (x.others n s) = .ok (v, db') := by
  constructor
  · rintro ⟨v, l, h⟩
    obtain ⟨db', hbody, -⟩ := storageCall_ok h
    exact ⟨v, db', hbody⟩
  · rintro ⟨v, db', hbody⟩
    refine ⟨v, [⟨x.others n s, db'⟩], ?_⟩
    simp [storageCall, Attempt.call, transaction, hbody, temporarily, Except.mapError]

/-- A call whose body keeps the mailboxes leaves them untouched, whether it fails or not. -/
theorem storageCall_untouched
    (hbody : ∀ db v db', body db = .ok (v, db') →
      db'.emails = db.emails ∧ db'.emailMailbox = db.emailMailbox) (s : MailDb) :
    Untouched (c.storageCall x n body s).2 := by
  rcases c.storageCall_cases x n body s with ⟨_, h⟩ | ⟨v, db', hok, h⟩ <;> rw [h]
  · intro e he
    rw [List.mem_singleton.mp he]
    exact ⟨rfl, rfl⟩
  · intro e he
    rw [List.mem_singleton.mp he]
    exact hbody _ _ _ hok

/-- A call whose body keeps the copies adds none, whether it fails or not. -/
theorem storageCall_copies
    (hbody : ∀ db v db', body db = .ok (v, db') → ∀ a, db'.copies a = db.copies a) (s : MailDb)
    (a : AccountId) : copiesAdded (c.storageCall x n body s).2 a = 0 := by
  rcases c.storageCall_cases x n body s with ⟨_, h⟩ | ⟨v, db', hok, h⟩ <;> rw [h]
  · simp [copiesAdded]
  · simp [copiesAdded, hbody _ _ _ hok a]

end Calls

/-! ### The calls of one recipient -/

theorem putBlob_untouched (c : ServerCore F) (x : RecipientCalls) (b : BlobId) (size : ℕ)
    (s : MailDb) : Untouched (c.storageCall x 0 (putBlobTx (x.io 0) b size x.now) s).2 := by
  refine storageCall_untouched (fun db v db' h => ?_) s
  rw [putBlobTx, Tx.exec_eq_ok] at h
  rw [← h.2]
  split <;> exact ⟨rfl, rfl⟩

theorem linkContact_untouched (c : ServerCore F) (x : RecipientCalls) (g : IngestArgs)
    (s : MailDb) : Untouched (c.linkContact x g s).2 := by
  rcases hfrom : (parseMeta g.raw.parsed).fromAddr with _ | fromAddr
  · simp only [linkContact, hfrom]
    exact fun e he => absurd he List.not_mem_nil
  · simp only [linkContact, hfrom]
    refine storageCall_untouched (fun db v db' h => ?_) s
    rw [linkContactTx, Tx.exec_eq_ok] at h
    rw [← h.2]
    dsimp only
    split <;> exact ⟨rfl, rfl⟩

/-- The contact is never what fails. -/
theorem linkContact_ok (c : ServerCore F) (x : RecipientCalls) (g : IngestArgs) (s : MailDb) :
    c.linkContact x g s = (.ok ⟨⟩, (c.linkContact x g s).2) := by
  rcases hfrom : (parseMeta g.raw.parsed).fromAddr with _ | fromAddr
  · simp only [linkContact, hfrom]
    rfl
  · simp only [linkContact, hfrom]
    rfl

theorem recordSpamVerdict_ok (c : ServerCore F) (spam : SpamVerdict F) (x : RecipientCalls)
    (e : EmailId) (s : MailDb) :
    c.recordSpamVerdict spam x e s = (.ok ⟨⟩, (c.recordSpamVerdict spam x e s).2) := by
  rcases hjson : c.spamJson spam with _ | json
  · simp only [recordSpamVerdict, hjson]
    rfl
  · simp only [recordSpamVerdict, hjson]
    rfl

theorem recordSpamVerdict_copies (c : ServerCore F) (spam : SpamVerdict F) (x : RecipientCalls)
    (e : EmailId) (s : MailDb) (a : AccountId) :
    copiesAdded (c.recordSpamVerdict spam x e s).2 a = 0 := by
  rcases hjson : c.spamJson spam with _ | json
  · simp only [recordSpamVerdict, hjson]
    rfl
  · simp only [recordSpamVerdict, hjson]
    refine storageCall_copies (fun db v db' h a => ?_) s a
    rw [setSpamVerdictTx, Tx.exec_eq_ok] at h
    rw [← h.2]
    exact db.copies_update a fun _ => rfl

theorem recordPgpStatus_copies (c : ServerCore F) (x : RecipientCalls) (e : EmailId)
    (status : Option String) (s : MailDb) (a : AccountId) :
    copiesAdded (c.recordPgpStatus x e status s).2 a = 0 := by
  cases status with
  | none => rfl
  | some status =>
    refine storageCall_copies (fun db v db' h a => ?_) s a
    rw [setPgpStatusTx, Tx.exec_eq_ok] at h
    rw [← h.2]
    exact db.copies_update a fun _ => rfl

/-- A PGP status that is there must be written. -/
theorem recordPgpStatus_ok (c : ServerCore F) (x : RecipientCalls) (e : EmailId)
    (status : Option String) (s : MailDb) :
    (∃ u l, c.recordPgpStatus x e status s = (.ok u, l)) ↔ status = none ∨ x.io 4 0 := by
  cases status with
  | none => exact iff_of_true ⟨⟨⟩, [], rfl⟩ (.inl rfl)
  | some status =>
    rw [recordPgpStatus, exists_storageCall_ok]
    simp [setPgpStatusTx]

/-- An ingest that fails leaves the mailboxes as they were. -/
theorem ingestEmail_error {g : IngestArgs} {e : DeliverError}
    (h : c.ingestEmail x g s = (.error e, effects)) : Untouched effects := by
  unfold ingestEmail at h
  rcases Attempt.error_bind.mp h with hfile | ⟨_, file, effects₁, hfile, h₁, rfl⟩
  · obtain ⟨-, rfl⟩ := Attempt.ofExcept_eq.mp hfile
    exact fun e he => absurd he List.not_mem_nil
  obtain ⟨-, rfl⟩ := Attempt.ofExcept_eq.mp hfile
  rw [last_nil] at h₁
  rcases Attempt.error_bind.mp h₁ with hput | ⟨_, put, effects₂, hput, h₂, rfl⟩
  · exact storageCall_error hput
  have huntouched : Untouched put := by
    have := c.putBlob_untouched x g.raw.blobId g.raw.size s
    rwa [hput] at this
  rcases Attempt.error_bind.mp h₂ with hingest | ⟨_, _, effects₃, _, h₃, rfl⟩
  · exact huntouched.append (storageCall_error hingest)
  rcases Attempt.error_bind.mp h₃ with hlink | ⟨_, _, _, _, h₄, -⟩
  · cases (c.linkContact_ok x g _).symm.trans hlink
  · exact (Attempt.error_pure.mp h₄).elim

/-- An ingest that succeeds adds one copy to its account. -/
theorem ingestEmail_ok {g : IngestArgs} {e : EmailId}
    (h : c.ingestEmail x g s = (.ok e, effects)) (a : AccountId) :
    copiesAdded effects a = if a = g.accountId then 1 else 0 := by
  unfold ingestEmail at h
  obtain ⟨_, _, _, hfile, h₁, rfl⟩ := Attempt.ok_bind.mp h
  obtain ⟨-, rfl⟩ := Attempt.ofExcept_eq.mp hfile
  obtain ⟨_, put, _, hput, h₂, rfl⟩ := Attempt.ok_bind.mp h₁
  obtain ⟨_, ingest, _, hingest, h₃, rfl⟩ := Attempt.ok_bind.mp h₂
  obtain ⟨_, link, _, hlink, h₄, rfl⟩ := Attempt.ok_bind.mp h₃
  obtain ⟨-, rfl⟩ := Attempt.ok_pure.mp h₄
  rw [last_nil] at hput hingest hlink
  have hput0 : copiesAdded put a = 0 := by
    have := (c.putBlob_untouched x g.raw.blobId g.raw.size s).copiesAdded a
    rwa [hput] at this
  have hlink0 : copiesAdded link a = 0 := by
    have := (c.linkContact_untouched x g (last (last s put) ingest)).copiesAdded a
    rwa [hlink] at this
  obtain ⟨db', hbody, rfl⟩ := storageCall_ok hingest
  have hone : copiesAdded [⟨x.others 1 (last s put), db'⟩] a =
      if a = g.accountId then 1 else 0 := by
    cases ingestTx_ok (U := c.text.unicode) hbody with
    | ingest => simp [copiesAdded, MailDb.copies_ingested]
  simp only [List.nil_append, List.append_nil, copiesAdded_append, hput0, hlink0]
  rw [zero_add, add_zero]
  exact hone

/-! ### One recipient -/

section Recipient

variable (c : ServerCore F) (auth : AuthVerdict) (spam : SpamVerdict F) (raw : List UInt8)
  (x : RecipientCalls) (recipient : String)

/-- What a recipient's part did when its copy was not stored: it failed with every mailbox
as it was. -/
theorem deliverTo_of_not_stores
    (h : ∀ account status, ¬c.Stores auth spam raw x recipient s account status) :
    ∃ e effects, c.deliverTo auth spam raw x recipient s = (.error e, effects) ∧
      Untouched effects := by
  rcases hd : c.deliverTo auth spam raw x recipient s with ⟨e | account, effects⟩
  · refine ⟨e, effects, rfl, ?_⟩
    unfold deliverTo at hd
    rcases Attempt.error_bind.mp hd with htarget | ⟨row, _, rest, htarget, h₁, rfl⟩
    · obtain ⟨-, rfl⟩ := Attempt.ofExcept_eq.mp htarget
      exact fun e he => absurd he List.not_mem_nil
    obtain ⟨hrow, rfl⟩ := Attempt.ofExcept_eq.mp htarget
    rcases Attempt.error_bind.mp h₁ with hpgp | ⟨pgp, _, rest, hpgp, h₂, rfl⟩
    · obtain ⟨-, rfl⟩ := Attempt.ofExcept_eq.mp hpgp
      exact fun e he => absurd he List.not_mem_nil
    obtain ⟨hdec, rfl⟩ := Attempt.ofExcept_eq.mp hpgp
    rw [last_nil, last_nil] at h₂
    rcases Attempt.error_bind.mp h₂ with hingest | ⟨id, _, _, hingest, -, -⟩
    · exact ingestEmail_error hingest
    · exact (h row.id pgp.pgpStatus ⟨row, pgp, id, _, hrow, rfl, hdec, rfl, hingest⟩).elim
  · unfold deliverTo at hd
    obtain ⟨row, _, _, htarget, h₁, rfl⟩ := Attempt.ok_bind.mp hd
    obtain ⟨hrow, rfl⟩ := Attempt.ofExcept_eq.mp htarget
    obtain ⟨pgp, _, _, hpgp, h₂, rfl⟩ := Attempt.ok_bind.mp h₁
    obtain ⟨hdec, rfl⟩ := Attempt.ofExcept_eq.mp hpgp
    obtain ⟨id, _, _, hingest, -, rfl⟩ := Attempt.ok_bind.mp h₂
    exact (h row.id pgp.pgpStatus ⟨row, pgp, id, _, hrow, rfl, hdec, rfl, hingest⟩).elim

/-- What it did when the copy was stored: the account has one copy more, and the part goes
through exactly if the PGP status could be written. -/
theorem deliverTo_of_stores {account : AccountId} {status : Option String}
    (h : c.Stores auth spam raw x recipient s account status) :
    (∀ a, copiesAdded (c.deliverTo auth spam raw x recipient s).2 a = if a = account then 1 else 0) ∧
      ((status = none ∨ x.io 4 0) →
        (c.deliverTo auth spam raw x recipient s).1 = .ok account) ∧
      (¬(status = none ∨ x.io 4 0) →
        ∃ e, (c.deliverTo auth spam raw x recipient s).1 = .error e) := by
  obtain ⟨row, pgp, id, ingest, htarget, rfl, hpgp, rfl, hingest⟩ := h
  have hunfold : c.deliverTo auth spam raw x recipient s =
      ((do
        let emailId ← c.ingestEmail x (c.ingestArgs auth spam x row pgp.raw)
        c.recordSpamVerdict spam x emailId
        c.recordPgpStatus x emailId pgp.pgpStatus
        return row.id : MailAttempt AccountId)) s := by
    unfold deliverTo
    rw [Attempt.bind_of_ok _ (Attempt.ofExcept_eq.mpr ⟨htarget, rfl⟩),
      Attempt.bind_of_ok _ (Attempt.ofExcept_eq.mpr ⟨hpgp, rfl⟩)]
    rfl
  have hspam := c.recordSpamVerdict_ok spam x id (last s ingest)
  rw [hunfold, Attempt.bind_of_ok _ hingest, Attempt.bind_of_ok _ hspam]
  have hone : ∀ a, copiesAdded ingest a = if a = row.id then 1 else 0 := ingestEmail_ok hingest
  have hspam0 := c.recordSpamVerdict_copies spam x id (last s ingest)
  set verdict := (c.recordSpamVerdict spam x id (last s ingest)).2 with hverdict
  have hpgp0 := c.recordPgpStatus_copies x id pgp.pgpStatus (last (last s ingest) verdict)
  have hio := c.recordPgpStatus_ok x id pgp.pgpStatus (last (last s ingest) verdict)
  rcases hwrite : c.recordPgpStatus x id pgp.pgpStatus (last (last s ingest) verdict) with
    ⟨e | u, write⟩
  · rw [Attempt.bind_of_error _ hwrite]
    rw [hwrite] at hpgp0 hio
    refine ⟨fun a => ?_, fun hok => ?_, fun _ => ⟨e, rfl⟩⟩
    · simpa [hspam0, hpgp0] using hone a
    · obtain ⟨_, _, habs⟩ := hio.mpr hok
      cases habs
  · rw [Attempt.bind_of_ok _ hwrite]
    rw [hwrite] at hpgp0 hio
    refine ⟨fun a => ?_, fun _ => rfl, fun hok => (hok (hio.mp ⟨_, _, rfl⟩)).elim⟩
    have hpure : ((pure row.id : MailAttempt AccountId)
        (last (last (last s ingest) verdict) write)).2 = [] := rfl
    simpa [hspam0, hpgp0, hpure] using hone a

end Recipient

/-! ### The loop -/

section Loop

variable (c : ServerCore F) (auth : AuthVerdict) (spam : SpamVerdict F) (raw : List UInt8)
  (xs : ℕ → RecipientCalls)

/-- A recipient's part takes no copy away. -/
theorem copiesAdded_deliverTo_nonneg (x : RecipientCalls) (recipient : String) (s : MailDb)
    (a : AccountId) : 0 ≤ copiesAdded (c.deliverTo auth spam raw x recipient s).2 a := by
  by_cases h : ∃ account status, c.Stores auth spam raw x recipient s account status
  · obtain ⟨account, status, h⟩ := h
    rw [(c.deliverTo_of_stores auth spam raw x recipient h).1 a]
    split <;> decide
  · obtain ⟨e, effects, hd, huntouched⟩ := c.deliverTo_of_not_stores auth spam raw x recipient
      (fun account status hs => h ⟨account, status, hs⟩)
    rw [hd, huntouched.copiesAdded a]

/-- The effects of the loop are those of the first recipient and those of the rest. -/
theorem deliverAll_cons (n : ℕ) (recipient : String) (recipients : List String) (s : MailDb) :
    (∃ e l, c.deliverTo auth spam raw (xs n) recipient s = (.error e, l) ∧
      c.deliverAll auth spam raw xs n (recipient :: recipients) s = (.error e, l)) ∨
    ∃ account l, c.deliverTo auth spam raw (xs n) recipient s = (.ok account, l) ∧
      c.deliverAll auth spam raw xs n (recipient :: recipients) s =
        ((c.deliverAll auth spam raw xs (n + 1) recipients (last s l)).1.map (account :: ·),
          l ++ (c.deliverAll auth spam raw xs (n + 1) recipients (last s l)).2) := by
  rw [deliverAll]
  rcases hd : c.deliverTo auth spam raw (xs n) recipient s with ⟨e | account, l⟩
  · exact .inl ⟨e, l, rfl, Attempt.bind_of_error _ hd⟩
  · refine .inr ⟨account, l, rfl, ?_⟩
    rw [Attempt.bind_of_ok _ hd]
    rcases hrest : c.deliverAll auth spam raw xs (n + 1) recipients (last s l) with ⟨e | rest, l'⟩
    · rw [Attempt.bind_of_error _ hrest]
      rfl
    · rw [Attempt.bind_of_ok _ hrest]
      have hpure : ((pure (account :: rest) : MailAttempt (List AccountId)) (last (last s l) l')) =
          (.ok (account :: rest), []) := rfl
      rw [hpure]
      simp [Except.map]

theorem copiesAdded_deliverAll_nonneg (a : AccountId) :
    ∀ (recipients : List String) (n : ℕ) (s : MailDb),
      0 ≤ copiesAdded (c.deliverAll auth spam raw xs n recipients s).2 a
  | [], _, _ => le_refl _
  | recipient :: recipients, n, s => by
    have hfirst := c.copiesAdded_deliverTo_nonneg auth spam raw (xs n) recipient s a
    rcases c.deliverAll_cons auth spam raw xs n recipient recipients s with
      ⟨e, l, hd, h⟩ | ⟨account, l, hd, h⟩
    · rw [hd] at hfirst
      rwa [h]
    · rw [hd] at hfirst
      rw [h, copiesAdded_append]
      exact Int.add_nonneg hfirst (copiesAdded_deliverAll_nonneg a recipients (n + 1) _)

/-- A loop that succeeds has stored each recipient's copy and status, and each account has a
copy for each recipient that is it. -/
theorem deliverAll_ok :
    ∀ (recipients : List String) {n : ℕ} {s : MailDb} {accounts : List AccountId},
      (c.deliverAll auth spam raw xs n recipients s).1 = .ok accounts →
        c.StoresAll auth spam raw xs n recipients s accounts ∧
          ∀ a, copiesAdded (c.deliverAll auth spam raw xs n recipients s).2 a = accounts.count a
  | [], n, s, accounts, h => by
    obtain rfl : [] = accounts := by simpa using (Attempt.ok_pure.mp (Prod.ext h rfl)).1
    exact ⟨rfl, fun a => rfl⟩
  | recipient :: recipients, n, s, accounts, h => by
    rcases c.deliverAll_cons auth spam raw xs n recipient recipients s with
      ⟨e, l, hd, hall⟩ | ⟨account, l, hd, hall⟩
    · rw [hall] at h
      cases h
    rw [hall] at h ⊢
    rcases hrest : (c.deliverAll auth spam raw xs (n + 1) recipients (last s l)).1 with e | rest
    · rw [hrest] at h
      cases h
    rw [hrest] at h
    obtain rfl : account :: rest = accounts := by simpa [Except.map] using h
    obtain ⟨hstores, hcount⟩ := deliverAll_ok recipients hrest
    -- the first recipient went through, so its copy was stored and its status written
    by_cases hs : ∃ account' status, c.Stores auth spam raw (xs n) recipient s account' status
    · obtain ⟨account', status, hs⟩ := hs
      obtain ⟨hone, hgo, hstop⟩ := c.deliverTo_of_stores auth spam raw (xs n) recipient hs
      by_cases hio : status = none ∨ (xs n).io 4 0
      · have hsame : account' = account := by
          have := hgo hio
          rw [hd] at this
          simpa using this.symm
        subst hsame
        rw [hd] at hone
        refine ⟨⟨account', status, rest, rfl, hs, hio, by rwa [hd]⟩, fun a => ?_⟩
        rw [copiesAdded_append, hone, hcount, List.count_cons]
        by_cases ha : account' = a
        · simp [ha, add_comm]
        · simp [ha, Ne.symm ha]
      · obtain ⟨e, habs⟩ := hstop hio
        rw [hd] at habs
        cases habs
    · obtain ⟨e, effects, habs, -⟩ := c.deliverTo_of_not_stores auth spam raw (xs n) recipient
        (fun account status hs' => hs ⟨account, status, hs'⟩)
      cases hd.symm.trans habs

/-- If every copy and status can be stored, the loop succeeds. -/
theorem deliverAll_of_storesAll :
    ∀ (recipients : List String) {n : ℕ} {s : MailDb} {accounts : List AccountId},
      c.StoresAll auth spam raw xs n recipients s accounts →
        (c.deliverAll auth spam raw xs n recipients s).1 = .ok accounts
  | [], n, s, accounts, h => by
    obtain rfl : accounts = [] := h
    rfl
  | recipient :: recipients, n, s, accounts, h => by
    obtain ⟨account, status, rest, rfl, hs, hio, hrest⟩ := h
    have hgo := (c.deliverTo_of_stores auth spam raw (xs n) recipient hs).2.1 hio
    rcases c.deliverAll_cons auth spam raw xs n recipient recipients s with
      ⟨e, l, hd, -⟩ | ⟨account', l, hd, hall⟩
    · rw [hd] at hgo
      cases hgo
    · rw [hd] at hgo hrest
      cases hgo
      rw [hall, deliverAll_of_storesAll recipients hrest]
      rfl

/-- Once the first copy is stored, its account has one whatever happens then. -/
theorem one_le_copiesAdded_of_stores {n : ℕ} {recipient : String} {account : AccountId}
    {status : Option String} (recipients : List String)
    (h : c.Stores auth spam raw (xs n) recipient s account status) :
    1 ≤ copiesAdded (c.deliverAll auth spam raw xs n (recipient :: recipients) s).2 account := by
  have hone := (c.deliverTo_of_stores auth spam raw (xs n) recipient h).1 account
  rw [if_pos rfl] at hone
  rcases c.deliverAll_cons auth spam raw xs n recipient recipients s with
    ⟨e, l, hd, hall⟩ | ⟨account', l, hd, hall⟩
  · rw [hd] at hone
    rw [hall, hone]
  · rw [hd] at hone
    have hrest := c.copiesAdded_deliverAll_nonneg auth spam raw xs account recipients (n + 1) (last s l)
    rw [hall, copiesAdded_append, hone]
    omega

end Loop

end ServerCore

/-! ## One try -/

section OneTry

variable {F : Type} (c : ServerCore F) (mail : InboundMail)

/-- **One try is exactly once or nothing if and only if it goes through or stops at once.** -/
theorem onceOrNothing_iff (db : MailDb) (t : DeliveryTry) :
    OnceOrNothing c mail db t ↔ GoesThrough c mail db t := by
  unfold OnceOrNothing GoesThrough tryDelivery ServerCore.deliver
  dsimp only
  by_cases hreject : c.rejects (c.spamVerdict t.scan mail.raw)
  · rw [if_pos hreject]
    refine iff_of_true ⟨fun accounts h => ?_, fun e _ e' he' => ?_⟩ (.inl hreject)
    · cases h
    · exact absurd he' List.not_mem_nil
  rw [if_neg hreject]
  set spam := c.spamVerdict t.scan mail.raw
  set raw := c.stamped t.auth mail.raw
  simp only [hreject, Bool.false_eq_true, false_or]
  rcases hall : c.deliverAll t.auth spam raw t.recipients 0 mail.recipients db with
    ⟨e | accounts, effects⟩
  · -- the try failed: what counts is whether the first copy was stored
    constructor
    · rintro ⟨-, herr⟩
      left
      rcases hrec : mail.recipients with _ | ⟨recipient, rest⟩
      · rw [hrec] at hall
        cases hall
      · refine ⟨recipient, rest, rfl, fun account status hs => ?_⟩
        have hone := c.one_le_copiesAdded_of_stores t.auth spam raw t.recipients rest hs
        rw [← hrec, hall, (herr e rfl).copiesAdded] at hone
        exact absurd hone (by decide)
    · intro h
      refine ⟨fun accounts h' => (by cases h'), fun _ _ => ?_⟩
      rcases h with ⟨recipient, rest, hrec, hs⟩ | ⟨accounts, hs, -⟩
      · obtain ⟨_, _, hd, huntouched⟩ :=
          c.deliverTo_of_not_stores t.auth spam raw (t.recipients 0) recipient hs
        rcases c.deliverAll_cons t.auth spam raw t.recipients 0 recipient rest db with
          ⟨_, l, hd', hall'⟩ | ⟨_, _, hd', -⟩
        · cases hd.symm.trans hd'
          rw [hrec, hall'] at hall
          cases hall
          exact huntouched
        · cases hd.symm.trans hd'
      · have hok := c.deliverAll_of_storesAll t.auth spam raw t.recipients _ hs
        rw [hall] at hok
        cases hok
  · -- the try succeeded: every copy was stored, so what counts is whose they are
    obtain ⟨hstored, hcount⟩ :=
      c.deliverAll_ok t.auth spam raw t.recipients mail.recipients (congrArg Prod.fst hall)
    rw [hall] at hcount
    constructor
    · rintro ⟨hok, -⟩
      refine .inr ⟨accounts, hstored, List.nodup_iff_count_eq_one.mpr fun a ha => ?_⟩
      have h := hcount a
      rw [hok accounts rfl a, if_pos ha] at h
      exact_mod_cast h.symm
    · intro h
      refine ⟨fun accounts' h' a => ?_, fun e h' => (by cases h')⟩
      cases h'
      rcases h with ⟨recipient, rest, hrec, hs⟩ | ⟨accounts', hs, hnodup⟩
      · rw [hrec] at hstored
        obtain ⟨account, status, _, -, hstores, -⟩ := hstored
        exact absurd hstores (hs account status)
      · have hok := c.deliverAll_of_storesAll t.auth spam raw t.recipients _ hs
        rw [hall] at hok
        cases hok
        rw [hcount a, List.Nodup.count hnodup]
        split <;> rfl

end OneTry

/-! ## Any number of tries -/

section Runs

variable {F : Type} (c : ServerCore F) (mail : InboundMail)

theorem triesEffects_append (db : MailDb) (ts ts' : List DeliveryTry) :
    triesEffects c mail db (ts ++ ts') =
      triesEffects c mail db ts ++ triesEffects c mail (Runs.run (tryStep c mail) db ts) ts' := by
  induction ts generalizing db with
  | nil => rfl
  | cons t ts ih => simp [triesEffects, ih]

/-- Failed tries that are nothing leave every mailbox as it was. -/
theorem untouched_triesEffects {ts : List DeliveryTry} {db : MailDb}
    (hfailed : Runs.Meets (tryStep c mail) (Failed c mail) db ts)
    (honce : Runs.Meets (tryStep c mail) (OnceOrNothing c mail) db ts) :
    Untouched (triesEffects c mail db ts) := by
  induction ts generalizing db with
  | nil => exact fun e he => absurd he List.not_mem_nil
  | cons t ts ih =>
    obtain ⟨⟨e, he⟩, hfailed⟩ := hfailed
    exact (honce.1.2 e he).append (ih hfailed honce.2)

/-- **Exactly once, exactly when.** A delivery with any number of tries is exactly once, in
each try and over all of them, if and only if every try goes through or stops with nothing
stored: a second recipient that is the same account gets it a second copy, and an error
after the first copy was stored leaves that copy behind, for the next try to double. -/
theorem deliveredOnce_iff (db : MailDb) (tries : List DeliveryTry) :
    DeliveredOnce c mail db tries ↔
      Runs.Meets (tryStep c mail) (GoesThrough c mail) db tries := by
  have hiff : Runs.Meets (tryStep c mail) (OnceOrNothing c mail) db tries ↔
      Runs.Meets (tryStep c mail) (GoesThrough c mail) db tries :=
    Runs.meets_congr (I := fun _ => True) (fun _ _ _ => trivial)
      (fun db t _ => onceOrNothing_iff c mail db t) trivial
  rw [← hiff]
  refine ⟨And.left, fun h => ⟨h, ?_⟩⟩
  rintro failed t rest accounts rfl hfailed hok a
  obtain ⟨honce, hlast⟩ := Runs.Meets.append.mp h
  rw [triesEffects_append, copiesAdded_append,
    (untouched_triesEffects c mail hfailed honce).copiesAdded a, zero_add]
  simpa [triesEffects] using hlast.1.1 accounts hok a

end Runs

/-! ## A message with two recipients -/

/-- The account `anna@example.org`. -/
def annaAccount : AccountId := ⟨1⟩

/-- The mail tables after its creation. -/
def annaDb : MailDb :=
  MailDb.empty.createdAccount .ascii "anna@example.org" none annaAccount
    (fun i => ⟨BitVec.ofNat 128 (i + 1)⟩) 0

/-- A delivery where nothing fails, and where `sales@example.org` is an alias if it is live. -/
def annaTry (live : Bool) : DeliveryTry where
  auth := ⟨none, id⟩
  scan := ⟨[], ⟨9⟩, none, ⟨id, List.Perm.refl⟩, true, fun _ => true⟩
  recipients n :=
    { lookup :=
        { directory :=
            { accounts := annaDb.accounts
              disabled := []
              aliases := [⟨annaAccount, "sales@example.org", none, live⟩] }
          now := 0
          accountsAnswered := true
          aliasesAnswered := true }
      pgp := fun _ raw => .ok ⟨raw, none⟩
      chatPreference := .ok .respectSender
      blobStored := true
      others := fun _ db => db
      io := fun _ => Io.ok
      emailId := ⟨BitVec.ofNat 128 (n + 1)⟩
      threadId := ⟨BitVec.ofNat 128 (n + 1)⟩
      contactId := ⟨BitVec.ofNat 128 (n + 1)⟩
      now := 0 }

/-- A message to the account and its alias. -/
def annaMessage : InboundMail := ⟨"", ["anna@example.org", "sales@example.org"], []⟩

/-- The alias gets the account a second copy; and once it has been switched off between
`RCPT` and the delivery, the first copy stays although the delivery fails. -/
theorem not_deliveredOnce_sample :
    ¬DeliveredOnce (sampleCore false) annaMessage annaDb [annaTry true] ∧
      ¬DeliveredOnce (sampleCore false) annaMessage annaDb [annaTry false] := by
  constructor
  · intro h
    have hok : (tryDelivery (sampleCore false) annaMessage annaDb (annaTry true)).1 =
        .ok [annaAccount, annaAccount] := by decide +kernel
    have htwo : copiesAdded (tryDelivery (sampleCore false) annaMessage annaDb (annaTry true)).2
        annaAccount = 2 := by decide +kernel
    have hone := h.1.1.1 _ hok annaAccount
    rw [htwo] at hone
    exact absurd hone (by decide)
  · intro h
    have herr : (tryDelivery (sampleCore false) annaMessage annaDb (annaTry false)).1 =
        .error (.temporary "sales@example.org vanished after RCPT") := by decide +kernel
    have hone : copiesAdded (tryDelivery (sampleCore false) annaMessage annaDb (annaTry false)).2
        annaAccount = 1 := by decide +kernel
    have hnone := (h.1.1.2 _ herr).copiesAdded annaAccount
    rw [hone] at hnone
    exact absurd hnone (by decide)

end Owney
