import Owney.EmailQueryAnswers
import Owney.EmailUpdate
import Owney.GetPartition
import Owney.SchedulingMethods
import Owney.SenderAuthority
import Owney.SmtpSession
import Owney.Threading

/-!
# Emails that `Email/set` creates

A create object is composed to a message, which is ingested into the first mailbox that the object
names; the keywords are a call of their own on the row that is there by then
(`owney-jmap-mail/src/lib.rs`).

* `composeFromJmap`, `applyCreate`, `emailSetCreate` — the functions of the source.
* `applyCreate_cases` — what one entry does: nothing, an email with its keywords, or an email
  whose keywords were refused.
* `createLaw_iff` — a request is exact and atomic exactly if each entry that is ingested names one
  mailbox, lists no keyword that is not set, and its keywords go through.
-/

namespace Owney

open Tables Headers
open Jmap (Value Members MethodError)

/-! ## The message -/

namespace Jmap.Value

/-- `Value::get`, of a key. -/
def member (value : Value) (key : String) : Option Value := value.asObject.bind (·.get key)

/-- `as_array`. -/
def asArray : Value → Option (List Value)
  | .array items => some items
  | _ => none

/-- `as_bool`. -/
def asBool : Value → Option Bool
  | .bool b => some b
  | _ => none

/-- The members of a member that is an object. -/
def inner (value : Value) (key : String) : Option Members := (value.member key).bind asObject

end Jmap.Value

/-- One entry of `address_list`. -/
def addressEntry (entry : Value) : Option String :=
  ((entry.member "email").bind Value.asStr).map fun email =>
    let bare := "<" ++ (email ++ ">")
    match (entry.member "name").bind Value.asStr with
    | some name => if name = "" then bare else name ++ (" " ++ bare)
    | none => bare

/-- `address_list`. -/
def addressList (value : Option Value) : List String :=
  ((value.bind Value.asArray).getD []).filterMap addressEntry

/-- The `From` of a composed message. -/
def composedFrom (account : AccountsRow) (object : Value) : String :=
  let provided := addressList (object.member "from")
  if provided = [] then
    match account.displayName with
    | some name => name ++ (" <" ++ (account.email ++ ">"))
    | none => "<" ++ (account.email ++ ">")
  else joinWith ", " provided

/-- The text of the first part of `textBody`. -/
def composedBody (object : Value) : String :=
  let text := do
    let parts ← (object.member "textBody").bind Value.asArray
    let partId ← (← (← parts.head?).member "partId").asStr
    (← (← (← object.member "bodyValues").member partId).member "value").asStr
  withCrlf (text.getD "")

/-- `compose_from_jmap`, at a time and with a fresh id. -/
def composeFromJmap (account : AccountsRow) (object : Value) (now : ℤ) (id : Uuid) :
    List UInt8 :=
  let recipients := addressList (object.member "to")
  let copies := addressList (object.member "cc")
  let subject := ((object.member "subject").bind Value.asStr).getD ""
  let domain := ((rsplitOnce '@' account.email).map (·.2)).getD "local"
  Utf8.encode (unlines ([("From: " ++ composedFrom account object).toList,
    ("Subject: " ++ subject).toList, ("Date: " ++ Smtp.rfc2822Utc now).toList,
    ("Message-ID: <" ++ (id.toString ++ ("@" ++ (domain ++ ">")))).toList,
    "MIME-Version: 1.0".toList, "Content-Type: text/plain; charset=utf-8".toList] ++
    (if recipients = [] then [] else [("To: " ++ joinWith ", " recipients).toList]) ++
    (if copies = [] then [] else [("Cc: " ++ joinWith ", " copies).toList]) ++ [[]]) ++
    (composedBody object).toList)

/-! ## One object -/

/-- What the outside decides while an object is created. -/
structure CreateCalls where
  composedAt : ℤ
  messageId : Uuid
  emailId : EmailId
  threadId : ThreadId
  contactId : ContactId
  now : ℤ
  putIo : Io
  io : Io
  linkIo : Io
  keywordsIo : Io

/-- The ids of what was created. -/
abbrev ServerIds : Type := EmailId × ThreadId × BlobId

section Creating

variable (U : Unicode) (rawMessage : List UInt8 → RawMessage) (account : AccountsRow)

/-- The mailbox that the object goes to: the first key of `mailboxIds`. -/
def firstMailbox (object : Value) : Except String MailboxId :=
  match (((object.inner "mailboxIds").map Members.keys).getD []).head? with
  | none => .error "mailboxIds is required"
  | some first =>
    match MailboxId.parse first with
    | none => .error "bad mailbox id"
    | some mailbox => .ok mailbox

/-- The ingest of a composed object. -/
def CreateCalls.ingest (c : CreateCalls) (object : Value) (mailbox : MailboxId) : IngestCall where
  args :=
    { accountId := account.id
      raw := rawMessage (composeFromJmap account object c.composedAt c.messageId)
      target := .id mailbox
      authResults := none
      chatMode := ((object.member "chatMode").bind Value.asBool).getD false
      emailId := c.emailId
      threadId := c.threadId
      now := c.now }
  putIo := c.putIo
  io := c.io
  linkIo := c.linkIo
  contactId := c.contactId

/-- The keywords of the new row. -/
def applyKeywords (c : CreateCalls) (ids : ServerIds) (db : MailDb) :
    Option Members → Except UpdateError ServerIds × MailDb
  | none => (.ok ids, db)
  | some keywords =>
    match transaction (updateEmailTx U c.keywordsIo account.id ids.1 (some keywords.keys) none)
      db with
    | (.error e, db') => (.error (.storage e), db')
    | (.ok _, db') => (.ok ids, db')

/-- `apply_create`. -/
def applyCreate (c : CreateCalls) (object : Value) (db : MailDb) :
    Except UpdateError ServerIds × MailDb :=
  match firstMailbox object with
  | .error msg => (.error (.text msg), db)
  | .ok mailbox =>
    match (c.ingest rawMessage account object mailbox).run U db with
    | (.error e, db') => (.error (.storage e), db')
    | (.ok ids, db') => applyKeywords U account c ids db' (object.inner "keywords")

/-! ## The method -/

/-- The loop over the create map. -/
def createAll (calls : String → CreateCalls) (db : MailDb) :
    Members → List (String × Except UpdateError ServerIds) × MailDb
  | [] => ([], db)
  | (clientId, object) :: rest =>
    let (result, db') := applyCreate U rawMessage account (calls clientId) object db
    let (results, db'') := createAll calls db' rest
    ((clientId, result) :: results, db'')

/-- The answer of `Email/set`, with its maps as lists of their entries. -/
structure CreateAnswer where
  accountId : String
  oldState : ModSeq
  newState : ModSeq
  created : List (String × ServerIds)
  notCreated : List (String × UpdateError)

/-- The entries that were created. -/
def createdOf (results : List (String × Except UpdateError ServerIds)) :
    List (String × ServerIds) :=
  results.filterMap fun r => r.2.toOption.map (r.1, ·)

/-- The entries that were not. -/
def notCreatedOf (results : List (String × Except UpdateError ServerIds)) :
    List (String × UpdateError) :=
  results.filterMap fun r => match r.2 with
    | .error e => some (r.1, e)
    | .ok _ => none

/-- What `Email/set` meets outside its entries: whether the states can be read, and the texts of
storage errors. -/
structure StateReads where
  before : Bool
  after : Bool
  text : StorageError → String

/-- A request of `Email/set` that only creates. -/
structure CreateRequest where
  accountId : String
  create : PatchObject

/-- `email_set`, of a request without `update`. -/
def emailSetCreate (reads : StateReads) (calls : String → CreateCalls) (req : CreateRequest)
    (db : MailDb) : Except MethodError CreateAnswer × MailDb :=
  match Jmap.checkSession account.id req.accountId with
  | .error e => (.error e, db)
  | .ok () =>
    if reads.before then
      let (results, db') := createAll U rawMessage account calls db req.create.members
      if reads.after then
        (.ok {
          accountId := req.accountId
          oldState := db.modseq account.id .email
          newState := db'.modseq account.id .email
          created := createdOf results
          notCreated := notCreatedOf results }, db')
      else (.error (.serverFail (reads.text .sqlite)), db')
    else (.error (.serverFail (reads.text .sqlite)), db)

/-! ## What is meant -/

/-- An entry of the create map, with the tables it finds. -/
structure CreateStep where
  clientId : String
  object : Value
  before : MailDb

/-- The entries, each with the tables it finds. -/
def createSteps (calls : String → CreateCalls) (db : MailDb) : Members → List CreateStep
  | [] => []
  | (clientId, object) :: rest => ⟨clientId, object, db⟩ ::
    createSteps calls (applyCreate U rawMessage account (calls clientId) object db).2 rest

/-- The tables an entry leaves. -/
def CreateStep.after (s : CreateStep) (calls : String → CreateCalls) : MailDb :=
  (applyCreate U rawMessage account (calls s.clientId) s.object s.before).2

/-- No new email, thread or membership. -/
structure LeftNothing (db db' : MailDb) : Prop where
  emails : db'.emails.map (·.id) = db.emails.map (·.id)
  threads : db'.threads.map (·.id) = db.threads.map (·.id)
  memberships : db'.emailMailbox = db.emailMailbox

/-- The mailboxes whose member is `true`. -/
def NamesMailbox (object : Value) (mailbox : MailboxId) : Prop :=
  ∃ inner, object.inner "mailboxIds" = some inner ∧
    ∃ m ∈ inner, Sets m.2 true ∧ MailboxId.parse m.1 = some mailbox

/-- The keywords whose member is `true`, in lower case. -/
def NamesKeyword (object : Value) (k : String) : Prop :=
  ∃ inner, object.inner "keywords" = some inner ∧
    ∃ m ∈ inner, Sets m.2 true ∧ U.toLowercase m.1 = k

/-- The email has the mailboxes and the keywords that the object names. -/
structure AsNamed (object : Value) (e : EmailId) (db : MailDb) : Prop where
  mailboxes : ∀ m, m ∈ db.mailboxIdsOf e ↔ NamesMailbox object m
  keywords : ∀ k, k ∈ db.keywordsOf e ↔ NamesKeyword U object k

/-- **What is meant.** A request that is refused as a whole leaves nothing; otherwise each entry is
not created and left nothing, or is created as it is named. -/
structure CreateLaw (reads : StateReads) (calls : String → CreateCalls) (req : CreateRequest)
    (db : MailDb) : Prop where
  refused : ∀ e, (emailSetCreate U rawMessage account reads calls req db).1 = .error e →
    LeftNothing db (emailSetCreate U rawMessage account reads calls req db).2
  answered : ∀ answer, (emailSetCreate U rawMessage account reads calls req db).1 = .ok answer →
    ∀ s ∈ createSteps U rawMessage account calls db req.create.members,
      (∃ e, (s.clientId, e) ∈ answer.notCreated ∧
        LeftNothing s.before (s.after U rawMessage account calls)) ∨
      ∃ ids, (s.clientId, ids) ∈ answer.created ∧
        AsNamed U s.object ids.1 (emailSetCreate U rawMessage account reads calls req db).2

/-! ## When it holds -/

/-- The entry is ingested into the mailbox. -/
structure Ingests (calls : String → CreateCalls) (s : CreateStep) (mailbox : MailboxId) :
    Prop where
  first : firstMailbox s.object = .ok mailbox
  owned : s.before.ownsMailbox account.id mailbox
  room : ∀ t ≠ DataType.emailSubmission, s.before.modseq account.id t < i64Max
  thread : s.before.joinedThread ((calls s.clientId).ingest rawMessage account s.object
    mailbox).args = none → (calls s.clientId).threadId ∉ s.before.threads.map (·.id)
  email : (calls s.clientId).emailId ∉ s.before.emails.map (·.id)
  putIo : (calls s.clientId).putIo 0
  io : ∀ n < 10, (calls s.clientId).io n

/-- The keywords of the entry can be stored: no statement fails, and the counters have room for
one step more. -/
structure KeywordsStored (calls : String → CreateCalls) (s : CreateStep) : Prop where
  io : ∀ n ∈ [0, 1, 4, 5, 6, 7], (calls s.clientId).keywordsIo n
  emails : s.before.modseq account.id .email + 1 < i64Max
  mailboxes : s.before.modseq account.id .mailbox + 1 < i64Max

/-- The entry is created as it is named: it names the one mailbox it goes to, and each keyword it
lists is set in one spelling; and the keywords can be stored. -/
structure EntryFits (calls : String → CreateCalls) (s : CreateStep) (mailbox : MailboxId) :
    Prop where
  mailboxes : ∀ m, NamesMailbox s.object m ↔ m = mailbox
  keywords : ∀ inner, s.object.inner "keywords" = some inner → ∀ m ∈ inner, ¬Sets m.2 true →
    NamesKeyword U s.object (U.toLowercase m.1)
  stored : (s.object.inner "keywords").isSome → KeywordsStored account calls s

/-- The request is for this account and its entries fit as far as they are ingested; if the state
cannot be read again, none is. -/
def AllFit (reads : StateReads) (calls : String → CreateCalls) (req : CreateRequest)
    (db : MailDb) : Prop :=
  req.accountId = account.id.uuid.toString → reads.before →
    ∀ s ∈ createSteps U rawMessage account calls db req.create.members, ∀ mailbox,
      Ingests rawMessage account calls s mailbox →
        reads.after ∧ EntryFits U account calls s mailbox

/-! ## The ingest -/

section Ingest

variable {U} {rawMessage} {account} {db db' : MailDb} {calls : String → CreateCalls}
  {s : CreateStep} {mailbox : MailboxId}

/-- The ingest transaction goes through if its guards hold and no statement fails. -/
theorem ingestTx_of_guards {io : Io} {g : IngestArgs} {m : MailboxId}
    (hm : db.targetMailbox g.accountId g.target = some m)
    (hroom : ∀ t ≠ DataType.emailSubmission, db.modseq g.accountId t < i64Max)
    (hthread : db.joinedThread g = none → g.threadId ∉ db.threads.map (·.id))
    (hfresh : g.emailId ∉ db.emails.map (·.id)) (hio : ∀ n < 10, io n) :
    ∃ r, ingestTx io g db = .ok (r, db.ingested g m) := by
  have hroom₂ : (db.bumped g.accountId .email).modseq g.accountId .thread < i64Max := by
    rw [MailDb.modseq_bumped_of_ne _ (by decide)]
    exact hroom .thread (by decide)
  have hroom₃ : ((db.bumped g.accountId .email).bumped g.accountId .thread).modseq g.accountId
      .mailbox < i64Max := by
    rw [MailDb.modseq_bumped_of_ne _ (by decide), MailDb.modseq_bumped_of_ne _ (by decide)]
    exact hroom .mailbox (by decide)
  have hok : ∃ r db', ingestTx io g db = .ok (r, db') := by
    simp only [ingestTx, Tx.bind_eq_ok, Tx.query_eq_ok, Tx.require_eq_ok, bump_eq_ok,
      Tx.exec_eq_ok, Tx.pure_eq_ok, Tx.okOr_eq_ok]
    refine ⟨_, _, _, _, ⟨hio 0 (by decide), rfl, rfl⟩, m, _, ⟨hm, rfl⟩, _, _,
      ⟨hio 1 (by decide), rfl, rfl⟩, _, _, ⟨hio 2 (by decide), hroom .email (by decide), rfl, rfl⟩,
      _, _, ⟨hio 3 (by decide), hroom₂, rfl, rfl⟩, _, _, ⟨hio 4 (by decide), hroom₃, rfl, rfl⟩, _, _,
      ⟨hio 5 (by decide), rfl, rfl⟩, ⟨⟩, _, ⟨hthread, rfl⟩, ⟨⟩, _, ⟨hio 5 (by decide), rfl⟩, ⟨⟩, _,
      ⟨hfresh, rfl⟩, ⟨⟩, _, ⟨hio 6 (by decide), rfl⟩, ⟨⟩, _, ⟨hio 7 (by decide), rfl⟩, ⟨⟩, _,
      ⟨hio 8 (by decide), rfl⟩, ⟨⟩, _, ⟨hio 9 (by decide), rfl⟩, rfl, rfl⟩
  obtain ⟨r, db', hok⟩ := hok
  cases ingestTx_ok (U := .ascii) hok with
  | ingest hmb =>
    cases hm.symm.trans hmb
    exact ⟨r, hok⟩

theorem targetMailbox_id {a : AccountId} :
    db.targetMailbox a (.id mailbox) = some mailbox ↔ db.ownsMailbox a mailbox := by
  rw [MailDb.targetMailbox, MailDb.ownsMailbox, List.any_eq_true]
  constructor
  · intro h
    obtain ⟨r, hr, -⟩ := Option.map_eq_some_iff.mp h
    have hfound := List.find?_some hr
    exact ⟨r, List.mem_of_find?_eq_some hr, hfound⟩
  · rintro ⟨r, hr, hid⟩
    obtain ⟨r', hr'⟩ := Option.isSome_iff_exists.mp
      (List.find?_isSome (p := fun r => decide (r.accountId = a ∧ r.id = mailbox)) |>.mpr
        ⟨r, hr, hid⟩)
    have hfound := List.find?_some hr'
    rw [hr', Option.map_some, (of_decide_eq_true hfound).2]

theorem targetMailbox_id_eq {a : AccountId} {m : MailboxId}
    (h : db.targetMailbox a (.id mailbox) = some m) : m = mailbox := by
  obtain ⟨r, hr, rfl⟩ := Option.map_eq_some_iff.mp h
  have hfound := List.find?_some hr
  exact (of_decide_eq_true hfound).2

/-- What an ingest into a mailbox adds, as far as it is said of creations. -/
structure AfterIngest (a : AccountId) (e : EmailId) (mailbox : MailboxId) (db db' : MailDb) :
    Prop where
  emails : db'.emails.map (·.id) = db.emails.map (·.id) ++ [e]
  owned : db'.ownsEmail a e
  memberships : db'.emailMailbox = db.emailMailbox ++ [⟨e, mailbox⟩]
  keywords : db'.emailKeyword = db.emailKeyword
  modseq : ∀ t ≠ DataType.emailSubmission, db'.modseq a t = db.modseq a t + 1

theorem afterIngest_ingested (g : IngestArgs) (db : MailDb) :
    AfterIngest g.accountId g.emailId mailbox db (db.ingested g mailbox) where
  emails := List.map_append
  owned := List.any_eq_true.mpr ⟨db.newEmail g, List.mem_append_right _ (List.mem_singleton_self _),
    decide_eq_true ⟨rfl, rfl⟩⟩
  memberships := rfl
  keywords := MailDb.touchThread_emailKeyword ..
  modseq t ht := by rw [MailDb.modseq_ingested, MailDb.modseq_bumpedForIngest _ _ ht]

/-- The contact that is linked is not said of creations. -/
theorem AfterIngest.link {a : AccountId} {e : EmailId} (h : AfterIngest a e mailbox db db')
    (c : IngestCall) : AfterIngest a e mailbox db (c.link U db') := by
  have hlink : ∃ contacts, c.link U db' = { db' with contacts := contacts } := by
    unfold IngestCall.link
    split
    · exact ⟨db'.contacts, rfl⟩
    · rename_i fromAddr _
      by_cases hio : c.linkIo 0 = true
      · simp only [transaction, linkContactTx, Tx.exec, hio, ite_true]
        split
        · exact ⟨db'.contacts, rfl⟩
        · exact ⟨_, rfl⟩
      · simp only [transaction, linkContactTx, Tx.exec, hio, Bool.false_eq_true, ite_false]
        exact ⟨db'.contacts, rfl⟩
  obtain ⟨contacts, hlink⟩ := hlink
  rw [hlink]
  exact ⟨h.emails, h.owned, h.memberships, h.keywords, h.modseq⟩

variable (rawMessage account) in
/-- The ingest of an entry. -/
abbrev CreateStep.ingest (s : CreateStep) (calls : String → CreateCalls) (mailbox : MailboxId) :
    IngestCall := (calls s.clientId).ingest rawMessage account s.object mailbox

/-- An entry that is ingested. -/
theorem run_of_ingests (h : Ingests rawMessage account calls s mailbox) :
    ∃ ids db', (s.ingest rawMessage account calls mailbox).run U s.before = (.ok ids, db') ∧
      ids.1 = (calls s.clientId).emailId ∧
      AfterIngest account.id (calls s.clientId).emailId mailbox s.before db' := by
  let c := s.ingest rawMessage account calls mailbox
  obtain ⟨db₁, hput⟩ : ∃ db₁, c.put s.before = .ok (⟨⟩, db₁) := by
    refine ⟨_, Tx.exec_eq_ok.mpr ⟨h.putIo, rfl⟩⟩
  obtain ⟨hsame, hmailboxes⟩ := put_ok hput
  have htarget : db₁.targetMailbox account.id (.id mailbox) = some mailbox := by
    rw [targetMailbox_id, MailDb.ownsMailbox, hmailboxes]
    exact h.owned
  have hjoined : db₁.joinedThread c.args = s.before.joinedThread c.args := by
    unfold MailDb.joinedThread resolveThread
    rw [hsame.emails]
  obtain ⟨r, hr⟩ : ∃ r, ingestTx c.io c.args db₁ = .ok (r, db₁.ingested c.args mailbox) :=
    ingestTx_of_guards htarget (fun t ht => by rw [hsame.modseq]; exact h.room t ht)
      (by rw [hjoined, hsame.threads]; exact h.thread) (by rw [hsame.emails]; exact h.email) h.io
  have hafter : AfterIngest account.id (calls s.clientId).emailId mailbox s.before
      (db₁.ingested c.args mailbox) := by
    have hone : AfterIngest account.id (calls s.clientId).emailId mailbox db₁
        (db₁.ingested c.args mailbox) := afterIngest_ingested c.args db₁
    exact ⟨by rw [← hsame.emails]; exact hone.emails, hone.owned,
      by rw [← hsame.emailMailbox]; exact hone.memberships,
      hone.keywords.trans hsame.emailKeyword, fun t ht => by rw [← hsame.modseq]; exact hone.modseq t ht⟩
  refine ⟨r.1, c.link U (db₁.ingested c.args mailbox), ?_, ?_, hafter.link c⟩
  · change c.run U s.before = _
    simp only [IngestCall.run, transaction, hput, hr]
  · rw [(ingestTx_result hr).1]
    rfl

/-- An entry that is not ingested: its ingest fails and changes no message. -/
theorem run_of_not_ingests (hfirst : firstMailbox s.object = .ok mailbox)
    (h : ¬Ingests rawMessage account calls s mailbox) :
    ∃ e db', (s.ingest rawMessage account calls mailbox).run U s.before = (.error e, db') ∧
      s.before.SameMail db' := by
  let c := s.ingest rawMessage account calls mailbox
  change ∃ e db', c.run U s.before = (.error e, db') ∧ s.before.SameMail db'
  rcases hput : c.put s.before with e | ⟨u, db₁⟩
  · exact ⟨e, s.before, by simp only [IngestCall.run, transaction, hput], .refl _⟩
  obtain ⟨hsame, hmailboxes⟩ := put_ok hput
  rcases hingest : ingestTx c.io c.args db₁ with e | ⟨r, db₂⟩
  · exact ⟨e, db₁, by simp only [IngestCall.run, transaction, hput, hingest], hsame⟩
  refine absurd ?_ h
  obtain ⟨-, -, -, hio⟩ := ingestTx_result hingest
  have hputIo := (Tx.exec_eq_ok.mp hput).1
  cases ingestTx_ok (U := .ascii) hingest with
  | ingest hmb h₁ h₂ h₃ hthread hfresh =>
    refine ⟨hfirst, ?_, fun t ht => ?_, ?_, ?_, hputIo, hio⟩
    · cases targetMailbox_id_eq hmb
      have howned := targetMailbox_id.mp hmb
      rwa [MailDb.ownsMailbox, hmailboxes] at howned
    · rw [← hsame.modseq]
      cases t with
      | email => exact h₁
      | thread => exact h₂
      | mailbox => exact h₃
      | emailSubmission => exact absurd rfl ht
    · have hjoined : db₁.joinedThread c.args = s.before.joinedThread c.args := by
        unfold MailDb.joinedThread resolveThread
        rw [hsame.emails]
      rw [hjoined, hsame.threads] at hthread
      exact hthread
    · rw [hsame.emails] at hfresh
      exact hfresh

end Ingest

/-! ## The keywords -/

section Keywords

variable {U} {account} {db db' : MailDb} {calls : String → CreateCalls} {s : CreateStep}
  {mailbox : MailboxId} {ids : ServerIds}

/-- The keywords of an email are replaced exactly if the email is there, the counters have room
and no statement fails. -/
theorem updateKeywordsTx_iff {io : Io} {a : AccountId} {e : EmailId} {ks : List String} :
    (∃ r, updateEmailTx U io a e (some ks) none db = .ok (r, db')) ↔
      ((∀ n ∈ [0, 1, 4, 5, 6, 7], io n) ∧ db.ownsEmail a e ∧ db.modseq a .email < i64Max ∧
        db.modseq a .mailbox < i64Max) ∧ db' = db.updatedEmail U a e (some ks) none := by
  have hmailbox : ((db.replaceKeywords U e ks).bumped a .email).modseq a .mailbox =
      db.modseq a .mailbox := MailDb.modseq_bumped_of_ne _ (by decide)
  constructor
  · rintro ⟨r, h⟩
    have hio : ∀ n ∈ [0, 1, 4, 5, 6, 7], io n := by
      simp only [updateEmailTx, setKeywords, setMailboxes, Tx.bind_eq_ok, Tx.get_eq_ok,
        Tx.require_eq_ok, bump_eq_ok, Tx.exec_eq_ok] at h
      obtain ⟨_, _, ⟨rfl, rfl⟩, _, _, ⟨h0, rfl⟩, _, _, ⟨h1, rfl⟩, _, _, -, _, _, ⟨h4, -⟩, _, _,
        ⟨h5, -⟩, _, _, ⟨h6, -⟩, _, _, ⟨h7, -⟩, -⟩ := h
      simp [h0.1, h1, h4, h5, h6, h7]
    cases updateEmailTx_ok h with
    | updateEmail hown _ h₁ h₂ => exact ⟨⟨hio, hown, h₁, h₂⟩, rfl⟩
  · rintro ⟨⟨hio, hown, h₁, h₂⟩, rfl⟩
    have hok : ∃ r db', updateEmailTx U io a e (some ks) none db = .ok (r, db') := by
      simp only [updateEmailTx, setKeywords, setMailboxes, Tx.bind_eq_ok, Tx.get_eq_ok,
        Tx.require_eq_ok, bump_eq_ok, Tx.exec_eq_ok, Tx.pure_eq_ok]
      exact ⟨_, _, _, _, ⟨rfl, rfl⟩, ⟨⟩, _, ⟨⟨hio 0 (by decide), hown⟩, rfl⟩, ⟨⟩, _,
        ⟨hio 1 (by decide), rfl⟩, ⟨⟩, _, rfl, _, _, ⟨hio 4 (by decide), h₁, rfl, rfl⟩, _, _,
        ⟨hio 5 (by decide), hmailbox.trans_lt h₂, rfl, rfl⟩, ⟨⟩, _, ⟨hio 6 (by decide), rfl⟩, ⟨⟩, _,
        ⟨hio 7 (by decide), rfl⟩, rfl, rfl⟩
    obtain ⟨r, db', hok⟩ := hok
    cases updateEmailTx_ok hok with
    | updateEmail => exact ⟨r, hok⟩

/-- The keywords of a row that was just ingested are stored exactly if the storage takes them. -/
theorem applyKeywords_some {keywords : Members} (hids : ids.1 = (calls s.clientId).emailId)
    (hafter : AfterIngest account.id (calls s.clientId).emailId mailbox s.before db) :
    (KeywordsStored account calls s →
      applyKeywords U account (calls s.clientId) ids db (some keywords) =
        (.ok ids, db.updatedEmail U account.id ids.1 (some keywords.keys) none)) ∧
    (¬KeywordsStored account calls s →
      ∃ e, applyKeywords U account (calls s.clientId) ids db (some keywords) = (.error e, db)) := by
  have hstored : KeywordsStored account calls s ↔
      (∀ n ∈ [0, 1, 4, 5, 6, 7], (calls s.clientId).keywordsIo n) ∧ db.ownsEmail account.id ids.1 ∧
        db.modseq account.id .email < i64Max ∧ db.modseq account.id .mailbox < i64Max := by
    rw [hids, hafter.modseq .email (by decide), hafter.modseq .mailbox (by decide)]
    exact ⟨fun h => ⟨h.io, hafter.owned, h.emails, h.mailboxes⟩, fun h => ⟨h.1, h.2.2.1, h.2.2.2⟩⟩
  rw [hstored]
  constructor
  · intro hguards
    obtain ⟨r, hr⟩ : ∃ r, updateEmailTx U (calls s.clientId).keywordsIo account.id ids.1
        (some keywords.keys) none db = .ok (r, db.updatedEmail U account.id ids.1
          (some keywords.keys) none) := updateKeywordsTx_iff.mpr ⟨hguards, rfl⟩
    simp only [applyKeywords, transaction, hr]
  · intro hguards
    rcases hupdate : updateEmailTx U (calls s.clientId).keywordsIo account.id ids.1
        (some keywords.keys) none db with e | ⟨changed, db'⟩
    · exact ⟨.storage e, by simp only [applyKeywords, transaction, hupdate]⟩
    · exact absurd (updateKeywordsTx_iff.mp ⟨changed, hupdate⟩).1 hguards

end Keywords

/-! ## One entry -/

section Entry

variable {U} {rawMessage} {account} {calls : String → CreateCalls}

variable (U rawMessage account calls) in
/-- What an entry does to the tables. -/
abbrev CreateStep.outcome (s : CreateStep) : Except UpdateError ServerIds × MailDb :=
  applyCreate U rawMessage account (calls s.clientId) s.object s.before

variable (U rawMessage account calls) in
/-- **One entry.** It is refused and changes no message, or it is ingested; then its keywords, if
it has any, go through or are refused, and the email stays. -/
theorem applyCreate_cases (s : CreateStep) :
    (∃ e db', s.outcome U rawMessage account calls = (.error e, db') ∧ s.before.SameMail db' ∧
      ∀ mailbox, ¬Ingests rawMessage account calls s mailbox) ∨
    ∃ mailbox ids db₁, Ingests rawMessage account calls s mailbox ∧
      ids.1 = (calls s.clientId).emailId ∧ AfterIngest account.id ids.1 mailbox s.before db₁ ∧
      (s.object.inner "keywords" = none ∧ s.outcome U rawMessage account calls = (.ok ids, db₁) ∨
      ∃ keywords, s.object.inner "keywords" = some keywords ∧
        (KeywordsStored account calls s ∧ s.outcome U rawMessage account calls =
            (.ok ids, db₁.updatedEmail U account.id ids.1 (some keywords.keys) none) ∨
          ¬KeywordsStored account calls s ∧
            ∃ e, s.outcome U rawMessage account calls = (.error e, db₁))) := by
  rcases hfirst : firstMailbox s.object with msg | mailbox
  · refine .inl ⟨.text msg, s.before, by simp only [CreateStep.outcome, applyCreate, hfirst],
      .refl _, fun mailbox hingests => ?_⟩
    cases hfirst.symm.trans hingests.first
  by_cases hingests : Ingests rawMessage account calls s mailbox
  · obtain ⟨ids, db₁, hrun, hids, hafter⟩ := run_of_ingests (U := U) hingests
    refine .inr ⟨mailbox, ids, db₁, hingests, hids, hids ▸ hafter, ?_⟩
    have houtcome : s.outcome U rawMessage account calls = applyKeywords U account
        (calls s.clientId) ids db₁ (s.object.inner "keywords") := by
      simp only [CreateStep.outcome, applyCreate, hfirst, hrun]
    rw [houtcome]
    rcases s.object.inner "keywords" with _ | keywords
    · exact .inl ⟨rfl, rfl⟩
    · refine .inr ⟨keywords, rfl, ?_⟩
      obtain ⟨hok, herr⟩ := @applyKeywords_some U account db₁ calls s mailbox ids keywords hids
        hafter
      by_cases hstored : KeywordsStored account calls s
      · exact .inl ⟨hstored, hok hstored⟩
      · exact .inr ⟨hstored, herr hstored⟩
  · obtain ⟨e, db', hrun, hsame⟩ := run_of_not_ingests (U := U) hfirst hingests
    refine .inl ⟨.storage e, db', by simp only [CreateStep.outcome, applyCreate, hfirst, hrun], hsame,
      fun mailbox' hingests' => ?_⟩
    cases hfirst.symm.trans hingests'.first
    exact hingests hingests'

/-- An email that is there, with the mailboxes and keywords that it had. -/
structure Kept (e : EmailId) (db db' : MailDb) : Prop where
  there : e ∈ db'.emails.map (·.id)
  mailboxes : db'.mailboxIdsOf e = db.mailboxIdsOf e
  keywords : db'.keywordsOf e = db.keywordsOf e

variable {db db' db'' : MailDb} {e e' : EmailId} {a : AccountId} {mailbox : MailboxId}
  {s : CreateStep}

theorem Kept.trans (h : Kept e db db') (h' : Kept e db' db'') : Kept e db db'' :=
  ⟨h'.there, h'.mailboxes.trans h.mailboxes, h'.keywords.trans h.keywords⟩

theorem kept_of_sameMail (h : db.SameMail db') (he : e ∈ db.emails.map (·.id)) :
    Kept e db db' where
  there := by rwa [h.emails]
  mailboxes := by rw [MailDb.mailboxIdsOf, MailDb.mailboxIdsOf, h.emailMailbox]
  keywords := by rw [MailDb.keywordsOf, MailDb.keywordsOf, h.emailKeyword]

theorem AfterIngest.mailboxIdsOf (h : AfterIngest a e' mailbox db db') :
    db'.mailboxIdsOf e = db.mailboxIdsOf e ++ if e' = e then [mailbox] else [] := by
  rw [MailDb.mailboxIdsOf, h.memberships, List.filter_append, List.map_append]
  by_cases hne : e' = e
  · simp [hne, MailDb.mailboxIdsOf]
  · simp [hne, MailDb.mailboxIdsOf]

theorem AfterIngest.kept (h : AfterIngest a e' mailbox db db') (hne : e' ≠ e)
    (he : e ∈ db.emails.map (·.id)) : Kept e db db' where
  there := by
    rw [h.emails]
    exact List.mem_append_left _ he
  mailboxes := by rw [h.mailboxIdsOf, if_neg hne, List.append_nil]
  keywords := by rw [MailDb.keywordsOf, MailDb.keywordsOf, h.keywords]

theorem emails_updatedEmail {ks : Option (List String)} {ms : Option (List MailboxId)} :
    (db.updatedEmail U a e' ks ms).emails.map (·.id) = db.emails.map (·.id) := by
  rw [← MailDb.edited_emails db U e' ks ms]
  refine map_update EmailsRow.id ?_ _
  exact fun _ => rfl

theorem keywordsOf_updatedEmail {ks : List String} :
    (db.updatedEmail U a e' (some ks) none).keywordsOf e =
      if e = e' then (ks.map U.toLowercase).eraseDups else db.keywordsOf e :=
  MailDb.keywordsOf_replaceKeywords db U e e' ks

/-- An entry keeps the emails that are there. -/
theorem kept_after (he : e ∈ s.before.emails.map (·.id)) :
    Kept e s.before (s.outcome U rawMessage account calls).2 := by
  rcases applyCreate_cases U rawMessage account calls s with
    ⟨err, db', houtcome, hsame, -⟩ |
      ⟨mailbox, ids, db₁, hingests, hids, hafter, ⟨-, houtcome⟩ |
        ⟨keywords, -, ⟨-, houtcome⟩ | ⟨-, err, houtcome⟩⟩⟩
  · rw [houtcome]
    exact kept_of_sameMail hsame he
  all_goals
    have hne : ids.1 ≠ e := by
      rintro rfl
      exact hingests.email (hids ▸ he)
    have hkept := hafter.kept hne he
    rw [houtcome]
  · exact hkept
  · refine hkept.trans ⟨?_, rfl, ?_⟩
    · rw [emails_updatedEmail]
      exact hkept.there
    · rw [keywordsOf_updatedEmail, if_neg (Ne.symm hne)]
  · exact hkept

/-- An entry that is ingested adds its email. -/
theorem emails_of_ingests (h : Ingests rawMessage account calls s mailbox) :
    (s.outcome U rawMessage account calls).2.emails.map (·.id) =
      s.before.emails.map (·.id) ++ [(calls s.clientId).emailId] := by
  rcases applyCreate_cases U rawMessage account calls s with
    ⟨err, db', -, -, hnone⟩ |
      ⟨mailbox, ids, db₁, -, hids, hafter, ⟨-, houtcome⟩ |
        ⟨keywords, -, ⟨-, houtcome⟩ | ⟨-, err, houtcome⟩⟩⟩
  · exact absurd h (hnone mailbox)
  all_goals rw [houtcome, ← hids]
  · exact hafter.emails
  · rw [emails_updatedEmail]
    exact hafter.emails
  · exact hafter.emails

end Entry

/-! ## The loop -/

section Loop

variable {U} {rawMessage} {account} {calls : String → CreateCalls} {db : MailDb}
  {members : Members} {s : CreateStep} {e : EmailId}

/-- The results are those of the entries, in order. -/
theorem createAll_results : (createAll U rawMessage account calls db members).1 =
    (createSteps U rawMessage account calls db members).map fun s =>
      (s.clientId, (s.outcome U rawMessage account calls).1) := by
  induction members generalizing db with
  | nil => rfl
  | cons m members ih =>
    rw [createAll, createSteps, List.map_cons, ← ih]

theorem clientIds_createSteps :
    (createSteps U rawMessage account calls db members).map (·.clientId) = members.keys := by
  induction members generalizing db with
  | nil => rfl
  | cons m members ih =>
    rw [createSteps, List.map_cons, ih]
    rfl

/-- What is there in the beginning is kept to the end. -/
theorem kept_createAll (he : e ∈ db.emails.map (·.id)) :
    Kept e db (createAll U rawMessage account calls db members).2 := by
  induction members generalizing db with
  | nil => exact ⟨he, rfl, rfl⟩
  | cons m members ih =>
    have hfirst := @kept_after U rawMessage account calls e ⟨m.1, m.2, db⟩ he
    exact hfirst.trans (ih hfirst.there)

/-- What is there in the beginning is there before each entry, and what is there after an entry is
kept to the end. -/
theorem kept_of_mem_createSteps (hs : s ∈ createSteps U rawMessage account calls db members) :
    (∀ e ∈ db.emails.map (·.id), e ∈ s.before.emails.map (·.id)) ∧
      ∀ e ∈ (s.outcome U rawMessage account calls).2.emails.map (·.id),
        Kept e (s.outcome U rawMessage account calls).2
          (createAll U rawMessage account calls db members).2 := by
  induction members generalizing db with
  | nil => exact (List.not_mem_nil hs).elim
  | cons m members ih =>
    rcases List.mem_cons.mp hs with rfl | hs
    · exact ⟨fun e he => he, fun e he => kept_createAll he⟩
    · obtain ⟨hbefore, hafter⟩ := ih hs
      exact ⟨fun e he => hbefore e (kept_after (s := ⟨m.1, m.2, db⟩) he).there, hafter⟩

/-- Entries that are not ingested leave nothing. -/
theorem leftNothing_createAll (h : ∀ s ∈ createSteps U rawMessage account calls db members,
    ∀ mailbox, ¬Ingests rawMessage account calls s mailbox) :
    LeftNothing db (createAll U rawMessage account calls db members).2 := by
  induction members generalizing db with
  | nil => exact ⟨rfl, rfl, rfl⟩
  | cons m members ih =>
    have hrest := ih fun s hs => h s (List.mem_cons_of_mem _ hs)
    rcases applyCreate_cases U rawMessage account calls ⟨m.1, m.2, db⟩ with
      ⟨err, db', houtcome, hsame, -⟩ | ⟨mailbox, _, _, hingests, -⟩
    · have hdb : (applyCreate U rawMessage account (calls m.1) m.2 db).2 = db' :=
        congrArg Prod.snd houtcome
      have hall : (createAll U rawMessage account calls db (m :: members)).2 =
          (createAll U rawMessage account calls db' members).2 := by
        rw [← hdb]
        rfl
      rw [hdb] at hrest
      rw [hall]
      exact ⟨by rw [hrest.emails, hsame.emails], by rw [hrest.threads, hsame.threads],
        by rw [hrest.memberships, hsame.emailMailbox]⟩
    · exact absurd hingests (h _ List.mem_cons_self mailbox)

end Loop

/-! ## What is stored before an entry -/

section Reached

variable {U} {rawMessage} {account} {calls : String → CreateCalls} {db db' : MailDb}
  {members : Members} {s : CreateStep}

/-- The tables that calls of the storage can lead to. -/
abbrev Stored (U : Unicode) (db : MailDb) : Prop := Runs.Reachable (mailStep U) MailDb.empty db

/-- Only emails have keywords. -/
def KeywordsOwned (db : MailDb) : Prop :=
  ∀ k ∈ db.emailKeyword, k.emailId ∈ db.emails.map (·.id)

theorem KeywordsOwned.frame (h : KeywordsOwned db) (hrows : db'.emailKeyword = db.emailKeyword)
    (hids : db'.emails.map (·.id) = db.emails.map (·.id)) : KeywordsOwned db' := by
  intro k hk
  rw [hids]
  exact h k (hrows ▸ hk)

theorem KeywordsOwned.effect (h : KeywordsOwned db) {op : MailOp} (heff : MailEffect U db op db') :
    KeywordsOwned db' := by
  cases heff with
  | @ingest io g m _ _ _ _ _ _ =>
    have hafter : AfterIngest g.accountId g.emailId m db (db.ingested g m) :=
      afterIngest_ingested g db
    intro k hk
    rw [hafter.emails]
    rw [hafter.keywords] at hk
    exact List.mem_append_left _ (h k hk)
  | @updateEmail io a e ks ms hown _ _ _ =>
    intro k hk
    rw [emails_updatedEmail]
    obtain ⟨r, hr, hr'⟩ := List.any_eq_true.mp hown
    have he : e ∈ db.emails.map (·.id) :=
      List.mem_map.mpr ⟨r, hr, (of_decide_eq_true hr').2⟩
    cases ks with
    | none =>
      cases ms <;> exact h k hk
    | some ks =>
      have hk : k ∈ (db.replaceKeywords U e ks).emailKeyword := by
        cases ms <;> exact hk
      rcases List.mem_append.mp hk with hold | hnew
      · exact h k (List.mem_of_mem_filter hold)
      · obtain ⟨x, -, rfl⟩ := List.mem_map.mp hnew
        exact he
  | createAccount | putBlob | linkContact => exact h.frame rfl rfl
  | _ =>
    refine h.frame rfl ?_
    refine map_update EmailsRow.id ?_ _
    exact fun _ => rfl

theorem keywordsOwned_of_stored (h : Stored U db) : KeywordsOwned db := by
  refine h.invariant (fun k hk => (List.not_mem_nil hk).elim) fun db op hdb => ?_
  rcases mailStep_spec U db op with heq | heff
  · rwa [heq]
  · exact hdb.effect heff

theorem memberships_of_stored (h : Stored U db) : Memberships db := by
  obtain ⟨ops, rfl⟩ := h
  exact Memberships.run U ops

/-- An entry is calls of the storage. -/
theorem stored_after (h : Stored U s.before) :
    Stored U (s.outcome U rawMessage account calls).2 := by
  unfold CreateStep.outcome applyCreate
  rcases firstMailbox s.object with msg | mailbox
  · exact h
  dsimp only
  obtain ⟨n, hn⟩ := (s.ingest rawMessage account calls mailbox).run_calls U s.before
  have hingest := h.run ((s.ingest rawMessage account calls mailbox).calls.take n)
  rw [hn] at hingest
  rcases hrun : (s.ingest rawMessage account calls mailbox).run U s.before with ⟨e | ids, db'⟩
  · rwa [hrun] at hingest
  · rw [hrun] at hingest
    dsimp only
    rcases s.object.inner "keywords" with _ | keywords
    · exact hingest
    · have hupdate := hingest.next (.updateEmail (calls s.clientId).keywordsIo account.id ids.1
        (some keywords.keys) none)
      rw [mailStep] at hupdate
      unfold applyKeywords
      dsimp only at hupdate ⊢
      rcases htx : transaction (updateEmailTx U (calls s.clientId).keywordsIo account.id ids.1
        (some keywords.keys) none) db' with ⟨e | changed, db''⟩
      · rwa [htx] at hupdate
      · rwa [htx] at hupdate

theorem stored_before (h : Stored U db)
    (hs : s ∈ createSteps U rawMessage account calls db members) : Stored U s.before := by
  induction members generalizing db with
  | nil => exact (List.not_mem_nil hs).elim
  | cons m members ih =>
    rcases List.mem_cons.mp hs with rfl | hs
    · exact h
    · exact ih (@stored_after U rawMessage account calls ⟨m.1, m.2, db⟩ h) hs

end Reached

/-! ## Every request -/

section Requests

variable {U} {rawMessage} {account} {calls : String → CreateCalls} {db : MailDb}
  {members : Members} {s : CreateStep} {mailbox : MailboxId}

/-- The keywords that an entry lists, set or not. -/
def ListsKeyword (U : Unicode) (object : Value) (k : String) : Prop :=
  ∃ inner, object.inner "keywords" = some inner ∧ ∃ m ∈ inner, U.toLowercase m.1 = k

/-- **What is created**: an email in the one mailbox it goes to, with every keyword it lists. -/
theorem created_contents (hdb : Stored U s.before)
    (h : Ingests rawMessage account calls s mailbox) {ids : ServerIds}
    (hok : (s.outcome U rawMessage account calls).1 = .ok ids) :
    (∀ m, m ∈ (s.outcome U rawMessage account calls).2.mailboxIdsOf ids.1 ↔ m = mailbox) ∧
      ∀ k, k ∈ (s.outcome U rawMessage account calls).2.keywordsOf ids.1 ↔
        ListsKeyword U s.object k := by
  have hfresh : ∀ db₁ mb, AfterIngest account.id (calls s.clientId).emailId mb s.before db₁ →
      (∀ m, m ∈ db₁.mailboxIdsOf (calls s.clientId).emailId ↔ m = mb) ∧
        ∀ k, k ∉ db₁.keywordsOf (calls s.clientId).emailId := by
    intro db₁ mb hafter
    have hnone : s.before.mailboxIdsOf (calls s.clientId).emailId = [] := by
      refine List.map_eq_nil_iff.mpr (List.filter_eq_nil_iff.mpr fun em hem hid => h.email ?_)
      exact of_decide_eq_true hid ▸ (memberships_of_stored hdb).stored em hem
    refine ⟨fun m => ?_, fun k hk => ?_⟩
    · rw [hafter.mailboxIdsOf, hnone, if_pos rfl, List.nil_append, List.mem_singleton]
    · obtain ⟨row, hrow, -⟩ := List.mem_map.mp hk
      obtain ⟨hrow, hid⟩ := List.mem_filter.mp hrow
      rw [hafter.keywords] at hrow
      exact h.email (of_decide_eq_true hid ▸ keywordsOwned_of_stored hdb row hrow)
  rcases applyCreate_cases U rawMessage account calls s with
    ⟨err, db', houtcome, -, -⟩ |
      ⟨mailbox', ids', db₁, hingests, hids, hafter, ⟨hnone, houtcome⟩ |
        ⟨keywords, hsome, ⟨-, houtcome⟩ | ⟨-, err, houtcome⟩⟩⟩
  · rw [houtcome] at hok
    cases hok
  all_goals
    rw [houtcome] at hok ⊢
    cases hok
  all_goals
    obtain rfl : mailbox = mailbox' := Except.ok.inj (h.first.symm.trans hingests.first)
    rw [hids] at hafter ⊢
    obtain ⟨hmailboxes, hkeywords⟩ := hfresh db₁ mailbox hafter
  · refine ⟨hmailboxes, fun k => iff_of_false (hkeywords k) ?_⟩
    rintro ⟨inner, hinner, -⟩
    cases hnone.symm.trans hinner
  · refine ⟨hmailboxes, fun k => ?_⟩
    rw [keywordsOf_updatedEmail, if_pos rfl, List.mem_eraseDups, List.mem_map]
    constructor
    · rintro ⟨x, hx, hk⟩
      obtain ⟨m, hm, rfl⟩ := List.mem_map.mp hx
      exact ⟨keywords, hsome, m, hm, hk⟩
    · rintro ⟨inner, hinner, m, hm, hk⟩
      cases hsome.symm.trans hinner
      exact ⟨m.1, List.mem_map_of_mem hm, hk⟩

/-- A created entry has the id that was drawn for it. -/
theorem id_of_created {ids : ServerIds}
    (hok : (s.outcome U rawMessage account calls).1 = .ok ids) :
    ids.1 = (calls s.clientId).emailId := by
  rcases applyCreate_cases U rawMessage account calls s with
    ⟨err, db', houtcome, -, -⟩ | ⟨_, ids', _, -, hids, -, ⟨-, houtcome⟩ |
      ⟨_, -, ⟨-, houtcome⟩ | ⟨-, err, houtcome⟩⟩⟩
  all_goals
    rw [houtcome] at hok
    cases hok
  · exact hids
  · exact hids

/-- Each keyword that is listed is set exactly if those that are listed are those that are set. -/
theorem listsKeyword_iff {object : Value} :
    (∀ k, ListsKeyword U object k ↔ NamesKeyword U object k) ↔
      ∀ inner, object.inner "keywords" = some inner → ∀ m ∈ inner, ¬Sets m.2 true →
        NamesKeyword U object (U.toLowercase m.1) := by
  constructor
  · intro h inner hinner m hm _
    exact (h _).mp ⟨inner, hinner, m, hm, rfl⟩
  · intro h k
    constructor
    · rintro ⟨inner, hinner, m, hm, rfl⟩
      by_cases hset : Sets m.2 true
      · exact ⟨inner, hinner, m, hm, hset, rfl⟩
      · exact h inner hinner m hm hset
    · rintro ⟨inner, hinner, m, hm, -, hk⟩
      exact ⟨inner, hinner, m, hm, hk⟩

/-- An entry that is ingested is created as it is named exactly if it fits. -/
theorem created_iff (hdb : Stored U s.before) (h : Ingests rawMessage account calls s mailbox) :
    (∃ ids, (s.outcome U rawMessage account calls).1 = .ok ids ∧
      AsNamed U s.object ids.1 (s.outcome U rawMessage account calls).2) ↔
        EntryFits U account calls s mailbox := by
  have hstored : (∃ ids, (s.outcome U rawMessage account calls).1 = .ok ids) ↔
      ((s.object.inner "keywords").isSome → KeywordsStored account calls s) := by
    rcases applyCreate_cases U rawMessage account calls s with
      ⟨err, db', -, -, hnone⟩ |
        ⟨mailbox', ids', db₁, hingests, hids, hafter, ⟨hnone, houtcome⟩ |
          ⟨keywords, hsome, ⟨hstored, houtcome⟩ | ⟨hstored, err, houtcome⟩⟩⟩
    · exact absurd h (hnone mailbox)
    · rw [houtcome, hnone]
      exact iff_of_true ⟨ids', rfl⟩ fun hsome => nomatch hsome
    · rw [houtcome]
      exact iff_of_true ⟨ids', rfl⟩ fun _ => hstored
    · rw [houtcome, hsome]
      exact iff_of_false (fun ⟨ids, hok⟩ => nomatch hok) fun hall => hstored (hall rfl)
  constructor
  · rintro ⟨ids, hok, hnamed⟩
    obtain ⟨hmailboxes, hkeywords⟩ := created_contents hdb h hok
    refine ⟨fun m => (hnamed.mailboxes m).symm.trans (hmailboxes m), ?_, hstored.mp ⟨ids, hok⟩⟩
    exact listsKeyword_iff.mp fun k => (hkeywords k).symm.trans (hnamed.keywords k)
  · intro hfits
    obtain ⟨ids, hok⟩ := hstored.mpr hfits.stored
    obtain ⟨hmailboxes, hkeywords⟩ := created_contents hdb h hok
    exact ⟨ids, hok, fun m => (hmailboxes m).trans (hfits.mailboxes m).symm,
      fun k => (hkeywords k).trans (listsKeyword_iff.mpr hfits.keywords k)⟩

theorem mem_createdOf {results : List (String × Except UpdateError ServerIds)} {clientId : String}
    {ids : ServerIds} : (clientId, ids) ∈ createdOf results ↔ (clientId, .ok ids) ∈ results := by
  rw [createdOf, List.mem_filterMap]
  constructor
  · rintro ⟨⟨id, result⟩, hr, heq⟩
    cases result with
    | error e => cases heq
    | ok ids' =>
      cases heq
      exact hr
  · exact fun hr => ⟨_, hr, rfl⟩

theorem mem_notCreatedOf {results : List (String × Except UpdateError ServerIds)}
    {clientId : String} {e : UpdateError} :
    (clientId, e) ∈ notCreatedOf results ↔ (clientId, .error e) ∈ results := by
  rw [notCreatedOf, List.mem_filterMap]
  constructor
  · rintro ⟨⟨id, result⟩, hr, heq⟩
    cases result with
    | error e' =>
      cases heq
      exact hr
    | ok ids => cases heq
  · exact fun hr => ⟨_, hr, rfl⟩

/-- The report of an entry is its own result, as no other entry has its id. -/
theorem reported_iff {create : PatchObject}
    (hs : s ∈ createSteps U rawMessage account calls db create.members)
    {result : Except UpdateError ServerIds} :
    (s.clientId, result) ∈ (createAll U rawMessage account calls db create.members).1 ↔
      (s.outcome U rawMessage account calls).1 = result := by
  have hnodup : ((createSteps U rawMessage account calls db create.members).map
      (·.clientId)).Nodup := by
    rw [clientIds_createSteps]
    exact Jmap.Members.keys_nodup create.sorted
  rw [createAll_results, List.mem_map]
  constructor
  · rintro ⟨s', hs', heq⟩
    obtain ⟨hid, hresult⟩ := Prod.mk.inj heq
    rwa [← List.inj_on_of_nodup_map hnodup hs' hs hid]
  · intro hresult
    exact ⟨s, hs, by rw [hresult]⟩

end Requests

/-- **Creation is exact and atomic exactly if the request fits**, in every state that calls of the
storage lead to. -/
theorem createLaw_iff (ops : List MailOp) (reads : StateReads) (calls : String → CreateCalls)
    (req : CreateRequest) :
    CreateLaw U rawMessage account reads calls req (Runs.run (mailStep U) MailDb.empty ops) ↔
      AllFit U rawMessage account reads calls req (Runs.run (mailStep U) MailDb.empty ops) := by
  generalize hops : Runs.run (mailStep U) MailDb.empty ops = db
  have hdb : Stored U db := ⟨ops, hops⟩
  by_cases haccount : req.accountId = account.id.uuid.toString
  case neg =>
    have hset : emailSetCreate U rawMessage account reads calls req db =
        (.error .accountNotFound, db) := by
      simp only [emailSetCreate, Jmap.checkSession, if_neg haccount]
    refine iff_of_true ⟨fun e _ => ?_, fun answer hok => ?_⟩ fun h => absurd h haccount
    · rw [hset]
      exact ⟨rfl, rfl, rfl⟩
    · rw [hset] at hok
      cases hok
  by_cases hbefore : reads.before
  case neg =>
    have hset : emailSetCreate U rawMessage account reads calls req db =
        (.error (.serverFail (reads.text .sqlite)), db) := by
      simp only [emailSetCreate, Jmap.checkSession, if_pos haccount, if_neg hbefore]
    refine iff_of_true ⟨fun e _ => ?_, fun answer hok => ?_⟩ fun _ h => absurd h hbefore
    · rw [hset]
      exact ⟨rfl, rfl, rfl⟩
    · rw [hset] at hok
      cases hok
  let all := createAll U rawMessage account calls db req.create.members
  by_cases hafter : reads.after
  case neg =>
    -- the state cannot be read again, and the whole request is refused
    have hset : emailSetCreate U rawMessage account reads calls req db =
        (.error (.serverFail (reads.text .sqlite)), all.2) := by
      simp only [emailSetCreate, Jmap.checkSession, if_pos haccount, if_pos hbefore,
        if_neg hafter, all]
    constructor
    · rintro ⟨hrefused, -⟩ - - s hs mailbox hingests
      have hleft := hrefused _ (congrArg Prod.fst hset)
      rw [hset] at hleft
      obtain ⟨hthere, hkept⟩ := kept_of_mem_createSteps hs
      have hnew : (calls s.clientId).emailId ∈
          (s.outcome U rawMessage account calls).2.emails.map (·.id) := by
        rw [emails_of_ingests hingests]
        exact List.mem_append_right _ (List.mem_singleton_self _)
      exact absurd (hthere _ (hleft.emails ▸ (hkept _ hnew).there)) hingests.email
    · intro hfit
      refine ⟨fun e _ => ?_, fun answer hok => ?_⟩
      · rw [hset]
        exact leftNothing_createAll fun s hs mailbox hingests =>
          hafter (hfit haccount hbefore s hs mailbox hingests).1
      · rw [hset] at hok
        cases hok
  have hset : emailSetCreate U rawMessage account reads calls req db =
      (.ok ⟨req.accountId, db.modseq account.id .email, all.2.modseq account.id .email,
        createdOf all.1, notCreatedOf all.1⟩, all.2) := by
    simp only [emailSetCreate, Jmap.checkSession, if_pos haccount, if_pos hbefore, if_pos hafter,
      all]
  -- what an email has after its entry, it has in the end
  have hfinal : ∀ s ∈ createSteps U rawMessage account calls db req.create.members,
      ∀ mailbox, Ingests rawMessage account calls s mailbox → ∀ ids,
        (s.outcome U rawMessage account calls).1 = .ok ids →
          (AsNamed U s.object ids.1 all.2 ↔
            AsNamed U s.object ids.1 (s.outcome U rawMessage account calls).2) := by
    intro s hs mailbox hingests ids hok
    have hthere : ids.1 ∈ (s.outcome U rawMessage account calls).2.emails.map (·.id) := by
      rw [id_of_created hok, emails_of_ingests hingests]
      exact List.mem_append_right _ (List.mem_singleton_self _)
    have hkept := (kept_of_mem_createSteps hs).2 ids.1 hthere
    constructor
    · exact fun h => ⟨hkept.mailboxes ▸ h.mailboxes, hkept.keywords ▸ h.keywords⟩
    · exact fun h => ⟨hkept.mailboxes.symm ▸ h.mailboxes, hkept.keywords.symm ▸ h.keywords⟩
  constructor
  · rintro ⟨-, hanswered⟩ - - s hs mailbox hingests
    refine ⟨hafter, (created_iff (stored_before hdb hs) hingests).mp ?_⟩
    rcases hanswered _ (congrArg Prod.fst hset) s hs with
      ⟨e, -, hleft⟩ | ⟨ids, hcreated, hnamed⟩
    · have hemails := hleft.emails.symm.trans (emails_of_ingests hingests)
      exact absurd (List.self_eq_append_right.mp hemails) (List.cons_ne_nil _ _)
    · have hok := (reported_iff hs).mp (mem_createdOf.mp hcreated)
      rw [hset] at hnamed
      exact ⟨ids, hok, (hfinal s hs mailbox hingests ids hok).mp hnamed⟩
  · intro hfit
    refine ⟨fun e herr => ?_, fun answer hok s hs => ?_⟩
    · rw [hset] at herr
      cases herr
    rw [hset] at hok ⊢
    cases hok
    rcases applyCreate_cases U rawMessage account calls s with
      ⟨err, db', houtcome, hsame, -⟩ | ⟨mailbox, -, -, hingests, -⟩
    · have hreport : (s.outcome U rawMessage account calls).1 = .error err := by rw [houtcome]
      refine .inl ⟨err, mem_notCreatedOf.mpr ((reported_iff hs).mpr hreport), ?_⟩
      have hdb' : s.after U rawMessage account calls = db' := congrArg Prod.snd houtcome
      rw [hdb']
      exact ⟨by rw [hsame.emails], by rw [hsame.threads], hsame.emailMailbox⟩
    · obtain ⟨ids, hok, hnamed⟩ := (created_iff (stored_before hdb hs) hingests).mpr
        (hfit haccount hbefore s hs mailbox hingests).2
      exact .inr ⟨ids, mem_createdOf.mpr ((reported_iff hs).mpr hok),
        (hfinal s hs mailbox hingests ids hok).mpr hnamed⟩

end Creating

/-! ### A keyword that is listed as false -/

/-- A draft in the Inbox that is not seen yet: a subject, a text,
`"keywords": {"$seen": false}` and `"mailboxIds": {"0…a": true}`. -/
def unseenDraft : Value :=
  .object [("bodyValues", .object [("1", .object [("value", .string "Lunch at noon?")])]),
    ("keywords", .object [("$seen", .bool false)]),
    ("mailboxIds", .object [("00000000-0000-0000-0000-00000000000a", .bool true)]),
    ("subject", .string "Lunch"), ("textBody", .array [.object [("partId", .string "1")]])]

/-- A request that creates it. -/
def unseenRequest : CreateRequest where
  accountId := "00000000-0000-0000-0000-000000000001"
  create := ⟨[("k1", unseenDraft)], List.pairwise_singleton _ _⟩

/-- Every call succeeds. -/
def createOk : CreateCalls where
  composedAt := 0
  messageId := 0
  emailId := ⟨100⟩
  threadId := ⟨200⟩
  contactId := ⟨300⟩
  now := 0
  putIo := .ok
  io := .ok
  linkIo := .ok
  keywordsIo := .ok

/-- What the request does in a fresh account. -/
def unseenOutcome : Except MethodError CreateAnswer × MailDb :=
  emailSetCreate .ascii Pipeline.readMessage ⟨⟨1⟩, "a@x.org", none, 0⟩
    ⟨true, true, fun _ => ""⟩ (fun _ => createOk) unseenRequest
    (Runs.run (mailStep .ascii) MailDb.empty [createFreshAccount])

/-- **A draft that is not seen is stored as seen.** -/
theorem not_createLaw_unseen :
    ¬CreateLaw .ascii Pipeline.readMessage ⟨⟨1⟩, "a@x.org", none, 0⟩
      ⟨true, true, fun _ => ""⟩ (fun _ => createOk) unseenRequest
      (Runs.run (mailStep .ascii) MailDb.empty [createFreshAccount]) := by
  intro hlaw
  have hreport : unseenOutcome.1.toOption.map (fun a => (a.created.map (·.2.1), a.notCreated)) =
      some ([⟨100⟩], []) := by decide +kernel
  have hseen : "$seen" ∈ unseenOutcome.2.keywordsOf ⟨100⟩ := by decide +kernel
  have hanswered := hlaw.answered
  change ∀ answer, unseenOutcome.1 = .ok answer → _ at hanswered
  rcases hset : unseenOutcome.1 with e | answer
  · rw [hset] at hreport
    cases hreport
  rw [hset] at hreport
  obtain ⟨hcreated, hnot⟩ := Prod.mk.inj (Option.some.inj hreport)
  rcases hanswered answer hset _ List.mem_cons_self with ⟨e, he, -⟩ | ⟨ids, hids, hnamed⟩
  · rw [hnot] at he
    cases he
  · have hid : ids.1 = ⟨100⟩ := by
      have hmem := List.mem_map_of_mem (f := fun c : String × ServerIds => c.2.1) hids
      rw [hcreated] at hmem
      exact List.mem_singleton.mp hmem
    have hnames := (hnamed.keywords "$seen").mp (hid ▸ hseen)
    obtain ⟨inner, hinner, m, hm, hset, -⟩ := hnames
    cases hinner
    rw [List.mem_singleton.mp hm] at hset
    cases hset

end Owney
