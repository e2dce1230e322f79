import Owney.InboundDelivery
import Owney.PgpPipeline
import Owney.Submission

/-!
# Who a message is sent as

The two ways into `submit_with_priority`: `EmailSubmission/set`, which takes the envelope
sender from the client and the message from any email of the account, and `send_email` of
MCP, which takes both from the account. The service signs what it is given.

Neither the envelope sender nor the From fields are compared with the account's addresses, so
a submission speaks for its account exactly as far as its inputs do
(`senderAuthority_of_ownSenders`).
-/

namespace Owney

open Headers Pipeline

/-! ## Whose address it is -/

/-- The account's own address, or an alias of it that is active. -/
def Directory.speaks (D : Directory) (now : ℤ) (a : AccountId) (address : String) : Bool :=
  (D.accounts.any fun r => r.id = a ∧ nocaseEq r.email address) ||
    D.aliases.any fun r => r.accountId = a ∧ nocaseEq r.aliasEmail address ∧ r.live now

/-- What `mail_parser` reads in a message: the addresses of a From field, and those of the
To, Cc and Bcc fields. -/
structure MailReader where
  addressList : List TextLine → List String
  recipients : List UInt8 → List String

/-- All addresses in some From fields. -/
def MailReader.addresses (R : MailReader) (fields : List (List TextLine)) : List String :=
  fields.flatMap R.addressList

/-! ## `EmailSubmission/set` -/

/-- The object's `envelope`: `mailFrom.email`, and the texts `rcptTo[..].email`. -/
structure JmapEnvelope where
  mailFrom : Option String
  rcptTo : List String
  deriving DecidableEq, Repr

/-- The members of a created object that are read. -/
structure SubmissionCreate where
  emailId : Option String
  envelope : Option JmapEnvelope
  deriving DecidableEq, Repr

/-- `JmapCtx`: the account as it was at login, and whether there is a submitter. -/
structure SubmissionCtx where
  account : AccountsRow
  submitter : Bool
  deriving DecidableEq, Repr

/-- What the reads of a submission return: whether the statement succeeds, and the file. -/
structure SubmissionReads where
  emailsRead : Except String PUnit
  getBlob : BlobId → Except String (List UInt8)

/-- The envelope: explicit, or derived from the message headers. -/
def SubmissionCreate.senders (R : MailReader) (ctx : SubmissionCtx) (raw : List UInt8) :
    Option JmapEnvelope → String × List String
  | some envelope => (envelope.mailFrom.getD ctx.account.email, envelope.rcptTo)
  | none => (ctx.account.email, R.recipients raw)

/-- One object of `submission_set`, up to the submitter. -/
def SubmissionCreate.submission (R : MailReader) (ctx : SubmissionCtx) (x : SubmissionReads)
    (mail : MailDb) (object : SubmissionCreate) : Except String Submission := do
  let text ← object.emailId.elim (.error "emailId is required") .ok
  let emailId ← (Uuid.parseStr text).elim (.error "bad emailId") fun u => .ok ⟨u⟩
  x.emailsRead
  let row ← (mail.emailsByIds ctx.account.id [emailId]).head?.elim (.error "no such email") .ok
  let raw ← x.getBlob row.blobId
  let (mailFrom, recipients) := SubmissionCreate.senders R ctx raw object.envelope
  if recipients = [] then .error "no recipients"
  else return ⟨ctx.account.id, mailFrom, recipients, raw, row.chatMode⟩

/-! ## `send_email` -/

/-- `MailService`, as far as `send_email` reads it. -/
structure McpService where
  accountId : AccountId
  accountEmail : String
  maySend : Bool
  submitter : Bool
  deriving DecidableEq, Repr

/-- `ServiceError`. -/
inductive McpError where
  | forbidden (msg : String)
  | invalid (msg : String)
  deriving DecidableEq, Repr

/-- `str::replace` of each line feed by a line end. -/
def withCrlf (body : String) : String :=
  String.ofList (body.toList.flatMap fun c => if c = '\n' then crlf else [c])

/-- `compose` of the MCP service; `date` and `id` are drawn. -/
def compose (mailFrom : String) (recipients : List String) (subject body date id : String) :
    List UInt8 :=
  let domain := ((rsplitOnce '@' mailFrom).map (·.2)).getD "local"
  Utf8.encode (unlines [("From: <" ++ (mailFrom ++ ">")).toList,
    ("To: " ++ joinWith ", " recipients).toList, ("Subject: " ++ subject).toList,
    ("Date: " ++ date).toList, ("Message-ID: <" ++ (id ++ ("@" ++ (domain ++ ">")))).toList,
    "MIME-Version: 1.0".toList, "Content-Type: text/plain; charset=utf-8".toList, []] ++
    (withCrlf body).toList)

/-- `send_email`, up to the submitter. -/
def McpService.submission (svc : McpService) (recipients : List String)
    (subject body date id : String) : Except McpError Submission :=
  if svc.maySend = false then .error (.forbidden "this token is not permitted to send mail")
  else if svc.submitter = false then .error (.invalid "sending is not enabled")
  else if recipients = [] then .error (.invalid "at least one recipient required")
  else .ok ⟨svc.accountId, svc.accountEmail, recipients,
    compose svc.accountEmail recipients subject body date id, false⟩

/-! ## Runs -/

variable (P : Crates)

/-- What a submission draws from outside, with the PGP pipeline as it is. -/
structure SenderCalls where
  submit : SubmitCalls
  outbound : OutboundCalls P
  pgpText : Keys.PgpError → String

variable {P}

/-- The calls of `submit_with_priority`. -/
def SenderCalls.calls (x : SenderCalls P) : SubmitCalls :=
  { x.submit with
    pgp := fun g => (Pipeline.outbound x.submit.unicode x.outbound g.mailFrom g.recipients
      g.raw).mapError x.pgpText }

/-- The tables: of addresses, and those a submission writes. -/
structure SenderWorld where
  directory : Directory
  tables : SubmitDb

variable (P) in
/-- A step: a submission of one of the two kinds, or whatever else happens. -/
inductive SenderStep where
  | submissionSet (ctx : SubmissionCtx) (object : SubmissionCreate) (reads : SubmissionReads)
      (x : SenderCalls P)
  | sendEmail (svc : McpService) (recipients : List String) (subject body date id : String)
      (x : SenderCalls P)
  | other (f : SenderWorld → SenderWorld)

/-- What a step gives to the submitter. -/
def SenderStep.submits (R : MailReader) (w : SenderWorld) :
    SenderStep P → Option (Submission × SenderCalls P)
  | .submissionSet ctx object reads x =>
    if ctx.submitter then
      match object.submission R ctx reads w.tables.mail with
      | .ok g => some (g, x)
      | .error _ => none
    else none
  | .sendEmail svc recipients subject body date id x =>
    match svc.submission recipients subject body date id with
    | .ok g => some (g, x)
    | .error _ => none
  | .other _ => none

/-- The tables after a step. -/
def senderStep (R : MailReader) (w : SenderWorld) (o : SenderStep P) : SenderWorld :=
  match o with
  | .other f => f w
  | o =>
    match o.submits R w with
    | some (g, x) => { w with tables := submitStep g w.tables x.calls }
    | none => w

/-- **What is promised of a step.** If it is an accepted submission of an account, every row it
adds to the queue has a sender of the account, and so has every From field of the message that
was signed. -/
def Authorized (R : MailReader) (w : SenderWorld) (o : SenderStep P) : Prop :=
  ∀ g x, o.submits R w = some (g, x) → ∀ ids effects,
    x.calls.submitWithPriority g w.tables = (.ok ids, effects) →
    (∀ row ∈ newRows effects, row.accountId = g.accountId ∧
      w.directory.speaks x.submit.now g.accountId row.mailFrom) ∧
    ∀ raw header, x.calls.pgp g = .ok raw → x.calls.sign raw = .ok header →
      ∀ address ∈ R.addresses (fieldsOf "from" raw),
        w.directory.speaks x.submit.now g.accountId address

/-- **Sender authority** of a run. -/
def SenderAuthority (R : MailReader) (w : SenderWorld) (ops : List (SenderStep P)) : Prop :=
  Runs.Meets (senderStep R) (Authorized R) w ops

/-- What a submission is given: a sender of the account, on one line, and a message whose From
fields have the account's addresses only. -/
def OwnSender (R : MailReader) (w : SenderWorld) (o : SenderStep P) : Prop :=
  ∀ gx ∈ o.submits R w,
    w.directory.speaks gx.2.submit.now gx.1.accountId gx.1.mailFrom ∧
    '\r' ∉ gx.1.mailFrom.toList ∧
    ∀ address ∈ R.addresses (sectionFieldsOf "from" gx.1.raw),
      w.directory.speaks gx.2.submit.now gx.1.accountId address

instance (R : MailReader) (w : SenderWorld) (o : SenderStep P) : Decidable (OwnSender R w o) :=
  inferInstanceAs (Decidable (∀ gx ∈ o.submits R w, _ ∧ _ ∧ _))

/-! ## What the submitter makes of it -/

/-- A try that succeeds is all or nothing. -/
theorem allOrNothing_of_ok {g : Submission} {s : SubmitDb} {x : SubmitCalls} {ids : List Uuid}
    {effects : List (Attempts.Effect SubmitDb)}
    (h : x.submitWithPriority g s = (.ok ids, effects)) : AllOrNothing g s x := by
  rw [allOrNothing_iff]
  intro raw header blobId l hpgp hsign hingest
  by_contra hno
  obtain ⟨e, l', hloop⟩ := x.enqueueAll_of_not_queuesAll g blobId g.recipients hno
  unfold SubmitCalls.submitWithPriority at h
  obtain ⟨raw', _, _, hraw, h, -⟩ := Attempts.Attempt.ok_bind.mp h
  obtain ⟨header', _, _, hheader, h, -⟩ := Attempts.Attempt.ok_bind.mp h
  obtain ⟨blobId', _, _, hblob, h, -⟩ := Attempts.Attempt.ok_bind.mp h
  obtain ⟨hraw', rfl⟩ := Attempts.Attempt.ofExcept_eq.mp hraw
  rw [hpgp] at hraw'
  obtain rfl := Except.ok.inj hraw'
  obtain ⟨hheader', rfl⟩ := Attempts.Attempt.ofExcept_eq.mp hheader
  rw [hsign] at hheader'
  obtain rfl := Except.ok.inj hheader'
  cases hingest.symm.trans hblob
  cases hloop.symm.trans h

/-- **One step.** What the inputs of a submission allow is what is queued and signed. -/
theorem authorized_of_ownSender {R : MailReader} {w : SenderWorld} {o : SenderStep P}
    (h : OwnSender R w o) : Authorized R w o := by
  intro g x hsubmits ids effects hok
  obtain ⟨hmail, hplain, hfrom⟩ := h (g, x) hsubmits
  constructor
  · obtain ⟨_, _, -, -, -, -, -, hrows⟩ := (allOrNothing_of_ok hok).all ids effects hok
    intro row hrow
    obtain ⟨haccount, hsender, -⟩ := hrows row hrow
    exact ⟨haccount, by rw [hsender]; exact hmail⟩
  · intro raw header hpgp _ address haddress
    have hout : Pipeline.outbound x.submit.unicode x.outbound g.mailFrom g.recipients g.raw =
        .ok raw := of_mapError_ok hpgp
    obtain ⟨field, hfield, haddress⟩ := List.mem_flatMap.mp haddress
    exact hfrom address (List.mem_flatMap.mpr
      ⟨field, fieldsOf_outbound _ hplain hout hfield, haddress⟩)

/-- **Sender authority.** A run in which every submission is given a sender of its account, and
a message From it, has sender authority. -/
theorem senderAuthority_of_ownSenders (P : Crates) (R : MailReader) (w : SenderWorld)
    (ops : List (SenderStep P)) (h : Runs.Meets (senderStep R) (OwnSender R) w ops) :
    SenderAuthority R w ops := by
  induction ops generalizing w with
  | nil => trivial
  | cons o ops ih => exact ⟨authorized_of_ownSender h.1, ih _ h.2⟩

/-! ## Two runs -/

/-- Addresses are what stands between angle brackets, in a line of each field. -/
def angleReader : MailReader where
  addressList field := field.filterMap fun line =>
    if '<' ∈ line then some (String.ofList ((line.dropWhile (· ≠ '<')).tail.takeWhile (· ≠ '>')))
    else none
  recipients _ := ["bob@remote.test"]

/-- Calls that all succeed, on messages that are not encrypted. -/
def smoothSender : SenderCalls keylessCrates where
  submit := smoothCalls
  outbound := ⟨.ok ⟨⟩, fun _ => .ok none, fun _ _ _ => .error (.openPgp "no key")⟩
  pgpText _ := "pgp"

/-- Anna's context. -/
def annaCtx : SubmissionCtx := ⟨⟨⟨1⟩, "anna@example.org", none, 0⟩, true⟩

/-- Anna and Eve have accounts, and Anna has stored a message that is from Eve. -/
def annaAndEve : SenderWorld where
  directory := ⟨[annaCtx.account, ⟨⟨2⟩, "eve@example.org", none, 0⟩], [], []⟩
  tables := { annaSubmits with
    mail := { annaSubmits.mail with
      emails := [⟨⟨7⟩, ⟨1⟩, ⟨8⟩, ⟨9⟩, none, none, none, 0, 0, 1, 1, none, none, none, false,
        false⟩] } }

/-- The file of Anna's message. -/
def storedMessage (sender : String) : SubmissionReads where
  emailsRead := .ok ⟨⟩
  getBlob _ := .ok (Utf8.encode (unlines [("From: <" ++ (sender ++ ">")).toList, []]))

/-- A message of Anna's over MCP, and her stored message in her own name. -/
theorem senderAuthority_anna : SenderAuthority angleReader annaAndEve
    [.sendEmail ⟨⟨1⟩, "anna@example.org", true, true⟩ ["bob@remote.test"] "hi" "hello" "today" "1"
      smoothSender,
    .submissionSet annaCtx ⟨some (⟨7⟩ : EmailId).uuid.toString, none⟩
      (storedMessage "anna@example.org") smoothSender] :=
  senderAuthority_of_ownSenders keylessCrates angleReader annaAndEve _ (by decide +kernel)

/-- A submission of Anna's with Eve's address in the envelope. -/
def inEvesName : SubmissionCreate :=
  ⟨some (7 : Uuid).toString, some ⟨some "eve@example.org", ["bob@remote.test"]⟩⟩

/-- Anna's submission. -/
def annaAsEve : SenderStep keylessCrates :=
  .submissionSet annaCtx inEvesName (storedMessage "eve@example.org") smoothSender

/-- **Anna sends in Eve's name.** -/
theorem not_senderAuthority_annaAsEve : ¬SenderAuthority angleReader annaAndEve [annaAsEve] := by
  intro h
  have hsome : (annaAsEve.submits angleReader annaAndEve).isSome := by decide +kernel
  obtain ⟨⟨g, x⟩, hsubmits⟩ := Option.isSome_iff_exists.mp hsome
  have hrun : ∀ gx ∈ annaAsEve.submits angleReader annaAndEve,
      (gx.2.calls.submitWithPriority gx.1 annaAndEve.tables).1.isOk ∧
      ∃ row ∈ newRows (gx.2.calls.submitWithPriority gx.1 annaAndEve.tables).2,
        ¬annaAndEve.directory.speaks gx.2.submit.now gx.1.accountId row.mailFrom := by
    decide +kernel
  obtain ⟨hok, row, hrow, hnot⟩ := hrun (g, x) hsubmits
  rcases hsubmit : x.calls.submitWithPriority g annaAndEve.tables with ⟨e | ids, effects⟩
  · rw [hsubmit] at hok
    cases hok
  · rw [hsubmit] at hrow
    exact hnot ((h.1 g x hsubmits ids effects hsubmit).1 row hrow).2

end Owney
