import Owney.Lib.Attempts
import Owney.MailSpec
import Owney.SpamStore

/-!
# Delivering an inbound message

`ServerCore::deliver` of `handler.rs`, which the SMTP session calls once for a message it
has received, with all recipients it accepted. The verdicts on the message are made once,
before the loop; each recipient is then looked up, and its copy decrypted and stored.

The loop is an `Attempt`: an error at one recipient ends it, and what was stored for the
recipients before stays. What the handler draws from outside is an argument: of the message
`ScanCalls`, and of each recipient `RecipientCalls`, with what others did to the mail
tables between any two of its calls.
-/

namespace Owney

open Tables Attempts

/-! ## Recipients -/

/-- A row of `aliases`; the addresses are unique without regard to ASCII case. -/
structure AliasesRow where
  accountId : AccountId
  aliasEmail : String
  expiresAt : Option ℤ
  active : Bool
  deriving DecidableEq, Repr

/-- The tables an address is looked up in; `disabled` are the accounts whose `disabled_at`
is not `NULL`. -/
structure Directory where
  accounts : List AccountsRow
  disabled : List AccountId
  aliases : List AliasesRow
  deriving DecidableEq, Repr

/-- The two queries of a lookup: what they find, the clock, and which of them succeeds. -/
structure Lookup where
  directory : Directory
  now : ℤ
  accountsAnswered : Bool
  aliasesAnswered : Bool

/-- `Storage::account_by_email`. -/
def accountByEmail (U : Unicode) (q : Lookup) (email : String) :
    Except StorageError (Option AccountsRow) :=
  let email := U.toLowercase (U.trim email)
  if q.accountsAnswered then
    .ok (q.directory.accounts.find? fun r =>
      nocaseEq r.email email ∧ r.id ∉ q.directory.disabled)
  else .error .sqlite

/-- Whether an alias still delivers. -/
def AliasesRow.live (r : AliasesRow) (now : ℤ) : Bool :=
  r.active ∧ r.expiresAt.all (now < ·)

/-- `Storage::alias_target_account`. -/
def aliasTargetAccount (U : Unicode) (q : Lookup) (aliasEmail : String) :
    Except StorageError (Option AccountsRow) :=
  let aliasEmail := U.toLowercase (U.trim aliasEmail)
  if q.aliasesAnswered then
    .ok ((q.directory.aliases.filter fun r => nocaseEq r.aliasEmail aliasEmail ∧ r.live q.now)
      |>.findSome? fun r => q.directory.accounts.find? fun a =>
        a.id = r.accountId ∧ a.id ∉ q.directory.disabled)
  else .error .sqlite

/-- `Storage::resolve_recipient`: an error of the first query counts as nothing found. -/
def resolveRecipient (U : Unicode) (q : Lookup) (email : String) :
    Except StorageError (Option AccountsRow) :=
  match accountByEmail U q email with
  | .ok (some account) => .ok (some account)
  | _ => aliasTargetAccount U q email

/-! ## The handler -/

/-- `InboundMail`, without the two fields that only the authentication reads. -/
structure InboundMail where
  mailFrom : String
  recipients : List String
  raw : List UInt8

/-- `DeliverError`. -/
inductive DeliverError where
  | temporary (msg : String)
  | permanent (msg : String)
  deriving DecidableEq, Repr

/-- `SpamConfig`; its zones are read by the DNSBL check only. -/
structure SpamConfig (F : Type) where
  enabled : Bool
  rejectThreshold : F
  quarantineThreshold : F

/-- What the authenticator found out: the JSON, and the header's value for a host name. -/
structure AuthVerdict where
  json : Option String
  authenticationResults : String → String

/-- `ChatMode`. -/
inductive ChatMode where
  | respectSender | autoChat | neverChat
  deriving DecidableEq, Repr

/-- `InboundOutcome`; the key changes are only published. -/
structure InboundOutcome where
  raw : List UInt8
  pgpStatus : Option String

/-- `ServerCore`, with what it computes by code of other crates: the heuristic rules, the
parse of a message, the JSON of a verdict and the texts of errors. -/
structure ServerCore (F : Type) where
  text : TextOps
  ops : F32Ops F
  hostname : String
  spamConfig : SpamConfig F
  checkMessage : List UInt8 → RulesVerdict F
  rawMessage : List UInt8 → RawMessage
  spamJson : SpamVerdict F → Option String
  storageText : StorageError → String

/-- What the spam scan draws from outside. -/
structure ScanCalls where
  spamTokens : SpamTokens
  /-- `AccountId::new()` -/
  newAccountId : AccountId
  dnsblHits : Option (List String)
  order : HashOrder
  reached : Bool
  answered : String → Bool

/-- What the delivery to one recipient draws from outside. `others n` is what other tasks
do to the mail tables before the `n`-th call. -/
structure RecipientCalls where
  lookup : Lookup
  /-- `pgp::pipeline::inbound` -/
  pgp : AccountId → List UInt8 → Except String InboundOutcome
  chatPreference : Except StorageError ChatMode
  /-- whether the file store took the blob -/
  blobStored : Bool
  others : ℕ → MailDb → MailDb
  io : ℕ → Io
  emailId : EmailId
  threadId : ThreadId
  contactId : ContactId
  now : ℤ

/-- A delivery, or a part of it. -/
abbrev MailAttempt (α : Type) : Type := Attempt MailDb DeliverError α

namespace ServerCore

variable {F : Type} (c : ServerCore F)

/-- `err.to_string()` in a `DeliverError::Temporary`. -/
def temporarily {α : Type} (x : Except StorageError α) : Except DeliverError α :=
  x.mapError fun e => .temporary (c.storageText e)

/-- The `n`-th storage call on the mail tables. -/
def storageCall {α : Type} (x : RecipientCalls) (n : ℕ) (body : Tx MailDb α) :
    MailAttempt α :=
  Attempt.call (x.others n) fun db =>
    (c.temporarily (transaction body db).1, (transaction body db).2)

/-- The verdict of the spam scan, made once for the message. -/
def spamVerdict (s : ScanCalls) (raw : List UInt8) : SpamVerdict F :=
  if c.spamConfig.enabled then
    HeuristicScanner.scan c.ops s.dnsblHits (c.checkMessage raw)
      (classify c.ops s.spamTokens s.newAccountId s.reached s.answered
        (tokenize c.text s.order raw))
  else .default c.ops

/-- Whether the message is rejected for all recipients. -/
def rejects (spam : SpamVerdict F) : Bool := c.ops.ge spam.score c.spamConfig.rejectThreshold

/-- The mailbox the message is routed to. -/
def mailbox (spam : SpamVerdict F) : String :=
  if c.ops.ge spam.score c.spamConfig.quarantineThreshold then "junk" else "inbox"

/-- `chat_mode`; a failed read counts as `RespectSender`. -/
def chatMode (preference : Except StorageError ChatMode) : Bool :=
  match preference with
  | .ok .autoChat => true
  | _ => false

/-- The message with the `Authentication-Results` header in front. -/
def stamped (auth : AuthVerdict) (raw : List UInt8) : List UInt8 :=
  let header := "Authentication-Results: " ++ auth.authenticationResults c.hostname ++ "\r\n"
  header.toUTF8.data.toList ++ raw

/-- The arguments of a recipient's ingest. -/
def ingestArgs (auth : AuthVerdict) (spam : SpamVerdict F) (x : RecipientCalls)
    (account : AccountsRow) (raw : List UInt8) : IngestArgs where
  accountId := account.id
  raw := c.rawMessage raw
  target := .role (c.mailbox spam)
  authResults := auth.json
  chatMode := chatMode x.chatPreference
  emailId := x.emailId
  threadId := x.threadId
  now := x.now

/-- The auto-link of the sender, whose failure is only logged. -/
def linkContact (x : RecipientCalls) (g : IngestArgs) : MailAttempt PUnit :=
  match (parseMeta g.raw.parsed).fromAddr with
  | none => pure ⟨⟩
  | some fromAddr =>
    (c.storageCall x 2
      (linkContactTx c.text.unicode (x.io 2) g.accountId fromAddr x.contactId x.now)).ignore

/-- `Storage::ingest_email_with_chat`: the blob, the ingest transaction, the contact. -/
def ingestEmail (x : RecipientCalls) (g : IngestArgs) : MailAttempt EmailId := do
  Attempt.ofExcept (c.temporarily (if x.blobStored then .ok ⟨⟩ else .error .io))
  c.storageCall x 0 (putBlobTx (x.io 0) g.raw.blobId g.raw.size x.now)
  let ingested ← c.storageCall x 1 (ingestTx (x.io 1) g)
  c.linkContact x g
  return ingested.1.1

/-- The account of a recipient, or the error that ends the delivery. -/
def target (x : RecipientCalls) (recipient : String) : Except DeliverError AccountsRow :=
  match c.temporarily (resolveRecipient c.text.unicode x.lookup recipient) with
  | .error e => .error e
  | .ok none => .error (.temporary (recipient ++ " vanished after RCPT"))
  | .ok (some account) => .ok account

/-- The bytes to store for an account, and the PGP status. -/
def decrypted (x : RecipientCalls) (account : AccountsRow) (raw : List UInt8) :
    Except DeliverError InboundOutcome :=
  (x.pgp account.id raw).mapError fun e => .temporary ("pgp: " ++ e)

/-- Store the spam verdict; an error is let go. -/
def recordSpamVerdict (spam : SpamVerdict F) (x : RecipientCalls) (e : EmailId) :
    MailAttempt PUnit :=
  match c.spamJson spam with
  | none => pure ⟨⟩
  | some json => (c.storageCall x 3 (setSpamVerdictTx (x.io 3) e json)).ignore

/-- Store the PGP status; an error ends the delivery. -/
def recordPgpStatus (x : RecipientCalls) (e : EmailId) : Option String → MailAttempt PUnit
  | none => pure ⟨⟩
  | some status => c.storageCall x 4 (setPgpStatusTx (x.io 4) e status)

/-- The loop's body; it returns the account it delivered to. -/
def deliverTo (auth : AuthVerdict) (spam : SpamVerdict F) (raw : List UInt8) (x : RecipientCalls)
    (recipient : String) : MailAttempt AccountId := do
  let account ← Attempt.ofExcept (c.target x recipient)
  let pgp ← Attempt.ofExcept (decrypted x account raw)
  let emailId ← c.ingestEmail x (c.ingestArgs auth spam x account pgp.raw)
  c.recordSpamVerdict spam x emailId
  c.recordPgpStatus x emailId pgp.pgpStatus
  return account.id

/-- The loop from the `n`-th recipient on. -/
def deliverAll (auth : AuthVerdict) (spam : SpamVerdict F) (raw : List UInt8)
    (xs : ℕ → RecipientCalls) : ℕ → List String → MailAttempt (List AccountId)
  | _, [] => pure []
  | n, recipient :: recipients => do
    let account ← c.deliverTo auth spam raw (xs n) recipient
    let accounts ← deliverAll auth spam raw xs (n + 1) recipients
    return account :: accounts

/-- `ServerCore::deliver`; it returns the accounts it delivered to, which the source logs. -/
def deliver (auth : AuthVerdict) (s : ScanCalls) (xs : ℕ → RecipientCalls)
    (mail : InboundMail) : MailAttempt (List AccountId) :=
  let spam := c.spamVerdict s mail.raw
  if c.rejects spam then
    Attempt.throw (.permanent ("message rejected: spam score " ++ c.ops.fixed2 spam.score))
  else c.deliverAll auth spam (c.stamped auth mail.raw) xs 0 mail.recipients

end ServerCore

/-- A server with the spam filter on or off, for messages that no heuristic rule matches. -/
def sampleCore (enabled : Bool) : ServerCore ℚ where
  text := sampleText
  ops := exactOps
  hostname := "mx.example.org"
  spamConfig := ⟨enabled, 9 / 10, 7 / 10⟩
  checkMessage := fun _ => ⟨0, []⟩
  rawMessage := fun raw => ⟨none, raw.length, ⟨0⟩⟩
  spamJson := fun _ => none
  storageText := fun _ => "database error"

end Owney
