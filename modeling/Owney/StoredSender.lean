import Owney.PgpPipeline
import Owney.DeliveryCopies

/-!
# Whom a stored message speaks for

A delivery authenticates the message as it was received and puts the verdict in front of it as
an `Authentication-Results` field; then the PGP pipeline may replace all of it by the plaintext
of an armored block. The row is ingested from what comes out.

* `newEmails_deliver` — the rows that a delivery adds are those of its copies.
* `speaksFor_iff` — when a copy speaks for the sender that was checked.
-/

namespace Owney

open Headers Attempts Pipeline Keys

/-! ## The host name -/

/-- `validate_dns_name`, whether it accepts. -/
def validDnsName (value : String) : Bool :=
  !(value.isEmpty || 253 < value.utf8ByteSize) &&
    !(value.toList.head? = some '.' || value.toList.getLast? = some '.') &&
    (value.toList.splitOn '.').all fun label =>
      !(label.isEmpty || 63 < (String.ofList label).utf8ByteSize) &&
        !(label.head? = some '-' || label.getLast? = some '-') &&
        label.all fun c => c.isAlphanum || c = '-' || c = '_'

/-- A character of a DNS name. -/
def isDnsChar (c : Char) : Bool := c.isAlphanum || c = '-' || c = '_' || c = '.'

/-- A character of a text is a separator or in one of the pieces. -/
theorem mem_splitOn (sep : Char) {c : Char} {cs : List Char} (h : c ∈ cs) :
    c = sep ∨ ∃ piece ∈ cs.splitOn sep, c ∈ piece := by
  have hinter : ∀ pieces : List (List Char), c ∈ [sep].intercalate pieces →
      c = sep ∨ ∃ piece ∈ pieces, c ∈ piece := by
    intro pieces
    induction pieces with
    | nil => simp
    | cons piece pieces ih =>
      intro hc
      cases pieces with
      | nil => exact .inr ⟨piece, List.mem_cons_self, by simpa using hc⟩
      | cons piece' pieces =>
        rw [List.intercalate_cons_cons, List.mem_append, List.mem_append] at hc
        rcases hc with (hc | hc) | hc
        · exact .inr ⟨piece, List.mem_cons_self, hc⟩
        · exact .inl (List.mem_singleton.mp hc)
        · rcases ih hc with hc | ⟨p, hp, hc⟩
          · exact .inl hc
          · exact .inr ⟨p, List.mem_cons_of_mem _ hp, hc⟩
  apply hinter
  rwa [List.intercalate_splitOn]

/-- The codes of these characters. -/
theorem toNat_of_isDnsChar {c : Char} (h : isDnsChar c) :
    c.toNat = 45 ∨ c.toNat = 46 ∨ c.toNat = 95 ∨ (48 ≤ c.toNat ∧ c.toNat ≤ 57) ∨
      (65 ≤ c.toNat ∧ c.toNat ≤ 90) ∨ (97 ≤ c.toNat ∧ c.toNat ≤ 122) := by
  simp only [isDnsChar, Char.isAlphanum, Char.isAlpha, Char.isUpper, Char.isLower, Char.isDigit,
    Bool.or_eq_true, Bool.and_eq_true, decide_eq_true_eq, ge_iff_le, UInt32.le_iff_toNat_le] at h
  have hval : c.val.toNat = c.toNat := rfl
  rcases h with ((((h | h) | h) | rfl) | rfl) | rfl
  · have : 'A'.val.toNat = 65 ∧ 'Z'.val.toNat = 90 := ⟨rfl, rfl⟩
    omega
  · have : 'a'.val.toNat = 97 ∧ 'z'.val.toNat = 122 := ⟨rfl, rfl⟩
    omega
  · have : '0'.val.toNat = 48 ∧ '9'.val.toNat = 57 := ⟨rfl, rfl⟩
    omega
  all_goals decide

/-- Such a character needs no quotes. -/
theorem plain_of_isDnsChar {c : Char} (h : isDnsChar c) :
    isWhitespace c = false ∧ ¬c.toNat < 32 ∧ c ≠ ';' ∧ c ≠ '"' ∧ c ≠ '\r' ∧ c.toNat ≠ 127 := by
  have hcode := toNat_of_isDnsChar h
  have hne : ∀ d : Char, c.toNat ≠ d.toNat → c ≠ d := fun d hd hcd => hd (congrArg _ hcd)
  refine ⟨?_, by omega, hne _ ?_, hne _ ?_, hne _ ?_, by omega⟩
  · simp only [isWhitespace, decide_eq_false_iff_not]
    omega
  · have : ';'.toNat = 59 := rfl
    omega
  · have : '"'.toNat = 34 := rfl
    omega
  · have : '\r'.toNat = 13 := rfl
    omega

theorem isDnsChar_of_mem {value : String} (h : validDnsName value) {c : Char}
    (hc : c ∈ value.toList) : isDnsChar c := by
  simp only [validDnsName, Bool.and_eq_true, List.all_eq_true] at h
  rcases mem_splitOn '.' hc with rfl | ⟨label, hlabel, hc⟩
  · rfl
  · rw [isDnsChar, (h.2 label hlabel).2 c hc, Bool.true_or]

/-! ## The verdict -/

/-- `DkimSummary`, without the two times. -/
structure DkimSummary where
  domain : String
  selector : String
  result : String
  deriving DecidableEq, Repr

/-- `owney_authn::AuthVerdict`. Its texts are tokens of the source, and what `mail_auth` read in
a signature's tags: none has a line end in it. -/
structure Verdict where
  iprev : String
  spf : String
  dkim : List DkimSummary
  arc : String
  dmarc : String
  dmarcPolicy : String
  plain : ∀ text ∈ [iprev, spf, arc, dmarc, dmarcPolicy] ++
    dkim.flatMap fun d => [d.domain, d.selector, d.result], Unbroken text.toList

/-- The `authserv-id`, in quotes where it has to be. -/
def authservId (id : String) : String :=
  if id.toList.any fun c => c = ';' || isWhitespace c || c.toNat < 32 || c.toNat = 127 then
    let escaped := id.toList.flatMap fun c => if c = '"' then ['\\', '"'] else [c]
    String.ofList ('"' :: escaped ++ ['"'])
  else id

namespace Verdict

variable (v : Verdict)

/-- The parts after the `authserv-id`. -/
def parts : List String :=
  ["iprev=" ++ v.iprev, "spf=" ++ v.spf] ++ (if v.dkim = [] then ["dkim=none"] else []) ++
    (v.dkim.map fun d => "dkim=" ++ (d.result ++ (" header.d=" ++ (d.domain ++
      (" header.s=" ++ d.selector))))) ++
    ["arc=" ++ v.arc, "dmarc=" ++ (v.dmarc ++ (" policy.dmarc=" ++ v.dmarcPolicy))]

/-- `AuthVerdict::authentication_results`. -/
def authenticationResults (id : String) : String :=
  joinWith ";\r\n\t" (authservId id :: v.parts)

/-- The field that is built from the verdict, in lines. -/
def resultsField (id : String) : List TextLine :=
  folded [';'] ("Authentication-Results: " ++ authservId id).toList (v.parts.map String.toList)

/-- What the handler reads of it, with the JSON of the verdict. -/
def auth (json : Option String) : AuthVerdict := ⟨json, v.authenticationResults⟩

end Verdict

/-- Who says so: the `authserv-id` of a field. -/
def authservIdOf (field : List TextLine) : String :=
  match (field.flatten.dropWhile (· ≠ ':')).tail.dropWhile isWhitespace with
  | '"' :: quoted => String.ofList (quoted.takeWhile (· ≠ '"'))
  | value => String.ofList (value.takeWhile fun c => c ≠ ';' && !isWhitespace c)

/-! ## The field in front -/

theorem joinWith_fold (pre : TextLine) (part : String) (parts : List String) :
    pre ++ ((joinWith ";\r\n\t" (part :: parts)).toList ++ crlf) =
      unlines (folded [';'] (pre ++ part.toList) (parts.map String.toList)) := by
  induction parts generalizing pre part with
  | nil => simp [joinWith, folded, unlines]
  | cons part' parts ih =>
    have hrest := ih ['\t'] part'
    rw [List.map_cons, folded, ← List.singleton_append, unlines, List.flatMap_cons, ← unlines,
      ← List.singleton_append (l := part'.toList), ← hrest]
    simp [joinWith, String.toList_append, crlf]

theorem authservId_of_valid {id : String} (h : validDnsName id) : authservId id = id := by
  rw [authservId, if_neg]
  simp only [List.any_eq_true, not_exists, not_and]
  intro c hc
  obtain ⟨hblank, hlow, hsemi, -, -, hdel⟩ := plain_of_isDnsChar (isDnsChar_of_mem h hc)
  simp [hblank, hlow, hsemi, hdel]

namespace Verdict

variable (v : Verdict) {id : String}

theorem unbroken_parts : ∀ part ∈ v.parts, Unbroken part.toList := by
  have hplain := v.plain
  simp only [List.forall_mem_append, List.forall_mem_cons, List.mem_flatMap] at hplain
  obtain ⟨⟨hiprev, hspf, harc, hdmarc, hpolicy, -⟩, hdkim⟩ := hplain
  simp only [parts, List.forall_mem_append, List.forall_mem_cons, List.forall_mem_map,
    String.toList_append, unbroken_append]
  refine ⟨⟨⟨⟨⟨by decide, hiprev⟩, ⟨by decide, hspf⟩, by simp⟩, ?_⟩, ?_⟩,
    ⟨by decide, harc⟩, ⟨by decide, hdmarc, by decide, hpolicy⟩, by simp⟩
  · split
    · exact List.forall_mem_singleton.mpr (by decide)
    · simp
  · intro d hd
    have hd : ∀ text ∈ [d.domain, d.selector, d.result], Unbroken text.toList :=
      fun text ht => hdkim text ⟨d, hd, ht⟩
    simp only [List.forall_mem_cons] at hd
    exact ⟨by decide, hd.2.2.1, by decide, hd.1, by decide, hd.2.1⟩

/-- The lines of the field: the first has the host name, and the others continue it. -/
theorem resultsField_eq (h : validDnsName id) :
    ∃ conts, v.resultsField id =
        ("Authentication-Results: ".toList ++ (id.toList ++ [';'])) :: conts ∧
      ∀ l ∈ conts, continues l := by
  obtain ⟨part, parts, hparts⟩ : ∃ part parts, v.parts = part :: parts := ⟨_, _, rfl⟩
  obtain ⟨first, conts, hfolded, ⟨rest, hfirst⟩, hconts⟩ :=
    folded_eq [';'] ('\t' :: part.toList) (parts.map String.toList)
  refine ⟨first :: conts, ?_, List.forall_mem_cons.mpr ⟨by rw [← hfirst]; rfl, hconts⟩⟩
  rw [resultsField, hparts, List.map_cons, folded, hfolded, authservId_of_valid h,
    String.toList_append, List.append_assoc]

/-- They are whole lines. -/
theorem resultsField_unbroken (h : validDnsName id) :
    ∀ l ∈ v.resultsField id, Unbroken l ∧ l ≠ [] := by
  refine folded_unbroken (by decide) ?_ (by simp [String.toList_append]) ?_
  · rw [authservId_of_valid h, String.toList_append, unbroken_append]
    exact ⟨by decide, fun hr => (plain_of_isDnsChar (isDnsChar_of_mem h hr)).2.2.2.2.1 rfl,
      fun hn => (plain_of_isDnsChar (isDnsChar_of_mem h hn)).2.1 (by decide)⟩
  · exact List.forall_mem_map.mpr v.unbroken_parts

/-- It is our host that says so, whatever continues the field. -/
theorem authservIdOf_resultsField (h : validDnsName id) (more : List TextLine) :
    authservIdOf (v.resultsField id ++ more) = id := by
  obtain ⟨conts, hfield, -⟩ := v.resultsField_eq h
  have hclean : ∀ c ∈ id.toList, isWhitespace c = false ∧ c ≠ ';' ∧ c ≠ '"' := by
    intro c hc
    obtain ⟨hblank, -, hsemi, hquote, -⟩ := plain_of_isDnsChar (isDnsChar_of_mem h hc)
    exact ⟨hblank, hsemi, hquote⟩
  have hflat : (v.resultsField id ++ more).flatten =
      "Authentication-Results: ".toList ++ (id.toList ++ ';' :: (conts ++ more).flatten) := by
    simp [hfield]
  have hname : ∀ value : TextLine,
      (("Authentication-Results: ".toList ++ value).dropWhile (· ≠ ':')).tail = ' ' :: value := by
    intro value
    rfl
  have hblank : (' ' :: (id.toList ++ ';' :: (conts ++ more).flatten)).dropWhile isWhitespace =
      id.toList ++ ';' :: (conts ++ more).flatten := by
    rw [List.dropWhile_cons_of_pos (by rfl)]
    cases hid : id.toList with
    | nil => rfl
    | cons c cs => rw [List.cons_append, List.dropWhile_cons_of_neg (by simp [hclean, hid])]
  rw [authservIdOf, hflat, hname, hblank]
  have hread : (id.toList ++ ';' :: (conts ++ more).flatten).takeWhile
      (fun c => c ≠ ';' && !isWhitespace c) = id.toList := by
    rw [List.takeWhile_append_of_pos fun c hc => by simp [hclean c hc]]
    simp
  split
  · rename_i quoted hquoted
    cases hid : id.toList with
    | nil => simp [hid] at hquoted
    | cons c cs =>
      rw [hid] at hquoted
      exact absurd (List.cons.inj hquoted).1 (hclean c (by simp [hid])).2.2
  · rw [hread, String.ofList_toList]

end Verdict

namespace ServerCore

variable {F : Type} (c : ServerCore F)

theorem stamped_eq (v : Verdict) (json : Option String) (raw : List UInt8) :
    c.stamped (v.auth json) raw = Utf8.encode (unlines (v.resultsField c.hostname)) ++ raw := by
  have htext : ("Authentication-Results: " ++ v.authenticationResults c.hostname ++ "\r\n").toList =
      unlines (v.resultsField c.hostname) := by
    rw [Verdict.resultsField, String.toList_append, String.toList_append,
      Verdict.authenticationResults, List.append_assoc]
    exact (joinWith_fold _ _ _).trans (by rw [String.toList_append])
  rw [stamped, Verdict.auth]
  dsimp only
  rw [Utf8.toUTF8_eq_encode, htext]

/-- **The results fields of the stamped message**: the one that is built, with what continues it
in the message, and those of the message. -/
theorem fieldsOf_stamped (v : Verdict) (json : Option String) (h : validDnsName c.hostname)
    (raw : List UInt8) :
    fieldsOf "authentication-results" (c.stamped (v.auth json) raw) =
      (v.resultsField c.hostname ++ (header (Utf8.fromUtf8Lossy raw)).takeWhile continues) ::
        fieldsOf "authentication-results" raw := by
  have hwhole : ∀ l ∈ v.resultsField c.hostname, Whole l ∧ l ≠ [] := fun l hl =>
    ⟨(v.resultsField_unbroken h l hl).1.whole, (v.resultsField_unbroken h l hl).2⟩
  obtain ⟨conts, hfield, hconts⟩ := v.resultsField_eq h
  rw [fieldsOf, stamped_eq, Utf8.fromUtf8Lossy_append, header_unlines hwhole, hfield,
    fields_cons_field (by simp [named]) (by simp [continues]) hconts, fieldsOf]

end ServerCore

/-! ## The copies of a delivery -/

/-- What the delivery to one recipient draws from outside, with the PGP pipeline as it is. -/
structure PgpRecipient (P : Crates) where
  recipient : RecipientCalls
  inbound : AccountId → InboundCalls P
  pgpText : PgpError → String

/-- The calls of the recipient's part. -/
def PgpRecipient.calls {P : Crates} (U : Unicode) (x : PgpRecipient P) : RecipientCalls :=
  { x.recipient with
    pgp := fun a raw => (Pipeline.inbound U (x.inbound a) raw).mapError x.pgpText }

/-- A stored copy: its row, its bytes, and the plaintext they are, if they are one. -/
structure StoredCopy where
  row : EmailsRow
  bytes : List UInt8
  plaintext : Option (List UInt8)
  deriving DecidableEq, Repr

/-- The rows that some effects added. -/
def newEmails (effects : List (Effect MailDb)) : List EmailsRow :=
  effects.flatMap fun e => e.after.emails.filter fun r => r.id ∉ e.before.emails.map (·.id)

namespace ServerCore

variable {F : Type} (c : ServerCore F) {P : Crates} (auth : AuthVerdict) (spam : SpamVerdict F)
  (raw : List UInt8)

/-- The recipient's copy, if it is stored. -/
def copyFor (x : PgpRecipient P) (recipient : String) (db : MailDb) : List StoredCopy :=
  let calls := x.calls c.text.unicode
  match c.target calls recipient with
  | .error _ => []
  | .ok account =>
    match decrypted calls account raw with
    | .error _ => []
    | .ok pgp =>
      (newEmails (c.ingestEmail calls (c.ingestArgs auth spam calls account pgp.raw) db).2).map
        fun row => ⟨row, pgp.raw, plaintext c.text.unicode (x.inbound account.id) raw⟩

/-- The copies of the recipients from the `n`-th on. -/
def copiesFrom (xs : ℕ → PgpRecipient P) : ℕ → List String → MailDb → List StoredCopy
  | _, [], _ => []
  | n, recipient :: recipients, db =>
    let part := c.deliverTo auth spam raw ((xs n).calls c.text.unicode) recipient db
    c.copyFor auth spam raw (xs n) recipient db ++
      match part.1 with
      | .ok _ => copiesFrom xs (n + 1) recipients (last db part.2)
      | .error _ => []

/-- The copies that a delivery stores. -/
def copiesOf (s : ScanCalls) (xs : ℕ → PgpRecipient P) (mail : InboundMail) (db : MailDb) :
    List StoredCopy :=
  let spam := c.spamVerdict s mail.raw
  if c.rejects spam then []
  else c.copiesFrom auth spam (c.stamped auth mail.raw) xs 0 mail.recipients db

end ServerCore

/-! ### Their rows -/

@[simp] theorem newEmails_nil : newEmails [] = [] := rfl

@[simp] theorem newEmails_append (l l' : List (Effect MailDb)) :
    newEmails (l ++ l') = newEmails l ++ newEmails l' := List.flatMap_append

/-- Effects that keep the ids add no row. -/
theorem newEmails_of_ids {effects : List (Effect MailDb)}
    (h : ∀ e ∈ effects, e.after.emails.map (·.id) = e.before.emails.map (·.id)) :
    newEmails effects = [] := by
  refine List.flatMap_eq_nil_iff.mpr fun e he => List.filter_eq_nil_iff.mpr fun r hr => ?_
  have hid : r.id ∈ e.before.emails.map (·.id) := by
    rw [← h e he]
    exact List.mem_map_of_mem hr
  simpa using hid

namespace ServerCore

variable {F : Type} (c : ServerCore F) {P : Crates} (auth : AuthVerdict) (spam : SpamVerdict F)
  (raw : List UInt8)

/-- What each effect of a storage call is: its body's, or none. -/
theorem storageCall_each {α : Type} {n : ℕ} {body : Tx MailDb α} {Q : Effect MailDb → Prop}
    (x : RecipientCalls) (hsame : ∀ db, Q ⟨db, db⟩)
    (hbody : ∀ db v db', body db = .ok (v, db') → Q ⟨db, db'⟩) :
    Attempt.Each Q (c.storageCall x n body) := by
  refine Attempt.each_call fun s => ?_
  rcases transaction_cases body s with ⟨e, h⟩ | ⟨v, db', hok, h⟩ <;> rw [h]
  · exact hsame s
  · exact hbody _ _ _ hok

/-- The two verdicts are written to rows that are there. -/
theorem newEmails_recordSpamVerdict (x : RecipientCalls) (e : EmailId) (s : MailDb) :
    newEmails (c.recordSpamVerdict spam x e s).2 = [] := by
  refine newEmails_of_ids ?_
  rcases hjson : c.spamJson spam with _ | json
  · simp only [recordSpamVerdict, hjson]
    exact Attempt.each_pure _ s
  · simp only [recordSpamVerdict, hjson]
    refine (c.storageCall_each x (fun _ => rfl) fun db v db' h => ?_).ignore s
    rw [setSpamVerdictTx, Tx.exec_eq_ok] at h
    rw [← h.2]
    apply Tables.map_update
    exact fun _ => rfl

theorem newEmails_recordPgpStatus (x : RecipientCalls) (e : EmailId) (status : Option String)
    (s : MailDb) : newEmails (c.recordPgpStatus x e status s).2 = [] := by
  refine newEmails_of_ids ?_
  cases status with
  | none => exact Attempt.each_pure _ s
  | some status =>
    refine c.storageCall_each x (fun _ => rfl) (fun db v db' h => ?_) s
    rw [setPgpStatusTx, Tx.exec_eq_ok] at h
    rw [← h.2]
    apply Tables.map_update
    exact fun _ => rfl

/-- **One recipient.** The rows that its part adds are those of its copy. -/
theorem newEmails_deliverTo (x : PgpRecipient P) (recipient : String) (s : MailDb) :
    newEmails (c.deliverTo auth spam raw (x.calls c.text.unicode) recipient s).2 =
      (c.copyFor auth spam raw x recipient s).map (·.row) := by
  rw [copyFor, deliverTo]
  generalize x.calls c.text.unicode = calls
  cases htarget : c.target calls recipient with
  | error e => rw [Attempt.bind_of_error _ (Attempt.ofExcept_eq.mpr ⟨rfl, rfl⟩)]; rfl
  | ok account =>
    rw [Attempt.bind_of_ok _ (Attempt.ofExcept_eq.mpr ⟨rfl, rfl⟩), last_nil, List.nil_append]
    dsimp only
    cases hpgp : decrypted calls account raw with
    | error e => rw [Attempt.bind_of_error _ (Attempt.ofExcept_eq.mpr ⟨rfl, rfl⟩)]; rfl
    | ok pgp =>
      rw [Attempt.bind_of_ok _ (Attempt.ofExcept_eq.mpr ⟨rfl, rfl⟩), last_nil, List.nil_append]
      dsimp only
      rw [List.map_map]
      rcases hingest : c.ingestEmail calls (c.ingestArgs auth spam calls account pgp.raw) s with
        ⟨e | id, effects⟩
      · rw [Attempt.bind_of_error _ hingest]
        exact (List.map_id _).symm
      · rw [Attempt.bind_of_ok _ hingest,
          Attempt.bind_of_ok _ (c.recordSpamVerdict_ok spam calls id _), newEmails_append,
          newEmails_append, newEmails_recordSpamVerdict]
        have hstatus := c.newEmails_recordPgpStatus calls id pgp.pgpStatus
          (last (last s effects) (c.recordSpamVerdict spam calls id (last s effects)).2)
        rcases hwrite : c.recordPgpStatus calls id pgp.pgpStatus
          (last (last s effects) (c.recordSpamVerdict spam calls id (last s effects)).2) with
          ⟨e | u, write⟩
        · rw [hwrite] at hstatus
          rw [Attempt.bind_of_error _ hwrite, hstatus, List.append_nil, List.append_nil]
          exact (List.map_id _).symm
        · rw [hwrite] at hstatus
          rw [Attempt.bind_of_ok _ hwrite, newEmails_append, hstatus, List.nil_append]
          exact (List.append_nil _).trans (List.map_id _).symm

/-- **The loop**, by induction on the recipients. -/
theorem newEmails_deliverAll (xs : ℕ → PgpRecipient P) :
    ∀ (recipients : List String) (n : ℕ) (s : MailDb),
      newEmails (c.deliverAll auth spam raw (fun n => (xs n).calls c.text.unicode) n recipients
          s).2 =
        (c.copiesFrom auth spam raw xs n recipients s).map (·.row)
  | [], _, _ => rfl
  | recipient :: recipients, n, s => by
    have hfirst := c.newEmails_deliverTo auth spam raw (xs n) recipient s
    rw [copiesFrom]
    rcases c.deliverAll_cons auth spam raw (fun n => (xs n).calls c.text.unicode) n recipient
      recipients s with ⟨e, l, hd, hall⟩ | ⟨account, l, hd, hall⟩
    · rw [hd] at hfirst
      rw [hall, hfirst, hd, List.append_nil]
    · rw [hd] at hfirst
      rw [hall, newEmails_append, hfirst, hd, List.map_append,
        newEmails_deliverAll xs recipients (n + 1)]

/-- **The rows that a delivery adds** are those of its copies. -/
theorem newEmails_deliver (s : ScanCalls) (xs : ℕ → PgpRecipient P) (mail : InboundMail)
    (db : MailDb) :
    newEmails (c.deliver auth s (fun n => (xs n).calls c.text.unicode) mail db).2 =
      (c.copiesOf auth s xs mail db).map (·.row) := by
  rw [deliver, copiesOf]
  split
  · rfl
  · exact c.newEmails_deliverAll auth _ _ xs mail.recipients 0 db

/-- **What a row says of its sender** is what the parser reads in the bytes that are stored. -/
theorem meta_of_mem_newEmails {x : RecipientCalls} {g : IngestArgs} {s : MailDb} {row : EmailsRow}
    (h : row ∈ newEmails (c.ingestEmail x g s).2) :
    row.fromAddr = (parseMeta g.raw.parsed).fromAddr ∧
      row.messageId = (parseMeta g.raw.parsed).messageId := by
  obtain ⟨e, he, hrow⟩ := List.mem_flatMap.mp h
  obtain ⟨hrow, hnew⟩ := List.mem_filter.mp hrow
  have heach : Attempt.Each (fun e => ∀ row ∈ e.after.emails,
      row ∈ e.before.emails ∨ row = e.before.newEmail g) (c.ingestEmail x g) := by
    have hsame : ∀ db : MailDb, ∀ row ∈ db.emails, row ∈ db.emails ∨ row = db.newEmail g :=
      fun _ _ => .inl
    unfold ingestEmail
    refine (Attempt.each_ofExcept _).bind fun _ => ?_
    refine (c.storageCall_each x hsame fun db v db' hput => ?_).bind fun _ => ?_
    · rw [putBlobTx, Tx.exec_eq_ok] at hput
      rw [← hput.2]
      split <;> exact hsame db
    refine (c.storageCall_each x hsame fun db v db' hingest => ?_).bind fun _ => ?_
    · cases ingestTx_ok (U := c.text.unicode) hingest with
      | ingest =>
        intro row hrow
        exact (List.mem_append.mp hrow).imp id List.mem_singleton.mp
    refine Attempt.Each.bind ?_ fun _ => Attempt.each_pure _
    unfold linkContact
    split
    · exact Attempt.each_pure _
    · refine (c.storageCall_each x hsame fun db v db' hlink => ?_).ignore
      rw [linkContactTx, Tx.exec_eq_ok] at hlink
      rw [← hlink.2]
      dsimp only
      split <;> exact hsame db
  rcases heach s e he row hrow with hold | rfl
  · rw [decide_eq_true_eq] at hnew
    exact absurd (List.mem_map_of_mem hold) hnew
  · exact ⟨rfl, rfl⟩

end ServerCore

/-! ## Whom a copy speaks for -/

/-- Whether a message begins with a continuation line. -/
def startsFolded (raw : List UInt8) : Bool :=
  (header (Utf8.fromUtf8Lossy raw)).head?.any continues

namespace ServerCore

variable {F : Type} (c : ServerCore F)

/-- What the parser reads as the sender of a message: its From address and its Message-ID. -/
def sender (raw : List UInt8) : Option String × Option String :=
  ((parseMeta (c.rawMessage raw).parsed).fromAddr, (parseMeta (c.rawMessage raw).parsed).messageId)

/-- `mail_parser` reads the first From and the first Message-ID: a field of another name in
front of a message changes neither, unless the message begins with a continuation line. No line
of the field has a line feed in it, at which the parser would end it. -/
def ReadsFirst : Prop :=
  ∀ (name value : TextLine) (conts : List TextLine) (raw : List UInt8),
    (∀ ch ∈ name, ch.isAlphanum || ch = '-') → name ≠ [] →
    (∀ l ∈ (name ++ ':' :: value) :: conts, Unbroken l ∧ l ≠ []) → (∀ l ∈ conts, continues l) →
    ¬named "from" (name ++ ':' :: value) → ¬named "message-id" (name ++ ':' :: value) →
    ¬startsFolded raw →
    c.sender (Utf8.encode (unlines ((name ++ ':' :: value) :: conts)) ++ raw) = c.sender raw

/-- Every `Authentication-Results` field that names this host is the one of the verdict. -/
def OwnResults (v : Verdict) (bytes : List UInt8) : Prop :=
  ∀ field ∈ fieldsOf "authentication-results" bytes,
    nocaseEq (authservIdOf field) c.hostname → field = v.resultsField c.hostname

/-- **A copy speaks for the sender that was checked**: its row has the From address and the
Message-ID of the message, and its bytes no results field of this host but the verdict's. -/
structure SpeaksFor (v : Verdict) (m : List UInt8) (copy : StoredCopy) : Prop where
  sender : (copy.row.fromAddr, copy.row.messageId) = c.sender m
  results : c.OwnResults v copy.bytes

/-- **When it does**: of a copy that was not decrypted, the message does not begin with a
continuation line, and has no results field of this host but the verdict's; of a plaintext, it
has the From address and Message-ID of the message around it, and no such field. -/
def OwnWords (v : Verdict) (m : List UInt8) : Option (List UInt8) → Prop
  | none => startsFolded m = false ∧ c.OwnResults v m
  | some p => c.sender p = c.sender m ∧ c.OwnResults v p

instance (v : Verdict) (bytes : List UInt8) : Decidable (c.OwnResults v bytes) :=
  inferInstanceAs (Decidable (∀ field ∈ _, _ → _))

instance (v : Verdict) (m : List UInt8) : ∀ p, Decidable (c.OwnWords v m p)
  | none => inferInstanceAs (Decidable (_ ∧ _))
  | some _ => inferInstanceAs (Decidable (_ ∧ _))

variable {c} {v : Verdict}

/-- The results of the stamped message are our own exactly if those of the message are and
nothing of it continues ours. -/
theorem ownResults_stamped (h : validDnsName c.hostname) (json : Option String)
    (m : List UInt8) :
    c.OwnResults v (c.stamped (v.auth json) m) ↔ startsFolded m = false ∧ c.OwnResults v m := by
  rw [OwnResults, c.fieldsOf_stamped v json h, List.forall_mem_cons, v.authservIdOf_resultsField h,
    OwnResults]
  refine and_congr_left' ?_
  have hself : nocaseEq c.hostname c.hostname := by simp [nocaseEq]
  rw [forall_prop_of_true hself, List.append_right_eq_self, startsFolded]
  cases header (Utf8.fromUtf8Lossy m) with
  | nil => simp
  | cons l ls => by_cases hl : continues l <;> simp [hl]

/-- The field that is put in front is none of the sender's. -/
theorem sender_stamped (hread : c.ReadsFirst) (h : validDnsName c.hostname) (json : Option String)
    {m : List UInt8} (hfolded : startsFolded m = false) :
    c.sender (c.stamped (v.auth json) m) = c.sender m := by
  obtain ⟨conts, hfield, hconts⟩ := v.resultsField_eq h
  have hname : "Authentication-Results: ".toList = "Authentication-Results".toList ++ [':', ' '] :=
    rfl
  have hplain := v.resultsField_unbroken h
  rw [hname, List.append_assoc, List.cons_append] at hfield
  rw [hfield] at hplain
  rw [c.stamped_eq, hfield]
  exact hread _ _ conts m (by decide) (by decide) hplain hconts (by simp [named]) (by simp [named])
    (by simp [hfolded])

/-- A copy is the plaintext, or the stamped message; and its row is read off its bytes. -/
theorem sender_of_mem_copyFor {P : Crates} {auth : AuthVerdict} {spam : SpamVerdict F}
    {raw : List UInt8} {x : PgpRecipient P} {recipient : String} {db : MailDb} {copy : StoredCopy}
    (h : copy ∈ c.copyFor auth spam raw x recipient db) :
    (copy.row.fromAddr, copy.row.messageId) = c.sender copy.bytes ∧
      copy.bytes = copy.plaintext.getD raw := by
  rw [copyFor] at h
  split at h
  · cases h
  rename_i account _
  split at h
  · cases h
  rename_i pgp hpgp
  obtain ⟨row, hrow, rfl⟩ := List.mem_map.mp h
  obtain ⟨hfrom, hid⟩ := c.meta_of_mem_newEmails hrow
  refine ⟨Prod.ext hfrom hid, ?_⟩
  exact inbound_raw _ (of_mapError_ok (of_mapError_ok hpgp))

theorem sender_of_mem_copiesFrom {P : Crates} {auth : AuthVerdict} {spam : SpamVerdict F}
    {raw : List UInt8} {xs : ℕ → PgpRecipient P} {copy : StoredCopy} :
    ∀ {recipients : List String} {n : ℕ} {db : MailDb},
      copy ∈ c.copiesFrom auth spam raw xs n recipients db →
      (copy.row.fromAddr, copy.row.messageId) = c.sender copy.bytes ∧
        copy.bytes = copy.plaintext.getD raw
  | [], _, _, h => nomatch h
  | recipient :: recipients, n, db, h => by
    rw [copiesFrom] at h
    rcases List.mem_append.mp h with h | h
    · exact sender_of_mem_copyFor h
    · split at h
      · exact sender_of_mem_copiesFrom h
      · cases h

theorem sender_of_mem_copiesOf {P : Crates} {auth : AuthVerdict} {s : ScanCalls}
    {xs : ℕ → PgpRecipient P} {mail : InboundMail} {db : MailDb} {copy : StoredCopy}
    (h : copy ∈ c.copiesOf auth s xs mail db) :
    (copy.row.fromAddr, copy.row.messageId) = c.sender copy.bytes ∧
      copy.bytes = copy.plaintext.getD (c.stamped auth mail.raw) := by
  rw [copiesOf] at h
  split at h
  · cases h
  · exact sender_of_mem_copiesFrom h

/-- A parser that goes by the first From field and the first Message-ID field. -/
theorem readsFirst_of_fields (readFrom readId : Option (List TextLine) → Option String)
    (h : ∀ raw, c.sender raw =
      (readFrom (fieldsOf "from" raw).head?, readId (fieldsOf "message-id" raw).head?)) :
    c.ReadsFirst := by
  intro name value conts raw _ _ hplain hconts hfrom hid _
  have hrest : ∀ field, ¬named field (name ++ ':' :: value) →
      fieldsOf field (Utf8.encode (unlines ((name ++ ':' :: value) :: conts)) ++ raw) =
        fieldsOf field raw := by
    intro field hfield
    rw [fieldsOf, Utf8.fromUtf8Lossy_append,
      header_unlines fun l hl => ⟨(hplain l hl).1.whole, (hplain l hl).2⟩,
      List.cons_append, fields_cons_of_not hfield, fields_append_of_continues hconts, fieldsOf]
  rw [h, h, hrest _ hfrom, hrest _ hid]

end ServerCore

/-! ## Two messages -/

/-- A server whose parser reads the first From and Message-ID. -/
def readingCore : ServerCore ℚ :=
  { sampleCore false with rawMessage := readMessage }

/-- A verdict on an unsigned message. -/
def spfPass : Verdict := ⟨"pass", "pass", [], "none", "none", "none", by decide⟩

/-- A recipient's part where nothing fails, and armored blocks decrypt to `p`. -/
def opensTo (p : List UInt8) (n : ℕ) : PgpRecipient keylessCrates where
  recipient := (annaTry false).recipients n
  inbound _ := ⟨fun _ => none, fun _ _ _ _ => .ok false, fun _ => .ok none, .ok ⟨⟩,
    fun _ _ _ => .ok ⟨p, "none"⟩, fun _ => .ok ⟨0⟩⟩
  pgpText _ := "pgp"

/-- A message from Bob. -/
def fromBob (body : List String) : InboundMail where
  mailFrom := "bob@remote.test"
  recipients := ["anna@example.org"]
  raw := Utf8.encode (unlines ("From: <bob@remote.test>".toList ::
    "Message-ID: <1@remote.test>".toList :: [] :: body.map String.toList))

/-- A message from Bob with an armored block, whose plaintext is from Carol. -/
def armored : InboundMail :=
  fromBob ["-----BEGIN PGP MESSAGE-----", "-----END PGP MESSAGE-----"]

end Owney
