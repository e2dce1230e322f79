import Owney.OAuthStore
import Owney.Worker

/-!
# How a failed delivery is classified

A relay can refuse a message at any point: while the client connects, says EHLO and starts TLS,
while it connects once more in plaintext, or in the transaction itself. `deliver_to` decides by
the reply code in the first case. In all others it asks `map_send_error`, which looks for an
enhanced status code among the words of the rendered error.

The crate that talks SMTP is a parameter: `MailSend` renders its errors, and a `Dialogue` is what
came of it.

* `Reply.policy` — the documented rules, by the reply's own enhanced status code.
* `onePolicy_iff` — a reply is classified by them in every phase exactly if the words of the
  rendered error and the reply code agree with that code (`Unanimous`).
* `not_onePolicy_mailboxFull` — a full mailbox, however errors are rendered.
* `itemOutcome_iff` — what an attempt over several relays comes to.
-/

namespace Owney

/-! ## Replies -/

/-- An enhanced status code. -/
structure Enhanced where
  cls : ℕ
  subject : ℕ
  detail : ℕ
  deriving DecidableEq, Repr

/-- An SMTP reply. -/
structure Reply where
  code : ℕ
  enhanced : Option Enhanced
  text : String
  deriving DecidableEq, Repr

/-- `mail_send::Error`, as far as the worker tells the cases apart. -/
inductive MailSendError where
  | unexpectedReply (reply : Reply)
  | authenticationFailed (reply : Reply)
  | other (text : String)
  deriving DecidableEq, Repr

/-- How errors are shown: `to_string` of an error, and `{:?}` of a reply. -/
structure MailSend where
  render : MailSendError → String
  debug : Reply → String

/-- `DeliveryError`, as far as `attempt` returns it. -/
inductive RelayError where
  | dns (text : String)
  | storage (text : String)
  | permanent (text : String)
  | temporary (text : String)
  deriving DecidableEq, Repr

/-! ## The worker -/

/-- `parse_enhanced_status`: the first word of the shape `N.N.N`. -/
def parseEnhancedStatus (err : String) : Option String :=
  (splitWhitespace err).find? fun tok =>
    match tok.toList with
    | [c, '.', s, '.', d] => c.isDigit && s.isDigit && d.isDigit
    | _ => false

/-- What `map_send_error` makes of the code it found, by the first and the third byte. -/
def statusError (rendered : String) (code : String) : Option RelayError :=
  match code.toList with
  | '5' :: _ :: '2' :: _ => some (.temporary rendered)
  | '5' :: _ => some (.permanent rendered)
  | '4' :: _ => some (.temporary rendered)
  | _ => none

variable (M : MailSend)

/-- `map_send_error`. -/
def mapSendError (err : MailSendError) : RelayError :=
  let rendered := M.render err
  match err with
  | .authenticationFailed _ => .permanent rendered
  | _ =>
    match (parseEnhancedStatus rendered).bind (statusError rendered) with
    | some failure => failure
    | none =>
      match err with
      | .unexpectedReply reply =>
        if 500 ≤ reply.code then .permanent rendered else .temporary rendered
      | _ => .temporary rendered

/-- What came of the calls into the SMTP client: of `new`, of `connect` and of `send` on that
connection, and the same in plaintext. -/
structure Dialogue where
  builder : Except String Unit
  connect : Except MailSendError (Except MailSendError Unit)
  plain : Except MailSendError (Except MailSendError Unit)

/-- A connection, and the message over it; its errors are mapped. -/
def sendOver (client : Except MailSendError (Except MailSendError Unit)) :
    Except RelayError Unit :=
  match client with
  | .error err => .error (mapSendError M err)
  | .ok sent => sent.mapError (mapSendError M)

/-- `deliver_to`. -/
def deliverTo (d : Dialogue) : Except RelayError Unit :=
  match d.builder with
  | .error text => .error (.dns text)
  | .ok _ =>
    match d.connect with
    | .ok sent => sent.mapError (mapSendError M)
    | .error (.unexpectedReply reply) =>
      if 500 ≤ reply.code then .error (.permanent ("rejected: " ++ M.debug reply))
      else sendOver M d.plain
    | .error _ => sendOver M d.plain

/-- The relays of a domain, in order: the first success or permanent failure counts. -/
def tryRelays (last : Option RelayError) : List Dialogue → Except RelayError Unit
  | [] => .error (last.getD (.temporary "no relay reachable"))
  | d :: rest =>
    match deliverTo M d with
    | .ok _ => .ok ()
    | .error (.permanent text) => .error (.permanent text)
    | .error err => tryRelays (some err) rest

/-- `attempt`, with what `get_blob` and the router answered. -/
def attemptRelays (domain : String) (blob : Except String Unit)
    (relays : Except RelayError (List Dialogue)) : Except RelayError Unit :=
  match blob with
  | .error text => .error (.storage text)
  | .ok _ =>
    match relays with
    | .error err => .error err
    | .ok [] => .error (.temporary ("no relays for " ++ domain))
    | .ok relays => tryRelays M none relays

/-- The text of an error. -/
def RelayError.text : RelayError → String
  | .dns text => "dns: " ++ text
  | .storage text => "storage: " ++ text
  | .permanent text => "permanent failure: " ++ text
  | .temporary text => "temporary failure: " ++ text

/-- What `process_item` goes by. -/
def deliveryResult : Except RelayError Unit → DeliveryResult
  | .ok _ => .ok
  | .error (.permanent text) => .permanent text
  | .error err => .other err.text

/-! ## The policy -/

/-- Worth a retry, or not. -/
inductive FailureClass where
  | permanent
  | temporary
  deriving DecidableEq, Repr

/-- How an error is classified. -/
def RelayError.failure : RelayError → Option FailureClass
  | .permanent _ => some .permanent
  | .temporary _ => some .temporary
  | _ => none

/-- The class of an enhanced status code: `4.x.x` and `5.2.x` are transient, other `5.x.x`
permanent, and the rest says nothing. -/
def Enhanced.failure (e : Enhanced) : Option FailureClass :=
  if e.cls = 4 ∨ e.cls = 5 ∧ e.subject = 2 then some .temporary
  else if e.cls = 5 then some .permanent
  else none

/-- The class of a reply code. -/
def codeFailure (code : ℕ) : FailureClass := if 500 ≤ code then .permanent else .temporary

/-- The class of a reply: by its enhanced status code, or else by its code. -/
def Reply.policy (r : Reply) : FailureClass :=
  (r.enhanced.bind Enhanced.failure).getD (codeFailure r.code)

/-- When a relay gives a reply. -/
inductive Phase where
  /-- at the greeting, EHLO or STARTTLS, and at the plaintext connection that may follow -/
  | connect
  /-- at the plaintext connection, after TLS failed -/
  | plainConnect
  /-- at MAIL, RCPT or DATA -/
  | send
  /-- at MAIL, RCPT or DATA in plaintext, after TLS failed -/
  | plainSend
  deriving DecidableEq, Repr

/-- The relay gives the reply in the phase. -/
def Gives (r : Reply) (d : Dialogue) : Phase → Prop
  | .connect => d.connect = .error (.unexpectedReply r) ∧ d.plain = .error (.unexpectedReply r)
  | .plainConnect => (∃ text, d.connect = .error (.other text)) ∧
      d.plain = .error (.unexpectedReply r)
  | .send => d.connect = .ok (.error (.unexpectedReply r))
  | .plainSend => (∃ text, d.connect = .error (.other text)) ∧
      d.plain = .ok (.error (.unexpectedReply r))

/-- The reply is classified by the policy, whenever it is given. -/
def OnePolicy (r : Reply) : Prop :=
  ∀ phase d, d.builder = .ok () → Gives r d phase →
    ∃ err, deliverTo M d = .error err ∧ err.failure = some r.policy

/-- The class of the code that is found in a text. -/
def foundFailure (text : String) : Option FailureClass :=
  (parseEnhancedStatus text).bind fun code => (statusError text code).bind RelayError.failure

/-- The reply code, the reply's enhanced status code and the first word of the rendered error that
looks like one do not contradict each other. -/
def Unanimous (r : Reply) : Prop :=
  if 500 ≤ r.code then r.enhanced.bind Enhanced.failure ≠ some .temporary ∧
    foundFailure (M.render (.unexpectedReply r)) ≠ some .temporary
  else foundFailure (M.render (.unexpectedReply r)) = some .permanent ↔
    r.enhanced.bind Enhanced.failure = some .permanent

/-! ## What the code decides -/

variable {M} {r : Reply}

/-- A code that is found is permanent or temporary. -/
theorem statusError_failure {rendered code : String} {err : RelayError}
    (h : statusError rendered code = some err) : ∃ c, err.failure = some c := by
  unfold statusError at h
  split at h
  · obtain rfl := Option.some.inj h
    exact ⟨_, rfl⟩
  · obtain rfl := Option.some.inj h
    exact ⟨_, rfl⟩
  · obtain rfl := Option.some.inj h
    exact ⟨_, rfl⟩
  · cases h

/-- `map_send_error` goes by the code in the text, or else by the reply code. -/
theorem mapSendError_failure :
    (mapSendError M (.unexpectedReply r)).failure =
      some ((foundFailure (M.render (.unexpectedReply r))).getD (codeFailure r.code)) := by
  unfold mapSendError foundFailure
  dsimp only
  rcases parseEnhancedStatus (M.render (.unexpectedReply r)) with _ | code
  · simp only [Option.bind_none, codeFailure, Option.getD_none]
    split <;> rfl
  · rw [Option.bind_some, Option.bind_some]
    rcases hstatus : statusError (M.render (.unexpectedReply r)) code with _ | err
    · simp only [Option.bind_none, codeFailure, Option.getD_none]
      split <;> rfl
    · obtain ⟨c, hc⟩ := statusError_failure hstatus
      rw [Option.bind_some, hc]
      rfl

/-- In every phase but the first the reply is mapped. -/
theorem deliverTo_mapped {phase : Phase} {d : Dialogue} (hbuilder : d.builder = .ok ())
    (h : Gives r d phase) (hphase : phase = .connect → r.code < 500) :
    deliverTo M d = .error (mapSendError M (.unexpectedReply r)) := by
  unfold deliverTo
  rw [hbuilder]
  cases phase with
  | connect =>
    obtain ⟨hconnect, hplain⟩ := h
    simp only [hconnect, hplain]
    rw [if_neg (Nat.not_le.mpr (hphase rfl))]
    rfl
  | plainConnect =>
    obtain ⟨⟨text, hconnect⟩, hplain⟩ := h
    simp only [hconnect, hplain]
    rfl
  | send =>
    simp only [show d.connect = _ from h]
    rfl
  | plainSend =>
    obtain ⟨⟨text, hconnect⟩, hplain⟩ := h
    simp only [hconnect, hplain]
    rfl

/-- At the connection a reply from 500 on is permanent. -/
theorem deliverTo_rejected {d : Dialogue} (hbuilder : d.builder = .ok ())
    (h : d.connect = .error (.unexpectedReply r)) (hcode : 500 ≤ r.code) :
    deliverTo M d = .error (.permanent ("rejected: " ++ M.debug r)) := by
  unfold deliverTo
  rw [hbuilder]
  simp only [h]
  rw [if_pos hcode]

/-- Each phase can be reached. -/
theorem gives_exists (r : Reply) (phase : Phase) :
    ∃ d : Dialogue, d.builder = .ok () ∧ Gives r d phase := by
  let bad : Except MailSendError (Except MailSendError Unit) := .error (.unexpectedReply r)
  let noTls : Except MailSendError (Except MailSendError Unit) := .error (.other "")
  let refused : Except MailSendError (Except MailSendError Unit) :=
    .ok (.error (.unexpectedReply r))
  cases phase with
  | connect => exact ⟨⟨.ok (), bad, bad⟩, rfl, rfl, rfl⟩
  | plainConnect => exact ⟨⟨.ok (), noTls, bad⟩, rfl, ⟨"", rfl⟩, rfl⟩
  | send => exact ⟨⟨.ok (), refused, bad⟩, rfl, rfl⟩
  | plainSend => exact ⟨⟨.ok (), noTls, refused⟩, rfl, ⟨"", rfl⟩, rfl⟩

/-- **One policy**, phase by phase: the mapped class, and that of the rejection, are the
reply's. -/
theorem onePolicy_iff_classes : OnePolicy M r ↔
    (foundFailure (M.render (.unexpectedReply r))).getD (codeFailure r.code) = r.policy ∧
      (500 ≤ r.code → r.policy = .permanent) := by
  constructor
  · intro h
    refine ⟨?_, fun hcode => ?_⟩
    · obtain ⟨d, hbuilder, hgives⟩ := gives_exists r .send
      obtain ⟨err, herr, hclass⟩ := h .send d hbuilder hgives
      rw [deliverTo_mapped hbuilder hgives nofun] at herr
      obtain rfl := Except.error.inj herr
      rw [mapSendError_failure] at hclass
      exact Option.some.inj hclass
    · obtain ⟨d, hbuilder, hgives⟩ := gives_exists r .connect
      obtain ⟨err, herr, hclass⟩ := h .connect d hbuilder hgives
      rw [deliverTo_rejected hbuilder hgives.1 hcode] at herr
      obtain rfl := Except.error.inj herr
      exact (Option.some.inj hclass).symm
  · rintro ⟨hmapped, hrejected⟩ phase d hbuilder hgives
    by_cases hfirst : phase = .connect ∧ 500 ≤ r.code
    · obtain ⟨rfl, hcode⟩ := hfirst
      exact ⟨_, deliverTo_rejected hbuilder hgives.1 hcode, congrArg some (hrejected hcode).symm⟩
    · refine ⟨_, deliverTo_mapped hbuilder hgives fun hphase => ?_, ?_⟩
      · exact Nat.not_le.mp fun hcode => hfirst ⟨hphase, hcode⟩
      · rw [mapSendError_failure, hmapped]

/-- **One failure policy.** A reply is classified by the documented rules in every phase exactly
when nothing contradicts its enhanced status code. -/
theorem onePolicy_iff : OnePolicy M r ↔ Unanimous M r := by
  rw [onePolicy_iff_classes]
  unfold Unanimous Reply.policy codeFailure
  rcases foundFailure (M.render (.unexpectedReply r)) with _ | _ | _ <;>
    rcases r.enhanced.bind Enhanced.failure with _ | _ | _ <;>
    by_cases hcode : 500 ≤ r.code <;> simp [hcode]

/-- A mailbox that is full, as relays say it. -/
def mailboxFull : Reply where
  code := 552
  enhanced := some ⟨5, 2, 2⟩
  text := "Mailbox full"

/-- **A full mailbox** is worth a retry, and is permanent at the connection. -/
theorem not_onePolicy_mailboxFull : ¬∃ M : MailSend, OnePolicy M mailboxFull := by
  rintro ⟨M, h⟩
  obtain ⟨d, hbuilder, hgives⟩ := gives_exists mailboxFull .connect
  obtain ⟨err, herr, hclass⟩ := h .connect d hbuilder hgives
  rw [deliverTo_rejected hbuilder hgives.1 (by decide)] at herr
  obtain rfl := Except.error.inj herr
  have hpolicy : mailboxFull.policy = .temporary := by decide
  rw [hpolicy] at hclass
  cases hclass

/-! ## The relays of a domain -/

/-- An answer after which no further relay is asked. -/
def Final : Except RelayError Unit → Prop
  | .ok _ => True
  | .error err => err.failure = some .permanent

variable (M) in
/-- The first relay that settles the matter gives the answer: those before it failed, but only for
the time being. -/
def Settles (relays : List Dialogue) (answer : Except RelayError Unit) : Prop :=
  ∃ pre d post, relays = pre ++ d :: post ∧ deliverTo M d = answer ∧ Final answer ∧
    ∀ x ∈ pre, ¬Final (deliverTo M x)

/-- The next relay is asked exactly if this one settles nothing. -/
theorem tryRelays_cons (last : Option RelayError) (d : Dialogue) (rest : List Dialogue) :
    (Final (deliverTo M d) ∧ tryRelays M last (d :: rest) = deliverTo M d) ∨
      ∃ err, ¬Final (.error err) ∧ deliverTo M d = .error err ∧
        tryRelays M last (d :: rest) = tryRelays M (some err) rest := by
  rw [tryRelays]
  rcases deliverTo M d with err | _
  · cases err with
    | permanent text => exact .inl ⟨rfl, rfl⟩
    | dns | storage | temporary => exact .inr ⟨_, by simp [Final, RelayError.failure], rfl, rfl⟩
  · exact .inl ⟨trivial, rfl⟩

theorem settles_cons_of_final {d : Dialogue} {rest : List Dialogue}
    {answer : Except RelayError Unit} (hd : Final (deliverTo M d)) :
    Settles M (d :: rest) answer ↔ deliverTo M d = answer := by
  constructor
  · rintro ⟨pre, x, post, hsplit, hx, -, hpre⟩
    rcases pre with _ | ⟨y, pre⟩
    · obtain ⟨rfl, -⟩ := List.cons.inj hsplit
      exact hx
    · obtain ⟨rfl, -⟩ := List.cons.inj hsplit
      exact absurd hd (hpre d List.mem_cons_self)
  · rintro rfl
    exact ⟨[], d, rest, rfl, rfl, hd, by simp⟩

theorem settles_cons_of_not_final {d : Dialogue} {rest : List Dialogue}
    {answer : Except RelayError Unit} (hd : ¬Final (deliverTo M d)) :
    Settles M (d :: rest) answer ↔ Settles M rest answer := by
  constructor
  · rintro ⟨pre, x, post, hsplit, hx, hfinal, hpre⟩
    rcases pre with _ | ⟨y, pre⟩
    · obtain ⟨rfl, -⟩ := List.cons.inj hsplit
      exact absurd (hx ▸ hfinal) hd
    · obtain ⟨rfl, rfl⟩ := List.cons.inj hsplit
      exact ⟨pre, x, post, rfl, hx, hfinal, fun z hz => hpre z (List.mem_cons_of_mem _ hz)⟩
  · rintro ⟨pre, x, post, rfl, hx, hfinal, hpre⟩
    exact ⟨d :: pre, x, post, rfl, hx, hfinal, List.forall_mem_cons.mpr ⟨hd, hpre⟩⟩

/-- **The relays, one after the other.** What settles the matter is the answer of the first relay
that does. -/
theorem tryRelays_eq_iff {relays : List Dialogue} {answer : Except RelayError Unit}
    {last : Option RelayError} (hlast : ∀ err ∈ last, ¬Final (.error err)) (hfinal : Final answer) :
    tryRelays M last relays = answer ↔ Settles M relays answer := by
  induction relays generalizing last with
  | nil =>
    constructor
    · intro h
      obtain rfl : _ = answer := h
      cases last with
      | none => cases hfinal
      | some err => exact absurd hfinal (hlast err rfl)
    · rintro ⟨pre, d, post, hsplit, -⟩
      simp at hsplit
  | cons d rest ih =>
    -- a relay that settles nothing only leaves its error, which is no permanent one
    rcases @tryRelays_cons M last d rest with ⟨hd, htry⟩ | ⟨err, herr, hd, htry⟩
    · rw [htry, settles_cons_of_final hd]
    · have hsome : ∀ e ∈ some err, ¬Final (.error e) := by
        rintro e he
        obtain rfl := Option.some.inj he
        exact herr
      rw [htry, settles_cons_of_not_final (hd ▸ herr), ih hsome]

/-- What an attempt settles: nothing without the message, and what the router refused for good,
or the relays. -/
theorem attemptRelays_eq_iff {domain : String} {blob : Except String Unit}
    {relays : Except RelayError (List Dialogue)} {answer : Except RelayError Unit}
    (hfinal : Final answer) :
    attemptRelays M domain blob relays = answer ↔ blob = .ok () ∧
      ((∃ err, relays = .error err ∧ answer = .error err) ∨
        ∃ list, relays = .ok list ∧ Settles M list answer) := by
  rcases blob with err | ⟨⟩
  · rw [attemptRelays]
    constructor
    · rintro rfl
      cases hfinal
    · rintro ⟨hblob, -⟩
      cases hblob
  rcases relays with err | relays
  · simp [attemptRelays, eq_comm]
  cases relays with
  | nil =>
    -- no relays at all is a failure for the time being
    rw [attemptRelays]
    constructor
    · rintro rfl
      cases hfinal
    · rintro ⟨-, ⟨err, herr, -⟩ | ⟨list, hlist, pre, d, post, hsplit, -⟩⟩
      · cases herr
      · obtain rfl := Except.ok.inj hlist
        simp at hsplit
  | cons d rest =>
    have htries : attemptRelays M domain (.ok ()) (.ok (d :: rest)) =
      tryRelays M none (d :: rest) := rfl
    rw [htries, tryRelays_eq_iff (by simp) hfinal]
    simp

section Outcomes

variable (M) (blob : Except String Unit) (relays : Except RelayError (List Dialogue))

/-- What `process_item` decides after an attempt. -/
def itemOutcome (item : QueueItem) (now frac : ℤ) : AttemptOutcome :=
  attemptOutcome item now frac (deliveryResult (attemptRelays M item.domain blob relays))

/-- A relay took the message. -/
def TakenByRelay : Prop := blob = .ok () ∧ ∃ list, relays = .ok list ∧ Settles M list (.ok ())

/-- The router or a relay refused the message for good. -/
def RefusedForGood (text : String) : Prop :=
  blob = .ok () ∧ (relays = .error (.permanent text) ∨
    ∃ list, relays = .ok list ∧ Settles M list (.error (.permanent text)))

variable {M blob relays}

theorem deliveryResult_ok {res : Except RelayError Unit} :
    deliveryResult res = .ok ↔ res = .ok () := by
  rcases res with err | ⟨⟩
  · cases err <;> simp [deliveryResult]
  · simp [deliveryResult]

theorem deliveryResult_permanent {res : Except RelayError Unit} {text : String} :
    deliveryResult res = .permanent text ↔ res = .error (.permanent text) := by
  rcases res with err | ⟨⟩
  · cases err <;> simp [deliveryResult]
  · simp [deliveryResult]

theorem attempt_ok (domain : String) :
    deliveryResult (attemptRelays M domain blob relays) = .ok ↔ TakenByRelay M blob relays := by
  have hfinal : Final (.ok ()) := trivial
  rw [deliveryResult_ok, attemptRelays_eq_iff hfinal]
  simp [TakenByRelay]

theorem attempt_permanent (domain text : String) :
    deliveryResult (attemptRelays M domain blob relays) = .permanent text ↔
      RefusedForGood M blob relays text := by
  have hfinal : Final (.error (.permanent text)) := rfl
  rw [deliveryResult_permanent, attemptRelays_eq_iff hfinal]
  simp [RefusedForGood, eq_comm]

/-- Both schedules end after nine attempts. -/
theorem attemptOutcome_other (item : QueueItem) (now frac : ℤ) (text : String) :
    if item.attempts < 9 then ∃ next, attemptOutcome item now frac (.other text) = .retry text next
    else attemptOutcome item now frac (.other text) = .failed ("retries exhausted: " ++ text) := by
  have hlength : (if item.priority = 1 then chatBackoff else backoff).length = 9 := by
    split <;> rfl
  dsimp only [attemptOutcome]
  rcases hdelay : (if item.priority = 1 then chatBackoff else backoff)[item.attempts]?
    with _ | delay
  · have hlast := List.getElem?_eq_none_iff.mp hdelay
    rw [hlength] at hlast
    rw [if_neg (Nat.not_lt.mpr hlast)]
  · obtain ⟨hlast, -⟩ := List.getElem?_eq_some_iff.mp hdelay
    rw [hlength] at hlast
    rw [if_pos hlast]
    exact ⟨_, rfl⟩

/-- **The end of a queued message.** An attempt delivers it exactly if a relay takes it after those
before it failed for the time being. As long as the schedule lasts, it gives it up exactly if the
router or a relay refuses it for good, and else tries again; after that it gives up whatever is
not delivered. -/
theorem itemOutcome_iff (item : QueueItem) (now frac : ℤ) :
    (itemOutcome M blob relays item now frac = .delivered ↔ TakenByRelay M blob relays) ∧
      (item.attempts < 9 → ∀ error, itemOutcome M blob relays item now frac = .failed error ↔
        RefusedForGood M blob relays error) ∧
      (9 ≤ item.attempts → ((∃ error, itemOutcome M blob relays item now frac = .failed error) ↔
        ¬TakenByRelay M blob relays)) := by
  have hok := @attempt_ok M blob relays item.domain
  have hpermanent := @attempt_permanent M blob relays item.domain
  rw [← hok]
  simp only [← hpermanent, itemOutcome]
  cases deliveryResult (attemptRelays M item.domain blob relays) with
  | ok => simp [attemptOutcome]
  | permanent text => simp [attemptOutcome]
  | other text =>
    have hother := attemptOutcome_other item now frac text
    split_ifs at hother with hlast
    · obtain ⟨next, hnext⟩ := hother
      simp [hnext, Nat.not_le.mpr hlast]
    · simp [hother, hlast]

end Outcomes

end Owney
