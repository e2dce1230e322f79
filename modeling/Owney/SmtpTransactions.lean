import Owney.SmtpSession
import Mathlib.Data.List.Induction

/-!
# SMTP transactions

A mail is handed over for the transaction that is open: its sender is the one of the last
MAIL, its recipients are those accepted since, and nothing has ended the transaction in
between. `transaction` reads the open transaction off what happened, `SessionInv` says that
the session holds just that, and `transactionSafe` is the statement for every connection
that any bytes of a client, in any reads, can lead to.
-/

namespace Owney.Smtp

/-! ## Transactions -/

/-- What ends a transaction: EHLO, HELO, RSET, the handshake, a completed DATA. -/
def Happened.Ends : Happened → Prop
  | .reset | .upgraded | .delivered _ _ _ | .discarded => True
  | .mail _ | .rcpt _ _ => False

/-- The recipient that was accepted. -/
def Happened.accepted : Happened → Option String
  | .rcpt address .accept => some address
  | _ => none

/-- The open transaction, after one thing more. -/
def Happened.next (t : Option String × List String) : Happened → Option String × List String
  | .mail address => (some address, [])
  | .rcpt address .accept => (t.1, t.2 ++ [address])
  | .rcpt _ _ => t
  | .reset | .upgraded | .delivered _ _ _ | .discarded => (none, [])

/-- The sender and the recipients of the transaction that is open. -/
def transaction (log : List Happened) : Option String × List String :=
  log.foldl Happened.next (none, [])

theorem transaction_concat (log : List Happened) (h : Happened) :
    transaction (log ++ [h]) = h.next (transaction log) := by
  simp [transaction]

/-- The open transaction began with a MAIL, and since then the handler was asked about
recipients only. -/
theorem mail_of_transaction {log : List Happened} {sender : String} {recipients : List String}
    (h : transaction log = (some sender, recipients)) :
    ∃ before since, log = before ++ .mail sender :: since ∧
      (∀ happened ∈ since, ∃ address verdict, happened = .rcpt address verdict) ∧
      recipients = since.filterMap Happened.accepted := by
  induction log using List.reverseRecOn generalizing recipients with
  | nil => cases h
  | append_singleton log last ih =>
    rw [transaction_concat] at h
    cases last with
    | mail address =>
      cases h
      exact ⟨log, [], rfl, fun _ hmem => absurd hmem List.not_mem_nil, rfl⟩
    | rcpt address verdict =>
      have hopen : ∃ earlier, transaction log = (some sender, earlier) ∧
          recipients = earlier ++ (Happened.accepted (.rcpt address verdict)).toList := by
        cases verdict with
        | accept =>
          obtain ⟨hsender, rfl⟩ := Prod.mk.inj h
          exact ⟨_, Prod.ext hsender rfl, rfl⟩
        | unknownUser | notLocal | tryAgainLater =>
          exact ⟨recipients, h, (List.append_nil _).symm⟩
      obtain ⟨earlier, hlog, rfl⟩ := hopen
      obtain ⟨before, since, rfl, hsince, rfl⟩ := ih hlog
      refine ⟨before, since ++ [.rcpt address verdict], by simp, fun happened hmem => ?_, ?_⟩
      · rcases List.mem_append.mp hmem with hmem | hmem
        · exact hsince happened hmem
        · exact ⟨address, verdict, List.mem_singleton.mp hmem⟩
      · rw [List.filterMap_append]
        cases verdict <;> rfl
    | reset | upgraded | delivered | discarded => cases h

/-! ## What is promised -/

section Server

variable {R D W : Type} (S : Server R D W)

/-- A mail belongs to the transaction that is open after `log`, within the limits. -/
structure Server.Fits (log : List Happened) (mail : InboundMail) (data : List UInt8) : Prop where
  /-- The sender is the one of the last MAIL; nothing has ended the transaction since, and
  the recipients are those accepted since. -/
  transaction : ∃ before since, log = before ++ .mail mail.mailFrom :: since ∧
    (∀ happened ∈ since, ∃ address verdict, happened = .rcpt address verdict) ∧
    mail.recipients = since.filterMap Happened.accepted
  nonempty : 1 ≤ mail.recipients.length
  bounded : mail.recipients.length ≤ S.params.maxRecipients
  /-- The body, below the trace header. -/
  body : data.length ≤ S.params.maxMessageSize ∧
    ∃ header : String, mail.raw = header.toUTF8.toList ++ data

/-- **What is promised** of a connection. -/
structure Server.Safe (session : Session D) (log : List Happened) : Prop where
  delivered : ∀ pre mail data result post, log = pre ++ .delivered mail data result :: post →
    S.Fits pre mail data
  ended : ∀ pre last, log = pre ++ [last] → last.Ends →
    session.mailFrom = none ∧ session.recipients = []
  sender : session.recipients ≠ [] → session.mailFrom.isSome

/-- The connections that a client can lead to, and what comes next: `drain` some bytes,
`wait` for a read, go through the handshake, or nothing. -/
inductive Server.Reached : Conn R D W → Next → Prop where
  | greet (world : W) : Reached (S.greet world) .wait
  | read {c : Conn R D W} (bytes : List UInt8) : Reached c .wait →
      Reached { c with out := "" } (.drain bytes)
  | turn {c : Conn R D W} {bytes : List UInt8} : Reached c (.drain bytes) →
      Reached (S.turn c bytes).1 (S.turn c bytes).2
  | written {c : Conn R D W} {next : Next} : Reached c next → Reached c.flush next
  | expired {c : Conn R D W} (line : String) : Reached c .wait →
      Reached (({ c with out := "" } : Conn R D W).reply line) .close
  | lost {c : Conn R D W} {next : Next} : Reached c next → Reached c .close
  | handshake {c : Conn R D W} (world : W) : Reached c .startTls →
      Reached (S.upgrade c world) .wait

/-- **What is promised** of a server: every run of a connection goes through connections
that are reached, and each of these is safe. -/
structure Server.TransactionSafe : Prop where
  runs : ∀ world plain handshake tls,
    ∃ next, S.Reached (S.serveConnection world plain handshake tls) next
  safe : ∀ c next, S.Reached c next → S.Safe c.session c.log

/-! ## The invariant -/

/-- The session holds the open transaction; while a message is collected there is someone
to deliver it to. -/
structure Server.SessionInv (session : Session D) (log : List Happened) : Prop where
  opened : Smtp.transaction log = (session.mailFrom, session.recipients)
  sender : session.recipients ≠ [] → session.mailFrom.isSome
  bounded : session.recipients.length ≤ S.params.maxRecipients
  collecting : ∀ receiver data discarding, session.mode = .data receiver data discarding →
    session.recipients ≠ [] ∧ (discarding = false → data.length ≤ S.params.maxMessageSize)
  delivered : ∀ pre mail data result post, log = pre ++ .delivered mail data result :: post →
    S.Fits pre mail data

variable {S} {session : Session D} {log : List Happened}

/-- What was delivered before, and what is delivered now. -/
theorem Server.SessionInv.delivered_concat (h : S.SessionInv session log) {last : Happened}
    (hlast : ∀ mail data result, last = .delivered mail data result → S.Fits log mail data) :
    ∀ pre mail data result post, log ++ [last] = pre ++ .delivered mail data result :: post →
      S.Fits pre mail data := by
  intro pre mail data result post heq
  rcases List.eq_nil_or_concat post with rfl | ⟨post, x, rfl⟩
  · obtain ⟨rfl, hx⟩ := List.append_inj' heq rfl
    exact hlast mail data result (List.singleton_inj.mp hx)
  · rw [List.concat_eq_append, ← List.cons_append, ← List.append_assoc] at heq
    exact h.delivered pre mail data result post (List.append_inj' heq rfl).1

/-- Something that is no delivery and leaves no message to collect. -/
theorem Server.SessionInv.concat (h : S.SessionInv session log) {last : Happened}
    {session' : Session D} (hlast : ∀ mail data result, last ≠ .delivered mail data result)
    (hmode : session'.mode = .command)
    (hopened : last.next (session.mailFrom, session.recipients) =
      (session'.mailFrom, session'.recipients))
    (hsender : session'.recipients ≠ [] → session'.mailFrom.isSome)
    (hbounded : session'.recipients.length ≤ S.params.maxRecipients) :
    S.SessionInv session' (log ++ [last]) where
  opened := by rw [transaction_concat, h.opened, hopened]
  sender := hsender
  bounded := hbounded
  collecting receiver data discarding hdata := by
    rw [hmode] at hdata
    cases hdata
  delivered := h.delivered_concat fun mail data result hd => absurd hd (hlast mail data result)

/-- The end of a transaction without a delivery. -/
theorem Server.SessionInv.reset (h : S.SessionInv session log) {last : Happened}
    {session' : Session D} (hends : last.Ends)
    (hlast : ∀ mail data result, last ≠ .delivered mail data result)
    (hmode : session'.mode = .command) (hmailFrom : session'.mailFrom = none)
    (hrecipients : session'.recipients = []) :
    S.SessionInv session' (log ++ [last]) := by
  refine h.concat hlast hmode ?_ (fun hne => absurd hrecipients hne) (by simp [hrecipients])
  rw [hmailFrom, hrecipients]
  cases last <;> first | rfl | cases hends

/-- The invariant gives what is promised. -/
theorem Server.SessionInv.safe (h : S.SessionInv session log) : S.Safe session log where
  delivered := h.delivered
  sender := h.sender
  ended pre last hlog hends := by
    have hopened := h.opened
    rw [hlog, transaction_concat] at hopened
    cases last with
    | reset | upgraded | delivered | discarded => exact ⟨congrArg Prod.fst hopened.symm,
        congrArg Prod.snd hopened.symm⟩
    | mail | rcpt => cases hends

/-! ## Every step keeps it -/

variable {c : Conn R D W}

theorem applyMail_inv (h : S.SessionInv c.session c.log) (hmode : c.session.mode = .command)
    (address : String) (size : ℕ) :
    S.SessionInv (S.applyMail c address size).session (S.applyMail c address size).log := by
  unfold Server.applyMail
  split_ifs with hnested
  · exact h
  · exact h
  · -- No sender, so no recipients either.
    have hnone : c.session.recipients = [] := by
      by_contra hne
      exact hnested (h.sender hne)
    refine h.concat (fun _ _ _ => nofun) hmode ?_ (fun _ => rfl) h.bounded
    simp [Happened.next, hnone]

theorem applyRcpt_inv (h : S.SessionInv c.session c.log) (hmode : c.session.mode = .command)
    (address : String) :
    S.SessionInv (S.applyRcpt c address).session (S.applyRcpt c address).log := by
  unfold Server.applyRcpt
  split_ifs with hsender hfull
  · exact h
  · exact h
  · rcases S.handler.rcpt c.world address with ⟨verdict, world⟩
    cases verdict with
    | accept =>
      refine h.concat (fun _ _ _ => nofun) hmode rfl (fun _ => ?_) ?_
      · exact Option.isSome_iff_ne_none.mpr fun hnone => hsender (Option.isNone_iff_eq_none.mpr hnone)
      · simpa [Nat.succ_le_iff] using hfull
    | unknownUser | notLocal | tryAgainLater =>
      exact h.concat (fun _ _ _ => nofun) hmode rfl h.sender h.bounded

theorem applyData_inv (h : S.SessionInv c.session c.log) :
    S.SessionInv (S.applyData c).session (S.applyData c).log := by
  unfold Server.applyData
  split_ifs with hempty
  · exact h
  · refine ⟨h.opened, h.sender, h.bounded, fun receiver data discarding hdata => ?_, h.delivered⟩
    cases hdata
    exact ⟨hempty, fun _ => Nat.zero_le _⟩

theorem apply_inv (h : S.SessionInv c.session c.log) (hmode : c.session.mode = .command)
    (request : Request) :
    S.SessionInv (S.apply c request).1.session (S.apply c request).1.log := by
  cases request with
  | ehlo | helo | rset => exact h.reset trivial (fun _ _ _ => nofun) hmode rfl rfl
  | mail address size => exact applyMail_inv h hmode address size
  | rcpt address => exact applyRcpt_inv h hmode address
  | data => exact applyData_inv h
  | startTls =>
    unfold Server.apply
    split_ifs <;> exact h
  | noop | quit | vrfy | expn | auth | bdat | lhlo | help | etrn | atrn | burl => exact h

theorem protocolError_inv (h : S.SessionInv c.session c.log) (e : SmtpError) :
    S.SessionInv (S.protocolError c e).1.session (S.protocolError c e).1.log := by
  have hcounted : S.SessionInv { c.session with errors := c.session.errors + 1 } c.log :=
    ⟨h.opened, h.sender, h.bounded, h.collecting, h.delivered⟩
  unfold Server.protocolError
  dsimp only
  split_ifs
  · exact h
  · exact hcounted
  · exact hcounted

theorem finishData_inv (h : S.SessionInv c.session c.log) :
    S.SessionInv (S.finishData c).session (S.finishData c).log := by
  unfold Server.finishData
  split
  · exact h
  · next receiver data discarding hmode =>
    obtain ⟨hrecipients, hsize⟩ := h.collecting receiver data discarding hmode
    dsimp only
    split_ifs with hdiscarding
    · exact h.reset trivial (fun _ _ _ => nofun) rfl rfl rfl
    · obtain ⟨sender, hsender⟩ := Option.isSome_iff_exists.mp (h.sender hrecipients)
      refine ⟨?_, fun hne => absurd rfl hne, Nat.zero_le _, fun _ _ _ hdata => ?_,
        h.delivered_concat ?_⟩
      · simp [transaction_concat, Happened.next, Session.resetTransaction, Conn.note,
          Conn.onSession, Conn.reply]
      · cases hdata
      · rintro mail data result ⟨⟩
        refine ⟨?_, ?_, h.bounded, hsize (Bool.eq_false_iff.mpr hdiscarding), _, rfl⟩
        · refine mail_of_transaction (h.opened.trans ?_)
          simp [Server.inboundMail, hsender]
        · exact List.length_pos_iff.mpr hrecipients

/-- **One turn** of the inner loop keeps the invariant. -/
theorem turn_inv (h : S.SessionInv c.session c.log) (bytes : List UInt8) :
    S.SessionInv (S.turn c bytes).1.session (S.turn c bytes).1.log := by
  rcases hmode : c.session.mode with _ | ⟨receiver, data, discarding⟩
  · rw [S.turn_of_command hmode, Server.turnCommand]
    split
    · exact h
    · next request receiver rest _ =>
      exact apply_inv (c := { c with receiver := receiver }) h hmode request
    · next e receiver rest _ => exact protocolError_inv (c := { c with receiver := receiver }) h e
  · have hcollected : S.SessionInv (S.collect c receiver data discarding bytes).session
        (S.collect c receiver data discarding bytes).log := by
      obtain ⟨hrecipients, hsize⟩ := h.collecting receiver data discarding hmode
      refine ⟨h.opened, h.sender, h.bounded, fun receiver' data' discarding' hdata => ?_,
        h.delivered⟩
      refine ⟨hrecipients, fun hfalse => ?_⟩
      subst hfalse
      simp only [Server.collect, Conn.onSession_session, Server.collected] at hdata
      split_ifs at hdata with hlarge <;> cases hdata
      omega
    rw [S.turn_of_data hmode, Server.turnData]
    split
    · exact hcollected
    · exact finishData_inv hcollected

/-- **Every connection** keeps the invariant. -/
theorem reached_inv {next : Next} (h : S.Reached c next) : S.SessionInv c.session c.log := by
  induction h with
  | greet world =>
    refine ⟨rfl, fun hne => absurd rfl hne, Nat.zero_le _, fun _ _ _ hdata => ?_,
      fun pre _ _ _ _ hlog => ?_⟩
    · cases hdata
    · exact absurd hlog.symm (List.append_ne_nil_of_right_ne_nil _ (List.cons_ne_nil _ _))
  | read _ _ ih | written _ ih | expired _ _ ih | lost _ ih => exact ih
  | turn _ ih => exact turn_inv ih _
  | handshake _ _ ih => exact ih.reset trivial (fun _ _ _ => nofun) rfl rfl rfl

/-! ## Runs -/

theorem reached_drain {bytes : List UInt8} (h : S.Reached c (.drain bytes)) :
    S.Reached (S.drain c bytes).1 (S.drain c bytes).2.next := by
  induction hn : bytes.length using Nat.strong_induction_on generalizing c bytes with
  | _ n ih =>
    have hnext := h.turn
    rcases S.drain_cases c bytes with ⟨c', rest, hturn, hdrain, hlt⟩ | ⟨c', stop, hturn, hdrain⟩
    · rw [hturn] at hnext
      rw [hdrain]
      exact ih rest.length (hn ▸ hlt) hnext rfl
    · rw [hturn] at hnext
      rw [hdrain]
      exact hnext

theorem reached_event (h : S.Reached c .wait) (e : Server.Event) :
    S.Reached (S.onEvent c e).1 (S.onEvent c e).2.next := by
  cases e with
  | read bytes written =>
    have hdrain := reached_drain (h.read bytes)
    rw [Server.onEvent]
    rcases hstop : S.drain { c with out := "" } bytes with ⟨c', _ | _ | _⟩
    all_goals
      rw [hstop] at hdrain
      unfold Server.settle
      dsimp only
      split_ifs
    all_goals first | exact hdrain.written | exact hdrain.lost
  | closed | failed => exact h.lost
  | idle | expired => exact (h.expired _).written

theorem reached_run (h : S.Reached c .wait) (events : List Server.Event) :
    S.Reached (S.runProtocol c events).1 (S.runProtocol c events).2.next := by
  induction events generalizing c with
  | nil => exact h
  | cons e events ih =>
    have hevent := reached_event h e
    rw [Server.runProtocol]
    split
    · next heq =>
      rw [heq] at hevent
      exact ih hevent
    · exact hevent

/-- **Transactions are safe**, whatever a client sends. -/
theorem transactionSafe (S : Server R D W) : S.TransactionSafe where
  runs world plain handshake tls := by
    have hplain := reached_run (Server.Reached.greet (S := S) world) plain
    unfold Server.serveConnection
    split
    · next c world heq =>
      rw [heq] at hplain
      exact ⟨_, reached_run (hplain.handshake world) tls⟩
    · next heq _ =>
      rw [heq] at hplain
      exact ⟨_, hplain⟩
  safe _ _ h := (reached_inv h).safe

end Server

end Owney.Smtp
