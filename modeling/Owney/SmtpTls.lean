import Owney.SmtpChunks

/-!
# What STARTTLS leaves of the plaintext

After the handshake a session is a fresh one, but for the count of its errors, the log and
the replies: the greeting, the envelope and the bytes that came with STARTTLS are gone. So
what it does then depends on what comes then, and on no plaintext byte, as long as it does
not close for too many errors (`tls_isolated`).
-/

namespace Owney.Smtp

namespace Server

variable {R D W : Type} (S : Server R D W)

/-! ## What came before a run -/

theorem flush_behind (c : Conn R D W) {p : Past} (hp : p.out = "") :
    (c.behind p).flush = c.flush.behind p := by
  simp [Conn.flush, hp, String.append_assoc]

theorem settle_session (written : Bool) (c : Conn R D W) (stop : Stop) :
    (settle written (c, stop)).1.session = c.session := by
  cases stop <;> unfold settle <;> dsimp only <;> split_ifs <;> rfl

theorem settle_behind (written : Bool) (c : Conn R D W) {p : Past} (hp : p.out = "")
    (stop : Stop) :
    settle written (c.behind p, stop) =
      ((settle written (c, stop)).1.behind p, (settle written (c, stop)).2) := by
  have hflush := flush_behind c hp
  have hout : (c.behind p).out = c.out := by simp [hp]
  cases stop with
  | wait =>
    unfold settle
    dsimp only at hout ⊢
    by_cases hwritten : c.out = "" ∨ written = true
    · rw [if_pos hwritten, if_pos (by rwa [hout]), hflush]
    · rw [if_neg hwritten, if_neg (by rwa [hout])]
  | close | startTls =>
    unfold settle
    dsimp only
    split_ifs
    · rw [hflush]
    · rfl

/-- No errors are forgotten. -/
theorem onEvent_errors (c : Conn R D W) (e : Event) :
    c.session.errors ≤ (S.onEvent c e).1.session.errors := by
  cases e with
  | read bytes written =>
    have hdrain := (S.drain_keeps { c with out := "" } bytes).2
    rw [onEvent, settle_session]
    exact hdrain
  | closed | failed | idle | expired => exact Nat.le_refl _

theorem runProtocol_errors (c : Conn R D W) (events : List Event) :
    c.session.errors ≤ (S.runProtocol c events).1.session.errors := by
  induction events generalizing c with
  | nil => exact Nat.le_refl _
  | cons e events ih =>
    have hevent := S.onEvent_errors c e
    rw [runProtocol]
    split
    · next c' heq =>
      rw [heq] at hevent
      exact hevent.trans (ih c')
    · exact hevent

theorem onEvent_behind (c : Conn R D W) {p : Past} (hp : p.out = "") (e : Event)
    (h : (S.onEvent (c.behind p) e).1.session.errors < S.params.maxErrors) :
    S.onEvent (c.behind p) e = ((S.onEvent c e).1.behind p, (S.onEvent c e).2) := by
  have hself : { c.behind p with out := "" } = Conn.behind { c with out := "" } p := by
    simp [hp]
  cases e with
  | read bytes written =>
    rw [onEvent, hself] at h ⊢
    rw [settle_session] at h
    rw [S.drain_behind _ p bytes (.inr h), settle_behind written _ hp]
    rfl
  | closed | failed => rfl
  | idle | expired =>
    simp only [onEvent]
    rw [hself, Conn.behind_reply, flush_behind _ hp]

/-- **A run** goes on without a look at what came before it, as long as it does not close for
too many errors. -/
theorem runProtocol_behind (c : Conn R D W) {p : Past} (hp : p.out = "") (events : List Event)
    (h : (S.runProtocol (c.behind p) events).1.session.errors < S.params.maxErrors) :
    S.runProtocol (c.behind p) events =
      ((S.runProtocol c events).1.behind p, (S.runProtocol c events).2) := by
  induction events generalizing c with
  | nil => rfl
  | cons e events ih =>
    have hlt : (S.onEvent (c.behind p) e).1.session.errors < S.params.maxErrors := by
      refine lt_of_le_of_lt ?_ h
      rw [runProtocol]
      split
      · next c' heq =>
        rw [heq]
        exact S.runProtocol_errors c' events
      · exact Nat.le_refl _
    have hevent := S.onEvent_behind c hp e hlt
    rw [runProtocol] at h ⊢
    rw [hevent] at h ⊢
    rw [runProtocol]
    generalize S.onEvent c e = answer at h ⊢
    obtain ⟨c', _ | _ | _⟩ := answer
    · exact ih c' h
    · rfl
    · rfl

/-! ## The handshake -/

/-- The session right after a handshake, if nothing had come before. -/
def fresh (world : W) : Conn R D W :=
  { session :=
      { mode := .command, helo := "", mailFrom := none, recipients := [], errors := 0
        tlsActive := true }
    receiver := S.requests.init
    out := ""
    world := world
    replies := ""
    log := [] }

/-- All that is left of the plaintext. -/
theorem upgrade_eq (c : Conn R D W) (world : W) :
    S.upgrade c world =
      (S.fresh world).behind ⟨c.session.errors, "", c.replies, c.log ++ [.upgraded]⟩ := by
  simp [upgrade, fresh, Conn.behind, Conn.note, Session.resetTransaction]

/-- What a connection replied and did since. -/
structure Since (before after : Conn R D W) (replies : String) (log : List Happened) : Prop where
  replies : after.replies = before.replies ++ replies
  log : after.log = before.log ++ log

/-- **STARTTLS isolates**: whatever came before the handshake, and with it, what a connection
does after it and replies then are determined by what comes after it. Only the errors are
counted on, and they do not show before there are too many. -/
theorem tls_isolated {world₁ world₂ : W} {plain₁ plain₂ : List Event} {c₁ c₂ : Conn R D W}
    (hplain₁ : S.runProtocol (S.greet world₁) plain₁ = (c₁, .startTls))
    (hplain₂ : S.runProtocol (S.greet world₂) plain₂ = (c₂, .startTls))
    (world : W) (tls : List Event)
    (herrors₁ : (S.serveConnection world₁ plain₁ (some world) tls).session.errors <
      S.params.maxErrors)
    (herrors₂ : (S.serveConnection world₂ plain₂ (some world) tls).session.errors <
      S.params.maxErrors) :
    ∃ replies log,
      Since (S.upgrade c₁ world) (S.serveConnection world₁ plain₁ (some world) tls) replies log ∧
      Since (S.upgrade c₂ world) (S.serveConnection world₂ plain₂ (some world) tls) replies log := by
  have hafter : ∀ {world₀ : W} {plain : List Event} {c : Conn R D W},
      S.runProtocol (S.greet world₀) plain = (c, .startTls) →
      (S.serveConnection world₀ plain (some world) tls).session.errors < S.params.maxErrors →
      Since (S.upgrade c world) (S.serveConnection world₀ plain (some world) tls)
        (S.runProtocol (S.fresh world) tls).1.replies (S.runProtocol (S.fresh world) tls).1.log := by
    intro world₀ plain c hplain herrors
    unfold serveConnection at herrors ⊢
    rw [hplain] at herrors ⊢
    dsimp only at herrors ⊢
    rw [S.upgrade_eq] at herrors ⊢
    rw [S.runProtocol_behind _ rfl tls herrors]
    refine ⟨?_, ?_⟩
    · simp [fresh]
    · simp [fresh]
  exact ⟨_, _, hafter hplain₁ herrors₁, hafter hplain₂ herrors₂⟩

/-! ## Two connections -/

/-- At most so many turns on the bytes of a read. -/
def drainFor : ℕ → Conn R D W → List UInt8 → Option (Conn R D W × Stop)
  | 0, _, _ => none
  | fuel + 1, c, bytes =>
    match S.turn c bytes with
    | (c, .drain rest) => drainFor fuel c rest
    | (c, .wait) => some (c, .wait)
    | (c, .close) => some (c, .close)
    | (c, .startTls) => some (c, .startTls)

theorem drain_of_drainFor {fuel : ℕ} {c : Conn R D W} {bytes : List UInt8}
    {r : Conn R D W × Stop} (h : S.drainFor fuel c bytes = some r) : S.drain c bytes = r := by
  induction fuel generalizing c bytes with
  | zero => cases h
  | succ fuel ih =>
    rw [drainFor] at h
    rcases hturn : S.turn c bytes with ⟨c', rest | _ | _ | _⟩
    · rw [hturn] at h
      rw [S.drain_of_drain hturn]
      exact ih h
    all_goals
      rw [hturn] at h
      exact (S.drain_of_stop hturn).trans (Option.some.inj h)

theorem runProtocol_of_drainFor {fuel : ℕ} {c : Conn R D W} {bytes : List UInt8}
    {r : Conn R D W × Stop} (hout : c.out = "") (h : S.drainFor fuel c bytes = some r) :
    S.runProtocol c [.read bytes true] = (r.1.flush, r.2) := by
  rw [runProtocol, onEvent_read S hout, S.drain_of_drainFor h]
  rcases r with ⟨c', _ | _ | _⟩ <;> rfl

end Server

/-- The sample server, with STARTTLS. -/
def sampleTls : Server (List UInt8) (Option (List UInt8)) Unit :=
  { sampleServer with
    params := { sampleServer.params with tls := true }
    requests := .ofStep (fun line byte =>
      let line := line ++ [byte]
      if byte ≠ 10 then (line, none)
      else if line = ascii "STARTTLS\r\n" then ([], some (.ok .startTls))
      else if line = ascii "MAIL FROM:<a@a.test>\r\n" then ([], some (.ok (.mail "a@a.test" 0)))
      else ([], some (.error .unknownCommand))) [] }

/-- Two plaintext parts: the second has an envelope, a bad command and a pipelined one. -/
def sampleTlsPlain : List UInt8 × List UInt8 :=
  (ascii "STARTTLS\r\n", ascii "MAIL FROM:<a@a.test>\r\nX\r\nSTARTTLS\r\nX\r\n")

/-- What comes after the handshake. -/
def sampleTlsMail : List UInt8 := ascii "MAIL FROM:<a@a.test>\r\nX\r\n"

/-- The connection after a read. -/
def sampleTlsAfter (c : Conn (List UInt8) (Option (List UInt8)) Unit) (bytes : List UInt8) :
    Conn (List UInt8) (Option (List UInt8)) Unit × Server.Stop :=
  (sampleTls.drainFor 9 c bytes).getD (c, .wait)

theorem sampleTls_run (c : Conn (List UInt8) (Option (List UInt8)) Unit) (bytes : List UInt8)
    (stop : Server.Stop) (hout : c.out = "")
    (hstop : (sampleTls.drainFor 9 c bytes).map (·.2) = some stop) :
    sampleTls.runProtocol c [.read bytes true] = ((sampleTlsAfter c bytes).1.flush, stop) := by
  obtain ⟨r, hr, rfl⟩ := Option.map_eq_some_iff.mp hstop
  rw [Server.runProtocol_of_drainFor sampleTls hout hr, sampleTlsAfter, hr]
  rfl

/-- Two connections, after their handshakes. -/
theorem sampleTls_isolated :
    let c₁ := (sampleTlsAfter (sampleTls.greet ()) sampleTlsPlain.1).1.flush
    let c₂ := (sampleTlsAfter (sampleTls.greet ()) sampleTlsPlain.2).1.flush
    ∃ replies log,
      Server.Since (sampleTls.upgrade c₁ ()) (sampleTls.serveConnection ()
        [.read sampleTlsPlain.1 true] (some ()) [.read sampleTlsMail true]) replies log ∧
      Server.Since (sampleTls.upgrade c₂ ()) (sampleTls.serveConnection ()
        [.read sampleTlsPlain.2 true] (some ()) [.read sampleTlsMail true]) replies log := by
  have hplain₁ := sampleTls_run (sampleTls.greet ()) sampleTlsPlain.1 .startTls rfl
    (by decide +kernel)
  have hplain₂ := sampleTls_run (sampleTls.greet ()) sampleTlsPlain.2 .startTls rfl
    (by decide +kernel)
  refine Server.tls_isolated sampleTls hplain₁ hplain₂ () [.read sampleTlsMail true] ?_ ?_
  · unfold Server.serveConnection
    rw [hplain₁]
    dsimp only
    rw [sampleTls_run _ sampleTlsMail .wait rfl (by decide +kernel)]
    decide +kernel
  · unfold Server.serveConnection
    rw [hplain₂]
    dsimp only
    rw [sampleTls_run _ sampleTlsMail .wait rfl (by decide +kernel)]
    decide +kernel

end Owney.Smtp
