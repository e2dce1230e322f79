import Owney.PgpPipeline
import Owney.Lib.SoftLines

/-!
# The envelope of an encrypted message

`encrypt_pgp_mime` puts the routing headers of a message in front of its ciphertext, in clear.
Which those are is said by `routing`, for a message whose lines end in CRLF or in LF, and the
headers of two encrypted messages are compared by `SameOuter`. The source looks for CRLF only.

* `copied_eq_routing` — what is copied from a crisp message is its routing headers.
* `sameOuter_iff` — two envelopes are alike exactly if the copied lines are.
* `sameOuter_iff_crisp` — the envelope is the one for the routing headers exactly if the message
  is crisp.
-/

namespace Owney.Pipeline

open Headers Utf8

/-! ## What the envelope should be -/

/-- Whether a line starts a header with one of the names in `KEEP`. -/
def routingName (l : TextLine) : Bool := keep.any fun k => k.toList.isPrefixOf (l.map Char.toLower)

/-- The lines of the routing headers of a message, continuation lines included. -/
def routing (raw : List UInt8) : List TextLine :=
  keepFields routingName false (headLines (fromUtf8Lossy raw))

/-- The outer headers of two encrypted messages are equal up to the boundary: the same lines
`ls`, and the headers of PGP/MIME. -/
def SameEnvelope (P : Crates) (autocrypt : String) (raw raw' out out' : List UInt8) : Prop :=
  ∃ (ls : List TextLine) (body body' : List Char), (∀ l ∈ ls, Whole l ∧ l ≠ []) ∧
    out = encode (unlines ls ++
      (unlines (mimeHeaders ("pgpmime-" ++ P.blake3Hex raw) autocrypt) ++ (crlf ++ body))) ∧
    out' = encode (unlines ls ++
      (unlines (mimeHeaders ("pgpmime-" ++ P.blake3Hex raw') autocrypt) ++ (crlf ++ body')))

/-- Whatever the crates do and whoever the messages are for, their outer headers are equal up to
the boundary. -/
def SameOuter (U : Unicode) (raw raw' : List UInt8) : Prop :=
  ∀ (P : Crates) (x x' : OutboundCalls P) (sender sender' : P.Cert) (certs certs' : List P.Cert)
    (autocrypt : String) (out out' : List UInt8),
    encryptPgpMime U x sender certs autocrypt raw = .ok out →
      encryptPgpMime U x' sender' certs' autocrypt raw' = .ok out' →
        SameEnvelope P autocrypt raw raw' out out'

/-- `to_lowercase` turns no other character into one of the names' than `to_ascii_lowercase`
does. -/
def AsciiNames (U : Unicode) : Prop := ∀ l, keeps U l = routingName l

theorem asciiNames_ascii : AsciiNames Unicode.ascii := by
  intro l
  rw [keeps, routingName]
  simp [Unicode.ascii, asciiLower]

/-! ## What is copied -/

/-- What is behind a line feed is no part of a name before it. -/
theorem isPrefixOf_lf {k : List Char} (hk : '\n' ∉ k) (q rest : List Char) :
    k.isPrefixOf (q ++ '\n' :: rest) = k.isPrefixOf q := by
  induction k generalizing q with
  | nil => simp
  | cons c k ih =>
    rw [List.mem_cons, not_or] at hk
    cases q with
    | nil => simp [List.isPrefixOf, Ne.symm hk.1]
    | cons d q => simp [List.isPrefixOf, ih hk.2]

theorem ofName_routingName : OfName routingName where
  nil := by decide
  cut q rest _ := by
    have hkeep : ∀ k ∈ keep, '\n' ∉ k.toList := by decide
    rw [routingName, routingName, Bool.eq_iff_iff, List.any_eq_true, List.any_eq_true]
    refine exists_congr fun k => and_congr_right fun hk => ?_
    rw [List.map_append, List.map_cons, show Char.toLower '\n' = '\n' from rfl,
      isPrefixOf_lf (hkeep k hk)]

/-- The lines that `copy_routing_headers` copies. -/
def copied (raw : List UInt8) : List TextLine :=
  keepFields routingName false (lines (headerSection (fromUtf8Lossy raw)))

section Copied

variable {U : Unicode} {raw raw' : List UInt8}

theorem copyRoutingHeaders_eq (hU : AsciiNames U) (raw : List UInt8) :
    copyRoutingHeaders U raw = unlines (copied raw) := by
  rw [copyRoutingHeaders, show keeps U = routingName from funext hU]
  rfl

/-- Copied lines are whole and not empty. -/
theorem of_mem_copied {l : TextLine} (h : l ∈ copied raw) : Whole l ∧ l ≠ [] := by
  refine ⟨whole_of_mem_lines (keepFields_subset _ _ _ h), ?_⟩
  rcases of_mem_keepFields h with hl | hl
  · exact ne_nil_of_continues hl
  · rintro rfl
    exact absurd (hl.symm.trans ofName_routingName.nil) (by decide)

theorem encryptPgpMime_ok {P : Crates} {x : OutboundCalls P} {sender : P.Cert}
    {certs : List P.Cert} {autocrypt : String} {out : List UInt8}
    (h : encryptPgpMime U x sender certs autocrypt raw = .ok out) : ∃ body,
      out = encode (copyRoutingHeaders U raw ++
        (unlines (mimeHeaders ("pgpmime-" ++ P.blake3Hex raw) autocrypt) ++ (crlf ++ body))) := by
  simp only [encryptPgpMime, bind, Except.bind] at h
  split at h
  · cases h
  rename_i ciphertext _
  cases harmored : String.fromUTF8? ciphertext.toByteArray with
  | none =>
    rw [harmored] at h
    cases h
  | some armored =>
    rw [harmored] at h
    exact ⟨_, (Except.ok.inj h).symm⟩

/-- **What is copied from a crisp message** is its routing headers, whatever its body is. -/
theorem copied_eq_routing (h : Crisp routingName (fromUtf8Lossy raw))
    (hsame : SameHead (fromUtf8Lossy raw) (fromUtf8Lossy raw')) : copied raw' = routing raw :=
  copy_of_crisp ofName_routingName h hsame

end Copied

/-! ## Comparing two envelopes -/

/-- Calls in which everything is encrypted to an empty text. -/
def emptyCalls : OutboundCalls keylessCrates where
  ownCert := .ok ⟨⟩
  pgpPeer _ := .ok none
  encryptAndSign _ _ _ := .ok []

section Outer

variable {U : Unicode} {raw raw' : List UInt8}

/-- The outer headers can be read back from what is sent. -/
theorem header_envelope {ls : List TextLine} (hls : ∀ l ∈ ls, Whole l ∧ l ≠ [])
    (body : List Char) :
    header (fromUtf8Lossy (encode (unlines ls ++
      (unlines (mimeHeaders "pgpmime-" "") ++ (crlf ++ body))))) =
      ls ++ mimeHeaders "pgpmime-" "" := by
  have hmime : ∀ l ∈ mimeHeaders "pgpmime-" "", Whole l ∧ l ≠ [] := by
    intro l hl
    simp only [mimeHeaders, List.mem_cons, List.not_mem_nil, or_false] at hl
    rcases hl with rfl | rfl | rfl | rfl <;>
      exact ⟨whole_of_not_mem (by decide +kernel), by simp⟩
  have hall : ∀ l ∈ ls ++ mimeHeaders "pgpmime-" "", Whole l ∧ l ≠ [] := by
    intro l hl
    rcases List.mem_append.mp hl with hl | hl
    · exact hls l hl
    · exact hmime l hl
  rw [← List.append_nil (encode _), fromUtf8Lossy_append, ← List.append_assoc, ← unlines_append,
    List.append_assoc, List.append_assoc, header_unlines_crlf fun l hl => (hall l hl).1,
    List.takeWhile_eq_self_iff]
  exact fun l hl => by simpa using (hall l hl).2

/-- **Two envelopes** are alike exactly if the copied lines are. -/
theorem sameOuter_iff (hU : AsciiNames U) : SameOuter U raw raw' ↔ copied raw = copied raw' := by
  constructor
  · intro h
    have hempty : ∀ bs, ∃ out, encryptPgpMime U emptyCalls ⟨⟩ [] "" bs = .ok out := fun bs =>
      ⟨_, rfl⟩
    obtain ⟨out, hout⟩ := hempty raw
    obtain ⟨out', hout'⟩ := hempty raw'
    obtain ⟨ls, body, body', hls, hsend, hsend'⟩ := h _ _ _ _ _ _ _ _ _ _ hout hout'
    -- both are read back
    have hread : ∀ {bs out body}, encryptPgpMime U emptyCalls ⟨⟩ [] "" bs = .ok out →
        out = encode (unlines ls ++ (unlines (mimeHeaders "pgpmime-" "") ++ (crlf ++ body))) →
        copied bs = ls := by
      intro bs out body hout hsend
      obtain ⟨body₁, rfl⟩ := encryptPgpMime_ok hout
      rw [copyRoutingHeaders_eq hU] at hsend
      have hheader := congrArg (fun out => header (fromUtf8Lossy out)) hsend
      have hlines : copied bs ++ mimeHeaders "pgpmime-" "" = ls ++ mimeHeaders "pgpmime-" "" :=
        ((header_envelope (fun _ => of_mem_copied) body₁).symm.trans hheader).trans
          (header_envelope hls body)
      exact List.append_cancel_right hlines
    rw [hread hout hsend, hread hout' hsend']
  · intro h P x x' sender sender' certs certs' autocrypt out out' hout hout'
    obtain ⟨body, rfl⟩ := encryptPgpMime_ok hout
    obtain ⟨body', rfl⟩ := encryptPgpMime_ok hout'
    rw [copyRoutingHeaders_eq hU, copyRoutingHeaders_eq hU, h]
    exact ⟨copied raw', body, body', fun _ => of_mem_copied, rfl, rfl⟩

end Outer

/-! ## Which messages keep their bodies to themselves -/

/-- The message that is nothing but routing headers. -/
def routingMessage (raw : List UInt8) : List UInt8 := encode (unlines (routing raw))

section Routing

variable (raw : List UInt8)

theorem text_routingMessage : fromUtf8Lossy (routingMessage raw) = unlines (routing raw) := by
  have h := fromUtf8Lossy_append (unlines (routing raw)) []
  rw [List.append_nil] at h
  exact h.trans (List.append_nil _)

/-- The lines of routing headers have no line feed and are not empty. -/
theorem of_mem_routing {l : TextLine} (h : l ∈ routing raw) : '\n' ∉ l ∧ l ≠ [] := by
  refine ⟨?_, ?_⟩
  · have hmem := keepFields_subset _ _ _ h
    exact not_mem_softLines _ l ((List.takeWhile_sublist _).subset hmem)
  · rcases of_mem_keepFields h with hl | hl
    · exact ne_nil_of_continues hl
    · rintro rfl
      exact absurd (hl.symm.trans ofName_routingName.nil) (by decide)

/-- It is crisp, -/
theorem crisp_routingMessage : Crisp routingName (fromUtf8Lossy (routingMessage raw)) := by
  rw [text_routingMessage]
  have hlines := softLines_unlines fun l hl => (of_mem_routing raw hl).1
  have hall : headerSection (unlines (routing raw)) = unlines (routing raw) := by
    refine (headerSection_cases _).resolve_right ?_
    rintro ⟨rest, hsplit⟩
    have hsoft := congrArg softLines hsplit
    rw [hlines, softLines_crlf_append,
      show softLines (crlf ++ rest) = [] :: softLines rest from rfl] at hsoft
    have hdrop := congrArg List.dropLast hsoft
    rw [List.dropLast_concat, List.dropLast_append_of_ne_nil (by simp),
      List.dropLast_cons_of_ne_nil (softLines_ne_nil rest)] at hdrop
    have hmem : [] ∈ routing raw := by
      rw [hdrop]
      simp
    exact (of_mem_routing raw hmem).2 rfl
  refine ⟨?_, ?_⟩
  · rw [headParts, if_pos hall, hlines, List.dropLast_concat]
    exact fun h => (of_mem_routing raw h).2 rfl
  · rw [hall]
    refine crispLines_of_plain (fun l hl => ?_) false
    have hwhole : ∀ l ∈ routing raw, Whole l := fun l hl =>
      whole_of_not_mem_lf (of_mem_routing raw hl).1
    have hsplit := lines_unlines hwhole []
    rw [List.append_nil] at hsplit
    rw [hsplit] at hl
    rcases List.mem_append.mp hl with hl | hl
    · exact (of_mem_routing raw hl).1
    · obtain rfl := List.mem_singleton.mp hl
      simp

/-- and its routing headers are the ones it was made from. -/
theorem routing_routingMessage : routing (routingMessage raw) = routing raw := by
  have hlines := softLines_unlines fun l hl => (of_mem_routing raw hl).1
  have hhead : headLines (unlines (routing raw)) = routing raw := by
    rw [headLines, hlines, List.takeWhile_append_of_pos, List.takeWhile_cons_of_neg (by simp),
      List.append_nil]
    exact fun l hl => by simpa using (of_mem_routing raw hl).2
  rw [routing, text_routingMessage, hhead]
  exact keepFields_keepFields _ _

end Routing

/-- **The envelope of a message**, with whatever body behind its header, is the one that every
crisp message with the same routing headers has, exactly if the message is crisp. -/
theorem sameOuter_iff_crisp {U : Unicode} (hU : AsciiNames U) (raw : List UInt8) :
    (∀ raw₁ raw₂, SameHead (fromUtf8Lossy raw) (fromUtf8Lossy raw₁) →
      Crisp routingName (fromUtf8Lossy raw₂) → routing raw₂ = routing raw →
        SameOuter U raw₁ raw₂) ↔
      Crisp routingName (fromUtf8Lossy raw) := by
  constructor
  · intro h
    have hcopied : ∀ raw₁, SameHead (fromUtf8Lossy raw) (fromUtf8Lossy raw₁) →
        copied raw₁ = routing raw := by
      intro raw₁ hsame
      have hcrisp := crisp_routingMessage raw
      have houter := h raw₁ _ hsame hcrisp (routing_routingMessage raw)
      rw [(sameOuter_iff hU).mp houter, copied_eq_routing hcrisp .same, routing_routingMessage]
    have hempty : [] ∉ headParts (fromUtf8Lossy raw) := by
      intro hmem
      obtain ⟨block, xs, rest, hblock, hsplit, hleak⟩ := exists_leak ofName_routingName hmem
      -- a body that ends in `l`
      have hlast : ∀ l, '\n' ∉ l → starts routingName l = true →
          (routing raw).getLast? = some l := by
        intro l hl hstarts
        obtain ⟨before, hbefore⟩ := hleak l hl hstarts
        have htext : fromUtf8Lossy (encode (block ++ ('x' :: (crlf ++ l)))) =
            block ++ ('x' :: (crlf ++ l)) := by
          have happend := fromUtf8Lossy_append (block ++ ('x' :: (crlf ++ l))) []
          rw [List.append_nil] at happend
          exact happend.trans (List.append_nil _)
        have hsame := hcopied (encode (block ++ ('x' :: (crlf ++ l)))) (by
          rw [htext]
          exact .body hblock hsplit)
        rw [copied, htext, hbefore] at hsame
        rw [← hsame, List.getLast?_concat]
      have hone := hlast "subject:1".toList (by decide) (by decide)
      have htwo := hlast "subject:2".toList (by decide) (by decide)
      exact absurd (hone.symm.trans htwo) (by decide)
    refine ⟨hempty, (copy_iff ofName_routingName hempty).mp ?_⟩
    exact hcopied raw .same
  · intro hcrisp raw₁ raw₂ hsame hcrisp₂ hrouting
    rw [sameOuter_iff hU, copied_eq_routing hcrisp hsame, ← hrouting,
      copied_eq_routing hcrisp₂ .same]

theorem sameOuter_otherHeaders : SameOuter Unicode.ascii
    (encode "From: a\r\nBcc: b\r\nTo: c,\r\n d\r\n\r\none\n\ntwo".toList)
    (encode "Subject-Of: x\r\nFrom: a\r\nTo: c,\r\n d\r\n\r\nthree".toList) :=
  (sameOuter_iff_crisp asciiNames_ascii _).mpr (by decide +kernel) _ _ .same (by decide +kernel)
    (by decide +kernel)

/-- A message with bare line feeds is copied with its body. -/
theorem not_sameOuter_of_routing_eq : ¬∀ U, AsciiNames U → ∀ raw raw' : List UInt8,
    routing raw = routing raw' → SameOuter U raw raw' := by
  intro h
  have houter := h _ asciiNames_ascii (encode "From: a\n\none".toList)
    (encode "From: a\n\ntwo".toList) (by decide +kernel)
  exact absurd ((sameOuter_iff asciiNames_ascii).mp houter) (by decide +kernel)

end Owney.Pipeline
