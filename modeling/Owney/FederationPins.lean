import Owney.CanonicalRequest
import Owney.FederationSpecs

/-!
# Pins

The first certificate fetched for a domain is pinned, and `discover_and_pin` refuses
another one when it finds the pin. But it looks before it writes, and the write is an upsert
that overwrites the fingerprint and whose answer is dropped. So of two first contacts that
overlap, the later one replaces the pin of the earlier one. Where no other fingerprint is
written for the domain between a look and its write, a pin is permanent.
-/

namespace Owney

open Programs Tables

variable {Cert : Type} {P : FedCrates Cert} {past pre mid post : List FedEvent} {w w' : FedWorld}
  {e : FedEvent}

/-! ## The law and the condition -/

variable (P) in
/-- A pin is permanent: a domain has one, its fingerprint stays, and `discover_and_pin`
returns no certificate with another. -/
structure PinsPermanent (s : FedServer) : Prop where
  unique : (s.world.db.peers.map (·.domain)).Nodup
  kept : ∀ e ∈ s.past, ∀ r ∈ e.before.db.peers, ∃ r' ∈ s.world.db.peers,
    r'.domain = r.domain ∧ r'.fingerprint = r.fingerprint
  returned : ∀ i domain allowlist peer, s.request i = some (.discover domain allowlist) →
    s.answer i = some (.discovered (.ok peer)) → ∃ r ∈ s.world.db.peers,
      r.domain = P.domainKey domain ∧ peer.fingerprint = r.fingerprint ∧
      ∃ cert, P.certFromBytes peer.cert = .ok cert ∧ P.fingerprint cert = r.fingerprint

/-- The call looks a peer up. -/
def FedOp.IsLookup : FedOp → Bool
  | federationPeer _ => true
  | _ => false

variable (P) in
/-- No other fingerprint was written for the domain since the program looked for one. -/
def PinsInOrder (pre : List FedEvent) (e : FedEvent) : Prop :=
  match e.call with
  | ⟨.upsertFederationPeer domain _ _ fingerprint, .ok _⟩ => Steps (fun pre' y =>
    match y.call with
    | ⟨.upsertFederationPeer domain' _ _ fingerprint', .ok _⟩ =>
      P.domainKey domain' = P.domainKey domain → fingerprint' = fingerprint ∨
        ∀ f ∈ pre', f.thread = e.thread → f.call.op.IsLookup = false
    | _ => True) pre
  | _ => True

variable (P) in
/-- The call writes no other fingerprint over a pinned one. -/
def KeepsPin (_ : List FedEvent) (e : FedEvent) : Prop :=
  match e.call with
  | ⟨.upsertFederationPeer domain _ _ fingerprint, .ok _⟩ =>
    ∀ r ∈ e.before.db.peers, r.domain = P.domainKey domain → r.fingerprint = fingerprint
  | _ => True

/-- The certificate that is written out has the fingerprint of the one that was parsed. -/
def CertLaw (P : FedCrates Cert) : Prop :=
  ∀ cert bytes, P.stripped cert = .ok bytes →
    ∃ cert', P.certFromBytes bytes = .ok cert' ∧ P.fingerprint cert' = P.fingerprint cert

/-! ## What a call does to the pins -/

/-- The peers after a call: those from before, or one more or one rewritten for a domain. -/
theorem FedEffect.peers {call : Call FedOp.Ret} (h : FedEffect P w call w') :
    w'.db.peers = w.db.peers ∨ ∃ domain serverUrl cert fingerprint changed,
      call = ⟨.upsertFederationPeer domain serverUrl cert fingerprint, .ok changed⟩ ∧
      w'.db.peers = upsert (·.domain = P.domainKey domain)
        (fun r => { r with serverUrl, cert, fingerprint })
        ⟨P.domainKey domain, serverUrl, cert, fingerprint, w.now⟩ w.db.peers := by
  cases h with
  | kept _ db | recorded _ _ db | pruned _ db => exact .inl (by rw [db])
  | pinned made db => exact .inr ⟨_, _, _, _, _, made, by rw [db]⟩

/-- The rows of one domain have one fingerprint. -/
def Pinned (domain fingerprint : String) (w : FedWorld) : Prop :=
  ∀ r ∈ w.db.peers, r.domain = domain → r.fingerprint = fingerprint

/-- A call that writes no other fingerprint leaves the domain with one. -/
theorem Pinned.step {domain fingerprint : String} (hat : FedAt P past e)
    (h : Pinned domain fingerprint e.before)
    (hwrite : ∀ {d u c f changed}, e.call = ⟨.upsertFederationPeer d u c f, .ok changed⟩ →
      P.domainKey d = domain → f = fingerprint) : Pinned domain fingerprint e.after := by
  intro r hr hdomain
  rcases (at_effect hat).peers with hrows | ⟨d, u, c, f, changed, hcall, hrows⟩
  · rw [hrows] at hr
    exact h r hr hdomain
  · rw [hrows] at hr
    rcases mem_upsert hr with rfl | ⟨r₀, hr₀, rfl⟩
    · exact hwrite hcall hdomain
    · split at hdomain
      · rename_i hkey
        have hd : P.domainKey d = domain := (of_decide_eq_true hkey).symm.trans hdomain
        rw [if_pos hkey]
        exact hwrite hcall hd
      · rename_i hkey
        rw [if_neg hkey]
        exact h r₀ hr₀ hdomain

/-- A domain has one row. -/
theorem peers_nodup (h : FedPast P past w) : (w.db.peers.map (·.domain)).Nodup := by
  refine Past.invariant (I := fun _ w => (w.db.peers.map (·.domain)).Nodup) List.nodup_nil ?_ h
  intro past e hat _ hnd
  rcases (at_effect hat).peers with hrows | ⟨d, u, c, f, changed, -, hrows⟩
  · rwa [hrows]
  · rw [hrows]
    exact nodup_map_upsert hnd (fun _ => rfl) fun r hr => decide_eq_true hr

/-- **The write of a discovery** finds no other fingerprint. -/
theorem keepsPin_of_inOrder (hat : FedAt P past e) (horder : PinsInOrder P past e) :
    KeepsPin P past e := by
  unfold KeepsPin
  split
  swap
  · trivial
  rename_i domain serverUrl bin fingerprint changed hcall
  have hguard := hat.guard
  rw [hcall] at hguard
  obtain ⟨cert, existing, -, -, hmade, hsame⟩ := hguard
  obtain ⟨f, hf, hthread, hfcall⟩ := mem_callsOf.mp hmade
  obtain ⟨pre, mid, rfl, hatf⟩ := hat.earlier.exists_at hf
  -- The look found the fingerprint or nothing, and nobody wrote another one since.
  have hfound : Pinned (P.domainKey domain) fingerprint f.before := by
    intro r hr hdomain
    have hfind := find?_eq_some_of_key (peers_nodup hatf.earlier)
      (q := (·.domain = P.domainKey domain)) hr (decide_eq_true hdomain)
      fun r' hr' => (of_decide_eq_true hr').trans hdomain.symm
    exact hsame r ((peer_of_lookup hatf hfcall).symm.trans hfind)
  refine hat.earlier.persists (J := Pinned (P.domainKey domain) fingerprint) rfl ?_
    (hfound.step hatf fun h => by rw [hfcall] at h; cases h)
  rintro mid' y rest rfl haty hb
  refine hb.step haty fun {d u c fp ch} hycall hd => ?_
  simp only [PinsInOrder, hcall] at horder
  have hy := horder (pre ++ f :: mid') y rest (by simp)
  simp only [hycall] at hy
  rcases hy hd with hsame | hno
  · exact hsame
  · have hlook := hno f (by simp) hthread
    rw [hfcall] at hlook
    cases hlook

/-! ## Runs -/

/-- Every row has the fingerprint of the certificate in it. -/
theorem cert_of_row (hcert : CertLaw P) (h : FedPast P past w) : ∀ r ∈ w.db.peers, ∃ cert,
    P.certFromBytes r.cert = .ok cert ∧ P.fingerprint cert = r.fingerprint := by
  refine Past.invariant (I := fun _ w => ∀ r ∈ w.db.peers, ∃ cert,
    P.certFromBytes r.cert = .ok cert ∧ P.fingerprint cert = r.fingerprint)
    (fun r hr => absurd hr List.not_mem_nil) ?_ h
  intro past e hat _ ih r hr
  rcases (at_effect hat).peers with hrows | ⟨d, u, c, f, changed, hcall, hrows⟩
  · rw [hrows] at hr
    exact ih r hr
  · have hguard := hat.guard
    rw [hcall] at hguard
    obtain ⟨cert, -, hbin, rfl, -⟩ := hguard
    rw [hrows] at hr
    rcases mem_upsert hr with rfl | ⟨r₀, hr₀, rfl⟩
    · exact hcert cert c hbin
    · split
      · exact hcert cert c hbin
      · exact ih r₀ hr₀

/-- A pin is kept by every call. -/
def KeptIn (w w' : FedWorld) : Prop :=
  ∀ r ∈ w.db.peers, ∃ r' ∈ w'.db.peers, r'.domain = r.domain ∧ r'.fingerprint = r.fingerprint

theorem KeptIn.trans {w₁ w₂ w₃ : FedWorld} (h : KeptIn w₁ w₂) (h' : KeptIn w₂ w₃) :
    KeptIn w₁ w₃ := by
  intro r hr
  obtain ⟨r₁, hr₁, hdomain₁, hprint₁⟩ := h r hr
  obtain ⟨r₂, hr₂, hdomain₂, hprint₂⟩ := h' r₁ hr₁
  exact ⟨r₂, hr₂, hdomain₂.trans hdomain₁, hprint₂.trans hprint₁⟩

theorem keptIn_step (hat : FedAt P past e) (hkeeps : KeepsPin P past e) :
    KeptIn e.before e.after := by
  intro r hr
  rcases (at_effect hat).peers with hrows | ⟨d, u, c, f, changed, hcall, hrows⟩
  · exact ⟨r, hrows ▸ hr, rfl, rfl⟩
  · simp only [KeepsPin, hcall] at hkeeps
    refine ⟨_, hrows ▸ mem_upsert_of_mem hr, ?_⟩
    split
    · rename_i hkey
      exact ⟨rfl, (hkeeps r hr (of_decide_eq_true hkey)).symm⟩
    · exact ⟨rfl, rfl⟩

/-- What was pinned at a call is pinned later. -/
theorem keptIn_of_past (h : FedPast P past w) (hkeeps : Steps (KeepsPin P) past) (he : e ∈ past) :
    KeptIn e.before w := by
  obtain ⟨pre, post, hsplit, hat⟩ := h.exists_at he
  refine (keptIn_step hat (hkeeps pre e post hsplit)).trans ?_
  refine h.rel (ρ := KeptIn) (fun _ r hr => ⟨r, hr, rfl, rfl⟩) KeptIn.trans hsplit ?_
  rintro mid x rest rfl hat
  exact keptIn_step hat (hkeeps (pre ++ e :: mid) x rest (by simp [hsplit]))

/-- **Pins are permanent** in every run in which no program writes a fingerprint for a domain
when another one was written since it looked. -/
theorem pinsPermanent (P : FedCrates Cert) (hcert : CertLaw P) (ms : List FedMove)
    (horder : Steps (PinsInOrder P) (FedServer.run P FedServer.empty ms).past) :
    PinsPermanent P (FedServer.run P FedServer.empty ms) := by
  have hspec := FedServer.run_specified (P := P) ms
  generalize FedServer.run P FedServer.empty ms = s at horder hspec
  have hkeeps : Steps (KeepsPin P) s.past := fun pre e post hsplit =>
    keepsPin_of_inOrder (hspec.past.at_of_split hsplit) (horder pre e post hsplit)
  refine ⟨peers_nodup hspec.past, fun e he => keptIn_of_past hspec.past hkeeps he, ?_⟩
  intro i domain allowlist peer hrequest hanswer
  obtain ⟨r, hr, domain', allowlist', rfl, hmade⟩ := hspec.answered hanswer
  obtain ⟨rfl, rfl⟩ : domain = domain' ∧ allowlist = allowlist' := by
    simpa using hrequest.symm.trans hr
  obtain ⟨e, he, -, hcall⟩ := mem_callsOf.mp hmade
  obtain ⟨pre, post, hsplit, hat⟩ := hspec.past.exists_at he
  have hfind := peer_of_lookup hat hcall
  have hpeer := List.mem_of_find?_eq_some hfind
  have hdomain : peer.domain = P.domainKey domain := by simpa using List.find?_some hfind
  obtain ⟨r', hr', hdomain', hprint⟩ := keptIn_of_past hspec.past hkeeps he peer hpeer
  obtain ⟨cert, hparse, hcertprint⟩ := cert_of_row hcert hat.earlier peer hpeer
  exact ⟨r', hr', hdomain'.trans hdomain, hprint.symm, cert, hparse, hcertprint.trans hprint.symm⟩

/-! ### Two first contacts -/

instance (pre : List FedEvent) (e : FedEvent) : Decidable (PinsInOrder P pre e) := by
  unfold PinsInOrder
  split
  · refine @Steps.decidable _ _ ?_ _
    intro pre' y
    split <;> infer_instance
  · infer_instance

/-- A program makes its next calls, with these decisions. -/
def fedCalls (i : ℕ) (cs : List FedChoice) : List FedMove := cs.map (Move.call i)

/-- The metadata of a server with this certificate. -/
def sampleMetadata (cert : List UInt8) : FedChoice :=
  { metadata := some ⟨"https://b.test", some cert⟩ }

/-- Two discoveries of one domain that fetch these certificates; `overlap` says whether the
second looks for a pin before the first has written one. -/
def twoContacts (overlap : Bool) (cert cert' : List UInt8) : List FedMove :=
  let first := [.start (.discover "b.test" none)] ++ fedCalls 0 [sampleMetadata cert, {}]
  let second := [.start (.discover "b.test" none)] ++ fedCalls 1 [sampleMetadata cert', {}]
  if overlap then first ++ second ++ fedCalls 0 [{}, {}] ++ fedCalls 1 [{}, {}]
  else first ++ fedCalls 0 [{}, {}] ++ second ++ fedCalls 1 [{}, {}]

theorem certLaw_sample : CertLaw FedCrates.sample := by
  intro cert bytes h
  simp only [FedCrates.sample] at h ⊢
  split at h
  · cases h
  · rename_i hne
    obtain rfl := Except.ok.inj h
    exact ⟨cert, if_neg hne, rfl⟩

theorem pinsPermanent_keyChange :
    PinsPermanent FedCrates.sample
      (FedServer.run FedCrates.sample FedServer.empty (twoContacts false [1] [2])) :=
  pinsPermanent FedCrates.sample certLaw_sample (twoContacts false [1] [2]) (by decide +kernel)

theorem not_pinsPermanent_overlap :
    ¬PinsPermanent FedCrates.sample
      (FedServer.run FedCrates.sample FedServer.empty (twoContacts true [1] [2])) := by
  have hrun : ((FedServer.run FedCrates.sample FedServer.empty
      (twoContacts true [1] [2])).past[5]?.any fun e =>
        e.before.db.peers.map (fun r => (r.domain, r.fingerprint)) =
          [("b.test", sampleEncode [1])]) = true ∧
      (FedServer.run FedCrates.sample FedServer.empty
        (twoContacts true [1] [2])).world.db.peers.map (fun r => (r.domain, r.fingerprint)) =
          [("b.test", sampleEncode [2])] := by decide +kernel
  generalize FedServer.run FedCrates.sample FedServer.empty (twoContacts true [1] [2]) = s at hrun
  obtain ⟨hfirst, hlast⟩ := hrun
  intro hpins
  obtain ⟨e, he, hfirst⟩ := (Option.any_eq_true _ _).mp hfirst
  have hmem : ("b.test", sampleEncode [1]) ∈
      e.before.db.peers.map fun r => (r.domain, r.fingerprint) := by
    rw [of_decide_eq_true hfirst]
    simp
  obtain ⟨r, hr, hpair⟩ := List.mem_map.mp hmem
  obtain ⟨r', hr', hdomain, hprint⟩ := hpins.kept e (List.mem_of_getElem? he) r hr
  have hmem' : (r'.domain, r'.fingerprint) ∈
      s.world.db.peers.map fun r => (r.domain, r.fingerprint) := List.mem_map.mpr ⟨r', hr', rfl⟩
  rw [hlast, hdomain, hprint, hpair] at hmem'
  revert hmem'
  decide

end Owney
