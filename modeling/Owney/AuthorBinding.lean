import Owney.Lib.ProgramRuns
import Owney.MirrorCopies

/-!
# Whom a peer may speak for

`apply_one` stores an event that a peer sends if the domain of the author's address is the peer's
and some user id of the author's certificate contains the address. A user id is any text, so
that says less than that the address is the author's.

* `openItem_eq_ok_iff` — which items pass the checks.
* `authorBound_iff` — an item is stored only for an address of its certificate exactly if no
  user id merely contains the address that the item names.
* `not_authorBound_malice` — the certificate of `malice@a.test` speaks for `alice@a.test`.
-/

namespace Owney

open Programs Tables

section Binding

variable {Cert : Type} (M : MirrorCrates Cert)

/-! ## What is meant -/

/-- The domain of an address, as it is written. -/
def addressDomain (email : String) : Option String :=
  if '@' ∈ email.toList then some (String.ofList (email.toList.rtakeWhile (· ≠ '@'))) else none

/-- The item is a sealed event with this payload. -/
def ItemOpens (serverSecret authorCert : Cert) (item : SealedItem) (payload : EventPayload) :
    Prop :=
  ∃ ciphertext plaintext, M.b64Decode item.sealed = .ok ciphertext ∧
    M.openEvent serverSecret authorCert ciphertext = .ok plaintext ∧
    M.fromSlice plaintext = .ok payload

/-- The certificate has a user id with this address; `emailOf` is `UserID::email`. -/
def HasAddress (emailOf : String → Option String) (authorCert : Cert) (email : String) : Prop :=
  ∃ u ∈ M.userids authorCert, emailOf u = some email

/-- The peer may speak for the author. -/
def SpeaksFor (peerDomain email : String) : Prop :=
  ∃ domain, addressDomain email = some domain ∧
    M.unicode.toLowercase domain = M.unicode.toLowercase peerDomain

variable (L : Locale) (S : Share Cert) (emailOf : String → Option String) (serverSecret : Cert)
  (f : CalendarFederation) (peerDomain : String) (authorCert : Cert) (item : SealedItem)

/-- In every run, the item is stored, or the tables change at all, only if the author's certificate
has the address that the item names, in the domain of the peer. -/
def AuthorBound : Prop :=
  ∀ w cs answer w',
    (applyOne M serverSecret f peerDomain authorCert item).Ran (MirrorOp.exec M L S) w cs
      answer w' →
    answer = .ok ⟨⟩ ∨ w'.db ≠ w.db →
    ∃ payload, ItemOpens M serverSecret authorCert item payload ∧
      HasAddress M emailOf authorCert payload.authorEmail ∧
      SpeaksFor M peerDomain payload.authorEmail

/-! ## What is checked -/

/-- Some user id contains the address. -/
def Mentions (authorCert : Cert) (email : String) : Prop :=
  ∃ u ∈ M.userids authorCert, email.toList <:+: u.toList

theorem domainOf_eq (email : String) :
    domainOf M email = (addressDomain email).map M.unicode.toLowercase := by
  rw [domainOf, addressDomain]
  split_ifs <;> rfl

variable {M L S emailOf serverSecret f peerDomain authorCert item}

theorem ItemOpens.unique {payload payload' : EventPayload}
    (h : ItemOpens M serverSecret authorCert item payload)
    (h' : ItemOpens M serverSecret authorCert item payload') : payload = payload' := by
  obtain ⟨ciphertext, plaintext, hc, hp, hs⟩ := h
  obtain ⟨ciphertext', plaintext', hc', hp', hs'⟩ := h'
  obtain rfl := Except.ok.inj (hc.symm.trans hc')
  obtain rfl := Except.ok.inj (hp.symm.trans hp')
  exact Except.ok.inj (hs.symm.trans hs')

/-- **Which items pass.** -/
theorem openItem_eq_ok_iff {payload : EventPayload} :
    openItem M serverSecret peerDomain authorCert item = .ok payload ↔
      ItemOpens M serverSecret authorCert item payload ∧
        domainOf M payload.authorEmail = some peerDomain ∧
        Mentions M authorCert payload.authorEmail := by
  unfold openItem ItemOpens
  rcases M.b64Decode item.sealed with e | ciphertext
  · simp
  rcases hopen : M.openEvent serverSecret authorCert ciphertext with e | plaintext
  · simp [hopen]
  rcases hpayload : M.fromSlice plaintext with e | payload'
  · simp [hopen, hpayload]
  have hopens : (∃ ciphertext' plaintext',
      (.ok ciphertext : Except String (List UInt8)) = .ok ciphertext' ∧
        M.openEvent serverSecret authorCert ciphertext' = .ok plaintext' ∧
        M.fromSlice plaintext' = .ok payload) ↔ payload' = payload := by
    constructor
    · rintro ⟨_, _, hc, hp, hs⟩
      cases hc
      cases hopen.symm.trans hp
      exact Except.ok.inj (hpayload.symm.trans hs)
    · rintro rfl
      exact ⟨_, _, rfl, hopen, hpayload⟩
  rw [hopens]
  simp only [hopen, hpayload]
  rcases hdomain : domainOf M payload'.authorEmail with _ | domain
  · constructor
    · intro h
      cases h
    · rintro ⟨rfl, hd, -⟩
      cases hdomain.symm.trans hd
  have hmention : (M.userids authorCert).any (payload'.authorEmail.toList <:+: ·.toList) ↔
      Mentions M authorCert payload'.authorEmail := by
    simp [Mentions]
  by_cases hpeer : domain = peerDomain
  · simp only [hpeer, ne_eq, not_true_eq_false, if_false]
    by_cases hany : Mentions M authorCert payload'.authorEmail
    · rw [if_pos (hmention.mpr hany), Except.ok.injEq]
      constructor
      · rintro rfl
        exact ⟨rfl, by rw [hdomain, hpeer], hany⟩
      · exact fun h => h.1
    · rw [if_neg fun h => hany (hmention.mp h)]
      constructor
      · exact nofun
      · rintro ⟨rfl, -, h⟩
        exact absurd h hany
  · simp only [hpeer, ne_eq, not_false_eq_true, if_true]
    constructor
    · exact nofun
    · rintro ⟨rfl, hd, -⟩
      exact absurd (Option.some.inj (hdomain.symm.trans hd)) hpeer

/-- An event of the mirror, before the item is pulled. -/
def mirroredEvent (f : CalendarFederation) : CalendarEvent :=
  ⟨⟨0⟩, f.calendarId, "", none, 0, 0, none, 0, 0, some "remote", some f.id⟩

/-- The world of a subscriber that has the event already. -/
def knownItem (f : CalendarFederation) (item : SealedItem) : MirrorWorld where
  db := {
    calendars := [⟨f.calendarId, ⟨0⟩, "", none, 0, 0⟩]
    events := [mirroredEvent f]
    pages := []
    bookings := []
    federations := [f]
    eventMap := [⟨f.id, item.remoteUid, ⟨0⟩, "", 0⟩] }
  drawn := [⟨0⟩]
  serving := .empty
  now := 0

/-- An item that passes is stored: where its event is known, the row gets what it says. -/
theorem ran_knownItem {payload : EventPayload}
    (h : openItem M serverSecret peerDomain authorCert item = .ok payload) :
    ∃ cs w', (applyOne M serverSecret f peerDomain authorCert item).Ran (MirrorOp.exec M L S)
        (knownItem f item) cs (.ok ⟨⟩) w' ∧
      w'.db.events = [(mirroredEvent f).synced (payload.new ⟨0⟩ ⟨0⟩ 0)] := by
  have hfound : MirrorOp.exec M L S (.federationLocalEvent f.id item.remoteUid) {}
      (knownItem f item) = some (.ok (some ⟨0⟩), knownItem f item) := by
    simp [MirrorOp.exec, MirrorWorld.call, transaction, federationLocalEventTx, Tx.query, Io.ok,
      knownItem]
  obtain ⟨w', hupdated, hevents⟩ : ∃ w',
      MirrorOp.exec M L S (.updateRemoteCalendarEvent ⟨0⟩ payload) {} (knownItem f item) =
        some (.ok ⟨⟩, w') ∧
      w'.db.events = [(mirroredEvent f).synced (payload.new ⟨0⟩ ⟨0⟩ 0)] :=
    ⟨_, rfl, rfl⟩
  refine ⟨[⟨.federationLocalEvent f.id item.remoteUid, .ok (some ⟨0⟩)⟩,
    ⟨.updateRemoteCalendarEvent ⟨0⟩ payload, .ok ⟨⟩⟩], w', ?_, hevents⟩
  rw [applyOne, h]
  exact .call {} hfound (.call {} hupdated (.ret _ _))

variable (M L S emailOf serverSecret f peerDomain authorCert item) in
/-- **Author binding.** It holds of an item exactly if the text of no user id merely contains the
address that the item names in the domain of the peer: then some user id has that address. -/
theorem authorBound_iff :
    AuthorBound M L S emailOf serverSecret f peerDomain authorCert item ↔
      ∀ payload, ItemOpens M serverSecret authorCert item payload →
        domainOf M payload.authorEmail = some peerDomain →
        Mentions M authorCert payload.authorEmail →
        HasAddress M emailOf authorCert payload.authorEmail := by
  constructor
  · intro h payload hopens hdomain hmention
    have hpass := openItem_eq_ok_iff.mpr ⟨hopens, hdomain, hmention⟩
    obtain ⟨cs, w', hran, -⟩ := ran_knownItem (L := L) (S := S) (f := f) hpass
    obtain ⟨payload', hopens', haddress, -⟩ := h _ _ _ _ hran (.inl rfl)
    obtain rfl := hopens.unique hopens'
    exact haddress
  · intro h w cs answer w' hran hstored
    rw [applyOne] at hran
    rcases hpass : openItem M serverSecret peerDomain authorCert item with e | payload
    · rw [hpass] at hran
      obtain ⟨-, rfl, rfl⟩ := Prog.ran_pure.mp hran
      exact absurd hstored (by simp)
    · obtain ⟨hopens, hdomain, hmention⟩ := openItem_eq_ok_iff.mp hpass
      refine ⟨payload, hopens, h payload hopens hdomain hmention, ?_⟩
      rw [domainOf_eq] at hdomain
      obtain ⟨domain, haddress, rfl⟩ := Option.map_eq_some_iff.mp hdomain
      exact ⟨domain, haddress, (M.unicode.toLowercase_idem domain).symm⟩

end Binding

/-! ## An address within another -/

/-- What stands between the angle brackets of a user id. -/
def bracketed (userid : String) : Option String :=
  some (String.ofList (((userid.toList.dropWhile (· ≠ '<')).drop 1).takeWhile (· ≠ '>')))

/-- Every certificate is Mallory's; the payloads name `alice@a.test`. -/
def MirrorCrates.malice : MirrorCrates Unit :=
  { MirrorCrates.sample with userids := fun _ => ["Mallory <malice@a.test>"] }

/-- An item as Mallory seals it. -/
def maliceItem : SealedItem := ⟨"uid", 5, "standup"⟩

/-- **Mallory speaks for Alice**: her address ends in the other's. -/
theorem not_authorBound_malice :
    ¬AuthorBound .malice denver .sample bracketed () .sample "a.test" () maliceItem := by
  intro h
  have hpass : openItem .malice () "a.test" () maliceItem =
      .ok ⟨"standup", none, 0, 0, none, "alice@a.test"⟩ := by
    decide +kernel
  obtain ⟨cs, w', hran, -⟩ := ran_knownItem (L := denver) (S := .sample) (f := .sample) hpass
  obtain ⟨payload, hopens, ⟨u, hu, haddress⟩, -⟩ := h _ _ _ _ hran (.inl rfl)
  obtain rfl := hopens.unique (openItem_eq_ok_iff.mp hpass).1
  obtain rfl := List.mem_singleton.mp hu
  have hother : bracketed "Mallory <malice@a.test>" ≠ some "alice@a.test" := by
    decide +kernel
  exact hother haddress

end Owney
