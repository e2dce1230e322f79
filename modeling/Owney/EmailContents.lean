import Owney.MailInvariant

/-!
# What `Email/get` shows after a write

`emailContents` is everything of an email that a client sees and that can
change. The lemmas here say, for each way a call writes the tables, which
emails keep their contents: all of them for the bookkeeping writes, all but the
one addressed for an edit. `emailContents_effect` sums it up: contents that
change come with a bump of the account's Email state and a stamp on the email,
unless the call was `set_pgp_status`.
-/

namespace Owney

open Tables

namespace MailDb

variable {J : Type} {R : JsonReader J} {U : Unicode} {db db' : MailDb} {a a₀ : AccountId}
  {e e₀ : EmailId}

/-! ## The lists of an email -/

theorem mailboxIdsOf_replaceMailboxes (db : MailDb) (e e₀ : EmailId) (ms : List MailboxId) :
    (db.replaceMailboxes e₀ ms).mailboxIdsOf e = if e = e₀ then ms else db.mailboxIdsOf e := by
  simp only [mailboxIdsOf, replaceMailboxes, List.filter_append, List.filter_filter,
    List.filter_map, List.map_append]
  split
  · rename_i h
    subst h
    have h₁ : db.emailMailbox.filter (fun r => decide (r.emailId = e) && decide ¬r.emailId = e)
        = [] := List.filter_eq_nil_iff.mpr fun r _ => by simp
    rw [h₁]
    simp [Function.comp_def]
  · rename_i h
    have h₁ : ms.filter ((fun r => decide (r.emailId = e)) ∘ fun m => (⟨e₀, m⟩ : EmailMailboxRow))
        = [] := List.filter_eq_nil_iff.mpr fun m _ => by simpa using Ne.symm h
    rw [h₁, List.map_nil, List.map_nil, List.append_nil]
    congr 1
    refine List.filter_congr fun r _ => ?_
    by_cases hr : r.emailId = e
    · simp [hr, h]
    · simp [hr]

theorem keywordsOf_replaceKeywords (db : MailDb) (U : Unicode) (e e₀ : EmailId)
    (ks : List String) :
    (db.replaceKeywords U e₀ ks).keywordsOf e =
      if e = e₀ then (ks.map U.toLowercase).eraseDups else db.keywordsOf e := by
  simp only [keywordsOf, replaceKeywords, List.filter_append, List.filter_filter,
    List.filter_map, List.map_append]
  split
  · rename_i h
    subst h
    have h₁ : db.emailKeyword.filter (fun r => decide (r.emailId = e) && decide ¬r.emailId = e)
        = [] := List.filter_eq_nil_iff.mpr fun r _ => by simp
    rw [h₁]
    simp [Function.comp_def]
  · rename_i h
    have h₁ : (ks.map U.toLowercase).eraseDups.filter
        ((fun r => decide (r.emailId = e)) ∘ fun k => (⟨e₀, k⟩ : EmailKeywordRow)) = [] :=
      List.filter_eq_nil_iff.mpr fun k _ => by simpa using Ne.symm h
    rw [h₁, List.map_nil, List.map_nil, List.append_nil]
    congr 1
    refine List.filter_congr fun r _ => ?_
    by_cases hr : r.emailId = e
    · simp [hr, h]
    · simp [hr]

/-- The mailboxes after `update_email`. -/
theorem mailboxIdsOf_edited (ks : Option (List String)) (ms : Option (List MailboxId)) :
    (db.edited U e₀ ks ms).mailboxIdsOf e = if e = e₀ then ms.getD (db.mailboxIdsOf e)
      else db.mailboxIdsOf e := by
  cases ms with
  | none => cases ks <;> exact (ite_self _).symm
  | some ms =>
    have : (db.edited U e₀ ks (some ms)).mailboxIdsOf e = (db.replaceMailboxes e₀ ms).mailboxIdsOf e := by
      cases ks <;> rfl
    rw [this, mailboxIdsOf_replaceMailboxes]
    rfl

/-- The keywords after `update_email`. -/
theorem keywordsOf_edited (ks : Option (List String)) (ms : Option (List MailboxId)) :
    (db.edited U e₀ ks ms).keywordsOf e =
      if e = e₀ then (ks.map fun ks => (ks.map U.toLowercase).eraseDups).getD (db.keywordsOf e)
      else db.keywordsOf e := by
  cases ks with
  | none => cases ms <;> exact (ite_self _).symm
  | some ks =>
    have : (db.edited U e₀ (some ks) ms).keywordsOf e = (db.replaceKeywords U e₀ ks).keywordsOf e := by
      cases ms <;> rfl
    rw [this, keywordsOf_replaceKeywords]
    rfl

/-! ## Contents that stay -/

/-- The contents are made of the row's shown columns, the two lists and the attributes. -/
theorem emailContents_congr_shown {f : EmailsRow → EmailsRow}
    (hfind : db'.findEmail a e = (db.findEmail a e).map f)
    (hrow : ∀ r ∈ db.emails, r.id = e → ∀ attributes,
      emailJson R (db'.toEmailRow (f r)) attributes = emailJson R (db.toEmailRow r) attributes)
    (hattr : db'.listEmailAttributes a e = db.listEmailAttributes a e) :
    db'.emailContents R a e = db.emailContents R a e := by
  simp only [emailContents, emailById, hfind, hattr, Option.map_map]
  refine Option.map_congr fun r hr => ?_
  have hid := List.find?_some hr
  simp only [decide_eq_true_eq] at hid
  exact hrow r (List.mem_of_find?_eq_some hr) hid.2 _

theorem emailContents_congr {f : EmailsRow → EmailsRow}
    (hfind : db'.findEmail a e = (db.findEmail a e).map f)
    (hrow : ∀ r, r.id = e → db'.toEmailRow (f r) = db.toEmailRow r)
    (hattr : db'.listEmailAttributes a e = db.listEmailAttributes a e) :
    db'.emailContents R a e = db.emailContents R a e :=
  emailContents_congr_shown hfind (fun r _ hr attributes => by rw [hrow r hr]) hattr

/-- A write to other tables. -/
theorem emailContents_of_tables (hemails : db'.emails = db.emails)
    (hmailbox : db'.emailMailbox = db.emailMailbox) (hkeyword : db'.emailKeyword = db.emailKeyword)
    (hattr : db'.emailAttributes = db.emailAttributes) (a : AccountId) (e : EmailId) :
    db'.emailContents R a e = db.emailContents R a e := by
  refine emailContents_congr (f := id) ?_ (fun r _ => ?_) ?_
  · rw [Option.map_id, findEmail, hemails]
    rfl
  · simp only [toEmailRow, mailboxIdsOf, keywordsOf, hmailbox, hkeyword, id]
  · rw [listEmailAttributes, hattr]
    rfl

theorem findEmail_update {p : EmailsRow → Bool} {f : EmailsRow → EmailsRow}
    (hemails : db'.emails = update p f db.emails)
    (hf : ∀ r, (f r).id = r.id ∧ (f r).accountId = r.accountId) :
    db'.findEmail a e = (db.findEmail a e).map fun r => if p r then f r else r := by
  rw [findEmail, hemails]
  exact find?_update (fun r => by rw [(hf r).1, (hf r).2]) db.emails

/-- Another account's email is not found. -/
theorem findEmail_eq_none (h : MailInv U db) (hown : db.ownsEmail a₀ e) (ha : a ≠ a₀) :
    db.findEmail a e = none := by
  rw [findEmail, List.find?_eq_none]
  intro r hr hc
  simp only [decide_eq_true_eq] at hc
  have hmem : (⟨r.id.uuid, r.accountId, r.createdModseq, r.updatedModseq⟩ : TrackedRow) ∈
      db.trackedRows .email := List.mem_map.mpr ⟨r, hr, rfl⟩
  have := h.account_of_mem hown hmem (by rw [hc.2])
  exact ha (hc.1.symm.trans this)

/-- **An edit of one email changes the contents of no other.** `db₁` is the
database after the edit's rows and counters, before the stamp. -/
theorem emailContents_touchEmail_of_ne {db₁ : MailDb} {m : ModSeq} (h : MailInv U db)
    (hown : db.ownsEmail a₀ e₀) (hemails : db₁.emails = db.emails)
    (hmailbox : e ≠ e₀ → db₁.mailboxIdsOf e = db.mailboxIdsOf e)
    (hkeyword : e ≠ e₀ → db₁.keywordsOf e = db.keywordsOf e)
    (hattr : e ≠ e₀ → db₁.listEmailAttributes a e = db.listEmailAttributes a e)
    (hne : (a, e) ≠ (a₀, e₀)) :
    (db₁.touchEmail e₀ m).emailContents R a e = db.emailContents R a e := by
  have hfind : (db₁.touchEmail e₀ m).findEmail a e = (db.findEmail a e).map
      fun r => if r.id = e₀ then { r with updatedModseq := m } else r := by
    have htouched : (db₁.touchEmail e₀ m).emails =
        update (fun r => r.id = e₀) ({ · with updatedModseq := m }) db.emails := by
      rw [touchEmail, hemails]
    simpa using findEmail_update (a := a) (e := e) htouched fun _ => ⟨rfl, rfl⟩
  by_cases he : e = e₀
  · subst he
    have hnone := findEmail_eq_none h hown (a := a) fun ha => hne (by rw [ha])
    rw [hnone] at hfind
    rw [emailContents, emailContents, emailById, emailById, hfind, hnone]
    rfl
  · refine emailContents_congr hfind (fun r hr => ?_) (hattr he)
    rw [if_neg (by rw [hr]; exact he)]
    subst hr
    rw [toEmailRow, toEmailRow]
    congr 1
    · exact hmailbox he
    · exact hkeyword he

/-- A write of columns of `emails` that `Email/get` does not show. -/
theorem emailContents_updateEmails {p : EmailsRow → Bool} {f : EmailsRow → EmailsRow}
    (hf : ∀ r, (f r).id = r.id ∧ (f r).accountId = r.accountId)
    (hshown : ∀ r, db.toEmailRow (f r) = db.toEmailRow r) (a : AccountId) (e : EmailId) :
    ({ db with emails := update p f db.emails } : MailDb).emailContents R a e =
      db.emailContents R a e := by
  refine emailContents_congr (f := fun r => if p r then f r else r) (findEmail_update rfl hf)
    (fun r _ => ?_) rfl
  change db.toEmailRow _ = _
  split
  · exact hshown r
  · rfl

/-- An ingest changes the contents of the ingested email only. -/
theorem emailContents_ingested_of_ne (db : MailDb) (g : IngestArgs) (m : MailboxId)
    (hfresh : g.emailId ∉ db.emails.map (·.id)) (hne : (a, e) ≠ (g.accountId, g.emailId)) :
    (db.ingested g m).emailContents R a e = db.emailContents R a e := by
  let p : EmailsRow → Bool := fun r => r.accountId = a ∧ r.id = e
  have hnew : p (db.newEmail g) = false := by
    simp only [p, decide_eq_false_iff_not]
    exact fun hc => hne (by rw [← hc.1, ← hc.2]; rfl)
  have hfind : (db.ingested g m).findEmail a e = db.findEmail a e := by
    change (db.emails ++ [db.newEmail g]).find? p = db.emails.find? p
    rw [List.find?_append, List.find?_cons_of_neg (by simp [hnew]), List.find?_nil, Option.or_none]
  have hkeyword : (db.ingested g m).emailKeyword = db.emailKeyword := touchThread_emailKeyword ..
  have hattr : (db.ingested g m).emailAttributes = db.emailAttributes :=
    touchThread_emailAttributes ..
  by_cases he : e = g.emailId
  · have hnone : db.findEmail a e = none := by
      rw [findEmail, List.find?_eq_none]
      intro r hr hc
      simp only [decide_eq_true_eq] at hc
      exact hfresh (List.mem_map.mpr ⟨r, hr, hc.2.trans he⟩)
    rw [hnone] at hfind
    rw [emailContents, emailContents, emailById, emailById, hfind, hnone]
    rfl
  · refine emailContents_congr (f := id) (by rw [hfind, Option.map_id, id]) (fun r hr => ?_) ?_
    · subst hr
      have hbox : (db.ingested g m).mailboxIdsOf r.id = db.mailboxIdsOf r.id := by
        have hrows : (db.ingested g m).emailMailbox = db.emailMailbox ++ [⟨g.emailId, m⟩] := rfl
        simp only [mailboxIdsOf, hrows, List.filter_append]
        rw [List.filter_cons_of_neg (by simpa using Ne.symm he), List.filter_nil, List.append_nil]
      simp only [toEmailRow, id, hbox, keywordsOf, hkeyword]
    · rw [listEmailAttributes, hattr]
      rfl

/-- A stamped email carries the stamp. -/
theorem exists_touched (h : db.ownsEmail a e) (m : ModSeq) :
    ∃ r ∈ (db.touchEmail e m).trackedRows .email,
      r.id = e.uuid ∧ r.accountId = a ∧ r.updatedModseq = m := by
  obtain ⟨r, hr, hr'⟩ := List.any_eq_true.mp h
  simp only [decide_eq_true_eq] at hr'
  rw [trackedRows_touchEmail]
  refine ⟨_, mem_update.mpr ⟨_, List.mem_map.mpr ⟨r, hr, rfl⟩, rfl⟩, ?_⟩
  rw [if_pos (by simp [hr'.2])]
  exact ⟨congrArg EmailId.uuid hr'.2, hr'.1, rfl⟩

theorem listEmailAttributes_upsertAttribute_of_ne {kind content : String} {newId : Uuid} {now : ℤ}
    (he : e ≠ e₀) :
    (db.upsertAttribute a₀ e₀ kind content newId now).listEmailAttributes a e =
      db.listEmailAttributes a e := by
  simp only [listEmailAttributes, upsertAttribute]
  rw [filter_upsert_of_disjoint]
  · exact fun _ => rfl
  · intro r hr
    simp only [decide_eq_true_eq] at hr
    simpa [hr.1] using fun _ => Ne.symm he
  · simpa using fun _ => Ne.symm he

theorem listEmailAttributes_dismissAttribute_of_ne {kind : String} {now : ℤ} (he : e ≠ e₀) :
    (db.dismissAttribute a₀ e₀ kind now).listEmailAttributes a e =
      db.listEmailAttributes a e := by
  simp only [listEmailAttributes, dismissAttribute]
  rw [filter_update]
  · exact fun _ => rfl
  · intro r hr
    simp only [dismissible, decide_eq_true_eq] at hr
    simpa [hr.2.1] using fun _ => Ne.symm he

end MailDb

/-! ## The summary -/

/-- The account's state of a data type grew, and a row carries the new state. -/
def Stamped (db db' : MailDb) (a : AccountId) (t : DataType) (id : Uuid) : Prop :=
  db.modseq a t < db'.modseq a t ∧
    ∃ r ∈ db'.trackedRows t, r.id = id ∧ r.accountId = a ∧ r.updatedModseq = db'.modseq a t

/-- The call is a `set_pgp_status` that goes through and stores a text which reads as another JSON
value than what is stored. -/
def ChangesPgp {J : Type} (R : JsonReader J) (db : MailDb) : MailOp → Prop
  | .setPgpStatus io e status =>
    io 0 ∧ ∃ r ∈ db.emails, r.id = e ∧ R.pgpStatus r.pgpStatus ≠ R.pgpStatus (some status)
  | _ => False

section Summary

variable {J : Type} {R : JsonReader J} {U : Unicode} {db db' : MailDb} {a : AccountId}
  {e : EmailId} {op : MailOp}

/-- A bump of the Email state and a stamp with it. -/
theorem stamped_touchEmail {db₁ : MailDb} (hseq : db₁.modseq a .email = db.modseq a .email + 1)
    (hown : db₁.ownsEmail a e) : Stamped db (db₁.touchEmail e (db.modseq a .email + 1)) a .email e.uuid :=
  ⟨by rw [MailDb.modseq_touchEmail, hseq]; exact Nat.lt_succ_self _, by
    rw [MailDb.modseq_touchEmail, hseq]
    exact MailDb.exists_touched hown _⟩

theorem stamped_updatedEmail (ks : Option (List String)) (ms : Option (List MailboxId))
    (hown : db.ownsEmail a e) : Stamped db (db.updatedEmail U a e ks ms) a .email e.uuid := by
  refine stamped_touchEmail ?_ ?_
  · rw [MailDb.modseq_bumped_of_ne _ (by decide), MailDb.modseq_bumped_self, MailDb.modseq_edited]
  · rw [← hown]
    exact congrArg (List.any · _) (MailDb.edited_emails db U e ks ms)

theorem stamped_ingested (g : IngestArgs) (m : MailboxId) :
    Stamped db (db.ingested g m) g.accountId .email g.emailId.uuid := by
  have hseq : (db.ingested g m).modseq g.accountId .email = db.modseq g.accountId .email + 1 := by
    rw [MailDb.modseq_ingested, MailDb.modseq_bumpedForIngest _ _ (by decide)]
  refine ⟨by rw [hseq]; exact Nat.lt_succ_self _, _, List.mem_map.mpr ⟨db.newEmail g, ?_, rfl⟩,
    rfl, rfl, hseq.symm⟩
  exact List.mem_append_right _ (List.mem_singleton_self _)

/-- Only a status that reads as another value changes the contents in `set_pgp_status`. -/
theorem exists_of_emailContents_pgp {e₀ : EmailId} {status : String}
    (hne : ({ db with
      emails := update (·.id = e₀) ({ · with pgpStatus := some status }) db.emails } :
        MailDb).emailContents R a e ≠ db.emailContents R a e) :
    ∃ r ∈ db.emails, r.id = e₀ ∧ R.pgpStatus r.pgpStatus ≠ R.pgpStatus (some status) := by
  by_contra hall
  push Not at hall
  let setStatus : EmailsRow → EmailsRow := ({ · with pgpStatus := some status })
  have hfind := @MailDb.findEmail_update db
    { db with emails := update (·.id = e₀) setStatus db.emails } a e (·.id = e₀) setStatus rfl
    fun _ => ⟨rfl, rfl⟩
  refine hne (MailDb.emailContents_congr_shown hfind (fun r hr _ attributes => ?_) rfl)
  split
  · rename_i hid
    simp only [emailJson, MailDb.toEmailRow, setStatus, hall r hr (of_decide_eq_true hid)]
    rfl
  · rfl

/-- **Contents that change come with a stamp**, or the call was `set_pgp_status`. -/
theorem emailContents_effect (h : MailInv U db) (heff : MailEffect U db op db')
    (hne : db'.emailContents R a e ≠ db.emailContents R a e) :
    Stamped db db' a .email e.uuid ∨ ChangesPgp R db op := by
  cases heff with
  | createAccount _ _ _ => exact absurd (MailDb.emailContents_of_tables rfl rfl rfl rfl a e) hne
  | putBlob blobs => exact absurd (MailDb.emailContents_of_tables rfl rfl rfl rfl a e) hne
  | @ingest io g m hmb hlt₁ hlt₂ hlt₃ hthread hfresh =>
    by_cases hae : (a, e) = (g.accountId, g.emailId)
    · obtain ⟨rfl, rfl⟩ := Prod.mk.inj hae
      exact Or.inl (stamped_ingested g m)
    · exact absurd (MailDb.emailContents_ingested_of_ne db g m hfresh hae) hne
  | linkContact contacts => exact absurd (MailDb.emailContents_of_tables rfl rfl rfl rfl a e) hne
  | @updateEmail io a₀ e₀ ks ms hown hms hlt₁ hlt₂ =>
    by_cases hae : (a, e) = (a₀, e₀)
    · obtain ⟨rfl, rfl⟩ := Prod.mk.inj hae
      exact Or.inl (stamped_updatedEmail ks ms hown)
    · refine absurd (MailDb.emailContents_touchEmail_of_ne h hown ?_ ?_ ?_ ?_ hae) hne
      · exact MailDb.edited_emails db U e₀ ks ms
      · exact fun he => (MailDb.mailboxIdsOf_edited ks ms).trans (if_neg he)
      · exact fun he => (MailDb.keywordsOf_edited ks ms).trans (if_neg he)
      · intro _
        rw [MailDb.listEmailAttributes, MailDb.bumped_emailAttributes,
          MailDb.bumped_emailAttributes, MailDb.edited_emailAttributes]
        rfl
  | @setEmailAttribute io a₀ e₀ kind content newId now hown hlt =>
    let db₁ := (db.upsertAttribute a₀ e₀ kind content newId now).bumped a₀ .email
    by_cases hae : (a, e) = (a₀, e₀)
    · obtain ⟨rfl, rfl⟩ := Prod.mk.inj hae
      exact Or.inl (stamped_touchEmail (MailDb.modseq_bumped_self ..) hown)
    · have hsame : ∀ m, (db₁.touchEmail e₀ m).emailContents R a e = db.emailContents R a e := fun m =>
        MailDb.emailContents_touchEmail_of_ne h hown rfl (fun _ => rfl) (fun _ => rfl)
          MailDb.listEmailAttributes_upsertAttribute_of_ne hae
      exact absurd (hsame _) hne
  | @dismissEmailAttribute io a₀ e₀ kind now hown hlt =>
    let db₁ := (db.dismissAttribute a₀ e₀ kind now).bumped a₀ .email
    by_cases hae : (a, e) = (a₀, e₀)
    · obtain ⟨rfl, rfl⟩ := Prod.mk.inj hae
      exact Or.inl (stamped_touchEmail (MailDb.modseq_bumped_self ..) hown)
    · have hsame : ∀ m, (db₁.touchEmail e₀ m).emailContents R a e = db.emailContents R a e := fun m =>
        MailDb.emailContents_touchEmail_of_ne h hown rfl (fun _ => rfl) (fun _ => rfl)
          MailDb.listEmailAttributes_dismissAttribute_of_ne hae
      exact absurd (hsame _) hne
  | setPgpStatus hio => exact Or.inr ⟨hio, exists_of_emailContents_pgp hne⟩
  | setSpamVerdict =>
    refine (hne (MailDb.emailContents_updateEmails ?_ ?_ a e)).elim
    · exact fun _ => ⟨rfl, rfl⟩
    · exact fun _ => rfl
  | markIndexed =>
    refine (hne (MailDb.emailContents_updateEmails ?_ ?_ a e)).elim
    · exact fun _ => ⟨rfl, rfl⟩
    · exact fun _ => rfl

/-- The summary for a call, whatever it returned. -/
theorem emailContents_step (h : MailInv U db)
    (hne : (mailStep U db op).emailContents R a e ≠ db.emailContents R a e) :
    Stamped db (mailStep U db op) a .email e.uuid ∨ ChangesPgp R db op := by
  rcases mailStep_spec U db op with heq | heff
  · rw [heq] at hne
    exact absurd rfl hne
  · exact emailContents_effect h heff hne

end Summary

end Owney
