import Owney.EmailUpdate
import Owney.Lib.Utf8Text

/-!
# Training after an update

`apply_update` trains the classifier when it thinks that `$junk` changed. It compares the
keyword of the row it read with the list it is about to hand over, which is not in lower case
yet: `update_email` does that.

* `updateRecords` — updates of one email, one after the other, and what each of them did.
* `TrainingFollows` — a training call for each change of the stored `$junk`, and no other.
* `trainingFollows_iff` — this is so exactly if no update that is taken has a `keywords` object
  that lists `$junk` only in another spelling.
-/

namespace Owney

/-! ## Updates in a row -/

/-- What one update met, and what it did. -/
structure UpdateRecord where
  calls : UpdateCalls
  before : MailDb
  patch : Jmap.Json
  out : Updated

/-- An update: what it meets, the message its blob holds, and the patch. -/
abbrev UpdateRequest : Type := UpdateCalls × List UInt8 × Jmap.Json

/-- Updates of one email, with no other writer between them and its blob readable. -/
def updateRecords (U : Unicode) (T : TextOps) (a : AccountId) (id : String) :
    MailDb → List UpdateRequest → List UpdateRecord
  | _, [] => []
  | db, (c, raw, patch) :: updates =>
    let calls := { c with blob := some raw }
    let out := applyUpdate U T calls a id patch db
    ⟨calls, db, patch, out⟩ :: updateRecords U T a id out.db updates

/-- **Training follows what is stored**: a call of `train_spam_tokens` exactly when the stored
keywords gained or lost `$junk`, with the new membership, and none for an update that failed. -/
def TrainingFollows (id : String) (records : List UpdateRecord) : Prop :=
  ∀ x ∈ records, (∀ err, x.out.result = .error err → x.out.trained = none) ∧
    ∀ e, EmailId.parse id = some e → ∀ isSpam,
      x.out.trained.map (·.isSpam) = some isSpam ↔
        ¬("$junk" ∈ x.before.keywordsOf e ↔ "$junk" ∈ x.out.db.keywordsOf e) ∧
          (isSpam = true ↔ "$junk" ∈ x.out.db.keywordsOf e)

/-- A `keywords` object that lists `$junk` in another spelling lists it as it is stored as well,
unless the entry that decides sets it. -/
def JunkAsStored (U : Unicode) (members : Jmap.Members) : Prop :=
  ∀ inner, members.inner "keywords" = some inner →
    (∃ m ∈ inner, m.1 ≠ "$junk" ∧ U.toLowercase m.1 = "$junk") →
      lastPatch U members "$junk" = some true ∨
        lastPatch U members "$junk" = none ∧ "$junk" ∈ inner.keys

section Proofs

variable {U : Unicode} {T : TextOps} {c : UpdateCalls} {a : AccountId} {e : EmailId}
  {id : String} {o : PatchObject} {row : EmailRow} {r : Replacement} {db : MailDb} {out : Updated}

/-- What is compared with the keyword that was read: the list as the client spelled it. -/
theorem Accepted.newIsJunk_iff (h : Accepted U T c a e o row r db out) (hdb : MailInv U db) :
    newIsJunk (decide ("$junk" ∈ row.keywords)) r.1 = true ↔
      lastPatch U o.members "$junk" = some true ∨ lastPatch U o.members "$junk" = none ∧
        "$junk" ∈ keywordBase o.members (db.keywordsOf e) := by
  obtain ⟨hkeywords, -, -⟩ := row_of_emailById hdb h.read
  have hr := (applyPatch_ok h.handed).1
  have hlist : newIsJunk (decide ("$junk" ∈ row.keywords)) r.1 =
      decide ("$junk" ∈ r.1.getD row.keywords) := by
    unfold newIsJunk
    cases r.1 <;> rfl
  rw [hlist, decide_eq_true_eq, hr, afterEntries_getD, mem_foldl_assign, hkeywords]
  rfl

/-- What is stored. -/
theorem Accepted.stored_iff (h : Accepted U T c a e o row r db out) (hdb : MailInv U db) :
    "$junk" ∈ out.db.keywordsOf e ↔ lastPatch U o.members "$junk" = some true ∨
      ∃ x ∈ keywordBase o.members (db.keywordsOf e), U.toLowercase x = "$junk" ∧
        (x = "$junk" → lastPatch U o.members "$junk" = none) := by
  rw [h.mem_keywords hdb, mem_stored_iff]

/-- **One update.** It takes the new membership for what it is exactly if `$junk` is listed as it
is stored. -/
theorem Accepted.junk_iff (h : Accepted U T c a e o row r db out) (hdb : MailInv U db)
    (hU : U.toLowercase "$junk" = "$junk") :
    (newIsJunk (decide ("$junk" ∈ row.keywords)) r.1 = true ↔
      "$junk" ∈ out.db.keywordsOf e) ↔ JunkAsStored U o.members := by
  obtain ⟨hkeywords, -, hlower⟩ := row_of_emailById hdb h.read
  rw [h.newIsJunk_iff hdb, h.stored_iff hdb]
  constructor
  · rintro hiff inner hinner ⟨m, hm, hne, hjunk⟩
    have hbase : m.1 ∈ keywordBase o.members (db.keywordsOf e) :=
      (keywordBase_of_inner hinner).mpr ⟨m, hm, rfl⟩
    rcases hiff.mpr (.inr ⟨m.1, hbase, hjunk, fun heq => absurd heq hne⟩) with hset | ⟨hnone, hin⟩
    · exact .inl hset
    · rw [keywordBase, hinner] at hin
      exact .inr ⟨hnone, hin⟩
  · intro hplain
    constructor
    · rintro (hset | ⟨hnone, hin⟩)
      · exact .inl hset
      · exact .inr ⟨"$junk", hin, hU, fun _ => hnone⟩
    · rintro (hset | ⟨x, hx, hjunk, hnone⟩)
      · exact .inl hset
      by_cases hxjunk : x = "$junk"
      · exact .inr ⟨hnone hxjunk, hxjunk ▸ hx⟩
      cases hinner : o.members.inner "keywords" with
      | none =>
        rw [keywordBase, hinner] at hx
        exact absurd ((hlower x (hkeywords ▸ hx)).symm.trans hjunk) hxjunk
      | some inner =>
        obtain ⟨m, hm, rfl⟩ := (keywordBase_of_inner hinner).mp hx
        rcases hplain inner hinner ⟨m, hm, hxjunk, hjunk⟩ with hset | ⟨hlast, hin⟩
        · exact .inl hset
        · refine .inr ⟨hlast, ?_⟩
          rw [keywordBase, hinner]
          exact hin

/-- What is trained, when the blob is readable. -/
theorem Accepted.trained_iff {raw : List UInt8}
    (h : Accepted U T { c with blob := some raw } a e o row r db out) (isSpam : Bool) :
    out.trained.map (·.isSpam) = some isSpam ↔
      decide ("$junk" ∈ row.keywords) ≠ newIsJunk (decide ("$junk" ∈ row.keywords)) r.1 ∧
        newIsJunk (decide ("$junk" ∈ row.keywords)) r.1 = isSpam := by
  rw [h.trained]
  unfold JunkChange.training
  split
  · rename_i hne
    simp [hne]
  · rename_i heq
    simp [heq]

/-- **One update of a row of them.** -/
theorem trainingFollows_record (hdb : MailInv U db) (hm : Memberships db)
    (hU : U.toLowercase "$junk" = "$junk") (raw : List UInt8) (patch : Jmap.Json)
    (hout : out = applyUpdate U T { c with blob := some raw } a id patch db) :
    TrainingFollows id [⟨{ c with blob := some raw }, db, patch, out⟩] ↔
      ¬Takes { c with blob := some raw } a id patch db ∨
        ∀ o, PatchObject.ofJson patch = some o → JunkAsStored U o.members := by
  have htaken := @applyUpdate_takes U T { c with blob := some raw } a id patch db hdb hm
  simp only [TrainingFollows, List.forall_mem_singleton]
  rcases applyUpdate_cases U T { c with blob := some raw } a id patch db with
    ⟨err, hresult, hsame, htrained⟩ | ⟨e, o, row, r, he, ho, hresult, haccepted⟩
  · have hnot : ¬Takes { c with blob := some raw } a id patch db := fun htakes => by
      cases hresult.symm.trans (htaken.mpr htakes)
    rw [← hout] at hresult hsame htrained
    refine iff_of_true ⟨fun _ _ => htrained, fun e _ isSpam => ?_⟩ (.inl hnot)
    simp [htrained, hsame]
  · have htakes := htaken.mp hresult
    rw [← hout] at hresult haccepted
    have hjunk := haccepted.junk_iff hdb hU
    obtain ⟨hkeywords, -, -⟩ := row_of_emailById hdb haccepted.read
    have hcond : (¬Takes { c with blob := some raw } a id patch db ∨
        ∀ o, PatchObject.ofJson patch = some o → JunkAsStored U o.members) ↔
          JunkAsStored U o.members := by
      rw [or_iff_right (not_not_intro htakes)]
      refine ⟨fun h => h o ho, fun h o' ho' => ?_⟩
      cases ho.symm.trans ho'
      exact h
    rw [hcond, ← hjunk]
    have hold : "$junk" ∈ db.keywordsOf e ↔ decide ("$junk" ∈ row.keywords) = true := by
      rw [hkeywords, decide_eq_true_eq]
    constructor
    · rintro ⟨-, hfollows⟩
      have hspam := hfollows e he
      simp only [haccepted.trained_iff, hold] at hspam
      revert hspam
      generalize newIsJunk _ r.1 = new
      generalize decide ("$junk" ∈ row.keywords) = old
      by_cases hstored : "$junk" ∈ out.db.keywordsOf e
      · cases old <;> cases new <;> simp [hstored]
      · cases old <;> cases new <;> simp [hstored]
    · intro hnew
      refine ⟨fun err herr => absurd (hresult.symm.trans herr) (by simp), fun e' he' isSpam => ?_⟩
      cases he.symm.trans he'
      rw [haccepted.trained_iff, hold, ← hnew]
      generalize newIsJunk _ r.1 = new
      generalize decide ("$junk" ∈ row.keywords) = old
      cases old <;> cases new <;> cases isSpam <;> simp

theorem inv_applyUpdate (hdb : MailInv U db) (hm : Memberships db) (patch : Jmap.Json) :
    MailInv U (applyUpdate U T c a id patch db).db ∧
      Memberships (applyUpdate U T c a id patch db).db := by
  rcases applyUpdate_cases U T c a id patch db with
    ⟨err, -, hsame, -⟩ | ⟨e, o, row, r, -, -, -, haccepted⟩
  · rw [hsame]
    exact ⟨hdb, hm⟩
  · exact ⟨hdb.effect haccepted.effect, hm.effect haccepted.effect⟩

theorem trainingFollows_iff_of_inv (hU : U.toLowercase "$junk" = "$junk") (T : TextOps)
    (a : AccountId) (id : String) (updates : List UpdateRequest) {db : MailDb}
    (hdb : MailInv U db) (hm : Memberships db) :
    TrainingFollows id (updateRecords U T a id db updates) ↔
      ∀ x ∈ updateRecords U T a id db updates, ¬Takes x.calls a id x.patch x.before ∨
        ∀ o, PatchObject.ofJson x.patch = some o → JunkAsStored U o.members := by
  induction updates generalizing db with
  | nil => exact iff_of_true (fun x hx => nomatch hx) (fun x hx => nomatch hx)
  | cons update updates ih =>
    obtain ⟨c, raw, patch⟩ := update
    obtain ⟨out, hout⟩ : ∃ out, out = applyUpdate U T { c with blob := some raw } a id patch db :=
      ⟨_, rfl⟩
    have hafter : MailInv U out.db ∧ Memberships out.db := hout ▸ inv_applyUpdate hdb hm patch
    have hfirst := trainingFollows_record hdb hm hU raw patch hout
    rw [updateRecords, ← hout, List.forall_mem_cons, ← ih hafter.1 hafter.2, ← hfirst, TrainingFollows,
      List.forall_mem_cons, TrainingFollows, List.forall_mem_singleton]
    exact Iff.rfl

end Proofs

/-- **Training follows the stored keyword exactly if `$junk` is listed as it is stored**, in every
sequence of updates of an email in any reachable state. -/
theorem trainingFollows_iff (U : Unicode) (hU : U.toLowercase "$junk" = "$junk") (T : TextOps)
    (ops : List MailOp) (a : AccountId) (id : String) (updates : List UpdateRequest) :
    TrainingFollows id
        (updateRecords U T a id (Runs.run (mailStep U) MailDb.empty ops) updates) ↔
      ∀ x ∈ updateRecords U T a id (Runs.run (mailStep U) MailDb.empty ops) updates,
        ¬Takes x.calls a id x.patch x.before ∨
          ∀ o, PatchObject.ofJson x.patch = some o → JunkAsStored U o.members :=
  trainingFollows_iff_of_inv hU T a id updates (MailInv.reachable ⟨ops, rfl⟩) (.run U ops)

/-- A message with a header and some words. -/
def pillsMail : List UInt8 :=
  Utf8.encode "Subject: Pills\r\n\r\nCheap pills for everyone\r\n".toList

/-- `{"keywords/$junk": true}` -/
def toJunk : Jmap.Json :=
  .object [("keywords/$junk", .bool true)] ⟨List.pairwise_singleton _ _, fun m hm => by
    rw [List.mem_singleton.mp hm]
    exact .bool true⟩

/-- A message that is moved to Junk is trained. -/
theorem trainingFollows_toJunk : TrainingFollows "00000000-0000-0000-0000-000000000064"
    (updateRecords .ascii sampleText ⟨1⟩ "00000000-0000-0000-0000-000000000064"
      (Runs.run (mailStep .ascii) MailDb.empty oneMessageOps) [(allCalls, pillsMail, toJunk)]) := by
  refine (trainingFollows_iff .ascii (by decide) sampleText oneMessageOps ⟨1⟩ _ _).mpr ?_
  rintro x hx
  rw [List.mem_singleton.mp hx]
  refine .inr fun o ho inner hinner => ?_
  cases ho
  cases hinner

/-- `{"keywords": {"$Junk": true}}` -/
def toJunkSpelled : Jmap.Json :=
  .object [("keywords", .object [("$Junk", .bool true)])]
    ⟨List.pairwise_singleton _ _, fun m hm => by
      rw [List.mem_singleton.mp hm]
      exact .object (List.pairwise_singleton _ _) fun m hm => by
        rw [List.mem_singleton.mp hm]
        exact .bool true⟩

/-- **The message is stored as junk, and nothing is trained.** -/
theorem not_trainingFollows_toJunkSpelled :
    ¬TrainingFollows "00000000-0000-0000-0000-000000000064"
      (updateRecords .ascii sampleText ⟨1⟩ "00000000-0000-0000-0000-000000000064"
        (Runs.run (mailStep .ascii) MailDb.empty oneMessageOps)
          [(allCalls, pillsMail, toJunkSpelled)]) := by
  intro h
  have hid : EmailId.parse "00000000-0000-0000-0000-000000000064" = some ⟨100⟩ := by
    decide +kernel
  have hnone : (applyUpdate .ascii sampleText { allCalls with blob := some pillsMail } ⟨1⟩
      "00000000-0000-0000-0000-000000000064" toJunkSpelled
        (Runs.run (mailStep .ascii) MailDb.empty oneMessageOps)).trained.map (·.isSpam) ≠
          some true := by decide +kernel
  refine hnone (((h _ (List.mem_singleton_self _)).2 ⟨100⟩ hid true).mpr ?_)
  decide +kernel

end Owney
