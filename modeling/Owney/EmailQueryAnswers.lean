import Owney.EmailQuery
import Owney.Modseq

/-!
# What `Email/query` answers

The reference meaning of a filter is `MailDb.satisfies`: all the given conditions at once,
keywords in the case they are stored in. Each of the three paths selects something simpler
(`Selects`): the SQL of the flags asks for `$Flagged` and `$Seen`, which are never stored in
that spelling, `filter_emails` takes keywords in the client's case, and the other two paths
do not read the keyword conditions at all. `answered_iff` and `filtered_iff` say when that
makes no difference.

* `Uuid.compare_toString` — printed ids sort as numbers, so SQL's order is `newestFirst`.
* `Memberships` — no membership is stored twice, so the join of the plain path lists an
  email once.
-/

namespace Owney

open Tables

/-! ## The order of printed ids -/

/-- Texts of one length are compared at their first difference. -/
theorem append_lt_append {xs ys us vs : List Char} (h : xs.length = ys.length) :
    xs ++ us < ys ++ vs ↔ xs < ys ∨ xs = ys ∧ us < vs := by
  induction xs generalizing ys with
  | nil =>
    obtain rfl : ys = [] := List.length_eq_zero_iff.mp h.symm
    simp
  | cons x xs ih =>
    cases ys with
    | nil => cases h
    | cons y ys =>
      have hlen : xs.length = ys.length := Nat.succ.inj h
      simp only [List.cons_append, List.cons_lt_cons_iff, ih hlen, List.cons.injEq]
      tauto

theorem hexDigit_lt {m n : ℕ} (hn : n < 16) (h : m < n) : hexDigit m < hexDigit n := by
  interval_cases n <;> interval_cases m <;> decide

/-- The digits of a smaller number are a smaller text. -/
theorem hexDigits_lt {k m n : ℕ} (hn : n < 16 ^ k) (h : m < n) :
    hexDigits k m < hexDigits k n := by
  induction k generalizing m n with
  | zero => omega
  | succ k ih =>
    have hn' : n / 16 < 16 ^ k := by
      rw [pow_succ] at hn
      omega
    rw [hexDigits, hexDigits, append_lt_append (by simp only [length_hexDigits])]
    rcases Nat.lt_or_eq_of_le (Nat.div_le_div_right h.le : m / 16 ≤ n / 16) with hlt | heq
    · exact .inl (ih hn' hlt)
    · have hdigit : m % 16 < n % 16 := by omega
      refine .inr ⟨by rw [heq], ?_⟩
      simp [List.cons_lt_cons_iff, hexDigit_lt (Nat.mod_lt n (by decide)) hdigit]

/-- Hyphens stand at the same places. -/
theorem hyphenate_lt {ns : List ℕ} {xs ys : List Char} (hlen : xs.length = ys.length)
    (h : xs < ys) : hyphenate ns xs < hyphenate ns ys := by
  induction ns generalizing xs ys with
  | nil => exact h
  | cons n ns ih =>
    have htake : (xs.take n).length = (ys.take n).length := by simp [hlen]
    have hdrop : (xs.drop n).length = (ys.drop n).length := by simp [hlen]
    rw [← List.take_append_drop n xs, ← List.take_append_drop n ys, append_lt_append htake] at h
    rw [hyphenate, hyphenate, append_lt_append htake]
    refine h.imp id fun h => ⟨h.1, ?_⟩
    simp [ih hdrop h.2]

namespace Uuid

theorem toString_lt {u v : Uuid} (h : u.toNat < v.toNat) : u.toString < v.toString := by
  rw [String.lt_iff_toList_lt, toString, toString, String.toList_ofList, String.toList_ofList]
  refine hyphenate_lt (by simp only [length_hexDigits]) (hexDigits_lt ?_ h)
  exact v.isLt.trans_eq (by norm_num)

/-- **Printed ids sort as numbers.** -/
theorem compare_toString (u v : Uuid) :
    compare u.toString v.toString = compare u.toNat v.toNat := by
  rcases Nat.lt_trichotomy u.toNat v.toNat with h | h | h
  · rw [compare_lt_iff_lt.mpr h, compare_lt_iff_lt.mpr (toString_lt h)]
  · obtain rfl : u = v := BitVec.eq_of_toNat_eq h
    rw [compare_eq_iff_eq.mpr rfl, compare_eq_iff_eq.mpr rfl]
  · rw [compare_gt_iff_gt.mpr h, compare_gt_iff_gt.mpr (toString_lt h)]

end Uuid

/-! ## The rows of a statement -/

open Sql (Value Row)

/-- SQL's order on the rows of `emails` is the order of `newestFirst`. -/
theorem before_toSql (r r' : EmailsRow) :
    (Sql.before ["received_at", "id"] r.toSql r'.toSql : Prop) ↔
      toLex (-r.receivedAt, -(r.id.uuid.toNat : ℤ)) ≤
        toLex (-r'.receivedAt, -(r'.id.uuid.toNat : ℤ)) := by
  have hreceived : (r.toSql "received_at").compare (r'.toSql "received_at") =
      compare r.receivedAt r'.receivedAt := rfl
  have hid : (r.toSql "id").compare (r'.toSql "id") =
      compare r.id.uuid.toNat r'.id.uuid.toNat := Uuid.compare_toString _ _
  rw [Prod.Lex.toLex_le_toLex]
  simp only [Sql.before, hreceived, hid, neg_lt_neg_iff, neg_inj, neg_le_neg_iff, Nat.cast_le]
  rcases lt_trichotomy r.receivedAt r'.receivedAt with h | h | h
  · rw [compare_lt_iff_lt.mpr h]
    simp [h.not_gt, h.ne]
  · rw [compare_eq_iff_eq.mpr h]
    rcases lt_trichotomy r.id.uuid.toNat r'.id.uuid.toNat with h' | h' | h'
    · rw [compare_lt_iff_lt.mpr h']
      simp [h, h'.not_ge]
    · rw [compare_eq_iff_eq.mpr h']
      simp [h, h'.ge]
    · rw [compare_gt_iff_gt.mpr h']
      simp [h, h'.le]
  · rw [compare_gt_iff_gt.mpr h]
    simp [h]

theorem textRows_map {α : Type} (f : α → String) (xs : List α) :
    textRows (xs.map fun x => .text (f x)) = .ok (xs.map f) := by
  induction xs with
  | nil => rfl
  | cons x xs ih =>
    rw [textRows] at ih
    rw [List.map_cons, textRows, List.mapM_cons, ih]
    rfl

/-- A statement with the code's `ORDER BY` puts out the selected ids, newest first. -/
theorem textRows_output {stmt : Sql.Stmt} {t : Option String}
    (hcol : stmt.head.column = .col t "id")
    (horder : stmt.order = [("e", "received_at"), ("e", "id")]) (rows : List EmailsRow) :
    textRows (stmt.output (rows.map (·.toSql))) =
      .ok ((match stmt.limit with
        | none => newestFirst rows
        | some (n, m) => ((newestFirst rows).drop m).take n : List EmailsRow).map
          (·.id.uuid.toString)) := by
  have hsort : ((rows.map (·.toSql)).insertionSort fun r r' =>
      Sql.before (stmt.order.map (·.2)) r r') = (newestFirst rows).map (·.toSql) := by
    rw [horder]
    symm
    exact List.map_insertionSort _ _ _ _ fun r _ r' _ => (before_toSql r r').symm
  rw [Sql.Stmt.output, hsort, hcol, Sql.project, List.map_map]
  cases stmt.limit with
  | none => exact textRows_map (fun r : EmailsRow => r.id.uuid.toString) _
  | some l =>
    rw [Sql.cut, ← List.map_drop, ← List.map_take]
    exact textRows_map (fun r : EmailsRow => r.id.uuid.toString) _

/-- The count is the number of selected rows. -/
theorem countRow_output {stmt : Sql.Stmt} (hcol : stmt.head.column = .count)
    (hlimit : stmt.limit = none) (rows : List Row) :
    countRow (stmt.output rows) = .ok (rows.length : ℤ) := by
  rw [Sql.Stmt.output, hcol, hlimit, Sql.project, List.length_insertionSort]
  rfl

/-! ## The reference meaning -/

namespace MailDb

/-- Whether the email has a keyword, which is stored in lower case. -/
def hasKeyword (db : MailDb) (U : Unicode) (r : EmailsRow) (k : String) : Bool :=
  U.toLowercase k ∈ db.keywordsOf r.id

/-- Whether `Email/get` shows the flagged keyword. -/
def isFlagged (db : MailDb) (r : EmailsRow) : Bool := "$flagged" ∈ db.keywordsOf r.id

/-- Whether `mailboxes` counts the email as unread. -/
def isUnread (db : MailDb) (r : EmailsRow) : Bool :=
  (⟨r.id, "$seen"⟩ : EmailKeywordRow) ∉ db.emailKeyword

/-- Whether an email satisfies all the given conditions. -/
def satisfies (db : MailDb) (U : Unicode) (f : EmailFilter) (r : EmailsRow) : Bool :=
  f.inMailbox.all (fun m => (db.mailboxIdsOf r.id).any (·.uuid.toString = m)) &&
    f.hasKeyword.all (db.hasKeyword U r) && f.notKeyword.all (!db.hasKeyword U r ·) &&
    f.after.all (·.toInt < r.receivedAt) && f.before.all (r.receivedAt < ·.toInt) &&
    f.allInThread.all (r.threadId.uuid.toString = ·) &&
    f.isFlagged.all (db.isFlagged r == ·) && f.isUnread.all (db.isUnread r == ·)

/-- The emails of an account. -/
def own (db : MailDb) (a : AccountId) : List EmailsRow := db.emails.filter (·.accountId = a)

/-- The account's emails satisfying all conditions, newest first. -/
def answer (db : MailDb) (U : Unicode) (a : AccountId) (f : EmailFilter) : List EmailsRow :=
  newestFirst ((db.own a).filter (db.satisfies U f))

end MailDb

/-- The query answers its filter: the ids of the page and the total of the reference list. -/
def FilterAnswered (U : Unicode) (S : Sqlite) (db : MailDb) (a : AccountId) (args : QueryArgs) :
    Prop :=
  ∃ r, (∀ fresh hits, emailQuery S fresh db a args hits = .ok r) ∧
    r.ids = (((db.answer U a args.theFilter).drop args.start).take args.upTo).map
      (·.id.uuid.toString) ∧
    r.total = (db.answer U a args.theFilter).length

/-- `filter_emails` selects exactly the hits of the account that satisfy the filter. -/
def Filtered (U : Unicode) (S : Sqlite) (db : MailDb) (a : AccountId) (f : EmailFilter)
    (hits : List EmailId) : Prop :=
  ∃ out, (∀ fresh, filterEmails S fresh db a hits f = .ok out) ∧
    ∀ id, id ∈ out ↔ id ∈ hits ∧ ∃ r ∈ db.own a, r.id = id ∧ db.satisfies U f r

/-! ## What the code selects -/

namespace EmailFilter

/-- The filter asks for `$Flagged` or `$Seen`, which no email has in that spelling. -/
def asksFlag (f : EmailFilter) : Bool := f.isFlagged = some true || f.isUnread = some false

/-- The conditions that the two paths without a text do apply. -/
def applied (f : EmailFilter) : EmailFilter :=
  { inMailbox := f.inMailbox, after := f.after, before := f.before, allInThread := f.allInThread }

/-- The filter of a text search asks for a keyword that is stored in another spelling. -/
def asksCase (U : Unicode) (f : EmailFilter) : Bool :=
  f.asksFlag || f.hasKeyword.any fun k => U.toLowercase k ≠ k

/-- The conditions that `filter_emails` does apply. -/
def appliedToHits (U : Unicode) (f : EmailFilter) : EmailFilter :=
  { f.applied with
    hasKeyword := f.hasKeyword
    notKeyword := f.notKeyword.filter fun k => U.toLowercase k = k }

end EmailFilter

/-- Nothing is missed among some emails: if the filter asks for what is never stored, none
of them satisfies it; otherwise those that the applied conditions let through satisfy it. -/
def NothingMissed (db : MailDb) (U : Unicode) (rows : List EmailsRow) (asks : Bool)
    (applied f : EmailFilter) : Prop :=
  if asks then ∀ r ∈ rows, ¬db.satisfies U f r
  else ∀ r ∈ rows, db.satisfies U applied r → db.satisfies U f r

instance (db : MailDb) (U : Unicode) (rows : List EmailsRow) (asks : Bool)
    (applied f : EmailFilter) : Decidable (NothingMissed db U rows asks applied f) :=
  inferInstanceAs (Decidable (if asks then ∀ r ∈ rows, ¬db.satisfies U f r
    else ∀ r ∈ rows, db.satisfies U applied r → db.satisfies U f r))

/-! ## What the parts select -/

section Parts

variable {U : Unicode} {db : MailDb} {a : AccountId} {f : EmailFilter} {r : EmailsRow}

/-- A string without quotes and NULs is its own literal. -/
theorem literal_of_plain {s : String} (hquote : '\'' ∉ s.toList) (hnul : '\x00' ∉ s.toList) :
    literal s = s := by
  have hplain : ∀ c ∈ s.toList, c ≠ '\'' ∧ c ≠ '\x00' := fun c hc =>
    ⟨fun he => hquote (he ▸ hc), fun he => hnul (he ▸ hc)⟩
  rw [literal, (Sql.contained_of_plain hplain).2, String.ofList_toList]

theorem mem_keywordsOf {k : String} :
    k ∈ db.keywordsOf r.id ↔ ∃ ek ∈ db.emailKeyword, ek.emailId = r.id ∧ ek.keyword = k := by
  simp only [MailDb.keywordsOf, List.mem_map, List.mem_filter, decide_eq_true_eq, and_assoc]

/-- A keyword part, as a question about `Email/get`'s keywords. -/
theorem holds_keyword (present : Bool) (k : String) :
    (WherePart.keyword present k).holds db a r =
      (decide (literal k ∈ db.keywordsOf r.id) == present) := by
  have hany : (db.emailKeyword.any fun ek =>
      ek.emailId.uuid.toString = r.id.uuid.toString ∧ ek.keyword = literal k) =
        decide (literal k ∈ db.keywordsOf r.id) := by
    rw [Bool.eq_iff_iff, List.any_eq_true, decide_eq_true_eq, mem_keywordsOf]
    simp only [decide_eq_true_eq, emailId_text_eq]
  rw [WherePart.holds, hany]

theorem holds_inMailbox {m : String} (hm : literal m = m) :
    (WherePart.inMailbox m).holds db a r =
      (db.mailboxIdsOf r.id).any (·.uuid.toString = m) := by
  rw [WherePart.holds, MailDb.mailboxIdsOf, List.any_map, List.any_filter, hm]
  simp only [emailId_text_eq, Bool.decide_and, Function.comp_apply]

/-- No stored keyword has a capital letter in it. -/
theorem not_mem_keywordsOf (hdb : MailInv U db) {k : String} (hk : U.toLowercase k ≠ k) :
    k ∉ db.keywordsOf r.id := by
  intro hmem
  obtain ⟨ek, hek, -, rfl⟩ := mem_keywordsOf.mp hmem
  exact hk (hdb.keywordsLower ek hek)

/-- The flag parts let an email through if the filter does not ask for a flag. -/
theorem all_flagParts (hdb : MailInv U db) (hflagged : U.toLowercase "$Flagged" ≠ "$Flagged")
    (hseen : U.toLowercase "$Seen" ≠ "$Seen") :
    (f.flagParts.all fun p => p.holds db a r) = !f.asksFlag := by
  have hno : ∀ k, literal k = k → U.toLowercase k ≠ k → ∀ present,
      (WherePart.keyword present k).holds db a r = !present := by
    intro k hliteral hk present
    have hnot : k ∉ db.keywordsOf r.id := not_mem_keywordsOf hdb hk
    rw [holds_keyword, hliteral, decide_eq_false hnot]
    cases present <;> rfl
  have h₁ := hno "$Flagged" (by decide +kernel) hflagged
  have h₂ := hno "$Seen" (by decide +kernel) hseen
  rw [EmailFilter.flagParts, EmailFilter.asksFlag, List.all_append]
  cases f.isFlagged with
  | none =>
    cases f.isUnread with
    | none => rfl
    | some unread => cases unread <;> simp [h₂]
  | some flagged =>
    cases f.isUnread with
    | none => cases flagged <;> simp [h₁]
    | some unread => cases flagged <;> cases unread <;> simp [h₁, h₂]

theorem all_toList_map {α β : Type} (o : Option α) (g : α → β) (p : β → Bool) :
    (o.map g).toList.all p = o.all fun x => p (g x) := by
  cases o <;> simp

/-- The mailbox part, if the mailbox is its own literal. -/
theorem all_inMailbox (h : ∀ m ∈ f.inMailbox, literal m = m) :
    (f.inMailbox.all fun m => (WherePart.inMailbox m).holds db a r) =
      f.inMailbox.all fun m => (db.mailboxIdsOf r.id).any (·.uuid.toString = m) := by
  cases hm : f.inMailbox with
  | none => rw [Option.all_none, Option.all_none]
  | some m => rw [Option.all_some, Option.all_some, holds_inMailbox (h m hm)]

/-- The thread part. -/
theorem all_thread (h : ∀ t ∈ f.allInThread, literal t = t) :
    (f.allInThread.all fun t => (WherePart.thread t).holds db a r) =
      f.allInThread.all (r.threadId.uuid.toString = ·) := by
  cases ht : f.allInThread with
  | none => rw [Option.all_none, Option.all_none]
  | some t => rw [Option.all_some, Option.all_some, WherePart.holds, h t ht]

/-- The `hasKeyword` part: a keyword that is not in lower case is not stored. -/
theorem all_hasKeyword (hdb : MailInv U db) (h : ∀ k ∈ f.hasKeyword, literal k = k) :
    (f.hasKeyword.all fun k => (WherePart.keyword true k).holds db a r) =
      (!(f.hasKeyword.any fun k => U.toLowercase k ≠ k) &&
        f.hasKeyword.all (db.hasKeyword U r)) := by
  cases hk : f.hasKeyword with
  | none => simp
  | some k =>
    have hliteral := h k hk
    simp only [Option.all_some, Option.any_some, holds_keyword, hliteral, MailDb.hasKeyword]
    by_cases hlower : U.toLowercase k = k
    · simp [hlower]
    · simp [hlower, not_mem_keywordsOf hdb hlower]

/-- The `notKeyword` part: such a keyword excludes no email. -/
theorem all_notKeyword (hdb : MailInv U db) (h : ∀ k ∈ f.notKeyword, literal k = k) :
    (f.notKeyword.all fun k => (WherePart.keyword false k).holds db a r) =
      (f.notKeyword.filter fun k => U.toLowercase k = k).all (!db.hasKeyword U r ·) := by
  cases hk : f.notKeyword with
  | none => simp
  | some k =>
    have hliteral := h k hk
    simp only [Option.all_some, holds_keyword, hliteral, MailDb.hasKeyword]
    by_cases hlower : U.toLowercase k = k
    · simp [hlower]
    · simp [hlower, not_mem_keywordsOf hdb hlower]

section Selected

variable (hdb : MailInv U db) (hflagged : U.toLowercase "$Flagged" ≠ "$Flagged")
  (hseen : U.toLowercase "$Seen" ≠ "$Seen")

include hdb hflagged hseen

/-- The parts of `query_emails_with_filters`. -/
theorem all_queryParts (hm : ∀ m ∈ f.inMailbox, literal m = m)
    (ht : ∀ t ∈ f.allInThread, literal t = t) :
    (f.queryParts.all fun p => p.holds db a r) =
      (!f.asksFlag && db.satisfies U f.applied r) := by
  rw [EmailFilter.queryParts, List.all_append, all_flagParts hdb hflagged hseen, Bool.and_comm]
  congr 1
  simp only [List.all_append, all_toList_map, all_inMailbox hm, all_thread ht, MailDb.satisfies,
    EmailFilter.applied, Option.all_none, Bool.and_true]
  rfl

/-- The parts of `filter_emails`. -/
theorem all_filterParts {ids : List EmailId} (hm : ∀ m ∈ f.inMailbox, literal m = m)
    (ht : ∀ t ∈ f.allInThread, literal t = t) (hk : ∀ k ∈ f.hasKeyword, literal k = k)
    (hn : ∀ k ∈ f.notKeyword, literal k = k) :
    ((f.filterParts ids).all fun p => p.holds db a r) =
      (decide (r.id ∈ ids) && (!f.asksCase U && db.satisfies U (f.appliedToHits U) r)) := by
  have hid : (WherePart.idIn ids).holds db a r = decide (r.id ∈ ids) := by
    simp only [WherePart.holds, WherePart.literal_uuid, List.mem_map, emailId_text_eq,
      exists_eq_right]
  rw [EmailFilter.filterParts]
  simp only [List.cons_append, List.all_cons, List.all_append, all_toList_map, hid,
    all_inMailbox hm, all_thread ht, all_hasKeyword hdb hk, all_notKeyword hdb hn,
    all_flagParts hdb hflagged hseen, MailDb.satisfies, EmailFilter.appliedToHits,
    EmailFilter.applied, EmailFilter.asksCase, Option.all_none, Bool.and_true, Bool.not_or]
  simp only [WherePart.holds]
  ac_rfl

end Selected

end Parts

/-! ## Memberships -/

namespace Memberships

variable {db : MailDb} {a : AccountId} {r : EmailsRow} {m : String}

/-- The join lists an email once for the one membership it may have. -/
theorem join_eq (h : Memberships db) (r : EmailsRow) (m : String) :
    (db.emailMailbox.filter fun em => em.emailId = r.id ∧ em.mailboxId.uuid.toString = m).map
        (fun _ => r) =
      if (db.mailboxIdsOf r.id).any (·.uuid.toString = m) then [r] else [] := by
  have hany : (db.mailboxIdsOf r.id).any (fun x => decide (x.uuid.toString = m)) = true ↔
      ∃ em ∈ db.emailMailbox, em.emailId = r.id ∧ em.mailboxId.uuid.toString = m := by
    simp [MailDb.mailboxIdsOf]
  have hnd := h.nodup.filter
    fun em : EmailMailboxRow => em.emailId = r.id ∧ em.mailboxId.uuid.toString = m
  have hsame : ∀ em ∈ db.emailMailbox.filter
      (fun em => em.emailId = r.id ∧ em.mailboxId.uuid.toString = m),
      em.emailId = r.id ∧ em.mailboxId.uuid.toString = m := fun em hem => by
    simpa using (List.mem_filter.mp hem).2
  split_ifs with hif
  · obtain ⟨em, hem, hid⟩ := hany.mp hif
    have hmem : em ∈ db.emailMailbox.filter
        (fun em => em.emailId = r.id ∧ em.mailboxId.uuid.toString = m) :=
      List.mem_filter.mpr ⟨hem, by simpa using hid⟩
    cases hrows : db.emailMailbox.filter
        (fun em => em.emailId = r.id ∧ em.mailboxId.uuid.toString = m) with
    | nil => rw [hrows] at hmem; cases hmem
    | cons x xs =>
      rw [hrows] at hnd hsame
      cases xs with
      | nil => rfl
      | cons y ys =>
        obtain ⟨hx, hx'⟩ := hsame x (by simp)
        obtain ⟨hy, hy'⟩ := hsame y (by simp)
        have hxy : x = y := by
          cases x
          cases y
          simp only at hx hy hx' hy'
          rw [hx, hy, MailboxId.uuid_injective (Uuid.toString_injective (hx'.trans hy'.symm))]
        simp [hxy] at hnd
  · rw [List.map_eq_nil_iff, List.filter_eq_nil_iff]
    intro em hem hid
    exact hif (hany.mpr ⟨em, hem, by simpa using hid⟩)

/-- The plain path selects by the mailbox alone. -/
theorem plainRows_eq (h : Memberships db) (U : Unicode) (a : AccountId) (m : Option String) :
    db.plainRows a m = (db.own a).filter (db.satisfies U { inMailbox := m }) := by
  have hsat : ∀ r, db.satisfies U { inMailbox := m } r =
      m.all fun m => (db.mailboxIdsOf r.id).any (·.uuid.toString = m) := by
    intro r
    simp [MailDb.satisfies]
  rw [List.filter_congr fun r _ => hsat r]
  cases m with
  | none => simp [MailDb.own, MailDb.plainRows]
  | some m =>
    simp only [MailDb.plainRows, Option.all_some, h.join_eq]
    change (db.own a).flatMap _ = _
    induction db.own a with
    | nil => rfl
    | cons r rows ih =>
      rw [List.flatMap_cons, List.filter_cons, ih]
      split_ifs <;> rfl

end Memberships

/-! ## The answers -/

/-- What the documentation of `str::to_lowercase` says of ASCII text. -/
def Unicode.LowersAscii (U : Unicode) : Prop :=
  ∀ s : String, (∀ c ∈ s.toList, c.toNat < 128) → U.toLowercase s = asciiLower s

/-- No limit of the engine is reached: a statement of the fragment gives the rows it means. -/
def Sqlite.Unlimited (S : Sqlite) : Prop :=
  ∀ text ts stmt, Sql.lex vocabulary text = .tokens ts → Sql.parse ts = some stmt →
    ∀ (db : MailDb) ps out, stmt.eval db.toSql ps = some out → S.query db text ps = .ok out

theorem Sqlite.fragment_unlimited : Sqlite.fragment.Unlimited := by
  intro text ts stmt h hparse db ps out hout
  simp only [Sqlite.fragment, h, hparse, Option.bind_some, hout]

/-- Two selections, one inside the other, are as long only if they are the same. -/
theorem length_filter_iff {α : Type} {p q : α → Bool} {l : List α}
    (h : (∀ x ∈ l, p x → q x) ∨ ∀ x ∈ l, q x → p x) :
    (l.filter p).length = (l.filter q).length ↔ ∀ x ∈ l, p x = q x := by
  have key : ∀ {p q : α → Bool}, (∀ x ∈ l, p x → q x) →
      (l.filter p).length = (l.filter q).length → ∀ x ∈ l, p x = q x := by
    intro p q hpq hlen x hx
    have hsub : (l.filter q).filter p = l.filter p := by
      rw [List.filter_filter]
      refine List.filter_congr fun y hy => ?_
      cases hp : p y with
      | false => rfl
      | true => rw [hpq y hy hp]; rfl
    have hall := List.length_filter_eq_length_iff.mp (hsub ▸ hlen)
    rw [Bool.eq_iff_iff]
    exact ⟨hpq x hx, fun hq => hall x (List.mem_filter.mpr ⟨hx, hq⟩)⟩
  constructor
  · intro hlen
    rcases h with h | h
    · exact key h hlen
    · exact fun x hx => (key h hlen.symm x hx).symm
  · intro heq
    rw [List.filter_congr heq]

section Answers

variable {U : Unicode} {S : Sqlite} {db : MailDb} {a : AccountId} {f : EmailFilter}
  {rows : List EmailsRow} {asks : Bool} {applied : EmailFilter}

/-- Selecting by the applied conditions is selecting by all of them. -/
theorem nothingMissed_iff
    (hle : asks = false → ∀ r, db.satisfies U f r → db.satisfies U applied r) :
    NothingMissed db U rows asks applied f ↔
      ∀ r ∈ rows, (!asks && db.satisfies U applied r) = db.satisfies U f r := by
  cases asks with
  | true => simp [NothingMissed]
  | false =>
    have hle := hle rfl
    simp only [NothingMissed, Bool.false_eq_true, if_false, Bool.not_false, Bool.true_and]
    refine forall_congr' fun r => forall_congr' fun _ => ?_
    exact ⟨fun h => Bool.eq_iff_iff.mpr ⟨h, hle r⟩, fun h hs => by rwa [← h]⟩

/-- What is selected is part of the reference list, or the other way round. -/
theorem length_selected_iff
    (hle : asks = false → ∀ r, db.satisfies U f r → db.satisfies U applied r) :
    (rows.filter fun r => !asks && db.satisfies U applied r).length =
        (rows.filter (db.satisfies U f)).length ↔
      NothingMissed db U rows asks applied f := by
  rw [nothingMissed_iff hle]
  refine length_filter_iff ?_
  cases asks with
  | true => exact .inl fun r _ h => nomatch h
  | false => exact .inr fun r _ h => by simpa using hle rfl r h

theorem satisfies_applied {r : EmailsRow} (h : db.satisfies U f r) :
    db.satisfies U f.applied r := by
  simp only [MailDb.satisfies, Bool.and_eq_true] at h
  simp [MailDb.satisfies, EmailFilter.applied, h]

theorem satisfies_appliedToHits {r : EmailsRow} (h : db.satisfies U f r) :
    db.satisfies U (f.appliedToHits U) r := by
  simp only [MailDb.satisfies, Bool.and_eq_true] at h
  obtain ⟨⟨⟨⟨⟨⟨⟨hm, hk⟩, hn⟩, ha⟩, hb⟩, ht⟩, -⟩, -⟩ := h
  have hn' : (f.notKeyword.filter fun k => U.toLowercase k = k).all
      (!db.hasKeyword U r ·) = true := by
    cases hnot : f.notKeyword with
    | none => rfl
    | some k =>
      rw [hnot] at hn
      by_cases hk : U.toLowercase k = k
      · simpa [Option.filter, hk] using hn
      · simp [Option.filter, hk]
  simp only [MailDb.satisfies, EmailFilter.appliedToHits, EmailFilter.applied, hm, hk, hn', ha, hb,
    ht, Option.all_none, Bool.and_self]

/-- If the answer is cut from a selection of the account's emails, it is right exactly if
the selection is. -/
theorem answered_iff_of_selected {args : QueryArgs} (sel : EmailsRow → Bool)
    (hsel : ∀ r ∈ db.own a, sel r = (!asks && db.satisfies U applied r))
    (hle : asks = false → ∀ r, db.satisfies U args.theFilter r → db.satisfies U applied r)
    (hq : ∀ fresh hits, emailQuery S fresh db a args hits =
      .ok ⟨(((newestFirst ((db.own a).filter sel)).drop args.start).take args.upTo).map
        (·.id.uuid.toString), ((db.own a).filter sel).length, db.modseq a .email, args.start⟩) :
    FilterAnswered U S db a args ↔ NothingMissed db U (db.own a) asks applied args.theFilter := by
  rw [List.filter_congr hsel] at hq
  constructor
  · rintro ⟨r, hr, -, htotal⟩
    obtain rfl := Except.ok.inj ((hq ⟨0⟩ []).symm.trans (hr ⟨0⟩ []))
    have hlen := Int.ofNat.inj htotal
    rw [MailDb.answer, newestFirst, length_orderBy] at hlen
    exact (length_selected_iff hle).mp hlen
  · intro h
    have heq := (nothingMissed_iff hle).mp h
    rw [List.filter_congr heq] at hq
    refine ⟨_, hq, rfl, ?_⟩
    rw [MailDb.answer, newestFirst, length_orderBy]

end Answers

section Paths

variable {U : Unicode} {S : Sqlite} {db : MailDb} {a : AccountId} {f : EmailFilter}

/-- A quote-free string stays inside its literal. -/
theorem contained_of_quoteFree {cs : List Char} (h : '\'' ∉ cs) : Sql.contained cs := by
  induction cs with
  | nil => rfl
  | cons c cs ih =>
    rw [List.mem_cons, not_or] at h
    by_cases hnul : c = '\x00'
    · subst hnul
      rw [Sql.contained]
    · rw [Sql.contained]
      · exact ih h.2
      · exact hnul
      · exact fun _ he => absurd he.symm h.1
      · exact fun he => h.1 he.symm

theorem hasNul_flagParts : ∀ q ∈ f.flagParts, ¬q.HasNul := by
  intro q hq
  simp only [EmailFilter.flagParts, List.mem_append, Option.mem_toList,
    Option.map_eq_some_iff] at hq
  rcases hq with ⟨b, -, rfl⟩ | ⟨b, -, rfl⟩
  · simp [WherePart.HasNul, WherePart.splices]
  · simp [WherePart.HasNul, WherePart.splices]

/-- A part with a NUL in it has it from the strings of the filter. -/
theorem hasNul_queryParts (p : WherePart) (hp : ¬p.HasNul) :
    (∃ q ∈ p :: f.queryParts, q.HasNul) ↔
      ∃ s ∈ f.inMailbox.toList ++ f.allInThread.toList, '\x00' ∈ s.toList := by
  constructor
  · rintro ⟨q, hq, hnul⟩
    simp only [EmailFilter.queryParts, List.mem_cons, List.mem_append, Option.mem_toList,
      Option.map_eq_some_iff] at hq
    rcases hq with rfl | ((((⟨m, hm, rfl⟩ | ⟨n, -, rfl⟩) | ⟨n, -, rfl⟩) | ⟨t, ht, rfl⟩) | hflag)
    · exact absurd hnul hp
    · obtain ⟨s, hs, hnul⟩ := hnul
      obtain rfl := List.mem_singleton.mp hs
      exact ⟨s, by simp [hm], hnul⟩
    · obtain ⟨s, hs, -⟩ := hnul
      cases hs
    · obtain ⟨s, hs, -⟩ := hnul
      cases hs
    · obtain ⟨s, hs, hnul⟩ := hnul
      obtain rfl := List.mem_singleton.mp hs
      exact ⟨s, by simp [ht], hnul⟩
    · exact absurd hnul (hasNul_flagParts q hflag)
  · rintro ⟨s, hs, hnul⟩
    rcases List.mem_append.mp hs with hm | ht
    · refine ⟨.inMailbox s, ?_, s, List.mem_cons_self, hnul⟩
      simp [EmailFilter.queryParts, Option.mem_toList.mp hm]
    · refine ⟨.thread s, ?_, s, List.mem_cons_self, hnul⟩
      simp [EmailFilter.queryParts, Option.mem_toList.mp ht]

/-- The parts of the query, if its strings have no quote in them. -/
theorem fit_account_queryParts
    (hquote : ∀ s ∈ f.inMailbox.toList ++ f.allInThread.toList, '\'' ∉ s.toList) :
    ∀ q ∈ WherePart.account a :: f.queryParts, q.Fit :=
  List.forall_mem_cons.mpr ⟨WherePart.fit_of_splices rfl (by simp) (WherePart.contained_uuid _),
    EmailFilter.fit_queryParts fun s hs => contained_of_quoteFree (hquote s hs)⟩

theorem not_hasNul_account : ¬(WherePart.account a).HasNul := by
  rintro ⟨s, hs, hnul⟩
  obtain rfl := List.mem_singleton.mp hs
  exact WherePart.nul_not_mem_uuid _ hnul

/-- What `query_emails_with_filters` answers: the page of the selected emails and their number. -/
theorem queryEmailsWithFilters_ok (hall : S.Unlimited) {position limit : ℕ}
    (hlimit : limit < 2 ^ 63) (hposition : position < 2 ^ 63)
    (hquote : ∀ s ∈ f.inMailbox.toList ++ f.allInThread.toList, '\'' ∉ s.toList)
    (hnul : ¬∃ s ∈ f.inMailbox.toList ++ f.allInThread.toList, '\x00' ∈ s.toList) :
    queryEmailsWithFilters S db a f position limit =
      .ok ((((newestFirst (db.selected a (.account a :: f.queryParts))).drop position).take
        limit).map (·.id.uuid.toString), (db.selected a (.account a :: f.queryParts)).length,
          db.modseq a .email) := by
  have hparam : ∀ q ∈ f.queryParts, q ≠ .accountParam := fun q hq =>
    EmailFilter.no_param [] q (List.mem_append_right _ hq)
  have hparts : ¬∃ q ∈ WherePart.account a :: f.queryParts, q.HasNul := fun h =>
    hnul ((hasNul_queryParts _ not_hasNul_account).mp h)
  have hp : WherePart.account a = .accountParam → ([] : List Value)[0]? = some (accountText a) :=
    fun h => nomatch h
  have hcall : queryEmailsWithFilters S db a f position limit =
      (S.query db (querySql (.account a :: f.queryParts) limit position) [] >>= fun rows =>
        textRows rows >>= fun ids =>
          S.query db (countSql (.account a :: f.queryParts)) [] >>= fun counts =>
            countRow counts >>= fun total => pure (ids, total, db.modseq a .email)) := rfl
  have hread := read_query (aroundQuery hlimit hposition)
    (t := querySql (.account a :: f.queryParts) limit position) rfl
    (fit_account_queryParts hquote) hparts
  have hread' := read_query aroundCount (t := countSql (.account a :: f.queryParts))
    (by rw [String.append_empty]; rfl) (fit_account_queryParts hquote) hparts
  generalize querySql (.account a :: f.queryParts) limit position = t at hcall hread
  generalize countSql (.account a :: f.queryParts) = u at hcall hread'
  obtain ⟨ts, hlex, hparse⟩ := hread
  obtain ⟨ts', hlex', hparse'⟩ := hread'
  have hrows := hall _ _ _ hlex hparse db [] _
    (eval_query (aroundQuery hlimit hposition) (a := a) hparam rfl hp db)
  have hcount := hall _ _ _ hlex' hparse' db [] _
    (eval_query aroundCount (a := a) hparam rfl hp db)
  rw [hcall, hrows, hcount]
  simp only [bind, Except.bind, pure, Except.pure]
  rw [textRows_output (t := none), countRow_output, List.length_map]
  all_goals rfl

/-- With a NUL in one of the strings it is refused. -/
theorem queryEmailsWithFilters_error (hS : S.Conforms) {position limit : ℕ}
    (hlimit : limit < 2 ^ 63) (hposition : position < 2 ^ 63)
    (hquote : ∀ s ∈ f.inMailbox.toList ++ f.allInThread.toList, '\'' ∉ s.toList)
    (hnul : ∃ s ∈ f.inMailbox.toList ++ f.allInThread.toList, '\x00' ∈ s.toList) :
    queryEmailsWithFilters S db a f position limit = .error .sqlite := by
  have hlex := lex_query_of_nul (aroundQuery hlimit hposition)
    (t := querySql (.account a :: f.queryParts) limit position) rfl
    (fit_account_queryParts (a := a) hquote) ((hasNul_queryParts _ not_hasNul_account).mpr hnul)
  have hcall : queryEmailsWithFilters S db a f position limit =
      (S.query db (querySql (.account a :: f.queryParts) limit position) [] >>= fun rows =>
        textRows rows >>= fun ids =>
          S.query db (countSql (.account a :: f.queryParts)) [] >>= fun counts =>
            countRow counts >>= fun total => pure (ids, total, db.modseq a .email)) := rfl
  generalize querySql (.account a :: f.queryParts) limit position = t at hcall hlex
  rw [hcall, hS.unterminated t hlex db []]
  rfl

variable (hS : S.Conforms) (hall : S.Unlimited) (hdb : MailInv U db)
  (hflagged : U.toLowercase "$Flagged" ≠ "$Flagged") (hseen : U.toLowercase "$Seen" ≠ "$Seen")

include hS hall hdb hflagged hseen

/-- **The path of `query_emails_with_filters`.** -/
theorem answered_enhanced {args : QueryArgs} (htext : args.theFilter.text = none)
    (henhanced : args.theFilter.enhanced = true)
    (hquote : ∀ s ∈ args.theFilter.inMailbox.toList ++ args.theFilter.allInThread.toList,
      '\'' ∉ s.toList) :
    FilterAnswered U S db a args ↔
      (∀ s ∈ args.theFilter.inMailbox.toList ++ args.theFilter.allInThread.toList,
        '\x00' ∉ s.toList) ∧
      NothingMissed db U (db.own a) args.theFilter.asksFlag args.theFilter.applied
        args.theFilter := by
  have hcall : ∀ fresh hits, emailQuery S fresh db a args hits =
      (queryEmailsWithFilters S db a args.theFilter args.start args.upTo).map fun out =>
        ⟨out.1, out.2.1, out.2.2, args.start⟩ := by
    intro fresh hits
    rw [emailQuery, if_neg (by rw [htext]; decide), if_pos henhanced]
    cases queryEmailsWithFilters S db a args.theFilter args.start args.upTo <;> rfl
  by_cases hnul : ∃ s ∈ args.theFilter.inMailbox.toList ++ args.theFilter.allInThread.toList,
      '\x00' ∈ s.toList
  · -- the text ends inside a literal and is refused
    have herror : queryEmailsWithFilters S db a args.theFilter args.start args.upTo = _ :=
      queryEmailsWithFilters_error hS args.upTo_lt args.start_lt hquote hnul
    constructor
    · rintro ⟨r, hr, -⟩
      have hr := hr ⟨0⟩ []
      rw [hcall, herror] at hr
      cases hr
    · rintro ⟨h, -⟩
      obtain ⟨s, hs, hs'⟩ := hnul
      exact absurd hs' (h s hs)
  · have hliteral : ∀ s ∈ args.theFilter.inMailbox.toList ++ args.theFilter.allInThread.toList,
        literal s = s := fun s hs => literal_of_plain (hquote s hs) fun hs' => hnul ⟨s, hs, hs'⟩
    rw [and_iff_right fun s hs hs' => hnul ⟨s, hs, hs'⟩]
    refine answered_iff_of_selected _ (fun r _ => all_queryParts (a := a) hdb hflagged hseen
      (fun m hm => hliteral m (List.mem_append_left _ (Option.mem_toList.mpr hm)))
      fun t ht => hliteral t (List.mem_append_right _ (Option.mem_toList.mpr ht)))
      (fun _ r hr => satisfies_applied hr) fun fresh hits => ?_
    rw [hcall, queryEmailsWithFilters_ok hall args.upTo_lt args.start_lt hquote hnul,
      MailDb.selected_eq (.inr rfl)]
    exact rfl

omit hS hall hdb hflagged hseen in
/-- **The plain path.** -/
theorem answered_plain (hmem : Memberships db) {args : QueryArgs}
    (htext : args.theFilter.text = none) (henhanced : args.theFilter.enhanced = false) :
    FilterAnswered U S db a args ↔ NothingMissed db U (db.own a) args.theFilter.asksFlag
      args.theFilter.applied args.theFilter := by
  simp only [EmailFilter.enhanced, Bool.or_eq_false_iff, Option.isSome_eq_false_iff,
    Option.isNone_iff_eq_none] at henhanced
  obtain ⟨⟨⟨⟨hafter, hbefore⟩, hthread⟩, hflagged⟩, hunread⟩ := henhanced
  have hasks : args.theFilter.asksFlag = false := by
    rw [EmailFilter.asksFlag, hflagged, hunread]
    rfl
  have happlied : args.theFilter.applied = { inMailbox := args.theFilter.inMailbox } := by
    rw [EmailFilter.applied, hafter, hbefore, hthread]
  refine answered_iff_of_selected (db.satisfies U { inMailbox := args.theFilter.inMailbox })
    (fun r _ => ?_) (fun _ r hr => satisfies_applied hr) fun fresh hits => ?_
  · rw [hasks, happlied]
    rfl
  · rw [emailQuery, if_neg (by rw [htext]; decide), if_neg, queryEmails, hmem.plainRows_eq U]
    simp [EmailFilter.enhanced, hafter, hbefore, hthread, hflagged, hunread]

end Paths

/-! ## `filter_emails` -/

/-- The strings that `filter_emails` splices. -/
def EmailFilter.strings (f : EmailFilter) : List String :=
  f.inMailbox.toList ++ f.hasKeyword.toList ++ f.notKeyword.toList ++ f.allInThread.toList

section Hits

variable {U : Unicode} {S : Sqlite} {db : MailDb} {a : AccountId} {f : EmailFilter}
  {hits : List EmailId} {fresh : EmailId}

theorem hasNul_filterParts :
    (∃ q ∈ WherePart.accountParam :: f.filterParts hits, q.HasNul) ↔
      ∃ s ∈ f.strings, '\x00' ∈ s.toList := by
  have hpart : ∀ {q : WherePart} {s : String}, q.splices = [s] → s ∈ f.strings → q.HasNul →
      ∃ s ∈ f.strings, '\x00' ∈ s.toList := by
    rintro q s hq hs ⟨s', hs', hnul⟩
    rw [hq] at hs'
    obtain rfl := List.mem_singleton.mp hs'
    exact ⟨s', hs, hnul⟩
  constructor
  · rintro ⟨q, hq, hnul⟩
    simp only [EmailFilter.filterParts, List.mem_cons, List.cons_append, List.mem_append,
      Option.mem_toList, Option.map_eq_some_iff] at hq
    rcases hq with rfl | rfl | (((((⟨m, hm, rfl⟩ | ⟨k, hk, rfl⟩) | ⟨k, hk, rfl⟩) |
      ⟨n, -, rfl⟩) | ⟨n, -, rfl⟩) | ⟨t, ht, rfl⟩) | hflag
    · obtain ⟨s, hs, -⟩ := hnul
      cases hs
    · obtain ⟨s, hs, hnul⟩ := hnul
      obtain ⟨id, -, rfl⟩ := List.mem_map.mp hs
      exact absurd hnul (WherePart.nul_not_mem_uuid _)
    · exact hpart rfl (by simp [EmailFilter.strings, hm]) hnul
    · exact hpart rfl (by simp [EmailFilter.strings, hk]) hnul
    · exact hpart rfl (by simp [EmailFilter.strings, hk]) hnul
    · obtain ⟨s, hs, -⟩ := hnul
      cases hs
    · obtain ⟨s, hs, -⟩ := hnul
      cases hs
    · exact hpart rfl (by simp [EmailFilter.strings, ht]) hnul
    · exact absurd hnul (hasNul_flagParts q hflag)
  · rintro ⟨s, hs, hnul⟩
    simp only [EmailFilter.strings, List.mem_append, Option.mem_toList] at hs
    rcases hs with ((hm | hk) | hk) | ht
    · refine ⟨.inMailbox s, ?_, s, List.mem_cons_self, hnul⟩
      simp [EmailFilter.filterParts, hm]
    · refine ⟨.keyword true s, ?_, s, List.mem_cons_self, hnul⟩
      simp [EmailFilter.filterParts, hk]
    · refine ⟨.keyword false s, ?_, s, List.mem_cons_self, hnul⟩
      simp [EmailFilter.filterParts, hk]
    · refine ⟨.thread s, ?_, s, List.mem_cons_self, hnul⟩
      simp [EmailFilter.filterParts, ht]

theorem fit_filterParts_accountParam (hids : hits ≠ [])
    (hquote : ∀ s ∈ f.strings, '\'' ∉ s.toList) :
    ∀ q ∈ WherePart.accountParam :: f.filterParts hits, q.Fit :=
  List.forall_mem_cons.mpr ⟨⟨fun _ hs => (nomatch hs), by simp⟩,
    EmailFilter.fit_filterParts hids fun s hs => contained_of_quoteFree (hquote s hs)⟩

theorem filterEmails_eq (hids : hits ≠ []) : filterEmails S fresh db a hits f =
    (S.query db (filterSql (.accountParam :: f.filterParts hits)) [accountText a] >>= fun rows =>
      textRows rows >>= fun texts => pure (texts.map (parseEmailId fresh))) := by
  rw [filterEmails, if_neg hids]

/-- What `filter_emails` answers: the selected emails, newest first. -/
theorem filterEmails_ok (hall : S.Unlimited) (hids : hits ≠ [])
    (hquote : ∀ s ∈ f.strings, '\'' ∉ s.toList) (hnul : ¬∃ s ∈ f.strings, '\x00' ∈ s.toList) :
    filterEmails S fresh db a hits f =
      .ok ((newestFirst (db.selected a (.accountParam :: f.filterParts hits))).map (·.id)) := by
  have hparam : ∀ q ∈ f.filterParts hits, q ≠ .accountParam := fun q hq =>
    EmailFilter.no_param hits q (List.mem_append_left _ hq)
  have hread := read_query aroundFilter (t := filterSql (.accountParam :: f.filterParts hits)) rfl
    (fit_filterParts_accountParam hids hquote) fun h => hnul (hasNul_filterParts.mp h)
  have hcall : filterEmails S fresh db a hits f = _ := filterEmails_eq hids
  generalize filterSql (.accountParam :: f.filterParts hits) = t at hcall hread
  obtain ⟨ts, hlex, hparse⟩ := hread
  have hrows := hall _ _ _ hlex hparse db [accountText a] _
    (eval_query aroundFilter (a := a) hparam rfl (fun _ => rfl) db)
  rw [hcall, hrows]
  simp only [bind, Except.bind, pure, Except.pure]
  rw [textRows_output (t := some "e")]
  · simp [parseEmailId, Uuid.parseStr_toString]
  all_goals rfl

/-- With a NUL in one of the strings it is refused. -/
theorem filterEmails_error (hS : S.Conforms) (hids : hits ≠ [])
    (hquote : ∀ s ∈ f.strings, '\'' ∉ s.toList) (hnul : ∃ s ∈ f.strings, '\x00' ∈ s.toList) :
    filterEmails S fresh db a hits f = .error .sqlite := by
  have hlex := lex_query_of_nul aroundFilter
    (t := filterSql (.accountParam :: f.filterParts hits)) rfl
    (fit_filterParts_accountParam hids hquote) (hasNul_filterParts.mpr hnul)
  have hcall : filterEmails S fresh db a hits f = _ := filterEmails_eq hids
  generalize filterSql (.accountParam :: f.filterParts hits) = t at hcall hlex
  rw [hcall, hS.unterminated t hlex db [accountText a]]
  rfl

/-- **The path of a text search.** -/
theorem filtered_iff (hS : S.Conforms) (hall : S.Unlimited) (hdb : MailInv U db)
    (hflagged : U.toLowercase "$Flagged" ≠ "$Flagged") (hseen : U.toLowercase "$Seen" ≠ "$Seen")
    (hquote : ∀ s ∈ f.strings, '\'' ∉ s.toList) :
    Filtered U S db a f hits ↔ (hits ≠ [] → ∀ s ∈ f.strings, '\x00' ∉ s.toList) ∧
      NothingMissed db U ((db.own a).filter (·.id ∈ hits)) (f.asksCase U)
        (f.appliedToHits U) f := by
  by_cases hids : hits = []
  · subst hids
    refine iff_of_true ⟨[], fun fresh => rfl, by simp⟩ ⟨fun h => absurd rfl h, ?_⟩
    have hnone : (db.own a).filter (fun r => r.id ∈ ([] : List EmailId)) = [] := by simp
    rw [hnone]
    cases hasks : f.asksCase U <;> simp [NothingMissed]
  by_cases hnul : ∃ s ∈ f.strings, '\x00' ∈ s.toList
  · -- the text ends inside a literal and is refused
    refine iff_of_false ?_ ?_
    · rintro ⟨out, hout, -⟩
      have hout := hout ⟨0⟩
      rw [filterEmails_error hS hids hquote hnul] at hout
      cases hout
    · rintro ⟨h, -⟩
      obtain ⟨s, hs, hs'⟩ := hnul
      exact h hids s hs hs'
  have hliteral : ∀ s ∈ f.strings, literal s = s := fun s hs =>
    literal_of_plain (hquote s hs) fun hs' => hnul ⟨s, hs, hs'⟩
  have hholds : ∀ r, ((f.filterParts hits).all fun p => p.holds db a r) = true ↔
      r.id ∈ hits ∧ (!f.asksCase U && db.satisfies U (f.appliedToHits U) r) = true := by
    intro r
    rw [all_filterParts hdb hflagged hseen
      (fun m hm => hliteral m (by simp_all [EmailFilter.strings]))
      (fun t ht => hliteral t (by simp_all [EmailFilter.strings]))
      (fun k hk => hliteral k (by simp_all [EmailFilter.strings]))
      (fun k hk => hliteral k (by simp_all [EmailFilter.strings]))]
    simp only [Bool.and_eq_true, decide_eq_true_eq]
  have hout : ∀ id, id ∈ (newestFirst (db.selected a (.accountParam :: f.filterParts hits))).map
      (·.id) ↔ ∃ r ∈ db.own a, r.id = id ∧ id ∈ hits ∧
        (!f.asksCase U && db.satisfies U (f.appliedToHits U) r) = true := by
    intro id
    rw [MailDb.selected_eq (.inl rfl)]
    simp only [List.mem_map, newestFirst, mem_orderBy, List.mem_filter, hholds]
    constructor
    · rintro ⟨r, ⟨hr, hin, hsel⟩, rfl⟩
      exact ⟨r, List.mem_filter.mpr hr, rfl, hin, hsel⟩
    · rintro ⟨r, hr, rfl, hin, hsel⟩
      exact ⟨r, ⟨List.mem_filter.mp hr, hin, hsel⟩, rfl⟩
  rw [nothingMissed_iff fun _ r hr => satisfies_appliedToHits hr,
    and_iff_right fun _ s hs hs' => hnul ⟨s, hs, hs'⟩]
  constructor
  · rintro ⟨out, hok, hmem⟩ r hr
    obtain ⟨hown, hin⟩ := List.mem_filter.mp hr
    have hin : r.id ∈ hits := by simpa using hin
    obtain rfl := Except.ok.inj ((filterEmails_ok hall hids hquote hnul).symm.trans (hok ⟨0⟩))
    -- an id stands for one email
    have hunique : ∀ r' ∈ db.own a, r'.id = r.id → r' = r := by
      intro r' hr' hid
      have hkeys := hdb.keys .email
      rw [MailDb.ids_email] at hkeys
      exact eq_of_key_eq hkeys (List.mem_of_mem_filter hr') (List.mem_of_mem_filter hown)
        (congrArg EmailId.uuid hid)
    rw [Bool.eq_iff_iff]
    constructor
    · intro hsel
      obtain ⟨-, r', hr', hid, hsat⟩ := (hmem r.id).mp ((hout r.id).mpr ⟨r, hown, rfl, hin, hsel⟩)
      rwa [hunique r' hr' hid] at hsat
    · intro hsat
      obtain ⟨r', hr', hid, -, hsel⟩ := (hout r.id).mp ((hmem r.id).mpr ⟨hin, r, hown, rfl, hsat⟩)
      rwa [hunique r' hr' hid] at hsel
  · intro h
    refine ⟨_, fun fresh => filterEmails_ok hall hids hquote hnul, fun id => ?_⟩
    rw [hout]
    constructor
    · rintro ⟨r, hr, rfl, hin, hsel⟩
      refine ⟨hin, r, hr, rfl, ?_⟩
      rwa [← h r (List.mem_filter.mpr ⟨hr, by simpa using hin⟩)]
    · rintro ⟨hin, r, hr, rfl, hsat⟩
      refine ⟨r, hr, rfl, hin, ?_⟩
      rwa [h r (List.mem_filter.mpr ⟨hr, by simpa using hin⟩)]

end Hits

/-! ## Every reachable state -/

/-- **What `Email/query` answers.** In every reachable state of an account, on strings
without quotes: a query without a text answers its filter exactly if no string that goes
into SQL has a NUL in it and the account's emails leave nothing for the unread conditions to
decide; and `filter_emails` selects the right hits exactly if the same is true of the hits. -/
theorem emailQuery_answers_iff (U : Unicode) (S : Sqlite) (lowers : U.LowersAscii)
    (conforms : S.Conforms) (unlimited : S.Unlimited) (ops : List MailOp) (a : AccountId) :
    let db := Runs.run (mailStep U) MailDb.empty ops
    (∀ args : QueryArgs, args.theFilter.text = none →
      (∀ s ∈ args.spliced [], '\'' ∉ s.toList) →
        (FilterAnswered U S db a args ↔ (∀ s ∈ args.spliced [], '\x00' ∉ s.toList) ∧
          NothingMissed db U (db.own a) args.theFilter.asksFlag args.theFilter.applied
            args.theFilter)) ∧
    ∀ (f : EmailFilter) (hits : List EmailId), (∀ s ∈ f.strings, '\'' ∉ s.toList) →
      (Filtered U S db a f hits ↔ (hits ≠ [] → ∀ s ∈ f.strings, '\x00' ∉ s.toList) ∧
        NothingMissed db U ((db.own a).filter (·.id ∈ hits)) (f.asksCase U) (f.appliedToHits U)
          f) := by
  intro db
  have hdb : MailInv U db := MailInv.empty.run ops
  have hflagged : U.toLowercase "$Flagged" ≠ "$Flagged" := by
    rw [lowers "$Flagged" (by decide)]
    decide
  have hseen : U.toLowercase "$Seen" ≠ "$Seen" := by
    rw [lowers "$Seen" (by decide)]
    decide
  refine ⟨fun args htext hquote => ?_, fun f hits hquote => ?_⟩
  · cases henhanced : args.theFilter.enhanced with
    | true =>
      have hspliced : args.spliced [] =
          args.theFilter.inMailbox.toList ++ args.theFilter.allInThread.toList := by
        simp [QueryArgs.spliced, htext, henhanced]
      rw [hspliced] at hquote ⊢
      exact answered_enhanced conforms unlimited hdb hflagged hseen htext henhanced hquote
    | false =>
      have hspliced : args.spliced [] = [] := by
        simp [QueryArgs.spliced, htext, henhanced]
      rw [hspliced, and_iff_right (List.forall_mem_nil _)]
      exact answered_plain (Memberships.run U ops) htext henhanced
  · exact filtered_iff conforms unlimited hdb hflagged hseen hquote

/-- A run that leaves one email, flagged. -/
def flaggedRun : List MailOp :=
  [createFreshAccount, .ingest Io.ok firstMessage,
    .updateEmail Io.ok ⟨1⟩ ⟨100⟩ (some ["$Flagged"]) none]

/-- The keyword is written in any case, and an unread filter on it is answered. -/
theorem emailQuery_answers_flagged :
    FilterAnswered .ascii Sqlite.fragment (Runs.run (mailStep .ascii) MailDb.empty flaggedRun) ⟨1⟩
        { filter := some { isUnread := some true } } ∧
      Filtered .ascii Sqlite.fragment (Runs.run (mailStep .ascii) MailDb.empty flaggedRun) ⟨1⟩
        { hasKeyword := some "$flagged" } [⟨100⟩] := by
  have h := emailQuery_answers_iff .ascii Sqlite.fragment (fun _ _ => rfl)
    Sqlite.fragment_conforms Sqlite.fragment_unlimited flaggedRun ⟨1⟩
  exact ⟨(h.1 _ rfl (by decide +kernel)).mpr (by decide +kernel),
    (h.2 _ _ (by decide +kernel)).mpr (by decide +kernel)⟩

/-- A query for flagged mail does not list the flagged email. -/
theorem not_answered_isFlagged :
    ¬FilterAnswered .ascii Sqlite.fragment (Runs.run (mailStep .ascii) MailDb.empty flaggedRun) ⟨1⟩
      { filter := some { isFlagged := some true } } := by
  rw [answered_enhanced Sqlite.fragment_conforms Sqlite.fragment_unlimited
    (MailInv.empty.run flaggedRun) (by decide) (by decide) rfl rfl (by simp [QueryArgs.theFilter])]
  decide +kernel

end Owney
