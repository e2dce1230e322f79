import Owney.EmailFilter

/-!
# Tenant isolation of `Email/query`

`format!` puts the strings of the filter between quotes as they are. A string whose
quotes come in adjacent pairs stays inside its literal (`Sql.contained`), and then the
text is the statement the code means: each part of it is read as one condition
(`WherePart.lexes`, `WherePart.condition`) and decided on every row
(`WherePart.decides`), the first of them is the account, and the answer is a function
of the account's own rows (`emailQuery_isolated`). `not_isolated_injected` is a thread
id with a quote in it that lists another account's mail.
-/

namespace Owney

open Sql (Token Expr Head Row Value Lexes Opens Operand Condition Decides contained unquote)

/-! ## What is promised -/

/-- The two databases have the same rows of an account: its emails, their mailboxes and
keywords, and its counters. -/
structure SameOwn (a : AccountId) (db db' : MailDb) : Prop where
  emails : db.emails.filter (·.accountId = a) = db'.emails.filter (·.accountId = a)
  emailMailbox : ∀ r ∈ db.emails, r.accountId = a →
    db.emailMailbox.filter (·.emailId = r.id) = db'.emailMailbox.filter (·.emailId = r.id)
  emailKeyword : ∀ r ∈ db.emails, r.accountId = a →
    db.emailKeyword.filter (·.emailId = r.id) = db'.emailKeyword.filter (·.emailId = r.id)
  states : db.states.filter (·.accountId = a) = db'.states.filter (·.accountId = a)

/-- Tenant isolation of one query: only the account's own emails, and nothing that
depends on other accounts. -/
structure Isolated (S : Sqlite) (a : AccountId) (args : QueryArgs) (hits : List EmailId) :
    Prop where
  own : ∀ fresh db r, emailQuery S fresh db a args hits = .ok r →
    ∀ id ∈ r.ids, ∃ e ∈ db.emails, e.accountId = a ∧ e.id.uuid.toString = id
  sameForOthers : ∀ fresh db db', SameOwn a db db' →
    emailQuery S fresh db a args hits = emailQuery S fresh db' a args hits

/-- The strings of the filter that are spliced into SQL on the path the query takes. -/
def QueryArgs.spliced (args : QueryArgs) (hits : List EmailId) : List String :=
  let f := args.theFilter
  if f.text.isSome then
    if hits = [] then []
    else f.inMailbox.toList ++ f.hasKeyword.toList ++ f.notKeyword.toList ++ f.allInThread.toList
  else if f.enhanced then f.inMailbox.toList ++ f.allInThread.toList
  else []

/-- Every string that is spliced stays inside its literal. -/
def QueryArgs.Contained (args : QueryArgs) (hits : List EmailId) : Prop :=
  ∀ s ∈ args.spliced hits, contained s.toList

instance (args : QueryArgs) (hits : List EmailId) : Decidable (args.Contained hits) :=
  inferInstanceAs (Decidable (∀ s ∈ _, _))

/-! ## The parts as SQL -/

/-- What a literal around the string holds. -/
def literal (s : String) : String := String.ofList (unquote s.toList)

namespace WherePart

/-- The strings a part puts between quotes. -/
def splices : WherePart → List String
  | .account a => [a.uuid.toString]
  | .idIn ids => ids.map (·.uuid.toString)
  | .inMailbox m => [m]
  | .keyword _ k => [k]
  | .thread t => [t]
  | .accountParam | .after _ | .before _ => []

/-- The strings of the part stay inside their literals. -/
def Contained (p : WherePart) : Prop := ∀ s ∈ p.splices, contained s.toList

/-- One of the strings has a NUL in it. -/
def HasNul (p : WherePart) : Prop := ∃ s ∈ p.splices, '\x00' ∈ s.toList

/-- `table.column`. -/
def colTokens (t c : String) : List Token := [.name t, .dot, .name c]

/-- `EXISTS (SELECT 1 FROM table t WHERE t.email_id = e.id AND t.column = 's')`. -/
def existsTokens (table t column s : String) : List Token :=
  [.kw .exists, .lparen, .kw .select, .num 1, .kw .from, .name table, .name t, .kw .where] ++
    colTokens t "email_id" ++ [.eq] ++ colTokens "e" "id" ++ [.kw .and] ++ colTokens t column ++
    [.eq, .text (literal s), .rparen]

/-- The expression of these tokens. -/
def existsExpr (table t column s : String) : Expr :=
  .exists ⟨.one, table, t⟩ (.and (.cmp .eq (.col (some t) "email_id") (.col (some "e") "id"))
    (.cmp .eq (.col (some t) column) (.text (literal s))))

/-- The tokens of a part. -/
def tokens : WherePart → List Token
  | .accountParam => colTokens "e" "account_id" ++ [.eq, .param 1]
  | .account a => colTokens "e" "account_id" ++ [.eq, .text (literal a.uuid.toString)]
  | .idIn [] => colTokens "e" "id" ++ [.kw .in, .lparen, .rparen]
  | .idIn (id :: ids) =>
    colTokens "e" "id" ++ .kw .in :: .lparen :: .text (literal id.uuid.toString) ::
      ((ids.map fun id => literal id.uuid.toString).flatMap (fun s => [.comma, .text s]) ++
        [.rparen])
  | .inMailbox m => existsTokens "email_mailbox" "em" "mailbox_id" m
  | .keyword true k => existsTokens "email_keyword" "ek" "keyword" k
  | .keyword false k => .kw .not :: existsTokens "email_keyword" "ek" "keyword" k
  | .after n => colTokens "e" "received_at" ++ .gt :: Sql.intTokens n.toInt
  | .before n => colTokens "e" "received_at" ++ .lt :: Sql.intTokens n.toInt
  | .thread t => colTokens "e" "thread_id" ++ [.eq, .text (literal t)]

/-- The condition a part means. -/
def expr : WherePart → Expr
  | .accountParam => .cmp .eq (.col (some "e") "account_id") (.param 1)
  | .account a => .cmp .eq (.col (some "e") "account_id") (.text (literal a.uuid.toString))
  | .idIn ids => .inList (.col (some "e") "id") (ids.map fun id => literal id.uuid.toString)
  | .inMailbox m => existsExpr "email_mailbox" "em" "mailbox_id" m
  | .keyword true k => existsExpr "email_keyword" "ek" "keyword" k
  | .keyword false k => .not (existsExpr "email_keyword" "ek" "keyword" k)
  | .after n => .cmp .gt (.col (some "e") "received_at") (.int n.toInt)
  | .before n => .cmp .lt (.col (some "e") "received_at") (.int n.toInt)
  | .thread t => .cmp .eq (.col (some "e") "thread_id") (.text (literal t))

/-! ### Lexing -/

section Pieces

variable {pre s post : String} {ts : List Token}

theorem toList_append₃ (pre s post : String) :
    (pre ++ (s ++ post)).toList = pre.toList ++ (s.toList ++ post.toList) := by
  rw [String.toList_append, String.toList_append]

/-- A piece of text that ends in a literal around a contained string. -/
theorem lexes_literal (hpre : Sql.scan vocabulary .start pre.toList = (ts, .text []))
    (h : contained s.toList) (hnul : '\x00' ∉ s.toList) :
    Lexes vocabulary (pre ++ (s ++ "'")).toList (ts ++ [.text (literal s)]) := by
  intro rest hrest
  have hpost : "'".toList ++ rest = '\'' :: rest := rfl
  rw [toList_append₃, List.append_assoc, List.append_assoc, hpost,
    Sql.lexFrom_splice hpre h hnul, (Sql.closes_quote _).lexFrom hrest, Sql.Lexed.prepend_prepend]
  rfl

/-- The same with a closing parenthesis after the literal. -/
theorem lexes_literal_rparen (hpre : Sql.scan vocabulary .start pre.toList = (ts, .text []))
    (h : contained s.toList) (hnul : '\x00' ∉ s.toList) :
    Lexes vocabulary (pre ++ (s ++ "')")).toList (ts ++ [.text (literal s), .rparen]) := by
  intro rest _
  have hclose : Sql.scan vocabulary (.quote (unquote s.toList)) [')']
      = ([.text (literal s), .rparen], .start) := rfl
  have hpost : "')".toList ++ rest = '\'' :: ([')'] ++ rest) := rfl
  rw [toList_append₃, List.append_assoc, List.append_assoc, hpost,
    Sql.lexFrom_splice hpre h hnul, Sql.lexFrom_append_of_scan hclose, Sql.Lexed.prepend_prepend]

/-- A literal that is left open. -/
theorem opens_literal (hpre : Sql.scan vocabulary .start pre.toList = (ts, .text []))
    (h : contained s.toList) (hnul : '\x00' ∈ s.toList) :
    Opens vocabulary (pre ++ (s ++ post)).toList := by
  intro rest
  rw [toList_append₃, List.append_assoc, List.append_assoc]
  exact Sql.lexFrom_splice_of_nul hpre h hnul _

/-- A piece of text that ends in an integer. -/
theorem lexes_int (hpre : Sql.scan vocabulary .start pre.toList = (ts, .start)) (n : ℤ) :
    Lexes vocabulary (pre ++ toString n).toList (ts ++ Sql.intTokens n) := by
  intro rest hrest
  rw [String.toList_append, List.append_assoc, Sql.lexFrom_append_of_scan hpre,
    Sql.lexFrom_int n hrest, Sql.Lexed.prepend_prepend]

end Pieces

theorem scan_account : Sql.scan vocabulary .start "e.account_id = '".toList
    = (colTokens "e" "account_id" ++ [.eq], .text []) := by decide +kernel

theorem scan_thread : Sql.scan vocabulary .start "e.thread_id = '".toList
    = (colTokens "e" "thread_id" ++ [.eq], .text []) := by decide +kernel

theorem scan_inMailbox : Sql.scan vocabulary .start
    "EXISTS (SELECT 1 FROM email_mailbox em WHERE em.email_id = e.id AND em.mailbox_id = '".toList
    = ((existsTokens "email_mailbox" "em" "mailbox_id" "").dropLast.dropLast, .text []) := by
  decide +kernel

theorem scan_keyword : Sql.scan vocabulary .start
    "EXISTS (SELECT 1 FROM email_keyword ek WHERE ek.email_id = e.id AND ek.keyword = '".toList
    = ((existsTokens "email_keyword" "ek" "keyword" "").dropLast.dropLast, .text []) := by
  decide +kernel

theorem scan_notKeyword : Sql.scan vocabulary .start
    ("NOT EXISTS (SELECT 1 FROM email_keyword ek WHERE ek.email_id = e.id AND " ++
      "ek.keyword = '").toList
    = (.kw .not :: (existsTokens "email_keyword" "ek" "keyword" "").dropLast.dropLast,
      .text []) := by
  decide +kernel

/-- A printed id has nothing in it that the lexer treats specially. -/
theorem plain_uuid (u : Uuid) : ∀ c ∈ u.toString.toList, c ≠ '\'' ∧ c ≠ '\x00' := by
  intro c hc
  rcases Uuid.mem_toString hc with rfl | hhex
  · decide
  · constructor <;> rintro rfl <;> cases hhex

theorem contained_uuid (u : Uuid) : contained u.toString.toList :=
  (Sql.contained_of_plain (plain_uuid u)).1

theorem literal_uuid (u : Uuid) : literal u.toString = u.toString := by
  rw [literal, (Sql.contained_of_plain (plain_uuid u)).2, String.ofList_toList]

theorem nul_not_mem_uuid (u : Uuid) : '\x00' ∉ u.toString.toList := fun h =>
  (plain_uuid u _ h).2 rfl

/-- The list of ids between the parentheses. -/
theorem lexFrom_ids (id : EmailId) (ids : List EmailId) (rest : List Char) :
    Sql.lexFrom vocabulary .start
        ((joinWith "," ((id :: ids).map fun id => "'" ++ (id.uuid.toString ++ "'"))).toList ++
          ')' :: rest) =
      (Sql.lexFrom vocabulary .start rest).prepend
        (.text (literal id.uuid.toString) ::
          ((ids.map fun id => literal id.uuid.toString).flatMap (fun s => [.comma, .text s]) ++
            [.rparen])) := by
  have hquote : Sql.scan vocabulary .start "'".toList = ([], .text []) := rfl
  have hsplice : ∀ (id : EmailId) post, Sql.lexFrom vocabulary .start
      ("'".toList ++ (id.uuid.toString.toList ++ '\'' :: post)) =
        Sql.lexFrom vocabulary (.quote (unquote id.uuid.toString.toList)) post := by
    intro id post
    rw [Sql.lexFrom_splice hquote (contained_uuid _) (nul_not_mem_uuid _), Sql.Lexed.prepend_nil]
  induction ids generalizing id with
  | nil =>
    have hclose : Sql.scan vocabulary (.quote (unquote id.uuid.toString.toList)) [')']
        = ([.text (literal id.uuid.toString), .rparen], .start) := rfl
    have htext : (joinWith "," ([id].map fun id => "'" ++ (id.uuid.toString ++ "'"))).toList ++
        ')' :: rest = "'".toList ++ (id.uuid.toString.toList ++ '\'' :: ([')'] ++ rest)) := by
      simp [joinWith, String.toList_append]
    rw [htext, hsplice, Sql.lexFrom_append_of_scan hclose]
    rfl
  | cons id' ids ih =>
    have hcomma : Sql.scan vocabulary (.quote (unquote id.uuid.toString.toList)) [',']
        = ([.text (literal id.uuid.toString), .comma], .start) := rfl
    have htext : ∀ rest', (joinWith "," ((id :: id' :: ids).map
        fun id => "'" ++ (id.uuid.toString ++ "'"))).toList ++ rest' =
          "'".toList ++ (id.uuid.toString.toList ++ '\'' :: ([','] ++
            ((joinWith "," ((id' :: ids).map fun id => "'" ++ (id.uuid.toString ++ "'"))).toList ++
              rest'))) := by
      intro rest'
      simp [joinWith, String.toList_append]
    rw [htext, hsplice, Sql.lexFrom_append_of_scan hcomma, ih, Sql.Lexed.prepend_prepend]
    rfl

/-- **Lexing.** The text of a part, if its strings are contained. -/
theorem lexes {p : WherePart} (h : p.Contained) (hnul : ¬p.HasNul) (hids : p ≠ .idIn []) :
    Lexes vocabulary p.text.toList p.tokens := by
  have hmem : ∀ s ∈ p.splices, '\x00' ∉ s.toList := fun s hs hc => hnul ⟨s, hs, hc⟩
  cases p with
  | accountParam =>
    have hscan : Sql.scan vocabulary .start "e.account_id = ?1".toList
        = (colTokens "e" "account_id" ++ [.eq], .param ['1']) := by decide +kernel
    have hcloses : Sql.Closes vocabulary (.param ['1']) [.param 1] := ⟨rfl, rfl, rfl⟩
    intro rest hrest
    change Sql.lexFrom vocabulary .start ("e.account_id = ?1".toList ++ rest) = _
    rw [Sql.lexFrom_append_of_scan hscan, hcloses.lexFrom hrest, Sql.Lexed.prepend_prepend]
    rfl
  | account a => exact lexes_literal scan_account (contained_uuid _) (nul_not_mem_uuid _)
  | idIn ids =>
    match ids, hids with
    | id :: ids, _ =>
      have hscan : Sql.scan vocabulary .start "e.id IN (".toList
          = (colTokens "e" "id" ++ [.kw .in, .lparen], .start) := by decide +kernel
      intro rest _
      change Sql.lexFrom vocabulary .start ((_ ++ (_ ++ _) : String).toList ++ rest) = _
      rw [toList_append₃, List.append_assoc, List.append_assoc, Sql.lexFrom_append_of_scan hscan]
      change ((Sql.lexFrom vocabulary .start (_ ++ ')' :: rest))).prepend _ = _
      rw [lexFrom_ids, Sql.Lexed.prepend_prepend]
      rfl
  | inMailbox m =>
    exact lexes_literal_rparen scan_inMailbox (h m List.mem_cons_self) (hmem m List.mem_cons_self)
  | keyword present k =>
    have hk := h k List.mem_cons_self
    have hk' := hmem k List.mem_cons_self
    cases present with
    | true => exact lexes_literal_rparen scan_keyword hk hk'
    | false => exact lexes_literal_rparen scan_notKeyword hk hk'
  | after n =>
    have hscan : Sql.scan vocabulary .start "e.received_at > ".toList
        = (colTokens "e" "received_at" ++ [.gt], .start) := by decide +kernel
    exact lexes_int hscan n.toInt
  | before n =>
    have hscan : Sql.scan vocabulary .start "e.received_at < ".toList
        = (colTokens "e" "received_at" ++ [.lt], .start) := by decide +kernel
    exact lexes_int hscan n.toInt
  | thread t =>
    exact lexes_literal scan_thread (h t List.mem_cons_self) (hmem t List.mem_cons_self)

/-- A NUL in one of the strings leaves its literal open. -/
theorem opens {p : WherePart} (h : p.Contained) (hnul : p.HasNul) :
    Opens vocabulary p.text.toList := by
  obtain ⟨s, hs, hnul⟩ := hnul
  have hc := h s hs
  cases p with
  | accountParam | after | before => cases hs
  | account a =>
    obtain rfl := List.mem_singleton.mp hs
    exact absurd hnul (nul_not_mem_uuid _)
  | idIn ids =>
    obtain ⟨id, -, rfl⟩ := List.mem_map.mp hs
    exact absurd hnul (nul_not_mem_uuid _)
  | inMailbox m =>
    obtain rfl := List.mem_singleton.mp hs
    exact opens_literal scan_inMailbox hc hnul
  | keyword present k =>
    obtain rfl := List.mem_singleton.mp hs
    cases present with
    | true => exact opens_literal scan_keyword hc hnul
    | false => exact opens_literal scan_notKeyword hc hnul
  | thread t =>
    obtain rfl := List.mem_singleton.mp hs
    exact opens_literal scan_thread hc hnul

/-! ### Parsing -/

theorem parse_exists (table t column s : String) (st : List Sql.Frame) :
    Sql.parseFrom (st, .want) (existsTokens table t column s) =
      some (st, .have (existsExpr table t column s)) := rfl

/-- **Parsing.** The tokens of a part are one condition. -/
theorem condition {p : WherePart} (hids : p ≠ .idIn []) : Condition p.tokens p.expr := by
  cases p with
  | accountParam =>
    exact Sql.condition_cmp (o := .eq) (Sql.operand_col "e" "account_id") (Sql.operand_param 1)
  | account a =>
    exact Sql.condition_cmp (o := .eq) (Sql.operand_col "e" "account_id") (Sql.operand_text _)
  | idIn ids =>
    match ids, hids with
    | id :: ids, _ => exact Sql.condition_inList (Sql.operand_col "e" "id") _ _
  | inMailbox m => exact Sql.condition_exists (parse_exists _ _ _ _)
  | keyword present k =>
    cases present with
    | true => exact Sql.condition_exists (parse_exists _ _ _ _)
    | false => exact Sql.condition_not (parse_exists _ _ _ _)
  | after n =>
    exact Sql.condition_cmp (o := .gt) (Sql.operand_col "e" "received_at")
      (Sql.operand_int n.le_toInt n.toInt_lt)
  | before n =>
    exact Sql.condition_cmp (o := .lt) (Sql.operand_col "e" "received_at")
      (Sql.operand_int n.le_toInt n.toInt_lt)
  | thread t =>
    exact Sql.condition_cmp (o := .eq) (Sql.operand_col "e" "thread_id") (Sql.operand_text _)

/-! ### Meaning -/

/-- Whether a part is true of an email. -/
def holds (db : MailDb) (a : AccountId) (r : EmailsRow) : WherePart → Bool
  | .accountParam => r.accountId.uuid.toString = a.uuid.toString
  | .account a => r.accountId.uuid.toString = literal a.uuid.toString
  | .idIn ids => r.id.uuid.toString ∈ ids.map fun id => literal id.uuid.toString
  | .inMailbox m => db.emailMailbox.any fun em =>
      em.emailId.uuid.toString = r.id.uuid.toString ∧ em.mailboxId.uuid.toString = literal m
  | .keyword present k => (db.emailKeyword.any fun ek =>
      ek.emailId.uuid.toString = r.id.uuid.toString ∧ ek.keyword = literal k) == present
  | .after n => n.toInt < r.receivedAt
  | .before n => r.receivedAt < n.toInt
  | .thread t => r.threadId.uuid.toString = literal t

/-- The columns of `emails`. -/
def emailsColumns : List String := ["id", "account_id", "thread_id", "received_at"]

/-- The email under its name `e`. -/
def scope (r : EmailsRow) : List Sql.Binding :=
  [⟨"e", emailsColumns, r.toSql⟩]

variable {db : MailDb} {a : AccountId} {r : EmailsRow}

/-- A membership test, on any of the two tables of an email's rows. -/
theorem decides_exists {ps : List Value} {table t column s : String} {ρ : Type} {rows : List ρ}
    {toSql : ρ → Row} {cols : List String} {emailText columnText : ρ → String} (ht : t ≠ "e")
    (hcols : mailColumns table = some cols) (hrows : db.toSql.rows table = rows.map toSql)
    (hemail : ∀ x, toSql x "email_id" = .text (emailText x))
    (hcolumn : ∀ x, toSql x column = .text (columnText x)) :
    Decides db.toSql ps (scope r) (existsExpr table t column s)
      (rows.any fun x => emailText x = r.id.uuid.toString ∧ columnText x = literal s) := by
  refine Sql.Decides.exists hcols hrows fun x _ => ?_
  -- inside the subquery `t` is the row and `e` is still the email
  have hid : Sql.value ps (⟨t, cols, toSql x⟩ :: scope r) (.col (some "e") "id")
      = some (.text r.id.uuid.toString) := by
    rw [Sql.value, List.find?_cons_of_neg (by simpa using ht)]
    rfl
  have hcol : ∀ c, Sql.value ps (⟨t, cols, toSql x⟩ :: scope r) (.col (some t) c)
      = some (toSql x c) := by
    intro c
    rw [Sql.value, List.find?_cons_of_pos (by simp)]
    rfl
  rw [Bool.decide_and]
  refine Sql.Decides.and (Sql.Decides.cmp (hcol "email_id") hid ?_)
    (Sql.Decides.cmp (hcol column) rfl ?_)
  · rw [hemail]
    rfl
  · rw [hcolumn]
    rfl

theorem value_scope {ps : List Value} (c : String) :
    Sql.value ps (scope r) (.col (some "e") c) = some (r.toSql c) := rfl

/-- **Meaning.** Every part is decided on every email. -/
theorem decides (p : WherePart) {ps : List Value}
    (hps : p = .accountParam → ps[0]? = some (accountText a)) :
    Decides db.toSql ps (scope r) p.expr (p.holds db a r) := by
  cases p with
  | accountParam => exact .cmp (value_scope _) (hps rfl) rfl
  | account a => exact .cmp (value_scope _) rfl rfl
  | idIn ids => exact .inList (value_scope _)
  | inMailbox m =>
    exact decides_exists (by decide) rfl rfl (fun _ => rfl) fun _ => rfl
  | keyword present k =>
    have h : Decides db.toSql ps (scope r) (existsExpr "email_keyword" "ek" "keyword" k) _ :=
      decides_exists (by decide) rfl rfl (fun _ => rfl) fun _ => rfl
    cases present with
    | true =>
      rw [holds, beq_true]
      exact h
    | false =>
      rw [holds, beq_false]
      exact h.not
  | after n => exact .cmp (value_scope _) rfl rfl
  | before n => exact .cmp (value_scope _) rfl rfl
  | thread t => exact .cmp (value_scope _) rfl rfl

theorem inScope_expr (p : WherePart) : p.expr.inScope mailColumns [("e", emailsColumns)] := by
  cases p with
  | keyword present k => cases present <;> rfl
  | _ => rfl

theorem params_eq_zero {p : WherePart} (h : p ≠ .accountParam) : p.expr.params = 0 := by
  cases p with
  | accountParam => exact absurd rfl h
  | keyword present k => cases present <;> rfl
  | _ => rfl

/-- A part that may stand in a text: its strings are contained, and an `IN` is not empty. -/
def Fit (p : WherePart) : Prop := p.Contained ∧ p ≠ .idIn []

end WherePart

/-! ## The statements -/

section Statements

open WherePart

/-- The whole clause, if no string has a NUL. -/
theorem whereClause_lexes {p : WherePart} {ps : List WherePart}
    (h : ∀ q ∈ p :: ps, q.Fit ∧ ¬q.HasNul) :
    Lexes vocabulary (whereClause (p :: ps)).toList (p.tokens ++ Sql.andTokens (ps.map tokens)) := by
  induction ps generalizing p with
  | nil =>
    obtain ⟨⟨hc, hids⟩, hnul⟩ := h p List.mem_cons_self
    rw [List.map_nil, Sql.andTokens, List.flatMap_nil, List.append_nil]
    exact lexes hc hnul hids
  | cons q ps ih =>
    obtain ⟨⟨hc, hids⟩, hnul⟩ := h p List.mem_cons_self
    have htext : (whereClause (p :: q :: ps)).toList
        = p.text.toList ++ (" AND ".toList ++ (whereClause (q :: ps)).toList) :=
      toList_append₃ _ _ _
    rw [htext]
    exact (lexes hc hnul hids).and (ih fun q' hq' => h q' (List.mem_cons_of_mem _ hq'))

/-- With a NUL in one of them the text ends inside a literal. -/
theorem whereClause_opens {p : WherePart} {ps : List WherePart} (h : ∀ q ∈ p :: ps, q.Fit)
    (hnul : ∃ q ∈ p :: ps, q.HasNul) : Opens vocabulary (whereClause (p :: ps)).toList := by
  induction ps generalizing p with
  | nil =>
    obtain ⟨q, hq, hnul⟩ := hnul
    obtain rfl := List.mem_singleton.mp hq
    exact opens (h q hq).1 hnul
  | cons q ps ih =>
    have htext : (whereClause (p :: q :: ps)).toList
        = p.text.toList ++ (" AND ".toList ++ (whereClause (q :: ps)).toList) :=
      toList_append₃ _ _ _
    have hfit := h p List.mem_cons_self
    rw [htext]
    by_cases hp : p.HasNul
    · exact (opens hfit.1 hp).append _
    · refine (lexes hfit.1 hp hfit.2).opens (ih (fun q' hq' => h q' (List.mem_cons_of_mem _ hq')) ?_)
      obtain ⟨q', hq', hnul⟩ := hnul
      rcases List.mem_cons.mp hq' with rfl | hq'
      · exact absurd hnul hp
      · exact ⟨q', hq', hnul⟩

/-- The emails all parts are true of. -/
def MailDb.selected (db : MailDb) (a : AccountId) (parts : List WherePart) : List EmailsRow :=
  db.emails.filter fun r => parts.all fun p => p.holds db a r

/-- The text around a clause: what is read before it and after it. -/
structure Around (before after : String) (head : Head) (order : List (String × String))
    (limit : Option (ℕ × ℕ)) where
  headTokens : List Token
  tailTokens : List Token
  scan_before : Sql.scan vocabulary .start before.toList = (headTokens, .start)
  parse_before : Sql.parseFrom ([], .select) headTokens = some ([.main head], .want)
  blank : after.toList = [] ∨ ∃ ds, after.toList = ' ' :: ds
  lex_after : Sql.lexFrom vocabulary .start after.toList = .tokens tailTokens
  parse_after : (tailTokens = [] ∧ order = [] ∧ limit = none) ∨
    ∃ rest, tailTokens = .kw .order :: rest ∧ Sql.parseTail tailTokens = some (order, limit)
  table : head.table = "emails" ∧ head.name = "e"
  named : ∀ cond, (Sql.Stmt.mk head cond order limit).named emailsColumns

section Query

variable {before after : String} {head : Head} {order : List (String × String)}
  {limit : Option (ℕ × ℕ)} {a : AccountId} {p : WherePart} {ps : List WherePart}
  {v : List Value} {t : String}

/-- With a NUL in one of the strings the text ends inside a literal. -/
theorem lex_query_of_nul (A : Around before after head order limit)
    (ht : t = before ++ (whereClause (p :: ps) ++ after)) (hfit : ∀ q ∈ p :: ps, q.Fit)
    (hnul : ∃ q ∈ p :: ps, q.HasNul) : Sql.lex vocabulary t = .unterminated := by
  rw [ht, Sql.lex, toList_append₃, Sql.lexFrom_append_of_scan A.scan_before,
    whereClause_opens hfit hnul]
  rfl

/-- Without one it is read as the statement it means. -/
theorem read_query (A : Around before after head order limit)
    (ht : t = before ++ (whereClause (p :: ps) ++ after)) (hfit : ∀ q ∈ p :: ps, q.Fit)
    (hnul : ¬∃ q ∈ p :: ps, q.HasNul) :
    ∃ ts, Sql.lex vocabulary t = .tokens ts ∧
      Sql.parse ts = some ⟨head, Sql.conj p.expr (ps.map expr), order, limit⟩ := by
  have hlex : Sql.lex vocabulary (before ++ (whereClause (p :: ps) ++ after)) =
      .tokens (A.headTokens ++
        ((p.tokens ++ Sql.andTokens (ps.map tokens)) ++ A.tailTokens)) := by
    have hclause := whereClause_lexes fun q hq => ⟨hfit q hq, fun hn => hnul ⟨q, hq, hn⟩⟩
    rw [Sql.lex, toList_append₃, Sql.lexFrom_append_of_scan A.scan_before, hclause _ A.blank,
      A.lex_after]
    rfl
  have hreads : Sql.Reads [.main head] (p.tokens ++ Sql.andTokens (ps.map tokens))
      (Sql.conj p.expr (ps.map expr)) := by
    refine Sql.Reads.conj (Sql.bottom_main head)
      (condition (hfit p List.mem_cons_self).2 _ (Sql.loose_main head)) ?_
    rw [List.forall₂_map_left_iff, List.forall₂_map_right_iff, List.forall₂_same]
    exact fun q hq => condition (hfit q (List.mem_cons_of_mem _ hq)).2
  refine ⟨_, by rw [ht]; exact hlex, ?_⟩
  rcases A.parse_after with ⟨htail, rfl, rfl⟩ | ⟨rest, htail, hparse⟩
  · rw [htail, List.append_nil]
    exact Sql.parse_of_reads_end A.parse_before hreads
  · rw [htail] at hparse ⊢
    exact Sql.parse_of_reads A.parse_before hreads hparse

/-- The statement puts out what it makes of the emails all parts are true of. -/
theorem eval_query (A : Around before after head order limit) (hps : ∀ q ∈ ps, q ≠ .accountParam)
    (hv : v.length = p.expr.params) (hp : p = .accountParam → v[0]? = some (accountText a))
    (db : MailDb) :
    let stmt : Sql.Stmt := ⟨head, Sql.conj p.expr (ps.map expr), order, limit⟩
    stmt.eval db.toSql v = some (stmt.output ((db.selected a (p :: ps)).map (·.toSql))) := by
  intro stmt
  obtain ⟨table, name⟩ := A.table
  refine Sql.Stmt.eval_eq (c := emailsColumns) (by rw [table]; rfl) (by rw [table]; rfl) ?_ ?_
  · have hparams : (Sql.conj p.expr (ps.map expr)).params = v.length := by
      rw [hv]
      refine Sql.params_conj fun e he => ?_
      obtain ⟨q, hq, rfl⟩ := List.mem_map.mp he
      exact params_eq_zero (hps q hq)
    have hscope : (Sql.conj p.expr (ps.map expr)).inScope mailColumns [(head.name, emailsColumns)] := by
      rw [name]
      refine Sql.inScope_conj (inScope_expr p) fun e he => ?_
      obtain ⟨q, -, rfl⟩ := List.mem_map.mp he
      exact inScope_expr q
    rw [Sql.Stmt.inScope, A.named, Bool.and_true, Bool.and_eq_true, decide_eq_true_eq]
    exact ⟨hparams, hscope⟩
  · intro r _
    rw [name]
    exact (decides p hp).conj fun q hq => decides q fun he => absurd he (hps q hq)

/-- **One statement.** A text around fit parts is either refused, whatever the tables
hold, or answered with the emails all parts are true of. -/
theorem query_cases {S : Sqlite} (hS : S.Conforms) (A : Around before after head order limit)
    (ht : t = before ++ (whereClause (p :: ps) ++ after)) (hfit : ∀ q ∈ p :: ps, q.Fit)
    (hps : ∀ q ∈ ps, q ≠ .accountParam) (hv : v.length = p.expr.params)
    (hp : p = .accountParam → v[0]? = some (accountText a)) :
    (∀ db, S.query db t v = .error .sqlite) ∨
      ∃ stmt : Sql.Stmt, stmt.head = head ∧
        ∀ db : MailDb, S.query db t v =
          .ok (stmt.output ((db.selected a (p :: ps)).map (·.toSql))) := by
  by_cases hnul : ∃ q ∈ p :: ps, q.HasNul
  · exact .inl fun db => hS.unterminated _ (lex_query_of_nul A ht hfit hnul) db v
  · obtain ⟨ts, hlex, hparse⟩ := read_query A ht hfit hnul
    exact (hS.statement _ _ _ hlex hparse).imp (fun h db => h db v) fun h =>
      ⟨⟨head, Sql.conj p.expr (ps.map expr), order, limit⟩, rfl, fun db =>
        h db v _ (eval_query A hps hv hp db)⟩

end Query

/-- The text of `filter_emails`. -/
def aroundFilter : Around "SELECT e.id FROM emails e WHERE " orderClause
    ⟨.col (some "e") "id", "emails", "e"⟩ [("e", "received_at"), ("e", "id")] none where
  headTokens := [.kw .select, .name "e", .dot, .name "id", .kw .from, .name "emails", .name "e",
    .kw .where]
  tailTokens := [.kw .order, .kw .by, .name "e", .dot, .name "received_at", .kw .desc, .comma,
    .name "e", .dot, .name "id", .kw .desc]
  scan_before := by decide +kernel
  parse_before := rfl
  blank := .inr ⟨_, rfl⟩
  lex_after := by decide +kernel
  parse_after := .inr ⟨_, rfl, rfl⟩
  table := ⟨rfl, rfl⟩
  named _ := rfl

/-- The text of the count. -/
def aroundCount : Around "SELECT count(*) FROM emails e WHERE " ""
    ⟨.count, "emails", "e"⟩ [] none where
  headTokens := [.kw .select, .kw .count, .lparen, .star, .rparen, .kw .from, .name "emails",
    .name "e", .kw .where]
  tailTokens := []
  scan_before := by decide +kernel
  parse_before := rfl
  blank := .inl rfl
  lex_after := rfl
  parse_after := .inl ⟨rfl, rfl, rfl⟩
  table := ⟨rfl, rfl⟩
  named _ := rfl

/-- What follows the clause in the query. -/
def queryTail (limit position : ℕ) : String :=
  orderClause ++ (" LIMIT " ++ (toString limit ++ (" OFFSET " ++ toString position)))

theorem toList_queryTail (limit position : ℕ) : (queryTail limit position).toList =
    (orderClause.toList ++ " LIMIT ".toList) ++
      ((toString limit).toList ++ (" OFFSET ".toList ++ (toString position).toList)) := by
  simp only [queryTail, String.toList_append, List.append_assoc]

/-- The tokens of it. -/
def queryTailTokens (limit position : ℕ) : List Token :=
  [.kw .order, .kw .by, .name "e", .dot, .name "received_at", .kw .desc, .comma,
    .name "e", .dot, .name "id", .kw .desc, .kw .limit, .num limit, .kw .offset, .num position]

theorem lex_queryTail (limit position : ℕ) :
    Sql.lexFrom vocabulary .start (queryTail limit position).toList =
      .tokens (queryTailTokens limit position) := by
  have horder : Sql.scan vocabulary .start (orderClause.toList ++ " LIMIT ".toList)
      = ((queryTailTokens 0 0).take 12, .start) := by decide +kernel
  have hoffset : Sql.scan vocabulary .start " OFFSET ".toList = ([.kw .offset], .start) := by
    decide +kernel
  have hposition := Sql.lexFrom_nat (V := vocabulary) position (c := []) (.inl rfl)
  rw [List.append_nil] at hposition
  have hlimit := Sql.lexFrom_nat (V := vocabulary) limit
    (c := " OFFSET ".toList ++ (toString position).toList) (.inr ⟨_, rfl⟩)
  rw [toList_queryTail, Sql.lexFrom_append_of_scan horder, hlimit,
    Sql.lexFrom_append_of_scan hoffset, hposition]
  rfl

/-- The text of `query_emails_with_filters`. -/
def aroundQuery {limit position : ℕ} (hlimit : limit < 2 ^ 63) (hposition : position < 2 ^ 63) :
    Around "SELECT id FROM emails e WHERE " (queryTail limit position)
      ⟨.col none "id", "emails", "e"⟩ [("e", "received_at"), ("e", "id")]
      (some (limit, position)) where
  headTokens := [.kw .select, .name "id", .kw .from, .name "emails", .name "e", .kw .where]
  tailTokens := queryTailTokens limit position
  scan_before := by decide +kernel
  parse_before := rfl
  blank := .inr ⟨_, toList_queryTail limit position⟩
  lex_after := lex_queryTail limit position
  parse_after := by
    refine .inr ⟨_, rfl, ?_⟩
    change (if limit < 2 ^ 63 ∧ position < 2 ^ 63 then _ else _ : Option _).map _ = _
    rw [if_pos ⟨hlimit, hposition⟩]
    rfl
  table := ⟨rfl, rfl⟩
  named _ := rfl

end Statements

/-! ## Own rows only -/

section Own

open WherePart

variable {db db' : MailDb} {a : AccountId}

theorem emailId_text_eq {x y : EmailId} : x.uuid.toString = y.uuid.toString ↔ x = y :=
  (Uuid.toString_injective.comp EmailId.uuid_injective).eq_iff

theorem accountId_text_eq {x y : AccountId} : x.uuid.toString = y.uuid.toString ↔ x = y := by
  refine ⟨fun h => ?_, fun h => by rw [h]⟩
  cases x
  cases y
  exact congrArg AccountId.mk (Uuid.toString_injective h)

namespace SameOwn

theorem modseq (h : SameOwn a db db') (t : DataType) : db.modseq a t = db'.modseq a t := by
  have hfind : ∀ db : MailDb, (db.states.find? fun r => r.accountId = a ∧ r.dataType = t)
      = (db.states.filter (·.accountId = a)).find? (·.dataType = t) := by
    intro db
    rw [List.find?_filter]
    simp only [Bool.decide_and, Bool.decide_coe]
  rw [MailDb.modseq, MailDb.modseq, hfind, hfind, h.states]

/-- A part says the same of an own email in both databases. -/
theorem holds (h : SameOwn a db db') {r : EmailsRow} (hr : r ∈ db.emails)
    (ha : r.accountId = a) (p : WherePart) : p.holds db a r = p.holds db' a r := by
  cases p with
  | inMailbox m =>
    have hown : ∀ db : MailDb, WherePart.holds db a r (.inMailbox m) =
        (db.emailMailbox.filter (·.emailId = r.id)).any fun em =>
          em.mailboxId.uuid.toString = literal m := by
      intro db
      rw [WherePart.holds, List.any_filter]
      simp only [emailId_text_eq, Bool.decide_and]
    rw [hown, hown, h.emailMailbox r hr ha]
  | keyword present k =>
    have hown : ∀ db : MailDb, WherePart.holds db a r (.keyword present k) =
        (((db.emailKeyword.filter (·.emailId = r.id)).any fun ek => ek.keyword = literal k)
          == present) := by
      intro db
      rw [WherePart.holds, List.any_filter]
      simp only [emailId_text_eq, Bool.decide_and]
    rw [hown, hown, h.emailKeyword r hr ha]
  | _ => rfl

end SameOwn

/-- The parts that select the account. -/
def WherePart.IsAccount (a : AccountId) (p : WherePart) : Prop := p = .accountParam ∨ p = .account a

theorem WherePart.IsAccount.holds_eq {p : WherePart} (hp : p.IsAccount a) (r : EmailsRow) :
    p.holds db a r = decide (r.accountId = a) := by
  rcases hp with rfl | rfl
  · simp only [WherePart.holds, accountId_text_eq]
  · simp only [WherePart.holds, literal_uuid, accountId_text_eq]

/-- What is selected, with the account first. -/
theorem MailDb.selected_eq {p : WherePart} {ps : List WherePart} (hp : p.IsAccount a) :
    db.selected a (p :: ps) = (db.emails.filter (·.accountId = a)).filter fun r =>
      ps.all fun q => q.holds db a r := by
  rw [MailDb.selected, List.filter_filter]
  refine List.filter_congr fun r _ => ?_
  rw [List.all_cons, hp.holds_eq, Bool.and_comm]

theorem MailDb.mem_selected {p : WherePart} {ps : List WherePart} (hp : p.IsAccount a)
    {r : EmailsRow} (hr : r ∈ db.selected a (p :: ps)) : r ∈ db.emails ∧ r.accountId = a := by
  rw [MailDb.selected_eq hp] at hr
  obtain ⟨hmem, ha⟩ := List.mem_filter.mp (List.mem_of_mem_filter hr)
  exact ⟨hmem, of_decide_eq_true ha⟩

theorem SameOwn.selected (h : SameOwn a db db') {p : WherePart} {ps : List WherePart}
    (hp : p.IsAccount a) : db.selected a (p :: ps) = db'.selected a (p :: ps) := by
  rw [MailDb.selected_eq hp, MailDb.selected_eq hp, ← h.emails]
  refine List.filter_congr fun r hr => ?_
  obtain ⟨hmem, ha⟩ := List.mem_filter.mp hr
  simp only [h.holds hmem (of_decide_eq_true ha)]

theorem SameOwn.plainRows (h : SameOwn a db db') (m : Option String) :
    db.plainRows a m = db'.plainRows a m := by
  cases m with
  | none => exact h.emails
  | some m =>
    rw [MailDb.plainRows, MailDb.plainRows, ← h.emails]
    refine List.flatMap_congr fun r hr => ?_
    obtain ⟨hmem, ha⟩ := List.mem_filter.mp hr
    have hsplit : ∀ db : MailDb, (db.emailMailbox.filter fun em =>
        em.emailId = r.id ∧ em.mailboxId.uuid.toString = m) =
          (db.emailMailbox.filter (·.emailId = r.id)).filter
            fun em => em.mailboxId.uuid.toString = m := by
      intro db
      rw [List.filter_filter]
      simp only [Bool.decide_and, Bool.and_comm]
    rw [hsplit, hsplit, h.emailMailbox r hmem (of_decide_eq_true ha)]

theorem MailDb.mem_plainRows {m : Option String} {r : EmailsRow} (hr : r ∈ db.plainRows a m) :
    r ∈ db.emails ∧ r.accountId = a := by
  have hown : r ∈ db.emails.filter (·.accountId = a) := by
    cases m with
    | none => exact hr
    | some m =>
      obtain ⟨r', hr', hmem⟩ := List.mem_flatMap.mp hr
      obtain ⟨_, _, rfl⟩ := List.mem_map.mp hmem
      exact hr'
  obtain ⟨hmem, ha⟩ := List.mem_filter.mp hown
  exact ⟨hmem, of_decide_eq_true ha⟩

/-! ## The answers -/

theorem mem_of_textRows {rows : List Value} {texts : List String} (h : textRows rows = .ok texts) :
    ∀ s ∈ texts, Value.text s ∈ rows := by
  induction rows generalizing texts with
  | nil =>
    obtain rfl : [] = texts := Except.ok.inj h
    exact fun _ hs => nomatch hs
  | cons v rows ih =>
    rw [textRows, List.mapM_cons] at h
    cases v with
    | null => cases h
    | int n => cases h
    | text s =>
      cases hrows : textRows rows with
      | error e =>
        rw [textRows] at hrows
        rw [hrows] at h
        cases h
      | ok ss =>
        have hss := ih hrows
        rw [textRows] at hrows
        rw [hrows] at h
        obtain rfl : s :: ss = texts := Except.ok.inj h
        intro s' hs'
        rcases List.mem_cons.mp hs' with rfl | hs'
        · exact List.mem_cons_self
        · exact List.mem_cons_of_mem _ (hss s' hs')

/-- Whatever the rows are, reading them ends in the error that follows. -/
theorem textRows_bind_error {α : Type} (rows : List Value) :
    (textRows rows >>= fun _ => (.error .sqlite : Except StorageError α)) = .error .sqlite := by
  induction rows with
  | nil => rfl
  | cons v rows ih =>
    rw [textRows, List.mapM_cons]
    cases v with
    | null => rfl
    | int n => rfl
    | text s =>
      rw [textRows] at ih
      cases hrows : List.mapM (m := Except StorageError) _ rows with
      | error e =>
        rw [hrows] at ih
        exact ih
      | ok ss => rfl

/-- What the statements put out are values of the selected rows. -/
theorem mem_output {stmt : Sql.Stmt} {c : String} {t : Option String}
    (hcol : stmt.head.column = .col t c) {rows : List Row} {v : Value}
    (h : v ∈ stmt.output rows) : ∃ r ∈ rows, r c = v := by
  have hcut : ∀ (l : Option (ℕ × ℕ)) (out : List Value), v ∈ Sql.cut l out → v ∈ out := by
    intro l out hv
    cases l with
    | none => exact hv
    | some l => exact List.mem_of_mem_drop (List.mem_of_mem_take hv)
  have hv := hcut _ _ h
  rw [hcol, Sql.project] at hv
  obtain ⟨r, hr, rfl⟩ := List.mem_map.mp hv
  exact ⟨r, (List.mem_insertionSort _).mp hr, rfl⟩

theorem WherePart.fit_of_splices {p : WherePart} {s : String} (hs : p.splices = [s])
    (hp : p ≠ .idIn []) (hc : contained s.toList) : p.Fit := by
  refine ⟨fun s' hs' => ?_, hp⟩
  rw [hs] at hs'
  rw [List.mem_singleton.mp hs']
  exact hc

theorem EmailFilter.fit_flagParts (f : EmailFilter) : ∀ p ∈ f.flagParts, p.Fit := by
  intro p hp
  simp only [EmailFilter.flagParts, List.mem_append, Option.mem_toList, Option.map_eq_some_iff] at hp
  rcases hp with ⟨b, -, rfl⟩ | ⟨b, -, rfl⟩
  · exact fit_of_splices rfl (by simp) (by decide +kernel)
  · exact fit_of_splices rfl (by simp) (by decide +kernel)

theorem EmailFilter.fit_queryParts {f : EmailFilter}
    (h : ∀ s ∈ f.inMailbox.toList ++ f.allInThread.toList, contained s.toList) :
    ∀ p ∈ f.queryParts, p.Fit := by
  intro p hp
  simp only [EmailFilter.queryParts, List.mem_append, Option.mem_toList,
    Option.map_eq_some_iff] at hp h
  rcases hp with (((⟨m, hm, rfl⟩ | ⟨n, -, rfl⟩) | ⟨n, -, rfl⟩) | ⟨t, ht, rfl⟩) | hflag
  · exact fit_of_splices rfl (by simp) (h m (.inl hm))
  · exact ⟨fun _ hs => (nomatch hs), by simp⟩
  · exact ⟨fun _ hs => (nomatch hs), by simp⟩
  · exact fit_of_splices rfl (by simp) (h t (.inr ht))
  · exact f.fit_flagParts p hflag

theorem EmailFilter.fit_filterParts {f : EmailFilter} {ids : List EmailId} (hids : ids ≠ [])
    (h : ∀ s ∈ f.inMailbox.toList ++ f.hasKeyword.toList ++ f.notKeyword.toList ++
      f.allInThread.toList, contained s.toList) :
    ∀ p ∈ f.filterParts ids, p.Fit := by
  intro p hp
  simp only [EmailFilter.filterParts, List.cons_append, List.mem_cons, List.mem_append,
    Option.mem_toList, Option.map_eq_some_iff] at hp h
  rcases hp with rfl | (((((⟨m, hm, rfl⟩ | ⟨k, hk, rfl⟩) | ⟨k, hk, rfl⟩) | ⟨n, -, rfl⟩) |
    ⟨n, -, rfl⟩) | ⟨t, ht, rfl⟩) | hflag
  · refine ⟨fun s hs => ?_, fun he => hids (WherePart.idIn.inj he)⟩
    obtain ⟨id, -, rfl⟩ := List.mem_map.mp hs
    exact contained_uuid _
  · exact fit_of_splices rfl (by simp) (h m (.inl (.inl (.inl hm))))
  · exact fit_of_splices rfl (by simp) (h k (.inl (.inl (.inr hk))))
  · exact fit_of_splices rfl (by simp) (h k (.inl (.inr hk)))
  · exact ⟨fun _ hs => (nomatch hs), by simp⟩
  · exact ⟨fun _ hs => (nomatch hs), by simp⟩
  · exact fit_of_splices rfl (by simp) (h t (.inr ht))
  · exact f.fit_flagParts p hflag

/-- The parts after the account bring no parameter. -/
theorem EmailFilter.no_param {f : EmailFilter} (ids : List EmailId) :
    ∀ p ∈ f.filterParts ids ++ f.queryParts, p ≠ .accountParam := by
  intro p hp
  simp only [EmailFilter.filterParts, EmailFilter.queryParts, EmailFilter.flagParts,
    List.cons_append, List.mem_cons, List.mem_append, Option.mem_toList,
    Option.map_eq_some_iff] at hp
  rintro rfl
  simp at hp

variable {S : Sqlite} {fresh : EmailId} {f : EmailFilter} {ids : List EmailId}

/-- The ids in the rows a statement puts out. -/
def parsedIds (fresh : EmailId) (stmt : Sql.Stmt) (rows : List EmailsRow) :
    Except StorageError (List EmailId) := do
  let texts ← textRows (stmt.output (rows.map (·.toSql)))
  return texts.map (parseEmailId fresh)

theorem mem_parsedIds {stmt : Sql.Stmt} {t : Option String} (hcol : stmt.head.column = .col t "id")
    {rows : List EmailsRow} {out : List EmailId} (h : parsedIds fresh stmt rows = .ok out) :
    ∀ id ∈ out, ∃ r ∈ rows, r.id = id := by
  rw [parsedIds] at h
  cases htexts : textRows (stmt.output (rows.map (·.toSql))) with
  | error e =>
    rw [htexts] at h
    cases h
  | ok texts =>
    rw [htexts] at h
    obtain rfl : texts.map (parseEmailId fresh) = out := Except.ok.inj h
    intro id hid
    obtain ⟨s, hs, rfl⟩ := List.mem_map.mp hid
    obtain ⟨row, hrow, hval⟩ := mem_output hcol (mem_of_textRows htexts s hs)
    obtain ⟨r, hr, rfl⟩ := List.mem_map.mp hrow
    obtain rfl : r.id.uuid.toString = s := Value.text.inj hval
    refine ⟨r, hr, ?_⟩
    rw [parseEmailId, Uuid.parseStr_toString]

/-- `filter_emails` on contained strings: refused, or a function of the selected emails. -/
theorem filterEmails_cases (hS : S.Conforms) (hids : ids ≠ [])
    (h : ∀ s ∈ f.inMailbox.toList ++ f.hasKeyword.toList ++ f.notKeyword.toList ++
      f.allInThread.toList, contained s.toList) :
    (∀ db, filterEmails S fresh db a ids f = .error .sqlite) ∨
      ∃ stmt : Sql.Stmt, stmt.head.column = .col (some "e") "id" ∧
        ∀ db, filterEmails S fresh db a ids f =
          parsedIds fresh stmt (db.selected a (.accountParam :: f.filterParts ids)) := by
  have hfit : ∀ q ∈ WherePart.accountParam :: f.filterParts ids, q.Fit :=
    List.forall_mem_cons.mpr
      ⟨⟨fun _ hs => (nomatch hs), by simp⟩, EmailFilter.fit_filterParts hids h⟩
  have hcall : ∀ db, filterEmails S fresh db a ids f =
      (S.query db (filterSql (.accountParam :: f.filterParts ids)) [accountText a] >>= fun rows =>
        textRows rows >>= fun texts => pure (texts.map (parseEmailId fresh))) := by
    intro db
    rw [filterEmails, if_neg hids]
  generalize htext : filterSql (.accountParam :: f.filterParts ids) = t at hcall
  have hquery := query_cases hS aroundFilter (a := a) (v := [accountText a]) htext.symm hfit
    (fun q hq => EmailFilter.no_param ids q (List.mem_append_left _ hq)) rfl fun _ => rfl
  rcases hquery with hrefused | ⟨stmt, hhead, hanswered⟩
  · refine .inl fun db => ?_
    rw [hcall, hrefused]
    rfl
  · refine .inr ⟨stmt, by rw [hhead], fun db => ?_⟩
    rw [hcall, hanswered]
    rfl

/-- What `query_emails_with_filters` makes of the rows of its two statements. -/
def queryAnswer (stmt count : Sql.Stmt) (rows : List EmailsRow) (state : ModSeq) :
    Except StorageError (List String × ℤ × ModSeq) := do
  let ids ← textRows (stmt.output (rows.map (·.toSql)))
  let total ← countRow (count.output (rows.map (·.toSql)))
  return (ids, total, state)

theorem mem_queryAnswer {stmt count : Sql.Stmt} {t : Option String}
    (hcol : stmt.head.column = .col t "id") {rows : List EmailsRow} {state : ModSeq}
    {out : List String × ℤ × ModSeq} (h : queryAnswer stmt count rows state = .ok out) :
    ∀ id ∈ out.1, ∃ r ∈ rows, r.id.uuid.toString = id := by
  rw [queryAnswer] at h
  cases htexts : textRows (stmt.output (rows.map (·.toSql))) with
  | error e =>
    rw [htexts] at h
    cases h
  | ok texts =>
    cases htotal : countRow (count.output (rows.map (·.toSql))) with
    | error e =>
      rw [htexts, htotal] at h
      cases h
    | ok total =>
      rw [htexts, htotal] at h
      obtain rfl : (texts, total, state) = out := Except.ok.inj h
      intro id hid
      obtain ⟨row, hrow, hval⟩ := mem_output hcol (mem_of_textRows htexts id hid)
      obtain ⟨r, hr, rfl⟩ := List.mem_map.mp hrow
      exact ⟨r, hr, Value.text.inj hval⟩

/-- `query_emails_with_filters` on contained strings: refused, or a function of the
selected emails and the counter. -/
theorem queryEmailsWithFilters_cases (hS : S.Conforms) {position limit : ℕ}
    (hlimit : limit < 2 ^ 63) (hposition : position < 2 ^ 63)
    (h : ∀ s ∈ f.inMailbox.toList ++ f.allInThread.toList, contained s.toList) :
    (∀ db, queryEmailsWithFilters S db a f position limit = .error .sqlite) ∨
      ∃ stmt count : Sql.Stmt, stmt.head.column = .col none "id" ∧
        ∀ db : MailDb, queryEmailsWithFilters S db a f position limit =
          queryAnswer stmt count (db.selected a (.account a :: f.queryParts))
            (db.modseq a .email) := by
  have hfit : ∀ q ∈ WherePart.account a :: f.queryParts, q.Fit :=
    List.forall_mem_cons.mpr
      ⟨fit_of_splices rfl (by simp) (contained_uuid _), EmailFilter.fit_queryParts h⟩
  have hparam : ∀ q ∈ f.queryParts, q ≠ .accountParam := fun q hq =>
    EmailFilter.no_param [] q (List.mem_append_right _ hq)
  have hcall : ∀ db : MailDb, queryEmailsWithFilters S db a f position limit =
      (S.query db (querySql (.account a :: f.queryParts) limit position) [] >>= fun rows =>
        textRows rows >>= fun ids =>
          S.query db (countSql (.account a :: f.queryParts)) [] >>= fun counts =>
            countRow counts >>= fun total => pure (ids, total, db.modseq a .email)) :=
    fun _ => rfl
  have hrows := query_cases hS (aroundQuery hlimit hposition) (a := a) (v := [])
    (t := querySql (.account a :: f.queryParts) limit position) rfl hfit hparam rfl
    fun h => nomatch h
  have hcounts := query_cases hS aroundCount (a := a) (v := [])
    (t := countSql (.account a :: f.queryParts)) (by rw [String.append_empty]; rfl) hfit hparam
    rfl fun h => nomatch h
  generalize querySql (.account a :: f.queryParts) limit position = t at hcall hrows
  generalize countSql (.account a :: f.queryParts) = u at hcall hcounts
  rcases hrows with hrefused | ⟨stmt, hhead, hanswered⟩
  · refine .inl fun db => ?_
    rw [hcall, hrefused]
    rfl
  rcases hcounts with hrefused | ⟨count, -, hcounted⟩
  · -- the rows may be read, but the count is refused
    refine .inl fun db => ?_
    rw [hcall, hanswered]
    simp only [hrefused]
    exact textRows_bind_error _
  · refine .inr ⟨stmt, count, by rw [hhead], fun db => ?_⟩
    rw [hcall, hanswered]
    simp only [hcounted]
    rfl

end Own

/-! ## The method -/

section Method

variable {S : Sqlite} {a : AccountId} {args : QueryArgs} {hits : List EmailId}

theorem ok_of_map {ε α β : Type} {x : Except ε α} {f : α → β} {y : β} (h : x.map f = .ok y) :
    ∃ v, x = .ok v ∧ f v = y := by
  cases x with
  | error e => cases h
  | ok v => exact ⟨v, rfl, Except.ok.inj h⟩

theorem QueryArgs.upTo_lt (args : QueryArgs) : args.upTo < 2 ^ 63 :=
  Nat.lt_of_le_of_lt (Nat.min_le_right _ _) (by decide)

theorem QueryArgs.start_lt (args : QueryArgs) : args.start < 2 ^ 63 := by
  have h := Int64.toInt_lt (args.position.getD 0)
  rw [QueryArgs.start]
  omega

/-- The text path. -/
theorem isolated_text (hS : S.Conforms) (htext : args.theFilter.text.isSome = true)
    (h : args.Contained hits) : Isolated S a args hits := by
  have hcall : ∀ fresh db, emailQuery S fresh db a args hits =
      (filterEmails S fresh db a hits args.theFilter).map fun filtered =>
        ⟨((filtered.drop args.start).take args.upTo).map (·.uuid.toString), filtered.length,
          db.modseq a .email, args.start⟩ := by
    intro fresh db
    rw [emailQuery, if_pos htext]
    cases filterEmails S fresh db a hits args.theFilter <;> rfl
  by_cases hids : hits = []
  · -- no hit, no query
    have hnone : ∀ fresh db, filterEmails S fresh db a hits args.theFilter = .ok [] :=
      fun fresh db => by rw [filterEmails, if_pos hids]
    constructor
    · intro fresh db r hr id hid
      rw [hcall, hnone] at hr
      obtain rfl := Except.ok.inj hr
      simp at hid
    · intro fresh db db' hsame
      rw [hcall, hcall, hnone, hnone, hsame.modseq]
  have hstrings : ∀ s ∈ args.theFilter.inMailbox.toList ++ args.theFilter.hasKeyword.toList ++
      args.theFilter.notKeyword.toList ++ args.theFilter.allInThread.toList,
      contained s.toList := by
    intro s hs
    refine h s ?_
    rw [QueryArgs.spliced, if_pos htext, if_neg hids]
    exact hs
  constructor
  · intro fresh db r hr id hid
    rw [hcall] at hr
    have hcases : (∀ db, filterEmails S fresh db a hits args.theFilter = .error .sqlite) ∨ _ :=
      filterEmails_cases hS hids hstrings
    rcases hcases with hrefused | ⟨stmt, hcol, hanswered⟩
    · rw [hrefused] at hr
      cases hr
    rw [hanswered] at hr
    obtain ⟨filtered, hparsed, rfl⟩ := ok_of_map hr
    obtain ⟨e, he, rfl⟩ := List.mem_map.mp hid
    obtain ⟨row, hrow, rfl⟩ :=
      mem_parsedIds hcol hparsed e (List.mem_of_mem_drop (List.mem_of_mem_take he))
    obtain ⟨hmem, ha⟩ := MailDb.mem_selected (.inl rfl) hrow
    exact ⟨row, hmem, ha, rfl⟩
  · intro fresh db db' hsame
    rw [hcall, hcall, hsame.modseq]
    have hcases : (∀ db, filterEmails S fresh db a hits args.theFilter = .error .sqlite) ∨ _ :=
      filterEmails_cases hS hids hstrings
    rcases hcases with hrefused | ⟨stmt, -, hanswered⟩
    · rw [hrefused, hrefused]
    · rw [hanswered, hanswered, hsame.selected (.inl rfl)]

/-- The path of `query_emails_with_filters`. -/
theorem isolated_enhanced (hS : S.Conforms) (htext : args.theFilter.text.isSome = false)
    (hfilter : args.theFilter.enhanced = true) (h : args.Contained hits) :
    Isolated S a args hits := by
  have hcall : ∀ fresh db, emailQuery S fresh db a args hits =
      (queryEmailsWithFilters S db a args.theFilter args.start args.upTo).map fun out =>
        ⟨out.1, out.2.1, out.2.2, args.start⟩ := by
    intro fresh db
    rw [emailQuery, if_neg (by rw [htext]; decide), if_pos hfilter]
    cases queryEmailsWithFilters S db a args.theFilter args.start args.upTo <;> rfl
  have hstrings : ∀ s ∈ args.theFilter.inMailbox.toList ++ args.theFilter.allInThread.toList,
      contained s.toList := by
    intro s hs
    refine h s ?_
    rw [QueryArgs.spliced, if_neg (by rw [htext]; decide), if_pos hfilter]
    exact hs
  have hcases := queryEmailsWithFilters_cases (a := a) hS args.upTo_lt args.start_lt hstrings
  constructor
  · intro fresh db r hr id hid
    rw [hcall] at hr
    rcases hcases with hrefused | ⟨stmt, count, hcol, hanswered⟩
    · rw [hrefused] at hr
      cases hr
    rw [hanswered] at hr
    obtain ⟨out, hout, rfl⟩ := ok_of_map hr
    obtain ⟨row, hrow, rfl⟩ := mem_queryAnswer hcol hout id hid
    obtain ⟨hmem, ha⟩ := MailDb.mem_selected (.inr rfl) hrow
    exact ⟨row, hmem, ha, rfl⟩
  · intro fresh db db' hsame
    rw [hcall, hcall]
    rcases hcases with hrefused | ⟨stmt, count, -, hanswered⟩
    · rw [hrefused, hrefused]
    · rw [hanswered, hanswered, hsame.selected (.inr rfl), hsame.modseq]

/-- The plain path. -/
theorem isolated_plain (htext : args.theFilter.text.isSome = false)
    (hfilter : args.theFilter.enhanced = false) : Isolated S a args hits := by
  have hcall : ∀ fresh db, emailQuery S fresh db a args hits =
      .ok ⟨(queryEmails db a args.theFilter.inMailbox args.start args.upTo).1,
        (queryEmails db a args.theFilter.inMailbox args.start args.upTo).2.1,
        (queryEmails db a args.theFilter.inMailbox args.start args.upTo).2.2, args.start⟩ := by
    intro fresh db
    rw [emailQuery, if_neg (by rw [htext]; decide), if_neg (by rw [hfilter]; decide)]
  constructor
  · intro fresh db r hr id hid
    rw [hcall] at hr
    obtain rfl := Except.ok.inj hr
    obtain ⟨row, hrow, rfl⟩ := List.mem_map.mp hid
    have hplain := List.mem_of_mem_drop (List.mem_of_mem_take hrow)
    obtain ⟨hmem, ha⟩ := MailDb.mem_plainRows ((List.mem_insertionSort _).mp hplain)
    exact ⟨row, hmem, ha, rfl⟩
  · intro fresh db db' hsame
    rw [hcall, hcall, queryEmails, queryEmails, hsame.plainRows, hsame.modseq]

end Method

/-- **Tenant isolation.** A query whose spliced strings all stay inside their literals
lists emails of the calling account only, and other accounts' rows make no difference
to it. -/
theorem emailQuery_isolated (S : Sqlite) (hS : S.Conforms) (a : AccountId) (args : QueryArgs)
    (hits : List EmailId) (h : args.Contained hits) : Isolated S a args hits := by
  cases htext : args.theFilter.text.isSome with
  | true => exact isolated_text hS htext h
  | false =>
    cases hfilter : args.theFilter.enhanced with
    | true => exact isolated_enhanced hS htext hfilter h
    | false => exact isolated_plain htext hfilter

/-- A quote that is doubled stays inside: a search in mailbox `it''s`, after a date. -/
theorem emailQuery_isolated_quoted :
    Isolated Sqlite.fragment ⟨1⟩ ⟨none, some 10, some ⟨some "it''s", none, none, none, some 0, none,
      none, none, none⟩⟩ [] :=
  emailQuery_isolated Sqlite.fragment Sqlite.fragment_conforms ⟨1⟩ _ [] (by decide +kernel)

/-- A thread id that closes its literal and adds an alternative. -/
def injected : QueryArgs := { filter := some { allInThread := some "x' OR '1'='1" } }

/-- One email, of account 2. -/
def othersMail : MailDb :=
  { MailDb.empty with
    emails := [⟨⟨7⟩, ⟨2⟩, ⟨8⟩, ⟨9⟩, none, none, none, 0, 0, 1, 1, none, none, none, false,
      false⟩] }

/-- Account 1 is told the id of account 2's email. -/
theorem not_isolated_injected : ¬Isolated Sqlite.fragment ⟨1⟩ injected [] := by
  intro h
  have hids : emailQuery Sqlite.fragment ⟨0⟩ othersMail ⟨1⟩ injected [] =
      .ok ⟨[(7 : Uuid).toString], 1, 0, 0⟩ := by
    decide +kernel
  obtain ⟨e, he, ha, -⟩ := h.own ⟨0⟩ othersMail _ hids _ List.mem_cons_self
  obtain rfl := List.mem_singleton.mp he
  revert ha
  decide

end Owney
