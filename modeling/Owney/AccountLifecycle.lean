import Owney.Lib.Runs
import Owney.InboundDelivery
import Owney.OAuthStore
import Owney.Queue
import Owney.SmtpSession

/-!
# Accounts, aliases and recipients

The life of an account (`create_account`, `disable_account`, `enable_account`), its tokens
and its aliases (`aliases.rs`), and the two times a recipient is looked up: by
`ServerCore::rcpt` when the session offers it, and by `deliver` when the message is there.

An address of `accounts` and one of `aliases` may be the same: each table has a uniqueness
rule of its own. `resolve_recipient` asks `accounts` first and `aliases` when that gives no
enabled account, be it that there is none, that it is disabled, or that the query failed.

`enable_account` names one of its two values only, so its statement is refused before it
runs; see `enableAccountTx`.
-/

namespace Owney

open Runs Tables

/-! ## Tables -/

/-- A row of `aliases` with its id. -/
structure AliasRecord extends AliasesRow where
  id : String
  deriving DecidableEq, Repr

/-- `accounts` and `app_passwords`, which are among the tables of the login, and `aliases`. -/
structure AccountsDb where
  login : OAuthDb
  aliases : List AliasRecord
  deriving DecidableEq, Repr

namespace AccountsDb

/-- A new installation. -/
def empty : AccountsDb := ⟨.empty, []⟩

/-- The rows of `accounts`. -/
def accounts (db : AccountsDb) : List LoginAccount := db.login.accounts

/-- The tables as a lookup reads them. -/
def directory (db : AccountsDb) : Directory where
  accounts := db.accounts.map (·.toAccountsRow)
  disabled := (db.accounts.filter (·.disabledAt.isSome)).map (·.id)
  aliases := db.aliases.map (·.toAliasesRow)

/-- The tables with other rows in `accounts`. -/
def setAccounts (db : AccountsDb) (accounts : List LoginAccount) : AccountsDb :=
  { db with login := { db.login with accounts := accounts } }

@[simp] theorem accounts_setAccounts (db : AccountsDb) (accounts : List LoginAccount) :
    (db.setAccounts accounts).accounts = accounts := rfl

end AccountsDb

/-! ## Storage calls -/

/-- The check of `rusqlite` that a statement has as many parameters as it is given values.
A statement has as many parameters as the largest number among its `?n`. -/
def bindParameters (parameters values : ℕ) : Tx AccountsDb PUnit :=
  Tx.require (values = parameters) .sqlite

/-- `Storage::create_account`; the inserts of the mailboxes are the second statement. -/
def openAccountTx (U : Unicode) (io : Io) (id : AccountId) (email : String)
    (displayName : Option String) (now : ℤ) : Tx AccountsDb PUnit := do
  let email := U.toLowercase (U.trim email)
  let db ← Tx.get
  Tx.require (∀ a ∈ db.accounts, a.id ≠ id ∧ nocaseEq a.email email = false) .sqlite
  Tx.exec io 0 fun db => db.setAccounts (db.accounts ++ [⟨⟨id, email, displayName, now⟩, none⟩])
  Tx.exec io 1 fun db => db

/-- `Storage::disable_account`:
`UPDATE accounts SET disabled_at = ?1 WHERE id = ?2` with the time and the id. -/
def disableAccountTx (io : Io) (id : AccountId) (now : ℤ) : Tx AccountsDb PUnit := do
  bindParameters 2 2
  Tx.exec io 0 fun db =>
    db.setAccounts (update (·.id = id) (fun a => { a with disabledAt := some now }) db.accounts)

/-- `Storage::enable_account`:
`UPDATE accounts SET disabled_at = NULL WHERE id = ?2` with the id alone. -/
def enableAccountTx (io : Io) (id : AccountId) : Tx AccountsDb PUnit := do
  bindParameters 2 1
  Tx.exec io 0 fun db =>
    db.setAccounts (update (·.id = id) (fun a => { a with disabledAt := none }) db.accounts)

/-- `Storage::create_alias`. -/
def createAliasTx (U : Unicode) (io : Io) (id : String) (accountId : AccountId)
    (aliasEmail : String) (expiresAt : Option ℤ) : Tx AccountsDb PUnit := do
  let aliasEmail := U.toLowercase (U.trim aliasEmail)
  let db ← Tx.get
  Tx.require (db.accounts.any fun a => a.id = accountId) .sqlite
  Tx.require (∀ r ∈ db.aliases, r.id ≠ id ∧ nocaseEq r.aliasEmail aliasEmail = false) .sqlite
  Tx.exec io 0 fun db =>
    { db with aliases := db.aliases ++ [⟨⟨accountId, aliasEmail, expiresAt, true⟩, id⟩] }

/-- `Storage::deactivate_alias`. -/
def deactivateAliasTx (io : Io) (id : String) : Tx AccountsDb PUnit :=
  Tx.exec io 0 fun db =>
    { db with aliases := update (·.id = id) (fun r => { r with active := false }) db.aliases }

/-! ## Lookups -/

/-- What a lookup draws from outside. -/
structure LookupCalls where
  now : ℤ
  accountsAnswered : Bool
  aliasesAnswered : Bool

/-- A lookup in the tables. -/
def AccountsDb.lookup (db : AccountsDb) (calls : LookupCalls) : Lookup :=
  ⟨db.directory, calls.now, calls.accountsAnswered, calls.aliasesAnswered⟩

section Lookups

variable (U : Unicode) (domain : String)

/-- An address as the tables have it. -/
def normal (address : String) : String := U.toLowercase (U.trim address)

/-- `ServerCore::rcpt`. -/
def rcpt (q : Lookup) (address : String) : Smtp.RcptVerdict :=
  let address := normal U address
  match rsplitOnce '@' address with
  | none => .unknownUser
  | some (_, d) =>
    if d ≠ domain then .notLocal
    else match resolveRecipient U q address with
      | .ok (some _) => .accept
      | .ok none => .unknownUser
      | .error _ => .tryAgainLater

/-- The address is one of the server's domain. -/
def isLocal (address : String) : Bool :=
  (rsplitOnce '@' (normal U address)).any fun parts => parts.2 = domain

/-- The account that `rcpt` looks up, if it comes to it. -/
def rcptLookup (q : Lookup) (address : String) :
    Option (Except StorageError (Option AccountsRow)) :=
  if isLocal U domain address then some (resolveRecipient U q (normal U address)) else none

/-- A recipient is accepted if the lookup answers with an account. -/
theorem rcpt_accept {q : Lookup} {address : String} : rcpt U domain q address = .accept ↔
    ∃ a, rcptLookup U domain q address = some (.ok (some a)) := by
  rcases hparts : rsplitOnce '@' (normal U address) with _ | ⟨localPart, d⟩
  · simp [rcpt, rcptLookup, isLocal, hparts]
  · by_cases hd : d = domain
    · rcases hres : resolveRecipient U q (normal U address) with e | _ | a <;>
        simp [rcpt, rcptLookup, isLocal, hparts, hd, hres]
    · simp [rcpt, rcptLookup, isLocal, hparts, hd]

end Lookups

/-! ## Runs -/

/-- One step: a call of the administration, a login, or a lookup of a recipient. -/
inductive AccountStep where
  | createAccount (io : Io) (id : AccountId) (email : String) (displayName : Option String)
      (now : ℤ)
  | createToken (io : Io) (row : AppPasswordsRow)
  | revokeToken (io : Io) (hash : String)
  | disableAccount (io : Io) (id : AccountId) (now : ℤ)
  | enableAccount (io : Io) (id : AccountId)
  | createAlias (io : Io) (id : String) (accountId : AccountId) (aliasEmail : String)
      (expiresAt : Option ℤ)
  | deactivateAlias (io : Io) (id : String)
  | rcpt (calls : LookupCalls) (address : String)
  | deliver (calls : LookupCalls) (address : String)

section Steps

variable (U : Unicode) (domain : String)

/-- The tables after a step. -/
def accountStep (db : AccountsDb) : AccountStep → AccountsDb
  | .createAccount io id email displayName now =>
    (transaction (openAccountTx U io id email displayName now) db).2
  | .createToken io row => { db with login := (transaction (createTokenTx io row) db.login).2 }
  | .revokeToken io hash =>
    { db with login := (transaction (revokeTokenByHashTx io hash) db.login).2 }
  | .disableAccount io id now => (transaction (disableAccountTx io id now) db).2
  | .enableAccount io id => (transaction (enableAccountTx io id) db).2
  | .createAlias io id accountId aliasEmail expiresAt =>
    (transaction (createAliasTx U io id accountId aliasEmail expiresAt) db).2
  | .deactivateAlias io id => (transaction (deactivateAliasTx io id) db).2
  | .rcpt .. | .deliver .. => db

/-- The tables after the steps of a run. -/
def AccountsDb.after (steps : List AccountStep) : AccountsDb := run (accountStep U) .empty steps

/-- The lookup of a step: its calls and its address. -/
def AccountStep.looksUp : AccountStep → Option (LookupCalls × String)
  | .rcpt calls address | .deliver calls address => some (calls, address)
  | _ => none

/-- What a lookup answers. -/
def AccountStep.answer (db : AccountsDb) : AccountStep →
    Option (Except StorageError (Option AccountsRow))
  | .rcpt calls address => rcptLookup U domain (db.lookup calls) address
  | .deliver calls address => some (resolveRecipient U (db.lookup calls) address)
  | _ => none

/-- The step is about whether the account is disabled. -/
def AccountStep.Switches (id : AccountId) : AccountStep → Prop
  | .disableAccount _ id' _ | .enableAccount _ id' => id' = id
  | _ => False

/-- The same recipients and the same tokens. -/
structure SameAnswers (db db' : AccountsDb) : Prop where
  resolved : ∀ calls address,
    resolveRecipient U (db'.lookup calls) address = resolveRecipient U (db.lookup calls) address
  byToken : ∀ io hash now, (transaction (accountByTokenTx io hash now) db'.login).1 =
    (transaction (accountByTokenTx io hash now) db.login).1
  accessByToken : ∀ io hash now,
    (transaction (accountAndAccessByTokenTx io hash now) db'.login).1 =
      (transaction (accountAndAccessByTokenTx io hash now) db.login).1

/-- The account has the address. -/
def AccountsRow.HasAddress (a : AccountsRow) (address : String) : Prop :=
  nocaseEq a.email (normal U address)

/-- The alias has the address. -/
def AliasesRow.HasAddress (r : AliasesRow) (address : String) : Prop :=
  nocaseEq r.aliasEmail (normal U address)

/-- **What the life of accounts means for their mail and their tokens.**
* `restored` — disabled and enabled again, an account is as if it had never been disabled.
* `shut` — while an account is disabled, its address leads nowhere.
* `single` — no two accounts have one address, and no two aliases.
* `same` — of two lookups of an address with no change in between that both answer, the
  answers agree. -/
structure LifecycleLaw (steps : List AccountStep) : Prop where
  restored : ∀ pre io id now mid io' post,
    steps = pre ++ .disableAccount io id now :: (mid ++ .enableAccount io' id :: post) →
    (∀ s ∈ mid, ¬s.Switches id) → io' 0 →
    SameAnswers U (.after U (pre ++ mid))
      (.after U (pre ++ .disableAccount io id now :: (mid ++ [.enableAccount io' id])))
  shut : ∀ pre s post calls address, steps = pre ++ s :: post → s.looksUp = some (calls, address) →
    ∀ a ∈ (AccountsDb.after U pre).accounts, a.disabledAt ≠ none → a.HasAddress U address →
    ∀ b, s.answer U domain (.after U pre) ≠ some (.ok (some b))
  single : ∀ pre post, steps = pre ++ post → ∀ address,
    (∀ a ∈ (AccountsDb.after U pre).accounts, ∀ b ∈ (AccountsDb.after U pre).accounts,
      a.HasAddress U address → b.HasAddress U address → a = b) ∧
    ∀ r ∈ (AccountsDb.after U pre).aliases, ∀ s ∈ (AccountsDb.after U pre).aliases,
      r.HasAddress U address → s.HasAddress U address → r = s
  same : ∀ pre s mid s' post calls calls' address,
    steps = pre ++ s :: (mid ++ s' :: post) → s.looksUp = some (calls, address) →
    s'.looksUp = some (calls', address) →
    (AccountsDb.after U (pre ++ s :: mid)).directory = (AccountsDb.after U pre).directory →
    (∀ r ∈ (AccountsDb.after U pre).directory.aliases, r.live calls'.now = r.live calls.now) →
    ∀ found found', s.answer U domain (.after U pre) = some (.ok found) →
      s'.answer U domain (.after U (pre ++ s :: mid)) = some (.ok found') → found' = found

/-! ### When it holds -/

/-- An alias with the address still delivers, to an enabled account. -/
def Directory.AliasLeads (D : Directory) (now : ℤ) (address : String) (b : AccountsRow) : Prop :=
  b ∈ D.accounts ∧ b.id ∉ D.disabled ∧
    ∃ r ∈ D.aliases, r.HasAddress U address ∧ r.live now ∧ r.accountId = b.id

/-- No alias with the address of a disabled account delivers to another account; and if the
query of `accounts` fails, an enabled account with the address is where an alias leads. -/
def Lookup.Clear (q : Lookup) (address : String) : Prop :=
  q.aliasesAnswered → ∀ a ∈ q.directory.accounts, a.HasAddress U address →
    (a.id ∈ q.directory.disabled →
      ∀ b ∈ q.directory.accounts, ¬q.directory.AliasLeads U q.now address b) ∧
    (a.id ∉ q.directory.disabled → q.accountsAnswered = false →
      q.directory.AliasLeads U q.now address a)

/-- A step that goes as it should: nobody enables a disabled account, and no lookup meets an
alias in the place of an account. -/
def Regular (db : AccountsDb) : AccountStep → Prop
  | .enableAccount io id => io 0 → ∀ a ∈ db.accounts, a.id = id → a.disabledAt = none
  | .rcpt calls address => isLocal U domain address → (db.lookup calls).Clear U address
  | .deliver calls address => (db.lookup calls).Clear U address
  | _ => True

instance (address : String) (a : AccountsRow) : Decidable (a.HasAddress U address) :=
  inferInstanceAs (Decidable (_ = true))

instance (address : String) (r : AliasesRow) : Decidable (r.HasAddress U address) :=
  inferInstanceAs (Decidable (_ = true))

instance (D : Directory) (now : ℤ) (address : String) (b : AccountsRow) :
    Decidable (D.AliasLeads U now address b) :=
  inferInstanceAs (Decidable (_ ∧ _ ∧ ∃ r ∈ D.aliases, _))

instance (q : Lookup) (address : String) : Decidable (q.Clear U address) :=
  inferInstanceAs (Decidable (_ → ∀ a ∈ q.directory.accounts, _))

instance (db : AccountsDb) (s : AccountStep) : Decidable (Regular U domain db s) :=
  match s with
  | .enableAccount .. => inferInstanceAs (Decidable (_ → ∀ a ∈ db.accounts, _))
  | .rcpt .. => inferInstanceAs (Decidable (_ → _))
  | .deliver calls address => inferInstanceAs (Decidable ((db.lookup calls).Clear U address))
  | .createAccount .. | .createToken .. | .revokeToken .. | .disableAccount .. | .createAlias ..
  | .deactivateAlias .. => .isTrue trivial

end Steps

/-! ## What a step does -/

section Effects

variable {U : Unicode} {db : AccountsDb}

/-- The tables after a step that changed them. -/
inductive AccountEffect (db : AccountsDb) : AccountsDb → Prop
  | unchanged : AccountEffect db db
  | opened (a : LoginAccount) (hid : a.id ∉ db.accounts.map (·.id))
      (hemail : asciiLower a.email ∉ db.accounts.map fun b => asciiLower b.email) :
      AccountEffect db (db.setAccounts (db.accounts ++ [a]))
  | disabled (id : AccountId) (now : ℤ) : AccountEffect db (db.setAccounts
      (update (·.id = id) (fun a => { a with disabledAt := some now }) db.accounts))
  | tokens (login : OAuthDb) (h : login.accounts = db.accounts) :
      AccountEffect db { db with login := login }
  | aliased (r : AliasRecord)
      (hemail : asciiLower r.aliasEmail ∉ db.aliases.map fun s => asciiLower s.aliasEmail) :
      AccountEffect db { db with aliases := db.aliases ++ [r] }
  | deactivated (id : String) : AccountEffect db { db with
      aliases := update (·.id = id) (fun r => { r with active := false }) db.aliases }

/-- `enable_account` never goes through. -/
theorem enableAccountTx_error {io : Io} {id : AccountId} :
    enableAccountTx io id db = .error .sqlite := by
  simp [enableAccountTx, bindParameters]

@[simp] theorem accountStep_enable {io : Io} {id : AccountId} :
    accountStep U db (.enableAccount io id) = db := by
  rw [accountStep, transaction, enableAccountTx_error]

theorem accountStep_effect (s : AccountStep) : AccountEffect db (accountStep U db s) := by
  cases s with
  | createAccount io id email displayName now =>
    rcases transaction_cases (openAccountTx U io id email displayName now) db with
      ⟨e, h⟩ | ⟨_, db', hok, h⟩
    · rw [accountStep, h]
      exact .unchanged
    · rw [accountStep, h]
      simp only [openAccountTx, Tx.bind_eq_ok, Tx.get_eq_ok, Tx.require_eq_ok,
        Tx.exec_eq_ok] at hok
      obtain ⟨_, _, ⟨rfl, rfl⟩, _, _, ⟨hfresh, rfl⟩, _, _, ⟨-, rfl⟩, -, rfl⟩ := hok
      refine .opened ⟨⟨id, normal U email, displayName, now⟩, none⟩ ?_ ?_
      · rintro hmem
        obtain ⟨a, ha, hid⟩ := List.mem_map.mp hmem
        exact (hfresh a ha).1 hid
      · rintro hmem
        obtain ⟨a, ha, hemail⟩ := List.mem_map.mp hmem
        have hne := (hfresh a ha).2
        rw [nocaseEq, decide_eq_false_iff_not] at hne
        exact hne hemail
  | createToken io row =>
    rcases transaction_cases (createTokenTx io row) db.login with ⟨e, h⟩ | ⟨_, login, hok, h⟩
    · rw [accountStep, h]
      exact .unchanged
    · rw [accountStep, h]
      simp only [createTokenTx, Tx.exec_eq_ok] at hok
      exact .tokens login (hok.2 ▸ rfl)
  | revokeToken io hash =>
    rcases transaction_cases (revokeTokenByHashTx io hash) db.login with
      ⟨e, h⟩ | ⟨_, login, hok, h⟩
    · rw [accountStep, h]
      exact .unchanged
    · rw [accountStep, h]
      simp only [revokeTokenByHashTx, Tx.exec_eq_ok] at hok
      exact .tokens login (hok.2 ▸ rfl)
  | disableAccount io id now =>
    rcases transaction_cases (disableAccountTx io id now) db with ⟨e, h⟩ | ⟨_, db', hok, h⟩
    · rw [accountStep, h]
      exact .unchanged
    · rw [accountStep, h]
      simp only [disableAccountTx, bindParameters, Tx.bind_eq_ok, Tx.require_eq_ok,
        Tx.exec_eq_ok] at hok
      obtain ⟨_, _, ⟨-, rfl⟩, -, rfl⟩ := hok
      exact .disabled id now
  | enableAccount io id =>
    rw [accountStep_enable]
    exact .unchanged
  | createAlias io id accountId aliasEmail expiresAt =>
    rcases transaction_cases (createAliasTx U io id accountId aliasEmail expiresAt) db with
      ⟨e, h⟩ | ⟨_, db', hok, h⟩
    · rw [accountStep, h]
      exact .unchanged
    · rw [accountStep, h]
      simp only [createAliasTx, Tx.bind_eq_ok, Tx.get_eq_ok, Tx.require_eq_ok,
        Tx.exec_eq_ok] at hok
      obtain ⟨_, _, ⟨rfl, rfl⟩, _, _, ⟨-, rfl⟩, _, _, ⟨hfresh, rfl⟩, -, rfl⟩ := hok
      refine .aliased ⟨⟨accountId, normal U aliasEmail, expiresAt, true⟩, id⟩ ?_
      rintro hmem
      obtain ⟨r, hr, hemail⟩ := List.mem_map.mp hmem
      have hne := (hfresh r hr).2
      rw [nocaseEq, decide_eq_false_iff_not] at hne
      exact hne hemail
  | deactivateAlias io id =>
    rcases transaction_cases (deactivateAliasTx io id) db with ⟨e, h⟩ | ⟨_, db', hok, h⟩
    · rw [accountStep, h]
      exact .unchanged
    · rw [accountStep, h]
      simp only [deactivateAliasTx, Tx.exec_eq_ok] at hok
      obtain ⟨-, rfl⟩ := hok
      exact .deactivated id
  | rcpt calls address | deliver calls address => exact .unchanged

end Effects

/-! ## Addresses are unique -/

/-- The keys of the tables. -/
structure AccountsInv (db : AccountsDb) : Prop where
  ids : (db.accounts.map (·.id)).Nodup
  emails : (db.accounts.map fun a => asciiLower a.email).Nodup
  aliasEmails : (db.aliases.map fun r => asciiLower r.aliasEmail).Nodup

namespace AccountsInv

theorem empty : AccountsInv .empty := ⟨List.nodup_nil, List.nodup_nil, List.nodup_nil⟩

theorem effect {db db' : AccountsDb} (h : AccountsInv db) (he : AccountEffect db db') :
    AccountsInv db' := by
  cases he with
  | unchanged => exact h
  | opened a hid hemail =>
    exact ⟨nodup_map_insert h.ids hid, nodup_map_insert h.emails hemail, h.aliasEmails⟩
  | disabled id now =>
    refine ⟨?_, ?_, h.aliasEmails⟩
    all_goals rw [AccountsDb.accounts_setAccounts]
    · exact nodup_map_update (by intro a; rfl) h.ids
    · exact nodup_map_update (by intro a; rfl) h.emails
  | tokens login hsame =>
    refine ⟨?_, ?_, h.aliasEmails⟩
    · simpa only [AccountsDb.accounts, hsame] using h.ids
    · simpa only [AccountsDb.accounts, hsame] using h.emails
  | aliased r hemail => exact ⟨h.ids, h.emails, nodup_map_insert h.aliasEmails hemail⟩
  | deactivated id =>
    refine ⟨h.ids, h.emails, ?_⟩
    dsimp only
    exact nodup_map_update (by intro a; rfl) h.aliasEmails

theorem after (U : Unicode) (steps : List AccountStep) : AccountsInv (.after U steps) :=
  run_invariant (fun _ s h => h.effect (accountStep_effect s)) steps .empty

variable {U : Unicode} {db : AccountsDb} {address : String}

theorem account_eq (h : AccountsInv db) {a b : LoginAccount} (ha : a ∈ db.accounts)
    (hb : b ∈ db.accounts) (haddr : a.HasAddress U address) (hbddr : b.HasAddress U address) :
    a = b :=
  eq_of_key_eq h.emails ha hb
    ((of_decide_eq_true haddr).trans (of_decide_eq_true hbddr).symm)

theorem alias_eq (h : AccountsInv db) {r s : AliasRecord} (hr : r ∈ db.aliases)
    (hs : s ∈ db.aliases) (hraddr : r.HasAddress U address) (hsaddr : s.HasAddress U address) :
    r = s :=
  eq_of_key_eq h.aliasEmails hr hs
    ((of_decide_eq_true hraddr).trans (of_decide_eq_true hsaddr).symm)

end AccountsInv

/-! ## Lookups in the tables of a run -/

section Lookups

variable {U : Unicode} {db : AccountsDb} {calls : LookupCalls} {address : String}

/-- The account that an address leads to, when both queries answer. -/
def Directory.Leads (U : Unicode) (D : Directory) (now : ℤ) (address : String)
    (b : AccountsRow) : Prop :=
  (b ∈ D.accounts ∧ b.id ∉ D.disabled ∧ b.HasAddress U address) ∨
    ((∀ a ∈ D.accounts, a.HasAddress U address → a.id ∈ D.disabled) ∧
      D.AliasLeads U now address b)

/-- A list in which at most one element passes a test is searched for that element. -/
theorem find?_eq_some_iff {α : Type} {l : List α} {p : α → Bool}
    (huniq : ∀ a ∈ l, ∀ b ∈ l, p a → p b → a = b) {a : α} :
    l.find? p = some a ↔ a ∈ l ∧ p a := by
  constructor
  · intro h
    exact ⟨List.mem_of_find?_eq_some h, List.find?_some h⟩
  · rintro ⟨ha, hp⟩
    rcases hfind : l.find? p with _ | b
    · exact absurd hp (List.find?_eq_none.mp hfind a ha)
    · rw [huniq b (List.mem_of_find?_eq_some hfind) a ha (List.find?_some hfind) hp]

theorem AccountsInv.row_eq (h : AccountsInv db) {a b : AccountsRow}
    (ha : a ∈ db.directory.accounts) (hb : b ∈ db.directory.accounts)
    (haddr : a.HasAddress U address) (hbddr : b.HasAddress U address) : a = b := by
  obtain ⟨a', ha', rfl⟩ := List.mem_map.mp ha
  obtain ⟨b', hb', rfl⟩ := List.mem_map.mp hb
  rw [h.account_eq ha' hb' haddr hbddr]

theorem AccountsInv.row_eq_of_id (h : AccountsInv db) {a b : AccountsRow}
    (ha : a ∈ db.directory.accounts) (hb : b ∈ db.directory.accounts) (hid : a.id = b.id) :
    a = b := by
  obtain ⟨a', ha', rfl⟩ := List.mem_map.mp ha
  obtain ⟨b', hb', rfl⟩ := List.mem_map.mp hb
  rw [eq_of_key_eq h.ids ha' hb' hid]

theorem AccountsInv.aliasRow_eq (h : AccountsInv db) {r s : AliasesRow}
    (hr : r ∈ db.directory.aliases) (hs : s ∈ db.directory.aliases)
    (hraddr : r.HasAddress U address) (hsaddr : s.HasAddress U address) : r = s := by
  obtain ⟨r', hr', rfl⟩ := List.mem_map.mp hr
  obtain ⟨s', hs', rfl⟩ := List.mem_map.mp hs
  rw [h.alias_eq hr' hs' hraddr hsaddr]

/-- The query of `accounts`. -/
theorem accountByEmail_ok (h : AccountsInv db) {found : Option AccountsRow}
    (hok : accountByEmail U (db.lookup calls) address = .ok found) (b : AccountsRow) :
    found = some b ↔ b ∈ db.directory.accounts ∧ b.id ∉ db.directory.disabled ∧
      b.HasAddress U address := by
  rcases hanswered : calls.accountsAnswered
  · simp [accountByEmail, AccountsDb.lookup, hanswered] at hok
  simp only [accountByEmail, AccountsDb.lookup, hanswered, if_true, Except.ok.injEq] at hok
  rw [← hok, find?_eq_some_iff]
  · simp [AccountsRow.HasAddress, normal, and_comm]
  · intro a ha b hb hp hq
    have haddr : a.HasAddress U address := (of_decide_eq_true hp).1
    exact h.row_eq ha hb haddr (of_decide_eq_true hq).1

/-- The query of `aliases`. -/
theorem aliasTargetAccount_ok (h : AccountsInv db) {found : Option AccountsRow}
    (hok : aliasTargetAccount U (db.lookup calls) address = .ok found) (b : AccountsRow) :
    found = some b ↔ db.directory.AliasLeads U calls.now address b := by
  rcases hanswered : calls.aliasesAnswered
  · simp [aliasTargetAccount, AccountsDb.lookup, hanswered] at hok
  simp only [aliasTargetAccount, AccountsDb.lookup, hanswered, if_true, Except.ok.injEq] at hok
  -- whatever the join finds, an alias leads there
  have hleads : ∀ c, found = some c → db.directory.AliasLeads U calls.now address c := by
    intro c hc
    obtain ⟨r, hr, hfind⟩ := List.exists_of_findSome?_eq_some (hok.trans hc)
    obtain ⟨hmem, hp⟩ := List.mem_filter.mp hr
    have hq := of_decide_eq_true (List.find?_some
      (p := fun a : AccountsRow => decide (a.id = r.accountId ∧ a.id ∉ db.directory.disabled)) hfind)
    exact ⟨List.mem_of_find?_eq_some hfind, hq.2, r, hmem, (of_decide_eq_true hp).1,
      (of_decide_eq_true hp).2, hq.1.symm⟩
  refine ⟨hleads b, ?_⟩
  rintro ⟨hb, henabled, r, hr, haddr, hlive, hid⟩
  rcases hfound : found with _ | c
  · rw [hfound, List.findSome?_eq_none_iff] at hok
    have hnone := hok r (List.mem_filter.mpr ⟨hr, decide_eq_true ⟨haddr, hlive⟩⟩)
    exact absurd (decide_eq_true ⟨hid.symm, henabled⟩) (List.find?_eq_none.mp hnone b hb)
  · obtain ⟨hc, -, r', hr', haddr', -, hid'⟩ := hleads c hfound
    obtain rfl := h.aliasRow_eq hr hr' haddr haddr'
    rw [h.row_eq_of_id hc hb (hid'.symm.trans hid)]

theorem AccountsInv.aliasLeads_eq (h : AccountsInv db) {now : ℤ} {a b : AccountsRow}
    (ha : db.directory.AliasLeads U now address a)
    (hb : db.directory.AliasLeads U now address b) : a = b := by
  obtain ⟨ha, -, r, hr, haddr, -, hid⟩ := ha
  obtain ⟨hb, -, s, hs, hbddr, -, hid'⟩ := hb
  obtain rfl := h.aliasRow_eq hr hs haddr hbddr
  exact h.row_eq_of_id ha hb (hid.symm.trans hid')

/-- **A lookup that meets no alias in the place of an account.** If it answers, it answers with
the account that the address leads to. -/
theorem resolveRecipient_clear (h : AccountsInv db) (hclear : (db.lookup calls).Clear U address)
    {found : Option AccountsRow}
    (hok : resolveRecipient U (db.lookup calls) address = .ok found) (b : AccountsRow) :
    found = some b ↔ db.directory.Leads U calls.now address b := by
  rcases hdirect : accountByEmail U (db.lookup calls) address with e | _ | a
  · -- the first query failed
    simp only [resolveRecipient, hdirect] at hok
    have haccounts : calls.accountsAnswered = false := by
      rcases hanswered : calls.accountsAnswered
      · rfl
      · simp [accountByEmail, AccountsDb.lookup, hanswered] at hdirect
    have haliases : calls.aliasesAnswered = true := by
      rcases hanswered : calls.aliasesAnswered
      · simp [aliasTargetAccount, AccountsDb.lookup, hanswered] at hok
      · rfl
    rw [aliasTargetAccount_ok h hok]
    constructor
    · intro hb
      by_cases hall : ∀ a ∈ db.directory.accounts, a.HasAddress U address →
          a.id ∈ db.directory.disabled
      · exact .inr ⟨hall, hb⟩
      · push Not at hall
        obtain ⟨a, ha, haddr, henabled⟩ := hall
        have hleads := (hclear haliases a ha haddr).2 henabled haccounts
        obtain rfl := h.aliasLeads_eq hleads hb
        exact .inl ⟨ha, henabled, haddr⟩
    · rintro (⟨hb, henabled, haddr⟩ | ⟨-, hb⟩)
      · exact (hclear haliases b hb haddr).2 henabled haccounts
      · exact hb
  · -- no enabled account has the address
    simp only [resolveRecipient, hdirect] at hok
    have hnone : ∀ a ∈ db.directory.accounts, a.HasAddress U address →
        a.id ∈ db.directory.disabled := by
      intro a ha haddr
      by_contra henabled
      cases (accountByEmail_ok h hdirect a).mpr ⟨ha, henabled, haddr⟩
    rw [aliasTargetAccount_ok h hok]
    refine ⟨fun hb => .inr ⟨hnone, hb⟩, ?_⟩
    rintro (⟨hb, henabled, haddr⟩ | ⟨-, hb⟩)
    · exact absurd (hnone b hb haddr) henabled
    · exact hb
  · simp only [resolveRecipient, hdirect, Except.ok.injEq] at hok
    subst hok
    rw [accountByEmail_ok h hdirect]
    refine ⟨.inl, ?_⟩
    rintro (hb | ⟨hall, -⟩)
    · exact hb
    · obtain ⟨ha, henabled, haddr⟩ := (accountByEmail_ok h hdirect a).mp rfl
      exact absurd (hall a ha haddr) henabled

/-- An account that is found has the address, or an alias leads to it. -/
theorem resolveRecipient_some (h : AccountsInv db) {b : AccountsRow}
    (hok : resolveRecipient U (db.lookup calls) address = .ok (some b)) :
    (b ∈ db.directory.accounts ∧ b.id ∉ db.directory.disabled ∧ b.HasAddress U address) ∨
      (calls.aliasesAnswered ∧ db.directory.AliasLeads U calls.now address b) := by
  have halias : aliasTargetAccount U (db.lookup calls) address = .ok (some b) →
      calls.aliasesAnswered ∧ db.directory.AliasLeads U calls.now address b := by
    intro hok
    refine ⟨?_, (aliasTargetAccount_ok h hok b).mp rfl⟩
    rcases hanswered : calls.aliasesAnswered
    · simp [aliasTargetAccount, AccountsDb.lookup, hanswered] at hok
    · rfl
  rcases hdirect : accountByEmail U (db.lookup calls) address with e | _ | a
  · exact .inr (halias (by simpa only [resolveRecipient, hdirect] using hok))
  · exact .inr (halias (by simpa only [resolveRecipient, hdirect] using hok))
  · simp only [resolveRecipient, hdirect, Except.ok.injEq, Option.some.injEq] at hok
    exact .inl ((accountByEmail_ok h hdirect b).mp (congrArg some hok))

end Lookups

/-! ### The lookup of a step -/

section Answers

variable {U : Unicode} {domain : String} {db : AccountsDb} {calls : LookupCalls}
  {address : String} {s : AccountStep}

/-- `rcpt` and `deliver` look the same address up. -/
theorem answer_eq {res : Except StorageError (Option AccountsRow)}
    (hlook : s.looksUp = some (calls, address)) (hans : s.answer U domain db = some res)
    (hreg : Regular U domain db s) : ∃ a, (a = address ∨ a = normal U address) ∧
      resolveRecipient U (db.lookup calls) a = res ∧ (db.lookup calls).Clear U address := by
  cases s with
  | rcpt calls' address' =>
    obtain ⟨rfl, rfl⟩ := Prod.mk.inj (Option.some.inj hlook)
    simp only [AccountStep.answer, rcptLookup] at hans
    split at hans
    · exact ⟨_, .inr rfl, Option.some.inj hans, hreg ‹_›⟩
    · cases hans
  | deliver calls' address' =>
    obtain ⟨rfl, rfl⟩ := Prod.mk.inj (Option.some.inj hlook)
    exact ⟨_, .inl rfl, Option.some.inj hans, hreg⟩
  | _ => cases hlook

variable (htrim : ∀ t, U.trim (U.toLowercase (U.trim t)) = U.toLowercase (U.trim t))
include htrim

theorem normal_of_either {a : String} (h : a = address ∨ a = normal U address) :
    normal U a = normal U address := by
  rcases h with rfl | rfl
  · rfl
  · rw [normal, normal, htrim, U.toLowercase_idem]

/-- **A lookup in a run.** It answers with the account that the address leads to. -/
theorem answer_leads (h : AccountsInv db) (hlook : s.looksUp = some (calls, address))
    (hreg : Regular U domain db s) {found : Option AccountsRow}
    (hans : s.answer U domain db = some (.ok found)) (b : AccountsRow) :
    found = some b ↔ db.directory.Leads U calls.now address b := by
  obtain ⟨a, ha, hok, hclear⟩ := answer_eq hlook hans hreg
  have hsame := normal_of_either htrim ha
  have hclear' : (db.lookup calls).Clear U a := by
    simpa only [Lookup.Clear, Directory.AliasLeads, AccountsRow.HasAddress,
      AliasesRow.HasAddress, hsame] using hclear
  rw [resolveRecipient_clear h hclear' hok]
  simp only [Directory.Leads, Directory.AliasLeads, AccountsRow.HasAddress,
    AliasesRow.HasAddress, hsame]

/-- The address of a disabled account leads nowhere. -/
theorem answer_disabled (h : AccountsInv db) (hlook : s.looksUp = some (calls, address))
    (hreg : Regular U domain db s) {a : LoginAccount} (ha : a ∈ db.accounts)
    (hdisabled : a.disabledAt ≠ none) (haddr : a.HasAddress U address) (b : AccountsRow) :
    s.answer U domain db ≠ some (.ok (some b)) := by
  intro hans
  obtain ⟨key, hkey, hok, hclear⟩ := answer_eq hlook hans hreg
  have hsame := normal_of_either htrim hkey
  have hrow : a.toAccountsRow ∈ db.directory.accounts := List.mem_map_of_mem ha
  have hid : a.id ∈ db.directory.disabled := by
    refine List.mem_map.mpr ⟨a, List.mem_filter.mpr ⟨ha, ?_⟩, rfl⟩
    exact Option.isSome_iff_ne_none.mpr hdisabled
  rcases resolveRecipient_some h hok with ⟨hb, henabled, hbaddr⟩ | ⟨haliases, hleads⟩
  · rw [AccountsRow.HasAddress, hsame] at hbaddr
    rw [h.row_eq hb hrow hbaddr haddr] at henabled
    exact henabled hid
  · have hleads' : db.directory.AliasLeads U calls.now address b := by
      simpa only [Directory.AliasLeads, AliasesRow.HasAddress, hsame] using hleads
    exact (hclear haliases _ hrow haddr).1 hid b hleads'.1 hleads'

end Answers

/-! ## The result -/

section Law

variable {U : Unicode} {domain : String}

/-- A disabled account stays disabled. -/
theorem AccountEffect.disabled_kept {db db' : AccountsDb} (he : AccountEffect db db')
    {id : AccountId} (h : ∃ a ∈ db.accounts, a.id = id ∧ a.disabledAt ≠ none) :
    ∃ a ∈ db'.accounts, a.id = id ∧ a.disabledAt ≠ none := by
  obtain ⟨a, ha, hid, hdisabled⟩ := h
  cases he with
  | unchanged | aliased | deactivated => exact ⟨a, ha, hid, hdisabled⟩
  | opened new => exact ⟨a, List.mem_append_left _ ha, hid, hdisabled⟩
  | tokens login hsame =>
    refine ⟨a, ?_, hid, hdisabled⟩
    simpa only [AccountsDb.accounts, hsame] using ha
  | disabled id' now =>
    refine ⟨_, mem_update.mpr ⟨a, ha, rfl⟩, ?_⟩
    split
    · exact ⟨hid, Option.some_ne_none _⟩
    · exact ⟨hid, hdisabled⟩

/-- `disable_account` disables the account, if there is one and the statement goes through. -/
theorem accountStep_disable (db : AccountsDb) (io : Io) (id : AccountId) (now : ℤ) :
    accountStep U db (.disableAccount io id now) = db ∨
      ∃ a ∈ (accountStep U db (.disableAccount io id now)).accounts,
        a.id = id ∧ a.disabledAt ≠ none := by
  rcases transaction_cases (disableAccountTx io id now) db with ⟨e, h⟩ | ⟨_, db', hok, h⟩
  · exact .inl (by rw [accountStep, h])
  · simp only [disableAccountTx, bindParameters, Tx.bind_eq_ok, Tx.require_eq_ok,
      Tx.exec_eq_ok] at hok
    obtain ⟨_, _, ⟨-, rfl⟩, -, rfl⟩ := hok
    rw [accountStep, h]
    by_cases hany : ∃ a ∈ db.accounts, a.id = id
    · obtain ⟨a, ha, hid⟩ := hany
      refine .inr ⟨_, mem_update.mpr ⟨a, ha, rfl⟩, ?_⟩
      rw [if_pos (decide_eq_true hid)]
      exact ⟨hid, Option.some_ne_none now⟩
    · left
      have hnone : update (fun a : LoginAccount => a.id = id)
          (fun a => { a with disabledAt := some now }) db.accounts = db.accounts := by
        refine (List.map_congr_left fun a ha => ?_).trans (List.map_id _)
        rw [if_neg]
        · rfl
        · simpa using fun hid => hany ⟨a, ha, hid⟩
      rw [hnone]
      rfl

/-- **Recipients follow the accounts**, in every run whose steps go as they should. -/
theorem lifecycleLaw {steps : List AccountStep}
    (htrim : ∀ t, U.trim (U.toLowercase (U.trim t)) = U.toLowercase (U.trim t))
    (hreg : Meets (accountStep U) (Regular U domain) .empty steps) :
    LifecycleLaw U domain steps where
  restored pre io id now mid io' post hsplit _ hio := by
    subst hsplit
    -- the account is disabled from the first step to the last
    have hsame : accountStep U (.after U pre) (.disableAccount io id now) = .after U pre := by
      rcases accountStep_disable (U := U) (.after U pre) io id now with hsame | hdisabled
      · exact hsame
      exfalso
      have hstep : ∀ db s, (∃ a ∈ AccountsDb.accounts db, a.id = id ∧ a.disabledAt ≠ none) →
          ∃ a ∈ (accountStep U db s).accounts, a.id = id ∧ a.disabledAt ≠ none :=
        fun _ s h => (accountStep_effect s).disabled_kept h
      obtain ⟨a, ha, hid, hne⟩ := run_invariant hstep mid hdisabled
      have henable := meets_iff.mp hreg (pre ++ .disableAccount io id now :: mid)
        (.enableAccount io' id) post (by simp)
      rw [run_append, run_cons] at henable
      exact hne (henable hio a ha hid)
    have hrun : AccountsDb.after U
        (pre ++ .disableAccount io id now :: (mid ++ [.enableAccount io' id])) =
          .after U (pre ++ mid) := by
      simp only [AccountsDb.after, run_append, run_cons, run_nil] at hsame ⊢
      rw [hsame, accountStep_enable]
    rw [hrun]
    exact ⟨fun _ _ => rfl, fun _ _ _ => rfl, fun _ _ _ => rfl⟩
  shut pre s post calls address hsplit hlook a ha hdisabled haddr b :=
    answer_disabled htrim (.after U pre) hlook (meets_iff.mp hreg pre s post hsplit) ha
      hdisabled haddr b
  single pre post _ address :=
    ⟨fun a ha b hb haddr hbddr => (AccountsInv.after U pre).account_eq ha hb haddr hbddr,
      fun r hr s hs hraddr hsaddr => (AccountsInv.after U pre).alias_eq hr hs hraddr hsaddr⟩
  same pre s mid s' post calls calls' address hsplit hlook hlook' hdir hlive found found'
      hans hans' := by
    have hfirst := answer_leads htrim (.after U pre) hlook
      (meets_iff.mp hreg pre s (mid ++ s' :: post) hsplit) hans
    have hsecond := answer_leads htrim (.after U (pre ++ s :: mid)) hlook'
      (meets_iff.mp hreg (pre ++ s :: mid) s' post (by rw [hsplit]; simp)) hans'
    refine Option.ext fun b => ?_
    rw [hfirst, hsecond, hdir]
    have haliases : ∀ r, r ∈ (AccountsDb.after U pre).directory.aliases ∧
        r.HasAddress U address ∧ r.live calls'.now ∧ r.accountId = b.id ↔
        r ∈ (AccountsDb.after U pre).directory.aliases ∧
        r.HasAddress U address ∧ r.live calls.now ∧ r.accountId = b.id := by
      intro r
      refine and_congr_right fun hr => ?_
      rw [hlive r hr]
    simp only [Directory.Leads, Directory.AliasLeads, haliases]

end Law

/-! ## An account that is disabled -/

/-- Both queries answer. -/
def answered (now : ℤ) : LookupCalls := ⟨now, true, true⟩

/-- Bob, Alice with an alias of hers, and mail for Alice before and after she is disabled. -/
def leaving : List AccountStep :=
  [.createAccount .ok ⟨1⟩ "bob@example.com" none 0, .createAccount .ok ⟨2⟩ " Alice@example.com" none 1,
    .createAlias .ok "a1" ⟨2⟩ "news@example.com" (some 100), .rcpt (answered 5) "ALICE@example.com",
    .deliver (answered 6) "ALICE@example.com", .disableAccount .ok ⟨2⟩ 7,
    .rcpt (answered 8) "alice@example.com", .deliver (answered 9) "news@example.com"]

theorem lifecycleLaw_leaving : LifecycleLaw .ascii "example.com" leaving :=
  lifecycleLaw ascii_trim_toLowercase (by decide +kernel)

/-- Alice is disabled and enabled again. -/
def returning : List AccountStep :=
  [.createAccount .ok ⟨2⟩ "alice@example.com" none 1, .disableAccount .ok ⟨2⟩ 7,
    .enableAccount .ok ⟨2⟩]

/-- **She does not come back.** -/
theorem not_lifecycleLaw_returning : ¬LifecycleLaw .ascii "example.com" returning := by
  intro h
  have hsame := (h.restored (returning.take 1) .ok ⟨2⟩ 7 [] .ok [] rfl (by simp) rfl).resolved
    (answered 9) "alice@example.com"
  exact absurd hsame (by decide +kernel)

end Owney
