import Owney.DeliveryTraining
import Owney.Edits
import Owney.JmapReferences

/-!
# An Email/set patch

`apply_update` on the JSON it is given: `keywords` and `mailboxIds` replace a set,
`keywords/x` and `mailboxIds/y` change one member of it, in the order of the map, which is the
order of the keys. What is handed to `update_email` was modelled in `Edits` (`applyPatch`);
here it is compared with what the patch says.

* `applyUpdate` — the whole function, with the training that follows a change of `$junk`.
* `MeantKeyword`, `MeantMailbox` — what a patch says: the members of `keywords` that are `true`,
  or else the stored ones, plus what is patched to `true`, minus what is patched to `false`.
* `Takes` — what an update needs of its patch, the tables and the statements, or it is refused.
* `Plain` — no member of a full replacement is anything but `true`, nothing is both set and
  cleared in the wrong order, and what is cleared is spelled as it was listed.
* `patchMeans_iff`, `trainingFollows_iff` — when the code does what the patch says, and when the
  training follows the stored keyword.
-/

namespace Owney

open Tables

/-! ## The function -/

/-- A JSON value, as far as `apply_update` looks at it: of an object it takes the keys. -/
def PatchValue.ofValue : Jmap.Value → PatchValue
  | .bool b => .bool b
  | .null => .null
  | .object members => .object (Jmap.Members.keys members)
  | _ => .other

/-- The patch with these members. -/
def Patch.ofMembers (members : Jmap.Members) (h : members.Sorted) : Patch where
  entries := members.map fun m => (m.1, .ofValue m.2)
  nodup := by
    rw [List.map_map]
    exact Jmap.Members.keys_nodup h

/-- An object with its keys in order. -/
structure PatchObject where
  members : Jmap.Members
  sorted : members.Sorted

/-- The object, if it is one. -/
def PatchObject.ofJson (patch : Jmap.Json) : Option PatchObject :=
  match patch with
  | ⟨.object members, valid⟩ => some ⟨members, valid.members.sorted⟩
  | _ => none

/-- The patch it is. -/
def PatchObject.patch (o : PatchObject) : Patch := .ofMembers o.members o.sorted

/-- `id.parse::<EmailId>()`. -/
def EmailId.parse (s : String) : Option EmailId := (Uuid.parseStr s).map EmailId.mk

/-- Why an update failed. -/
inductive UpdateError where
  | text (msg : String)
  | storage (e : StorageError)
  deriving DecidableEq, Repr

/-- What an update meets: whether the row can be read, the statements of the write, and the
message, if its blob can be read. -/
structure UpdateCalls where
  reads : Bool := true
  io : Io := .ok
  blob : Option (List UInt8) := some []
  order : HashOrder
  trainIo : Io := .ok

/-- What an update does: its result, the tables, and the training call it makes. -/
structure Updated where
  result : Except UpdateError Unit
  db : MailDb
  trained : Option TrainCall

/-- An update that failed before its write. -/
def Updated.failed (db : MailDb) (msg : String) : Updated := ⟨.error (.text msg), db, none⟩

/-- Whether the keyword is among the ones that are handed to `update_email`. -/
def newIsJunk (oldIsJunk : Bool) (keywords : Option (List String)) : Bool :=
  (keywords.map fun ks => decide ("$junk" ∈ ks)).getD oldIsJunk

section Update

variable (U : Unicode) (T : TextOps)

/-- `apply_update` from its write on. -/
def writeUpdate (c : UpdateCalls) (a : AccountId) (e : EmailId) (row : EmailRow)
    (db : MailDb) (r : Replacement) : Updated :=
  match transaction (updateEmailTx U c.io a e r.1 r.2) db with
  | (.error err, db') => ⟨.error (.storage err), db', none⟩
  | (.ok _, db') =>
    let oldIsJunk := decide ("$junk" ∈ row.keywords)
    ⟨.ok (), db',
      JunkChange.training T ⟨a, oldIsJunk, newIsJunk oldIsJunk r.1, c.blob, c.order, c.trainIo⟩⟩

/-- `apply_update`. -/
def applyUpdate (c : UpdateCalls) (a : AccountId) (id : String) (patch : Jmap.Json)
    (db : MailDb) : Updated :=
  match EmailId.parse id with
  | none => .failed db ("bad id " ++ id)
  | some e =>
    match PatchObject.ofJson patch with
    | none => .failed db "patch must be an object"
    | some o =>
      if !c.reads then ⟨.error (.storage .sqlite), db, none⟩
      else
        match db.emailById a e with
        | none => .failed db ("no email " ++ id)
        | some row =>
          match applyPatch U row o.patch with
          | .error msg => .failed db msg
          | .ok r => writeUpdate U T c a e row db r

end Update

/-! ## What a patch says -/

/-- The value sets (`true`) or clears what it is the value of. -/
def Sets : Jmap.Value → Bool → Prop
  | .bool b, b' => b = b'
  | .null, b' => b' = false
  | _, _ => False

/-- The members of the value of a key, where it is an object. -/
def Jmap.Members.inner (members : Jmap.Members) (key : String) : Option Jmap.Members :=
  match members.get key with
  | some (.object inner) => some inner
  | _ => none

section Meaning

variable (U : Unicode) (members : Jmap.Members)

/-- The keyword is patched to `true`, or to `false` or `null`. -/
def PatchesKeyword (k : String) (b : Bool) : Prop :=
  ∃ m ∈ members, ∃ x, PatchKey.ofString m.1 = .keyword x ∧ U.toLowercase x = k ∧ Sets m.2 b

/-- The mailbox is patched, in this spelling. -/
def PatchesMailboxText (y : String) (b : Bool) : Prop :=
  ∃ m ∈ members, PatchKey.ofString m.1 = .mailbox y ∧ Sets m.2 b

/-- The mailbox is patched. -/
def PatchesMailbox (mailbox : MailboxId) (b : Bool) : Prop :=
  ∃ y, PatchesMailboxText members y b ∧ MailboxId.parse y = some mailbox

/-- The keyword is in the set the patch starts from: the members of `keywords` that are `true`,
or the stored ones. -/
def BaseKeyword (stored : List String) (k : String) : Prop :=
  match members.inner "keywords" with
  | some inner => ∃ m ∈ inner, Sets m.2 true ∧ U.toLowercase m.1 = k
  | none => k ∈ stored

/-- The same for a mailbox. -/
def BaseMailbox (stored : List MailboxId) (mailbox : MailboxId) : Prop :=
  match members.inner "mailboxIds" with
  | some inner => ∃ m ∈ inner, Sets m.2 true ∧ MailboxId.parse m.1 = some mailbox
  | none => mailbox ∈ stored

/-- **What a patch says of a keyword.** -/
def MeantKeyword (stored : List String) (k : String) : Prop :=
  (BaseKeyword U members stored k ∨ PatchesKeyword U members k true) ∧
    ¬PatchesKeyword U members k false

/-- **What a patch says of a mailbox.** -/
def MeantMailbox (stored : List MailboxId) (mailbox : MailboxId) : Prop :=
  (BaseMailbox members stored mailbox ∨ PatchesMailbox members mailbox true) ∧
    ¬PatchesMailbox members mailbox false

end Meaning

/-- **The patch means what it says**: it is refused and nothing changes, or the email has the
keywords and mailboxes the patch says. -/
def PatchMeans (U : Unicode) (T : TextOps) (c : UpdateCalls) (a : AccountId) (id : String)
    (patch : Jmap.Json) (db : MailDb) : Prop :=
  let out := applyUpdate U T c a id patch db
  (∃ err, out.result = .error err ∧ ∀ e, out.db.keywordsOf e = db.keywordsOf e ∧
      out.db.mailboxIdsOf e = db.mailboxIdsOf e) ∨
    ∃ e o, out.result = .ok () ∧ EmailId.parse id = some e ∧ PatchObject.ofJson patch = some o ∧
      (∀ k, k ∈ out.db.keywordsOf e ↔ MeantKeyword U o.members (db.keywordsOf e) k) ∧
        ∀ m, m ∈ out.db.mailboxIdsOf e ↔ MeantMailbox o.members (db.mailboxIdsOf e) m

/-! ## When it does -/

section Condition

variable (U : Unicode) (members : Jmap.Members)

/-- What the map's last entry for a keyword says. -/
def lastPatch (k : String) : Option Bool :=
  (((members.map fun m => (m.1, PatchValue.ofValue m.2)).filterMap (Edit.keywordEntry U)).filter
    (·.1 = k)).getLast?.map (·.2)

/-- The keywords are patched plainly: a member of `keywords` that is not `true` is named in
another way as well; what is cleared is cleared by the last entry for it, and is spelled in lower
case where it was listed. -/
structure PlainKeywords : Prop where
  listed : ∀ inner, members.inner "keywords" = some inner → ∀ m ∈ inner, ¬Sets m.2 true →
    (∃ m' ∈ inner, Sets m'.2 true ∧ U.toLowercase m'.1 = U.toLowercase m.1) ∨
      ∃ b, PatchesKeyword U members (U.toLowercase m.1) b
  last : ∀ k, PatchesKeyword U members k false → lastPatch U members k = some false
  spelled : ∀ k, PatchesKeyword U members k false → ∀ inner,
    members.inner "keywords" = some inner → ∀ m ∈ inner, U.toLowercase m.1 = k → m.1 = k

/-- The mailboxes are patched plainly: a member of `mailboxIds` that is not `true` is named in
another way as well; what is cleared is not set in another spelling, and is cleared in the
spelling in which it was listed. -/
structure PlainMailboxes (stored : List MailboxId) : Prop where
  listed : ∀ inner, members.inner "mailboxIds" = some inner → ∀ m ∈ inner, ¬Sets m.2 true →
    ∀ mailbox, MailboxId.parse m.1 = some mailbox →
      (∃ m' ∈ inner, Sets m'.2 true ∧ MailboxId.parse m'.1 = some mailbox) ∨
        ∃ b, PatchesMailbox members mailbox b
  once : ∀ mailbox, PatchesMailbox members mailbox false → ¬PatchesMailbox members mailbox true
  spelled : ∀ mailbox, PatchesMailbox members mailbox false →
    ∀ y ∈ ((members.inner "mailboxIds").map Jmap.Members.keys).getD
      (stored.map (·.uuid.toString)), MailboxId.parse y = some mailbox →
        PatchesMailboxText members y false

end Condition

/-! ## Which updates are taken -/

/-- A member that `apply_update` knows, with a value of its kind. -/
def ReadableMember (m : String × Jmap.Value) : Prop :=
  match PatchKey.ofString m.1 with
  | .keywords | .mailboxIds => ∃ inner, m.2 = .object inner
  | .keyword _ | .mailbox _ => ∃ b, Sets m.2 b
  | .unsupported => False

section Takes

variable (members : Jmap.Members)

/-- The patch is about the keywords. -/
def TouchesKeywords : Prop :=
  ∃ m ∈ members, PatchKey.ofString m.1 = .keywords ∨ ∃ x, PatchKey.ofString m.1 = .keyword x

/-- The patch is about the mailboxes. -/
def TouchesMailboxes : Prop :=
  ∃ m ∈ members, PatchKey.ofString m.1 = .mailboxIds ∨ ∃ y, PatchKey.ofString m.1 = .mailbox y

/-- The mailboxes that a patch starts from, as texts. -/
def mailboxBase (stored : List MailboxId) : List String :=
  ((members.inner "mailboxIds").map Jmap.Members.keys).getD (stored.map (·.uuid.toString))

/-- The email is to be in the mailbox, in this spelling: it is patched to `true`, or one that the
patch starts from and not patched. -/
def Asks (stored : List MailboxId) (y : String) : Prop :=
  PatchesMailboxText members y true ∨
    y ∈ mailboxBase members stored ∧ ∀ b, ¬PatchesMailboxText members y b

/-- The email is to be in some mailbox, and in mailboxes of the account, each in one spelling;
they are looked up and written. -/
structure TakesMailboxes (io : Io) (a : AccountId) (e : EmailId) (db : MailDb) : Prop where
  asks : ∃ y, Asks members (db.mailboxIdsOf e) y
  owned : ∀ y, Asks members (db.mailboxIdsOf e) y →
    ∃ m, MailboxId.parse y = some m ∧ db.ownsMailbox a m
  once : ∀ y y', Asks members (db.mailboxIdsOf e) y → Asks members (db.mailboxIdsOf e) y' →
    MailboxId.parse y = MailboxId.parse y' → y = y'
  lookup : io 2
  written : io 3

/-- What an update needs of the patch, the tables and the statements. -/
structure TakesMembers (c : UpdateCalls) (a : AccountId) (e : EmailId) (db : MailDb) : Prop where
  reads : c.reads
  owned : db.ownsEmail a e
  readable : ∀ m ∈ members, ReadableMember m
  keywords : TouchesKeywords members → c.io 1
  mailboxes : TouchesMailboxes members → TakesMailboxes members c.io a e db
  emailState : db.modseq a .email < i64Max
  mailboxState : db.modseq a .mailbox < i64Max
  statements : ∀ n ∈ [0, 4, 5, 6, 7], c.io n

end Takes

/-- **The update is taken**: its id and its patch are what they should be, and the tables and the
statements have what it needs. -/
def Takes (c : UpdateCalls) (a : AccountId) (id : String) (patch : Jmap.Json) (db : MailDb) :
    Prop :=
  ∃ e o, EmailId.parse id = some e ∧ PatchObject.ofJson patch = some o ∧
    TakesMembers o.members c a e db

/-! ## The loop -/

section Loop

variable {U : Unicode} {row : EmailRow} {members : Jmap.Members} {k : String} {b : Bool}

theorem flag_ofValue {v : Jmap.Value} : (PatchValue.ofValue v).flag = some b ↔ Sets v b := by
  cases v <;> simp [PatchValue.ofValue, PatchValue.flag, Sets, eq_comm]

/-- The entries of the members. -/
def patchEntries (members : Jmap.Members) : List (String × PatchValue) :=
  members.map fun m => (m.1, .ofValue m.2)

/-- The keywords that are patched, in the order of the map. -/
def keywordPatches (U : Unicode) (members : Jmap.Members) : List (String × Bool) :=
  (patchEntries members).filterMap (Edit.keywordEntry U)

/-- The mailboxes that are patched. -/
def mailboxPatches (members : Jmap.Members) : List (String × Bool) :=
  (patchEntries members).filterMap Edit.mailboxEntry

theorem mem_keywordPatches : (k, b) ∈ keywordPatches U members ↔ PatchesKeyword U members k b := by
  simp only [keywordPatches, patchEntries, List.mem_filterMap, List.mem_map, PatchesKeyword,
    exists_exists_and_eq_and]
  refine exists_congr fun m => and_congr_right fun _ => ?_
  unfold Edit.keywordEntry
  cases PatchKey.ofString m.1 with
  | keyword x =>
    simp only [Option.map_eq_some_iff, flag_ofValue, PatchKey.keyword.injEq]
    constructor
    · rintro ⟨b', hset, heq⟩
      cases heq
      exact ⟨x, rfl, rfl, hset⟩
    · rintro ⟨_, rfl, rfl, hset⟩
      exact ⟨b, hset, rfl⟩
  | _ => simp

theorem mem_mailboxPatches {y : String} :
    (y, b) ∈ mailboxPatches members ↔ PatchesMailboxText members y b := by
  simp only [mailboxPatches, patchEntries, List.mem_filterMap, List.mem_map, PatchesMailboxText,
    exists_exists_and_eq_and]
  refine exists_congr fun m => and_congr_right fun _ => ?_
  unfold Edit.mailboxEntry
  cases PatchKey.ofString m.1 with
  | mailbox z =>
    simp only [Option.map_eq_some_iff, flag_ofValue, PatchKey.mailbox.injEq]
    constructor
    · rintro ⟨b', hset, heq⟩
      cases heq
      exact ⟨rfl, hset⟩
    · rintro ⟨rfl, hset⟩
      exact ⟨b, hset, rfl⟩
  | _ => simp

theorem Jmap.Members.inner_cons_self {key : String} {inner : Jmap.Members} :
    Jmap.Members.inner ((key, .object inner) :: members) key = some inner := by
  simp [Jmap.Members.inner, Jmap.Members.get]

theorem Jmap.Members.inner_cons_of_ne {m : String × Jmap.Value} {key : String} (h : m.1 ≠ key) :
    Jmap.Members.inner (m :: members) key = members.inner key := by
  simp [Jmap.Members.inner, Jmap.Members.get, h]

theorem Jmap.Members.inner_eq_none {key : String} (h : ∀ m ∈ members, m.1 ≠ key) :
    members.inner key = none := by
  have hfind : members.find? (·.1 = key) = none :=
    List.find?_eq_none.mpr fun m hm => by simpa using h m hm
  unfold Jmap.Members.inner Jmap.Members.get
  rw [hfind]
  rfl

/-- A text is before its continuations. -/
theorem lt_of_toList {s t : String} {c : Char} {cs : List Char} (h : t.toList = s.toList ++ c :: cs) :
    s < t := by
  rw [String.lt_iff_toList_lt, h]
  induction s.toList with
  | nil => exact List.Lex.nil
  | cons d ds ih => exact List.Lex.cons ih

theorem ofString_keyword {key x : String} (h : PatchKey.ofString key = .keyword x) :
    "keywords" < key := by
  unfold PatchKey.ofString at h
  split at h
  · cases h
  · split at h
    · rename_i hstrip
      cases h
      exact lt_of_toList (toList_of_stripPrefix hstrip)
    · split at h
      · cases h
      · split at h <;> cases h

theorem ofString_mailbox {key y : String} (h : PatchKey.ofString key = .mailbox y) :
    "mailboxIds" < key := lt_of_toList (toList_of_mailbox h)

theorem ofString_keywords {key : String} (h : PatchKey.ofString key = .keywords) :
    key = "keywords" := by
  unfold PatchKey.ofString at h
  split at h
  · assumption
  · split at h
    · cases h
    · split at h
      · cases h
      · split at h <;> cases h

theorem ofString_mailboxIds {key : String} (h : PatchKey.ofString key = .mailboxIds) :
    key = "mailboxIds" := by
  unfold PatchKey.ofString at h
  split at h
  · cases h
  · split at h
    · cases h
    · split at h
      · assumption
      · split at h <;> cases h

/-- The list an accumulator stands for, after the entries. -/
def afterEntries (old : List String) (inner : Option Jmap.Members) (acc : Option (List String))
    (entries : List (String × Bool)) : Option (List String) :=
  match inner with
  | some inner => some (entries.foldl assign inner.keys)
  | none => assignAll old acc entries

/-- **The loop.** A full replacement comes before the single entries, whose keys are longer. -/
theorem foldlM_patchEntries (hsorted : members.Sorted) {acc acc' : PatchAcc}
    (h : (patchEntries members).foldlM (applyEntry U row) acc = .ok acc') :
    acc' = (afterEntries row.keywords (members.inner "keywords") acc.1 (keywordPatches U members),
      afterEntries (row.mailboxIds.map (·.uuid.toString)) (members.inner "mailboxIds") acc.2
        (mailboxPatches members)) := by
  induction members generalizing acc with
  | nil =>
    cases h
    rfl
  | cons m rest ih =>
    obtain ⟨hfirst, hrest⟩ := List.pairwise_cons.mp hsorted
    rw [patchEntries, List.map_cons, List.foldlM_cons] at h
    rcases hentry : applyEntry U row acc (m.1, .ofValue m.2) with err | acc₁
    · rw [hentry] at h
      cases h
    rw [hentry] at h
    have hih := ih hrest h
    have hkeywords : keywordPatches U (m :: rest) =
        (Edit.keywordEntry U (m.1, .ofValue m.2)).toList ++ keywordPatches U rest := by
      rw [keywordPatches, patchEntries, List.map_cons, List.filterMap_cons]
      cases Edit.keywordEntry U (m.1, .ofValue m.2) <;> rfl
    have hmailboxes : mailboxPatches (m :: rest) =
        (Edit.mailboxEntry (m.1, .ofValue m.2)).toList ++ mailboxPatches rest := by
      rw [mailboxPatches, patchEntries, List.map_cons, List.filterMap_cons]
      cases Edit.mailboxEntry (m.1, .ofValue m.2) <;> rfl
    have hnone : ∀ {key}, key ≤ m.1 → Jmap.Members.inner rest key = none := by
      intro key hle
      refine Jmap.Members.inner_eq_none fun m' hm' heq => ?_
      exact absurd (hfirst m' hm') (by rw [heq]; exact not_lt.mpr hle)
    rw [hih, hkeywords, hmailboxes]
    unfold applyEntry at hentry
    unfold Edit.keywordEntry Edit.mailboxEntry
    obtain ⟨key, v⟩ := m
    cases hkey : PatchKey.ofString key with
    | keywords =>
      obtain rfl := ofString_keywords hkey
      simp only [hkey] at hentry ⊢
      cases v with
      | object inner =>
        obtain rfl := Except.ok.inj hentry
        rw [hnone le_rfl, Jmap.Members.inner_cons_self, Jmap.Members.inner_cons_of_ne (by simp)]
        exact congrArg (·, _) (assignAll_some _ _ _)
      | _ => cases hentry
    | keyword x =>
      have hlt := ofString_keyword hkey
      simp only [hkey] at hentry ⊢
      cases hflag : (PatchValue.ofValue v).flag with
      | none =>
        rw [hflag] at hentry
        cases hentry
      | some b =>
        rw [hflag] at hentry
        obtain rfl := Except.ok.inj hentry
        rw [Jmap.Members.inner_cons_of_ne hlt.ne', hnone hlt.le,
          Jmap.Members.inner_cons_of_ne (by rintro rfl; cases hkey)]
        rfl
    | mailboxIds =>
      obtain rfl := ofString_mailboxIds hkey
      simp only [hkey] at hentry ⊢
      cases v with
      | object inner =>
        obtain rfl := Except.ok.inj hentry
        rw [hnone le_rfl, Jmap.Members.inner_cons_self, Jmap.Members.inner_cons_of_ne (by simp)]
        exact congrArg (_, ·) (assignAll_some _ _ _)
      | _ => cases hentry
    | mailbox y =>
      have hlt := ofString_mailbox hkey
      simp only [hkey] at hentry ⊢
      cases hflag : (PatchValue.ofValue v).flag with
      | none =>
        rw [hflag] at hentry
        cases hentry
      | some b =>
        rw [hflag] at hentry
        obtain rfl := Except.ok.inj hentry
        rw [Jmap.Members.inner_cons_of_ne (by rintro rfl; cases hkey),
          Jmap.Members.inner_cons_of_ne hlt.ne', hnone hlt.le]
        rfl
    | unsupported =>
      simp only [hkey] at hentry
      cases hentry

end Loop

/-! ## What is stored -/

section Stored

variable {U : Unicode} {row : EmailRow} {members : Jmap.Members} {k : String} {b : Bool}

/-- What the last entry for a key says. -/
def lastOf (entries : List (String × Bool)) (k : String) : Option Bool :=
  ((entries.filter (·.1 = k)).getLast?).map (·.2)

/-- The last entry decides. -/
theorem mem_foldl_assign (base : List String) (entries : List (String × Bool)) (k : String) :
    k ∈ entries.foldl assign base ↔
      lastOf entries k = some true ∨ lastOf entries k = none ∧ k ∈ base := by
  induction entries using List.reverseRecOn with
  | nil => simp [lastOf]
  | append_singleton entries x ih =>
    rw [List.foldl_append, List.foldl_cons, List.foldl_nil, mem_assign]
    by_cases hk : k = x.1
    · subst hk
      simp [lastOf]
    · have hlast : lastOf (entries ++ [x]) k = lastOf entries k := by
        rw [lastOf, List.filter_append, List.filter_cons_of_neg (by simpa using Ne.symm hk)]
        simp [lastOf]
      rw [if_neg hk, hlast]
      exact ih

theorem mem_of_lastOf {entries : List (String × Bool)} (h : lastOf entries k = some b) :
    (k, b) ∈ entries := by
  obtain ⟨⟨k', b'⟩, hlast, rfl⟩ := Option.map_eq_some_iff.mp h
  obtain ⟨hmem, hk⟩ := List.mem_filter.mp (List.mem_of_getLast? hlast)
  obtain rfl : k' = k := by simpa using hk
  exact hmem

theorem lastOf_ne_none {entries : List (String × Bool)} (h : (k, b) ∈ entries) :
    lastOf entries k ≠ none := by
  intro hnone
  rw [lastOf, Option.map_eq_none_iff, List.getLast?_eq_none_iff] at hnone
  exact List.not_mem_nil (hnone ▸ List.mem_filter.mpr ⟨h, by simp⟩)

/-- The keywords single entries apply to. -/
def keywordBase (members : Jmap.Members) (stored : List String) : List String :=
  ((members.inner "keywords").map Jmap.Members.keys).getD stored

/-- The keywords an update hands over are the base with the entries applied; `None` means that
there are no entries, and that the base is what is stored. -/
theorem afterEntries_getD {old : List String} {inner : Option Jmap.Members}
    {entries : List (String × Bool)} :
    (afterEntries old inner none entries).getD old =
      entries.foldl assign ((inner.map Jmap.Members.keys).getD old) := by
  cases inner with
  | some inner => rfl
  | none =>
    change (assignAll old none entries).getD old = _
    rw [assignAll_none]
    split
    · rename_i hnil
      rw [hnil]
      rfl
    · rfl

/-- The mailbox ids that are handed over: none, or the ids that the texts are. -/
def ParsedTo : Option (List String) → Option (List MailboxId) → Prop
  | none, mailboxIds => mailboxIds = none
  | some ids, mailboxIds => ∃ ms, parseMailboxIds ids = .ok ms ∧ mailboxIds = some ms

/-- `apply_update` up to its write. -/
theorem applyPatch_ok {o : PatchObject} {r : Replacement} (h : applyPatch U row o.patch = .ok r) :
    r.1 = afterEntries row.keywords (o.members.inner "keywords") none
        (keywordPatches U o.members) ∧
      ParsedTo (afterEntries (row.mailboxIds.map (·.uuid.toString))
        (o.members.inner "mailboxIds") none (mailboxPatches o.members)) r.2 := by
  unfold applyPatch at h
  rcases hfold : o.patch.entries.foldlM (applyEntry U row) (none, none) with err | acc
  · rw [hfold] at h
    cases h
  rw [hfold] at h
  have hacc := foldlM_patchEntries o.sorted hfold
  rw [hacc] at h
  rcases hids : afterEntries (row.mailboxIds.map (·.uuid.toString))
    (o.members.inner "mailboxIds") none (mailboxPatches o.members) with _ | ids
  · rw [hids] at h
    obtain rfl := Except.ok.inj h
    rw [hids]
    exact ⟨rfl, rfl⟩
  · rw [hids] at h
    change (parseMailboxIds ids).bind (fun ms => Except.ok (_, some ms)) = _ at h
    rcases hparse : parseMailboxIds ids with err | ms
    · rw [hparse] at h
      cases h
    · rw [hparse] at h
      obtain rfl := Except.ok.inj h
      rw [hids]
      exact ⟨rfl, ms, hparse, rfl⟩

end Stored

/-- The email was written: what was read, and what was handed over. -/
structure Accepted (U : Unicode) (T : TextOps) (c : UpdateCalls) (a : AccountId) (e : EmailId)
    (o : PatchObject) (row : EmailRow) (r : Replacement) (db : MailDb) (out : Updated) : Prop where
  read : db.emailById a e = some row
  handed : applyPatch U row o.patch = .ok r
  effect : MailEffect U db (.updateEmail c.io a e r.1 r.2) out.db
  trained : out.trained = JunkChange.training T ⟨a, decide ("$junk" ∈ row.keywords),
    newIsJunk (decide ("$junk" ∈ row.keywords)) r.1, c.blob, c.order, c.trainIo⟩

section Cases

variable {U : Unicode} {T : TextOps} {c : UpdateCalls} {a : AccountId} {id : String}
  {patch : Jmap.Json} {db : MailDb}

/-- **Either nothing happened**, not even training, or the email was written. -/
theorem applyUpdate_cases (U : Unicode) (T : TextOps) (c : UpdateCalls) (a : AccountId)
    (id : String) (patch : Jmap.Json) (db : MailDb) :
    (∃ err, (applyUpdate U T c a id patch db).result = .error err ∧
        (applyUpdate U T c a id patch db).db = db ∧
          (applyUpdate U T c a id patch db).trained = none) ∨
      ∃ e o row r, EmailId.parse id = some e ∧ PatchObject.ofJson patch = some o ∧
        (applyUpdate U T c a id patch db).result = .ok () ∧
          Accepted U T c a e o row r db (applyUpdate U T c a id patch db) := by
  unfold applyUpdate
  split
  · exact .inl ⟨_, rfl, rfl, rfl⟩
  rename_i e he
  split
  · exact .inl ⟨_, rfl, rfl, rfl⟩
  rename_i o ho
  split
  · exact .inl ⟨_, rfl, rfl, rfl⟩
  split
  · exact .inl ⟨_, rfl, rfl, rfl⟩
  rename_i row hrow
  split
  · exact .inl ⟨_, rfl, rfl, rfl⟩
  rename_i r hr
  unfold writeUpdate
  rcases transaction_cases (updateEmailTx U c.io a e r.1 r.2) db with
    ⟨err, ht⟩ | ⟨changed, db', hok, ht⟩
  · rw [ht]
    exact .inl ⟨_, rfl, rfl, rfl⟩
  · rw [ht]
    exact .inr ⟨e, o, row, r, he, ho, rfl, hrow, hr, updateEmailTx_ok hok, rfl⟩

end Cases
section Sets

variable {U : Unicode} {T : TextOps} {c : UpdateCalls} {a : AccountId} {e : EmailId}
  {o : PatchObject} {row : EmailRow} {r : Replacement} {db : MailDb} {out : Updated}

theorem Accepted.written (h : Accepted U T c a e o row r db out) :
    out.db = db.updatedEmail U a e r.1 r.2 := by
  obtain ⟨-, -, heffect, -⟩ := h
  generalize out.db = db' at heffect
  cases heffect
  rfl

/-- The keywords of the email after the update. -/
theorem Accepted.mem_keywords (h : Accepted U T c a e o row r db out) (hdb : MailInv U db)
    (k : String) : k ∈ out.db.keywordsOf e ↔
      ∃ x ∈ (keywordPatches U o.members).foldl assign
        (keywordBase o.members (db.keywordsOf e)), U.toLowercase x = k := by
  obtain ⟨hkeywords, -, hlower⟩ := row_of_emailById hdb h.read
  have hr := (applyPatch_ok h.handed).1
  have hout : out.db.keywordsOf e =
      (r.1.map fun ks => (ks.map U.toLowercase).eraseDups).getD (db.keywordsOf e) := by
    rw [h.written]
    exact (MailDb.keywordsOf_edited r.1 r.2).trans (if_pos rfl)
  have hfinal : r.1.getD (db.keywordsOf e) = (keywordPatches U o.members).foldl assign
      (keywordBase o.members (db.keywordsOf e)) := by
    rw [hr, hkeywords]
    exact afterEntries_getD
  rw [hout, ← hfinal]
  cases r.1 with
  | some ks => simp [List.mem_eraseDups]
  | none =>
    simp only [Option.map_none, Option.getD_none]
    constructor
    · exact fun hk => ⟨k, hk, hlower k (hkeywords ▸ hk)⟩
    · rintro ⟨x, hx, rfl⟩
      rwa [hlower x (hkeywords ▸ hx)]

/-- The mailboxes of the email after the update. -/
theorem Accepted.mem_mailboxes (h : Accepted U T c a e o row r db out) (hdb : MailInv U db)
    (m : MailboxId) : m ∈ out.db.mailboxIdsOf e ↔
      ∃ y ∈ (mailboxPatches o.members).foldl assign
        (mailboxBase o.members (db.mailboxIdsOf e)), MailboxId.parse y = some m := by
  obtain ⟨-, hmailboxes, -⟩ := row_of_emailById hdb h.read
  have hr := (applyPatch_ok h.handed).2
  have hout : out.db.mailboxIdsOf e = r.2.getD (db.mailboxIdsOf e) := by
    rw [h.written]
    exact (MailDb.mailboxIdsOf_edited r.1 r.2).trans (if_pos rfl)
  have hfinal : (afterEntries (row.mailboxIds.map (·.uuid.toString))
      (o.members.inner "mailboxIds") none (mailboxPatches o.members)).getD
        (row.mailboxIds.map (·.uuid.toString)) = (mailboxPatches o.members).foldl assign
          (mailboxBase o.members (db.mailboxIdsOf e)) := by
    rw [hmailboxes]
    exact afterEntries_getD
  rw [hout, ← hfinal]
  unfold ParsedTo at hr
  split at hr
  · rename_i hnone
    rw [hnone, hr, Option.getD_none, Option.getD_none, hmailboxes]
    constructor
    · exact fun hm => ⟨_, List.mem_map_of_mem hm, parse_toString m⟩
    · rintro ⟨y, hy, hym⟩
      obtain ⟨m', hm', rfl⟩ := List.mem_map.mp hy
      rw [parse_toString, Option.some.injEq] at hym
      exact hym ▸ hm'
  · rename_i ids hids
    obtain ⟨ms, hparse, hr⟩ := hr
    rw [hids, hr, Option.getD_some, Option.getD_some]
    exact (mem_parseMailboxIds hparse).1 m

end Sets

/-! ## Plain patches -/

section PlainIff

variable {U : Unicode} {members : Jmap.Members}

theorem patchesKeyword_lower {k : String} {b : Bool} (h : PatchesKeyword U members k b) :
    U.toLowercase k = k := by
  obtain ⟨-, -, x, -, rfl, -⟩ := h
  exact U.toLowercase_idem x

/-- Where a keyword comes from: its last entry sets it, or it has none and is in the base, or a
member of the base is another spelling of it. -/
theorem mem_stored_iff {base : List String} {k : String} :
    (∃ x ∈ (keywordPatches U members).foldl assign base, U.toLowercase x = k) ↔
      lastPatch U members k = some true ∨
        ∃ x ∈ base, U.toLowercase x = k ∧ (x = k → lastPatch U members k = none) := by
  have hlast : ∀ x, lastOf (keywordPatches U members) x = lastPatch U members x := fun _ => rfl
  constructor
  · rintro ⟨x, hx, rfl⟩
    rw [mem_foldl_assign, hlast] at hx
    rcases hx with hset | ⟨hnone, hbase⟩
    · have hpatched := mem_keywordPatches.mp (mem_of_lastOf hset)
      rw [patchesKeyword_lower hpatched]
      exact .inl hset
    · exact .inr ⟨x, hbase, rfl, fun heq => heq ▸ hnone⟩
  · rintro (hset | ⟨x, hbase, rfl, hnone⟩)
    · refine ⟨k, (mem_foldl_assign _ _ _).mpr (.inl hset), ?_⟩
      exact patchesKeyword_lower (mem_keywordPatches.mp (mem_of_lastOf hset))
    · refine ⟨x, (mem_foldl_assign _ _ _).mpr (.inr ⟨?_, hbase⟩), rfl⟩
      rw [hlast]
      by_contra hsome
      obtain ⟨b, hb⟩ := Option.ne_none_iff_exists'.mp hsome
      have hx := patchesKeyword_lower (mem_keywordPatches.mp (mem_of_lastOf hb))
      exact hsome (hx ▸ hnone hx.symm)

theorem patches_of_last {k : String} {b : Bool} (h : lastPatch U members k = some b) :
    PatchesKeyword U members k b := mem_keywordPatches.mp (mem_of_lastOf h)

theorem last_ne_none {k : String} {b : Bool} (h : PatchesKeyword U members k b) :
    lastPatch U members k ≠ none := lastOf_ne_none (mem_keywordPatches.mpr h)

theorem keywordBase_of_inner {stored : List String} {inner : Jmap.Members}
    (h : members.inner "keywords" = some inner) {x : String} :
    x ∈ keywordBase members stored ↔ ∃ m ∈ inner, m.1 = x := by
  rw [keywordBase, h]
  exact List.mem_map

theorem baseKeyword_of_inner {stored : List String} {inner : Jmap.Members}
    (h : members.inner "keywords" = some inner) {k : String} :
    BaseKeyword U members stored k ↔ ∃ m ∈ inner, Sets m.2 true ∧ U.toLowercase m.1 = k := by
  rw [BaseKeyword, h]

/-- **Keywords**: the code stores what the patch says exactly if they are patched plainly. -/
theorem plainKeywords_iff {stored : List String} (hlower : ∀ k ∈ stored, U.toLowercase k = k) :
    (∀ k, (∃ x ∈ (keywordPatches U members).foldl assign (keywordBase members stored),
      U.toLowercase x = k) ↔ MeantKeyword U members stored k) ↔ PlainKeywords U members := by
  constructor
  · intro hall
    refine ⟨?_, ?_, ?_⟩
    · intro inner hinner m hm hnot
      by_cases hpatched : ∃ b, PatchesKeyword U members (U.toLowercase m.1) b
      · exact .inr hpatched
      · have hnone : lastPatch U members (U.toLowercase m.1) = none := by
          by_contra hsome
          obtain ⟨b, hb⟩ := Option.ne_none_iff_exists'.mp hsome
          exact hpatched ⟨b, patches_of_last hb⟩
        have hmeant := (hall (U.toLowercase m.1)).mp (mem_stored_iff.mpr (.inr
          ⟨m.1, (keywordBase_of_inner hinner).mpr ⟨m, hm, rfl⟩, rfl, fun _ => hnone⟩))
        rcases hmeant.1 with hbase | htrue
        · exact .inl ((baseKeyword_of_inner hinner).mp hbase)
        · exact absurd ⟨true, htrue⟩ hpatched
    · intro k hfalse
      obtain ⟨b, hb⟩ := Option.ne_none_iff_exists'.mp (last_ne_none hfalse)
      cases b with
      | false => exact hb
      | true => exact absurd hfalse ((hall k).mp (mem_stored_iff.mpr (.inl hb))).2
    · intro k hfalse inner hinner m hm hk
      by_contra hne
      refine ((hall k).mp (mem_stored_iff.mpr (.inr ⟨m.1, ?_, hk, fun h => absurd h hne⟩))).2 hfalse
      exact (keywordBase_of_inner hinner).mpr ⟨m, hm, rfl⟩
  · intro hplain k
    rw [mem_stored_iff]
    by_cases hfalse : PatchesKeyword U members k false
    · -- cleared, and no other spelling of it is left
      have hlast := hplain.last k hfalse
      refine ⟨?_, fun hmeant => absurd hfalse hmeant.2⟩
      rintro (hset | ⟨x, hx, hk, hnone⟩)
      · rw [hlast] at hset
        cases hset
      · have hxk : x ≠ k := fun h => by rw [hnone h] at hlast; cases hlast
        cases hinner : members.inner "keywords" with
        | none =>
          rw [keywordBase, hinner] at hx
          exact absurd ((hlower x hx).symm.trans hk) hxk
        | some inner =>
          obtain ⟨m, hm, rfl⟩ := (keywordBase_of_inner hinner).mp hx
          exact absurd (hplain.spelled k hfalse inner hinner m hm hk) hxk
    by_cases htrue : PatchesKeyword U members k true
    · obtain ⟨b, hb⟩ := Option.ne_none_iff_exists'.mp (last_ne_none htrue)
      cases b with
      | false => exact absurd (patches_of_last hb) hfalse
      | true => exact iff_of_true (.inl hb) ⟨.inr htrue, hfalse⟩
    · -- no entry at all
      have hnone : lastPatch U members k = none := by
        by_contra hsome
        obtain ⟨b, hb⟩ := Option.ne_none_iff_exists'.mp hsome
        cases b with
        | false => exact hfalse (patches_of_last hb)
        | true => exact htrue (patches_of_last hb)
      have hstored : (lastPatch U members k = some true ∨ ∃ x ∈ keywordBase members stored,
          U.toLowercase x = k ∧ (x = k → lastPatch U members k = none)) ↔
            ∃ x ∈ keywordBase members stored, U.toLowercase x = k := by simp [hnone]
      have hmeant : MeantKeyword U members stored k ↔ BaseKeyword U members stored k := by
        simp [MeantKeyword, hfalse, htrue]
      rw [hstored, hmeant]
      cases hinner : members.inner "keywords" with
      | none =>
        rw [keywordBase, BaseKeyword, hinner]
        constructor
        · rintro ⟨x, hx, rfl⟩
          rwa [hlower x hx]
        · exact fun hk => ⟨k, hk, hlower k hk⟩
      | some inner =>
        rw [baseKeyword_of_inner hinner]
        constructor
        · rintro ⟨x, hx, rfl⟩
          obtain ⟨m, hm, rfl⟩ := (keywordBase_of_inner hinner).mp hx
          by_cases hset : Sets m.2 true
          · exact ⟨m, hm, hset, rfl⟩
          · rcases hplain.listed inner hinner m hm hset with hother | ⟨b, hb⟩
            · exact hother
            · cases b with
              | false => exact absurd hb hfalse
              | true => exact absurd hb htrue
        · rintro ⟨m, hm, -, hk⟩
          exact ⟨m.1, (keywordBase_of_inner hinner).mpr ⟨m, hm, rfl⟩, hk⟩

/-- A mailbox is named in one spelling once. -/
theorem nodup_mailboxPatches (h : members.Sorted) :
    ((mailboxPatches members).map (·.1)).Nodup :=
  nodup_mailboxEntries (.update (.ofMembers members h))

theorem mem_mailboxBase {stored : List MailboxId} {m : MailboxId} :
    (∃ y ∈ mailboxBase members stored, MailboxId.parse y = some m) ↔
      match members.inner "mailboxIds" with
      | some inner => ∃ x ∈ inner, MailboxId.parse x.1 = some m
      | none => m ∈ stored := by
  unfold mailboxBase
  cases members.inner "mailboxIds" with
  | some inner => simp [Jmap.Members.keys]
  | none =>
    simp only [Option.map_none, Option.getD_none, List.mem_map, exists_exists_and_eq_and,
      parse_toString, Option.some.injEq, exists_eq_right]

/-- **Mailboxes**, in the same way. -/
theorem plainMailboxes_iff (hsorted : members.Sorted) {stored : List MailboxId} :
    (∀ m, (∃ y ∈ (mailboxPatches members).foldl assign (mailboxBase members stored),
      MailboxId.parse y = some m) ↔ MeantMailbox members stored m) ↔
        PlainMailboxes members stored := by
  have hassigned := assigned_foldl (nodup_mailboxPatches hsorted) (mailboxBase members stored)
  have hfinal : ∀ y, y ∈ (mailboxPatches members).foldl assign (mailboxBase members stored) ↔
      PatchesMailboxText members y true ∨
        y ∈ mailboxBase members stored ∧ ∀ b, ¬PatchesMailboxText members y b := by
    intro y
    rw [hassigned y, mem_mailboxPatches]
    refine or_congr_right (and_congr_right fun _ => ?_)
    simp only [List.mem_map, Prod.exists, not_exists, mem_mailboxPatches]
    constructor
    · exact fun h b hb => h y b ⟨hb, rfl⟩
    · rintro h y' b ⟨hb, rfl⟩
      exact h b hb
  have honce : ∀ y b b', PatchesMailboxText members y b → PatchesMailboxText members y b' →
      b = b' := by
    intro y b b' h h'
    have heq := List.inj_on_of_nodup_map (nodup_mailboxPatches hsorted)
      (mem_mailboxPatches.mpr h) (mem_mailboxPatches.mpr h') rfl
    exact congrArg Prod.snd heq
  constructor
  · intro hall
    refine ⟨?_, ?_, ?_⟩
    · intro inner hinner x hx hnot m hm
      by_cases hpatched : ∃ b, PatchesMailbox members m b
      · exact .inr hpatched
      · have hbase : x.1 ∈ mailboxBase members stored := by
          rw [mailboxBase, hinner]
          exact List.mem_map_of_mem hx
        have hmeant := (hall m).mp ⟨x.1, (hfinal _).mpr (.inr ⟨hbase, fun b hb =>
          hpatched ⟨b, x.1, hb, hm⟩⟩), hm⟩
        rcases hmeant.1 with hin | htrue
        · rw [BaseMailbox, hinner] at hin
          exact .inl hin
        · exact absurd ⟨true, htrue⟩ hpatched
    · rintro m hfalse ⟨y, htrue, hm⟩
      exact ((hall m).mp ⟨y, (hfinal y).mpr (.inl htrue), hm⟩).2 hfalse
    · intro m hfalse y hy hm
      by_contra hnot
      refine ((hall m).mp ⟨y, (hfinal y).mpr ?_, hm⟩).2 hfalse
      by_cases htrue : PatchesMailboxText members y true
      · exact .inl htrue
      · refine .inr ⟨hy, fun b hb => ?_⟩
        cases b with
        | false => exact hnot hb
        | true => exact htrue hb
  · intro hplain m
    by_cases hfalse : PatchesMailbox members m false
    · refine ⟨?_, fun hmeant => absurd hfalse hmeant.2⟩
      rintro ⟨y, hy, hm⟩
      rcases (hfinal y).mp hy with htrue | ⟨hbase, hnone⟩
      · exact absurd ⟨y, htrue, hm⟩ (hplain.once m hfalse)
      · exact absurd (hplain.spelled m hfalse y hbase hm) (hnone false)
    by_cases htrue : PatchesMailbox members m true
    · obtain ⟨y, hy, hm⟩ := htrue
      exact iff_of_true ⟨y, (hfinal y).mpr (.inl hy), hm⟩ ⟨.inr ⟨y, hy, hm⟩, hfalse⟩
    · have hstored : (∃ y ∈ (mailboxPatches members).foldl assign (mailboxBase members stored),
          MailboxId.parse y = some m) ↔
            ∃ y ∈ mailboxBase members stored, MailboxId.parse y = some m := by
        refine exists_congr fun y => and_congr_left fun hm => ?_
        rw [hfinal]
        constructor
        · rintro (hset | ⟨hbase, -⟩)
          · exact absurd ⟨y, hset, hm⟩ htrue
          · exact hbase
        · refine fun hbase => .inr ⟨hbase, fun b hb => ?_⟩
          cases b with
          | false => exact hfalse ⟨y, hb, hm⟩
          | true => exact htrue ⟨y, hb, hm⟩
      have hmeant : MeantMailbox members stored m ↔ BaseMailbox members stored m := by
        simp [MeantMailbox, hfalse, htrue]
      rw [hstored, hmeant, mem_mailboxBase, BaseMailbox]
      cases hinner : members.inner "mailboxIds" with
      | none => exact Iff.rfl
      | some inner =>
        constructor
        · rintro ⟨x, hx, hm⟩
          by_cases hset : Sets x.2 true
          · exact ⟨x, hx, hset, hm⟩
          · rcases hplain.listed inner hinner x hx hset m hm with hother | ⟨b, hb⟩
            · exact hother
            · cases b with
              | false => exact absurd hb hfalse
              | true => exact absurd hb htrue
        · rintro ⟨x, hx, -, hm⟩
          exact ⟨x, hx, hm⟩

end PlainIff

/-! ## When an update is taken -/

section Taken

variable {U : Unicode} {row : EmailRow} {members : Jmap.Members} {io : Io} {a : AccountId}
  {e : EmailId} {db : MailDb}

/-- One round of the loop. -/
theorem applyEntry_isOk (acc : PatchAcc) (m : String × Jmap.Value) :
    (∃ acc', applyEntry U row acc (m.1, .ofValue m.2) = .ok acc') ↔ ReadableMember m := by
  unfold applyEntry ReadableMember
  have hobject : (∃ keys, PatchValue.ofValue m.2 = .object keys) ↔
      ∃ inner, m.2 = .object inner := by
    cases m.2 <;> simp [PatchValue.ofValue]
  have hflag : (∃ b, (PatchValue.ofValue m.2).flag = some b) ↔ ∃ b, Sets m.2 b :=
    exists_congr fun b => flag_ofValue
  cases PatchKey.ofString m.1 with
  | keywords | mailboxIds =>
    rw [← hobject]
    cases PatchValue.ofValue m.2 <;> simp
  | keyword x | mailbox y =>
    rw [← hflag]
    cases hb : (PatchValue.ofValue m.2).flag <;> simp [hb]
  | unsupported => simp

/-- **The loop goes through** exactly if every round does. -/
theorem foldlM_patchEntries_isOk (acc : PatchAcc) :
    (∃ acc', (patchEntries members).foldlM (applyEntry U row) acc = .ok acc') ↔
      ∀ m ∈ members, ReadableMember m := by
  induction members generalizing acc with
  | nil => exact iff_of_true ⟨acc, rfl⟩ fun _ h => absurd h List.not_mem_nil
  | cons m rest ih =>
    rw [List.forall_mem_cons, ← @applyEntry_isOk U row acc, patchEntries,
      List.map_cons, List.foldlM_cons]
    rcases applyEntry U row acc (m.1, .ofValue m.2) with err | acc₁
    · exact iff_of_false (by rintro ⟨_, h⟩; cases h) (by rintro ⟨⟨_, h⟩, -⟩; cases h)
    · exact (ih acc₁).trans (and_iff_right ⟨acc₁, rfl⟩).symm

theorem parseMailboxIds_isOk {ys : List String} :
    (∃ ms, parseMailboxIds ys = .ok ms) ↔ ∀ y ∈ ys, ∃ m, MailboxId.parse y = some m := by
  constructor
  · rintro ⟨ms, h⟩
    exact (mem_parseMailboxIds h).2
  · intro h
    induction ys with
    | nil => exact ⟨[], rfl⟩
    | cons y ys ih =>
      obtain ⟨m, hm⟩ := h y List.mem_cons_self
      obtain ⟨ms, hms⟩ := ih fun y' hy' => h y' (List.mem_cons_of_mem _ hy')
      exact ⟨m :: ms, by rw [parseMailboxIds, hm, hms]; rfl⟩

/-- Parsed ids are distinct exactly if no two of the texts name one mailbox. -/
theorem nodup_parseMailboxIds {ys : List String} {ms : List MailboxId} (hys : ys.Nodup)
    (h : parseMailboxIds ys = .ok ms) :
    ms.Nodup ↔ ∀ y ∈ ys, ∀ y' ∈ ys, MailboxId.parse y = MailboxId.parse y' → y = y' := by
  have hmap : ys.map MailboxId.parse = ms.map some := by
    clear hys
    induction ys generalizing ms with
    | nil =>
      cases h
      rfl
    | cons y ys ih =>
      rw [parseMailboxIds] at h
      cases hy : MailboxId.parse y with
      | none =>
        rw [hy] at h
        cases h
      | some m =>
        rw [hy] at h
        rcases hrest : parseMailboxIds ys with err | ms₀
        · rw [hrest] at h
          cases h
        · rw [hrest] at h
          cases h
          rw [List.map_cons, List.map_cons, hy, ih hrest]
  rw [← List.nodup_map_iff (f := some) (Option.some_injective _), ← hmap]
  exact ⟨fun hnd y hy y' hy' heq => List.inj_on_of_nodup_map hnd hy hy' heq,
    fun hinj => hys.map_on hinj⟩

theorem nodup_assign {current : List String} (h : current.Nodup) (x : String × Bool) :
    (assign current x).Nodup := by
  unfold assign
  split_ifs with hset hin
  · exact h
  · exact List.nodup_append.mpr ⟨h, List.nodup_singleton _, fun y hy y' hy' heq =>
      hin (by rwa [← List.mem_singleton.mp hy', ← heq])⟩
  · exact h.filter _

theorem nodup_foldl_assign {current : List String} (h : current.Nodup)
    (entries : List (String × Bool)) : (entries.foldl assign current).Nodup := by
  induction entries generalizing current with
  | nil => exact h
  | cons x entries ih => exact ih (nodup_assign h x)

/-- **The mailboxes that are handed over** are those asked for. -/
theorem mem_foldl_mailboxPatches (hsorted : members.Sorted) {stored : List MailboxId}
    {y : String} : y ∈ (mailboxPatches members).foldl assign (mailboxBase members stored) ↔
      Asks members stored y := by
  rw [assigned_foldl (nodup_mailboxPatches hsorted) (mailboxBase members stored) y,
    mem_mailboxPatches, Asks]
  refine or_congr_right (and_congr_right fun _ => ?_)
  simp only [List.mem_map, Prod.exists, not_exists, mem_mailboxPatches]
  constructor
  · exact fun h b hb => h y b ⟨hb, rfl⟩
  · rintro h y' b ⟨hb, rfl⟩
    exact h b hb

/-- The key has an object for its value, where it has a value. -/
theorem Jmap.Members.inner_ne_none {key : String}
    (h : ∀ m ∈ members, m.1 = key → ∃ inner, m.2 = .object inner) :
    members.inner key ≠ none ↔ ∃ m ∈ members, m.1 = key := by
  constructor
  · intro hne
    unfold Jmap.Members.inner at hne
    cases hget : members.get key with
    | none =>
      rw [hget] at hne
      exact absurd rfl hne
    | some v => exact ⟨_, Jmap.Members.mem_of_get hget, rfl⟩
  · rintro ⟨m, hm, hkey⟩
    obtain ⟨v, hget, hv⟩ := Jmap.Members.get_of_mem_keys (List.mem_map.mpr ⟨m, hm, hkey⟩)
    obtain ⟨inner, rfl⟩ := h _ hv rfl
    simp [Jmap.Members.inner, hget]

theorem afterEntries_ne_none {old : List String} {inner : Option Jmap.Members}
    {entries : List (String × Bool)} :
    afterEntries old inner none entries ≠ none ↔ inner ≠ none ∨ entries ≠ [] := by
  cases inner with
  | some inner => simp [afterEntries]
  | none =>
    change assignAll old none entries ≠ none ↔ _
    rw [assignAll_none]
    split <;> simp_all

/-- What is handed over of one kind: there is a member for all of it, or entries. -/
theorem afterEntries_touched {key : String} {whole : PatchKey} {entry : PatchKey → Prop}
    {entries : List (String × Bool)} (hkey : ∀ name, name = key ↔ PatchKey.ofString name = whole)
    (hobject : ∀ m ∈ members, PatchKey.ofString m.1 = whole → ∃ inner, m.2 = .object inner)
    (hentries : entries ≠ [] ↔ ∃ m ∈ members, entry (PatchKey.ofString m.1)) (old : List String) :
    afterEntries old (members.inner key) none entries ≠ none ↔
      ∃ m ∈ members, PatchKey.ofString m.1 = whole ∨ entry (PatchKey.ofString m.1) := by
  have hinner : ∀ m ∈ members, m.1 = key → ∃ inner, m.2 = .object inner :=
    fun m hm heq => hobject m hm ((hkey m.1).mp heq)
  rw [afterEntries_ne_none, Jmap.Members.inner_ne_none hinner, hentries]
  simp only [hkey, and_or_left, exists_or]

/-- The keywords are handed over exactly if the patch is about them. -/
theorem afterEntries_keywords (h : ∀ m ∈ members, ReadableMember m) (old : List String) :
    afterEntries old (members.inner "keywords") none (keywordPatches U members) ≠ none ↔
      TouchesKeywords members := by
  refine @afterEntries_touched members "keywords" .keywords (fun k => ∃ x, k = .keyword x) _
    (fun name => ⟨fun heq => by rw [heq]; rfl, ofString_keywords⟩) (fun m hm hwhole => ?_) ?_ old
  · have hreads := h m hm
    rwa [ReadableMember, hwhole] at hreads
  · refine ⟨fun hne => ?_, ?_⟩
    · obtain ⟨⟨k, b⟩, hkb⟩ := List.exists_mem_of_ne_nil _ hne
      obtain ⟨m, hm, x, hx, -⟩ := mem_keywordPatches.mp hkb
      exact ⟨m, hm, x, hx⟩
    · rintro ⟨m, hm, x, hx⟩
      have hreads := h m hm
      rw [ReadableMember, hx] at hreads
      obtain ⟨b, hb⟩ := hreads
      exact List.ne_nil_of_mem (mem_keywordPatches.mpr ⟨m, hm, x, hx, rfl, hb⟩)

/-- The same for the mailboxes. -/
theorem afterEntries_mailboxes (h : ∀ m ∈ members, ReadableMember m) (old : List String) :
    afterEntries old (members.inner "mailboxIds") none (mailboxPatches members) ≠ none ↔
      TouchesMailboxes members := by
  refine @afterEntries_touched members "mailboxIds" .mailboxIds (fun k => ∃ y, k = .mailbox y) _
    (fun name => ⟨fun heq => by rw [heq]; rfl, ofString_mailboxIds⟩) (fun m hm hwhole => ?_) ?_ old
  · have hreads := h m hm
    rwa [ReadableMember, hwhole] at hreads
  · refine ⟨fun hne => ?_, ?_⟩
    · obtain ⟨⟨y, b⟩, hyb⟩ := List.exists_mem_of_ne_nil _ hne
      obtain ⟨m, hm, hy, -⟩ := mem_mailboxPatches.mp hyb
      exact ⟨m, hm, y, hy⟩
    · rintro ⟨m, hm, y, hy⟩
      have hreads := h m hm
      rw [ReadableMember, hy] at hreads
      obtain ⟨b, hb⟩ := hreads
      exact List.ne_nil_of_mem (mem_mailboxPatches.mpr ⟨m, hm, hy, hb⟩)

end Taken

section Applied

variable {U : Unicode} {T : TextOps} {c : UpdateCalls} {a : AccountId} {id : String}
  {patch : Jmap.Json} {db : MailDb} {e : EmailId} {row : EmailRow} {o : PatchObject}

/-- The objects of a JSON value have their keys in order. -/
theorem PatchObject.inner_sorted (h : PatchObject.ofJson patch = some o) {key : String}
    {inner : Jmap.Members} (hinner : o.members.inner key = some inner) : inner.Sorted := by
  obtain ⟨v, valid⟩ := patch
  cases v with
  | object members =>
    cases h
    unfold Jmap.Members.inner at hinner
    split at hinner
    · rename_i found hget
      cases hinner
      exact (valid.members.each _ (Jmap.Members.mem_of_get hget)).members.sorted
    · cases hinner
  | _ => cases h

/-- The mailboxes are written exactly if the patch asks for mailboxes that can be. -/
theorem takesMailboxes_iff {members : Jmap.Members} (hsorted : members.Sorted)
    (hinner : ∀ inner, members.inner "mailboxIds" = some inner → inner.Sorted) (io : Io)
    (hm : Memberships db) :
    (∃ ms, parseMailboxIds ((mailboxPatches members).foldl assign
        (mailboxBase members (db.mailboxIdsOf e))) = .ok ms ∧
      ms ≠ [] ∧ (∀ m ∈ ms, io 2 ∧ db.ownsMailbox a m) ∧ ms.Nodup ∧ io 3) ↔
      TakesMailboxes members io a e db := by
  have hmem := fun y => @mem_foldl_mailboxPatches members hsorted (db.mailboxIdsOf e) y
  have hbase : (mailboxBase members (db.mailboxIdsOf e)).Nodup := by
    unfold mailboxBase
    cases hkeys : members.inner "mailboxIds" with
    | some inner => exact Jmap.Members.keys_nodup (hinner inner hkeys)
    | none =>
      exact (hm.nodup_mailboxIdsOf e).map
        (Uuid.toString_injective.comp MailboxId.uuid_injective)
  have hnodup := nodup_foldl_assign hbase (mailboxPatches members)
  -- from here on the texts that are handed over are just some list
  revert hmem hnodup
  generalize (mailboxPatches members).foldl assign (mailboxBase members (db.mailboxIdsOf e)) = ys
  intro hmem hnodup
  constructor
  · rintro ⟨ms, hparse, hne, howned, hnd, hio⟩
    obtain ⟨hms, hall⟩ := mem_parseMailboxIds hparse
    obtain ⟨m, hmm⟩ := List.exists_mem_of_ne_nil ms hne
    obtain ⟨y, hy, -⟩ := (hms m).mp hmm
    have honce := (nodup_parseMailboxIds hnodup hparse).mp hnd
    refine ⟨⟨y, (hmem y).mp hy⟩, fun y hy => ?_, fun y y' hy hy' => ?_, (howned m hmm).1, hio⟩
    · obtain ⟨m, hym⟩ := hall y ((hmem y).mpr hy)
      exact ⟨m, hym, (howned m ((hms m).mpr ⟨y, (hmem y).mpr hy, hym⟩)).2⟩
    · exact honce y ((hmem y).mpr hy) y' ((hmem y').mpr hy')
  · rintro ⟨⟨y, hy⟩, howned, honce, hlookup, hwritten⟩
    have hall : ∀ y ∈ ys, ∃ m, MailboxId.parse y = some m := fun y hy =>
      (howned y ((hmem y).mp hy)).imp fun m h => h.1
    obtain ⟨ms, hparse⟩ := parseMailboxIds_isOk.mpr hall
    obtain ⟨hms, -⟩ := mem_parseMailboxIds hparse
    refine ⟨ms, hparse, ?_, fun m hmm => ⟨hlookup, ?_⟩, ?_, hwritten⟩
    · obtain ⟨m, hym, -⟩ := howned y hy
      exact List.ne_nil_of_mem ((hms m).mpr ⟨y, (hmem y).mpr hy, hym⟩)
    · obtain ⟨y', hy', hym⟩ := (hms m).mp hmm
      obtain ⟨m', hym', hown⟩ := howned y' ((hmem y').mp hy')
      cases hym.symm.trans hym'
      exact hown
    · exact (nodup_parseMailboxIds hnodup hparse).mpr fun y hy y' hy' =>
        honce y y' ((hmem y).mp hy) ((hmem y').mp hy')

/-- The write of `apply_update`. -/
theorem writeUpdate_eq_ok {r : Replacement} :
    (writeUpdate U T c a e row db r).result = .ok () ↔
      ∃ changed db', updateEmailTx U c.io a e r.1 r.2 db = .ok (changed, db') := by
  unfold writeUpdate
  rcases transaction_cases (updateEmailTx U c.io a e r.1 r.2) db with
    ⟨err, ht⟩ | ⟨changed, db', hok, ht⟩
  · rw [ht]
    refine iff_of_false (by rintro ⟨⟩) ?_
    rintro ⟨changed, db', hok⟩
    cases (transaction_eq_ok.mpr hok).symm.trans ht
  · rw [ht]
    exact iff_of_true rfl ⟨changed, db', hok⟩

/-- **`apply_update`, from its calls**: what it reads, what it hands over, and the write. -/
theorem applyUpdate_eq_ok :
    (applyUpdate U T c a id patch db).result = .ok () ↔
      ∃ e o row r, EmailId.parse id = some e ∧ PatchObject.ofJson patch = some o ∧ c.reads ∧
        db.emailById a e = some row ∧ applyPatch U row o.patch = .ok r ∧
          ∃ changed db', updateEmailTx U c.io a e r.1 r.2 db = .ok (changed, db') := by
  unfold applyUpdate
  cases he : EmailId.parse id with
  | none => simp [Updated.failed]
  | some e =>
    cases ho : PatchObject.ofJson patch with
    | none => simp [Updated.failed]
    | some o =>
      cases hreads : c.reads with
      | false => simp
      | true =>
        cases hrow : db.emailById a e with
        | none => simp [Updated.failed, hrow]
        | some row =>
          cases hr : applyPatch U row o.patch with
          | error msg => simp [Updated.failed, hrow, hr]
          | ok r =>
            obtain ⟨keywords, mailboxIds⟩ := r
            simp [writeUpdate_eq_ok, hrow, hr]

/-- A patch that is taken is readable. -/
theorem readable_of_applyPatch {r : Replacement} (h : applyPatch U row o.patch = .ok r) :
    ∀ m ∈ o.members, ReadableMember m := by
  refine (@foldlM_patchEntries_isOk U row _ (none, none)).mp ?_
  unfold applyPatch at h
  rcases hfold : o.patch.entries.foldlM (applyEntry U row) (none, none) with err | acc
  · rw [hfold] at h
    cases h
  · exact ⟨acc, hfold⟩

/-- What a readable patch hands over, if its mailboxes can be parsed. -/
theorem applyPatch_of_readable (hmembers : ∀ m ∈ o.members, ReadableMember m)
    {mailboxIds : Option (List MailboxId)}
    (hids : ParsedTo (afterEntries (row.mailboxIds.map (·.uuid.toString))
      (o.members.inner "mailboxIds") none (mailboxPatches o.members)) mailboxIds) :
    applyPatch U row o.patch = .ok (afterEntries row.keywords (o.members.inner "keywords") none
      (keywordPatches U o.members), mailboxIds) := by
  obtain ⟨acc, hfold⟩ := (@foldlM_patchEntries_isOk U row _ (none, none)).mpr hmembers
  have hacc := foldlM_patchEntries o.sorted hfold
  unfold applyPatch
  have hentries : o.patch.entries = patchEntries o.members := rfl
  rw [hentries, hfold]
  obtain rfl := hacc
  cases hafter : afterEntries (row.mailboxIds.map (·.uuid.toString))
      (o.members.inner "mailboxIds") none (mailboxPatches o.members) with
  | none =>
    rw [hafter] at hids
    obtain rfl : mailboxIds = none := hids
    rfl
  | some ids =>
    rw [hafter] at hids
    obtain ⟨ms, hparse, rfl⟩ := hids
    simp only [bind, Except.bind, hparse]
    rfl

/-- The row is read exactly if the account has the email. -/
theorem emailById_isSome : (∃ row, db.emailById a e = some row) ↔ db.ownsEmail a e := by
  rw [← Option.isSome_iff_exists, MailDb.emailById, Option.isSome_map, MailDb.findEmail,
    MailDb.ownsEmail, List.find?_isSome, List.any_eq_true]

/-- The mailboxes that are handed over, where the patch is about them. -/
theorem afterEntries_eq_some {ids : List String} (hmailboxes : row.mailboxIds = db.mailboxIdsOf e)
    (h : afterEntries (row.mailboxIds.map (·.uuid.toString)) (o.members.inner "mailboxIds") none
      (mailboxPatches o.members) = some ids) :
    (mailboxPatches o.members).foldl assign (mailboxBase o.members (db.mailboxIdsOf e)) = ids := by
  have hgetD := @afterEntries_getD (row.mailboxIds.map (·.uuid.toString))
    (o.members.inner "mailboxIds") (mailboxPatches o.members)
  rw [h, Option.getD_some, hmailboxes] at hgetD
  exact hgetD.symm

/-- **When an update is taken**, on what it is given and on the tables. -/
theorem applyUpdate_takes (hdb : MailInv U db) (hm : Memberships db) :
    (applyUpdate U T c a id patch db).result = .ok () ↔ Takes c a id patch db := by
  rw [applyUpdate_eq_ok, Takes]
  refine exists_congr fun e => exists_congr fun o => ?_
  have hmailboxes : ∀ {row}, db.emailById a e = some row → row.mailboxIds = db.mailboxIdsOf e :=
    fun hrow => (row_of_emailById hdb hrow).2.1
  constructor
  · rintro ⟨row, r, he, ho, hreads, hrow, hpatch, changed, db', hwrite⟩
    obtain ⟨⟨hown, hk, hmb, hlt₁, hlt₂, hio⟩, -⟩ := updateEmailTx_eq_ok.mp hwrite
    have hmembers := readable_of_applyPatch hpatch
    obtain ⟨hr₁, hr₂⟩ := applyPatch_ok hpatch
    refine ⟨he, ho, hreads, hown, hmembers, fun htouch => hk ?_, fun htouch => ?_, hlt₁, hlt₂, hio⟩
    · rw [hr₁]
      exact (afterEntries_keywords hmembers _).mpr htouch
    · obtain ⟨ids, hids⟩ := Option.ne_none_iff_exists'.mp
        ((afterEntries_mailboxes hmembers (row.mailboxIds.map (·.uuid.toString))).mpr htouch)
      rw [hids] at hr₂
      obtain ⟨ms, hparse, hms⟩ := hr₂
      refine (takesMailboxes_iff o.sorted (fun _ => PatchObject.inner_sorted ho) _ hm).mp
        ⟨ms, ?_, hmb ms hms⟩
      rw [afterEntries_eq_some (hmailboxes hrow) hids, hparse]
  · rintro ⟨he, ho, htakes⟩
    obtain ⟨row, hrow⟩ := emailById_isSome.mpr htakes.owned
    have htouches := afterEntries_mailboxes htakes.readable (row.mailboxIds.map (·.uuid.toString))
    -- what the patch says of the mailboxes, parsed
    obtain ⟨mailboxIds, hids, hwritten⟩ : ∃ mailboxIds : Option (List MailboxId),
        ParsedTo (afterEntries (row.mailboxIds.map (·.uuid.toString))
          (o.members.inner "mailboxIds") none (mailboxPatches o.members)) mailboxIds ∧
        ∀ ms, mailboxIds = some ms →
          ms ≠ [] ∧ (∀ m ∈ ms, c.io 2 ∧ db.ownsMailbox a m) ∧ ms.Nodup ∧ c.io 3 := by
      cases hids : afterEntries (row.mailboxIds.map (·.uuid.toString))
          (o.members.inner "mailboxIds") none (mailboxPatches o.members) with
      | none => exact ⟨none, rfl, fun ms h => absurd h (Option.some_ne_none ms).symm⟩
      | some ids =>
        have htouch := htouches.mp (by rw [hids]; exact Option.some_ne_none ids)
        obtain ⟨ms, hparse, hms⟩ := (takesMailboxes_iff o.sorted
          (fun _ => PatchObject.inner_sorted ho) _ hm).mpr (htakes.mailboxes htouch)
        rw [afterEntries_eq_some (hmailboxes hrow) hids] at hparse
        exact ⟨some ms, ⟨ms, hparse, rfl⟩, fun ms' h => Option.some.inj h ▸ hms⟩
    refine ⟨row, _, he, ho, htakes.reads, hrow, applyPatch_of_readable htakes.readable hids, _, _,
      updateEmailTx_eq_ok.mpr ⟨⟨htakes.owned, fun hne => htakes.keywords ?_, hwritten,
        htakes.emailState, htakes.mailboxState, htakes.statements⟩, rfl, rfl⟩⟩
    exact (afterEntries_keywords htakes.readable _).mp hne

end Applied


/-! ## Every email and every patch -/

/-- The patch is plain, for the email it is applied to. -/
def Plain (U : Unicode) (id : String) (patch : Jmap.Json) (db : MailDb) : Prop :=
  ∀ e o, EmailId.parse id = some e → PatchObject.ofJson patch = some o →
    PlainKeywords U o.members ∧ PlainMailboxes o.members (db.mailboxIdsOf e)

theorem patchMeans_iff_of_inv {U : Unicode} {db : MailDb} (hdb : MailInv U db)
    (hm : Memberships db) (T : TextOps) (c : UpdateCalls) (a : AccountId) (id : String)
    (patch : Jmap.Json) :
    PatchMeans U T c a id patch db ↔ ¬Takes c a id patch db ∨ Plain U id patch db := by
  have htaken := @applyUpdate_takes U T c a id patch db hdb hm
  rcases applyUpdate_cases U T c a id patch db with
    ⟨err, hresult, hsame, -⟩ | ⟨e, o, row, r, he, ho, hresult, haccepted⟩
  · refine iff_of_true (.inl ⟨err, hresult, fun e => by rw [hsame]; exact ⟨rfl, rfl⟩⟩) (.inl ?_)
    exact fun htakes => by cases hresult.symm.trans (htaken.mpr htakes)
  · have hplain : Plain U id patch db ↔
        PlainKeywords U o.members ∧ PlainMailboxes o.members (db.mailboxIdsOf e) := by
      refine ⟨fun h => h e o he ho, fun h e' o' he' ho' => ?_⟩
      cases he.symm.trans he'
      cases ho.symm.trans ho'
      exact h
    have hlower : ∀ k ∈ db.keywordsOf e, U.toLowercase k = k := by
      obtain ⟨hkeywords, -, hlower⟩ := row_of_emailById hdb haccepted.read
      exact fun k hk => hlower k (hkeywords ▸ hk)
    rw [or_iff_right (not_not_intro (htaken.mp hresult)), hplain, ← plainKeywords_iff hlower,
      ← plainMailboxes_iff o.sorted]
    have hkeywords := haccepted.mem_keywords hdb
    have hmailboxes := haccepted.mem_mailboxes hdb
    constructor
    · rintro (⟨err, herr, -⟩ | ⟨e', o', -, he', ho', hks, hms⟩)
      · cases hresult.symm.trans herr
      · cases he.symm.trans he'
        cases ho.symm.trans ho'
        exact ⟨fun k => (hkeywords k).symm.trans (hks k),
          fun m => (hmailboxes m).symm.trans (hms m)⟩
    · rintro ⟨hks, hms⟩
      exact .inr ⟨e, o, hresult, he, ho, fun k => (hkeywords k).trans (hks k),
        fun m => (hmailboxes m).trans (hms m)⟩

/-- **A patch means what it says exactly if it is not taken or plain**, for every reachable state,
email and JSON value. -/
theorem patchMeans_iff (U : Unicode) (T : TextOps) (ops : List MailOp) (c : UpdateCalls)
    (a : AccountId) (id : String) (patch : Jmap.Json) :
    PatchMeans U T c a id patch (Runs.run (mailStep U) MailDb.empty ops) ↔
      ¬Takes c a id patch (Runs.run (mailStep U) MailDb.empty ops) ∨
        Plain U id patch (Runs.run (mailStep U) MailDb.empty ops) :=
  patchMeans_iff_of_inv (MailInv.reachable ⟨ops, rfl⟩) (.run U ops) T c a id patch

/-! ## A keyword that is false -/

/-- Every call succeeds. -/
def allCalls : UpdateCalls := { order := ⟨id, fun l => List.Perm.refl l⟩ }

/-- `{"keywords": {"$seen": false}}` -/
def notSeen : Jmap.Json :=
  .object [("keywords", .object [("$seen", .bool false)])]
    ⟨List.pairwise_singleton _ _, fun m hm => by
      rw [List.mem_singleton.mp hm]
      exact .object (List.pairwise_singleton _ _) fun m hm => by
        rw [List.mem_singleton.mp hm]
        exact .bool false⟩

/-- A new account, and one message in its Inbox. -/
def oneMessageOps : List MailOp := [createFreshAccount, .ingest Io.ok firstMessage]

/-- **A message that is not to be seen is seen.** -/
theorem not_patchMeans_notSeen : ¬PatchMeans .ascii sampleText allCalls ⟨1⟩
    "00000000-0000-0000-0000-000000000064" notSeen
      (Runs.run (mailStep .ascii) MailDb.empty oneMessageOps) := by
  have hid : EmailId.parse "00000000-0000-0000-0000-000000000064" = some ⟨100⟩ := by
    decide +kernel
  have hseen : "$seen" ∈ (applyUpdate .ascii sampleText allCalls ⟨1⟩
      "00000000-0000-0000-0000-000000000064" notSeen
        (Runs.run (mailStep .ascii) MailDb.empty oneMessageOps)).db.keywordsOf ⟨100⟩ := by
    decide +kernel
  have hunseen : "$seen" ∉ (Runs.run (mailStep .ascii) MailDb.empty oneMessageOps).keywordsOf
      ⟨100⟩ := by decide +kernel
  rintro (⟨err, -, hsame⟩ | ⟨e, o, -, he, ho, hks, -⟩)
  · rw [(hsame ⟨100⟩).1] at hseen
    exact hunseen hseen
  · cases hid.symm.trans he
    cases ho
    rcases ((hks "$seen").mp hseen).1 with ⟨m, hm, hset, -⟩ | ⟨m, hm, x, hx, -⟩
    · rw [List.mem_singleton.mp hm] at hset
      cases hset
    · rw [List.mem_singleton.mp hm] at hx
      cases (by decide : PatchKey.ofString "keywords" = .keywords).symm.trans hx

end Owney
