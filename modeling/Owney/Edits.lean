import Owney.Modseq

/-!
# Two edits of one email

Three callers change an email's keywords or mailboxes: a JMAP `Email/set` patch
(`apply_update`), the MCP tool `set_keyword`, and the AI categorizer. Each reads
the email in one storage call, computes the whole new set, and writes it with
`update_email` in another.

`Editor` is such a caller between its calls and `runEditors` any interleaving of
two of them. When both succeed, both effects are there exactly if the windows did
not overlap, or the write that came first had nothing to change in what the
second one replaced (`bothHold_iff`).
-/

namespace Owney

open Tables

/-! ## Patches -/

/-- A value of a patch, as far as `apply_update` looks at it. -/
inductive PatchValue where
  | bool (b : Bool)
  | null
  | object (keys : List String)
  | other
  deriving DecidableEq, Repr

/-- `true` sets an entry, `false` and `null` clear it. -/
def PatchValue.flag : PatchValue → Option Bool
  | .bool b => some b
  | .null => some false
  | _ => none

/-- The keys `apply_update` knows. -/
inductive PatchKey where
  | keywords
  | keyword (x : String)
  | mailboxIds
  | mailbox (y : String)
  | unsupported
  deriving DecidableEq, Repr

/-- `str::strip_prefix`. -/
def stripPrefix (p s : String) : Option String :=
  if p.toList.isPrefixOf s.toList then some (String.ofList (s.toList.drop p.length)) else none

/-- The branches of `apply_update` on a key, in its order. -/
def PatchKey.ofString (key : String) : PatchKey :=
  if key = "keywords" then .keywords
  else match stripPrefix "keywords/" key with
  | some x => .keyword x
  | none =>
    if key = "mailboxIds" then .mailboxIds
    else match stripPrefix "mailboxIds/" key with
    | some y => .mailbox y
    | none => .unsupported

/-- A JSON object: its keys are distinct. -/
structure Patch where
  entries : List (String × PatchValue)
  nodup : (entries.map (·.1)).Nodup

/-- One entry set or cleared in a list that keeps its order. -/
def assign (current : List String) (x : String × Bool) : List String :=
  if x.2 then (if x.1 ∈ current then current else current ++ [x.1])
  else current.filter (· ≠ x.1)

/-- The two lists `apply_update` builds: keywords and mailbox ids, `None` until touched. -/
abbrev PatchAcc : Type := Option (List String) × Option (List String)

/-- One round of the loop of `apply_update`. -/
def applyEntry (U : Unicode) (row : EmailRow) (acc : PatchAcc) (entry : String × PatchValue) :
    Except String PatchAcc :=
  match PatchKey.ofString entry.1, entry.2 with
  | .keywords, .object keys => .ok (some keys, acc.2)
  | .keywords, _ => .error "keywords must be an object"
  | .keyword x, v =>
    match v.flag with
    | some b => .ok (some (assign (acc.1.getD row.keywords) (U.toLowercase x, b)), acc.2)
    | none => .error ("bad value for " ++ entry.1)
  | .mailboxIds, .object keys => .ok (acc.1, some keys)
  | .mailboxIds, _ => .error "mailboxIds must be an object"
  | .mailbox y, v =>
    match v.flag with
    | some b => .ok (acc.1, some (assign (acc.2.getD (row.mailboxIds.map (·.uuid.toString))) (y, b)))
    | none => .error ("bad value for " ++ entry.1)
  | .unsupported, _ => .error ("unsupported property " ++ entry.1)

/-- `id.parse::<MailboxId>()`. -/
def MailboxId.parse (s : String) : Option MailboxId := (Uuid.parseStr s).map MailboxId.mk

/-- The mailbox ids, parsed. -/
def parseMailboxIds : List String → Except String (List MailboxId)
  | [] => .ok []
  | y :: ys =>
    match MailboxId.parse y with
    | none => .error ("bad mailbox id " ++ y)
    | some m => (parseMailboxIds ys).map (m :: ·)

/-- What an edit hands to `update_email`. -/
abbrev Replacement : Type := Option (List String) × Option (List MailboxId)

/-- `apply_update` up to its write. -/
def applyPatch (U : Unicode) (row : EmailRow) (patch : Patch) : Except String Replacement := do
  let acc ← patch.entries.foldlM (applyEntry U row) (none, none)
  match acc.2 with
  | none => return (acc.1, none)
  | some ids =>
    let ids ← parseMailboxIds ids
    return (acc.1, some ids)

/-- The mailboxes some entries name. -/
def namedMailboxes (entries : List (String × Bool)) : List MailboxId :=
  entries.filterMap fun y => MailboxId.parse y.1

/-! ## Edits -/

/-- `CATEGORIES`. -/
def categories : List String :=
  ["personal", "transactional", "newsletter", "notification", "promotional"]

/-- A caller that edits an email: `apply_update`, `set_keyword`, or `categorize`
with the model's answer. -/
inductive Edit where
  | update (patch : Patch)
  | setKeyword (keyword : String) (present : Bool)
  | categorize (category : String)

namespace Edit

/-- What the edit computes from the row it read. -/
def replacement (U : Unicode) (row : EmailRow) : Edit → Except String Replacement
  | .update patch => applyPatch U row patch
  | .setKeyword keyword present =>
    .ok (some (assign row.keywords (U.toLowercase keyword, present)), none)
  | .categorize category =>
    if category ∈ categories then .ok (some (row.keywords ++ ["ai:" ++ category]), none)
    else .error ("invalid category " ++ category)

/-- A `keywords/x` entry: the keyword as it is stored, set or cleared. -/
def keywordEntry (U : Unicode) (entry : String × PatchValue) : Option (String × Bool) :=
  match PatchKey.ofString entry.1 with
  | .keyword x => entry.2.flag.map (U.toLowercase x, ·)
  | _ => none

/-- A `mailboxIds/y` entry: the mailbox in the client's spelling, added or removed. -/
def mailboxEntry (entry : String × PatchValue) : Option (String × Bool) :=
  match PatchKey.ofString entry.1 with
  | .mailbox y => entry.2.flag.map (y, ·)
  | _ => none

/-- The keywords the edit sets (`true`) and clears. -/
def keywordEntries (U : Unicode) : Edit → List (String × Bool)
  | .update patch => patch.entries.filterMap (keywordEntry U)
  | .setKeyword keyword present => [(U.toLowercase keyword, present)]
  | .categorize category => [(U.toLowercase ("ai:" ++ category), true)]

/-- The mailboxes the edit adds (`true`) and removes. -/
def mailboxEntries : Edit → List (String × Bool)
  | .update patch => patch.entries.filterMap mailboxEntry
  | _ => []

/-- The edit is made of `keywords/x` and `mailboxIds/y` entries only. -/
def Pointwise : Edit → Prop
  | .update patch => ∀ entry ∈ patch.entries,
    (∃ x, PatchKey.ofString entry.1 = .keyword x) ∨ ∃ y, PatchKey.ofString entry.1 = .mailbox y
  | _ => True

end Edit

/-- The keyword entries hold of the stored keywords. -/
def KeywordsHold (entries : List (String × Bool)) (stored : List String) : Prop :=
  ∀ x ∈ entries, (x.1 ∈ stored ↔ x.2 = true)

/-- The mailbox entries hold: what was added names a mailbox of the email, what was
removed is not among the printed ids. -/
def MailboxesHold (entries : List (String × Bool)) (stored : List MailboxId) : Prop :=
  ∀ y ∈ entries, if y.2 then ∃ m ∈ stored, MailboxId.parse y.1 = some m
    else ∀ m ∈ stored, m.uuid.toString ≠ y.1

/-- The effect of the edit is there. -/
def Edit.Holds (U : Unicode) (E : Edit) (db : MailDb) (e : EmailId) : Prop :=
  KeywordsHold (E.keywordEntries U) (db.keywordsOf e) ∧
    MailboxesHold E.mailboxEntries (db.mailboxIdsOf e)

/-- No keyword and no mailbox is named twice, in one edit or across the two. -/
def Edit.Different (U : Unicode) (E F : Edit) : Prop :=
  ((E.keywordEntries U).map (·.1) ++ (F.keywordEntries U).map (·.1)).Nodup ∧
    (namedMailboxes E.mailboxEntries ++ namedMailboxes F.mailboxEntries).Nodup

/-! ## Editors -/

/-- Where a caller is between its storage calls. -/
inductive Editor where
  | start
  | read (row : Option EmailRow)
  | done (success : Bool)
  deriving DecidableEq, Repr

/-- The tables and the two callers. -/
structure Editors where
  db : MailDb
  phase : Bool → Editor

namespace Editors

/-- One caller moves on. -/
def set (s : Editors) (i : Bool) (ph : Editor) : Editors :=
  { s with phase := fun j => if j = i then ph else s.phase j }

@[simp] theorem db_set (s : Editors) (i : Bool) (ph : Editor) : (s.set i ph).db = s.db := rfl

@[simp] theorem phase_set_self (s : Editors) (i : Bool) (ph : Editor) :
    (s.set i ph).phase i = ph := if_pos rfl

@[simp] theorem phase_set_not (s : Editors) (i : Bool) (ph : Editor) :
    (s.set i ph).phase (!i) = s.phase (!i) := if_neg (by cases i <;> decide)

@[simp] theorem phase_set_not' (s : Editors) (i : Bool) (ph : Editor) :
    (s.set (!i) ph).phase i = s.phase i := if_neg (by cases i <;> decide)

end Editors

section System

variable (U : Unicode) (a : AccountId) (e : EmailId) (edits : Bool → Edit) (io : Bool → Io)

/-- The write of one caller: the tables after it, if it succeeded. -/
def Edit.write (db : MailDb) (i : Bool) : Option EmailRow → Option MailDb
  | none => none
  | some row =>
    match (edits i).replacement U row with
    | .error _ => none
    | .ok (ks, ms) =>
      match transaction (updateEmailTx U (io i) a e ks ms) db with
      | (.ok _, db') => some db'
      | (.error _, _) => none

/-- One storage call of caller `i`: `emails_by_ids` first, then `update_email`. -/
def editorStep (s : Editors) (i : Bool) : Editors :=
  match s.phase i with
  | .start => s.set i (.read (s.db.emailById a e))
  | .read row =>
    match Edit.write U a e edits io s.db i row with
    | some db' => { s with db := db' }.set i (.done true)
    | none => s.set i (.done false)
  | .done _ => s

/-- An interleaving: which caller makes its next call. -/
def runEditors (db : MailDb) (schedule : List Bool) : Editors :=
  Runs.run (editorStep U a e edits io) ⟨db, fun _ => .start⟩ schedule

end System

/-! ## What an edit stores -/

/-- The new set is the old one with the entries set and cleared. -/
def Assigned (entries : List (String × Bool)) (old new : List String) : Prop :=
  ∀ k, k ∈ new ↔ (k, true) ∈ entries ∨ (k ∈ old ∧ k ∉ entries.map (·.1))

namespace Assigned

variable {entries others : List (String × Bool)} {old new : List String}

theorem nil (old : List String) : Assigned [] old old := fun k => by simp

/-- The entries hold of what they were assigned to. -/
theorem holds (h : Assigned entries old new) (hnd : (entries.map (·.1)).Nodup) :
    KeywordsHold entries new := by
  intro x hx
  rw [h]
  constructor
  · rintro (htrue | ⟨-, hmem⟩)
    · exact congrArg (·.2) (List.inj_on_of_nodup_map hnd hx htrue rfl)
    · exact absurd (List.mem_map_of_mem hx) hmem
  · intro hx2
    left
    rw [← hx2]
    exact hx

/-- Entries about other keys are not touched. -/
theorem holds_iff (h : Assigned entries old new)
    (hdis : ∀ x ∈ others, x.1 ∉ entries.map (·.1)) :
    KeywordsHold others new ↔ KeywordsHold others old := by
  have hkey : ∀ x ∈ others, (x.1 ∈ new ↔ x.1 ∈ old) := by
    intro x hx
    rw [h]
    have hnot := hdis x hx
    constructor
    · rintro (htrue | ⟨hold, -⟩)
      · exact absurd (List.mem_map_of_mem htrue) hnot
      · exact hold
    · exact fun hold => Or.inr ⟨hold, hnot⟩
  exact forall₂_congr fun x hx => by rw [hkey x hx]

end Assigned

theorem mem_assign {current : List String} {x : String × Bool} {k : String} :
    k ∈ assign current x ↔ if k = x.1 then x.2 = true else k ∈ current := by
  unfold assign
  by_cases hx : x.2
  · rw [if_pos hx]
    by_cases hk : k = x.1
    · subst hk
      rw [if_pos rfl]
      split <;> simp_all
    · rw [if_neg hk]
      split <;> simp_all
  · rw [if_neg hx]
    by_cases hk : k = x.1 <;> simp_all

theorem assigned_foldl {entries : List (String × Bool)} (hnd : (entries.map (·.1)).Nodup)
    (old : List String) : Assigned entries old (entries.foldl assign old) := by
  induction entries generalizing old with
  | nil => exact Assigned.nil old
  | cons x entries ih =>
    rw [List.map_cons, List.nodup_cons] at hnd
    intro k
    rw [List.foldl_cons, ih hnd.2, mem_assign, List.mem_cons, List.map_cons, List.mem_cons]
    by_cases hk : k = x.1
    · subst hk
      have htrue : (x.1, true) ∉ entries := fun hmem => hnd.1 (List.mem_map.mpr ⟨_, hmem, rfl⟩)
      obtain ⟨k, b⟩ := x
      cases b <;> simp_all
    · have hx : (k, true) ≠ x := fun hc => hk (congrArg (·.1) hc)
      simp [hk, hx]

/-- The accumulator after a run of single-entry patches. -/
def assignAll (old : List String) (acc : Option (List String)) (entries : List (String × Bool)) :
    Option (List String) :=
  match entries with
  | [] => acc
  | x :: entries => assignAll old (some (assign (acc.getD old) x)) entries

theorem assignAll_some (old current : List String) (entries : List (String × Bool)) :
    assignAll old (some current) entries = some (entries.foldl assign current) := by
  induction entries generalizing current with
  | nil => rfl
  | cons x entries ih => exact ih (assign current x)

theorem assignAll_none (old : List String) (entries : List (String × Bool)) :
    assignAll old none entries = if entries = [] then none else some (entries.foldl assign old) := by
  cases entries with
  | nil => rfl
  | cons x entries => exact assignAll_some old (assign old x) entries

/-! ### The loop of `apply_update` -/

section Patches

variable {U : Unicode} {row : EmailRow}

/-- An entry of a point-wise patch goes to one of the two lists. -/
theorem applyEntry_ok {acc acc' : PatchAcc} {entry : String × PatchValue}
    (hp : (∃ x, PatchKey.ofString entry.1 = .keyword x) ∨
      ∃ y, PatchKey.ofString entry.1 = .mailbox y)
    (h : applyEntry U row acc entry = .ok acc') :
    (∃ x, Edit.keywordEntry U entry = some x ∧ Edit.mailboxEntry entry = none ∧
        acc' = (some (assign (acc.1.getD row.keywords) x), acc.2)) ∨
      ∃ y, Edit.keywordEntry U entry = none ∧ Edit.mailboxEntry entry = some y ∧
        acc' = (acc.1, some (assign (acc.2.getD (row.mailboxIds.map (·.uuid.toString))) y)) := by
  unfold applyEntry at h
  unfold Edit.keywordEntry Edit.mailboxEntry
  rcases hp with ⟨x, hx⟩ | ⟨y, hy⟩
  · simp only [hx] at h ⊢
    cases hflag : entry.2.flag with
    | none => simp [hflag] at h
    | some b =>
      simp only [hflag, Except.ok.injEq] at h
      exact Or.inl ⟨_, rfl, trivial, h.symm⟩
  · simp only [hy] at h ⊢
    cases hflag : entry.2.flag with
    | none => simp [hflag] at h
    | some b =>
      simp only [hflag, Except.ok.injEq] at h
      exact Or.inr ⟨_, trivial, rfl, h.symm⟩

theorem foldlM_applyEntry {entries : List (String × PatchValue)} {acc acc' : PatchAcc}
    (hp : ∀ entry ∈ entries, (∃ x, PatchKey.ofString entry.1 = .keyword x) ∨
      ∃ y, PatchKey.ofString entry.1 = .mailbox y)
    (h : entries.foldlM (applyEntry U row) acc = .ok acc') :
    acc' = (assignAll row.keywords acc.1 (entries.filterMap (Edit.keywordEntry U)),
      assignAll (row.mailboxIds.map (·.uuid.toString)) acc.2
        (entries.filterMap Edit.mailboxEntry)) := by
  induction entries generalizing acc with
  | nil =>
    cases h
    rfl
  | cons entry entries ih =>
    rw [List.foldlM_cons] at h
    rcases hentry : applyEntry U row acc entry with err | acc₁
    · rw [hentry] at h
      cases h
    · rw [hentry] at h
      have hrest := ih (fun entry' h' => hp entry' (List.mem_cons_of_mem _ h')) h
      rw [hrest, List.filterMap_cons, List.filterMap_cons]
      rcases applyEntry_ok (hp entry (List.mem_cons_self ..)) hentry with
        ⟨x, hx, hy, rfl⟩ | ⟨y, hx, hy, rfl⟩
      · rw [hx, hy]
        rfl
      · rw [hx, hy]
        rfl

theorem mem_parseMailboxIds {ys : List String} {ms : List MailboxId}
    (h : parseMailboxIds ys = .ok ms) :
    (∀ m, m ∈ ms ↔ ∃ y ∈ ys, MailboxId.parse y = some m) ∧
      ∀ y ∈ ys, ∃ m, MailboxId.parse y = some m := by
  induction ys generalizing ms with
  | nil =>
    cases h
    simp
  | cons y ys ih =>
    rw [parseMailboxIds] at h
    cases hy : MailboxId.parse y with
    | none => simp [hy] at h
    | some m₀ =>
      simp only [hy] at h
      rcases hys : parseMailboxIds ys with err | ms₀
      · rw [hys] at h
        cases h
      · rw [hys] at h
        cases h
        obtain ⟨hmem, hall⟩ := ih hys
        refine ⟨fun m => ?_, ?_⟩
        · rw [List.mem_cons, hmem]
          simp [hy, eq_comm]
        · simpa [hy] using hall

theorem parse_toString (m : MailboxId) : MailboxId.parse m.uuid.toString = some m := by
  rw [MailboxId.parse, Uuid.parseStr_toString]
  rfl

/-! ### Mailboxes -/

/-- The new mailboxes are the parsed texts of the old ones with the entries set and cleared. -/
def AssignedMailboxes (entries : List (String × Bool)) (old new : List MailboxId) : Prop :=
  ∃ texts, Assigned entries (old.map (·.uuid.toString)) texts ∧
    (∀ m, m ∈ new ↔ ∃ y ∈ texts, MailboxId.parse y = some m) ∧
      ∀ y ∈ texts, ∃ m, MailboxId.parse y = some m

namespace AssignedMailboxes

variable {entries others : List (String × Bool)} {old new : List MailboxId}

/-- The entries hold of what they were assigned to. -/
theorem holds (h : AssignedMailboxes entries old new) (hkeys : (entries.map (·.1)).Nodup)
    (hnd : (namedMailboxes entries).Nodup) : MailboxesHold entries new := by
  obtain ⟨texts, hassigned, hnew, hparse⟩ := h
  have hholds := hassigned.holds hkeys
  intro y hy
  split
  · rename_i htrue
    obtain ⟨m, hm⟩ := hparse y.1 ((hholds y hy).mpr htrue)
    exact ⟨m, (hnew m).mpr ⟨y.1, (hholds y hy).mpr htrue, hm⟩, hm⟩
  · rename_i hfalse
    rintro m hm htext
    have hy' : y.1 ∉ texts := fun hc => hfalse ((hholds y hy).mp hc)
    obtain ⟨t, ht, htm⟩ := (hnew m).mp hm
    rcases (hassigned t).mp ht with hset | ⟨hold, -⟩
    · -- `t` and `y` are two names of one mailbox
      have hym : MailboxId.parse y.1 = some m := by rw [← htext, parse_toString]
      have heq := eq_of_partial_key_eq hnd hset hy htm hym
      exact hy' (by rw [← heq]; exact ht)
    · obtain ⟨m₀, -, rfl⟩ := List.mem_map.mp hold
      rw [parse_toString, Option.some.injEq] at htm
      subst htm
      exact hy' (by rw [← htext]; exact ht)

/-- Mailboxes no entry names stay. -/
theorem mem_iff (h : AssignedMailboxes entries old new) {m : MailboxId}
    (hm : m ∉ namedMailboxes entries) : m ∈ new ↔ m ∈ old := by
  obtain ⟨texts, hassigned, hnew, -⟩ := h
  have hnamed : ∀ y ∈ entries, MailboxId.parse y.1 ≠ some m :=
    fun y hy hc => hm (List.mem_filterMap.mpr ⟨y, hy, hc⟩)
  rw [hnew]
  constructor
  · rintro ⟨t, ht, htm⟩
    rcases (hassigned t).mp ht with hset | ⟨hold, -⟩
    · exact absurd htm (hnamed _ hset)
    · obtain ⟨m₀, hm₀, rfl⟩ := List.mem_map.mp hold
      rw [parse_toString, Option.some.injEq] at htm
      rw [← htm]
      exact hm₀
  · intro hold
    refine ⟨m.uuid.toString, (hassigned _).mpr (Or.inr ⟨List.mem_map_of_mem hold, ?_⟩),
      parse_toString m⟩
    intro hkey
    obtain ⟨y, hy, hytext⟩ := List.mem_map.mp hkey
    exact hnamed y hy (by rw [hytext, parse_toString])

/-- Entries about other mailboxes are not touched. -/
theorem holds_iff (h : AssignedMailboxes entries old new)
    (hdis : ∀ m ∈ namedMailboxes others, m ∉ namedMailboxes entries) :
    MailboxesHold others new ↔ MailboxesHold others old := by
  have hmem : ∀ y ∈ others, ∀ m, MailboxId.parse y.1 = some m → (m ∈ new ↔ m ∈ old) :=
    fun y hy m hym => h.mem_iff (hdis m (List.mem_filterMap.mpr ⟨y, hy, hym⟩))
  refine forall₂_congr fun y hy => ?_
  split
  · constructor
    · rintro ⟨m, hm, hym⟩
      exact ⟨m, (hmem y hy m hym).mp hm, hym⟩
    · rintro ⟨m, hm, hym⟩
      exact ⟨m, (hmem y hy m hym).mpr hm, hym⟩
  · constructor
    · exact fun hall m hm htext =>
        hall m ((hmem y hy m (by rw [← htext, parse_toString])).mpr hm) htext
    · exact fun hall m hm htext =>
        hall m ((hmem y hy m (by rw [← htext, parse_toString])).mp hm) htext

end AssignedMailboxes

end Patches

/-! ### Keys -/

theorem toList_of_stripPrefix {p s x : String} (h : stripPrefix p s = some x) :
    s.toList = p.toList ++ x.toList := by
  unfold stripPrefix at h
  split at h
  · rename_i hp
    obtain ⟨t, ht⟩ := List.isPrefixOf_iff_prefix.mp hp
    cases h
    rw [← ht, ← String.length_toList, List.drop_left, String.toList_ofList]
  · cases h

theorem toList_of_mailbox {key y : String} (h : PatchKey.ofString key = .mailbox y) :
    key.toList = "mailboxIds/".toList ++ y.toList := by
  unfold PatchKey.ofString at h
  split at h
  · cases h
  · split at h
    · cases h
    · split at h
      · cases h
      · split at h
        · rename_i hstrip
          cases h
          exact toList_of_stripPrefix hstrip
        · cases h

/-- A mailbox is spelled one way once, since the keys of a patch are distinct. -/
theorem nodup_mailboxEntries (E : Edit) : (E.mailboxEntries.map (·.1)).Nodup := by
  cases E with
  | update patch =>
    have hkeys := patch.nodup
    rw [List.Nodup, List.pairwise_map] at hkeys
    rw [Edit.mailboxEntries, List.map_filterMap, List.Nodup, List.pairwise_filterMap]
    have hkey : ∀ {entry : String × PatchValue} {y : String},
        (Edit.mailboxEntry entry).map (·.1) = some y →
          entry.1.toList = "mailboxIds/".toList ++ y.toList := by
      intro entry y h
      obtain ⟨x, hx, rfl⟩ := Option.map_eq_some_iff.mp h
      unfold Edit.mailboxEntry at hx
      split at hx
      · rename_i hofString
        obtain ⟨b, -, rfl⟩ := Option.map_eq_some_iff.mp hx
        exact toList_of_mailbox hofString
      · cases hx
    refine hkeys.imp fun hne y hy y' hy' heq => hne ?_
    rw [← String.toList_inj, hkey hy, hkey hy', heq]
  | setKeyword keyword present => exact List.nodup_nil
  | categorize category => exact List.nodup_nil

/-! ### Replacements -/

/-- A set is replaced by an edit that has entries for it, and else left alone. -/
def Replaced {α : Type} (entries : List (String × Bool)) (assigned : List α → Prop)
    (stored stored' : List α) : Prop :=
  if entries = [] then stored' = stored else assigned stored'

section Replacements

variable {U : Unicode} {row : EmailRow} {E : Edit} {ks : Option (List String)}
  {ms : Option (List MailboxId)}

theorem toLowercase_of_keywordEntry {entry : String × PatchValue} {x : String × Bool}
    (h : Edit.keywordEntry U entry = some x) : U.toLowercase x.1 = x.1 := by
  unfold Edit.keywordEntry at h
  split at h
  · obtain ⟨b, -, rfl⟩ := Option.map_eq_some_iff.mp h
    exact U.toLowercase_idem _
  · cases h

theorem toLowercase_of_mem_keywordEntries {x : String × Bool} (h : x ∈ E.keywordEntries U) :
    U.toLowercase x.1 = x.1 := by
  cases E with
  | update patch =>
    obtain ⟨entry, -, hx⟩ := List.mem_filterMap.mp h
    exact toLowercase_of_keywordEntry hx
  | setKeyword keyword present =>
    rw [List.mem_singleton.mp h]
    exact U.toLowercase_idem _
  | categorize category =>
    rw [List.mem_singleton.mp h]
    exact U.toLowercase_idem _

/-- Storing lower-case keywords stores them as they are. -/
theorem assigned_stored {entries : List (String × Bool)} {old new : List String}
    (h : Assigned entries old new) (hentries : ∀ x ∈ entries, U.toLowercase x.1 = x.1)
    (hold : ∀ k ∈ old, U.toLowercase k = k) :
    Assigned entries old (new.map U.toLowercase).eraseDups := by
  have hlower : new.map U.toLowercase = new := by
    refine (List.map_congr_left fun k hk => ?_).trans (List.map_id new)
    rcases (h k).mp hk with hset | ⟨hk, -⟩
    · exact hentries _ hset
    · exact hold k hk
  intro k
  rw [List.mem_eraseDups, hlower]
  exact h k

/-- The keywords an edit stores. -/
theorem replaced_keywords (hp : E.Pointwise) (hnd : ((E.keywordEntries U).map (·.1)).Nodup)
    (hrow : ∀ k ∈ row.keywords, U.toLowercase k = k) (h : E.replacement U row = .ok (ks, ms))
    (stored : List String) :
    Replaced (E.keywordEntries U) (Assigned (E.keywordEntries U) row.keywords) stored
      ((ks.map fun ks => (ks.map U.toLowercase).eraseDups).getD stored) := by
  have hlower : ∀ x ∈ E.keywordEntries U, U.toLowercase x.1 = x.1 :=
    fun x hx => toLowercase_of_mem_keywordEntries hx
  cases E with
  | update patch =>
    have hks : ks = assignAll row.keywords none (Edit.keywordEntries U (.update patch)) := by
      rw [Edit.replacement, applyPatch] at h
      rcases hfold : patch.entries.foldlM (applyEntry U row) (none, none) with err | acc
      · rw [hfold] at h
        cases h
      · rw [hfold] at h
        have hacc := foldlM_applyEntry hp hfold
        have hks : ks = acc.1 := by
          change (match acc.2 with
            | none => Except.ok (acc.1, none)
            | some ids => (parseMailboxIds ids).bind fun ids => .ok (acc.1, some ids)) = _ at h
          split at h
          · cases h
            rfl
          · rename_i ids hids
            rcases hparse : parseMailboxIds ids with err | ids'
            · rw [hparse] at h
              cases h
            · rw [hparse] at h
              cases h
              rfl
        rw [hks, hacc]
        rfl
    rw [hks, assignAll_none]
    unfold Replaced
    split
    · rfl
    · exact assigned_stored (assigned_foldl hnd row.keywords) hlower hrow
  | setKeyword keyword present =>
    cases h
    exact assigned_stored (assigned_foldl hnd row.keywords) hlower hrow
  | categorize category =>
    rw [Edit.replacement] at h
    split at h
    · cases h
      change Assigned [(U.toLowercase ("ai:" ++ category), true)] row.keywords
        ((row.keywords ++ ["ai:" ++ category]).map U.toLowercase).eraseDups
      have hmap : row.keywords.map U.toLowercase = row.keywords :=
        (List.map_congr_left hrow).trans (List.map_id _)
      intro k
      rw [List.mem_eraseDups, List.map_append, hmap, List.map_singleton]
      by_cases hk : k = U.toLowercase ("ai:" ++ category) <;> simp [hk]
    · cases h

/-- The mailboxes an edit stores. -/
theorem replaced_mailboxes (hp : E.Pointwise) (hnd : (E.mailboxEntries.map (·.1)).Nodup)
    (h : E.replacement U row = .ok (ks, ms)) (stored : List MailboxId) :
    Replaced E.mailboxEntries (AssignedMailboxes E.mailboxEntries row.mailboxIds) stored
      (ms.getD stored) := by
  cases E with
  | update patch =>
    rw [Edit.replacement, applyPatch] at h
    rcases hfold : patch.entries.foldlM (applyEntry U row) (none, none) with err | acc
    · rw [hfold] at h
      cases h
    · rw [hfold] at h
      have hacc : acc.2 = assignAll (row.mailboxIds.map (·.uuid.toString)) none
          (Edit.mailboxEntries (.update patch)) := congrArg (·.2) (foldlM_applyEntry hp hfold)
      rw [assignAll_none] at hacc
      change (match acc.2 with
        | none => Except.ok (acc.1, none)
        | some ids => (parseMailboxIds ids).bind fun ids => .ok (acc.1, some ids)) = _ at h
      unfold Replaced
      split at hacc
      · rename_i hentries
        rw [hacc] at h
        cases h
        rw [if_pos hentries]
        rfl
      · rename_i hentries
        rw [hacc] at h
        rw [if_neg hentries]
        rcases hparse : parseMailboxIds ((Edit.mailboxEntries (.update patch)).foldl assign
            (row.mailboxIds.map (·.uuid.toString))) with err | ids
        · simp only [hparse] at h
          cases h
        · simp only [hparse] at h
          cases h
          exact ⟨_, assigned_foldl hnd _, mem_parseMailboxIds hparse⟩
  | setKeyword keyword present =>
    cases h
    rfl
  | categorize category =>
    rw [Edit.replacement] at h
    split at h
    · cases h
      rfl
    · cases h

end Replacements

/-! ### Writes -/

section Writes

variable {U : Unicode} {a : AccountId} {e : EmailId} {edits : Bool → Edit} {io : Bool → Io}
  {db db' : MailDb} {i : Bool} {row : EmailRow}

/-- What a successful write did. -/
theorem write_eq_some (h : Edit.write U a e edits io db i (some row) = some db') :
    ∃ ks ms, (edits i).replacement U row = .ok (ks, ms) ∧ db' = db.updatedEmail U a e ks ms ∧
      MailEffect U db (.updateEmail (io i) a e ks ms) db' := by
  unfold Edit.write at h
  rcases hr : (edits i).replacement U row with err | ⟨ks, ms⟩
  · simp [hr] at h
  · simp only [hr] at h
    rcases transaction_cases (updateEmailTx U (io i) a e ks ms) db with ⟨err, ht⟩ | ⟨c, db₁, hok, ht⟩
    · simp [ht] at h
    · simp only [ht, Option.some.injEq] at h
      subst h
      have heff := updateEmailTx_ok hok
      refine ⟨ks, ms, rfl, ?_, heff⟩
      cases heff
      rfl

/-- The lists of the email after an edit was written, from a row that was read with
keywords and mailboxes of its own. -/
structure Written (U : Unicode) (E : Edit) (row : EmailRow) (db db' : MailDb) (e : EmailId) :
    Prop where
  keywords : Replaced (E.keywordEntries U) (Assigned (E.keywordEntries U) row.keywords)
    (db.keywordsOf e) (db'.keywordsOf e)
  mailboxes : Replaced E.mailboxEntries (AssignedMailboxes E.mailboxEntries row.mailboxIds)
    (db.mailboxIdsOf e) (db'.mailboxIdsOf e)

theorem written_of_write (hp : (edits i).Pointwise)
    (hnd : (((edits i).keywordEntries U).map (·.1)).Nodup)
    (hrow : ∀ k ∈ row.keywords, U.toLowercase k = k)
    (h : Edit.write U a e edits io db i (some row) = some db') :
    Written U (edits i) row db db' e := by
  obtain ⟨ks, ms, hr, rfl, -⟩ := write_eq_some h
  have hks : (db.updatedEmail U a e ks ms).keywordsOf e =
      (ks.map fun ks => (ks.map U.toLowercase).eraseDups).getD (db.keywordsOf e) :=
    (MailDb.keywordsOf_edited ks ms).trans (if_pos rfl)
  have hms : (db.updatedEmail U a e ks ms).mailboxIdsOf e = ms.getD (db.mailboxIdsOf e) :=
    (MailDb.mailboxIdsOf_edited ks ms).trans (if_pos rfl)
  refine ⟨?_, ?_⟩
  · rw [hks]
    exact replaced_keywords hp hnd hrow hr _
  · rw [hms]
    exact replaced_mailboxes hp (nodup_mailboxEntries _) hr _

section Written

variable {E F : Edit}

/-- A written edit holds. -/
theorem Written.holds (h : Written U E row db db' e)
    (hkeys : ((E.keywordEntries U).map (·.1)).Nodup)
    (hnamed : (namedMailboxes E.mailboxEntries).Nodup) : E.Holds U db' e := by
  constructor
  · have hk := h.keywords
    unfold Replaced at hk
    split at hk
    · rename_i hnil
      rw [hnil]
      exact fun _ hx => nomatch hx
    · exact hk.holds hkeys
  · have hm := h.mailboxes
    unfold Replaced at hm
    split at hm
    · rename_i hnil
      rw [hnil]
      exact fun _ hy => nomatch hy
    · exact hm.holds (nodup_mailboxEntries E) hnamed

/-- Another edit's keywords hold after the write as they held before it, or, where
the write replaced the set, as they held in the row it started from. -/
theorem Written.keywordsHold_iff (h : Written U E row db db' e)
    (hdis : ∀ x ∈ F.keywordEntries U, x.1 ∉ (E.keywordEntries U).map (·.1)) :
    KeywordsHold (F.keywordEntries U) (db'.keywordsOf e) ↔
      if E.keywordEntries U = [] then KeywordsHold (F.keywordEntries U) (db.keywordsOf e)
      else KeywordsHold (F.keywordEntries U) row.keywords := by
  have hk := h.keywords
  unfold Replaced at hk
  split at hk
  · rename_i hnil
    rw [if_pos hnil, hk]
  · rename_i hnil
    rw [if_neg hnil]
    exact hk.holds_iff hdis

/-- The same for mailboxes. -/
theorem Written.mailboxesHold_iff (h : Written U E row db db' e)
    (hdis : ∀ m ∈ namedMailboxes F.mailboxEntries, m ∉ namedMailboxes E.mailboxEntries) :
    MailboxesHold F.mailboxEntries (db'.mailboxIdsOf e) ↔
      if E.mailboxEntries = [] then MailboxesHold F.mailboxEntries (db.mailboxIdsOf e)
      else MailboxesHold F.mailboxEntries row.mailboxIds := by
  have hm := h.mailboxes
  unfold Replaced at hm
  split at hm
  · rename_i hnil
    rw [if_pos hnil, hm]
  · rename_i hnil
    rw [if_neg hnil]
    exact hm.holds_iff hdis

end Written

/-- A row just read shows the lists as they are, keywords in lower case. -/
theorem row_of_emailById (hdb : MailInv U db) (h : db.emailById a e = some row) :
    row.keywords = db.keywordsOf e ∧ row.mailboxIds = db.mailboxIdsOf e ∧
      ∀ k ∈ row.keywords, U.toLowercase k = k := by
  obtain ⟨r, hr, rfl⟩ := Option.map_eq_some_iff.mp h
  have hid := List.find?_some hr
  simp only [decide_eq_true_eq] at hid
  obtain ⟨-, rfl⟩ := hid
  refine ⟨rfl, rfl, fun k hk => ?_⟩
  obtain ⟨x, hx, rfl⟩ := List.mem_map.mp hk
  exact hdb.keywordsLower x (List.mem_of_mem_filter hx)

end Writes

/-! ## Interleavings -/

section Interleavings

variable {U : Unicode} {a : AccountId} {e : EmailId} {edits : Bool → Edit} {io : Bool → Io}

/-- Both callers have returned success. -/
def BothDone (s : Editors) : Prop := ∀ i, s.phase i = .done true

theorem eq_or_eq_not (i j : Bool) : j = i ∨ j = !i := by cases i <;> cases j <;> simp

theorem editorStep_of_done {s : Editors} {i b : Bool} (h : s.phase i = .done b) :
    editorStep U a e edits io s i = s := by
  unfold editorStep
  rw [h]

/-- When both callers are done, nothing happens any more. -/
theorem run_of_done {s : Editors} {i b b' : Bool} (hi : s.phase i = .done b)
    (hother : s.phase (!i) = .done b') (schedule : List Bool) :
    Runs.run (editorStep U a e edits io) s schedule = s := by
  induction schedule with
  | nil => rfl
  | cons j schedule ih =>
    rw [Runs.run_cons]
    rcases eq_or_eq_not i j with rfl | rfl
    · rw [editorStep_of_done hi, ih]
    · rw [editorStep_of_done hother, ih]

/-- One caller is done and the other has read: the final tables are its write's. -/
theorem run_of_read {s : Editors} {i : Bool} {row : Option EmailRow} (hi : s.phase i = .read row)
    (hother : s.phase (!i) = .done true) {schedule : List Bool}
    (hdone : BothDone (Runs.run (editorStep U a e edits io) s schedule)) :
    Edit.write U a e edits io s.db i row =
      some (Runs.run (editorStep U a e edits io) s schedule).db := by
  induction schedule with
  | nil =>
    have := hdone i
    rw [Runs.run_nil, hi] at this
    cases this
  | cons j schedule ih =>
    rw [Runs.run_cons] at hdone ⊢
    rcases eq_or_eq_not i j with rfl | rfl
    · cases hw : Edit.write U a e edits io s.db j row with
      | none =>
        have hstep : editorStep U a e edits io s j = s.set j (.done false) := by
          simp only [editorStep, hi, hw]
        rw [hstep, run_of_done (s.phase_set_self j _) ((s.phase_set_not j _).trans hother)] at hdone
        have := hdone j
        rw [Editors.phase_set_self] at this
        cases this
      | some db' =>
        let s' : Editors := { s with db := db' }
        have hstep : editorStep U a e edits io s j = s'.set j (.done true) := by
          simp only [editorStep, hi, hw, s']
        rw [hstep, run_of_done (s'.phase_set_self j _) ((s'.phase_set_not j _).trans hother)]
        rfl
    · rw [editorStep_of_done hother] at hdone ⊢
      exact ih hdone

/-- One caller is done and the other has not started: it reads what the first wrote. -/
theorem run_of_start {s : Editors} {i : Bool} (hi : s.phase i = .start)
    (hother : s.phase (!i) = .done true) {schedule : List Bool}
    (hdone : BothDone (Runs.run (editorStep U a e edits io) s schedule)) :
    Edit.write U a e edits io s.db i (s.db.emailById a e) =
      some (Runs.run (editorStep U a e edits io) s schedule).db := by
  induction schedule with
  | nil =>
    have := hdone i
    rw [Runs.run_nil, hi] at this
    cases this
  | cons j schedule ih =>
    rw [Runs.run_cons] at hdone ⊢
    rcases eq_or_eq_not i j with rfl | rfl
    · have hstep : editorStep U a e edits io s j = s.set j (.read (s.db.emailById a e)) := by
        simp only [editorStep, hi]
      rw [hstep] at hdone ⊢
      exact run_of_read (Editors.phase_set_self ..) ((Editors.phase_set_not ..).trans hother) hdone
    · rw [editorStep_of_done hother] at hdone ⊢
      exact ih hdone

/-- A caller whose write failed never returns success. -/
theorem not_bothDone_of_failed {s : Editors} {i : Bool} (hi : s.phase i = .done false)
    (schedule : List Bool) : ¬BothDone (Runs.run (editorStep U a e edits io) s schedule) := by
  have hkeep : (Runs.run (editorStep U a e edits io) s schedule).phase i = .done false := by
    let I (s : Editors) : Prop := s.phase i = .done false
    refine Runs.run_invariant (I := I) (fun s j hs => ?_) schedule hi
    change s.phase i = _ at hs
    change (editorStep U a e edits io s j).phase i = _
    rcases eq_or_eq_not i j with rfl | rfl
    · rw [editorStep_of_done hs]
      exact hs
    · unfold editorStep
      split
      · rw [Editors.phase_set_not', hs]
      · split <;> rw [Editors.phase_set_not'] <;> exact hs
      · exact hs
  intro hdone
  have := hdone i
  rw [hkeep] at this
  cases this

/-- A write that has to succeed. -/
theorem editorStep_of_read {s : Editors} {i : Bool} {row : Option EmailRow}
    (hi : s.phase i = .read row) {schedule : List Bool}
    (hdone : BothDone (Runs.run (editorStep U a e edits io) s (i :: schedule))) :
    ∃ db', Edit.write U a e edits io s.db i row = some db' ∧
      editorStep U a e edits io s i = ({ s with db := db' } : Editors).set i (.done true) := by
  cases hw : Edit.write U a e edits io s.db i row with
  | none =>
    have hstep : editorStep U a e edits io s i = s.set i (.done false) := by
      simp only [editorStep, hi, hw]
    rw [Runs.run_cons, hstep] at hdone
    exact absurd hdone (not_bothDone_of_failed (s.phase_set_self i _) schedule)
  | some db' => exact ⟨db', rfl, by simp only [editorStep, hi, hw]⟩

/-- **The windows do not overlap**: the second caller reads what the first wrote. -/
theorem outcome_serial {db : MailDb} {i : Bool} {rest : List Bool}
    (hdone : BothDone (runEditors U a e edits io db (i :: i :: rest))) :
    ∃ db₁, Edit.write U a e edits io db i (db.emailById a e) = some db₁ ∧
      Edit.write U a e edits io db₁ (!i) (db₁.emailById a e) =
        some (runEditors U a e edits io db (i :: i :: rest)).db := by
  let s₁ : Editors := Editors.set ⟨db, fun _ => .start⟩ i (.read (db.emailById a e))
  have hrun : runEditors U a e edits io db (i :: i :: rest) =
      Runs.run (editorStep U a e edits io) s₁ (i :: rest) := rfl
  rw [hrun] at hdone ⊢
  obtain ⟨db₁, hw, hstep⟩ := editorStep_of_read (Editors.phase_set_self ..) hdone
  rw [Runs.run_cons, hstep] at hdone ⊢
  have hother : ({ s₁ with db := db₁ } : Editors).phase (!i) = .start := Editors.phase_set_not ..
  exact ⟨db₁, hw, run_of_start ((Editors.phase_set_not ..).trans hother)
    (by rw [Bool.not_not]; exact Editors.phase_set_self ..) hdone⟩

/-- **The windows overlap**: both callers start from the same row, and the second
write replaces what the first one wrote. -/
theorem outcome_overlap {db : MailDb} {i k : Bool} {rest : List Bool}
    (hdone : BothDone (runEditors U a e edits io db (i :: (!i) :: k :: rest))) :
    ∃ db₁, Edit.write U a e edits io db k (db.emailById a e) = some db₁ ∧
      Edit.write U a e edits io db₁ (!k) (db.emailById a e) =
        some (runEditors U a e edits io db (i :: (!i) :: k :: rest)).db := by
  let row := db.emailById a e
  let s₁ : Editors := Editors.set ⟨db, fun _ => .start⟩ i (.read row)
  let s₂ : Editors := s₁.set (!i) (.read row)
  have hstep₂ : editorStep U a e edits io s₁ (!i) = s₂ := by
    have hstart : s₁.phase (!i) = .start := Editors.phase_set_not ..
    simp only [editorStep, hstart]
    rfl
  have hrun : runEditors U a e edits io db (i :: (!i) :: k :: rest) =
      Runs.run (editorStep U a e edits io) s₂ (k :: rest) := by
    rw [← hstep₂]
    rfl
  have hread : ∀ l, s₂.phase l = .read row := by
    intro l
    rcases eq_or_eq_not i l with rfl | rfl
    · exact (Editors.phase_set_not' ..).trans (Editors.phase_set_self ..)
    · exact Editors.phase_set_self ..
  rw [hrun] at hdone ⊢
  obtain ⟨db₁, hw, hstep⟩ := editorStep_of_read (hread k) hdone
  rw [Runs.run_cons, hstep] at hdone ⊢
  have hother : ({ s₂ with db := db₁ } : Editors).phase (!k) = .read row := hread _
  exact ⟨db₁, hw, run_of_read ((Editors.phase_set_not ..).trans hother)
    (by rw [Bool.not_not]; exact Editors.phase_set_self ..) hdone⟩

/-- Both callers need two steps. -/
theorem exists_of_bothDone {db : MailDb} {schedule : List Bool}
    (hdone : BothDone (runEditors U a e edits io db schedule)) :
    ∃ i rest, schedule = i :: i :: rest ∨ ∃ k, schedule = i :: (!i) :: k :: rest := by
  match schedule, hdone with
  | [], hdone => exact nomatch hdone true
  | [i], hdone =>
    have : Editor.read _ = Editor.done true := (Editors.phase_set_self ..).symm.trans (hdone i)
    cases this
  | [i, j], hdone =>
    rcases eq_or_eq_not i j with rfl | rfl
    · exact ⟨j, [], Or.inl rfl⟩
    · have hstart : (Editors.set ⟨db, fun _ => .start⟩ i (.read (db.emailById a e))).phase (!i) =
          Editor.start := Editors.phase_set_not ..
      have hdone' := hdone (!i)
      change (editorStep U a e edits io (Editors.set ⟨db, fun _ => .start⟩ i
        (.read (db.emailById a e))) (!i)).phase (!i) = _ at hdone'
      rw [editorStep, hstart] at hdone'
      have : Editor.read _ = Editor.done true := (Editors.phase_set_self ..).symm.trans hdone'
      cases this
  | i :: j :: k :: rest, hdone =>
    rcases eq_or_eq_not i j with rfl | rfl
    · exact ⟨j, k :: rest, Or.inl rfl⟩
    · exact ⟨i, rest, Or.inr ⟨k, rfl⟩⟩

end Interleavings

/-! ## The condition -/

/-- In what the later write replaces, the earlier edit changed nothing. -/
def NothingToLose (U : Unicode) (earlier later : Edit) (db : MailDb) (e : EmailId) : Prop :=
  (later.keywordEntries U ≠ [] → KeywordsHold (earlier.keywordEntries U) (db.keywordsOf e)) ∧
    (later.mailboxEntries ≠ [] → MailboxesHold earlier.mailboxEntries (db.mailboxIdsOf e))

/-- The first caller is through before the other reads, or its edit has nothing to lose. -/
def NothingLost (U : Unicode) (edits : Bool → Edit) (db : MailDb) (e : EmailId) :
    List Bool → Prop
  | i :: j :: k :: _ => i = j ∨ NothingToLose U (edits k) (edits (!k)) db e
  | _ => True

section Main

variable {U : Unicode} {a : AccountId} {e : EmailId} {edits : Bool → Edit} {io : Bool → Io}
  {db : MailDb}

/-- What `Edit.Different` says of the caller `i` and the other one. -/
theorem different_spec (h : Edit.Different U (edits false) (edits true)) (i : Bool) :
    (((edits i).keywordEntries U).map (·.1)).Nodup ∧
      (namedMailboxes (edits i).mailboxEntries).Nodup ∧
      (∀ x ∈ (edits i).keywordEntries U, x.1 ∉ ((edits (!i)).keywordEntries U).map (·.1)) ∧
      ∀ m ∈ namedMailboxes (edits i).mailboxEntries,
        m ∉ namedMailboxes (edits (!i)).mailboxEntries := by
  obtain ⟨hk, hm⟩ := h
  rw [List.nodup_append] at hk hm
  cases i with
  | false =>
    exact ⟨hk.1, hm.1, fun x hx hc => hk.2.2 _ (List.mem_map_of_mem hx) _ hc rfl,
      fun m hm₁ hm₂ => hm.2.2 m hm₁ m hm₂ rfl⟩
  | true =>
    exact ⟨hk.2.1, hm.2.1, fun x hx hc => hk.2.2 _ hc _ (List.mem_map_of_mem hx) rfl,
      fun m hm₁ hm₂ => hm.2.2 m hm₂ m hm₁ rfl⟩

/-- A write of an existing email's row. -/
theorem written {db₀ db₁ db₂ : MailDb} {i : Bool} (h₀ : MailInv U db₀)
    (hp : ∀ i, (edits i).Pointwise) (hdiff : Edit.Different U (edits false) (edits true))
    (hw : Edit.write U a e edits io db₁ i (db₀.emailById a e) = some db₂) :
    ∃ row, row.keywords = db₀.keywordsOf e ∧ row.mailboxIds = db₀.mailboxIdsOf e ∧
      Written U (edits i) row db₁ db₂ e := by
  cases hrow : db₀.emailById a e with
  | none =>
    rw [hrow] at hw
    cases hw
  | some row =>
    rw [hrow] at hw
    obtain ⟨hk, hm, hlower⟩ := row_of_emailById h₀ hrow
    exact ⟨row, hk, hm, written_of_write (hp i) (different_spec hdiff i).1 hlower hw⟩

theorem mailInv_of_write {db₁ : MailDb} {i : Bool} {row : Option EmailRow} (h : MailInv U db)
    (hw : Edit.write U a e edits io db i row = some db₁) : MailInv U db₁ := by
  cases row with
  | none => cases hw
  | some row =>
    obtain ⟨_, _, -, -, heff⟩ := write_eq_some hw
    exact h.effect heff

/-- The later write `hw₂` keeps what the earlier edit stored, as far as it does not
replace it from an older row. -/
theorem holds_after {db₀ db₁ db₂ : MailDb} {k : Bool} (h₀ : MailInv U db₀)
    (hp : ∀ i, (edits i).Pointwise) (hdiff : Edit.Different U (edits false) (edits true))
    (hfirst : (edits k).Holds U db₁ e)
    (hw₂ : Edit.write U a e edits io db₁ (!k) (db₀.emailById a e) = some db₂) :
    (∀ i, (edits i).Holds U db₂ e) ↔ NothingToLose U (edits k) (edits (!k)) db₀ e := by
  obtain ⟨row, hkw, hmb, hwritten⟩ := written h₀ hp hdiff hw₂
  obtain ⟨-, -, hdisk, hdism⟩ := different_spec hdiff k
  obtain ⟨hkeys, hnamed, -, -⟩ := different_spec hdiff (!k)
  have hall : (∀ i, (edits i).Holds U db₂ e) ↔ (edits k).Holds U db₂ e := by
    refine ⟨fun hall => hall k, fun hk i => ?_⟩
    rcases eq_or_eq_not k i with rfl | rfl
    · exact hk
    · exact hwritten.holds hkeys hnamed
  rw [hall, Edit.Holds, hwritten.keywordsHold_iff hdisk, hwritten.mailboxesHold_iff hdism, hkw, hmb,
    NothingToLose]
  have hif : ∀ {c P Q : Prop} [Decidable c], P → ((if c then P else Q) ↔ (¬c → Q)) := by
    intro c P Q _ hP
    by_cases hc : c <;> simp [hc, hP]
  rw [hif hfirst.1, hif hfirst.2]

/-- **When both edits survive.** Two edits of different keywords and mailboxes of
one email, interleaved in any way from a reachable state, and both reported as done:
both effects are stored exactly if the windows did not overlap or the first write had
nothing to lose. -/
theorem bothHold_iff (hdb : Runs.Reachable (mailStep U) MailDb.empty db)
    (hp : ∀ i, (edits i).Pointwise) (hdiff : Edit.Different U (edits false) (edits true))
    {schedule : List Bool} (hdone : BothDone (runEditors U a e edits io db schedule)) :
    (∀ i, (edits i).Holds U (runEditors U a e edits io db schedule).db e) ↔
      NothingLost U edits db e schedule := by
  have h := MailInv.reachable hdb
  have hfirst : ∀ {k db₁}, Edit.write U a e edits io db k (db.emailById a e) = some db₁ →
      (edits k).Holds U db₁ e := by
    intro k db₁ hw
    obtain ⟨row, -, -, hwritten⟩ := written h hp hdiff hw
    exact hwritten.holds (different_spec hdiff k).1 (different_spec hdiff k).2.1
  obtain ⟨i, rest, rfl | ⟨k, rfl⟩⟩ := exists_of_bothDone hdone
  · obtain ⟨db₁, hw₁, hw₂⟩ := outcome_serial hdone
    have hserial : NothingLost U edits db e (i :: i :: rest) := by
      cases rest with
      | nil => trivial
      | cons k rest => exact Or.inl rfl
    refine iff_of_true ?_ hserial
    rw [holds_after (mailInv_of_write h hw₁) hp hdiff (hfirst hw₁) hw₂]
    exact ⟨fun _ => (hfirst hw₁).1, fun _ => (hfirst hw₁).2⟩
  · obtain ⟨db₁, hw₁, hw₂⟩ := outcome_overlap hdone
    rw [holds_after h hp hdiff (hfirst hw₁) hw₂]
    have hne : i ≠ !i := by cases i <;> decide
    exact ⟨Or.inr, fun hc => hc.resolve_left hne⟩

end Main

/-! ## Two keywords -/

/-- One message in the Inbox of a new account. -/
def oneMessage : MailDb := mailStep .ascii freshAccount (.ingest Io.ok firstMessage)

theorem reachable_oneMessage : Runs.Reachable (mailStep .ascii) MailDb.empty oneMessage :=
  reachable_freshAccount.next _

/-- A client marks the message as seen while the categorizer waits for its answer. -/
def seenAndCategory : Bool → Edit
  | false => .update ⟨[("keywords/$Seen", .bool true)], List.nodup_singleton _⟩
  | true => .categorize "personal"

theorem pointwise_seenAndCategory : ∀ i, (seenAndCategory i).Pointwise := by
  intro i
  cases i with
  | false =>
    intro entry hentry
    rw [List.mem_singleton.mp hentry]
    exact Or.inl ⟨"$Seen", by decide⟩
  | true => trivial

/-- One after the other, both keywords are stored. -/
theorem bothHold_seenAndCategory :
    ¬∃ i, ¬(seenAndCategory i).Holds .ascii
      (runEditors .ascii ⟨1⟩ ⟨100⟩ seenAndCategory (fun _ => Io.ok) oneMessage
        [true, true, false, false]).db ⟨100⟩ := by
  have hholds : ∀ i, (seenAndCategory i).Holds .ascii
      (runEditors .ascii ⟨1⟩ ⟨100⟩ seenAndCategory (fun _ => Io.ok) oneMessage
        [true, true, false, false]).db ⟨100⟩ :=
    (bothHold_iff reachable_oneMessage pointwise_seenAndCategory ⟨by decide, by decide⟩
      (fun i => by cases i <;> decide)).mpr (Or.inl rfl)
  rintro ⟨i, hnot⟩
  exact hnot (hholds i)

/-- The categorizer reads, the client reads and writes, the categorizer writes: both
report success and the message is not seen. -/
theorem not_bothHold_seenAndCategory :
    BothDone (runEditors .ascii ⟨1⟩ ⟨100⟩ seenAndCategory (fun _ => Io.ok) oneMessage
        [true, false, false, true]) ∧
      ¬∀ i, (seenAndCategory i).Holds .ascii
        (runEditors .ascii ⟨1⟩ ⟨100⟩ seenAndCategory (fun _ => Io.ok) oneMessage
          [true, false, false, true]).db ⟨100⟩ := by
  refine ⟨fun i => by cases i <;> decide, fun h => ?_⟩
  exact absurd (((h false).1 ("$seen", true) (by decide)).mpr rfl) (by decide)

end Owney
