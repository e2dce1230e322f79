import Mathlib.Data.List.Nodup
import Owney.EmailUpdate
import Owney.Get

/-!
# The ids of a get

`email_get` and `thread_get` parse the requested strings as UUIDs, fetch what these name, and put
a string under `notFound` when it is not the id of anything fetched, as printed. A UUID has many
spellings and a request may repeat one, so the two lists need not divide the request.

* `partition_iff` — they do exactly if each string that names something fetched is spelled as the
  server prints it and given once.
* `get_partition_iff` — this for `Email/get` and `Thread/get`.
-/

namespace Owney

/-- `FromStr` of a thread's id. -/
def ThreadId.parse (s : String) : Option ThreadId := (Uuid.parseStr s).map ThreadId.mk

namespace Jmap

/-! ## Requests and answers -/

/-- `GetArgs`. -/
structure GetArgs where
  accountId : String
  ids : Option (List String)
  properties : Option (List String)
  fetchTextBodyValues : Bool
  deriving DecidableEq, Repr

/-- What the methods take from elsewhere: the texts of storage errors, `{:?}` of a string, and
the object of an email, which is read from its row and its blob. -/
structure MailCrates where
  storageText : StorageError → String
  debug : String → String
  /-- `email_json` -/
  emailJson : EmailRow → Bool → Except MethodError Value

/-- What the storage calls of a method find: the tables at the read of the rows and at the read
of the state, or an error. -/
structure GetReads where
  rows : Except StorageError MailDb
  state : Except StorageError MailDb

/-- The answer: each object with the id it was fetched by. -/
structure GetAnswer (κ ν : Type) where
  accountId : String
  state : ModSeq
  list : List (κ × ν)
  notFound : List String

/-- `Subset::from_list("Email", …)`: what it allows. -/
def emailProperties : List String :=
  ["id", "blobId", "threadId", "mailboxIds", "keywords", "size", "receivedAt", "sender", "from",
    "to", "cc", "bcc", "replyTo", "subject", "messageId", "inReplyTo", "snippet", "bodyValues",
    "textBody", "htmlBody", "attachments", "hasAttachment", "preview", "sentAt", "authResults",
    "pgpStatus", "chatMode", "serverAttributes"]

section Methods

variable (C : MailCrates) (session : AccountId) (reads : GetReads)

/-- `storage_err` of `lib.rs`. -/
def mailStorageErr {α : Type} (x : Except StorageError α) : Except MethodError α :=
  x.mapError fun e => .serverFail (C.storageText e)

/-- `check_account`. -/
def checkSession (accountId : String) : Except MethodError Unit :=
  if accountId = session.uuid.toString then .ok () else .error .accountNotFound

/-- The ids of a request, which are required. -/
def requestedIds (method : String) (ids : Option (List String)) :
    Except MethodError (List String) :=
  match ids with
  | some ids => .ok ids
  | none => .error (.invalidArguments (method ++ " requires ids"))

/-- `Subset::from_list` for emails. -/
def subsetOf : Option (List String) → Except MethodError (Option (List String))
  | none => .ok none
  | some requested =>
    match requested.find? (· ∉ emailProperties) with
    | some prop =>
      .error (.invalidArguments ("unknown property " ++ C.debug prop ++ " in Email/get"))
    | none => .ok (some requested)

/-- `project`. -/
def project (subset : Option (List String)) (full : Members) : Members :=
  match subset with
  | some requested => full.filter fun m => m.1 ∈ requested
  | none => full

/-- One round of the loop of `email_get`. -/
def emailObject (args : GetArgs) (subset : Option (List String)) (row : EmailRow) :
    Except MethodError (EmailId × Members) := do
  match ← C.emailJson row args.fetchTextBodyValues with
  | .object full => .ok (row.id, project subset full)
  | _ => .error (.invalidArguments "internal: email not object")

/-- `email_get`. -/
def emailGetMethod (args : GetArgs) : Except MethodError (GetAnswer EmailId Members) := do
  checkSession session args.accountId
  let ids ← requestedIds "Email/get" args.ids
  let parsedIds := ids.filterMap EmailId.parse
  let subset ← subsetOf C args.properties
  let db ← mailStorageErr C reads.rows
  let rows := db.emailsByIds session parsedIds
  let stateDb ← mailStorageErr C reads.state
  let list ← rows.mapM (emailObject C args subset)
  return {
    accountId := args.accountId
    state := stateDb.modseq session .email
    list
    notFound := ids.filter fun id => ¬rows.any (·.id.uuid.toString = id) }

/-- `thread_get`. -/
def threadGetMethod (args : GetArgs) : Except MethodError (GetAnswer ThreadId (List EmailId)) := do
  checkSession session args.accountId
  let ids ← requestedIds "Thread/get" args.ids
  let threadIds := ids.filterMap ThreadId.parse
  let db ← mailStorageErr C reads.rows
  let threads := db.threadEmails session threadIds
  let stateDb ← mailStorageErr C reads.state
  return {
    accountId := args.accountId
    state := stateDb.modseq session .thread
    list := threads
    notFound := ids.filter fun id => ¬threads.any (·.1.uuid.toString = id) }

end Methods

/-! ## Dividing a request -/

/-- The two lists divide the request: no object twice, and each string either denotes one object
or was not found. -/
structure Divides {κ : Type} (parse : String → Option κ) (requested : List String) (list : List κ)
    (notFound : List String) : Prop where
  distinct : list.Nodup
  either : ∀ s ∈ requested,
    (∃! k, k ∈ list ∧ parse s = some k) ∧ s ∉ notFound ∨
      (∀ k ∈ list, parse s ≠ some k) ∧ s ∈ notFound

section Division

variable {κ : Type} (parse : String → Option κ) (print : κ → String) (found : κ → Bool)

/-- The ids of what is found for a request. -/
def foundIds (requested : List String) : List κ := (requested.filterMap parse).filter found

/-- The strings that nothing found prints as. -/
def missing (requested : List String) : List String :=
  requested.filter fun s => ¬(foundIds parse found requested).any (print · = s)

variable {parse print found} {requested : List String}

theorem mem_foundIds {k : κ} :
    k ∈ foundIds parse found requested ↔ (∃ s ∈ requested, parse s = some k) ∧ found k := by
  rw [foundIds, List.mem_filter, List.mem_filterMap]

theorem mem_missing {s : String} : s ∈ missing parse print found requested ↔
    s ∈ requested ∧ ∀ k ∈ foundIds parse found requested, print k ≠ s := by
  simp [missing]

/-- The found ids in one walk. -/
theorem foundIds_eq :
    foundIds parse found requested = requested.filterMap fun s => (parse s).filter found := by
  rw [foundIds, List.filter_filterMap]

/-- A string that is given twice names its object twice. -/
theorem count_le_one (hdistinct : (foundIds parse found requested).Nodup) {s : String} {k : κ}
    (hparse : parse s = some k) (hfound : found k) : requested.count s ≤ 1 := by
  by_contra hmany
  have htwice : (List.replicate 2 s).Sublist requested := List.replicate_sublist_iff.mpr (by omega)
  have hlist : (foundIds parse found (List.replicate 2 s)).Sublist
      (foundIds parse found requested) := (htwice.filterMap parse).filter found
  have hsame : foundIds parse found (List.replicate 2 s) = [k, k] := by
    simp [foundIds, List.replicate, hparse, hfound]
  rw [hsame] at hlist
  exact absurd (hdistinct.sublist hlist) (by simp)

/-- Strings that are given once and printed as their objects name no object twice. -/
theorem nodup_foundIds (h : ∀ s ∈ requested, ∀ k, parse s = some k → found k →
    s = print k ∧ requested.count s = 1) : (foundIds parse found requested).Nodup := by
  rw [foundIds_eq, List.Nodup, List.pairwise_filterMap, List.pairwise_iff_forall_sublist]
  intro s s' hsub k hk k' hk' he
  subst he
  obtain ⟨hparse, hfound⟩ := Option.filter_eq_some_iff.mp hk
  obtain ⟨hparse', -⟩ := Option.filter_eq_some_iff.mp hk'
  obtain ⟨hs, hcount⟩ := h s (hsub.subset (by simp)) k hparse hfound
  obtain ⟨hs', -⟩ := h s' (hsub.subset (by simp)) k hparse' hfound
  rw [hs'.trans hs.symm] at hsub
  have htwice := List.replicate_sublist_iff (n := 2).mp hsub
  omega

/-- **When a request is divided.** -/
theorem partition_iff (hprint : ∀ k, parse (print k) = some k) :
    Divides parse requested (foundIds parse found requested) (missing parse print found requested) ↔
      ∀ s ∈ requested, ∀ k, parse s = some k → found k →
        s = print k ∧ requested.count s = 1 := by
  constructor
  · intro h s hs k hparse hfound
    have hmem : k ∈ foundIds parse found requested := mem_foundIds.mpr ⟨⟨s, hs, hparse⟩, hfound⟩
    refine ⟨?_, Nat.le_antisymm (count_le_one h.distinct hparse hfound) ?_⟩
    · rcases h.either s hs with ⟨-, hnot⟩ | ⟨hnone, -⟩
      · -- what is not missing is printed by something found, which is what it names
        have hprinted : ∃ k' ∈ foundIds parse found requested, print k' = s := by
          by_contra hno
          exact hnot (mem_missing.mpr ⟨hs, fun k' hk' he => hno ⟨k', hk', he⟩⟩)
        obtain ⟨k', -, rfl⟩ := hprinted
        rw [Option.some.inj ((hprint k').symm.trans hparse)]
      · exact absurd hparse (hnone k hmem)
    · exact List.count_pos_iff.mpr hs
  · intro h
    refine ⟨nodup_foundIds h, fun s hs => ?_⟩
    by_cases hany : ∃ k ∈ foundIds parse found requested, parse s = some k
    · obtain ⟨k, hk, hparse⟩ := hany
      obtain ⟨hs', -⟩ := h s hs k hparse (mem_foundIds.mp hk).2
      refine .inl ⟨⟨k, ⟨hk, hparse⟩, fun k' hk' => ?_⟩, fun hmiss => ?_⟩
      · exact Option.some.inj (hk'.2.symm.trans hparse)
      · exact (mem_missing.mp hmiss).2 k hk hs'.symm
    · have hnone : ∀ k ∈ foundIds parse found requested, parse s ≠ some k :=
        fun k hk hparse => hany ⟨k, hk, hparse⟩
      refine .inr ⟨hnone, mem_missing.mpr ⟨hs, fun k hk he => hnone k hk ?_⟩⟩
      rw [← he, hprint]

end Division

/-! ## The methods -/

section Gets

variable {C : MailCrates} {session : AccountId} {reads : GetReads} {args : GetArgs}

theorem parse_toString_email (e : EmailId) : EmailId.parse e.uuid.toString = some e := by
  rw [EmailId.parse, Uuid.parseStr_toString, Option.map_some]

theorem parse_toString_thread (t : ThreadId) : ThreadId.parse t.uuid.toString = some t := by
  rw [ThreadId.parse, Uuid.parseStr_toString, Option.map_some]

/-- Fetching what is there keeps the ids of what is there. -/
theorem map_filterMap_eq_filter {κ ν : Type} {f : κ → Option ν} {g : ν → κ}
    (hg : ∀ k v, f k = some v → g v = k) (ks : List κ) :
    (ks.filterMap f).map g = ks.filter fun k => (f k).isSome := by
  induction ks with
  | nil => rfl
  | cons k ks ih =>
    rcases hf : f k with _ | v
    · rw [List.filterMap_cons_none hf, ih, List.filter_cons_of_neg (by simp [hf])]
    · rw [List.filterMap_cons_some hf, List.map_cons, ih, hg k v hf,
        List.filter_cons_of_pos (by simp [hf])]

theorem emailsByIds_ids (db : MailDb) (ids : List String) :
    (db.emailsByIds session (ids.filterMap EmailId.parse)).map (·.id) =
      foundIds EmailId.parse (fun e => (db.emailById session e).isSome) ids :=
  map_filterMap_eq_filter (fun _ _ => id_of_emailById) _

theorem threadEmails_ids (db : MailDb) (ids : List String) :
    (db.threadEmails session (ids.filterMap ThreadId.parse)).map (·.1) =
      foundIds ThreadId.parse (fun t => (db.threadContents session t).isSome) ids := by
  have hthreads : ∀ ts, db.threadEmails session ts =
      ts.filterMap fun t => (db.threadContents session t).map (t, ·) := by
    intro ts
    refine congrArg (List.filterMap · ts) (funext fun t => ?_)
    rw [MailDb.threadContents]
    rcases db.threadEmailIds session t with _ | ⟨e, es⟩ <;> rfl
  rw [hthreads, map_filterMap_eq_filter]
  · simp only [Option.isSome_map]
    rfl
  · intro t x hx
    obtain ⟨es, -, rfl⟩ := Option.map_eq_some_iff.mp hx
    rfl

/-- The strings that no fetched id prints as. -/
theorem filter_any_eq_missing {κ ν : Type} {parse : String → Option κ} {print : κ → String}
    {found : κ → Bool} {requested : List String} {rows : List ν} {g : ν → κ}
    (h : rows.map g = foundIds parse found requested) :
    (requested.filter fun s => ¬rows.any fun row => print (g row) = s) =
      missing parse print found requested := by
  rw [missing, ← h]
  simp only [List.any_map]
  rfl

theorem bind_eq_ok {ε α β : Type} {x : Except ε α} {f : α → Except ε β} {b : β} :
    (x >>= f) = .ok b ↔ ∃ a, x = .ok a ∧ f a = .ok b := by
  cases x with
  | error e => simp [bind, Except.bind]
  | ok a => simp [bind, Except.bind]

theorem mailStorageErr_eq_ok {α : Type} {x : Except StorageError α} {a : α} :
    mailStorageErr C x = .ok a ↔ x = .ok a := by
  cases x with
  | error e => simp [mailStorageErr, Except.mapError]
  | ok a' => simp [mailStorageErr, Except.mapError]

theorem requestedIds_eq_ok {method : String} {ids : Option (List String)} {ids' : List String} :
    requestedIds method ids = .ok ids' ↔ ids = some ids' := by
  cases ids with
  | none => simp [requestedIds]
  | some ids => simp [requestedIds]

/-- The list has an object for each row. -/
theorem emailObjects_ids {subset : Option (List String)} {rows : List EmailRow}
    {list : List (EmailId × Members)} (h : rows.mapM (emailObject C args subset) = .ok list) :
    list.map (·.1) = rows.map (·.id) := by
  induction rows generalizing list with
  | nil =>
    rw [List.mapM_nil] at h
    cases h
    rfl
  | cons row rows ih =>
    rw [List.mapM_cons] at h
    obtain ⟨object, hobject, h⟩ := bind_eq_ok.mp h
    obtain ⟨objects, hobjects, h⟩ := bind_eq_ok.mp h
    cases h
    rw [List.map_cons, List.map_cons, ih hobjects]
    obtain ⟨value, -, hvalue⟩ := bind_eq_ok.mp hobject
    cases value <;> cases hvalue
    rfl

/-- What an answer of `email_get` is made of. -/
theorem emailGet_eq_ok {answer : GetAnswer EmailId Members}
    (h : emailGetMethod C session reads args = .ok answer) :
    ∃ ids db, args.ids = some ids ∧ reads.rows = .ok db ∧
      answer.list.map (·.1) =
        foundIds EmailId.parse (fun e => (db.emailById session e).isSome) ids ∧
      answer.notFound = missing EmailId.parse (·.uuid.toString)
        (fun e => (db.emailById session e).isSome) ids := by
  obtain ⟨_, -, h⟩ := bind_eq_ok.mp h
  obtain ⟨ids, hids, h⟩ := bind_eq_ok.mp h
  obtain ⟨subset, -, h⟩ := bind_eq_ok.mp h
  obtain ⟨db, hdb, h⟩ := bind_eq_ok.mp h
  obtain ⟨stateDb, -, h⟩ := bind_eq_ok.mp h
  obtain ⟨list, hlist, h⟩ := bind_eq_ok.mp h
  cases h
  refine ⟨ids, db, requestedIds_eq_ok.mp hids, mailStorageErr_eq_ok.mp hdb, ?_, ?_⟩
  · rw [emailObjects_ids hlist, emailsByIds_ids]
  · exact @filter_any_eq_missing EmailId EmailRow EmailId.parse (·.uuid.toString) _ ids _ (·.id)
      (emailsByIds_ids db ids)

theorem threadGet_eq_ok {answer : GetAnswer ThreadId (List EmailId)}
    (h : threadGetMethod C session reads args = .ok answer) :
    ∃ ids db, args.ids = some ids ∧ reads.rows = .ok db ∧
      answer.list.map (·.1) =
        foundIds ThreadId.parse (fun t => (db.threadContents session t).isSome) ids ∧
      answer.notFound = missing ThreadId.parse (·.uuid.toString)
        (fun t => (db.threadContents session t).isSome) ids := by
  obtain ⟨_, -, h⟩ := bind_eq_ok.mp h
  obtain ⟨ids, hids, h⟩ := bind_eq_ok.mp h
  obtain ⟨db, hdb, h⟩ := bind_eq_ok.mp h
  obtain ⟨stateDb, -, h⟩ := bind_eq_ok.mp h
  cases h
  exact ⟨ids, db, requestedIds_eq_ok.mp hids, mailStorageErr_eq_ok.mp hdb, threadEmails_ids db ids,
    @filter_any_eq_missing ThreadId (ThreadId × List EmailId) ThreadId.parse (·.uuid.toString) _ ids
      _ (·.1) (threadEmails_ids db ids)⟩

/-- Each string of a request that names something the account has is spelled as the server prints
it, and given once. -/
def Canonical {κ : Type} (parse : String → Option κ) (print : κ → String) (has : κ → Prop)
    (requested : List String) : Prop :=
  ∀ s ∈ requested, ∀ k, parse s = some k → has k → s = print k ∧ requested.count s = 1

/-- **Dividing the ids of a get.** An answer of `Email/get` or `Thread/get` divides the request
exactly if the emails, or the threads with emails, of the account that it names are each named
once, as they are printed. -/
theorem get_partition_iff (C : MailCrates) (session : AccountId) (reads : GetReads)
    (args : GetArgs) :
    (∀ answer, emailGetMethod C session reads args = .ok answer →
      ∃ ids db, args.ids = some ids ∧ reads.rows = .ok db ∧
        (Divides EmailId.parse ids (answer.list.map (·.1)) answer.notFound ↔
          Canonical EmailId.parse (·.uuid.toString) (db.emailById session · ≠ none) ids)) ∧
    (∀ answer, threadGetMethod C session reads args = .ok answer →
      ∃ ids db, args.ids = some ids ∧ reads.rows = .ok db ∧
        (Divides ThreadId.parse ids (answer.list.map (·.1)) answer.notFound ↔
          Canonical ThreadId.parse (·.uuid.toString) (db.threadEmailIds session · ≠ []) ids)) := by
  constructor
  · intro answer h
    obtain ⟨ids, db, hids, hdb, hlist, hmissing⟩ := emailGet_eq_ok h
    refine ⟨ids, db, hids, hdb, ?_⟩
    rw [hlist, hmissing, partition_iff parse_toString_email]
    simp only [Canonical, ne_eq, Option.isSome_iff_ne_none]
  · intro answer h
    obtain ⟨ids, db, hids, hdb, hlist, hmissing⟩ := threadGet_eq_ok h
    refine ⟨ids, db, hids, hdb, ?_⟩
    have hcontents : ∀ t, (db.threadContents session t).isSome = true ↔
        db.threadEmailIds session t ≠ [] := by
      intro t
      rw [MailDb.threadContents]
      rcases db.threadEmailIds session t with _ | ⟨e, es⟩ <;> simp
    rw [hlist, hmissing, partition_iff parse_toString_thread]
    simp only [Canonical, hcontents]

/-! ### Spellings -/

/-- Crates that show an email as its id. -/
def plainMail : MailCrates where
  storageText _ := "storage error"
  debug s := s
  emailJson row _ := .ok (.object [("id", .string row.id.uuid.toString)])

/-- Alice's tables, with one email. -/
def oneEmail : GetReads := ⟨.ok (tablesAt .ascii seenRun 3), .ok (tablesAt .ascii seenRun 3)⟩

/-- Alice asks for these ids. -/
def askFor (ids : List String) : GetArgs :=
  ⟨"00000000-0000-0000-0000-000000000001", some ids, none, false⟩

/-- The email as it is printed, and garbage: one is in the list, the other was not found. -/
theorem divides_printed : ∃ answer,
    emailGetMethod plainMail ⟨1⟩ oneEmail
      (askFor ["00000000-0000-0000-0000-000000000064", "garbage"]) = .ok answer ∧
    Divides EmailId.parse ["00000000-0000-0000-0000-000000000064", "garbage"]
      (answer.list.map (·.1)) answer.notFound := by
  refine ⟨_, rfl, ?_⟩
  obtain ⟨ids, db, hids, hdb, hiff⟩ := (get_partition_iff plainMail ⟨1⟩ oneEmail
    (askFor ["00000000-0000-0000-0000-000000000064", "garbage"])).1 _ rfl
  cases hids
  refine hiff.mpr ?_
  have hprinted : EmailId.parse "00000000-0000-0000-0000-000000000064" = some ⟨100⟩ := by
    decide +kernel
  have hgarbage : EmailId.parse "garbage" = none := by decide +kernel
  intro s hs e he _
  rcases List.mem_cons.mp hs with rfl | hs
  · obtain rfl := Option.some.inj (hprinted.symm.trans he)
    exact ⟨by decide +kernel, by decide +kernel⟩
  · rw [List.mem_singleton.mp hs, hgarbage] at he
    cases he

/-- Without its hyphens the email is in the list, and was not found. -/
theorem not_divides_simple :
    ¬∀ C session reads args answer, emailGetMethod C session reads args = .ok answer →
      ∀ ids, args.ids = some ids →
        Divides EmailId.parse ids (answer.list.map (·.1)) answer.notFound := by
  intro h
  have hdivides := h plainMail ⟨1⟩ oneEmail (askFor ["00000000000000000000000000000064"]) _ rfl _
    rfl
  rcases hdivides.either _ (List.mem_singleton_self _) with ⟨-, hnot⟩ | ⟨hnone, -⟩
  · exact hnot (by decide +kernel)
  · exact hnone ⟨100⟩ (by decide +kernel) (by decide +kernel)

end Gets

end Jmap

end Owney
