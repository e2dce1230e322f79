import Owney.Modseq

/-!
# `Foo/get` next to a writer

`email_get`, `mailbox_get` and `thread_get` read the rows in one storage call and
the state in the next (and `email_get` the attributes of each row in further
ones), so a writer's calls fall between them. The writer's run is one list of
calls; the handler's calls are positions in it.

`ToldOfAll` is what a client relies on: whatever differs now from the answer is
listed by `Foo/changes` from the answer's state. `toldOfAll` gives conditions on
the writer's calls under which it holds: above all, that none of them changes a
requested object between the read of the rows and the read of the state.
-/

namespace Owney

open Tables

/-! ## The handlers -/

/-- What a `Foo/get` returns. -/
structure GetResult (κ ν : Type) where
  list : List (κ × ν)
  notFound : List κ
  state : ModSeq

/-- `mailbox_json`: a mailbox as the client sees it. -/
structure MailboxObject where
  id : MailboxId
  name : String
  parentId : Option MailboxId
  role : Option String
  sortOrder : ℤ
  totalEmails : ℕ
  unreadEmails : ℕ
  deriving DecidableEq, Repr

/-- `mailbox_json`. -/
def mailboxJson (m : MailboxRow) : MailboxObject :=
  ⟨m.id, m.name, m.parentId, m.role, m.sortOrder, m.totalEmails, m.unreadEmails⟩

/-- The row of one mailbox among those of the account. -/
def MailDb.mailboxRow (db : MailDb) (a : AccountId) (m : MailboxId) : Option MailboxRow :=
  (db.mailboxRows a).find? (·.id = m)

/-- The contents of one mailbox of the account. -/
def MailDb.mailboxContents (db : MailDb) (a : AccountId) (m : MailboxId) : Option MailboxObject :=
  (db.mailboxRow a m).map mailboxJson

/-- The contents of one thread of the account; a thread without emails is not shown. -/
def MailDb.threadContents (db : MailDb) (a : AccountId) (t : ThreadId) : Option (List EmailId) :=
  match db.threadEmailIds a t with
  | [] => none
  | ids => some ids

section Handlers

variable {J : Type} (R : JsonReader J) (U : Unicode) (ops : List MailOp) (a : AccountId)

/-- The tables after the first `n` calls of the writer. -/
def tablesAt (n : ℕ) : MailDb := Runs.run (mailStep U) .empty (ops.take n)

/-- The writer's calls from position `i` to position `j`. -/
def between (i j : ℕ) : List MailOp := (ops.take j).drop i

/-- `email_get`: rows at position `r`, state at `s`, the attributes of the `i`-th row
(`email_json`) at `attr i`. -/
def emailGet (ids : List EmailId) (r s : ℕ) (attr : ℕ → ℕ) :
    GetResult EmailId (EmailObject J) :=
  let rows := (tablesAt U ops r).emailsByIds a ids
  { list := rows.zipIdx.map fun x =>
      (x.1.id, emailJson R x.1 ((tablesAt U ops (attr x.2)).listEmailAttributes a x.1.id))
    notFound := ids.filter fun e => ¬rows.any (·.id = e)
    state := (tablesAt U ops s).modseq a .email }

/-- The ids a `Mailbox/get` is about: all the account's if none are given. -/
def mailboxGetIds (ids : Option (List MailboxId)) (r : ℕ) : List MailboxId :=
  ids.getD (((tablesAt U ops r).mailboxRows a).map (·.id))

/-- `mailbox_get`: rows at position `r`, state at `s`. -/
def mailboxGet (ids : Option (List MailboxId)) (r s : ℕ) : GetResult MailboxId MailboxObject :=
  let db := tablesAt U ops r
  match ids with
  | none =>
    { list := (db.mailboxRows a).map fun m => (m.id, mailboxJson m)
      notFound := []
      state := (tablesAt U ops s).modseq a .mailbox }
  | some ids =>
    { list := ids.filterMap fun m => (db.mailboxContents a m).map (m, ·)
      notFound := ids.filter fun m => (db.mailboxRow a m).isNone
      state := (tablesAt U ops s).modseq a .mailbox }

/-- `thread_get`: rows at position `r`, state at `s`. -/
def threadGet (ids : List ThreadId) (r s : ℕ) : GetResult ThreadId (List EmailId) :=
  let threads := (tablesAt U ops r).threadEmails a ids
  { list := threads
    notFound := ids.filter fun t => ¬threads.any (·.1 = t)
    state := (tablesAt U ops s).modseq a .thread }

end Handlers

/-! ## What the client relies on -/

/-- Every object of the answer that is different now, and every id that was not
found and is there now, is listed from the answer's state. -/
def ToldOfAll {κ ν : Type} (checked : Bool) (now : MailDb) (a : AccountId) (t : DataType)
    (contents : κ → Option ν) (uuid : κ → Uuid) (answer : GetResult κ ν) : Prop :=
  (∀ x ∈ answer.list, contents x.1 ≠ some x.2 → Listed checked now a t answer.state (uuid x.1)) ∧
    ∀ k ∈ answer.notFound, contents k ≠ none → Listed checked now a t answer.state (uuid k)

section Conditions

variable {J : Type} (R : JsonReader J) (U : Unicode) (ops : List MailOp) (a : AccountId)

/-- The calls from `i` to `j` leave what the client sees of the objects alone. -/
def Quiet {κ ν : Type} (contents : MailDb → κ → Option ν) (keys : List κ) (i j : ℕ) : Prop :=
  Runs.Meets (mailStep U) (fun db op => ∀ k ∈ keys, contents (mailStep U db op) k = contents db k)
    (tablesAt U ops i) (between ops i j)

/-- The calls from `i` to `j` give none of the emails a new PGP status. -/
def PgpQuiet (ids : List EmailId) (i j : ℕ) : Prop :=
  Runs.Meets (mailStep U) (fun db op => ∀ e ∈ ids,
      ¬(ChangesPgp R db op ∧ (mailStep U db op).emailContents R a e ≠ db.emailContents R a e))
    (tablesAt U ops i) (between ops i j)

end Conditions

/-! ## Lemmas -/

section Lemmas

variable {J : Type} {R : JsonReader J} {U : Unicode} {checked : Bool} {ops : List MailOp}
  {a : AccountId} {db : MailDb}
  {i j n r s : ℕ}

theorem mailInv_tablesAt (U : Unicode) (ops : List MailOp) (n : ℕ) : MailInv U (tablesAt U ops n) :=
  MailInv.empty.run _

/-- Later tables are reached from earlier ones by the calls between. -/
theorem run_between (hij : i ≤ j) :
    Runs.run (mailStep U) (tablesAt U ops i) (between ops i j) = tablesAt U ops j := by
  have htake : ops.take i = (ops.take j).take i := by rw [List.take_take, Nat.min_eq_left hij]
  rw [tablesAt, tablesAt, between, ← Runs.run_append, htake, List.take_append_drop]

theorem between_append (hij : i ≤ j) (hjn : j ≤ n) :
    between ops i n = between ops i j ++ between ops j n := by
  by_cases hi : i ≤ ops.length
  · have hle : i ≤ (ops.take j).length := by rw [List.length_take]; omega
    have htake : ops.take j = (ops.take n).take j := by rw [List.take_take, Nat.min_eq_left hjn]
    calc between ops i n = (ops.take j ++ (ops.take n).drop j).drop i := by
          rw [htake, List.take_append_drop, between]
      _ = between ops i j ++ between ops j n := List.drop_append_of_le_length hle
  · have hnil : ∀ l, i ≤ l → ops.drop l = [] := fun l hl => List.drop_eq_nil_of_le (by omega)
    simp only [between, List.drop_take, hnil i le_rfl, hnil j hij, List.take_nil, List.append_nil]

/-- Quiet calls change nothing. -/
theorem Quiet.eq {κ ν : Type} {contents : MailDb → κ → Option ν} {keys : List κ}
    (h : Quiet U ops contents keys i j) (hij : i ≤ j) {k : κ} (hk : k ∈ keys) :
    contents (tablesAt U ops j) k = contents (tablesAt U ops i) k := by
  by_contra hne
  rw [← run_between hij] at hne
  obtain ⟨pre, op, post, hops, hne'⟩ := Runs.exists_step_of_run_ne (contents · k) hne
  exact hne' (Runs.meets_iff.mp h pre op post hops k hk)

/-- What changes after the read of the state is listed, if each call that changes
it stamps its row. -/
theorem listed_after {γ : Type*} {c : MailDb → γ} {C : MailDb → MailOp → Prop} {t : DataType}
    {id : Uuid} (hstep : ∀ db op, MailInv U db → C db op → c (mailStep U db op) ≠ c db →
      Stamped db (mailStep U db op) a t id)
    (ht : t ≠ .emailSubmission)
    (hC : Runs.Meets (mailStep U) C (tablesAt U ops s) (between ops s n)) (hsj : s ≤ j)
    (hjn : j ≤ n) (hne : c (tablesAt U ops j) ≠ c (tablesAt U ops s)) :
    Listed checked (tablesAt U ops n) a t ((tablesAt U ops s).modseq a t) id := by
  rw [between_append hsj hjn] at hC
  rw [← run_between hsj] at hne
  rw [← run_between (hsj.trans hjn), between_append hsj hjn]
  exact listed_of_run_ne hstep ht (mailInv_tablesAt U ops s) (Runs.Meets.append.mp hC).1 le_rfl hne

/-! ### Emails -/

theorem id_of_emailById {db : MailDb} {e : EmailId} {row : EmailRow}
    (h : db.emailById a e = some row) : row.id = e := by
  obtain ⟨r, hr, rfl⟩ := Option.map_eq_some_iff.mp h
  have := List.find?_some hr
  simp only [decide_eq_true_eq] at this
  exact this.2

theorem email_listed_after {ids : List EmailId} {e : EmailId} (he : e ∈ ids)
    (hpgp : PgpQuiet R U ops a ids s n) (hsj : s ≤ j) (hjn : j ≤ n)
    (hne : (tablesAt U ops j).emailContents R a e ≠ (tablesAt U ops s).emailContents R a e) :
    Listed checked (tablesAt U ops n) a .email ((tablesAt U ops s).modseq a .email) e.uuid := by
  refine listed_after (c := (·.emailContents R a e)) (fun db op h hC hc => ?_) (by decide) hpgp hsj
    hjn hne
  exact (emailContents_step h hc).resolve_right fun hp => hC e he ⟨hp, hc⟩

/-- `email_get`: the rows are as old as the state, the attributes are younger. -/
theorem emailGet_told {ids : List EmailId} {attr : ℕ → ℕ} (hrs : r ≤ s) (hsn : s ≤ n)
    (hattr : ∀ i, s ≤ attr i ∧ attr i ≤ n)
    (hquiet : Quiet U ops (fun db e => db.emailContents R a e) ids r s)
    (hpgp : PgpQuiet R U ops a ids s n) :
    ToldOfAll checked (tablesAt U ops n) a .email (fun e => (tablesAt U ops n).emailContents R a e)
      EmailId.uuid (emailGet R U ops a ids r s attr) := by
  constructor
  · intro x hx hne
    obtain ⟨⟨row, i⟩, hrow, rfl⟩ := List.mem_map.mp hx
    obtain ⟨e, he, hfound⟩ := List.mem_filterMap.mp (List.fst_mem_of_mem_zipIdx hrow)
    obtain rfl := id_of_emailById hfound
    by_contra hnot
    -- nothing about the email changes from the read of the state on
    have hsame : ∀ j, s ≤ j → j ≤ n →
        (tablesAt U ops j).emailContents R a row.id = (tablesAt U ops s).emailContents R a row.id :=
      fun j hsj hjn => by_contra fun hc => hnot (email_listed_after he hpgp hsj hjn hc)
    have hs := hquiet.eq hrs he
    have hread : (tablesAt U ops r).emailContents R a row.id =
        some (emailJson R row ((tablesAt U ops r).listEmailAttributes a row.id)) := by
      rw [MailDb.emailContents, hfound]
      rfl
    have hlater : (tablesAt U ops (attr i)).emailContents R a row.id =
        some (emailJson R row ((tablesAt U ops r).listEmailAttributes a row.id)) := by
      rw [hsame _ (hattr i).1 (hattr i).2, hs, hread]
    obtain ⟨row', -, heq⟩ := Option.map_eq_some_iff.mp hlater
    have hattributes := congrArg EmailObject.serverAttributes heq
    refine hne ?_
    change (tablesAt U ops n).emailContents R a row.id =
      some (emailJson R row ((tablesAt U ops (attr i)).listEmailAttributes a row.id))
    rw [hsame n hsn le_rfl, hs, hread]
    simp only [emailJson] at hattributes ⊢
    rw [hattributes]
  · intro e he hne
    obtain ⟨he, hnone⟩ := List.mem_filter.mp he
    have hread : (tablesAt U ops r).emailContents R a e = none := by
      rw [MailDb.emailContents, Option.map_eq_none_iff]
      by_contra hc
      obtain ⟨row, hrow⟩ := Option.ne_none_iff_exists'.mp hc
      exact of_decide_eq_true hnone (List.any_eq_true.mpr
        ⟨row, List.mem_filterMap.mpr ⟨e, he, hrow⟩, decide_eq_true (id_of_emailById hrow)⟩)
    refine email_listed_after he hpgp hsn le_rfl ?_
    rw [hquiet.eq hrs he, hread]
    exact hne

/-! ### Mailboxes -/

theorem mailboxContents_of_mem {db : MailDb} (h : MailInv U db) {m : MailboxRow}
    (hm : m ∈ db.mailboxRows a) : db.mailboxContents a m.id = some (mailboxJson m) := by
  have hkeys : ((db.mailboxes.map (·.id)).map MailboxId.uuid).Nodup := by
    rw [List.map_map]
    exact MailDb.ids_mailbox db ▸ h.keys .mailbox
  have hnd : ((db.mailboxRows a).map (·.id)).Nodup := by
    have hids : (db.mailboxRows a).map (·.id) =
        (orderBy (fun r => toLex (r.sortOrder, r.name))
          (db.mailboxes.filter (·.accountId = a))).map (·.id) := by
      rw [MailDb.mailboxRows, List.map_map]
      rfl
    rw [hids, ((orderBy_perm _ _).map _).nodup_iff]
    exact (List.Nodup.of_map _ hkeys).sublist (List.filter_sublist.map _)
  have hfind : db.mailboxRow a m.id = some m :=
    find?_eq_some_of_key hnd hm (by simp) fun r' hr' => by simpa using hr'
  rw [MailDb.mailboxContents, hfind]
  rfl

/-- `mailbox_get`: nothing that was read may change, since no change is ever listed. -/
theorem mailboxGet_told {ids : Option (List MailboxId)} (hrs : r ≤ s) (hsn : s ≤ n)
    (hquiet : Quiet U ops (fun db m => db.mailboxContents a m) (mailboxGetIds U ops a ids r) r n) :
    ToldOfAll checked (tablesAt U ops n) a .mailbox
      (fun m => (tablesAt U ops n).mailboxContents a m) MailboxId.uuid
      (mailboxGet U ops a ids r s) := by
  have hsame : ∀ m ∈ mailboxGetIds U ops a ids r,
      (tablesAt U ops n).mailboxContents a m = (tablesAt U ops r).mailboxContents a m :=
    fun m hm => hquiet.eq (hrs.trans hsn) hm
  cases ids with
  | none =>
    constructor
    · intro x hx hne
      obtain ⟨m, hm, rfl⟩ := List.mem_map.mp hx
      have hread := mailboxContents_of_mem (mailInv_tablesAt U ops r) hm
      exact absurd ((hsame m.id (List.mem_map_of_mem hm)).trans hread) hne
    · intro m hm
      cases hm
  | some ids =>
    constructor
    · intro x hx hne
      obtain ⟨m, hm, hx⟩ := List.mem_filterMap.mp hx
      obtain ⟨o, ho, rfl⟩ := Option.map_eq_some_iff.mp hx
      exact absurd ((hsame m hm).trans ho) hne
    · intro m hm hne
      obtain ⟨hm, hnone⟩ := List.mem_filter.mp hm
      have hread : (tablesAt U ops r).mailboxContents a m = none := by
        rw [MailDb.mailboxContents, Option.map_eq_none_iff]
        simpa using hnone
      exact absurd ((hsame m hm).trans hread) hne

/-! ### Threads -/

theorem mem_threadEmails {db : MailDb} {ts : List ThreadId} {x : ThreadId × List EmailId} :
    x ∈ db.threadEmails a ts ↔ x.1 ∈ ts ∧ db.threadContents a x.1 = some x.2 := by
  simp only [MailDb.threadEmails, MailDb.threadContents, List.mem_filterMap]
  constructor
  · rintro ⟨t, ht, hx⟩
    cases hids : db.threadEmailIds a t with
    | nil => simp [hids] at hx
    | cons e ids =>
      simp only [hids, Option.some.injEq] at hx
      subst hx
      exact ⟨ht, by simp [hids]⟩
  · rintro ⟨ht, hx⟩
    refine ⟨x.1, ht, ?_⟩
    cases hids : db.threadEmailIds a x.1 with
    | nil => simp [hids] at hx
    | cons e ids =>
      simp only [hids, Option.some.injEq] at hx
      simp [hx]

/-- The emails of a thread are read from columns no update writes. -/
theorem threadEmailIds_of_update {db db' : MailDb} {p : EmailsRow → Bool}
    {f : EmailsRow → EmailsRow} (hemails : db'.emails = update p f db.emails)
    (hf : ∀ r, (f r).id = r.id ∧ (f r).accountId = r.accountId ∧ (f r).threadId = r.threadId ∧
      (f r).receivedAt = r.receivedAt) (a : AccountId) (t : ThreadId) :
    db'.threadEmailIds a t = db.threadEmailIds a t := by
  rw [MailDb.threadEmailIds, hemails, filter_update_of_congr, orderBy_update, map_update]
  · rfl
  · exact fun r => (hf r).1
  · intro r
    rw [(hf r).1, (hf r).2.2.2]
  · intro r
    rw [(hf r).2.1, (hf r).2.2.1]

theorem threadEmailIds_touchEmail (db : MailDb) (e : EmailId) (m : ModSeq) (a : AccountId)
    (t : ThreadId) : (db.touchEmail e m).threadEmailIds a t = db.threadEmailIds a t :=
  threadEmailIds_of_update (f := ({ · with updatedModseq := m })) rfl
    (fun _ => ⟨rfl, rfl, rfl, rfl⟩) a t

/-- An ingest changes the thread it joins or opens. -/
theorem threadEmailIds_ingested_of_ne (db : MailDb) (g : IngestArgs) (m : MailboxId)
    {t : ThreadId} (hne : (a, t) ≠ (g.accountId, (db.joinedThread g).getD g.threadId)) :
    (db.ingested g m).threadEmailIds a t = db.threadEmailIds a t := by
  have hemails : (db.ingested g m).emails = db.emails ++ [db.newEmail g] := rfl
  simp only [MailDb.threadEmailIds, hemails, List.filter_append]
  rw [List.filter_cons_of_neg, List.filter_nil, List.append_nil]
  simp only [decide_eq_true_eq]
  exact fun hc => hne (by rw [← hc.1, ← hc.2]; rfl)

/-- The row of that thread is stamped. -/
theorem stamped_thread (h : MailInv U db) (g : IngestArgs) (m : MailboxId) :
    Stamped db (db.ingested g m) g.accountId .thread
      ((db.joinedThread g).getD g.threadId).uuid := by
  have hseq : (db.ingested g m).modseq g.accountId .thread = db.modseq g.accountId .thread + 1 := by
    rw [MailDb.modseq_ingested, MailDb.modseq_bumpedForIngest _ _ (by decide)]
  refine ⟨by rw [hseq]; exact Nat.lt_succ_self _, ?_⟩
  rw [hseq]
  let db₁ := db.bumpedForIngest g.accountId
  change ∃ r ∈ (db₁.touchThread g.accountId (db.joinedThread g) g.threadId _).trackedRows .thread, _
  cases hf : db.joinedThread g with
  | none =>
    refine ⟨_, List.mem_map.mpr ⟨_, List.mem_append_right _ (List.mem_singleton_self _), rfl⟩, ?_⟩
    exact ⟨rfl, rfl, rfl⟩
  | some t =>
    obtain ⟨r, hr, rfl, ha⟩ := h.resolveThread_owned hf
    rw [MailDb.trackedRows_touchThread_some]
    refine ⟨_, mem_update.mpr ⟨_, List.mem_map.mpr ⟨r, hr, rfl⟩, rfl⟩, ?_⟩
    rw [if_pos (by simp)]
    exact ⟨rfl, ha, rfl⟩

theorem threadEmailIds_effect {db' : MailDb} {op : MailOp} {t : ThreadId} (h : MailInv U db)
    (heff : MailEffect U db op db')
    (hne : db'.threadEmailIds a t ≠ db.threadEmailIds a t) :
    Stamped db db' a .thread t.uuid := by
  cases heff with
  | @ingest io g m hmb hlt₁ hlt₂ hlt₃ hthread hfresh =>
    by_cases hat : (a, t) = (g.accountId, (db.joinedThread g).getD g.threadId)
    · obtain ⟨rfl, rfl⟩ := Prod.mk.inj hat
      exact stamped_thread h g m
    · exact absurd (threadEmailIds_ingested_of_ne db g m hat) hne
  | @updateEmail io a₀ e ks ms hown hms hlt₁ hlt₂ =>
    refine absurd ((threadEmailIds_touchEmail _ e _ a t).trans ?_) hne
    cases ks <;> cases ms <;> rfl
  | setEmailAttribute hown hlt => exact absurd (threadEmailIds_touchEmail _ _ _ a t) hne
  | dismissEmailAttribute hown hlt => exact absurd (threadEmailIds_touchEmail _ _ _ a t) hne
  | @setPgpStatus io e status hio =>
    refine (hne (threadEmailIds_of_update (f := ({ · with pgpStatus := some status })) rfl ?_ a t)).elim
    exact fun _ => ⟨rfl, rfl, rfl, rfl⟩
  | @setSpamVerdict io e verdict =>
    refine (hne (threadEmailIds_of_update (f := ({ · with spamResults := some verdict })) rfl ?_
      a t)).elim
    exact fun _ => ⟨rfl, rfl, rfl, rfl⟩
  | markIndexed =>
    refine (hne (threadEmailIds_of_update (f := ({ · with searchIndexed := true })) rfl ?_
      a t)).elim
    exact fun _ => ⟨rfl, rfl, rfl, rfl⟩
  | _ => exact absurd rfl hne

/-- **A thread that changes is stamped.** -/
theorem threadEmailIds_step {op : MailOp} {t : ThreadId} (h : MailInv U db)
    (hne : (mailStep U db op).threadEmailIds a t ≠ db.threadEmailIds a t) :
    Stamped db (mailStep U db op) a .thread t.uuid := by
  rcases mailStep_spec U db op with heq | heff
  · rw [heq] at hne
    exact absurd rfl hne
  · exact threadEmailIds_effect h heff hne

theorem thread_listed_after {t : ThreadId} (hsn : s ≤ n)
    (hne : (tablesAt U ops n).threadContents a t ≠ (tablesAt U ops s).threadContents a t) :
    Listed checked (tablesAt U ops n) a .thread ((tablesAt U ops s).modseq a .thread) t.uuid := by
  have hany : Runs.Meets (mailStep U) (fun _ _ => True) (tablesAt U ops s) (between ops s n) :=
    Runs.meets_iff.mpr fun _ _ _ _ => trivial
  refine listed_after (c := (·.threadContents a t)) (fun db op h _ hc => ?_) (by decide) hany hsn
    le_rfl hne
  refine threadEmailIds_step h fun heq => hc ?_
  simp only [MailDb.threadContents, heq]

/-- `thread_get`. -/
theorem threadGet_told {ids : List ThreadId} (hrs : r ≤ s) (hsn : s ≤ n)
    (hquiet : Quiet U ops (fun db t => db.threadContents a t) ids r s) :
    ToldOfAll checked (tablesAt U ops n) a .thread (fun t => (tablesAt U ops n).threadContents a t)
      ThreadId.uuid (threadGet U ops a ids r s) := by
  constructor
  · intro x hx hne
    obtain ⟨ht, hread⟩ := mem_threadEmails.mp hx
    refine thread_listed_after hsn ?_
    rw [hquiet.eq hrs ht, hread]
    exact hne
  · intro t ht hne
    obtain ⟨ht, hnone⟩ := List.mem_filter.mp ht
    have hread : (tablesAt U ops r).threadContents a t = none := by
      by_contra hc
      obtain ⟨es, hes⟩ := Option.ne_none_iff_exists'.mp hc
      exact of_decide_eq_true hnone (List.any_eq_true.mpr
        ⟨(t, es), mem_threadEmails.mpr ⟨ht, hes⟩, decide_eq_true rfl⟩)
    refine thread_listed_after hsn ?_
    rw [hquiet.eq hrs ht, hread]
    exact hne

end Lemmas

/-- **When a Get does not run ahead of its data.** Rows at position `r`, state at
`s`, attributes later, the client's `/changes` at `n`. Emails and threads: no call
between rows and state changes a requested object (and no call after it the
value of an email's PGP status). Mailboxes: no call at all after the rows changes a requested
mailbox. -/
theorem get_told {J : Type} (R : JsonReader J) (U : Unicode) (checked : Bool) (ops : List MailOp)
    (a : AccountId) {r s n : ℕ} (hrs : r ≤ s) (hsn : s ≤ n) :
    (∀ ids attr, (∀ i, s ≤ attr i ∧ attr i ≤ n) →
      Quiet U ops (fun db e => db.emailContents R a e) ids r s → PgpQuiet R U ops a ids s n →
        ToldOfAll checked (tablesAt U ops n) a .email
          (fun e => (tablesAt U ops n).emailContents R a e) EmailId.uuid
          (emailGet R U ops a ids r s attr)) ∧
    (∀ ids, Quiet U ops (fun db m => db.mailboxContents a m) (mailboxGetIds U ops a ids r) r n →
        ToldOfAll checked (tablesAt U ops n) a .mailbox
          (fun m => (tablesAt U ops n).mailboxContents a m) MailboxId.uuid
          (mailboxGet U ops a ids r s)) ∧
    (∀ ids, Quiet U ops (fun db t => db.threadContents a t) ids r s →
        ToldOfAll checked (tablesAt U ops n) a .thread
          (fun t => (tablesAt U ops n).threadContents a t) ThreadId.uuid
          (threadGet U ops a ids r s)) :=
  ⟨fun _ _ hattr hquiet hpgp => emailGet_told hrs hsn hattr hquiet hpgp,
    fun _ hquiet => mailboxGet_told hrs hsn hquiet, fun _ hquiet => threadGet_told hrs hsn hquiet⟩

/-! ## An edit between the rows and the state -/

/-- An account, its first message, and the message marked as seen. -/
def seenRun : List MailOp :=
  [createFreshAccount, .ingest Io.ok firstMessage,
    .updateEmail Io.ok ⟨1⟩ ⟨100⟩ (some ["$seen"]) none]

/-- With rows and state read before the edit, the client hears of it. -/
theorem get_told_seenRun : ToldOfAll true (tablesAt .ascii seenRun 3) ⟨1⟩ .email
    (fun e => (tablesAt .ascii seenRun 3).emailContents statusReader ⟨1⟩ e) EmailId.uuid
    (emailGet statusReader .ascii seenRun ⟨1⟩ [⟨100⟩] 2 2 fun _ => 2) :=
  (get_told statusReader .ascii true seenRun ⟨1⟩ (by decide) (by decide)).1 [⟨100⟩] (fun _ => 2)
    (fun _ => ⟨by decide, by decide⟩) trivial ⟨fun _ _ h => h.1, trivial⟩

/-- With the edit between the two reads, it does not. -/
theorem not_told_seenRun : ¬ToldOfAll true (tablesAt .ascii seenRun 3) ⟨1⟩ .email
    (fun e => (tablesAt .ascii seenRun 3).emailContents statusReader ⟨1⟩ e) EmailId.uuid
    (emailGet statusReader .ascii seenRun ⟨1⟩ [⟨100⟩] 2 3 fun _ => 3) := by
  intro h
  let answer := emailGet statusReader .ascii seenRun ⟨1⟩ [⟨100⟩] 2 3 fun _ => 3
  let shown := answer.list.get ⟨0, by decide⟩
  have hbefore : shown.2.keywords = [] := by rfl
  have hnow : ((tablesAt .ascii seenRun 3).emailContents statusReader ⟨1⟩ shown.1).map
      (·.keywords) = some ["$seen"] := by rfl
  have hne : (tablesAt .ascii seenRun 3).emailContents statusReader ⟨1⟩ shown.1 ≠
      some shown.2 := by
    intro hsame
    rw [hsame, Option.map_some, hbefore] at hnow
    cases hnow
  obtain ⟨page, hpage, hmem⟩ := h.1 _ (List.get_mem _ _) hne 256 (by decide) (by decide)
  have hempty : (tablesAt .ascii seenRun 3).changesSince true ⟨1⟩ .email answer.state 256 =
      .ok ⟨[], [], 2, false⟩ := by rfl
  cases hempty.symm.trans hpage
  cases hmem

end Owney
