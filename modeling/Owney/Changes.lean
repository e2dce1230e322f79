import Owney.MailInvariant

/-!
# Paging through `Foo/changes`

A client asks for the changes since a state; while a page says `hasMoreChanges`
it asks again from the page's `newState` (`Pages`). Nothing is lost if the pages
together name the changed rows and no page's state runs ahead of what has been
sent (`PagesComplete`).

The page is cut at `max` rows but carries the account's overall state, so a page
that was cut is the last one that says anything: `changedRows_modseq` makes the
next page empty. `pagesComplete_iff` is the exact condition.
-/

namespace Owney

open Tables

section Paging

variable (checked : Bool) (db : MailDb) (a : AccountId) (t : DataType) (max : UInt64)

/-- The pages a client collects from a state on. -/
inductive Pages : ModSeq → List ChangesResult → Prop where
  | last {since page} : db.changesSince checked a t since max = .ok page → page.hasMore = false →
      Pages since [page]
  | more {since page pages} : db.changesSince checked a t since max = .ok page →
      page.hasMore = true → Pages page.newState pages → Pages since (page :: pages)

/-- No page with more to come has a state past a changed row that no page so far named. -/
def NoSkip (since : ModSeq) (pages : List ChangesResult) : Prop :=
  ∀ pre page post, pages = pre ++ page :: post → page.hasMore = true →
    ∀ r ∈ db.changedRows a t since, r.updatedModseq ≤ page.newState →
      r.id ∈ (pre ++ [page]).flatMap (·.ids)

/-- The client comes to an end, and has then been told of the changed rows and of
nothing else, with no page ahead of the rows sent. -/
def PagesComplete (since : ModSeq) : Prop :=
  ∃ pages, Pages checked db a t max since pages ∧
    (∀ id, id ∈ pages.flatMap (·.ids) ↔ ∃ r ∈ db.changedRows a t since, r.id = id) ∧
    NoSkip db a t since pages

/-- All changes fit on one page, and `max + 1` does not overflow unless there are none. -/
def FitsOnePage (since : ModSeq) : Prop :=
  (db.changedRows a t since).length ≤ max.toNat ∧
    (max.toNat + 1 = 2 ^ 64 → checked = false ∧ db.changedRows a t since = [])

end Paging

section Lemmas

variable {checked : Bool} {db : MailDb} {a : AccountId} {t : DataType} {max : UInt64}
  {since : ModSeq}

theorem asI64_of_le {n : ℕ} (h : n ≤ i64Max) : asI64 n = n := by
  rw [asI64, if_pos]
  rw [i64Max] at h
  omega

namespace MailDb

/-- **Nothing is changed since now.** -/
theorem changedRows_modseq {U : Unicode} (h : MailInv U db) :
    db.changedRows a t (asI64 (db.modseq a t)) = [] := by
  rw [asI64_of_le (h.capped a t), changedRows, List.filter_eq_nil_iff.mpr]
  · rfl
  · intro r hr
    simp only [decide_eq_true_eq, not_and, not_lt]
    rintro rfl
    exact_mod_cast (h.seqs t r hr).2

theorem changesSince_eq (ht : t ≠ .emailSubmission) :
    db.changesSince checked a t since max =
      (usizeSucc checked max).map fun lim => db.changesPage a t since max.toNat lim := by
  cases t with
  | emailSubmission => exact absurd rfl ht
  | _ => rfl

/-- A page that holds every changed row. -/
theorem ids_changesPage {lim : ℕ} (hsince : since ≤ i64Max)
    (hfit : (db.changedRows a t since).length ≤ max.toNat)
    (hlim : limit (asI64 lim) (db.changedRows a t since) = db.changedRows a t since) :
    let page := db.changesPage a t since max.toNat lim
    page.hasMore = false ∧
      ∀ id, id ∈ page.ids ↔ ∃ r ∈ db.changedRows a t since, r.id = id := by
  simp only [changesPage, asI64_of_le hsince, hlim, List.take_of_length_le hfit,
    ChangesResult.ids]
  refine ⟨by simpa using hfit, fun id => ?_⟩
  simp only [List.mem_append, List.mem_map, List.mem_filter]
  constructor
  · rintro (⟨r, ⟨hr, -⟩, rfl⟩ | ⟨r, ⟨hr, -⟩, rfl⟩) <;> exact ⟨r, hr, rfl⟩
  · rintro ⟨r, hr, rfl⟩
    by_cases hc : since < r.createdModseq
    · exact Or.inl ⟨r, ⟨hr, by simpa using hc⟩, rfl⟩
    · exact Or.inr ⟨r, ⟨hr, by simpa using hc⟩, rfl⟩

/-- `LIMIT max + 1` cuts at `max + 1` rows, or nowhere once the cast to `i64`
makes it negative. -/
theorem limit_succ (rows : List TrackedRow) (hlt : max.toNat + 1 < 2 ^ 64) :
    limit (asI64 (max.toNat + 1)) rows =
      if max.toNat + 1 < 2 ^ 63 then rows.take (max.toNat + 1) else rows := by
  by_cases h : max.toNat + 1 < 2 ^ 63
  · rw [asI64, if_pos h, if_pos h, limit_natCast]
  · rw [asI64, if_neg h, if_neg h, limit_of_neg]
    omega

theorem limit_succ_of_le (rows : List TrackedRow) (hlt : max.toNat + 1 < 2 ^ 64)
    (hlen : rows.length ≤ max.toNat) : limit (asI64 (max.toNat + 1)) rows = rows := by
  rw [limit_succ rows hlt]
  split
  · exact List.take_of_length_le (by omega)
  · rfl

/-- A page that was cut says so, and has only the first `max` rows. -/
theorem changesPage_of_lt (hlt : max.toNat + 1 < 2 ^ 64) (hsince : since ≤ i64Max)
    (hcut : max.toNat < (db.changedRows a t since).length) :
    let page := db.changesPage a t since max.toNat (max.toNat + 1)
    page.hasMore = true ∧ page.ids.length = max.toNat := by
  have htake : ((limit (asI64 (max.toNat + 1)) (db.changedRows a t since)).take max.toNat).length
      = max.toNat ∧
      max.toNat < (limit (asI64 (max.toNat + 1)) (db.changedRows a t since)).length := by
    rw [limit_succ _ hlt]
    split
    · rw [List.take_take, List.length_take, List.length_take]
      omega
    · rw [List.length_take]
      omega
  simp only [changesPage, asI64_of_le hsince, ChangesResult.ids]
  refine ⟨by simpa using htake.2, ?_⟩
  rw [List.length_append, List.length_map, List.length_map]
  refine Eq.trans ?_ htake.1
  simp only [decide_not]
  exact (List.length_eq_length_filter_add _).symm

end MailDb

theorem usizeSucc_of_lt (h : max.toNat + 1 < 2 ^ 64) :
    usizeSucc checked max = .ok (max.toNat + 1) := if_pos h

/-- A state from which nothing changed gives one empty page. -/
theorem Pages.eq_nil_of_modseq {U : Unicode} (h : MailInv U db) (ht : t ≠ .emailSubmission)
    {pages : List ChangesResult} (hp : Pages checked db a t max (db.modseq a t) pages) :
    pages.flatMap (·.ids) = [] := by
  have hempty : ∀ {page}, db.changesSince checked a t (db.modseq a t) max = .ok page →
      page.ids = [] ∧ page.hasMore = false := by
    intro page hpage
    rw [MailDb.changesSince_eq ht] at hpage
    rcases hs : usizeSucc checked max with err | lim
    · rw [hs] at hpage
      cases hpage
    · rw [hs] at hpage
      cases hpage
      simp [MailDb.changesPage, MailDb.changedRows_modseq h, ChangesResult.ids]
  cases hp with
  | last hpage _ => simp [(hempty hpage).1]
  | more hpage hmore _ =>
    rw [(hempty hpage).2] at hmore
    cases hmore

/-- **A cut page loses rows**: its state is the account's, so the next page is empty. -/
theorem not_pagesComplete_of_cut {U : Unicode} (h : MailInv U db) (ht : t ≠ .emailSubmission)
    (hsince : since ≤ i64Max) (hlt : max.toNat + 1 < 2 ^ 64)
    (hcut : max.toNat < (db.changedRows a t since).length) :
    ¬PagesComplete checked db a t max since := by
  rintro ⟨pages, hpages, hids, -⟩
  obtain ⟨hmore, hlen⟩ := MailDb.changesPage_of_lt hlt hsince hcut
  have hstep : db.changesSince checked a t since max =
      .ok (db.changesPage a t since max.toNat (max.toNat + 1)) := by
    rw [MailDb.changesSince_eq ht, usizeSucc_of_lt hlt]
    rfl
  -- the ids of the one page that has any
  have hall : pages.flatMap (·.ids) =
      (db.changesPage a t since max.toNat (max.toNat + 1)).ids := by
    cases hpages with
    | last hpage hlast =>
      cases hstep.symm.trans hpage
      rw [hmore] at hlast
      cases hlast
    | more hpage _ hrest =>
      cases hstep.symm.trans hpage
      rw [List.flatMap_cons, Pages.eq_nil_of_modseq h ht hrest, List.append_nil]
  have hsub : (db.changedRows a t since).map (·.id) ⊆ pages.flatMap (·.ids) := by
    intro id hid
    exact (hids id).mpr (List.mem_map.mp hid)
  have hnd : ((db.changedRows a t since).map (·.id)).Nodup := by
    have hsub := (List.filter_sublist (l := db.trackedRows t)
      (p := fun r => decide (r.accountId = a ∧ (since : ℤ) < r.updatedModseq))).map (·.id)
    exact ((orderBy_perm _ _).map _).nodup_iff.mpr ((h.keys t).sublist hsub)
  have hle := (List.subperm_of_subset hnd hsub).length_le
  rw [List.length_map, hall, hlen] at hle
  omega

theorem pagesComplete_of_fits (ht : t ≠ .emailSubmission) (hsince : since ≤ i64Max)
    (hlt : max.toNat + 1 < 2 ^ 64) (hfit : (db.changedRows a t since).length ≤ max.toNat) :
    PagesComplete checked db a t max since := by
  obtain ⟨hlast, hids⟩ := MailDb.ids_changesPage hsince hfit (MailDb.limit_succ_of_le _ hlt hfit)
  refine ⟨[db.changesPage a t since max.toNat (max.toNat + 1)], .last ?_ hlast, ?_, ?_⟩
  · rw [MailDb.changesSince_eq ht, usizeSucc_of_lt hlt]
    rfl
  · simpa using hids
  · intro pre page post heq hmore
    obtain ⟨rfl, rfl⟩ : pre = [] ∧ page = _ := by
      cases pre with
      | nil => exact ⟨rfl, (List.cons.inj heq).1.symm⟩
      | cons _ pre => cases pre <;> cases heq
    rw [hlast] at hmore
    cases hmore

/-- With `max = usize::MAX` the limit overflows: an error, or an empty last page. -/
theorem pagesComplete_of_overflow (ht : t ≠ .emailSubmission)
    (hmax : max.toNat + 1 = 2 ^ 64) :
    PagesComplete checked db a t max since ↔
      checked = false ∧ db.changedRows a t since = [] := by
  have hnot : ¬max.toNat + 1 < 2 ^ 64 := by omega
  cases checked with
  | true =>
    have hstep : ∀ s page, db.changesSince true a t s max ≠ .ok page := by
      intro s page hpage
      rw [MailDb.changesSince_eq ht, usizeSucc, if_neg hnot] at hpage
      cases hpage
    simp only [Bool.true_eq_false, false_and, iff_false]
    rintro ⟨pages, hpages, -⟩
    cases hpages with
    | last hpage _ => exact hstep _ _ hpage
    | more hpage _ _ => exact hstep _ _ hpage
  | false =>
    have hstep : db.changesSince false a t since max = .ok ⟨[], [], db.modseq a t, false⟩ := by
      rw [MailDb.changesSince_eq ht, usizeSucc, if_neg hnot]
      change Except.ok (db.changesPage a t since max.toNat 0) = _
      have : limit (asI64 0) (db.changedRows a t (asI64 since)) = [] := rfl
      simp [MailDb.changesPage, this]
    simp only [true_and]
    constructor
    · rintro ⟨pages, hpages, hids, -⟩
      have hnil : pages.flatMap (·.ids) = [] := by
        cases hpages with
        | last hpage _ =>
          cases hstep.symm.trans hpage
          rfl
        | more hpage hmore _ =>
          cases hstep.symm.trans hpage
          cases hmore
      refine List.eq_nil_iff_forall_not_mem.mpr fun r hr => ?_
      have := (hids r.id).mpr ⟨r, hr, rfl⟩
      rw [hnil] at this
      cases this
    · intro hrows
      refine ⟨[_], .last hstep rfl, ?_, ?_⟩
      · simp [hrows, ChangesResult.ids]
      · intro pre page post _ _ r hr
        rw [hrows] at hr
        cases hr

end Lemmas

/-- **When paging is complete.** In every reachable state, for emails, mailboxes
and threads: exactly when the changes fit on one page. -/
theorem pagesComplete_iff {U : Unicode} {db : MailDb}
    (hdb : Runs.Reachable (mailStep U) MailDb.empty db) (checked : Bool) (a : AccountId)
    {t : DataType} (ht : t ≠ .emailSubmission) (max : UInt64) {since : ModSeq}
    (hsince : since ≤ db.modseq a t) :
    PagesComplete checked db a t max since ↔ FitsOnePage checked db a t max since := by
  have h := MailInv.reachable hdb
  have hcap : since ≤ i64Max := hsince.trans (h.capped a t)
  by_cases hlt : max.toNat + 1 < 2 ^ 64
  · have hno : max.toNat + 1 ≠ 2 ^ 64 := hlt.ne
    constructor
    · intro hp
      refine ⟨?_, fun hc => absurd hc hno⟩
      by_contra hlen
      exact not_pagesComplete_of_cut h ht hcap hlt (by omega) hp
    · exact fun hfit => pagesComplete_of_fits ht hcap hlt hfit.1
  · have hmax : max.toNat + 1 = 2 ^ 64 := by
      have := max.toNat_lt
      omega
    rw [pagesComplete_of_overflow ht hmax]
    constructor
    · exact fun hc => ⟨by rw [hc.2]; exact Nat.zero_le _, fun _ => hc⟩
    · exact fun hfit => hfit.2 hmax

/-! ## A new account's mailboxes -/

/-- One account, created on an empty database. -/
def createFreshAccount : MailOp :=
  .createAccount Io.ok "a@x.org" none ⟨1⟩ (fun i => ⟨BitVec.ofNat 128 (i + 10)⟩) 0

/-- The account's tables: seven mailboxes under one modseq. -/
def freshAccount : MailDb := mailStep Unicode.ascii MailDb.empty createFreshAccount

theorem reachable_freshAccount :
    Runs.Reachable (mailStep Unicode.ascii) MailDb.empty freshAccount :=
  ⟨[createFreshAccount], rfl⟩

/-- A page of the default size holds them all. -/
theorem pagesComplete_freshAccount : FitsOnePage true freshAccount ⟨1⟩ .mailbox 256 0 ∧
    PagesComplete true freshAccount ⟨1⟩ .mailbox 256 0 := by
  have hfit : FitsOnePage true freshAccount ⟨1⟩ .mailbox 256 0 := ⟨by decide, by decide⟩
  have hiff := pagesComplete_iff (t := .mailbox) reachable_freshAccount true ⟨1⟩ (by decide) 256
    (Nat.zero_le _)
  exact ⟨hfit, hiff.mpr hfit⟩

/-- Two at a time, five of the seven never arrive. -/
theorem not_pagesComplete_freshAccount :
    ∃ db, Runs.Reachable (mailStep Unicode.ascii) MailDb.empty db ∧
      0 ≤ db.modseq ⟨1⟩ .mailbox ∧ ¬PagesComplete true db ⟨1⟩ .mailbox 2 0 :=
  ⟨freshAccount, reachable_freshAccount, Nat.zero_le _,
    not_pagesComplete_of_cut (MailInv.reachable reachable_freshAccount) (by decide) (by decide)
      (by decide) (by decide)⟩

end Owney
