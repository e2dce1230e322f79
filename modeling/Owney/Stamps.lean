import Owney.Changes
import Owney.EmailContents

/-!
# Stamps last

A write that bumps a state and stamps a row with it (`Stamped`) is seen by every
later `changes_since` from a state recorded before the write
(`listed_of_stamped`): no later call lowers a stamp (`RowsLe.run`).

`listed_of_run_ne` is the form the readers use: if every step that changes
something stamps the row it belongs to, then whatever a run changed is listed
from the state the run started in.
-/

namespace Owney

open Tables

/-! ## Stamps are never lowered -/

/-- Every row of the first table is there in the second, stamped no earlier. -/
def RowsLe (rows rows' : List TrackedRow) : Prop :=
  ∀ r ∈ rows, ∃ r' ∈ rows',
    r'.id = r.id ∧ r'.accountId = r.accountId ∧ r.updatedModseq ≤ r'.updatedModseq

namespace RowsLe

variable {U : Unicode} {db db' : MailDb} {rows rows' rows'' : List TrackedRow}

theorem refl (rows : List TrackedRow) : RowsLe rows rows :=
  fun r hr => ⟨r, hr, rfl, rfl, le_refl _⟩

theorem of_eq (h : rows' = rows) : RowsLe rows rows' := h ▸ refl rows'

theorem trans (h : RowsLe rows rows') (h' : RowsLe rows' rows'') : RowsLe rows rows'' := by
  intro r hr
  obtain ⟨r', hr', hid, ha, hle⟩ := h r hr
  obtain ⟨r'', hr'', hid', ha', hle'⟩ := h' r' hr'
  exact ⟨r'', hr'', hid'.trans hid, ha'.trans ha, hle.trans hle'⟩

theorem of_append {new : List TrackedRow} (h : rows' = rows ++ new) : RowsLe rows rows' :=
  fun r hr => ⟨r, h ▸ List.mem_append_left _ hr, rfl, rfl, le_refl _⟩

/-- A stamp that is past all the rows it goes to. -/
theorem update {p : TrackedRow → Bool} {m : ModSeq}
    (hm : ∀ r ∈ rows, p r → r.updatedModseq ≤ m) :
    RowsLe rows (Tables.update p ({ · with updatedModseq := m }) rows) := by
  intro r hr
  refine ⟨_, mem_update.mpr ⟨r, hr, rfl⟩, ?_⟩
  by_cases hp : p r
  · rw [if_pos hp]
    exact ⟨rfl, rfl, hm r hr hp⟩
  · rw [if_neg hp]
    exact ⟨rfl, rfl, le_refl _⟩

/-- The end of an edit: a stamp with the owner's next state. -/
theorem touchEmail {a : AccountId} {e : EmailId} (h : MailInv U db) (hown : db.ownsEmail a e)
    (hrows : ∀ t, db'.trackedRows t = db.trackedRows t) (t : DataType) :
    RowsLe (db.trackedRows t)
      ((db'.touchEmail e (db.modseq a .email + 1)).trackedRows t) := by
  by_cases ht : t = .email
  · rw [ht, MailDb.trackedRows_touchEmail, hrows]
    refine update fun r hr hp => ?_
    have ha := h.account_of_mem hown hr (by simpa using hp)
    have hle := (h.seqs .email r hr).2
    rw [ha] at hle
    exact hle.trans (Nat.le_succ _)
  · exact of_eq (by rw [MailDb.trackedRows_touchEmail_of_ne _ _ _ ht, hrows])

theorem ingested {g : IngestArgs} {m : MailboxId} (h : MailInv U db) (t : DataType) :
    RowsLe (db.trackedRows t) ((db.ingested g m).trackedRows t) := by
  cases t with
  | email => exact of_append List.map_append
  | mailbox =>
    refine of_eq ?_
    simp only [MailDb.trackedRows]
    rw [show (db.ingested g m).mailboxes = db.mailboxes from MailDb.touchThread_mailboxes ..]
  | thread =>
    let db₁ := db.bumpedForIngest g.accountId
    change RowsLe (db₁.trackedRows .thread)
      ((db₁.touchThread g.accountId (db.joinedThread g) g.threadId _).trackedRows .thread)
    cases hf : db.joinedThread g with
    | none => exact of_append List.map_append
    | some s =>
      rw [MailDb.trackedRows_touchThread_some]
      refine update fun r hr hp => ?_
      obtain ⟨r₀, hr₀, hid, ha⟩ := h.resolveThread_owned hf
      have hmem : (⟨r₀.id.uuid, r₀.accountId, r₀.createdModseq, r₀.updatedModseq⟩ : TrackedRow) ∈
          db.trackedRows .thread := List.mem_map.mpr ⟨r₀, hr₀, rfl⟩
      have heq := eq_of_key_eq (h.keys .thread) hr hmem (by simpa [hid] using hp)
      have hle := (h.seqs .thread r hr).2
      rw [heq] at hle ⊢
      rw [ha] at hle
      exact hle.trans (Nat.le_succ _)
  | emailSubmission => exact of_eq rfl

theorem effect {op : MailOp} (h : MailInv U db) (heff : MailEffect U db op db') (t : DataType) :
    RowsLe (db.trackedRows t) (db'.trackedRows t) := by
  cases heff with
  | @createAccount io email displayName a newId now _ _ _ =>
    cases t with
    | mailbox => exact of_append List.map_append
    | _ => exact of_eq rfl
  | putBlob blobs => exact of_eq (by cases t <;> rfl)
  | ingest _ _ _ _ _ _ => exact ingested h t
  | linkContact contacts => exact of_eq (by cases t <;> rfl)
  | @updateEmail io a e ks ms hown _ _ _ =>
    refine touchEmail h hown (fun t => ?_) t
    rw [MailDb.trackedRows_bumped, MailDb.trackedRows_bumped]
    cases ks <;> cases ms <;> cases t <;> rfl
  | setEmailAttribute hown _ => exact touchEmail h hown (fun t => by cases t <;> rfl) t
  | dismissEmailAttribute hown _ => exact touchEmail h hown (fun t => by cases t <;> rfl) t
  | setPgpStatus _ =>
    refine of_eq (MailDb.trackedRows_updateEmails db ?_ t)
    exact fun _ => ⟨rfl, rfl, rfl, rfl⟩
  | setSpamVerdict =>
    refine of_eq (MailDb.trackedRows_updateEmails db ?_ t)
    exact fun _ => ⟨rfl, rfl, rfl, rfl⟩
  | markIndexed =>
    refine of_eq (MailDb.trackedRows_updateEmails db ?_ t)
    exact fun _ => ⟨rfl, rfl, rfl, rfl⟩

/-- **Stamps are never lowered** in a run. -/
theorem run (h : MailInv U db) (ops : List MailOp) (t : DataType) :
    RowsLe (db.trackedRows t) ((Runs.run (mailStep U) db ops).trackedRows t) := by
  let R (s s' : MailDb) : Prop := RowsLe (s.trackedRows t) (s'.trackedRows t)
  refine Runs.run_rel (R := R) (fun _ op hdb => hdb.step op) (fun s => refl _)
    (fun h₁ h₂ => h₁.trans h₂) (fun s op hs => ?_) ops h
  rcases mailStep_spec U s op with heq | heff
  · rw [heq]
    exact refl _
  · exact effect hs heff t

end RowsLe

/-! ## What is listed -/

/-- A page from state `m` that is not cut names the row. -/
def Listed (checked : Bool) (db : MailDb) (a : AccountId) (t : DataType) (m : ModSeq)
    (id : Uuid) : Prop :=
  ∀ max : UInt64, max.toNat + 1 < 2 ^ 64 → (db.changedRows a t m).length ≤ max.toNat →
    ∃ page, db.changesSince checked a t m max = .ok page ∧ id ∈ page.ids

section Listing

variable {U : Unicode} {checked : Bool} {db db' later : MailDb} {a : AccountId} {t : DataType}
  {id : Uuid} {m : ModSeq}

/-- **A stamped row is listed** from every state before the stamp, ever after. -/
theorem listed_of_stamped (h : MailInv U later) (ht : t ≠ .emailSubmission)
    (hst : Stamped db db' a t id) (hle : RowsLe (db'.trackedRows t) (later.trackedRows t))
    (hm : m ≤ db.modseq a t) (hmono : db.modseq a t ≤ later.modseq a t) :
    Listed checked later a t m id := by
  intro max hlt hfit
  obtain ⟨hbump, r, hr, hid, ha, hup⟩ := hst
  obtain ⟨r', hr', hid', ha', hle'⟩ := hle r hr
  have hcap : m ≤ i64Max := (hm.trans hmono).trans (h.capped a t)
  refine ⟨later.changesPage a t m max.toNat (max.toNat + 1), ?_, ?_⟩
  · rw [MailDb.changesSince_eq ht, usizeSucc_of_lt hlt]
    rfl
  · refine ((MailDb.ids_changesPage hcap hfit (MailDb.limit_succ_of_le _ hlt hfit)).2 _).mpr ?_
    refine ⟨r', ?_, hid'.trans hid⟩
    rw [MailDb.changedRows, mem_orderBy, List.mem_filter]
    have : m < r'.updatedModseq := (hm.trans_lt hbump).trans_le (hup ▸ hle')
    simp only [decide_eq_true_eq]
    exact ⟨hr', ha'.trans ha, by exact_mod_cast this⟩

/-- **What a run changed is listed**, if each of its steps that changes it stamps
the row. `C` is the condition the steps meet. -/
theorem listed_of_run_ne {γ : Type*} {c : MailDb → γ} {C : MailDb → MailOp → Prop}
    (hstep : ∀ db op, MailInv U db → C db op → c (mailStep U db op) ≠ c db →
      Stamped db (mailStep U db op) a t id)
    (ht : t ≠ .emailSubmission) (h : MailInv U db) {ops later : List MailOp}
    (hops : Runs.Meets (mailStep U) C db ops) (hm : m ≤ db.modseq a t)
    (hne : c (Runs.run (mailStep U) db ops) ≠ c db) :
    Listed checked (Runs.run (mailStep U) db (ops ++ later)) a t m id := by
  obtain ⟨pre, op, post, rfl, hne'⟩ := Runs.exists_step_of_run_ne c hne
  have hpre : MailInv U (Runs.run (mailStep U) db pre) := h.run pre
  have hst := hstep _ op hpre (Runs.meets_iff.mp hops pre op post rfl) hne'
  have hrun : Runs.run (mailStep U) db (pre ++ op :: post ++ later) =
      Runs.run (mailStep U) (mailStep U (Runs.run (mailStep U) db pre) op) (post ++ later) := by
    rw [List.append_assoc, List.cons_append, Runs.run_append]
    rfl
  rw [hrun]
  refine listed_of_stamped ((hpre.step op).run _) ht hst (RowsLe.run (hpre.step op) _ t)
    (hm.trans (modseq_le_run U db pre a t)) ?_
  exact hst.1.le.trans (modseq_le_run U _ _ a t)

end Listing

end Owney
