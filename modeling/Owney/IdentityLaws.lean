import Owney.IdentityKeys

/-!
# Stable identities

Whether the key of an account, or of the server, stays the one that was handed out, over every
interleaving of `own_cert` and `server_cert`.

* `KeyInv` — a stored row was written by a program, and what was written stays a row.
* `Overtaken` — between the look of a program that finds no row, and its own write, another
  program wrote the row.
* `identityLaws_iff` — the keys are stable exactly if no program is overtaken. The row is written
  with an upsert, so the second one replaces the first, and both certificates are handed out.
-/

namespace Owney.Keys

open Programs Tables

variable {P : OpenPgp}

/-! ## What a step does -/

/-- What a step does. -/
structure KeyEffect (P : OpenPgp) (w : KeyWorld) (call : Call (KeyOp.Ret P)) (w' : KeyWorld) :
    Prop where
  wrote : ∀ d fp b, Wrote d fp b call → w'.db.stored d = some (fp, b)
  kept : ∀ d, (∀ fp b, ¬Wrote d fp b call) → w'.db.stored d = w.db.stored d
  looked : ∀ d found, Looked d found call → w.db.stored d = found
  blobs : (w.blobs.map (·.1)).Nodup → (w'.blobs.map (·.1)).Nodup
  more : w.blobs ⊆ w'.blobs
  put : ∀ bytes b, call = ⟨.putBlob bytes, .ok b⟩ → (b, bytes) ∈ w'.blobs
  got : ∀ bytes b, call = ⟨.getBlob b, .ok bytes⟩ → (b, bytes) ∈ w.blobs
  drawn : w.drawn ⊆ w'.drawn
  generated : ∀ userid cert, call = ⟨.generateCert userid, .ok cert⟩ →
    P.fingerprint cert ∉ w.drawn ∧ P.fingerprint cert ∈ w'.drawn

section Exec

variable {w w' : KeyWorld} {c : KeyChoice P}

/-- A call on the tables fails without effect, or its body succeeded. -/
theorem KeyWorld.call_cases {α : Type} {body : Tx KeyDb α} {res : Except PgpError α}
    (h : w.call body = (res, w')) :
    (∃ e, res = .error e ∧ w' = w) ∨
      ∃ a db, body w.db = .ok (a, db) ∧ res = .ok a ∧ w' = { w with db := db } := by
  obtain ⟨rfl, rfl⟩ := Prod.mk.inj h
  rcases transaction_cases body w.db with ⟨e, hbody⟩ | ⟨a, db, hok, hbody⟩
  · exact .inl ⟨.storage e, by rw [hbody]; rfl, by rw [hbody]⟩
  · exact .inr ⟨a, db, hok, by rw [hbody]; rfl, by rw [hbody]⟩

/-- A step without effect, and what it may have seen. -/
theorem KeyEffect.quiet {call : Call (KeyOp.Ret P)} (hwrote : ∀ d fp b, ¬Wrote d fp b call)
    (hlooked : ∀ d found, Looked d found call → w.db.stored d = found)
    (hput : ∀ bytes b, call = ⟨.putBlob bytes, .ok b⟩ → (b, bytes) ∈ w.blobs)
    (hgot : ∀ bytes b, call = ⟨.getBlob b, .ok bytes⟩ → (b, bytes) ∈ w.blobs)
    (hgenerated : ∀ userid cert, call ≠ ⟨.generateCert userid, .ok cert⟩) :
    KeyEffect P w call w :=
  ⟨fun d fp b h => absurd h (hwrote d fp b), fun _ _ => rfl, hlooked, id, List.Subset.refl _, hput,
    hgot, List.Subset.refl _, fun userid cert h => absurd h (hgenerated userid cert)⟩

/-- A step that failed has no effect. -/
theorem KeyEffect.failed {o : KeyOp} {e : PgpError} : KeyEffect P w ⟨o, .error e⟩ w :=
  .quiet (by rintro d fp b ⟨⟩) (by rintro d found ⟨⟩) (by rintro bytes b ⟨⟩)
    (by rintro bytes b ⟨⟩) (by rintro userid cert ⟨⟩)

theorem mem_of_find?_blob {blobs : List (BlobId × List UInt8)} {id : BlobId}
    {b : BlobId × List UInt8} (h : blobs.find? (fun b => b.1 = id) = some b) :
    (id, b.2) ∈ blobs := by
  have hid : b.1 = id := by simpa using List.find?_some h
  exact hid ▸ List.mem_of_find?_eq_some h

/-- **One step.** -/
theorem keyEffect {o : KeyOp} {res : o.Ret P} (h : o.exec P c w = some (res, w')) :
    KeyEffect P w ⟨o, res⟩ w' := by
  cases o with
  | pgpOwnKey accountId =>
    rcases KeyWorld.call_cases (Option.some.inj h) with ⟨e, rfl, rfl⟩ | ⟨a, db, hok, rfl, rfl⟩
    · exact .failed
    · obtain ⟨-, rfl, rfl⟩ := Tx.query_eq_ok.mp hok
      refine .quiet (by rintro d fp b ⟨⟩) ?_ (by rintro bytes b ⟨⟩) (by rintro bytes b ⟨⟩)
        (by rintro userid cert ⟨⟩)
      rintro d found (⟨rfl⟩ | _)
      rfl
  | serverIdentity =>
    rcases KeyWorld.call_cases (Option.some.inj h) with ⟨e, rfl, rfl⟩ | ⟨a, db, hok, rfl, rfl⟩
    · exact .failed
    · obtain ⟨-, rfl, rfl⟩ := Tx.query_eq_ok.mp hok
      refine .quiet (by rintro d fp b ⟨⟩) ?_ (by rintro bytes b ⟨⟩) (by rintro bytes b ⟨⟩)
        (by rintro userid cert ⟨⟩)
      rintro d found (_ | ⟨rfl⟩)
      rfl
  | setPgpOwnKey accountId fp b =>
    rcases KeyWorld.call_cases (Option.some.inj h) with ⟨e, rfl, rfl⟩ | ⟨a, db, hok, rfl, rfl⟩
    · exact .failed
    · obtain ⟨-, rfl⟩ := Tx.exec_eq_ok.mp hok
      refine ⟨?_, ?_, by rintro d found ⟨⟩, id, List.Subset.refl _, by rintro bytes b ⟨⟩,
        by rintro bytes b ⟨⟩, List.Subset.refl _, by rintro userid cert ⟨⟩⟩
      · rintro d fp' b' (⟨rfl⟩ | _)
        rw [KeyDb.stored, find?_upsert_self]
        · generalize List.find? _ w.db.pgpOwnKeys = found
          cases found <;> rfl
        · exact fun k => rfl
        · exact decide_eq_true rfl
      · rintro (other | _) hnot
        · have hne : other ≠ accountId := by
            rintro rfl
            exact hnot fp b (.own rfl)
          rw [KeyDb.stored, find?_upsert_of_disjoint (by intro k; rfl) ?_ (by simp [hne.symm])]
          · rfl
          · intro k hk
            simpa [of_decide_eq_true hk] using hne.symm
        · rfl
  | setServerIdentity fp b =>
    rcases KeyWorld.call_cases (Option.some.inj h) with ⟨e, rfl, rfl⟩ | ⟨a, db, hok, rfl, rfl⟩
    · exact .failed
    · obtain ⟨-, rfl⟩ := Tx.exec_eq_ok.mp hok
      refine ⟨?_, ?_, by rintro d found ⟨⟩, id, List.Subset.refl _, by rintro bytes b ⟨⟩,
        by rintro bytes b ⟨⟩, List.Subset.refl _, by rintro userid cert ⟨⟩⟩
      · rintro d fp' b' (_ | ⟨rfl⟩)
        rcases w.db.serverIdentity with _ | k <;> simp [KeyDb.stored]
      · rintro (other | _) hnot
        · rfl
        · exact absurd (.server rfl) (hnot fp b)
  | account accountId =>
    obtain ⟨rfl, rfl⟩ := Prod.mk.inj (Option.some.inj h)
    exact .quiet (by rintro d fp b ⟨⟩) (by rintro d found ⟨⟩) (by rintro bytes b ⟨⟩)
      (by rintro bytes b ⟨⟩) (by rintro userid cert ⟨⟩)
  | getBlob blobId =>
    simp only [KeyOp.exec] at h
    split at h
    · split at h
      · rename_i b hfind
        cases h
        refine .quiet (by rintro d fp b ⟨⟩) (by rintro d found ⟨⟩) (by rintro bytes b ⟨⟩) ?_
          (by rintro userid cert ⟨⟩)
        rintro bytes b' ⟨⟩
        exact mem_of_find?_blob hfind
      · cases h
        exact .failed
    · cases h
      exact .failed
  | putBlob bytes =>
    simp only [KeyOp.exec] at h
    split at h
    · split at h
      · rename_i b hfind
        split at h
        · rename_i hsame
          cases h
          refine .quiet (by rintro d fp b ⟨⟩) (by rintro d found ⟨⟩) ?_ (by rintro bytes b ⟨⟩)
            (by rintro userid cert ⟨⟩)
          rintro bytes' b' ⟨⟩
          rw [← hsame]
          rw [← hsame] at hfind
          exact mem_of_find?_blob hfind
        · cases h
      · rename_i hfind
        cases h
        refine ⟨by rintro d fp b ⟨⟩, fun _ _ => rfl, by rintro d found ⟨⟩, fun hnd => ?_,
          List.subset_append_left _ _, ?_, by rintro bytes b ⟨⟩, List.Subset.refl _,
          by rintro userid cert ⟨⟩⟩
        · refine nodup_map_insert hnd fun hmem => ?_
          obtain ⟨b, hb, hid⟩ := List.mem_map.mp hmem
          exact List.find?_eq_none.mp hfind b hb (decide_eq_true hid)
        · rintro bytes' b' ⟨⟩
          exact List.mem_append_right _ (List.mem_singleton_self _)
    · cases h
      exact .failed
  | generateCert userid =>
    simp only [KeyOp.exec] at h
    split at h
    · cases h
      exact .failed
    · rename_i cert hcert
      split at h
      · cases h
      · rename_i hfresh
        cases h
        refine ⟨by rintro d fp b ⟨⟩, fun _ _ => rfl, by rintro d found ⟨⟩, id,
          List.Subset.refl _, by rintro bytes b ⟨⟩, by rintro bytes b ⟨⟩,
          List.subset_cons_self _ _, ?_⟩
        rintro userid' cert' ⟨⟩
        exact ⟨hfresh, List.mem_cons_self⟩

end Exec

/-! ## The laws -/

/-- A step that was taken. -/
abbrev KeyEvent (P : OpenPgp) : Type := Event (KeyOp.Ret P) KeyRequest (KeyChoice P) KeyWorld

/-- **What the server promises**: all calls for an identity return certificates with one
fingerprint, and once one has returned, that is the fingerprint that is stored. -/
structure IdentityLaws (moves : List (KeyMove P)) : Prop where
  same : ∀ i j r r' cert cert', (keyRun moves).request i = some r →
    (keyRun moves).request j = some r' → r.identity = r'.identity →
      (keyRun moves).answer i = some (.ok cert) → (keyRun moves).answer j = some (.ok cert') →
        P.fingerprint cert = P.fingerprint cert'
  stable : ∀ part more rest, moves = part ++ more ++ rest → ∀ i r cert,
    (keyRun part).request i = some r → (keyRun part).answer i = some (.ok cert) →
      ∃ b, (keyRun (part ++ more)).world.db.stored r.identity = some (P.fingerprint cert, b)

/-- A program found no row, and before it wrote the row another one had written it. -/
def Overtaken (past : List (KeyEvent P)) : Prop :=
  ∃ pre look mid write post d fp b, past = pre ++ look :: (mid ++ write :: post) ∧
    look.thread = write.thread ∧ Looked d none look.call ∧ Wrote d fp b write.call ∧
      ∃ x ∈ mid, ∃ fp' b', Wrote d fp' b' x.call

theorem Overtaken.append {past : List (KeyEvent P)} (h : Overtaken past)
    (more : List (KeyEvent P)) : Overtaken (past ++ more) := by
  obtain ⟨pre, look, mid, write, post, d, fp, b, rfl, h⟩ := h
  exact ⟨pre, look, mid, write, post ++ more, d, fp, b, by simp, h⟩

/-! ## The invariant -/

/-- A past of the server. -/
abbrev KeyPast : List (KeyEvent P) → KeyWorld → Prop := Past (KeyOp.exec P) KeyBefore .init

/-- What was the case when a step was taken. -/
abbrev KeyAt : List (KeyEvent P) → KeyEvent P → Prop := Past.At (KeyOp.exec P) KeyBefore .init

/-- **The invariant.** -/
structure KeyInv (past : List (KeyEvent P)) (w : KeyWorld) : Prop where
  stored : ∀ d fp b, w.db.stored d = some (fp, b) → ∃ e ∈ past, Wrote d fp b e.call
  kept : ∀ e ∈ past, ∀ d fp b, Wrote d fp b e.call → w.db.stored d ≠ none
  blobs : (w.blobs.map (·.1)).Nodup
  held : ∀ e ∈ past, ∀ bytes b,
    e.call = ⟨.putBlob bytes, .ok b⟩ ∨ e.call = ⟨.getBlob b, .ok bytes⟩ → (b, bytes) ∈ w.blobs
  drawn : ∀ e ∈ past, ∀ userid cert, e.call = ⟨.generateCert userid, .ok cert⟩ →
    P.fingerprint cert ∈ w.drawn

section Runs

variable {past pre mid post : List (KeyEvent P)} {w : KeyWorld} {e x : KeyEvent P}
  {d : Identity} {fp fp' : String} {b b' : BlobId}

/-- **One step.** -/
theorem keyInv_step (hat : KeyAt past e) (h : KeyInv past e.before) :
    KeyInv (past ++ [e]) e.after := by
  have heffect := keyEffect hat.possible
  refine ⟨?_, ?_, heffect.blobs h.blobs, ?_, ?_⟩
  · intro d fp b hstored
    by_cases hwrote : ∃ fp b, Wrote d fp b e.call
    · obtain ⟨fp', b', hwrote⟩ := hwrote
      cases (heffect.wrote d fp' b' hwrote).symm.trans hstored
      exact ⟨e, by simp, hwrote⟩
    · rw [heffect.kept d fun fp b hw => hwrote ⟨fp, b, hw⟩] at hstored
      obtain ⟨x, hx, hxwrote⟩ := h.stored d fp b hstored
      exact ⟨x, List.mem_append_left _ hx, hxwrote⟩
  · intro x hx d fp b hxwrote
    by_cases hwrote : ∃ fp b, Wrote d fp b e.call
    · obtain ⟨fp', b', hwrote⟩ := hwrote
      simp [heffect.wrote d fp' b' hwrote]
    · rw [heffect.kept d fun fp b hw => hwrote ⟨fp, b, hw⟩]
      rcases List.mem_append.mp hx with hx | hx
      · exact h.kept x hx d fp b hxwrote
      · rw [List.mem_singleton.mp hx] at hxwrote
        exact absurd ⟨fp, b, hxwrote⟩ hwrote
  · intro x hx bytes b hcall
    rcases List.mem_append.mp hx with hx | hx
    · exact heffect.more (h.held x hx bytes b hcall)
    · rw [List.mem_singleton.mp hx] at hcall
      rcases hcall with hcall | hcall
      · exact heffect.put bytes b hcall
      · exact heffect.more (heffect.got bytes b hcall)
  · intro x hx userid cert hcall
    rcases List.mem_append.mp hx with hx | hx
    · exact heffect.drawn (h.drawn x hx userid cert hcall)
    · rw [List.mem_singleton.mp hx] at hcall
      exact (heffect.generated userid cert hcall).2

/-- **Every past.** -/
theorem keyInv_past (h : KeyPast past w) : KeyInv past w := by
  refine h.invariant (I := KeyInv) ?_ fun past e hat _ ih => keyInv_step hat ih
  refine ⟨?_, fun e he => absurd he List.not_mem_nil, List.nodup_nil,
    fun e he => absurd he List.not_mem_nil, fun e he => absurd he List.not_mem_nil⟩
  rintro (_ | _) fp b ⟨⟩

theorem Wrote.op {call : Call (KeyOp.Ret P)} (h : Wrote d fp b call) : call.op = d.store fp b := by
  cases h with
  | own hd => rw [hd]; rfl
  | server hd => rw [hd]; rfl

theorem Wrote.unique {call : Call (KeyOp.Ret P)} (h : Wrote d fp b call)
    (h' : Wrote d fp' b' call) : fp = fp' := by
  cases h <;> cases h' <;> rfl

theorem Looked.not_wrote {call : Call (KeyOp.Ret P)} {found : Option (String × BlobId)}
    {d' : Identity} (h : Looked d' found call) : ¬Wrote d fp b call := by
  intro h'
  cases h <;> cases h'

/-- Who writes a row asked for it, and made the certificate. -/
theorem ready_of_wrote (hat : KeyAt past e) (h : Wrote d fp b e.call) :
    d = e.req.identity ∧ NoWrites (callsOf e.thread past) ∧
      ∃ cert, Ready d (callsOf e.thread past) cert b ∧ fp = P.fingerprint cert := by
  obtain ⟨hno, hstore⟩ := hat.guard
  obtain ⟨hd, hready⟩ := hstore d fp b h.op
  exact ⟨hd, hno, hready⟩

/-- **Unless a program is overtaken, a row is written once.** -/
theorem overtaken_of_twice (h : KeyPast past w) (hsplit : past = pre ++ x :: (mid ++ e :: post))
    (hx : Wrote d fp b x.call) (he : Wrote d fp' b' e.call) : Overtaken past := by
  have hesplit : past = (pre ++ x :: mid) ++ e :: post := by rw [hsplit]; simp
  obtain ⟨-, -, cert, hready, -⟩ := ready_of_wrote (h.at_of_split hesplit) he
  obtain ⟨c, hc, hlooked⟩ := hready.looked
  obtain ⟨look, hlook, hthread, rfl⟩ := mem_callsOf.mp hc
  obtain ⟨lpre, lpost, hlsplit⟩ := List.append_of_mem hlook
  have hlat : KeyAt lpre look := by
    have hlook : past = lpre ++ look :: (lpost ++ e :: post) := by
      rw [hesplit, hlsplit]
      simp
    exact h.at_of_split hlook
  rcases split_cases hlsplit with hin | ⟨-, rfl⟩ | ⟨m, rfl⟩
  · -- the look came first
    obtain ⟨pre', m, rfl⟩ := List.append_of_mem hin
    refine ⟨pre', look, m ++ x :: mid, e, post, d, fp', b', ?_, hthread, hlooked, he, x, by simp,
      fp, b, hx⟩
    rw [hsplit]
    simp
  · exact absurd hx hlooked.not_wrote
  · -- the look came later, and would have found the row
    have hnone := (keyEffect hlat.possible).looked d none hlooked
    exact absurd hnone ((keyInv_past hlat.earlier).kept x (by simp) d fp b hx)

/-- A program writes one row at most. -/
theorem wrote_once (h : KeyPast past w) (hx : x ∈ past) (he : e ∈ past)
    (hthread : x.thread = e.thread) {d' : Identity} (hxwrote : Wrote d fp b x.call)
    (hewrote : Wrote d' fp' b' e.call) : x = e := by
  by_contra hne
  rcases before_or_after hx he hne with ⟨pre, mid, post, hsplit⟩ | ⟨pre, mid, post, hsplit⟩
  · obtain ⟨-, hno, -⟩ := ready_of_wrote (h.at_of_split hsplit) hewrote
    exact hno x.call (mem_callsOf.mpr ⟨x, by simp, hthread, rfl⟩) _ _ _ hxwrote
  · obtain ⟨-, hno, -⟩ := ready_of_wrote (h.at_of_split hsplit) hxwrote
    exact hno e.call (mem_callsOf.mpr ⟨e, by simp, hthread.symm, rfl⟩) _ _ _ hewrote

/-- Nobody overtaken, an identity has one fingerprint. -/
theorem eq_of_wrote (h : KeyPast past w) (hno : ¬Overtaken past) (hx : x ∈ past) (he : e ∈ past)
    (hxwrote : Wrote d fp b x.call) (hewrote : Wrote d fp' b' e.call) : fp = fp' := by
  by_cases heq : x = e
  · subst heq
    exact hxwrote.unique hewrote
  · rcases before_or_after hx he heq with ⟨pre, mid, post, hsplit⟩ | ⟨pre, mid, post, hsplit⟩
    · exact absurd (overtaken_of_twice h (by simpa using hsplit) hxwrote hewrote) hno
    · exact absurd (overtaken_of_twice h (by simpa using hsplit) hewrote hxwrote) hno

/-- What was written is there when it is loaded: the certificate has the fingerprint of the
row. -/
theorem fingerprint_of_load (h : KeyPast past w) (he : e ∈ past) (hwrote : Wrote d fp b e.call)
    (hx : x ∈ past) {bytes : List UInt8} {cert : P.Cert} (hget : x.call = ⟨.getBlob b, .ok bytes⟩)
    (hload : P.fromBytes bytes = .ok cert) : P.fingerprint cert = fp := by
  have hinv := keyInv_past h
  obtain ⟨epre, epost, hsplit⟩ := List.append_of_mem he
  obtain ⟨-, -, cert', hready, rfl⟩ := ready_of_wrote (h.at_of_split hsplit) hwrote
  obtain ⟨bytes', htsk, hput⟩ := hready.stored
  obtain ⟨y, hy, -, hputcall⟩ := mem_callsOf.mp hput
  have hput' := hinv.held y (by simp [hsplit, hy]) bytes' b (.inl hputcall)
  have hget' := hinv.held x hx bytes b (.inr hget)
  obtain rfl := congrArg Prod.snd (eq_of_key_eq hinv.blobs hput' hget' rfl)
  obtain ⟨cert'', hload', hfp⟩ := P.load htsk
  obtain rfl := Except.ok.inj (hload.symm.trans hload')
  exact hfp

/-- **What a program returned is what is stored**, from then on. -/
theorem stored_of_answered {i : ℕ} {before more : List (KeyEvent P)} {r : KeyRequest}
    {cert : P.Cert} (h : KeyPast past w) (hno : ¬Overtaken past) (hsplit : past = before ++ more)
    (hanswered : KeyAnswered r (callsOf i before) (.ok cert : KeyAnswer P)) :
    ∃ b, w.db.stored r.identity = some (P.fingerprint cert, b) := by
  have hinv := keyInv_past h
  have hmem : ∀ c ∈ callsOf i before, ∃ e ∈ past, e.call = c := by
    intro c hc
    obtain ⟨e, he, -, hcall⟩ := mem_callsOf.mp hc
    exact ⟨e, by simp [hsplit, he], hcall⟩
  -- some program wrote the row, with this fingerprint
  have hwritten : ∃ e ∈ past, ∃ b, Wrote r.identity (P.fingerprint cert) b e.call := by
    rcases hanswered with ⟨cert', b, hcert, c, hc, hwrote⟩ | ⟨-, hloaded⟩
    · obtain rfl := Except.ok.inj hcert
      obtain ⟨e, he, rfl⟩ := hmem c hc
      exact ⟨e, he, b, hwrote⟩
    · obtain ⟨fp, b, bytes, ⟨c, hc, hlooked⟩, hget, hload⟩ := hloaded cert rfl
      obtain ⟨l, hl, rfl⟩ := hmem c hc
      obtain ⟨lpre, lpost, hlsplit⟩ := List.append_of_mem hl
      have hlat := h.at_of_split hlsplit
      have hfound := (keyEffect hlat.possible).looked _ _ hlooked
      obtain ⟨e, he, hwrote⟩ := (keyInv_past hlat.earlier).stored _ _ _ hfound
      obtain ⟨x, hx, hxcall⟩ := hmem _ hget
      have hepast : e ∈ past := by simp [hlsplit, he]
      rw [fingerprint_of_load h hepast hwrote hx hxcall hload]
      exact ⟨e, hepast, b, hwrote⟩
  obtain ⟨e, he, b, hwrote⟩ := hwritten
  rcases hstored : w.db.stored r.identity with _ | ⟨fp', b'⟩
  · exact absurd hstored (hinv.kept e he _ _ _ hwrote)
  · obtain ⟨e', he', hwrote'⟩ := hinv.stored _ _ _ hstored
    rw [eq_of_wrote h hno he he' hwrote hwrote']
    exact ⟨b', rfl⟩

/-- Two programs that write make different certificates. -/
theorem fingerprint_ne (h : KeyPast past w) (hx : x ∈ past) (he : e ∈ past)
    (hne : x.thread ≠ e.thread) {userid userid' : String} {cert cert' : P.Cert}
    (hxcall : x.call = ⟨.generateCert userid, .ok cert⟩)
    (hecall : e.call = ⟨.generateCert userid', .ok cert'⟩) :
    P.fingerprint cert ≠ P.fingerprint cert' := by
  intro heq
  rcases before_or_after hx he (fun h => hne (congrArg _ h)) with
    ⟨pre, mid, post, hsplit⟩ | ⟨pre, mid, post, hsplit⟩
  · have hat := h.at_of_split hsplit
    refine ((keyEffect hat.possible).generated userid' cert' hecall).1 ?_
    exact heq ▸ (keyInv_past hat.earlier).drawn x (by simp) userid cert hxcall
  · have hat := h.at_of_split hsplit
    refine ((keyEffect hat.possible).generated userid cert hxcall).1 ?_
    exact heq ▸ (keyInv_past hat.earlier).drawn e (by simp) userid' cert' hecall

end Runs

/-! ## Every interleaving -/

theorem keyRun_specified (moves : List (KeyMove P)) :
    (keyRun moves).Specified (KeyOp.exec P) KeyBefore KeyAnswered .init :=
  run_specified keyHandle_spec moves specified_init

/-- A program that wrote a row has returned the certificate. -/
theorem answer_of_wrote {moves : List (KeyMove P)} {x : KeyEvent P} (hx : x ∈ (keyRun moves).past)
    {d : Identity} {fp : String} {b : BlobId} (hwrote : Wrote d fp b x.call) :
    ∃ cert, (keyRun moves).answer x.thread = some (.ok cert) ∧ P.fingerprint cert = fp ∧
      x.req.identity = d := by
  have hspec := keyRun_specified moves
  have hmem : x.call ∈ callsOf x.thread (keyRun moves).past := mem_callsOf.mpr ⟨x, hx, rfl, rfl⟩
  have hreq := hspec.started x hx
  obtain ⟨pre, post, hsplit⟩ := List.append_of_mem hx
  obtain ⟨hd, -⟩ := ready_of_wrote (hspec.past.at_of_split hsplit) hwrote
  rcases ht : (keyRun moves).threads[x.thread]? with _ | ⟨r, p⟩
  · rw [Sys.request, ht] at hreq
    cases hreq
  · have hp := hspec.spec x.thread _ ht
    rcases p with a | ⟨o, k⟩
    · have hr : r = x.req := by
        rw [Sys.request, ht] at hreq
        exact Option.some.inj hreq
      rcases hp with ⟨cert, b', rfl, c, hc, hcwrote⟩ | ⟨hno, -⟩
      · obtain ⟨y, hy, hthread, rfl⟩ := mem_callsOf.mp hc
        obtain rfl := wrote_once hspec.past hx hy hthread.symm hwrote hcwrote
        refine ⟨cert, by rw [Sys.answer, ht], ?_, hd.symm⟩
        rw [hr, ← hd] at hcwrote
        exact hcwrote.unique hwrote
      · exact absurd hwrote (hno _ hmem d fp b)
    · exact absurd hwrote (hp.1.1 _ hmem d fp b)

/-- Two programs of which one overtakes the other return different certificates. -/
theorem not_same_of_overtaken {moves : List (KeyMove P)} (h : Overtaken (keyRun moves).past) :
    ¬IdentityLaws moves := by
  intro hlaws
  have hspec := keyRun_specified moves
  obtain ⟨pre, look, mid, e, post, d, fp, b, hsplit, -, -, hewrote, x, hx, fp', b', hxwrote⟩ := h
  obtain ⟨mid, mid', rfl⟩ := List.append_of_mem hx
  have hxsplit : (keyRun moves).past = (pre ++ look :: mid) ++ x :: (mid' ++ e :: post) := by
    rw [hsplit]
    simp
  have hesplit : (keyRun moves).past = (pre ++ look :: (mid ++ x :: mid')) ++ e :: post := by
    rw [hsplit]
    simp
  have hxin : x ∈ (keyRun moves).past := by simp [hxsplit]
  have hein : e ∈ (keyRun moves).past := by simp [hesplit]
  obtain ⟨-, -, cert, hready, rfl⟩ := ready_of_wrote (hspec.past.at_of_split hesplit) hewrote
  obtain ⟨-, -, cert', hready', rfl⟩ := ready_of_wrote (hspec.past.at_of_split hxsplit) hxwrote
  -- both have returned, and promised the same
  obtain ⟨a, hanswer, ha, hd⟩ := answer_of_wrote hein hewrote
  obtain ⟨a', hanswer', ha', hd'⟩ := answer_of_wrote hxin hxwrote
  have hsame := hlaws.same e.thread x.thread e.req x.req a a' (hspec.started e hein)
    (hspec.started x hxin) (hd.trans hd'.symm) hanswer hanswer'
  rw [ha, ha'] at hsame
  -- but each drew its own
  have hne : e.thread ≠ x.thread := by
    intro hthread
    obtain ⟨-, hno, -⟩ := ready_of_wrote (hspec.past.at_of_split hesplit) hewrote
    exact hno x.call (mem_callsOf.mpr ⟨x, by simp, hthread.symm, rfl⟩) _ _ _ hxwrote
  obtain ⟨userid, hgenerated⟩ := hready.generated
  obtain ⟨userid', hgenerated'⟩ := hready'.generated
  obtain ⟨g, hg, hgthread, hgcall⟩ := mem_callsOf.mp hgenerated
  obtain ⟨g', hg', hgthread', hgcall'⟩ := mem_callsOf.mp hgenerated'
  refine fingerprint_ne hspec.past (x := g) (e := g') ?_ ?_ ?_ hgcall hgcall' hsame
  · rw [hesplit]
    exact List.mem_append_left _ hg
  · rw [hxsplit]
    exact List.mem_append_left _ hg'
  · rw [hgthread, hgthread']
    exact hne

/-- **Identity keys are stable exactly if no program is overtaken**: in every interleaving of
calls for any accounts and the server, with steps that fail. -/
theorem identityLaws_iff (P : OpenPgp) (moves : List (KeyMove P)) :
    IdentityLaws moves ↔ ¬Overtaken (keyRun moves).past := by
  refine ⟨fun h hover => not_same_of_overtaken hover h, fun hno => ?_⟩
  have hstable : ∀ part more rest, moves = part ++ more ++ rest → ∀ i r cert,
      (keyRun part).request i = some r → (keyRun part).answer i = some (.ok cert) →
        ∃ b, (keyRun (part ++ more)).world.db.stored r.identity =
          some (P.fingerprint cert, b) := by
    rintro part more rest rfl i r cert hr ha
    obtain ⟨new, hnew⟩ := past_run keyHandle (KeyOp.exec P) (Sys.init .init) part more
    obtain ⟨last, hlast⟩ := past_run keyHandle (KeyOp.exec P) (Sys.init .init) (part ++ more) rest
    obtain ⟨r', hr', hanswered⟩ := (keyRun_specified part).answered ha
    obtain rfl := Option.some.inj (hr.symm.trans hr')
    refine stored_of_answered (keyRun_specified (part ++ more)).past ?_ hnew hanswered
    intro hover
    exact hno (by rw [keyRun, hlast]; exact hover.append last)
  refine ⟨?_, hstable⟩
  intro i j r r' cert cert' hr hr' hd ha ha'
  obtain ⟨b, hb⟩ := hstable moves [] [] (by simp) i r cert hr ha
  obtain ⟨b', hb'⟩ := hstable moves [] [] (by simp) j r' cert' hr' ha'
  rw [hd] at hb
  exact congrArg Prod.fst (Option.some.inj (hb.symm.trans hb'))

/-! ## Two first uses -/

/-- Certificates that are their own fingerprints and their own bytes. -/
def plainPgp : OpenPgp where
  Cert := UInt8
  fingerprint n := toString n.toNat
  asTsk n := .ok [n]
  fromBytes
    | [n] => .ok n
    | _ => .error "not a certificate"
  digest bytes := ⟨BitVec.ofNat 256 (bytes.foldl (fun n b => 256 * n + b.toNat) 0)⟩
  load {cert} := by
    rintro bytes ⟨⟩
    exact ⟨cert, rfl, rfl⟩

/-- Two programs look for the key of one account before either has written it. -/
def twoFirstUses : List (KeyMove plainPgp) :=
  [.start (.own ⟨1⟩), .start (.own ⟨1⟩), .call 0 {}, .call 1 {}, .call 0 {}, .call 1 {},
    .call 0 { cert := .ok (1 : UInt8) }, .call 0 {}, .call 0 {},
    .call 1 { cert := .ok (2 : UInt8) }, .call 1 {}, .call 1 {}]

/-- **They return two keys.** -/
theorem not_identityLaws_twoFirstUses : ¬IdentityLaws twoFirstUses := by
  intro h
  have hsame := h.same 0 1 (.own ⟨1⟩) (.own ⟨1⟩) (1 : UInt8) (2 : UInt8) rfl rfl rfl rfl rfl
  exact absurd hsame (by decide)

end Owney.Keys
