import Mathlib.Algebra.Group.Prod
import Owney.Lib.Runs
import Owney.InboundDelivery

/-!
# Training and the verdict of a delivery

Moving a message to or from Junk (`Email/set`, a change of `$junk`) trains the account's
token counts. The table then holds, for each account and token, how often a training call
of the account had the token, and no row where none had (`tokenCounts_eq`).

The delivery handler scans a message once, before it knows the recipients, under an account
id it has just made up. No row of the table belongs to that id, so the Bayes part of every
verdict is the probability of all-zero counts (`spamVerdict_bayesProb`): it is there for
accounts that never trained anything, and it is not computed from the counts of those that
did. It still is what an account trained when the counts are even, and never when none of the
tokens was trained (`bayesProb_of_evenlyTrained`).
-/

namespace Owney

open Tables

/-! ## Training -/

/-- One call of `train_spam_tokens`, with what it draws from outside. -/
structure TrainCall where
  accountId : AccountId
  tokens : List String
  isSpam : Bool
  io : Io

/-- A change of a message's `$junk` keyword. -/
structure JunkChange where
  accountId : AccountId
  oldIsJunk : Bool
  newIsJunk : Bool
  /-- the message, if its blob can be read -/
  blob : Option (List UInt8)
  order : HashOrder
  io : Io

/-- The training that `Email/set` does after such a change. -/
def JunkChange.training (T : TextOps) (j : JunkChange) : Option TrainCall :=
  if j.oldIsJunk ≠ j.newIsJunk then
    j.blob.map fun raw => ⟨j.accountId, tokenize T j.order raw, j.newIsJunk, j.io⟩
  else none

/-- The table, and the training calls that were committed. -/
structure TrainingState where
  spamTokens : SpamTokens
  trained : List TrainCall

/-- One training call; its error is ignored (`let _ = ..`). -/
def TrainingState.train (s : TrainingState) (call : TrainCall) : TrainingState :=
  match trainSpamTokens call.io call.accountId call.tokens call.isSpam s.spamTokens with
  | (.ok _, db) => ⟨db, s.trained ++ [call]⟩
  | (.error _, db) => ⟨db, s.trained⟩

/-- One change of `$junk`. -/
def trainingStep (T : TextOps) (s : TrainingState) (j : JunkChange) : TrainingState :=
  match j.training T with
  | none => s
  | some call => s.train call

/-- The state after some changes, from the empty table. -/
def afterTraining (T : TextOps) (changes : List JunkChange) : TrainingState :=
  Runs.run (trainingStep T) ⟨[], []⟩ changes

/-! ## The counts of a history -/

/-- Some training call of the account had the token. -/
def Trained (history : List TrainCall) (a : AccountId) (token : String) : Prop :=
  ∃ call ∈ history, call.accountId = a ∧ token ∈ call.tokens

instance (history : List TrainCall) (a : AccountId) (token : String) :
    Decidable (Trained history a token) :=
  inferInstanceAs (Decidable (∃ call ∈ history, call.accountId = a ∧ token ∈ call.tokens))

/-- What a number of occurrences adds to the pair of counts. -/
def asCounts (isSpam : Bool) (n : ℕ) : ℕ × ℕ := if isSpam then (n, 0) else (0, n)

@[simp] theorem asCounts_zero (isSpam : Bool) : asCounts isSpam 0 = 0 := by
  cases isSpam <;> rfl

theorem asCounts_add (isSpam : Bool) (m n : ℕ) :
    asCounts isSpam m + asCounts isSpam n = asCounts isSpam (m + n) := by
  cases isSpam <;> simp [asCounts]

/-- The spam and ham counts an account has trained a token with. -/
def trainedCounts (history : List TrainCall) (a : AccountId) (token : String) : ℕ × ℕ :=
  (history.map fun call =>
    if call.accountId = a then asCounts call.isSpam (call.tokens.count token) else 0).sum

/-- The classification under an account's own counts; absent if none of the tokens was ever
trained for the account. -/
def ownClassification {F : Type} (ops : F32Ops F) (history : List TrainCall) (a : AccountId)
    (tokens : List String) : Option F :=
  if ∃ token ∈ tokens, Trained history a token then
    some (bayesProbability ops (.collect (trainedCounts history a) tokens) tokens)
  else none

/-! ## What training leaves in the table -/

/-- The counts in the table, if there is a row. -/
def tableCounts (db : SpamTokens) (a : AccountId) (token : String) : Option (ℕ × ℕ) :=
  (db.find? (·.keyed a token)).map fun r => (r.spamCount, r.hamCount)

namespace SpamTokensRow

@[simp] theorem keyed_increment (r : SpamTokensRow) (isSpam : Bool) (a : AccountId)
    (token : String) : (r.increment isSpam).keyed a token = r.keyed a token := by
  cases isSpam <;> rfl

@[simp] theorem keyed_first (a a' : AccountId) (token token' : String) (isSpam : Bool) :
    (first a token isSpam).keyed a' token' = decide (a = a' ∧ token = token') := by
  cases isSpam <;> rfl

end SpamTokensRow

variable {db db' : SpamTokens} {io : Io} {a a' : AccountId} {isSpam : Bool} {u : PUnit}
  {token token' : String}

/-- One upsert adds one to one pair of counts. -/
theorem tableCounts_trainToken {n : ℕ} (h : trainToken io n a isSpam token db = .ok (u, db')) :
    tableCounts db' a' token' =
      if a = a' ∧ token = token' then
        some ((tableCounts db a token).getD 0 + asCounts isSpam 1)
      else tableCounts db a' token' := by
  simp only [trainToken, Tx.bind_eq_ok, Tx.get_eq_ok, Tx.require_eq_ok, Tx.exec_eq_ok] at h
  obtain ⟨_, _, ⟨rfl, rfl⟩, _, _, ⟨-, rfl⟩, -, rfl⟩ := h
  by_cases hkey : a = a' ∧ token = token'
  · obtain ⟨rfl, rfl⟩ := hkey
    rw [if_pos ⟨rfl, rfl⟩, tableCounts, tableCounts,
      find?_upsert_self (fun r => r.keyed_increment ..) (by simp)]
    rcases hfind : db.find? (·.keyed a token) with _ | r
    · cases isSpam <;>
        simp [hfind, asCounts, SpamTokensRow.first]
    · cases isSpam <;>
        simp [hfind, asCounts, SpamTokensRow.increment]
  · rw [if_neg hkey, tableCounts, tableCounts, find?_upsert_of_disjoint]
    · exact fun r => r.keyed_increment ..
    · intro r hr
      simp only [SpamTokensRow.keyed, decide_eq_true_eq, decide_eq_false_iff_not] at hr ⊢
      rw [hr.1, hr.2]
      exact hkey
    · simpa using hkey

/-- A training call adds the occurrences of each token. -/
theorem tableCounts_trainTokens :
    ∀ (tokens : List String) {n : ℕ} {db : SpamTokens},
      trainTokens io a isSpam n tokens db = .ok (u, db') →
        tableCounts db' a' token' =
          if a = a' ∧ token' ∈ tokens then
            some ((tableCounts db a token').getD 0 + asCounts isSpam (tokens.count token'))
          else tableCounts db a' token'
  | [], n, db, h => by
    obtain ⟨-, rfl⟩ := Tx.exec_eq_ok.mp h
    simp
  | t :: tokens, n, db, h => by
    obtain ⟨_, db₁, htoken, hrest⟩ := Tx.bind_eq_ok.mp h
    rw [tableCounts_trainTokens tokens hrest]
    have hone : ∀ a' token', tableCounts db₁ a' token' =
        if a = a' ∧ t = token' then some ((tableCounts db a t).getD 0 + asCounts isSpam 1)
        else tableCounts db a' token' := fun _ _ => tableCounts_trainToken htoken
    rw [hone]
    by_cases ha : a = a'
    · subst ha
      rw [hone]
      by_cases ht : t = token'
      · subst ht
        by_cases hmem : t ∈ tokens
        · simp [hmem, add_assoc, asCounts_add, add_comm 1]
        · simp [hmem, List.count_eq_zero_of_not_mem]
      · simp [ht, Ne.symm ht]
    · simp [ha, hone]

/-! ### Over a history -/

/-- The table has the counts of the history, and a row exactly for what was trained. -/
def TableMatches (s : TrainingState) : Prop :=
  ∀ a token, tableCounts s.spamTokens a token =
    if Trained s.trained a token then some (trainedCounts s.trained a token) else none

theorem trained_append {history : List TrainCall} {call : TrainCall} :
    Trained (history ++ [call]) a token ↔
      Trained history a token ∨ call.accountId = a ∧ token ∈ call.tokens := by
  simp only [Trained, List.mem_append, List.mem_singleton, or_and_right, exists_or,
    exists_eq_left]

theorem trainedCounts_append (history : List TrainCall) (call : TrainCall) (a : AccountId)
    (token : String) :
    trainedCounts (history ++ [call]) a token = trainedCounts history a token +
      if call.accountId = a then asCounts call.isSpam (call.tokens.count token) else 0 := by
  simp [trainedCounts]

theorem trainedCounts_of_not_trained {history : List TrainCall} (h : ¬Trained history a token) :
    trainedCounts history a token = 0 := by
  refine List.sum_eq_zero fun n hn => ?_
  obtain ⟨call, hcall, rfl⟩ := List.mem_map.mp hn
  split
  · rename_i ha
    have hcount : call.tokens.count token = 0 :=
      List.count_eq_zero_of_not_mem fun ht => h ⟨call, hcall, ha, ht⟩
    rw [hcount, asCounts_zero]
  · rfl

/-- A training call, committed or not, keeps the table and the history together. -/
theorem TableMatches.train {s : TrainingState} (h : TableMatches s) (call : TrainCall) :
    TableMatches (s.train call) := by
  unfold TrainingState.train trainSpamTokens
  by_cases ht : call.tokens = []
  · rw [if_pos ht]
    intro a token
    rw [h a token]
    simp [trained_append, trainedCounts_append, ht]
  rw [if_neg ht]
  rcases transaction_cases (trainTokens call.io call.accountId call.isSpam 0 call.tokens)
    s.spamTokens with ⟨e, hcall⟩ | ⟨u, db', hbody, hcall⟩
  · rw [hcall]
    exact h
  · rw [hcall]
    intro a token
    dsimp only
    rw [tableCounts_trainTokens call.tokens hbody, h, h, trainedCounts_append]
    by_cases hkey : call.accountId = a ∧ token ∈ call.tokens
    · obtain ⟨rfl, htoken⟩ := hkey
      rw [if_pos ⟨rfl, htoken⟩, if_pos (trained_append.mpr (.inr ⟨rfl, htoken⟩)), if_pos rfl]
      by_cases hold : Trained s.trained call.accountId token
      · simp [hold]
      · simp [hold, trainedCounts_of_not_trained hold]
    · rw [if_neg hkey]
      by_cases ha : call.accountId = a
      · have hmem : token ∉ call.tokens := fun htoken => hkey ⟨ha, htoken⟩
        simp [trained_append, ha, hmem, List.count_eq_zero_of_not_mem hmem]
      · simp [trained_append, ha]

/-- **The table is the history.** After any changes of `$junk`, with any of the training
calls failing, the table has a row for an account and a token exactly if a committed call of
the account had the token, and the row has the number of its occurrences. -/
theorem tokenCounts_eq (T : TextOps) (changes : List JunkChange) (a : AccountId)
    (token : String) :
    tableCounts (afterTraining T changes).spamTokens a token =
      if Trained (afterTraining T changes).trained a token then
        some (trainedCounts (afterTraining T changes).trained a token)
      else none := by
  have hmatch : TableMatches (afterTraining T changes) := by
    refine Runs.run_invariant (I := TableMatches) (fun s j h => ?_) changes ?_
    · unfold trainingStep
      rcases j.training T with _ | call
      · exact h
      · exact h.train call
    · intro a token
      simp [tableCounts, Trained]
  exact hmatch a token

/-- An account that nothing was trained for has no row. -/
theorem untrained_of_fresh {T : TextOps} {changes : List JunkChange} {a : AccountId}
    (h : ∀ call ∈ (afterTraining T changes).trained, call.accountId ≠ a) :
    ∀ r ∈ (afterTraining T changes).spamTokens, r.accountId ≠ a := by
  rintro r hr rfl
  have hnone := tokenCounts_eq T changes r.accountId r.token
  have hnot : ¬Trained (afterTraining T changes).trained r.accountId r.token := by
    rintro ⟨call, hcall, ha, -⟩
    exact h call hcall ha
  rw [if_neg hnot, tableCounts, Option.map_eq_none_iff, List.find?_eq_none] at hnone
  exact hnone r hr (by simp [SpamTokensRow.keyed])

/-! ## The verdict of a delivery -/

section Verdict

variable {F : Type} (c : ServerCore F) (T : TextOps) (changes : List JunkChange) (s : ScanCalls)
  (raw : List UInt8)

/-- The scan of a message after some training. -/
def ScanCalls.after (s : ScanCalls) (T : TextOps) (changes : List JunkChange) : ScanCalls :=
  { s with spamTokens := (afterTraining T changes).spamTokens }

/-- Whether the scan classifies messages: it is on, and the store can be asked. -/
def classifies : Bool := c.spamConfig.enabled ∧ s.reached

/-- The Bayes part that a delivery to the account should use. -/
def expectedBayes (a : AccountId) : Option F :=
  if classifies c s then
    ownClassification c.ops (afterTraining T changes).trained a (tokenize c.text s.order raw)
  else none

/-- **Every verdict is the one of all-zero counts**, whoever the recipients are. -/
theorem spamVerdict_bayesProb
    (hfresh : ∀ call ∈ (afterTraining T changes).trained, call.accountId ≠ s.newAccountId) :
    (c.spamVerdict (s.after T changes) raw).bayesProb =
      if classifies c s ∧ tokenize c.text s.order raw ≠ [] then
        some (bayesProbability c.ops (.collect (fun _ => (0, 0)) (tokenize c.text s.order raw))
          (tokenize c.text s.order raw))
      else none := by
  have hzero : TokenCounts.collect
      (queryToken (afterTraining T changes).spamTokens s.newAccountId s.answered)
      (tokenize c.text s.order raw) =
      .collect (fun _ => (0, 0)) (tokenize c.text s.order raw) :=
    TokenCounts.collect_congr fun token _ =>
      queryToken_of_untrained (untrained_of_fresh hfresh) s.answered token
  unfold ServerCore.spamVerdict
  by_cases hon : c.spamConfig.enabled
  · rw [if_pos hon, HeuristicScanner.scan_bayesProb, classify_eq]
    simp only [ScanCalls.after, hzero, classifies, hon]
    by_cases hreached : s.reached <;> simp [hreached]
  · rw [if_neg hon]
    simp [SpamVerdict.default, classifies, hon]

/-- The account trained some token of the message, and each as often as junk as not. -/
def EvenlyTrained (a : AccountId) : Prop :=
  (∃ token ∈ tokenize c.text s.order raw, Trained (afterTraining T changes).trained a token) ∧
    ∀ token ∈ tokenize c.text s.order raw,
      (trainedCounts (afterTraining T changes).trained a token).1 =
          (trainedCounts (afterTraining T changes).trained a token).2 ∧
        (trainedCounts (afterTraining T changes).trained a token).1 < 2 ^ 32

instance (a : AccountId) : Decidable (EvenlyTrained c T changes s raw a) :=
  inferInstanceAs (Decidable (_ ∧ _))

/-- **When training reaches delivery.** The Bayes part of a verdict is the classification
under the account's own counts if no classification is made at all, or if the account's counts
are even. For an account that trained none of the tokens the first is the only case. -/
theorem bayesProb_of_evenlyTrained (L : c.ops.Lawful)
    (hfresh : ∀ call ∈ (afterTraining T changes).trained, call.accountId ≠ s.newAccountId)
    (a : AccountId) :
    (¬(classifies c s ∧ tokenize c.text s.order raw ≠ []) ∨ EvenlyTrained c T changes s raw a →
      (c.spamVerdict (s.after T changes) raw).bayesProb = expectedBayes c T changes s raw a) ∧
    ((∀ token ∈ tokenize c.text s.order raw, ¬Trained (afterTraining T changes).trained a token) →
      ((c.spamVerdict (s.after T changes) raw).bayesProb = expectedBayes c T changes s raw a ↔
        ¬(classifies c s ∧ tokenize c.text s.order raw ≠ []))) := by
  rw [spamVerdict_bayesProb c T changes s raw hfresh, expectedBayes, ownClassification]
  set tokens := tokenize c.text s.order raw with htokens
  have hquiet : ¬(classifies c s ∧ tokens ≠ []) →
      (if classifies c s ∧ tokens ≠ [] then
        some (bayesProbability c.ops (.collect (fun _ => (0, 0)) tokens) tokens) else none) =
      if classifies c s then
        if ∃ token ∈ tokens, Trained (afterTraining T changes).trained a token then
          some (bayesProbability c.ops
            (.collect (trainedCounts (afterTraining T changes).trained a) tokens) tokens)
        else none
      else none := by
    intro hnot
    rw [if_neg hnot]
    by_cases hon : classifies c s
    · have hempty : tokens = [] := by_contra fun hne => hnot ⟨hon, hne⟩
      simp [hempty]
    · rw [if_neg hon]
  refine ⟨fun h => ?_, fun huntrained => ⟨fun h hon => ?_, hquiet⟩⟩
  · by_cases hon : classifies c s ∧ tokens ≠ []
    · obtain ⟨htrained, heven⟩ := h.resolve_left (not_not_intro hon)
      have hzero : TokenCounts.Even (.collect (fun _ => (0, 0)) tokens) := by
        intro e he
        rw [(TokenCounts.of_mem_collect he).2]
        exact ⟨rfl, by decide⟩
      have hown : TokenCounts.Even
          (.collect (trainedCounts (afterTraining T changes).trained a) tokens) := by
        intro e he
        obtain ⟨hmem, hcounts⟩ := TokenCounts.of_mem_collect he
        rw [hcounts]
        exact heven e.1 hmem
      rw [if_pos hon, if_pos hon.1, if_pos htrained, bayesProbability_of_even L hzero,
        bayesProbability_of_even L hown]
    · exact hquiet hon
  · have hnone : ¬∃ token ∈ tokens, Trained (afterTraining T changes).trained a token := by
      rintro ⟨token, hmem, htrained⟩
      exact huntrained token hmem htrained
    rw [if_pos hon, if_pos hon.1, if_neg hnone] at h
    cases h

end Verdict

/-! ## A message for an account that trained nothing -/

/-- A scan of a message under the made-up id `9`. -/
def sampleScan : ScanCalls := ⟨[], ⟨9⟩, none, ⟨id, List.Perm.refl⟩, true, fun _ => true⟩

/-- The first account marks the message `pills` as junk. -/
def sampleChanges : List JunkChange :=
  [⟨⟨1⟩, false, true, some [112, 105, 108, 108, 115], ⟨id, List.Perm.refl⟩, Io.ok⟩]

/-- The second account trained nothing, and still has a Bayes part in its verdict. -/
theorem bayesProb_ne_expected :
    ((sampleCore true).spamVerdict (sampleScan.after sampleText sampleChanges)
        [112, 105, 108, 108, 115]).bayesProb ≠
      expectedBayes (sampleCore true) sampleText sampleChanges sampleScan
        [112, 105, 108, 108, 115] ⟨2⟩ := by
  decide +kernel

/-- The first account also marks a message `pills` as not junk after all. -/
def evenChanges : List JunkChange :=
  sampleChanges ++
    [⟨⟨1⟩, true, false, some [112, 105, 108, 108, 115], ⟨id, List.Perm.refl⟩, Io.ok⟩]

/-- Once junk and once not: the probability of its counts is the one in the verdict. -/
theorem bayesProb_of_evenlyTrained_pills :
    ((sampleCore true).spamVerdict (sampleScan.after sampleText evenChanges)
        [112, 105, 108, 108, 115]).bayesProb =
      expectedBayes (sampleCore true) sampleText evenChanges sampleScan
        [112, 105, 108, 108, 115] ⟨1⟩ :=
  (bayesProb_of_evenlyTrained (sampleCore true) sampleText evenChanges sampleScan
    [112, 105, 108, 108, 115] exactOps_lawful (by decide +kernel) ⟨1⟩).1 (.inr (by decide +kernel))

end Owney
