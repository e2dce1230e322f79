import Mathlib.Algebra.BigOperators.Group.List.Basic
import Owney.MailStore

/-!
# The Bayes classifier and its training store

The token counts of `spam_store.rs` and what `owney-spam` makes of them:

* `trainSpamTokens` — one call that adds a message's tokens to an account's counts;
* `getSpamTokenCounts` — the counts of a message's tokens, where a token without a row
  counts as `(0, 0)`;
* `classify` — the probability from the counts, and
* `HeuristicScanner.scan` — the verdict the classifier is one part of.

The `f32` arithmetic of the scores is a parameter (`F32Ops`): which counts a probability is
computed from does not depend on how it is rounded. The heuristic rules see the message
only, so their verdict is a parameter as well.
-/

namespace Owney

open Tables

/-! ## Token counts -/

/-- A row of `spam_tokens`; `(accountId, token)` is the primary key. -/
structure SpamTokensRow where
  accountId : AccountId
  token : String
  spamCount : ℕ
  hamCount : ℕ
  deriving DecidableEq, Repr

namespace SpamTokensRow

/-- `WHERE account_id = ?1 AND token = ?2`. -/
def keyed (a : AccountId) (token : String) (r : SpamTokensRow) : Bool :=
  r.accountId = a ∧ r.token = token

/-- The column a training call adds to. -/
def count (isSpam : Bool) (r : SpamTokensRow) : ℕ := if isSpam then r.spamCount else r.hamCount

/-- `SET spam_count = spam_count + 1`, or the same for `ham_count`. -/
def increment (isSpam : Bool) (r : SpamTokensRow) : SpamTokensRow :=
  if isSpam then { r with spamCount := r.spamCount + 1 } else { r with hamCount := r.hamCount + 1 }

/-- `VALUES (?1, ?2, 1, 0)` for spam, `(?1, ?2, 0, 1)` for ham. -/
def first (a : AccountId) (token : String) (isSpam : Bool) : SpamTokensRow :=
  if isSpam then ⟨a, token, 1, 0⟩ else ⟨a, token, 0, 1⟩

end SpamTokensRow

/-- The table `spam_tokens`. -/
abbrev SpamTokens : Type := List SpamTokensRow

/-- The upsert of one token. A count past `i64::MAX` is a REAL, which the STRICT column
refuses. -/
def trainToken (io : Io) (n : ℕ) (a : AccountId) (isSpam : Bool) (token : String) :
    Tx SpamTokens PUnit := do
  let db ← Tx.get
  Tx.require (∀ r ∈ db, r.keyed a token → r.count isSpam < i64Max) .sqlite
  Tx.exec io n (upsert (·.keyed a token) (·.increment isSpam) (.first a token isSpam))

/-- The loop of `train_spam_tokens` from its `n`-th token on, and the commit. -/
def trainTokens (io : Io) (a : AccountId) (isSpam : Bool) : ℕ → List String → Tx SpamTokens PUnit
  | n, [] => Tx.exec io n id
  | n, token :: tokens => do
    trainToken io n a isSpam token
    trainTokens io a isSpam (n + 1) tokens

/-- `Storage::train_spam_tokens`. -/
def trainSpamTokens (io : Io) (a : AccountId) (tokens : List String) (isSpam : Bool)
    (db : SpamTokens) : Except StorageError PUnit × SpamTokens :=
  if tokens = [] then (.ok ⟨⟩, db) else transaction (trainTokens io a isSpam 0 tokens) db

/-- `{ token -> (spam_count, ham_count) }`. -/
abbrev TokenCounts : Type := List (String × ℕ × ℕ)

namespace TokenCounts

/-- `HashMap::insert`. -/
def insert (counts : TokenCounts) (token : String) (c : ℕ × ℕ) : TokenCounts :=
  counts.filter (fun e => e.1 ≠ token) ++ [(token, c)]

/-- `counts.get(token).copied().unwrap_or((0, 0))`. -/
def get (counts : TokenCounts) (token : String) : ℕ × ℕ :=
  ((counts.find? fun e => e.1 = token).map (·.2)).getD (0, 0)

/-- The map that holds `f token` for each of the tokens. -/
def collect (f : String → ℕ × ℕ) (tokens : List String) : TokenCounts :=
  tokens.foldl (fun counts token => counts.insert token (f token)) []

/-- `counts.values().map(|(s, _)| s).sum::<u32>()`; in a release build the sum wraps. -/
def spamTotal (counts : TokenCounts) : ℕ := (counts.map (·.2.1)).sum % 2 ^ 32

/-- `counts.values().map(|(_, h)| h).sum::<u32>()`. -/
def hamTotal (counts : TokenCounts) : ℕ := (counts.map (·.2.2)).sum % 2 ^ 32

end TokenCounts

/-- The query of one token: no row, a failure and a count that is not a `u32` all end in
`unwrap_or((0, 0))`. -/
def queryToken (db : SpamTokens) (a : AccountId) (answered : String → Bool) (token : String) :
    ℕ × ℕ :=
  match db.find? (·.keyed a token) with
  | none => (0, 0)
  | some r =>
    if answered token ∧ r.spamCount < 2 ^ 32 ∧ r.hamCount < 2 ^ 32 then (r.spamCount, r.hamCount)
    else (0, 0)

/-- `Storage::get_spam_token_counts`; `reached` is whether the writer thread took the call,
`answered` which of its queries succeeded. -/
def getSpamTokenCounts (db : SpamTokens) (a : AccountId) (reached : Bool)
    (answered : String → Bool) (tokens : List String) : Except StorageError TokenCounts :=
  if tokens = [] then .ok []
  else if reached then .ok (TokenCounts.collect (queryToken db a answered) tokens)
  else .error .closed

/-! ## Tokens -/

/-- The order a `HashSet` hands its elements out in, which differs from set to set. -/
abbrev HashOrder : Type := { order : List String → List String // ∀ l, (order l).Perm l }

/-- The text operations of the tokenizer. -/
structure TextOps where
  unicode : Unicode
  /-- `char::is_alphanumeric` -/
  isAlphanumeric : Char → Bool
  /-- `String::from_utf8_lossy` -/
  fromUtf8Lossy : List UInt8 → String

/-- The maximal runs of characters that meet `p`, the empty ones between two separators
included (`str::split` on the other characters). -/
def splitWords (p : Char → Bool) : List Char → List (List Char)
  | [] => [[]]
  | c :: cs =>
    if p c then
      match splitWords p cs with
      | [] => [[c]]
      | w :: ws => (c :: w) :: ws
    else [] :: splitWords p cs

/-- `tokenize`. -/
def tokenize (T : TextOps) (order : HashOrder) (raw : List UInt8) : List String :=
  let words := splitWords T.isAlphanumeric (T.fromUtf8Lossy raw).toList
  let lowered := words.map fun w => T.unicode.toLowercase (String.ofList w)
  order.1 ((lowered.filter fun w => 3 ≤ w.utf8ByteSize ∧ w.utf8ByteSize < 100).eraseDups)

/-! ## The classifier -/

/-- The `f32` operations of the scores. -/
structure F32Ops (F : Type) where
  /-- `as f32` of a `u32` -/
  ofNat : ℕ → F
  /-- the value of a decimal literal -/
  lit : ℚ → F
  add : F → F → F
  mul : F → F → F
  div : F → F → F
  neg : F → F
  max : F → F → F
  min : F → F → F
  ln : F → F
  exp : F → F
  /-- `<`, which is false on a NaN -/
  lt : F → F → Bool
  /-- `>=`, which is false on a NaN -/
  ge : F → F → Bool
  /-- `format!("{:.1}", x)` -/
  fixed1 : F → String
  /-- `format!("{:.2}", x)` -/
  fixed2 : F → String

section Scores

variable {F : Type} (ops : F32Ops F)

/-- `f32::clamp(0.0, 1.0)`. -/
def F32Ops.clamp01 (x : F) : F :=
  if ops.lt x (ops.lit 0) then ops.lit 0 else if ops.lt (ops.lit 1) x then ops.lit 1 else x

/-- `(count as f32 + SMOOTHING) / total`, where the total is smoothed by two. -/
def smoothed (count total : ℕ) : F :=
  ops.div (ops.add (ops.ofNat count) (ops.lit 1))
    (ops.add (ops.ofNat total) (ops.mul (ops.lit 1) (ops.lit 2)))

/-- The loop's step: one token's log-odds. -/
def addLogOdds (counts : TokenCounts) (logSpamRatio : F) (token : String) : F :=
  let pTokenGivenSpam := smoothed ops (counts.get token).1 counts.spamTotal
  let pTokenGivenHam := smoothed ops (counts.get token).2 counts.hamTotal
  if ops.lt (ops.lit 0) pTokenGivenHam then
    let ratio := ops.max (ops.div pTokenGivenSpam pTokenGivenHam) (ops.lit (1 / 10 ^ 10))
    ops.add logSpamRatio (ops.ln ratio)
  else logSpamRatio

/-- `bayes_probability`. -/
def bayesProbability (counts : TokenCounts) (tokens : List String) : F :=
  let logSpamRatio := tokens.foldl (addLogOdds ops counts) (ops.lit 0)
  ops.clamp01 (ops.div (ops.lit 1) (ops.add (ops.lit 1) (ops.exp (ops.neg logSpamRatio))))

/-- `classify`, which never returns an error. -/
def classify (db : SpamTokens) (a : AccountId) (reached : Bool) (answered : String → Bool)
    (tokens : List String) : Option F :=
  if tokens = [] then none
  else
    match getSpamTokenCounts db a reached answered tokens with
    | .ok counts => if counts = [] then none else some (bayesProbability ops counts tokens)
    | .error _ => none

/-! ## The scanner -/

/-- A spam scanning verdict for one message. -/
structure SpamVerdict (F : Type) where
  score : F
  matchedRules : List String
  dnsblHits : List String
  bayesProb : Option F
  deriving DecidableEq, Repr

/-- `SpamVerdict::default()`. -/
def SpamVerdict.default : SpamVerdict F := ⟨ops.lit 0, [], [], none⟩

/-- `RulesVerdict`. -/
structure RulesVerdict (F : Type) where
  score : F
  matchedRules : List String

/-- The DNSBL part of a verdict; an error counts as no hits. -/
def withDnsbl (hits : Option (List String)) (v : SpamVerdict F) : SpamVerdict F :=
  match hits with
  | none => v
  | some hits =>
    let v := { v with dnsblHits := hits }
    if hits = [] then v
    else
      { v with
        score := ops.add v.score (ops.lit (3 / 10))
        matchedRules := v.matchedRules ++ ["DNSBL hit: " ++ String.intercalate ", " hits] }

/-- The part of the heuristic rules. -/
def withRules (rules : RulesVerdict F) (v : SpamVerdict F) : SpamVerdict F :=
  { v with
    score := ops.add v.score (ops.mul rules.score (ops.lit (1 / 2)))
    matchedRules := v.matchedRules ++ rules.matchedRules }

/-- The Bayes part. -/
def withBayes (bayes : Option F) (v : SpamVerdict F) : SpamVerdict F :=
  match bayes with
  | none => v
  | some p =>
    let score := ops.add (ops.mul v.score (ops.lit (3 / 10))) (ops.mul p (ops.lit (7 / 10)))
    let rule := "Bayes: " ++ ops.fixed1 (ops.mul p (ops.lit 100)) ++ "% spam"
    { v with
      score := score
      bayesProb := some p
      matchedRules := v.matchedRules ++ if ops.lt (ops.lit (8 / 10)) p then [rule] else [] }

/-- `HeuristicScanner::scan`, of the verdicts of its three parts. -/
def HeuristicScanner.scan (hits : Option (List String)) (rules : RulesVerdict F)
    (bayes : Option F) : SpamVerdict F :=
  let v := withBayes ops bayes (withRules ops rules (withDnsbl ops hits (.default ops)))
  { v with score := ops.clamp01 v.score }

/-- The verdict reports the classifier's probability as it is. -/
@[simp] theorem HeuristicScanner.scan_bayesProb (hits : Option (List String))
    (rules : RulesVerdict F) (bayes : Option F) :
    (HeuristicScanner.scan ops hits rules bayes).bayesProb = bayes := by
  have hdnsbl : (withDnsbl ops hits (.default ops)).bayesProb = none := by
    cases hits with
    | none => rfl
    | some hits => by_cases h : hits = [] <;> simp [withDnsbl, h, SpamVerdict.default]
  cases bayes with
  | none => simpa [HeuristicScanner.scan, withBayes, withRules] using hdnsbl
  | some p => simp [HeuristicScanner.scan, withBayes]

end Scores

/-- Exact arithmetic in place of `f32`. It agrees with it on halves and small integers; `ln`
and `exp` are the first-order ones, which are exact at `1` and at `0`. -/
def exactOps : F32Ops ℚ where
  ofNat n := n
  lit q := q
  add := (· + ·)
  mul := (· * ·)
  div := (· / ·)
  neg := (- ·)
  max := max
  min := min
  ln x := x - 1
  exp x := 1 + x
  lt x y := x < y
  ge x y := y ≤ x
  fixed1 := toString
  fixed2 := toString

/-- What `f32` keeps of arithmetic near one and zero. A smoothed share of counts that are `u32`
is a positive finite number. -/
structure F32Ops.Lawful {F : Type} (ops : F32Ops F) : Prop where
  div_self : ∀ count < 2 ^ 32, ∀ total < 2 ^ 32,
    ops.div (smoothed ops count total) (smoothed ops count total) = ops.lit 1
  max_one : ops.max (ops.lit 1) (ops.lit (1 / 10 ^ 10)) = ops.lit 1
  ln_one : ops.ln (ops.lit 1) = ops.lit 0
  add_zero : ops.add (ops.lit 0) (ops.lit 0) = ops.lit 0

theorem exactOps_lawful : exactOps.Lawful where
  div_self count _ total _ := by
    have hcount : (0 : ℚ) < count + 1 := by positivity
    have htotal : (0 : ℚ) < total + 1 * 2 := by positivity
    exact div_self (div_pos hcount htotal).ne'
  max_one := max_eq_left (by norm_num [exactOps])
  ln_one := sub_self _
  add_zero := add_zero _

/-- ASCII text. -/
def sampleText : TextOps where
  unicode := .ascii
  isAlphanumeric := Char.isAlphanum
  fromUtf8Lossy raw := String.ofList (raw.map fun b => Char.ofNat b.toNat)

/-! ## What the store answers -/

namespace TokenCounts

theorem collect_ne_nil {f : String → ℕ × ℕ} {tokens : List String} (h : tokens ≠ []) :
    collect f tokens ≠ [] := by
  rcases List.eq_nil_or_concat tokens with rfl | ⟨front, last, rfl⟩
  · exact absurd rfl h
  · simp [collect, insert]

theorem of_mem_collect {f : String → ℕ × ℕ} {tokens : List String} {e : String × ℕ × ℕ}
    (h : e ∈ collect f tokens) : e.1 ∈ tokens ∧ e.2 = f e.1 := by
  induction tokens using List.reverseRecOn with
  | nil => cases h
  | append_singleton front last ih =>
    rw [collect, List.foldl_append] at h
    rcases List.mem_append.mp h with hfront | hlast
    · obtain ⟨hmem, hcounts⟩ := ih (List.mem_of_mem_filter hfront)
      exact ⟨List.mem_append_left _ hmem, hcounts⟩
    · rw [List.mem_singleton.mp hlast]
      exact ⟨List.mem_append_right _ (List.mem_singleton_self _), rfl⟩

/-- Each token has as many occurrences in junk as elsewhere, a `u32`. -/
def Even (counts : TokenCounts) : Prop := ∀ e ∈ counts, e.2.1 = e.2.2 ∧ e.2.1 < 2 ^ 32

theorem Even.get {counts : TokenCounts} (h : counts.Even) (token : String) :
    (counts.get token).1 = (counts.get token).2 ∧ (counts.get token).1 < 2 ^ 32 := by
  rcases hfind : counts.find? (fun e => e.1 = token) with _ | e
  · simp [TokenCounts.get, hfind]
  · simpa [TokenCounts.get, hfind] using h e (List.mem_of_find?_eq_some hfind)

theorem Even.totals {counts : TokenCounts} (h : counts.Even) :
    counts.spamTotal = counts.hamTotal := by
  have hsame : counts.map (·.2.1) = counts.map (·.2.2) :=
    List.map_congr_left fun e he => (h e he).1
  rw [spamTotal, hamTotal, hsame]

theorem collect_congr {f g : String → ℕ × ℕ} {tokens : List String}
    (h : ∀ token ∈ tokens, f token = g token) : collect f tokens = collect g tokens := by
  unfold collect
  refine List.foldl_ext _ _ _ fun counts token ht => ?_
  rw [h token ht]

end TokenCounts

section Neutral

variable {F : Type} {ops : F32Ops F} {counts : TokenCounts}

/-- Even counts of a token say nothing either way. -/
theorem addLogOdds_of_even (L : ops.Lawful) (h : counts.Even) (token : String) :
    addLogOdds ops counts (ops.lit 0) token = ops.lit 0 := by
  obtain ⟨hsame, hlt⟩ := h.get token
  have htotal : counts.hamTotal < 2 ^ 32 := Nat.mod_lt _ (by decide)
  simp only [addLogOdds, h.totals, ← hsame, L.div_self _ hlt _ htotal, L.max_one, L.ln_one,
    L.add_zero, ite_self]

/-- **Even counts give the neutral probability**, whatever they are. -/
theorem bayesProbability_of_even (L : ops.Lawful) (h : counts.Even) (tokens : List String) :
    bayesProbability ops counts tokens =
      ops.clamp01 (ops.div (ops.lit 1) (ops.add (ops.lit 1) (ops.exp (ops.neg (ops.lit 0))))) := by
  have hfold : tokens.foldl (addLogOdds ops counts) (ops.lit 0) = ops.lit 0 := by
    induction tokens with
    | nil => rfl
    | cons token tokens ih => rw [List.foldl_cons, addLogOdds_of_even L h token, ih]
  rw [bayesProbability, hfold]

end Neutral

/-- An account without rows has the counts `(0, 0)`, whichever queries fail. -/
theorem queryToken_of_untrained {db : SpamTokens} {a : AccountId}
    (h : ∀ r ∈ db, r.accountId ≠ a) (answered : String → Bool) (token : String) :
    queryToken db a answered token = (0, 0) := by
  have hnone : db.find? (·.keyed a token) = none := by
    rw [List.find?_eq_none]
    intro r hr
    simp [SpamTokensRow.keyed, h r hr]
  simp [queryToken, hnone]

/-- **A message with tokens is always classified**, if only the call reaches the store:
the store's answer does not tell an untrained token from one with zero counts. -/
theorem classify_eq {F : Type} (ops : F32Ops F) (db : SpamTokens) (a : AccountId) (reached : Bool)
    (answered : String → Bool) (tokens : List String) :
    classify ops db a reached answered tokens =
      if tokens ≠ [] ∧ reached then
        some (bayesProbability ops (.collect (queryToken db a answered) tokens) tokens)
      else none := by
  by_cases ht : tokens = []
  · simp [classify, ht]
  · cases reached with
    | false => simp [classify, getSpamTokenCounts, ht]
    | true => simp [classify, getSpamTokenCounts, ht, TokenCounts.collect_ne_nil ht]

end Owney
