import Mathlib.Algebra.Order.Group.Nat
import Mathlib.Data.List.AList
import Mathlib.Data.List.Count
import Mathlib.Data.List.Induction
import Mathlib.Tactic.SplitIfs

/-!
# The rate limiter of the booking pages

The public booking endpoints share one in-memory limiter with a bucket for each address and
action: the start of a window and the hits since. The model follows `allow` as the release build
runs it, so the `u32` of hits and the `u64` of a window's end wrap.

* `clean` is the clean-up of a large map. It goes by the window of the action that is being
  counted, for the buckets of all actions.
* `false_justified` — a call is turned away only after `limit` calls that passed.
* `limited_of_spared` — no window passes more than `limit` calls in a run whose calls all leave
  the running windows alone (`Spares`).
* `not_limited_clean_up` — ten thousand and one visitors of the slots endpoint reset the hourly
  quota of the booking endpoint.
-/

namespace Owney.RateLimiter

/-! ## Buckets -/

/-- `std::net::IpAddr`. -/
inductive IpAddr where
  | v4 (octets : BitVec 32)
  | v6 (octets : BitVec 128)
deriving DecidableEq, Repr

/-- A bucket belongs to an address and an action. -/
abbrev Key := IpAddr × String

/-- The map of buckets: `(window_start, hits)` for each key. -/
abbrev Buckets := AList fun _ : Key => Nat × Nat

/-- `HashMap::len`. -/
def Buckets.len (buckets : Buckets) : Nat := buckets.entries.length

/-- `HashMap::retain`. -/
def Buckets.retain (buckets : Buckets) (keep : Nat × Nat → Bool) : Buckets where
  entries := buckets.entries.filter fun e => keep e.2
  nodupKeys := buckets.nodupKeys.sublist List.filter_sublist

theorem mem_lookup_retain {buckets : Buckets} {keep : Nat × Nat → Bool} {key : Key}
    {bucket : Nat × Nat} :
    bucket ∈ (buckets.retain keep).lookup key ↔ bucket ∈ buckets.lookup key ∧ keep bucket := by
  simp only [AList.mem_lookup_iff, Buckets.retain, List.mem_filter]

theorem len_insert {buckets : Buckets} {key : Key} (bucket : Nat × Nat) (h : key ∉ buckets) :
    (Buckets.len (buckets.insert key bucket)) = buckets.len + 1 := by
  rw [Buckets.len, AList.entries_insert_of_notMem h, List.length_cons, Buckets.len]

/-! ## One call -/

/-- What an action is counted by: at most `limit` calls in each window of `window_secs`. -/
structure Rule where
  limit : Nat
  window_secs : Nat
  window_pos : 0 < window_secs
deriving Repr

/-- The start of the aligned window that a time lies in. -/
def windowStart (window_secs now : Nat) : Nat := now - now % window_secs

/-- The clean-up of a map of more than 10,000 buckets. -/
def clean (buckets : Buckets) (window_secs now : Nat) : Buckets :=
  if 10000 < buckets.len then
    buckets.retain fun bucket => decide (now < (bucket.1 + window_secs) % 2 ^ 64)
  else buckets

/-- The bucket that a call finds: a new one if there is none, or none of this window. -/
def entry (buckets : Buckets) (key : Key) (window : Nat) : Nat × Nat :=
  let found := (buckets.lookup key).getD (window, 0)
  if found.1 ≠ window then (window, 0) else found

/-- `RateLimiter::allow` at the time `now`. -/
def allow (buckets : Buckets) (ip : IpAddr) (action : String) (limit window_secs now : Nat) :
    Bool × Buckets :=
  let window := windowStart window_secs now
  let buckets := clean buckets window_secs now
  let found := entry buckets (ip, action) window
  let hits := (found.2 + 1) % 2 ^ 32
  (decide (hits ≤ limit), buckets.insert (ip, action) (found.1, hits))

/-! ## Runs -/

/-- A call of the limiter: who asks for which action, and the clock. -/
structure Call where
  ip : IpAddr
  action : String
  now : Nat
deriving DecidableEq, Repr

/-- A call with its answer. -/
structure Answered where
  call : Call
  passed : Bool
deriving DecidableEq, Repr

variable (rules : String → Rule)

/-- The window of a call. -/
def Call.window (c : Call) : Nat := windowStart (rules c.action).window_secs c.now

/-- One call of a run: every action comes with its own rule. -/
def serve (s : Buckets × List Answered) (c : Call) : Buckets × List Answered :=
  let rule := rules c.action
  let r := allow s.1 c.ip c.action rule.limit rule.window_secs c.now
  (r.2, s.2 ++ [⟨c, r.1⟩])

/-- The buckets after a run from the empty map, and the answers. -/
def served (calls : List Call) : Buckets × List Answered := calls.foldl (serve rules) (∅, [])

@[simp] theorem served_nil : served rules [] = (∅, []) := rfl

@[simp] theorem served_concat (calls : List Call) (c : Call) :
    served rules (calls ++ [c]) = serve rules (served rules calls) c := by
  simp [served, List.foldl_append]

/-! ## What the limiter is for -/

/-- The calls of an address and an action that passed in one window. -/
def passes (log : List Answered) (key : Key) (start : Nat) : Nat :=
  log.countP fun a => a.passed ∧ (a.call.ip, a.call.action) = key ∧ a.call.window rules = start

/-- In no window do more than `limit` calls pass. -/
def Limited (log : List Answered) : Prop :=
  ∀ key start, passes rules log key start ≤ (rules key.2).limit

/-- A call is turned away only if `limit` earlier ones of its window passed. -/
def Justified (log : List Answered) : Prop :=
  ∀ before a after, log = before ++ a :: after → a.passed = false →
    (rules a.call.action).limit ≤
      passes rules before (a.call.ip, a.call.action) (a.call.window rules)

/-- The calls come in the order of time. -/
def Chronological (calls : List Call) : Prop := calls.Pairwise fun c d => c.now ≤ d.now

/-- A call leaves the running windows alone: its clean-up, if there is one, keeps every bucket
whose own window has not ended, and its bucket's `u32` has room for one more hit. -/
structure Spares (buckets : Buckets) (c : Call) : Prop where
  clean_up : 10000 < buckets.len → ∀ key start hits, (start, hits) ∈ buckets.lookup key →
    c.now < start + (rules key.2).window_secs →
    c.now < (start + (rules c.action).window_secs) % 2 ^ 64
  room : ∀ hits, (c.window rules, hits) ∈ buckets.lookup (c.ip, c.action) → hits + 1 < 2 ^ 32

/-- Every call of a run does. -/
def Spared (calls : List Call) : Prop :=
  ∀ before c after, calls = before ++ c :: after → Spares rules (served rules before).1 c

/-! ## Windows -/

theorem windowStart_le (w now : Nat) : windowStart w now ≤ now := Nat.sub_le ..

theorem lt_windowStart_add {w : Nat} (hw : 0 < w) (now : Nat) : now < windowStart w now + w := by
  have hmod := Nat.mod_lt now hw
  rw [windowStart]
  omega

/-- A window that has started before a time and has not ended at it is the window of that time. -/
theorem windowStart_eq {w s now : Nat} (hle : windowStart w s ≤ now)
    (hlt : now < windowStart w s + w) : windowStart w s = windowStart w now := by
  have hs : windowStart w s = w * (s / w) := by
    have := Nat.div_add_mod s w
    rw [windowStart]
    omega
  have hdiv : now / w = s / w := by
    rw [hs] at hle hlt
    rw [Nat.div_eq_of_lt_le]
    · rwa [Nat.mul_comm]
    · rwa [Nat.succ_mul, Nat.mul_comm]
  have hnow := Nat.div_add_mod now w
  rw [hs, windowStart, ← hdiv]
  omega

/-! ## One call -/

section Step

variable {rules : String → Rule} {s : Buckets × List Answered} {c : Call}

/-- The hits that the buckets hold for a key in the window that starts at `start`. -/
def hitsAt (buckets : Buckets) (key : Key) (start : Nat) : Nat := (entry buckets key start).2

theorem entry_fst (buckets : Buckets) (key : Key) (window : Nat) :
    (entry buckets key window).1 = window := by
  rw [entry]
  split_ifs with h
  · rfl
  · exact not_not.mp h

/-- A bucket holds hits only of its own window. -/
theorem hitsAt_eq_zero_or (buckets : Buckets) (key : Key) (start : Nat) :
    hitsAt buckets key start = 0 ∨
      (start, hitsAt buckets key start) ∈ buckets.lookup key := by
  rcases hfound : buckets.lookup key with _ | ⟨start', hits⟩
  · left
    simp [hitsAt, entry, hfound]
  · by_cases h : start' = start
    · right
      simp [hitsAt, entry, hfound, h]
    · left
      simp [hitsAt, entry, hfound, h]

theorem hitsAt_of_mem {buckets : Buckets} {key : Key} {start hits : Nat}
    (h : (start, hits) ∈ buckets.lookup key) : hitsAt buckets key start = hits := by
  rw [Option.mem_def] at h
  simp [hitsAt, entry, h]

theorem hitsAt_insert (buckets : Buckets) (key : Key) (start hits : Nat) :
    hitsAt (buckets.insert key (start, hits)) key start = hits :=
  hitsAt_of_mem (by simp)

theorem hitsAt_insert_of_ne (buckets : Buckets) {key key' : Key} {start start' hits : Nat}
    (h : (key', start') ≠ (key, start)) :
    hitsAt (buckets.insert key (start, hits)) key' start' =
      if key' = key then 0 else hitsAt buckets key' start' := by
  split_ifs with hkey
  · subst hkey
    have hne : start ≠ start' := fun e => h (by rw [e])
    simp [hitsAt, entry, hne]
  · simp [hitsAt, entry, AList.lookup_insert_ne hkey]

/-- The clean-up keeps what a bucket holds or drops it. -/
theorem hitsAt_clean_le (buckets : Buckets) (w now : Nat) (key : Key) (start : Nat) :
    hitsAt (clean buckets w now) key start ≤ hitsAt buckets key start := by
  rw [clean]
  split_ifs
  · rcases hitsAt_eq_zero_or (buckets.retain _) key start with h | h
    · rw [h]
      exact Nat.zero_le _
    · rw [hitsAt_of_mem (mem_lookup_retain.mp h).1]
  · exact Nat.le_refl _

/-- One that spares the running windows keeps their hits. -/
theorem hitsAt_clean {buckets : Buckets} (hspares : Spares rules buckets c) {key : Key}
    {start : Nat} (hlt : c.now < start + (rules key.2).window_secs) :
    hitsAt (clean buckets (rules c.action).window_secs c.now) key start =
      hitsAt buckets key start := by
  refine Nat.le_antisymm (hitsAt_clean_le ..) ?_
  rw [clean]
  split_ifs with hlen
  · rcases hitsAt_eq_zero_or buckets key start with h | h
    · rw [h]
      exact Nat.zero_le _
    · have hkeep := hspares.clean_up hlen key start _ h hlt
      rw [hitsAt_of_mem (mem_lookup_retain.mpr ⟨h, by simpa using hkeep⟩)]
  · exact Nat.le_refl _

/-- The hits of a call's bucket, the call included. -/
def hitsOf (rules : String → Rule) (buckets : Buckets) (c : Call) : Nat :=
  (hitsAt (clean buckets (rules c.action).window_secs c.now) (c.ip, c.action) (c.window rules) + 1)
    % 2 ^ 32

/-- What one call does to the buckets and what it answers. -/
theorem serve_eq : serve rules s c =
    ((clean s.1 (rules c.action).window_secs c.now).insert (c.ip, c.action)
        (c.window rules, hitsOf rules s.1 c),
      s.2 ++ [⟨c, decide (hitsOf rules s.1 c ≤ (rules c.action).limit)⟩]) := by
  simp only [serve, allow, entry_fst]
  rfl

/-- What one answer adds to the calls that passed. -/
theorem passes_concat (log : List Answered) (a : Answered) (key : Key) (start : Nat) :
    passes rules (log ++ [a]) key start = passes rules log key start +
      if a.passed ∧ (a.call.ip, a.call.action) = key ∧ a.call.window rules = start then 1
      else 0 := by
  simp [passes, List.countP_append, List.countP_cons]

end Step

/-! ## Calls that are turned away -/

section Refusals

variable {rules : String → Rule}

/-- The bucket of a window holds no more hits than calls that passed in it, up to the limit. -/
def Covered (rules : String → Rule) (s : Buckets × List Answered) : Prop :=
  ∀ key start, min (hitsAt s.1 key start) (rules key.2).limit ≤ passes rules s.2 key start

theorem covered_serve {s : Buckets × List Answered} (h : Covered rules s) (c : Call) :
    Covered rules (serve rules s c) := by
  intro key start
  rw [serve_eq, passes_concat]
  have hold := h key start
  have hclean := hitsAt_clean_le s.1 (rules c.action).window_secs c.now key start
  by_cases hown : (key, start) = ((c.ip, c.action), c.window rules)
  · obtain ⟨rfl, rfl⟩ := Prod.mk.inj hown
    have hhits : hitsOf rules s.1 c ≤ hitsAt (clean s.1 (rules c.action).window_secs c.now)
        (c.ip, c.action) (c.window rules) + 1 := Nat.mod_le ..
    rw [hitsAt_insert]
    simp only [decide_eq_true_eq, and_self, and_true] at hold ⊢
    split_ifs <;> omega
  · rw [hitsAt_insert_of_ne _ hown]
    split_ifs <;> omega

variable (rules) in
theorem covered_served (calls : List Call) : Covered rules (served rules calls) := by
  induction calls using List.reverseRecOn with
  | nil =>
    intro key start
    simp [hitsAt, entry]
  | append_singleton calls c ih =>
    rw [served_concat]
    exact covered_serve ih c

/-- **No call is turned away early.** -/
theorem false_justified (calls : List Call) : Justified rules (served rules calls).2 := by
  induction calls using List.reverseRecOn with
  | nil =>
    intro before a after h
    simp at h
  | append_singleton calls c ih =>
    intro before a after h hfalse
    rw [served_concat, serve_eq] at h
    rcases List.eq_nil_or_concat' after with rfl | ⟨after, b, rfl⟩
    · obtain ⟨rfl, rfl⟩ := List.append_inj' h rfl |>.imp_right List.cons.inj |>.imp_right And.left
      have hcovered := covered_served rules calls (c.ip, c.action) (c.window rules)
      have hclean := hitsAt_clean_le (served rules calls).1 (rules c.action).window_secs c.now
        (c.ip, c.action) (c.window rules)
      have hhits : hitsOf rules (served rules calls).1 c ≤ hitsAt (clean (served rules calls).1
        (rules c.action).window_secs c.now) (c.ip, c.action) (c.window rules) + 1 := Nat.mod_le ..
      have hover : (rules c.action).limit < hitsOf rules (served rules calls).1 c := by
        simpa using hfalse
      simp only at hcovered ⊢
      omega
    · rw [← List.cons_append, ← List.append_assoc] at h
      exact ih before a after (List.append_inj' h rfl).1 hfalse

end Refusals

/-! ## The limit -/

section Limits

variable {rules : String → Rule}

/-- The state after the calls up to `now`: no window has passed more calls than its limit, and the
bucket of a window that has not ended holds a hit for each call that passed in it. -/
structure Kept (rules : String → Rule) (s : Buckets × List Answered) (now : Nat) : Prop where
  limited : Limited rules s.2
  hits : ∀ key start, now < start + (rules key.2).window_secs →
    passes rules s.2 key start ≤ hitsAt s.1 key start
  past : ∀ a ∈ s.2, a.call.now ≤ now

theorem Kept.later {s : Buckets × List Answered} {now later : Nat} (h : Kept rules s now)
    (hle : now ≤ later) : Kept rules s later where
  limited := h.limited
  hits key start hlt := h.hits key start (by omega)
  past a ha := Nat.le_trans (h.past a ha) hle

/-- No call has passed in a window that is neither over nor the one of the time. -/
theorem Kept.passes_eq_zero {s : Buckets × List Answered} {now : Nat} (h : Kept rules s now)
    {key : Key} {start : Nat} (hlt : now < start + (rules key.2).window_secs)
    (hne : start ≠ windowStart (rules key.2).window_secs now) :
    passes rules s.2 key start = 0 := by
  rw [passes, List.countP_eq_zero]
  intro a ha hin
  obtain ⟨-, rfl, rfl⟩ := of_decide_eq_true hin
  refine hne (windowStart_eq ?_ hlt)
  exact Nat.le_trans (windowStart_le ..) (h.past a ha)

/-- A call that spares the running windows keeps all this. -/
theorem Kept.serve {s : Buckets × List Answered} {c : Call} (h : Kept rules s c.now)
    (hspares : Spares rules s.1 c) : Kept rules (serve rules s c) c.now := by
  -- the only window whose numbers grow is the one of the call
  have hrunning : c.now < c.window rules + (rules c.action).window_secs :=
    lt_windowStart_add (rules c.action).window_pos c.now
  have hclean : hitsAt (clean s.1 (rules c.action).window_secs c.now) (c.ip, c.action)
      (c.window rules) = hitsAt s.1 (c.ip, c.action) (c.window rules) :=
    hitsAt_clean hspares hrunning
  have hroom : hitsAt s.1 (c.ip, c.action) (c.window rules) + 1 < 2 ^ 32 := by
    rcases hitsAt_eq_zero_or s.1 (c.ip, c.action) (c.window rules) with h0 | hmem
    · omega
    · exact hspares.room _ hmem
  have hhits : hitsOf rules s.1 c = hitsAt s.1 (c.ip, c.action) (c.window rules) + 1 := by
    rw [hitsOf, hclean, Nat.mod_eq_of_lt hroom]
  have hown := h.hits (c.ip, c.action) (c.window rules) hrunning
  have hlimit := h.limited (c.ip, c.action) (c.window rules)
  refine ⟨fun key start => ?_, fun key start hlt => ?_, ?_⟩
  · rw [serve_eq, passes_concat]
    by_cases hkey : (key, start) = ((c.ip, c.action), c.window rules)
    · obtain ⟨rfl, rfl⟩ := Prod.mk.inj hkey
      simp only [decide_eq_true_eq, and_self, and_true] at hlimit ⊢
      split_ifs <;> omega
    · rw [if_neg fun hin => hkey (by rw [← hin.2.1, ← hin.2.2])]
      exact h.limited key start
  · rw [serve_eq, passes_concat]
    by_cases hkey : (key, start) = ((c.ip, c.action), c.window rules)
    · obtain ⟨rfl, rfl⟩ := Prod.mk.inj hkey
      rw [hitsAt_insert]
      split_ifs <;> omega
    · rw [if_neg fun hin => hkey (by rw [← hin.2.1, ← hin.2.2]), hitsAt_insert_of_ne _ hkey]
      have hold := h.hits key start hlt
      split_ifs with hsame
      · subst hsame
        have hother : start ≠ c.window rules := fun e => hkey (by rw [e])
        exact Nat.le_of_eq (h.passes_eq_zero hlt hother)
      · rw [hitsAt_clean hspares hlt]
        exact hold
  · rw [serve_eq]
    intro a ha
    rcases List.mem_append.mp ha with ha | ha
    · exact h.past a ha
    · rw [List.mem_singleton.mp ha]

theorem Spared.of_concat {calls : List Call} {c : Call} (h : Spared rules (calls ++ [c])) :
    Spared rules calls ∧ Spares rules (served rules calls).1 c := by
  refine ⟨fun before d after hd => ?_, h calls c [] rfl⟩
  exact h before d (after ++ [c]) (by rw [hd, List.append_assoc, List.cons_append])

theorem kept_served {calls : List Call} (hspared : Spared rules calls)
    (htime : Chronological calls) {now : Nat} (hnow : ∀ c ∈ calls, c.now ≤ now) :
    Kept rules (served rules calls) now := by
  induction calls using List.reverseRecOn generalizing now with
  | nil => exact ⟨fun _ _ => Nat.zero_le _, fun _ _ _ => Nat.zero_le _, fun _ ha => by cases ha⟩
  | append_singleton calls c ih =>
    obtain ⟨hcalls, hc⟩ := hspared.of_concat
    obtain ⟨hearlier, -, hlast⟩ := List.pairwise_append.mp htime
    have hkept := ih hcalls hearlier fun d hd => hlast d hd c (List.mem_singleton_self c)
    rw [served_concat]
    exact (hkept.serve hc).later (hnow c (by simp))

/-- **The limit holds while every call spares the running windows.** -/
theorem limited_of_spared {calls : List Call} (htime : Chronological calls)
    (hspared : Spared rules calls) :
    Limited rules (served rules calls).2 ∧ Justified rules (served rules calls).2 := by
  refine ⟨?_, false_justified calls⟩
  rcases List.eq_nil_or_concat' calls with rfl | ⟨earlier, c, rfl⟩
  · exact fun _ _ => Nat.zero_le _
  · have hlast := (List.pairwise_append.mp htime).2.2
    have hnow : ∀ d ∈ earlier ++ [c], d.now ≤ c.now := by
      intro d hd
      rcases List.mem_append.mp hd with hd | hd
      · exact hlast d hd c (List.mem_singleton_self c)
      · rw [List.mem_singleton.mp hd]
    exact (kept_served hspared htime hnow).limited

/-- A call that finds a small map and a bucket with room spares every window. -/
theorem spares_of_small {buckets : Buckets} {c : Call}
    (hlen : buckets.len ≤ 10000)
    (hroom : hitsAt buckets (c.ip, c.action) (c.window rules) + 1 < 2 ^ 32) :
    Spares rules buckets c where
  clean_up hlarge := absurd hlarge (Nat.not_lt.mpr hlen)
  room hits hmem := by rwa [hitsAt_of_mem hmem] at hroom

/-- The rules of the two endpoints that count: `book` and `slots_json`. -/
def endpoints (action : String) : Rule :=
  if action = "book" then ⟨10, 3600, by decide⟩ else ⟨60, 60, by decide⟩

def alice : IpAddr := .v4 0

/-- Alice uses up her ten bookings of the hour. -/
def bookings : List Call := List.replicate 10 ⟨alice, "book", 0⟩

/-- Alice's ten bookings alone stay within the rule. -/
theorem limited_bookings :
    Limited endpoints (served endpoints bookings).2 ∧
      Justified endpoints (served endpoints bookings).2 := by
  refine limited_of_spared (List.pairwise_replicate.mpr (.inr le_rfl)) fun before c after h => ?_
  have hsmall : ∀ k < 10, let s := served endpoints (List.replicate k ⟨alice, "book", 0⟩)
      s.1.len ≤ 10000 ∧ hitsAt s.1 (alice, "book") 0 + 1 < 2 ^ 32 := by
    decide +kernel
  obtain ⟨hlen, hbefore, htail⟩ := List.replicate_eq_append_iff.mp h
  obtain rfl := List.eq_of_mem_replicate (htail ▸ List.mem_cons_self ..)
  rw [hbefore]
  rw [List.length_cons] at hlen
  obtain ⟨hfew, hroom⟩ := hsmall before.length (by omega)
  exact spares_of_small hfew hroom

end Limits

/-! ## The clean-up by another window -/

/-- One of a crowd of other addresses. -/
def visitor (i : Nat) : IpAddr := .v4 (BitVec.ofNat 32 (i + 1))

/-- A minute later the crowd asks for free slots, each address once. -/
def visits (n : Nat) : List Call := (List.range n).map fun i => ⟨visitor i, "slots", 60⟩

/-- And Alice asks for one booking more. -/
def flood : List Call := bookings ++ visits 10001 ++ [⟨alice, "book", 60⟩]

/-- After `n` of the crowd there is a bucket for each of them and Alice's, which is still full. -/
structure Flooded (s : Buckets × List Answered) (n : Nat) : Prop where
  len : s.1.len = n + 1
  full : s.1.lookup (alice, "book") = some (0, 10)
  fresh : ∀ i, n ≤ i → i ≤ 10000 → (visitor i, "slots") ∉ s.1
  passed : passes endpoints s.2 (alice, "book") 0 = 10

theorem visitor_ne {i j : Nat} (hij : i < j) (hj : j ≤ 10000) : visitor j ≠ visitor i := by
  intro h
  have hbits := congrArg BitVec.toNat (IpAddr.v4.inj h)
  simp only [BitVec.toNat_ofNat] at hbits
  omega

theorem flooded_bookings : Flooded (served endpoints bookings) 0 where
  len := by decide +kernel
  full := by decide +kernel
  fresh i _ hi hmem := by
    have hkeys : (served endpoints bookings).1.keys = [(alice, "book")] := by decide +kernel
    rw [AList.mem_keys, hkeys, List.mem_singleton] at hmem
    exact absurd (Prod.mk.inj hmem).2 (by decide)
  passed := by decide +kernel

theorem flooded_visits {n : Nat} (hn : n ≤ 10000) :
    Flooded (served endpoints (bookings ++ visits n)) n := by
  induction n with
  | zero => simpa [visits] using flooded_bookings
  | succ n ih =>
    have h := ih (by omega)
    rw [visits, List.range_succ, List.map_append, ← List.append_assoc, ← visits, List.map_cons,
      List.map_nil, served_concat, serve_eq]
    have hsmall : ¬10000 < (served endpoints (bookings ++ visits n)).1.len := by
      rw [h.len]
      omega
    simp only [clean, if_neg hsmall]
    refine ⟨?_, ?_, fun i hi hle => ?_, ?_⟩
    · rw [len_insert _ (h.fresh n le_rfl (by omega)), h.len]
    · rw [AList.lookup_insert_ne (by simp), h.full]
    · rw [AList.mem_insert, not_or]
      refine ⟨fun e => visitor_ne hi hle (Prod.mk.inj e).1, h.fresh i (by omega) hle⟩
    · rw [passes_concat, if_neg (by simp), h.passed]

/-- The next visit sees 10,001 buckets: its clean-up goes by its own sixty seconds and drops
Alice's bucket, whose hour has just begun. -/
theorem dropped_visits :
    hitsAt (served endpoints (bookings ++ visits 10001)).1 (alice, "book") 0 = 0 ∧
      passes endpoints (served endpoints (bookings ++ visits 10001)).2 (alice, "book") 0 = 10 := by
  have h := flooded_visits (Nat.le_refl 10000)
  have hlarge : 10000 < (served endpoints (bookings ++ visits 10000)).1.len := by
    rw [h.len]
    decide
  rw [visits, List.range_succ, List.map_append, ← List.append_assoc, ← visits, List.map_cons,
    List.map_nil, served_concat, serve_eq]
  refine ⟨?_, ?_⟩
  · rw [hitsAt_insert_of_ne _ (by simp), if_neg (by simp), clean, if_pos hlarge]
    refine (hitsAt_eq_zero_or ..).resolve_right fun hmem => ?_
    have hkeep := (mem_lookup_retain.mp hmem).2
    simp [endpoints] at hkeep
  · rw [passes_concat, if_neg (by simp), h.passed]

theorem chronological_flood : Chronological flood := by
  have hbookings : ∀ c ∈ bookings, c.now = 0 := by
    intro c hc
    rw [List.eq_of_mem_replicate hc]
  have hvisits : ∀ c ∈ visits 10001, c.now = 60 := by
    intro c hc
    obtain ⟨i, -, rfl⟩ := List.mem_map.mp hc
    rfl
  refine List.pairwise_append.mpr ⟨List.pairwise_append.mpr ⟨?_, ?_, ?_⟩, ?_, ?_⟩
  · exact List.pairwise_of_forall_mem_list fun c hc d hd => by rw [hbookings c hc]; omega
  · exact List.pairwise_of_forall_mem_list fun c hc d hd => by rw [hvisits c hc, hvisits d hd]
  · exact fun c hc d _ => by rw [hbookings c hc]; omega
  · exact List.pairwise_singleton ..
  · intro c hc d hd
    rw [List.mem_singleton.mp hd]
    rcases List.mem_append.mp hc with hc | hc
    · rw [hbookings c hc]
      omega
    · rw [hvisits c hc]

/-- So Alice's next booking is counted as the first of her hour. -/
theorem passes_again {s : Buckets × List Answered}
    (hdropped : hitsAt s.1 (alice, "book") 0 = 0)
    (hpassed : passes endpoints s.2 (alice, "book") 0 = 10) :
    passes endpoints (serve endpoints s ⟨alice, "book", 60⟩).2 (alice, "book") 0 = 11 := by
  have hwindow : Call.window endpoints ⟨alice, "book", 60⟩ = 0 := by decide
  have hle := hitsAt_clean_le s.1 (endpoints "book").window_secs 60 (alice, "book") 0
  rw [hdropped, Nat.le_zero] at hle
  have hhits : hitsOf endpoints s.1 ⟨alice, "book", 60⟩ = 1 := by
    rw [hitsOf, hwindow, hle]
    decide
  rw [serve_eq, hhits, passes_concat, hpassed, hwindow]
  decide

/-- **Eleven bookings of one hour pass.** -/
theorem not_limited_clean_up :
    ¬(∀ rules calls, Chronological calls →
      Limited rules (served rules calls).2 ∧ Justified rules (served rules calls).2) := by
  intro hall
  have hlimited := (hall endpoints flood chronological_flood).1 (alice, "book") 0
  obtain ⟨hdropped, hpassed⟩ := dropped_visits
  rw [flood, served_concat, passes_again hdropped hpassed] at hlimited
  exact absurd hlimited (by decide)

end Owney.RateLimiter
