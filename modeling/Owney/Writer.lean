import Owney.Lib.Programs
import Owney.MailInvariant

/-!
# The writer thread

`owney-storage`'s `Db`: one thread owns the connection and runs the jobs of all callers, one
after the other, off a channel of 256 jobs. `Db::call` puts a job into the channel, waiting for
room, and then awaits the reply. A job that panics is caught: it sends no reply, and the caller
reads `Closed`. A caller's future can be dropped at any moment; a job it has put into the channel
runs all the same, and its reply goes nowhere.

The rest of the development lets a caller change the database in one move (`Programs.step`).
That is sound: what the callers of the writer thread can see, they could see if every job were
run at once (`writer_refines`). The jobs run in the order they were sent, each of them once
(`sent_eq`), none overtakes another (`runs_next`), and nobody waits for ever (`drained`).
-/

namespace Owney.Writer

open Programs Runs

/-- How the closure of a job ends. -/
inductive Ended (T : Type) where
  | returned (res : Except StorageError T)
  | panicked

/-- What the caller reads: `f(conn)` was sent, or the sender was dropped. -/
def Ended.reply {T : Type} : Ended T → Except StorageError T
  | returned res => res
  | panicked => .error .closed

/-- The bound of the channel. -/
def capacity : ℕ := 256

variable {O : Type} (Val : O → Type) (R α C W : Type)

/-- What `Db::call` returns. -/
abbrev Ret (o : O) : Type := Except StorageError (Val o)

/-- Where a caller is. -/
inductive Phase where
  /-- not in the channel: between two calls, or at `tx.send(job)` -/
  | running
  /-- at `reply_rx.await` -/
  | waiting
  /-- the reply is there, and not read yet -/
  | replied
  deriving DecidableEq

/-- A caller: its request, what is left of its program, and whether its future was dropped. -/
structure Caller where
  req : R
  prog : Prog (Ret Val) α
  phase : Phase
  gone : Bool

/-- A job in the channel: the closure, and the other end of its reply channel. -/
structure Job where
  caller : ℕ
  op : O
  reply : Ret Val op → Prog (Ret Val) α

/-- The writer thread, its channel and its callers; `sent` has every job that was put into the
channel, and `past` those that were run. -/
structure Db where
  conn : W
  queue : List (Job Val α)
  callers : List (Caller Val R α)
  sent : List (ℕ × O)
  past : List (Event (Ret Val) R C W)

/-- A request comes in; a caller's `tx.send` goes through; the thread runs the next job, with
what the outside decides about it; a caller reads its reply; a caller's future is dropped. -/
inductive DbMove where
  | start (r : R)
  | send (i : ℕ)
  | work (c : C)
  | receive (i : ℕ)
  | cancel (i : ℕ)

variable {Val R α C W}

/-- `Db::open`. -/
def Db.opened (w : W) : Db Val R α C W := ⟨w, [], [], [], []⟩

/-- A job, as it was sent. -/
def Job.name (job : Job Val α) : ℕ × O := (job.caller, job.op)

/-- What a move does. -/
def step (handler : R → Prog (Ret Val) α) (exec : (o : O) → C → W → Option (Ended (Val o) × W))
    (s : Db Val R α C W) : DbMove R C → Db Val R α C W
  | .start r => { s with callers := s.callers ++ [⟨r, handler r, .running, false⟩] }
  | .send i =>
    match s.callers[i]? with
    | some ⟨r, .call o k, .running, false⟩ =>
      if s.queue.length < capacity then
        { s with
          queue := s.queue ++ [⟨i, o, k⟩]
          callers := s.callers.set i ⟨r, .call o k, .waiting, false⟩
          sent := s.sent ++ [(i, o)] }
      else s
    | _ => s
  | .work c =>
    match s.queue with
    | [] => s
    | job :: queue =>
      match exec job.op c s.conn, s.callers[job.caller]? with
      | some (ended, conn), some caller =>
        { s with
          conn, queue
          callers := s.callers.set job.caller
            { caller with prog := job.reply ended.reply, phase := .replied }
          past := s.past ++ [⟨job.caller, caller.req, ⟨job.op, ended.reply⟩, c, s.conn, conn⟩] }
      | _, _ => s
  | .receive i =>
    match s.callers[i]? with
    | some ⟨r, p, .replied, false⟩ =>
      { s with callers := s.callers.set i ⟨r, p, .running, false⟩ }
    | _ => s
  | .cancel i =>
    match s.callers[i]? with
    | some caller => { s with callers := s.callers.set i { caller with gone := true } }
    | none => s

variable {handler : R → Prog (Ret Val) α} {exec : (o : O) → C → W → Option (Ended (Val o) × W)}
  {s : Db Val R α C W}

/-! ## What a move does -/

variable (handler exec) in
/-- **One move.** Nothing, a new caller, a job into the channel, a job run, or a caller that
goes on or goes away. -/
theorem step_cases (s : Db Val R α C W) (m : DbMove R C) :
    step handler exec s m = s ∨
    (∃ r, m = .start r ∧ step handler exec s m =
      { s with callers := s.callers ++ [⟨r, handler r, .running, false⟩] }) ∨
    (∃ i r o k, m = .send i ∧ s.callers[i]? = some ⟨r, .call o k, .running, false⟩ ∧
      s.queue.length < capacity ∧ step handler exec s m =
        { s with
          queue := s.queue ++ [⟨i, o, k⟩]
          callers := s.callers.set i ⟨r, .call o k, .waiting, false⟩
          sent := s.sent ++ [(i, o)] }) ∨
    (∃ c job queue ended conn caller, m = .work c ∧ s.queue = job :: queue ∧
      exec job.op c s.conn = some (ended, conn) ∧ s.callers[job.caller]? = some caller ∧
      step handler exec s m =
        { s with
          conn, queue
          callers := s.callers.set job.caller
            { caller with prog := job.reply ended.reply, phase := .replied }
          past := s.past ++
            [⟨job.caller, caller.req, ⟨job.op, ended.reply⟩, c, s.conn, conn⟩] }) ∨
    ∃ i caller phase gone, s.callers[i]? = some caller ∧
      (phase = caller.phase ∨ caller.phase = .replied ∧ phase = .running) ∧
      step handler exec s m =
        { s with callers := s.callers.set i { caller with phase, gone } } := by
  cases m with
  | start r => exact .inr (.inl ⟨r, rfl, rfl⟩)
  | send i =>
    simp only [step]
    split
    · rename_i r o k hcaller
      split
      · rename_i hroom
        exact .inr (.inr (.inl ⟨i, r, o, k, rfl, hcaller, hroom, rfl⟩))
      · exact .inl rfl
    · exact .inl rfl
  | work c =>
    simp only [step]
    split
    · exact .inl rfl
    · rename_i job queue hqueue
      split
      · rename_i ended conn caller hexec hcaller
        exact .inr (.inr (.inr (.inl
          ⟨c, job, queue, ended, conn, caller, rfl, hqueue, hexec, hcaller, rfl⟩)))
      · exact .inl rfl
  | receive i =>
    simp only [step]
    split
    · rename_i r p hcaller
      exact .inr (.inr (.inr (.inr
        ⟨i, _, .running, false, hcaller, .inr ⟨rfl, rfl⟩, rfl⟩)))
    · exact .inl rfl
  | cancel i =>
    simp only [step]
    split
    · rename_i caller hcaller
      exact .inr (.inr (.inr (.inr ⟨i, caller, caller.phase, true, hcaller, .inl rfl, rfl⟩)))
    · exact .inl rfl

/-! ## The channel -/

/-- What holds between two moves. -/
structure Inv (s : Db Val R α C W) : Prop where
  /-- a job is the call its caller waits for -/
  awaited : ∀ job ∈ s.queue, ∃ caller, s.callers[job.caller]? = some caller ∧
    caller.prog = .call job.op job.reply ∧ caller.phase = .waiting
  /-- no caller has two jobs in the channel -/
  single : (s.queue.map (·.caller)).Nodup
  /-- who waits has a job in the channel -/
  queued : ∀ i caller, s.callers[i]? = some caller → caller.phase = .waiting →
    i ∈ s.queue.map (·.caller)
  /-- jobs are run in the order they were sent, each once -/
  fifo : s.sent = s.past.map (fun e => (e.thread, e.call.op)) ++ s.queue.map Job.name
  room : s.queue.length ≤ capacity

namespace Inv

theorem opened (w : W) : Inv (Db.opened w : Db Val R α C W) where
  awaited := by simp [Db.opened]
  single := by simp [Db.opened]
  queued := by simp [Db.opened]
  fifo := by simp [Db.opened]
  room := by simp [Db.opened]

theorem start (h : Inv s) (caller : Caller Val R α) (hnew : caller.phase = .running) :
    Inv { s with callers := s.callers ++ [caller] } where
  awaited job hjob := by
    obtain ⟨waiter, hwaiter, hcall⟩ := h.awaited job hjob
    refine ⟨waiter, ?_, hcall⟩
    rw [List.getElem?_append_left (List.getElem?_eq_some_iff.mp hwaiter).1]
    exact hwaiter
  single := h.single
  queued i waiter hwaiter hphase := by
    rw [List.getElem?_append] at hwaiter
    split at hwaiter
    · exact h.queued i waiter hwaiter hphase
    · -- the new caller does not wait
      rw [List.getElem?_singleton] at hwaiter
      split at hwaiter
      · obtain rfl := Option.some.inj hwaiter
        rw [hnew] at hphase
        cases hphase
      · cases hwaiter
  fifo := h.fifo
  room := h.room

theorem send (h : Inv s) {i : ℕ} {r : R} {o : O} {k : Ret Val o → Prog (Ret Val) α}
    (hcaller : s.callers[i]? = some ⟨r, .call o k, .running, false⟩)
    (hroom : s.queue.length < capacity) :
    Inv { s with
      queue := s.queue ++ [⟨i, o, k⟩]
      callers := s.callers.set i ⟨r, .call o k, .waiting, false⟩
      sent := s.sent ++ [(i, o)] } := by
  obtain ⟨hlt, -⟩ := List.getElem?_eq_some_iff.mp hcaller
  -- a caller that is about to send has no job in the channel
  have hfree : ∀ job ∈ s.queue, job.caller ≠ i := by
    rintro job hjob rfl
    obtain ⟨waiter, hwaiter, -, hphase⟩ := h.awaited job hjob
    rw [hcaller] at hwaiter
    obtain rfl := Option.some.inj hwaiter
    cases hphase
  refine ⟨fun job hjob => ?_, ?_, fun j waiter hwaiter hphase => ?_, ?_, ?_⟩
  · rcases List.mem_append.mp hjob with hjob | hjob
    · obtain ⟨waiter, hwaiter, hcall⟩ := h.awaited job hjob
      refine ⟨waiter, ?_, hcall⟩
      rw [List.getElem?_set_ne (hfree job hjob).symm]
      exact hwaiter
    · obtain rfl := List.mem_singleton.mp hjob
      exact ⟨_, List.getElem?_set_self hlt, rfl, rfl⟩
  · rw [List.map_append, List.nodup_append]
    refine ⟨h.single, by simp, ?_⟩
    simp only [List.mem_map, List.map_cons, List.map_nil, List.mem_singleton]
    rintro _ ⟨job, hjob, rfl⟩ _ rfl
    exact hfree job hjob
  · rw [List.map_append, List.mem_append]
    rcases eq_or_ne i j with rfl | hne
    · exact .inr (by simp)
    · rw [List.getElem?_set_ne hne] at hwaiter
      exact .inl (h.queued j waiter hwaiter hphase)
  · simp [h.fifo, Job.name]
  · simpa using hroom

theorem work (h : Inv s) {c : C} {job : Job Val α} {queue : List (Job Val α)}
    {caller : Caller Val R α} {res : Ret Val job.op} {conn : W} (hqueue : s.queue = job :: queue)
    (hcaller : s.callers[job.caller]? = some caller) :
    Inv { s with
      conn, queue
      callers := s.callers.set job.caller { caller with prog := job.reply res, phase := .replied }
      past := s.past ++ [⟨job.caller, caller.req, ⟨job.op, res⟩, c, s.conn, conn⟩] } := by
  have hsingle := h.single
  rw [hqueue, List.map_cons, List.nodup_cons] at hsingle
  have hother : ∀ job' ∈ queue, job.caller ≠ job'.caller := by
    intro job' hjob' heq
    exact hsingle.1 (heq ▸ List.mem_map_of_mem hjob')
  refine ⟨fun job' hjob' => ?_, hsingle.2, fun j waiter hwaiter hphase => ?_, ?_, ?_⟩
  · obtain ⟨waiter, hwaiter, hcall⟩ := h.awaited job' (hqueue ▸ List.mem_cons_of_mem _ hjob')
    refine ⟨waiter, ?_, hcall⟩
    rw [List.getElem?_set_ne (hother job' hjob')]
    exact hwaiter
  · rcases eq_or_ne job.caller j with rfl | hne
    · -- the caller whose job was run has its reply
      rw [List.getElem?_set_self (List.getElem?_eq_some_iff.mp hcaller).1] at hwaiter
      obtain rfl := Option.some.inj hwaiter
      cases hphase
    · rw [List.getElem?_set_ne hne] at hwaiter
      have hmem := h.queued j waiter hwaiter hphase
      rw [hqueue, List.map_cons, List.mem_cons] at hmem
      exact hmem.resolve_left hne.symm
  · simp [h.fifo, hqueue, Job.name]
  · have hroom := h.room
    rw [hqueue, List.length_cons] at hroom
    exact (Nat.le_succ _).trans hroom

theorem goOn (h : Inv s) {i : ℕ} {caller : Caller Val R α} {phase : Phase} (gone : Bool)
    (hcaller : s.callers[i]? = some caller)
    (hphase : phase = caller.phase ∨ caller.phase = .replied ∧ phase = .running) :
    Inv { s with callers := s.callers.set i { caller with phase, gone } } := by
  obtain ⟨hlt, -⟩ := List.getElem?_eq_some_iff.mp hcaller
  refine ⟨fun job hjob => ?_, h.single, fun j waiter hwaiter hwaits => ?_, h.fifo, h.room⟩
  · obtain ⟨waiter, hwaiter, hprog, hwaits⟩ := h.awaited job hjob
    rcases eq_or_ne i job.caller with rfl | hne
    · rw [hcaller] at hwaiter
      obtain rfl := Option.some.inj hwaiter
      refine ⟨_, List.getElem?_set_self hlt, hprog, ?_⟩
      rcases hphase with rfl | ⟨hreplied, -⟩
      · exact hwaits
      · rw [hreplied] at hwaits
        cases hwaits
    · exact ⟨waiter, by rw [List.getElem?_set_ne hne]; exact hwaiter, hprog, hwaits⟩
  · rcases eq_or_ne i j with rfl | hne
    · rw [List.getElem?_set_self hlt] at hwaiter
      obtain rfl := Option.some.inj hwaiter
      rcases hphase with rfl | ⟨-, rfl⟩
      · exact h.queued i caller hcaller hwaits
      · cases hwaits
    · rw [List.getElem?_set_ne hne] at hwaiter
      exact h.queued j waiter hwaiter hwaits

theorem step (h : Inv s) (m : DbMove R C) : Inv (Writer.step handler exec s m) := by
  rcases step_cases handler exec s m with
    hm | ⟨r, -, hm⟩ | ⟨i, r, o, k, -, hcaller, hroom, hm⟩ |
    ⟨c, job, queue, ended, conn, caller, -, hqueue, -, hcaller, hm⟩ |
    ⟨i, caller, phase, gone, hcaller, hphase, hm⟩
  · rwa [hm]
  · rw [hm]
    exact h.start _ rfl
  · rw [hm]
    exact h.send hcaller hroom
  · rw [hm]
    exact h.work hqueue hcaller
  · rw [hm]
    exact h.goOn gone hcaller hphase

theorem run (w : W) (ms : List (DbMove R C)) :
    Inv (Runs.run (Writer.step handler exec) (Db.opened w) ms) :=
  run_invariant (fun _ m h => h.step m) ms (.opened w)

end Inv

variable (handler exec) in
/-- **First in, first out.** In every run the jobs that were sent are those that were run, in
that order, and behind them those in the channel, which are of different callers and at most
256. A job is run once, also when its caller went away or when a job before it panicked. -/
theorem sent_eq (w : W) (ms : List (DbMove R C)) :
    let s := Runs.run (step handler exec) (Db.opened w) ms
    s.sent = s.past.map (fun e => (e.thread, e.call.op)) ++ s.queue.map Job.name ∧
      s.queue.length ≤ capacity ∧ (s.queue.map (·.caller)).Nodup := by
  have h : Inv (Runs.run (step handler exec) (Db.opened w) ms) := .run w ms
  exact ⟨h.fifo, h.room, h.single⟩

/-- What was sent stays sent. -/
theorem sent_step (s : Db Val R α C W) (m : DbMove R C) :
    s.sent <+: (step handler exec s m).sent := by
  rcases step_cases handler exec s m with
    hm | ⟨r, -, hm⟩ | ⟨i, r, o, k, -, -, -, hm⟩ |
    ⟨c, job, queue, ended, conn, caller, -, -, -, -, hm⟩ | ⟨i, caller, phase, gone, -, -, hm⟩
  · rw [hm]
  · rw [hm]
  · rw [hm]
    exact List.prefix_append _ _
  · rw [hm]
  · rw [hm]

theorem sent_run (s : Db Val R α C W) (ms : List (DbMove R C)) :
    s.sent <+: (Runs.run (step handler exec) s ms).sent := by
  induction ms generalizing s with
  | nil => exact List.prefix_rfl
  | cons m ms ih => exact (sent_step s m).trans (ih _)

/-! ## Turns of the thread -/

variable (exec) in
/-- If it is the thread's turn and there is a job, the job ends. -/
def JobEnds (s : Db Val R α C W) (m : DbMove R C) : Prop :=
  ∀ c job queue, m = .work c → s.queue = job :: queue → (exec job.op c s.conn).isSome

/-- How often it is the thread's turn. -/
def turns : List (DbMove R C) → ℕ
  | [] => 0
  | .work _ :: ms => turns ms + 1
  | _ :: ms => turns ms

variable (handler) in
/-- A job that ends leaves the channel. -/
theorem step_work (h : Inv s) {job : Job Val α} {queue : List (Job Val α)} {c : C}
    (hqueue : s.queue = job :: queue) (hends : JobEnds exec s (.work c)) :
    (step handler exec s (.work c)).queue = queue ∧
      (step handler exec s (.work c)).past.length = s.past.length + 1 := by
  obtain ⟨caller, hcaller, -⟩ := h.awaited job (hqueue ▸ List.mem_cons_self)
  obtain ⟨p, hp⟩ := Option.isSome_iff_exists.mp (hends c job queue rfl hqueue)
  simp [step, hqueue, hp, hcaller]

/-- Without a turn of the thread, no job is run and none leaves the channel. -/
theorem step_of_no_turn {m : DbMove R C} (hm : ∀ c, m ≠ .work c) :
    (step handler exec s m).past = s.past ∧
      s.queue.length ≤ (step handler exec s m).queue.length := by
  rcases step_cases handler exec s m with
    hstep | ⟨r, -, hstep⟩ | ⟨i, r, o, k, -, -, -, hstep⟩ |
    ⟨c, job, queue, ended, conn, caller, hwork, -, -, -, hstep⟩ |
    ⟨i, caller, phase, gone, -, -, hstep⟩
  · rw [hstep]
    exact ⟨rfl, le_rfl⟩
  · rw [hstep]
    exact ⟨rfl, le_rfl⟩
  · rw [hstep]
    exact ⟨rfl, by simp⟩
  · exact absurd hwork (hm c)
  · rw [hstep]
    exact ⟨rfl, le_rfl⟩

variable (handler exec) in
theorem past_step (s : Db Val R α C W) (m : DbMove R C) :
    s.past.length ≤ (step handler exec s m).past.length := by
  rcases step_cases handler exec s m with
    hstep | ⟨r, -, hstep⟩ | ⟨i, r, o, k, -, -, -, hstep⟩ |
    ⟨c, job, queue, ended, conn, caller, -, -, -, -, hstep⟩ |
    ⟨i, caller, phase, gone, -, -, hstep⟩ <;> simp [hstep]

/-- **As many jobs are run as the thread has turns**, up to those that are in the channel now. -/
theorem past_turns (h : Inv s) {k : ℕ} {more : List (DbMove R C)}
    (hends : Meets (step handler exec) (JobEnds exec) s more) (hqueued : k ≤ s.queue.length)
    (hturns : k ≤ turns more) :
    s.past.length + k ≤ (Runs.run (step handler exec) s more).past.length := by
  induction more generalizing s k with
  | nil =>
    obtain rfl : k = 0 := Nat.le_zero.mp hturns
    exact le_rfl
  | cons m more ih =>
    obtain ⟨hfirst, hrest⟩ := hends
    rw [run_cons]
    by_cases hwork : ∃ c, m = .work c
    · obtain ⟨c, rfl⟩ := hwork
      cases k with
      | zero =>
        have hmore := ih (h.step _) hrest (Nat.zero_le _) (Nat.zero_le _)
        exact (past_step handler exec s _).trans hmore
      | succ k =>
        -- the turn takes the first job, and one fewer is asked of the rest
        obtain ⟨job, queue, hqueue⟩ := List.exists_cons_of_length_pos (Nat.zero_lt_of_lt hqueued)
        obtain ⟨hleft, hpast⟩ := step_work handler h hqueue hfirst
        rw [hqueue, List.length_cons, Nat.succ_le_succ_iff] at hqueued
        have hmore := ih (h.step (.work c)) hrest (hleft ▸ hqueued) (Nat.le_of_succ_le_succ hturns)
        omega
    · -- no turn: the channel only grows
      have hno : ∀ c, m ≠ .work c := fun c hm => hwork ⟨c, hm⟩
      obtain ⟨hpast, hleft⟩ := @step_of_no_turn _ _ _ _ _ _ handler exec s m hno
      have hsame : turns (m :: more) = turns more := by
        cases m with
        | work c => exact absurd rfl (hno c)
        | _ => rfl
      rw [← hpast]
      exact ih (h.step m) hrest (hqueued.trans hleft) (hsame ▸ hturns)

variable (handler exec) in
/-- **No overtaking.** The job that is behind `n` others in the channel is the one that runs after
`n` more were run, whatever else happens in the meantime; and it has run when the thread had more
than `n` turns and its jobs ended. -/
theorem runs_next (w : W) (ms more : List (DbMove R C)) (n : ℕ) (job : Job Val α)
    (hjob : (Runs.run (step handler exec) (Db.opened w) ms).queue[n]? = some job) :
    ((Runs.run (step handler exec) (Db.opened w) ms).past.length + n <
        (Runs.run (step handler exec) (Db.opened w) (ms ++ more)).past.length →
      ∃ e, (Runs.run (step handler exec) (Db.opened w) (ms ++ more)).past[
          (Runs.run (step handler exec) (Db.opened w) ms).past.length + n]? = some e ∧
        (e.thread, e.call.op) = job.name) ∧
    (Meets (step handler exec) (JobEnds exec)
        (Runs.run (step handler exec) (Db.opened w) ms) more → n < turns more →
      (Runs.run (step handler exec) (Db.opened w) ms).past.length + n <
        (Runs.run (step handler exec) (Db.opened w) (ms ++ more)).past.length) := by
  have hnow : Inv (Runs.run (step handler exec) (Db.opened w) ms) := .run w ms
  refine ⟨fun hturns => ?_, fun hends hturns => ?_⟩
  · have hlater : Inv (Runs.run (step handler exec) (Db.opened w) (ms ++ more)) := .run w _
    have hsent : (Runs.run (step handler exec) (Db.opened w) ms).sent <+:
        (Runs.run (step handler exec) (Db.opened w) (ms ++ more)).sent := by
      rw [run_append]
      exact sent_run _ more
    generalize Runs.run (step handler exec) (Db.opened w) ms = s at *
    generalize Runs.run (step handler exec) (Db.opened w) (ms ++ more) = s' at *
    -- where the job stands in the order of sending
    have hplace : s.sent[s.past.length + n]? = some job.name := by
      rw [hnow.fifo, List.getElem?_append_right (by simp)]
      simp [hjob]
    obtain ⟨rest, hrest⟩ := hsent
    have hplace' : s'.sent[s.past.length + n]? = some job.name := by
      rw [← hrest, List.getElem?_append_left (List.getElem?_eq_some_iff.mp hplace).1]
      exact hplace
    rw [hlater.fifo, List.getElem?_append_left (by simpa using hturns), List.getElem?_map]
      at hplace'
    exact Option.map_eq_some_iff.mp hplace'
  · have hqueued := (List.getElem?_eq_some_iff.mp hjob).1
    rw [run_append]
    exact past_turns hnow hends hqueued hturns

/-! ## One job at a time -/

/-- A job that is run at once, with the reply its caller reads. -/
def atOnce (exec : (o : O) → C → W → Option (Ended (Val o) × W)) (o : O) (c : C) (w : W) :
    Option (Ret Val o × W) :=
  (exec o c w).map fun p => (p.1.reply, p.2)

/-- A caller as a program. -/
def Caller.thread (caller : Caller Val R α) : Thread (Ret Val) R α := ⟨caller.req, caller.prog⟩

/-- The callers as a pool of programs. -/
def Db.sys (s : Db Val R α C W) : Sys (Ret Val) R α C W :=
  ⟨s.conn, s.callers.map Caller.thread, s.past⟩

/-- What a caller that is still there returned to whoever called it. -/
def Db.answer (s : Db Val R α C W) (i : ℕ) : Option α :=
  match s.callers[i]? with
  | some ⟨_, .ret a, .running, false⟩ => some a
  | _ => none

/-- A caller that only goes on or goes away is the same program. -/
theorem map_set_caller {callers : List (Caller Val R α)} {i : ℕ} {caller caller' : Caller Val R α}
    (hcaller : callers[i]? = some caller) (hthread : caller'.thread = caller.thread) :
    (callers.set i caller').map Caller.thread = callers.map Caller.thread := by
  rw [List.map_set, hthread]
  apply List.ext_getElem?
  intro j
  rcases eq_or_ne i j with rfl | hne
  · obtain ⟨hlt, hget⟩ := List.getElem?_eq_some_iff.mp hcaller
    simp [hlt, hget]
  · rw [List.getElem?_set_ne hne]

variable (handler exec) in
/-- **A move, seen from the callers.** Nothing, a new program, or one call of one program. -/
theorem sys_step (h : Inv s) (m : DbMove R C) :
    (step handler exec s m).sys = s.sys ∨
      ∃ m', (step handler exec s m).sys = Programs.step handler (atOnce exec) s.sys m' := by
  rcases step_cases handler exec s m with
    hm | ⟨r, -, hm⟩ | ⟨i, r, o, k, -, hcaller, -, hm⟩ |
    ⟨c, job, queue, ended, conn, caller, -, hqueue, hexec, hcaller, hm⟩ |
    ⟨i, caller, phase, gone, hcaller, -, hm⟩
  · exact .inl (by rw [hm])
  · exact .inr ⟨.start r, by simp [hm, Db.sys, Caller.thread, Programs.step]⟩
  · refine .inl ?_
    rw [hm]
    exact congrArg (Sys.mk s.conn · s.past) (map_set_caller hcaller rfl)
  · -- the job is the call its caller waits for: the caller makes it now
    refine .inr ⟨.call job.caller c, ?_⟩
    obtain ⟨waiter, hwaiter, hprog, -⟩ := h.awaited job (hqueue ▸ List.mem_cons_self)
    obtain rfl := Option.some.inj (hcaller.symm.trans hwaiter)
    have hthread : s.sys.threads[job.caller]? =
        some ⟨caller.req, .call job.op job.reply⟩ := by
      simp [Db.sys, Caller.thread, hcaller, hprog]
    have hrun : atOnce exec job.op c s.sys.world = some (ended.reply, conn) := by
      simp [atOnce, Db.sys, hexec]
    simp only [Programs.step, hthread, hrun, hm]
    simp [Db.sys, Caller.thread, List.map_set]
  · refine .inl ?_
    rw [hm]
    exact congrArg (Sys.mk s.conn · s.past) (map_set_caller hcaller rfl)

theorem answer_sys {i : ℕ} {a : α} (h : s.answer i = some a) : s.sys.answer i = some a := by
  rw [Db.answer] at h
  split at h
  · rename_i r b hcaller
    simpa [Sys.answer, Db.sys, Caller.thread, hcaller] using h
  · cases h

variable (handler exec) in
theorem exists_run (h : Inv s) (ms : List (DbMove R C)) :
    ∃ ms', (Runs.run (step handler exec) s ms).sys =
      Runs.run (Programs.step handler (atOnce exec)) s.sys ms' := by
  induction ms generalizing s with
  | nil => exact ⟨[], rfl⟩
  | cons m ms ih =>
    obtain ⟨ms', hms'⟩ := ih (h.step m)
    rcases sys_step handler exec h m with hsame | ⟨m', hm'⟩
    · exact ⟨ms', by rw [run_cons, hms', hsame]⟩
    · exact ⟨m' :: ms', by rw [run_cons, run_cons, hms', hm']⟩

variable (handler exec) in
/-- **The writer thread runs one job at a time.** Every run of the callers around the thread,
with its channel, panics and dropped futures, is a run in which each call is made at once: the
same connection, the same calls with the same replies, the same programs left to run, and the
callers that are still there return what they return there. -/
theorem writer_refines (w : W) (ms : List (DbMove R C)) :
    ∃ ms' : List (Move R C),
      (Runs.run (step handler exec) (Db.opened w) ms).sys =
        Runs.run (Programs.step handler (atOnce exec)) (Sys.init w) ms' ∧
      ∀ i a, (Runs.run (step handler exec) (Db.opened w) ms).answer i = some a →
        (Runs.run (Programs.step handler (atOnce exec)) (Sys.init w) ms').answer i = some a := by
  obtain ⟨ms', hms'⟩ := exists_run handler exec (.opened w) ms
  refine ⟨ms', hms', fun i a ha => ?_⟩
  have hsys := answer_sys ha
  rw [hms'] at hsys
  exact hsys

/-! ## Nobody waits for ever -/

variable (handler) in
/-- If every job can end, so can those in the channel, one after the other. -/
theorem exists_ends (hends : ∀ o w, ∃ c, (exec o c w).isSome) (h : Inv s) :
    ∃ cs : List C, cs.length = s.queue.length ∧
      Meets (step handler exec) (JobEnds exec) s (cs.map .work) := by
  induction hqueue : s.queue generalizing s with
  | nil => exact ⟨[], rfl, trivial⟩
  | cons job queue ih =>
    obtain ⟨c, hc⟩ := hends job.op s.conn
    have hfirst : JobEnds exec s (.work c) := by
      rintro c' job' queue' ⟨⟩ hqueue'
      obtain ⟨rfl, -⟩ := List.cons.inj (hqueue.symm.trans hqueue')
      exact hc
    obtain ⟨cs, hlen, hrest⟩ := ih (h.step (.work c)) (step_work handler h hqueue hfirst).1
    exact ⟨c :: cs, by simp [hlen], hfirst, hrest⟩

/-- Turns of the thread alone put nothing into the channel. -/
theorem sent_works (s : Db Val R α C W) (cs : List C) :
    (Runs.run (step handler exec) s (cs.map .work)).sent = s.sent := by
  induction cs generalizing s with
  | nil => rfl
  | cons c cs ih =>
    rw [List.map_cons, run_cons, ih]
    rcases step_cases handler exec s (.work c) with
      hm | ⟨r, hstart, -⟩ | ⟨i, r, o, k, hsend, -⟩ |
      ⟨c, job, queue, ended, conn, caller, -, -, -, -, hm⟩ | ⟨i, caller, phase, gone, -, -, hm⟩
    · rw [hm]
    · cases hstart
    · cases hsend
    · rw [hm]
    · rw [hm]

theorem turns_works (cs : List C) : turns (cs.map (.work : C → DbMove R C)) = cs.length := by
  induction cs with
  | nil => rfl
  | cons c cs ih => exact congrArg (· + 1) ih

variable (handler exec) in
/-- **Progress.** If every job can end, by a panic perhaps, then from wherever a run leads the jobs
in the channel, at most 256, can end one after the other; and in whatever ways they do, after as
many turns of the thread no caller waits. -/
theorem drained (hends : ∀ o w, ∃ c, (exec o c w).isSome) (w : W) (ms : List (DbMove R C)) :
    let s := Runs.run (step handler exec) (Db.opened w) ms
    s.queue.length ≤ capacity ∧
    (∃ cs : List C, cs.length = s.queue.length ∧
      Meets (step handler exec) (JobEnds exec) s (cs.map .work)) ∧
    ∀ cs : List C, s.queue.length ≤ cs.length →
      Meets (step handler exec) (JobEnds exec) s (cs.map .work) →
      ∀ (i : ℕ) (caller : Caller Val R α), (Runs.run (step handler exec) (Db.opened w)
        (ms ++ cs.map .work)).callers[i]? = some caller → caller.phase ≠ .waiting := by
  intro s
  have h : Inv s := .run w ms
  refine ⟨h.room, exists_ends handler hends h, fun cs hlen hmeets i caller hcaller hwaits => ?_⟩
  rw [run_append] at hcaller
  have hend : Inv (Runs.run (step handler exec) s (cs.map .work)) :=
    run_invariant (fun _ m h => h.step m) _ h
  have hturns := past_turns h hmeets le_rfl (by rwa [turns_works])
  have hsent := congrArg List.length (@sent_works _ _ _ _ _ _ handler exec s cs)
  -- all that were sent are run
  rw [hend.fifo, h.fifo, List.length_append, List.length_append, List.length_map, List.length_map,
    List.length_map, List.length_map] at hsent
  have hdone : (Runs.run (step handler exec) s (cs.map .work)).queue = [] :=
    List.eq_nil_of_length_eq_zero (by omega)
  have hmem := hend.queued i caller hcaller hwaits
  rw [hdone] at hmem
  cases hmem

/-! ## The mail store on the thread -/

/-- A call of the mail store as a job. A closure that panics drops its transaction, which is rolled
back. -/
def mailJob (U : Unicode) (op : MailOp) (panics : Bool) (db : MailDb) :
    Option (Ended Unit × MailDb) :=
  some (if panics then (.panicked, db) else (.returned (.ok ()), mailStep U db op))

/-- A caller that makes one call of the mail store and returns what it returned. -/
def mailCall (op : MailOp) : Prog (Ret fun _ : MailOp => Unit) (Except StorageError Unit) :=
  .op op

/-- Three callers put a blob in: the job of one panics, and another goes away before its turn. -/
def threeCallers : List (DbMove MailOp Bool) :=
  [.start (.putBlob .ok ⟨1⟩ 5 0), .start (.putBlob .ok ⟨2⟩ 5 0), .start (.putBlob .ok ⟨3⟩ 5 0),
    .send 1, .send 0, .send 2, .work true, .cancel 2]

/-- Of the two jobs that are left one panics as well, and nobody waits. -/
theorem drained_mail :
    (Runs.run (step mailCall (mailJob .ascii)) (Db.opened .empty) threeCallers).queue.length = 2 ∧
      ∀ (i : ℕ) (caller : Caller (fun _ : MailOp => Unit) MailOp (Except StorageError Unit)),
        (Runs.run (step mailCall (mailJob .ascii)) (Db.opened .empty)
          (threeCallers ++ [false, true].map .work)).callers[i]? = some caller →
            caller.phase ≠ .waiting :=
  ⟨rfl, (drained mailCall (mailJob .ascii) (fun _ _ => ⟨false, rfl⟩) .empty threeCallers).2.2
    [false, true] (by decide) (meets_iff.mpr fun _ _ _ _ _ _ _ _ _ => rfl)⟩

/-- The job of the first caller is behind that of the second, which panics. -/
theorem runs_next_mail : ∃ e, (Runs.run (step mailCall (mailJob .ascii)) (Db.opened .empty)
      ([.start (.putBlob .ok ⟨1⟩ 5 0), .start (.putBlob .ok ⟨2⟩ 5 0), .send 1, .send 0] ++
        [.work true, .cancel 0, .work false])).past[0 + 1]? = some e ∧
    (e.thread, e.call.op) = (0, .putBlob .ok ⟨1⟩ 5 0) := by
  have hnext := runs_next mailCall (mailJob .ascii) .empty
    [.start (.putBlob .ok ⟨1⟩ 5 0), .start (.putBlob .ok ⟨2⟩ 5 0), .send 1, .send 0]
    [.work true, .cancel 0, .work false] 1 ⟨0, .putBlob .ok ⟨1⟩ 5 0, .ret⟩ rfl
  exact hnext.1 (hnext.2 (meets_iff.mpr fun _ _ _ _ _ _ _ _ _ => rfl) (by decide))

/-- **The invariant of the mail store**, around the writer thread: it holds whatever programs the
callers run, in whatever order their jobs get through, whichever of them panic and whoever goes
away. -/
theorem mailInv_conn (U : Unicode)
    (handler : R → Prog (Ret fun _ : MailOp => Unit) α) (ms : List (DbMove R Bool)) :
    MailInv U (Runs.run (step handler (mailJob U)) (Db.opened .empty) ms).conn := by
  obtain ⟨ms', hms'⟩ :=
    exists_run handler (mailJob U) (.opened MailDb.empty) ms
  have hworld : (Runs.run (step handler (mailJob U)) (Db.opened .empty) ms).conn = _ :=
    congrArg Sys.world hms'
  rw [hworld]
  refine world_invariant (fun op panics db r db' hrun h => ?_) ms' .empty
  -- a job that panics leaves the store as it was
  cases panics with
  | true =>
    simp only [atOnce, mailJob, if_true, Option.map_some, Option.some.injEq, Prod.mk.injEq] at hrun
    exact hrun.2 ▸ h
  | false =>
    simp only [atOnce, mailJob, Bool.false_eq_true, if_false, Option.map_some, Option.some.injEq,
      Prod.mk.injEq] at hrun
    exact hrun.2 ▸ h.step op

end Owney.Writer
