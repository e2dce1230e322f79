import Owney.JmapReferences
import Mathlib.Logic.Function.Basic

/-!
# Dispatching a request

`Dispatcher::process`: a request is validated as a whole, then its calls are run one
after the other, each with the responses so far to refer to. A handler is the
embedder's: a function of the resolved arguments and the context, which may also change
what the context refers to (the state `σ`). It can return an error, panic, or be cut
short by the time limit; each becomes an `error` response in the call's place.

`Dispatcher.Dispatches` says what a client relies on, and `dispatches` proves it: one
response to each call, which is the one that the call gets on its own, and which an
earlier error has no part in unless the call refers to it.
-/

namespace Owney.Jmap

/-! ## The dispatcher -/

/-- `CORE_CAPABILITY`. -/
def coreCapability : String := "urn:ietf:params:jmap:core"

/-- The limits that processing looks at. -/
structure Limits where
  maxCallsInRequest : ℕ := 16
  maxCallDuration : Option ℕ := none

/-- What a panic carries. -/
inductive Panic where
  | str (message : String)
  | string (message : String)
  | other

/-- The message of a panic. -/
def Panic.message : Panic → String
  | .str message | .string message => message
  | .other => "handler panicked"

/-- How a handler ends. -/
inductive Ending where
  | returned (result : Except MethodError Json)
  | panicked (panic : Panic)

/-- The run of a handler: how it ends and the state it leaves, and the state that is left
if a limit of so many milliseconds cancels it, where it does. -/
structure Handling (σ : Type) where
  ending : Ending
  after : σ
  cut : ℕ → Option σ

/-- A registered handler. -/
abbrev Handler (Ctx σ : Type) : Type := Json → Ctx → σ → Handling σ

/-- The method registry and request processor. -/
structure Dispatcher (Ctx σ : Type) where
  limits : Limits
  /-- The capabilities declared in the session. -/
  capabilities : List String
  /-- Method name to required capability and handler. -/
  methods : String → Option (String × Handler Ctx σ)
  sessionState : String

/-- A request. -/
structure Request where
  using' : List String
  methodCalls : List Invocation
  createdIds : Option (List (String × String))

/-- A response. -/
structure Response where
  methodResponses : List Invocation
  createdIds : Option (List (String × String))
  sessionState : String

/-- A request-level error. -/
inductive RequestError where
  | unknownCapability (capability : String)
  | notRequest
  | limit (name : String)
  deriving DecidableEq

namespace Dispatcher

variable {Ctx σ : Type} (d : Dispatcher Ctx σ)

/-- `register`. -/
def register (method capability : String) (handler : Handler Ctx σ) : Dispatcher Ctx σ :=
  { d with
    capabilities :=
      if capability = coreCapability ∨ capability ∈ d.capabilities then d.capabilities
      else capability :: d.capabilities
    methods := Function.update d.methods method (some (capability, handler)) }

/-- `Core/echo`. -/
def echo : Handler Ctx σ := fun args _ s =>
  { ending := .returned (.ok args), after := s, cut := fun _ => none }

/-- `Dispatcher::new`. -/
def new (sessionState : String) : Dispatcher Ctx σ :=
  register
    { limits := {}, capabilities := [coreCapability], methods := fun _ => none, sessionState }
    "Core/echo" coreCapability echo

/-- The loop over `using`. -/
def checkUsing : List String → List String → Except RequestError Unit
  | _, [] => .ok ()
  | seen, capability :: rest =>
    if capability ∈ seen then .error .notRequest
    else if capability ∉ d.capabilities then .error (.unknownCapability capability)
    else checkUsing (capability :: seen) rest

/-- The checks on the request as a whole. -/
def validate (request : Request) : Except RequestError Unit := do
  if request.using' = [] then .error .notRequest
  d.checkUsing [] request.using'
  if request.methodCalls.length > d.limits.maxCallsInRequest then
    .error (.limit "maxCallsInRequest")

section Process

/-! `E` gives the text of the deserializer's error for a value that is no reference. -/

variable (E : Value → String) (using' : List String) (ctx : Ctx)

/-- The method of a call: unknown if the request does not list its capability. -/
def lookup (name : String) : Option (Handler Ctx σ) :=
  match d.methods name with
  | none => none
  | some (capability, handler) =>
    if capability ≠ coreCapability ∧ capability ∉ using' then none else some handler

/-- The guarded part of `call`: the handler, under the time limit and the panic guard. -/
def guarded (handling : Handling σ) : Except MethodError Json × σ :=
  match d.limits.maxCallDuration.bind handling.cut with
  | some s => (.error (.serverFail "timeout"), s)
  | none =>
    match handling.ending with
    | .returned result => (result, handling.after)
    | .panicked panic => (.error (.serverFail panic.message), handling.after)

/-- `call`; `none` is a panic that nothing catches. -/
def call (prior : List Invocation) (inv : Invocation) (s : σ) :
    Option (Except MethodError Json × σ) :=
  match d.lookup using' inv.name with
  | none => some (.error .unknownMethod, s)
  | some handler =>
    match resolveReferences E inv.arguments prior with
    | .error .expect => none
    | .error (.method e) => some (.error e, s)
    | .ok arguments => some (d.guarded (handler arguments ctx s))

/-- The response that an outcome makes. -/
def respond (inv : Invocation) : Except MethodError Json → Invocation
  | .ok result => { inv with arguments := result }
  | .error e => e.invocation inv.callId

/-- The loop over the calls. -/
def run : List Invocation → List Invocation → σ → Option (List Invocation × σ)
  | [], responses, s => some (responses, s)
  | inv :: calls, responses, s => do
    let (outcome, s) ← d.call E using' ctx responses inv s
    run calls (responses ++ [respond inv outcome]) s

/-- `process`. -/
def process (request : Request) (s : σ) : Option (Except RequestError Response × σ) :=
  match d.validate request with
  | .error e => some (.error e, s)
  | .ok () => do
    let (responses, s) ← d.run E request.using' ctx request.methodCalls [] s
    some (.ok ⟨responses, request.createdIds, d.sessionState⟩, s)

/-! ## What a client relies on -/

/-- Why a response is what it is. -/
inductive Reason where
  | result
  | unknownMethod
  | badArguments
  | badReference
  | handlerError
  | panicked
  | timeout

/-- The answer to a call after the responses `prior`, in the state `s`: the reason for it,
the response and the state it leaves. -/
inductive Answers (prior : List Invocation) (inv : Invocation) (s : σ) :
    Reason → Invocation → σ → Prop where
  | unknownMethod (unknown : d.lookup using' inv.name = none) :
      Answers prior inv s .unknownMethod (MethodError.unknownMethod.invocation inv.callId) s
  | badArguments {handler : Handler Ctx σ} (known : d.lookup using' inv.name = some handler)
      (noObject : ∀ members, inv.arguments.value ≠ .object members) :
      Answers prior inv s .badArguments
        ((MethodError.invalidArguments "arguments must be an object").invocation inv.callId) s
  | badReference {handler : Handler Ctx σ} {members : Members} {e : MethodError}
      (known : d.lookup using' inv.name = some handler)
      (object : inv.arguments.value = .object members)
      (refused : resolveReferences E inv.arguments prior = .error (.method e)) :
      Answers prior inv s .badReference (e.invocation inv.callId) s
  | timeout {handler : Handler Ctx σ} {arguments : Json} {limit : ℕ} {s' : σ}
      (known : d.lookup using' inv.name = some handler)
      (resolved : resolveReferences E inv.arguments prior = .ok arguments)
      (limited : d.limits.maxCallDuration = some limit)
      (cut : (handler arguments ctx s).cut limit = some s') :
      Answers prior inv s .timeout ((MethodError.serverFail "timeout").invocation inv.callId) s'
  | result {handler : Handler Ctx σ} {arguments value : Json}
      (known : d.lookup using' inv.name = some handler)
      (resolved : resolveReferences E inv.arguments prior = .ok arguments)
      (inTime : d.limits.maxCallDuration.bind (handler arguments ctx s).cut = none)
      (ending : (handler arguments ctx s).ending = .returned (.ok value)) :
      Answers prior inv s .result ⟨inv.name, value, inv.callId⟩ (handler arguments ctx s).after
  | handlerError {handler : Handler Ctx σ} {arguments : Json} {e : MethodError}
      (known : d.lookup using' inv.name = some handler)
      (resolved : resolveReferences E inv.arguments prior = .ok arguments)
      (inTime : d.limits.maxCallDuration.bind (handler arguments ctx s).cut = none)
      (ending : (handler arguments ctx s).ending = .returned (.error e)) :
      Answers prior inv s .handlerError (e.invocation inv.callId) (handler arguments ctx s).after
  | panicked {handler : Handler Ctx σ} {arguments : Json} {panic : Panic}
      (known : d.lookup using' inv.name = some handler)
      (resolved : resolveReferences E inv.arguments prior = .ok arguments)
      (inTime : d.limits.maxCallDuration.bind (handler arguments ctx s).cut = none)
      (ending : (handler arguments ctx s).ending = .panicked panic) :
      Answers prior inv s .panicked
        ((MethodError.serverFail panic.message).invocation inv.callId)
        (handler arguments ctx s).after

end Process

end Dispatcher

/-- A call refers to the responses with a call id: one of its `#key` arguments is a
reference to them. -/
def Invocation.RefersTo (inv : Invocation) (callId : String) : Prop :=
  ∃ members, inv.arguments.value = .object members ∧ ∃ m ∈ members,
    (plainKey m.1).isSome ∧ ∃ reference, ResultReference.fromValue m.2 = some reference ∧
      reference.resultOf = callId

/-- **What a client relies on**, with the reasons for a response that it knows of. -/
structure Dispatcher.Dispatches {Ctx σ : Type} (d : Dispatcher Ctx σ) (E : Value → String)
    (reasons : Reason → Prop) : Prop where
  /-- An accepted request is answered, with one response to each call, in order and with
  its call id. -/
  each : ∀ request ctx s, d.validate request = .ok () → ∃ responses s',
    d.process E ctx request s =
      some (.ok ⟨responses, request.createdIds, d.sessionState⟩, s') ∧
    responses.map (·.callId) = request.methodCalls.map (·.callId)
  /-- Each response is what its call gets after the responses before it, for one of the
  reasons. -/
  answered : ∀ request ctx s, d.validate request = .ok () →
    ∀ pre inv post, request.methodCalls = pre ++ inv :: post →
    ∃ before s₁ answer s₂ after s',
      d.run E request.using' ctx pre [] s = some (before, s₁) ∧
      (∃ reason, reasons reason ∧
        d.Answers E request.using' ctx before inv s₁ reason answer s₂) ∧
      d.run E request.using' ctx (pre ++ [inv]) [] s = some (before ++ [answer], s₂) ∧
      d.process E ctx request s = some
        (.ok ⟨before ++ answer :: after, request.createdIds, d.sessionState⟩, s') ∧
      before.length = pre.length ∧ after.length = post.length
  /-- Two requests with the same call, after the same responses and in the same state,
  go on in the same way: of the rest of a request only the capabilities have a part in it. -/
  determined : ∀ ctx using₁ using₂ pre₁ pre₂ inv s₁ s₂,
    d.lookup using₁ inv.name = d.lookup using₂ inv.name →
    d.run E using₁ ctx pre₁ [] s₁ = d.run E using₂ ctx pre₂ [] s₂ →
    d.run E using₁ ctx (pre₁ ++ [inv]) [] s₁ = d.run E using₂ ctx (pre₂ ++ [inv]) [] s₂
  /-- A call that does not refer to a response is run as with any other in its place. -/
  call_isolated : ∀ using' ctx before answer other mid inv s,
    other.callId = answer.callId → ¬Invocation.RefersTo inv answer.callId →
    d.call E using' ctx (before ++ answer :: mid) inv s =
      d.call E using' ctx (before ++ other :: mid) inv s
  /-- Calls none of which refers to a response get the responses that they would get with
  any other in its place. -/
  run_isolated : ∀ using' ctx before answer other post s after s',
    other.callId = answer.callId →
    (∀ inv ∈ post, ¬Invocation.RefersTo inv answer.callId) →
    d.run E using' ctx post (before ++ [answer]) s = some (before ++ answer :: after, s') →
    d.run E using' ctx post (before ++ [other]) s = some (before ++ other :: after, s')

namespace Dispatcher

variable {Ctx σ : Type} {d : Dispatcher Ctx σ} {E : Value → String} {using' : List String}
  {ctx : Ctx} {prior : List Invocation} {inv : Invocation} {s : σ}

/-! ## One call -/

theorem callId_respond (inv : Invocation) (outcome : Except MethodError Json) :
    (respond inv outcome).callId = inv.callId := by
  cases outcome with
  | error e => rfl
  | ok result => rfl

/-- A call is answered for one of the reasons, and never panics. -/
theorem call_spec (d : Dispatcher Ctx σ) (E : Value → String) (using' : List String) (ctx : Ctx)
    (prior : List Invocation) (inv : Invocation) (s : σ) :
    ∃ outcome s', d.call E using' ctx prior inv s = some (outcome, s') ∧
      ∃ reason, d.Answers E using' ctx prior inv s reason (respond inv outcome) s' := by
  unfold call
  rcases hlookup : d.lookup using' inv.name with _ | handler
  · exact ⟨_, _, rfl, _, .unknownMethod hlookup⟩
  rcases hresolve : resolveReferences E inv.arguments prior with (e | _) | arguments
  · refine ⟨_, _, rfl, ?_⟩
    by_cases hobject : ∃ members, inv.arguments.value = .object members
    · obtain ⟨members, hobject⟩ := hobject
      exact ⟨_, .badReference hlookup hobject hresolve⟩
    · have hnone : ∀ members, inv.arguments.value ≠ .object members :=
        fun members h => hobject ⟨members, h⟩
      rw [resolveReferences_of_ne_object hnone] at hresolve
      cases hresolve
      exact ⟨_, .badArguments hlookup hnone⟩
  · exact absurd hresolve (resolveReferences_ne_expect _)
  · simp only [guarded]
    rcases hcut : d.limits.maxCallDuration.bind (handler arguments ctx s).cut with _ | s'
    · rcases hending : (handler arguments ctx s).ending with (e | value) | panic
      · exact ⟨_, _, rfl, _, .handlerError hlookup hresolve hcut hending⟩
      · exact ⟨_, _, rfl, _, .result hlookup hresolve hcut hending⟩
      · exact ⟨_, _, rfl, _, .panicked hlookup hresolve hcut hending⟩
    · obtain ⟨limit, hlimit, hcut⟩ := Option.bind_eq_some_iff.mp hcut
      exact ⟨_, _, rfl, _, .timeout hlookup hresolve hlimit hcut⟩

/-- A call depends on the capabilities of its request only through its method. -/
theorem call_congr {using₁ using₂ : List String}
    (h : d.lookup using₁ inv.name = d.lookup using₂ inv.name) :
    d.call E using₁ ctx prior inv s = d.call E using₂ ctx prior inv s := by
  unfold call
  rw [h]

/-! ## All calls -/

theorem run_append (calls calls' responses : List Invocation) (s : σ) :
    d.run E using' ctx (calls ++ calls') responses s =
      (d.run E using' ctx calls responses s).bind fun r => d.run E using' ctx calls' r.1 r.2 := by
  induction calls generalizing responses s with
  | nil => rfl
  | cons inv calls ih =>
    rw [List.cons_append, run, run]
    cases d.call E using' ctx responses inv s with
    | none => rfl
    | some r => exact ih _ _

/-- The calls are answered one by one, and the responses there are kept. -/
theorem run_spec (calls responses : List Invocation) (s : σ) :
    ∃ more s', d.run E using' ctx calls responses s = some (responses ++ more, s') ∧
      more.map (·.callId) = calls.map (·.callId) := by
  induction calls generalizing responses s with
  | nil => exact ⟨[], s, by rw [run, List.append_nil], rfl⟩
  | cons inv calls ih =>
    obtain ⟨outcome, s₁, hcall, -⟩ := call_spec d E using' ctx responses inv s
    obtain ⟨more, s₂, hrun, hids⟩ := ih (responses ++ [respond inv outcome]) s₁
    refine ⟨respond inv outcome :: more, s₂, ?_, ?_⟩
    · rw [run, hcall]
      exact hrun.trans (by rw [List.append_assoc, List.singleton_append])
    · rw [List.map_cons, List.map_cons, callId_respond, hids]

theorem process_of_run {request : Request} {responses : List Invocation} {s' : σ}
    (h : d.validate request = .ok ())
    (hrun : d.run E request.using' ctx request.methodCalls [] s = some (responses, s')) :
    d.process E ctx request s =
      some (.ok ⟨responses, request.createdIds, d.sessionState⟩, s') := by
  rw [process, h]
  simp only [hrun]
  rfl

/-! ## Isolation -/

theorem call_isolated {before mid : List Invocation} {answer other : Invocation}
    (hid : other.callId = answer.callId) (h : ¬inv.RefersTo answer.callId) :
    d.call E using' ctx (before ++ answer :: mid) inv s =
      d.call E using' ctx (before ++ other :: mid) inv s := by
  have hsource : ∀ map, inv.arguments.value = .object map → ∀ m ∈ map, ∀ plain,
      plainKey m.1 = some plain → ∀ reference, ResultReference.fromValue m.2 = some reference →
      reference.source (before ++ answer :: mid) = reference.source (before ++ other :: mid) := by
    intro map hmap m hm plain hplain reference hreference
    have hne : answer.callId ≠ reference.resultOf :=
      fun heq => h ⟨map, hmap, m, hm, by rw [hplain]; rfl, reference, hreference, heq.symm⟩
    rw [ResultReference.source, ResultReference.source, List.find?_append, List.find?_append,
      List.find?_cons_of_neg (by simp [hne]), List.find?_cons_of_neg (by simp [hid, hne])]
  unfold call
  rw [resolveReferences_congr hsource]

theorem run_isolated {before mid post after : List Invocation} {answer other : Invocation} {s' : σ}
    (hid : other.callId = answer.callId) (h : ∀ inv ∈ post, ¬inv.RefersTo answer.callId)
    (hrun : d.run E using' ctx post (before ++ answer :: mid) s =
      some (before ++ answer :: after, s')) :
    d.run E using' ctx post (before ++ other :: mid) s =
      some (before ++ other :: after, s') := by
  induction post generalizing mid s with
  | nil =>
    obtain ⟨hlist, rfl⟩ := Prod.mk.inj (Option.some.inj hrun)
    obtain rfl := (List.cons.inj (List.append_cancel_left hlist)).2
    rfl
  | cons inv post ih =>
    obtain ⟨hinv, hpost⟩ := List.forall_mem_cons.mp h
    rw [run] at hrun ⊢
    rw [← call_isolated hid hinv]
    cases hcall : d.call E using' ctx (before ++ answer :: mid) inv s with
    | none =>
      rw [hcall] at hrun
      cases hrun
    | some r =>
      rw [hcall] at hrun
      simp only [Option.bind_eq_bind, Option.bind_some, List.append_assoc, List.cons_append]
        at hrun ⊢
      exact ih hpost hrun

/-- **Dispatch.** An accepted request gets one response to each call, and each is what its
call gets on its own, unless it refers to others. -/
theorem dispatches (d : Dispatcher Ctx σ) (E : Value → String) :
    d.Dispatches E fun _ => True where
  each request ctx s h := by
    obtain ⟨responses, s', hrun, hids⟩ := run_spec request.methodCalls [] s
    exact ⟨responses, s', process_of_run h hrun, hids⟩
  answered request ctx s h pre inv post hcalls := by
    obtain ⟨before, s₁, hpre, hbefore⟩ := run_spec pre [] s
    obtain ⟨outcome, s₂, hcall, reason, hanswer⟩ :=
      call_spec d E request.using' ctx before inv s₁
    obtain ⟨after, s', hpost, hafter⟩ := run_spec post (before ++ [respond inv outcome]) s₂
    have hinv : d.run E request.using' ctx (pre ++ [inv]) [] s =
        some (before ++ [respond inv outcome], s₂) := by
      rw [run_append, hpre]
      simp only [List.nil_append, Option.bind_some, run, hcall]
      rfl
    have hall : d.run E request.using' ctx request.methodCalls [] s =
        some (before ++ respond inv outcome :: after, s') := by
      rw [hcalls, ← List.singleton_append, ← List.append_assoc, run_append, hinv]
      exact hpost.trans (by rw [List.append_assoc, List.singleton_append])
    refine ⟨before, s₁, respond inv outcome, s₂, after, s', hpre, ⟨reason, trivial, hanswer⟩, hinv,
      process_of_run h hall, ?_, ?_⟩
    · simpa using congrArg List.length hbefore
    · simpa using congrArg List.length hafter
  determined ctx using₁ using₂ pre₁ pre₂ inv s₁ s₂ hlookup h := by
    rw [run_append, run_append, h]
    congr 1
    funext r
    rw [run, run, call_congr hlookup]
    rfl
  call_isolated using' ctx before answer other mid inv s := call_isolated
  run_isolated using' ctx before answer other post s after s' := run_isolated

end Dispatcher

/-! ## Two more reasons -/

/-- The reasons other than arguments that are no object, and the time limit. -/
def Dispatcher.Reason.Listed : Dispatcher.Reason → Prop
  | .badArguments | .timeout => False
  | _ => True

/-- `["Core/echo", null, "c1"]`. -/
def echoNull : Invocation := ⟨"Core/echo", ⟨.null, .null⟩, "c1"⟩

/-- A call whose arguments are no object gets an error, and not for a reason listed. -/
theorem not_dispatches_listed :
    ¬(Dispatcher.new "s0" : Dispatcher Unit Unit).Dispatches (fun _ => "")
      Dispatcher.Reason.Listed := by
  intro h
  obtain ⟨before, s₁, answer, s₂, after, s', -, ⟨reason, hlisted, hanswer⟩, -⟩ :=
    h.answered ⟨[coreCapability], [echoNull], none⟩ () () rfl [] echoNull [] rfl
  cases hanswer with
  | unknownMethod unknown => cases unknown
  | badArguments | timeout => exact hlisted
  | badReference known object => cases object
  | result known resolved | handlerError known resolved | panicked known resolved => cases resolved

end Owney.Jmap
