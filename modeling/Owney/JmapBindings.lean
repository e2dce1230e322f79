import Owney.GetPartition
import Owney.OidcCodes
import Owney.OpenConnections
import Owney.RequestTexts

/-!
# The two bindings of the JMAP endpoint

The same request can be sent in the body of `POST /jmap/api` and in a frame on a WebSocket. Each
reads its text on its own, and each has the session object's limits to keep.

* `Dispatcher.performed` — the calls of a request that get as far as their handlers.
* `BindingsLaw` — what a client relies on: the same answers on both, and the limits on both.
* `BindingsAgree` — when that is so. Only the body has its size checked, nothing checks the number
  of objects of a call, and a text may have one reading and not the other.
-/

namespace Owney.Jmap

/-! ## What a request performs -/

/-- A call with its resolved arguments, and how it went from state to state. -/
structure Performed (σ : Type) where
  name : String
  arguments : Json
  before : σ
  outcome : Except MethodError Json
  after : σ

/-- From a state to a state, by the calls that were performed. -/
inductive Chained {σ : Type} : σ → List (Performed σ) → σ → Prop where
  | nil (s : σ) : Chained s [] s
  | cons (p : Performed σ) {ps : List (Performed σ)} {s' : σ} (rest : Chained p.after ps s') :
      Chained p.before (p :: ps) s'

theorem Chained.append {σ : Type} {s s' s'' : σ} {ps qs : List (Performed σ)}
    (h : Chained s ps s') (h' : Chained s' qs s'') : Chained s (ps ++ qs) s'' := by
  induction h with
  | nil s => exact h'
  | cons p rest ih => exact .cons p (ih h')

/-- A call that is refused, without any effect. -/
def Performed.Refused {σ : Type} (p : Performed σ) : Prop :=
  (∃ e, p.outcome = .error e) ∧ p.after = p.before

namespace Dispatcher

variable {Ctx σ : Type} (d : Dispatcher Ctx σ) (E : Value → String) (using' : List String)
  (ctx : Ctx)

/-- What `call` performs: the handler, if it is known and the arguments resolve. -/
def performs (prior : List Invocation) (inv : Invocation) (s : σ) : Option (Performed σ) :=
  match d.lookup using' inv.name, resolveReferences E inv.arguments prior with
  | some handler, .ok arguments =>
    let (outcome, s') := d.guarded (handler arguments ctx s)
    some ⟨inv.name, arguments, s, outcome, s'⟩
  | _, _ => none

/-- What `run` performs. -/
def performedOf : List Invocation → List Invocation → σ → List (Performed σ)
  | [], _, _ => []
  | inv :: calls, responses, s =>
    match d.call E using' ctx responses inv s with
    | none => []
    | some (outcome, s') =>
      (d.performs E using' ctx responses inv s).toList ++
        performedOf calls (responses ++ [respond inv outcome]) s'

/-- What `process` performs. -/
def performed (request : Request) (s : σ) : List (Performed σ) :=
  match d.validate request with
  | .error _ => []
  | .ok () => d.performedOf E request.using' ctx request.methodCalls [] s

/-- A call of the request reaches its handler, with these arguments and in this state. -/
def Reaches (request : Request) (s : σ) (inv : Invocation) (handler : Handler Ctx σ)
    (arguments : Json) (s' : σ) : Prop :=
  ∃ pre post before, request.methodCalls = pre ++ inv :: post ∧
    d.run E request.using' ctx pre [] s = some (before, s') ∧
    d.lookup request.using' inv.name = some handler ∧
    resolveReferences E inv.arguments before = .ok arguments

/-- The handling fails on its own, and has no effect. -/
def Refuses (handling : Handling σ) (s : σ) : Prop :=
  match d.limits.maxCallDuration.bind handling.cut with
  | some s' => s' = s
  | none => (∀ result, handling.ending ≠ .returned (.ok result)) ∧ handling.after = s

section Lemmas

variable {d E using' ctx} {calls responses : List Invocation} {inv : Invocation} {s s' : σ}

theorem refuses_iff {handling : Handling σ} : d.Refuses handling s ↔
    (∃ e, (d.guarded handling).1 = .error e) ∧ (d.guarded handling).2 = s := by
  unfold Refuses guarded
  cases d.limits.maxCallDuration.bind handling.cut with
  | some s' => simp
  | none => rcases handling.ending with (e | value) | panic <;> simp

/-- Where nothing is performed the call changes nothing, and otherwise what the handler does. -/
theorem call_performs {outcome : Except MethodError Json}
    (h : d.call E using' ctx responses inv s = some (outcome, s')) :
    Chained s (d.performs E using' ctx responses inv s).toList s' := by
  unfold call at h
  unfold performs
  cases hlookup : d.lookup using' inv.name with
  | none =>
    rw [hlookup] at h
    cases h
    exact .nil s
  | some handler =>
    rw [hlookup] at h
    rcases hresolve : resolveReferences E inv.arguments responses with (e | _) | arguments
    · rw [hresolve] at h
      cases h
      exact .nil s
    · rw [hresolve] at h
      cases h
    · rw [hresolve] at h
      obtain ⟨-, rfl⟩ := Prod.mk.inj (Option.some.inj h)
      exact .cons ⟨inv.name, arguments, s, _, _⟩ (.nil _)

/-- The state changes through what is performed, and through nothing else. -/
theorem run_chained {answers : List Invocation}
    (h : d.run E using' ctx calls responses s = some (answers, s')) :
    Chained s (d.performedOf E using' ctx calls responses s) s' := by
  induction calls generalizing responses s with
  | nil =>
    cases h
    exact .nil _
  | cons inv calls ih =>
    obtain ⟨⟨outcome, s₁⟩, hcall, h⟩ := Option.bind_eq_some_iff.mp h
    rw [performedOf, hcall]
    exact (call_performs hcall).append (ih h)

theorem mem_performedOf_iff {p : Performed σ} :
    p ∈ d.performedOf E using' ctx calls responses s ↔ ∃ pre inv post before s₁,
      calls = pre ++ inv :: post ∧ d.run E using' ctx pre responses s = some (before, s₁) ∧
      d.performs E using' ctx before inv s₁ = some p := by
  induction calls generalizing responses s with
  | nil =>
    constructor
    · intro h
      rw [performedOf] at h
      cases h
    · rintro ⟨pre, inv, post, before, s₁, h, -⟩
      cases pre <;> cases h
  | cons inv calls ih =>
    obtain ⟨outcome, s₂, hcall, -⟩ := call_spec d E using' ctx responses inv s
    rw [performedOf, hcall, List.mem_append, Option.mem_toList, ih]
    constructor
    · rintro (h | ⟨pre, inv', post, before, s₁, rfl, hrun, hp⟩)
      · exact ⟨[], inv, calls, responses, s, rfl, rfl, h⟩
      · refine ⟨inv :: pre, inv', post, before, s₁, rfl, ?_, hp⟩
        rw [run, hcall]
        exact hrun
    · rintro ⟨_ | ⟨inv', pre⟩, inv'', post, before, s₁, hcalls, hrun, hp⟩
      · obtain ⟨rfl, rfl⟩ := List.cons.inj hcalls
        cases hrun
        exact .inl hp
      · obtain ⟨rfl, rfl⟩ := List.cons.inj hcalls
        rw [run, hcall] at hrun
        exact .inr ⟨pre, inv'', post, before, s₁, rfl, hrun, hp⟩

theorem performs_eq_some_iff {p : Performed σ} :
    d.performs E using' ctx responses inv s = some p ↔ ∃ handler arguments,
      d.lookup using' inv.name = some handler ∧
      resolveReferences E inv.arguments responses = .ok arguments ∧
      p = ⟨inv.name, arguments, s, (d.guarded (handler arguments ctx s)).1,
        (d.guarded (handler arguments ctx s)).2⟩ := by
  unfold performs
  cases d.lookup using' inv.name with
  | none => simp
  | some handler =>
    cases resolveReferences E inv.arguments responses with
    | error e => simp
    | ok arguments => simp [eq_comm]

/-- What is performed are the calls that reach their handlers. -/
theorem mem_performed_iff {request : Request} (h : d.validate request = .ok ())
    {p : Performed σ} : p ∈ d.performed E ctx request s ↔ ∃ inv handler arguments s₁,
      d.Reaches E ctx request s inv handler arguments s₁ ∧
      p = ⟨inv.name, arguments, s₁, (d.guarded (handler arguments ctx s₁)).1,
        (d.guarded (handler arguments ctx s₁)).2⟩ := by
  rw [performed, h]
  simp only
  rw [mem_performedOf_iff]
  constructor
  · rintro ⟨pre, inv, post, before, s₁, hcalls, hrun, hp⟩
    obtain ⟨handler, arguments, hlookup, hresolve, rfl⟩ := performs_eq_some_iff.mp hp
    exact ⟨inv, handler, arguments, s₁, ⟨pre, post, before, hcalls, hrun, hlookup, hresolve⟩, rfl⟩
  · rintro ⟨inv, handler, arguments, s₁, ⟨pre, post, before, hcalls, hrun, hlookup, hresolve⟩, rfl⟩
    exact ⟨pre, inv, post, before, s₁, hcalls, hrun,
      performs_eq_some_iff.mpr ⟨handler, arguments, hlookup, hresolve, rfl⟩⟩

/-- A request is answered or it is not; the mail goes through what is performed. -/
theorem process_chained {request : Request} {answer : Except RequestError Response}
    (h : d.process E ctx request s = some (answer, s')) :
    Chained s (d.performed E ctx request s) s' := by
  unfold process at h
  unfold performed
  cases hvalid : d.validate request with
  | error e =>
    rw [hvalid] at h
    cases h
    exact .nil s
  | ok =>
    rw [hvalid] at h
    obtain ⟨⟨answers, s₁⟩, hrun, h⟩ := Option.bind_eq_some_iff.mp h
    obtain ⟨-, rfl⟩ := Prod.mk.inj (Option.some.inj h)
    exact run_chained hrun

/-- A request that is not refused as a whole is answered. -/
theorem process_of_valid (d : Dispatcher Ctx σ) (E : Value → String) (ctx : Ctx)
    {request : Request} (s : σ) (h : d.validate request = .ok ()) : ∃ answers s',
      d.process E ctx request s = some (.ok ⟨answers, request.createdIds, d.sessionState⟩, s') := by
  have hall : ∃ answers s', d.run E request.using' ctx request.methodCalls [] s =
      some ([] ++ answers, s') ∧ answers.map (·.callId) = request.methodCalls.map (·.callId) :=
    run_spec request.methodCalls [] s
  obtain ⟨answers, s', hrun, -⟩ := hall
  exact ⟨_, s', process_of_run h hrun⟩

theorem process_total (d : Dispatcher Ctx σ) (E : Value → String) (ctx : Ctx)
    (request : Request) (s : σ) : ∃ answer s', d.process E ctx request s = some (answer, s') := by
  cases hvalid : d.validate request with
  | error e => exact ⟨_, s, by rw [process, hvalid]⟩
  | ok =>
    obtain ⟨answers, s', hprocess⟩ := process_of_valid d E ctx s hvalid
    exact ⟨_, s', hprocess⟩

theorem calls_of_valid {request : Request} (h : d.validate request = .ok ()) :
    request.methodCalls.length ≤ d.limits.maxCallsInRequest := by
  unfold validate at h
  by_contra hmany
  rw [if_pos (not_le.mp hmany)] at h
  by_cases husing : request.using' = []
  · rw [if_pos husing] at h
    cases h
  rw [if_neg husing] at h
  dsimp only at h
  cases hcheck : d.checkUsing [] request.using' with
  | error e =>
    rw [hcheck] at h
    cases h
  | ok =>
    rw [hcheck] at h
    cases h

end Lemmas

end Dispatcher

end Owney.Jmap

namespace Owney.Access

open Jmap

/-! ## The limits on objects -/

/-- The limits that only the session object mentions. -/
structure ObjectLimits where
  maxObjectsInGet : ℕ := 500
  maxObjectsInSet : ℕ := 500

/-- The items of an argument that is an array. -/
def listedIn (arguments : Json) (key : String) : ℕ :=
  match member arguments key with
  | some (.array items) => items.length
  | _ => 0

/-- The members of an argument that is an object. -/
def keyedIn (arguments : Json) (key : String) : ℕ :=
  match member arguments key with
  | some (.object members) => members.length
  | _ => 0

/-- A `Foo/get` call with too many ids, or a `Foo/set` call with too many objects. -/
def Oversize (limits : ObjectLimits) (name : String) (arguments : Json) : Prop :=
  ("/get".toList <:+ name.toList ∧ limits.maxObjectsInGet < listedIn arguments "ids") ∨
  ("/set".toList <:+ name.toList ∧ limits.maxObjectsInSet <
    keyedIn arguments "create" + keyedIn arguments "update" + listedIn arguments "destroy")

/-! ## The two bindings -/

/-- A server. `axum` has limits of its own and hands a text on or does not, and `grammar` gives the
tree of a text that is JSON. -/
structure Server (σ : Type) where
  oidc : Oidc
  /-- the `String` extractor -/
  extracts : String → Bool
  /-- `WebSocket::recv` -/
  receives : String → Bool
  grammar : String → Option JsonText
  maxSizeRequest : ℕ
  objectLimits : ObjectLimits
  dispatcher : Dispatcher AccountsRow σ
  referenceError : Value → String

/-- The endpoints of a server. -/
def Server.endpoint {σ : Type} (V : Server σ) : Endpoint σ where
  oidc := V.oidc
  parse text := (V.grammar text).bind JsonText.toJson
  readRequest json := json.value.text.readRequest
  parseRequest text := (V.grammar text).bind JsonText.readRequest
  maxSizeRequest := V.maxSizeRequest
  dispatcher := V.dispatcher
  referenceError := V.referenceError

/-- An account that has a connection: its number, how it was opened, and for a WebSocket what
waits in its receiver. -/
structure Client where
  k : ℕ
  authorization : Option String
  account : AccountsRow
  bus : List BusEvent
  pushEnabled : Bool

/-- The frame's object is the one of the body, with `@type` and perhaps an `id`. -/
def Carries {σ : Type} (V : Server σ) (body frame : String) : Prop :=
  ∃ members others, V.grammar body = some (.object members) ∧
    V.grammar frame = some (.object others) ∧
    others.filter (fun m => m.1 ≠ "@type" ∧ m.1 ≠ "id") =
      members.filter (fun m => m.1 ≠ "@type" ∧ m.1 ≠ "id") ∧
    valuesOf others "@type" = [.string "Request"]

/-- The method responses, where there are any. -/
def methodResponses : Option Output → Option (List Invocation)
  | some (.processed _ _ (some (.ok response)) _) => some response.methodResponses
  | _ => none

/-- The request that got to the dispatcher. -/
def requested : Option Output → Option Jmap.Request
  | some (.processed _ request _ _) => some request
  | _ => none

section Bindings

variable {σ : Type} (V : Server σ) (w : World σ) (client : Client)

/-- The request in the body of `POST /jmap/api`. -/
def overHttp (body : String) : World σ × Option Output :=
  if V.extracts body then
    step V.endpoint
      (w.set client.k (some ⟨.http body, client.authorization, client.account, .accepted⟩))
      (.proceed client.k)
  else (w.set client.k none, none)

/-- The request in a frame on a WebSocket. -/
def overWebSocket (frame : String) : World σ × Option Output :=
  if V.receives frame then
    step V.endpoint
      (w.set client.k (some ⟨.webSocket, client.authorization, client.account,
        .socket client.bus client.pushEnabled⟩))
      (.frame client.k frame)
  else (w.set client.k none, none)

/-- What the dispatcher performs of a request that got there. -/
def performedFor (out : Option Output) : List (Performed σ) :=
  match requested out with
  | none => []
  | some request => V.dispatcher.performed V.referenceError client.account request w.mail

/-- The limits are enforced on a text with this output. -/
structure Enforces (text : String) (out : Option Output) : Prop where
  size : V.maxSizeRequest < text.utf8ByteSize → performedFor V w client out = []
  calls : ∀ request, requested out = some request →
    V.dispatcher.limits.maxCallsInRequest < request.methodCalls.length →
    performedFor V w client out = []
  objects : ∀ p ∈ performedFor V w client out,
    Oversize V.objectLimits p.name p.arguments → p.Refused

/-- **What a client relies on.** Both bindings refuse the request or both give the same method
responses, and the limits are enforced on both. -/
structure BindingsLaw (body frame : String) : Prop where
  agree : methodResponses (overHttp V w client body).2 =
    methodResponses (overWebSocket V w client frame).2
  http : Enforces V w client body (overHttp V w client body).2
  webSocket : Enforces V w client frame (overWebSocket V w client frame).2

/-- The request that the body is read as. -/
def bodyRequest (body : String) : Option Jmap.Request :=
  if V.extracts body ∧ body.utf8ByteSize ≤ V.maxSizeRequest then
    (V.grammar body).bind JsonText.readRequest
  else none

/-- The request that the value of the frame is read as. -/
def frameRequest (frame : String) : Option Jmap.Request :=
  if V.receives frame then
    (V.grammar frame).bind fun t => t.toValue.bind fun value => value.text.readRequest
  else none

/-- What is read is refused as a whole, if anything is read. -/
def Turned (read : Option Jmap.Request) : Prop :=
  ∀ request, read = some request → V.dispatcher.validate request ≠ .ok ()

/-- **When the law holds.** Both texts are refused. Or the body is read as a request that is valid,
and the frame gets through and has a value; the frame is not too large either, or no call reaches
a handler; and of the calls with too many objects those that reach their handlers are refused
there. -/
def BindingsAgree (body frame : String) : Prop :=
  (Turned V (bodyRequest V body) ∧ Turned V (frameRequest V frame)) ∨
  ∃ request, bodyRequest V body = some request ∧ V.dispatcher.validate request = .ok () ∧
    V.receives frame ∧ ((V.grammar frame).bind JsonText.toValue).isSome ∧
    (V.maxSizeRequest < frame.utf8ByteSize → ∀ inv handler arguments s,
      ¬V.dispatcher.Reaches V.referenceError client.account request w.mail inv handler
        arguments s) ∧
    ∀ inv handler arguments s,
      V.dispatcher.Reaches V.referenceError client.account request w.mail inv handler
        arguments s →
      Oversize V.objectLimits inv.name arguments →
      V.dispatcher.Refuses (handler arguments client.account s) s

/-- The method responses of a request that gets to the dispatcher. -/
def answersOf (request : Jmap.Request) : Option (List Invocation) :=
  match V.dispatcher.process V.referenceError client.account request w.mail with
  | some (.ok response, _) => some response.methodResponses
  | _ => none

end Bindings

/-! ## What the bindings read -/

section Reading

variable {σ : Type} {V : Server σ} {w : World σ} {client : Client} {body frame : String}

/-- What becomes of a text that is read so. -/
structure Handled (V : Server σ) (w : World σ) (client : Client) (read : Option Jmap.Request)
    (result : World σ × Option Output) : Prop where
  requested : requested result.2 = read
  responses : methodResponses result.2 = read.bind (answersOf V w client)
  /-- The mail goes through what is performed, and through nothing else. -/
  mail : Chained w.mail (performedFor V w client result.2) result.1.mail

theorem handled_process (w : World σ) (client : Client) (k : ℕ) (request : Jmap.Request)
    (id : Option Value) (c c' : Option Connection) :
    Handled V w client (some request)
      (process V.endpoint (w.set k c) k client.account request id c') := by
  obtain ⟨answer, mail, hprocess⟩ :=
    Dispatcher.process_total V.dispatcher V.referenceError client.account request w.mail
  have hendpoint : V.endpoint.dispatcher.process V.endpoint.referenceError client.account request
      (w.set k c).mail = some (answer, mail) := hprocess
  have hresult : process V.endpoint (w.set k c) k client.account request id c' =
      ({ (w.set k c).set k c' with mail },
        some (.processed client.account.id request (some answer) id)) := by
    unfold process
    rw [hendpoint]
  rw [hresult]
  refine ⟨rfl, ?_, Dispatcher.process_chained hprocess⟩
  rw [Option.bind_some, answersOf, hprocess]
  cases answer with
  | error e => rfl
  | ok response => rfl

theorem overHttp_handled (V : Server σ) (w : World σ) (client : Client) (body : String) :
    Handled V w client (bodyRequest V body) (overHttp V w client body) := by
  unfold overHttp bodyRequest
  by_cases hextracts : V.extracts body
  swap
  · rw [if_neg hextracts, if_neg fun h => hextracts h.1]
    exact ⟨rfl, rfl, .nil _⟩
  have hstep : step V.endpoint
      (w.set client.k (some ⟨.http body, client.authorization, client.account, .accepted⟩))
      (.proceed client.k) = api V.endpoint
      (w.set client.k (some ⟨.http body, client.authorization, client.account, .accepted⟩))
      client.k client.account body := by
    unfold step World.set
    simp only [Function.update_self]
  rw [if_pos hextracts, hstep]
  unfold api
  have hsize : V.endpoint.maxSizeRequest = V.maxSizeRequest := rfl
  rw [hsize]
  by_cases hlarge : V.maxSizeRequest < body.utf8ByteSize
  · rw [if_pos hlarge, if_neg fun h => not_lt.mpr h.2 hlarge]
    exact ⟨rfl, rfl, .nil _⟩
  rw [if_neg hlarge, if_pos ⟨hextracts, not_lt.mp hlarge⟩]
  have hparse : V.endpoint.parseRequest body = (V.grammar body).bind JsonText.readRequest := rfl
  rw [hparse]
  cases (V.grammar body).bind JsonText.readRequest with
  | none => exact ⟨rfl, rfl, .nil _⟩
  | some request => exact handled_process w client client.k request none _ none

/-- The value of a frame that carries a request has its type. -/
theorem member_type {others : List (String × JsonText)} {json : Json}
    (h : (JsonText.object others).toJson = some json)
    (htype : valuesOf others "@type" = [.string "Request"]) :
    member json "@type" = some (.string "Request") := by
  obtain ⟨pairs, hpairs, hjson⟩ := Option.map_eq_some_iff.mp (toJson_eq_some_iff.mp h)
  obtain ⟨value, hvalue, hget⟩ := get_mapOf_single hpairs htype
  cases hvalue
  unfold member
  rw [← hjson]
  exact hget

theorem overWebSocket_handled (w : World σ) (client : Client) (h : Carries V body frame) :
    Handled V w client (frameRequest V frame) (overWebSocket V w client frame) := by
  obtain ⟨members, others, -, hframe, -, htype⟩ := h
  have hparse : V.endpoint.parse frame = (JsonText.object others).toJson := by
    rw [← Option.bind_some (JsonText.object others) JsonText.toJson, ← hframe]
    rfl
  have hread : ∀ json, V.endpoint.readRequest json = json.value.text.readRequest := fun _ => rfl
  unfold overWebSocket frameRequest
  by_cases hreceives : V.receives frame
  swap
  · rw [if_neg hreceives, if_neg hreceives]
    exact ⟨rfl, rfl, .nil _⟩
  rw [if_pos hreceives, if_pos hreceives]
  unfold step World.set
  simp only [Function.update_self]
  unfold readFrame
  rw [hparse, hframe, Option.bind_some]
  cases hjson : (JsonText.object others).toJson with
  | none =>
    have hvalue : (JsonText.object others).toValue = none := by
      rw [Option.eq_none_iff_forall_ne_some]
      intro value hvalue
      have hsome : (JsonText.object others).toJson = some ⟨value, toValue_valid hvalue⟩ :=
        toJson_eq_some_iff.mpr hvalue
      rw [hjson] at hsome
      cases hsome
    rw [hvalue]
    exact ⟨rfl, rfl, .nil _⟩
  | some json =>
    rw [toJson_eq_some_iff.mp hjson, Option.bind_some]
    simp only [member_type hjson htype, hread]
    cases json.value.text.readRequest with
    | none => exact ⟨rfl, rfl, .nil _⟩
    | some request => exact handled_process w client client.k request _ _ _

/-- Names that are neither `@type` nor `id` have the same values in the body and the frame. -/
theorem valuesOf_of_filter {members others : List (String × JsonText)} {key : String}
    (h : others.filter (fun m => m.1 ≠ "@type" ∧ m.1 ≠ "id") =
      members.filter (fun m => m.1 ≠ "@type" ∧ m.1 ≠ "id"))
    (hkey : key ≠ "@type" ∧ key ≠ "id") : valuesOf others key = valuesOf members key := by
  have hfilter : ∀ list : List (String × JsonText), list.filter (·.1 = key) =
      (list.filter fun m => m.1 ≠ "@type" ∧ m.1 ≠ "id").filter (·.1 = key) := by
    intro list
    rw [List.filter_filter]
    refine List.filter_congr fun m _ => ?_
    by_cases hm : m.1 = key
    · simp [hm, hkey]
    · simp [hm]
  rw [valuesOf, valuesOf, hfilter others, hfilter members, h]

/-- A frame that gets through and has a value is read as the request that the body is read as. -/
theorem frameRequest_of_body (h : Carries V body frame) {request : Jmap.Request}
    (hbody : bodyRequest V body = some request)
    (hreceives : V.receives frame) (hvalue : ((V.grammar frame).bind JsonText.toValue).isSome) :
    frameRequest V frame = some request := by
  obtain ⟨members, others, hmembers, hothers, hsame, -⟩ := h
  unfold bodyRequest at hbody
  split_ifs at hbody
  rw [hmembers, Option.bind_some] at hbody
  rw [hothers, Option.bind_some] at hvalue
  obtain ⟨value, hvalue⟩ := Option.isSome_iff_exists.mp hvalue
  rw [frameRequest, if_pos hreceives, hothers, Option.bind_some, hvalue, Option.bind_some]
  exact readRequest_text hbody hvalue (valuesOf_of_filter hsame (by decide))
    (valuesOf_of_filter hsame (by decide)) (valuesOf_of_filter hsame (by decide))

end Reading

/-! ## When the law holds -/

section Law

variable {σ : Type} {V : Server σ} {w : World σ} {client : Client} {body frame text : String}
  {request : Jmap.Request} {out : Option Output}

theorem answersOf_of_valid (w : World σ) (client : Client)
    (h : V.dispatcher.validate request = .ok ()) :
    ∃ answers, answersOf V w client request = some answers := by
  obtain ⟨answers, mail, hprocess⟩ :=
    Dispatcher.process_of_valid V.dispatcher V.referenceError client.account w.mail h
  exact ⟨answers, by rw [answersOf, hprocess]⟩

theorem answersOf_of_refused (h : V.dispatcher.validate request ≠ .ok ()) :
    answersOf V w client request = none := by
  rw [answersOf, Dispatcher.process]
  cases hvalid : V.dispatcher.validate request with
  | error e => rfl
  | ok => exact absurd hvalid h

theorem performed_of_refused (h : V.dispatcher.validate request ≠ .ok ()) :
    V.dispatcher.performed V.referenceError client.account request w.mail = [] := by
  rw [Dispatcher.performed]
  cases hvalid : V.dispatcher.validate request with
  | error e => rfl
  | ok => exact absurd hvalid h

/-- A text is turned away exactly if there are no method responses. -/
theorem turned_iff (w : World σ) (client : Client) {read : Option Jmap.Request} :
    Turned V read ↔ read.bind (answersOf V w client) = none := by
  cases read with
  | none => exact ⟨fun _ => rfl, fun _ request h => nomatch h⟩
  | some request =>
    rw [Option.bind_some]
    by_cases hvalid : V.dispatcher.validate request = .ok ()
    · obtain ⟨answers, hanswers⟩ := answersOf_of_valid w client hvalid
      rw [hanswers]
      exact ⟨fun h => absurd hvalid (h request rfl), fun h => nomatch h⟩
    · refine ⟨fun _ => answersOf_of_refused hvalid, fun _ other h => ?_⟩
      cases h
      exact hvalid

theorem performedFor_of_turned {read : Option Jmap.Request} (hread : requested out = read)
    (h : Turned V read) : performedFor V w client out = [] := by
  rw [performedFor, hread]
  cases read with
  | none => rfl
  | some request => exact performed_of_refused (h request rfl)

/-- Where nothing is performed the limits are kept. -/
theorem enforces_of_nil (h : performedFor V w client out = []) :
    Enforces V w client text out where
  size _ := h
  calls _ _ _ := h
  objects p hp := by
    rw [h] at hp
    cases hp

/-- The limits are kept on a valid request if it is not too large, or reaches no handler, and the
handlers refuse what is too much for a call. -/
theorem enforces_iff (hout : requested out = some request)
    (hvalid : V.dispatcher.validate request = .ok ()) :
    Enforces V w client text out ↔
      (V.maxSizeRequest < text.utf8ByteSize → ∀ inv handler arguments s,
        ¬V.dispatcher.Reaches V.referenceError client.account request w.mail inv handler
          arguments s) ∧
      ∀ inv handler arguments s,
        V.dispatcher.Reaches V.referenceError client.account request w.mail inv handler
          arguments s →
        Oversize V.objectLimits inv.name arguments →
        V.dispatcher.Refuses (handler arguments client.account s) s := by
  have hperformed : performedFor V w client out =
      V.dispatcher.performed V.referenceError client.account request w.mail := by
    rw [performedFor, hout]
  constructor
  · intro h
    constructor
    · intro hsize inv handler arguments s hreach
      have hmem := (Dispatcher.mem_performed_iff hvalid).mpr
        ⟨inv, handler, arguments, s, hreach, rfl⟩
      rw [← hperformed, h.size hsize] at hmem
      cases hmem
    · intro inv handler arguments s hreach hover
      have hmem := (Dispatcher.mem_performed_iff hvalid).mpr
        ⟨inv, handler, arguments, s, hreach, rfl⟩
      rw [← hperformed] at hmem
      exact Dispatcher.refuses_iff.mpr (h.objects _ hmem hover)
  · rintro ⟨hsize, hobjects⟩
    refine ⟨fun hlarge => ?_, fun other hother hmany => ?_, fun p hp hover => ?_⟩
    · rw [hperformed, List.eq_nil_iff_forall_not_mem]
      intro p hp
      obtain ⟨inv, handler, arguments, s, hreach, -⟩ :=
        (Dispatcher.mem_performed_iff hvalid).mp hp
      exact hsize hlarge inv handler arguments s hreach
    · cases hout.symm.trans hother
      exact absurd (Dispatcher.calls_of_valid hvalid) (not_le.mpr hmany)
    · rw [hperformed] at hp
      obtain ⟨inv, handler, arguments, s, hreach, rfl⟩ :=
        (Dispatcher.mem_performed_iff hvalid).mp hp
      exact Dispatcher.refuses_iff.mp (hobjects inv handler arguments s hreach hover)

/-- A body that is read is not too large. -/
theorem size_of_bodyRequest (h : bodyRequest V body = some request) :
    ¬V.maxSizeRequest < body.utf8ByteSize := by
  unfold bodyRequest at h
  split_ifs at h with hsize
  exact not_lt.mpr hsize.2

/-- **The two bindings.** For a body and a frame that carry the same object the law holds exactly
if both are refused, or both are read as one valid request and nothing that runs is too large. -/
theorem bindingsLaw_iff : ∀ {σ : Type} (V : Server σ) (w : World σ) (client : Client)
    (body frame : String), Carries V body frame →
    (BindingsLaw V w client body frame ↔ BindingsAgree V w client body frame) := by
  intro σ V w client body frame h
  obtain ⟨hhttp, hhttpAnswers, -⟩ := overHttp_handled V w client body
  obtain ⟨hsocket, hsocketAnswers, -⟩ := overWebSocket_handled w client h
  constructor
  · intro law
    have hagree := law.agree
    rw [hhttpAnswers, hsocketAnswers] at hagree
    by_cases hturned : Turned V (bodyRequest V body)
    · refine .inl ⟨hturned, ?_⟩
      rw [turned_iff w client] at hturned ⊢
      exact hagree.symm.trans hturned
    · simp only [Turned, not_forall, not_not] at hturned
      obtain ⟨request, hbody, hvalid⟩ := hturned
      obtain ⟨answers, hanswers⟩ := answersOf_of_valid w client hvalid
      rw [hbody, Option.bind_some, hanswers] at hagree
      obtain ⟨request', hframe, -⟩ := Option.bind_eq_some_iff.mp hagree.symm
      unfold frameRequest at hframe
      split_ifs at hframe with hreceives
      have hvalue : ((V.grammar frame).bind JsonText.toValue).isSome := by
        obtain ⟨t, ht, hread⟩ := Option.bind_eq_some_iff.mp hframe
        obtain ⟨value, hvalue, -⟩ := Option.bind_eq_some_iff.mp hread
        rw [ht, Option.bind_some, hvalue]
        rfl
      have hsame := frameRequest_of_body h hbody hreceives hvalue
      exact .inr ⟨request, hbody, hvalid, hreceives, hvalue,
        (enforces_iff (hsocket.trans hsame) hvalid).mp law.webSocket⟩
  · rintro (⟨hbody, hframe⟩ | ⟨request, hbody, hvalid, hreceives, hvalue, hsize, hobjects⟩)
    · refine ⟨?_, enforces_of_nil (performedFor_of_turned hhttp hbody),
        enforces_of_nil (performedFor_of_turned hsocket hframe)⟩
      rw [hhttpAnswers, hsocketAnswers, (turned_iff w client).mp hbody,
        (turned_iff w client).mp hframe]
    · have hsame := frameRequest_of_body h hbody hreceives hvalue
      refine ⟨by rw [hhttpAnswers, hsocketAnswers, hbody, hsame],
        (enforces_iff (hhttp.trans hbody) hvalid).mpr ⟨fun hlarge => ?_, hobjects⟩,
        (enforces_iff (hsocket.trans hsame) hvalid).mpr ⟨hsize, hobjects⟩⟩
      exact absurd hlarge (size_of_bodyRequest hbody)

end Law

/-! ## A handler that looks at no ids -/

/-- `SUBMISSION_CAPABILITY`. -/
def submissionCapability : String := "urn:ietf:params:jmap:submission"

/-- An `Option` with a default. -/
def optionalArgument {α : Type} (read : JsonText → Option α) (arguments : Json) (key : String) :
    Option (Option α) :=
  match member arguments key with
  | none | some .null => some none
  | some value => (read value.text).map some

/-- The derived deserializer of `GetArgs`, from an object. -/
def readGetArgs (arguments : Json) : Option GetArgs := do
  let accountId ← (member arguments "accountId").bind fun value => readString value.text
  let ids ← optionalArgument (readVec readString) arguments "ids"
  let properties ← optionalArgument (readVec readString) arguments "properties"
  let fetchTextBodyValues ← match member arguments "fetchTextBodyValues" with
    | none => some false
    | some (.bool b) => some b
    | some _ => none
  return { accountId, ids, properties, fetchTextBodyValues }

/-- The identity of an account. -/
def identityMembers (account : AccountsRow) : Members :=
  mapOf [("id", .string "default"),
    ("name", match account.displayName with
      | some name => .string name
      | none => .null),
    ("email", .string account.email), ("replyTo", .null), ("bcc", .null),
    ("textSignature", .string ""), ("htmlSignature", .string ""), ("mayDelete", .bool false)]

/-- The answer of `identity_get`. -/
def identityAnswer (account : AccountsRow) (accountId : String) : Members :=
  mapOf [("accountId", .string accountId), ("state", .string "0"),
    ("list", .array [.object (identityMembers account)]), ("notFound", .array [])]

theorem identityMembers_valid (account : AccountsRow) : (identityMembers account).Valid := by
  refine mapOf_valid fun p hp => ?_
  simp only [List.mem_cons, List.not_mem_nil, or_false] at hp
  rcases hp with rfl | rfl | rfl | rfl | rfl | rfl | rfl | rfl
  · exact .string _
  · cases account.displayName with
    | none => exact .null
    | some name => exact .string name
  · exact .string _
  · exact .null
  · exact .null
  · exact .string _
  · exact .string _
  · exact .bool _

theorem identityAnswer_valid (account : AccountsRow) (accountId : String) :
    (identityAnswer account accountId).Valid := by
  have hidentity := identityMembers_valid account
  refine mapOf_valid fun p hp => ?_
  simp only [List.mem_cons, List.not_mem_nil, or_false] at hp
  rcases hp with rfl | rfl | rfl | rfl
  · exact .string _
  · exact .string _
  · refine .array fun v hv => ?_
    rw [List.mem_singleton.mp hv]
    exact .object hidentity.sorted hidentity.each
  · exact .array (List.forall_mem_nil _)

/-- `identity_get`; `E` gives the text of the deserializer's error. -/
def identityGetMethod (E : Value → String) (account : AccountsRow) (arguments : Json) :
    Except MethodError Json := do
  let some args := readGetArgs arguments
    | .error (.invalidArguments (E arguments.value))
  checkSession account.id args.accountId
  return .object (identityAnswer account args.accountId) (identityAnswer_valid _ _)

/-- `Identity/get`. -/
def identityGet {σ : Type} (E : Value → String) : Jmap.Handler AccountsRow σ :=
  fun arguments account s =>
    { ending := .returned (identityGetMethod E account arguments), after := s,
      cut := fun _ => none }

/-- The arguments of a `Foo/get` call with so many ids. -/
def manyIds (n : ℕ) : Members :=
  [("accountId", .string "00000000-0000-0000-0000-000000000001"),
    ("ids", .array (List.replicate n (.string "x")))]

theorem manyIds_valid (n : ℕ) : (manyIds n).Valid := by
  have hlt : "accountId" < "ids" := by decide
  refine ⟨List.pairwise_pair.mpr hlt, fun m hm => ?_⟩
  simp only [manyIds, List.mem_cons, List.not_mem_nil, or_false] at hm
  rcases hm with rfl | rfl
  · exact .string _
  · refine .array fun v hv => ?_
    rw [List.eq_of_mem_replicate hv]
    exact .string _

/-- `["Identity/get", {"accountId": …, "ids": […]}, "c"]`. -/
def getIdentities (n : ℕ) : Invocation :=
  ⟨"Identity/get", .object (manyIds n) (manyIds_valid n), "c"⟩

/-- A request with this one call. -/
def identitiesRequest (n : ℕ) : Jmap.Request :=
  ⟨[coreCapability, submissionCapability], [getIdentities n], none⟩

/-- The request as it is written, in a frame. -/
def identitiesText (n : ℕ) : String :=
  "\x7b\"@type\":\"Request\",\"using\":[\"" ++ coreCapability ++ "\",\"" ++ submissionCapability ++
    "\"],\"methodCalls\":[[\"Identity/get\",\x7b\"accountId\":" ++
    "\"00000000-0000-0000-0000-000000000001\",\"ids\":[" ++
    ",".intercalate (List.replicate n "\"x\"") ++ "]\x7d,\"c\"]]\x7d"

/-- The tree of the text. -/
def identitiesTree (n : ℕ) : JsonText :=
  .object [("@type", .string "Request"),
    ("using", .array [.string coreCapability, .string submissionCapability]),
    ("methodCalls", .array [.array [.string "Identity/get", (Value.object (manyIds n)).text,
      .string "c"]])]

/-- A server with `Identity/get`, and the text for so many ids in its grammar. -/
def identityServer (n : ℕ) : Server Unit where
  oidc := sampleOidc
  extracts text := text.utf8ByteSize ≤ 2097152
  receives text := text.utf8ByteSize ≤ 16777216
  grammar text := if text = identitiesText n then some (identitiesTree n) else none
  maxSizeRequest := 10000000
  objectLimits := {}
  dispatcher := (Dispatcher.new "0").register "Identity/get" submissionCapability
    (identityGet fun _ => "")
  referenceError _ := ""

/-- Alice on a WebSocket. -/
def alice : Client := ⟨0, none, ⟨⟨1⟩, "alice@example.com", none, 0⟩, [], false⟩

theorem identities_grammar (n : ℕ) :
    (identityServer n).grammar (identitiesText n) = some (identitiesTree n) := by
  simp only [identityServer, if_true]

theorem identities_carries (n : ℕ) :
    Carries (identityServer n) (identitiesText n) (identitiesText n) :=
  ⟨_, _, identities_grammar n, identities_grammar n, rfl, by simp [valuesOf]⟩

theorem identities_read (n : ℕ) : (identitiesTree n).readRequest = some (identitiesRequest n) := by
  have harguments : ((Value.object (manyIds n)).text).toJson =
      some (Json.object (manyIds n) (manyIds_valid n)) :=
    toJson_eq_some_iff.mpr (toValue_text (Json.object _ (manyIds_valid n)).valid)
  simp [identitiesTree, JsonText.readRequest, valuesOf, readFields, readVec, readInvocation,
    readString, harguments, identitiesRequest, getIdentities]

theorem identities_value (n : ℕ) : ((identitiesTree n).toValue).isSome := by
  have harguments : ((Value.object (manyIds n)).text).toValue = some (.object (manyIds n)) :=
    toValue_text (Json.object _ (manyIds_valid n)).valid
  simp [identitiesTree, JsonText.toValue, JsonText.toPairs, JsonText.toValues, harguments]

theorem identities_resolve (n : ℕ) (E : Value → String) (prior : List Invocation) :
    resolveReferences E (getIdentities n).arguments prior = .ok (getIdentities n).arguments :=
  resolveReferences_eq_ok_iff.mpr rfl

theorem identities_reach (n : ℕ) : (identityServer n).dispatcher.Reaches
    (identityServer n).referenceError alice.account (identitiesRequest n) () (getIdentities n)
    (identityGet fun _ => "") (getIdentities n).arguments () :=
  ⟨[], [], [], rfl, rfl, rfl, identities_resolve n _ _⟩

theorem identities_oversize (n : ℕ) :
    Oversize {} "Identity/get" (getIdentities n).arguments ↔ 500 < n := by
  have hlisted : listedIn (getIdentities n).arguments "ids" = n :=
    List.length_replicate (a := Value.string "x")
  have hget : "/get".toList <:+ "Identity/get".toList := by decide
  have hset : ¬"/set".toList <:+ "Identity/get".toList := by decide
  rw [Oversize, hlisted]
  exact ⟨fun h => h.elim And.right fun h => absurd h.1 hset, fun h => .inl ⟨hget, h⟩⟩

theorem identities_frame (n : ℕ) (h : (identityServer n).receives (identitiesText n)) :
    frameRequest (identityServer n) (identitiesText n) = some (identitiesRequest n) := by
  obtain ⟨value, hvalue⟩ := Option.isSome_iff_exists.mp (identities_value n)
  rw [frameRequest, if_pos h, identities_grammar, Option.bind_some, hvalue, Option.bind_some]
  exact readRequest_text (identities_read n) hvalue rfl rfl rfl

/-- The ids are read, however many. -/
theorem manyIds_read (n : ℕ) :
    readVec readString (Value.array (List.replicate n (.string "x"))).text =
      some (List.replicate n "x") := by
  rw [Value.text, readVec]
  induction n with
  | zero => rfl
  | succ n ih =>
    rw [List.replicate_succ, Value.texts, List.mapM_cons, ih]
    rfl

/-- `Identity/get` answers, whatever the ids are. -/
theorem identities_answered (n : ℕ) : ∃ result,
    identityGetMethod (fun _ => "") alice.account (getIdentities n).arguments = .ok result := by
  have hids : optionalArgument (readVec readString) (getIdentities n).arguments "ids" =
      some (some (List.replicate n "x")) := congrArg (Option.map some) (manyIds_read n)
  have hargs : readGetArgs (getIdentities n).arguments =
      some ⟨"00000000-0000-0000-0000-000000000001", some (List.replicate n "x"), none, false⟩ := by
    rw [readGetArgs, hids]
    rfl
  have hsession : checkSession alice.account.id "00000000-0000-0000-0000-000000000001" = .ok () :=
    rfl
  rw [identityGetMethod, hargs]
  exact ⟨.object (identityAnswer alice.account "00000000-0000-0000-0000-000000000001")
    (identityAnswer_valid _ _), by simp only [hsession]; rfl⟩

/-- Alice asks for one identity. -/
theorem bindingsLaw_oneId : BindingsLaw (identityServer 1) (.start ()) alice (identitiesText 1)
    (identitiesText 1) := by
  have hsize : (identityServer 1).extracts (identitiesText 1) ∧
      (identitiesText 1).utf8ByteSize ≤ (identityServer 1).maxSizeRequest := by
    decide +kernel
  refine (bindingsLaw_iff (identityServer 1) (.start ()) alice _ _ (identities_carries 1)).mpr
    (.inr ⟨identitiesRequest 1, ?_, rfl, (by decide +kernel), ?_,
      fun hlarge => absurd hlarge (not_lt.mpr hsize.2), ?_⟩)
  · rw [bodyRequest, if_pos hsize, identities_grammar, Option.bind_some]
    exact identities_read 1
  · rw [identities_grammar, Option.bind_some]
    exact identities_value 1
  · rintro inv handler arguments ⟨⟩ ⟨pre, post, before, hcalls, hrun, -, hresolve⟩ hover
    have hinv : inv = getIdentities 1 := by
      have hmem : inv ∈ (identitiesRequest 1).methodCalls := by
        rw [hcalls]
        exact List.mem_append_right _ List.mem_cons_self
      exact List.mem_singleton.mp hmem
    rw [hinv, identities_resolve] at hresolve
    cases hresolve
    rw [hinv] at hover
    exact absurd ((identities_oversize 1).mp hover) (by decide)

/-- The server answers a get of 501 ids. -/
theorem not_bindingsLaw_manyIds : ¬∀ {σ : Type} (V : Server σ) (w : World σ) (client : Client)
    (body frame : String), Carries V body frame → BindingsLaw V w client body frame := by
  intro h
  have law := h (identityServer 501) (.start ()) alice _ _ (identities_carries 501)
  have hreceives : (identityServer 501).receives (identitiesText 501) := by decide +kernel
  obtain ⟨hsocket, -, -⟩ := overWebSocket_handled (.start ()) alice (identities_carries 501)
  have hrefuses := ((enforces_iff (hsocket.trans (identities_frame 501 hreceives)) rfl).mp law.webSocket).2
    _ _ _ _ (identities_reach 501) ((identities_oversize 501).mpr (by decide))
  obtain ⟨result, hresult⟩ := identities_answered 501
  exact hrefuses.1 result (congrArg Ending.returned hresult)

end Owney.Access
