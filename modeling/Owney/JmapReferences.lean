import Mathlib.Data.List.Pairwise
import Mathlib.Data.String.Basic

/-!
# Result references

The JSON values of a request, and the arguments of a call once its `#key` members are
replaced by what an earlier response of the same request holds (`refs.rs`).

A `Json` is a value whose objects have their members in the order of their keys, each
key once: what the server's JSON maps are by construction. Replacing the references keeps
that, and never fails where the source says `expect`.

The texts of the deserializer's errors are the only thing from outside.
-/

namespace Owney.Jmap

/-! ## Values -/

/-- A JSON value. A number is kept as its text. -/
inductive Value where
  | null
  | bool (b : Bool)
  | number (text : String)
  | string (s : String)
  | array (items : List Value)
  | object (members : List (String × Value))

/-- The members of an object. -/
abbrev Members : Type := List (String × Value)

/-- The keys ascend. -/
def Members.Sorted (members : Members) : Prop := members.Pairwise (·.1 < ·.1)

/-- In each object of the value the keys ascend. -/
inductive Value.Valid : Value → Prop where
  | null : Valid .null
  | bool (b : Bool) : Valid (.bool b)
  | number (text : String) : Valid (.number text)
  | string (s : String) : Valid (.string s)
  | array {items : List Value} (each : ∀ v ∈ items, Valid v) : Valid (.array items)
  | object {members : Members} (sorted : members.Sorted) (each : ∀ m ∈ members, Valid m.2) :
      Valid (.object members)

/-- A JSON value with maps for its objects. -/
structure Json where
  value : Value
  valid : value.Valid

namespace Members

/-- The keys, in order. -/
def keys (members : Members) : List String := members.map (·.1)

/-- `Map::get`. -/
def get (members : Members) (key : String) : Option Value :=
  (members.find? (·.1 = key)).map (·.2)

/-- `Map::contains_key`. -/
def containsKey (members : Members) (key : String) : Bool := members.any (·.1 = key)

/-- `Map::insert`: a value already there is replaced. -/
def insert (key : String) (value : Value) : Members → Members
  | [] => [(key, value)]
  | (k, v) :: rest =>
    if key < k then (key, value) :: (k, v) :: rest
    else if key = k then (key, value) :: rest
    else (k, v) :: insert key value rest

/-- `Map::remove`. -/
def remove (members : Members) (key : String) : Option (Value × Members) :=
  (members.get key).map fun value => (value, members.filter (·.1 ≠ key))

/-- Members that may stand in a valid object. -/
structure Valid (members : Members) : Prop where
  sorted : members.Sorted
  each : ∀ m ∈ members, m.2.Valid

theorem mem_insert {key : String} {value : Value} {members : Members} {m : String × Value}
    (h : m ∈ insert key value members) : m = (key, value) ∨ m ∈ members := by
  induction members with
  | nil => exact .inl (List.mem_singleton.mp h)
  | cons head rest ih =>
    obtain ⟨k, v⟩ := head
    rw [insert] at h
    split at h
    · exact List.mem_cons.mp h
    · split at h
      · exact (List.mem_cons.mp h).imp_right (List.mem_cons_of_mem _)
      · rcases List.mem_cons.mp h with rfl | h
        · exact .inr List.mem_cons_self
        · exact (ih h).imp_right (List.mem_cons_of_mem _)

theorem sorted_insert {key : String} {value : Value} {members : Members}
    (h : members.Sorted) : (insert key value members).Sorted := by
  induction members with
  | nil => exact List.pairwise_singleton _ _
  | cons head rest ih =>
    obtain ⟨k, v⟩ := head
    obtain ⟨hhead, hrest⟩ := List.pairwise_cons.mp h
    rw [insert]
    split_ifs with hlt heq
    · refine List.pairwise_cons.mpr ⟨fun m hm => ?_, h⟩
      rcases List.mem_cons.mp hm with rfl | hm
      · exact hlt
      · exact hlt.trans (hhead m hm)
    · subst heq
      exact List.pairwise_cons.mpr ⟨hhead, hrest⟩
    · refine List.pairwise_cons.mpr ⟨fun m hm => ?_, ih hrest⟩
      rcases mem_insert hm with rfl | hm
      · exact lt_of_le_of_ne (not_lt.mp hlt) (Ne.symm heq)
      · exact hhead m hm

theorem Valid.nil : Valid [] := ⟨List.Pairwise.nil, fun _ h => nomatch h⟩

theorem Valid.insert {members : Members} {key : String} {value : Value} (h : members.Valid)
    (hvalue : value.Valid) : (insert key value members).Valid := by
  refine ⟨sorted_insert h.sorted, fun m hm => ?_⟩
  rcases mem_insert hm with rfl | hm
  · exact hvalue
  · exact h.each m hm

theorem mem_keys_insert {members : Members} {key k : String} {value : Value} :
    k ∈ (insert key value members).keys ↔ k = key ∨ k ∈ members.keys := by
  induction members with
  | nil => simp [insert, keys]
  | cons head rest ih =>
    rw [insert]
    split_ifs with hlt heq
    · simp [keys]
    · subst heq
      simp [keys]
    · simp only [keys, List.map_cons, List.mem_cons] at ih ⊢
      rw [ih]
      exact or_left_comm

theorem keys_nodup {members : Members} (h : members.Sorted) : members.keys.Nodup :=
  List.pairwise_map.mpr (h.imp fun hlt => ne_of_lt hlt)

theorem mem_keys_filter {members : Members} {key k : String} (h : k ∈ members.keys)
    (hne : k ≠ key) : k ∈ (keys (members.filter (·.1 ≠ key))) := by
  obtain ⟨m, hm, rfl⟩ := List.mem_map.mp h
  exact List.mem_map.mpr ⟨m, List.mem_filter.mpr ⟨hm, decide_eq_true hne⟩, rfl⟩

theorem mem_of_get {members : Members} {key : String} {value : Value}
    (h : members.get key = some value) : (key, value) ∈ members := by
  obtain ⟨⟨k, v⟩, hfind, rfl⟩ := Option.map_eq_some_iff.mp h
  have hkey : k = key := by simpa using List.find?_some hfind
  exact hkey ▸ List.mem_of_find?_eq_some hfind

theorem get_of_mem_keys {members : Members} {key : String} (h : key ∈ members.keys) :
    ∃ value, members.get key = some value ∧ (key, value) ∈ members := by
  obtain ⟨m, hm, rfl⟩ := List.mem_map.mp h
  have hsome : (members.find? (·.1 = m.1)).isSome :=
    List.find?_isSome.mpr ⟨m, hm, decide_eq_true rfl⟩
  obtain ⟨found, hfind⟩ := Option.isSome_iff_exists.mp hsome
  have hget : members.get m.1 = some found.2 := by rw [get, hfind]; rfl
  exact ⟨found.2, hget, mem_of_get hget⟩

end Members

theorem Value.Valid.members {members : Members} (h : (Value.object members).Valid) :
    members.Valid := by
  cases h with
  | object sorted each => exact ⟨sorted, each⟩

theorem Value.Valid.items {items : List Value} (h : (Value.array items).Valid) :
    ∀ v ∈ items, v.Valid := by
  cases h with
  | array each => exact each

/-- The object with these members. -/
def Json.object (members : Members) (h : members.Valid) : Json :=
  ⟨.object members, .object h.sorted h.each⟩

/-! ## Errors and calls -/

/-- A method-level error. -/
inductive MethodError where
  | unknownMethod
  | invalidArguments (reason : String)
  | invalidResultReference (reason : String)
  | forbidden
  | accountNotFound
  | accountNotSupportedByMethod
  | accountReadOnly
  | cannotCalculateChanges
  | stateMismatch
  | serverFail (reason : String)
  deriving DecidableEq

/-- One method call or response: `[name, arguments, callId]`. -/
structure Invocation where
  name : String
  arguments : Json
  callId : String

namespace MethodError

/-- `type_name`. -/
def typeName : MethodError → String
  | unknownMethod => "unknownMethod"
  | invalidArguments _ => "invalidArguments"
  | invalidResultReference _ => "invalidResultReference"
  | forbidden => "forbidden"
  | accountNotFound => "accountNotFound"
  | accountNotSupportedByMethod => "accountNotSupportedByMethod"
  | accountReadOnly => "accountReadOnly"
  | cannotCalculateChanges => "cannotCalculateChanges"
  | stateMismatch => "stateMismatch"
  | serverFail _ => "serverFail"

/-- The error's text. -/
def text : MethodError → String
  | unknownMethod => "unknown method"
  | invalidArguments reason => "invalid arguments: " ++ reason
  | invalidResultReference reason => "invalid result reference: " ++ reason
  | forbidden => "forbidden"
  | accountNotFound => "account not found"
  | accountNotSupportedByMethod => "account does not support this method"
  | accountReadOnly => "account is read-only"
  | cannotCalculateChanges => "cannot calculate changes from the given state"
  | stateMismatch => "requested state does not match current state"
  | serverFail reason => "server failure: " ++ reason

/-- The members of the error object; only the errors with a reason describe themselves. -/
def members (e : MethodError) : Members :=
  let args := Members.insert "type" (.string e.typeName) []
  match e with
  | invalidArguments _ | invalidResultReference _ | serverFail _ =>
    args.insert "description" (.string e.text)
  | _ => args

theorem members_valid (e : MethodError) : e.members.Valid := by
  have htype : (Members.insert "type" (.string e.typeName) []).Valid :=
    Members.Valid.nil.insert (.string _)
  cases e <;> first | exact htype | exact htype.insert (.string _)

/-- `invocation`: the `["error", …]` response. -/
def invocation (e : MethodError) (callId : String) : Invocation :=
  ⟨"error", .object e.members e.members_valid, callId⟩

end MethodError

/-! ## Paths -/

/-- `str::replace` of `~digit` by a character. -/
def replaceEscape (digit c : Char) : List Char → List Char
  | '~' :: d :: rest =>
    if d = digit then c :: replaceEscape digit c rest else '~' :: replaceEscape digit c (d :: rest)
  | d :: rest => d :: replaceEscape digit c rest
  | [] => []

/-- The JSON pointer escapes of a token. -/
def unescape (token : List Char) : String :=
  String.ofList (replaceEscape '0' '~' (replaceEscape '1' '/' token))

/-- `str::parse::<usize>`. -/
def parseUsize (token : String) : Option ℕ :=
  let digits := match token.toList with
    | '+' :: digits => digits
    | digits => digits
  let n := Nat.ofDigitChars 10 digits 0
  if digits ≠ [] ∧ digits.all Char.isDigit ∧ n < 2 ^ 64 then some n else none

/-- What a value adds to the array that a `*` makes: one level of arrays is flattened. -/
def Value.spread : Value → List Value
  | .array inner => inner
  | other => [other]

/-- `eval_tokens`. -/
def evalTokens : List (List Char) → Value → Option Value
  | [], value => some value
  | token :: rest, value =>
    let token := unescape token
    match value with
    | .array items =>
      if token = "*" then
        (items.mapM (evalTokens rest)).map fun found => .array (found.flatMap Value.spread)
      else do
        let index ← parseUsize token
        evalTokens rest (← items[index]?)
    | .object members =>
      if token = "*" then
        (members.mapM fun m => evalTokens rest m.2).map fun found =>
          .array (found.flatMap Value.spread)
      else do evalTokens rest (← Members.get members token)
    | _ => none

/-- `eval_path`. -/
def evalPath (value : Value) (path : String) : Option Value :=
  let path := match path.toList with
    | '/' :: path => path
    | path => path
  evalTokens (path.splitOn '/') value

theorem Value.Valid.spread {value : Value} (h : value.Valid) : ∀ v ∈ value.spread, v.Valid := by
  cases h with
  | array each => exact each
  | null => simpa [Value.spread] using Valid.null
  | bool b => simpa [Value.spread] using Valid.bool b
  | number text => simpa [Value.spread] using Valid.number text
  | string s => simpa [Value.spread] using Valid.string s
  | object sorted each => simpa [Value.spread] using Valid.object sorted each

/-- What a `*` finds is valid if each of its finds is. -/
theorem valid_of_mapM {α : Type} {f : α → Option Value} {items : List α} {found : List Value}
    (h : items.mapM f = some found) (hvalid : ∀ a ∈ items, ∀ v, f a = some v → v.Valid) :
    ∀ v ∈ found, v.Valid := by
  induction items generalizing found with
  | nil =>
    cases h
    exact fun v hv => nomatch hv
  | cons a items ih =>
    rw [List.mapM_cons] at h
    obtain ⟨b, hb, h⟩ := Option.bind_eq_some_iff.mp h
    obtain ⟨bs, hbs, h⟩ := Option.bind_eq_some_iff.mp h
    cases h
    intro v hv
    rcases List.mem_cons.mp hv with rfl | hv
    · exact hvalid a List.mem_cons_self v hb
    · exact ih hbs (fun a' ha' => hvalid a' (List.mem_cons_of_mem _ ha')) v hv

theorem valid_flatten {found : List Value} (h : ∀ v ∈ found, v.Valid) :
    (Value.array (found.flatMap Value.spread)).Valid := by
  refine .array fun v hv => ?_
  obtain ⟨w, hw, hv⟩ := List.mem_flatMap.mp hv
  exact (h w hw).spread v hv

/-- A path leads from a valid value to a valid one. -/
theorem evalTokens_valid {tokens : List (List Char)} {value found : Value}
    (h : evalTokens tokens value = some found) (hvalue : value.Valid) : found.Valid := by
  induction tokens generalizing value found with
  | nil =>
    cases h
    exact hvalue
  | cons token rest ih =>
    cases hvalue with
    | array each =>
      rw [evalTokens] at h
      split_ifs at h with hstar
      · obtain ⟨vs, hvs, rfl⟩ := Option.map_eq_some_iff.mp h
        exact valid_flatten (valid_of_mapM hvs fun v hv w hw => ih hw (each v hv))
      · obtain ⟨index, -, h⟩ := Option.bind_eq_some_iff.mp h
        obtain ⟨v, hv, h⟩ := Option.bind_eq_some_iff.mp h
        exact ih h (each v (List.mem_of_getElem? hv))
    | object sorted each =>
      rw [evalTokens] at h
      split_ifs at h with hstar
      · obtain ⟨vs, hvs, rfl⟩ := Option.map_eq_some_iff.mp h
        exact valid_flatten (valid_of_mapM hvs fun m hm w hw => ih hw (each m hm))
      · obtain ⟨v, hv, h⟩ := Option.bind_eq_some_iff.mp h
        exact ih h (each _ (Members.mem_of_get hv))
    | null | bool | number | string => exact absurd h (by simp [evalTokens])

theorem evalPath_valid {value found : Value} {path : String} (h : evalPath value path = some found)
    (hvalue : value.Valid) : found.Valid :=
  evalTokens_valid h hvalue

/-! ## References -/

/-- `strip_prefix('#')`. -/
def plainKey (key : String) : Option String :=
  match key.toList with
  | '#' :: rest => some (String.ofList rest)
  | _ => none

theorem plainKey_eq_some {key plain : String} (h : plainKey key = some plain) :
    key = "#" ++ plain := by
  unfold plainKey at h
  split at h
  · cases h
    next rest heq =>
      rw [← String.toList_inj, heq]
      simp
  · cases h

theorem plainKey_inj {key key' plain : String} (h : plainKey key = some plain)
    (h' : plainKey key' = some plain) : key = key' :=
  (plainKey_eq_some h).trans (plainKey_eq_some h').symm

/-- A reference to a part of an earlier response. -/
structure ResultReference where
  resultOf : String
  name : String
  path : String
  deriving DecidableEq

/-- The derived deserializer: the three members and no other, each a string, or an array of
the three. -/
def ResultReference.fromValue : Value → Option ResultReference
  | .object [("name", .string name), ("path", .string path), ("resultOf", .string resultOf)] =>
    some ⟨resultOf, name, path⟩
  | .array [.string resultOf, .string name, .string path] => some ⟨resultOf, name, path⟩
  | _ => none

/-- How resolving references goes wrong: an error for the client, or a failed `expect`. -/
inductive Refused where
  | method (e : MethodError)
  | expect
  deriving DecidableEq

section Resolve

/-! `E` gives the text of the deserializer's error for a value that is no reference. -/

variable (E : Value → String)

/-- The response that a reference is to. -/
def ResultReference.source (reference : ResultReference) (prior : List Invocation) :
    Option Invocation :=
  prior.find? fun inv => inv.callId = reference.resultOf ∧ inv.name = reference.name

/-- What a reference stands for. -/
def extract (prior : List Invocation) (value : Value) : Except MethodError Value := do
  let some reference := ResultReference.fromValue value
    | .error (.invalidResultReference (E value))
  let some source := reference.source prior
    | .error (.invalidResultReference
        s!"no prior response {reference.name} with callId {reference.resultOf}")
  let some extracted := evalPath source.arguments.value reference.path
    | .error (.invalidResultReference s!"path {reference.path} not found")
  .ok extracted

/-- The first loop of `resolve_references`: the value for each `#key`, under its plain key. -/
def resolveKeys (prior : List Invocation) (map : Members) :
    Members → Members → Except MethodError Members
  | [], resolved => .ok resolved
  | (key, value) :: rest, resolved =>
    match plainKey key with
    | none => resolveKeys prior map rest resolved
    | some plain =>
      if map.containsKey plain then
        .error (.invalidArguments s!"both {key} and {plain} present")
      else do
        let extracted ← extract E prior value
        resolveKeys prior map rest (resolved.insert plain extracted)

/-- The second loop of `resolve_references`; `none` is the failed `expect`. -/
def replaceKeys : Members → Members → Members → Option Members
  | [], _, out => some out
  | (key, value) :: rest, resolved, out =>
    match plainKey key with
    | none => replaceKeys rest resolved (out.insert key value)
    | some plain => do
      let (value, resolved) ← resolved.remove plain
      replaceKeys rest resolved (out.insert plain value)

/-- `resolve_references`, on values. -/
def resolveValue (arguments : Value) (prior : List Invocation) : Except Refused Value :=
  match arguments with
  | .object map =>
    match resolveKeys E prior map map [] with
    | .error e => .error (.method e)
    | .ok resolved =>
      match replaceKeys map resolved [] with
      | none => .error .expect
      | some out => .ok (.object out)
  | _ => .error (.method (.invalidArguments "arguments must be an object"))

variable {E} {prior : List Invocation}

theorem extract_valid {value extracted : Value} (h : extract E prior value = .ok extracted) :
    extracted.Valid := by
  unfold extract at h
  split at h
  · split at h
    · split at h
      · cases h
        next source _ _ heval => exact evalPath_valid heval source.arguments.valid
      · cases h
    · cases h
  · cases h

/-- After the first loop every `#key` has its value. -/
theorem resolveKeys_spec {map todo resolved found : Members}
    (h : resolveKeys E prior map todo resolved = .ok found) (hvalid : resolved.Valid) :
    found.Valid ∧ resolved.keys ⊆ found.keys ∧
      ∀ m ∈ todo, ∀ plain, plainKey m.1 = some plain → plain ∈ found.keys := by
  induction todo generalizing resolved with
  | nil =>
    cases h
    exact ⟨hvalid, List.Subset.refl _, fun m hm => nomatch hm⟩
  | cons m rest ih =>
    obtain ⟨key, value⟩ := m
    rw [resolveKeys] at h
    split at h
    · next hkey =>
      obtain ⟨hfound, hsub, hrest⟩ := ih h hvalid
      refine ⟨hfound, hsub, fun m hm plain hplain => ?_⟩
      rcases List.mem_cons.mp hm with rfl | hm
      · cases hkey.symm.trans hplain
      · exact hrest m hm plain hplain
    · next plain hkey =>
      split at h
      · cases h
      · rcases hextract : extract E prior value with e | extracted
        · rw [hextract] at h
          cases h
        · rw [hextract] at h
          obtain ⟨hfound, hsub, hrest⟩ := ih h (hvalid.insert (extract_valid hextract))
          refine ⟨hfound, fun k hk => hsub (Members.mem_keys_insert.mpr (.inr hk)),
            fun m hm plain' hplain => ?_⟩
          rcases List.mem_cons.mp hm with rfl | hm
          · cases hkey.symm.trans hplain
            exact hsub (Members.mem_keys_insert.mpr (.inl rfl))
          · exact hrest m hm plain' hplain

/-- The second loop finds what it looks for. -/
theorem replaceKeys_spec {todo resolved out : Members} (hdistinct : todo.keys.Nodup)
    (htodo : ∀ m ∈ todo, m.2.Valid) (hresolved : ∀ m ∈ resolved, m.2.Valid) (hout : out.Valid)
    (hfound : ∀ m ∈ todo, ∀ plain, plainKey m.1 = some plain → plain ∈ resolved.keys) :
    ∃ made, replaceKeys todo resolved out = some made ∧ made.Valid := by
  induction todo generalizing resolved out with
  | nil => exact ⟨out, rfl, hout⟩
  | cons m rest ih =>
    obtain ⟨key, value⟩ := m
    obtain ⟨hnew, hdistinct⟩ := List.nodup_cons.mp hdistinct
    have hrest : ∀ m ∈ rest, m.2.Valid := fun m hm => htodo m (List.mem_cons_of_mem _ hm)
    rw [replaceKeys]
    split
    · exact ih hdistinct hrest hresolved (hout.insert (htodo _ List.mem_cons_self))
        fun m hm => hfound m (List.mem_cons_of_mem _ hm)
    · next plain hkey =>
      obtain ⟨value', hget, hmem⟩ := Members.get_of_mem_keys
        (hfound _ List.mem_cons_self plain hkey)
      rw [Members.remove, hget]
      refine ih hdistinct hrest (fun m hm => hresolved m (List.mem_of_mem_filter hm))
        (hout.insert (hresolved _ hmem)) fun m hm plain' hplain => ?_
      refine Members.mem_keys_filter (hfound m (List.mem_cons_of_mem _ hm) plain' hplain) ?_
      rintro rfl
      -- Two members with one plain key would be one member.
      exact hnew (List.mem_map.mpr ⟨m, hm, plainKey_inj hplain hkey⟩)

/-- **Resolving never fails an `expect`**, and makes a valid value. -/
theorem resolveValue_spec {arguments : Value} (h : arguments.Valid) :
    (∃ e, resolveValue E arguments prior = .error (.method e)) ∨
      ∃ made, resolveValue E arguments prior = .ok made ∧ made.Valid := by
  cases h with
  | @object map sorted each =>
    rw [resolveValue]
    rcases hkeys : resolveKeys E prior map map [] with e | resolved
    · exact .inl ⟨e, rfl⟩
    · obtain ⟨hvalid, -, hfound⟩ := resolveKeys_spec hkeys .nil
      obtain ⟨made, hmade, hvalid⟩ := replaceKeys_spec (Members.keys_nodup sorted) each hvalid.each
        .nil hfound
      exact .inr ⟨_, by simp only [hmade], .object hvalid.sorted hvalid.each⟩
  | null | bool | number | string | array => exact .inl ⟨_, rfl⟩

variable (E) in
/-- `resolve_references`. -/
def resolveReferences (arguments : Json) (prior : List Invocation) : Except Refused Json :=
  match h : resolveValue E arguments.value prior with
  | .error e => .error e
  | .ok made => .ok ⟨made, (resolveValue_spec arguments.valid).elim
      (fun ⟨_, he⟩ => nomatch h.symm.trans he)
      fun ⟨_, hok, hvalid⟩ => Except.ok.inj (h.symm.trans hok) ▸ hvalid⟩

theorem resolveReferences_ne_expect (arguments : Json) :
    resolveReferences E arguments prior ≠ .error .expect := by
  intro h
  unfold resolveReferences at h
  split at h
  · next hvalue =>
    cases h
    have hspec : _ ∨ ∃ made, resolveValue E arguments.1 prior = .ok made ∧ _ :=
      resolveValue_spec arguments.valid
    rcases hspec with ⟨e, he⟩ | ⟨made, hmade, -⟩
    · cases hvalue.symm.trans he
    · cases hvalue.symm.trans hmade
  · cases h

theorem resolveReferences_of_ne_object {arguments : Json}
    (h : ∀ members, arguments.value ≠ .object members) :
    resolveReferences E arguments prior =
      .error (.method (.invalidArguments "arguments must be an object")) := by
  obtain ⟨value, hvalid⟩ := arguments
  cases value with
  | object members => exact absurd rfl (h members)
  | null | bool | number | string | array => rfl

/-- References with the same sources are resolved in the same way. -/
theorem resolveReferences_congr {prior' : List Invocation} {arguments : Json}
    (h : ∀ map, arguments.value = .object map → ∀ m ∈ map, ∀ plain, plainKey m.1 = some plain →
      ∀ reference, ResultReference.fromValue m.2 = some reference →
        reference.source prior = reference.source prior') :
    resolveReferences E arguments prior = resolveReferences E arguments prior' := by
  have hkeys : ∀ map, arguments.value = .object map → ∀ todo ⊆ map, ∀ resolved,
      resolveKeys E prior map todo resolved = resolveKeys E prior' map todo resolved := by
    intro map hmap todo htodo
    induction todo with
    | nil => exact fun resolved => rfl
    | cons m rest ih =>
      intro resolved
      obtain ⟨hm, hrest⟩ := List.cons_subset.mp htodo
      rw [resolveKeys, resolveKeys]
      split
      · exact ih hrest resolved
      · next plain hplain =>
        have hextract : extract E prior m.2 = extract E prior' m.2 := by
          unfold extract
          split
          · next reference hreference => rw [h map hmap m hm plain hplain reference hreference]
          · rfl
        rw [hextract]
        split
        · rfl
        · rcases extract E prior' m.2 with e | extracted
          · rfl
          · exact ih hrest _
  have hvalue : resolveValue E arguments.value prior = resolveValue E arguments.value prior' := by
    unfold resolveValue
    split
    · next map hmap => rw [hkeys map hmap map (List.Subset.refl _)]
    · rfl
  unfold resolveReferences
  split <;> split <;> next h₁ _ h₂ => cases h₁.symm.trans (hvalue.trans h₂) <;> rfl

end Resolve

end Owney.Jmap
