import Mathlib.Data.List.Induction
import Owney.JmapDispatch
import Owney.ResultReferences

/-!
# Requests as they are written

A JMAP request is read from a text in two ways: as a `Request` at once (HTTP), or as a `Value`
first and a `Request` from that (WebSocket). A `Value` keeps one member of each name, the last; a
`Request` that is read at once refuses a field that is repeated, and skips whatever it does not
know without looking into it.

* `JsonText` — a text as `serde_json` meets it.
* `JsonText.toValue`, `JsonText.readRequest` — the two readings; `Value.text` is a value as the
  second one meets it.
* `readRequest_text` — what is read at once is read from the value too, where there is one.
-/

namespace Owney.Jmap

/-! ## Texts -/

/-- A JSON text, its members in their order, repeated or not. `skipped` stands for what only a
skipped member may have: a number out of range, half a surrogate pair, too deep a nesting. -/
inductive JsonText where
  | null
  | bool (b : Bool)
  | number (text : String)
  | string (s : String)
  | array (items : List JsonText)
  | object (members : List (String × JsonText))
  | skipped

/-- The map that members make; the last one of each name stays. -/
def mapOf (pairs : List (String × Value)) : Members :=
  pairs.foldl (fun object member => Members.insert member.1 member.2 object) []

mutual

/-- `serde_json::from_str::<Value>`, of a text that is JSON. -/
def JsonText.toValue : JsonText → Option Value
  | .null => some .null
  | .bool b => some (.bool b)
  | .number text => some (.number text)
  | .string s => some (.string s)
  | .array items => (toValues items).map .array
  | .object members => (toPairs members).map fun pairs => .object (mapOf pairs)
  | .skipped => none

/-- The items of an array. -/
def JsonText.toValues : List JsonText → Option (List Value)
  | [] => some []
  | item :: items => do
    let value ← item.toValue
    let values ← toValues items
    return value :: values

/-- The members of an object. -/
def JsonText.toPairs : List (String × JsonText) → Option (List (String × Value))
  | [] => some []
  | (key, item) :: members => do
    let value ← item.toValue
    let pairs ← toPairs members
    return (key, value) :: pairs

end

mutual

/-- A value, as `serde_json::from_value` meets it. -/
def Value.text : Value → JsonText
  | .null => .null
  | .bool b => .bool b
  | .number text => .number text
  | .string s => .string s
  | .array items => .array (Value.texts items)
  | .object members => .object (Value.memberTexts members)

/-- The items of an array. -/
def Value.texts : List Value → List JsonText
  | [] => []
  | value :: values => value.text :: Value.texts values

/-- The members of an object. -/
def Value.memberTexts : Members → List (String × JsonText)
  | [] => []
  | (key, value) :: members => (key, value.text) :: Value.memberTexts members

end

section Values

variable {members : Members} {pairs : List (String × Value)} {value : Value} {key : String}

theorem mapOf_append :
    mapOf (pairs ++ [(key, value)]) = Members.insert key value (mapOf pairs) := by
  rw [mapOf, List.foldl_append]
  rfl

theorem mapOf_valid (h : ∀ p ∈ pairs, p.2.Valid) : (mapOf pairs).Valid := by
  induction pairs using List.reverseRecOn with
  | nil => exact .nil
  | append_singleton pairs p ih =>
    rw [mapOf_append]
    exact (ih fun q hq => h q (List.mem_append_left _ hq)).insert
      (h p (List.mem_append_right _ (List.mem_singleton_self p)))

theorem mem_mapOf {m : String × Value} (h : m ∈ mapOf pairs) : m ∈ pairs := by
  induction pairs using List.reverseRecOn with
  | nil => exact h
  | append_singleton pairs p ih =>
    rw [mapOf_append] at h
    rcases Members.mem_insert h with rfl | h
    · exact List.mem_append_right _ (List.mem_singleton_self _)
    · exact List.mem_append_left _ (ih h)

/-- A key that is behind all others goes to the end. -/
theorem insert_of_lt (h : ∀ m ∈ members, m.1 < key) :
    Members.insert key value members = members ++ [(key, value)] := by
  induction members with
  | nil => rfl
  | cons m members ih =>
    have hlt := h m List.mem_cons_self
    rw [Members.insert, if_neg (not_lt_of_gt hlt), if_neg (ne_of_gt hlt),
      ih fun m hm => h m (List.mem_cons_of_mem _ hm)]
    rfl

/-- Members in order are a map already. -/
theorem mapOf_sorted (h : members.Sorted) : mapOf members = members := by
  induction members using List.reverseRecOn with
  | nil => rfl
  | append_singleton members m ih =>
    obtain ⟨hfirst, -, hlast⟩ := List.pairwise_append.mp h
    rw [mapOf_append, ih hfirst]
    exact insert_of_lt fun m' hm' => hlast m' hm' m (List.mem_singleton_self m)

/-- The last member of a name is the one that stays. -/
theorem get_mapOf : (mapOf pairs).get key = ((pairs.filter (·.1 = key)).getLast?).map (·.2) := by
  induction pairs using List.reverseRecOn with
  | nil => rfl
  | append_singleton pairs p ih =>
    obtain ⟨k, v⟩ := p
    rw [mapOf_append, Members.get_insert, List.filter_append]
    by_cases hk : k = key
    · rw [if_pos hk, List.filter_cons_of_pos (by simpa using hk), List.filter_nil,
        List.getLast?_concat]
      rfl
    · rw [if_neg hk, ih, List.filter_cons_of_neg (by simpa using hk), List.filter_nil,
        List.append_nil]

end Values

mutual

theorem toValue_valid : ∀ {t : JsonText} {v : Value}, t.toValue = some v → v.Valid
  | .null, v, h => by
    cases h
    exact .null
  | .bool b, v, h => by
    cases h
    exact .bool b
  | .number text, v, h => by
    cases h
    exact .number text
  | .string s, v, h => by
    cases h
    exact .string s
  | .array items, v, h => by
    rw [JsonText.toValue] at h
    obtain ⟨vs, hvs, rfl⟩ := Option.map_eq_some_iff.mp h
    exact .array (toValues_valid hvs)
  | .object members, v, h => by
    rw [JsonText.toValue] at h
    obtain ⟨ps, hps, rfl⟩ := Option.map_eq_some_iff.mp h
    have hvalid := mapOf_valid (toPairs_valid hps)
    exact .object hvalid.sorted hvalid.each
  | .skipped, v, h => by
    rw [JsonText.toValue] at h
    cases h

theorem toValues_valid : ∀ {items : List JsonText} {vs : List Value},
    JsonText.toValues items = some vs → ∀ v ∈ vs, v.Valid
  | [], vs, h => by
    cases h
    exact fun _ hv => nomatch hv
  | item :: items, vs, h => by
    rw [JsonText.toValues] at h
    simp only [Option.bind_eq_bind, Option.bind_eq_some_iff, Option.pure_def,
      Option.some.injEq] at h
    obtain ⟨v, hv, vs, hvs, rfl⟩ := h
    exact List.forall_mem_cons.mpr ⟨toValue_valid hv, toValues_valid hvs⟩

theorem toPairs_valid : ∀ {members : List (String × JsonText)} {ps : List (String × Value)},
    JsonText.toPairs members = some ps → ∀ p ∈ ps, p.2.Valid
  | [], ps, h => by
    cases h
    exact fun _ hp => nomatch hp
  | (key, item) :: members, ps, h => by
    rw [JsonText.toPairs] at h
    simp only [Option.bind_eq_bind, Option.bind_eq_some_iff, Option.pure_def,
      Option.some.injEq] at h
    obtain ⟨v, hv, ps, hps, rfl⟩ := h
    exact List.forall_mem_cons.mpr ⟨toValue_valid hv, toPairs_valid hps⟩

end

mutual

/-- A value is read back. -/
theorem toValue_text : ∀ {v : Value}, v.Valid → v.text.toValue = some v
  | .null, _ => rfl
  | .bool _, _ => rfl
  | .number _, _ => rfl
  | .string _, _ => rfl
  | .array items, h => by
    rw [Value.text, JsonText.toValue, toValues_texts h.items]
    rfl
  | .object members, h => by
    rw [Value.text, JsonText.toValue, toPairs_memberTexts h.members.each, Option.map_some,
      mapOf_sorted h.members.sorted]

theorem toValues_texts : ∀ {vs : List Value}, (∀ v ∈ vs, v.Valid) →
    JsonText.toValues (Value.texts vs) = some vs
  | [], _ => rfl
  | v :: vs, h => by
    obtain ⟨hv, hvs⟩ := List.forall_mem_cons.mp h
    rw [Value.texts, JsonText.toValues, toValue_text hv, toValues_texts hvs]
    rfl

theorem toPairs_memberTexts : ∀ {ms : Members}, (∀ m ∈ ms, m.2.Valid) →
    JsonText.toPairs (Value.memberTexts ms) = some ms
  | [], _ => rfl
  | (k, v) :: ms, h => by
    obtain ⟨hv, hms⟩ := List.forall_mem_cons.mp h
    rw [Value.memberTexts, JsonText.toPairs, toValue_text hv, toPairs_memberTexts hms]
    rfl

end

/-! ## Reading a request -/

/-- A `Value`, from its text. -/
def JsonText.toJson (t : JsonText) : Option Json :=
  match h : t.toValue with
  | none => none
  | some value => some ⟨value, toValue_valid h⟩

/-- A `String`. -/
def readString : JsonText → Option String
  | .string s => some s
  | _ => none

/-- A `Vec` of what `read` reads. -/
def readVec {α : Type} (read : JsonText → Option α) : JsonText → Option (List α)
  | .array items => items.mapM read
  | _ => none

/-- An `Invocation`. -/
def readInvocation : JsonText → Option Invocation
  | .array [name, arguments, callId] => do
    return ⟨← readString name, ← arguments.toJson, ← readString callId⟩
  | _ => none

/-- A member of the created ids. -/
def readId (member : String × JsonText) : Option (String × String) :=
  (readString member.2).map (member.1, ·)

/-- Ids as the members of an object. -/
def idMembers (ids : List (String × String)) : Members := ids.map fun id => (id.1, .string id.2)

/-- The `BTreeMap` of the ids. -/
def idMap (ids : List (String × String)) : List (String × String) :=
  (mapOf (idMembers ids)).filterMap fun
    | (key, .string s) => some (key, s)
    | _ => none

/-- An `Option<BTreeMap<String, String>>`. -/
def readCreatedIds : JsonText → Option (Option (List (String × String)))
  | .null => some none
  | .object members => (members.mapM readId).map fun ids => some (idMap ids)
  | _ => none

/-- The values of the members of a name. -/
def valuesOf (members : List (String × JsonText)) (key : String) : List JsonText :=
  (members.filter (·.1 = key)).map (·.2)

/-- The derived deserializer of `Request`, from the values of each field. -/
def readFields : List JsonText → List JsonText → List JsonText → Option Request
  | [using'], [methodCalls], [] => do
    return ⟨← readVec readString using', ← readVec readInvocation methodCalls, none⟩
  | [using'], [methodCalls], [createdIds] => do
    return ⟨← readVec readString using', ← readVec readInvocation methodCalls,
      ← readCreatedIds createdIds⟩
  | _, _, _ => none

/-- `serde_json::from_str::<Request>`, of a text that is JSON: from an object or, field by field,
from an array. -/
def JsonText.readRequest : JsonText → Option Request
  | .object members =>
    readFields (valuesOf members "using") (valuesOf members "methodCalls")
      (valuesOf members "createdIds")
  | .array [using', methodCalls] => readFields [using'] [methodCalls] []
  | .array [using', methodCalls, createdIds] => readFields [using'] [methodCalls] [createdIds]
  | _ => none

/-! ## From the text and from the value -/

/-- What `read` reads in a text it also reads in the value of the text. -/
def Kept {α : Type} (read : JsonText → Option α) : Prop :=
  ∀ {t : JsonText} {a : α} {value : Value}, read t = some a → t.toValue = some value →
    read value.text = some a

section Kept

variable {α : Type} {read : JsonText → Option α}

theorem toJson_eq_some_iff {t : JsonText} {json : Json} :
    t.toJson = some json ↔ t.toValue = some json.value := by
  obtain ⟨value, valid⟩ := json
  rw [JsonText.toJson]
  split
  next h => simp [h]
  next v h => simp [h]

theorem readString_eq_some_iff {t : JsonText} {s : String} :
    readString t = some s ↔ t = .string s := by
  cases t <;> simp [readString]

theorem kept_readString : Kept readString := by
  intro t s value h hvalue
  obtain rfl := readString_eq_some_iff.mp h
  cases hvalue
  rfl

/-- A walk over the items of an array, in the text and in the value. -/
theorem mapM_texts (hread : Kept read) {items : List JsonText} {as : List α} {values : List Value}
    (h : items.mapM read = some as) (hvalues : JsonText.toValues items = some values) :
    (Value.texts values).mapM read = some as := by
  induction items generalizing as values with
  | nil =>
    cases hvalues
    exact h
  | cons item items ih =>
    rw [JsonText.toValues] at hvalues
    obtain ⟨value, hvalue, hvalues⟩ := Option.bind_eq_some_iff.mp hvalues
    obtain ⟨values, hrest, hvalues⟩ := Option.bind_eq_some_iff.mp hvalues
    obtain rfl := Option.some.inj hvalues
    rw [List.mapM_cons] at h
    obtain ⟨a, ha, h⟩ := Option.bind_eq_some_iff.mp h
    obtain ⟨as, has, h⟩ := Option.bind_eq_some_iff.mp h
    rw [Value.texts, List.mapM_cons, hread ha hvalue, ih has hrest]
    exact h

theorem Kept.readVec (hread : Kept read) : Kept (readVec read) := by
  intro t as value h hvalue
  cases t with
  | array items =>
    obtain ⟨values, hvalues, rfl⟩ := Option.map_eq_some_iff.mp hvalue
    exact mapM_texts hread h hvalues
  | null | bool | number | string | object | skipped => cases h

theorem readInvocation_eq_some_iff {t : JsonText} {inv : Invocation} :
    readInvocation t = some inv ↔ ∃ arguments,
      t = .array [.string inv.name, arguments, .string inv.callId] ∧
      arguments.toJson = some inv.arguments := by
  constructor
  · intro h
    unfold readInvocation at h
    split at h
    · next name arguments callId =>
      obtain ⟨n, hn, h⟩ := Option.bind_eq_some_iff.mp h
      obtain ⟨a, ha, h⟩ := Option.bind_eq_some_iff.mp h
      obtain ⟨c, hc, h⟩ := Option.bind_eq_some_iff.mp h
      obtain rfl := Option.some.inj h
      exact ⟨arguments, by rw [readString_eq_some_iff.mp hn, readString_eq_some_iff.mp hc], ha⟩
    · cases h
  · rintro ⟨arguments, rfl, h⟩
    rw [readInvocation, h]
    rfl

theorem kept_readInvocation : Kept readInvocation := by
  intro t inv value h hvalue
  obtain ⟨arguments, rfl, harguments⟩ := readInvocation_eq_some_iff.mp h
  have hjson := toJson_eq_some_iff.mp harguments
  have hvalues : value = .array [.string inv.name, inv.arguments.value, .string inv.callId] := by
    simpa [JsonText.toValue, JsonText.toValues, hjson] using hvalue.symm
  rw [hvalues]
  exact readInvocation_eq_some_iff.mpr
    ⟨inv.arguments.value.text, rfl, toJson_eq_some_iff.mpr (toValue_text inv.arguments.valid)⟩

/-! The created ids are read into a map, and from the map they are read as they are. -/

theorem toPairs_of_ids {members : List (String × JsonText)} {ids : List (String × String)}
    (h : members.mapM readId = some ids) : JsonText.toPairs members = some (idMembers ids) := by
  induction members generalizing ids with
  | nil =>
    cases h
    rfl
  | cons m members ih =>
    obtain ⟨key, item⟩ := m
    rw [List.mapM_cons] at h
    obtain ⟨id, hid, h⟩ := Option.bind_eq_some_iff.mp h
    obtain ⟨ids, hids, h⟩ := Option.bind_eq_some_iff.mp h
    obtain rfl := Option.some.inj h
    obtain ⟨s, hs, rfl⟩ := Option.map_eq_some_iff.mp hid
    obtain rfl := readString_eq_some_iff.mp hs
    rw [JsonText.toPairs, ih hids]
    rfl

theorem ids_memberTexts (ids : List (String × String)) :
    (Value.memberTexts (idMembers ids)).mapM readId = some ids := by
  induction ids with
  | nil => rfl
  | cons id ids ih =>
    rw [idMembers, List.map_cons, Value.memberTexts, List.mapM_cons]
    exact congrArg (fun r => r.bind fun rest => some (id :: rest)) ih

theorem idMembers_idMap (ids : List (String × String)) :
    idMembers (idMap ids) = mapOf (idMembers ids) := by
  have hstring : ∀ m ∈ mapOf (idMembers ids), ∃ id : String × String,
      m = (id.1, Value.string id.2) := fun m hm => by
    obtain ⟨id, -, rfl⟩ := List.mem_map.mp (mem_mapOf hm)
    exact ⟨id, rfl⟩
  rw [idMap]
  generalize mapOf (idMembers ids) = members at hstring
  induction members with
  | nil => rfl
  | cons m members ih =>
    obtain ⟨⟨id, rfl⟩, hrest⟩ := List.forall_mem_cons.mp hstring
    rw [List.filterMap_cons]
    exact congrArg ((id.1, Value.string id.2) :: ·) (ih hrest)

theorem idMembers_valid (ids : List (String × String)) : ∀ m ∈ idMembers ids, m.2.Valid := by
  intro m hm
  obtain ⟨id, -, rfl⟩ := List.mem_map.mp hm
  exact .string _

theorem idMap_idMap (ids : List (String × String)) : idMap (idMap ids) = idMap ids := by
  have hsorted := (mapOf_valid (idMembers_valid ids)).sorted
  rw [idMap, idMembers_idMap, mapOf_sorted hsorted, idMap]

theorem kept_readCreatedIds : Kept readCreatedIds := by
  intro t ids value h hvalue
  cases t with
  | null =>
    cases hvalue
    exact h
  | object members =>
    obtain ⟨ids, hids, rfl⟩ := Option.map_eq_some_iff.mp h
    rw [JsonText.toValue, toPairs_of_ids hids, Option.map_some, Option.some.injEq] at hvalue
    subst hvalue
    rw [← idMembers_idMap, Value.text, readCreatedIds, ids_memberTexts, Option.map_some,
      idMap_idMap]
  | bool | number | string | array | skipped => cases h

end Kept

section Fields

variable {members : List (String × JsonText)} {pairs : List (String × Value)}
  {key : String}

theorem valuesOf_toPairs (h : JsonText.toPairs members = some pairs) :
    JsonText.toValues (valuesOf members key) =
      some ((pairs.filter (·.1 = key)).map (·.2)) := by
  induction members generalizing pairs with
  | nil =>
    cases h
    rfl
  | cons m members ih =>
    obtain ⟨k, item⟩ := m
    rw [JsonText.toPairs] at h
    obtain ⟨value, hvalue, h⟩ := Option.bind_eq_some_iff.mp h
    obtain ⟨rest, hrest, h⟩ := Option.bind_eq_some_iff.mp h
    obtain rfl := Option.some.inj h
    have hvalues := ih hrest
    rw [valuesOf] at hvalues ⊢
    by_cases hk : k = key
    · rw [List.filter_cons_of_pos (by simpa using hk), List.filter_cons_of_pos (by simpa using hk),
        List.map_cons, JsonText.toValues, hvalue, hvalues]
      rfl
    · rw [List.filter_cons_of_neg (by simpa using hk), List.filter_cons_of_neg (by simpa using hk)]
      exact hvalues

/-- The member of a name in a map, as a text. -/
theorem valuesOf_memberTexts {ms : Members} (h : ms.Sorted) :
    valuesOf (Value.memberTexts ms) key = ((ms.get key).map Value.text).toList := by
  induction ms with
  | nil => rfl
  | cons m ms ih =>
    obtain ⟨k, value⟩ := m
    obtain ⟨hfirst, hrest⟩ := List.pairwise_cons.mp h
    have hvalues := ih hrest
    rw [Value.memberTexts, Members.get_cons]
    rw [valuesOf] at hvalues ⊢
    split_ifs with hk
    · have hnone : Members.get ms key = none :=
        Members.get_eq_none fun hkey => by
          obtain ⟨m, hm, rfl⟩ := List.mem_map.mp hkey
          exact absurd hk (ne_of_lt (hfirst m hm))
      rw [List.filter_cons_of_pos (by simpa using hk), List.map_cons, hvalues, hnone]
      rfl
    · rw [List.filter_cons_of_neg (by simpa using hk), hvalues]

/-- Where a name is not repeated, its member in the map is the one of the text. -/
theorem get_mapOf_single (h : JsonText.toPairs members = some pairs) {t : JsonText}
    (ht : valuesOf members key = [t]) :
    ∃ value, t.toValue = some value ∧ (mapOf pairs).get key = some value := by
  have hvalues : JsonText.toValues (valuesOf members key) = _ := valuesOf_toPairs h
  rw [ht, JsonText.toValues] at hvalues
  obtain ⟨value, hvalue, hvalues⟩ := Option.bind_eq_some_iff.mp hvalues
  have hpairs : (pairs.filter (·.1 = key)).map (·.2) = [value] := (Option.some.inj hvalues).symm
  refine ⟨value, hvalue, ?_⟩
  rw [get_mapOf, ← List.getLast?_map, hpairs]
  rfl

theorem valuesOf_mapOf (h : JsonText.toPairs members = some pairs) {t : JsonText}
    (ht : valuesOf members key = [t]) :
    ∃ value, t.toValue = some value ∧
      valuesOf (Value.memberTexts (mapOf pairs)) key = [value.text] := by
  obtain ⟨value, hvalue, hget⟩ := get_mapOf_single h ht
  refine ⟨value, hvalue, ?_⟩
  rw [valuesOf_memberTexts (mapOf_valid (toPairs_valid h)).sorted, hget]
  rfl

theorem valuesOf_mapOf_nil (h : JsonText.toPairs members = some pairs)
    (hnil : valuesOf members key = []) :
    valuesOf (Value.memberTexts (mapOf pairs)) key = [] := by
  have hvalues : JsonText.toValues (valuesOf members key) = _ := valuesOf_toPairs h
  rw [hnil] at hvalues
  have hpairs : (pairs.filter (·.1 = key)).map (·.2) = [] := (Option.some.inj hvalues).symm
  have hsorted := (mapOf_valid (toPairs_valid h)).sorted
  rw [valuesOf_memberTexts hsorted, get_mapOf, ← List.getLast?_map, hpairs]
  rfl

end Fields

/-- **Read at once, and from the value.** What is read in a text that has a value is read in the
value of any text with the same fields. -/
theorem readRequest_text {members others : List (String × JsonText)} {request : Request}
    {value : Value} (hrequest : (JsonText.object members).readRequest = some request)
    (hvalue : (JsonText.object others).toValue = some value)
    (husing : valuesOf others "using" = valuesOf members "using")
    (hcalls : valuesOf others "methodCalls" = valuesOf members "methodCalls")
    (hids : valuesOf others "createdIds" = valuesOf members "createdIds") :
    value.text.readRequest = some request := by
  obtain ⟨pairs, hpairs, rfl⟩ := Option.map_eq_some_iff.mp hvalue
  rw [JsonText.readRequest, ← husing, ← hcalls, ← hids] at hrequest
  rw [Value.text, JsonText.readRequest]
  unfold readFields at hrequest
  split at hrequest
  · next u c hu hc hi =>
    obtain ⟨us, hus, hrequest⟩ := Option.bind_eq_some_iff.mp hrequest
    obtain ⟨cs, hcs, hrequest⟩ := Option.bind_eq_some_iff.mp hrequest
    obtain ⟨uv, huv, hutext⟩ := valuesOf_mapOf hpairs hu
    obtain ⟨cv, hcv, hctext⟩ := valuesOf_mapOf hpairs hc
    rw [hutext, hctext, valuesOf_mapOf_nil hpairs hi, readFields, kept_readString.readVec hus huv,
      kept_readInvocation.readVec hcs hcv]
    exact hrequest
  · next u c i hu hc hi =>
    obtain ⟨us, hus, hrequest⟩ := Option.bind_eq_some_iff.mp hrequest
    obtain ⟨cs, hcs, hrequest⟩ := Option.bind_eq_some_iff.mp hrequest
    obtain ⟨is, his, hrequest⟩ := Option.bind_eq_some_iff.mp hrequest
    obtain ⟨uv, huv, hutext⟩ := valuesOf_mapOf hpairs hu
    obtain ⟨cv, hcv, hctext⟩ := valuesOf_mapOf hpairs hc
    obtain ⟨iv, hiv, hitext⟩ := valuesOf_mapOf hpairs hi
    rw [hutext, hctext, hitext, readFields, kept_readString.readVec hus huv,
      kept_readInvocation.readVec hcs hcv, kept_readCreatedIds his hiv]
    exact hrequest
  · cases hrequest

end Owney.Jmap
