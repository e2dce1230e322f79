import Mathlib.Data.List.Forall2
import Mathlib.Data.List.Nodup
import Owney.JmapReferences

/-!
# What a result reference stands for

The evaluation of paths stated on its own, as a relation (`Leads`) over decoded tokens, and the
whole of `resolve_references` against it.

* `evalPath_eq_some_iff` — a path leads where `eval_path` goes.
* `leads_stars` — `n` wildcards over nested arrays concatenate `n` times.
* `resolveReferences_ok_iff`, `resolveReferences_binds` — when references are resolved, and what
  the keys are bound to.
* `resolves_iff` — the arguments for which all this holds of references as they are documented:
  the deserializer also takes the array `[resultOf, name, path]` for a reference.
-/

namespace Owney.Jmap

/-! ## Tokens -/

/-- A token as RFC 6901 reads it: `~1` is a slash and `~0` a tilde. -/
def decodeToken : List Char → List Char
  | '~' :: '1' :: rest => '/' :: decodeToken rest
  | '~' :: '0' :: rest => '~' :: decodeToken rest
  | c :: rest => c :: decodeToken rest
  | [] => []

/-- A character that starts no escape is kept. -/
theorem replaceEscape_cons {digit c d : Char} {rest : List Char} (h : d ≠ '~') :
    replaceEscape digit c (d :: rest) = d :: replaceEscape digit c rest := by
  rw [replaceEscape]
  exact fun _ _ hd => absurd hd h

/-- A tilde that starts no escape, too. -/
theorem replaceEscape_tilde {digit c : Char} {rest : List Char} (h : rest.head? ≠ some digit) :
    replaceEscape digit c ('~' :: rest) = '~' :: replaceEscape digit c rest := by
  cases rest with
  | nil => rfl
  | cons d rest => rw [replaceEscape, if_neg fun hd => h (by rw [hd, List.head?_cons])]

/-- Reading the slashes makes no `~0`. -/
theorem head?_replaceEscape {rest : List Char} (h : rest.head? ≠ some '0') :
    (replaceEscape '1' '/' rest).head? ≠ some '0' := by
  fun_cases replaceEscape '1' '/' rest with
  | case1 rest => exact fun h0 => absurd (Option.some.inj h0) (by decide)
  | case2 d rest hd => exact fun h0 => absurd (Option.some.inj h0) (by decide)
  | case3 d rest _ => exact h
  | case4 => exact h

/-- The two replacements, one after the other, read a token as RFC 6901 does. -/
theorem unescape_eq (token : List Char) : unescape token = String.ofList (decodeToken token) := by
  suffices h : replaceEscape '0' '~' (replaceEscape '1' '/' token) = decodeToken token by
    rw [unescape, h]
  fun_induction decodeToken token with
  | case1 rest ih => rw [replaceEscape, if_pos rfl, replaceEscape_cons (by decide), ih]
  | case2 rest ih =>
    have hslash : replaceEscape '1' '/' ('~' :: '0' :: rest) =
        '~' :: '0' :: replaceEscape '1' '/' rest := by
      rw [replaceEscape, if_neg (by decide), replaceEscape_cons (by decide)]
    rw [hslash, replaceEscape, if_pos rfl, ih]
  | case3 c rest hone hzero ih =>
    by_cases hc : c = '~'
    · subst hc
      have h1 : rest.head? ≠ some '1' := fun h =>
        hone _ rfl (List.head?_eq_some_iff.mp h).choose_spec
      have h0 : rest.head? ≠ some '0' := fun h =>
        hzero _ rfl (List.head?_eq_some_iff.mp h).choose_spec
      rw [replaceEscape_tilde h1, replaceEscape_tilde (head?_replaceEscape h0), ih]
    · rw [replaceEscape_cons hc, replaceEscape_cons hc, ih]
  | case4 => rfl

/-! ## Evaluation -/

/-- The decoded tokens of a path, which may start with a slash. -/
def pathTokens (path : String) : List String :=
  let path := match path.toList with
    | '/' :: path => path
    | path => path
  (path.splitOn '/').map fun token => String.ofList (decodeToken token)

/-- The tokens lead from a value to another. A `*` leads on from every element of an array or
value of an object, and collects what it finds; arrays that it finds are flattened, one level. -/
def Leads : List String → Value → Value → Prop
  | [], value, found => found = value
  | token :: rest, .array items, found =>
    if token = "*" then
      ∃ each, List.Forall₂ (Leads rest) items each ∧ found = .array (each.flatMap Value.spread)
    else ∃ index item, parseUsize token = some index ∧ items[index]? = some item ∧
      Leads rest item found
  | token :: rest, .object members, found =>
    if token = "*" then
      ∃ each, List.Forall₂ (Leads rest) (members.map (·.2)) each ∧
        found = .array (each.flatMap Value.spread)
    else ∃ member, Members.get members token = some member ∧ Leads rest member found
  | _ :: _, _, _ => False

/-- A walk over a list succeeds with what each step finds. -/
theorem mapM_eq_some_iff {α β : Type} {f : α → Option β} {as : List α} {bs : List β} :
    as.mapM f = some bs ↔ List.Forall₂ (fun a b => f a = some b) as bs := by
  induction as generalizing bs with
  | nil =>
    rw [List.mapM_nil, List.forall₂_nil_left_iff]
    exact ⟨fun h => (Option.some.inj h).symm, fun h => by rw [h]; rfl⟩
  | cons a as ih =>
    rw [List.mapM_cons, List.forall₂_cons_left_iff]
    constructor
    · intro h
      obtain ⟨b, hb, h⟩ := Option.bind_eq_some_iff.mp h
      obtain ⟨rest, hrest, h⟩ := Option.bind_eq_some_iff.mp h
      exact ⟨b, rest, hb, ih.mp hrest, (Option.some.inj h).symm⟩
    · rintro ⟨b, rest, hb, hrest, rfl⟩
      rw [hb, ih.mpr hrest]
      rfl

/-- `eval_tokens` finds what the decoded tokens lead to. -/
theorem evalTokens_eq_some_iff {tokens : List (List Char)} {value found : Value} :
    evalTokens tokens value = some found ↔
      Leads (tokens.map fun token => String.ofList (decodeToken token)) value found := by
  induction tokens generalizing value found with
  | nil =>
    rw [evalTokens, List.map_nil, Leads]
    exact ⟨fun h => (Option.some.inj h).symm, fun h => by rw [h]⟩
  | cons token rest ih =>
    rw [List.map_cons, ← unescape_eq]
    cases value with
    | array items =>
      rw [evalTokens, Leads]
      split_ifs with hstar
      · simp only [Option.map_eq_some_iff, mapM_eq_some_iff, ih]
        exact exists_congr fun each => and_congr_right' eq_comm
      · simp only [Option.bind_eq_bind, Option.bind_eq_some_iff, ih]
        constructor
        · rintro ⟨index, hindex, item, hitem, hleads⟩
          exact ⟨index, item, hindex, hitem, hleads⟩
        · rintro ⟨index, item, hindex, hitem, hleads⟩
          exact ⟨index, hindex, item, hitem, hleads⟩
    | object members =>
      rw [evalTokens, Leads]
      split_ifs with hstar
      · simp only [Option.map_eq_some_iff, mapM_eq_some_iff, ih, List.forall₂_map_left_iff]
        exact exists_congr fun each => and_congr_right' eq_comm
      · simp only [Option.bind_eq_bind, Option.bind_eq_some_iff, ih]
    | null | bool | number | string => simp [evalTokens, Leads]

theorem evalPath_eq_some_iff {value found : Value} {path : String} :
    evalPath value path = some found ↔ Leads (pathTokens path) value found :=
  evalTokens_eq_some_iff

/-! ### Wildcards -/

/-- Arrays nested to this depth, with values at the bottom that meet `P`. -/
def Nested (P : Value → Prop) : ℕ → Value → Prop
  | 0, value => P value
  | n + 1, value => ∃ items, value = .array items ∧ ∀ item ∈ items, Nested P n item

/-- The `n`-fold concatenation of nested arrays, with `f` at the bottom. -/
def concatenated (f : Value → List Value) : ℕ → Value → List Value
  | n + 1, .array items => items.flatMap (concatenated f n)
  | _, value => f value

/-- **Wildcards concatenate.** -/
theorem leads_stars {rest : List String} {g : Value → Value} {n : ℕ} {value : Value}
    (h : Nested (fun leaf => Leads rest leaf (g leaf)) (n + 1) value) :
    Leads (List.replicate (n + 1) "*" ++ rest) value
      (.array (concatenated (fun leaf => (g leaf).spread) (n + 1) value)) := by
  obtain ⟨items, rfl, hitems⟩ := h
  induction n generalizing items with
  | zero =>
    rw [List.replicate_one, List.singleton_append, Leads, if_pos rfl]
    refine ⟨items.map g, List.forall₂_map_right_iff.mpr (List.forall₂_same.mpr hitems), ?_⟩
    rw [concatenated, List.flatMap_map]
    rfl
  | succ n ih =>
    rw [List.replicate_succ, List.cons_append, Leads, if_pos rfl]
    refine ⟨items.map fun item => .array
      (concatenated (fun leaf => (g leaf).spread) (n + 1) item), ?_, ?_⟩
    · refine List.forall₂_map_right_iff.mpr (List.forall₂_same.mpr fun item hitem => ?_)
      obtain ⟨inner, rfl, hinner⟩ := hitems item hitem
      exact ih inner hinner
    · rw [concatenated, List.flatMap_map]
      rfl

/-! ## Members -/

namespace Members

theorem get_cons (k key : String) (value : Value) (rest : Members) :
    get ((k, value) :: rest) key = if k = key then some value else rest.get key := by
  rw [get, List.find?_cons]
  split_ifs with h
  · rw [decide_eq_true h]
    rfl
  · rw [decide_eq_false h]
    rfl

theorem get_insert (key k : String) (value : Value) (members : Members) :
    (insert key value members).get k = if key = k then some value else members.get k := by
  induction members with
  | nil => exact get_cons key k value []
  | cons head rest ih =>
    obtain ⟨k', v⟩ := head
    rw [insert]
    by_cases hlt : key < k'
    · rw [if_pos hlt, get_cons]
    · rw [if_neg hlt]
      by_cases heq : key = k'
      · subst heq
        rw [if_pos rfl, get_cons, get_cons]
        split_ifs <;> rfl
      · rw [if_neg heq, get_cons, ih, get_cons]
        by_cases hkey : key = k
        · rw [if_pos hkey, if_pos hkey, if_neg fun h => heq (hkey.trans h.symm)]
        · rw [if_neg hkey, if_neg hkey]

theorem get_filter {members : Members} {key k : String} (h : k ≠ key) :
    get (members.filter (·.1 ≠ key)) k = members.get k := by
  induction members with
  | nil => rfl
  | cons head rest ih =>
    obtain ⟨k', v⟩ := head
    by_cases hk : k' = key
    · rw [List.filter_cons_of_neg (by simpa using hk), ih, get_cons, if_neg fun he => h ?_]
      rw [← he, hk]
    · rw [List.filter_cons_of_pos (by simpa using hk), get_cons, ih, get_cons]

theorem get_eq_none {members : Members} {key : String} (h : key ∉ members.keys) :
    members.get key = none := by
  by_contra hne
  obtain ⟨value, hvalue⟩ := Option.ne_none_iff_exists'.mp hne
  exact h (List.mem_map_of_mem (mem_of_get hvalue))

theorem containsKey_iff {members : Members} {key : String} :
    members.containsKey key ↔ key ∈ members.keys := by
  simp [containsKey, keys]

end Members

/-! ## Resolving -/

theorem plainKey_append (key : String) : plainKey ("#" ++ key) = some key := by
  simp [plainKey]

/-- The key of a member in the result. -/
def resolvedKey (key : String) : String := (plainKey key).getD key

section Resolving

variable {E : Value → String} {prior : List Invocation}

/-- The first loop succeeds if it can do each `#key`. -/
theorem resolveKeys_ok_iff {map todo resolved : Members} :
    (∃ found, resolveKeys E prior map todo resolved = .ok found) ↔
      ∀ m ∈ todo, ∀ plain, plainKey m.1 = some plain →
        plain ∉ map.keys ∧ ∃ x, extract E prior m.2 = .ok x := by
  induction todo generalizing resolved with
  | nil => exact ⟨fun _ m hm => (nomatch hm), fun _ => ⟨resolved, rfl⟩⟩
  | cons m rest ih =>
    obtain ⟨key, value⟩ := m
    rw [resolveKeys, List.forall_mem_cons]
    rcases hkey : plainKey key with _ | plain
    · simp only [ih, reduceCtorEq, false_implies, implies_true, true_and]
    · simp only [Option.some.injEq, forall_eq']
      rw [← Members.containsKey_iff]
      by_cases hclash : map.containsKey plain
      · simp [hclash]
      · rcases hextract : extract E prior value with e | x
        · simp [hclash, bind, Except.bind]
        · simp [hclash, bind, Except.bind, ih]

/-- It finds the value of each `#key`, and keeps what it has. -/
theorem resolveKeys_get {map todo resolved found : Members}
    (h : resolveKeys E prior map todo resolved = .ok found) (hdistinct : todo.keys.Nodup) :
    (∀ m ∈ todo, ∀ plain, plainKey m.1 = some plain →
      ∃ x, extract E prior m.2 = .ok x ∧ found.get plain = some x) ∧
    ∀ k, (∀ m ∈ todo, plainKey m.1 ≠ some k) → found.get k = resolved.get k := by
  induction todo generalizing resolved with
  | nil =>
    cases h
    exact ⟨fun m hm => (nomatch hm), fun _ _ => rfl⟩
  | cons m rest ih =>
    obtain ⟨key, value⟩ := m
    obtain ⟨hnew, hdistinct⟩ := List.nodup_cons.mp hdistinct
    rw [resolveKeys] at h
    rcases hkey : plainKey key with _ | plain
    · rw [hkey] at h
      obtain ⟨hfound, hkept⟩ := ih h hdistinct
      refine ⟨fun m hm plain hplain => ?_, fun k hk => ?_⟩
      · rcases List.mem_cons.mp hm with rfl | hm
        · cases hkey.symm.trans hplain
        · exact hfound m hm plain hplain
      · exact hkept k fun m hm => hk m (List.mem_cons_of_mem _ hm)
    · rw [hkey] at h
      dsimp only at h
      split at h
      · cases h
      rcases hextract : extract E prior value with e | x
      · rw [hextract] at h
        cases h
      rw [hextract] at h
      obtain ⟨hfound, hkept⟩ := ih h hdistinct
      refine ⟨fun m hm plain' hplain => ?_, fun k hk => ?_⟩
      · rcases List.mem_cons.mp hm with rfl | hm
        · cases hkey.symm.trans hplain
          refine ⟨x, hextract, ?_⟩
          rw [hkept plain, Members.get_insert, if_pos rfl]
          intro m hm hplain'
          exact hnew (List.mem_map.mpr ⟨m, hm, plainKey_inj hplain' hkey⟩)
        · exact hfound m hm plain' hplain
      · rw [hkept k fun m hm => hk m (List.mem_cons_of_mem _ hm), Members.get_insert, if_neg]
        rintro rfl
        exact hk _ List.mem_cons_self hkey

/-- The second loop binds the key of each member, and keeps what it has. -/
theorem replaceKeys_get {todo resolved out made : Members}
    (h : replaceKeys todo resolved out = some made)
    (hdistinct : (todo.keys.map resolvedKey).Nodup) :
    (∀ m ∈ todo, made.get (resolvedKey m.1) = match plainKey m.1 with
      | none => some m.2
      | some plain => resolved.get plain) ∧
    ∀ k, k ∉ todo.keys.map resolvedKey → made.get k = out.get k := by
  induction todo generalizing resolved out with
  | nil =>
    cases h
    exact ⟨fun m hm => (nomatch hm), fun _ _ => rfl⟩
  | cons m rest ih =>
    obtain ⟨key, value⟩ := m
    obtain ⟨hnew, hdistinct⟩ := List.nodup_cons.mp hdistinct
    have hfresh : ∀ m ∈ rest, resolvedKey m.1 ≠ resolvedKey key := fun m hm he =>
      hnew (List.mem_map.mpr ⟨m.1, List.mem_map_of_mem hm, he⟩)
    rw [replaceKeys] at h
    rcases hkey : plainKey key with _ | plain
    · rw [hkey] at h
      have hplain : resolvedKey key = key := by rw [resolvedKey, hkey, Option.getD_none]
      obtain ⟨hbound, hkept⟩ := ih h hdistinct
      refine ⟨fun m hm => ?_, fun k hk => ?_⟩
      · rcases List.mem_cons.mp hm with rfl | hm
        · rw [hkept _ hnew, hkey, hplain, Members.get_insert, if_pos rfl]
        · exact hbound m hm
      · obtain ⟨hne, hk⟩ := not_or.mp fun h' => hk (List.mem_cons.mpr h')
        rw [hkept k hk, Members.get_insert, if_neg fun he => hne (by rw [hplain, he])]
    · rw [hkey] at h
      have hplain : resolvedKey key = plain := by rw [resolvedKey, hkey, Option.getD_some]
      obtain ⟨⟨v, resolved'⟩, hremove, h⟩ := Option.bind_eq_some_iff.mp h
      obtain ⟨v, hv, he⟩ := Option.map_eq_some_iff.mp hremove
      cases he
      obtain ⟨hbound, hkept⟩ := ih h hdistinct
      refine ⟨fun m hm => ?_, fun k hk => ?_⟩
      · rcases List.mem_cons.mp hm with rfl | hm
        · rw [hkept _ hnew, hkey, hplain, Members.get_insert, if_pos rfl]
          exact hv.symm
        · rw [hbound m hm]
          rcases hm' : plainKey m.1 with _ | plain'
          · rfl
          · refine Members.get_filter fun he => hfresh m hm ?_
            rw [hplain, resolvedKey, hm', Option.getD_some, he]
      · obtain ⟨hne, hk⟩ := not_or.mp fun h' => hk (List.mem_cons.mpr h')
        rw [hkept k hk, Members.get_insert, if_neg fun he => hne (by rw [hplain, he])]

theorem extract_eq_ok_iff {value x : Value} : extract E prior value = .ok x ↔
    ∃ reference, ResultReference.fromValue value = some reference ∧
      ∃ source, reference.source prior = some source ∧
        Leads (pathTokens reference.path) source.arguments.value x := by
  simp only [← evalPath_eq_some_iff]
  unfold extract
  rcases hreference : ResultReference.fromValue value with _ | reference
  · simp
  rcases hsource : reference.source prior with _ | source
  · simp [hsource]
  rcases hfound : evalPath source.arguments.value reference.path with _ | found
  · simp [hsource, hfound]
  · simp [hsource, hfound, eq_comm]

theorem resolveReferences_eq_ok_iff {arguments made : Json} :
    resolveReferences E arguments prior = .ok made ↔
      resolveValue E arguments.value prior = .ok made.value := by
  unfold resolveReferences
  split
  · next e he => simp [he]
  · next value hvalue =>
    constructor
    · intro h
      cases h
      exact hvalue
    · intro h
      obtain ⟨value', hvalid⟩ := made
      obtain rfl : value = value' := Except.ok.inj (hvalue.symm.trans h)
      rfl

end Resolving

/-! ## What is promised -/

/-- What a reference is as a value: a way to tell whether a value is it. -/
abbrev Shape : Type := Value → ResultReference → Prop

/-- The object of the three members and no other. -/
def ResultReference.Written : Shape := fun value reference =>
  value = .object [("name", .string reference.name), ("path", .string reference.path),
    ("resultOf", .string reference.resultOf)]

/-- What the deserializer takes. -/
def ResultReference.Taken : Shape := fun value reference =>
  ResultReference.fromValue value = some reference

section Promise

variable (E : Value → String) (shape : Shape) (prior : List Invocation)

/-- A value is a reference to something: the first earlier response with its call id and method
name has it at its path. -/
def Refers (value found : Value) : Prop :=
  ∃ reference, shape value reference ∧ ∃ source, reference.source prior = some source ∧
    Leads (pathTokens reference.path) source.arguments.value found

/-- The references of an object can be resolved. -/
def Resolvable (map : Members) : Prop :=
  ∀ k value, ("#" ++ k, value) ∈ map → k ∉ map.keys ∧ ∃ found, Refers shape prior value found

/-- The members of an object with the references resolved: each plain key with its value, and for
each `#k` the key `k` with what the reference is to. -/
structure Binds (map out : Members) : Prop where
  plain : ∀ key value, (key, value) ∈ map → plainKey key = none → out.get key = some value
  reference : ∀ k value, ("#" ++ k, value) ∈ map →
    ∃ found, Refers shape prior value found ∧ out.get k = some found
  keys : ∀ k ∈ out.keys, k ∈ map.keys ∧ plainKey k = none ∨ "#" ++ k ∈ map.keys

/-- **What `resolve_references` does** with references of a shape. -/
structure Resolves (arguments : Json) : Prop where
  no_panic : resolveReferences E arguments prior ≠ .error .expect
  ok_iff : (∃ made, resolveReferences E arguments prior = .ok made) ↔
    ∃ map, arguments.value = .object map ∧ Resolvable shape prior map
  binds : ∀ made, resolveReferences E arguments prior = .ok made →
    ∃ map out, arguments.value = .object map ∧ made.value = .object out ∧
      Binds shape prior map out

end Promise

section Promised

variable {E : Value → String} {shape : Shape} {prior : List Invocation} {map : Members}

/-- The keys of a result are distinct: those of two members could only be the same if one were
`k` and the other `#k`. -/
theorem resolvedKeys_nodup (hdistinct : map.keys.Nodup) (h : Resolvable shape prior map) :
    (map.keys.map resolvedKey).Nodup := by
  -- `#k` in the map keeps `k` out of it
  have hclash : ∀ key ∈ map.keys, ∀ plain, plainKey key = some plain → plain ∉ map.keys := by
    intro key hkey plain hplain
    obtain ⟨⟨key, value⟩, hmem, rfl⟩ := List.mem_map.mp hkey
    obtain rfl : key = "#" ++ plain := plainKey_eq_some hplain
    exact (h plain value hmem).1
  refine (List.nodup_map_iff_inj_on hdistinct).mpr fun a ha b hb hab => ?_
  rw [resolvedKey, resolvedKey] at hab
  rcases hplain : plainKey a with _ | plain <;> rcases hplain' : plainKey b with _ | plain'
  · rwa [hplain, hplain', Option.getD_none, Option.getD_none] at hab
  · rw [hplain, hplain', Option.getD_none, Option.getD_some] at hab
    exact absurd (hab ▸ ha) (hclash b hb plain' hplain')
  · rw [hplain, hplain', Option.getD_none, Option.getD_some] at hab
    exact absurd (hab.symm ▸ hb) (hclash a ha plain hplain)
  · rw [hplain, hplain', Option.getD_some, Option.getD_some] at hab
    subst hab
    exact plainKey_inj hplain hplain'

/-- The first loop succeeds on what can be resolved. -/
theorem resolveKeys_eq_ok_iff :
    (∃ found, resolveKeys E prior map map [] = .ok found) ↔
      Resolvable ResultReference.Taken prior map := by
  rw [resolveKeys_ok_iff]
  simp only [extract_eq_ok_iff]
  constructor
  · intro h k value hmem
    exact h _ hmem k (plainKey_append k)
  · rintro h ⟨key, value⟩ hmem plain hplain
    obtain rfl : key = "#" ++ plain := plainKey_eq_some hplain
    exact h plain value hmem

theorem resolveValue_eq_ok_iff {arguments value : Value} :
    resolveValue E arguments prior = .ok value ↔
      ∃ map found out : Members, arguments = .object map ∧
      resolveKeys E prior map map [] = .ok found ∧ replaceKeys map found [] = some out ∧
      value = .object out := by
  cases arguments with
  | object map =>
    rw [resolveValue]
    rcases hfound : resolveKeys E prior map map [] with e | found
    · simp [hfound]
    rcases hout : replaceKeys map found [] with _ | out
    · simp [hfound, hout]
    · simp [hfound, hout, eq_comm]
  | null | bool | number | string | array => simp [resolveValue]

/-- So does the whole. -/
theorem resolveReferences_ok_iff {arguments : Json} :
    (∃ made, resolveReferences E arguments prior = .ok made) ↔
      ∃ map, arguments.value = .object map ∧ Resolvable ResultReference.Taken prior map := by
  constructor
  · rintro ⟨made, hmade⟩
    obtain ⟨map, found, out, hmap, hfound, -, -⟩ :=
      resolveValue_eq_ok_iff.mp (resolveReferences_eq_ok_iff.mp hmade)
    exact ⟨map, hmap, resolveKeys_eq_ok_iff.mp ⟨found, hfound⟩⟩
  · rintro ⟨map, hmap, h⟩
    obtain ⟨found, hfound⟩ := (resolveKeys_eq_ok_iff (E := E)).mpr h
    have hspec : (∃ e, resolveValue E arguments.value prior = .error (.method e)) ∨ _ :=
      resolveValue_spec arguments.valid
    rcases hspec with ⟨e, he⟩ | ⟨made, hmade, hok⟩
    · rw [hmap, resolveValue, hfound] at he
      rcases hout : replaceKeys map found [] with _ | out
      · simp [hout] at he
      · simp [hout] at he
    · exact ⟨⟨made, hok⟩, resolveReferences_eq_ok_iff.mpr hmade⟩

/-- What the keys are bound to. -/
theorem resolveReferences_binds {arguments made : Json}
    (h : resolveReferences E arguments prior = .ok made) :
    ∃ map out, arguments.value = .object map ∧ made.value = .object out ∧
      Binds ResultReference.Taken prior map out := by
  obtain ⟨map, found, out, hmap, hfound, hout, hmade⟩ :=
    resolveValue_eq_ok_iff.mp (resolveReferences_eq_ok_iff.mp h)
  have hvalid : (Value.object map).Valid := hmap ▸ arguments.valid
  have hdistinct : map.keys.Nodup := Members.keys_nodup hvalid.members.sorted
  have hresolvable := resolveKeys_eq_ok_iff.mp ⟨found, hfound⟩
  obtain ⟨hvalues, -⟩ := resolveKeys_get hfound hdistinct
  obtain ⟨hbound, hkept⟩ := replaceKeys_get hout (resolvedKeys_nodup hdistinct hresolvable)
  refine ⟨map, out, hmap, hmade, fun key value hmem hplain => ?_, fun k value hmem => ?_,
    fun k hk => ?_⟩
  · have hget := hbound _ hmem
    simp only [resolvedKey, hplain, Option.getD_none] at hget
    exact hget
  · obtain ⟨x, hx, hget⟩ := hvalues _ hmem k (plainKey_append k)
    refine ⟨x, extract_eq_ok_iff.mp hx, ?_⟩
    have hout := hbound _ hmem
    simp only [resolvedKey, plainKey_append, Option.getD_some] at hout
    rw [hout, hget]
  · by_contra hnot
    obtain ⟨hnot, hnot'⟩ := not_or.mp hnot
    obtain ⟨value, hvalue, -⟩ := Members.get_of_mem_keys hk
    rw [hkept k] at hvalue
    · cases hvalue
    · intro hin
      obtain ⟨key, hkey, he⟩ := List.mem_map.mp hin
      rcases hplain : plainKey key with _ | plain
      · rw [resolvedKey, hplain, Option.getD_none] at he
        exact hnot ⟨he ▸ hkey, he ▸ hplain⟩
      · rw [resolvedKey, hplain, Option.getD_some] at he
        exact hnot' (he ▸ plainKey_eq_some hplain ▸ hkey)

/-- With what the deserializer takes, every run is as promised. -/
theorem resolves_taken (arguments : Json) :
    Resolves E ResultReference.Taken prior arguments where
  no_panic := resolveReferences_ne_expect arguments
  ok_iff := resolveReferences_ok_iff
  binds _ h := resolveReferences_binds h

/-! ### References as they are documented -/

theorem ResultReference.Written.taken {value : Value} {reference : ResultReference}
    (h : ResultReference.Written value reference) : ResultReference.Taken value reference := by
  rw [ResultReference.Written] at h
  subst h
  rfl

/-- The deserializer takes the documented object, or an array. -/
theorem ResultReference.Taken.written {value : Value} {reference : ResultReference}
    (h : ResultReference.Taken value reference) (hobject : ∀ items, value ≠ .array items) :
    ResultReference.Written value reference := by
  rw [ResultReference.Taken] at h
  unfold ResultReference.fromValue at h
  split at h
  · cases h
    rfl
  · exact absurd rfl (hobject _)
  · cases h

theorem Refers.imp {shape' : Shape} {value found : Value}
    (himp : ∀ reference, shape value reference → shape' value reference)
    (h : Refers shape prior value found) : Refers shape' prior value found := by
  obtain ⟨reference, hshape, hfound⟩ := h
  exact ⟨reference, himp reference hshape, hfound⟩

end Promised

/-- No `#k` of arguments that can be resolved is an array. -/
def NoSequences (prior : List Invocation) (arguments : Json) : Prop :=
  ∀ map, arguments.value = .object map → Resolvable ResultReference.Taken prior map →
    ∀ k items, ("#" ++ k, Value.array items) ∉ map

/-- Such arguments have only references as they are documented. -/
theorem NoSequences.written {prior : List Invocation} {arguments : Json} {map : Members}
    (h : NoSequences prior arguments) (hmap : arguments.value = .object map)
    (hresolvable : Resolvable ResultReference.Taken prior map) {k : String} {value found : Value}
    (hmem : ("#" ++ k, value) ∈ map) (hrefers : Refers ResultReference.Taken prior value found) :
    Refers ResultReference.Written prior value found :=
  hrefers.imp fun _ htaken =>
    htaken.written fun items he => h map hmap hresolvable k items (he ▸ hmem)

/-- **Result references**, as they are documented, are resolved as promised exactly if the
arguments have no array for a reference; and wildcards concatenate. -/
theorem resolves_iff (E : Value → String) :
    (∀ prior arguments, Resolves E ResultReference.Written prior arguments ↔
      NoSequences prior arguments) ∧
    ∀ (rest : List String) (g : Value → Value) (n : ℕ) (value : Value),
      Nested (fun leaf => Leads rest leaf (g leaf)) (n + 1) value →
      Leads (List.replicate (n + 1) "*" ++ rest) value
        (.array (concatenated (fun leaf => (g leaf).spread) (n + 1) value)) := by
  refine ⟨fun prior arguments => ⟨fun h map hmap hresolvable k items hmem => ?_, fun h => ?_⟩,
    fun rest g n value hnested => leads_stars hnested⟩
  · obtain ⟨map', hmap', hwritten⟩ :=
      h.ok_iff.mp (resolveReferences_ok_iff.mpr ⟨map, hmap, hresolvable⟩)
    obtain rfl : map = map' := Value.object.inj (hmap.symm.trans hmap')
    obtain ⟨-, found, reference, hshape, -⟩ := hwritten k _ hmem
    cases hshape
  · have htaken : Resolves E ResultReference.Taken prior arguments := resolves_taken arguments
    refine ⟨htaken.no_panic, htaken.ok_iff.trans ⟨?_, ?_⟩, fun made hmade => ?_⟩
    · rintro ⟨map, hmap, hresolvable⟩
      refine ⟨map, hmap, fun k value hmem => ?_⟩
      obtain ⟨hclash, found, hrefers⟩ := hresolvable k value hmem
      exact ⟨hclash, found, h.written hmap hresolvable hmem hrefers⟩
    · rintro ⟨map, hmap, hwritten⟩
      refine ⟨map, hmap, fun k value hmem => ?_⟩
      obtain ⟨hclash, found, hrefers⟩ := hwritten k value hmem
      exact ⟨hclash, found, hrefers.imp fun _ hshape => hshape.taken⟩
    · obtain ⟨map, hmap, hresolvable⟩ := htaken.ok_iff.mp ⟨made, hmade⟩
      obtain ⟨map', out, hmap', hout, hbinds⟩ := htaken.binds made hmade
      obtain rfl : map = map' := Value.object.inj (hmap.symm.trans hmap')
      refine ⟨map, out, hmap, hout, hbinds.plain, fun k value hmem => ?_, hbinds.keys⟩
      obtain ⟨found, hrefers, hget⟩ := hbinds.reference k value hmem
      exact ⟨found, h.written hmap hresolvable hmem hrefers, hget⟩

/-- Two wildcards over `[[["a"], ["b"]], [["c"]]]`. -/
theorem leads_twoStars :
    Leads ["*", "*"]
      (.array [.array [.array [.string "a"], .array [.string "b"]], .array [.array [.string "c"]]])
      (.array [.string "a", .string "b", .string "c"]) :=
  (resolves_iff fun _ => "").2 [] id 1 _
    ⟨_, rfl, by
      simp only [List.mem_cons, List.not_mem_nil, or_false, forall_eq_or_imp, forall_eq]
      exact ⟨⟨_, rfl, fun _ _ => rfl⟩, ⟨_, rfl, fun _ _ => rfl⟩⟩⟩

/-- The earlier response `["Foo/query", {"ids": ["id1"]}, "c0"]`. -/
def fooQuery : Invocation where
  name := "Foo/query"
  arguments := .object [("ids", .array [.string "id1"])]
    ⟨List.pairwise_singleton _ _, by simpa using .array (by simpa using .string "id1")⟩
  callId := "c0"

/-- The arguments `{"#ids": ["c0", "Foo/query", "/ids"]}`. -/
def sequenceArguments : Json :=
  .object [("#ids", .array [.string "c0", .string "Foo/query", .string "/ids"])]
    ⟨List.pairwise_singleton _ _, by
      simpa using .array (by simpa using ⟨.string _, .string _, .string _⟩)⟩

/-- The array is taken for a reference. -/
theorem not_resolves_sequence :
    ¬∀ E prior arguments, Resolves E ResultReference.Written prior arguments := by
  intro h
  obtain ⟨map, hmap, hwritten⟩ := (h (fun _ => "") [fooQuery] sequenceArguments).ok_iff.mp ⟨_, rfl⟩
  cases hmap
  obtain ⟨-, found, reference, hshape, -⟩ := hwritten "ids" _ (List.mem_singleton_self _)
  cases hshape

end Owney.Jmap
