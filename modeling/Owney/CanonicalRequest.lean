import Owney.FedRequest
import Owney.Lib.Fields

/-!
# The canonical request

Client and server come to the same text, unless a transport override moves the path. But
decoded pairs are joined with bare `=` and `&`: `?a=b%26c%3Dd` and `?a=b&c=d` are signed
alike. The text stands for one request only if its query has at most one `=`.
-/

namespace Owney

open Tables

/-! ## The query -/

section Query

variable {pairs pairs' : List (String × String)}

theorem toList_joinWith (sep : String) (ss : List String) :
    (joinWith sep ss).toList = sep.toList.intercalate (ss.map String.toList) := by
  induction ss with
  | nil => rfl
  | cons s ss ih =>
    cases ss with
    | nil => simp [joinWith]
    | cons s' ss => simp [joinWith, ih, List.intercalate]

theorem sortedPairs_perm (pairs : List (String × String)) : (sortedPairs pairs).Perm pairs :=
  orderBy_perm _ pairs

@[simp] theorem sortedPairs_eq_nil : sortedPairs pairs = [] ↔ pairs = [] := by
  rw [← List.length_eq_zero_iff, (sortedPairs_perm pairs).length_eq, List.length_eq_zero_iff]

@[simp] theorem sortedPairs_singleton (p : String × String) : sortedPairs [p] = [p] := rfl

theorem queryText_singleton (k v : String) : queryText [(k, v)] = k ++ "=" ++ v := rfl

theorem queryText_cons_cons (p q : String × String) (pairs : List (String × String)) :
    queryText (p :: q :: pairs) = p.1 ++ "=" ++ p.2 ++ "&" ++ queryText (q :: pairs) := by
  simp [queryText, joinWith, String.append_assoc]

/-- A query that is not empty has a `=`. -/
theorem equals_mem_queryText (hne : pairs ≠ []) : '=' ∈ (queryText pairs).toList := by
  rcases pairs with _ | ⟨p, _ | ⟨q, pairs⟩⟩
  · exact absurd rfl hne
  · simp [queryText, joinWith]
  · simp [queryText_cons_cons]

/-- A query of which one can tell that it has one pair at most. -/
theorem queryText_eq_singleton {k v : String} (hk : '=' ∉ k.toList) (hv : '=' ∉ v.toList)
    (hne : pairs ≠ []) (h : queryText [(k, v)] = queryText pairs) : pairs = [(k, v)] := by
  have hlist := congrArg String.toList h
  rcases pairs with _ | ⟨p, _ | ⟨q, pairs⟩⟩
  · exact absurd rfl hne
  · rw [queryText_singleton, queryText_singleton] at hlist
    simp only [String.toList_append, List.append_assoc] at hlist
    -- The separator is the only `=` of the text.
    have hcount := congrArg (List.count '=') hlist
    have hp : '=' ∉ p.1.toList ∧ '=' ∉ p.2.toList := by
      simp only [List.count_append, List.count_eq_zero.mpr hk, List.count_eq_zero.mpr hv] at hcount
      constructor <;> rw [← List.count_eq_zero] <;> omega
    obtain ⟨hfst, hsnd⟩ := Fields.cut_left hk hp.1 hlist
    rw [String.toList_inj.mp hfst, String.toList_inj.mp hsnd]
  · have hcount := congrArg (List.count '=') hlist
    have hpos := List.count_pos_iff.mpr (equals_mem_queryText (List.cons_ne_nil q pairs))
    rw [queryText_singleton, queryText_cons_cons] at hcount
    simp only [String.toList_append, List.count_append, List.count_eq_zero.mpr hk,
      List.count_eq_zero.mpr hv] at hcount
    have hone : List.count '=' "=".toList = 1 := by decide
    omega

/-- **Where the query is clear.** A text with at most one `=` is the text of one query. -/
theorem OneEquals.eq_of_queryText (h : OneEquals pairs) (hempty : pairs = [] ↔ pairs' = [])
    (htext : queryText pairs = queryText pairs') : pairs' = pairs := by
  rcases h with rfl | ⟨k, v, rfl, hk, hv⟩
  · exact hempty.mp rfl
  · exact queryText_eq_singleton hk hv (fun hnil => by simpa using hempty.mpr hnil) htext

theorem exists_cut {c : Char} {s : String} (h : c ∈ s.toList) :
    ∃ a b, s = a ++ String.singleton c ++ b := by
  obtain ⟨a, b, hs⟩ := List.append_of_mem h
  exact ⟨String.ofList a, String.ofList b, String.toList_inj.mp (by simp [hs])⟩

/-- **Where it is not.** Every other query is written like a query of one pair. -/
theorem exists_queryText_eq (h : ¬OneEquals pairs) :
    ∃ k v, queryText [(k, v)] = queryText pairs ∧ pairs ≠ [(k, v)] := by
  rcases pairs with _ | ⟨⟨k, v⟩, _ | ⟨q, pairs⟩⟩
  · exact absurd (.inl rfl) h
  · have hmem : '=' ∈ k.toList ∨ '=' ∈ v.toList := by
      by_contra hnone
      rw [not_or] at hnone
      exact h (.inr ⟨k, v, rfl, hnone⟩)
    rcases hmem with hk | hv
    · obtain ⟨a, b, rfl⟩ := exists_cut hk
      refine ⟨a, b ++ "=" ++ v, by simp [queryText, joinWith, String.append_assoc], ?_⟩
      intro heq
      have hkey := congrArg String.length (congrArg Prod.fst (List.cons.inj heq).1)
      have hone : "=".length = 1 := rfl
      simp [String.length_append] at hkey
      omega
    · obtain ⟨a, b, rfl⟩ := exists_cut hv
      refine ⟨k ++ "=" ++ a, b, by simp [queryText, joinWith, String.append_assoc], ?_⟩
      intro heq
      have hkey := congrArg String.length (congrArg Prod.fst (List.cons.inj heq).1)
      have hone : "=".length = 1 := rfl
      simp [String.length_append] at hkey
      omega
  · exact ⟨k, v ++ "&" ++ queryText (q :: pairs),
      by rw [queryText_cons_cons, queryText_singleton]; simp [String.append_assoc], by simp⟩

/-- Queries without separators in their pairs are written differently. -/
theorem Separated.eq_of_queryText (h : Separated pairs) (h' : Separated pairs')
    (hne : pairs ≠ []) (hne' : pairs' ≠ []) (htext : queryText pairs = queryText pairs') :
    pairs = pairs' := by
  have hfields : ∀ {ps}, Separated ps → ∀ l ∈ (ps.map fun p => p.1 ++ "=" ++ p.2).map
      String.toList, '&' ∉ l := by
    intro ps hps l hl
    simp only [List.map_map, List.mem_map, Function.comp_apply] at hl
    obtain ⟨p, hp, rfl⟩ := hl
    obtain ⟨-, hk, hv⟩ := hps p hp
    simp [hk, hv]
  have hlist := congrArg String.toList htext
  rw [queryText, queryText, toList_joinWith, toList_joinWith] at hlist
  have hpairs := Fields.intercalate_injective (hfields h) (hfields h') (by simpa) (by simpa) hlist
  rw [List.map_map, List.map_map] at hpairs
  refine Fields.map_injOn ?_ hpairs
  intro p hp q hq hpq
  simp only [Function.comp_apply, String.toList_append, List.append_assoc] at hpq
  obtain ⟨hfst, hsnd⟩ := Fields.cut_left (h p hp).1 (h' q hq).1 hpq
  exact Prod.ext (String.toList_inj.mp hfst) (String.toList_inj.mp hsnd)

end Query

/-! ## The whole text -/

section Canonical

variable {Cert : Type} {P : FedCrates Cert}

theorem isDigit_of_mem_digits {c : Char} {n : ℕ} (h : c ∈ Nat.toDigits 10 n) : c.isDigit :=
  Nat.isDigit_of_mem_toDigits (by decide) (by decide) h

theorem toList_repr (n : ℤ) :
    n.repr.toList = (if 0 ≤ n then [] else ['-']) ++ Nat.toDigits 10 n.natAbs := by
  rw [Int.repr_eq_if]
  split
  · rename_i hn
    rw [Nat.toList_repr, List.nil_append]
    congr 1
    omega
  · rename_i hn
    rw [String.toList_append, Nat.toList_repr]
    congr 2
    omega

theorem repr_line (n : ℤ) : '\n' ∉ n.repr.toList := by
  rw [toList_repr, List.mem_append, not_or]
  exact ⟨by split <;> decide, fun h => absurd (isDigit_of_mem_digits h) (by decide)⟩

theorem repr_injective : Function.Injective Int.repr := by
  intro m n h
  have hlist := congrArg String.toList h
  rw [toList_repr, toList_repr] at hlist
  have hdigits : ∀ {a b : ℕ}, Nat.toDigits 10 a = Nat.toDigits 10 b → a = b := by
    intro a b hab
    rw [← Nat.ofDigitChars_ten_toDigits (n := a), hab, Nat.ofDigitChars_ten_toDigits]
  have hminus : ∀ {a : ℕ} {l : List Char}, Nat.toDigits 10 a ≠ '-' :: l := by
    intro a l hl
    exact absurd (isDigit_of_mem_digits (hl ▸ List.mem_cons_self)) (by decide)
  split at hlist <;> split at hlist
  · have habs := hdigits hlist
    omega
  · exact absurd hlist hminus
  · exact absurd hlist.symm hminus
  · have habs := hdigits (List.cons.inj hlist).2
    omega

theorem toList_canonicalString (method p sender host : String) (timestamp : ℤ) (nonce : String)
    (body : List UInt8) :
    (canonicalString P method p sender host timestamp nonce body).toList =
      ("owney-fed-v" ++ sigVersion).toList ++ '\n' :: ((P.toUppercase method).toList ++ '\n' ::
        (p.toList ++ '\n' :: sender.toList ++ '\n' :: host.toList ++
          '\n' :: timestamp.repr.toList ++ '\n' :: nonce.toList ++
          '\n' :: (P.b64Encode (P.blake3 body)).toList)) := by
  simp [canonicalString, toList_joinWith, List.intercalate]

/-- **The lines.** Path and query may have line breaks, and are what is left between the
other lines. -/
theorem canonicalString_injective (htext : P.TextLaws) {m m' : Method} {p p' : String}
    {sender sender' host host' nonce nonce' : Line} {timestamp timestamp' : ℤ}
    {body body' : List UInt8}
    (h : canonicalString P m.asStr p sender.text host.text timestamp nonce.text body =
      canonicalString P m'.asStr p' sender'.text host'.text timestamp' nonce'.text body') :
    m = m' ∧ p = p' ∧ sender = sender' ∧ host = host' ∧ timestamp = timestamp' ∧
      nonce = nonce' ∧ P.blake3 body = P.blake3 body' := by
  have hlist := congrArg String.toList h
  rw [toList_canonicalString, toList_canonicalString, htext.upper, htext.upper] at hlist
  have hmethod : ∀ m : Method, '\n' ∉ m.asStr.toList := by
    intro m
    cases m <;> decide
  -- The method from the left, the other lines from the right.
  obtain ⟨-, hlist⟩ := Fields.cut_left (by decide) (by decide) hlist
  obtain ⟨hm, hlist⟩ := Fields.cut_left (hmethod m) (hmethod m') hlist
  obtain ⟨hlist, hdigest⟩ := Fields.cut_right (htext.b64_line _) (htext.b64_line _) hlist
  obtain ⟨hlist, hnonce⟩ := Fields.cut_right nonce.line nonce'.line hlist
  obtain ⟨hlist, htime⟩ := Fields.cut_right (repr_line _) (repr_line _) hlist
  obtain ⟨hlist, hhost⟩ := Fields.cut_right host.line host'.line hlist
  obtain ⟨hpath, hsender⟩ := Fields.cut_right sender.line sender'.line hlist
  have hline : ∀ {a b : Line}, a.text.toList = b.text.toList → a = b := by
    rintro ⟨a, ha⟩ ⟨b, hb⟩ hab
    obtain rfl := String.toList_inj.mp hab
    rfl
  refine ⟨?_, String.toList_inj.mp hpath, hline hsender, hline hhost,
    repr_injective (String.toList_inj.mp htime), hline hnonce,
    htext.b64_injective (String.toList_inj.mp hdigest)⟩
  have hname := String.toList_inj.mp hm
  revert hname
  cases m <;> cases m' <;> decide

/-! ## Path and query -/

variable {u u' : Url}

theorem canonicalPath_of_nil (h : u.pairs P = []) : canonicalPath P u = u.path := by
  rw [canonicalPath, h]
  rfl

theorem canonicalPath_of_ne_nil (h : u.pairs P ≠ []) :
    canonicalPath P u = u.path ++ "?" ++ queryText (sortedPairs (u.pairs P)) := by
  have hne : (sortedPairs (u.pairs P)).isEmpty = false := by
    rw [List.isEmpty_eq_false_iff, ne_eq, sortedPairs_eq_nil]
    exact h
  rw [canonicalPath, if_neg (by simp [hne])]

/-- **Path and query** are told apart by the first `?`. -/
theorem canonicalPath_eq_iff (hu : '?' ∉ u.path.toList) (hu' : '?' ∉ u'.path.toList) :
    canonicalPath P u = canonicalPath P u' ↔ u.path = u'.path ∧
      (u.pairs P = [] ↔ u'.pairs P = []) ∧
      queryText (sortedPairs (u.pairs P)) = queryText (sortedPairs (u'.pairs P)) := by
  by_cases hnil : u.pairs P = [] <;> by_cases hnil' : u'.pairs P = []
  · simp [canonicalPath_of_nil, hnil, hnil']
  · rw [canonicalPath_of_nil hnil, canonicalPath_of_ne_nil hnil']
    refine ⟨fun h => ?_, fun h => absurd (h.2.1.mp hnil) hnil'⟩
    have hlist := congrArg String.toList h
    simp only [String.toList_append, List.append_assoc] at hlist
    exact absurd hlist (Fields.not_cut hu)
  · rw [canonicalPath_of_ne_nil hnil, canonicalPath_of_nil hnil']
    refine ⟨fun h => ?_, fun h => absurd (h.2.1.mpr hnil') hnil⟩
    have hlist := congrArg String.toList h.symm
    simp only [String.toList_append, List.append_assoc] at hlist
    exact absurd hlist (Fields.not_cut hu')
  · rw [canonicalPath_of_ne_nil hnil, canonicalPath_of_ne_nil hnil']
    constructor
    · intro h
      have hlist := congrArg String.toList h
      simp only [String.toList_append, List.append_assoc] at hlist
      obtain ⟨hpath, htext⟩ := Fields.cut_left hu hu' hlist
      exact ⟨String.toList_inj.mp hpath, by simp [hnil, hnil'], String.toList_inj.mp htext⟩
    · rintro ⟨hpath, -, htext⟩
      rw [hpath, htext]

/-! ## Both sides -/

/-- An override, if there is one, is a bare origin. -/
def FederationClient.Bare (P : FedCrates Cert) (c : FederationClient) (u : Url) : Prop :=
  ∀ base, c.override P u = some base → u.Web ∧ P.Origin (trimEndSlash base)

/-- The server computes from the target the path that the client signed. -/
def Outgoing.Agreed (P : FedCrates Cert) (out : Outgoing) : Prop :=
  canonicalPathStr P out.target.target = out.pathAndQuery

theorem canonicalPath_congr (hpath : u.path = u'.path) (hquery : u.query = u'.query) :
    canonicalPath P u = canonicalPath P u' := by
  rw [canonicalPath, canonicalPath, Url.pairs, Url.pairs, hpath, hquery]

theorem origin_placeholder (hurl : P.UrlLaws) : P.Origin "http://placeholder" :=
  ⟨hurl.placeholder, "http", "placeholder", by decide, .inl rfl, by decide⟩

/-- **Agreement.** -/
theorem FederationClient.agreed (hurl : P.UrlLaws) {c : FederationClient} {method : Method}
    {url host nonce : String} {body : List UInt8} {timestamp : ℤ} {isPublic : Bool}
    {out : Outgoing} (hsend : c.send P method url host body timestamp nonce isPublic = some out)
    (hbare : ∀ u, P.parseUrl url = some u → c.Bare P u) : out.Agreed P := by
  obtain ⟨u, hu, hsend⟩ := Option.bind_eq_some_iff.mp hsend
  obtain ⟨t, ht, hsend⟩ := Option.bind_eq_some_iff.mp hsend
  split at hsend
  · rename_i hguard
    obtain rfl := Option.some.inj hsend
    -- The target is a web URL with the path and the query that were signed.
    have htarget : ∃ s, P.parseUrl s = some t ∧ t.Web ∧ t.path = u.path ∧ t.query = u.query := by
      have hweb : t.Web := by
        have hscheme := hguard.1
        simp only [guardUrl, decide_eq_true_eq] at hscheme
        rcases hscheme.1 with hs | ⟨-, hs⟩
        · exact .inr hs
        · exact .inl hs
      rw [overrideTarget] at ht
      split at ht
      · rename_i base hbase
        obtain ⟨huweb, horigin⟩ := hbare u hu base hbase
        obtain ⟨v, hv, hpath, hquery⟩ := hurl.origin hu huweb horigin
        obtain rfl := Option.some.inj (hv.symm.trans ht)
        exact ⟨_, ht, hweb, hpath, hquery⟩
      · obtain rfl := Option.some.inj ht
        exact ⟨url, hu, hweb, rfl, rfl⟩
    obtain ⟨s, hs, hweb, hpath, hquery⟩ := htarget
    obtain ⟨v, hv, hvpath, hvquery⟩ := hurl.origin hs hweb (origin_placeholder hurl)
    rw [Outgoing.Agreed, canonicalPathStr, hv]
    exact canonicalPath_congr (hvpath.trans hpath) (hvquery.trans hquery)
  · cases hsend

namespace SignedRequest

variable {r r' : SignedRequest P}

theorem canonicalPathStr_target (r : SignedRequest P) :
    canonicalPathStr P r.target = canonicalPath P r.url := by
  rw [canonicalPathStr, r.parsed]

/-- Requests that are signed alike differ at most in their pairs. -/
theorem canonical_eq (hurl : P.UrlLaws) (htext : P.TextLaws) (h : r.canonical = r'.canonical) :
    (r.pairs.Perm r'.pairs → SameRequest r r') ∧ (r.pairs = [] ↔ r'.pairs = []) ∧
      queryText (sortedPairs r.pairs) = queryText (sortedPairs r'.pairs) := by
  obtain ⟨hmethod, hpath, hsender, hhost, htime, hnonce, hbody⟩ :=
    canonicalString_injective htext h
  rw [canonicalPathStr_target, canonicalPathStr_target, canonicalPath_eq_iff
    (hurl.path r.parsed (hurl.scheme r.parsed)) (hurl.path r'.parsed (hurl.scheme r'.parsed))]
    at hpath
  obtain ⟨hpath, hempty, hquery⟩ := hpath
  exact ⟨fun hpairs => ⟨hmethod, hpath, hpairs, hsender, hhost, htime, hnonce, hbody⟩,
    hempty, hquery⟩

/-- The request with another query. -/
theorem exists_withPairs (hurl : P.UrlLaws) (r : SignedRequest P) (pairs : List (String × String)) :
    ∃ r' : SignedRequest P, r'.url.path = r.url.path ∧ r'.pairs = pairs ∧
      r'.method = r.method ∧ r'.sender = r.sender ∧ r'.host = r.host ∧
      r'.timestamp = r.timestamp ∧ r'.nonce = r.nonce ∧ r'.body = r.body := by
  obtain ⟨s, v, hv, hweb, hpath, hpairs⟩ :=
    hurl.withPairs r.parsed (hurl.scheme r.parsed) pairs
  obtain ⟨url, hparsed, hpath', hquery⟩ := hurl.origin hv hweb (origin_placeholder hurl)
  refine ⟨{ r with target := v.target, url := url, parsed := hparsed }, hpath'.trans hpath, ?_,
    rfl, rfl, rfl, rfl, rfl, rfl⟩
  change url.pairs P = pairs
  rw [Url.pairs, hquery]
  exact hpairs

end SignedRequest

theorem oneEquals_sorted {pairs : List (String × String)} :
    OneEquals (sortedPairs pairs) ↔ OneEquals pairs := by
  have hperm := sortedPairs_perm pairs
  constructor
  · rintro (hnil | ⟨k, v, hone, hkv⟩)
    · exact .inl (sortedPairs_eq_nil.mp hnil)
    · rw [hone] at hperm
      exact .inr ⟨k, v, hperm.symm.eq_singleton, hkv⟩
  · rintro (rfl | ⟨k, v, rfl, hkv⟩)
    · exact .inl rfl
    · exact .inr ⟨k, v, rfl, hkv⟩

theorem separated_sorted {pairs : List (String × String)} (h : Separated pairs) :
    Separated (sortedPairs pairs) :=
  fun p hp => h p ((sortedPairs_perm pairs).mem_iff.mp hp)

/-- **The canonical request.** Both sides agree on it unless an override moves the path. It
stands for one request only exactly when the decoded query has at most one `=`; and among
requests without separators in their keys and values no two are signed alike. -/
theorem canonicalRequest_iff (P : FedCrates Cert) (hurl : P.UrlLaws) (htext : P.TextLaws) :
    (∀ (c : FederationClient) (method : Method) (url host : String) (body : List UInt8)
      (timestamp : ℤ) (nonce : String) (isPublic : Bool) (out : Outgoing),
      c.send P method url host body timestamp nonce isPublic = some out →
      (∀ u, P.parseUrl url = some u → c.Bare P u) → out.Agreed P) ∧
    (∀ r : SignedRequest P,
      (∀ r' : SignedRequest P, r.canonical = r'.canonical → SameRequest r r') ↔
        OneEquals r.pairs) ∧
    ∀ r r' : SignedRequest P, Separated r.pairs → Separated r'.pairs →
      r.canonical = r'.canonical → SameRequest r r' := by
  refine ⟨fun c method url host body timestamp nonce isPublic out hsend hbare =>
    FederationClient.agreed hurl hsend hbare, fun r => ⟨fun hclear => ?_, fun hone r' h => ?_⟩,
    fun r r' hr hr' h => ?_⟩
  · -- A request of one pair is written like any query with more than one `=`.
    by_contra hmore
    obtain ⟨k, v, hquery, hne⟩ := exists_queryText_eq (mt oneEquals_sorted.mp hmore)
    obtain ⟨r', hpath, hpairs, hmethod, hsender, hhost, htime, hnonce, hbody⟩ :=
      SignedRequest.exists_withPairs hurl r [(k, v)]
    have hrne : r.url.pairs P ≠ [] := fun hnil => hmore (.inl hnil)
    have hcanonical : canonicalPath P r.url = canonicalPath P r'.url := by
      rw [canonicalPath_eq_iff (hurl.path r.parsed (hurl.scheme r.parsed))
        (hurl.path r'.parsed (hurl.scheme r'.parsed))]
      refine ⟨hpath.symm, ?_, ?_⟩
      · rw [show r'.url.pairs P = [(k, v)] from hpairs]
        simp [hrne]
      · rw [show r'.url.pairs P = [(k, v)] from hpairs, sortedPairs_singleton]
        exact hquery.symm
    have hsame := (hclear r' (by
      rw [SignedRequest.canonical, SignedRequest.canonical, SignedRequest.canonicalPathStr_target,
        SignedRequest.canonicalPathStr_target, hcanonical, hmethod, hsender, hhost, htime, hnonce,
        hbody])).pairs
    rw [hpairs] at hsame
    rw [hsame.eq_singleton] at hne
    exact hne rfl
  · obtain ⟨hsame, hempty, hquery⟩ := SignedRequest.canonical_eq hurl htext h
    refine hsame ?_
    have hsorted := (oneEquals_sorted.mpr hone).eq_of_queryText (by simpa using hempty) hquery
    exact (sortedPairs_perm _).symm.trans (hsorted ▸ sortedPairs_perm _)
  · obtain ⟨hsame, hempty, hquery⟩ := SignedRequest.canonical_eq hurl htext h
    refine hsame ?_
    by_cases hnil : r.pairs = []
    · rw [hnil, hempty.mp hnil]
    · have hsorted := (separated_sorted hr).eq_of_queryText (separated_sorted hr')
        (by simpa using hnil) (by simpa using mt hempty.mpr hnil) hquery
      exact (sortedPairs_perm _).symm.trans (hsorted ▸ sortedPairs_perm _)

end Canonical

/-! ### Two requests, one text -/

section Sample

/-- A URL after its scheme: authority, path and query. Nothing is encoded. -/
def sampleRest (scheme : String) (rest : List Char) : Option Url :=
  let authority := rest.takeWhile fun c => c ≠ '/' ∧ c ≠ '?'
  let after := rest.dropWhile fun c => c ≠ '/' ∧ c ≠ '?'
  let path := after.takeWhile (· ≠ '?')
  if authority = [] then none
  else some
    { scheme
      username := ""
      password := none
      host := some (String.ofList authority)
      path := if path = [] then "/" else String.ofList path
      query := (after.dropWhile (· ≠ '?')).tail?.map String.ofList }

def sampleParseUrl (s : String) : Option Url :=
  if "http://".toList.isPrefixOf s.toList then sampleRest "http" (s.toList.drop 7)
  else if "https://".toList.isPrefixOf s.toList then sampleRest "https" (s.toList.drop 8)
  else none

/-- The hexadecimal digits of a byte. -/
def sampleHex (n : ℕ) : List Char := [Nat.digitChar (n / 16), Nat.digitChar (n % 16)]

/-- The value of a hexadecimal digit. -/
def sampleDigit (c : Char) : ℕ :=
  if c.isDigit then c.toNat - '0'.toNat else c.toLower.toNat - 'a'.toNat + 10

/-- Percent-decoding of ASCII, with `+` for a blank. -/
def samplePercentDecode : List Char → List Char
  | [] => []
  | '+' :: cs => ' ' :: samplePercentDecode cs
  | '%' :: a :: b :: cs =>
    Char.ofNat (16 * sampleDigit a + sampleDigit b) :: samplePercentDecode cs
  | c :: cs => c :: samplePercentDecode cs

def samplePercentEncode (cs : List Char) : List Char :=
  cs.flatMap fun c => if c ∈ ['%', '&', '=', '+'] then '%' :: sampleHex c.toNat
    else if c = ' ' then ['+'] else [c]

def sampleQueryPairs (q : String) : List (String × String) :=
  ((q.toList.splitOn '&').filter (· ≠ [])).map fun piece =>
    (String.ofList (samplePercentDecode (piece.takeWhile (· ≠ '='))),
      String.ofList (samplePercentDecode ((piece.dropWhile (· ≠ '=')).drop 1)))

/-- Two letters for each byte. -/
def sampleEncode (bytes : List UInt8) : String :=
  String.ofList (bytes.flatMap fun b =>
    [Char.ofNat (65 + b.toNat / 16), Char.ofNat (65 + b.toNat % 16)])

def sampleDecode : List Char → Option (List UInt8)
  | [] => some []
  | a :: b :: cs => (sampleDecode cs).map
    (UInt8.ofNat (16 * (a.toNat - 65) + (b.toNat - 65)) :: ·)
  | _ => none

/-- Crates for certificates that are their own bytes; a signature has the certificate and
the text. -/
def FedCrates.sample : FedCrates (List UInt8) where
  parseUrl := sampleParseUrl
  queryPairs := sampleQueryPairs
  unicode := Unicode.ascii
  toUppercase s := String.ofList (s.toList.map Char.toUpper)
  b64Encode := sampleEncode
  b64Decode s := sampleDecode s.toList
  blake3 bytes := bytes
  certFromBytes bytes := if bytes = [] then .error "no packets" else .ok bytes
  fingerprint := sampleEncode
  stripped cert := if cert = [] then .error "no packets" else .ok cert
  verifyDetached cert text signature :=
    some (signature = cert ++ text.toList.map fun c => UInt8.ofNat c.toNat)

/-- A URL of an authority, a path and a query is split into them. -/
theorem sampleRest_append {scheme : String} {authority path : List Char}
    {query : Option (List Char)} (hauthority : ∀ c ∈ authority, c ≠ '/' ∧ c ≠ '?')
    (hne : authority ≠ []) (hpath : '?' ∉ path) :
    sampleRest scheme (authority ++ ('/' :: path ++ query.elim [] ('?' :: ·))) =
      some ⟨scheme, "", none, some (String.ofList authority), String.ofList ('/' :: path),
        query.map String.ofList⟩ := by
  have hall : ∀ c ∈ authority, decide (c ≠ '/' ∧ c ≠ '?') = true := by simpa using hauthority
  have hpath' : ∀ c ∈ '/' :: path, decide (c ≠ '?') = true := by
    intro c hc
    simp only [decide_eq_true_eq]
    rintro rfl
    exact hpath (by simpa using hc)
  have hquery : (query.elim [] ('?' :: ·)).takeWhile (fun c => decide (c ≠ '?')) = [] ∧
      (query.elim [] ('?' :: ·)).dropWhile (fun c => decide (c ≠ '?')) =
        query.elim [] ('?' :: ·) := by
    cases query <;> simp
  have hafter : (authority ++ ('/' :: path ++ query.elim [] ('?' :: ·))).takeWhile
        (fun c => decide (c ≠ '/' ∧ c ≠ '?')) = authority ∧
      (authority ++ ('/' :: path ++ query.elim [] ('?' :: ·))).dropWhile
        (fun c => decide (c ≠ '/' ∧ c ≠ '?')) = '/' :: path ++ query.elim [] ('?' :: ·) := by
    rw [List.takeWhile_append_of_pos hall, List.dropWhile_append_of_pos hall]
    simp
  rw [sampleRest]
  simp only [hafter.1, hafter.2, if_neg hne, List.takeWhile_append_of_pos hpath',
    List.dropWhile_append_of_pos hpath', hquery.1, hquery.2]
  cases query <;> simp

/-- What is parsed has a path from a `/` on, without a `?`. -/
theorem sampleParseUrl_spec {s : String} {u : Url} (h : sampleParseUrl s = some u) :
    u.Web ∧ ∃ (path : List Char) (query : Option (List Char)), '?' ∉ path ∧
      u.path = String.ofList ('/' :: path) ∧ u.query = query.map String.ofList := by
  have hrest : ∀ {scheme rest}, sampleRest scheme rest = some u → u.scheme = scheme ∧
      ∃ (path : List Char) (query : Option (List Char)), '?' ∉ path ∧
        u.path = String.ofList ('/' :: path) ∧ u.query = query.map String.ofList := by
    intro scheme rest h
    rw [sampleRest] at h
    split at h
    · cases h
    · obtain rfl := Option.some.inj h
      refine ⟨rfl, ?_⟩
      generalize hafter : rest.dropWhile (fun c => decide (c ≠ '/' ∧ c ≠ '?')) = after
      rcases after with _ | ⟨c, after⟩
      · exact ⟨[], none, by simp, rfl, rfl⟩
      · have hc := List.head?_dropWhile_not (fun c => decide (c ≠ '/' ∧ c ≠ '?')) rest
        rw [hafter] at hc
        have hc : c = '/' ∨ c = '?' := by
          simp only [List.head?_cons, decide_eq_false_iff_not, not_and_or,
            not_not] at hc
          exact hc
        rcases hc with rfl | rfl
        · refine ⟨after.takeWhile (· ≠ '?'), (after.dropWhile (· ≠ '?')).tail?, ?_, by simp,
            by simp⟩
          intro hmem
          simpa using List.mem_takeWhile_imp hmem
        · exact ⟨[], some after, by simp, by simp, by simp⟩
  rw [sampleParseUrl] at h
  split at h
  · exact ⟨.inl (hrest h).1, (hrest h).2⟩
  · split at h
    · exact ⟨.inr (hrest h).1, (hrest h).2⟩
    · cases h

theorem samplePercentDecode_encode (cs : List Char) :
    samplePercentDecode (samplePercentEncode cs) = cs := by
  induction cs with
  | nil => rfl
  | cons c cs ih =>
    rw [samplePercentEncode, List.flatMap_cons]
    change samplePercentDecode (_ ++ samplePercentEncode cs) = _
    split
    · rename_i hc
      simp only [List.mem_cons, List.not_mem_nil, or_false] at hc
      rcases hc with rfl | rfl | rfl | rfl <;> exact congrArg _ ih
    · rename_i hc
      split
      · rename_i hblank
        rw [hblank]
        exact congrArg _ ih
      · have hother : samplePercentDecode (c :: samplePercentEncode cs) =
            c :: samplePercentDecode (samplePercentEncode cs) := by
          rw [samplePercentDecode]
          · rintro rfl
            simp at hc
          · rintro a b l rfl
            simp at hc
        rw [List.singleton_append, hother, ih]

theorem not_mem_samplePercentEncode {c : Char} (hc : c = '&' ∨ c = '=') (cs : List Char) :
    c ∉ samplePercentEncode cs := by
  intro hmem
  obtain ⟨d, -, hd⟩ := List.mem_flatMap.mp hmem
  split at hd
  · rename_i hspecial
    simp only [List.mem_cons, List.not_mem_nil, or_false] at hspecial
    rcases hspecial with rfl | rfl | rfl | rfl <;> rcases hc with rfl | rfl <;> revert hd <;> decide
  · rename_i hplain
    split at hd
    · rcases hc with rfl | rfl <;> simp at hd
    · obtain rfl := List.mem_singleton.mp hd
      rcases hc with rfl | rfl <;> simp at hplain

/-- Every list of pairs is a query. -/
theorem exists_sampleQuery (pairs : List (String × String)) :
    ∃ q, sampleQueryPairs (String.ofList q) = pairs := by
  refine ⟨['&'].intercalate (pairs.map fun p =>
    samplePercentEncode p.1.toList ++ '=' :: samplePercentEncode p.2.toList), ?_⟩
  rcases pairs with _ | ⟨p, pairs⟩
  · rfl
  · rw [sampleQueryPairs, String.toList_ofList, List.splitOn_intercalate]
    · rw [List.filter_eq_self.mpr, List.map_map]
      · conv_rhs => rw [← List.map_id (p :: pairs)]
        refine List.map_congr_left fun p _ => ?_
        have hne : ∀ c ∈ samplePercentEncode p.1.toList, decide (c ≠ '=') = true := by
          intro c hc
          simp only [decide_eq_true_eq]
          rintro rfl
          exact not_mem_samplePercentEncode (.inr rfl) _ hc
        simp only [Function.comp_apply, List.takeWhile_append_of_pos hne,
          List.dropWhile_append_of_pos hne]
        simp [samplePercentDecode_encode]
      · simp only [List.mem_map, ne_eq, decide_not, Bool.not_eq_true', decide_eq_false_iff_not]
        rintro l ⟨p, -, rfl⟩
        simp
    · intro l hl
      obtain ⟨p, -, rfl⟩ := List.mem_map.mp hl
      simp [not_mem_samplePercentEncode]
    · simp

theorem sampleParseUrl_append {s scheme : String} {a path : List Char} {q : Option (List Char)}
    (hscheme : scheme = "http" ∨ scheme = "https") (ha : ∀ c ∈ a, c ≠ '/' ∧ c ≠ '?')
    (hne : a ≠ []) (hpath : '?' ∉ path)
    (hs : s.toList = (scheme ++ "://").toList ++ (a ++ ('/' :: path ++ q.elim [] ('?' :: ·)))) :
    sampleParseUrl s = some ⟨scheme, "", none, some (String.ofList a),
      String.ofList ('/' :: path), q.map String.ofList⟩ := by
  rw [sampleParseUrl, hs]
  rcases hscheme with rfl | rfl
  · exact sampleRest_append ha hne hpath
  · exact sampleRest_append ha hne hpath

theorem urlLaws_sample : FedCrates.sample.UrlLaws where
  path h _ := by
    obtain ⟨-, path, query, hpath, hu, -⟩ := sampleParseUrl_spec h
    rw [hu]
    simpa using hpath
  scheme h := (sampleParseUrl_spec h).1
  placeholder := by decide
  origin := by
    rintro s u base h hweb ⟨hsome, scheme, authority, rfl, hscheme, hplain⟩
    obtain ⟨-, path, query, hpath, hu, hquery⟩ := sampleParseUrl_spec h
    have hauthority : ∀ c ∈ authority.toList, c ≠ '/' ∧ c ≠ '?' := by
      intro c hc
      constructor <;> rintro rfl <;> exact absurd (hplain _ hc) (by decide)
    have hne : authority.toList ≠ [] := by
      intro hnil
      obtain rfl : authority = "" := String.toList_inj.mp hnil
      rcases hscheme with rfl | rfl <;> revert hsome <;> decide
    refine ⟨_, sampleParseUrl_append (q := query) hscheme hauthority hne hpath ?_,
      hu.symm, hquery.symm⟩
    rw [Url.target, hu, hquery]
    cases query <;> simp
  withPairs := by
    intro s u h hweb pairs
    obtain ⟨-, path, query, hpath, hu, hquery⟩ := sampleParseUrl_spec h
    obtain ⟨q, hq⟩ := exists_sampleQuery pairs
    refine ⟨String.ofList ("http://x".toList ++ ('/' :: path ++ '?' :: q)), _,
      sampleParseUrl_append (q := some q) (a := ['x']) (.inl rfl) (by decide)
        (by decide) hpath (by simp), .inl rfl, hu.symm, hq⟩

theorem sampleLetter : ∀ n < 16, (Char.ofNat (65 + n)).toNat - 65 = n ∧
    Char.ofNat (65 + n) ≠ '\n' := by decide

theorem sampleDecode_encode (bytes : List UInt8) :
    sampleDecode (sampleEncode bytes).toList = some bytes := by
  rw [sampleEncode, String.toList_ofList]
  induction bytes with
  | nil => rfl
  | cons b bytes ih =>
    have hb := b.toNat_lt
    rw [List.flatMap_cons, List.cons_append, List.cons_append, List.nil_append, sampleDecode, ih,
      Option.map_some, (sampleLetter (b.toNat / 16) (by omega)).1,
      (sampleLetter (b.toNat % 16) (by omega)).1, Nat.div_add_mod, UInt8.ofNat_toNat]

theorem textLaws_sample : FedCrates.sample.TextLaws where
  upper m := by cases m <;> decide
  b64_line bytes := by
    change '\n' ∉ (sampleEncode bytes).toList
    rw [sampleEncode, String.toList_ofList]
    intro hmem
    obtain ⟨b, -, hb⟩ := List.mem_flatMap.mp hmem
    have hlt := b.toNat_lt
    have hhigh := (sampleLetter (b.toNat / 16) (by omega)).2
    have hlow := (sampleLetter (b.toNat % 16) (by omega)).2
    simp only [List.mem_cons, List.not_mem_nil, or_false] at hb
    exact hb.elim (fun h => hhigh h.symm) fun h => hlow h.symm
  b64_injective := by
    intro bytes bytes' h
    have hdecode := congrArg (fun s : String => sampleDecode s.toList) h
    exact Option.some.inj
      ((sampleDecode_encode bytes).symm.trans (hdecode.trans (sampleDecode_encode bytes')))

def ambiguousRequest (query : String) (h : (FedCrates.sample.parseUrl
    ("http://placeholder" ++ ("/sync?" ++ query))).isSome) : SignedRequest FedCrates.sample where
  method := .get
  target := "/sync?" ++ query
  sender := ⟨"a.test", by decide⟩
  host := ⟨"b.test", by decide⟩
  timestamp := 1000
  nonce := ⟨"n", by decide⟩
  body := []
  url := Option.get _ h
  parsed := (Option.some_get h).symm

theorem canonicalRequest_since :
    ¬∃ r' : SignedRequest FedCrates.sample,
      (ambiguousRequest "since=5" (by decide)).canonical = r'.canonical ∧
        ¬SameRequest (ambiguousRequest "since=5" (by decide)) r' := by
  rintro ⟨r', hcanonical, hnot⟩
  exact hnot (((canonicalRequest_iff FedCrates.sample urlLaws_sample textLaws_sample).2.1 _).mpr
    (.inr ⟨"since", "5", by decide +kernel, by decide, by decide⟩) r' hcanonical)

theorem not_canonicalRequest :
    ∃ r r' : SignedRequest FedCrates.sample, r.canonical = r'.canonical ∧ ¬SameRequest r r' := by
  refine ⟨ambiguousRequest "a=b%26c%3Dd" (by decide), ambiguousRequest "a=b&c=d" (by decide),
    by decide +kernel, fun hsame => ?_⟩
  have hpairs := hsame.pairs.length_eq
  revert hpairs
  decide +kernel

end Sample

end Owney
