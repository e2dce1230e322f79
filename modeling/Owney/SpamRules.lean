import Owney.Lib.ByteSlices
import Owney.Lib.Finding
import Owney.Lib.Utf8Text
import Owney.OAuthStore
import Owney.SpamStore

/-!
# The spam rules

The rules look at the text of a whole message (`owney-spam/src/rules.rs`): a header is what is
behind a line break, its name and a colon, wherever that stands, and what is blank behind it is
counted in characters but skipped in bytes.

* `checkMessage` — the rules; none is a panic.
* `readsHeader_iff` — the header sections of which the rules read the fields, and nothing else.
-/

namespace Owney.Spam

open ByteSlices Finding

/-! ## The rules -/

/-- What the standard library knows of letters. -/
structure Letters where
  /-- `char::is_alphabetic` -/
  isAlphabetic : Char → Bool
  /-- `char::is_uppercase` -/
  isUppercase : Char → Bool
  /-- `str::to_lowercase` -/
  toLowercase : List Char → List Char

/-- The rules of `check_message`. -/
inductive Rule where
  | missingDate
  | missingMessageId
  | allCapsSubject
  | excessivePunctuation
  | executableAttachment (ext : String)
  | noReceivedHeaders
  | phishingSubject
  deriving DecidableEq, Repr

/-- What the rule is called in a verdict. -/
def Rule.text : Rule → String
  | .missingDate => "MISSING_DATE"
  | .missingMessageId => "MISSING_MESSAGE_ID"
  | .allCapsSubject => "ALL_CAPS_SUBJECT"
  | .excessivePunctuation => "EXCESSIVE_PUNCTUATION"
  | .executableAttachment ext => "EXECUTABLE_ATTACHMENT" ++ ext
  | .noReceivedHeaders => "NO_RECEIVED_HEADERS"
  | .phishingSubject => "PHISHING_SUBJECT"

/-- What it adds to the score. -/
def Rule.weight : Rule → ℚ
  | .missingDate => 15 / 100
  | .missingMessageId => 10 / 100
  | .allCapsSubject => 15 / 100
  | .excessivePunctuation => 10 / 100
  | .executableAttachment _ => 20 / 100
  | .noReceivedHeaders => 10 / 100
  | .phishingSubject => 20 / 100

/-- Whether the rule is about the header. -/
def Rule.ofHeader : Rule → Bool
  | .executableAttachment _ => false
  | _ => true

/-- `str::trim`. -/
def trim (text : List Char) : List Char := trimList isWhitespace text

/-- `position(|c| !c.is_whitespace()).unwrap_or(0)`. -/
def blanks (text : List Char) : ℕ := (text.findIdx? fun c => !isWhitespace c).getD 0

/-- `extract_header`, behind the needle. -/
def headerValue (rest : List Char) : Option (List Char) :=
  (split? rest (blanks rest)).map fun (_, value) => trim (value.takeWhile (· ≠ '\n'))

/-- `extract_header`; none is a panic. -/
def extractHeader (msg : List Char) (headerName : String) : Option (Option (List Char)) :=
  let needleCr := '\r' :: '\n' :: headerName.toList ++ [':']
  let needleLf := '\n' :: headerName.toList ++ [':']
  match (findAfter needleCr msg).or (findAfter needleLf msg) with
  | none => some none
  | some rest => (headerValue rest).map some

/-- `phishing_patterns`. -/
def phishingPatterns : List String :=
  ["verify account", "confirm password", "update payment", "click here", "urgent action",
    "limited time"]

/-- `contains_phishing_keyword`. -/
def containsPhishingKeyword (U : Letters) (text : List Char) : Bool :=
  phishingPatterns.any fun p => contains p.toList (U.toLowercase text)

/-- `executable_exts`. -/
def executableExts : List String := [".exe", ".bat", ".scr", ".vbs", ".js", ".zip"]

/-- Whether the message has the header: the needle with the line feed or the one with both. -/
def hasHeader (headerName : String) (msg : List Char) : Bool :=
  contains ('\n' :: headerName.toList ++ [':']) msg ||
    contains ('\r' :: '\n' :: headerName.toList ++ [':']) msg

/-- The rules that match, in their order. -/
def matched (U : Letters) (msg : List Char) (subject : Option (List Char)) : List Rule :=
  (if hasHeader "Date" msg then [] else [.missingDate]) ++
  (if hasHeader "Message-ID" msg then [] else [.missingMessageId]) ++
  (match subject with
    | some subj =>
      (if 10 < byteLength subj ∧ (subj.filter U.isAlphabetic).all U.isUppercase then
        [.allCapsSubject] else []) ++
      (if 3 < (subj.filter fun c => c = '!' || c = '?').length then [.excessivePunctuation] else [])
    | none => []) ++
  ((executableExts.find? fun ext =>
    contains ("filename=\"".toList ++ ext.toList.drop 1) (U.toLowercase msg)).toList.map
      .executableAttachment) ++
  -- the count of both needles is zero exactly if none of them is there
  (if hasHeader "Received" msg then [] else [.noReceivedHeaders]) ++
  (if subject.any (containsPhishingKeyword U) then [.phishingSubject] else [])

/-- The score of some rules, which is summed up in their order. -/
def rulesScore {F : Type} (ops : F32Ops F) (rules : List Rule) : F :=
  ops.min (rules.foldl (fun score r => ops.add score (ops.lit r.weight)) (ops.lit 0)) (ops.lit 1)

/-- `check_message`. -/
def checkMessage {F : Type} (ops : F32Ops F) (U : Letters) (raw : List UInt8) :
    Option (RulesVerdict F) :=
  let msg := Utf8.fromUtf8Lossy raw
  (extractHeader msg "Subject").map fun subject =>
    let rules := matched U msg subject
    ⟨rulesScore ops rules, rules.map Rule.text⟩

/-! ## The header section -/

/-- The lines of the header section, up to the first empty line; a line may have a CR at its
end. -/
def headerLines (text : List Char) : List (List Char) :=
  (text.splitOn '\n').takeWhile fun l => l ≠ [] ∧ l ≠ ['\r']

/-- The text of the section. -/
def sectionText (ls : List (List Char)) : List Char := ls.flatMap (· ++ ['\n'])

/-- A line without the CR of its end. -/
def dropCr (l : List Char) : List Char := if l.getLast? = some '\r' then l.dropLast else l

/-- Whether a line goes on with the field before it. -/
def continues : List Char → Bool
  | c :: _ => c = ' ' || c = '\t'
  | [] => false

/-- The first `Subject` field, in any case, unfolded and trimmed. -/
def subjectField : List (List Char) → Option (List Char)
  | [] => none
  | l :: ls =>
    if "subject:".toList <+: l.map Char.toLower then
      some (trim (dropCr (l.drop 8) ++ ((ls.takeWhile continues).map dropCr).flatten))
    else subjectField ls

/-- Whether a rule that matched is about the header. -/
def ofHeader (rule : String) : Bool := !"EXECUTABLE_ATTACHMENT".toList.isPrefixOf rule.toList

section Reads

variable {F : Type} (ops : F32Ops F) (U : Letters)

/-- The rules about the header that match. -/
def headerRules (raw : List UInt8) : Option (List String) :=
  (checkMessage ops U raw).map fun v => v.matchedRules.filter ofHeader

/-- The rules do not panic, they judge the subject, and no other body has another verdict. -/
structure ReadsHeader (raw : List UInt8) : Prop where
  total : checkMessage ops U raw ≠ none
  subject : extractHeader (Utf8.fromUtf8Lossy raw) "Subject" =
    some (subjectField (headerLines (Utf8.fromUtf8Lossy raw)))
  body : ∀ raw', headerLines (Utf8.fromUtf8Lossy raw') = headerLines (Utf8.fromUtf8Lossy raw) →
    headerRules ops U raw' = headerRules ops U raw

end Reads

/-! ### Legible sections -/

/-- In lines, what is behind the first `Subject:` at the start of a line, if the line before has
a CR at its end. -/
def behindSubject : List (List Char) → Option (List (List Char))
  | [] => none
  | l :: ls =>
    match ls with
    | [] => none
    | s :: more =>
      if l.getLast? = some '\r' ∧ "Subject:".toList <+: s then some (s.drop 8 :: more)
      else behindSubject ls

/-- Where the words of some lines start: behind blank lines, and the blanks of their own. -/
structure StartsWith (lines blank : List (List Char)) (ws words : List Char)
    (more : List (List Char)) : Prop where
  eq : lines = blank ++ (ws ++ words) :: more
  blanks : ∀ c ∈ sectionText blank ++ ws, isWhitespace c = true
  words : ∃ c ∈ words.head?, isWhitespace c = false

/-- What is read in some lines, from as many bytes on as there are blank characters before their
words: the words, if this is among the blanks of their line and starts a character, or nothing, if
it is on a blank line. -/
inductive ReadIn (lines : List (List Char)) : List Char → Prop
  | words {blank : List (List Char)} {ws cut words : List Char} {more : List (List Char)}
      (starts : StartsWith lines blank ws words more) (hcut : cut <+: ws)
      (bytes : byteLength (sectionText blank ++ cut) = (sectionText blank ++ ws).length) :
      ReadIn lines (trim words)
  | nothing {before after : List (List Char)} {l ws cut words : List Char}
      {more : List (List Char)}
      (starts : StartsWith lines (before ++ l :: after) ws words more) (hcut : cut <+: l)
      (bytes : byteLength (sectionText before ++ cut) =
        (sectionText (before ++ l :: after) ++ ws).length) :
      ReadIn lines []

/-- The names that the rules look for start lines of the section, but not its first; and behind
the first `Subject:` that starts a line after CR LF, the subject of the section is read. -/
structure Legible (ls : List (List Char)) : Prop where
  named : ∀ name ∈ ["Date", "Message-ID", "Received"], ∃ l ∈ ls.tail, name.toList ++ [':'] <+: l
  subject : ∃ lines value, behindSubject ls = some lines ∧ ReadIn lines value ∧
    subjectField ls = some value

/-! ## Lines and texts -/

theorem lossy_encode (text : List Char) : Utf8.fromUtf8Lossy (Utf8.encode text) = text := by
  have h := Utf8.fromUtf8Lossy_append text []
  rwa [List.append_nil, show Utf8.fromUtf8Lossy [] = [] from rfl, List.append_nil] at h

/-- A line of a header section. -/
def IsHeaderLine (l : List Char) : Prop := '\n' ∉ l ∧ l ≠ [] ∧ l ≠ ['\r']

theorem isHeaderLine_of_mem {text l : List Char} (h : l ∈ headerLines text) : IsHeaderLine l := by
  have hblank := List.mem_takeWhile_imp h
  have hmem := (List.takeWhile_prefix _).subset h
  refine ⟨fun hn => ?_, by simpa using hblank⟩
  have hno := CharLists.not_mem_of_mem_splitOnP (p := (· == '\n')) hmem '\n' hn
  cases hno

theorem splitOn_section {ls : List (List Char)} (h : ∀ l ∈ ls, '\n' ∉ l) (rest : List Char) :
    (sectionText ls ++ rest).splitOn '\n' = ls ++ rest.splitOn '\n' := by
  induction ls with
  | nil => rfl
  | cons l ls ih =>
    rw [List.forall_mem_cons] at h
    have hl : ∀ c ∈ l, (c == '\n') = false := fun c hc =>
      beq_eq_false_iff_ne.mpr fun heq => h.1 (heq ▸ hc)
    rw [sectionText, List.flatMap_cons, List.append_assoc, List.append_assoc, List.splitOn,
      List.singleton_append, List.splitOnP_append_cons_of_forall_mem hl '\n' rfl]
    exact congrArg (l :: ·) (ih h.2)

/-- A section with an empty line behind it. -/
theorem headerLines_section {ls : List (List Char)} (h : ∀ l ∈ ls, IsHeaderLine l)
    (body : List Char) : headerLines (sectionText ls ++ '\r' :: '\n' :: body) = ls := by
  have hbody : ('\r' :: '\n' :: body).splitOn '\n' = ['\r'] :: body.splitOn '\n' :=
    @List.splitOnP_append_cons_of_forall_mem _ (· == '\n') ['\r'] (by decide) '\n' rfl body
  rw [headerLines, splitOn_section (fun l hl => (h l hl).1), hbody,
    List.takeWhile_append_of_pos fun l hl => by simpa using (h l hl).2,
    List.takeWhile_cons_of_neg (by simp), List.append_nil]

theorem sectionText_append (ls ls' : List (List Char)) :
    sectionText (ls ++ ls') = sectionText ls ++ sectionText ls' := List.flatMap_append

theorem sectionText_splitOn (text : List Char) :
    sectionText (text.splitOn '\n') = text ++ ['\n'] := by
  induction text with
  | nil => rfl
  | cons c text ih =>
    rw [List.splitOn, List.splitOnP_cons_eq_if_modifyHead, ← List.splitOn]
    split_ifs with hc
    · rw [eq_of_beq hc, List.cons_append, ← ih]
      rfl
    · cases hsplit : text.splitOn '\n' with
      | nil => exact absurd hsplit (List.splitOnP_ne_nil _ text)
      | cons l ls =>
        rw [hsplit] at ih
        rw [List.modifyHead_cons, List.cons_append, ← ih]
        rfl

theorem sectionText_eq_concat {ls : List (List Char)} (h : ls ≠ []) :
    ∃ text, sectionText ls = text ++ ['\n'] := by
  obtain ⟨ls, l, rfl⟩ := ls.eq_nil_or_concat'.resolve_left h
  refine ⟨sectionText ls ++ l, ?_⟩
  rw [sectionText_append, List.append_assoc]
  simp [sectionText]

/-- The section is at the front of the text, or only its last line feed is missing there. -/
theorem section_cases (text : List Char) :
    (∃ rest, text = sectionText (headerLines text) ++ rest) ∨
      sectionText (headerLines text) = text ++ ['\n'] := by
  obtain ⟨more, hmore⟩ : headerLines text <+: text.splitOn '\n' := List.takeWhile_prefix _
  have htext := sectionText_splitOn text
  rw [← hmore, sectionText_append] at htext
  by_cases hnil : more = []
  · refine .inr ?_
    rwa [hnil, show sectionText [] = [] from rfl, List.append_nil] at htext
  · obtain ⟨rest, hrest⟩ := sectionText_eq_concat hnil
    rw [hrest, ← List.append_assoc] at htext
    exact .inl ⟨rest, (List.append_cancel_right htext).symm⟩

/-- **A needle that is found in the section** is found in the text, before the same line. -/
theorem find_text {needle text rest : List Char} (hlast : needle.getLast? = some ':')
    (h : findAfter needle (sectionText (headerLines text)) = some rest) :
    ∃ line, rest = line ++ ['\n'] ∧ (findAfter needle text = some line ∨
      ∃ more, findAfter needle text = some (line ++ '\n' :: more)) := by
  have hne : needle ≠ [] := by
    rintro rfl
    cases hlast
  have hcolon : ∀ a ∈ needle.getLast?, a ≠ '\n' := by
    intro a ha
    rw [hlast] at ha
    obtain rfl := Option.some.inj ha
    decide
  have hlines : headerLines text ≠ [] := by
    intro hnil
    rw [hnil, show sectionText [] = [] from rfl, findAfter, if_neg hne] at h
    cases h
  obtain ⟨text', htext'⟩ := sectionText_eq_concat hlines
  have hfound := h
  rw [htext'] at hfound
  obtain ⟨line, rfl, hline⟩ := findAfter_of_concat hne hcolon hfound
  refine ⟨line, rfl, ?_⟩
  rcases section_cases text with ⟨more, hmore⟩ | hmissing
  · refine .inr ⟨more, ?_⟩
    rw [hmore, findAfter_append h, List.append_assoc, List.singleton_append]
  · obtain rfl := List.append_cancel_right (htext'.symm.trans hmissing)
    exact .inl hline

/-! ## What is behind the needle -/

theorem findIdx?_append_of_mem {p : Char → Bool} {cs : List Char} (h : ∃ c ∈ cs, p c = true)
    (ds : List Char) : (cs ++ ds).findIdx? p = cs.findIdx? p := by
  obtain ⟨c, hc, hp⟩ := h
  rw [List.findIdx?_append]
  cases hfind : cs.findIdx? p with
  | none => exact absurd hp (by simp [List.findIdx?_eq_none_iff.mp hfind c hc])
  | some n => rfl

theorem blanks_append {cs : List Char} (h : ∃ c ∈ cs, isWhitespace c = false) (ds : List Char) :
    blanks (cs ++ ds) = blanks cs := by
  rw [blanks, findIdx?_append_of_mem (by simpa using h), blanks]

/-- The number of blanks is a number of bytes in the text. -/
theorem blanks_le (cs : List Char) : blanks cs ≤ byteLength cs := by
  refine le_trans ?_ (length_le_byteLength cs)
  rw [blanks]
  cases hfind : cs.findIdx? fun c => !isWhitespace c with
  | none => exact Nat.zero_le _
  | some n => exact (List.findIdx?_eq_some_iff_getElem.mp hfind).1.le

theorem takeWhile_line (value more : List Char) :
    (value ++ '\n' :: more).takeWhile (· ≠ '\n') = value.takeWhile (· ≠ '\n') := by
  induction value with
  | nil => rfl
  | cons c value ih =>
    rw [List.cons_append, List.takeWhile_cons, List.takeWhile_cons, ih]

theorem takeWhile_of_line {value : List Char} (h : '\n' ∉ value) (rest : List Char) :
    (value ++ '\n' :: rest).takeWhile (· ≠ '\n') = value := by
  rw [takeWhile_line]
  exact List.takeWhile_eq_self_iff.mpr fun c hc => decide_eq_true fun heq => h (heq ▸ hc)

/-- Blanks before words do not show. -/
theorem trim_append {ws : List Char} (h : ∀ c ∈ ws, isWhitespace c = true) (words : List Char) :
    trim (ws ++ words) = trim words := by
  rw [trim, trimList, List.dropWhile_append_of_pos h, trim, trimList]

/-- **Only the line matters**, if it is not blank. -/
theorem headerValue_line {line : List Char} (h : ∃ c ∈ line, isWhitespace c = false)
    (more : List Char) : headerValue (line ++ '\n' :: more) = headerValue line := by
  rw [headerValue, blanks_append h, split?_append_right (blanks_le line), headerValue]
  cases split? line (blanks line) with
  | none => rfl
  | some cut => exact congrArg (fun value => some (trim value)) (takeWhile_line cut.2 more)

/-- Blanks, as many of them as are cut off, and then something else. -/
theorem headerValue_blanks {ws : List Char} (hws : ∀ c ∈ ws, isWhitespace c = true) {x : Char}
    {tail : List Char} (hx : isWhitespace x = false) (hline : ∀ c ∈ x :: tail, c ≠ '\n') :
    headerValue (ws ++ (List.replicate (byteLength ws) ' ' ++ x :: tail)) =
      some (trim (x :: tail)) := by
  obtain ⟨n, hn⟩ := Nat.exists_eq_add_of_le (length_le_byteLength ws)
  have hspace : isWhitespace ' ' = true := rfl
  have hall : ∀ c ∈ ws ++ List.replicate (byteLength ws) ' ', isWhitespace c = true := by
    intro c hc
    rcases List.mem_append.mp hc with hc | hc
    · exact hws c hc
    · rw [List.eq_of_mem_replicate hc]
      rfl
  have hblanks : blanks (ws ++ (List.replicate (byteLength ws) ' ' ++ x :: tail)) =
      ws.length + byteLength ws := by
    have hnone : (ws ++ List.replicate (byteLength ws) ' ').findIdx? (fun c => !isWhitespace c) =
        none := List.findIdx?_eq_none_iff.mpr fun c hc => by rw [hall c hc]; rfl
    rw [blanks, ← List.append_assoc, List.findIdx?_append, hnone, List.findIdx?_cons, hx]
    simp
  have hcut : split? (ws ++ (List.replicate (byteLength ws) ' ' ++ x :: tail))
      (ws.length + byteLength ws) = some (ws ++ List.replicate ws.length ' ',
        List.replicate n ' ' ++ x :: tail) := by
    refine split?_eq_some.mpr ⟨?_, ?_⟩
    · rw [hn, List.replicate_add]
      simp only [List.append_assoc]
    · rw [byteLength_append, @byteLength_eq_length (List.replicate _ _) fun c hc => by
        rw [List.eq_of_mem_replicate hc]; rfl, List.length_replicate, Nat.add_comm]
  have htake : (List.replicate n ' ' ++ x :: tail).takeWhile (· ≠ '\n') =
      List.replicate n ' ' ++ x :: tail := by
    refine List.takeWhile_eq_self_iff.mpr fun c hc => ?_
    rcases List.mem_append.mp hc with hc | hc
    · rw [List.eq_of_mem_replicate hc]
      rfl
    · simpa using hline c hc
  have htrim : trim (List.replicate n ' ' ++ x :: tail) = trim (x :: tail) :=
    trim_append (fun c hc => by rw [List.eq_of_mem_replicate hc]; rfl) _
  rw [headerValue, hblanks, hcut]
  exact congrArg some ((congrArg trim htake).trans htrim)

/-! ## The rules about the header -/

theorem ofHeader_executable (ext : String) : ofHeader ("EXECUTABLE_ATTACHMENT" ++ ext) = false := by
  rw [ofHeader, Bool.not_eq_false', List.isPrefixOf_iff_prefix, String.toList_append]
  exact List.prefix_append _ _

theorem ofHeader_text (r : Rule) : ofHeader r.text = r.ofHeader := by
  cases r with
  | executableAttachment ext => exact ofHeader_executable ext
  | _ => decide

theorem Rule.text_injective : Function.Injective Rule.text := by
  intro r r' h
  have hsort := congrArg Spam.ofHeader h
  rw [ofHeader_text, ofHeader_text] at hsort
  cases r <;> cases r' <;> first
    | rfl
    | exact congrArg _ ((String.append_right_inj _).mp h)
    | exact absurd h (by decide)
    | cases hsort

theorem hasHeader_iff {name : String} {msg : List Char} :
    hasHeader name msg = true ↔ '\n' :: name.toList ++ [':'] <:+: msg := by
  rw [hasHeader, Bool.or_eq_true, contains_iff, contains_iff, or_iff_left_iff_imp]
  exact fun h => (List.suffix_cons '\r' _).isInfix.trans h

/-- The rule about a name that is not there. -/
def missing : String → Rule
  | "Date" => .missingDate
  | "Message-ID" => .missingMessageId
  | _ => .noReceivedHeaders

section Rules

variable {F : Type} {ops : F32Ops F} {U : Letters}

theorem missing_mem_matched {name : String} (h : name ∈ ["Date", "Message-ID", "Received"])
    {msg : List Char} {subject : Option (List Char)} :
    missing name ∈ matched U msg subject ↔ hasHeader name msg = false := by
  have hmem : name = "Date" ∨ name = "Message-ID" ∨ name = "Received" := by simpa using h
  rcases hmem with rfl | rfl | rfl <;> cases subject <;>
    simp [missing, matched]

theorem punctuation_mem_matched {msg : List Char} {subject : Option (List Char)} :
    .excessivePunctuation ∈ matched U msg subject ↔
      ∃ subj ∈ subject, 3 < (subj.filter fun c => c = '!' || c = '?').length := by
  cases subject <;> simp [matched]

theorem filter_executables (ext : Option String) :
    (ext.toList.map Rule.executableAttachment).filter Rule.ofHeader = [] := by
  cases ext <;> rfl

/-- What the rules about the header depend on. -/
theorem matched_congr {msg msg' : List Char}
    (h : ∀ name ∈ ["Date", "Message-ID", "Received"], hasHeader name msg = hasHeader name msg')
    (subject : Option (List Char)) : (matched U msg subject).filter Rule.ofHeader =
      (matched U msg' subject).filter Rule.ofHeader := by
  simp only [List.forall_mem_cons] at h
  obtain ⟨hdate, hid, hreceived, -⟩ := h
  simp only [matched, List.filter_append, hdate, hid, hreceived, filter_executables]

theorem headerRules_eq (raw : List UInt8) : headerRules ops U raw =
    (extractHeader (Utf8.fromUtf8Lossy raw) "Subject").map fun subject =>
      ((matched U (Utf8.fromUtf8Lossy raw) subject).filter Rule.ofHeader).map Rule.text := by
  rw [headerRules, checkMessage, Option.map_map]
  refine congrArg (Option.map · _) (funext fun subject => ?_)
  rw [Function.comp_apply, List.filter_map]
  exact congrArg (List.map Rule.text) (List.filter_congr fun r _ => ofHeader_text r)

theorem checkMessage_eq_none {raw : List UInt8} :
    checkMessage ops U raw = none ↔ extractHeader (Utf8.fromUtf8Lossy raw) "Subject" = none := by
  rw [checkMessage, Option.map_eq_none_iff]

/-- The subject behind a line break of two characters. -/
theorem extractHeader_of_find {msg rest : List Char}
    (h : findAfter "\r\nSubject:".toList msg = some rest) :
    extractHeader msg "Subject" = (headerValue rest).map some := by
  have hneedle : '\r' :: '\n' :: "Subject".toList ++ [':'] = "\r\nSubject:".toList := rfl
  rw [extractHeader, hneedle, h]
  rfl

end Rules

/-! ## What is in the text of a section -/

/-- In the text of the section are, behind a line feed, the names that the rules look for. Behind
the first `Subject:` that has CR LF before it, something is not blank; and what is as many bytes
behind the colon as there are blank characters, up to the end of the line, is the subject. -/
structure LegibleText (ls : List (List Char)) : Prop where
  named : ∀ name ∈ ["Date", "Message-ID", "Received"],
    '\n' :: name.toList ++ [':'] <:+: sectionText ls
  subject : ∃ front value,
    findAfter "\r\nSubject:".toList (sectionText ls) = some (front ++ value) ∧
    (∃ c ∈ front ++ value, isWhitespace c = false) ∧ byteLength front = blanks (front ++ value) ∧
    subjectField ls = some (trim (value.takeWhile (· ≠ '\n')))

/-- In a legible section the subject of the text is that of the section. -/
theorem LegibleText.extract {text : List Char} (h : LegibleText (headerLines text)) :
    extractHeader text "Subject" = some (subjectField (headerLines text)) := by
  obtain ⟨front, value, hfind, hvisible, hfront, hfield⟩ := h.subject
  obtain ⟨line, hline, hfound⟩ := find_text rfl hfind
  have hvalue : headerValue (line ++ ['\n']) = some (trim (value.takeWhile (· ≠ '\n'))) := by
    rw [← hline, headerValue, ← hfront, split?_append]
    rfl
  have hline' : ∃ c ∈ line, isWhitespace c = false := by
    obtain ⟨c, hc, hblank⟩ := hvisible
    rw [hline, List.mem_append, List.mem_singleton] at hc
    rcases hc with hc | rfl
    · exact ⟨c, hc, hblank⟩
    · cases hblank
  rw [headerValue_line hline'] at hvalue
  rcases hfound with hfound | ⟨more, hfound⟩
  · rw [extractHeader_of_find hfound, hvalue, hfield]
    rfl
  · rw [extractHeader_of_find hfound, headerValue_line hline', hvalue, hfield]
    rfl

theorem LegibleText.hasHeader {text : List Char} (h : LegibleText (headerLines text))
    {name : String} (hname : name ∈ ["Date", "Message-ID", "Received"]) : hasHeader name text = true := by
  have hfind := contains_iff.mpr (h.named name hname)
  obtain ⟨rest, hrest⟩ := Option.isSome_iff_exists.mp hfind
  obtain ⟨line, -, hfound⟩ := find_text List.getLast?_concat hrest
  rw [hasHeader_iff, ← contains_iff, contains]
  rcases hfound with hfound | ⟨more, hfound⟩ <;> rw [hfound] <;> rfl

section Reads

variable {F : Type} {ops : F32Ops F} {U : Letters}

/-- **A legible section** is read, whatever the body is. -/
theorem LegibleText.readsHeader {raw : List UInt8}
    (h : LegibleText (headerLines (Utf8.fromUtf8Lossy raw))) : ReadsHeader ops U raw := by
  refine ⟨fun hnone => ?_, h.extract, fun raw' hsame => ?_⟩
  · rw [checkMessage_eq_none, h.extract] at hnone
    cases hnone
  · have h' := h
    rw [← hsame] at h'
    rw [headerRules_eq, headerRules_eq, h.extract, h'.extract, hsame]
    refine congrArg (some ∘ List.map Rule.text) (matched_congr (fun name hname => ?_) _)
    rw [h.hasHeader hname, h'.hasHeader hname]

/-! ## Other bodies -/

/-- Behind the text, all bodies get one verdict. -/
def OneVerdict (U : Letters) (text : List Char) : Prop := ∀ body body' : List Char,
  ∃ subject subject', extractHeader (text ++ '\r' :: '\n' :: body) "Subject" = some subject ∧
    extractHeader (text ++ '\r' :: '\n' :: body') "Subject" = some subject' ∧
    ∀ r : Rule, r.ofHeader = true →
      (r ∈ matched U (text ++ '\r' :: '\n' :: body) subject ↔
        r ∈ matched U (text ++ '\r' :: '\n' :: body') subject')

theorem ReadsHeader.oneVerdict {raw : List UInt8} (h : ReadsHeader ops U raw) :
    OneVerdict U (sectionText (headerLines (Utf8.fromUtf8Lossy raw))) := by
  obtain ⟨rules, hrules⟩ : ∃ rules, headerRules ops U raw = some rules := by
    refine Option.ne_none_iff_exists'.mp ?_
    rw [headerRules, Ne, Option.map_eq_none_iff]
    exact h.total
  have hbody : ∀ body : List Char, ∃ subject,
      extractHeader (sectionText (headerLines (Utf8.fromUtf8Lossy raw)) ++
        '\r' :: '\n' :: body) "Subject" = some subject ∧
      ((matched U (sectionText (headerLines (Utf8.fromUtf8Lossy raw)) ++
        '\r' :: '\n' :: body) subject).filter Rule.ofHeader).map Rule.text = rules := by
    intro body
    have hsame := h.body (Utf8.encode (sectionText (headerLines (Utf8.fromUtf8Lossy raw)) ++
      '\r' :: '\n' :: body)) (by
        rw [lossy_encode, headerLines_section fun l hl => isHeaderLine_of_mem hl])
    rw [hrules, headerRules_eq, lossy_encode] at hsame
    exact Option.map_eq_some_iff.mp hsame
  intro body body'
  obtain ⟨subject, hsubject, hmatched⟩ := hbody body
  obtain ⟨subject', hsubject', hmatched'⟩ := hbody body'
  refine ⟨subject, subject', hsubject, hsubject', fun r hr => ?_⟩
  have hiff := congrArg (r ∈ ·)
    (List.map_injective_iff.mpr Rule.text_injective (hmatched.trans hmatched'.symm))
  simpa [List.mem_filter, hr] using hiff

/-- A name that is not in the section is not there before an empty body either. -/
theorem not_infix_empty {needle text : List Char} (hlast : needle.getLast? = some ':')
    (h : ¬needle <:+: text) : ¬needle <:+: text ++ ['\r', '\n'] := by
  have hne : needle ≠ [] := by
    rintro rfl
    cases hlast
  have hcolon : ∀ {x : Char}, x ≠ ':' → ∀ a ∈ needle.getLast?, a ≠ x := by
    intro x hx a ha
    rw [hlast] at ha
    obtain rfl := Option.some.inj ha
    exact hx.symm
  intro hlong
  obtain ⟨rest, hrest⟩ := Option.isSome_iff_exists.mp (contains_iff.mpr hlong)
  rw [show text ++ ['\r', '\n'] = text ++ ['\r'] ++ ['\n'] by simp] at hrest
  obtain ⟨rest₁, -, hrest₁⟩ := findAfter_of_concat hne (hcolon (by decide)) hrest
  obtain ⟨rest₂, -, hrest₂⟩ := findAfter_of_concat hne (hcolon (by decide)) hrest₁
  exact h (contains_iff.mp (by rw [contains, hrest₂]; rfl))

section OtherBodies

variable {text : List Char} (h : OneVerdict U text)

include h

/-- **The names are in the section**: a body could have them. -/
theorem OneVerdict.named {name : String} (hname : name ∈ ["Date", "Message-ID", "Received"]) :
    '\n' :: name.toList ++ [':'] <:+: text := by
  by_contra hno
  obtain ⟨s, s', -, -, hsame⟩ := h [] (name.toList ++ [':'])
  have hheader : (missing name).ofHeader = true := by
    have hmem : name = "Date" ∨ name = "Message-ID" ∨ name = "Received" := by simpa using hname
    rcases hmem with rfl | rfl | rfl <;> rfl
  have hiff := hsame _ hheader
  rw [missing_mem_matched hname, missing_mem_matched hname] at hiff
  have hwithout : Spam.hasHeader name (text ++ ['\r', '\n']) = false := by
    rw [← Bool.not_eq_true, hasHeader_iff]
    exact not_infix_empty List.getLast?_concat hno
  have hwith : Spam.hasHeader name (text ++ '\r' :: '\n' :: (name.toList ++ [':'])) = true := by
    rw [hasHeader_iff]
    exact ⟨text ++ ['\r'], [], by simp⟩
  rw [hiff.mp hwithout] at hwith
  cases hwith

/-- Four exclamation marks more are not judged. -/
theorem OneVerdict.not_judged {body body' : List Char}
    (hloud : extractHeader (text ++ '\r' :: '\n' :: body) "Subject" = some (some "!!!!".toList))
    (hquiet : extractHeader (text ++ '\r' :: '\n' :: body') "Subject" = some (some "x".toList)) :
    False := by
  obtain ⟨s, s', hs, hs', hsame⟩ := h body body'
  obtain rfl := Option.some.inj (hloud.symm.trans hs)
  obtain rfl := Option.some.inj (hquiet.symm.trans hs')
  have hiff := hsame .excessivePunctuation rfl
  rw [punctuation_mem_matched, punctuation_mem_matched] at hiff
  obtain ⟨subj, hsubj, hcount⟩ := hiff.mp ⟨_, rfl, by decide⟩
  obtain rfl := Option.some.inj hsubj
  exact absurd hcount (by decide)

/-- **The subject is in the section**, and not blank: a body could be it. -/
theorem OneVerdict.subject : ∃ rest, findAfter "\r\nSubject:".toList text = some rest ∧
    ∃ c ∈ rest, isWhitespace c = false := by
  cases hfind : findAfter "\r\nSubject:".toList text with
  | none =>
    have hbehind : ∀ value, extractHeader (text ++ '\r' :: '\n' :: ("Subject:".toList ++ value))
        "Subject" = (headerValue value).map some := fun value =>
      extractHeader_of_find (findAfter_first (by decide) (findAfter_eq_none.mp hfind) value)
    exact (h.not_judged (hbehind "!!!!".toList) (hbehind "x".toList)).elim
  | some rest =>
    refine ⟨rest, rfl, ?_⟩
    by_contra hblank
    have hws : ∀ c ∈ rest ++ ['\r', '\n'], isWhitespace c = true := by
      intro c hc
      rcases List.mem_append.mp hc with hc | hc
      · by_contra hno
        exact hblank ⟨c, hc, Bool.eq_false_iff.mpr hno⟩
      · simp only [List.mem_cons, List.not_mem_nil, or_false] at hc
        rcases hc with rfl | rfl <;> rfl
    have hbehind : ∀ x tail, isWhitespace x = false → (∀ c ∈ x :: tail, c ≠ '\n') →
        extractHeader (text ++ '\r' :: '\n' ::
          (List.replicate (byteLength (rest ++ ['\r', '\n'])) ' ' ++ x :: tail)) "Subject" =
        some (some (trim (x :: tail))) := by
      intro x tail hx hline
      have hlong := findAfter_append hfind ('\r' :: '\n' ::
        (List.replicate (byteLength (rest ++ ['\r', '\n'])) ' ' ++ x :: tail))
      rw [extractHeader_of_find hlong]
      have hvalue := headerValue_blanks hws hx hline
      rw [List.append_assoc] at hvalue
      exact congrArg (Option.map some) hvalue
    exact (h.not_judged (hbehind '!' "!!!".toList rfl (by decide))
      (hbehind 'x' [] rfl (by decide))).elim

end OtherBodies

/-- The text of a section that is read. -/
theorem ReadsHeader.legibleText {raw : List UInt8} (h : ReadsHeader ops U raw) :
    LegibleText (headerLines (Utf8.fromUtf8Lossy raw)) := by
  refine ⟨fun name hname => h.oneVerdict.named hname, ?_⟩
  obtain ⟨rest, hfind, hvisible⟩ := h.oneVerdict.subject
  obtain ⟨line, rfl, hfound⟩ := find_text rfl hfind
  have hline : ∃ c ∈ line, isWhitespace c = false := by
    obtain ⟨c, hc, hblank⟩ := hvisible
    rw [List.mem_append, List.mem_singleton] at hc
    rcases hc with hc | rfl
    · exact ⟨c, hc, hblank⟩
    · cases hblank
  have hvalue : (headerValue line).map some =
      some (subjectField (headerLines (Utf8.fromUtf8Lossy raw))) := by
    rw [← h.subject]
    rcases hfound with hfound | ⟨more, hfound⟩
    · exact (extractHeader_of_find hfound).symm
    · rw [extractHeader_of_find hfound, headerValue_line hline]
  obtain ⟨subject, hsubject, hfield⟩ := Option.map_eq_some_iff.mp hvalue
  rw [← headerValue_line hline [], headerValue] at hsubject
  obtain ⟨⟨front, value⟩, hcut, rfl⟩ := Option.map_eq_some_iff.mp hsubject
  obtain ⟨hsplit, hlength⟩ := split?_eq_some.mp hcut
  refine ⟨front, value, ?_, ?_, ?_, hfield.symm⟩
  · rw [hsplit, hfind]
  · rwa [hsplit]
  · rw [hsplit, hlength]

end Reads

/-! ## Its lines -/

@[simp] theorem sectionText_cons (l : List Char) (ls : List (List Char)) :
    sectionText (l :: ls) = l ++ '\n' :: sectionText ls := by simp [sectionText]

/-- A needle without a line feed in it is at the front of the text if it is of the first line. -/
theorem prefix_line {needle l : List Char} (hneedle : '\n' ∉ needle) (rest : List Char) :
    needle <+: l ++ '\n' :: rest ↔ needle <+: l := by
  refine ⟨fun h => ?_, fun h => h.trans (List.prefix_append _ _)⟩
  rcases List.prefix_or_prefix_of_prefix h (List.prefix_append l _) with hpre | ⟨more, rfl⟩
  · exact hpre
  · rw [List.prefix_append_right_inj] at h
    cases more with
    | nil => simp
    | cons c more =>
      obtain ⟨rfl, -⟩ := List.cons_prefix_cons.mp h
      exact absurd (by simp) hneedle

/-- **A needle behind a line feed** starts a line that is not the first. -/
theorem infix_sectionText {needle : List Char} (hne : needle ≠ []) (hneedle : '\n' ∉ needle)
    {ls : List (List Char)} (h : ∀ l ∈ ls, '\n' ∉ l) :
    '\n' :: needle <:+: sectionText ls ↔ ∃ l ∈ ls.tail, needle <+: l := by
  have hskip : ∀ {l rest : List Char}, '\n' ∉ l →
      ('\n' :: needle <:+: l ++ '\n' :: rest ↔
        needle <+: rest ∨ '\n' :: needle <:+: rest) := by
    intro l rest hl
    induction l with
    | nil => rw [List.nil_append, List.infix_cons_iff, List.cons_prefix_cons, and_iff_right rfl]
    | cons c l ih =>
      rw [List.mem_cons, not_or] at hl
      rw [List.cons_append, List.infix_cons_iff, ih hl.2, List.cons_prefix_cons,
        or_iff_right fun hc => hl.1 hc.1]
  induction ls with
  | nil => simp [sectionText]
  | cons l ls ih =>
    rw [List.forall_mem_cons] at h
    rw [sectionText_cons, hskip h.1, List.tail_cons]
    refine (or_congr_right (ih h.2)).trans ?_
    cases ls with
    | nil => simpa [sectionText] using hne
    | cons s more => simp [prefix_line hneedle]

/-- A needle of CR, LF and more is at the end of a line, or behind it. -/
theorem findAfter_line {l : List Char} (hl : '\n' ∉ l) (needle rest : List Char) :
    findAfter ('\r' :: '\n' :: needle) (l ++ '\n' :: rest) =
      if l.getLast? = some '\r' ∧ needle <+: rest then some (rest.drop needle.length)
      else findAfter ('\r' :: '\n' :: needle) rest := by
  have hfeed : findAfter ('\r' :: '\n' :: needle) ('\n' :: rest) =
      findAfter ('\r' :: '\n' :: needle) rest := findAfter_cons (by simp)
  induction l with
  | nil => simp [hfeed]
  | cons c l ih =>
    rw [List.mem_cons, not_or] at hl
    cases l with
    | nil =>
      by_cases hfound : c = '\r' ∧ needle <+: rest
      · obtain ⟨rfl, more, rfl⟩ := hfound
        rw [if_pos ⟨rfl, List.prefix_append _ _⟩, List.drop_left]
        exact findAfter_of_prefix ('\r' :: '\n' :: needle) more
      · rw [if_neg (by simpa using hfound), ← hfeed]
        exact findAfter_cons fun hpre => hfound (by simpa [eq_comm] using hpre)
    | cons d l =>
      rw [List.getLast?_cons_cons, ← ih hl.2]
      refine findAfter_cons fun hpre => hl.2 ?_
      replace hpre : '\r' :: '\n' :: needle <+: c :: d :: (l ++ '\n' :: rest) := hpre
      simp only [List.cons_prefix_cons] at hpre
      exact List.mem_cons.mpr (.inl hpre.2.1)

/-- **The first `Subject:` after CR LF**, in the text and on its lines. -/
theorem findAfter_sectionText {ls : List (List Char)} (h : ∀ l ∈ ls, '\n' ∉ l) :
    findAfter "\r\nSubject:".toList (sectionText ls) = (behindSubject ls).map sectionText := by
  have hneedle : "\r\nSubject:".toList = '\r' :: '\n' :: "Subject:".toList := rfl
  rw [hneedle]
  induction ls with
  | nil => rfl
  | cons l ls ih =>
    rw [List.forall_mem_cons] at h
    have hrest := ih h.2
    rw [sectionText_cons, findAfter_line h.1, hrest]
    cases ls with
    | nil => simp [behindSubject, sectionText]
    | cons s more =>
      have hs : "Subject:".toList <+: sectionText (s :: more) ↔ "Subject:".toList <+: s := by
        rw [sectionText_cons]
        exact prefix_line (by decide) _
      simp only [behindSubject, hs]
      split_ifs with hfound
      · obtain ⟨-, tail, rfl⟩ := hfound
        simp
      · rfl

/-! ### Where their words start -/

section Words

variable {lines blank more : List (List Char)} {ws words : List Char}

/-- The text of lines that start with words. -/
theorem StartsWith.text (h : StartsWith lines blank ws words more) :
    sectionText lines = (sectionText blank ++ ws) ++ (words ++ '\n' :: sectionText more) := by
  rw [h.eq, sectionText_append, sectionText_cons]
  simp

/-- As many characters are blank as there are before the words. -/
theorem StartsWith.blanks_eq (h : StartsWith lines blank ws words more) :
    Spam.blanks (sectionText lines) = (sectionText blank ++ ws).length := by
  obtain ⟨x, hhead, hx⟩ := h.words
  have hnone : (sectionText blank ++ ws).findIdx? (fun c => !isWhitespace c) = none :=
    List.findIdx?_eq_none_iff.mpr fun c hc => by rw [h.blanks c hc]; rfl
  cases words with
  | nil => cases hhead
  | cons y tail =>
    obtain rfl := Option.some.inj hhead
    rw [h.text, Spam.blanks, List.findIdx?_append, hnone, List.cons_append, List.findIdx?_cons, hx]
    simp

/-- Lines that are not all blank start with words. -/
theorem exists_startsWith (h : ∃ c ∈ sectionText lines, isWhitespace c = false) :
    ∃ blank ws words more, StartsWith lines blank ws words more := by
  induction lines with
  | nil =>
    obtain ⟨c, hc, -⟩ := h
    cases hc
  | cons l ls ih =>
    by_cases hl : ∃ c ∈ l, isWhitespace c = false
    · refine ⟨[], l.takeWhile isWhitespace, l.dropWhile isWhitespace, ls, ?_, ?_, ?_⟩
      · rw [List.takeWhile_append_dropWhile]
        rfl
      · exact fun c hc => List.mem_takeWhile_imp hc
      · have hne : l.dropWhile isWhitespace ≠ [] := by
          obtain ⟨c, hc, hblank⟩ := hl
          exact fun hnil => by simp [List.dropWhile_eq_nil_iff.mp hnil c hc] at hblank
        exact ⟨_, List.head?_eq_some_head hne, by simpa using List.head_dropWhile_not _ hne⟩
    · obtain ⟨c, hc, hblank⟩ := h
      simp only [not_exists, not_and, Bool.not_eq_false] at hl
      rw [sectionText_cons, List.mem_append, List.mem_cons] at hc
      rcases hc with hc | rfl | hc
      · exact absurd (hl c hc) (by simp [hblank])
      · cases hblank
      · obtain ⟨blank, ws, words, more, hstarts⟩ := ih ⟨c, hc, hblank⟩
        refine ⟨l :: blank, ws, words, more, by rw [hstarts.eq]; rfl, fun c hc => ?_, hstarts.words⟩
        simp only [sectionText_cons, List.append_assoc, List.mem_append, List.mem_cons,
          List.cons_append] at hc
        rcases hc with hc | rfl | hc | hc
        · exact hl c hc
        · rfl
        · exact hstarts.blanks c (List.mem_append_left _ hc)
        · exact hstarts.blanks c (List.mem_append_right _ hc)

/-- A text that the lines begin with ends on one of them. -/
theorem cut_cases {front : List Char} (h : front <+: sectionText blank ++ ws) :
    (∃ cut, cut <+: ws ∧ front = sectionText blank ++ cut) ∨
      ∃ before l after cut, blank = before ++ l :: after ∧ cut <+: l ∧
        front = sectionText before ++ cut := by
  induction blank generalizing front with
  | nil => exact .inl ⟨front, h, rfl⟩
  | cons l blank ih =>
    rw [sectionText_cons, List.append_assoc] at h
    rcases List.prefix_or_prefix_of_prefix h (List.prefix_append l _) with hpre | ⟨tail, rfl⟩
    · exact .inr ⟨[], l, blank, front, rfl, hpre, rfl⟩
    rw [List.prefix_append_right_inj] at h
    cases tail with
    | nil => exact .inr ⟨[], l, blank, l, rfl, List.prefix_rfl, List.append_nil l⟩
    | cons c tail =>
      obtain ⟨rfl, htail⟩ := List.cons_prefix_cons.mp h
      rcases ih htail with ⟨cut, hcut, rfl⟩ | ⟨before, l', after, cut, rfl, hcut, rfl⟩
      · exact .inl ⟨cut, hcut, by simp⟩
      · exact .inr ⟨l :: before, l', after, cut, rfl, hcut, by simp⟩

theorem StartsWith.visible (h : StartsWith lines blank ws words more) :
    ∃ c ∈ sectionText lines, isWhitespace c = false := by
  obtain ⟨x, hhead, hx⟩ := h.words
  refine ⟨x, ?_, hx⟩
  rw [h.text]
  simp [List.mem_of_mem_head? hhead]

/-- The cut is among the blanks of the line: the words are read. -/
theorem StartsWith.read_words {cut : List Char}
    (h : StartsWith lines blank (cut ++ ws) words more) (hlines : ∀ l ∈ lines, '\n' ∉ l) :
    sectionText lines = (sectionText blank ++ cut) ++ (ws ++ (words ++ '\n' :: sectionText more)) ∧
      trim ((ws ++ (words ++ '\n' :: sectionText more)).takeWhile (· ≠ '\n')) = trim words := by
  have hline : '\n' ∉ cut ++ (ws ++ words) := hlines _ (by rw [h.eq]; simp)
  refine ⟨by rw [h.text]; simp, ?_⟩
  rw [← List.append_assoc, takeWhile_of_line fun hn => hline (List.mem_append_right _ hn),
    trim_append]
  exact fun c hc => h.blanks c (by simp [hc])

/-- The cut is on a blank line before: nothing is read. -/
theorem StartsWith.read_nothing {before after : List (List Char)} {cut rest : List Char}
    (h : StartsWith lines (before ++ (cut ++ rest) :: after) ws words more)
    (hlines : ∀ l ∈ lines, '\n' ∉ l) :
    ∃ tail, sectionText lines = (sectionText before ++ cut) ++ (rest ++ '\n' :: tail) ∧
      trim ((rest ++ '\n' :: tail).takeWhile (· ≠ '\n')) = [] := by
  have hline : '\n' ∉ cut ++ rest := hlines _ (by rw [h.eq]; simp)
  have hblank : ∀ c ∈ rest, isWhitespace c = true := fun c hc => h.blanks c (by
    simp [sectionText_append, hc])
  refine ⟨sectionText after ++ ws ++ (words ++ '\n' :: sectionText more), ?_, ?_⟩
  · rw [h.text, sectionText_append]
    simp
  · rw [takeWhile_of_line fun hn => hline (List.mem_append_right _ hn), ← List.append_nil rest,
      trim_append hblank]
    rfl

/-- **What is read in lines**, in their text. -/
theorem readIn_iff (hlines : ∀ l ∈ lines, '\n' ∉ l) {value : List Char} :
    ReadIn lines value ↔ ∃ front rest, sectionText lines = front ++ rest ∧
      (∃ c ∈ front ++ rest, isWhitespace c = false) ∧ byteLength front = blanks (front ++ rest) ∧
      value = trim (rest.takeWhile (· ≠ '\n')) := by
  constructor
  · intro h
    cases h with
    | words starts hcut bytes =>
      obtain ⟨ws, rfl⟩ := hcut
      obtain ⟨htext, hvalue⟩ := starts.read_words hlines
      refine ⟨_, _, htext, ?_, ?_, hvalue.symm⟩
      · exact htext ▸ starts.visible
      · rw [← htext, starts.blanks_eq, bytes]
    | nothing starts hcut bytes =>
      obtain ⟨rest, rfl⟩ := hcut
      obtain ⟨tail, htext, hvalue⟩ := starts.read_nothing hlines
      refine ⟨_, _, htext, ?_, ?_, hvalue.symm⟩
      · exact htext ▸ starts.visible
      · rw [← htext, starts.blanks_eq, bytes]
  · rintro ⟨front, rest, htext, hvisible, hbytes, rfl⟩
    rw [← htext] at hvisible hbytes
    obtain ⟨blank, ws, words, more, hstarts⟩ := exists_startsWith hvisible
    rw [hstarts.blanks_eq] at hbytes
    -- the bytes are no more than those of the blanks
    have hfront : front <+: sectionText blank ++ ws := by
      have hpre : front <+: sectionText lines := ⟨rest, htext.symm⟩
      rw [hstarts.text] at hpre
      rcases List.prefix_or_prefix_of_prefix hpre (List.prefix_append _ _) with h | ⟨d, rfl⟩
      · exact h
      · have hle := length_le_byteLength (sectionText blank ++ ws)
        rw [byteLength_append] at hbytes
        have hd : d = [] := byteLength_eq_zero.mp (by omega)
        rw [hd, List.append_nil]
    rcases cut_cases hfront with ⟨cut, hcut, rfl⟩ | ⟨before, l, after, cut, rfl, hcut, rfl⟩
    · have hread := ReadIn.words hstarts hcut hbytes
      obtain ⟨ws, rfl⟩ := hcut
      obtain ⟨htext', hvalue⟩ := hstarts.read_words hlines
      rwa [List.append_cancel_left (htext.symm.trans htext'), hvalue]
    · have hread := ReadIn.nothing hstarts hcut hbytes
      obtain ⟨l, rfl⟩ := hcut
      obtain ⟨tail, htext', hvalue⟩ := hstarts.read_nothing hlines
      rwa [List.append_cancel_left (htext.symm.trans htext'), hvalue]

end Words

theorem behindSubject_lines {ls lines : List (List Char)} (h : ∀ l ∈ ls, '\n' ∉ l)
    (hlines : behindSubject ls = some lines) : ∀ l ∈ lines, '\n' ∉ l := by
  induction ls with
  | nil => cases hlines
  | cons l ls ih =>
    rw [List.forall_mem_cons] at h
    cases ls with
    | nil => cases hlines
    | cons s more =>
      rw [behindSubject] at hlines
      split_ifs at hlines
      · obtain rfl := Option.some.inj hlines
        rw [List.forall_mem_cons] at h ⊢
        exact ⟨fun hn => h.2.1 (List.mem_of_mem_drop hn), h.2.2⟩
      · exact ih h.2 hlines

/-- On the lines of a section, the same as on its text. -/
theorem legible_iff {ls : List (List Char)} (h : ∀ l ∈ ls, '\n' ∉ l) :
    Legible ls ↔ LegibleText ls := by
  have hnamed : ∀ name ∈ ["Date", "Message-ID", "Received"],
      '\n' :: name.toList ++ [':'] <:+: sectionText ls ↔
        ∃ l ∈ ls.tail, name.toList ++ [':'] <+: l := by
    intro name hname
    refine infix_sectionText (by simp) ?_ h
    have hmem : name = "Date" ∨ name = "Message-ID" ∨ name = "Received" := by simpa using hname
    rcases hmem with rfl | rfl | rfl <;> decide
  have hfind := findAfter_sectionText h
  constructor
  · rintro ⟨hnames, lines, value, hlines, hread, hfield⟩
    refine ⟨fun name hname => (hnamed name hname).mpr (hnames name hname), ?_⟩
    obtain ⟨front, rest, htext, hvisible, hbytes, rfl⟩ :=
      (readIn_iff (behindSubject_lines h hlines)).mp hread
    exact ⟨front, rest, by rw [hfind, hlines, Option.map_some, htext], hvisible, hbytes, hfield⟩
  · rintro ⟨hnames, front, rest, htext, hvisible, hbytes, hfield⟩
    rw [hfind] at htext
    obtain ⟨lines, hlines, htext⟩ := Option.map_eq_some_iff.mp htext
    exact ⟨fun name hname => (hnamed name hname).mp (hnames name hname), lines, _, hlines,
      (readIn_iff (behindSubject_lines h hlines)).mpr ⟨front, rest, htext, hvisible, hbytes, rfl⟩,
      hfield⟩

/-- **What the spam rules read.** They do not panic, judge the subject of the header section and
leave the body alone exactly if the section is legible: the names they look for start lines of it,
and behind the first `Subject:` that starts a line after CR LF its subject is read. -/
theorem readsHeader_iff {F : Type} (ops : F32Ops F) (U : Letters) (raw : List UInt8) :
    ReadsHeader ops U raw ↔ Legible (headerLines (Utf8.fromUtf8Lossy raw)) := by
  rw [legible_iff fun l hl => (isHeaderLine_of_mem hl).1]
  exact ⟨ReadsHeader.legibleText, LegibleText.readsHeader⟩

/-- A no-break space behind the colon is one character, but two bytes. -/
theorem not_readsHeader_noBreakSpace :
    checkMessage exactOps ⟨Char.isAlpha, Char.isUpper, List.map Char.toLower⟩
        (Utf8.encode "From: a@b.example\r\nSubject:\u00a0hi\r\n\r\n".toList) = none ∧
      ¬ReadsHeader exactOps ⟨Char.isAlpha, Char.isUpper, List.map Char.toLower⟩
        (Utf8.encode "From: a@b.example\r\nSubject:\u00a0hi\r\n\r\n".toList) := by
  have hpanic : checkMessage exactOps ⟨Char.isAlpha, Char.isUpper, List.map Char.toLower⟩
      (Utf8.encode "From: a@b.example\r\nSubject:\u00a0hi\r\n\r\n".toList) = none := by
    rw [checkMessage_eq_none, lossy_encode]
    decide +kernel
  exact ⟨hpanic, fun h => h.total hpanic⟩

end Owney.Spam
