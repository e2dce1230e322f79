import Owney.Lib.HeaderLines
import Owney.Lib.Utf8Text
import Owney.BlobFiles
import Owney.IdentityKeys
import Owney.InboundDelivery
import Owney.OAuthStore

/-!
# The PGP pipeline

`pipeline.rs` of the crate `owney-pgp`: what is done to a message before it is signed and
sent (`outbound`), and after it was received (`inbound`).

Messages are bytes. Where the source goes through `String::from_utf8_lossy`, the model reads
the bytes as text the same way (`Utf8.fromUtf8Lossy`).

* `fieldsOf_outbound` — the From fields of what is sent are From fields of what was given.
* `inbound_raw` — what is stored is the plaintext of an armored block, or what was received.
-/

namespace Owney.Pipeline

open Headers Utf8 Keys

/-- Another error is no other answer. -/
theorem of_mapError_ok {ε ε' α : Type} {f : ε → ε'} {x : Except ε α} {a : α}
    (h : x.mapError f = .ok a) : x = .ok a := by
  cases x with
  | error e => cases h
  | ok b => exact congrArg Except.ok (Except.ok.inj h)

/-! ## What other crates provide -/

/-- `sequoia-openpgp`, base64 and BLAKE3, as far as the pipeline uses them. -/
structure Crates where
  Cert : Type
  /-- `Cert::from_bytes` -/
  fromBytes : List UInt8 → Except PgpError Cert
  /-- `public_der` -/
  publicDer : Cert → Except PgpError (List UInt8)
  fingerprint : Cert → String
  b64Encode : List UInt8 → String
  b64Decode : String → Except String (List UInt8)
  /-- `blake3::hash(..).to_hex()` -/
  blake3Hex : List UInt8 → String
  /-- the alphabets of base64 and of hexadecimal have no line ends in them -/
  b64Encode_plain : ∀ bytes, ∀ c ∈ (b64Encode bytes).toList, c ≠ '\r'
  blake3Hex_plain : ∀ bytes, ∀ c ∈ (blake3Hex bytes).toList, c ≠ '\r'

variable (P : Crates) (U : Unicode)

/-! ## Outbound -/

/-- `autocrypt::header`. -/
def autocryptHeader (email : String) (cert : P.Cert) (preferEncryptMutual : Bool) :
    Except PgpError String := do
  let der ← P.publicDer cert
  let prefer := if preferEncryptMutual then "prefer-encrypt=mutual; " else ""
  return "addr=" ++ (email ++ ("; " ++ (prefer ++ ("keydata=" ++ P.b64Encode der))))

/-- `KEEP`. -/
def keep : List String :=
  ["from:", "to:", "cc:", "subject:", "date:", "message-id:", "references:"]

/-- Whether a line starts a header that is copied. -/
def keeps (line : TextLine) : Bool :=
  keep.any fun k => k.toList.isPrefixOf (U.toLowercase (String.ofList line)).toList

/-- `copy_routing_headers`. -/
def copyRoutingHeaders (raw : List UInt8) : List Char :=
  unlines (keepFields (keeps U) false (lines (headerSection (fromUtf8Lossy raw))))

/-- `prepend_header`. -/
def prependHeader (raw : List UInt8) (name value : String) : List UInt8 :=
  encode (name ++ (": " ++ (value ++ "\r\n"))).toList ++ raw

/-- What an outbound message draws from outside: the own certificate, the peers' rows, and the
encryption, which is randomised. -/
structure OutboundCalls where
  ownCert : Except PgpError P.Cert
  /-- `Storage::pgp_peer`, its `cert` column -/
  pgpPeer : String → Except PgpError (Option (List UInt8))
  /-- `ops::encrypt_and_sign` -/
  encryptAndSign : P.Cert → List P.Cert → List UInt8 → Except PgpError (List UInt8)

/-- The headers of a PGP/MIME message after the copied ones. -/
def mimeHeaders (boundary autocrypt : String) : List TextLine :=
  [("Autocrypt: " ++ autocrypt).toList, "MIME-Version: 1.0".toList,
    "Content-Type: multipart/encrypted; protocol=\"application/pgp-encrypted\";".toList,
    ("\tboundary=\"" ++ (boundary ++ "\"")).toList]

/-- The body of a PGP/MIME message. -/
def mimeBody (boundary armored : String) : List TextLine :=
  [("--" ++ boundary).toList, "Content-Type: application/pgp-encrypted".toList, [],
    "Version: 1".toList, ("--" ++ boundary).toList,
    "Content-Type: application/octet-stream; name=\"encrypted.asc\"".toList, [],
    armored.toList, ("--" ++ (boundary ++ "--")).toList]

variable {P}

/-- `encrypt_pgp_mime`. -/
def encryptPgpMime (x : OutboundCalls P) (sender : P.Cert) (recipients : List P.Cert)
    (autocrypt : String) (raw : List UInt8) : Except PgpError (List UInt8) := do
  let ciphertext ← x.encryptAndSign sender recipients raw
  let armored ← match String.fromUTF8? ciphertext.toByteArray with
    | some armored => .ok armored
    | none => .error (.openPgp "invalid utf-8 sequence")
  let boundary := "pgpmime-" ++ P.blake3Hex raw
  return encode (copyRoutingHeaders U raw ++ (unlines (mimeHeaders boundary autocrypt) ++
    (crlf ++ unlines (mimeBody boundary armored))))

/-- The loop over the recipients: their certificates, or none as soon as one is missing. -/
def recipientCerts (x : OutboundCalls P) (certs : List P.Cert) :
    List String → Except PgpError (List P.Cert)
  | [] => .ok certs
  | recipient :: recipients => do
    match ← x.pgpPeer recipient with
    | some bytes =>
      match P.fromBytes bytes with
      | .ok cert => recipientCerts x (certs ++ [cert]) recipients
      | .error _ => return []
    | none => return []

/-- `pipeline::outbound`. -/
def outbound (x : OutboundCalls P) (mailFrom : String) (recipients : List String)
    (raw : List UInt8) : Except PgpError (List UInt8) := do
  let cert ← x.ownCert
  let autocrypt ← autocryptHeader P mailFrom cert true
  let certs ← recipientCerts x [] recipients
  if certs.length = recipients.length ∧ recipients ≠ [] then
    match encryptPgpMime U x cert certs autocrypt raw with
    | .ok encrypted => return encrypted
    -- never fail delivery because encryption was impossible
    | .error _ => return prependHeader raw "Autocrypt" autocrypt
  else return prependHeader raw "Autocrypt" autocrypt

/-! ## The From fields of what is sent -/

/-- The fields of a message with a name. Lines end at CRLF here; a reader that also ends them at
a bare line feed may find fields inside of these. -/
def fieldsOf (name : String) (raw : List UInt8) : List (List TextLine) :=
  fields (named name) (header (fromUtf8Lossy raw))

/-- What stands between angle brackets in a field. -/
def angleText (field : List TextLine) : String :=
  String.ofList ((field.flatten.dropWhile (· ≠ '<')).tail.takeWhile (· ≠ '>'))

/-- A parser that reads the first From and the first Message-ID, with a sum of the bytes for their
hash. -/
def readMessage (raw : List UInt8) : RawMessage :=
  ⟨some ⟨(fieldsOf "message-id" raw).head?.map angleText, none,
    (fieldsOf "from" raw).head?.map angleText, [], none⟩, raw.length,
    ⟨BitVec.ofNat 256 (raw.map UInt8.toNat).sum⟩⟩

/-- The fields with a name in the text before the first CRLFCRLF, which is where
`copy_routing_headers` looks for them. -/
def sectionFieldsOf (name : String) (raw : List UInt8) : List (List TextLine) :=
  fields (named name) (lines (headerSection (fromUtf8Lossy raw)))

theorem fieldsOf_subset (name : String) (raw : List UInt8) :
    fieldsOf name raw ⊆ sectionFieldsOf name raw := by
  rw [fieldsOf, ← header_headerSection]
  exact fields_takeWhile _ _

/-- A header in front adds its own field only. -/
theorem fieldsOf_prependHeader {field name value : String} (raw : List UInt8)
    (hwhole : '\r' ∉ (name ++ (": " ++ value)).toList)
    (hname : ¬named field (name ++ (": " ++ value)).toList)
    (hne : (name ++ (": " ++ value)).toList ≠ []) :
    fieldsOf field (prependHeader raw name value) = fieldsOf field raw := by
  have htext : (name ++ (": " ++ (value ++ "\r\n"))).toList =
      unlines [(name ++ (": " ++ value)).toList] := by
    simp [unlines, crlf, String.toList_append]
  rw [fieldsOf, prependHeader, htext, fromUtf8Lossy_append, header_unlines, List.singleton_append,
    fields_cons_of_not hname, fieldsOf]
  · intro l hl
    obtain rfl := List.mem_singleton.mp hl
    exact ⟨whole_of_not_mem hwhole, hne⟩

theorem autocryptHeader_plain {email : String} {cert : P.Cert} {prefer : Bool} {value : String}
    (h : autocryptHeader P email cert prefer = .ok value) (hemail : '\r' ∉ email.toList) :
    '\r' ∉ value.toList := by
  cases hder : P.publicDer cert with
  | error e =>
    rw [autocryptHeader, hder] at h
    cases h
  | ok der =>
    rw [autocryptHeader, hder] at h
    obtain rfl := Except.ok.inj h
    have hb64 : '\r' ∉ (P.b64Encode der).toList := fun hc => P.b64Encode_plain der _ hc rfl
    cases prefer <;> simp [String.toList_append, hemail, hb64]

/-- The From fields of a PGP/MIME message are copied ones. -/
theorem fieldsOf_encryptPgpMime {x : OutboundCalls P} {sender : P.Cert} {certs : List P.Cert}
    {autocrypt : String} {raw out : List UInt8} (hplain : '\r' ∉ autocrypt.toList)
    (h : encryptPgpMime U x sender certs autocrypt raw = .ok out) :
    fieldsOf "from" out ⊆ sectionFieldsOf "from" raw := by
  simp only [encryptPgpMime, bind, Except.bind] at h
  split at h
  · cases h
  rename_i ciphertext _
  cases harmored : String.fromUTF8? ciphertext.toByteArray with
  | none =>
    rw [harmored] at h
    cases h
  | some armored =>
    rw [harmored] at h
    obtain rfl := Except.ok.inj h
    have hboundary : '\r' ∉ (P.blake3Hex raw).toList := fun hc => P.blake3Hex_plain raw _ hc rfl
    have hwhole : ∀ l ∈ keepFields (keeps U) false (lines (headerSection (fromUtf8Lossy raw))) ++
        mimeHeaders ("pgpmime-" ++ P.blake3Hex raw) autocrypt, Whole l := by
      intro l hl
      rcases List.mem_append.mp hl with hl | hl
      · exact whole_of_mem_lines (keepFields_subset _ _ _ hl)
      · refine whole_of_not_mem ?_
        simp only [mimeHeaders, List.mem_cons, List.not_mem_nil, or_false] at hl
        rcases hl with rfl | rfl | rfl | rfl
        · simp [String.toList_append, hplain]
        · decide
        · decide +kernel
        · simp [String.toList_append, hboundary]
    have hmime : fields (named "from") (mimeHeaders ("pgpmime-" ++ P.blake3Hex raw) autocrypt) =
        [] := by
      refine fields_eq_nil fun l hl => ?_
      simp only [mimeHeaders, List.mem_cons, List.not_mem_nil, or_false] at hl
      rcases hl with rfl | rfl | rfl | rfl <;> simp [named, String.toList_append]
    rw [fieldsOf, ← List.append_nil (encode _), fromUtf8Lossy_append, copyRoutingHeaders,
      ← List.append_assoc, ← unlines_append, List.append_assoc, List.append_assoc,
      header_unlines_crlf hwhole]
    refine List.Subset.trans (fields_takeWhile _ _) ?_
    rw [mimeHeaders, fields_append _ _ (by simp [continues, String.toList_append]),
      ← mimeHeaders, hmime, List.append_nil]
    exact fields_keepFields _ _ _ _

/-- **The From fields of what is sent** are From fields of what was given, if the envelope
sender has no line end in it. -/
theorem fieldsOf_outbound {x : OutboundCalls P} {mailFrom : String} {recipients : List String}
    {raw out : List UInt8} (hmail : '\r' ∉ mailFrom.toList)
    (h : outbound U x mailFrom recipients raw = .ok out) :
    fieldsOf "from" out ⊆ sectionFieldsOf "from" raw := by
  simp only [outbound, bind, Except.bind] at h
  split at h
  · cases h
  rename_i cert _
  cases hautocrypt : autocryptHeader P mailFrom cert true with
  | error e =>
    rw [hautocrypt] at h
    cases h
  | ok autocrypt =>
    have hplain := autocryptHeader_plain hautocrypt hmail
    have hclear : fieldsOf "from" (prependHeader raw "Autocrypt" autocrypt) ⊆
        sectionFieldsOf "from" raw := by
      rw [fieldsOf_prependHeader raw]
      · exact fieldsOf_subset "from" raw
      · simp [String.toList_append, hplain]
      · simp [named, String.toList_append]
      · simp [String.toList_append]
    rw [hautocrypt] at h
    simp only at h
    split at h
    · cases h
    rename_i certs _
    split_ifs at h
    · cases hencrypt : encryptPgpMime U x cert certs autocrypt raw with
      | ok encrypted =>
        rw [hencrypt] at h
        obtain rfl := Except.ok.inj h
        exact fieldsOf_encryptPgpMime U hplain hencrypt
      | error e =>
        rw [hencrypt] at h
        obtain rfl := Except.ok.inj h
        exact hclear
    · obtain rfl := Except.ok.inj h
      exact hclear

/-! ## The Autocrypt header -/

/-- `autocrypt::ParsedHeader`. -/
structure ParsedHeader (P : Crates) where
  addr : String
  preferEncrypt : Option String
  cert : P.Cert

/-- The attributes of the header that were read so far. -/
structure Attributes where
  addr : Option String := none
  preferEncrypt : Option String := none
  keydata : Option String := none
  deriving DecidableEq, Repr

/-- `str::split_once`. -/
def splitOnce (c : Char) (s : String) : Option (String × String) :=
  if c ∈ s.toList then
    some (String.ofList (s.toList.takeWhile (· ≠ c)),
      String.ofList (s.toList.dropWhile (· ≠ c)).tail)
  else none

/-- The body of the loop over the attributes. -/
def readAttribute (attributes : Attributes) (text : String) : Except PgpError Attributes :=
  match splitOnce '=' text with
  | none => .ok attributes
  | some (key, val) =>
    let key := U.trim key
    if key = "addr" then
      .ok { attributes with addr := some (U.toLowercase (U.trim val)) }
    else if key = "prefer-encrypt" then
      .ok { attributes with preferEncrypt := some (U.trim val) }
    else if key = "keydata" then
      .ok { attributes with
        keydata := some (String.ofList (val.toList.filter fun c => !isWhitespace c)) }
    else if key = "" ∨ ['_'].isPrefixOf key.toList then .ok attributes
    else .error (.openPgp ("unknown critical autocrypt attribute " ++ key))

/-- `autocrypt::parse_header`. -/
def parseHeader (value : String) : Except PgpError (ParsedHeader P) := do
  let attributes ← ((value.toList.splitOn ';').map String.ofList).foldlM (readAttribute U) {}
  let addr ← attributes.addr.elim (.error (.openPgp "autocrypt: no addr")) .ok
  let keydata ← attributes.keydata.elim (.error (.openPgp "autocrypt: no keydata")) .ok
  let der ← (P.b64Decode keydata).mapError fun e => .openPgp ("autocrypt keydata: " ++ e)
  let cert ← P.fromBytes der
  return ⟨addr, attributes.preferEncrypt, cert⟩

/-! ## Inbound -/

/-- The text from the first occurrence of a marker on. -/
def fromFirst (marker : List Char) : List Char → Option (List Char)
  | [] => none
  | c :: cs => if marker.isPrefixOf (c :: cs) then some (c :: cs) else fromFirst marker cs

/-- The text up to the end of the first occurrence of a marker. -/
def upToFirst (marker : List Char) : List Char → Option (List Char)
  | [] => none
  | c :: cs =>
    if marker.isPrefixOf (c :: cs) then some marker else (upToFirst marker cs).map (c :: ·)

/-- `extract_armored`. -/
def extractArmored (raw : List UInt8) : Option String := do
  let text ← fromFirst "-----BEGIN PGP MESSAGE-----".toList (fromUtf8Lossy raw)
  let block ← upToFirst "-----END PGP MESSAGE-----".toList text
  return String.ofList block

/-- `ops::DecryptOutcome`. -/
structure DecryptOutcome where
  plaintext : List UInt8
  signature : String
  deriving DecidableEq, Repr

variable (P) in
/-- What an inbound message draws from outside: the parse of its header, the peers' rows, the
account's key and the blob store. -/
structure InboundCalls where
  /-- `mail_parser`: the address of the first From, and the text of the Autocrypt header -/
  headers : List UInt8 → Option (Option String × Option String)
  /-- `Storage::upsert_pgp_peer`, whether the key has changed -/
  upsertPgpPeer : String → List UInt8 → String → Option String → Except PgpError Bool
  /-- `Storage::pgp_peer`, its `cert` column -/
  pgpPeer : String → Except PgpError (Option (List UInt8))
  ownCert : Except PgpError P.Cert
  /-- `ops::decrypt_and_verify` -/
  decryptAndVerify : P.Cert → Option P.Cert → String → Except PgpError DecryptOutcome
  putBlob : List UInt8 → Except PgpError BlobId

/-- Harvest the Autocrypt header: the From address, and the key if it is this address's. -/
def harvest (x : InboundCalls P) (raw : List UInt8) :
    Except PgpError (Option String × Option P.Cert) :=
  match x.headers raw with
  | none => .ok (none, none)
  | some (fromAddr, none) => .ok (fromAddr, none)
  | some (fromAddr, some value) =>
    match parseHeader U value with
    | .error _ => .ok (fromAddr, none)
    | .ok parsed =>
      if fromAddr = some parsed.addr then do
        let der ← P.publicDer parsed.cert
        let _changed ← x.upsertPgpPeer parsed.addr der (P.fingerprint parsed.cert)
          parsed.preferEncrypt
        return (fromAddr, some parsed.cert)
      else .ok (fromAddr, none)

/-- The sender's key: harvested now, or known from before. -/
def senderCert (x : InboundCalls P) : Option String × Option P.Cert →
    Except PgpError (Option P.Cert)
  | (some addr, none) => do
    match ← x.pgpPeer addr with
    | some bytes => return (P.fromBytes bytes).toOption
    | none => return none
  | (_, cert) => .ok cert

/-- `pipeline::inbound`. -/
def inbound (x : InboundCalls P) (raw : List UInt8) : Except PgpError InboundOutcome := do
  let harvested ← harvest U x raw
  match extractArmored raw with
  | none => return ⟨raw, none⟩
  | some armored =>
    let sender ← senderCert x harvested
    let own ← x.ownCert
    match x.decryptAndVerify own sender armored with
    | .ok outcome =>
      -- keep the ciphertext retrievable
      let originalBlob ← x.putBlob raw
      return ⟨outcome.plaintext,
        some ("\x7b\"encrypted\":true,\"signature\":\"" ++ (outcome.signature ++
          ("\",\"original_blob\":\"" ++ (originalBlob.toHex ++ "\"\x7d"))))⟩
    | .error _ =>
      return ⟨raw, some "\x7b\"encrypted\":true,\"signature\":\"none\",\"undecryptable\":true\x7d"⟩

/-- What the first armored block of a message decrypts to under the account's key. -/
def plaintext (x : InboundCalls P) (raw : List UInt8) : Option (List UInt8) := do
  let armored ← extractArmored raw
  let harvested ← (harvest U x raw).toOption
  let sender ← (senderCert x harvested).toOption
  let own ← x.ownCert.toOption
  let outcome ← (x.decryptAndVerify own sender armored).toOption
  return outcome.plaintext

/-- **What is stored** is the plaintext, or what was received. -/
theorem inbound_raw {x : InboundCalls P} {raw : List UInt8} {out : InboundOutcome}
    (h : inbound U x raw = .ok out) : out.raw = (plaintext U x raw).getD raw := by
  simp only [inbound, bind, Except.bind] at h
  cases hharvest : harvest U x raw with
  | error e =>
    rw [hharvest] at h
    cases h
  | ok harvested =>
    rw [hharvest] at h
    cases harmored : extractArmored raw with
    | none =>
      rw [harmored] at h
      obtain rfl := Except.ok.inj h
      simp [plaintext, harmored]
    | some armored =>
      rw [harmored] at h
      cases hsender : senderCert x harvested with
      | error e =>
        simp only [hsender] at h
        cases h
      | ok sender =>
        cases hown : x.ownCert with
        | error e =>
          simp only [hsender, hown] at h
          cases h
        | ok own =>
          simp only [hsender, hown] at h
          cases hdecrypt : x.decryptAndVerify own sender armored with
          | error e =>
            rw [hdecrypt] at h
            obtain rfl := Except.ok.inj h
            simp [plaintext, harmored, hharvest, hsender, hown, hdecrypt, Except.toOption]
          | ok outcome =>
            rw [hdecrypt] at h
            cases hput : x.putBlob raw with
            | error e =>
              simp only [hput] at h
              cases h
            | ok originalBlob =>
              simp only [hput] at h
              obtain rfl := Except.ok.inj h
              simp [plaintext, harmored, hharvest, hsender, hown, hdecrypt, Except.toOption]

/-- Crates that know no key but the server's own, which is empty. -/
def keylessCrates : Crates where
  Cert := PUnit
  fromBytes _ := .error (.openPgp "malformed")
  publicDer _ := .ok []
  fingerprint _ := ""
  b64Encode _ := ""
  b64Decode _ := .error "no padding"
  blake3Hex _ := ""
  b64Encode_plain _ _ h := nomatch h
  blake3Hex_plain _ _ h := nomatch h

end Owney.Pipeline
