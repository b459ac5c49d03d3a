import SculkProtocol.Auth.Jsonc
import SculkProtocol.Ssl.Base64Url
import SculkProtocol.Utility.StringView

/-!
# The three-part text of a token

Login tokens, certificates and client properties are written alike: a header and a payload,
each a JSON object in Base64Url, and a signature, separated by dots. Their parsers differ in
the fields and in the texts of errors only, which a `TokenFormat` has.

`parse_joinDots` is about a token that was written: it is read back. `parse_ok` is about a
token that was read: its text is the join of the raw parts.
-/

namespace SculkProtocol

open StringView

/-- The fields of a kind of token and the texts of its parser. -/
structure TokenFormat (H P : Type) where
  /-- as the texts of errors name it -/
  subject : String
  /-- the text for a part and a field of it -/
  missing : String → String → String
  key : String → String
  /-- `alg`, which is read and checked before the other fields -/
  algFields : List (Field H)
  checkAlg : H → Except String Unit
  headerFields : List (Field H)
  payloadFields : List (Field P)
  noHeader : H
  noPayload : P

/-- A token that was read. -/
structure Token (H P : Type) where
  rawHeader : Bytes
  header : H
  rawPayload : Bytes
  payload : P
  signature : Bytes

/-- The JSON of a part. -/
def parseJson (J : Jsonc) (subject part : String) (raw : Bytes) : Except String J.Json :=
  match base64url.decodeChecked raw with
  | .error _ => .error ("Failed to decode " ++ subject ++ " " ++ part)
  | .ok text =>
    match J.parse text with
    | none => .error ("Failed to parse " ++ subject ++ " " ++ part ++ " JSON")
    | some json => .ok json

namespace TokenFormat

variable {H P : Type} (format : TokenFormat H P) (J : Jsonc)

def texts (part : String) : FieldTexts where
  missing := format.missing part
  failed name := "Failed to deserialize " ++ format.subject ++ " " ++ part ++
    " field '" ++ name ++ "'"
  key := format.key

def parseHeader (raw : Bytes) : Except String H := do
  let headerJson ← parseJson J format.subject "header" raw
  let header ← readFields J (format.texts "header") headerJson format.algFields format.noHeader
  format.checkAlg header
  readFields J (format.texts "header") headerJson format.headerFields header

def parsePayload (raw : Bytes) : Except String P := do
  let payloadJson ← parseJson J format.subject "payload" raw
  readFields J (format.texts "payload") payloadJson format.payloadFields format.noPayload

def parse (raw : Bytes) : Except String (Token H P) :=
  match splitDots raw with
  | none =>
    .error ("Invalid " ++ format.subject ++ " format: expected three parts separated by dots")
  | some (rawHeader, rawPayload, signature) => do
    let header ← format.parseHeader J rawHeader
    let payload ← format.parsePayload J rawPayload
    pure ⟨rawHeader, header, rawPayload, payload, signature⟩

/-! ### A token that was read -/

variable {format J}

/-- A part that is parsed has no dot and is not empty. -/
theorem parseJson_ok {subject part : String} {raw : Bytes} {json : J.Json}
    (h : parseJson J subject part raw = .ok json) : dot ∉ raw ∧ raw ≠ [] := by
  unfold parseJson at h
  split at h
  · exact absurd h (by simp)
  · next text htext =>
    exact ⟨base64url.decodeChecked_no_dot htext, base64url.decodeChecked_ne_nil htext⟩

/-- So it is for a header. -/
theorem parseHeader_ok {raw : Bytes} {header : H} (h : format.parseHeader J raw = .ok header) :
    dot ∉ raw ∧ raw ≠ [] := by
  obtain ⟨json, hjson, -⟩ := bind_eq_ok.mp h
  exact parseJson_ok hjson

/-- So it is for a payload. -/
theorem parsePayload_ok {raw : Bytes} {payload : P}
    (h : format.parsePayload J raw = .ok payload) : dot ∉ raw ∧ raw ≠ [] := by
  obtain ⟨json, hjson, -⟩ := bind_eq_ok.mp h
  exact parseJson_ok hjson

/-- What is read of a text: its parts are its raw parts, and they have no dots. -/
theorem parse_ok {raw : Bytes} {token : Token H P} (h : format.parse J raw = .ok token) :
    raw = joinDots token.rawHeader token.rawPayload token.signature ∧
      dot ∉ token.rawHeader ∧ dot ∉ token.rawPayload ∧ dot ∉ token.signature ∧
      format.parseHeader J token.rawHeader = .ok token.header ∧
      format.parsePayload J token.rawPayload = .ok token.payload := by
  unfold parse at h
  split at h
  · exact absurd h (by simp)
  · next rawHeader rawPayload signature hsplit =>
    obtain ⟨hraw, hheaderDot, hsignatureDot⟩ := splitDots_some hsplit
    obtain ⟨header, hheader, h⟩ := bind_eq_ok.mp h
    obtain ⟨payload, hpayload, h⟩ := bind_eq_ok.mp h
    cases h
    exact ⟨hraw, hheaderDot, (parsePayload_ok hpayload).1, hsignatureDot, hheader, hpayload⟩

/-- A text that is read has the raw parts it was joined from. -/
theorem parse_raw {rawHeader rawPayload signature : Bytes} {token : Token H P}
    (h : format.parse J (joinDots rawHeader rawPayload signature) = .ok token) :
    token.rawHeader = rawHeader ∧ token.rawPayload = rawPayload ∧ token.signature = signature := by
  obtain ⟨hraw, hheader, hpayload, hsignature, -⟩ := parse_ok h
  obtain ⟨rfl, rfl, rfl⟩ := joinDots_inj hheader hpayload hsignature hraw
  exact ⟨rfl, rfl, rfl⟩

/-! ### A token that was written -/

/-- A part is parsed from what is dumped. -/
theorem parseJson_encode (hJ : J.Lawful) {subject part : String} (json : J.Json) :
    parseJson J subject part (base64url.encode (J.dump json)) = .ok json := by
  simp only [parseJson, base64url.decodeChecked_encode (hJ.dump_ne_nil json), hJ.parse_dump]

variable {headerMembers payloadMembers : List (String × J.Json)} {header : H} {payload : P}

/-- A header is parsed from its fields. -/
theorem parseHeader_encode (hJ : J.Lawful) (hnodup : (headerMembers.map Prod.fst).Nodup)
    (hwritten : ∀ f ∈ format.algFields ++ format.headerFields,
      f.Written format.key header headerMembers)
    (hcopy : (format.algFields ++ format.headerFields).foldl (fun acc f => f.copy header acc)
      format.noHeader = header)
    (hcheck : format.checkAlg (format.algFields.foldl (fun acc f => f.copy header acc)
      format.noHeader) = .ok ()) :
    format.parseHeader J (base64url.encode (J.dump (J.object headerMembers))) = .ok header := by
  have halg : readFields J (format.texts "header") (J.object headerMembers) format.algFields
      format.noHeader = _ :=
    readFields_object hJ hnodup (fun f hf => hwritten f (List.mem_append_left _ hf)) _
  have hrest : readFields J (format.texts "header") (J.object headerMembers) format.headerFields
      (format.algFields.foldl (fun acc f => f.copy header acc) format.noHeader) = _ :=
    readFields_object hJ hnodup (fun f hf => hwritten f (List.mem_append_right _ hf)) _
  rw [← List.foldl_append, hcopy] at hrest
  rw [parseHeader, parseJson_encode hJ]
  simp only [bind, Except.bind, halg, hcheck, hrest]

/-- A payload is parsed from its fields. -/
theorem parsePayload_encode (hJ : J.Lawful) (hnodup : (payloadMembers.map Prod.fst).Nodup)
    (hwritten : ∀ f ∈ format.payloadFields, f.Written format.key payload payloadMembers)
    (hcopy : format.payloadFields.foldl (fun acc f => f.copy payload acc) format.noPayload =
      payload) :
    format.parsePayload J (base64url.encode (J.dump (J.object payloadMembers))) = .ok payload := by
  have hread : readFields J (format.texts "payload") (J.object payloadMembers)
      format.payloadFields format.noPayload = _ :=
    readFields_object hJ hnodup hwritten _
  rw [hcopy] at hread
  rw [parsePayload, parseJson_encode hJ]
  simp only [bind, Except.bind, hread]

/-- **A written token is read back.** -/
theorem parse_joinDots {rawHeader rawPayload signature : Bytes}
    (hheader : format.parseHeader J rawHeader = .ok header)
    (hpayload : format.parsePayload J rawPayload = .ok payload) (hsignature : dot ∉ signature) :
    format.parse J (joinDots rawHeader rawPayload signature)
      = .ok ⟨rawHeader, header, rawPayload, payload, signature⟩ := by
  rw [parse, splitDots_join (parseHeader_ok hheader).1 hsignature]
  simp only [bind, Except.bind, hheader, hpayload, pure, Except.pure]

end TokenFormat
end SculkProtocol
