import AiProxy.Lib.JsonDocument
import AiProxy.Mcp.SecretPatterns
import Mathlib.Data.List.Destutter
import Mathlib.Data.List.Infix

/-!
# The redactor of the MCP server

`redaction.rs`: names are classified, values under sensitive names are replaced, and the other
strings go through the patterns one after the other. A text that is one JSON document is redacted as
a value and printed again; any other text is redacted line by line and then as a whole.

A function that pushes redaction records returns those it pushes. The names and strings of a JSON
value are UTF-8 bytes; texts are lists of characters.
-/

namespace AiProxy.Mcp

open Json (Bytes Value fromStrString toValue)
open Utf8 (chars encode)

variable {N : Type}

/-- What the MCP server uses of `serde_json`, `regex`, `hmac`, `sha2` and the Unicode tables; `N` are
the numbers of `serde_json`. -/
structure Platform (N : Type) where
  unicode : Unicode
  /-- The document of a text as the deserializer presents it: the members of an object in order, a
  repeated name included. -/
  fromSlice : Bytes → Except Text (Value N)
  toString : Value N → Text
  numberToString : N → Text
  /-- `to_string` on the `i64`, `u64` or `f64` of a number. -/
  displayNumber : N → Text
  ofNat : Nat → N
  hmacSha256 : List UInt8 → List UInt8 → List UInt8
  sha256Hex : List UInt8 → Text
  /-- Whether a text is one document when its contents are ignored (`IgnoredAny`). -/
  isDocument : Bytes → Bool
  /-- The error of the builder for a literal that makes too large a program. -/
  literalError : Text → Option Text

def Platform.fromStr (p : Platform N) (text : Text) : Option (Value N) :=
  match p.fromSlice (encode text) with
  | .ok document => some (toValue document)
  | .error _ => none

def byteLen (t : Text) : Nat := (encode t).length

def redactedValue : Text := "[REDACTED]"

structure RedactionRecord where
  path : Text
  rule : Text
  action : Text
  deriving DecidableEq

def RedactionRecord.key (r : RedactionRecord) : List Text := [r.path, r.rule, r.action]

/-- What a `BTreeSet` holds after these insertions, in order. -/
def btreeSet (names : List Text) : List Text :=
  (names.mergeSort fun a b => !decide (b < a)).destutter (· ≠ ·)

structure RedactionOutput (α : Type) where
  value : α
  fields : List Text
  records : List RedactionRecord

def output {α : Type} (value : α) (records : List RedactionRecord) : RedactionOutput α :=
  let records := (records.mergeSort fun a b => !decide (b.key < a.key)).destutter (· ≠ ·)
  ⟨value, btreeSet (records.map (·.rule)), records⟩

inductive RedactionAction where
  | redact
  | hash

structure CompiledPattern where
  name : Text
  regex : Pattern
  action : RedactionAction

structure AgentAccessRedaction where
  detectSensitiveValues : Bool
  hashIdentifiers : Bool
  customSensitiveKeys : List Text

structure Redactor where
  hashKey : List UInt8
  redaction : AgentAccessRedaction
  customPatterns : List CompiledPattern

/-! ## Names -/

inductive Sensitivity where
  | secret
  | identifier
  | pii
  deriving DecidableEq

structure Classification where
  rule : Text
  sensitivity : Sensitivity
  deriving DecidableEq

def contains (name : Text) (part : String) : Bool := decide (part.toList <:+: name)

def endsWith (name : Text) (part : String) : Bool := decide (part.toList <:+ name)

def isSecretName (name : Text) : Bool :=
  ["authorization", "proxyauthorization", "cookie", "setcookie", "xapikey", "apikey", "xauthtoken",
      "xcsrftoken", "xxsrftoken", "accesstoken", "refreshtoken", "idtoken", "password", "passwd",
      "secret", "clientsecret", "privatekey", "csrf", "xsrf", "jwt", "pwd", "sig", "signature",
      "xamzsignature", "xgoogsignature", "authkey", "xauthkey"].any (fun s => name = s.toList) ||
    ["token", "password", "passwd", "secret", "privatekey", "apikey", "csrf"].any
      (contains name) ||
    ["signature", "sig", "authkey"].any (endsWith name) ||
    ["密码", "口令", "令牌", "密钥", "签名"].any (contains name)

def isIdentifierName (name : Text) : Bool :=
  ["session", "sessionid", "sessionkey", "userid", "uid", "deviceid", "advertisingid", "idfa",
    "idfv", "oaid", "imei", "androidid", "udid", "installid"].any fun s => name = s.toList

def isPiiName (normalized original : Text) : Bool :=
  ["email", "mail", "phone", "mobile", "address", "shipping", "receiver"].any
      (contains normalized) ||
    ["邮箱", "手机号", "收货地址"].any (contains original)

def trim (t : Text) : Text := ((t.dropWhile isWhitespace).reverse.dropWhile isWhitespace).reverse

def normalize (lower : Text) : Text :=
  lower.filter fun c => c.isAlphanum || !decide (c.toNat < 128)

def isCustomKey (r : Redactor) (lower normalized : Text) : Bool :=
  r.redaction.customSensitiveKeys.any fun key => key = lower || key = normalized

def classify (p : Platform N) (r : Redactor) (name : Text) : Option Classification :=
  let lower := p.unicode.toLowercase (trim name)
  let normalized := normalize lower
  if isCustomKey r lower normalized then some ⟨"custom:" ++ normalized, .secret⟩
  else if isSecretName normalized then some ⟨normalized, .secret⟩
  else if isIdentifierName normalized then some ⟨normalized, .identifier⟩
  else if isPiiName normalized lower then some ⟨normalized, .pii⟩
  else none

def isSensitiveName (p : Platform N) (r : Redactor) (name : Text) : Bool :=
  (classify p r name).isSome

/-! ## Strings -/

def hexDigit (n : Nat) : Char := "0123456789abcdef".toList.getD n '0'

def hexPrefix (bytes : List UInt8) (length : Nat) : Text :=
  (bytes.take length).flatMap fun b => [hexDigit (b.toNat / 16), hexDigit (b.toNat % 16)]

def pseudonym (p : Platform N) (r : Redactor) (kind value : Text) : Text :=
  '[' :: (kind ++ ':' :: (hexPrefix (p.hmacSha256 r.hashKey (encode kind ++ 0 :: encode value)) 8 ++
    [']']))

def isMatch (m : Pattern) (t : Text) : Bool :=
  (m.pieces t).any fun
    | .copy _ => false
    | .hit _ _ => true

def redactScalar (p : Platform N) (r : Redactor) (value path : Text) (c : Classification) :
    Text × List RedactionRecord :=
  let result : String × Text :=
    match c.sensitivity with
    | .secret => ("redact", redactedValue)
    | .identifier =>
      if r.redaction.hashIdentifiers then ("hash", pseudonym p r "ID" value)
      else ("redact", redactedValue)
    | .pii =>
      if r.redaction.hashIdentifiers && isMatch emailRegex.pattern value then
        ("hash", pseudonym p r "EMAIL" value)
      else if r.redaction.hashIdentifiers && isMatch (phoneRegex p.unicode).pattern value then
        ("hash", pseudonym p r "PHONE" value)
      else ("redact", redactedValue)
  (result.2, [⟨path, c.rule, result.1.toList⟩])

def decodeJsonKey (raw : Text) : Text :=
  match fromStrString (encode ('"' :: (raw ++ ['"']))) with
  | some key => chars key
  | none => raw

section Passes

variable (p : Platform N) (r : Redactor) (path : Text)

def replaceTextSecret (_ : Text) (group : Nat → Text) : Text × List RedactionRecord :=
  (group 1 ++ group 2 ++ redactedValue,
    [⟨path, p.unicode.toLowercase (group 1), "redact"⟩])

def replaceQuotedSecret (matched : Text) (group : Nat → Text) : Text × List RedactionRecord :=
  let lower := p.unicode.toLowercase (trim (decodeJsonKey (group 1)))
  let normalized := normalize lower
  let isCustom := isCustomKey r lower normalized
  if !isCustom && !isSecretName normalized then (matched, [])
  else
    ('"' :: (group 1 ++ '"' :: (group 2 ++ '"' :: (redactedValue ++ ['"']))),
      [⟨path, if isCustom then "custom:" ++ normalized else normalized, "redact"⟩])

def replaceBearer (_ : Text) (group : Nat → Text) : Text × List RedactionRecord :=
  (group 1 ++ redactedValue, [⟨path, "authorization", "redact"⟩])

def replaceJwt (_ : Text) (_ : Nat → Text) : Text × List RedactionRecord :=
  ("[REDACTED:jwt]", [⟨path, "jwt", "redact"⟩])

/-- The replacement of e-mail addresses and of telephone numbers. -/
def replaceDetected (rule kind : String) (matched : Text) (_ : Nat → Text) :
    Text × List RedactionRecord :=
  if r.redaction.hashIdentifiers then
    (pseudonym p r kind.toList matched, [⟨path, rule.toList, "hash"⟩])
  else (redactedValue, [⟨path, rule.toList, "redact"⟩])

def replaceCustom (pattern : CompiledPattern) (matched : Text) (_ : Nat → Text) :
    Text × List RedactionRecord :=
  match pattern.action with
  | .redact => (redactedValue, [⟨path, pattern.name, "redact"⟩])
  | .hash =>
    if r.redaction.hashIdentifiers then
      (pseudonym p r pattern.name matched, [⟨path, pattern.name, "hash"⟩])
    else (redactedValue, [⟨path, pattern.name, "redact"⟩])

abbrev Pass := Pattern × (Text → (Nat → Text) → Text × List RedactionRecord)

def passes : List Pass :=
  [((textSecretRegex p.unicode).pattern, replaceTextSecret p path),
    ((jsonQuotedSecretRegex p.unicode).pattern, replaceQuotedSecret p r path),
    (bearerRegex.pattern, replaceBearer path)] ++
  (if r.redaction.detectSensitiveValues then
    [((jwtRegex p.unicode).pattern, replaceJwt path),
      (emailRegex.pattern, replaceDetected p r path "email" "EMAIL"),
      ((phoneRegex p.unicode).pattern, replaceDetected p r path "phone" "PHONE")]
  else []) ++
  r.customPatterns.map fun pattern => (pattern.regex, replaceCustom p r path pattern)

end Passes

def runPasses : List Pass → Text → Text × List RedactionRecord
  | [], t => (t, [])
  | pass :: rest, t =>
    let replaced := pass.1.replaceAll pass.2 t
    let result := runPasses rest replaced.1
    (result.1, replaced.2 ++ result.2)

def redactStringInner (p : Platform N) (r : Redactor) (value path : Text) :
    Text × List RedactionRecord :=
  runPasses (passes p r path) value

/-- The value and the records of a member whose name is sensitive. -/
def redactJsonField (p : Platform N) (r : Redactor) (key : Bytes) (value : Value N) (path : Text) :
    Option (Value N × List RedactionRecord) :=
  (classify p r (chars key)).map fun c =>
    let rendered : Text × List RedactionRecord :=
      match value with
      | .string text => redactScalar p r (chars text) path c
      | .number number => redactScalar p r (p.numberToString number) path c
      | .bool boolean =>
        redactScalar p r (if boolean then "true" else "false") path c
      | .null => (redactedValue, [])
      | .array _ | .object _ => (redactedValue, [⟨path, c.rule, "redact"⟩])
    (.string (encode rendered.1), rendered.2)

section Values

variable (p : Platform N) (r : Redactor)

def indexPath (path : Text) (index : Nat) : Text :=
  path ++ '[' :: ((Nat.repr index).toList ++ [']'])

mutual

def redactJsonValueInner : Value N → Text → Value N × List RedactionRecord
  | .object members, path =>
    let result := redactObject members path
    (.object result.1, result.2)
  | .array items, path =>
    let result := redactItems items 0 path
    (.array result.1, result.2)
  | .string text, path =>
    let result := redactStringInner p r (chars text) path
    (.string (encode result.1), result.2)
  | .null, _ => (.null, [])
  | .bool b, _ => (.bool b, [])
  | .number n, _ => (.number n, [])

def redactItems : List (Value N) → Nat → Text → List (Value N) × List RedactionRecord
  | [], _, _ => ([], [])
  | item :: items, index, path =>
    let first := redactJsonValueInner item (indexPath path index)
    let rest := redactItems items (index + 1) path
    (first.1 :: rest.1, first.2 ++ rest.2)

def redactObject : List (Bytes × Value N) → Text → List (Bytes × Value N) × List RedactionRecord
  | [], _ => ([], [])
  | member :: members, path =>
    let first := redactMember member path
    let rest := redactObject members path
    (first.1 :: rest.1, first.2 ++ rest.2)

def redactMember : Bytes × Value N → Text → (Bytes × Value N) × List RedactionRecord
  | (key, value), path =>
    let next := path ++ '.' :: chars key
    let result := (redactJsonField p r key value next).getD (redactJsonValueInner value next)
    ((key, result.1), result.2)

end

end Values

/-- A line as what stands before the JSON object or array it carries, its text, and what follows. -/
def splitJsonSegment (line : Text) : Option (Text × Text × Text) :=
  let lead := line.takeWhile fun c => !"\x7b[".toList.contains c
  let rest := line.dropWhile fun c => !"\x7b[".toList.contains c
  if rest = [] then none
  else if 32 < byteLen lead then none
  else
    let trimmed := (rest.reverse.dropWhile fun c => "\r \t".toList.contains c).reverse
    some (lead, trimmed, rest.drop trimmed.length)

def redactJsonLine (p : Platform N) (r : Redactor) (line : Text) : Text × List RedactionRecord :=
  match splitJsonSegment line with
  | none => (line, [])
  | some (lead, candidate, trail) =>
    match p.fromStr candidate with
    | none => (line, [])
    | some value =>
      let result := redactJsonValueInner p r value "$"
      if result.2 = [] then (line, []) else (lead ++ p.toString result.1 ++ trail, result.2)

def splitLines : Text → List Text
  | [] => [[]]
  | c :: cs =>
    if c = '\n' then [] :: splitLines cs
    else
      match splitLines cs with
      | [] => [[c]]
      | line :: lines => (c :: line) :: lines

def redactLines (p : Platform N) (r : Redactor) (text : Text) : Text × List RedactionRecord :=
  let lines := (splitLines text).map (redactJsonLine p r)
  (['\n'].intercalate (lines.map (·.1)), lines.flatMap (·.2))

def redactNonJsonText (p : Platform N) (r : Redactor) (text : Text) : RedactionOutput Text :=
  let lines := redactLines p r text
  let result := redactStringInner p r lines.1 "$text"
  output result.1 (lines.2 ++ result.2)

def redactText (p : Platform N) (r : Redactor) (text : Text) : RedactionOutput Text :=
  match p.fromStr text with
  | some value =>
    let result := redactJsonValueInner p r value "$"
    output (p.toString result.1) result.2
  | none => redactNonJsonText p r text

end AiProxy.Mcp
