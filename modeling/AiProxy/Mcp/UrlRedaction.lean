import AiProxy.Mcp.Curl
import AiProxy.Mcp.TextSearch

/-!
# Query parameters

`redact_url` and `redact_key_value_json` of `redaction.rs`. The first redacts the query of a URL as it
is written, the second the parameters of a stored session, whose names and values are decoded.
-/

namespace AiProxy.Mcp

open Json (Bytes)
open Utf8 (encode)

variable {N : Type} (p : Platform N) (r : Redactor)

def redactQueryPair (pair : Text) : Text :=
  match splitOnce "=" pair with
  | none => pair
  | some (key, value) =>
    key ++ '=' :: (redactNamedScalar p r key value ("url.query." ++ key)).1

def redactUrl (url : Text) : Text :=
  match splitOnce "?" url with
  | none => url
  | some (base, query) =>
    base ++ '?' :: ['&'].intercalate ((query.splitOn '&').map (redactQueryPair p r))

/-- `redact_key_value_json`, after the entries have been parsed. -/
def redactKeyValues (entries : List HeaderEntry) : RedactionOutput (List HeaderEntry) :=
  let redacted := entries.map fun entry =>
    let result := redactNamedScalar p r entry.name entry.value
      ("query:" ++ p.unicode.toLowercase entry.name)
    ({ entry with value := result.1 }, result.2)
  output (redacted.map (·.1)) (redacted.flatMap (·.2))

/-- `percent_decode` -/
def percentDecode : Bytes → Bytes
  | [] => []
  | 0x25 :: high :: low :: rest =>
    match Json.hexValue high, Json.hexValue low with
    | some a, some b => (16 * a + b).toUInt8 :: percentDecode rest
    | _, _ => 0x25 :: percentDecode (high :: low :: rest)
  | b :: rest => b :: percentDecode rest

/-- A name or a value as `query_pairs` decodes it. -/
def formDecode (lossy : Bytes → Text) (t : Text) : Text :=
  lossy (percentDecode ((encode t).map fun b => if b = 0x2b then 0x20 else b))

/-- A URL with a parameter between others. -/
def queryUrl (base : Text) (before : List Text) (key : Text) (after : List Text) (value : Text) :
    Text :=
  base ++ '?' :: ['&'].intercalate (before ++ (key ++ '=' :: value) :: after)

/-- A name that is classified as a secret. -/
def SecretName (name : Text) : Prop := ∃ c, classify p r name = some c ∧ c.sensitivity = .secret

end AiProxy.Mcp
