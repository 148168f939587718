import AiProxy.Http.UpstreamHeaders
import AiProxy.Lib.JsonDocument
import AiProxy.Rules.JsonSpan

/-!
# Rewriting fields of a JSON body

`apply_body_field_rewrite`: the fields of a rule are set or removed in the parsed body one after the
other. The result is the original body if nothing changed, the patched text if all fields were set
and could be patched, and the serialized value otherwise.
-/

namespace AiProxy.Rules

open Http (asBytes toAsciiLowercase eqIgnoreAsciiCase HeaderValue headerValueToStr lossyText)
open Json (Bytes Value fromStr)

structure RewriteTraceEntry where
  after : Option String
  before : Option String
  kind : String
  key : Option String
  message : Option String
  sequence : Nat

def traceEntry (sequence : Nat) (kind : String) (key before after message : Option String) :
    RewriteTraceEntry :=
  ⟨after, before, kind, key, message, sequence⟩

structure RewriteBodyFieldPayload where
  operation : Option String
  path : String
  value : Option String
  valueType : Option String

/-- What the rewrite engine uses of `serde_json`, of the standard library and of the decompressors;
`N` are the numbers of `serde_json`. -/
structure Codec (N : Type) where
  numOf : Bytes → Option N
  toStr : Value N → Option Bytes
  toVecError : Value N → String
  parseError : Bytes → String
  utf8Error : List UInt8 → String
  /-- `str::parse::<f64>`, then `Number::from_f64`. -/
  parseF64 : String → Option (Option N)
  decodeBodyBytes : List UInt8 → String → Option (List UInt8)
  /-- `String::from_utf8_lossy` on bytes that are not UTF-8. -/
  lossy : List UInt8 → String

variable {N : Type}

def coerceBodyFieldValue (c : Codec N) (field : RewriteBodyFieldPayload) :
    Except String (Value N) :=
  let rawValue := field.value.getD ""
  let valueType := String.ofList (toAsciiLowercase (field.valueType.getD "string"))
  if valueType = "boolean" then
    if rawValue = "true" then .ok (.bool true)
    else if rawValue = "false" then .ok (.bool false)
    else .error ("body field '" ++ field.path ++ "' requires a boolean value")
  else if valueType = "json" then
    match fromStr c.numOf (asBytes rawValue) with
    | some value => .ok value
    | none =>
      .error ("body field '" ++ field.path ++ "' contains invalid JSON: " ++
        c.parseError (asBytes rawValue))
  else if valueType = "null" then .ok .null
  else if valueType = "number" then
    match c.parseF64 rawValue with
    | none => .error ("body field '" ++ field.path ++ "' requires a numeric value")
    | some none => .error ("body field '" ++ field.path ++ "' requires a finite numeric value")
    | some (some number) => .ok (.number number)
  else if valueType = "string" then .ok (.string (asBytes rawValue))
  else
    .error ("body field '" ++ field.path ++ "' uses unsupported value type '" ++ valueType ++ "'")

def jsonValuePreview (c : Codec N) (value : Value N) : Option String :=
  (c.toStr value).map (lossyText c.lossy)

structure FieldRewrite (N : Type) where
  jsonBody : Value N
  entries : List RewriteTraceEntry
  patches : List (List JsonPathSegment × Value N)
  canPatch : Bool

def applyField (c : Codec N) (s : FieldRewrite N) (index : Nat) (field : RewriteBodyFieldPayload) :
    Except String (FieldRewrite N) := do
  let segments ← parseJsonFieldPath field.path
  let before := (getJsonPathValue s.jsonBody segments).bind (jsonValuePreview c)
  let operation := field.operation.getD "set"
  let s ←
    if eqIgnoreAsciiCase operation "remove" then do
      let jsonBody ← removeJsonPathValue s.jsonBody segments
      .ok { s with jsonBody := jsonBody, canPatch := false }
    else do
      let value ← coerceBodyFieldValue c field
      let jsonBody ← setJsonPathValue s.jsonBody segments value
      .ok
        { s with
          jsonBody := jsonBody
          patches := if s.canPatch then s.patches ++ [(segments, value)] else s.patches }
  let after := (getJsonPathValue s.jsonBody segments).bind (jsonValuePreview c)
  .ok
    { s with
      entries := s.entries ++
        [traceEntry index "body-field" (some field.path) before after (some operation)] }

def decodedBody (c : Codec N) (body : List UInt8) (contentEncoding : Option HeaderValue) :
    List UInt8 :=
  ((contentEncoding.bind headerValueToStr).bind (c.decodeBodyBytes body)).getD body

def applyBodyFieldRewrite [BEq N] (c : Codec N) (body : List UInt8)
    (contentEncoding : Option HeaderValue) (fields : List RewriteBodyFieldPayload) :
    Except String (List UInt8 × List RewriteTraceEntry) := do
  let decoded := decodedBody c body contentEncoding
  if (String.fromUTF8? ⟨decoded.toArray⟩).isNone then
    .error ("body field rewrite requires UTF-8 JSON body: " ++ c.utf8Error decoded)
  else
    match fromStr c.numOf decoded with
    | none => .error ("body field rewrite requires valid JSON body: " ++ c.parseError decoded)
    | some originalJson => do
      let s ← fields.zipIdx.foldlM (fun s f => applyField c s f.2 f.1) ⟨originalJson, [], [], true⟩
      if s.jsonBody.eqv originalJson then .ok (decoded, s.entries)
      else
        match if s.canPatch then patchJsonFieldValues c.toStr decoded s.patches else none with
        | some patched => .ok (patched, s.entries)
        | none =>
          match c.toStr s.jsonBody with
          | some rewritten => .ok (rewritten, s.entries)
          | none => .error ("serialize rewritten JSON body: " ++ c.toVecError s.jsonBody)

end AiProxy.Rules
