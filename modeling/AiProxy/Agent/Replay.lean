import AiProxy.Agent.Control
import AiProxy.Http.BodyReference
import AiProxy.Rules.Script

/-!
# Replay of a captured request

A captured request is prepared for a replay, with the overrides that the client gives. The rate limit
of replays, the network and the response are left out; what is sent is the request that the HTTP
client gets.
-/

namespace AiProxy.Agent

open Http (asBytes eqIgnoreAsciiCase isTokenChar UrlOps ParsedProxyRequest ProxyHeaderEntry
  ProxyBodyReference HeaderMap Decoders buildBodyReference isPseudoHeaderName shouldSkipRequestHeader
  headerNameFromBytes headerValueFromStr)
open Json (Value)
open Rules (methodFromBytes setJsonPathFromStr)

def maxHeaderValueBytes : Nat := 8192
def maxOverrideEntries : Nat := 100
def maxJsonSetFields : Nat := 50
def maxJsonSetPathBytes : Nat := 512

structure CapturedRequest where
  method : String
  url : String
  statusCode : Nat
  requestHeaders : List ProxyHeaderEntry
  requestBody : Option ProxyBodyReference

structure NameValue where
  name : String
  value : String

structure ReplaySessionParams (N : Type) where
  method : Option String := none
  setHeaders : List NameValue := []
  removeHeaders : List String := []
  setQueryParams : List NameValue := []
  body : Option String := none
  jsonSet : List (String × Value N) := []

structure PreparedReplay where
  method : String
  url : String
  headers : List ProxyHeaderEntry
  body : Option (List UInt8)

structure JsonBodies (N : Type) where
  fromSlice : List UInt8 → Except String (Value N)
  toVec : Value N → Except String (List UInt8)

/-! ## Checks -/

def refuse {α : Type} (message : String) : Except ControlError α :=
  .error { code := "INVALID_ARGUMENT", message := message }

def refuseIf (bad : Prop) [Decidable bad] (message : String) : Except ControlError Unit :=
  if bad then refuse message else .ok ()

def orRefuse {α : Type} (result : Except String α) (describe : String → String) :
    Except ControlError α :=
  match result with
  | .ok value => .ok value
  | .error error => refuse (describe error)

def byteCount (s : String) : Nat := (asBytes s).length

def isControl (c : Char) : Bool := c.toNat < 32 || (127 ≤ c.toNat && c.toNat < 160)

def toAsciiUppercase (s : String) : String := String.ofList (s.toList.map Char.toUpper)

def validateMethod (value : String) : Except ControlError Unit :=
  refuseIf (value = "" ∨ 32 < byteCount value ∨ ¬ value.toList.all isTokenChar)
    "method must be a valid HTTP method."

def validateHeaderName (value : String) : Except ControlError String :=
  let value := Http.trim value
  if value = "" ∨ 256 < byteCount value ∨ isPseudoHeaderName value ∨ ¬ value.toList.all isTokenChar ∨
      eqIgnoreAsciiCase value "host" then
    refuse "Header names must be valid non-pseudo header names and cannot change Host."
  else .ok value

def validateHeaderValue (value : String) : Except ControlError String :=
  if maxHeaderValueBytes < byteCount value ∨ '\r' ∈ value.toList ∨ '\n' ∈ value.toList then
    refuse ("Header values must be at most " ++ toString maxHeaderValueBytes ++ " bytes without CR/LF.")
  else .ok value

def validateQueryName (value : String) : Except ControlError String :=
  let value := Http.trim value
  if value = "" ∨ 256 < byteCount value ∨ value.toList.any isControl then
    refuse "Query parameter names must be 1-256 bytes without control characters."
  else .ok value

def validateQueryValue (value : String) : Except ControlError String :=
  if maxHeaderValueBytes < byteCount value ∨ value.toList.any isControl then
    refuse ("Query parameter values must be at most " ++ toString maxHeaderValueBytes ++
      " bytes without control characters.")
  else .ok value

def removeHeader (headers : List ProxyHeaderEntry) (name : String) :
    Except ControlError (List ProxyHeaderEntry) := do
  let name ← validateHeaderName name
  .ok (headers.filter fun header => !eqIgnoreAsciiCase header.name name)

def setHeader (headers : List ProxyHeaderEntry) (override : NameValue) :
    Except ControlError (List ProxyHeaderEntry) := do
  let name ← validateHeaderName override.name
  let value ← validateHeaderValue override.value
  .ok ((headers.filter fun header => !eqIgnoreAsciiCase header.name name) ++ [⟨name, value, none⟩])

section Replay

variable {Url N : Type} [UrlOps Url]

/-- The pairs that are not overridden stay in front. -/
def setQuery (url : Url) (overrides : List NameValue) : Except ControlError Url :=
  if overrides = [] then .ok url
  else do
    let pairs ← overrides.mapM fun entry => do
      let name ← validateQueryName entry.name
      let value ← validateQueryValue entry.value
      return (name, value)
    let existing := (UrlOps.queryPairs url).filter fun pair => !pairs.any fun p => p.1 = pair.1
    let url := UrlOps.setQuery url none
    .ok (if existing = [] ∧ pairs = [] then url else UrlOps.appendPairs url (existing ++ pairs))

def replayBody (detail : CapturedRequest) (override : Option String) :
    Except ControlError (Option (List UInt8)) :=
  match override, detail.requestBody with
  | some body, _ => .ok (some (asBytes body))
  | none, some body =>
    if body.truncated then
      refuse ("The captured request body was truncated, so it cannot be replayed faithfully. Provide " ++
        "a complete body override or capture the request again with a larger body limit.")
    else .ok (some body.bytes)
  | none, none => .ok none

def setJsonField (json : Value N) (field : String × Value N) : Except ControlError (Value N) :=
  if field.1 = "" ∨ maxJsonSetPathBytes < byteCount field.1 then
    refuse ("jsonSet paths must be 1-" ++ toString maxJsonSetPathBytes ++ " bytes.")
  else
    orRefuse (setJsonPathFromStr json field.1 field.2)
      fun error => "Apply jsonSet path '" ++ field.1 ++ "': " ++ error

/-- The body with the fields of `jsonSet`, and the headers that go with it. -/
def applyJsonSet (bodies : JsonBodies N) (fields : List (String × Value N))
    (headers : List ProxyHeaderEntry) (body : Option (List UInt8)) :
    Except ControlError (List ProxyHeaderEntry × Option (List UInt8)) :=
  if fields = [] then .ok (headers, body)
  else if maxJsonSetFields < fields.length then
    refuse ("jsonSet accepts at most " ++ toString maxJsonSetFields ++ " fields.")
  else if body.getD [] = [] then refuse "jsonSet requires a JSON request body."
  else do
    let json ← orRefuse (bodies.fromSlice (body.getD []))
      ("jsonSet requires the replay body to be valid JSON: " ++ ·)
    let json ← fields.foldlM setJsonField json
    let bytes ← orRefuse (bodies.toVec json) ("Serialize replay JSON body: " ++ ·)
    let headers :=
      if headers.any fun header => eqIgnoreAsciiCase header.name "content-type" then headers
      else headers ++ [⟨"Content-Type", "application/json", none⟩]
    .ok (headers, some bytes)

def originalUrl (detail : CapturedRequest) : Except ControlError (Url × String) := do
  refuseIf (eqIgnoreAsciiCase detail.method "CONNECT" ∨ detail.statusCode = 0)
    ("Connection and TLS failures cannot be replayed because no complete HTTP request was " ++
      "captured.")
  let url : Url ← orRefuse (UrlOps.parse detail.url) ("The captured session URL is invalid: " ++ ·)
  refuseIf (UrlOps.scheme url ≠ "http" ∧ UrlOps.scheme url ≠ "https")
    "Only captured HTTP and HTTPS requests can be replayed."
  match UrlOps.hostStr url with
  | some host => .ok (url, host)
  | none => refuse "The captured session URL does not include a host."

def replayMethod (detail : CapturedRequest) (override : Option String) : String :=
  toAsciiUppercase
    (((override.map Http.trim).filter fun method => method ≠ "").getD detail.method)

def checkHost (url : Url) (originalHost : String) : Except ControlError Unit :=
  match UrlOps.hostStr url with
  | none => refuse "The replay URL does not include a host."
  | some finalHost =>
    if eqIgnoreAsciiCase finalHost originalHost then .ok ()
    else
      refuse ("Replay is locked to the original host '" ++ originalHost ++ "'; it cannot target '" ++
        finalHost ++ "'.")

def prepareReplay (Url : Type) [UrlOps Url] (bodies : JsonBodies N) (detail : CapturedRequest)
    (params : ReplaySessionParams N) : Except ControlError PreparedReplay := do
  let (url, originalHost) ← (originalUrl detail : Except ControlError (Url × String))
  let method := replayMethod detail params.method
  validateMethod method
  refuseIf (maxOverrideEntries < params.setHeaders.length ∨
      maxOverrideEntries < params.removeHeaders.length ∨
      maxOverrideEntries < params.setQueryParams.length)
    ("Each replay override list accepts at most " ++ toString maxOverrideEntries ++ " entries.")
  let headers ← params.removeHeaders.foldlM removeHeader detail.requestHeaders
  let headers ← params.setHeaders.foldlM setHeader headers
  let url ← setQuery url params.setQueryParams
  checkHost url originalHost
  let body ← replayBody detail params.body
  let (headers, body) ← applyJsonSet bodies params.jsonSet headers body
  .ok ⟨method, UrlOps.asStr url, headers, body⟩

structure DirectRequest (Url : Type) where
  method : String
  url : Url
  headers : HeaderMap
  body : List UInt8

def appendDirectHeader (headerMap : HeaderMap) (header : ProxyHeaderEntry) :
    Except String HeaderMap :=
  if isPseudoHeaderName header.name ∨ shouldSkipRequestHeader header.name then .ok headerMap
  else do
    let name ← (headerNameFromBytes header.name).mapError
      ("invalid header name '" ++ header.name ++ "': " ++ ·)
    let value ← (headerValueFromStr header.value).mapError
      ("invalid header value for '" ++ header.name ++ "': " ++ ·)
    .ok (headerMap.append name value)

/-- `send_direct_request_bytes`, up to the request that is sent. -/
def directRequest (method url : String) (headers : List ProxyHeaderEntry)
    (body : Option (List UInt8)) : Except String (DirectRequest Url) := do
  let requestMethod ← (methodFromBytes method).mapError
    ("invalid HTTP method '" ++ method ++ "': " ++ ·)
  let requestUrl : Url ← (UrlOps.parse url).mapError ("invalid URL '" ++ url ++ "': " ++ ·)
  (UrlOps.hostStr requestUrl).elim (.error ("URL '" ++ url ++ "' does not contain a host"))
    fun _ => .ok ()
  let headerMap ← headers.foldlM appendDirectHeader .new
  .ok ⟨requestMethod, requestUrl, headerMap, (body.filter fun bytes => bytes ≠ []).getD []⟩

/-- The request side of the session that `build_session_detail` records. -/
def captureRequest (decoders : Decoders) (request : ParsedProxyRequest Url) (statusCode : Nat) :
    CapturedRequest where
  method := request.method
  url := UrlOps.asStr request.url
  statusCode := statusCode
  requestHeaders := request.requestHeaders
  requestBody :=
    buildBodyReference decoders request.body (request.headers.get "content-encoding") false

end Replay

end AiProxy.Agent

/-! ## What a replay is for

A request denotes a method, a URL and the content that its body has under its `Content-Encoding` headers:
what the codings of all these headers, the last one first, decode the body to. A replay without overrides
is faithful when it denotes what the captured request denotes. -/

namespace AiProxy.Http

namespace Decoders

def coding (decoders : Decoders) (body : List UInt8) (encoding : List Char) : Option (List UInt8) :=
  if encoding = "gzip" ∨ encoding = "x-gzip" then decoders.gzip body
  else if encoding = "deflate" then (decoders.zlib body).or (decoders.rawDeflate body)
  else if encoding = "br" then decoders.brotli body
  else decoders.other encoding body

def content (decoders : Decoders) (encodings : List (List Char)) (body : List UInt8) :
    Option (List UInt8) :=
  encodings.reverse.foldlM decoders.coding body

end Decoders

def recordedEncodings (headers : List ProxyHeaderEntry) : List (List Char) :=
  (headers.filter fun header => eqIgnoreAsciiCase header.name "content-encoding").flatMap fun header =>
    listedEncodings header.value

def HeaderMap.encodings (headers : HeaderMap) : List (List Char) :=
  (headers.getAll "content-encoding").flatMap fun value =>
    ((String.fromUTF8? ⟨value.toArray⟩).map listedEncodings).getD []

end AiProxy.Http

namespace AiProxy.Agent

open Http

variable {Url : Type}

structure Faithful (decoders : Decoders) (request : ParsedProxyRequest Url)
    (sent : DirectRequest Url) : Prop where
  method : sent.method = request.method
  url : sent.url = request.url
  content : decoders.content sent.headers.encodings sent.body
    = decoders.content (recordedEncodings request.requestHeaders) request.body

/-- What the capture makes of the body: the bytes that it decodes to under the first `Content-Encoding`
header, if there is one and it can be decoded. -/
def capturedDecoding (decoders : Decoders) (request : ParsedProxyRequest Url) : Option (List UInt8) :=
  decodeBodyBytes decoders request.body
    (contentEncodingOf (request.headers.get "content-encoding"))

/-- The body is empty or was stored as it was received. -/
def StoredAsReceived (decoders : Decoders) (request : ParsedProxyRequest Url) : Prop :=
  request.body = [] ∨ capturedDecoding decoders request = none

end AiProxy.Agent
