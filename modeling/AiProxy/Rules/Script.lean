import AiProxy.Rules.Rewrite

/-!
# Script rules

A script hook gets a copy of the request (and of the response) and hands back a result, which is
written into the message. Functions that take the message by `&mut` return the message they leave
behind also when they fail. The choice of the rules, the run of a hook and its trace are left out.
-/

namespace AiProxy.Rules

open Http (ParsedProxyRequest UpstreamResponse ProxyHeaderEntry HeaderMap HeaderValue StatusCode
  UrlOps asBytes toAsciiLowercase isTokenChar headerValueToStr lossyText trim
  headerMapFromEntries buildHeaderEntriesFromMap stripPlainBodyEditHeaders
  stripPlainBodyEditHeaderEntries)

/-! ## What a hook gets and returns -/

structure ScriptHeader where
  name : String
  value : String

structure ScriptRequest where
  bodyBase64 : Option String
  bodyText : Option String
  headers : List ScriptHeader
  method : String
  mimeType : Option String
  url : String

structure ScriptResponse where
  bodyBase64 : Option String
  bodyText : Option String
  headers : List ScriptHeader
  mimeType : Option String
  status : Nat

structure ScriptResponseOverride where
  bodyBase64 : Option String
  bodyText : Option String
  headers : List ScriptHeader
  mimeType : Option String
  status : Nat

inductive ScriptTraceStage where
  | request
  | response

structure ScriptSessionInfo where
  id : String
  host : String
  method : String
  path : String
  stage : ScriptTraceStage
  url : String
  workspaceId : String

structure ScriptHookResult where
  request : Option ScriptRequest
  response : Option ScriptResponse
  responseOverride : Option ScriptResponseOverride

/-- The decompressors and the texts of errors. -/
structure ScriptEnv where
  decodeBodyBytes : List UInt8 → String → Option (List UInt8)
  lossy : List UInt8 → String
  base64Error : String → String

/-- The fields of `ProxyBodyReference` that scripts read. -/
structure ProxyBodyReference where
  inlineText : Option String
  base64Text : Option String
  mimeType : Option String

def scriptHeadersFromEntries (entries : List ProxyHeaderEntry) : List ScriptHeader :=
  entries.map fun entry => ⟨entry.name, entry.value⟩

section Copy

variable {Url : Type} (env : ScriptEnv)

/-- The body without its content encoding, or as it is where it cannot be decoded. -/
def decodedForScript (body : List UInt8) (contentEncodingHeader : Option HeaderValue) :
    List UInt8 :=
  let contentEncoding := ((contentEncodingHeader.bind headerValueToStr).map fun value =>
    String.ofList (toAsciiLowercase (trim value))).filter fun value => !value.isEmpty
  (contentEncoding.bind (env.decodeBodyBytes body)).getD body

def bodyMimeType (contentTypeHeader : Option HeaderValue) : Option String :=
  ((contentTypeHeader.bind headerValueToStr).map fun value =>
    trim (String.ofList (value.toList.takeWhile (· ≠ ';')))).filter fun value => !value.isEmpty

/-- The text is there only where the decoded body is UTF-8. -/
def buildBodyReference (body : List UInt8)
    (contentTypeHeader contentEncodingHeader : Option HeaderValue) : Option ProxyBodyReference :=
  if body = [] then none
  else
    let decoded := decodedForScript env body contentEncodingHeader
    some ⟨String.fromUTF8? ⟨decoded.toArray⟩, some (Base64.encode decoded),
      bodyMimeType contentTypeHeader⟩

def bodyTextAndBase64 (body : List UInt8) (contentType contentEncoding : Option HeaderValue) :
    Option String × Option String × Option String :=
  match buildBodyReference env body contentType contentEncoding with
  | some reference => (reference.inlineText, reference.base64Text, reference.mimeType)
  | none => (none, none, none)

def buildScriptRequest [UrlOps Url] (workspaceId : String) (stage : ScriptTraceStage)
    (request : ParsedProxyRequest Url) : ScriptSessionInfo × ScriptRequest :=
  let (bodyText, bodyBase64, mimeType) := bodyTextAndBase64 env request.body
    (request.headers.get "content-type") (request.headers.get "content-encoding")
  (⟨request.requestId, request.host, request.method, request.path, stage,
      UrlOps.asStr request.url, workspaceId⟩,
    ⟨bodyBase64, bodyText, scriptHeadersFromEntries request.requestHeaders, request.method,
      mimeType, UrlOps.asStr request.url⟩)

def scriptHeadersFromMap (headers : HeaderMap) : List ScriptHeader :=
  scriptHeadersFromEntries (buildHeaderEntriesFromMap env.lossy headers)

def buildScriptResponse (response : UpstreamResponse) : ScriptResponse :=
  let (bodyText, bodyBase64, mimeType) := bodyTextAndBase64 env response.responseBody
    (response.responseHeaders.get "content-type")
    (response.responseHeaders.get "content-encoding")
  ⟨bodyBase64, bodyText, scriptHeadersFromMap env response.responseHeaders, mimeType,
    response.statusCode.val⟩

end Copy

/-! ## Writing a result back -/

structure ScriptBodyUpdate where
  bytes : List UInt8
  unchanged : Bool

structure ScriptBodyEcho where
  text : Option String
  base64 : Option String

def methodFromBytes (method : String) : Except String String :=
  if method.toList ≠ [] ∧ method.toList.all isTokenChar then .ok method
  else .error "invalid HTTP method"

def entriesFromScriptHeaders (headers : List ScriptHeader) : List ProxyHeaderEntry :=
  headers.map fun header => ⟨header.name, header.value, none⟩

/-- Headers that are not well-formed are left out. -/
def headerMapFromScriptHeaders (headers : List ScriptHeader) : HeaderMap :=
  headerMapFromEntries (entriesFromScriptHeaders headers)

section Write

variable {Url : Type} (env : ScriptEnv)

def scriptBodyUpdate (bodyText bodyBase64 : Option String) (original : Option ScriptBodyEcho) :
    Except String ScriptBodyUpdate :=
  match bodyText, bodyBase64 with
  | some text, some base64Text =>
    match Base64.decode base64Text with
    | some decoded =>
      match original with
      | some original =>
        let textChanged := decide (original.text ≠ some text)
        let base64Changed := decide (original.base64 ≠ some base64Text)
        if !textChanged && !base64Changed then .ok ⟨decoded, true⟩
        else if base64Changed && !textChanged then .ok ⟨decoded, false⟩
        else .ok ⟨asBytes text, false⟩
      | none =>
        if lossyText env.lossy decoded = text then .ok ⟨decoded, true⟩
        else .ok ⟨asBytes text, false⟩
    | none => .ok ⟨asBytes text, false⟩
  | some text, none => .ok ⟨asBytes text, false⟩
  | none, some base64Text =>
    match Base64.decode base64Text with
    | some decoded => .ok ⟨decoded, false⟩
    | none => .error ("decode script body base64: " ++ env.base64Error base64Text)
  | none, none => .ok ⟨[], false⟩

/-- An edited body takes the place of the wire body; the headers that describe the wire body go. -/
def replaceRequestBody (request : ParsedProxyRequest Url) (update : ScriptBodyUpdate) :
    ParsedProxyRequest Url :=
  if update.unchanged then request
  else
    { request with
      body := update.bytes
      requestHeaders := stripPlainBodyEditHeaderEntries request.requestHeaders }

def replaceScriptedResponseBody (response : UpstreamResponse) (update : ScriptBodyUpdate) :
    UpstreamResponse :=
  if update.unchanged then response
  else
    let response := response.replaceResponseBody update.bytes
    { response with responseHeaders := stripPlainBodyEditHeaders response.responseHeaders }

def applyScriptRequestToRuntime [UrlOps Url] (request : ParsedProxyRequest Url)
    (scriptRequest : ScriptRequest) (originalBody : Option ScriptBodyEcho) :
    ParsedProxyRequest Url × Except String Unit :=
  match methodFromBytes scriptRequest.method with
  | .error error =>
    (request, .error ("invalid script request method '" ++ scriptRequest.method ++ "': " ++ error))
  | .ok method =>
    let request := { request with method := method }
    match UrlOps.parse scriptRequest.url with
    | .error error =>
      (request, .error ("invalid script request url '" ++ scriptRequest.url ++ "': " ++ error))
    | .ok url =>
      let request :=
        { request with
          url := url
          requestHeaders := entriesFromScriptHeaders scriptRequest.headers }
      match scriptBodyUpdate env scriptRequest.bodyText scriptRequest.bodyBase64 originalBody with
      | .error error => (request, .error error)
      | .ok update => rebuildRequestRuntimeState (replaceRequestBody request update)

def applyScriptResponseToRuntime (response : UpstreamResponse) (scriptResponse : ScriptResponse)
    (originalBody : Option ScriptBodyEcho) : UpstreamResponse × Except String Unit :=
  match StatusCode.fromU16 scriptResponse.status with
  | .error error =>
    (response, .error ("invalid script response status '" ++ toString scriptResponse.status ++
      "': " ++ error))
  | .ok statusCode =>
    let response :=
      { response with
        statusCode := statusCode
        responseHeaders := headerMapFromScriptHeaders scriptResponse.headers }
    match scriptBodyUpdate env scriptResponse.bodyText scriptResponse.bodyBase64 originalBody with
    | .error error => (response, .error error)
    | .ok update => (replaceScriptedResponseBody response update, .ok ())

def upstreamResponseFromOverride (overrideResponse : ScriptResponseOverride) :
    Except String UpstreamResponse := do
  let update ← scriptBodyUpdate env overrideResponse.bodyText overrideResponse.bodyBase64 none
  let statusCode ← (StatusCode.fromU16 overrideResponse.status).mapError fun error =>
    "invalid mock response status '" ++ toString overrideResponse.status ++ "': " ++ error
  .ok
    { bodyTruncated := false
      responseBody := update.bytes
      responseBodySizeBytes := update.bytes.length
      responseHeaders :=
        stripPlainBodyEditHeaders (headerMapFromScriptHeaders overrideResponse.headers)
      spooledResponsePath := none
      statusCode := statusCode }

end Write

/-! ## The results of the hooks -/

section Rules

variable {Url : Type} [UrlOps Url] (env : ScriptEnv)

/-- What `apply_request_script_rules` makes of a result: the request after the hook, and the response that
stands for the upstream's, if there is one. An error is the reason why the result is invalid. -/
def applyRequestHookResult (request : ParsedProxyRequest Url) (echo : ScriptBodyEcho)
    (result : ScriptHookResult) :
    ParsedProxyRequest Url × Except String (Option UpstreamResponse) :=
  match result.responseOverride with
  | some overrideResponse =>
    (request, (upstreamResponseFromOverride env overrideResponse).map some)
  | none =>
    match result.request with
    | some scriptRequest =>
      let (request, applied) := applyScriptRequestToRuntime env request scriptRequest (some echo)
      (request, applied.map fun _ => none)
    | none => (request, .ok none)

def applyResponseHookResult (response : UpstreamResponse) (echo : ScriptBodyEcho)
    (result : ScriptHookResult) : UpstreamResponse × Except String Unit :=
  match result.response with
  | some scriptResponse => applyScriptResponseToRuntime env response scriptResponse (some echo)
  | none => (response, .ok ())

end Rules

end AiProxy.Rules
