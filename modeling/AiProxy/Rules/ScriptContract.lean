import AiProxy.Rules.RewriteContract
import AiProxy.Rules.Script

/-!
# What a script result may do to a message

A result that is rejected should leave the message alone, and a result that hands the body fields
back as they were should leave the body and the headers that describe it alone.
-/

namespace AiProxy.Rules

open Http (ParsedProxyRequest UpstreamResponse ProxyHeaderEntry HeaderValue ResponseBody StatusCode
  UrlOps eqIgnoreAsciiCase buildUpstreamHeadersFromEntries)

variable {Url : Type} [UrlOps Url] (env : ScriptEnv)

def RequestRejectionHasNoEffect (request : ParsedProxyRequest Url) (echo : ScriptBodyEcho)
    (result : ScriptHookResult) : Prop :=
  ∀ error, (applyRequestHookResult env request echo result).2 = .error error →
    (applyRequestHookResult env request echo result).1 = request

def ResponseRejectionHasNoEffect (response : UpstreamResponse) (echo : ScriptBodyEcho)
    (result : ScriptHookResult) : Prop :=
  ∀ error, (applyResponseHookResult env response echo result).2 = .error error →
    (applyResponseHookResult env response echo result).1 = response

/-- The request with the parts of a script request that are written before it is rebuilt. -/
def scripted (request : ParsedProxyRequest Url) (scriptRequest : ScriptRequest) (method : String)
    (url : Url) (update : ScriptBodyUpdate) : ParsedProxyRequest Url :=
  replaceRequestBody
    { request with
      method := method
      url := url
      requestHeaders := entriesFromScriptHeaders scriptRequest.headers } update

/-- What is written before the check that fails is what was there: the method before the URL, these
and the entries before the body, and all of them before the request is rebuilt. -/
structure RequestWritesAreIdle (request : ParsedProxyRequest Url) (scriptRequest : ScriptRequest)
    (echo : ScriptBodyEcho) : Prop where
  url : ∀ method error, methodFromBytes scriptRequest.method = .ok method →
    (UrlOps.parse scriptRequest.url : Except String Url) = .error error → method = request.method
  body : ∀ method url error, methodFromBytes scriptRequest.method = .ok method →
    UrlOps.parse scriptRequest.url = .ok url →
    scriptBodyUpdate env scriptRequest.bodyText scriptRequest.bodyBase64 (some echo)
      = .error error →
    method = request.method ∧ url = request.url ∧
      entriesFromScriptHeaders scriptRequest.headers = request.requestHeaders
  rebuild : ∀ method url update, methodFromBytes scriptRequest.method = .ok method →
    UrlOps.parse scriptRequest.url = .ok url →
    scriptBodyUpdate env scriptRequest.bodyText scriptRequest.bodyBase64 (some echo)
      = .ok update →
    ¬ Rebuildable (scripted request scriptRequest method url update) →
    scripted request scriptRequest method url update = request ∧
      ∀ headers, buildUpstreamHeadersFromEntries request.requestHeaders = .ok headers →
        headers = request.headers

/-- The status and the headers are written before the body is checked. -/
def ResponseWritesAreIdle (response : UpstreamResponse) (scriptResponse : ScriptResponse)
    (echo : ScriptBodyEcho) : Prop :=
  ∀ status error, StatusCode.fromU16 scriptResponse.status = .ok status →
    scriptBodyUpdate env scriptResponse.bodyText scriptResponse.bodyBase64 (some echo)
      = .error error →
    status = response.statusCode ∧
      headerMapFromScriptHeaders scriptResponse.headers = response.responseHeaders

def requestEcho (request : ParsedProxyRequest Url) : ScriptBodyEcho :=
  let fields := bodyTextAndBase64 env request.body (request.headers.get "content-type")
    (request.headers.get "content-encoding")
  ⟨fields.1, fields.2.1⟩

def responseEcho (response : UpstreamResponse) : ScriptBodyEcho :=
  let fields := bodyTextAndBase64 env response.responseBody
    (response.responseHeaders.get "content-type")
    (response.responseHeaders.get "content-encoding")
  ⟨fields.1, fields.2.1⟩

def bodyHeaderNames : List String :=
  ["content-encoding", "content-md5", "digest", "etag", "content-length"]

def entriesNamed (name : String) (entries : List ProxyHeaderEntry) : List ProxyHeaderEntry :=
  entries.filter fun entry => eqIgnoreAsciiCase entry.name name

def forwardedBody (response : UpstreamResponse) : ResponseBody :=
  match response.spooledResponsePath with
  | some path => .spooled path
  | none => .bytes response.responseBody

/-- The body is the same, and an accepted result has the headers about the body as they came. -/
structure KeepsRequestBody (request : ParsedProxyRequest Url) (scriptRequest : ScriptRequest)
    (applied : ParsedProxyRequest Url × Except String Unit) : Prop where
  body : applied.1.body = request.body
  headers : applied.2 = .ok () → ∀ name ∈ bodyHeaderNames,
    entriesNamed name applied.1.requestHeaders
      = entriesNamed name (entriesFromScriptHeaders scriptRequest.headers)
  forwarded : applied.2 = .ok () →
    buildUpstreamHeadersFromEntries (entriesFromScriptHeaders scriptRequest.headers)
      = .ok applied.1.headers

structure KeepsResponseBody (response : UpstreamResponse) (scriptResponse : ScriptResponse)
    (applied : UpstreamResponse × Except String Unit) : Prop where
  body : forwardedBody applied.1 = forwardedBody response
  headers : applied.2 = .ok () → ∀ name ∈ bodyHeaderNames,
    applied.1.responseHeaders.getAll name.toList
      = (headerMapFromScriptHeaders scriptResponse.headers).getAll name.toList

/-- The script gets the body as text: there is one, and it is UTF-8 once it is decoded. -/
def SeenAsText (body : List UInt8) (contentEncoding : Option HeaderValue) : Prop :=
  body ≠ [] ∧ (String.fromUTF8? ⟨(decodedForScript env body contentEncoding).toArray⟩).isSome

end AiProxy.Rules
