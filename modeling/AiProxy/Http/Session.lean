import AiProxy.Http.Types
import AiProxy.Lib.Base64

/-!
# Session records and responses

The builders of the records that go to the session channel and of the responses that go back to the
client. Bodies of session records are left out.
-/

namespace AiProxy.Http

/-- Plain HTTP, or HTTPS that the proxy terminates; `h2` says whether ALPN chose HTTP/2. -/
inductive ConnectionMode where
  | plainHttp
  | mitmHttps (h2 : Bool)

def ConnectionMode.isH2 : ConnectionMode → Bool
  | plainHttp => false
  | mitmHttps h2 => h2

inductive ResponseBody where
  | empty
  | text (message : String)
  | bytes (body : List UInt8)
  /-- Streamed from a file. -/
  | spooled (path : String)

/-- The response that is handed to hyper; its headers are left out. -/
structure ProxyResponse where
  status : StatusCode
  body : ResponseBody

/-- The builder cannot fail: the status and both headers are well-formed. -/
def buildPlainTextResponse (status : StatusCode) (message : String) : ProxyResponse :=
  ⟨status, .text message⟩

def buildEmptyResponse (status : StatusCode) : ProxyResponse := ⟨status, .empty⟩

/-- A dropped request closes a plain connection and is answered with 204 on a MITM connection. -/
def handleDropAction : ConnectionMode → Except ProxyError ProxyResponse
  | .plainHttp => .error .requestDropped
  | .mitmHttps _ => .ok (buildEmptyResponse .noContent)

def breakpointDropStatus : ConnectionMode → Nat
  | .plainHttp => 0
  | .mitmHttps _ => StatusCode.noContent.val

section

variable {Url : Type} (lossy : List UInt8 → String) (request : ParsedProxyRequest Url)

def buildPendingSessionDetail : ProxySessionDetail := ⟨request.requestId, 0, [], none, none⟩

def buildSessionDetail (statusCode : Nat) (responseHeaders : HeaderMap) : ProxySessionDetail :=
  let entries := buildHeaderEntriesFromMap lossy responseHeaders
  ⟨request.requestId, statusCode, entries, some (statusCode, entries), none⟩

def buildUpstreamSessionDetail (response : UpstreamResponse) : ProxySessionDetail :=
  buildSessionDetail lossy request response.statusCode.val response.responseHeaders

def buildBreakpointDropDetail (statusCode : Nat) (message : String) : ProxySessionDetail :=
  (buildSessionDetail lossy request statusCode .new).setFailure
    (.proxy "breakpoint_dropped" message)

/-- What the cancellation guard sends when it is dropped while armed. -/
def cancellationDetail (failure : SessionFailure) : ProxySessionDetail :=
  (buildSessionDetail lossy request clientClosedRequestStatus .new).setFailure failure

end

def clientClosed : SessionFailure :=
  .client "client_closed"
    "The client disconnected or the request was cancelled before a response completed."

inductive BreakpointActionKind where
  | forward
  | drop
  | mock
  deriving DecidableEq

structure MockResponse where
  statusCode : Nat
  headers : List ProxyHeaderEntry
  bodyBase64 : Option String

/-- The resolution of a breakpoint; its request edits have been applied by the interception. -/
structure BreakpointResolution where
  action : BreakpointActionKind
  mock : Option MockResponse
  modifiedResponseStatusCode : Option Nat
  modifiedResponseHeaders : Option (List ProxyHeaderEntry)
  modifiedResponseBodyBase64 : Option String

def headerMapFromEntries (headers : List ProxyHeaderEntry) : HeaderMap :=
  headers.foldl (fun m h =>
    match headerNameFromBytes h.name, headerValueFromStr h.value with
    | .ok name, .ok value => m.append name value
    | _, _ => m) .new

/-- A base64 body; text that is no base64 stands for itself. -/
def decodeOrText (text : String) : List UInt8 := (Base64.decode text).getD (asBytes text)

def HeaderMap.insert (m : HeaderMap) (name : HeaderName) (value : HeaderValue) : HeaderMap :=
  match m with
  | [] => [(name, [value])]
  | (n, vs) :: rest =>
    if n = name then (n, [value]) :: rest else (n, vs) :: HeaderMap.insert rest name value

def buildMockUpstreamResponse (mock : MockResponse) : UpstreamResponse :=
  let body := (mock.bodyBase64.map decodeOrText).getD []
  { bodyTruncated := false
    responseBody := body
    responseBodySizeBytes := body.length
    responseHeaders := (headerMapFromEntries mock.headers).insert "content-length"
      (asBytes (toString body.length))
    spooledResponsePath := none
    statusCode := match StatusCode.fromU16 mock.statusCode with
      | .ok code => code
      | .error _ => .ok }

/-- Remove the headers that describe the encoding or the integrity of a body that is replaced. -/
def stripPlainBodyEditHeaders (headers : HeaderMap) : HeaderMap :=
  (((headers.remove "content-encoding").remove "content-md5").remove
    "digest").remove "etag"

def applyResponseResolution (resolution : BreakpointResolution) (response : UpstreamResponse) :
    UpstreamResponse :=
  let response := match resolution.modifiedResponseStatusCode.map StatusCode.fromU16 with
    | some (.ok code) => { response with statusCode := code }
    | _ => response
  let response := match resolution.modifiedResponseHeaders with
    | some headers => { response with responseHeaders := headerMapFromEntries headers }
    | none => response
  match resolution.modifiedResponseBodyBase64 with
  | some body =>
    let response := response.replaceResponseBody (decodeOrText body)
    { response with
      responseHeaders := (stripPlainBodyEditHeaders response.responseHeaders).remove
        "content-length" }
  | none => response

end AiProxy.Http
