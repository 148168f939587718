import AiProxy.Error
import AiProxy.Http.Headers

/-!
# Requests, responses and sessions

The data that the request pipeline works on. Of URLs the pipeline uses the operations of `UrlOps`.
Timings, cookies, TLS details and rule traces are left out: nothing that is modelled depends on them.
-/

namespace AiProxy.Http

class UrlOps (Url : Type) where
  parse : String → Except String Url
  asStr : Url → String
  scheme : Url → String
  hostStr : Url → Option String
  port : Url → Option Nat
  path : Url → String
  query : Url → Option String
  queryPairs : Url → List (String × String)
  setPath : Url → String → Url
  setQuery : Url → Option String → Url
  /-- `query_pairs_mut` followed by an `append_pair` for each pair. -/
  appendPairs : Url → List (String × String) → Url

/-- An HTTP status code, `100..=999`. -/
structure StatusCode where
  val : Nat
  valid : 100 ≤ val ∧ val < 1000
  deriving DecidableEq

namespace StatusCode

def fromU16 (code : Nat) : Except String StatusCode :=
  if h : 100 ≤ code ∧ code < 1000 then .ok ⟨code, h⟩ else .error "invalid status code"

def switchingProtocols : StatusCode := ⟨101, by decide⟩
def ok : StatusCode := ⟨200, by decide⟩
def noContent : StatusCode := ⟨204, by decide⟩
def requestTimeout : StatusCode := ⟨408, by decide⟩
def payloadTooLarge : StatusCode := ⟨413, by decide⟩
def badGateway : StatusCode := ⟨502, by decide⟩
def serviceUnavailable : StatusCode := ⟨503, by decide⟩
def gatewayTimeout : StatusCode := ⟨504, by decide⟩

end StatusCode

def clientClosedRequestStatus : Nat := 499

structure ParsedProxyRequest (Url : Type) where
  body : List UInt8
  headers : HeaderMap
  host : String
  method : String
  path : String
  protocol : String
  queryParams : List ProxyHeaderEntry
  rawRequest : String
  requestHeaders : List ProxyHeaderEntry
  requestId : String
  url : Url
  deriving DecidableEq

structure UpstreamResponse where
  bodyTruncated : Bool
  responseBody : List UInt8
  responseBodySizeBytes : Nat
  responseHeaders : HeaderMap
  spooledResponsePath : Option String
  statusCode : StatusCode
  deriving DecidableEq

def UpstreamResponse.replaceResponseBody (r : UpstreamResponse) (body : List UInt8) :
    UpstreamResponse :=
  { r with
    spooledResponsePath := none
    responseBodySizeBytes := body.length
    responseBody := body
    bodyTruncated := false }

structure SessionFailure where
  origin : String
  kind : String
  message : String

namespace SessionFailure

/-- The longest beginning of a text that takes at most `n` bytes. -/
def truncateBytes : Nat → List Char → List Char
  | _, [] => []
  | n, c :: cs => if c.utf8Size ≤ n then c :: truncateBytes (n - c.utf8Size) cs else []

/-- A failure keeps at most 512 bytes of its message. -/
def new (origin kind message : String) : SessionFailure :=
  ⟨origin, kind, String.ofList (truncateBytes 512 message.toList)⟩

def client := new "client"

def proxy := new "proxy"

def upstream := new "upstream"

def ioKind : IoErrorKind → String
  | .notFound => "dns"
  | .connectionRefused => "connect_refused"
  | .timedOut => "connect_timeout"
  | .connectionReset | .brokenPipe | .unexpectedEof => "upstream_reset"
  | .invalidData => "upstream_tls"
  | .other => "other"

def fromProxyError (error : ProxyError) : SessionFailure :=
  match error with
  | .upstreamError kind message => upstream kind.asStr message
  | .upstreamTimeout secs =>
    upstream "upstream_timeout" ("The upstream did not respond within " ++ toString secs ++ "s.")
  | .tlsError message => upstream "upstream_tls" message
  | .ruleError message => proxy "rewrite_failed" message
  | .breakpointCancelled | .requestDropped | .scriptTimeout =>
    proxy "proxy_internal" error.toText
  | .ioError kind message => upstream (ioKind kind) message
  | .responseBuildError _ | .other _ => proxy "proxy_internal" error.toText

end SessionFailure

structure ProxySessionDetail where
  id : String
  statusCode : Nat
  responseHeaders : List ProxyHeaderEntry
  /-- The status and headers that the raw response head is made of. -/
  rawResponseHead : Option (Nat × List ProxyHeaderEntry)
  failure : Option SessionFailure

namespace ProxySessionDetail

/-- A pending session has no response head yet; every other session has one. -/
def pending (d : ProxySessionDetail) : Bool := d.rawResponseHead.isNone

def setFailure (d : ProxySessionDetail) (failure : SessionFailure) : ProxySessionDetail :=
  { d with failure := some failure }

end ProxySessionDetail

end AiProxy.Http
