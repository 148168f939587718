import AiProxy.Http.Session
import AiProxy.Lib.Task

/-!
# What the request pipeline waits for

The pipeline as a cancellable task: the calls it awaits with their possible answers, the places at
which it sends a session, and the functions of the rule engine and of the HTTP library that it uses.
An await inside a called function is part of the call: no such function sends a session or touches the
cancellation guard.
-/

namespace AiProxy.Http

def maxCapturedBodyBytes : Nat := 20 * 1024 * 1024

/-- How the read of the request body ends. -/
inductive BodyRead where
  | collected (body : List UInt8)
  | lengthLimit
  | failed (error : String)
  | timedOut

/-- `char::is_whitespace`. -/
def isWhitespace (c : Char) : Bool :=
  let n := c.toNat
  (9 ≤ n && n ≤ 13) || n = 0x20 || n = 0x85 || n = 0xA0 || n = 0x1680 ||
    (0x2000 ≤ n && n ≤ 0x200A) || n = 0x2028 || n = 0x2029 || n = 0x202F || n = 0x205F || n = 0x3000

def trim (s : String) : String :=
  String.ofList ((s.toList.dropWhile isWhitespace).reverse.dropWhile isWhitespace).reverse

def ruleStageMatches (ruleStage currentStage : String) : Bool :=
  let normalized := trim ruleStage
  normalized.isEmpty || eqIgnoreAsciiCase normalized "both" ||
    eqIgnoreAsciiCase normalized "either" || eqIgnoreAsciiCase normalized currentStage

/-- The throttle profile selected for a request; `ruleStage` is the stage of its rule, if it was
selected by one. -/
structure ThrottleSelection where
  ruleStage : Option String

def ThrottleSelection.matchesStage (selection : ThrottleSelection) (stage : String) : Bool :=
  (selection.ruleStage.map fun ruleStage => ruleStageMatches ruleStage stage).getD true

/-- How the dial, the TLS handshake and the head of a WebSocket upgrade end. -/
inductive WsEstablished where
  | head (bytes : List UInt8) (leftover : List UInt8)
  | failed (error : String)
  | elapsed

inductive Call (Url : Type) where
  | readBody
  | requestScripts (request : ParsedProxyRequest Url)
  | interceptRequest (request : ParsedProxyRequest Url)
  | requestThrottle (selection : ThrottleSelection)
  | responseScripts (request : ParsedProxyRequest Url) (response : UpstreamResponse)
  | responseThrottle (selection : ThrottleSelection)
  | wsEstablish (request : ParsedProxyRequest Url) (rawRequest : String)
  | wsReadBody (leftover : List UInt8)
  | forwardRequest (request : ParsedProxyRequest Url)
  | interceptResponse (request : ParsedProxyRequest Url) (response : UpstreamResponse)
  | openSpoolFile (path : String)

@[reducible] def Call.Answer {Url : Type} : Call Url → Type
  | readBody => BodyRead
  | requestScripts _ => ParsedProxyRequest Url × Option UpstreamResponse
  | interceptRequest _ => Except String (ParsedProxyRequest Url × Option BreakpointResolution)
  | requestThrottle _ => Except String Unit
  | responseScripts _ _ => UpstreamResponse
  | responseThrottle _ => Except String Unit
  | wsEstablish _ _ => WsEstablished
  | wsReadBody _ => Except String (List UInt8)
  | forwardRequest _ => Except ProxyError UpstreamResponse
  | interceptResponse _ _ => Except String (Option BreakpointResolution)
  | openSpoolFile _ => Except String Unit

inductive SendSite where
  | stage1Rejection
  | requestBreakpointDrop
  | throttleFailure
  | mockResponseThrottle
  | mockResponse
  | pending
  | wsUpstreamError
  | wsRefused
  | wsOverLimit
  | wsEstablished
  | upstreamTimeout
  | upstreamError
  | responseRewriteFailed
  | responseBreakpointFailed
  | responseBreakpointDrop
  | responseThrottle
  | completed
  deriving DecidableEq

abbrev Pipe (Url α : Type) := Task (Call Url) Call.Answer SendSite ProxySessionDetail α

section

variable {Url : Type} (request : ParsedProxyRequest Url) (response : UpstreamResponse)

def readBody : Pipe Url BodyRead := Task.await Call.readBody

def applyRequestScriptRules : Pipe Url (ParsedProxyRequest Url × Option UpstreamResponse) :=
  Task.await (Call.requestScripts request)

def interceptRequestStage :
    Pipe Url (Except String (ParsedProxyRequest Url × Option BreakpointResolution)) :=
  Task.await (Call.interceptRequest request)

def applyRequestThrottle (selection : ThrottleSelection) : Pipe Url (Except String Unit) :=
  Task.await (Call.requestThrottle selection)

def applyResponseScriptRules : Pipe Url UpstreamResponse :=
  Task.await (Call.responseScripts request response)

def evaluateResponseThrottle (selection : ThrottleSelection) : Pipe Url (Except String Unit) :=
  Task.await (Call.responseThrottle selection)

def establishWsUpstream (rawRequest : String) : Pipe Url WsEstablished :=
  Task.await (Call.wsEstablish request rawRequest)

def readFullResponseBody (leftover : List UInt8) : Pipe Url (Except String (List UInt8)) :=
  Task.await (Call.wsReadBody leftover)

def forwardRequest : Pipe Url (Except ProxyError UpstreamResponse) :=
  Task.await (Call.forwardRequest request)

def interceptResponseStage : Pipe Url (Except String (Option BreakpointResolution)) :=
  Task.await (Call.interceptResponse request response)

def openSpoolFile (path : String) : Pipe Url (Except String Unit) :=
  Task.await (Call.openSpoolFile path)

end

structure RequestRuntimeOutcome (Url : Type) where
  request : ParsedProxyRequest Url
  localResponse : Option UpstreamResponse
  throttleSelection : Option ThrottleSelection

/-- The connection, and the functions that the pipeline calls without waiting. -/
structure Env (Url : Type) where
  mode : ConnectionMode
  /-- `String::from_utf8_lossy` on bytes that are not UTF-8. -/
  lossy : List UInt8 → String
  isWsUpgrade : Bool
  /-- `build_parsed_request_from_hyper` with the body. -/
  buildParsedRequest : List UInt8 → Except ProxyError (ParsedProxyRequest Url)
  applyRequestRuntimeRules : ParsedProxyRequest Url → Except String (RequestRuntimeOutcome Url)
  applyResponseRewriteRules : ParsedProxyRequest Url → UpstreamResponse →
    Except String UpstreamResponse
  connectHostPort : ParsedProxyRequest Url → String
  buildWsUpgradeRequest : ParsedProxyRequest Url → Except String String
  parseUpstreamResponseHead : List UInt8 → Except String (Nat × List (String × String))
  isValidWsUpgradeHandshake : ParsedProxyRequest Url → List (String × String) → Bool
  refusalBuilds : List (String × String) → Except String Unit
  upgradeBuilds : List (String × String) → Except String Unit
  responseBuilds : HeaderMap → Except String Unit
  relayPermit : Bool
  classifyUpstreamFailure : String → String

end AiProxy.Http
