import AiProxy.Http.WsUpgrade
import AiProxy.Lib.TaskTrace

/-!
# The request pipeline

`handle_http_request` and its stages. The pending session of a request is sent in stage 4, which also
arms the cancellation guard: a guard that is dropped while armed sends a session with status 499.
-/

namespace AiProxy.Http

variable {Url : Type}

inductive Stage1Outcome (Url : Type) where
  | parsed (request : ParsedProxyRequest Url) (wsOnUpgrade : Bool)
  | payloadTooLarge (request : ParsedProxyRequest Url) (limit : Nat)
  | requestTimeout (request : ParsedProxyRequest Url)

def rejectStage1Request (env : Env Url) (request : ParsedProxyRequest Url) (status : StatusCode)
    (message : String) : Pipe Url (Except ProxyError ProxyResponse) := do
  Task.post .stage1Rejection (buildSessionDetail env.lossy request status.val .new)
  pure (.ok (buildPlainTextResponse status message))

def stageParseRequest (env : Env Url) : Pipe Url (Except ProxyError (Stage1Outcome Url)) := do
  match ← readBody with
  | .collected body => pure ((env.buildParsedRequest body).map fun r => .parsed r env.isWsUpgrade)
  | .lengthLimit =>
    pure ((env.buildParsedRequest []).map fun r => .payloadTooLarge r maxCapturedBodyBytes)
  | .failed error => pure (.error (.other ("failed to read request body: " ++ error)))
  | .timedOut => pure ((env.buildParsedRequest []).map fun r => .requestTimeout r)

/-- Runtime rules, then scripts if no rule has produced a response. -/
def stageApplyRequestRules (env : Env Url) (request : ParsedProxyRequest Url) :
    Pipe Url (Except ProxyError (RequestRuntimeOutcome Url)) :=
  match env.applyRequestRuntimeRules request with
  | .error e => pure (.error (.ruleError e))
  | .ok outcome =>
    match outcome.localResponse with
    | some _ => pure (.ok outcome)
    | none => do
      let (request, localResponse) ← applyRequestScriptRules outcome.request
      pure (.ok { outcome with request := request, localResponse := localResponse })

/-- The request throttle, when the selected profile covers the request stage. -/
def requestThrottle (selection : Option ThrottleSelection) : Pipe Url (Except String Unit) :=
  match selection.filter fun s => s.matchesStage "request" with
  | none => pure (.ok ())
  | some s => applyRequestThrottle s

def responseThrottle (selection : Option ThrottleSelection) : Pipe Url (Except String Unit) :=
  match selection.filter fun s => s.matchesStage "response" with
  | none => pure (.ok ())
  | some s => evaluateResponseThrottle s

def buildThrottleFailureResponse (env : Env Url) (request : ParsedProxyRequest Url)
    (error : String) : Pipe Url ProxyResponse := do
  Task.post .throttleFailure
    ((buildSessionDetail env.lossy request StatusCode.gatewayTimeout.val .new).setFailure
      (.proxy "throttled" error))
  pure (buildPlainTextResponse .gatewayTimeout
    "The request was dropped by the active throttle profile.")

/-- The client response for an upstream response; the builder may reject its headers. -/
def buildHyperResponseFromUpstream (env : Env Url) (response : UpstreamResponse)
    (body : ResponseBody) : Except ProxyError ProxyResponse :=
  match env.responseBuilds response.responseHeaders with
  | .error e => .error (.responseBuildError e)
  | .ok () => .ok ⟨response.statusCode, body⟩

inductive BreakpointRequestOutcome (Url : Type) where
  | drop (response : ProxyResponse)
  | mock (response : ProxyResponse)
  | forward (editedRequest : Option (ParsedProxyRequest Url))

/-- A mock response of the breakpoint goes through the response rules and throttles. -/
def answerMock (env : Env Url) (request : ParsedProxyRequest Url)
    (selection : Option ThrottleSelection) (mock : MockResponse) :
    Pipe Url (Except ProxyError (BreakpointRequestOutcome Url)) := do
  match ← requestThrottle selection with
  | .error failure => do
    let response ← buildThrottleFailureResponse env request failure
    pure (.ok (.drop response))
  | .ok () =>
    match env.applyResponseRewriteRules request (buildMockUpstreamResponse mock) with
    | .error e => pure (.error (.ruleError e))
    | .ok response => do
      let response ← applyResponseScriptRules request response
      match ← responseThrottle selection with
      | .error failure => do
        Task.post .mockResponseThrottle
          ((buildSessionDetail env.lossy request StatusCode.gatewayTimeout.val .new).setFailure
            (.proxy "throttled" failure))
        pure (.ok (.drop (buildPlainTextResponse .gatewayTimeout
          "The response was dropped by the active throttle profile.")))
      | .ok () => do
        Task.post .mockResponse (buildUpstreamSessionDetail env.lossy request response)
        pure ((buildHyperResponseFromUpstream env response (.bytes response.responseBody)).map
          fun r => .mock r)

def stageInterceptRequestBreakpoint (env : Env Url) (request : ParsedProxyRequest Url)
    (selection : Option ThrottleSelection) :
    Pipe Url (Except ProxyError (BreakpointRequestOutcome Url)) := do
  match ← interceptRequestStage request with
  | .error e => pure (.error (.other e))
  | .ok (_, none) => pure (.ok (.forward none))
  | .ok (requestMut, some resolution) =>
    match resolution.action with
    | .drop => do
      Task.post .requestBreakpointDrop (buildBreakpointDropDetail env.lossy requestMut
        (breakpointDropStatus env.mode) "The request was dropped by the active breakpoint rule.")
      pure ((handleDropAction env.mode).map fun r => .drop r)
    | .mock =>
      match resolution.mock with
      | none => pure (.ok (.forward none))
      | some mock => answerMock env request selection mock
    | .forward => pure (.ok (.forward (some requestMut)))

inductive PendingThrottleOutcome where
  | throttleFailed (response : ProxyResponse)
  | proceed

def stageSendPendingAndThrottle (env : Env Url) (request : ParsedProxyRequest Url)
    (selection : Option ThrottleSelection) : Pipe Url PendingThrottleOutcome := do
  Task.post .pending (buildPendingSessionDetail request)
  Task.arm (cancellationDetail env.lossy request clientClosed)
  match ← requestThrottle selection with
  | .ok () => pure .proceed
  | .error failure => do
    let response ← buildThrottleFailureResponse env request failure
    pure (.throttleFailed response)

inductive ForwardOutcome where
  | completed (response : UpstreamResponse)
  /-- A terminal response; the guard is disarmed. -/
  | response (response : ProxyResponse)
  /-- The guard is still armed. -/
  | upstreamError (error : ProxyError)

def stageForwardUpstream (env : Env Url) (request : ParsedProxyRequest Url)
    (localResponse : Option UpstreamResponse) : Pipe Url ForwardOutcome :=
  match localResponse with
  | some response => pure (.completed response)
  | none => do
    match ← forwardRequest request with
    | .ok response => pure (.completed response)
    | .error (.upstreamTimeout secs) => do
      Task.post .upstreamTimeout
        ((buildSessionDetail env.lossy request StatusCode.gatewayTimeout.val .new).setFailure
          (.upstream "upstream_timeout"
            ("The upstream did not respond within " ++ toString secs ++ "s.")))
      Task.disarm
      pure (.response (buildPlainTextResponse .gatewayTimeout
        ("The upstream server did not respond within " ++ toString secs ++ "s.")))
    | .error error => pure (.upstreamError error)

def buildUpstreamErrorResponseAndSession (env : Env Url) (request : ParsedProxyRequest Url)
    (error : ProxyError) : Pipe Url ProxyResponse := do
  Task.post .upstreamError
    ((buildSessionDetail env.lossy request StatusCode.badGateway.val .new).setFailure
      (.fromProxyError error))
  pure (buildPlainTextResponse .badGateway "The proxy could not reach the upstream server.")

/-- Response rules and scripts; a truncated body passes through unchanged. A failed rewrite is
answered with 502. -/
def processResponseRules (env : Env Url) (request : ParsedProxyRequest Url)
    (response : UpstreamResponse) : Pipe Url (Except ProxyResponse UpstreamResponse) :=
  if response.bodyTruncated then pure (.ok response)
  else
    match env.applyResponseRewriteRules request response with
    | .error e => do
      Task.post .responseRewriteFailed
        ((buildSessionDetail env.lossy request StatusCode.badGateway.val .new).setFailure
          (.proxy "rewrite_failed" e))
      Task.disarm
      pure (.error (buildPlainTextResponse .badGateway
        "The proxy could not process the upstream response."))
    | .ok response => do
      let response ← applyResponseScriptRules request response
      pure (.ok response)

/-- The session of a response; an HTTP/2 session shows the status as a pseudo header too. -/
def responseSessionDetail (env : Env Url) (request : ParsedProxyRequest Url)
    (response : UpstreamResponse) : ProxySessionDetail :=
  let detail := buildUpstreamSessionDetail env.lossy request response
  if env.mode.isH2 then
    { detail with
      responseHeaders := ⟨":status", toString response.statusCode.val, some true⟩ ::
        detail.responseHeaders }
  else detail

/-- Apply a resolution that mocks or edits the response, to the response and to its session. -/
def applyResolution (env : Env Url) (request : ParsedProxyRequest Url)
    (resolution : BreakpointResolution) (response : UpstreamResponse)
    (detail : ProxySessionDetail) : UpstreamResponse × ProxySessionDetail :=
  match resolution.action with
  | .mock =>
    match resolution.mock with
    | some mock =>
      let response := buildMockUpstreamResponse mock
      (response, buildUpstreamSessionDetail env.lossy request response)
    | none => (response, detail)
  | _ =>
    let response := applyResponseResolution resolution response
    if resolution.modifiedResponseBodyBase64.isSome then
      (response, buildUpstreamSessionDetail env.lossy request response)
    else
      let detail := if resolution.modifiedResponseStatusCode.isSome then
        { detail with statusCode := response.statusCode.val } else detail
      let detail := if resolution.modifiedResponseHeaders.isSome then
        { detail with
          responseHeaders := buildHeaderEntriesFromMap env.lossy response.responseHeaders }
        else detail
      let detail := if resolution.modifiedResponseStatusCode.isSome ∨
          resolution.modifiedResponseHeaders.isSome then
        { detail with rawResponseHead := some (response.statusCode.val, detail.responseHeaders) }
        else detail
      (response, detail)

inductive ResponseBreakpoint where
  | goOn (response : UpstreamResponse) (detail : ProxySessionDetail)
  /-- The session has been sent and the guard disarmed. -/
  | stop (result : Except ProxyError ProxyResponse)

def interceptResponseBreakpoint (env : Env Url) (request : ParsedProxyRequest Url)
    (response : UpstreamResponse) (detail : ProxySessionDetail) : Pipe Url ResponseBreakpoint :=
  if response.bodyTruncated then pure (.goOn response detail)
  else do
    match ← interceptResponseStage request response with
    | .error e => do
      Task.post .responseBreakpointFailed detail
      Task.disarm
      pure (.stop (.error (.other e)))
    | .ok none => pure (.goOn response detail)
    | .ok (some resolution) =>
      if resolution.action = .drop then do
        Task.post .responseBreakpointDrop (buildBreakpointDropDetail env.lossy request
          (breakpointDropStatus env.mode) "The response was dropped by the active breakpoint rule.")
        Task.disarm
        pure (.stop (handleDropAction env.mode))
      else
        let r := applyResolution env request resolution response detail
        pure (.goOn r.1 r.2)

def respond (env : Env Url) (response : UpstreamResponse) :
    Pipe Url (Except ProxyError ProxyResponse) :=
  match response.spooledResponsePath with
  | none => pure (buildHyperResponseFromUpstream env response (.bytes response.responseBody))
  | some path => do
    match ← openSpoolFile path with
    | .error e => pure (.error (.ioError .other e))
    | .ok () => pure (buildHyperResponseFromUpstream env response (.spooled path))

/-- The response throttle, then the session and the response. A response that the throttle drops is
answered with 504. -/
def finishResponse (env : Env Url) (selection : Option ThrottleSelection)
    (response : UpstreamResponse) (detail : ProxySessionDetail) :
    Pipe Url (Except ProxyError ProxyResponse) := do
  match ← responseThrottle selection with
  | .error failure => do
    Task.post .responseThrottle (detail.setFailure (.proxy "throttled" failure))
    Task.disarm
    pure (.ok (buildPlainTextResponse .gatewayTimeout
      "The response was dropped by the active throttle profile."))
  | .ok () => do
    Task.post .completed detail
    Task.disarm
    respond env response

def stageProcessUpstreamResponse (env : Env Url) (request : ParsedProxyRequest Url)
    (response : UpstreamResponse) (selection : Option ThrottleSelection) :
    Pipe Url (Except ProxyError ProxyResponse) := do
  match ← processResponseRules env request response with
  | .error answer => pure (.ok answer)
  | .ok response => do
    match ← interceptResponseBreakpoint env request response
        (responseSessionDetail env request response) with
    | .stop result => pure result
    | .goOn response detail => finishResponse env selection response detail

/-- Stages 5b and 6. An upstream error other than a timeout disarms the guard and then sends the
502 session. -/
def forwardAndProcess (env : Env Url) (request : ParsedProxyRequest Url)
    (outcome : RequestRuntimeOutcome Url) : Pipe Url (Except ProxyError ProxyResponse) := do
  match ← stageForwardUpstream env request outcome.localResponse with
  | .response response => pure (.ok response)
  | .upstreamError error => do
    Task.disarm
    let response ← buildUpstreamErrorResponseAndSession env request error
    pure (.ok response)
  | .completed response =>
    stageProcessUpstreamResponse env request response outcome.throttleSelection

/-- Stages 4 to 6. -/
def runWithPendingSession (env : Env Url) (wsOnUpgrade : Bool) (request : ParsedProxyRequest Url)
    (outcome : RequestRuntimeOutcome Url) : Pipe Url (Except ProxyError ProxyResponse) := do
  match ← stageSendPendingAndThrottle env request outcome.throttleSelection with
  | .throttleFailed response => do
    Task.disarm
    pure (.ok response)
  | .proceed =>
    if wsOnUpgrade && outcome.localResponse.isNone then do
      match ← handleWsUpgradeViaHyper env request with
      | .ok response => do
        Task.disarm
        pure (.ok response)
      | .error e => do
        Task.amend fun d => d.setFailure (.proxy "proxy_internal" e.toText)
        pure (.error e)
    else forwardAndProcess env request outcome

/-- Stages 2 to 6. -/
def runStages (env : Env Url) (request : ParsedProxyRequest Url) (wsOnUpgrade : Bool) :
    Pipe Url (Except ProxyError ProxyResponse) := do
  match ← stageApplyRequestRules env request with
  | .error e => pure (.error e)
  | .ok outcome => do
    match ← stageInterceptRequestBreakpoint env outcome.request outcome.throttleSelection with
    | .error e => pure (.error e)
    | .ok (.drop response) => pure (.ok response)
    | .ok (.mock response) => pure (.ok response)
    | .ok (.forward editedRequest) =>
      runWithPendingSession env wsOnUpgrade (editedRequest.getD outcome.request) outcome

def handleHttpRequest (env : Env Url) : Pipe Url (Except ProxyError ProxyResponse) := do
  match ← stageParseRequest env with
  | .error e => pure (.error e)
  | .ok (.payloadTooLarge request limit) =>
    rejectStage1Request env request .payloadTooLarge
      ("Request body exceeds the " ++ toString limit ++
        " byte capture limit and was rejected.")
  | .ok (.requestTimeout request) =>
    rejectStage1Request env request .requestTimeout
      "Timed out after 120s while reading the request body."
  | .ok (.parsed request wsOnUpgrade) => runStages env request wsOnUpgrade

/-! ## The recorded status and the status on the wire

When the terminal session of a request shows the status that its client has received, and which
steps of the pipeline make the two differ. -/

variable {Url : Type}

/-- The session shows this status: as its status code and in the `:status` pseudo header, if it has
one. A header name has no colon, so an entry of that name is one the pipeline has added. -/
def ProxySessionDetail.ShowsStatus (d : ProxySessionDetail) (status : StatusCode) : Prop :=
  d.statusCode = status.val ∧ ∀ e ∈ d.responseHeaders, e.name = ":status" → e.isPseudo = some true →
    e.value = toString status.val

/-- The one terminal session of the log shows the status of the response. -/
def RecordsWireStatus (log : List ProxySessionDetail) (response : ProxyResponse) : Prop :=
  ∃ d, log.filter (fun d => !d.pending) = [d] ∧ d.ShowsStatus response.status

/-- The resolution forwards the response with another status and edits nothing else. -/
def ChangesStatusOnly (resolution : BreakpointResolution) (response : UpstreamResponse) : Prop :=
  resolution.action = .forward ∧ resolution.modifiedResponseHeaders = none ∧
    resolution.modifiedResponseBodyBase64 = none ∧
    (applyResponseResolution resolution response).statusCode ≠ response.statusCode

abbrev PipeStep (Url : Type) := Task.Step (Call Url) Call.Answer SendSite ProxySessionDetail

/-- The step does not part the recorded status from the one on the wire: a resolution that changes
only the status is not applied to an HTTP/2 response, a refusal of a WebSocket upgrade has a number
that is a status code, and the response throttle drops no response. -/
def KeepsStatus (mode : ConnectionMode) : PipeStep Url → Prop
  | .answered (.interceptResponse _ response) (.ok (some resolution)) =>
    mode.isH2 = true → ¬ ChangesStatusOnly resolution response
  | .sent .wsRefused d => ∃ status : StatusCode, d.statusCode = status.val
  | .sent .responseThrottle _ => False
  | _ => True

end AiProxy.Http
