import AiProxy.Http.Calls

/-!
# The WebSocket upgrade

`handle_ws_upgrade_via_hyper`: dial the upstream, send the upgrade request and answer the client
with the upstream's refusal, with 101 or with 502. The relay that is started after a 101 is a task
of its own.
-/

namespace AiProxy.Http

variable {Url : Type}

def statusOrBadGateway (code : Nat) : StatusCode :=
  match StatusCode.fromU16 code with
  | .ok status => status
  | .error _ => .badGateway

def sendWsUpstreamErrorSession (env : Env Url) (request : ParsedProxyRequest Url)
    (error : String) : Pipe Url ProxyResponse := do
  Task.post .wsUpstreamError
    ((buildSessionDetail env.lossy request StatusCode.badGateway.val .new).setFailure
      (.upstream (env.classifyUpstreamFailure error) error))
  pure (buildPlainTextResponse .badGateway
    "The proxy could not reach the WebSocket upstream server.")

def shouldForwardRefusalHeader (name : String) (malformed101 : Bool) : Bool :=
  !(eqIgnoreAsciiCase name "connection" || eqIgnoreAsciiCase name "transfer-encoding" ||
      eqIgnoreAsciiCase name "content-length") &&
    !(malformed101 && (eqIgnoreAsciiCase name "upgrade" ||
      eqIgnoreAsciiCase name "sec-websocket-accept" ||
      eqIgnoreAsciiCase name "sec-websocket-extensions"))

/-- The upstream did not agree to upgrade: forward its response. A 101 whose handshake is invalid
is answered with 502, and the session shows what the client receives. -/
def forwardWsRefusal (env : Env Url) (request : ParsedProxyRequest Url)
    (detail : ProxySessionDetail) (statusCode : Nat) (upstreamHeaders : List (String × String))
    (body : List UInt8) : Pipe Url ProxyResponse := do
  let malformed101 : Bool := statusCode = 101
  let forwardedStatus := if malformed101 then StatusCode.badGateway.val else statusCode
  match env.refusalBuilds upstreamHeaders with
  | .error e =>
    sendWsUpstreamErrorSession env request ("failed to build upstream error response: " ++ e)
  | .ok () => do
    let entries :=
      (detail.responseHeaders.filter fun h => shouldForwardRefusalHeader h.name true) ++
        [⟨"Content-Length", toString body.length, none⟩]
    Task.post .wsRefused (if malformed101 then
      { detail with
        statusCode := StatusCode.badGateway.val
        responseHeaders := entries
        rawResponseHead := some (StatusCode.badGateway.val, entries) } else detail)
    pure ⟨statusOrBadGateway forwardedStatus, .bytes body⟩

/-- The upstream agreed to upgrade: reserve a slot for the relay, then answer 101. -/
def acceptWsUpgrade (env : Env Url) (request : ParsedProxyRequest Url)
    (detail : ProxySessionDetail) (upstreamHeaders : List (String × String)) :
    Pipe Url ProxyResponse :=
  if env.relayPermit then
    match env.upgradeBuilds upstreamHeaders with
    | .error e => sendWsUpstreamErrorSession env request ("failed to build 101 response: " ++ e)
    | .ok () => do
      Task.post .wsEstablished detail
      pure ⟨.switchingProtocols, .empty⟩
  else do
    Task.post .wsOverLimit { detail with statusCode := StatusCode.serviceUnavailable.val }
    pure (buildPlainTextResponse .serviceUnavailable
      "The proxy is at its connection limit; try again later.")

def answerWsHead (env : Env Url) (request : ParsedProxyRequest Url) (head leftover : List UInt8) :
    Pipe Url ProxyResponse :=
  match env.parseUpstreamResponseHead head with
  | .error e => sendWsUpstreamErrorSession env request e
  | .ok (statusCode, upstreamHeaders) =>
    let detail := buildSessionDetail env.lossy request statusCode
      (headerMapFromEntries (upstreamHeaders.map fun h => ⟨h.1, h.2, none⟩))
    if statusCode ≠ 101 ∨ env.isValidWsUpgradeHandshake request upstreamHeaders = false then
      -- a 101 carries no body: what follows its head are frames
      if statusCode = 101 then
        forwardWsRefusal env request detail statusCode upstreamHeaders leftover
      else do
        match ← readFullResponseBody leftover with
        | .error e =>
          sendWsUpstreamErrorSession env request ("failed to read upstream non-101 body: " ++ e)
        | .ok body => forwardWsRefusal env request detail statusCode upstreamHeaders body
    else acceptWsUpgrade env request detail upstreamHeaders

/-- Dial the upstream, send the upgrade request and read the response head, within the request
timeout. -/
def connectWsUpstream (env : Env Url) (request : ParsedProxyRequest Url) (rawRequest : String) :
    Pipe Url ProxyResponse := do
  match ← establishWsUpstream request rawRequest with
  | .failed error => sendWsUpstreamErrorSession env request error
  | .elapsed =>
    sendWsUpstreamErrorSession env request
      ("WebSocket upgrade to " ++ env.connectHostPort request ++ " did not complete within 120s")
  | .head head leftover => answerWsHead env request head leftover

def answerWsUpgrade (env : Env Url) (request : ParsedProxyRequest Url) : Pipe Url ProxyResponse :=
  match env.buildWsUpgradeRequest request with
  | .error e => sendWsUpstreamErrorSession env request e
  | .ok rawRequest => connectWsUpstream env request rawRequest

/-- Every failure of the upstream is answered with 502, so the result is never an error. -/
def handleWsUpgradeViaHyper (env : Env Url) (request : ParsedProxyRequest Url) :
    Pipe Url (Except ProxyError ProxyResponse) := do
  let response ← answerWsUpgrade env request
  pure (.ok response)

end AiProxy.Http
