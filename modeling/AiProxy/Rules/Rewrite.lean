import AiProxy.Rules.BodyFields

/-!
# Rewrite rules of the request stage

The rules that match a request run one after the other on it; how they are chosen is left out. After a
rule with a successful action the parts of the request that are derived from its entries and its URL are
rebuilt.

Functions that take the request by `&mut` return the request they leave behind also when they fail.
Durations are left out of the traces.
-/

namespace AiProxy.Rules

open Http (ParsedProxyRequest UrlOps asBytes eqIgnoreAsciiCase lossyText
  setHeaderEntry removeHeaderEntry stripPlainBodyEditHeaderEntries headerEntryValue
  buildUpstreamHeadersFromEntries buildRequestPath buildQueryParams hostHeaderValue
  buildRawHttpHead)
open Json (Value)

/-! ## Rules and payloads -/

structure RewriteRuleMatch where
  methods : List String
  stage : String
  urlPattern : String
  matchType : Option String

structure RewriteRule (N : Type) where
  actions : Option (List (Value N))
  id : String
  enabled : Bool
  name : String
  priority : Nat
  matching : RewriteRuleMatch
  rewriteType : String
  workspaceId : String
  payload : Value N

structure RewriteHeaderPayload where
  headerName : String
  operation : String
  target : String
  value : Option String

structure RewriteQueryPayload where
  operation : String
  paramName : String
  value : Option String

structure RewriteBodyPayload where
  contentType : String
  fields : Option (List RewriteBodyFieldPayload)
  mode : Option String
  target : String
  text : Option String

structure RewriteRedirectPayload where
  preservePath : Bool
  preserveQuery : Bool
  targetUrl : String

inductive RewriteOutcome where
  | success
  | skipped
  | error
  deriving DecidableEq

structure RewriteTrace where
  entries : List RewriteTraceEntry
  outcome : RewriteOutcome
  ruleId : String
  ruleName : String
  rewriteType : String
  stage : String

/-- The codec and the deserializers of the payloads. -/
structure RewriteEnv (N : Type) extends Codec N where
  headerPayload : Value N → Except String RewriteHeaderPayload
  queryPayload : Value N → Except String RewriteQueryPayload
  bodyPayload : Value N → Except String RewriteBodyPayload
  redirectPayload : Value N → Except String RewriteRedirectPayload

def parsePayload {N P : Type} (fromValue : Value N → Except String P) (ruleId rewriteType : String)
    (payload : Value N) : Except String P :=
  (fromValue payload).mapError fun error =>
    "rewrite rule '" ++ ruleId ++ "' has an invalid payload for type '" ++ rewriteType ++ "': " ++
      error

section Actions

variable {N : Type}

def stringValue : Value N → Option String
  | .string s => String.fromUTF8? ⟨s.toArray⟩
  | _ => none

/-- The type and the payload of an action in the new format. -/
def expandAction (action : Value N) : Option (String × Value N) := do
  let rewriteType ← (← action.child (.key (asBytes "rewriteType"))) |> stringValue
  let payload ← action.child (.key (asBytes "payload"))
  some (rewriteType, payload)

def rewriteActions (rule : RewriteRule N) : List (String × Value N) :=
  match (rule.actions.getD []).filterMap expandAction with
  | [] => [(rule.rewriteType, rule.payload)]
  | expanded => expanded

end Actions

/-! ## Actions -/

structure RuleRun (Url : Type) where
  request : ParsedProxyRequest Url
  entries : List RewriteTraceEntry

def RuleRun.push {Url : Type} (run : RuleRun Url) (entry : RewriteTraceEntry) : RuleRun Url :=
  { run with entries := run.entries ++ [entry] }

section Previews

variable {N Url : Type} [UrlOps Url]

def queryParamValue (url : Url) (name : String) : Option String :=
  match ((UrlOps.queryPairs url).filter fun p => eqIgnoreAsciiCase p.1 name).map (·.2) with
  | [] => none
  | values => some (", ".intercalate values)

def previewLimit : Nat := 2048

def bodyPreview (c : Codec N) (bytes : List UInt8) : Option String :=
  if bytes = [] then none
  else
    let full := lossyText c.lossy bytes
    if previewLimit < (asBytes full).length then
      some (String.ofList (Http.SessionFailure.truncateBytes previewLimit full.toList) ++ "...")
    else some full

end Previews

section Apply

variable {N Url : Type} [UrlOps Url] [BEq N] (env : RewriteEnv N) (isHttp2 : Bool)

def applyHeaderAction (payload : RewriteHeaderPayload) (sequence : Nat) (run : RuleRun Url) :
    RuleRun Url × Except String RewriteOutcome :=
  if !eqIgnoreAsciiCase payload.target "request" then
    (run.push (traceEntry sequence "skip" (some payload.headerName) none none
      (some "header target does not apply to request stage")), .ok .skipped)
  else
    let before := headerEntryValue run.request.requestHeaders payload.headerName
    let requestHeaders :=
      if eqIgnoreAsciiCase payload.operation "remove" then
        removeHeaderEntry run.request.requestHeaders payload.headerName
      else
        match payload.value with
        | some value => setHeaderEntry run.request.requestHeaders payload.headerName value
        | none => run.request.requestHeaders
    let run := { run with request := { run.request with requestHeaders := requestHeaders } }
    let after := headerEntryValue run.request.requestHeaders payload.headerName
    (run.push (traceEntry sequence "header" (some payload.headerName) before after
      (some payload.operation)), .ok .success)

def applyQueryAction (payload : RewriteQueryPayload) (sequence : Nat) (run : RuleRun Url) :
    RuleRun Url × Except String RewriteOutcome :=
  let before := queryParamValue run.request.url payload.paramName
  let queryPairs := (UrlOps.queryPairs run.request.url).filter fun p =>
    !eqIgnoreAsciiCase p.1 payload.paramName
  let queryPairs :=
    if eqIgnoreAsciiCase payload.operation "remove" then queryPairs
    else queryPairs ++ [(payload.paramName, payload.value.getD "")]
  let url := UrlOps.setQuery run.request.url none
  let url := if queryPairs = [] then url else UrlOps.appendPairs url queryPairs
  let run := { run with request := { run.request with url := url } }
  let after := queryParamValue run.request.url payload.paramName
  (run.push (traceEntry sequence "query" (some payload.paramName) before after
    (some payload.operation)), .ok .success)

def replaceBody (payload : RewriteBodyPayload) (sequence : Nat) (run : RuleRun Url) :
    Except String (RuleRun Url) :=
  if eqIgnoreAsciiCase (payload.mode.getD "replace") "fields" then do
    let (body, fieldEntries) ← applyBodyFieldRewrite env.toCodec run.request.body
      (run.request.headers.get "content-encoding") (payload.fields.getD [])
    .ok
      { run with
        request := { run.request with body := body }
        entries := run.entries ++ fieldEntries }
  else
    let before := bodyPreview env.toCodec run.request.body
    let body := asBytes (payload.text.getD "")
    .ok (RuleRun.push { run with request := { run.request with body := body } }
      (traceEntry sequence "body" (some "content-type") before (bodyPreview env.toCodec body)
        (some payload.contentType)))

def applyBodyAction (payload : RewriteBodyPayload) (sequence : Nat) (run : RuleRun Url) :
    RuleRun Url × Except String RewriteOutcome :=
  if !eqIgnoreAsciiCase payload.target "request" then
    (run.push (traceEntry sequence "skip" (some "body") none none
      (some "body target does not apply to request stage")), .ok .skipped)
  else if isHttp2 then
    (run.push (traceEntry sequence "skip" (some "body") none none
      (some "HTTP/2 body rewrite not supported")), .ok .skipped)
  else
    match replaceBody env payload sequence run with
    | .error error => (run, .error error)
    | .ok run =>
      let requestHeaders := stripPlainBodyEditHeaderEntries
        (setHeaderEntry run.request.requestHeaders "content-type" payload.contentType)
      ({ run with request := { run.request with requestHeaders := requestHeaders } }, .ok .success)

def applyRedirectAction (payload : RewriteRedirectPayload) (ruleId : String) (sequence : Nat)
    (run : RuleRun Url) : RuleRun Url × Except String RewriteOutcome :=
  let before := UrlOps.asStr run.request.url
  match UrlOps.parse payload.targetUrl with
  | .error error =>
    (run, .error ("rewrite rule '" ++ ruleId ++ "' points to an invalid target URL '" ++
      payload.targetUrl ++ "': " ++ error))
  | .ok (redirected : Url) =>
    let redirected :=
      if payload.preservePath then UrlOps.setPath redirected (UrlOps.path run.request.url)
      else redirected
    let redirected :=
      if payload.preserveQuery then UrlOps.setQuery redirected (UrlOps.query run.request.url)
      else redirected
    (RuleRun.push { run with request := { run.request with url := redirected } }
      (traceEntry sequence "redirect" (some "url") (some before)
        (some (UrlOps.asStr redirected)) none), .ok .success)

/-- `?` on a payload: an invalid payload ends the action. -/
def withPayload {P : Type} (run : RuleRun Url) (payload : Except String P)
    (act : P → RuleRun Url × Except String RewriteOutcome) :
    RuleRun Url × Except String RewriteOutcome :=
  match payload with
  | .ok payload => act payload
  | .error error => (run, .error error)

def applyRequestAction (rewriteType : String) (payload : Value N) (ruleId : String)
    (sequence : Nat) (run : RuleRun Url) : RuleRun Url × Except String RewriteOutcome :=
  if rewriteType = "header" then
    withPayload run (parsePayload env.headerPayload ruleId rewriteType payload) fun payload =>
      applyHeaderAction payload sequence run
  else if rewriteType = "query" then
    withPayload run (parsePayload env.queryPayload ruleId rewriteType payload) fun payload =>
      applyQueryAction payload sequence run
  else if rewriteType = "body" then
    withPayload run (parsePayload env.bodyPayload ruleId rewriteType payload) fun payload =>
      applyBodyAction env isHttp2 payload sequence run
  else if rewriteType = "redirect" then
    withPayload run (parsePayload env.redirectPayload ruleId rewriteType payload) fun payload =>
      applyRedirectAction payload ruleId sequence run
  else
    (run.push (traceEntry sequence "skip" (some rewriteType) none none
      (some "unsupported rewrite type")), .ok .skipped)

structure ActionLoop (Url : Type) where
  run : RuleRun Url
  anySuccess : Bool
  anySkipped : Bool
  firstError : Option String

def actionLoopStep (ruleId : String) (loop : ActionLoop Url) (action : (String × Value N) × Nat) :
    ActionLoop Url :=
  match applyRequestAction env isHttp2 action.1.1 action.1.2 ruleId action.2 loop.run with
  | (run, .ok .success) => { loop with run := run, anySuccess := true }
  | (run, .ok .skipped) => { loop with run := run, anySkipped := true }
  | (run, .ok .error) => { loop with run := run }
  | (run, .error error) =>
    { loop with
      run := run.push (traceEntry action.2 "error" none none none (some error))
      firstError := loop.firstError.or (some error) }

def applyOneRequestRule (rule : RewriteRule N) (run : RuleRun Url) :
    RuleRun Url × Except String RewriteOutcome :=
  let loop := (rewriteActions rule).zipIdx.foldl (actionLoopStep env isHttp2 rule.id)
    ⟨run, false, false, none⟩
  (loop.run,
    if loop.anySuccess then .ok .success
    else if loop.anySkipped then .ok .skipped
    else .error (loop.firstError.getD "rewrite rule has no applicable actions"))

/-- The header map is assigned before the URL is checked. -/
def rebuildRequestRuntimeState (request : ParsedProxyRequest Url) :
    ParsedProxyRequest Url × Except String Unit :=
  match buildUpstreamHeadersFromEntries request.requestHeaders with
  | .error error => (request, .error error)
  | .ok headers =>
    let request := { request with headers := headers }
    match UrlOps.hostStr request.url with
    | none =>
      (request, .error "request URL does not contain a host after runtime transformation")
    | some host =>
      let path := buildRequestPath request.url
      let requestHeaders := setHeaderEntry request.requestHeaders "Host"
        (hostHeaderValue request.url)
      ({ request with
          host := host
          path := path
          protocol := UrlOps.scheme request.url
          queryParams := buildQueryParams request.url
          requestHeaders := requestHeaders
          rawRequest := buildRawHttpHead (request.method ++ " " ++ path ++ " HTTP/1.1")
            requestHeaders }, .ok ())

def failRule (run : RuleRun Url) (error : String) : RuleRun Url × RewriteOutcome :=
  (run.push (traceEntry 0 "error" none none none (some error)), .error)

/-- After the actions: a successful rule rebuilds the request, and fails if that fails. -/
def settleRule (run : RuleRun Url) : Except String RewriteOutcome → RuleRun Url × RewriteOutcome
  | .ok .success =>
    match rebuildRequestRuntimeState run.request with
    | (request, .ok ()) => ({ run with request := request }, .success)
    | (request, .error error) => failRule { run with request := request } error
  | .ok outcome => (run, outcome)
  | .error error => failRule run error

def applyRequestRule (rule : RewriteRule N) (request : ParsedProxyRequest Url) :
    ParsedProxyRequest Url × RewriteTrace :=
  let (run, result) := applyOneRequestRule env isHttp2 rule ⟨request, []⟩
  let (run, outcome) := settleRule run result
  (run.request, ⟨run.entries, outcome, rule.id, rule.name, rule.rewriteType, "request"⟩)

/-- The loop of `apply_request_rewrite_rules_with_snapshot` over the rules it has chosen. -/
def applyRequestRules :
    List (RewriteRule N) → ParsedProxyRequest Url → ParsedProxyRequest Url × List RewriteTrace
  | [], request => (request, [])
  | rule :: rules, request =>
    let (request, trace) := applyRequestRule env isHttp2 rule request
    let (request, traces) := applyRequestRules rules request
    (request, trace :: traces)

end Apply

end AiProxy.Rules
