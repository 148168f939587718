import AiProxy.Rules.Managers

/-!
# Map rules

The rule that is chosen for a request answers it from a file or points it to another URL. The choice of
the rule and the reading of files are parameters; durations are left out of the traces.
-/

namespace AiProxy.Rules

open Http (ParsedProxyRequest UpstreamResponse UrlOps buildUpstreamHeadersFromEntries
  buildRequestPath buildQueryParams hostHeaderValue buildRawHttpHead setHeaderEntry)

variable {Url : Type} [UrlOps Url]

structure MapTrace where
  failureReason : Option String
  localPath : Option String
  mappedUrl : Option String
  mode : String
  originalUrl : String
  outcome : String
  ruleId : String
  ruleName : String
  sourcePattern : String
  targetValue : String

def joinRemoteBasePath (base requestPath : String) : String :=
  let base := if base.isEmpty then "/" else base
  let request := if requestPath.isEmpty then "/" else requestPath
  if base = "/" then request
  else
    let base := (base.toList.reverse.dropWhile (· = '/')).reverse
    let request := request.toList.dropWhile (· = '/')
    let scope := base.dropWhile (· = '/')
    if request = scope ∨ (scope ++ ['/']).isPrefixOf request then String.ofList ('/' :: request)
    else String.ofList (base ++ '/' :: request)

/-- The URL is assigned before the rest of the request is rebuilt. -/
def applyRemoteMapRule (request : ParsedProxyRequest Url) (rule : MapRule) :
    ParsedProxyRequest Url × Except String String :=
  match UrlOps.parse rule.targetValue with
  | .error error =>
    (request, .error ("map remote rule '" ++ rule.id ++ "' points to an invalid target URL '" ++
      rule.targetValue ++ "': " ++ error))
  | .ok (mapped : Url) =>
    let mapped :=
      if rule.preservePath then
        UrlOps.setPath mapped (joinRemoteBasePath (UrlOps.path mapped) (UrlOps.path request.url))
      else mapped
    let mapped :=
      if rule.preserveQuery then UrlOps.setQuery mapped (UrlOps.query request.url) else mapped
    match rebuildRequestRuntimeState { request with url := mapped } with
    | (request, .error error) =>
      (request, .error ("map remote rule '" ++ rule.id ++ "' could not rebuild request state for '" ++
        UrlOps.asStr mapped ++ "': " ++ error))
    | (request, .ok ()) => (request, .ok (UrlOps.asStr mapped))

/-- A failed rule is rolled back: the URL is restored, and the rest is rebuilt from it. -/
def applyRemote (request : ParsedProxyRequest Url) (rule : MapRule) :
    ParsedProxyRequest Url × Except String String :=
  match applyRemoteMapRule request rule with
  | (mapped, .ok mappedUrl) => (mapped, .ok mappedUrl)
  | (left, .error error) =>
    ((rebuildRequestRuntimeState { left with url := request.url }).1, .error error)

def mapTrace (rule : MapRule) (originalUrl outcome : String)
    (failureReason localPath mappedUrl : Option String) : MapTrace :=
  ⟨failureReason, localPath, mappedUrl, rule.mode, originalUrl, outcome, rule.id, rule.name,
    rule.sourcePattern, rule.targetValue⟩

/-- `apply_map_rules_with_snapshot`, with the rule that the snapshot gives. -/
def applyMapRules
    (applyLocal : ParsedProxyRequest Url → MapRule → Except String (UpstreamResponse × String))
    (rule : Option MapRule) (request : ParsedProxyRequest Url) :
    ParsedProxyRequest Url × Option UpstreamResponse × List MapTrace :=
  match rule with
  | none => (request, none, [])
  | some rule =>
    let trace := mapTrace rule (UrlOps.asStr request.url)
    if rule.mode = "local" then
      match applyLocal request rule with
      | .ok (response, path) => (request, some response, [trace "success" none (some path) none])
      | .error error => (request, none, [trace "failed" (some error) none none])
    else if rule.mode = "remote" then
      match applyRemote request rule with
      | (request, .ok mapped) => (request, none, [trace "success" none none (some mapped)])
      | (request, .error error) => (request, none, [trace "failed" (some error) none none])
    else (request, none, [])

/-- The derived fields are what a rebuild makes of the entries and the URL, as far as it gets. -/
def Settled (request : ParsedProxyRequest Url) : Prop :=
  ∀ headers, buildUpstreamHeadersFromEntries request.requestHeaders = .ok headers →
    request.headers = headers ∧ ∀ host, UrlOps.hostStr request.url = some host →
      request.host = host ∧ request.path = buildRequestPath request.url ∧
      request.protocol = UrlOps.scheme request.url ∧
      request.queryParams = buildQueryParams request.url ∧
      request.requestHeaders =
        setHeaderEntry request.requestHeaders "Host" (hostHeaderValue request.url) ∧
      request.rawRequest =
        buildRawHttpHead (request.method ++ " " ++ request.path ++ " HTTP/1.1") request.requestHeaders

end AiProxy.Rules
