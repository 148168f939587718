import AiProxy.Rules.Rewrite

/-!
# What a failed rewrite rule may do

A rule whose trace says "error" should leave the request as it was, for the next rule and for the
forwarder, and later rules should end as if it were not there.
-/

namespace AiProxy.Rules

open Http (ParsedProxyRequest ProxyHeaderEntry UrlOps headerNameFromBytes headerValueFromStr
  isPseudoHeaderName forwardedEntries hostHeaderValue)
open Json (Value)

variable {N Url : Type} [UrlOps Url] [BEq N] (env : RewriteEnv N) (isHttp2 : Bool)

/-- Two requests that later rules and the forwarder cannot tell apart. -/
structure SeenAlike (r r' : ParsedProxyRequest Url) : Prop where
  method : r.method = r'.method
  url : r.url = r'.url
  headers : r.headers = r'.headers
  requestHeaders : r.requestHeaders = r'.requestHeaders
  host : r.host = r'.host
  path : r.path = r'.path
  body : r.body = r'.body

def outcomes (rules : List (RewriteRule N)) (request : ParsedProxyRequest Url) :
    List RewriteOutcome :=
  (applyRequestRules env isHttp2 rules request).2.map (·.outcome)

def requestBefore (earlier : List (RewriteRule N)) (request : ParsedProxyRequest Url) :
    ParsedProxyRequest Url :=
  (applyRequestRules env isHttp2 earlier request).1

/-- Every rule of the list that ends in an error leaves the request as it found it, and the rules
after it end as they do in the list without it. -/
def FailedRulesHaveNoEffect (rules : List (RewriteRule N)) (request : ParsedProxyRequest Url) :
    Prop :=
  ∀ (earlier : List (RewriteRule N)) (rule : RewriteRule N) (later : List (RewriteRule N)),
    rules = earlier ++ rule :: later →
    (applyRequestRule env isHttp2 rule (requestBefore env isHttp2 earlier request)).2.outcome
      = .error →
      SeenAlike (applyRequestRule env isHttp2 rule (requestBefore env isHttp2 earlier request)).1
        (requestBefore env isHttp2 earlier request) ∧
      (outcomes env isHttp2 rules request).drop (earlier.length + 1)
        = (outcomes env isHttp2 (earlier ++ later) request).drop earlier.length

def WellFormedEntry (entry : ProxyHeaderEntry) : Prop :=
  (∃ name, headerNameFromBytes entry.name = .ok name) ∧
    ∃ value, headerValueFromStr entry.value = .ok value

/-- The entries that go upstream are well-formed headers and the URL has a host. -/
structure Rebuildable (request : ParsedProxyRequest Url) : Prop where
  entries : ∀ entry ∈ forwardedEntries request.requestHeaders, WellFormedEntry entry
  host : ∃ host, UrlOps.hostStr request.url = some host

/-- A pseudo-header, which is never sent, or a well-formed header. -/
def SoundEntry (entry : ProxyHeaderEntry) : Prop :=
  isPseudoHeaderName entry.name = true ∨ WellFormedEntry entry

structure SoundRequest (request : ParsedProxyRequest Url) : Prop where
  entries : ∀ entry ∈ request.requestHeaders, SoundEntry entry
  host : ∃ host, UrlOps.hostStr request.url = some host

variable (Url) in
/-- The header that an action sets is well-formed, its content type is a header value, and the URL that
it redirects to has a host. Nothing is asked of payloads and URLs that do not parse. -/
structure SoundAction (action : String × Value N) : Prop where
  header : action.1 = "header" → ∀ payload value, env.headerPayload action.2 = .ok payload →
    payload.value = some value → SoundEntry ⟨payload.headerName, value, none⟩
  body : action.1 = "body" → ∀ payload, env.bodyPayload action.2 = .ok payload →
    ∃ value, headerValueFromStr payload.contentType = .ok value
  redirect : action.1 = "redirect" → ∀ payload (url : Url), env.redirectPayload action.2 = .ok payload →
    UrlOps.parse payload.targetUrl = .ok url → ∃ host, UrlOps.hostStr url = some host

variable (Url) in
/-- What the rules take from the `url` crate: the path and the query can be edited without touching the
host, and a host with its port is a header value. -/
structure UrlLaws : Prop where
  setPath : ∀ (url : Url) path, UrlOps.hostStr (UrlOps.setPath url path) = UrlOps.hostStr url
  setQuery : ∀ (url : Url) query, UrlOps.hostStr (UrlOps.setQuery url query) = UrlOps.hostStr url
  appendPairs : ∀ (url : Url) pairs,
    UrlOps.hostStr (UrlOps.appendPairs url pairs) = UrlOps.hostStr url
  hostValue : ∀ url : Url, ∃ value, headerValueFromStr (hostHeaderValue url) = .ok value

end AiProxy.Rules
