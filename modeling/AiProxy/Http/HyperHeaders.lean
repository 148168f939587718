import AiProxy.Http.UpstreamHeaders
import Mathlib.Data.List.Infix

/-!
# The headers of an incoming request

What the pipeline makes of the header map that hyper parsed: the recorded entries, the header map
that goes upstream, by a filter of its own, and whether the request asks for a WebSocket upgrade.
-/

namespace AiProxy.Http

def IsHeaderName (name : HeaderName) : Prop :=
  headerNameFromBytes (String.ofList name) = .ok name

instance : DecidablePred IsHeaderName := fun name =>
  inferInstanceAs (Decidable (headerNameFromBytes (String.ofList name) = .ok name))

/-- The parts of an incoming request that the headers are made of. -/
structure RequestParts where
  method : String
  authority : Option String
  pathAndQuery : Option String
  headers : HeaderMap
  wf : headers.WF
  names : ∀ name ∈ headers.names, IsHeaderName name

def pseudoEntry (name value : String) : ProxyHeaderEntry := ⟨name, value, some true⟩

/-- An HTTP/2 request is recorded with its pseudo headers. -/
def pseudoEntries (parts : RequestParts) (isH2 : Bool) : List ProxyHeaderEntry :=
  if isH2 then
    [pseudoEntry ":method" parts.method, pseudoEntry ":scheme" "https"] ++
      (parts.authority.map (pseudoEntry ":authority")).toList ++
      (parts.pathAndQuery.map (pseudoEntry ":path")).toList
  else []

def headerEntry (lossy : List UInt8 → String) (header : HeaderName × HeaderValue) :
    ProxyHeaderEntry :=
  let name := String.ofList header.1
  ⟨name, lossyText lossy header.2, if isPseudoHeaderName name then some true else none⟩

def buildRequestHeadersFromHyper (lossy : List UInt8 → String) (parts : RequestParts)
    (isH2 : Bool) : List ProxyHeaderEntry :=
  pseudoEntries parts isH2 ++ parts.headers.iter.map (headerEntry lossy)

def isWebsocketValue (value : HeaderValue) : Bool :=
  eqIgnoreAsciiCaseBytes value (asBytes "websocket")

/-- The header builder looks at the first `Upgrade` header only. -/
def isWsUpgradeHyper (headers : HeaderMap) : Bool :=
  (headers.get "upgrade").any isWebsocketValue

def shouldSkipHyperHeader (name : String) (isWsUpgrade : Bool) : Bool :=
  if !isWsUpgrade then
    eqIgnoreAsciiCase name "host" || eqIgnoreAsciiCase name "connection" ||
      eqIgnoreAsciiCase name "proxy-connection" || eqIgnoreAsciiCase name "content-length" ||
      eqIgnoreAsciiCase name "transfer-encoding"
  else
    eqIgnoreAsciiCase name "host" || eqIgnoreAsciiCase name "proxy-connection" ||
      eqIgnoreAsciiCase name "content-length" || eqIgnoreAsciiCase name "transfer-encoding"

def stripSetOfHyper (headers : HeaderMap) : List (List Char) :=
  hopByHopStripSet (headers.iter.map fun h => (String.ofList h.1, h.2))

def skipsHyper (headers : HeaderMap) (name : HeaderName) : Bool :=
  isPseudoHeaderName (String.ofList name) ||
    shouldSkipHyperHeader (String.ofList name) (isWsUpgradeHyper headers) ||
    shouldStripHopByHop (String.ofList name) (stripSetOfHyper headers) (isWsUpgradeHyper headers)

def buildUpstreamHeadersFromHyper (headers : HeaderMap) : HeaderMap :=
  (headers.iter.filter fun h => !skipsHyper headers h.1).foldl (fun m h => m.append h.1 h.2) .new

def containsText (text pattern : List Char) : Bool := decide (pattern <:+: text)

/-- The pipeline's own test for a WebSocket upgrade: the first `Upgrade` header is `websocket` and
the first `Connection` header mentions `upgrade`. A value that is no visible ASCII mentions nothing. -/
def pipelineWsUpgrade (headers : HeaderMap) : Bool :=
  (headers.get "upgrade").any isWebsocketValue &&
    (headers.get "connection").any fun value =>
      containsText (toAsciiLowercase ((headerValueToStr value).getD "")) "upgrade"

def hopByHopNames : List String := "transfer-encoding" :: standardHopByHop

def isHopByHop (name : HeaderName) : Prop := ∃ standard ∈ hopByHopNames, name = standard.toList

/-- The first word of an item of a comma-separated list is the name, up to case. -/
def ItemNames (item : List UInt8) (name : HeaderName) : Prop :=
  ∃ before word after, item = before ++ word ++ after ∧
    (∀ b ∈ before, isAsciiWhitespace b = true) ∧ (∀ b ∈ word, isAsciiWhitespace b = false) ∧
    (∀ b ∈ after.head?, isAsciiWhitespace b = true) ∧
    word.map Utf8.lower = asBytes (String.ofList name)

def ConnectionLists (headers : HeaderMap) (name : HeaderName) : Prop :=
  ∃ header ∈ headers.iter,
    (header.1 = "connection" ∨ header.1 = "proxy-connection") ∧
      ∃ item ∈ header.2.splitOn 0x2c, ItemNames item name

/-- A header of the connection to the proxy, which must not be forwarded. -/
def ConnectionBound (headers : HeaderMap) (name : HeaderName) : Prop :=
  isHopByHop name ∨ ConnectionLists headers name

def ownNames : List HeaderName := ["host", "content-length"]

/-- No header of the connection is forwarded; every other header is, with its values and in its
place. -/
structure StripsConnectionHeaders (headers forwarded : HeaderMap) : Prop where
  stripped : ∀ header ∈ forwarded.iter, ¬ ConnectionBound headers header.1
  kept : ∀ name ∈ headers.names, ¬ ConnectionBound headers name → name ∉ ownNames →
    forwarded.getAll name = headers.getAll name
  order : forwarded.iter.Sublist headers.iter

end AiProxy.Http
