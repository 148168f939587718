import AiProxy.Http.Types

/-!
# Headers for the upstream request

The header map that goes upstream is made from the recorded entries: headers of the connection to the
proxy are left out, every other entry has to be a well-formed header.
-/

namespace AiProxy.Http

def shouldSkipRequestHeader (headerName : String) : Bool :=
  eqIgnoreAsciiCase headerName "host" || eqIgnoreAsciiCase headerName "connection" ||
    eqIgnoreAsciiCase headerName "proxy-connection" ||
    eqIgnoreAsciiCase headerName "content-length" ||
    eqIgnoreAsciiCase headerName "transfer-encoding"

/-- Skipped for WebSocket upgrades too. -/
def isHopByHopOnly (headerName : String) : Bool :=
  eqIgnoreAsciiCase headerName "host" || eqIgnoreAsciiCase headerName "proxy-connection" ||
    eqIgnoreAsciiCase headerName "content-length" ||
    eqIgnoreAsciiCase headerName "transfer-encoding"

def isPseudoHeaderName (name : String) : Bool := name.toList.head? = some ':'

def standardHopByHop : List String :=
  ["connection", "proxy-connection", "keep-alive", "te", "trailer", "upgrade",
    "proxy-authenticate", "proxy-authorization"]

def isStandardHopByHopHeader (name : String) : Bool :=
  standardHopByHop.any fun standard => eqIgnoreAsciiCase name standard

def isAsciiWhitespace (b : UInt8) : Bool :=
  b == 0x20 || b == 0x09 || b == 0x0a || b == 0x0c || b == 0x0d

/-- The first word of each item of a comma-separated list, in lower case. -/
def parseConnectionTokens (value : List UInt8) : List (List Char) :=
  (value.splitOn 0x2c).filterMap fun chunk =>
    let token := (chunk.dropWhile isAsciiWhitespace).takeWhile fun b => !isAsciiWhitespace b
    if token = [] then none else (String.fromUTF8? ⟨token.toArray⟩).map toAsciiLowercase

/-- The lower-case names to strip: what a `Connection` header lists and the standard set. -/
def hopByHopStripSet (pairs : List (String × List UInt8)) : List (List Char) :=
  (pairs.flatMap fun p =>
    if eqIgnoreAsciiCase p.1 "connection" || eqIgnoreAsciiCase p.1 "proxy-connection" then
      parseConnectionTokens p.2
    else []) ++ standardHopByHop.map String.toList

def shouldStripHopByHop (name : String) (strip : List (List Char)) (isWsUpgrade : Bool) : Bool :=
  if isWsUpgrade then
    !eqIgnoreAsciiCase name "connection" && !eqIgnoreAsciiCase name "upgrade" &&
      strip.contains (toAsciiLowercase name)
  else isStandardHopByHopHeader name || strip.contains (toAsciiLowercase name)

def skipsEntry (isWsUpgrade : Bool) (strip : List (List Char)) (name : String) : Bool :=
  (shouldSkipRequestHeader name && !isWsUpgrade) || (isWsUpgrade && isHopByHopOnly name) ||
    shouldStripHopByHop name strip isWsUpgrade || isPseudoHeaderName name

def isWsUpgradeEntries (headers : List ProxyHeaderEntry) : Bool :=
  headers.any fun h => eqIgnoreAsciiCase h.name "upgrade" && eqIgnoreAsciiCase h.value "websocket"

def stripSetOfEntries (headers : List ProxyHeaderEntry) : List (List Char) :=
  hopByHopStripSet (headers.map fun h => (h.name, asBytes h.value))

def forwardedEntries (headers : List ProxyHeaderEntry) : List ProxyHeaderEntry :=
  headers.filter fun h => !skipsEntry (isWsUpgradeEntries headers) (stripSetOfEntries headers) h.name

def appendEntry (headerMap : HeaderMap) (header : ProxyHeaderEntry) : Except String HeaderMap := do
  let name ← (headerNameFromBytes header.name).mapError ("invalid header name: " ++ ·)
  let value ← (headerValueFromStr header.value).mapError ("invalid header value: " ++ ·)
  .ok (headerMap.append name value)

def buildUpstreamHeadersFromEntries (headers : List ProxyHeaderEntry) : Except String HeaderMap :=
  (forwardedEntries headers).foldlM appendEntry .new

/-- Every entry of the name is removed, the new one is added at the end. -/
def setHeaderEntry (headers : List ProxyHeaderEntry) (name value : String) :
    List ProxyHeaderEntry :=
  (headers.filter fun entry => !eqIgnoreAsciiCase entry.name name) ++ [⟨name, value, none⟩]

def removeHeaderEntry (headers : List ProxyHeaderEntry) (name : String) : List ProxyHeaderEntry :=
  headers.filter fun entry => !eqIgnoreAsciiCase entry.name name

def stripPlainBodyEditHeaderEntries (headers : List ProxyHeaderEntry) : List ProxyHeaderEntry :=
  headers.filter fun entry =>
    !eqIgnoreAsciiCase entry.name "content-encoding" &&
      !eqIgnoreAsciiCase entry.name "content-md5" &&
      !eqIgnoreAsciiCase entry.name "digest" && !eqIgnoreAsciiCase entry.name "etag"

def headerEntryValue (headers : List ProxyHeaderEntry) (name : String) : Option String :=
  match (headers.filter fun entry => eqIgnoreAsciiCase entry.name name).map (·.value) with
  | [] => none
  | values => some (", ".intercalate values)

section

variable {Url : Type} [UrlOps Url]

def buildRequestPath (url : Url) : String :=
  match UrlOps.query url with
  | some query => UrlOps.path url ++ "?" ++ query
  | none => UrlOps.path url

def buildQueryParams (url : Url) : List ProxyHeaderEntry :=
  (UrlOps.queryPairs url).map fun p => ⟨p.1, p.2, none⟩

def hostHeaderValue (url : Url) : String :=
  let host := (UrlOps.hostStr url).getD ""
  match UrlOps.port url with
  | some port => host ++ ":" ++ toString port
  | none => host

end

end AiProxy.Http
