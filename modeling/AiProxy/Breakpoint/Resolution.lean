import AiProxy.Http.UpstreamHeaders
import AiProxy.Http.Calls
import AiProxy.Lib.Decimal

/-!
# Request edits of a breakpoint

A request that is paused at a breakpoint goes on with the edits of the user's resolution. The header
map of an edited header list is built here, without the filter of `build_upstream_headers_from_entries`.
-/

namespace AiProxy.Breakpoint

open Http (ParsedProxyRequest ProxyHeaderEntry HeaderMap UrlOps BreakpointResolution
  eqIgnoreAsciiCase headerValueToStr trim headerMapFromEntries decodeOrText buildRequestPath
  buildQueryParams buildRawHttpHead stripPlainBodyEditHeaders stripPlainBodyEditHeaderEntries
  buildUpstreamHeadersFromEntries headerNameFromBytes headerValueFromStr skipsEntry
  isWsUpgradeEntries stripSetOfEntries)

structure RequestResolution extends BreakpointResolution where
  modifiedRequestHeaders : Option (List ProxyHeaderEntry)
  modifiedRequestQueryParams : Option (List ProxyHeaderEntry)
  modifiedRequestBodyBase64 : Option String

class UrlHostOps (Url : Type) extends UrlOps Url where
  setHost : Url → String → Option Url
  setPort : Url → Option Nat → Option Url

def parseU16 (text : List Char) : Option Nat := Decimal.parseUnsigned 65536 text

/-- The host as it was typed, the port, and the host as the URL takes it. -/
structure HostParts where
  host : String
  port : Option Nat
  urlHost : String

def splitBracketed (rest : List Char) : Option HostParts :=
  match rest.dropWhile (· ≠ ']') with
  | [] => none
  | _ :: after =>
    let bracketed := String.ofList ('[' :: rest.takeWhile (· ≠ ']') ++ [']'])
    match after with
    | [] => some ⟨bracketed, none, bracketed⟩
    | ':' :: port => (parseU16 port).map fun port => ⟨bracketed, some port, bracketed⟩
    | _ => none

/-- `host` or `host:port`; the port follows the last colon. -/
def splitPlain (text : List Char) : Option HostParts :=
  if text.contains ':' then
    let host := trim (String.ofList (text.reverse.dropWhile (· ≠ ':')).tail.reverse)
    (parseU16 (text.reverse.takeWhile (· ≠ ':')).reverse).map fun port => ⟨host, some port, host⟩
  else some ⟨String.ofList text, none, String.ofList text⟩

/-- The parts of a `Host` value; none if it is rejected. -/
def parseHostHeader (value : List UInt8) : Option HostParts := do
  let text ← headerValueToStr value
  let parts ← match (trim text).toList with
    | [] => none
    | '[' :: rest => splitBracketed rest
    | text => splitPlain text
  if parts.host = "" then none else some parts

section

variable {Url : Type} [UrlHostOps Url]

/-- The host and the port are taken over together or not at all. A port that cannot be cleared is
kept. -/
def applyHostHeaderToRequest (request : ParsedProxyRequest Url) (headers : HeaderMap) :
    ParsedProxyRequest Url :=
  match (headers.get "host").bind parseHostHeader with
  | none => request
  | some parts =>
    match UrlHostOps.setHost request.url parts.urlHost with
    | none => request
    | some candidate =>
      match parts.port with
      | some port =>
        match UrlHostOps.setPort candidate (some port) with
        | some candidate => { request with host := parts.host, url := candidate }
        | none => request
      | none =>
        { request with
          host := parts.host
          url := (UrlHostOps.setPort candidate none).getD candidate }

def refreshRequestTargetFromUrl (request : ParsedProxyRequest Url) : ParsedProxyRequest Url :=
  let path := buildRequestPath request.url
  { request with
    path := path
    queryParams := buildQueryParams request.url
    rawRequest := buildRawHttpHead (request.method ++ " " ++ path ++ " HTTP/1.1")
      request.requestHeaders }

def applyQueryParams (request : ParsedProxyRequest Url) (queryParams : List ProxyHeaderEntry) :
    ParsedProxyRequest Url :=
  refreshRequestTargetFromUrl
    { request with
      url := UrlOps.appendPairs (UrlOps.setQuery request.url (some ""))
        (queryParams.map fun entry => (entry.name, entry.value)) }

/-- Entries that are not well-formed are left out of the header map. -/
def applyHeaders (request : ParsedProxyRequest Url) (headers : List ProxyHeaderEntry) :
    ParsedProxyRequest Url :=
  let newHeaders := headerMapFromEntries headers
  let request := applyHostHeaderToRequest { request with requestHeaders := headers } newHeaders
  refreshRequestTargetFromUrl { request with headers := newHeaders }

def stripBodyEntries (entries : List ProxyHeaderEntry) : List ProxyHeaderEntry :=
  (stripPlainBodyEditHeaderEntries entries).filter fun entry =>
    !eqIgnoreAsciiCase entry.name "content-length"

def applyBody (request : ParsedProxyRequest Url) (bodyBase64 : String) : ParsedProxyRequest Url :=
  refreshRequestTargetFromUrl
    { request with
      body := decodeOrText bodyBase64
      headers := (stripPlainBodyEditHeaders request.headers).remove "content-length"
      requestHeaders := stripBodyEntries request.requestHeaders }

def applyEdit {α : Type} (edit : Option α)
    (apply : ParsedProxyRequest Url → α → ParsedProxyRequest Url)
    (request : ParsedProxyRequest Url) : ParsedProxyRequest Url :=
  match edit with
  | some edit => apply request edit
  | none => request

def applyRequestResolution (resolution : RequestResolution) (request : ParsedProxyRequest Url) :
    ParsedProxyRequest Url :=
  applyEdit resolution.modifiedRequestBodyBase64 applyBody
    (applyEdit resolution.modifiedRequestHeaders applyHeaders
      (applyEdit resolution.modifiedRequestQueryParams applyQueryParams request))

end

def recordedEntries (resolution : RequestResolution) (headers : List ProxyHeaderEntry) :
    List ProxyHeaderEntry :=
  match resolution.modifiedRequestBodyBase64 with
  | some _ => stripBodyEntries headers
  | none => headers

section

variable {Url : Type}

/-- The headers that `forward_h1_request` takes from the header map; it writes `Host` itself. -/
def takenHeaders (request : ParsedProxyRequest Url) : HeaderMap :=
  HeaderMap.new.appendAll (request.headers.iter.filter fun header => header.1 ≠ "host")

/-- What is taken from the header map is what the filter makes of the recorded entries. -/
def ForwardsFiltered (request : ParsedProxyRequest Url) : Prop :=
  ∃ headers, buildUpstreamHeadersFromEntries request.requestHeaders = .ok headers ∧
    ∀ name, (takenHeaders request).getAll name = headers.getAll name

end

def IsHeader (entry : ProxyHeaderEntry) : Prop :=
  (∃ name, headerNameFromBytes entry.name = .ok name) ∧
    ∃ value, headerValueFromStr entry.value = .ok value

/-- Apart from `Host`, the filter keeps the well-formed headers of a list and drops the other
entries. -/
def FilterKeepsHeaders (entries : List ProxyHeaderEntry) : Prop :=
  ∀ entry ∈ entries, eqIgnoreAsciiCase entry.name "host" = false →
    (skipsEntry (isWsUpgradeEntries entries) (stripSetOfEntries entries) entry.name = false ↔
      IsHeader entry)

/-- No name that belongs to the connection is taken from the header map. -/
def NoConnectionHeader {Url : Type} (request : ParsedProxyRequest Url) : Prop :=
  ∀ name ∈ stripSetOfEntries request.requestHeaders, (takenHeaders request).getAll name = []

end AiProxy.Breakpoint
