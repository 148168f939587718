import AiProxy.Mcp.BodyStream

/-!
# A captured request as a cURL command

`export_session_as_curl` of `curl.rs`. The arguments of the command are texts in which a marker stands
for each sensitive value; a marker is a nonce of the export with the name of an environment variable,
and becomes an expansion of that variable when the argument is quoted for the shell.

The session comes as it was loaded. The arguments and the values that were replaced are kept beside
what the tool returns.
-/

namespace AiProxy.Mcp

open Json (Bytes Value)
open Utf8 (chars encode)

variable {N : Type}

def maxInlineBodyBytes : Nat := 64 * 1024

inductive CurlShell where
  | posix
  | powershell

namespace CurlShell

def asStr : CurlShell → Text
  | posix => "posix"
  | powershell => "powershell"

def command : CurlShell → Text
  | posix => "curl"
  | powershell => "curl.exe"

/-- `str::replace` of single quotes. -/
def replaceQuotes (value with' : Text) : Text :=
  value.flatMap fun c => if c = '\'' then with' else [c]

def quoteLiteral (shell : CurlShell) (value : Text) : Text :=
  match shell with
  | posix => '\'' :: (replaceQuotes value "'\\''" ++ ['\''])
  | powershell => '\'' :: (replaceQuotes value "''" ++ ['\''])

def envValue (shell : CurlShell) (name : Text) : Text :=
  match shell with
  | posix => '"' :: '$' :: '\x7b' :: (name ++ ['\x7d', '"'])
  | powershell => "\"$env:" ++ name ++ ['"']

end CurlShell

/-! ## Placeholders -/

def isValidEnvName (name : Text) : Bool :=
  !name.isEmpty && name.all fun c => c.isUpper || c.isDigit || c == '_'

structure Placeholder where
  name : Text
  source : Text

/-- `by_name` is the map of the items. -/
structure Placeholders where
  markerPrefix : Text
  items : List Placeholder

namespace Placeholders

/-- The nonce is `Uuid::new_v4().simple()`. -/
def new (nonce : Text) : Placeholders :=
  ⟨"__AIPROXY_ENV_" ++ nonce ++ ['_'], []⟩

def byName (ps : Placeholders) (name : Text) : Option Text :=
  (ps.items.find? fun item => item.name = name).map (·.source)

/-- The first name from a candidate on that is free or has this source. -/
def freeName (ps : Placeholders) (base source : Text) : Nat → Text → Nat → Text
  | 0, candidate, _ => candidate
  | fuel + 1, candidate, suffix =>
    match ps.byName candidate with
    | none => candidate
    | some existing =>
      if existing = source then candidate
      else freeName ps base source fuel (base ++ '_' :: natText suffix) (suffix + 1)

/-- A name is taken once at most, so that the search ends before the fuel does. -/
def register (ps : Placeholders) (base source : Text) : Text × Placeholders :=
  let name := ps.freeName base source (ps.items.length + 1) base 2
  match ps.byName name with
  | some _ => (name, ps)
  | none => (name, { ps with items := ps.items ++ [⟨name, source⟩] })

def markerOf (ps : Placeholders) (name : Text) : Text := ps.markerPrefix ++ name ++ "__"

def hasGeneratedMarker (ps : Placeholders) (name : Text) : Bool :=
  isValidEnvName name && (ps.byName name).isSome

end Placeholders

inductive Original (N : Type) where
  | text (value : Text)
  | json (value : Value N)

structure Replacement (N : Type) where
  name : Text
  original : Original N

/-- The placeholders, with the values they were registered for. -/
structure Exporting (N : Type) where
  placeholders : Placeholders
  replaced : List (Replacement N)

def Exporting.marker (st : Exporting N) (base source : Text) (original : Original N) :
    Text × Exporting N :=
  let result := st.placeholders.register base source
  (result.2.markerOf result.1, ⟨result.2, st.replaced ++ [⟨result.1, original⟩]⟩)

/-- What stands before and after the first occurrence (`str::find`). -/
def splitOnce (needle : Text) : Text → Option (Text × Text)
  | [] => if needle = [] then some ([], []) else none
  | c :: cs =>
    if needle.isPrefixOf (c :: cs) then some ([], (c :: cs).drop needle.length)
    else (splitOnce needle cs).map fun split => (c :: split.1, split.2)

/-- The loop over the rest of a value, after a literal that is yet to be written. -/
def renderFrom (shell : CurlShell) (ps : Placeholders) : Nat → Text → Text → Text
  | 0, _, _ => []
  | fuel + 1, literal, rest =>
    let quoted := fun text : Text => if text = [] then [] else shell.quoteLiteral text
    match splitOnce ps.markerPrefix rest with
    | none => quoted (literal ++ rest)
    | some (before, after) =>
      match (splitOnce "__" after).filter fun split => ps.hasGeneratedMarker split.1 with
      | some (name, after) =>
        quoted (literal ++ before) ++ shell.envValue name ++ renderFrom shell ps fuel [] after
      | none => renderFrom shell ps fuel (literal ++ before ++ ps.markerPrefix) after

def renderWithMarkers (value : Text) (shell : CurlShell) (ps : Placeholders) : Text :=
  let output := renderFrom shell ps (value.length + 1) [] value
  if output = [] then shell.quoteLiteral [] else output

/-! ## The parts of the request -/

def hexUpper (n : Nat) : Char := "0123456789ABCDEF".toList.getD n '0'

/-- `form_urlencoded::byte_serialize`. -/
def encodeComponent (value : Text) : Text :=
  (encode value).flatMap fun b =>
    let c := Char.ofNat b.toNat
    if c.isAlphanum || "*-._".toList.contains c then [c]
    else if b = 0x20 then ['+']
    else ['%', hexUpper (b.toNat / 16), hexUpper (b.toNat % 16)]

def envSegmentFrom : Text → Text → Bool → Text
  | [], output, _ => output
  | c :: cs, output, previousSeparator =>
    if c.isAlphanum then envSegmentFrom cs (output ++ [c.toUpper]) false
    else if !previousSeparator && !output.isEmpty then envSegmentFrom cs (output ++ ['_']) true
    else envSegmentFrom cs output previousSeparator

def envSegment (value : Text) : Text :=
  let output := ((envSegmentFrom value [] false).reverse.dropWhile (· = '_')).reverse
  if output = [] then "VALUE" else output

structure HeaderEntry where
  name : Text
  value : Text
  isPseudo : Option Bool

def toAsciiLowercase (t : Text) : Text := t.map Char.toLower

def shouldSkipHeader (header : HeaderEntry) : Bool :=
  header.isPseudo.getD false || [':'].isPrefixOf header.name ||
    ["host", "content-length", "connection", "proxy-connection", "keep-alive", "transfer-encoding",
      "te", "trailer", "upgrade"].any fun name =>
        toAsciiLowercase (trim header.name) = name.toList

/-- `Url::parse`, `set_query(None)` and `set_fragment(None)`, and `query_pairs`. -/
structure ParsedUrl where
  base : Text
  queryPairs : List (Text × Text)

section Export

variable (p : Platform N) (r : Redactor)

def isReplaced (name value : Text) : Bool :=
  isSensitiveName p r name || decide ((redactText p r value).value ≠ value)

def exportPairs : List (Text × Text) → Exporting N → List Text × Exporting N
  | [], st => ([], st)
  | (name, value) :: pairs, st =>
    let rendered :=
      if isReplaced p r name value then
        st.marker ("AIPROXY_QUERY_" ++ envSegment name) ("query:" ++ name) (.text value)
      else (encodeComponent value, st)
    let rest := exportPairs pairs rendered.2
    ((encodeComponent name ++ '=' :: rendered.1) :: rest.1, rest.2)

def exportUrl (parseUrl : Text → Except Text ParsedUrl) (url : Text) (raw : Bool)
    (st : Exporting N) : Except (ToolError N) (Text × Exporting N) :=
  if raw then .ok (url, st)
  else
    match parseUrl url with
    | .error error =>
      .error ⟨"INVALID_ARGUMENT",
        "The captured request URL cannot be exported: " ++ error, none⟩
    | .ok parsed =>
      if parsed.queryPairs = [] then .ok (url, st)
      else
        let result := exportPairs p r parsed.queryPairs st
        .ok (parsed.base ++ '?' :: ['&'].intercalate result.1, result.2)

def exportHeaderValue (header : HeaderEntry) (raw : Bool) (st : Exporting N) :
    Text × Exporting N :=
  if raw then (header.value, st)
  else if isReplaced p r header.name header.value then
    st.marker ("AIPROXY_" ++ envSegment header.name) ("header:" ++ header.name)
      (.text header.value)
  else (header.value, st)

mutual

def replaceJsonPlaceholders : Value N → Text → Exporting N → Value N × Exporting N
  | .object members, path, st =>
    let result := replaceMembers members path st
    (.object result.1, result.2)
  | .array items, path, st =>
    let result := replaceItems items 0 path st
    (.array result.1, result.2)
  | .string text, path, st =>
    if (redactText p r (chars text)).value ≠ chars text then
      let result := st.marker "AIPROXY_BODY_VALUE" ("body:" ++ path)
        (.json (.string text))
      (jsonText result.1, result.2)
    else (.string text, st)
  | .null, _, st => (.null, st)
  | .bool b, _, st => (.bool b, st)
  | .number n, _, st => (.number n, st)

def replaceItems : List (Value N) → Nat → Text → Exporting N → List (Value N) × Exporting N
  | [], _, _, st => ([], st)
  | item :: items, index, path, st =>
    let first := replaceJsonPlaceholders item (indexPath path index) st
    let rest := replaceItems items (index + 1) path first.2
    (first.1 :: rest.1, rest.2)

def replaceMembers :
    List (Bytes × Value N) → Text → Exporting N → List (Bytes × Value N) × Exporting N
  | [], _, st => ([], st)
  | member :: members, path, st =>
    let first := replaceMember member path st
    let rest := replaceMembers members path first.2
    (first.1 :: rest.1, rest.2)

def replaceMember : Bytes × Value N → Text → Exporting N → (Bytes × Value N) × Exporting N
  | (key, child), path, st =>
    let childPath := path ++ '.' :: chars key
    if isSensitiveName p r (chars key) then
      let result := st.marker ("AIPROXY_BODY_" ++ envSegment (chars key))
        ("body:" ++ childPath) (.json child)
      ((key, jsonText result.1), result.2)
    else
      let result := replaceJsonPlaceholders child childPath st
      ((key, result.1), result.2)

end

def exportText (text : Text) (raw : Bool) (st : Exporting N) : Text × Exporting N :=
  if raw then (text, st)
  else
    match p.fromStr text with
    | some value =>
      let result := replaceJsonPlaceholders p r value "$" st
      (p.toString result.1, result.2)
    | none =>
      if (redactText p r text).value ≠ text then
        st.marker "AIPROXY_BODY" "body:request" (.text text)
      else (text, st)

/-! ## The command -/

/-- A part of the command before it is quoted. -/
inductive CommandPart where
  | word (text : Text)
  | literal (text : Text)
  /-- With the placeholders there were when it was rendered. -/
  | marked (text : Text) (placeholders : Placeholders)

def CommandPart.render (shell : CurlShell) : CommandPart → Text
  | .word text => text
  | .literal text => shell.quoteLiteral text
  | .marked text placeholders => renderWithMarkers text shell placeholders

structure BodyExport (N : Type) where
  parts : List CommandPart
  omitted : List (Value N)
  warnings : List Text
  exporting : Exporting N

def omittedBody (reason : String) (more : List (String × Value N)) : Value N :=
  jsonObject ([("reason", jsonString reason), ("source", jsonString "body:request")] ++ more)

def exportBody (body : Bytes) (raw : Bool) (st : Exporting N) : BodyExport N :=
  if maxInlineBodyBytes < body.length then
    ⟨[], [omittedBody "body exceeds 64 KiB inline limit"
      [("decodedSizeBytes", .number (p.ofNat body.length))]], [], st⟩
  else if (String.fromUTF8? ⟨body.toArray⟩).isNone then ⟨[], [omittedBody "binary body" []], [], st⟩
  else if body = [] then ⟨[], [], [], st⟩
  else
    let result := exportText p r (chars body) raw st
    let warnings :=
      if !raw && (splitOnce result.2.placeholders.markerPrefix result.1).isSome then
        [("Replace environment variables with values from the placeholders list before running the " ++
          "command.").toList]
      else []
    ⟨[.word "--data-raw", .marked result.1 result.2.placeholders], [], warnings, result.2⟩

/-- The arguments for the headers, and whether there is an `accept-encoding` among them. -/
def exportHeaders : List HeaderEntry → Bool → Exporting N → List CommandPart × Bool × Exporting N
  | [], _, st => ([], false, st)
  | header :: headers, raw, st =>
    if shouldSkipHeader header then exportHeaders headers raw st
    else
      let value := exportHeaderValue p r header raw st
      let argument := header.name ++ ": " ++ value.1
      let rest := exportHeaders headers raw value.2
      (.word "--header" :: .marked argument value.2.placeholders :: rest.1,
        decide (toAsciiLowercase header.name = "accept-encoding") || rest.2.1, rest.2.2)

structure CurlPermissions where
  readSessions : Bool
  readRawBodies : Bool
  readBodies : Bool

structure CurlRequest where
  shell : CurlShell
  includeBody : Bool
  raw : Bool

/-- The session: its headers are missing if its details were not captured. -/
structure CurlSession where
  id : Text
  method : Text
  url : Text
  httpVersion : Text
  protocol : Text
  headers : Option (List HeaderEntry)
  body : Option Bytes

structure CurlExport (N : Type) where
  command : Text
  shell : Text
  placeholders : Placeholders
  omitted : List (Value N)
  warnings : List Text
  sessionId : Text
  replaced : List (Replacement N)

def isHttp2 (session : CurlSession) : Bool :=
  decide (session.httpVersion = "2") || contains (toAsciiLowercase session.protocol) "http/2"

def exportBodyIfGranted (permissions : CurlPermissions) (request : CurlRequest)
    (body : Option Bytes) (st : Exporting N) : BodyExport N :=
  match body with
  | none => ⟨[], [], [], st⟩
  | some body =>
    if !request.includeBody then ⟨[], [omittedBody "includeBody=false" []], [], st⟩
    else if !permissions.readBodies then
      ⟨[], [omittedBody "readBodies permission is not granted" []],
        [("Request body omitted because readBodies is disabled. Enable it to include textual bodies " ++
          "in the generated command.").toList], st⟩
    else exportBody p r body request.raw st

/-- The command that sends the request of a session again. Unless it is raw, what is sensitive in the
URL, the headers and the body stands in it as variables. -/
def exportSessionAsCurl (parseUrl : Text → Except Text ParsedUrl) (nonce : Text)
    (permissions : CurlPermissions) (request : CurlRequest) (session : CurlSession) :
    Except (ToolError N) (CurlExport N) :=
  if !permissions.readSessions then
    .error ⟨"PERMISSION_DENIED",
      "Session reading is disabled. Enable readSessions in AIProxy Settings > Agent Access.",
      none⟩
  else if request.raw && !permissions.readRawBodies then
    .error ⟨"PERMISSION_DENIED",
      ("Raw cURL export requires the readRawBodies permission. Enable it in AIProxy Settings > " ++
        "Agent Access.").toList, none⟩
  else
    match session.headers with
    | none =>
      .error ⟨"SESSION_DETAIL_UNAVAILABLE",
        "The session details required for a cURL export were not captured.", none⟩
    | some headers => do
      let url ← exportUrl p r parseUrl session.url request.raw ⟨.new nonce, []⟩
      let headers := exportHeaders p r headers request.raw url.2
      let body := exportBodyIfGranted p r permissions request session.body headers.2.2
      let parts :=
        [.word request.shell.command, .word "--request", .literal session.method,
          .word "--url", .marked url.1 url.2.placeholders] ++ headers.1 ++
        (if headers.2.1 then [.word "--compressed"] else []) ++
        (if isHttp2 session then [.word "--http2"] else []) ++ body.parts
      .ok
        { command := [' '].intercalate (parts.map (CommandPart.render request.shell))
          shell := request.shell.asStr
          placeholders := body.exporting.placeholders
          omitted := body.omitted
          warnings := body.warnings
          sessionId := session.id
          replaced := body.exporting.replaced }

end Export

end AiProxy.Mcp
