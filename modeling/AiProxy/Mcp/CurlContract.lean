import AiProxy.Lib.PosixShell
import AiProxy.Mcp.Curl

/-!
# What an exported command is to do

The arguments of the command are the texts the export puts together, with the value of the variable in
the place of each marker. The nonce of an export is not in what was captured, neither as it was
captured nor as the export writes it again.

The values that are replaced, with their sources, are known from the session and the redactor alone.
-/

namespace AiProxy.Mcp

open Json (Bytes Value)
open Utf8 (chars encode)

variable {N : Type}

/-! ## The nonce -/

def isLowerHex (c : Char) : Bool := c.isDigit || "abcdef".toList.contains c

/-- `Uuid::simple`. -/
structure IsNonce (nonce : Text) : Prop where
  length : nonce.length = 32
  hex : ∀ c ∈ nonce, isLowerHex c = true

section Captured

variable (p : Platform N)

mutual

/-- The names and scalars of a document as `serde_json` writes them. -/
def jsonTexts : Value N → List Text
  | .object members => membersTexts members
  | .array items => itemsTexts items
  | .string text => [p.toString (.string text)]
  | .null => [p.toString .null]
  | .bool b => [p.toString (.bool b)]
  | .number n => [p.toString (.number n)]

def itemsTexts : List (Value N) → List Text
  | [] => []
  | item :: items => jsonTexts item ++ itemsTexts items

def membersTexts : List (Bytes × Value N) → List Text
  | [] => []
  | member :: members => memberTexts member ++ membersTexts members

def memberTexts : Bytes × Value N → List Text
  | (key, value) => p.toString (.string key) :: jsonTexts value

end

def urlTexts (parseUrl : Text → Except Text ParsedUrl) (url : Text) : List Text :=
  url ::
    match parseUrl url with
    | .ok parsed =>
      parsed.base :: parsed.queryPairs.flatMap fun pair =>
        [encodeComponent pair.1, encodeComponent pair.2]
    | .error _ => []

def headerTexts (headers : List HeaderEntry) : List Text :=
  headers.flatMap fun header => [header.name, header.value]

def bodyTexts (text : Text) : List Text := text :: ((p.fromStr text).map (jsonTexts p)).getD []

def capturedTexts (parseUrl : Text → Except Text ParsedUrl) (session : CurlSession) : List Text :=
  urlTexts parseUrl session.url ++ headerTexts (session.headers.getD []) ++
    (session.body.map fun body => bodyTexts p (chars body)).getD []

end Captured

/-- Words of letters, digits and underscores are written by `serde_json` as they are. -/
def Platform.PlainWords (p : Platform N) : Prop :=
  ∀ t : Text, (∀ c ∈ t, (c.isAlphanum || c == '_') = true) →
    p.toString (.string (encode t)) = '"' :: (t ++ ['"'])

def Placeholders.markerAt (ps : Placeholders) (t : Text) : Option Text :=
  (ps.items.find? fun item => (ps.markerOf item.name).isPrefixOf t).map (·.name)

/-- The text after so many characters, with the values of the variables for the markers. -/
def Placeholders.expandFrom (ps : Placeholders) (env : Text → Text) : Nat → Text → Text
  | _, [] => []
  | skip + 1, _ :: cs => expandFrom ps env skip cs
  | 0, c :: cs =>
    match ps.markerAt (c :: cs) with
    | some name => env name ++ expandFrom ps env ((ps.markerOf name).length - 1) cs
    | none => c :: expandFrom ps env 0 cs

/-- The value with a reference to its variable in the place of each generated marker, after a literal
that is yet to be added. -/
def markedFrom (ps : Placeholders) : Nat → Text → Text → Shell.Word
  | 0, _, _ => []
  | fuel + 1, literal, rest =>
    match splitOnce ps.markerPrefix rest with
    | none => Shell.ofText (literal ++ rest)
    | some (before, after) =>
      match (splitOnce "__" after).filter fun split => ps.hasGeneratedMarker split.1 with
      | some (name, after) =>
        Shell.ofText (literal ++ before) ++ .param name :: markedFrom ps fuel [] after
      | none => markedFrom ps fuel (literal ++ before ++ ps.markerPrefix) after

def markedWord (ps : Placeholders) (value : Text) : Shell.Word :=
  markedFrom ps (value.length + 1) [] value

/-- The argument that a part of the command is to be. -/
def CommandPart.argument (ps : Placeholders) (env : Text → Text) : CommandPart → Text
  | .word text => text
  | .literal text => text
  | .marked text _ => ps.expandFrom env 0 text

/-- The arguments that the command for a session is to have: its method, its URL, its headers in their
order, `--compressed` and `--http2` where they apply, and its body. -/
def curlArguments (p : Platform N) (r : Redactor) (permissions : CurlPermissions) (request : CurlRequest)
    (session : CurlSession) (url : Text × Exporting N) (ps : Placeholders) (env : Text → Text) :
    List Text :=
  let headers := exportHeaders p r (session.headers.getD []) request.raw url.2
  let body := exportBodyIfGranted p r permissions request session.body headers.2.2
  [request.shell.command, "--request".toList, session.method, "--url".toList,
    ps.expandFrom env 0 url.1] ++ headers.1.map (CommandPart.argument ps env) ++
  (if headers.2.1 then ["--compressed".toList] else []) ++
  (if isHttp2 session then ["--http2".toList] else []) ++ body.parts.map (CommandPart.argument ps env)

/-! ## What is replaced -/

structure PlaceholderRequest (N : Type) where
  base : Text
  source : Text
  original : Original N

section Requests

variable (p : Platform N) (r : Redactor)

def queryRequests (pairs : List (Text × Text)) : List (PlaceholderRequest N) :=
  (pairs.filter fun pair => isReplaced p r pair.1 pair.2).map fun pair =>
    ⟨"AIPROXY_QUERY_" ++ envSegment pair.1, "query:" ++ pair.1, .text pair.2⟩

def urlRequests (parseUrl : Text → Except Text ParsedUrl) (url : Text) :
    List (PlaceholderRequest N) :=
  match parseUrl url with
  | .ok parsed => queryRequests p r parsed.queryPairs
  | .error _ => []

def headerRequests (headers : List HeaderEntry) : List (PlaceholderRequest N) :=
  (headers.filter fun header =>
    !shouldSkipHeader header && isReplaced p r header.name header.value).map fun header =>
      ⟨"AIPROXY_" ++ envSegment header.name, "header:" ++ header.name,
        .text header.value⟩

mutual

def jsonRequests : Value N → Text → List (PlaceholderRequest N)
  | .object members, path => membersRequests members path
  | .array items, path => itemsRequests items 0 path
  | .string text, path =>
    if (redactText p r (chars text)).value ≠ chars text then
      [⟨"AIPROXY_BODY_VALUE", "body:" ++ path, .json (.string text)⟩]
    else []
  | .null, _ => []
  | .bool _, _ => []
  | .number _, _ => []

def itemsRequests : List (Value N) → Nat → Text → List (PlaceholderRequest N)
  | [], _, _ => []
  | item :: items, index, path =>
    jsonRequests item (indexPath path index) ++ itemsRequests items (index + 1) path

def membersRequests : List (Bytes × Value N) → Text → List (PlaceholderRequest N)
  | [], _ => []
  | member :: members, path => memberRequests member path ++ membersRequests members path

def memberRequests : Bytes × Value N → Text → List (PlaceholderRequest N)
  | (key, child), path =>
    if isSensitiveName p r (chars key) then
      [⟨"AIPROXY_BODY_" ++ envSegment (chars key), "body:" ++ path ++ '.' :: chars key,
        .json child⟩]
    else jsonRequests child (path ++ '.' :: chars key)

end

def textRequests (text : Text) : List (PlaceholderRequest N) :=
  match p.fromStr text with
  | some value => jsonRequests p r value "$"
  | none =>
    if (redactText p r text).value ≠ text then
      [⟨"AIPROXY_BODY", "body:request", .text text⟩]
    else []

def isExported (permissions : CurlPermissions) (request : CurlRequest) (body : Bytes) : Bool :=
  request.includeBody && permissions.readBodies && decide (body.length ≤ maxInlineBodyBytes) &&
    (String.fromUTF8? ⟨body.toArray⟩).isSome && !body.isEmpty

def bodyRequests (permissions : CurlPermissions) (request : CurlRequest) (body : Option Bytes) :
    List (PlaceholderRequest N) :=
  (body.map fun body =>
    if isExported permissions request body then textRequests p r (chars body) else []).getD []

def placeholderRequests (parseUrl : Text → Except Text ParsedUrl) (permissions : CurlPermissions)
    (request : CurlRequest) (session : CurlSession) : List (PlaceholderRequest N) :=
  urlRequests p r parseUrl session.url ++ headerRequests p r (session.headers.getD []) ++
    bodyRequests p r permissions request session.body

end Requests

/-- The names that are tried for a base: the base itself, then with a number. -/
def candidate (base : Text) : Nat → Text
  | 0 => base
  | k + 1 => base ++ '_' :: natText (k + 2)

/-- A name may be tried for both bases. -/
def SharesName (base base' : Text) : Prop := ∃ i j, candidate base i = candidate base' j

/-- Where two values have the same placeholder they are equal, so that there is a value for each
placeholder. -/
def OneValue (replaced : List (Replacement N)) : Prop :=
  (∀ a ∈ replaced, ∀ b ∈ replaced, a.name = b.name → a.original = b.original) ∧
    ∃ value : Text → Original N, ∀ a ∈ replaced, value a.name = a.original

end AiProxy.Mcp
