import AiProxy.Mcp.BodyStream

/-!
# Searching a body for a text

`search_text` of `text_search.rs`. The redacted document is written piece by piece into a sink, which
searches what it has received in batches and forgets what it no longer needs; a body that is no JSON
document is redacted as a text and searched as a whole.
-/

namespace AiProxy.Mcp

open Json (Bytes Value)
open Utf8 (chars)

variable {N : Type}

def maxTextQueryHits : Nat := 20
def maxTextQueryScanBytes : Nat := 16 * 1024 * 1024
def searchWindowBytes : Nat := 8 * 1024
def matchSlackBytes : Nat := 8 * 1024
def scanBatchBytes : Nat := 8 * 1024

/-! ## Texts by byte offsets -/

def isCharBoundary : Text → Nat → Bool
  | _, 0 => true
  | [], _ + 1 => false
  | c :: cs, n + 1 => byteLen [c] ≤ n + 1 && isCharBoundary cs (n + 1 - byteLen [c])

/-- The last boundary at or before an offset. -/
def floorFrom (t : Text) : Nat → Nat
  | 0 => 0
  | n + 1 => if isCharBoundary t (n + 1) then n + 1 else floorFrom t n

/-- The first boundary from an offset on, within so many steps. -/
def ceilFrom (t : Text) : Nat → Nat → Nat
  | 0, offset => offset
  | n + 1, offset =>
    if offset < byteLen t && !isCharBoundary t offset then ceilFrom t n (offset + 1) else offset

def dropBytes (offset : Nat) (t : Text) : Text := t.drop (takeBytes offset t).length

/-- `&t[start..stop]` -/
def sliceBytes (t : Text) (start stop : Nat) : Text := dropBytes start (takeBytes stop t)

structure Found where
  start : Nat
  stop : Nat
  text : Text

def foundIn (offset : Nat) : List Piece → List Found
  | [] => []
  | .copy c :: pieces => foundIn (offset + byteLen [c]) pieces
  | .hit t _ :: pieces =>
    ⟨offset, offset + byteLen t, t⟩ :: foundIn (offset + byteLen t) pieces

def findIter (m : Pattern) (t : Text) : List Found := foundIn 0 (m.pieces t)

/-- The query as a literal, matched without regard to case. -/
def queryRegex (u : Unicode) (query : Text) : Regex :=
  .all (query.map fun c => .char (u.simpleFold c))

section Search

variable (p : Platform N)

def jsonMatch (offset : Nat) (snippet matched : Text) : Value N :=
  jsonObject
    [("offsetBytes", .number (p.ofNat offset)), ("snippet", jsonText snippet),
      ("match", jsonText matched)]

/-- The first hits with their surroundings, and whether there are more. -/
def textMatchesFrom (text : Text) (contextBytes : Nat) (hits : List (Value N)) :
    List Found → List (Value N) × Bool
  | [] => (hits, false)
  | found :: rest =>
    if maxTextQueryHits ≤ hits.length then (hits, true)
    else
      let start := floorFrom text (found.start - contextBytes)
      let stop := ceilFrom text (byteLen text)
        (min (saturatingAdd found.stop contextBytes) (byteLen text))
      textMatchesFrom text contextBytes
        (hits ++ [jsonMatch p found.start (sliceBytes text start stop) found.text]) rest

def textMatches (text query : Text) (contextBytes : Nat) : List (Value N) × Bool :=
  match p.literalError query with
  | some _ => ([], false)
  | none =>
    textMatchesFrom p text contextBytes [] (findIter (queryRegex p.unicode query).pattern text)

/-! ## The sink -/

structure MatchSink (N : Type) where
  matcher : Pattern
  contextBytes : Nat
  maxMatchBytes : Nat
  buffer : Text
  bufferStart : Nat
  nextSearchFrom : Nat
  totalLen : Nat
  found : List (Value N)
  limited : Bool

namespace MatchSink

def new (query : Text) (contextBytes : Nat) : Except (ToolError N) (MatchSink N) :=
  match p.literalError query with
  | some error => .error ⟨"INVALID_ARGUMENT", "Invalid textQuery: " ++ error, none⟩
  | none =>
    .ok ⟨(queryRegex p.unicode query).pattern, contextBytes,
      saturatingAdd (min (byteLen query * 4) (2 ^ 64 - 1)) 64, [], 0, 0, 0, [], false⟩

def releaseBuffer (s : MatchSink N) : MatchSink N :=
  { s with buffer := [], bufferStart := s.totalLen, nextSearchFrom := s.totalLen }

def retention (s : MatchSink N) : Nat :=
  max searchWindowBytes (saturatingAdd s.contextBytes matchSlackBytes)

def floorBoundary (s : MatchSink N) (absolute : Nat) : Nat :=
  s.bufferStart + floorFrom s.buffer (min absolute s.totalLen - s.bufferStart)

def ceilBoundary (s : MatchSink N) (absolute : Nat) : Nat :=
  s.bufferStart + ceilFrom s.buffer (byteLen s.buffer) (min absolute s.totalLen - s.bufferStart)

def trim (s : MatchSink N) : MatchSink N :=
  let keep := s.floorBoundary (s.nextSearchFrom - saturatingAdd s.contextBytes matchSlackBytes)
  if s.bufferStart < keep then
    { s with buffer := dropBytes (keep - s.bufferStart) s.buffer, bufferStart := keep }
  else s

/-- The matches of one batch: the sink, how far it got, and whether a match has to wait. -/
def takeMatches (flush : Bool) (safeEnd searchFrom : Nat) :
    List Found → MatchSink N → Nat → MatchSink N × Nat × Bool
  | [], s, advanceTo => (s, advanceTo, false)
  | found :: rest, s, advanceTo =>
    let absStart := searchFrom + found.start
    let absEnd := searchFrom + found.stop
    if safeEnd ≤ absStart then (s, advanceTo, true)
    else if !flush && decide (safeEnd < saturatingAdd absEnd s.contextBytes) then
      (s, advanceTo, true)
    else if maxTextQueryHits ≤ s.found.length then ({ s with limited := true }, advanceTo, false)
    else
      let snippetStart := s.floorBoundary (absStart - s.contextBytes) - s.bufferStart
      let snippetEnd :=
        s.ceilBoundary (min (saturatingAdd absEnd s.contextBytes) s.totalLen) - s.bufferStart
      if byteLen s.buffer < snippetEnd then (s, advanceTo, true)
      else
        let snippet := sliceBytes s.buffer snippetStart snippetEnd
        takeMatches flush safeEnd searchFrom rest
          { s with found := s.found ++ [jsonMatch p absStart snippet found.text] } absEnd

def scan (s : MatchSink N) (flush : Bool) : MatchSink N :=
  if s.limited then s.releaseBuffer
  else
    let safeEnd := s.floorBoundary (if flush then s.totalLen else s.totalLen - s.retention)
    let searchFrom := max s.nextSearchFrom s.bufferStart
    let base := searchFrom - s.bufferStart
    let searchEnd :=
      min (s.ceilBoundary (min (saturatingAdd safeEnd s.maxMatchBytes) s.totalLen) - s.bufferStart)
        (byteLen s.buffer)
    if safeEnd ≤ s.nextSearchFrom || safeEnd ≤ searchFrom || searchEnd ≤ base then s
    else
      let result := takeMatches p flush safeEnd searchFrom
        (findIter s.matcher (sliceBytes s.buffer base searchEnd)) s searchFrom
      if result.1.limited then result.1.releaseBuffer
      else
        let reached := if result.2.2 then result.2.1 else safeEnd
        trim { result.1 with nextSearchFrom := max result.1.nextSearchFrom reached }

def writeStr (s : MatchSink N) (text : Text) : MatchSink N :=
  if text = [] then s
  else
    let s := { s with totalLen := saturatingAdd s.totalLen (byteLen text) }
    if s.limited then s.releaseBuffer
    else
      let s := { s with buffer := s.buffer ++ text }
      if scanBatchBytes ≤ s.totalLen - s.retention - s.nextSearchFrom then s.scan p false else s

def finish (s : MatchSink N) : MatchSink N := s.scan p true

end MatchSink

/-! ## The visitor -/

structure RedactContext (N : Type) where
  sink : MatchSink N
  records : List RedactionRecord

namespace RedactContext

def write (c : RedactContext N) (text : Text) : RedactContext N :=
  { c with sink := c.sink.writeStr p text }

def writeRedacted (c : RedactContext N) (redacted : Text × List RedactionRecord) :
    RedactContext N :=
  write p { c with records := c.records ++ redacted.2 } (p.toString (jsonText redacted.1))

end RedactContext

section Visitor

variable (r : Redactor)

def redactNamedScalar (name value path : Text) : Text × List RedactionRecord :=
  match classify p r name with
  | some c => redactScalar p r value path c
  | none => redactStringInner p r value path

def redactNamedContainer (name path : Text) : Text × List RedactionRecord :=
  let rule := ((classify p r name).map (·.rule)).getD (p.unicode.toLowercase (trim name))
  (redactedValue, [⟨path, rule, "redact"⟩])

/-- `SensitiveVisitor`: what is written for the value of a member with a sensitive name. -/
def sensitiveSeed (key : Text) (path : Text) : Value N → Text × List RedactionRecord
  | .null => (redactedValue, [])
  | .bool b => redactNamedScalar p r key (if b then "true" else "false") path
  | .number n => redactNamedScalar p r key (p.displayNumber n) path
  | .string text => redactNamedScalar p r key (chars text) path
  | .array _ => redactNamedContainer p r key path
  | .object _ => redactNamedContainer p r key path

def ensureSearchDepth (depth : Nat) : Except Text Unit :=
  if maxJsonDepth ≤ depth then .error "recursion limit exceeded" else .ok ()

mutual

def redactVisit : Value N → Text → Nat → RedactContext N → Except Text (RedactContext N)
  | .null, _, _, c => .ok (c.write p "null")
  | .bool b, _, _, c => .ok (c.write p (p.toString (.bool b)))
  | .number n, _, _, c => .ok (c.write p (p.toString (.number n)))
  | .string text, path, _, c => .ok (c.writeRedacted p (redactStringInner p r (chars text) path))
  | .array items, path, depth, c => do
    ensureSearchDepth depth
    let c ← redactVisitItems items 0 path depth (c.write p "[")
    .ok (c.write p "]")
  | .object members, path, depth, c => do
    ensureSearchDepth depth
    let c ← redactVisitMembers members true path depth (c.write p "\x7b")
    .ok (c.write p "\x7d")

def redactVisitItems :
    List (Value N) → Nat → Text → Nat → RedactContext N → Except Text (RedactContext N)
  | [], _, _, _, c => .ok c
  | item :: items, index, path, depth, c => do
    let c := if 0 < index then c.write p "," else c
    let c ← redactVisit item (indexPath path index) (depth + 1) c
    redactVisitItems items (index + 1) path depth c

def redactVisitMembers :
    List (Bytes × Value N) → Bool → Text → Nat → RedactContext N → Except Text (RedactContext N)
  | [], _, _, _, c => .ok c
  | member :: members, first, path, depth, c => do
    let c ← redactVisitMember member path depth (if first then c else c.write p ",")
    redactVisitMembers members false path depth c

def redactVisitMember :
    Bytes × Value N → Text → Nat → RedactContext N → Except Text (RedactContext N)
  | (key, value), path, depth, c =>
    let c := (c.write p (p.toString (.string key))).write p ":"
    let childPath := appendKeyPath path key
    if isSensitiveName p r (chars key) then
      .ok (c.writeRedacted p (sensitiveSeed p r (chars key) childPath value))
    else redactVisit value childPath (depth + 1) c

end

def tryStreamRedactedJson (body : Bytes) (c : RedactContext N) : Except Text (RedactContext N) := do
  let document ← p.fromSlice body
  redactVisit p r document "$" 0 c

structure TextSearchOutcome (N : Type) where
  found : List (Value N)
  limited : Bool
  structureParsed : Bool
  redactedFields : List Text
  hash : Option Text

def textQueryScanLimitError (decodedSizeBytes scanLimitBytes : Nat) : ToolError N :=
  ⟨"BODY_TOO_LARGE",
    "textQuery is limited to " ++ natText scanLimitBytes ++
      " decoded bytes, but this body is " ++ natText decodedSizeBytes ++
      (" bytes. Use get_session_body with jsonPaths to read the specific fields you need instead " ++
        "of searching the whole body.").toList,
    some (jsonObject
      [("reason", jsonString "scanLimit"), ("decodedSizeBytes", .number (p.ofNat decodedSizeBytes)),
        ("scanLimitBytes", .number (p.ofNat scanLimitBytes)), ("textQuery", .bool true),
        ("recommendedAction", jsonString "useJsonPaths"),
        ("recommendedTool", jsonString "get_session_body")])⟩

def notTextError : ToolError N :=
  ⟨"BODY_NOT_TEXT", "textQuery requires a UTF-8 text body.",
    some (jsonObject [("reason", jsonString "notText")])⟩

def readText (body : Bytes) (scanLimitBytes : Nat) : Except (ToolError N) Text :=
  if scanLimitBytes < body.length then
    .error (textQueryScanLimitError p body.length scanLimitBytes)
  else if (String.fromUTF8? ⟨body.toArray⟩).isNone then .error notTextError
  else .ok (chars body)

def searchText (body : Bytes) (decodedSizeBytes : Nat) (query : Text) (contextBytes : Nat)
    (raw : Bool) (scanLimitBytes : Nat) : Except (ToolError N) (TextSearchOutcome N) :=
  if scanLimitBytes < decodedSizeBytes then
    .error (textQueryScanLimitError p decodedSizeBytes scanLimitBytes)
  else if raw then do
    let text ← readText p body scanLimitBytes
    let result := textMatches p text query contextBytes
    .ok ⟨result.1, result.2, p.isDocument body, [], some (p.sha256Hex body)⟩
  else do
    let sink ← MatchSink.new p query contextBytes
    match tryStreamRedactedJson p r body ⟨sink, []⟩ with
    | .ok c =>
      let sink := c.sink.finish p
      .ok ⟨sink.found, sink.limited, true, btreeSet (c.records.map (·.rule)), none⟩
    | .error _ =>
      let text ← readText p body scanLimitBytes
      let redacted := redactNonJsonText p r text
      let result := textMatches p redacted.value query contextBytes
      .ok ⟨result.1, result.2, false, redacted.fields, none⟩

end Visitor

end Search

end AiProxy.Mcp
