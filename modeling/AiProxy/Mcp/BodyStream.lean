import AiProxy.Mcp.Redaction
import Mathlib.Algebra.Group.Nat.Defs

/-!
# Values at JSON paths, from a stream

`extract_json_paths` of `body_stream.rs`. The requested paths form a tree; the visitor walks through
the document with the nodes that match the current place, redacts what it passes and captures the
values at the ends of paths. Captured values, and the result as a whole, are bounded in size.

The deserializer presents the document (`Platform.fromSlice`); a visitor is a function of it. The body
is given by its decoded bytes.
-/

namespace AiProxy.Mcp

open Json (Bytes Value)
open Utf8 (chars encode)

variable {N : Type}

def maxJsonPathScanBytes : Nat := 64 * 1024 * 1024
def rootPathScanBytes : Nat := 8 * 1024 * 1024
def maxExtractedValueBytes : Nat := 64 * 1024
def maxJsonPathMatches : Nat := 256
def maxExtractedResultBytes : Nat := 960 * 1024
def maxSummaryKeys : Nat := 32
def maxSummaryItems : Nat := 16
def maxSummaryKeyChars : Nat := 64
def maxSummaryBytes : Nat := 4 * 1024
def maxJsonDepth : Nat := 128

/-- `usize::saturating_add`; `saturating_sub` is the subtraction of natural numbers. -/
def saturatingAdd (a b : Nat) : Nat := min (a + b) (2 ^ 64 - 1)

theorem saturatingAdd_eq {a b : Nat} (h : a + b < 2 ^ 64) : saturatingAdd a b = a + b := by
  rw [saturatingAdd]
  omega

structure ToolError (N : Type) where
  code : String
  message : Text
  details : Option (Value N)

def jsonText (t : Text) : Value N := .string (encode t)

def jsonString (s : String) : Value N := jsonText s.toList

def jsonObject (members : List (String × Value N)) : Value N :=
  .object (members.map fun m => (encode m.1.toList, m.2))

def natText (n : Nat) : Text := (Nat.repr n).toList

/-! ## Paths -/

inductive JsonPathSegment where
  | key (key : Bytes)
  | index (index : Nat)
  | wildcard
  deriving DecidableEq

inductive PathNode where
  | mk (terminals : List Nat) (keys : List (Bytes × PathNode)) (indices : List (Nat × PathNode))
    (wildcard : Option PathNode)

namespace PathNode

def terminals : PathNode → List Nat
  | .mk terminals _ _ _ => terminals

def keys : PathNode → List (Bytes × PathNode)
  | .mk _ keys _ _ => keys

def indices : PathNode → List (Nat × PathNode)
  | .mk _ _ indices _ => indices

def wildcard : PathNode → Option PathNode
  | .mk _ _ _ wildcard => wildcard

def empty : PathNode := .mk [] [] [] none

def hasRoutes (node : PathNode) : Bool :=
  !node.keys.isEmpty || !node.indices.isEmpty || node.wildcard.isSome

def hasTerminals (node : PathNode) : Bool := !node.terminals.isEmpty

/-- `entry(key).or_default()`, changed by `f`. -/
def modifyEntry {κ : Type} [DecidableEq κ] (key : κ) (f : PathNode → PathNode) :
    List (κ × PathNode) → List (κ × PathNode)
  | [] => [(key, f empty)]
  | entry :: entries =>
    if entry.1 = key then (key, f entry.2) :: entries else entry :: modifyEntry key f entries

def insert (pathIndex : Nat) : List JsonPathSegment → PathNode → PathNode
  | [], .mk terminals keys indices wildcard => .mk (terminals ++ [pathIndex]) keys indices wildcard
  | .key key :: path, .mk terminals keys indices wildcard =>
    .mk terminals (modifyEntry key (insert pathIndex path) keys) indices wildcard
  | .index index :: path, .mk terminals keys indices wildcard =>
    .mk terminals keys (modifyEntry index (insert pathIndex path) indices) wildcard
  | .wildcard :: path, .mk terminals keys indices wildcard =>
    .mk terminals keys indices (some (insert pathIndex path (wildcard.getD empty)))

end PathNode

def buildPathTree (segments : List (List JsonPathSegment)) : PathNode :=
  segments.zipIdx.foldl (fun root path => root.insert path.2 path.1) .empty

def collectTerminals (nodes : List PathNode) : List Nat :=
  ((nodes.flatMap PathNode.terminals).mergeSort fun a b => decide (a ≤ b)).destutter (· ≠ ·)

def lookup {κ : Type} [DecidableEq κ] (key : κ) (entries : List (κ × PathNode)) :
    List PathNode :=
  ((entries.find? fun entry => entry.1 = key).map (·.2)).toList

def childNodesForKey (nodes : List PathNode) (key : Bytes) : List PathNode :=
  nodes.flatMap fun node => lookup key node.keys ++ node.wildcard.toList

def childNodesForIndex (nodes : List PathNode) (index : Nat) : List PathNode :=
  nodes.flatMap fun node => lookup index node.indices ++ node.wildcard.toList

def isPlainKey (key : Text) : Bool := key.all fun c => c.isAlphanum || c == '_' || c == '-'

def escapeKey (key : Text) : Text :=
  key.flatMap fun c => if c = '\\' then ['\\', '\\'] else if c = '\'' then ['\\', '\''] else [c]

def appendKeyPath (path : Text) (key : Bytes) : Text :=
  if isPlainKey (chars key) then path ++ '.' :: chars key
  else path ++ "['" ++ escapeKey (chars key) ++ "']"

def renderSegment : JsonPathSegment → Text
  | .key key => appendKeyPath [] key
  | .index index => indexPath [] index
  | .wildcard => "[*]"

def renderJsonPath (segments : List JsonPathSegment) : Text := '$' :: segments.flatMap renderSegment

/-! ## Captured values -/

structure CapturedValue (N : Type) where
  value : Value N
  valueType : String
  valueSummary : Option (Value N)
  truncated : Bool
  serializedSize : Nat
  alreadyRedacted : Bool

def CapturedValue.ignored : CapturedValue N := ⟨.null, "null", none, false, 0, false⟩

structure CapturedMatch (N : Type) where
  dedupPath : Text
  value : Value N
  valueSummary : Option (Value N)
  valueType : String
  truncated : Bool

def jsonTypeName : Value N → String
  | .null => "null"
  | .bool _ => "boolean"
  | .number _ => "number"
  | .string _ => "string"
  | .array _ => "array"
  | .object _ => "object"

structure ExtractionState (N : Type) where
  slots : List (List (CapturedMatch N))
  pathLimited : List Bool
  omittedPaths : List Nat
  redactedFields : List Text
  resultBytes : Nat
  resultLimited : Bool

namespace ExtractionState

def new (pathCount : Nat) : ExtractionState N :=
  ⟨List.replicate pathCount [], List.replicate pathCount false, [], [], 0, false⟩

def collectRedactions (st : ExtractionState N) (records : List RedactionRecord) :
    ExtractionState N :=
  { st with redactedFields := st.redactedFields ++ records.map (·.rule) }

/-- A match does not fit into the result. -/
def omitPath (st : ExtractionState N) (pathIndex : Nat) : ExtractionState N :=
  { st with
    resultLimited := true
    pathLimited := st.pathLimited.set pathIndex true
    omittedPaths := pathIndex :: st.omittedPaths }

end ExtractionState

section Extraction

variable (p : Platform N) (r : Redactor) (raw : Bool)

/-- The length of `serde_json::to_vec`. -/
def Platform.serializedLen (v : Value N) : Nat := byteLen (p.toString v)

def matchStorageBytes (captured : CapturedMatch N) : Nat :=
  let summaryBytes := (captured.valueSummary.map p.serializedLen).getD 0
  saturatingAdd (saturatingAdd (saturatingAdd (saturatingAdd (p.serializedLen captured.value)
    summaryBytes) (byteLen captured.dedupPath)) (byteLen captured.valueType.toList)) 64

namespace ExtractionState

def push (st : ExtractionState N) (captured : CapturedMatch N) (pathIndex : Nat) :
    ExtractionState N :=
  let capturedBytes := matchStorageBytes p captured
  let slot := st.slots.getD pathIndex []
  match slot.find? fun existing => existing.dedupPath = captured.dedupPath with
  | some existing =>
    let previousBytes := matchStorageBytes p existing
    let nextBytes := saturatingAdd (st.resultBytes - previousBytes) capturedBytes
    if maxExtractedResultBytes < nextBytes then
      { st.omitPath pathIndex with
        slots := st.slots.set pathIndex
          (slot.filter fun matched => matched.dedupPath ≠ captured.dedupPath)
        resultBytes := st.resultBytes - previousBytes }
    else
      -- A repeated name: the later value takes the place of the earlier one.
      { st with
        resultBytes := nextBytes
        slots := st.slots.set pathIndex
          (slot.set (slot.findIdx fun existing => existing.dedupPath = captured.dedupPath)
            captured) }
  | none =>
    if maxJsonPathMatches ≤ slot.length then
      { st with pathLimited := st.pathLimited.set pathIndex true }
    else if maxExtractedResultBytes < saturatingAdd st.resultBytes capturedBytes then
      st.omitPath pathIndex
    else
      { st with
        resultBytes := saturatingAdd st.resultBytes capturedBytes
        slots := st.slots.set pathIndex (slot ++ [captured]) }

def pushAll (st : ExtractionState N) (captured : CapturedMatch N) (terminals : List Nat) :
    ExtractionState N :=
  terminals.foldl (fun st pathIndex => st.push p captured pathIndex) st

def capture (st : ExtractionState N) (terminals : List Nat) (dedupPath : Text)
    (captured : CapturedValue N) : ExtractionState N :=
  let redacted :=
    if !raw && !captured.alreadyRedacted then redactJsonValueInner p r captured.value dedupPath
    else (captured.value, [])
  (st.collectRedactions redacted.2).pushAll p
    ⟨dedupPath, redacted.1, captured.valueSummary, captured.valueType, captured.truncated⟩ terminals

def captureSensitive (st : ExtractionState N) (terminals : List Nat) (dedupPath : Text)
    (captured : CapturedValue N) : ExtractionState N :=
  st.pushAll p ⟨dedupPath, captured.value, none, captured.valueType, captured.truncated⟩ terminals

end ExtractionState

def ensureJsonDepth (depth : Nat) : Except Text Unit :=
  if maxJsonDepth ≤ depth then
    .error ("recursion limit exceeded: maximum JSON depth is " ++ natText maxJsonDepth)
  else .ok ()

mutual

/-- `DepthLimitedIgnoredSeed`. -/
def ignoreValue : Value N → Nat → Except Text Unit
  | .object members, depth => do
    ensureJsonDepth depth
    ignoreMembers members (depth + 1)
  | .array items, depth => do
    ensureJsonDepth depth
    ignoreItems items (depth + 1)
  | .null, _ => .ok ()
  | .bool _, _ => .ok ()
  | .number _, _ => .ok ()
  | .string _, _ => .ok ()

def ignoreItems : List (Value N) → Nat → Except Text Unit
  | [], _ => .ok ()
  | item :: items, depth => do
    ignoreValue item depth
    ignoreItems items depth

def ignoreMembers : List (Bytes × Value N) → Nat → Except Text Unit
  | [], _ => .ok ()
  | member :: members, depth => do
    ignoreMember member depth
    ignoreMembers members depth

def ignoreMember : Bytes × Value N → Nat → Except Text Unit
  | (_, value), depth => ignoreValue value depth

end

/-- `SensitiveValueVisitor`: the contents of an object or array are skipped. -/
def sensitiveValue (depth : Nat) : Value N → Except Text (Value N)
  | .object members => do
    ensureJsonDepth depth
    ignoreMembers members (depth + 1)
    .ok (.object [])
  | .array items => do
    ensureJsonDepth depth
    ignoreItems items (depth + 1)
    .ok (.array [])
  | value => .ok value

/-- `SensitiveValueSeed`: the redacted value of a member with a sensitive name. -/
def sensitiveValueSeed (key : Bytes) (path : Text) (depth : Nat) (value : Value N)
    (st : ExtractionState N) : Except Text (CapturedValue N × ExtractionState N) := do
  let candidate ← sensitiveValue depth value
  let redacted := (redactJsonField p r key candidate path).getD (candidate, [])
  .ok (⟨redacted.1, jsonTypeName redacted.1, none, false, p.serializedLen redacted.1, true⟩,
    st.collectRedactions redacted.2)

/-! ## Bounded values -/

def completeScalar (value : Value N) : CapturedValue N :=
  ⟨value, jsonTypeName value, none, false, p.serializedLen value, false⟩

/-- The longest part of a text from its start with at most this many bytes. -/
def takeBytes : Nat → Text → Text
  | _, [] => []
  | limit, c :: cs => if byteLen [c] ≤ limit then c :: takeBytes (limit - byteLen [c]) cs else []

structure Summary (N : Type) where
  kind : String
  sizeBytes : Value N
  keyCount : Value N
  returnedKeys : Value N
  keys : List (Value N)
  arrayLength : Value N
  items : List (Value N)

def Summary.toJson (s : Summary N) : Value N :=
  jsonObject
    [("kind", jsonString s.kind), ("sizeBytes", s.sizeBytes), ("keyCount", s.keyCount),
      ("returnedKeys", s.returnedKeys), ("keys", .array s.keys), ("arrayLength", s.arrayLength),
      ("items", .array s.items)]

def capturedString (value path : Text) (st : ExtractionState N) :
    CapturedValue N × ExtractionState N :=
  let redacted := if raw then (value, []) else redactStringInner p r value path
  let st := st.collectRedactions redacted.2
  let full : Value N := jsonText redacted.1
  if byteLen redacted.1 ≤ maxExtractedValueBytes then
    ({ completeScalar p full with alreadyRedacted := !raw }, st)
  else
    let bounded : Value N :=
      jsonText (takeBytes maxExtractedValueBytes redacted.1 ++ "…[truncated]")
    let summary : Summary N :=
      ⟨"string", .number (p.ofNat (p.serializedLen full)), .null, .null, [], .null, []⟩
    (⟨bounded, "string", some summary.toJson, true, p.serializedLen bounded, !raw⟩, st)

def summarySizeBytes (captured : CapturedValue N) : Value N :=
  if captured.valueType = "object" ∨ captured.valueType = "array" then .null
  else .number (p.ofNat captured.serializedSize)

def truncateText (text : Text) (maxChars : Nat) : Text :=
  if text.length ≤ maxChars then text else text.take maxChars ++ "…"

/-- The last keys, then the last items, are left out until the summary is small enough. -/
def boundedSummary : Nat → Summary N → Summary N
  | 0, s => s
  | n + 1, s =>
    if p.serializedLen s.toJson ≤ maxSummaryBytes then s
    else if s.keys ≠ [] then
      boundedSummary n
        { s with
          keys := s.keys.dropLast
          returnedKeys := .number (p.ofNat (s.keys.length - 1)) }
    else if s.items ≠ [] then boundedSummary n { s with items := s.items.dropLast }
    else s

/-- `bounded_summary` drops at most all keys and all items. -/
def Summary.bound (s : Summary N) : Value N :=
  (boundedSummary p (s.keys.length + s.items.length + 1) s).toJson

structure ObjectBuilder (N : Type) where
  object : List (Bytes × Value N)
  serializedSize : Nat
  keyCount : Nat
  summaryKeys : List (Value N)
  truncated : Bool

namespace ObjectBuilder

def empty : ObjectBuilder N := ⟨[], 2, 0, [], false⟩

def appendObjectEntry (b : ObjectBuilder N) (key : Bytes) (value : Value N) : ObjectBuilder N :=
  if b.truncated then b
  else
    let comma := if b.object.isEmpty then 0 else 1
    let nextSize := saturatingAdd (saturatingAdd (saturatingAdd (saturatingAdd b.serializedSize
      comma) (p.serializedLen (.string key))) 1) (p.serializedLen value)
    if maxExtractedValueBytes < nextSize then
      { b with truncated := true, serializedSize := nextSize, object := [] }
    else { b with object := Json.insertMember key value b.object, serializedSize := nextSize }

def pushSummaryKey (b : ObjectBuilder N) (key : Bytes) (captured : CapturedValue N) :
    ObjectBuilder N :=
  if b.summaryKeys.length < maxSummaryKeys then
    { b with
      summaryKeys := b.summaryKeys ++
        [jsonObject
          [("name", jsonText (truncateText (chars key) maxSummaryKeyChars)),
            ("kind", jsonString captured.valueType), ("sizeBytes", summarySizeBytes p captured)]] }
  else b

def append (b : ObjectBuilder N) (key : Bytes) (captured : CapturedValue N) : ObjectBuilder N :=
  (b.appendObjectEntry p key captured.value).pushSummaryKey p key captured

def finish (b : ObjectBuilder N) : CapturedValue N :=
  if b.truncated then
    let summary : Summary N :=
      ⟨"object", .null, .number (p.ofNat b.keyCount), .number (p.ofNat b.summaryKeys.length),
        b.summaryKeys, .null, []⟩
    ⟨.null, "object", some (summary.bound p), true, b.serializedSize, !raw⟩
  else
    ⟨.object b.object, "object", none, false, p.serializedLen (.object b.object), !raw⟩

end ObjectBuilder

structure ArrayBuilder (N : Type) where
  items : List (Value N)
  serializedSize : Nat
  summaryItems : List (Value N)
  truncated : Bool

namespace ArrayBuilder

def empty : ArrayBuilder N := ⟨[], 2, [], false⟩

def appendArrayEntry (b : ArrayBuilder N) (value : Value N) : ArrayBuilder N :=
  if b.truncated then b
  else
    let comma := if b.items.isEmpty then 0 else 1
    let nextSize := saturatingAdd (saturatingAdd b.serializedSize comma) (p.serializedLen value)
    if maxExtractedValueBytes < nextSize then
      { b with truncated := true, serializedSize := nextSize, items := [] }
    else { b with items := b.items ++ [value], serializedSize := nextSize }

def pushSummaryItem (b : ArrayBuilder N) (index : Nat) (captured : CapturedValue N) :
    ArrayBuilder N :=
  if b.summaryItems.length < maxSummaryItems then
    { b with
      summaryItems := b.summaryItems ++
        [jsonObject
          [("index", .number (p.ofNat index)), ("kind", jsonString captured.valueType),
            ("sizeBytes", summarySizeBytes p captured)]] }
  else b

def append (b : ArrayBuilder N) (index : Nat) (captured : CapturedValue N) : ArrayBuilder N :=
  (b.appendArrayEntry p captured.value).pushSummaryItem p index captured

def finish (b : ArrayBuilder N) (arrayLength : Nat) : CapturedValue N :=
  if b.truncated then
    let summary : Summary N :=
      ⟨"array", .null, .null, .null, [], .number (p.ofNat arrayLength), b.summaryItems⟩
    ⟨.null, "array", some (summary.bound p), true, b.serializedSize, !raw⟩
  else ⟨.array b.items, "array", none, false, p.serializedLen (.array b.items), !raw⟩

end ArrayBuilder

/-- `CaptureSeed::deserialize`: `skip` passes over the value, `visit` visits it. -/
def captureSeed (nodes : List PathNode) (path : Text) (collectAll : Bool) (skip : Except Text Unit)
    (visit : Bool → Except Text (CapturedValue N × ExtractionState N)) (st : ExtractionState N) :
    Except Text (CapturedValue N × ExtractionState N) :=
  let terminals := collectTerminals nodes
  let build := collectAll || !terminals.isEmpty
  let routes := nodes.any PathNode.hasRoutes
  if !build && !routes then do
    skip
    .ok (.ignored, st)
  else do
    let visited ← visit build
    .ok (visited.1,
      if terminals.isEmpty then visited.2 else visited.2.capture p r raw terminals path visited.1)

mutual

/-- A value under `CaptureSeed`, visited by `CaptureVisitor`. -/
def captureValue : Value N → List PathNode → Text → Bool → Nat → ExtractionState N →
    Except Text (CapturedValue N × ExtractionState N)
  | .object members, nodes, path, collectAll, depth, st =>
    captureSeed p r raw nodes path collectAll (ignoreValue (.object members) depth)
      (fun build => do
        ensureJsonDepth depth
        let result ← captureMembers members nodes path build depth .empty st
        .ok (if build then result.1.finish p raw else .ignored, result.2)) st
  | .array items, nodes, path, collectAll, depth, st =>
    captureSeed p r raw nodes path collectAll (ignoreValue (.array items) depth)
      (fun build => do
        ensureJsonDepth depth
        let result ← captureItems items 0 nodes path build depth .empty st
        .ok (if build then result.1.finish p raw items.length else .ignored, result.2)) st
  | .string text, nodes, path, collectAll, depth, st =>
    captureSeed p r raw nodes path collectAll (ignoreValue (.string text : Value N) depth)
      (fun _ => .ok (capturedString p r raw (chars text) path st)) st
  | .number n, nodes, path, collectAll, depth, st =>
    captureSeed p r raw nodes path collectAll (ignoreValue (.number n) depth)
      (fun _ => .ok (completeScalar p (.number n), st)) st
  | .bool b, nodes, path, collectAll, depth, st =>
    captureSeed p r raw nodes path collectAll (ignoreValue (.bool b : Value N) depth)
      (fun _ => .ok (completeScalar p (.bool b), st)) st
  | .null, nodes, path, collectAll, depth, st =>
    captureSeed p r raw nodes path collectAll (ignoreValue (.null : Value N) depth)
      (fun _ => .ok (completeScalar p .null, st)) st

/-- The loop of `visit_map`. -/
def captureMembers : List (Bytes × Value N) → List PathNode → Text → Bool → Nat →
    ObjectBuilder N → ExtractionState N → Except Text (ObjectBuilder N × ExtractionState N)
  | [], _, _, _, _, b, st => .ok (b, st)
  | member :: members, nodes, path, build, depth, b, st => do
    let result ← captureMember member nodes path build depth b st
    captureMembers members nodes path build depth result.1 result.2

def captureMember : Bytes × Value N → List PathNode → Text → Bool → Nat →
    ObjectBuilder N → ExtractionState N → Except Text (ObjectBuilder N × ExtractionState N)
  | (key, value), nodes, path, build, depth, b, st =>
    let b := { b with keyCount := b.keyCount + 1 }
    let childNodes := childNodesForKey nodes key
    let childTerminals := collectTerminals childNodes
    let hasChildRoutes := childNodes.any PathNode.hasRoutes
    if !build && childTerminals.isEmpty && !hasChildRoutes then do
      ignoreValue value (depth + 1)
      .ok (b, st)
    else
      let childPath := appendKeyPath path key
      let childBuild := build || !childTerminals.isEmpty
      if !raw && isSensitiveName p r (chars key) then do
        let captured ← sensitiveValueSeed p r key childPath (depth + 1) value st
        .ok (if build then b.append p key captured.1 else b,
          if childTerminals.isEmpty then captured.2
          else captured.2.captureSensitive p childTerminals childPath captured.1)
      else do
        let captured ← captureValue value childNodes childPath childBuild (depth + 1) st
        .ok (if build then b.append p key captured.1 else b, captured.2)

/-- The loop of `visit_seq`. -/
def captureItems : List (Value N) → Nat → List PathNode → Text → Bool → Nat →
    ArrayBuilder N → ExtractionState N → Except Text (ArrayBuilder N × ExtractionState N)
  | [], _, _, _, _, _, b, st => .ok (b, st)
  | item :: items, index, nodes, path, build, depth, b, st =>
    let childNodes := childNodesForIndex nodes index
    let childTerminals := collectTerminals childNodes
    let hasChildRoutes := childNodes.any PathNode.hasRoutes
    if !build && childTerminals.isEmpty && !hasChildRoutes then do
      ignoreValue item (depth + 1)
      captureItems items (index + 1) nodes path build depth b st
    else do
      let captured ← captureValue item childNodes (indexPath path index)
        (build || !childTerminals.isEmpty) (depth + 1) st
      captureItems items (index + 1) nodes path build depth
        (if build then b.append p index captured.1 else b) captured.2

end

/-! ## The tool -/

structure JsonPathExtraction (N : Type) where
  values : List (Value N)
  truncated : Bool
  redactedFields : List Text
  viewSizeBytes : Nat
  hash : Text

def buildResult (st : ExtractionState N) (path : List JsonPathSegment × Nat) : Value N :=
  let matched := st.slots.getD path.2 []
  let limited := st.pathLimited.getD path.2 false
  let omitted := st.omittedPaths.contains path.2
  match matched with
  | [] =>
    jsonObject
      [("path", jsonText (renderJsonPath path.1)), ("found", .bool false), ("value", .null),
        ("valueType", jsonString "missing"), ("matchCount", .number (p.ofNat 0)),
        ("truncated", .bool (limited || omitted)), ("valueSummary", .null),
        ("omittedByResultLimit", .bool omitted)]
  | first :: rest =>
    let containsWildcard := path.1.contains .wildcard
    jsonObject
      [("path", jsonText (renderJsonPath path.1)), ("found", .bool true),
        ("value",
          if containsWildcard || !rest.isEmpty then .array (matched.map (·.value))
          else first.value),
        ("valueType", jsonString (if containsWildcard then "array" else first.valueType)),
        ("matchCount", .number (p.ofNat matched.length)),
        ("truncated", .bool (limited || matched.any (·.truncated))),
        ("valueSummary", if rest.isEmpty then first.valueSummary.getD .null else .null),
        ("omittedByResultLimit", .bool false)]

def buildResults (segments : List (List JsonPathSegment)) (st : ExtractionState N) :
    List (Value N) :=
  segments.zipIdx.map (buildResult p st)

def scanLimitError (decodedSizeBytes : Nat) : ToolError N :=
  ⟨"BODY_TOO_LARGE",
    "JSON field extraction requires scanning the complete body, but it exceeds " ++
      natText maxJsonPathScanBytes ++ " bytes.",
    some (jsonObject
      [("reason", jsonString "scanLimit"), ("decodedSizeBytes", .number (p.ofNat decodedSizeBytes)),
        ("scanLimitBytes", .number (p.ofNat maxJsonPathScanBytes))])⟩

def rootPathError (decodedSizeBytes : Nat) : ToolError N :=
  ⟨"BODY_TOO_LARGE",
    ("The root JSON path ($) is limited to 8 MiB. Request a specific field path instead of the " ++
      "full root value.").toList,
    some (jsonObject
      [("decodedSizeBytes", .number (p.ofNat decodedSizeBytes)),
        ("reason", jsonString "rootPathTooLarge"),
        ("rootPathLimitBytes", .number (p.ofNat rootPathScanBytes))])⟩

def invalidUtf8Error : ToolError N :=
  ⟨"BODY_NOT_JSON", "The body is not UTF-8 JSON.",
    some (jsonObject [("reason", jsonString "invalidUtf8")])⟩

def jsonParseError (message : Text) (captureTruncated : Bool) : ToolError N :=
  if contains message "recursion limit exceeded" then
    ⟨"JSON_TOO_DEEP",
      "The JSON body exceeds the maximum supported depth: " ++ message,
      some (jsonObject
        [("reason", jsonString "depthLimit"), ("captureTruncated", .bool captureTruncated),
          ("maxDepth", .number (p.ofNat maxJsonDepth))])⟩
  else
    ⟨"BODY_NOT_JSON", "The body is not valid JSON: " ++ message,
      some (jsonObject
        [("reason", jsonString "invalidJson"), ("captureTruncated", .bool captureTruncated)])⟩

/-- `validate_bytes` and `validate_file`: the digest of a body that is small enough and UTF-8. -/
def validateBytes (bytes : Bytes) : Except (ToolError N) Text :=
  if maxJsonPathScanBytes < bytes.length then .error (scanLimitError p bytes.length)
  else if (String.fromUTF8? ⟨bytes.toArray⟩).isNone then .error invalidUtf8Error
  else .ok (p.sha256Hex bytes)

def parseReader (bytes : Bytes) (root : PathNode) (st : ExtractionState N) :
    Except Text (ExtractionState N) := do
  let document ← p.fromSlice bytes
  let result ← captureValue p r raw document [root] "$" root.hasTerminals 0 st
  .ok result.2

def extraction (segments : List (List JsonPathSegment)) (st : ExtractionState N) (hash : Text) :
    JsonPathExtraction N :=
  let values := buildResults p segments st
  ⟨values,
    st.pathLimited.any id || st.resultLimited || st.slots.flatten.any (·.truncated),
    btreeSet st.redactedFields, p.serializedLen (.array values), hash⟩

/-- The body is given by its bytes and by whether its capture was cut off. -/
def extractJsonPaths (body : Bytes) (captureTruncated : Bool) (decodedSizeBytes : Nat)
    (segments : List (List JsonPathSegment)) :
    Except (ToolError N) (JsonPathExtraction N) :=
  if maxJsonPathScanBytes < decodedSizeBytes then .error (scanLimitError p decodedSizeBytes)
  else if segments.any List.isEmpty && decide (rootPathScanBytes < decodedSizeBytes) then
    .error (rootPathError p decodedSizeBytes)
  else do
    let hash ← validateBytes p body
    match parseReader p r raw body (buildPathTree segments) (.new segments.length) with
    | .error message => .error (jsonParseError p message captureTruncated)
    | .ok st => .ok (extraction p segments st hash)

end Extraction

end AiProxy.Mcp
