import AiProxy.Rules.JsonPath
import Mathlib.Data.List.Sort

/-!
# Patching single fields of a JSON text

The span reader finds the bytes of each value of a text that is already known to be JSON, and the
patcher replaces the bytes of the edited values only. Both give up on a duplicate member name, on a
missing path and on edits that touch each other.

The reader is a cursor: the bytes that are not yet read, and their position in the text.
-/

namespace AiProxy.Rules

open Json (Bytes Value isWs isNumberStart isNumberChar skipWs fromStrString quote comma colon
  openBracket backslash closeBracket openBrace closeBrace trueWord falseWord nullWord)

mutual

/-- The first byte of a value and the one after its last. -/
inductive JsonSpanNode where
  | mk (start stop : Nat) (kind : JsonSpanKind)

inductive JsonSpanKind where
  | object (members : List (Bytes × JsonSpanNode))
  | array (items : List JsonSpanNode)
  | scalar

end

namespace JsonSpanNode

def start : JsonSpanNode → Nat
  | .mk start _ _ => start

def stop : JsonSpanNode → Nat
  | .mk _ stop _ => stop

def kind : JsonSpanNode → JsonSpanKind
  | .mk _ _ kind => kind

end JsonSpanNode

structure JsonSpanParser where
  rest : Bytes
  pos : Nat

namespace JsonSpanParser

def new (text : Bytes) : JsonSpanParser := ⟨text, 0⟩

def advance (s : JsonSpanParser) (n : Nat) : JsonSpanParser := ⟨s.rest.drop n, s.pos + n⟩

def skipWs (s : JsonSpanParser) : JsonSpanParser := s.advance (s.rest.takeWhile isWs).length

def expect (s : JsonSpanParser) (byte : UInt8) : Option JsonSpanParser :=
  if s.rest.head? = some byte then some (s.advance 1) else none

def expectLiteral (s : JsonSpanParser) (literal : Bytes) : Option JsonSpanParser :=
  if literal <+: s.rest then some (s.advance literal.length) else none

/-- The number of bytes up to the closing quote of a string, with the quote. -/
def stringLength : Bytes → Option Nat
  | [] => none
  | b :: rest =>
    if b = backslash then
      match rest with
      | [] => none
      | _ :: rest => (stringLength rest).map (· + 2)
    else if b = quote then some 1
    else (stringLength rest).map (· + 1)

def isUtf8 (raw : Bytes) : Bool := (String.fromUTF8? ⟨raw.toArray⟩).isSome

def parseString (s : JsonSpanParser) : Option (Bytes × JsonSpanParser) := do
  let start := s
  let s ← s.expect quote
  let n ← stringLength s.rest
  let s := s.advance n
  let raw := start.rest.take (s.pos - start.pos)
  if isUtf8 raw then
    let key ← fromStrString raw
    some (key, s)
  else none

def parseKey (s : JsonSpanParser) : Option (Bytes × JsonSpanParser) := do
  let (key, s) ← s.skipWs.parseString
  let s ← s.skipWs.expect colon
  some (key, s)

/-- No name occurs twice; `seen` are the names so far. -/
def uniqueKeys (seen : List Bytes) : List (Bytes × JsonSpanNode) → Bool
  | [] => true
  | member :: members =>
    if seen.contains member.1 then false else uniqueKeys (member.1 :: seen) members

/-- The arms of `parse_value` for scalars; `b` is the byte at the cursor. -/
def parseScalar (s : JsonSpanParser) (b : UInt8) : Option JsonSpanParser :=
  if b = quote then s.parseString.map (·.2)
  else if b = 0x74 then s.expectLiteral trueWord
  else if b = 0x66 then s.expectLiteral falseWord
  else if b = 0x6e then s.expectLiteral nullWord
  else if isNumberStart b then some (s.advance (s.rest.takeWhile isNumberChar).length)
  else none

mutual

def parseValue : Nat → JsonSpanParser → Option (JsonSpanNode × JsonSpanParser)
  | 0, _ => none
  | fuel + 1, s =>
    let s := s.skipWs
    let start := s.pos
    match s.rest.head? with
    | none => none
    | some b =>
      if b = openBrace then do
        let s := (s.advance 1).skipWs
        let (members, s) ←
          if s.rest.head? = some closeBrace then some ([], s.advance 1) else parseMembers fuel s
        if uniqueKeys [] members then some (.mk start s.pos (.object members), s) else none
      else if b = openBracket then do
        let s := (s.advance 1).skipWs
        let (items, s) ←
          if s.rest.head? = some closeBracket then some ([], s.advance 1) else parseItems fuel s
        some (.mk start s.pos (.array items), s)
      else (parseScalar s b).map fun s => (.mk start s.pos .scalar, s)

def parseMembers : Nat → JsonSpanParser → Option (List (Bytes × JsonSpanNode) × JsonSpanParser)
  | 0, _ => none
  | fuel + 1, s => do
    let (key, s) ← s.parseKey
    let (value, s) ← parseValue fuel s
    let s := s.skipWs
    if s.rest.head? = some comma then do
      let (members, s) ← parseMembers fuel (s.advance 1)
      some ((key, value) :: members, s)
    else if s.rest.head? = some closeBrace then some ([(key, value)], s.advance 1)
    else none

def parseItems : Nat → JsonSpanParser → Option (List JsonSpanNode × JsonSpanParser)
  | 0, _ => none
  | fuel + 1, s => do
    let (value, s) ← parseValue fuel s
    let s := s.skipWs
    if s.rest.head? = some comma then do
      let (items, s) ← parseItems fuel (s.advance 1)
      some (value :: items, s)
    else if s.rest.head? = some closeBracket then some ([value], s.advance 1)
    else none

end

def parseRoot (s : JsonSpanParser) : Option JsonSpanNode := do
  let fuel := s.rest.length + 1
  let (node, s) ← s.skipWs.parseValue fuel
  let s := s.skipWs
  if s.rest = [] then some node else none

end JsonSpanParser

def JsonSpanNode.child (node : JsonSpanNode) (segment : JsonPathSegment) : Option JsonSpanNode :=
  match node.kind, segment with
  | .object members, .key k => (members.find? fun member => member.1 = k).map (·.2)
  | .array items, .index i => items[i]?
  | _, _ => none

def jsonSpanValue (node : JsonSpanNode) (segments : List JsonPathSegment) : Option JsonSpanNode :=
  segments.foldlM JsonSpanNode.child node

/-- The bytes `start..stop` of the text are to be replaced. -/
structure Patch where
  start : Nat
  stop : Nat
  replacement : Bytes

namespace Patch

/-- The order of `sort_by_key(|patch| patch.0)`. -/
def StartsBefore (a b : Patch) : Prop := a.start ≤ b.start

instance : DecidableRel StartsBefore := fun a b => inferInstanceAs (Decidable (a.start ≤ b.start))

/-- The check of each two neighbours: they neither start at one place nor overlap. -/
def separate : List Patch → Bool
  | a :: b :: rest => !(a.start = b.start || b.start < a.stop) && separate (b :: rest)
  | _ => true

def output (text : Bytes) (cursor : Nat) : List Patch → Bytes
  | [] => text.drop cursor
  | patch :: rest =>
    (text.drop cursor).take (patch.start - cursor) ++
      (patch.replacement ++ output text patch.stop rest)

end Patch

variable {N : Type}

/-- Replace only the changed value spans. `none` when an edit cannot be made byte by byte. `toStr`
is `serde_json::to_string`. -/
def patchJsonFieldValues (toStr : Value N → Option Bytes) (bodyText : Bytes)
    (edits : List (List JsonPathSegment × Value N)) : Option Bytes := do
  if edits = [] then none
  else
    let root ← (JsonSpanParser.new bodyText).parseRoot
    let patches ← edits.mapM fun edit => do
      let node ← jsonSpanValue root edit.1
      some (Patch.mk node.start node.stop (← toStr edit.2))
    let patches := patches.insertionSort Patch.StartsBefore
    if Patch.separate patches then some (Patch.output bodyText 0 patches) else none

end AiProxy.Rules
