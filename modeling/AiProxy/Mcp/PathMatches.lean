import AiProxy.Mcp.RedactionContract
import Mathlib.Algebra.GroupWithZero.Nat

/-!
# What a path denotes in a document

`extract_matches` of `body.rs` evaluates a path on a parsed document. Here it stands beside the places
at which a path finds its values, and beside the sizes that decide whether a streamed value is
complete.
-/

namespace AiProxy.Mcp

open Json (Bytes Value toValue)
open Utf8 (chars encode)

variable {N : Type}

def extractMatches : List JsonPathSegment → Value N → List (Value N)
  | [], value => [value]
  | .key key :: rest, .object object =>
    match object.find? fun member => member.1 = key with
    | some member => extractMatches rest member.2
    | none => []
  | .index index :: rest, .array items =>
    match items[index]? with
    | some item => extractMatches rest item
    | none => []
  | .wildcard :: rest, .array items => items.flatMap (extractMatches rest)
  | .wildcard :: rest, .object object => object.flatMap fun member => extractMatches rest member.2
  | _ :: _, _ => []

def returnedValue (path : List JsonPathSegment) : List (Value N) → Value N
  | [] => .null
  | [value] => if path.contains .wildcard then .array [value] else value
  | values => .array values

def field (name : String) : Value N → Option (Value N)
  | .object members => (members.find? fun m => m.1 = encode name.toList).map (·.2)
  | _ => none

def JsonPathSegment.selectsKey : JsonPathSegment → Bytes → Bool
  | .key k, name => decide (k = name)
  | .index _, _ => false
  | .wildcard, _ => true

def JsonPathSegment.selectsIndex : JsonPathSegment → Nat → Bool
  | .key _, _ => false
  | .index j, i => decide (j = i)
  | .wildcard, _ => true

/-- The values a path reaches, with the paths of their places, in document order. Of a repeated name
every member is entered. -/
def placedMatches : List JsonPathSegment → Value N → Text → List (Text × Value N)
  | [], value, place => [(place, value)]
  | segment :: rest, .object members, place =>
    members.flatMap fun m =>
      if segment.selectsKey m.1 then placedMatches rest m.2 (appendKeyPath place m.1) else []
  | segment :: rest, .array items, place =>
    items.zipIdx.flatMap fun x =>
      if segment.selectsIndex x.2 then placedMatches rest x.1 (indexPath place x.2) else []
  | _ :: _, _, _ => []

/-- Something with a place, which takes the place of what was there. -/
def putLast {α : Type} (place : α → Text) (kept : List α) (x : α) : List α :=
  if kept.any fun k => place k = place x then
    kept.set (kept.findIdx fun k => place k = place x) x
  else kept ++ [x]

def keepLast {α : Type} (placed : List (Text × α)) : List (Text × α) :=
  placed.foldl (putLast (·.1)) []

/-- The values a path reaches in a document as it stands in the text. -/
def reached (path : List JsonPathSegment) (document : Value N) : List (Value N) :=
  (keepLast (placedMatches path document "$")).map (·.2)

/-- Nothing is reached in a member that a later one with the same name has replaced. -/
def Current (path : List JsonPathSegment) (document : Value N) : Prop :=
  (reached path document).map toValue = extractMatches path (toValue document)

/-! ## Documents -/

mutual

def UniqueNames : Value N → Prop
  | .object members => (members.map (·.1)).Nodup ∧ UniqueNamesMembers members
  | .array items => UniqueNamesItems items
  | .null => True
  | .bool _ => True
  | .number _ => True
  | .string _ => True

def UniqueNamesItems : List (Value N) → Prop
  | [] => True
  | v :: vs => UniqueNames v ∧ UniqueNamesItems vs

def UniqueNamesMembers : List (Bytes × Value N) → Prop
  | [] => True
  | m :: ms => UniqueNamesMember m ∧ UniqueNamesMembers ms

def UniqueNamesMember : Bytes × Value N → Prop
  | (_, v) => UniqueNames v

end

def IsText (bytes : Bytes) : Prop := encode (chars bytes) = bytes

mutual

def Textual : Value N → Prop
  | .object members => TextualMembers members
  | .array items => TextualItems items
  | .string s => IsText s
  | .null => True
  | .bool _ => True
  | .number _ => True

def TextualItems : List (Value N) → Prop
  | [] => True
  | v :: vs => Textual v ∧ TextualItems vs

def TextualMembers : List (Bytes × Value N) → Prop
  | [] => True
  | m :: ms => TextualMember m ∧ TextualMembers ms

def TextualMember : Bytes × Value N → Prop
  | (k, v) => IsText k ∧ Textual v

end

mutual

def EachNumber (ok : N → Prop) : Value N → Prop
  | .null => True
  | .bool _ => True
  | .number n => ok n
  | .string _ => True
  | .array items => EachItemNumber ok items
  | .object members => EachMemberNumber ok members

def EachItemNumber (ok : N → Prop) : List (Value N) → Prop
  | [] => True
  | v :: vs => EachNumber ok v ∧ EachItemNumber ok vs

def EachMemberNumber (ok : N → Prop) : List (Bytes × Value N) → Prop
  | [] => True
  | m :: ms => MemberNumbers ok m ∧ EachMemberNumber ok ms

def MemberNumbers (ok : N → Prop) : Bytes × Value N → Prop
  | (_, v) => EachNumber ok v

end

/-- These numbers are written alike as a `Number` and as the integer it holds. -/
def Platform.SameDisplay (p : Platform N) (integral : N → Prop) : Prop :=
  ∀ n, integral n → p.displayNumber n = p.numberToString n

/-! ## Sizes -/

/-- The compact form in which `serde_json` writes a value. -/
structure Platform.Compact (p : Platform N) : Prop where
  null : p.toString .null = "null"
  string : ∀ s, byteLen (chars s) + 2 ≤ p.serializedLen (.string s)
  array : ∀ items, p.toString (.array items) =
    '[' :: ([','].intercalate (items.map p.toString) ++ [']'])
  object : ∀ members, p.toString (.object members) =
    '\x7b' :: ([','].intercalate
      (members.map fun m => p.toString (.string m.1) ++ ':' :: p.toString m.2) ++ ['\x7d'])

def arraySize (p : Platform N) (items : List (Value N)) : Nat :=
  2 + (items.length - 1) + (items.map p.serializedLen).sum

def objectSize (p : Platform N) (members : List (Bytes × Value N)) : Nat :=
  2 + (members.length - 1) +
    (members.map fun m => p.serializedLen (.string m.1) + 1 + p.serializedLen m.2).sum

section View

variable (p : Platform N) (r : Redactor) (raw : Bool)

/-- The value of a member with this name is replaced as a whole. -/
def hides (key : Bytes) : Bool := !raw && isSensitiveName p r (chars key)

def hiddenValue (key : Bytes) (v : Value N) : Value N :=
  ((redactJsonField p r key v []).getD (v, [])).1

def shownText (text : Text) : Text := if raw then text else (redactStringInner p r text []).1

mutual

def view : Value N → Value N
  | .object members => .object (Json.collect (viewMembers members))
  | .array items => .array (viewItems items)
  | .string s => jsonText (shownText p r raw (chars s))
  | .null => .null
  | .bool b => .bool b
  | .number n => .number n

def viewItems : List (Value N) → List (Value N)
  | [] => []
  | v :: vs => view v :: viewItems vs

def viewMembers : List (Bytes × Value N) → List (Bytes × Value N)
  | [] => []
  | m :: ms => viewMember m :: viewMembers ms

def viewMember : Bytes × Value N → Bytes × Value N
  | (k, v) => (k, if hides p r raw k then hiddenValue p r k v else view v)

end

mutual

/-- Nothing in the value, itself included, is larger than what a result may hold. -/
def Fits : Value N → Prop
  | .object members => objectSize p (viewMembers p r raw members) ≤ maxExtractedValueBytes ∧
      MembersFit members
  | .array items => arraySize p (viewItems p r raw items) ≤ maxExtractedValueBytes ∧ ItemsFit items
  | .string s => byteLen (shownText p r raw (chars s)) ≤ maxExtractedValueBytes
  | .null => True
  | .bool _ => True
  | .number _ => True

def ItemsFit : List (Value N) → Prop
  | [] => True
  | v :: vs => Fits v ∧ ItemsFit vs

def MembersFit : List (Bytes × Value N) → Prop
  | [] => True
  | m :: ms => MemberFits m ∧ MembersFit ms

def MemberFits : Bytes × Value N → Prop
  | (k, v) => hides p r raw k = true ∨ Fits v

end

def ContentsFit : Value N → Prop
  | .object members => MembersFit p r raw members
  | .array items => ItemsFit p r raw items
  | _ => True

/-- A document as it is shown after it was parsed: redacted, or as it is in raw mode. -/
def materialized (document : Value N) : Value N :=
  if raw then toValue document else (redactJsonValueInner p r (toValue document) "$").1

end View

/-- What the matches of a path take of the result. -/
def matchBytes (p : Platform N) (x : Text × Value N) : Nat :=
  p.serializedLen x.2 + byteLen x.1 + byteLen (jsonTypeName x.2).toList + 64

def pathBytes (p : Platform N) (tree : Value N) (path : List JsonPathSegment) : Nat :=
  ((placedMatches path tree "$").map (matchBytes p)).sum

end AiProxy.Mcp
