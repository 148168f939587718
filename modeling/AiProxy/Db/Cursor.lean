import AiProxy.Db.Sessions
import AiProxy.Lib.Base64Url
import AiProxy.Lib.JsonPrint
import AiProxy.Mcp.Redaction

/-!
# Cursors of a session search

A cursor names the last row of a page by its sort key. It is a JSON object in URL-safe base64.

Of a number literal only its value as an integer is kept; a literal that is no integer, or does not
fit into 64 bits, is no value for any member of a cursor.
-/

namespace AiProxy.Db

open Json (Bytes Value)
open Utf8 (encode)
open Mcp (trim)

def sessionSearchSchemaVersion : Nat := 2

inductive SessionSortField where
  | startedAt
  | durationMs
  | sizeBytes
  | statusCode

def SessionSortField.asStr : SessionSortField → Text
  | .startedAt => "startedAt"
  | .durationMs => "durationMs"
  | .sizeBytes => "sizeBytes"
  | .statusCode => "statusCode"

inductive SortOrder where
  | desc
  | asc

def SortOrder.asStr : SortOrder → Text
  | .desc => "desc"
  | .asc => "asc"

structure CursorPayload where
  /-- `u32` -/
  version : Nat
  sortBy : Text
  sortOrder : Text
  startedAt : Text
  id : Text
  /-- `i64` -/
  sortValue : Option Int

def printNat (n : Nat) : Bytes := (Nat.toDigits 10 n).map fun c => c.toNat.toUInt8

def printInt : Int → Bytes
  | .ofNat n => printNat n
  | .negSucc n => 0x2d :: printNat (n + 1)

def readNat (digits : Bytes) : Nat :=
  Nat.ofDigitChars 10 (digits.map fun b => Char.ofNat b.toNat) 0

/-- `[eE][+-]?[0-9]+`, or nothing. -/
def isExponent : Bytes → Bool
  | [] => true
  | b :: rest =>
    let digits := match rest with
      | c :: tail => if c = 0x2b ∨ c = 0x2d then tail else rest
      | [] => []
    (b == 0x65 || b == 0x45) && !digits.isEmpty && digits.all Json.isDigit

/-- `(\.[0-9]+)?` with an exponent. -/
def isFraction : Bytes → Bool
  | [] => false
  | b :: rest =>
    if b = 0x2e then
      !(rest.takeWhile Json.isDigit).isEmpty && isExponent (rest.dropWhile Json.isDigit)
    else isExponent (b :: rest)

/-- An integer literal; the negative zero is a floating-point number. -/
def integerOf (negative : Bool) (n : Nat) : Option Int :=
  if negative then (if n = 0 ∨ (2 : Nat) ^ 63 < n then none else some (-(n : Int)))
  else if n < 2 ^ 64 then some n else none

/-- The value of a number literal, `none` when it is not well formed. -/
def numberOf (literal : Bytes) : Option (Option Int) :=
  let negative := literal.head? == some 0x2d
  let rest := if negative then literal.tail else literal
  let digits := rest.takeWhile Json.isDigit
  let tail := rest.dropWhile Json.isDigit
  if digits.isEmpty || (digits.head? == some 0x30 && 1 < digits.length) then none
  else if tail.isEmpty then some (integerOf negative (readNat digits))
  else if isFraction tail then some none
  else none

def fieldName (s : String) : Bytes := encode s.toList

def stringMember (t : Text) : Bytes × Value (Option Int) :=
  (Json.printString (encode t), .string (encode t))

def optionMember : Option Int → Bytes × Value (Option Int)
  | none => (Json.nullWord, .null)
  | some v => (printInt v, .number (some v))

def CursorPayload.members (c : CursorPayload) : List (Bytes × Bytes × Value (Option Int)) :=
  [(fieldName "version", printNat c.version, .number (some c.version)),
    (fieldName "sortBy", stringMember c.sortBy), (fieldName "sortOrder", stringMember c.sortOrder),
    (fieldName "startedAt", stringMember c.startedAt), (fieldName "id", stringMember c.id),
    (fieldName "sortValue", optionMember c.sortValue)]

/-- `serde_json::to_vec` -/
def CursorPayload.toVec (c : CursorPayload) : Bytes :=
  Json.printObject (c.members.map fun m => (m.1, m.2.1))

def asText : Value (Option Int) → Option Text
  | .string s => (String.fromUTF8? ⟨s.toArray⟩).map String.toList
  | _ => none

def asU32 : Value (Option Int) → Option Nat
  | .number (some (.ofNat n)) => if n < 2 ^ 32 then some n else none
  | _ => none

def asOptionI64 : Value (Option Int) → Option (Option Int)
  | .null => some none
  | .number (some v) => if v ≤ i64Max then some (some v) else none
  | _ => none

def member (s : String) (ms : List (Bytes × Value (Option Int))) :
    Option (Option (Value (Option Int))) :=
  match ms.filter fun m => m.1 = fieldName s with
  | [] => some none
  | [m] => some (some m.2)
  | _ => none

def required {β : Type} (read : Value (Option Int) → Option β) (s : String)
    (ms : List (Bytes × Value (Option Int))) : Option β := do
  let value ← member s ms
  read (← value)

/-- `serde_json::from_slice`: an object whose other members are ignored, or the values in order. -/
def CursorPayload.fromSlice (bytes : Bytes) : Option CursorPayload :=
  match Json.document numberOf bytes with
  | some (.object ms) => do
    let version ← required asU32 "version" ms
    let sortBy ← required asText "sortBy" ms
    let sortOrder ← required asText "sortOrder" ms
    let startedAt ← required asText "startedAt" ms
    let id ← required asText "id" ms
    let sortValue ← member "sortValue" ms
    let sortValue ← asOptionI64 (sortValue.getD .null)
    some ⟨version, sortBy, sortOrder, startedAt, id, sortValue⟩
  | some (.array [version, sortBy, sortOrder, startedAt, id, sortValue]) => do
    some ⟨← asU32 version, ← asText sortBy, ← asText sortOrder, ← asText startedAt, ← asText id,
      ← asOptionI64 sortValue⟩
  | _ => none

def invalidCursor : DbError := .validation "invalid cursor"

def cursorOf (row : SessionSummaryRow) (sortBy : SessionSortField) (sortOrder : SortOrder) :
    CursorPayload where
  version := sessionSearchSchemaVersion
  sortBy := sortBy.asStr
  sortOrder := sortOrder.asStr
  startedAt := row.startedAt
  id := row.id
  sortValue :=
    match sortBy with
    | .startedAt => none
    | .durationMs => some (min (row.durationMs : Int) i64Max)
    | .sizeBytes => some (min (row.sizeBytes : Int) i64Max)
    | .statusCode => some row.statusCode

def encodeCursor (row : SessionSummaryRow) (sortBy : SessionSortField) (sortOrder : SortOrder) :
    Text :=
  Base64Url.encode (cursorOf row sortBy sortOrder).toVec

def isBlank (t : Text) : Bool := (trim t).isEmpty

def decodeCursor (cursor : Text) : Except DbError CursorPayload :=
  if 1024 < (encode cursor).length then .error invalidCursor
  else
    match (Base64Url.decode cursor).bind CursorPayload.fromSlice with
    | none => .error invalidCursor
    | some payload =>
      if payload.version ≠ sessionSearchSchemaVersion ∨ isBlank payload.startedAt = true ∨
          isBlank payload.id = true ∨ 256 < (encode payload.id).length ∨
          payload.sortBy ∉ ["startedAt".toList, "durationMs".toList, "sizeBytes".toList,
            "statusCode"] ∨
          payload.sortOrder ∉ ["asc".toList, "desc".toList] ∨
          (payload.sortBy = "startedAt" ∧ payload.sortValue.isSome = true) ∨
          (payload.sortBy ≠ "startedAt" ∧ payload.sortValue.isNone = true) then
        .error invalidCursor
      else .ok payload

end AiProxy.Db
