import AiProxy.Http.Calls
import AiProxy.Lib.JsonEdit

/-!
# JSON field paths

Paths such as `data.items[0].id`, and reading, setting and removing the field at a path of a parsed
body. Keys are UTF-8 bytes. Setting and removing stop at the first error; every caller then gives the
value up. What the value is after an error is the subject of `setJsonPathInPlace`.
-/

namespace AiProxy.Rules

open Http (asBytes trim swapRemove)
open Json (Bytes Value getMember insertMember)

/-- `Index(usize)` and `Key(String)`. -/
abbrev JsonPathSegment := Json.Step

def parseUsize (raw : List Char) : Option Nat :=
  let digits := match raw with
    | '+' :: rest => rest
    | _ => raw
  if digits ≠ [] ∧ digits.all Char.isDigit then
    let n := digits.foldl (fun n c => n * 10 + (c.toNat - '0'.toNat)) 0
    if n < 2 ^ 64 then some n else none
  else none

def pushKey (segments : List JsonPathSegment) (key : List Char) : List JsonPathSegment :=
  if key = [] then segments else segments ++ [.key (asBytes (String.ofList key))]

/-- The loop of `parse_json_field_path`. `bracket` is the text since an open bracket. -/
def scanPath (path : String) :
    List Char → List JsonPathSegment → List Char → Option (List Char) →
      Except String (List JsonPathSegment)
  | [], _, _, some _ =>
    .error ("body field path '" ++ path ++ "' contains an invalid array index")
  | [], segments, key, none =>
    let segments := pushKey segments key
    if segments = [] then .error "body field path is empty" else .ok segments
  | c :: rest, segments, key, some raw =>
    if c = ']' then
      if raw = [] then
        .error ("body field path '" ++ path ++ "' contains an invalid array index")
      else
        match parseUsize raw with
        | none => .error ("body field path '" ++ path ++ "' contains a non-numeric array index")
        | some i => scanPath path rest (segments ++ [.index i]) key none
    else scanPath path rest segments key (some (raw ++ [c]))
  | c :: rest, segments, key, none =>
    if c = '.' then
      if key = [] then
        if segments = [] ∨ rest = [] ∨ rest.head? = some '.' then
          .error ("body field path '" ++ path ++ "' contains an empty segment")
        else scanPath path rest segments [] none
      else scanPath path rest (pushKey segments key) [] none
    else if c = '[' then scanPath path rest (pushKey segments key) [] (some [])
    else if c = ']' then .error ("body field path '" ++ path ++ "' contains an unmatched ']'")
    else scanPath path rest segments (key ++ [c]) none

def stripRoot : List Char → List Char
  | '$' :: '.' :: rest => rest
  | '$' :: rest => rest
  | normalized => normalized

def parseJsonFieldPath (path : String) : Except String (List JsonPathSegment) :=
  let normalized := (trim path).toList
  if normalized = ['$'] then .error "body field path must point to a JSON field"
  else
    let normalized := stripRoot normalized
    if normalized = [] then .error "body field path is empty"
    else scanPath path normalized [] [] none

/-! ## Fields of a value -/

variable {N : Type}

def getJsonPathValue (root : Value N) (segments : List JsonPathSegment) : Option (Value N) :=
  segments.foldlM (fun current segment =>
    match segment, current with
    | .key k, .object members => getMember k members
    | .index i, .array items => items[i]?
    | _, _ => none) root

def typeLabel : Value N → String
  | .null => "null"
  | .bool _ => "boolean"
  | .number _ => "number"
  | .string _ => "string"
  | .array _ => "array"
  | .object _ => "object"

/-- The members of an object. `null` becomes an object; other values are refused. -/
def objectAt : Value N → Except String (List (Bytes × Value N))
  | .null => .ok []
  | .object members => .ok members
  | other => .error ("body field path expects an object but found " ++ typeLabel other)

def arrayAt (i : Nat) : Value N → Except String (List (Value N))
  | .array items => .ok items
  | _ => .error ("body field path expects an array at index " ++ toString i)

def outOfRange (i : Nat) : String :=
  "body field path array index " ++ toString i ++ " is out of range"

/-- `set_json_path_value` with the value that the caller holds afterwards. A missing member on the way is
created as an object, and stays when a later segment fails; a missing item is an error; an item right
after the last one is appended. -/
def setJsonPathInPlace (root : Value N) :
    List JsonPathSegment → Value N → Value N × Except String Unit
  | [], _ => (root, .error "body field path is empty")
  | [.key k], value =>
    match objectAt root with
    | .error e => (root, .error e)
    | .ok members => (.object (insertMember k value members), .ok ())
  | [.index i], value =>
    match arrayAt i root with
    | .error e => (root, .error e)
    | .ok items =>
      if i = items.length then (.array (items ++ [value]), .ok ())
      else if i < items.length then (.array (items.set i value), .ok ())
      else (root, .error (outOfRange i))
  | .key k :: s :: p, value =>
    match objectAt root with
    | .error e => (root, .error e)
    | .ok members =>
      let (field, result) :=
        setJsonPathInPlace ((getMember k members).getD (.object [])) (s :: p) value
      (.object (insertMember k field members), result)
  | .index i :: s :: p, value =>
    match arrayAt i root with
    | .error e => (root, .error e)
    | .ok items =>
      match items[i]? with
      | none => (root, .error (outOfRange i))
      | some item =>
        let (item, result) := setJsonPathInPlace item (s :: p) value
        (.array (items.set i item), result)

/-- `set_json_path_value` for the callers that give the value up after an error. -/
def setJsonPathValue (root : Value N) (segments : List JsonPathSegment) (value : Value N) :
    Except String (Value N) :=
  (setJsonPathInPlace root segments value).2.map fun _ => (setJsonPathInPlace root segments value).1

def setJsonPathFromStr (root : Value N) (path : String) (value : Value N) :
    Except String (Value N) := do
  let segments ← parseJsonFieldPath path
  setJsonPathValue root segments value

def setJsonPathInPlaceFromStr (root : Value N) (path : String) (value : Value N) :
    Value N × Except String Unit :=
  match parseJsonFieldPath path with
  | .error e => (root, .error e)
  | .ok segments => setJsonPathInPlace root segments value

def creates : Value N → JsonPathSegment → Bool
  | .null, .key _ | .object _, .key _ => true
  | _, _ => false

def isIndex : JsonPathSegment → Bool
  | .index _ => true
  | .key _ => false

/-- The path comes to a `null` or a missing member, and has an array index after it. -/
def createsBeforeIndex (root : Value N) : List JsonPathSegment → Bool
  | s :: t :: p =>
    match root.child s with
    | some field => createsBeforeIndex field (t :: p)
    | none => creates root s && (t :: p).any isIndex
  | _ => false

/-- `Map::remove`: the last member takes the place of the removed one. -/
def removeMember (k : Bytes) (members : List (Bytes × Value N)) : List (Bytes × Value N) :=
  match members.findIdx? fun m => m.1 = k with
  | none => members
  | some i => swapRemove members i

def removeJsonPathValue (root : Value N) : List JsonPathSegment → Except String (Value N)
  | [] => .error "body field path is empty"
  | [.key k] =>
    match root with
    | .object members => .ok (.object (removeMember k members))
    | _ => .error ("body field path parent for '" ++ keyText k ++ "' is not an object")
  | [.index i] =>
    match root with
    | .array items =>
      if i < items.length then .ok (.array (items.eraseIdx i)) else .error (outOfRange i)
    | _ => .error ("body field path parent for index " ++ toString i ++ " is not an array")
  | .key k :: s :: p =>
    match root.child (.key k) with
    | none => .error ("body field path parent '" ++ keyText k ++ "' does not exist")
    | some field => do
      let field ← removeJsonPathValue field (s :: p)
      .ok (root.modifyChild (fun _ => field) (.key k))
  | .index i :: s :: p =>
    match root.child (.index i) with
    | none => .error (outOfRange i)
    | some item => do
      let item ← removeJsonPathValue item (s :: p)
      .ok (root.modifyChild (fun _ => item) (.index i))
where
  keyText (k : Bytes) : String := (String.fromUTF8? ⟨k.toArray⟩).getD ""

/-! ## Segments of a path

A path without its root is cut into segments by dots. -/

def normalizedPath (path : String) : List Char := stripRoot (trim path).toList

/-- A dot at the beginning, two adjacent dots, or a dot at the end. -/
def HasEmptySegment (t : List Char) : Prop := ['.'] <+: t ∨ ['.', '.'] <:+: t ∨ ['.'] <:+ t

instance (t : List Char) : Decidable (HasEmptySegment t) := inferInstanceAs (Decidable (_ ∨ _ ∨ _))

/-- An empty segment at a place where the parser looks for one: at the beginning, or after a dot that
itself follows a dot or an array index. -/
def SeesEmptySegment (t : List Char) : Prop :=
  ['.'] <+: t ∨ ∃ x ∈ ['.', ']'], [x, '.', '.'] <:+: t ∨ [x, '.'] <:+ t

/-- Each bracket holds an array index. The text since an open bracket is given. -/
def bracketsOk : List Char → Option (List Char) → Bool
  | [], raw? => raw?.isNone
  | c :: rest, some raw =>
    if c = ']' then (parseUsize raw).isSome && bracketsOk rest none
    else bracketsOk rest (some (raw ++ [c]))
  | c :: rest, none =>
    if c = '[' then bracketsOk rest (some []) else c ≠ ']' && bracketsOk rest none

/-- The segments between dots that are not empty. The text since the last dot is given. -/
def pieces : List Char → List Char → List (List Char)
  | key, [] => if key = [] then [] else [key]
  | key, c :: rest =>
    if c = '.' then (if key = [] then [] else [key]) ++ pieces [] rest
    else pieces (key ++ [c]) rest

def keySegment (key : List Char) : JsonPathSegment := .key (asBytes (String.ofList key))

end AiProxy.Rules
