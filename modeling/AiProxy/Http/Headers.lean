import AiProxy.Lib.Utf8
import Mathlib.Data.List.Nodup

/-!
# Header lists and header maps

The recorded list of entries, as the Inspector shows it, and the `HeaderMap` of the `http` crate that
goes to the network. A `HeaderMap` keeps one bucket per name, in the order in which the names were
first added, and iterates bucket by bucket; names are lower case.
-/

namespace AiProxy.Http

def asBytes (s : String) : List UInt8 := s.toUTF8.data.toList

/-- `str::to_ascii_lowercase`, as characters. -/
def toAsciiLowercase (s : String) : List Char := s.toList.map Char.toLower

def eqIgnoreAsciiCase (a b : String) : Bool := decide (toAsciiLowercase a = toAsciiLowercase b)

/-- `<[u8]>::eq_ignore_ascii_case`. -/
def eqIgnoreAsciiCaseBytes (a b : List UInt8) : Bool :=
  decide (a.map Utf8.lower = b.map Utf8.lower)

structure ProxyHeaderEntry where
  name : String
  value : String
  isPseudo : Option Bool
  deriving DecidableEq

/-- The characters of an RFC 7230 token. -/
def isTokenChar (c : Char) : Bool :=
  c.isAlphanum || "!#$%&'*+-.^_`|~".toList.contains c

abbrev HeaderName := List Char

abbrev HeaderValue := List UInt8

/-- `HeaderName::from_bytes` of the `http` crate: a token of at most 65535 bytes, in lower case. -/
def headerNameFromBytes (name : String) : Except String HeaderName :=
  let cs := name.toList
  if cs ≠ [] ∧ cs.all isTokenChar ∧ cs.length ≤ 65535 then .ok (toAsciiLowercase name)
  else .error "invalid HTTP header name"

/-- The bytes of a `HeaderValue`: no control character but the tab. -/
def isValueByte (b : UInt8) : Bool := (32 ≤ b && b != 127) || b == 9

/-- `HeaderValue::from_str` of the `http` crate. Text outside ASCII is kept as its UTF-8 bytes. -/
def headerValueFromStr (value : String) : Except String HeaderValue :=
  if (asBytes value).all isValueByte then .ok (asBytes value)
  else .error "failed to parse header value"

def isVisibleAscii (b : UInt8) : Bool := (32 ≤ b && b < 127) || b == 9

/-- `HeaderValue::to_str`. -/
def headerValueToStr (value : HeaderValue) : Option String :=
  if value.all isVisibleAscii then String.fromUTF8? ⟨value.toArray⟩ else none

def swapRemove {α : Type*} (l : List α) (i : Nat) : List α :=
  match l.getLast? with
  | none => []
  | some x => if i + 1 = l.length then l.dropLast else (l.set i x).dropLast

abbrev HeaderMap := List (HeaderName × List HeaderValue)

namespace HeaderMap

def new : HeaderMap := []

def append (m : HeaderMap) (name : HeaderName) (value : HeaderValue) : HeaderMap :=
  match m with
  | [] => [(name, [value])]
  | (n, vs) :: rest =>
    if n = name then (n, vs ++ [value]) :: rest else (n, vs) :: append rest name value

def appendAll (m : HeaderMap) (headers : List (HeaderName × HeaderValue)) : HeaderMap :=
  headers.foldl (fun m h => m.append h.1 h.2) m

/-- Remove all values of a name. The last bucket takes the place of the removed one. -/
def remove (m : HeaderMap) (name : HeaderName) : HeaderMap :=
  match m.findIdx? fun b => b.1 = name with
  | none => m
  | some i => swapRemove m i

def getAll (m : HeaderMap) (name : HeaderName) : List HeaderValue :=
  match m.find? fun b => b.1 = name with
  | none => []
  | some b => b.2

def get (m : HeaderMap) (name : HeaderName) : Option HeaderValue := (m.getAll name).head?

def names (m : HeaderMap) : List HeaderName := m.map Prod.fst

/-- A name has one bucket, and no bucket is empty. -/
structure WF (m : HeaderMap) : Prop where
  nodup : m.names.Nodup
  values : ∀ b ∈ m, b.2 ≠ []

def iter (m : HeaderMap) : List (HeaderName × HeaderValue) :=
  m.flatMap fun b => b.2.map fun v => (b.1, v)

end HeaderMap

/-- `String::from_utf8_lossy` where the bytes are UTF-8; `lossy` stands for the replacement of
invalid sequences. -/
def lossyText (lossy : List UInt8 → String) (bytes : List UInt8) : String :=
  (String.fromUTF8? ⟨bytes.toArray⟩).getD (lossy bytes)

def buildHeaderEntriesFromMap (lossy : List UInt8 → String) (headers : HeaderMap) :
    List ProxyHeaderEntry :=
  headers.iter.map fun h => ⟨String.ofList h.1, lossyText lossy h.2, none⟩

/-- The start line and the headers, as they would stand on the wire. -/
def buildRawHttpHead (startLine : String) (headers : List ProxyHeaderEntry) : String :=
  startLine ++ "\r\n" ++
    String.join (headers.map fun h => h.name ++ ": " ++ h.value ++ "\r\n") ++ "\r\n"

end AiProxy.Http
