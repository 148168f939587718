import AiProxy.Mcp.TextSearch

/-!
# Pages of a body, and the texts of paths

`slice_text_page` of `body.rs`. A page starts at an offset of the text and ends at the last character
boundary within the size that was asked for, or after one character if there is none. The parser of
JSON paths takes the rest of the text where the code has a position in it.
-/

namespace AiProxy.Mcp

open Utf8 (encode)

variable {N : Type}

structure TextPage where
  text : Text
  offset : Nat
  returnedBytes : Nat
  nextOffset : Option Nat
  hasMore : Bool

/-- `while end > offset && !text.is_char_boundary(end) { end -= 1; }` -/
def lowerEnd (text : Text) (offset : Nat) : Nat → Nat
  | 0 => 0
  | stop + 1 =>
    if offset < stop + 1 && !isCharBoundary text (stop + 1) then lowerEnd text offset stop
    else stop + 1

/-- Where the second character after an offset starts. -/
def secondCharFrom (text : Text) (offset : Nat) : Nat :=
  match dropBytes offset text with
  | c :: _ :: _ => offset + byteLen [c]
  | _ => byteLen text

def pageEnd (text : Text) (offset maxBytes : Nat) : Nat :=
  let lowered := lowerEnd text offset (min (saturatingAdd offset maxBytes) (byteLen text))
  if lowered = offset ∧ offset < byteLen text ∧ 0 < maxBytes then secondCharFrom text offset
  else lowered

def sliceTextPage (text : Text) (offset maxBytes : Nat) : Except (ToolError N) TextPage :=
  if byteLen text < offset then
    .error ⟨"INVALID_ARGUMENT", "Body offset exceeds the decoded view size.", none⟩
  else if !isCharBoundary text offset then
    .error ⟨"INVALID_ARGUMENT", "Body offset must fall on a UTF-8 character boundary.", none⟩
  else
    let stop := pageEnd text offset maxBytes
    let hasMore := decide (stop < byteLen text)
    .ok ⟨sliceBytes text offset stop, offset, stop - offset, if hasMore then some stop else none,
      hasMore⟩

/-- The pages read by following `next_offset`, one for each size, and where the next one starts if
the text is not yet read to its end. -/
def followPages (text : Text) : List Nat → Nat → Except (ToolError N) (List TextPage × Option Nat)
  | [], offset => .ok ([], some offset)
  | size :: sizes, offset => do
    let page ← sliceTextPage text offset size
    match page.nextOffset with
    | none => .ok ([page], none)
    | some next => do
      let (pages, unread) ← followPages text sizes next
      .ok (page :: pages, unread)

/-! ## JSON paths -/

/-- A quoted property from its opening quote on; the flag is set after a backslash. -/
def parseQuoted (quote : Char) : Bool → Text → Text → Except String (JsonPathSegment × Text)
  | _, _, [] => .error "JSON path contains an unterminated quoted property."
  | true, output, c :: rest => parseQuoted quote false (output ++ [c]) rest
  | false, output, c :: rest =>
    if c = '\\' then parseQuoted quote true output rest
    else if c = quote then
      match rest with
      | ']' :: rest => .ok (.key (encode output), rest)
      | _ => .error "Quoted JSON path property must be followed by ]."
    else parseQuoted quote false (output ++ [c]) rest

def parseIndex (path : Text) : Except String (JsonPathSegment × Text) :=
  let item := path.takeWhile (· ≠ ']')
  match path.dropWhile (· ≠ ']') with
  | [] => .error "JSON path is missing a closing ]."
  | _ :: rest =>
    if item = [] ∨ ¬ item.all Char.isDigit then
      .error "Bracket JSON path segment must be an array index or *."
    else
      let index := Nat.ofDigitChars 10 item 0
      if index < 2 ^ 64 then .ok (.index index, rest) else .error "JSON path array index is too large."

def parseBracketSegment : Text → Except String (JsonPathSegment × Text)
  | [] => .error "JSON path is missing a closing ]."
  | c :: rest =>
    if c = '*' then
      match rest with
      | ']' :: rest => .ok (.wildcard, rest)
      | _ => .error "Invalid wildcard JSON path segment."
    else if c = '\'' ∨ c = '"' then parseQuoted c false [] rest
    else parseIndex (c :: rest)

def isControl (c : Char) : Bool := c.toNat < 0x20 || 0x7f ≤ c.toNat && c.toNat ≤ 0x9f

def parseSegment : Text → Except String (JsonPathSegment × Text)
  | '.' :: rest =>
    let key := rest.takeWhile fun c => c ≠ '.' && c ≠ '['
    if key = [] then .error "JSON path contains an empty property segment."
    else if key.any isControl then .error "JSON path property contains a control character."
    else .ok (.key (encode key), rest.drop key.length)
  | '[' :: rest => parseBracketSegment rest
  | _ => .error "JSON path must use dot or bracket notation, for example $.key or $['key']."

/-- A segment takes at least one character, so the length of the text bounds the steps. -/
def parseSegments : Nat → Text → Except String (List JsonPathSegment)
  | 0, _ => .ok []
  | n + 1, path =>
    if path = [] then .ok []
    else do
      let (segment, rest) ← parseSegment path
      let segments ← parseSegments n rest
      .ok (segment :: segments)

def parseJsonPath (path : Text) : Except String (List JsonPathSegment) :=
  match trim path with
  | '$' :: rest => parseSegments rest.length rest
  | _ => .error "JSON path must start with $."

end AiProxy.Mcp
