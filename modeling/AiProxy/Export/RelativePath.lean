import AiProxy.Mcp.Body
import AiProxy.Mcp.UrlRedaction
import Mathlib.Data.List.DropRight

/-!
# Where exported responses are saved

`derive_response_relative_path` of `files.rs`, the path below the export directory for the body of a
response. A path is the list of its components: none is absolute, so `PathBuf::push` appends.
-/

namespace AiProxy.Export

open Mcp (byteLen contains endsWith isControl percentDecode takeBytes toAsciiLowercase trim)
open Utf8 (encode)

def maxExportPathDepth : Nat := 24
def maxExportSegmentLen : Nat := 100

def mimeExtensions : List (String × String) :=
  [("application/json", "json"), ("text/json", "json"), ("text/html", "html"), ("text/css", "css"),
    ("text/plain", "txt"), ("text/csv", "csv"), ("text/markdown", "md"), ("image/svg+xml", "svg"),
    ("image/jpeg", "jpg"), ("image/x-icon", "ico"), ("image/vnd.microsoft.icon", "ico"),
    ("application/pdf", "pdf"), ("application/zip", "zip"), ("application/wasm", "wasm"),
    ("font/woff2", "woff2"), ("font/woff", "woff"), ("font/ttf", "ttf"),
    ("application/x-font-ttf", "ttf")]

def imageExtensions : List String := ["png", "gif", "webp", "avif", "bmp", "tiff"]

def guessResponseExtension (mimeType : Text) : String :=
  let mime := toAsciiLowercase (trim (mimeType.takeWhile (· ≠ ';')))
  match mimeExtensions.find? fun entry => entry.1.toList = mime with
  | some entry => entry.2
  | none =>
    if endsWith mime "+json" || contains mime "json" then "json"
    else if contains mime "javascript" || contains mime "ecmascript" then "js"
    else if endsWith mime "+xml" || contains mime "xml" then "xml"
    else if contains mime "html" then "html"
    else if "image/" <+: mime then
      (imageExtensions.find? fun subtype => subtype.toList = mime.drop 6).getD "bin"
    else if "text/" <+: mime then "txt"
    else "bin"

def windowsReservedStems : List String :=
  ["con", "prn", "aux", "nul", "com1", "com2", "com3", "com4", "com5", "com6", "com7", "com8",
    "com9", "lpt1", "lpt2", "lpt3", "lpt4", "lpt5", "lpt6", "lpt7", "lpt8", "lpt9"]

/-- The separators and the other characters that Windows reserves. -/
def reservedChars : Text := "/\\:*?\"<>|"

def isDeceptiveFormatChar (c : Char) : Bool :=
  [0xad, 0x200e, 0x200f, 0xfeff].contains c.toNat || (0x202a ≤ c.toNat && c.toNat ≤ 0x202e) ||
    (0x2066 ≤ c.toNat && c.toNat ≤ 0x2069)

def isIllegal (c : Char) : Bool :=
  reservedChars.contains c || isControl c || isDeceptiveFormatChar c

def percentDecodeSegment (segment : Text) : Text :=
  match String.fromUTF8? ⟨(percentDecode (encode segment)).toArray⟩ with
  | some decoded => decoded.toList
  | none => segment

/-- What follows the last dot. -/
def afterLastDot (name : Text) : Text := name.rtakeWhile (· ≠ '.')

/-- The extension that is kept when a segment is cut. -/
def keptExtension (segment : Text) : Text :=
  if '.' ∈ segment ∧ byteLen (afterLastDot segment) ≤ 16 then afterLastDot segment else []

def truncateSegment (segment : Text) : Text :=
  if byteLen segment ≤ maxExportSegmentLen then segment
  else
    let extension := keptExtension segment
    let head := takeBytes (maxExportSegmentLen - (byteLen extension + 1)) segment
    if extension = [] then head else head ++ '.' :: extension

/-- A segment without illegal characters, before it is cut. -/
def trimmedSegment (segment : Text) : Text :=
  (trim ((percentDecodeSegment segment).map fun c => if isIllegal c then '_' else c)).rdropWhile
    fun c => c = '.' || c = ' '

def deviceStem (name : Text) : Text := toAsciiLowercase (trim (name.takeWhile (· ≠ '.')))

def isReserved (name : Text) : Bool :=
  windowsReservedStems.any fun stem => stem.toList = deviceStem name

def sanitizePathSegment (segment : Text) : Text :=
  let trimmed := trimmedSegment segment
  if trimmed = [] ∨ trimmed = ['.'] ∨ trimmed = ['.', '.'] then ['_']
  else
    let truncated := truncateSegment trimmed
    if isReserved truncated then '_' :: truncated else truncated

def ensureFileExtension (fileName : Text) (mimeType : Option Text) : Text :=
  let extension := afterLastDot fileName
  if '.' ∈ fileName ∧ (fileName.rdropWhile (· ≠ '.')).dropLast ≠ [] ∧ extension ≠ [] ∧
      byteLen extension ≤ 16 ∧ extension.all (·.isAlphanum) then fileName
  else fileName ++ '.' :: (guessResponseExtension (mimeType.getD [])).toList

def allSegments (path : Text) : List Text := (path.splitOn '/').filter (· ≠ [])

def fileStem (path : Text) : Text :=
  if path.getLast? = some '/' then "index"
  else (((allSegments path).getLast?).map sanitizePathSegment).getD "index"

def directorySegments (path : Text) : List Text :=
  if path.getLast? = some '/' then allSegments path else (allSegments path).dropLast

/-- `parsedPath` is the path of the parsed URL, if it can be parsed. -/
def deriveResponseRelativePath (parsedPath : String → Option Text) (url : String)
    (mimeType : Option Text) : Option (List Text) :=
  (parsedPath url).map fun path =>
    ((directorySegments path).take (maxExportPathDepth - 1)).map sanitizePathSegment ++
      [ensureFileExtension (fileStem path) mimeType]

def IsLegal (c : Char) : Prop := c ∉ reservedChars ∧ isControl c = false
  deriving Decidable

/-- A name with which nothing is wrong but perhaps its end. -/
structure Safe (name : Text) : Prop where
  nonempty : name ≠ []
  legal : ∀ c ∈ name, IsLegal c
  device : isReserved name = false

def EndsPlain (name : Text) : Prop := ∀ c ∈ name.getLast?, c ≠ '.' ∧ c ≠ ' '

/-- A name that can be created on every platform. -/
structure Portable (name : Text) : Prop extends Safe name where
  noDots : name ≠ ['.'] ∧ name ≠ ['.', '.']
  ends : EndsPlain name

/-- A trimmed segment without an extension that is cut after a dot or a space. -/
def CutAtDot (trimmed : Text) : Prop :=
  maxExportSegmentLen < byteLen trimmed ∧ keptExtension trimmed = [] ∧
    ¬ EndsPlain (takeBytes 99 trimmed)

end AiProxy.Export
