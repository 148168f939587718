import AiProxy.Http.Calls

/-!
# Captured bodies

A body is stored decoded: the codings of its `Content-Encoding` header are undone, the last one first,
and a body that cannot be decoded is stored as it was received. A decoder is a partial function on bytes;
the proxy knows gzip, deflate and Brotli and limits what a decoder may produce.
-/

namespace AiProxy.Http

/-- The decoders of the content codings. `other` stands for the codings that the proxy does not know. -/
structure Decoders where
  gzip : List UInt8 → Option (List UInt8)
  zlib : List UInt8 → Option (List UInt8)
  rawDeflate : List UInt8 → Option (List UInt8)
  brotli : List UInt8 → Option (List UInt8)
  other : List Char → List UInt8 → Option (List UInt8)

def maxDecompressedBodyBytes : Nat := 64 * 1024 * 1024

/-- An output that is too long counts as not decoded. -/
def readDecodedBounded (output : Option (List UInt8)) : Option (List UInt8) :=
  output.filter fun bytes => bytes.length ≤ maxDecompressedBodyBytes

def listedEncodings (value : String) : List (List Char) :=
  ((value.toList.splitOn ',').map fun encoding => toAsciiLowercase
    (trim (String.ofList encoding))).filter
    fun encoding => encoding ≠ [] && encoding ≠ "identity"

/-- One round of the loop of `decode_body_bytes`. A `deflate` body is read as a zlib stream and, when it
is none, as a raw one. -/
def decodeOne (decoders : Decoders) (decoded : List UInt8) (encoding : List Char) :
    Option (List UInt8) :=
  if encoding = "gzip" ∨ encoding = "x-gzip" then
    readDecodedBounded (decoders.gzip decoded)
  else if encoding = "deflate" then
    (readDecodedBounded (decoders.zlib decoded)).or (readDecodedBounded (decoders.rawDeflate decoded))
  else if encoding = "br" then readDecodedBounded (decoders.brotli decoded)
  else none

def decodeBodyBytes (decoders : Decoders) (body : List UInt8) (contentEncoding : Option String) :
    Option (List UInt8) := do
  let encodings := listedEncodings (← contentEncoding)
  if encodings = [] then none else encodings.reverse.foldlM (decodeOne decoders) body

structure ProxyBodyReference where
  bytes : List UInt8
  truncated : Bool

def contentEncodingOf (header : Option HeaderValue) : Option String :=
  ((header.bind headerValueToStr).map fun value =>
    String.ofList (toAsciiLowercase (trim value))).filter fun value => value ≠ ""

def buildBodyReference (decoders : Decoders) (body : List UInt8)
    (contentEncodingHeader : Option HeaderValue) (truncated : Bool) : Option ProxyBodyReference :=
  if body = [] then none
  else
    some ⟨(decodeBodyBytes decoders body (contentEncodingOf contentEncodingHeader)).getD body,
      truncated⟩

end AiProxy.Http
