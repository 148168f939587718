import AiProxy.Http.Calls

/-!
# Reading an upstream body

The two readers of `upstream.rs`: `read_response_body_with_limit` over the chunks of a reqwest response
and `read_hyper_response_body_with_limit` over the frames of a hyper response. The end of the list is the
end of the body. The spool file is its content; writing to it succeeds.
-/

namespace AiProxy.Upstream

open Http (maxCapturedBodyBytes)

inductive BodyRead (α : Type) where
  | some (item : α)
  | failed (error : String)
  | idle

structure CapturedBody where
  responseBody : List UInt8 := []
  responseBodySizeBytes : Nat := 0
  bodyTruncated : Bool := false
  spooled : Option (List UInt8) := none

namespace CapturedBody

/-- What is written to the spool file for a chunk, and whether the body is truncated from here on. -/
def spool (preserveFullBody : Bool) (chunk : List UInt8) (s : CapturedBody) : CapturedBody :=
  if preserveFullBody then
    if s.bodyTruncated then { s with spooled := s.spooled.map (· ++ chunk) }
    else if s.responseBodySizeBytes + chunk.length > maxCapturedBodyBytes then
      -- the new file is seeded with what has been captured
      { s with spooled := some (s.responseBody ++ chunk), bodyTruncated := true }
    else s
  else if !s.bodyTruncated && s.responseBodySizeBytes + chunk.length > maxCapturedBodyBytes then
    { s with bodyTruncated := true }
  else s

/-- The chunk is counted, and captured as far as there is room. -/
def keep (chunk : List UInt8) (s : CapturedBody) : CapturedBody :=
  { s with
    responseBodySizeBytes := s.responseBodySizeBytes + chunk.length
    responseBody :=
      if s.responseBody.length < maxCapturedBodyBytes then
        s.responseBody ++ chunk.take (min (maxCapturedBodyBytes - s.responseBody.length) chunk.length)
      else s.responseBody }

/-- The body of both loops, for a chunk of data. -/
def take (preserveFullBody : Bool) (chunk : List UInt8) (s : CapturedBody) : CapturedBody :=
  (s.spool preserveFullBody chunk).keep chunk

def ofBody (preserveFullBody : Bool) (body : List UInt8) : CapturedBody where
  responseBody := body.take maxCapturedBodyBytes
  responseBodySizeBytes := body.length
  bodyTruncated := body.length > maxCapturedBodyBytes
  spooled := if preserveFullBody && body.length > maxCapturedBodyBytes then some body else none

end CapturedBody

def idleTimedOut (idleSecs : Nat) : String :=
  "response body idle timed out after " ++ toString idleSecs ++ "s"

def readChunks (idleSecs : Nat) (preserveFullBody : Bool) (s : CapturedBody) :
    List (BodyRead (List UInt8)) → Except String CapturedBody
  | [] => .ok s
  | .idle :: _ => .error (idleTimedOut idleSecs)
  | .failed error :: _ => .error ("read response chunk: " ++ error)
  | .some chunk :: reads =>
    readChunks idleSecs preserveFullBody (s.take preserveFullBody chunk) reads

def readResponseBodyWithLimit (idleSecs : Nat) (preserveFullBody : Bool)
    (reads : List (BodyRead (List UInt8))) : Except String CapturedBody :=
  readChunks idleSecs preserveFullBody {} reads

inductive Frame where
  | data (chunk : List UInt8)
  | trailers (names : List String)

def Frame.data? : Frame → Option (List UInt8)
  | .data chunk => some chunk
  | .trailers _ => none

def readFrames (idleSecs : Nat) (preserveFullBody : Bool) (s : CapturedBody) :
    List (BodyRead Frame) → Except String CapturedBody
  | [] => .ok s
  | .idle :: _ => .error (idleTimedOut idleSecs)
  | .failed error :: _ => .error ("read hyper response frame: " ++ error)
  | .some (.data chunk) :: reads =>
    readFrames idleSecs preserveFullBody (s.take preserveFullBody chunk) reads
  -- trailers are logged and not forwarded
  | .some (.trailers _) :: reads => readFrames idleSecs preserveFullBody s reads

def readHyperResponseBodyWithLimit (idleSecs : Nat) (preserveFullBody : Bool)
    (reads : List (BodyRead Frame)) : Except String CapturedBody :=
  readFrames idleSecs preserveFullBody {} reads

end AiProxy.Upstream
