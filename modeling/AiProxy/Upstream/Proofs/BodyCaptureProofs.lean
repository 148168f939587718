import AiProxy.Upstream.BodyCapture

/-!
# A body is captured up to the limit

One chunk takes what is captured of a body to what is captured of the body with the chunk.
-/

namespace AiProxy.Upstream

open List
open Http (maxCapturedBodyBytes)

namespace CapturedBody

variable {preserve : Bool} {body chunk : List UInt8}

theorem ofBody_nil : ofBody preserve [] = {} := by
  cases preserve <;> rfl

theorem keep_captured (s : CapturedBody) (hsize : s.responseBodySizeBytes = body.length)
    (hbody : s.responseBody = body.take maxCapturedBodyBytes) :
    s.keep chunk = { s with responseBodySizeBytes := (body ++ chunk).length,
                            responseBody := (body ++ chunk).take maxCapturedBodyBytes } := by
  have htake : (body ++ chunk).take maxCapturedBodyBytes =
      body.take maxCapturedBodyBytes ++ chunk.take (maxCapturedBodyBytes - body.length) :=
    take_append
  rw [keep, hsize, hbody, length_append, htake, length_take]
  congr 1
  split
  · next hroom =>
    rw [show maxCapturedBodyBytes - min maxCapturedBodyBytes body.length =
        maxCapturedBodyBytes - body.length by omega, ← take_take, take_length]
  · next hfull =>
    rw [show maxCapturedBodyBytes - body.length = 0 by omega, take_zero, append_nil]

theorem spool_ofBody : (ofBody preserve body).spool preserve chunk =
    { ofBody preserve (body ++ chunk) with
      responseBodySizeBytes := body.length
      responseBody := body.take maxCapturedBodyBytes } := by
  by_cases hover : body.length > maxCapturedBodyBytes
  · have hcross : body.length + chunk.length > maxCapturedBodyBytes := by omega
    cases preserve <;> simp [spool, ofBody, hover, hcross]
  · have hwhole : body.take maxCapturedBodyBytes = body := take_of_length_le (by omega)
    by_cases hcross : body.length + chunk.length > maxCapturedBodyBytes
    · cases preserve <;> simp [spool, ofBody, hover, hwhole, hcross]
    · cases preserve <;> simp [spool, ofBody, hover, hcross]

theorem take_ofBody : (ofBody preserve body).take preserve chunk = ofBody preserve (body ++ chunk) := by
  rw [take, spool_ofBody, @keep_captured body chunk _ rfl rfl]
  rfl

end CapturedBody

open CapturedBody

theorem readChunks_ofBody (idleSecs : Nat) (preserve : Bool) (body : List UInt8)
    (chunks : List (List UInt8)) :
    readChunks idleSecs preserve (ofBody preserve body) (chunks.map .some) =
      .ok (ofBody preserve (body ++ chunks.flatten)) := by
  induction chunks generalizing body with
  | nil => rw [map_nil, readChunks, flatten_nil, append_nil]
  | cons chunk chunks ih =>
    rw [map_cons, readChunks, take_ofBody, ih, flatten_cons, append_assoc]

theorem readFrames_eq_readChunks (idleSecs : Nat) (preserve : Bool) (s : CapturedBody)
    (frames : List Frame) :
    readFrames idleSecs preserve s (frames.map .some) =
      readChunks idleSecs preserve s ((frames.filterMap Frame.data?).map .some) := by
  induction frames generalizing s with
  | nil => rfl
  | cons frame frames ih =>
    cases frame with
    | data chunk => exact ih _
    | trailers names => exact ih s

theorem readChunks_captured (idleSecs : Nat) (preserve : Bool) (chunks : List (List UInt8)) :
    readChunks idleSecs preserve {} (chunks.map .some) = .ok (ofBody preserve chunks.flatten) := by
  have h := readChunks_ofBody idleSecs preserve [] chunks
  rw [ofBody_nil] at h
  exact h

/-- Both readers capture the body of their chunks of data: its first bytes up to the limit, its size,
whether it is larger, and the whole of it in a file if it is and that is asked for. So they agree where
the data does. -/
theorem bodies_captured (idleSecs : Nat) (preserve : Bool) :
    (∀ chunks : List (List UInt8), readResponseBodyWithLimit idleSecs preserve (chunks.map .some) =
      .ok (ofBody preserve chunks.flatten)) ∧
    (∀ frames : List Frame, readHyperResponseBodyWithLimit idleSecs preserve (frames.map .some) =
      .ok (ofBody preserve (frames.filterMap Frame.data?).flatten)) ∧
    (∀ frames : List Frame, readHyperResponseBodyWithLimit idleSecs preserve (frames.map .some) =
      readResponseBodyWithLimit idleSecs preserve ((frames.filterMap Frame.data?).map .some)) := by
  refine ⟨readChunks_captured idleSecs preserve, ?_, readFrames_eq_readChunks idleSecs preserve {}⟩
  intro frames
  rw [readHyperResponseBodyWithLimit, readFrames_eq_readChunks, readChunks_captured]

end AiProxy.Upstream
