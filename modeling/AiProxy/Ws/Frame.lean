import AiProxy.Error
import AiProxy.Lib.Incremental
import Mathlib.Algebra.Group.Nat.Defs

/-!
# WebSocket frames

The frame type, the frame parser `tryParseWsFrame` and the classification of its errors. The
parser looks at the front of a buffer that the caller owns and answers a frame with its length,
"incomplete", or a protocol violation.
-/

namespace AiProxy.Ws

def maxWsFrameSize : Nat := 16 * 1024 * 1024

/-- Marker of the errors the frame parser raises for violations of RFC 6455. -/
def wsProtocolErrorMarker : String := "ws protocol error:"

/-- A tagged protocol error, which the relay answers with Close(1002). -/
def wsProtocolError (msg : String) : ProxyError := .other (wsProtocolErrorMarker ++ " " ++ msg)

/-- The error is a violation of RFC 6455 found by the frame parser; timeouts and end of stream are
not. -/
def isWsProtocolError : ProxyError → Bool
  | .other msg => wsProtocolErrorMarker.toList.isPrefixOf msg.toList
  | _ => false

inductive WsOpcode where
  | continuation
  | text
  | binary
  | close
  | ping
  | pong
  deriving DecidableEq

namespace WsOpcode

/-- The opcode of a nibble. Reserved opcodes fall back to `binary`; the parser rejects them
first. -/
def fromU8 (v : UInt8) : WsOpcode :=
  if v = 0 then .continuation
  else if v = 1 then .text
  else if v = 2 then .binary
  else if v = 8 then .close
  else if v = 9 then .ping
  else if v = 10 then .pong
  else .binary

def toU8 : WsOpcode → UInt8
  | continuation => 0
  | text => 1
  | binary => 2
  | close => 8
  | ping => 9
  | pong => 10

def label : WsOpcode → String
  | continuation => "continuation"
  | text => "text"
  | binary => "binary"
  | close => "close"
  | ping => "ping"
  | pong => "pong"

def isControl : WsOpcode → Bool
  | close | ping | pong => true
  | continuation | text | binary => false

end WsOpcode

/-- A frame. A parsed frame is unmasked, so its `mask` is `false`. -/
structure WsFrame where
  fin : Bool
  opcode : WsOpcode
  mask : Bool
  payload : List UInt8
  deriving DecidableEq

def fromBeBytes (bytes : List UInt8) : Nat := bytes.foldl (fun acc b => acc * 256 + b.toNat) 0

def applyMask (key payload : List UInt8) : List UInt8 :=
  payload.mapIdx fun i byte => byte ^^^ key.getD (i % 4) 0

/-- Two hexadecimal digits (`{:02x}`). -/
def hexByte (b : UInt8) : String :=
  let digits := Nat.toDigits 16 b.toNat
  String.ofList (List.replicate (2 - digits.length) '0' ++ digits)

/-- The checks on the first two bytes of a frame: reserved bits, reserved opcodes, and fragmented
or oversized control frames. -/
def checkHead (head0 head1 : UInt8) : Except ProxyError Unit :=
  let rsvBits := head0 &&& 0x70
  let opcodeRaw := head0 &&& 0x0F
  let opcode := WsOpcode.fromU8 opcodeRaw
  let payloadLen := (head1 &&& 0x7F).toNat
  if rsvBits ≠ 0 then
    .error (wsProtocolError
      ("RSV bit(s) set (0x" ++ hexByte rsvBits ++ ") without negotiated extension"))
  else if (3 ≤ opcodeRaw ∧ opcodeRaw ≤ 7) ∨ (11 ≤ opcodeRaw ∧ opcodeRaw ≤ 15) then
    .error (wsProtocolError ("frame uses reserved opcode " ++ toString opcodeRaw.toNat))
  else if opcode.isControl ∧ head0 &&& 0x80 = 0 then
    .error (wsProtocolError "control frame must not be fragmented (FIN=1 required)")
  else if opcode.isControl ∧ 125 < payloadLen then
    .error (wsProtocolError
      ("control frame payload length " ++ toString payloadLen ++ " exceeds 125-byte limit"))
  else .ok ()

/-- The payload length and the offset after it: the seven bits of the second byte, or the two or
eight bytes that follow. `none` when these have not arrived. -/
def payloadLength (buf : List UInt8) (head1 : UInt8) : Option (Nat × Nat) :=
  let payloadLen := (head1 &&& 0x7F).toNat
  if payloadLen = 126 then
    if buf.length < 4 then none else some (fromBeBytes ((buf.drop 2).take 2), 4)
  else if payloadLen = 127 then
    if buf.length < 10 then none else some (fromBeBytes ((buf.drop 2).take 8), 10)
  else some (payloadLen, 2)

/-- The masking key and the offset after it; four zero bytes for an unmasked frame. -/
def maskKey (buf : List UInt8) (head1 : UInt8) (offset : Nat) : Option (List UInt8 × Nat) :=
  if head1 &&& 0x80 = 0 then some ([0, 0, 0, 0], offset)
  else if buf.length < offset + 4 then none
  else some ((buf.drop offset).take 4, offset + 4)

/-- Try to parse one complete frame from the front of `buf`: `none` when more bytes are needed,
the unmasked frame and its length, or a protocol violation. -/
def tryParseWsFrame : Incremental.Parser UInt8 WsFrame ProxyError
  | head0 :: head1 :: rest =>
    let buf := head0 :: head1 :: rest
    match checkHead head0 head1 with
    | .error e => .error e
    | .ok () =>
      match payloadLength buf head1 with
      | none => .ok none
      | some (payloadLen, offset) =>
        if maxWsFrameSize < payloadLen then
          .error (wsProtocolError ("payload length " ++ toString payloadLen ++ " exceeds limit " ++
            toString maxWsFrameSize))
        else
          match maskKey buf head1 offset with
          | none => .ok none
          | some (key, offset) =>
            if buf.length < offset + payloadLen then .ok none
            else
              let raw := (buf.drop offset).take payloadLen
              .ok (some
                ({ fin := decide (head0 &&& 0x80 ≠ 0)
                   opcode := .fromU8 (head0 &&& 0x0F)
                   mask := false
                   payload := if head1 &&& 0x80 = 0 then raw else applyMask key raw },
                 offset + payloadLen))
  | _ => .ok none

/-- The frames of a whole byte stream, in order, and how the stream ends. -/
def streamFrames (stream : List UInt8) : List WsFrame × Incremental.End ProxyError :=
  Incremental.items tryParseWsFrame stream

/-! ## Writing frames

The key is random; here it is an argument. A write that fails ends the relay, so only the bytes of a
whole frame are modelled. -/

def wsMaskChunkBytes : Nat := 16 * 1024

def toBeBytes : Nat → Nat → List UInt8
  | 0, _ => []
  | width + 1, n => UInt8.ofNat (n / 256 ^ width) :: toBeBytes width n

def wsFrameHead (frame : WsFrame) (maskOutput : Bool) : List UInt8 :=
  let head0 := (if frame.fin then 0x80 else 0) ||| frame.opcode.toU8
  let maskBit : UInt8 := if maskOutput then 0x80 else 0
  let payloadLen := frame.payload.length
  if payloadLen < 126 then [head0, maskBit ||| UInt8.ofNat payloadLen]
  else if payloadLen ≤ 65535 then [head0, maskBit ||| 126] ++ toBeBytes 2 payloadLen
  else [head0, maskBit ||| 127] ++ toBeBytes 8 payloadLen

/-- The loop over the chunks of a payload from an offset on. The key goes on where the chunk before
stopped. Each round takes at least one byte, so the length of the payload is fuel enough. -/
def maskChunks (key payload : List UInt8) (chunkLen : Nat) : Nat → Nat → List UInt8
  | 0, _ => []
  | fuel + 1, offset =>
    if offset < payload.length then
      let stop := min (offset + chunkLen) payload.length
      let chunk := (payload.drop offset).take (stop - offset)
      (chunk.mapIdx fun i byte => byte ^^^ key.getD ((offset + i) % 4) 0) ++
        maskChunks key payload chunkLen fuel stop
    else []

/-- `[u8; 4]` -/
abbrev MaskKey := Vector UInt8 4

def writeWsFrame (frame : WsFrame) (maskOutput : Bool) (maskKey : MaskKey) : List UInt8 :=
  let head := wsFrameHead frame maskOutput
  if maskOutput then
    let chunkLen := min wsMaskChunkBytes (max frame.payload.length 1)
    head ++ maskKey.toList ++
      maskChunks maskKey.toList frame.payload chunkLen frame.payload.length 0
  else head ++ frame.payload

/-- The frames of RFC 6455, up to the size limit of the parser. -/
structure WsFrame.Allowed (frame : WsFrame) : Prop where
  control : frame.opcode.isControl = true → frame.fin = true ∧ frame.payload.length ≤ 125
  size : frame.payload.length ≤ maxWsFrameSize

end AiProxy.Ws
