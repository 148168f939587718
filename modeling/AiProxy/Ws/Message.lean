import AiProxy.Ws.Frame

/-!
# Captured WebSocket messages

The capture side of the relay: `assembleWsMessage` turns each frame of one direction into the
message that is handed to the session layer, reassembling fragmented messages on the way. The
random id and the wall-clock timestamp of a captured message are left out.
-/

namespace AiProxy.Ws

def maxReassembledMessageBytes : Nat := 20 * 1024 * 1024

inductive WsDirection where
  | clientToServer
  | serverToClient
  deriving DecidableEq

def WsDirection.label : WsDirection → String
  | .clientToServer => "clientToServer"
  | .serverToClient => "serverToClient"

structure WsMessageData where
  sessionId : String
  direction : String
  opcode : String
  payloadText : Option String
  payloadSize : Nat
  fin : Bool
  /-- The message is only a prefix: reassembly hit the size cap. -/
  truncated : Bool

def utf8Text (bytes : List UInt8) : Option String := String.fromUTF8? ⟨bytes.toArray⟩

/-- A message from explicit opcode, payload and fin flag. -/
def buildWsMessageRaw (sessionId : String) (direction : WsDirection) (opcode : WsOpcode)
    (payload : List UInt8) (fin : Bool) : WsMessageData where
  sessionId := sessionId
  direction := direction.label
  opcode := opcode.label
  payloadText :=
    if opcode = .text then utf8Text payload
    else if opcode = .close ∧ payload ≠ [] then
      -- the first two bytes of a close payload are the status code
      if 2 < payload.length then utf8Text (payload.drop 2) else none
    else none
  payloadSize := payload.length
  fin := fin
  truncated := false

def buildWsMessage (sessionId : String) (direction : WsDirection) (frame : WsFrame) :
    WsMessageData :=
  buildWsMessageRaw sessionId direction frame.opcode frame.payload frame.fin

structure WsMessageAssembler where
  /-- The opcode of the start frame while a fragmented message is in progress. -/
  startOpcode : Option WsOpcode
  buffer : List UInt8
  truncated : Bool

def WsMessageAssembler.new : WsMessageAssembler := ⟨none, [], false⟩

def WsMessageAssembler.reset (_ : WsMessageAssembler) : WsMessageAssembler := ⟨none, [], false⟩

/-- Append a fragment unless the message is or becomes longer than the cap. -/
def WsMessageAssembler.append (assembler : WsMessageAssembler) (payload : List UInt8) :
    WsMessageAssembler :=
  if assembler.truncated then assembler
  else if assembler.buffer.length + payload.length ≤ maxReassembledMessageBytes then
    { assembler with buffer := assembler.buffer ++ payload }
  else { assembler with truncated := true }

/-- Feed one frame into the assembler: the message to emit and the assembler after it. -/
def assembleWsMessage (sessionId : String) (direction : WsDirection) (frame : WsFrame)
    (assembler : WsMessageAssembler) : WsMessageData × WsMessageAssembler :=
  let single := buildWsMessage sessionId direction frame
  match frame.opcode with
  | .close | .ping | .pong => (single, assembler)
  | .text | .binary =>
    if assembler.startOpcode.isSome then (single, assembler.reset)
    else if frame.fin then (single, assembler)
    else
      (single,
        if frame.payload.length ≤ maxReassembledMessageBytes then
          { assembler with startOpcode := some frame.opcode, buffer := frame.payload }
        else
          { startOpcode := some frame.opcode, buffer := [], truncated := true })
  | .continuation =>
    match assembler.startOpcode with
    | none => (single, assembler)
    | some startOpcode =>
      let assembler := assembler.append frame.payload
      if frame.fin then
        ({ buildWsMessageRaw sessionId direction startOpcode assembler.buffer true with
            truncated := assembler.truncated }, assembler.reset)
      else (single, assembler)

def assembleWsMessages (sessionId : String) (direction : WsDirection) :
    List WsFrame → WsMessageAssembler → List WsMessageData × WsMessageAssembler
  | [], assembler => ([], assembler)
  | frame :: frames, assembler =>
    let r := assembleWsMessage sessionId direction frame assembler
    let rs := assembleWsMessages sessionId direction frames r.2
    (r.1 :: rs.1, rs.2)

end AiProxy.Ws
