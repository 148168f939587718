import AiProxy.Ws.Message
import AiProxy.Lib.Run

/-!
# The WebSocket relay

`relay_websocket_frames` is one task: a loop around a `select!` over the close-grace timer, a frame
read from the client, a frame read from the upstream and the injection channel. The handler of the
arm that wins runs to its end before the next `select!`, so the events of `step` are completed `read()`
calls of a pending frame read, whose bytes are in the caller's buffer even when another arm wins, and
completed arms with their handlers.

An event carries what the environment decides: how many bytes a read returned, why a read failed,
which request was injected, and whether a write succeeded. Which bytes a peer will send is part of the
state (`incoming`). The grace deadline is a flag: once it is armed, the timer may fire at any time.
-/

namespace AiProxy.Ws

def wsFrameReadChunkBytes : Nat := 8 * 1024

inductive Peer where
  | client
  | upstream
  deriving DecidableEq

namespace Peer

def other : Peer → Peer
  | client => upstream
  | upstream => client

def select {α : Type*} (p : Peer) (client upstream : α) : α :=
  match p with
  | .client => client
  | .upstream => upstream

def direction : Peer → WsDirection
  | client => .clientToServer
  | upstream => .serverToClient

end Peer

def WsDirection.target : WsDirection → Peer
  | .clientToServer => .upstream
  | .serverToClient => .client

structure WsInjectRequest where
  direction : WsDirection
  opcode : WsOpcode
  payload : String
  fin : Bool
  deriving DecidableEq

def WsInjectRequest.frame (req : WsInjectRequest) : WsFrame where
  fin := req.fin
  opcode := req.opcode
  mask := false
  payload := req.payload.toUTF8.data.toList

def closeFrame (code : UInt16) : WsFrame where
  fin := true
  opcode := .close
  mask := false
  payload := [(code >>> 8).toUInt8, code.toUInt8]

/-- Where a frame that is written or captured comes from. -/
inductive Origin where
  | relayed
  | injected
  | proxyClose
  deriving DecidableEq

structure Endpoint where
  incoming : List UInt8
  readBuf : List UInt8
  done : Bool
  assembler : WsMessageAssembler
  written : List (Origin × WsFrame)

inductive EndCause where
  | bothDone
  | graceExpired
  | writeFailed

structure Relay where
  sessionId : String
  client : Endpoint
  upstream : Endpoint
  injectClosed : Bool
  closeGraceArmed : Bool
  /-- The messages handed to the capture channel, oldest first. -/
  captured : List (Origin × WsDirection × WsMessageData)
  ended : Option EndCause

namespace Relay

def peer (s : Relay) : Peer → Endpoint
  | .client => s.client
  | .upstream => s.upstream

def setPeer (s : Relay) : Peer → Endpoint → Relay
  | .client, e => { s with client := e }
  | .upstream, e => { s with upstream := e }

/-- The relay at its first `select!`: the streams the two peers will send. -/
def start (sessionId : String) (fromClient fromUpstream : List UInt8) : Relay where
  sessionId := sessionId
  client := ⟨fromClient, [], false, .new, []⟩
  upstream := ⟨fromUpstream, [], false, .new, []⟩
  injectClosed := false
  closeGraceArmed := false
  captured := []
  ended := none

/-- A frame write to `p`; only a write that succeeds puts the frame on the wire. Whether it does is
the environment's choice, also after the shutdown of `p`'s writer that follows a forwarded Close. -/
def write (s : Relay) (p : Peer) (origin : Origin) (frame : WsFrame) (wrote : Bool) : Relay :=
  if wrote then
    s.setPeer p { s.peer p with written := (s.peer p).written ++ [(origin, frame)] }
  else s

def capture (s : Relay) (origin : Origin) (direction : WsDirection) (msg : WsMessageData) : Relay :=
  { s with captured := s.captured ++ [(origin, direction, msg)] }

def markDone (s : Relay) (p : Peer) : Relay :=
  { s.setPeer p { s.peer p with done := true } with closeGraceArmed := true }

def relayedTo (s : Relay) (p : Peer) : List WsFrame :=
  (s.peer p).written.filterMap fun w => if w.1 = .relayed then some w.2 else none

def relayedCaptures (s : Relay) (direction : WsDirection) : List WsMessageData :=
  s.captured.filterMap fun c => if c.1 = .relayed ∧ c.2.1 = direction then some c.2.2 else none

def stop (s : Relay) (cause : EndCause) : Relay := { s with ended := some cause }

def loopTop (s : Relay) : Relay :=
  if s.ended = none ∧ s.client.done ∧ s.upstream.done then s.stop .bothDone else s

end Relay

/-- Why a frame read ends without a frame. -/
inductive ReadFailure where
  | protocol
  | eof
  | timeout
  | io (kind : IoErrorKind) (message : String)
  deriving DecidableEq

/-- The peer may still have bytes to send when a read ends this way. -/
def ReadFailure.interrupts : ReadFailure → Bool
  | .timeout => true
  | .io _ _ => true
  | _ => false

/-- The error of a frame read that ends this way: the parser's own error or, while the buffer holds
no complete frame, a `read()` that gives no bytes. `none` when the read cannot end this way. -/
def readWsFrameError (readBuf incoming : List UInt8) (failure : ReadFailure) :
    Option ProxyError :=
  match tryParseWsFrame readBuf, failure with
  | .error error, .protocol => some error
  | .ok none, .eof =>
    if incoming = [] then some (.ioError .unexpectedEof "ws stream ended") else none
  | .ok none, .timeout =>
    if readBuf = [] then some (.other "ws frame idle timed out (300s between frames)")
    else some (.other "ws frame read timed out (30s)")
  | .ok none, .io kind message => some (.ioError kind message)
  | _, _ => none

inductive RelayEvent where
  | read (p : Peer) (n : Nat)
  /-- The frame read of `p` returns a frame; `wrote` is the result of forwarding it. -/
  | frame (p : Peer) (wrote : Bool)
  /-- The frame read of `p` fails; `wrote` is the result of writing Close(1002). -/
  | failed (p : Peer) (failure : ReadFailure) (wrote : Bool)
  /-- A request arrives on the injection channel; `wrote` is the result of writing its frame. -/
  | inject (req : WsInjectRequest) (wrote : Bool)
  | injectClosed
  | grace
  deriving DecidableEq

namespace Relay

/-- The handler of a frame from `p`: capture it, then forward it to the other peer. A Close ends
the reading of `p` whether or not the write succeeds; any other failed write ends the relay. -/
def onFrame (s : Relay) (p : Peer) (frame : WsFrame) (used : Nat) (wrote : Bool) : Relay :=
  let e := s.peer p
  let r := assembleWsMessage s.sessionId p.direction frame e.assembler
  let s := s.setPeer p { e with readBuf := e.readBuf.drop used, assembler := r.2 }
  let s := (s.capture .relayed p.direction r.1).write p.other .relayed frame wrote
  if frame.opcode = .close then s.markDone p
  else if wrote then s
  else s.stop .writeFailed

/-- The handler of a failed frame read: a protocol violation is answered with Close(1002), and the
reading of `p` ends. -/
def onReadError (s : Relay) (p : Peer) (error : ProxyError) (wrote : Bool) : Relay :=
  let s := if isWsProtocolError error then s.write p .proxyClose (closeFrame 1002) wrote else s
  s.markDone p

/-- The handler of an injected request: write the frame, then capture it. -/
def onInject (s : Relay) (req : WsInjectRequest) (wrote : Bool) : Relay :=
  if wrote then
    (s.write req.direction.target .injected req.frame wrote).capture .injected req.direction
      (buildWsMessage s.sessionId req.direction req.frame)
  else s.stop .writeFailed

def step (s : Relay) : RelayEvent → Option Relay
  | .read p n =>
    let e := s.peer p
    if s.ended = none ∧ e.done = false ∧ tryParseWsFrame e.readBuf = .ok none ∧
        0 < n ∧ n ≤ wsFrameReadChunkBytes ∧ n ≤ e.incoming.length then
      some (s.setPeer p
        { e with readBuf := e.readBuf ++ e.incoming.take n, incoming := e.incoming.drop n })
    else none
  | .frame p wrote =>
    if s.ended = none ∧ (s.peer p).done = false then
      match tryParseWsFrame (s.peer p).readBuf with
      | .ok (some (frame, used)) => some (s.onFrame p frame used wrote).loopTop
      | _ => none
    else none
  | .failed p failure wrote =>
    if s.ended = none ∧ (s.peer p).done = false then
      (readWsFrameError (s.peer p).readBuf (s.peer p).incoming failure).map fun error =>
        (s.onReadError p error wrote).loopTop
    else none
  | .inject req wrote =>
    if s.ended = none ∧ s.injectClosed = false then some (s.onInject req wrote).loopTop else none
  | .injectClosed =>
    if s.ended = none ∧ s.injectClosed = false then some { s with injectClosed := true } else none
  | .grace =>
    if s.ended = none ∧ s.closeGraceArmed then some (s.stop .graceExpired) else none

end Relay

/-- The event keeps the relay from delivering the whole stream of `p`. -/
def RelayEvent.interrupts (p : Peer) : RelayEvent → Bool
  | .frame q wrote => decide (q = p) && !wrote
  | .failed q failure _ => decide (q = p) && failure.interrupts
  | _ => false

def relayWebsocketFrames (sessionId : String) (fromClient fromUpstream : List UInt8)
    (events : List RelayEvent) : Option Relay :=
  Run.exec Relay.step (.start sessionId fromClient fromUpstream) events

end AiProxy.Ws
