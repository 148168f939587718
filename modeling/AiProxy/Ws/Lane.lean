import AiProxy.Ws.Relay

/-!
# One direction of the relay

What the relay is for, seen from one direction: the frames of one byte stream are handed to the
capture channel and forwarded one after another, until the stream stops. A `Lane` is a relay of one
direction, without injection and without the Close(1002) answers.
-/

namespace AiProxy.Ws

def throughClose : List WsFrame → List WsFrame
  | [] => []
  | frame :: frames => if frame.opcode = .close then [frame] else frame :: throughClose frames

structure Lane where
  sessionId : String
  direction : WsDirection
  incoming : List UInt8
  readBuf : List UInt8
  done : Bool
  stopped : Bool
  assembler : WsMessageAssembler
  forwarded : List WsFrame
  captured : List WsMessageData

namespace Lane

def start (sessionId : String) (direction : WsDirection) (stream : List UInt8) : Lane :=
  ⟨sessionId, direction, stream, [], false, false, .new, [], []⟩

end Lane

inductive LaneEvent where
  | read (n : Nat)
  | frame (wrote : Bool)
  | failed (failure : ReadFailure)
  /-- The relay ends for a reason that is not of this lane. -/
  | stop

/-- The event keeps the lane from delivering its whole stream. -/
def LaneEvent.interrupts : LaneEvent → Bool
  | .frame wrote => !wrote
  | .failed failure => failure.interrupts
  | _ => false

namespace Lane

/-- The lane after the frame that occupies the first `used` bytes of the buffer. -/
def onFrame (l : Lane) (frame : WsFrame) (used : Nat) (wrote : Bool) : Lane :=
  let r := assembleWsMessage l.sessionId l.direction frame l.assembler
  { l with
    readBuf := l.readBuf.drop used
    assembler := r.2
    captured := l.captured ++ [r.1]
    forwarded := if wrote then l.forwarded ++ [frame] else l.forwarded
    done := decide (frame.opcode = .close)
    stopped := decide (frame.opcode ≠ .close) && !wrote }

def step (l : Lane) : LaneEvent → Option Lane
  | .read n =>
    if l.stopped = false ∧ l.done = false ∧ tryParseWsFrame l.readBuf = .ok none ∧
        n ≤ l.incoming.length then
      some { l with readBuf := l.readBuf ++ l.incoming.take n, incoming := l.incoming.drop n }
    else none
  | .frame wrote =>
    if l.stopped = false ∧ l.done = false then
      match tryParseWsFrame l.readBuf with
      | .ok (some (frame, used)) => some (l.onFrame frame used wrote)
      | _ => none
    else none
  | .failed failure =>
    if l.stopped = false ∧ l.done = false then
      (readWsFrameError l.readBuf l.incoming failure).map fun _ => { l with done := true }
    else none
  | .stop => some { l with stopped := true }

/-- The lane without the mark that the relay has ended. -/
def core (l : Lane) : Lane := { l with stopped := false }

end Lane

def Relay.lane (s : Relay) (p : Peer) : Lane where
  sessionId := s.sessionId
  direction := p.direction
  incoming := (s.peer p).incoming
  readBuf := (s.peer p).readBuf
  done := (s.peer p).done
  stopped := s.ended.isSome
  assembler := (s.peer p).assembler
  forwarded := s.relayedTo p.other
  captured := s.relayedCaptures p.direction

end AiProxy.Ws
