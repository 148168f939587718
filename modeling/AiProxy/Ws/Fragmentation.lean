import AiProxy.Ws.Relay

/-!
# Fragmentation

The fragmentation rules of RFC 6455 as an automaton over the frames sent to one peer, and the
requests whose injection respects them on their own.
-/

namespace AiProxy.Ws

/-- The automaton of RFC 6455 §5.4. The state says whether a fragmented message is in progress. -/
def fragmentStep (inMessage : Bool) (frame : WsFrame) : Option Bool :=
  match frame.opcode with
  | .close | .ping | .pong =>
    if frame.fin ∧ frame.payload.length ≤ 125 then some inMessage else none
  | .text | .binary => if inMessage then none else some !frame.fin
  | .continuation => if inMessage then some !frame.fin else none

/-- The frames follow the fragmentation rules; the last message may still be in progress. -/
def ValidFragments (frames : List WsFrame) : Prop := (Run.exec fragmentStep false frames).isSome

instance (frames : List WsFrame) : Decidable (ValidFragments frames) :=
  inferInstanceAs (Decidable (_ = true))

/-- The data frames of the message in progress after one more frame. A final fragment ends it. -/
def collectFragment (fragments : List WsFrame) (frame : WsFrame) : List WsFrame :=
  if frame.opcode.isControl then fragments
  else if frame.fin then []
  else fragments ++ [frame]

/-- The data frames of the message in progress after the frames. -/
def fragmentsInProgress (frames : List WsFrame) : List WsFrame := frames.foldl collectFragment []

def payloadOf (fragments : List WsFrame) : List UInt8 := fragments.flatMap (·.payload)

/-- The request is a complete message or a well-formed control frame. -/
def WsInjectRequest.Complete (req : WsInjectRequest) : Prop :=
  req.fin = true ∧ req.opcode ≠ .continuation ∧
    (req.opcode.isControl = true → req.frame.payload.length ≤ 125)

def Relay.framesTo (s : Relay) (p : Peer) : List WsFrame := (s.peer p).written.map Prod.snd

/-- A Text or Binary frame is injected into the stream of `p` only while the message assembler of
that direction has no fragmented message in progress. -/
def InjectsBetweenMessages (p : Peer) (s : Relay) (ev : RelayEvent) : Prop :=
  ∀ req, ev = .inject req true → req.direction.target = p.other → req.opcode.isControl = false →
    (s.peer p).assembler.startOpcode = none

end AiProxy.Ws
