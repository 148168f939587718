import AiProxy.Ws.Relay

/-!
# What the relay takes in

The inputs of a run, in the order in which the `select!` loop takes them: complete frames, protocol
violations and injected requests. Whether anything is written to a peer after its Close depends on the
order of the inputs (`Input.MayPrecede`).
-/

namespace AiProxy.Ws

inductive Input where
  | frame (p : Peer) (f : WsFrame)
  | violation (p : Peer)
  | inject (req : WsInjectRequest)

namespace Input

def source : Input → Option Peer
  | frame p _ => some p
  | violation p => some p
  | inject _ => none

/-- The relay reads nothing more from `p` after the input. -/
def finishes (p : Peer) : Input → Prop
  | frame q f => q = p ∧ f.opcode = .close
  | violation q => q = p
  | inject _ => False

def writeTo (p : Peer) : Input → Option (Origin × WsFrame)
  | frame q f => if q.other = p then some (.relayed, f) else none
  | violation q => if q = p then some (.proxyClose, closeFrame 1002) else none
  | inject req => if req.direction.target = p then some (.injected, req.frame) else none

/-- The order in which two inputs may arrive. Once a peer has violated the protocol, the other peer
sends nothing more and nothing is injected towards the violator; once a peer has sent a Close,
nothing is injected towards the other peer and the other peer does not violate the protocol. -/
def MayPrecede : Input → Input → Prop
  | violation p, frame q _ => q = p
  | violation p, inject req => req.direction.target ≠ p
  | frame p f, inject req => f.opcode = .close → req.direction.target ≠ p.other
  | frame p f, violation q => f.opcode = .close → q = p
  | _, _ => True

instance : DecidableRel MayPrecede
  | violation _, frame _ _ => inferInstanceAs (Decidable (_ = _))
  | violation _, inject _ => inferInstanceAs (Decidable (_ ≠ _))
  | frame _ _, inject _ => inferInstanceAs (Decidable (_ → _))
  | frame _ _, violation _ => inferInstanceAs (Decidable (_ → _))
  | violation _, violation _ => .isTrue trivial
  | frame _ _, frame _ _ => .isTrue trivial
  | inject _, frame _ _ => .isTrue trivial
  | inject _, violation _ => .isTrue trivial
  | inject _, inject _ => .isTrue trivial

end Input

namespace Relay

def input (s : Relay) : RelayEvent → Option Input
  | .frame p _ =>
    match tryParseWsFrame (s.peer p).readBuf with
    | .ok (some (f, _)) => some (.frame p f)
    | _ => none
  | .failed p .protocol _ => some (.violation p)
  | .inject req _ => some (.inject req)
  | _ => none

def inputs : Relay → List RelayEvent → List Input
  | _, [] => []
  | s, ev :: evs =>
    (s.input ev).toList ++ (match s.step ev with | some s' => inputs s' evs | none => [])

end Relay

def RelayEvent.writes : RelayEvent → Bool
  | .frame _ wrote => wrote
  | .failed _ _ wrote => wrote
  | .inject _ wrote => wrote
  | _ => true

/-- The frame is a Close of the relay: a forwarded one or its own Close(1002). -/
def isRelayClose (w : Origin × WsFrame) : Prop := w.1 ≠ .injected ∧ w.2.opcode = .close

instance (w : Origin × WsFrame) : Decidable (isRelayClose w) :=
  inferInstanceAs (Decidable (_ ∧ _))

/-- Nothing is written after a Close of the relay. -/
def NothingAfterClose (written : List (Origin × WsFrame)) : Prop :=
  written.Pairwise fun w _ => ¬ isRelayClose w

instance (written : List (Origin × WsFrame)) : Decidable (NothingAfterClose written) :=
  inferInstanceAs (Decidable (List.Pairwise _ _))

end AiProxy.Ws
