import AiProxy.Lib.Run
import AiProxy.Tunnel.ResponseHead

/-!
# The blind relay of a tunnel

`idle_reset_relay` of `connect.rs`: one loop that serves both directions, with a deadline that is moved
on by what is relayed. Each step of the machine happens at a time; reads, writes and shutdowns take as
long as the next step leaves them. A read that loses the `select!` has taken nothing.
-/

namespace AiProxy.Tunnel

inductive Direction where
  | clientToUpstream
  | upstreamToClient
  deriving DecidableEq

open Direction

inductive RelayOutcome where
  | done (clientToUpstreamBytes upstreamToClientBytes : Nat)
  | idleTimeout
  | error (e : String)
  deriving DecidableEq

/-- One direction: what its source has yet to give, what was read of it and what was written of that,
the counter, whether the direction is done, and how often the writer was shut down. -/
structure Flow where
  unread : List UInt8
  read : List UInt8 := []
  written : List UInt8 := []
  count : Nat := 0
  done : Bool := false
  shutdowns : Nat := 0

inductive RelayPhase where
  | top
  | select
  /-- `write_all`: a chunk, what is left of it, and when it was read. -/
  | writing (d : Direction) (chunk rest : List UInt8) (readCompletedAt : Nat)
  | closing (d : Direction)
  | returned (outcome : RelayOutcome)
  deriving DecidableEq

/-- A chunk that was relayed: when its read and its write completed. -/
structure Relayed where
  readAt : Nat
  writtenAt : Nat

structure RelayState where
  flow : Direction → Flow
  phase : RelayPhase
  clock : Nat
  idleDeadline : Nat
  relayed : List Relayed

inductive RelayAct where
  /-- The checks at the top of the loop. -/
  | check
  | sleepElapsed
  | read (d : Direction) (n : Nat)
  | endOfStream (d : Direction)
  | readFailed (d : Direction) (e : String)
  | write (n : Nat)
  | writeFailed (e : String)
  | shutDown

namespace RelayState

def new (idle now : Nat) (stream : Direction → List UInt8) : RelayState :=
  ⟨fun d => { unread := stream d }, .top, now, now + idle, []⟩

def setFlow (s : RelayState) (d : Direction) (f : Flow) : RelayState :=
  { s with flow := Function.update s.flow d f }

def check (s : RelayState) : RelayState :=
  let up := s.flow clientToUpstream
  let down := s.flow upstreamToClient
  if up.done && down.done then { s with phase := .returned (.done up.count down.count) }
  else if s.idleDeadline ≤ s.clock then { s with phase := .returned .idleTimeout }
  else { s with phase := .select }

/-- A part of the chunk is written; with the last one the chunk is counted and the deadline moved. -/
def write (idle : Nat) (s : RelayState) (d : Direction) (chunk rest : List UInt8)
    (readCompletedAt n : Nat) : RelayState :=
  let f := s.flow d
  let f := { f with written := f.written ++ rest.take n }
  if rest.drop n = [] then
    { s.setFlow d { f with count := f.count + chunk.length } with
      phase := .top
      idleDeadline := readCompletedAt + idle
      relayed := ⟨readCompletedAt, s.clock⟩ :: s.relayed }
  else { s.setFlow d f with phase := .writing d chunk (rest.drop n) readCompletedAt }

def act (idle : Nat) (s : RelayState) : RelayAct → Option RelayState
  | .check => if s.phase = .top then some s.check else none
  | .sleepElapsed =>
    if s.phase = .select ∧ s.idleDeadline ≤ s.clock then
      some { s with phase := .returned .idleTimeout }
    else none
  | .read d n =>
    let f := s.flow d
    if s.phase = .select ∧ f.done = false ∧ 0 < n ∧ n ≤ readBufferBytes ∧ n ≤ f.unread.length then
      let chunk := f.unread.take n
      some { s.setFlow d { f with unread := f.unread.drop n, read := f.read ++ chunk } with
        phase := .writing d chunk chunk s.clock }
    else none
  | .endOfStream d =>
    let f := s.flow d
    if s.phase = .select ∧ f.done = false ∧ f.unread = [] then
      some { s.setFlow d { f with shutdowns := f.shutdowns + 1 } with phase := .closing d }
    else none
  | .readFailed d e =>
    if s.phase = .select ∧ (s.flow d).done = false then
      some { s with phase := .returned (.error e) }
    else none
  | .write n =>
    match s.phase with
    | .writing d chunk rest readCompletedAt =>
      if 0 < n ∧ n ≤ rest.length then some (s.write idle d chunk rest readCompletedAt n) else none
    | _ => none
  | .writeFailed e =>
    match s.phase with
    | .writing _ _ _ _ => some { s with phase := .returned (.error e) }
    | _ => none
  -- the result of the shutdown is not looked at
  | .shutDown =>
    match s.phase with
    | .closing d => some { s.setFlow d { s.flow d with done := true } with phase := .top }
    | _ => none

def step (idle : Nat) (s : RelayState) (e : Nat × RelayAct) : Option RelayState :=
  if s.clock ≤ e.1 then { s with clock := e.1 }.act idle e.2 else none

end RelayState

namespace RelayPhase

@[simp] def inFlight (d : Direction) : RelayPhase → List UInt8
  | .writing d' _ rest _ => if d' = d then rest else []
  | _ => []

@[simp] def uncounted (d : Direction) : RelayPhase → Nat
  | .writing d' chunk _ _ => if d' = d then chunk.length else 0
  | _ => 0

@[simp] def isClosing (d : Direction) : RelayPhase → Bool
  | .closing d' => d' = d
  | _ => false

@[simp] def failed : RelayPhase → Bool
  | .returned (.error _) => true
  | _ => false

end RelayPhase

/-- Of a stream, what was read is a part, and so is of this what was written; unless the relay has
failed, the rest of it is in flight. The writer is shut down once, when all of the stream is written. -/
structure Flow.Ok (stream : List UInt8) (d : Direction) (phase : RelayPhase) (f : Flow) : Prop where
  read : f.read ++ f.unread = stream
  written : f.written <+: f.read
  whole : phase.failed = false →
    f.written ++ phase.inFlight d = f.read ∧ f.count + phase.uncounted d = f.read.length
  shutdowns : f.shutdowns = if f.done || phase.isClosing d then 1 else 0
  ended : (f.done || phase.isClosing d) = true → f.unread = [] ∧ f.written = f.read

end AiProxy.Tunnel
