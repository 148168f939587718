import AiProxy.Agent.Control
import AiProxy.Lib.SlidingWindow

/-!
# Rate limits

The gate of the replays and the slots of the proxy verification. Each is behind a mutex, and its caller
reads the clock while it holds the mutex. Times are nanoseconds. The machine keeps a log of what was let
through beside the two queues.
-/

namespace AiProxy.Agent

/-- `Duration::from_secs`. -/
def fromSecs (secs : Nat) : Nat := secs * 1000000000

def replayWindow : Nat := fromSecs 60
def maxReplaysPerWindow : Nat := 10
def maxProxyVerificationRequestsPerMinute : Nat := 20

structure ReplayGate where
  inFlight : Bool := false
  attempts : List Nat := []

def rateLimited (message : String) : ControlError := { code := "RATE_LIMITED", message := message }

def ReplayGate.begin (gate : ReplayGate) (now : Nat) : Except ControlError Unit × ReplayGate :=
  let attempts := SlidingWindow.prune replayWindow now gate.attempts
  if gate.inFlight then
    (.error (rateLimited
      "Another Agent replay is already running. Wait for it to finish before retrying."),
      { gate with attempts := attempts })
  else if maxReplaysPerWindow ≤ attempts.length then
    (.error (rateLimited
      "Agent replay is limited to 10 requests per 60 seconds. Wait before retrying."),
      { gate with attempts := attempts })
  else (.ok (), ⟨true, attempts ++ [now]⟩)

def ReplayGate.finish (gate : ReplayGate) : ReplayGate := { gate with inFlight := false }

/-- The sum with `count` does not overflow: a count that large does not fit into the queue. -/
def reserveProxyVerificationSlots (times : List Nat) (now count : Nat) :
    Except ControlError Unit × List Nat :=
  let times := SlidingWindow.prune (fromSecs 60) now times
  if maxProxyVerificationRequestsPerMinute < times.length + count then
    (.error (rateLimited "Proxy verification allows at most 20 requests per minute."), times)
  else (.ok (), times ++ List.replicate count now)

structure RateLimits where
  gate : ReplayGate := {}
  times : List Nat := []
  clock : Nat := 0
  /-- The `ReplayPermit`s that are alive. -/
  permits : Nat := 0
  replays : List Nat := []
  slots : List Nat := []

inductive RateEvent where
  | acquireReplayPermit (now : Nat)
  | dropReplayPermit
  | reserve (now count : Nat)

namespace RateLimits

def step (s : RateLimits) : RateEvent → Option RateLimits
  | .acquireReplayPermit now =>
    if now < s.clock then none
    else
      let (answer, gate) := s.gate.begin now
      match answer with
      | .ok _ =>
        some { s with
          clock := now, gate := gate, permits := s.permits + 1, replays := s.replays ++ [now] }
      | .error _ => some { s with clock := now, gate := gate }
  | .dropReplayPermit =>
    if s.permits = 0 then none
    else some { s with gate := s.gate.finish, permits := s.permits - 1 }
  | .reserve now count =>
    if now < s.clock then none
    else
      let (answer, times) := reserveProxyVerificationSlots s.times now count
      match answer with
      | .ok _ =>
        some { s with
          clock := now, times := times, slots := s.slots ++ List.replicate count now }
      | .error _ => some { s with clock := now, times := times }

end RateLimits

end AiProxy.Agent
