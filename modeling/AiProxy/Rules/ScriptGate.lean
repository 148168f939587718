import AiProxy.Lib.Population
import AiProxy.Lib.Run
import Mathlib.Algebra.Group.Nat.Defs

/-!
# The concurrency gate of scripts

`ScriptConcurrencyGate` with the calls of `acquire`. A step is what a thread does while it holds the mutex.
A wait may end at any time: by a notification, at its deadline, or for no reason.
-/

namespace AiProxy.Rules

def maxConcurrentScriptThreads : Nat := 64

/-- `usize::saturating_add`. -/
def saturatingSucc (n : Nat) : Nat := min (n + 1) (2 ^ 64 - 1)

inductive AcquireCall where
  | entering
  | waiting
  /-- `acquire` has returned a `ScriptPermitGuard`, which is alive. -/
  | holding
  /-- `acquire` has returned `None`; `observed` is the number of permits that it has read last. -/
  | refused (observed : Nat)
  | dropped
  deriving DecidableEq

structure ScriptConcurrencyGate where
  available : Nat
  poisoned : Bool
  calls : List AcquireCall

inductive GateEvent where
  | acquire
  | lock (i : Nat) (expired : Bool)
  | wake (i : Nat) (timedOut expired : Bool)
  /-- The guard goes out of scope, or its holder unwinds. -/
  | drop (i : Nat)
  | poison

namespace ScriptConcurrencyGate

def new : ScriptConcurrencyGate := ⟨maxConcurrentScriptThreads, false, []⟩

/-- The permits and the call after the loop was left with `available` permits. -/
def take (available : Nat) : Nat × AcquireCall := (available - 1, .holding)

/-- The head of the loop; `expired` says that `now >= deadline`. -/
def check (available : Nat) (expired : Bool) : Nat × AcquireCall :=
  if available = 0 then (available, if expired then .refused available else .waiting)
  else take available

def afterWait (available : Nat) (poisoned timedOut expired : Bool) : Nat × AcquireCall :=
  if poisoned then if available = 0 then (available, .refused available) else take available
  else if timedOut ∧ available = 0 then (available, .refused available)
  else check available expired

def move (s : ScriptConcurrencyGate) (i : Nat) (turn : Nat × AcquireCall) : ScriptConcurrencyGate :=
  { s with available := turn.1, calls := s.calls.set i turn.2 }

def step (s : ScriptConcurrencyGate) : GateEvent → Option ScriptConcurrencyGate
  | .acquire => some { s with calls := s.calls ++ [.entering] }
  | .lock i expired =>
    if s.calls[i]? = some .entering then some (s.move i (check s.available expired)) else none
  | .wake i timedOut expired =>
    if s.calls[i]? = some .waiting then
      some (s.move i (afterWait s.available s.poisoned timedOut expired))
    else none
  | .drop i =>
    if s.calls[i]? = some .holding then
      some (s.move i (saturatingSucc s.available, .dropped))
    else none
  | .poison => some { s with poisoned := true }

def liveGuards (s : ScriptConcurrencyGate) : Nat := s.calls.countP (· = .holding)

end ScriptConcurrencyGate

end AiProxy.Rules
