import AiProxy.Breakpoint.Resolution
import AiProxy.Lib.Run

/-!
# The breakpoint manager

`BreakpointManager` with the interceptions that wait on it, as one machine. The phase of an interception
is the place where it stands. A step is what happens between two points at which another task can run:
`rules` and `pending` have locks of their own, and an interception can be cancelled only while it awaits
its receiver.
-/

namespace AiProxy.Breakpoint

open Http (eqIgnoreAsciiCase)

inductive BreakpointStage where
  | request
  | response
  deriving DecidableEq

structure BreakpointRule where
  id : String
  enabled : Bool
  urlPattern : String
  methods : List String
  stage : BreakpointStage
  matchType : Option String

abbrev InterceptId := Nat

/-- An entry of the pending map; the sender of an interception's channel is named by the
interception, which holds the receiver. -/
structure PendingBreakpoint where
  ruleId : String
  sender : InterceptId

inductive Phase where
  | matched (sessionId ruleId : String)
  /-- Awaits its receiver, which may hold a resolution that the task has not seen yet. -/
  | waiting (sessionId : String) (inbox : Option RequestResolution)
  /-- The wait has ended without a resolution and the receiver is gone; `remove_pending` is next. -/
  | releasing (sessionId : String)
  | done

namespace Phase

def receive (resolution : RequestResolution) : Phase → Phase
  | waiting sessionId none => waiting sessionId (some resolution)
  | phase => phase

end Phase

abbrev Pending := List (String × PendingBreakpoint)

structure State where
  rules : List BreakpointRule
  pending : Pending
  /-- The calls of `set_rules` that have released the rules lock and not yet taken the pending lock,
  with the ids of the rules they cancel. -/
  cancelling : List (List String)
  phase : InterceptId → Option Phase

namespace State

def new : State := ⟨[], [], [], fun _ => none⟩

def setPhase (s : State) (i : InterceptId) (phase : Phase) : State :=
  { s with phase := fun j => if j = i then some phase else s.phase j }

end State

/-- What the user lets a released request or response do: pass through unmodified. -/
def forwardResolution : RequestResolution := ⟨⟨.forward, none, none, none, none⟩, none, none, none⟩

def activeIds (rules : List BreakpointRule) : List String :=
  (rules.filter fun rule => rule.enabled).map fun rule => rule.id

section

-- how a pattern of a match type matches a URL
variable (urlMatches : Option String → String → String → Bool)

def ruleMatches (stage : BreakpointStage) (method url : String) (rule : BreakpointRule) : Bool :=
  rule.enabled && rule.stage = stage &&
    (rule.methods.isEmpty || rule.methods.any fun m => eqIgnoreAsciiCase m method) &&
    urlMatches rule.matchType rule.urlPattern url

def findMatchingRuleId (rules : List BreakpointRule) (stage : BreakpointStage)
    (method url : String) : Option String :=
  (rules.find? (ruleMatches urlMatches stage method url)).map fun rule => rule.id

end

namespace State

def removedIds (s : State) (rules : List BreakpointRule) : List String :=
  (activeIds s.rules).filter fun id => !(activeIds rules).contains id

def replaceRules (s : State) (rules : List BreakpointRule) : State :=
  { s with
    rules := rules
    cancelling := if (s.removedIds rules).isEmpty then s.cancelling
      else s.removedIds rules :: s.cancelling }

/-- `register_pending`: an entry of the same session is replaced, and its sender dropped. -/
def registerPending (s : State) (i : InterceptId) (sessionId ruleId : String) : State :=
  { s with
    pending := (sessionId, ⟨ruleId, i⟩) :: s.pending.filter fun p => p.1 ≠ sessionId }.setPhase i
      (.waiting sessionId none)

/-- Take the chosen entries out of the map and send each of them the resolution. -/
def release (s : State) (chosen : String × PendingBreakpoint → Bool)
    (resolution : RequestResolution) : State :=
  { s with
    pending := s.pending.filter fun p => !chosen p
    phase := fun i =>
      if s.pending.any fun p => chosen p && p.2.sender = i then
        (s.phase i).map (Phase.receive resolution)
      else s.phase i }

def resolve (s : State) (sessionId : String) (resolution : RequestResolution) : State :=
  s.release (fun p => p.1 = sessionId) resolution

def cancelForRules (s : State) (ruleIds : List String) : State :=
  s.release (fun p => ruleIds.contains p.2.ruleId) forwardResolution

def cancelAll (s : State) : State := s.release (fun _ => true) forwardResolution

/-- `remove_pending`: the sender is dropped. -/
def removePending (s : State) (sessionId : String) : State :=
  { s with pending := s.pending.filter fun p => p.1 ≠ sessionId }

/-- The sender of the interception's channel is in the map. -/
def senderAlive (s : State) (i : InterceptId) : Bool := s.pending.any fun p => p.2.sender = i

end State

inductive Event where
  /-- An interception starts and looks for a rule. -/
  | intercept (i : InterceptId) (stage : BreakpointStage) (sessionId method url : String)
  | register (i : InterceptId)
  /-- The first half of `set_rules`. -/
  | setRules (rules : List BreakpointRule)
  /-- The second half of `set_rules`. -/
  | cancelForRules (ruleIds : List String)
  | resolve (sessionId : String) (resolution : RequestResolution)
  | cancelAll
  /-- The interception takes its resolution and returns. -/
  | takeResolution (i : InterceptId)
  /-- The interception finds its sender dropped. -/
  | senderDropped (i : InterceptId)
  | elapsed (i : InterceptId)
  | removePending (i : InterceptId)
  | dropTask (i : InterceptId)

/-- One step. A receiver is polled before the timer, so a wait times out only while its sender is
alive and has sent nothing. -/
def step (urlMatches : Option String → String → String → Bool) (s : State) : Event → Option State
  | .intercept i stage sessionId method url =>
    match s.phase i, findMatchingRuleId urlMatches s.rules stage method url with
    | none, some ruleId => some (s.setPhase i (.matched sessionId ruleId))
    | none, none => some (s.setPhase i .done)
    | some _, _ => none
  | .register i =>
    match s.phase i with
    | some (.matched sessionId ruleId) => some (s.registerPending i sessionId ruleId)
    | _ => none
  | .setRules rules => some (s.replaceRules rules)
  | .cancelForRules ruleIds =>
    if ruleIds ∈ s.cancelling then
      some { s.cancelForRules ruleIds with cancelling := s.cancelling.erase ruleIds }
    else none
  | .resolve sessionId resolution => some (s.resolve sessionId resolution)
  | .cancelAll => some s.cancelAll
  | .takeResolution i =>
    match s.phase i with
    | some (.waiting _ (some _)) => some (s.setPhase i .done)
    | _ => none
  | .senderDropped i =>
    match s.phase i with
    | some (.waiting sessionId none) =>
      if s.senderAlive i then none else some (s.setPhase i (.releasing sessionId))
    | _ => none
  | .elapsed i =>
    match s.phase i with
    | some (.waiting sessionId none) =>
      if s.senderAlive i then some (s.setPhase i (.releasing sessionId)) else none
    | _ => none
  | .removePending i =>
    match s.phase i with
    | some (.releasing sessionId) => some ((s.removePending sessionId).setPhase i .done)
    | _ => none
  | .dropTask i =>
    match s.phase i with
    | some (.waiting _ _) => some (s.setPhase i .done)
    | _ => none

def ActiveRule (rules : List BreakpointRule) (id : String) : Prop := id ∈ activeIds rules

instance (rules : List BreakpointRule) (id : String) : Decidable (ActiveRule rules id) :=
  inferInstanceAs (Decidable (id ∈ activeIds rules))

namespace State

/-- The interception of the entry still waits on it. -/
def waitsOn (s : State) (p : String × PendingBreakpoint) : Bool :=
  match s.phase p.2.sender with
  | some (.waiting sessionId _) => sessionId = p.1
  | _ => false

/-- Every pending entry belongs to an interception that waits on it and to an active rule. -/
def NoOrphan (s : State) : Prop :=
  ∀ p ∈ s.pending, s.waitsOn p = true ∧ ActiveRule s.rules p.2.ruleId

instance (s : State) : Decidable s.NoOrphan :=
  inferInstanceAs (Decidable (∀ p ∈ s.pending, s.waitsOn p = true ∧ ActiveRule s.rules p.2.ruleId))

end State

/-- The step leaves no orphan: a breakpoint is registered while its rule is still active, no rule of
a pending entry is deactivated, and an interception neither times out nor is cancelled while its
entry is pending. -/
def LeavesNoOrphan (s : State) : Event → Prop
  | .register i => ∀ sessionId ruleId, s.phase i = some (.matched sessionId ruleId) →
      ActiveRule s.rules ruleId
  | .setRules rules => ∀ p ∈ s.pending, ActiveRule rules p.2.ruleId
  | .elapsed i | .dropTask i => s.senderAlive i = false
  | _ => True

end AiProxy.Breakpoint
