import AiProxy.Agent.Grants
import AiProxy.Lib.Run
import Mathlib.Algebra.GroupWithZero.Nat

/-!
# The grant store over time

The calls of `agent_grants.rs` in the order in which they hold the lock, from the empty store. A
request that has to wait releases the lock and holds it again when its timed wait ends: how the wait
ends and what the clocks show is left open. A new grant gets an identifier that no grant had before.

`log` has an entry for every approval, denial and revocation, and for every use that was taken.
-/

namespace AiProxy.Agent

/-- What a call did to the grant `id`. `returned` is whether the call succeeded: it fails after the
decision was made when the file cannot be written. -/
inductive GrantOutcome where
  | approved (id : Text) (option : AgentGrantApprovalOption) (returned : Bool)
  | denied (id : Text) (found : AgentGrantStatus) (returned : Bool)
  | revoked (id : Text)
  | reserved (id : Text)
  | consumed (id : Text)
  deriving DecidableEq

def GrantOutcome.id : GrantOutcome → Text
  | .approved id _ _ | .denied id _ _ | .revoked id | .reserved id | .consumed id => id

structure GrantState where
  grants : List AgentGrant
  waiters : Nat → Option Waiter
  issued : List Text
  log : List GrantOutcome

inductive GrantEvent where
  | list (now : Time)
  | request (thread : Nat) (times : RequestTimes) (persisted : Except String Unit) (uuid : Text)
      (request : AgentGrantRequest) (requester : GrantRequester)
  | wake (thread : Nat) (result : WaitResult) (checked : Nat)
  | approve (now : Time) (persisted : Except String Unit) (requestId : Text)
      (option : AgentGrantApprovalOption)
  | deny (now : Time) (persisted : Except String Unit) (requestId : Text)
  | revoke (persisted : Except String Unit) (grantId : Text)
  | authorize (now : Time) (requester : GrantRequester) (capability : AgentCapability)
      (fingerprint : Text) (grantIds : List Text)
  | markExecuting (persisted : Except String Unit) (grantIds : List Text)
  | consume (now : Time) (persisted : Except String Unit) (params : ConsumeAgentGrantParams)
      (requester : GrantRequester)
  | finish (persisted : Except String Unit) (grantIds : List Text) (completion : Completion)
  | clear

def GrantState.empty : GrantState := ⟨[], fun _ => none, [], []⟩

def GrantReply.waiter? : GrantReply → Option Waiter
  | .done _ => none
  | .waits waiter => some waiter

def GrantState.reply (s : GrantState) (thread : Nat) (r : List AgentGrant × GrantReply) :
    GrantState :=
  { s with grants := r.1, waiters := Function.update s.waiters thread r.2.waiter? }

def approvals (requestId : Text) (option : AgentGrantApprovalOption) (grants : List AgentGrant)
    (r : List AgentGrant × Except String AgentGrant) : List GrantOutcome :=
  match grants.find? (·.requestId == requestId), r.1.find? (·.requestId == requestId) with
  | some before, some after =>
    if before.status = .pending ∧ after.status = .approved then
      [.approved before.id option r.2.isOk]
    else []
  | _, _ => []

def denials (requestId : Text) (grants : List AgentGrant) (r : Except String AgentGrant) :
    List GrantOutcome :=
  match grants.find? (·.requestId == requestId) with
  | some before => [.denied before.id before.status r.isOk]
  | none => []

def revocations (grantId : Text) (grants : List AgentGrant) : List GrantOutcome :=
  match grants.find? (·.id == grantId) with
  | some grant => [.revoked grant.id]
  | none => []

def reservations (grantIds : List Text) (grants : List AgentGrant) : List GrantOutcome :=
  match reserveGrants grants grantIds with
  | .ok _ => grantIds.map .reserved
  | .error _ => []

def consumptions (now : Time) (params : ConsumeAgentGrantParams) (requester : GrantRequester)
    (grants : List AgentGrant) : List GrantOutcome :=
  match checkConsume params requester (refreshExpired now grants) with
  | .ok grant => [.consumed grant.id]
  | .error _ => []

def GrantState.after (s : GrantState) (grants : List AgentGrant) (outcomes : List GrantOutcome) :
    GrantState :=
  { s with grants := grants, log := s.log ++ outcomes }

def grantStep (s : GrantState) : GrantEvent → Option GrantState
  | .list now => some (s.after (refreshExpired now s.grants) [])
  | .request thread times persisted uuid req requester =>
    if s.waiters thread = none ∧ grantId uuid ∉ s.issued then
      some { s.reply thread (request times persisted uuid req requester s.grants) with
        issued := grantId uuid :: s.issued }
    else none
  | .wake thread result checked =>
    (s.waiters thread).map fun waiter => s.reply thread (wake waiter result checked s.grants)
  | .approve now persisted requestId option =>
    let r := approve now persisted requestId option s.grants
    some (s.after r.1 (approvals requestId option s.grants r))
  | .deny now persisted requestId =>
    let r := deny now persisted requestId s.grants
    some (s.after r.1 (denials requestId s.grants r.2))
  | .revoke persisted grantId =>
    some (s.after (revoke persisted grantId s.grants).1 (revocations grantId s.grants))
  | .authorize now requester capability fingerprint grantIds =>
    some (s.after (authorize now requester capability fingerprint grantIds s.grants).1 [])
  | .markExecuting persisted grantIds =>
    some (s.after (markExecuting persisted grantIds s.grants).1 (reservations grantIds s.grants))
  | .consume now persisted params requester =>
    some (s.after (consume now persisted params requester s.grants).1
      (consumptions now params requester s.grants))
  | .finish persisted grantIds completion =>
    some (s.after (finish persisted grantIds completion s.grants).1 [])
  | .clear => some (s.after [] [])

/-! ## What a grant stands for

The budget of a grant is what its approval gave, a decision of the user is final, and a request that
waits has no say in it. -/

def GrantOutcome.approval? (id : Text) : GrantOutcome → Option AgentGrantApprovalOption
  | .approved id' option _ => if id' = id then some option else none
  | _ => none

def GrantOutcome.uses (id : Text) : GrantOutcome → Bool
  | .reserved id' | .consumed id' => id' == id
  | _ => false

/-- The grant `id` was revoked, or was denied while it was pending. -/
def GrantOutcome.closes (id : Text) : GrantOutcome → Bool
  | .revoked id' => id' == id
  | .denied id' found _ => id' == id && found == .pending
  | _ => false

/-- The grant `id` was revoked or denied, whatever its status was. -/
def GrantOutcome.refuses (id : Text) : GrantOutcome → Bool
  | .revoked id' | .denied id' _ _ => id' == id
  | _ => false

def approvalsOf (id : Text) (log : List GrantOutcome) : List AgentGrantApprovalOption :=
  log.filterMap (·.approval? id)

def usesOf (id : Text) (log : List GrantOutcome) : Nat := log.countP (·.uses id)

/-- One approval at the most, no more uses than it gave, and none after the grant was closed. -/
structure WithinBudget (id : Text) (log : List GrantOutcome) : Prop where
  approvedOnce : (approvalsOf id log).length ≤ 1
  bounded : usesOf id log ≤ ((approvalsOf id log).map (·.maxUses)).sum
  closed : log.Pairwise fun earlier later => earlier.closes id = true → later.uses id = false

def GrantOutcome.decides (id : Text) : GrantOutcome → Bool
  | .approved id' _ returned => id' == id && returned
  | .denied id' found returned => id' == id && found == .pending && returned
  | _ => false

def GrantState.Decided (s : GrantState) (id : Text) : Prop :=
  s.log.any (·.decides id) = true

def GrantEvent.waitsOrDecides : GrantEvent → Bool
  | .wake _ _ _ | .approve _ _ _ _ | .deny _ _ _ => true
  | _ => false

/-- Neither the end of a wait nor another decision changes a grant that the user has decided on. -/
def DecisionStands (s : GrantState) (e : GrantEvent) : Prop :=
  e.waitsOrDecides = true → ∀ s', grantStep s e = some s' →
    ∀ grant ∈ s.grants, s.Decided grant.id → grant ∈ s'.grants

/-- No wait for a grant that the user has decided on ends with a timeout after its deadline. -/
def NotOverdue (s : GrantState) (e : GrantEvent) : Prop :=
  ∀ thread checked waiter, e = .wake thread .timedOut checked → s.waiters thread = some waiter →
    waiter.deadline ≤ checked → ∀ grant ∈ s.grants, grant.id = waiter.grant.id →
      ¬ s.Decided grant.id

end AiProxy.Agent
