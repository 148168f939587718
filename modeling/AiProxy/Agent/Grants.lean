import AiProxy.Mcp.Redaction

/-!
# Agent grants

The grant store of `agent_grants.rs`. Each operation takes the lock, changes the list of grants and
writes it to a file; it is a function from the list to the list and its result. The clocks that it
reads and whether the file could be written are arguments.

A point in time is a number of nanoseconds. Every time in the store was written by `to_rfc3339` and
reads back as it was.
-/

namespace AiProxy.Agent

open Mcp (trim byteLen)

abbrev Time := Int

def seconds (n : Int) : Time := n * 1000000000

/-! ## Types -/

inductive AgentCapability where
  | readSessions
  | readBodies
  | readRawBodies
  | readWebSocket
  | exportSnapshots
  | controlCapture
  | controlSystemProxy
  | manageCertificates
  | deleteSessions
  | sendRequests
  | manageRules
  | manageAutomation
  | manageUserAutomation
  | manageScripts
  | manageCrossHostMappings
  | manageProxiedVerification
  | manageGlobalAutomation
  deriving DecidableEq

def AgentCapability.asStr : AgentCapability → String
  | .readSessions => "readSessions"
  | .readBodies => "readBodies"
  | .readRawBodies => "readRawBodies"
  | .readWebSocket => "readWebSocket"
  | .exportSnapshots => "exportSnapshots"
  | .controlCapture => "controlCapture"
  | .controlSystemProxy => "controlSystemProxy"
  | .manageCertificates => "manageCertificates"
  | .deleteSessions => "deleteSessions"
  | .sendRequests => "sendRequests"
  | .manageRules => "manageRules"
  | .manageAutomation => "manageAutomation"
  | .manageUserAutomation => "manageUserAutomation"
  | .manageScripts => "manageScripts"
  | .manageCrossHostMappings => "manageCrossHostMappings"
  | .manageProxiedVerification => "manageProxiedVerification"
  | .manageGlobalAutomation => "manageGlobalAutomation"

inductive AgentGrantStatus where
  | pending
  | approved
  | executing
  | succeeded
  | failed
  | unknown
  | expired
  | revoked
  | denied
  | cancelled
  deriving DecidableEq

def AgentGrantStatus.debug : AgentGrantStatus → String
  | .pending => "Pending"
  | .approved => "Approved"
  | .executing => "Executing"
  | .succeeded => "Succeeded"
  | .failed => "Failed"
  | .unknown => "Unknown"
  | .expired => "Expired"
  | .revoked => "Revoked"
  | .denied => "Denied"
  | .cancelled => "Cancelled"

inductive AgentGrantApprovalOption where
  | once
  | fifteenMinutes
  deriving DecidableEq

def AgentGrantApprovalOption.debug : AgentGrantApprovalOption → String
  | .once => "Once"
  | .fifteenMinutes => "FifteenMinutes"

inductive AutomationResourceLifecycle where
  | ephemeral
  | persistent

inductive AgentGrantCleanupPolicy where
  | agentOwnedOnly
  | manual

structure AgentGrantScope where
  sessionIds : List Text := []
  connectionIds : List Text := []
  host : Option Text := none
  pathPrefix : Option Text := none
  methods : List Text := []
  workspaceId : Option Text := none
  automationRoots : List Text := []
  origins : List Text := []

structure AgentGrantResourcePolicy where
  lifecycle : AutomationResourceLifecycle
  ttlSeconds : Option Nat
  cleanup : AgentGrantCleanupPolicy

structure AgentGrantRequest where
  capability : AgentCapability
  actionFingerprint : Text
  actionSummary : Text
  scope : AgentGrantScope := {}
  reason : Text
  approvalOptions : List AgentGrantApprovalOption := [.once]
  expiresInSeconds : Nat := 30
  nonIdempotent : Bool := false
  resourcePolicy : Option AgentGrantResourcePolicy := none

structure AgentGrant where
  id : Text
  requestId : Text
  capability : AgentCapability
  clientName : Text
  clientVersion : Text
  agentInstanceId : Text
  actionFingerprint : Text
  actionSummary : Text
  scope : AgentGrantScope
  reason : Text
  createdAt : Time
  approvedAt : Option Time
  expiresAt : Time
  maxUses : Nat
  remainingUses : Nat
  resourcePolicy : Option AgentGrantResourcePolicy
  status : AgentGrantStatus
  approvalOption : AgentGrantApprovalOption
  nonIdempotent : Bool
  approvalOptions : List AgentGrantApprovalOption

structure ConsumeAgentGrantParams where
  grantId : Text
  capability : AgentCapability
  actionFingerprint : Text

structure GrantRequester where
  clientName : Text
  clientVersion : Text
  agentInstanceId : Text

def capabilityAllowsRepeatApproval : AgentCapability → Bool
  | .readRawBodies | .controlSystemProxy | .manageCertificates | .deleteSessions
  | .manageUserAutomation | .manageScripts | .manageCrossHostMappings
  | .manageGlobalAutomation => false
  | _ => true

def allowedApprovalOptions (capability : AgentCapability) (nonIdempotent : Bool) :
    List AgentGrantApprovalOption :=
  if !nonIdempotent && capabilityAllowsRepeatApproval capability then [.once, .fifteenMinutes]
  else [.once]

def maxGrants : Nat := 200

def defaultApprovalTimeoutSecs : Nat := 30

def denialCooldownSecs : Int := 60

/-- How long an approval lasts (`ONCE_EXECUTION_WINDOW_SECS`, `FIFTEEN_MINUTES_SECS`). -/
def AgentGrantApprovalOption.ttl : AgentGrantApprovalOption → Int
  | .once => 60
  | .fifteenMinutes => 15 * 60

def AgentGrantApprovalOption.maxUses : AgentGrantApprovalOption → Nat
  | .once => 1
  | .fifteenMinutes => 50

def validateRequest (request : AgentGrantRequest) : Except String Unit :=
  if (trim request.actionFingerprint).isEmpty || 256 < byteLen request.actionFingerprint then
    .error "Agent grant action fingerprint is invalid"
  else if (trim request.actionSummary).isEmpty || 512 < byteLen request.actionSummary then
    .error "Agent grant action summary is invalid"
  else if (trim request.reason).isEmpty || 1024 < byteLen request.reason then
    .error "Agent grant reason is invalid"
  else if request.approvalOptions.isEmpty || 2 < request.approvalOptions.length then
    .error "Agent grant approval options are invalid"
  else if request.nonIdempotent && request.approvalOptions.any (· != .once) then
    .error "Non-idempotent actions can only be approved once"
  else .ok ()

def validateApprovalOptions (request : AgentGrantRequest) : Except String Unit :=
  let allowed := allowedApprovalOptions request.capability request.nonIdempotent
  match request.approvalOptions.find? (!allowed.contains ·) with
  | some option =>
    .error ("Approval option " ++ option.debug ++ " is not allowed for capability " ++
      request.capability.asStr)
  | none => .ok ()

/-! ## Grants -/

def grantKey (agentInstanceId clientName clientVersion : Text) (capability : AgentCapability)
    (fingerprint : Text) : Text :=
  let nul := Char.ofNat 0
  agentInstanceId ++ nul :: clientName ++ nul :: clientVersion ++ nul :: capability.asStr.toList ++
    nul :: fingerprint

def grantKeyFromGrant (grant : AgentGrant) : Text :=
  grantKey grant.agentInstanceId grant.clientName grant.clientVersion grant.capability
    grant.actionFingerprint

/-- The states in which a grant can still be decided or used. -/
def AgentGrantStatus.live : AgentGrantStatus → Bool
  | .pending | .approved | .executing => true
  | _ => false

def AgentGrantStatus.usable : AgentGrantStatus → Bool
  | .approved | .executing => true
  | _ => false

def isUsable (grant : AgentGrant) (now : Time) : Bool :=
  grant.status.live && decide (now < grant.expiresAt)

def deniedRecently (grant : AgentGrant) (now : Time) : Bool :=
  grant.status == .denied && decide (now < grant.expiresAt)

/-- A grant whose time is over expires. -/
def AgentGrant.refresh (now : Time) (grant : AgentGrant) : AgentGrant :=
  if grant.status.live && decide (grant.expiresAt ≤ now) then
    { grant with status := .expired, remainingUses := 0 }
  else grant

def refreshExpired (now : Time) (grants : List AgentGrant) : List AgentGrant :=
  grants.map (·.refresh now)

def trimGrants (grants : List AgentGrant) : List AgentGrant :=
  if grants.length < maxGrants then grants else grants.drop (grants.length + 1 - maxGrants)

/-- `iter_mut().find(p)`, and a change of what it finds. -/
def updateFirst (p : AgentGrant → Bool) (f : AgentGrant → AgentGrant) :
    List AgentGrant → List AgentGrant
  | [] => []
  | grant :: grants => if p grant then f grant :: grants else grant :: updateFirst p f grants

def replaceGrant (grants : List AgentGrant) (updated : AgentGrant) : List AgentGrant :=
  updateFirst (·.id == updated.id) (fun _ => updated) grants

/-! ## Requests and their waits -/

/-- A call of `wait_for_grant` that has released the lock: its copy of the grant and its deadline on
the monotonic clock. -/
structure Waiter where
  grant : AgentGrant
  deadline : Nat

inductive GrantReply where
  | done (result : Except String AgentGrant)
  | waits (waiter : Waiter)

/-- The clocks that a request reads: before it takes the lock, in `refresh_expired`, and when it
begins to wait. `started` and `checked` are of the monotonic clock. -/
structure RequestTimes where
  now : Time
  refreshed : Time
  waiting : Time
  started : Nat
  checked : Nat

/-- The loop of `wait_for_grant` up to its next wait. -/
def waitTurn (waiter : Waiter) (checked : Nat) (grants : List AgentGrant) :
    List AgentGrant × GrantReply :=
  if waiter.grant.status ≠ .pending then (grants, .done (.ok waiter.grant))
  else if waiter.deadline ≤ checked then
    let expired := { waiter.grant with status := .expired }
    -- whether the file can be written does not matter here
    (replaceGrant grants expired, .done (.ok expired))
  else (grants, .waits waiter)

def waitForGrant (times : RequestTimes) (id : Text) (grants : List AgentGrant) :
    List AgentGrant × GrantReply :=
  match grants.find? (·.id == id) with
  | none => (grants, .done (.error "Agent grant request was not found"))
  | some initial =>
    -- `num_seconds` cuts off what is less than a second
    let remaining := (initial.expiresAt - times.waiting).tdiv (seconds 1)
    waitTurn ⟨initial, times.started + remaining.toNat * 1000000000⟩ times.checked grants

inductive WaitResult where
  | poisoned
  | timedOut
  | notified

/-- The loop of `wait_for_grant` after a wait, when the lock is held again. -/
def wake (waiter : Waiter) (result : WaitResult) (checked : Nat) (grants : List AgentGrant) :
    List AgentGrant × GrantReply :=
  match result with
  | .poisoned => (grants, .done (.error "Agent grant wait lock was poisoned"))
  | .timedOut => waitTurn waiter checked grants
  | .notified =>
    match grants.find? (·.id == waiter.grant.id) with
    | some updated => waitTurn { waiter with grant := updated } checked grants
    | none => (grants, .done (.ok { waiter.grant with status := .cancelled, remainingUses := 0 }))

def grantId (uuid : Text) : Text := "grant_" ++ uuid

def newGrant (request : AgentGrantRequest) (requester : GrantRequester) (uuid : Text) (now : Time) :
    AgentGrant where
  id := grantId uuid
  requestId := grantId uuid
  capability := request.capability
  clientName := requester.clientName
  clientVersion := requester.clientVersion
  agentInstanceId := requester.agentInstanceId
  actionFingerprint := request.actionFingerprint
  actionSummary := request.actionSummary
  scope := request.scope
  reason := request.reason
  createdAt := now
  approvedAt := none
  expiresAt := now + seconds (max 1 (min request.expiresInSeconds defaultApprovalTimeoutSecs))
  maxUses := 0
  remainingUses := 0
  resourcePolicy := request.resourcePolicy
  status := .pending
  approvalOption := .once
  nonIdempotent := request.nonIdempotent
  approvalOptions := request.approvalOptions

/-- What the store has for a request: the newest denial that still stands, or else the newest grant
that is still usable. -/
def existingGrant (key : Text) (now : Time) (grants : List AgentGrant) : Option AgentGrant :=
  (grants.reverse.find? fun grant => grantKeyFromGrant grant == key && deniedRecently grant now).or
    (grants.reverse.find? fun grant => grantKeyFromGrant grant == key && isUsable grant now)

def request (times : RequestTimes) (persisted : Except String Unit) (uuid : Text)
    (request : AgentGrantRequest) (requester : GrantRequester) (grants : List AgentGrant) :
    List AgentGrant × GrantReply :=
  match (do validateRequest request; validateApprovalOptions request) with
  | .error error => (grants, .done (.error error))
  | .ok () =>
    let key := grantKey requester.agentInstanceId requester.clientName requester.clientVersion
      request.capability request.actionFingerprint
    let grants := refreshExpired times.refreshed grants
    match existingGrant key times.now grants with
    | some existing =>
      if existing.status = .pending then waitForGrant times existing.id grants
      else (grants, .done (.ok existing))
    | none =>
      let grant := newGrant request requester uuid times.now
      let grants := trimGrants grants ++ [grant]
      match persisted with
      | .error error => (grants, .done (.error error))
      | .ok () => waitForGrant times grant.id grants

/-- The result of an operation whose last step writes the file. -/
def written {α : Type} (persisted : Except String Unit) (a : α) : Except String α :=
  persisted.map fun _ => a

def AgentGrant.approved (option : AgentGrantApprovalOption) (now : Time) (grant : AgentGrant) :
    AgentGrant :=
  { grant with
    approvalOption := option
    status := .approved
    approvedAt := some now
    expiresAt := now + seconds option.ttl
    maxUses := option.maxUses
    remainingUses := option.maxUses }

def approve (now : Time) (persisted : Except String Unit) (requestId : Text)
    (option : AgentGrantApprovalOption) (grants : List AgentGrant) :
    List AgentGrant × Except String AgentGrant :=
  match grants.find? (·.requestId == requestId) with
  | none => (grants, .error "Agent grant request was not found")
  | some grant =>
    if grant.status ≠ .pending then
      (grants, .error ("Agent grant request is no longer pending (" ++ grant.status.debug ++ ")"))
    else if grant.expiresAt ≤ now then
      (updateFirst (·.requestId == requestId) ({ · with status := .expired }) grants,
        written persisted () >>= fun _ =>
          .error "Agent grant request expired before it was approved")
    else if !grant.approvalOptions.contains option then
      (grants, .error "This approval option is not allowed for the requested action")
    else if !(allowedApprovalOptions grant.capability grant.nonIdempotent).contains option then
      (grants, .error "This approval option is not allowed for the requested capability")
    else
      (updateFirst (·.requestId == requestId) (AgentGrant.approved option now) grants,
        written persisted (grant.approved option now))

def AgentGrant.finishPending (now : Time) (status : AgentGrantStatus) (grant : AgentGrant) :
    AgentGrant :=
  if grant.status = .pending then
    if status = .denied then
      { grant with status := status, expiresAt := now + seconds denialCooldownSecs }
    else { grant with status := status }
  else grant

def finishPending (now : Time) (persisted : Except String Unit) (requestId : Text)
    (status : AgentGrantStatus) (grants : List AgentGrant) :
    List AgentGrant × Except String AgentGrant :=
  match grants.find? (·.requestId == requestId) with
  | none => (grants, .error "Agent grant request was not found")
  | some grant =>
    (updateFirst (·.requestId == requestId) (AgentGrant.finishPending now status) grants,
      written persisted (grant.finishPending now status))

def deny (now : Time) (persisted : Except String Unit) (requestId : Text)
    (grants : List AgentGrant) : List AgentGrant × Except String AgentGrant :=
  finishPending now persisted requestId .denied grants

def AgentGrant.revoke (grant : AgentGrant) : AgentGrant :=
  if grant.status.live then { grant with status := .revoked, remainingUses := 0 } else grant

def revoke (persisted : Except String Unit) (grantId : Text) (grants : List AgentGrant) :
    List AgentGrant × Except String AgentGrant :=
  match grants.find? (·.id == grantId) with
  | none => (grants, .error "Agent grant was not found")
  | some grant =>
    (updateFirst (·.id == grantId) AgentGrant.revoke grants, written persisted grant.revoke)

/-! ## Uses -/

def authorizedGrantId (grants : List AgentGrant) (requester : GrantRequester)
    (capability : AgentCapability) (fingerprint : Text) : List Text → Except String Text
  | [] => .error "The approved Agent grant does not cover this capability"
  | id :: ids =>
    match grants.find? (·.id == id) with
    | none => .error "The approved Agent grant no longer exists"
    | some grant =>
      if grant.capability ≠ capability then
        authorizedGrantId grants requester capability fingerprint ids
      else if grant.agentInstanceId ≠ requester.agentInstanceId ∨
          grant.clientName ≠ requester.clientName ∨
          grant.clientVersion ≠ requester.clientVersion ∨
          grant.actionFingerprint ≠ fingerprint ∨ grant.remainingUses = 0 ∨
          grant.status.usable = false then
        .error "The approved Agent grant does not match this action"
      else .ok grant.id

def authorize (now : Time) (requester : GrantRequester) (capability : AgentCapability)
    (fingerprint : Text) (grantIds : List Text) (grants : List AgentGrant) :
    List AgentGrant × Except String Text :=
  let grants := refreshExpired now grants
  (grants, authorizedGrantId grants requester capability fingerprint grantIds)

def hasGrantForCapability (now : Time) (grantIds : List Text) (capability : AgentCapability)
    (grants : List AgentGrant) : Bool :=
  grantIds.any fun id => grants.any fun grant =>
    grant.id == id && grant.capability == capability && decide (0 < grant.remainingUses) &&
      grant.status.usable && decide (now < grant.expiresAt)

/-- The first loop of `reserve_grants`: the places of the grants. -/
def reserveIndexes (grants : List AgentGrant) : List Text → List Nat → Except String (List Nat)
  | [], indexes => .ok indexes
  | id :: ids, indexes =>
    match grants.findIdx? (·.id == id) with
    | none => .error "The approved Agent grant no longer exists"
    | some index =>
      if indexes.contains index then
        .error "The approved Agent grant was provided more than once"
      else
        match grants[index]? with
        | none => .error "The approved Agent grant no longer exists"
        | some grant =>
          if grant.status.usable = false ∨ grant.remainingUses = 0 then
            .error "The approved Agent grant is no longer usable"
          else reserveIndexes grants ids (indexes ++ [index])

def AgentGrant.reserve (grant : AgentGrant) : AgentGrant :=
  { grant with remainingUses := grant.remainingUses - 1, status := .executing }

def reserveGrants (grants : List AgentGrant) (grantIds : List Text) :
    Except String (List AgentGrant) := do
  let indexes ← reserveIndexes grants grantIds []
  return indexes.foldl (fun grants index => grants.modify index AgentGrant.reserve) grants

def markExecuting (persisted : Except String Unit) (grantIds : List Text)
    (grants : List AgentGrant) : List AgentGrant × Except String Unit :=
  match reserveGrants grants grantIds with
  | .error error => (grants, .error error)
  | .ok grants => (grants, persisted)

def AgentGrant.consume (grant : AgentGrant) : AgentGrant :=
  if grant.remainingUses - 1 = 0 then { grant with remainingUses := 0, status := .expired }
  else { grant with remainingUses := grant.remainingUses - 1 }

def checkConsume (params : ConsumeAgentGrantParams) (requester : GrantRequester)
    (grants : List AgentGrant) : Except String AgentGrant :=
  match grants.find? (·.id == params.grantId) with
  | none => .error "The approved Agent grant no longer exists"
  | some grant =>
    if grant.agentInstanceId ≠ requester.agentInstanceId ∨
        grant.clientName ≠ requester.clientName ∨
        grant.clientVersion ≠ requester.clientVersion ∨
        grant.capability ≠ params.capability ∨
        grant.actionFingerprint ≠ params.actionFingerprint then
      .error "The approved Agent grant does not match this action"
    else if grant.status ≠ .approved ∨ grant.remainingUses = 0 then
      .error "The approved Agent grant is no longer usable"
    else .ok grant

def consume (now : Time) (persisted : Except String Unit) (params : ConsumeAgentGrantParams)
    (requester : GrantRequester) (grants : List AgentGrant) :
    List AgentGrant × Except String AgentGrant :=
  let grants := refreshExpired now grants
  match checkConsume params requester grants with
  | .error error => (grants, .error error)
  | .ok grant =>
    (updateFirst (·.id == params.grantId) AgentGrant.consume grants,
      written persisted grant.consume)

def completedGrantStatus (status : AgentGrantStatus) (remainingUses : Nat) : AgentGrantStatus :=
  match status with
  | .succeeded | .failed => if 0 < remainingUses then .approved else .expired
  | other => other

/-- The statuses with which `handle_connection` ends an action. -/
inductive Completion where
  | succeeded
  | failed
  | unknown

def Completion.status : Completion → AgentGrantStatus
  | .succeeded => .succeeded
  | .failed => .failed
  | .unknown => .unknown

/-- A grant that was revoked or expired while the action ran stays so. -/
def AgentGrant.finish (completion : Completion) (grant : AgentGrant) : AgentGrant :=
  if grant.status = .executing then
    { grant with status := completedGrantStatus completion.status grant.remainingUses }
  else grant

def finish (persisted : Except String Unit) (grantIds : List Text) (completion : Completion)
    (grants : List AgentGrant) : List AgentGrant × Except String Unit :=
  (grants.map fun grant => if grantIds.contains grant.id then grant.finish completion else grant,
    persisted)

end AiProxy.Agent
