import AiProxy.Agent.GrantStore
import AiProxy.Lib.Resumption

/-!
# Control requests

`handle_connection` of `agent_control.rs` as a program: its calls are those of the grant store, which
hold the store's lock, and those whose answers come from outside (configuration, audit log, rule
database, the action itself, the client). The lock that lets one write run at a time is left out.

Parameters of operations that nothing here reads are of a type `P`, the data of an answer of a type `V`.
The fingerprint of an operation is a function, in the source the SHA-256 of its JSON text.
-/

namespace AiProxy.Agent

open Mcp (trim byteLen)
open Utf8 (encode)

inductive ControlPermission where
  | controlCapture
  | controlSystemProxy
  | manageCertificates
  | deleteSessions
  | sendRequests
  | manageRules
  | manageAutomation
  | manageUserAutomation
  | manageScripts
  | manageCrossHostMappings
  | manageProxiedVerification
  | manageGlobalAutomation
  deriving DecidableEq

def capabilityForControlPermission : ControlPermission → AgentCapability
  | .controlCapture => .controlCapture
  | .controlSystemProxy => .controlSystemProxy
  | .manageCertificates => .manageCertificates
  | .deleteSessions => .deleteSessions
  | .sendRequests => .sendRequests
  | .manageRules => .manageRules
  | .manageAutomation => .manageAutomation
  | .manageUserAutomation => .manageUserAutomation
  | .manageScripts => .manageScripts
  | .manageCrossHostMappings => .manageCrossHostMappings
  | .manageProxiedVerification => .manageProxiedVerification
  | .manageGlobalAutomation => .manageGlobalAutomation

/-- The name of a permission is the name of its capability. -/
def permissionName (permission : ControlPermission) : String :=
  (capabilityForControlPermission permission).asStr

structure SslProxyEntryDto where
  pattern : Text
  enabled : Bool

structure SslProxyingSettingsDto where
  includeEnabled : Bool
  excludeEnabled : Bool
  include' : List SslProxyEntryDto
  exclude : List SslProxyEntryDto

structure ConfigureWorkspaceParams where
  workspaceId : Option Text := none
  proxyPort : Option Nat := none
  sslEnabled : Option Bool := none
  http2Enabled : Option Bool := none
  sslBlindHosts : Option (List Text) := none
  sslProxying : Option SslProxyingSettingsDto := none
  applyNow : Option Bool := none

inductive ControlOperation (P : Type) where
  | getStatus
  | readDiagnosticLogs (params : P)
  | configureWorkspace (params : ConfigureWorkspaceParams)
  | startCapture (workspaceId : Option Text)
  | stopCapture (workspaceId : Option Text)
  | setSystemProxy (params : P)
  | generateCertificate (params : P)
  | openCertificateInstaller
  | removeCertificateTrust
  | clearSessions
  | deleteSessions (sessionIds : List Text)
  | replaySession (params : P)
  | createAgentRule (params : P)
  | listAgentRules
  | removeAgentRules (params : P)
  | listAutomationResources (params : P)
  | getAutomationResource (params : P)
  | validateAutomationPlan (params : P)
  | applyAutomationPlan (params : P)
  | verifyAutomationChange (mode : Text) (params : P)
  | getAutomationChange (params : P)
  | rollbackAutomationChange (params : P)
  | clearAgentAutomation (params : P)
  | requestAgentGrant (params : AgentGrantRequest)
  | consumeAgentGrant (params : ConsumeAgentGrantParams)

namespace ControlOperation

variable {P : Type}

def requiredPermissions : ControlOperation P → List ControlPermission
  | getStatus | readDiagnosticLogs _ | requestAgentGrant _ | consumeAgentGrant _ => []
  | configureWorkspace _ | startCapture _ | stopCapture _ => [.controlCapture]
  | setSystemProxy _ => [.controlSystemProxy]
  | generateCertificate _ | openCertificateInstaller | removeCertificateTrust =>
    [.manageCertificates]
  | clearSessions | deleteSessions _ => [.deleteSessions]
  | replaySession _ => [.sendRequests]
  | createAgentRule _ | listAgentRules | removeAgentRules _ => [.manageRules]
  | verifyAutomationChange mode _ =>
    if mode = "proxy" then [.manageAutomation, .manageProxiedVerification]
    else [.manageAutomation]
  | listAutomationResources _ | getAutomationResource _ | validateAutomationPlan _
  | applyAutomationPlan _ | getAutomationChange _ | rollbackAutomationChange _
  | clearAgentAutomation _ => [.manageAutomation]

def isWrite : ControlOperation P → Bool
  | getStatus | readDiagnosticLogs _ | listAgentRules | listAutomationResources _
  | getAutomationResource _ | validateAutomationPlan _ | getAutomationChange _
  | requestAgentGrant _ | consumeAgentGrant _ => false
  | _ => true

end ControlOperation

/-! ## Requests, errors, configuration -/

structure ControlRequest (P : Type) where
  protocolVersion : Nat
  requestId : Text
  token : Text
  clientName : Option Text := none
  clientVersion : Option Text := none
  agentInstanceId : Option Text := none
  grantIds : List Text := []
  actionFingerprint : Option Text := none
  operation : ControlOperation P

/-- `details` has the capabilities that an `APPROVAL_REQUIRED` error names. -/
structure ControlError where
  code : String
  message : String
  details : Option (List AgentCapability) := none

inductive AgentGrantRequestPolicy where
  | deny
  | ask
  deriving DecidableEq

structure AgentAccessConfig where
  enabled : Bool
  permissions : ControlPermission → Bool
  grantRequestPolicy : AgentCapability → Option AgentGrantRequestPolicy

def controlPermissionEnabled (config : AgentAccessConfig) (permission : ControlPermission) : Bool :=
  config.permissions permission

def controlProtocolVersion : Nat := 2

def tokenMatches (expected provided : Text) : Bool :=
  (encode expected).length == (encode provided).length &&
    ((encode expected).zip (encode provided)).foldl (fun acc pair => acc ||| (pair.1 ^^^ pair.2)) 0 ==
      0

def auditIdentity (value : Option Text) : Text := (value.getD "unknown").take 128

def ControlRequest.instanceId {P : Type} (request : ControlRequest P) : Option Text :=
  (request.agentInstanceId.map trim).filter fun value => !value.isEmpty && byteLen value ≤ 128

def ControlRequest.requester {P : Type} (request : ControlRequest P) : GrantRequester where
  clientName := auditIdentity request.clientName
  clientVersion := auditIdentity request.clientVersion
  agentInstanceId := request.instanceId.getD "unknown"

structure AuthorizedGrants where
  grantIds : List Text := []
  capabilities : List AgentCapability := []

structure Preflight where
  config : AgentAccessConfig
  grants : AuthorizedGrants

section Checks

variable {P : Type}

def ensureGrantRequestAllowed (config : AgentAccessConfig) (capability : AgentCapability) :
    Except ControlError Unit :=
  if config.grantRequestPolicy capability = some .ask then .ok ()
  else .error { code := "GRANT_POLICY_DENIED", message :=
    "This action is not configured to request temporary " ++ capability.asStr ++
      " access. Change the request policy in AIProxy Settings > Agent Access." }

def requiredPermissionsFor (operation : ControlOperation P) (extra : List ControlPermission) :
    List ControlPermission :=
  extra.foldl (fun permissions permission =>
    if permissions.contains permission then permissions else permissions ++ [permission])
    operation.requiredPermissions

def ensurePermission (config : AgentAccessConfig) (operation : ControlOperation P)
    (extra : List ControlPermission) : Except ControlError Unit :=
  (requiredPermissionsFor operation extra).forM fun permission =>
    if controlPermissionEnabled config permission then .ok ()
    else if config.grantRequestPolicy (capabilityForControlPermission permission) ≠ some .ask then
      .error { code := "CONTROL_PERMISSION_DENIED", message :=
        "Agent control permission " ++ permissionName permission ++
          " is disabled in AIProxy Settings > Agent Access." }
    else .ok ()

def invalidArgument (message : String) : Except ControlError Unit :=
  .error { code := "INVALID_ARGUMENT", message := message }

def hasWorkspaceChange (params : ConfigureWorkspaceParams) : Bool :=
  params.proxyPort.isSome || params.sslEnabled.isSome || params.http2Enabled.isSome ||
    params.sslBlindHosts.isSome || params.sslProxying.isSome

def validateId (id : Text) (field : String) : Except ControlError Unit :=
  if (trim id).isEmpty || 128 < byteLen id then invalidArgument (field ++ " must be 1-128 bytes.")
  else .ok ()

def validateWorkspace (params : ConfigureWorkspaceParams) : Except ControlError Unit := do
  if !hasWorkspaceChange params then
    invalidArgument "configureWorkspace requires at least one workspace setting to change."
  if params.proxyPort = some 0 then
    invalidArgument "proxyPort must be between 1 and 65535."
  if let some id := params.workspaceId then
    validateId id "workspaceId"
  if params.sslBlindHosts.any (500 < ·.length) then
    invalidArgument "sslBlindHosts accepts at most 500 entries."
  if params.sslBlindHosts.any (·.any fun host => (trim host).isEmpty) then
    invalidArgument "sslBlindHosts must not contain empty entries."
  if let some policy := params.sslProxying then
    if 500 < policy.include'.length || 500 < policy.exclude.length then
      invalidArgument "SSL proxying include/exclude lists accept at most 500 entries each."
    if (policy.include' ++ policy.exclude).any fun entry => 1024 < byteLen entry.pattern then
      invalidArgument "An SSL proxying pattern exceeds the 1024 byte limit."
    if (policy.include' ++ policy.exclude).any fun entry => (trim entry.pattern).isEmpty then
      invalidArgument "SSL proxying patterns must not be empty."

def validateOperation : ControlOperation P → Except ControlError Unit
  | .configureWorkspace params => validateWorkspace params
  | .startCapture workspaceId | .stopCapture workspaceId =>
    match workspaceId with
    | some id => validateId id "workspaceId"
    | none => .ok ()
  | .deleteSessions sessionIds =>
    if sessionIds.isEmpty || 200 < sessionIds.length then
      invalidArgument "deleteSessions accepts 1-200 session ids."
    else if sessionIds.any fun id => (trim id).isEmpty || 256 < byteLen id then
      invalidArgument "Each session id must be 1-256 bytes."
    else .ok ()
  | _ => .ok ()

def approvalRequiredError (capabilities : List AgentCapability) : ControlError where
  code := "APPROVAL_REQUIRED"
  message := "This Agent control action needs a short-lived desktop approval before it can run."
  details := some capabilities

end Checks

/-- The points at which the handling of a request meets the rest of the system. -/
inductive ControlCall (P : Type) where
  | hasGrantForCapability (grantIds : List Text) (capability : AgentCapability)
  | authorize (requester : GrantRequester) (capability : AgentCapability) (fingerprint : Text)
      (grantIds : List Text)
  | request (params : AgentGrantRequest) (requester : GrantRequester)
  | consume (params : ConsumeAgentGrantParams) (requester : GrantRequester)
  | markExecuting (grantIds : List Text)
  | finish (grantIds : List Text) (completion : Completion)
  | readConfig
  | checkAudit
  /-- Does the operation touch rules of the user? -/
  | requiresUserAutomation (operation : ControlOperation P)
  | dispatch (operation : ControlOperation P) (preflight : Preflight)
  | appendAudit
  /-- Is the response within the size limit? -/
  | capResponseSize
  | writeResponse

variable {P V : Type}

@[reducible] def ControlCall.Answer (V : Type) : ControlCall P → Type
  | .hasGrantForCapability _ _ => Bool
  | .authorize _ _ _ _ => Except String Text
  | .request _ _ => Except String AgentGrant
  | .consume _ _ => Except String AgentGrant
  | .markExecuting _ => Except String Unit
  | .finish _ _ => Except String Unit
  | .readConfig => Except String AgentAccessConfig
  | .checkAudit => Except String Unit
  | .requiresUserAutomation _ => Bool
  | .dispatch _ _ => Except ControlError V
  | .appendAudit => Bool
  | .capResponseSize => Bool
  | .writeResponse => Bool

abbrev Program (P V : Type) := Resumption (ControlCall P) (ControlCall.Answer V)

abbrev Control (P V : Type) := ExceptT ControlError (Program P V)

def Control.ask (call : ControlCall P) : Control P V (call.Answer V) :=
  ExceptT.lift (Resumption.await call)

/-- An error of the grant store, or of a file, becomes one of the control protocol. -/
def Control.orFail {α : Type} (code : String) (describe : String → String) :
    Except String α → Control P V α
  | .ok a => pure a
  | .error error => throw { code := code, message := describe error }

def Control.ofExcept {α : Type} : Except ControlError α → Control P V α
  | .ok a => pure a
  | .error error => throw error

/-! ## The program -/

section Program

/-- The loop of `ensure_approved_grants` over the capabilities that are not switched on. -/
def authorizeMissing (config : AgentAccessConfig) (requester : GrantRequester) (expected : Text)
    (grantIds : List Text) :
    List AgentCapability → AuthorizedGrants → List AgentCapability →
      Control P V (AuthorizedGrants × List AgentCapability)
  | [], authorized, notRequested => pure (authorized, notRequested)
  | capability :: capabilities, authorized, notRequested => do
    Control.ofExcept (ensureGrantRequestAllowed config capability)
    let known : Bool ← Control.ask (.hasGrantForCapability grantIds capability)
    if known = false then
      authorizeMissing config requester expected grantIds capabilities authorized
        (notRequested ++ [capability])
    else
      let answer ← Control.ask (.authorize requester capability expected grantIds)
      let id ← Control.orFail "APPROVAL_INVALID" (fun error => error) answer
      authorizeMissing config requester expected grantIds capabilities
        { grantIds := if authorized.grantIds.contains id then authorized.grantIds
            else authorized.grantIds ++ [id]
          capabilities := capability :: authorized.capabilities } notRequested

variable (fingerprint : ControlOperation P → Text)

/-- What `ensure_approved_grants` asks the grant store for. -/
structure ApprovalNeed where
  requester : GrantRequester
  expected : Text
  missing : List AgentCapability

/-- The checks of `ensure_approved_grants` before it asks the store; `none` when every permission is
switched on. -/
def approvalNeed (config : AgentAccessConfig) (request : ControlRequest P)
    (extra : List ControlPermission) : Except ControlError (Option ApprovalNeed) :=
  let missing := ((requiredPermissionsFor request.operation extra).filter fun permission =>
    !controlPermissionEnabled config permission).map capabilityForControlPermission
  if missing.isEmpty then .ok none
  else if request.grantIds.isEmpty then .error (approvalRequiredError missing)
  else
    match request.instanceId with
    | none => .error { code := "APPROVAL_REQUIRED", message :=
        "This MCP sidecar did not provide a stable instance id, so temporary approval cannot be " ++
          "bound safely. Restart the client and AIProxy." }
    | some agentInstanceId =>
      let expected := fingerprint request.operation
      if request.actionFingerprint ≠ some expected then
        .error { code := "APPROVAL_FINGERPRINT_MISMATCH", message :=
          "The approved Agent request no longer matches the action parameters. Ask the user to " ++
            "approve the changed action again." }
      else
        .ok (some ⟨{ request.requester with agentInstanceId := agentInstanceId }, expected, missing⟩)

def ensureApprovedGrants (config : AgentAccessConfig) (request : ControlRequest P)
    (extra : List ControlPermission) : Control P V AuthorizedGrants := do
  match ← Control.ofExcept (approvalNeed fingerprint config request extra) with
  | none => return {}
  | some need =>
    let r ← authorizeMissing config need.requester need.expected request.grantIds need.missing {} []
    Control.ofExcept (if r.2.isEmpty then .ok r.1 else .error (approvalRequiredError r.2))

def checkEnvelope (token : Text) (request : ControlRequest P) : Except ControlError Unit :=
  if request.protocolVersion ≠ controlProtocolVersion then
    .error { code := "CONTROL_UNAVAILABLE", message :=
      "Unsupported Agent control protocol version " ++ toString request.protocolVersion ++
        ". This AIProxy build supports version " ++ toString controlProtocolVersion ++
        "; update the desktop app and MCP sidecar together." }
  else if (trim request.requestId).isEmpty || 128 < byteLen request.requestId then
    .error { code := "INVALID_ARGUMENT", message := "Control requestId must be 1-128 bytes." }
  else if !tokenMatches token request.token then
    .error { code := "CONTROL_PERMISSION_DENIED", message :=
      "The AIProxy control token is invalid. Restart AIProxy and retry." }
  else .ok ()

def checkEnabled (config : AgentAccessConfig) : Except ControlError Unit :=
  if config.enabled then .ok ()
  else .error { code := "CONTROL_PERMISSION_DENIED", message :=
    "Agent Access is disabled. Enable it in AIProxy Settings > Agent Access." }

/-- A write needs an audit log that can be written. -/
def checkAudit (operation : ControlOperation P) : Control P V Unit :=
  if operation.isWrite then do
    let writable ← Control.ask .checkAudit
    Control.orFail "AUDIT_UNAVAILABLE" (fun error =>
      "The Agent audit log is not writable, so the control action was not executed: " ++ error)
      writable
  else pure ()

def preflightRequestWithExtra (token : Text) (request : ControlRequest P)
    (extra : List ControlPermission) : Control P V Preflight := do
  Control.ofExcept (checkEnvelope token request)
  let answer ← Control.ask .readConfig
  let config ← Control.orFail "CONTROL_PERMISSION_DENIED"
    (fun error => "Agent Access is not available: " ++ error) answer
  Control.ofExcept (checkEnabled config)
  match request.operation with
  | .requestAgentGrant params =>
    Control.ofExcept ((ensureGrantRequestAllowed config params.capability).map fun _ => ⟨config, {}⟩)
  | .consumeAgentGrant params =>
    Control.ofExcept ((ensureGrantRequestAllowed config params.capability).map fun _ => ⟨config, {}⟩)
  | operation =>
    Control.ofExcept (ensurePermission config operation extra)
    let grants ← ensureApprovedGrants fingerprint config request extra
    Control.ofExcept (validateOperation operation)
    checkAudit operation
    return ⟨config, grants⟩

/-- The grants that a request needs are reserved before it runs. -/
def reserve (grantIds : List Text) : Control P V Unit :=
  if grantIds.isEmpty then pure ()
  else do
    let answer ← Control.ask (.markExecuting grantIds)
    Control.orFail "APPROVAL_INVALID" (fun error => error) answer

def executeAuthorizedRequest (request : ControlRequest P) (preflight : Preflight) :
    Control P V V := do
  reserve preflight.grants.grantIds
  let result ← Control.ask (.dispatch request.operation preflight)
  Control.ofExcept result

/-- Only plans and rollbacks look at the rules of the user. -/
def operationRequiresUserAutomation (operation : ControlOperation P) : Control P V Bool :=
  match operation with
  | .applyAutomationPlan _ | .rollbackAutomationChange _ =>
    Control.ask (.requiresUserAutomation operation)
  | _ => pure false

def conditionalPermissions (operation : ControlOperation P) :
    Control P V (List ControlPermission) := do
  let required ← operationRequiresUserAutomation operation
  return if required = true then [.manageUserAutomation] else []

/-- `toData` makes the data of the answer from a grant. -/
def executeRequest (toData : AgentGrant → V) (token : Text) (request : ControlRequest P) :
    Control P V V :=
  match request.operation with
  | .requestAgentGrant params => do
    let _ ← preflightRequestWithExtra fingerprint token request []
    let answer ← Control.ask (.request params request.requester)
    let grant ← Control.orFail "GRANT_REQUEST_FAILED" (fun error => error) answer
    return toData grant
  | .consumeAgentGrant params => do
    let _ ← preflightRequestWithExtra fingerprint token request []
    let answer ← Control.ask (.consume params request.requester)
    let grant ← Control.orFail "GRANT_CONSUME_FAILED" (fun error => error) answer
    return toData grant
  | operation => do
    let extra ← conditionalPermissions operation
    if operation.isWrite then
      let _ ← preflightRequestWithExtra fingerprint token request extra
      -- the write lock is taken here, and everything is checked again
      let preflight ← preflightRequestWithExtra fingerprint token request extra
      executeAuthorizedRequest request preflight
    else
      let preflight ← preflightRequestWithExtra fingerprint token request extra
      executeAuthorizedRequest request preflight

/-- The status with which the grants of a request are completed. `error` is that of the response. -/
def completionOf (responseWritten actionSucceeded : Bool) (error : Option ControlError) :
    Completion :=
  if responseWritten && error.isNone then .succeeded
  else if responseWritten && actionSucceeded && error.any (·.code == "AUDIT_UNAVAILABLE") then
    .unknown
  else if responseWritten then .failed
  else .unknown

def resultTooLarge : ControlError where
  code := "RESULT_TOO_LARGE"
  message := "The AIProxy control response exceeds the configured size limit. Narrow the request " ++
    "and retry."

def auditUnavailable : ControlError where
  code := "AUDIT_UNAVAILABLE"
  message := "The action completed, but its Agent audit entry could not be written. Check AIProxy " ++
    "state before retrying a non-idempotent action, and fix the data-directory permissions."

def appendControlAudit (request : ControlRequest P) : Program P V Bool :=
  if request.operation.isWrite then Resumption.await ControlCall.appendAudit else pure true

def finishGrants (request : ControlRequest P) (completion : Completion) : Program P V Unit :=
  if request.grantIds.isEmpty then pure ()
  else do
    let _ ← Resumption.await (ControlCall.finish request.grantIds completion)
    pure ()

def respond (request : ControlRequest P) (result : Except ControlError V) : Program P V Unit := do
  let appended ← appendControlAudit request
  let fits : Bool ← Resumption.await ControlCall.capResponseSize
  let written : Bool ← Resumption.await ControlCall.writeResponse
  let failed : Option ControlError := match result with
    | .ok _ => if appended = true then none else some auditUnavailable
    | .error error => some error
  let failed := if fits = true then failed else some resultTooLarge
  finishGrants request (completionOf written result.isOk failed)

def handleConnection (toData : AgentGrant → V) (token : Text) (request : ControlRequest P) :
    Program P V Unit := do
  let result ← (executeRequest fingerprint toData token request).run
  respond request result

end Program

end AiProxy.Agent
