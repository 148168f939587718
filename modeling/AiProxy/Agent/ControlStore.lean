import AiProxy.Agent.Control

/-!
# Requests on the grant store

Any number of requests, each handled by a thread of its own, together with the decisions of the user.
A step is one call of one thread; what the environment answers is part of the event.
-/

namespace AiProxy.Agent

variable {P V : Type}

structure Environment (V : Type) where
  now : Time
  times : RequestTimes
  uuid : Text
  persisted : Except String Unit
  config : Except String AgentAccessConfig
  auditWritable : Except String Unit
  userAutomation : Bool
  dispatched : Except ControlError V
  appended : Bool
  fits : Bool
  written : Bool

structure Thread (P V : Type) where
  request : ControlRequest P
  program : Program P V Unit
  reserved : List Text

structure ControlState (P V : Type) where
  store : GrantState
  threads : Nat → Option (Thread P V)

inductive ControlEvent (P V : Type) where
  | connect (thread : Nat) (request : ControlRequest P)
  | turn (thread : Nat) (env : Environment V)
  | wake (thread : Nat) (result : WaitResult) (checked : Nat)
  | user (event : GrantEvent)

def GrantEvent.ofUser : GrantEvent → Bool
  | .list _ | .approve _ _ _ _ | .deny _ _ _ | .revoke _ _ | .clear => true
  | _ => false

def GrantReply.answer? : GrantReply → Option (Except String AgentGrant)
  | .done result => some result
  | .waits _ => none

/-- A call of a thread: the store after it, and its answer unless it waits. -/
def perform (thread : Nat) (env : Environment V) (s : GrantState) :
    (call : ControlCall P) → Option (GrantState × Option (call.Answer V))
  | .hasGrantForCapability grantIds capability =>
    some (s, some (hasGrantForCapability env.now grantIds capability s.grants))
  | .authorize requester capability fingerprint grantIds =>
    (grantStep s (.authorize env.now requester capability fingerprint grantIds)).map fun s' =>
      (s', some (authorize env.now requester capability fingerprint grantIds s.grants).2)
  | .request params requester =>
    (grantStep s (.request thread env.times env.persisted env.uuid params requester)).map fun s' =>
      (s', (request env.times env.persisted env.uuid params requester s.grants).2.answer?)
  | .consume params requester =>
    (grantStep s (.consume env.now env.persisted params requester)).map fun s' =>
      (s', some (consume env.now env.persisted params requester s.grants).2)
  | .markExecuting grantIds =>
    (grantStep s (.markExecuting env.persisted grantIds)).map fun s' =>
      (s', some (markExecuting env.persisted grantIds s.grants).2)
  | .finish grantIds completion =>
    (grantStep s (.finish env.persisted grantIds completion)).map fun s' =>
      (s', some (finish env.persisted grantIds completion s.grants).2)
  | .readConfig => some (s, some env.config)
  | .checkAudit => some (s, some env.auditWritable)
  | .requiresUserAutomation _ => some (s, some env.userAutomation)
  | .dispatch _ _ => some (s, some env.dispatched)
  | .appendAudit => some (s, some env.appended)
  | .capResponseSize => some (s, some env.fits)
  | .writeResponse => some (s, some env.written)

def reservedBy (s : GrantState) : ControlCall P → List Text
  | .markExecuting grantIds =>
    match reserveGrants s.grants grantIds with
    | .ok _ => grantIds
    | .error _ => []
  | _ => []

def Thread.resume (t : Thread P V) (s : GrantState) (call : ControlCall P)
    (k : call.Answer V → Program P V Unit) (answer : Option (call.Answer V)) : Thread P V :=
  { t with
    program := match answer with
      | some r => k r
      | none => .call call k
    reserved := t.reserved ++ reservedBy s call }

def ControlState.set (s : ControlState P V) (store : GrantState) (thread : Nat) (t : Thread P V) :
    ControlState P V :=
  ⟨store, Function.update s.threads thread (some t)⟩

section Step

variable (fingerprint : ControlOperation P → Text) (toData : AgentGrant → V) (token : Text)

def ControlState.turn (s : ControlState P V) (thread : Nat) (t : Thread P V)
    (env : Environment V) : Option (ControlState P V) :=
  match t.program with
  | .done _ => none
  | .call call k =>
    (perform thread env s.store call).map fun r =>
      s.set r.1 thread (t.resume s.store call k r.2)

def ControlState.wake (s : ControlState P V) (thread : Nat) (t : Thread P V) (waiter : Waiter)
    (result : WaitResult) (checked : Nat) : Option (ControlState P V) :=
  match t.program with
  | .call (.request params requester) k =>
    (grantStep s.store (.wake thread result checked)).map fun store =>
      s.set store thread (t.resume s.store (.request params requester) k
        (Agent.wake waiter result checked s.store.grants).2.answer?)
  | _ => none

def controlStep (s : ControlState P V) : ControlEvent P V → Option (ControlState P V)
  | .connect thread request =>
    match s.threads thread with
    | none => some (s.set s.store thread
        ⟨request, handleConnection fingerprint toData token request, []⟩)
    | some _ => none
  | .turn thread env => (s.threads thread).bind fun t => s.turn thread t env
  | .wake thread result checked =>
    (s.threads thread).bind fun t => (s.store.waiters thread).bind fun waiter =>
      s.wake thread t waiter result checked
  | .user event =>
    if event.ofUser then (grantStep s.store event).map fun store => { s with store := store }
    else none

end Step

def ControlState.start : ControlState P V := ⟨.empty, fun _ => none⟩

/-- The status or the remaining uses of a grant differ. -/
def Changed (before after : AgentGrant) : Prop :=
  after.status ≠ before.status ∨ after.remainingUses ≠ before.remainingUses

def ControlCall.refreshesAt (env : Environment V) : ControlCall P → Option Time
  | .authorize _ _ _ _ | .consume _ _ => some env.now
  | .request _ _ => some env.times.refreshed
  | _ => none

def ExpiredBy (t : Thread P V) (before after : AgentGrant) : ControlEvent P V → Prop
  | .turn _ env => ∃ call k now, t.program = .call call k ∧ call.refreshesAt env = some now ∧
      before.status.live = true ∧ before.expiresAt ≤ now ∧ after.status = .expired ∧
        after.remainingUses = 0
  | _ => False

/-- The request asks for the grant: it has its key, or waits for it. -/
def ControlState.AsksFor (s : ControlState P V) (thread : Nat) (request : ControlRequest P)
    (grant : AgentGrant) : Prop :=
  ∃ params, request.operation = .requestAgentGrant params ∧
    (grantKeyFromGrant grant = grantKey request.requester.agentInstanceId
        request.requester.clientName request.requester.clientVersion params.capability
        params.actionFingerprint ∨
      ∃ waiter, s.store.waiters thread = some waiter ∧ waiter.grant.id = grant.id)

def Consumes (request : ControlRequest P) (grant : AgentGrant) : Prop :=
  ∃ params, request.operation = .consumeAgentGrant params ∧ params.grantId = grant.id

def ControlEvent.thread? : ControlEvent P V → Option Nat
  | .connect thread _ | .turn thread _ | .wake thread _ _ => some thread
  | .user _ => none

section Contract

variable (fingerprint : ControlOperation P → Text) (toData : AgentGrant → V) (token : Text)

/-- A step of a request changes a grant only when the grant's time is over, or the request asks for
the grant, consumes it or has reserved it. -/
def OwnGrantsOnly (s : ControlState P V) (e : ControlEvent P V) : Prop :=
  ∀ thread t s' t', e.thread? = some thread → s.threads thread = some t →
    controlStep fingerprint toData token s e = some s' → s'.threads thread = some t' →
    ∀ before ∈ s.store.grants, ∀ after ∈ s'.store.grants, after.id = before.id →
      Changed before after →
        ExpiredBy t before after e ∨ s.AsksFor thread t.request before ∨
          Consumes t.request before ∨ before.id ∈ t'.reserved

/-- Of the grants that a request names, those that are executing when it completes them are grants that
it has reserved, or asks for, or consumes. -/
def FinishesOwn (s : ControlState P V) (e : ControlEvent P V) : Prop :=
  ∀ thread env t grantIds completion k, e = .turn thread env → s.threads thread = some t →
    t.program = .call (.finish grantIds completion) k →
    ∀ grant ∈ s.store.grants, grant.id ∈ grantIds → grant.status = .executing →
      s.AsksFor thread t.request grant ∨ Consumes t.request grant ∨ grant.id ∈ t.reserved

end Contract

end AiProxy.Agent
