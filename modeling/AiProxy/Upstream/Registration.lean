import AiProxy.Upstream.Pool

/-!
# The registration of dials

The part of `get_or_connect` that registers the first dial of a key in `pending`, for connections of
either protocol. The outcome of the scan of the entries is chosen by the event. A dial ends in steps of
its own: the result is sent, the guard is dropped, and last the senders of the channel.
-/

namespace AiProxy.Upstream

inductive Stage
  | looping
  /-- The action is `Wait`, on the channel of this call. -/
  | waiting (channel : ReqId)
  /-- The action is `Connect`; `registered` says that the channel is under the key in `pending`. -/
  | dialing (registered : Bool)
  /-- Leaving `get_or_connect` after a dial; the guard is alive. -/
  | leaving (registered : Bool)
  /-- The guard is gone, the senders are not. -/
  | unguarded
  | exited
deriving DecidableEq

/-- `sent` says that the watch channel of the call has received the result of its dial. -/
structure Call where
  key : UpstreamKey
  stage : Stage
  sent : Bool

inductive ScanOutcome
  | acquired
  /-- The entries were all dead, or the call has to queue. -/
  | again
  /-- All entries are busy and there is room for one more. -/
  | grow
  | absent

structure Registry where
  pending : UpstreamKey → Option ReqId
  calls : List Call

inductive RegistryEvent
  | getOrConnect (key : UpstreamKey)
  | scan (i : ReqId) (outcome : ScanOutcome)
  /-- `rx.changed()` returns. -/
  | changed (i : ReqId)
  | connected (i : ReqId)
  /-- The future is dropped, or its wait times out. -/
  | cancel (i : ReqId)
  | dropGuard (i : ReqId)
  | dropSenders (i : ReqId)

/-- The call holds a `PendingConnectGuard` that is armed. -/
def Stage.isRegistered : Stage → Bool
  | .dialing registered => registered
  | .leaving registered => registered
  | _ => false

namespace Registry

def new : Registry := ⟨fun _ => none, []⟩

def move (s : Registry) (i : ReqId) (c : Call) : Registry := { s with calls := s.calls.set i c }

def removePendingEntryIfCurrent (s : Registry) (k : UpstreamKey) (marker : ReqId) : Registry :=
  if s.pending k = some marker then { s with pending := Function.update s.pending k none } else s

/-- Without an entry for its key the call waits for the dial that is registered, or registers its
own. -/
def scan (s : Registry) (i : ReqId) (c : Call) : ScanOutcome → Option Registry
  | .acquired => some (s.move i { c with stage := .exited })
  | .again => some s
  | .grow => some (s.move i { c with stage := .dialing false })
  | .absent =>
    match s.pending c.key with
    | some channel => some (s.move i { c with stage := .waiting channel })
    | none =>
      some ({ s with pending := Function.update s.pending c.key (some i) }.move i
        { c with stage := .dialing true, sent := false })

/-- The channel has a value, or its senders are gone and the waiter cleans up after them. -/
def changed (s : Registry) (i : ReqId) (c : Call) (channel : ReqId) (d : Call) : Option Registry :=
  if d.sent then some (s.move i { c with stage := .looping })
  else if d.stage = .exited then
    some ((s.removePendingEntryIfCurrent c.key channel).move i { c with stage := .looping })
  else none

def stepCall (s : Registry) (i : ReqId) (c : Call) : RegistryEvent → Option Registry
  | .scan _ outcome => if c.stage = .looping then s.scan i c outcome else none
  | .changed _ =>
    match c.stage with
    | .waiting channel => s.calls[channel]?.bind fun d => s.changed i c channel d
    | _ => none
  | .connected _ =>
    match c.stage with
    | .dialing registered =>
      some (s.move i { c with stage := .leaving registered, sent := registered || c.sent })
    | _ => none
  | .cancel _ =>
    match c.stage with
    | .looping => some (s.move i { c with stage := .exited })
    | .waiting _ => some (s.move i { c with stage := .exited })
    | .dialing registered => some (s.move i { c with stage := .leaving registered })
    | _ => none
  | .dropGuard _ =>
    match c.stage with
    | .leaving true =>
      some ((s.move i { c with stage := .unguarded }).removePendingEntryIfCurrent c.key i)
    | .leaving false => some (s.move i { c with stage := .unguarded })
    | _ => none
  | .dropSenders _ =>
    if c.stage = .unguarded then some (s.move i { c with stage := .exited }) else none
  | .getOrConnect _ => none

def step (s : Registry) (e : RegistryEvent) : Option Registry :=
  match e with
  | .getOrConnect key => some { s with calls := s.calls ++ [⟨key, .looping, false⟩] }
  | .scan i _ => s.calls[i]?.bind fun c => s.stepCall i c e
  | .changed i => s.calls[i]?.bind fun c => s.stepCall i c e
  | .connected i => s.calls[i]?.bind fun c => s.stepCall i c e
  | .cancel i => s.calls[i]?.bind fun c => s.stepCall i c e
  | .dropGuard i => s.calls[i]?.bind fun c => s.stepCall i c e
  | .dropSenders i => s.calls[i]?.bind fun c => s.stepCall i c e

end Registry

end AiProxy.Upstream
