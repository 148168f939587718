import AiProxy.Lib.Notify
import AiProxy.Lib.Run

/-!
# The upstream HTTP/1 connection pool

`get_or_connect` and the operations that race with it, as one machine. A request is a call of
`get_or_connect` together with the lease it returns; its phase is the place where its code stands. A
step is what one task does between two points where another task can run: the `connections` lock is
held from `lock` to the decision at the end of the scan, and the sender mutex of a connection from its
acquisition to `unlock`, one step after the notification that `H1Lease::drop` sends first.

Whether an idle connection has expired, when a dial ends and when a transport closes are chosen by the
events.
-/

namespace AiProxy.Upstream

abbrev ReqId := Nat
abbrev ConnId := Nat

def maxH1ConnectionsPerKey : Nat := 4

structure UpstreamKey where
  scheme : String
  host : String
  port : UInt16
deriving DecidableEq

/-- The task that drives a connection: it is `finished` between the end of the transport and its
own `evict_if_same`. -/
inductive Driver
  | running
  | finished
  | gone
deriving DecidableEq

structure H1PooledConnection where
  key : UpstreamKey
  locked : Bool
  closed : Bool
  senderClosed : Bool
  driver : Driver

namespace H1PooledConnection

/-- A connection as it is registered: its driver may have ended, and marked it closed, before. -/
def new (key : UpstreamKey) (senderClosed : Bool) (driver : Driver) : H1PooledConnection :=
  ⟨key, false, driver != .running, senderClosed, driver⟩

def live (x : H1PooledConnection) : Bool := !x.closed && !x.senderClosed

/-- Live, and nobody holds the sender. -/
def free (x : H1PooledConnection) : Bool := x.live && !x.locked

def markClosed (x : H1PooledConnection) : H1PooledConnection := { x with closed := true }

def abortDriver (x : H1PooledConnection) : H1PooledConnection :=
  { x with driver := if x.driver = .running then .gone else x.driver }

def closeAndAbort (x : H1PooledConnection) : H1PooledConnection := x.markClosed.abortDriver

/-- `expired` says that the idle time has reached the limit. -/
def isAliveAndNotIdle (x : H1PooledConnection) (expired : Bool) : Bool :=
  if x.closed then false
  else if x.locked then true
  else if x.senderClosed then false
  else !expired

/-- Whether the sender was acquired, and the connection afterwards. -/
def tryAcquire (x : H1PooledConnection) : Bool × H1PooledConnection :=
  if x.closed then (false, x)
  else if x.locked then (false, x)
  else if x.senderClosed then (false, x.markClosed)
  else (true, { x with locked := true })

end H1PooledConnection

/-- The first dial of a key is registered in `pending`; a dial that adds a connection to a key that
has some is reserved in `h1_connecting`. -/
inductive Dial
  | first
  | growth
deriving DecidableEq

inductive Wake
  | one
  | all
deriving DecidableEq

/-- The watch channel of a first dial, as its receivers see it: a value that was sent stays visible
after the sender is gone. -/
inductive Chan
  | unsent
  | sent
  | closed

inductive Phase
  /-- At the head of the loop, waiting for the `connections` lock. -/
  | checking
  /-- In `entries.retain`; the entries still to look at. -/
  | retaining (todo : List ConnId)
  /-- In the loop over `try_acquire`; the entries still to try. -/
  | trying (todo : List ConnId)
  /-- The action is `Queue`; `notified()` has not been polled. -/
  | queueing
  | parked
  /-- Woken in the queue, not polled since. -/
  | woken (by_ : Wake)
  /-- The action is `Wait`, on the channel of this dialler. -/
  | waiting (dialler : ReqId)
  | dialing (d : Dial)
  /-- The new connection is registered; `notify_waiters` comes next. -/
  | announcing (d : Dial) (c : ConnId)
  | acquiring (d : Dial) (c : ConnId)
  /-- The new connection could not be acquired; in `evict_if_same`. -/
  | evicting (d : Dial) (c : ConnId)
  /-- Leaving `get_or_connect`; the guards of the dial have not been dropped. -/
  | returning (d : Dial) (lease : Option ConnId)
  | leased (c : ConnId)
  /-- `H1Lease::drop` has notified; the mutex guard has not been dropped. -/
  | releasing (c : ConnId)
  | finished
deriving DecidableEq

/-- `wakeup` records that a notification reached the request and that the check it leads to has not
ended. -/
structure Request where
  key : UpstreamKey
  phase : Phase
  wakeup : Bool
  chan : Chan

namespace Request

def new (key : UpstreamKey) : Request := ⟨key, .checking, false, .unsent⟩

/-- The check has ended and the request goes on in `phase`. -/
def decided (r : Request) (phase : Phase) : Request := { r with phase := phase, wakeup := false }

def goto (r : Request) (phase : Phase) : Request := { r with phase := phase }

def wake (r : Request) (by_ : Wake) : Request := { r with phase := .woken by_, wakeup := true }

end Request

/-- `UpstreamConnectionPool` with the calls in it. `writer` is the request that holds the
`connections` lock from one step to the next. -/
structure Pool where
  connections : UpstreamKey → Option (List ConnId)
  pending : UpstreamKey → Option ReqId
  h1Connecting : UpstreamKey → Nat
  h1Notify : Notify ReqId
  writer : Option ReqId
  conns : List H1PooledConnection
  reqs : List Request

namespace Pool

def new : Pool := ⟨fun _ => none, fun _ => none, fun _ => 0, Notify.new, none, [], []⟩

def entries (s : Pool) (k : UpstreamKey) : List ConnId := (s.connections k).getD []

def move (s : Pool) (i : ReqId) (r : Request) : Pool := { s with reqs := s.reqs.set i r }

def modifyConn (s : Pool) (c : ConnId) (f : H1PooledConnection → H1PooledConnection) : Pool :=
  { s with conns := s.conns.modify c f }

def notifyOne (s : Pool) : Pool :=
  { s with
    h1Notify := s.h1Notify.notifyOne.2
    reqs := match s.h1Notify.notifyOne.1 with
      | some w => s.reqs.modify w fun r => r.wake .one
      | none => s.reqs }

def notifyWaiters (s : Pool) : Pool :=
  { s with
    h1Notify := s.h1Notify.notifyWaiters
    reqs := s.reqs.map fun r => if r.phase = .parked then r.wake .all else r }

/-- `entries.retain` on the entries of `k`: what goes is closed and its driver aborted. -/
def retain (s : Pool) (k : UpstreamKey) (keep : ConnId → Bool) : Pool :=
  { s with
    connections := Function.update s.connections k ((s.connections k).map (·.filter keep))
    conns := s.conns.mapIdx fun c x =>
      if c ∈ s.entries k ∧ keep c = false then x.closeAndAbort else x }

def removeKey (s : Pool) (k : UpstreamKey) : Pool :=
  { s with connections := Function.update s.connections k none }

def removeIfEmpty (s : Pool) (k : UpstreamKey) : Pool :=
  if s.connections k = some [] then s.removeKey k else s

/-- Removal of `marker`'s own registration, and of no other. -/
def removePendingEntryIfCurrent (s : Pool) (k : UpstreamKey) (marker : ReqId) : Pool :=
  if s.pending k = some marker then { s with pending := Function.update s.pending k none } else s

/-- The guard of a dial is dropped: `PendingConnectGuard` for a first dial, `H1ConnectingGuard` for
a growth dial. -/
def dropGuard (s : Pool) (i : ReqId) (k : UpstreamKey) : Dial → Pool
  | .first => s.removePendingEntryIfCurrent k i
  | .growth =>
    { s with h1Connecting := Function.update s.h1Connecting k (s.h1Connecting k - 1) }.notifyWaiters

def evictIfSame (s : Pool) (k : UpstreamKey) (expected : ConnId) : Pool :=
  ((s.retain k fun c => c != expected).removeIfEmpty k).notifyWaiters

/-- Same body as `evict_if_same`, over the h1 connection inside the pooled one. -/
def evictH1Connection (s : Pool) (k : UpstreamKey) (expected : ConnId) : Pool :=
  ((s.retain k fun c => c != expected).removeIfEmpty k).notifyWaiters

def evictKey (s : Pool) (k : UpstreamKey) : Pool :=
  ((s.retain k fun _ => false).removeKey k).notifyWaiters

/-- Every entry of every key is closed. An entry is filed under the key of its connection. -/
def shutdown (s : Pool) : Pool :=
  { s with
    connections := fun _ => none
    conns := s.conns.mapIdx fun c (x : H1PooledConnection) =>
      if c ∈ s.entries x.key then x.closeAndAbort else x }.notifyWaiters

/-- What one pass of `evict_expired_with_max_idle` does with the connection `c`. -/
def evictExpired (s : Pool) (c : ConnId) (x : H1PooledConnection) (expired : Bool) : Pool :=
  (s.retain x.key fun d => d != c || x.isAliveAndNotIdle expired).removeIfEmpty x.key

/-! ## Steps of a request -/

/-- The `connections` lock is taken. With entries for the key the scan begins; without, the request
waits for the dial that is pending or starts the first dial, and the lock is free again. -/
def lock (s : Pool) (i : ReqId) (r : Request) : Option Pool :=
  match r.phase, s.writer with
  | .checking, none =>
    match s.connections r.key with
    | some entries => some ({ s with writer := some i }.move i (r.goto (.retaining entries)))
    | none =>
      match s.pending r.key with
      | some dialler => some (s.move i (r.decided (.waiting dialler)))
      | none =>
        some ({ s with pending := Function.update s.pending r.key (some i) }.move i
          { r.decided (.dialing .first) with chan := .unsent })
  | _, _ => none

def retainNext (s : Pool) (i : ReqId) (r : Request) (expired : Bool) : Option Pool :=
  match r.phase with
  | .retaining [] => some (s.move i (r.goto (.trying (s.entries r.key))))
  | .retaining (c :: todo) =>
    match s.conns[c]? with
    | some x =>
      some ((s.retain r.key fun d => d != c || x.isAliveAndNotIdle expired).move i
        (r.goto (.retaining todo)))
    | none => none
  | _ => none

/-- All entries were busy: the key is dropped when it has none, otherwise the request reserves a
growth dial or queues. -/
def decideAction (s : Pool) (i : ReqId) (r : Request) : Pool :=
  if s.entries r.key = [] then
    ({ s with writer := none }.removeKey r.key).move i (r.decided .checking)
  else if (s.entries r.key).length + s.h1Connecting r.key < maxH1ConnectionsPerKey then
    { s with
      writer := none
      h1Connecting := Function.update s.h1Connecting r.key (s.h1Connecting r.key + 1) }.move i
        (r.decided (.dialing .growth))
  else { s with writer := none }.move i (r.decided .queueing)

def tryNext (s : Pool) (i : ReqId) (r : Request) : Option Pool :=
  match r.phase with
  | .trying [] => some (s.decideAction i r)
  | .trying (c :: todo) =>
    match s.conns[c]? with
    | some x =>
      if x.tryAcquire.1 then
        some (({ s with writer := none }.modifyConn c fun x => x.tryAcquire.2).move i
          (r.decided (.leased c)))
      else some ((s.modifyConn c fun x => x.tryAcquire.2).move i (r.goto (.trying todo)))
    | none => none
  | _ => none

def poll (s : Pool) (i : ReqId) (r : Request) : Option Pool :=
  match r.phase with
  | .queueing =>
    some ({ s with h1Notify := (s.h1Notify.poll i).2 }.move i
      (if (s.h1Notify.poll i).1 then { r with phase := .checking, wakeup := true }
       else r.decided .parked))
  | _ => none

def resume (s : Pool) (i : ReqId) (r : Request) : Option Pool :=
  match r.phase with
  | .woken _ => some (s.move i (r.goto .checking))
  | _ => none

/-- `rx.changed()` returns: with a value, or because the sender is gone. -/
def waitDone (s : Pool) (i : ReqId) (r : Request) : Option Pool :=
  match r.phase with
  | .waiting dialler =>
    match s.reqs[dialler]? with
    | some d =>
      match d.chan with
      | .unsent => none
      | .sent => some (s.move i (r.goto .checking))
      | .closed => some ((s.removePendingEntryIfCurrent r.key dialler).move i (r.goto .checking))
    | none => none
  | _ => none

/-- The channel when the request stops dialling without a connection. -/
def chanAfter (r : Request) (d : Dial) (chan : Chan) : Chan :=
  match d with
  | .first => chan
  | .growth => r.chan

/-- `do_connect` fails: `None` is sent to the waiters of a first dial. -/
def dialFailed (s : Pool) (i : ReqId) (r : Request) : Option Pool :=
  match r.phase with
  | .dialing d =>
    some (s.move i { r with phase := .returning d none, chan := chanAfter r d .sent })
  | _ => none

/-- `do_connect` succeeds and the connection is pushed under the lock. The transport may have closed
and the driver ended in the meantime. -/
def register (s : Pool) (i : ReqId) (r : Request) (senderClosed : Bool) (driver : Driver) :
    Option Pool :=
  match r.phase, s.writer with
  | .dialing d, none =>
    some ({ s with
      connections := Function.update s.connections r.key
        (some (s.entries r.key ++ [s.conns.length]))
      conns := s.conns ++ [H1PooledConnection.new r.key senderClosed driver] }.move i
        { r with phase := .announcing d s.conns.length, chan := chanAfter r d .sent })
  | _, _ => none

def announce (s : Pool) (i : ReqId) (r : Request) : Option Pool :=
  match r.phase with
  | .announcing d c => some (s.move i (r.goto (.acquiring d c))).notifyWaiters
  | _ => none

/-- The dialler tries its own connection, outside the `connections` lock. `probed` says that an
`is_alive_and_not_idle` of another task holds the sender at that moment. -/
def acquireNew (s : Pool) (i : ReqId) (r : Request) (probed : Bool) : Option Pool :=
  match r.phase with
  | .acquiring d c =>
    match s.conns[c]? with
    | some x =>
      if probed then some (s.move i (r.goto (.evicting d c)))
      else if x.tryAcquire.1 then
        some ((s.modifyConn c fun x => x.tryAcquire.2).move i (r.goto (.returning d (some c))))
      else some ((s.modifyConn c fun x => x.tryAcquire.2).move i (r.goto (.evicting d c)))
    | none => none
  | _ => none

def evictNew (s : Pool) (i : ReqId) (r : Request) : Option Pool :=
  match r.phase, s.writer with
  | .evicting d c, none => some ((s.move i (r.goto (.returning d none))).evictIfSame r.key c)
  | _, _ => none

def dropGuards (s : Pool) (i : ReqId) (r : Request) : Option Pool :=
  match r.phase with
  | .returning d (some c) => some ((s.move i (r.goto (.leased c))).dropGuard i r.key d)
  | .returning d none => some ((s.move i (r.goto .finished)).dropGuard i r.key d)
  | _ => none

/-- The future is dropped, or its wait times out, at one of its await points. A waiter that
`notify_one` woke and that was not polled since passes the notification on. -/
def cancel (s : Pool) (i : ReqId) (r : Request) : Option Pool :=
  match r.phase with
  | .checking => some (s.move i (r.decided .finished))
  | .waiting _ => some (s.move i (r.decided .finished))
  | .parked =>
    some ({ s with h1Notify := s.h1Notify.forget i }.move i (r.decided .finished))
  | .woken .one => some (s.move i (r.decided .finished)).notifyOne
  | .woken .all => some (s.move i (r.decided .finished))
  | .dialing d =>
    some ((s.move i { r with phase := .finished, chan := chanAfter r d .closed }).dropGuard i
      r.key d)
  | .evicting d _ => some ((s.move i (r.goto .finished)).dropGuard i r.key d)
  | _ => none

def closeLeased (s : Pool) (r : Request) : Option Pool :=
  match r.phase with
  | .leased c => some (s.modifyConn c H1PooledConnection.closeAndAbort)
  | _ => none

/-- `H1Lease::drop`, up to the end of its body. -/
def dropLease (s : Pool) (i : ReqId) (r : Request) : Option Pool :=
  match r.phase with
  | .leased c => some (s.move i (r.goto (.releasing c))).notifyOne
  | _ => none

/-- The fields of the lease are dropped, the mutex guard with them. -/
def unlock (s : Pool) (i : ReqId) (r : Request) : Option Pool :=
  match r.phase with
  | .releasing c =>
    some ((s.modifyConn c fun x => { x with locked := false }).move i (r.goto .finished))
  | _ => none

end Pool

inductive Act
  | lock
  | retainNext (expired : Bool)
  | tryNext
  | poll
  | resume
  | waitDone
  | dialFailed
  | register (senderClosed : Bool) (driver : Driver)
  | announce
  | acquireNew (probed : Bool)
  | evictNew
  | dropGuards
  | cancel
  | closeLeased
  | dropLease
  | unlock

inductive Event
  | getOrConnect (key : UpstreamKey)
  | act (i : ReqId) (a : Act)
  | evictKey (key : UpstreamKey)
  | evictH1Connection (key : UpstreamKey) (c : ConnId)
  | shutdown
  | evictExpired (c : ConnId) (expired : Bool)
  | transportClosed (c : ConnId)
  | driverFinished (c : ConnId)
  | driverEvict (c : ConnId)

namespace Pool

def stepRequest (s : Pool) (i : ReqId) (r : Request) : Act → Option Pool
  | .lock => s.lock i r
  | .retainNext expired => s.retainNext i r expired
  | .tryNext => s.tryNext i r
  | .poll => s.poll i r
  | .resume => s.resume i r
  | .waitDone => s.waitDone i r
  | .dialFailed => s.dialFailed i r
  | .register senderClosed driver => s.register i r senderClosed driver
  | .announce => s.announce i r
  | .acquireNew probed => s.acquireNew i r probed
  | .evictNew => s.evictNew i r
  | .dropGuards => s.dropGuards i r
  | .cancel => s.cancel i r
  | .closeLeased => s.closeLeased r
  | .dropLease => s.dropLease i r
  | .unlock => s.unlock i r

/-- The environment closes the transport of a connection, or its driver ends. -/
def stepDriver (s : Pool) (c : ConnId) (x : H1PooledConnection) : Event → Option Pool
  | .transportClosed _ => some (s.modifyConn c fun x => { x with senderClosed := true })
  | .driverFinished _ =>
    if x.driver = .running then
      some (s.modifyConn c fun x => { x.markClosed with senderClosed := true, driver := .finished })
    else none
  | .driverEvict _ =>
    if x.driver = .finished ∧ s.writer = none then
      some ((s.modifyConn c fun x => { x with driver := .gone }).evictIfSame x.key c)
    else none
  | _ => none

def step (s : Pool) (e : Event) : Option Pool :=
  match e with
  | .getOrConnect key => some { s with reqs := s.reqs ++ [Request.new key] }
  | .act i a => s.reqs[i]?.bind fun r => s.stepRequest i r a
  | .evictKey key => if s.writer = none then some (s.evictKey key) else none
  | .evictH1Connection key c => if s.writer = none then some (s.evictH1Connection key c) else none
  | .shutdown => if s.writer = none then some s.shutdown else none
  | .evictExpired c expired =>
    s.conns[c]?.bind fun x => if s.writer = none then some (s.evictExpired c x expired) else none
  | .transportClosed c => s.conns[c]?.bind fun x => s.stepDriver c x e
  | .driverFinished c => s.conns[c]?.bind fun x => s.stepDriver c x e
  | .driverEvict c => s.conns[c]?.bind fun x => s.stepDriver c x e

end Pool

/-! ## What the connection pool promises

The connections and dials of a key stay within the cap, and a request is not left parked while a
connection it could use is free. Each comes with the condition on the steps of a run under which the
pool keeps it. -/

namespace Phase

def isDialing : Phase → Bool
  | .dialing _ => true
  | _ => false

def isGrowthDial : Phase → Bool
  | .dialing .growth => true
  | _ => false

def isParked : Phase → Bool
  | .parked => true
  | _ => false

def isAnnouncing : Phase → Bool
  | .announcing _ _ => true
  | _ => false

/-- Between taking the lock and the end of the check: the request may still find a connection busy
that is about to be released. -/
def inCheck : Phase → Bool
  | .retaining _ | .trying _ | .queueing => true
  | _ => false

/-- A connection is being handed over: a lease that has notified and not unlocked, or a new
connection that its dialler has not acquired. -/
def inRelease : Phase → Bool
  | .releasing _ | .announcing _ _ | .acquiring _ _ => true
  | _ => false

end Phase

namespace Pool

/-- The requests for `k` that are in one of the given phases. -/
def tally (s : Pool) (k : UpstreamKey) (p : Phase → Bool) : Nat :=
  s.reqs.countP fun r => decide (r.key = k) && p r.phase

def liveConnections (s : Pool) (k : UpstreamKey) : Nat :=
  (s.entries k).countP fun c => s.conns[c]?.any (·.live)

def dialsInFlight (s : Pool) (k : UpstreamKey) : Nat := s.tally k Phase.isDialing

def CapRespected (s : Pool) : Prop :=
  ∀ k, s.liveConnections k + s.dialsInFlight k ≤ maxH1ConnectionsPerKey

/-- The first dial of a key starts only when no growth dial for the key is in flight. -/
def FirstDialAlone (s : Pool) : Event → Prop
  | .act i .lock => ∀ r ∈ s.reqs[i]?, s.connections r.key = none → s.pending r.key = none →
      s.tally r.key Phase.isGrowthDial = 0
  | _ => True

/-- A notification for `k` is under way: it reached a request that has not finished the check it
leads to, or the registration of a connection is about to send it. -/
def NotificationPending (s : Pool) (k : UpstreamKey) : Prop :=
  ∃ r ∈ s.reqs, r.key = k ∧ (r.wakeup = true ∨ r.phase.isAnnouncing = true)

/-- The pool holds a live connection for `k` that nobody has locked. -/
def FreeConnection (s : Pool) (k : UpstreamKey) : Prop :=
  ∃ c ∈ s.entries k, s.conns[c]?.any (·.free) = true

/-- Nobody is parked for a key with a free connection unless a wakeup is on its way. -/
def NoLostWakeup (s : Pool) : Prop :=
  ∀ k, (∃ r ∈ s.reqs, r.key = k ∧ r.phase = .parked) → s.h1Notify.permit = false →
    ¬ s.NotificationPending k → ¬ s.FreeConnection k

/-- Checks and hand-overs of one key do not overlap, the notification of a lease finds no request
for another key parked, and a request that was woken is not cancelled before it has checked. -/
def Undisturbed (s : Pool) : Event → Prop
  | .act i .lock => ∀ r ∈ s.reqs[i]?, s.tally r.key Phase.inRelease = 0
  | .act i (.register _ _) => ∀ r ∈ s.reqs[i]?, s.tally r.key Phase.inCheck = 0
  | .act i .dropLease => ∀ r ∈ s.reqs[i]?, s.tally r.key Phase.inCheck = 0 ∧
      ∀ q ∈ s.reqs, q.phase = .parked → q.key = r.key
  | .act i .cancel => ∀ r ∈ s.reqs[i]?, r.wakeup = false
  | _ => True

instance (s : Pool) (k : UpstreamKey) : Decidable (s.NotificationPending k) :=
  inferInstanceAs (Decidable (∃ r ∈ s.reqs, _))

instance (s : Pool) (k : UpstreamKey) : Decidable (s.FreeConnection k) :=
  inferInstanceAs (Decidable (∃ c ∈ s.entries k, _))

instance (s : Pool) (e : Event) : Decidable (s.FirstDialAlone e) := by
  unfold FirstDialAlone
  split <;> infer_instance

instance (s : Pool) (e : Event) : Decidable (s.Undisturbed e) := by
  unfold Undisturbed
  split <;> infer_instance

end Pool

end AiProxy.Upstream
