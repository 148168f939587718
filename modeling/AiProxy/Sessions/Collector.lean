import AiProxy.Sessions.Store

/-!
# The session collector

The collector of `start_proxy` takes sessions from a channel and stores them in batches, while any number of
clears and deletes run. A turn of its loop reads the generation, waits for a session, fills the batch, takes
the lifecycle lock and compares the generation: if a clear or delete has begun since, the batch is dropped.

The generation is not reduced modulo `2 ^ 64`. `sent`, `recorded`, `evicted` and `dropped` are the history
of a run.
-/

namespace AiProxy.Sessions

variable {Content : Type}

def sessionBatchSize : Nat := 50

inductive Removal where
  | clear
  | delete (sessionIds : List Text)
  | deleteExcept (keepSessionId : Text)
  deriving DecidableEq

def Removal.operation : Removal → Operation Content
  | .clear => .clearSessions
  | .delete sessionIds => .deleteSessions sessionIds
  | .deleteExcept keepSessionId => .deleteSessionsExcept keepSessionId

def Removal.covers (id : Text) : Removal → Bool
  | .clear => true
  | .delete sessionIds => (uniqueIds sessionIds).contains id
  | .deleteExcept keepSessionId => id ≠ keepSessionId

inductive RemovalPhase where
  | waiting
  | holding
  | returned
  deriving DecidableEq

/-! ## The collector -/

/-- A session in the channel: its number, how many clears and deletes had begun when it was sent, and
whether all of them had returned. -/
structure SentUpdate (Content : Type) where
  number : Nat
  update : SessionUpdate Content
  begun : Nat
  allReturned : Bool
  deriving DecidableEq

/-- A session that was dropped, and the clears and deletes that began after the generation was read. -/
structure DroppedUpdate (Content : Type) where
  sent : SentUpdate Content
  since : List Removal
  deriving DecidableEq

inductive CollectorPhase (Content : Type) where
  | loopStart
  /-- In `select!`, with the generation read before -/
  | waiting (generation : Nat)
  | filling (generation : Nat) (batch : List (SentUpdate Content))
  | locking (generation : Nat) (batch : List (SentUpdate Content))
  | comparing (generation : Nat) (batch : List (SentUpdate Content))
  | storing (batch : List (SentUpdate Content))
  deriving DecidableEq

def CollectorPhase.inHand : CollectorPhase Content → List (SentUpdate Content)
  | .loopStart => []
  | .waiting _ => []
  | .filling _ batch => batch
  | .locking _ batch => batch
  | .comparing _ batch => batch
  | .storing batch => batch

structure CollectorState (Content : Type) where
  store : SessionStore Content
  generation : Nat
  lifecycleLocked : Bool
  channel : List (SentUpdate Content)
  collector : CollectorPhase Content
  /-- In the order in which they began -/
  removals : List (Removal × RemovalPhase)
  sent : List (SentUpdate Content)
  recorded : List (SentUpdate Content)
  /-- What the cap has taken from the list since it was stored -/
  evicted : List Text
  dropped : List (DroppedUpdate Content)
  deriving DecidableEq

def CollectorState.start : CollectorState Content :=
  ⟨.empty, 0, false, [], .loopStart, [], [], [], [], []⟩

inductive CollectorEvent (Content : Type) where
  | send (update : SessionUpdate Content)
  | readGeneration
  | receive
  /-- The other branch of `select!`: a WebSocket message, and the next turn -/
  | receiveOther
  | tryReceive
  | batchFilled
  | lockCollector
  | compare
  | storeBatch
  | beginRemoval (removal : Removal)
  | lockRemoval (index : Nat)
  | finishRemoval (index : Nat)

def CollectorState.allReturned (s : CollectorState Content) : Bool :=
  s.removals.all (·.2 = .returned)

def newUpdate (s : CollectorState Content) (update : SessionUpdate Content) : SentUpdate Content :=
  ⟨s.sent.length, update, s.removals.length, s.allReturned⟩

/-- The clears and deletes that began after the generation was `generation`. -/
def CollectorState.since (s : CollectorState Content) (generation : Nat) : List Removal :=
  (s.removals.drop generation).map Prod.fst

def collectorStep (summaryMax : Nat) (s : CollectorState Content) :
    CollectorEvent Content → Option (CollectorState Content)
  | .send update =>
    let u := newUpdate s update
    some { s with channel := s.channel ++ [u], sent := s.sent ++ [u] }
  | .readGeneration =>
    match s.collector with
    | .loopStart => some { s with collector := .waiting s.generation }
    | _ => none
  | .receive =>
    match s.collector, s.channel with
    | .waiting generation, u :: rest =>
      some { s with channel := rest, collector := .filling generation [u] }
    | _, _ => none
  | .receiveOther =>
    match s.collector with
    | .waiting _ => some { s with collector := .loopStart }
    | _ => none
  | .tryReceive =>
    match s.collector, s.channel with
    | .filling generation batch, u :: rest =>
      if batch.length < sessionBatchSize then
        some { s with channel := rest, collector := .filling generation (batch ++ [u]) }
      else none
    | _, _ => none
  | .batchFilled =>
    match s.collector with
    | .filling generation batch =>
      if batch.length < sessionBatchSize ∧ s.channel ≠ [] then none
      else some { s with collector := .locking generation batch }
    | _ => none
  | .lockCollector =>
    match s.collector with
    | .locking generation batch =>
      if s.lifecycleLocked then none
      else some { s with lifecycleLocked := true, collector := .comparing generation batch }
    | _ => none
  | .compare =>
    match s.collector with
    | .comparing generation batch =>
      if s.generation = generation then some { s with collector := .storing batch }
      else
        some { s with
          lifecycleLocked := false
          collector := .loopStart
          dropped := s.dropped ++ batch.map (⟨·, s.since generation⟩) }
    | _ => none
  | .storeBatch =>
    match s.collector with
    | .storing batch =>
      let updates := batch.map (·.update)
      (storeStep summaryMax s.store (.upsertSessionBatch updates)).map fun store =>
        { s with
          store := store
          lifecycleLocked := false
          collector := .loopStart
          recorded := s.recorded ++ batch
          evicted := s.evicted.filter (· ∉ updates.map (·.id)) ++
            (listBatch summaryMax s.store.summaries updates).2 }
    | _ => none
  | .beginRemoval removal =>
    some { s with
      generation := s.generation + 1
      removals := s.removals ++ [(removal, .waiting)] }
  | .lockRemoval index =>
    match s.removals[index]? with
    | some (removal, .waiting) =>
      if s.lifecycleLocked then none
      else
        some { s with
          lifecycleLocked := true
          removals := s.removals.set index (removal, .holding) }
    | _ => none
  | .finishRemoval index =>
    match s.removals[index]? with
    | some (removal, .holding) =>
      some { s with
        store := removal.operation.perform summaryMax s.store
        lifecycleLocked := false
        removals := s.removals.set index (removal, .returned) }
    | _ => none

/-- The session was sent after the last clear or delete returned. -/
def SentUpdate.SentAfterLast (u : SentUpdate Content) (s : CollectorState Content) : Prop :=
  u.allReturned = true ∧ u.begun = s.removals.length

/-- Unless the cap took it from the list, the session is listed and its row is the last update of it that
was stored. -/
def CollectorState.Stored (s : CollectorState Content) (id : Text) : Prop :=
  id ∈ s.evicted ∨ (id ∈ listedIds s.store.summaries ∧ KeyedList.lookup (·.id) id s.store.rows =
    KeyedList.last? (·.id) id (s.recorded.map (·.update.detail)))

/-- Sessions that were sent after the last clear or delete returned are still on their way or are persisted
and listed, and a session is only dropped for a clear or for a delete of it. -/
structure NothingLost (s : CollectorState Content) : Prop where
  kept : ∀ u ∈ s.sent, u.SentAfterLast s →
    u ∈ s.channel ∨ u ∈ s.collector.inHand ∨ (u ∈ s.recorded ∧ s.Stored u.update.id)
  spared : ∀ d ∈ s.dropped, ∃ removal ∈ d.since, removal.covers d.sent.update.id = true

/-- If a clear or delete has begun since the collector read the generation, then each session of its batch
was sent before the last clear or delete returned, and one that has begun since removes it. -/
def LosesNothing (s : CollectorState Content) : CollectorEvent Content → Prop
  | .compare =>
    match s.collector with
    | .comparing generation batch =>
      s.generation ≠ generation → ∀ u ∈ batch,
        ¬ u.SentAfterLast s ∧ ∃ removal ∈ s.since generation, removal.covers u.update.id = true
    | _ => True
  | _ => True

end AiProxy.Sessions
