import AiProxy.Sessions.Cache
import AiProxy.Mcp.Redaction

/-!
# The session store

The list of the summaries, the cache of the details and the session rows, and the operations of `AppState`
on them. An operation holds the lifecycle lock and makes calls to the cache and to the repository one after
the other (`Operation.calls`); a reader without the lock can see the store between two of them.

All storage steps succeed here. A session row is given by the session that was written last.
-/

namespace AiProxy.Sessions

open Mcp (trim)

variable {Content : Type}

structure SessionStore (Content : Type) where
  rows : List (ProxySessionDetail Content)
  summaries : List ProxySessionSummary
  details : DetailState Content
  deriving DecidableEq

def SessionStore.empty : SessionStore Content := ⟨[], [], .empty⟩

/-- A session of a batch, and the hosts that are focused when the list is updated with it. -/
structure SessionUpdate (Content : Type) where
  detail : ProxySessionDetail Content
  focusedHosts : FocusedHosts
  deriving DecidableEq

def SessionUpdate.id (update : SessionUpdate Content) : Text := update.detail.id

/-- `sessions::upsert_session` refuses a detail that names another summary. -/
def SessionUpdate.Storable (update : SessionUpdate Content) : Prop :=
  update.detail.id = update.detail.summary.id

instance (update : SessionUpdate Content) : Decidable update.Storable :=
  inferInstanceAs (Decidable (_ = _))

/-- A call under a mutex of the cache or of the database. -/
inductive Call (Content : Type) where
  | persistSessionBatch (sessions : List (ProxySessionDetail Content))
  | upsertSummary (update : SessionUpdate Content)
  | refreshDetail (detail : ProxySessionDetail Content)
  | removeSummaries (ids : List Text)
  | retainSummaries (keepId : Text)
  | clearSummaries
  /-- `remove_details` of what the call before it took from the list -/
  | removeDetails
  | deleteRows (ids : List Text)
  | clearRows
  /-- `delete_sessions_and_bodies_async` of what the operation took from the list -/
  | deleteRemovedRows
  deriving DecidableEq

/-- The local variables of an operation: `removed_ids` of the last call, and all of them. -/
structure Removed where
  last : List Text
  all : List Text
  deriving DecidableEq

def Removed.none : Removed := ⟨[], []⟩

def Removed.add (removed : Removed) (ids : List Text) : Removed := ⟨ids, removed.all ++ ids⟩

def Call.run (summaryMax : Nat) (store : SessionStore Content) (removed : Removed) :
    Call Content → SessionStore Content × Removed
  | .persistSessionBatch sessions =>
    ({ store with rows := KeyedList.upsertAll (·.id) sessions store.rows }, removed)
  | .upsertSummary update =>
    let (summaries, ids) :=
      Sessions.upsertSummary summaryMax store.summaries update.detail.summary update.focusedHosts
    ({ store with summaries }, removed.add ids)
  | .refreshDetail detail =>
    ({ store with details := store.details.refreshDetailIfCached detail.id detail }, removed)
  | .removeSummaries ids =>
    ({ store with summaries := Sessions.removeSummaries store.summaries ids }, removed.add ids)
  | .retainSummaries keepId =>
    let (summaries, ids) := Sessions.retainSummaries store.summaries keepId
    ({ store with summaries }, removed.add ids)
  | .clearSummaries =>
    let (summaries, ids) := Sessions.clearSummaries store.summaries
    ({ store with summaries }, removed.add ids)
  | .removeDetails => ({ store with details := store.details.removeDetails removed.last }, removed)
  | .deleteRows ids => ({ store with rows := KeyedList.without (·.id) ids store.rows }, removed)
  | .clearRows => ({ store with rows := [] }, removed)
  | .deleteRemovedRows =>
    ({ store with rows := KeyedList.without (·.id) removed.all store.rows }, removed)

def runCalls (summaryMax : Nat) (store : SessionStore Content) (removed : Removed) :
    List (Call Content) → SessionStore Content
  | [] => store
  | call :: calls =>
    let (store', removed') := call.run summaryMax store removed
    runCalls summaryMax store' removed' calls

inductive Operation (Content : Type) where
  | upsertSessionBatch (batch : List (SessionUpdate Content))
  | deleteSessions (sessionIds : List Text)
  | deleteSessionsExcept (keepSessionId : Text)
  | clearSessions
  deriving DecidableEq

/-- The identifiers without white space around them, each once and none empty. -/
def uniqueIds (sessionIds : List Text) : List Text :=
  (sessionIds.map trim).foldl
    (fun unique id => if id.isEmpty || unique.contains id then unique else unique ++ [id]) []

def updateSessionCache (update : SessionUpdate Content) : List (Call Content) :=
  [.upsertSummary update, .refreshDetail update.detail, .removeDetails]

def Operation.calls : Operation Content → List (Call Content)
  | .upsertSessionBatch batch =>
    .persistSessionBatch (batch.map (·.detail)) ::
      (batch.flatMap updateSessionCache ++ [.deleteRemovedRows])
  | .deleteSessions sessionIds =>
    [.deleteRows (uniqueIds sessionIds), .removeSummaries (uniqueIds sessionIds), .removeDetails]
  | .deleteSessionsExcept keepSessionId =>
    [.retainSummaries keepSessionId, .removeDetails, .deleteRemovedRows]
  | .clearSessions => [.clearRows, .clearSummaries, .removeDetails]

/-- The operation, when nothing reads the store in the meantime. -/
def Operation.perform (summaryMax : Nat) (store : SessionStore Content) (op : Operation Content) :
    SessionStore Content :=
  runCalls summaryMax store .none op.calls

def Operation.Storable : Operation Content → Prop
  | .upsertSessionBatch batch => ∀ update ∈ batch, update.Storable
  | _ => True

instance : ∀ op : Operation Content, Decidable op.Storable
  | .upsertSessionBatch batch => inferInstanceAs (Decidable (∀ update ∈ batch, update.Storable))
  | .deleteSessions _ => isTrue trivial
  | .deleteSessionsExcept _ => isTrue trivial
  | .clearSessions => isTrue trivial

/-! ## The list of the summaries and the session rows

A session that a batch took from the list must not be put back by it, as its row is deleted at the end. -/

def listedIds (summaries : List ProxySessionSummary) : List Text := summaries.map (·.id)

def SessionStore.rowIds (store : SessionStore Content) : List Text := store.rows.map (·.id)

/-- Operations one at a time, as long as their storage steps succeed. -/
def storeStep (summaryMax : Nat) (store : SessionStore Content) (op : Operation Content) :
    Option (SessionStore Content) :=
  if op.Storable then some (op.perform summaryMax store) else none

/-- The list holds the identifiers of the rows, each once, and not more than the cap. -/
structure ListAgrees (summaryMax : Nat) (store : SessionStore Content) : Prop where
  same : ∀ id, id ∈ listedIds store.summaries ↔ id ∈ store.rowIds
  once : (listedIds store.summaries).Nodup
  capped : store.summaries.length ≤ summaryMax

/-- The list after the updates, and what they took from it. -/
def listBatch (summaryMax : Nat) :
    List ProxySessionSummary → List (SessionUpdate Content) → List ProxySessionSummary × List Text
  | summaries, [] => (summaries, [])
  | summaries, update :: updates =>
    let (listed, removed) :=
      upsertSummary summaryMax summaries update.detail.summary update.focusedHosts
    let (final, removedLater) := listBatch summaryMax listed updates
    (final, removed ++ removedLater)

/-- A session that an update of the batch took from the list and a later update puts back is taken from it
again before the batch ends. -/
def KeepsEvictions (summaryMax : Nat) (store : SessionStore Content) : Operation Content → Prop
  | .upsertSessionBatch batch =>
    ∀ before update after, batch = before ++ update :: after →
      update.id ∈ (listBatch summaryMax store.summaries before).2 →
      update.id ∈
        (listBatch summaryMax (listBatch summaryMax store.summaries before).1 (update :: after)).2
  | _ => True

end AiProxy.Sessions
