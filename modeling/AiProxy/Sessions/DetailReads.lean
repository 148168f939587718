import AiProxy.Sessions.Store

/-!
# Reads of session details

`read_session_detail` looks in the cache, loads the detail row, looks for the summary and fills the cache. It
takes no lock over these steps, so the calls of an operation can run between any two of them. Operations
exclude each other by the lifecycle lock.

`toRow` and `ofRow` are the conversions of `converters.rs`: a row keeps less than the session that was
captured. All storage steps succeed.
-/

namespace AiProxy.Sessions

variable {Content Stored : Type}

/-- The two conversions between sessions and detail rows. -/
structure Conversion (Content Stored : Type) where
  toRow : ProxySessionDetail Content → Stored
  ofRow : Stored → ProxySessionSummary → ProxySessionDetail Content

/-! ## Reads -/

inductive ReadPhase (Stored : Type) where
  | missed
  | loaded (row : Stored)
  | unlisted (row : Stored)
  | found (row : Stored) (summary : ProxySessionSummary)
  deriving DecidableEq

/-- A call of `read_session_detail`. It is undisturbed as long as no operation has changed or removed the
session since the row was loaded, and none that had done so was running then. -/
structure Reader (Stored : Type) where
  id : Text
  phase : ReadPhase Stored
  undisturbed : Bool
  deriving DecidableEq

/-- An operation that runs: the calls it has yet to make, its local variables, and the sessions that it has
changed or removed so far. -/
structure Writer (Content : Type) where
  operation : Operation Content
  calls : List (Call Content)
  removed : Removed
  touched : List Text
  deriving DecidableEq

structure ReadState (Content Stored : Type) where
  store : SessionStore Content
  writer : Option (Writer Content)
  readers : List (Reader Stored)
  deriving DecidableEq

def ReadState.start : ReadState Content Stored := ⟨.empty, none, []⟩

def Call.touches (summaryMax : Nat) (store : SessionStore Content) (removed : Removed) :
    Call Content → List Text
  | .persistSessionBatch sessions => sessions.map (·.id)
  | .upsertSummary update =>
    update.detail.summary.id ::
      (Sessions.upsertSummary summaryMax store.summaries update.detail.summary update.focusedHosts).2
  | .refreshDetail detail => [detail.id]
  | .removeSummaries ids => ids
  | .retainSummaries keepId => (Sessions.retainSummaries store.summaries keepId).2
  | .clearSummaries => store.summaries.map (·.id)
  | .removeDetails => []
  | .deleteRows ids => ids
  | .clearRows => store.rows.map (·.id)
  | .deleteRemovedRows => removed.all

def ReadState.touched (s : ReadState Content Stored) : List Text :=
  match s.writer with
  | some writer => writer.touched
  | none => []

def Reader.disturb (ids : List Text) (reader : Reader Stored) : Reader Stored :=
  if reader.id ∈ ids then { reader with undisturbed := false } else reader

inductive ReadEvent (Content : Type) where
  | beginOperation (operation : Operation Content)
  /-- The next call of the operation that runs; after the last one it has ended -/
  | call
  | lookUp (id : Text)
  | loadRow (reader : Nat)
  | findSummary (reader : Nat)
  | loadSummary (reader : Nat)
  | insert (reader : Nat)

def loadRow (conv : Conversion Content Stored) (store : SessionStore Content) (id : Text) :
    Option Stored :=
  (KeyedList.lookup (·.id) id store.rows).map conv.toRow

def loadSummary (store : SessionStore Content) (id : Text) : Option ProxySessionSummary :=
  (KeyedList.lookup (·.id) id store.rows).map (·.summary)

def callStep (summaryMax : Nat) (s : ReadState Content Stored) (writer : Writer Content)
    (call : Call Content) (calls : List (Call Content)) : ReadState Content Stored :=
  let touched := call.touches summaryMax s.store writer.removed
  let (store, removed) := call.run summaryMax s.store writer.removed
  { store
    writer :=
      if calls.isEmpty then none
      else some ⟨writer.operation, calls, removed, writer.touched ++ touched⟩
    readers := s.readers.map (Reader.disturb touched) }

def readStep (summaryMax : Nat) (conv : Conversion Content Stored) (s : ReadState Content Stored) :
    ReadEvent Content → Option (ReadState Content Stored)
  | .beginOperation operation =>
    if s.writer.isNone ∧ operation.Storable then
      some { s with writer := some ⟨operation, operation.calls, .none, []⟩ }
    else none
  | .call =>
    match s.writer with
    | some writer =>
      match writer.calls with
      | call :: calls => some (callStep summaryMax s writer call calls)
      | [] => none
    | none => none
  | .lookUp id =>
    match s.store.details.tryGetDetail id with
    | (some _, details) => some { s with store := { s.store with details } }
    | (none, _) => some { s with readers := s.readers ++ [⟨id, .missed, false⟩] }
  | .loadRow reader =>
    match s.readers[reader]? with
    | some ⟨id, .missed, _⟩ =>
      match loadRow conv s.store id with
      | some row =>
        some { s with readers := s.readers.set reader ⟨id, .loaded row, id ∉ s.touched⟩ }
      | none => some { s with readers := s.readers.eraseIdx reader }
    | _ => none
  | .findSummary reader =>
    match s.readers[reader]? with
    | some ⟨id, .loaded row, undisturbed⟩ =>
      match Sessions.findSummary s.store.summaries id with
      | some summary =>
        some { s with readers := s.readers.set reader ⟨id, .found row summary, undisturbed⟩ }
      | none => some { s with readers := s.readers.set reader ⟨id, .unlisted row, undisturbed⟩ }
    | _ => none
  | .loadSummary reader =>
    match s.readers[reader]? with
    | some ⟨id, .unlisted row, undisturbed⟩ =>
      match loadSummary s.store id with
      | some summary =>
        some { s with readers := s.readers.set reader ⟨id, .found row summary, undisturbed⟩ }
      | none => some { s with readers := s.readers.eraseIdx reader }
    | _ => none
  | .insert reader =>
    match s.readers[reader]? with
    | some ⟨id, .found row summary, _⟩ =>
      some { s with
        store := { s.store with details := (s.store.details.insertDetail id (conv.ofRow row summary)).2 }
        readers := s.readers.eraseIdx reader }
    | _ => none

/-- The detail of an update: as it was captured, or as it is read back from its row. -/
def DetailOf (conv : Conversion Content Stored) (update detail : ProxySessionDetail Content) : Prop :=
  detail = update ∨ detail = conv.ofRow (conv.toRow update) update.summary

/-- `read_session_detail` when nothing runs in the meantime. -/
def readSessionDetail (conv : Conversion Content Stored) (store : SessionStore Content) (id : Text) :
    Option (ProxySessionDetail Content) :=
  match store.details.get id with
  | some detail => some detail
  | none => do
    let row ← loadRow conv store id
    let summary ← (findSummary store.summaries id).or (loadSummary store id)
    some (conv.ofRow row summary)

/-- Every cached detail is the detail of the last update of a session that exists, and a read of such a
session returns it. A session row is given by the last update of the session. -/
structure NotStale (conv : Conversion Content Stored) (store : SessionStore Content) : Prop where
  cached : ∀ id detail, store.details.get id = some detail →
    ∃ update, KeyedList.lookup (·.id) id store.rows = some update ∧ DetailOf conv update detail
  read : ∀ id update, KeyedList.lookup (·.id) id store.rows = some update →
    ∃ detail, readSessionDetail conv store id = some detail ∧ DetailOf conv update detail

def ReadState.Idle (s : ReadState Content Stored) : Prop := s.writer = none ∧ s.readers = []

/-- A read fills the cache only if no operation has changed or removed the session since it loaded the row,
and none that had done so was running then. -/
def InsertsUndisturbed (s : ReadState Content Stored) : ReadEvent Content → Prop
  | .insert reader => s.readers[reader]?.all (·.undisturbed) = true
  | _ => True

instance (s : ReadState Content Stored) : ∀ e : ReadEvent Content, Decidable (InsertsUndisturbed s e)
  | .insert reader => inferInstanceAs (Decidable (s.readers[reader]?.all (·.undisturbed) = true))
  | .beginOperation _ => isTrue trivial
  | .call => isTrue trivial
  | .lookUp _ => isTrue trivial
  | .loadRow _ => isTrue trivial
  | .findSummary _ => isTrue trivial
  | .loadSummary _ => isTrue trivial

end AiProxy.Sessions
