import AiProxy.Lib.KeyedList
import AiProxy.Lib.Regex
import AiProxy.Lib.Run

/-!
# Session rows and body files

A body of a session that is large is written to the file `{session_id}/{kind}.body`, and the row of the
session refers to it. Each database step and each file step of an operation may fail, and the event that
is the operation says which of them do. The content of a body is copied and never read. A removal of a
directory that fails has removed some of its files.
-/

namespace AiProxy.Sessions

inductive BodyKind where
  | request
  | response
  deriving DecidableEq

/-- `{session_id}/{kind}.body` -/
structure BodyPath where
  sessionId : Text
  kind : BodyKind
  deriving DecidableEq

/-- A session whose bodies have the given sizes. -/
structure CapturedSession where
  id : Text
  requestBody : Option Nat
  responseBody : Option Nat

/-- `file_path` of a body in a row, or its bytes. -/
inductive StoredBody where
  | inline
  | file (path : BodyPath)
  /-- The path of the file could not be resolved when the row was built -/
  | unresolved
  deriving DecidableEq

structure BodyRow where
  id : Text
  requestBody : Option StoredBody
  responseBody : Option StoredBody
  deriving DecidableEq

def StoredBody.path? : StoredBody → Option BodyPath
  | .file path => some path
  | _ => none

def BodyRow.files (row : BodyRow) : List BodyPath :=
  ((row.requestBody.bind StoredBody.path?).toList ++ (row.responseBody.bind StoredBody.path?).toList)

/-- A database step: it is done, or the mutex is poisoned, or SQLite returns an error. -/
inductive DbOutcome where
  | done
  | poisoned
  | sqlError
  deriving DecidableEq

/-- A body file is written, and its path can be resolved or not; or it is not written. -/
inductive WriteOutcome where
  | written (resolved : Bool)
  | failed

/-- All files are removed, or only those that were removed before an error. -/
inductive RemoveOutcome where
  | done
  | failed (gone : List BodyPath)

def RemoveOutcome.takes (path : BodyPath) : RemoveOutcome → Bool
  | .done => true
  | .failed gone => gone.contains path

structure PersistOutcome where
  requestWrite : WriteOutcome
  responseWrite : WriteOutcome
  upsert : DbOutcome

/-- The rows, the files, the files that an operation removed and that were not written again, and the
background removals that were started. -/
structure BodyState where
  rows : List BodyRow
  files : List BodyPath
  removed : List BodyPath
  rescans : Nat
  deriving DecidableEq

def BodyState.start : BodyState := ⟨[], [], [], 0⟩

def safeSegment (value : Text) : Bool :=
  !(value.isEmpty || value = ['.'] || value = ['.', '.'] || !value.any (·.isAlphanum) ||
    value.any fun c => !c.isAlphanum && !(['-', '_', '.'].contains c))

def BodyState.write (s : BodyState) (path : BodyPath) : BodyState :=
  { s with files := path :: s.files, removed := s.removed.filter (· ≠ path) }

def BodyState.take (s : BodyState) (taken : BodyPath → Bool) : BodyState :=
  { s with
    files := s.files.filter fun path => !taken path
    removed := s.removed ++ s.files.filter taken }

def removesBody (sessionId : Text) (outcome : RemoveOutcome) (path : BodyPath) : Bool :=
  safeSegment sessionId && path.sessionId = sessionId && outcome.takes path

def BodyState.removeBodies (s : BodyState) (bodies : Text → RemoveOutcome) (ids : List Text) :
    BodyState :=
  ids.foldl (fun s id => s.take (removesBody id (bodies id))) s

def BodyState.clearAll (s : BodyState) (outcome : RemoveOutcome) : BodyState :=
  s.take fun path => outcome.takes path

def bodyFileThreshold : Nat := 256 * 1024

/-- `spill_body_reference_to_disk`: the state, the body of the row, and whether it succeeds. -/
def spillBody (s : BodyState) (path : BodyPath) (outcome : WriteOutcome) :
    Option Nat → BodyState × Option StoredBody × Bool
  | none => (s, none, true)
  | some size =>
    if size < bodyFileThreshold then (s, some .inline, true)
    else if !safeSegment path.sessionId then (s, some .inline, false)
    else match outcome with
      | .failed => (s, some .inline, false)
      | .written resolved =>
        (s.write path, some (if resolved then .file path else .unresolved), true)

/-- `spill_session_bodies_to_disk`: after an error the response body stays in memory. -/
def spillSession (s : BodyState) (session : CapturedSession) (outcome : PersistOutcome) :
    BodyState × BodyRow :=
  let (s₁, request, ok) := spillBody s ⟨session.id, .request⟩ outcome.requestWrite session.requestBody
  if ok then
    let (s₂, response, _) :=
      spillBody s₁ ⟨session.id, .response⟩ outcome.responseWrite session.responseBody
    (s₂, ⟨session.id, request, response⟩)
  else (s₁, ⟨session.id, request, session.responseBody.map fun _ => .inline⟩)

/-- The sessions of a batch are spilled one after the other; each row goes with its database step. -/
def spillBatch (s : BodyState) :
    List (CapturedSession × PersistOutcome) → BodyState × List (BodyRow × DbOutcome)
  | [] => (s, [])
  | (session, outcome) :: rest =>
    let (s₁, row) := spillSession s session outcome
    let (s₂, rows) := spillBatch s₁ rest
    (s₂, (row, outcome.upsert) :: rows)

def upsertRows (rows : List BodyRow) (news : List (BodyRow × DbOutcome)) : List BodyRow :=
  KeyedList.upsertAll (·.id) ((news.filter (·.2 = .done)).map Prod.fst) rows

def persistSessionBatch (s : BodyState) (sessions : List (CapturedSession × PersistOutcome))
    (lock : DbOutcome) : BodyState :=
  let (spilled, news) := spillBatch s sessions
  if lock = .done then { spilled with rows := upsertRows spilled.rows news } else spilled

/-- `clear_all_sessions`, when the program starts: no file is removed while its row may be there, and files
that could not be removed are removed later. -/
def clearAllSessions (s : BodyState) (db : DbOutcome) (bodies : RemoveOutcome) : BodyState :=
  if db = .done then
    let cleared := BodyState.clearAll { s with rows := [] } bodies
    match bodies with
    | .done => cleared
    | .failed _ => { cleared with rescans := cleared.rescans + 1 }
  else s

def clearAllSessionsResult (s : BodyState) (db : DbOutcome) (bodies : RemoveOutcome) : BodyState :=
  if db = .done then BodyState.clearAll { s with rows := [] } bodies else s

/-- `delete_sessions_and_bodies_result`: only the bodies of sessions that existed are removed. -/
def deleteSessionsResult (s : BodyState) (ids : List Text) (db : DbOutcome)
    (bodies : Text → RemoveOutcome) : BodyState :=
  if db = .done then
    let existing := (s.rows.map (·.id)).filter ids.contains
    BodyState.removeBodies { s with rows := KeyedList.without (·.id) ids s.rows } bodies existing
  else s

/-- `delete_sessions_impl`, for a delete of all sessions but one and for evicted sessions: the bodies are
removed whether or not the rows are. -/
def deleteSessionsImpl (s : BodyState) (ids : List Text) (db : DbOutcome)
    (bodies : Text → RemoveOutcome) : BodyState :=
  let deleted := if db = .done then { s with rows := KeyedList.without (·.id) ids s.rows } else s
  deleted.removeBodies bodies ids

inductive BodyEvent where
  | persist (sessions : List (CapturedSession × PersistOutcome)) (lock : DbOutcome)
  | startupClear (db : DbOutcome) (bodies : RemoveOutcome)
  /-- The background removal of `spawn_body_rescan` -/
  | rescan (bodies : RemoveOutcome)
  | clear (db : DbOutcome) (bodies : RemoveOutcome)
  | delete (ids : List Text) (db : DbOutcome) (bodies : Text → RemoveOutcome)
  | deleteAllButOne (ids : List Text) (db : DbOutcome) (bodies : Text → RemoveOutcome)
  | evict (ids : List Text) (db : DbOutcome) (bodies : Text → RemoveOutcome)

def bodyStep (s : BodyState) : BodyEvent → Option BodyState
  | .persist sessions lock => some (persistSessionBatch s sessions lock)
  | .startupClear db bodies => some (clearAllSessions s db bodies)
  | .rescan bodies =>
    if s.rescans = 0 then none else some { s.clearAll bodies with rescans := s.rescans - 1 }
  | .clear db bodies => some (clearAllSessionsResult s db bodies)
  | .delete ids db bodies => some (deleteSessionsResult s ids db bodies)
  | .deleteAllButOne ids db bodies => some (deleteSessionsImpl s ids db bodies)
  | .evict ids db bodies => some (deleteSessionsImpl s ids db bodies)

/-- No operation has removed a file that a row refers to. -/
def BodiesKept (s : BodyState) : Prop := ∀ row ∈ s.rows, ∀ path ∈ row.files, path ∉ s.removed

/-- The rows are deleted, or no row among them refers to a file that is removed. -/
def DeletesRowsFirst (s : BodyState) (ids : List Text) (db : DbOutcome)
    (bodies : Text → RemoveOutcome) : Prop :=
  db = .done ∨ ∀ row ∈ s.rows, row.id ∈ ids →
    ∀ path ∈ row.files, removesBody row.id (bodies row.id) path = false

/-- A delete of all sessions but one and an eviction delete the rows of the files they remove, and a
background removal removes no file of a row. -/
def KeepsBodies (s : BodyState) : BodyEvent → Prop
  | .deleteAllButOne ids db bodies => DeletesRowsFirst s ids db bodies
  | .evict ids db bodies => DeletesRowsFirst s ids db bodies
  | .rescan bodies => s.rescans = 0 ∨ ∀ row ∈ s.rows, ∀ path ∈ row.files, bodies.takes path = false
  | _ => True

end AiProxy.Sessions
