import AiProxy.Db.SessionSearch
import AiProxy.Lib.Run
import AiProxy.Mcp.BodyStream

/-!
# Waiting for sessions

`wait_for_sessions` of `sessions.rs`, for a client that calls it again and again with the same request,
each time with the watermark of the call before. A call reads a page and then the newest completed
rowid, in two statements.

`waitStep` interleaves the statements of the calls with those that write and delete sessions. A session
that has completed is not written again. What a call puts into its answer of a session is left out.
-/

namespace AiProxy.Mcp

open Db

variable {N : Type}

def ToolError.invalid (message : Text) : ToolError N := ⟨"INVALID_ARGUMENT", message, none⟩

def encodeWatermark (rowid : Int) : Text := "w1:" ++ natText (max rowid 0).toNat

def parseI64 (t : Text) : Option Int :=
  let negative := t.head? == some '-'
  let digits := if negative || t.head? == some '+' then t.tail else t
  if digits.isEmpty || !digits.all Char.isDigit then none
  else
    let value : Int := Nat.ofDigitChars 10 digits 0
    let value := if negative then -value else value
    if -(2 ^ 63) ≤ value ∧ value ≤ i64Max then some value else none

def parseWatermark (value : Text) : Except (ToolError N) Int :=
  let value := trim value
  if !"w1:".toList.isPrefixOf value then
    .error (.invalid ("afterWatermark must be a watermark returned by an AIProxy tool " ++
      "(format w1:<rowid>).").toList)
  else
    match parseI64 (value.drop 3) with
    | none => .error (.invalid "afterWatermark contains an invalid rowid.")
    | some rowid =>
      if rowid < 0 then
        .error (.invalid "afterWatermark must not contain a negative rowid.")
      else .ok rowid

structure WaitForSessionsRequest extends SessionCriteria where
  afterWatermark : Option Text := none
  minCount : Option Nat := none
  timeoutMs : Option Nat := none

structure WaitConfig where
  readSessions : Bool
  maxSessions : Nat

def WaitForSessionsRequest.count (request : WaitForSessionsRequest) : Nat := request.minCount.getD 1

def WaitForSessionsRequest.limit (config : WaitConfig) (request : WaitForSessionsRequest) : Nat :=
  max 1 (min (min request.count config.maxSessions) 100)

def WaitForSessionsRequest.filter (request : WaitForSessionsRequest) : SessionSearchFilter where
  toSessionCriteria := request.toSessionCriteria
  completedOnly := true

def checkWait (config : WaitConfig) (request : WaitForSessionsRequest) : Except (ToolError N) Unit := do
  if !config.readSessions then
    throw ⟨"PERMISSION_DENIED", ("Session reading is disabled. Enable readSessions in AIProxy " ++
      "Settings > Agent Access.").toList, none⟩
  if request.count < 1 ∨ 100 < request.count then
    throw (.invalid "minCount must be between 1 and 100.")
  if config.maxSessions < request.count then
    throw (.invalid ("minCount cannot exceed the configured maxSessions limit (" ++
      natText config.maxSessions ++ ")."))
  if request.timeoutMs.getD 15000 < 1000 ∨ 30000 < request.timeoutMs.getD 15000 then
    throw (.invalid "timeoutMs must be between 1000 and 30000.")

/-- The beginning of a call: its checks, and the rowid it waits after. -/
def startWait (N : Type) (config : WaitConfig) (request : WaitForSessionsRequest) (db : SessionDb) :
    Except (ToolError N) Int := do
  checkWait config request
  match request.afterWatermark with
  | some value => parseWatermark value
  | none => return latestCompletedSessionRowid db

def pollPage (p : SearchPlatform) (config : WaitConfig) (request : WaitForSessionsRequest)
    (db : SessionDb) (after : Int) : Except DbError SessionSearchPage :=
  searchSessions p db { request.filter with afterRowid := some after } (request.limit config) none

/-! ## The client and the table -/

/-- Where the client is: before its first call, between calls, in a poll before the page or before the
watermark is read. -/
inductive Client where
  | fresh
  | idle (watermark : Int)
  | polling (after : Int)
  | answered (after : Int) (items : List SessionSummaryRow)
  deriving DecidableEq

def Client.after : Client → Option Int
  | .fresh => none
  | .idle watermark => some watermark
  | .polling after => some after
  | .answered after _ => some after

/-- The watermark of a call whose page has been read. -/
def Client.answeredAfter : Client → Option Int
  | .answered after _ => some after
  | _ => none

structure WaitState where
  db : SessionDb
  client : Client
  served : Bool
  finished : List Text
  /-- Those that completed after the first watermark that was returned was taken. -/
  watched : List Text
  returned : List Text
  /-- The table at the last page statement. -/
  seen : SessionDb

inductive WaitEvent where
  | write (summary : SessionSummaryRow) (detail : SessionDetailRow)
  | delete (ids : List Text)
  | clear
  | call
  | readPage
  /-- `elapsed`: the time of the call is over. -/
  | readWatermark (elapsed : Bool)

def WaitState.start (db : SessionDb) : WaitState where
  db := db
  client := .fresh
  served := false
  finished := (db.rows.filter (completed db.failuresAvailable)).map (·.id)
  watched := []
  returned := []
  seen := db

def completes (db : SessionDb) (summary : SessionSummaryRow) (detail : SessionDetailRow) : Bool :=
  completed db.failuresAvailable (stored 0 summary detail)

section Step

variable (N : Type) (p : SearchPlatform) (config : WaitConfig) (request : WaitForSessionsRequest)

/-- A call that fails leaves the client with the watermark it had. -/
def WaitState.failed (s : WaitState) (after : Int) : WaitState :=
  { s with client := if s.served then .idle after else .fresh }

def WaitState.write (s : WaitState) (summary : SessionSummaryRow) (detail : SessionDetailRow) :
    WaitState :=
  match upsertSession s.db summary detail with
  | .error _ => s
  | .ok db =>
    if completes s.db summary detail then
      { s with
        db := db
        finished := summary.id :: s.finished
        watched := if s.served then summary.id :: s.watched else s.watched }
    else { s with db := db }

def WaitState.call (s : WaitState) : WaitState :=
  match startWait N config { request with afterWatermark := s.client.after.map encodeWatermark }
      s.db with
  | .ok after => { s with client := .polling after }
  | .error _ => s

def WaitState.readWatermark (s : WaitState) (after : Int) (items : List SessionSummaryRow)
    (elapsed : Bool) : WaitState :=
  if request.count ≤ items.length ∨ elapsed = true then
    { s with
      client := .idle (latestCompletedSessionRowid s.db)
      served := true
      returned := s.returned ++ items.map (·.id) }
  else { s with client := .polling after }

def waitStep (s : WaitState) : WaitEvent → Option WaitState
  | .write summary detail => if summary.id ∈ s.finished then none else some (s.write summary detail)
  | .delete ids => some { s with db := deleteSessionsByIds s.db ids }
  | .clear => some { s with db := clearAllSessions s.db }
  | .call =>
    match s.client with
    | .fresh | .idle _ => some (s.call N config request)
    | .polling _ | .answered _ _ => none
  | .readPage =>
    match s.client with
    | .polling after =>
      match pollPage p config request s.db after with
      | .ok page => some { s with client := .answered after page.items, seen := s.db }
      | .error _ => some (s.failed after)
    | _ => none
  | .readWatermark elapsed =>
    match s.client with
    | .answered after items => some (s.readWatermark request after items elapsed)
    | _ => none

end Step

/-! ## What waiting is to guarantee

A matching session that completed after the first watermark was returned is missed when it was not
returned and the client's watermark has passed it: no later call looks at it again. -/

section

variable (p : SearchPlatform) (request : WaitForSessionsRequest)

def WaitState.Awaited (s : WaitState) (row : StoredSession) : Prop :=
  row ∈ s.db.rows ∧ selects p s.db.failuresAvailable request.filter row = true ∧ row.id ∈ s.watched

/-- The client's watermark has passed the rowid of a session. -/
def WaitState.Passed (s : WaitState) (row : StoredSession) : Prop :=
  ∃ after, s.client.after = some after ∧ row.rowid ≤ after

def WaitState.Missed (s : WaitState) (row : StoredSession) : Prop :=
  s.Awaited p request row ∧ row.id ∉ s.returned ∧ s.Passed row

def WaitState.NoneMissed (s : WaitState) : Prop := ∀ row, ¬ s.Missed p request row

/-- The sessions that the page of a call is to have: the first ones of those that match in the table of
its page statement. -/
def WaitState.due (s : WaitState) (config : WaitConfig) (after : Int) : List StoredSession :=
  let filter := { request.filter with afterRowid := some after }
  (Keyset.orderBy (orderClause filter) (s.seen.matching p filter)).take
    (pageSize (request.limit config))

/-- A call returns only if every session that it waits for was due at its page statement, and a session
completes with a rowid above the watermark the client holds. -/
def Orderly (config : WaitConfig) (s : WaitState) : WaitEvent → Prop
  | .write summary detail => ∀ db ∈ (upsertSession s.db summary detail).toOption, s.served = true →
      ∀ row ∈ db.rows, row.id = summary.id → selects p db.failuresAvailable request.filter row = true →
        ¬ s.Passed row
  | .readWatermark elapsed => ∀ after ∈ s.client.answeredAfter,
      request.count ≤ (s.due p request config after).length ∨ elapsed = true →
        ∀ row ∈ s.db.rows, s.Awaited p request row → after < row.rowid →
          row.id ∈ (s.due p request config after).map (·.id)
  | _ => True

instance (s : WaitState) (row : StoredSession) : Decidable (s.Awaited p request row) :=
  inferInstanceAs (Decidable (_ ∧ _ ∧ _))

instance (s : WaitState) (row : StoredSession) : Decidable (s.Passed row) :=
  inferInstanceAs (Decidable (∃ after ∈ s.client.after, row.rowid ≤ after))

instance (s : WaitState) (row : StoredSession) : Decidable (s.Missed p request row) :=
  inferInstanceAs (Decidable (_ ∧ _ ∧ _))

instance (config : WaitConfig) (s : WaitState) (e : WaitEvent) :
    Decidable (Orderly p request config s e) := by
  cases e <;> unfold Orderly <;> infer_instance

/-- A table whose identifiers and rowids are those of a database. -/
structure WellFormed (db : SessionDb) : Prop where
  ids : (db.rows.map (·.id)).Nodup
  rowids : ∀ row ∈ db.rows, row.rowid ≤ i64Max

end

end AiProxy.Mcp
