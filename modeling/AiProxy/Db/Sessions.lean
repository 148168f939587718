import AiProxy.Db.Error
import Mathlib.Data.Int.GCD

/-!
# Captured sessions

The table `session_summaries` with the detail rows of its sessions, and the operations of
`sessions.rs` that change it. An operation is one transaction, so it is a function of the table.

A session keeps the rowid it was inserted with. A new rowid is one above the largest in the table; the
largest 64-bit rowid is never given away, where SQLite would look for an unused one.
-/

namespace AiProxy.Db

def i64Max : Int := 2 ^ 63 - 1

/-- `as i64` of an unsigned 64-bit number. -/
def asI64 (n : Nat) : Int := (n : Int).bmod (2 ^ 64)

structure SessionInfo where
  id : Text
  method : Text
  host : Text
  path : Text
  protocol : Text
  scheme : Text
  httpVersion : Text
  transportProtocol : Text
  applicationProtocol : Text
  startedAt : Text
  finishedAt : Text
  url : Text
  responseMimeType : Option Text
  failureOrigin : Option Text
  failureKind : Option Text
  deriving DecidableEq

structure SessionSummaryRow extends SessionInfo where
  /-- `u128` -/
  durationMs : Nat
  /-- `usize` -/
  sizeBytes : Nat
  /-- `u16` -/
  statusCode : Nat
  failureMessage : Option Text
  deriving DecidableEq

structure SessionDetail where
  queryParams : Text
  requestHeaders : Text
  responseHeaders : Text
  failureMessage : Option Text
  deriving DecidableEq

structure SessionDetailRow extends SessionDetail where
  sessionSummaryId : Text

/-- A row of `session_summaries`, with the detail row of the session. -/
structure StoredSession extends SessionInfo where
  rowid : Int
  durationMs : Int
  sizeBytes : Int
  statusCode : Int
  detail : Option SessionDetail
  deriving DecidableEq

/-- The tables. `failuresAvailable` tells whether the schema has the columns of failures. -/
structure SessionDb where
  rows : List StoredSession
  failuresAvailable : Bool

def u128ToI64Saturating (value : Nat) : Int := min (value : Int) i64Max

def stored (rowid : Int) (summary : SessionSummaryRow) (detail : SessionDetailRow) : StoredSession where
  toSessionInfo := summary.toSessionInfo
  rowid := rowid
  durationMs := u128ToI64Saturating summary.durationMs
  sizeBytes := asI64 summary.sizeBytes
  statusCode := summary.statusCode
  detail := some detail.toSessionDetail

def maxRowid (rows : List StoredSession) : Int := rows.foldl (fun acc row => max acc row.rowid) 0

def upsertSession (db : SessionDb) (summary : SessionSummaryRow) (detail : SessionDetailRow) :
    Except DbError SessionDb :=
  if detail.sessionSummaryId ≠ summary.id then
    .error (.validation ("session_summary_id mismatch: detail '" ++ detail.sessionSummaryId ++
      "' != summary '" ++ summary.id ++ "'"))
  else if db.rows.any (·.id = summary.id) then
    .ok { db with rows := db.rows.map fun row =>
      if row.id = summary.id then stored row.rowid summary detail else row }
  else if maxRowid db.rows = i64Max then .error (.queryFailed "insert session summary")
  else .ok { db with rows := db.rows ++ [stored (maxRowid db.rows + 1) summary detail] }

def deleteSessionsByIds (db : SessionDb) (ids : List Text) : SessionDb :=
  { db with rows := db.rows.filter fun row => !ids.contains row.id }

def clearAllSessions (db : SessionDb) : SessionDb := { db with rows := [] }

end AiProxy.Db
