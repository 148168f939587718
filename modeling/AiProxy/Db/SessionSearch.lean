import AiProxy.Db.Cursor
import AiProxy.Lib.Keyset
import AiProxy.Lib.Sqlite

/-!
# Searching sessions

`search_sessions` of `session_search.rs`. The source puts a statement together; here its conditions are
the conditions on a row, in the order in which they are added. The functions of the Unicode tables and
the JSON functions of SQLite are a parameter.
-/

namespace AiProxy.Db

open Sqlite (lower upper like instr compareInteger compareText)
open Mcp (trim)

/-- What a search uses of the Unicode tables and of SQLite. -/
structure SearchPlatform where
  toLowercase : Text → Text
  toUppercase : Text → Text
  /-- A JSON text is a list with an object that has this `name` and this `value`. -/
  hasQueryParam : Text → Text → Text → Bool

def maxSessionSearchLimit : Nat := 100

inductive SessionSearchField where
  | url
  | host
  | path
  | method
  | headers
  | query

/-- The fields of a search that a call of `wait_for_sessions` has too. -/
structure SessionCriteria where
  host : Option Text := none
  hostContains : Option Text := none
  pathContains : Option Text := none
  queryParams : List (Text × Text) := []
  method : Option Text := none
  /-- `u16` -/
  statusMin : Option Nat := none
  statusMax : Option Nat := none
  mime : Option Text := none
  keyword : Option Text := none
  failedOnly : Bool := false
  failureKind : Option Text := none
  failureOrigin : Option Text := none

structure SessionSearchFilter extends SessionCriteria where
  protocol : Option Text := none
  startedAfter : Option Text := none
  startedBefore : Option Text := none
  /-- `u64` -/
  minDurationMs : Option Nat := none
  maxDurationMs : Option Nat := none
  searchIn : List SessionSearchField := []
  sortBy : SessionSortField := .startedAt
  sortOrder : SortOrder := .desc
  afterRowid : Option Int := none
  completedOnly : Bool := false

structure SessionSearchPage where
  items : List SessionSummaryRow
  nextCursor : Option Text
  truncated : Bool

/-! ## Conditions -/

/-- A filter text that is given and not blank. -/
def given (t : Option Text) : Option Text := (t.map trim).filter fun t => !t.isEmpty

def escapeLikePattern (query : Text) : Text :=
  query.flatMap fun c => if c = '\\' ∨ c = '%' ∨ c = '_' then ['\\', c] else [c]

/-- `%…%` around a text that is taken literally. -/
def containing (query : Text) : Text := '%' :: (escapeLikePattern query ++ ['%'])

def completed (failuresAvailable : Bool) (row : StoredSession) : Bool :=
  !row.finishedAt.isEmpty &&
    (row.statusCode != 0 || (failuresAvailable && row.failureKind.isSome))

/-- The condition for a value of the filter, when there is one. -/
def whenGiven {α : Type} (value : Option α) (test : α → StoredSession → Bool) :
    List (StoredSession → Bool) := value.toList.map test

section Conditions

variable (p : SearchPlatform) (failuresAvailable : Bool) (filter : SessionSearchFilter)

def wantsFailure : Bool :=
  filter.failedOnly || (given filter.failureKind).isSome || (given filter.failureOrigin).isSome

def failureConditions : List (StoredSession → Bool) :=
  if wantsFailure filter && !failuresAvailable then [fun _ => false]
  else
    (if filter.failedOnly then [fun row => row.failureKind.isSome] else []) ++
      whenGiven (given filter.failureKind) (fun kind row => row.failureKind == some kind) ++
      whenGiven (given filter.failureOrigin) (fun origin row => row.failureOrigin == some origin)

/-- The text of a session that a field of a keyword search stands for, if there is one. -/
def SessionSearchField.column (row : StoredSession) : SessionSearchField → Option Text
  | .url => some (lower row.url)
  | .host => some (lower row.host)
  | .path => some (lower row.path)
  | .method => some (lower row.method)
  | .headers => row.detail.map fun d => lower (d.requestHeaders ++ ' ' :: d.responseHeaders)
  | .query => row.detail.map fun d => lower d.queryParams

def keywordCondition (keyword : Text) (row : StoredSession) : Bool :=
  let fields := if filter.searchIn.isEmpty then [.url, .host, .path, .method] else filter.searchIn
  fields.any fun field =>
    (field.column row).any (like '\\' (containing (p.toLowercase keyword)))

/-- The condition of `search_ws_messages_page` on the payload text. -/
def wsQueryCondition (query payloadText : Text) : Bool :=
  like '\\' (containing (p.toLowercase query)) (lower payloadText)

def protocolCondition (protocol : Text) (row : StoredSession) : Bool :=
  let protocol := p.toLowercase protocol
  lower row.scheme == protocol || lower row.protocol == protocol || lower row.httpVersion == protocol

def saturatingI64 (n : Nat) : Int := min (n : Int) i64Max

def columnConditions : List (StoredSession → Bool) :=
  whenGiven (given filter.host) (fun host row => lower row.host == p.toLowercase host) ++
  whenGiven (given filter.hostContains)
    (fun host row => like '\\' (containing (p.toLowercase host)) (lower row.host)) ++
  whenGiven (given filter.pathContains) (fun path row => instr row.path path) ++
  (filter.queryParams.filter fun param => !(trim param.1).isEmpty).map
    (fun param row => row.detail.any fun d => p.hasQueryParam d.queryParams (trim param.1) param.2) ++
  whenGiven (given filter.method) (fun method row => upper row.method == p.toUppercase method) ++
  whenGiven filter.statusMin (fun min row => (min : Int) ≤ row.statusCode) ++
  whenGiven filter.statusMax (fun max row => row.statusCode ≤ (max : Int)) ++
  whenGiven (given filter.protocol) (protocolCondition p) ++
  whenGiven (given filter.mime) (fun mime row =>
    like '\\' (containing (p.toLowercase mime)) (lower (row.responseMimeType.getD []))) ++
  whenGiven (given filter.startedAfter)
    (fun started row => (compareText started row.startedAt).isLE) ++
  whenGiven (given filter.startedBefore)
    (fun started row => (compareText row.startedAt started).isLE) ++
  whenGiven filter.minDurationMs (fun min row => saturatingI64 min ≤ row.durationMs) ++
  whenGiven filter.maxDurationMs (fun max row => row.durationMs ≤ saturatingI64 max) ++
  failureConditions failuresAvailable filter ++
  whenGiven (given filter.keyword) (keywordCondition p filter)

def conditions : List (StoredSession → Bool) :=
  whenGiven filter.afterRowid (fun after row => after < row.rowid) ++
    ((if filter.completedOnly then [completed failuresAvailable] else []) ++
      columnConditions p failuresAvailable filter)

def selects (row : StoredSession) : Bool :=
  (conditions p failuresAvailable filter).all fun condition => condition row

end Conditions

def SessionSortField.sqlColumn : SessionSortField → Option (StoredSession → Int)
  | .startedAt => none
  | .durationMs => some (·.durationMs)
  | .sizeBytes => some (·.sizeBytes)
  | .statusCode => some (·.statusCode)

/-- `a < b` or `a > b` -/
def SortOrder.comparison {α : Type} (order : SortOrder) (cmp : α → α → Ordering) (a b : α) : Bool :=
  match order with
  | .desc => cmp a b == .lt
  | .asc => cmp a b == .gt

/-- `ASC` or `DESC` -/
def SortOrder.sql {α : Type} (order : SortOrder) (cmp : α → α → Ordering) (a b : α) : Ordering :=
  match order with
  | .desc => cmp b a
  | .asc => cmp a b

/-- The columns of `ORDER BY`: the sort column, the start, the identifier. -/
def orderClause (filter : SessionSearchFilter) (a b : StoredSession) : Ordering :=
  let order := filter.sortOrder
  let ties :=
    (order.sql compareText a.startedAt b.startedAt).then (order.sql compareText a.id b.id)
  match filter.sortBy.sqlColumn with
  | some column => (order.sql compareInteger (column a) (column b)).then ties
  | none => ties

def cursorCondition (filter : SessionSearchFilter) (cursor : CursorPayload) :
    Except DbError (StoredSession → Bool) :=
  if cursor.sortBy ≠ filter.sortBy.asStr ∨ cursor.sortOrder ≠ filter.sortOrder.asStr then
    .error (.validation "cursor does not match the requested sort order")
  else
    let order := filter.sortOrder
    let ties (row : StoredSession) : Bool :=
      order.comparison compareText row.startedAt cursor.startedAt ||
        (row.startedAt == cursor.startedAt && order.comparison compareText row.id cursor.id)
    match filter.sortBy.sqlColumn with
    | some column =>
      match cursor.sortValue with
      | none => .error (.validation "cursor is missing its sort value")
      | some value =>
        .ok fun row => order.comparison compareInteger (column row) value ||
          (column row == value && ties row)
    | none => .ok ties

def summaryOf (failuresAvailable : Bool) (row : StoredSession) : SessionSummaryRow where
  toSessionInfo := { row.toSessionInfo with
    failureOrigin := if failuresAvailable then row.failureOrigin else none
    failureKind := if failuresAvailable then row.failureKind else none }
  durationMs := row.durationMs.toNat
  sizeBytes := row.sizeBytes.toNat
  statusCode := (min row.statusCode 65535).toNat
  failureMessage := if failuresAvailable then row.detail.bind (·.failureMessage) else none

def rowToSummary (failuresAvailable : Bool) (row : StoredSession) :
    Except DbError SessionSummaryRow :=
  if row.statusCode < -(2 ^ 31) ∨ 2 ^ 31 ≤ row.statusCode then
    .error (.queryFailed "decode session search row")
  else .ok (summaryOf failuresAvailable row)

def checkRanges (filter : SessionSearchFilter) : Except DbError Unit := do
  if let (some min, some max) := (filter.statusMin, filter.statusMax) then
    if max < min then
      throw (.validation "statusMin must not be greater than statusMax")
  if let (some min, some max) := (filter.minDurationMs, filter.maxDurationMs) then
    if max < min then
      throw (.validation "minDurationMs must not be greater than maxDurationMs")

def pageSize (limit : Nat) : Nat := max 1 (min limit maxSessionSearchLimit)

/-- The page of the rows that were read: one more than its size tells that there are others. -/
def pageOf (filter : SessionSearchFilter) (size : Nat) (rows : List SessionSummaryRow) :
    SessionSearchPage :=
  if size < rows.length then
    ⟨rows.take size, (rows.take size).getLast?.map fun row =>
      encodeCursor row filter.sortBy filter.sortOrder, true⟩
  else ⟨rows, none, false⟩

def searchSessions (p : SearchPlatform) (db : SessionDb) (filter : SessionSearchFilter)
    (limit : Nat) (cursor : Option Text) : Except DbError SessionSearchPage := do
  checkRanges filter
  let cursor ← cursor.mapM decodeCursor
  let after ← cursor.mapM (cursorCondition filter)
  let rows ← ((Keyset.orderBy (orderClause filter) (db.rows.filter fun row =>
      selects p db.failuresAvailable filter row && after.all fun condition => condition row)).take
    (pageSize limit + 1)).mapM (rowToSummary db.failuresAvailable)
  return pageOf filter (pageSize limit) rows

/-- The newest rowid of a completed session, `0` when there is none. -/
def latestCompletedSessionRowid (db : SessionDb) : Int :=
  maxRowid (db.rows.filter (completed db.failuresAvailable))

/-! ## What the pages of a search are to be

The matching rows of a table that does not change, each once, in the order of the search. A cursor can
only name a row whose sort key it can carry: that is asked of the rows of the table. -/

open Utf8 (encode)

/-- A row whose sort key a cursor can carry. The columns are 64-bit integers. -/
structure StoredSession.Nameable (row : StoredSession) : Prop where
  startedAt : isBlank row.startedAt = false
  id : isBlank row.id = false
  idLength : (encode row.id).length ≤ 256
  durationMs : 0 ≤ row.durationMs ∧ row.durationMs ≤ i64Max
  sizeBytes : 0 ≤ row.sizeBytes ∧ row.sizeBytes ≤ i64Max
  statusCode : 0 ≤ row.statusCode ∧ row.statusCode ≤ 65535

structure SessionDb.Searchable (db : SessionDb) (filter : SessionSearchFilter) : Prop where
  ids : (db.rows.map (·.id)).Nodup
  rows : ∀ row ∈ db.rows, row.Nameable
  cursors : ∀ row ∈ db.rows, (encode (encodeCursor (summaryOf db.failuresAvailable row) filter.sortBy
    filter.sortOrder)).length ≤ 1024

def SessionDb.matching (p : SearchPlatform) (db : SessionDb) (filter : SessionSearchFilter) :
    List StoredSession := db.rows.filter (selects p db.failuresAvailable filter)

def fetchPage (p : SearchPlatform) (db : SessionDb) (filter : SessionSearchFilter) (limit : Nat)
    (cursor : Option Text) : Except DbError (Keyset.Page SessionSummaryRow Text) :=
  (searchSessions p db filter limit cursor).map fun page => ⟨page.items, page.nextCursor⟩

def searchPages (p : SearchPlatform) (db : SessionDb) (filter : SessionSearchFilter)
    (limit fuel : Nat) :
    Except DbError (Option (List (List SessionSummaryRow))) :=
  Keyset.follow (fetchPage p db filter limit) fuel none

end AiProxy.Db
