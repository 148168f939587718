import AiProxy.Db.Proofs.CursorProofs
import AiProxy.Db.Proofs.SessionsProofs

/-!
# The pages of a search

The condition of a cursor selects exactly the rows after the one it names, so the pages of a search
are consecutive parts of the ordered matches.
-/

namespace AiProxy.Db

open List
open Keyset (orderBy Distinct follow Pages)
open Sqlite (compareInteger compareText)
open Utf8 (encode)

variable {rows : List StoredSession}

/-! ## The order -/

section Order

variable {α : Type} {cmp : α → α → Ordering}

instance (order : SortOrder) [Std.TransCmp cmp] : Std.TransCmp (order.sql cmp) :=
  match order with
  | .asc => inferInstanceAs (Std.TransCmp cmp)
  | .desc => inferInstanceAs (Std.TransCmp fun a b => cmp b a)

theorem SortOrder.comparison_eq (order : SortOrder) [Std.OrientedCmp cmp] (a b : α) :
    order.comparison cmp b a = (order.sql cmp a b == .lt) := by
  cases order with
  | desc => rfl
  | asc =>
    have hswap : cmp b a = (cmp a b).swap := Std.OrientedCmp.eq_swap
    rw [SortOrder.comparison, SortOrder.sql, hswap]
    cases cmp a b <;> rfl

theorem SortOrder.sql_beq_eq [BEq α] [LawfulBEq α] [Std.LawfulEqCmp cmp] (order : SortOrder)
    (a b : α) : (order.sql cmp a b == .eq) = (b == a) := by
  have hlawful : ∀ {x y : α}, cmp x y = .eq ↔ x = y := Std.LawfulEqCmp.compare_eq_iff_eq
  rw [Bool.eq_iff_iff, beq_iff_eq, beq_iff_eq]
  cases order with
  | desc => exact hlawful
  | asc => exact hlawful.trans eq_comm

end Order

def ties (order : SortOrder) (a b : StoredSession) : Ordering :=
  (order.sql compareText a.startedAt b.startedAt).then (order.sql compareText a.id b.id)

instance (order : SortOrder) : Std.TransCmp (ties order) :=
  have := Sqlite.transCmp_on (order.sql compareText) fun row : StoredSession => row.startedAt
  have := Sqlite.transCmp_on (order.sql compareText) fun row : StoredSession => row.id
  Sqlite.transCmp_then (fun a b : StoredSession => order.sql compareText a.startedAt b.startedAt)
    fun a b => order.sql compareText a.id b.id

variable {filter : SessionSearchFilter}

theorem orderClause_column {column : StoredSession → Int}
    (h : filter.sortBy.sqlColumn = some column) : orderClause filter = fun a b =>
      (filter.sortOrder.sql compareInteger (column a) (column b)).then (ties filter.sortOrder a b) := by
  funext a b
  simp only [orderClause, h]
  rfl

theorem orderClause_ties (h : filter.sortBy.sqlColumn = none) :
    orderClause filter = ties filter.sortOrder := by
  funext a b
  simp only [orderClause, h]
  rfl

instance (filter : SessionSearchFilter) : Std.TransCmp (orderClause filter) := by
  cases h : filter.sortBy.sqlColumn with
  | none =>
    rw [orderClause_ties h]
    infer_instance
  | some column =>
    rw [orderClause_column h]
    have := Sqlite.transCmp_on (filter.sortOrder.sql compareInteger) column
    exact Sqlite.transCmp_then (fun a b => filter.sortOrder.sql compareInteger (column a) (column b))
      (ties filter.sortOrder)

theorem id_eq_of_ties {order : SortOrder} {a b : StoredSession} (h : ties order a b = .eq) :
    a.id = b.id := by
  have hid : (order.sql compareText a.id b.id == .eq) = true :=
    beq_iff_eq.mpr (Ordering.then_eq_eq.mp h).2
  rw [SortOrder.sql_beq_eq, beq_iff_eq] at hid
  exact hid.symm

theorem id_eq_of_orderClause {a b : StoredSession}
    (h : orderClause filter a b = .eq) : a.id = b.id := by
  cases hc : filter.sortBy.sqlColumn with
  | none => exact id_eq_of_ties (orderClause_ties hc ▸ h)
  | some column =>
    rw [orderClause_column hc] at h
    exact id_eq_of_ties (Ordering.then_eq_eq.mp h).2

theorem distinct_of_ids (h : (rows.map (·.id)).Nodup)
    (filter : SessionSearchFilter) : Distinct (orderClause filter) rows := fun _ ha _ hb heq =>
  inj_on_of_nodup_map h ha hb (id_eq_of_orderClause heq)

/-- The sort key of a row as its cursor has it. -/
structure Names (filter : SessionSearchFilter) (row : StoredSession) (cursor : CursorPayload) :
  Prop where
  sortBy : cursor.sortBy = filter.sortBy.asStr
  sortOrder : cursor.sortOrder = filter.sortOrder.asStr
  startedAt : cursor.startedAt = row.startedAt
  id : cursor.id = row.id
  sortValue : ∀ column, filter.sortBy.sqlColumn = some column → cursor.sortValue = some (column row)

theorem Names.cursorCondition {row : StoredSession} {cursor : CursorPayload}
    (h : Names filter row cursor) :
    cursorCondition filter cursor = .ok fun other => orderClause filter row other == .lt := by
  have hsame : ¬ (cursor.sortBy ≠ filter.sortBy.asStr ∨ cursor.sortOrder ≠ filter.sortOrder.asStr) := by
    rintro (hne | hne)
    · exact hne h.sortBy
    · exact hne h.sortOrder
  rw [Db.cursorCondition, if_neg hsame]
  have hties : ∀ other : StoredSession,
      (filter.sortOrder.comparison compareText other.startedAt cursor.startedAt ||
        (other.startedAt == cursor.startedAt &&
          filter.sortOrder.comparison compareText other.id cursor.id)) =
        (ties filter.sortOrder row other == .lt) := by
    intro other
    rw [ties, Sqlite.then_beq_lt, h.startedAt, h.id, SortOrder.comparison_eq, SortOrder.comparison_eq,
      SortOrder.sql_beq_eq]
  cases hc : filter.sortBy.sqlColumn with
  | none =>
    rw [orderClause_ties hc]
    exact congrArg Except.ok (funext hties)
  | some column =>
    rw [orderClause_column hc]
    simp only [h.sortValue column hc]
    refine congrArg Except.ok (funext fun other => ?_)
    rw [hties, Sqlite.then_beq_lt, SortOrder.comparison_eq, SortOrder.sql_beq_eq]

section Page

variable {p : SearchPlatform} {db : SessionDb} {cursor : Option Text} {row : StoredSession}

theorem StoredSession.Nameable.rowToSummary (h : row.Nameable) (failuresAvailable : Bool) :
    Db.rowToSummary failuresAvailable row = .ok (summaryOf failuresAvailable row) := by
  have hstatus := h.statusCode
  refine if_neg ?_
  rintro (hlow | hhigh) <;> omega

theorem StoredSession.Nameable.summaryOf (h : row.Nameable)
    (failuresAvailable : Bool) : (Db.summaryOf failuresAvailable row).Nameable := by
  refine ⟨h.startedAt, h.id, h.idLength, ?_⟩
  show (min row.statusCode 65535).toNat ≤ 65535
  omega

theorem StoredSession.Nameable.names (h : row.Nameable)
    (failuresAvailable : Bool) (filter : SessionSearchFilter) :
    Names filter row (cursorOf
      (Db.summaryOf failuresAvailable row) filter.sortBy filter.sortOrder) := by
  refine ⟨rfl, rfl, rfl, rfl, fun column hcolumn => ?_⟩
  have hduration := h.durationMs
  have hsize := h.sizeBytes
  have hstatus := h.statusCode
  cases hsort : filter.sortBy with
  | startedAt => rw [hsort] at hcolumn; cases hcolumn
  | durationMs =>
    rw [hsort] at hcolumn
    cases hcolumn
    refine congrArg some ?_
    show min ((row.durationMs.toNat : Nat) : Int) i64Max = row.durationMs
    omega
  | sizeBytes =>
    rw [hsort] at hcolumn
    cases hcolumn
    refine congrArg some ?_
    show min ((row.sizeBytes.toNat : Nat) : Int) i64Max = row.sizeBytes
    omega
  | statusCode =>
    rw [hsort] at hcolumn
    cases hcolumn
    refine congrArg some ?_
    show (((min row.statusCode 65535).toNat : Nat) : Int) = row.statusCode
    omega

theorem pageOf_take (size : Nat) (rows : List SessionSummaryRow) :
    pageOf filter size (rows.take (size + 1)) = pageOf filter size rows := by
  by_cases h : size < rows.length
  · have hcut : size < (rows.take (size + 1)).length := by rw [length_take]; omega
    have htake : (rows.take (size + 1)).take size = rows.take size := by
      rw [take_take, min_eq_left (Nat.le_succ size)]
    rw [pageOf, if_pos hcut, htake, pageOf, if_pos h]
  · rw [take_of_length_le (by omega)]

theorem searchSessions_eq (hranges : checkRanges filter = .ok ()) (limit : Nat)
    {payload : Option CursorPayload} {after : Option (StoredSession → Bool)}
    (hpayload : cursor.mapM decodeCursor = .ok payload)
    (hafter : payload.mapM (cursorCondition filter) = .ok after) {rest : List StoredSession}
    (hrest : orderBy (orderClause filter)
      (db.rows.filter fun row =>
        selects p db.failuresAvailable filter row && after.all fun condition => condition row) = rest)
    (hread : ∀ row ∈ rest, row.Nameable) :
    searchSessions p db filter limit cursor =
      .ok (pageOf filter (pageSize limit) (rest.map (summaryOf db.failuresAvailable))) := by
  have hrows : (rest.take (pageSize limit + 1)).mapM (rowToSummary db.failuresAvailable) =
      .ok ((rest.take (pageSize limit + 1)).map (summaryOf db.failuresAvailable)) :=
    Fallible.mapM_ok fun row hrow => (hread row (mem_of_mem_take hrow)).rowToSummary _
  rw [searchSessions, hranges, Fallible.ok_bind, hpayload, Fallible.ok_bind, hafter, Fallible.ok_bind,
    hrest, hrows, Fallible.ok_bind, map_take, pageOf_take]
  rfl

def results (p : SearchPlatform) (db : SessionDb) (filter : SessionSearchFilter) : List StoredSession :=
  orderBy (orderClause filter) (db.matching p filter)

/-- The rows of the result from a cursor on: all of them, or those after the row it names. -/
def From (p : SearchPlatform) (db : SessionDb) (filter : SessionSearchFilter) :
    Option Text → List StoredSession → Prop
  | none, rows => results p db filter = rows
  | some cursor, rows => ∃ before last, results p db filter = before ++ last :: rows ∧
      cursor = encodeCursor (summaryOf db.failuresAvailable last) filter.sortBy filter.sortOrder

theorem From.mem (h : From p db filter cursor rows) : ∀ row ∈ rows, row ∈ db.rows := by
  intro row hrow
  refine mem_of_mem_filter (Keyset.mem_orderBy.mp (?_ : row ∈ results p db filter))
  cases cursor with
  | none => exact h.symm ▸ hrow
  | some cursor =>
    obtain ⟨before, last, hresults, -⟩ := h
    rw [hresults]
    exact mem_append_right _ (mem_cons_of_mem _ hrow)

theorem From.searchSessions (hdb : db.Searchable filter) (hranges : checkRanges filter = .ok ())
    (limit : Nat) (h : From p db filter cursor rows) : Db.searchSessions p db filter limit cursor =
      .ok (pageOf filter (pageSize limit) (rows.map (summaryOf db.failuresAvailable))) := by
  have hread : ∀ row ∈ rows, row.Nameable := fun row hrow => hdb.rows row (h.mem row hrow)
  cases cursor with
  | none =>
    have hpayload : (none : Option Text).mapM decodeCursor = .ok none := rfl
    have hafter : (none : Option CursorPayload).mapM (cursorCondition filter) = .ok none := rfl
    refine searchSessions_eq hranges limit hpayload hafter ?_ hread
    simp only [Option.all_none, Bool.and_true]
    exact h
  | some cursor =>
    obtain ⟨before, last, hresults, rfl⟩ := h
    have hmatching : last ∈ db.matching p filter :=
      Keyset.mem_orderBy.mp (hresults ▸ mem_append_right _ mem_cons_self)
    have hlast : last ∈ db.rows := mem_of_mem_filter hmatching
    have hname := hdb.rows last hlast
    have hdecode := (hname.summaryOf db.failuresAvailable).decodeCursor filter.sortBy filter.sortOrder
      (hdb.cursors last hlast)
    have hcondition := (hname.names db.failuresAvailable filter).cursorCondition
    generalize encodeCursor (summaryOf db.failuresAvailable last) filter.sortBy filter.sortOrder =
      cursor
      at hdecode
    have hpayload : (some cursor).mapM decodeCursor = .ok (some (cursorOf
        (summaryOf db.failuresAvailable last) filter.sortBy filter.sortOrder)) := by
      rw [Option.mapM_some, hdecode]
      rfl
    have hafter : (some (cursorOf (summaryOf db.failuresAvailable last) filter.sortBy
        filter.sortOrder)).mapM (cursorCondition filter) =
          .ok (some fun other => orderClause filter last other == .lt) := by
      rw [Option.mapM_some, hcondition]
      rfl
    refine searchSessions_eq hranges limit hpayload hafter ?_ hread
    have hids : ((db.matching p filter).map (·.id)).Nodup :=
      hdb.ids.sublist ((filter_sublist).map _)
    have hnodup : (db.matching p filter).Nodup := hids.of_map _
    have hrest := Keyset.orderBy_after (distinct_of_ids hids filter) hnodup hresults
    rw [SessionDb.matching, filter_filter] at hrest
    simp only [Option.all_some]
    rw [← hrest]
    exact congrArg _ (filter_congr fun row _ => Bool.and_comm _ _)

theorem pages_fetchPage (hdb : db.Searchable filter) (hranges : checkRanges filter = .ok ())
    (limit : Nat) : Pages (fetchPage p db filter limit) (pageSize limit) fun cursor rest =>
      ∃ rows, From p db filter cursor rows ∧ rest = rows.map (summaryOf db.failuresAvailable) := by
  have hpos : 0 < pageSize limit := by rw [pageSize]; omega
  refine ⟨hpos, ?_, ?_⟩
  · rintro cursor _ ⟨rows, hfrom, rfl⟩ hle
    rw [fetchPage, hfrom.searchSessions hdb hranges, pageOf, if_neg (not_lt.mpr hle)]
    rfl
  · rintro cursor _ ⟨rows, hfrom, rfl⟩ hlt
    rw [length_map] at hlt
    have hne : rows.take (pageSize limit) ≠ [] := by
      rw [← length_pos_iff, length_take]
      omega
    -- The last row of the page is the one its cursor names.
    obtain ⟨init, last, htake⟩ : ∃ init last, rows.take (pageSize limit) = init ++ [last] :=
      ⟨_, _, (dropLast_append_getLast hne).symm⟩
    have hsplit : rows = init ++ last :: rows.drop (pageSize limit) := by
      have hjoin := take_append_drop (pageSize limit) rows
      rw [htake, append_assoc] at hjoin
      exact hjoin.symm
    refine ⟨encodeCursor (summaryOf db.failuresAvailable last) filter.sortBy filter.sortOrder, ?_,
      rows.drop (pageSize limit), ?_, map_drop.symm⟩
    · have hlength : pageSize limit < (rows.map (summaryOf db.failuresAvailable)).length := by
        rwa [length_map]
      rw [fetchPage, hfrom.searchSessions hdb hranges, pageOf, if_pos hlength, ← map_take, htake,
        map_append, map_singleton, getLast?_concat]
      rfl
    · cases cursor with
      | none => exact ⟨init, last, hfrom.trans hsplit, rfl⟩
      | some cursor =>
        obtain ⟨before, previous, hresults, -⟩ := hfrom
        refine ⟨before ++ previous :: init, last, ?_, rfl⟩
        rw [hresults, append_assoc, cons_append, ← hsplit]

end Page

/-! ## The result -/

section Result

variable (p : SearchPlatform) {db : SessionDb} {filter : SessionSearchFilter}

theorem results_pairwise (hdb : db.Searchable filter) :
    (results p db filter).Pairwise fun a b => orderClause filter a b = .lt := by
  have hids : ((db.matching p filter).map (·.id)).Nodup := hdb.ids.sublist ((filter_sublist).map _)
  have hnodup : (results p db filter).Nodup := (Keyset.orderBy_perm _).nodup_iff.mpr (hids.of_map _)
  refine (Keyset.orderBy_pairwise _ |>.and hnodup).imp_of_mem fun {a b} ha hb hab => ?_
  have hdistinct := distinct_of_ids hids filter a (Keyset.mem_orderBy.mp ha) b
    (Keyset.mem_orderBy.mp hb)
  cases hcmp : orderClause filter a b with
  | lt => rfl
  | eq => exact absurd (hdistinct hcmp) hab.2
  | gt =>
    have hle := hab.1
    rw [hcmp] at hle
    cases hle

/-- Following the cursors of a search from the first page on ends after finitely many requests, and the
pages together are the matching rows, each of them once, in the order of the search. A filter with a
reversed range is refused. -/
theorem search_pages_exact (hdb : db.Searchable filter) (limit fuel : Nat)
    (hfuel : (db.matching p filter).length < fuel) :
    (∀ e, checkRanges filter = .error e → searchPages p db filter limit fuel = .error e) ∧
    (checkRanges filter = .ok () →
      ∃ (pages : List (List SessionSummaryRow)) (rows : List StoredSession),
      searchPages p db filter limit fuel = .ok (some pages) ∧
      pages.flatten = rows.map (summaryOf db.failuresAvailable) ∧
      rows.Perm (db.matching p filter) ∧
      rows.Pairwise fun a b => orderClause filter a b = .lt) := by
  refine ⟨fun e he => ?_, fun hranges => ?_⟩
  · obtain ⟨fuel, rfl⟩ := Nat.exists_eq_succ_of_ne_zero (Nat.ne_of_gt (Nat.zero_lt_of_lt hfuel))
    have hfetch : fetchPage p db filter limit none = .error e := by
      rw [fetchPage, searchSessions, he]
      rfl
    exact Keyset.follow_error hfetch fuel
  · have hlength : ((results p db filter).map (summaryOf db.failuresAvailable)).length < fuel := by
      rwa [length_map, results, (Keyset.orderBy_perm _).length_eq]
    have hall : ∃ rows, From p db filter none rows ∧
        (results p db filter).map (summaryOf db.failuresAvailable) =
          rows.map (summaryOf db.failuresAvailable) := ⟨results p db filter, rfl, rfl⟩
    obtain ⟨pages, hpages, hflat, -⟩ :=
      Keyset.follow_eq (pages_fetchPage hdb hranges limit) fuel hall hlength
    exact ⟨pages, results p db filter, hpages, hflat, Keyset.orderBy_perm _, results_pairwise p hdb⟩

end Result

namespace Sample

def row (rowid : Int) (id : String) (statusCode : Int) : StoredSession where
  toSessionInfo := info id
  rowid := rowid
  durationMs := 120
  sizeBytes := 10
  statusCode := statusCode
  detail := none

def table : SessionDb := ⟨[row 1 "b" 200, row 2 "a" 200], true⟩

def blankTable : SessionDb := ⟨[row 1 " " 200, row 2 "a" 200], true⟩

def largeTable : SessionDb := ⟨[row 1 "a" 70000, row 2 "b" 70000], true⟩

def ascending : SessionSearchFilter := { sortOrder := .asc }

def byStatus : SessionSearchFilter := { sortBy := .statusCode, sortOrder := .asc }

set_option maxRecDepth 20000 in
theorem table_searchable : table.Searchable {} where
  ids := by decide
  rows := by
    simp only [table, forall_mem_cons]
    refine ⟨⟨by decide, by decide, by decide, by decide, by decide, by decide⟩,
      ⟨by decide, by decide, by decide, by decide, by decide, by decide⟩, ?_⟩
    exact forall_mem_nil _
  cursors := by
    simp only [table, forall_mem_cons]
    refine ⟨by decide, by decide, forall_mem_nil _⟩

end Sample

theorem search_pages_exact_two_rows : ∃ (pages : List (List SessionSummaryRow))
    (rows : List StoredSession),
    searchPages Sample.searchPlatform Sample.table {} 1 3 = .ok (some pages) ∧
      pages.flatten = rows.map (summaryOf true) ∧
      rows.Perm (Sample.table.matching Sample.searchPlatform {}) ∧
      rows.Pairwise fun a b => orderClause {} a b = .lt :=
  (search_pages_exact Sample.searchPlatform Sample.table_searchable 1 3 (by decide)).2 rfl

namespace Sample

theorem blank_first : fetchPage searchPlatform blankTable ascending 1 none =
    .ok ⟨[summaryOf true (row 1 " " 200)],
      some (encodeCursor (summaryOf true (row 1 " " 200)) .startedAt .asc)⟩ := rfl

theorem blank_next : fetchPage searchPlatform blankTable ascending 1
    (some (encodeCursor (summaryOf true (row 1 " " 200)) .startedAt .asc)) = .error invalidCursor := by
  have hdecode : decodeCursor (encodeCursor (summaryOf true (row 1 " " 200)) .startedAt .asc) =
      .error invalidCursor := decodeCursor_blank (by decide) (by decide) _ _
  have hranges : checkRanges ascending = .ok () := rfl
  rw [fetchPage, searchSessions, hranges, Option.mapM_some, hdecode]
  rfl

theorem large_first : fetchPage searchPlatform largeTable byStatus 1 none =
    .ok ⟨[summaryOf true (row 1 "a" 70000)],
      some (encodeCursor (summaryOf true (row 1 "a" 70000)) .statusCode .asc)⟩ := rfl

set_option maxRecDepth 20000 in
theorem large_cursor_length :
    (encode (encodeCursor (summaryOf true (row 1 "a" 70000)) .statusCode .asc)).length ≤ 1024 := by
  decide

theorem large_next : fetchPage searchPlatform largeTable byStatus 1
    (some (encodeCursor (summaryOf true (row 1 "a" 70000)) .statusCode .asc)) =
    .ok ⟨[summaryOf true (row 1 "a" 70000)],
      some (encodeCursor (summaryOf true (row 1 "a" 70000)) .statusCode .asc)⟩ := by
  have hname : (summaryOf true (row 1 "a" 70000)).Nameable :=
    ⟨by decide, by decide, by decide, by decide⟩
  have hdecode := hname.decodeCursor .statusCode .asc large_cursor_length
  have hranges : checkRanges byStatus = .ok () := rfl
  rw [fetchPage, searchSessions, hranges, Option.mapM_some, hdecode]
  rfl

end Sample

/-- A blank identifier and a code that is no `u16` are kept by the table, but a cursor cannot carry
them: the pages end with an error, or never. -/
theorem pages_end_at_unnameable_rows :
    (∀ db ∈ [Sample.blankTable, Sample.largeTable], (db.rows.map (·.id)).Nodup ∧
      ∀ row ∈ db.rows, row.id ≠ [] ∧ (encode row.id).length ≤ 256 ∧ isBlank row.startedAt = false ∧
        0 ≤ row.durationMs ∧ 0 ≤ row.sizeBytes ∧ 0 ≤ row.statusCode) ∧
    (∀ fuel, searchPages Sample.searchPlatform Sample.blankTable Sample.ascending 1 (fuel + 2) =
      .error invalidCursor) ∧
    ∀ fuel, searchPages Sample.searchPlatform Sample.largeTable Sample.byStatus 1 fuel = .ok none := by
  refine ⟨by decide, fun fuel => ?_, fun fuel => ?_⟩
  · rw [searchPages, Keyset.follow_next Sample.blank_first, Keyset.follow_error Sample.blank_next]
    rfl
  · -- Every page asks for itself again.
    have hloop : ∀ fuel, follow
      (fetchPage Sample.searchPlatform Sample.largeTable Sample.byStatus 1) fuel
        (some (encodeCursor (summaryOf true (Sample.row 1 "a" 70000)) .statusCode .asc)) =
          .ok none := by
      intro fuel
      induction fuel with
      | zero => rfl
      | succ fuel ih =>
        rw [Keyset.follow_next Sample.large_next, ih]
        rfl
    cases fuel with
    | zero => rfl
    | succ fuel =>
      rw [searchPages, Keyset.follow_next Sample.large_first, hloop fuel]
      rfl

end AiProxy.Db
