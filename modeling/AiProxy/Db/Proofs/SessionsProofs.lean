import AiProxy.Db.SessionSearch
import AiProxy.Lib.Fallible

/-!
# Writing and reading sessions

What a write changes of the table, and which rows the items of a page are.
-/

namespace AiProxy.Db

open List

variable {row : StoredSession}

theorem foldl_max_rowid (rows : List StoredSession) : ∀ start : Int,
    start ≤ rows.foldl (fun acc row => max acc row.rowid) start ∧
      ∀ row ∈ rows, row.rowid ≤ rows.foldl (fun acc row => max acc row.rowid) start := by
  induction rows with
  | nil => exact fun start => ⟨le_refl _, forall_mem_nil _⟩
  | cons row rows ih =>
    intro start
    obtain ⟨hstart, hrows⟩ := ih (max start row.rowid)
    have hrow : row.rowid ≤ _ := (le_max_right _ _).trans hstart
    exact ⟨(le_max_left _ _).trans hstart, forall_mem_cons.mpr ⟨hrow, hrows⟩⟩

theorem rowid_le_maxRowid {rows : List StoredSession} (h : row ∈ rows) :
    row.rowid ≤ maxRowid rows := (foldl_max_rowid rows 0).2 row h

theorem maxRowid_nonneg (rows : List StoredSession) : 0 ≤ maxRowid rows := (foldl_max_rowid rows 0).1

theorem maxRowid_le {rows : List StoredSession} {bound : Int} (hbound : 0 ≤ bound)
    (h : ∀ row ∈ rows, row.rowid ≤ bound) : maxRowid rows ≤ bound := by
  have hfold : ∀ (rows : List StoredSession) (start : Int), start ≤ bound →
      (∀ row ∈ rows, row.rowid ≤ bound) →
        rows.foldl (fun acc row => max acc row.rowid) start ≤ bound := by
    intro rows
    induction rows with
    | nil => exact fun _ hstart _ => hstart
    | cons row rows ih =>
      intro start hstart hrows
      obtain ⟨hrow, hrest⟩ := forall_mem_cons.mp hrows
      exact ih _ (max_le hstart hrow) hrest
  exact hfold rows 0 hbound h

variable {db : SessionDb}

theorem rowid_le_latest (hrow : row ∈ db.rows) (hdone : completed db.failuresAvailable row = true) :
    row.rowid ≤ latestCompletedSessionRowid db := rowid_le_maxRowid (mem_filter.mpr ⟨hrow, hdone⟩)

/-- The table after a session was written: its row is the new one, the others are as they were. -/
structure Upserted (db db' : SessionDb) (summary : SessionSummaryRow) (detail : SessionDetailRow) :
    Prop where
  schema : db'.failuresAvailable = db.failuresAvailable
  others : ∀ row, row.id ≠ summary.id → (row ∈ db'.rows ↔ row ∈ db.rows)
  own : ∀ row ∈ db'.rows, row.id = summary.id → ∃ rowid, row = stored rowid summary detail
  ids : (db.rows.map (·.id)).Nodup → (db'.rows.map (·.id)).Nodup
  rowids : (∀ row ∈ db.rows, row.rowid ≤ i64Max) → ∀ row ∈ db'.rows, row.rowid ≤ i64Max

theorem upserted_update (db : SessionDb) (summary : SessionSummaryRow) (detail : SessionDetailRow) :
    Upserted db { db with rows := db.rows.map fun row =>
      if row.id = summary.id then stored row.rowid summary detail else row } summary detail where
  schema := rfl
  others row hne := by
    simp only [mem_map]
    constructor
    · rintro ⟨old, hold, heq⟩
      split at heq
      · exact absurd (heq ▸ rfl) hne
      · exact heq ▸ hold
    · intro hrow
      exact ⟨row, hrow, if_neg hne⟩
  own row hrow hid := by
    obtain ⟨old, -, heq⟩ := mem_map.mp hrow
    split at heq
    · exact ⟨old.rowid, heq.symm⟩
    · rename_i hne
      exact absurd (heq ▸ hid) hne
  ids h := by
    have hsame : (db.rows.map fun row =>
        if row.id = summary.id then stored row.rowid summary detail else row).map (·.id) =
          db.rows.map (·.id) := by
      rw [map_map]
      refine map_congr_left fun row _ => ?_
      simp only [Function.comp_apply]
      split
      · rename_i heq
        exact heq.symm
      · rfl
    rw [hsame]
    exact h
  rowids h row hrow := by
    obtain ⟨old, hold, rfl⟩ := mem_map.mp hrow
    split
    · exact h old hold
    · exact h old hold

theorem upserted_insert {summary : SessionSummaryRow} (detail : SessionDetailRow)
    (hnew : ∀ row ∈ db.rows, row.id ≠ summary.id) (hfull : maxRowid db.rows ≠ i64Max) :
    Upserted db { db with rows := db.rows ++ [stored (maxRowid db.rows + 1) summary detail] }
      summary detail where
  schema := rfl
  others row hne := by
    simp only [mem_append, mem_singleton, or_iff_left_iff_imp]
    rintro rfl
    exact absurd rfl hne
  own row hrow hid := by
    rcases mem_append.mp hrow with hrow | hrow
    · exact absurd hid (hnew row hrow)
    · exact ⟨_, mem_singleton.mp hrow⟩
  ids h := by
    rw [map_append, nodup_append]
    refine ⟨h, nodup_singleton _, fun a ha b hb => ?_⟩
    obtain ⟨row, hrow, rfl⟩ := mem_map.mp ha
    rw [mem_singleton.mp hb]
    exact hnew row hrow
  rowids h := by
    have hmax : maxRowid db.rows ≤ i64Max := maxRowid_le (by decide) h
    refine forall_mem_append.mpr ⟨h, forall_mem_singleton.mpr ?_⟩
    show maxRowid db.rows + 1 ≤ i64Max
    omega

theorem upsertSession_ok {db' : SessionDb} {summary : SessionSummaryRow} {detail : SessionDetailRow}
    (h : upsertSession db summary detail = .ok db') : Upserted db db' summary detail := by
  unfold upsertSession at h
  split at h
  · cases h
  split at h
  · cases h
    exact upserted_update db summary detail
  · rename_i hany
    split at h
    · cases h
    · rename_i hfull
      cases h
      refine upserted_insert detail (fun row hrow heq => hany ?_) hfull
      exact any_eq_true.mpr ⟨row, hrow, decide_eq_true heq⟩

theorem rowToSummary_ok {failuresAvailable : Bool} {item : SessionSummaryRow}
    (h : rowToSummary failuresAvailable row = .ok item) : item = summaryOf failuresAvailable row := by
  unfold rowToSummary at h
  split at h
  · cases h
  · exact (Except.ok.inj h).symm

theorem pageOf_items (filter : SessionSearchFilter) (size : Nat) (rows : List SessionSummaryRow) :
    (pageOf filter size rows).items = rows.take size := by
  unfold pageOf
  split
  · rfl
  · rename_i h
    exact (take_of_length_le (not_lt.mp h)).symm

section Items

variable {p : SearchPlatform} {db : SessionDb} {filter : SessionSearchFilter} {limit : Nat}
  {page : SessionSearchPage}

theorem searchSessions_items (h : searchSessions p db filter limit none = .ok page) :
    page.items = ((Keyset.orderBy (orderClause filter) (db.matching p filter)).take
      (pageSize limit)).map (summaryOf db.failuresAvailable) := by
  unfold searchSessions at h
  obtain ⟨-, -, h⟩ := Fallible.bind_ok_iff.mp h
  obtain ⟨payload, hpayload, h⟩ := Fallible.bind_ok_iff.mp h
  cases hpayload
  obtain ⟨after, hafter, h⟩ := Fallible.bind_ok_iff.mp h
  cases hafter
  obtain ⟨items, hitems, h⟩ := Fallible.bind_ok_iff.mp h
  cases h
  simp only [Option.all_none, Bool.and_true] at hitems
  rw [pageOf_items, Fallible.eq_map_of_mapM_ok (fun _ _ => rowToSummary_ok) hitems, ← map_take,
    take_take, min_eq_left (Nat.le_succ _)]
  rfl

end Items

namespace Sample

/-- A search whose letters are those of `Char`. -/
def searchPlatform : SearchPlatform :=
  ⟨List.map Char.toLower, List.map Char.toUpper, fun _ _ _ => false⟩

def info (id : String) : SessionInfo where
  id := id.toList
  method := "GET"
  host := "api.example.com"
  path := "/login"
  protocol := "https"
  scheme := "https"
  httpVersion := "1.1"
  transportProtocol := "tcp"
  applicationProtocol := "http"
  startedAt := "2026-10-17T10:00:00Z"
  finishedAt := "2026-10-17T10:00:01Z"
  url := "https://api.example.com/login"
  responseMimeType := none
  failureOrigin := none
  failureKind := none

end Sample

end AiProxy.Db
