import AiProxy.Db.Proofs.SessionsProofs
import AiProxy.Lib.Decimal
import AiProxy.Mcp.WaitForSessions

/-!
# Repeated waiting

No session is returned twice: a session that was returned stays at or below every later watermark.
-/

namespace AiProxy.Mcp

open List Db
open Run (exec Along)
open WaitState (start write call)

variable {row : StoredSession} {db : SessionDb} {s s' : WaitState} {after : Int}
  {items : List SessionSummaryRow} {es : List WaitEvent}

theorem trim_eq_self {t : Text} (h : ∀ c ∈ t, isWhitespace c = false) : trim t = t := by
  have hkeep : ∀ u : Text, (∀ c ∈ u, isWhitespace c = false) → u.dropWhile isWhitespace = u := by
    intro u hu
    cases u with
    | nil => rfl
    | cons c u => rw [dropWhile_cons, hu c mem_cons_self]; rfl
  rw [trim, hkeep t h, hkeep t.reverse fun c hc => h c (mem_reverse.mp hc), reverse_reverse]

theorem isWhitespace_of_isDigit {c : Char} (h : c.isDigit = true) : isWhitespace c = false := by
  have hrange := Decimal.range_of_isDigit h
  simp only [isWhitespace, Bool.or_eq_false_iff, Bool.and_eq_false_iff, decide_eq_false_iff_not,
    beq_eq_false_iff_ne]
  omega

theorem parseI64_natText {n : Nat} (h : (n : Int) ≤ i64Max) : parseI64 (natText n) = some
    (n : Int) := by
  have hdigit : ∀ c ∈ natText n, c.isDigit = true := fun c => Decimal.isDigit_of_mem_repr
  have hsign : ∀ c : Char, c.isDigit = false → ((natText n).head? == some c) = false := by
    intro c hc
    rw [beq_eq_false_iff_ne]
    intro hhead
    have := hdigit c (mem_of_mem_head? hhead)
    rw [hc] at this
    cases this
  have hne : (natText n).isEmpty = false := isEmpty_eq_false_iff.mpr (Decimal.toList_repr_ne_nil n)
  have hvalue : Nat.ofDigitChars 10 (natText n) 0 = n := by
    rw [natText, Nat.toList_repr, Nat.ofDigitChars_ten_toDigits]
  have hall : (natText n).all Char.isDigit = true := all_eq_true.mpr hdigit
  simp only [parseI64, hsign '-' (by decide), hsign '+' (by decide), Bool.or_self, Bool.false_eq_true,
    if_false, hne, hall, Bool.not_true, hvalue]
  exact if_pos ⟨by omega, h⟩

theorem parseWatermark_encodeWatermark {N : Type} {rowid : Int} (h : 0 ≤ rowid) (hle : rowid ≤ i64Max) :
    parseWatermark (N := N) (encodeWatermark rowid) = .ok rowid := by
  obtain ⟨n, rfl⟩ := Int.eq_ofNat_of_zero_le h
  have hencode : encodeWatermark (n : Int) = "w1:" ++ natText n := by
    rw [encodeWatermark, max_eq_left h, Int.toNat_natCast]
  have hplain : ∀ c ∈ "w1:" ++ natText n, isWhitespace c = false := by
    intro c hc
    rcases mem_append.mp hc with hc | hc
    · have hall : "w1:".toList.all (fun c => isWhitespace c == false) = true := by decide
      exact beq_iff_eq.mp (all_eq_true.mp hall c hc)
    · exact isWhitespace_of_isDigit (Decimal.isDigit_of_mem_repr hc)
  have hbegin : "w1:".toList.isPrefixOf ("w1:" ++ natText n) = true :=
    isPrefixOf_iff_prefix.mpr (prefix_append _ _)
  have hdrop : ("w1:" ++ natText n).drop 3 = natText n := rfl
  rw [parseWatermark, hencode, trim_eq_self hplain]
  simp only [hbegin, Bool.not_true, Bool.false_eq_true, if_false, hdrop, parseI64_natText hle]
  exact if_neg (Int.not_lt.mpr h)

variable {N : Type} {p : SearchPlatform} {config : WaitConfig} {request : WaitForSessionsRequest}

section

variable {summary : SessionSummaryRow} {detail : SessionDetailRow}

theorem selects_filter (failuresAvailable : Bool) (row : StoredSession) :
    selects p failuresAvailable request.filter row = (completed failuresAvailable row &&
      (columnConditions p failuresAvailable request.filter).all fun condition => condition row) := by
  rw [selects, conditions, all_append]
  simp [whenGiven, WaitForSessionsRequest.filter]

theorem selects_after (failuresAvailable : Bool) (after : Int) (row : StoredSession) :
    selects p failuresAvailable { request.filter with afterRowid := some after } row =
      (decide (after < row.rowid) && selects p failuresAvailable request.filter row) := by
  have hcolumns : columnConditions p failuresAvailable
      { request.filter with afterRowid := some after } =
        columnConditions p failuresAvailable request.filter := rfl
  rw [selects_filter, selects, conditions, hcolumns]
  simp [whenGiven, WaitForSessionsRequest.filter]

theorem completed_of_selects {failuresAvailable : Bool}
    (h : selects p failuresAvailable request.filter row = true) :
    completed failuresAvailable row = true := by
  rw [selects_filter, Bool.and_eq_true] at h
  exact h.1

/-- What holds in every state: the completed sessions of the table are those that finished, and the
returned ones among them are not above the watermark of the client. -/
structure WaitState.Inv (s : WaitState) : Prop where
  table : WellFormed s.db
  finished : ∀ row ∈ s.db.rows, row.id ∈ s.finished ↔ completed s.db.failuresAvailable row = true
  watched : ∀ id ∈ s.watched, id ∈ s.finished
  returned : ∀ id ∈ s.returned, id ∈ s.finished
  nodup : s.returned.Nodup
  passed : ∀ row ∈ s.db.rows, row.id ∈ s.returned → s.Passed row
  unserved : s.served = false → s.returned = [] ∧ s.watched = []
  held : s.served = true → ∃ after, s.client.after = some after
  after : ∀ after, s.client.after = some after → 0 ≤ after ∧ after ≤ i64Max
  page : ∀ after items, s.client = .answered after items → (items.map (·.id)).Nodup ∧
    (∀ id ∈ items.map (·.id), id ∈ s.finished ∧ id ∉ s.returned) ∧
      ∀ row ∈ s.db.rows, row.id ∈ items.map (·.id) → after < row.rowid

theorem latest_bounds (h : WellFormed db) :
    0 ≤ latestCompletedSessionRowid db ∧ latestCompletedSessionRowid db ≤ i64Max :=
  ⟨maxRowid_nonneg _, maxRowid_le (by decide) fun row hrow =>
    h.rowids row (mem_of_mem_filter hrow)⟩

theorem start_inv (h : WellFormed db) : (start db).Inv where
  table := h
  finished row hrow := by
    constructor
    · intro hid
      obtain ⟨other, hother, heq⟩ := mem_map.mp hid
      obtain ⟨hmem, hdone⟩ := mem_filter.mp hother
      exact inj_on_of_nodup_map h.ids hmem hrow heq ▸ hdone
    · exact fun hdone => mem_map.mpr ⟨row, mem_filter.mpr ⟨hrow, hdone⟩, rfl⟩
  watched _ hid := absurd hid not_mem_nil
  returned _ hid := absurd hid not_mem_nil
  nodup := nodup_nil
  passed _ _ hid := absurd hid not_mem_nil
  unserved _ := ⟨rfl, rfl⟩
  held hserved := nomatch hserved
  after _ hafter := nomatch hafter
  page _ _ hclient := nomatch hclient

theorem WaitState.Inv.remove (h : s.Inv) {rows : List StoredSession}
    (hrows : rows.Sublist s.db.rows) : WaitState.Inv { s with db := { s.db with rows := rows } } where
  table := ⟨h.table.ids.sublist (hrows.map _), fun row hrow => h.table.rowids row (hrows.mem hrow)⟩
  finished row hrow := h.finished row (hrows.mem hrow)
  watched := h.watched
  returned := h.returned
  nodup := h.nodup
  passed row hrow := h.passed row (hrows.mem hrow)
  unserved := h.unserved
  held := h.held
  after := h.after
  page after items hclient :=
    ⟨(h.page after items hclient).1, (h.page after items hclient).2.1, fun row hrow =>
      (h.page after items hclient).2.2 row (hrows.mem hrow)⟩

theorem write_cases (s : WaitState) (summary : SessionSummaryRow) (detail : SessionDetailRow) :
    (∃ e, upsertSession s.db summary detail = .error e ∧ s.write summary detail = s) ∨
      ∃ db, upsertSession s.db summary detail = .ok db ∧
      Upserted s.db db summary detail ∧
      ((completes s.db summary detail = false ∧ s.write summary detail = { s with db := db }) ∨
        (completes s.db summary detail = true ∧ s.write summary detail = { s with
          db := db
          finished := summary.id :: s.finished
          watched := if s.served then summary.id :: s.watched else s.watched })) := by
  cases hwrite : upsertSession s.db summary detail with
  | error e =>
    refine .inl ⟨e, rfl, ?_⟩
    rw [write, hwrite]
  | ok db =>
    refine .inr ⟨db, rfl, upsertSession_ok hwrite, ?_⟩
    cases hdone : completes s.db summary detail with
    | false =>
      refine .inl ⟨rfl, ?_⟩
      rw [write, hwrite]
      simp only [hdone, Bool.false_eq_true, if_false]
    | true =>
      refine .inr ⟨rfl, ?_⟩
      rw [write, hwrite]
      simp only [hdone, if_true]

theorem completed_own {db' : SessionDb}
    (h : Upserted db db' summary detail) (hrow : row ∈ db'.rows) (hid : row.id = summary.id) :
    completed db'.failuresAvailable row = completes db summary detail := by
  obtain ⟨rowid, rfl⟩ := h.own row hrow hid
  rw [h.schema]
  rfl

theorem WaitState.Inv.upserted (h : s.Inv)
    {finished watched : List Text} (hnew : summary.id ∉ s.finished)
    (hdb : Upserted s.db db summary detail)
    (hown : summary.id ∈ finished ↔ completes s.db summary detail = true)
    (hothers : ∀ id, id ≠ summary.id → (id ∈ finished ↔ id ∈ s.finished))
    (hwatched : ∀ id ∈ watched, id ∈ finished) (hunserved : s.served = false → watched = []) :
    WaitState.Inv { s with db := db, finished := finished, watched := watched } := by
  -- Rows of sessions that finished are those of the table before.
  have hold : ∀ row ∈ db.rows, row.id ∈ s.finished → row ∈ s.db.rows := by
    intro row hrow hid
    refine (hdb.others row fun heq => hnew ?_).mp hrow
    rwa [heq] at hid
  have hkept : ∀ id ∈ s.finished, id ∈ finished := fun id hid =>
    (hothers id fun heq => hnew (heq ▸ hid)).mpr hid
  refine ⟨⟨hdb.ids h.table.ids, hdb.rowids h.table.rowids⟩, fun row hrow => ?_, hwatched,
    fun id hid => hkept id (h.returned id hid), h.nodup,
    fun row hrow hid => h.passed row (hold row hrow (h.returned row.id hid)) hid,
    fun hserved => ⟨(h.unserved hserved).1, hunserved hserved⟩, h.held, h.after,
    fun after items hclient => ?_⟩
  · show row.id ∈ finished ↔ completed db.failuresAvailable row = true
    by_cases hid : row.id = summary.id
    · rw [completed_own hdb hrow hid, hid]
      exact hown
    · rw [hothers row.id hid, hdb.schema]
      exact h.finished row ((hdb.others row hid).mp hrow)
  · obtain ⟨hnodup, hids, habove⟩ := h.page after items hclient
    exact ⟨hnodup, fun id hid => ⟨hkept id (hids id hid).1, (hids id hid).2⟩,
      fun row hrow hid => habove row (hold row hrow (hids row.id hid).1) hid⟩

theorem WaitState.Inv.write (h : s.Inv) (detail : SessionDetailRow)
    (hnew : summary.id ∉ s.finished) : (s.write summary detail).Inv := by
  rcases write_cases s summary detail with
    ⟨e, -, hsame⟩ | ⟨db, -, hdb, ⟨hdone, hwrite⟩ | ⟨hdone, hwrite⟩⟩
  · rw [hsame]
    exact h
  · rw [hwrite]
    refine h.upserted hnew hdb ?_ (fun _ _ => Iff.rfl) h.watched fun hserved => (h.unserved hserved).2
    rw [hdone]
    exact iff_of_false hnew Bool.false_ne_true
  · rw [hwrite]
    refine h.upserted hnew hdb (iff_of_true mem_cons_self hdone) (fun id hid => ?_)
      (fun id hid => ?_) fun hserved => ?_
    · rw [mem_cons, or_iff_right hid]
    · split at hid
      · exact (mem_cons.mp hid).elim (· ▸ mem_cons_self) fun hid =>
          mem_cons_of_mem _ (h.watched id hid)
      · exact mem_cons_of_mem _ (h.watched id hid)
    · rw [hserved]
      exact (h.unserved hserved).2

theorem startWait_after (h : s.Inv) (hstart : startWait N config
      { request with afterWatermark := s.client.after.map encodeWatermark } s.db = .ok after) :
        (0 ≤ after ∧ after ≤ i64Max) ∧
        ∀ held, s.client.after = some held → after = held := by
  obtain ⟨-, -, hstart⟩ := Fallible.bind_ok_iff.mp hstart
  cases hheld : s.client.after with
  | none =>
    rw [hheld] at hstart
    cases hstart
    exact ⟨latest_bounds h.table, fun _ heq => nomatch heq⟩
  | some held =>
    obtain ⟨hnonneg, hle⟩ := h.after held hheld
    rw [hheld] at hstart
    have hparse : parseWatermark (N := N) (encodeWatermark held) = .ok after := hstart
    rw [parseWatermark_encodeWatermark hnonneg hle] at hparse
    cases hparse
    exact ⟨⟨hnonneg, hle⟩, fun _ heq => Option.some.inj heq⟩

theorem WaitState.Inv.move (h : s.Inv) {client : Client}
    (hbounds : ∀ after, client.after = some after → 0 ≤ after ∧ after ≤ i64Max)
    (hheld : ∀ held, s.client.after = some held → client.after = some held)
    (hpage : ∀ after items, client ≠ .answered after items) : WaitState.Inv
      { s with client := client } where
  table := h.table
  finished := h.finished
  watched := h.watched
  returned := h.returned
  nodup := h.nodup
  passed row hrow hid := by
    obtain ⟨held, heq, hle⟩ := h.passed row hrow hid
    exact ⟨held, hheld held heq, hle⟩
  unserved := h.unserved
  held hserved := by
    obtain ⟨held, heq⟩ := h.held hserved
    exact ⟨held, hheld held heq⟩
  after := hbounds
  page after items hclient := absurd hclient (hpage after items)

theorem WaitState.Inv.resume (h : s.Inv) {client : Client} (hafter : client.after = s.client.after)
    (hpage : ∀ after items, client ≠ .answered after items) :
    WaitState.Inv { s with client := client } :=
  h.move (fun after heq => h.after after (hafter ▸ heq)) (fun _ heq => hafter.trans heq) hpage

/-- The page that is read has the sessions that are due. -/
theorem pollPage_ids {page : SessionSearchPage} (h : pollPage p config request db after = .ok page) :
    page.items.map (·.id) =
      ((Keyset.orderBy (orderClause { request.filter with afterRowid := some after })
        (db.matching p { request.filter with afterRowid := some after })).take
          (pageSize (request.limit config))).map (·.id) := by
  rw [searchSessions_items h, map_map]
  rfl

theorem pollPage_items (hids : (db.rows.map (·.id)).Nodup) {page : SessionSearchPage}
    (h : pollPage p config request db after = .ok page) :
    (page.items.map (·.id)).Nodup ∧ ∀ id ∈ page.items.map (·.id), ∃ row ∈ db.rows, row.id = id ∧
      selects p db.failuresAvailable request.filter row = true ∧ after < row.rowid := by
  rw [pollPage_ids h]
  refine ⟨?_, fun id hid => ?_⟩
  · have hall : ((Keyset.orderBy (orderClause { request.filter with afterRowid := some after })
        (db.rows.filter (selects p db.failuresAvailable
          { request.filter with afterRowid := some after }))).map (·.id)).Nodup :=
      ((Keyset.orderBy_perm _).map _).nodup_iff.mpr (hids.sublist (filter_sublist.map _))
    exact hall.sublist ((take_sublist _ _).map _)
  · obtain ⟨row, hrow, rfl⟩ := mem_map.mp hid
    obtain ⟨hmem, hselects⟩ := mem_filter.mp (Keyset.mem_orderBy.mp (mem_of_mem_take hrow))
    rw [selects_after, Bool.and_eq_true, decide_eq_true_eq] at hselects
    exact ⟨row, hmem, rfl, hselects.2, hselects.1⟩

theorem WaitState.Inv.answered (h : s.Inv) (hclient : s.client = .polling after)
    {page : SessionSearchPage} (hpage : pollPage p config request s.db after = .ok page) :
    WaitState.Inv { s with client := .answered after page.items, seen := s.db } where
  table := h.table
  finished := h.finished
  watched := h.watched
  returned := h.returned
  nodup := h.nodup
  passed row hrow hid := by
    obtain ⟨held, heq, hle⟩ := h.passed row hrow hid
    rw [hclient] at heq
    exact ⟨held, heq, hle⟩
  unserved := h.unserved
  held _ := ⟨after, rfl⟩
  after held hheld := h.after held (by rw [hclient]; exact hheld)
  page held items heq := by
    cases heq
    obtain ⟨hnodup, hitems⟩ := pollPage_items h.table.ids hpage
    refine ⟨hnodup, fun id hid => ?_, fun row hrow hid => ?_⟩
    · obtain ⟨row, hrow, rfl, hselects, habove⟩ := hitems id hid
      refine ⟨(h.finished row hrow).mpr (completed_of_selects hselects), fun hreturned => ?_⟩
      obtain ⟨held, heq, hle⟩ := h.passed row hrow hreturned
      rw [hclient] at heq
      cases heq
      exact absurd habove (Int.not_lt.mpr hle)
    · obtain ⟨other, hother, hsame, -, habove⟩ := hitems row.id hid
      exact inj_on_of_nodup_map h.table.ids hother hrow hsame ▸ habove

theorem WaitState.Inv.readWatermark (h : s.Inv) (hclient : s.client = .answered after items)
    (elapsed : Bool) :
    (s.readWatermark request after items elapsed).Inv := by
  obtain ⟨hnodup, hids, -⟩ := h.page after items hclient
  unfold WaitState.readWatermark
  split
  · have hfinished := forall_mem_append.mpr ⟨h.returned, fun id hid => (hids id hid).1⟩
    refine ⟨h.table, h.finished, h.watched, hfinished, ?_, ?_, ?_, ?_, ?_, ?_⟩
    · refine nodup_append.mpr ⟨h.nodup, hnodup, fun a ha b hb heq => ?_⟩
      exact (hids b hb).2 (heq ▸ ha)
    · intro row hrow hid
      exact ⟨_, rfl, rowid_le_latest hrow ((h.finished row hrow).mp (hfinished row.id hid))⟩
    · exact fun hserved => nomatch hserved
    · exact fun _ => ⟨_, rfl⟩
    · intro held heq
      cases heq
      exact latest_bounds h.table
    · exact fun _ _ heq => nomatch heq
  · exact h.resume (by rw [hclient]; rfl) fun _ _ heq => nomatch heq

theorem call_step (h : waitStep N p config request s .call = some s') :
    s' = s.call N config request := by
  cases hclient : s.client with
  | fresh | idle held =>
    simp only [waitStep, hclient, Option.some.injEq] at h
    exact h.symm
  | polling after | answered after items => simp [waitStep, hclient] at h

theorem call_cases (hinv : s.Inv) (h : waitStep N p config request s .call = some s') :
    s' = s ∨ ∃ after, s' = { s with client := .polling after } ∧ (0 ≤ after ∧ after ≤ i64Max) ∧
      ∀ held, s.client.after = some held → after = held := by
  rw [call_step h, call]
  cases hresult : startWait N config
      { request with afterWatermark := s.client.after.map encodeWatermark } s.db with
  | error e => exact .inl rfl
  | ok after => exact .inr ⟨after, rfl, startWait_after hinv hresult⟩

theorem readPage_cases (h : waitStep N p config request s .readPage = some s') :
    ∃ after, s.client = .polling after ∧ (s' = s.failed after ∨
      ∃ page, pollPage p config request s.db after = .ok page ∧
        s' = { s with client := .answered after page.items, seen := s.db }) := by
  cases hclient : s.client with
  | polling after =>
    refine ⟨after, rfl, ?_⟩
    cases hpage : pollPage p config request s.db after with
    | error e =>
      simp only [waitStep, hclient, hpage, Option.some.injEq] at h
      exact .inl h.symm
    | ok page =>
      simp only [waitStep, hclient, hpage, Option.some.injEq] at h
      exact .inr ⟨page, rfl, h.symm⟩
  | fresh | idle held | answered after items => simp [waitStep, hclient] at h

theorem readWatermark_cases {elapsed : Bool}
    (h : waitStep N p config request s (.readWatermark elapsed) = some s') :
    ∃ after items, s.client = .answered after items ∧
      s' = s.readWatermark request after items elapsed := by
  cases hclient : s.client with
  | answered after items =>
    simp only [waitStep, hclient, Option.some.injEq] at h
    exact ⟨after, items, rfl, h.symm⟩
  | fresh | idle held | polling after => simp [waitStep, hclient] at h

theorem write_step (h : waitStep N p config request s (.write summary detail) = some s') :
    summary.id ∉ s.finished ∧ s' = s.write summary detail := by
  rw [waitStep] at h
  split at h
  · cases h
  · rename_i hnew
    exact ⟨hnew, (Option.some.inj h).symm⟩

theorem WaitState.Inv.failed (h : s.Inv)
    (hclient : s.client = .polling after) : (s.failed after).Inv := by
  by_cases hserved : s.served = true
  · rw [WaitState.failed, if_pos hserved]
    exact h.resume (by rw [hclient]; rfl) fun _ _ heq => nomatch heq
  · rw [WaitState.failed, if_neg hserved]
    obtain ⟨hreturned, hwatched⟩ := h.unserved (Bool.eq_false_of_not_eq_true hserved)
    refine ⟨h.table, h.finished, h.watched, h.returned, h.nodup, ?_, fun _ => ⟨hreturned, hwatched⟩,
      fun htrue => absurd htrue hserved, fun _ heq => (nomatch heq), fun _ _ heq => (nomatch heq)⟩
    intro row _ hid
    have hid' : row.id ∈ s.returned := hid
    rw [hreturned] at hid'
    exact absurd hid' not_mem_nil

theorem waitStep_inv (s : WaitState) (e : WaitEvent) (s' : WaitState) (hinv : s.Inv)
    (h : waitStep N p config request s e = some s') : s'.Inv := by
  cases e with
  | write summary detail =>
    obtain ⟨hnew, rfl⟩ := write_step h
    exact hinv.write detail hnew
  | delete ids =>
    cases h
    exact hinv.remove filter_sublist
  | clear =>
    cases h
    exact hinv.remove (nil_sublist _)
  | call =>
    rcases call_cases hinv h with rfl | ⟨after, rfl, hbounds, hheld⟩
    · exact hinv
    · refine hinv.move ?_ ?_ fun _ _ heq => nomatch heq
      · intro held heq
        cases heq
        exact hbounds
      · intro held heq
        rw [← hheld held heq]
        rfl
  | readPage =>
    obtain ⟨after, hclient, rfl | ⟨page, hpage, rfl⟩⟩ := readPage_cases h
    · exact hinv.failed hclient
    · exact hinv.answered hclient hpage
  | readWatermark elapsed =>
    obtain ⟨after, items, hclient, rfl⟩ := readWatermark_cases h
    exact hinv.readWatermark hclient elapsed

/-- The page of a call has the sessions that were due at its statement. -/
def WaitState.PageRead (p : SearchPlatform) (config : WaitConfig) (request : WaitForSessionsRequest)
    (s : WaitState) : Prop :=
  ∀ after items, s.client = .answered after items →
    items.map (·.id) = (s.due p request config after).map (·.id)

theorem waitStep_pageRead (s : WaitState) (e : WaitEvent) (s' : WaitState)
    (hpage : s.PageRead p config request) (h : waitStep N p config request s e = some s') :
    s'.PageRead p config request := by
  cases e with
  | write summary detail =>
    obtain ⟨-, rfl⟩ := write_step h
    rcases write_cases s summary detail with
      ⟨e, -, hsame⟩ | ⟨db, -, -, ⟨-, hwrite⟩ | ⟨-, hwrite⟩⟩
    · rw [hsame]
      exact hpage
    all_goals
      rw [hwrite]
      exact hpage
  | delete ids | clear =>
    cases h
    exact hpage
  | call =>
    rw [call_step h, call]
    split
    · exact fun _ _ heq => nomatch heq
    · exact hpage
  | readPage =>
    obtain ⟨after, -, rfl | ⟨page, hread, rfl⟩⟩ := readPage_cases h
    · intro held items heq
      unfold WaitState.failed at heq
      split at heq <;> cases heq
    · intro held items heq
      cases heq
      exact pollPage_ids hread
  | readWatermark elapsed =>
    obtain ⟨after, items, -, rfl⟩ := readWatermark_cases h
    intro held items' heq
    unfold WaitState.readWatermark at heq
    split at heq <;> cases heq

theorem served_of_watched (hinv : s.Inv) {id : Text} (h : id ∈ s.watched) : s.served = true := by
  by_contra hserved
  rw [(hinv.unserved (Bool.eq_false_of_not_eq_true hserved)).2] at h
  exact absurd h not_mem_nil

theorem WaitState.NoneMissed.mono (h : s.NoneMissed p request)
    (hrows : ∀ row, s'.Awaited p request row → s.Awaited p request row)
    (hreturned : s'.returned = s.returned)
    (hafter : ∀ after, s'.client.after = some after → s.client.after = some after) :
    s'.NoneMissed p request := by
  rintro row ⟨hawaited, hnot, after, heq, hle⟩
  exact h row ⟨hrows row hawaited, hreturned ▸ hnot, after, hafter after heq, hle⟩

theorem noneMissed_write (hinv : s.Inv) (h : s.NoneMissed p request)
    (hnew : summary.id ∉ s.finished) :
    (s.write summary detail).NoneMissed p request ↔
      Orderly p request config s (.write summary detail) := by
  have hnotReturned : summary.id ∉ s.returned := fun hid => hnew (hinv.returned _ hid)
  have hnotWatched : summary.id ∉ s.watched := fun hid => hnew (hinv.watched _ hid)
  -- The sessions that were awaited before have the rows they had.
  have hawaited : ∀ {db : SessionDb}, Upserted s.db db summary detail → ∀ row ∈ db.rows,
      selects p db.failuresAvailable request.filter row = true → row.id ∈ s.watched →
        s.Awaited p request row := by
    intro db hdb row hrow hselects hid
    have hne : row.id ≠ summary.id := fun heq => hnotWatched (heq ▸ hid)
    exact ⟨(hdb.others row hne).mp hrow, hdb.schema ▸ hselects, hid⟩
  rcases write_cases s summary detail with
    ⟨e, herror, hsame⟩ | ⟨db, hok, hdb, ⟨hdone, hwrite⟩ | ⟨hdone, hwrite⟩⟩
  · rw [hsame]
    refine iff_of_true h fun db hok => ?_
    rw [herror] at hok
    cases hok
  · rw [hwrite]
    refine iff_of_true ?_ ?_
    · exact h.mono (fun row ⟨hrow, hselects, hid⟩ => hawaited hdb row hrow hselects hid) rfl
        fun _ heq => heq
    · intro db' hok' _ row hrow hid hselects
      rw [hok] at hok'
      cases hok'
      have hcompleted := completed_of_selects hselects
      rw [completed_own hdb hrow hid, hdone] at hcompleted
      cases hcompleted
  · rw [hwrite]
    constructor
    · intro hnone db' hok' hserved row hrow hid hselects hpassed
      rw [hok] at hok'
      cases hok'
      refine hnone row ⟨⟨hrow, hselects, ?_⟩, fun hreturned => hnotReturned (hid ▸ hreturned), hpassed⟩
      show row.id ∈ if s.served = true then summary.id :: s.watched else s.watched
      rw [if_pos hserved, hid]
      exact mem_cons_self
    · rintro horderly row ⟨⟨hrow, hselects, hid⟩, hreturned, hpassed⟩
      have hid' : row.id ∈ if s.served = true then summary.id :: s.watched else s.watched := hid
      split at hid'
      · rename_i hserved
        rcases mem_cons.mp hid' with hown | hother
        · exact horderly db (by rw [hok]; rfl) hserved row hrow hown hselects hpassed
        · exact h row ⟨hawaited hdb row hrow hselects hother, hreturned, hpassed⟩
      · exact h row ⟨hawaited hdb row hrow hselects hid', hreturned, hpassed⟩

theorem noneMissed_readWatermark (hinv : s.Inv) (hpage : s.PageRead p config request)
    (h : s.NoneMissed p request) (hclient : s.client = .answered after items) (elapsed : Bool) :
    (s.readWatermark request after items elapsed).NoneMissed p request ↔
      Orderly p request config s (.readWatermark elapsed) := by
  have hids := hpage after items hclient
  have hlength : items.length = (s.due p request config after).length := by
    rw [← length_map (·.id), hids, length_map]
  have hafter : s.client.answeredAfter = some after := by
    rw [hclient]
    rfl
  unfold WaitState.readWatermark
  rw [hlength]
  split
  · rename_i hreturns
    constructor
    · intro hnone after' hafter' _ row _ hawaited habove
      cases hafter.symm.trans hafter'
      rw [← hids]
      by_contra hitem
      have hnotReturned : row.id ∉ s.returned := by
        intro hreturned
        obtain ⟨held, heq, hle⟩ := hinv.passed row hawaited.1 hreturned
        rw [hclient] at heq
        cases heq
        exact absurd habove (Int.not_lt.mpr hle)
      refine hnone row ⟨hawaited, fun hid => ?_, _, rfl,
        rowid_le_latest hawaited.1 (completed_of_selects hawaited.2.1)⟩
      exact (mem_append.mp hid).elim hnotReturned hitem
    · rintro horderly row ⟨hawaited, hnot, -⟩
      have hnotReturned : row.id ∉ s.returned := fun hid => hnot (mem_append_left _ hid)
      have habove : after < row.rowid := by
        by_contra hle
        exact h row ⟨hawaited, hnotReturned, after, by rw [hclient]; rfl, Int.not_lt.mp hle⟩
      have hitem := horderly after hafter hreturns row hawaited.1 hawaited habove
      exact hnot (mem_append_right _ (hids ▸ hitem))
  · rename_i hpolls
    refine iff_of_true ?_ ?_
    · refine h.mono (fun _ hrow => hrow) rfl fun held heq => ?_
      rw [hclient]
      exact heq
    · intro after' hafter' hreturns
      cases hafter.symm.trans hafter'
      exact absurd hreturns hpolls

theorem noneMissed_step (s : WaitState) (e : WaitEvent) (s' : WaitState)
    (hread : s.Inv ∧ s.PageRead p config request) (hnone : s.NoneMissed p request)
    (h : waitStep N p config request s e = some s') :
    s'.NoneMissed p request ↔ Orderly p request config s e := by
  obtain ⟨hinv, hpage⟩ := hread
  cases e with
  | write summary detail =>
    obtain ⟨hnew, rfl⟩ := write_step h
    exact noneMissed_write hinv hnone hnew
  | delete ids =>
    cases h
    refine iff_of_true (hnone.mono ?_ rfl fun _ heq => heq) trivial
    exact fun row ⟨hrow, hselects, hid⟩ => ⟨mem_of_mem_filter hrow, hselects, hid⟩
  | clear =>
    cases h
    refine iff_of_true (hnone.mono ?_ rfl fun _ heq => heq) trivial
    exact fun row ⟨hrow, _, _⟩ => absurd hrow not_mem_nil
  | call =>
    refine iff_of_true ?_ trivial
    rcases call_cases hinv h with rfl | ⟨after, rfl, -, hheld⟩
    · exact hnone
    · -- A client without a watermark has not been served, so nothing is watched.
      rintro row ⟨⟨hrow, hselects, hid⟩, hreturned, held, heq, hle⟩
      cases heq
      cases hclient : s.client.after with
      | none =>
        obtain ⟨held, heq⟩ := hinv.held (served_of_watched hinv hid)
        rw [hclient] at heq
        cases heq
      | some held =>
        rw [hheld held hclient] at hle
        exact hnone row ⟨⟨hrow, hselects, hid⟩, hreturned, held, hclient, hle⟩
  | readPage =>
    refine iff_of_true ?_ trivial
    obtain ⟨after, hclient, rfl | ⟨page, -, rfl⟩⟩ := readPage_cases h
    · refine hnone.mono (fun _ hrow => hrow) rfl fun held heq => ?_
      have hafter : (if s.served = true then Client.idle after else .fresh).after = some held := heq
      rw [hclient]
      split at hafter
      · exact hafter
      · cases hafter
    · refine hnone.mono (fun _ hrow => hrow) rfl fun held heq => ?_
      rw [hclient]
      exact heq
  | readWatermark elapsed =>
    obtain ⟨after, items, hclient, rfl⟩ := readWatermark_cases h
    exact noneMissed_readWatermark hinv hpage hnone hclient elapsed

/-- A session that the watermark has passed and that was not returned. -/
structure WaitState.Lost (s : WaitState) (id : Text) : Prop where
  served : s.served = true
  finished : id ∈ s.finished
  returned : id ∉ s.returned
  passed : ∀ row ∈ s.db.rows, row.id = id → s.Passed row
  page : ∀ after items, s.client = .answered after items → id ∉ items.map (·.id)

theorem WaitState.Missed.lost (hinv : s.Inv) (h : s.Missed p request row) : s.Lost row.id := by
  have ⟨⟨hrow, _, hid⟩, hreturned, hpassed⟩ := h
  refine ⟨served_of_watched hinv hid, hinv.watched _ hid, hreturned, fun other hother hsame => ?_,
    fun after items hclient hitem => ?_⟩
  · exact inj_on_of_nodup_map hinv.table.ids hother hrow hsame ▸ hpassed
  · obtain ⟨held, hheld, hle⟩ := hpassed
    rw [hclient] at hheld
    cases hheld
    exact absurd ((hinv.page after items hclient).2.2 row hrow hitem) (Int.not_lt.mpr hle)

theorem WaitState.Lost.move {id : Text} (h : s.Lost id) {client : Client} {seen : SessionDb}
    (hafter : ∀ held, s.client.after = some held → client.after = some held)
    (hpage : ∀ after items, client = .answered after items → id ∉ items.map (·.id)) :
    WaitState.Lost { s with client := client, seen := seen } id := by
  refine ⟨h.served, h.finished, h.returned, fun row hrow hid => ?_, hpage⟩
  obtain ⟨held, hheld, hle⟩ := h.passed row hrow hid
  exact ⟨held, hafter held hheld, hle⟩

theorem WaitState.Lost.table {id : Text} (h : s.Lost id) {finished watched : List Text}
    (hfinished : ∀ id ∈ s.finished, id ∈ finished)
    (hrows : ∀ row ∈ db.rows, row.id ∈ s.finished → row ∈ s.db.rows) :
    WaitState.Lost { s with db := db, finished := finished, watched := watched } id :=
  ⟨h.served, hfinished id h.finished, h.returned, fun row hrow hid =>
    h.passed row (hrows row hrow (hid ▸ h.finished)) hid, h.page⟩

theorem lost_step {id : Text} (s : WaitState) (e : WaitEvent) (s' : WaitState)
    (hboth : s.Inv ∧ s.Lost id) (h : waitStep N p config request s e = some s') :
    s'.Inv ∧ s'.Lost id := by
  obtain ⟨hinv, hlost⟩ := hboth
  refine ⟨waitStep_inv s e s' hinv h, ?_⟩
  cases e with
  | write summary detail =>
    obtain ⟨hnew, rfl⟩ := write_step h
    have hold : ∀ {db : SessionDb}, Upserted s.db db summary detail → ∀ row ∈ db.rows,
        row.id ∈ s.finished → row ∈ s.db.rows := fun hdb row hrow hid =>
      (hdb.others row fun heq => hnew (heq ▸ hid)).mp hrow
    rcases write_cases s summary detail with
      ⟨e, -, hsame⟩ | ⟨db, -, hdb, ⟨-, hwrite⟩ | ⟨-, hwrite⟩⟩
    · rw [hsame]
      exact hlost
    · rw [hwrite]
      exact hlost.table (fun _ hid => hid) (hold hdb)
    · rw [hwrite]
      exact hlost.table (fun _ => mem_cons_of_mem _) (hold hdb)
  | delete ids =>
    cases h
    exact hlost.table (fun _ hid => hid) fun _ hrow _ => mem_of_mem_filter hrow
  | clear =>
    cases h
    exact hlost.table (fun _ hid => hid) fun _ hrow => absurd hrow not_mem_nil
  | call =>
    rcases call_cases hinv h with rfl | ⟨after, rfl, -, hafter⟩
    · exact hlost
    · refine hlost.move (fun held hheld => ?_) fun _ _ heq => nomatch heq
      rw [← hafter held hheld]
      rfl
  | readPage =>
    obtain ⟨after, hclient, rfl | ⟨page, hread, rfl⟩⟩ := readPage_cases h
    · rw [WaitState.failed, if_pos hlost.served]
      exact hlost.move (fun _ hheld => by rw [hclient] at hheld; exact hheld) fun _ _ heq => nomatch heq
    · refine hlost.move (fun _ hheld => by rw [hclient] at hheld; exact hheld) ?_
      rintro held items heq hitem
      cases heq
      obtain ⟨row, hrow, hid, -, habove⟩ := (pollPage_items hinv.table.ids hread).2 id hitem
      obtain ⟨held, hheld, hle⟩ := hlost.passed row hrow hid
      rw [hclient] at hheld
      cases hheld
      exact absurd habove (Int.not_lt.mpr hle)
  | readWatermark elapsed =>
    obtain ⟨after, items, hclient, rfl⟩ := readWatermark_cases h
    unfold WaitState.readWatermark
    split
    · refine ⟨rfl, hlost.finished, fun hnow => ?_, fun row hrow hid => ?_, fun _ _ heq => nomatch heq⟩
      · exact (mem_append.mp hnow).elim hlost.returned (hlost.page after items hclient)
      · exact ⟨_, rfl, rowid_le_latest hrow ((hinv.finished row hrow).mp (hid ▸ hlost.finished))⟩
    · exact hlost.move (fun _ hheld => by rw [hclient] at hheld; exact hheld) fun _ _ heq => nomatch heq

/-! ## Runs -/

theorem start_noneMissed (db : SessionDb) : (start db).NoneMissed p request :=
  fun _ ⟨⟨_, _, hid⟩, _, _⟩ => absurd hid not_mem_nil

theorem run_inv (hdb : WellFormed db)
    (h : exec (waitStep N p config request) (.start db) es = some s) : s.Inv :=
  Run.exec_invariant waitStep_inv h (start_inv hdb)

theorem passed_of_idle {watermark : Int} {elapsed : Bool}
    (h : (s.readWatermark request after items elapsed).client = .idle watermark)
    (hrow : (s.readWatermark request after items elapsed).Awaited p request row) :
    (s.readWatermark request after items elapsed).Passed row := by
  unfold WaitState.readWatermark at h hrow ⊢
  split
  · rename_i hreturns
    rw [if_pos hreturns] at hrow
    exact ⟨_, rfl, rowid_le_latest hrow.1 (completed_of_selects hrow.2.1)⟩
  · rename_i hpolls
    rw [if_neg hpolls] at h
    cases h

/-- No session is returned twice. None is missed exactly if every session completes with a rowid above
the watermark that the client holds, and every session that a call that returns waits for was due at its
page statement; then every awaited session is returned by the time the next call returns. -/
theorem wait_returns_every_session {db : SessionDb} (hdb : WellFormed db) {es : List WaitEvent}
    {s : WaitState} (h : exec (waitStep N p config request) (.start db) es = some s) :
    s.returned.Nodup ∧
    ((∀ fs t, fs <+: es → exec (waitStep N p config request) (.start db) fs = some t →
        t.NoneMissed p request) ↔
      Along (waitStep N p config request) (Orderly p request config) (.start db) es) ∧
    (Along (waitStep N p config request) (Orderly p request config) (.start db) es →
      ∀ fs elapsed t after, fs ++ [.readWatermark elapsed] <+: es →
        exec (waitStep N p config request) (.start db) (fs ++ [.readWatermark elapsed]) = some t →
        t.client = .idle after → ∀ row, t.Awaited p request row → row.id ∈ t.returned) := by
  have hstep : ∀ s e s', s.Inv ∧ s.PageRead p config request →
      waitStep N p config request s e = some s' → s'.Inv ∧ s'.PageRead p config request :=
    fun s e s' hread he => ⟨waitStep_inv s e s' hread.1 he, waitStep_pageRead s e s' hread.2 he⟩
  have hiff := Run.forall_prefix_iff_along hstep noneMissed_step h
    ⟨start_inv hdb, fun _ _ heq => nomatch heq⟩ (start_noneMissed db)
  refine ⟨(run_inv hdb h).nodup, hiff, fun halong fs elapsed t after hbegin hexec hidle row hrow => ?_⟩
  have hnone := hiff.mpr halong _ t hbegin hexec
  by_contra hnot
  -- The watermark was read from the table the call returned at.
  obtain ⟨u, -, hlast⟩ := Run.exec_append.mp hexec
  obtain ⟨v, hv, hdone⟩ := Run.exec_cons_some.mp hlast
  cases hdone
  obtain ⟨held, items, -, rfl⟩ := readWatermark_cases hv
  exact hnone row ⟨hrow, hnot, passed_of_idle hidle hrow⟩

end

namespace Sample

def waitConfig : WaitConfig := ⟨true, 100⟩

def summary (id finishedAt : String) (statusCode : Nat) : SessionSummaryRow where
  toSessionInfo := { Db.Sample.info id with finishedAt := finishedAt.toList }
  durationMs := 0
  sizeBytes := 0
  statusCode := statusCode
  failureMessage := none

def detail (id : String) : SessionDetailRow where
  queryParams := "[]"
  requestHeaders := "[]"
  responseHeaders := "[]"
  failureMessage := none
  sessionSummaryId := id.toList

def begins (id : String) : WaitEvent := .write (summary id "" 0) (detail id)

def ends (id : String) : WaitEvent := .write (summary id "2026-10-17T10:00:01Z" 200) (detail id)

def overtaking : List WaitEvent :=
  [.call, .readPage, .readWatermark true, begins "a", begins "b", ends "b", .call, .readPage,
    .readWatermark false, ends "a"]

def single : List WaitEvent :=
  [.call, .readPage, .readWatermark true, begins "a", ends "a", .call, .readPage, .readWatermark false]

def emptyDb : SessionDb := ⟨[], true⟩

theorem wellFormed_emptyDb : WellFormed emptyDb := ⟨nodup_nil, forall_mem_nil _⟩

end Sample

open Sample (emptyDb overtaking searchPlatform single waitConfig wellFormed_emptyDb)

theorem wait_returns_every_session_single : ∃ s row,
    exec (waitStep Nat searchPlatform waitConfig {}) (.start emptyDb)
      single = some s ∧ s.Awaited searchPlatform {} row ∧ row.id = "a".toList ∧
      row.id ∈ s.returned ∧ s.returned.Nodup := by
  obtain ⟨s, hs, hrow⟩ := Run.exists_of_exec_any
    (by decide : (exec (waitStep Nat searchPlatform waitConfig {}) (.start emptyDb)
      single).any (fun s => decide (s.client = .idle 1 ∧ ∃ row ∈ s.db.rows,
        s.Awaited searchPlatform {} row ∧ row.id = "a".toList)) = true)
  obtain ⟨hidle, row, -, hawaited, hid⟩ := of_decide_eq_true hrow
  obtain ⟨hnodup, -, hreturned⟩ := wait_returns_every_session wellFormed_emptyDb hs
  refine ⟨s, row, hs, hawaited, hid, ?_, hnodup⟩
  exact hreturned (by decide) (single.take 7) false s 1 (prefix_refl _) hs hidle row hawaited

/-- The request that began first is never returned, although it completes. -/
theorem overtaken_session_missed : ∃ s row,
    exec (waitStep Nat searchPlatform waitConfig {}) (.start emptyDb)
      overtaking = some s ∧ row.id = "a".toList ∧ s.Awaited searchPlatform {} row ∧
      ∀ es t, exec (waitStep Nat searchPlatform waitConfig {}) s es = some t →
        row.id ∉ t.returned := by
  obtain ⟨s, hs, hmisses⟩ := Run.exists_of_exec_any
    (by decide : (exec (waitStep Nat searchPlatform waitConfig {}) (.start emptyDb)
      overtaking).any (fun s => decide (∃ row ∈ s.db.rows, row.id = "a".toList ∧
        s.Missed searchPlatform {} row)) = true)
  obtain ⟨row, -, hid, hmissed⟩ := of_decide_eq_true hmisses
  have hinv := run_inv wellFormed_emptyDb hs
  refine ⟨s, row, hs, hid, hmissed.1, fun es t ht => ?_⟩
  exact (Run.exec_invariant lost_step ht ⟨hinv, hmissed.lost hinv⟩).2.returned

end AiProxy.Mcp
