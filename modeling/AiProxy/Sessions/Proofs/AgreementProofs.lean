import AiProxy.Sessions.Proofs.CacheProofs
import AiProxy.Lib.Run

/-!
# The list agrees with the database

What a batch took from the list and what is in it at the end are, together, what was listed before and
the sessions of the batch (`mem_listBatch_iff`).
-/

namespace AiProxy.Sessions

open KeyedList List

variable {Content : Type} {summaryMax : Nat} {summaries : List ProxySessionSummary}
  {update : SessionUpdate Content} {updates before after batch : List (SessionUpdate Content)}
  {store : SessionStore Content} {op : Operation Content} {id : Text}

variable {store' : SessionStore Content}

theorem listBatch_cons (summaries : List ProxySessionSummary) (update : SessionUpdate Content)
    (updates : List (SessionUpdate Content)) :
    listBatch summaryMax summaries (update :: updates) =
      ((listBatch summaryMax (upsertSummary summaryMax summaries update.detail.summary
          update.focusedHosts).1 updates).1,
        (upsertSummary summaryMax summaries update.detail.summary update.focusedHosts).2 ++
          (listBatch summaryMax (upsertSummary summaryMax summaries update.detail.summary
            update.focusedHosts).1 updates).2) := rfl

theorem listBatch_append (summaries : List ProxySessionSummary)
    (before after : List (SessionUpdate Content)) :
    listBatch summaryMax summaries (before ++ after) =
      ((listBatch summaryMax (listBatch summaryMax summaries before).1 after).1,
        (listBatch summaryMax summaries before).2 ++
          (listBatch summaryMax (listBatch summaryMax summaries before).1 after).2) := by
  induction before generalizing summaries with
  | nil => rfl
  | cons update before ih =>
    rw [cons_append, listBatch_cons, ih, listBatch_cons, append_assoc]

theorem nodup_listBatch (h : (listedIds summaries).Nodup) :
    (listedIds (listBatch summaryMax summaries updates).1).Nodup := by
  induction updates generalizing summaries with
  | nil => exact h
  | cons update updates ih => exact ih (nodup_upsertSummary h)

theorem length_listBatch (h : summaries.length ≤ summaryMax) :
    (listBatch summaryMax summaries updates).1.length ≤ summaryMax := by
  induction updates generalizing summaries with
  | nil => exact h
  | cons update updates ih => exact ih length_upsertSummary

theorem mem_listBatch_iff : id ∈ (listBatch summaryMax summaries updates).2 ∨
        id ∈ listedIds (listBatch summaryMax summaries updates).1 ↔
      id ∈ updates.map (·.detail.summary.id) ∨ id ∈ listedIds summaries := by
  induction updates generalizing summaries with
  | nil => simp [listBatch]
  | cons update updates ih =>
    have hfirst :=
      @mem_upsertSummary_iff summaryMax update.focusedHosts summaries update.detail.summary id
    rw [listBatch_cons, mem_append, or_assoc, ih, map_cons, mem_cons, or_left_comm, hfirst,
      or_left_comm, or_assoc]

/-- A session that the updates took from the list and that is listed at their end was put back by one of
them, and not taken again. -/
theorem exists_relisted (hnodup : (listedIds summaries).Nodup)
    (hremoved : id ∈ (listBatch summaryMax summaries updates).2)
    (hlisted : id ∈ listedIds (listBatch summaryMax summaries updates).1) :
    ∃ before update after, updates = before ++ update :: after ∧ update.detail.summary.id = id ∧
      id ∈ (listBatch summaryMax summaries before).2 ∧
      id ∉ (listBatch summaryMax (listBatch summaryMax summaries before).1 (update :: after)).2 := by
  induction updates generalizing summaries with
  | nil => cases hremoved
  | cons first rest ih =>
    rw [listBatch_cons] at hremoved hlisted
    by_cases hlater : id ∈ (listBatch summaryMax (upsertSummary summaryMax summaries
        first.detail.summary first.focusedHosts).1 rest).2
    · obtain ⟨before, update, after, rfl, hid, hbefore, hafter⟩ :=
        ih (nodup_upsertSummary hnodup) hlater hlisted
      refine ⟨first :: before, update, after, rfl, hid, ?_, hafter⟩
      exact mem_append_right _ hbefore
    · -- the first update took it, so one of the others put it back
      have hfirst := (mem_append.mp hremoved).resolve_right hlater
      have hmem := mem_listBatch_iff.mp (.inr hlisted)
      have hupdate := hmem.resolve_right (not_listed_of_removed hnodup hfirst)
      obtain ⟨update, hin, hid⟩ := mem_map.mp hupdate
      obtain ⟨before, after, rfl⟩ := append_of_mem hin
      rw [listBatch_append] at hlater
      refine ⟨first :: before, update, after, rfl, hid, ?_, fun h => ?_⟩
      · exact mem_append_left _ hfirst
      · exact hlater (mem_append_right _ h)

theorem listed_of_not_removed (h : id ∈ updates.map (·.detail.summary.id))
    (hnot : id ∉ (listBatch summaryMax summaries updates).2) :
    id ∈ listedIds (listBatch summaryMax summaries updates).1 :=
  (mem_listBatch_iff.mpr (.inl h)).resolve_left hnot

theorem keepsEvictions_iff (hnodup : (listedIds store.summaries).Nodup)
    (hstorable : ∀ update ∈ batch, update.Storable) :
    KeepsEvictions summaryMax store (.upsertSessionBatch batch) ↔
      ∀ id ∈ (listBatch summaryMax store.summaries batch).2,
        id ∉ listedIds (listBatch summaryMax store.summaries batch).1 := by
  constructor
  · intro hkeeps id hremoved hlisted
    obtain ⟨before, update, after, rfl, hid, hbefore, hafter⟩ :=
      exists_relisted hnodup hremoved hlisted
    have hupdate : update.id = id := (hstorable update (by simp)).trans hid
    refine hafter ?_
    rw [← hupdate]
    exact hkeeps before update after rfl (hupdate ▸ hbefore)
  · rintro hnone before update after rfl hbefore
    by_contra hnot
    have hid : update.id = update.detail.summary.id := hstorable update (by simp)
    have hfinal := hnone update.id
    rw [listBatch_append] at hfinal
    refine hfinal (mem_append_left _ hbefore) (listed_of_not_removed ?_ hnot)
    rw [hid]
    exact mem_cons_self

/-! ## The operations -/

theorem runCalls_updates (store : SessionStore Content) (removed : Removed)
    (updates : List (SessionUpdate Content)) :
    (runCalls summaryMax store removed
        (updates.flatMap updateSessionCache ++ [.deleteRemovedRows])).summaries =
      (listBatch summaryMax store.summaries updates).1 ∧
    (runCalls summaryMax store removed
        (updates.flatMap updateSessionCache ++ [.deleteRemovedRows])).rows =
      KeyedList.without (·.id) (removed.all ++ (listBatch summaryMax store.summaries updates).2)
        store.rows := by
  induction updates generalizing store removed with
  | nil =>
    rw [listBatch, append_nil]
    exact ⟨rfl, rfl⟩
  | cons update updates ih =>
    rw [flatMap_cons, listBatch_cons]
    refine ⟨(ih _ _).1, (ih _ _).2.trans ?_⟩
    rw [← append_assoc]
    rfl

theorem perform_batch_summaries :
    ((Operation.upsertSessionBatch batch).perform summaryMax store).summaries =
      (listBatch summaryMax store.summaries batch).1 := (runCalls_updates _ .none batch).1

theorem perform_batch_rows :
    ((Operation.upsertSessionBatch batch).perform summaryMax store).rows =
      KeyedList.without (·.id) (listBatch summaryMax store.summaries batch).2
        (KeyedList.upsertAll (·.id) (batch.map (·.detail)) store.rows) :=
  (runCalls_updates _ .none batch).2

theorem mem_perform_batch_rowIds :
    id ∈ ((Operation.upsertSessionBatch batch).perform summaryMax store).rowIds ↔
      (id ∈ batch.map (·.id) ∨ id ∈ store.rowIds) ∧
        id ∉ (listBatch summaryMax store.summaries batch).2 := by
  have hids : (batch.map (·.detail)).map (·.id) = batch.map SessionUpdate.id := by
    rw [map_map]
    rfl
  rw [SessionStore.rowIds, perform_batch_rows, mem_keys_without, mem_keys_upsertAll, hids]
  rfl

theorem listAgrees_batch_iff (h : ListAgrees summaryMax store)
    (hstorable : ∀ update ∈ batch, update.Storable) :
    ListAgrees summaryMax ((Operation.upsertSessionBatch batch).perform summaryMax store) ↔
      KeepsEvictions summaryMax store (.upsertSessionBatch batch) := by
  have hids : batch.map (·.id) = batch.map (·.detail.summary.id) := map_congr_left hstorable
  have hmem : ∀ id, id ∈ batch.map SessionUpdate.id ∨ id ∈ store.rowIds ↔
      id ∈ (listBatch summaryMax store.summaries batch).2 ∨
        id ∈ listedIds (listBatch summaryMax store.summaries batch).1 := by
    intro id
    rw [mem_listBatch_iff, hids, h.same]
  rw [keepsEvictions_iff h.once hstorable]
  constructor
  · intro hagrees id hremoved hlisted
    rw [← perform_batch_summaries, hagrees.same, mem_perform_batch_rowIds] at hlisted
    exact hlisted.2 hremoved
  · intro hnone
    refine ⟨fun id => ?_, ?_, ?_⟩
    · rw [perform_batch_summaries, mem_perform_batch_rowIds, hmem]
      constructor
      · intro hlisted
        exact ⟨.inr hlisted, fun hremoved => hnone id hremoved hlisted⟩
      · rintro ⟨hor, hnot⟩
        exact hor.resolve_left hnot
    · rw [perform_batch_summaries]
      exact nodup_listBatch h.once
    · rw [perform_batch_summaries]
      exact length_listBatch h.capped

theorem listAgrees_deleteSessions (h : ListAgrees summaryMax store) (sessionIds : List Text) :
    ListAgrees summaryMax ((Operation.deleteSessions sessionIds).perform summaryMax store) := by
  refine ⟨fun id => ?_, ?_, ?_⟩
  · show id ∈ (KeyedList.without (·.id) (uniqueIds sessionIds) store.summaries).map (·.id) ↔
      id ∈ (KeyedList.without (·.id) (uniqueIds sessionIds) store.rows).map (·.id)
    rw [mem_keys_without, mem_keys_without]
    exact and_congr_left' (h.same id)
  · exact nodup_keys_without h.once
  · exact (without_sublist.length_le).trans h.capped

theorem listAgrees_deleteSessionsExcept (h : ListAgrees summaryMax store) (keepId : Text) :
    ListAgrees summaryMax ((Operation.deleteSessionsExcept keepId).perform summaryMax store) := by
  have hsub : (store.summaries.filter (·.id = keepId)).Sublist store.summaries := filter_sublist
  refine ⟨fun id => ?_, ?_, ?_⟩
  · show id ∈ (store.summaries.filter (·.id = keepId)).map (·.id) ↔
      id ∈ (KeyedList.without (·.id)
        ([] ++ (store.summaries.filter (·.id ≠ keepId)).map (·.id)) store.rows).map (·.id)
    have hsame := h.same id
    rw [mem_keys_without]
    constructor
    · intro hmem
      obtain ⟨s, hs, rfl⟩ := mem_map.mp hmem
      obtain ⟨hin, hkeep⟩ := mem_filter.mp hs
      refine ⟨hsame.mp (mem_map_of_mem hin), fun hother => ?_⟩
      obtain ⟨t, ht, he⟩ := mem_map.mp hother
      have hne : t.id ≠ keepId := by simpa using (mem_filter.mp ht).2
      exact hne (he.trans (by simpa using hkeep))
    · rintro ⟨hrow, hnot⟩
      obtain ⟨s, hs, rfl⟩ := mem_map.mp (hsame.mpr hrow)
      refine mem_map.mpr ⟨s, mem_filter.mpr ⟨hs, ?_⟩, rfl⟩
      by_contra hne
      exact hnot (mem_map.mpr ⟨s, mem_filter.mpr ⟨hs, by simpa using hne⟩, rfl⟩)
  · exact h.once.sublist (hsub.map ProxySessionSummary.id)
  · exact hsub.length_le.trans h.capped

theorem listAgrees_clearSessions :
    ListAgrees summaryMax ((Operation.clearSessions : Operation Content).perform summaryMax store) :=
  ⟨fun _ => Iff.rfl, nodup_nil, Nat.zero_le _⟩

theorem storeStep_some (h : storeStep summaryMax store op = some store') :
    op.Storable ∧ op.perform summaryMax store = store' := by
  unfold storeStep at h
  split at h
  · exact ⟨‹_›, Option.some.inj h⟩
  · cases h

theorem listAgrees_step_iff (h : ListAgrees summaryMax store)
    (hstep : storeStep summaryMax store op = some store') :
    ListAgrees summaryMax store' ↔ KeepsEvictions summaryMax store op := by
  obtain ⟨hstorable, rfl⟩ := storeStep_some hstep
  cases op with
  | upsertSessionBatch batch => exact listAgrees_batch_iff h hstorable
  | deleteSessions sessionIds => exact iff_of_true (listAgrees_deleteSessions h sessionIds) trivial
  | deleteSessionsExcept keepId =>
    exact iff_of_true (listAgrees_deleteSessionsExcept h keepId) trivial
  | clearSessions => exact iff_of_true listAgrees_clearSessions trivial

theorem listAgrees_empty : ListAgrees summaryMax (SessionStore.empty : SessionStore Content) :=
  ⟨fun _ => Iff.rfl, nodup_nil, Nat.zero_le _⟩

/-- For every cap and every run of operations whose storage steps succeed: the list agrees with the
database after each operation exactly when no batch puts a session back in the list that it took from it
and leaves it there. -/
theorem list_agrees_iff (summaryMax : Nat) (ops : List (Operation Content))
    (final : SessionStore Content)
    (hrun : Run.exec (storeStep summaryMax) .empty ops = some final) :
    (∀ done store, done <+: ops → Run.exec (storeStep summaryMax) .empty done = some store →
      ListAgrees summaryMax store) ↔
    Run.Along (storeStep summaryMax) (KeepsEvictions summaryMax) .empty ops :=
  Run.forall_prefix_iff_along (I := fun _ => True) (fun _ _ _ _ _ => trivial)
    (fun _ _ _ _ h hstep => listAgrees_step_iff h hstep) hrun trivial listAgrees_empty

namespace Sample

def session (id : Text) (statusCode : Nat) : ProxySessionDetail Unit where
  id := id
  summary :=
    { id, method := "GET", host := "shop.test", path := "/",
      protocol := "HTTP/1.1", scheme := "https", httpVersion := "1.1",
      transportProtocol := "tcp", applicationProtocol := "http",
      startedAt := "2026-04-15T00:00:00Z", finishedAt := "2026-04-15T00:00:01Z",
      durationMs := 1, sizeBytes := 1, statusCode, url := "https://shop.test/",
      responseMimeType := none, failure := none }
  content := ()

def captured (id : Text) (statusCode : Nat) : SessionUpdate Unit := ⟨session id statusCode, []⟩

def evictAndRelist : List (Operation Unit) :=
  [.upsertSessionBatch [captured ['a'] 0], .upsertSessionBatch [captured ['b'] 200, captured ['a'] 200]]

def relisted : SessionStore Unit := ⟨[], [(session ['a'] 200).summary], .empty⟩

/-- The second batch evicts `a`. -/
def deleteAll : List (Operation Unit) :=
  [.upsertSessionBatch [captured ['a'] 0, captured ['b'] 0], .upsertSessionBatch [captured ['c'] 0],
    .deleteSessions [" b "], .deleteSessionsExcept ['d']]

end Sample

theorem list_agrees_iff_deletes :
    Run.exec (storeStep 2) .empty Sample.deleteAll = some .empty ∧
    ((∀ done store, done <+: Sample.deleteAll →
        Run.exec (storeStep 2) .empty done = some store → ListAgrees 2 store) ↔
      Run.Along (storeStep 2) (KeepsEvictions 2) .empty Sample.deleteAll) :=
  ⟨by decide, list_agrees_iff 2 Sample.deleteAll .empty (by decide)⟩

/-- With a cap of one session the completion of the session that the batch evicted lists it again, and then
the batch deletes its row. -/
theorem evicted_session_relisted :
    ∃ store, Run.exec (storeStep 1) .empty Sample.evictAndRelist = some store ∧
      ¬ ListAgrees 1 store := by
  refine ⟨Sample.relisted, by decide, fun h => ?_⟩
  have hlisted : ['a'] ∈ listedIds Sample.relisted.summaries := by decide
  exact absurd ((h.same ['a']).mp hlisted) (by decide)

end AiProxy.Sessions
