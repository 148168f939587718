import AiProxy.Sessions.DetailReads
import AiProxy.Sessions.Proofs.AgreementProofs

/-!
# What a store holds of one session

A session is seen through its row, its summary in the list and its cached detail.
-/

namespace AiProxy.Sessions

open KeyedList List
open KeyedList (upsertAll without last?)

variable {Content Stored : Type} {conv : Conversion Content Stored} {summaryMax : Nat}
  {store store' : SessionStore Content} {removed : Removed} {call : Call Content}
  {calls : List (Call Content)} {id : Text} {last : ProxySessionDetail Content}
  {updates : List (SessionUpdate Content)}

variable {update : SessionUpdate Content}

def SessionStore.row (store : SessionStore Content) (id : Text) : Option (ProxySessionDetail Content) :=
  KeyedList.lookup (·.id) id store.rows

/-- The list has the summary of the row, and the cache a detail of it. -/
structure EntryOk (conv : Conversion Content Stored) (store : SessionStore Content) (id : Text) :
  Prop where
  listed : ∀ update, store.row id = some update →
    findSummary store.summaries id = some update.summary
  cached : ∀ detail, store.details.get id = some detail →
    ∃ update, store.row id = some update ∧ DetailOf conv update detail

theorem EntryOk.of_absent (hrow : store.row id = none) (hcached : store.details.get id = none) :
    EntryOk conv store id := by
  constructor
  · intro update h
    rw [hrow] at h
    cases h
  · intro detail h
    rw [hcached] at h
    cases h

theorem EntryOk.get_eq_none (h : EntryOk conv store id) (hrow : store.row id = none) :
    store.details.get id = none := by
  cases hget : store.details.get id with
  | none => rfl
  | some detail =>
    obtain ⟨update, hsome, -⟩ := h.cached detail hget
    rw [hrow] at hsome
    cases hsome

/-- The row and the summary are as before, and the cached detail is as before or gone. -/
structure SameEntry (store store' : SessionStore Content) (id : Text) : Prop where
  row : store'.row id = store.row id
  listed : findSummary store'.summaries id = findSummary store.summaries id
  cached : store'.details.get id = store.details.get id ∨ store'.details.get id = none

theorem SameEntry.ok (h : SameEntry store store' id) (hok : EntryOk conv store id) :
    EntryOk conv store' id := by
  constructor
  · rw [h.row, h.listed]
    exact hok.listed
  · intro detail hget
    rw [h.row]
    rcases h.cached with hsame | hnone
    · exact hok.cached detail (hsame ▸ hget)
    · rw [hnone] at hget
      cases hget

theorem sameEntry_of_not_touched (h : id ∉ call.touches summaryMax store removed) :
    SameEntry store (call.run summaryMax store removed).1 id := by
  cases call with
  | persistSessionBatch sessions =>
    exact ⟨lookup_upsertAll_of_not_mem h, rfl, .inl rfl⟩
  | upsertSummary update =>
    have h' := not_or.mp (mem_cons.not.mp h)
    exact ⟨rfl, (findSummary_upsertSummary h'.2).trans (if_neg h'.1), .inl rfl⟩
  | refreshDetail detail =>
    exact ⟨rfl, rfl, .inl (get_refreshDetail_of_ne fun he => h (mem_singleton.mpr he))⟩
  | removeSummaries ids => exact ⟨rfl, lookup_without_of_not_mem h, .inl rfl⟩
  | retainSummaries keepId => exact ⟨rfl, findSummary_retainSummaries h, .inl rfl⟩
  | clearSummaries => exact ⟨rfl, (lookup_eq_none_iff.mpr h).symm, .inl rfl⟩
  | removeDetails => exact ⟨rfl, rfl, get_removeDetails_cases _⟩
  | deleteRows ids | deleteRemovedRows =>
    exact ⟨lookup_without_of_not_mem h, rfl, .inl rfl⟩
  | clearRows => exact ⟨(lookup_eq_none_iff.mpr h).symm, rfl, .inl rfl⟩

theorem mem_removed_run (h : id ∈ (call.run summaryMax store removed).2.all) :
    id ∈ removed.all ∨ id ∈ call.touches summaryMax store removed := by
  cases call with
  | upsertSummary update => exact (mem_append.mp h).imp_right (mem_cons_of_mem _)
  | removeSummaries ids | retainSummaries keepId | clearSummaries => exact mem_append.mp h
  | persistSessionBatch | refreshDetail | removeDetails | deleteRows | clearRows | deleteRemovedRows =>
    exact .inl h

/-- The same rows and the same list, and the cached detail of the session is the same or gone. -/
structure Weaker (store store' : SessionStore Content) (id : Text) : Prop where
  rows : store'.rows = store.rows
  summaries : store'.summaries = store.summaries
  cached : store'.details.get id = store.details.get id ∨ store'.details.get id = none

section

variable (h : Weaker store store' id)

include h

theorem Weaker.sameEntry : SameEntry store store' id :=
  ⟨by rw [SessionStore.row, h.rows]; rfl, by rw [h.summaries], h.cached⟩

theorem Weaker.refreshDetail (detail : ProxySessionDetail Content) :
    (store'.details.refreshDetailIfCached detail.id detail).get id =
        (store.details.refreshDetailIfCached detail.id detail).get id ∨
      (store'.details.refreshDetailIfCached detail.id detail).get id = none := by
  by_cases hid : id = detail.id
  · subst hid
    rw [get_refreshDetail_self, get_refreshDetail_self]
    exact h.cached.imp (congrArg _) (congrArg _)
  · rw [get_refreshDetail_of_ne hid, get_refreshDetail_of_ne hid]
    exact h.cached

theorem Weaker.removeDetails (ids : List Text) :
    (store'.details.removeDetails ids).get id = (store.details.removeDetails ids).get id ∨
      (store'.details.removeDetails ids).get id = none := by
  by_cases hid : id ∈ ids
  · exact .inr (get_removeDetails_of_mem hid)
  · rw [get_removeDetails_of_not_mem hid, get_removeDetails_of_not_mem hid]
    exact h.cached

theorem Weaker.run (summaryMax : Nat) (call : Call Content) (removed : Removed) :
    Weaker (call.run summaryMax store removed).1 (call.run summaryMax store' removed).1 id ∧
      (call.run summaryMax store' removed).2 = (call.run summaryMax store removed).2 := by
  have hweak := h
  obtain ⟨hrows, hsummaries, hcached⟩ := h
  cases call with
  | persistSessionBatch sessions =>
    exact ⟨⟨congrArg (upsertAll ProxySessionDetail.id sessions) hrows, hsummaries, hcached⟩, rfl⟩
  | upsertSummary update | retainSummaries keepId | clearSummaries =>
    simp only [Call.run, hsummaries]
    exact ⟨⟨hrows, rfl, hcached⟩, trivial⟩
  | refreshDetail detail => exact ⟨⟨hrows, hsummaries, hweak.refreshDetail detail⟩, rfl⟩
  | removeSummaries ids =>
    exact ⟨⟨hrows, congrArg (removeSummaries · ids) hsummaries, hcached⟩, rfl⟩
  | removeDetails => exact ⟨⟨hrows, hsummaries, hweak.removeDetails _⟩, rfl⟩
  | deleteRows ids =>
    exact ⟨⟨congrArg (without ProxySessionDetail.id ids) hrows, hsummaries, hcached⟩, rfl⟩
  | clearRows => exact ⟨⟨rfl, hsummaries, hcached⟩, rfl⟩
  | deleteRemovedRows =>
    exact ⟨⟨congrArg (without ProxySessionDetail.id removed.all) hrows, hsummaries, hcached⟩, rfl⟩

end

theorem runCalls_cons (call : Call Content) (calls : List (Call Content)) :
    runCalls summaryMax store removed (call :: calls) =
      runCalls summaryMax (call.run summaryMax store removed).1
        (call.run summaryMax store removed).2 calls := rfl

theorem Weaker.runCalls (h : Weaker store store' id) (calls : List (Call Content)) (removed : Removed) :
    Weaker (runCalls summaryMax store removed calls) (runCalls summaryMax store' removed calls) id := by
  induction calls generalizing store store' removed with
  | nil => exact h
  | cons call calls ih =>
    obtain ⟨hrun, hremoved⟩ := h.run summaryMax call removed
    rw [runCalls_cons, runCalls_cons, hremoved]
    exact ih hrun _

/-! ## The updates of a batch -/

/-- The store and the removed identifiers after `update_session_cache_and_emit`. -/
def afterUpdate (summaryMax : Nat) (store : SessionStore Content) (update : SessionUpdate Content) :
    SessionStore Content :=
  { store with
    summaries := (upsertSummary summaryMax store.summaries update.detail.summary update.focusedHosts).1
    details := (store.details.refreshDetailIfCached update.detail.id update.detail).removeDetails
      (upsertSummary summaryMax store.summaries update.detail.summary update.focusedHosts).2 }

def evictedBy (summaryMax : Nat) (store : SessionStore Content) (update : SessionUpdate Content) :
    List Text :=
  (upsertSummary summaryMax store.summaries update.detail.summary update.focusedHosts).2

def restOfBatch (updates : List (SessionUpdate Content)) : List (Call Content) :=
  updates.flatMap updateSessionCache ++ [.deleteRemovedRows]

theorem runCalls_restOfBatch_cons (update : SessionUpdate Content) :
    runCalls summaryMax store removed (restOfBatch (update :: updates)) =
      runCalls summaryMax (afterUpdate summaryMax store update)
        (removed.add (evictedBy summaryMax store update)) (restOfBatch updates) := rfl

theorem entryOk_restOfBatch_of_removed (hcached : store.details.get id = none)
    (hremoved : id ∈ removed.all) :
    EntryOk conv (runCalls summaryMax store removed (restOfBatch updates)) id := by
  induction updates generalizing store removed with
  | nil => exact EntryOk.of_absent (lookup_without_of_mem hremoved) hcached
  | cons update updates ih =>
    refine ih ?_ (mem_append_left _ hremoved)
    have hrefresh : (store.details.refreshDetailIfCached update.detail.id update.detail).get id =
      none := by
      by_cases hid : id = update.detail.id
      · rw [hid, get_refreshDetail_self, ← hid, hcached]
        rfl
      · rw [get_refreshDetail_of_ne hid, hcached]
    by_cases hevicted : id ∈ evictedBy summaryMax store update
    · exact get_removeDetails_of_mem hevicted
    · exact (get_removeDetails_of_not_mem hevicted).trans hrefresh

/-- The cached detail of a session while the rest of a batch runs, when the row is that of `last`: it is
gone, or it will be refreshed, or it is the detail of `last`; and so is the summary. -/
structure Refreshing (conv : Conversion Content Stored) (store : SessionStore Content)
  (removed : Removed)
    (id : Text) (last : ProxySessionDetail Content) (updates : List (SessionUpdate Content)) :
      Prop where
  row : store.row id = some last
  next : ∀ detail, KeyedList.last? (·.id) id (updates.map (·.detail)) = some detail → detail = last
  cached : ∀ detail, store.details.get id = some detail → id ∉ removed.all ∧
    ((KeyedList.last? (·.id) id (updates.map (·.detail))).isSome ∨ DetailOf conv last detail)
  listed : id ∉ removed.all →
    (KeyedList.last? (·.id) id (updates.map (·.detail))).isSome ∨
      findSummary store.summaries id = some last.summary

theorem not_evicted_of_get {detail : ProxySessionDetail Content}
    (h : (afterUpdate summaryMax store update).details.get id = some detail) :
    id ∉ evictedBy summaryMax store update := by
  intro hin
  have hnone : (afterUpdate summaryMax store update).details.get id = none :=
    get_removeDetails_of_mem hin
  rw [hnone] at h
  cases h

theorem Refreshing.update_self (h : Refreshing conv store removed id last (update :: updates))
    (hstorable : update.Storable) (hid : update.detail.id = id) :
    Refreshing conv (afterUpdate summaryMax store update)
      (removed.add (evictedBy summaryMax store update)) id last updates := by
  have hlast : last? (·.id) id (updates.map (·.detail)) = none → update.detail = last := by
    intro hnone
    refine h.next update.detail ?_
    rw [map_cons, last?, hnone, if_pos hid]
    rfl
  have hnext : ∀ detail, last? (·.id) id (updates.map (·.detail)) = some detail →
      detail = last := by
    intro detail hd
    refine h.next detail ?_
    rw [map_cons, last?, hd]
    rfl
  refine ⟨h.row, hnext, fun detail hget => ?_, fun hnot => ?_⟩
  · have hevicted := not_evicted_of_get hget
    have hrefreshed : (afterUpdate summaryMax store update).details.get id =
        (store.details.get id).map fun _ => update.detail := by
      refine (get_removeDetails_of_not_mem hevicted).trans ?_
      rw [hid]
      exact get_refreshDetail_self
    rw [hrefreshed] at hget
    obtain ⟨old, hold, hdetail⟩ := Option.map_eq_some_iff.mp hget
    refine ⟨fun hin => ?_, ?_⟩
    · exact (mem_append.mp hin).elim (h.cached old hold).1 hevicted
    · cases hl : last? (·.id) id (updates.map (·.detail)) with
      | some next => exact .inl rfl
      | none => exact .inr (.inl (hdetail ▸ hlast hl))
  · have hevicted : id ∉ evictedBy summaryMax store update :=
      fun hin => hnot (mem_append_right _ hin)
    cases hl : last? (·.id) id (updates.map (·.detail)) with
    | some next => exact .inl rfl
    | none =>
      refine .inr ((findSummary_upsertSummary hevicted).trans ?_)
      rw [if_pos (hid.symm.trans hstorable), hlast hl]

theorem Refreshing.update_other (h : Refreshing conv store removed id last (update :: updates))
    (hstorable : update.Storable) (hid : update.detail.id ≠ id) :
    Refreshing conv (afterUpdate summaryMax store update)
      (removed.add (evictedBy summaryMax store update)) id last updates := by
  have hlast : last? (·.id) id ((update :: updates).map (·.detail)) =
      last? (·.id) id (updates.map (·.detail)) := by
    rw [map_cons, last?, if_neg hid, Option.or_none]
  obtain ⟨hrow, hnext, hcached, hlisted⟩ := h
  rw [hlast] at hnext hcached hlisted
  refine ⟨hrow, hnext, fun detail hget => ?_, fun hnot => ?_⟩
  · have hevicted := not_evicted_of_get hget
    have hsame : (afterUpdate summaryMax store update).details.get id = store.details.get id :=
      (get_removeDetails_of_not_mem hevicted).trans (get_refreshDetail_of_ne hid.symm)
    rw [hsame] at hget
    refine ⟨fun hin => ?_, (hcached detail hget).2⟩
    exact (mem_append.mp hin).elim (hcached detail hget).1 hevicted
  · have hevicted : id ∉ evictedBy summaryMax store update :=
      fun hin => hnot (mem_append_right _ hin)
    have hne : id ≠ update.detail.summary.id := fun he => hid (hstorable.trans he.symm)
    refine (hlisted fun hin => hnot (mem_append_left _ hin)).imp_right fun hfound => ?_
    exact (findSummary_upsertSummary hevicted).trans ((if_neg hne).trans hfound)

theorem Refreshing.entryOk (h : Refreshing conv store removed id last updates)
    (hstorable : ∀ update ∈ updates, update.Storable) :
    EntryOk conv (runCalls summaryMax store removed (restOfBatch updates)) id := by
  induction updates generalizing store removed with
  | nil =>
    by_cases hin : id ∈ removed.all
    · refine EntryOk.of_absent (lookup_without_of_mem hin) ?_
      cases hget : store.details.get id with
      | none => exact hget
      | some detail => exact absurd hin (h.cached detail hget).1
    · have hrow : (runCalls summaryMax store removed (restOfBatch [])).row id = some last :=
        (lookup_without_of_not_mem hin).trans h.row
      constructor
      · intro update hupdate
        cases hrow.symm.trans hupdate
        exact (h.listed hin).resolve_left Bool.false_ne_true
      · intro detail hget
        exact ⟨last, hrow, (h.cached detail hget).2.resolve_left Bool.false_ne_true⟩
  | cons update updates ih =>
    have hfirst : update.Storable := hstorable update mem_cons_self
    refine ih ?_ fun u hu => hstorable u (mem_cons_of_mem _ hu)
    by_cases hid : update.detail.id = id
    · exact h.update_self hfirst hid
    · exact h.update_other hfirst hid

theorem entryOk_batch {batch : List (SessionUpdate Content)}
    (hstorable : ∀ update ∈ batch, update.Storable) (hid : id ∈ (batch.map (·.detail)).map (·.id)) :
    EntryOk conv (runCalls summaryMax store .none (Operation.upsertSessionBatch batch).calls) id := by
  cases hlast : last? (·.id) id (batch.map (·.detail)) with
  | none => exact absurd hid (last?_eq_none_iff.mp hlast)
  | some last =>
    have hrefreshing : Refreshing conv
        { store with rows := upsertAll (·.id) (batch.map (·.detail)) store.rows } .none
          id last
        batch := by
      refine ⟨?_, fun detail hd => Option.some.inj (hd.symm.trans hlast),
        fun _ _ => ⟨not_mem_nil, .inl (by rw [hlast]; rfl)⟩, fun _ => .inl (by rw [hlast]; rfl)⟩
      rw [SessionStore.row, lookup_upsertAll, hlast]
      rfl
    exact hrefreshing.entryOk hstorable

theorem entryOk_evicted (hevicted : id ∈ evictedBy summaryMax store update) :
    EntryOk conv (runCalls summaryMax store removed (restOfBatch (update :: updates))) id := by
  rw [runCalls_restOfBatch_cons]
  exact entryOk_restOfBatch_of_removed (get_removeDetails_of_mem hevicted)
    (mem_append_right _ hevicted)

end AiProxy.Sessions
