import AiProxy.Sessions.Store
import Mathlib.Data.List.Perm.Basic

/-!
# What the methods of the cache do

`upsertSummary` moves identifiers: those that were in the list, with the new one, are those that stay
and those that it removed (`upsertSummary_perm`).
-/

namespace AiProxy.Sessions

open KeyedList List
open KeyedList (upsert lookup without)

variable {Content : Type} {summaryMax : Nat} {focused : FocusedHosts}
  {summaries : List ProxySessionSummary} {summary : ProxySessionSummary} {id : Text} {ids : List Text}

/-! ## The list of the summaries -/

theorem selectEvictionIndex_lt (h : summaries ≠ []) :
    selectEvictionIndex summaries focused < summaries.length := by
  have hpos : 0 < summaries.length := length_pos_iff.mpr h
  unfold selectEvictionIndex
  split
  · exact hpos
  · cases hi : summaries.findIdx? fun s => !focused.contains s.host with
    | none => exact hpos
    | some i => exact (findIdx?_eq_some_iff_getElem.mp hi).1

theorem evictOver_succ (focused : FocusedHosts) (fuel : Nat) (h : summaryMax < summaries.length) :
    ∃ removed rest, (removed :: rest).Perm summaries ∧
      (∀ id, id ≠ removed.id → findSummary rest id = findSummary summaries id) ∧
      evictOver summaryMax focused (fuel + 1) summaries =
        ((evictOver summaryMax focused fuel rest).1,
          removed.id :: (evictOver summaryMax focused fuel rest).2) := by
  have hne : summaries ≠ [] := length_pos_iff.mp (Nat.zero_lt_of_lt h)
  have hlt : selectEvictionIndex summaries focused < summaries.length := selectEvictionIndex_lt hne
  refine ⟨summaries[selectEvictionIndex summaries focused],
    summaries.eraseIdx (selectEvictionIndex summaries focused),
    getElem_cons_eraseIdx_perm hlt, fun id hne => ?_, ?_⟩
  · refine lookup_eraseIdx_of_ne fun removed hremoved => ?_
    rw [getElem?_eq_getElem hlt] at hremoved
    rw [← Option.some.inj hremoved]
    exact hne.symm
  · rw [evictOver, if_pos h]
    simp only [getElem?_eq_getElem hlt]

theorem evictOver_of_le (fuel : Nat) (h : summaries.length ≤ summaryMax) :
    evictOver summaryMax focused fuel summaries = (summaries, []) := by
  cases fuel with
  | zero => rfl
  | succ fuel => rw [evictOver, if_neg (not_lt.mpr h)]

theorem evictOver_perm (fuel : Nat) : ((evictOver summaryMax focused fuel summaries).2 ++
      listedIds (evictOver summaryMax focused fuel summaries).1).Perm (listedIds summaries) := by
  induction fuel generalizing summaries with
  | zero => exact List.Perm.refl _
  | succ fuel ih =>
    by_cases h : summaryMax < summaries.length
    · obtain ⟨removed, rest, hperm, -, heq⟩ := evictOver_succ focused fuel h
      rw [heq]
      exact (ih.cons removed.id).trans (hperm.map ProxySessionSummary.id)
    · rw [evictOver_of_le _ (not_lt.mp h)]
      exact List.Perm.refl _

theorem length_evictOver (fuel : Nat) (h : summaries.length ≤ fuel) :
    (evictOver summaryMax focused fuel summaries).1.length ≤ summaryMax := by
  induction fuel generalizing summaries with
  | zero =>
    rw [eq_nil_of_length_eq_zero (Nat.le_zero.mp h)]
    exact Nat.zero_le _
  | succ fuel ih =>
    by_cases hlt : summaryMax < summaries.length
    · obtain ⟨removed, rest, hperm, -, heq⟩ := evictOver_succ focused fuel hlt
      have hlen := hperm.length_eq
      rw [length_cons] at hlen
      rw [heq]
      exact ih (by omega)
    · rw [evictOver_of_le _ (not_lt.mp hlt)]
      exact not_lt.mp hlt

theorem findSummary_evictOver (fuel : Nat) (h : id ∉ (evictOver summaryMax focused fuel summaries).2) :
    findSummary (evictOver summaryMax focused fuel summaries).1 id = findSummary summaries id := by
  induction fuel generalizing summaries with
  | zero => rfl
  | succ fuel ih =>
    by_cases hlt : summaryMax < summaries.length
    · obtain ⟨removed, rest, -, hfind, heq⟩ := evictOver_succ focused fuel hlt
      rw [heq] at h ⊢
      rw [mem_cons, not_or] at h
      exact (ih h.2).trans (hfind id h.1)
    · rw [evictOver_of_le _ (not_lt.mp hlt)]

/-- What an update removes from the list and what it leaves there, in some order, are the identifiers that
were in the list and the new one. -/
theorem upsertSummary_perm : ((upsertSummary summaryMax summaries summary focused).2 ++
      listedIds (upsertSummary summaryMax summaries summary focused).1).Perm
      (listedIds (upsert (·.id) summary summaries)) := evictOver_perm _

theorem length_upsertSummary :
    (upsertSummary summaryMax summaries summary focused).1.length ≤ summaryMax :=
  length_evictOver _ le_rfl

theorem nodup_removed_append_listed (h : (listedIds summaries).Nodup) :
    ((upsertSummary summaryMax summaries summary focused).2 ++
      listedIds (upsertSummary summaryMax summaries summary focused).1).Nodup :=
  upsertSummary_perm.nodup_iff.mpr (nodup_keys_upsert h)

theorem nodup_upsertSummary (h : (listedIds summaries).Nodup) :
    (listedIds (upsertSummary summaryMax summaries summary focused).1).Nodup :=
  (nodup_append.mp (nodup_removed_append_listed h)).2.1

theorem mem_upsertSummary_iff : id ∈ (upsertSummary summaryMax summaries summary focused).2 ∨
        id ∈ listedIds (upsertSummary summaryMax summaries summary focused).1 ↔
      id = summary.id ∨ id ∈ listedIds summaries := by
  rw [← mem_append, upsertSummary_perm.mem_iff]
  exact mem_keys_upsert

theorem not_listed_of_removed (h : (listedIds summaries).Nodup)
    (hid : id ∈ (upsertSummary summaryMax summaries summary focused).2) :
    id ∉ listedIds (upsertSummary summaryMax summaries summary focused).1 := by
  intro hlisted
  exact (nodup_append.mp (nodup_removed_append_listed h)).2.2 id hid id hlisted rfl

theorem findSummary_upsertSummary
    (h : id ∉ (upsertSummary summaryMax summaries summary focused).2) :
    findSummary (upsertSummary summaryMax summaries summary focused).1 id =
      if id = summary.id then some summary else findSummary summaries id := by
  rw [upsertSummary, findSummary_evictOver _ h]
  by_cases hid : id = summary.id
  · rw [if_pos hid, hid]
    exact lookup_upsert_self
  · rw [if_neg hid]
    exact lookup_upsert_of_ne hid

theorem findSummary_retainSummaries {keepId : Text} (h : id ∉ (retainSummaries summaries keepId).2) :
    findSummary (retainSummaries summaries keepId).1 id = findSummary summaries id := by
  induction summaries with
  | nil => rfl
  | cons s summaries ih =>
    have htail : id ∉ (retainSummaries summaries keepId).2 := by
      intro hmem
      obtain ⟨t, ht, rfl⟩ := mem_map.mp hmem
      obtain ⟨hin, hne⟩ := mem_filter.mp ht
      exact h (mem_map.mpr ⟨t, mem_filter.mpr ⟨mem_cons_of_mem s hin, hne⟩, rfl⟩)
    have hrest := ih htail
    unfold findSummary retainSummaries at hrest ⊢
    by_cases hs : s.id = keepId
    · rw [filter_cons_of_pos (by simpa using hs), KeyedList.lookup_cons, KeyedList.lookup_cons]
      exact congrArg _ hrest
    · have hne : s.id ≠ id := by
        rintro rfl
        refine h (mem_map.mpr ⟨s, mem_filter.mpr ⟨mem_cons_self, ?_⟩, rfl⟩)
        simpa using hs
      rw [filter_cons_of_neg (by simpa using hs), KeyedList.lookup_cons, if_neg hne]
      exact hrest

section Details

variable {details : DetailState Content} {detail : ProxySessionDetail Content} {other : Text}

theorem lookup_upsert_pair {map : List (Text × ProxySessionDetail Content)} :
    lookup Prod.fst id (upsert Prod.fst (id, detail) map) = some (id, detail) :=
  @KeyedList.lookup_upsert_self _ _ _ Prod.fst (id, detail) map

theorem get_refreshDetail_self :
    (details.refreshDetailIfCached id detail).get id = (details.get id).map fun _ => detail := by
  unfold DetailState.refreshDetailIfCached
  cases h : details.get id with
  | none => simp [h]
  | some old =>
    exact congrArg (Option.map Prod.snd) lookup_upsert_pair

theorem get_refreshDetail_of_ne (h : id ≠ other) :
    (details.refreshDetailIfCached other detail).get id = details.get id := by
  unfold DetailState.refreshDetailIfCached
  split
  · exact congrArg _ (lookup_upsert_of_ne h)
  · rfl

theorem get_removeDetails_of_mem (h : id ∈ ids) : (details.removeDetails ids).get id = none := by
  unfold DetailState.get DetailState.removeDetails
  rw [lookup_without_of_mem h]
  rfl

theorem get_removeDetails_of_not_mem (h : id ∉ ids) :
    (details.removeDetails ids).get id = details.get id := congrArg _ (lookup_without_of_not_mem h)

theorem get_removeDetails_cases (ids : List Text) :
    (details.removeDetails ids).get id = details.get id ∨
      (details.removeDetails ids).get id = none := by
  by_cases h : id ∈ ids
  · exact .inr (get_removeDetails_of_mem h)
  · exact .inl (get_removeDetails_of_not_mem h)

theorem get_tryGetDetail : (details.tryGetDetail other).2.get id = details.get id := by
  unfold DetailState.tryGetDetail
  split <;> rfl

theorem map_insertDetail : (details.insertDetail id detail).2.map =
    without Prod.fst (details.insertDetail id detail).1
      (upsert Prod.fst (id, detail) details.map) := by
  simp only [DetailState.insertDetail]

theorem get_insertDetail : (details.insertDetail other detail).2.get id =
    if id ∈ (details.insertDetail other detail).1 then none
    else if id = other then some detail else details.get id := by
  rw [DetailState.get, map_insertDetail]
  split
  · next hevicted =>
    rw [lookup_without_of_mem hevicted]
    rfl
  · next hkept =>
    rw [lookup_without_of_not_mem hkept]
    split
    · next hid =>
      rw [hid, lookup_upsert_pair]
      rfl
    · next hne =>
      rw [lookup_upsert_of_ne hne]
      rfl

theorem get_insertDetail_self : (details.insertDetail id detail).2.get id = some detail ∨
      (details.insertDetail id detail).2.get id = none := by
  rw [get_insertDetail, if_pos rfl]
  exact (ite_eq_or_eq ..).symm

theorem get_insertDetail_of_ne (h : id ≠ other) :
    (details.insertDetail other detail).2.get id = details.get id ∨
      (details.insertDetail other detail).2.get id = none := by
  rw [get_insertDetail, if_neg h]
  exact (ite_eq_or_eq ..).symm

end Details

end AiProxy.Sessions
