import AiProxy.Rules.Reorder
import Mathlib.Data.List.Nodup

/-!
# Reordered rules

The slots of the named rules are filled from the queue (`assignSlots_spec`), so the rules are reordered
exactly if the ids that fill the slots are the existing ones in their order.
-/

namespace AiProxy.Rules

open List

variable {T Id : Type} [DecidableEq Id] {id : T → Id} {all items : List T} {ids queue : List Id}

variable (id all) in
def slotRule (item : T) (nextId : Id) : T := (all.find? (id · = nextId)).getD item

variable (id all) in
theorem slotRule_cases (item : T) (x : Id) :
    x ∈ all.map id ∧ slotRule id all item x ∈ all ∧ id (slotRule id all item x) = x ∨
      x ∉ all.map id ∧ slotRule id all item x = item := by
  unfold slotRule
  cases hfind : all.find? (id · = x) with
  | some found =>
    have hid : id found = x := by simpa using find?_some hfind
    have hmem := mem_of_find?_eq_some hfind
    exact .inl ⟨mem_map.mpr ⟨found, hmem, hid⟩, hmem, hid⟩
  | none =>
    refine .inr ⟨fun hmem => ?_, rfl⟩
    obtain ⟨rule, hrule, hid⟩ := mem_map.mp hmem
    exact find?_eq_none.mp hfind rule hrule (decide_eq_true hid)

variable (all) in
theorem assignSlots_spec (hqueue : ∀ x ∈ queue, x ∈ ids)
    (hlen : (namedRules id items ids).length ≤ queue.length) :
    namedRules id (assignSlots id all ids items queue) ids =
        (namedRules id items ids).zipWith (slotRule id all) queue ∧
      (assignSlots id all ids items queue).filter (!id · ∈ ids) = items.filter (!id · ∈ ids) ∧
      ∀ (i : Nat) item, items[i]? = some item → id item ∉ ids →
        (assignSlots id all ids items queue)[i]? = some item := by
  induction items generalizing queue with
  | nil => simp [assignSlots, namedRules]
  | cons item items ih =>
    by_cases hnamed : id item ∈ ids
    · cases queue with
      | nil => simp [namedRules, hnamed] at hlen
      | cons x queue =>
        obtain ⟨hx, hrest⟩ := forall_mem_cons.mp hqueue
        obtain ⟨hslots, hothers, hkept⟩ := ih hrest (by simpa [namedRules, hnamed] using hlen)
        have hrule : id (slotRule id all item x) ∈ ids := by
          rcases slotRule_cases id all item x with ⟨-, -, hid⟩ | ⟨-, hsame⟩
          · rwa [hid]
          · rwa [hsame]
        have hcons : assignSlots id all ids (item :: items) (x :: queue) =
            slotRule id all item x :: assignSlots id all ids items queue := if_pos hnamed
        rw [hcons]
        refine ⟨?_, ?_, fun i other hother hnot => ?_⟩
        · simpa [namedRules, hrule, hnamed] using hslots
        · simpa [hrule, hnamed] using hothers
        · cases i with
          | zero =>
            cases hother
            exact absurd hnamed hnot
          | succ i => exact hkept i other hother hnot
    · obtain ⟨hslots, hothers, hkept⟩ := ih hqueue (by simpa [namedRules, hnamed] using hlen)
      rw [assignSlots, if_neg hnamed]
      refine ⟨?_, ?_, fun i other hother hnot => ?_⟩
      · simpa [namedRules, hnamed] using hslots
      · simpa [hnamed] using hothers
      · cases i with
        | zero => exact hother
        | succ i => exact hkept i other hother hnot

section

variable (hids : ids.Nodup) {k : Nat} {x : Id} (hk : ids[k]? = some x)

include hids hk

theorem existingIds_getElem?_iff (hx : x ∈ all.map id) :
    (existingIds id all ids)[k]? = some x ↔ ∀ y ∈ ids.take k, y ∈ all.map id := by
  obtain ⟨hlt, rfl⟩ := List.getElem?_eq_some_iff.mp hk
  have hplace : (existingIds id all ids)[(existingIds id all (ids.take k)).length]? =
      some ids[k] := by
    have hfilter := filter_append (p := (· ∈ all.map id)) (ids.take k) (ids.drop k)
    rw [take_append_drop, ← getElem_cons_drop hlt,
      filter_cons_of_pos (by simpa using hx)] at hfilter
    simp [existingIds, -mem_map, hfilter]
  have hcount : (existingIds id all (ids.take k)).length = k ↔
      ∀ y ∈ ids.take k, y ∈ all.map id := by
    conv_lhs => rhs; rw [← length_take_of_le (Nat.le_of_lt hlt)]
    simp only [existingIds, length_filter_eq_length_iff, decide_eq_true_eq]
  rw [← hcount, ← hplace, eq_comm]
  exact getElem?_inj (List.getElem?_eq_some_iff.mp hplace).1 (hids.filter _)

theorem slot_fits_iff (item : T) :
    (existingIds id all ids)[k]? = some (id (slotRule id all item x)) ↔
      x ∈ all.map id ∧ (∀ y ∈ ids.take k, y ∈ all.map id) ∨
        x ∉ all.map id ∧ (existingIds id all ids)[k]? = some (id item) := by
  rcases slotRule_cases id all item x with ⟨hx, -, hid⟩ | ⟨hx, hsame⟩
  · rw [hid, existingIds_getElem?_iff hids hk hx]
    exact ⟨fun h => .inl ⟨hx, h⟩, fun h => (h.resolve_right fun hgone => hgone.1 hx).2⟩
  · rw [hsame]
    exact ⟨fun h => .inr ⟨hx, h⟩, fun h => (h.resolve_left fun hknown => hx hknown.1).2⟩

end

theorem slots_eq_iff (hids : ids.Nodup)
    (hlen : (namedRules id all ids).length = (existingIds id all ids).length) :
    ((namedRules id all ids).zipWith (slotRule id all) ids).map id = existingIds id all ids ↔
      SlotsFit id all ids := by
  constructor
  · intro heq k item x hitem hk
    refine (slot_fits_iff hids hk item).mp ?_
    simp [← heq, getElem?_zipWith, hitem, hk]
  · intro hfit
    refine ext_getElem? fun k => ?_
    cases hitem : (namedRules id all ids)[k]? with
    | none =>
      have hnone : (existingIds id all ids)[k]? = none := by
        rw [List.getElem?_eq_none_iff] at hitem ⊢
        rwa [← hlen]
      simp [hnone, getElem?_zipWith, hitem]
    | some item =>
      have hlt : k < (existingIds id all ids).length := hlen ▸ (List.getElem?_eq_some_iff.mp hitem).1
      have hk := getElem?_eq_getElem (Nat.lt_of_lt_of_le hlt (length_filter_le _ _))
      rw [(slot_fits_iff hids hk item).mpr (hfit k item _ hitem hk)]
      simp [getElem?_zipWith, hitem, hk]

theorem mem_of_mem_slots {rule : T} (h : rule ∈ items.zipWith (slotRule id all) queue) :
    rule ∈ items ∨ rule ∈ all := by
  rw [← map_uncurry_zip_eq_zipWith] at h
  obtain ⟨⟨item, x⟩, hmem, rfl⟩ := mem_map.mp h
  rcases slotRule_cases id all item x with ⟨-, hall, -⟩ | ⟨-, hsame⟩
  · exact .inr hall
  · left
    show slotRule id all item x ∈ items
    rw [hsame]
    exact (of_mem_zip hmem).1

/-- Reordering keeps all rules, and the named ones in the given order, exactly if no id of a removed rule
takes the place of an existing one in the queue. -/
theorem reordered_iff (id : T → Id) (all : List T) (ids : List Id) (hall : (all.map id).Nodup)
    (hids : ids.Nodup) :
    Reordered id all ids (applyOrderedIdsWithinList id all ids) ↔ SlotsFit id all ids := by
  have hnamed : (namedRules id all ids).Sublist all := filter_sublist
  have hperm : ((namedRules id all ids).map id).Perm (existingIds id all ids) := by
    refine (perm_ext_iff_of_nodup (hall.sublist (hnamed.map id)) (hids.filter _)).mpr fun x => ?_
    have hmap : (namedRules id all ids).map id = (all.map id).filter (· ∈ ids) := by
      rw [filter_map]
      rfl
    rw [hmap, mem_filter, mem_filter, decide_eq_true_eq, decide_eq_true_eq,
      and_comm]
  have hlen : (namedRules id all ids).length = (existingIds id all ids).length := by
    rw [← hperm.length_eq, length_map]
  have hle : (namedRules id all ids).length ≤ ids.length := by
    rw [hlen]
    exact length_filter_le _ _
  obtain ⟨hslots, hothers, hkept⟩ := assignSlots_spec all (fun _ h => h) hle
  rw [← slots_eq_iff hids hlen, ← hslots]
  refine ⟨fun h => h.ordered, fun hordered => ⟨?_, hkept, hordered⟩⟩
  -- the rules in the slots differ and are named ones, and there are as many of them
  have hsub : namedRules id (applyOrderedIdsWithinList id all ids) ids ⊆ namedRules id all ids := by
    intro rule hrule
    have hmem : rule ∈ all := by
      rcases mem_of_mem_slots (hslots ▸ hrule) with hitem | hrule
      · exact hnamed.subset hitem
      · exact hrule
    exact mem_filter.mpr ⟨hmem, (mem_filter.mp hrule).2⟩
  have hnodup : (namedRules id (applyOrderedIdsWithinList id all ids) ids).Nodup :=
    .of_map id (hordered ▸ hids.filter _)
  have hsame := (subperm_of_subset hnodup hsub).perm_of_length_le (by
    rw [hlen, ← hordered, length_map]
    exact Nat.le_refl _)
  refine (filter_append_perm (id · ∈ ids) _).symm.trans ?_
  refine List.Perm.trans ?_ (filter_append_perm (id · ∈ ids) all)
  rw [applyOrderedIdsWithinList, hothers]
  exact hsame.append_right _

theorem reordered_swapped :
    Reordered (fun n : Nat => n) [1, 2, 3] [3, 1]
      (applyOrderedIdsWithinList (fun n : Nat => n) [1, 2, 3] [3, 1]) := by
  refine (reordered_iff _ _ _ (by decide) (by decide)).mpr fun k item x _ hk => ?_
  have hknown : ∀ x ∈ [3, 1], x ∈ [1, 2, 3].map fun n : Nat => n := by decide
  exact .inl ⟨hknown x (mem_of_getElem? hk), fun y hy => hknown y (mem_of_mem_take hy)⟩

/-- The second id is that of a removed rule: the second rule takes both places. -/
theorem reordering_loses_rule :
    applyOrderedIdsWithinList (fun n : Nat => n) [1, 2] [2, 3, 1] = [2, 2] ∧
      ¬ Reordered (fun n : Nat => n) [1, 2] [2, 3, 1]
        (applyOrderedIdsWithinList (fun n : Nat => n) [1, 2] [2, 3, 1]) :=
  ⟨by decide, fun h => absurd h.perm (by decide)⟩

end AiProxy.Rules
