import AiProxy.Sessions.Proofs.CacheProofs

/-!
# The detail cache is an LRU

The calls are counted, and a session is used when its detail is inserted or found. The order of the cache
is the order of the last uses.
-/

namespace AiProxy.Sessions

open Function KeyedList List

variable {Content : Type}

inductive DetailCall (Content : Type) where
  | insert (id : Text) (detail : ProxySessionDetail Content)
  | read (id : Text)
  | refresh (id : Text) (detail : ProxySessionDetail Content)
  | remove (ids : List Text)
  | clear

/-- The cache with the number of the last use of each session, and the detail that was inserted or
refreshed last. -/
structure DetailHistory (Content : Type) where
  details : DetailState Content
  clock : Nat
  lastUse : Text → Nat
  latest : Text → Option (ProxySessionDetail Content)

namespace DetailHistory

def new : DetailHistory Content := ⟨.empty, 0, fun _ => 0, fun _ => none⟩

def use (s : DetailHistory Content) (id : Text) (details : DetailState Content) :
    DetailHistory Content :=
  { s with
    details := details, clock := s.clock + 1, lastUse := Function.update s.lastUse id s.clock }

def write (s : DetailHistory Content) (id : Text) (detail : ProxySessionDetail Content) :
    DetailHistory Content :=
  { s with latest := Function.update s.latest id (some detail) }

def call (s : DetailHistory Content) : DetailCall Content → DetailHistory Content
  | .insert id detail => (s.write id detail).use id (s.details.insertDetail id detail).2
  | .read id =>
    if (s.details.tryGetDetail id).1.isSome then s.use id (s.details.tryGetDetail id).2 else s
  | .refresh id detail =>
    { s.write id detail with details := s.details.refreshDetailIfCached id detail }
  | .remove ids => { s with details := s.details.removeDetails ids }
  | .clear => { s with details := s.details.clearDetails }

/-- The map and the order have the same identifiers, with their latest details, in the order of their last
uses. -/
structure IsLru (s : DetailHistory Content) : Prop where
  keys : (s.details.map.map Prod.fst).Nodup
  cached : ∀ id, id ∈ s.details.map.map Prod.fst ↔ id ∈ s.details.order
  bounded : s.details.order.length ≤ sessionDetailCacheCapacity
  latest : ∀ id ∈ s.details.order, s.details.get id = s.latest id
  sorted : s.details.order.Pairwise (s.lastUse · < s.lastUse ·)
  past : ∀ id ∈ s.details.order, s.lastUse id < s.clock

variable {s : DetailHistory Content} {id : Text} {detail : ProxySessionDetail Content}

theorem IsLru.nodup (h : s.IsLru) : s.details.order.Nodup :=
  h.sorted.imp fun hlt => ne_of_apply_ne s.lastUse hlt.ne

theorem mem_touch {other : Text} {order : List Text} :
    other ∈ DetailState.touch order id ↔ other = id ∨ other ∈ order := by
  rw [DetailState.touch, mem_append, mem_singleton, or_comm]
  by_cases h : other = id
  · simp [h]
  · simp [h, mem_erase_of_ne h]

theorem IsLru.touch (h : s.IsLru) (id : Text) : (DetailState.touch s.details.order id).Pairwise
    (update s.lastUse id s.clock · < update s.lastUse id s.clock ·) := by
  refine pairwise_append.mpr ⟨?_, pairwise_singleton _ _, fun a ha b hb => ?_⟩
  · refine (h.sorted.sublist erase_sublist).imp_of_mem fun ha hb hlt => ?_
    rwa [update_of_ne (h.nodup.mem_erase_iff.mp ha).1, update_of_ne (h.nodup.mem_erase_iff.mp hb).1]
  · obtain ⟨hne, hmem⟩ := h.nodup.mem_erase_iff.mp ha
    rw [mem_singleton.mp hb, update_self, update_of_ne hne]
    exact h.past a hmem

theorem IsLru.touched_past (h : s.IsLru) {other : Text}
    (hmem : other ∈ DetailState.touch s.details.order id) :
    update s.lastUse id s.clock other < s.clock + 1 := by
  by_cases hid : other = id
  · rw [hid, update_self]
    exact Nat.lt_succ_self _
  · rw [update_of_ne hid]
    exact Nat.lt_succ_of_lt (h.past other ((mem_touch.mp hmem).resolve_left hid))

theorem evicted_append_order (details : DetailState Content) (id : Text)
    (detail : ProxySessionDetail Content) :
    (details.insertDetail id detail).1 ++ (details.insertDetail id detail).2.order =
      DetailState.touch details.order id := by
  simp only [DetailState.insertDetail, take_append_drop]

theorem IsLru.evicted_before (h : s.IsLru) {evicted kept : Text}
    (hevicted : evicted ∈ (s.details.insertDetail id detail).1)
    (hkept : kept ∈ (s.call (.insert id detail)).details.order) :
    (s.call (.insert id detail)).lastUse evicted < (s.call (.insert id detail)).lastUse kept := by
  have htouch := h.touch id
  rw [← evicted_append_order s.details id detail] at htouch
  exact (pairwise_append.mp htouch).2.2 evicted hevicted kept hkept

theorem IsLru.mem_insert (h : s.IsLru) {other : Text} :
    other ∈ (s.call (.insert id detail)).details.order ↔
      (other = id ∨ other ∈ s.details.order) ∧ other ∉ (s.details.insertDetail id detail).1 := by
  rw [← mem_touch, ← evicted_append_order s.details id detail, mem_append]
  exact ⟨fun hkept => ⟨.inr hkept, fun hevicted => (h.evicted_before hevicted hkept).false⟩,
    fun hmem => hmem.1.resolve_left hmem.2⟩

/-- The new identifier is the last of the order, and one place is left for it. -/
theorem IsLru.inserted_mem (h : s.IsLru) : id ∈ (s.call (.insert id detail)).details.order := by
  refine h.mem_insert.mpr ⟨.inl rfl, fun hevicted => ?_⟩
  have hplaces : (s.details.order.erase id ++ [id]).length - sessionDetailCacheCapacity ≤
      (s.details.order.erase id).length := by
    rw [length_append, length_singleton, sessionDetailCacheCapacity]
    omega
  have hold : id ∈ s.details.order.erase id := by
    simp only [DetailState.insertDetail, DetailState.touch] at hevicted
    rw [take_append_of_le_length hplaces] at hevicted
    exact mem_of_mem_take hevicted
  exact (h.nodup.mem_erase_iff.mp hold).1 rfl

theorem evicted_eq_nil_or_full :
    (s.details.insertDetail id detail).1 = [] ∨
      (s.call (.insert id detail)).details.order.length = sessionDetailCacheCapacity := by
  simp only [DetailHistory.call, use, DetailState.insertDetail, take_eq_nil_iff, length_drop]
  omega

theorem IsLru.insert (h : s.IsLru) : (s.call (.insert id detail)).IsLru := by
  have hparts := evicted_append_order s.details id detail
  refine ⟨nodup_keys_without (nodup_keys_upsert h.keys), fun other => ?_, ?_,
    fun other hmem => ?_, ?_, fun other hmem =>
      h.touched_past (mem_touch.mpr (h.mem_insert.mp hmem).1)⟩
  · show other ∈ (s.details.insertDetail id detail).2.map.map Prod.fst ↔ _
    rw [map_insertDetail, mem_keys_without, mem_keys_upsert, h.cached]
    exact h.mem_insert.symm
  · simp only [DetailHistory.call, use, DetailState.insertDetail, length_drop]
    omega
  · obtain ⟨htouched, hkept⟩ := h.mem_insert.mp hmem
    show (s.details.insertDetail id detail).2.get other = update s.latest id (some detail) other
    rw [get_insertDetail, if_neg hkept]
    by_cases hid : other = id
    · rw [if_pos hid, hid, update_self]
    · rw [if_neg hid, update_of_ne hid]
      exact h.latest other (htouched.resolve_left hid)
  · exact (h.touch id).sublist (hparts ▸ sublist_append_right ..)

theorem isSome_get_iff {details : DetailState Content} :
    (details.get id).isSome = true ↔ id ∈ details.map.map Prod.fst := by
  rw [DetailState.get, Option.isSome_map, Option.isSome_iff_ne_none, ne_eq,
    KeyedList.lookup_eq_none_iff, not_not]

theorem call_read_none (hget : s.details.get id = none) : s.call (.read id) = s := by
  simp [DetailHistory.call, DetailState.tryGetDetail, hget]

theorem call_read_some (hget : s.details.get id = some detail) :
    s.call (.read id) = s.use id { s.details with order := DetailState.touch s.details.order id } := by
  simp [DetailHistory.call, DetailState.tryGetDetail, hget]

theorem IsLru.mem_of_get (h : s.IsLru) (hget : s.details.get id = some detail) :
    id ∈ s.details.order :=
  (h.cached id).mp (isSome_get_iff.mp (by rw [hget]; rfl))

theorem IsLru.mem_read (h : s.IsLru) {other : Text} :
    other ∈ (s.call (.read id)).details.order ↔ other ∈ s.details.order := by
  cases hget : s.details.get id with
  | none => rw [call_read_none hget]
  | some detail =>
    rw [call_read_some hget]
    exact mem_touch.trans (or_iff_right_of_imp fun he => he ▸ h.mem_of_get hget)

theorem IsLru.read (h : s.IsLru) : (s.call (.read id)).IsLru := by
  have hmem : ∀ other, other ∈ (s.call (.read id)).details.order ↔ other ∈ s.details.order := fun _ =>
    h.mem_read
  cases hget : s.details.get id with
  | none =>
    rw [call_read_none hget]
    exact h
  | some detail =>
    rw [call_read_some hget] at hmem ⊢
    have hid := h.mem_of_get hget
    refine ⟨h.keys, fun other => (h.cached other).trans (hmem other).symm, ?_,
      fun other ho => h.latest other ((hmem other).mp ho), h.touch id, fun other => h.touched_past⟩
    show (s.details.order.erase id ++ [id]).length ≤ _
    rw [length_append, length_erase_of_mem hid, length_singleton,
      Nat.sub_add_cancel (length_pos_of_mem hid)]
    exact h.bounded

theorem order_refreshDetail (details : DetailState Content) (id : Text)
    (detail : ProxySessionDetail Content) :
    (details.refreshDetailIfCached id detail).order = details.order := by
  unfold DetailState.refreshDetailIfCached
  split <;> rfl

theorem IsLru.refresh (h : s.IsLru) : (s.call (.refresh id detail)).IsLru := by
  have horder := order_refreshDetail s.details id detail
  have hkeys : (s.details.refreshDetailIfCached id detail).map.map Prod.fst =
      s.details.map.map Prod.fst := by
    unfold DetailState.refreshDetailIfCached
    split
    · next hcached => exact (keys_upsert ..).trans (if_pos (isSome_get_iff.mp hcached))
    · rfl
  refine ⟨hkeys ▸ h.keys, fun other => ?_, horder ▸ h.bounded, fun other hmem => ?_,
    horder ▸ h.sorted, horder ▸ h.past⟩
  · show other ∈ (s.details.refreshDetailIfCached id detail).map.map Prod.fst ↔
      other ∈ (s.details.refreshDetailIfCached id detail).order
    rw [hkeys, horder]
    exact h.cached other
  · have hin : other ∈ s.details.order := horder ▸ hmem
    show (s.details.refreshDetailIfCached id detail).get other =
      update s.latest id (some detail) other
    by_cases hid : other = id
    · subst hid
      have hsome := isSome_get_iff.mpr ((h.cached other).mpr hin)
      obtain ⟨old, hold⟩ := Option.isSome_iff_exists.mp hsome
      rw [get_refreshDetail_self, hold, update_self]
      rfl
    · rw [get_refreshDetail_of_ne hid, update_of_ne hid]
      exact h.latest other hin

theorem IsLru.remove (h : s.IsLru) (ids : List Text) : (s.call (.remove ids)).IsLru := by
  have hmem : ∀ other, other ∈ (s.details.removeDetails ids).order ↔
      other ∈ s.details.order ∧ other ∉ ids := fun other => by
    simp [DetailState.removeDetails]
  refine ⟨nodup_keys_without h.keys, fun other => ?_, ?_, fun other ho => ?_,
    h.sorted.sublist filter_sublist, fun other ho => h.past other ((hmem other).mp ho).1⟩
  · exact mem_keys_without.trans (((h.cached other).and Iff.rfl).trans (hmem other).symm)
  · exact (length_filter_le ..).trans h.bounded
  · obtain ⟨hin, hnot⟩ := (hmem other).mp ho
    exact (get_removeDetails_of_not_mem hnot).trans (h.latest other hin)

theorem isLru_of_order_nil (hmap : s.details.map = []) (horder : s.details.order = []) : s.IsLru := by
  constructor <;> simp [hmap, horder]

theorem IsLru.call (h : s.IsLru) (c : DetailCall Content) : (s.call c).IsLru := by
  cases c with
  | insert id detail => exact h.insert
  | read id => exact h.read
  | refresh id detail => exact h.refresh
  | remove ids => exact h.remove ids
  | clear => exact isLru_of_order_nil rfl rfl

/-- The identifiers that are cached after a call: an inserted one is, and the others only leave by being
evicted or removed. -/
def Stays (s : DetailHistory Content) : DetailCall Content → Text → Prop
  | .insert id detail, other =>
    other = id ∨ other ∈ s.details.order ∧ other ∉ (s.details.insertDetail id detail).1
  | .read _, other | .refresh _ _, other => other ∈ s.details.order
  | .remove ids, other => other ∈ s.details.order ∧ other ∉ ids
  | .clear, _ => False

theorem IsLru.mem_call_iff (h : s.IsLru) (c : DetailCall Content) (other : Text) :
    other ∈ (s.call c).details.order ↔ s.Stays c other := by
  cases c with
  | insert id detail =>
    rw [Stays, h.mem_insert]
    have hnew : id ∉ (s.details.insertDetail id detail).1 := (h.mem_insert.mp h.inserted_mem).2
    refine ⟨fun hmem => hmem.1.imp_right fun hold => ⟨hold, hmem.2⟩, ?_⟩
    rintro (rfl | ⟨hold, hkept⟩)
    · exact ⟨.inl rfl, hnew⟩
    · exact ⟨.inr hold, hkept⟩
  | read id => exact h.mem_read
  | refresh id detail => rw [Stays, DetailHistory.call, order_refreshDetail]
  | remove ids => simp [DetailHistory.call, DetailState.removeDetails, Stays]
  | clear => simp [DetailHistory.call, DetailState.clearDetails, DetailState.empty, Stays]

end DetailHistory

end AiProxy.Sessions
