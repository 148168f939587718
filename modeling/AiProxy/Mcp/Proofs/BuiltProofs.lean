import AiProxy.Lib.JsonEdit
import AiProxy.Mcp.Proofs.ByteOffsetProofs
import AiProxy.Mcp.Proofs.CaptureProofs
import Mathlib.Algebra.Order.BigOperators.Group.List
import Mathlib.Algebra.Order.Ring.Nat

/-!
# Sizes of built values

An object or an array is built completely exactly if the sum of its parts stays within the limit.
-/

namespace AiProxy.Mcp

open List
open Json (Bytes Value collect)
open Utf8 (chars encode)

variable {N : Type} {p : Platform N} {r : Redactor} {raw : Bool}
variable {members : List (Bytes × Value N)} {items : List (Value N)}

/-! ## Objects -/

theorem objectSize_concat (members : List (Bytes × Value N)) (k : Bytes) (v : Value N) :
    objectSize p (members ++ [(k, v)]) =
      objectSize p members + (if members = [] then 0 else 1) + p.serializedLen (.string k) + 1 +
        p.serializedLen v := by
  cases members with
  | nil | cons m members => simp [objectSize]; omega

theorem objectSize_append_le (a b : List (Bytes × Value N)) :
    objectSize p a ≤ objectSize p (a ++ b) := by
  simp only [objectSize, length_append, map_append, sum_append]
  omega

namespace ObjectBuilder

variable {b : ObjectBuilder N}

structure Holds (p : Platform N) (b : ObjectBuilder N) (members : List (Bytes × Value N)) : Prop where
  truncated : b.truncated = false
  object : b.object = collect members
  size : b.serializedSize = objectSize p members

theorem truncated_pushSummaryKey (b : ObjectBuilder N) (k : Bytes) (captured : CapturedValue N) :
    (b.pushSummaryKey p k captured).truncated = b.truncated := by
  unfold pushSummaryKey
  split <;> rfl

theorem Holds.pushSummaryKey (h : Holds p b members) (k : Bytes) (captured : CapturedValue N) :
    Holds p (b.pushSummaryKey p k captured) members := by
  unfold ObjectBuilder.pushSummaryKey
  split
  · exact ⟨h.truncated, h.object, h.size⟩
  · exact h

theorem Holds.nextSize (h : Holds p b members) (k : Bytes) (v : Value N) :
    saturatingAdd (saturatingAdd (saturatingAdd (saturatingAdd b.serializedSize
      (if b.object.isEmpty then 0 else 1)) (p.serializedLen (.string k))) 1) (p.serializedLen v) =
      min (objectSize p (members ++ [(k, v)])) (2 ^ 64 - 1) := by
  have hcomma : (if b.object.isEmpty = true then 0 else 1) = if members = [] then 0 else 1 := by
    rw [h.object]
    by_cases hm : members = []
    · subst hm
      rfl
    · have hne : ¬ (collect members).isEmpty = true := by
        rw [List.isEmpty_iff]
        exact fun hc => hm (Json.collect_eq_nil hc)
      rw [if_neg hne, if_neg hm]
  rw [objectSize_concat, h.size]
  simp only [saturatingAdd]
  omega

/-- The members are held while they are within the limit, and the builder is truncated after that. -/
def Filled (p : Platform N) (b : ObjectBuilder N) (members : List (Bytes × Value N)) : Prop :=
  (objectSize p members ≤ maxExtractedValueBytes → Holds p b members) ∧
    (maxExtractedValueBytes < objectSize p members → b.truncated = true)

theorem Holds.append (h : Holds p b members) (k : Bytes) (captured : CapturedValue N) (n : Nat) :
    Filled p ({ b with keyCount := n }.append p k captured) (members ++ [(k, captured.value)]) := by
  have hnext := h.nextSize k captured.value
  constructor
  · intro hsize
    refine Holds.pushSummaryKey ?_ k captured
    rw [appendObjectEntry, if_neg (by simp [h.truncated])]
    dsimp only
    rw [hnext, if_neg (by rw [maxExtractedValueBytes] at *; omega)]
    refine ⟨h.truncated, ?_, ?_⟩
    · rw [h.object, collect, collect, foldl_append]
      rfl
    · show min _ _ = _
      rw [maxExtractedValueBytes] at hsize
      omega
  · intro hsize
    rw [ObjectBuilder.append, truncated_pushSummaryKey, appendObjectEntry,
      if_neg (by simp [h.truncated])]
    dsimp only
    rw [if_pos (by rw [maxExtractedValueBytes] at *; omega)]

theorem Filled.append (h : Filled p b members) (k : Bytes) (captured : CapturedValue N) (n : Nat) :
    Filled p ({ b with keyCount := n }.append p k captured) (members ++ [(k, captured.value)]) := by
  by_cases hbefore : objectSize p members ≤ maxExtractedValueBytes
  · exact (h.1 hbefore).append k captured n
  · have htruncated := h.2 (not_le.mp hbefore)
    refine ⟨fun hsize => absurd ((objectSize_append_le ..).trans hsize) hbefore, fun _ => ?_⟩
    rw [ObjectBuilder.append, truncated_pushSummaryKey, appendObjectEntry, if_pos htruncated]
    exact htruncated

end ObjectBuilder

section Members

variable (p r raw)

def builtEntry (m : Bytes × Value N) : CapturedValue N :=
  if hides p r raw m.1 then builtSensitive p r m.1 m.2 else built p r raw m.2

def builtMemberValues (members : List (Bytes × Value N)) : List (Bytes × Value N) :=
  members.map fun m => (m.1, (builtEntry p r raw m).value)

def builtItemValues (items : List (Value N)) : List (Value N) :=
  items.map fun v => (built p r raw v).value

end Members

theorem builtMembers_filled (members : List (Bytes × Value N)) : ∀ {b : ObjectBuilder N}
    (before : List (Bytes × Value N)), b.Filled p before →
    (builtMembers p r raw members b).Filled p (before ++ builtMemberValues p r raw members) := by
  induction members with
  | nil =>
    intro b before h
    rw [builtMemberValues, map_nil, append_nil]
    exact h
  | cons m members ih =>
    intro b before h
    have hrest := ih _ (h.append m.1 (builtEntry p r raw m) (b.keyCount + 1))
    rw [append_assoc] at hrest
    rw [builtMembers]
    obtain ⟨k, v⟩ := m
    exact hrest

theorem filled_object (members : List (Bytes × Value N)) :
    (builtMembers p r raw members .empty).Filled p (builtMemberValues p r raw members) :=
  builtMembers_filled members []
    ⟨fun _ => ⟨rfl, rfl, rfl⟩, fun h => absurd (Nat.le_of_ble_eq_true rfl) (not_le.mpr h)⟩

structure CapturedValue.Complete (c : CapturedValue N) (v : Value N) : Prop where
  value : c.value = v
  truncated : c.truncated = false
  valueSummary : c.valueSummary = none
  valueType : c.valueType = jsonTypeName v

theorem built_object_complete
    (h : objectSize p (builtMemberValues p r raw members) ≤ maxExtractedValueBytes) :
    (built p r raw (.object members)).Complete
      (.object (collect (builtMemberValues p r raw members))) := by
  have hholds := (filled_object members).1 h
  rw [built, ObjectBuilder.finish, if_neg (by simp [hholds.truncated]), hholds.object]
  exact ⟨rfl, rfl, rfl, rfl⟩

theorem built_object_truncated
    (h : maxExtractedValueBytes < objectSize p (builtMemberValues p r raw members)) :
    (built p r raw (.object members)).value = .null ∧
      (built p r raw (.object members)).truncated = true := by
  rw [built, ObjectBuilder.finish, if_pos ((filled_object members).2 h)]
  exact ⟨rfl, rfl⟩

/-! ## Arrays -/

theorem arraySize_concat (items : List (Value N)) (v : Value N) : arraySize p (items ++ [v]) =
      arraySize p items + (if items = [] then 0 else 1) + p.serializedLen v := by
  cases items with
  | nil => simp [arraySize]
  | cons w items => simp [arraySize]; omega

theorem arraySize_append_le (a b : List (Value N)) : arraySize p a ≤ arraySize p (a ++ b) := by
  simp only [arraySize, length_append, map_append, sum_append]
  omega

namespace ArrayBuilder

variable {b : ArrayBuilder N}

structure Holds (p : Platform N) (b : ArrayBuilder N) (done : List (Value N)) : Prop where
  truncated : b.truncated = false
  items : b.items = done
  size : b.serializedSize = arraySize p done

theorem truncated_pushSummaryItem (b : ArrayBuilder N) (index : Nat) (captured : CapturedValue N) :
    (b.pushSummaryItem p index captured).truncated = b.truncated := by
  unfold pushSummaryItem
  split <;> rfl

theorem Holds.pushSummaryItem (h : Holds p b items) (index : Nat) (captured : CapturedValue N) :
    Holds p (b.pushSummaryItem p index captured) items := by
  unfold ArrayBuilder.pushSummaryItem
  split
  · exact ⟨h.truncated, h.items, h.size⟩
  · exact h

theorem Holds.nextSize (h : Holds p b items) (v : Value N) :
    saturatingAdd (saturatingAdd b.serializedSize (if b.items.isEmpty then 0 else 1))
      (p.serializedLen v) = min (arraySize p (items ++ [v])) (2 ^ 64 - 1) := by
  rw [arraySize_concat, h.items, h.size]
  simp only [saturatingAdd, List.isEmpty_iff]
  omega

def Filled (p : Platform N) (b : ArrayBuilder N) (items : List (Value N)) : Prop :=
  (arraySize p items ≤ maxExtractedValueBytes → Holds p b items) ∧
    (maxExtractedValueBytes < arraySize p items → b.truncated = true)

theorem Holds.append (h : Holds p b items) (index : Nat) (captured : CapturedValue N) :
    Filled p (b.append p index captured) (items ++ [captured.value]) := by
  have hnext := h.nextSize captured.value
  constructor
  · intro hsize
    refine Holds.pushSummaryItem ?_ index captured
    rw [appendArrayEntry, if_neg (by simp [h.truncated])]
    dsimp only
    rw [hnext, if_neg (by rw [maxExtractedValueBytes] at *; omega)]
    refine ⟨h.truncated, congrArg (· ++ _) h.items, ?_⟩
    show min _ _ = _
    rw [maxExtractedValueBytes] at hsize
    omega
  · intro hsize
    rw [ArrayBuilder.append, truncated_pushSummaryItem, appendArrayEntry,
      if_neg (by simp [h.truncated])]
    dsimp only
    rw [if_pos (by rw [maxExtractedValueBytes] at *; omega)]

theorem Filled.append (h : Filled p b items) (index : Nat) (captured : CapturedValue N) :
    Filled p (b.append p index captured) (items ++ [captured.value]) := by
  by_cases hbefore : arraySize p items ≤ maxExtractedValueBytes
  · exact (h.1 hbefore).append index captured
  · have htruncated := h.2 (not_le.mp hbefore)
    refine ⟨fun hsize => absurd ((arraySize_append_le ..).trans hsize) hbefore, fun _ => ?_⟩
    rw [ArrayBuilder.append, truncated_pushSummaryItem, appendArrayEntry, if_pos htruncated]
    exact htruncated

end ArrayBuilder

theorem builtItems_filled (items : List (Value N)) : ∀ (index : Nat) {b : ArrayBuilder N}
    (before : List (Value N)), b.Filled p before →
    (builtItems p r raw items index b).Filled p (before ++ builtItemValues p r raw items) := by
  induction items with
  | nil =>
    intro index b before h
    rw [builtItemValues, map_nil, append_nil]
    exact h
  | cons v items ih =>
    intro index b before h
    have hrest := ih (index + 1) _ (h.append index (built p r raw v))
    rw [append_assoc] at hrest
    exact hrest

theorem filled_array (items : List (Value N)) :
    (builtItems p r raw items 0 .empty).Filled p (builtItemValues p r raw items) :=
  builtItems_filled items 0 []
    ⟨fun _ => ⟨rfl, rfl, rfl⟩, fun h => absurd (Nat.le_of_ble_eq_true rfl) (not_le.mpr h)⟩

theorem built_array_complete
    (h : arraySize p (builtItemValues p r raw items) ≤ maxExtractedValueBytes) :
    (built p r raw (.array items)).Complete (.array (builtItemValues p r raw items)) := by
  have hholds := (filled_array items).1 h
  rw [built, ArrayBuilder.finish, if_neg (by simp [hholds.truncated]), hholds.items]
  exact ⟨rfl, rfl, rfl, rfl⟩

theorem built_array_truncated
    (h : maxExtractedValueBytes < arraySize p (builtItemValues p r raw items)) :
    (built p r raw (.array items)).value = .null ∧
      (built p r raw (.array items)).truncated = true := by
  rw [built, ArrayBuilder.finish, if_pos ((filled_array items).2 h)]
  exact ⟨rfl, rfl⟩

theorem builtString_complete {text : Text} (h : byteLen text ≤ maxExtractedValueBytes) :
    (builtString p raw text).Complete (jsonText text) := by
  rw [builtString, if_pos h]
  exact ⟨rfl, rfl, rfl, rfl⟩

theorem builtSensitive_complete (key : Bytes) (v : Value N) :
    (builtSensitive p r key v).Complete (hiddenValue p r key v) := ⟨rfl, rfl, rfl, rfl⟩

mutual

theorem Fits.complete : (v : Value N) → Fits p r raw v → (built p r raw v).Complete (view p r raw v)
  | .null, _ | .bool _, _ | .number _, _ => ⟨rfl, rfl, rfl, rfl⟩
  | .string s, h => builtString_complete h
  | .array items, h => by
    rw [Fits, ← ItemsFit.values items h.2] at h
    rw [view, ← ItemsFit.values items h.2]
    exact built_array_complete h.1
  | .object members, h => by
    rw [Fits, ← MembersFit.values members h.2] at h
    rw [view, ← MembersFit.values members h.2]
    exact built_object_complete h.1

theorem ItemsFit.values : (items : List (Value N)) → ItemsFit p r raw items →
    builtItemValues p r raw items = viewItems p r raw items
  | [], _ => rfl
  | v :: vs, h => by
    have hv := (Fits.complete v h.1).value
    have hvs := ItemsFit.values vs h.2
    rw [viewItems, ← hv, ← hvs]
    rfl

theorem MembersFit.values : (members : List (Bytes × Value N)) → MembersFit p r raw members →
    builtMemberValues p r raw members = viewMembers p r raw members
  | [], _ => rfl
  | (k, v) :: ms, h => by
    have hms := MembersFit.values ms h.2
    rw [viewMembers, viewMember, ← hms]
    show (k, (builtEntry p r raw (k, v)).value) :: _ = _
    rw [builtEntry]
    by_cases hk : hides p r raw k = true
    · rw [if_pos hk, if_pos hk]
      rfl
    · rw [if_neg hk, if_neg hk, (Fits.complete v (h.1.resolve_left hk)).value]
      rfl

end

/-! ## Values that do not fit -/

variable {v : Value N}

theorem serializedLen_le_arraySize (h : v ∈ items) : p.serializedLen v ≤ arraySize p items := by
  have hsum : p.serializedLen v ≤ (items.map p.serializedLen).sum :=
    le_sum_of_mem (mem_map_of_mem h)
  exact hsum.trans (Nat.le_add_left _ _)

theorem serializedLen_le_objectSize {m : Bytes × Value N}
    (h : m ∈ members) : p.serializedLen m.2 ≤ objectSize p members := by
  have hsum : p.serializedLen (.string m.1) + 1 + p.serializedLen m.2 ≤
      (members.map fun m => p.serializedLen (.string m.1) + 1 + p.serializedLen m.2).sum :=
    le_sum_of_mem (mem_map_of_mem (f := fun m : Bytes × Value N => _) h)
  rw [objectSize]
  omega

theorem map_fst_builtMemberValues (members : List (Bytes × Value N)) :
    (builtMemberValues p r raw members).map (·.1) = members.map (·.1) := by
  simp [builtMemberValues, Function.comp_def]

theorem map_fst_viewMembers (members : List (Bytes × Value N)) :
    (viewMembers p r raw members).map (·.1) = members.map (·.1) := by
  induction members with
  | nil => rfl
  | cons m members ih =>
    rw [viewMembers, viewMember, map_cons, map_cons, ih]

theorem view_object (h : (members.map (·.1)).Nodup) :
    view p r raw (.object members) = .object (viewMembers p r raw members) := by
  rw [view, Json.collect_of_nodup]
  rwa [map_fst_viewMembers]

theorem array_of_value (h : (built p r raw (.array items)).value = view p r raw (.array items)) :
    arraySize p (builtItemValues p r raw items) ≤ maxExtractedValueBytes ∧
      builtItemValues p r raw items = viewItems p r raw items := by
  by_cases hsize : arraySize p (builtItemValues p r raw items) ≤ maxExtractedValueBytes
  · rw [(built_array_complete hsize).value] at h
    exact ⟨hsize, Value.array.inj h⟩
  · rw [(built_array_truncated (not_le.mp hsize)).1] at h
    cases h

theorem object_of_value (hnames : (members.map (·.1)).Nodup)
    (h : (built p r raw (.object members)).value = view p r raw (.object members)) :
    objectSize p (builtMemberValues p r raw members) ≤ maxExtractedValueBytes ∧
      builtMemberValues p r raw members = viewMembers p r raw members := by
  by_cases hsize : objectSize p (builtMemberValues p r raw members) ≤ maxExtractedValueBytes
  · rw [(built_object_complete hsize).value, view_object hnames, Json.collect_of_nodup
      (by rw [map_fst_builtMemberValues]; exact hnames)] at h
    exact ⟨hsize, Value.object.inj h⟩
  · rw [(built_object_truncated (not_le.mp hsize)).1] at h
    cases h

theorem byteLen_intercalate (texts : List Text) :
    byteLen ([','].intercalate texts) = (texts.map byteLen).sum + (texts.length - 1) := by
  induction texts with
  | nil => rfl
  | cons t texts ih =>
    cases texts with
    | nil => simp [List.intercalate, List.intersperse]
    | cons u texts =>
      have hcomma : byteLen [','] = 1 := by decide
      have hcons : [','].intercalate (t :: u :: texts) =
          t ++ ([','] ++ [','].intercalate (u :: texts)) := by
        simp [List.intercalate, List.intersperse]
      rw [hcons, byteLen_append, byteLen_append, ih]
      simp only [map_cons, sum_cons, length_cons]
      omega

theorem Platform.Compact.serializedLen_array (hp : p.Compact) (items : List (Value N)) :
    p.serializedLen (.array items) = arraySize p items := by
  have hopen : byteLen ['['] = 1 := by decide
  have hclose : byteLen [']'] = 1 := by decide
  rw [Platform.serializedLen, hp.array, byteLen_cons, byteLen_append, byteLen_intercalate, arraySize,
    map_map, length_map]
  show _ + ((items.map p.serializedLen).sum + _ + _) = _
  omega

theorem Platform.Compact.serializedLen_object (hp : p.Compact) (members : List (Bytes × Value N)) :
    p.serializedLen (.object members) = objectSize p members := by
  have hopen : byteLen ['\x7b'] = 1 := by decide
  have hclose : byteLen ['\x7d'] = 1 := by decide
  have hcolon : byteLen [':'] = 1 := by decide
  have hmember : (byteLen ∘ fun m : Bytes × Value N =>
      p.toString (.string m.1) ++ ':' :: p.toString m.2) =
      fun m => p.serializedLen (.string m.1) + 1 + p.serializedLen m.2 := by
    funext m
    rw [Function.comp_apply, byteLen_append, byteLen_cons, ← add_assoc]
    rfl
  rw [Platform.serializedLen, hp.object, byteLen_cons, byteLen_append, byteLen_intercalate, objectSize,
    map_map, length_map, hmember]
  omega

mutual

theorem Fits.of_size (hp : p.Compact) : (v : Value N) → UniqueNames v →
    p.serializedLen (view p r raw v) ≤ maxExtractedValueBytes → Fits p r raw v
  | .null, _, _ | .bool _, _, _ | .number _, _, _ => trivial
  | .string s, _, h => by
    have hstring := hp.string (encode (shownText p r raw (chars s)))
    rw [Utf8.chars_encode] at hstring
    rw [view, jsonText] at h
    rw [Fits]
    omega
  | .array items, hunique, h => by
    rw [view, hp.serializedLen_array] at h
    exact ⟨h, ItemsFit.of_size hp items hunique fun v hv =>
      (serializedLen_le_arraySize hv).trans h⟩
  | .object members, hunique, h => by
    rw [view_object hunique.1, hp.serializedLen_object] at h
    exact ⟨h, MembersFit.of_size hp members hunique.2 fun m hm =>
      (serializedLen_le_objectSize hm).trans h⟩

theorem ItemsFit.of_size (hp : p.Compact) : (items : List (Value N)) → UniqueNamesItems items →
    (∀ v ∈ viewItems p r raw items, p.serializedLen v ≤ maxExtractedValueBytes) →
    ItemsFit p r raw items
  | [], _, _ => trivial
  | v :: vs, hunique, h => by
    rw [viewItems] at h
    exact ⟨Fits.of_size hp v hunique.1 (h _ mem_cons_self),
      ItemsFit.of_size hp vs hunique.2 fun w hw => h w (mem_cons_of_mem _ hw)⟩

theorem MembersFit.of_size (hp : p.Compact) : (members : List (Bytes × Value N)) →
    UniqueNamesMembers members →
    (∀ m ∈ viewMembers p r raw members, p.serializedLen m.2 ≤ maxExtractedValueBytes) →
    MembersFit p r raw members
  | [], _, _ => trivial
  | (k, v) :: ms, hunique, h => by
    rw [viewMembers, viewMember] at h
    obtain ⟨hm, hms⟩ := forall_mem_cons.mp h
    refine ⟨?_, MembersFit.of_size hp ms hunique.2 hms⟩
    by_cases hk : hides p r raw k = true
    · exact .inl hk
    · rw [if_neg hk] at hm
      exact .inr (Fits.of_size hp v hunique.1 hm)

end

theorem ContentsFit.value (h : ContentsFit p r raw v)
    (hcomplete : (built p r raw v).truncated = false) :
    (built p r raw v).value = view p r raw v := by
  cases v with
  | null | bool b | number n => rfl
  | string s =>
    by_cases hsize : byteLen (shownText p r raw (chars s)) ≤ maxExtractedValueBytes
    · exact (builtString_complete hsize).value
    · rw [built, builtString, if_neg hsize] at hcomplete
      cases hcomplete
  | array items =>
    by_cases hsize : arraySize p (builtItemValues p r raw items) ≤ maxExtractedValueBytes
    · rw [(built_array_complete hsize).value, view, ItemsFit.values items h]
    · rw [(built_array_truncated (not_le.mp hsize)).2] at hcomplete
      cases hcomplete
  | object members =>
    by_cases hsize : objectSize p (builtMemberValues p r raw members) ≤ maxExtractedValueBytes
    · rw [(built_object_complete hsize).value, view, MembersFit.values members h]
    · rw [(built_object_truncated (not_le.mp hsize)).2] at hcomplete
      cases hcomplete

theorem ContentsFit.of_value (hp : p.Compact) (hunique : UniqueNames v)
    (hvalue : (built p r raw v).value = view p r raw v) : ContentsFit p r raw v := by
  cases v with
  | null | bool b | number n | string s => trivial
  | array items =>
    obtain ⟨hsize, hitems⟩ := array_of_value hvalue
    rw [hitems] at hsize
    exact ItemsFit.of_size hp items hunique fun v hv => (serializedLen_le_arraySize hv).trans hsize
  | object members =>
    obtain ⟨hsize, hmembers⟩ := object_of_value hunique.1 hvalue
    rw [hmembers] at hsize
    exact MembersFit.of_size hp members hunique.2 fun m hm =>
      (serializedLen_le_objectSize hm).trans hsize

end AiProxy.Mcp
