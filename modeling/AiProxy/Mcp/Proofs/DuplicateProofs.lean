import AiProxy.Mcp.Proofs.TruncationProofs

/-!
# Repeated names on the way of a path

In a tree the last of the members with one name has replaced the others.
-/

namespace AiProxy.Mcp

open List
open Json (Bytes Value depth toValue collect insertMember memberToValue membersToValue itemsToValue)
open Utf8 (encode)
open Sample (platform redactor)

variable {N : Type} {p : Platform N} {r : Redactor}

theorem find?_insertMember (key k : Bytes) (v : Value N) (ms : List (Bytes × Value N)) :
    (insertMember k v ms).find? (fun m => m.1 = key) =
      if k = key then some (k, v) else ms.find? fun m => m.1 = key := by
  induction ms with
  | nil => by_cases hk : k = key <;> simp [insertMember, hk]
  | cons m ms ih =>
    by_cases hm : m.1 = k
    · by_cases hk : k = key <;> simp [insertMember, hm, hk]
    · rw [insertMember, if_neg hm, find?_cons, ih, find?_cons]
      by_cases hk : k = key
      · simp [← hk, hm]
      · simp [hk]

theorem membersToValue_eq_map (ms : List (Bytes × Value N)) :
    membersToValue ms = ms.map memberToValue := by
  induction ms with
  | nil => rfl
  | cons m ms ih => rw [membersToValue, ih, map_cons]

theorem itemsToValue_eq_map (items : List (Value N)) : itemsToValue items = items.map toValue := by
  induction items with
  | nil => rfl
  | cons v items ih => rw [itemsToValue, ih, map_cons]

theorem collect_concat (ms : List (Bytes × Value N)) (m : Bytes × Value N) :
    collect (membersToValue (ms ++ [m])) =
      insertMember m.1 (toValue m.2) (collect (membersToValue ms)) := by
  obtain ⟨k, v⟩ := m
  rw [membersToValue_eq_map, membersToValue_eq_map, map_append, collect, foldl_append]
  rfl

theorem keepLast_of_place {α : Type} {there : Text} {xs : List (Text × α)}
    (h : ∀ x ∈ xs, x.1 = there) : keepLast xs = xs.getLast?.toList := by
  induction xs using List.reverseRecOn with
  | nil => rfl
  | append_singleton xs x ih =>
    have hxs := ih fun y hy => h y (mem_append_left _ hy)
    rw [keepLast, foldl_append, ← keepLast, hxs, getLast?_concat]
    cases hlast : xs.getLast? with
    | none => rfl
    | some y =>
      have hy := h y (mem_append_left _ (mem_of_getLast? hlast))
      have hx := h x mem_concat_self
      simp [putLast, hx, hy]

theorem extractMatches_last : ∀ {path : List JsonPathSegment}, .wildcard ∉ path →
    ∀ (d : Value N) (place : Text), extractMatches path (toValue d) = [] ∨
      ∃ x, (placedMatches path d place).getLast? = some x ∧
        extractMatches path (toValue d) = [toValue x.2] := by
  intro path
  induction path with
  | nil => exact fun _ d place => .inr ⟨(place, d), rfl, rfl⟩
  | cons segment path ih =>
    intro hpath d place
    rw [mem_cons, not_or] at hpath
    have ih := ih hpath.2
    cases segment with
    | wildcard => exact absurd rfl hpath.1
    | key key =>
      cases d with
      | object members =>
        rw [toValue, extractMatches, placedMatches]
        -- Over the members from the back: the last one with the name decides.
        induction members using List.reverseRecOn with
        | nil => exact .inl rfl
        | append_singleton members m ihm =>
          rw [collect_concat, find?_insertMember, flatMap_append, flatMap_singleton,
            JsonPathSegment.selectsKey]
          by_cases hm : m.1 = key
          · rw [if_pos hm, if_pos (decide_eq_true hm.symm)]
            rcases ih m.2 (appendKeyPath place m.1) with hnone | ⟨x, hx, hlast⟩
            · exact .inl hnone
            · exact .inr ⟨x, by rw [getLast?_append, hx]; rfl, hlast⟩
          · rw [if_neg hm, if_neg (by simpa using Ne.symm hm), append_nil]
            exact ihm
      | array items | null | bool b | number n | string s => exact .inl rfl
    | index index =>
      cases d with
      | array items =>
        rw [toValue, extractMatches, placedMatches, itemsToValue_eq_map, getElem?_map,
          flatMap_index index fun v i => placedMatches path v (indexPath place i), Nat.sub_zero]
        cases items[index]? with
        | none => exact .inl rfl
        | some item => exact ih item (indexPath place index)
      | object members | null | bool b | number n | string s => exact .inl rfl

theorem current_iff {path : List JsonPathSegment} {d : Value N} (hpath : .wildcard ∉ path) :
    Current path d ↔ (reached path d = [] ∨ extractMatches path (toValue d) ≠ []) := by
  have hplace : ∀ x ∈ placedMatches path d "$",
      x.1 = "$" ++ path.flatMap renderSegment := by
    intro x hx
    obtain ⟨rest, hrest, -, htext⟩ := place_of_mem path hx
    rw [hrest, htext hpath]
  have hreached : reached path d =
      ((placedMatches path d "$").getLast?.map (·.2)).toList := by
    rw [reached, keepLast_of_place hplace, Option.toList_map]
  rw [Current]
  rcases extractMatches_last hpath d "$" with hnone | ⟨x, hx, hlast⟩
  · rw [hnone]
    simp
  · rw [hreached, hx, hlast]
    simp

/-- In raw mode a path without wildcards finds what it finds in the tree, unless it is reached only in
members that were replaced. -/
theorem wildcard_free_result_iff {t : Text} {d : Value N} (hdoc : p.fromSlice (encode t) = .ok d)
    (htext : Textual d) (hdepth : depth d < 128) {segments : List (List JsonPathSegment)}
    (hscan : Scannable segments (byteLen t)) (captureTruncated : Bool) {i : Nat}
    {path : List JsonPathSegment} (hi : segments[i]? = some path) (hpath : .wildcard ∉ path) :
    ∃ e result, extractJsonPaths p r true (encode t) captureTruncated (byteLen t) segments = .ok e ∧
      e.values[i]? = some result ∧
      (field "truncated" result = some (.bool false) →
        (∀ v ∈ reached path d, ContentsFit p r true v) →
        (field "found" result = some (.bool (!(extractMatches path (toValue d)).isEmpty)) ∧
          field "value" result = some (returnedValue path (extractMatches path (toValue d))) ↔
          reached path d = [] ∨ extractMatches path (toValue d) ≠ [])) := by
  obtain ⟨x, hx⟩ := captureDocument_ok (p := p) (r := r) hdepth segments
  have hok : extractJsonPaths p r true (encode t) captureTruncated (byteLen t) segments =
      .ok (extraction p segments x.2 (p.sha256Hex (encode t))) :=
    extractJsonPaths_of_scannable hdoc hscan hx
  have hresult : (buildResults p segments x.2)[i]? = some (buildResult p x.2 (path, i)) := by
    rw [buildResults, getElem?_map, getElem?_zipIdx, hi]
    simp
  refine ⟨_, _, hok, hresult, fun hflag hfit => ?_⟩
  obtain ⟨hbuilt, hfound, hvalue⟩ := untruncated_result hdoc hok hi hresult hflag
  refine ⟨fun hsame => or_iff_not_imp_left.mpr fun hreached hnone => ?_, fun h => ?_⟩
  · rw [hfound, hnone] at hsame
    exact hreached (by simpa using hsame.1)
  · have hcurrent := (current_iff hpath).mpr h
    rw [hfound, hvalue, hcurrent.values htext hbuilt hfit, ← hcurrent, isEmpty_map]
    exact ⟨rfl, rfl⟩

namespace Sample

def replacedText : Text := "\x7b\"a\":\x7b\"b\":1\x7d,\"a\":\x7b\x7d\x7d"

def replacedPath : List JsonPathSegment := [.key (encode "a"), .key (encode "b")]

def replacedResult : Option (Value Nat) :=
  (extractJsonPaths platform redactor true (encode replacedText) false (byteLen replacedText)
    [replacedPath]).toOption.bind (·.values[0]?)

end Sample

/-- The tree has nothing at the path; the stream finds the number of the replaced member. -/
theorem replaced_member_found :
    ((Sample.platform.fromSlice (encode Sample.replacedText)).toOption.map fun d =>
      (extractMatches Sample.replacedPath (toValue d)).length) = some 0 ∧
    (Sample.replacedResult.bind (field "truncated")).map Sample.platform.toString =
      some "false".toList ∧
    (Sample.replacedResult.bind (field "value")).map Sample.platform.toString =
      some "1".toList := by
  decide +kernel

namespace Sample

def repeatedText : Text := "\x7b\"a\":\x7b\"b\":1\x7d,\"a\":\x7b\"b\":2\x7d\x7d"

def plainKey (name : String) : Json.Key := ⟨[], encode name.toList, [], encode name.toList⟩

/-- An object with a one-digit number at `b`. -/
def digitTree (digit : UInt8) (n : Nat) : Json.Cst Nat :=
  .object [] (.last (plainKey "b") (.leaf [] [digit] [] (.number n))) []

def repeatedTree : Json.Cst Nat :=
  .object [] (.cons (plainKey "a") (digitTree 0x31 1) (.last (plainKey "a") (digitTree 0x32 2))) []

def repeatedDocument : Value Nat := repeatedTree.document

theorem plainKey_wf (name : String) (h : Json.Plain (encode name.toList)) : (plainKey name).WF :=
  ⟨forall_mem_nil _, forall_mem_nil _, h.closed, h.unescape⟩

theorem digitTree_wf {digit : UInt8} {n : Nat} (hstart : Json.isNumberStart digit = true)
    (hnum : numOf [digit] = some n) : (digitTree digit n).WF (Json.Token numOf) Json.AnyNames :=
  ⟨forall_mem_nil _, forall_mem_nil _, trivial, plainKey_wf _ (by unfold Json.Plain; decide +kernel),
    forall_mem_nil _, forall_mem_nil _, .number hstart (forall_mem_nil _) hnum⟩

theorem repeatedTree_wf : repeatedTree.WF (Json.Token numOf) Json.AnyNames :=
  have hkey := plainKey_wf "a" (by unfold Json.Plain; decide +kernel)
  ⟨forall_mem_nil _, forall_mem_nil _, trivial, hkey, digitTree_wf (by decide) (by decide), hkey,
    digitTree_wf (by decide) (by decide)⟩

theorem platform_repeatedText :
    platform.fromSlice (encode repeatedText) = .ok repeatedDocument := by
  have hrender : encode repeatedText = repeatedTree.render := by decide +kernel
  rw [hrender]
  exact platform_render repeatedTree_wf (by decide)

theorem textual_repeatedDocument : Textual repeatedDocument :=
  ⟨⟨isText_encode _, ⟨isText_encode _, trivial⟩, trivial⟩,
    ⟨isText_encode _, ⟨isText_encode _, trivial⟩, trivial⟩, trivial⟩

def isFalse : Value Nat → Bool
  | .bool b => !b
  | _ => false

theorem eq_of_isFalse {v : Value Nat} (h : isFalse v = true) : v = .bool false := by
  cases v with
  | bool b =>
    obtain rfl : b = false := by simpa [isFalse] using h
    rfl
  | null | number _ | string _ | array _ | object _ => cases h

end Sample

/-- Both members have the path, and the value is the one of the last member. -/
theorem wildcard_free_result_iff_repeated :
    ∃ e result, extractJsonPaths platform redactor true (encode Sample.repeatedText)
        false (byteLen Sample.repeatedText) [Sample.replacedPath] = .ok e ∧
      e.values[0]? = some result ∧ field "truncated" result = some (.bool false) ∧
      field "found" result = some (.bool true) ∧ field "value" result = some (.number 2) := by
  have hscan : Scannable [Sample.replacedPath] (byteLen Sample.repeatedText) :=
    ⟨by decide +kernel, fun _ => by decide +kernel⟩
  obtain ⟨e, result, hok, hresult, hiff⟩ := wildcard_free_result_iff (r := redactor) (i := 0)
    Sample.platform_repeatedText Sample.textual_repeatedDocument (by decide) hscan false rfl (by decide)
  have hrun : (((extractJsonPaths platform redactor true (encode Sample.repeatedText)
      false (byteLen Sample.repeatedText) [Sample.replacedPath]).toOption.bind
        (·.values[0]?)).bind (field "truncated")).any Sample.isFalse = true := by
    decide +kernel
  rw [hok] at hrun
  obtain ⟨v, hv, hfalse⟩ := (Option.any_eq_true _ _).mp hrun
  have hflag : field "truncated" result = some (.bool false) := by
    rw [← Sample.eq_of_isFalse hfalse, ← hv]
    exact (congrArg (Option.bind · (field "truncated")) hresult).symm
  have hfit : ∀ v ∈ reached Sample.replacedPath Sample.repeatedDocument,
      ContentsFit platform redactor true v := by
    have hreached : reached Sample.replacedPath Sample.repeatedDocument = [.number 2] := by rfl
    rw [hreached]
    exact forall_mem_singleton.mpr trivial
  have hmatches : extractMatches Sample.replacedPath (toValue Sample.repeatedDocument) =
      [.number 2] := by rfl
  rw [hmatches] at hiff
  obtain ⟨hfound, hvalue⟩ := (hiff hflag hfit).mpr (.inr (cons_ne_nil _ _))
  exact ⟨e, result, hok, hresult, hflag, hfound, hvalue⟩

end AiProxy.Mcp
