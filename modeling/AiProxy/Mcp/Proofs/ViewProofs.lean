import AiProxy.Mcp.Proofs.PlaceProofs

/-!
# What is shown of a document

In a document without repeated names the view of the visitor is the redacted value (or the value
itself), and the pushes for a path are the matches of the path in the view.
-/

namespace AiProxy.Mcp

open Option List
open Json (Bytes Value toValue itemsToValue membersToValue memberToValue)
open Utf8 (chars encode)
open JsonPathSegment (selectsKey selectsIndex)

variable {N : Type} {p : Platform N} {r : Redactor} {raw : Bool}

/-! ## The view is the redacted value -/

theorem map_fst_membersToValue (members : List (Bytes × Value N)) :
    (membersToValue members).map (·.1) = members.map (·.1) := by
  induction members with
  | nil => rfl
  | cons m members ih =>
    rw [membersToValue, memberToValue, map_cons, map_cons, ih]

theorem toValue_of_unique (v : Value N) (h : UniqueNames v) : toValue v = v := by
  induction v using Value.ind (I := fun items => UniqueNamesItems items → itemsToValue items = items)
    (M := fun members => UniqueNamesMembers members → membersToValue members = members) with
  | null | bool b | number n | string s | nil | noMembers => rfl
  | array items ih => rw [toValue, ih h]
  | object members ih =>
    rw [toValue, Json.collect_of_nodup (by rw [map_fst_membersToValue]; exact h.1), ih h.2]
  | cons v vs ihv ih h => rw [itemsToValue, ihv h.1, ih h.2]
  | member k v ms ihv ih h => rw [membersToValue, memberToValue, ihv h.1, ih h.2]

theorem view_raw (v : Value N) (h : Textual v) : view p r true v = toValue v := by
  induction v using Value.ind
    (I := fun items => TextualItems items → viewItems p r true items = itemsToValue items)
    (M := fun members => TextualMembers members →
      viewMembers p r true members = membersToValue members) with
  | null | bool b | number n | nil | noMembers => rfl
  | string s => exact congrArg Value.string h
  | array items ih | object members ih => rw [view, toValue, ih h]
  | cons v vs ihv ih h => rw [viewItems, itemsToValue, ihv h.1, ih h.2]
  | member k v ms ihv ih h =>
    rw [viewMembers, viewMember, membersToValue, memberToValue, hides, if_neg (by simp), ihv h.1.2,
      ih h.2]

theorem view_redacted (v : Value N) (h : UniqueNames v) (path : Text) :
    view p r false v = (redactJsonValueInner p r v path).1 := by
  induction v using Value.ind
    (I := fun items => UniqueNamesItems items → ∀ index path,
      viewItems p r false items = (redactItems p r items index path).1)
    (M := fun members => UniqueNamesMembers members → ∀ path,
      viewMembers p r false members = (redactObject p r members path).1) generalizing path with
  | null | bool b | number n | nil | noMembers => rfl
  | string s =>
    exact congrArg (fun t => Value.string (encode t)) (redactStringInner_fst (chars s) [] path)
  | array items ih => rw [view, redactJsonValueInner, ih h 0 path]
  | object members ih => rw [view_object h.1, redactJsonValueInner, ih h.2 path]
  | cons v vs ihv ih h index path => rw [viewItems, redactItems, ihv h.1, ih h.2]
  | member k v ms ihv ih h path =>
    rw [viewMembers, redactObject, viewMember, redactMember, hides, ih h.2]
    by_cases hname : isSensitiveName p r (chars k) = true
    · have hsome := isSome_redactJsonField (p := p) (r := r) k v (path ++ '.' :: chars k)
      rw [if_pos (by simpa using hname), ← redactJsonField_hidden hname v v (path ++ '.' :: chars k)]
      rw [hname] at hsome
      obtain ⟨x, hx⟩ := isSome_iff_exists.mp hsome
      rw [hx]
      rfl
    · have hnone := isSome_redactJsonField (p := p) (r := r) k v (path ++ '.' :: chars k)
      rw [if_neg (by simpa using hname), ihv h.1 (path ++ '.' :: chars k)]
      rw [Bool.not_eq_true] at hname
      rw [hname, isSome_eq_false_iff, isNone_iff_eq_none] at hnone
      rw [hnone]
      rfl

theorem view_eq_materialized {v : Value N} (hunique : UniqueNames v) (htext : Textual v) :
    view p r raw v = materialized p r raw v := by
  rw [materialized]
  cases raw with
  | true => exact view_raw v htext
  | false =>
    rw [toValue_of_unique v hunique]
    exact view_redacted v hunique _

theorem hiddenValue_string {key : Bytes} (h : hides p r raw key = true) (v : Value N) :
    ∃ t, hiddenValue p r key v = jsonText t := by
  rw [hides, Bool.and_eq_true] at h
  have hsome := isSome_redactJsonField (p := p) (r := r) key v []
  rw [h.2, redactJsonField, isSome_map] at hsome
  obtain ⟨c, hc⟩ := isSome_iff_exists.mp hsome
  rw [hiddenValue, redactJsonField, hc]
  exact ⟨_, rfl⟩

theorem isText_encode (t : Text) : IsText (encode t) := by
  rw [IsText, Utf8.chars_encode]

theorem view_regular (v : Value N) (hunique : UniqueNames v) (h : Textual v) :
    UniqueNames (view p r raw v) ∧ Textual (view p r raw v) := by
  induction v using Value.ind
    (I := fun items => UniqueNamesItems items → TextualItems items →
      UniqueNamesItems (viewItems p r raw items) ∧ TextualItems (viewItems p r raw items))
    (M := fun members => UniqueNamesMembers members → TextualMembers members →
      UniqueNamesMembers (viewMembers p r raw members) ∧
        TextualMembers (viewMembers p r raw members)) with
  | null | bool b | number n | nil | noMembers => exact ⟨trivial, trivial⟩
  | string s => exact ⟨trivial, isText_encode _⟩
  | array items ih => exact ih hunique h
  | object members ih =>
    have hmembers := ih hunique.2 h
    rw [view_object hunique.1]
    exact ⟨⟨by rw [map_fst_viewMembers]; exact hunique.1, hmembers.1⟩, hmembers.2⟩
  | cons v vs ihv ih hunique h =>
    have hv := ihv hunique.1 h.1
    have hvs := ih hunique.2 h.2
    exact ⟨⟨hv.1, hvs.1⟩, hv.2, hvs.2⟩
  | member k v ms ihv ih hunique h =>
    have hms := ih hunique.2 h.2
    rw [viewMembers, viewMember]
    by_cases hk : hides p r raw k = true
    · obtain ⟨t, ht⟩ := hiddenValue_string hk v
      rw [if_pos hk, ht]
      exact ⟨⟨trivial, hms.1⟩, ⟨h.1.1, isText_encode _⟩, hms.2⟩
    · rw [if_neg hk]
      have hv := ihv hunique.1 h.1.2
      exact ⟨⟨hv.1, hms.1⟩, ⟨h.1.1, hv.2⟩, hms.2⟩

theorem memberOccurrences_end (members : List (Bytes × Value N)) (place : Text) :
    memberOccurrences p r raw members (some []) place = [] := by
  induction members with
  | nil => rfl
  | cons m members ih =>
    obtain ⟨k, v⟩ := m
    rw [memberOccurrences, ih, append_nil, memberOccurrence]
    split
    · rfl
    · exact occurrences_none v _

theorem itemOccurrences_end (items : List (Value N)) (index : Nat) (place : Text) :
    itemOccurrences p r raw items index (some []) place = [] := by
  induction items generalizing index with
  | nil => rfl
  | cons v items ih =>
    rw [itemOccurrences, ih, append_nil]
    exact occurrences_none v _

def completeMatch (x : Text × Value N) : CapturedMatch N :=
  ⟨x.1, x.2, none, jsonTypeName x.2, false⟩

theorem CapturedValue.Complete.capturedMatch {c : CapturedValue N} {v : Value N}
    (h : c.Complete v) (place : Text) : capturedMatch place c = completeMatch (place, v) := by
  rw [Mcp.capturedMatch, completeMatch, h.value, h.truncated, h.valueSummary, h.valueType]

theorem occurrences_view (v : Value N) (hunique : UniqueNames v) (h : Fits p r raw v)
    (path : List JsonPathSegment) (place : Text) : occurrences p r raw v (some path) place =
      (placedMatches path (view p r raw v) place).map completeMatch := by
  induction v using Value.ind
    (I := fun items => UniqueNamesItems items → ItemsFit p r raw items → ∀ index segment path place,
      itemOccurrences p r raw items index (some (segment :: path)) place =
        (((viewItems p r raw items).zipIdx index).flatMap fun x =>
          if segment.selectsIndex x.2 then placedMatches path x.1 (indexPath place x.2)
          else []).map completeMatch)
    (M := fun members => UniqueNamesMembers members → MembersFit p r raw members →
      ∀ segment path place, memberOccurrences p r raw members (some (segment :: path)) place =
        ((viewMembers p r raw members).flatMap fun m =>
          if segment.selectsKey m.1 then placedMatches path m.2 (appendKeyPath place m.1)
          else []).map completeMatch) generalizing path place with
  | null | bool b | number n | string s =>
    cases path with
    | nil => exact congrArg (fun m => [m]) ((Fits.complete _ h).capturedMatch place)
    | cons segment path => rfl
  | nil | noMembers => rfl
  | array items ih =>
    cases path with
    | nil =>
      rw [occurrences, itemOccurrences_end]
      exact congrArg (fun m => [m]) ((Fits.complete _ h).capturedMatch place)
    | cons segment path =>
      rw [occurrences, ih hunique h.2 0 segment path place, view, placedMatches]
      exact append_nil _
  | object members ih =>
    cases path with
    | nil =>
      rw [occurrences, memberOccurrences_end]
      exact congrArg (fun m => [m]) ((Fits.complete _ h).capturedMatch place)
    | cons segment path =>
      rw [occurrences, ih hunique.2 h.2 segment path place, view_object hunique.1, placedMatches]
      exact append_nil _
  | cons v vs ihv ih hunique h index segment path place =>
    rw [itemOccurrences, ih hunique.2 h.2, viewItems, zipIdx_cons, flatMap_cons,
      map_append, remainderIndex]
    congr 1
    split_ifs
    · rw [ihv hunique.1 h.1]
    · rw [occurrences_none]
      rfl
  | member k v ms ihv ih hunique h segment path place =>
    rw [memberOccurrences, ih hunique.2 h.2, viewMembers, flatMap_cons, map_append,
      memberOccurrence, viewMember, remainderKey]
    congr 1
    by_cases hselects : segment.selectsKey k = true
    · rw [if_pos hselects, if_pos hselects]
      by_cases hk : hides p r raw k = true
      · rw [if_pos hk, if_pos hk]
        cases path with
        | nil =>
          exact congrArg (fun m => [m])
            ((builtSensitive_complete k v).capturedMatch (appendKeyPath place k))
        | cons segment path =>
          obtain ⟨s, hs⟩ := hiddenValue_string hk v
          rw [hs]
          rfl
      · rw [if_neg hk, if_neg hk]
        exact ihv hunique.1 (h.1.resolve_left hk) path _
    · rw [if_neg hselects, if_neg hselects, occurrences_none]
      split <;> rfl

def rawMatch (p : Platform N) (r : Redactor) (x : Text × Value N) : CapturedMatch N :=
  capturedMatch x.1 (built p r true x.2)

theorem occurrences_raw (v : Value N) (path : List JsonPathSegment) (place : Text) :
    occurrences p r true v (some path) place = (placedMatches path v place).map (rawMatch p r) := by
  induction v using Value.ind
    (I := fun items => ∀ index segment path place,
      itemOccurrences p r true items index (some (segment :: path)) place =
        ((items.zipIdx index).flatMap fun x =>
          if segment.selectsIndex x.2 then placedMatches path x.1 (indexPath place x.2)
          else []).map (rawMatch p r))
    (M := fun members => ∀ segment path place,
      memberOccurrences p r true members (some (segment :: path)) place =
        (members.flatMap fun m =>
          if segment.selectsKey m.1 then placedMatches path m.2 (appendKeyPath place m.1)
          else []).map (rawMatch p r)) generalizing path place with
  | null | bool b | number n | string s => cases path <;> rfl
  | nil | noMembers => rfl
  | array items ih =>
    cases path with
    | nil =>
      rw [occurrences, itemOccurrences_end]
      rfl
    | cons segment path =>
      rw [occurrences, ih 0 segment path place, placedMatches]
      exact append_nil _
  | object members ih =>
    cases path with
    | nil =>
      rw [occurrences, memberOccurrences_end]
      rfl
    | cons segment path =>
      rw [occurrences, ih segment path place, placedMatches]
      exact append_nil _
  | cons v vs ihv ih index segment path place =>
    rw [itemOccurrences, ih, zipIdx_cons, flatMap_cons, map_append, remainderIndex]
    congr 1
    split_ifs
    · rw [ihv]
    · rw [occurrences_none]
      rfl
  | member k v ms ihv ih segment path place =>
    rw [memberOccurrences, ih, flatMap_cons, map_append, memberOccurrence, hides,
      if_neg (by simp), remainderKey]
    congr 1
    split_ifs
    · exact ihv path _
    · rw [occurrences_none]
      rfl

variable {α : Type}

theorem flatMap_key (key : Bytes) (f : Bytes × Value N → List α) :
    ∀ {members : List (Bytes × Value N)}, (members.map (·.1)).Nodup →
      (members.flatMap fun m => if selectsKey (.key key) m.1 then f m else []) =
        ((members.find? fun m => m.1 = key).map f).getD [] := by
  intro members
  induction members with
  | nil => exact fun _ => rfl
  | cons m members ih =>
    intro h
    rw [map_cons, nodup_cons] at h
    rw [flatMap_cons, ih h.2, selectsKey]
    by_cases hm : m.1 = key
    · have hnone : members.find? (fun n => decide (n.1 = key)) = none := by
        rw [find?_eq_none]
        intro n hn hkey
        have hname : n.1 = m.1 := (of_decide_eq_true hkey).trans hm.symm
        exact h.1 (mem_map.mpr ⟨n, hn, hname⟩)
      simp [hm, hnone]
    · have hne : ¬ key = m.1 := fun hk => hm hk.symm
      simp [hm, hne]

theorem flatMap_index (index : Nat) (f : Value N → Nat → List α) (items : List (Value N)) :
    ∀ start, ((items.zipIdx start).flatMap fun x =>
      if selectsIndex (.index index) x.2 then f x.1 x.2 else []) =
        if start ≤ index then ((items[index - start]?).map fun v => f v index).getD [] else [] := by
  induction items with
  | nil => simp
  | cons v items ih =>
    intro start
    rw [zipIdx_cons, flatMap_cons, ih, selectsIndex]
    rcases Nat.lt_trichotomy index start with hlt | heq | hgt
    · have h1 : ¬ index = start := by omega
      have h2 : ¬ start + 1 ≤ index := by omega
      have h3 : ¬ start ≤ index := by omega
      simp [h1, h2, h3]
    · have h2 : ¬ start + 1 ≤ index := by omega
      subst heq
      simp
    · have h1 : ¬ index = start := by omega
      have h2 : start + 1 ≤ index := by omega
      have h3 : start ≤ index := by omega
      obtain ⟨k, hk⟩ : ∃ k, index - start = k + 1 := ⟨index - start - 1, by omega⟩
      have hk' : index - (start + 1) = k := by omega
      simp [h1, h2, h3, hk, hk']

theorem flatMap_zipIdx (f : Value N → List α) (items : List (Value N)) :
    ∀ start, (items.zipIdx start).flatMap (fun x => f x.1) = items.flatMap f := by
  induction items with
  | nil => exact fun _ => rfl
  | cons v items ih =>
    intro start
    rw [zipIdx_cons, flatMap_cons, flatMap_cons, ih]

theorem extractMatches_eq : ∀ (path : List JsonPathSegment) {v : Value N} (place : Text),
    UniqueNames v → extractMatches path v = (placedMatches path v place).map (·.2) := by
  intro path
  induction path with
  | nil => exact fun _ _ => rfl
  | cons segment path ih =>
    intro v place hunique
    cases v with
    | null | bool b | number n | string s => cases segment <;> rfl
    | array items =>
      have hitems := mem_uniqueNamesItems hunique
      cases segment with
      | key key =>
        simp [extractMatches, placedMatches, selectsIndex]
      | index index =>
        rw [placedMatches, flatMap_index index fun v i => placedMatches path v (indexPath place i),
          extractMatches, Nat.sub_zero]
        cases hitem : items[index]? with
        | none => rfl
        | some item => exact ih _ (hitems item (mem_of_getElem? hitem))
      | wildcard =>
        have hplaced : (placedMatches (.wildcard :: path) (.array items) place).map (·.2) =
            items.zipIdx.flatMap fun x => extractMatches path x.1 := by
          rw [placedMatches, map_flatMap]
          refine flatMap_congr fun x hx => ?_
          have hx' := mem_of_getElem? (mem_zipIdx_iff_getElem?.mp hx)
          exact (ih _ (hitems x.1 hx')).symm
        rw [hplaced, flatMap_zipIdx, extractMatches]
    | object members =>
      have hmembers := mem_uniqueNamesMembers hunique.2
      cases segment with
      | index index =>
        simp [extractMatches, placedMatches, selectsKey]
      | key key =>
        rw [placedMatches, flatMap_key key (fun m => placedMatches path m.2 (appendKeyPath place m.1))
          hunique.1, extractMatches]
        cases hmember : members.find? fun m => m.1 = key with
        | none => rfl
        | some m => exact ih _ (hmembers m (mem_of_find?_eq_some hmember))
      | wildcard =>
        rw [placedMatches, map_flatMap]
        refine flatMap_congr fun m hm => ?_
        exact ih _ (hmembers m hm)

end AiProxy.Mcp
