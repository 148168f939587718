import AiProxy.Mcp.Proofs.ExtractionProofs

/-!
# Values that are not reported as truncated

The flag of a path covers the matches that were left out and the matches that were cut.
-/

namespace AiProxy.Mcp

open List
open Json (Bytes Value depth toValue)
open Utf8 (chars encode)
open ExtractionState (new slot slot_pushes sized_new)

variable {N : Type} {p : Platform N} {r : Redactor}
variable {d v : Value N} {path : List JsonPathSegment}

/-! ## What a path has collected -/

theorem slot_raw {segments : List (List JsonPathSegment)} {x : CapturedValue N × ExtractionState N}
    {i : Nat}
    (h : captureDocument p r true d segments = .ok x)
    (hi : segments[i]? = some path) (hlimited : x.2.limited i = false) :
    x.2.slot i = (keepLast (placedMatches path d "$")).map (rawMatch p r) := by
  obtain ⟨pushed, hst, hpushed⟩ := captureValue_pushes h
  have hlt : i < segments.length := (List.getElem?_eq_some_iff.mp hi).1
  have hbare : x.2.slot i = x.2.bare.slot i := rfl
  have hlimited' : ((new segments.length).pushes p pushed).limited i = false := by
    rw [← hst]
    exact hlimited
  have hempty : (new segments.length : ExtractionState N).slot i = [] := by
    simp [slot, new, getD_eq_getElem?_getD, hlt]
  have hslot := (slot_pushes pushed (sized_new _) hlt hlimited').2
  have hplace : ∀ x, (rawMatch p r x).dedupPath = x.1 := fun _ => rfl
  rw [hbare, hst, hslot, hpushed, hi, occurrences_raw, hempty]
  exact (map_foldl_putLast hplace (placedMatches path d "$") []).symm

theorem mem_of_mem_foldl_putLast {α : Type} {place : α → Text} {x : α} :
    ∀ {xs kept : List α}, x ∈ xs.foldl (putLast place) kept → x ∈ kept ∨ x ∈ xs := by
  intro xs
  induction xs with
  | nil => exact fun h => .inl h
  | cons y xs ih =>
    intro kept h
    rcases ih h with hkept | hxs
    · rw [putLast] at hkept
      split at hkept
      · rcases mem_or_eq_of_mem_set hkept with hk | rfl
        · exact .inl hk
        · exact .inr mem_cons_self
      · rcases mem_append.mp hkept with hk | hy
        · exact .inl hk
        · rw [mem_singleton.mp hy]
          exact .inr mem_cons_self
    · exact .inr (mem_cons_of_mem _ hxs)

theorem mem_placedMatches_of_mem_reached
    (h : v ∈ reached path d) : ∃ place, (place, v) ∈ placedMatches path d "$" := by
  obtain ⟨⟨place, w⟩, hx, rfl⟩ := mem_map.mp h
  refine ⟨place, ?_⟩
  rcases mem_of_mem_foldl_putLast hx with hnil | hmem
  · cases hnil
  · exact hmem

theorem returnedValue_inj : ∀ {a b : List (Value N)},
    a.length = b.length → returnedValue path a = returnedValue path b → a = b
  | [], [], _, _ => rfl
  | [v], [w], _, h => by
    simp only [returnedValue] at h
    split at h
    · exact Value.array.inj h
    · rw [h]
  | _ :: _ :: _, _ :: _ :: _, _, h => Value.array.inj h

theorem sub_placedMatches {P : Value N → Prop}
    (hmembers : ∀ members, P (.object members) → ∀ m ∈ members, P m.2)
    (hitems : ∀ items, P (.array items) → ∀ v ∈ items, P v) :
    ∀ (path : List JsonPathSegment) {v : Value N} {place : Text} {x : Text × Value N},
      P v → x ∈ placedMatches path v place → P x.2 := by
  intro path
  induction path with
  | nil =>
    intro v place x hv hx
    rw [mem_singleton.mp hx]
    exact hv
  | cons segment path ih =>
    intro v place x hv hx
    obtain ⟨child, step, hchild, -, -, ⟨ms, rfl, m, hm, rfl⟩ | ⟨items, rfl, hitem⟩⟩ :=
      mem_placedMatches_cons hx
    · exact ih (hmembers ms hv m hm) hchild
    · exact ih (hitems items hv child hitem) hchild

theorem uniqueNames_of_mem_reached (hd : UniqueNames d)
    (h : v ∈ reached path d) : UniqueNames v := by
  obtain ⟨place, hmem⟩ := mem_placedMatches_of_mem_reached h
  exact sub_placedMatches (P := UniqueNames) (fun _ h => mem_uniqueNamesMembers h.2)
    (fun _ h => mem_uniqueNamesItems h) path hd hmem

theorem textual_of_mem_reached (hd : Textual d) (h : v ∈ reached path d) : Textual v := by
  obtain ⟨place, hmem⟩ := mem_placedMatches_of_mem_reached h
  exact sub_placedMatches (P := Textual) (fun _ h m hm => (mem_textualMembers h m hm).2)
    (fun _ h => mem_textualItems h) path hd hmem

theorem current_of_unique (hunique : UniqueNames d) (htext : Textual d) : Current path d := by
  have hvalues : (reached path d).map toValue = reached path d := by
    conv_rhs => rw [← map_id (reached path d)]
    refine map_congr_left fun v hv => ?_
    exact toValue_of_unique v (uniqueNames_of_mem_reached hunique hv)
  rw [Current, hvalues, reached, keepLast_of_nodup (nodup_places path _ hunique htext),
    toValue_of_unique d hunique, extractMatches_eq path "$" hunique]

variable {t : Text} {captureTruncated : Bool} {size : Nat} {segments : List (List JsonPathSegment)}
variable {e : JsonPathExtraction N} {i : Nat} {result : Value N}

theorem untruncated_result (hdoc : p.fromSlice (encode t) = .ok d)
    (hok : extractJsonPaths p r true (encode t) captureTruncated size segments = .ok e)
    (hi : segments[i]? = some path) (hresult : e.values[i]? = some result)
    (hflag : field "truncated" result = some (.bool false)) :
    (∀ v ∈ reached path d, (built p r true v).truncated = false) ∧
    field "found" result = some (.bool (!(reached path d).isEmpty)) ∧
    field "value" result =
      some (returnedValue path ((reached path d).map fun v => (built p r true v).value)) := by
  obtain ⟨x, hx, hvalues⟩ := extractJsonPaths_inv hdoc hok
  rw [hvalues] at hresult
  have hbuild := getElem?_buildResults hi hresult
  subst hbuild
  obtain ⟨hfound, -, hvalue, htruncated⟩ := buildResult_fields (p := p) x.2 path i
  obtain ⟨hlimited, hcomplete⟩ : x.2.limited i = false ∧ ∀ c ∈ x.2.slot i, c.truncated = false := by
    rw [htruncated, Option.some_inj] at hflag
    have hflags := Value.bool.inj hflag
    simp only [Bool.or_eq_false_iff] at hflags
    exact ⟨hflags.1.1, fun c hc => by simpa using any_eq_false.mp hflags.1.2 c hc⟩
  have hslot := slot_raw hx hi hlimited
  have hreturned : (x.2.slot i).map (·.value) =
      (reached path d).map fun v => (built p r true v).value := by
    rw [hslot, reached, map_map, map_map]
    rfl
  refine ⟨fun v hv => ?_, ?_, by rw [hvalue, hreturned]⟩
  · obtain ⟨y, hy, rfl⟩ := mem_map.mp hv
    refine hcomplete (rawMatch p r y) ?_
    rw [hslot]
    exact mem_map_of_mem hy
  · rw [hfound, hslot, reached, isEmpty_map, isEmpty_map]

theorem Current.values (hcurrent : Current path d) (htext : Textual d)
    (hbuilt : ∀ v ∈ reached path d, (built p r true v).truncated = false)
    (hfit : ∀ v ∈ reached path d, ContentsFit p r true v) :
    (reached path d).map (fun v => (built p r true v).value) = extractMatches path (toValue d) := by
  rw [← hcurrent]
  refine map_congr_left fun v hv => ?_
  rw [(hfit v hv).value (hbuilt v hv), view_raw v (textual_of_mem_reached htext hv)]

/-- A path that is not reported as truncated. In any document its value is the one the path denotes
if everything inside the values it reaches is small enough, and nothing is reached in a member that
was replaced; in a document without repeated names this is also necessary. -/
theorem untruncated_value_iff (hp : p.Compact) (hdoc : p.fromSlice (encode t) = .ok d)
    (htext : Textual d)
    (hok : extractJsonPaths p r true (encode t) captureTruncated size segments = .ok e)
    (hi : segments[i]? = some path) (hresult : e.values[i]? = some result)
    (hflag : field "truncated" result = some (.bool false)) :
    (Current path d → (∀ v ∈ reached path d, ContentsFit p r true v) →
      field "value" result = some (returnedValue path (extractMatches path (toValue d)))) ∧
    (UniqueNames d →
      (field "value" result = some (returnedValue path (extractMatches path (toValue d))) ↔
        ∀ v ∈ reached path d, ContentsFit p r true v)) := by
  obtain ⟨hbuilt, -, hvalue⟩ := untruncated_result hdoc hok hi hresult hflag
  rw [hvalue]
  refine ⟨fun hcurrent hfit => by rw [hcurrent.values htext hbuilt hfit],
    fun hunique => ⟨?_, fun hfit => ?_⟩⟩
  · intro heq v hv
    have hcurrent : Current path d := current_of_unique hunique htext
    rw [Option.some_inj, ← hcurrent] at heq
    have hlists := returnedValue_inj (by simp) heq
    have hv' := map_inj_left.mp hlists v hv
    rw [← view_raw v (textual_of_mem_reached htext hv)] at hv'
    exact ContentsFit.of_value hp (uniqueNames_of_mem_reached hunique hv) hv'
  · rw [(current_of_unique hunique htext).values htext hbuilt hfit]

/-! ## A large array in a small object -/

theorem extract_root {t : Text} (hdoc : p.fromSlice (encode t) = .ok d) (hdepth : depth d < 128)
    (hscan : byteLen t ≤ rootPathScanBytes) (hbuilt : (built p r true d).Complete v)
    (hbytes : matchBytes p ("$", v) ≤ maxExtractedResultBytes) :
    ∃ e result, extractJsonPaths p r true (encode t) false (byteLen t) [[]] = .ok e ∧
      e.values[0]? = some result ∧ field "truncated" result = some (.bool false) ∧
      field "value" result = some v := by
  obtain ⟨x, hx⟩ := captureDocument_ok (p := p) (r := r) hdepth [[]]
  have hscannable : Scannable [[]] (byteLen t) := by
    refine ⟨hscan.trans ?_, fun _ => hscan⟩
    rw [rootPathScanBytes, maxJsonPathScanBytes]
    omega
  have hoccurrences : occurrences p r true d (some []) "$" =
      [completeMatch ("$", v)] := by
    rw [occurrences_raw, placedMatches, map_singleton, rawMatch, hbuilt.capturedMatch]
  have hslot : x.2.slot 0 = [completeMatch ("$", v)] ∧ x.2.limited 0 = false := by
    rw [← hoccurrences]
    refine slots_within_limits hx (fun path hpath => ?_) (fun path hpath => ?_) ?_ rfl
    · rw [mem_singleton.mp hpath, hoccurrences]
      exact nodup_singleton _
    · rw [mem_singleton.mp hpath, hoccurrences, length_singleton]
      decide
    · rw [map_singleton, hoccurrences, map_singleton, sum_singleton]
      exact (matchStorageBytes_le _).trans hbytes
  obtain ⟨-, -, hvalue, htruncated⟩ := buildResult_fields (p := p) x.2 [] 0
  rw [hslot.1] at hvalue htruncated
  rw [hslot.2] at htruncated
  exact ⟨_, _, extractJsonPaths_of_scannable hdoc hscannable hx, rfl, htruncated, hvalue⟩

namespace Sample

def listName : Bytes := encode "a"

def nestedOpening : Text := "\x7b\"a\":[\""

def nestedClosing : Text := "\"]\x7d"

def nestedText (n : Nat) : Text := nestedOpening ++ (List.replicate n 'x' ++ nestedClosing)

def nestedDocument (n : Nat) : Value Nat :=
  .object [(listName, .array [.string (List.replicate n 0x78)])]

theorem encode_nestedOpening : encode nestedOpening =
    Json.openBrace :: (Json.quote :: (listName ++
      [Json.quote, Json.colon, Json.openBracket, Json.quote])) := by
  decide

theorem encode_nestedClosing : encode nestedClosing =
    [Json.quote, Json.closeBracket, Json.closeBrace] := by
  decide

theorem encode_xs (n : Nat) : encode (List.replicate n 'x') = List.replicate n 0x78 :=
  Utf8.encode_replicate (by decide) n

theorem encode_nestedText (n : Nat) : encode (nestedText n) = encode nestedOpening ++
      (List.replicate n 0x78 ++ encode nestedClosing) := by
  rw [nestedText, Utf8.encode_append, Utf8.encode_append, encode_xs]

theorem byteLen_nestedText (n : Nat) : byteLen (nestedText n) = n + 10 := by
  have hopening : (encode nestedOpening).length = 7 := by decide
  have hclosing : (encode nestedClosing).length = 3 := by decide
  rw [byteLen, encode_nestedText, length_append, length_append, length_replicate, hclosing]
  omega

def nestedTree (n : Nat) : Json.Cst Nat :=
  .object [] (.last ⟨[], listName, [], listName⟩
    (.array [] (.last (.leaf [] (Json.quote :: (List.replicate n 0x78 ++ [Json.quote])) []
      (.string (List.replicate n 0x78)))) [])) []

theorem nestedTree_wf (n : Nat) : (nestedTree n).WF (Json.Token numOf) Json.AnyNames := by
  have hplain : Json.Plain (List.replicate n 0x78) := Json.plain_replicate (by decide) n
  have hname : Json.Plain listName := by
    unfold Json.Plain
    decide +kernel
  have hws : Json.AllWs [] := forall_mem_nil _
  exact ⟨hws, hws, trivial, ⟨hws, hws, hname.closed, hname.unescape⟩, hws, hws, hws, hws,
    .string hplain.closed hplain.unescape⟩

theorem render_nestedTree (n : Nat) : (nestedTree n).render = encode (nestedText n) := by
  rw [encode_nestedText, encode_nestedOpening, encode_nestedClosing]
  simp [nestedTree, Json.Cst.render, Json.Members.render, Json.Items.render, Json.Key.render]

theorem depth_nestedDocument (n : Nat) : depth (nestedDocument n) < 128 := by
  simp [nestedDocument, depth, Json.membersDepth, Json.memberDepth, Json.itemsDepth]

theorem platform_nestedText (n : Nat) :
    platform.fromSlice (encode (nestedText n)) = .ok (nestedDocument n) := by
  rw [← render_nestedTree]
  exact platform_render (nestedTree_wf n) (depth_nestedDocument n)

theorem built_nestedDocument {n : Nat} (hn : n = maxExtractedValueBytes) :
    (built platform redactor true (nestedDocument n)).Complete (.object [(listName, .null)]) := by
  have hchars : chars (List.replicate n 0x78) = List.replicate n 'x' := by
    rw [← encode_xs, Utf8.chars_encode]
  have hlen : byteLen (List.replicate n 'x') = n := by
    rw [byteLen, encode_xs, length_replicate]
  have hstring := platform_compact.string (encode (List.replicate n 'x'))
  rw [Utf8.chars_encode] at hstring
  have hvalue : (built platform redactor true (.string (List.replicate n 0x78))).value =
      .string (encode (List.replicate n 'x')) := by
    rw [built, shownText, if_pos rfl, hchars]
    exact (builtString_complete (by rw [hlen, hn])).value
  have harray : maxExtractedValueBytes < arraySize platform
      (builtItemValues platform redactor true [.string (List.replicate n 0x78)]) := by
    rw [builtItemValues, map_singleton, hvalue, arraySize, map_singleton, sum_singleton]
    omega
  have hmembers : builtMemberValues platform redactor true
      [(listName, .array [.string (List.replicate n 0x78)])] = [(listName, .null)] := by
    rw [builtMemberValues, map_singleton, builtEntry, hides, if_neg (by simp),
      (built_array_truncated harray).1]
  have hobject : (built platform redactor true (nestedDocument n)).Complete
      (.object (Json.collect (builtMemberValues platform redactor true
        [(listName, .array [.string (List.replicate n 0x78)])]))) :=
    built_object_complete (by rw [hmembers]; decide)
  rw [hmembers] at hobject
  exact hobject

theorem fits_secretDocument : Fits platform redactor true (secretDocument 1) := by
  refine ⟨by decide, .inr ?_, trivial⟩
  rw [Fits]
  decide

theorem contentsFit_root :
    ∀ v ∈ reached [] (secretDocument 1), ContentsFit platform redactor true v := by
  have hroot : reached [] (secretDocument 1) = [secretDocument 1] := rfl
  intro v hv
  rw [hroot, mem_singleton] at hv
  rw [hv]
  exact fits_secretDocument.2

end Sample

/-- The array in the document is too large: its place holds `null`, and nothing is reported. -/
theorem nested_array_replaced :
    Sample.platform.fromSlice (encode (Sample.nestedText maxExtractedValueBytes)) =
      .ok (Sample.nestedDocument maxExtractedValueBytes) ∧
    extractMatches [] (toValue (Sample.nestedDocument maxExtractedValueBytes)) =
      [.object [(Sample.listName, .array [.string (List.replicate maxExtractedValueBytes 0x78)])]] ∧
    ∃ e result, extractJsonPaths Sample.platform Sample.redactor true
        (encode (Sample.nestedText maxExtractedValueBytes)) false
        (byteLen (Sample.nestedText maxExtractedValueBytes)) [[]] = .ok e ∧
      e.values[0]? = some result ∧ field "truncated" result = some (.bool false) ∧
      field "value" result = some (.object [(Sample.listName, .null)]) := by
  refine ⟨Sample.platform_nestedText _, ?_, extract_root (Sample.platform_nestedText _)
    (Sample.depth_nestedDocument _) ?_ (Sample.built_nestedDocument rfl) (by decide)⟩
  · rw [extractMatches, toValue_of_unique (Sample.nestedDocument _)
      ⟨nodup_singleton _, ⟨trivial, trivial⟩, trivial⟩, Sample.nestedDocument]
  · rw [Sample.byteLen_nestedText]
    decide

theorem untruncated_value_iff_password :
    ∃ e result, extractJsonPaths Sample.platform Sample.redactor true (encode (Sample.text 1)) false
        (byteLen (Sample.text 1)) [[]] = .ok e ∧
      e.values[0]? = some result ∧ field "truncated" result = some (.bool false) ∧
      field "value" result =
        some (returnedValue [] (extractMatches [] (toValue (Sample.secretDocument 1)))) := by
  have hbuilt := Fits.complete (Sample.secretDocument 1) Sample.fits_secretDocument
  obtain ⟨e, result, hok, hresult, hflag, -⟩ := extract_root (Sample.platform_text 1)
    (Sample.depth_secretDocument 1) (by decide) hbuilt (by decide)
  have hiff := (untruncated_value_iff Sample.platform_compact (Sample.platform_text 1)
    Sample.textual_secretDocument hok rfl hresult hflag).2 (Sample.uniqueNames_secretDocument 1)
  exact ⟨e, result, hok, hresult, hflag, hiff.mpr Sample.contentsFit_root⟩

end AiProxy.Mcp
