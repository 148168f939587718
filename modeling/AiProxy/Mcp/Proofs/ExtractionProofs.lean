import AiProxy.Mcp.Proofs.NoninterferenceProofs
import AiProxy.Mcp.Proofs.ViewProofs
import Mathlib.Algebra.BigOperators.Group.Finset.Piecewise

/-!
# Extraction from a stream and from a parsed document

As long as no limit is reached, the visitor collects for every path the matches that the path has in the
parsed and redacted document.
-/

namespace AiProxy.Mcp

open List
open Json (Bytes Value depth toValue)
open Utf8 (chars encode)
open Sample (platform redactor)

variable {N : Type} {p : Platform N} {r : Redactor} {raw : Bool}
variable {st : ExtractionState N} {i : Nat} {α : Type} {place : α → Text}
  {segments : List (List JsonPathSegment)} {x : CapturedValue N × ExtractionState N}

/-! ## Pushes and slots -/

variable {n : Nat}

namespace ExtractionState

def slot (st : ExtractionState N) (i : Nat) : List (CapturedMatch N) := st.slots.getD i []

def limited (st : ExtractionState N) (i : Nat) : Bool := st.pathLimited.getD i false

structure Sized (st : ExtractionState N) (n : Nat) : Prop where
  slots : st.slots.length = n
  limited : st.pathLimited.length = n

theorem sized_new (n : Nat) : (ExtractionState.new n : ExtractionState N).Sized n :=
  ⟨length_replicate, length_replicate⟩

theorem push_cases (st : ExtractionState N) (c : CapturedMatch N) (i : Nat) :
    (∃ bytes, st.push p c i =
      { st with
        resultBytes := bytes
        slots := st.slots.set i (putLast (·.dedupPath) (st.slot i) c) }) ∨
    (st.push p c i).pathLimited = st.pathLimited.set i true ∧
      ∃ kept, (st.push p c i).slots = st.slots.set i kept ∨ (st.push p c i).slots = st.slots := by
  unfold push
  dsimp only
  cases hfind : (st.slots.getD i []).find? fun existing => existing.dedupPath = c.dedupPath with
  | none =>
    have hany : ((st.slot i).any fun k => k.dedupPath = c.dedupPath) = false := by
      rw [any_eq_false]
      exact find?_eq_none.mp hfind
    dsimp only
    split
    · exact .inr ⟨rfl, [], .inr rfl⟩
    split
    · exact .inr ⟨rfl, [], .inr rfl⟩
    · refine .inl ⟨saturatingAdd st.resultBytes (matchStorageBytes p c), ?_⟩
      rw [putLast, hany]
      rfl
  | some existing =>
    have hsame : decide (existing.dedupPath = c.dedupPath) = true := by
      have := find?_some hfind
      simpa using this
    have hany : ((st.slot i).any fun k => k.dedupPath = c.dedupPath) = true := by
      rw [any_eq_true]
      exact ⟨existing, mem_of_find?_eq_some hfind, hsame⟩
    dsimp only
    split
    · exact .inr ⟨rfl, _, .inl rfl⟩
    · refine .inl ⟨saturatingAdd (st.resultBytes - matchStorageBytes p existing)
        (matchStorageBytes p c), ?_⟩
      rw [putLast, hany]
      rfl

theorem Sized.push (h : st.Sized n) (c : CapturedMatch N) (i : Nat) : (st.push p c i).Sized n := by
  rcases push_cases (p := p) st c i with ⟨bytes, hpush⟩ | ⟨hlimited, kept, hslots | hslots⟩
  · rw [hpush]
    exact ⟨by rw [length_set]; exact h.slots, h.limited⟩
  · exact ⟨by rw [hslots, length_set]; exact h.slots, by rw [hlimited, length_set]; exact h.limited⟩
  · exact ⟨by rw [hslots]; exact h.slots, by rw [hlimited, length_set]; exact h.limited⟩

theorem push_of_ne (st : ExtractionState N) (c : CapturedMatch N) {j : Nat} (hne : j ≠ i) :
    (st.push p c j).slot i = st.slot i ∧ (st.push p c j).limited i = st.limited i := by
  have hset : ∀ kept : List (CapturedMatch N), (st.slots.set j kept).getD i [] =
      st.slots.getD i [] := by
    intro kept
    rw [getD_eq_getElem?_getD, getD_eq_getElem?_getD, getElem?_set_ne hne]
  rcases push_cases (p := p) st c j with ⟨bytes, hpush⟩ | ⟨hlimited, kept, hslots | hslots⟩
  · rw [hpush]
    exact ⟨hset _, rfl⟩
  all_goals
    refine ⟨?_, ?_⟩
    · rw [slot, hslots]
      first
      | exact hset _
      | rfl
    · rw [limited, limited, hlimited, getD_eq_getElem?_getD, getD_eq_getElem?_getD,
        getElem?_set_ne hne]

theorem push_self (hst : st.Sized n) (hi : i < n) (c : CapturedMatch N)
    (h : (st.push p c i).limited i = false) :
    st.limited i = false ∧ (st.push p c i).slot i = putLast (·.dedupPath) (st.slot i) c := by
  rcases push_cases (p := p) st c i with ⟨bytes, hpush⟩ | ⟨hlimited, -⟩
  · rw [hpush] at h ⊢
    refine ⟨h, ?_⟩
    show (st.slots.set i _).getD i [] = _
    rw [getD_eq_getElem?_getD, getElem?_set_self (by rw [hst.slots]; exact hi)]
    rfl
  · rw [limited, hlimited, getD_eq_getElem?_getD,
      getElem?_set_self (by rw [hst.limited]; exact hi)] at h
    cases h

theorem slot_pushes : ∀ (pushed : List (Nat × CapturedMatch N)) {st : ExtractionState N} {n i : Nat},
    st.Sized n → i < n → (st.pushes p pushed).limited i = false →
      st.limited i = false ∧ (st.pushes p pushed).slot i =
        (pushesFor i pushed).foldl (putLast (·.dedupPath)) (st.slot i) := by
  intro pushed
  induction pushed with
  | nil =>
    intro st n i _ _ h
    exact ⟨h, rfl⟩
  | cons x pushed ih =>
    intro st n i hst hi h
    obtain ⟨j, c⟩ := x
    obtain ⟨hlimited, hslot⟩ := ih (hst.push c j) hi h
    have hpushes : st.pushes p ((j, c) :: pushed) = (st.push p c j).pushes p pushed := rfl
    by_cases hj : j = i
    · subst hj
      obtain ⟨hlimited', hslot'⟩ := push_self hst hi c hlimited
      refine ⟨hlimited', ?_⟩
      rw [hpushes, hslot, hslot']
      simp [pushesFor]
    · obtain ⟨hslot', hlimited'⟩ := push_of_ne (p := p) st c hj
      refine ⟨hlimited' ▸ hlimited, ?_⟩
      rw [hpushes, hslot, hslot']
      simp [pushesFor, hj]

end ExtractionState

theorem map_putLast {β : Type} {f : α → β} {place' : β → Text} (h : ∀ a, place' (f a) = place a)
    (kept : List α) (a : α) :
    (putLast place kept a).map f = putLast place' (kept.map f) (f a) := by
  have hfun : (fun k => decide (place' k = place' (f a))) ∘ f = fun k => decide
    (place k = place a) := by
    funext k
    rw [Function.comp_apply, h, h]
  rw [putLast, putLast, any_map, findIdx_map, hfun]
  split
  · rw [map_set]
  · rw [map_append, map_singleton]

theorem map_foldl_putLast {β : Type} {f : α → β} {place' : β → Text}
    (h : ∀ a, place' (f a) = place a) (xs kept : List α) :
    (xs.foldl (putLast place) kept).map f = (xs.map f).foldl (putLast place') (kept.map f) := by
  induction xs generalizing kept with
  | nil => rfl
  | cons x xs ih => rw [foldl_cons, ih, map_putLast h, map_cons, foldl_cons]

theorem putLast_of_fresh {kept : List α} {x : α}
    (h : ∀ k ∈ kept, place k ≠ place x) : putLast place kept x = kept ++ [x] := by
  refine if_neg fun hany => ?_
  obtain ⟨k, hk, hplace⟩ := any_eq_true.mp hany
  exact h k hk (of_decide_eq_true hplace)

theorem fresh_of_nodup {xs kept : List α} {x : α} (h : ((kept ++ x :: xs).map place).Nodup) :
    ∀ k ∈ kept, place k ≠ place x := by
  rw [map_append, nodup_append] at h
  intro k hk
  exact h.2.2 _ (mem_map_of_mem hk) _ (mem_map_of_mem mem_cons_self)

theorem foldl_putLast_of_nodup : ∀ {xs kept : List α},
    ((kept ++ xs).map place).Nodup → xs.foldl (putLast place) kept = kept ++ xs := by
  intro xs
  induction xs with
  | nil =>
    intro kept _
    rw [append_nil]
    rfl
  | cons x xs ih =>
    intro kept h
    rw [foldl_cons, putLast_of_fresh (fresh_of_nodup h), ih (by simpa using h), append_assoc]
    rfl

theorem keepLast_of_nodup {placed : List (Text × α)} (h : (placed.map (·.1)).Nodup) :
    keepLast placed = placed := foldl_putLast_of_nodup h

namespace ExtractionState

theorem push_fresh {c : CapturedMatch N} (hfresh : ∀ e ∈ st.slot i, e.dedupPath ≠ c.dedupPath)
    (hcount : (st.slot i).length < maxJsonPathMatches)
    (hbytes : st.resultBytes + matchStorageBytes p c ≤ maxExtractedResultBytes) :
    st.push p c i =
      { st with
        resultBytes := st.resultBytes + matchStorageBytes p c
        slots := st.slots.set i (st.slot i ++ [c]) } := by
  have hfind : (st.slots.getD i []).find? (fun e => decide (e.dedupPath = c.dedupPath)) = none := by
    rw [find?_eq_none]
    intro e he hsame
    exact hfresh e he (of_decide_eq_true hsame)
  have hsum : saturatingAdd st.resultBytes (matchStorageBytes p c) =
      st.resultBytes + matchStorageBytes p c := by
    refine saturatingAdd_eq ?_
    rw [maxExtractedResultBytes] at hbytes
    omega
  have hroom : ¬ maxJsonPathMatches ≤ (st.slots.getD i []).length := not_le.mpr hcount
  unfold push
  dsimp only
  rw [hfind]
  rw [hsum, if_neg hroom, if_neg (not_lt.mpr hbytes)]
  rfl

theorem pushes_fresh : ∀ (pushed : List (Nat × CapturedMatch N)) {st : ExtractionState N} {n : Nat},
    st.Sized n → (∀ x ∈ pushed, x.1 < n) →
    (∀ i < n, ((st.slot i ++ pushesFor i pushed).map (·.dedupPath)).Nodup) →
    (∀ i < n, (st.slot i ++ pushesFor i pushed).length ≤ maxJsonPathMatches) →
    st.resultBytes + (pushed.map fun x => matchStorageBytes p x.2).sum ≤ maxExtractedResultBytes →
    (st.pushes p pushed).pathLimited = st.pathLimited ∧
      (st.pushes p pushed).omittedPaths = st.omittedPaths ∧
      ∀ i < n, (st.pushes p pushed).slot i = st.slot i ++ pushesFor i pushed := by
  intro pushed
  induction pushed with
  | nil =>
    intro st n _ _ _ _ _
    refine ⟨rfl, rfl, fun i _ => ?_⟩
    exact (append_nil _).symm
  | cons x pushed ih =>
    intro st n hst hindex hnodup hcount hbytes
    obtain ⟨j, c⟩ := x
    have hj : j < n := hindex _ mem_cons_self
    have hpushed : pushesFor j ((j, c) :: pushed) = c :: pushesFor j pushed := by
      simp [pushesFor]
    have hother : ∀ i, j ≠ i → pushesFor i ((j, c) :: pushed) = pushesFor i pushed := by
      intro i hne
      simp [pushesFor, hne]
    have hnodup' := hnodup j hj
    have hcount' := hcount j hj
    rw [hpushed] at hnodup' hcount'
    rw [map_cons, sum_cons] at hbytes
    dsimp only at hbytes
    have hroom : (st.slot j).length < maxJsonPathMatches := by
      rw [length_append, length_cons] at hcount'
      omega
    have hpush := push_fresh (p := p) (fresh_of_nodup hnodup') hroom (by omega)
    have hslot : (st.push p c j).slot j = st.slot j ++ [c] := by
      rw [hpush]
      show (st.slots.set j _).getD j [] = _
      rw [getD_eq_getElem?_getD, getElem?_set_self (by rw [hst.slots]; exact hj)]
      rfl
    -- What the next state still expects is what this one expects.
    have hexpects : ∀ i, (st.push p c j).slot i ++ pushesFor i pushed =
        st.slot i ++ pushesFor i ((j, c) :: pushed) := by
      intro i
      by_cases hne : j = i
      · subst hne
        rw [hslot, hpushed, append_assoc]
        rfl
      · rw [(push_of_ne st c hne).1, hother i hne]
    have hnext := ih (hst.push (p := p) c j) (fun x hx => hindex x (mem_cons_of_mem _ hx))
      (fun i hi => by rw [hexpects]; exact hnodup i hi)
      (fun i hi => by rw [hexpects]; exact hcount i hi)
      (by
        rw [hpush]
        dsimp only
        omega)
    obtain ⟨hlimited, homitted, hslots⟩ := hnext
    refine ⟨?_, ?_, fun i hi => ?_⟩
    · exact hlimited.trans (by rw [hpush])
    · exact homitted.trans (by rw [hpush])
    · exact (hslots i hi).trans (hexpects i)

end ExtractionState

theorem sum_pushesFor (w : CapturedMatch N → Nat) :
    ∀ {pushed : List (Nat × CapturedMatch N)}, (∀ x ∈ pushed, x.1 < n) →
      (pushed.map fun x => w x.2).sum = ∑ i ∈ Finset.range n, ((pushesFor i pushed).map w).sum := by
  intro pushed
  induction pushed with
  | nil =>
    intro _
    simp [pushesFor]
  | cons x pushed ih =>
    intro h
    have hx : x.1 ∈ Finset.range n := Finset.mem_range.mpr (h x mem_cons_self)
    have hpushed : ∀ i, ((pushesFor i (x :: pushed)).map w).sum =
        (if i = x.1 then w x.2 else 0) + ((pushesFor i pushed).map w).sum := by
      intro i
      by_cases hi : x.1 = i
      · simp [pushesFor, hi]
      · have hi' : ¬ i = x.1 := fun h => hi h.symm
        simp [pushesFor, hi, hi']
    rw [map_cons, sum_cons, ih fun y hy => h y (mem_cons_of_mem _ hy),
      Finset.sum_congr rfl fun i _ => hpushed i, Finset.sum_add_distrib, Finset.sum_ite_eq',
      if_pos hx]

theorem sum_getElem? (g : α → Nat) : ∀ xs : List α,
    ∑ i ∈ Finset.range xs.length, (xs[i]?.map g).getD 0 = (xs.map g).sum := by
  intro xs
  induction xs with
  | nil => rfl
  | cons x xs ih =>
    rw [length_cons, Finset.sum_range_succ']
    simp only [getElem?_cons_succ, getElem?_cons_zero, Option.map_some, Option.getD_some,
      map_cons, sum_cons]
    rw [ih, add_comm]

theorem field_jsonObject (name : String) (members : List (String × Value N)) :
    field name (jsonObject members) = (members.find? fun m => m.1 = name).map (·.2) := by
  have hname : ∀ m : String × Value N,
      decide (encode m.1.toList = encode name.toList) = decide (m.1 = name) := by
    intro m
    congr 1
    refine propext ⟨fun h => ?_, fun h => by rw [h]⟩
    have hchars := congrArg chars h
    rw [Utf8.chars_encode, Utf8.chars_encode] at hchars
    exact String.toList_inj.mp hchars
  show ((members.map fun m => (encode m.1.toList, m.2)).find? _).map _ = _
  rw [find?_map, Option.map_map]
  simp only [Function.comp_def, hname]

theorem buildResult_fields (st : ExtractionState N) (path : List JsonPathSegment) (i : Nat) :
    field "found" (buildResult p st (path, i)) = some (.bool (!(st.slot i).isEmpty)) ∧
    field "matchCount" (buildResult p st (path, i)) = some (.number (p.ofNat (st.slot i).length)) ∧
    field "value" (buildResult p st (path, i)) =
      some (returnedValue path ((st.slot i).map (·.value))) ∧
    field "truncated" (buildResult p st (path, i)) =
      some (.bool (st.limited i || (st.slot i).any (·.truncated) ||
        (st.slot i).isEmpty && st.omittedPaths.contains i)) := by
  have hslot : st.slots.getD i [] = st.slot i := rfl
  have hlimited : st.pathLimited.getD i false = st.limited i := rfl
  unfold buildResult
  dsimp only
  rw [hslot, hlimited]
  cases st.slot i with
  | nil =>
    dsimp only
    simp only [field_jsonObject]
    refine ⟨rfl, rfl, rfl, ?_⟩
    simp
  | cons first rest =>
    dsimp only
    simp only [field_jsonObject]
    refine ⟨by simp, by simp, ?_, by simp⟩
    cases rest with
    | nil | cons second rest => simp [returnedValue]

variable {d : Value N}

theorem captureValue_pushes (h : captureDocument p r raw d segments = .ok x) :
    ∃ pushed, x.2.bare = (ExtractionState.new segments.length).pushes p pushed ∧
      ∀ i, pushesFor i pushed = occurrences p r raw d segments[i]? "$" := by
  obtain ⟨⟨pushed, hst, hout⟩, -⟩ := captureValue_emits d h
  exact ⟨pushed, hst, fun i => hout i _ (routes_root i)⟩

theorem extractJsonPaths_inv {t : Text} {captureTruncated : Bool} {size : Nat}
    {e : JsonPathExtraction N} (hdoc : p.fromSlice (encode t) = .ok d)
    (h : extractJsonPaths p r raw (encode t) captureTruncated size segments = .ok e) :
    ∃ x, captureDocument p r raw d segments = .ok x ∧ e.values = buildResults p segments x.2 := by
  rw [extractJsonPaths] at h
  split at h
  · cases h
  split at h
  · cases h
  cases hbytes : validateBytes p (encode t) with
  | error error => rw [hbytes] at h; cases h
  | ok hash =>
    rw [hbytes, parseReader_document hdoc] at h
    cases hx : captureDocument p r raw d segments with
    | error message =>
      rw [hx] at h
      cases h
    | ok x =>
      rw [hx] at h
      cases h
      exact ⟨x, rfl, rfl⟩

theorem getElem?_buildResults {path : List JsonPathSegment} {result : Value N}
    (hi : segments[i]? = some path) (hresult : (buildResults p segments st)[i]? = some result) :
    result = buildResult p st (path, i) := by
  rw [buildResults, getElem?_map, getElem?_zipIdx, hi] at hresult
  simpa using hresult.symm

/-- If the matches of every path are at different places and there is room for all of them, every
path collects its matches. -/
theorem slots_within_limits (h : captureDocument p r raw d segments = .ok x)
    (hnodup : ∀ path ∈ segments,
      ((occurrences p r raw d (some path) "$").map (·.dedupPath)).Nodup)
    (hcount : ∀ path ∈ segments,
      (occurrences p r raw d (some path) "$").length ≤ maxJsonPathMatches)
    (hbytes : (segments.map fun path =>
      ((occurrences p r raw d (some path) "$").map (matchStorageBytes p)).sum).sum ≤
        maxExtractedResultBytes)
    {path : List JsonPathSegment} (hi : segments[i]? = some path) :
    x.2.slot i = occurrences p r raw d (some path) "$" ∧ x.2.limited i = false := by
  obtain ⟨pushed, hst, hpushed⟩ := captureValue_pushes h
  have hempty : ∀ i, (ExtractionState.new segments.length : ExtractionState N).slot i = [] := by
    intro i
    rw [ExtractionState.slot, ExtractionState.new]
    by_cases hlt : i < segments.length
    · simp [hlt]
    · simp [not_lt.mp hlt]
  have hget : ∀ i < segments.length, ∃ path ∈ segments, segments[i]? = some path :=
    fun i hi => ⟨segments[i], getElem_mem hi, getElem?_eq_getElem hi⟩
  have hindex : ∀ y ∈ pushed, y.1 < segments.length := by
    intro y hy
    by_contra hge
    have hnone := hpushed y.1
    rw [getElem?_eq_none (not_lt.mp hge), occurrences_none] at hnone
    have hmem : y.2 ∈ pushesFor y.1 pushed := mem_map.mpr ⟨y, mem_filter.mpr ⟨hy, by simp⟩, rfl⟩
    rw [hnone] at hmem
    cases hmem
  have htotal : (pushed.map fun y => matchStorageBytes p y.2).sum ≤ maxExtractedResultBytes := by
    rw [sum_pushesFor (matchStorageBytes p) hindex]
    rw [← sum_getElem?] at hbytes
    refine le_of_eq_of_le (Finset.sum_congr rfl fun i hi => ?_) hbytes
    obtain ⟨path, -, hpath⟩ := hget i (Finset.mem_range.mp hi)
    rw [hpushed, hpath]
    rfl
  have hrun := ExtractionState.pushes_fresh (p := p) pushed
    (ExtractionState.sized_new segments.length) hindex
    (fun i hi => by
      obtain ⟨path, hmem, hpath⟩ := hget i hi
      rw [hempty, hpushed, hpath]
      exact hnodup path hmem)
    (fun i hi => by
      obtain ⟨path, hmem, hpath⟩ := hget i hi
      rw [hempty, hpushed, hpath]
      exact hcount path hmem)
    (by rw [ExtractionState.new]; simpa using htotal)
  obtain ⟨hlimited, -, hslots⟩ := hrun
  have hlt : i < segments.length := (List.getElem?_eq_some_iff.mp hi).1
  constructor
  · have hslot := hslots i hlt
    rw [← hst, hempty, hpushed, hi] at hslot
    exact hslot
  · have hflags : x.2.pathLimited = List.replicate segments.length false := by
      rw [← hst] at hlimited
      exact hlimited
    rw [ExtractionState.limited, hflags]
    simp [hlt]

theorem matchStorageBytes_le (x : Text × Value N) :
    matchStorageBytes p (completeMatch x) ≤ matchBytes p x := by
  simp only [matchStorageBytes, completeMatch, matchBytes, saturatingAdd, Option.map_none,
    Option.getD_none]
  omega

/-- The result for a path has the matches of the path in this value. -/
def Shows (p : Platform N) (tree : Value N) (path : List JsonPathSegment) (result : Value N) : Prop :=
  field "found" result = some (.bool (!(extractMatches path tree).isEmpty)) ∧
  field "matchCount" result = some (.number (p.ofNat (extractMatches path tree).length)) ∧
  field "value" result = some (returnedValue path (extractMatches path tree))

/-- Extraction from the stream, for a document whose text is small enough to be scanned, is
`extract_matches` on the parsed and redacted (in raw mode: parsed) document. -/
theorem extraction_refines_materialized (hp : p.Compact) {t : Text} {d : Value N}
    (hdoc : p.fromSlice (encode t) = .ok d) (htext : Textual d) (hunique : UniqueNames d)
    (hdepth : depth d < 128) {segments : List (List JsonPathSegment)}
    (hscan : Scannable segments (byteLen t))
    (hsize : p.serializedLen (materialized p r raw d) ≤ maxExtractedValueBytes)
    (hcount : ∀ path ∈ segments,
      (extractMatches path (materialized p r raw d)).length ≤ maxJsonPathMatches)
    (hbytes : (segments.map (pathBytes p (materialized p r raw d))).sum ≤ maxExtractedResultBytes)
    (captureTruncated : Bool) :
    ∃ e, extractJsonPaths p r raw (encode t) captureTruncated (byteLen t) segments = .ok e ∧
      List.Forall₂ (Shows p (materialized p r raw d)) segments e.values := by
  have hview : view p r raw d = materialized p r raw d := view_eq_materialized hunique htext
  rw [← hview] at hsize hcount hbytes ⊢
  have hfits : Fits p r raw d := Fits.of_size hp d hunique hsize
  obtain ⟨huniqueView, htextView⟩ : UniqueNames (view p r raw d) ∧ Textual (view p r raw d) :=
    view_regular d hunique htext
  have hoccurrences : ∀ path, occurrences p r raw d (some path) "$" =
      (placedMatches path (view p r raw d) "$").map completeMatch :=
    fun path => occurrences_view d hunique hfits path _
  have hmatches : ∀ path, extractMatches path (view p r raw d) =
      (occurrences p r raw d (some path) "$").map (·.value) := by
    intro path
    rw [hoccurrences, map_map, extractMatches_eq path "$" huniqueView]
    rfl
  obtain ⟨x, hx⟩ := captureDocument_ok (p := p) (r := r) hdepth segments
  refine ⟨_, extractJsonPaths_of_scannable hdoc hscan hx, ?_⟩
  have hslots : ∀ {i path}, segments[i]? = some path →
      x.2.slot i = occurrences p r raw d (some path) "$" := by
    intro i path hi
    refine (slots_within_limits hx (fun path _ => ?_) (fun path hpath => ?_) ?_ hi).1
    · rw [hoccurrences, map_map]
      exact nodup_places path _ huniqueView htextView
    · have := hcount path hpath
      rwa [hmatches, length_map] at this
    · refine (sum_le_sum fun path _ => ?_).trans hbytes
      rw [hoccurrences, map_map]
      exact sum_le_sum fun y _ => matchStorageBytes_le y
  show List.Forall₂ _ segments (buildResults p segments x.2)
  rw [forall₂_iff_get]
  refine ⟨by simp [buildResults], fun i hi _ => ?_⟩
  have hget : segments[i]? = some segments[i] := getElem?_eq_getElem hi
  have hresult : (buildResults p segments x.2).get ⟨i, by simpa [buildResults] using hi⟩ =
      buildResult p x.2 (segments[i], i) := by
    simp [buildResults]
  obtain ⟨hfound, hnumber, hvalue, -⟩ := buildResult_fields (p := p) x.2 segments[i] i
  rw [hslots hget] at hfound hnumber hvalue
  rw [hresult]
  refine ⟨?_, ?_, ?_⟩
  · rw [hfound, get_eq_getElem, hmatches, isEmpty_map]
  · rw [hnumber, get_eq_getElem, hmatches, length_map]
  · rw [hvalue, get_eq_getElem, hmatches]

/-! ## A document with its matches -/

namespace Sample

theorem printItems_eq (items : List (Value Nat)) :
    printItems items = [','].intercalate (items.map print) := by
  induction items with
  | nil => rfl
  | cons v items ih =>
    rw [printItems, ih]
    cases items with
    | nil | cons w items => simp [List.intercalate]

theorem printMembers_eq (members : List (Bytes × Value Nat)) :
    printMembers members = [','].intercalate
      (members.map fun m => print (.string m.1) ++ ':' :: print m.2) := by
  induction members with
  | nil => rfl
  | cons m members ih =>
    obtain ⟨k, v⟩ := m
    rw [printMembers, ih, printMember]
    cases members with
    | nil | cons n members => simp [List.intercalate, print]

theorem byteLen_le_printChars (t : Text) : byteLen t ≤ byteLen (t.flatMap printChar) := by
  have hchar : ∀ c, byteLen [c] ≤ byteLen (printChar c) := by
    intro c
    unfold printChar
    split_ifs with h1 h2 h3 h4 h5
    · subst h1; decide
    · subst h2; decide
    · subst h3; decide
    · subst h4; decide
    · subst h5; decide
    · exact le_refl _
  induction t with
  | nil => exact le_refl _
  | cons c t ih =>
    rw [flatMap_cons, byteLen_cons, byteLen_append]
    exact Nat.add_le_add (hchar c) ih

theorem platform_compact : platform.Compact where
  null := rfl
  string s := by
    have hquote : byteLen ['"'] = 1 := by decide
    have hbody := byteLen_le_printChars (chars s)
    show _ ≤ byteLen ('"' :: ((chars s).flatMap printChar ++ ['"']))
    rw [byteLen_cons, byteLen_append]
    omega
  array items := by
    show print (.array items) = _
    rw [print, printItems_eq]
    rfl
  object members := by
    show print (.object members) = _
    rw [print, printMembers_eq]
    rfl

theorem textual_secretDocument : Textual (secretDocument 1) :=
  ⟨⟨isText_encode _, isText_encode ['x']⟩, trivial⟩

theorem uniqueNames_secretDocument (n : Nat) : UniqueNames (secretDocument n) :=
  ⟨nodup_singleton _, trivial, trivial⟩

/-! A number after white space. -/

def blankText (n : Nat) : Text := List.replicate n ' ' ++ ['0']

theorem encode_blankText (n : Nat) : encode (blankText n) = List.replicate n 0x20 ++ [0x30] := by
  have hblank : String.utf8EncodeChar ' ' = [0x20] := by decide
  rw [blankText, Utf8.encode_append, Utf8.encode_replicate hblank]
  rfl

theorem byteLen_blankText (n : Nat) : byteLen (blankText n) = n + 1 := by
  rw [byteLen, encode_blankText, length_append, length_replicate]
  rfl

theorem platform_blankText (n : Nat) :
    platform.fromSlice (encode (blankText n)) = .ok (.number 0) := by
  have hws : Json.AllWs (List.replicate n 0x20) := by
    intro b hb
    rw [eq_of_mem_replicate hb]
    rfl
  have hnil : Json.AllWs [] := forall_mem_nil _
  have hwf : (Json.Cst.leaf (List.replicate n 0x20) [0x30] [] (.number 0)).WF (Json.Token numOf)
      Json.AnyNames := ⟨hws, hnil, .number rfl (forall_mem_nil _) rfl⟩
  rw [encode_blankText]
  exact platform_render hwf (show depth (.number 0 : Value Nat) < 128 by decide)

end Sample

/-- A number that stands after very much white space is refused. -/
theorem blank_document_refused :
    (Sample.platform.fromSlice (encode (Sample.blankText maxJsonPathScanBytes)) = .ok (.number 0) ∧
      UniqueNames (.number 0 : Value Nat) ∧ depth (.number 0 : Value Nat) < 128 ∧
      Sample.platform.serializedLen (toValue (.number 0)) ≤ maxExtractedValueBytes ∧
      Sample.platform.serializedLen (materialized platform redactor false (.number 0)) ≤
        maxExtractedValueBytes) ∧
    extractMatches [.wildcard] (.number 0 : Value Nat) = [] ∧
    ∃ e, extractJsonPaths platform redactor false
      (encode (Sample.blankText maxJsonPathScanBytes)) false
      (byteLen (Sample.blankText maxJsonPathScanBytes)) [[.wildcard]] = .error e ∧
        e.code = "BODY_TOO_LARGE" := by
  refine ⟨⟨Sample.platform_blankText _, trivial, by decide, by decide, by decide⟩, rfl,
    extractJsonPaths_of_not_scannable fun hscan => ?_⟩
  have hlen := hscan.1
  rw [Sample.byteLen_blankText] at hlen
  omega

theorem extraction_refines_materialized_password :
    ∃ e, extractJsonPaths platform redactor false (encode (Sample.text 1)) false
        (byteLen (Sample.text 1)) Sample.secretPath = .ok e ∧
      List.Forall₂ (Shows platform
        (materialized platform redactor false (Sample.secretDocument 1)))
        Sample.secretPath e.values :=
  extraction_refines_materialized Sample.platform_compact (Sample.platform_text 1)
    Sample.textual_secretDocument (Sample.uniqueNames_secretDocument 1)
    (Sample.depth_secretDocument 1) (Sample.scannable_secretPath.mpr (by decide))
    (by decide) (by decide) (by decide) false

end AiProxy.Mcp
