import AiProxy.Mcp.Proofs.PathTreeProofs
import AiProxy.Mcp.Proofs.RedactionProofs

/-!
# What the visitor captures

The value that the visitor builds for a part of the document is a function of that part alone, and so
is the sequence of matches that it pushes for one requested path.
-/

namespace AiProxy.Mcp

open List
open Json (Bytes Value)
open Utf8 (chars)
open Fallible (bind_ok_iff)

variable {N : Type} {p : Platform N} {r : Redactor} {raw : Bool}
variable {x : CapturedValue N × ExtractionState N}

/-! ## Redaction does not depend on the path -/

/-- Two replacements write the same, whatever they record. -/
def SameText (f g : Text → (Nat → Text) → Text × List RedactionRecord) : Prop :=
  ∀ t groups, (f t groups).1 = (g t groups).1

theorem replaceAll_fst (m : Pattern) {f g : Text → (Nat → Text) → Text × List RedactionRecord}
    (h : SameText f g) (t : Text) : (m.replaceAll f t).1 = (m.replaceAll g t).1 := by
  have hpiece : (fun piece => (Pattern.replacePiece f piece).1) =
      fun piece => (Pattern.replacePiece g piece).1 := by
    funext piece
    cases piece with
    | copy c => rfl
    | hit t groups => exact h t _
  rw [Pattern.replaceAll, Pattern.replaceAll, hpiece]

theorem runPasses_fst {ps qs : List Pass}
    (h : List.Forall₂ (fun a b => a.1 = b.1 ∧ SameText a.2 b.2) ps qs) :
    ∀ t, (runPasses ps t).1 = (runPasses qs t).1 := by
  induction h with
  | nil => exact fun _ => rfl
  | @cons a b ps qs hab _ ih =>
    intro t
    rw [runPasses, hab.1, replaceAll_fst b.1 hab.2]
    exact ih _

theorem sameText_replaceQuotedSecret (path path' : Text) :
    SameText (replaceQuotedSecret p r path) (replaceQuotedSecret p r path') := by
  intro t groups
  unfold replaceQuotedSecret
  dsimp only
  split <;> rfl

theorem sameText_replaceDetected (path path' : Text) (rule kind : String) :
    SameText (replaceDetected p r path rule kind) (replaceDetected p r path' rule kind) := by
  intro t groups
  unfold replaceDetected
  split <;> rfl

theorem sameText_replaceCustom (path path' : Text) (pattern : CompiledPattern) :
    SameText (replaceCustom p r path pattern) (replaceCustom p r path' pattern) := by
  intro t groups
  unfold replaceCustom
  cases pattern.action with
  | redact => rfl
  | hash =>
    dsimp only
    split <;> rfl

theorem redactStringInner_fst (t path path' : Text) :
    (redactStringInner p r t path).1 = (redactStringInner p r t path').1 := by
  refine runPasses_fst ?_ t
  have hcustom : ∀ patterns : List CompiledPattern,
      List.Forall₂ (fun a b : Pass => a.1 = b.1 ∧ SameText a.2 b.2)
        (patterns.map fun pattern => (pattern.regex, replaceCustom p r path pattern))
        (patterns.map fun pattern => (pattern.regex, replaceCustom p r path' pattern)) := by
    intro patterns
    induction patterns with
    | nil => exact .nil
    | cons pattern patterns ih => exact .cons ⟨rfl, sameText_replaceCustom _ _ pattern⟩ ih
  refine rel_append (rel_append ?_ ?_) (hcustom _)
  · exact .cons ⟨rfl, fun _ _ => rfl⟩ (.cons ⟨rfl, sameText_replaceQuotedSecret _ _⟩
      (.cons ⟨rfl, fun _ _ => rfl⟩ .nil))
  · split
    · exact .cons ⟨rfl, fun _ _ => rfl⟩ (.cons ⟨rfl, sameText_replaceDetected _ _ _ _⟩
        (.cons ⟨rfl, sameText_replaceDetected _ _ _ _⟩ .nil))
    · exact .nil

variable {key : Bytes} {v : Value N} {path : Text} {depth : Nat} {nodes : List PathNode}
variable {collectAll : Bool}

theorem redactJsonField_fst (key : Bytes) (v : Value N) (path path' : Text) :
    (redactJsonField p r key v path).map (·.1) = (redactJsonField p r key v path').map (·.1) := by
  unfold redactJsonField
  cases classify p r (chars key) with
  | none => rfl
  | some c => cases v <;> rfl

theorem isSome_redactJsonField (key : Bytes) (v : Value N) (path : Text) :
    (redactJsonField p r key v path).isSome = isSensitiveName p r (chars key) := by
  rw [redactJsonField, Option.isSome_map]
  rfl

theorem redactJsonField_hidden (h : isSensitiveName p r (chars key) = true)
    (v w : Value N) (path : Text) :
    ((redactJsonField p r key v path).getD (w, [])).1 = hiddenValue p r key v := by
  have hsome := isSome_redactJsonField (p := p) (r := r) key v path
  have hfst := redactJsonField_fst (p := p) (r := r) key v path []
  rw [h] at hsome
  rw [hiddenValue]
  cases hx : redactJsonField p r key v path with
  | none => simp [hx] at hsome
  | some x =>
    rw [hx] at hfst
    cases hy : redactJsonField p r key v [] with
    | none => simp [hy] at hfst
    | some y =>
      rw [hy] at hfst
      exact Option.some.inj hfst

/-! ## Built values -/

section Built

variable (p r raw)

def builtSensitive (key : Bytes) (v : Value N) : CapturedValue N :=
  let value := hiddenValue p r key v
  ⟨value, jsonTypeName value, none, false, p.serializedLen value, true⟩

def builtString (text : Text) : CapturedValue N :=
  if byteLen text ≤ maxExtractedValueBytes then
    { completeScalar p (jsonText text) with alreadyRedacted := !raw }
  else
    let bounded : Value N := jsonText (takeBytes maxExtractedValueBytes text ++ "…[truncated]")
    let summary : Summary N :=
      ⟨"string", .number (p.ofNat (p.serializedLen (jsonText text))), .null, .null, [], .null, []⟩
    ⟨bounded, "string", some summary.toJson, true, p.serializedLen bounded, !raw⟩

mutual

/-- What the visitor builds for a value that is to be returned. -/
def built : Value N → CapturedValue N
  | .object members => (builtMembers members .empty).finish p raw
  | .array items => (builtItems items 0 .empty).finish p raw items.length
  | .string s => builtString p raw (shownText p r raw (chars s))
  | .null => completeScalar p .null
  | .bool b => completeScalar p (.bool b)
  | .number n => completeScalar p (.number n)

def builtItems : List (Value N) → Nat → ArrayBuilder N → ArrayBuilder N
  | [], _, b => b
  | v :: vs, index, b => builtItems vs (index + 1) (b.append p index (built v))

def builtMembers : List (Bytes × Value N) → ObjectBuilder N → ObjectBuilder N
  | [], b => b
  | m :: ms, b => builtMembers ms (builtMember m b)

def builtMember : Bytes × Value N → ObjectBuilder N → ObjectBuilder N
  | (k, v), b =>
    { b with keyCount := b.keyCount + 1 }.append p k
      (if hides p r raw k then builtSensitive p r k v else built v)

end

def capturedMatch (place : Text) (captured : CapturedValue N) : CapturedMatch N :=
  ⟨place, captured.value, captured.valueSummary, captured.valueType, captured.truncated⟩

def endMatch (remainder : Option (List JsonPathSegment)) (place : Text)
    (captured : CapturedValue N) : List (CapturedMatch N) :=
  if remainder = some [] then [capturedMatch place captured] else []

mutual

/-- The matches for a path of which this remains, in the order in which they are pushed. -/
def occurrences : Value N → Option (List JsonPathSegment) → Text → List (CapturedMatch N)
  | .object members, remainder, place =>
    memberOccurrences members remainder place ++
      endMatch remainder place (built p r raw (.object members))
  | .array items, remainder, place =>
    itemOccurrences items 0 remainder place ++
      endMatch remainder place (built p r raw (.array items))
  | .string s, remainder, place => endMatch remainder place (built p r raw (.string s))
  | .null, remainder, place => endMatch remainder place (built p r raw .null)
  | .bool b, remainder, place => endMatch remainder place (built p r raw (.bool b))
  | .number n, remainder, place => endMatch remainder place (built p r raw (.number n))

def itemOccurrences : List (Value N) → Nat → Option (List JsonPathSegment) → Text →
    List (CapturedMatch N)
  | [], _, _, _ => []
  | v :: vs, index, remainder, place =>
    occurrences v (remainderIndex index remainder) (indexPath place index) ++
      itemOccurrences vs (index + 1) remainder place

def memberOccurrences : List (Bytes × Value N) → Option (List JsonPathSegment) → Text →
    List (CapturedMatch N)
  | [], _, _ => []
  | m :: ms, remainder, place =>
    memberOccurrence m remainder place ++ memberOccurrences ms remainder place

def memberOccurrence : Bytes × Value N → Option (List JsonPathSegment) → Text →
    List (CapturedMatch N)
  | (k, v), remainder, place =>
    if hides p r raw k then
      endMatch (remainderKey k remainder) (appendKeyPath place k) (builtSensitive p r k v)
    else occurrences v (remainderKey k remainder) (appendKeyPath place k)

end

end Built

/-! ## Pushes -/

namespace ExtractionState

def bare (st : ExtractionState N) : ExtractionState N := { st with redactedFields := [] }

theorem bare_collectRedactions (st : ExtractionState N) (records : List RedactionRecord) :
    (st.collectRedactions records).bare = st.bare := rfl

theorem bare_push (st : ExtractionState N) (c : CapturedMatch N) (i : Nat) :
    (st.push p c i).bare = st.bare.push p c i := by
  unfold push
  -- The limits and the sums stay symbols, so that no step computes with them.
  generalize maxExtractedResultBytes = maxBytes
  generalize maxJsonPathMatches = maxMatches
  generalize saturatingAdd = add
  have hslots : st.bare.slots = st.slots := rfl
  have hbytes : st.bare.resultBytes = st.resultBytes := rfl
  dsimp only
  rw [hslots, hbytes]
  cases (st.slots.getD i []).find? fun existing => existing.dedupPath = c.dedupPath with
  | none => split_ifs <;> rfl
  | some existing =>
    dsimp only
    split_ifs <;> rfl

def pushes (p : Platform N) (st : ExtractionState N) (pushed : List (Nat × CapturedMatch N)) :
    ExtractionState N :=
  pushed.foldl (fun st x => st.push p x.2 x.1) st

theorem pushes_append (st : ExtractionState N) (a b : List (Nat × CapturedMatch N)) :
    st.pushes p (a ++ b) = (st.pushes p a).pushes p b := foldl_append

theorem bare_pushes (st : ExtractionState N) (pushed : List (Nat × CapturedMatch N)) :
    (st.pushes p pushed).bare = st.bare.pushes p pushed := by
  induction pushed generalizing st with
  | nil => rfl
  | cons x pushed ih =>
    have hcons := ih (st.push p x.2 x.1)
    rw [bare_push] at hcons
    exact hcons

theorem pushAll_eq (st : ExtractionState N) (c : CapturedMatch N) (terminals : List Nat) :
    st.pushAll p c terminals = st.pushes p (terminals.map fun i => (i, c)) := by
  rw [pushAll, pushes, foldl_map]

end ExtractionState

open ExtractionState (pushes_append pushAll_eq bare_pushes bare_collectRedactions)

def pushesFor (i : Nat) (pushed : List (Nat × CapturedMatch N)) : List (CapturedMatch N) :=
  (pushed.filter fun x => x.1 = i).map (·.2)

theorem pushesFor_append (i : Nat) (a b : List (Nat × CapturedMatch N)) :
    pushesFor i (a ++ b) = pushesFor i a ++ pushesFor i b := by
  simp [pushesFor]

/-- One state becomes the other by pushes that are, for a path of which `remainder` is left at these
nodes, those of `out remainder`. -/
def Emits (p : Platform N) (nodes : List PathNode)
    (out : Option (List JsonPathSegment) → List (CapturedMatch N)) (st st' : ExtractionState N) :
    Prop :=
  ∃ pushed, st'.bare = st.bare.pushes p pushed ∧
    ∀ i remainder, Routes nodes i remainder → pushesFor i pushed = out remainder

namespace Emits

variable {nodes : List PathNode} {out out' : Option (List JsonPathSegment) → List (CapturedMatch N)}
  {st st' st'' : ExtractionState N}

theorem none (h : ∀ i remainder, Routes nodes i remainder → out remainder = [])
    (hst : st'.bare = st.bare) : Emits p nodes out st st' :=
  ⟨[], hst, fun i remainder hroutes => (h i remainder hroutes).symm⟩

theorem trans (h : Emits p nodes out st st') (h' : Emits p nodes out' st' st'') :
    Emits p nodes (fun remainder => out remainder ++ out' remainder) st st'' := by
  obtain ⟨pushed, hst, hout⟩ := h
  obtain ⟨pushed', hst', hout'⟩ := h'
  refine ⟨pushed ++ pushed', ?_, fun i remainder hroutes => ?_⟩
  · rw [hst', hst, pushes_append]
  · rw [pushesFor_append, hout i remainder hroutes, hout' i remainder hroutes]

theorem of_key (h : Emits p (childNodesForKey nodes key) out st st') :
    Emits p nodes (fun remainder => out (remainderKey key remainder)) st st' := by
  obtain ⟨pushed, hst, hout⟩ := h
  exact ⟨pushed, hst, fun i remainder hroutes => hout i _ (hroutes.key key)⟩

theorem of_index {index : Nat} (h : Emits p (childNodesForIndex nodes index) out st st') :
    Emits p nodes (fun remainder => out (remainderIndex index remainder)) st st' := by
  obtain ⟨pushed, hst, hout⟩ := h
  exact ⟨pushed, hst, fun i remainder hroutes => hout i _ (hroutes.index index)⟩

theorem pushAll (place : Text) (captured : CapturedValue N) (hst : st'.bare =
      (st.pushAll p (capturedMatch place captured) (collectTerminals nodes)).bare) :
    Emits p nodes (fun remainder => endMatch remainder place captured) st st' := by
  refine ⟨(collectTerminals nodes).map fun i => (i, capturedMatch place captured), ?_, ?_⟩
  · rw [hst, pushAll_eq, bare_pushes]
  · intro i remainder hroutes
    have hmem := hroutes.mem_collectTerminals
    have hfilter : pushesFor i
        ((collectTerminals nodes).map fun i => (i, capturedMatch place captured)) =
        ((collectTerminals nodes).filter fun j => j = i).map
          fun _ => capturedMatch place captured := by
      simp [pushesFor, filter_map, Function.comp_def]
    rw [hfilter]
    by_cases hend : remainder = some []
    · have hone : ((collectTerminals nodes).filter fun j => j = i) = [i] := by
        have heq : (fun j => decide (j = i)) = fun j => j == i := by
          funext j
          exact (beq_eq_decide j i).symm
        rw [heq, filter_beq, count_eq_one_of_mem (nodup_collectTerminals nodes)
          (hmem.mpr hend)]
        rfl
      rw [hone]
      exact (if_pos hend).symm
    · have hnone : ((collectTerminals nodes).filter fun j => j = i) = [] := by
        rw [filter_eq_nil_iff]
        intro j hj hji
        rw [of_decide_eq_true hji] at hj
        exact hend (hmem.mp hj)
      rw [hnone]
      exact (if_neg hend).symm

theorem endMatch_eq_nil {i : Nat}
    {remainder : Option (List JsonPathSegment)} (hroutes : Routes nodes i remainder)
    (hterminals : collectTerminals nodes = []) (place : Text) (captured : CapturedValue N) :
    endMatch remainder place captured = [] := by
  refine if_neg fun hend => ?_
  have hmem := hroutes.mem_collectTerminals.mpr hend
  rw [hterminals] at hmem
  cases hmem

variable {captured : CapturedValue N} (hplain : ∀ path, raw = false → captured.alreadyRedacted = false →
    (redactJsonValueInner p r captured.value path).1 = captured.value)

include hplain

theorem capture (place : Text) :
    Emits p nodes (fun remainder => endMatch remainder place captured) st
      (st.capture p r raw (collectTerminals nodes) place captured) := by
  refine pushAll place captured ?_
  rw [ExtractionState.capture]
  by_cases hredact : (!raw && !captured.alreadyRedacted) = true
  · simp only [Bool.and_eq_true, Bool.not_eq_true'] at hredact
    simp only [hredact.1, hredact.2, Bool.not_false, Bool.and_self, if_true,
      pushAll_eq, bare_pushes, bare_collectRedactions, hplain place hredact.1 hredact.2]
    rfl
  · rw [if_neg hredact]
    simp only [pushAll_eq, bare_pushes, bare_collectRedactions]
    rfl

theorem captureSeed {skip : Except Text Unit}
    {visit : Bool → Except Text (CapturedValue N × ExtractionState N)}
    (hout : out .none = [])
    (hvisit : ∀ build y, visit build = .ok y → Emits p nodes out st y.2 ∧
      (build = true → y.1 = captured))
    (h : Mcp.captureSeed p r raw nodes path collectAll skip visit st = .ok x) :
    Emits p nodes (fun remainder => out remainder ++ endMatch remainder path captured) st x.2 ∧
      (collectAll = true → x.1 = captured) := by
  rw [Mcp.captureSeed] at h
  split at h
  · next hskip =>
    simp only [Bool.and_eq_true, Bool.not_eq_true', Bool.or_eq_false_iff, Bool.not_eq_false',
      List.isEmpty_iff] at hskip
    obtain ⟨⟨hcollect, hterminals⟩, hany⟩ := hskip
    obtain ⟨_, -, h⟩ := bind_ok_iff.mp h
    cases h
    refine ⟨none (fun i remainder hroutes => ?_) rfl, fun htrue => ?_⟩
    · rw [hroutes.eq_none hterminals hany, hout]
      rfl
    · rw [hcollect] at htrue
      cases htrue
  · obtain ⟨y, hv, h⟩ := bind_ok_iff.mp h
    obtain ⟨hemits, hbuilt⟩ := hvisit _ y hv
    cases h
    by_cases hterminals : collectTerminals nodes = []
    · refine ⟨hemits.trans (none (fun i remainder hroutes => ?_) ?_), fun hcollect => ?_⟩
      · exact endMatch_eq_nil hroutes hterminals path captured
      · rw [hterminals]
        rfl
      · exact hbuilt (by rw [hcollect]; rfl)
    · have hne : (collectTerminals nodes).isEmpty = false := isEmpty_eq_false_iff.mpr hterminals
      have hy : y.1 = captured := hbuilt (by rw [hne, Bool.not_false, Bool.or_true])
      refine ⟨hemits.trans ?_, fun _ => hy⟩
      rw [hne, hy]
      exact capture hplain path

end Emits

theorem built_plain (v : Value N) (path : Text) (hraw : raw = false)
    (h : (built p r raw v).alreadyRedacted = false) :
    (redactJsonValueInner p r (built p r raw v).value path).1 = (built p r raw v).value := by
  subst hraw
  cases v with
  | null | bool b | number n => rfl
  | string s =>
    rw [built, builtString] at h
    split at h <;> cases h
  | array items =>
    rw [built, ArrayBuilder.finish] at h
    split at h <;> cases h
  | object members =>
    rw [built, ObjectBuilder.finish] at h
    split at h <;> cases h

theorem capturedString_eq (value path : Text) (st : ExtractionState N) :
    ∃ records, capturedString p r raw value path st =
      (builtString p raw (shownText p r raw value), st.collectRedactions records) := by
  have hfst := redactStringInner_fst (p := p) (r := r) value path []
  unfold capturedString builtString shownText
  dsimp only
  cases raw with
  | true =>
    refine ⟨[], ?_⟩
    simp only [if_true]
    split <;> rfl
  | false =>
    refine ⟨(redactStringInner p r value path).2, ?_⟩
    simp only [Bool.false_eq_true, if_false, hfst]
    split <;> rfl

theorem sensitiveValue_eq {w : Value N} (h : sensitiveValue depth v = .ok w) : w = emptied v := by
  cases v with
  | object xs | array xs =>
    obtain ⟨_, -, h⟩ := bind_ok_iff.mp h
    obtain ⟨_, -, h⟩ := bind_ok_iff.mp h
    cases h
    rfl
  | null | bool b | number n | string s => cases h; rfl

variable {st : ExtractionState N}

theorem sensitiveValueSeed_eq {y : CapturedValue N × ExtractionState N}
    (hhidden : hides p r raw key = true)
    (h : sensitiveValueSeed p r key path depth v st = .ok y) :
    y.1 = builtSensitive p r key v ∧ y.2.bare = st.bare := by
  have hname : isSensitiveName p r (chars key) = true := by
    rw [hides, Bool.and_eq_true] at hhidden
    exact hhidden.2
  obtain ⟨w, hs, h⟩ := bind_ok_iff.mp h
  cases h
  have hvalue : ((redactJsonField p r key w path).getD (w, [])).1 = hiddenValue p r key v := by
    rw [sensitiveValue_eq hs, redactJsonField_emptied, redactJsonField_hidden hname]
  refine ⟨?_, rfl⟩
  show CapturedValue.mk _ _ _ _ _ _ = _
  rw [hvalue]
  rfl

theorem occurrences_none (v : Value N) (place : Text) : occurrences p r raw v none place = [] := by
  induction v using Value.ind
    (I := fun items => ∀ index place, itemOccurrences p r raw items index none place = [])
    (M := fun members => ∀ place, memberOccurrences p r raw members none place = [])
    generalizing place with
  | null | bool b | number n | string s | nil | noMembers => rfl
  | array xs ih | object xs ih =>
    rw [occurrences, ih]
    rfl
  | cons v vs ihv ih index place =>
    rw [itemOccurrences, ih]
    exact congrArg (· ++ []) (ihv _)
  | member k v ms ihv ih place =>
    rw [memberOccurrences, memberOccurrence, ih, append_nil]
    split
    · rfl
    · exact ihv _

theorem captureSeed_scalar {skip : Except Text Unit} {visited : CapturedValue N × ExtractionState N}
    (hfst : visited.1 = built p r raw v) (hsnd : visited.2.bare = st.bare)
    (h : captureSeed p r raw nodes path collectAll skip (fun _ => .ok visited) st = .ok x) :
    Emits p nodes (fun remainder => endMatch remainder path (built p r raw v)) st x.2 ∧
      (collectAll = true → x.1 = built p r raw v) := by
  have hvisit : ∀ (build : Bool) y, (fun _ => .ok visited : Bool → Except Text _) build = .ok y →
      Emits p nodes (fun _ => []) st y.2 ∧ (build = true → y.1 = built p r raw v) := by
    rintro build y hy
    cases hy
    exact ⟨.none (fun _ _ _ => rfl) hsnd, fun _ => hfst⟩
  exact Emits.captureSeed (fun path => built_plain v path) rfl hvisit h

theorem captureValue_emits (v : Value N) {x : CapturedValue N × ExtractionState N}
    (h : captureValue p r raw v nodes path collectAll depth st = .ok x) :
    Emits p nodes (fun remainder => occurrences p r raw v remainder path) st x.2 ∧
      (collectAll = true → x.1 = built p r raw v) := by
  induction v using Value.ind
    (I := fun items => ∀ {index nodes path build depth b st x},
      captureItems p r raw items index nodes path build depth b st = .ok x →
      Emits p nodes (fun remainder => itemOccurrences p r raw items index remainder path) st x.2 ∧
        (build = true → x.1 = builtItems p r raw items index b))
    (M := fun members => ∀ {nodes path build depth b st x},
      captureMembers p r raw members nodes path build depth b st = .ok x →
      Emits p nodes (fun remainder => memberOccurrences p r raw members remainder path) st x.2 ∧
        (build = true → x.1 = builtMembers p r raw members b))
    generalizing nodes path collectAll depth st x with
  | null | bool b | number n =>
    rw [captureValue] at h
    exact captureSeed_scalar rfl rfl h
  | string s =>
    have hstring : ∃ records, capturedString p r raw (chars s) path st =
        (built p r raw (.string s), st.collectRedactions records) := capturedString_eq _ _ _
    obtain ⟨records, hrecords⟩ := hstring
    rw [captureValue, hrecords] at h
    exact captureSeed_scalar rfl rfl h
  | array items ih =>
    rw [captureValue] at h
    refine Emits.captureSeed (fun path => built_plain (.array items) path)
      (append_eq_nil_iff.mp (occurrences_none (.array items) path)).1 (fun build y hy => ?_) h
    obtain ⟨_, -, hy⟩ := bind_ok_iff.mp hy
    obtain ⟨z, hc, hy⟩ := bind_ok_iff.mp hy
    cases hy
    obtain ⟨hemits, hbuilt⟩ := ih hc
    refine ⟨hemits, fun hbuild => ?_⟩
    rw [hbuilt hbuild, if_pos hbuild, built]
  | object members ih =>
    rw [captureValue] at h
    refine Emits.captureSeed (fun path => built_plain (.object members) path)
      (append_eq_nil_iff.mp (occurrences_none (.object members) path)).1 (fun build y hy => ?_) h
    obtain ⟨_, -, hy⟩ := bind_ok_iff.mp hy
    obtain ⟨z, hc, hy⟩ := bind_ok_iff.mp hy
    cases hy
    obtain ⟨hemits, hbuilt⟩ := ih hc
    refine ⟨hemits, fun hbuild => ?_⟩
    rw [hbuilt hbuild, if_pos hbuild, built]
  | nil h | noMembers h =>
    cases h
    exact ⟨.none (fun _ _ _ => rfl) rfl, fun _ => rfl⟩
  | @cons item items ihv ih index nodes path build depth b st x h =>
    rw [captureItems] at h
    by_cases hskip : (!build && (collectTerminals (childNodesForIndex nodes index)).isEmpty &&
        !(childNodesForIndex nodes index).any PathNode.hasRoutes) = true
    · rw [if_pos hskip] at h
      simp only [Bool.and_eq_true, Bool.not_eq_true', List.isEmpty_iff] at hskip
      obtain ⟨⟨hbuild, hterminals⟩, hroutes⟩ := hskip
      obtain ⟨_, -, h⟩ := bind_ok_iff.mp h
      have hitem : Emits p nodes (fun remainder => occurrences p r raw item
          (remainderIndex index remainder) (indexPath path index)) st st := by
        refine .none (fun i remainder hr => ?_) rfl
        rw [(hr.index index).eq_none hterminals hroutes]
        exact occurrences_none item _
      refine ⟨hitem.trans (ih h).1, fun htrue => ?_⟩
      rw [hbuild] at htrue
      cases htrue
    · rw [if_neg hskip] at h
      obtain ⟨y, hc, h⟩ := bind_ok_iff.mp h
      obtain ⟨hitem, hbuiltItem⟩ := ihv hc
      obtain ⟨hrest, hbuiltRest⟩ := ih h
      refine ⟨hitem.of_index.trans hrest, fun hbuild => ?_⟩
      rw [hbuiltRest hbuild, if_pos hbuild, hbuiltItem (by rw [hbuild]; rfl), builtItems]
  | @member k v members ihv ih nodes path build depth b st x h =>
    obtain ⟨z, hc, h⟩ := bind_ok_iff.mp h
    obtain ⟨hrest, hbuiltRest⟩ := ih h
    -- The member alone: it is skipped, hidden, or visited.
    suffices hmember : Emits p nodes
        (fun remainder => memberOccurrence p r raw (k, v) remainder path) st z.2 ∧
        (build = true → z.1 = builtMember p r raw (k, v) b) by
      refine ⟨hmember.1.trans hrest, fun hbuild => ?_⟩
      rw [hbuiltRest hbuild, hmember.2 hbuild, builtMembers]
    clear h hrest hbuiltRest
    rw [captureMember] at hc
    dsimp only at hc
    by_cases hskip : (!build && (collectTerminals (childNodesForKey nodes k)).isEmpty &&
        !(childNodesForKey nodes k).any PathNode.hasRoutes) = true
    · rw [if_pos hskip] at hc
      simp only [Bool.and_eq_true, Bool.not_eq_true', List.isEmpty_iff] at hskip
      obtain ⟨⟨hbuild, hterminals⟩, hroutes⟩ := hskip
      obtain ⟨_, -, hc⟩ := bind_ok_iff.mp hc
      cases hc
      refine ⟨.none (fun i remainder hr => ?_) rfl, fun htrue => ?_⟩
      · have hnone := (hr.key k).eq_none hterminals hroutes
        rw [memberOccurrence, hnone]
        split
        · rfl
        · exact occurrences_none v _
      · rw [hbuild] at htrue
        cases htrue
    rw [if_neg hskip] at hc
    -- The name decides as in `hides`.
    rw [← hides.eq_def] at hc
    by_cases hhidden : hides p r raw k = true
    · rw [if_pos hhidden] at hc
      obtain ⟨y, hs, hc⟩ := bind_ok_iff.mp hc
      cases hc
      obtain ⟨hy, hbare⟩ := sensitiveValueSeed_eq hhidden hs
      refine ⟨?_, fun hbuild => ?_⟩
      · have hkey : Emits p (childNodesForKey nodes k)
            (fun remainder => endMatch remainder (appendKeyPath path k) (builtSensitive p r k v)) st
            (if (collectTerminals (childNodesForKey nodes k)).isEmpty then y.2
              else y.2.captureSensitive p (collectTerminals (childNodesForKey nodes k))
                (appendKeyPath path k) y.1) := by
          refine .pushAll _ _ ?_
          rw [hy, pushAll_eq, bare_pushes, ← hbare]
          split
          next hempty =>
            rw [List.isEmpty_iff.mp hempty]
            rfl
          next =>
            rw [ExtractionState.captureSensitive, pushAll_eq, bare_pushes]
            rfl
        simpa only [memberOccurrence, if_pos hhidden] using hkey.of_key
      · rw [if_pos hbuild, hy, builtMember, if_pos hhidden]
    · rw [if_neg hhidden] at hc
      obtain ⟨y, hvisit, hc⟩ := bind_ok_iff.mp hc
      cases hc
      obtain ⟨hvalue, hbuilt⟩ := ihv hvisit
      refine ⟨?_, fun hbuild => ?_⟩
      · have hkey := hvalue.of_key
        simpa only [memberOccurrence, if_neg hhidden] using hkey
      · rw [if_pos hbuild, hbuilt (by rw [hbuild]; rfl), builtMember, if_neg hhidden]

end AiProxy.Mcp
