import AiProxy.Mcp.PathMatches

/-!
# The tree of the requested paths

A node of the tree stands for the paths that remain to be followed from it.
-/

namespace AiProxy.Mcp

open Option List
open Json (Bytes)

variable {i : Nat} {segments : List (List JsonPathSegment)} {nodes : List PathNode}
  {remainder : Option (List JsonPathSegment)}

/-- The path with this number has this remainder at a node. -/
def PathNode.Has (i : Nat) : List JsonPathSegment → PathNode → Prop
  | [], node => i ∈ node.terminals
  | .key key :: rest, node => ∃ child ∈ lookup key node.keys, Has i rest child
  | .index index :: rest, node => ∃ child ∈ lookup index node.indices, Has i rest child
  | .wildcard :: rest, node => ∃ child ∈ node.wildcard, Has i rest child

theorem PathNode.not_has_empty (i : Nat) (path : List JsonPathSegment) :
    ¬ PathNode.empty.Has i path := by
  cases path with
  | nil => exact not_mem_nil
  | cons segment rest =>
    cases segment with
    | key k | index j => exact fun ⟨_, h, _⟩ => absurd h not_mem_nil
    | wildcard => exact fun ⟨_, h, _⟩ => absurd h (not_mem_none _)

open PathNode (modifyEntry Has not_has_empty hasRoutes)

section ModifyEntry

variable {κ : Type} [DecidableEq κ]

theorem lookup_modifyEntry_self (key : κ) (f : PathNode → PathNode) (entries : List (κ × PathNode)) :
    lookup key (modifyEntry key f entries) = [f ((lookup key entries).headD .empty)] := by
  induction entries with
  | nil => simp [modifyEntry, lookup]
  | cons entry entries ih =>
    by_cases h : entry.1 = key
    · simp [modifyEntry, lookup, h]
    · rw [modifyEntry]
      simpa [lookup, h] using ih

theorem lookup_modifyEntry_ne {key key' : κ} (h : key' ≠ key) (f : PathNode → PathNode)
    (entries : List (κ × PathNode)) :
    lookup key' (modifyEntry key f entries) = lookup key' entries := by
  induction entries with
  | nil => simp [modifyEntry, lookup, h.symm]
  | cons entry entries ih =>
    by_cases hk : entry.1 = key
    · simp [modifyEntry, lookup, hk, h.symm]
    · rw [modifyEntry, if_neg hk]
      by_cases hk' : entry.1 = key'
      · simp [lookup, hk']
      · simpa [lookup, hk'] using ih

theorem has_modifyEntry {key key' : κ} {f : PathNode → PathNode} {P : Prop}
    {path : List JsonPathSegment} (hf : ∀ node, (f node).Has i path ↔ node.Has i path ∨ P)
    (entries : List (κ × PathNode)) :
    (∃ child ∈ lookup key' (modifyEntry key f entries), child.Has i path) ↔
      (∃ child ∈ lookup key' entries, child.Has i path) ∨ key' = key ∧ P := by
  by_cases h : key' = key
  · subst h
    rw [lookup_modifyEntry_self]
    have hlookup : (∃ child ∈ lookup key' entries, child.Has i path) ↔
        ((lookup key' entries).headD .empty).Has i path := by
      unfold lookup
      cases entries.find? fun entry => entry.1 = key' with
      | none => simp [not_has_empty]
      | some entry => simp
    simp [hf, hlookup]
  · rw [lookup_modifyEntry_ne h]
    simp [h]

end ModifyEntry

theorem PathNode.has_insert (i j : Nat) (path : List JsonPathSegment) :
    ∀ (inserted : List JsonPathSegment) (node : PathNode),
      (node.insert j inserted).Has i path ↔ node.Has i path ∨ i = j ∧ path = inserted := by
  intro inserted
  induction inserted generalizing path with
  | nil =>
    rintro ⟨ends, keys, indices, wildcard⟩
    rcases path with _ | ⟨_ | _ | _, rest⟩ <;> simp [insert, Has, PathNode.terminals,
      PathNode.keys, PathNode.indices, PathNode.wildcard]
  | cons segment inserted ih =>
    rintro ⟨ends, keys, indices, wildcard⟩
    -- Only a path that starts with the same kind of segment can meet the changed entry.
    cases segment with
    | key k =>
      rcases path with _ | ⟨k' | j' | _, rest⟩
      case cons.key =>
        simp only [insert, Has, PathNode.keys]
        rw [has_modifyEntry (ih rest)]
        simp only [List.cons.injEq, JsonPathSegment.key.injEq, and_left_comm]
      all_goals simp [insert, Has, PathNode.terminals, PathNode.indices, PathNode.wildcard]
    | index k =>
      rcases path with _ | ⟨k' | j' | _, rest⟩
      case cons.index =>
        simp only [insert, Has, PathNode.indices]
        rw [has_modifyEntry (ih rest)]
        simp only [List.cons.injEq, JsonPathSegment.index.injEq, and_left_comm]
      all_goals simp [insert, Has, PathNode.terminals, PathNode.keys, PathNode.wildcard]
    | wildcard =>
      rcases path with _ | ⟨k' | j' | _, rest⟩
      · simp [insert, Has, PathNode.terminals]
      · simp [insert, Has, PathNode.keys]
      · simp [insert, Has, PathNode.indices]
      · cases wildcard with
        | none => simp [insert, Has, PathNode.wildcard, ih rest, not_has_empty]
        | some node => simp [insert, Has, PathNode.wildcard, ih rest]

theorem has_buildPathTree {path : List JsonPathSegment} :
    (buildPathTree segments).Has i path ↔ segments[i]? = some path := by
  have hfold : ∀ (paths : List (List JsonPathSegment × Nat)) (root : PathNode),
      (paths.foldl (fun root path => root.insert path.2 path.1) root).Has i path ↔
        root.Has i path ∨ (path, i) ∈ paths := by
    intro paths
    induction paths with
    | nil => simp
    | cons x paths ih =>
      intro root
      rw [foldl_cons, ih, PathNode.has_insert, mem_cons, Prod.mk.injEq]
      tauto
  rw [buildPathTree, hfold, mem_zipIdx_iff_getElem?]
  simp [not_has_empty]

/-- At these nodes the path with this number has this remainder. -/
def Routes (nodes : List PathNode) (i : Nat) (remainder : Option (List JsonPathSegment)) : Prop :=
  ∀ path, (∃ node ∈ nodes, node.Has i path) ↔ remainder = some path

def remainderKey (key : Bytes) : Option (List JsonPathSegment) → Option (List JsonPathSegment)
  | some (segment :: rest) => if segment.selectsKey key then some rest else none
  | _ => none

def remainderIndex (index : Nat) : Option (List JsonPathSegment) → Option (List JsonPathSegment)
  | some (segment :: rest) => if segment.selectsIndex index then some rest else none
  | _ => none

theorem routes_root (i : Nat) : Routes [buildPathTree segments] i segments[i]? := by
  intro path
  simp [has_buildPathTree]

theorem exists_child_iff {f g : PathNode → List PathNode} {P : PathNode → Prop} :
    (∃ child ∈ nodes.flatMap fun node => f node ++ g node, P child) ↔
      (∃ node ∈ nodes, ∃ child ∈ f node, P child) ∨ ∃ node ∈ nodes, ∃ child ∈ g node, P child := by
  simp only [mem_flatMap, mem_append]
  constructor
  · rintro ⟨child, ⟨node, hnode, hc | hc⟩, hhas⟩
    · exact .inl ⟨node, hnode, child, hc, hhas⟩
    · exact .inr ⟨node, hnode, child, hc, hhas⟩
  · rintro (⟨node, hnode, child, hc, hhas⟩ | ⟨node, hnode, child, hc, hhas⟩)
    · exact ⟨child, ⟨node, hnode, .inl hc⟩, hhas⟩
    · exact ⟨child, ⟨node, hnode, .inr hc⟩, hhas⟩

theorem Routes.key (h : Routes nodes i remainder) (key : Bytes) :
    Routes (childNodesForKey nodes key) i (remainderKey key remainder) := by
  intro path
  have hchild : (∃ node ∈ childNodesForKey nodes key, node.Has i path) ↔
      (∃ node ∈ nodes, node.Has i (.key key :: path)) ∨
        ∃ node ∈ nodes, node.Has i (.wildcard :: path) := by
    simp only [childNodesForKey, exists_child_iff, mem_toList, mem_def, Has]
  rw [hchild, h, h]
  rcases remainder with _ | ⟨_ | ⟨k | j | _, rest⟩⟩ <;>
    simp [remainderKey, JsonPathSegment.selectsKey]

theorem Routes.index (h : Routes nodes i remainder) (index : Nat) :
    Routes (childNodesForIndex nodes index) i (remainderIndex index remainder) := by
  intro path
  have hchild : (∃ node ∈ childNodesForIndex nodes index, node.Has i path) ↔
      (∃ node ∈ nodes, node.Has i (.index index :: path)) ∨
        ∃ node ∈ nodes, node.Has i (.wildcard :: path) := by
    simp only [childNodesForIndex, exists_child_iff, mem_toList, mem_def, Has]
  rw [hchild, h, h]
  rcases remainder with _ | ⟨_ | ⟨k | j | _, rest⟩⟩ <;>
    simp [remainderIndex, JsonPathSegment.selectsIndex]

theorem collectTerminals_eq (nodes : List PathNode) : collectTerminals nodes =
      ((nodes.flatMap PathNode.terminals).mergeSort fun a b => decide (a ≤ b)).dedup := by
  have hsorted : ((nodes.flatMap PathNode.terminals).mergeSort fun a b => decide (a ≤ b)).Pairwise
      fun a b => decide (a ≤ b) = true :=
    pairwise_mergeSort (fun a b c hab hbc => by simp only [decide_eq_true_eq] at *; omega)
      (fun a b => by simp only [Bool.or_eq_true, decide_eq_true_eq]; omega) _
  have hle : ((nodes.flatMap PathNode.terminals).mergeSort fun a b => decide (a ≤ b)).Pairwise
      (· ≤ ·) := hsorted.imp fun h => of_decide_eq_true h
  exact hle.destutter_eq_dedup

theorem nodup_collectTerminals (nodes : List PathNode) : (collectTerminals nodes).Nodup := by
  rw [collectTerminals_eq]
  exact nodup_dedup _

theorem Routes.mem_collectTerminals (h : Routes nodes i remainder) :
    i ∈ collectTerminals nodes ↔ remainder = some [] := by
  rw [collectTerminals_eq, mem_dedup, mem_mergeSort, mem_flatMap, ← h []]
  rfl

theorem Routes.eq_none (h : Routes nodes i remainder) (hterminals : collectTerminals nodes = [])
    (hroutes : nodes.any hasRoutes = false) :
    remainder = none := by
  have hnone : ∀ node ∈ nodes, node.keys = [] ∧ node.indices = [] ∧ node.wildcard = none := by
    intro node hnode
    have := any_eq_false.mp hroutes node hnode
    simpa [hasRoutes, and_assoc] using this
  rcases remainder with _ | ⟨_ | ⟨segment, rest⟩⟩
  · rfl
  · have hmem := h.mem_collectTerminals.mpr rfl
    rw [hterminals] at hmem
    cases hmem
  · obtain ⟨node, hnode, hhas⟩ := (h (segment :: rest)).mpr rfl
    obtain ⟨hkeys, hindices, hwildcard⟩ := hnone node hnode
    cases segment with
    | key k => simp [Has, hkeys, lookup] at hhas
    | index j => simp [Has, hindices, lookup] at hhas
    | wildcard => simp [Has, hwildcard] at hhas

end AiProxy.Mcp
