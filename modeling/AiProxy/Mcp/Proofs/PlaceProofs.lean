import AiProxy.Mcp.Proofs.BuiltProofs
import AiProxy.Mcp.Proofs.PathTextProofs
import Mathlib.Data.List.Sigma

/-!
# The places that paths reach

Different places in a document without repeated names have different texts.
-/

namespace AiProxy.Mcp

open List
open Json (Bytes Value)
variable {N : Type} {members : List (Bytes × Value N)}

theorem mem_placedMatches_cons {segment : JsonPathSegment} {path : List JsonPathSegment} {v : Value N}
    {place : Text} {x : Text × Value N} (h : x ∈ placedMatches (segment :: path) v place) :
    ∃ child step, x ∈ placedMatches path child (place ++ step) ∧ (∀ rest, Continues (step ++ rest)) ∧
      (segment ≠ .wildcard → step = renderSegment segment) ∧
      ((∃ members, v = .object members ∧ ∃ m ∈ members, m.2 = child) ∨
        ∃ items, v = .array items ∧ child ∈ items) := by
  cases v with
  | object members =>
    rw [placedMatches, mem_flatMap] at h
    obtain ⟨m, hm, hx⟩ := h
    split at hx
    · next hselects =>
      rw [appendKeyPath_eq] at hx
      refine ⟨m.2, _, hx, continues_appendKeyPath m.1, fun hsegment => ?_, .inl ⟨_, rfl, m, hm, rfl⟩⟩
      cases segment with
      | key key => rw [← of_decide_eq_true hselects, renderSegment]
      | index index => cases hselects
      | wildcard => exact absurd rfl hsegment
    · cases hx
  | array items =>
    rw [placedMatches, mem_flatMap] at h
    obtain ⟨y, hy, hx⟩ := h
    split at hx
    · next hselects =>
      have hitem := mem_of_getElem? (mem_zipIdx_iff_getElem?.mp hy)
      rw [indexPath_eq] at hx
      refine ⟨y.1, _, hx, continues_indexPath y.2, fun hsegment => ?_, .inr ⟨_, rfl, hitem⟩⟩
      cases segment with
      | key key => cases hselects
      | index index => rw [← of_decide_eq_true hselects, renderSegment]
      | wildcard => exact absurd rfl hsegment
    · cases hx
  | null | bool b | number n | string s => cases h

theorem place_of_mem : ∀ (path : List JsonPathSegment) {v : Value N} {place : Text}
    {x : Text × Value N}, x ∈ placedMatches path v place →
      ∃ rest, x.1 = place ++ rest ∧ Continues rest ∧
        (.wildcard ∉ path → rest = path.flatMap renderSegment) := by
  intro path
  induction path with
  | nil =>
    intro v place x hx
    rw [mem_singleton.mp hx]
    exact ⟨[], (append_nil _).symm, by rintro c ⟨⟩, fun _ => rfl⟩
  | cons segment path ih =>
    intro v place x hx
    obtain ⟨child, step, hx, hstep, hsegment, -⟩ := mem_placedMatches_cons hx
    obtain ⟨rest, hrest, -, htext⟩ := ih hx
    refine ⟨step ++ rest, by rw [hrest, append_assoc], hstep rest, fun hpath => ?_⟩
    rw [mem_cons, not_or] at hpath
    rw [htext hpath.2, hsegment (Ne.symm hpath.1), flatMap_cons]

theorem forall_mem_of_cons {α : Type} {Each : List α → Prop} {P : α → Prop}
    (hcons : ∀ a l, Each (a :: l) → P a ∧ Each l) {l : List α} (h : Each l) : ∀ a ∈ l, P a := by
  induction l with
  | nil => exact forall_mem_nil _
  | cons b l ih => exact forall_mem_cons.mpr ⟨(hcons b l h).1, ih (hcons b l h).2⟩

theorem mem_textualItems {items : List (Value N)} (h : TextualItems items) :
    ∀ v ∈ items, Textual v := forall_mem_of_cons (fun _ _ h => h) h

theorem mem_textualMembers (h : TextualMembers members) :
    ∀ m ∈ members, IsText m.1 ∧ Textual m.2 := by
  refine forall_mem_of_cons ?_ h
  rintro ⟨k, v⟩ ms h
  exact h

theorem mem_uniqueNamesItems {items : List (Value N)} (h : UniqueNamesItems items) :
    ∀ v ∈ items, UniqueNames v := forall_mem_of_cons (fun _ _ h => h) h

theorem mem_uniqueNamesMembers (h : UniqueNamesMembers members) :
    ∀ m ∈ members, UniqueNames m.2 := by
  refine forall_mem_of_cons ?_ h
  rintro ⟨k, v⟩ ms h
  exact h

theorem disjoint_places {path : List JsonPathSegment} {v w : Value N} {place place' : Text} {a b : Bool}
    (h : ∀ s t, Continues s → Continues t → place' ++ t ≠ place ++ s) :
    List.Disjoint ((if a then placedMatches path v place else []).map (·.1))
      ((if b then placedMatches path w place' else []).map (·.1)) := by
  intro x hx hy
  split at hx
  · split at hy
    · obtain ⟨m, hm, hmx⟩ := mem_map.mp hx
      obtain ⟨n, hn, hnx⟩ := mem_map.mp hy
      obtain ⟨s, hs, hcs, -⟩ := place_of_mem path hm
      obtain ⟨t, ht, hct, -⟩ := place_of_mem path hn
      exact h s t hcs hct (by rw [← hs, ← ht, hmx, hnx])
    · cases hy
  · cases hx

theorem nodup_places : ∀ (path : List JsonPathSegment) {v : Value N} (place : Text),
    UniqueNames v → Textual v → ((placedMatches path v place).map (·.1)).Nodup := by
  intro path
  induction path with
  | nil =>
    intro v place _ _
    exact nodup_singleton _
  | cons segment path ih =>
    intro v place hunique htext
    cases v with
    | object members =>
      rw [placedMatches, map_flatMap, nodup_flatMap]
      refine ⟨fun m hm => ?_, ?_⟩
      · split
        · exact ih _ (mem_uniqueNamesMembers hunique.2 m hm) (mem_textualMembers htext m hm).2
        · exact nodup_nil
      · have hnames : members.Pairwise fun m n => m.1 ≠ n.1 := pairwise_map.mp hunique.1
        refine hnames.imp_of_mem fun {m n} hm hn hne => ?_
        refine disjoint_places fun s t hs ht hst => hne ?_
        rw [appendKeyPath_eq place, appendKeyPath_eq place, append_assoc, append_assoc] at hst
        have hkeys := (appendKeyPath_inj (append_cancel_left hst) ht hs).1
        rw [← (mem_textualMembers htext m hm).1, ← (mem_textualMembers htext n hn).1, hkeys]
    | array items =>
      rw [placedMatches, map_flatMap, nodup_flatMap]
      refine ⟨fun x hx => ?_, ?_⟩
      · have hitem : x.1 ∈ items := by
          have := mem_zipIdx_iff_getElem?.mp hx
          exact mem_of_getElem? this
        split
        · exact ih _ (mem_uniqueNamesItems hunique x.1 hitem) (mem_textualItems htext x.1 hitem)
        · exact nodup_nil
      · have hindices : items.zipIdx.Pairwise fun x y => x.2 ≠ y.2 :=
          pairwise_map.mp (nodup_zipIdx_map_snd items)
        refine hindices.imp fun {x y} hne => disjoint_places fun s t _ _ hst => hne ?_
        rw [indexPath_eq place, indexPath_eq place, append_assoc, append_assoc] at hst
        exact (indexPath_inj (append_cancel_left hst)).1.symm
    | null | bool b | number n | string s => exact nodup_nil

end AiProxy.Mcp
