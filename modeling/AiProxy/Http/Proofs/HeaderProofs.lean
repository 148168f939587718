import AiProxy.Http.Headers
import Mathlib.Data.List.Perm.Basic

/-!
# Header maps

The laws of `HeaderMap`: what a lookup finds after a header was added or removed, and that adding the
headers of a map one after the other gives the map again.
-/

namespace AiProxy.Http.HeaderMap

open List

variable {m : HeaderMap}
variable {headers : List (HeaderName × HeaderValue)} {header : HeaderName × HeaderValue}

theorem wf_new : WF new := ⟨nodup_nil, fun _ h => nomatch h⟩

/-! ## Adding -/

theorem getAll_cons (n : HeaderName) (vs : List HeaderValue) (m : HeaderMap) (name : HeaderName) :
    getAll ((n, vs) :: m) name = if n = name then vs else m.getAll name := by
  unfold getAll
  rw [find?_cons]
  by_cases h : n = name
  · simp only [h, decide_true, if_true]
  · simp only [h, decide_false, if_false]

theorem getAll_append (m : HeaderMap) (name : HeaderName) (value : HeaderValue)
    (name' : HeaderName) :
    (m.append name value).getAll name'
      = if name = name' then m.getAll name' ++ [value] else m.getAll name' := by
  induction m with
  | nil =>
    rw [append, getAll_cons]
    rfl
  | cons b m ih =>
    obtain ⟨n, vs⟩ := b
    rw [append]
    by_cases hn : n = name
    · rw [if_pos hn, getAll_cons, getAll_cons, hn]
      split <;> rfl
    · rw [if_neg hn, getAll_cons, getAll_cons, ih]
      by_cases hn' : n = name'
      · have hne : name ≠ name' := fun h => hn (hn'.trans h.symm)
        rw [if_pos hn', if_pos hn', if_neg hne]
      · rw [if_neg hn', if_neg hn']

theorem names_append (m : HeaderMap) (name : HeaderName) (value : HeaderValue) :
    (m.append name value).names = if name ∈ m.names then m.names else m.names ++ [name] := by
  induction m with
  | nil => rfl
  | cons b m ih =>
    obtain ⟨n, vs⟩ := b
    rw [append]
    by_cases hn : n = name
    · have hmem : name ∈ names ((n, vs) :: m) := by
        rw [names, hn]
        exact mem_cons_self
      rw [if_pos hn, if_pos hmem]
      rfl
    · have hmem : name ∈ names ((n, vs) :: m) ↔ name ∈ names m := by
        rw [names, map_cons, mem_cons]
        exact ⟨fun h => h.resolve_left fun h => hn h.symm, .inr⟩
      rw [if_neg hn, names, map_cons]
      rw [names] at ih
      simp only [ih, hmem]
      split <;> rfl

theorem values_append (h : ∀ b ∈ m, b.2 ≠ []) (name : HeaderName)
    (value : HeaderValue) : ∀ b ∈ m.append name value, b.2 ≠ [] := by
  induction m with
  | nil =>
    intro b hb
    rw [append, mem_singleton] at hb
    rw [hb]
    exact cons_ne_nil _ _
  | cons c m ih =>
    rw [forall_mem_cons] at h
    rw [append]
    split
    · exact forall_mem_cons.mpr ⟨append_ne_nil_of_right_ne_nil _ (cons_ne_nil _ _), h.2⟩
    · exact forall_mem_cons.mpr ⟨h.1, ih h.2⟩

theorem WF.append (h : m.WF) (name : HeaderName) (value : HeaderValue) :
    (m.append name value).WF := by
  refine ⟨?_, values_append h.values name value⟩
  rw [names_append]
  split
  · exact h.nodup
  · next hmem =>
    refine nodup_append.mpr ⟨h.nodup, nodup_singleton _, ?_⟩
    intro a ha b hb hab
    rw [mem_singleton] at hb
    exact hmem (hb ▸ hab ▸ ha)

theorem WF.appendAll (h : m.WF) (headers : List (HeaderName × HeaderValue)) :
    (m.appendAll headers).WF := by
  induction headers generalizing m with
  | nil => exact h
  | cons header headers ih => exact ih (h.append header.1 header.2)

theorem getAll_appendAll (m : HeaderMap) (headers : List (HeaderName × HeaderValue))
    (name : HeaderName) :
    (m.appendAll headers).getAll name
      = m.getAll name ++ (headers.filter fun header => header.1 = name).map Prod.snd := by
  induction headers generalizing m with
  | nil => exact (append_nil _).symm
  | cons header headers ih =>
    show ((m.append header.1 header.2).appendAll headers).getAll name = _
    rw [ih, getAll_append, filter_cons]
    by_cases hname : header.1 = name
    · simp only [hname, decide_true, if_true, map_cons, append_assoc, cons_append, nil_append]
    · simp only [hname, decide_false, Bool.false_eq_true, if_false]

theorem getAll_appendAll_filter (headers : List (HeaderName × HeaderValue))
    (p : HeaderName → Bool) (name : HeaderName) :
    (new.appendAll (headers.filter fun header => p header.1)).getAll name
      = if p name then (new.appendAll headers).getAll name else [] := by
  rw [getAll_appendAll, getAll_appendAll, filter_filter]
  have hnew : getAll new name = [] := rfl
  rw [hnew, nil_append]
  split
  · next hp =>
    congr 1
    refine filter_congr fun header _ => ?_
    by_cases hname : header.1 = name
    · rw [hname, hp, Bool.and_true]
    · rw [decide_eq_false hname, Bool.false_and]
  · next hp =>
    rw [map_eq_nil_iff, filter_eq_nil_iff]
    intro header _ hboth
    rw [Bool.and_eq_true, decide_eq_true_eq] at hboth
    exact hp (hboth.1 ▸ hboth.2)

theorem appendAll_cons_of_ne (n : HeaderName) (vs : List HeaderValue) (m : HeaderMap)
    (h : ∀ header ∈ headers, header.1 ≠ n) :
    appendAll ((n, vs) :: m) headers = (n, vs) :: m.appendAll headers := by
  induction headers generalizing m with
  | nil => rfl
  | cons header headers ih =>
    rw [forall_mem_cons] at h
    have hstep : append ((n, vs) :: m) header.1 header.2
        = (n, vs) :: m.append header.1 header.2 := by
      rw [append, if_neg (Ne.symm h.1)]
    show appendAll (append ((n, vs) :: m) header.1 header.2) headers = _
    rw [hstep, ih _ h.2]
    rfl

theorem appendAll_same (n : HeaderName) (vs vs' : List HeaderValue) :
    appendAll [(n, vs)] (vs'.map fun v => (n, v)) = [(n, vs ++ vs')] := by
  induction vs' generalizing vs with
  | nil => rw [append_nil]; rfl
  | cons v vs' ih =>
    have hstep : append [(n, vs)] n v = [(n, vs ++ [v])] := if_pos rfl
    show appendAll (append [(n, vs)] n v) (vs'.map fun v => (n, v)) = _
    rw [hstep, ih, append_assoc]
    rfl

theorem appendAll_append (m : HeaderMap) (headers headers' : List (HeaderName × HeaderValue)) :
    m.appendAll (headers ++ headers') = (m.appendAll headers).appendAll headers' := foldl_append

theorem iter_cons (n : HeaderName) (vs : List HeaderValue) (m : HeaderMap) :
    iter ((n, vs) :: m) = (vs.map fun v => (n, v)) ++ m.iter := rfl

theorem name_mem_of_mem_iter (h : header ∈ m.iter) : header.1 ∈ m.names := by
  obtain ⟨b, hb, hh⟩ := mem_flatMap.mp h
  obtain ⟨v, -, rfl⟩ := mem_map.mp hh
  exact mem_map_of_mem hb

theorem getAll_ne_nil_of_mem_appendAll (h : header ∈ headers) :
    (m.appendAll headers).getAll header.1 ≠ [] := by
  have hfilter : header ∈ headers.filter fun other => other.1 = header.1 :=
    mem_filter.mpr ⟨h, decide_eq_true rfl⟩
  rw [getAll_appendAll]
  exact append_ne_nil_of_right_ne_nil _
    (ne_nil_of_mem (mem_map_of_mem hfilter))

theorem mem_getAll_iff (h : m.names.Nodup) {name : HeaderName}
    {value : HeaderValue} : value ∈ m.getAll name ↔ (name, value) ∈ m.iter := by
  induction m with
  | nil => exact ⟨fun h => (nomatch h), fun h => (nomatch h)⟩
  | cons b m ih =>
    obtain ⟨n, vs⟩ := b
    have hnodup := nodup_cons.mp h
    rw [getAll_cons, iter_cons, mem_append, ← ih hnodup.2]
    by_cases hn : n = name
    · subst hn
      have hnone : value ∉ getAll m n := fun hmem =>
        hnodup.1 (name_mem_of_mem_iter ((ih hnodup.2).mp hmem))
      rw [if_pos rfl]
      simp only [mem_map, Prod.mk.injEq, true_and, exists_eq_right, hnone, or_false]
    · rw [if_neg hn]
      simp only [mem_map, Prod.mk.injEq, hn, false_and, and_false, exists_false, false_or]

theorem appendAll_iter (h : m.WF) : new.appendAll m.iter = m := by
  induction m with
  | nil => rfl
  | cons b m ih =>
    obtain ⟨n, vs⟩ := b
    have hnodup := nodup_cons.mp h.nodup
    have hwf : WF m := ⟨hnodup.2, fun b hb => h.values b (mem_cons_of_mem _ hb)⟩
    obtain ⟨v, vs, rfl⟩ := exists_cons_of_ne_nil (h.values (n, vs) mem_cons_self)
    have hbucket : new.appendAll ((v :: vs).map fun v => (n, v)) = [(n, v :: vs)] :=
      appendAll_same n [v] vs
    rw [iter_cons, appendAll_append, hbucket]
    have hne : ∀ header ∈ iter m, header.1 ≠ n := fun header hh hn =>
      hnodup.1 (hn ▸ name_mem_of_mem_iter hh)
    rw [appendAll_cons_of_ne n (v :: vs) [] hne]
    exact congrArg _ (ih hwf)

def keep (m : HeaderMap) (p : HeaderName → Bool) : HeaderMap := m.filter fun b => p b.1

theorem WF.keep (h : m.WF) (p : HeaderName → Bool) : (m.keep p).WF := by
  refine ⟨h.nodup.sublist (List.Sublist.map _ filter_sublist), fun b hb => ?_⟩
  exact h.values b (mem_of_mem_filter hb)

theorem keep_cons (n : HeaderName) (vs : List HeaderValue) (m : HeaderMap) (p : HeaderName → Bool) :
    keep ((n, vs) :: m) p = if p n then (n, vs) :: m.keep p else m.keep p := filter_cons

theorem iter_keep (m : HeaderMap) (p : HeaderName → Bool) :
    (m.keep p).iter = m.iter.filter fun header => p header.1 := by
  induction m with
  | nil => rfl
  | cons b m ih =>
    obtain ⟨n, vs⟩ := b
    have hconst : ((fun header : HeaderName × HeaderValue => p header.1) ∘ fun v => (n, v))
        = fun _ => p n := rfl
    rw [iter_cons, filter_append, ← ih, filter_map, hconst, keep_cons]
    cases p n with
    | true => rw [if_pos rfl, iter_cons, filter_true]
    | false => rw [if_neg Bool.false_ne_true, filter_false, map_nil, nil_append]

theorem appendAll_filter (h : m.WF) (p : HeaderName → Bool) :
    new.appendAll (m.iter.filter fun header => p header.1) = m.keep p := by
  rw [← iter_keep]
  exact appendAll_iter (h.keep p)

theorem getAll_keep (m : HeaderMap) (p : HeaderName → Bool) (name : HeaderName) :
    (m.keep p).getAll name = if p name then m.getAll name else [] := by
  induction m with
  | nil => cases p name <;> rfl
  | cons b m ih =>
    obtain ⟨n, vs⟩ := b
    rw [keep_cons]
    by_cases hn : n = name
    · subst hn
      cases hp : p n with
      | true => rw [if_pos rfl, if_pos rfl, getAll_cons, getAll_cons, if_pos rfl, if_pos rfl]
      | false =>
        rw [if_neg Bool.false_ne_true, ih, hp]
        rfl
    · rw [getAll_cons, if_neg hn, ← ih]
      split
      · rw [getAll_cons, if_neg hn]
      · rfl

theorem swapRemove_perm {α : Type*} {l : List α} {i : Nat} (h : i < l.length) :
    (swapRemove l i).Perm (l.eraseIdx i) := by
  obtain ⟨init, last, rfl⟩ : ∃ init last, l = init ++ [last] :=
    ⟨l.dropLast, l.getLast (ne_nil_of_length_pos (by omega)), (dropLast_append_getLast _).symm⟩
  rw [length_append, length_singleton] at h
  unfold swapRemove
  rw [getLast?_concat, length_append, length_singleton]
  dsimp only
  by_cases hi : i = init.length
  · subst hi
    rw [eraseIdx_append_of_length_le (Nat.le_refl _)]
    simp
  · have hlt : i < init.length := by omega
    simp only [Nat.add_right_cancel_iff, hi, if_false]
    rw [set_append_left _ _ hlt, dropLast_concat, eraseIdx_append_of_lt_length hlt]
    exact (set_perm_cons_eraseIdx hlt last).trans (perm_append_singleton _ _).symm

theorem eraseP_eq_keep (h : m.names.Nodup) (name : HeaderName) :
    m.eraseP (fun b => b.1 = name) = m.keep fun n => n ≠ name := by
  induction m with
  | nil => rfl
  | cons b m ih =>
    obtain ⟨n, vs⟩ := b
    have hnodup := nodup_cons.mp h
    rw [eraseP_cons, keep_cons]
    by_cases hn : n = name
    · simp only [hn, decide_true, cond_true, ne_eq, not_true_eq_false, decide_false,
        Bool.false_eq_true, if_false]
      refine (filter_eq_self.mpr fun b hb => ?_).symm
      have hne : b.1 ≠ name := by
        intro hname
        have hmem : b.1 ∈ names m := mem_map_of_mem hb
        rw [hname, ← hn] at hmem
        exact hnodup.1 hmem
      simpa using hne
    · simp only [hn, decide_false, cond_false, ne_eq, not_false_eq_true, decide_true, if_true]
      exact congrArg _ (ih hnodup.2)

theorem remove_perm (h : m.WF) (name : HeaderName) :
    (m.remove name).Perm (m.keep fun n => n ≠ name) := by
  rw [← eraseP_eq_keep h.nodup, eraseP_eq_eraseIdx, remove]
  split
  · next hnone => rw [hnone]
  · next i hsome =>
    rw [hsome]
    obtain ⟨hlt, -⟩ := findIdx?_eq_some_iff_getElem.mp hsome
    exact swapRemove_perm hlt

theorem getAll_perm {m' : HeaderMap} (h : m.names.Nodup) (hperm : m.Perm m')
    (name : HeaderName) : m.getAll name = m'.getAll name := by
  induction hperm with
  | nil => rfl
  | cons b _ ih =>
    rw [getAll_cons, getAll_cons, ih (nodup_cons.mp h).2]
  | swap b c l =>
    obtain ⟨n, vs⟩ := b
    obtain ⟨n', vs'⟩ := c
    have hne : n' ≠ n := fun heq => (nodup_cons.mp h).1 (heq ▸ mem_cons_self)
    rw [getAll_cons, getAll_cons, getAll_cons, getAll_cons]
    by_cases hn : n = name
    · have hn' : n' ≠ name := fun hn' => hne (hn'.trans hn.symm)
      simp only [hn, hn', if_true, if_false]
    · simp only [hn, if_false]
  | trans hab _ ih ih' =>
    exact (ih h).trans (ih' (((hab.map Prod.fst).nodup_iff).mp h))

theorem WF.of_perm {m' : HeaderMap} (h : m.WF) (hperm : m'.Perm m) : m'.WF :=
  ⟨((hperm.map Prod.fst).nodup_iff).mpr h.nodup, fun b hb => h.values b (hperm.mem_iff.mp hb)⟩

theorem WF.remove (h : m.WF) (name : HeaderName) : (m.remove name).WF :=
  (h.keep _).of_perm (remove_perm h name)

theorem getAll_remove (h : m.WF) (name name' : HeaderName) :
    (m.remove name).getAll name' = if name' = name then [] else m.getAll name' := by
  rw [getAll_perm (h.remove name).nodup (remove_perm h name), getAll_keep]
  by_cases hname : name' = name
  · simp only [hname, ne_eq, not_true_eq_false, decide_false, Bool.false_eq_true, if_false, if_true]
  · simp only [hname, ne_eq, not_false_eq_true, decide_true, if_true, if_false]

def removeAll (m : HeaderMap) (names : List HeaderName) : HeaderMap := names.foldl remove m

theorem WF.removeAll (h : m.WF) (names : List HeaderName) : (m.removeAll names).WF := by
  induction names generalizing m with
  | nil => exact h
  | cons name names ih => exact ih (h.remove name)

theorem getAll_removeAll (h : m.WF) (names : List HeaderName) (name : HeaderName) :
    (m.removeAll names).getAll name = if name ∈ names then [] else m.getAll name := by
  induction names generalizing m with
  | nil => rw [if_neg not_mem_nil]; rfl
  | cons other names ih =>
    show ((m.remove other).removeAll names).getAll name = _
    rw [ih (h.remove other), getAll_remove h]
    by_cases hname : name = other
    · have hmem : name ∈ other :: names := mem_cons.mpr (.inl hname)
      rw [if_pos hname, if_pos hmem, ite_self]
    · have hmem : name ∈ other :: names ↔ name ∈ names := by
        rw [mem_cons]
        exact ⟨fun hor => hor.resolve_left hname, .inr⟩
      rw [if_neg hname]
      simp only [hmem]

end AiProxy.Http.HeaderMap
