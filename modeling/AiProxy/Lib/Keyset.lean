import Mathlib.Data.List.Sort

/-!
# Keyset pagination

The rows of a query in the order of a comparison, and pages of them: a page begins after the last row
of the page before. When no two rows compare equal, the rows after a row of the result are the rows
that compare greater, so the pages together are the result (`follow_eq`).
-/

namespace AiProxy.Keyset

open List

variable {α κ ε : Type}

section OrderBy

variable (cmp : α → α → Ordering)
variable {rows : List α}

/-- `ORDER BY` -/
def orderBy (rows : List α) : List α := rows.insertionSort fun a b => (cmp a b).isLE = true

def Distinct (rows : List α) : Prop := ∀ a ∈ rows, ∀ b ∈ rows, cmp a b = .eq → a = b

variable {cmp}

theorem orderBy_perm (rows : List α) : (orderBy cmp rows).Perm rows := perm_insertionSort _ _

theorem mem_orderBy {a : α} : a ∈ orderBy cmp rows ↔ a ∈ rows := mem_insertionSort _

variable [Std.TransCmp cmp]

theorem orderBy_pairwise (rows : List α) :
    (orderBy cmp rows).Pairwise fun a b => (cmp a b).isLE = true := by
  have : Std.Total fun a b => (cmp a b).isLE = true := by
    refine ⟨fun a b => ?_⟩
    have hswap : cmp b a = (cmp a b).swap := Std.OrientedCmp.eq_swap
    rw [hswap]
    cases cmp a b with
    | lt | eq => exact .inl rfl
    | gt => exact .inr rfl
  have : IsTrans α fun a b => (cmp a b).isLE = true := ⟨fun _ _ _ => Std.TransCmp.isLE_trans⟩
  exact pairwise_insertionSort _ rows

theorem orderBy_filter (hd : Distinct cmp rows) (q : α → Bool) :
    orderBy cmp (rows.filter q) = (orderBy cmp rows).filter q := by
  refine List.Perm.eq_of_pairwise (fun a b ha hb hab hba => ?_) (orderBy_pairwise _)
    ((orderBy_pairwise rows).filter q) ((orderBy_perm _).trans ((orderBy_perm rows).filter q).symm)
  have ha' := mem_of_mem_filter (mem_orderBy.mp ha)
  have hb' := mem_orderBy.mp (mem_of_mem_filter hb)
  have hswap : cmp b a = (cmp a b).swap := Std.OrientedCmp.eq_swap
  rw [hswap] at hba
  refine hd a ha' b hb' ?_
  cases hcmp : cmp a b with
  | lt => rw [hcmp] at hba; cases hba
  | eq => rfl
  | gt => rw [hcmp] at hab; cases hab

theorem filter_eq_nil_of_isLE {before : List α} {c : α} (h : ∀ a ∈ before, (cmp a c).isLE = true) :
    before.filter (fun a => cmp c a == .lt) = [] := by
  rw [filter_eq_nil_iff]
  intro a ha hlt
  have hle := h a ha
  have hswap : cmp a c = (cmp c a).swap := Std.OrientedCmp.eq_swap
  rw [hswap, beq_iff_eq.mp hlt] at hle
  cases hle

theorem orderBy_after {before after : List α} {c : α} (hd : Distinct cmp rows) (hnodup : rows.Nodup)
    (h : orderBy cmp rows = before ++ c :: after) :
    orderBy cmp (rows.filter fun a => cmp c a == .lt) = after := by
  have hsorted : (orderBy cmp rows).Pairwise fun a b => (cmp a b).isLE = true :=
    orderBy_pairwise rows
  have hresult : (orderBy cmp rows).Nodup := (orderBy_perm rows).nodup_iff.mpr hnodup
  rw [h] at hsorted hresult
  obtain ⟨-, hafter, hbefore⟩ := pairwise_append.mp hsorted
  have hmem : ∀ a ∈ before ++ c :: after, a ∈ rows := fun a ha => mem_orderBy.mp (h ▸ ha)
  have hc : c ∈ rows := hmem c (mem_append_right _ mem_cons_self)
  have hself : cmp c c = .eq := Std.ReflCmp.compare_self
  have hgreater : ∀ a ∈ after, (cmp c a == .lt) = true := by
    intro a ha
    have hle := rel_of_pairwise_cons hafter ha
    have hne : cmp c a ≠ .eq := by
      intro heq
      have hsame := hd c hc a (hmem a (mem_append_right _ (mem_cons_of_mem c ha))) heq
      have hnotin := (nodup_cons.mp (nodup_append.mp hresult).2.1).1
      exact hnotin (hsame ▸ ha)
    cases hcmp : cmp c a with
    | lt => rfl
    | eq => exact absurd hcmp hne
    | gt => rw [hcmp] at hle; cases hle
  rw [orderBy_filter hd, h, filter_append,
    filter_eq_nil_of_isLE fun a ha => hbefore a ha c mem_cons_self, nil_append,
    filter_cons_of_neg (by rw [hself]; decide), filter_eq_self.mpr hgreater]

end OrderBy

/-- A page of a result, with the cursor of the next page. -/
structure Page (α κ : Type) where
  items : List α
  nextCursor : Option κ

/-- The pages from a cursor on, up to the one without a next cursor; `none` when `fuel` requests are
not enough. -/
def follow (fetch : Option κ → Except ε (Page α κ)) :
    Nat → Option κ → Except ε (Option (List (List α)))
  | 0, _ => .ok none
  | fuel + 1, cursor => do
    let page ← fetch cursor
    match page.nextCursor with
    | none => .ok (some [page.items])
    | some next => (follow fetch fuel (some next)).map (Option.map (page.items :: ·))

section Follow

variable {fetch : Option κ → Except ε (Page α κ)} {cursor : Option κ}

theorem follow_last {items : List α} (h : fetch cursor = .ok ⟨items, none⟩) (fuel : Nat) :
    follow fetch (fuel + 1) cursor = .ok (some [items]) := by
  rw [follow, h]
  rfl

theorem follow_next {items : List α} {next : κ} (h : fetch cursor = .ok ⟨items, some next⟩)
    (fuel : Nat) : follow fetch (fuel + 1) cursor =
      (follow fetch fuel (some next)).map (Option.map (items :: ·)) := by
  rw [follow, h]
  rfl

theorem follow_error {e : ε} (h : fetch cursor = .error e) (fuel : Nat) :
    follow fetch (fuel + 1) cursor = .error e := by
  rw [follow, h]
  rfl

end Follow

/-- A request answers with the first rows of what remains, and with a cursor for the others exactly
when there are others. -/
structure Pages (fetch : Option κ → Except ε (Page α κ)) (size : Nat)
    (Remains : Option κ → List α → Prop) : Prop where
  pos : 0 < size
  last : ∀ {cursor rest}, Remains cursor rest → rest.length ≤ size →
    fetch cursor = .ok ⟨rest, none⟩
  cut : ∀ {cursor rest}, Remains cursor rest → size < rest.length →
    ∃ next, fetch cursor = .ok ⟨rest.take size, some next⟩ ∧ Remains (some next) (rest.drop size)

theorem follow_eq {fetch : Option κ → Except ε (Page α κ)} {size : Nat}
    {Remains : Option κ → List α → Prop} (h : Pages fetch size Remains) (fuel : Nat) :
    ∀ {cursor rest}, Remains cursor rest → rest.length < fuel →
      ∃ pages, follow fetch fuel cursor = .ok (some pages) ∧ pages.flatten = rest ∧
        ∀ page ∈ pages, page.length ≤ size := by
  induction fuel with
  | zero => intro _ rest _ hlt; exact absurd hlt (Nat.not_lt_zero _)
  | succ fuel ih =>
    intro cursor rest hremains hlt
    by_cases hle : rest.length ≤ size
    · refine ⟨[rest], ?_, append_nil _, fun page hpage => ?_⟩
      · exact follow_last (h.last hremains hle) fuel
      · rwa [mem_singleton.mp hpage]
    · obtain ⟨next, hfetch, hrest⟩ := h.cut hremains (lt_of_not_ge hle)
      have hpos := h.pos
      have hshorter : (rest.drop size).length < fuel := by rw [length_drop]; omega
      obtain ⟨pages, hpages, hflat, hsizes⟩ := ih hrest hshorter
      refine ⟨rest.take size :: pages, ?_, ?_, ?_⟩
      · rw [follow_next hfetch, hpages]
        rfl
      · rw [flatten_cons, hflat, take_append_drop]
      · exact forall_mem_cons.mpr ⟨length_take_le _ _, hsizes⟩

end AiProxy.Keyset
