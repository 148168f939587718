import Mathlib.Data.List.Nodup

/-!
# Lists with a key

A list whose elements are found by a key. `upsert` replaces the first element with the key of the new
one, or appends it; `without` removes keys; `lookup` is the first element with a key.
-/

namespace AiProxy.KeyedList

open List

variable {α κ : Type*} [DecidableEq κ] (key : α → κ)

/-- The list with the first element that has the key of `x` replaced by `x`. -/
def replace? (x : α) : List α → Option (List α)
  | [] => none
  | y :: ys => if key y = key x then some (x :: ys) else (replace? x ys).map (y :: ·)

def upsert (x : α) (xs : List α) : List α := (replace? key x xs).getD (xs ++ [x])

def upsertAll (news xs : List α) : List α := news.foldl (fun acc x => upsert key x acc) xs

def without (ks : List κ) (xs : List α) : List α := xs.filter fun x => !decide (key x ∈ ks)

def lookup (k : κ) (xs : List α) : Option α := xs.find? fun x => decide (key x = k)

variable {key} {x y : α} {xs ys news : List α} {k : κ} {ks : List κ}

theorem lookup_eq_none_iff : lookup key k xs = none ↔ k ∉ xs.map key := by
  simp [lookup]

theorem exists_lookup (h : k ∈ xs.map key) : ∃ x, lookup key k xs = some x := by
  cases hl : lookup key k xs with
  | none => exact absurd h (lookup_eq_none_iff.mp hl)
  | some x => exact ⟨x, rfl⟩

theorem lookup_cons (y : α) (ys : List α) :
    lookup key k (y :: ys) = if key y = k then some y else lookup key k ys := by
  by_cases h : key y = k
  · rw [lookup, find?_cons_of_pos (by simpa using h), if_pos h]
  · rw [lookup, find?_cons_of_neg (by simpa using h), if_neg h]
    rfl

theorem lookup_eraseIdx_of_ne {i : Nat} (h : ∀ y, xs[i]? = some y → key y ≠ k) :
    lookup key k (xs.eraseIdx i) = lookup key k xs := by
  induction xs generalizing i with
  | nil => rfl
  | cons x xs ih =>
    cases i with
    | zero => rw [eraseIdx_cons_zero, lookup_cons, if_neg (h x rfl)]
    | succ i => rw [eraseIdx_cons_succ, lookup_cons, lookup_cons, ih h]

@[simp] theorem upsert_nil (x : α) : upsert key x [] = [x] := rfl

theorem upsert_cons (x y : α) (ys : List α) :
    upsert key x (y :: ys) = if key y = key x then x :: ys else y :: upsert key x ys := by
  by_cases h : key y = key x
  · rw [upsert, replace?, if_pos h, if_pos h]
    rfl
  · rw [upsert, replace?, if_neg h, if_neg h, upsert]
    cases replace? key x ys <;> rfl

theorem keys_upsert (x : α) (xs : List α) :
    (upsert key x xs).map key = if key x ∈ xs.map key then xs.map key else xs.map key ++ [key x] := by
  induction xs with
  | nil => rfl
  | cons y ys ih =>
    rw [upsert_cons]
    by_cases h : key y = key x
    · rw [if_pos h, if_pos (by rw [map_cons, h]; exact mem_cons_self), map_cons, map_cons, h]
    · rw [if_neg h, map_cons, ih, map_cons]
      by_cases hmem : key x ∈ ys.map key
      · rw [if_pos hmem, if_pos (mem_cons_of_mem _ hmem)]
      · rw [if_neg hmem, if_neg (by simpa [Ne.symm h] using hmem), cons_append]

@[simp] theorem mem_keys_upsert : k ∈ (upsert key x xs).map key ↔ k = key x ∨ k ∈ xs.map key := by
  rw [keys_upsert]
  by_cases h : key x ∈ xs.map key
  · rw [if_pos h]
    exact ⟨.inr, fun hk => hk.elim (fun he => he ▸ h) id⟩
  · rw [if_neg h, mem_append, mem_singleton, or_comm]

theorem nodup_keys_upsert (h : (xs.map key).Nodup) : ((upsert key x xs).map key).Nodup := by
  rw [keys_upsert]
  by_cases hmem : key x ∈ xs.map key
  · rw [if_pos hmem]
    exact h
  · rw [if_neg hmem]
    refine nodup_append.mpr ⟨h, nodup_singleton _, fun a ha b hb => ?_⟩
    rw [mem_singleton.mp hb]
    exact fun he => hmem (he ▸ ha)

@[simp] theorem lookup_upsert_self : lookup key (key x) (upsert key x xs) = some x := by
  induction xs with
  | nil => rw [upsert_nil, lookup_cons, if_pos rfl]
  | cons y ys ih =>
    rw [upsert_cons]
    by_cases h : key y = key x
    · rw [if_pos h, lookup_cons, if_pos rfl]
    · rw [if_neg h, lookup_cons, if_neg h, ih]

theorem lookup_upsert_of_ne (h : k ≠ key x) : lookup key k (upsert key x xs) = lookup key k xs := by
  induction xs with
  | nil => rw [upsert_nil, lookup_cons, if_neg h.symm]
  | cons y ys ih =>
    rw [upsert_cons]
    by_cases hy : key y = key x
    · rw [if_pos hy, lookup_cons, lookup_cons, if_neg h.symm, if_neg (hy ▸ h.symm)]
    · rw [if_neg hy, lookup_cons, lookup_cons, ih]

theorem mem_of_mem_upsert (h : y ∈ upsert key x xs) : y = x ∨ y ∈ xs := by
  induction xs with
  | nil => exact .inl (mem_singleton.mp h)
  | cons z zs ih =>
    rw [upsert_cons] at h
    by_cases hz : key z = key x
    · rw [if_pos hz] at h
      exact (mem_cons.mp h).imp_right (mem_cons_of_mem z)
    · rw [if_neg hz] at h
      rcases mem_cons.mp h with rfl | hrest
      · exact .inr mem_cons_self
      · exact (ih hrest).imp_right (mem_cons_of_mem z)

@[simp] theorem upsertAll_cons (x : α) (news xs : List α) :
    upsertAll key (x :: news) xs = upsertAll key news (upsert key x xs) := rfl

theorem mem_keys_upsertAll :
    k ∈ (upsertAll key news xs).map key ↔ k ∈ news.map key ∨ k ∈ xs.map key := by
  induction news generalizing xs with
  | nil => simp [upsertAll]
  | cons x news ih =>
    rw [upsertAll_cons, ih, mem_keys_upsert, map_cons, mem_cons, or_assoc, or_left_comm]

theorem mem_of_mem_upsertAll (h : y ∈ upsertAll key news xs) : y ∈ news ∨ y ∈ xs := by
  induction news generalizing xs with
  | nil => exact .inr h
  | cons x news ih =>
    rcases ih h with hnew | hold
    · exact .inl (mem_cons_of_mem x hnew)
    · rcases mem_of_mem_upsert hold with rfl | hin
      · exact .inl mem_cons_self
      · exact .inr hin

def last? (key : α → κ) (k : κ) : List α → Option α
  | [] => none
  | x :: xs => (last? key k xs).or (if key x = k then some x else none)

theorem last?_append : last? key k (xs ++ ys) = (last? key k ys).or (last? key k xs) := by
  induction xs with
  | nil => exact Option.or_none.symm
  | cons x xs ih => rw [cons_append, last?, ih, last?, Option.or_assoc]

theorem lookup_upsertAll :
    lookup key k (upsertAll key news xs) = (last? key k news).or (lookup key k xs) := by
  induction news generalizing xs with
  | nil => rfl
  | cons x news ih =>
    rw [upsertAll_cons, ih, last?, Option.or_assoc]
    by_cases h : key x = k
    · rw [if_pos h, ← h, lookup_upsert_self]
      rfl
    · rw [if_neg h, lookup_upsert_of_ne (Ne.symm h)]
      rfl

theorem last?_eq_none_iff : last? key k xs = none ↔ k ∉ xs.map key := by
  induction xs with
  | nil => simp [last?]
  | cons x xs ih =>
    rw [last?, Option.or_eq_none_iff, ih, map_cons, mem_cons, and_comm]
    by_cases h : key x = k
    · simp [h]
    · simp [h, Ne.symm h]

theorem lookup_upsertAll_of_not_mem (h : k ∉ news.map key) :
    lookup key k (upsertAll key news xs) = lookup key k xs := by
  rw [lookup_upsertAll, last?_eq_none_iff.mpr h]
  rfl

theorem mem_without : x ∈ without key ks xs ↔ x ∈ xs ∧ key x ∉ ks := by
  simp [without]

@[simp] theorem mem_keys_without : k ∈ (without key ks xs).map key ↔ k ∈ xs.map key ∧ k ∉ ks := by
  simp only [mem_map, mem_without]
  constructor
  · rintro ⟨x, ⟨hx, hnot⟩, rfl⟩
    exact ⟨⟨x, hx, rfl⟩, hnot⟩
  · rintro ⟨⟨x, hx, rfl⟩, hnot⟩
    exact ⟨x, ⟨hx, hnot⟩, rfl⟩

theorem without_sublist : (without key ks xs).Sublist xs := filter_sublist

theorem nodup_keys_without (h : (xs.map key).Nodup) : ((without key ks xs).map key).Nodup :=
  h.sublist (without_sublist.map key)

theorem lookup_without_of_mem (h : k ∈ ks) : lookup key k (without key ks xs) = none :=
  lookup_eq_none_iff.mpr fun hmem => (mem_keys_without.mp hmem).2 h

theorem lookup_without_of_not_mem (h : k ∉ ks) :
    lookup key k (without key ks xs) = lookup key k xs := by
  induction xs with
  | nil => rfl
  | cons y ys ih =>
    rw [lookup_cons]
    by_cases hy : key y ∈ ks
    · have hne : key y ≠ k := fun he => h (he ▸ hy)
      have hdrop : without key ks (y :: ys) = without key ks ys := by simp [without, hy]
      rw [hdrop, ih, if_neg hne]
    · have hkeep : without key ks (y :: ys) = y :: without key ks ys := by simp [without, hy]
      rw [hkeep, lookup_cons, ih]

end AiProxy.KeyedList
