import Mathlib.Data.List.Basic

/-!
# Counting the members of a changing population

A population is a list whose members keep their index. The lemmas say how the number of members with
some property changes when members change or are appended.
-/

namespace AiProxy.Population

open List

variable {α : Type*} {p : α → Bool} {l : List α}
variable {i : Nat} {b : α}

theorem lt_length_of_getElem? (h : l[i]? = some b) : i < l.length :=
  (List.getElem?_eq_some_iff.mp h).1

theorem one_le_countP (h : l[i]? = some b) (hb : p b = true) : 1 ≤ l.countP p :=
  countP_pos_iff.mpr ⟨b, mem_of_getElem? h, hb⟩

theorem countP_set_add (h : l[i]? = some b) (a : α) :
    (l.set i a).countP p + (p b).toNat = l.countP p + (p a).toNat := by
  obtain ⟨hi, rfl⟩ := List.getElem?_eq_some_iff.mp h
  rw [countP_set hi]
  cases hb : p l[i] with
  | false => cases p a <;> simp
  | true =>
    have := one_le_countP h hb
    cases p a <;> simp <;> omega

theorem countP_map_congr {f : α → α} (h : ∀ x, p (f x) = p x) : (l.map f).countP p = l.countP p := by
  rw [countP_map]
  exact countP_congr fun x _ => by simp [h x]

theorem countP_le_of_forall {l' : List α} (hlen : l'.length = l.length)
    (h : ∀ (i : Nat) (a b : α), l[i]? = some a → l'[i]? = some b → p b = true → p a = true) :
    l'.countP p ≤ l.countP p := by
  induction l' generalizing l with
  | nil => simp
  | cons b l' ih =>
    cases l with
    | nil => simp at hlen
    | cons a l =>
      have hrest := ih (by simpa using hlen) fun i x y hx hy =>
        h (i + 1) x y (by simpa using hx) (by simpa using hy)
      have hhead := h 0 a b rfl rfl
      simp only [countP_cons]
      cases hb : p b with
      | false => simp; omega
      | true =>
        rw [hhead hb]
        omega

theorem countP_eq_zero_iff : l.countP p = 0 ↔ ∀ (i : Nat) (b : α), l[i]? = some b → p b = false := by
  constructor
  · intro h i b hb
    have := countP_eq_zero.mp h b (mem_of_getElem? hb)
    simpa using this
  · intro h
    refine countP_eq_zero.mpr fun b hb => ?_
    obtain ⟨i, hi⟩ := mem_iff_getElem?.mp hb
    simp [h i b hi]

theorem countP_le_one (n : Nat) (h : ∀ (i : Nat) (b : α), l[i]? = some b → p b = true → i = n) :
    l.countP p ≤ 1 := by
  induction l generalizing n with
  | nil => simp
  | cons x l ih =>
    by_cases hx : p x = true
    · obtain rfl : 0 = n := h 0 x rfl hx
      have hl : l.countP p = 0 := by
        refine countP_eq_zero_iff.mpr fun i b hb => ?_
        by_contra hp
        have := h (i + 1) b (by simpa using hb) (by simpa using hp)
        omega
      simp [hx, hl]
    · have := ih (n - 1) fun i b hb hp => by
        have := h (i + 1) b (by simpa using hb) hp
        omega
      simpa [hx] using this

theorem getElem?_set_cases {j : Nat} {a : α} (h : (l.set i a)[j]? = some b) :
    (j = i ∧ b = a) ∨ (j ≠ i ∧ l[j]? = some b) := by
  rw [getElem?_set] at h
  split at h
  · next hij =>
    split at h
    · exact .inl ⟨hij.symm, (Option.some.inj h).symm⟩
    · cases h
  · next hij => exact .inr ⟨fun hji => hij hji.symm, h⟩

theorem getElem?_set_self {a : α} (h : l[i]? = some b) : (l.set i a)[i]? = some a := by
  simp [lt_length_of_getElem? h]

theorem getElem?_append_cases {j : Nat} {a : α} (h : (l ++ [a])[j]? = some b) :
    (j = l.length ∧ b = a) ∨ l[j]? = some b := by
  rw [getElem?_append] at h
  split at h
  · exact .inr h
  · next hj =>
    obtain ⟨hlt, rfl⟩ := List.getElem?_eq_some_iff.mp h
    simp only [length_cons, length_nil, Nat.zero_add, Nat.lt_one_iff] at hlt
    exact .inl ⟨by omega, by simp⟩

end AiProxy.Population
