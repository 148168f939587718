import AiProxy.Mcp.TextSearch

/-!
# Texts by byte offsets

A byte offset that is a character boundary splits the text; the last boundary before an offset and
the first one after it are the same in a text and in a part of it that contains the offset.
-/

namespace AiProxy.Mcp

open List
open Utf8 (encode)

variable {n : Nat}

@[simp]
theorem byteLen_nil : byteLen [] = 0 := rfl

theorem byteLen_append (a b : Text) : byteLen (a ++ b) = byteLen a + byteLen b := by
  rw [byteLen, Utf8.encode_append, length_append]
  rfl

theorem byteLen_cons (c : Char) (t : Text) : byteLen (c :: t) = byteLen [c] + byteLen t :=
  byteLen_append [c] t

theorem byteLen_singleton (c : Char) : byteLen [c] = c.utf8Size := by
  simp [byteLen, encode, String.length_utf8EncodeChar]

theorem byteLen_singleton_pos (c : Char) : 0 < byteLen [c] := by
  rw [byteLen_singleton]
  exact c.utf8Size_pos

theorem byteLen_singleton_le (c : Char) : byteLen [c] ≤ 4 := by
  rw [byteLen_singleton]
  exact c.utf8Size_le_four

theorem length_le_byteLen (t : Text) : t.length ≤ byteLen t := by
  induction t with
  | nil => exact le_rfl
  | cons c t ih =>
    have := byteLen_singleton_pos c
    rw [byteLen_cons, length_cons]
    omega

theorem byteLen_le (t : Text) : byteLen t ≤ 4 * t.length := by
  induction t with
  | nil => exact le_rfl
  | cons c t ih =>
    have := byteLen_singleton_le c
    rw [byteLen_cons, length_cons]
    omega

variable {t : Text}

theorem eq_nil_of_byteLen (h : byteLen t = 0) : t = [] := by
  have := length_le_byteLen t
  exact length_eq_zero_iff.mp (by omega)

theorem split_of_byteLen_le {a b c d : Text} (h : a ++ b = c ++ d) (hle : byteLen a ≤ byteLen c) :
    ∃ e, c = a ++ e ∧ b = e ++ d := by
  rcases append_eq_append_iff.mp h with ⟨e, hc, hb⟩ | ⟨e, ha, hd⟩
  · exact ⟨e, hc, hb⟩
  · have he : e = [] := by
      rw [ha, byteLen_append] at hle
      exact eq_nil_of_byteLen (by omega)
    subst he
    refine ⟨[], ?_, ?_⟩
    · rw [ha, append_nil, append_nil]
    · rw [hd, nil_append, nil_append]

theorem isCharBoundary_append_left (a t : Text) (n : Nat) :
    isCharBoundary (a ++ t) (byteLen a + n) = isCharBoundary t n := by
  induction a with
  | nil => rw [nil_append, byteLen_nil, zero_add]
  | cons c a ih =>
    have hpos := byteLen_singleton_pos c
    have hcons := byteLen_cons c a
    obtain ⟨k, hk⟩ : ∃ k, byteLen (c :: a) + n = k + 1 := ⟨byteLen (c :: a) + n - 1, by omega⟩
    have hrest : k + 1 - byteLen [c] = byteLen a + n := by omega
    have hle : byteLen [c] ≤ k + 1 := by omega
    rw [cons_append, hk, isCharBoundary, hrest, ih, decide_eq_true hle, Bool.true_and]

theorem isCharBoundary_append_right (t z : Text) (h : n ≤ byteLen t) :
    isCharBoundary (t ++ z) n = isCharBoundary t n := by
  induction t generalizing n with
  | nil =>
    have hn : n = 0 := Nat.le_zero.mp h
    subst hn
    unfold isCharBoundary
    rfl
  | cons c t ih =>
    cases n with
    | zero =>
      rfl
    | succ n =>
      rw [byteLen_cons] at h
      rw [cons_append, isCharBoundary, isCharBoundary, ih (by omega)]

theorem isCharBoundary_iff : isCharBoundary t n = true ↔ ∃ a b, t = a ++ b ∧ byteLen a = n := by
  constructor
  · induction t generalizing n with
    | nil =>
      cases n with
      | zero => exact fun _ => ⟨[], [], rfl, rfl⟩
      | succ n => exact fun h => absurd h (by simp [isCharBoundary])
    | cons c t ih =>
      cases n with
      | zero => exact fun _ => ⟨[], c :: t, rfl, rfl⟩
      | succ n =>
        intro h
        rw [isCharBoundary, Bool.and_eq_true, decide_eq_true_eq] at h
        obtain ⟨a, b, rfl, ha⟩ := ih h.2
        refine ⟨c :: a, b, rfl, ?_⟩
        rw [byteLen_cons]
        omega
  · rintro ⟨a, b, rfl, rfl⟩
    have := isCharBoundary_append_left a b 0
    rw [add_zero] at this
    rw [this]
    unfold isCharBoundary
    rfl

theorem isCharBoundary_byteLen (t : Text) : isCharBoundary t (byteLen t) = true :=
  isCharBoundary_iff.mpr ⟨t, [], (append_nil t).symm, rfl⟩

theorem isCharBoundary_zero (t : Text) : isCharBoundary t 0 = true :=
  isCharBoundary_iff.mpr ⟨[], t, rfl, rfl⟩

theorem floorFrom_le (t : Text) (n : Nat) : floorFrom t n ≤ n := by
  induction n with
  | zero => exact le_rfl
  | succ n ih =>
    rw [floorFrom]
    split
    · exact le_rfl
    · omega

theorem isCharBoundary_floorFrom (t : Text) (n : Nat) :
    isCharBoundary t (floorFrom t n) = true := by
  induction n with
  | zero => exact isCharBoundary_zero t
  | succ n ih =>
    rw [floorFrom]
    split
    · assumption
    · exact ih

theorem floorFrom_of_boundary (h : isCharBoundary t n = true) : floorFrom t n = n := by
  cases n with
  | zero => rfl
  | succ n => rw [floorFrom, if_pos h]

theorem floorFrom_append_left (a t : Text) (n : Nat) :
    floorFrom (a ++ t) (byteLen a + n) = byteLen a + floorFrom t n := by
  induction n with
  | zero =>
    refine floorFrom_of_boundary ?_
    rw [isCharBoundary_append_left]
    exact isCharBoundary_zero t
  | succ n ih =>
    have hb := isCharBoundary_append_left a t (n + 1)
    rw [← add_assoc] at hb ⊢
    rw [floorFrom, floorFrom, hb, ih]
    split <;> rfl

theorem floorFrom_append_right (t z : Text) (h : n ≤ byteLen t) :
    floorFrom (t ++ z) n = floorFrom t n := by
  induction n with
  | zero => rfl
  | succ n ih => rw [floorFrom, floorFrom, isCharBoundary_append_right t z h, ih (by omega)]

theorem floorFrom_part (a t z : Text) (h : n ≤ byteLen t) :
    floorFrom (a ++ t ++ z) (byteLen a + n) = byteLen a + floorFrom t n := by
  rw [floorFrom_append_right _ _ (by rw [byteLen_append]; omega), floorFrom_append_left]

theorem ceilFrom_spec (t : Text) : ∀ {fuel offset : Nat}, offset ≤ byteLen t →
    byteLen t ≤ offset + fuel →
    offset ≤ ceilFrom t fuel offset ∧ ceilFrom t fuel offset ≤ byteLen t ∧
      isCharBoundary t (ceilFrom t fuel offset) = true ∧
      ∀ k, offset ≤ k → k < ceilFrom t fuel offset → isCharBoundary t k = false := by
  intro fuel
  induction fuel with
  | zero =>
    intro offset hle hfuel
    have heq : offset = byteLen t := by omega
    subst heq
    exact ⟨le_rfl, le_rfl, isCharBoundary_byteLen t, fun k hk hlt => by
      rw [ceilFrom] at hlt
      omega⟩
  | succ fuel ih =>
    intro offset hle hfuel
    rw [ceilFrom]
    by_cases hstop : (decide (offset < byteLen t) && !isCharBoundary t offset) = true
    · rw [if_pos hstop]
      simp only [Bool.and_eq_true, decide_eq_true_eq, Bool.not_eq_true'] at hstop
      have hnext : offset + 1 ≤ byteLen t := hstop.1
      obtain ⟨h1, h2, h3, h4⟩ := ih hnext (by omega)
      refine ⟨by omega, h2, h3, fun k hk hlt => ?_⟩
      by_cases hkeq : k = offset
      · rw [hkeq]
        exact hstop.2
      · exact h4 k (by omega) hlt
    · rw [if_neg hstop]
      refine ⟨le_rfl, hle, ?_, fun k hk hlt => by omega⟩
      by_cases hlt : offset < byteLen t
      · simpa [hlt] using hstop
      · have heq : offset = byteLen t := by omega
        rw [heq]
        exact isCharBoundary_byteLen t

theorem ceilFrom_part (a t z : Text) {fuel : Nat} (h : n ≤ byteLen t)
    (hfuel : byteLen (a ++ t ++ z) ≤ byteLen a + n + fuel) :
    ceilFrom (a ++ t ++ z) fuel (byteLen a + n) = byteLen a + ceilFrom t (byteLen t) n := by
  have hboundary : ∀ k ≤ byteLen t,
      isCharBoundary (a ++ t ++ z) (byteLen a + k) = isCharBoundary t k := by
    intro k hk
    rw [isCharBoundary_append_right _ _ (by rw [byteLen_append]; omega), isCharBoundary_append_left]
  have hle : byteLen a + n ≤ byteLen (a ++ t ++ z) := by
    rw [byteLen_append, byteLen_append]
    omega
  obtain ⟨h1, h2, h3, h4⟩ := ceilFrom_spec t h (Nat.le_add_left _ n)
  obtain ⟨g1, g2, g3, g4⟩ := ceilFrom_spec (a ++ t ++ z) hle hfuel
  -- Each of the two is a boundary of the whole text from the offset on, so neither is before the
  -- other.
  refine le_antisymm ?_ ?_
  · by_contra hlt
    have hb := g4 (byteLen a + ceilFrom t (byteLen t) n) (by omega) (not_le.mp hlt)
    rw [hboundary _ h2, h3] at hb
    cases hb
  · by_contra hlt
    obtain ⟨k, hk⟩ : ∃ k, ceilFrom (a ++ t ++ z) fuel (byteLen a + n) = byteLen a + k :=
      ⟨_, (Nat.add_sub_of_le (by omega)).symm⟩
    have hb := h4 k (by omega) (by omega)
    rw [hk, hboundary k (by omega), hb] at g3
    cases g3

theorem takeBytes_append_left (a t : Text) (n : Nat) :
    takeBytes (byteLen a + n) (a ++ t) = a ++ takeBytes n t := by
  induction a with
  | nil => rw [byteLen_nil, zero_add, nil_append, nil_append]
  | cons c a ih =>
    have hcons := byteLen_cons c a
    have hle : byteLen [c] ≤ byteLen (c :: a) + n := by omega
    have hrest : byteLen (c :: a) + n - byteLen [c] = byteLen a + n := by omega
    rw [cons_append, takeBytes, if_pos hle, hrest, ih, cons_append]

theorem takeBytes_zero (t : Text) : takeBytes 0 t = [] := by
  cases t with
  | nil => rfl
  | cons c t =>
    have hpos := byteLen_singleton_pos c
    rw [takeBytes, if_neg (by omega)]

theorem takeBytes_append_right (t z : Text) (h : n ≤ byteLen t) :
    takeBytes n (t ++ z) = takeBytes n t := by
  induction t generalizing n with
  | nil =>
    have hn : n = 0 := Nat.le_zero.mp h
    rw [hn, takeBytes_zero, takeBytes_zero]
  | cons c t ih =>
    rw [byteLen_cons] at h
    rw [cons_append, takeBytes, takeBytes]
    split
    · rw [ih (by omega)]
    · rfl

theorem dropBytes_append_left (a t : Text) (n : Nat) :
    dropBytes (byteLen a + n) (a ++ t) = dropBytes n t := by
  rw [dropBytes, takeBytes_append_left, length_append, ← drop_drop, drop_left]
  rfl

theorem dropBytes_byteLen (a t : Text) : dropBytes (byteLen a) (a ++ t) = t := by
  have h := dropBytes_append_left a t 0
  rw [add_zero] at h
  rw [h, dropBytes, takeBytes_zero]
  rfl

theorem takeBytes_byteLen (a t : Text) : takeBytes (byteLen a) (a ++ t) = a := by
  have h := takeBytes_append_left a t 0
  rw [takeBytes_zero, append_nil] at h
  exact h

theorem sliceBytes_part (a t z : Text) {start stop : Nat} (h : stop ≤ byteLen t) :
    sliceBytes (a ++ t ++ z) (byteLen a + start) (byteLen a + stop) = sliceBytes t start stop := by
  rw [sliceBytes, takeBytes_append_right _ _ (by rw [byteLen_append]; omega), takeBytes_append_left,
    dropBytes_append_left]
  rfl

theorem sliceBytes_eq (a t z : Text) :
    sliceBytes (a ++ t ++ z) (byteLen a) (byteLen a + byteLen t) = t := by
  rw [sliceBytes, ← byteLen_append, takeBytes_byteLen, dropBytes_byteLen]

end AiProxy.Mcp
