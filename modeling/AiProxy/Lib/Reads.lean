import Mathlib.Data.List.Infix

/-!
# Streams that arrive in reads

A reader that looks for the end of something in a growing buffer sees the stream only up to the end of
a read. `position` is the place of the leftmost occurrence; once an occurrence is whole, it stays where
it is when more arrives, and it is found no earlier.
-/

namespace AiProxy.Reads

open Option List

variable {α : Type} [DecidableEq α] {needle t u : List α} {n : Nat}

/-- `windows(needle.len()).position(|w| w == needle)`, for a needle that is not empty. -/
def position (needle : List α) : List α → Option Nat
  | [] => none
  | a :: t => if needle.isPrefixOf (a :: t) then some 0 else (position needle t).map (· + 1)

/-- What has been received when the first `m` items have. -/
def received (m : Nat) : List (List α) → Nat
  | [] => 0
  | r :: rs => if m ≤ r.length then r.length else r.length + received (m - r.length) rs

theorem position_le (h : position needle t = some n) : n + needle.length ≤ t.length := by
  induction t generalizing n with
  | nil => cases h
  | cons a t ih =>
    rw [position] at h
    split at h
    · next hbegins =>
      cases h
      rw [Nat.zero_add]
      exact (List.isPrefixOf_iff_prefix.mp hbegins).length_le
    · obtain ⟨m, hm, rfl⟩ := map_eq_some_iff.mp h
      have := ih hm
      rw [length_cons]
      omega

theorem position_append (hneedle : needle ≠ []) : position needle t = some n ↔
      position needle (t ++ u) = some n ∧ n + needle.length ≤ t.length := by
  induction t generalizing n with
  | nil =>
    have hlength := length_pos_of_ne_nil hneedle
    refine ⟨nofun, fun ⟨_, h⟩ => ?_⟩
    rw [length_nil] at h
    omega
  | cons a t ih =>
    rw [cons_append, position, position]
    by_cases hbegins : needle.isPrefixOf (a :: t) = true
    · have hwhole : needle.isPrefixOf (a :: (t ++ u)) = true := by
        rw [List.isPrefixOf_iff_prefix] at hbegins ⊢
        exact hbegins.trans (prefix_append (a :: t) u)
      have hlength := (List.isPrefixOf_iff_prefix.mp hbegins).length_le
      rw [if_pos hbegins, if_pos hwhole, Option.some.injEq]
      constructor
      · rintro rfl
        exact ⟨rfl, by omega⟩
      · exact And.left
    · rw [if_neg hbegins]
      by_cases hlater : needle.isPrefixOf (a :: (t ++ u)) = true
      · -- the occurrence goes beyond the part, so that none is found there at its place
        have hshort : ¬ needle.length ≤ (a :: t).length := by
          intro hle
          refine hbegins (List.isPrefixOf_iff_prefix.mpr ?_)
          exact prefix_of_prefix_length_le (List.isPrefixOf_iff_prefix.mp hlater)
            (prefix_append (a :: t) u) hle
        rw [if_pos hlater]
        constructor
        · intro h
          obtain ⟨m, hm, rfl⟩ := map_eq_some_iff.mp h
          have := position_le hm
          rw [length_cons] at hshort
          omega
        · rintro ⟨h, hle⟩
          cases h
          omega
      · rw [if_neg hlater, map_eq_some_iff, map_eq_some_iff]
        constructor
        · rintro ⟨m, hm, rfl⟩
          obtain ⟨hlaterAt, hle⟩ := ih.mp hm
          exact ⟨⟨m, hlaterAt, rfl⟩, by rw [length_cons]; omega⟩
        · rintro ⟨⟨m, hm, rfl⟩, hle⟩
          rw [length_cons] at hle
          exact ⟨m, ih.mpr ⟨hm, by omega⟩, rfl⟩

theorem position_none (hneedle : needle ≠ []) (h : position needle (t ++ u) = some n)
    (hshort : t.length < n + needle.length) : position needle t = none := by
  cases ht : position needle t with
  | none => rfl
  | some m =>
    obtain ⟨hm, hle⟩ := (position_append (u := u) hneedle).mp ht
    rw [h] at hm
    cases hm
    omega

end AiProxy.Reads
