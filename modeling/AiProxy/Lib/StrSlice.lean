import Mathlib.Algebra.GroupWithZero.Nat

/-!
# Slices of a string

Strings are sequences of characters that are addressed by the offsets of their bytes. A slice that would
begin or end inside a character does not exist. `find` is the offset of the leftmost occurrence.
-/

namespace AiProxy.Str

open List

def len (t : List Char) : Nat := (t.map Char.utf8Size).sum

def dropBytes : Nat → List Char → Option (List Char)
  | 0, t => some t
  | _ + 1, [] => none
  | n + 1, c :: t => if c.utf8Size ≤ n + 1 then dropBytes (n + 1 - c.utf8Size) t else none

def takeBytes : Nat → List Char → Option (List Char)
  | 0, _ => some []
  | _ + 1, [] => none
  | n + 1, c :: t =>
    if c.utf8Size ≤ n + 1 then (takeBytes (n + 1 - c.utf8Size) t).map (c :: ·) else none

def slice (t : List Char) (start stop : Nat) : Option (List Char) :=
  if start ≤ stop then (dropBytes start t).bind (takeBytes (stop - start)) else none

def find (needle : List Char) : List Char → Option Nat
  | [] => if needle = [] then some 0 else none
  | c :: t => if needle.isPrefixOf (c :: t) then some 0 else (find needle t).map (c.utf8Size + ·)

variable {a b t needle : List Char}

@[simp] theorem len_nil : len [] = 0 := rfl

@[simp] theorem len_cons (c : Char) (t : List Char) : len (c :: t) = c.utf8Size + len t := rfl

@[simp] theorem len_append (a b : List Char) : len (a ++ b) = len a + len b := by
  simp [len]

theorem length_le_len (t : List Char) : t.length ≤ len t := by
  induction t with
  | nil => exact Nat.le_refl 0
  | cons c t ih =>
    have := c.utf8Size_pos
    rw [length_cons, len_cons]
    omega

theorem exists_len_cons (c : Char) (a : List Char) :
    ∃ n, len (c :: a) = n + 1 ∧ c.utf8Size ≤ n + 1 ∧ n + 1 - c.utf8Size = len a := by
  have := c.utf8Size_pos
  refine ⟨len (c :: a) - 1, ?_⟩
  rw [len_cons]
  omega

theorem dropBytes_len (a b : List Char) : dropBytes (len a) (a ++ b) = some b := by
  induction a with
  | nil => cases b <;> rfl
  | cons c a ih =>
    obtain ⟨n, hn, hle, hrest⟩ := exists_len_cons c a
    rw [hn, cons_append, dropBytes, if_pos hle, hrest, ih]

theorem takeBytes_len (a b : List Char) : takeBytes (len a) (a ++ b) = some a := by
  induction a with
  | nil => cases b <;> rfl
  | cons c a ih =>
    obtain ⟨n, hn, hle, hrest⟩ := exists_len_cons c a
    rw [hn, cons_append, takeBytes, if_pos hle, hrest, ih]
    rfl

theorem slice_append (a b c : List Char) : slice (a ++ (b ++ c)) (len a) (len a + len b) = some b := by
  rw [slice, if_pos (Nat.le_add_right _ _), dropBytes_len, Option.bind_some, Nat.add_sub_cancel_left,
    takeBytes_len]

theorem find_eq_none (h : find needle t = none) : ¬ needle <:+: t := by
  induction t with
  | nil =>
    rw [find] at h
    split at h
    · cases h
    · next hne =>
      rw [infix_nil]
      exact hne
  | cons c t ih =>
    rw [find] at h
    split at h
    · cases h
    · next hbegins =>
      rw [infix_cons_iff]
      rintro (hp | hinfix)
      · exact hbegins (List.isPrefixOf_iff_prefix.mpr hp)
      · exact ih (Option.map_eq_none_iff.mp h) hinfix

theorem find_eq_some {k : Nat} (h : find needle t = some k) :
    ∃ a b, t = a ++ (needle ++ b) ∧ k = len a ∧
      ∀ a' b', t = a' ++ (needle ++ b') → a.length ≤ a'.length := by
  induction t generalizing k with
  | nil =>
    rw [find] at h
    split at h
    · next hnil =>
      subst hnil
      cases h
      exact ⟨[], [], rfl, rfl, fun _ _ _ => Nat.zero_le _⟩
    · cases h
  | cons c t ih =>
    rw [find] at h
    split at h
    · next hbegins =>
      cases h
      obtain ⟨b, hb⟩ := isPrefixOf_iff_prefix.mp hbegins
      exact ⟨[], b, hb.symm, rfl, fun _ _ _ => Nat.zero_le _⟩
    · next hbegins =>
      obtain ⟨k', hk', rfl⟩ := Option.map_eq_some_iff.mp h
      obtain ⟨a, b, rfl, rfl, hleft⟩ := ih hk'
      refine ⟨c :: a, b, rfl, rfl, fun a' b' hsplit => ?_⟩
      cases a' with
      | nil => exact absurd (List.isPrefixOf_iff_prefix.mpr ⟨b', hsplit.symm⟩) hbegins
      | cons c' a' => exact Nat.succ_le_succ (hleft a' b' (List.cons.inj hsplit).2)

end AiProxy.Str
