import Mathlib.Data.List.Infix

/-!
# Patterns with a wildcard

A pattern is a word in which one letter stands for any word. It denotes the words that begin with its
first segment, end with its last one and have the others between them, in their order and apart
(`expands_iff`). Segments that are to occur in their order may be taken where they first occur
(`inOrder_cons_iff_of_leftmost`).
-/

namespace AiProxy.Wildcard

open List

variable {α : Type}
variable {ms : List (List α)}

/-- The words occur in the text in this order, apart from each other. -/
def InOrder : List (List α) → List α → Prop
  | [], _ => True
  | m :: ms, t => ∃ a b, t = a ++ (m ++ b) ∧ InOrder ms b

variable {t : List α}

theorem InOrder.append_left (h : InOrder ms t) (a : List α) : InOrder ms (a ++ t) := by
  cases ms with
  | nil => trivial
  | cons m ms =>
    obtain ⟨a', b, rfl, hb⟩ := h
    exact ⟨a ++ a', b, by simp, hb⟩

variable {m : List α}

theorem InOrder.tail (h : InOrder (m :: ms) t) : InOrder ms t := by
  obtain ⟨a, b, rfl, hb⟩ := h
  rw [← append_assoc]
  exact hb.append_left _

theorem inOrder_cons_iff_of_leftmost {a b : List α}
    (hleft : ∀ a' b', a ++ (m ++ b) = a' ++ (m ++ b') → a.length ≤ a'.length) :
    InOrder (m :: ms) (a ++ (m ++ b)) ↔ InOrder ms b := by
  refine ⟨fun h => ?_, fun h => ⟨a, b, rfl, h⟩⟩
  obtain ⟨a', b', hsplit, hb'⟩ := h
  have hlen := congrArg List.length hsplit
  simp only [length_append] at hlen
  have hle := hleft a' b' hsplit
  have hright : b <:+ a ++ (m ++ b) := (suffix_append m b).trans (suffix_append a _)
  have hright' : b' <:+ a ++ (m ++ b) := by
    rw [hsplit]
    exact (suffix_append m b').trans (suffix_append a' _)
  have hsuffix : b' <:+ b := suffix_of_suffix_length_le hright' hright (by omega)
  obtain ⟨c, rfl⟩ := hsuffix
  exact hb'.append_left c

theorem not_inOrder_of_not_infix (h : ¬ m <:+: t) : ¬ InOrder (m :: ms) t := by
  rintro ⟨a, b, rfl, -⟩
  exact h ⟨a, b, by simp⟩

theorem inOrder_filter_ne_nil [DecidableEq α] (ms : List (List α)) (t : List α) :
    InOrder (ms.filter (· ≠ [])) t ↔ InOrder ms t := by
  induction ms generalizing t with
  | nil => exact Iff.rfl
  | cons m ms ih =>
    by_cases hm : m = []
    · subst hm
      rw [filter_cons_of_neg (by simp), ih]
      exact ⟨fun h => ⟨[], t, rfl, h⟩, fun h => h.tail⟩
    · rw [filter_cons_of_pos (by simpa using hm)]
      exact exists_congr fun a => exists_congr fun b => and_congr_right fun _ => ih b

/-- The word is made of the segments in their order, with anything between two of them. -/
def Aligned : List (List α) → List α → Prop
  | [], w => w = []
  | [s], w => w = s
  | s :: t :: rest, w => ∃ a b, w = s ++ (a ++ b) ∧ Aligned (t :: rest) b

theorem aligned_iff (s l : List α) (ms : List (List α)) (w : List α) :
    Aligned (s :: (ms ++ [l])) w ↔ ∃ x, w = s ++ (x ++ l) ∧ InOrder ms x := by
  induction ms generalizing s w with
  | nil =>
    constructor
    · rintro ⟨a, b, rfl, rfl⟩
      exact ⟨a, rfl, trivial⟩
    · rintro ⟨x, rfl, -⟩
      exact ⟨x, l, rfl, rfl⟩
  | cons m ms ih =>
    constructor
    · rintro ⟨a, b, rfl, h⟩
      obtain ⟨x, rfl, hx⟩ := (ih m b).mp h
      exact ⟨a ++ (m ++ x), by simp, a, x, rfl, hx⟩
    · rintro ⟨x, rfl, a, b, rfl, hb⟩
      exact ⟨a, m ++ (b ++ l), by simp, (ih m _).mpr ⟨b, rfl, hb⟩⟩

section Patterns

variable [DecidableEq α] (star : α)
variable {p : List α}

/-- The word is the pattern with each wildcard replaced by some word. -/
def Expands : List α → List α → Prop
  | [], w => w = []
  | c :: p, w =>
    if c = star then ∃ a b, w = a ++ b ∧ Expands p b else ∃ b, w = c :: b ∧ Expands p b

def segments : List α → List (List α)
  | [] => [[]]
  | c :: p => if c = star then [] :: segments p else (segments p).modifyHead (c :: ·)

theorem segments_ne_nil (p : List α) : segments star p ≠ [] := by
  induction p with
  | nil => exact cons_ne_nil _ _
  | cons c p ih =>
    rw [segments]
    split
    · exact cons_ne_nil _ _
    · simpa using ih

theorem expands_iff_aligned (p w : List α) : Expands star p w ↔ Aligned (segments star p) w := by
  induction p generalizing w with
  | nil => exact Iff.rfl
  | cons c p ih =>
    obtain ⟨s, rest, hsegments⟩ := exists_cons_of_ne_nil (segments_ne_nil star p)
    rw [Expands, segments]
    by_cases hc : c = star
    · rw [if_pos hc, if_pos hc, hsegments, Aligned]
      simp only [ih, hsegments, nil_append]
    · rw [if_neg hc, if_neg hc]
      simp only [ih, hsegments, modifyHead_cons]
      cases rest with
      | nil => simp [Aligned]
      | cons t rest =>
        constructor
        · rintro ⟨b, rfl, a, d, rfl, h⟩
          exact ⟨a, d, rfl, h⟩
        · rintro ⟨a, d, rfl, h⟩
          exact ⟨_, rfl, a, d, rfl, h⟩

theorem expands_iff_of_single {s : List α} (h : segments star p = [s]) (w : List α) :
    Expands star p w ↔ w = s := by
  rw [expands_iff_aligned, h]
  exact Iff.rfl

theorem expands_iff {s l : List α} (h : segments star p = s :: (ms ++ [l])) (w : List α) :
    Expands star p w ↔ ∃ x, w = s ++ (x ++ l) ∧ InOrder ms x := by
  rw [expands_iff_aligned, h, aligned_iff]

theorem segments_head?_eq_nil_iff (hp : p ≠ []) :
    (segments star p).head? = some [] ↔ p.head? = some star := by
  obtain ⟨c, p, rfl⟩ := exists_cons_of_ne_nil hp
  obtain ⟨s, rest, hsegments⟩ := exists_cons_of_ne_nil (segments_ne_nil star p)
  rw [segments]
  by_cases hc : c = star
  · rw [if_pos hc]
    simp [hc]
  · rw [hsegments]
    simp [hc]

theorem ne_nil_of_segments_single {s : List α} (hp : p ≠ [])
    (h : segments star p = [s]) : s ≠ [] := by
  rintro rfl
  have hstar := (segments_head?_eq_nil_iff star hp).mp (by rw [h]; rfl)
  obtain ⟨d, p, rfl⟩ := exists_cons_of_ne_nil hp
  cases hstar
  rw [segments, if_pos rfl] at h
  exact segments_ne_nil star p (List.cons.inj h).2

theorem segments_getLast?_eq_nil_iff (hp : p ≠ []) :
    (segments star p).getLast? = some [] ↔ p.getLast? = some star := by
  induction p with
  | nil => exact absurd rfl hp
  | cons c p ih =>
    obtain ⟨s, rest, hsegments⟩ := exists_cons_of_ne_nil (segments_ne_nil star p)
    by_cases hnil : p = []
    · subst hnil
      by_cases hc : c = star <;> simp [hc, segments]
    · have hlast : (c :: p).getLast? = p.getLast? := by
        obtain ⟨d, p, rfl⟩ := exists_cons_of_ne_nil hnil
        simp
      rw [hlast, ← ih hnil, segments, hsegments]
      split
      · simp
      · cases rest with
        | nil =>
          have hs := ne_nil_of_segments_single star hnil hsegments
          simp [hs]
        | cons t rest => simp

end Patterns

end AiProxy.Wildcard
