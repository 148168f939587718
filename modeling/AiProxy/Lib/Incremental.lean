import Mathlib.Data.List.Basic

/-!
# Incremental parsers

A parser that is fed from a growing buffer answers a value together with the number of bytes it
occupies, "not enough bytes yet", or an error. It can be run over a stream that arrives in any pieces,
provided that an answer never changes when more bytes are appended (`Stable`). `items` is what it finds
in a whole stream.
-/

namespace AiProxy.Incremental

open List

variable {β α ε : Type*}
variable {b : List β}

/-- The answer of a parser on a buffer: an error, nothing yet, or a value and its length. -/
abbrev Parser (β α ε : Type*) := List β → Except ε (Option (α × Nat))

/-- The parser's answers do not change when the buffer grows, and a value it finds occupies a
non-empty part of the buffer. -/
structure Stable (p : Parser β α ε) : Prop where
  /-- A value occupies at least one byte, and only bytes that are there. -/
  size : ∀ {b a n}, p b = .ok (some (a, n)) → 0 < n ∧ n ≤ b.length
  value : ∀ {b a n} (t), p b = .ok (some (a, n)) → p (b ++ t) = .ok (some (a, n))
  error : ∀ {b e} (t), p b = .error e → p (b ++ t) = .error e

/-- How a stream ends for its parser: with an error, or with bytes that are no complete value. -/
inductive End (ε : Type*) where
  | incomplete
  | error (e : ε)

/-- What the parser finds in a stream, with at most `fuel` values. -/
def itemsFuel (p : Parser β α ε) : Nat → List β → List α × End ε
  | 0, _ => ([], .incomplete)
  | fuel + 1, b =>
    match p b with
    | .ok none => ([], .incomplete)
    | .error e => ([], .error e)
    | .ok (some (a, n)) =>
      let r := itemsFuel p fuel (b.drop n)
      (a :: r.1, r.2)

/-- The values the parser finds in the stream `b`, in order, and how the stream ends. A value
occupies at least one byte, so `b.length` values are enough. -/
def items (p : Parser β α ε) (b : List β) : List α × End ε := itemsFuel p (b.length + 1) b

variable {p : Parser β α ε}

theorem itemsFuel_eq (hp : Stable p) {m n : Nat} (hm : b.length < m)
    (hn : b.length < n) : itemsFuel p m b = itemsFuel p n b := by
  induction m generalizing b n with
  | zero => omega
  | succ m ih =>
    obtain ⟨n, rfl⟩ : ∃ k, n = k + 1 := ⟨n - 1, by omega⟩
    simp only [itemsFuel]
    cases hb : p b with
    | error e => rfl
    | ok r =>
      cases r with
      | none => rfl
      | some v =>
        obtain ⟨a, k⟩ := v
        obtain ⟨hk, hkl⟩ := hp.size hb
        have hd : (b.drop k).length < b.length := by rw [length_drop]; omega
        simp only [ih (b := b.drop k) (n := n) (by omega) (by omega)]

theorem items_value (hp : Stable p) {a : α} {n : Nat} (t : List β) (h : p b = .ok (some (a, n))) :
    items p (b ++ t) = (a :: (items p (b.drop n ++ t)).1, (items p (b.drop n ++ t)).2) := by
  obtain ⟨hn, hnl⟩ := hp.size h
  have hd : (b ++ t).drop n = b.drop n ++ t := drop_append_of_le_length hnl
  have hl : (b.drop n ++ t).length < (b ++ t).length := by
    simp only [length_append, length_drop]
    omega
  have hf : itemsFuel p (b ++ t).length (b.drop n ++ t) = items p (b.drop n ++ t) :=
    itemsFuel_eq hp hl (Nat.lt_succ_self _)
  rw [items, itemsFuel, hp.value t h]
  simp only [hd, hf]

theorem items_error (hp : Stable p) {e : ε} (t : List β) (h : p b = .error e) :
    items p (b ++ t) = ([], .error e) := by
  rw [items, itemsFuel, hp.error t h]

theorem items_none (h : p b = .ok none) : items p b = ([], .incomplete) := by
  rw [items, itemsFuel, h]

theorem slice_append {i n : Nat} (t : List β) (h : i + n ≤ b.length) :
    ((b ++ t).drop i).take n = (b.drop i).take n := by
  rw [drop_append_of_le_length (by omega), take_append_of_le_length (by rw [length_drop]; omega)]

end AiProxy.Incremental
