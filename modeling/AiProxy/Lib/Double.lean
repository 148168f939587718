import Mathlib.Tactic.Linarith

/-!
# Doubles

Integers and quotients of integers in numbers of 53 bits, rounded to the nearest one and in a tie to the
even one. Integers below `2 ^ 53` are exact. A quotient is not, but if its unit is fine enough for the
divisor, no integer lies between it and the exact one (`floorDiv_eq`, `ceilDiv_eq`).
-/

namespace AiProxy.Double

variable {a b m n : Int}

/-- The integer nearest to `a / b`. -/
def divEven (a b : Int) : Int :=
  if 2 * (a % b) < b ∨ (2 * (a % b) = b ∧ a / b % 2 = 0) then a / b else a / b + 1

def ofInt (n : Int) : Int :=
  let unit : Int := (2 ^ (n.natAbs.log2 - 52) : Nat)
  divEven n unit * unit

/-- The units of a quotient in one. -/
def scale (a b : Int) : Int := (2 ^ (52 - (a / b).toNat.log2) : Nat)

/-- `Math.floor(a / b)` -/
def floorDiv (a b : Int) : Int := divEven (a * scale a b) b / scale a b

/-- `Math.ceil(a / b)` -/
def ceilDiv (a b : Int) : Int := (divEven (a * scale a b) b + scale a b - 1) / scale a b

theorem le_divEven (hb : 0 < b) (h : m * b ≤ a) : m ≤ divEven a b := by
  have hfloor : m ≤ a / b := Int.le_ediv_of_mul_le hb h
  unfold divEven
  split <;> omega

theorem divEven_le (hb : 0 < b) (h : a ≤ m * b) : divEven a b ≤ m := by
  have hsplit : b * (a / b) + a % b = a := Int.mul_ediv_add_emod a b
  have hnonneg : 0 ≤ a % b := Int.emod_nonneg a hb.ne'
  unfold divEven
  split
  · refine le_of_mul_le_mul_right ?_ hb
    linarith
  · -- it is rounded up only if there is a remainder
    refine Int.add_one_le_of_lt (lt_of_mul_lt_mul_right ?_ hb.le)
    have hrest : 0 < a % b := by omega
    linarith

theorem ofInt_of_lt (h : n.natAbs < 2 ^ 53) : ofInt n = n := by
  have hlog : n.natAbs.log2 - 52 = 0 := by
    by_cases hzero : n.natAbs = 0
    · rw [hzero]
      rfl
    · have := (Nat.log2_lt hzero).mpr h
      omega
  rw [ofInt, hlog]
  simp [divEven]

theorem scale_pos (a b : Int) : 0 < scale a b := Int.natCast_pos.mpr (Nat.pow_pos (by decide))

/-- A small quotient has fine units. -/
theorem le_scale {k : Nat} (hk : 0 < k) (h : a / b < (2 ^ k : Nat)) :
    ((2 ^ (53 - k) : Nat) : Int) ≤ scale a b := by
  refine Int.ofNat_le.mpr (Nat.pow_le_pow_right (by decide) ?_)
  by_cases hzero : (a / b).toNat = 0
  · rw [hzero, Nat.log2_zero]
    omega
  · have hlog := (Nat.log2_lt hzero).mpr ((Int.toNat_lt' (by positivity)).mpr h)
    omega

theorem floorDiv_eq (hb : 0 < b) (hscale : b ≤ scale a b) : floorDiv a b = a / b := by
  have hs := scale_pos a b
  have hsplit : b * (a / b) + a % b = a := Int.mul_ediv_add_emod a b
  have hnonneg : 0 ≤ a % b := Int.emod_nonneg a hb.ne'
  have hlt : a % b < b := Int.emod_lt_of_pos a hb
  have hlow : a / b * scale a b ≤ divEven (a * scale a b) b := le_divEven hb (by nlinarith)
  have hhigh : divEven (a * scale a b) b ≤ (a / b + 1) * scale a b - 1 := by
    refine divEven_le hb ?_
    nlinarith
  refine le_antisymm ?_ (Int.le_ediv_of_mul_le hs hlow)
  exact Int.lt_add_one_iff.mp (Int.ediv_lt_of_lt_mul hs (by omega))

theorem ceilDiv_eq (hb : 0 < b) (hscale : b ≤ scale a b) : ceilDiv a b = (a + b - 1) / b := by
  have hs := scale_pos a b
  have hsplit : b * ((a + b - 1) / b) + (a + b - 1) % b = a + b - 1 := Int.mul_ediv_add_emod _ b
  have hnonneg : 0 ≤ (a + b - 1) % b := Int.emod_nonneg _ hb.ne'
  have hlt : (a + b - 1) % b < b := Int.emod_lt_of_pos _ hb
  generalize (a + b - 1) / b = n at hsplit ⊢
  have hlow : (n - 1) * scale a b + 1 ≤ divEven (a * scale a b) b := le_divEven hb (by nlinarith)
  have hhigh : divEven (a * scale a b) b ≤ n * scale a b := divEven_le hb (by nlinarith)
  refine le_antisymm (Int.lt_add_one_iff.mp (Int.ediv_lt_of_lt_mul hs ?_))
    (Int.le_ediv_of_mul_le hs ?_)
  · linarith
  · linarith

end AiProxy.Double
