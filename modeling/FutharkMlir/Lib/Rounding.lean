import Mathlib.Data.Nat.Log
import Mathlib.Algebra.Order.Ring.Int
import Mathlib.Tactic.Linarith

/-! Integers rounded to `p` significant bits, to the nearest and to even in the middle. -/
namespace FutharkMlir.Rounding

/-- The weight of the last bit that is kept. -/
def ulp (p n : Nat) : Nat := 2 ^ (n.log2 + 1 - p)

def roundNat (p n : Nat) : Nat :=
  if ulp p n < 2 * (n % ulp p n) ∨ (ulp p n = 2 * (n % ulp p n) ∧ n / ulp p n % 2 = 1) then
    (n / ulp p n + 1) * ulp p n
  else n / ulp p n * ulp p n

def roundInt (p : Nat) : Int → Int
  | .ofNat n => roundNat p n
  | .negSucc n => -(roundNat p (n + 1))

theorem ulp_pos (p n : Nat) : 0 < ulp p n := Nat.two_pow_pos _

theorem ulp_exact {p n : Nat} (nonzero : n ≠ 0) (h : n < 2 ^ p) : ulp p n = 1 := by
  have bits := (Nat.log2_lt nonzero).mpr h
  have short : n.log2 + 1 - p = 0 := by omega
  rw [ulp, short, Nat.pow_zero]

theorem ulp_le {p n : Nat} (h : 2 ^ p ≤ n) : ulp p n * 2 ^ p ≤ 2 * n := by
  have nonzero : n ≠ 0 := by
    have := Nat.two_pow_pos p
    omega
  have long : p ≤ n.log2 := (Nat.le_log2 nonzero).mpr h
  have top : 2 ^ n.log2 ≤ n := Nat.log2_self_le nonzero
  calc ulp p n * 2 ^ p = 2 ^ (n.log2 + 1) := by
        rw [ulp, ← Nat.pow_add, Nat.sub_add_cancel (by omega)]
    _ = 2 * 2 ^ n.log2 := by rw [Nat.pow_succ, Nat.mul_comm]
    _ ≤ 2 * n := by omega

theorem roundNat_exact {p n : Nat} (h : n < 2 ^ p) : roundNat p n = n := by
  by_cases zero : n = 0
  · simp [roundNat, zero]
  · simp [roundNat, ulp_exact zero h, Nat.mod_one]

/-- Half of the last bit bounds the error. -/
theorem roundNat_near (p n : Nat) :
    2 * roundNat p n ≤ 2 * n + ulp p n ∧ 2 * n ≤ 2 * roundNat p n + ulp p n := by
  have split := Nat.div_add_mod n (ulp p n)
  have low := Nat.mod_lt n (ulp_pos p n)
  have cut : n / ulp p n * ulp p n = ulp p n * (n / ulp p n) := Nat.mul_comm _ _
  unfold roundNat
  split
  · next up =>
    rw [Nat.add_mul, Nat.one_mul]
    omega
  · next down => omega

theorem roundInt_exact {p : Nat} {i : Int} (h : i.natAbs < 2 ^ p) : roundInt p i = i := by
  cases i with
  | ofNat n =>
    have small : n < 2 ^ p := h
    simp [roundInt, roundNat_exact small]
  | negSucc n =>
    have small : n + 1 < 2 ^ p := h
    rw [roundInt, roundNat_exact small]
    rfl

/-- The error is at most one part in `2 ^ p`. -/
theorem roundInt_near {p : Nat} {i : Int} (h : 2 ^ p ≤ i.natAbs) :
    2 ^ p * |roundInt p i - i| ≤ |i| := by
  have scaled (n : Nat) (large : 2 ^ p ≤ n) : 2 ^ p * |(roundNat p n : Int) - n| ≤ n := by
    obtain ⟨above, below⟩ := roundNat_near p n
    have ulpLe := ulp_le large
    have error : 2 * |(roundNat p n : Int) - n| ≤ ulp p n := by
      rw [abs_eq_max_neg]
      omega
    have ulpLe' : (2 : Int) ^ p * ulp p n ≤ 2 * n := by
      rw [mul_comm]
      exact_mod_cast ulpLe
    have weight : (0 : Int) ≤ 2 ^ p := by positivity
    nlinarith [mul_le_mul_of_nonneg_left error weight]
  cases i with
  | ofNat n =>
    have bound := scaled n h
    simpa [roundInt] using bound
  | negSucc n =>
    have bound := scaled (n + 1) h
    have flip : |roundInt p (Int.negSucc n) - Int.negSucc n| =
        |(roundNat p (n + 1) : Int) - ((n + 1 : Nat) : Int)| := by
      rw [roundInt, ← abs_neg]
      congr 1
      omega
    rw [flip, Int.abs_eq_natAbs (Int.negSucc n)]
    exact bound

end FutharkMlir.Rounding
