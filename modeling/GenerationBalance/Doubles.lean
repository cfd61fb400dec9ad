/-
The doubles nearest to rational numbers: 53 digits after rounding half to even, and
no digit below `2 ^ -1074`. There is no greatest double here; what overflows stays finite.

Rounding keeps the order, and moves a number by half a unit of its last digit at most.
-/
import Mathlib.Algebra.Order.Ring.Rat
import Mathlib.Data.Int.Log
import Mathlib.Data.Rat.Floor
import Mathlib.Tactic.Linarith
import Mathlib.Tactic.NormNum
import Mathlib.Tactic.Positivity
import Mathlib.Tactic.Ring

namespace Double

/-! ## Whole numbers -/

/-- The nearest whole number, the even one of two. -/
def nearestEven (x : ℚ) : ℤ :=
  if x - ⌊x⌋ < 1 / 2 ∨ x - ⌊x⌋ = 1 / 2 ∧ ⌊x⌋ % 2 = 0 then ⌊x⌋ else ⌊x⌋ + 1

theorem nearestEven_near (x : ℚ) : |x - nearestEven x| ≤ 1 / 2 := by
  have hle := Int.floor_le x
  have hlt := Int.lt_floor_add_one x
  rw [abs_le]
  unfold nearestEven
  split
  · next h =>
    rcases h with h | ⟨h, -⟩ <;> constructor <;> linarith
  · next h =>
    have hhalf : 1 / 2 ≤ x - ⌊x⌋ := not_lt.mp fun hsmall => h (.inl hsmall)
    push_cast
    constructor <;> linarith

theorem nearestEven_even {x : ℚ} (h : |x - nearestEven x| = 1 / 2) : nearestEven x % 2 = 0 := by
  have hle := Int.floor_le x
  unfold nearestEven at h ⊢
  split at h
  · next hdown =>
    rw [if_pos hdown]
    rcases hdown with hsmall | ⟨-, heven⟩
    · rw [abs_of_nonneg (by linarith)] at h
      exact absurd h hsmall.ne
    · exact heven
  · next hup =>
    rw [if_neg hup]
    have hlt := Int.lt_floor_add_one x
    push_cast at h
    rw [abs_of_nonpos (by linarith)] at h
    have hhalf : x - ⌊x⌋ = 1 / 2 := by linarith
    have hodd : ¬ ⌊x⌋ % 2 = 0 := fun heven => hup (.inr ⟨hhalf, heven⟩)
    omega

/-- Of two whole numbers that are next to a number, one is odd. -/
theorem apart_of_near {x y : ℚ} {m n : ℤ} (hxy : x ≤ y) (hm : |x - m| ≤ 1 / 2) (hn : |y - n| ≤ 1 / 2)
    (hm' : |x - m| = 1 / 2 → m % 2 = 0) (hn' : |y - n| = 1 / 2 → n % 2 = 0) : m ≤ n := by
  by_contra hlt
  have hstep : (n : ℚ) + 1 ≤ m := by exact_mod_cast not_le.mp hlt
  obtain ⟨hx, -⟩ := abs_le.mp hm
  obtain ⟨-, hy⟩ := abs_le.mp hn
  -- Both are halves, of the same number.
  have hx' : x - m = -(1 / 2) := by linarith
  have hy' : y - n = 1 / 2 := by linarith
  have heven := hm' (by rw [hx', abs_neg]; norm_num)
  have heven' := hn' (by rw [hy']; norm_num)
  have hnext : m = n + 1 := by
    have hnext : (m : ℚ) = n + 1 := by linarith
    exact_mod_cast hnext
  omega

theorem nearestEven_mono {x y : ℚ} (h : x ≤ y) : nearestEven x ≤ nearestEven y :=
  apart_of_near h (nearestEven_near x) (nearestEven_near y) nearestEven_even nearestEven_even

theorem nearestEven_unique {x : ℚ} {n : ℤ} (h : |x - n| ≤ 1 / 2) (heven : |x - n| = 1 / 2 → n % 2 = 0) :
    nearestEven x = n :=
  le_antisymm (apart_of_near (le_refl x) (nearestEven_near x) h nearestEven_even heven)
    (apart_of_near (le_refl x) h (nearestEven_near x) heven nearestEven_even)

theorem nearestEven_intCast (n : ℤ) : nearestEven n = n :=
  nearestEven_unique (by rw [sub_self, abs_zero]; norm_num) fun h => by
    rw [sub_self, abs_zero] at h
    norm_num at h

theorem nearestEven_neg (x : ℚ) : nearestEven (-x) = -nearestEven x := by
  have habs : |-x - (-nearestEven x : ℤ)| = |x - nearestEven x| := by
    rw [Int.cast_neg, neg_sub_neg, abs_sub_comm]
  refine nearestEven_unique (habs ▸ nearestEven_near x) fun h => ?_
  have heven := nearestEven_even (habs ▸ h)
  omega

/-! ## Doubles -/

/-- The place of the last digit. -/
def exponent (q : ℚ) : ℤ := max (Int.log 2 |q| - 52) (-1074)

/-- The nearest double. -/
def round (q : ℚ) : ℚ := nearestEven (q / 2 ^ exponent q) * 2 ^ exponent q

theorem unit_pos (e : ℤ) : (0 : ℚ) < 2 ^ e := zpow_pos (by norm_num) e

/-- **Half a unit of the last digit.** -/
theorem round_near (q : ℚ) : |q - round q| ≤ 2 ^ exponent q / 2 := by
  have hunit := unit_pos (exponent q)
  have hq : q - round q = (q / 2 ^ exponent q - nearestEven (q / 2 ^ exponent q)) * 2 ^ exponent q := by
    rw [round, sub_mul, div_mul_cancel₀ _ hunit.ne']
  rw [hq, abs_mul, abs_of_pos hunit]
  calc _ ≤ 1 / 2 * (2 : ℚ) ^ exponent q := mul_le_mul_of_nonneg_right (nearestEven_near _) hunit.le
    _ = 2 ^ exponent q / 2 := by ring

theorem round_neg (q : ℚ) : round (-q) = -round q := by
  rw [round, round, exponent, exponent, abs_neg, neg_div, nearestEven_neg]
  push_cast
  ring

/-- What is a multiple of the last digit bounds the double too. -/
theorem round_le {q : ℚ} {n : ℤ} (h : q ≤ n * 2 ^ exponent q) : round q ≤ n * 2 ^ exponent q := by
  have hunit := unit_pos (exponent q)
  have hn := nearestEven_mono ((div_le_iff₀ hunit).mpr h)
  rw [nearestEven_intCast] at hn
  exact mul_le_mul_of_nonneg_right (by exact_mod_cast hn) hunit.le

theorem le_round {q : ℚ} {n : ℤ} (h : n * 2 ^ exponent q ≤ q) : n * 2 ^ exponent q ≤ round q := by
  have hunit := unit_pos (exponent q)
  have hn := nearestEven_mono ((le_div_iff₀ hunit).mpr h)
  rw [nearestEven_intCast] at hn
  exact mul_le_mul_of_nonneg_right (by exact_mod_cast hn) hunit.le

theorem round_nonneg {q : ℚ} (h : 0 ≤ q) : 0 ≤ round q := by
  have := le_round (q := q) (n := 0) (by rwa [Int.cast_zero, zero_mul])
  rwa [Int.cast_zero, zero_mul] at this

/-- Between two numbers with different last digits there is a power of two, and so between their doubles. -/
theorem round_le_of_lt {x y : ℚ} (hx : 0 < x) (hxy : x ≤ y) (he : exponent x < exponent y) : round x ≤ round y := by
  have hy : 0 < y := hx.trans_le hxy
  have hlast : exponent y = Int.log 2 y - 52 := by
    have hmin : -1074 < exponent y := (le_max_right _ _).trans_lt he
    rw [exponent, abs_of_pos hy] at hmin ⊢
    omega
  have hlog : Int.log 2 x - 52 ≤ exponent x := by
    rw [exponent, abs_of_pos hx]
    exact le_max_left _ _
  have hx' : x ≤ 2 ^ Int.log 2 y := by
    have hlt : x < 2 ^ (Int.log 2 x + 1) := by exact_mod_cast Int.lt_zpow_succ_log_self (b := 2) (by norm_num) x
    exact hlt.le.trans (zpow_le_zpow_right₀ (by norm_num) (by omega))
  have hy' : (2 : ℚ) ^ Int.log 2 y ≤ y := by exact_mod_cast Int.zpow_log_le_self (by norm_num) hy
  have hpower : ∀ {e : ℤ}, e ≤ Int.log 2 y →
      (2 : ℚ) ^ Int.log 2 y = ((2 ^ (Int.log 2 y - e).toNat : ℤ) : ℚ) * 2 ^ e := by
    intro e hle
    push_cast
    rw [← zpow_natCast, ← zpow_add₀ (by norm_num), Int.toNat_of_nonneg (by omega), sub_add_cancel]
  calc round x ≤ 2 ^ Int.log 2 y := by
        rw [hpower (e := exponent x) (by omega)] at hx' ⊢
        exact round_le hx'
    _ ≤ round y := by
        rw [hpower (e := exponent y) (by omega)] at hy' ⊢
        exact le_round hy'

theorem round_le_of_pos {x y : ℚ} (hx : 0 < x) (hxy : x ≤ y) : round x ≤ round y := by
  rcases lt_trichotomy (exponent x) (exponent y) with he | he | he
  · exact round_le_of_lt hx hxy he
  · have hunit := unit_pos (exponent y)
    rw [round, round, he]
    have hn := nearestEven_mono (div_le_div_of_nonneg_right hxy hunit.le)
    exact mul_le_mul_of_nonneg_right (by exact_mod_cast hn) hunit.le
  · have hlog := Int.log_mono_right (b := 2) hx hxy
    rw [exponent, exponent, abs_of_pos hx, abs_of_pos (hx.trans_le hxy)] at he
    omega

/-- **Rounding keeps the order.** -/
theorem round_mono : Monotone round := by
  intro x y hxy
  rcases lt_or_ge 0 x with hx | hx
  · exact round_le_of_pos hx hxy
  · rcases lt_or_ge y 0 with hy | hy
    · have h := round_le_of_pos (neg_pos.mpr hy) (neg_le_neg hxy)
      rw [round_neg, round_neg] at h
      exact neg_le_neg_iff.mp h
    · -- Zero is between them.
      have h := round_nonneg (neg_nonneg.mpr hx)
      rw [round_neg] at h
      exact (neg_nonneg.mp h).trans (round_nonneg hy)

end Double
