/-
Finite decimal numbers and the default decimal context: 28 significant
digits, results rounded half to even. A number is a signed coefficient and an
exponent of ten; negative zero is not told from zero.
-/
import Mathlib.Algebra.Order.Ring.Int
import Mathlib.Algebra.Order.Field.Power
import Mathlib.Algebra.Order.Field.Rat
import Mathlib.Algebra.Order.Ring.Rat
import Mathlib.Data.Int.Order.Basic
import Mathlib.Data.Nat.Log
import Mathlib.Data.Rat.Floor
import Mathlib.Tactic.FieldSimp
import Mathlib.Tactic.Linarith
import Mathlib.Tactic.NormNum
import Mathlib.Tactic.Positivity
import Mathlib.Tactic.Ring

/-- `coeff * 10 ^ exp`. -/
structure Decimal where
  coeff : ℤ
  exp : ℤ
deriving DecidableEq, Repr

namespace Decimal

/-- The context's precision: the digits a rounded result keeps. -/
def prec : ℕ := 28

/-- The coefficient of a number written with the exponent `e`, for `e ≤ exp`. -/
def coeffAt (d : Decimal) (e : ℤ) : ℤ := d.coeff * 10 ^ (d.exp - e).toNat

/-- The coefficient without its last `k` digits, rounded half to even. -/
def roundHalfEven (c : ℤ) (k : ℕ) : ℤ :=
  if 2 * (c % 10 ^ k) < 10 ^ k then c / 10 ^ k
  else if 10 ^ k < 2 * (c % 10 ^ k) then c / 10 ^ k + 1
  else if c / 10 ^ k % 2 = 0 then c / 10 ^ k else c / 10 ^ k + 1

/-- The coefficient without its last `k` digits, rounded towards zero. -/
def roundDown (c : ℤ) (k : ℕ) : ℤ := c.tdiv (10 ^ k)

/-- A result as the context keeps it: rounded to `prec` digits when it has more. -/
def fix (d : Decimal) : Decimal :=
  if d.coeff.natAbs < 10 ^ prec then d
  else
    let k := Nat.log 10 d.coeff.natAbs + 1 - prec
    let c := roundHalfEven d.coeff k
    if c.natAbs < 10 ^ prec then ⟨c, d.exp + k⟩ else ⟨c / 10, d.exp + k + 1⟩

def ofInt (n : ℤ) : Decimal := ⟨n, 0⟩

instance : Zero Decimal := ⟨⟨0, 0⟩⟩

/-- Comparison is exact: no context rounds it. -/
instance : LT Decimal := ⟨fun a b => a.coeffAt (min a.exp b.exp) < b.coeffAt (min a.exp b.exp)⟩

instance : DecidableLT Decimal := fun a b =>
  inferInstanceAs (Decidable (a.coeffAt (min a.exp b.exp) < b.coeffAt (min a.exp b.exp)))

/-- Numbers are equal by value, not by digits: `1.0 == 1.00`. -/
instance : BEq Decimal := ⟨fun a b => a.coeffAt (min a.exp b.exp) == b.coeffAt (min a.exp b.exp)⟩

instance : Add Decimal :=
  ⟨fun a b => fix ⟨a.coeffAt (min a.exp b.exp) + b.coeffAt (min a.exp b.exp), min a.exp b.exp⟩⟩

instance : Sub Decimal :=
  ⟨fun a b => fix ⟨a.coeffAt (min a.exp b.exp) - b.coeffAt (min a.exp b.exp), min a.exp b.exp⟩⟩

/-- The number times `10 ^ n`, rounded to the context. -/
def scaleb (d : Decimal) (n : ℤ) : Decimal := fix ⟨d.coeff, d.exp + n⟩

/-- The number written with the exponent `e`; `none` (an invalid operation)
when that takes more than `prec` digits. -/
def quantize (d : Decimal) (e : ℤ) (round : ℤ → ℕ → ℤ) : Option Decimal :=
  let c := if e ≤ d.exp then d.coeffAt e else round d.coeff (e - d.exp).toNat
  if c.natAbs < 10 ^ prec then some ⟨c, e⟩ else none

/-- The nearest whole number. -/
def toIntegralValue (d : Decimal) : Decimal :=
  if 0 ≤ d.exp then d else ⟨roundHalfEven d.coeff (-d.exp).toNat, 0⟩

/-- The whole part. -/
def toInt (d : Decimal) : ℤ :=
  if 0 ≤ d.exp then d.coeffAt 0 else roundDown d.coeff (-d.exp).toNat

/-- The value as a rational number. -/
def toRat (d : Decimal) : ℚ := d.coeff * (10 : ℚ) ^ d.exp

/-! ## Values -/

theorem coeffAt_toRat (d : Decimal) {e : ℤ} (h : e ≤ d.exp) : (d.coeffAt e : ℚ) * (10 : ℚ) ^ e = d.toRat := by
  have hk : d.exp = ((d.exp - e).toNat : ℤ) + e := by omega
  unfold coeffAt toRat
  rw [Int.cast_mul, mul_assoc]
  conv_rhs => rw [hk, zpow_add₀ (by norm_num : (10 : ℚ) ≠ 0), zpow_natCast]
  norm_num

@[simp] theorem toRat_zero : (0 : Decimal).toRat = 0 := by
  show ((0 : ℤ) : ℚ) * _ = 0
  simp

theorem unit_pos (e : ℤ) : (0 : ℚ) < (10 : ℚ) ^ e := zpow_pos (by norm_num) e

theorem lt_iff (a b : Decimal) : a < b ↔ a.toRat < b.toRat := by
  rw [← coeffAt_toRat a (min_le_left a.exp b.exp), ← coeffAt_toRat b (min_le_right a.exp b.exp),
    mul_lt_mul_iff_left₀ (unit_pos _), Int.cast_lt]
  rfl

theorem beq_iff (a b : Decimal) : (a == b) = true ↔ a.toRat = b.toRat := by
  rw [← coeffAt_toRat a (min_le_left a.exp b.exp), ← coeffAt_toRat b (min_le_right a.exp b.exp),
    mul_left_inj' (unit_pos _).ne', Int.cast_inj]
  exact beq_iff_eq (α := ℤ)

/-- A result of at most `prec` digits is kept as it is. -/
theorem fix_of_lt {d : Decimal} (h : d.coeff.natAbs < 10 ^ prec) : d.fix = d := by
  simp [fix, h]

/-! ## Numbers that are whole multiples of a power of ten

`d.IsUnits q n`: the number is written with an exponent of at least `q` and
is `n` units of `10 ^ q`. On such numbers the context rounds nothing as long
as the number of units stays below `10 ^ prec`. -/

/-- `d` is `n` units of `10 ^ q`. -/
def IsUnits (q : ℤ) (d : Decimal) (n : ℤ) : Prop := q ≤ d.exp ∧ d.coeffAt q = n

section Units

variable {q : ℤ} {a b : Decimal} {m n : ℤ}

theorem IsUnits.toRat (h : IsUnits q a n) : a.toRat = n * (10 : ℚ) ^ q := by
  rw [← coeffAt_toRat a h.1, h.2]

/-- The digits of a number of units never exceed the number of units. -/
theorem natAbs_le_of_mul {c : ℤ} {k : ℕ} (h : c * 10 ^ k = n) : c.natAbs ≤ n.natAbs := by
  rw [← h, Int.natAbs_mul]
  have : 0 < ((10 : ℤ) ^ k).natAbs := Int.natAbs_pos.mpr (by positivity)
  exact Nat.le_mul_of_pos_right _ this

theorem IsUnits.fix (h : IsUnits q a n) (hn : n.natAbs < 10 ^ prec) : a.fix = a :=
  fix_of_lt (lt_of_le_of_lt (natAbs_le_of_mul h.2) hn)

/-- A whole number scaled by `10 ^ q` is that number of units. -/
theorem isUnits_scaleb_ofInt (hn : n.natAbs < 10 ^ prec) : (ofInt n).scaleb q = ⟨n, q⟩ := by
  unfold scaleb ofInt
  rw [fix_of_lt hn, zero_add]

theorem isUnits_mk (q n : ℤ) : IsUnits q ⟨n, q⟩ n := ⟨le_refl _, by simp [coeffAt]⟩

/-- Scaled up by its unit, a number of units is that whole number. -/
theorem IsUnits.scaleb (h : IsUnits q a n) (hn : n.natAbs < 10 ^ prec) :
    IsUnits 0 (a.scaleb (-q)) n := by
  have hu : IsUnits 0 ⟨a.coeff, a.exp + -q⟩ n := by
    refine ⟨by have := h.1; show 0 ≤ a.exp + -q; omega, ?_⟩
    have := h.2
    unfold coeffAt at this ⊢
    simpa [← sub_eq_add_neg] using this
  show IsUnits 0 (Decimal.fix _) n
  rwa [hu.fix hn]

theorem IsUnits.toInt (h : IsUnits 0 a n) : a.toInt = n := by
  simp [Decimal.toInt, h.1, h.2]

theorem IsUnits.toIntegralValue (h : IsUnits 0 a n) : a.toIntegralValue = a := by
  simp [Decimal.toIntegralValue, h.1]

end Units

/-! ## Rounding down -/

/-- The whole units of `10 ^ q` in a number. -/
def units (q : ℤ) (d : Decimal) : ℤ := ⌊d.toRat / (10 : ℚ) ^ q⌋

theorem IsUnits.units {q n : ℤ} {d : Decimal} (h : IsUnits q d n) : d.units q = n := by
  unfold Decimal.units
  rw [h.toRat, mul_div_cancel_right₀ _ (unit_pos q).ne', Int.floor_intCast]

/-- The coefficient that rounding a non-negative number down keeps. -/
theorem roundDown_units {d : Decimal} {q : ℤ} (h0 : 0 ≤ d.coeff) (hq : ¬ q ≤ d.exp) :
    roundDown d.coeff (q - d.exp).toNat = d.units q := by
  have hk : d.exp = q - ((q - d.exp).toNat : ℤ) := by omega
  have hr : d.toRat / (10 : ℚ) ^ q = d.coeff / ((10 ^ (q - d.exp).toNat : ℕ) : ℚ) := by
    unfold toRat
    conv_lhs => rw [hk, zpow_sub₀ (by norm_num : (10 : ℚ) ≠ 0), zpow_natCast]
    have := (unit_pos q).ne'
    push_cast
    field_simp
  unfold units roundDown
  rw [hr, Rat.floor_intCast_div_natCast, Int.tdiv_eq_ediv_of_nonneg h0]
  push_cast
  rfl

theorem quantize_some {d r : Decimal} {e : ℤ} {round : ℤ → ℕ → ℤ} (h : d.quantize e round = some r) :
    ∃ c, c.natAbs < 10 ^ prec ∧ r = ⟨c, e⟩ := by
  simp only [quantize, Option.ite_none_right_eq_some, Option.some.injEq] at h
  exact ⟨_, h.1, h.2.symm⟩

/-- **Quantizing down** keeps the whole units of a non-negative number. -/
theorem quantize_down {d : Decimal} {q : ℤ} (h0 : 0 ≤ d.coeff) (hf : (d.units q).natAbs < 10 ^ prec) :
    d.quantize q roundDown = some ⟨d.units q, q⟩ := by
  unfold quantize
  by_cases hq : q ≤ d.exp
  · have hu : IsUnits q d (d.coeffAt q) := ⟨hq, rfl⟩
    rw [hu.units] at hf ⊢
    simp only [if_pos hq, if_pos hf]
  · simp only [if_neg hq, roundDown_units h0 hq, if_pos hf]

theorem units_mono {a b : Decimal} (q : ℤ) (h : ¬ b < a) : a.units q ≤ b.units q := by
  rw [lt_iff, not_lt] at h
  exact Int.floor_le_floor (div_le_div_of_nonneg_right h (unit_pos q).le)

/-- A number has a whole unit when it is not below one. -/
theorem one_le_units {q : ℤ} {d : Decimal} : 1 ≤ d.units q ↔ ¬ d < ⟨1, q⟩ := by
  have hone : (⟨1, q⟩ : Decimal).toRat = (10 : ℚ) ^ q := by simp [toRat]
  unfold units
  rw [Int.le_floor, Int.cast_one, le_div_iff₀ (unit_pos q), one_mul, lt_iff, not_lt, hone]

theorem lt_zero_iff {d : Decimal} : d < 0 ↔ d.coeff < 0 := by
  rw [lt_iff, toRat_zero]
  unfold toRat
  rw [mul_neg_iff]
  constructor
  · rintro (⟨-, h⟩ | ⟨h, -⟩)
    · exact absurd h (not_lt.mpr (unit_pos _).le)
    · exact_mod_cast h
  · exact fun h => .inr ⟨by exact_mod_cast h, unit_pos _⟩

/-! ## Numbers written with more digits than they need -/

theorem roundHalfEven_mul (n : ℤ) {j k : ℕ} (h : j ≤ k) : roundHalfEven (n * 10 ^ k) j = n * 10 ^ (k - j) := by
  have hk : n * 10 ^ k = n * 10 ^ (k - j) * 10 ^ j := by
    rw [mul_assoc, ← pow_add, Nat.sub_add_cancel h]
  have hpos : (0 : ℤ) < 10 ^ j := by positivity
  unfold roundHalfEven
  rw [hk, Int.mul_emod_left, mul_zero, if_pos hpos, Int.mul_ediv_cancel _ hpos.ne']

/-- Digits beyond the precision that are zeros are dropped. -/
theorem fix_mul {n : ℤ} (hn : n.natAbs < 10 ^ prec) (k : ℕ) (e : ℤ) :
    ∃ j ≤ k, fix ⟨n * 10 ^ k, e⟩ = ⟨n * 10 ^ (k - j), e + j⟩ := by
  by_cases hlt : (n * 10 ^ k).natAbs < 10 ^ prec
  · exact ⟨0, Nat.zero_le k, by simpa using fix_of_lt (d := ⟨n * 10 ^ k, e⟩) hlt⟩
  have habs : (n * 10 ^ k).natAbs = n.natAbs * 10 ^ k := by
    rw [Int.natAbs_mul, Int.natAbs_pow]
    rfl
  have hne : (n * 10 ^ k).natAbs ≠ 0 := by
    have : 0 < 10 ^ prec := by positivity
    omega
  -- The digits that are dropped.
  have hj : Nat.log 10 (n * 10 ^ k).natAbs + 1 - prec ≤ k := by
    have : Nat.log 10 (n * 10 ^ k).natAbs < prec + k := by
      refine Nat.log_lt_of_lt_pow hne ?_
      rw [habs, pow_add]
      exact Nat.mul_lt_mul_of_pos_right hn (by positivity)
    omega
  refine ⟨_, hj, ?_⟩
  have hsmall : (n * 10 ^ (k - (Nat.log 10 (n * 10 ^ k).natAbs + 1 - prec))).natAbs < 10 ^ prec := by
    generalize hJ : Nat.log 10 (n * 10 ^ k).natAbs + 1 - prec = j at hj ⊢
    have hprec : prec ≤ Nat.log 10 (n * 10 ^ k).natAbs := by
      exact Nat.le_log_of_pow_le (by norm_num) (not_lt.mp hlt)
    have htop : (n * 10 ^ k).natAbs < 10 ^ (prec + j) := by
      rw [show prec + j = Nat.log 10 (n * 10 ^ k).natAbs + 1 by omega]
      exact Nat.lt_pow_succ_log_self (by norm_num) _
    have hsplit : (n * 10 ^ k).natAbs = (n * 10 ^ (k - j)).natAbs * 10 ^ j := by
      rw [habs, Int.natAbs_mul, Int.natAbs_pow, mul_assoc]
      show n.natAbs * 10 ^ k = n.natAbs * (10 ^ (k - j) * 10 ^ j)
      rw [← pow_add, Nat.sub_add_cancel hj]
    rw [hsplit, pow_add] at htop
    exact Nat.lt_of_mul_lt_mul_right htop
  unfold fix
  rw [if_neg hlt]
  simp only [roundHalfEven_mul n hj, if_pos hsmall]

/-- A whole number that is written with trailing zeros behind the point. -/
theorem whole_toIntegralValue (n : ℤ) (m : ℕ) :
    ((⟨n * 10 ^ m, -m⟩ : Decimal) == (⟨n * 10 ^ m, -m⟩ : Decimal).toIntegralValue) = true ∧
      (⟨n * 10 ^ m, -m⟩ : Decimal).toInt = n := by
  rw [beq_iff]
  cases m with
  | zero => exact ⟨rfl, by simp [toInt, coeffAt]⟩
  | succ m =>
    have hneg : ¬ (0 : ℤ) ≤ -((m + 1 : ℕ) : ℤ) := by omega
    have hnat : (-(-((m + 1 : ℕ) : ℤ))).toNat = m + 1 := by omega
    have hpos : (0 : ℤ) < 10 ^ (m + 1) := by positivity
    simp only [toIntegralValue, toInt, if_neg hneg, hnat, roundHalfEven_mul n (le_refl _), Nat.sub_self, pow_zero,
      mul_one]
    refine ⟨?_, ?_⟩
    · simp only [toRat, zpow_neg, zpow_natCast, zpow_zero, mul_one]
      push_cast
      rw [mul_assoc, mul_inv_cancel₀ (by positivity), mul_one]
    · unfold roundDown
      exact Int.mul_tdiv_cancel _ hpos.ne'

/-- A number of `n` units that is written with more digits than the units need. -/
theorem coeff_of_toRat {d : Decimal} {q n : ℤ} (h : d.toRat = n * (10 : ℚ) ^ q) (hq : d.exp ≤ q) :
    d.coeff = n * 10 ^ (q - d.exp).toNat := by
  have hk : q = ((q - d.exp).toNat : ℤ) + d.exp := by omega
  unfold toRat at h
  conv_rhs at h => rw [hk, zpow_add₀ (by norm_num : (10 : ℚ) ≠ 0), zpow_natCast, ← mul_assoc]
  have := mul_right_cancel₀ (unit_pos d.exp).ne' h
  exact_mod_cast this

/-- Quantizing to its own unit keeps a number of units, when they are not too many. -/
theorem quantize_exact {d : Decimal} {q n : ℤ} (h : d.toRat = n * (10 : ℚ) ^ q) :
    d.quantize q roundHalfEven = if n.natAbs < 10 ^ prec then some ⟨n, q⟩ else none := by
  unfold quantize
  by_cases hq : q ≤ d.exp
  · have hc : d.coeffAt q = n := by
      rw [← coeffAt_toRat d hq, mul_left_inj' (unit_pos _).ne', Int.cast_inj] at h
      exact h
    simp only [if_pos hq, hc]
  · have hc : roundHalfEven d.coeff (q - d.exp).toNat = n := by
      rw [coeff_of_toRat h (by omega), roundHalfEven_mul n (le_refl _), Nat.sub_self, pow_zero, mul_one]
    simp only [if_neg hq, hc]

/-! ## Exact results

A result whose value is a number of units of at most `prec` digits is kept exactly,
however many digits its operands are written with. -/

section Exact

variable {a b : Decimal} {q n : ℤ}

theorem toRat_fix (h : a.toRat = n * (10 : ℚ) ^ q) (hn : n.natAbs < 10 ^ prec) : a.fix.toRat = a.toRat := by
  by_cases hq : q ≤ a.exp
  · rw [← coeffAt_toRat a hq, mul_left_inj' (unit_pos _).ne', Int.cast_inj] at h
    rw [IsUnits.fix ⟨hq, h⟩ hn]
  · have hcoeff := coeff_of_toRat h (by omega)
    obtain ⟨j, hj, hfix⟩ := fix_mul hn (q - a.exp).toNat a.exp
    have ha : a = ⟨n * 10 ^ (q - a.exp).toNat, a.exp⟩ := by rw [← hcoeff]
    have hpow : (10 : ℚ) ^ (q - a.exp).toNat = 10 ^ ((q - a.exp).toNat - j) * 10 ^ j := by
      rw [← pow_add, Nat.sub_add_cancel hj]
    conv_lhs => rw [ha, hfix]
    conv_rhs => rw [ha]
    simp only [toRat]
    push_cast
    rw [zpow_add₀ (by norm_num : (10 : ℚ) ≠ 0), zpow_natCast, hpow]
    ring

theorem toRat_add (h : a.toRat + b.toRat = n * (10 : ℚ) ^ q) (hn : n.natAbs < 10 ^ prec) :
    (a + b).toRat = a.toRat + b.toRat := by
  have hsum : (⟨a.coeffAt (min a.exp b.exp) + b.coeffAt (min a.exp b.exp), min a.exp b.exp⟩ : Decimal).toRat =
      a.toRat + b.toRat := by
    rw [← coeffAt_toRat a (min_le_left a.exp b.exp), ← coeffAt_toRat b (min_le_right a.exp b.exp), ← add_mul]
    simp [toRat]
  rw [← hsum] at h ⊢
  exact toRat_fix h hn

theorem toRat_sub (h : a.toRat - b.toRat = n * (10 : ℚ) ^ q) (hn : n.natAbs < 10 ^ prec) :
    (a - b).toRat = a.toRat - b.toRat := by
  have hdiff : (⟨a.coeffAt (min a.exp b.exp) - b.coeffAt (min a.exp b.exp), min a.exp b.exp⟩ : Decimal).toRat =
      a.toRat - b.toRat := by
    rw [← coeffAt_toRat a (min_le_left a.exp b.exp), ← coeffAt_toRat b (min_le_right a.exp b.exp), ← sub_mul]
    simp [toRat]
  rw [← hdiff] at h ⊢
  exact toRat_fix h hn

end Exact

end Decimal

/-- What a decimal computation may meet: a finite number, an infinity (negative
or not), or not a number. -/
inductive Number where
  | finite (d : Decimal)
  | infinity (negative : Bool)
  | nan
deriving DecidableEq, Repr

/-- `a < b`; `none` (an invalid operation) when one is not a number. -/
def Number.lt? : Number → Number → Option Bool
  | .nan, _ | _, .nan => none
  | .finite a, .finite b => some (decide (a < b))
  | .infinity n, .infinity m => some (n && !m)
  | .infinity n, .finite _ => some n
  | .finite _, .infinity m => some !m
