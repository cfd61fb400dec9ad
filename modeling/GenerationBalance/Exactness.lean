/-
Converting money to micro-dollars: exact or refused, but for the amounts the
context rounds onto a whole number of micro-dollars before the check looks.

`moneyToMicros` checks the scaled amount, which the context has already cut to
its 28 digits. So the check sees the rounded number: it is right about every
amount of at most 28 digits, and about a longer one exactly when the amount is
no near miss of a number that the context keeps and the check accepts.
-/
import GenerationBalance.Redis

namespace Decimal

/-! ## Rounding to the context -/

/-- The digits the context drops from a coefficient. -/
def dropped (d : Decimal) : ℕ := Nat.log 10 d.coeff.natAbs + 1 - prec

/-- The exponent of the last digit the context keeps. -/
def lastExp (d : Decimal) : ℤ := d.exp + d.dropped

theorem roundHalfEven_zero (c : ℤ) : roundHalfEven c 0 = c := by simp [roundHalfEven]

theorem dropped_of_lt {d : Decimal} (h : d.coeff.natAbs < 10 ^ prec) : d.dropped = 0 := by
  unfold dropped
  by_cases h0 : d.coeff.natAbs = 0
  · simp [h0, prec]
  · have := Nat.log_lt_of_lt_pow h0 h
    omega

/-- What is rounded is within half a unit of the last digit kept. -/
theorem roundHalfEven_near (c : ℤ) (k : ℕ) : 2 * |c - roundHalfEven c k * 10 ^ k| ≤ 10 ^ k := by
  have hpos : (0 : ℤ) < 10 ^ k := by positivity
  have hdiv := Int.emod_add_mul_ediv c (10 ^ k)
  have hlo := Int.emod_nonneg c hpos.ne'
  have hhi := Int.emod_lt_of_pos c hpos
  unfold roundHalfEven
  generalize (10 : ℤ) ^ k = p at *
  have hup : (c / p + 1) * p = p * (c / p) + p := by ring
  rw [mul_comm] at hdiv
  have hdown : c - c / p * p = c % p := by linarith
  have hnext : c - (c / p + 1) * p = c % p - p := by linarith
  split
  · rw [hdown, abs_of_nonneg hlo]
    omega
  · split
    · rw [hnext, abs_of_nonpos (by omega)]
      omega
    · split
      · rw [hdown, abs_of_nonneg hlo]
        omega
      · rw [hnext, abs_of_nonpos (by omega)]
        omega

/-- A multiple of the last digit's unit that is nearer than half a unit is the rounded
number, and so is an even one at half a unit. -/
theorem roundHalfEven_unique {c m : ℤ} {k : ℕ} (h : 2 * |c - m * 10 ^ k| ≤ 10 ^ k)
    (heven : m % 2 = 0) : roundHalfEven c k = m := by
  have hpos : (0 : ℤ) < 10 ^ k := by positivity
  have hdiv := Int.emod_add_mul_ediv c (10 ^ k)
  have hlo := Int.emod_nonneg c hpos.ne'
  have hhi := Int.emod_lt_of_pos c hpos
  unfold roundHalfEven
  generalize (10 : ℤ) ^ k = p at *
  -- The quotient is `m`, or `m - 1` when the number lies below its multiple.
  by_cases hge : m * p ≤ c
  · rw [abs_of_nonneg (by omega)] at h
    have hq : c / p = m := by
      rw [Int.ediv_eq_iff_of_pos hpos]
      constructor <;> nlinarith
    rw [hq] at hdiv ⊢
    have : c % p = c - m * p := by linarith
    simp only [if_pos heven]
    split
    · rfl
    · rw [if_neg (by omega)]
  · rw [abs_of_neg (by omega)] at h
    have hq : c / p = m - 1 := by
      rw [Int.ediv_eq_iff_of_pos hpos]
      constructor <;> nlinarith
    rw [hq] at hdiv ⊢
    have : c % p = c - m * p + p := by linarith
    rw [if_neg (by omega)]
    split
    · ring
    · rw [if_neg (by omega)]
      ring

theorem natAbs_lt_dropped {d : Decimal} (h : ¬ d.coeff.natAbs < 10 ^ prec) :
    |d.coeff| < 10 ^ prec * 10 ^ d.dropped := by
  have hlog : prec ≤ Nat.log 10 d.coeff.natAbs := Nat.le_log_of_pow_le (by norm_num) (not_lt.mp h)
  have hlt : d.coeff.natAbs < 10 ^ (Nat.log 10 d.coeff.natAbs + 1) := Nat.lt_pow_succ_log_self (by norm_num) _
  have hk : Nat.log 10 d.coeff.natAbs + 1 = prec + d.dropped := by
    unfold dropped
    omega
  rw [hk, pow_add] at hlt
  rw [Int.abs_eq_natAbs]
  exact_mod_cast hlt

/-- Rounding up makes at most a power of ten of one digit more. -/
theorem abs_roundHalfEven_le {d : Decimal} (h : ¬ d.coeff.natAbs < 10 ^ prec) :
    |roundHalfEven d.coeff d.dropped| ≤ 10 ^ prec := by
  have hbound := natAbs_lt_dropped h
  have hnear := roundHalfEven_near d.coeff d.dropped
  have hpos : (0 : ℤ) < 10 ^ d.dropped := by positivity
  generalize roundHalfEven d.coeff d.dropped = r at *
  generalize (10 : ℤ) ^ d.dropped = p at *
  have htri : |r * p| ≤ |d.coeff| + |d.coeff - r * p| := by
    have := abs_sub_abs_le_abs_sub (r * p) d.coeff
    rw [abs_sub_comm] at this
    linarith
  rw [abs_mul, abs_of_pos hpos] at htri
  have hle : |r| < 10 ^ prec + 1 := by
    by_contra hge
    nlinarith [not_lt.mp hge]
  omega

theorem ten_dvd_roundHalfEven {d : Decimal} (h : ¬ d.coeff.natAbs < 10 ^ prec)
    (hr : ¬ (roundHalfEven d.coeff d.dropped).natAbs < 10 ^ prec) : 10 ∣ roundHalfEven d.coeff d.dropped := by
  have hle := abs_roundHalfEven_le h
  have habs : |roundHalfEven d.coeff d.dropped| = 10 ^ prec := by
    have : (10 : ℤ) ^ prec ≤ |roundHalfEven d.coeff d.dropped| := by
      rw [Int.abs_eq_natAbs]
      exact_mod_cast not_lt.mp hr
    omega
  rw [← dvd_abs, habs]
  exact dvd_pow_self 10 (by decide)

theorem fix_of_dropped {d : Decimal} (h : ¬ d.coeff.natAbs < 10 ^ prec) :
    d.fix = if (roundHalfEven d.coeff d.dropped).natAbs < 10 ^ prec
      then ⟨roundHalfEven d.coeff d.dropped, d.exp + d.dropped⟩
      else ⟨roundHalfEven d.coeff d.dropped / 10, d.exp + d.dropped + 1⟩ := by
  unfold fix
  rw [if_neg h]
  rfl

/-- The context's results have no more digits than it keeps. -/
theorem natAbs_fix_lt (d : Decimal) : d.fix.coeff.natAbs < 10 ^ prec := by
  by_cases h : d.coeff.natAbs < 10 ^ prec
  · rwa [fix_of_lt h]
  rw [fix_of_dropped h]
  split
  · next hr => exact hr
  · have hle := abs_roundHalfEven_le h
    rw [abs_le] at hle
    unfold prec at *
    simp only
    omega

/-- **A result of the context** is the rounded coefficient at the last digit kept. -/
theorem toRat_fix_eq (d : Decimal) :
    d.fix.toRat = roundHalfEven d.coeff d.dropped * (10 : ℚ) ^ d.lastExp := by
  unfold lastExp
  by_cases hlt : d.coeff.natAbs < 10 ^ prec
  · rw [fix_of_lt hlt, dropped_of_lt hlt, roundHalfEven_zero]
    simp [toRat]
  rw [fix_of_dropped hlt]
  split
  · rfl
  next hr =>
  obtain ⟨t, ht⟩ := ten_dvd_roundHalfEven hlt hr
  rw [ht, Int.mul_ediv_cancel_left _ (by norm_num)]
  simp only [toRat]
  rw [zpow_add₀ (by norm_num : (10 : ℚ) ≠ 0) _ 1, zpow_one]
  push_cast
  ring

theorem toRat_fix_near (d : Decimal) : 2 * |d.toRat - d.fix.toRat| ≤ (10 : ℚ) ^ d.lastExp := by
  have hnear : 2 * |(d.coeff : ℚ) - roundHalfEven d.coeff d.dropped * 10 ^ d.dropped| ≤ 10 ^ d.dropped := by
    exact_mod_cast roundHalfEven_near d.coeff d.dropped
  have hdiff : d.toRat - d.fix.toRat =
      (d.coeff - roundHalfEven d.coeff d.dropped * 10 ^ d.dropped) * (10 : ℚ) ^ d.exp := by
    rw [toRat_fix_eq, lastExp, zpow_add₀ (by norm_num : (10 : ℚ) ≠ 0), zpow_natCast]
    simp only [toRat]
    ring
  rw [hdiff, abs_mul, abs_of_pos (unit_pos d.exp), ← mul_assoc, lastExp, add_comm,
    zpow_add₀ (by norm_num : (10 : ℚ) ≠ 0), zpow_natCast]
  exact mul_le_mul_of_nonneg_right hnear (unit_pos _).le

/-- Rounding takes away no more than half of a number. -/
theorem abs_toRat_le_fix (d : Decimal) : |d.toRat| ≤ 2 * |d.fix.toRat| := by
  by_cases h0 : d.coeff = 0
  · have hzero : d.toRat = 0 := by rw [toRat, h0, Int.cast_zero, zero_mul]
    rw [hzero, abs_zero]
    positivity
  have hunit : (10 : ℚ) ^ d.lastExp ≤ |d.toRat| := by
    have hdigit : 10 ^ d.dropped ≤ d.coeff.natAbs := by
      refine le_trans (Nat.pow_le_pow_right (by norm_num) ?_) (Nat.pow_log_le_self 10 (by omega))
      unfold dropped prec
      omega
    have hcoeff : (10 : ℚ) ^ d.dropped ≤ |(d.coeff : ℚ)| := by
      rw [← Int.cast_abs, Int.abs_eq_natAbs]
      exact_mod_cast hdigit
    rw [lastExp, toRat, abs_mul, abs_of_pos (unit_pos d.exp), add_comm,
      zpow_add₀ (by norm_num : (10 : ℚ) ≠ 0), zpow_natCast]
    exact mul_le_mul_of_nonneg_right hcoeff (unit_pos _).le
  have hnear := toRat_fix_near d
  have htri := abs_sub_abs_le_abs_sub d.toRat d.fix.toRat
  linarith

/-- A unit that is not finer than the last digit kept divides every result. -/
theorem toRat_fix_units {d : Decimal} {q : ℤ} (h : q ≤ d.lastExp) : ∃ n : ℤ, d.fix.toRat = n * (10 : ℚ) ^ q := by
  refine ⟨roundHalfEven d.coeff d.dropped * 10 ^ (d.lastExp - q).toNat, ?_⟩
  have hk : d.lastExp = ((d.lastExp - q).toNat : ℤ) + q := by omega
  rw [toRat_fix_eq]
  conv_lhs => rw [hk, zpow_add₀ (by norm_num : (10 : ℚ) ≠ 0), zpow_natCast]
  push_cast
  ring

/-- A number within half of its last digit of a number of coarser units is rounded onto it. -/
theorem toRat_fix_onto {d : Decimal} {q m : ℤ} (hq : d.lastExp < q)
    (h : 2 * |d.toRat - m * (10 : ℚ) ^ q| ≤ (10 : ℚ) ^ d.lastExp) : d.fix.toRat = m * (10 : ℚ) ^ q := by
  obtain ⟨i, hi⟩ : ∃ i : ℕ, q = (i + 1 : ℕ) + d.lastExp := ⟨(q - d.lastExp).toNat - 1, by omega⟩
  have hunit : (m : ℚ) * (10 : ℚ) ^ q = (m * 10 ^ (i + 1) : ℤ) * (10 : ℚ) ^ d.lastExp := by
    rw [hi, zpow_add₀ (by norm_num : (10 : ℚ) ≠ 0), zpow_natCast]
    push_cast
    ring
  have hlast : (10 : ℚ) ^ d.lastExp = 10 ^ d.dropped * (10 : ℚ) ^ d.exp := by
    rw [lastExp, add_comm, zpow_add₀ (by norm_num : (10 : ℚ) ≠ 0), zpow_natCast]
  rw [hunit] at h ⊢
  have hnear : 2 * |d.coeff - (m * 10 ^ (i + 1)) * 10 ^ d.dropped| ≤ (10 : ℤ) ^ d.dropped := by
    have hdiff : d.toRat - (m * 10 ^ (i + 1) : ℤ) * (10 : ℚ) ^ d.lastExp =
        (d.coeff - (m * 10 ^ (i + 1)) * 10 ^ d.dropped : ℤ) * (10 : ℚ) ^ d.exp := by
      rw [hlast]
      simp only [toRat]
      push_cast
      ring
    rw [hdiff, abs_mul, abs_of_pos (unit_pos d.exp), ← mul_assoc, hlast, mul_le_mul_iff_left₀ (unit_pos _)] at h
    exact_mod_cast h
  have heven : m * 10 ^ (i + 1) % 2 = 0 := by
    have : (2 : ℤ) ∣ m * 10 ^ (i + 1) := Dvd.dvd.mul_left (dvd_pow (by norm_num) (by omega)) m
    omega
  rw [toRat_fix_eq, roundHalfEven_unique hnear heven]

theorem toRat_scaleb (d : Decimal) (n : ℤ) : (d.scaleb n).toRat = d.fix.toRat * (10 : ℚ) ^ n := by
  show (fix ⟨d.coeff, d.exp + n⟩).toRat = _
  rw [toRat_fix_eq, toRat_fix_eq]
  simp only [lastExp, dropped]
  rw [add_right_comm, zpow_add₀ (by norm_num : (10 : ℚ) ≠ 0), mul_assoc]

/-! ## The whole numbers -/

theorem toIntegralValue_whole (d : Decimal) : ∃ n : ℤ, d.toIntegralValue.toRat = n := by
  unfold toIntegralValue
  split
  · next h => exact ⟨d.coeffAt 0, by rw [← coeffAt_toRat d h]; simp⟩
  · exact ⟨roundHalfEven d.coeff (-d.exp).toNat, by simp [toRat]⟩

/-- A whole number, however it is written, passes the test for one and converts to itself. -/
theorem whole_of_toRat {d : Decimal} {n : ℤ} (h : d.toRat = n) :
    (d == d.toIntegralValue) = true ∧ d.toInt = n := by
  by_cases hexp : 0 ≤ d.exp
  · have hu : IsUnits 0 d n := by
      refine ⟨hexp, ?_⟩
      rw [← coeffAt_toRat d hexp] at h
      simpa using h
    exact ⟨by rw [hu.toIntegralValue, beq_iff], hu.toInt⟩
  · have hcoeff := coeff_of_toRat (q := 0) (n := n) (by simpa using h) (by omega)
    have hd : d = ⟨n * 10 ^ (-d.exp).toNat, -((-d.exp).toNat : ℤ)⟩ := by
      cases d with
      | mk c e =>
        simp only at hcoeff hexp ⊢
        rw [Decimal.mk.injEq]
        exact ⟨by simpa using hcoeff, by omega⟩
    rw [hd]
    exact whole_toIntegralValue n _

theorem whole_iff (d : Decimal) : (d == d.toIntegralValue) = true ↔ ∃ n : ℤ, d.toRat = n := by
  constructor
  · intro h
    obtain ⟨n, hn⟩ := toIntegralValue_whole d
    exact ⟨n, ((beq_iff _ _).mp h).trans hn⟩
  · intro ⟨n, hn⟩
    exact (whole_of_toRat hn).1

end Decimal

namespace GenerationBalance

/-! ## `money_to_micros` -/

section MoneyToMicros

variable {d : Decimal} {n : ℤ}

/-- The amount converted is the one the context keeps. -/
theorem moneyToMicros_ok : moneyToMicros d = .ok n ↔ IsMicros d.fix n := by
  have hscale : (d.scaleb 6).toRat = n ↔ IsMicros d.fix n := by
    rw [Decimal.toRat_scaleb, IsMicros, zpow_neg, eq_mul_inv_iff_mul_eq₀ (Decimal.unit_pos 6).ne']
  rw [← hscale]
  by_cases hw : (d.scaleb 6 == (d.scaleb 6).toIntegralValue) = true
  · obtain ⟨m, hm⟩ := (Decimal.whole_iff _).mp hw
    simp only [moneyToMicros, bne, hw, Bool.not_true, Bool.false_eq_true, if_false, (Decimal.whole_of_toRat hm).2,
      Except.ok.injEq, hm, Int.cast_inj]
  · have hno : ¬ (d.scaleb 6).toRat = n := fun h => hw (Decimal.whole_of_toRat h).1
    simp [moneyToMicros, bne, hw, hno]

theorem moneyToMicros_refuses {e : Exn} (h : moneyToMicros d = .error e) : e = .finerThanQuantum d := by
  simp only [moneyToMicros] at h
  split at h
  · exact (Except.error.inj h).symm
  · cases h

/-- `money_to_micros` gives the amount's exact number of micro-dollars, or refuses an amount
that has none. -/
def ExactOrRefused (d : Decimal) : Prop :=
  match moneyToMicros d with
  | .ok n => IsMicros d n
  | .error e => e = .finerThanQuantum d ∧ ∀ n, ¬ IsMicros d n

/-- The amount lies within half a unit of its 28th digit of a whole number of micro-dollars
that 28 digits can write, and not on it. -/
def NearMiss (d : Decimal) : Prop :=
  ∃ m : ℤ, 0 < |d.toRat - m * (10 : ℚ) ^ max (-6) d.lastExp| ∧
    2 * |d.toRat - m * (10 : ℚ) ^ max (-6) d.lastExp| ≤ (10 : ℚ) ^ d.lastExp

/-- What the context keeps is a multiple of the near misses' unit as soon as it is a whole
number of micro-dollars. -/
theorem IsMicros.fix_unit (h : IsMicros d.fix n) :
    ∃ m : ℤ, d.fix.toRat = m * (10 : ℚ) ^ max (-6) d.lastExp := by
  rcases le_total (-6) d.lastExp with hle | hge
  · rw [max_eq_right hle]
    exact Decimal.toRat_fix_units (le_refl _)
  · rw [max_eq_left hge]
    exact ⟨n, h⟩

/-- A whole number of micro-dollars is converted, if only to a rounded one. -/
theorem IsMicros.fix (h : IsMicros d n) : ∃ m, IsMicros d.fix m := by
  rcases le_or_gt (-6) d.lastExp with hle | hgt
  · exact Decimal.toRat_fix_units hle
  · refine ⟨n, Decimal.toRat_fix_onto hgt ?_⟩
    rw [IsMicros] at h
    rw [h, sub_self, abs_zero, mul_zero]
    exact (Decimal.unit_pos _).le

/-- A near miss is rounded onto a whole number of micro-dollars that it is not. -/
theorem NearMiss.fix (h : NearMiss d) : ∃ n, IsMicros d.fix n ∧ ¬ IsMicros d n := by
  obtain ⟨m, hpos, hnear⟩ := h
  rcases le_or_gt (-6) d.lastExp with hle | hgt
  · rw [max_eq_right hle] at hpos hnear
    obtain ⟨n, hn⟩ := Decimal.toRat_fix_units hle
    refine ⟨n, hn, fun hd => ?_⟩
    -- An amount the context keeps exactly is no nearer than a whole unit to another one.
    obtain ⟨r, hr⟩ := Decimal.toRat_fix_units (d := d) (le_refl _)
    have hdr : d.toRat = r * (10 : ℚ) ^ d.lastExp := by rw [← hr, hn, hd]
    rw [hdr, ← sub_mul, abs_mul, abs_of_pos (Decimal.unit_pos _)] at hpos hnear
    have hlt : 2 * |(r : ℚ) - m| ≤ 1 := by
      rw [← mul_assoc] at hnear
      exact (mul_le_iff_le_one_left (Decimal.unit_pos _)).mp hnear
    have hint : 2 * |r - m| ≤ 1 := by exact_mod_cast hlt
    have hrm : |r - m| = 0 := by
      have := abs_nonneg (r - m)
      omega
    have : |(r : ℚ) - m| = 0 := by exact_mod_cast hrm
    rw [this, zero_mul] at hpos
    exact lt_irrefl _ hpos
  · rw [max_eq_left hgt.le] at hpos hnear
    refine ⟨m, Decimal.toRat_fix_onto hgt hnear, fun hd => ?_⟩
    rw [IsMicros] at hd
    rw [hd, sub_self, abs_zero] at hpos
    exact lt_irrefl _ hpos

theorem exactOrRefused_iff : ExactOrRefused d ↔ ¬ NearMiss d := by
  unfold ExactOrRefused
  cases hm : moneyToMicros d with
  | ok n =>
    have hfix := moneyToMicros_ok.mp hm
    constructor
    · intro hd hmiss
      obtain ⟨k, hk, hno⟩ := hmiss.fix
      rw [hfix.unique hk] at hd
      exact hno hd
    · intro hmiss
      by_contra hno
      obtain ⟨m, hunit⟩ := hfix.fix_unit
      have hne : d.toRat ≠ d.fix.toRat := fun h => hno (h.trans hfix)
      refine hmiss ⟨m, ?_, ?_⟩
      · rw [← hunit]
        exact abs_pos.mpr (sub_ne_zero.mpr hne)
      · rw [← hunit]
        exact Decimal.toRat_fix_near d
  | error e =>
    have hnone : ∀ n, ¬ IsMicros d.fix n := fun n h => by
      have := moneyToMicros_ok.mpr h
      rw [hm] at this
      cases this
    constructor
    · intro _ hmiss
      obtain ⟨n, hn, -⟩ := hmiss.fix
      exact hnone n hn
    · intro _
      refine ⟨moneyToMicros_refuses hm, fun n hn => ?_⟩
      obtain ⟨k, hk⟩ := hn.fix
      exact hnone k hk

/-- The context rounds no amount of at most 28 digits, so none of them is a near miss. -/
theorem not_nearMiss (h : d.coeff.natAbs < 10 ^ Decimal.prec) : ¬ NearMiss d := by
  intro hmiss
  obtain ⟨n, hn, hno⟩ := hmiss.fix
  rw [Decimal.fix_of_lt h] at hn
  exact hno hn

end MoneyToMicros

section ReadBack

variable {d : Decimal} {m n : ℤ}

/-- What is converted is read back as the amount the context keeps. -/
theorem toRat_microsToMoney (h : moneyToMicros d = .ok n) : (microsToMoney n).toRat = d.fix.toRat := by
  have hfix := moneyToMicros_ok.mp h
  have hn : (Decimal.ofInt n).toRat = d.fix.coeff * (10 : ℚ) ^ (d.fix.exp + 6) := by
    rw [zpow_add₀ (by norm_num : (10 : ℚ) ≠ 0), ← mul_assoc]
    show _ = d.fix.toRat * _
    rw [hfix, mul_assoc, ← zpow_add₀ (by norm_num : (10 : ℚ) ≠ 0)]
    simp [Decimal.ofInt, Decimal.toRat]
  rw [microsToMoney, Decimal.toRat_scaleb, Decimal.toRat_fix hn (Decimal.natAbs_fix_lt d), hfix]
  simp [Decimal.ofInt, Decimal.toRat]

/-- An amount that is converted is read back as it was, near misses apart. -/
theorem toRat_microsToMoney_iff (h : moneyToMicros d = .ok n) :
    (microsToMoney n).toRat = d.toRat ↔ ¬ NearMiss d := by
  have hexact : ExactOrRefused d ↔ d.toRat = n * (10 : ℚ) ^ (-6 : ℤ) := by
    simp only [ExactOrRefused, h]
    rfl
  rw [toRat_microsToMoney h, moneyToMicros_ok.mp h, ← exactOrRefused_iff, hexact, eq_comm]

/-- Micro-dollars that Redis can add are converted exactly. -/
theorem moneyToMicros_unique (hd : IsMicros d m) (h : moneyToMicros d = .ok n) (hn : |n| ≤ 2 ^ 64) : n = m := by
  have hle := Decimal.abs_toRat_le_fix d
  rw [hd, moneyToMicros_ok.mp h, abs_mul, abs_mul, abs_of_pos (Decimal.unit_pos _), ← mul_assoc,
    mul_le_mul_iff_left₀ (Decimal.unit_pos _)] at hle
  have hle : |m| ≤ 2 * |n| := by exact_mod_cast hle
  have hm : Fits m := by
    unfold Fits Decimal.prec
    rw [Int.abs_eq_natAbs, Int.abs_eq_natAbs] at hle
    rw [Int.abs_eq_natAbs] at hn
    omega
  rw [moneyToMicros_of_isMicros hd hm] at h
  exact (Except.ok.inj h).symm

end ReadBack

/-- **Money is converted exactly or refused**, near misses apart; and every 64-bit number of
micro-dollars is converted exactly both ways. -/
theorem moneyToMicros_exactly (amount : Decimal) (n : ℤ) :
    (ExactOrRefused amount ↔ ¬ NearMiss amount) ∧
      (InRange n → (microsToMoney n).toRat = n * (10 : ℚ) ^ (-6 : ℤ) ∧ moneyToMicros (microsToMoney n) = .ok n) := by
  refine ⟨exactOrRefused_iff, fun hn => ?_⟩
  exact ⟨isMicros_microsToMoney hn.fits, moneyToMicros_microsToMoney hn.fits⟩

/-- A dollar and `10 ^ -28` more, written with 29 digits, converts to a dollar. -/
theorem moneyToMicros_rounds :
    moneyToMicros ⟨10 ^ 28 + 1, -28⟩ = .ok 1000000 ∧ ¬ ExactOrRefused ⟨10 ^ 28 + 1, -28⟩ := by
  have hok : moneyToMicros ⟨10 ^ 28 + 1, -28⟩ = .ok 1000000 := by decide +kernel
  refine ⟨hok, fun h => ?_⟩
  simp only [ExactOrRefused, hok, IsMicros, Decimal.toRat] at h
  norm_num at h

end GenerationBalance
