/-
Numbers in text: integers as their digits, decimal numbers in plain notation, with
no exponent. What is printed is read back, an integer as itself and a decimal
number as one of the same value.
-/
import GenerationBalance.Decimal
import Mathlib.Data.Char
import Mathlib.Data.List.TakeWhile
import Std.Data.String.ToInt

/-! ## Digits -/

namespace Numeral

theorem isDigit_toDigits (n : ℕ) : (Nat.toDigits 10 n).all Char.isDigit = true :=
  List.all_eq_true.mpr fun _ hc => Nat.isDigit_of_mem_toDigits (by decide) (by decide) hc

/-- The digits of a number behind the point, `k` of them. -/
def padded (k n : ℕ) : List Char := List.leftpad k '0' (Nat.toDigits 10 n)

theorem isDigit_padded (k n : ℕ) : (padded k n).all Char.isDigit = true := by
  rw [padded, List.leftpad, List.all_append, isDigit_toDigits, Bool.and_true, List.all_replicate]
  split <;> rfl

theorem length_padded {k n : ℕ} (hk : 0 < k) (h : n < 10 ^ k) : (padded k n).length = k := by
  have hlen := (Nat.length_toDigits_le_iff (by decide) hk).mpr h
  rw [padded, List.leftpad, List.length_append, List.length_replicate, Nat.sub_add_cancel hlen]

theorem ofDigitChars_padded_zero (k n : ℕ) : Nat.ofDigitChars 10 (padded k n) 0 = n := by
  rw [padded, List.leftpad, Nat.ofDigitChars_append, Nat.ofDigitChars_replicate_zero, Nat.mul_zero,
    Nat.ofDigitChars_ten_toDigits]

theorem ofDigitChars_padded {k n : ℕ} (hk : 0 < k) (h : n < 10 ^ k) (m : ℕ) :
    Nat.ofDigitChars 10 (padded k n) m = 10 ^ k * m + n := by
  have hlen := (Nat.length_toDigits_le_iff (by decide) hk).mpr h
  rw [padded, List.leftpad, Nat.ofDigitChars_append, Nat.ofDigitChars_replicate_zero,
    Nat.ofDigitChars_eq_ofDigitChars_zero, Nat.ofDigitChars_ten_toDigits, ← mul_assoc, ← pow_add,
    Nat.add_sub_cancel' hlen]

theorem ne_point {cs : List Char} (h : cs.all Char.isDigit = true) : ∀ c ∈ cs, (c != '.') = true := by
  intro c hc
  rw [bne_iff_ne]
  rintro rfl
  exact absurd (List.all_eq_true.mp h _ hc) (by decide)

/-- Digits, or digits and a point and digits: the number without the point, and how many digits are
behind it. -/
def read (cs : List Char) : Option (ℕ × ℕ) :=
  let behind := (cs.dropWhile (· != '.')).drop 1
  let digits := cs.takeWhile (· != '.') ++ behind
  if digits.all Char.isDigit ∧ digits ≠ [] then some (Nat.ofDigitChars 10 digits 0, behind.length) else none

theorem read_toDigits (n : ℕ) : read (Nat.toDigits 10 n) = some (n, 0) := by
  have hdigits := isDigit_toDigits n
  have htake := List.takeWhile_eq_self_iff.mpr (ne_point hdigits)
  have hdrop := List.dropWhile_eq_nil_iff.mpr (ne_point hdigits)
  simp only [read, htake, hdrop, List.drop_nil, List.append_nil, List.length_nil, Nat.ofDigitChars_ten_toDigits]
  exact if_pos ⟨hdigits, Nat.toDigits_ne_nil⟩

theorem read_point {k : ℕ} (hk : 0 < k) (n : ℕ) :
    read (Nat.toDigits 10 (n / 10 ^ k) ++ '.' :: padded k (n % 10 ^ k)) = some (n, k) := by
  have hdigits := isDigit_toDigits (n / 10 ^ k)
  have hlt : n % 10 ^ k < 10 ^ k := Nat.mod_lt _ (Nat.pow_pos (by decide))
  have htake : (Nat.toDigits 10 (n / 10 ^ k) ++ '.' :: padded k (n % 10 ^ k)).takeWhile (· != '.') =
      Nat.toDigits 10 (n / 10 ^ k) := by
    rw [List.takeWhile_append_of_pos (ne_point hdigits), List.takeWhile_cons_of_neg (by decide), List.append_nil]
  have hdrop : (Nat.toDigits 10 (n / 10 ^ k) ++ '.' :: padded k (n % 10 ^ k)).dropWhile (· != '.') =
      '.' :: padded k (n % 10 ^ k) := by
    rw [List.dropWhile_append_of_pos (ne_point hdigits), List.dropWhile_cons_of_neg (by decide)]
  have hvalue : Nat.ofDigitChars 10 (Nat.toDigits 10 (n / 10 ^ k) ++ padded k (n % 10 ^ k)) 0 = n := by
    rw [Nat.ofDigitChars_append, Nat.ofDigitChars_ten_toDigits, ofDigitChars_padded hk hlt, Nat.div_add_mod]
  simp only [read, htake, hdrop, List.drop_succ_cons, List.drop_zero, hvalue, length_padded hk hlt]
  refine if_pos ⟨?_, by simp⟩
  rw [List.all_append, hdigits, isDigit_padded, Bool.and_self]

/-- A sign before the digits. -/
def signed (negative : Bool) (digits : List Char) : String := String.ofList (if negative then '-' :: digits else digits)

/-- The digits behind a sign, and whether it is there. -/
def unsigned (raw : String) : Bool × List Char :=
  match raw.toList with
  | '-' :: cs => (true, cs)
  | cs => (false, cs)

theorem unsigned_signed (negative : Bool) {digits : List Char} (h : ∀ cs, digits ≠ '-' :: cs) :
    unsigned (signed negative digits) = (negative, digits) := by
  unfold unsigned signed
  rw [String.toList_ofList]
  cases negative with
  | true => rfl
  | false =>
    split
    · next cs hcs => exact absurd hcs (h cs)
    · rfl

theorem ne_sign {cs : List Char} (h : cs.all Char.isDigit = true) (hne : cs ≠ []) (tail : List Char) :
    ∀ rest, cs ++ tail ≠ '-' :: rest := by
  intro rest he
  cases cs with
  | nil => exact hne rfl
  | cons c cs =>
    cases he
    exact absurd (List.all_eq_true.mp h '-' (List.mem_cons_self ..)) (by decide)

/-! ### Digits in the order of the numbers -/

theorem digit_bounds {c : Char} (h : c.isDigit = true) : '0'.toNat ≤ c.toNat ∧ c.toNat ≤ '9'.toNat := by
  simp only [Char.isDigit, ge_iff_le, Bool.and_eq_true, decide_eq_true_eq] at h
  exact h

/-- A number that is ahead stays ahead, whatever digits follow. -/
theorem ofDigitChars_lt {x y : List Char} {m n : ℕ} (hlen : x.length = y.length) (hx : x.all Char.isDigit = true)
    (h : m < n) : Nat.ofDigitChars 10 x m < Nat.ofDigitChars 10 y n := by
  induction x generalizing y m n with
  | nil =>
    cases y with
    | nil => simpa using h
    | cons d y => simp at hlen
  | cons c x ih =>
    cases y with
    | nil => simp at hlen
    | cons d y =>
      rw [List.all_cons, Bool.and_eq_true] at hx
      have hc := digit_bounds hx.1
      have h0 : '0'.toNat = 48 := rfl
      have h9 : '9'.toNat = 57 := rfl
      rw [Nat.ofDigitChars_cons, Nat.ofDigitChars_cons]
      exact ih (by simpa using hlen) hx.2 (by omega)

/-- Of digits as many the greater number is the greater text. -/
theorem lt_of_ofDigitChars_lt {x y : List Char} {m : ℕ} (hlen : x.length = y.length)
    (hx : x.all Char.isDigit = true) (hy : y.all Char.isDigit = true)
    (h : Nat.ofDigitChars 10 x m < Nat.ofDigitChars 10 y m) : x < y := by
  induction x generalizing y m with
  | nil =>
    cases y with
    | nil => exact absurd h (lt_irrefl _)
    | cons d y => simp at hlen
  | cons c x ih =>
    cases y with
    | nil => simp at hlen
    | cons d y =>
      rw [List.all_cons, Bool.and_eq_true] at hx hy
      rw [Nat.ofDigitChars_cons, Nat.ofDigitChars_cons] at h
      have hlen' : x.length = y.length := by simpa using hlen
      rw [List.cons_lt_cons_iff]
      rcases lt_trichotomy c d with hcd | rfl | hcd
      · exact .inl hcd
      · exact .inr ⟨rfl, ih hlen' hx.2 hy.2 h⟩
      · have hc := digit_bounds hx.1
        have hd := digit_bounds hy.1
        have h0 : '0'.toNat = 48 := rfl
        have hlt : d.toNat < c.toNat := hcd
        have := ofDigitChars_lt (m := 10 * m + (d.toNat - '0'.toNat)) (n := 10 * m + (c.toNat - '0'.toNat))
          hlen'.symm hy.2 (by omega)
        omega

/-- At least `k` digits, and before more than `k` a mark for each that is more: in the order of the numbers. -/
def marked (k n : ℕ) : List Char := List.replicate ((Nat.toDigits 10 n).length - k) ':' ++ padded k n

theorem append_lt_append (l : List Char) {x y : List Char} (h : x < y) : l ++ x < l ++ y := by
  induction l with
  | nil => exact h
  | cons c l ih => exact List.cons_lt_cons_iff.mpr (.inr ⟨rfl, ih⟩)

theorem marked_lt (k : ℕ) {i j : ℕ} (h : i < j) : marked k i < marked k j := by
  have hlen : ∀ n, (padded k n).length = max k (Nat.toDigits 10 n).length := by
    intro n
    rw [padded, List.leftpad, List.length_append, List.length_replicate]
    omega
  have hle : (Nat.toDigits 10 i).length ≤ (Nat.toDigits 10 j).length := by
    have hpos : 0 < (Nat.toDigits 10 j).length := List.length_pos_iff.mpr Nat.toDigits_ne_nil
    rw [Nat.length_toDigits_le_iff (by decide) hpos]
    exact h.trans ((Nat.length_toDigits_le_iff (by decide) hpos).mp le_rfl)
  unfold marked
  by_cases heq : (Nat.toDigits 10 i).length - k = (Nat.toDigits 10 j).length - k
  · rw [heq]
    refine append_lt_append _ (lt_of_ofDigitChars_lt (m := 0) ?_ (isDigit_padded k i) (isDigit_padded k j) ?_)
    · rw [hlen, hlen]
      omega
    · rw [ofDigitChars_padded_zero, ofDigitChars_padded_zero]
      exact h
  · -- The longer one has a mark where the shorter one has its first digit.
    obtain ⟨d, hd⟩ : ∃ d, (Nat.toDigits 10 j).length - k = (Nat.toDigits 10 i).length - k + (d + 1) :=
      ⟨(Nat.toDigits 10 j).length - k - ((Nat.toDigits 10 i).length - k) - 1, by omega⟩
    rw [hd, List.replicate_add, List.append_assoc, List.replicate_succ, List.cons_append]
    refine append_lt_append _ ?_
    cases hp : padded k i with
    | nil =>
      have := hlen i
      have hpos : 0 < (Nat.toDigits 10 i).length := List.length_pos_iff.mpr Nat.toDigits_ne_nil
      rw [hp, List.length_nil] at this
      omega
    | cons c cs =>
      have hdigit := isDigit_padded k i
      rw [hp, List.all_cons, Bool.and_eq_true] at hdigit
      have hlt : c.toNat < ':'.toNat := Nat.lt_succ_of_le (digit_bounds hdigit.1).2
      exact List.cons_lt_cons_iff.mpr (.inl hlt)

theorem dropWhile_marked (k n : ℕ) : (marked k n).dropWhile (· == ':') = padded k n := by
  rw [marked, List.dropWhile_append_of_pos (by simp), List.dropWhile_eq_self_iff]
  intro h
  have := List.all_eq_true.mp (isDigit_padded k n) _ (List.getElem_mem h)
  intro hc
  rw [beq_iff_eq.mp hc] at this
  exact absurd this (by decide)

end Numeral

/-! ## Decimal numbers -/

namespace Decimal

open Numeral

/-- `format(d, "f")`. -/
def format (d : Decimal) : String :=
  let n := d.coeff.natAbs
  let k := (-d.exp).toNat
  signed (decide (d.coeff < 0))
    (if 0 ≤ d.exp then Nat.toDigits 10 (n * 10 ^ d.exp.toNat)
    else Nat.toDigits 10 (n / 10 ^ k) ++ '.' :: padded k (n % 10 ^ k))

/-- `Decimal(raw)` of a number in plain notation. -/
def parse (raw : String) : Option Decimal :=
  let (negative, digits) := unsigned raw
  (read digits).map fun (n, k) => ⟨if negative then -n else n, -k⟩

/-- The number as it is read back: with a negative exponent or none. -/
def plain (d : Decimal) : Decimal := if 0 ≤ d.exp then ⟨d.coeff * 10 ^ d.exp.toNat, 0⟩ else d

theorem toRat_plain (d : Decimal) : d.plain.toRat = d.toRat := by
  unfold plain
  split
  · next h =>
    rw [← coeffAt_toRat d h]
    simp [toRat, coeffAt]
  · rfl

theorem sign_natAbs (c : ℤ) : (if decide (c < 0) = true then -(c.natAbs : ℤ) else c.natAbs) = c := by
  by_cases h : c < 0
  · rw [if_pos (decide_eq_true h)]
    omega
  · rw [if_neg (by simpa using h)]
    omega

/-- **Round trip** of a decimal number. -/
theorem parse_format (d : Decimal) : parse (format d) = some d.plain := by
  unfold parse format plain
  by_cases h : 0 ≤ d.exp
  · have hsign := ne_sign (isDigit_toDigits (d.coeff.natAbs * 10 ^ d.exp.toNat)) Nat.toDigits_ne_nil []
    rw [List.append_nil] at hsign
    have hcoeff : (if decide (d.coeff < 0) = true then -((d.coeff.natAbs * 10 ^ d.exp.toNat : ℕ) : ℤ)
        else ((d.coeff.natAbs * 10 ^ d.exp.toNat : ℕ) : ℤ)) = d.coeff * 10 ^ d.exp.toNat := by
      conv_rhs => rw [← sign_natAbs d.coeff]
      split <;> push_cast <;> ring
    simp only [if_pos h, unsigned_signed _ hsign, read_toDigits, Option.map_some, hcoeff]
    rfl
  · have hk : 0 < (-d.exp).toNat := by omega
    have hsign := ne_sign (isDigit_toDigits (d.coeff.natAbs / 10 ^ (-d.exp).toNat)) Nat.toDigits_ne_nil
      ('.' :: padded (-d.exp).toNat (d.coeff.natAbs % 10 ^ (-d.exp).toNat))
    simp only [if_neg h, unsigned_signed _ hsign, read_point hk, Option.map_some, sign_natAbs]
    have hexp : -((-d.exp).toNat : ℤ) = d.exp := by omega
    rw [hexp]

end Decimal

/-! ## Numbers -/

namespace Number

/-- `format(n, "f")`. -/
def format : Number → String
  | .finite d => d.format
  | .infinity negative => if negative then "-Infinity" else "Infinity"
  | .nan => "NaN"

/-- `Decimal(raw)` of a number in plain notation. -/
def parse (raw : String) : Option Number :=
  match Decimal.parse raw with
  | some d => some (.finite d)
  | none =>
    if raw = "NaN" then some .nan
    else if raw = "Infinity" then some (.infinity false)
    else if raw = "-Infinity" then some (.infinity true)
    else none

def plain : Number → Number
  | .finite d => .finite d.plain
  | n => n

theorem parse_format (n : Number) : parse (format n) = some n.plain := by
  cases n with
  | finite d => simp only [parse, format, Decimal.parse_format, plain]
  | infinity negative => cases negative <;> rfl
  | nan => rfl

/-- The value of a finite number. -/
def toRat? : Number → Option ℚ
  | .finite d => some d.toRat
  | _ => none

theorem toRat?_plain (n : Number) : n.plain.toRat? = n.toRat? := by
  cases n with
  | finite d => simp only [plain, toRat?, Decimal.toRat_plain]
  | _ => rfl

theorem format_ne_empty (n : Number) : n.format ≠ "" := by
  intro h
  have hparse := parse_format n
  rw [h] at hparse
  cases hparse

end Number
