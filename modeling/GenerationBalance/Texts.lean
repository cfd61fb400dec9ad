/-
Python's texts. A `str` may hold surrogates, which UTF-8 cannot encode; `repr` quotes
a text and escapes what is not printed as it stands; and `str` writes no integer of
more than `MAX_STR_DIGITS` digits.
-/
import GenerationBalance.Numerals

namespace GenerationBalance

/-- A Python `str`: the text before its first surrogate, and each surrogate, counted
from U+D800, with the text behind it. -/
structure PyStr where
  head : String
  rest : List (Fin 2048 × String) := []
deriving DecidableEq, Repr

instance : Coe String PyStr := ⟨fun s => { head := s }⟩

namespace PyStr

/-- `s.encode()`; `none` is a `UnicodeEncodeError`. -/
def encode (s : PyStr) : Option String := if s.rest = [] then some s.head else none

theorem encode_eq_some {s : PyStr} {t : String} : s.encode = some t ↔ s = t := by
  unfold encode
  obtain ⟨head, rest⟩ := s
  constructor
  · intro h
    split at h
    · next hr => cases h; subst hr; rfl
    · cases h
  · intro h
    cases h
    rfl

/-- `a or b`: an empty text is false. -/
def or (a b : PyStr) : PyStr := if a = "" then b else a

end PyStr

/-! ## `repr` -/

/-- `n` in hexadecimal digits, at least `width` of them. -/
def hexDigits (width n : ℕ) : List Char := List.leftpad width '0' (Nat.toDigits 16 n)

def escape (c : Char) : List Char :=
  if c.toNat < 0x100 then '\\' :: 'x' :: hexDigits 2 c.toNat
  else if c.toNat < 0x10000 then '\\' :: 'u' :: hexDigits 4 c.toNat
  else '\\' :: 'U' :: hexDigits 8 c.toNat

/-- A character between the quotes of `repr`. `printable` is `str.isprintable`, which
is asked beyond ASCII. -/
def reprChar (printable : Char → Bool) (quote c : Char) : List Char :=
  if c = quote ∨ c = '\\' then ['\\', c]
  else if c = '\t' then ['\\', 't']
  else if c = '\n' then ['\\', 'n']
  else if c = '\r' then ['\\', 'r']
  else if c.toNat < 0x20 ∨ c.toNat = 0x7f then escape c
  else if c.toNat < 0x7f ∨ printable c = true then [c]
  else escape c

/-- `repr` of a text: in single quotes, or in double ones when it has a single quote
and no double one. -/
def pyRepr (printable : Char → Bool) (s : String) : String :=
  let quote := if '\x27' ∈ s.toList ∧ '"' ∉ s.toList then '"' else '\x27'
  String.ofList (quote :: s.toList.flatMap (reprChar printable quote) ++ [quote])

/-! ## Integers -/

/-- `sys.int_info.default_max_str_digits`. -/
def MAX_STR_DIGITS : ℕ := 4300

/-- `str` of the integer is a `ValueError`. -/
def tooManyDigits (n : ℤ) : Bool := MAX_STR_DIGITS < (Nat.toDigits 10 n.natAbs).length

end GenerationBalance
