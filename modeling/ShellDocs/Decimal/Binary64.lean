import ShellDocs.Text.Basic

/-!
# Binary floating point of 64 bits

A value is not a number, an infinity, or a sign with a natural mantissa and a power of two.
`ofRatio` rounds a positive quotient to the nearest value, a tie to the even mantissa, and
`ofDecimal` reads a decimal number through it. All arithmetic is exact, on natural numbers.
-/

namespace ShellDocs

/-- A floating-point value; `finite negative m e` stands for `m * 2 ^ e` with its sign. -/
inductive Binary64 where
  | notANumber
  | infinite (negative : Bool)
  | finite (negative : Bool) (mantissa : Nat) (exponent : Int)
  deriving DecidableEq, Repr

namespace Binary64

/-- The quotient rounded to the nearest natural number, a tie to the even one. -/
def roundDiv (num den : Nat) : Nat :=
  let q := num / den
  let r := num % den
  if 2 * r < den then q
  else if den < 2 * r then q + 1
  else if q % 2 = 0 then q else q + 1

/-- The least exponent of a finite value. -/
def leastExponent : Int := -1074

/-- The greatest exponent of a finite value whose mantissa is below `2 ^ 53`. -/
def greatestExponent : Int := 971

/-- `num / (den * 2 ^ e)` as a quotient of natural numbers. -/
def scaled (num den : Nat) (e : Int) : Nat × Nat :=
  if e < 0 then (num * Nat.pow 2 (-e).toNat, den) else (num, den * Nat.pow 2 e.toNat)

/-- The value nearest to the positive quotient `num / den`. The exponent is chosen so that the
mantissa has 53 bits, or is the least one when the quotient is too small for that. -/
def ofRatio (negative : Bool) (num den : Nat) : Binary64 :=
  let guess : Int := (Nat.log2 num : Int) - (Nat.log2 den : Int) - 52
  let fits := let (a, b) := scaled num den guess; Nat.pow 2 52 ≤ a / b
  let e := max leastExponent (if fits then guess else guess - 1)
  let (a, b) := scaled num den e
  let m := roundDiv a b
  let (m, e) := if m = Nat.pow 2 53 then (Nat.pow 2 52, e + 1) else (m, e)
  if greatestExponent < e then .infinite negative else .finite negative m e

/-- The value nearest to `digits * 10 ^ exponent`. Exponents far outside the range give zero or
an infinity at once. -/
def ofDecimal (negative : Bool) (digits : Nat) (exponent : Int) : Binary64 :=
  let size : Int := ((Nat.toDigits 10 digits).length : Int) + exponent
  if digits = 0 ∨ size < -400 then .finite negative 0 leastExponent
  else if 400 < size then .infinite negative
  else if exponent < 0 then ofRatio negative digits (Nat.pow 10 (-exponent).toNat)
  else ofRatio negative (digits * Nat.pow 10 exponent.toNat) 1

end Binary64

end ShellDocs
