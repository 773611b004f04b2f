/-!
# Double precision numbers

A finite number is `mantissa * 2 ^ exponent` with a mantissa below `2 ^ 53`. A decimal is read as
the nearest number, a tie going to the even mantissa; what is too large becomes infinite.
-/

namespace Paddock

set_option autoImplicit false

inductive Binary64 where
  | finite (negative : Bool) (mantissa : Nat) (exponent : Int)
  | infinite (negative : Bool)
  | nan
deriving DecidableEq, Repr, Inhabited

namespace Binary64

def mantissaBits : Nat := 53

def leastExponent : Int := -1074

def greatestExponent : Int := 971

def decimalDigits (n : Nat) : Nat := (Nat.toDigits 10 n).length

/-- The quotient rounded to the nearest natural number, a tie going to the even one. -/
def roundDiv (num den : Nat) : Nat :=
  let q := num / den
  let r := num % den
  if 2 * r < den ∨ (2 * r = den ∧ q % 2 = 0) then q else q + 1

/-- `x * 2 ^ e` and `y * 2 ^ -e` for a negative `e`: a fraction scaled by a power of two. -/
def scale (num den : Nat) (e : Int) : Nat × Nat :=
  if 0 ≤ e then (num * Nat.pow 2 e.toNat, den) else (num, den * Nat.pow 2 (-e).toNat)

/-- The exponent at which the fraction's mantissa has all its bits, or the least one. -/
def exponentOf (num den : Nat) : Int :=
  let guess := (Nat.log2 num : Int) - Nat.log2 den - (mantissaBits - 1)
  let (n, d) := scale num den (-guess)
  let fitted := if n < d * Nat.pow 2 (mantissaBits - 1) then guess - 1 else guess
  max fitted leastExponent

/-- The fraction divided by `2 ^ e` and rounded. -/
def mantissaAt (num den : Nat) (e : Int) : Nat :=
  roundDiv (scale num den (-e)).1 (scale num den (-e)).2

/-- The number with the mantissa and the exponent, unless that is too large. -/
def bounded (negative : Bool) (mantissa : Nat) (exponent : Int) : Binary64 :=
  if greatestExponent < exponent then infinite negative else finite negative mantissa exponent

/-- As `bounded`; rounding may have made the mantissa one bit too long. -/
def carried (negative : Bool) (mantissa : Nat) (exponent : Int) : Binary64 :=
  if mantissa = Nat.pow 2 mantissaBits then
    bounded negative (Nat.pow 2 (mantissaBits - 1)) (exponent + 1)
  else bounded negative mantissa exponent

def ofFraction (negative : Bool) (num den : Nat) : Binary64 :=
  if num = 0 then finite negative 0 leastExponent
  else
    let e := exponentOf num den
    carried negative (mantissaAt num den e) e

/-- The number nearest to `digits * 10 ^ power`. Beyond three hundred and odd digits on either side
of the point the answer is known without the power of ten. -/
def ofDecimal (negative : Bool) (digits : Nat) (power : Int) : Binary64 :=
  let size := (decimalDigits digits : Int) + power
  if digits = 0 ∨ size < -330 then finite negative 0 leastExponent
  else if 310 < size then infinite negative
  else if 0 ≤ power then ofFraction negative (digits * Nat.pow 10 power.toNat) 1
  else ofFraction negative digits (Nat.pow 10 (-power).toNat)

end Binary64

end Paddock
