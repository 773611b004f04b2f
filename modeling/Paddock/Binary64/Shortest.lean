import Paddock.Binary64.Basic
import Paddock.Text.Glyph

/-!
# Shortest decimals

The digits of a number are the fewest that read back as it, and of those the nearest to it. A number
reads back from all decimals between the midpoints to its neighbours, the midpoints included if its
mantissa is even.
-/

namespace Paddock.Binary64

set_option autoImplicit false

/-- The decimals that read back as one number, as fractions over the denominator `den`. -/
structure Interval where
  low : Nat
  value : Nat
  high : Nat
  den : Nat
  closed : Bool
deriving DecidableEq, Repr

/-- The interval of a number with a positive mantissa, in quarters of its last place. Below a power
of two the neighbour is half as far. -/
def interval (mantissa : Nat) (exponent : Int) : Interval :=
  let gap := if mantissa = Nat.pow 2 (mantissaBits - 1) ∧ leastExponent < exponent then 1 else 2
  let (unit, den) := scale 1 1 (exponent - 2)
  ⟨(4 * mantissa - gap) * unit, 4 * mantissa * unit, (4 * mantissa + 2) * unit, den,
    mantissa % 2 == 0⟩

def Interval.holds (i : Interval) (n : Nat) (power : Int) : Bool :=
  let (x, d) :=
    if 0 ≤ power then (n * Nat.pow 10 power.toNat, 1) else (n, Nat.pow 10 (-power).toNat)
  let x := x * i.den
  if i.closed then i.low * d ≤ x && x ≤ i.high * d else i.low * d < x && x < i.high * d

/-- How many more digits than zeros the fraction has before its point: the least `k` with
`num / den < 10 ^ k`. -/
def pointOf (num den : Nat) : Int :=
  if den ≤ num then decimalDigits (num / den) else 1 - (decimalDigits ((den - 1) / num) : Int)

/-- A decimal on the grid of multiples of `10 ^ power` that reads back: of the two around the value
the nearer, if both do. -/
def Interval.onGrid? (i : Interval) (power : Int) : Option Nat :=
  let (x, d) :=
    if 0 ≤ power then (i.value, i.den * Nat.pow 10 power.toNat)
    else (i.value * Nat.pow 10 (-power).toNat, i.den)
  let floor := x / d
  let near := roundDiv x d
  let far := if near = floor then floor + 1 else floor
  if i.holds near power then some near
  else if i.holds far power then some far
  else none

/-- Searches coarse grids first; after seventeen digits there is always an answer. -/
def Interval.search (i : Interval) (point : Int) : (fuel : Nat) → (count : Nat) → Nat × Int
  | 0, count => ((i.onGrid? (point - count)).getD 0, point - count)
  | fuel + 1, count =>
    match i.onGrid? (point - count) with
    | some n => (n, point - count)
    | none => search i point fuel (count + 1)

/-- `n` and `power` with the factors of ten of `n` moved into the power. -/
def stripTens : (fuel n : Nat) → (power : Int) → Nat × Int
  | 0, n, power => (n, power)
  | fuel + 1, n, power =>
    if n ≠ 0 ∧ n % 10 = 0 then stripTens fuel (n / 10) (power + 1) else (n, power)

/-- The shortest digits of a positive mantissa and exponent, as a number and a power of ten. -/
def shortest (mantissa : Nat) (exponent : Int) : Nat × Int :=
  let i := interval mantissa exponent
  let (n, power) := i.search (pointOf i.value i.den) 16 1
  stripTens 20 n power

/-- How a decimal is laid out. Positional while its point stands between `lowest` and `highest`
digits to the right of the front, otherwise with an exponent of at least `exponentDigits` digits. -/
structure Layout where
  lowest : Int
  highest : Int
  exponentDigits : Nat
deriving DecidableEq, Repr

def layout : Layout := ⟨-3, 16, 2⟩

def zeros (n : Nat) : Text := List.replicate n (.char '0')

def padLeft (width : Nat) (x : Text) : Text := zeros (width - x.length) ++ x

def Layout.place (l : Layout) (digits : Text) (point : Int) : Text :=
  if l.lowest ≤ point ∧ point ≤ l.highest then
    if point ≤ 0 then Text.ofString "0." ++ zeros (-point).toNat ++ digits
    else
      let front := digits.take point.toNat
      let back := digits.drop point.toNat
      front ++ zeros (point.toNat - front.length) ++
        .char '.' :: (if back = [] then zeros 1 else back)
  else
    let exponent := point - 1
    let mark : Text := if exponent < 0 then "e-" else "e+"
    let tail := mark ++ padLeft l.exponentDigits (Text.ofNat exponent.natAbs)
    match digits with
    | [] => tail
    | [d] => d :: tail
    | d :: rest => d :: .char '.' :: rest ++ tail

def sign (negative : Bool) : Text := if negative then [.char '-'] else []

/-- The text of a number: the shortest digits, and a point or an exponent that tells it from an
integer. -/
def text : Binary64 → Text
  | nan => "nan"
  | infinite negative => sign negative ++ Text.ofString "inf"
  | finite negative 0 _ => sign negative ++ Text.ofString "0.0"
  | finite negative mantissa exponent =>
    let (n, power) := shortest mantissa exponent
    let digits := Text.ofNat n
    sign negative ++ layout.place digits (digits.length + power)

end Paddock.Binary64
