/-! Binary floating point with 53 significant bits: what a float stands for, which floats count as
equal, and the float nearest to a fraction. Everything is exact arithmetic on the bits. -/
namespace Mustache.Binary64

/-- What a float stands for: a finite one is `± significand * 2 ^ exponent`. -/
inductive Reading
  | nan
  | infinite (negative : Bool)
  | finite (negative : Bool) (significand : Nat) (exponent : Int)
  deriving DecidableEq

/-- The bits of a float as a number below `2 ^ 64`. -/
def bits (x : Float) : Nat := x.toBits.toNat

def read (x : Float) : Reading :=
  let negative := decide (Nat.pow 2 63 ≤ bits x)
  let biased : Nat := bits x / Nat.pow 2 52 % Nat.pow 2 11
  let fraction := bits x % Nat.pow 2 52
  if biased = 2047 then
    if fraction = 0 then .infinite negative else .nan
  else if biased = 0 then .finite negative fraction (-1074)
  else .finite negative (Nat.pow 2 52 + fraction) ((biased : Int) - 1075)

def isNaN (x : Float) : Bool := read x == .nan

/-- Holds of both zeros. -/
def isZero (x : Float) : Bool := bits x % Nat.pow 2 63 == 0

/-- Numeric equality: a NaN equals nothing, and the two zeros equal one another. -/
def equal (x y : Float) : Bool :=
  !isNaN x && !isNaN y && (bits x == bits y || (isZero x && isZero y))

/-- A quotient rounded to the nearest integer, a half to the even neighbour. -/
def roundQuotient (numerator denominator : Nat) : Nat :=
  let quotient := numerator / denominator
  let twice := 2 * (numerator % denominator)
  if twice < denominator ∨ (twice = denominator ∧ quotient % 2 = 0) then quotient
  else quotient + 1

/-- The fraction `numerator / denominator` divided by `2 ^ exponent`. -/
def scaleByTwo (numerator denominator : Nat) : Int → Nat × Nat
  | .ofNat k => (numerator, denominator * Nat.pow 2 k)
  | .negSucc k => (numerator * Nat.pow 2 (k + 1), denominator)

/-- The largest `e` with `2 ^ e ≤ numerator / denominator`, for positive numbers. -/
def floorLog (numerator denominator : Nat) : Int :=
  let guess : Int := numerator.log2 - denominator.log2
  let (n, d) := scaleByTwo numerator denominator guess
  if d ≤ n then guess else guess - 1

/-- The bits of the float nearest to a fraction, without its sign: the unit is chosen so that 53
bits suffice, subnormal numbers share the smallest unit, and what is too large is infinite. -/
def magnitudeBits (numerator denominator : Nat) : Nat :=
  if numerator = 0 then 0
  else
    let unit := max (floorLog numerator denominator - 52) (-1074)
    let (n, d) := scaleByTwo numerator denominator unit
    min ((unit + 1074).toNat * Nat.pow 2 52 + roundQuotient n d) (2047 * Nat.pow 2 52)

/-- The float nearest to `± numerator / denominator`, a tie going to the even significand. -/
def nearest (negative : Bool) (numerator denominator : Nat) : Float :=
  Float.ofBits
    (UInt64.ofNat ((if negative then Nat.pow 2 63 else 0) + magnitudeBits numerator denominator))

/-- The float nearest to an integer. -/
def ofInt (n : Int) : Float := nearest (n < 0) n.natAbs 1

end Mustache.Binary64
