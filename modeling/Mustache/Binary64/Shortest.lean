import Mustache.Binary64

/-! The shortest decimal that reads back as a float, and its text with and without an exponent. -/
namespace Mustache.Binary64

/-- A decimal number `digits * 10 ^ exponent`. -/
structure Decimal where
  digits : Nat
  exponent : Int
  deriving DecidableEq

/-- The numbers that read as one float: a middle and the two ends between its neighbours, all over
one denominator. The ends belong to it when the significand is even. -/
structure Span where
  low : Nat
  middle : Nat
  high : Nat
  denominator : Nat
  closed : Bool

/-- The numbers that read as `significand * 2 ^ exponent`. Below a power of two the neighbour is
only half as far away, except at the bottom of the range. -/
def Span.ofParts (significand : Nat) (exponent : Int) : Span :=
  let narrow := significand == Nat.pow 2 52 && exponent != -1074
  let (unit, denominator) := scaleByTwo 1 1 (2 - exponent)
  { low := (4 * significand - if narrow then 1 else 2) * unit
    middle := 4 * significand * unit
    high := (4 * significand + 2) * unit
    denominator := denominator
    closed := significand % 2 == 0 }

/-- The span with every number divided by `10 ^ exponent`. -/
def Span.scaleByTen (s : Span) : Int → Span
  | .ofNat k => { s with denominator := s.denominator * Nat.pow 10 k }
  | .negSucc k =>
    { s with
      low := s.low * Nat.pow 10 (k + 1)
      middle := s.middle * Nat.pow 10 (k + 1)
      high := s.high * Nat.pow 10 (k + 1) }

/-- Whether an integer lies in the span. -/
def Span.holds (s : Span) (n : Nat) : Bool :=
  let point := n * s.denominator
  if s.closed then s.low ≤ point && point ≤ s.high else s.low < point && point < s.high

/-- Which of two neighbours is taken when both are equally near. -/
inductive Tie
  | larger
  | even
  deriving DecidableEq

/-- Whether a tie between an integer and its successor goes to the integer. -/
def Tie.keeps : Tie → Nat → Bool
  | larger, _ => false
  | even, n => n % 2 == 0

/-- The integer of the span nearest to its middle. -/
def Span.integer? (s : Span) (tie : Tie) : Option Nat :=
  let below := s.middle / s.denominator
  let twice := 2 * (s.middle % s.denominator)
  match s.holds below, s.holds (below + 1) with
  | true, true =>
    some (if twice < s.denominator || (twice == s.denominator && tie.keeps below) then below
      else below + 1)
  | true, false => some below
  | false, true => some (below + 1)
  | false, false => none

/-- The number of decimal digits in front of the point of the middle, negative or zero when zeros
follow the point. -/
def Span.leading (s : Span) : Int :=
  let guess : Int := (Nat.repr s.middle).length - (Nat.repr s.denominator).length
  let scaled := s.scaleByTen guess
  if scaled.denominator ≤ scaled.middle then guess + 1 else guess

/-- Removes zeros at the end of the digits; `fuel` bounds their number. -/
def Decimal.strip : Nat → Decimal → Decimal
  | 0, d => d
  | fuel + 1, d =>
    if d.digits % 10 = 0 && d.digits ≠ 0 then strip fuel ⟨d.digits / 10, d.exponent + 1⟩ else d

/-- The decimal with the fewest digits in the span, and the nearest to the middle of those. -/
def Span.shortest (s : Span) (tie : Tie) : Decimal :=
  let found := (List.range 17).findSome? fun (count : Nat) =>
    let exponent := s.leading - (count + 1)
    ((s.scaleByTen exponent).integer? tie).map fun n => Decimal.mk n exponent
  (found.getD ⟨0, 0⟩).strip 20

/-- The shortest decimal that reads back as a positive float. -/
def shortest (tie : Tie) (significand : Nat) (exponent : Int) : Decimal :=
  (Span.ofParts significand exponent).shortest tie

/-- The power of ten that the first digit counts. -/
def Decimal.magnitude (d : Decimal) : Int := d.exponent + (Nat.repr d.digits).length - 1

/-- A decimal without an exponent: zeros fill the places up to the point. -/
def Decimal.positional (d : Decimal) : String :=
  let digits := (Nat.repr d.digits).toList
  match d.exponent with
  | .ofNat k => String.ofList (digits ++ List.replicate k '0')
  | .negSucc k =>
    let places := k + 1
    if places < digits.length then
      String.ofList
        (digits.take (digits.length - places) ++ '.' :: digits.drop (digits.length - places))
    else String.ofList ('0' :: '.' :: (List.replicate (places - digits.length) '0' ++ digits))

/-- A decimal with one digit in front of the point, and an exponent that always has its sign. -/
def Decimal.scientific (d : Decimal) : String :=
  let digits := (Nat.repr d.digits).toList
  let point := if digits.length = 1 then [] else ['.']
  String.ofList (digits.take 1 ++ point ++ digits.drop 1) ++
    (if d.magnitude < 0 then "e-" else "e+") ++ Nat.repr d.magnitude.natAbs

/-- The text of a float inside a rendered template: positional, no point in a whole number, a sign
also in front of a negative zero, and the larger of two decimals equally short and near. -/
def text (x : Float) : String :=
  match read x with
  | .nan => "NaN"
  | .infinite negative => if negative then "-inf" else "inf"
  | .finite negative 0 _ => if negative then "-0" else "0"
  | .finite negative significand exponent =>
    (if negative then "-" else "") ++ (shortest .larger significand exponent).positional

end Mustache.Binary64
