import SlotStore.Decimal.Binary64

/-!
# Shortest decimals

A finite number is written with the fewest decimal digits that read back as the same number, and
among those with the digits nearest to it. Two equally near ones cannot be told apart by nearness:
which of them is taken, and whether the digits are laid out with an exponent, is for a `Layout` to
say.
-/

namespace SlotStore.Shortest

/-! ## Layouts -/

inductive Tie where
  /-- The larger one. -/
  | larger
  /-- The one whose last digit is even. -/
  | even
deriving DecidableEq, Repr

/-- How numbers are written. -/
structure Layout where
  tie : Tie
  /-- Between which places of the point a number is written without an exponent. Without bounds it
  always is. -/
  places : Option (Int × Int)
deriving DecidableEq, Repr

/-- Whether a number with the point at a place is written without an exponent. -/
def Layout.isPositional (l : Layout) (place : Int) : Bool :=
  match l.places with
  | none => true
  | some (least, greatest) => least ≤ place && place ≤ greatest

/-! ## Digits -/

/-- The reals that read back as a positive number, scaled to a common denominator: the number itself
and both ends, and whether the ends belong to them. -/
structure Interval where
  low : Nat
  middle : Nat
  high : Nat
  unit : Nat
  /-- Whether the ends read back as the number too. -/
  closed : Bool

/-- The interval of `m * 2 ^ e`. Its ends are halfway to the neighbouring numbers; the lower
neighbour of a least significand is half as far as the upper one. -/
def interval (m : Nat) (e : Int) : Interval :=
  let least := m = 1 <<< (Binary64.precision - 1) && Binary64.leastExponent < e
  let low := if least then 4 * m - 1 else 4 * m - 2
  let up := 1 <<< (e - 2).toNat
  ⟨low * up, 4 * m * up, (4 * m + 2) * up, 1 <<< (2 - e).toNat, m % 2 = 0⟩

/-- Whether `n * num / den` lies in the interval. -/
def Interval.holds (i : Interval) (n num den : Nat) : Bool :=
  let x := n * num * i.unit
  if i.closed then i.low * den ≤ x && x ≤ i.high * den
  else i.low * den < x && x < i.high * den

/-- Whether the smaller of two decimals is taken. The number is `twice / 2`, they are `below * step`
and `(below + 1) * step`. -/
def Tie.takesBelow (tie : Tie) (twice below step : Nat) : Bool :=
  let halfway := (2 * below + 1) * step
  twice < halfway || (twice = halfway && tie = .even && below % 2 = 0)

/-- The multiple of `num / den` in the interval that is nearest to the number, if there is one. -/
def Interval.nearest? (tie : Tie) (i : Interval) (num den : Nat) : Option Nat :=
  let step := num * i.unit
  let below := i.middle * den / step
  let above := below + 1
  match i.holds below num den, i.holds above num den with
  | true, true => some (if tie.takesBelow (2 * i.middle * den) below step then below else above)
  | true, false => some below
  | false, true => some above
  | false, false => none

/-- Looks for a multiple of a power of ten in the interval, at `k` powers below `top`, then at one
fewer, and so on: the coarsest hit is the last one. -/
def Interval.coarsest (tie : Tie) (i : Interval) (top : Int) : Nat → Option (Nat × Int)
  | 0 => none
  | k + 1 =>
    let p := top - k
    match i.coarsest tie top k with
    | some hit => some hit
    | none => (i.nearest? tie (Nat.pow 10 p.toNat) (Nat.pow 10 (-p).toNat)).map (·, p)

/-- An exponent of ten whose power is above the positive number `m * 2 ^ e`, by a few powers at
most: the logarithm of 2 to base 10 is between 30/100 and 31/100. -/
def topExponent (m : Nat) (e : Int) : Int :=
  let bits := Nat.log2 m + 1 + e
  (if 0 ≤ bits then bits * 31 / 100 else bits * 30 / 100) + 1

/-- How many powers of ten below `topExponent` are tried: seventeen digits always suffice, and
`topExponent` is less than twenty powers above the number. -/
def triedPowers : Nat := 40

/-- The fewest digits of the positive number `m * 2 ^ e`, as a whole number with an exponent of
ten. -/
def digits (tie : Tie) (m : Nat) (e : Int) : Nat × Int :=
  ((interval m e).coarsest tie (topExponent m e) triedPowers).getD (0, 0)

/-! ## Texts -/

/-- The place of the point in a whole number times a power of ten: how many of its digits stand
before the point. Zeros between the point and the first digit count below zero. -/
def place (n : Nat) (exponent : Int) : Int := (Nat.toDigits 10 n).length + exponent

/-- Lays a whole number times a power of ten out in positional notation, always with a point. -/
def positional (n : Nat) (exponent : Int) : List Char :=
  let ds := Nat.toDigits 10 n
  if 0 ≤ exponent then ds ++ List.replicate exponent.toNat '0' ++ ['.', '0']
  else
    let places := (-exponent).toNat
    let padded := List.replicate (places + 1 - ds.length) '0' ++ ds
    let whole := padded.length - places
    padded.take whole ++ '.' :: padded.drop whole

/-- Lays a whole number times a power of ten out with one digit before the point, the point only if
there are others, and an exponent with its sign. -/
def scientific (n : Nat) (exponent : Int) : List Char :=
  let e := place n exponent - 1
  let mantissa := match Nat.toDigits 10 n with
    | d :: d' :: ds => d :: '.' :: d' :: ds
    | ds => ds
  mantissa ++ 'e' :: (if e < 0 then '-' else '+') :: Nat.toDigits 10 e.natAbs

def Layout.text (l : Layout) : Binary64 → String
  | .finite negative m e =>
    let (n, k) := if m = 0 then (0, 0) else digits l.tie m e
    let body := if l.isPositional (place n k) then positional n k else scientific n k
    String.ofList ((if negative then ['-'] else []) ++ body)
  | .infinite negative => if negative then "-inf" else "inf"
  | .undefined => "NaN"

end SlotStore.Shortest
