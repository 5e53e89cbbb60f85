/-!
# Binary floating point numbers

Numbers of the 64-bit binary format, held as sign, significand and exponent, so that reading a
decimal and printing the fewest digits are computations on natural numbers.
-/

namespace SlotStore

/-- A number of the 64-bit binary format. -/
inductive Binary64 where
  /-- The number `significand * 2 ^ exponent`, with its sign. The significand has at most 53 bits,
  and exactly 53 unless the exponent is the least one. -/
  | finite (negative : Bool) (significand : Nat) (exponent : Int)
  | infinite (negative : Bool)
  | undefined
deriving DecidableEq, Repr

namespace Binary64

/-- The number of bits of a significand. -/
def precision : Nat := 53

def leastExponent : Int := -1074

def largestExponent : Int := 971

/-- The quotient of two numbers rounded to a whole number, a half to the even neighbour. -/
def roundedQuotient (num den : Nat) : Nat :=
  let q := num / den
  let r := num % den
  if den < 2 * r || (den = 2 * r && q % 2 = 1) then q + 1 else q

/-- The quotient `num / (den * 2 ^ e)` rounded to a whole number. -/
def scaledQuotient (num den : Nat) (e : Int) : Nat :=
  if 0 ≤ e then roundedQuotient num (den <<< e.toNat)
  else roundedQuotient (num <<< (-e).toNat) den

/-- Whether `num / den` is at least `2 ^ e`. -/
def reaches (num den : Nat) (e : Int) : Bool :=
  if 0 ≤ e then den <<< e.toNat ≤ num else den ≤ num <<< (-e).toNat

/-- The exponent that leaves a significand of 53 bits to the positive quotient `num / den`, but not
below the least one. -/
def exponentOf (num den : Nat) : Int :=
  let guess : Int := Nat.log2 num - Nat.log2 den
  let top := if reaches num den guess then guess else guess - 1
  max leastExponent (top - (precision - 1))

/-- The number next to the quotient `num / den`. A quotient halfway between two numbers goes to the
one with an even significand, and one beyond the largest number goes to infinity. -/
def ofQuotient (negative : Bool) (num den : Nat) : Binary64 :=
  if num = 0 then finite negative 0 leastExponent
  else
    let e := exponentOf num den
    let m := scaledQuotient num den e
    let (m, e) := if m = 1 <<< precision then (1 <<< (precision - 1), e + 1) else (m, e)
    if largestExponent < e then infinite negative else finite negative m e

/-- The number next to `digits * 10 ^ exponent`. Exponents that are beyond all numbers of the format
are not computed with. -/
def ofDecimal (negative : Bool) (digits : Nat) (exponent : Int) : Binary64 :=
  let magnitude : Int := (Nat.toDigits 10 digits).length + exponent
  if digits = 0 || magnitude < -400 then finite negative 0 leastExponent
  else if 400 < magnitude then infinite negative
  else if 0 ≤ exponent then ofQuotient negative (digits * Nat.pow 10 exponent.toNat) 1
  else ofQuotient negative digits (Nat.pow 10 (-exponent).toNat)

def negate : Binary64 → Binary64
  | finite negative m e => finite (!negative) m e
  | infinite negative => infinite (!negative)
  | undefined => undefined

def isZero : Binary64 → Bool
  | finite _ m _ => m = 0
  | _ => false

def mul : Binary64 → Binary64 → Binary64
  | finite s m e, finite t n f =>
    let k := e + f
    ofQuotient (s != t) ((m * n) <<< k.toNat) (1 <<< (-k).toNat)
  | infinite s, infinite t => infinite (s != t)
  | infinite s, finite t m _ | finite t m _, infinite s =>
    if m = 0 then undefined else infinite (s != t)
  | _, _ => undefined

def div : Binary64 → Binary64 → Binary64
  | finite s m e, finite t n f =>
    if n = 0 then if m = 0 then undefined else infinite (s != t)
    else
      let k := e - f
      ofQuotient (s != t) (m <<< k.toNat) (n <<< (-k).toNat)
  | infinite s, finite t _ _ => infinite (s != t)
  | finite s _ _, infinite t => finite (s != t) 0 leastExponent
  | _, _ => undefined

end Binary64

end SlotStore
