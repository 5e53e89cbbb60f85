import SlotStore.Datum

/-!
# JSON numbers

What a number of a JSON text gives as a datum. One without fraction and exponent is a whole number
if 64 bits hold it, with or without a sign. All others are floating point numbers, and are rounded
twice: their digits as a whole number, and then this times a power of ten. So the last bit can
differ from that of the number that is nearest to what is written.
-/

namespace SlotStore.Json

/-- Messages about JSON data show very small and very large floating point numbers with an exponent;
of two equally near decimals they take the even one. -/
def layout : Shortest.Layout := ⟨.even, some (-4, 16)⟩

/-! ## Digits -/

/-- Puts digits behind a number as long as 64 bits hold it. Gives the digits that are left, too. -/
def gather (n : Nat) : List Char → Nat × List Char
  | [] => (n, [])
  | c :: cs =>
    let m := 10 * n + (c.toNat - '0'.toNat)
    if m < 1 <<< 64 then gather m cs else (n, c :: cs)

def digits? (cs : List Char) : Option (List Char × List Char) :=
  match cs.span Char.isDigit with
  | ([], _) => none
  | other => some other

/-- Reads a fraction, if there is one: its digits. -/
def fraction? : List Char → Option (List Char × List Char)
  | '.' :: r => digits? r
  | r => some ([], r)

def exponent? : List Char → Option (Int × List Char)
  | 'e' :: r | 'E' :: r => do
    let (negative, r) := match r with
      | '-' :: r => (true, r)
      | '+' :: r => (false, r)
      | r => (false, r)
    let (ds, r) ← digits? r
    let n : Int := (Nat.ofDigitChars 10 ds 0 : Nat)
    pure (if negative then -n else n, r)
  | r => some (0, r)

/-! ## Scaling -/

/-- The largest exponent of a power of ten within the format. -/
def largestPower : Int := 308

def power (exponent : Int) : Binary64 := Binary64.ofDecimal false 1 exponent

/-- A number times a power of ten, unless this is beyond the largest number. -/
def scale? (x : Binary64) (exponent : Int) : Option Binary64 :=
  if x.isZero then some x
  else if largestPower < exponent then none
  else if 0 ≤ exponent then
    match x.mul (power exponent) with
    | .finite negative m e => some (.finite negative m e)
    | _ => none
  else if -largestPower ≤ exponent then some (x.div (power (-exponent)))
  else scale? (x.div (power largestPower)) (exponent + largestPower)
termination_by (-exponent).toNat
decreasing_by simp only [largestPower] at *; omega

/-! ## Numbers -/

/-- The whole number of a sign and its digits, if 64 bits hold it. Zero with a sign is none. -/
def whole? (negative : Bool) (n : Nat) : Option Int :=
  if !negative then some n
  else if 0 < n ∧ n ≤ 1 <<< 63 then some (-n)
  else none

def number? (cs : List Char) : Option Datum := do
  let (negative, r) := match cs with
    | '-' :: r => (true, r)
    | r => (false, r)
  let (whole, r) ← digits? r
  let (fraction, r') ← fraction? r
  let (exponent, rest) ← exponent? r'
  let (n, left) := gather 0 whole
  match r, left, whole? negative n with
  | [], [], some i => pure (.integer i)
  | _, _, _ =>
    let (n, left') := gather n fraction
    let dropped : Int := left.length - (fraction.length - left'.length : Nat)
    let x ← scale? (Binary64.ofDecimal false n 0) (exponent + dropped)
    if rest.isEmpty then pure (.float (if negative then x.negate else x)) else none

end SlotStore.Json
