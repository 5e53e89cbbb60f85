import SlotStore.Decimal.Shortest
import SlotStore.Toml.Quote

/-!
# Numbers, truth values, dates and times

All of these are words: runs of letters, digits and a few marks. A word is read as a whole, and then
taken for what its form says, or for nothing.
-/

namespace SlotStore.Toml

/-- What a word can stand for. -/
inductive Scalar where
  | boolean (b : Bool)
  | integer (i : Int)
  | float (x : Binary64)
  /-- A date, a time of day or both, as written. -/
  | moment (text : String)
deriving DecidableEq, Repr

/-- Messages about documents show floating point numbers without exponents; of two equally near
decimals they take the larger. -/
def layout : Shortest.Layout := ⟨.larger, none⟩

/-! ## Digits -/

/-- Whether a character is a digit to a base of at most sixteen. -/
def isDigitOf (base : Nat) (c : Char) : Bool :=
  match hexValue? c with
  | some v => v < base
  | none => false

def numeral (base : Nat) (ds : List Char) : Nat :=
  ds.foldl (fun n c => base * n + (hexValue? c).getD 0) 0

/-- Reads digits, at least one. An underscore may stand between two of them and is left out. -/
def digitGroups (base : Nat) (cs : List Char) : Option (List Char × List Char) :=
  match cs.takeWhile (isDigitOf base), h : cs.dropWhile (isDigitOf base) with
  | [], _ => none
  | ds, '_' :: r =>
    have : r.length < cs.length := by
      have := (List.dropWhile_sublist (l := cs) (isDigitOf base)).length_le
      rw [h, List.length_cons] at this
      omega
    (digitGroups base r).map fun (ds', r') => (ds ++ ds', r')
  | ds, r => some (ds, r)
termination_by cs.length

/-- Reads an optional sign; tells whether it is a minus. -/
def sign : List Char → Bool × List Char
  | '-' :: r => (true, r)
  | '+' :: r => (false, r)
  | r => (false, r)

/-- Reads the digits of a decimal number, which do not begin with a zero unless that is all. -/
def decimalDigits (cs : List Char) : Option (List Char × List Char) :=
  match digitGroups 10 cs with
  | some ('0' :: _ :: _, _) => none
  | other => other

/-! ## Whole numbers -/

/-- The whole numbers that a document may hold. -/
def isInRange (i : Int) : Bool := -1 <<< 63 ≤ i && i < 1 <<< 63

/-- The number that a word of digits to a base stands for. -/
def basedNumber? (base : Nat) (cs : List Char) : Option Int :=
  match digitGroups base cs with
  | some (ds, []) => some (numeral base ds)
  | _ => none

/-- The number that a word of decimal digits with an optional sign stands for. -/
def decimalNumber? (cs : List Char) : Option Int :=
  let (negative, r) := sign cs
  match decimalDigits r with
  | some (ds, []) => some (if negative then -(numeral 10 ds : Int) else numeral 10 ds)
  | _ => none

def integer? (cs : List Char) : Option Int :=
  (match cs with
  | '0' :: 'x' :: r => basedNumber? 16 r
  | '0' :: 'o' :: r => basedNumber? 8 r
  | '0' :: 'b' :: r => basedNumber? 2 r
  | cs => decimalNumber? cs).filter isInRange

/-! ## Floating point numbers -/

/-- Reads an optional exponent of ten, if it is what remains of a word. -/
def exponent? : List Char → Option Int
  | [] => some 0
  | c :: r =>
    if c = 'e' || c = 'E' then
      let (negative, r) := sign r
      match digitGroups 10 r with
      | some (ds, []) => some (if negative then -(numeral 10 ds : Int) else numeral 10 ds)
      | _ => none
    else none

/-- The number that a word with a fraction or an exponent stands for. A positive number beyond all
numbers of the format stands for nothing. -/
def decimalFloat? (cs : List Char) : Option Binary64 :=
  let (negative, r) := sign cs
  let x : Option Binary64 := do
    let (whole, r) ← decimalDigits r
    match r with
    | '.' :: r =>
      let (fraction, r) ← digitGroups 10 r
      let e ← exponent? r
      pure (Binary64.ofDecimal negative (numeral 10 (whole ++ fraction)) (e - fraction.length))
    | _ :: _ =>
      let e ← exponent? r
      pure (Binary64.ofDecimal negative (numeral 10 whole) e)
    | [] => none
  x.filter (· != .infinite false)

def float? (cs : List Char) : Option Binary64 :=
  let (negative, r) := sign cs
  if r = ['i', 'n', 'f'] then some (.infinite negative)
  else if r = ['n', 'a', 'n'] then some .undefined
  else decimalFloat? cs

/-! ## Dates and times -/

/-- Reads a number of exactly `k` digits. -/
def fixedDigits (k : Nat) (cs : List Char) : Option (Nat × List Char) :=
  let ds := cs.take k
  if ds.length = k && ds.all (isDigitOf 10) then some (numeral 10 ds, cs.drop k) else none

def mark? (c : Char) : List Char → Option (List Char)
  | d :: r => if d = c then some r else none
  | [] => none

def daysIn (year month : Nat) : Nat :=
  if month = 2 then
    if year % 4 = 0 && (year % 100 != 0 || year % 400 = 0) then 29 else 28
  else if month = 4 || month = 6 || month = 9 || month = 11 then 30
  else 31

/-- Reads a day of the calendar. -/
def date? (cs : List Char) : Option (List Char) := do
  let (year, r) ← fixedDigits 4 cs
  let (month, r) ← fixedDigits 2 (← mark? '-' r)
  let (day, r) ← fixedDigits 2 (← mark? '-' r)
  if 1 ≤ month && month ≤ 12 && 1 ≤ day && day ≤ daysIn year month then some r else none

/-- Passes over a fraction of a second, if there is one. -/
def skipFraction (cs : List Char) : List Char :=
  match cs with
  | '.' :: c :: r => if isDigitOf 10 c then (c :: r).dropWhile (isDigitOf 10) else cs
  | _ => cs

/-- Reads a time of day. A minute may have a leap second. -/
def time? (cs : List Char) : Option (List Char) := do
  let (hour, r) ← fixedDigits 2 cs
  let (minute, r) ← fixedDigits 2 (← mark? ':' r)
  let (second, r) ← fixedDigits 2 (← mark? ':' r)
  if hour ≤ 23 && minute ≤ 59 && second ≤ 60 then some (skipFraction r) else none

/-- Whether characters tell the distance to universal time, or nothing. -/
def isOffset : List Char → Bool
  | [] => true
  | ['Z'] | ['z'] => true
  | c :: r =>
    (c = '+' || c = '-') &&
      match (do
        let (hour, r) ← fixedDigits 2 r
        let (minute, r) ← fixedDigits 2 (← mark? ':' r)
        pure (hour, minute, r) : Option (Nat × Nat × List Char)) with
      | some (hour, minute, []) => hour ≤ 23 && minute ≤ 59
      | _ => false

/-- Whether a word is a date, a time of day, or both with a letter or a blank between. -/
def isMoment (cs : List Char) : Bool :=
  match date? cs with
  | some [] => true
  | some (c :: r) =>
    (c = 'T' || c = 't' || c = ' ') &&
      match time? r with
      | some r => isOffset r
      | none => false
  | none => time? cs = some []

/-! ## Words -/

def isWordChar (c : Char) : Bool :=
  c.isAlphanum || c = '+' || c = '-' || c = '_' || c = '.' || c = ':'

/-- Whether characters go on with a blank and a digit. -/
def blankThenDigit : List Char → Bool
  | ' ' :: c :: _ => isDigitOf 10 c
  | _ => false

/-- Reads a word. A date takes the time of day behind a blank along. -/
def word (cs : List Char) : List Char × List Char :=
  let w := cs.takeWhile isWordChar
  let r := cs.dropWhile isWordChar
  if date? w = some [] && blankThenDigit r then
    (w ++ ' ' :: r.tail.takeWhile isWordChar, r.tail.dropWhile isWordChar)
  else (w, r)

def scalar? (w : List Char) : Option Scalar :=
  if w = ['t', 'r', 'u', 'e'] then some (.boolean true)
  else if w = ['f', 'a', 'l', 's', 'e'] then some (.boolean false)
  else if isMoment w then some (.moment (String.ofList w))
  else
    match float? w with
    | some x => some (.float x)
    | none => (integer? w).map .integer

end SlotStore.Toml
