import SlotStore.Decimal.Shortest
import SlotStore.Slot
import SlotStore.Text.Quoted
import SlotStore.Text.Shown

/-!
# Data

A datum is what any of the formats can say: the formats differ in how they write it, and what is
made of it is the same for all of them. Where a datum is not what is wanted, a `Misfit` says why.
Its message shows floating point numbers in the layout of the format.
-/

namespace SlotStore

/-- A datum of any format. -/
inductive Datum where
  | null
  | boolean (b : Bool)
  | integer (i : Int)
  | float (x : Binary64)
  | string (s : String)
  | sequence (elements : List Datum)
  | mapping (fields : List (String × Datum))

namespace Datum

/-- The words for a datum in messages, with floating point numbers in a given layout. -/
def description (layout : Shortest.Layout) : Datum → String
  | null => "null"
  | boolean b => "boolean `" ++ Shown.truth b ++ "`"
  | integer i => "integer `" ++ i.repr ++ "`"
  | float x => "floating point `" ++ layout.text x ++ "`"
  | string s => "string " ++ Quoted.encode s
  | sequence _ => "sequence"
  | mapping _ => "map"

end Datum

/-- What a datum should have been. -/
inductive Wanted where
  | count
  | limits
deriving DecidableEq, Repr

def Wanted.description : Wanted → String
  | count => "usize"
  | limits => "struct SlotConfig"

/-- Why a datum is not what is wanted. -/
inductive Misfit where
  /-- There is a field of an unknown name. -/
  | unknownField (name : String)
  | kind (found : Datum) (wanted : Wanted)
  | negative (i : Int)
  /-- There are too many elements. -/
  | surplus (length : Nat)

/-- The reason as a message, with floating point numbers in a given layout. -/
def Misfit.reason (layout : Shortest.Layout) : Misfit → String
  | unknownField name =>
    "unknown field `" ++ name ++ "`, expected `max_slots` or `max_list_len`"
  | kind found wanted =>
    "invalid type: " ++ found.description layout ++ ", expected " ++ wanted.description
  | negative i =>
    "invalid value: " ++ (Datum.integer i).description layout ++ ", expected " ++
      Wanted.count.description
  | surplus length =>
    "invalid length " ++ length.repr ++ ", expected fewer elements in array"

namespace Datum

/-- The count that a datum gives: a whole number that is not negative. -/
def count : Datum → Except Misfit Nat
  | integer i => if i < 0 then .error (.negative i) else .ok i.toNat
  | d => .error (.kind d .count)

def slot (d : Datum) : Except Misfit Slot := d.count.map Slot.mk

end Datum

end SlotStore
