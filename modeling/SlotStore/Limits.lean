import SlotStore.Datum

/-!
# Limits

A configuration limits the length of allocator tables and of lists. It can be given as data of any
format: by name, or as the sequence of the two limits.
-/

namespace SlotStore

/-- The largest lengths of tables and of lists; without one, the length is not limited. -/
structure Limits where
  /-- The largest length of an allocator's table. -/
  slots : Option Nat := none
  /-- The largest length of a list. -/
  length : Option Nat := none
deriving DecidableEq, Repr

namespace Limits

def slotsName : String := "max_slots"

def lengthName : String := "max_list_len"

def bound : Datum → Except Misfit (Option Nat)
  | .null => .ok none
  | d => d.count.map some

/-- Takes over one limit by its name. -/
def setField (limits : Limits) (name : String) (d : Datum) : Except Misfit Limits :=
  if name = slotsName then (bound d).map fun n => { limits with slots := n }
  else if name = lengthName then (bound d).map fun n => { limits with length := n }
  else .error (.unknownField name)

def ofFields (fields : List (String × Datum)) : Except Misfit Limits :=
  fields.foldlM (fun limits f => limits.setField f.1 f.2) {}

/-- Takes over both limits in order; what is missing at the end is not limited. -/
def ofElements : List Datum → Except Misfit Limits
  | [] => .ok {}
  | [d] => (bound d).map fun n => { slots := n }
  | d :: e :: rest => do
    let slots ← bound d
    let length ← bound e
    if rest.isEmpty then .ok { slots, length } else .error (.surplus (rest.length + 2))

/-- The fields in ascending order of their names. -/
def byName (fields : List (String × Datum)) : List (String × Datum) :=
  fields.mergeSort fun f g => decide (f.1 ≤ g.1)

/-- The limits that a datum gives. Fields are looked at in ascending order of their names. -/
def ofDatum : Datum → Except Misfit Limits
  | .mapping fields => ofFields (byName fields)
  | .sequence elements => ofElements elements
  | d => .error (.kind d .limits)

def boundDatum : Option Nat → Datum
  | none => .null
  | some n => .integer n

def toDatum (limits : Limits) : Datum :=
  .mapping [(slotsName, boundDatum limits.slots), (lengthName, boundDatum limits.length)]

def shown (limits : Limits) : String :=
  Shown.record "SlotConfig" [(slotsName, Shown.option Nat.repr limits.slots),
    (lengthName, Shown.option Nat.repr limits.length)]

def isDefault (limits : Limits) : Bool := limits = {}

end Limits

end SlotStore
