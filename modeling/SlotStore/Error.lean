import SlotStore.Slot
import SlotStore.Text.Quoted
import SlotStore.Text.Shown

/-!
# Errors and refusals

A call can fail because a resource is exhausted or a configuration is bad (`Error`), and it can be
refused because its caller names a slot that is not live (`Refusal`). Both leave every structure as
it was. `Fault` is either of them.
-/

namespace SlotStore

/-! ## Errors -/

/-- Why a call failed: only exhausted resources and bad configurations are errors. -/
inductive Error where
  /-- Memory was asked for and not granted. -/
  | outOfMemory (text : String)
  /-- A structure, named in `what`, may not grow beyond its limit. -/
  | capacityExceeded (what : String) (limit : Nat)
  /-- A configuration cannot be read or written. -/
  | config (text : String)
deriving DecidableEq, Repr

namespace Error

def message : Error → String
  | outOfMemory text => "Out of memory: " ++ text
  | capacityExceeded what limit =>
    "Capacity exceeded: " ++ what ++ " is limited to " ++ limit.repr ++ " slots"
  | config text => "Config error: " ++ text

def shown : Error → String
  | outOfMemory text => "OutOfMemory(" ++ Quoted.encode text ++ ")"
  | capacityExceeded what limit =>
    Shown.record "CapacityExceeded" [("what", Quoted.encode what), ("limit", limit.repr)]
  | config text => "Config(" ++ Quoted.encode text ++ ")"

/-- The error of a structure that cannot get the memory for `length` entries. -/
def growth (what : String) (length : Nat) : Error :=
  outOfMemory ("Failed to grow " ++ what ++ " to " ++ length.repr ++
    ": memory allocation failed because the memory allocator returned an error")

end Error

/-! ## Refusals -/

/-- Why a call was refused: its slot is not live in the allocator it names. -/
inductive Refusal where
  /-- The slot was to be freed. -/
  | freed (slot : Slot)
  /-- The slot was to be used with a list. -/
  | used (slot : Slot)
deriving DecidableEq, Repr

def Refusal.message : Refusal → String
  | freed slot => slot.text ++ " freed but not allocated from this allocator"
  | used slot => slot.text ++ " used but not allocated from this allocator"

/-- Why a call did not succeed. -/
inductive Fault where
  | error (e : Error)
  | refusal (r : Refusal)
deriving DecidableEq, Repr

end SlotStore
