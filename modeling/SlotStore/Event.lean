import SlotStore.Slot
import SlotStore.Text.Shown

/-!
# Events

Allocators and lists report what they do as events. An event has a level and a message; the two
together are its text.
-/

namespace SlotStore

/-- What an allocator or a list reports. -/
inductive Event where
  | opened (limit : Option Nat)
  /-- A slot was issued at the end of the table. -/
  | issued (slot : Slot)
  /-- A slot was issued from a hole in the table. -/
  | reissued (slot : Slot)
  /-- No slot can be issued. -/
  | full (limit : Nat)
  | freed (slot : Slot)
  /-- The table was dropped, because no slot is live. -/
  | released
  | grew (before after : Nat)
  | destroyed (length : Nat)
deriving DecidableEq, Repr

namespace Event

/-- How urgent an event is. -/
def level : Event → String
  | opened _ => "INFO"
  | issued _ | reissued _ | freed _ | released => "DEBUG"
  | full _ => "WARN"
  | grew _ _ | destroyed _ => "TRACE"

def message : Event → String
  | opened limit =>
    "Initializing slot allocator (max_slots: " ++ Shown.option Nat.repr limit ++ ")"
  | issued slot => "Allocated " ++ slot.text
  | reissued slot => "Allocated " ++ slot.text ++ " (reused)"
  | full limit => "Slot allocator is full (" ++ limit.repr ++ " slots)"
  | freed slot => "Freed " ++ slot.text
  | released => "Released slot table, no slots in use"
  | grew before after =>
    "Growing slot list from " ++ before.repr ++ " to " ++ after.repr
  | destroyed length => "Destroying slot list with " ++ length.repr ++ " entries"

/-- The whole text of an event. -/
def text (e : Event) : String := e.level ++ " " ++ e.message

end Event

end SlotStore
