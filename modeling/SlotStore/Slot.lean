/-!
# Slots

A slot is a number that an allocator issues and that every list uses as a position. Slots are
ordered by their number.
-/

namespace SlotStore

/-- A slot number. Any number is a slot; which of them are live is known to an allocator only. -/
structure Slot where
  index : Nat
deriving DecidableEq, Repr, Inhabited

namespace Slot

instance : LE Slot := ⟨fun s t => s.index ≤ t.index⟩

instance : LT Slot := ⟨fun s t => s.index < t.index⟩

instance (s t : Slot) : Decidable (s ≤ t) := inferInstanceAs (Decidable (s.index ≤ t.index))

instance (s t : Slot) : Decidable (s < t) := inferInstanceAs (Decidable (s.index < t.index))

instance : Ord Slot := ⟨fun s t => compare s.index t.index⟩

instance : Max Slot := ⟨fun s t => if t.index < s.index then s else t⟩

instance : Min Slot := ⟨fun s t => if t.index < s.index then t else s⟩

def text (s : Slot) : String := "Slot(" ++ s.index.repr ++ ")"

/-- The text of a slot inside the text of a table. -/
def shown (s : Slot) : String := "SlotId(" ++ s.index.repr ++ ")"

/-- The slots in ascending order, repetitions kept. -/
def sorted (slots : List Slot) : List Slot := slots.mergeSort fun s t => decide (s ≤ t)

/-- The number of different slots in a list. -/
def distinct (slots : List Slot) : Nat := slots.eraseDups.length

end Slot

end SlotStore
