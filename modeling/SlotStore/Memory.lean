/-!
# Memory

A table or a list asks for memory whenever it grows, once, with the length it is to have.
-/

namespace SlotStore

/-- Memory grants or refuses each request, by the length that is asked for. -/
structure Memory where
  /-- Whether a structure may have this many entries. -/
  grants : Nat → Bool

namespace Memory

def ample : Memory := ⟨fun _ => true⟩

def exhausted : Memory := ⟨fun _ => false⟩

end Memory

end SlotStore
