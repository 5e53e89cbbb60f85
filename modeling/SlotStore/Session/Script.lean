import SlotStore.Slot
import SlotStore.Limits

/-!
# Scripts

A script is a sequence of steps. A step is a call on an allocator, a list or a pair that was handed
back, all known by their names, and the names of what its answer shows besides. A destructor is a
script too: it can be stored with a value by a call, and the script of a destructor can store
others. Values are of any type in which a text can be put behind a value; they are texts where
nothing else is said.
-/

namespace SlotStore

/-- Where the limits of a new allocator or list come from. -/
inductive LimitsSource where
  | given (limits : Limits)
  | toml (text : String)
deriving DecidableEq, Repr

mutual

/-- A destructor. When it runs on a value, it logs its tag and the value, carries out its script
and, if it has a text for that, panics. -/
inductive Destructor (α : Type := String) where
  | mk (tag : String) (script : List (Step α)) (panic : Option String)

/-- A step of a script: a call, an allocator whose counts are shown after it, and a list whose
length is. -/
inductive Step (α : Type := String) where
  | mk (call : Call α) (allocator list : Option String)

/-- A call of a script. Allocators, lists and held pairs are given by name. -/
inductive Call (α : Type := String) where
  /-- Makes an allocator, in place of any other of the name. -/
  | newAllocator (a : String) (limits : LimitsSource)
  /-- Asks for a slot. Memory may be exhausted during the call, here and below. -/
  | allocate (a : String) (exhausted : Bool)
  /-- Asks for several slots, up to the first failure. -/
  | allocateUpTo (a : String) (n : Nat) (exhausted : Bool)
  /-- Asks for several slots on each of several threads, whatever the answers. -/
  | allocateAll (a : String) (threads n : Nat)
  | free (a : String) (slot : Slot)
  /-- Tries to free each of several slots. -/
  | freeEach (a : String) (slots : List Slot)
  /-- Tries to free each of several slots on a thread of its own. -/
  | freeAll (a : String) (slots : List Slot)
  /-- Asks whether a slot is live. -/
  | isLive (a : String) (slot : Slot)
  /-- Asks which of the first slots are live. -/
  | liveBelow (a : String) (n : Nat)
  /-- Asks for the length of the table and the number of live slots. -/
  | counts (a : String)
  | stats (a : String)
  | showAllocator (a : String)
  /-- Makes a list. A list of the name is dropped. -/
  | newList (l : String) (limits : LimitsSource)
  /-- Stores a value and its destructor; what was there is held under a name or let go. -/
  | set (l a : String) (slot : Slot) (value : α) (destructor : Option (Destructor α))
      (hold : Option String) (exhausted : Bool)
  /-- Stores a held pair. -/
  | setHeld (l a : String) (slot : Slot) (h : String) (hold : Option String) (exhausted : Bool)
  | get (l a : String) (slot : Slot)
  /-- Puts a text behind a value. -/
  | append (l a : String) (slot : Slot) (text : String)
  /-- Takes value and destructor out of a slot, to be held under a name or let go. -/
  | clear (l a : String) (slot : Slot) (hold : Option String)
  /-- Destroys a list, which stays, empty. -/
  | destroy (l : String)
  | dropList (l : String)
  | length (l : String)
  | showList (l : String)
  /-- Makes a held pair. -/
  | newHeld (h : String) (value : Option α) (destructor : Option (Destructor α))
  | showHeld (h : String)
  /-- Runs the destructor of a held pair on its value, if both are there. -/
  | finalize (h : String)
  /-- Lets a held pair go. -/
  | dropHeld (h : String)

end

variable {α : Type}

namespace Destructor

/-- What a destructor logs of itself. -/
def tag : Destructor α → String
  | mk tag _ _ => tag

def script : Destructor α → List (Step α)
  | mk _ script _ => script

/-- The text with which a destructor panics at its end, if it does. -/
def panic : Destructor α → Option String
  | mk _ _ panic => panic

end Destructor

namespace Step

def call : Step α → Call α
  | mk call _ _ => call

def allocator? : Step α → Option String
  | mk _ allocator _ => allocator

def list? : Step α → Option String
  | mk _ _ list => list

end Step

/-! ## Load

The load of a script bounds what carrying it out can still set off: it counts the steps and the
destructors in it at all depths, a call more than what it can leave in a session. -/

mutual

def Destructor.load : Destructor α → Nat
  | .mk _ script _ => 1 + scriptLoad script

def scriptLoad : List (Step α) → Nat
  | [] => 0
  | s :: script => 1 + s.load + scriptLoad script

def Step.load : Step α → Nat
  | .mk call _ _ => call.load

def Call.load : Call α → Nat
  | .set _ _ _ _ (some d) _ _ => 5 + d.load
  | .newHeld _ _ (some d) => 5 + d.load
  | _ => 4

end

def optionalLoad : Option (Destructor α) → Nat
  | none => 0
  | some d => 1 + d.load

theorem Destructor.load_eq (d : Destructor α) : d.load = 1 + scriptLoad d.script := by
  cases d with
  | mk tag script panic => rw [Destructor.load, Destructor.script]

theorem Step.load_eq (s : Step α) : s.load = s.call.load := by
  cases s with
  | mk call allocator list => rw [Step.load, Step.call]

end SlotStore
