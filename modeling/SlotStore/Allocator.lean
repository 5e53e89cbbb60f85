import SlotStore.Memory
import SlotStore.Outcome

/-!
# Allocators

An allocator issues slots first-fit from a table. Entry `i` of the table is slot `i` while that slot
is live and empty once it has been freed. When no slot is live any more, the whole table is dropped
and numbering starts again at 0.
-/

namespace SlotStore

/-- A table of issued slots, the number of live ones among them, and the largest length that the
table may have. -/
structure Allocator where
  /-- Entry `i` is slot `i`, or empty. -/
  table : List (Option Slot) := []
  used : Nat := 0
  /-- The largest length of the table, if there is one. -/
  limit : Option Nat := none
deriving DecidableEq, Repr

/-- The counts of a table. -/
structure Stats where
  /-- The length of the table. -/
  allocated : Nat
  used : Nat
  free : Nat
deriving DecidableEq, Repr

namespace Allocator

/-! ## Views -/

def isLive (a : Allocator) (s : Slot) : Bool := a.table[s.index]?.join = some s

def live (a : Allocator) : List Slot := a.table.filterMap id

def liveBelow (a : Allocator) (n : Nat) : List Slot :=
  ((List.range n).map Slot.mk).filter a.isLive

def stats (a : Allocator) : Stats := ⟨a.table.length, a.used, a.table.length - a.used⟩

/-! ## Calls -/

/-- A new allocator, with an empty table, and its event. -/
def empty (limit : Option Nat) : Allocator × List Event := ({ limit }, [.opened limit])

/-- The first hole of the table. There is one exactly if the table is longer than the number of
live slots, so otherwise no search is made. -/
def hole (a : Allocator) : Option Nat :=
  if a.used < a.table.length then a.table.findIdx? Option.isNone else none

/-- Whether one more entry would pass the limit; gives that limit. -/
def reached (a : Allocator) : Option Nat := a.limit.filter (· ≤ a.table.length)

/-- Puts a slot into the table at `i`, which is a hole. -/
def fill (a : Allocator) (i : Nat) : Allocator :=
  { a with table := a.table.set i (some ⟨i⟩), used := a.used + 1 }

/-- Puts a slot at the end of the table. -/
def extend (a : Allocator) : Allocator :=
  { a with table := a.table ++ [some ⟨a.table.length⟩], used := a.used + 1 }

/-- Issues a slot: the first hole of the table, or else the next number, for which the table grows
by one entry. It can grow below its limit and if memory grants it. -/
def allocate (m : Memory) (a : Allocator) : Outcome Allocator Slot :=
  match a.hole with
  | some i => ⟨a.fill i, .ok ⟨i⟩, [.reissued ⟨i⟩]⟩
  | none =>
    match a.reached with
    | some limit => .failed a (.capacityExceeded "slot allocator" limit) [.full limit]
    | none =>
      let slot : Slot := ⟨a.table.length⟩
      if m.grants (slot.index + 1) then ⟨a.extend, .ok slot, [.issued slot]⟩
      else .failed a (.growth "slot table" (slot.index + 1)) []

/-- Empties entry `i` of the table, and drops the table if no slot is live then. -/
def vacate (a : Allocator) (i : Nat) : Allocator :=
  if a.used - 1 = 0 then { a with table := [], used := 0 }
  else { a with table := a.table.set i none, used := a.used - 1 }

/-- Takes a live slot back, and refuses any other. -/
def free (a : Allocator) (s : Slot) : Outcome Allocator Unit :=
  if a.isLive s then
    ⟨a.vacate s.index, .ok (),
      if (a.vacate s.index).used = 0 then [.freed s, .released] else [.freed s]⟩
  else .refused a (.freed s)

/-! ## Several calls -/

/-- Issues up to `n` slots, one call after the other, and stops after the first failure. -/
def allocateUpTo (m : Memory) : Nat → Allocator → Allocator × List (Except Fault Slot) × List Event
  | 0, a => (a, [], [])
  | n + 1, a =>
    let o := a.allocate m
    match o.answer with
    | .error f => (o.state, [.error f], o.events)
    | .ok s =>
      let (a', answers, events) := allocateUpTo m n o.state
      (a', .ok s :: answers, o.events ++ events)

/-- Makes `n` calls for a slot, whatever they answer. -/
def allocateAll (m : Memory) : Nat → Allocator → Allocator × List (Except Fault Slot)
  | 0, a => (a, [])
  | n + 1, a =>
    let o := a.allocate m
    let (a', answers) := allocateAll m n o.state
    (a', o.answer :: answers)

def freeEach : List Slot → Allocator → Allocator × List (Except Fault Unit) × List Event
  | [], a => (a, [], [])
  | s :: slots, a =>
    let o := a.free s
    let (a', answers, events) := freeEach slots o.state
    (a', o.answer :: answers, o.events ++ events)

/-! ## Texts -/

def shown (a : Allocator) : String :=
  Shown.record "SlotAllocator" [
    ("table", Shown.record "Mutex" [("data", Shown.record "SlotTable" [
      ("slots", Shown.sequence (Shown.option Slot.shown) a.table), ("n_used", a.used.repr)])]),
    ("max_slots", Shown.option Nat.repr a.limit)]

end Allocator

def Stats.shown (s : Stats) : String :=
  Shown.record "AllocatorStats" [("allocated_slots", s.allocated.repr),
    ("used_slots", s.used.repr), ("free_slots", s.free.repr)]

def Stats.isZero (s : Stats) : Bool := s = ⟨0, 0, 0⟩

end SlotStore
