import SlotStore.Allocator

/-!
# Lists

A list keeps, under each slot, a value and an optional destructor for it. It is as long as the
highest slot ever set requires, and never shrinks until it is destroyed. A call that displaces a
pair hands it back and runs nothing.

Every access names the allocator that issued the slot and is refused unless the slot is live there.
The allocator is asked first; what follows concerns the list alone, so each guarded call has a bare
counterpart (`put`, `value?`, `alter`, `take`).
-/

namespace SlotStore

/-- A value and a destructor, each of which may be absent. -/
structure Pair (α δ : Type) where
  value : Option α := none
  destructor : Option δ := none
deriving DecidableEq, Repr

namespace Pair

variable {α δ : Type}

def isEmpty (p : Pair α δ) : Bool := p.value.isNone && p.destructor.isNone

/-- The value with its destructor, if both are there: only then is there something to run. -/
def runnable? (p : Pair α δ) : Option (α × δ) :=
  match p.value, p.destructor with
  | some v, some d => some (v, d)
  | _, _ => none

theorem runnable?_eq_some_iff {p : Pair α δ} {v : α} {d : δ} :
    p.runnable? = some (v, d) ↔ p = ⟨some v, some d⟩ := by
  obtain ⟨w, e⟩ := p
  cases w <;> cases e <;> simp [runnable?]

end Pair

/-- Pairs by position, and the largest number of them. -/
structure SlotList (α δ : Type) where
  /-- The pair of each slot below the length. -/
  entries : List (Pair α δ) := []
  /-- The largest length of the list, if there is one. -/
  limit : Option Nat := none
deriving DecidableEq, Repr

namespace SlotList

variable {α δ : Type}

/-! ## Views -/

/-- One more than the highest slot ever set. -/
def length (l : SlotList α δ) : Nat := l.entries.length

/-- The pair of a position, empty beyond the end. -/
def pairAt (l : SlotList α δ) (i : Nat) : Pair α δ := l.entries[i]?.getD {}

/-! ## Calls on the list alone -/

/-- Whether the list may not have `n` entries; gives its limit. -/
def exceeded (l : SlotList α δ) (n : Nat) : Option Nat := l.limit.filter (· < n)

/-- Gives the list at least `n` entries. New ones are empty. It can grow up to its limit and if
memory grants it. -/
def growTo (m : Memory) (n : Nat) (l : SlotList α δ) : Outcome (SlotList α δ) Unit :=
  if n ≤ l.length then ⟨l, .ok (), []⟩
  else
    match l.exceeded n with
    | some limit => .failed l (.capacityExceeded "slot list" limit) []
    | none =>
      if m.grants n then
        ⟨{ l with entries := l.entries ++ List.replicate (n - l.length) {} }, .ok (),
          [.grew l.length n]⟩
      else .failed l (.growth "slot list" n) []

theorem length_growTo {m : Memory} {n : Nat} {l : SlotList α δ}
    (h : (l.growTo m n).answer = .ok ()) : n ≤ (l.growTo m n).state.length := by
  unfold growTo at h ⊢
  split
  · assumption
  next hn =>
    rw [if_neg hn] at h
    split
    next he =>
      rw [he] at h
      cases h
    next he =>
      split
      · rw [length, List.length_append, List.length_replicate]
        rw [length]
        omega
      next hm =>
        rw [he] at h
        simp only [hm, Bool.false_eq_true, if_false] at h
        cases h

def exchange (l : SlotList α δ) (i : Nat) (p : Pair α δ) : SlotList α δ :=
  { l with entries := l.entries.set i p }

/-- Stores a pair at a position, for which the list grows as far as needed, and hands back the pair
that was there. -/
def put (m : Memory) (i : Nat) (p : Pair α δ) (l : SlotList α δ) :
    Outcome (SlotList α δ) (Pair α δ) :=
  let grown := l.growTo m (i + 1)
  match grown.answer with
  | .error f => ⟨grown.state, .error f, grown.events⟩
  | .ok () => ⟨grown.state.exchange i p, .ok (grown.state.pairAt i), grown.events⟩

def value? (l : SlotList α δ) (i : Nat) : Option α := (l.pairAt i).value

/-- Changes the value at a position, if there is one. -/
def alter (f : α → α) (i : Nat) (l : SlotList α δ) : SlotList α δ :=
  l.exchange i { l.pairAt i with value := (l.value? i).map f }

/-- Takes the pair out of a position. The list keeps its length. -/
def take (i : Nat) (l : SlotList α δ) : SlotList α δ × Pair α δ := (l.exchange i {}, l.pairAt i)

def emptied (l : SlotList α δ) : SlotList α δ := { l with entries := [] }

/-! ## Guarded calls -/

/-- Carries out a call on a list if the slot is live, and refuses it otherwise. -/
def guarded {ρ : Type} (a : Allocator) (s : Slot)
    (call : SlotList α δ → Outcome (SlotList α δ) ρ) (l : SlotList α δ) :
    Outcome (SlotList α δ) ρ :=
  if a.isLive s then call l else .refused l (.used s)

/-- Stores a value and its destructor under a slot, and hands back what was there. -/
def set (a : Allocator) (m : Memory) (s : Slot) (value : α) (destructor : Option δ) :
    SlotList α δ → Outcome (SlotList α δ) (Pair α δ) :=
  guarded a s fun l => l.put m s.index ⟨some value, destructor⟩

def get (a : Allocator) (s : Slot) : SlotList α δ → Outcome (SlotList α δ) (Option α) :=
  guarded a s fun l => ⟨l, .ok (l.value? s.index), []⟩

/-- Changes the value under a slot, if there is one, and answers the new value. -/
def modify (a : Allocator) (s : Slot) (f : α → α) :
    SlotList α δ → Outcome (SlotList α δ) (Option α) :=
  guarded a s fun l => ⟨l.alter f s.index, .ok ((l.alter f s.index).value? s.index), []⟩

/-- Takes value and destructor out of a slot. -/
def clear (a : Allocator) (s : Slot) : SlotList α δ → Outcome (SlotList α δ) (Pair α δ) :=
  guarded a s fun l => ⟨(l.take s.index).1, .ok (l.take s.index).2, []⟩

/-! ## Texts -/

def shown (l : SlotList α δ) : String :=
  Shown.record "SlotList" [("len", l.length.repr), ("max_len", Shown.option Nat.repr l.limit)]

end SlotList

end SlotStore
