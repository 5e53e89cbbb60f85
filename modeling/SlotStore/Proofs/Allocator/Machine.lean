import SlotStore.Proofs.Allocator.Request

/-!
# Allocators on a machine

The numbers of an allocator have no bound here, a difference stops at 0, and what is written outside
of a list is lost. A machine has words instead. It stops in the middle of a call where a sum is no
word, where a difference is negative, where a position lies outside and where an assertion fails
(`Trap`).

`Machine.allocate`, `Machine.free` and `Machine.stats` are the calls as a machine carries them out,
one operation after the other. They come to the same as the calls themselves because of what is
known of a well-formed table: a live slot is a position of the table, and no more slots are live
than the table has entries. A vector refuses to take up more bytes than the largest signed word says
(`Memory.Representable`), so the length of a table is a word, and so is the next one, which the text
of a failure to grow names.
-/

namespace SlotStore

/-- Why a machine stops in the middle of a call. -/
inductive Trap where
  /-- What was asserted does not hold. -/
  | assertion
  /-- A sum or a difference is no word. -/
  | overflow
  /-- A position lies outside of a list. -/
  | outside
deriving DecidableEq, Repr

/-- Vectors refuse to take up more bytes than the largest signed word says, and an entry takes up one
at least. -/
def Memory.Representable (m : Memory) : Prop := ∀ n, m.grants n = true → n < UInt64.size / 2

namespace Machine

/-! ## Operations -/

section

variable {α : Type} {xs : List α} {x y i : Nat} {z : α}

def add (x y : Nat) : Except Trap Nat :=
  if x + y < UInt64.size then .ok (x + y) else .error .overflow

def sub (x y : Nat) : Except Trap Nat :=
  if y ≤ x then .ok (x - y) else .error .overflow

def read (xs : List α) (i : Nat) : Except Trap α :=
  match xs[i]? with
  | some z => .ok z
  | none => .error .outside

def write (xs : List α) (i : Nat) (z : α) : Except Trap (List α) :=
  if i < xs.length then .ok (xs.set i z) else .error .outside

def assert (holds : Bool) : Except Trap Unit :=
  if holds then .ok () else .error .assertion

theorem add_eq (h : x + y < UInt64.size) : add x y = .ok (x + y) := if_pos h

theorem sub_eq (h : y ≤ x) : sub x y = .ok (x - y) := if_pos h

theorem read_eq (h : xs[i]? = some z) : read xs i = .ok z := by rw [read, h]

theorem write_eq (h : i < xs.length) (z : α) : write xs i z = .ok (xs.set i z) := if_pos h

theorem assert_eq {holds : Bool} (h : holds = true) : assert holds = .ok () := if_pos h

theorem bind_eq {β : Type} {x : Except Trap α} (h : x = .ok z) (f : α → Except Trap β) :
    x >>= f = f z := by
  rw [h]
  rfl

end

/-! ## Calls -/

def fill (a : Allocator) (i : Nat) : Except Trap Allocator := do
  let table ← write a.table i (some ⟨i⟩)
  let used ← add a.used 1
  pure { a with table, used }

def extend (a : Allocator) : Except Trap Allocator := do
  let used ← add a.used 1
  pure { a with table := a.table ++ [some ⟨a.table.length⟩], used }

/-- Issues a slot. The search for a hole is asserted to find one exactly if the counts say so. -/
def allocate (m : Memory) (a : Allocator) : Except Trap (Outcome Allocator Slot) := do
  assert (a.hole.isSome == decide (a.used < a.table.length))
  match a.hole with
  | some i =>
    let filled ← fill a i
    pure ⟨filled, .ok ⟨i⟩, [.reissued ⟨i⟩]⟩
  | none =>
    match a.reached with
    | some limit => pure (.failed a (.capacityExceeded "slot allocator" limit) [.full limit])
    | none =>
      if m.grants (a.table.length + 1) then
        let extended ← extend a
        pure ⟨extended, .ok ⟨a.table.length⟩, [.issued ⟨a.table.length⟩]⟩
      else
        let length ← add a.table.length 1
        pure (.failed a (.growth "slot table" length) [])

def vacate (a : Allocator) (i : Nat) : Except Trap Allocator := do
  let table ← write a.table i none
  let used ← sub a.used 1
  pure (if used = 0 then { a with table := [], used } else { a with table, used })

def free (a : Allocator) (s : Slot) : Except Trap (Outcome Allocator Unit) :=
  if a.isLive s then do
    let vacated ← vacate a s.index
    pure ⟨vacated, .ok (), if vacated.used = 0 then [.freed s, .released] else [.freed s]⟩
  else pure (.refused a (.freed s))

def stats (a : Allocator) : Except Trap Stats := do
  let free ← sub a.table.length a.used
  pure ⟨a.table.length, a.used, free⟩

end Machine

namespace Allocator

/-! ## The search for a hole -/

variable {a : Allocator} {m : Memory}

/-- The counts say rightly whether there is a hole. -/
theorem isSome_hole_iff (hw : a.WellFormed) : a.hole.isSome = true ↔ a.used < a.table.length := by
  cases hh : a.hole with
  | none =>
    have hfull := used_eq_length_of_hole hw hh
    simp [hfull]
  | some i => simp [used_lt_length_of_hole hh]

theorem hole_eq_findIdx? (hw : a.WellFormed) : a.hole = a.table.findIdx? Option.isNone := by
  rw [hole]
  split
  · rfl
  next hfull =>
    symm
    rw [List.findIdx?_eq_none_iff]
    have hall : a.table.countP Option.isSome = a.table.length := by
      rw [← hw.counted]
      exact Nat.le_antisymm (used_le_length hw) (Nat.le_of_not_lt hfull)
    intro e he
    rw [← Option.not_isSome, List.countP_eq_length.mp hall e he]
    rfl

/-! ## Lengths -/

theorem serve_length_le {bound : Nat} (h : a.table.length ≤ bound) {q : Request}
    (hq : ∀ m, q = .allocate m → ∀ n, m.grants n = true → n ≤ bound) :
    (a.serve q).1.table.length ≤ bound := by
  cases q with
  | allocate m =>
    rcases allocate_cases m a with ⟨i, _, he⟩ | ⟨n, _, _, _, he⟩ | ⟨_, _, hm, he⟩ | ⟨_, _, _, he⟩
    · rw [serve, he]
      exact List.length_set.trans_le h
    · rw [serve, he]
      exact h
    · rw [serve, he]
      exact List.length_append.trans_le (hq m rfl _ hm)
    · rw [serve, he]
      exact h
  | free s =>
    by_cases hs : a.isLive s = true
    · rw [serve, free_of_isLive hs]
      show (a.vacate s.index).table.length ≤ bound
      rw [vacate]
      split
      · exact Nat.zero_le bound
      · exact List.length_set.trans_le h
    · rw [serve, free_of_not_isLive hs]
      exact h
  | isLive s => exact h
  | used => exact h

theorem run_length_le {bound : Nat} (h : a.table.length ≤ bound) {requests : List Request}
    (hrequests : ∀ m, .allocate m ∈ requests → ∀ n, m.grants n = true → n ≤ bound) :
    (a.run requests).1.table.length ≤ bound := by
  induction requests generalizing a with
  | nil => exact h
  | cons q requests ih =>
    refine ih (serve_length_le h fun m hm => ?_) fun m hm => ?_
    · exact hrequests m (hm ▸ List.mem_cons_self ..)
    · exact hrequests m (List.mem_cons_of_mem _ hm)

end Allocator

namespace Machine

variable {a : Allocator} {s : Slot} {i : Nat}

/-! ## The calls stay in range -/

theorem assert_hole (hw : a.WellFormed) :
    assert (a.hole.isSome == decide (a.used < a.table.length)) = .ok () := by
  refine assert_eq (beq_iff_eq.mpr (Bool.eq_iff_iff.mpr ?_))
  rw [decide_eq_true_eq]
  exact Allocator.isSome_hole_iff hw

theorem fill_eq (hh : a.hole = some i) (hlength : a.table.length < UInt64.size) :
    fill a i = .ok (a.fill i) := by
  have hused := Allocator.used_lt_length_of_hole hh
  rw [fill, bind_eq (write_eq (Allocator.hole_lt_length hh) _), bind_eq (add_eq (by omega))]
  rfl

theorem extend_eq (hused : a.used + 1 < UInt64.size) : extend a = .ok a.extend := by
  rw [extend, bind_eq (add_eq hused)]
  rfl

theorem vacate_eq (hw : a.WellFormed) (hs : a.isLive s = true) :
    vacate a s.index = .ok (a.vacate s.index) := by
  rw [vacate, bind_eq (write_eq (Allocator.lt_length_of_isLive hs) _),
    bind_eq (sub_eq (Allocator.used_pos hw hs)), Allocator.vacate]
  split
  next hz => rw [hz]; rfl
  next => rfl

/-- A machine issues a slot as an allocator does, if the length of the table has a successor among
the words. -/
theorem allocate_eq (hw : a.WellFormed) (hlength : a.table.length + 1 < UInt64.size) (m : Memory) :
    allocate m a = .ok (a.allocate m) := by
  rw [allocate, bind_eq (assert_hole hw), Allocator.allocate]
  cases hh : a.hole with
  | some i => exact bind_eq (fill_eq hh (Nat.lt_of_succ_lt hlength)) _
  | none =>
    cases a.reached with
    | some n => rfl
    | none =>
      have hused := Allocator.used_le_length hw
      dsimp only
      cases m.grants (a.table.length + 1) with
      | true => exact bind_eq (extend_eq (by omega)) _
      | false => exact bind_eq (add_eq hlength) _

theorem free_eq (hw : a.WellFormed) (s : Slot) : free a s = .ok (a.free s) := by
  rw [free, Allocator.free]
  by_cases hs : a.isLive s = true
  · rw [if_pos hs, if_pos hs]
    exact bind_eq (vacate_eq hw hs) _
  · rw [if_neg hs, if_neg hs]
    rfl

theorem stats_eq (hw : a.WellFormed) : stats a = .ok a.stats :=
  bind_eq (sub_eq (Allocator.used_le_length hw)) _

end Machine

end SlotStore
