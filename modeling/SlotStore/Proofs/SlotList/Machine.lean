import SlotStore.Proofs.Allocator.Machine
import SlotStore.Proofs.SlotList.Contents

/-!
# Lists on a machine

`Machine.set` stores something under a slot as a machine does. The position of the slot is only
touched once its allocator has said that the slot is live, so a slot that no allocator issued, or
another one, never gets as far as the sum that makes its successor. A live slot is a position of a
table, so its successor is a word, and the list is long enough for it once it has grown.

`calls_stay_in_range` says of every allocator that requests make, and of every list, that none of
their calls makes a machine stop.
-/

namespace SlotStore

namespace Machine

variable {α δ : Type}

/-! ## Calls -/

def growTo (m : Memory) (n : Nat) (l : SlotList α δ) :
    Except Trap (Outcome (SlotList α δ) Unit) :=
  match l.exceeded n with
  | some limit => pure (.failed l (.capacityExceeded "slot list" limit) [])
  | none => do
    let more ← sub n l.length
    if m.grants n then
      pure ⟨{ l with entries := l.entries ++ List.replicate more {} }, .ok (), [.grew l.length n]⟩
    else pure (.failed l (.growth "slot list" n) [])

/-- Gives a list an entry at a position, if it has none there. -/
def reach (m : Memory) (i : Nat) (l : SlotList α δ) :
    Except Trap (Outcome (SlotList α δ) Unit) :=
  if l.length ≤ i then do
    let n ← add i 1
    growTo m n l
  else pure ⟨l, .ok (), []⟩

def set (a : Allocator) (m : Memory) (s : Slot) (v : α) (d : Option δ) (l : SlotList α δ) :
    Except Trap (Outcome (SlotList α δ) (Pair α δ)) :=
  if a.isLive s then do
    let grown ← reach m s.index l
    match grown.answer with
    | .error f => pure ⟨grown.state, .error f, grown.events⟩
    | .ok () =>
      let before ← read grown.state.entries s.index
      let entries ← write grown.state.entries s.index ⟨some v, d⟩
      pure ⟨{ grown.state with entries }, .ok before, grown.events⟩
  else pure (.refused l (.used s))

/-! ## The calls stay in range -/

variable {l : SlotList α δ} {m : Memory} {i n : Nat}

theorem growTo_eq (h : l.length < n) : growTo m n l = .ok (l.growTo m n) := by
  rw [growTo, SlotList.growTo, if_neg (Nat.not_le_of_lt h)]
  cases l.exceeded n with
  | some limit => rfl
  | none =>
    dsimp only
    rw [bind_eq (sub_eq (Nat.le_of_lt h))]
    split <;> rfl

theorem reach_eq (h : i + 1 < UInt64.size) : reach m i l = .ok (l.growTo m (i + 1)) := by
  rw [reach]
  split
  next hle =>
    rw [bind_eq (add_eq h)]
    exact growTo_eq (Nat.lt_succ_of_le hle)
  next hlt =>
    rw [SlotList.growTo, if_pos (Nat.succ_le_of_lt (Nat.lt_of_not_le hlt))]
    rfl

/-- A machine stores something as a list does, if live slots have successors among the words. -/
theorem set_eq {a : Allocator} (h : a.table.length < UInt64.size) (m : Memory) (s : Slot) (v : α)
    (d : Option δ) (l : SlotList α δ) : set a m s v d l = .ok (l.set a m s v d) := by
  rw [set, SlotList.set, SlotList.guarded]
  by_cases hs : a.isLive s = true
  · have hindex := Allocator.lt_length_of_isLive hs
    rw [if_pos hs, if_pos hs, bind_eq (reach_eq (by omega)), SlotList.put]
    dsimp only
    cases hanswer : (l.growTo m (s.index + 1)).answer with
    | error f => rfl
    | ok u =>
      have hlength : s.index < (l.growTo m (s.index + 1)).state.length :=
        SlotList.length_growTo hanswer
      have hread : (l.growTo m (s.index + 1)).state.entries[s.index]? =
          some ((l.growTo m (s.index + 1)).state.pairAt s.index) := by
        rw [SlotList.pairAt, List.getElem?_eq_getElem hlength, Option.getD_some]
      dsimp only
      rw [bind_eq (read_eq hread), bind_eq (write_eq hlength _)]
      rfl
  · rw [if_neg hs, if_neg hs]
    rfl

/-- **No call leaves the words, the table or the list.** Let vectors refuse to take up more bytes than
the largest signed word says, and take the allocator that any requests make of a new one, under any
limit. The search for a hole finds one exactly if the counts say so, and is the search that is made
without looking at them. A machine that carries out a call comes to what the call comes to: no
assertion fails, no sum or difference leaves the words, and no position lies outside. This is so
whatever memory grants to the call, of every slot that is to be freed or used, whether it was issued
or not, and of every list. -/
theorem calls_stay_in_range (limit : Option Nat) (requests : List Allocator.Request)
    (hvectors : ∀ m, .allocate m ∈ requests → m.Representable) :
    let a := ((Allocator.empty limit).1.run requests).1
    (a.hole.isSome = true ↔ a.used < a.table.length) ∧
    a.hole = a.table.findIdx? Option.isNone ∧
    (∀ m, allocate m a = .ok (a.allocate m)) ∧
    (∀ s, free a s = .ok (a.free s)) ∧
    stats a = .ok a.stats ∧
    ∀ m s v d (l : SlotList α δ), set a m s v d l = .ok (l.set a m s v d) := by
  intro a
  have hw : a.WellFormed := Allocator.wellFormed_run (Allocator.wellFormed_empty limit) requests
  have hlength : a.table.length ≤ UInt64.size / 2 :=
    Allocator.run_length_le (Nat.zero_le _) fun m hm n hn => Nat.le_of_lt (hvectors m hm n hn)
  -- half of the words are far from the last of them
  have hhalf : UInt64.size / 2 + 1 < UInt64.size := by decide
  have hword : a.table.length + 1 < UInt64.size :=
    Nat.lt_of_le_of_lt (Nat.succ_le_succ hlength) hhalf
  exact ⟨Allocator.isSome_hole_iff hw, Allocator.hole_eq_findIdx? hw, allocate_eq hw hword,
    free_eq hw, stats_eq hw, set_eq (Nat.lt_of_succ_lt hword)⟩

/-- A slot is issued again, and the largest of all is refused before it has a successor. A full table
that cannot grow says which length it was to have. -/
theorem largest_slot_stays_in_range :
    let m : Memory := ⟨fun n => decide (n < UInt64.size / 2)⟩
    let largest : Slot := ⟨UInt64.size - 1⟩
    let requests : List Allocator.Request := [.allocate m, .allocate m, .free ⟨0⟩]
    let a : Allocator := ⟨[none, some ⟨1⟩], 1, some (UInt64.size - 1)⟩
    let full : Allocator := ⟨[some ⟨0⟩], 1, none⟩
    let l : SlotList String String := {}
    ((Allocator.empty a.limit).1.run requests).1 = a ∧
    ((Allocator.empty none).1.run [.allocate m]).1 = full ∧
    (∀ m, .allocate m ∈ requests → m.Representable) ∧
    allocate m a = .ok ⟨⟨[some ⟨0⟩, some ⟨1⟩], 2, a.limit⟩, .ok ⟨0⟩, [.reissued ⟨0⟩]⟩ ∧
    allocate .exhausted full = .ok (.failed full (.growth "slot table" 2) []) ∧
    free a largest = .ok (.refused a (.freed largest)) ∧
    set a m largest "x" none l = .ok (.refused l (.used largest)) ∧
    set a m ⟨1⟩ "x" none l =
      .ok ⟨⟨[{}, ⟨some "x", none⟩], none⟩, .ok {}, [.grew 0 2]⟩ := by
  intro m largest requests a full l
  have hrun : ((Allocator.empty a.limit).1.run requests).1 = a := rfl
  have hvectors : ∀ m, .allocate m ∈ requests → m.Representable := by
    intro m' hm' n hn
    have heq : m' = m := by simpa [requests] using hm'
    rw [heq] at hn
    exact of_decide_eq_true hn
  have hfull : ((Allocator.empty none).1.run [.allocate m]).1 = full := rfl
  have hfirst : ∀ m', .allocate m' ∈ [Allocator.Request.allocate m] → m'.Representable :=
    fun m' hm' => hvectors m' (List.mem_append_left [Allocator.Request.allocate m, .free ⟨0⟩] hm')
  obtain ⟨-, -, hallocate, hfree, -, hset⟩ := calls_stay_in_range (α := String) (δ := String)
    a.limit requests hvectors
  obtain ⟨-, -, hrefused, -⟩ := calls_stay_in_range (α := String) (δ := String)
    none [.allocate m] hfirst
  rw [hrun] at hallocate hfree hset
  rw [hfull] at hrefused
  refine ⟨hrun, hfull, hvectors, (hallocate m).trans ?_, (hrefused .exhausted).trans ?_,
    (hfree largest).trans ?_, (hset m largest "x" none l).trans ?_, (hset m ⟨1⟩ "x" none l).trans ?_⟩
  · rfl
  · rfl
  · rfl
  · rfl
  · rfl

end Machine

end SlotStore
