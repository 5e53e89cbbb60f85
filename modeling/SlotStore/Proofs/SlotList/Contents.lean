import Mathlib.Logic.Function.Basic
import SlotStore.Proofs.SlotList.Armed

/-!
# The contents of a list

What a list stores is a partial map from slots to values, each with an optional destructor. `Holds`
says that a list stores such a map; no entry of it has a destructor without a value then. This
module says of each call what it makes of the map.
-/

namespace SlotStore

/-- A partial map from slots to values with their destructors. -/
abbrev Contents (α δ : Type) := Slot → Option (α × Option δ)

namespace Contents

variable {α δ : Type}

/-- The pair of a place in a map: both parts are absent if there is nothing. -/
def pairOf : Option (α × Option δ) → Pair α δ
  | none => {}
  | some (v, d) => ⟨some v, d⟩

theorem value_pairOf (x : Option (α × Option δ)) : (pairOf x).value = x.map Prod.fst := by
  cases x <;> rfl

theorem pairOf_eq_armed_iff {x : Option (α × Option δ)} {v : α} {d : δ} :
    pairOf x = ⟨some v, some d⟩ ↔ x = some (v, some d) := by
  cases x with
  | none => simp [pairOf]
  | some x =>
    obtain ⟨w, e⟩ := x
    simp [pairOf]

end Contents

namespace SlotList

open Contents

variable {α δ : Type} {l : SlotList α δ} {c : Contents α δ}

/-! ## Pairs by position -/

theorem pairAt_of_length_le {i : Nat} (h : l.length ≤ i) : l.pairAt i = {} := by
  rw [pairAt, List.getElem?_eq_none h, Option.getD_none]

theorem pairAt_exchange_self {i : Nat} {p : Pair α δ} (h : i < l.length ∨ p = {}) :
    (l.exchange i p).pairAt i = p := by
  rw [pairAt, exchange, List.getElem?_set_self']
  by_cases hi : i < l.length
  · rw [List.getElem?_eq_getElem (by exact hi)]
    rfl
  · rw [List.getElem?_eq_none (by exact Nat.le_of_not_lt hi), Option.map_eq_map, Option.map_none,
      Option.getD_none]
    rcases h with h | h
    · exact absurd h hi
    · exact h.symm

theorem pairAt_exchange_of_ne {i j : Nat} (h : i ≠ j) (p : Pair α δ) :
    (l.exchange i p).pairAt j = l.pairAt j := by
  rw [pairAt, exchange, List.getElem?_set_ne h, pairAt]

theorem altered_cases (f : α → α) (i : Nat) (l : SlotList α δ) :
    i < l.length ∨ { l.pairAt i with value := (l.value? i).map f } = ({} : Pair α δ) := by
  by_cases hi : i < l.length
  · exact Or.inl hi
  · rw [value?, pairAt_of_length_le (Nat.le_of_not_lt hi)]
    exact Or.inr rfl

theorem pairAt_alter_self (f : α → α) (i : Nat) (l : SlotList α δ) :
    (l.alter f i).pairAt i = { l.pairAt i with value := (l.value? i).map f } :=
  pairAt_exchange_self (altered_cases f i l)

/-! ## Growing -/

/-- A list with so many entries more as it needs to have `n`. They are empty. -/
def lengthened (n : Nat) (l : SlotList α δ) : SlotList α δ :=
  { l with entries := l.entries ++ List.replicate (n - l.length) {} }

theorem length_lengthened (n : Nat) (l : SlotList α δ) :
    (l.lengthened n).length = max l.length n := by
  rw [lengthened, length, List.length_append, List.length_replicate]
  show l.length + (n - l.length) = _
  omega

theorem lengthened_of_le {n : Nat} (h : n ≤ l.length) : l.lengthened n = l := by
  rw [lengthened, Nat.sub_eq_zero_of_le h, List.replicate_zero, List.append_nil]

theorem pairAt_lengthened (n : Nat) (l : SlotList α δ) (i : Nat) :
    (l.lengthened n).pairAt i = l.pairAt i := by
  rw [lengthened, pairAt, pairAt]
  by_cases h : i < l.entries.length
  · rw [List.getElem?_append_left h]
  · rw [List.getElem?_append_right (Nat.le_of_not_lt h),
      List.getElem?_eq_none (Nat.le_of_not_lt h), Option.getD_none, List.getElem?_replicate]
    split <;> rfl

/-- All that growing can do: nothing, if the list is long enough; otherwise fail at the limit,
lengthen the list, or fail for want of memory. -/
theorem growTo_cases (m : Memory) (n : Nat) (l : SlotList α δ) :
    (n ≤ l.length ∧ l.growTo m n = ⟨l, .ok (), []⟩) ∨
    (∃ k, l.length < n ∧ l.limit = some k ∧ k < n ∧
      l.growTo m n = .failed l (.capacityExceeded "slot list" k) []) ∨
    (l.length < n ∧ (∀ k, l.limit = some k → n ≤ k) ∧ m.grants n = true ∧
      l.growTo m n = ⟨l.lengthened n, .ok (), [.grew l.length n]⟩) ∨
    (l.length < n ∧ (∀ k, l.limit = some k → n ≤ k) ∧ m.grants n = false ∧
      l.growTo m n = .failed l (.growth "slot list" n) []) := by
  unfold growTo
  by_cases hn : n ≤ l.length
  · exact Or.inl ⟨hn, if_pos hn⟩
  · right
    have hlt := Nat.lt_of_not_le hn
    rw [if_neg hn]
    cases he : l.exceeded n with
    | some k =>
      left
      rw [exceeded, Option.filter_eq_some_iff, decide_eq_true_eq] at he
      exact ⟨k, hlt, he.1, he.2, rfl⟩
    | none =>
      right
      have hroom : ∀ k, l.limit = some k → n ≤ k := by
        intro k hk
        rw [exceeded, Option.filter_eq_none_iff] at he
        simpa using he k hk
      cases hm : m.grants n with
      | true => exact Or.inl ⟨hlt, hroom, rfl, rfl⟩
      | false => exact Or.inr ⟨hlt, hroom, rfl, rfl⟩

theorem pairAt_growTo (m : Memory) (n : Nat) (l : SlotList α δ) (i : Nat) :
    (l.growTo m n).state.pairAt i = l.pairAt i := by
  rcases growTo_cases m n l with ⟨_, he⟩ | ⟨_, _, _, _, he⟩ | ⟨_, _, _, he⟩ | ⟨_, _, _, he⟩
  · rw [he]
  · rw [he]
    rfl
  · rw [he]
    exact pairAt_lengthened n l i
  · rw [he]
    rfl

theorem growTo_answer (m : Memory) (n : Nat) (l : SlotList α δ) :
    (l.growTo m n).answer = .ok () ∨ ∃ e, (l.growTo m n).answer = .error (.error e) := by
  rcases growTo_cases m n l with ⟨_, he⟩ | ⟨_, _, _, _, he⟩ | ⟨_, _, _, he⟩ | ⟨_, _, _, he⟩
  · exact Or.inl (by rw [he])
  · exact Or.inr ⟨_, by rw [he]; rfl⟩
  · exact Or.inl (by rw [he])
  · exact Or.inr ⟨_, by rw [he]; rfl⟩

/-! ## Lists and maps -/

/-- A list stores a map. -/
def Holds (l : SlotList α δ) (c : Contents α δ) : Prop := ∀ s, l.pairAt s.index = pairOf (c s)

theorem holds_new (limit : Option Nat) :
    ({ limit := limit } : SlotList α δ).Holds fun _ => none :=
  fun _ => rfl

theorem holds_emptied (l : SlotList α δ) : l.emptied.Holds fun _ => none := fun _ => rfl

theorem holds_growTo (h : l.Holds c) (m : Memory) (n : Nat) : (l.growTo m n).state.Holds c :=
  fun s => (pairAt_growTo m n l s.index).trans (h s)

theorem holds_exchange (h : l.Holds c) {s : Slot} {x : Option (α × Option δ)}
    (hs : s.index < l.length ∨ pairOf x = {}) :
    (l.exchange s.index (pairOf x)).Holds (Function.update c s x) := by
  intro t
  by_cases ht : t = s
  · subst ht
    rw [Function.update_self, pairAt_exchange_self hs]
  · have hne : s.index ≠ t.index := fun he => ht (congrArg Slot.mk he).symm
    rw [Function.update_of_ne ht, pairAt_exchange_of_ne hne]
    exact h t

/-- Storing a pair stores it in the map and hands back what was there; it can fail, and nothing has
changed then. -/
theorem holds_put (h : l.Holds c) (m : Memory) (s : Slot) (v : α) (d : Option δ) :
    (l.put m s.index ⟨some v, d⟩).answer = .ok (pairOf (c s)) ∧
        (l.put m s.index ⟨some v, d⟩).state.Holds (Function.update c s (some (v, d))) ∨
      (∃ e, (l.put m s.index ⟨some v, d⟩).answer = .error (.error e)) ∧
        (l.put m s.index ⟨some v, d⟩).state.Holds c := by
  have hgrown := holds_growTo h m (s.index + 1)
  rcases growTo_answer m (s.index + 1) l with hok | ⟨e, he⟩
  · left
    have hlength := length_growTo hok
    have hstored := holds_exchange hgrown (x := some (v, d)) (Or.inl hlength)
    simp only [put, hok]
    exact ⟨congrArg Except.ok (hgrown s), hstored⟩
  · right
    simp only [put, he]
    exact ⟨⟨e, rfl⟩, hgrown⟩

theorem value?_eq (h : l.Holds c) (s : Slot) : l.value? s.index = (c s).map Prod.fst := by
  rw [value?, h s, value_pairOf]

theorem holds_alter (h : l.Holds c) (s : Slot) (f : α → α) :
    (l.alter f s.index).Holds (Function.update c s ((c s).map fun x => (f x.1, x.2))) := by
  have hpair : { l.pairAt s.index with value := (l.value? s.index).map f } =
      pairOf ((c s).map fun x => (f x.1, x.2)) := by
    rw [value?_eq h, h s]
    cases c s <;> rfl
  rw [alter, hpair]
  refine holds_exchange h ?_
  rw [← hpair]
  exact altered_cases f s.index l

theorem holds_take (h : l.Holds c) (s : Slot) :
    (l.take s.index).1.Holds (Function.update c s none) :=
  holds_exchange h (x := none) (Or.inr rfl)

theorem mem_armed_iff (h : l.Holds c) (e : Armed α δ) :
    e ∈ l.armed ↔ c e.slot = some (e.value, some e.destructor) := by
  rw [mem_armed, h e.slot, pairOf_eq_armed_iff]

end SlotList

end SlotStore
