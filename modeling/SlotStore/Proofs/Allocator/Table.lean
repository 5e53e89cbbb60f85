import Mathlib.Data.List.Basic
import Mathlib.Data.List.Nodup
import SlotStore.Allocator

/-!
# The table of an allocator

`WellFormed`: every entry of the table is empty or holds its own slot, the number of live slots is
the number of entries that are not empty, a table without live slots is dropped, and no table is
longer than its limit. It holds of a new allocator, and `allocate` and `free` keep it
(`wellFormed_allocate`, `wellFormed_free`).

In a well-formed table the slot that `allocate` issues, if it issues one, is always the number
`next`: the first hole, or the length of a table without holes. Every slot below `next` is live and
`next` is not (`isLive_of_lt_next`, `not_isLive_next`), so the search that is skipped when the
numbers say that the table is full would have found nothing.
-/

namespace SlotStore.Allocator

/-- What the table, the number of live slots and the limit have to do with each other. -/
structure WellFormed (a : Allocator) : Prop where
  tagged : ∀ (i : Nat) (s : Slot), a.table[i]? = some (some s) → s = ⟨i⟩
  counted : a.used = a.table.countP Option.isSome
  released : a.used = 0 → a.table = []
  bounded : ∀ n, a.limit = some n → a.table.length ≤ n

/-- The number that the next slot has: the first hole, or the next entry of a full table. -/
def next (a : Allocator) : Nat := a.hole.getD a.table.length

variable {a : Allocator} {m : Memory} {s t : Slot} {i : Nat}

theorem wellFormed_empty (limit : Option Nat) : (empty limit).1.WellFormed := by
  refine ⟨?_, rfl, fun _ => rfl, fun n _ => Nat.zero_le n⟩
  intro i s h
  simp [empty] at h

/-! ## Live slots -/

theorem isLive_iff : a.isLive s = true ↔ a.table[s.index]? = some (some s) := by
  rw [isLive, decide_eq_true_eq, Option.join_eq_some_iff]

theorem lt_length_of_isLive (h : a.isLive s = true) : s.index < a.table.length := by
  rw [isLive_iff] at h
  exact (List.getElem?_eq_some_iff.mp h).1

theorem isLive_of_entry (hw : a.WellFormed) (h : a.table[i]? = some (some s)) :
    a.isLive ⟨i⟩ = true := by
  rw [isLive_iff, h, hw.tagged i s h]

theorem not_isLive_of_entry (h : a.table[i]? = some none) : ¬ a.isLive ⟨i⟩ = true := by
  rw [isLive_iff, h]
  simp

theorem mem_live (hw : a.WellFormed) : s ∈ a.live ↔ a.isLive s = true := by
  rw [live, List.mem_filterMap, isLive_iff]
  constructor
  · rintro ⟨x, hx, rfl⟩
    obtain ⟨i, hi⟩ := List.mem_iff_getElem?.mp hx
    obtain rfl := hw.tagged i s hi
    exact hi
  · intro h
    exact ⟨some s, List.mem_of_getElem? h, rfl⟩

theorem length_live (hw : a.WellFormed) : a.live.length = a.used := by
  rw [live, List.length_filterMap_eq_countP, hw.counted]
  rfl

theorem live_ascending (hw : a.WellFormed) : a.live.Pairwise (·.index < ·.index) := by
  rw [live, List.pairwise_filterMap, List.pairwise_iff_getElem]
  intro i j hi hj hij s hs t ht
  have h₁ := hw.tagged i s (by rw [List.getElem?_eq_getElem hi]; exact congrArg some hs)
  have h₂ := hw.tagged j t (by rw [List.getElem?_eq_getElem hj]; exact congrArg some ht)
  rw [h₁, h₂]
  exact hij

theorem live_nodup (hw : a.WellFormed) : a.live.Nodup := by
  apply (live_ascending hw).imp
  intro s t h e
  rw [e] at h
  exact Nat.lt_irrefl _ h

theorem used_pos (hw : a.WellFormed) (h : a.isLive s = true) : 0 < a.used := by
  rw [← length_live hw]
  exact List.length_pos_of_mem ((mem_live hw).mpr h)

theorem eq_of_used_eq_one (hw : a.WellFormed) (hu : a.used = 1) (hs : a.isLive s = true)
    (ht : a.isLive t = true) : t = s := by
  rw [← length_live hw] at hu
  obtain ⟨r, hr⟩ := List.length_eq_one_iff.mp hu
  have h₁ := (mem_live hw).mpr hs
  have h₂ := (mem_live hw).mpr ht
  rw [hr, List.mem_singleton] at h₁ h₂
  rw [h₁, h₂]

/-- Without a live slot nothing is left of a table and its history. -/
theorem WellFormed.eq_empty (hw : a.WellFormed) (h : ∀ s, a.isLive s = false) :
    a = (empty a.limit).1 := by
  have hlive : a.live = [] := by
    rw [List.eq_nil_iff_forall_not_mem]
    intro s hs
    rw [mem_live hw, h s] at hs
    cases hs
  have hused : a.used = 0 := by rw [← length_live hw, hlive, List.length_nil]
  obtain ⟨table, used, limit⟩ := a
  cases hw.released hused
  cases hused
  rfl

/-! ## The next slot -/

theorem used_le_length (hw : a.WellFormed) : a.used ≤ a.table.length := by
  rw [hw.counted]
  exact List.countP_le_length

theorem used_ne_zero_of_lt_length (hw : a.WellFormed) (h : i < a.table.length) :
    a.used ≠ 0 := by
  intro hz
  rw [hw.released hz] at h
  exact Nat.not_lt_zero i h

/-- The first hole of a table, with the entries before it. -/
theorem hole_eq_some (h : a.hole = some i) :
    a.table[i]? = some none ∧ ∀ j < i, ∃ s, a.table[j]? = some (some s) := by
  rw [hole] at h
  split at h
  · obtain ⟨hi, hnone, hbefore⟩ := List.findIdx?_eq_some_iff_getElem.mp h
    refine ⟨?_, fun j hj => ?_⟩
    · rw [List.getElem?_eq_getElem hi, Option.isNone_iff_eq_none.mp hnone]
    · have hne : a.table[j] ≠ none := fun e => hbefore j hj (Option.isNone_iff_eq_none.mpr e)
      obtain ⟨s, hs⟩ := Option.ne_none_iff_exists'.mp hne
      exact ⟨s, by rw [List.getElem?_eq_getElem (Nat.lt_trans hj hi), hs]⟩
  · cases h

theorem entry_of_hole_eq_none (hw : a.WellFormed) (h : a.hole = none) (hi : i < a.table.length) :
    ∃ s, a.table[i]? = some (some s) := by
  have hall : ∀ x ∈ a.table, x.isSome = true := by
    rw [hole] at h
    split at h
    · intro x hx
      simpa using List.findIdx?_eq_none_iff.mp h x hx
    · rename_i hfull
      rw [← List.countP_eq_length, ← hw.counted]
      exact Nat.le_antisymm (used_le_length hw) (Nat.le_of_not_lt hfull)
  obtain ⟨s, hs⟩ := Option.isSome_iff_exists.mp (hall _ (List.getElem_mem hi))
  exact ⟨s, by rw [List.getElem?_eq_getElem hi, hs]⟩

theorem used_eq_length_of_hole (hw : a.WellFormed) (h : a.hole = none) :
    a.used = a.table.length := by
  rw [hw.counted, List.countP_eq_length]
  intro e he
  obtain ⟨i, hi, rfl⟩ := List.mem_iff_getElem.mp he
  obtain ⟨s, hs⟩ := entry_of_hole_eq_none hw h hi
  rw [List.getElem?_eq_getElem hi, Option.some.injEq] at hs
  rw [hs]
  rfl

theorem used_lt_length_of_hole (h : a.hole = some i) : a.used < a.table.length := by
  rw [hole] at h
  split at h
  · assumption
  · cases h

theorem hole_lt_length (h : a.hole = some i) : i < a.table.length :=
  (List.getElem?_eq_some_iff.mp (hole_eq_some h).1).1

theorem isLive_of_lt_next (hw : a.WellFormed) (hi : i < a.next) : a.isLive ⟨i⟩ = true := by
  rw [next] at hi
  cases hh : a.hole with
  | none =>
    rw [hh] at hi
    obtain ⟨s, hs⟩ := entry_of_hole_eq_none hw hh hi
    exact isLive_of_entry hw hs
  | some k =>
    rw [hh] at hi
    obtain ⟨s, hs⟩ := (hole_eq_some hh).2 i hi
    exact isLive_of_entry hw hs

theorem not_isLive_next : ¬ a.isLive ⟨a.next⟩ = true := by
  rw [next]
  cases hh : a.hole with
  | none => exact fun h => Nat.lt_irrefl _ (lt_length_of_isLive h)
  | some k => exact not_isLive_of_entry (hole_eq_some hh).1

/-! ## Calls by cases -/

/-- All that asking for a slot can do: fill the first hole, fail at the limit, grow the table, or
fail for want of memory. -/
theorem allocate_cases (m : Memory) (a : Allocator) :
    (∃ i, a.hole = some i ∧ a.allocate m = ⟨a.fill i, .ok ⟨i⟩, [.reissued ⟨i⟩]⟩) ∨
    (∃ n, a.hole = none ∧ a.limit = some n ∧ n ≤ a.table.length ∧
      a.allocate m = .failed a (.capacityExceeded "slot allocator" n) [.full n]) ∨
    (a.hole = none ∧ (∀ n, a.limit = some n → a.table.length < n) ∧
      m.grants (a.table.length + 1) = true ∧
      a.allocate m = ⟨a.extend, .ok ⟨a.table.length⟩, [.issued ⟨a.table.length⟩]⟩) ∨
    (a.hole = none ∧ (∀ n, a.limit = some n → a.table.length < n) ∧
      m.grants (a.table.length + 1) = false ∧
      a.allocate m = .failed a (.growth "slot table" (a.table.length + 1)) []) := by
  cases hh : a.hole with
  | some i =>
    left
    exact ⟨i, rfl, by simp only [allocate, hh]⟩
  | none =>
    right
    cases hr : a.reached with
    | some n =>
      left
      rw [reached, Option.filter_eq_some_iff, decide_eq_true_eq] at hr
      refine ⟨n, rfl, hr.1, hr.2, ?_⟩
      rw [allocate, hh, reached, hr.1, Option.filter_some, if_pos (decide_eq_true hr.2)]
    | none =>
      right
      have hroom : ∀ n, a.limit = some n → a.table.length < n := by
        intro n hn
        rw [reached, Option.filter_eq_none_iff] at hr
        simpa using hr n hn
      cases hm : m.grants (a.table.length + 1) with
      | true =>
        left
        exact ⟨rfl, hroom, rfl, by simp only [allocate, hh, hr, hm, if_pos]⟩
      | false =>
        right
        exact ⟨rfl, hroom, rfl, by simp only [allocate, hh, hr, hm, Bool.false_eq_true, if_false]⟩

theorem free_of_isLive (h : a.isLive s = true) :
    a.free s = ⟨a.vacate s.index, .ok (),
      if (a.vacate s.index).used = 0 then [.freed s, .released] else [.freed s]⟩ := by
  rw [free, if_pos h]

theorem free_of_not_isLive (h : ¬ a.isLive s = true) : a.free s = .refused a (.freed s) := by
  rw [free, if_neg h]

/-! ## What a call does to the live slots -/

theorem isLive_fill (h : a.hole = some i) :
    (a.fill i).isLive s = true ↔ s = ⟨i⟩ ∨ a.isLive s = true := by
  rw [isLive_iff, isLive_iff, fill, List.getElem?_set]
  by_cases hs : i = s.index
  · subst hs
    have hnone := (hole_eq_some h).1
    rw [if_pos rfl, if_pos (hole_lt_length h), hnone]
    simp
  · rw [if_neg hs]
    constructor
    · exact Or.inr
    · rintro (rfl | h)
      · exact absurd rfl hs
      · exact h

theorem isLive_extend : a.extend.isLive s = true ↔ s = ⟨a.table.length⟩ ∨ a.isLive s = true := by
  rw [isLive_iff, isLive_iff, extend, List.getElem?_append]
  by_cases hs : s.index < a.table.length
  · rw [if_pos hs]
    constructor
    · exact Or.inr
    · rintro (rfl | h)
      · exact absurd hs (Nat.lt_irrefl _)
      · exact h
  · rw [if_neg hs, List.getElem?_eq_none (Nat.le_of_not_lt hs)]
    obtain ⟨k⟩ := s
    simp only [List.getElem?_singleton, Slot.mk.injEq] at hs ⊢
    by_cases hk : k - a.table.length = 0
    · have : k = a.table.length := by omega
      simp [this]
    · have : k ≠ a.table.length := by omega
      simp [hk, this]

theorem isLive_vacate (hw : a.WellFormed) (h : a.isLive s = true) :
    (a.vacate s.index).isLive t = true ↔ t ≠ s ∧ a.isLive t = true := by
  rw [vacate]
  split
  · -- the last live slot goes, and with it the table
    have hu : a.used = 1 := by
      have := used_pos hw h
      omega
    constructor
    · intro ht
      rw [isLive_iff] at ht
      cases ht
    · rintro ⟨hne, ht⟩
      exact absurd (eq_of_used_eq_one hw hu h ht) hne
  · rw [isLive_iff, isLive_iff, List.getElem?_set]
    by_cases ht : s.index = t.index
    · obtain rfl : s = t := by cases s; cases t; cases ht; rfl
      rw [if_pos rfl, if_pos (lt_length_of_isLive h)]
      simp
    · rw [if_neg ht]
      constructor
      · intro ht'
        refine ⟨?_, ht'⟩
        rintro rfl
        exact ht rfl
      · exact And.right

theorem not_isLive_of_allocate (h : (a.allocate m).answer = .ok s) : ¬ a.isLive s = true := by
  rcases allocate_cases m a with ⟨i, hh, he⟩ | ⟨n, _, _, _, he⟩ | ⟨_, _, _, he⟩ | ⟨_, _, _, he⟩
  · rw [he] at h
    cases h
    exact not_isLive_of_entry (hole_eq_some hh).1
  · rw [he] at h
    cases h
  · rw [he] at h
    cases h
    exact fun hlive => Nat.lt_irrefl _ (lt_length_of_isLive hlive)
  · rw [he] at h
    cases h

/-! ## What a call keeps -/

theorem wellFormed_fill (hw : a.WellFormed) (h : a.hole = some i) : (a.fill i).WellFormed := by
  have hi := hole_lt_length h
  have hnone : a.table[i] = none := by
    have := (hole_eq_some h).1
    rw [List.getElem?_eq_getElem hi] at this
    exact Option.some.inj this
  refine ⟨?_, ?_, ?_, ?_⟩
  · intro j s hj
    rw [fill, List.getElem?_set] at hj
    split at hj
    · rename_i hij
      simp only [Option.some.injEq] at hj
      rw [← hj, hij]
    · exact hw.tagged j s hj
  · have := List.countP_set (p := Option.isSome) (a := some (⟨i⟩ : Slot)) hi
    rw [hnone] at this
    simp only [Option.isSome_none, Option.isSome_some, if_true, Bool.false_eq_true, if_false,
      Nat.sub_zero] at this
    rw [fill, this, hw.counted]
  · intro hz
    rw [fill] at hz
    exact absurd hz (Nat.succ_ne_zero _)
  · intro n hn
    rw [fill, List.length_set]
    exact hw.bounded n hn

theorem wellFormed_extend (hw : a.WellFormed)
    (hroom : ∀ n, a.limit = some n → a.table.length < n) : a.extend.WellFormed := by
  refine ⟨?_, ?_, ?_, ?_⟩
  · intro j s hj
    rw [extend, List.getElem?_append] at hj
    split at hj
    · exact hw.tagged j s hj
    · rename_i hge
      rw [List.getElem?_singleton] at hj
      split at hj
      · simp only [Option.some.injEq] at hj
        rw [← hj, Slot.mk.injEq]
        omega
      · cases hj
  · rw [extend, List.countP_append, hw.counted]
    rfl
  · intro hz
    rw [extend] at hz
    exact absurd hz (Nat.succ_ne_zero _)
  · intro n hn
    rw [extend, List.length_append]
    exact hroom n hn

theorem countP_set_of_isLive (hw : a.WellFormed) (h : a.isLive s = true) :
    (a.table.set s.index none).countP Option.isSome = a.used - 1 := by
  have hi := lt_length_of_isLive h
  have hsome : a.table[s.index] = some s := by
    rw [isLive_iff, List.getElem?_eq_getElem hi] at h
    exact Option.some.inj h
  rw [List.countP_set hi, hsome, hw.counted]
  rfl

theorem wellFormed_vacate (hw : a.WellFormed) (h : a.isLive s = true) :
    (a.vacate s.index).WellFormed := by
  rw [vacate]
  split
  · exact wellFormed_empty a.limit
  · rename_i hmore
    refine ⟨?_, (countP_set_of_isLive hw h).symm, fun hz => absurd hz hmore, ?_⟩
    · intro j t hj
      rw [List.getElem?_set] at hj
      split at hj
      · rw [if_pos (lt_length_of_isLive h)] at hj
        cases hj
      · exact hw.tagged j t hj
    · intro n hn
      rw [List.length_set]
      exact hw.bounded n hn

theorem wellFormed_allocate (hw : a.WellFormed) : (a.allocate m).state.WellFormed := by
  rcases allocate_cases m a with ⟨i, hh, he⟩ | ⟨n, _, _, _, he⟩ | ⟨_, hroom, _, he⟩ | ⟨_, _, _, he⟩
  · rw [he]
    exact wellFormed_fill hw hh
  · rw [he]
    exact hw
  · rw [he]
    exact wellFormed_extend hw hroom
  · rw [he]
    exact hw

theorem wellFormed_free (hw : a.WellFormed) : (a.free s).state.WellFormed := by
  by_cases h : a.isLive s = true
  · rw [free_of_isLive h]
    exact wellFormed_vacate hw h
  · rw [free_of_not_isLive h]
    exact hw

end SlotStore.Allocator
