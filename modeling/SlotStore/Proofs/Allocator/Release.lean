import Mathlib.Data.Finset.Card
import SlotStore.Proofs.Allocator.Table

/-!
# Freeing several slots

Trying to free each of several slots comes to the allocator without these slots (`without`), which
does not depend on their order, on repetitions, or on slots among them that are not live
(`freeEach_eq_without`). That the table is dropped on the way, as soon as no slot is live, makes no
difference: what follows is refused then, and what it would have emptied is gone.

The answers do depend on the order, since of several attempts at one slot the first succeeds; but
the slots at which an attempt succeeds do not. They are those that were live, each of them once
(`mem_freedSlots`, `freedSlots_nodup`).
-/

namespace SlotStore.Allocator

variable {a : Allocator} {s t : Slot} {slots others : List Slot}

/-- The allocator without some slots: their entries are empty, and the table is dropped if no slot
is live then. -/
def without (a : Allocator) (slots : List Slot) : Allocator :=
  let table := a.table.map (Option.filter (· ∉ slots))
  let used := table.countP Option.isSome
  { a with table := if used = 0 then [] else table, used }

/-- The slots at which an attempt to free succeeds, if each of several is tried in turn. -/
def freedSlots (a : Allocator) (slots : List Slot) : List Slot :=
  ((slots.zip (a.freeEach slots).2.1).filter fun x => x.2.isOk).map Prod.fst

/-! ## Without slots -/

theorem without_congr (h : ∀ s, s ∈ slots ↔ s ∈ others) : a.without slots = a.without others := by
  simp only [without, h]

theorem without_of_not_isLive (hw : a.WellFormed) (h : ∀ s ∈ slots, ¬ a.isLive s = true) :
    a.without slots = a := by
  have htable : a.table.map (Option.filter (· ∉ slots)) = a.table := by
    conv_rhs => rw [← List.map_id a.table]
    apply List.map_congr_left
    intro e he
    obtain ⟨i, hi⟩ := List.mem_iff_getElem?.mp he
    cases e with
    | none => rfl
    | some s =>
      obtain rfl := hw.tagged i s hi
      have hs : (⟨i⟩ : Slot) ∉ slots := fun hs => h _ hs (isLive_of_entry hw hi)
      exact if_pos (decide_eq_true hs)
  have hkept : (if a.used = 0 then [] else a.table) = a.table := by
    split
    next hz => exact (hw.released hz).symm
    next => rfl
  simp only [without, htable, ← hw.counted, hkept]

theorem without_without (a : Allocator) (slots others : List Slot) :
    (a.without slots).without others = a.without (slots ++ others) := by
  have htable : (a.table.map (Option.filter (· ∉ slots))).map (Option.filter (· ∉ others)) =
      a.table.map (Option.filter (· ∉ slots ++ others)) := by
    rw [List.map_map]
    apply List.map_congr_left
    intro e _
    rw [Function.comp_apply, Option.filter_filter]
    congr 1
    funext s
    simp
  by_cases hz : (a.table.map (Option.filter (· ∉ slots))).countP Option.isSome = 0
  · -- the table is dropped already, and would be empty without the others too
    have hz' : (a.table.map (Option.filter (· ∉ slots ++ others))).countP Option.isSome = 0 := by
      rw [← htable, List.countP_eq_zero, List.forall_mem_map]
      rw [List.countP_eq_zero] at hz
      intro e he
      rw [Option.not_isSome_iff_eq_none.mp (hz e he)]
      exact Bool.false_ne_true
    simp only [without, hz, hz', if_pos, List.map_nil, List.countP_nil]
  · simp only [without, hz, if_false, htable]

theorem table_without_of_isLive (hw : a.WellFormed) (h : a.isLive s = true) :
    a.table.map (Option.filter (· ∉ [s])) = a.table.set s.index none := by
  apply List.ext_getElem?
  intro i
  rw [List.getElem?_map, List.getElem?_set]
  split
  next hi =>
    subst hi
    rw [if_pos (lt_length_of_isLive h), isLive_iff.mp h]
    simp
  next hi =>
    match he : a.table[i]? with
    | none => rfl
    | some none => rfl
    | some (some t) =>
      obtain rfl := hw.tagged i t he
      have ht : (⟨i⟩ : Slot) ∉ [s] := by
        rw [List.mem_singleton]
        rintro rfl
        exact hi rfl
      exact congrArg some (if_pos (decide_eq_true ht))

/-- Freeing a slot comes to the allocator without it. -/
theorem free_eq_without (hw : a.WellFormed) : (a.free s).state = a.without [s] := by
  by_cases h : a.isLive s = true
  · rw [free_of_isLive h]
    simp only [without, table_without_of_isLive hw h, countP_set_of_isLive hw h, vacate]
    split
    next hz => rw [hz]
    next => rfl
  · rw [free_of_not_isLive h, without_of_not_isLive hw (by simpa using h)]
    rfl

theorem freeEach_eq_without (hw : a.WellFormed) (slots : List Slot) :
    (a.freeEach slots).1 = a.without slots := by
  induction slots generalizing a with
  | nil => exact (without_of_not_isLive hw (List.forall_mem_nil _)).symm
  | cons s slots ih =>
    calc ((a.free s).state.freeEach slots).1
      _ = (a.free s).state.without slots := ih (wellFormed_free hw)
      _ = (a.without [s]).without slots := by rw [free_eq_without hw]
      _ = a.without (s :: slots) := without_without a [s] slots

theorem without_of_live_subset (hw : a.WellFormed) (h : ∀ s, a.isLive s = true → s ∈ slots) :
    a.without slots = (empty a.limit).1 := by
  have hnone : (a.table.map (Option.filter (· ∉ slots))).countP Option.isSome = 0 := by
    rw [List.countP_eq_zero, List.forall_mem_map]
    intro e he
    cases e with
    | none => exact Bool.false_ne_true
    | some s =>
      have hs : ¬ s ∉ slots := not_not_intro (h s ((mem_live hw).mp (by
        rw [live, List.mem_filterMap]
        exact ⟨some s, he, rfl⟩)))
      simp [hs]
  simp only [without, hnone, if_pos]
  rfl

theorem table_without (hs : a.isLive s = true) (hout : s ∉ slots) :
    (a.without slots).table = a.table.map (Option.filter (· ∉ slots)) := by
  have hkept : (a.table.map (Option.filter (· ∉ slots))).countP Option.isSome ≠ 0 := by
    rw [Nat.ne_zero_iff_zero_lt, List.countP_pos_iff]
    refine ⟨some s, List.mem_map.mpr ⟨some s, List.mem_of_getElem? (isLive_iff.mp hs), ?_⟩, rfl⟩
    exact if_pos (decide_eq_true hout)
  simp only [without, hkept, if_false]

/-! ## Attempts -/

theorem isLive_state_free (hw : a.WellFormed) :
    (a.free s).state.isLive t = true ↔ t ≠ s ∧ a.isLive t = true := by
  by_cases h : a.isLive s = true
  · rw [free_of_isLive h]
    exact isLive_vacate hw h
  · rw [free_of_not_isLive h]
    refine ⟨fun ht => ⟨?_, ht⟩, And.right⟩
    rintro rfl
    exact h ht

theorem freeEach_append (a : Allocator) (slots others : List Slot) :
    (a.freeEach (slots ++ others)).1 = ((a.freeEach slots).1.freeEach others).1 ∧
    (a.freeEach (slots ++ others)).2.1 =
      (a.freeEach slots).2.1 ++ ((a.freeEach slots).1.freeEach others).2.1 := by
  induction slots generalizing a with
  | nil => exact ⟨rfl, rfl⟩
  | cons s slots ih =>
    obtain ⟨hstate, hanswers⟩ := ih (a.free s).state
    exact ⟨hstate, congrArg ((a.free s).answer :: ·) hanswers⟩

theorem length_freeEach (a : Allocator) (slots : List Slot) :
    (a.freeEach slots).2.1.length = slots.length := by
  induction slots generalizing a with
  | nil => rfl
  | cons s slots ih => exact congrArg (· + 1) (ih (a.free s).state)

theorem answer_free_cases (a : Allocator) (s : Slot) :
    (a.free s).answer = .ok () ∨ (a.free s).answer = .error (.refusal (.freed s)) := by
  by_cases h : a.isLive s = true
  · exact Or.inl (by rw [free_of_isLive h])
  · exact Or.inr (by rw [free_of_not_isLive h]; rfl)

theorem answer_of_mem_freeEach (slots : List Slot) :
    ∀ x ∈ slots.zip (a.freeEach slots).2.1,
      x.2 = .ok () ∨ x.2 = .error (.refusal (.freed x.1)) := by
  induction slots generalizing a with
  | nil => exact List.forall_mem_nil _
  | cons s slots ih => exact List.forall_mem_cons.mpr ⟨answer_free_cases a s, ih⟩

theorem freedSlots_cons (a : Allocator) (s : Slot) (slots : List Slot) :
    a.freedSlots (s :: slots) = if a.isLive s then s :: (a.free s).state.freedSlots slots
      else (a.free s).state.freedSlots slots := by
  have hzip : (s :: slots).zip (a.freeEach (s :: slots)).2.1 =
      (s, (a.free s).answer) :: slots.zip ((a.free s).state.freeEach slots).2.1 := rfl
  rw [freedSlots, hzip, List.filter_cons]
  by_cases h : a.isLive s = true
  · rw [if_pos h, free_of_isLive h]
    rfl
  · rw [if_neg h, free_of_not_isLive h]
    rfl

/-- An attempt succeeds at each slot that was live. -/
theorem mem_freedSlots (hw : a.WellFormed) :
    t ∈ a.freedSlots slots ↔ t ∈ slots ∧ a.isLive t = true := by
  induction slots generalizing a with
  | nil => simp [freedSlots]
  | cons s slots ih =>
    have hrest := ih (wellFormed_free hw (s := s))
    rw [isLive_state_free hw] at hrest
    rw [freedSlots_cons]
    by_cases hts : t = s
    · subst hts
      by_cases h : a.isLive t = true
      · simp [h]
      · simp [h, hrest]
    · split
      · simp [hts, hrest]
      · simp [hts, hrest]

theorem freedSlots_nodup (hw : a.WellFormed) (slots : List Slot) : (a.freedSlots slots).Nodup := by
  induction slots generalizing a with
  | nil => exact List.nodup_nil
  | cons s slots ih =>
    have hrest := ih (wellFormed_free hw (s := s))
    rw [freedSlots_cons]
    split
    · rw [List.nodup_cons, mem_freedSlots (wellFormed_free hw), isLive_state_free hw]
      exact ⟨fun h => h.2.1 rfl, hrest⟩
    · exact hrest

theorem used_freeEach (hw : a.WellFormed) (slots : List Slot) :
    (a.freeEach slots).1.used + (a.freedSlots slots).length = a.used := by
  induction slots generalizing a with
  | nil => rfl
  | cons s slots ih =>
    have hrest : ((a.free s).state.freeEach slots).1.used + _ = _ := ih (wellFormed_free hw)
    rw [freedSlots_cons]
    show ((a.free s).state.freeEach slots).1.used + _ = a.used
    by_cases h : a.isLive s = true
    · have hpos := used_pos hw h
      have hused : (a.free s).state.used = a.used - 1 := by
        rw [free_of_isLive h]
        show (a.vacate s.index).used = a.used - 1
        rw [vacate]
        split
        next hz => exact hz.symm
        next => rfl
      rw [if_pos h, List.length_cons]
      omega
    · rw [if_neg h, hrest, free_of_not_isLive h]
      rfl

theorem length_freedSlots (a : Allocator) (slots : List Slot) :
    (a.freedSlots slots).length = (a.freeEach slots).2.1.countP Except.isOk := by
  induction slots generalizing a with
  | nil => rfl
  | cons s slots ih =>
    have hanswers : (a.freeEach (s :: slots)).2.1 =
        (a.free s).answer :: ((a.free s).state.freeEach slots).2.1 := rfl
    rw [freedSlots_cons, hanswers, List.countP_cons, ← ih]
    by_cases h : a.isLive s = true
    · rw [if_pos h, free_of_isLive h]
      rfl
    · rw [if_neg h, free_of_not_isLive h]
      rfl

end SlotStore.Allocator
