import SlotStore.SlotList

/-!
# Armed entries

An entry of a list is armed if it has both a value and a destructor. The armed entries are what a
destruction has to run.
-/

namespace SlotStore

/-- A slot with the value and the destructor that are stored there. -/
structure Armed (α δ : Type) where
  slot : Slot
  value : α
  destructor : δ

namespace SlotList

variable {α δ : Type}

/-- The armed pairs, where the first pair has the slot `n`. -/
def armedFrom : Nat → List (Pair α δ) → List (Armed α δ)
  | _, [] => []
  | n, p :: pairs =>
    match p.runnable? with
    | none => armedFrom (n + 1) pairs
    | some (v, d) => ⟨⟨n⟩, v, d⟩ :: armedFrom (n + 1) pairs

/-- The armed entries of a list. -/
def armed (l : SlotList α δ) : List (Armed α δ) := armedFrom 0 l.entries

theorem armedFrom_runnable (n : Nat) (pairs : List (Pair α δ)) :
    (armedFrom n pairs).map (fun e => (e.value, e.destructor)) =
      pairs.filterMap Pair.runnable? := by
  induction pairs generalizing n with
  | nil => rfl
  | cons p pairs ih =>
    rw [armedFrom]
    cases h : p.runnable? with
    | none => rw [List.filterMap_cons_none h, ih]
    | some r => rw [List.filterMap_cons_some h, List.map_cons, ih]

theorem mem_armedFrom {n : Nat} {pairs : List (Pair α δ)} {e : Armed α δ} :
    e ∈ armedFrom n pairs ↔
      ∃ i, e.slot.index = n + i ∧ pairs[i]? = some ⟨some e.value, some e.destructor⟩ := by
  induction pairs generalizing n with
  | nil => simp [armedFrom]
  | cons p pairs ih =>
    -- the entry of slot `n`, or one of the entries behind it
    have hsplit : (∃ i, e.slot.index = n + i ∧
        (p :: pairs)[i]? = some ⟨some e.value, some e.destructor⟩) ↔
        (e.slot.index = n ∧ p.runnable? = some (e.value, e.destructor)) ∨
          e ∈ armedFrom (n + 1) pairs := by
      rw [ih, Pair.runnable?_eq_some_iff]
      constructor
      · rintro ⟨i, hi, hp⟩
        cases i with
        | zero => exact Or.inl ⟨hi, by simpa using hp⟩
        | succ i => exact Or.inr ⟨i, by omega, by simpa using hp⟩
      · rintro (⟨hn, hp⟩ | ⟨i, hi, hp⟩)
        · exact ⟨0, hn, by rw [hp]; rfl⟩
        · exact ⟨i + 1, by omega, by simpa using hp⟩
    rw [hsplit, armedFrom]
    obtain ⟨⟨k⟩, v, d⟩ := e
    cases h : p.runnable? with
    | none => simp
    | some r =>
      obtain ⟨w, c⟩ := r
      simp only [List.mem_cons, Armed.mk.injEq, Slot.mk.injEq, Option.some.injEq, Prod.mk.injEq]
      refine or_congr_left ?_
      constructor <;> rintro ⟨rfl, rfl, rfl⟩ <;> exact ⟨rfl, rfl, rfl⟩

/-- An entry is armed exactly if its slot has both parts. -/
theorem mem_armed {l : SlotList α δ} {e : Armed α δ} :
    e ∈ l.armed ↔ l.pairAt e.slot.index = ⟨some e.value, some e.destructor⟩ := by
  rw [armed, mem_armedFrom, pairAt]
  constructor
  · rintro ⟨i, hi, hp⟩
    rw [hi, Nat.zero_add, hp, Option.getD_some]
  · intro h
    refine ⟨e.slot.index, (Nat.zero_add _).symm, ?_⟩
    cases hp : l.entries[e.slot.index]? with
    | none =>
      rw [hp] at h
      cases h
    | some p =>
      rw [hp, Option.getD_some] at h
      rw [h]

theorem armedFrom_ascending (n : Nat) (pairs : List (Pair α δ)) :
    (armedFrom n pairs).Pairwise fun e f => e.slot < f.slot := by
  induction pairs generalizing n with
  | nil => exact List.Pairwise.nil
  | cons p pairs ih =>
    rw [armedFrom]
    split
    · exact ih (n + 1)
    · refine List.pairwise_cons.mpr ⟨?_, ih (n + 1)⟩
      intro f hf
      obtain ⟨i, hi, _⟩ := mem_armedFrom.mp hf
      show n < f.slot.index
      omega

theorem armed_ascending (l : SlotList α δ) : l.armed.Pairwise fun e f => e.slot < f.slot :=
  armedFrom_ascending 0 l.entries

end SlotList

end SlotStore
