import SlotStore.Proofs.SlotList.Contents

/-!
# Destructors with values

Value and destructor of a pair are two options, and a destructor without a value never runs
(`Pair.runnable?`). A list that stores a map of contents has no pair like that (`valued_iff_holds`),
and every call makes of it a list that stores a map again. So every entry with a destructor has a
value, also after calls that failed or were refused, and so has every pair that is handed back
(`lasting_valued`).
-/

namespace SlotStore

/-! ## Pairs -/

namespace Pair

variable {α δ : Type} {p : Pair α δ}

/-- A pair that has a destructor has a value. -/
def Valued (p : Pair α δ) : Prop := p.destructor.isSome = true → p.value.isSome = true

def armed (x : α × δ) : Pair α δ := ⟨some x.1, some x.2⟩

theorem valued_empty : Valued ({} : Pair α δ) := fun h => h

theorem Valued.eq_pairOf (h : p.Valued) :
    p = Contents.pairOf (p.value.map fun v => (v, p.destructor)) := by
  obtain ⟨v, d⟩ := p
  cases v with
  | some v => rfl
  | none =>
    cases d with
    | none => rfl
    | some d => cases h rfl

theorem valued_pairOf (x : Option (α × Option δ)) : (Contents.pairOf x).Valued := by
  cases x with
  | none => exact valued_empty
  | some x => exact fun _ => rfl

theorem Valued.isEmpty_eq (h : p.Valued) : p.isEmpty = p.value.isNone := by
  rw [h.eq_pairOf]
  cases p.value <;> rfl

theorem Valued.runnable?_cases (h : p.Valued) :
    p.destructor = none ∧ p.runnable? = none ∨
      ∃ v d, p = armed (v, d) ∧ p.runnable? = some (v, d) := by
  obtain ⟨v, d⟩ := p
  cases d with
  | none => cases v <;> exact .inl ⟨rfl, rfl⟩
  | some d =>
    obtain ⟨w, rfl⟩ : ∃ w, v = some w := Option.isSome_iff_exists.mp (h rfl)
    exact .inr ⟨w, d, rfl, rfl⟩

end Pair

/-- What a call leaves behind has one property, and what it answers, if it succeeds, another. -/
def Outcome.Meets {σ ρ : Type} (P : σ → Prop) (Q : ρ → Prop) (o : Outcome σ ρ) : Prop :=
  P o.state ∧ ∀ r, o.answer = .ok r → Q r

/-! ## Lists -/

namespace SlotList

variable {α δ : Type} {l : SlotList α δ}

/-- Every entry that has a destructor has a value. -/
def Valued (l : SlotList α δ) : Prop := ∀ p ∈ l.entries, p.Valued

theorem Valued.pairAt (h : l.Valued) (i : Nat) : (l.pairAt i).Valued := by
  rw [SlotList.pairAt]
  cases hi : l.entries[i]? with
  | none => exact Pair.valued_empty
  | some p => exact h p (List.mem_of_getElem? hi)

/-- The lists of which this is true are those that store a map. -/
theorem valued_iff_holds : l.Valued ↔ ∃ c, l.Holds c := by
  constructor
  · intro h
    exact ⟨_, fun s => (h.pairAt s.index).eq_pairOf⟩
  · rintro ⟨c, hc⟩ p hp
    obtain ⟨i, hi⟩ := List.mem_iff_getElem?.mp hp
    have hpair := hc ⟨i⟩
    rw [SlotList.pairAt, hi, Option.getD_some] at hpair
    rw [hpair]
    exact Pair.valued_pairOf _

/-- A property of lists that every new one has and that no call takes away, and a property that all
pairs have then that are handed back. -/
structure Lasting (P : SlotList α δ → Prop) (Q : Pair α δ → Prop) : Prop where
  new : ∀ limit, P { limit := limit }
  set : ∀ l a m s v d, P l → (l.set a m s v d).Meets P Q
  modify : ∀ l a s f, P l → P (l.modify a s f).state
  clear : ∀ l a s, P l → (l.clear a s).Meets P Q

theorem meets_guarded {ρ : Type} {P : SlotList α δ → Prop} {Q : ρ → Prop} {a : Allocator} {s : Slot}
    {call : SlotList α δ → Outcome (SlotList α δ) ρ} (hl : P l) (h : (call l).Meets P Q) :
    (guarded a s call l).Meets P Q := by
  unfold guarded
  split
  · exact h
  · exact ⟨hl, fun r hr => by cases hr⟩

theorem get_state (l : SlotList α δ) (a : Allocator) (s : Slot) : (l.get a s).state = l := by
  unfold get guarded
  split <;> rfl

/-- **No call leaves a destructor without a value.** This is so of all four calls, whether they
succeed or not, and of the pairs that they hand back. -/
theorem lasting_valued : Lasting (Valued (α := α) (δ := δ)) Pair.Valued where
  new limit := valued_iff_holds.mpr ⟨_, holds_new limit⟩
  set l a m s v d h := by
    obtain ⟨c, hc⟩ := valued_iff_holds.mp h
    refine meets_guarded h ?_
    rcases holds_put hc m s v d with ⟨hanswer, hstate⟩ | ⟨⟨e, hanswer⟩, hstate⟩
    · refine ⟨valued_iff_holds.mpr ⟨_, hstate⟩, fun r hr => ?_⟩
      rw [hanswer, ← hc s] at hr
      cases hr
      exact h.pairAt s.index
    · refine ⟨valued_iff_holds.mpr ⟨c, hstate⟩, fun r hr => ?_⟩
      rw [hanswer] at hr
      cases hr
  modify l a s f h := by
    obtain ⟨c, hc⟩ := valued_iff_holds.mp h
    exact (meets_guarded (Q := fun _ => True) h
      ⟨valued_iff_holds.mpr ⟨_, holds_alter hc s f⟩, fun _ _ => trivial⟩).1
  clear l a s h := by
    obtain ⟨c, hc⟩ := valued_iff_holds.mp h
    refine meets_guarded h ⟨valued_iff_holds.mpr ⟨_, holds_take hc s⟩, fun r hr => ?_⟩
    cases hr
    exact h.pairAt s.index

end SlotList

end SlotStore
