import SlotStore.Proofs.SlotList.Contents

/-!
# Storing in a list

The limit of a list is looked at only when the list has to grow. Still no list is longer than its
limit (`Within`), so whether something can be stored under a slot depends on the slot, the limit and
the length, and not on what the list holds (`verdict`, `set_cases`).
-/

namespace SlotStore

variable {α δ : Type}

namespace SlotList

variable {l : SlotList α δ} {p : Pair α δ} {m : Memory} {i : Nat}

def Within (l : SlotList α δ) : Prop := ∀ n, l.limit = some n → l.length ≤ n

theorem length_exchange (l : SlotList α δ) (i : Nat) (p : Pair α δ) :
    (l.exchange i p).length = l.length :=
  List.length_set

theorem within_new (limit : Option Nat) : ({ limit := limit } : SlotList α δ).Within :=
  fun n _ => Nat.zero_le n

/-! ## Storing -/

/-- The list after a pair was stored at a position. -/
def stored (l : SlotList α δ) (i : Nat) (p : Pair α δ) : SlotList α δ :=
  (l.lengthened (i + 1)).exchange i p

theorem length_stored (l : SlotList α δ) (i : Nat) (p : Pair α δ) :
    (l.stored i p).length = max l.length (i + 1) := by
  rw [stored, length_exchange, length_lengthened]

theorem pairAt_stored_self (l : SlotList α δ) (i : Nat) (p : Pair α δ) :
    (l.stored i p).pairAt i = p := by
  refine pairAt_exchange_self (Or.inl ?_)
  rw [length_lengthened]
  omega

theorem pairAt_stored_of_ne (l : SlotList α δ) {i j : Nat} (h : i ≠ j) (p : Pair α δ) :
    (l.stored i p).pairAt j = l.pairAt j := by
  rw [stored, pairAt_exchange_of_ne h, pairAt_lengthened]

theorem getElem?_stored {j : Nat} (hj : l.length ≤ j) (hji : j < i) (p : Pair α δ) :
    (l.stored i p).entries[j]? = some {} := by
  have hlt : j < (l.stored i p).entries.length := by
    have hlength := l.length_stored i p
    rw [length] at hlength
    omega
  have hpair := l.pairAt_stored_of_ne (Nat.ne_of_gt hji) p
  rw [pairAt_of_length_le hj, pairAt, List.getElem?_eq_getElem hlt, Option.getD_some] at hpair
  rw [List.getElem?_eq_getElem hlt, hpair]

/-- All that storing a pair can do: fail at the limit, fail for want of memory if the list is too
short, or store the pair. -/
theorem put_cases (hw : l.Within) (m : Memory) (i : Nat) (p : Pair α δ) :
    (∃ n, l.limit = some n ∧ n ≤ i ∧
      l.put m i p = .failed l (.capacityExceeded "slot list" n) []) ∨
    ((∀ n, l.limit = some n → i < n) ∧ (l.length ≤ i ∧ m.grants (i + 1) = false) ∧
      l.put m i p = .failed l (.growth "slot list" (i + 1)) []) ∨
    ((∀ n, l.limit = some n → i < n) ∧ ¬(l.length ≤ i ∧ m.grants (i + 1) = false) ∧
      ∃ events, l.put m i p = ⟨l.stored i p, .ok (l.pairAt i), events⟩) := by
  rcases growTo_cases m (i + 1) l with
    ⟨hle, he⟩ | ⟨n, _, hn, hlt, he⟩ | ⟨_, hroom, hm, he⟩ | ⟨hlt, hroom, hm, he⟩
  · -- a position inside the list is below the limit
    right
    right
    refine ⟨fun n hn => Nat.lt_of_lt_of_le hle (hw n hn), by omega, [], ?_⟩
    rw [put, he, stored, lengthened_of_le hle]
  · left
    refine ⟨n, hn, Nat.le_of_lt_succ hlt, ?_⟩
    rw [put, he]
    rfl
  · right
    right
    refine ⟨hroom, by simp [hm], [.grew l.length (i + 1)], ?_⟩
    rw [put, he]
    show (⟨_, .ok ((l.lengthened (i + 1)).pairAt i), _⟩ : Outcome _ _) = _
    rw [pairAt_lengthened, stored]
  · right
    left
    refine ⟨hroom, ⟨Nat.le_of_lt_succ hlt, hm⟩, ?_⟩
    rw [put, he]
    rfl

/-- Whether something can be stored under a slot of a list with this limit and length. The slot has
to be live, then below the limit, and then inside the list unless memory is granted. -/
def verdict (limit : Option Nat) (length : Nat) (a : Allocator) (m : Memory) (s : Slot) :
    Except Fault Unit :=
  if a.isLive s then
    match limit.filter (· ≤ s.index) with
    | some n => .error (.error (.capacityExceeded "slot list" n))
    | none =>
      if length ≤ s.index ∧ m.grants (s.index + 1) = false then
        .error (.error (.growth "slot list" (s.index + 1)))
      else .ok ()
  else .error (.refusal (.used s))

theorem verdict_of_isLive (limit : Option Nat) (length : Nat) (m : Memory) {a : Allocator}
    {s : Slot} (hs : a.isLive s = true) :
    verdict limit length a m s = .ok () ∨ ∃ e, verdict limit length a m s = .error (.error e) := by
  rw [verdict, if_pos hs]
  split
  · exact Or.inr ⟨_, rfl⟩
  · split
    · exact Or.inr ⟨_, rfl⟩
    · exact Or.inl rfl

/-- A call that is to store something obeys the verdict, and does nothing if that is a fault. -/
theorem set_cases (hw : l.Within) (a : Allocator) (m : Memory) (s : Slot) (v : α) (d : Option δ) :
    (verdict l.limit l.length a m s = .ok () ∧ ∃ events,
      l.set a m s v d = ⟨l.stored s.index ⟨some v, d⟩, .ok (l.pairAt s.index), events⟩) ∨
    ∃ f, verdict l.limit l.length a m s = .error f ∧ l.set a m s v d = ⟨l, .error f, []⟩ := by
  rw [set, guarded, verdict]
  by_cases hlive : a.isLive s = true
  · rw [if_pos hlive, if_pos hlive]
    rcases put_cases hw m s.index ⟨some v, d⟩ with
      ⟨n, hn, hle, he⟩ | ⟨hroom, hm, he⟩ | ⟨hroom, hm, he⟩
    · rw [hn, Option.filter_some, if_pos (decide_eq_true hle)]
      exact Or.inr ⟨_, rfl, he⟩
    all_goals
      have hfilter : l.limit.filter (· ≤ s.index) = none := by
        rw [Option.filter_eq_none_iff]
        intro n hn
        simpa using hroom n hn
      rw [hfilter]
    · exact Or.inr ⟨_, if_pos hm, he⟩
    · exact Or.inl ⟨if_neg hm, he⟩
  · rw [if_neg hlive, if_neg hlive]
    exact Or.inr ⟨_, rfl, rfl⟩

theorem lt_of_verdict {n length : Nat} {a : Allocator} {s : Slot} {u : Unit}
    (h : verdict (some n) length a m s = .ok u) : s.index < n := by
  by_contra hlt
  rw [verdict, Option.filter_some, if_pos (decide_eq_true (Nat.le_of_not_lt hlt))] at h
  split at h <;> cases h

end SlotList

end SlotStore
