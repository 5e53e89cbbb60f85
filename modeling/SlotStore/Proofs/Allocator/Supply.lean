import Mathlib.Data.Nat.Nth
import SlotStore.Proofs.Allocator.Registry

/-!
# Several slots in a row

Calls for slots with nothing between them issue the numbers that are not live from the least one up
(`vacancy`), until the limit is reached, and fail from there on (`allocateAll_ample`). How many
succeed depends on the limit and on the number of live slots alone (`room`), whatever holes the
table has and wherever they are. A call that fills a hole and a call that extends the table differ
only in whether the table gets longer, and in the end it is as long as the live slots require
(`Supplied`).
-/

namespace SlotStore.Allocator

/-! ## Vacancies -/

/-- The numbers that are not live, in ascending order: the least one is that of place 0. -/
noncomputable def vacancy (live : Finset Slot) (place : Nat) : Nat :=
  Nat.nth (fun n => (⟨n⟩ : Slot) ∉ live) place

noncomputable def filled (live : Finset Slot) (k : Nat) : Finset Slot :=
  live ∪ (Finset.range k).image fun place => ⟨vacancy live place⟩

section

variable {live : Finset Slot} {k n : Nat}

theorem infinite_vacancies (live : Finset Slot) : {n : Nat | (⟨n⟩ : Slot) ∉ live}.Infinite := by
  have hfinite : {n : Nat | (⟨n⟩ : Slot) ∈ live}.Finite :=
    live.finite_toSet.preimage fun i _ j _ h => congrArg Slot.index h
  exact hfinite.infinite_compl

theorem vacancy_not_mem (live : Finset Slot) (k : Nat) : (⟨vacancy live k⟩ : Slot) ∉ live :=
  Nat.nth_mem_of_infinite (infinite_vacancies live) k

theorem vacancy_strictMono (live : Finset Slot) : StrictMono (vacancy live) :=
  Nat.nth_strictMono (infinite_vacancies live)

theorem exists_vacancy_eq (h : (⟨n⟩ : Slot) ∉ live) : ∃ k, vacancy live k = n := by
  obtain ⟨k, -, hk⟩ := Nat.exists_lt_card_nth_eq (p := fun n => (⟨n⟩ : Slot) ∉ live) h
  exact ⟨k, hk⟩

theorem mem_filled {s : Slot} : s ∈ filled live k ↔ s ∈ live ∨ ∃ i < k, s = ⟨vacancy live i⟩ := by
  simp [filled, eq_comm]

theorem filled_zero (live : Finset Slot) : filled live 0 = live := by simp [filled]

theorem filled_succ (live : Finset Slot) (k : Nat) :
    filled live (k + 1) = insert ⟨vacancy live k⟩ (filled live k) := by
  simp [filled, Finset.range_add_one]

theorem least_filled (live : Finset Slot) (k : Nat) : least (filled live k) = vacancy live k := by
  rw [least, Nat.find_eq_iff]
  constructor
  · rw [mem_filled, not_or]
    refine ⟨vacancy_not_mem live k, ?_⟩
    rintro ⟨i, hi, he⟩
    have hlt := vacancy_strictMono live hi
    rw [Slot.mk.injEq] at he
    omega
  · intro n hn hout
    rw [mem_filled, not_or] at hout
    obtain ⟨i, rfl⟩ := exists_vacancy_eq hout.1
    exact hout.2 ⟨i, (vacancy_strictMono live).lt_iff_lt.mp hn, rfl⟩

theorem card_filled (live : Finset Slot) (k : Nat) : (filled live k).card = live.card + k := by
  induction k with
  | zero => rw [filled_zero, Nat.add_zero]
  | succ k ih =>
    have hnew : (⟨vacancy live k⟩ : Slot) ∉ filled live k := by
      rw [← least_filled]
      exact Nat.find_spec (exists_not_live (filled live k))
    rw [filled_succ, Finset.card_insert_of_notMem hnew, ih, Nat.add_assoc]

theorem filled_filled (live : Finset Slot) (k : Nat) :
    filled (filled live 1) k = filled live (k + 1) := by
  induction k with
  | zero => rw [filled_zero]
  | succ k ih => rw [filled_succ, ← least_filled, ih, filled_succ live (k + 1), ← least_filled]

theorem vacancy_filled (live : Finset Slot) (k : Nat) :
    vacancy (filled live 1) k = vacancy live (k + 1) := by
  rw [← least_filled, filled_filled, least_filled]

end

/-! ## What the calls answer -/

/-- How many of `n` calls for a slot succeed under a limit, when so many slots are live. -/
def room (limit : Option Nat) (used n : Nat) : Nat :=
  match limit with
  | none => n
  | some l => min n (l - used)

/-- What `n` calls for a slot answer: the vacancies in order, as far as there is room, and then that
the limit is reached. -/
noncomputable def Registry.issues (r : Registry) (n : Nat) : List (Except Fault Slot) :=
  let k := room r.limit r.live.card n
  (List.range k).map (fun place => .ok ⟨vacancy r.live place⟩) ++
    match r.limit with
    | none => []
    | some l => List.replicate (n - k) (.error (.error (.capacityExceeded "slot allocator" l)))

section

variable {limit : Option Nat} {used n l : Nat} {r : Registry}

theorem room_zero (limit : Option Nat) (used : Nat) : room limit used 0 = 0 := by
  cases limit with
  | none => rfl
  | some l => exact Nat.zero_min _

theorem room_of_full (hl : limit = some l) (hfull : l ≤ used) (n : Nat) :
    room limit used n = 0 := by
  rw [hl, room]
  omega

theorem room_succ (h : ∀ l, limit = some l → used < l) (n : Nat) :
    room limit used (n + 1) = room limit (used + 1) n + 1 := by
  cases limit with
  | none => rfl
  | some l =>
    have := h l rfl
    simp only [room]
    omega

theorem Registry.issues_zero (r : Registry) : r.issues 0 = [] := by
  rw [issues, room_zero]
  cases r.limit <;> rfl

theorem Registry.issues_of_full (hl : r.limit = some l) (hfull : l ≤ r.live.card) (n : Nat) :
    r.issues n = List.replicate n (.error (.error (.capacityExceeded "slot allocator" l))) := by
  rw [issues, room_of_full hl hfull, hl]
  rfl

/-- As long as there is room, the first call answers the first vacancy, and what the others answer
begins behind it. -/
theorem Registry.issues_succ (h : ∀ l, r.limit = some l → r.live.card < l) (n : Nat) :
    r.issues (n + 1) =
      .ok ⟨vacancy r.live 0⟩ :: { r with live := filled r.live 1 }.issues n := by
  simp only [issues, card_filled, room_succ h, vacancy_filled, List.range_succ_eq_map,
    List.map_cons, List.map_map, List.cons_append, Nat.add_sub_add_right]
  rfl

end

variable {a : Allocator} {live : Finset Slot} {m : Memory} {k n : Nat}

/-! ## One call -/

/-- An allocator that has `k` more slots live, the first vacancies of another one, and a table as
long as they require. -/
structure Supplied (a : Allocator) (live : Finset Slot) (k : Nat) (b : Allocator) : Prop where
  limit : b.limit = a.limit
  represents : b.Represents (filled live k)
  length : b.table.length = max a.table.length (a.used + k)

theorem allocate_of_room (h : a.Represents live) (hroom : ∀ l, a.limit = some l → a.used < l) :
    (a.allocate .ample).answer = .ok ⟨vacancy live 0⟩ ∧
      Supplied a live 1 (a.allocate .ample).state := by
  have hnext : vacancy live 0 = a.next := by rw [← least_filled, filled_zero, least_eq_next h]
  have hcall : (a.allocate .ample).answer = .ok ⟨a.next⟩ ∧
      (a.allocate .ample).state.table.length = max a.table.length (a.used + 1) := by
    rcases allocate_cases .ample a with
      ⟨i, hh, he⟩ | ⟨l, hh, hl, hle, _⟩ | ⟨hh, _, _, he⟩ | ⟨_, _, hm, _⟩
    · -- a table with a hole has room for one more
      have hused := used_lt_length_of_hole hh
      have hlength : (a.fill i).table.length = a.table.length := List.length_set
      rw [he, next, hh, hlength]
      exact ⟨rfl, by omega⟩
    · have hfull := used_eq_length_of_hole h.1 hh
      have := hroom l hl
      omega
    · have hfull := used_eq_length_of_hole h.1 hh
      have hlength : a.extend.table.length = a.table.length + 1 := List.length_append
      rw [he, next, hh, hlength]
      exact ⟨rfl, by omega⟩
    · cases hm
  obtain ⟨hanswer, hlength⟩ := hcall
  rw [← hnext] at hanswer
  refine ⟨hanswer, limit_serve (.allocate .ample), ?_, hlength⟩
  have hlive := represents_serve h (.allocate .ample)
  rw [serve, hanswer] at hlive
  rw [filled_succ, filled_zero]
  exact hlive

theorem allocate_of_full (h : a.Represents live) {l : Nat} (hl : a.limit = some l)
    (hfull : l ≤ a.used) (m : Memory) :
    a.allocate m = .failed a (.capacityExceeded "slot allocator" l) [.full l] := by
  rcases allocate_cases m a with
    ⟨i, hh, _⟩ | ⟨k, _, hk, _, he⟩ | ⟨hh, hroom, _, _⟩ | ⟨hh, hroom, _, _⟩
  · have := used_lt_length_of_hole hh
    have := h.1.bounded l hl
    omega
  · rw [hl] at hk
    cases hk
    exact he
  all_goals
    have := used_eq_length_of_hole h.1 hh
    have := hroom l hl
    omega

theorem allocate_of_not_starved (h : ¬ (a.serve (.allocate m)).2.starved) :
    a.allocate m = a.allocate .ample := by
  rcases allocate_cases m a with
    ⟨i, hh, he⟩ | ⟨l, hh, hl, hle, he⟩ | ⟨hh, hroom, _, he⟩ | ⟨_, _, _, he⟩
  · rw [he, allocate, hh]
  · rw [he, allocate, hh, reached, hl, Option.filter_some, if_pos (decide_eq_true hle)]
  · rcases allocate_cases .ample a with
      ⟨i, hi, _⟩ | ⟨l, _, hl, hle, _⟩ | ⟨_, _, _, he'⟩ | ⟨_, _, hm, _⟩
    · rw [hh] at hi
      cases hi
    · exact absurd (hroom l hl) (Nat.not_lt_of_le hle)
    · rw [he, he']
    · cases hm
  · rw [serve, he] at h
    exact absurd trivial h

/-! ## Several calls -/

theorem supplied_zero (h : a.Represents live) : Supplied a live 0 a := by
  have := used_le_length h.1
  exact ⟨rfl, by rwa [filled_zero], by omega⟩

theorem Supplied.used (h : a.Represents live) {b : Allocator} (hb : Supplied a live k b) :
    b.used = a.used + k := by
  rw [used_eq_card hb.represents, card_filled, used_eq_card h]

theorem Supplied.behind (h : a.Represents live) {a' b : Allocator} (hone : Supplied a live 1 a')
    (hb : Supplied a' (filled live 1) k b) : Supplied a live (k + 1) b where
  limit := hb.limit.trans hone.limit
  represents := by
    rw [← filled_filled]
    exact hb.represents
  length := by
    have hlength := hb.length
    rw [hone.length, hone.used h] at hlength
    omega

/-- Calls for slots answer the vacancies in order, as far as there is room. -/
theorem allocateAll_ample (h : a.Represents live) (n : Nat) :
    (a.allocateAll .ample n).2 = (Registry.mk live a.limit).issues n ∧
      Supplied a live (room a.limit a.used n) (a.allocateAll .ample n).1 := by
  induction n generalizing a live with
  | zero =>
    rw [Registry.issues_zero, room_zero]
    exact ⟨rfl, supplied_zero h⟩
  | succ n ih =>
    have hcard : live.card = a.used := (used_eq_card h).symm
    by_cases hroom : ∀ l, a.limit = some l → a.used < l
    · obtain ⟨hanswer, hone⟩ := allocate_of_room h hroom
      obtain ⟨hanswers, hrest⟩ := ih hone.represents
      rw [hone.limit] at hanswers hrest
      rw [hone.used h] at hrest
      rw [room_succ hroom, Registry.issues_succ (by rwa [hcard]), ← hanswers, ← hanswer]
      exact ⟨rfl, hone.behind h hrest⟩
    · push Not at hroom
      obtain ⟨l, hl, hfull⟩ := hroom
      have hcall := allocate_of_full h hl hfull .ample
      have hregistry : l ≤ (Registry.mk live a.limit).live.card := by rwa [hcard]
      obtain ⟨hanswers, hrest⟩ := ih h
      rw [room_of_full hl hfull] at hrest
      rw [Registry.issues_of_full hl hregistry] at hanswers
      rw [room_of_full hl hfull, Registry.issues_of_full hl hregistry, List.replicate_succ,
        ← hanswers, allocateAll, hcall]
      exact ⟨rfl, hrest⟩

end SlotStore.Allocator
