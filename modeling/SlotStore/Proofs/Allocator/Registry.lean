import Mathlib.Data.Fintype.EquivFin
import SlotStore.Proofs.Allocator.Request

/-!
# An allocator is a set of live slots

A `Registry` is the set of live slots and a limit, nothing else: it issues the least number that is
not live and keeps no table. `allocator_refines_registry` says that after every run of a new
allocator, failures and refusals included, the allocator shows the slots that were issued and not
freed since, and that from there on it gives the responses of the registry. So what the table looks
like, how long it is and how it got there does not show.

Memory that fails is the exception: whether it is asked at all depends on the holes of the table.
-/

namespace SlotStore.Allocator

/-- The live slots, and the largest length of the table. -/
structure Registry where
  live : Finset Slot
  limit : Option Nat

theorem exists_not_live (live : Finset Slot) : ∃ n : Nat, (⟨n⟩ : Slot) ∉ live := by
  obtain ⟨n, hn⟩ := Infinite.exists_notMem_finset (live.image Slot.index)
  exact ⟨n, fun h => hn (Finset.mem_image.mpr ⟨_, h, rfl⟩)⟩

def least (live : Finset Slot) : Nat := Nat.find (exists_not_live live)

namespace Registry

/-- The least number that is not live, unless the limit forbids it. -/
def issue (r : Registry) : Except Fault Slot :=
  match r.limit.filter (· ≤ least r.live) with
  | none => .ok ⟨least r.live⟩
  | some limit => .error (.error (.capacityExceeded "slot allocator" limit))

def respond (r : Registry) : Request → Response
  | .allocate _ => .slot r.issue
  | .free s => .freed (if s ∈ r.live then .ok () else .error (.refusal (.freed s)))
  | .isLive s => .truth (decide (s ∈ r.live))
  | .used => .count r.live.card

/-- The responses to several requests, each of which changes the live slots as its response says. -/
def responses (r : Registry) : List Request → List Response
  | [] => []
  | q :: requests =>
    r.respond q :: responses { r with live := liveWith r.live (q, r.respond q) } requests

end Registry

variable {a : Allocator} {live : Finset Slot}

theorem least_eq_next (h : a.Represents live) : least live = a.next := by
  rw [least, Nat.find_eq_iff]
  constructor
  · intro hn
    exact not_isLive_next ((h.2 _).mpr hn)
  · intro k hk hn
    apply hn
    exact (h.2 _).mp (isLive_of_lt_next h.1 hk)

theorem used_eq_card (h : a.Represents live) : a.used = live.card := by
  have hl : live = a.live.toFinset := by
    ext s
    rw [List.mem_toFinset, mem_live h.1, h.2]
  rw [hl, List.toFinset_card_of_nodup (live_nodup h.1), length_live h.1]

/-! ## Issuing -/

theorem Registry.issue_eq_ok {r : Registry} (h : ∀ n, r.limit = some n → least r.live < n) :
    r.issue = .ok ⟨least r.live⟩ := by
  have hf : r.limit.filter (· ≤ least r.live) = none := by
    rw [Option.filter_eq_none_iff]
    intro n hn
    simpa using h n hn
  rw [issue, hf]

theorem Registry.issue_eq_error {r : Registry} {n : Nat} (hn : r.limit = some n)
    (h : n ≤ least r.live) :
    r.issue = .error (.error (.capacityExceeded "slot allocator" n)) := by
  rw [issue, hn, Option.filter_some, if_pos (decide_eq_true h)]

theorem answer_allocate (h : a.Represents live) (m : Memory) :
    (a.allocate m).answer = (Registry.mk live a.limit).issue ∨
      m.grants (a.table.length + 1) = false ∧
        (a.allocate m).answer = .error (.error (.growth "slot table" (a.table.length + 1))) := by
  have hleast := least_eq_next h
  rcases allocate_cases m a with
    ⟨i, hh, he⟩ | ⟨n, hh, hn, hle, he⟩ | ⟨hh, hroom, _, he⟩ | ⟨_, _, hm, he⟩
  · left
    -- a hole is inside the table, and so below the limit
    rw [next, hh, Option.getD_some] at hleast
    rw [he, Registry.issue_eq_ok, hleast]
    intro n hn
    rw [hleast]
    exact Nat.lt_of_lt_of_le (hole_lt_length hh) (h.1.bounded n hn)
  · left
    rw [next, hh, Option.getD_none] at hleast
    rw [he, Registry.issue_eq_error hn (by rw [hleast]; exact hle)]
    rfl
  · left
    rw [next, hh, Option.getD_none] at hleast
    rw [he, Registry.issue_eq_ok (by rw [hleast]; exact hroom), hleast]
  · right
    exact ⟨hm, by rw [he]; rfl⟩

theorem least_ge_iff (h : a.Represents live) {n : Nat} (hn : a.limit = some n) :
    n ≤ least live ↔ ∀ s, s ∈ live ↔ s.index < n := by
  rw [least_eq_next h]
  constructor
  · intro hle s
    constructor
    · intro hs
      have := lt_length_of_isLive ((h.2 s).mpr hs)
      exact Nat.lt_of_lt_of_le this (h.1.bounded n hn)
    · intro hs
      apply (h.2 s).mp
      exact isLive_of_lt_next h.1 (Nat.lt_of_lt_of_le hs hle)
  · intro hall
    by_contra hlt
    have hnext : (⟨a.next⟩ : Slot) ∈ live := (hall ⟨a.next⟩).mpr (Nat.lt_of_not_le hlt)
    exact not_isLive_next ((h.2 _).mpr hnext)

theorem answer_capacityExceeded_iff (h : a.Represents live) (m : Memory) (n : Nat) :
    (a.allocate m).answer = .error (.error (.capacityExceeded "slot allocator" n)) ↔
      a.limit = some n ∧ ∀ s, s ∈ live ↔ s.index < n := by
  constructor
  · intro ha
    rcases allocate_cases m a with ⟨i, _, he⟩ | ⟨k, hh, hk, hle, he⟩ | ⟨_, _, _, he⟩ | ⟨_, _, _, he⟩
    · rw [he] at ha
      cases ha
    · rw [he] at ha
      cases ha
      refine ⟨hk, (least_ge_iff h hk).mp ?_⟩
      rw [least_eq_next h, next, hh]
      exact hle
    · rw [he] at ha
      cases ha
    · rw [he] at ha
      cases ha
  · rintro ⟨hn, hall⟩
    have hle := (least_ge_iff h hn).mpr hall
    rcases answer_allocate h m with ha | ⟨_, ha⟩
    · rw [ha, Registry.issue_eq_error hn hle]
    · -- a full table is noticed before memory is asked for
      rw [least_eq_next h, next] at hle
      rcases allocate_cases m a with
        ⟨i, hh, he⟩ | ⟨k, _, hk, _, he⟩ | ⟨_, _, _, he⟩ | ⟨hh, hroom, _, _⟩
      · rw [he] at ha
        cases ha
      · rw [he] at ha
        cases ha
      · rw [he] at ha
        cases ha
      · rw [hh] at hle
        exact absurd hle (Nat.not_le_of_lt (hroom n hn))

/-! ## Freeing -/

theorem answer_free (h : a.Represents live) (s : Slot) :
    (a.free s).answer = if s ∈ live then .ok () else .error (.refusal (.freed s)) := by
  by_cases hs : s ∈ live
  · rw [if_pos hs, free_of_isLive ((h.2 s).mpr hs)]
  · rw [if_neg hs, free_of_not_isLive (fun hl => hs ((h.2 s).mp hl))]
    rfl

theorem isLive_free (h : a.Represents live) (s t : Slot) :
    (a.free s).state.isLive t = true ↔ t ∈ live.erase s := by
  rw [Finset.mem_erase]
  by_cases hs : s ∈ live
  · rw [free_of_isLive ((h.2 s).mpr hs), isLive_vacate h.1 ((h.2 s).mpr hs), h.2]
  · rw [free_of_not_isLive (fun hl => hs ((h.2 s).mp hl))]
    refine ⟨fun ht => ⟨?_, (h.2 t).mp ht⟩, fun ht => (h.2 t).mpr ht.2⟩
    rintro rfl
    exact hs ((h.2 t).mp ht)

/-! ## Responses -/

/-- One response is that of the registry, unless memory is asked for and not granted. -/
theorem response_eq (h : a.Represents live) (q : Request) (hq : ¬ (a.serve q).2.starved) :
    (a.serve q).2 = (Registry.mk live a.limit).respond q := by
  cases q with
  | allocate m =>
    rcases answer_allocate h m with ha | ⟨_, ha⟩
    · rw [serve, ha]
      rfl
    · rw [serve, ha] at hq
      exact absurd trivial hq
  | free s =>
    rw [serve, answer_free h s]
    rfl
  | isLive s =>
    rw [serve, Registry.respond, Bool.eq_iff_iff.mpr ((h.2 s).trans decide_eq_true_iff.symm)]
  | used =>
    rw [serve, Registry.respond, ← used_eq_card h]
    rfl

theorem responses_eq (h : a.Represents live) (requests : List Request)
    (hr : ∀ e ∈ (a.run requests).2, ¬ e.2.starved) :
    (a.run requests).2.map Prod.snd = (Registry.mk live a.limit).responses requests := by
  induction requests generalizing a live with
  | nil => rfl
  | cons q requests ih =>
    have hq := response_eq h q (hr _ (List.mem_cons_self ..))
    have hrest := ih (represents_serve h q) fun e he => hr e (List.mem_cons_of_mem _ he)
    rw [limit_serve, hq] at hrest
    show (a.serve q).2 :: ((a.serve q).1.run requests).2.map Prod.snd = _
    rw [hrest, hq]
    rfl

/-- **An allocator is a set of live slots.** After every run of a new allocator the live slots are
those issued and not freed since; a slot is freed if it is one of them and refused otherwise; the
slot issued is the least other number, as long as the limit permits it, which it does not exactly if
all numbers below it are live; and all responses that follow are those of the registry of these
slots, as long as no request for memory fails. -/
theorem allocator_refines_registry (limit : Option Nat) (requests : List Request) :
    let a := ((empty limit).1.run requests).1
    let live := liveAfter ((empty limit).1.run requests).2
    (∀ s, a.isLive s = true ↔ s ∈ live) ∧
    (∀ s, (a.free s).answer = if s ∈ live then .ok () else .error (.refusal (.freed s))) ∧
    (∀ s t, (a.free s).state.isLive t = true ↔ t ∈ live.erase s) ∧
    (∀ m, m.grants (a.table.length + 1) = true →
      (a.allocate m).answer = (Registry.mk live limit).issue) ∧
    (∀ m n, (a.allocate m).answer = .error (.error (.capacityExceeded "slot allocator" n)) ↔
      limit = some n ∧ ∀ s, s ∈ live ↔ s.index < n) ∧
    ∀ later, (∀ e ∈ (a.run later).2, ¬ e.2.starved) →
      (a.run later).2.map Prod.snd = (Registry.mk live limit).responses later := by
  intro a live
  have h : a.Represents live := represents_run (represents_empty limit) requests
  have hlimit : a.limit = limit := limit_run requests
  refine ⟨h.2, answer_free h, isLive_free h, ?_, ?_, ?_⟩
  · intro m hm
    rcases answer_allocate h m with ha | ⟨hm', _⟩
    · rw [ha, hlimit]
    · rw [hm] at hm'
      cases hm'
  · intro m n
    rw [answer_capacityExceeded_iff h, hlimit]
  · intro later hlater
    rw [responses_eq h later hlater, hlimit]

end SlotStore.Allocator
