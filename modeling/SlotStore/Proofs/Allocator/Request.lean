import Mathlib.Data.Finset.Card
import SlotStore.Proofs.Allocator.Table

/-!
# Requests to an allocator

A run of an allocator is a list of requests in any order, with any slots, under memory that may fail
at any of them. Its transcript pairs each request with the response; which slots were issued and not
freed since can be read off the transcript alone (`liveAfter`).
-/

namespace SlotStore.Allocator

inductive Request where
  | allocate (m : Memory)
  | free (s : Slot)
  | isLive (s : Slot)
  | used

/-- What an allocator says to a request. -/
inductive Response where
  | slot (answer : Except Fault Slot)
  | freed (answer : Except Fault Unit)
  | truth (b : Bool)
  | count (n : Nat)

/-- Whether a response says that memory was asked for and not granted. -/
def Response.starved : Response → Prop
  | .slot (.error (.error (.outOfMemory _))) => True
  | _ => False

def serve (a : Allocator) : Request → Allocator × Response
  | .allocate m => ((a.allocate m).state, .slot (a.allocate m).answer)
  | .free s => ((a.free s).state, .freed (a.free s).answer)
  | .isLive s => (a, .truth (a.isLive s))
  | .used => (a, .count a.stats.used)

def run (a : Allocator) : List Request → Allocator × List (Request × Response)
  | [] => (a, [])
  | q :: requests =>
    let rest := (a.serve q).1.run requests
    (rest.1, (q, (a.serve q).2) :: rest.2)

/-- The slots that are issued and not freed after one more request. -/
def liveWith (live : Finset Slot) : Request × Response → Finset Slot
  | (.allocate _, .slot (.ok s)) => insert s live
  | (.free s, .freed (.ok _)) => live.erase s
  | _ => live

/-- The slots that a transcript shows to be issued and not freed since. -/
def liveAfter (transcript : List (Request × Response)) : Finset Slot :=
  transcript.foldl liveWith ∅

theorem liveWith_cases (q : Request) (r : Response) :
    (∃ m s, q = .allocate m ∧ r = .slot (.ok s)) ∨ (∃ s u, q = .free s ∧ r = .freed (.ok u)) ∨
      ∀ live, liveWith live (q, r) = live := by
  cases q with
  | allocate m =>
    rcases r with (_ | s) | _ | _ | _
    case slot.ok => exact Or.inl ⟨m, s, rfl, rfl⟩
    all_goals exact Or.inr (Or.inr fun _ => rfl)
  | free s =>
    rcases r with _ | (_ | u) | _ | _
    case freed.ok => exact Or.inr (Or.inl ⟨s, u, rfl, rfl⟩)
    all_goals exact Or.inr (Or.inr fun _ => rfl)
  | isLive s => exact Or.inr (Or.inr fun _ => rfl)
  | used => exact Or.inr (Or.inr fun _ => rfl)

section

variable {a : Allocator}

theorem wellFormed_serve (hw : a.WellFormed) (q : Request) : (a.serve q).1.WellFormed := by
  cases q with
  | allocate m => exact wellFormed_allocate hw
  | free s => exact wellFormed_free hw
  | isLive s => exact hw
  | used => exact hw

theorem wellFormed_run (hw : a.WellFormed) (requests : List Request) :
    (a.run requests).1.WellFormed := by
  induction requests generalizing a with
  | nil => exact hw
  | cons q requests ih => exact ih (wellFormed_serve hw q)

theorem limit_serve (q : Request) : (a.serve q).1.limit = a.limit := by
  cases q with
  | allocate m =>
    rcases allocate_cases m a with ⟨i, _, he⟩ | ⟨n, _, _, _, he⟩ | ⟨_, _, _, he⟩ | ⟨_, _, _, he⟩
    all_goals
      rw [serve, he]
      rfl
  | free s =>
    by_cases h : a.isLive s = true
    · rw [serve, free_of_isLive h]
      show (a.vacate s.index).limit = a.limit
      rw [vacate]
      split <;> rfl
    · rw [serve, free_of_not_isLive h]
      rfl
  | isLive s => rfl
  | used => rfl

theorem limit_run (requests : List Request) : (a.run requests).1.limit = a.limit := by
  induction requests generalizing a with
  | nil => rfl
  | cons q requests ih => exact ih.trans (limit_serve q)

/-- An allocator whose live slots are the members of a set. -/
def Represents (a : Allocator) (live : Finset Slot) : Prop :=
  a.WellFormed ∧ ∀ s, a.isLive s = true ↔ s ∈ live

variable {live : Finset Slot}

theorem represents_empty (limit : Option Nat) : (empty limit).1.Represents ∅ := by
  refine ⟨wellFormed_empty limit, fun s => ?_⟩
  rw [isLive_iff]
  simp [empty]

theorem represents_serve (h : a.Represents live) (q : Request) :
    (a.serve q).1.Represents (liveWith live (q, (a.serve q).2)) := by
  obtain ⟨hw, hl⟩ := h
  refine ⟨wellFormed_serve hw q, fun t => ?_⟩
  cases q with
  | allocate m =>
    rcases allocate_cases m a with ⟨i, hh, he⟩ | ⟨n, _, _, _, he⟩ | ⟨_, _, _, he⟩ | ⟨_, _, _, he⟩
    · rw [serve, he]
      show (a.fill i).isLive t = true ↔ t ∈ insert _ live
      rw [isLive_fill hh, hl, Finset.mem_insert]
    · rw [serve, he]
      exact hl t
    · rw [serve, he]
      show a.extend.isLive t = true ↔ t ∈ insert _ live
      rw [isLive_extend, hl, Finset.mem_insert]
    · rw [serve, he]
      exact hl t
  | free s =>
    by_cases hs : a.isLive s = true
    · rw [serve, free_of_isLive hs]
      show (a.vacate s.index).isLive t = true ↔ t ∈ live.erase s
      rw [isLive_vacate hw hs, hl, Finset.mem_erase]
    · rw [serve, free_of_not_isLive hs]
      exact hl t
  | isLive s => exact hl t
  | used => exact hl t

/-- A run changes the live slots as its transcript says. -/
theorem represents_run (h : a.Represents live) (requests : List Request) :
    (a.run requests).1.Represents ((a.run requests).2.foldl liveWith live) := by
  induction requests generalizing a live with
  | nil => exact h
  | cons q requests ih => exact ih (represents_serve h q)

end

end SlotStore.Allocator
