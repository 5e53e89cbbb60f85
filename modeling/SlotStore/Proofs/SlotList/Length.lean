import SlotStore.Proofs.SlotList.Bench

/-!
# The length of a list

The length of a list is one more than the highest slot under which something was stored since the
list was last destroyed; nothing else changes it (`set_and_length`).
-/

namespace SlotStore

variable {α δ : Type}

namespace Bench

variable {ι : Type}

/-- The part of a transcript since the list was made or last destroyed. The latest request comes
first, here and in what is given. -/
def sinceDestroyed (past : List (Request ι α δ × Response α δ)) :
    List (Request ι α δ × Response α δ) :=
  past.takeWhile fun e => !e.1.destroys

/-- One more than the highest slot under which something was stored, or 0. -/
def highest (past : List (Request ι α δ × Response α δ)) : Nat :=
  ((past.filterMap stored?).map fun s => s.index + 1).max?.getD 0

theorem highest_cons_of_stored {e : Request ι α δ × Response α δ} {s : Slot}
    (h : stored? e = some s) (past : List (Request ι α δ × Response α δ)) :
    highest (e :: past) = max (highest past) (s.index + 1) := by
  rw [highest, List.filterMap_cons_some h, List.map_cons, List.max?_cons, highest]
  cases ((past.filterMap stored?).map fun s => s.index + 1).max? with
  | none => exact (Nat.zero_max _).symm
  | some n => exact Nat.max_comm _ _

theorem highest_cons_of_not_stored {e : Request ι α δ × Response α δ} (h : stored? e = none)
    (past : List (Request ι α δ × Response α δ)) : highest (e :: past) = highest past := by
  rw [highest, List.filterMap_cons_none h, highest]

theorem sinceDestroyed_cons {e : Request ι α δ × Response α δ} (h : e.1.destroys = false)
    (past : List (Request ι α δ × Response α δ)) :
    sinceDestroyed (e :: past) = e :: sinceDestroyed past :=
  List.takeWhile_cons_of_pos (by rw [h]; rfl)

theorem sinceDestroyed_cons_of_destroys {e : Request ι α δ × Response α δ}
    (h : e.1.destroys = true) (past : List (Request ι α δ × Response α δ)) :
    sinceDestroyed (e :: past) = [] :=
  List.takeWhile_cons_of_neg (by rw [h]; decide)

/-- A list has its limit, keeps within it, and is as long as its past requires. -/
structure Measured (limit : Option Nat) (past : List (Request ι α δ × Response α δ))
    (l : SlotList α δ) : Prop where
  limit : l.limit = limit
  within : l.Within
  length : l.length = highest (sinceDestroyed past)

theorem measured_new (limit : Option Nat) :
    Measured limit ([] : List (Request ι α δ × Response α δ)) { limit := limit } :=
  ⟨rfl, SlotList.within_new limit, rfl⟩

variable [DecidableEq ι] {b : Bench ι α δ} {past : List (Request ι α δ × Response α δ)}

theorem length_serve (hw : b.list.Within) {q : Request ι α δ} (hq : q.destroys = false)
    (hs : stored? (q, (b.serve q).2) = none) : (b.serve q).1.list.length = b.list.length := by
  rcases list_serve hw q with ⟨hq', _⟩ | ⟨_, s, p, hs', _⟩ | ⟨_, _, he | ⟨i, p, he⟩⟩
  · rw [hq] at hq'
    cases hq'
  · rw [hs] at hs'
    cases hs'
  · rw [he]
  · rw [he, SlotList.length_exchange]

/-- A request keeps the list as long as its past requires. -/
theorem measured_serve {limit : Option Nat} (h : Measured limit past b.list) (q : Request ι α δ) :
    Measured limit ((q, (b.serve q).2) :: past) (b.serve q).1.list := by
  obtain ⟨hlimit, hwithin⟩ := within_serve h.within q
  refine ⟨hlimit.trans h.limit, hwithin, ?_⟩
  rcases list_serve h.within q with ⟨hq, he⟩ | ⟨hq, s, p, hs, hroom, he⟩ | ⟨hq, hs, he⟩
  · rw [he, sinceDestroyed_cons_of_destroys hq]
    rfl
  · rw [he, b.list.length_stored, h.length, sinceDestroyed_cons hq, highest_cons_of_stored hs]
  · rw [length_serve h.within hq hs, h.length, sinceDestroyed_cons hq,
      highest_cons_of_not_stored hs]

theorem measured_run {limit : Option Nat} (h : Measured limit past b.list)
    (requests : List (Request ι α δ)) :
    Measured limit ((b.run requests).2.reverse ++ past) (b.run requests).1.list := by
  induction requests generalizing b past with
  | nil => exact h
  | cons q requests ih =>
    rw [run, List.reverse_cons, List.append_assoc, List.singleton_append]
    exact ih (measured_serve h q)

/-- **What becomes of a call that stores something, and how long a list is.** After every run that
began with an empty list, a call that is to store something under a slot, with any allocator, obeys
the verdict by the limit and the length of the list. If that is a fault, the list stays as it was;
otherwise it is as long as the slot requires, if it was shorter, and what is new below the slot is
empty. The list is as long as the highest slot requires under which something was stored since it
was made or last destroyed, and not longer than its limit. Requests that neither destroy the list
nor store something do not change its length. -/
theorem set_and_length (allocators : ι → Allocator) (limit : Option Nat)
    (requests : List (Request ι α δ)) :
    let start : Bench ι α δ := ⟨allocators, { limit := limit }⟩
    let b := (start.run requests).1
    let past := (start.run requests).2.reverse
    (∀ a m s v d,
      let verdict := SlotList.verdict limit b.list.length a m s
      let o := b.list.set a m s v d
      o.answer = verdict.map (fun _ => b.list.pairAt s.index) ∧
      (∀ f, verdict = .error f → o.state = b.list) ∧
      (verdict = .ok () → o.state.length = max b.list.length (s.index + 1) ∧
        ∀ j, b.list.length ≤ j → j < s.index → o.state.entries[j]? = some {})) ∧
    b.list.length = highest (sinceDestroyed past) ∧
    (∀ n, limit = some n → b.list.length ≤ n) ∧
    ∀ q, q.destroys = false → stored? (q, (b.serve q).2) = none →
      (b.serve q).1.list.length = b.list.length := by
  intro start b past
  have h : Measured limit (past ++ []) b.list := measured_run (measured_new limit) requests
  rw [List.append_nil] at h
  refine ⟨fun a m s v d => ?_, h.length, fun n hn => h.within n (h.limit.trans hn),
    fun q => length_serve h.within⟩
  intro verdict o
  have hverdict : verdict = SlotList.verdict b.list.limit b.list.length a m s := by rw [h.limit]
  rcases SlotList.set_cases h.within a m s v d with ⟨hv, events, he⟩ | ⟨f, hv, he⟩
  · rw [hverdict, hv]
    have hstate : o.state = b.list.stored s.index ⟨some v, d⟩ := congrArg Outcome.state he
    refine ⟨congrArg Outcome.answer he, fun f hf => (by cases hf), fun _ => ?_⟩
    rw [hstate]
    exact ⟨b.list.length_stored _ _, fun j hj hjs => SlotList.getElem?_stored hj hjs _⟩
  · rw [hverdict, hv]
    exact ⟨congrArg Outcome.answer he, fun _ _ => congrArg Outcome.state he,
      fun hok => (by cases hok)⟩

end Bench

end SlotStore
