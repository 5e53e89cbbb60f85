import Mathlib.Data.List.FinRange
import SlotStore.Proofs.Allocator.Release
import SlotStore.Proofs.Shared.Ownership

/-!
# Freeing slots from several threads

Several slots are freed, one after the other in any order, or each by a thread of its own. A schedule
in which every thread has a turn is a pass in the order of the first turns (`released_run`), and all
passes leave the same allocator and free the same slots (`frees_do_not_depend_on_order`).
-/

namespace SlotStore

variable {κ α δ : Type}

/-- The program of a thread that tries to free a slot and is done. -/
def releasing (s : Slot) : Program κ α δ
  | [] => some (.ask (.free s))
  | _ :: _ => none

namespace Client

def freed? (c : Client κ α δ) : Option (Except Fault Unit) :=
  match c.transcript with
  | [.asked (.free _) (.freed answer)] => some answer
  | _ => none

variable [DecidableEq κ] {c : Client κ α δ} {a : Allocator} {s : Slot}

theorem turn_releasing (hp : c.pending = none) (ht : c.transcript = []) :
    c.turn (releasing s) a =
      ((a.free s).state, c.told (.asked (.free s) (.freed (a.free s).answer))) := by
  rw [turn, hp, ht]
  rfl

theorem turn_released (hp : c.pending = none) (ht : c.transcript ≠ []) :
    c.turn (releasing s) a = (a, c) := by
  obtain ⟨e, rest, he⟩ := List.exists_cons_of_ne_nil ht
  rw [turn, hp, he]
  rfl

end Client

namespace Commons

variable {slots : List Slot}

/-- An allocator, and a thread for each of several slots. -/
def threads (a : Allocator) (slots : List Slot) (lists : Fin slots.length → κ → SlotList α δ) :
    Commons (Fin slots.length) κ α δ where
  allocator := a
  clients i := { lists := lists i }

/-- The threads that had a turn have tried to free their slots, in the order of their first turns;
the others have done nothing. -/
structure Released (a : Allocator) (order : List (Fin slots.length))
    (c : Commons (Fin slots.length) κ α δ) : Prop where
  nodup : order.Nodup
  allocator : c.allocator = (a.freeEach (order.map slots.get)).1
  answers : order.map (fun i => (c.clients i).freed?) =
    (a.freeEach (order.map slots.get)).2.1.map some
  answered : ∀ i ∈ order, (c.clients i).freed? = some (.ok ()) ∨
    (c.clients i).freed? = some (.error (.refusal (.freed (slots.get i))))
  fresh : ∀ i, i ∉ order → (c.clients i).transcript = []
  pending : ∀ i, (c.clients i).pending = none

variable {a : Allocator} {order : List (Fin slots.length)}
  {c : Commons (Fin slots.length) κ α δ}

theorem released_threads (a : Allocator) (lists : Fin slots.length → κ → SlotList α δ) :
    Released a [] (threads a slots lists) where
  nodup := List.nodup_nil
  allocator := rfl
  answers := rfl
  answered := List.forall_mem_nil _
  fresh _ _ := rfl
  pending _ := rfl

theorem transcript_ne_nil_of_released (h : Released a order c) {i : Fin slots.length}
    (hi : i ∈ order) : (c.clients i).transcript ≠ [] := by
  intro ht
  have hnone : (c.clients i).freed? = none := by rw [Client.freed?, ht]
  rcases h.answered i hi with hanswer | hanswer
  all_goals
    rw [hnone] at hanswer
    cases hanswer

variable [DecidableEq κ]

theorem released_step (h : Released a order c) (i : Fin slots.length) :
    Released a (if i ∈ order then order else order ++ [i])
      (c.step (fun i => releasing (slots.get i)) i) := by
  split
  next hi =>
    have hturn := Client.turn_released (s := slots.get i) (a := c.allocator) (h.pending i)
      (transcript_ne_nil_of_released h hi)
    rw [step, hturn, Function.update_eq_self]
    exact h
  next hi =>
    have hturn := Client.turn_releasing (s := slots.get i) (a := c.allocator) (h.pending i)
      (h.fresh i hi)
    obtain ⟨hstate, hanswers⟩ := a.freeEach_append (order.map slots.get) [slots.get i]
    rw [← h.allocator] at hstate hanswers
    have hself : ((c.step (fun i => releasing (slots.get i)) i).clients i).freed? =
        some (c.allocator.free (slots.get i)).answer := by
      rw [clients_step_self, hturn, Client.freed?, Client.told, h.fresh i hi]
      rfl
    have hother : ∀ j, j ≠ i →
        (c.step (fun i => releasing (slots.get i)) i).clients j = c.clients j :=
      fun j hj => clients_step_of_ne hj
    refine ⟨?_, ?_, ?_, ?_, ?_, ?_⟩
    · exact List.nodup_append'.mpr ⟨h.nodup, List.nodup_singleton i, by simpa using hi⟩
    · rw [step, hturn, List.map_append, List.map_singleton, hstate]
      rfl
    · rw [List.map_append, List.map_append, List.map_singleton, List.map_singleton, hanswers,
        List.map_append, ← h.answers, hself]
      congr 1
      apply List.map_congr_left
      intro j hj
      rw [hother j (ne_of_mem_of_not_mem hj hi)]
    · intro j hj
      rcases List.mem_append.mp hj with hj | hj
      · rw [hother j (ne_of_mem_of_not_mem hj hi)]
        exact h.answered j hj
      · obtain rfl := List.mem_singleton.mp hj
        rw [hself]
        exact (Allocator.answer_free_cases _ _).imp (congrArg some) (congrArg some)
    · intro j hj
      rw [List.mem_append, List.mem_singleton, not_or] at hj
      rw [hother j hj.2]
      exact h.fresh j hj.1
    · intro j
      by_cases hj : j = i
      · subst hj
        rw [clients_step_self, hturn]
        exact h.pending j
      · rw [hother j hj]
        exact h.pending j

/-- A schedule comes to a pass over the slots of the threads that have a turn in it. -/
theorem released_run (h : Released a order c) (schedule : List (Fin slots.length)) :
    ∃ order', Released a order' (c.run (fun i => releasing (slots.get i)) schedule) ∧
      ∀ i, i ∈ order' ↔ i ∈ order ∨ i ∈ schedule := by
  induction schedule generalizing c order with
  | nil => exact ⟨order, h, fun i => by simp⟩
  | cons j schedule ih =>
    obtain ⟨order', hreleased, hmem⟩ := ih (released_step h j)
    refine ⟨order', hreleased, fun i => ?_⟩
    rw [hmem, List.mem_cons]
    split
    next hj =>
      constructor
      · rintro (hi | hi)
        · exact Or.inl hi
        · exact Or.inr (Or.inr hi)
      · rintro (hi | rfl | hi)
        · exact Or.inl hi
        · exact Or.inl hj
        · exact Or.inr hi
    next hj => rw [List.mem_append, List.mem_singleton, or_assoc]

theorem released_threads_run (a : Allocator) (lists : Fin slots.length → κ → SlotList α δ)
    {schedule : List (Fin slots.length)} (hall : ∀ i, i ∈ schedule) :
    ∃ order, order.Perm (List.finRange slots.length) ∧ (∀ i, i ∈ order) ∧
      Released a order
        ((threads a slots lists).run (fun i => releasing (slots.get i)) schedule) := by
  obtain ⟨order, hreleased, hmem⟩ := released_run (released_threads a lists) schedule
  have hturn : ∀ i, i ∈ order := fun i => (hmem i).mpr (Or.inr (hall i))
  have hperm : order.Perm (List.finRange slots.length) :=
    (List.perm_ext_iff_of_nodup hreleased.nodup (List.nodup_finRange _)).mpr fun i =>
      ⟨fun _ => List.mem_finRange i, fun _ => hturn i⟩
  exact ⟨order, hperm, hturn, hreleased⟩

/-- **The order of frees does not matter.** After every run of a new allocator, let several slots be
freed, with repetitions and with slots among them that are not live. In whichever order this is
tried, one attempt succeeds at each slot that was live, all others are refused, and the same
allocator is left: a new one if all live slots were among them, and otherwise the one before with
their entries empty. If there is a thread for each attempt, the same holds of every schedule in which
all threads have a turn. -/
theorem frees_do_not_depend_on_order (limit : Option Nat) (requests : List Allocator.Request)
    (slots : List Slot) (lists : Fin slots.length → κ → SlotList α δ) :
    let a := ((Allocator.empty limit).1.run requests).1
    let n := (slots.toFinset.filter fun s => a.isLive s = true).card
    (∀ order, order.Perm slots →
      (a.freeEach order).2.1.length = order.length ∧
      (a.freedSlots order).Nodup ∧
      (∀ s, s ∈ a.freedSlots order ↔ s ∈ slots ∧ a.isLive s = true) ∧
      (∀ x ∈ order.zip (a.freeEach order).2.1,
        x.2 = .ok () ∨ x.2 = .error (.refusal (.freed x.1))) ∧
      (a.freeEach order).2.1.countP Except.isOk = n ∧
      (a.freeEach order).1 = (a.freeEach slots).1) ∧
    ((∀ s, a.isLive s = true → s ∈ slots) →
      (a.freeEach slots).1 = (Allocator.empty limit).1) ∧
    (∀ s, a.isLive s = true → s ∉ slots → (a.freeEach slots).1 =
      { a with table := a.table.map (Option.filter (· ∉ slots)), used := a.used - n }) ∧
    ∀ schedule : List (Fin slots.length), (∀ i, i ∈ schedule) →
      let c := (threads a slots lists).run (fun i => releasing (slots.get i)) schedule
      c.allocator = (a.freeEach slots).1 ∧
      (∀ i, (c.clients i).freed? = some (.ok ()) ∨
        (c.clients i).freed? = some (.error (.refusal (.freed (slots.get i))))) ∧
      (List.finRange slots.length).countP (fun i => (c.clients i).freed?.any Except.isOk) = n := by
  intro a n
  have hw : a.WellFormed := Allocator.wellFormed_run (Allocator.wellFormed_empty limit) requests
  have hlimit : a.limit = limit := Allocator.limit_run requests
  have hcount : ∀ order : List Slot, order.Perm slots →
      (a.freeEach order).2.1.countP Except.isOk = n := by
    intro order horder
    rw [← Allocator.length_freedSlots,
      ← List.toFinset_card_of_nodup (Allocator.freedSlots_nodup hw order)]
    congr 1
    ext s
    rw [List.mem_toFinset, Allocator.mem_freedSlots hw, Finset.mem_filter, List.mem_toFinset,
      horder.mem_iff]
  have hstate : ∀ order : List Slot, order.Perm slots →
      (a.freeEach order).1 = (a.freeEach slots).1 := by
    intro order horder
    rw [Allocator.freeEach_eq_without hw, Allocator.freeEach_eq_without hw]
    exact Allocator.without_congr fun s => horder.mem_iff
  refine ⟨?_, ?_, ?_, ?_⟩
  · intro order horder
    refine ⟨a.length_freeEach order, Allocator.freedSlots_nodup hw order, fun s => ?_,
      Allocator.answer_of_mem_freeEach order, hcount order horder, hstate order horder⟩
    rw [Allocator.mem_freedSlots hw, horder.mem_iff]
  · intro hall
    rw [Allocator.freeEach_eq_without hw, Allocator.without_of_live_subset hw hall, hlimit]
  · intro s hs hout
    have hused := Allocator.used_freeEach hw slots
    rw [Allocator.length_freedSlots, hcount slots (List.Perm.refl _),
      Allocator.freeEach_eq_without hw] at hused
    rw [Allocator.freeEach_eq_without hw, ← Allocator.table_without hs hout, ← hused,
      Nat.add_sub_cancel]
    rfl
  · intro schedule hall
    obtain ⟨order, hperm, hturn, hreleased⟩ := released_threads_run a lists hall
    have hslots : (order.map slots.get).Perm slots := by
      have := hperm.map slots.get
      rwa [List.map_get_finRange] at this
    refine ⟨hreleased.allocator.trans (hstate _ hslots), fun i => ?_, ?_⟩
    · exact hreleased.answered i (hturn i)
    · rw [← hperm.countP_eq, ← hcount _ hslots]
      have := congrArg (List.countP (Option.any Except.isOk)) hreleased.answers
      rw [List.countP_map, List.countP_map] at this
      exact this

end Commons

end SlotStore
