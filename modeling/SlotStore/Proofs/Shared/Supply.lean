import SlotStore.Proofs.Allocator.Supply
import SlotStore.Proofs.Shared.Ownership

/-!
# Asking for slots from several threads

Several threads ask for slots and do nothing else. Whoever has a turn when, their calls come to the
same number of calls in a row, and the answers are dealt out to the threads in the order of their
turns (`run_allocating`). So it can be said of all schedules at once which slots are issued
(`slots_are_issued_in_order`).
-/

namespace SlotStore

variable {ι κ α δ : Type}

/-- The program of a thread that asks for slots and does nothing else. Its memory may depend on what
it has been told. -/
def allocating (memory : List (Entry κ α δ) → Memory) : Program κ α δ :=
  fun told => some (.ask (.allocate (memory told)))

/-- What the thread `i` gets of the answers to the calls of a schedule. -/
def dealt {β : Type} [DecidableEq ι] (schedule : List ι) (answers : List β) (i : ι) : List β :=
  ((schedule.zip answers).filter fun x => x.1 = i).map Prod.snd

def Entry.issue? : Entry κ α δ → Option (Except Fault Slot)
  | .asked _ (.slot answer) => some answer
  | _ => none

/-- Whether a client is told that memory was asked for and not granted. -/
def Entry.Starved : Entry κ α δ → Prop
  | .asked _ r => r.starved
  | _ => False

def Client.issues (c : Client κ α δ) : List (Except Fault Slot) :=
  c.transcript.filterMap Entry.issue?

section

variable {β : Type} [DecidableEq ι] {schedule : List ι} {answers : List β} {i j : ι}

theorem dealt_cons_self (b : β) :
    dealt (i :: schedule) (b :: answers) i = b :: dealt schedule answers i := by
  simp [dealt]

theorem dealt_cons_of_ne (h : i ≠ j) (b : β) :
    dealt (j :: schedule) (b :: answers) i = dealt schedule answers i := by
  simp [dealt, h.symm]

end

section

variable {c : Client κ α δ}

theorem Client.issues_told_slot (q : Allocator.Request) (answer : Except Fault Slot) :
    (c.told (.asked q (.slot answer))).issues = c.issues ++ [answer] := by
  simp [issues, told, Entry.issue?]

theorem Client.turn_allocating [DecidableEq κ] {a : Allocator} (hp : c.pending = none)
    (memory : List (Entry κ α δ) → Memory) :
    c.turn (allocating memory) a =
      let m := memory c.transcript
      ((a.allocate m).state, c.told (.asked (.allocate m) (.slot (a.allocate m).answer))) := by
  rw [turn, hp]
  rfl

end

namespace Commons

/-- An allocator, and clients that have been told nothing. -/
def around (a : Allocator) (lists : ι → κ → SlotList α δ) : Commons ι κ α δ where
  allocator := a
  clients i := { lists := lists i }

variable [DecidableEq ι] [DecidableEq κ] {programs : ι → Program κ α δ} {c : Commons ι κ α δ}

theorem transcript_prefix_step (programs : ι → Program κ α δ) (c : Commons ι κ α δ) (i j : ι) :
    (c.clients j).transcript <+: ((c.step programs i).clients j).transcript := by
  by_cases hj : j = i
  · subst hj
    rw [clients_step_self]
    rcases Client.turn_cases (programs j) c.allocator (c.clients j) with
      ⟨k, x, _, he⟩ | ⟨_, _, he⟩ | ⟨q, _, _, he⟩ | ⟨k, x, _, _, he⟩ | ⟨k, _, _, he⟩
    · rw [he]
      exact List.prefix_append _ _
    · rw [he]
    · rw [he]
      exact List.prefix_append _ _
    · rw [he]
      split
      · exact List.prefix_refl _
      · exact List.prefix_append _ _
    · rw [he]
      exact List.prefix_append _ _
  · rw [clients_step_of_ne hj]

theorem transcript_prefix_run (programs : ι → Program κ α δ) (c : Commons ι κ α δ)
    (schedule : List ι) (j : ι) :
    (c.clients j).transcript <+: ((c.run programs schedule).clients j).transcript := by
  induction schedule generalizing c with
  | nil => exact List.prefix_refl _
  | cons i schedule ih => exact (transcript_prefix_step programs c i j).trans (ih _)

theorem step_allocating (memory : ι → List (Entry κ α δ) → Memory) {i : ι}
    (hp : (c.clients i).pending = none) :
    let o := c.allocator.allocate (memory i (c.clients i).transcript)
    (c.step (fun i => allocating (memory i)) i).allocator = o.state ∧
    (c.step (fun i => allocating (memory i)) i).clients i = (c.clients i).told
      (.asked (.allocate (memory i (c.clients i).transcript)) (.slot o.answer)) := by
  intro o
  have hturn := Client.turn_allocating (a := c.allocator) hp (memory i)
  exact ⟨congrArg Prod.fst hturn, (clients_step_self i).trans (congrArg Prod.snd hturn)⟩

/-- The calls of a schedule come to as many calls in a row with memory enough, if none of them is
denied memory. -/
theorem run_allocating {memory : ι → List (Entry κ α δ) → Memory}
    (hp : ∀ i, (c.clients i).pending = none) (schedule : List ι)
    (hmemory : ∀ i, ∀ e ∈ ((c.run (fun i => allocating (memory i)) schedule).clients i).transcript,
      ¬ e.Starved) :
    (c.run (fun i => allocating (memory i)) schedule).allocator =
      (c.allocator.allocateAll .ample schedule.length).1 ∧
    ∀ i, ((c.run (fun i => allocating (memory i)) schedule).clients i).issues =
      (c.clients i).issues ++
        dealt schedule (c.allocator.allocateAll .ample schedule.length).2 i := by
  induction schedule generalizing c with
  | nil => exact ⟨rfl, fun i => (List.append_nil _).symm⟩
  | cons j schedule ih =>
    obtain ⟨hallocator, hself⟩ := step_allocating memory (hp j)
    have hother : ∀ i, i ≠ j →
        (c.step (fun i => allocating (memory i)) j).clients i = c.clients i :=
      fun i hi => clients_step_of_ne hi
    -- the call was not denied memory, so memory enough would have made no difference
    have hample : c.allocator.allocate (memory j (c.clients j).transcript) =
        c.allocator.allocate .ample := by
      refine Allocator.allocate_of_not_starved fun hstarved => ?_
      have hkept := transcript_prefix_run (fun i => allocating (memory i))
        (c.step (fun i => allocating (memory i)) j) schedule j
      rw [hself] at hkept
      exact hmemory j _ (hkept.subset (List.mem_append_right _ (List.mem_singleton_self _)))
        hstarved
    have hpending : ∀ i,
        ((c.step (fun i => allocating (memory i)) j).clients i).pending = none := by
      intro i
      by_cases hi : i = j
      · subst hi
        rw [hself]
        exact hp i
      · rw [hother i hi]
        exact hp i
    obtain ⟨hstate, hissues⟩ := ih hpending hmemory
    rw [hallocator, hample] at hstate hissues
    refine ⟨hstate, fun i => (hissues i).trans ?_⟩
    rw [List.length_cons, Allocator.allocateAll]
    by_cases hi : i = j
    · subst hi
      rw [hself, hample, Client.issues_told_slot, dealt_cons_self, List.append_assoc]
      rfl
    · rw [hother i hi, dealt_cons_of_ne hi]

/-- **Slots are issued in order.** After every run of a new allocator, let threads ask for slots, in
any order of their turns, `n` times altogether and with nothing between the calls, none of which is
denied memory. Then `k` of the calls succeed: all of them if there is no limit, and otherwise as
many as there is room for. The first `k` answers are the `k` least numbers that were not live, in
ascending order, and the others are that the limit is reached; each thread gets its share of them in
the order of the turns. Afterwards these slots are live besides those that were, and the table is
just so long that it was before or that the live slots require. It makes no difference whether one
thread makes all the calls. -/
theorem slots_are_issued_in_order (limit : Option Nat) (requests : List Allocator.Request)
    (memory : ι → List (Entry κ α δ) → Memory) (lists : ι → κ → SlotList α δ) (schedule : List ι)
    (hmemory : ∀ i, ∀ e ∈ (((around ((Allocator.empty limit).1.run requests).1 lists).run
      (fun i => allocating (memory i)) schedule).clients i).transcript, ¬ e.Starved) :
    let a := ((Allocator.empty limit).1.run requests).1
    let live := Allocator.liveAfter ((Allocator.empty limit).1.run requests).2
    let n := schedule.length
    let k := Allocator.room limit a.stats.used n
    let c := (around a lists).run (fun i => allocating (memory i)) schedule
    let after := a.allocateAll .ample n
    after.2 = (Allocator.Registry.mk live limit).issues n ∧
    (∀ s, after.1.isLive s = true ↔
      s ∈ live ∨ ∃ place < k, s = ⟨Allocator.vacancy live place⟩) ∧
    after.1.stats.used = a.stats.used + k ∧
    after.1.stats.allocated = max a.stats.allocated (a.stats.used + k) ∧
    c.allocator = after.1 ∧
    ∀ i, (c.clients i).issues = dealt schedule after.2 i := by
  intro a live n k c after
  have h : a.Represents live :=
    Allocator.represents_run (Allocator.represents_empty limit) requests
  have hlimit : a.limit = limit := Allocator.limit_run requests
  obtain ⟨hanswers, hsupplied⟩ := Allocator.allocateAll_ample h n
  rw [hlimit] at hanswers hsupplied
  obtain ⟨hallocator, hissues⟩ :=
    run_allocating (c := around a lists) (fun _ => rfl) schedule hmemory
  refine ⟨hanswers, fun s => ?_, hsupplied.used h, hsupplied.length, hallocator, hissues⟩
  rw [hsupplied.represents.2, Allocator.mem_filled]
  rfl

/-- Two threads and a table with a hole. Only the call between the other two asks for memory: the
first one fills the hole, and the last one finds the limit reached. -/
theorem issued_around_a_hole :
    let requests : List Allocator.Request :=
      [.allocate .ample, .allocate .ample, .allocate .ample, .free ⟨1⟩]
    let a := ((Allocator.empty (some 4)).1.run requests).1
    let memory : Bool → List (Entry Unit Nat Nat) → Memory :=
      fun b _ => if b then .exhausted else .ample
    let schedule := [true, false, true]
    let c := (around a fun _ _ => {}).run (fun i => allocating (memory i)) schedule
    (∀ i, ∀ e ∈ (c.clients i).transcript, ¬ e.Starved) ∧
    a.table = [some ⟨0⟩, none, some ⟨2⟩] ∧
    (Allocator.Registry.mk (Allocator.liveAfter ((Allocator.empty (some 4)).1.run requests).2)
      (some 4)).issues 3 =
        [.ok ⟨1⟩, .ok ⟨3⟩, .error (.error (.capacityExceeded "slot allocator" 4))] ∧
    (c.clients true).issues =
      [.ok ⟨1⟩, .error (.error (.capacityExceeded "slot allocator" 4))] ∧
    (c.clients false).issues = [.ok ⟨3⟩] ∧
    c.allocator.stats.allocated = max 3 (2 + 2) := by
  intro requests a memory schedule c
  have hmemory : ∀ i, ∀ e ∈ (c.clients i).transcript, ¬ e.Starved := by
    intro i
    cases i with
    | false => exact List.forall_mem_cons.mpr ⟨id, List.forall_mem_nil _⟩
    | true =>
      exact List.forall_mem_cons.mpr ⟨id, List.forall_mem_cons.mpr ⟨id, List.forall_mem_nil _⟩⟩
  obtain ⟨hanswers, -, -, hlength, hallocator, hissues⟩ :=
    slots_are_issued_in_order (some 4) requests memory (fun _ _ => {}) schedule hmemory
  refine ⟨hmemory, rfl, hanswers.symm, hissues true, hissues false, ?_⟩
  rw [hallocator]
  exact hlength

end Commons

end SlotStore
