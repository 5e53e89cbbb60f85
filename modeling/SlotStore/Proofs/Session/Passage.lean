import SlotStore.Proofs.Allocator.Request
import SlotStore.Proofs.Session.Induction

/-!
# The sessions on the way of a run

A run says only where it ends. Its destructors meet the session in the middle of it, while a list is
being torn down and the calls of other destructors are not over. `Passes` relates the session in
which a part of a run begins to every session that it passes through, at any depth. What calls
preserve, both when they begin and when they go on after a teardown, holds in all of them
(`Invariant.of_passes`).

What every new allocator has and no call on an allocator takes away (`Lasting`), all allocators have
in all these sessions (`lasting_of_passes`). The table of an allocator is well-formed, so it is in
the middle of a teardown as well, and `occurring_allocator_is_consistent` says what that means.
-/

namespace SlotStore

/-! ## Properties that last -/

namespace Allocator

/-- A property that every new allocator has and that no call takes away. -/
structure Lasting (P : Allocator → Prop) : Prop where
  empty : ∀ limit, P (empty limit).1
  allocate : ∀ a m, P a → P (a.allocate m).state
  free : ∀ a s, P a → P (a.free s).state

theorem lasting_wellFormed : Lasting WellFormed where
  empty limit := wellFormed_empty limit
  allocate _ _ hw := wellFormed_allocate hw
  free _ _ hw := wellFormed_free hw

variable {P : Allocator → Prop} {a : Allocator}

theorem Lasting.allocateUpTo (hP : Lasting P) (h : P a) (m : Memory) (n : Nat) :
    P (a.allocateUpTo m n).1 := by
  induction n generalizing a with
  | zero => exact h
  | succ n ih =>
    have hstate := hP.allocate a m h
    rw [Allocator.allocateUpTo]
    split
    · exact hstate
    · exact ih hstate

theorem Lasting.allocateAll (hP : Lasting P) (h : P a) (m : Memory) (n : Nat) :
    P (a.allocateAll m n).1 := by
  induction n generalizing a with
  | zero => exact h
  | succ n ih => exact ih (hP.allocate a m h)

theorem Lasting.freeEach (hP : Lasting P) (h : P a) (slots : List Slot) :
    P (a.freeEach slots).1 := by
  induction slots generalizing a with
  | nil => exact h
  | cons s slots ih => exact ih (hP.free a s h)

end Allocator

namespace Session

section

variable {α : Type}

def AllAllocators (P : Allocator → Prop) (σ : Session α) : Prop :=
  ∀ name a, σ.allocators.find? name = some a → P a

variable {P : Allocator → Prop} {σ : Session α}

theorem allAllocators_empty : AllAllocators P ({} : Session α) := by
  intro name a h
  cases h

theorem allAllocators_putAllocator (h : σ.AllAllocators P) (name : String) {a : Allocator}
    (ha : P a) : (σ.putAllocator name a).AllAllocators P :=
  Named.forall_find?_put h name ha

theorem allAllocators_withAllocator (h : σ.AllAllocators P) {name : String}
    {ps : List (Pair α (Destructor α))} {f : Allocator → Stage α}
    (hf : ∀ a, P a → (f a).session.AllAllocators P) :
    (σ.withAllocator name ps f).session.AllAllocators P := by
  unfold withAllocator
  split
  · exact h
  next a ha => exact hf a (h name a ha)

theorem allAllocators_withList (h : σ.AllAllocators P) {name : String}
    {ps : List (Pair α (Destructor α))}
    {f : SlotList α (Destructor α) → Session α → Stage α}
    (hf : ∀ l τ, τ.AllAllocators P → (f l τ).session.AllAllocators P) :
    (σ.withList name ps f).session.AllAllocators P := by
  unfold withList
  split
  · exact h
  next l τ hl =>
    obtain ⟨k, -, hk⟩ := Option.map_eq_some_iff.mp hl
    cases hk
    exact hf _ _ h

theorem allAllocators_withHeld (h : σ.AllAllocators P) {name : String}
    {f : Pair α (Destructor α) → Session α → Stage α}
    (hf : ∀ p τ, τ.AllAllocators P → (f p τ).session.AllAllocators P) :
    (σ.withHeld name f).session.AllAllocators P := by
  unfold withHeld
  split
  · exact h
  next p τ hp =>
    obtain ⟨q, -, hq⟩ := Option.map_eq_some_iff.mp hp
    cases hq
    exact hf _ _ h

theorem allAllocators_keep (h : σ.AllAllocators P) (hold : Option String)
    (p : Pair α (Destructor α)) : (σ.keep hold p).1.AllAllocators P := by
  cases hold <;> exact h

theorem allAllocators_afterExchange (h : σ.AllAllocators P) {name : String}
    {hold : Option String} {ps : List (Pair α (Destructor α))}
    {o : Outcome (SlotList α (Destructor α)) (Pair α (Destructor α))} :
    (σ.afterExchange name hold ps o).session.AllAllocators P := by
  unfold afterExchange
  split
  · exact allAllocators_keep h hold _
  · exact h

theorem allAllocators_resume (h : σ.AllAllocators P) (panic : Option String)
    (sequel : Sequel α) : (σ.resume panic sequel).session.AllAllocators P := by
  cases sequel with
  | report earlier => exact h
  | reinstate name l =>
    rw [resume]
    split
    · exact h
    next other τ ht =>
      obtain ⟨k, -, hk⟩ := Option.map_eq_some_iff.mp ht
      cases hk
      exact h

end

variable {α : Type} [HAppend α String α] {P : Allocator → Prop}

/-- A call takes a lasting property away from no allocator. -/
theorem allAllocators_start (hP : Allocator.Lasting P) {σ : Session α} (h : σ.AllAllocators P)
    (c : Call α) : (σ.start c).session.AllAllocators P := by
  cases c
  case newAllocator name source =>
    simp only [start]
    split
    · exact h
    · exact allAllocators_putAllocator h name (hP.empty _)
  case allocate name exhausted =>
    exact allAllocators_withAllocator h fun a ha =>
      allAllocators_putAllocator h name (hP.allocate a _ ha)
  case allocateUpTo name n exhausted =>
    exact allAllocators_withAllocator h fun a ha =>
      allAllocators_putAllocator h name (hP.allocateUpTo ha _ n)
  case allocateAll name threads n =>
    exact allAllocators_withAllocator h fun a ha =>
      allAllocators_putAllocator h name (hP.allocateAll ha _ _)
  case free name s =>
    exact allAllocators_withAllocator h fun a ha =>
      allAllocators_putAllocator h name (hP.free a s ha)
  case freeEach name slots | freeAll name slots =>
    exact allAllocators_withAllocator h fun a ha =>
      allAllocators_putAllocator h name (hP.freeEach ha slots)
  case newList name source =>
    simp only [start]
    split
    · exact h
    · split
      · exact h
      next l τ hl =>
        obtain ⟨k, -, hk⟩ := Option.map_eq_some_iff.mp hl
        cases hk
        exact h
  case set name allocator s v d hold exhausted | clear name allocator s hold =>
    exact allAllocators_withAllocator h fun a _ =>
      allAllocators_withList h fun l τ hτ => allAllocators_afterExchange hτ
  case setHeld name allocator s held hold exhausted =>
    refine allAllocators_withAllocator h fun a _ => allAllocators_withHeld h fun p τ hτ => ?_
    split
    · exact h
    · exact allAllocators_withList hτ fun l τ' hτ' => allAllocators_afterExchange hτ'
  case get name allocator s | append name allocator s text =>
    exact allAllocators_withAllocator h fun a _ => allAllocators_withList h fun l τ hτ => hτ
  case destroy name | dropList name => exact allAllocators_withList h fun l τ hτ => hτ
  case length name | showList name => exact allAllocators_withList h fun l τ _ => h
  case newHeld name v d => exact h
  case showHeld name => exact allAllocators_withHeld h fun p τ _ => h
  case finalize name | dropHeld name => exact allAllocators_withHeld h fun p τ hτ => hτ
  -- the others ask an allocator and change nothing
  all_goals exact allAllocators_withAllocator h fun a _ => h

/-! ## Invariants -/

/-- Beginning a call preserves a property of sessions, and so does going on after a teardown. What
is left to do then has a property of its own. -/
structure Invariant (I : Session α → Prop) (W : Work α → Prop) : Prop where
  start : ∀ σ c, I σ → I (σ.start c).session ∧ W (σ.start c).work
  resume : ∀ σ panic ps sequel, I σ → W (.teardown ps sequel) →
    I (σ.resume panic sequel).session ∧ W (σ.resume panic sequel).work

variable {I : Session α → Prop} {W : Work α → Prop}

theorem Invariant.hereditary (hI : Invariant I W) : Hereditary
    (fun σ work => I σ → W work → I (σ.settle work).session)
    (fun σ ps => I σ → I (σ.runAll ps).session)
    (fun σ script => I σ → I (σ.carryOut script).session)
    (fun σ s => I σ → I (σ.perform s).session) where
  done σ r h _ := by
    rw [settle_done_session]
    exact h
  teardown σ ps sequel hruns hrest h hwork := by
    obtain ⟨hsession, hleft⟩ :=
      hI.resume (σ.runAll ps).session (σ.runAll ps).result.1 ps sequel (hruns h) hwork
    rw [settle_teardown_session]
    exact hrest hsession hleft
  nil σ h := by
    rw [runAll_nil_session]
    exact h
  inert σ p ps hp hrest h := by
    rw [(runAll_inert σ hp ps).1]
    exact hrest h
  panic σ p ps v d text hp hd hscript h := by
    rw [(runAll_panic σ hp hd ps).1]
    exact hscript h
  ran σ p ps v d hp hd hscript hrest h := by
    rw [(runAll_ran σ hp hd ps).1]
    exact hrest (hscript h)
  finished σ h := by
    rw [carryOut_nil_session]
    exact h
  step σ s script hfirst hrest h := by
    rw [carryOut_cons_session]
    exact hrest (hfirst h)
  begun σ s hrest h := by
    obtain ⟨hsession, hleft⟩ := hI.start σ s.call h
    rw [perform_session]
    exact hrest hsession hleft

theorem invariant_allAllocators (hP : Allocator.Lasting P) :
    Invariant (α := α) (AllAllocators P) fun _ => True where
  start _ c h := ⟨allAllocators_start hP h c, trivial⟩
  resume _ panic _ sequel h _ := ⟨allAllocators_resume h panic sequel, trivial⟩

/-! ## Passing through sessions -/

/-- A part of a run: steps to carry out, pairs to tear down, or a call to finish. -/
inductive Part (α : Type) where
  | script (steps : List (Step α))
  | pairs (pairs : List (Pair α (Destructor α)))
  | work (work : Work α)

/-- A part of a run that begins in the first session passes through the second. -/
inductive Passes : Session α → Part α → Session α → Prop
  | outset (σ : Session α) (part : Part α) : Passes σ part σ
  | call {σ τ : Session α} {s : Step α} {script : List (Step α)} :
      Passes (σ.start s.call).session (.work (σ.start s.call).work) τ →
      Passes σ (.script (s :: script)) τ
  | later {σ τ : Session α} {s : Step α} {script : List (Step α)} :
      Passes (σ.perform s).session (.script script) τ → Passes σ (.script (s :: script)) τ
  | teardown {σ τ : Session α} {ps : List (Pair α (Destructor α))} {sequel : Sequel α} :
      Passes σ (.pairs ps) τ → Passes σ (.work (.teardown ps sequel)) τ
  | sequel {σ τ : Session α} {ps : List (Pair α (Destructor α))} {sequel : Sequel α} :
      Passes (σ.afterTeardown ps sequel).session (.work (σ.afterTeardown ps sequel).work) τ →
      Passes σ (.work (.teardown ps sequel)) τ
  | inert {σ τ : Session α} {p : Pair α (Destructor α)} {ps : List (Pair α (Destructor α))} :
      p.runnable? = none → Passes σ (.pairs ps) τ → Passes σ (.pairs (p :: ps)) τ
  /-- The script of a destructor is on its way. -/
  | running {σ τ : Session α} {p : Pair α (Destructor α)} {ps : List (Pair α (Destructor α))}
      {v : α} {d : Destructor α} :
      p.runnable? = some (v, d) → Passes σ (.script d.script) τ → Passes σ (.pairs (p :: ps)) τ
  | behind {σ τ : Session α} {p : Pair α (Destructor α)} {ps : List (Pair α (Destructor α))}
      {v : α} {d : Destructor α} :
      p.runnable? = some (v, d) → d.panic = none →
      Passes (σ.carryOut d.script).session (.pairs ps) τ → Passes σ (.pairs (p :: ps)) τ

theorem Passes.of_start {σ τ : Session α} {s : Step α} {script : List (Step α)} {t : Stage α}
    (h : σ.start s.call = t) (hpasses : Passes t.session (.work t.work) τ) :
    Passes σ (.script (s :: script)) τ := by
  subst h
  exact .call hpasses

theorem Passes.of_done {σ υ τ : Session α} {s : Step α} {script : List (Step α)}
    {notes : List (Note α)} {r : Reply α} (h : σ.start s.call = ⟨υ, notes, .done r⟩)
    (hpasses : Passes υ (.script script) τ) : Passes σ (.script (s :: script)) τ := by
  rw [← (perform_of_done h).1] at hpasses
  exact .later hpasses

/-- What a part of a run has left to do has a property. -/
def Part.Leaves (W : Work α → Prop) : Part α → Prop
  | .work w => W w
  | _ => True

/-- An invariant holds in every session on the way. -/
theorem Invariant.of_passes (hI : Invariant I W) {σ τ : Session α} {part : Part α}
    (hpasses : Passes σ part τ) (h : I σ) (hpart : part.Leaves W) : I τ := by
  induction hpasses with
  | outset σ part => exact h
  | @call σ _ s _ _ ih =>
    obtain ⟨hsession, hleft⟩ := hI.start σ s.call h
    exact ih hsession hleft
  | later _ ih => exact ih (hI.hereditary.perform _ _ h) trivial
  | teardown _ ih => exact ih h trivial
  | @sequel σ _ ps sequel _ ih =>
    obtain ⟨hsession, hleft⟩ := hI.resume (σ.runAll ps).session (σ.runAll ps).result.1 ps sequel
      (hI.hereditary.runAll σ ps h) hpart
    exact ih hsession hleft
  | inert _ _ ih => exact ih h trivial
  | running _ _ ih => exact ih h trivial
  | behind _ _ _ ih => exact ih (hI.hereditary.carryOut _ _ h) trivial

theorem lasting_of_passes (hP : Allocator.Lasting P) {σ τ : Session α} {script : List (Step α)}
    (hpasses : Passes σ (.script script) τ) (h : σ.AllAllocators P) : τ.AllAllocators P :=
  (invariant_allAllocators hP).of_passes hpasses h trivial

end Session

/-! ## Allocators on the way -/

namespace Allocator

/-- An allocator that requests make of a new one, or that a session has anywhere on the way of a
script. -/
inductive Occurs (α : Type) [HAppend α String α] : Allocator → Prop
  | run (limit : Option Nat) (requests : List Request) : Occurs α ((empty limit).1.run requests).1
  | session {script : List (Step α)} {τ : Session α} {name : String} {a : Allocator} :
      Session.Passes {} (.script script) τ → τ.allocators.find? name = some a → Occurs α a

variable {α : Type} [HAppend α String α] {a : Allocator}

theorem Occurs.wellFormed (h : Occurs α a) : a.WellFormed := by
  cases h with
  | run limit requests => exact wellFormed_run (wellFormed_empty limit) requests
  | session hpasses hfind =>
    exact Session.lasting_of_passes lasting_wellFormed hpasses Session.allAllocators_empty _ _ hfind

/-- **Counter and table never drift apart.** Wherever an allocator occurs, every entry of its table
is empty or holds its own slot, the number of live slots is the number of entries that are not
empty, and the table is empty exactly if that number is 0. Without a live slot it is a new allocator
of the same limit, down to its counts and its text. No table is longer than its limit. -/
theorem occurring_allocator_is_consistent (h : Occurs α a) :
    (∀ i e, a.table[i]? = some e → e = none ∨ e = some (⟨i⟩ : Slot)) ∧
    a.used = a.table.countP Option.isSome ∧
    (a.table = [] ↔ a.used = 0) ∧
    ((∀ s, a.isLive s = false) →
      a = (empty a.limit).1 ∧ a.stats = (empty a.limit).1.stats ∧
        a.shown = (empty a.limit).1.shown) ∧
    ∀ n, a.limit = some n → a.table.length ≤ n := by
  have hw := h.wellFormed
  refine ⟨?_, hw.counted, ⟨?_, hw.released⟩, ?_, hw.bounded⟩
  · intro i e he
    cases e with
    | none => exact Or.inl rfl
    | some s => exact Or.inr (congrArg some (hw.tagged i s he))
  · intro ht
    rw [hw.counted, ht, List.countP_nil]
  · intro hnone
    have hempty := hw.eq_empty hnone
    exact ⟨hempty, congrArg Allocator.stats hempty, congrArg Allocator.shown hempty⟩

/-- A destructor frees a slot while the list that it came from is torn down. -/
theorem consistent_in_teardown :
    let freeing : Destructor := .mk "freeing" [.mk (.free "a" ⟨0⟩) none none] none
    let script : List Step := [.mk (.newAllocator "a" (.given { slots := some 2 })) none none,
      .mk (.allocate "a" false) none none, .mk (.allocate "a" false) none none,
      .mk (.newList "l" (.given {})) none none,
      .mk (.set "l" "a" ⟨0⟩ "x" (some freeing) none false) none none,
      .mk (.destroy "l") none none]
    let a : Allocator := ⟨[none, some ⟨1⟩], 1, some 2⟩
    ∃ τ, Session.Passes {} (.script script) τ ∧ τ.lists.find? "l" = none ∧
      τ.allocators.find? "a" = some a ∧ Occurs String a ∧ (a.table = [] ↔ a.used = 0) := by
  intro freeing script a
  let before : Session := ({} : Session).putAllocator "a" { limit := some 2 }
  let first : Session := before.putAllocator "a" ⟨[some ⟨0⟩], 1, some 2⟩
  let second : Session := first.putAllocator "a" ⟨[some ⟨0⟩, some ⟨1⟩], 2, some 2⟩
  let τ : Session := second.putAllocator "a" a
  have hpasses : Session.Passes {} (.script script) τ := by
    refine .of_done (υ := before) rfl (.of_done (υ := first) rfl (.of_done (υ := second) rfl
      (.of_done (υ := second.putList "l" {}) rfl (.of_done
        (υ := second.putList "l" ⟨[⟨some "x", some freeing⟩], none⟩) rfl ?_))))
    -- the list is away from the session while its destructor runs
    refine .of_start (t := ⟨second, _, .teardown [⟨some "x", some freeing⟩]
      (.reinstate "l" {})⟩) rfl (.teardown (.running (d := freeing) rfl ?_))
    exact .of_done (υ := τ) rfl (.outset τ _)
  have hfind : τ.allocators.find? "a" = some a := rfl
  have hoccurs : Occurs String a := .session hpasses hfind
  exact ⟨τ, hpasses, rfl, hfind, hoccurs,
    (occurring_allocator_is_consistent hoccurs).2.2.1⟩

end Allocator

end SlotStore
