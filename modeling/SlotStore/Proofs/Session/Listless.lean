import SlotStore.Proofs.Allocator.Table
import SlotStore.Proofs.Session.Destroy
import SlotStore.Proofs.Session.Whereabouts

/-!
# Destructors that leave lists alone

A destructor may call for anything, but most make no calls on lists. If none that runs does, what
runs leaves all lists as they are and reports nothing about them (`listless_hereditary`): a call on
a list is then all that becomes of lists in its step. Which destructors can run at all is known from
the script (`listless_deeds`).
-/

namespace SlotStore

variable {α : Type}

def Call.target? : Call α → Option String
  | .newList l _ | .set l _ _ _ _ _ _ | .setHeld l _ _ _ _ _ | .get l _ _ | .append l _ _ _
  | .clear l _ _ _ | .destroy l | .dropList l | .length l | .showList l => some l
  | _ => none

/-- A destructor makes no calls on lists. -/
def Destructor.Listless (d : Destructor α) : Prop := ∀ s ∈ d.script, s.call.target? = none

/-- If a destructor runs, it makes no calls on lists. -/
def Deed.Listless : Deed α → Prop
  | .ran _ d => d.Listless
  | .dropped _ _ => True

/-! ## Events about lists -/

def Event.ofList : Event → Bool
  | .grew _ _ | .destroyed _ => true
  | _ => false

def listEvents (journal : List (Note α)) : List Event := (journalEvents journal).filter Event.ofList

section
variable (journal others : List (Note α))

@[simp] theorem listEvents_nil : listEvents ([] : List (Note α)) = [] := by
  rw [listEvents, journalEvents, List.filter_nil]

theorem listEvents_cons (n : Note α) :
    listEvents (n :: journal) = n.events.filter Event.ofList ++ listEvents journal := by
  rw [listEvents, journalEvents, List.filter_append, ← listEvents]

@[simp] theorem listEvents_append :
    listEvents (journal ++ others) = listEvents journal ++ listEvents others := by
  induction journal with
  | nil => rw [listEvents_nil, List.nil_append, List.nil_append]
  | cons n journal ih =>
    rw [List.cons_append, listEvents_cons, ih, listEvents_cons, List.append_assoc]

theorem listEvents_event (e : Event) :
    listEvents (.event e :: journal) = [e].filter Event.ofList ++ listEvents journal := by
  rw [listEvents_cons, Note.events]

theorem listEvents_ran (v : α) (d : Destructor α) (inner : List (Note α)) :
    listEvents (.ran v d inner :: journal) = listEvents inner ++ listEvents journal := by
  rw [listEvents_cons, Note.events, ← listEvents]

theorem listEvents_dropped_cons (p : Pair α (Destructor α)) (loss : Loss) :
    listEvents (.dropped p loss :: journal) = listEvents journal := by
  rw [listEvents_cons, Note.events, List.filter_nil, List.nil_append]

end

@[simp] theorem listEvents_events (events : List Event) :
    listEvents (events.map Note.event : List (Note α)) = events.filter Event.ofList := by
  induction events with
  | nil => rw [List.map_nil, listEvents_nil, List.filter_nil]
  | cons e events ih =>
    rw [List.map_cons, listEvents_event, ih, ← List.filter_append, List.singleton_append]

@[simp] theorem listEvents_dropped (pairs : List (Pair α (Destructor α))) (loss : Loss) :
    listEvents (pairs.map fun p => .dropped p loss) = [] := by
  induction pairs with
  | nil => exact listEvents_nil
  | cons p pairs ih => rw [List.map_cons, listEvents_dropped_cons, ih]

theorem listEvents_nested (answers : List (Answer α)) :
    listEvents (answers.flatMap Answer.nested) =
      answers.flatMap fun a => listEvents a.journal := by
  induction answers with
  | nil => exact listEvents_nil
  | cons a answers ih =>
    have hanswered : listEvents [Note.answered a.summary] = [] := by
      rw [listEvents_cons, Note.events, List.filter_nil, listEvents_nil, List.append_nil]
    rw [List.flatMap_cons, listEvents_append, ih, Answer.nested, listEvents_append, hanswered,
      List.append_nil, List.flatMap_cons]

/-! ### Allocators -/

namespace Allocator

theorem filter_ofList_allocate (m : Memory) (a : Allocator) :
    (a.allocate m).events.filter Event.ofList = [] := by
  rcases allocate_cases m a with ⟨i, _, he⟩ | ⟨n, _, _, _, he⟩ | ⟨_, _, _, he⟩ | ⟨_, _, _, he⟩
  all_goals
    rw [he]
    rfl

theorem filter_ofList_free (a : Allocator) (s : Slot) :
    (a.free s).events.filter Event.ofList = [] := by
  unfold free
  split
  · dsimp only
    split <;> rfl
  · rfl

theorem filter_ofList_allocateUpTo (m : Memory) (n : Nat) (a : Allocator) :
    (a.allocateUpTo m n).2.2.filter Event.ofList = [] := by
  induction n generalizing a with
  | zero => rfl
  | succ n ih =>
    rw [allocateUpTo]
    dsimp only
    split
    · exact filter_ofList_allocate m a
    · rw [List.filter_append, filter_ofList_allocate, ih, List.append_nil]

theorem filter_ofList_freeEach (slots : List Slot) (a : Allocator) :
    (a.freeEach slots).2.2.filter Event.ofList = [] := by
  induction slots generalizing a with
  | nil => rfl
  | cons s slots ih =>
    rw [freeEach]
    dsimp only
    rw [List.filter_append, filter_ofList_free, ih, List.append_nil]

end Allocator

/-- No list waits to go back into the session. -/
def Work.Plain : Work α → Prop
  | .teardown _ (.reinstate _ _) => False
  | _ => True

namespace Session

/-! ## Calls on other things -/

/-- A call that leaves lists as they are and tells nothing of them. -/
structure Aside (σ : Session α) (t : Stage α) : Prop where
  lists : t.session.lists = σ.lists
  silent : listEvents t.notes = []
  plain : t.work.Plain

section
variable {σ : Session α} {name : String}

theorem aside_reply (r : Reply α) : Aside σ (σ.reply r) := ⟨rfl, listEvents_nil, trivial⟩

theorem aside_events (a : Allocator) {events : List Event} (r : Reply α)
    (h : events.filter Event.ofList = []) :
    Aside σ ⟨σ.putAllocator name a, events.map .event, .done r⟩ :=
  ⟨rfl, (listEvents_events events).trans h, trivial⟩

theorem aside_withAllocator {ps : List (Pair α (Destructor α))} {f : Allocator → Stage α}
    (h : ∀ a, Aside σ (f a)) : Aside σ (σ.withAllocator name ps f) := by
  unfold withAllocator
  split
  · exact ⟨rfl, listEvents_dropped ps .rejected, trivial⟩
  · exact h _

theorem aside_withHeld {f : Pair α (Destructor α) → Session α → Stage α}
    (h : ∀ p τ, τ.lists = σ.lists → Aside σ (f p τ)) : Aside σ (σ.withHeld name f) := by
  unfold withHeld
  split
  · exact aside_reply _
  next p τ hp =>
    simp only [takeHeld?, Option.map_eq_some_iff] at hp
    obtain ⟨_, _, heq⟩ := hp
    cases heq
    exact h _ _ rfl

end

theorem start_aside [HAppend α String α] (σ : Session α) {c : Call α} (h : c.target? = none) :
    Aside σ (σ.start c) := by
  cases c
  case newAllocator name source =>
    simp only [start]
    split
    · exact aside_reply _
    · exact aside_events _ _ rfl
  case allocate name exhausted =>
    exact aside_withAllocator fun a => aside_events _ _ (a.filter_ofList_allocate _)
  case allocateUpTo name n exhausted =>
    exact aside_withAllocator fun a => aside_events _ _ (a.filter_ofList_allocateUpTo _ n)
  case allocateAll name threads n =>
    exact aside_withAllocator fun a => ⟨rfl, listEvents_nil, trivial⟩
  case free name s =>
    exact aside_withAllocator fun a => aside_events _ _ (a.filter_ofList_free s)
  case freeEach name slots =>
    exact aside_withAllocator fun a => aside_events _ _ (a.filter_ofList_freeEach slots)
  case freeAll name slots => exact aside_withAllocator fun a => ⟨rfl, listEvents_nil, trivial⟩
  case newHeld name v d => exact ⟨rfl, listEvents_dropped _ _, trivial⟩
  case showHeld name => exact aside_withHeld fun p τ _ => aside_reply _
  case finalize name => exact aside_withHeld fun p τ hτ => ⟨hτ, listEvents_nil, trivial⟩
  case dropHeld name => exact aside_withHeld fun p τ hτ => ⟨hτ, listEvents_dropped [p] _, trivial⟩
  case isLive | liveBelow | counts | stats | showAllocator =>
    exact aside_withAllocator fun a => aside_reply _
  -- the others are made on lists
  all_goals cases h

/-! ## Runs without calls on lists -/

/-- What runs leaves lists as they are and tells nothing of them. -/
def Spares (σ τ : Session α) (journal : List (Note α)) : Prop :=
  τ.lists = σ.lists ∧ listEvents journal = []

theorem Spares.trans {σ τ υ : Session α} {journal others : List (Note α)}
    (h : Spares σ τ journal) (h' : Spares τ υ others) : Spares σ υ (journal ++ others) :=
  ⟨h'.1.trans h.1, by rw [listEvents_append, h.2, h'.2, List.append_nil]⟩

def Listless (deeds : List (Deed α)) : Prop := ∀ x ∈ deeds, x.Listless

variable [HAppend α String α]

/-- Without calls on lists the parts of a run spare them. -/
theorem listless_hereditary : Hereditary (α := α)
    (fun σ work => work.Plain → Listless (journalDeeds (σ.settle work).result.2) →
      Spares σ (σ.settle work).session (σ.settle work).result.2)
    (fun σ ps => Listless (journalDeeds (σ.runAll ps).result.2) →
      Spares σ (σ.runAll ps).session (σ.runAll ps).result.2)
    (fun σ script => (∀ s ∈ script, s.call.target? = none) →
      Listless ((σ.carryOut script).result.flatMap Answer.deeds) →
      Spares σ (σ.carryOut script).session ((σ.carryOut script).result.flatMap Answer.nested))
    (fun σ s => s.call.target? = none → Listless (σ.perform s).result.deeds →
      Spares σ (σ.perform s).session (σ.perform s).result.journal) where
  done σ r := by
    rw [settle_done_session, settle_done_result]
    exact fun _ _ => ⟨rfl, listEvents_nil⟩
  teardown σ ps sequel hruns _ := by
    intro hplain
    cases sequel with
    | reinstate name l => cases hplain
    | report earlier =>
      obtain ⟨hsession, -, hnotes⟩ := settle_report σ ps earlier
      rw [hsession, hnotes]
      exact hruns
  nil σ := by
    rw [runAll_nil_session, runAll_nil_result]
    exact fun _ => ⟨rfl, listEvents_nil⟩
  inert σ p ps hp hrest := by
    obtain ⟨hsession, -, hnotes⟩ := runAll_inert σ hp ps
    rw [hsession, hnotes, journalDeeds_dropped_cons, Spares, listEvents_dropped_cons]
    exact fun hdeeds => hrest (List.forall_mem_cons.mp hdeeds).2
  panic σ p ps v d text hp hd hscript := by
    obtain ⟨hsession, -, hnotes⟩ := runAll_panic σ hp hd ps
    rw [hsession, hnotes, journalDeeds_ran, journalDeeds_nested]
    intro hdeeds
    obtain ⟨hd, hdeeds⟩ := List.forall_mem_cons.mp hdeeds
    obtain ⟨hlists, hsilent⟩ := hscript hd (List.forall_mem_append.mp hdeeds).1
    refine ⟨hlists, ?_⟩
    rw [listEvents_ran, hsilent, listEvents_dropped, List.append_nil]
  ran σ p ps v d hp hd hscript hrest := by
    obtain ⟨hsession, -, hnotes⟩ := runAll_ran σ hp hd ps
    rw [hsession, hnotes, journalDeeds_ran, journalDeeds_nested]
    intro hdeeds
    obtain ⟨hd, hdeeds⟩ := List.forall_mem_cons.mp hdeeds
    obtain ⟨hinner, hmore⟩ := List.forall_mem_append.mp hdeeds
    obtain ⟨hlists, hsilent⟩ := (hscript hd hinner).trans (hrest hmore)
    rw [listEvents_append] at hsilent
    exact ⟨hlists, by rw [listEvents_ran, hsilent]⟩
  finished σ := by
    rw [carryOut_nil_session, carryOut_nil_result]
    exact fun _ _ => ⟨rfl, listEvents_nil⟩
  step σ s script hfirst hrest := by
    rw [carryOut_cons_session, carryOut_cons_result]
    intro hscript hdeeds
    obtain ⟨hs, hscript⟩ := List.forall_mem_cons.mp hscript
    obtain ⟨hsdeeds, hdeeds⟩ := List.forall_mem_append.mp hdeeds
    obtain ⟨hlists, hsilent⟩ := (hfirst hs hsdeeds).trans (hrest hscript hdeeds)
    rw [listEvents_append, listEvents_nested] at hsilent
    refine ⟨hlists, ?_⟩
    rw [listEvents_nested, List.flatMap_cons, hsilent]
  begun σ s hrest := by
    intro hs hdeeds
    obtain ⟨hlists, hsilent, hplain⟩ := σ.start_aside hs
    obtain ⟨hsession, -, hjournal⟩ := perform_of_start (rfl : σ.start s.call = σ.start s.call)
    rw [Answer.deeds, hjournal, journalDeeds_append] at hdeeds
    rw [hsession, hjournal]
    have hstart : Spares σ (σ.start s.call).session (σ.start s.call).notes := ⟨hlists, hsilent⟩
    exact hstart.trans (hrest hplain (List.forall_mem_append.mp hdeeds).2)

theorem listless_deeds {script : List (Step α)}
    (h : ∀ p ∈ scriptSites script, ∀ d, p.destructor = some d → d.Listless) :
    Listless ((({} : Session α).carryOut script).result.flatMap Answer.deeds) := by
  intro x hx
  cases x with
  | dropped p loss => trivial
  | ran v d =>
    obtain ⟨p, hp, hd⟩ := exists_site_of_ran script hx
    exact h p hp d hd

end Session

end SlotStore
