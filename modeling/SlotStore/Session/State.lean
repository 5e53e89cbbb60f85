import SlotStore.Session.Answer
import SlotStore.Session.Named

/-!
# Sessions

A session holds allocators, lists and held pairs by name. A call begins with a change of the session
that runs no destructor. It is over then, or it leaves destructors to run and a sequel for the time
when they have run.

A list whose destructors run is not in the session meanwhile.
-/

namespace SlotStore

/-- Allocators, lists and held pairs by name. -/
structure Session (α : Type := String) where
  allocators : Named Allocator := {}
  lists : Named (SlotList α (Destructor α)) := {}
  held : Named (Pair α (Destructor α)) := {}

/-- What is left to do once destructors have run, or one of them has panicked. -/
inductive Sequel (α : Type := String) where
  /-- The call is over. It reports a panic, first of all one that came earlier. -/
  | report (earlier : Option String)
  /-- A list goes back into the session, and what a destructor put in its place is dropped. -/
  | reinstate (name : String) (list : SlotList α (Destructor α))

/-- What a call still has to do. -/
inductive Work (α : Type := String) where
  /-- Nothing; this is the reply. -/
  | done (r : Reply α)
  /-- The pairs are let go one after the other. A destructor that has a value runs on it, until one
  panics. -/
  | teardown (pairs : List (Pair α (Destructor α))) (sequel : Sequel α)

/-- A session in the middle of a call. -/
structure Stage (α : Type := String) where
  session : Session α
  /-- What happened so far. -/
  notes : List (Note α)
  /-- What is left to do. -/
  work : Work α

namespace Session

variable {α : Type}

/-! ## Parts of a session -/

def putAllocator (σ : Session α) (name : String) (a : Allocator) : Session α :=
  { σ with allocators := σ.allocators.put name a }

def putList (σ : Session α) (name : String) (l : SlotList α (Destructor α)) : Session α :=
  { σ with lists := σ.lists.put name l }

def takeList? (σ : Session α) (name : String) : Option (SlotList α (Destructor α) × Session α) :=
  (σ.lists.take? name).map fun (l, lists) => (l, { σ with lists })

theorem takeList?_eq_none_iff {σ : Session α} {name : String} :
    σ.takeList? name = none ↔ σ.lists.find? name = none := by
  rw [takeList?, Named.take?, Option.map_eq_none_iff, Option.map_eq_none_iff]

theorem find?_of_takeList? {σ τ : Session α} {name : String} {l : SlotList α (Destructor α)}
    (h : σ.takeList? name = some (l, τ)) : σ.lists.find? name = some l := by
  simp only [takeList?, Named.take?, Option.map_map, Option.map_eq_some_iff] at h
  obtain ⟨k, hk, he⟩ := h
  cases he
  exact hk

def takeHeld? (σ : Session α) (name : String) : Option (Pair α (Destructor α) × Session α) :=
  (σ.held.take? name).map fun (p, held) => (p, { σ with held })

/-- Holds a pair under a name. What was held under it is let go. -/
def hold (σ : Session α) (name : String) (p : Pair α (Destructor α)) :
    Session α × List (Note α) :=
  ({ σ with held := σ.held.put name p },
    (σ.held.find? name).toList.map fun q => .dropped q .released)

/-- Holds what was handed back under a name, if there is one, and lets it go otherwise. -/
def keep (σ : Session α) (name : Option String) (p : Pair α (Destructor α)) :
    Session α × List (Note α) :=
  match name with
  | some name => σ.hold name p
  | none => (σ, [.dropped p .released])

/-! ## Stages without destructors to run -/

def reply (σ : Session α) (r : Reply α) : Stage α := ⟨σ, [], .done r⟩

/-- A call needs an allocator. Without it the call is over, and these pairs are not stored. -/
def withAllocator (σ : Session α) (name : String) (pairs : List (Pair α (Destructor α)))
    (f : Allocator → Stage α) : Stage α :=
  match σ.allocators.find? name with
  | none => ⟨σ, pairs.map (.dropped · .rejected), .done (.missing .allocator)⟩
  | some a => f a

/-- A call needs a list and takes it out of the session. Without it the call is over, and these
pairs are not stored. -/
def withList (σ : Session α) (name : String) (pairs : List (Pair α (Destructor α)))
    (f : SlotList α (Destructor α) → Session α → Stage α) : Stage α :=
  match σ.takeList? name with
  | none => ⟨σ, pairs.map (.dropped · .rejected), .done (.missing .list)⟩
  | some (l, σ) => f l σ

/-- A call needs a held pair and takes it out of the session. -/
def withHeld (σ : Session α) (name : String)
    (f : Pair α (Destructor α) → Session α → Stage α) : Stage α :=
  match σ.takeHeld? name with
  | none => σ.reply (.missing .held)
  | some (p, σ) => f p σ

/-- A call for an allocator is over. -/
def afterAllocator {ρ : Type} (σ : Session α) (name : String) (o : Outcome Allocator ρ)
    (reply : ρ → Reply α) : Stage α :=
  ⟨σ.putAllocator name o.state, o.events.map .event, .done (match o.answer with
    | .ok r => reply r
    | .error f => .fault f)⟩

/-- A call for a list is over, and the list goes back into the session. -/
def afterList {ρ : Type} (σ : Session α) (name : String)
    (o : Outcome (SlotList α (Destructor α)) ρ) (reply : ρ → Reply α) : Stage α :=
  ⟨σ.putList name o.state, o.events.map .event, .done (match o.answer with
    | .ok r => reply r
    | .error f => .fault f)⟩

/-- A call that hands a pair back is over. Unless it succeeded, these pairs are not stored. -/
def afterExchange (σ : Session α) (name : String) (hold : Option String)
    (pairs : List (Pair α (Destructor α)))
    (o : Outcome (SlotList α (Destructor α)) (Pair α (Destructor α))) : Stage α :=
  match o.answer with
  | .ok p =>
    let kept := σ.keep hold p
    ⟨kept.1.putList name o.state, o.events.map .event ++ kept.2, .done (.pair p)⟩
  | .error f =>
    ⟨σ.putList name o.state, o.events.map .event ++ pairs.map (.dropped · .rejected),
      .done (.fault f)⟩

def memory (exhausted : Bool) : Memory := if exhausted then .exhausted else .ample

/-! ## The beginning of a call -/

/-- The limits from a source, or the reply that there are none. -/
def limitsOf : LimitsSource → Except (Reply α) Limits
  | .given limits => .ok limits
  | .toml text => (Limits.ofToml text).mapError (.unreadable text)

def faults {ρ : Type} (answers : List (Except Fault ρ)) : Nat :=
  answers.countP fun r => !r.isOk

def start [HAppend α String α] (σ : Session α) : Call α → Stage α
  | .newAllocator name source =>
    match limitsOf source with
    | .error r => σ.reply r
    | .ok limits =>
      let (a, events) := Allocator.empty limits.slots
      ⟨σ.putAllocator name a, events.map .event, .done .done⟩
  | .allocate name exhausted =>
    σ.withAllocator name [] fun a => σ.afterAllocator name (a.allocate (memory exhausted)) .slot
  | .allocateUpTo name n exhausted =>
    σ.withAllocator name [] fun a =>
      let (a, answers, events) := a.allocateUpTo (memory exhausted) n
      ⟨σ.putAllocator name a, events.map .event, .done (.slots answers)⟩
  | .allocateAll name threads n =>
    σ.withAllocator name [] fun a =>
      let (a, answers) := a.allocateAll .ample (threads * n)
      let slots := answers.filterMap Except.toOption
      (σ.putAllocator name a).reply (.issued (Slot.sorted slots) (faults answers))
  | .free name s =>
    σ.withAllocator name [] fun a => σ.afterAllocator name (a.free s) fun _ => .done
  | .freeEach name slots =>
    σ.withAllocator name [] fun a =>
      let (a, answers, events) := a.freeEach slots
      ⟨σ.putAllocator name a, events.map .event, .done (.freed answers)⟩
  | .freeAll name slots =>
    σ.withAllocator name [] fun a =>
      let (a, answers, _) := a.freeEach slots
      (σ.putAllocator name a).reply
        (.freedCount (answers.length - faults answers) (faults answers))
  | .isLive name s => σ.withAllocator name [] fun a => σ.reply (.truth (a.isLive s))
  | .liveBelow name n => σ.withAllocator name [] fun a => σ.reply (.live (a.liveBelow n))
  | .counts name =>
    σ.withAllocator name [] fun a => σ.reply (.counts a.stats.allocated a.stats.used)
  | .stats name => σ.withAllocator name [] fun a => σ.reply (.stats a.stats)
  | .showAllocator name => σ.withAllocator name [] fun a => σ.reply (.text a.shown)
  | .newList name source =>
    match limitsOf source with
    | .error r => σ.reply r
    | .ok limits =>
      match σ.takeList? name with
      | none => (σ.putList name { limit := limits.length }).reply .done
      | some (l, σ) =>
        ⟨σ, [.event (.destroyed l.length)],
          .teardown l.entries (.reinstate name { limit := limits.length })⟩
  | .set name allocator s v d hold exhausted =>
    σ.withAllocator allocator [⟨some v, d⟩] fun a => σ.withList name [⟨some v, d⟩] fun l σ =>
      σ.afterExchange name hold [⟨some v, d⟩] (l.set a (memory exhausted) s v d)
  | .setHeld name allocator s h hold exhausted =>
    σ.withAllocator allocator [] fun a => σ.withHeld h fun p σ' =>
      match p.value with
      | none => σ.reply (.missing .value)
      | some v => σ'.withList name [p] fun l σ =>
        σ.afterExchange name hold [p] (l.set a (memory exhausted) s v p.destructor)
  | .get name allocator s =>
    σ.withAllocator allocator [] fun a => σ.withList name [] fun l σ =>
      σ.afterList name (l.get a s) .value
  | .append name allocator s text =>
    σ.withAllocator allocator [] fun a => σ.withList name [] fun l σ =>
      σ.afterList name (l.modify a s fun v => v ++ text) .value
  | .clear name allocator s hold =>
    σ.withAllocator allocator [] fun a => σ.withList name [] fun l σ =>
      σ.afterExchange name hold [] (l.clear a s)
  | .destroy name =>
    σ.withList name [] fun l σ =>
      ⟨σ, [.event (.destroyed l.length)], .teardown l.entries (.reinstate name l.emptied)⟩
  | .dropList name =>
    σ.withList name [] fun l σ =>
      ⟨σ, [.event (.destroyed l.length)], .teardown l.entries (.report none)⟩
  | .length name => σ.withList name [] fun l _ => σ.reply (.length l.length)
  | .showList name => σ.withList name [] fun l _ => σ.reply (.text l.shown)
  | .newHeld name value destructor =>
    let held := σ.hold name ⟨value, destructor⟩
    ⟨held.1, held.2, .done .done⟩
  | .showHeld name => σ.withHeld name fun p _ => σ.reply (.held p)
  | .finalize name => σ.withHeld name fun p σ => ⟨σ, [], .teardown [p] (.report none)⟩
  | .dropHeld name => σ.withHeld name fun p σ => ⟨σ, [.dropped p .released], .done .done⟩

/-! ## The end of a call -/

/-- The reply to a call whose destructors have run, by the first panic among them. -/
def afterRuns : Option String → Reply α
  | none => .done
  | some text => .panicked text

/-- Goes on once destructors have run, or one of them has panicked. -/
def resume (σ : Session α) (panic : Option String) : Sequel α → Stage α
  | .report earlier => σ.reply (afterRuns (earlier <|> panic))
  | .reinstate name list =>
    match σ.takeList? name with
    | none => (σ.putList name list).reply (afterRuns panic)
    | some (other, σ) =>
      ⟨σ.putList name list, [.event (.destroyed other.length)],
        .teardown other.entries (.report panic)⟩

/-- The reply to the call of a step with the counts and the length that the step shows. -/
def summary (σ : Session α) (s : Step α) (r : Reply α) : Summary α :=
  { reply := r
    stats := s.allocator?.bind fun a => (σ.allocators.find? a).map Allocator.stats
    length := s.list?.bind fun l => (σ.lists.find? l).map SlotList.length }

end Session

end SlotStore
