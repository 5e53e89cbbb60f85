import SlotStore.Proofs.Session.Notes

/-!
# Values do not matter

A session never looks at values, it only moves them and puts texts behind them. So a map between
values that respects putting a text behind takes a run to the run of the mapped script
(`carryOut_map`): same steps, same answers, same order, only the values are mapped.
-/

namespace SlotStore

variable {α β : Type}

/-! ## Mapping scripts -/

mutual

/-- A destructor with the values of its script mapped. -/
def Destructor.map (f : α → β) : Destructor α → Destructor β
  | .mk tag script panic => .mk tag (scriptMap f script) panic

def scriptMap (f : α → β) : List (Step α) → List (Step β)
  | [] => []
  | s :: script => s.map f :: scriptMap f script

def Step.map (f : α → β) : Step α → Step β
  | .mk call allocator list => .mk (call.map f) allocator list

def Call.map (f : α → β) : Call α → Call β
  | .newAllocator a limits => .newAllocator a limits
  | .allocate a exhausted => .allocate a exhausted
  | .allocateUpTo a n exhausted => .allocateUpTo a n exhausted
  | .allocateAll a threads n => .allocateAll a threads n
  | .free a s => .free a s
  | .freeEach a slots => .freeEach a slots
  | .freeAll a slots => .freeAll a slots
  | .isLive a s => .isLive a s
  | .liveBelow a n => .liveBelow a n
  | .counts a => .counts a
  | .stats a => .stats a
  | .showAllocator a => .showAllocator a
  | .newList l limits => .newList l limits
  | .set l a s v none hold exhausted => .set l a s (f v) none hold exhausted
  | .set l a s v (some d) hold exhausted => .set l a s (f v) (some (d.map f)) hold exhausted
  | .setHeld l a s h hold exhausted => .setHeld l a s h hold exhausted
  | .get l a s => .get l a s
  | .append l a s text => .append l a s text
  | .clear l a s hold => .clear l a s hold
  | .destroy l => .destroy l
  | .dropList l => .dropList l
  | .length l => .length l
  | .showList l => .showList l
  | .newHeld h v none => .newHeld h (v.map f) none
  | .newHeld h v (some d) => .newHeld h (v.map f) (some (d.map f))
  | .showHeld h => .showHeld h
  | .finalize h => .finalize h
  | .dropHeld h => .dropHeld h

end

section

variable (f : α → β)

theorem Call.map_set (l a : String) (s : Slot) (v : α) (d : Option (Destructor α))
    (hold : Option String) (exhausted : Bool) :
    (Call.set l a s v d hold exhausted).map f =
      .set l a s (f v) (d.map (Destructor.map f)) hold exhausted := by
  cases d <;> rw [Call.map] <;> rfl

theorem Call.map_newHeld (h : String) (v : Option α) (d : Option (Destructor α)) :
    (Call.newHeld h v d).map f = .newHeld h (v.map f) (d.map (Destructor.map f)) := by
  cases d <;> rw [Call.map] <;> rfl

@[simp] theorem Destructor.script_map (d : Destructor α) :
    (d.map f).script = scriptMap f d.script := by
  cases d
  rw [Destructor.map]
  rfl

@[simp] theorem Destructor.panic_map (d : Destructor α) : (d.map f).panic = d.panic := by
  cases d
  rw [Destructor.map]
  rfl

@[simp] theorem Step.call_map (s : Step α) : (s.map f).call = s.call.map f := by
  cases s
  rw [Step.map]
  rfl

theorem scriptMap_eq (script : List (Step α)) : scriptMap f script = script.map (Step.map f) := by
  induction script with
  | nil => rw [scriptMap, List.map_nil]
  | cons s script ih => rw [scriptMap, ih, List.map_cons]

/-! ## Mapping sessions -/

/-- A pair with its value and its destructor mapped. -/
def Pair.mapValues (p : Pair α (Destructor α)) : Pair β (Destructor β) :=
  ⟨p.value.map f, p.destructor.map (Destructor.map f)⟩

def SlotList.mapValues (l : SlotList α (Destructor α)) : SlotList β (Destructor β) :=
  ⟨l.entries.map (Pair.mapValues f), l.limit⟩

def Named.map {γ ε : Type} (g : γ → ε) (n : Named γ) : Named ε where
  entries := n.entries.map fun e => (e.1, g e.2)
  distinct := by
    rw [List.map_map]
    exact n.distinct

namespace Session

def map (σ : Session α) : Session β where
  allocators := σ.allocators
  lists := σ.lists.map (SlotList.mapValues f)
  held := σ.held.map (Pair.mapValues f)

end Session

def Reply.map : Reply α → Reply β
  | .done => .done
  | .fault e => .fault e
  | .panicked t => .panicked t
  | .unreadable t u => .unreadable t u
  | .missing m => .missing m
  | .slot s => .slot s
  | .slots rs => .slots rs
  | .issued ss n => .issued ss n
  | .freed rs => .freed rs
  | .freedCount n k => .freedCount n k
  | .truth b => .truth b
  | .live ss => .live ss
  | .counts n k => .counts n k
  | .stats s => .stats s
  | .text t => .text t
  | .length n => .length n
  | .value v => .value (v.map f)
  | .pair p => .pair (p.mapValues f)
  | .held p => .held (p.mapValues f)

def Summary.map (s : Summary α) : Summary β := ⟨s.reply.map f, s.stats, s.length⟩

mutual

def Note.map : Note α → Note β
  | .event e => .event e
  | .ran v d inner => .ran (f v) (d.map f) (journalMap inner)
  | .dropped p loss => .dropped (p.mapValues f) loss
  | .answered s => .answered (s.map f)

def journalMap : List (Note α) → List (Note β)
  | [] => []
  | n :: journal => n.map :: journalMap journal

end

def Answer.map (a : Answer α) : Answer β := ⟨a.summary.map f, journalMap f a.journal⟩

def Deed.map : Deed α → Deed β
  | .ran v d => .ran (f v) (d.map f)
  | .dropped p loss => .dropped (p.mapValues f) loss

def Sequel.map : Sequel α → Sequel β
  | .report earlier => .report earlier
  | .reinstate name l => .reinstate name (l.mapValues f)

/-- The mapped rest of a call. -/
def Work.map : Work α → Work β
  | .done r => .done (r.map f)
  | .teardown ps s => .teardown (ps.map (Pair.mapValues f)) (s.map f)

def Stage.map (t : Stage α) : Stage β :=
  ⟨t.session.map f, journalMap f t.notes, t.work.map f⟩

end

end SlotStore
