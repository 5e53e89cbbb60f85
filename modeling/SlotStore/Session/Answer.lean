import SlotStore.Limits.Toml
import SlotStore.Session.Script
import SlotStore.SlotList

/-!
# Answers

What a step of a session shows: the reply to its call, the counts and the length of the structures
that it asks for, and a journal of everything that happened during it, in order.
-/

namespace SlotStore

inductive Missing where
  | allocator
  | list
  | held
  /-- The held pair has no value. -/
  | value
deriving DecidableEq, Repr

/-- The answer to a call. -/
inductive Reply (α : Type := String) where
  | done
  /-- It failed or was refused. -/
  | fault (f : Fault)
  | panicked (text : String)
  | unreadable (text : String) (u : Limits.Unreadable)
  | missing (m : Missing)
  | slot (s : Slot)
  | slots (answers : List (Except Fault Slot))
  /-- The slots that were issued on several threads, and the number of failures. -/
  | issued (slots : List Slot) (failures : Nat)
  | freed (answers : List (Except Fault Unit))
  /-- The number of slots freed on several threads, and of refusals. -/
  | freedCount (freed refused : Nat)
  | truth (b : Bool)
  | live (slots : List Slot)
  /-- The length of the table and the number of live slots. -/
  | counts (allocated used : Nat)
  | stats (s : Stats)
  | text (s : String)
  | length (n : Nat)
  | value (v : Option α)
  /-- A pair that was handed back. -/
  | pair (p : Pair α (Destructor α))
  /-- A pair that is held. -/
  | held (p : Pair α (Destructor α))

/-- The reply to a call together with what its step shows besides, after it. -/
structure Summary (α : Type := String) where
  reply : Reply α
  /-- The counts of the allocator whose counts are shown, if it is there. -/
  stats : Option Stats
  /-- The length of the list whose length is shown, if it is there. -/
  length : Option Nat

/-- Why a pair is let go although its destructor did not run. -/
inductive Loss where
  /-- Nothing kept what was handed back, or what was held is let go. -/
  | released
  /-- It was to be stored, and the call failed or was refused or named what is not there. -/
  | rejected
  /-- A part of the pair is missing, so there was nothing to run. -/
  | inert
  /-- The destructor of a pair before it in the same list panicked. -/
  | panicked
deriving DecidableEq, Repr

/-- Something that happens during a step. -/
inductive Note (α : Type := String) where
  | event (e : Event)
  /-- A destructor runs on a value, and this happens during its script. -/
  | ran (value : α) (d : Destructor α) (inner : List (Note α))
  | dropped (p : Pair α (Destructor α)) (loss : Loss)
  | answered (s : Summary α)

/-- What the log says about a destructor: that it runs, or how a step of its script went. -/
inductive LogEntry (α : Type := String) where
  | ran (tag : String) (value : α)
  | answered (s : Summary α)

/-- What becomes of a pair in the end. -/
inductive Deed (α : Type := String) where
  | ran (value : α) (d : Destructor α)
  | dropped (p : Pair α (Destructor α)) (loss : Loss)

section

variable {α : Type}

mutual

def Note.events : Note α → List Event
  | .event e => [e]
  | .ran _ _ inner => journalEvents inner
  | .dropped _ _ => []
  | .answered _ => []

def journalEvents : List (Note α) → List Event
  | [] => []
  | n :: journal => n.events ++ journalEvents journal

end

mutual

/-- The log entries of a note, in order. -/
def Note.log : Note α → List (LogEntry α)
  | .event _ => []
  | .ran value d inner => .ran d.tag value :: journalLog inner
  | .dropped _ _ => []
  | .answered s => [.answered s]

def journalLog : List (Note α) → List (LogEntry α)
  | [] => []
  | n :: journal => n.log ++ journalLog journal

end

mutual

/-- What a note says about pairs, in order. -/
def Note.deeds : Note α → List (Deed α)
  | .event _ => []
  | .ran value d inner => .ran value d :: journalDeeds inner
  | .dropped p loss => [.dropped p loss]
  | .answered _ => []

def journalDeeds : List (Note α) → List (Deed α)
  | [] => []
  | n :: journal => n.deeds ++ journalDeeds journal

end

end

/-- What a step shows. -/
structure Answer (α : Type := String) where
  summary : Summary α
  journal : List (Note α)

namespace Answer

variable {α : Type}

def events (a : Answer α) : List Event := journalEvents a.journal

def log (a : Answer α) : List (LogEntry α) := journalLog a.journal

def deeds (a : Answer α) : List (Deed α) := journalDeeds a.journal

/-- The journal of a step of a script, in the journal of the destructor: the step is over at its
end. -/
def nested (a : Answer α) : List (Note α) := a.journal ++ [.answered a.summary]

end Answer

def Pair.shown (p : Pair String Destructor) : String :=
  Shown.record "Replaced" [("value", Shown.option Quoted.encode p.value),
    ("destructor", Shown.truth p.destructor.isSome)]

end SlotStore
