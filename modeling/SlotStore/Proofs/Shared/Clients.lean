import Mathlib.Logic.Function.Basic
import SlotStore.Proofs.Allocator.Request
import SlotStore.Proofs.SlotList.Contents

/-!
# Clients that share an allocator

Several clients share one allocator, and each has lists of its own. A client follows a program that
sees what the client has been told so far and nothing else. A schedule says whose turn it is next;
what happens in one turn is not interrupted. One turn is a call on the allocator, or the check that
the slot of an access is live, or what the access does to the list then: the check and what follows
it are two turns, and others may have theirs in between.

A call on a list does both at once, and if the slot is live comes to what the access comes to
(`Access.call_of_isLive`).
-/

namespace SlotStore

/-! ## Accesses -/

/-- What can be done under a slot of a list. -/
inductive Access (α δ : Type) where
  | set (m : Memory) (s : Slot) (v : α) (d : Option δ)
  | get (s : Slot)
  | modify (s : Slot) (f : α → α)
  | clear (s : Slot)

namespace Access

variable {α δ : Type}

/-- What comes of an access. -/
inductive Yield (α δ : Type) where
  | value (answer : Except Fault (Option α))
  | pair (answer : Except Fault (Pair α δ))

/-- Why an access was refused, if it was. -/
def Yield.refusal? : Yield α δ → Option Refusal
  | value (.error (.refusal r)) => some r
  | pair (.error (.refusal r)) => some r
  | _ => none

def slot : Access α δ → Slot
  | set _ s _ _ => s
  | get s => s
  | modify s _ => s
  | clear s => s

def call (a : Allocator) (l : SlotList α δ) : Access α δ → SlotList α δ × Yield α δ
  | set m s v d => ((l.set a m s v d).state, .pair (l.set a m s v d).answer)
  | get s => ((l.get a s).state, .value (l.get a s).answer)
  | modify s f => ((l.modify a s f).state, .value (l.modify a s f).answer)
  | clear s => ((l.clear a s).state, .pair (l.clear a s).answer)

/-- What an access does to a list once the allocator has been asked. -/
def act (l : SlotList α δ) : Access α δ → SlotList α δ × Yield α δ
  | set m s v d =>
    ((l.put m s.index ⟨some v, d⟩).state, .pair (l.put m s.index ⟨some v, d⟩).answer)
  | get s => (l, .value (.ok (l.value? s.index)))
  | modify s f => (l.alter f s.index, .value (.ok ((l.alter f s.index).value? s.index)))
  | clear s => ((l.take s.index).1, .pair (.ok (l.take s.index).2))

def refused : Access α δ → Yield α δ
  | set _ s _ _ => .pair (.error (.refusal (.used s)))
  | get s => .value (.error (.refusal (.used s)))
  | modify s _ => .value (.error (.refusal (.used s)))
  | clear s => .pair (.error (.refusal (.used s)))

variable {a : Allocator} {x : Access α δ}

theorem call_of_isLive (h : a.isLive x.slot = true) (l : SlotList α δ) :
    x.call a l = x.act l := by
  cases x
  all_goals
    simp only [slot] at h
    simp only [call, SlotList.set, SlotList.get, SlotList.modify, SlotList.clear,
      SlotList.guarded, if_pos h, act]

/-- Once the check is over, an access is refused no more. -/
theorem refusal?_act (l : SlotList α δ) (x : Access α δ) : (x.act l).2.refusal? = none := by
  cases x with
  | set m s v d =>
    rcases l.growTo_answer m (s.index + 1) with h | ⟨e, h⟩
    all_goals
      simp only [act, SlotList.put, h]
      rfl
  | get s | modify s f | clear s => rfl

end Access

/-! ## Clients -/

/-- What a client asks for or does. -/
inductive Move (κ α δ : Type) where
  | ask (q : Allocator.Request)
  | access (k : κ) (x : Access α δ)
  /-- Empties one of its lists. The destructors that run then are told to the client, and what they
  do is up to its program. -/
  | destroy (k : κ)

/-- What a client is told. -/
inductive Entry (κ α δ : Type) where
  | asked (q : Allocator.Request) (r : Allocator.Response)
  | accessed (k : κ) (x : Access α δ) (y : Access.Yield α δ)
  | destroyed (k : κ) (armed : List (Armed α δ))

/-- What a client does next, if anything, by what it has been told. -/
abbrev Program (κ α δ : Type) := List (Entry κ α δ) → Option (Move κ α δ)

def Entry.asked? {κ α δ : Type} : Entry κ α δ → Option (Allocator.Request × Allocator.Response)
  | asked q r => some (q, r)
  | _ => none

/-- The slots that a client was issued and has not freed since, by what it has been told. -/
def holding {κ α δ : Type} (transcript : List (Entry κ α δ)) : Finset Slot :=
  Allocator.liveAfter (transcript.filterMap Entry.asked?)

structure Client (κ α δ : Type) where
  /-- What the client has been told, in order. -/
  transcript : List (Entry κ α δ) := []
  lists : κ → SlotList α δ
  /-- An access whose slot was found live, and which has still to act. -/
  pending : Option (κ × Access α δ) := none

namespace Client

variable {κ α δ : Type}

def held (c : Client κ α δ) : Finset Slot := holding c.transcript

/-- The client when it has been told one more thing. -/
def told (c : Client κ α δ) (e : Entry κ α δ) : Client κ α δ :=
  { c with transcript := c.transcript ++ [e] }

variable [DecidableEq κ]

def putList (c : Client κ α δ) (k : κ) (l : SlotList α δ) : Client κ α δ :=
  { c with lists := Function.update c.lists k l }

/-- The allocator and a client after a turn of the client. -/
def turn (p : Program κ α δ) (a : Allocator) (c : Client κ α δ) : Allocator × Client κ α δ :=
  match c.pending with
  | some (k, x) =>
    let y := x.act (c.lists k)
    (a, { (c.putList k y.1).told (.accessed k x y.2) with pending := none })
  | none =>
    match p c.transcript with
    | none => (a, c)
    | some (.ask q) => ((a.serve q).1, c.told (.asked q (a.serve q).2))
    | some (.access k x) =>
      if a.isLive x.slot then (a, { c with pending := some (k, x) })
      else (a, c.told (.accessed k x x.refused))
    | some (.destroy k) =>
      (a, (c.putList k (c.lists k).emptied).told (.destroyed k (c.lists k).armed))

end Client

/-! ## Schedules -/

/-- An allocator, and the clients that share it. -/
structure Commons (ι κ α δ : Type) where
  allocator : Allocator
  clients : ι → Client κ α δ

namespace Commons

variable {ι κ α δ : Type}

/-- A new allocator, and clients that have been told nothing. -/
def opening (limit : Option Nat) (lists : ι → κ → SlotList α δ) : Commons ι κ α δ where
  allocator := (Allocator.empty limit).1
  clients i := { lists := lists i }

variable [DecidableEq ι] [DecidableEq κ]

/-- A turn of one of the clients. -/
def step (programs : ι → Program κ α δ) (c : Commons ι κ α δ) (i : ι) : Commons ι κ α δ :=
  let t := (c.clients i).turn (programs i) c.allocator
  ⟨t.1, Function.update c.clients i t.2⟩

def run (programs : ι → Program κ α δ) (c : Commons ι κ α δ) (schedule : List ι) :
    Commons ι κ α δ :=
  schedule.foldl (step programs) c

end Commons

end SlotStore
