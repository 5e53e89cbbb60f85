import SlotStore.Proofs.SlotList.Storing

/-!
# A list among allocators

A bench has one list and any number of allocators. Requests go to either in any order, and every
request to the list may name any of the allocators. What the list stores can be read off the
transcript alone, from the requests that store, change or remove something and succeed
(`contentsAfter`): what allocators issue and free does not matter to it.

`bench_refines_contents` says that the list answers from that map, and asks the allocator only
whether it answers at all.
-/

namespace SlotStore

/-- One list, and allocators. -/
structure Bench (ι α δ : Type) where
  allocators : ι → Allocator
  list : SlotList α δ

namespace Bench

inductive Request (ι α δ : Type) where
  | allocate (i : ι) (m : Memory)
  | free (i : ι) (s : Slot)
  | set (i : ι) (m : Memory) (s : Slot) (v : α) (d : Option δ)
  | get (i : ι) (s : Slot)
  | modify (i : ι) (s : Slot) (f : α → α)
  | clear (i : ι) (s : Slot)
  | destroy

/-- What a bench says to a request. -/
inductive Response (α δ : Type) where
  | slot (answer : Except Fault Slot)
  | freed (answer : Except Fault Unit)
  | value (answer : Except Fault (Option α))
  | pair (answer : Except Fault (Pair α δ))
  | destroyed (armed : List (Armed α δ))

variable {ι α δ : Type}

/-! ## What is stored -/

/-- What is stored after one more request. -/
def contentsWith (c : Contents α δ) : Request ι α δ × Response α δ → Contents α δ
  | (.set _ _ s v d, .pair (.ok _)) => Function.update c s (some (v, d))
  | (.modify _ s f, .value (.ok _)) => Function.update c s ((c s).map fun x => (f x.1, x.2))
  | (.clear _ s, .pair (.ok _)) => Function.update c s none
  | (.destroy, _) => fun _ => none
  | _ => c

/-- What a transcript shows to be stored. -/
def contentsAfter (transcript : List (Request ι α δ × Response α δ)) : Contents α δ :=
  transcript.foldl contentsWith fun _ => none

def Request.touches (s : Slot) : Request ι α δ → Prop
  | .set _ _ t _ _ => t = s
  | .modify _ t _ => t = s
  | .clear _ t => t = s
  | .destroy => True
  | _ => False

def Request.destroys : Request ι α δ → Bool
  | .destroy => true
  | _ => false

/-- The slot under which a request stored something, if it did. -/
def stored? : Request ι α δ × Response α δ → Option Slot
  | (.set _ _ s _ _, .pair (.ok _)) => some s
  | _ => none

theorem contentsWith_cases (c : Contents α δ) (q : Request ι α δ) (r : Response α δ) :
    (∃ t x, q.touches t ∧ contentsWith c (q, r) = Function.update c t x) ∨
      q = .destroy ∨ contentsWith c (q, r) = c := by
  cases q with
  | allocate i m => exact Or.inr (Or.inr rfl)
  | free i s => exact Or.inr (Or.inr rfl)
  | get i s => exact Or.inr (Or.inr rfl)
  | destroy => exact Or.inr (Or.inl rfl)
  | set i m s v d =>
    rcases r with _ | _ | _ | (_ | _) | _
    case pair.ok => exact Or.inl ⟨s, _, rfl, rfl⟩
    all_goals exact Or.inr (Or.inr rfl)
  | modify i s f =>
    rcases r with _ | _ | (_ | _) | _ | _
    case value.ok => exact Or.inl ⟨s, _, rfl, rfl⟩
    all_goals exact Or.inr (Or.inr rfl)
  | clear i s =>
    rcases r with _ | _ | _ | (_ | _) | _
    case pair.ok => exact Or.inl ⟨s, _, rfl, rfl⟩
    all_goals exact Or.inr (Or.inr rfl)

theorem contentsWith_apply {c : Contents α δ} {q : Request ι α δ} {s : Slot}
    (hq : ¬ q.touches s) (r : Response α δ) : contentsWith c (q, r) s = c s := by
  rcases contentsWith_cases c q r with ⟨t, x, ht, hc⟩ | rfl | hc
  · have hne : s ≠ t := by
      rintro rfl
      exact hq ht
    rw [hc, Function.update_of_ne hne]
  · exact absurd trivial hq
  · rw [hc]

/-! ## Serving -/

variable [DecidableEq ι]

/-- The bench after a request, and its response. A destruction says what it has to run. -/
def serve (b : Bench ι α δ) : Request ι α δ → Bench ι α δ × Response α δ
  | .allocate i m =>
    let o := (b.allocators i).allocate m
    ({ b with allocators := Function.update b.allocators i o.state }, .slot o.answer)
  | .free i s =>
    let o := (b.allocators i).free s
    ({ b with allocators := Function.update b.allocators i o.state }, .freed o.answer)
  | .set i m s v d =>
    let o := b.list.set (b.allocators i) m s v d
    ({ b with list := o.state }, .pair o.answer)
  | .get i s =>
    let o := b.list.get (b.allocators i) s
    ({ b with list := o.state }, .value o.answer)
  | .modify i s f =>
    let o := b.list.modify (b.allocators i) s f
    ({ b with list := o.state }, .value o.answer)
  | .clear i s =>
    let o := b.list.clear (b.allocators i) s
    ({ b with list := o.state }, .pair o.answer)
  | .destroy => ({ b with list := b.list.emptied }, .destroyed b.list.armed)

def run (b : Bench ι α δ) :
    List (Request ι α δ) → Bench ι α δ × List (Request ι α δ × Response α δ)
  | [] => (b, [])
  | q :: requests =>
    let rest := (b.serve q).1.run requests
    (rest.1, (q, (b.serve q).2) :: rest.2)

section

variable {b : Bench ι α δ} {c : Contents α δ}

/-! ## Responses -/

theorem response_get (h : b.list.Holds c) (i : ι) (s : Slot) :
    (b.serve (.get i s)).2 = .value (if (b.allocators i).isLive s then .ok ((c s).map Prod.fst)
      else .error (.refusal (.used s))) := by
  show Response.value (b.list.get (b.allocators i) s).answer = _
  rw [SlotList.get, SlotList.guarded]
  split
  · rw [SlotList.value?_eq h]
  · rfl

theorem response_modify (h : b.list.Holds c) (i : ι) (s : Slot) (f : α → α) :
    (b.serve (.modify i s f)).2 =
      .value (if (b.allocators i).isLive s then .ok ((c s).map fun x => f x.1)
        else .error (.refusal (.used s))) := by
  show Response.value (b.list.modify (b.allocators i) s f).answer = _
  rw [SlotList.modify, SlotList.guarded]
  split
  · rw [SlotList.value?_eq (SlotList.holds_alter h s f), Function.update_self, Option.map_map]
    rfl
  · rfl

theorem response_clear (h : b.list.Holds c) (i : ι) (s : Slot) :
    (b.serve (.clear i s)).2 =
      .pair (if (b.allocators i).isLive s then .ok (Contents.pairOf (c s))
        else .error (.refusal (.used s))) := by
  show Response.pair (b.list.clear (b.allocators i) s).answer = _
  rw [SlotList.clear, SlotList.guarded]
  split
  · rw [SlotList.take, h s]
  · rfl

theorem response_set (h : b.list.Holds c) (hw : b.list.Within) (i : ι) (m : Memory) (s : Slot)
    (v : α) (d : Option δ) :
    (b.serve (.set i m s v d)).2 =
      .pair ((SlotList.verdict b.list.limit b.list.length (b.allocators i) m s).map
        fun _ => Contents.pairOf (c s)) := by
  show Response.pair (b.list.set (b.allocators i) m s v d).answer = _
  rcases SlotList.set_cases hw (b.allocators i) m s v d with ⟨hv, events, he⟩ | ⟨f, hv, he⟩
  · rw [hv, he, h s]
    rfl
  · rw [hv, he]
    rfl

/-! ## Runs -/

/-- One request changes what is stored as its response says. -/
theorem holds_serve (h : b.list.Holds c) (q : Request ι α δ) :
    (b.serve q).1.list.Holds (contentsWith c (q, (b.serve q).2)) := by
  cases q with
  | allocate i m => exact h
  | free i s => exact h
  | get i s =>
    have hlist : (b.serve (.get i s)).1.list = b.list := by
      show (b.list.get (b.allocators i) s).state = b.list
      rw [SlotList.get, SlotList.guarded]
      split <;> rfl
    rw [hlist]
    exact h
  | set i m s v d =>
    show (b.list.set (b.allocators i) m s v d).state.Holds
      (contentsWith c (.set i m s v d, .pair (b.list.set (b.allocators i) m s v d).answer))
    rw [SlotList.set, SlotList.guarded]
    split
    · rcases SlotList.holds_put h m s v d with ⟨hok, hs⟩ | ⟨⟨e, he⟩, hs⟩
      · rw [hok]
        exact hs
      · rw [he]
        exact hs
    · exact h
  | modify i s f =>
    show (b.list.modify (b.allocators i) s f).state.Holds
      (contentsWith c (.modify i s f, .value (b.list.modify (b.allocators i) s f).answer))
    rw [SlotList.modify, SlotList.guarded]
    split
    · exact SlotList.holds_alter h s f
    · exact h
  | clear i s =>
    show (b.list.clear (b.allocators i) s).state.Holds
      (contentsWith c (.clear i s, .pair (b.list.clear (b.allocators i) s).answer))
    rw [SlotList.clear, SlotList.guarded]
    split
    · exact SlotList.holds_take h s
    · exact h
  | destroy => exact SlotList.holds_emptied b.list

theorem holds_run (h : b.list.Holds c) (requests : List (Request ι α δ)) :
    (b.run requests).1.list.Holds ((b.run requests).2.foldl contentsWith c) := by
  induction requests generalizing b c with
  | nil => exact h
  | cons q requests ih => exact ih (holds_serve h q)

/-- All that a request can do to the list: empty it, store a pair below the limit, or exchange a
pair at most. -/
theorem list_serve (hw : b.list.Within) (q : Request ι α δ) :
    (q.destroys = true ∧ (b.serve q).1.list = b.list.emptied) ∨
    (q.destroys = false ∧ ∃ s p, stored? (q, (b.serve q).2) = some s ∧
      (∀ n, b.list.limit = some n → s.index < n) ∧
      (b.serve q).1.list = b.list.stored s.index p) ∨
    (q.destroys = false ∧ stored? (q, (b.serve q).2) = none ∧
      ((b.serve q).1.list = b.list ∨ ∃ i p, (b.serve q).1.list = b.list.exchange i p)) := by
  cases q with
  | allocate i m => exact Or.inr (Or.inr ⟨rfl, rfl, Or.inl rfl⟩)
  | free i s => exact Or.inr (Or.inr ⟨rfl, rfl, Or.inl rfl⟩)
  | destroy => exact Or.inl ⟨rfl, rfl⟩
  | get i s =>
    refine Or.inr (Or.inr ⟨rfl, rfl, Or.inl ?_⟩)
    show (b.list.get (b.allocators i) s).state = b.list
    rw [SlotList.get, SlotList.guarded]
    split <;> rfl
  | modify i s f =>
    refine Or.inr (Or.inr ⟨rfl, rfl, ?_⟩)
    show (b.list.modify (b.allocators i) s f).state = b.list ∨ _
    rw [serve, SlotList.modify, SlotList.guarded]
    split
    · exact Or.inr ⟨_, _, rfl⟩
    · exact Or.inl rfl
  | clear i s =>
    refine Or.inr (Or.inr ⟨rfl, rfl, ?_⟩)
    show (b.list.clear (b.allocators i) s).state = b.list ∨ _
    rw [serve, SlotList.clear, SlotList.guarded]
    split
    · exact Or.inr ⟨_, _, rfl⟩
    · exact Or.inl rfl
  | set i m s v d =>
    right
    rcases SlotList.set_cases hw (b.allocators i) m s v d with ⟨hv, events, he⟩ | ⟨f, hv, he⟩
    · refine Or.inl ⟨rfl, s, ⟨some v, d⟩, ?_, fun n hn => ?_, congrArg Outcome.state he⟩
      · rw [serve, he]
        rfl
      · rw [hn] at hv
        exact SlotList.lt_of_verdict hv
    · refine Or.inr ⟨rfl, ?_, Or.inl (congrArg Outcome.state he)⟩
      rw [serve, he]
      rfl

theorem within_serve (hw : b.list.Within) (q : Request ι α δ) :
    (b.serve q).1.list.limit = b.list.limit ∧ (b.serve q).1.list.Within := by
  rcases list_serve hw q with ⟨-, he⟩ | ⟨-, s, p, -, hroom, he⟩ | ⟨-, -, he | ⟨i, p, he⟩⟩
  · rw [he]
    exact ⟨rfl, fun n _ => Nat.zero_le n⟩
  · rw [he]
    refine ⟨rfl, fun n hn => ?_⟩
    have hlength := b.list.length_stored s.index p
    have hlimit := hw n hn
    have hindex := hroom n hn
    omega
  · rw [he]
    exact ⟨rfl, hw⟩
  · rw [he]
    exact ⟨rfl, fun n hn => (b.list.length_exchange i p).symm ▸ hw n hn⟩

theorem within_run (hw : b.list.Within) (requests : List (Request ι α δ)) :
    (b.run requests).1.list.limit = b.list.limit ∧ (b.run requests).1.list.Within := by
  induction requests generalizing b with
  | nil => exact ⟨rfl, hw⟩
  | cons q requests ih =>
    obtain ⟨hlimit, hw'⟩ := within_serve hw q
    obtain ⟨hlimit', hw''⟩ := ih hw'
    exact ⟨hlimit'.trans hlimit, hw''⟩

theorem run_append (b : Bench ι α δ) (requests later : List (Request ι α δ)) :
    b.run (requests ++ later) =
      (((b.run requests).1.run later).1, (b.run requests).2 ++ ((b.run requests).1.run later).2) := by
  induction requests generalizing b with
  | nil => rfl
  | cons q requests ih =>
    rw [List.cons_append, run, ih]
    rfl

theorem contents_untouched {s : Slot} (b : Bench ι α δ) (c : Contents α δ)
    (requests : List (Request ι α δ)) (h : ∀ q ∈ requests, ¬ q.touches s) :
    (b.run requests).2.foldl contentsWith c s = c s := by
  induction requests generalizing b c with
  | nil => rfl
  | cons q requests ih =>
    have hq : ¬ q.touches s := h q (List.mem_cons_self ..)
    have hrest := ih (b.serve q).1 (contentsWith c (q, (b.serve q).2))
      fun q' hq' => h q' (List.mem_cons_of_mem _ hq')
    rw [contentsWith_apply hq] at hrest
    exact hrest

end

/-- **A list is a partial map, guarded by an allocator.** After every run that began with an empty
list, each call on the list is refused exactly if its slot is not live in the allocator that it
names. Otherwise it answers from the map that the transcript shows to be stored: the value, or the
pair that it displaces or removes. Storing a pair can fail besides, at the limit or for want of
memory, as the verdict by the limit and the length of the list says, and succeeds otherwise. A
destruction has to run what the map stores with a destructor, in ascending order. What is stored
under a slot stays there whatever is issued and freed, until a request touches it. -/
theorem bench_refines_contents (allocators : ι → Allocator) (limit : Option Nat)
    (requests : List (Request ι α δ)) :
    let start : Bench ι α δ := ⟨allocators, { limit := limit }⟩
    let b := (start.run requests).1
    let c := contentsAfter (start.run requests).2
    (∀ i s, (b.serve (.get i s)).2 =
      .value (if (b.allocators i).isLive s then .ok ((c s).map Prod.fst)
        else .error (.refusal (.used s)))) ∧
    (∀ i s f, (b.serve (.modify i s f)).2 =
      .value (if (b.allocators i).isLive s then .ok ((c s).map fun x => f x.1)
        else .error (.refusal (.used s)))) ∧
    (∀ i s, (b.serve (.clear i s)).2 =
      .pair (if (b.allocators i).isLive s then .ok (Contents.pairOf (c s))
        else .error (.refusal (.used s)))) ∧
    (∀ i m s v d, if (b.allocators i).isLive s then
        (b.serve (.set i m s v d)).2 = .pair (.ok (Contents.pairOf (c s))) ∨
          ∃ e, (b.serve (.set i m s v d)).2 = .pair (.error (.error e))
      else (b.serve (.set i m s v d)).2 = .pair (.error (.refusal (.used s)))) ∧
    (∀ i m s v d, (b.serve (.set i m s v d)).2 =
      .pair ((SlotList.verdict limit b.list.length (b.allocators i) m s).map
        fun _ => Contents.pairOf (c s))) ∧
    (∃ armed, (b.serve .destroy).2 = .destroyed armed ∧
      (armed.Pairwise fun e f => e.slot < f.slot) ∧
      ∀ e, e ∈ armed ↔ c e.slot = some (e.value, some e.destructor)) ∧
    ∀ s later, (∀ q ∈ later, ¬ q.touches s) →
      let b' := (start.run (requests ++ later)).1
      contentsAfter (start.run (requests ++ later)).2 s = c s ∧
      (∀ i, (b'.allocators i).isLive s = true →
        (b'.serve (.get i s)).2 = .value (.ok ((c s).map Prod.fst)) ∧
        (b'.serve (.clear i s)).2 = .pair (.ok (Contents.pairOf (c s)))) ∧
      ∀ v d, c s = some (v, some d) →
        ∃ armed, (b'.serve .destroy).2 = .destroyed armed ∧ ⟨s, v, d⟩ ∈ armed := by
  intro start b c
  have hstart : start.list.Holds fun _ => none := SlotList.holds_new limit
  have h : b.list.Holds c := holds_run hstart requests
  have hnew : start.list.Within := SlotList.within_new limit
  obtain ⟨hlimit, hw⟩ := within_run hnew requests
  have hset : ∀ i m s v d, (b.serve (.set i m s v d)).2 =
      .pair ((SlotList.verdict limit b.list.length (b.allocators i) m s).map
        fun _ => Contents.pairOf (c s)) := by
    intro i m s v d
    rw [response_set h hw, hlimit]
  refine ⟨response_get h, response_modify h, response_clear h, fun i m s v d => ?_, hset,
    ⟨b.list.armed, rfl, b.list.armed_ascending, SlotList.mem_armed_iff h⟩, ?_⟩
  · rw [hset]
    split
    next hs =>
      rcases SlotList.verdict_of_isLive limit b.list.length m hs with hv | ⟨e, hv⟩
      · exact Or.inl (by rw [hv]; rfl)
      · exact Or.inr ⟨e, by rw [hv]; rfl⟩
    next hs => rw [SlotList.verdict, if_neg hs]; rfl
  intro s later hlater b'
  have hs : contentsAfter (start.run (requests ++ later)).2 s = c s := by
    rw [contentsAfter, run_append, List.foldl_append]
    exact contents_untouched b c later hlater
  have h' : b'.list.Holds (contentsAfter (start.run (requests ++ later)).2) :=
    holds_run hstart (requests ++ later)
  refine ⟨hs, ?_, ?_⟩
  · intro i hi
    rw [response_get h', response_clear h', hs, if_pos hi, if_pos hi]
    exact ⟨rfl, rfl⟩
  · intro v d hc
    refine ⟨b'.list.armed, rfl, (SlotList.mem_armed_iff h' _).mpr ?_⟩
    rw [hs, hc]

end Bench

end SlotStore
