import SlotStore.Proofs.Session.Failure
import SlotStore.Proofs.SlotList.Contents

/-!
# Slots of one list

Two runs are compared that differ in the calls at other slots of a list. Their lists have different
lengths and contents, but the same limit, the same pair under the slot, and no more entries than
that limit allows (`SlotList.Twins`). Then growing succeeds for both or for neither, so the calls at
the slot cannot tell the two apart.

`slots_do_not_interfere` says so of whole runs, and of what each destruction runs under the slot.
-/

namespace SlotStore

section

variable {α : Type}

/-- A destructor that makes no calls of its own and does not panic. -/
def Destructor.Quiet (d : Destructor α) : Prop := d.script = [] ∧ d.panic = none

def Pair.Quiet (p : Pair α (Destructor α)) : Prop := ∀ d, p.destructor = some d → d.Quiet

theorem Pair.quiet_empty : ({} : Pair α (Destructor α)).Quiet := nofun

/-- What a destruction notes of a pair whose destructor is quiet. -/
def Pair.settled (p : Pair α (Destructor α)) : Note α :=
  match p.runnable? with
  | none => .dropped p .inert
  | some (v, d) => .ran v d []

theorem Pair.run?_settled (p : Pair α (Destructor α)) : p.settled.run? = p.runnable? := by
  rw [Pair.settled]
  cases p.runnable? <;> rfl

/-! ## Lists that agree at a position -/

namespace SlotList

variable {l l' l'' k k' : SlotList α (Destructor α)} {i j : Nat} {p : Pair α (Destructor α)}

/-- A list is within its limit and stores quiet destructors only. -/
structure Tame (l : SlotList α (Destructor α)) : Prop where
  within : ∀ n, l.limit = some n → l.length ≤ n
  quiet : ∀ i, (l.pairAt i).Quiet

/-- A list changes at one position at most, whatever it grows. -/
structure ChangesAt (i : Nat) (l l' : SlotList α (Destructor α)) : Prop where
  limit : l'.limit = l.limit
  others : ∀ j, j ≠ i → l'.pairAt j = l.pairAt j
  tame : l'.Tame

/-- Two lists of one limit store the same pair at a position. -/
structure Twins (i : Nat) (l k : SlotList α (Destructor α)) : Prop where
  limit : l.limit = k.limit
  pair : l.pairAt i = k.pairAt i
  left : l.Tame
  right : k.Tame

theorem tame_new (limit : Option Nat) : ({ limit := limit } : SlotList α (Destructor α)).Tame :=
  ⟨fun n _ => Nat.zero_le n, fun _ => Pair.quiet_empty⟩

theorem ChangesAt.trans (h : ChangesAt i l l') (h' : ChangesAt i l' l'') : ChangesAt i l l'' :=
  ⟨h'.limit.trans h.limit, fun j hj => (h'.others j hj).trans (h.others j hj), h'.tame⟩

theorem Twins.beside (h : Twins i l k) (hj : i ≠ j) (hl : ChangesAt j l l') : Twins i l' k :=
  ⟨hl.limit.trans h.limit, (hl.others i hj).trans h.pair, hl.tame, h.right⟩

theorem Twins.both (h : Twins i l k) (hl : ChangesAt i l l') (hk : ChangesAt i k k')
    (hp : l'.pairAt i = k'.pairAt i) : Twins i l' k' :=
  ⟨hl.limit.trans (h.limit.trans hk.limit.symm), hp, hl.tame, hk.tame⟩

/-! ### Changes -/

theorem changesAt_self (h : l.Tame) (i : Nat) : ChangesAt i l l := ⟨rfl, fun _ _ => rfl, h⟩

theorem changesAt_exchange (h : l.Tame) (hp : p.Quiet) (i : Nat) :
    ChangesAt i l (l.exchange i p) where
  limit := rfl
  others _ hj := pairAt_exchange_of_ne (Ne.symm hj) p
  tame := by
    refine ⟨fun n hn => ?_, fun j => ?_⟩
    · rw [length, exchange, List.length_set]
      exact h.within n hn
    · by_cases hj : j = i
      · subst hj
        by_cases hlt : j < l.length
        · rw [pairAt_exchange_self (Or.inl hlt)]
          exact hp
        · have hlen : (l.exchange j p).length ≤ j := by
            rw [length, exchange, List.length_set]
            exact Nat.le_of_not_lt hlt
          rw [pairAt_of_length_le hlen]
          exact Pair.quiet_empty
      · rw [pairAt_exchange_of_ne (Ne.symm hj)]
        exact h.quiet j

theorem changesAt_growTo (h : l.Tame) (m : Memory) (n i : Nat) :
    ChangesAt i l (l.growTo m n).state := by
  rcases growTo_cases m n l with ⟨_, he⟩ | ⟨_, _, _, _, he⟩ | ⟨hlt, hroom, _, he⟩ | ⟨_, _, _, he⟩
  · rw [he]
    exact changesAt_self h i
  · rw [he]
    exact changesAt_self h i
  · rw [he]
    have hpair := pairAt_lengthened n l
    refine ⟨rfl, fun j _ => hpair j, fun limit hlimit => ?_, fun j => by rw [hpair]; exact h.quiet j⟩
    rw [length_lengthened, Nat.max_eq_right (Nat.le_of_lt hlt)]
    exact hroom limit hlimit
  · rw [he]
    exact changesAt_self h i

theorem changesAt_put (h : l.Tame) (hp : p.Quiet) (m : Memory) (i : Nat) :
    ChangesAt i l (l.put m i p).state := by
  have hgrown := changesAt_growTo h m (i + 1) i
  simp only [put]
  split
  · exact hgrown
  · exact hgrown.trans (changesAt_exchange hgrown.tame hp i)

theorem changesAt_alter (h : l.Tame) (f : α → α) (i : Nat) : ChangesAt i l (l.alter f i) :=
  changesAt_exchange h (p := { l.pairAt i with value := (l.value? i).map f }) (h.quiet i) i

theorem changesAt_guarded {ρ : Type} {a : Allocator} {s : Slot}
    {call : SlotList α (Destructor α) → Outcome (SlotList α (Destructor α)) ρ} (h : l.Tame)
    (hcall : ChangesAt i l (call l).state) : ChangesAt i l (guarded a s call l).state := by
  unfold guarded
  split
  · exact hcall
  · exact changesAt_self h i

/-! ### The same call on both lists -/

/-- Two calls answer the same and leave twins. -/
def Agree {ρ : Type} (i : Nat) (o o' : Outcome (SlotList α (Destructor α)) ρ) : Prop :=
  o.answer = o'.answer ∧ Twins i o.state o'.state

theorem growTo_ample (h : l.Tame) (n : Nat) :
    (l.growTo .ample n).answer = match l.exceeded n with
      | some limit => .error (.error (.capacityExceeded "slot list" limit))
      | none => .ok () := by
  have hroomy (hroom : ∀ k, l.limit = some k → n ≤ k) : l.exceeded n = none := by
    rw [exceeded, Option.filter_eq_none_iff]
    simpa using hroom
  rcases growTo_cases .ample n l with
    ⟨hn, he⟩ | ⟨k, _, hk, hlt, he⟩ | ⟨_, hroom, _, he⟩ | ⟨_, _, hm, _⟩
  · rw [he, hroomy fun k hk => Nat.le_trans hn (h.within k hk)]
  · rw [he, exceeded, hk, Option.filter_some, if_pos (decide_eq_true hlt)]
    rfl
  · rw [he, hroomy hroom]
  · cases hm

theorem Twins.put (h : Twins i l k) (hp : p.Quiet) :
    Agree i (l.put .ample i p) (k.put .ample i p) := by
  have hl := changesAt_put h.left hp .ample i
  have hk := changesAt_put h.right hp .ample i
  have hanswer : (l.growTo .ample (i + 1)).answer = (k.growTo .ample (i + 1)).answer := by
    rw [growTo_ample h.left, growTo_ample h.right, exceeded, exceeded, h.limit]
  unfold SlotList.put at hl hk ⊢
  cases hg : (k.growTo .ample (i + 1)).answer with
  | error f =>
    rw [hg] at hanswer
    simp only [hanswer, hg] at hl hk ⊢
    exact ⟨rfl, h.both hl hk (by rw [pairAt_growTo, pairAt_growTo, h.pair])⟩
  | ok u =>
    rw [hg] at hanswer
    simp only [hanswer, hg] at hl hk ⊢
    refine ⟨by rw [pairAt_growTo, pairAt_growTo, h.pair], h.both hl hk ?_⟩
    rw [pairAt_exchange_self (Or.inl (length_growTo hanswer)),
      pairAt_exchange_self (Or.inl (length_growTo hg))]

theorem Twins.guarded {ρ : Type} {a : Allocator} {s : Slot}
    {call : SlotList α (Destructor α) → Outcome (SlotList α (Destructor α)) ρ} (h : Twins i l k)
    (hcall : Agree i (call l) (call k)) :
    Agree i (guarded a s call l) (SlotList.guarded a s call k) := by
  unfold SlotList.guarded
  split
  · exact hcall
  · exact ⟨rfl, h⟩

section

variable {s : Slot} (h : Twins s.index l k) (a : Allocator)

include h

theorem Twins.set {v : α} {d : Option (Destructor α)} (hd : ∀ e, d = some e → e.Quiet) :
    Agree s.index (l.set a .ample s v d) (k.set a .ample s v d) :=
  h.guarded (h.put hd)

theorem Twins.get : Agree s.index (l.get a s) (k.get a s) :=
  h.guarded ⟨by rw [value?, value?, h.pair], h⟩

theorem Twins.modify (f : α → α) : Agree s.index (l.modify a s f) (k.modify a s f) := by
  have hpair : (l.alter f s.index).pairAt s.index = (k.alter f s.index).pairAt s.index := by
    rw [pairAt_alter_self, pairAt_alter_self, value?, value?, h.pair]
  exact h.guarded ⟨by rw [value?, value?, hpair],
    h.both (changesAt_alter h.left f _) (changesAt_alter h.right f _) hpair⟩

theorem Twins.clear : Agree s.index (l.clear a s) (k.clear a s) := by
  refine h.guarded ⟨by rw [take, take, h.pair], ?_⟩
  refine h.both (changesAt_exchange h.left Pair.quiet_empty _)
    (changesAt_exchange h.right Pair.quiet_empty _) ?_
  rw [take, take, pairAt_exchange_self (Or.inr rfl), pairAt_exchange_self (Or.inr rfl)]

end

theorem Tame.quiet_of_mem (h : l.Tame) (hp : p ∈ l.entries) : p.Quiet := by
  obtain ⟨i, hi⟩ := List.mem_iff_getElem?.mp hp
  have hq := h.quiet i
  rwa [pairAt, hi] at hq

theorem Twins.emptied (h : Twins i l k) : Twins i l.emptied k.emptied := by
  have hl := tame_new (α := α) l.limit
  have hk := tame_new (α := α) k.limit
  exact ⟨h.limit, rfl, hl, hk⟩

end SlotList

/-! ## Calls on one list and its slots -/

/-- A call on allocators, or a call at a slot of the list that is not denied memory and brings a
quiet destructor if it brings one. -/
def Call.Plain (name : String) : Call α → Prop
  | .set l _ _ _ d _ exhausted => l = name ∧ exhausted = false ∧ ∀ e, d = some e → e.Quiet
  | .get l _ _ | .append l _ _ _ | .clear l _ _ _ => l = name
  | .newAllocator _ _ | .allocate _ _ | .allocateUpTo _ _ _ | .allocateAll _ _ _ | .free _ _
  | .freeEach _ _ | .freeAll _ _ | .isLive _ _ | .liveBelow _ _ | .counts _ | .stats _
  | .showAllocator _ => True
  | _ => False

def Call.slot? : Call α → Option Slot
  | .set _ _ s _ _ _ _ | .get _ _ s | .append _ _ s _ | .clear _ _ s _ => some s
  | _ => none

/-- Whether a step does not use a list, or uses it at this slot. -/
def Step.concerns (s : Slot) (x : Step α) : Bool := x.call.slot?.all (· = s)

/-- What a destruction runs under a slot: its journal has an event, and then a note for each entry
in turn. -/
def Answer.ranAt (s : Slot) (a : Answer α) : Option (α × Destructor α) :=
  a.journal[s.index + 1]?.bind Note.run?

/-- What a step shows of a slot: the reply to its call and, if it destroys a list, what runs under
the slot. -/
def shownAt (s : Slot) (x : Step α × Answer α) : Call α × Reply α × Option (α × Destructor α) :=
  (x.1.call, x.2.summary.reply, match x.1.call with
    | .destroy _ => x.2.ranAt s
    | _ => none)

namespace Session

/-! ## Sessions that agree at a slot -/

/-- Two sessions have the same allocators, and lists that agree at a slot. -/
structure Twins (name : String) (s : Slot) (σ τ : Session α) : Prop where
  allocators : σ.allocators.Alike τ.allocators
  lists : ∃ l k, σ.lists.find? name = some l ∧ τ.lists.find? name = some k ∧
    SlotList.Twins s.index l k

/-- Two calls are over, with the same reply. -/
def OverAlike (name : String) (s : Slot) (t u : Stage α) : Prop :=
  Twins name s t.session u.session ∧ ∃ r, t.work = .done r ∧ u.work = .done r

/-- A call is over, and another session is still a twin. -/
def OverBeside (name : String) (s : Slot) (τ : Session α) (t : Stage α) : Prop :=
  Twins name s t.session τ ∧ ∃ r, t.work = .done r

section

variable {name : String} {s : Slot} {σ τ : Session α} (h : Twins name s σ τ)

include h

theorem Twins.putAllocator (other : String) (a : Allocator) :
    Twins name s (σ.putAllocator other a) (τ.putAllocator other a) :=
  ⟨h.allocators.put other a, h.lists⟩

theorem Twins.reply (r : Reply α) : OverAlike name s (σ.reply r) (τ.reply r) := ⟨h, r, rfl, rfl⟩

theorem overAlike_withAllocator {other : String} {ps : List (Pair α (Destructor α))}
    {f g : Allocator → Stage α} (hf : ∀ a, OverAlike name s (f a) (g a)) :
    OverAlike name s (σ.withAllocator other ps f) (τ.withAllocator other ps g) := by
  rw [withAllocator, withAllocator, h.allocators other]
  cases τ.allocators.find? other with
  | none => exact ⟨h, _, rfl, rfl⟩
  | some a => exact hf a

theorem overAlike_withList {ps : List (Pair α (Destructor α))}
    {f g : SlotList α (Destructor α) → Session α → Stage α}
    (hf : ∀ l k, SlotList.Twins s.index l k →
      OverAlike name s (f l (σ.away name)) (g k (τ.away name))) :
    OverAlike name s (σ.withList name ps f) (τ.withList name ps g) := by
  obtain ⟨l, k, hl, hk, hlk⟩ := h.lists
  rw [withList, withList, takeList?_of_find? hl, takeList?_of_find? hk]
  exact hf l k hlk

end

theorem twins_putList {name : String} {s : Slot} {σ τ : Session α} {l k : SlotList α (Destructor α)}
    (h : σ.allocators.Alike τ.allocators) (hlk : SlotList.Twins s.index l k) :
    Twins name s (σ.putList name l) (τ.putList name k) :=
  ⟨h, l, k, Named.find?_put_self .., Named.find?_put_self .., hlk⟩

theorem twins_putList_beside {name : String} {s : Slot} {σ τ : Session α}
    {l k : SlotList α (Destructor α)} (h : σ.allocators.Alike τ.allocators)
    (hk : τ.lists.find? name = some k) (hlk : SlotList.Twins s.index l k) :
    Twins name s (σ.putList name l) τ :=
  ⟨h, l, k, Named.find?_put_self .., hk, hlk⟩

theorem allocators_keep (σ : Session α) (hold : Option String) (p : Pair α (Destructor α)) :
    (σ.keep hold p).1.allocators = σ.allocators := by
  cases hold <;> rfl

section

variable {name : String} {s : Slot} {σ τ : Session α} (h : Twins name s σ τ)

include h

theorem overAlike_afterList {ρ : Type} {o o' : Outcome (SlotList α (Destructor α)) ρ}
    {reply : ρ → Reply α} (ho : SlotList.Agree s.index o o') :
    OverAlike name s ((σ.away name).afterList name o reply)
      ((τ.away name).afterList name o' reply) := by
  obtain ⟨hanswer, hstate⟩ := ho
  rw [afterList, afterList, hanswer]
  exact ⟨twins_putList h.allocators hstate, _, rfl, rfl⟩

theorem overAlike_afterExchange {hold : Option String} {ps : List (Pair α (Destructor α))}
    {o o' : Outcome (SlotList α (Destructor α)) (Pair α (Destructor α))}
    (ho : SlotList.Agree s.index o o') :
    OverAlike name s ((σ.away name).afterExchange name hold ps o)
      ((τ.away name).afterExchange name hold ps o') := by
  obtain ⟨hanswer, hstate⟩ := ho
  rw [afterExchange, afterExchange, hanswer]
  cases o'.answer with
  | error f => exact ⟨twins_putList h.allocators hstate, _, rfl, rfl⟩
  | ok p =>
    refine ⟨twins_putList ?_ hstate, _, rfl, rfl⟩
    rw [allocators_keep, allocators_keep]
    exact h.allocators

theorem overBeside_withAllocator {other : String} {ps : List (Pair α (Destructor α))}
    {f : Allocator → Stage α} (hf : ∀ a, OverBeside name s τ (f a)) :
    OverBeside name s τ (σ.withAllocator other ps f) := by
  unfold withAllocator
  split
  · exact ⟨h, _, rfl⟩
  next a _ => exact hf a

theorem overBeside_withList {ps : List (Pair α (Destructor α))}
    {f : SlotList α (Destructor α) → Session α → Stage α}
    (hf : ∀ l k, τ.lists.find? name = some k → SlotList.Twins s.index l k →
      OverBeside name s τ (f l (σ.away name))) :
    OverBeside name s τ (σ.withList name ps f) := by
  obtain ⟨l, k, hl, hk, hlk⟩ := h.lists
  rw [withList, takeList?_of_find? hl]
  exact hf l k hk hlk

theorem overBeside_afterList {ρ : Type} {o : Outcome (SlotList α (Destructor α)) ρ}
    {reply : ρ → Reply α} {k : SlotList α (Destructor α)} (hk : τ.lists.find? name = some k)
    (ho : SlotList.Twins s.index o.state k) :
    OverBeside name s τ ((σ.away name).afterList name o reply) :=
  ⟨twins_putList_beside h.allocators hk ho, _, rfl⟩

theorem overBeside_afterExchange {hold : Option String} {ps : List (Pair α (Destructor α))}
    {o : Outcome (SlotList α (Destructor α)) (Pair α (Destructor α))}
    {k : SlotList α (Destructor α)} (hk : τ.lists.find? name = some k)
    (ho : SlotList.Twins s.index o.state k) :
    OverBeside name s τ ((σ.away name).afterExchange name hold ps o) := by
  unfold afterExchange
  split
  next p _ =>
    refine ⟨twins_putList_beside ?_ hk ho, _, rfl⟩
    rw [allocators_keep]
    exact h.allocators
  · exact ⟨twins_putList_beside h.allocators hk ho, _, rfl⟩

end

end Session

end

namespace Session

variable {α : Type} [HAppend α String α] {name : String} {s : Slot} {σ τ : Session α}

/-! ## Calls -/

theorem start_overAlike (h : Twins name s σ τ) {c : Call α} (hc : c.Plain name)
    (hs : ∀ t, c.slot? = some t → t = s) : OverAlike name s (σ.start c) (τ.start c) := by
  cases c
  case set l allocator t v d hold exhausted =>
    obtain ⟨rfl, rfl, hd⟩ := hc
    obtain rfl := hs t rfl
    exact overAlike_withAllocator h fun a => overAlike_withList h fun l k hlk =>
      overAlike_afterExchange h (hlk.set a hd)
  case get l allocator t =>
    obtain rfl : l = name := hc
    obtain rfl := hs t rfl
    exact overAlike_withAllocator h fun a => overAlike_withList h fun l k hlk =>
      overAlike_afterList h (hlk.get a)
  case append l allocator t text =>
    obtain rfl : l = name := hc
    obtain rfl := hs t rfl
    exact overAlike_withAllocator h fun a => overAlike_withList h fun l k hlk =>
      overAlike_afterList h (hlk.modify a _)
  case clear l allocator t hold =>
    obtain rfl : l = name := hc
    obtain rfl := hs t rfl
    exact overAlike_withAllocator h fun a => overAlike_withList h fun l k hlk =>
      overAlike_afterExchange h (hlk.clear a)
  case newAllocator other source =>
    rw [start, start]
    cases (limitsOf source : Except (Reply α) Limits) with
    | error r => exact h.reply r
    | ok limits => exact ⟨h.putAllocator other _, _, rfl, rfl⟩
  case setHeld | newList | destroy | dropList | length | showList | newHeld | showHeld | finalize |
    dropHeld => exact hc.elim
  -- the others concern an allocator alone
  all_goals
    apply overAlike_withAllocator h
    intro a
    first
      | exact ⟨h.putAllocator _ _, _, rfl, rfl⟩
      | exact h.reply _

theorem start_overBeside (h : Twins name s σ τ) {c : Call α} (hc : c.Plain name) {t : Slot}
    (ht : c.slot? = some t) (hne : t ≠ s) : OverBeside name s τ (σ.start c) := by
  have hi : s.index ≠ t.index := fun he => hne (congrArg Slot.mk he).symm
  cases c
  case set l allocator t' v d hold exhausted =>
    obtain ⟨rfl, -, hd⟩ := hc
    cases ht
    refine overBeside_withAllocator h fun a => overBeside_withList h fun l k hk hlk =>
      overBeside_afterExchange h hk (hlk.beside hi ?_)
    have hp : (⟨some v, d⟩ : Pair α (Destructor α)).Quiet := hd
    exact SlotList.changesAt_guarded hlk.left (SlotList.changesAt_put hlk.left hp _ _)
  case get l allocator t' =>
    obtain rfl : l = name := hc
    cases ht
    refine overBeside_withAllocator h fun a => overBeside_withList h fun l k hk hlk =>
      overBeside_afterList h hk (hlk.beside hi ?_)
    exact SlotList.changesAt_guarded hlk.left (SlotList.changesAt_self hlk.left _)
  case append l allocator t' text =>
    obtain rfl : l = name := hc
    cases ht
    refine overBeside_withAllocator h fun a => overBeside_withList h fun l k hk hlk =>
      overBeside_afterList h hk (hlk.beside hi ?_)
    exact SlotList.changesAt_guarded hlk.left (SlotList.changesAt_alter hlk.left _ _)
  case clear l allocator t' hold =>
    obtain rfl : l = name := hc
    cases ht
    refine overBeside_withAllocator h fun a => overBeside_withList h fun l k hk hlk =>
      overBeside_afterExchange h hk (hlk.beside hi ?_)
    exact SlotList.changesAt_guarded hlk.left
      (SlotList.changesAt_exchange hlk.left Pair.quiet_empty _)
  all_goals cases ht

/-! ## Destructions -/

theorem runAll_quiet (σ : Session α) {ps : List (Pair α (Destructor α))}
    (h : ∀ p ∈ ps, p.Quiet) :
    (σ.runAll ps).session = σ ∧ (σ.runAll ps).result = (none, ps.map Pair.settled) := by
  induction ps with
  | nil =>
    rw [runAll_nil_session, runAll_nil_result]
    exact ⟨rfl, rfl⟩
  | cons p ps ih =>
    obtain ⟨hrest, hnotes⟩ := ih fun q hq => h q (List.mem_cons_of_mem _ hq)
    cases hp : p.runnable? with
    | none =>
      obtain ⟨hsession, hpanic, hjournal⟩ := runAll_inert σ hp ps
      rw [hsession, hrest]
      refine ⟨rfl, Prod.ext ?_ ?_⟩
      · rw [hpanic, hnotes]
      · rw [hjournal, hnotes, List.map_cons, Pair.settled, hp]
    | some r =>
      obtain ⟨v, d⟩ := r
      have hd : d.Quiet := h p (List.mem_cons_self ..) d
        (congrArg Pair.destructor (Pair.runnable?_eq_some_iff.mp hp))
      obtain ⟨hsession, hpanic, hjournal⟩ := runAll_ran σ hp hd.2 ps
      rw [hd.1] at hsession hpanic hjournal
      rw [carryOut_nil_session] at hsession hpanic hjournal
      rw [carryOut_nil_result] at hjournal
      rw [hsession, hrest]
      refine ⟨rfl, Prod.ext ?_ ?_⟩
      · rw [hpanic, hnotes]
      · rw [hjournal, hnotes, List.map_cons, Pair.settled, hp]
        rfl

variable (shown : Option String × Option String)

theorem perform_destroy_quiet {l : SlotList α (Destructor α)} (h : σ.lists.find? name = some l)
    (hq : ∀ p ∈ l.entries, p.Quiet) :
    let destroyed := σ.perform (.mk (.destroy name) shown.1 shown.2)
    destroyed.session = σ.putList name l.emptied ∧
    destroyed.result.summary.reply = .done ∧
    destroyed.result.journal = .event (.destroyed l.length) :: l.entries.map Pair.settled := by
  intro destroyed
  obtain ⟨hruns, hresult⟩ := runAll_quiet (σ.away name) hq
  have hnone : ((σ.away name).runAll l.entries).session.lists.find? name = none := by
    rw [hruns]
    exact Named.find?_without_self ..
  obtain ⟨hsession, hreply, hjournal⟩ := (perform_destroy shown h).1 hnone
  rw [afterTeardown, resume_reinstate_session, hruns, putList_away] at hsession
  rw [hresult] at hreply hjournal
  exact ⟨hsession, hreply, hjournal⟩

theorem ranAt_destroy {l : SlotList α (Destructor α)} (h : σ.lists.find? name = some l)
    (hq : ∀ p ∈ l.entries, p.Quiet) (t : Slot) :
    (σ.perform (.mk (.destroy name) shown.1 shown.2)).result.ranAt t =
      (l.pairAt t.index).runnable? := by
  obtain ⟨-, -, hjournal⟩ := perform_destroy_quiet shown h hq
  rw [Answer.ranAt, hjournal, List.getElem?_cons_succ, List.getElem?_map, SlotList.pairAt]
  cases l.entries[t.index]? with
  | none => rfl
  | some p => exact p.run?_settled

/-! ## Runs -/

/-- A step that concerns the slot shows the same of it in twins, and leaves twins. -/
theorem step_alike (h : Twins name s σ τ) {x : Step α}
    (hx : x.call = .destroy name ∨ x.call.Plain name) (hs : x.concerns s = true) :
    Twins name s (σ.perform x).session (τ.perform x).session ∧
      shownAt s (x, (σ.perform x).result) = shownAt s (x, (τ.perform x).result) := by
  obtain ⟨c, allocator, list⟩ := x
  rcases hx with hx | hx
  · obtain rfl : c = .destroy name := hx
    obtain ⟨l, k, hl, hk, hlk⟩ := h.lists
    have hquiet : ∀ p ∈ l.entries, p.Quiet := fun p hp => hlk.left.quiet_of_mem hp
    have hquiet' : ∀ p ∈ k.entries, p.Quiet := fun p hp => hlk.right.quiet_of_mem hp
    obtain ⟨hsession, hreply, -⟩ := perform_destroy_quiet (allocator, list) hl hquiet
    obtain ⟨hsession', hreply', -⟩ := perform_destroy_quiet (allocator, list) hk hquiet'
    have hran := ranAt_destroy (allocator, list) hl hquiet s
    have hran' := ranAt_destroy (allocator, list) hk hquiet' s
    rw [hsession, hsession']
    refine ⟨twins_putList h.allocators hlk.emptied, ?_⟩
    simp only [shownAt, Step.call, hreply, hreply', hran, hran', hlk.pair]
  · have hslot : ∀ t, c.slot? = some t → t = s := by
      intro t ht
      simpa [Step.concerns, Step.call, ht] using hs
    obtain ⟨htwins, r, hr, hr'⟩ := start_overAlike h hx hslot
    obtain ⟨hsession, hreply, -⟩ :=
      perform_of_done (s := .mk c allocator list) (congrArg (Stage.mk _ _) hr)
    obtain ⟨hsession', hreply', -⟩ :=
      perform_of_done (s := .mk c allocator list) (congrArg (Stage.mk _ _) hr')
    rw [hsession, hsession']
    refine ⟨htwins, ?_⟩
    rw [shownAt, shownAt, hreply, hreply']
    cases c
    case destroy => exact hx.elim
    all_goals rfl

/-- A step that does not concern the slot leaves a twin. -/
theorem step_beside (h : Twins name s σ τ) {x : Step α}
    (hx : x.call = .destroy name ∨ x.call.Plain name) (hs : ¬ x.concerns s = true) :
    Twins name s (σ.perform x).session τ := by
  cases ht : x.call.slot? with
  | none => exact absurd (by rw [Step.concerns, ht]; rfl) hs
  | some t =>
    have hne : t ≠ s := by simpa [Step.concerns, ht] using hs
    rcases hx with hx | hx
    · rw [hx] at ht
      cases ht
    · obtain ⟨htwins, r, hr⟩ := start_overBeside h hx ht hne
      rw [(perform_of_done (congrArg (Stage.mk _ _) hr)).1]
      exact htwins

theorem shown_run (h : Twins name s σ τ) {script : List (Step α)}
    (hscript : ∀ x ∈ script, x.call = .destroy name ∨ x.call.Plain name) :
    ((σ.transcript script).filter (·.1.concerns s)).map (shownAt s) =
      (τ.transcript (script.filter (·.concerns s))).map (shownAt s) := by
  induction script generalizing σ τ with
  | nil => rfl
  | cons x script ih =>
    have hx := hscript x (List.mem_cons_self ..)
    have hrest := fun y hy => hscript y (List.mem_cons_of_mem x hy)
    rw [transcript_cons, List.filter_cons, List.filter_cons]
    by_cases hs : x.concerns s = true
    · obtain ⟨htwins, hshown⟩ := step_alike h hx hs
      rw [if_pos hs, if_pos hs, transcript_cons, List.map_cons, List.map_cons, hshown,
        ih htwins hrest]
    · -- the second run does not move
      rw [if_neg hs, if_neg hs]
      exact ih (step_beside h hx hs) hrest

/-- **Slots of one list do not interfere.** Take a new list of any limit, and a run of calls on
allocators and on the list, in which the list gets the memory that it asks for and all destructors
are quiet. Delete the calls that use the list at other slots than `s`. All other calls give the same
replies, and each destruction runs the same under `s`, if anything; that is, the destructor that is
stored there, on the value that is stored with it. -/
theorem slots_do_not_interfere (s : Slot) {limit : Option Nat}
    (h : σ.lists.find? name = some { limit := limit }) {script : List (Step α)}
    (hscript : ∀ x ∈ script, x.call = .destroy name ∨ x.call.Plain name) :
    ((σ.transcript script).filter (·.1.concerns s)).map (shownAt s) =
      (σ.transcript (script.filter (·.concerns s))).map (shownAt s) ∧
    ∀ (τ : Session α) (l : SlotList α (Destructor α)) (shown : Option String × Option String),
      τ.lists.find? name = some l → (∀ p ∈ l.entries, p.Quiet) →
      (τ.perform (.mk (.destroy name) shown.1 shown.2)).result.ranAt s =
        (l.pairAt s.index).runnable? := by
  have hnew := SlotList.tame_new (α := α) limit
  have hlist : SlotList.Twins s.index { limit := limit } { limit := limit } :=
    ⟨rfl, rfl, hnew, hnew⟩
  have htwins : Twins name s σ σ := ⟨fun _ => rfl, _, _, h, h, hlist⟩
  exact ⟨shown_run htwins hscript, fun τ l shown hl hq => ranAt_destroy shown hl hq s⟩

/-- A list at its limit, which the calls at slot 0 alone do not reach. -/
theorem higher_slot_alone :
    let first : Destructor := .mk "first" [] none
    let second : Destructor := .mk "second" [] none
    let σ : Session :=
      (({} : Session).putAllocator "a" ⟨[some ⟨0⟩, some ⟨1⟩, some ⟨2⟩], 3, none⟩).putList "l"
        { limit := some 2 }
    let set : Step := .mk (.set "l" "a" ⟨0⟩ "x" (some first) none false) none none
    let set' : Step := .mk (.set "l" "a" ⟨1⟩ "y" (some second) none false) none none
    let get : Step := .mk (.get "l" "a" ⟨1⟩) none none
    let destroy : Step := .mk (.destroy "l") none none
    let script := [set', set, get, destroy]
    let l : SlotList String Destructor := ⟨[⟨some "x", some first⟩, ⟨some "y", some second⟩], some 2⟩
    σ.lists.find? "l" = some { limit := some 2 } ∧
    (∀ x ∈ script, x.call = .destroy "l" ∨ x.call.Plain "l") ∧
    script.filter (·.concerns ⟨0⟩) = [set, destroy] ∧
    ((σ.transcript script).filter (·.1.concerns ⟨0⟩)).map (shownAt ⟨0⟩) =
      (σ.transcript [set, destroy]).map (shownAt ⟨0⟩) ∧
    ((σ.putList "l" l).perform destroy).result.ranAt ⟨0⟩ = some ("x", first) := by
  intro first second σ set set' get destroy script l
  have hfind : σ.lists.find? "l" = some { limit := some 2 } := rfl
  have hplain : ∀ x ∈ script, x.call = .destroy "l" ∨ x.call.Plain "l" := by
    simp [script, set, set', get, destroy, Step.call, Call.Plain, Destructor.Quiet, first, second,
      Destructor.script, Destructor.panic]
  obtain ⟨hshown, hran⟩ := slots_do_not_interfere ⟨0⟩ hfind hplain
  have hquiet : ∀ p ∈ l.entries, p.Quiet := by
    simp [l, Pair.Quiet, Destructor.Quiet, first, second, Destructor.script, Destructor.panic]
  exact ⟨hfind, hplain, rfl, hshown, hran _ l (none, none) (Named.find?_put_self ..) hquiet⟩

end Session

end SlotStore
