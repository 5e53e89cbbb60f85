import SlotStore.Proofs.SlotList.Length
import SlotStore.Proofs.Shared.Clients

/-!
# Accesses at different slots

An access depends on the allocator that it names, on the limit of the list and on the pair under its
slot, and on nothing else that the list holds, unless memory is denied; and besides that pair it
changes only the length of the list (`call_effect`). So several accesses at different slots do not
depend on their order (`order_of_accesses_does_not_show`): each of them comes to what it would come
to alone (`accesses_eq`).
-/

namespace SlotStore

variable {α δ : Type}

namespace Access

/-- What an access comes to. -/
structure Effect (α δ : Type) where
  yield : Yield α δ
  /-- The pair that it leaves under its slot. -/
  pair : Pair α δ
  /-- How long the list has to be for it. -/
  length : Nat

/-- Whether memory was asked for and not granted. -/
def Yield.Starved : Yield α δ → Prop
  | pair (.error (.error (.outOfMemory _))) => True
  | _ => False

/-- What an access comes to with memory enough, by the limit of the list and the pair under its
slot. -/
def effect (a : Allocator) (limit : Option Nat) (p : Pair α δ) : Access α δ → Effect α δ
  | set _ s v d =>
    match SlotList.verdict limit 0 a .ample s with
    | .ok _ => ⟨.pair (.ok p), ⟨some v, d⟩, s.index + 1⟩
    | .error f => ⟨.pair (.error f), p, 0⟩
  | get s =>
    if a.isLive s then ⟨.value (.ok p.value), p, 0⟩ else ⟨refused (.get s), p, 0⟩
  | modify s f =>
    if a.isLive s then ⟨.value (.ok (p.value.map f)), { p with value := p.value.map f }, 0⟩
    else ⟨refused (.modify s f), p, 0⟩
  | clear s => if a.isLive s then ⟨.pair (.ok p), {}, 0⟩ else ⟨refused (.clear s), p, 0⟩

end Access

namespace SlotList

open Access

variable {l l' : SlotList α δ} {s : Slot} {e : Effect α δ} {a : Allocator} {x : Access α δ}

/-! ## One access -/

/-- A list was changed by an access at a slot. -/
structure Changed (s : Slot) (e : Effect α δ) (l l' : SlotList α δ) : Prop where
  limit : l'.limit = l.limit
  within : l'.Within
  length : l'.length = max l.length e.length
  pair : l'.pairAt s.index = e.pair
  others : ∀ i, i ≠ s.index → l'.pairAt i = l.pairAt i

theorem changed_self (hw : l.Within) (he : e.length = 0) (hp : e.pair = l.pairAt s.index) :
    Changed s e l l :=
  ⟨rfl, hw, by rw [he, Nat.max_zero], hp.symm, fun _ _ => rfl⟩

theorem changed_exchange (hw : l.Within) (he : e.length = 0)
    (hp : s.index < l.length ∨ e.pair = {}) : Changed s e l (l.exchange s.index e.pair) where
  limit := rfl
  within n hn := by
    rw [length_exchange]
    exact hw n hn
  length := by rw [length_exchange, he, Nat.max_zero]
  pair := pairAt_exchange_self hp
  others _ hi := pairAt_exchange_of_ne (Ne.symm hi) e.pair

theorem changed_stored (hw : l.Within) (he : e.length = s.index + 1)
    (hroom : ∀ n, l.limit = some n → s.index < n) : Changed s e l (l.stored s.index e.pair) where
  limit := rfl
  within n hn := by
    have := hw n hn
    have := hroom n hn
    rw [length_stored]
    omega
  length := by rw [length_stored, he]
  pair := l.pairAt_stored_self s.index e.pair
  others _ hi := l.pairAt_stored_of_ne (Ne.symm hi) e.pair

theorem verdict_of_not_starved {limit : Option Nat} {length : Nat} {m : Memory}
    (h : verdict limit length a m s ≠ .error (.error (.growth "slot list" (s.index + 1)))) :
    verdict limit length a m s = verdict limit 0 a .ample s := by
  unfold verdict at h ⊢
  split
  next hlive =>
    rw [if_pos hlive] at h
    split
    next => rfl
    next hn =>
      rw [hn] at h
      by_cases hm : length ≤ s.index ∧ m.grants (s.index + 1) = false
      · exact absurd (if_pos hm) h
      · rw [if_neg hm]
        rfl
  next => rfl

/-- An access comes to its effect, unless memory is denied. -/
theorem call_effect (hw : l.Within) (hmemory : ¬ (x.call a l).2.Starved) :
    (x.call a l).2 = (x.effect a l.limit (l.pairAt x.slot.index)).yield ∧
      Changed x.slot (x.effect a l.limit (l.pairAt x.slot.index)) l (x.call a l).1 := by
  cases x with
  | set m s v d =>
    rcases set_cases hw a m s v d with ⟨hv, events, he⟩ | ⟨f, hv, he⟩
    · have hample : verdict l.limit 0 a .ample s = .ok () := by
        rw [← verdict_of_not_starved (by rw [hv]; simp), hv]
      rw [call, he, effect, slot, hample]
      refine ⟨rfl, changed_stored (e := ⟨_, ⟨some v, d⟩, _⟩) hw rfl fun n hn => ?_⟩
      rw [hn] at hv
      exact lt_of_verdict hv
    · rw [call, he] at hmemory ⊢
      have hf : f ≠ .error (.growth "slot list" (s.index + 1)) := by
        rintro rfl
        exact hmemory trivial
      have hample : verdict l.limit 0 a .ample s = .error f := by
        rw [← verdict_of_not_starved (by rw [hv]; exact fun h => hf (Except.error.inj h)), hv]
      rw [effect, slot, hample]
      exact ⟨rfl, changed_self hw rfl rfl⟩
  | get s =>
    rw [call, SlotList.get, guarded, effect, slot]
    split
    · exact ⟨rfl, changed_self hw rfl rfl⟩
    · exact ⟨rfl, changed_self hw rfl rfl⟩
  | modify s f =>
    rw [call, SlotList.modify, guarded, effect, slot]
    split
    · refine ⟨?_, changed_exchange hw rfl (altered_cases f s.index l)⟩
      show Yield.value (.ok ((l.alter f s.index).value? s.index)) = _
      rw [value?, pairAt_alter_self]
      rfl
    · exact ⟨rfl, changed_self hw rfl rfl⟩
  | clear s =>
    rw [call, SlotList.clear, guarded, effect, slot]
    split
    · exact ⟨rfl, changed_exchange hw rfl (Or.inr rfl)⟩
    · exact ⟨rfl, changed_self hw rfl rfl⟩

/-! ## Several accesses -/

def accesses : SlotList α δ → List (Allocator × Access α δ) → SlotList α δ × List (Yield α δ)
  | l, [] => (l, [])
  | l, c :: calls =>
    let first := c.2.call c.1 l
    let rest := accesses first.1 calls
    (rest.1, first.2 :: rest.2)

/-- What one of several accesses comes to if it is made alone. -/
def alone (l : SlotList α δ) (c : Allocator × Access α δ) : Effect α δ :=
  c.2.effect c.1 l.limit (l.pairAt c.2.slot.index)

variable {calls : List (Allocator × Access α δ)} {c : Allocator × Access α δ}

theorem alone_of_changed (h : Changed s e l l') (hc : c.2.slot ≠ s) : l'.alone c = l.alone c := by
  have hi : c.2.slot.index ≠ s.index := fun hi => hc (congrArg Slot.mk hi)
  rw [alone, alone, h.limit, h.others _ hi]

/-- A list was changed by several accesses, each of which came to what it comes to alone. -/
structure ChangedBy (calls : List (Allocator × Access α δ)) (l l' : SlotList α δ) : Prop where
  limit : l'.limit = l.limit
  length_le_iff : ∀ n, l'.length ≤ n ↔ l.length ≤ n ∧ ∀ c ∈ calls, (l.alone c).length ≤ n
  pairs : ∀ c ∈ calls, l'.pairAt c.2.slot.index = (l.alone c).pair
  others : ∀ i, (∀ c ∈ calls, c.2.slot.index ≠ i) → l'.pairAt i = l.pairAt i

theorem Changed.followed (hnew : ∀ d ∈ calls, d.2.slot ≠ c.2.slot)
    (hfirst : Changed c.2.slot (l.alone c) l l') {l'' : SlotList α δ}
    (hrest : ChangedBy calls l' l'') : ChangedBy (c :: calls) l l'' where
  limit := hrest.limit.trans hfirst.limit
  length_le_iff n := by
    have hsame : (∀ d ∈ calls, (l'.alone d).length ≤ n) ↔ ∀ d ∈ calls, (l.alone d).length ≤ n := by
      refine forall₂_congr fun d hd => ?_
      rw [alone_of_changed hfirst (hnew d hd)]
    rw [hrest.length_le_iff, hsame, hfirst.length, Nat.max_le, List.forall_mem_cons, and_assoc]
  pairs := by
    refine List.forall_mem_cons.mpr ⟨?_, fun d hd => ?_⟩
    · have hout := hrest.others c.2.slot.index fun d hd hi => hnew d hd (congrArg Slot.mk hi)
      rw [hout, hfirst.pair]
    · rw [hrest.pairs d hd, alone_of_changed hfirst (hnew d hd)]
  others i hi := by
    rw [hrest.others i fun d hd => hi d (List.mem_cons_of_mem c hd),
      hfirst.others i (hi c List.mem_cons_self).symm]

/-- Accesses at different slots come to what each of them comes to alone. -/
theorem accesses_eq (hw : l.Within) (hslots : (calls.map fun c => c.2.slot).Nodup)
    (hmemory : ∀ y ∈ (l.accesses calls).2, ¬ y.Starved) :
    (l.accesses calls).2 = calls.map (fun c => (l.alone c).yield) ∧
      ChangedBy calls l (l.accesses calls).1 := by
  induction calls generalizing l with
  | nil => exact ⟨rfl, rfl, fun n => by simp [accesses], List.forall_mem_nil _, fun _ _ => rfl⟩
  | cons c calls ih =>
    obtain ⟨hcall, hcalls⟩ := List.forall_mem_cons.mp hmemory
    obtain ⟨hc, hrest⟩ := List.nodup_cons.mp hslots
    have hnew : ∀ d ∈ calls, d.2.slot ≠ c.2.slot :=
      fun d hd he => hc (List.mem_map.mpr ⟨d, hd, he⟩)
    obtain ⟨hyield, hfirst⟩ := call_effect hw hcall
    obtain ⟨hyields, hchanged⟩ := ih hfirst.within hrest hcalls
    refine ⟨?_, hfirst.followed hnew hchanged⟩
    have hsame : calls.map (fun d => ((c.2.call c.1 l).1.alone d).yield) =
        calls.map fun d => (l.alone d).yield := by
      refine List.map_congr_left fun d hd => ?_
      rw [alone_of_changed hfirst (hnew d hd)]
    rw [accesses, hyields, hsame, hyield]
    rfl

theorem eq_of_pairAt (hlimit : l.limit = l'.limit) (hlength : l.length = l'.length)
    (hpairs : ∀ i, l.pairAt i = l'.pairAt i) : l = l' := by
  have hentries : l.entries = l'.entries := by
    refine List.ext_getElem hlength fun i hi hi' => ?_
    have hpair := hpairs i
    rwa [pairAt, pairAt, List.getElem?_eq_getElem hi, List.getElem?_eq_getElem hi'] at hpair
  cases l
  cases l'
  cases hlimit
  cases hentries
  rfl

theorem ChangedBy.unique {calls' : List (Allocator × Access α δ)} {k k' : SlotList α δ}
    (h : ChangedBy calls l k) (h' : ChangedBy calls' l k') (hmem : ∀ c, c ∈ calls' ↔ c ∈ calls) :
    k' = k := by
  refine eq_of_pairAt (h'.limit.trans h.limit.symm) ?_ fun i => ?_
  · have hle : ∀ n, k'.length ≤ n ↔ k.length ≤ n := by
      intro n
      rw [h.length_le_iff, h'.length_le_iff]
      simp only [hmem]
    exact Nat.le_antisymm ((hle _).mpr (Nat.le_refl _)) ((hle _).mp (Nat.le_refl _))
  · by_cases hi : ∃ c ∈ calls, c.2.slot.index = i
    · obtain ⟨c, hc, rfl⟩ := hi
      rw [h.pairs c hc, h'.pairs c ((hmem c).mpr hc)]
    · push Not at hi
      rw [h.others i hi, h'.others i fun c hc => hi c ((hmem c).mp hc)]

end SlotList

/-- **The order of accesses at different slots does not show.** Take the list after any run that
began with an empty one, and accesses at slots that are all different, each with any allocator. In
whichever order they are made, as long as no memory is denied, each of them yields the same, namely
what it yields if it is made alone, and the same list is left: the same entries, length and
limit. -/
theorem order_of_accesses_does_not_show {ι : Type} [DecidableEq ι] (allocators : ι → Allocator)
    (limit : Option Nat) (requests : List (Bench.Request ι α δ))
    {calls calls' : List (Allocator × Access α δ)} (horder : calls'.Perm calls)
    (hslots : (calls.map fun c => c.2.slot).Nodup) :
    let l := (Bench.run ⟨allocators, { limit := limit }⟩ requests).1.list
    (∀ y ∈ (l.accesses calls).2, ¬ y.Starved) → (∀ y ∈ (l.accesses calls').2, ¬ y.Starved) →
      (calls'.zip (l.accesses calls').2).Perm (calls.zip (l.accesses calls).2) ∧
      (∀ x ∈ calls.zip (l.accesses calls).2, x.2 = (l.alone x.1).yield) ∧
      (l.accesses calls').1 = (l.accesses calls).1 := by
  intro l hmemory hmemory'
  have hw : l.Within :=
    (Bench.measured_run (b := ⟨allocators, { limit := limit }⟩)
      (Bench.measured_new limit) requests).within
  have hslots' : (calls'.map fun c => c.2.slot).Nodup := (horder.map _).nodup_iff.mpr hslots
  obtain ⟨hyields, hchanged⟩ := SlotList.accesses_eq hw hslots hmemory
  obtain ⟨hyields', hchanged'⟩ := SlotList.accesses_eq hw hslots' hmemory'
  have hzip : ∀ order : List (Allocator × Access α δ),
      order.zip (order.map fun c => (l.alone c).yield) =
        order.map fun c => (c, (l.alone c).yield) := by
    intro order
    simpa using List.zip_map' (f := id) (g := fun c => (l.alone c).yield) (l := order)
  rw [hyields, hyields', hzip, hzip]
  exact ⟨horder.map _, List.forall_mem_map.mpr fun _ _ => rfl,
    hchanged.unique hchanged' fun c => horder.mem_iff⟩

/-- A slot above the length, one at the limit, one inside the list, and one that is not live,
forwards and backwards. -/
theorem accesses_backwards :
    let a : Allocator := ⟨[some ⟨0⟩, some ⟨1⟩, none, some ⟨3⟩, some ⟨4⟩], 4, none⟩
    let requests : List (Bench.Request Unit Nat Nat) := [.set () .ample ⟨1⟩ 5 (some 6)]
    let l := (Bench.run ⟨fun _ => a, { limit := some 4 }⟩ requests).1.list
    let calls : List (Allocator × Access Nat Nat) :=
      [(a, .set .ample ⟨3⟩ 7 none), (a, .set .ample ⟨4⟩ 8 none), (a, .clear ⟨1⟩), (a, .get ⟨2⟩)]
    (calls.map fun c => c.2.slot).Nodup ∧
    (∀ y ∈ (l.accesses calls).2, ¬ y.Starved) ∧
    (∀ y ∈ (l.accesses calls.reverse).2, ¬ y.Starved) ∧
    (l.accesses calls).2 = [.pair (.ok {}),
      .pair (.error (.error (.capacityExceeded "slot list" 4))), .pair (.ok ⟨some 5, some 6⟩),
      .value (.error (.refusal (.used ⟨2⟩)))] ∧
    (l.accesses calls.reverse).1 = (l.accesses calls).1 := by
  intro a requests l calls
  have hslots : (calls.map fun c => c.2.slot).Nodup := by decide
  have hyields : (l.accesses calls).2 = [.pair (.ok {}),
      .pair (.error (.error (.capacityExceeded "slot list" 4))), .pair (.ok ⟨some 5, some 6⟩),
      .value (.error (.refusal (.used ⟨2⟩)))] := rfl
  have hyields' : (l.accesses calls.reverse).2 = [.value (.error (.refusal (.used ⟨2⟩))),
      .pair (.ok ⟨some 5, some 6⟩), .pair (.error (.error (.capacityExceeded "slot list" 4))),
      .pair (.ok {})] := rfl
  have hmemory : ∀ y ∈ (l.accesses calls).2, ¬ y.Starved := by
    rw [hyields]
    simp [Access.Yield.Starved]
  have hmemory' : ∀ y ∈ (l.accesses calls.reverse).2, ¬ y.Starved := by
    rw [hyields']
    simp [Access.Yield.Starved]
  have h := order_of_accesses_does_not_show (fun _ => a) (some 4) requests calls.reverse_perm hslots
    hmemory hmemory'
  exact ⟨hslots, hmemory, hmemory', hyields, h.2.2⟩

end SlotStore
