import Mathlib.Algebra.Order.BigOperators.Group.Finset
import SlotStore.Proofs.Allocator.Registry
import SlotStore.Proofs.Shared.Clients

/-!
# Clients own their slots

Clients that free and access only slots of their own never get in each other's way, whoever has a
turn when. The invariant (`Owned`) ties the slots that the clients hold to the allocator: they are
the live ones, and no two clients hold the same. It is kept by every turn (`owned_step`), because a
slot that is issued was nobody's, and a slot that is freed was that of one client.

So an access may act long after its slot was found live: nobody else can have freed it.
-/

namespace SlotStore

/-! ## Clients that keep to their own slots -/

section

variable {κ α δ : Type}

/-- A move frees or accesses a slot only if it is one of these. -/
def Move.Rightful (held : Finset Slot) : Move κ α δ → Prop
  | .ask (.free s) => s ∈ held
  | .access _ x => x.slot ∈ held
  | _ => True

/-- What a client is told is what it may expect that holds these slots: what it frees is freed, what
it accesses is not refused, and what it holds is live. -/
def Entry.Granted (held : Finset Slot) : Entry κ α δ → Prop
  | .asked (.free _) r => r = .freed (.ok ())
  | .asked (.isLive s) r => s ∈ held → r = .truth true
  | .accessed _ _ y => y.refusal? = none
  | _ => True

theorem holding_asked (t : List (Entry κ α δ)) (q : Allocator.Request) (r : Allocator.Response) :
    holding (t ++ [.asked q r]) = Allocator.liveWith (holding t) (q, r) := by
  rw [holding, List.filterMap_append, Allocator.liveAfter, List.foldl_append]
  rfl

theorem holding_unasked (t : List (Entry κ α δ)) {e : Entry κ α δ} (he : e.asked? = none) :
    holding (t ++ [e]) = holding t := by
  rw [holding, List.filterMap_append, List.filterMap_cons_none he, List.filterMap_nil,
    List.append_nil, holding]

namespace Client

/-- The next move of a client is rightful, if it is to make one. -/
def Careful (p : Program κ α δ) (c : Client κ α δ) : Prop :=
  c.pending = none → ∀ m, p c.transcript = some m → m.Rightful c.held

/-- A client has been granted everything so far, and it holds the slot of an access that is still
to act. -/
structure Sound (c : Client κ α δ) : Prop where
  granted : ∀ (n : Nat) (e : Entry κ α δ), c.transcript[n]? = some e →
    e.Granted (holding (c.transcript.take n))
  pending : ∀ k x, c.pending = some (k, x) → x.slot ∈ c.held

variable {c : Client κ α δ} {p : Program κ α δ} {a : Allocator}

theorem granted_told (h : c.Sound) {e : Entry κ α δ} (he : e.Granted c.held) :
    ∀ (n : Nat) (e' : Entry κ α δ), (c.told e).transcript[n]? = some e' →
      e'.Granted (holding ((c.told e).transcript.take n)) := by
  intro n e' hn
  rw [told] at hn ⊢
  rcases Nat.lt_trichotomy n c.transcript.length with hlt | rfl | hgt
  · rw [List.getElem?_append_left hlt] at hn
    rw [List.take_append_of_le_length (Nat.le_of_lt hlt)]
    exact h.granted n e' hn
  · rw [List.getElem?_concat_length] at hn
    rw [List.take_left]
    cases hn
    exact he
  · rw [List.getElem?_eq_none (by rw [List.length_append, List.length_singleton]; exact hgt)] at hn
    cases hn

theorem granted_serve (hlive : ∀ s ∈ c.held, a.isLive s = true) {q : Allocator.Request}
    (hq : (Move.ask q : Move κ α δ).Rightful c.held) :
    (Entry.asked q (a.serve q).2 : Entry κ α δ).Granted c.held := by
  cases q with
  | allocate m => trivial
  | free s =>
    show Allocator.Response.freed (a.free s).answer = _
    rw [Allocator.free_of_isLive (hlive s hq)]
  | isLive s =>
    intro hs
    show Allocator.Response.truth (a.isLive s) = _
    rw [hlive s hs]
  | used => trivial

variable [DecidableEq κ]

/-- All that a turn can do: carry out an access that was waiting, or make a move. -/
theorem turn_cases (p : Program κ α δ) (a : Allocator) (c : Client κ α δ) :
    (∃ k x, c.pending = some (k, x) ∧ c.turn p a = (a,
      { (c.putList k (x.act (c.lists k)).1).told (.accessed k x (x.act (c.lists k)).2) with
        pending := none })) ∨
    (c.pending = none ∧ p c.transcript = none ∧ c.turn p a = (a, c)) ∨
    (∃ q, c.pending = none ∧ p c.transcript = some (.ask q) ∧
      c.turn p a = ((a.serve q).1, c.told (.asked q (a.serve q).2))) ∨
    (∃ k x, c.pending = none ∧ p c.transcript = some (.access k x) ∧ c.turn p a =
      if a.isLive x.slot then (a, { c with pending := some (k, x) })
      else (a, c.told (.accessed k x x.refused))) ∨
    (∃ k, c.pending = none ∧ p c.transcript = some (.destroy k) ∧ c.turn p a = (a,
      (c.putList k (c.lists k).emptied).told (.destroyed k (c.lists k).armed))) := by
  cases hp : c.pending with
  | some r =>
    left
    exact ⟨r.1, r.2, rfl, by simp only [turn, hp]⟩
  | none =>
    right
    cases hm : p c.transcript with
    | none => exact Or.inl ⟨rfl, rfl, by simp only [turn, hp, hm]⟩
    | some m =>
      right
      cases m with
      | ask q => exact Or.inl ⟨q, rfl, rfl, by simp only [turn, hp, hm]⟩
      | access k x => exact Or.inr (Or.inl ⟨k, x, rfl, rfl, by simp only [turn, hp, hm]⟩)
      | destroy k => exact Or.inr (Or.inr ⟨k, rfl, rfl, by simp only [turn, hp, hm]⟩)

theorem sound_turn (h : c.Sound) (hlive : ∀ s ∈ c.held, a.isLive s = true)
    (hc : c.Careful p) : (c.turn p a).2.Sound := by
  rcases turn_cases p a c with ⟨k, x, hp, he⟩ | ⟨hp, hm, he⟩ | ⟨q, hp, hm, he⟩ | ⟨k, x, hp, hm, he⟩ |
    ⟨k, hp, hm, he⟩
  · rw [he]
    exact ⟨granted_told (c := c.putList k _) ⟨h.granted, h.pending⟩ (Access.refusal?_act _ x),
      fun _ _ hnone => nomatch hnone⟩
  · rw [he]
    exact h
  · rw [he]
    refine ⟨granted_told h (granted_serve hlive (hc hp _ hm)), fun k x hx => ?_⟩
    rw [told, hp] at hx
    cases hx
  · have hx : x.slot ∈ c.held := hc hp _ hm
    rw [he, if_pos (hlive _ hx)]
    refine ⟨h.granted, fun k' x' hx' => ?_⟩
    cases hx'
    exact hx
  · rw [he]
    refine ⟨granted_told (c := c.putList k _) ⟨h.granted, h.pending⟩ trivial, fun k' x hx => ?_⟩
    rw [told, putList, hp] at hx
    cases hx

theorem turn_effect (hlive : ∀ s ∈ c.held, a.isLive s = true) (hc : c.Careful p) :
    (c.turn p a).1 = a ∧ (c.turn p a).2.held = c.held ∨
    ∃ q, (Move.ask q : Move κ α δ).Rightful c.held ∧ (c.turn p a).1 = (a.serve q).1 ∧
      (c.turn p a).2.held = Allocator.liveWith c.held (q, (a.serve q).2) := by
  rcases turn_cases p a c with ⟨k, x, hp, he⟩ | ⟨hp, hm, he⟩ | ⟨q, hp, hm, he⟩ | ⟨k, x, hp, hm, he⟩ |
    ⟨k, hp, hm, he⟩
  · rw [he]
    exact Or.inl ⟨rfl, holding_unasked _ rfl⟩
  · rw [he]
    exact Or.inl ⟨rfl, rfl⟩
  · rw [he]
    exact Or.inr ⟨q, hc hp _ hm, rfl, holding_asked _ _ _⟩
  · have hx : x.slot ∈ c.held := hc hp _ hm
    rw [he, if_pos (hlive _ hx)]
    exact Or.inl ⟨rfl, rfl⟩
  · rw [he]
    exact Or.inl ⟨rfl, holding_unasked _ rfl⟩

end Client

end

/-! ## Families of disjoint sets -/

section

variable {ι : Type} [DecidableEq ι] {held : ι → Finset Slot}

theorem disjoint_liveWith (hdisjoint : ∀ i j, i ≠ j → Disjoint (held i) (held j)) {i : ι}
    {q : Allocator.Request} {r : Allocator.Response}
    (hnew : ∀ s, r = .slot (.ok s) → ∀ j, s ∉ held j) {j k : ι} (hjk : j ≠ k) :
    Disjoint (Function.update held i (Allocator.liveWith (held i) (q, r)) j)
      (Function.update held i (Allocator.liveWith (held i) (q, r)) k) := by
  -- the sets of the others do not have what is new in the set of `i`
  have hother : ∀ j, j ≠ i → Disjoint (Allocator.liveWith (held i) (q, r)) (held j) := by
    intro j hj
    have hij := hdisjoint i j hj.symm
    rcases Allocator.liveWith_cases q r with ⟨m, s, rfl, rfl⟩ | ⟨s, u, rfl, rfl⟩ | hsame
    · exact Finset.disjoint_insert_left.mpr ⟨hnew s rfl j, hij⟩
    · exact hij.mono_left (Finset.erase_subset _ _)
    · rw [hsame]
      exact hij
  by_cases hj : j = i
  · subst hj
    rw [Function.update_self, Function.update_of_ne hjk.symm]
    exact hother k hjk.symm
  · rw [Function.update_of_ne hj]
    by_cases hk : k = i
    · subst hk
      rw [Function.update_self]
      exact (hother j hj).symm
    · rw [Function.update_of_ne hk]
      exact hdisjoint j k hjk

variable [Fintype ι]

theorem biUnion_liveWith (hdisjoint : ∀ i j, i ≠ j → Disjoint (held i) (held j)) {i : ι}
    {q : Allocator.Request} {r : Allocator.Response} (hfree : ∀ s, q = .free s → s ∈ held i) :
    Finset.univ.biUnion (Function.update held i (Allocator.liveWith (held i) (q, r))) =
      Allocator.liveWith (Finset.univ.biUnion held) (q, r) := by
  have hmem : ∀ (set : Finset Slot) (t : Slot),
      t ∈ Finset.univ.biUnion (Function.update held i set) ↔ t ∈ set ∨ ∃ j, j ≠ i ∧ t ∈ held j := by
    intro set t
    rw [Finset.mem_biUnion]
    constructor
    · rintro ⟨j, -, ht⟩
      by_cases hj : j = i
      · subst hj
        rw [Function.update_self] at ht
        exact Or.inl ht
      · rw [Function.update_of_ne hj] at ht
        exact Or.inr ⟨j, hj, ht⟩
    · rintro (ht | ⟨j, hj, ht⟩)
      · exact ⟨i, Finset.mem_univ i, by rwa [Function.update_self]⟩
      · exact ⟨j, Finset.mem_univ j, by rwa [Function.update_of_ne hj]⟩
  have hunion : ∀ t, t ∈ Finset.univ.biUnion held ↔ t ∈ held i ∨ ∃ j, j ≠ i ∧ t ∈ held j := by
    intro t
    rw [← hmem, Function.update_eq_self]
  ext t
  rw [hmem]
  rcases Allocator.liveWith_cases q r with ⟨m, s, rfl, rfl⟩ | ⟨s, u, rfl, rfl⟩ | hsame
  · show t ∈ insert s (held i) ∨ _ ↔ t ∈ insert s (Finset.univ.biUnion held)
    rw [Finset.mem_insert, Finset.mem_insert, hunion, or_assoc]
  · show t ∈ (held i).erase s ∨ _ ↔ t ∈ (Finset.univ.biUnion held).erase s
    rw [Finset.mem_erase, Finset.mem_erase, hunion]
    constructor
    · rintro (⟨hne, ht⟩ | ⟨j, hj, ht⟩)
      · exact ⟨hne, Or.inl ht⟩
      · refine ⟨?_, Or.inr ⟨j, hj, ht⟩⟩
        rintro rfl
        exact Finset.disjoint_left.mp (hdisjoint i j hj.symm) (hfree t rfl) ht
    · rintro ⟨hne, ht | ht⟩
      · exact Or.inl ⟨hne, ht⟩
      · exact Or.inr ht
  · rw [hsame, hsame, hunion]

end

/-! ## Schedules -/

namespace Commons

variable {ι κ α δ : Type}

section

variable [Fintype ι] {c : Commons ι κ α δ}

/-- The live slots are the clients' slots, each client's its own. -/
structure Owned (c : Commons ι κ α δ) : Prop where
  live : c.allocator.Represents (Finset.univ.biUnion fun i => (c.clients i).held)
  disjoint : ∀ i j, i ≠ j → Disjoint (c.clients i).held (c.clients j).held
  sound : ∀ i, (c.clients i).Sound

theorem Owned.isLive_iff (h : c.Owned) (s : Slot) :
    c.allocator.isLive s = true ↔ ∃ i, s ∈ (c.clients i).held := by
  rw [h.live.2, Finset.mem_biUnion]
  constructor
  · rintro ⟨i, -, hs⟩
    exact ⟨i, hs⟩
  · rintro ⟨i, hs⟩
    exact ⟨i, Finset.mem_univ i, hs⟩

theorem owned_opening (limit : Option Nat) (lists : ι → κ → SlotList α δ) :
    (opening limit lists).Owned where
  live := by
    have hnone : (Finset.univ.biUnion fun i => ((opening limit lists).clients i).held) = ∅ := by
      rw [← Finset.subset_empty, Finset.biUnion_subset]
      intro i _
      exact Finset.Subset.refl ∅
    rw [hnone]
    exact Allocator.represents_empty limit
  disjoint i j _ := Finset.disjoint_empty_left _
  sound i := ⟨fun n e he => (by cases he), fun k x hx => (by cases hx)⟩

end

variable [DecidableEq ι] [DecidableEq κ] {programs : ι → Program κ α δ} {c : Commons ι κ α δ}

/-- Whenever a client makes a move, the move is rightful. -/
def Careful (programs : ι → Program κ α δ) : Commons ι κ α δ → List ι → Prop
  | _, [] => True
  | c, i :: schedule =>
    (c.clients i).Careful (programs i) ∧ Careful programs (c.step programs i) schedule

theorem Careful.take {schedule : List ι} (h : c.Careful programs schedule) (n : Nat) :
    c.Careful programs (schedule.take n) := by
  induction schedule generalizing c n with
  | nil =>
    rw [List.take_nil]
    trivial
  | cons i schedule ih =>
    cases n with
    | zero => trivial
    | succ n => exact ⟨h.1, ih h.2 n⟩

theorem clients_step_self (i : ι) :
    (c.step programs i).clients i = ((c.clients i).turn (programs i) c.allocator).2 :=
  Function.update_self ..

theorem clients_step_of_ne {i j : ι} (h : j ≠ i) :
    (c.step programs i).clients j = c.clients j :=
  Function.update_of_ne h ..

theorem limit_run (c : Commons ι κ α δ) (schedule : List ι) :
    (c.run programs schedule).allocator.limit = c.allocator.limit := by
  induction schedule generalizing c with
  | nil => rfl
  | cons i schedule ih =>
    refine (ih (c.step programs i)).trans ?_
    rcases Client.turn_cases (programs i) c.allocator (c.clients i) with
      ⟨k, x, _, he⟩ | ⟨_, _, he⟩ | ⟨q, _, _, he⟩ | ⟨k, x, _, _, he⟩ | ⟨k, _, _, he⟩
    · rw [step, he]
    · rw [step, he]
    · rw [step, he]
      exact Allocator.limit_serve q
    · rw [step, he]
      split <;> rfl
    · rw [step, he]

variable [Fintype ι]

/-- A careful turn keeps every slot with its owner. -/
theorem owned_step (h : c.Owned) {i : ι} (hc : (c.clients i).Careful (programs i)) :
    (c.step programs i).Owned := by
  have hlive : ∀ s ∈ (c.clients i).held, c.allocator.isLive s = true :=
    fun s hs => (h.isLive_iff s).mpr ⟨i, hs⟩
  have hheld : ∀ j, ((c.step programs i).clients j).held = Function.update
      (fun j => (c.clients j).held) i ((c.clients i).turn (programs i) c.allocator).2.held j :=
    fun j => Function.apply_update (fun _ => Client.held) c.clients i _ j
  have hsound : ∀ j, ((c.step programs i).clients j).Sound := by
    intro j
    by_cases hj : j = i
    · subst hj
      rw [clients_step_self]
      exact Client.sound_turn (h.sound j) hlive hc
    · rw [clients_step_of_ne hj]
      exact h.sound j
  rcases Client.turn_effect hlive hc with ⟨ha, hsame⟩ | ⟨q, hq, ha, hnext⟩
  · rw [hsame, Function.update_eq_self] at hheld
    refine ⟨?_, ?_, hsound⟩
    · simp only [hheld]
      rw [step, ha]
      exact h.live
    · intro j k hjk
      rw [hheld, hheld]
      exact h.disjoint j k hjk
  · rw [hnext] at hheld
    refine ⟨?_, ?_, hsound⟩
    · have hfree : ∀ s, q = .free s → s ∈ (c.clients i).held := by
        rintro s rfl
        exact hq
      simp only [hheld]
      rw [biUnion_liveWith h.disjoint hfree, step, ha]
      exact Allocator.represents_serve h.live q
    · have hnew : ∀ s, (c.allocator.serve q).2 = .slot (.ok s) → ∀ j, s ∉ (c.clients j).held := by
        intro s hs j hj
        cases q with
        | allocate m =>
          have hanswer : (c.allocator.allocate m).answer = .ok s :=
            Allocator.Response.slot.inj hs
          exact Allocator.not_isLive_of_allocate hanswer ((h.isLive_iff s).mpr ⟨j, hj⟩)
        | free t | isLive t | used => cases hs
      intro j k hjk
      rw [hheld, hheld]
      exact disjoint_liveWith h.disjoint hnew hjk

theorem owned_run (h : c.Owned) (schedule : List ι) (hc : c.Careful programs schedule) :
    (c.run programs schedule).Owned := by
  induction schedule generalizing c with
  | nil => exact h
  | cons i schedule ih => exact ih (owned_step h hc.1) hc.2

/-- **Clients do not get in each other's way.** At every point of a schedule in which clients free
and access only slots of their own: no two of them hold the same slot, the slots that they hold are
the live ones, and so their numbers add up to the number of live slots; every free was carried out,
no access was refused, and each client was told that its slots are live; an access that has still to
act does what a single call would do; and if nobody holds a slot, the allocator is like new. -/
theorem clients_own_their_slots (limit : Option Nat) (lists : ι → κ → SlotList α δ)
    (programs : ι → Program κ α δ) (schedule : List ι)
    (h : (opening limit lists).Careful programs schedule) (n : Nat) :
    let c := (opening limit lists).run programs (schedule.take n)
    (∀ i j, i ≠ j → Disjoint (c.clients i).held (c.clients j).held) ∧
    (∀ s, c.allocator.isLive s = true ↔ ∃ i, s ∈ (c.clients i).held) ∧
    c.allocator.stats.used = ∑ i, (c.clients i).held.card ∧
    (∀ (i : ι) (k : Nat) (e : Entry κ α δ), (c.clients i).transcript[k]? = some e →
      e.Granted (holding ((c.clients i).transcript.take k))) ∧
    (∀ i k x, (c.clients i).pending = some (k, x) → x.slot ∈ (c.clients i).held ∧
      x.call c.allocator ((c.clients i).lists k) = x.act ((c.clients i).lists k)) ∧
    ((∀ i, (c.clients i).held = ∅) →
      c.allocator.table = [] ∧ c.allocator = (Allocator.empty limit).1) := by
  intro c
  have howned : c.Owned := owned_run (owned_opening limit lists) _ (h.take n)
  refine ⟨howned.disjoint, howned.isLive_iff, ?_, fun i => (howned.sound i).granted, ?_, ?_⟩
  · rw [← Finset.card_biUnion fun i _ j _ hij => howned.disjoint i j hij]
    exact Allocator.used_eq_card howned.live
  · intro i k x hx
    have hheld := (howned.sound i).pending k x hx
    exact ⟨hheld, Access.call_of_isLive ((howned.isLive_iff _).mpr ⟨i, hheld⟩) _⟩
  · intro hnone
    have hempty : c.allocator = (Allocator.empty c.allocator.limit).1 := by
      refine howned.live.1.eq_empty fun s => ?_
      rw [Bool.eq_false_iff]
      intro hs
      obtain ⟨i, hi⟩ := (howned.isLive_iff s).mp hs
      rw [hnone i] at hi
      cases hi
    have hlimit : c.allocator.limit = limit := limit_run _ _
    rw [hlimit] at hempty
    exact ⟨by rw [hempty]; rfl, hempty⟩

/-- The slot of one client is found live, then the other client frees its own, and only then the
first client stores something. -/
theorem owned_between_check_and_act :
    let storing : Program Unit Nat Nat := fun told =>
      [.ask (.allocate .ample), .access () (.set .ample ⟨0⟩ 7 none)][told.length]?
    let freeing : Program Unit Nat Nat := fun told =>
      [.ask (.allocate .ample), .ask (.free ⟨1⟩)][told.length]?
    let programs : Bool → Program Unit Nat Nat := fun b => if b then freeing else storing
    let start : Commons Bool Unit Nat Nat := opening none fun _ _ => {}
    let schedule := [false, true, false, true, false]
    start.Careful programs schedule ∧
    ((start.run programs (schedule.take 4)).clients false).pending.isSome ∧
    (start.run programs (schedule.take 4)).allocator.table = [some ⟨0⟩, none] ∧
    (start.run programs (schedule.take 4)).allocator.stats.used =
      ∑ b, ((start.run programs (schedule.take 4)).clients b).held.card := by
  intro storing freeing programs start schedule
  have hcareful : start.Careful programs schedule := by
    refine ⟨?_, ?_, ?_, ?_, ?_, trivial⟩
    · rintro - m ⟨⟩
      trivial
    · rintro - m ⟨⟩
      trivial
    · rintro - m ⟨⟩
      show (⟨0⟩ : Slot) ∈ _
      decide
    · rintro - m ⟨⟩
      show (⟨1⟩ : Slot) ∈ _
      decide
    · rintro ⟨⟩
  obtain ⟨-, -, hsum, -⟩ := clients_own_their_slots none (fun _ _ => {}) programs schedule hcareful 4
  exact ⟨hcareful, rfl, rfl, hsum⟩

end Commons

end SlotStore
