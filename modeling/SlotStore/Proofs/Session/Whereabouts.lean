import SlotStore.Proofs.Session.Conservation

/-!
# Where pairs are

A pair that a call brought is an entry of a list, or held, or its destructor ran, or it was let go.
`whereabouts` lists all of these places with what is there. For every trait of pairs that does not
change when a text is put behind the value, as many pairs with that trait were brought as are
somewhere, and no more than the script brings at any depth (`countP_whereabouts`).
-/

namespace SlotStore

variable {α : Type}

/-- Where a pair can be. -/
inductive Place where
  | entry (list : String) (slot : Slot)
  | held (name : String)
  | ran
  | dropped (loss : Loss)
deriving DecidableEq

/-- How a pair ended. -/
def Deed.place : Deed α → Place
  | .ran _ _ => .ran
  | .dropped _ loss => .dropped loss

/-- All places of pairs: those of a session, and how the others ended. -/
def whereabouts (σ : Session α) (deeds : List (Deed α)) :
    List (Place × Pair α (Destructor α)) :=
  σ.lists.entries.flatMap (fun e => e.2.entries.zipIdx.map fun x => (.entry e.1 ⟨x.2⟩, x.1)) ++
    σ.held.entries.map (fun e => (.held e.1, e.2)) ++ deeds.map fun x => (x.place, x.pair)

def Session.pairs (σ : Session α) : List (Pair α (Destructor α)) :=
  σ.lists.entries.flatMap (fun e => e.2.entries) ++ σ.held.entries.map Prod.snd

theorem Session.mem_pairs_of_find? {σ : Session α} {name : String} {l : SlotList α (Destructor α)}
    {p : Pair α (Destructor α)} (h : σ.lists.find? name = some l) (hp : p ∈ l.entries) :
    p ∈ σ.pairs :=
  List.mem_append_left _ (List.mem_flatMap.mpr ⟨_, Named.mem_entries_of_find? h, hp⟩)

theorem whereabouts_pairs (σ : Session α) (deeds : List (Deed α)) :
    (whereabouts σ deeds).map Prod.snd = σ.pairs ++ deeds.map Deed.pair := by
  have hentries : ∀ e : String × SlotList α (Destructor α),
      (e.2.entries.zipIdx.map fun x => ((.entry e.1 ⟨x.2⟩ : Place), x.1)).map Prod.snd =
        e.2.entries := fun e => by
    rw [List.map_map]
    exact List.zipIdx_map_fst ..
  simp only [whereabouts, Session.pairs, List.map_append, List.map_flatMap, List.map_map, hentries]
  rfl

theorem mem_whereabouts_dropped_iff {σ : Session α} {deeds : List (Deed α)} {loss : Loss}
    {p : Pair α (Destructor α)} :
    (.dropped loss, p) ∈ whereabouts σ deeds ↔ .dropped p loss ∈ deeds := by
  rw [whereabouts, List.mem_append, List.mem_append]
  constructor
  · rintro ((hentry | hheld) | hended)
    · obtain ⟨e, _, he⟩ := List.mem_flatMap.mp hentry
      obtain ⟨x, _, hx⟩ := List.mem_map.mp he
      cases hx
    · obtain ⟨e, _, he⟩ := List.mem_map.mp hheld
      cases he
    · obtain ⟨x, hx, he⟩ := List.mem_map.mp hended
      cases x with
      | ran v d => cases he
      | dropped q l =>
        cases he
        exact hx
  · exact fun h => .inr (List.mem_map.mpr ⟨_, h, rfl⟩)

namespace Scale

def counting (holds : Pair α (Destructor α) → Bool) (hempty : holds {} = false) : Scale α where
  list := 0
  pair p := if holds p then 1 else 0
  pair_empty := by simp [hempty]

theorem counting_pairs {holds : Pair α (Destructor α) → Bool} (hempty : holds {} = false)
    (ps : List (Pair α (Destructor α))) : (counting holds hempty).pairs ps = ps.countP holds := by
  induction ps with
  | nil => rfl
  | cons p ps ih =>
    rw [pairs_cons, List.countP_cons, ih, Nat.add_comm]
    rfl

variable (κ : Scale α)

theorem total_eq_pairs {γ : Type} {w : γ → Nat} {f : γ → List (Pair α (Destructor α))}
    (h : ∀ c, w c = κ.pairs (f c)) (n : Named γ) :
    n.total w = κ.pairs (n.entries.flatMap fun e => f e.2) := by
  rw [Named.total]
  induction n.entries with
  | nil => rfl
  | cons e entries ih => rw [List.foldr_cons, ih, h, List.flatMap_cons, pairs_append]

variable {κ} in
theorem session_eq_pairs (hκ : κ.list = 0) (σ : Session α) : κ.session σ = κ.pairs σ.pairs := by
  have hlist : ∀ l, κ.ofList l = κ.pairs l.entries := fun l => by rw [ofList, hκ, Nat.zero_add]
  have hheld : ∀ p, κ.pair p = κ.pairs [p] := fun p => rfl
  rw [session, Session.pairs, pairs_append, List.map_eq_flatMap, κ.total_eq_pairs hlist,
    κ.total_eq_pairs hheld]

end Scale

/-- The pairs that calls brought: those of the script and those of the scripts that ran. -/
def brought (script : List (Step α)) (deeds : List (Deed α)) : List (Pair α (Destructor α)) :=
  scriptPairs script ++ deeds.flatMap Deed.brought

/-! ## Traits -/

/-- A trait that a pair keeps when a text is put behind its value. -/
structure Trait (α : Type) [HAppend α String α] where
  holds : Pair α (Destructor α) → Bool
  holds_empty : holds {} = false
  holds_append : ∀ v (text : String) d, holds ⟨some (v ++ text), d⟩ = holds ⟨some v, d⟩

namespace Trait

variable [HAppend α String α] (t : Trait α)

def scale : Scale α := .counting t.holds t.holds_empty

theorem scale_steady : t.scale.Steady := fun v text d => by
  simp [scale, Scale.counting, t.holds_append v text d]

/-- A trait by what it says. -/
noncomputable def ofProp (P : Pair α (Destructor α) → Prop) (hempty : ¬ P {})
    (happend : ∀ v (text : String) d, P ⟨some (v ++ text), d⟩ ↔ P ⟨some v, d⟩) : Trait α where
  holds p := @decide (P p) (Classical.propDecidable _)
  holds_empty := by simp [hempty]
  holds_append v text d := by simp [happend v text d]

theorem holds_ofProp_iff {P : Pair α (Destructor α) → Prop} (hempty : ¬ P {})
    (happend : ∀ v (text : String) d, P ⟨some (v ++ text), d⟩ ↔ P ⟨some v, d⟩)
    {p : Pair α (Destructor α)} : (ofProp P hempty happend).holds p = true ↔ P p := by
  simp [ofProp]

theorem scale_pairs (ps : List (Pair α (Destructor α))) : t.scale.pairs ps = ps.countP t.holds :=
  Scale.counting_pairs t.holds_empty ps

theorem countP_deeds_le (σ : Session α) (deeds : List (Deed α)) :
    deeds.countP (fun x => t.holds x.pair) ≤ (whereabouts σ deeds).countP fun x => t.holds x.2 := by
  rw [whereabouts, List.countP_append, List.countP_map]
  exact Nat.le_add_left _ _

theorem scale_whereabouts (σ : Session α) (deeds : List (Deed α)) :
    t.scale.session σ + t.scale.ended deeds =
      (whereabouts σ deeds).countP fun x => t.holds x.2 := by
  have hplaces : (whereabouts σ deeds).countP (fun x => t.holds x.2) =
      ((whereabouts σ deeds).map Prod.snd).countP t.holds := (List.countP_map ..).symm
  rw [hplaces, whereabouts_pairs, List.countP_append, ← scale_pairs, ← scale_pairs,
    Scale.session_eq_pairs rfl, Scale.ended]

end Trait

namespace Session

variable [HAppend α String α]

/-- As many pairs with a trait were brought as are somewhere, and no more than the script brings at
any depth. -/
theorem countP_whereabouts (t : Trait α) (script : List (Step α)) :
    let run := ({} : Session α).carryOut script
    let deeds := run.result.flatMap Answer.deeds
    (brought script deeds).countP t.holds =
        (whereabouts run.session deeds).countP (fun x => t.holds x.2) ∧
      (brought script deeds).countP t.holds ≤ (scriptSites script).countP t.holds := by
  intro run deeds
  have hκ : t.scale.list = 0 := rfl
  have hempty : t.scale.session ({} : Session α) = 0 := rfl
  have hconserves : _ + _ = _ + _ := carryOut_conserves hκ t.scale_steady {} script
  have hbounded := carryOut_bounded hκ t.scale_steady script
  rw [hempty, Nat.zero_add, Scale.begun, ← Scale.pairs_append, t.scale_pairs] at hconserves
  rw [t.scale_pairs, ← hconserves] at hbounded
  refine ⟨?_, hbounded⟩
  rw [← t.scale_whereabouts]
  exact hconserves

/-- What is somewhere was brought by a pair with the same traits, and at some depth of the script. -/
theorem exists_brought (t : Trait α) (script : List (Step α)) :
    let run := ({} : Session α).carryOut script
    let deeds := run.result.flatMap Answer.deeds
    ∀ x ∈ whereabouts run.session deeds, t.holds x.2 = true →
      (∃ p ∈ brought script deeds, t.holds p = true) ∧
        ∃ p ∈ scriptSites script, t.holds p = true := by
  intro run deeds x hx ht
  obtain ⟨hcount, hle⟩ := countP_whereabouts t script
  have hpos : 0 < (whereabouts run.session deeds).countP fun x => t.holds x.2 :=
    List.countP_pos_iff.mpr ⟨x, hx, ht⟩
  rw [← hcount] at hpos
  exact ⟨List.countP_pos_iff.mp hpos, List.countP_pos_iff.mp (Nat.lt_of_lt_of_le hpos hle)⟩

theorem exists_site_of_ran (script : List (Step α)) {v : α} {d : Destructor α}
    (h : .ran v d ∈ (({} : Session α).carryOut script).result.flatMap Answer.deeds) :
    ∃ p ∈ scriptSites script, p.destructor = some d := by
  have hplace : (Place.ran, (⟨some v, some d⟩ : Pair α (Destructor α))) ∈
      whereabouts (({} : Session α).carryOut script).session
        ((({} : Session α).carryOut script).result.flatMap Answer.deeds) :=
    List.mem_append_right _ (List.mem_map.mpr ⟨.ran v d, h, rfl⟩)
  have hempty : ¬ ({} : Pair α (Destructor α)).destructor = some d := nofun
  obtain ⟨-, p, hp, hd⟩ := exists_brought (.ofProp (fun p => p.destructor = some d) hempty
    fun _ _ _ => Iff.rfl) script _ hplace ((Trait.holds_ofProp_iff ..).mpr rfl)
  exact ⟨p, hp, (Trait.holds_ofProp_iff ..).mp hd⟩

theorem mem_sites_of_brought (script : List (Step α)) :
    let deeds := (({} : Session α).carryOut script).result.flatMap Answer.deeds
    ∀ p ∈ brought script deeds, p ∈ scriptSites script := by
  intro deeds p hp
  rcases List.mem_append.mp hp with hp | hp
  · exact scriptPairs_subset p hp
  · obtain ⟨x, hx, hp⟩ := List.mem_flatMap.mp hp
    cases x with
    | dropped q loss => cases hp
    | ran v d =>
      obtain ⟨q, hq, hd⟩ := exists_site_of_ran script hx
      refine sites_subset hq hd p ?_
      rw [Destructor.sites_eq]
      exact scriptPairs_subset p hp

end Session

end SlotStore
