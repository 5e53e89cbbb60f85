import SlotStore.Proofs.Session.Notes

/-!
# Conservation of pairs

Calls bring pairs into a session, and a destructor that runs brings what the calls of its script
bring. All of it is in the session afterwards, or it ran, or it was let go: whatever a `Scale`
counts, the sums agree (`carryOut_conserves`).

A pair also carries what its destructor can still bring. Counting that too (`Scale.deep`) the sum
does not depend on which destructors ran: it is no more than what all calls of the script bring at
any depth (`carryOut_bounded`).
-/

namespace SlotStore

section

variable {α : Type}

def scriptPairs (script : List (Step α)) : List (Pair α (Destructor α)) :=
  script.flatMap fun s => s.call.pairs

/-- The pairs that a deed brings: those of the script that runs. -/
def Deed.brought : Deed α → List (Pair α (Destructor α))
  | .ran _ d => scriptPairs d.script
  | .dropped _ _ => []

mutual

/-- The pairs that the script of a destructor brings at any depth. -/
def Destructor.sites : Destructor α → List (Pair α (Destructor α))
  | .mk _ script _ => scriptSites script

def scriptSites : List (Step α) → List (Pair α (Destructor α))
  | [] => []
  | s :: script => s.sites ++ scriptSites script

def Step.sites : Step α → List (Pair α (Destructor α))
  | .mk call _ _ => call.sites

def Call.sites : Call α → List (Pair α (Destructor α))
  | .set _ _ _ v (some d) _ _ => ⟨some v, some d⟩ :: d.sites
  | .set _ _ _ v none _ _ => [⟨some v, none⟩]
  | .newHeld _ v (some d) => ⟨v, some d⟩ :: d.sites
  | .newHeld _ v none => [⟨v, none⟩]
  | _ => []

end

/-- The pairs that a pair can still bring. -/
def Pair.sites (p : Pair α (Destructor α)) : List (Pair α (Destructor α)) :=
  (p.destructor.map Destructor.sites).getD []

theorem Destructor.sites_eq (d : Destructor α) : d.sites = scriptSites d.script := by
  cases d with
  | mk tag steps panic => rw [sites, Destructor.script]

theorem Call.sites_eq (c : Call α) : c.sites = c.pairs.flatMap fun p => p :: p.sites := by
  cases c
  case set l a s v d h e => cases d <;> simp [sites, pairs, Pair.sites]
  case newHeld h v d => cases d <;> simp [sites, pairs, Pair.sites]
  all_goals rfl

theorem scriptSites_eq (script : List (Step α)) :
    scriptSites script = (scriptPairs script).flatMap fun p => p :: p.sites := by
  induction script with
  | nil => rw [scriptSites]; rfl
  | cons s script ih =>
    obtain ⟨c, a, l⟩ := s
    rw [scriptSites, Step.sites, Call.sites_eq, ih]
    simp [scriptPairs, Step.call]

theorem scriptSites_append (script more : List (Step α)) :
    scriptSites (script ++ more) = scriptSites script ++ scriptSites more := by
  simp [scriptSites_eq, scriptPairs]

/-! ## Induction on destructors -/

theorem Step.load_le_scriptLoad {s : Step α} {script : List (Step α)} (h : s ∈ script) :
    s.load ≤ scriptLoad script := by
  induction script with
  | nil => cases h
  | cons t script ih =>
    rw [scriptLoad]
    rcases List.mem_cons.mp h with rfl | h
    · omega
    · have := ih h
      omega

theorem Call.load_of_mem_pairs {c : Call α} {p : Pair α (Destructor α)} {d : Destructor α}
    (hp : p ∈ c.pairs) (hd : p.destructor = some d) : d.load < c.load := by
  cases c
  case set l a s v e hold exhausted =>
    rw [List.mem_singleton.mp hp] at hd
    rw [show e = some d from hd, Call.load]
    omega
  case newHeld h v e =>
    rw [List.mem_singleton.mp hp] at hd
    rw [show e = some d from hd, Call.load]
    omega
  all_goals cases hp

/-- What holds of a destructor if it holds of those that the calls of its script bring, holds of
every destructor. -/
theorem Destructor.induction {P : Destructor α → Prop}
    (h : ∀ d, (∀ s ∈ d.script, ∀ p ∈ s.call.pairs, ∀ e, p.destructor = some e → P e) → P d)
    (d : Destructor α) : P d := by
  refine h d fun s hs p hp e he => ?_
  have hcall := Call.load_of_mem_pairs hp he
  have hstep := Step.load_le_scriptLoad hs
  have hload := d.load_eq
  have heq := s.load_eq
  exact Destructor.induction h e
termination_by d.load
decreasing_by omega

theorem sites_subset_of_nested {script : List (Step α)} {p : Pair α (Destructor α)}
    {d : Destructor α}
    (h : ∀ s ∈ script, ∀ q ∈ s.call.pairs, ∀ e, q.destructor = some e →
      p ∈ e.sites → ∀ r ∈ d.sites, r ∈ e.sites)
    (hp : p ∈ scriptSites script) (hd : p.destructor = some d) :
    ∀ r ∈ d.sites, r ∈ scriptSites script := by
  intro r hr
  rw [scriptSites_eq, List.mem_flatMap] at hp ⊢
  obtain ⟨q, hq, hp⟩ := hp
  refine ⟨q, hq, List.mem_cons_of_mem _ ?_⟩
  rcases List.mem_cons.mp hp with rfl | hp
  · rw [Pair.sites, hd]
    exact hr
  · obtain ⟨s, hs, hqs⟩ := List.mem_flatMap.mp hq
    obtain ⟨v, e⟩ := q
    cases e with
    | none => cases hp
    | some e => exact h s hs _ hqs e rfl hp r hr

theorem Destructor.sites_subset {p : Pair α (Destructor α)} {d : Destructor α}
    (hd : p.destructor = some d) (e : Destructor α) :
    p ∈ e.sites → ∀ r ∈ d.sites, r ∈ e.sites := by
  induction e using Destructor.induction with
  | h e ih =>
    rw [Destructor.sites_eq e]
    exact fun hp => sites_subset_of_nested ih hp hd

theorem sites_subset {script : List (Step α)} {p : Pair α (Destructor α)} {d : Destructor α}
    (hp : p ∈ scriptSites script) (hd : p.destructor = some d) :
    ∀ r ∈ d.sites, r ∈ scriptSites script :=
  sites_subset_of_nested (fun _ _ _ _ e _ => Destructor.sites_subset hd e) hp hd

theorem scriptPairs_subset {script : List (Step α)} :
    ∀ p ∈ scriptPairs script, p ∈ scriptSites script := by
  intro p hp
  rw [scriptSites_eq]
  exact List.mem_flatMap.mpr ⟨p, hp, List.mem_cons_self ..⟩

end

namespace Scale

variable {α : Type} (κ : Scale α)

def ended (deeds : List (Deed α)) : Nat := κ.pairs (deeds.map Deed.pair)

def begun (deeds : List (Deed α)) : Nat := κ.pairs (deeds.flatMap Deed.brought)

@[simp] theorem ended_append (deeds others : List (Deed α)) :
    κ.ended (deeds ++ others) = κ.ended deeds + κ.ended others := by
  simp [ended]

@[simp] theorem begun_append (deeds others : List (Deed α)) :
    κ.begun (deeds ++ others) = κ.begun deeds + κ.begun others := by
  simp [begun]

@[simp] theorem ended_cons (x : Deed α) (deeds : List (Deed α)) :
    κ.ended (x :: deeds) = κ.pair x.pair + κ.ended deeds := by
  simp [ended]

@[simp] theorem begun_cons (x : Deed α) (deeds : List (Deed α)) :
    κ.begun (x :: deeds) = κ.pairs x.brought + κ.begun deeds := by
  simp [begun]

@[simp] theorem ended_nil : κ.ended [] = 0 := rfl

@[simp] theorem begun_nil : κ.begun [] = 0 := rfl

theorem ended_dropped (ps : List (Pair α (Destructor α))) (loss : Loss) :
    κ.ended (ps.map fun p => .dropped p loss) = κ.pairs ps := by
  rw [ended, List.map_map]
  congr 1
  exact List.map_id ps

theorem begun_dropped (ps : List (Pair α (Destructor α))) (loss : Loss) :
    κ.begun (ps.map fun p => .dropped p loss) = 0 := by
  rw [begun, List.flatMap_map]
  have : ps.flatMap (fun p => (Deed.dropped p loss).brought) = [] := by
    rw [List.flatMap_eq_nil_iff]
    intro p _
    rfl
  rw [this, pairs_nil]

theorem begun_of_explained {σ : Session α} {c : Call α} {t : Stage α}
    (h : Session.Explained σ c t) : κ.begun (journalDeeds t.notes) = 0 := by
  have hnone : (journalDeeds t.notes).flatMap Deed.brought = [] := by
    rw [List.flatMap_eq_nil_iff]
    intro x hx
    obtain ⟨p, loss, rfl, -⟩ := Session.exists_letsGo_of_mem_deeds h hx
    rfl
  rw [begun, hnone, pairs_nil]

theorem ended_eq_spent (journal : List (Note α)) :
    κ.ended (journalDeeds journal) = κ.spent journal := rfl

/-- What there was before and what was brought meanwhile is there afterwards, or is used up. -/
def Conserves (before : Nat) (deeds : List (Deed α)) (after : Nat) : Prop :=
  before + κ.begun deeds = after + κ.ended deeds

end Scale

namespace Session

variable {α : Type} {κ : Scale α}

theorem stage_balance {before : Nat} {t : Stage α} (hκ : κ.list = 0)
    (h : κ.Balances before t) : before = κ.stage t + κ.spent t.notes := by
  obtain ⟨gone, h⟩ := h
  rw [hκ, Nat.zero_mul, Nat.add_zero] at h
  exact h

variable [HAppend α String α]

/-- The parts of a run neither make nor lose pairs. -/
theorem conserves_hereditary (hκ : κ.list = 0) (hsteady : κ.Steady) : Hereditary
    (fun σ work => κ.Conserves (κ.session σ + κ.work work)
      (journalDeeds (σ.settle work).result.2) (κ.session (σ.settle work).session))
    (fun σ ps => κ.Conserves (κ.session σ + κ.pairs ps)
      (journalDeeds (σ.runAll ps).result.2) (κ.session (σ.runAll ps).session))
    (fun σ script => κ.Conserves (κ.session σ + κ.pairs (scriptPairs script))
      ((σ.carryOut script).result.flatMap Answer.deeds) (κ.session (σ.carryOut script).session))
    (fun σ s => κ.Conserves (κ.session σ + κ.pairs s.call.pairs)
      (σ.perform s).result.deeds (κ.session (σ.perform s).session)) where
  done σ r := by
    rw [settle_done_session, settle_done_result]
    simp [Scale.Conserves, Scale.work]
  teardown σ ps sequel hruns hrest := by
    have hresume : _ = _ := stage_balance hκ
      (resume_balances (κ := κ) (σ.runAll ps).session (σ.runAll ps).result.1 sequel)
    have hbegun : κ.begun (journalDeeds (σ.afterTeardown ps sequel).notes) = 0 := by
      rw [afterTeardown_notes, Scale.begun_nil]
    obtain ⟨hsession, -, hnotes⟩ :=
      settle_of_afterTeardown (rfl : σ.afterTeardown ps sequel = σ.afterTeardown ps sequel)
    rw [hsession, hnotes]
    simp only [Scale.Conserves, journalDeeds_append, Scale.begun_append, Scale.ended_append,
      Scale.ended_eq_spent, Scale.work, Scale.stage, afterTeardown] at *
    omega
  nil σ := by
    rw [runAll_nil_session, runAll_nil_result]
    simp [Scale.Conserves]
  inert σ p ps hp hrest := by
    obtain ⟨hsession, -, hnotes⟩ := runAll_inert σ hp ps
    rw [hsession, hnotes]
    simp only [Scale.Conserves, journalDeeds_dropped_cons, Scale.begun_cons, Scale.ended_cons,
      Deed.pair, Deed.brought, Scale.pairs_cons, Scale.pairs_nil] at *
    omega
  panic σ p ps v d text hp hd hscript := by
    obtain ⟨hsession, -, hnotes⟩ := runAll_panic σ hp hd ps
    have hpair : p = ⟨some v, some d⟩ := Pair.runnable?_eq_some_iff.mp hp
    rw [hsession, hnotes]
    simp only [Scale.Conserves, journalDeeds_ran, journalDeeds_nested, journalDeeds_dropped,
      Scale.begun_cons, Scale.ended_cons, Scale.begun_append, Scale.ended_append,
      Scale.begun_dropped, Scale.ended_dropped, Deed.pair, Deed.brought, Scale.pairs_cons,
      hpair] at *
    omega
  ran σ p ps v d hp hd hscript hrest := by
    obtain ⟨hsession, -, hnotes⟩ := runAll_ran σ hp hd ps
    have hpair : p = ⟨some v, some d⟩ := Pair.runnable?_eq_some_iff.mp hp
    rw [hsession, hnotes]
    simp only [Scale.Conserves, journalDeeds_ran, journalDeeds_nested, Scale.begun_cons,
      Scale.ended_cons, Scale.begun_append, Scale.ended_append, Deed.pair, Deed.brought,
      Scale.pairs_cons, hpair] at *
    omega
  finished σ := by
    rw [carryOut_nil_session, carryOut_nil_result]
    simp [Scale.Conserves, scriptPairs]
  step σ s script hfirst hrest := by
    rw [carryOut_cons_session, carryOut_cons_result]
    simp only [Scale.Conserves, scriptPairs, List.flatMap_cons, Scale.begun_append,
      Scale.ended_append, Scale.pairs_append] at *
    omega
  begun σ s hrest := by
    have hstart : _ = _ := stage_balance hκ (start_balances (hsteady.ignores σ s.call))
    have hbegun := κ.begun_of_explained (σ.start_notes s.call)
    obtain ⟨hsession, -, hjournal⟩ := perform_of_start (rfl : σ.start s.call = σ.start s.call)
    rw [hsession, Answer.deeds, hjournal]
    simp only [Scale.Conserves, journalDeeds_append, Scale.begun_append, Scale.ended_append,
      Scale.ended_eq_spent, Scale.stage, Scale.call, hκ, Nat.zero_mul] at *
    omega

theorem carryOut_conserves (hκ : κ.list = 0) (hsteady : κ.Steady) (σ : Session α)
    (script : List (Step α)) :
    κ.Conserves (κ.session σ + κ.pairs (scriptPairs script))
      ((σ.carryOut script).result.flatMap Answer.deeds)
      (κ.session (σ.carryOut script).session) :=
  (conserves_hereditary hκ hsteady).carryOut σ script

end Session

/-! ## Counting what can still be brought -/

namespace Scale

variable {α : Type} (κ : Scale α)

/-- Counts a pair together with the pairs that it can still bring. -/
def deep : Scale α where
  list := 0
  pair p := κ.pair p + κ.pairs p.sites
  pair_empty := by rw [κ.pair_empty]; rfl

theorem deep_pairs (ps : List (Pair α (Destructor α))) :
    κ.deep.pairs ps = κ.pairs (ps.flatMap fun p => p :: p.sites) := by
  induction ps with
  | nil => rfl
  | cons p ps ih =>
    rw [pairs_cons, ih, List.flatMap_cons, pairs_append, pairs_cons]
    rfl

theorem deep_scriptPairs (script : List (Step α)) :
    κ.deep.pairs (scriptPairs script) = κ.pairs (scriptSites script) := by
  rw [deep_pairs, scriptSites_eq]

theorem pairs_le_deep (ps : List (Pair α (Destructor α))) : κ.pairs ps ≤ κ.deep.pairs ps := by
  induction ps with
  | nil => exact Nat.le_refl 0
  | cons p ps ih =>
    rw [pairs_cons, pairs_cons]
    exact Nat.add_le_add (Nat.le_add_right _ _) ih

theorem ended_add_begun_le_deep (deeds : List (Deed α)) :
    κ.ended deeds + κ.deep.begun deeds ≤ κ.deep.ended deeds := by
  induction deeds with
  | nil => exact Nat.le_refl 0
  | cons x deeds ih =>
    have hx : κ.pair x.pair + κ.deep.pairs x.brought ≤ κ.deep.pair x.pair := by
      cases x with
      | ran v d =>
        rw [Deed.brought, deep_scriptPairs, ← Destructor.sites_eq]
        exact Nat.le_refl _
      | dropped p loss => exact Nat.le_add_right _ _
    rw [ended_cons, begun_cons, ended_cons]
    omega

section

variable {κ} [HAppend α String α]

theorem Steady.deep (h : κ.Steady) : κ.deep.Steady := fun v text d =>
  congrArg (· + κ.pairs (Pair.sites ⟨some v, d⟩)) (h v text d)

theorem Ignores.deep {σ : Session α} {c : Call α} (h : κ.Ignores σ c) : κ.deep.Ignores σ c := by
  cases c
  case append name allocator s text =>
    exact fun a l ha hl hs => congrArg (· + κ.pairs (l.pairAt s.index).sites) (h a l ha hl hs)
  all_goals exact trivial

end

theorem session_le_deep (hκ : κ.list = 0) (σ : Session α) : κ.session σ ≤ κ.deep.session σ := by
  apply Nat.add_le_add
  · apply Named.total_le_total
    intro l
    rw [ofList, ofList, hκ]
    exact Nat.add_le_add (Nat.le_refl 0) (κ.pairs_le_deep l.entries)
  · apply Named.total_le_total
    intro p
    exact Nat.le_add_right _ _

end Scale

namespace Session

variable {α : Type} [HAppend α String α] {κ : Scale α}

/-- What is in a session after a script or was used up during it is no more than what the calls of
the script bring at any depth: no pair is there twice. -/
theorem carryOut_bounded (hκ : κ.list = 0) (hsteady : κ.Steady) (script : List (Step α)) :
    κ.session (({} : Session α).carryOut script).session +
        κ.ended ((({} : Session α).carryOut script).result.flatMap Answer.deeds) ≤
      κ.pairs (scriptSites script) := by
  -- counted at any depth, all that is ever brought is there from the beginning
  have hdeep : _ + _ = _ + _ := carryOut_conserves (κ := κ.deep) rfl hsteady.deep {} script
  have hempty : κ.deep.session ({} : Session α) = 0 := rfl
  rw [hempty, Nat.zero_add, κ.deep_scriptPairs] at hdeep
  have hsession := κ.session_le_deep hκ (({} : Session α).carryOut script).session
  have hended := κ.ended_add_begun_le_deep
    ((({} : Session α).carryOut script).result.flatMap Answer.deeds)
  omega

end Session

end SlotStore
