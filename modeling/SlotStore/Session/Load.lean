import SlotStore.Session.Stock

/-!
# Load

The load of a session bounds what its destructors can still set off: a pair counts as much as its
destructor, a list a little more than its pairs. Since a call neither makes nor loses any of this
(`Session.start_balances`), beginning a call leaves strictly less to do than the session and the call
together (`load_start_lt`). So every script comes to an end.
-/

namespace SlotStore

variable {α : Type}

/-- Counts a pair as much as its destructor can set off, and a list because it can be dropped. -/
def loadScale (α : Type) : Scale α where
  list := 2
  pair p := optionalLoad p.destructor
  pair_empty := rfl

def pairsLoad (pairs : List (Pair α (Destructor α))) : Nat := (loadScale α).pairs pairs

def Sequel.load (s : Sequel α) : Nat := (loadScale α).sequel s

def Work.load : Work α → Nat
  | done _ => 0
  | teardown pairs sequel => 1 + pairsLoad pairs + sequel.load

/-- The load of a session: that of all its lists and held pairs. -/
def Session.load (σ : Session α) : Nat := (loadScale α).session σ

def Stage.load (t : Stage α) : Nat := t.session.load + t.work.load

theorem pairsLoad_cons (p : Pair α (Destructor α)) (pairs : List (Pair α (Destructor α))) :
    pairsLoad (p :: pairs) = optionalLoad p.destructor + pairsLoad pairs :=
  (loadScale α).pairs_cons p pairs

theorem pairsLoad_of_runnable? {p : Pair α (Destructor α)} {v : α} {d : Destructor α}
    (h : p.runnable? = some (v, d)) (pairs : List (Pair α (Destructor α))) :
    pairsLoad (p :: pairs) = 2 + scriptLoad d.script + pairsLoad pairs := by
  obtain ⟨w, e⟩ := p
  cases w with
  | none => cases h
  | some w =>
    cases e with
    | none => cases h
    | some e =>
      cases h
      rw [pairsLoad_cons, optionalLoad, Destructor.load_eq]
      omega

theorem loadScale_singleton (p : Pair α (Destructor α)) :
    (loadScale α).pairs [p] = optionalLoad p.destructor :=
  rfl

theorem Call.load_ge (c : Call α) : (loadScale α).call c + 2 ≤ c.load := by
  cases c
  case set l a s v d h e =>
    show (loadScale α).pairs [⟨some v, d⟩] + 0 + 2 ≤ _
    rw [loadScale_singleton]
    cases d with
    | none => simp [Call.load, optionalLoad]
    | some d =>
      simp only [Call.load, optionalLoad]
      omega
  case newHeld h v d =>
    show (loadScale α).pairs [⟨v, d⟩] + 0 + 2 ≤ _
    rw [loadScale_singleton]
    cases d with
    | none => simp [Call.load, optionalLoad]
    | some d =>
      simp only [Call.load, optionalLoad]
      omega
  all_goals simp [Scale.call, Call.pairs, Call.lists, Call.load, loadScale]

namespace Session

theorem load_stage_le (t : Stage α) : t.load ≤ (loadScale α).stage t + 1 := by
  obtain ⟨σ, notes, work⟩ := t
  cases work with
  | done r => simp [Stage.load, Scale.stage, Scale.work, Work.load, load]
  | teardown pairs sequel =>
    simp only [Stage.load, Scale.stage, Scale.work, Work.load, load, pairsLoad, Sequel.load]
    omega

/-- Beginning a call leaves strictly less to do than the session and the call together. -/
theorem load_start_lt [HAppend α String α] (σ : Session α) (c : Call α) :
    (σ.start c).load < σ.load + c.load := by
  have hsteady : (loadScale α).Steady := fun _ _ _ => rfl
  obtain ⟨gone, h⟩ := start_balances (hsteady.ignores σ c)
  have h₁ := load_stage_le (σ.start c)
  have h₂ := c.load_ge
  simp only [load]
  omega

theorem load_start_dropList_lt [HAppend α String α] {σ : Session α} {name : String}
    (h : (σ.lists.take? name).isSome) : (σ.start (.dropList name)).load < σ.load := by
  obtain ⟨⟨l, lists⟩, hl⟩ := Option.isSome_iff_exists.mp h
  have ht : σ.takeList? name = some (l, { σ with lists }) := by rw [takeList?, hl]; rfl
  have hs := ((loadScale α).session_of_takeList? ht).1
  simp only [start, withList, ht, Stage.load, Work.load, Sequel.load, Scale.sequel, load,
    Scale.ofList, pairsLoad] at hs ⊢
  have : (loadScale α).list = 2 := rfl
  omega

/-- Going on with a sequel leaves no more to do than the session and the sequel together. -/
theorem load_resume_le (σ : Session α) (panic : Option String) (sequel : Sequel α) :
    (σ.resume panic sequel).load ≤ σ.load + sequel.load := by
  cases sequel with
  | report earlier => exact Nat.le_refl _
  | reinstate name l =>
    simp only [resume]
    split
    next hl =>
      have := (loadScale α).session_putList (takeList?_eq_none_iff.mp hl) l
      simp only [Stage.load, reply, Work.load, load, Sequel.load, Scale.sequel] at this ⊢
      omega
    next other σ' hl =>
      obtain ⟨hs, hn⟩ := (loadScale α).session_of_takeList? hl
      have := (loadScale α).session_putList hn l
      have hlist : (loadScale α).list = 2 := rfl
      simp only [Stage.load, Work.load, load, Sequel.load, Scale.sequel, Scale.ofList, pairsLoad]
        at hs this ⊢
      omega

end Session

end SlotStore
