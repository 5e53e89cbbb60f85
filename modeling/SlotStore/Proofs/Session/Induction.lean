import SlotStore.Session.Run

/-!
# Induction over runs

Carrying out a script, carrying out a step, finishing a call and tearing pairs down call each other.
This module has the equations of the four, by the session that they leave and what comes of them,
and one induction principle for all four (`Session.Hereditary`): what holds of a call that is over,
and goes from the parts of a run to the whole of it, holds of every run.
-/

namespace SlotStore.Session

variable {α : Type} [HAppend α String α]

/-- Where a call goes on whose pairs have been torn down. -/
def afterTeardown (σ : Session α) (pairs : List (Pair α (Destructor α))) (sequel : Sequel α) :
    Stage α :=
  (σ.runAll pairs).session.resume (σ.runAll pairs).result.1 sequel

/-! ## Equations -/

@[simp] theorem settle_done_session (σ : Session α) (r : Reply α) :
    (σ.settle (.done r)).session = σ := by
  rw [settle]

@[simp] theorem settle_done_result (σ : Session α) (r : Reply α) :
    (σ.settle (.done r)).result = (r, []) := by
  rw [settle]

theorem settle_teardown_session (σ : Session α) (pairs : List (Pair α (Destructor α)))
    (sequel : Sequel α) :
    (σ.settle (.teardown pairs sequel)).session =
      ((σ.afterTeardown pairs sequel).session.settle
        (σ.afterTeardown pairs sequel).work).session := by
  rw [settle, afterTeardown]

theorem settle_teardown_result (σ : Session α) (pairs : List (Pair α (Destructor α)))
    (sequel : Sequel α) :
    (σ.settle (.teardown pairs sequel)).result =
      (((σ.afterTeardown pairs sequel).session.settle
          (σ.afterTeardown pairs sequel).work).result.1,
        (σ.runAll pairs).result.2 ++ (σ.afterTeardown pairs sequel).notes ++
          ((σ.afterTeardown pairs sequel).session.settle
            (σ.afterTeardown pairs sequel).work).result.2) := by
  rw [settle]
  rfl

@[simp] theorem runAll_nil_session (σ : Session α) : (σ.runAll []).session = σ := by
  rw [runAll]

@[simp] theorem runAll_nil_result (σ : Session α) : (σ.runAll []).result = (none, []) := by
  rw [runAll]

section

variable {p : Pair α (Destructor α)} {v : α} {d : Destructor α} {text : String}

theorem runAll_inert (σ : Session α) (h : p.runnable? = none)
    (pairs : List (Pair α (Destructor α))) :
    (σ.runAll (p :: pairs)).session = (σ.runAll pairs).session ∧
    (σ.runAll (p :: pairs)).result.1 = (σ.runAll pairs).result.1 ∧
    (σ.runAll (p :: pairs)).result.2 = .dropped p .inert :: (σ.runAll pairs).result.2 := by
  rw [runAll]
  split
  · exact ⟨rfl, rfl, rfl⟩
  next hs =>
    rw [h] at hs
    cases hs

theorem runAll_panic (σ : Session α) (h : p.runnable? = some (v, d)) (hd : d.panic = some text)
    (pairs : List (Pair α (Destructor α))) :
    (σ.runAll (p :: pairs)).session = (σ.carryOut d.script).session ∧
    (σ.runAll (p :: pairs)).result.1 = some text ∧
    (σ.runAll (p :: pairs)).result.2 =
      .ran v d ((σ.carryOut d.script).result.flatMap Answer.nested) ::
        pairs.map (.dropped · .panicked) := by
  rw [runAll]
  split
  next hn =>
    rw [h] at hn
    cases hn
  next hs =>
    rw [h] at hs
    cases hs
    split
    next ht =>
      rw [hd] at ht
      cases ht
      exact ⟨rfl, rfl, rfl⟩
    next hn =>
      rw [hd] at hn
      cases hn

theorem runAll_ran (σ : Session α) (h : p.runnable? = some (v, d)) (hd : d.panic = none)
    (pairs : List (Pair α (Destructor α))) :
    (σ.runAll (p :: pairs)).session = ((σ.carryOut d.script).session.runAll pairs).session ∧
    (σ.runAll (p :: pairs)).result.1 =
      ((σ.carryOut d.script).session.runAll pairs).result.1 ∧
    (σ.runAll (p :: pairs)).result.2 =
      .ran v d ((σ.carryOut d.script).result.flatMap Answer.nested) ::
        ((σ.carryOut d.script).session.runAll pairs).result.2 := by
  rw [runAll]
  split
  next hn =>
    rw [h] at hn
    cases hn
  next hs =>
    rw [h] at hs
    cases hs
    split
    next ht =>
      rw [hd] at ht
      cases ht
    next hn => exact ⟨rfl, rfl, rfl⟩

end

@[simp] theorem carryOut_nil_session (σ : Session α) : (σ.carryOut []).session = σ := by
  rw [carryOut]

@[simp] theorem carryOut_nil_result (σ : Session α) : (σ.carryOut []).result = [] := by
  rw [carryOut]

theorem carryOut_cons_session (σ : Session α) (s : Step α) (script : List (Step α)) :
    (σ.carryOut (s :: script)).session = ((σ.perform s).session.carryOut script).session := by
  rw [carryOut]

theorem carryOut_cons_result (σ : Session α) (s : Step α) (script : List (Step α)) :
    (σ.carryOut (s :: script)).result =
      (σ.perform s).result :: ((σ.perform s).session.carryOut script).result := by
  rw [carryOut]

theorem perform_session (σ : Session α) (s : Step α) :
    (σ.perform s).session =
      ((σ.start s.call).session.settle (σ.start s.call).work).session := by
  rw [perform]

theorem perform_result (σ : Session α) (s : Step α) :
    (σ.perform s).result =
      ⟨(σ.perform s).session.summary s
          ((σ.start s.call).session.settle (σ.start s.call).work).result.1,
        (σ.start s.call).notes ++
          ((σ.start s.call).session.settle (σ.start s.call).work).result.2⟩ := by
  rw [perform_session, perform]

/-- A step by the stage in which its call begins. -/
theorem perform_of_start {σ : Session α} {s : Step α} {t : Stage α} (h : σ.start s.call = t) :
    (σ.perform s).session = (t.session.settle t.work).session ∧
    (σ.perform s).result.summary.reply = (t.session.settle t.work).result.1 ∧
    (σ.perform s).result.journal = t.notes ++ (t.session.settle t.work).result.2 := by
  subst h
  rw [perform_result]
  exact ⟨perform_session σ s, rfl, rfl⟩

theorem perform_of_done {σ τ : Session α} {s : Step α} {notes : List (Note α)} {r : Reply α}
    (h : σ.start s.call = ⟨τ, notes, .done r⟩) :
    (σ.perform s).session = τ ∧ (σ.perform s).result.summary.reply = r ∧
      (σ.perform s).result.journal = notes := by
  obtain ⟨hsession, hreply, hjournal⟩ := perform_of_start h
  simp only [settle_done_session, settle_done_result, List.append_nil] at hsession hreply hjournal
  exact ⟨hsession, hreply, hjournal⟩

theorem perform_answer (σ : Session α) (s : Step α) :
    (σ.perform s).result =
      ⟨(σ.perform s).session.summary s (σ.perform s).result.summary.reply,
        (σ.perform s).result.journal⟩ := by
  rw [perform_result]
  rfl

theorem settle_of_afterTeardown {σ : Session α} {pairs : List (Pair α (Destructor α))}
    {sequel : Sequel α} {t : Stage α} (h : σ.afterTeardown pairs sequel = t) :
    (σ.settle (.teardown pairs sequel)).session = (t.session.settle t.work).session ∧
    (σ.settle (.teardown pairs sequel)).result.1 = (t.session.settle t.work).result.1 ∧
    (σ.settle (.teardown pairs sequel)).result.2 =
      (σ.runAll pairs).result.2 ++ t.notes ++ (t.session.settle t.work).result.2 := by
  subst h
  rw [settle_teardown_result]
  exact ⟨settle_teardown_session σ pairs sequel, rfl, rfl⟩

theorem carryOut_append (σ : Session α) (script more : List (Step α)) :
    (σ.carryOut (script ++ more)).session = ((σ.carryOut script).session.carryOut more).session ∧
    (σ.carryOut (script ++ more)).result =
      (σ.carryOut script).result ++ ((σ.carryOut script).session.carryOut more).result := by
  induction script generalizing σ with
  | nil =>
    rw [carryOut_nil_session, carryOut_nil_result]
    exact ⟨rfl, rfl⟩
  | cons s script ih =>
    obtain ⟨hs, hr⟩ := ih (σ.perform s).session
    rw [List.cons_append, carryOut_cons_session, carryOut_cons_session, carryOut_cons_result,
      carryOut_cons_result, hr]
    exact ⟨hs, rfl⟩

theorem close_of_none {σ : Session α} (h : σ.lists.first? = none) : σ.close = ([], σ) := by
  rw [close]
  split
  · rfl
  next hs =>
    rw [h] at hs
    cases hs

theorem close_of_first {σ : Session α} {name : String} (h : σ.lists.first? = some name) :
    σ.close = ((name, (σ.perform (dropStep name)).result) ::
        (σ.perform (dropStep name)).session.close.1,
      (σ.perform (dropStep name)).session.close.2) := by
  rw [close]
  split
  next hn =>
    rw [h] at hn
    cases hn
  next hs =>
    rw [h] at hs
    cases hs
    rfl

/-! ## Induction -/

/-- Four statements, one about each function of a run, that go from the parts to the whole. -/
structure Hereditary (Settle : Session α → Work α → Prop)
    (RunAll : Session α → List (Pair α (Destructor α)) → Prop)
    (CarryOut : Session α → List (Step α) → Prop) (Perform : Session α → Step α → Prop) :
    Prop where
  done : ∀ σ r, Settle σ (.done r)
  teardown : ∀ σ pairs sequel, RunAll σ pairs →
    Settle (σ.afterTeardown pairs sequel).session (σ.afterTeardown pairs sequel).work →
    Settle σ (.teardown pairs sequel)
  nil : ∀ σ, RunAll σ []
  inert : ∀ σ p pairs, p.runnable? = none → RunAll σ pairs → RunAll σ (p :: pairs)
  panic : ∀ σ p pairs v d text, p.runnable? = some (v, d) → d.panic = some text →
    CarryOut σ d.script → RunAll σ (p :: pairs)
  ran : ∀ σ p pairs v d, p.runnable? = some (v, d) → d.panic = none → CarryOut σ d.script →
    RunAll (σ.carryOut d.script).session pairs → RunAll σ (p :: pairs)
  finished : ∀ σ, CarryOut σ []
  step : ∀ σ s script, Perform σ s → CarryOut (σ.perform s).session script →
    CarryOut σ (s :: script)
  begun : ∀ σ s, Settle (σ.start s.call).session (σ.start s.call).work → Perform σ s

namespace Hereditary

variable {Settle : Session α → Work α → Prop}
  {RunAll : Session α → List (Pair α (Destructor α)) → Prop}
  {CarryOut : Session α → List (Step α) → Prop} {Perform : Session α → Step α → Prop}
  (c : Hereditary Settle RunAll CarryOut Perform)

include c

mutual

theorem settle (σ : Session α) (work : Work α) : Settle σ work :=
  match work with
  | .done r => c.done σ r
  | .teardown pairs sequel =>
    have _hw : (Work.teardown pairs sequel).load = 1 + pairsLoad pairs + sequel.load := rfl
    have _h₁ := (σ.runAll pairs).load_le
    have _h₂ : (σ.afterTeardown pairs sequel).load ≤ _ := load_resume_le ..
    have _h₃ : (σ.afterTeardown pairs sequel).load =
      (σ.afterTeardown pairs sequel).session.load + (σ.afterTeardown pairs sequel).work.load := rfl
    c.teardown σ pairs sequel (runAll σ pairs)
      (settle (σ.afterTeardown pairs sequel).session (σ.afterTeardown pairs sequel).work)
termination_by (σ.load + work.load, 0)
decreasing_by all_goals exact .left _ _ (by omega)

theorem runAll (σ : Session α) (pairs : List (Pair α (Destructor α))) : RunAll σ pairs :=
  match pairs with
  | [] => c.nil σ
  | p :: pairs =>
    match h : p.runnable? with
    | none =>
      have _hp := pairsLoad_cons p pairs
      c.inert σ p pairs h (runAll σ pairs)
    | some (v, d) =>
      have _hp := pairsLoad_of_runnable? h pairs
      have _h₁ := (σ.carryOut d.script).load_le
      match hd : d.panic with
      | some text => c.panic σ p pairs v d text h hd (carryOut σ d.script)
      | none =>
        c.ran σ p pairs v d h hd (carryOut σ d.script)
          (runAll (σ.carryOut d.script).session pairs)
termination_by (σ.load + pairsLoad pairs, pairs.length)
decreasing_by
  all_goals first
    | exact .left _ _ (by omega)
    | exact Prod.Lex.right' _ (Nat.add_le_add_left (by omega) _) (Nat.lt_succ_self _)

theorem carryOut (σ : Session α) (script : List (Step α)) : CarryOut σ script :=
  match script with
  | [] => c.finished σ
  | s :: script =>
    have h := σ.load_start_lt s.call
    have hs := s.load_eq
    have hc : scriptLoad (s :: script) = 1 + s.load + scriptLoad script := by rw [scriptLoad]
    have h₁ := (σ.perform s).load_le
    c.step σ s script (perform σ s) (carryOut (σ.perform s).session script)
termination_by (σ.load + scriptLoad script, 0)
decreasing_by all_goals exact .left _ _ (by omega)

theorem perform (σ : Session α) (s : Step α) : Perform σ s :=
  have h : (σ.start s.call).session.load + (σ.start s.call).work.load < σ.load + s.load := by
    have := σ.load_start_lt s.call
    rwa [← s.load_eq] at this
  c.begun σ s (settle (σ.start s.call).session (σ.start s.call).work)
termination_by (σ.load + s.load, 0)
decreasing_by exact .left _ _ h

end

end Hereditary

end SlotStore.Session
