import SlotStore.Session.Load

/-!
# Running sessions

Steps are carried out one after the other. Destructors run where a call leaves them to run: each
carries out its script in the same session, and one that panics keeps the later ones from running. A
panic ends the step in which it happens and goes no further.

Every part of a run comes with the proof that it leaves at most the load that was there before, so
the next part can follow: what runs is used up.
-/

namespace SlotStore

variable {α : Type}

/-- A session after a part of a run, and what came of that part. -/
structure Within (α : Type) (bound : Nat) (ρ : Type) where
  session : Session α
  result : ρ
  /-- The session can set off no more than before. -/
  load_le : session.load ≤ bound

namespace Session

/-! ## Bounds -/

section

variable {R S : Type} (σ : Session α)

theorem load_le_done (r : Reply α) : σ.load ≤ σ.load + (Work.done r).load :=
  Nat.le_refl _

theorem load_le_teardown {pairs : List (Pair α (Destructor α))} {sequel : Sequel α}
    (runs : Within α (σ.load + pairsLoad pairs) R) {next : Stage α}
    (h : next.load ≤ runs.session.load + sequel.load)
    (rest : Within α (next.session.load + next.work.load) S) :
    rest.session.load ≤ σ.load + (Work.teardown pairs sequel).load := by
  have hw : (Work.teardown pairs sequel).load = 1 + pairsLoad pairs + sequel.load := rfl
  have hn : next.load = next.session.load + next.work.load := rfl
  have h₁ := runs.load_le
  have h₂ := rest.load_le
  omega

theorem load_le_nil : σ.load ≤ σ.load + pairsLoad ([] : List (Pair α (Destructor α))) :=
  Nat.le_refl _

theorem load_le_inert (p : Pair α (Destructor α)) {pairs : List (Pair α (Destructor α))}
    (rest : Within α (σ.load + pairsLoad pairs) R) :
    rest.session.load ≤ σ.load + pairsLoad (p :: pairs) := by
  have hp := pairsLoad_cons p pairs
  have h := rest.load_le
  omega

section

variable {p : Pair α (Destructor α)} {v : α} {d : Destructor α}
  (inner : Within α (σ.load + scriptLoad d.script) R) (h : p.runnable? = some (v, d))

include h

theorem load_le_panic (pairs : List (Pair α (Destructor α))) :
    inner.session.load ≤ σ.load + pairsLoad (p :: pairs) := by
  have hp := pairsLoad_of_runnable? h pairs
  have h₁ := inner.load_le
  omega

theorem load_le_ran {pairs : List (Pair α (Destructor α))}
    (rest : Within α (inner.session.load + pairsLoad pairs) S) :
    rest.session.load ≤ σ.load + pairsLoad (p :: pairs) := by
  have hp := pairsLoad_of_runnable? h pairs
  have h₁ := inner.load_le
  have h₂ := rest.load_le
  omega

end

theorem load_le_finished : σ.load ≤ σ.load + scriptLoad ([] : List (Step α)) :=
  Nat.le_refl _

theorem load_le_step [HAppend α String α] {s : Step α} {script : List (Step α)}
    (first : Within α (σ.start s.call).load R)
    (rest : Within α (first.session.load + scriptLoad script) S) :
    rest.session.load ≤ σ.load + scriptLoad (s :: script) := by
  have h := σ.load_start_lt s.call
  have hs := s.load_eq
  have hc : scriptLoad (s :: script) = 1 + s.load + scriptLoad script := by rw [scriptLoad]
  have h₁ := first.load_le
  have h₂ := rest.load_le
  omega

end

variable [HAppend α String α]

/-! ## Steps -/

mutual

/-- Finishes a call that has begun. Gives its reply and its journal. -/
def settle (σ : Session α) (work : Work α) :
    Within α (σ.load + work.load) (Reply α × List (Note α)) :=
  match work with
  | .done r => ⟨σ, (r, []), σ.load_le_done r⟩
  | .teardown pairs sequel =>
    have _hw : (Work.teardown pairs sequel).load = 1 + pairsLoad pairs + sequel.load := rfl
    let runs := σ.runAll pairs
    let next := runs.session.resume runs.result.1 sequel
    have _h₁ := runs.load_le
    have h₂ : next.load ≤ runs.session.load + sequel.load :=
      runs.session.load_resume_le runs.result.1 sequel
    let rest := next.session.settle next.work
    ⟨rest.session, (rest.result.1, runs.result.2 ++ next.notes ++ rest.result.2),
      σ.load_le_teardown runs h₂ rest⟩
termination_by (σ.load + work.load, 0)
decreasing_by
  all_goals first
    | exact .left _ _ (by omega)
    | exact .left _ _ (Nat.lt_of_le_of_lt h₂ (by omega))

/-- Lets pairs go one after the other and runs their destructors, until one panics. Gives the text
of the panic and the journal. -/
def runAll (σ : Session α) (pairs : List (Pair α (Destructor α))) :
    Within α (σ.load + pairsLoad pairs) (Option String × List (Note α)) :=
  match pairs with
  | [] => ⟨σ, (none, []), σ.load_le_nil⟩
  | p :: pairs =>
    match h : p.runnable? with
    | none =>
      have _hp := pairsLoad_cons p pairs
      let rest := σ.runAll pairs
      ⟨rest.session, (rest.result.1, .dropped p .inert :: rest.result.2),
        σ.load_le_inert p rest⟩
    | some (v, d) =>
      have _hp := pairsLoad_of_runnable? h pairs
      let inner := σ.carryOut d.script
      let note := Note.ran v d (inner.result.flatMap Answer.nested)
      match d.panic with
      | some text =>
        ⟨inner.session, (some text, note :: pairs.map (.dropped · .panicked)),
          σ.load_le_panic inner h pairs⟩
      | none =>
        let rest := inner.session.runAll pairs
        ⟨rest.session, (rest.result.1, note :: rest.result.2), σ.load_le_ran inner h rest⟩
-- a pair that has nothing to run need not have a load, but there is one pair fewer
termination_by (σ.load + pairsLoad pairs, pairs.length)
decreasing_by
  all_goals first
    | exact .left _ _ (by omega)
    | exact .left _ _ (Nat.lt_of_le_of_lt (Nat.add_le_add_right (Within.load_le _) _) (by omega))
    | exact Prod.Lex.right' _ (Nat.add_le_add_left (by omega) _) (Nat.lt_succ_self _)

/-- Carries out the steps of a script. -/
def carryOut (σ : Session α) (script : List (Step α)) :
    Within α (σ.load + scriptLoad script) (List (Answer α)) :=
  match script with
  | [] => ⟨σ, [], σ.load_le_finished⟩
  | s :: script =>
    have h := σ.load_start_lt s.call
    have hs := s.load_eq
    have hc : scriptLoad (s :: script) = 1 + s.load + scriptLoad script := by rw [scriptLoad]
    let first := σ.perform s
    let rest := first.session.carryOut script
    ⟨rest.session, first.result :: rest.result, σ.load_le_step first rest⟩
termination_by (σ.load + scriptLoad script, 0)
decreasing_by
  all_goals first
    | exact .left _ _ (by omega)
    | exact .left _ _ (Nat.lt_of_le_of_lt (Nat.add_le_add_right (Within.load_le _) _) (by omega))

def perform (σ : Session α) (s : Step α) : Within α (σ.start s.call).load (Answer α) :=
  let begun := σ.start s.call
  have h : begun.session.load + begun.work.load < σ.load + s.load := by
    have := σ.load_start_lt s.call
    rwa [← s.load_eq] at this
  let rest := begun.session.settle begun.work
  ⟨rest.session, ⟨rest.session.summary s rest.result.1, begun.notes ++ rest.result.2⟩,
    rest.load_le⟩
termination_by (σ.load + s.load, 0)
decreasing_by exact .left _ _ h

end

/-! ## The end of a session -/

def dropStep (name : String) : Step α := .mk (.dropList name) none (some name)

/-- Drops all lists, the one of the smallest name first, until none is left. Destructors may make
new ones meanwhile. Gives the names and answers, and the session without lists. -/
def close (σ : Session α) : List (String × Answer α) × Session α :=
  match h : σ.lists.first? with
  | none => ([], σ)
  | some name =>
    let first := σ.perform (dropStep name)
    have : first.session.load < σ.load :=
      Nat.lt_of_le_of_lt first.load_le (load_start_dropList_lt (Named.take?_isSome_of_first? h))
    let rest := first.session.close
    ((name, first.result) :: rest.1, rest.2)
termination_by σ.load

/-- What a whole session shows. -/
structure Record (α : Type := String) where
  answers : List (Answer α)
  /-- The answers to the drops at the end, each with the name of its list. -/
  closing : List (String × Answer α)

/-- Plays a script in an empty session, and then drops the lists that are left. -/
def play (script : List (Step α)) : Record α :=
  let main := ({} : Session α).carryOut script
  ⟨main.result, main.session.close.1⟩

end Session

end SlotStore
