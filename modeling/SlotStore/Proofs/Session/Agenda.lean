import Mathlib.Logic.Function.Iterate
import SlotStore.Proofs.Session.Log
import SlotStore.Proofs.Session.Whereabouts

/-!
# Cascades of destructors come to an end

A destructor can store further destructors, make lists and destroy lists whose destructors do the
same, so a run is not over because the lists that were there are gone. An `Agenda` is a session with
everything that is still to be done in it, innermost first, and `Agenda.step` does the next little
bit of it: it looks at the first task only and calls nothing that calls it back. So it says of a run
what the functions that define runs do not, which call themselves until they are done: how it goes
on as long as there is something to do.

Taking steps, an agenda comes to the end of each of its tasks, and leaves the session and the deeds
of the run (`agenda_hereditary`, `leads_close`). What keeps it from going on for ever is that pairs
are taken out of the session before their destructors run, so that what a destructor brings was
counted with it from the beginning; for the same reason no more destructors run than occur in the
script at all depths (`cascades_end`).
-/

namespace SlotStore

variable {α : Type}

/-- Something that is still to be done. -/
inductive Task (α : Type) where
  /-- Steps are carried out. -/
  | script (steps : List (Step α))
  /-- A call that has begun is finished. -/
  | work (w : Work α)
  /-- A destructor panics behind its script: the pairs that were to follow it are let go, and the call
  goes on. -/
  | panic (text : String) (pairs : List (Pair α (Destructor α))) (sequel : Sequel α)
  /-- Lists are dropped until none is left. -/
  | close

/-- What follows the script of a destructor, with a panic or without. -/
def Task.behind (panic : Option String) (pairs : List (Pair α (Destructor α)))
    (sequel : Sequel α) : Task α :=
  match panic with
  | some text => .panic text pairs sequel
  | none => .work (.teardown pairs sequel)

/-- A session, what is still to be done in it, innermost first, and what became of pairs so far. -/
structure Agenda (α : Type) where
  session : Session α
  tasks : List (Task α)
  deeds : List (Deed α)

namespace Agenda

variable [HAppend α String α]

def begin (t : Stage α) (tasks : List (Task α)) (deeds : List (Deed α)) : Agenda α :=
  ⟨t.session, .work t.work :: tasks, deeds ++ journalDeeds t.notes⟩

/-- Does the next little bit of the first task. -/
def step : Agenda α → Agenda α
  | ⟨σ, [], deeds⟩ => ⟨σ, [], deeds⟩
  | ⟨σ, .script [] :: tasks, deeds⟩ => ⟨σ, tasks, deeds⟩
  | ⟨σ, .script (s :: script) :: tasks, deeds⟩ =>
    begin (σ.start s.call) (.script script :: tasks) deeds
  | ⟨σ, .work (.done _) :: tasks, deeds⟩ => ⟨σ, tasks, deeds⟩
  | ⟨σ, .work (.teardown [] sequel) :: tasks, deeds⟩ => begin (σ.resume none sequel) tasks deeds
  | ⟨σ, .work (.teardown (p :: ps) sequel) :: tasks, deeds⟩ =>
    match p.runnable? with
    | none => ⟨σ, .work (.teardown ps sequel) :: tasks, deeds ++ [.dropped p .inert]⟩
    | some (v, d) =>
      ⟨σ, .script d.script :: .behind d.panic ps sequel :: tasks, deeds ++ [.ran v d]⟩
  | ⟨σ, .panic text ps sequel :: tasks, deeds⟩ =>
    begin (σ.resume (some text) sequel) tasks (deeds ++ ps.map (.dropped · .panicked))
  | ⟨σ, .close :: tasks, deeds⟩ =>
    match σ.lists.first? with
    | none => ⟨σ, tasks, deeds⟩
    | some name => begin (σ.start (.dropList name)) (.close :: tasks) deeds

theorem step_inert {p : Pair α (Destructor α)} (h : p.runnable? = none) (σ : Session α)
    (ps : List (Pair α (Destructor α))) (sequel : Sequel α) (tasks : List (Task α))
    (deeds : List (Deed α)) :
    step ⟨σ, .work (.teardown (p :: ps) sequel) :: tasks, deeds⟩ =
      ⟨σ, .work (.teardown ps sequel) :: tasks, deeds ++ [.dropped p .inert]⟩ := by
  rw [step, h]

theorem step_runnable {p : Pair α (Destructor α)} {v : α} {d : Destructor α}
    (h : p.runnable? = some (v, d)) (σ : Session α) (ps : List (Pair α (Destructor α)))
    (sequel : Sequel α) (tasks : List (Task α)) (deeds : List (Deed α)) :
    step ⟨σ, .work (.teardown (p :: ps) sequel) :: tasks, deeds⟩ =
      ⟨σ, .script d.script :: .behind d.panic ps sequel :: tasks, deeds ++ [.ran v d]⟩ := by
  rw [step, h]

/-- Taking steps, the first agenda becomes the second. -/
def Leads (x y : Agenda α) : Prop := ∃ n, step^[n] x = y

theorem Leads.refl (x : Agenda α) : x.Leads x := ⟨0, rfl⟩

theorem Leads.trans {x y z : Agenda α} (h : x.Leads y) (h' : y.Leads z) : x.Leads z := by
  obtain ⟨m, rfl⟩ := h
  obtain ⟨n, rfl⟩ := h'
  exact ⟨n + m, Function.iterate_add_apply step n m x⟩

theorem Leads.of_step {x y z : Agenda α} (hstep : x.step = y) (h : y.Leads z) : x.Leads z := by
  subst hstep
  exact Leads.trans ⟨1, rfl⟩ h

end Agenda

namespace Session

variable [HAppend α String α]

open Agenda (Leads begin)

/-! ## Agendas and runs -/

/-- An agenda comes to the end of its first task, and leaves what the run leaves. -/
theorem agenda_hereditary : Hereditary (α := α)
    (fun σ work => ∀ tasks deeds, Leads ⟨σ, .work work :: tasks, deeds⟩
      ⟨(σ.settle work).session, tasks, deeds ++ journalDeeds (σ.settle work).result.2⟩)
    (fun σ ps => ∀ sequel tasks deeds, Leads ⟨σ, .work (.teardown ps sequel) :: tasks, deeds⟩
      (begin (σ.afterTeardown ps sequel) tasks
        (deeds ++ journalDeeds (σ.runAll ps).result.2)))
    (fun σ script => ∀ tasks deeds, Leads ⟨σ, .script script :: tasks, deeds⟩
      ⟨(σ.carryOut script).session, tasks,
        deeds ++ (σ.carryOut script).result.flatMap Answer.deeds⟩)
    (fun σ s => ∀ tasks deeds, Leads (begin (σ.start s.call) tasks deeds)
      ⟨(σ.perform s).session, tasks, deeds ++ (σ.perform s).result.deeds⟩) where
  done σ r tasks deeds := by
    rw [settle_done_session, settle_done_result, journalDeeds_nil, List.append_nil]
    exact .of_step rfl (.refl _)
  teardown σ ps sequel hruns hrest tasks deeds := by
    obtain ⟨hsession, -, hnotes⟩ :=
      settle_of_afterTeardown (rfl : σ.afterTeardown ps sequel = σ.afterTeardown ps sequel)
    rw [hsession, hnotes, journalDeeds_append, journalDeeds_append, ← List.append_assoc,
      ← List.append_assoc]
    exact (hruns sequel tasks deeds).trans (hrest tasks _)
  nil σ sequel tasks deeds := by
    rw [runAll_nil_result, journalDeeds_nil, List.append_nil, afterTeardown, runAll_nil_session,
      runAll_nil_result]
    exact .of_step rfl (.refl _)
  inert σ p ps hp hrest sequel tasks deeds := by
    obtain ⟨hsession, hpanic, hnotes⟩ := runAll_inert σ hp ps
    have hstep := Agenda.step_inert hp σ ps sequel tasks deeds
    rw [afterTeardown, hsession, hpanic, hnotes, journalDeeds_dropped_cons, List.append_cons]
    exact .of_step hstep (hrest sequel tasks _)
  panic σ p ps v d text hp hd hscript sequel tasks deeds := by
    obtain ⟨hsession, hpanic, hnotes⟩ := runAll_panic σ hp hd ps
    have hstep := Agenda.step_runnable hp σ ps sequel tasks deeds
    rw [afterTeardown, hsession, hpanic, hnotes, journalDeeds_ran, journalDeeds_nested,
      journalDeeds_dropped, List.append_cons, ← List.append_assoc]
    rw [hd] at hstep
    exact .of_step hstep ((hscript _ _).trans (.of_step rfl (.refl _)))
  ran σ p ps v d hp hd hscript hrest sequel tasks deeds := by
    obtain ⟨hsession, hpanic, hnotes⟩ := runAll_ran σ hp hd ps
    have hstep := Agenda.step_runnable hp σ ps sequel tasks deeds
    rw [afterTeardown, hsession, hpanic, hnotes, journalDeeds_ran, journalDeeds_nested,
      List.append_cons, ← List.append_assoc]
    rw [hd] at hstep
    exact .of_step hstep ((hscript _ _).trans (hrest sequel tasks _))
  finished σ tasks deeds := by
    rw [carryOut_nil_session, carryOut_nil_result, List.flatMap_nil, List.append_nil]
    exact .of_step rfl (.refl _)
  step σ s script hfirst hrest tasks deeds := by
    rw [carryOut_cons_session, carryOut_cons_result, List.flatMap_cons, ← List.append_assoc]
    exact .of_step rfl ((hfirst _ _).trans (hrest tasks _))
  begun σ s hrest tasks deeds := by
    obtain ⟨hsession, -, hjournal⟩ := perform_of_start (rfl : σ.start s.call = σ.start s.call)
    rw [hsession, Answer.deeds, hjournal, journalDeeds_append, ← List.append_assoc]
    exact hrest tasks _

theorem leads_close (σ : Session α) (tasks : List (Task α)) (deeds : List (Deed α)) :
    Leads ⟨σ, .close :: tasks, deeds⟩
      ⟨σ.close.2, tasks, deeds ++ (σ.close.1.map Prod.snd).flatMap Answer.deeds⟩ := by
  fun_induction close σ generalizing deeds with
  | case1 σ h =>
    have hstep : Agenda.step ⟨σ, .close :: tasks, deeds⟩ = ⟨σ, tasks, deeds⟩ := by
      rw [Agenda.step, h]
    rw [List.map_nil, List.flatMap_nil, List.append_nil]
    exact .of_step hstep (.refl _)
  | case2 σ name h first hless rest ih =>
    have hstep : Agenda.step ⟨σ, .close :: tasks, deeds⟩ =
        begin (σ.start (.dropList name)) (.close :: tasks) deeds := by
      rw [Agenda.step, h]
    have hdrop := agenda_hereditary.perform σ (dropStep name) (.close :: tasks) deeds
    rw [List.map_cons, List.flatMap_cons, ← List.append_assoc]
    exact .of_step hstep (hdrop.trans (ih _))

theorem leads_play (script : List (Step α)) :
    let main := ({} : Session α).carryOut script
    ∃ deeds, Leads ⟨{}, [.script script, .close], []⟩ ⟨main.session.close.2, [], deeds⟩ ∧
      deeds.filterMap Deed.run? = (play script).logged := by
  intro main
  refine ⟨_, (agenda_hereditary.carryOut {} script [.close] []).trans
    (leads_close main.session [] _), ?_⟩
  rw [Record.logged, logged_eq, List.flatMap_append, List.nil_append]
  rfl

/-- Every agenda comes to its end. -/
theorem agenda_ends (x : Agenda α) : ∃ n, (Agenda.step^[n] x).tasks = [] := by
  obtain ⟨σ, tasks, deeds⟩ := x
  induction tasks generalizing σ deeds with
  | nil => exact ⟨0, rfl⟩
  | cons task tasks ih =>
    -- the first task is done some time, and then the others are
    have hfirst : ∃ σ' deeds', Leads ⟨σ, task :: tasks, deeds⟩ ⟨σ', tasks, deeds'⟩ := by
      cases task with
      | script steps => exact ⟨_, _, agenda_hereditary.carryOut σ steps tasks deeds⟩
      | work w => exact ⟨_, _, agenda_hereditary.settle σ w tasks deeds⟩
      | panic text ps sequel =>
        exact ⟨_, _, .of_step rfl (agenda_hereditary.settle _ _ tasks _)⟩
      | close => exact ⟨_, _, leads_close σ tasks deeds⟩
    obtain ⟨σ', deeds', m, hm⟩ := hfirst
    obtain ⟨n, hn⟩ := ih σ' deeds'
    refine ⟨n + m, ?_⟩
    rw [Function.iterate_add_apply, hm]
    exact hn

/-! ## Counting destructors -/

def armedTrait : Trait α where
  holds p := p.destructor.isSome
  holds_empty := rfl
  holds_append _ _ _ := rfl

theorem length_logged_le (script : List (Step α)) :
    (logged (({} : Session α).carryOut script).result).length ≤
      ((scriptSites script).filterMap Pair.destructor).length := by
  obtain ⟨hcount, hle⟩ := countP_whereabouts armedTrait script
  have hran : ∀ x : Deed α, x.run?.isSome = true → x.pair.destructor.isSome = true := by
    intro x hx
    cases x with
    | ran v d => rfl
    | dropped p loss => cases hx
  rw [hcount] at hle
  rw [logged_eq, List.length_filterMap_eq_countP, List.length_filterMap_eq_countP]
  calc _ ≤ _ := List.countP_mono_left fun x _ => hran x
    _ ≤ _ := armedTrait.countP_deeds_le _ _
    _ ≤ _ := hle

/-- **Cascades of destructors come to an end.** Every agenda comes to its end after finitely many
steps. In every session each step of a script does so with what the run of the step leaves, be it that
a list is destroyed or dropped or a held pair is finalized; and a whole session, with its script and
with the lists dropped behind it until none is left, does so too. The destructors that run in it are
those that it logs, and there are no more of them than occur in its script at all depths. -/
theorem cascades_end (script : List (Step α)) :
    let main := ({} : Session α).carryOut script
    (∀ x : Agenda α, ∃ n, (Agenda.step^[n] x).tasks = []) ∧
    (∀ (σ : Session α) (s : Step α), ∃ n, Agenda.step^[n] ⟨σ, [.script [s]], []⟩ =
      ⟨(σ.perform s).session, [], (σ.perform s).result.deeds⟩) ∧
    ∃ n deeds, Agenda.step^[n] ⟨{}, [.script script, .close], []⟩ =
        ⟨main.session.close.2, [], deeds⟩ ∧
      main.session.close.2.lists.entries = [] ∧
      deeds.filterMap Deed.run? = (play script).logged ∧
      (play script).logged.length ≤ ((scriptSites script).filterMap Pair.destructor).length := by
  intro main
  refine ⟨agenda_ends, fun σ s => ?_, ?_⟩
  · have hscript := agenda_hereditary.carryOut σ [s] [] []
    rw [carryOut_cons_session, carryOut_nil_session, carryOut_cons_result, carryOut_nil_result,
      List.flatMap_cons, List.flatMap_nil, List.append_nil, List.nil_append] at hscript
    exact hscript
  · obtain ⟨deeds, ⟨n, hn⟩, hdeeds⟩ := leads_play script
    obtain ⟨more, hsites, hlogged⟩ := play_logged script
    refine ⟨n, deeds, hn, lists_close main.session, hdeeds, ?_⟩
    rw [hlogged, ← hsites]
    exact length_logged_le (script ++ more)

end Session

end SlotStore
