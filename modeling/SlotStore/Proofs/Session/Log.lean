import SlotStore.Proofs.Session.Marked

/-!
# The log of destructors

The log of a run says which destructors ran, in the order of the deeds of its journal. What a run
logs at its very end, when the lists that are left are dropped, it logs as if the script dropped
them (`close_eq`).
-/

namespace SlotStore

variable {α : Type}

/-- The tag and the value of a log entry that says that a destructor runs. -/
def LogEntry.run? : LogEntry α → Option (String × α)
  | .ran tag v => some (tag, v)
  | .answered _ => none

def Deed.run? : Deed α → Option (String × α)
  | .ran v d => some (d.tag, v)
  | .dropped _ _ => none

/-- The tags and values that are logged during several steps. -/
def logged (answers : List (Answer α)) : List (String × α) :=
  (answers.flatMap Answer.log).filterMap LogEntry.run?

/-- The tags and values that are logged during a whole session. -/
def Session.Record.logged (r : Session.Record α) : List (String × α) :=
  SlotStore.logged (r.answers ++ r.closing.map Prod.snd)

/-! ## Log and deeds -/

mutual

theorem Note.log_runs : ∀ n : Note α, n.log.filterMap LogEntry.run? = n.deeds.filterMap Deed.run?
  | .event e => by rw [Note.log, Note.deeds]; rfl
  | .ran v d inner => by
    rw [Note.log, Note.deeds, List.filterMap_cons, List.filterMap_cons, journalLog_runs inner]
    rfl
  | .dropped p loss => by rw [Note.log, Note.deeds]; rfl
  | .answered s => by rw [Note.log, Note.deeds]; rfl

theorem journalLog_runs : ∀ journal : List (Note α),
    (journalLog journal).filterMap LogEntry.run? = (journalDeeds journal).filterMap Deed.run?
  | [] => by rw [journalLog, journalDeeds]; rfl
  | n :: journal => by
    rw [journalLog, journalDeeds, List.filterMap_append, List.filterMap_append, Note.log_runs n,
      journalLog_runs journal]

end

theorem logged_eq (answers : List (Answer α)) :
    logged answers = (answers.flatMap Answer.deeds).filterMap Deed.run? := by
  rw [logged, List.filterMap_flatMap, List.filterMap_flatMap]
  exact List.flatMap_congr fun a _ => journalLog_runs a.journal

/-! ## Mapped deeds -/

section

variable {β : Type} (f : α → β)

mutual

theorem Note.deeds_map : ∀ n : Note α, (n.map f).deeds = n.deeds.map (Deed.map f)
  | .event e => by rw [Note.map, Note.deeds, Note.deeds]; rfl
  | .ran v d inner => by
    rw [Note.map, Note.deeds, Note.deeds, journalDeeds_map inner]
    rfl
  | .dropped p loss => by rw [Note.map, Note.deeds, Note.deeds]; rfl
  | .answered s => by rw [Note.map, Note.deeds, Note.deeds]; rfl

theorem journalDeeds_map : ∀ journal : List (Note α),
    journalDeeds (journalMap f journal) = (journalDeeds journal).map (Deed.map f)
  | [] => by rw [journalMap, journalDeeds, journalDeeds]; rfl
  | n :: journal => by
    rw [journalMap, journalDeeds, journalDeeds, List.map_append, Note.deeds_map n,
      journalDeeds_map journal]

end

theorem deeds_map (answers : List (Answer α)) :
    (answers.map (Answer.map f)).flatMap Answer.deeds =
      (answers.flatMap Answer.deeds).map (Deed.map f) := by
  rw [List.flatMap_map, List.map_flatMap]
  exact List.flatMap_congr fun a _ => journalDeeds_map f a.journal

end

theorem logged_map {β : Type} (f : α → β) (answers : List (Answer α)) :
    logged (answers.map (Answer.map f)) = (logged answers).map (Prod.map id f) := by
  have hrun : ∀ x : Deed α, (x.map f).run? = x.run?.map (Prod.map id f) := by
    intro x
    cases x with
    | ran v d =>
      cases d
      rw [Deed.map, Destructor.map]
      rfl
    | dropped p loss => rfl
  rw [logged_eq, logged_eq, deeds_map, List.filterMap_map, List.map_filterMap]
  exact List.filterMap_congr fun x _ => hrun x

/-! ## The end of a session -/

namespace Session

theorem scriptSites_dropSteps (names : List String) :
    scriptSites (names.map (dropStep : String → Step α)) = [] := by
  rw [scriptSites_eq, scriptPairs]
  induction names with
  | nil => rfl
  | cons name names ih => exact ih

variable [HAppend α String α]

/-- Closing a session is carrying out a script that drops lists. -/
theorem close_eq (σ : Session α) :
    ∃ names : List String,
      σ.close.2 = (σ.carryOut (names.map dropStep)).session ∧
      σ.close.1.map Prod.snd = (σ.carryOut (names.map dropStep)).result := by
  fun_induction close σ with
  | case1 σ h => exact ⟨[], (carryOut_nil_session σ).symm, (carryOut_nil_result σ).symm⟩
  | case2 σ name h first hless rest ih =>
    obtain ⟨names, hend, hrest⟩ := ih
    refine ⟨name :: names, ?_⟩
    rw [List.map_cons, List.map_cons, carryOut_cons_session, carryOut_cons_result, hrest]
    exact ⟨hend, rfl⟩

theorem lists_close (σ : Session α) : σ.close.2.lists.entries = [] := by
  fun_induction close σ with
  | case1 σ h => exact Named.entries_eq_nil_of_first? h
  | case2 σ name h first hless rest ih => exact ih

theorem logged_play_map {β : Type} [HAppend β String β] {f : α → β}
    (hf : ∀ (v : α) (text : String), f (v ++ text) = f v ++ text) (script : List (Step α)) :
    (play (scriptMap f script)).logged = (play script).logged.map (Prod.map id f) := by
  obtain ⟨hanswers, hclosing⟩ := play_map hf script
  rw [Record.logged, Record.logged, hanswers, hclosing, ← logged_map, List.map_append,
    List.map_map, List.map_map]
  rfl

/-- A whole session logs what a script logs that brings the same pairs. -/
theorem play_logged (script : List (Step α)) :
    ∃ more : List (Step α), scriptSites (script ++ more) = scriptSites script ∧
      (play script).logged = logged (({} : Session α).carryOut (script ++ more)).result := by
  obtain ⟨names, -, hnames⟩ := close_eq (({} : Session α).carryOut script).session
  refine ⟨names.map dropStep, ?_, ?_⟩
  · rw [scriptSites_append, scriptSites_dropSteps, List.append_nil]
  · rw [(carryOut_append {} script _).2, Record.logged, play, hnames]

end Session

end SlotStore
