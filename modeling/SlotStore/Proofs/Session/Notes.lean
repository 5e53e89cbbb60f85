import SlotStore.Proofs.Session.Induction

/-!
# Why pairs are let go

Beginning a call runs nothing. If it lets a pair go, the pair was handed back and not kept, or it was
held and the call drops it or holds another under its name, or it was to be stored and the call
failed (`start_notes`). Going on after a teardown lets none go (`resume_notes`). Tearing pairs down
lets a pair go if it has nothing to run, or behind a destructor that panicked (`runAll_notes`).
-/

namespace SlotStore

variable {α : Type}

/-! ## Deeds of answers -/

theorem journalDeeds_nested (answers : List (Answer α)) :
    journalDeeds (answers.flatMap Answer.nested) = answers.flatMap Answer.deeds := by
  induction answers with
  | nil => exact journalDeeds_nil
  | cons a answers ih =>
    rw [List.flatMap_cons, journalDeeds_append, ih, Answer.nested, journalDeeds_append,
      journalDeeds_cons, journalDeeds_nil, Note.deeds, List.append_nil, List.append_nil,
      List.flatMap_cons, Answer.deeds]

theorem journalDeeds_ran (v : α) (d : Destructor α) (inner journal : List (Note α)) :
    journalDeeds (.ran v d inner :: journal) =
      .ran v d :: (journalDeeds inner ++ journalDeeds journal) := by
  rw [journalDeeds, Note.deeds, List.cons_append]

theorem journalDeeds_dropped_cons (p : Pair α (Destructor α)) (loss : Loss)
    (journal : List (Note α)) :
    journalDeeds (.dropped p loss :: journal) = .dropped p loss :: journalDeeds journal := by
  rw [journalDeeds, Note.deeds, List.singleton_append]

/-! ## Reasons -/

def Reply.failed : Reply α → Prop
  | .fault _ => True
  | .missing _ => True
  | _ => False

/-- What a call does with a pair that it is handed back: it holds it under a name or not at all. The
other calls are handed back no pair. -/
def Call.hold? : Call α → Option (Option String)
  | .set _ _ _ _ _ hold _ => some hold
  | .setHeld _ _ _ _ hold _ => some hold
  | .clear _ _ _ hold => some hold
  | _ => none

/-- The name of the held pair that a call takes. -/
def Call.takes? : Call α → Option String
  | .setHeld _ _ _ held _ _ => some held
  | .finalize held => some held
  | .dropHeld held => some held
  | _ => none

/-- The pair that a call is to store in a list. -/
def Session.toStore? (σ : Session α) : Call α → Option (Pair α (Destructor α))
  | .set _ _ _ v d _ _ => some ⟨some v, d⟩
  | .setHeld _ _ _ held _ _ => σ.held.find? held
  | _ => none

/-- Why a call lets a pair go when it begins, and this is left to do. -/
inductive Session.LetsGo (σ : Session α) (c : Call α) (work : Work α)
    (p : Pair α (Destructor α)) : Loss → Prop
  /-- It is handed back and not kept. -/
  | unkept : c.hold? = some none → work = .done (.pair p) → LetsGo σ c work p .released
  /-- What is handed back takes its name. -/
  | replaced {name : String} {q : Pair α (Destructor α)} : c.hold? = some (some name) →
      work = .done (.pair q) → σ.held.find? name = some p → c.takes? ≠ some name →
      LetsGo σ c work p .released
  | remade {name : String} {v : Option α} {d : Option (Destructor α)} : c = .newHeld name v d →
      σ.held.find? name = some p → LetsGo σ c work p .released
  | dropped {name : String} : c = .dropHeld name → σ.held.find? name = some p →
      LetsGo σ c work p .released
  /-- The call fails or is refused. -/
  | unstored {r : Reply α} : σ.toStore? c = some p → work = .done r → r.failed →
      LetsGo σ c work p .rejected

/-- What can be noted when a call begins: events, and pairs that are let go for a reason. -/
inductive Note.OfCall (σ : Session α) (c : Call α) (work : Work α) : Note α → Prop
  | event (e : Event) : OfCall σ c work (.event e)
  | dropped {p : Pair α (Destructor α)} {loss : Loss} : σ.LetsGo c work p loss →
      OfCall σ c work (.dropped p loss)

namespace Session

/-- All notes of a stage have a reason in the call that began. -/
def Explained (σ : Session α) (c : Call α) (t : Stage α) : Prop :=
  ∀ n ∈ t.notes, Note.OfCall σ c t.work n

section

variable {σ σ' : Session α} {c : Call α} {ps : List (Pair α (Destructor α))}

theorem explained_events {events : List Event} {work : Work α} :
    Explained σ c ⟨σ', events.map .event, work⟩ := by
  intro n hn
  obtain ⟨e, _, rfl⟩ := List.mem_map.mp hn
  exact .event e

theorem explained_event {e : Event} {work : Work α} : Explained σ c ⟨σ', [.event e], work⟩ := by
  intro n hn
  rw [List.mem_singleton.mp hn]
  exact .event e

theorem explained_nil {work : Work α} : Explained σ c ⟨σ', [], work⟩ := by
  intro n hn
  cases hn

theorem explained_reply {r : Reply α} : Explained σ c (σ'.reply r) := explained_nil

theorem ofCall_rejected {work : Work α} {r : Reply α} {n : Note α} (hwork : work = .done r)
    (hr : r.failed) (hps : ∀ p ∈ ps, σ.toStore? c = some p)
    (hn : n ∈ ps.map fun p => Note.dropped p .rejected) : Note.OfCall σ c work n := by
  obtain ⟨p, hp, rfl⟩ := List.mem_map.mp hn
  exact .dropped (.unstored (hps p hp) hwork hr)

theorem explained_withAllocator {name : String} {f : Allocator → Stage α}
    (hps : ∀ p ∈ ps, σ.toStore? c = some p) (hf : ∀ a, Explained σ c (f a)) :
    Explained σ c (σ.withAllocator name ps f) := by
  unfold withAllocator
  split
  · intro n hn
    exact ofCall_rejected rfl trivial hps hn
  · exact hf _

theorem explained_withList {name : String}
    {f : SlotList α (Destructor α) → Session α → Stage α}
    (hps : ∀ p ∈ ps, σ.toStore? c = some p)
    (hf : ∀ l τ, τ.held = σ'.held → Explained σ c (f l τ)) :
    Explained σ c (σ'.withList name ps f) := by
  unfold withList
  split
  · intro n hn
    exact ofCall_rejected rfl trivial hps hn
  next l τ hl =>
    refine hf l τ ?_
    simp only [takeList?, Option.map_eq_some_iff] at hl
    obtain ⟨k, _, hk⟩ := hl
    cases hk
    rfl

theorem explained_withHeld {name : String} {f : Pair α (Destructor α) → Session α → Stage α}
    (hf : ∀ p τ, σ.held.find? name = some p → τ.held = σ.held.without name →
      Explained σ c (f p τ)) :
    Explained σ c (σ.withHeld name f) := by
  unfold withHeld
  split
  · exact explained_reply
  next p τ hp =>
    simp only [takeHeld?, Named.take?, Option.map_map, Option.map_eq_some_iff] at hp
    obtain ⟨q, hq, he⟩ := hp
    cases he
    exact hf q _ hq rfl

/-- What keeping a pair lets go was held before, or nobody keeps the pair itself. -/
theorem ofCall_keep {τ : Session α} {work : Work α} {hold : Option String}
    {p : Pair α (Destructor α)} {n : Note α} (hhold : c.hold? = some hold)
    (hwork : work = .done (.pair p))
    (hheld : ∀ name q, τ.held.find? name = some q →
      σ.held.find? name = some q ∧ c.takes? ≠ some name)
    (hn : n ∈ (τ.keep hold p).2) : Note.OfCall σ c work n := by
  cases hold with
  | none =>
    rw [keep, List.mem_singleton] at hn
    subst hn
    exact .dropped (.unkept hhold hwork)
  | some name =>
    obtain ⟨q, hq, rfl⟩ := List.mem_map.mp hn
    obtain ⟨hfind, htakes⟩ := hheld name q (Option.mem_toList.mp hq)
    exact .dropped (.replaced hhold hwork hfind htakes)

theorem explained_afterExchange {τ : Session α} {name : String} {hold : Option String}
    {o : Outcome (SlotList α (Destructor α)) (Pair α (Destructor α))}
    (hps : ∀ p ∈ ps, σ.toStore? c = some p) (hhold : c.hold? = some hold)
    (hheld : ∀ name q, τ.held.find? name = some q →
      σ.held.find? name = some q ∧ c.takes? ≠ some name) :
    Explained σ c (τ.afterExchange name hold ps o) := by
  unfold afterExchange
  split
  next p _ =>
    intro n hn
    rcases List.mem_append.mp hn with hn | hn
    · obtain ⟨e, _, rfl⟩ := List.mem_map.mp hn
      exact .event e
    · exact ofCall_keep hhold rfl hheld hn
  next f _ =>
    intro n hn
    rcases List.mem_append.mp hn with hn | hn
    · obtain ⟨e, _, rfl⟩ := List.mem_map.mp hn
      exact .event e
    · exact ofCall_rejected rfl trivial hps hn

end

theorem exists_letsGo_of_mem_deeds {σ : Session α} {c : Call α} {t : Stage α}
    (h : Explained σ c t) {x : Deed α} (hx : x ∈ journalDeeds t.notes) :
    ∃ p loss, x = .dropped p loss ∧ σ.LetsGo c t.work p loss := by
  obtain ⟨τ, notes, work⟩ := t
  dsimp only [Explained] at h hx ⊢
  induction notes with
  | nil =>
    rw [journalDeeds_nil] at hx
    cases hx
  | cons n notes ih =>
    rw [journalDeeds_cons, List.mem_append] at hx
    rcases hx with hx | hx
    · cases h n (List.mem_cons_self ..) with
      | event e => cases hx
      | dropped hloss => exact ⟨_, _, List.mem_singleton.mp hx, hloss⟩
    · exact ih (fun m hm => h m (List.mem_cons_of_mem _ hm)) hx

theorem letsGo_of_mem_deeds {σ : Session α} {c : Call α} {t : Stage α} (h : Explained σ c t)
    {p : Pair α (Destructor α)} {loss : Loss} (hp : .dropped p loss ∈ journalDeeds t.notes) :
    σ.LetsGo c t.work p loss := by
  obtain ⟨q, loss', heq, hloss⟩ := exists_letsGo_of_mem_deeds h hp
  cases heq
  exact hloss

theorem not_letsGo_dropList {σ : Session α} {name : String} {work : Work α}
    {p : Pair α (Destructor α)} {loss : Loss} : ¬ σ.LetsGo (.dropList name) work p loss := by
  intro h
  cases h with
  | unkept hhold => cases hhold
  | replaced hhold => cases hhold
  | remade hcall => cases hcall
  | dropped hcall => cases hcall
  | unstored hstore => cases hstore

theorem resume_notes (σ : Session α) (panic : Option String) (sequel : Sequel α) :
    journalDeeds (σ.resume panic sequel).notes = [] := by
  cases sequel with
  | report earlier => exact journalDeeds_nil
  | reinstate name l =>
    rw [resume]
    split
    · exact journalDeeds_nil
    · exact journalDeeds_event _

variable [HAppend α String α]

/-- Beginning a call runs nothing, and lets pairs go only for a reason. -/
theorem start_notes (σ : Session α) (c : Call α) : Explained σ c (σ.start c) := by
  cases c
  case newAllocator name source =>
    simp only [start]
    split
    · exact explained_reply
    · exact explained_events
  case newList name source =>
    simp only [start]
    split
    · exact explained_reply
    · split
      · exact explained_reply
      · exact explained_event
  case set name allocator s v d hold exhausted =>
    have hps : ∀ p ∈ [(⟨some v, d⟩ : Pair α (Destructor α))],
        σ.toStore? (.set name allocator s v d hold exhausted) = some p := by
      intro p hp
      rw [List.mem_singleton.mp hp]
      rfl
    apply explained_withAllocator hps
    intro a
    refine explained_withList hps fun l τ hτ => ?_
    exact explained_afterExchange hps rfl fun other q hq => ⟨hτ ▸ hq, by simp [Call.takes?]⟩
  case setHeld name allocator s held hold exhausted =>
    apply explained_withAllocator (by simp)
    intro a
    apply explained_withHeld
    intro p τ hp hτ
    have hps : ∀ q ∈ [p],
        σ.toStore? (.setHeld name allocator s held hold exhausted) = some q := by
      intro q hq
      rw [List.mem_singleton.mp hq]
      exact hp
    split
    · exact explained_reply
    · apply explained_withList hps
      intro l τ' hτ'
      refine explained_afterExchange hps rfl fun other q hq => ?_
      -- the pair that is to be stored is not held meanwhile
      rw [hτ', hτ] at hq
      refine ⟨Named.find?_of_find?_without hq, fun htakes => ?_⟩
      cases htakes
      rw [Named.find?_without_self] at hq
      cases hq
  case clear name allocator s hold =>
    apply explained_withAllocator (by simp)
    intro a
    apply explained_withList (by simp)
    intro l τ hτ
    exact explained_afterExchange (by simp) rfl fun other q hq =>
      ⟨hτ ▸ hq, by simp [Call.takes?]⟩
  case get name allocator s | append name allocator s text =>
    apply explained_withAllocator (by simp)
    intro a
    exact explained_withList (by simp) fun l τ _ => explained_events
  case destroy name | dropList name =>
    exact explained_withList (by simp) fun l τ _ => explained_event
  case length name | showList name =>
    exact explained_withList (by simp) fun l τ _ => explained_reply
  case newHeld name v d =>
    intro n hn
    obtain ⟨q, hq, rfl⟩ := List.mem_map.mp hn
    exact .dropped (.remade rfl (Option.mem_toList.mp hq))
  case showHeld name => exact explained_withHeld fun p τ _ _ => explained_reply
  case finalize name => exact explained_withHeld fun p τ _ _ => explained_nil
  case dropHeld name =>
    apply explained_withHeld
    intro p τ hp _ n hn
    rw [List.mem_singleton.mp hn]
    exact .dropped (.dropped rfl hp)
  all_goals
    apply explained_withAllocator (by simp)
    intro a
    first
      | exact explained_reply
      | exact explained_events

/-- Tearing pairs down lets one of them go only if it has nothing to run or a destructor before it
panicked. -/
theorem runAll_notes (σ : Session α) (pairs : List (Pair α (Destructor α)))
    {p : Pair α (Destructor α)} {loss : Loss} (h : .dropped p loss ∈ (σ.runAll pairs).result.2) :
    p ∈ pairs ∧ (loss = .inert ∧ p.runnable? = none ∨
      loss = .panicked ∧ ∃ before v d inner after,
        (σ.runAll pairs).result.2 = before ++ .ran v d inner :: after ∧ d.panic.isSome ∧
        .dropped p .panicked ∈ after) := by
  induction pairs generalizing σ with
  | nil =>
    rw [runAll_nil_result] at h
    cases h
  | cons q pairs ih =>
    -- what holds of the notes of the pairs behind `q` holds of all
    have hrest : ∀ (τ : Session α) (n : Note α),
        (σ.runAll (q :: pairs)).result.2 = n :: (τ.runAll pairs).result.2 →
        .dropped p loss ∈ (τ.runAll pairs).result.2 →
        p ∈ q :: pairs ∧ (loss = .inert ∧ p.runnable? = none ∨
          loss = .panicked ∧ ∃ before v d inner after,
            (σ.runAll (q :: pairs)).result.2 = before ++ .ran v d inner :: after ∧
            d.panic.isSome ∧ .dropped p .panicked ∈ after) := by
      intro τ n hn hmem
      obtain ⟨hp, hinert | ⟨hloss, before, v, d, inner, after, hb, hd, ha⟩⟩ := ih τ hmem
      · exact ⟨List.mem_cons_of_mem _ hp, Or.inl hinert⟩
      · refine ⟨List.mem_cons_of_mem _ hp, Or.inr ⟨hloss, n :: before, v, d, inner, after, ?_⟩⟩
        rw [hn, hb]
        exact ⟨rfl, hd, ha⟩
    cases hq : q.runnable? with
    | none =>
      obtain ⟨-, -, hsnd⟩ := runAll_inert σ hq pairs
      rw [hsnd, List.mem_cons] at h
      rcases h with h | h
      · cases h
        exact ⟨List.mem_cons_self .., Or.inl ⟨rfl, hq⟩⟩
      · exact hrest σ _ hsnd h
    | some r =>
      obtain ⟨v, d⟩ := r
      cases hd : d.panic with
      | some text =>
        obtain ⟨-, -, hsnd⟩ := runAll_panic σ hq hd pairs
        rw [hsnd, List.mem_cons] at h
        rcases h with h | h
        · cases h
        · obtain ⟨p', hp', he⟩ := List.mem_map.mp h
          cases he
          refine ⟨List.mem_cons_of_mem _ hp', Or.inr ⟨rfl, [], v, d, _, _, hsnd, ?_, h⟩⟩
          rw [hd]
          rfl
      | none =>
        obtain ⟨-, -, hsnd⟩ := runAll_ran σ hq hd pairs
        rw [hsnd, List.mem_cons] at h
        rcases h with h | h
        · cases h
        · exact hrest _ _ hsnd h

theorem afterTeardown_notes (σ : Session α) (ps : List (Pair α (Destructor α)))
    (sequel : Sequel α) : journalDeeds (σ.afterTeardown ps sequel).notes = [] :=
  resume_notes ..

end Session

end SlotStore
