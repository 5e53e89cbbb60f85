import SlotStore.Proofs.Session.Induction

/-!
# Sessions that no call can tell apart

A session only ever looks things up by their names. So sessions that have the same things under all
names (`Alike`) answer every script alike and are alike after it (`alike_hereditary`), in whatever
order the names were given.
-/

namespace SlotStore

namespace Named

variable {γ : Type} {n m : Named γ}

/-- The same things under the same names. -/
def Alike (n m : Named γ) : Prop := ∀ name, n.find? name = m.find? name

theorem Alike.without (h : n.Alike m) (name : String) :
    (n.without name).Alike (m.without name) := by
  intro other
  by_cases ho : other = name
  · rw [ho, find?_without_self, find?_without_self]
  · rw [find?_without_of_ne ho, find?_without_of_ne ho]
    exact h other

theorem Alike.put (h : n.Alike m) (name : String) (c : γ) :
    (n.put name c).Alike (m.put name c) := by
  intro other
  by_cases ho : other = name
  · rw [ho, find?_put_self, find?_put_self]
  · rw [find?_put_of_ne ho, find?_put_of_ne ho]
    exact h other

theorem alike_put_of_find? {name : String} {c : γ} (h : n.find? name = some c) :
    (n.put name c).Alike n := by
  intro other
  by_cases ho : other = name
  · rw [ho, find?_put_self, h]
  · rw [find?_put_of_ne ho]

end Named

namespace Session

section

variable {α : Type}

/-- The same allocators, lists and held pairs under the same names. -/
structure Alike (σ τ : Session α) : Prop where
  allocators : σ.allocators.Alike τ.allocators
  lists : σ.lists.Alike τ.lists
  held : σ.held.Alike τ.held

/-- Two calls are equally far, in sessions that are alike. -/
structure StageAlike (t u : Stage α) : Prop where
  session : t.session.Alike u.session
  notes : t.notes = u.notes
  work : t.work = u.work

variable {σ τ : Session α}

theorem Alike.refl (σ : Session α) : σ.Alike σ :=
  ⟨fun _ => rfl, fun _ => rfl, fun _ => rfl⟩

theorem Alike.symm (h : σ.Alike τ) : τ.Alike σ :=
  ⟨fun name => (h.allocators name).symm, fun name => (h.lists name).symm,
    fun name => (h.held name).symm⟩

theorem Alike.trans {υ : Session α} (h : σ.Alike τ) (h' : τ.Alike υ) : σ.Alike υ :=
  ⟨fun name => (h.allocators name).trans (h'.allocators name),
    fun name => (h.lists name).trans (h'.lists name),
    fun name => (h.held name).trans (h'.held name)⟩

theorem Alike.putAllocator (h : σ.Alike τ) (name : String) (a : Allocator) :
    (σ.putAllocator name a).Alike (τ.putAllocator name a) :=
  ⟨h.allocators.put name a, h.lists, h.held⟩

theorem Alike.putList (h : σ.Alike τ) (name : String) (l : SlotList α (Destructor α)) :
    (σ.putList name l).Alike (τ.putList name l) :=
  ⟨h.allocators, h.lists.put name l, h.held⟩

theorem Alike.reply (h : σ.Alike τ) (r : Reply α) : StageAlike (σ.reply r) (τ.reply r) :=
  ⟨h, rfl, rfl⟩

theorem Alike.hold (h : σ.Alike τ) (name : String) (p : Pair α (Destructor α)) :
    (σ.hold name p).1.Alike (τ.hold name p).1 ∧ (σ.hold name p).2 = (τ.hold name p).2 := by
  rw [Session.hold, Session.hold, h.held name]
  exact ⟨⟨h.allocators, h.lists, h.held.put name p⟩, rfl⟩

theorem Alike.keep (h : σ.Alike τ) (hold : Option String) (p : Pair α (Destructor α)) :
    (σ.keep hold p).1.Alike (τ.keep hold p).1 ∧ (σ.keep hold p).2 = (τ.keep hold p).2 := by
  cases hold with
  | none => exact ⟨h, rfl⟩
  | some name => exact h.hold name p

/-! ## Beginning and going on with a call -/

theorem alike_withAllocator (h : σ.Alike τ) {name : String} {ps : List (Pair α (Destructor α))}
    {f g : Allocator → Stage α} (hf : ∀ a, StageAlike (f a) (g a)) :
    StageAlike (σ.withAllocator name ps f) (τ.withAllocator name ps g) := by
  rw [withAllocator, withAllocator, h.allocators name]
  cases τ.allocators.find? name with
  | none => exact ⟨h, rfl, rfl⟩
  | some a => exact hf a

theorem alike_withList (h : σ.Alike τ) {name : String} {ps : List (Pair α (Destructor α))}
    {f g : SlotList α (Destructor α) → Session α → Stage α}
    (hf : ∀ l σ' τ', σ'.Alike τ' → StageAlike (f l σ') (g l τ')) :
    StageAlike (σ.withList name ps f) (τ.withList name ps g) := by
  rw [withList, withList, takeList?, takeList?, Named.take?, Named.take?, h.lists name]
  cases τ.lists.find? name with
  | none => exact ⟨h, rfl, rfl⟩
  | some l => exact hf l _ _ ⟨h.allocators, h.lists.without name, h.held⟩

theorem alike_withHeld (h : σ.Alike τ) {name : String}
    {f g : Pair α (Destructor α) → Session α → Stage α}
    (hf : ∀ p σ' τ', σ'.Alike τ' → StageAlike (f p σ') (g p τ')) :
    StageAlike (σ.withHeld name f) (τ.withHeld name g) := by
  rw [withHeld, withHeld, takeHeld?, takeHeld?, Named.take?, Named.take?, h.held name]
  cases τ.held.find? name with
  | none => exact h.reply _
  | some p => exact hf p _ _ ⟨h.allocators, h.lists, h.held.without name⟩

theorem alike_afterExchange (h : σ.Alike τ) {name : String} {hold : Option String}
    {ps : List (Pair α (Destructor α))}
    {o : Outcome (SlotList α (Destructor α)) (Pair α (Destructor α))} :
    StageAlike (σ.afterExchange name hold ps o) (τ.afterExchange name hold ps o) := by
  unfold afterExchange
  split
  next p _ =>
    obtain ⟨hsession, hnotes⟩ := h.keep hold p
    exact ⟨hsession.putList name o.state, congrArg (o.events.map Note.event ++ ·) hnotes, rfl⟩
  · exact ⟨h.putList name o.state, rfl, rfl⟩

theorem alike_resume (h : σ.Alike τ) (panic : Option String) (sequel : Sequel α) :
    StageAlike (σ.resume panic sequel) (τ.resume panic sequel) := by
  cases sequel with
  | report earlier => exact h.reply _
  | reinstate name l =>
    rw [resume, resume, takeList?, takeList?, Named.take?, Named.take?, h.lists name]
    cases τ.lists.find? name with
    | none => exact (h.putList name l).reply _
    | some other =>
      have haway : Session.Alike { σ with lists := σ.lists.without name }
          { τ with lists := τ.lists.without name } :=
        ⟨h.allocators, h.lists.without name, h.held⟩
      exact ⟨haway.putList name l, rfl, rfl⟩

theorem Alike.summary (h : σ.Alike τ) (s : Step α) (r : Reply α) :
    σ.summary s r = τ.summary s r := by
  have hstats : (fun a => (σ.allocators.find? a).map Allocator.stats) =
      fun a => (τ.allocators.find? a).map Allocator.stats :=
    funext fun a => by rw [h.allocators a]
  have hlength : (fun l => (σ.lists.find? l).map SlotList.length) =
      fun l => (τ.lists.find? l).map SlotList.length :=
    funext fun l => by rw [h.lists l]
  rw [Session.summary, Session.summary, hstats, hlength]

end

variable {α : Type} [HAppend α String α]

theorem alike_start {σ τ : Session α} (h : σ.Alike τ) (c : Call α) :
    StageAlike (σ.start c) (τ.start c) := by
  cases c
  case newAllocator name source =>
    rw [start, start]
    cases (limitsOf source : Except (Reply α) Limits) with
    | error r => exact h.reply r
    | ok limits => exact ⟨h.putAllocator name _, rfl, rfl⟩
  case newList name source =>
    rw [start, start]
    cases (limitsOf source : Except (Reply α) Limits) with
    | error r => exact h.reply r
    | ok limits =>
      simp only [takeList?, Named.take?, h.lists name]
      cases τ.lists.find? name with
      | none => exact (h.putList name _).reply .done
      | some l => exact ⟨⟨h.allocators, h.lists.without name, h.held⟩, rfl, rfl⟩
  case set name allocator s v d hold exhausted | clear name allocator s hold =>
    apply alike_withAllocator h
    intro a
    exact alike_withList h fun l σ' τ' h' => alike_afterExchange h'
  case setHeld name allocator s held hold exhausted =>
    apply alike_withAllocator h
    intro a
    apply alike_withHeld h
    intro p σ' τ' h'
    cases p.value with
    | none => exact h.reply _
    | some v => exact alike_withList h' fun l σ'' τ'' h'' => alike_afterExchange h''
  case get name allocator s | append name allocator s text =>
    apply alike_withAllocator h
    intro a
    exact alike_withList h fun l σ' τ' h' => ⟨h'.putList name _, rfl, rfl⟩
  case destroy name | dropList name =>
    exact alike_withList h fun l σ' τ' h' => ⟨h', rfl, rfl⟩
  case length name | showList name => exact alike_withList h fun l σ' τ' _ => h.reply _
  case newHeld name v d =>
    obtain ⟨hsession, hnotes⟩ := h.hold name ⟨v, d⟩
    exact ⟨hsession, hnotes, rfl⟩
  case showHeld name => exact alike_withHeld h fun p σ' τ' _ => h.reply _
  case finalize name | dropHeld name =>
    exact alike_withHeld h fun p σ' τ' h' => ⟨h', rfl, rfl⟩
  -- the others put an allocator back, or change nothing
  all_goals
    apply alike_withAllocator h
    intro a
    first
      | exact ⟨h.putAllocator _ _, rfl, rfl⟩
      | exact h.reply _

/-! ## Runs -/

/-- Runs in sessions that are alike have the same results and leave sessions that are alike. -/
theorem alike_hereditary : Hereditary (α := α)
    (fun σ work => ∀ τ, σ.Alike τ →
      (σ.settle work).session.Alike (τ.settle work).session ∧
      (σ.settle work).result = (τ.settle work).result)
    (fun σ ps => ∀ τ, σ.Alike τ →
      (σ.runAll ps).session.Alike (τ.runAll ps).session ∧
      (σ.runAll ps).result = (τ.runAll ps).result)
    (fun σ script => ∀ τ, σ.Alike τ →
      (σ.carryOut script).session.Alike (τ.carryOut script).session ∧
      (σ.carryOut script).result = (τ.carryOut script).result)
    (fun σ s => ∀ τ, σ.Alike τ →
      (σ.perform s).session.Alike (τ.perform s).session ∧
      (σ.perform s).result = (τ.perform s).result) where
  done σ r τ h := by
    rw [settle_done_session, settle_done_session, settle_done_result, settle_done_result]
    exact ⟨h, rfl⟩
  teardown σ ps sequel hruns hrest τ h := by
    obtain ⟨hsession, hresult⟩ := hruns τ h
    have hafter : StageAlike (σ.afterTeardown ps sequel) (τ.afterTeardown ps sequel) := by
      rw [afterTeardown, afterTeardown, hresult]
      exact alike_resume hsession _ sequel
    obtain ⟨hend, hreply⟩ := hrest _ hafter.session
    rw [hafter.work] at hend hreply
    rw [settle_teardown_session, settle_teardown_session, settle_teardown_result,
      settle_teardown_result, hresult, hafter.notes, hafter.work, hreply]
    exact ⟨hend, rfl⟩
  nil σ τ h := by
    rw [runAll_nil_session, runAll_nil_session, runAll_nil_result, runAll_nil_result]
    exact ⟨h, rfl⟩
  inert σ p ps hp hrest τ h := by
    obtain ⟨hsession, hresult⟩ := hrest τ h
    obtain ⟨hs, hpanic, hnotes⟩ := runAll_inert σ hp ps
    obtain ⟨hs', hpanic', hnotes'⟩ := runAll_inert τ hp ps
    rw [hs, hs']
    refine ⟨hsession, Prod.ext ?_ ?_⟩
    · rw [hpanic, hpanic', hresult]
    · rw [hnotes, hnotes', hresult]
  panic σ p ps v d text hp hd hscript τ h := by
    obtain ⟨hsession, hresult⟩ := hscript τ h
    obtain ⟨hs, hpanic, hnotes⟩ := runAll_panic σ hp hd ps
    obtain ⟨hs', hpanic', hnotes'⟩ := runAll_panic τ hp hd ps
    rw [hs, hs']
    refine ⟨hsession, Prod.ext ?_ ?_⟩
    · rw [hpanic, hpanic']
    · rw [hnotes, hnotes', hresult]
  ran σ p ps v d hp hd hscript hrest τ h := by
    obtain ⟨hsession, hresult⟩ := hscript τ h
    obtain ⟨hend, hmore⟩ := hrest _ hsession
    obtain ⟨hs, hpanic, hnotes⟩ := runAll_ran σ hp hd ps
    obtain ⟨hs', hpanic', hnotes'⟩ := runAll_ran τ hp hd ps
    rw [hs, hs']
    refine ⟨hend, Prod.ext ?_ ?_⟩
    · rw [hpanic, hpanic', hmore]
    · rw [hnotes, hnotes', hresult, hmore]
  finished σ τ h := by
    rw [carryOut_nil_session, carryOut_nil_session, carryOut_nil_result, carryOut_nil_result]
    exact ⟨h, rfl⟩
  step σ s script hfirst hrest τ h := by
    obtain ⟨hsession, hresult⟩ := hfirst τ h
    obtain ⟨hend, hmore⟩ := hrest _ hsession
    rw [carryOut_cons_session, carryOut_cons_session, carryOut_cons_result, carryOut_cons_result,
      hresult, hmore]
    exact ⟨hend, rfl⟩
  begun σ s hrest τ h := by
    have hstart := alike_start h s.call
    obtain ⟨hend, hresult⟩ := hrest _ hstart.session
    rw [hstart.work] at hend hresult
    have hsession : (σ.perform s).session.Alike (τ.perform s).session := by
      rw [perform_session, perform_session, hstart.work]
      exact hend
    refine ⟨hsession, ?_⟩
    rw [perform_result, perform_result, hsession.summary, hstart.work, hresult, hstart.notes]

end Session

end SlotStore
