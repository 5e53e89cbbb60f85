import SlotStore.Proofs.Session.Map

/-!
# Runs of mapped scripts

A session never looks at values, it only moves them and puts texts behind them. So a map between
values that respects putting a text behind takes the run of a script to the run of the mapped
script: the same steps happen in the same order, and only the values in the answers are mapped
(`carryOut_map`).
-/

namespace SlotStore

variable {α β : Type} (f : α → β)

/-! ## Named things -/

namespace Named

variable {γ ε : Type}

theorem ext_entries {n m : Named γ} (h : n.entries = m.entries) : n = m := by
  obtain ⟨entries, distinct⟩ := n
  cases h
  rfl

theorem find?_map (g : γ → ε) (n : Named γ) (name : String) :
    (n.map g).find? name = (n.find? name).map g := by
  obtain ⟨entries, distinct⟩ := n
  simp only [find?, map]
  clear distinct
  induction entries with
  | nil => rfl
  | cons e entries ih =>
    rw [List.map_cons, List.lookup_cons, List.lookup_cons, ih]
    split <;> rfl

theorem first?_map (g : γ → ε) (n : Named γ) : (n.map g).first? = n.first? := by
  rw [first?, first?, map, List.foldr_map]

theorem without_map (g : γ → ε) (n : Named γ) (name : String) :
    (n.map g).without name = (n.without name).map g := by
  apply ext_entries
  simp only [without, map, List.filter_map]
  rfl

theorem put_map (g : γ → ε) (n : Named γ) (name : String) (c : γ) :
    (n.map g).put name (g c) = (n.put name c).map g := by
  apply ext_entries
  simp only [put, without_map]
  rfl

end Named

/-! ## Lists -/

namespace Pair

theorem runnable?_mapValues (p : Pair α (Destructor α)) :
    (p.mapValues f).runnable? = p.runnable?.map fun r => (f r.1, r.2.map f) := by
  obtain ⟨v, d⟩ := p
  cases v <;> cases d <;> rfl

end Pair

/-- An outcome with its state and its answer mapped. -/
def Outcome.map {σ τ ρ ρ' : Type} (g : σ → τ) (h : ρ → ρ') (o : Outcome σ ρ) : Outcome τ ρ' :=
  ⟨g o.state, o.answer.map h, o.events⟩

namespace SlotList

theorem length_mapValues (l : SlotList α (Destructor α)) : (l.mapValues f).length = l.length :=
  List.length_map ..

theorem pairAt_mapValues (l : SlotList α (Destructor α)) (i : Nat) :
    (l.mapValues f).pairAt i = (l.pairAt i).mapValues f := by
  rw [pairAt, mapValues, List.getElem?_map, pairAt]
  cases l.entries[i]? <;> rfl

theorem exchange_mapValues (l : SlotList α (Destructor α)) (i : Nat)
    (p : Pair α (Destructor α)) :
    (l.mapValues f).exchange i (p.mapValues f) = (l.exchange i p).mapValues f := by
  simp only [exchange, mapValues, List.map_set]

theorem growTo_mapValues (m : Memory) (n : Nat) (l : SlotList α (Destructor α)) :
    (l.mapValues f).growTo m n = (l.growTo m n).map (mapValues f) id := by
  have hexceeded : (l.mapValues f).exceeded n = l.exceeded n := rfl
  simp only [growTo, length_mapValues, hexceeded]
  split
  · rfl
  · split
    · rfl
    · split
      · simp only [Outcome.map, mapValues, List.map_append, List.map_replicate]
        rfl
      · rfl

theorem put_mapValues (m : Memory) (i : Nat) (p : Pair α (Destructor α))
    (l : SlotList α (Destructor α)) :
    (l.mapValues f).put m i (p.mapValues f) =
      (l.put m i p).map (mapValues f) (Pair.mapValues f) := by
  simp only [put, growTo_mapValues, Outcome.map]
  cases (l.growTo m (i + 1)).answer with
  | error e => rfl
  | ok u =>
    simp only [Except.map, exchange_mapValues, pairAt_mapValues]

theorem guarded_mapValues {ρ ρ' : Type} (h : ρ → ρ') (a : Allocator) (s : Slot)
    {call : SlotList α (Destructor α) → Outcome (SlotList α (Destructor α)) ρ}
    {call' : SlotList β (Destructor β) → Outcome (SlotList β (Destructor β)) ρ'}
    (hcall : ∀ l, call' (mapValues f l) = (call l).map (mapValues f) h)
    (l : SlotList α (Destructor α)) :
    (l.mapValues f).guarded a s call' = (l.guarded a s call).map (mapValues f) h := by
  unfold guarded
  split
  · exact hcall l
  · rfl

theorem set_mapValues (a : Allocator) (m : Memory) (s : Slot) (v : α)
    (d : Option (Destructor α)) (l : SlotList α (Destructor α)) :
    (l.mapValues f).set a m s (f v) (d.map (Destructor.map f)) =
      (l.set a m s v d).map (mapValues f) (Pair.mapValues f) :=
  guarded_mapValues f _ a s (fun l => put_mapValues f m s.index ⟨some v, d⟩ l) l

theorem get_mapValues (a : Allocator) (s : Slot) (l : SlotList α (Destructor α)) :
    (l.mapValues f).get a s = (l.get a s).map (mapValues f) (Option.map f) := by
  refine guarded_mapValues f _ a s (fun l => ?_) l
  rw [value?, pairAt_mapValues]
  rfl

theorem clear_mapValues (a : Allocator) (s : Slot) (l : SlotList α (Destructor α)) :
    (l.mapValues f).clear a s = (l.clear a s).map (mapValues f) (Pair.mapValues f) := by
  refine guarded_mapValues f _ a s (fun l => ?_) l
  have hexchange := exchange_mapValues f l s.index {}
  simp only [take, pairAt_mapValues, Outcome.map, ← hexchange]
  rfl

variable {f} [HAppend α String α] [HAppend β String β]

theorem alter_mapValues (hf : ∀ (v : α) (text : String), f (v ++ text) = f v ++ text)
    (text : String) (i : Nat) (l : SlotList α (Destructor α)) :
    (l.mapValues f).alter (fun v : β => v ++ text) i =
      (l.alter (fun v : α => v ++ text) i).mapValues f := by
  rw [alter, alter, ← exchange_mapValues, value?, pairAt_mapValues]
  congr 1
  rw [value?]
  obtain ⟨v, d⟩ := l.pairAt i
  cases v with
  | none => rfl
  | some v => simp only [Pair.mapValues, Option.map_some, hf]

theorem modify_mapValues (hf : ∀ (v : α) (text : String), f (v ++ text) = f v ++ text)
    (a : Allocator) (s : Slot) (text : String) (l : SlotList α (Destructor α)) :
    (l.mapValues f).modify a s (fun v : β => v ++ text) =
      (l.modify a s fun v : α => v ++ text).map (mapValues f) (Option.map f) := by
  refine guarded_mapValues f _ a s (fun l => ?_) l
  rw [alter_mapValues hf, value?, pairAt_mapValues]
  rfl

end SlotList

/-! ## Journals -/

theorem journalMap_eq (journal : List (Note α)) : journalMap f journal = journal.map (Note.map f) := by
  induction journal with
  | nil => rw [journalMap, List.map_nil]
  | cons n journal ih => rw [journalMap, ih, List.map_cons]

theorem journalMap_append (journal others : List (Note α)) :
    journalMap f (journal ++ others) = journalMap f journal ++ journalMap f others := by
  rw [journalMap_eq, journalMap_eq, journalMap_eq, List.map_append]

theorem journalMap_events (events : List Event) :
    journalMap f (events.map Note.event) = events.map Note.event := by
  rw [journalMap_eq, List.map_map]
  refine List.map_congr_left fun e _ => ?_
  rw [Function.comp_apply, Note.map]

theorem journalMap_dropped (ps : List (Pair α (Destructor α))) (loss : Loss) :
    journalMap f (ps.map fun p => Note.dropped p loss) =
      (ps.map (Pair.mapValues f)).map fun p => Note.dropped p loss := by
  rw [journalMap_eq, List.map_map, List.map_map]
  refine List.map_congr_left fun p _ => ?_
  rw [Function.comp_apply, Note.map, Function.comp_apply]

/-! ## Stages -/

namespace Session

theorem reply_map (σ : Session α) (r : Reply α) : (σ.map f).reply (r.map f) = (σ.reply r).map f := by
  rw [reply, reply, Stage.map, journalMap, Work.map]

theorem putList_map (σ : Session α) (name : String) (l : SlotList α (Destructor α)) :
    (σ.map f).putList name (l.mapValues f) = (σ.putList name l).map f := by
  simp only [putList, map, Named.put_map]

theorem takeList?_map (σ : Session α) (name : String) :
    (σ.map f).takeList? name = (σ.takeList? name).map fun r => (r.1.mapValues f, r.2.map f) := by
  simp only [takeList?, Named.take?, map, Named.find?_map, Named.without_map, Option.map_map]
  rfl

theorem takeHeld?_map (σ : Session α) (name : String) :
    (σ.map f).takeHeld? name = (σ.takeHeld? name).map fun r => (r.1.mapValues f, r.2.map f) := by
  simp only [takeHeld?, Named.take?, map, Named.find?_map, Named.without_map, Option.map_map]
  rfl

theorem hold_map (σ : Session α) (name : String) (p : Pair α (Destructor α)) :
    (σ.map f).hold name (p.mapValues f) =
      ((σ.hold name p).1.map f, journalMap f (σ.hold name p).2) := by
  have hlost : ((σ.held.map (Pair.mapValues f)).find? name).toList =
      (σ.held.find? name).toList.map (Pair.mapValues f) := by
    rw [Named.find?_map]
    cases σ.held.find? name <;> rfl
  simp only [hold, journalMap_dropped, map, Named.put_map, hlost]

theorem keep_map (σ : Session α) (name : Option String) (p : Pair α (Destructor α)) :
    (σ.map f).keep name (p.mapValues f) =
      ((σ.keep name p).1.map f, journalMap f (σ.keep name p).2) := by
  cases name with
  | some name => exact hold_map f σ name p
  | none =>
    rw [keep, keep, journalMap, journalMap, Note.map]

section

variable {f} {σ : Session α} {name : String}

theorem withAllocator_map (ps : List (Pair α (Destructor α))) {g : Allocator → Stage α}
    {g' : Allocator → Stage β}
    (h : ∀ a, g' a = (g a).map f) :
    (σ.map f).withAllocator name (ps.map (Pair.mapValues f)) g' =
      (σ.withAllocator name ps g).map f := by
  have ha : (σ.map f).allocators = σ.allocators := rfl
  rw [withAllocator, withAllocator, ha]
  cases σ.allocators.find? name with
  | none => simp only [Stage.map, Work.map, Reply.map, journalMap_dropped]
  | some a => exact h a

theorem withList_map (ps : List (Pair α (Destructor α)))
    {g : SlotList α (Destructor α) → Session α → Stage α}
    {g' : SlotList β (Destructor β) → Session β → Stage β}
    (h : ∀ l τ, g' (l.mapValues f) (τ.map f) = (g l τ).map f) :
    (σ.map f).withList name (ps.map (Pair.mapValues f)) g' = (σ.withList name ps g).map f := by
  rw [withList, withList, takeList?_map]
  cases σ.takeList? name with
  | none => simp only [Option.map_none, Stage.map, Work.map, Reply.map, journalMap_dropped]
  | some r => exact h r.1 r.2

theorem withHeld_map {g : Pair α (Destructor α) → Session α → Stage α}
    {g' : Pair β (Destructor β) → Session β → Stage β}
    (h : ∀ p τ, g' (p.mapValues f) (τ.map f) = (g p τ).map f) :
    (σ.map f).withHeld name g' = (σ.withHeld name g).map f := by
  rw [withHeld, withHeld, takeHeld?_map]
  cases σ.takeHeld? name with
  | none => exact reply_map f σ (.missing .held)
  | some r => exact h r.1 r.2

theorem stage_events_map (τ : Session α) (events : List Event) (r : Reply α) :
    (⟨τ.map f, events.map .event, .done (r.map f)⟩ : Stage β) =
      (⟨τ, events.map .event, .done r⟩ : Stage α).map f := by
  rw [Stage.map, journalMap_events, Work.map]

theorem afterAllocator_map {ρ : Type} (o : Outcome Allocator ρ) {reply : ρ → Reply α}
    {reply' : ρ → Reply β} (h : ∀ r, reply' r = (reply r).map f) :
    (σ.map f).afterAllocator name o reply' = (σ.afterAllocator name o reply).map f := by
  refine (stage_events_map (σ.putAllocator name o.state) o.events _).symm ▸ ?_
  rw [afterAllocator]
  cases o.answer with
  | ok r => rw [← h r]; rfl
  | error e => rfl

theorem afterList_map {ρ ρ' : Type} (k : ρ → ρ')
    (o : Outcome (SlotList α (Destructor α)) ρ) {reply : ρ → Reply α} {reply' : ρ' → Reply β}
    (h : ∀ r, reply' (k r) = (reply r).map f) :
    (σ.map f).afterList name (o.map (SlotList.mapValues f) k) reply' =
      (σ.afterList name o reply).map f := by
  rw [afterList, afterList, ← stage_events_map, ← putList_map]
  simp only [Outcome.map]
  cases o.answer with
  | ok r => simp only [Except.map, h r]
  | error e => rfl

theorem afterExchange_map (hold : Option String) (ps : List (Pair α (Destructor α)))
    (o : Outcome (SlotList α (Destructor α)) (Pair α (Destructor α))) :
    (σ.map f).afterExchange name hold (ps.map (Pair.mapValues f))
        (o.map (SlotList.mapValues f) (Pair.mapValues f)) =
      (σ.afterExchange name hold ps o).map f := by
  rw [afterExchange, afterExchange]
  simp only [Outcome.map]
  cases o.answer with
  | ok p =>
    simp only [Except.map, keep_map, Stage.map, Work.map, Reply.map, journalMap_append,
      journalMap_events, ← putList_map]
  | error e =>
    simp only [Except.map, Stage.map, Work.map, Reply.map, journalMap_append, journalMap_events,
      journalMap_dropped, ← putList_map]

end

theorem teardown_map (τ : Session α) (e : Event) (ps : List (Pair α (Destructor α)))
    (s : Sequel α) :
    (⟨τ.map f, [.event e], .teardown (ps.map (Pair.mapValues f)) (s.map f)⟩ : Stage β) =
      (⟨τ, [.event e], .teardown ps s⟩ : Stage α).map f := by
  simp only [Stage.map, Work.map, journalMap, Note.map]

theorem newList_map (σ : Session α) (name : String) (new : SlotList α (Destructor α)) :
    (match (σ.map f).takeList? name with
      | none => ((σ.map f).putList name (new.mapValues f)).reply .done
      | some (l, τ) => ⟨τ, [.event (.destroyed l.length)],
          .teardown l.entries (.reinstate name (new.mapValues f))⟩ : Stage β) =
      (match σ.takeList? name with
        | none => (σ.putList name new).reply .done
        | some (l, τ) => ⟨τ, [.event (.destroyed l.length)],
            .teardown l.entries (.reinstate name new)⟩ : Stage α).map f := by
  rw [takeList?_map]
  cases σ.takeList? name with
  | none =>
    have hput := putList_map f σ name new
    exact (congrArg (·.reply .done) hput).trans (reply_map f (σ.putList name new) .done)
  | some r =>
    have hstage := teardown_map f r.2 (.destroyed r.1.length) r.1.entries (.reinstate name new)
    simp only [Option.map_some, SlotList.length_mapValues]
    exact hstage

theorem limitsOf_map (source : LimitsSource) :
    (limitsOf source : Except (Reply β) Limits) =
      match (limitsOf source : Except (Reply α) Limits) with
      | .error r => .error (r.map f)
      | .ok limits => .ok limits := by
  cases source with
  | given limits => rfl
  | toml text =>
    rw [limitsOf, limitsOf]
    cases Limits.ofToml text <;> rfl

variable {f} [HAppend α String α] [HAppend β String β]

theorem start_map (hf : ∀ (v : α) (text : String), f (v ++ text) = f v ++ text) (σ : Session α)
    (c : Call α) : (σ.map f).start (c.map f) = (σ.start c).map f := by
  cases c
  case newAllocator name source =>
    rw [Call.map, start, start, limitsOf_map f]
    cases (limitsOf source : Except (Reply α) Limits) with
    | error r => exact reply_map f σ r
    | ok limits => exact stage_events_map (σ.putAllocator name _) _ .done
  case newList name source =>
    rw [Call.map, start, start, limitsOf_map f]
    cases (limitsOf source : Except (Reply α) Limits) with
    | error r => exact reply_map f σ r
    | ok limits => exact newList_map f σ name { limit := limits.length }
  case set name allocator s v d hold exhausted =>
    rw [Call.map_set, start, start]
    apply withAllocator_map [⟨some v, d⟩]
    intro a
    apply withList_map [⟨some v, d⟩]
    intro l τ
    rw [SlotList.set_mapValues]
    exact afterExchange_map hold [⟨some v, d⟩] _
  case setHeld name allocator s h hold exhausted =>
    rw [Call.map, start, start]
    apply withAllocator_map []
    intro a
    apply withHeld_map
    intro p τ
    obtain ⟨v, d⟩ := p
    cases v with
    | none => exact reply_map f σ (.missing .value)
    | some v =>
      apply withList_map [⟨some v, d⟩]
      intro l τ'
      rw [Pair.mapValues, SlotList.set_mapValues]
      exact afterExchange_map hold [⟨some v, d⟩] _
  case get name allocator s =>
    rw [Call.map, start, start]
    apply withAllocator_map []
    intro a
    apply withList_map []
    intro l τ
    rw [SlotList.get_mapValues]
    exact afterList_map _ _ fun r => rfl
  case append name allocator s text =>
    rw [Call.map, start, start]
    apply withAllocator_map []
    intro a
    apply withList_map []
    intro l τ
    rw [SlotList.modify_mapValues hf]
    exact afterList_map _ _ fun r => rfl
  case clear name allocator s hold =>
    rw [Call.map, start, start]
    apply withAllocator_map []
    intro a
    apply withList_map []
    intro l τ
    rw [SlotList.clear_mapValues]
    exact afterExchange_map hold [] _
  case destroy name =>
    rw [Call.map, start, start]
    apply withList_map []
    intro l τ
    rw [SlotList.length_mapValues]
    exact teardown_map f τ _ l.entries (.reinstate name l.emptied)
  case dropList name =>
    rw [Call.map, start, start]
    apply withList_map []
    intro l τ
    rw [SlotList.length_mapValues]
    exact teardown_map f τ _ l.entries (.report none)
  case length name =>
    rw [Call.map, start, start]
    apply withList_map []
    intro l τ
    rw [SlotList.length_mapValues]
    exact reply_map f σ (.length l.length)
  case showList name =>
    rw [Call.map, start, start]
    apply withList_map []
    intro l τ
    rw [SlotList.shown, SlotList.length_mapValues]
    exact reply_map f σ (.text l.shown)
  case newHeld h v d =>
    rw [Call.map_newHeld, start, start]
    have hhold := hold_map f σ h ⟨v, d⟩
    rw [Pair.mapValues] at hhold
    rw [hhold]
    rfl
  case showHeld h =>
    rw [Call.map, start, start]
    exact withHeld_map fun p τ => reply_map f σ (.held p)
  case finalize h =>
    rw [Call.map, start, start]
    apply withHeld_map
    intro p τ
    simp only [Stage.map, Work.map, Sequel.map, journalMap, List.map_cons, List.map_nil]
  case dropHeld h =>
    rw [Call.map, start, start]
    apply withHeld_map
    intro p τ
    simp only [Stage.map, Work.map, Reply.map, journalMap, Note.map]
  -- the others need an allocator, and there is nothing to map in it
  all_goals
    rw [Call.map, start, start]
    apply withAllocator_map []
    intro a
  case allocate name exhausted => exact afterAllocator_map _ fun r => rfl
  case free name s => exact afterAllocator_map _ fun r => rfl
  case allocateUpTo name n exhausted =>
    exact stage_events_map (σ.putAllocator name _) _ (.slots _)
  case freeEach name slots => exact stage_events_map (σ.putAllocator name _) _ (.freed _)
  case allocateAll name threads n => exact reply_map f (σ.putAllocator name _) (.issued _ _)
  case freeAll name slots => exact reply_map f (σ.putAllocator name _) (.freedCount _ _)
  case isLive name s => exact reply_map f σ (.truth _)
  case liveBelow name n => exact reply_map f σ (.live _)
  case counts name => exact reply_map f σ (.counts _ _)
  case stats name => exact reply_map f σ (.stats _)
  case showAllocator name => exact reply_map f σ (.text _)

omit [HAppend α String α] [HAppend β String β] in
theorem resume_map (σ : Session α) (panic : Option String) (s : Sequel α) :
    (σ.map f).resume panic (s.map f) = (σ.resume panic s).map f := by
  cases s with
  | report earlier =>
    rw [Sequel.map, resume, resume, ← reply_map]
    cases earlier <|> panic <;> rfl
  | reinstate name l =>
    rw [Sequel.map, resume, resume, takeList?_map]
    cases σ.takeList? name with
    | none =>
      have hput := putList_map f σ name l
      refine (congrArg (·.reply (afterRuns panic)) hput).trans ?_
      rw [← reply_map]
      cases panic <;> rfl
    | some r =>
      have hstage := teardown_map f (r.2.putList name l) (.destroyed r.1.length) r.1.entries
        (.report panic)
      rw [← putList_map] at hstage
      simp only [Option.map_some, SlotList.length_mapValues]
      exact hstage

omit [HAppend α String α] [HAppend β String β] in
theorem summary_map (σ : Session α) (s : Step α) (r : Reply α) :
    (σ.map f).summary (s.map f) (r.map f) = (σ.summary s r).map f := by
  obtain ⟨c, a, l⟩ := s
  have hlength : SlotList.length ∘ SlotList.mapValues f = SlotList.length :=
    funext (SlotList.length_mapValues f)
  simp only [summary, Summary.map, Step.map, Step.list?, Step.allocator?, map, Named.find?_map,
    Option.map_map, hlength]

/-! ## Runs -/

omit [HAppend α String α] [HAppend β String β] in
theorem nested_map (answers : List (Answer α)) :
    (answers.map (Answer.map f)).flatMap Answer.nested =
      journalMap f (answers.flatMap Answer.nested) := by
  induction answers with
  | nil => rw [List.map_nil, List.flatMap_nil, List.flatMap_nil, journalMap]
  | cons a answers ih =>
    rw [List.map_cons, List.flatMap_cons, List.flatMap_cons, journalMap_append, ih, Answer.nested,
      Answer.nested, journalMap_append, journalMap, journalMap, Note.map, Answer.map]

/-- Every part of a run is mapped to that part of the mapped run. -/
theorem map_hereditary (hf : ∀ (v : α) (text : String), f (v ++ text) = f v ++ text) : Hereditary
    (fun σ work =>
      ((σ.map f).settle (work.map f)).session = (σ.settle work).session.map f ∧
      ((σ.map f).settle (work.map f)).result.1 = (σ.settle work).result.1.map f ∧
      ((σ.map f).settle (work.map f)).result.2 = journalMap f (σ.settle work).result.2)
    (fun σ ps =>
      ((σ.map f).runAll (ps.map (Pair.mapValues f))).session = (σ.runAll ps).session.map f ∧
      ((σ.map f).runAll (ps.map (Pair.mapValues f))).result.1 = (σ.runAll ps).result.1 ∧
      ((σ.map f).runAll (ps.map (Pair.mapValues f))).result.2 =
        journalMap f (σ.runAll ps).result.2)
    (fun σ script =>
      ((σ.map f).carryOut (scriptMap f script)).session = (σ.carryOut script).session.map f ∧
      ((σ.map f).carryOut (scriptMap f script)).result =
        (σ.carryOut script).result.map (Answer.map f))
    (fun σ s =>
      ((σ.map f).perform (s.map f)).session = (σ.perform s).session.map f ∧
      ((σ.map f).perform (s.map f)).result = (σ.perform s).result.map f) where
  done σ r := by
    rw [Work.map, settle_done_session, settle_done_session, settle_done_result,
      settle_done_result, journalMap]
    exact ⟨rfl, rfl, rfl⟩
  teardown σ ps s hruns hrest := by
    have hstage : (σ.map f).afterTeardown (ps.map (Pair.mapValues f)) (s.map f) =
        (σ.afterTeardown ps s).map f := by
      rw [afterTeardown, hruns.1, hruns.2.1, resume_map]
      rfl
    obtain ⟨hsession, hreply, hnotes⟩ := settle_of_afterTeardown hstage
    obtain ⟨hsession', hreply', hnotes'⟩ :=
      settle_of_afterTeardown (rfl : σ.afterTeardown ps s = σ.afterTeardown ps s)
    rw [Work.map, hsession, hreply, hnotes, hsession', hreply', hnotes', journalMap_append,
      journalMap_append, hruns.2.2]
    exact ⟨hrest.1, hrest.2.1, congrArg _ hrest.2.2⟩
  nil σ := by
    rw [List.map_nil, runAll_nil_session, runAll_nil_session, runAll_nil_result,
      runAll_nil_result, journalMap]
    exact ⟨rfl, rfl, rfl⟩
  inert σ p ps hp hrest := by
    have hp' : (p.mapValues f).runnable? = none := by rw [Pair.runnable?_mapValues, hp]; rfl
    obtain ⟨hsession, hfst, hsnd⟩ := runAll_inert σ hp ps
    obtain ⟨hsession', hfst', hsnd'⟩ :=
      runAll_inert (σ.map f) hp' (ps.map (Pair.mapValues f))
    rw [List.map_cons, hsession, hfst, hsnd, hsession', hfst', hsnd', journalMap, Note.map]
    exact ⟨hrest.1, hrest.2.1, congrArg _ hrest.2.2⟩
  panic σ p ps v d text hp hd hscript := by
    have hp' : (p.mapValues f).runnable? = some (f v, d.map f) := by
      rw [Pair.runnable?_mapValues, hp]
      rfl
    obtain ⟨hsession, hfst, hsnd⟩ := runAll_panic σ hp hd ps
    obtain ⟨hsession', hfst', hsnd'⟩ :=
      runAll_panic (σ.map f) hp' ((d.panic_map f).trans hd) (ps.map (Pair.mapValues f))
    rw [Destructor.script_map] at hsession' hsnd'
    rw [hscript.1] at hsession'
    rw [hscript.2, nested_map] at hsnd'
    rw [List.map_cons, hsession, hfst, hsnd, hsession', hfst', hsnd', journalMap, Note.map,
      journalMap_dropped]
    exact ⟨rfl, rfl, rfl⟩
  ran σ p ps v d hp hd hscript hrest := by
    have hp' : (p.mapValues f).runnable? = some (f v, d.map f) := by
      rw [Pair.runnable?_mapValues, hp]
      rfl
    obtain ⟨hsession, hfst, hsnd⟩ := runAll_ran σ hp hd ps
    obtain ⟨hsession', hfst', hsnd'⟩ :=
      runAll_ran (σ.map f) hp' ((d.panic_map f).trans hd) (ps.map (Pair.mapValues f))
    rw [Destructor.script_map] at hsession' hfst' hsnd'
    rw [hscript.1] at hsession' hfst' hsnd'
    rw [hscript.2, nested_map] at hsnd'
    rw [List.map_cons, hsession, hfst, hsnd, hsession', hfst', hsnd', journalMap, Note.map]
    exact ⟨hrest.1, hrest.2.1, congrArg _ hrest.2.2⟩
  finished σ := by
    rw [scriptMap, carryOut_nil_session, carryOut_nil_session, carryOut_nil_result,
      carryOut_nil_result]
    exact ⟨rfl, rfl⟩
  step σ s script hfirst hrest := by
    rw [scriptMap, carryOut_cons_session, carryOut_cons_session, carryOut_cons_result,
      carryOut_cons_result, hfirst.1, hfirst.2]
    exact ⟨hrest.1, congrArg _ hrest.2⟩
  begun σ s hrest := by
    have hstage : (σ.map f).start (s.map f).call = (σ.start s.call).map f := by
      rw [Step.call_map, start_map hf]
    obtain ⟨hsession, hreply, hjournal⟩ := perform_of_start hstage
    obtain ⟨hsession', hreply', hjournal'⟩ :=
      perform_of_start (rfl : σ.start s.call = σ.start s.call)
    have hs : ((σ.map f).perform (s.map f)).session = (σ.perform s).session.map f := by
      rw [hsession, hsession']
      exact hrest.1
    have hr : ((σ.map f).perform (s.map f)).result.summary.reply =
        (σ.perform s).result.summary.reply.map f := by
      rw [hreply, hreply']
      exact hrest.2.1
    have hj : ((σ.map f).perform (s.map f)).result.journal =
        journalMap f (σ.perform s).result.journal := by
      rw [hjournal, hjournal', journalMap_append]
      exact congrArg _ hrest.2.2
    refine ⟨hs, ?_⟩
    rw [perform_answer, perform_answer σ s, hs, hr, hj, summary_map]
    rfl

/-- **Values do not matter.** A map of values that respects putting a text behind takes the run of
a script to the run of the mapped script. -/
theorem carryOut_map (hf : ∀ (v : α) (text : String), f (v ++ text) = f v ++ text)
    (σ : Session α) (script : List (Step α)) :
    ((σ.map f).carryOut (scriptMap f script)).session = (σ.carryOut script).session.map f ∧
    ((σ.map f).carryOut (scriptMap f script)).result =
      (σ.carryOut script).result.map (Answer.map f) :=
  (map_hereditary hf).carryOut σ script

theorem close_map (hf : ∀ (v : α) (text : String), f (v ++ text) = f v ++ text) (σ : Session α) :
    (σ.map f).close = (σ.close.1.map fun x => (x.1, x.2.map f), σ.close.2.map f) := by
  have hfirst : (σ.map f).lists.first? = σ.lists.first? := Named.first?_map ..
  fun_induction close σ with
  | case1 σ h => rw [close_of_none (hfirst.trans h), List.map_nil]
  | case2 σ name h first hless rest ih =>
    obtain ⟨hsession, hresult⟩ := (map_hereditary hf).perform σ (dropStep name)
    have hstep : (dropStep name : Step α).map f = dropStep name := by
      rw [dropStep, Step.map, Call.map]
      rfl
    rw [hstep] at hsession hresult
    rw [close_of_first (hfirst.trans h), hsession, hresult, ih (Named.first?_map ..)]
    rfl

theorem play_map (hf : ∀ (v : α) (text : String), f (v ++ text) = f v ++ text)
    (script : List (Step α)) :
    (play (scriptMap f script)).answers = (play script).answers.map (Answer.map f) ∧
    (play (scriptMap f script)).closing = (play script).closing.map fun x => (x.1, x.2.map f) := by
  have hempty : ({} : Session α).map f = {} := rfl
  obtain ⟨hsession, hresult⟩ := carryOut_map hf {} script
  rw [hempty] at hsession hresult
  refine ⟨hresult, ?_⟩
  rw [play, play, hsession, close_map hf]

end Session

end SlotStore
