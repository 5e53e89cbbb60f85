import SlotStore.Proofs.Session.Account
import SlotStore.Proofs.Session.History
import SlotStore.Proofs.Session.Passage
import SlotStore.Proofs.SlotList.Valued

/-!
# No destructor is skipped

What every new list has and no call takes away, all lists have in all sessions on the way of a run
(`invariant_allLists`). A list that a destruction has taken out is not in the session meanwhile, and
what goes back for it has the property too (`Work.Reinstates`).

So every entry with a destructor has a value, wherever a run may be. Tearing down a list then runs
the destructors of all entries that have one, up to the first that panics, and finalizing a pair
that was handed back runs its destructor (`destructors_have_values`).
-/

namespace SlotStore

variable {α : Type}

/-- A list that goes back into the session at the end of a call has a property. -/
def Work.Reinstates (P : SlotList α (Destructor α) → Prop) : Work α → Prop
  | .teardown _ (.reinstate _ l) => P l
  | _ => True

def Reply.handedBack? : Reply α → Option (Pair α (Destructor α))
  | .pair p => some p
  | _ => none

/-- The pair that is handed back by a call that is over. -/
def Work.handedBack? : Work α → Option (Pair α (Destructor α))
  | .done r => r.handedBack?
  | .teardown _ _ => none

namespace Session

variable {P : SlotList α (Destructor α) → Prop} {Q : Pair α (Destructor α) → Prop}

def AllLists (P : SlotList α (Destructor α) → Prop) (σ : Session α) : Prop :=
  ∀ name l, σ.lists.find? name = some l → P l

/-- All lists of a stage have a property, that which goes back later too, and if a pair is handed
back it has another. -/
structure Meets (P : SlotList α (Destructor α) → Prop) (Q : Pair α (Destructor α) → Prop)
    (t : Stage α) : Prop where
  lists : t.session.AllLists P
  reinstates : t.work.Reinstates P
  pair : ∀ p, t.work.handedBack? = some p → Q p

section

variable {σ : Session α}

theorem allLists_empty : AllLists P ({} : Session α) := by
  intro name l h
  cases h

theorem allLists_putList (h : σ.AllLists P) (name : String) {l : SlotList α (Destructor α)}
    (hl : P l) : (σ.putList name l).AllLists P :=
  Named.forall_find?_put h name hl

theorem allLists_away (h : σ.AllLists P) (name : String) : (σ.away name).AllLists P :=
  fun other l hl => h other l (Named.find?_of_find?_without hl)

theorem allLists_keep (h : σ.AllLists P) (hold : Option String) (p : Pair α (Destructor α)) :
    (σ.keep hold p).1.AllLists P := by
  cases hold <;> exact h

theorem meets_of_none {t : Stage α} (h : t.session.AllLists P) (hwork : t.work.Reinstates P)
    (hnone : t.work.handedBack? = none) : Meets P Q t where
  lists := h
  reinstates := hwork
  pair p hp := by cases hnone.symm.trans hp

theorem meets_done (h : σ.AllLists P) {notes : List (Note α)} {r : Reply α}
    (hr : r.handedBack? = none) : Meets P Q ⟨σ, notes, .done r⟩ :=
  meets_of_none h trivial hr

theorem meets_withAllocator (h : σ.AllLists P) {name : String}
    {ps : List (Pair α (Destructor α))} {f : Allocator → Stage α} (hf : ∀ a, Meets P Q (f a)) :
    Meets P Q (σ.withAllocator name ps f) := by
  unfold withAllocator
  split
  · exact meets_done h rfl
  · exact hf _

theorem meets_withList (h : σ.AllLists P) {name : String} {ps : List (Pair α (Destructor α))}
    {f : SlotList α (Destructor α) → Session α → Stage α}
    (hf : ∀ l, P l → Meets P Q (f l (σ.away name))) : Meets P Q (σ.withList name ps f) := by
  unfold withList
  cases hl : σ.lists.find? name with
  | none =>
    rw [takeList?_eq_none_iff.mpr hl]
    exact meets_done h rfl
  | some l =>
    rw [takeList?_of_find? hl]
    exact hf l (h name l hl)

theorem meets_withHeld (h : σ.AllLists P) {name : String}
    {f : Pair α (Destructor α) → Session α → Stage α}
    (hf : ∀ p τ, τ.AllLists P → Meets P Q (f p τ)) : Meets P Q (σ.withHeld name f) := by
  unfold withHeld
  split
  · exact meets_done h rfl
  next p τ hp =>
    obtain ⟨q, -, hq⟩ := Option.map_eq_some_iff.mp hp
    cases hq
    exact hf _ _ h

theorem meets_afterAllocator (h : σ.AllLists P) {ρ : Type} {name : String}
    {o : Outcome Allocator ρ} {reply : ρ → Reply α} (hreply : ∀ r, (reply r).handedBack? = none) :
    Meets P Q (σ.afterAllocator name o reply) := by
  refine meets_done (σ := σ.putAllocator name o.state) h ?_
  cases o.answer with
  | ok r => exact hreply r
  | error f => rfl

theorem meets_afterList (h : σ.AllLists P) {ρ : Type} {name : String}
    {o : Outcome (SlotList α (Destructor α)) ρ} {reply : ρ → Reply α} (ho : P o.state)
    (hreply : ∀ r, (reply r).handedBack? = none) : Meets P Q (σ.afterList name o reply) := by
  refine meets_done (allLists_putList h name ho) ?_
  cases o.answer with
  | ok r => exact hreply r
  | error f => rfl

theorem meets_afterExchange (h : σ.AllLists P) {name : String} {hold : Option String}
    {ps : List (Pair α (Destructor α))}
    {o : Outcome (SlotList α (Destructor α)) (Pair α (Destructor α))} (ho : o.Meets P Q) :
    Meets P Q (σ.afterExchange name hold ps o) := by
  unfold afterExchange
  split
  next p hp =>
    exact {
      lists := allLists_putList (allLists_keep h hold p) name ho.1
      reinstates := trivial
      pair := fun q hq => by
        cases hq
        exact ho.2 p hp }
  · exact meets_done (allLists_putList h name ho.1) rfl

theorem handedBack?_afterRuns (panic : Option String) :
    (afterRuns panic : Reply α).handedBack? = none := by
  cases panic <;> rfl

theorem meets_resume (h : σ.AllLists P) (panic : Option String) {ps : List (Pair α (Destructor α))}
    {sequel : Sequel α} (hsequel : (Work.teardown ps sequel).Reinstates P) :
    Meets P Q (σ.resume panic sequel) := by
  cases sequel with
  | report earlier => exact meets_done h (handedBack?_afterRuns _)
  | reinstate name l =>
    rw [resume]
    cases hl : σ.lists.find? name with
    | none =>
      rw [takeList?_eq_none_iff.mpr hl]
      exact meets_done (allLists_putList h name hsequel) (handedBack?_afterRuns panic)
    | some other =>
      rw [takeList?_of_find? hl]
      exact meets_of_none (allLists_putList (allLists_away h name) name hsequel) trivial rfl

end

variable [HAppend α String α]

theorem meets_start (hP : SlotList.Lasting P Q) {σ : Session α} (h : σ.AllLists P) (c : Call α) :
    Meets P Q (σ.start c) := by
  cases c
  case newAllocator name source =>
    simp only [start]
    split
    next r hr =>
      obtain ⟨text, u, rfl⟩ := eq_unreadable_of_limitsOf hr
      exact meets_done h rfl
    · exact meets_of_none h trivial rfl
  case newList name source =>
    simp only [start]
    split
    next r hr =>
      obtain ⟨text, u, rfl⟩ := eq_unreadable_of_limitsOf hr
      exact meets_done h rfl
    next limits _ =>
      cases hl : σ.lists.find? name with
      | none =>
        rw [takeList?_eq_none_iff.mpr hl]
        exact meets_done (allLists_putList h name (hP.new limits.length)) rfl
      | some l =>
        rw [takeList?_of_find? hl]
        exact meets_of_none (allLists_away h name) (hP.new limits.length) rfl
  case set name allocator s v d hold exhausted =>
    refine meets_withAllocator h fun a => meets_withList h fun l hl => ?_
    exact meets_afterExchange (allLists_away h name) (hP.set l a _ s v d hl)
  case setHeld name allocator s held hold exhausted =>
    refine meets_withAllocator h fun a => meets_withHeld h fun p τ hτ => ?_
    split
    · exact meets_done h rfl
    · refine meets_withList hτ fun l hl => ?_
      exact meets_afterExchange (allLists_away hτ name) (hP.set l a _ s _ p.destructor hl)
  case clear name allocator s hold =>
    refine meets_withAllocator h fun a => meets_withList h fun l hl => ?_
    exact meets_afterExchange (allLists_away h name) (hP.clear l a s hl)
  case get name allocator s =>
    refine meets_withAllocator h fun a => meets_withList h fun l hl => ?_
    refine meets_afterList (allLists_away h name) ?_ fun _ => rfl
    rwa [SlotList.get_state]
  case append name allocator s text =>
    refine meets_withAllocator h fun a => meets_withList h fun l hl => ?_
    exact meets_afterList (allLists_away h name) (hP.modify l a s _ hl) fun _ => rfl
  case destroy name =>
    refine meets_withList h fun l _ => ?_
    -- the list that goes back is a new one of the same limit
    exact meets_of_none (allLists_away h name) (hP.new l.limit) rfl
  case dropList name =>
    exact meets_withList h fun l _ => meets_of_none (allLists_away h name) trivial rfl
  case length name | showList name => exact meets_withList h fun l _ => meets_done h rfl
  case newHeld name v d => exact meets_of_none h trivial rfl
  case showHeld name => exact meets_withHeld h fun p τ _ => meets_done h rfl
  case finalize name => exact meets_withHeld h fun p τ hτ => meets_of_none hτ trivial rfl
  case dropHeld name => exact meets_withHeld h fun p τ hτ => meets_done hτ rfl
  case allocate name exhausted | free name s =>
    exact meets_withAllocator h fun a => meets_afterAllocator h fun _ => rfl
  -- the others are for an allocator too, and always succeed
  all_goals exact meets_withAllocator h fun a => meets_of_none h trivial rfl

theorem invariant_allLists (hP : SlotList.Lasting P Q) :
    Invariant (α := α) (AllLists P) (Work.Reinstates P) where
  start _ c h := ⟨(meets_start hP h c).lists, (meets_start hP h c).reinstates⟩
  resume _ panic _ _ h hsequel :=
    have hresumed := meets_resume (Q := Q) h panic hsequel
    ⟨hresumed.lists, hresumed.reinstates⟩

theorem handedBack?_settle (σ : Session α) (work : Work α) :
    (σ.settle work).result.1.handedBack? = work.handedBack? :=
  read_settle handedBack?_afterRuns (fun _ => rfl) (fun _ _ => rfl) σ work

theorem handedBack_of_perform (hP : SlotList.Lasting P Q) {σ : Session α} (h : σ.AllLists P)
    {s : Step α} {p : Pair α (Destructor α)}
    (hreply : (σ.perform s).result.summary.reply = .pair p) : Q p := by
  refine (meets_start hP h s.call).pair p ?_
  rw [← handedBack?_settle, ← (perform_of_start rfl).2.1, hreply]
  rfl

/-! ## What runs -/

omit [HAppend α String α] in
theorem map_armed_runnable {ps : List (Pair α (Destructor α))} (h : ∀ p ∈ ps, p.Valued) :
    (ps.filterMap Pair.runnable?).map Pair.armed = ps.filter fun p => p.destructor.isSome := by
  induction ps with
  | nil => rfl
  | cons p ps ih =>
    obtain ⟨hp, hps⟩ := List.forall_mem_cons.mp h
    rcases hp.runnable?_cases with ⟨hd, hr⟩ | ⟨v, d, rfl, hr⟩
    · rw [List.filterMap_cons_none hr, List.filter_cons_of_neg (by simp [hd]), ih hps]
    · rw [List.filterMap_cons_some hr, List.filter_cons_of_pos rfl, List.map_cons, ih hps]

/-- Tearing valued pairs down runs their destructors in order: all of them, or all up to one that
panics. -/
theorem runAll_of_valued (σ : Session α) {ps : List (Pair α (Destructor α))}
    (h : ∀ p ∈ ps, p.Valued) :
    let runs := (σ.runAll ps).result
    let ran := (runs.2.filterMap Note.run?).map Pair.armed
    let ready := ps.filter fun p => p.destructor.isSome
    ran <+: ready ∧
      (ran = ready ∨ ∃ p d, ran.getLast? = some p ∧ p.destructor = some d ∧ d.panic ≠ none) ∧
      (runs.1 = none → ran = ready) := by
  intro runs ran ready
  obtain ⟨called, skipped, harmed, hcalled, -, hpanic, -, hall, -⟩ := runAll_prefix σ 0 ps
  have hran : ran = called.map fun e => Pair.armed (e.value, e.destructor) := by
    change ((σ.runAll ps).result.2.filterMap Note.run?).map Pair.armed = _
    rw [hcalled, List.map_map]
    rfl
  have hready : ready = ran ++ skipped.map fun e => Pair.armed (e.value, e.destructor) := by
    change (ps.filter fun p => p.destructor.isSome) = _
    rw [hran, ← List.map_append, ← harmed, ← map_armed_runnable h,
      ← SlotList.armedFrom_runnable 0 ps, List.map_map]
    rfl
  have heq : runs.1 = none → ran = ready := by
    intro hnone
    rw [hready, hall hnone, List.map_nil, List.append_nil]
  refine ⟨hready ▸ List.prefix_append .., ?_, heq⟩
  cases htext : runs.1 with
  | none => exact .inl (heq htext)
  | some text =>
    obtain ⟨e, he, hd⟩ := Option.bind_eq_some_iff.mp (hpanic.symm.trans htext)
    refine .inr ⟨Pair.armed (e.value, e.destructor), e.destructor, ?_, rfl, by simp [hd]⟩
    rw [hran, List.getLast?_map, he]
    rfl

theorem perform_finalize_of_valued {σ : Session α} {name : String} {p : Pair α (Destructor α)}
    (h : σ.held.find? name = some p) (hp : p.Valued) (shown : Option String × Option String) :
    let finalized := σ.perform (.mk (.finalize name) shown.1 shown.2)
    (p.destructor = none → finalized.result.journal = [.dropped p .inert]) ∧
      ∀ d, p.destructor = some d →
        ∃ v inner, p.value = some v ∧ finalized.result.journal = [.ran v d inner] := by
  intro finalized
  obtain ⟨hinert, hruns⟩ := perform_finalize h shown
  rcases hp.runnable?_cases with ⟨hd, hr⟩ | ⟨v, d, rfl, hr⟩
  · refine ⟨fun _ => hinert hr, fun d hsome => ?_⟩
    cases hd.symm.trans hsome
  · refine ⟨fun hnone => (by cases hnone), fun e he => ?_⟩
    cases he
    obtain ⟨inner, hjournal⟩ := hruns v d hr
    exact ⟨v, inner, rfl, hjournal⟩

theorem journal_of_tears {σ : Session α} {name : String} {l : SlotList α (Destructor α)}
    {x : Step α} (htears : x.call.tears? = some name) (hl : σ.lists.find? name = some l) :
    let runs := (σ.away name).runAll l.entries
    (∃ rest, (σ.perform x).result.journal =
        .event (.destroyed l.length) :: (runs.result.2 ++ rest)) ∧
      ((σ.perform x).result.summary.reply = .done → runs.result.1 = none) := by
  intro runs
  obtain ⟨sequel, -, hstart⟩ := start_of_tears htears hl
  obtain ⟨-, hreply, hjournal⟩ := perform_of_start hstart
  obtain ⟨panic, hpanic, hnone⟩ := settle_teardown_reply (σ.away name) l.entries sequel
  constructor
  · rw [hjournal, settle_teardown_result, List.append_assoc]
    exact ⟨_, rfl⟩
  · intro hdone
    rw [hreply, hpanic] at hdone
    cases panic with
    | none => exact hnone rfl
    | some text => cases hdone

/-- A pair that has a destructor and is let go with nothing to run has no value, and the script
brought it like that. -/
theorem site_of_inert (script : List (Step α)) {p : Pair α (Destructor α)} {d : Destructor α}
    (h : .dropped p .inert ∈ (({} : Session α).carryOut script).result.flatMap Answer.deeds)
    (hd : p.destructor = some d) : p.value = none ∧ p ∈ scriptSites script := by
  have hnothing : p.runnable? = none := runnable?_eq_none_of_inert {} script h
  obtain ⟨v, e⟩ := p
  cases hd
  cases v with
  | some v => cases hnothing
  | none =>
    have hplace : (Place.dropped .inert, (⟨none, some d⟩ : Pair α (Destructor α))) ∈
        whereabouts (({} : Session α).carryOut script).session
          ((({} : Session α).carryOut script).result.flatMap Answer.deeds) :=
      mem_whereabouts_dropped_iff.mpr h
    have hempty : ¬ ({} : Pair α (Destructor α)) = ⟨none, some d⟩ := by simp
    obtain ⟨-, p, hp, heq⟩ := exists_brought (.ofProp (· = ⟨none, some d⟩) hempty (by simp))
      script _ hplace ((Trait.holds_ofProp_iff ..).mpr rfl)
    exact ⟨rfl, (Trait.holds_ofProp_iff ..).mp heq ▸ hp⟩

/-- **No stored destructor is skipped.** Wherever the run of a script may be, also in the middle of
a destruction, after calls that failed or were refused, after a panic, and whatever became of a value
behind which a text was put: every entry of every list that has a destructor has a value. A pair
that is handed back is empty exactly if it has no value, and whenever it is finalized, its
destructor runs if it has one, and nothing runs otherwise. A call that destroys or drops a list, or
puts a new one in its place, runs the destructors of the entries in order, all of them or up to one
that panics; it is all of them if none of them panics, or if the call does not report a panic. In
the whole run a destructor is let go for want of a value only with a pair that the script made
without one. -/
theorem destructors_have_values (script : List (Step α)) {τ : Session α}
    (hpasses : Passes {} (.script script) τ) :
    (∀ name l, τ.lists.find? name = some l →
      ∀ p ∈ l.entries, p.destructor.isSome = true → p.value.isSome = true) ∧
    (∀ x p, (τ.perform x).result.summary.reply = .pair p →
      p.isEmpty = p.value.isNone ∧
      ∀ (υ : Session α) (name : String) (shown : Option String × Option String),
        υ.held.find? name = some p →
        let finalized := υ.perform (.mk (.finalize name) shown.1 shown.2)
        (p.destructor = none → finalized.result.journal = [.dropped p .inert]) ∧
        ∀ d, p.destructor = some d →
          ∃ v inner, p.value = some v ∧ finalized.result.journal = [.ran v d inner]) ∧
    (∀ name l (x : Step α), τ.lists.find? name = some l → x.call.tears? = some name →
      let torn := (τ.perform x).result
      let runs := ((τ.away name).runAll l.entries).result.2
      let ran := (runs.filterMap Note.run?).map Pair.armed
      let ready := l.entries.filter fun p => p.destructor.isSome
      (∃ rest, torn.journal = .event (.destroyed l.length) :: (runs ++ rest)) ∧
      ran <+: ready ∧
      (ran = ready ∨ ∃ p d, ran.getLast? = some p ∧ p.destructor = some d ∧ d.panic ≠ none) ∧
      (torn.summary.reply = .done → ran = ready) ∧
      ((∀ p ∈ l.entries, ∀ d, p.destructor = some d → d.panic = none) → ran = ready)) ∧
    ∀ p d, .dropped p .inert ∈ (({} : Session α).carryOut script).result.flatMap Answer.deeds →
      p.destructor = some d → p.value = none ∧ p ∈ scriptSites script := by
  have hτ : τ.AllLists SlotList.Valued :=
    (invariant_allLists SlotList.lasting_valued).of_passes hpasses allLists_empty trivial
  refine ⟨hτ, fun x p hreply => ?_, fun name l x hl htears => ?_, fun p d => site_of_inert script⟩
  · have hp : p.Valued := handedBack_of_perform SlotList.lasting_valued hτ hreply
    exact ⟨hp.isEmpty_eq, fun υ name shown hheld => perform_finalize_of_valued hheld hp shown⟩
  · intro torn runs ran ready
    obtain ⟨hjournal, hdone⟩ := journal_of_tears htears hl
    obtain ⟨hinitial, hlast, hall⟩ := runAll_of_valued (τ.away name) (hτ name l hl)
    refine ⟨hjournal, hinitial, hlast, fun hreply => hall (hdone hreply), fun hquiet => ?_⟩
    rcases hlast with heq | ⟨p, d, hp, hd, hpanic⟩
    · exact heq
    · -- the last pair that ran is an entry
      have hmem := (List.mem_filter.mp (hinitial.subset (List.mem_of_getLast? hp))).1
      exact absurd (hquiet p hmem d hd) hpanic

/-- The destructor of a list stores another destructor in a second list, and destroys it. -/
theorem destroyed_by_a_destructor :
    let inner : Destructor := .mk "inner" [] none
    let outer : Destructor := .mk "outer"
      [.mk (.set "m" "a" ⟨1⟩ "y" (some inner) none false) none none,
        .mk (.destroy "m") none none] none
    let script : List Step := [.mk (.newAllocator "a" (.given {})) none none,
      .mk (.allocateUpTo "a" 2 false) none none, .mk (.newList "m" (.given {})) none none,
      .mk (.newList "l" (.given {})) none none,
      .mk (.set "l" "a" ⟨0⟩ "x" (some outer) none false) none none,
      .mk (.destroy "l") none none]
    let m : SlotList String Destructor := ⟨[{}, ⟨some "y", some inner⟩], none⟩
    ∃ τ, Passes {} (.script script) τ ∧ τ.lists.find? "l" = none ∧ τ.lists.find? "m" = some m ∧
      (((τ.away "m").runAll m.entries).result.2.filterMap Note.run?).map Pair.armed =
        [⟨some "y", some inner⟩] := by
  intro inner outer script m
  let σ₁ : Session := ({} : Session).putAllocator "a" {}
  let σ₂ : Session := σ₁.putAllocator "a" ⟨[some ⟨0⟩, some ⟨1⟩], 2, none⟩
  let σ₃ : Session := σ₂.putList "m" {}
  let σ₄ : Session := σ₃.putList "l" {}
  let σ₅ : Session := σ₃.putList "l" ⟨[⟨some "x", some outer⟩], none⟩
  let τ : Session := σ₂.putList "m" m
  have hpasses : Passes {} (.script script) τ := by
    refine .of_done (υ := σ₁) rfl (.of_done (υ := σ₂) rfl (.of_done (υ := σ₃) rfl
      (.of_done (υ := σ₄) rfl (.of_done (υ := σ₅) rfl ?_))))
    refine .of_start (t := ⟨σ₃, _, .teardown [⟨some "x", some outer⟩] (.reinstate "l" {})⟩) rfl
      (.teardown (.running (d := outer) rfl ?_))
    exact .of_done (υ := τ) rfl (.outset τ _)
  have hm : τ.lists.find? "m" = some m := rfl
  obtain ⟨-, -, hdestroy, -⟩ := destructors_have_values script hpasses
  obtain ⟨-, -, -, -, hall⟩ := hdestroy "m" m (.mk (.destroy "m") none none) hm rfl
  refine ⟨τ, hpasses, rfl, hm, hall ?_⟩
  simp [m, inner, Destructor.panic]

end Session

end SlotStore
