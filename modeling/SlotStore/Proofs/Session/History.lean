import SlotStore.Proofs.Session.Agenda
import SlotStore.Proofs.Session.Destroy

/-!
# The history of a run

The steps of an agenda tell what happens to a pair on the way: which texts are put behind its value
(`Agenda.edits`), and why it is let go in the end (`Agenda.LetsGo`).

`Agenda.all` has every pair that an agenda has somewhere or can still come to have. A step makes none
of them twice (`pairs_all_step_le`), so a mark stays with one pair, and a value differs from what was
brought by what its history says and nothing else (`Tracked`, `tracked_steps`).
-/

namespace SlotStore

variable {α : Type}

/-! ## All pairs of an agenda -/

def Sequel.pairs : Sequel α → List (Pair α (Destructor α))
  | .report _ => []
  | .reinstate _ l => l.entries

def Work.pairs : Work α → List (Pair α (Destructor α))
  | .done _ => []
  | .teardown ps sequel => ps ++ sequel.pairs

def Task.pairs : Task α → List (Pair α (Destructor α))
  | .script steps => scriptPairs steps
  | .work w => w.pairs
  | .panic _ ps sequel => ps ++ sequel.pairs
  | .close => []

/-- All pairs that an agenda has or can still come to have, and those that ended. -/
def Agenda.all (x : Agenda α) : List (Pair α (Destructor α)) :=
  (x.session.pairs ++ x.tasks.flatMap Task.pairs).flatMap (fun p => p :: p.sites) ++
    x.deeds.map Deed.pair

namespace Agenda

section

variable {κ : Scale α}

theorem work_eq_pairs (hκ : κ.list = 0) (w : Work α) : κ.work w = κ.pairs w.pairs := by
  cases w with
  | done r => rfl
  | teardown ps sequel =>
    cases sequel with
    | report earlier => simp [Scale.work, Scale.sequel, Work.pairs, Sequel.pairs]
    | reinstate name l =>
      simp [Scale.work, Scale.sequel, Work.pairs, Sequel.pairs, Scale.ofList, hκ]

theorem pairs_all (σ : Session α) (tasks : List (Task α)) (deeds : List (Deed α)) :
    κ.pairs (all ⟨σ, tasks, deeds⟩) =
      κ.deep.session σ + κ.deep.pairs (tasks.flatMap Task.pairs) + κ.ended deeds := by
  rw [all, Scale.pairs_append, ← Scale.deep_pairs, Scale.pairs_append,
    Scale.session_eq_pairs rfl, Scale.ended]

theorem pairs_all_begin_le {before : Nat} {t : Stage α} (h : κ.deep.Balances before t)
    (tasks : List (Task α)) (deeds : List (Deed α)) :
    κ.pairs (begin t tasks deeds).all ≤
      before + κ.deep.pairs (tasks.flatMap Task.pairs) + κ.ended deeds := by
  have hbalance := Session.stage_balance rfl h
  have hnotes : κ.spent t.notes ≤ κ.deep.spent t.notes := κ.pairs_le_deep _
  have hwork := work_eq_pairs (κ := κ.deep) rfl t.work
  rw [begin, pairs_all, Scale.ended_append, Scale.ended_eq_spent, List.flatMap_cons,
    Scale.pairs_append]
  simp only [Scale.stage, Task.pairs] at hbalance ⊢
  omega

theorem sequel_eq_pairs (sequel : Sequel α) : κ.deep.sequel sequel = κ.deep.pairs sequel.pairs := by
  rw [← Nat.zero_add (κ.deep.sequel sequel)]
  exact work_eq_pairs (κ := κ.deep) rfl (.teardown [] sequel)

end

variable [HAppend α String α] {κ : Scale α}

/-- A step brings nothing that was not there, or still to be brought, before. -/
theorem pairs_all_step_le (x : Agenda α)
    (h : ∀ s script tasks, x.tasks = .script (s :: script) :: tasks → κ.Ignores x.session s.call) :
    κ.pairs x.step.all ≤ κ.pairs x.all := by
  fun_cases step x with
  | case1 => exact Nat.le_refl _
  | case2 σ tasks deeds => exact Nat.le_of_eq (by rw [pairs_all, pairs_all]; rfl)
  | case3 σ s script tasks deeds =>
    have hstart := Session.start_balances (h s script tasks rfl).deep
    have hcall : κ.deep.call s.call = κ.deep.pairs s.call.pairs :=
      Nat.add_eq_left.mpr (Nat.zero_mul _)
    refine Nat.le_trans (pairs_all_begin_le hstart _ deeds) ?_
    rw [pairs_all, hcall]
    simp only [List.flatMap_cons, Task.pairs, scriptPairs, Scale.pairs_append]
    omega
  | case4 σ r tasks deeds => exact Nat.le_of_eq (by rw [pairs_all, pairs_all]; rfl)
  | case5 σ sequel tasks deeds =>
    have hresume := Session.resume_balances (κ := κ.deep) σ none sequel
    refine Nat.le_trans (pairs_all_begin_le hresume tasks deeds) ?_
    rw [pairs_all, sequel_eq_pairs]
    simp only [List.flatMap_cons, Task.pairs, Work.pairs, List.nil_append, Scale.pairs_append]
    omega
  | case6 σ p ps sequel tasks deeds hp =>
    rw [pairs_all, pairs_all]
    simp only [List.flatMap_cons, Task.pairs, Work.pairs, List.cons_append, Scale.pairs_append,
      Scale.pairs_cons, Scale.ended_append, Scale.ended_cons, Scale.ended_nil, Deed.pair]
    have : κ.pair p ≤ κ.deep.pair p := Nat.le_add_right _ _
    omega
  | case7 σ p ps sequel tasks deeds v d hp =>
    have hpair : p = ⟨some v, some d⟩ := Pair.runnable?_eq_some_iff.mp hp
    have hdeep : κ.deep.pair p = κ.pair p + κ.deep.pairs (scriptPairs d.script) := by
      rw [κ.deep_scriptPairs, ← Destructor.sites_eq, hpair]
      rfl
    have hbehind : (Task.behind d.panic ps sequel).pairs = ps ++ sequel.pairs := by
      cases d.panic <;> rfl
    rw [pairs_all, pairs_all]
    simp only [List.flatMap_cons, hbehind]
    simp only [Task.pairs, Work.pairs, List.cons_append, Scale.pairs_append, Scale.pairs_cons,
      Scale.ended_append, Scale.ended_cons, Scale.ended_nil, Deed.pair, ← hpair]
    omega
  | case8 σ text ps sequel tasks deeds =>
    have hresume := Session.resume_balances (κ := κ.deep) σ (some text) sequel
    refine Nat.le_trans (pairs_all_begin_le hresume tasks _) ?_
    have := κ.pairs_le_deep ps
    rw [pairs_all, sequel_eq_pairs, Scale.ended_append, Scale.ended_dropped]
    simp only [List.flatMap_cons, Task.pairs, Scale.pairs_append]
    omega
  | case9 σ tasks deeds hnone => exact Nat.le_of_eq (by rw [pairs_all, pairs_all]; rfl)
  | case10 σ tasks deeds name hname =>
    have hstart := Session.start_balances (κ := κ.deep) (σ := σ) (c := .dropList name) trivial
    refine Nat.le_trans (pairs_all_begin_le hstart _ deeds) (Nat.le_of_eq ?_)
    rw [pairs_all]
    rfl

end Agenda

namespace Agenda

theorem mem_all_of_mem_pairs {x : Agenda α} {p : Pair α (Destructor α)} (h : p ∈ x.session.pairs) :
    p ∈ x.all :=
  List.mem_append_left _ (List.mem_flatMap.mpr
    ⟨p, List.mem_append_left _ h, List.mem_cons_self ..⟩)

theorem mem_all_of_mem_places {x : Agenda α} {place : Place} {p : Pair α (Destructor α)}
    (h : (place, p) ∈ whereabouts x.session x.deeds) : p ∈ x.all := by
  have hp : p ∈ x.session.pairs ++ x.deeds.map Deed.pair := by
    rw [← whereabouts_pairs]
    exact List.mem_map.mpr ⟨_, h, rfl⟩
  rcases List.mem_append.mp hp with hp | hp
  · exact mem_all_of_mem_pairs hp
  · exact List.mem_append_right _ hp

end Agenda

theorem Trait.countP_all_step_le [HAppend α String α] (t : Trait α) (x : Agenda α) :
    x.step.all.countP t.holds ≤ x.all.countP t.holds := by
  have hle := Agenda.pairs_all_step_le x fun s _ _ _ => t.scale_steady.ignores x.session s.call
  rwa [t.scale_pairs, t.scale_pairs] at hle

theorem Trait.countP_all_steps_le [HAppend α String α] (t : Trait α) (x : Agenda α) (i : Nat) :
    (Agenda.step^[i] x).all.countP t.holds ≤ x.all.countP t.holds := by
  induction i with
  | zero => exact Nat.le_refl _
  | succ i ih =>
    rw [Function.iterate_succ_apply']
    exact Nat.le_trans (t.countP_all_step_le _) ih

theorem eq_of_countP_le_one {β : Type} {P : β → Bool} {l : List β} (h : l.countP P ≤ 1) {p q : β}
    (hp : p ∈ l) (hq : q ∈ l) (hpP : P p = true) (hqP : P q = true) : p = q := by
  rw [List.countP_eq_length_filter] at h
  have hp' := List.mem_filter.mpr ⟨hp, hpP⟩
  have hq' := List.mem_filter.mpr ⟨hq, hqP⟩
  match l.filter P, h, hp', hq' with
  | [x], _, hp', hq' => exact (List.mem_singleton.mp hp').trans (List.mem_singleton.mp hq').symm

/-! ## Traits of marked pairs -/

namespace Session

def markTrait (n : Nat) : Trait (Marked α) where
  holds p := p.mark? == some n
  holds_empty := rfl
  holds_append _ _ _ := rfl

/-- The trait to be a pair as it was brought, apart from what was done to its value since. -/
noncomputable def pairTrait (w : Marked α) (d : Option (Destructor (Marked α))) :
    Trait (Marked α) :=
  .ofProp (fun p => p.destructor = d ∧ ∃ edits, p.value = some { w with edits := edits })
    (by simp) fun v text e => by
      constructor
      · rintro ⟨he, edits, hv⟩
        refine ⟨he, v.edits, ?_⟩
        cases w
        cases hv
        rfl
      · rintro ⟨he, edits, hv⟩
        cases hv
        exact ⟨he, edits ++ [text], rfl⟩

theorem pairTrait_holds_iff {w : Marked α} {d : Option (Destructor (Marked α))}
    {p : Pair (Marked α) (Destructor (Marked α))} :
    (pairTrait w d).holds p = true ↔
      ∃ edits, p = ⟨some { w with edits := edits }, d⟩ := by
  rw [pairTrait, Trait.holds_ofProp_iff]
  obtain ⟨v, e⟩ := p
  constructor
  · rintro ⟨rfl, edits, rfl⟩
    exact ⟨edits, rfl⟩
  · rintro ⟨edits, h⟩
    cases h
    exact ⟨rfl, edits, rfl⟩

/-! ## Changes of values -/

/-- The texts that a call puts behind the value with a mark: that of a call to put one behind the
value of an entry, if the slot is live and the mark is there. -/
def appended (σ : Session (Marked α)) (n : Nat) : Call (Marked α) → List String
  | .append name allocator s text =>
    match σ.allocators.find? allocator, σ.lists.find? name with
    | some a, some l => if a.isLive s ∧ (l.pairAt s.index).mark? = some n then [text] else []
    | _, _ => []
  | _ => []

theorem exists_entry_of_appended {σ : Session (Marked α)} {n : Nat} {c : Call (Marked α)}
    (h : σ.appended n c ≠ []) :
    ∃ name allocator s text a l w d, c = .append name allocator s text ∧
      σ.allocators.find? allocator = some a ∧ σ.lists.find? name = some l ∧
      a.isLive s = true ∧ l.pairAt s.index = ⟨some w, d⟩ ∧ w.mark = n ∧
      σ.appended n c = [text] := by
  cases c
  case append name allocator s text =>
    rw [appended] at h ⊢
    split at h
    next a l ha hl =>
      split at h
      next hs =>
        obtain ⟨hlive, hmark⟩ := hs
        obtain ⟨w, hw, rfl⟩ := Option.map_eq_some_iff.mp hmark
        refine ⟨name, allocator, s, text, a, l, w, (l.pairAt s.index).destructor, rfl, ha, hl,
          hlive, by rw [← hw], rfl, ?_⟩
        exact if_pos ⟨hlive, hmark⟩
      next => exact absurd rfl h
    next => exact absurd rfl h
  all_goals exact absurd rfl h

theorem find?_start_append [HAppend α String α] {σ : Session α} {name allocator : String}
    {a : Allocator} {l : SlotList α (Destructor α)} {s : Slot} (text : String)
    (ha : σ.allocators.find? allocator = some a) (hl : σ.lists.find? name = some l)
    (hs : a.isLive s = true) :
    (σ.start (.append name allocator s text)).session.lists.find? name =
      some (l.alter (fun v : α => v ++ text) s.index) := by
  have hmodify : (l.modify a s fun v : α => v ++ text).state =
      l.alter (fun v : α => v ++ text) s.index := by
    rw [SlotList.modify, SlotList.guarded, if_pos hs]
  simp only [start, withAllocator, ha, withList, takeList?_of_find? hl, afterList, putList]
  rw [Named.find?_put_self, hmodify]

end Session

/-- The pairs of which the value has a mark and not these edits. -/
def Scale.stale (n : Nat) (edits : List String) : Scale (Marked α) :=
  .counting (fun p => p.value.any fun w => w.mark == n && w.edits != edits) rfl

namespace Agenda

/-- The texts that the next step puts behind the value with a mark. -/
def appended (x : Agenda (Marked α)) (n : Nat) : List String :=
  match x.tasks with
  | .script (s :: _) :: _ => x.session.appended n s.call
  | _ => []

/-- The texts that the first steps put behind the value with a mark, one after the other. -/
def edits (x : Agenda (Marked α)) (steps n : Nat) : List String :=
  (List.range steps).flatMap fun i => (step^[i] x).appended n

/-- No two pairs have the same mark, and each value was changed as its history says. -/
structure Tracked (x : Agenda (Marked α)) (history : Nat → List String) : Prop where
  once : ∀ n, x.all.countP (Session.markTrait n).holds ≤ 1
  current : ∀ p ∈ x.all, ∀ w, p.value = some w → w.edits = history w.mark

theorem stale_pairs_eq_zero_iff {n : Nat} {edits : List String}
    {ps : List (Pair (Marked α) (Destructor (Marked α)))} :
    (Scale.stale n edits).pairs ps = 0 ↔
      ∀ p ∈ ps, ∀ w, p.value = some w → w.mark = n → w.edits = edits := by
  rw [Scale.stale, Scale.counting_pairs, List.countP_eq_zero]
  constructor
  · intro h p hp w hw hmark
    simpa [hw, hmark] using h p hp
  · intro h p hp
    cases hv : p.value with
    | none => simp
    | some w => simpa using h p hp w hv

theorem ignores_stale {x : Agenda (Marked α)} {n : Nat} (h : x.appended n = [])
    (edits : List String) {s : Step (Marked α)} {script : List (Step (Marked α))}
    {tasks : List (Task (Marked α))} (htasks : x.tasks = .script (s :: script) :: tasks) :
    (Scale.stale n edits).Ignores x.session s.call := by
  rw [appended, htasks] at h
  change x.session.appended n s.call = [] at h
  cases hcall : s.call
  case append name allocator slot text =>
    intro a l ha hl hs
    have hmark : (l.pairAt slot.index).mark? ≠ some n := by
      simpa [hcall, Session.appended, ha, hl, hs] using h
    rw [SlotList.value?]
    generalize l.pairAt slot.index = p at hmark
    obtain ⟨v, d⟩ := p
    cases v with
    | none => rfl
    | some w =>
      have hne : w.mark ≠ n := fun he => hmark (congrArg some he)
      have happend : (w ++ text).mark = w.mark := rfl
      simp [Scale.stale, Scale.counting, happend, hne]
  all_goals exact trivial

theorem exists_appended {x : Agenda (Marked α)} {n : Nat} (h : x.appended n ≠ []) :
    ∃ w d text, x.appended n = [text] ∧ w.mark = n ∧ ⟨some w, d⟩ ∈ x.session.pairs ∧
      ⟨some (w ++ text), d⟩ ∈ x.step.session.pairs := by
  obtain ⟨σ, tasks, deeds⟩ := x
  unfold appended at h ⊢
  split at h
  next s script rest heq =>
    dsimp only at heq h ⊢
    subst heq
    obtain ⟨name, allocator, slot, text, a, l, w, d, hcall, ha, hl, hs, hpair, hmark, happended⟩ :=
      Session.exists_entry_of_appended h
    have hlength : slot.index < l.length := by
      rw [SlotList.length]
      by_contra hlong
      rw [SlotList.pairAt, List.getElem?_eq_none (Nat.le_of_not_lt hlong)] at hpair
      cases hpair
    refine ⟨w, d, text, happended, hmark, Session.mem_pairs_of_find? hl ?_, ?_⟩
    · rw [SlotList.pairAt, List.getElem?_eq_getElem hlength, Option.getD_some] at hpair
      rw [← hpair]
      exact List.getElem_mem hlength
    · have hfind := Session.find?_start_append text ha hl hs
      rw [← hcall] at hfind
      change _ ∈ (σ.start s.call).session.pairs
      refine Session.mem_pairs_of_find? hfind ?_
      rw [SlotList.alter, SlotList.value?, hpair]
      exact List.mem_set hlength _
  next => exact absurd rfl h

theorem Tracked.step {x : Agenda (Marked α)} {history : Nat → List String}
    (h : x.Tracked history) : x.step.Tracked fun n => history n ++ x.appended n := by
  have honce : ∀ n, x.step.all.countP (Session.markTrait n).holds ≤ 1 := fun n =>
    Nat.le_trans ((Session.markTrait n).countP_all_step_le x) (h.once n)
  refine ⟨honce, fun p hp w hw => ?_⟩
  by_cases hnone : x.appended w.mark = []
  · have hle := pairs_all_step_le (κ := Scale.stale w.mark (history w.mark)) x
      fun s script tasks => ignores_stale hnone _
    have hzero : (Scale.stale w.mark (history w.mark)).pairs x.all = 0 :=
      stale_pairs_eq_zero_iff.mpr fun q hq v hv hmark => hmark ▸ h.current q hq v hv
    rw [hzero, Nat.le_zero, stale_pairs_eq_zero_iff] at hle
    rw [hnone, List.append_nil]
    exact hle p hp w hw rfl
  · obtain ⟨v, d, text, htext, hmark, hbefore, hafter⟩ := exists_appended hnone
    have hv := h.current _ (mem_all_of_mem_pairs hbefore) v rfl
    -- the value with this mark is the one behind which the text was put
    have hpair : p = ⟨some (v ++ text), d⟩ :=
      eq_of_countP_le_one (honce w.mark) hp (mem_all_of_mem_pairs hafter)
        (beq_iff_eq.mpr (congrArg _ hw)) (beq_iff_eq.mpr (congrArg some hmark))
    rw [hpair] at hw
    cases hw
    rw [htext, ← hmark, ← hv]
    rfl

theorem edits_succ (x : Agenda (Marked α)) (i n : Nat) :
    x.edits (i + 1) n = x.edits i n ++ (step^[i] x).appended n := by
  rw [edits, List.range_succ, List.flatMap_append, List.flatMap_singleton, edits]

theorem tracked_steps {x : Agenda (Marked α)} (h : x.Tracked fun _ => []) (i : Nat) :
    (step^[i] x).Tracked (x.edits i) := by
  induction i with
  | zero => exact h
  | succ i ih =>
    rw [Function.iterate_succ_apply', funext (x.edits_succ i)]
    exact ih.step

/-- A whole session is to be played. -/
def outset (σ : Session α) (script : List (Step α)) : Agenda α := ⟨σ, [.script script, .close], []⟩

section

variable (script : List (Step α))

theorem all_outset : (outset {} script).all = scriptSites script := by
  simp [all, outset, Session.pairs, Task.pairs, scriptSites_eq]

theorem tracked_outset : (outset {} (scriptNumber 0 script)).Tracked fun _ => [] where
  once n := by
    have hmarks := List.nodup_iff_count.mp (marks_nodup script) n
    rw [List.count_filterMap] at hmarks
    rwa [all_outset]
  current p hp w hw := by
    obtain ⟨v, d⟩ := p
    cases hw
    rw [all_outset] at hp
    exact edits_of_mem_sites hp

/-- A value has the texts behind it that its history says, wherever it is. -/
theorem edits_of_mem_places {i : Nat} {place : Place} {w : Marked α}
    {d : Option (Destructor (Marked α))}
    (h : (place, ⟨some w, d⟩) ∈ whereabouts
      (step^[i] (outset {} (scriptNumber 0 script))).session
      (step^[i] (outset {} (scriptNumber 0 script))).deeds) :
    w.edits = (outset {} (scriptNumber 0 script)).edits i w.mark :=
  (tracked_steps (tracked_outset script) i).current _ (mem_all_of_mem_places h) w rfl

theorem mem_sites_of_mem_all {i : Nat} {w : Marked α} {d : Option (Destructor (Marked α))}
    (h : ⟨some w, d⟩ ∈ (step^[i] (outset {} (scriptNumber 0 script))).all) :
    ⟨some { w with edits := [] }, d⟩ ∈ scriptSites (scriptNumber 0 script) := by
  have hle := (Session.pairTrait w d).countP_all_steps_le (outset {} (scriptNumber 0 script)) i
  have hpos := List.countP_pos_iff.mpr ⟨_, h, Session.pairTrait_holds_iff.mpr ⟨w.edits, rfl⟩⟩
  obtain ⟨p, hp, hpw⟩ := List.countP_pos_iff.mp (Nat.lt_of_lt_of_le hpos hle)
  obtain ⟨edits, rfl⟩ := Session.pairTrait_holds_iff.mp hpw
  rw [all_outset] at hp
  have hedits : edits = [] := edits_of_mem_sites hp
  rwa [hedits] at hp

end

/-! ## Reasons for letting pairs go -/

variable [HAppend α String α]

/-- Why a step of an agenda lets a pair go. -/
inductive LetsGo (x : Agenda α) (i : Nat) (p : Pair α (Destructor α)) : Loss → Prop
  /-- A call begins. -/
  | call {loss : Loss} {s : Step α} {script : List (Step α)} {tasks : List (Task α)} :
      (step^[i] x).tasks = .script (s :: script) :: tasks →
      (step^[i] x).session.LetsGo s.call ((step^[i] x).session.start s.call).work p loss →
      LetsGo x i p loss
  /-- It is torn down. -/
  | inert {ps : List (Pair α (Destructor α))} {sequel : Sequel α} {tasks : List (Task α)} :
      (step^[i] x).tasks = .work (.teardown (p :: ps) sequel) :: tasks → p.runnable? = none →
      LetsGo x i p .inert
  /-- It was to be torn down, and a destructor before it panicked. -/
  | panicked {j : Nat} {q : Pair α (Destructor α)} {ps : List (Pair α (Destructor α))}
      {sequel : Sequel α} {tasks : List (Task α)} {v : α} {d : Destructor α} {text : String} :
      j < i → (step^[j] x).tasks = .work (.teardown (q :: ps) sequel) :: tasks →
      q.runnable? = some (v, d) → d.panic = some text → p ∈ ps →
      (step^[i] x).tasks = .panic text ps sequel :: tasks → LetsGo x i p .panicked

section

variable {x : Agenda α} {text : String} {ps : List (Pair α (Destructor α))} {sequel : Sequel α}
  {tasks : List (Task α)}

omit [HAppend α String α] in
theorem suffix_of_suffix_cons {t : Task α} {others : List (Task α)}
    (hne : t ≠ .panic text ps sequel) (h : .panic text ps sequel :: tasks <:+ t :: others) :
    .panic text ps sequel :: tasks <:+ others := by
  rcases List.suffix_cons_iff.mp h with heq | h
  · exact absurd (List.cons.inj heq).1.symm hne
  · exact h

/-- A panic is to be dealt with if it was before, or if a destructor that panics begins to run. -/
theorem panic_of_step (h : .panic text ps sequel :: tasks <:+ x.step.tasks) :
    .panic text ps sequel :: tasks <:+ x.tasks ∨
      ∃ q v d, x.tasks = .work (.teardown (q :: ps) sequel) :: tasks ∧
        q.runnable? = some (v, d) ∧ d.panic = some text := by
  have hcons : ∀ (t : Task α) others, .panic text ps sequel :: tasks <:+ others →
      .panic text ps sequel :: tasks <:+ t :: others :=
    fun t others hsuffix => hsuffix.trans (List.suffix_cons t others)
  revert h
  fun_cases Agenda.step x with
  | case1 => exact .inl
  | case2 | case4 | case9 => exact fun h => .inl (hcons _ _ h)
  | case3 =>
    intro h
    exact .inl (hcons _ _ (suffix_of_suffix_cons (by simp) (suffix_of_suffix_cons (by simp) h)))
  | case5 | case6 | case8 => exact fun h => .inl (hcons _ _ (suffix_of_suffix_cons (by simp) h))
  | case7 σ q qs s rest deeds v d hq =>
    intro h
    rcases List.suffix_cons_iff.mp (suffix_of_suffix_cons (by simp) h) with heq | hrest
    · obtain ⟨hbehind, rfl⟩ := List.cons.inj heq
      cases hd : d.panic with
      | none =>
        rw [hd] at hbehind
        cases hbehind
      | some other =>
        rw [hd] at hbehind
        cases hbehind
        exact .inr ⟨q, v, d, rfl, hq, hd⟩
    · exact .inl (hcons _ _ hrest)
  | case10 => exact fun h => .inl (suffix_of_suffix_cons (by simp) h)

theorem exists_panicking (hx : ∀ t ∈ x.tasks, ∀ text ps sequel, t ≠ .panic text ps sequel) {i : Nat}
    (h : .panic text ps sequel :: tasks <:+ (step^[i] x).tasks) :
    ∃ j < i, ∃ q v d, (step^[j] x).tasks = .work (.teardown (q :: ps) sequel) :: tasks ∧
      q.runnable? = some (v, d) ∧ d.panic = some text := by
  induction i with
  | zero => exact absurd rfl (hx _ (h.subset (List.mem_cons_self ..)) text ps sequel)
  | succ i ih =>
    rw [Function.iterate_succ_apply'] at h
    rcases panic_of_step h with h | ⟨q, v, d, htasks, hq, hd⟩
    · obtain ⟨j, hj, hpanicking⟩ := ih h
      exact ⟨j, Nat.lt_succ_of_lt hj, hpanicking⟩
    · exact ⟨i, Nat.lt_succ_self i, q, v, d, htasks, hq, hd⟩

/-- What a step lets go, it lets go for a reason. -/
theorem letsGo_of_step (hx : ∀ t ∈ x.tasks, ∀ text ps sequel, t ≠ .panic text ps sequel) {i : Nat}
    {y : Agenda α} (hy : step^[i] x = y) {p : Pair α (Destructor α)} {loss : Loss}
    (h : .dropped p loss ∈ y.step.deeds) : .dropped p loss ∈ y.deeds ∨ x.LetsGo i p loss := by
  revert h
  fun_cases Agenda.step y with
  | case1 | case2 | case4 | case9 => exact .inl
  | case3 σ s script rest deeds =>
    intro h
    rcases List.mem_append.mp h with h | h
    · exact .inl h
    · refine .inr (.call (congrArg Agenda.tasks hy) ?_)
      rw [hy]
      exact Session.letsGo_of_mem_deeds (σ.start_notes s.call) h
  | case5 σ sequel rest deeds =>
    intro h
    rcases List.mem_append.mp h with h | h
    · exact .inl h
    · rw [Session.resume_notes] at h
      cases h
  | case6 σ q ps sequel rest deeds hq =>
    intro h
    rcases List.mem_append.mp h with h | h
    · exact .inl h
    · cases List.mem_singleton.mp h
      exact .inr (.inert (congrArg Agenda.tasks hy) hq)
  | case7 σ q ps sequel rest deeds v d hq =>
    intro h
    rcases List.mem_append.mp h with h | h
    · exact .inl h
    · cases List.mem_singleton.mp h
  | case8 σ text ps sequel rest deeds =>
    intro h
    rcases List.mem_append.mp h with h | h
    · rcases List.mem_append.mp h with h | h
      · exact .inl h
      · obtain ⟨q, hq, heq⟩ := List.mem_map.mp h
        cases heq
        have htasks : (step^[i] x).tasks = .panic text ps sequel :: rest := congrArg Agenda.tasks hy
        obtain ⟨j, hj, q, v, d, hbefore, hq', hd⟩ :=
          exists_panicking hx ⟨[], htasks.symm⟩
        exact .inr (.panicked hj hbefore hq' hd hq htasks)
    · rw [Session.resume_notes] at h
      cases h
  | case10 σ rest deeds name hname =>
    intro h
    rcases List.mem_append.mp h with h | h
    · exact .inl h
    · exact absurd (Session.letsGo_of_mem_deeds (σ.start_notes (.dropList name)) h)
        Session.not_letsGo_dropList

theorem letsGo_of_mem_deeds (hx : ∀ t ∈ x.tasks, ∀ text ps sequel, t ≠ .panic text ps sequel)
    (hdeeds : x.deeds = []) {n : Nat} {p : Pair α (Destructor α)} {loss : Loss}
    (h : .dropped p loss ∈ (step^[n] x).deeds) : ∃ i < n, x.LetsGo i p loss := by
  induction n with
  | zero =>
    rw [Function.iterate_zero_apply, hdeeds] at h
    cases h
  | succ n ih =>
    rw [Function.iterate_succ_apply'] at h
    rcases letsGo_of_step hx rfl h with h | h
    · obtain ⟨i, hi, hloss⟩ := ih h
      exact ⟨i, Nat.lt_succ_of_lt hi, hloss⟩
    · exact ⟨n, Nat.lt_succ_self n, h⟩

end

/-- What a script lets go on the way, it lets go for a reason. -/
theorem letsGo_outset {σ : Session α} {script : List (Step α)} {n : Nat}
    {p : Pair α (Destructor α)} {loss : Loss}
    (h : .dropped p loss ∈ (step^[n] (outset σ script)).deeds) :
    ∃ i < n, (outset σ script).LetsGo i p loss :=
  letsGo_of_mem_deeds (by simp [outset]) rfl h

end Agenda

theorem Session.runnable?_eq_none_of_inert [HAppend α String α] (σ : Session α)
    (script : List (Step α)) {p : Pair α (Destructor α)}
    (h : .dropped p .inert ∈ (σ.carryOut script).result.flatMap Answer.deeds) :
    p.runnable? = none := by
  obtain ⟨n, hn⟩ := agenda_hereditary.carryOut σ script [.close] []
  have hdropped : .dropped p .inert ∈ (Agenda.step^[n] (Agenda.outset σ script)).deeds := by
    rw [Agenda.outset, hn]
    exact h
  obtain ⟨i, -, hloss⟩ := Agenda.letsGo_outset hdropped
  cases hloss with
  | call _ hcall => cases hcall
  | inert _ hnone => exact hnone

end SlotStore
