import SlotStore.Proofs.Allocator.Table
import SlotStore.Proofs.Session.Alike
import SlotStore.Proofs.Session.Destroy
import SlotStore.Proofs.Session.Notes
import SlotStore.Proofs.SlotList.Contents

/-!
# Failed calls

A call that fails or is refused leaves its allocator and its list as they were (`Outcome.Atomic`), so
the session is as before, nothing has run, and a pair that it was to store is let go
(`failed_step`). Failed calls can therefore be deleted from a run, and nobody can tell
(`failures_can_be_erased`).
-/

namespace SlotStore

/-! ## All or nothing -/

/-- A call that does not succeed leaves its structure as it was. -/
def Outcome.Atomic {σ ρ : Type} (s : σ) (o : Outcome σ ρ) : Prop :=
  ∀ f, o.answer = .error f → o.state = s

theorem Outcome.atomic_of_ok {σ ρ : Type} {s : σ} {o : Outcome σ ρ} {r : ρ} (h : o.answer = .ok r) :
    o.Atomic s := by
  intro f hf
  rw [h] at hf
  cases hf

namespace Allocator

theorem atomic_allocate (m : Memory) (a : Allocator) : (a.allocate m).Atomic a := by
  rcases allocate_cases m a with ⟨i, _, he⟩ | ⟨n, _, _, _, he⟩ | ⟨_, _, _, he⟩ | ⟨_, _, _, he⟩
  · exact Outcome.atomic_of_ok (congrArg Outcome.answer he)
  · rw [he]
    exact fun _ _ => rfl
  · exact Outcome.atomic_of_ok (congrArg Outcome.answer he)
  · rw [he]
    exact fun _ _ => rfl

theorem atomic_free (a : Allocator) (s : Slot) : (a.free s).Atomic a := by
  by_cases h : a.isLive s = true
  · exact Outcome.atomic_of_ok (congrArg Outcome.answer (free_of_isLive h))
  · rw [free_of_not_isLive h]
    exact fun _ _ => rfl

end Allocator

namespace SlotList

variable {α δ : Type}

theorem atomic_growTo (m : Memory) (n : Nat) (l : SlotList α δ) : (l.growTo m n).Atomic l := by
  intro f hf
  rcases growTo_cases m n l with ⟨_, he⟩ | ⟨_, _, _, _, he⟩ | ⟨_, _, _, he⟩ | ⟨_, _, _, he⟩
  · rw [he]
  · rw [he]
    rfl
  · rw [he] at hf
    cases hf
  · rw [he]
    rfl

theorem atomic_put (m : Memory) (i : Nat) (p : Pair α δ) (l : SlotList α δ) :
    (l.put m i p).Atomic l := by
  intro f hf
  rw [put] at hf ⊢
  cases hg : (l.growTo m (i + 1)).answer with
  | error g => simpa only using atomic_growTo m (i + 1) l g hg
  | ok u =>
    simp only [hg] at hf
    cases hf

theorem atomic_guarded {ρ : Type} {a : Allocator} {s : Slot}
    {call : SlotList α δ → Outcome (SlotList α δ) ρ} {l : SlotList α δ} (h : (call l).Atomic l) :
    (guarded a s call l).Atomic l := by
  intro f hf
  unfold guarded at hf ⊢
  split
  next hs =>
    rw [if_pos hs] at hf
    exact h f hf
  · rfl

theorem atomic_set (a : Allocator) (m : Memory) (s : Slot) (v : α) (d : Option δ)
    (l : SlotList α δ) : (l.set a m s v d).Atomic l :=
  atomic_guarded (atomic_put m s.index ⟨some v, d⟩ l)

theorem atomic_get (a : Allocator) (s : Slot) (l : SlotList α δ) : (l.get a s).Atomic l :=
  atomic_guarded (Outcome.atomic_of_ok rfl)

theorem atomic_modify (a : Allocator) (s : Slot) (f : α → α) (l : SlotList α δ) :
    (l.modify a s f).Atomic l :=
  atomic_guarded (Outcome.atomic_of_ok rfl)

theorem atomic_clear (a : Allocator) (s : Slot) (l : SlotList α δ) : (l.clear a s).Atomic l :=
  atomic_guarded (Outcome.atomic_of_ok rfl)

end SlotList

/-! ## Failed steps -/

section

variable {α : Type}

/-- Why the call of a reply did not succeed, if it did not. -/
def Reply.fault? : Reply α → Option Fault
  | .fault f => some f
  | _ => none

/-- Why a call has not succeeded, if it is over and has not. -/
def Work.fault? : Work α → Option Fault
  | .done r => r.fault?
  | .teardown _ _ => none

/-- Whether a call failed at a limit or for want of memory, or was refused. -/
def Answer.failed (a : Answer α) : Bool :=
  match a.summary.reply with
  | .fault (.error (.capacityExceeded _ _)) => true
  | .fault (.error (.outOfMemory _)) => true
  | .fault (.refusal _) => true
  | _ => false

theorem Answer.fault?_of_failed {a : Answer α} (h : a.failed = true) :
    a.summary.reply.fault?.isSome := by
  unfold failed at h
  split at h
  case h_1 hr | h_2 hr | h_3 hr =>
    rw [hr]
    rfl
  case h_4 => cases h

/-- A call brings along whatever it is to store. -/
def Call.Fresh : Call α → Prop
  | .setHeld _ _ _ _ _ _ => False
  | _ => True

def Deed.called? : Deed α → Option (α × Destructor α)
  | .ran v d => some (v, d)
  | .dropped _ _ => none

/-- The destructors that run during several steps, with their values, in order. -/
def called (answers : List (Answer α)) : List (α × Destructor α) :=
  (answers.flatMap Answer.deeds).filterMap Deed.called?

theorem called_cons (a : Answer α) (answers : List (Answer α)) :
    called (a :: answers) = a.deeds.filterMap Deed.called? ++ called answers := by
  rw [called, List.flatMap_cons, List.filterMap_append, called]

theorem filterMap_called?_dropped (ps : List (Pair α (Destructor α))) (loss : Loss) :
    (ps.map (Deed.dropped · loss)).filterMap Deed.called? = [] := by
  rw [List.filterMap_map, List.filterMap_eq_nil_iff]
  intro p _
  rfl

namespace Session

/-- If a call is over at once and has not succeeded, the session is as it was, and all that happened
to any pair is that the pairs that the call brought were let go. -/
def Unscathed (σ : Session α) (c : Call α) (t : Stage α) : Prop :=
  t.work.fault?.isSome →
    t.session.Alike σ ∧ journalDeeds t.notes = c.pairs.map (.dropped · .rejected)

section

variable {σ τ : Session α} {c : Call α} {name : String}

theorem unscathed_of_none {t : Stage α} (h : t.work.fault? = none) : Unscathed σ c t := by
  intro hf
  rw [h] at hf
  cases hf

theorem unscathed_withAllocator {ps : List (Pair α (Destructor α))} {f : Allocator → Stage α}
    (hf : ∀ a, σ.allocators.find? name = some a → Unscathed σ c (f a)) :
    Unscathed σ c (σ.withAllocator name ps f) := by
  unfold withAllocator
  split
  · exact unscathed_of_none rfl
  next a ha => exact hf a ha

theorem unscathed_withList {ps : List (Pair α (Destructor α))}
    {f : SlotList α (Destructor α) → Session α → Stage α}
    (hf : ∀ l, σ.lists.find? name = some l → Unscathed σ c (f l (σ.away name))) :
    Unscathed σ c (σ.withList name ps f) := by
  rw [withList]
  cases h : σ.lists.find? name with
  | none =>
    rw [takeList?_eq_none_iff.mpr h]
    exact unscathed_of_none rfl
  | some l =>
    rw [takeList?_of_find? h]
    exact hf l h

theorem unscathed_withHeld {f : Pair α (Destructor α) → Session α → Stage α}
    (hf : ∀ p τ, Unscathed σ c (f p τ)) : Unscathed σ c (σ.withHeld name f) := by
  unfold withHeld
  split
  · exact unscathed_of_none rfl
  next p τ _ => exact hf p τ

theorem alike_putAllocator {a : Allocator} (h : σ.allocators.find? name = some a) :
    (σ.putAllocator name a).Alike σ :=
  ⟨Named.alike_put_of_find? h, fun _ => rfl, fun _ => rfl⟩

theorem alike_putList_away {l : SlotList α (Destructor α)} (h : σ.lists.find? name = some l) :
    ((σ.away name).putList name l).Alike σ := by
  rw [putList_away]
  exact ⟨fun _ => rfl, Named.alike_put_of_find? h, fun _ => rfl⟩

theorem unscathed_afterAllocator {ρ : Type} {a : Allocator} {o : Outcome Allocator ρ}
    {reply : ρ → Reply α} (ha : σ.allocators.find? name = some a) (ho : o.Atomic a)
    (hr : ∀ r, (reply r).fault? = none) (hc : c.pairs = []) :
    Unscathed σ c (σ.afterAllocator name o reply) := by
  rw [afterAllocator]
  cases hanswer : o.answer with
  | ok r => exact unscathed_of_none (hr r)
  | error g =>
    intro _
    rw [ho g hanswer, hc]
    exact ⟨alike_putAllocator ha, journalDeeds_events o.events⟩

theorem unscathed_afterList {ρ : Type} {l : SlotList α (Destructor α)}
    {o : Outcome (SlotList α (Destructor α)) ρ} {reply : ρ → Reply α}
    (hl : σ.lists.find? name = some l) (ho : o.Atomic l) (hr : ∀ r, (reply r).fault? = none)
    (hc : c.pairs = []) : Unscathed σ c ((σ.away name).afterList name o reply) := by
  rw [afterList]
  cases hanswer : o.answer with
  | ok r => exact unscathed_of_none (hr r)
  | error g =>
    intro _
    rw [ho g hanswer, hc]
    exact ⟨alike_putList_away hl, journalDeeds_events o.events⟩

theorem unscathed_afterExchange {hold : Option String} {l : SlotList α (Destructor α)}
    {o : Outcome (SlotList α (Destructor α)) (Pair α (Destructor α))}
    (hl : σ.lists.find? name = some l) (ho : o.Atomic l) :
    Unscathed σ c ((σ.away name).afterExchange name hold c.pairs o) := by
  rw [afterExchange]
  cases hanswer : o.answer with
  | ok p => exact unscathed_of_none rfl
  | error g =>
    intro _
    simp only [ho g hanswer, journalDeeds_append, journalDeeds_events, journalDeeds_dropped,
      List.nil_append, and_true]
    exact alike_putList_away hl

end

theorem eq_unreadable_of_limitsOf {source : LimitsSource} {r : Reply α}
    (h : limitsOf source = .error r) : ∃ text u, r = .unreadable text u := by
  cases source with
  | given limits => cases h
  | toml text =>
    rw [limitsOf] at h
    cases hread : Limits.ofToml text with
    | ok limits =>
      rw [hread] at h
      cases h
    | error u =>
      rw [hread] at h
      cases h
      exact ⟨text, u, rfl⟩

theorem fault?_afterRuns (panic : Option String) : (afterRuns panic : Reply α).fault? = none := by
  cases panic <;> rfl

end Session

end

namespace Session

variable {α : Type} [HAppend α String α]

theorem unscathed_start (σ : Session α) {c : Call α} (hc : c.Fresh) :
    Unscathed σ c (σ.start c) := by
  cases c
  case newAllocator name source =>
    simp only [start]
    split
    next r hr =>
      obtain ⟨_, _, rfl⟩ := eq_unreadable_of_limitsOf hr
      exact unscathed_of_none rfl
    · exact unscathed_of_none rfl
  case newList name source =>
    simp only [start]
    split
    next r hr =>
      obtain ⟨_, _, rfl⟩ := eq_unreadable_of_limitsOf hr
      exact unscathed_of_none rfl
    · split <;> exact unscathed_of_none rfl
  case allocate name exhausted =>
    exact unscathed_withAllocator fun a ha =>
      unscathed_afterAllocator ha (Allocator.atomic_allocate _ a) (fun _ => rfl) rfl
  case free name s =>
    exact unscathed_withAllocator fun a ha =>
      unscathed_afterAllocator ha (Allocator.atomic_free a s) (fun _ => rfl) rfl
  case set name allocator s v d hold exhausted =>
    exact unscathed_withAllocator fun a _ => unscathed_withList fun l hl =>
      unscathed_afterExchange hl (SlotList.atomic_set a _ s v d l)
  case setHeld name allocator s held hold exhausted => exact hc.elim
  case get name allocator s =>
    exact unscathed_withAllocator fun a _ => unscathed_withList fun l hl =>
      unscathed_afterList hl (SlotList.atomic_get a s l) (fun _ => rfl) rfl
  case append name allocator s text =>
    exact unscathed_withAllocator fun a _ => unscathed_withList fun l hl =>
      unscathed_afterList hl (SlotList.atomic_modify a s _ l) (fun _ => rfl) rfl
  case clear name allocator s hold =>
    exact unscathed_withAllocator fun a _ => unscathed_withList fun l hl =>
      unscathed_afterExchange hl (SlotList.atomic_clear a s l)
  case destroy name | dropList name | length name | showList name =>
    exact unscathed_withList fun l _ => unscathed_of_none rfl
  case newHeld name v d => exact unscathed_of_none rfl
  case showHeld name | finalize name | dropHeld name =>
    exact unscathed_withHeld fun p τ => unscathed_of_none rfl
  -- the others answer once an allocator is there
  all_goals exact unscathed_withAllocator fun a _ => unscathed_of_none rfl

theorem fault?_settle (σ : Session α) (work : Work α) :
    (σ.settle work).result.1.fault? = work.fault? :=
  read_settle fault?_afterRuns (fun _ => rfl) (fun _ _ => rfl) σ work

theorem work_of_failed {σ : Session α} {s : Step α} (h : (σ.perform s).result.failed = true) :
    (σ.start s.call).work.fault?.isSome := by
  obtain ⟨-, hreply, -⟩ := perform_of_start (rfl : σ.start s.call = σ.start s.call)
  have hfault := Answer.fault?_of_failed h
  rwa [hreply, fault?_settle] at hfault

/-- A failed call changes nothing. All that happens is that a pair that it was to store is let go
without a run. -/
theorem failed_step {σ : Session α} {s : Step α} (hs : s.call.Fresh)
    (h : (σ.perform s).result.failed = true) :
    (σ.perform s).session.Alike σ ∧
      (σ.perform s).result.deeds = s.call.pairs.map (.dropped · .rejected) := by
  have hfault := work_of_failed h
  obtain ⟨hsession, -, hjournal⟩ := perform_of_start (rfl : σ.start s.call = σ.start s.call)
  cases hwork : (σ.start s.call).work with
  | done r =>
    rw [hwork, settle_done_session] at hsession
    rw [hwork, settle_done_result, List.append_nil] at hjournal
    rw [Answer.deeds, hjournal, hsession]
    exact unscathed_start σ hs hfault
  | teardown ps sequel =>
    rw [hwork] at hfault
    cases hfault

/-! ## Runs without the failed calls -/

def transcript (σ : Session α) (script : List (Step α)) : List (Step α × Answer α) :=
  script.zip (σ.carryOut script).result

theorem transcript_cons (σ : Session α) (s : Step α) (script : List (Step α)) :
    σ.transcript (s :: script) =
      (s, (σ.perform s).result) :: (σ.perform s).session.transcript script := by
  rw [transcript, carryOut_cons_result, List.zip_cons_cons, transcript]

/-- What is left of a run when the failed calls are deleted. -/
def succeeded (σ : Session α) (script : List (Step α)) : List (Step α × Answer α) :=
  (σ.transcript script).filter fun x => !x.2.failed

theorem succeeded_cons_of_failed {σ : Session α} {s : Step α}
    (h : (σ.perform s).result.failed = true) (script : List (Step α)) :
    σ.succeeded (s :: script) = (σ.perform s).session.succeeded script := by
  rw [succeeded, transcript_cons, List.filter_cons_of_neg (by simp [h]), succeeded]

theorem succeeded_cons_of_not_failed {σ : Session α} {s : Step α}
    (h : ¬ (σ.perform s).result.failed = true) (script : List (Step α)) :
    σ.succeeded (s :: script) =
      (s, (σ.perform s).result) :: (σ.perform s).session.succeeded script := by
  rw [succeeded, transcript_cons, List.filter_cons_of_pos (by simp [h]), succeeded]

/-- The steps that did not fail go as before, in any session like the first. -/
theorem succeeded_run {σ τ : Session α} (h : τ.Alike σ) {script : List (Step α)}
    (hfresh : ∀ s ∈ script, s.call.Fresh) :
    (τ.carryOut ((σ.succeeded script).map Prod.fst)).result =
      (σ.succeeded script).map Prod.snd ∧
    (τ.carryOut ((σ.succeeded script).map Prod.fst)).session.Alike
      (σ.carryOut script).session ∧
    called (τ.carryOut ((σ.succeeded script).map Prod.fst)).result =
      called (σ.carryOut script).result := by
  induction script generalizing σ τ with
  | nil =>
    have hnil : σ.succeeded [] = [] := rfl
    rw [hnil, List.map_nil, carryOut_nil_session, carryOut_nil_session, carryOut_nil_result,
      carryOut_nil_result]
    exact ⟨rfl, h, rfl⟩
  | cons s script ih =>
    have hs := hfresh s (List.mem_cons_self ..)
    have hrest : ∀ t ∈ script, t.call.Fresh := fun t ht => hfresh t (List.mem_cons_of_mem _ ht)
    rw [carryOut_cons_session, carryOut_cons_result, called_cons]
    by_cases hf : (σ.perform s).result.failed = true
    · -- the run goes on as if the step had not been there
      obtain ⟨halike, hdeeds⟩ := failed_step hs hf
      rw [succeeded_cons_of_failed hf, hdeeds, filterMap_called?_dropped]
      exact ih (h.trans halike.symm) hrest
    · obtain ⟨halike, hanswer⟩ := alike_hereditary.perform τ s σ h
      obtain ⟨hresult, hend, hcalled⟩ := ih halike hrest
      rw [succeeded_cons_of_not_failed hf, List.map_cons, List.map_cons, carryOut_cons_session,
        carryOut_cons_result, hanswer, called_cons]
      exact ⟨congrArg _ hresult, hend, congrArg _ hcalled⟩

/-- **Failed calls can be erased.** Take a run in which every stored pair is brought along by the
call that stores it, and delete the steps whose calls failed at a limit, failed for want of memory
or were refused. The other steps give the same answers, the same destructors run on the same values
in the same order, and all allocators and lists are the same at the end. A failed call changes
nothing by itself: what it was to store is let go, and it runs nothing. -/
theorem failures_can_be_erased (σ : Session α) (script : List (Step α))
    (hfresh : ∀ s ∈ script, s.call.Fresh) :
    let erased := σ.carryOut ((σ.succeeded script).map Prod.fst)
    erased.result = (σ.succeeded script).map Prod.snd ∧
    erased.session.Alike (σ.carryOut script).session ∧
    called erased.result = called (σ.carryOut script).result ∧
    ∀ (τ : Session α), ∀ s ∈ script, (τ.perform s).result.failed = true →
      (τ.perform s).session.Alike τ ∧
      (τ.perform s).result.deeds = s.call.pairs.map (.dropped · .rejected) := by
  obtain ⟨hresult, hend, hcalled⟩ := succeeded_run (Alike.refl σ) hfresh
  exact ⟨hresult, hend, hcalled, fun τ s hs hf => failed_step (hfresh s hs) hf⟩

/-- An allocator at its limit, a slot that is not live, and a destruction at the end. -/
theorem erased_at_the_limit :
    let first : Destructor := .mk "first" [] none
    let second : Destructor := .mk "second" [] none
    let σ : Session :=
      (({} : Session).putAllocator "a" ⟨[some ⟨0⟩], 1, some 1⟩).putList "l" { limit := some 1 }
    let allocate : Step := .mk (.allocate "a" false) none none
    let set : Step := .mk (.set "l" "a" ⟨0⟩ "x" (some first) none false) none none
    let refused : Step := .mk (.set "l" "a" ⟨1⟩ "y" (some second) none false) none none
    let destroy : Step := .mk (.destroy "l") none none
    let script := [allocate, set, refused, destroy]
    (∀ s ∈ script, s.call.Fresh) ∧
    (σ.succeeded script).map Prod.fst = [set, destroy] ∧
    (σ.carryOut [set, destroy]).session.Alike (σ.carryOut script).session ∧
    called (σ.carryOut [set, destroy]).result = called (σ.carryOut script).result := by
  intro first second σ allocate set refused destroy script
  have hfresh : ∀ s ∈ script, s.call.Fresh := by
    simp [script, allocate, set, refused, destroy, Step.call, Call.Fresh]
  -- the session after each of the four steps
  let τ : Session := σ.putAllocator "a" ⟨[some ⟨0⟩], 1, some 1⟩
  let υ : Session := τ.putList "l" ⟨[⟨some "x", some first⟩], some 1⟩
  obtain ⟨hτ, hfull, -⟩ := perform_of_done (σ := σ) (s := allocate) (τ := τ) rfl
  obtain ⟨hυ, hstored, -⟩ := perform_of_done (σ := τ) (s := set) (τ := υ) rfl
  obtain ⟨hρ, hrefused, -⟩ := perform_of_done (σ := υ) (s := refused) (τ := υ.putList "l" _) rfl
  have hkept : (σ.succeeded script).map Prod.fst = [set, destroy] := by
    rw [succeeded_cons_of_failed (by rw [Answer.failed, hfull]; rfl), hτ,
      succeeded_cons_of_not_failed (by rw [Answer.failed, hstored]; exact Bool.false_ne_true), hυ,
      succeeded_cons_of_failed (by rw [Answer.failed, hrefused]), hρ,
      succeeded_cons_of_not_failed]
    · rfl
    · intro h
      cases work_of_failed h
  obtain ⟨-, hend, hcalled, -⟩ := failures_can_be_erased σ script hfresh
  rw [hkept] at hend hcalled
  exact ⟨hfresh, hkept, hend, hcalled⟩

end Session

end SlotStore
