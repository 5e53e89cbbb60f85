import SlotStore.Proofs.Session.Induction
import SlotStore.Proofs.SlotList.Armed

/-!
# Destruction

What a destruction runs is decided when it begins: by the list alone, whatever its destructors do to
the session and whichever slots are live (`runAll_prefix`). `destroy_runs_ascending_prefix` says so
of the calls that destroy or drop a list, together with what they leave behind: a list that cannot
be told from one newly made.
-/

namespace SlotStore

variable {α : Type}

/-- The value and the destructor of a note that says that a destructor runs. -/
def Note.run? : Note α → Option (α × Destructor α)
  | .ran v d _ => some (v, d)
  | _ => none

/-- The pair of a note that says that a pair is let go because a destructor before it panicked. -/
def Note.abandoned? : Note α → Option (Pair α (Destructor α))
  | .dropped p .panicked => some p
  | _ => none

theorem filterMap_run?_dropped (pairs : List (Pair α (Destructor α))) (loss : Loss) :
    (pairs.map fun p => Note.dropped p loss).filterMap Note.run? = [] := by
  rw [List.filterMap_map, List.filterMap_eq_nil_iff]
  intro p _
  rfl

theorem filterMap_abandoned?_dropped (pairs : List (Pair α (Destructor α))) :
    (pairs.map fun p => Note.dropped p .panicked).filterMap Note.abandoned? = pairs := by
  rw [List.filterMap_map]
  exact List.filterMap_some

namespace Session

/-! ## A list taken out of a session -/

def away (σ : Session α) (name : String) : Session α := { σ with lists := σ.lists.without name }

theorem takeList?_of_find? {σ : Session α} {name : String} {l : SlotList α (Destructor α)}
    (h : σ.lists.find? name = some l) : σ.takeList? name = some (l, σ.away name) := by
  rw [takeList?, Named.take?, h]
  rfl

theorem putList_away (σ : Session α) (name : String) (l : SlotList α (Destructor α)) :
    (σ.away name).putList name l = σ.putList name l := by
  simp [putList, away, Named.put, Named.without, List.filter_filter]

theorem resume_reinstate_session (σ : Session α) (panic : Option String) (name : String)
    (l : SlotList α (Destructor α)) :
    (σ.resume panic (.reinstate name l)).session = σ.putList name l := by
  cases h : σ.lists.find? name with
  | none =>
    rw [resume, takeList?_eq_none_iff.mpr h]
    rfl
  | some other =>
    rw [resume, takeList?_of_find? h]
    exact putList_away σ name l

variable [HAppend α String α]

/-- Of the pairs that are torn down, in whatever session, the destructors run of a prefix of the
armed ones: up to the first that panics, or all. The others are let go. What their scripts do to the
session, one after the other, is all that happens to it. -/
theorem runAll_prefix (σ : Session α) (n : Nat) (pairs : List (Pair α (Destructor α))) :
    ∃ called skipped, SlotList.armedFrom n pairs = called ++ skipped ∧
      (σ.runAll pairs).result.2.filterMap Note.run? =
        called.map (fun e => (e.value, e.destructor)) ∧
      ((σ.runAll pairs).result.2.filterMap Note.abandoned?).filterMap Pair.runnable? =
        skipped.map (fun e => (e.value, e.destructor)) ∧
      (σ.runAll pairs).result.1 = called.getLast?.bind (·.destructor.panic) ∧
      (∀ e ∈ called.dropLast, e.destructor.panic = none) ∧
      ((σ.runAll pairs).result.1 = none → skipped = []) ∧
      (σ.runAll pairs).session =
        (σ.carryOut (called.flatMap fun e => e.destructor.script)).session := by
  -- a destructor may leave any session behind, so the statement is about all of them
  induction pairs generalizing σ n with
  | nil =>
    refine ⟨[], [], rfl, ?_⟩
    rw [runAll_nil_result, runAll_nil_session, List.flatMap_nil, carryOut_nil_session]
    exact ⟨rfl, rfl, rfl, by simp, fun _ => rfl, rfl⟩
  | cons p pairs ih =>
    cases hp : p.runnable? with
    | none =>
      obtain ⟨called, skipped, harmed, hruns, hlost, hpanic, hquiet, hall, hleft⟩ :=
        ih σ (n + 1)
      refine ⟨called, skipped, ?_⟩
      obtain ⟨hsession, hfst, hsnd⟩ := runAll_inert σ hp pairs
      simp only [SlotList.armedFrom, hp, hsession, hfst, hsnd, List.filterMap_cons, Note.run?,
        Note.abandoned?]
      exact ⟨harmed, hruns, hlost, hpanic, hquiet, hall, hleft⟩
    | some r =>
      obtain ⟨v, d⟩ := r
      cases hd : d.panic with
      | some text =>
        refine ⟨[⟨⟨n⟩, v, d⟩], SlotList.armedFrom (n + 1) pairs, ?_⟩
        obtain ⟨hsession, hfst, hsnd⟩ := runAll_panic σ hp hd pairs
        simp only [SlotList.armedFrom, hp, hsession, hfst, hsnd, List.filterMap_cons, Note.run?,
          Note.abandoned?, filterMap_run?_dropped, filterMap_abandoned?_dropped,
          SlotList.armedFrom_runnable]
        refine ⟨rfl, rfl, trivial, hd.symm, by simp, by simp, ?_⟩
        rw [List.flatMap_cons, List.flatMap_nil, List.append_nil]
      | none =>
        -- the pairs that remain are those of the list as it was, whatever `d` did
        obtain ⟨called, skipped, harmed, hruns, hlost, hpanic, hquiet, hall, hleft⟩ :=
          ih (σ.carryOut d.script).session (n + 1)
        refine ⟨⟨⟨n⟩, v, d⟩ :: called, skipped, ?_⟩
        obtain ⟨hsession, hfst, hsnd⟩ := runAll_ran σ hp hd pairs
        simp only [SlotList.armedFrom, hp, hsession, hfst, hsnd, List.filterMap_cons, Note.run?,
          Note.abandoned?, hruns]
        refine ⟨congrArg (_ :: ·) harmed, rfl, hlost, ?_, ?_, hall, ?_⟩
        · rw [hpanic]
          cases called with
          | nil => exact hd.symm
          | cons e called => rfl
        · cases called with
          | nil => simp
          | cons e called =>
            intro f hf
            rw [List.dropLast_cons_cons, List.mem_cons] at hf
            rcases hf with rfl | hf
            · exact hd
            · exact hquiet f hf
        · rw [hleft, List.flatMap_cons, (carryOut_append ..).1]

/-! ## The end of a teardown -/

theorem settle_report (σ : Session α) (pairs : List (Pair α (Destructor α)))
    (earlier : Option String) :
    (σ.settle (.teardown pairs (.report earlier))).session = (σ.runAll pairs).session ∧
    (σ.settle (.teardown pairs (.report earlier))).result.1 =
      afterRuns (earlier <|> (σ.runAll pairs).result.1) ∧
    (σ.settle (.teardown pairs (.report earlier))).result.2 = (σ.runAll pairs).result.2 := by
  have h : σ.afterTeardown pairs (.report earlier) =
      ⟨(σ.runAll pairs).session, [],
        .done (afterRuns (earlier <|> (σ.runAll pairs).result.1))⟩ := rfl
  obtain ⟨hsession, hreply, hnotes⟩ := settle_of_afterTeardown h
  rw [hsession, hreply, hnotes, settle_done_session, settle_done_result, List.append_nil,
    List.append_nil]
  exact ⟨rfl, rfl, rfl⟩

theorem settle_teardown_reply (σ : Session α) (pairs : List (Pair α (Destructor α)))
    (sequel : Sequel α) :
    ∃ panic, (σ.settle (.teardown pairs sequel)).result.1 = afterRuns panic ∧
      (panic = none → (σ.runAll pairs).result.1 = none) := by
  cases sequel with
  | report earlier =>
    refine ⟨_, (settle_report σ pairs earlier).2.1, fun h => ?_⟩
    rw [Option.orElse_eq_orElse, Option.orElse_eq_or, Option.or_eq_none_iff] at h
    exact h.2
  | reinstate name l =>
    rw [settle_teardown_result, afterTeardown, resume]
    split
    · refine ⟨(σ.runAll pairs).result.1, ?_, id⟩
      rw [reply, settle_done_result]
    · refine ⟨_, (settle_report _ _ _).2.1, fun h => ?_⟩
      rw [Option.orElse_eq_orElse, Option.orElse_eq_or, Option.or_eq_none_iff] at h
      exact h.1

theorem read_settle {ρ : Type} {read : Reply α → Option ρ} {begun : Work α → Option ρ}
    (hruns : ∀ panic, read (afterRuns panic) = none) (hdone : ∀ r, begun (.done r) = read r)
    (hteardown : ∀ pairs sequel, begun (.teardown pairs sequel) = none) (σ : Session α)
    (work : Work α) : read (σ.settle work).result.1 = begun work := by
  cases work with
  | done r => rw [settle_done_result, hdone]
  | teardown pairs sequel =>
    obtain ⟨panic, hreply, -⟩ := settle_teardown_reply σ pairs sequel
    rw [hreply, hruns, hteardown]

/-! ## Finalizing and letting go -/

theorem perform_finalize {σ : Session α} {name : String} {p : Pair α (Destructor α)}
    (h : σ.held.find? name = some p) (shown : Option String × Option String) :
    let journal := (σ.perform (.mk (.finalize name) shown.1 shown.2)).result.journal
    (p.runnable? = none → journal = [.dropped p .inert]) ∧
      ∀ v d, p.runnable? = some (v, d) → ∃ inner, journal = [.ran v d inner] := by
  intro journal
  let τ : Session α := { σ with held := σ.held.without name }
  have hstart : σ.start (.finalize name) = ⟨τ, [], .teardown [p] (.report none)⟩ := by
    rw [start, withHeld, takeHeld?, Named.take?, h]
    rfl
  have hjournal : journal = (τ.runAll [p]).result.2 :=
    (perform_of_start (s := .mk (.finalize name) shown.1 shown.2) hstart).2.2.trans
      (settle_report τ [p] none).2.2
  rw [hjournal]
  constructor
  · intro hp
    rw [(runAll_inert τ hp []).2.2, runAll_nil_result]
  · intro v d hp
    refine ⟨(τ.carryOut d.script).result.flatMap Answer.nested, ?_⟩
    cases hpanic : d.panic with
    | none => rw [(runAll_ran τ hp hpanic []).2.2, runAll_nil_result]
    | some text => rw [(runAll_panic τ hp hpanic []).2.2, List.map_nil]

theorem perform_dropHeld {σ : Session α} {name : String} {p : Pair α (Destructor α)}
    (h : σ.held.find? name = some p) (shown : Option String × Option String) :
    (σ.perform (.mk (.dropHeld name) shown.1 shown.2)).result.journal =
      [.dropped p .released] := by
  let τ : Session α := { σ with held := σ.held.without name }
  have hstart : σ.start (.dropHeld name) = ⟨τ, [.dropped p .released], .done .done⟩ := by
    rw [start, withHeld, takeHeld?, Named.take?, h]
    rfl
  rw [(perform_of_start (s := .mk (.dropHeld name) shown.1 shown.2) hstart).2.2,
    settle_done_result, List.append_nil]

/-! ## New lists -/

theorem newList_away (σ : Session α) (name : String) (limit : Option Nat) :
    ((σ.away name).perform
        (.mk (.newList name (.given { length := limit })) none none)).session =
      σ.putList name { limit := limit } := by
  have hnone : (σ.away name).takeList? name = none :=
    takeList?_eq_none_iff.mpr (Named.find?_without_self ..)
  have hstart : (σ.away name).start (.newList name (.given { length := limit })) =
      ((σ.away name).putList name { limit := limit }).reply .done := by
    simp only [start, limitsOf, hnone]
  rw [(perform_of_start hstart).1, reply, settle_done_session, putList_away]

/-! ## Destroying and dropping -/

section

variable {σ : Session α} {name : String} {l : SlotList α (Destructor α)}

theorem start_destroy (h : σ.lists.find? name = some l) :
    σ.start (.destroy name) = ⟨σ.away name, [.event (.destroyed l.length)],
      .teardown l.entries (.reinstate name l.emptied)⟩ := by
  rw [start, withList, takeList?_of_find? h]

theorem start_dropList (h : σ.lists.find? name = some l) :
    σ.start (.dropList name) = ⟨σ.away name, [.event (.destroyed l.length)],
      .teardown l.entries (.report none)⟩ := by
  rw [start, withList, takeList?_of_find? h]

variable (shown : Option String × Option String)

theorem perform_dropList (h : σ.lists.find? name = some l) :
    let runs := (σ.away name).runAll l.entries
    let dropped := σ.perform (.mk (.dropList name) shown.1 shown.2)
    dropped.session = runs.session ∧
    dropped.result.summary.reply = afterRuns runs.result.1 ∧
    dropped.result.journal = .event (.destroyed l.length) :: runs.result.2 := by
  intro runs dropped
  obtain ⟨hsession, hreply, hjournal⟩ :=
    perform_of_start (s := .mk (.dropList name) shown.1 shown.2) (start_dropList h)
  obtain ⟨hs, hr, hn⟩ := settle_report (σ.away name) l.entries none
  rw [hs] at hsession
  rw [hr] at hreply
  rw [hn] at hjournal
  exact ⟨hsession, hreply, hjournal⟩

/-- Destroying a list is tearing it down and putting it back; a list that a destructor made in its
place meanwhile is dropped then. -/
theorem perform_destroy (h : σ.lists.find? name = some l) :
    let runs := (σ.away name).runAll l.entries
    let ended := (σ.away name).afterTeardown l.entries (.reinstate name l.emptied)
    let destroyed := σ.perform (.mk (.destroy name) shown.1 shown.2)
    (runs.session.lists.find? name = none →
      destroyed.session = ended.session ∧
      destroyed.result.summary.reply = afterRuns runs.result.1 ∧
      destroyed.result.journal = .event (.destroyed l.length) :: runs.result.2) ∧
    (∀ other, runs.session.lists.find? name = some other →
      let more := ended.session.runAll other.entries
      destroyed.session = more.session ∧
      destroyed.result.summary.reply = afterRuns (runs.result.1 <|> more.result.1) ∧
      destroyed.result.journal = .event (.destroyed l.length) :: (runs.result.2 ++
        .event (.destroyed other.length) :: more.result.2)) := by
  intro runs ended destroyed
  obtain ⟨hsession, hreply, hjournal⟩ :=
    perform_of_start (s := .mk (.destroy name) shown.1 shown.2) (start_destroy h)
  have hended : ended = runs.session.resume runs.result.1 (.reinstate name l.emptied) := rfl
  constructor
  · intro hnone
    rw [resume, takeList?_eq_none_iff.mpr hnone] at hended
    obtain ⟨hs, hr, hn⟩ := settle_of_afterTeardown hended
    rw [hs] at hsession
    rw [hr] at hreply
    rw [hn] at hjournal
    simp only [reply, settle_done_session, settle_done_result, List.append_nil]
      at hsession hreply hjournal
    refine ⟨hsession.trans ?_, hreply, hjournal⟩
    rw [hended]
    rfl
  · intro other hsome more
    -- the list is back before the other one is torn down, and stays
    rw [resume, takeList?_of_find? hsome] at hended
    have hnotes : ended.notes = [.event (.destroyed other.length)] := congrArg Stage.notes hended
    have hwork : ended.work = .teardown other.entries (.report runs.result.1) :=
      congrArg Stage.work hended
    obtain ⟨hs, hr, hn⟩ := settle_of_afterTeardown (rfl : _ = ended)
    obtain ⟨hs', hr', hn'⟩ := settle_report ended.session other.entries runs.result.1
    rw [hs, hwork, hs'] at hsession
    rw [hr, hwork, hr'] at hreply
    rw [hn, hwork, hn', hnotes, List.append_assoc] at hjournal
    exact ⟨hsession, hreply, hjournal⟩

/-- **What a destruction runs.** The armed entries of a list, in strictly ascending order of their
slots, are called up to the first that panics; those behind it are let go. This depends on the list
as it is when the destruction begins, on nothing else in the session, and leaves the session that the
scripts of the destructors leave, carried out one after the other. A list that is dropped ends with
that. A list that is destroyed goes back, and the session is then as if a new list of the same
limit had been made; the next time that it is destroyed or dropped, nothing runs. -/
theorem destroy_runs_ascending_prefix (h : σ.lists.find? name = some l) :
    let runs := (σ.away name).runAll l.entries
    let ended := (σ.away name).afterTeardown l.entries (.reinstate name l.emptied)
    let destroyed := σ.perform (.mk (.destroy name) shown.1 shown.2)
    let dropped := σ.perform (.mk (.dropList name) shown.1 shown.2)
    let fresh := (runs.session.away name).perform
      (.mk (.newList name (.given { length := l.limit })) none none)
    (l.armed.Pairwise fun e f => e.slot < f.slot) ∧
    (∀ e, e ∈ l.armed ↔ l.pairAt e.slot.index = ⟨some e.value, some e.destructor⟩) ∧
    (∃ called skipped, l.armed = called ++ skipped ∧
      runs.result.2.filterMap Note.run? = called.map (fun e => (e.value, e.destructor)) ∧
      (runs.result.2.filterMap Note.abandoned?).filterMap Pair.runnable? =
        skipped.map (fun e => (e.value, e.destructor)) ∧
      runs.result.1 = called.getLast?.bind (·.destructor.panic) ∧
      (∀ e ∈ called.dropLast, e.destructor.panic = none) ∧
      (runs.result.1 = none → skipped = []) ∧
      runs.session =
        ((σ.away name).carryOut (called.flatMap fun e => e.destructor.script)).session) ∧
    (dropped.session = runs.session ∧
      dropped.result.summary.reply = afterRuns runs.result.1 ∧
      dropped.result.journal = .event (.destroyed l.length) :: runs.result.2) ∧
    (runs.session.lists.find? name = none →
      destroyed.session = ended.session ∧
      destroyed.result.summary.reply = afterRuns runs.result.1 ∧
      destroyed.result.journal = .event (.destroyed l.length) :: runs.result.2) ∧
    (∀ other, runs.session.lists.find? name = some other →
      let more := ended.session.runAll other.entries
      destroyed.session = more.session ∧
      destroyed.result.summary.reply = afterRuns (runs.result.1 <|> more.result.1) ∧
      destroyed.result.journal = .event (.destroyed l.length) :: (runs.result.2 ++
        .event (.destroyed other.length) :: more.result.2)) ∧
    ended.session.lists.find? name = some { limit := l.limit } ∧
    ended.session = fresh.session ∧
    ∀ again : Call α, again = .destroy name ∨ again = .dropList name →
      (ended.session.perform (.mk again shown.1 shown.2)).result.summary.reply = .done ∧
      (ended.session.perform (.mk again shown.1 shown.2)).result.journal =
        [.event (.destroyed 0)] := by
  intro runs ended destroyed dropped fresh
  obtain ⟨hnone, hsome⟩ := perform_destroy shown h
  have hput : ended.session = runs.session.putList name { limit := l.limit } :=
    resume_reinstate_session runs.session runs.result.1 name l.emptied
  have hfind : ended.session.lists.find? name = some { limit := l.limit } := by
    rw [hput]
    exact Named.find?_put_self ..
  refine ⟨l.armed_ascending, fun e => SlotList.mem_armed, runAll_prefix _ 0 l.entries,
    perform_dropList shown h, hnone, hsome, hfind, ?_, ?_⟩
  · rw [hput]
    exact (newList_away runs.session name l.limit).symm
  · -- an empty list has nothing to tear down, so nothing can take its place meanwhile
    rintro again (rfl | rfl)
    · have hruns : ((ended.session.away name).runAll []).session.lists.find? name = none := by
        rw [runAll_nil_session]
        exact Named.find?_without_self ..
      obtain ⟨-, hreply, hjournal⟩ := (perform_destroy shown hfind).1 hruns
      rw [runAll_nil_result] at hreply hjournal
      exact ⟨hreply, hjournal⟩
    · obtain ⟨-, hreply, hjournal⟩ := perform_dropList shown hfind
      rw [runAll_nil_result] at hreply hjournal
      exact ⟨hreply, hjournal⟩

end

/-- The first of two destructors panics, and the list is empty all the same. -/
theorem destroy_of_first_panic :
    let first : Destructor := .mk "first" [] (some "boom")
    let second : Destructor := .mk "second" [] none
    let l : SlotList String Destructor := ⟨[⟨some "x", some first⟩, ⟨some "y", some second⟩], some 2⟩
    let σ : Session := ({} : Session).putList "l" l
    let destroyed := σ.perform (.mk (.destroy "l") none none)
    σ.lists.find? "l" = some l ∧
    destroyed.result.summary.reply = .panicked "boom" ∧
    destroyed.session.lists.find? "l" = some { limit := some 2 } := by
  intro first second l σ destroyed
  have h : σ.lists.find? "l" = some l := Named.find?_put_self ..
  obtain ⟨-, -, -, -, hnone, -, hfind, -⟩ := destroy_runs_ascending_prefix (none, none) h
  obtain ⟨hsession, htext, -⟩ := runAll_panic (σ.away "l") (p := ⟨some "x", some first⟩)
    (v := "x") (d := first) rfl (rfl : first.panic = some "boom") [⟨some "y", some second⟩]
  have hempty : ((σ.away "l").runAll l.entries).session.lists.find? "l" = none := by
    rw [hsession, Destructor.script, carryOut_nil_session]
    exact Named.find?_without_self ..
  obtain ⟨hended, hreply, -⟩ := hnone hempty
  rw [htext] at hreply
  rw [← hended] at hfind
  exact ⟨h, hreply, hfind⟩

end Session

end SlotStore
