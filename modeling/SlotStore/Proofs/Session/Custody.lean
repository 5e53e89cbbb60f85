import SlotStore.Proofs.Session.History

/-!
# Every pair is in one place

The marks of a marked script tell the pairs of a run apart. After every script each pair that was
brought is in exactly one place, with the destructor with which it was brought and with its value as
its history says, nothing else is anywhere, and what was let go was let go for a reason
(`each_pair_in_one_place`). Hence no destructor runs twice, and each runs on its own value.
-/

namespace SlotStore

variable {α : Type}

def Pair.tag? (p : Pair α (Destructor α)) : Option String := p.destructor.map Destructor.tag

namespace Session

section

variable [HAppend α String α]

/-! ## Tags -/

def tagTrait (tag : String) : Trait α where
  holds p := p.tag? == some tag
  holds_empty := rfl
  holds_append _ _ _ := rfl

omit [HAppend α String α] in
theorem run?_sublist (deeds : List (Deed α)) :
    ((deeds.filterMap Deed.run?).map Prod.fst).Sublist
      ((deeds.map Deed.pair).filterMap Pair.tag?) := by
  induction deeds with
  | nil => exact List.Sublist.refl _
  | cons x deeds ih =>
    cases x with
    | ran v d => exact ih.cons_cons d.tag
    | dropped p loss =>
      have hrest : ((Deed.dropped p loss :: deeds).filterMap Deed.run?).map Prod.fst =
          (deeds.filterMap Deed.run?).map Prod.fst := rfl
      rw [hrest, List.map_cons, List.filterMap_cons]
      split
      · exact ih
      · exact ih.cons _

theorem tags_nodup {script : List (Step α)}
    (h : ((scriptSites script).filterMap Pair.tag?).Nodup) :
    ((logged (({} : Session α).carryOut script).result).map Prod.fst).Nodup := by
  rw [List.nodup_iff_count]
  intro tag
  obtain ⟨hcount, hle⟩ := countP_whereabouts (tagTrait tag) script
  rw [hcount] at hle
  have hsites : (scriptSites script).countP (tagTrait tag).holds ≤ 1 := by
    have := List.nodup_iff_count.mp h tag
    rwa [List.count_filterMap] at this
  rw [logged_eq]
  -- what is logged ran, what ran is somewhere, and what is somewhere was brought
  calc _ ≤ _ := (run?_sublist _).count_le tag
    _ ≤ _ := by
      rw [List.count_filterMap, List.countP_map]
      exact (tagTrait tag).countP_deeds_le _ _
    _ ≤ _ := hle
    _ ≤ 1 := hsites

end

/-! ## Marks -/

section

variable (script : List (Step α))

theorem countP_mark_le_one (n : Nat) :
    let marked := scriptNumber 0 script
    let deeds := (({} : Session (Marked α)).carryOut marked).result.flatMap Answer.deeds
    (brought marked deeds).countP (markTrait n).holds ≤ 1 := by
  intro marked deeds
  have hsites := List.nodup_iff_count.mp (marks_nodup script) n
  rw [List.count_filterMap] at hsites
  exact Nat.le_trans (countP_whereabouts (markTrait n) marked).2 hsites

theorem brought_marks_nodup :
    let marked := scriptNumber 0 script
    let deeds := (({} : Session (Marked α)).carryOut marked).result.flatMap Answer.deeds
    ((brought marked deeds).filterMap Pair.mark?).Nodup := by
  intro marked deeds
  rw [List.nodup_iff_count]
  intro n
  rw [List.count_filterMap]
  exact countP_mark_le_one script n

/-- What was brought is in exactly one place, as its history says. -/
theorem exists_place {n : Nat} {w : Marked α} {d : Option (Destructor (Marked α))} :
    let marked := scriptNumber 0 script
    let run := ({} : Session (Marked α)).carryOut marked
    let deeds := run.result.flatMap Answer.deeds
    Agenda.step^[n] (Agenda.outset {} marked) = ⟨run.session, [.close], deeds⟩ →
    ⟨some w, d⟩ ∈ brought marked deeds →
      ∃ place, (whereabouts run.session deeds).filter (fun x => x.2.mark? == some w.mark) =
        [(place, ⟨some { w with edits := (Agenda.outset {} marked).edits n w.mark }, d⟩)] := by
  intro marked run deeds hn hw
  obtain ⟨hmark, -⟩ := countP_whereabouts (markTrait w.mark) marked
  obtain ⟨hpair, -⟩ := countP_whereabouts (pairTrait w d) marked
  -- one place has the mark
  have hone :
      (whereabouts run.session deeds).countP (fun x => (markTrait w.mark).holds x.2) = 1 := by
    rw [← hmark]
    apply Nat.le_antisymm
    · exact countP_mark_le_one script w.mark
    · exact List.countP_pos_iff.mpr ⟨_, hw, beq_self_eq_true _⟩
  rw [List.countP_eq_length_filter, List.length_eq_one_iff] at hone
  obtain ⟨y, hy⟩ := hone
  -- some place has the pair, and the mark with it
  have hsome : 0 < (whereabouts run.session deeds).countP fun x => (pairTrait w d).holds x.2 := by
    rw [← hpair]
    exact List.countP_pos_iff.mpr ⟨_, hw, pairTrait_holds_iff.mpr ⟨w.edits, rfl⟩⟩
  obtain ⟨x, hx, hxp⟩ := List.countP_pos_iff.mp hsome
  obtain ⟨edits, hxe⟩ := pairTrait_holds_iff.mp hxp
  have hxy : x ∈ (whereabouts run.session deeds).filter fun x => (markTrait w.mark).holds x.2 := by
    refine List.mem_filter.mpr ⟨hx, ?_⟩
    rw [hxe]
    exact beq_self_eq_true _
  rw [hy, List.mem_singleton] at hxy
  have hplace : (x.1, ⟨some { w with edits := edits }, d⟩) ∈ whereabouts
      (Agenda.step^[n] (Agenda.outset {} marked)).session
      (Agenda.step^[n] (Agenda.outset {} marked)).deeds := by
    rw [hn, ← hxe]
    exact hx
  have hedits : edits = (Agenda.outset {} marked).edits n w.mark :=
    Agenda.edits_of_mem_places script hplace
  refine ⟨x.1, hy.trans ?_⟩
  rw [← hxy, ← hedits, ← hxe]

theorem brought_of_mem_places {place : Place} {w : Marked α}
    {d : Option (Destructor (Marked α))} :
    let marked := scriptNumber 0 script
    let run := ({} : Session (Marked α)).carryOut marked
    let deeds := run.result.flatMap Answer.deeds
    (place, ⟨some w, d⟩) ∈ whereabouts run.session deeds →
      ⟨some { w with edits := [] }, d⟩ ∈ brought marked deeds := by
  intro marked run deeds hplace
  obtain ⟨⟨p, hp, hpw⟩, -⟩ := exists_brought (pairTrait w d) marked _ hplace
    (pairTrait_holds_iff.mpr ⟨w.edits, rfl⟩)
  obtain ⟨edits, rfl⟩ := pairTrait_holds_iff.mp hpw
  have hedits : edits = [] := edits_of_mem_sites (mem_sites_of_brought marked _ hp)
  rwa [hedits] at hp

theorem loss_of_place {loss : Loss} {w : Marked α} {d : Destructor (Marked α)} :
    let run := ({} : Session (Marked α)).carryOut (scriptNumber 0 script)
    let deeds := run.result.flatMap Answer.deeds
    (.dropped loss, ⟨some w, some d⟩) ∈ whereabouts run.session deeds →
      loss = .released ∨ loss = .rejected ∨ loss = .panicked := by
  intro run deeds hplace
  have hdeed := mem_whereabouts_dropped_iff.mp hplace
  cases loss with
  | released => exact Or.inl rfl
  | rejected => exact Or.inr (Or.inl rfl)
  | panicked => exact Or.inr (Or.inr rfl)
  | inert =>
    have hnone := runnable?_eq_none_of_inert {} (scriptNumber 0 script) hdeed
    cases hnone

variable [HAppend α String α]

theorem marked_run :
    let run := ({} : Session (Marked α)).carryOut (scriptNumber 0 script)
    (({} : Session α).carryOut script).session = run.session.map Marked.current ∧
    (({} : Session α).carryOut script).result = run.result.map (Answer.map Marked.current) := by
  have h := carryOut_map (f := (Marked.current : Marked α → α)) Marked.current_append {}
    (scriptNumber 0 script)
  rwa [scriptMap_number] at h

/-- What is logged is the tag of a destructor that the script brings, with the value that it brings
with it, and what was put behind that since. -/
theorem logged_value {m : Nat} {σ : Session (Marked α)} {deeds : List (Deed (Marked α))}
    (hm : Agenda.step^[m] (Agenda.outset {} (scriptNumber 0 script)) = ⟨σ, [], deeds⟩)
    (hdeeds : deeds.filterMap Deed.run? = (play (scriptNumber 0 script)).logged) {tag : String}
    {v : α} (h : (tag, v) ∈ (play script).logged) :
    ∃ k original d, (scriptSites script)[k]? = some ⟨some original, some d⟩ ∧ d.tag = tag ∧
      v = edited original ((Agenda.outset {} (scriptNumber 0 script)).edits m k) := by
  have hplay := logged_play_map (f := (Marked.current : Marked α → α)) Marked.current_append
    (scriptNumber 0 script)
  rw [scriptMap_number, ← hdeeds, List.map_filterMap] at hplay
  rw [hplay] at h
  obtain ⟨x, hx, hrun⟩ := List.mem_filterMap.mp h
  cases x with
  | dropped p loss => cases hrun
  | ran w d =>
    cases hrun
    have hmem : ⟨some w, some d⟩ ∈
        (Agenda.step^[m] (Agenda.outset {} (scriptNumber 0 script))).all := by
      rw [hm]
      exact List.mem_append_right _ (List.mem_map.mpr ⟨.ran w d, hx, rfl⟩)
    have hedits := (Agenda.tracked_steps (Agenda.tracked_outset script) m).current _ hmem w rfl
    have hsite := getElem?_mark_of_mem_sites (Agenda.mem_sites_of_mem_all script hmem)
    refine ⟨w.mark, w.original, d.map Marked.current, hsite, ?_, ?_⟩
    · cases d
      rw [Destructor.map]
      rfl
    · rw [← hedits]
      rfl

end

/-- **Each pair is in one place.** Let the pairs that calls bring be marked, which does not change
the run. After every script the pairs that calls brought, at any depth, have different marks, and
each of them is in exactly one place: an entry of a list, held, used up by its destructor, or let go.
It is there with the destructor with which it was brought, and with its value, behind which stand the
texts that calls put there while it was an entry of a list. Nothing else is anywhere.

Following the run step by step, values are at all times as their history says, and each pair that is
let go is let go for a reason: it is handed back and not kept, or it is held and dropped or replaced,
or a call was to store it and failed, or there is nothing to run, or a destructor before it panicked
in the same teardown. There is no other reason in the beginning of a call or in a teardown. A held
pair that is finalized runs its destructor if it has one and a value, and one that is dropped does
not.

So destructors with different tags are not logged twice in a whole session, and each is logged with
the value of its own pair, as calls changed it. -/
theorem each_pair_in_one_place [HAppend α String α] (script : List (Step α)) :
    let marked := scriptNumber 0 script
    let run := ({} : Session (Marked α)).carryOut marked
    let deeds := run.result.flatMap Answer.deeds
    let places := whereabouts run.session deeds
    let outset := Agenda.outset {} marked
    (({} : Session α).carryOut script).session = run.session.map Marked.current ∧
    (({} : Session α).carryOut script).result = run.result.map (Answer.map Marked.current) ∧
    ((brought marked deeds).filterMap Pair.mark?).Nodup ∧
    (∃ n, Agenda.step^[n] outset = ⟨run.session, [.close], deeds⟩ ∧
      ∀ w d, ⟨some w, d⟩ ∈ brought marked deeds → w.edits = [] ∧ ∃ place,
        places.filter (fun x => x.2.mark? == some w.mark) =
          [(place, ⟨some { w with edits := outset.edits n w.mark }, d⟩)]) ∧
    (∀ place w d, (place, ⟨some w, d⟩) ∈ places →
      ⟨some { w with edits := [] }, d⟩ ∈ brought marked deeds) ∧
    (∀ loss w d, (.dropped loss, ⟨some w, some d⟩) ∈ places →
      loss = .released ∨ loss = .rejected ∨ loss = .panicked) ∧
    (∀ n, let x := Agenda.step^[n] outset
      (∀ place w d, (place, ⟨some w, d⟩) ∈ whereabouts x.session x.deeds →
        w.edits = outset.edits n w.mark) ∧
      ∀ p loss, .dropped p loss ∈ x.deeds → ∃ i < n, outset.LetsGo i p loss) ∧
    (∀ (σ : Session α) (c : Call α), Explained σ c (σ.start c)) ∧
    (∀ (σ : Session α) ps p loss, .dropped p loss ∈ (σ.runAll ps).result.2 →
      p ∈ ps ∧ (loss = .inert ∧ p.runnable? = none ∨
        loss = .panicked ∧ ∃ before v d inner after,
          (σ.runAll ps).result.2 = before ++ .ran v d inner :: after ∧ d.panic.isSome ∧
          .dropped p .panicked ∈ after)) ∧
    (∀ (σ : Session α) name p (shown : Option String × Option String),
      σ.held.find? name = some p →
      let finalized := (σ.perform (.mk (.finalize name) shown.1 shown.2)).result.journal
      let dropped := (σ.perform (.mk (.dropHeld name) shown.1 shown.2)).result.journal
      (p.runnable? = none → finalized = [.dropped p .inert]) ∧
      (∀ v d, p.runnable? = some (v, d) → ∃ inner, finalized = [.ran v d inner]) ∧
      dropped = [.dropped p .released]) ∧
    (((scriptSites script).filterMap Pair.tag?).Nodup →
      ((play script).logged.map Prod.fst).Nodup) ∧
    ∃ m, (Agenda.step^[m] outset).tasks = [] ∧ ∀ tag v, (tag, v) ∈ (play script).logged →
      ∃ k original d, (scriptSites script)[k]? = some ⟨some original, some d⟩ ∧ d.tag = tag ∧
        v = edited original (outset.edits m k) := by
  intro marked run deeds places outset
  obtain ⟨hsession, hresult⟩ := marked_run script
  obtain ⟨n, hn⟩ := agenda_hereditary.carryOut {} marked [.close] []
  obtain ⟨more, hsites, hlogged⟩ := play_logged script
  obtain ⟨all, ⟨m, hm⟩, hall⟩ := leads_play marked
  refine ⟨hsession, hresult, brought_marks_nodup script, ⟨n, hn, ?_⟩, ?_, ?_, ?_, start_notes, ?_,
    ?_, ?_, m, congrArg Agenda.tasks hm, ?_⟩
  · intro w d hw
    exact ⟨edits_of_mem_sites (mem_sites_of_brought marked _ hw), exists_place script hn hw⟩
  · intro place w d hplace
    exact brought_of_mem_places script hplace
  · intro loss w d hplace
    exact loss_of_place script hplace
  · intro i x
    exact ⟨fun place w d hplace => Agenda.edits_of_mem_places script hplace,
      fun p loss hp => Agenda.letsGo_outset hp⟩
  · intro σ ps p loss hp
    exact runAll_notes σ ps hp
  · intro σ name p shown hp
    obtain ⟨hinert, hruns⟩ := perform_finalize hp shown
    exact ⟨hinert, hruns, perform_dropHeld hp shown⟩
  · intro htags
    rw [hlogged]
    rw [← hsites] at htags
    exact tags_nodup htags
  · intro tag v hv
    exact logged_value script hm hall hv

end Session

end SlotStore
