import SlotStore.Proofs.Allocator.Request

/-!
# The table is as long as its peak

A period begins when a slot is issued while none is live, and ends when the last live slot is freed.
The table of an allocator is as long as the largest number of slots that were live at once in the
current period, which is one more than the largest slot issued in it
(`table_as_long_as_its_peak`). So no slot is ever issued that reaches the peak.

What one request does to the length is all the table contributes (`serve_length`): the length stays,
or the table is dropped, or it was full and grows by the slot that is issued. The rest concerns the
history of the run, which the table itself does not keep.
-/

namespace SlotStore.Allocator

/-! ## Moments of a run -/

/-- What a request comes to: the slot that it issues, if it issues one, and the number of slots that
are live then. -/
structure Moment where
  issued : Option Slot
  used : Nat

def Response.issued? : Response → Option Slot
  | .slot (.ok s) => some s
  | _ => none

def moment (a : Allocator) (q : Request) : Moment where
  issued := (a.serve q).2.issued?
  used := (a.serve q).1.stats.used

/-- What the requests of a run come to, one after the other. -/
def moments (a : Allocator) : List Request → List Moment
  | [] => []
  | q :: requests => a.moment q :: (a.serve q).1.moments requests

/-- The moments since the last one at which no slot was live. The latest comes first, here and in
what is given. -/
def period (past : List Moment) : List Moment := past.takeWhile fun m => m.used != 0

/-! ## One request -/

variable {a : Allocator} {past : List Moment}

theorem length_of_unchanged {q : Request} {r : Response} (he : a.serve q = (a, r))
    (hr : r.issued? = none) :
    (a.moment q).used = 0 ∨
    a.used ≠ 0 ∧ (a.serve q).1.table.length = a.table.length ∧
      ∀ s, (a.moment q).issued = some s → s.index < a.table.length := by
  rw [moment, he]
  by_cases hz : a.used = 0
  · exact Or.inl hz
  · refine Or.inr ⟨hz, rfl, fun s hs => ?_⟩
    rw [hr] at hs
    cases hs

/-- All that a request can do to the length of a table: the table is empty afterwards; or it was not
empty and is as long as before, and if a slot is issued it lies within; or the table was full and
has one more entry, that of the slot issued. -/
theorem serve_length (hw : a.WellFormed) (q : Request) :
    (a.moment q).used = 0 ∨
    (a.used ≠ 0 ∧ (a.serve q).1.table.length = a.table.length ∧
      ∀ s, (a.moment q).issued = some s → s.index < a.table.length) ∨
    (a.moment q).used = a.table.length + 1 ∧
      (a.serve q).1.table.length = a.table.length + 1 ∧
      (a.moment q).issued = some ⟨a.table.length⟩ := by
  cases q with
  | allocate m =>
    rcases allocate_cases m a with ⟨i, hh, he⟩ | ⟨n, _, _, _, he⟩ | ⟨hh, _, _, he⟩ | ⟨_, _, _, he⟩
    · right
      left
      have hi := hole_lt_length hh
      refine ⟨used_ne_zero_of_lt_length hw hi, ?_, fun s hs => ?_⟩
      · rw [serve, he]
        exact List.length_set
      · rw [moment, serve, he] at hs
        cases hs
        exact hi
    · exact (length_of_unchanged (by rw [serve, he]; rfl) rfl).imp_right Or.inl
    · right
      right
      rw [moment, serve, he]
      refine ⟨?_, List.length_append, rfl⟩
      show a.used + 1 = _
      rw [used_eq_length_of_hole hw hh]
    · exact (length_of_unchanged (by rw [serve, he]; rfl) rfl).imp_right Or.inl
  | free s =>
    by_cases hs : a.isLive s = true
    · rw [moment, serve, free_of_isLive hs]
      by_cases hz : a.used - 1 = 0
      · left
        show (a.vacate s.index).used = 0
        rw [vacate, if_pos hz]
      · right
        left
        refine ⟨fun h => hz (by omega), ?_, fun t ht => by cases ht⟩
        show (a.vacate s.index).table.length = _
        rw [vacate, if_neg hz]
        exact List.length_set
    · exact (length_of_unchanged (by rw [serve, free_of_not_isLive hs]; rfl) rfl).imp_right Or.inl
  | isLive s => exact (length_of_unchanged rfl rfl).imp_right Or.inl
  | used => exact (length_of_unchanged rfl rfl).imp_right Or.inl

/-! ## The peak -/

/-- The table is as long as the moments of the current period require and no longer: some moment had
so many slots live, and some moment issued the last slot of the table. -/
structure Peaked (a : Allocator) (past : List Moment) : Prop where
  used_le : ∀ m ∈ period past, m.used ≤ a.table.length
  issued_lt : ∀ m ∈ period past, ∀ s, m.issued = some s → s.index < a.table.length
  filled : a.used ≠ 0 → ∃ m ∈ period past, m.used = a.table.length
  reached : a.used ≠ 0 → ∃ m ∈ period past, ∃ s, m.issued = some s ∧ s.index + 1 = a.table.length

theorem peaked_empty (limit : Option Nat) : (empty limit).1.Peaked [] where
  used_le := List.forall_mem_nil _
  issued_lt := List.forall_mem_nil _
  filled h := absurd rfl h
  reached h := absurd rfl h

theorem period_cons {m : Moment} (h : m.used ≠ 0) : period (m :: past) = m :: period past :=
  List.takeWhile_cons_of_pos (bne_iff_ne.mpr h)

theorem period_cons_of_zero {m : Moment} (h : m.used = 0) : period (m :: past) = [] :=
  List.takeWhile_cons_of_neg (by rw [h]; decide)

theorem peaked_of_zero {m : Moment} (hm : m.used = 0) (ha : a.used = 0) :
    a.Peaked (m :: past) := by
  have hperiod : period (m :: past) = [] := period_cons_of_zero hm
  refine ⟨?_, ?_, fun hne => absurd ha hne, fun hne => absurd ha hne⟩
  all_goals
    rw [hperiod]
    exact List.forall_mem_nil _

section
variable {b : Allocator} {m : Moment} (h : a.Peaked past)
include h

theorem Peaked.kept (hused : a.used ≠ 0) (hlength : b.table.length = a.table.length)
    (hm : m.used ≠ 0) (hle : m.used ≤ a.table.length)
    (hissued : ∀ s, m.issued = some s → s.index < a.table.length) : b.Peaked (m :: past) := by
  have hperiod : period (m :: past) = m :: period past := period_cons hm
  refine ⟨?_, ?_, fun _ => ?_, fun _ => ?_⟩
  · rw [hperiod, hlength]
    exact List.forall_mem_cons.mpr ⟨hle, h.used_le⟩
  · rw [hperiod, hlength]
    exact List.forall_mem_cons.mpr ⟨hissued, h.issued_lt⟩
  · obtain ⟨m', hm', hfilled⟩ := h.filled hused
    rw [hperiod, hlength]
    exact ⟨m', List.mem_cons_of_mem _ hm', hfilled⟩
  · obtain ⟨m', hm', hreached⟩ := h.reached hused
    rw [hperiod, hlength]
    exact ⟨m', List.mem_cons_of_mem _ hm', hreached⟩

theorem Peaked.grown (hlength : b.table.length = a.table.length + 1)
    (hm : m.used = a.table.length + 1) (hissued : m.issued = some ⟨a.table.length⟩) :
    b.Peaked (m :: past) := by
  have hperiod : period (m :: past) = m :: period past := period_cons (by omega)
  refine ⟨?_, ?_, fun _ => ?_, fun _ => ?_⟩
  · rw [hperiod, hlength]
    exact List.forall_mem_cons.mpr
      ⟨Nat.le_of_eq hm, fun m' hm' => Nat.le_succ_of_le (h.used_le m' hm')⟩
  · rw [hperiod, hlength]
    refine List.forall_mem_cons.mpr ⟨fun s hs => ?_, fun m' hm' s hs => ?_⟩
    · rw [hissued] at hs
      cases hs
      exact Nat.lt_succ_self _
    · exact Nat.lt_succ_of_lt (h.issued_lt m' hm' s hs)
  · rw [hperiod, hlength]
    exact ⟨m, List.mem_cons_self .., hm⟩
  · rw [hperiod, hlength]
    exact ⟨m, List.mem_cons_self .., _, hissued, rfl⟩

end

/-- A request keeps the table as long as its peak. -/
theorem peaked_serve (hw : a.WellFormed) (h : a.Peaked past) (q : Request) :
    (a.serve q).1.Peaked (a.moment q :: past) := by
  by_cases hz : (a.moment q).used = 0
  · exact peaked_of_zero hz hz
  · rcases serve_length hw q with h0 | ⟨hused, hlength, hissued⟩ | ⟨hm, hlength, hissued⟩
    · exact absurd h0 hz
    · have hle : (a.moment q).used ≤ (a.serve q).1.table.length :=
        used_le_length (wellFormed_serve hw q)
      rw [hlength] at hle
      exact h.kept hused hlength hz hle hissued
    · exact h.grown hlength hm hissued

theorem peaked_run (hw : a.WellFormed) (h : a.Peaked past) (requests : List Request) :
    (a.run requests).1.Peaked ((a.moments requests).reverse ++ past) := by
  induction requests generalizing a past with
  | nil => exact h
  | cons q requests ih =>
    rw [moments, List.reverse_cons, List.append_assoc, List.singleton_append]
    exact ih (wellFormed_serve hw q) (peaked_serve hw h q)

/-- **The table wastes nothing.** After every run of a new allocator, whatever failed or was refused
in it, the table has no entry if no slot is live; and otherwise it has as many as the most slots that
were live at once since the last time that none was, which is one more than the largest slot issued
since then. Every slot issued since then is below the number of slots that were live at some moment
since then. -/
theorem table_as_long_as_its_peak (limit : Option Nat) (requests : List Request) :
    let a := ((empty limit).1.run requests).1
    let recent := period ((empty limit).1.moments requests).reverse
    ((∀ s, a.isLive s = false) → a.stats.allocated = 0) ∧
    ((∃ s, a.isLive s = true) →
      (recent.map Moment.used).max? = some a.stats.allocated ∧
      ((recent.filterMap Moment.issued).map fun s => s.index + 1).max? = some a.stats.allocated) ∧
    ∀ s ∈ recent.filterMap Moment.issued, ∃ m ∈ recent, s.index < m.used := by
  intro a recent
  have hw : a.WellFormed := wellFormed_run (wellFormed_empty limit) requests
  have hpeak : a.Peaked (((empty limit).1.moments requests).reverse ++ []) :=
    peaked_run (wellFormed_empty limit) (peaked_empty limit) requests
  rw [List.append_nil] at hpeak
  refine ⟨fun hnone => ?_, fun ⟨s, hs⟩ => ?_, fun s hs => ?_⟩
  · rw [hw.eq_empty hnone]
    rfl
  · have hused : a.used ≠ 0 := Nat.ne_of_gt (used_pos hw hs)
    refine ⟨List.max?_eq_some_iff.mpr ⟨?_, ?_⟩, List.max?_eq_some_iff.mpr ⟨?_, ?_⟩⟩
    · exact List.mem_map.mpr (hpeak.filled hused)
    · exact List.forall_mem_map.mpr hpeak.used_le
    · obtain ⟨m, hm, t, ht, hreached⟩ := hpeak.reached hused
      exact List.mem_map.mpr ⟨t, List.mem_filterMap.mpr ⟨m, hm, ht⟩, hreached⟩
    · rw [List.forall_mem_map]
      intro t ht
      obtain ⟨m, hm, hmt⟩ := List.mem_filterMap.mp ht
      exact hpeak.issued_lt m hm t hmt
  · obtain ⟨m, hm, hms⟩ := List.mem_filterMap.mp hs
    have hlt := hpeak.issued_lt m hm s hms
    obtain ⟨m', hm', hfilled⟩ := hpeak.filled (used_ne_zero_of_lt_length hw hlt)
    exact ⟨m', hm', by rw [hfilled]; exact hlt⟩

end SlotStore.Allocator
